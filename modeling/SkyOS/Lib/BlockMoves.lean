import Mathlib.Algebra.Order.Ring.Int
import Mathlib.Data.List.Pairwise
import Mathlib.Tactic.Ring

/-!
# Sequences of block moves

A move copies a block of a memory to another place, as `memmove` does: all of it is read before anything is written.
After a sequence of moves a byte holds what some byte held before it, and which one that is (`trace`) depends on the
moves only. Blocks may overlap. Where no move disturbs what a later one reads (`Undisturbed`), each covered byte has
what its move has read from the memory as it was at the start.
-/

namespace BlockMoves

open List

structure Move where
  dst : Int
  src : Int
  size : Int
deriving DecidableEq, Repr

variable {α : Type*} {m : Move} {ms ms' : List Move} {a b : Int}

namespace Move

def Covers (m : Move) (a : Int) : Prop := m.dst ≤ a ∧ a < m.dst + m.size
  deriving Decidable

def origin (m : Move) (a : Int) : Int := if m.Covers a then a - m.dst + m.src else a

def apply (m : Move) (mem : Int → α) : Int → α := fun a => mem (m.origin a)

theorem origin_of_covers (h : m.Covers a) : m.origin a = a - m.dst + m.src := if_pos h

theorem origin_of_not_covers (h : ¬ m.Covers a) : m.origin a = a := if_neg h

end Move

def trace : List Move → Int → Int
  | [], a => a
  | m :: ms, a => m.origin (trace ms a)

def run (allowed : Move → Prop) [DecidablePred allowed] (ms : List Move) (mem : Int → α) : Option (Int → α) :=
  ms.foldlM (fun mem m => if allowed m then some (m.apply mem) else none) mem

section

variable (allowed : Move → Prop) [DecidablePred allowed]
include allowed

theorem run_cons (m : Move) (ms : List Move) (mem : Int → α) :
    run allowed (m :: ms) mem = (if allowed m then some (m.apply mem) else none).bind (run allowed ms) := rfl

theorem run_append (ms ms' : List Move) (mem : Int → α) :
    run allowed (ms ++ ms') mem = (run allowed ms mem).bind (run allowed ms') := foldlM_append

theorem run_eq (ms : List Move) : ∀ mem : Int → α,
    run allowed ms mem = if ∀ m ∈ ms, allowed m then some fun a => mem (trace ms a) else none := by
  induction ms with
  | nil =>
    intro mem
    rw [if_pos fun m hm => absurd hm not_mem_nil]
    rfl
  | cons m ms ih =>
    intro mem
    rw [run_cons]
    by_cases hm : allowed m
    · rw [if_pos hm, Option.bind_some, ih]
      simp only [forall_mem_cons, hm, true_and]
      rfl
    · rw [if_neg hm, Option.bind_none, if_neg fun h => hm (h m mem_cons_self)]

end

theorem trace_append (ms ms' : List Move) (a : Int) : trace (ms ++ ms') a = trace ms (trace ms' a) := by
  induction ms with
  | nil => rfl
  | cons m ms ih => rw [cons_append, trace, ih, trace]

theorem trace_of_not_covers (h : ∀ m ∈ ms, ¬ m.Covers a) : trace ms a = a := by
  induction ms with
  | nil => rfl
  | cons m ms ih =>
    rw [trace, ih fun m' hm' => h m' (mem_cons_of_mem m hm')]
    exact Move.origin_of_not_covers (h m (.head _))

/-- A later move that covers a byte finds what it reads as it was, and earlier ones would have put the same there. -/
def Undisturbed (ms : List Move) : Prop :=
  ms.Pairwise fun m m' => ∀ a, m'.Covers a → ¬ m.Covers (m'.origin a) ∧ (m.Covers a → m.origin a = m'.origin a)

/-- **The last move that covers a byte** has put there what it has read at the start. -/
theorem Undisturbed.trace_eq (h : Undisturbed ms) : ∀ {m : Move}, m ∈ ms → m.Covers a → trace ms a = m.origin a := by
  induction ms with
  | nil => exact fun hm _ => absurd hm not_mem_nil
  | cons first ms ih =>
    intro m hm ha
    obtain ⟨hfirst, hrest⟩ := pairwise_cons.1 h
    rw [trace]
    by_cases hlater : ∃ m' ∈ ms, m'.Covers a
    · obtain ⟨m', hm', ha'⟩ := hlater
      have htrace := ih hrest hm' ha'
      obtain ⟨hread, hsame⟩ := hfirst m' hm' a ha'
      rw [htrace, Move.origin_of_not_covers hread]
      rcases mem_cons.1 hm with rfl | hmem
      · exact (hsame ha).symm
      · rw [← htrace, ih hrest hmem ha]
    · have hnone : ∀ m' ∈ ms, ¬ m'.Covers a := fun m' hm' ha' => hlater ⟨m', hm', ha'⟩
      rw [trace_of_not_covers hnone]
      rcases mem_cons.1 hm with rfl | hmem
      · rfl
      · exact absurd ha (hnone m hmem)

/-- Where all moves go the same way, contents go that way some number of times, and at least once where a move
covers. -/
theorem trace_of_shift {shift : Int} (h : ∀ m ∈ ms, m.dst - m.src = shift) (a : Int) :
    ∃ n : Nat, trace ms a = a - n * shift ∧ ((∃ m ∈ ms, m.Covers a) → 0 < n) := by
  induction ms with
  | nil =>
    refine ⟨0, by simp [trace], ?_⟩
    rintro ⟨m, hm, -⟩
    exact absurd hm not_mem_nil
  | cons m ms ih =>
    obtain ⟨n, htrace, hpos⟩ := ih fun m' hm' => h m' (mem_cons_of_mem m hm')
    have hshift := h m (.head _)
    by_cases hm : m.Covers (trace ms a)
    · refine ⟨n + 1, ?_, fun _ => Nat.succ_pos n⟩
      rw [trace, Move.origin_of_covers hm, htrace, ← hshift]
      push_cast
      ring
    · refine ⟨n, by rw [trace, Move.origin_of_not_covers hm, htrace], ?_⟩
      rintro ⟨m', hm', ha'⟩
      rcases mem_cons.1 hm' with rfl | hmem
      · refine Nat.pos_of_ne_zero fun hzero => hm ?_
        rw [htrace, hzero, Nat.cast_zero, Int.zero_mul, Int.sub_zero]
        exact ha'
      · exact hpos ⟨m', hmem, ha'⟩

theorem eq_of_forall_mem {x y : α} (hxy : x ≠ y) (h : ∀ mem : Int → α, mem a = mem b) : a = b := by
  by_contra hab
  have hmem := h fun c => if c = a then x else y
  rw [if_pos rfl, if_neg (Ne.symm hab)] at hmem
  exact hxy hmem

end BlockMoves
