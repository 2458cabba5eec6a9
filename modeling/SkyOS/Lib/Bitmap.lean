import Mathlib.Algebra.GroupWithZero.Nat
import Mathlib.Data.Finset.Card
import Mathlib.Order.Interval.Finset.Nat

/-!
# Bitmaps in machine words

An array of `w`-bit words; bit `n` of the whole bitmap is bit `n % w` of word `n / w`. `mark` and `unmark` are
the OR with a shifted one and the AND with its complement. What they do to the set `ones` of marked numbers
is `insert` and `erase`, so counting marked numbers is `Finset.card`.
-/

namespace Bitmap

open Nat BitVec Bool

variable {w : Nat}

/-- Bit `n` of the bitmap. -/
def bit (m : Nat → BitVec w) (n : Nat) : Bool := (m (n / w)).getLsbD (n % w)

def mark (m : Nat → BitVec w) (n : Nat) : Nat → BitVec w :=
  Function.update m (n / w) (m (n / w) ||| 1#w <<< (n % w))

def unmark (m : Nat → BitVec w) (n : Nat) : Nat → BitVec w :=
  Function.update m (n / w) (m (n / w) &&& ~~~(1#w <<< (n % w)))

/-- The marked numbers below `N`. -/
def ones (m : Nat → BitVec w) (N : Nat) : Finset Nat := {n ∈ Finset.range N | bit m n}

/-- Marks `n`, `n + 1`, … (`k` numbers), in this order. -/
def markRange (m : Nat → BitVec w) (n k : Nat) : Nat → BitVec w :=
  (List.range k).foldl (fun m i => mark m (n + i)) m

def unmarkRange (m : Nat → BitVec w) (n k : Nat) : Nat → BitVec w :=
  (List.range k).foldl (fun m i => unmark m (n + i)) m

theorem markRange_succ (m : Nat → BitVec w) (n k : Nat) :
    markRange m n (k + 1) = mark (markRange m n k) (n + k) := by
  rw [markRange, List.range_succ, List.foldl_append]
  rfl

theorem unmarkRange_succ (m : Nat → BitVec w) (n k : Nat) :
    unmarkRange m n (k + 1) = unmark (unmarkRange m n k) (n + k) := by
  rw [unmarkRange, List.range_succ, List.foldl_append]
  rfl

variable {n i N : Nat}

theorem findSome_range {β : Type} {f : Nat → Option β} {b : β} (h : (List.range n).findSome? f = some b) :
    ∃ i < n, f i = some b ∧ ∀ k < i, f k = none := by
  induction n with
  | zero => cases h
  | succ n ih =>
    rw [List.range_succ, List.findSome?_append, Option.or_eq_some_iff] at h
    rcases h with h | ⟨hnone, h⟩
    · obtain ⟨i, hi, hf, hbefore⟩ := ih h
      exact ⟨i, by omega, hf, hbefore⟩
    · rw [List.findSome?_singleton] at h
      refine ⟨n, by omega, h, ?_⟩
      intro k hk
      exact List.findSome?_eq_none_iff.1 hnone k (List.mem_range.2 hk)

/-! ## The single bits -/

theorem getLsbD_one_shiftLeft (hi : i < w) (j : Nat) : (1#w <<< i).getLsbD j = decide (j = i) := by
  rw [← twoPow_eq, getLsbD_twoPow]
  by_cases hji : j = i
  · subst hji
    simp [hi]
  · simp [hji, Ne.symm hji]

theorem word_bit_eq_iff {j : Nat} (h : i / w = j / w) : i % w = j % w ↔ i = j := by
  constructor
  · intro hmod
    rw [← div_add_mod i w, ← div_add_mod j w, h, hmod]
  · rintro rfl
    rfl

theorem and_one_shiftLeft_eq_zero (hi : i < w) (v : BitVec w) :
    v &&& 1#w <<< i = 0#w ↔ v.getLsbD i = false := by
  constructor
  · intro hzero
    have hbit := congrArg (fun u : BitVec w => u.getLsbD i) hzero
    simpa [getLsbD_and, getLsbD_one_shiftLeft hi] using hbit
  · intro hbit
    apply eq_of_getLsbD_eq
    intro j hj
    rw [getLsbD_and, getLsbD_one_shiftLeft hi, getLsbD_zero]
    by_cases hji : j = i
    · subst hji
      simp [hbit]
    · simp [hji]

theorem mem_ones {m : Nat → BitVec w} : n ∈ ones m N ↔ n < N ∧ bit m n = true := by
  rw [ones, Finset.mem_filter, Finset.mem_range]

variable [NeZero w] (m : Nat → BitVec w)

theorem bit_mark (n i : Nat) : bit (mark m n) i = (decide (i = n) || bit m i) := by
  unfold bit mark
  by_cases hword : i / w = n / w
  · have hbit := word_bit_eq_iff hword
    rw [hword, Function.update_self, getLsbD_or,
      getLsbD_one_shiftLeft (mod_lt n (pos_of_neZero w)), Bool.or_comm]
    simp only [hbit]
  · have hne : i ≠ n := by
      rintro rfl
      exact hword rfl
    rw [Function.update_of_ne hword]
    simp [hne]

theorem bit_unmark (n i : Nat) : bit (unmark m n) i = (!decide (i = n) && bit m i) := by
  unfold bit unmark
  by_cases hword : i / w = n / w
  · have hbit := word_bit_eq_iff hword
    have hlt : i % w < w := mod_lt i (pos_of_neZero w)
    rw [hword, Function.update_self, getLsbD_and, getLsbD_not,
      getLsbD_one_shiftLeft (mod_lt n (pos_of_neZero w)), Bool.and_comm]
    simp only [hbit, hlt, decide_true, Bool.true_and]
  · have hne : i ≠ n := by
      rintro rfl
      exact hword rfl
    rw [Function.update_of_ne hword]
    simp [hne]

/-! ## Ranges -/

theorem bit_markRange (n k i : Nat) :
    bit (markRange m n k) i = (decide (n ≤ i ∧ i < n + k) || bit m i) := by
  induction k with
  | zero =>
    simp [markRange]
  | succ k ih =>
    rw [markRange_succ, bit_mark, ih, ← Bool.or_assoc]
    congr 1
    rw [Bool.eq_iff_iff]
    simp only [or_eq_true, decide_eq_true_eq]
    omega

theorem bit_unmarkRange (n k i : Nat) :
    bit (unmarkRange m n k) i = (!decide (n ≤ i ∧ i < n + k) && bit m i) := by
  induction k with
  | zero =>
    have hnone : decide (n ≤ i ∧ i < n + 0) = false := decide_eq_false (by omega)
    rw [hnone]
    rfl
  | succ k ih =>
    rw [unmarkRange_succ, bit_unmark, ih, ← Bool.and_assoc]
    congr 1
    rw [Bool.eq_iff_iff]
    simp only [and_eq_true, not_eq_true', decide_eq_false_iff_not]
    omega

variable {m}

theorem card_ones_markRange {k : Nat} (hN : n + k ≤ N) (hfree : ∀ i, n ≤ i → i < n + k → bit m i = false) :
    (ones (markRange m n k) N).card = (ones m N).card + k := by
  have hunion : ones (markRange m n k) N = ones m N ∪ Finset.Ico n (n + k) := by
    ext i
    rw [Finset.mem_union, Finset.mem_Ico, mem_ones, mem_ones, bit_markRange]
    simp only [or_eq_true, decide_eq_true_eq]
    constructor
    · rintro ⟨hi, hnew | hold⟩
      · exact .inr hnew
      · exact .inl ⟨hi, hold⟩
    · rintro (⟨hi, hold⟩ | hnew)
      · exact ⟨hi, .inr hold⟩
      · exact ⟨by omega, .inl hnew⟩
  have hdisjoint : Disjoint (ones m N) (Finset.Ico n (n + k)) := by
    rw [Finset.disjoint_left]
    intro i hi hmem
    rw [Finset.mem_Ico] at hmem
    have hone := (mem_ones.1 hi).2
    rw [hfree i hmem.1 hmem.2] at hone
    cases hone
  rw [hunion, Finset.card_union_of_disjoint hdisjoint, card_Ico, Nat.add_sub_cancel_left]

theorem card_ones_unmarkRange {k : Nat} (hN : n + k ≤ N) (hused : ∀ i, n ≤ i → i < n + k → bit m i = true) :
    (ones (unmarkRange m n k) N).card + k = (ones m N).card := by
  have hsdiff : ones (unmarkRange m n k) N = ones m N \ Finset.Ico n (n + k) := by
    ext i
    rw [Finset.mem_sdiff, Finset.mem_Ico, mem_ones, mem_ones, bit_unmarkRange]
    simp only [and_eq_true, not_eq_true', decide_eq_false_iff_not]
    constructor
    · rintro ⟨hi, hnot, hold⟩
      exact ⟨⟨hi, hold⟩, hnot⟩
    · rintro ⟨⟨hi, hold⟩, hnot⟩
      exact ⟨hi, hnot, hold⟩
  have hsubset : Finset.Ico n (n + k) ⊆ ones m N := by
    intro i hi
    rw [Finset.mem_Ico] at hi
    exact mem_ones.2 ⟨by omega, hused i hi.1 hi.2⟩
  have hcard := Finset.card_sdiff_add_card_eq_card hsubset
  rw [card_Ico, Nat.add_sub_cancel_left] at hcard
  rw [hsdiff]
  exact hcard

end Bitmap
