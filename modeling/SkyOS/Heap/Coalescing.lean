import Mathlib.Data.List.Chain
import SkyOS.Heap.Requests

/-!
# Coalescing (`hfree`, "unify left" and "unify right")

A block that is freed joins the holes on both sides of it, so that no two holes touch, and when all is freed there is one
hole. The footers that `hfree` goes by are those of `HeapInv`; that nothing outside the heap looks like a hole next to it is
part of `Request.fits`.
-/

namespace KHeap

open Machine Bytes OrderedArrays List

def Coalesced (blocks : List Block) : Prop := blocks.IsChain fun a b => a.hole = true → b.hole = false

variable {r r' : Run} {blocks blocks' left right : List Block} {b : Block}

theorem Coalesced.replace {new : List Block} (h : Coalesced (left ++ b :: right)) (hb : b.hole = true)
    (hnew : Coalesced new) :
    Coalesced (left ++ new ++ right) := by
  obtain ⟨hleft, hrest, hlast⟩ := isChain_append.1 h
  obtain ⟨hhead, hright⟩ := isChain_cons.1 hrest
  refine isChain_append.2 ⟨isChain_append.2 ⟨hleft, hnew, fun x hx y _ hxhole => ?_⟩, hright, fun x _ y hy _ => ?_⟩
  · have := hlast x hx b rfl hxhole
    rw [hb] at this
    cases this
  · exact hhead y hy hb

theorem Coalesced.between (hbefore : Coalesced left) (hafter : Coalesced right)
    (hleft : ∀ l ∈ left.getLast?, l.hole = false)
    (hright : ∀ d ∈ right.head?, d.hole = false) : Coalesced (left ++ b :: right) := by
  refine isChain_append.2 ⟨hbefore, isChain_cons.2 ⟨fun d hd _ => hright d hd, hafter⟩, fun x hx y _ hxhole => ?_⟩
  rw [hleft x hx] at hxhole
  cases hxhole

theorem Coalesced.live_before {l : Block} (h : Coalesced (left ++ [l])) (hl : l.hole = true) :
    ∀ x ∈ left.getLast?, x.hole = false := by
  intro x hx
  refine Bool.eq_false_iff.2 fun hxhole => ?_
  have := (isChain_append.1 h).2.2 x hx l rfl hxhole
  rw [hl] at this
  cases this

theorem Coalesced.live_after (h : Coalesced (b :: right)) (hb : b.hole = true) : ∀ x ∈ right.head?, x.hole = false :=
  fun x hx => (isChain_cons.1 h).1 x hx hb

theorem coalesced_takeBlocks (b : Block) (new_size : Nat) : Coalesced (takeBlocks b new_size) := by
  unfold takeBlocks
  split <;> simp [Coalesced]

theorem coalesced_alignBlocks (b : Block) (size : Nat) : Coalesced (alignBlocks b size) := by
  unfold alignBlocks
  split <;> simp [Coalesced]

/-- **A release.** Whatever the neighbours are, the new hole has none afterwards. -/
theorem coalesced_released {left' right' : List Block} {s s' : State} {c' : Block} (h : Coalesced (left ++ b :: right))
    (hreleased : Released s s' left { b with hole := true } right left' c' right') : Coalesced (left' ++ c' :: right') := by
  obtain ⟨c, do_add, joined, hjoinLeft, hjoinRight, -⟩ := hreleased
  obtain ⟨hbefore, hrest, -⟩ := isChain_append.1 h
  have hafter : Coalesced right := (isChain_cons.1 hrest).2
  have hleft : Coalesced left' ∧ ∀ l ∈ left'.getLast?, l.hole = false := by
    cases hjoinLeft with
    | stays hno =>
      refine ⟨hbefore, fun l hl => ?_⟩
      obtain ⟨before, heq⟩ := List.getLast?_eq_some_iff.1 hl
      exact hno before l heq
    | joins hhole hfin => exact ⟨hbefore.left_of_append, Coalesced.live_before hbefore hhole⟩
  have hright : Coalesced right' ∧ ∀ d ∈ right'.head?, d.hole = false := by
    cases hjoinRight with
    | stays hno =>
      refine ⟨hafter, fun d hd => ?_⟩
      obtain ⟨after, heq⟩ := List.head?_eq_some_iff.1 hd
      exact hno d after heq
    | joins hhole hfin => exact ⟨(isChain_cons.1 hafter).2, Coalesced.live_after hafter hhole⟩
  exact Coalesced.between hleft.1 hright.1 hleft.2 hright.2

variable {c : Request}

theorem coalesced_of_outcome (h : Coalesced blocks) (ho : Outcome r r' c blocks blocks') : Coalesced blocks' := by
  cases ho with
  | taken hhole => exact h.replace hhole (coalesced_takeBlocks _ _)
  | aligned hhole => exact h.replace hhole (coalesced_alignBlocks _ _)
  | released hlive hreleased => exact coalesced_released h hreleased
  | stored => exact h

/-! ## Runs -/

def OneHole (r : Run) (blocks : List Block) : Prop :=
  blocks = [⟨r.kheap.start_address, r.kheap.end_address - r.kheap.start_address, true⟩] ∧ r.kheap.index.size = 1 ∧
    entries r.memory r.kheap.index = [r.kheap.start_address]

theorem Tiled.oneHole (h : Tiled r blocks) (hcoalesced : Coalesced blocks) (hne : blocks ≠ []) (hlive : r.live = []) :
    OneHole r blocks := by
  have hnone : liveBlocks blocks = [] := by
    have hperm := h.live
    rw [hlive] at hperm
    exact map_eq_nil_iff.1 hperm.symm.eq_nil
  have hholes : ∀ b ∈ blocks, b.hole = true := by
    intro b hb
    by_contra hbhole
    have : b ∈ liveBlocks blocks := mem_filter.2 ⟨hb, by simpa using hbhole⟩
    rw [hnone] at this
    cases this
  have hlaid := h.heap.laid
  cases blocks with
  | nil => exact absurd rfl hne
  | cons b rest =>
    have hb := hholes b (by simp)
    cases rest with
    | cons d after =>
      have hd := List.IsChain.rel hcoalesced hb
      rw [hholes d (by simp)] at hd
      cases hd
    | nil =>
      obtain ⟨hstart, -, -, hend⟩ := hlaid
      replace hend : b.header + b.size = r.kheap.end_address := hend
      have hblock : b = ⟨r.kheap.start_address, r.kheap.end_address - r.kheap.start_address, true⟩ := by
        rw [← hstart, ← hend, Nat.add_sub_cancel_left, ← hb]
      have hperm : (entries r.memory r.kheap.index).Perm [b.header] := by
        have hindex := h.heap.index
        rwa [holeHeaders_cons_hole hb] at hindex
      have hlength : (entries r.memory r.kheap.index).length = r.kheap.index.size := length_words _ _ _
      rw [OneHole, ← hlength, perm_singleton.1 hperm, hstart]
      exact ⟨congrArg ([·]) hblock, rfl, rfl⟩

theorem outcome_ne_nil (hne : blocks ≠ []) (ho : Outcome r r' c blocks blocks') : blocks' ≠ [] := by
  cases ho with
  | taken =>
    unfold takeBlocks
    split <;> simp
  | aligned =>
    unfold alignBlocks
    split <;> simp
  | released => simp
  | stored => exact hne

/-- **Coalescing.** In every run whose calls stay in the heap and its index no two holes touch, and when all blocks are
freed there is one hole. -/
theorem heap_coalesced (h : requests.ReachVia (fun r c => c.fits r) r) :
    ∃ blocks, HeapRight r blocks ∧ Coalesced blocks ∧ (r.live = [] → OneHole r blocks) := by
  have hinv : ∃ blocks, Tiled r blocks ∧ Coalesced blocks ∧ blocks ≠ [] := by
    refine StepSystem.ReachVia.invariant (fun r => ∃ blocks, Tiled r blocks ∧ Coalesced blocks ∧ blocks ≠ []) ?_ ?_ h
    · intro r h0
      obtain ⟨blocks, htiled⟩ := tiled_init h0
      obtain ⟨m, index, start, end_addr, -, -, -, -, hfresh⟩ := h0
      obtain ⟨b, rfl, -⟩ := htiled.fresh hfresh
      exact ⟨[b], htiled, List.isChain_singleton b, by simp⟩
    · rintro r c r' ⟨blocks, htiled, hcoalesced, hne⟩ hfits hs
      obtain ⟨blocks', htiled', ho⟩ := outcome_of_step htiled hfits hs
      exact ⟨blocks', htiled', coalesced_of_outcome hcoalesced ho, outcome_ne_nil hne ho⟩
  obtain ⟨blocks, htiled, hcoalesced, hne⟩ := hinv
  exact ⟨blocks, htiled.heapRight, hcoalesced, htiled.oneHole hcoalesced hne⟩

def threeFreed : List Request :=
  [.memoryAlloc 16 0, .memoryAlloc 100 0, .memoryAlloc 16 0, .hfree 0x8200c, .hfree 0x820a8, .hfree 0x82030]

theorem heap_coalesced_run : ∃ r₀ r, onePage (fun _ => 0) = some r₀ ∧ requests.exec r₀ threeFreed = some r ∧
    ∃ blocks, HeapRight r blocks ∧ Coalesced blocks ∧ OneHole r blocks := by
  have hcreate : (onePage fun _ => 0).isSome := by decide +kernel
  have hrun : ((onePage fun _ => 0).bind fun r => requests.exec r threeFreed).map (·.live) = some [] := by decide +kernel
  have hmeets : (onePage fun _ => 0).elim True fun r => requests.Meets (fun r c => c.fits r) r threeFreed := by
    decide +kernel
  obtain ⟨r₀, h₀⟩ := Option.isSome_iff_exists.1 hcreate
  rw [h₀] at hrun hmeets
  obtain ⟨r, hr, hlive⟩ := Option.map_eq_some_iff.1 hrun
  obtain ⟨blocks, hright, hcoalesced, hone⟩ :=
    heap_coalesced (StepSystem.reachVia_exec threeFreed (.init (onePage_init h₀)) hmeets hr)
  exact ⟨r₀, r, h₀, hr, blocks, hright, hcoalesced, hone hlive⟩

def Request.Plain : Request → Prop
  | .memoryAlloc _ page_align => page_align = 0
  | .hfree _ => True
  | .store .. => False

instance : (c : Request) → Decidable c.Plain
  | .memoryAlloc _ page_align => inferInstanceAs (Decidable (page_align = 0))
  | .hfree _ => .isTrue trivial
  | .store .. => .isFalse id

/-- The heap is taken as one block and freed. The block joins the hole that a stale footer in front of the heap names,
and no hole is left. -/
theorem coalescing_lost : ¬∀ r, requests.ReachVia (fun _ c => c.Plain) r →
    ∃ blocks, HeapRight r blocks ∧ Coalesced blocks ∧ (r.live = [] → OneHole r blocks) := by
  intro hclaim
  have hcreate : (onePage staleFooter).isSome := by decide +kernel
  have hrun : ((onePage staleFooter).bind fun r => requests.exec r [.memoryAlloc 0xfec 0, .hfree 0x8200c]).map
      (fun r => (r.live, r.kheap.index.size)) = some ([], 0) := by decide +kernel
  obtain ⟨r₀, h₀⟩ := Option.isSome_iff_exists.1 hcreate
  rw [h₀] at hrun
  obtain ⟨r, hr, hfacts⟩ := Option.map_eq_some_iff.1 hrun
  obtain ⟨hlive, hsize⟩ := Prod.mk.inj hfacts
  have hmeets : requests.Meets (fun _ c => c.Plain) r₀ [.memoryAlloc 0xfec 0, .hfree 0x8200c] :=
    ⟨rfl, by
      cases requests.step r₀ (.memoryAlloc 0xfec 0) with
      | none => trivial
      | some r₁ =>
        refine ⟨trivial, ?_⟩
        cases requests.step r₁ (.hfree 0x8200c) <;> trivial⟩
  obtain ⟨blocks, -, -, hone⟩ := hclaim r (StepSystem.reachVia_exec _ (.init (onePage_init h₀)) hmeets hr)
  have := (hone hlive).2.1
  omega

end KHeap
