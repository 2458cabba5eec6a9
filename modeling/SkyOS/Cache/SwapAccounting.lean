import Mathlib.Algebra.BigOperators.Group.List.Lemmas
import Mathlib.Algebra.Order.BigOperators.Group.List
import Mathlib.Algebra.Ring.Int.Defs
import SkyOS.Cache.SwapSpace

/-!
# `SwapSpace::Commit` (`SwapSpace.cpp:114`) and the count of free chunks

`fFreeSwapChunks` is to be what is left when each live object has the chunks of its committed size. Three things disturb
it: the test of `Commit` looks at objects that shrink instead of objects that grow; the difference of two sizes is not the
difference of their chunks when the remainders are the other way round; the destructor gives back bytes for chunks.
`suits_iff` says which calls are not disturbed.

| here | there |
| --- | --- |
| `x.tdiv kChunkSize` | the division of an `int`, towards 0 |
| `Accounts.live` | the live objects: history |
-/

namespace Swap

open Machine List Option
open Function (update update_of_ne)

/-- `Commit` (:114): the size returned, and the state. -/
def commit (s : State) (i : Nat) (size : Int) : Option (Int × State) := do
  let space ← s.spaces i
  let delta := (toInt32 (space.fCommittedSize - size)).tdiv kChunkSize
  if delta > 0 ∧ delta > s.fFreeSwapChunks then return (space.fCommittedSize, s)
  else return (size, { s with
    fFreeSwapChunks := toInt32 (s.fFreeSwapChunks + delta)
    spaces := Function.update s.spaces i (some { space with fCommittedSize := size }) })

/-! ## Runs -/

structure Accounts extends State where
  live : List Nat

inductive AccountCall where
  | newSwapSpace (i : Nat)
  | commit (i : Nat) (size : Int)
  | destroy (i : Nat)

/-- An object is new when it is made, and live when it is used; sizes are those of an `off_t`. -/
def AccountCall.legal (a : Accounts) : AccountCall → Prop
  | .newSwapSpace i => a.spaces i = none
  | .commit i size => (a.spaces i).isSome ∧ 0 ≤ size ∧ size < 2 ^ 31
  | .destroy i => (a.spaces i).isSome

instance (a : Accounts) : (c : AccountCall) → Decidable (c.legal a)
  | .newSwapSpace _ => inferInstanceAs (Decidable (_ = none))
  | .commit .. => inferInstanceAs (Decidable (_ = true ∧ _ ∧ _))
  | .destroy _ => inferInstanceAs (Decidable (_ = true))

def account (a : Accounts) : AccountCall → Option Accounts
  | .newSwapSpace i => some ⟨{ a.toState with spaces := Function.update a.spaces i (some ⟨[], 0⟩) }, i :: a.live⟩
  | .commit i size => (commit a.toState i size).map fun (_, s) => ⟨s, a.live⟩
  | .destroy i => (destroy a.toState i).map fun s => ⟨s, a.live.erase i⟩

/-- No object is there at first, and some number of chunks is free. -/
def accounts : StepSystem Accounts AccountCall where
  init a := 0 ≤ a.fFreeSwapChunks ∧ a.fFreeSwapChunks < 2 ^ 31 ∧ (∀ i, a.spaces i = none) ∧ a.live = []
  step a c := if c.legal a then account a c else none

def chunksOf (s : State) (i : Nat) : Int := (s.spaces i).elim 0 fun space => space.fCommittedSize / kChunkSize

def reserved (a : Accounts) : Int := (a.live.map (chunksOf a.toState)).sum

def total (a : Accounts) : Int := a.fFreeSwapChunks + reserved a

/-- `Commit` fails when the object grows by more chunks than are free, and then nothing changes; otherwise the size is
the new one. -/
def CommitRight (s : State) (i : Nat) (size : Int) : Prop :=
  ∀ space, s.spaces i = some space → ∀ r s', commit s i size = some (r, s') →
    if size / kChunkSize - space.fCommittedSize / kChunkSize > s.fFreeSwapChunks then r = space.fCommittedSize ∧ s' = s
    else r = size ∧ (s'.spaces i).map (·.fCommittedSize) = some size

/-- On the whole of a run the total is what it was and no count is negative, and each `Commit` of it is right. -/
def AccountingRight (a : Accounts) (calls : List AccountCall) : Prop :=
  (∀ before, before <+: calls → ∀ b, accounts.exec a before = some b → total b = total a ∧ 0 ≤ b.fFreeSwapChunks) ∧
    ∀ before i size, before ++ [.commit i size] <+: calls → ∀ b, accounts.exec a before = some b →
      CommitRight b.toState i size

/-- An object changes by at most the chunks that are free, in either direction, and the larger size has the larger
remainder; it is destroyed with nothing committed. -/
def Suits (a : Accounts) : AccountCall → Prop
  | .newSwapSpace _ => True
  | .commit i size => ∀ space, a.spaces i = some space →
      size / kChunkSize - space.fCommittedSize / kChunkSize ≤ a.fFreeSwapChunks ∧
        space.fCommittedSize / kChunkSize - size / kChunkSize ≤ a.fFreeSwapChunks ∧
        (size ≤ space.fCommittedSize → size % kChunkSize ≤ space.fCommittedSize % kChunkSize) ∧
        (space.fCommittedSize ≤ size → space.fCommittedSize % kChunkSize ≤ size % kChunkSize)
  | .destroy i => ∀ space, a.spaces i = some space → space.fCommittedSize = 0

/-! ## The sums -/

variable {a b : Accounts} {c : AccountCall} {i : Nat} {size : Int} {space : SwapSpace}

theorem chunk_size : (kChunkSize : Int) = 16384 := rfl

theorem tdiv_cases (x : Int) : 0 ≤ x ∧ x.tdiv kChunkSize = x / kChunkSize ∨ x < 0 ∧
    x.tdiv kChunkSize = -(-x / kChunkSize) := by
  by_cases hx : 0 ≤ x
  · exact .inl ⟨hx, Int.tdiv_eq_ediv_of_nonneg hx⟩
  · refine .inr ⟨by omega, ?_⟩
    have hneg : 0 ≤ -x := by omega
    rw [← Int.tdiv_eq_ediv_of_nonneg hneg, Int.neg_tdiv, Int.neg_neg]

theorem tdiv_sub_iff (f size : Int) : (f - size).tdiv kChunkSize = f / kChunkSize - size / kChunkSize ↔
    (size ≤ f → size % kChunkSize ≤ f % kChunkSize) ∧ (f ≤ size → f % kChunkSize ≤ size % kChunkSize) := by
  have hcases := tdiv_cases (f - size)
  rw [chunk_size] at *
  omega

/-- What every run keeps: the live objects are counted once, and their sizes are those of an `off_t`. -/
structure Sized (a : Accounts) : Prop where
  nodup : a.live.Nodup
  live : ∀ i, i ∈ a.live ↔ (a.spaces i).isSome
  sizes : ∀ i space, a.spaces i = some space → 0 ≤ space.fCommittedSize ∧ space.fCommittedSize < 2 ^ 31

theorem chunksOf_some (h : a.spaces i = some space) : chunksOf a.toState i = space.fCommittedSize / kChunkSize := by
  rw [chunksOf, h]
  rfl

theorem Sized.chunksOf_nonneg (h : Sized a) (i : Nat) : 0 ≤ chunksOf a.toState i := by
  unfold chunksOf
  cases hi : a.spaces i with
  | none => exact Int.le_refl 0
  | some space => exact Int.ediv_nonneg (h.sizes i space hi).1 (Int.natCast_nonneg _)

theorem Sized.reserved_erase (h : Sized a) (hi : a.spaces i = some space) :
    reserved a = space.fCommittedSize / kChunkSize + ((a.live.erase i).map (chunksOf a.toState)).sum := by
  have hlive : i ∈ a.live := (h.live i).2 (by rw [hi]; rfl)
  rw [reserved, ← sum_map_erase (chunksOf a.toState) hlive, chunksOf_some hi]

theorem Sized.chunks_le (h : Sized a) (hi : a.spaces i = some space) :
    0 ≤ space.fCommittedSize / kChunkSize ∧ space.fCommittedSize / kChunkSize ≤ reserved a := by
  refine ⟨Int.ediv_nonneg (h.sizes i space hi).1 (Int.natCast_nonneg _), ?_⟩
  rw [h.reserved_erase hi]
  have hrest : 0 ≤ ((a.live.erase i).map (chunksOf a.toState)).sum := sum_nonneg fun n hn => by
    obtain ⟨j, -, rfl⟩ := List.mem_map.1 hn
    exact h.chunksOf_nonneg j
  omega

theorem chunksOf_erase (h : Sized a) {s : State} (hs : ∀ j ≠ i, s.spaces j = a.spaces j) :
    (a.live.erase i).map (chunksOf s) = (a.live.erase i).map (chunksOf a.toState) := by
  refine map_congr_left fun j hj => ?_
  rw [chunksOf, chunksOf, hs j (h.nodup.mem_erase_iff.1 hj).1]

theorem Sized.of_update (h : Sized a) {v : Option SwapSpace} (hspaces : b.spaces = update a.spaces i v)
    (hnodup : b.live.Nodup)
    (hlive : ∀ j, j ∈ b.live ↔ if j = i then v.isSome = true else j ∈ a.live)
    (hv : ∀ space, v = some space → 0 ≤ space.fCommittedSize ∧ space.fCommittedSize < 2 ^ 31) : Sized b := by
  refine ⟨hnodup, fun j => ?_, fun j space hj => ?_⟩
  · rw [hlive, hspaces, Function.update_apply]
    split
    · rfl
    · exact h.live j
  · rw [hspaces, Function.update_apply] at hj
    split at hj
    · exact hv space hj
    · exact h.sizes j space hj

/-! ## One call -/

/-- The total is kept, and no count is negative. -/
def Balanced (a b : Accounts) : Prop := total b = total a ∧ 0 ≤ b.fFreeSwapChunks

def CallRight (a : Accounts) : AccountCall → Prop
  | .commit i size => CommitRight a.toState i size
  | .newSwapSpace _ | .destroy _ => True

theorem newSwapSpace_spec (h : Sized a) (hs : accounts.step a (.newSwapSpace i) = some b) :
    Sized b ∧ b.fFreeSwapChunks = a.fFreeSwapChunks ∧ reserved b = reserved a := by
  obtain ⟨hlegal, hs⟩ := ite_none_right_eq_some.1 hs
  have hnone : a.spaces i = none := hlegal
  have hspaces : b.spaces = update a.spaces i (some ⟨[], 0⟩) := by
    cases hs
    rfl
  have hb : b.live = i :: a.live ∧ b.fFreeSwapChunks = a.fFreeSwapChunks := by
    cases hs
    exact ⟨rfl, rfl⟩
  have hnew : i ∉ a.live := fun hin => by
    have hsome := (h.live i).1 hin
    rw [hnone] at hsome
    cases hsome
  have hlive : ∀ j, j ∈ i :: a.live ↔ if j = i then (some (⟨[], 0⟩ : SwapSpace)).isSome = true else j ∈ a.live :=
      fun j => by
    rw [mem_cons]
    split
    · exact iff_of_true (.inl ‹_›) rfl
    · exact or_iff_right ‹_›
  have hsizes : ∀ space, some (⟨[], 0⟩ : SwapSpace) = some space → 0 ≤ space.fCommittedSize ∧
      space.fCommittedSize < 2 ^ 31 := by
    rintro space hspace
    cases hspace
    decide
  have hrest : a.live.map (chunksOf b.toState) = a.live.map (chunksOf a.toState) := map_congr_left fun j hj => by
    have hji : j ≠ i := fun he => hnew (he ▸ hj)
    rw [chunksOf, chunksOf, hspaces, update_of_ne hji]
  have hzero : chunksOf b.toState i = 0 := by
    rw [chunksOf, hspaces, Function.update_self]
    rfl
  refine ⟨h.of_update hspaces (hb.1 ▸ nodup_cons.2 ⟨hnew, h.nodup⟩) (hb.1 ▸ hlive) hsizes, hb.2, ?_⟩
  rw [reserved, hb.1, map_cons, sum_cons, hrest, hzero, zero_add, reserved]

theorem destroy_spec (h : Sized a) (hs : accounts.step a (.destroy i) = some b) :
    ∃ space, a.spaces i = some space ∧ Sized b ∧ b.fFreeSwapChunks = toInt32 (a.fFreeSwapChunks + space.fCommittedSize) ∧
      reserved a = space.fCommittedSize / kChunkSize + reserved b := by
  obtain ⟨-, hs⟩ := ite_none_right_eq_some.1 hs
  obtain ⟨s, hdestroy, rfl⟩ := map_eq_some_iff.1 hs
  obtain ⟨space, hi, hdestroy⟩ := bind_eq_some_iff.1 hdestroy
  have hspaces : s.spaces = update a.spaces i none := by
    cases hdestroy
    rfl
  have hfree : s.fFreeSwapChunks = toInt32 (a.fFreeSwapChunks + space.fCommittedSize) := by
    cases hdestroy
    rfl
  have hlive : ∀ j, j ∈ a.live.erase i ↔ if j = i then (none : Option SwapSpace).isSome = true else j ∈ a.live :=
      fun j => by
    rw [h.nodup.mem_erase_iff]
    split
    · exact iff_of_false (fun hand => hand.1 ‹_›) Bool.false_ne_true
    · exact and_iff_right ‹_›
  refine ⟨space, hi, h.of_update hspaces (h.nodup.erase i) hlive (fun _ hnone => nomatch hnone), hfree, ?_⟩
  have hold : ∀ j ≠ i, s.spaces j = a.spaces j := fun j hj => by rw [hspaces, update_of_ne hj]
  rw [h.reserved_erase hi, reserved, chunksOf_erase h hold]

/-- `Commit` fails, and changes nothing. -/
def Fails (a : Accounts) (space : SwapSpace) (size : Int) : Prop :=
  (space.fCommittedSize - size).tdiv kChunkSize > 0 ∧ (space.fCommittedSize - size).tdiv kChunkSize > a.fFreeSwapChunks

theorem commit_spec (h : Sized a) (hs : accounts.step a (.commit i size) = some b) :
    ∃ space, a.spaces i = some space ∧ 0 ≤ size ∧ size < 2 ^ 31 ∧ Sized b ∧
      ((Fails a space size ∧ commit a.toState i size = some (space.fCommittedSize, a.toState) ∧ b = a) ∨
        (¬ Fails a space size ∧ commit a.toState i size = some (size, b.toState) ∧
          b.spaces i = some { space with fCommittedSize := size } ∧
          b.fFreeSwapChunks = toInt32 (a.fFreeSwapChunks + (space.fCommittedSize - size).tdiv kChunkSize) ∧
          reserved b = reserved a - space.fCommittedSize / kChunkSize + size / kChunkSize)) := by
  obtain ⟨⟨hsome, hlow, hhigh⟩, hs⟩ := ite_none_right_eq_some.1 hs
  obtain ⟨space, hi⟩ := isSome_iff_exists.1 hsome
  obtain ⟨⟨r, s⟩, hcommit, rfl⟩ := map_eq_some_iff.1 hs
  have hsizes := h.sizes i space hi
  have hdelta : toInt32 (space.fCommittedSize - size) = space.fCommittedSize - size :=
    toInt32_of_isInt32 ⟨by omega, by omega⟩
  refine ⟨space, hi, hlow, hhigh, ?_⟩
  have hres := hcommit
  simp only [commit, hi, bind_eq_bind, bind_some, hdelta] at hres
  split at hres
  · rename_i hfail
    cases hres
    exact ⟨h, .inl ⟨hfail, hcommit, rfl⟩⟩
  · rename_i hpass
    have hspaces : s.spaces = update a.spaces i (some { space with fCommittedSize := size }) := by
      cases hres
      rfl
    have hfree : s.fFreeSwapChunks = toInt32 (a.fFreeSwapChunks + (space.fCommittedSize - size).tdiv kChunkSize) := by
      cases hres
      rfl
    obtain rfl : size = r := by
      cases hres
      rfl
    have hself : s.spaces i = some { space with fCommittedSize := size } := by rw [hspaces, Function.update_self]
    have hlive : ∀ j, j ∈ a.live ↔
        if j = i then (some { space with fCommittedSize := size }).isSome = true else j ∈ a.live := fun j => by
      split
      · rename_i hj
        rw [hj, h.live, hi]
        rfl
      · rfl
    have hsized : Sized ⟨s, a.live⟩ := h.of_update hspaces h.nodup hlive fun space' hspace' => by
      cases hspace'
      exact ⟨hlow, hhigh⟩
    have hold : ∀ j ≠ i, s.spaces j = a.spaces j := fun j hj => by rw [hspaces, update_of_ne hj]
    refine ⟨hsized, .inr ⟨hpass, hcommit, hself, hfree, ?_⟩⟩
    rw [h.reserved_erase hi, hsized.reserved_erase hself, chunksOf_erase h hold]
    dsimp only
    omega

theorem toInt32_wrap {x y : Int} (hx : 0 ≤ x) (hy : 0 ≤ y ∧ y < 2 ^ 31) (h : 0 ≤ toInt32 (x + y)) (hlt : x < 2 ^ 31) :
    toInt32 (x + y) = x + y := by
  unfold toInt32 at *
  omega

theorem suits_destroy (hi : a.spaces i = some space) : Suits a (.destroy i) ↔ space.fCommittedSize = 0 := by
  refine ⟨fun hsuits => hsuits space hi, fun hzero space' hi' => ?_⟩
  rw [hi] at hi'
  cases hi'
  exact hzero

theorem suits_commit (hi : a.spaces i = some space) : Suits a (.commit i size) ↔
    size / kChunkSize - space.fCommittedSize / kChunkSize ≤ a.fFreeSwapChunks ∧
      space.fCommittedSize / kChunkSize - size / kChunkSize ≤ a.fFreeSwapChunks ∧
      (space.fCommittedSize - size).tdiv kChunkSize = space.fCommittedSize / kChunkSize - size / kChunkSize := by
  rw [tdiv_sub_iff space.fCommittedSize size]
  refine ⟨fun hsuits => hsuits space hi, fun hone space' hi' => ?_⟩
  rw [hi] at hi'
  cases hi'
  exact hone

theorem commitRight_iff {r : Int} {s' : State} (hi : a.spaces i = some space)
    (hcommit : commit a.toState i size = some (r, s')) : CommitRight a.toState i size ↔
      if size / kChunkSize - space.fCommittedSize / kChunkSize > a.fFreeSwapChunks then r = space.fCommittedSize ∧
      s' = a.toState
      else r = size ∧ (s'.spaces i).map (·.fCommittedSize) = some size := by
  refine ⟨fun hright => hright space hi r s' hcommit, fun hone space' hi' r' s'' hcommit' => ?_⟩
  rw [hi] at hi'
  cases hi'
  rw [hcommit] at hcommit'
  cases hcommit'
  exact hone

/-- **One call** is right exactly when it suits. -/
theorem suits_iff (h : Sized a) (hfree : 0 ≤ a.fFreeSwapChunks) (htotal : total a < 2 ^ 31)
    (hs : accounts.step a c = some b) :
    Balanced a b ∧ CallRight a c ↔ Suits a c := by
  unfold Balanced total
  unfold total at htotal
  cases c with
  | newSwapSpace i =>
    obtain ⟨-, hb, hreserved⟩ := newSwapSpace_spec h hs
    rw [hb, hreserved]
    exact iff_of_true ⟨⟨rfl, hfree⟩, trivial⟩ trivial
  | destroy i =>
    obtain ⟨space, hi, -, hb, hreserved⟩ := destroy_spec h hs
    have hsizes := h.sizes i space hi
    have hchunks := h.chunks_le hi
    rw [suits_destroy hi, hb]
    constructor
    · rintro ⟨⟨hsum, hnonneg⟩, -⟩
      have hwrap := toInt32_wrap hfree hsizes hnonneg (by omega)
      rw [hwrap, hreserved, chunk_size] at hsum
      omega
    · intro hzero
      rw [hzero, Int.add_zero, toInt32_of_isInt32 ⟨by omega, by omega⟩, hreserved, hzero, Int.zero_ediv, zero_add]
      exact ⟨⟨rfl, hfree⟩, trivial⟩
  | commit i size =>
    obtain ⟨space, hi, hlow, hhigh, -, hcases⟩ := commit_spec h hs
    have hchunks := h.chunks_le hi
    have hdelta := tdiv_cases (space.fCommittedSize - size)
    -- the change is no more than the chunks given back, and none where the size stays
    have hbounds : (space.fCommittedSize - size).tdiv kChunkSize ≤ space.fCommittedSize / kChunkSize ∧
        -2 ^ 31 ≤ (space.fCommittedSize - size).tdiv kChunkSize ∧
        (0 < (space.fCommittedSize - size).tdiv kChunkSize →
          size / kChunkSize ≤ space.fCommittedSize / kChunkSize ∧ size ≠ space.fCommittedSize) := by
      rw [chunk_size] at *
      omega
    have hsame : size = space.fCommittedSize → size / kChunkSize - space.fCommittedSize / kChunkSize = 0 := fun he => by
      rw [he, Int.sub_self]
    rw [suits_commit hi, CallRight]
    obtain ⟨hfails, hcommit, rfl⟩ | ⟨hpasses, hcommit, hb, hbfree, hreserved⟩ := hcases
    · -- the object shrinks by more chunks than are free
      rw [commitRight_iff hi hcommit]
      unfold Fails at hfails
      refine iff_of_false (fun hleft => ?_) fun hsuits => by omega
      obtain ⟨-, hleft⟩ := hleft
      rw [if_neg (by omega)] at hleft
      exact (hbounds.2.2 hfails.1).2 hleft.1.symm
    · rw [commitRight_iff hi hcommit, hbfree, hreserved]
      unfold Fails at hpasses
      have hwrap : toInt32 (a.fFreeSwapChunks + (space.fCommittedSize - size).tdiv kChunkSize) =
          a.fFreeSwapChunks + (space.fCommittedSize - size).tdiv kChunkSize := toInt32_of_isInt32 ⟨by omega, by omega⟩
      rw [hwrap]
      constructor
      · rintro ⟨⟨hsum, -⟩, hleft⟩
        have hgrows : ¬ size / kChunkSize - space.fCommittedSize / kChunkSize > a.fFreeSwapChunks := fun hgrows => by
          rw [if_pos hgrows] at hleft
          omega
        omega
      · intro hsuits
        rw [if_neg (by omega), hb]
        exact ⟨⟨by omega, by omega⟩, rfl, rfl⟩

/-! ## Runs -/

theorem sized_step (h : Sized a) (hs : accounts.step a c = some b) : Sized b := by
  cases c with
  | newSwapSpace i => exact (newSwapSpace_spec h hs).1
  | commit i size =>
    obtain ⟨-, -, -, -, hb, -⟩ := commit_spec h hs
    exact hb
  | destroy i =>
    obtain ⟨-, -, hb, -⟩ := destroy_spec h hs
    exact hb

theorem accountingRight_nil : AccountingRight a [] ↔ 0 ≤ a.fFreeSwapChunks := by
  unfold AccountingRight
  rw [StepSystem.forall_states_nil]
  refine ⟨fun h => h.1.2, fun hfree => ⟨⟨rfl, hfree⟩, fun before i size hbefore => ?_⟩⟩
  cases before <;> cases prefix_nil.1 hbefore

variable {calls : List AccountCall}

theorem commits_cons (hs : accounts.step a c = some b) :
    (∀ before i size, before ++ [.commit i size] <+: c :: calls → ∀ t, accounts.exec a before = some t →
        CommitRight t.toState i size) ↔ CallRight a c ∧ ∀ before i size, before ++ [.commit i size] <+: calls →
      ∀ t, accounts.exec b before = some t → CommitRight t.toState i size := by
  constructor
  · refine fun h => ⟨?_, fun before i size hbefore t ht => ?_⟩
    · cases c with
      | commit i size => exact h [] i size (cons_prefix_cons.2 ⟨rfl, nil_prefix⟩) a rfl
      | newSwapSpace i => trivial
      | destroy i => trivial
    · refine h (c :: before) i size (cons_prefix_cons.2 ⟨rfl, hbefore⟩) t ?_
      rw [StepSystem.exec_of_step hs]
      exact ht
  · rintro ⟨hcall, hcommits⟩ before i size hbefore t ht
    cases before with
    | nil =>
      cases ht
      obtain ⟨rfl, -⟩ := cons_prefix_cons.1 hbefore
      exact hcall
    | cons c' before =>
      obtain ⟨rfl, hprefix⟩ := cons_prefix_cons.1 hbefore
      rw [StepSystem.exec_of_step hs] at ht
      exact hcommits before i size hprefix t ht

theorem accountingRight_cons (hfree : 0 ≤ a.fFreeSwapChunks) (hs : accounts.step a c = some b) :
    AccountingRight a (c :: calls) ↔ (Balanced a b ∧ CallRight a c) ∧ AccountingRight b calls := by
  unfold AccountingRight
  rw [StepSystem.forall_states_cons hs, commits_cons hs]
  constructor
  · rintro ⟨⟨-, htotals⟩, hcall, hcommits⟩
    have hone : Balanced a b := htotals [] nil_prefix b rfl
    refine ⟨⟨hone, hcall⟩, fun before hbefore t ht => ?_, hcommits⟩
    obtain ⟨htotal, hnonneg⟩ := htotals before hbefore t ht
    exact ⟨htotal.trans hone.1.symm, hnonneg⟩
  · rintro ⟨⟨hone, hcall⟩, htotals, hcommits⟩
    refine ⟨⟨⟨rfl, hfree⟩, fun before hbefore t ht => ?_⟩, hcall, hcommits⟩
    obtain ⟨htotal, hnonneg⟩ := htotals before hbefore t ht
    exact ⟨htotal.trans hone.1, hnonneg⟩

theorem accountingRight_iff (h : Sized a) (hfree : 0 ≤ a.fFreeSwapChunks) (htotal : total a < 2 ^ 31)
    (hs : accounts.exec a calls = some b) : AccountingRight a calls ↔ accounts.Meets Suits a calls := by
  induction calls generalizing a with
  | nil => exact iff_of_true (accountingRight_nil.2 hfree) trivial
  | cons c calls ih =>
    rw [StepSystem.exec_cons] at hs
    obtain ⟨t, ht, hrun⟩ := bind_eq_some_iff.1 hs
    rw [accountingRight_cons hfree ht, StepSystem.meets_of_step ht, ← suits_iff h hfree htotal ht]
    refine and_congr_right fun hright => ?_
    exact ih (sized_step h ht) hright.1.2 (by rw [hright.1.1]; exact htotal) hrun

/-- **The count of free chunks.** Over every sequence of commits and destructions, from the start on and whatever number
of chunks is free there: the total is kept, no count is negative and each `Commit` fails when it should, exactly when
each call suits. -/
theorem accounting_right_iff {calls : List AccountCall} (h0 : accounts.init a) (hs : accounts.exec a calls = some b) :
    AccountingRight a calls ↔ accounts.Meets Suits a calls := by
  obtain ⟨hfree, hlt, hnone, hlive⟩ := h0
  have hsized : Sized a := by
    refine ⟨by rw [hlive]; exact List.nodup_nil, fun i => ?_, fun i space hi => ?_⟩
    · rw [hlive, hnone i]
      exact iff_of_false List.not_mem_nil Bool.false_ne_true
    · rw [hnone i] at hi
      cases hi
  have htotal : total a = a.fFreeSwapChunks := by
    rw [total, reserved, hlive, List.map_nil, List.sum_nil, add_zero]
  exact accountingRight_iff hsized hfree (htotal ▸ hlt) hs

/-- No object, and the free chunks that `SwapSpace.cpp:37` begins with. -/
def atStart : Accounts := ⟨smallDevice.toState, []⟩

theorem atStart_init : accounts.init atStart := ⟨by decide, by decide, fun _ => rfl, rfl⟩

/-- An object grows and shrinks by whole chunks, and is destroyed with nothing committed. -/
theorem accounting_right_iff_whole : ∃ b, accounts.exec atStart [.newSwapSpace 0, .commit 0 0x8000, .commit 0 0,
      .destroy 0] = some b ∧
    (AccountingRight atStart [.newSwapSpace 0, .commit 0 0x8000, .commit 0 0, .destroy 0] ↔
      accounts.Meets Suits atStart [.newSwapSpace 0, .commit 0 0x8000, .commit 0 0, .destroy 0]) := by
  have hrun : (accounts.exec atStart [.newSwapSpace 0, .commit 0 0x8000, .commit 0 0, .destroy 0]).isSome = true := by
    decide +kernel
  obtain ⟨b, hb⟩ := Option.isSome_iff_exists.1 hrun
  exact ⟨b, hb, accounting_right_iff atStart_init hb⟩

/-- An object with one chunk committed is destroyed: 16384 is added to the free chunks, and the sum is negative. -/
theorem destroyed_in_bytes : ¬ ∀ a calls b, accounts.init a → accounts.exec a calls = some b → AccountingRight a calls := by
  intro h
  have hrun : (accounts.exec atStart [.newSwapSpace 0, .commit 0 0x4000, .destroy 0]).any (·.fFreeSwapChunks < 0) =
      true := by
    decide +kernel
  obtain ⟨b, hb, hneg⟩ := (Option.any_eq_true _ _).1 hrun
  obtain ⟨-, hnonneg⟩ := (h atStart _ b atStart_init hb).1 _ (List.prefix_refl _) b hb
  exact absurd (of_decide_eq_true hneg) (Int.not_lt.2 hnonneg)

end Swap
