import Mathlib.Data.List.Nodup
import Mathlib.Data.List.Perm.Subperm
import SkyOS.Vm.LockedPages

/-!
# The chains of locked pages: one slot a bucket

No `hashNext` is ever written after `Bootstrap`, so a chain is one slot or none: an insertion into a bucket that is not
empty takes the slot there out of the hash, still with its page and its `hashPrev`. Queue, counts and mappings are right
in every run (`Linked`); a page is found as long as the hash leads to each slot (`Complete`), and `complete_step_iff`
says which calls keep that.
-/

namespace LockedPages

open Function (update_apply update_of_ne update_self)
open List Option

variable {s s' : State} {slot pa va b : Nat} {c : Call}

variable {j : Nat}

theorem addressOf_inj {i : Nat} (h : addressOf i = addressOf j) : i = j := by
  unfold addressOf PAGE_SIZE at h
  omega

theorem slotOf_addressOf (h : Slot slot) : slotOf (addressOf slot) = slot := by
  unfold Slot slots at h
  unfold slotOf addressOf kIOAreaBase PAGE_SIZE Machine.sub32 Machine.u32
  omega

theorem aligned_valid (h : PAGE_SIZE ∣ pa) : pa ≠ INVALID_PAGE := by
  rintro rfl
  exact absurd h (by decide)

/-! ## What every run keeps -/

structure Linked (s : State) : Prop where
  next : ∀ slot, Slot slot → (s.fLockedPages slot).hashNext = none
  prev : ∀ slot, Slot slot → (s.fLockedPages slot).pa ≠ INVALID_PAGE →
    (s.fLockedPages slot).hashPrev = some (.bucket (bucketOf (s.fLockedPages slot).pa))
  head : ∀ b slot, s.fLockedPageHash b = some slot →
    Slot slot ∧ (s.fLockedPages slot).pa ≠ INVALID_PAGE ∧ bucketOf (s.fLockedPages slot).pa = b
  area : ∀ slot, Slot slot → (s.fLockedPages slot).pa ≠ INVALID_PAGE →
    s.ioArea slot = (s.fLockedPages slot).pa ||| kPagePresent ||| kPageWritable
  queue : ∀ slot ∈ s.fInactiveLockedPages, Slot slot
  nodup : s.fInactiveLockedPages.Nodup
  inactive : ∀ slot, Slot slot → ((s.fLockedPages slot).mapCount = 0 ↔ slot ∈ s.fInactiveLockedPages)
  count : ∀ slot, Slot slot → (s.fLockedPages slot).mapCount = (s.locks.countP (·.2 = addressOf slot) : Nat)
  locks : ∀ lock ∈ s.locks, lock.1 ≠ INVALID_PAGE ∧ ∃ slot, Slot slot ∧ lock.2 = addressOf slot ∧
    (s.fLockedPages slot).pa = lock.1

/-- The hash leads to each slot that has a page. -/
def Complete (s : State) : Prop :=
  ∀ slot, Slot slot → (s.fLockedPages slot).pa ≠ INVALID_PAGE →
    s.fLockedPageHash (bucketOf (s.fLockedPages slot).pa) = some slot

theorem linked_initial (h : Initial s) : Linked s ∧ Complete s := by
  obtain ⟨-, hpages, hhash, hqueue, hlocks⟩ := h
  have hunused : ∀ slot, Slot slot → s.fLockedPages slot = unusedPage := fun slot hslot => hpages slot hslot.1 hslot.2
  have hpa : ∀ slot, Slot slot → (s.fLockedPages slot).pa = INVALID_PAGE := fun slot hslot => by
    rw [hunused slot hslot]; rfl
  have hmem : ∀ slot, slot ∈ s.fInactiveLockedPages ↔ Slot slot := fun slot => by
    rw [hqueue, mem_range'_1]
    unfold Slot slots
    omega
  refine ⟨⟨?_, ?_, ?_, ?_, ?_, ?_, ?_, ?_, ?_⟩, fun slot hslot hvalid => absurd (hpa slot hslot) hvalid⟩
  · intro slot hslot
    rw [hunused slot hslot]
    rfl
  · exact fun slot hslot hvalid => absurd (hpa slot hslot) hvalid
  · intro b slot hb
    rw [hhash] at hb
    cases hb
  · exact fun slot hslot hvalid => absurd (hpa slot hslot) hvalid
  · exact fun slot hslot => (hmem slot).1 hslot
  · rw [hqueue]
    exact nodup_range'
  · intro slot hslot
    rw [hunused slot hslot]
    exact iff_of_true rfl ((hmem slot).2 hslot)
  · intro slot hslot
    rw [hunused slot hslot, hlocks]
    rfl
  · intro lock hlock
    rw [hlocks] at hlock
    cases hlock

theorem chainOf_eq (h : Linked s) (b : Nat) : chainOf s b = (s.fLockedPageHash b).toList := by
  unfold chainOf
  cases hb : s.fLockedPageHash b with
  | none => rfl
  | some slot =>
    rw [chain, h.next slot (h.head b slot hb).1]
    rfl

theorem lookup_eq (h : Linked s) (pa : Nat) : lookup s pa = some ((s.fLockedPageHash (bucketOf pa)).filter
    fun slot => (s.fLockedPages slot).pa = pa) := by
  unfold lookup
  cases hb : s.fLockedPageHash (bucketOf pa) with
  | none => rfl
  | some slot =>
    rw [search, h.next slot (h.head _ slot hb).1]
    by_cases hpa : (s.fLockedPages slot).pa = pa
    · rw [if_pos hpa, filter_some, if_pos (by simpa using hpa)]
    · rw [if_neg hpa, filter_some, if_neg (by simpa using hpa)]
      rfl

theorem lookup_some (h : Linked s) (hfound : lookup s pa = some (some slot)) :
    Slot slot ∧ s.fLockedPageHash (bucketOf pa) = some slot ∧ (s.fLockedPages slot).pa = pa := by
  rw [lookup_eq h] at hfound
  obtain ⟨hhead, hpa⟩ := filter_eq_some_iff.1 (Option.some.inj hfound)
  exact ⟨(h.head _ _ hhead).1, hhead, by simpa using hpa⟩

theorem windowsRight_iff (h : Linked s) : WindowsRight s ↔ Complete s := by
  constructor
  · intro hright slot hslot hvalid
    obtain ⟨⟨b, i⟩, ⟨-, hplace⟩, -⟩ := hright.chains slot hslot hvalid
    rw [chainOf_eq h] at hplace
    have hhead : s.fLockedPageHash b = some slot := mem_toList.1 (List.mem_of_getElem? hplace)
    rw [(h.head b slot hhead).2.2]
    exact hhead
  · intro hcomplete
    refine ⟨fun lock hlock => ?_, h.inactive, fun lock hlock => ?_, fun lock hlock slot hslot hpa => ?_,
      fun slot hslot hvalid => ?_⟩
    · obtain ⟨hvalid, slot, hslot, hva, hpa⟩ := h.locks lock hlock
      refine ⟨slot, hslot, hva, hpa, ?_⟩
      rw [← hpa]
      exact h.area slot hslot (hpa ▸ hvalid)
    · obtain ⟨hvalid, slot, hslot, hva, hpa⟩ := h.locks lock hlock
      have hhead := hcomplete slot hslot (hpa ▸ hvalid)
      refine ⟨slot, ?_, hva⟩
      rw [lookup_eq h, ← hpa, hhead, filter_some, if_pos (decide_eq_true rfl)]
    · obtain ⟨hvalid, slot', hslot', hva, hpa'⟩ := h.locks lock hlock
      have hhead := hcomplete slot hslot (hpa ▸ hvalid)
      have hhead' := hcomplete slot' hslot' (hpa' ▸ hvalid)
      rw [hpa] at hhead
      rw [hpa', hhead] at hhead'
      rw [hva, Option.some.inj hhead']
    · have hhead := hcomplete slot hslot hvalid
      refine ⟨(bucketOf (s.fLockedPages slot).pa, 0), ⟨Nat.mod_lt _ (by decide), ?_⟩, fun place hplace => ?_⟩
      · dsimp only
        rw [chainOf_eq h, hhead]
        rfl
      · obtain ⟨-, hplace⟩ := hplace
        rw [chainOf_eq h] at hplace
        have hhead' : s.fLockedPageHash place.1 = some slot := mem_toList.1 (List.mem_of_getElem? hplace)
        have hindex : place.2 = 0 := by
          rw [hhead', toList_some] at hplace
          have hlt := (List.getElem?_eq_some_iff.1 hplace).1
          rw [length_singleton] at hlt
          omega
        exact Prod.ext (h.head _ slot hhead').2.2.symm hindex

/-! ## One call -/

/-- The hash after `evict`. -/
def evictedHash (s : State) (slot : Nat) : Nat → Option Nat :=
  if (s.fLockedPages slot).pa = INVALID_PAGE then s.fLockedPageHash
  else Function.update s.fLockedPageHash (bucketOf (s.fLockedPages slot).pa) none

theorem evict_eq (hnext : (s.fLockedPages slot).hashNext = none) (hprev : (s.fLockedPages slot).pa ≠ INVALID_PAGE →
    (s.fLockedPages slot).hashPrev = some (.bucket (bucketOf (s.fLockedPages slot).pa))) :
    evict s slot = some { s with fLockedPageHash := evictedHash s slot } := by
  unfold evict evictedHash
  by_cases hpa : (s.fLockedPages slot).pa = INVALID_PAGE
  · rw [if_pos hpa, if_pos hpa]
  · rw [if_neg hpa, if_neg hpa, hprev hpa, hnext, assign, map_some, hnext]

theorem evictedHash_some (h : Linked s) (hj : evictedHash s slot b = some j) : s.fLockedPageHash b = some j ∧ j ≠ slot := by
  unfold evictedHash at hj
  split at hj
  · rename_i hpa
    refine ⟨hj, ?_⟩
    rintro rfl
    exact (h.head b _ hj).2.1 hpa
  · rw [update_apply] at hj
    split at hj
    · cases hj
    · rename_i hb
      refine ⟨hj, ?_⟩
      rintro rfl
      exact hb (h.head b _ hj).2.2.symm

theorem lock_cases (h : Linked s) (hs : lock s pa = some (va, s')) : ∃ slot, va = addressOf slot ∧
    (lookup s pa = some (some slot) ∧ s' = { relock { s with fLockPageRequests := s.fLockPageRequests + 1 } slot with
        locks := (pa, addressOf slot) :: s.locks } ∨
      ∃ rest, lookup s pa = some none ∧ s.fInactiveLockedPages = slot :: rest ∧
        s' = { insert { s with fInactiveLockedPages := rest, fLockPageRequests := s.fLockPageRequests + 1,
                               fLockedPageHash := evictedHash s slot } slot pa with
          locks := (pa, addressOf slot) :: s.locks }) := by
  obtain ⟨⟨slot, s₁⟩, hlock, heq⟩ := map_eq_some_iff.1 hs
  cases heq
  refine ⟨slot, rfl, ?_⟩
  obtain ⟨found, hlookup, hlock⟩ := bind_eq_some_iff.1 hlock
  cases found with
  | none =>
    cases hqueue : s.fInactiveLockedPages with
    | nil =>
      dsimp only at hlock
      rw [mapPage, hqueue] at hlock
      cases hlock
    | cons slot' rest =>
      have hslot : Slot slot' := h.queue slot' (hqueue ▸ .head _)
      dsimp only at hlock
      rw [mapPage, hqueue] at hlock
      dsimp only at hlock
      rw [evict_eq (by exact h.next slot' hslot) (by exact h.prev slot' hslot), map_some] at hlock
      cases hlock
      exact .inr ⟨rest, hlookup, rfl, rfl⟩
  | some slot' =>
    cases hlock
    exact .inl ⟨hlookup, rfl⟩

theorem step_cases (hs : step s c = some s') :
    (∃ pa va, c = .lock pa ∧ PAGE_SIZE ∣ pa ∧ lock s pa = some (va, s')) ∨
      ∃ lock ∈ s.locks, c = .unlock lock.2 ∧ s' = unlock s lock.2 := by
  obtain ⟨hlegal, hs⟩ := ite_none_right_eq_some.1 hs
  cases c with
  | lock pa =>
    obtain ⟨⟨va, s₁⟩, hlock, rfl⟩ := map_eq_some_iff.1 hs
    exact .inl ⟨pa, va, rfl, hlegal.1, hlock⟩
  | unlock va =>
    obtain ⟨lock, hlock, rfl⟩ := hlegal
    cases hs
    exact .inr ⟨lock, hlock, rfl, rfl⟩

theorem update_mapCount (pages : Nat → LockedPage) (slot j : Nat) (n : Int) :
    Function.update pages slot { pages slot with mapCount := n } j =
      { pages j with mapCount := if j = slot then n else (pages j).mapCount } := by
  by_cases hj : j = slot
  · rw [hj, update_self, if_pos rfl]
  · rw [update_of_ne hj, if_neg hj]

/-- A slot is locked once more or once less. -/
structure Recounted (s s' : State) (slot : Nat) (n : Int) : Prop where
  pages : s'.fLockedPages = Function.update s.fLockedPages slot { s.fLockedPages slot with mapCount := n }
  hash : s'.fLockedPageHash = s.fLockedPageHash
  area : s'.ioArea = s.ioArea

variable {n : Int} {locks : List (Nat × Nat)} {held : Nat × Nat}

theorem Recounted.complete (hr : Recounted s s' slot n) (hcomplete : Complete s) : Complete s' := by
  intro j hj hvalid
  rw [hr.pages, update_mapCount] at hvalid ⊢
  rw [hr.hash]
  exact hcomplete j hj hvalid

theorem Recounted.linked (hr : Recounted s s' slot n) (h : Linked s)
    (hqueue : ∀ j, j ∈ s'.fInactiveLockedPages ↔ Slot j ∧ (s'.fLockedPages j).mapCount = 0)
    (hnodup : s'.fInactiveLockedPages.Nodup)
    (hcount : ∀ j, Slot j → (s'.fLockedPages j).mapCount = (s'.locks.countP (·.2 = addressOf j) : Nat))
    (hlocks : ∀ lock ∈ s'.locks, lock.1 ≠ INVALID_PAGE ∧ ∃ j, Slot j ∧ lock.2 = addressOf j ∧
      (s.fLockedPages j).pa = lock.1) :
    Linked s' := by
  refine ⟨fun j hj => ?_, fun j hj hvalid => ?_, fun b j hb => ?_, fun j hj hvalid => ?_, fun j hj =>
    ((hqueue j).1 hj).1, hnodup,
    fun j hj => ?_, hcount, fun lock hlock => ?_⟩
  · rw [hr.pages, update_mapCount]
    exact h.next j hj
  · rw [hr.pages, update_mapCount] at hvalid ⊢
    exact h.prev j hj hvalid
  · rw [hr.hash] at hb
    rw [hr.pages, update_mapCount]
    exact h.head b j hb
  · rw [hr.pages, update_mapCount] at hvalid ⊢
    rw [hr.area]
    exact h.area j hj hvalid
  · rw [hqueue j, and_iff_right hj]
  · obtain ⟨hvalid, j, hj, hva, hpa⟩ := hlocks lock hlock
    refine ⟨hvalid, j, hj, hva, ?_⟩
    rw [hr.pages, update_mapCount]
    exact hpa

theorem recounted_relock (s : State) (slot : Nat) (requests : Int) (locks : List (Nat × Nat)) :
    Recounted s { relock { s with fLockPageRequests := requests } slot with locks } slot
    ((s.fLockedPages slot).mapCount + 1) :=
  ⟨rfl, rfl, rfl⟩

theorem recounted_unlock (s : State) (h : Slot slot) :
    Recounted s (unlock s (addressOf slot)) slot ((s.fLockedPages slot).mapCount - 1) := by
  have hslot := slotOf_addressOf h
  refine ⟨?_, rfl, rfl⟩
  unfold unlock unlockPhysicalPage
  rw [hslot]
  rfl

theorem count_cons (pa slot j : Nat) :
    ((pa, addressOf slot) :: locks).countP (·.2 = addressOf j) = locks.countP
    (·.2 = addressOf j) + if j = slot then 1 else 0 := by
  rw [countP_cons]
  refine congrArg _ (if_congr ?_ rfl rfl)
  rw [decide_eq_true_iff]
  exact ⟨fun he => (addressOf_inj he).symm, fun he => by rw [he]⟩

theorem linked_relock (h : Linked s) (hslot : Slot slot) (hpa : (s.fLockedPages slot).pa = pa)
    (hvalid : pa ≠ INVALID_PAGE) (requests : Int) :
    Linked { relock { s with fLockPageRequests := requests } slot with locks := (pa, addressOf slot) :: s.locks } := by
  have hr := recounted_relock s slot requests ((pa, addressOf slot) :: s.locks)
  have hnonneg : 0 ≤ (s.fLockedPages slot).mapCount := by
    rw [h.count slot hslot]
    exact Int.natCast_nonneg _
  have hcounts : ∀ j, (Function.update s.fLockedPages slot { s.fLockedPages slot with mapCount :=
    (s.fLockedPages slot).mapCount + 1 } j).mapCount =
      if j = slot then (s.fLockedPages slot).mapCount + 1 else (s.fLockedPages j).mapCount := fun j => by
        rw [update_mapCount]
  refine hr.linked h (fun j => ?_) ?_ (fun j hj' => ?_) fun lock hlock => ?_
  · rw [hr.pages, hcounts]
    dsimp only [relock]
    split
    · rw [h.nodup.mem_erase_iff]
      by_cases hj : j = slot
      · rw [if_pos hj]
        exact iff_of_false (fun hand => hand.1 hj) fun hand => by omega
      · rw [if_neg hj, and_iff_right hj]
        exact ⟨fun hin => ⟨h.queue j hin, (h.inactive j (h.queue j hin)).2 hin⟩, fun hand => (h.inactive j hand.1).1 hand.2⟩
    · rename_i hcount
      by_cases hj : j = slot
      · rw [if_pos hj, hj]
        exact iff_of_false (fun hin => hcount ((h.inactive slot hslot).2 hin)) fun hand => by omega
      · rw [if_neg hj]
        exact ⟨fun hin => ⟨h.queue j hin, (h.inactive j (h.queue j hin)).2 hin⟩, fun hand => (h.inactive j hand.1).1 hand.2⟩
  · dsimp only [relock]
    split
    · exact h.nodup.erase slot
    · exact h.nodup
  · rw [hr.pages, hcounts]
    rw [count_cons]
    by_cases hj : j = slot
    · rw [if_pos hj, if_pos hj, ← hj, h.count j hj', Int.natCast_add]
      rfl
    · rw [if_neg hj, if_neg hj, h.count j hj']
      rfl
  · rcases mem_cons.1 hlock with rfl | hlock
    · exact ⟨hvalid, slot, hslot, rfl, hpa⟩
    · exact h.locks lock hlock

theorem count_eraseP (hlock : held ∈ locks) (hva : held.2 = addressOf slot) (j : Nat) :
    locks.countP (·.2 = addressOf j) = (locks.eraseP (·.2 = held.2)).countP (·.2 = addressOf j) +
      if j = slot then 1 else 0 := by
  obtain ⟨a, before, after, -, ha, hlocks, herase⟩ :=
    exists_of_eraseP (p := fun lock => decide (lock.2 = held.2)) hlock (decide_eq_true rfl)
  have ha : a.2 = addressOf slot := (of_decide_eq_true ha).trans hva
  have hiff : (decide (a.2 = addressOf j) = true) ↔ j = slot := by
    rw [decide_eq_true_iff, ha]
    exact ⟨fun he => (addressOf_inj he).symm, fun he => by rw [he]⟩
  rw [herase, hlocks, countP_append, countP_append, countP_cons, if_congr hiff rfl rfl]
  omega

theorem unlock_queue (s : State) (h : Slot slot) : (unlock s (addressOf slot)).fInactiveLockedPages =
    if (s.fLockedPages slot).mapCount - 1 = 0 then s.fInactiveLockedPages ++ [slot] else s.fInactiveLockedPages := by
  unfold unlock unlockPhysicalPage
  rw [slotOf_addressOf h]

theorem linked_unlock (h : Linked s) (hlock : held ∈ s.locks) : Linked (unlock s held.2) := by
  obtain ⟨-, slot, hslot, hva, -⟩ := h.locks held hlock
  have hr := recounted_unlock s hslot
  have hqueue := unlock_queue s hslot
  have hcount : ∀ j, Slot j → (s.fLockedPages j).mapCount =
      ((s.locks.eraseP (·.2 = addressOf slot)).countP (·.2 = addressOf j) : Nat) + if j = slot then 1 else 0 :=
          fun j hj => by
    rw [h.count j hj, count_eraseP hlock hva, hva]
    split <;> rfl
  have hout : slot ∉ s.fInactiveLockedPages := fun hin => by
    have hzero := (h.inactive slot hslot).2 hin
    rw [hcount slot hslot, if_pos rfl] at hzero
    omega
  rw [hva]
  have hin : ∀ j, j ∈ s.fInactiveLockedPages ↔ Slot j ∧ (s.fLockedPages j).mapCount = 0 := fun j =>
    ⟨fun hin => ⟨h.queue j hin, (h.inactive j (h.queue j hin)).2 hin⟩, fun hand => (h.inactive j hand.1).1 hand.2⟩
  refine hr.linked h (fun j => ?_) ?_ (fun j hj => ?_) fun lock' hlock' => h.locks lock' (mem_of_mem_eraseP hlock')
  · rw [hr.pages, update_mapCount, hqueue]
    dsimp only
    by_cases hj : j = slot
    · rw [if_pos hj, hj]
      split
      · rename_i hzero
        exact iff_of_true (mem_append_right _ (mem_singleton_self slot)) ⟨hslot, hzero⟩
      · rename_i hne
        exact iff_of_false hout fun hand => hne hand.2
    · rw [if_neg hj, ← hin]
      split
      · rw [mem_append, mem_singleton, or_iff_left hj]
      · rfl
  · rw [hqueue]
    split
    · refine nodup_append.2 ⟨h.nodup, nodup_singleton slot, fun i hi j hj => ?_⟩
      rw [mem_singleton.1 hj]
      exact fun he => hout (he ▸ hi)
    · exact h.nodup
  · have hlocks : (unlock s (addressOf slot)).locks = s.locks.eraseP (·.2 = addressOf slot) := rfl
    rw [hr.pages, update_mapCount, hlocks]
    dsimp only
    by_cases hjs : j = slot
    · have hj' := hcount slot hslot
      rw [if_pos rfl] at hj'
      rw [if_pos hjs, hjs]
      omega
    · have hj' := hcount j hj
      rw [if_neg hjs] at hj'
      rw [if_neg hjs]
      omega

theorem linked_insert (h : Linked s) (hvalid : pa ≠ INVALID_PAGE) {rest : List Nat}
    (hqueue : s.fInactiveLockedPages = slot :: rest)
    (requests : Int) :
    Linked { insert { s with fInactiveLockedPages := rest, fLockPageRequests := requests,
                             fLockedPageHash := evictedHash s slot } slot pa with
      locks := (pa, addressOf slot) :: s.locks } := by
  have hhead : slot ∈ s.fInactiveLockedPages := hqueue ▸ .head _
  have hslot := h.queue slot hhead
  have hzero := (h.inactive slot hslot).2 hhead
  have hnodup := h.nodup
  rw [hqueue] at hnodup
  obtain ⟨hout, hnodup⟩ := nodup_cons.1 hnodup
  have hrest : ∀ j ≠ slot, j ∈ rest ↔ j ∈ s.fInactiveLockedPages := fun j hj => by rw [hqueue, mem_cons, or_iff_right hj]
  refine ⟨fun j hj => ?_, fun j hj hvalid' => ?_, fun b j hb => ?_, fun j hj hvalid' => ?_, fun j hj => ?_,
    hnodup, fun j hj => ?_, fun j hj => ?_, fun lock hlock => ?_⟩
  all_goals dsimp only [insert, setPage] at *
  · by_cases hjs : j = slot
    · rw [hjs, update_self]
      exact h.next slot hslot
    · rw [update_of_ne hjs]
      exact h.next j hj
  · by_cases hjs : j = slot
    · rw [hjs, update_self]
    · rw [update_of_ne hjs] at hvalid' ⊢
      exact h.prev j hj hvalid'
  · rw [update_apply] at hb
    split at hb
    · rename_i hbucket
      cases hb
      rw [update_self]
      exact ⟨hslot, hvalid, hbucket.symm⟩
    · obtain ⟨hb, hjs⟩ := evictedHash_some h hb
      rw [update_of_ne hjs]
      exact h.head b j hb
  · by_cases hjs : j = slot
    · rw [hjs, update_self, update_self]
    · rw [update_of_ne hjs] at hvalid' ⊢
      rw [update_of_ne hjs]
      exact h.area j hj hvalid'
  · exact h.queue j (hqueue ▸ .tail _ hj)
  · by_cases hjs : j = slot
    · rw [hjs, update_self]
      exact iff_of_false (by dsimp only; omega) hout
    · rw [update_of_ne hjs, hrest j hjs]
      exact h.inactive j hj
  · rw [count_cons]
    by_cases hjs : j = slot
    · rw [hjs, update_self, if_pos rfl, Int.natCast_add, ← h.count slot hslot]
      rfl
    · rw [update_of_ne hjs, if_neg hjs]
      exact h.count j hj
  · rcases mem_cons.1 hlock with rfl | hold
    · exact ⟨hvalid, slot, hslot, rfl, by rw [update_self]⟩
    · obtain ⟨hvalid', j, hj, hva, hpa⟩ := h.locks lock hold
      have hjs : j ≠ slot := by
        -- a slot that is locked is not in the queue
        rintro rfl
        have hcount := h.count j hj
        have hpos : 0 < s.locks.countP (·.2 = addressOf j) := countP_pos_iff.2 ⟨lock, hold, decide_eq_true hva⟩
        omega
      exact ⟨hvalid', j, hj, hva, by rw [update_of_ne hjs]; exact hpa⟩

theorem linked_lock (h : Linked s) (hvalid : pa ≠ INVALID_PAGE) (hs : lock s pa = some (va, s')) : Linked s' := by
  obtain ⟨slot, -, ⟨hfound, rfl⟩ | ⟨rest, -, hqueue, rfl⟩⟩ := lock_cases h hs
  · obtain ⟨hslot, hhead, hpa⟩ := lookup_some h hfound
    exact linked_relock h hslot hpa hvalid _
  · exact linked_insert h hvalid hqueue _

theorem linked_step (h : Linked s) (hs : step s c = some s') : Linked s' := by
  obtain ⟨pa, va, -, halign, hlock⟩ | ⟨lock, hlock, -, rfl⟩ := step_cases hs
  · exact linked_lock h (aligned_valid halign) hlock
  · exact linked_unlock h hlock

/-! ## What keeps the hash complete -/

theorem evictedHash_complete (hcomplete : Complete s) (hslot : Slot slot) (hj : Slot j) (hne : j ≠ slot)
    (hvalid : (s.fLockedPages j).pa ≠ INVALID_PAGE) : evictedHash s slot (bucketOf (s.fLockedPages j).pa) = some j := by
  have hhead := hcomplete j hj hvalid
  unfold evictedHash
  split
  · exact hhead
  · rename_i hpa
    rw [update_of_ne, hhead]
    intro hbucket
    rw [hbucket, hcomplete slot hslot hpa] at hhead
    exact hne (Option.some.inj hhead).symm

theorem complete_insert_iff (h : Linked s) (hcomplete : Complete s) (hslot : Slot slot) (rest : List Nat)
    (requests : Int) (locks : List (Nat × Nat)) :
    Complete { insert { s with fInactiveLockedPages := rest, fLockPageRequests := requests,
                               fLockedPageHash := evictedHash s slot } slot pa with
      locks } ↔ evictedHash s slot (bucketOf pa) = none := by
  constructor
  · intro hcomplete'
    cases hb : evictedHash s slot (bucketOf pa) with
    | none => rfl
    | some j =>
      -- slot `j` loses its bucket to the new page
      obtain ⟨hhead, hne⟩ := evictedHash_some h hb
      obtain ⟨hj, hvalid', hbucket⟩ := h.head _ j hhead
      have hlost := hcomplete' j hj
      dsimp only [insert, setPage] at hlost
      rw [update_of_ne hne, hbucket, update_self] at hlost
      exact absurd (Option.some.inj (hlost hvalid')).symm hne
  · intro hempty j hj hvalid'
    dsimp only [insert, setPage] at hvalid' ⊢
    by_cases hne : j = slot
    · rw [hne, update_self, update_self]
    · rw [update_of_ne hne] at hvalid' ⊢
      have hhead := evictedHash_complete hcomplete hslot hj hne hvalid'
      rw [update_of_ne, hhead]
      intro hbucket
      rw [hbucket, hempty] at hhead
      cases hhead

/-- **One call** keeps the hash complete exactly when it finds its bucket empty. -/
theorem complete_step_iff (h : Linked s) (hcomplete : Complete s) (hs : step s c = some s') : Complete s' ↔
    FindsEmpty s c := by
  obtain ⟨pa, va, rfl, -, hlock⟩ | ⟨lock, hlock, rfl, rfl⟩ := step_cases hs
  · obtain ⟨slot, -, ⟨hfound, rfl⟩ | ⟨rest, hnone, hqueue, rfl⟩⟩ := lock_cases h hlock
    · refine iff_of_true ((recounted_relock s slot _ _).complete hcomplete) fun hnone => ?_
      rw [hfound] at hnone
      cases hnone
    · have hslot := h.queue slot (hqueue ▸ .head _)
      rw [complete_insert_iff h hcomplete hslot]
      have hevict : evict s slot = some _ := evict_eq (h.next slot hslot) (h.prev slot hslot)
      constructor
      · intro hempty _ slot' rest' s' hqueue' hevict'
        rw [hqueue] at hqueue'
        cases hqueue'
        rw [hevict] at hevict'
        cases hevict'
        exact hempty
      · exact fun hfinds => hfinds hnone slot rest _ hqueue hevict
  · obtain ⟨-, slot, hslot, hva, -⟩ := h.locks lock hlock
    have hcomplete' := (recounted_unlock s hslot).complete hcomplete
    rw [← hva] at hcomplete'
    exact iff_of_true hcomplete' trivial

/-! ## Runs -/

theorem queue_ne_nil (h : Linked s) (hlocks : s.locks.length < 1023) : s.fInactiveLockedPages ≠ [] := by
  intro hnil
  have hused : (List.range' 1 1023).map addressOf ⊆ s.locks.map (·.2) := by
    intro va hva
    obtain ⟨slot, hslot, rfl⟩ := List.mem_map.1 hva
    have hslot : Slot slot := by
      have := mem_range'_1.1 hslot
      unfold Slot slots
      omega
    have hcount : (s.fLockedPages slot).mapCount ≠ 0 := fun hzero => by
      have hin := (h.inactive slot hslot).1 hzero
      rw [hnil] at hin
      cases hin
    rw [h.count slot hslot] at hcount
    obtain ⟨lock, hlock, hva⟩ := countP_pos_iff.1 (Nat.pos_of_ne_zero fun hzero => hcount (by rw [hzero]; rfl))
    exact List.mem_map.2 ⟨lock, hlock, of_decide_eq_true hva⟩
  have hnodup : ((List.range' 1 1023).map addressOf).Nodup := List.Nodup.map (fun i j hij => addressOf_inj hij) nodup_range'
  have hle := (subperm_of_subset hnodup hused).length_le
  rw [length_map, length_map, length_range'] at hle
  omega

/-- A lock returns, unless its page is in no window and no slot is left. -/
theorem lock_isSome_iff (h : Linked s) : (lock s pa).isSome ↔ (lookup s pa = some none → s.fInactiveLockedPages ≠ []) := by
  have hlookup : lookup { s with fLockPageRequests := s.fLockPageRequests + 1 } pa = lookup s pa := rfl
  rw [lock, isSome_map, lockPhysicalPage, hlookup, lookup_eq h, bind_some]
  cases hfound : (s.fLockedPageHash (bucketOf pa)).filter fun slot => (s.fLockedPages slot).pa = pa with
  | some slot => exact iff_of_true rfl nofun
  | none =>
    cases hqueue : s.fInactiveLockedPages with
    | nil =>
      refine iff_of_false (fun hsome => ?_) fun hne => hne rfl rfl
      cases hsome
    | cons slot rest =>
      have hslot := h.queue slot (hqueue ▸ .head _)
      refine iff_of_true ?_ fun _ => nofun
      dsimp only
      rw [mapPage]
      dsimp only
      rw [evict_eq (by exact h.next slot hslot) (by exact h.prev slot hslot)]
      rfl

theorem step_isSome (h : Linked s) (hlegal : c.legal s) : (step s c).isSome := by
  unfold step
  rw [if_pos hlegal]
  cases c with
  | unlock va => rfl
  | lock pa =>
    rw [isSome_map, lock_isSome_iff h]
    exact fun _ => queue_ne_nil h (by have := hlegal.2.2; omega)

theorem right_prefixes_iff {calls : List Call} (h : Linked s) (hcomplete : Complete s)
    (hs : system.exec s calls = some s') :
    (∀ before, before <+: calls → ∀ t, system.exec s before = some t → WindowsRight t) ↔
    system.Meets FindsEmpty s calls := by
  refine StepSystem.forall_states_iff_meets Linked (fun _ _ _ => linked_step) ?_ h ((windowsRight_iff h).2 hcomplete) hs
  intro s c t hlinked hright ht
  rw [windowsRight_iff (linked_step hlinked ht)]
  exact complete_step_iff hlinked ((windowsRight_iff hlinked).1 hright) ht

/-- **The windows.** Over every sequence of locks and matching unlocks with fewer than 1023 locks at a time: each call
returns; and the windows are right in every state on the way exactly when each lock of a page that is not mapped yet
finds its bucket empty. -/
theorem windows_right_iff {s s' : State} (hs : Initial s) {calls : List Call} (hexec : system.exec s calls = some s') :
    (∀ c : Call, c.legal s' → (system.step s' c).isSome) ∧
      ((∀ before, before <+: calls → ∀ t, system.exec s before = some t → WindowsRight t) ↔
        system.Meets FindsEmpty s calls) := by
  obtain ⟨h, hcomplete⟩ := linked_initial hs
  refine ⟨fun c hc => step_isSome ?_ hc, right_prefixes_iff h hcomplete hexec⟩
  exact StepSystem.Reach.invariant Linked (fun _ h0 => (linked_initial h0).1) (fun _ _ _ => linked_step)
    (StepSystem.reach_exec calls (.init hs) hexec)

/-- The windows after `Bootstrap`. -/
def bootstrapped : State where
  fLockedPages slot := if slot = 0 then { unusedPage with mapCount := 0x3fffffff } else unusedPage
  fLockedPageHash _ := none
  fInactiveLockedPages := List.range' 1 (slots - 1)
  fLockPageHits := 0
  fLockPageRequests := 0
  ioArea _ := 0
  locks := []

theorem bootstrapped_initial : Initial bootstrapped :=
  ⟨rfl, fun _ hslot _ => if_neg (Nat.pos_iff_ne_zero.1 hslot), fun _ => rfl, rfl, rfl⟩

/-- Two pages of different buckets: one is locked twice, given back once, and the other locked. -/
theorem windows_right_iff_two : ∃ s, system.exec bootstrapped [.lock 0x1000, .lock 0x1000, .unlock (addressOf 1),
      .lock 0x2000] = some s ∧
    ((∀ before, before <+: [.lock 0x1000, .lock 0x1000, .unlock (addressOf 1), .lock 0x2000] →
        ∀ t, system.exec bootstrapped before = some t → WindowsRight t) ↔
      system.Meets FindsEmpty bootstrapped [.lock 0x1000, .lock 0x1000, .unlock (addressOf 1), .lock 0x2000]) := by
  have hrun : (system.exec bootstrapped [.lock 0x1000, .lock 0x1000, .unlock (addressOf 1), .lock 0x2000]).isSome =
      true := by
    decide +kernel
  obtain ⟨s, hexec⟩ := Option.isSome_iff_exists.1 hrun
  exact ⟨s, hexec, (windows_right_iff bootstrapped_initial hexec).2⟩

/-- Two pages 8 MB apart share a bucket: the second lock takes the first out of the hash, and a page that is locked is
not found there. -/
theorem windows_lose_page : ¬ ∀ s s' calls, Initial s → system.exec s calls = some s' → WindowsRight s' := by
  intro h
  have hrun : (system.exec bootstrapped [.lock 0x1000, .lock 0x801000]).any
      (fun s => s.locks = [(0x801000, addressOf 2), (0x1000, addressOf 1)] && lookup s 0x1000 = some none) = true := by
    decide +kernel
  obtain ⟨s, hexec, hlost⟩ := (Option.any_eq_true _ _).1 hrun
  obtain ⟨hlocks, hlost⟩ := Bool.and_eq_true_iff.1 hlost
  have hlocks := of_decide_eq_true hlocks
  obtain ⟨slot, hfound, -⟩ := (h bootstrapped s _ bootstrapped_initial hexec).found (0x1000, addressOf 1) (by simp [hlocks])
  rw [of_decide_eq_true hlost] at hfound
  cases hfound

end LockedPages
