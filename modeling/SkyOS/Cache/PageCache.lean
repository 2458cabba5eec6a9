import SkyOS.Cache.Page

/-!
# `PageCache` (`PageCache.cpp`): the hash of pages and the resident lists

A page in a cache is linked twice: into its bucket of the one hash table, and into the list of its cache. What
the two say of each other is `Linked`. It leaves room for one page in each slot, that is each cache and offset,
and every operation keeps it where it is given a page that is in no cache and a slot that is empty.

| here | there |
| --- | --- |
| `Cache` | a `PageCache` by its address, 16 bytes large |
| `fState`, `fCache`, `fCacheOffset` | the fields of `Page` |
| `fPageHash` | the chain `fHashNext` of each bucket |
| `fResidentPages` | the chain `fCacheNext` of each cache |
| `setState` | `Page::MoveToQueue`, as far as the cache sees it |
-/

namespace PageCache

open Pages (PageState)
open Function (update update_apply update_of_ne update_self)

abbrev Cache := BitVec 32

structure CacheState (P : Type) where
  fState : P → PageState
  fCache : P → Option Cache
  fCacheOffset : P → BitVec 32
  fPageHashSize : Nat
  fPageHash : Nat → List P
  fResidentPages : Cache → List P

def kHashSizes : List Nat := [563, 2063, 4079, 8423, 16387, 32843, 65543, 131267, 262127]

/-- The size that `Bootstrap` (:210) chooses: the first that is large enough, or the last. -/
def pageHashSize (pageCount : Nat) : Nat := (kHashSizes.find? (pageCount < ·)).getD 262127

/-- `GenerateHash` (:241). -/
def generateHash (this : Cache) (offset : BitVec 32) : BitVec 32 :=
  ((this / 16) <<< 7 ||| offset.sdiv 4096) &&& 0x7fffffff

section
variable {P : Type}

def CacheState.bucket (d : CacheState P) (this : Cache) (offset : BitVec 32) : Nat :=
  (generateHash this offset).toNat % d.fPageHashSize

variable [DecidableEq P]

/-- `LookupPage` (:283). -/
def lookupPage (d : CacheState P) (this : Cache) (offset : BitVec 32) : Option P :=
  (d.fPageHash (d.bucket this offset)).find? fun page => d.fCache page = some this ∧ d.fCacheOffset page = offset

/-- `InsertPage` (:247). -/
def insertPage (d : CacheState P) (this : Cache) (offset : BitVec 32) (page : P) : CacheState P :=
  { d with
    fCache := Function.update d.fCache page (some this)
    fCacheOffset := Function.update d.fCacheOffset page offset
    fPageHash := Function.update d.fPageHash (d.bucket this offset) (page :: d.fPageHash (d.bucket this offset))
    fResidentPages := Function.update d.fResidentPages this (page :: d.fResidentPages this) }

/-- `RemovePage` (:266); the search runs into a null pointer when the page is not in its bucket. -/
def removePage (d : CacheState P) (this : Cache) (page : P) : Option (CacheState P) :=
  let bucket := d.bucket this (d.fCacheOffset page)
  if page ∈ d.fPageHash bucket then
    some { d with
      fCache := Function.update d.fCache page none
      fPageHash := Function.update d.fPageHash bucket ((d.fPageHash bucket).erase page)
      fResidentPages := Function.update d.fResidentPages this ((d.fResidentPages this).erase page) }
  else none

def setState (d : CacheState P) (page : P) (st : PageState) : CacheState P :=
  { d with fState := Function.update d.fState page st }

/-- `Page::Alloc` gives a page that was free or clear. -/
def alloc (d : CacheState P) (page : P) : Option (CacheState P) :=
  if (d.fState page).available then some (setState d page .kPageTransition) else none

end

/-! ## What the links say -/

section
variable {P : Type} {d : CacheState P}

structure Linked (d : CacheState P) : Prop where
  hash_mem : ∀ b page, page ∈ d.fPageHash b ↔ ∃ c, d.fCache page = some c ∧ d.bucket c (d.fCacheOffset page) = b
  hash_nodup : ∀ b, (d.fPageHash b).Nodup
  resident_mem : ∀ c page, page ∈ d.fResidentPages c ↔ d.fCache page = some c
  resident_nodup : ∀ c, (d.fResidentPages c).Nodup
  slot : ∀ c p q, d.fCache p = some c → d.fCache q = some c → d.fCacheOffset p = d.fCacheOffset q → p = q
  /-- A page in a cache is in use or busy. -/
  states : ∀ c page, d.fCache page = some c → d.fState page = .kPageActive ∨ d.fState page = .kPageTransition

def Empty (d : CacheState P) (c : Cache) (offset : BitVec 32) : Prop :=
  ∀ page, d.fCache page = some c → d.fCacheOffset page ≠ offset

variable {page : P} {c : Cache} {offset : BitVec 32}

theorem Linked.fCache_of_available (h : Linked d) (ha : (d.fState page).available = true) :
    d.fCache page = none := by
  cases hc : d.fCache page with
  | none => rfl
  | some c =>
    rcases h.states c page hc with hst | hst
    · rw [hst] at ha
      cases ha
    · rw [hst] at ha
      cases ha

variable [DecidableEq P]

@[simp] theorem setState_fCache (page : P) (st : PageState) : (setState d page st).fCache = d.fCache := rfl
@[simp] theorem setState_fState (page : P) (st : PageState) :
    (setState d page st).fState = update d.fState page st := rfl

theorem Linked.setState (h : Linked d) {st : PageState}
    (hst : d.fCache page = none ∨ st = .kPageActive ∨ st = .kPageTransition) : Linked (setState d page st) := by
  refine ⟨h.hash_mem, h.hash_nodup, h.resident_mem, h.resident_nodup, h.slot, ?_⟩
  intro c p hp
  rw [setState_fState, update_apply]
  split
  · subst p
    rcases hst with hnone | hst
    · exact absurd (hnone.symm.trans hp) (by simp)
    · exact hst
  · exact h.states c p hp

omit [DecidableEq P] in
theorem lookupPage_some (h : lookupPage d c offset = some page) :
    d.fCache page = some c ∧ d.fCacheOffset page = offset := by
  have hp := List.find?_some h
  exact of_decide_eq_true hp

omit [DecidableEq P] in
theorem lookupPage_none (hl : Linked d) (h : lookupPage d c offset = none) :
    Empty d c offset := by
  intro page hpage hoff
  have hmem : page ∈ d.fPageHash (d.bucket c offset) := (hl.hash_mem _ page).2 ⟨c, hpage, by rw [hoff]⟩
  have hnot := List.find?_eq_none.1 h page hmem
  exact hnot (decide_eq_true ⟨hpage, hoff⟩)

theorem Linked.insertPage (h : Linked d)
    (hpage : d.fCache page = none) (hempty : Empty d c offset)
    (hst : d.fState page = .kPageActive ∨ d.fState page = .kPageTransition) :
    Linked (insertPage d c offset page) := by
  have hne : ∀ q c', d.fCache q = some c' → q ≠ page := by
    rintro q c' hq rfl
    rw [hpage] at hq
    cases hq
  -- what the fields of a page are after the insertion
  have hfc : ∀ q c', (PageCache.insertPage d c offset page).fCache q = some c' ↔
      (q = page ∧ c' = c) ∨ d.fCache q = some c' := by
    intro q c'
    simp only [PageCache.insertPage, update_apply]
    by_cases hq : q = page
    · subst hq
      simp [hpage, eq_comm]
    · simp [hq]
  have hoff : ∀ q, d.fCache q ≠ none →
      (PageCache.insertPage d c offset page).fCacheOffset q = d.fCacheOffset q := by
    intro q hq
    refine update_of_ne ?_ _ _
    rintro rfl
    exact hq hpage
  have hself : (PageCache.insertPage d c offset page).fCacheOffset page = offset := update_self ..
  have hnotmem : ∀ b, page ∉ d.fPageHash b := by
    intro b hb
    obtain ⟨c', hc', -⟩ := (h.hash_mem b page).1 hb
    exact hne page c' hc' rfl
  refine ⟨?_, ?_, ?_, ?_, ?_, ?_⟩
  · intro b q
    have hmem : q ∈ (PageCache.insertPage d c offset page).fPageHash b ↔
        (q = page ∧ b = d.bucket c offset) ∨ q ∈ d.fPageHash b := by
      simp only [PageCache.insertPage, update_apply]
      by_cases hb : b = d.bucket c offset
      · subst hb
        simp
      · simp [hb]
    rw [hmem, h.hash_mem b q]
    constructor
    · rintro (⟨rfl, rfl⟩ | ⟨c', hc', hb⟩)
      · exact ⟨c, (hfc q c).2 (.inl ⟨rfl, rfl⟩), by rw [hself]; rfl⟩
      · refine ⟨c', (hfc q c').2 (.inr hc'), ?_⟩
        rw [hoff q (by simp [hc'])]
        exact hb
    · rintro ⟨c', hc', hb⟩
      rcases (hfc q c').1 hc' with ⟨rfl, rfl⟩ | hc'
      · rw [hself] at hb
        exact .inl ⟨rfl, hb.symm⟩
      · rw [hoff q (by simp [hc'])] at hb
        exact .inr ⟨c', hc', hb⟩
  · intro b
    simp only [PageCache.insertPage, update_apply]
    split
    · exact List.nodup_cons.2 ⟨hnotmem _, h.hash_nodup _⟩
    · exact h.hash_nodup b
  · intro c' q
    rw [hfc q c', ← h.resident_mem c' q]
    simp only [PageCache.insertPage, update_apply]
    by_cases hc : c' = c
    · subst hc
      simp
    · simp [hc]
  · intro c'
    simp only [PageCache.insertPage, update_apply]
    split
    · refine List.nodup_cons.2 ⟨fun hmem => ?_, h.resident_nodup _⟩
      exact hne page c ((h.resident_mem c page).1 hmem) rfl
    · exact h.resident_nodup c'
  · intro c' p q hp hq hpq
    rcases (hfc p c').1 hp with ⟨rfl, rfl⟩ | kp
    · rcases (hfc q c').1 hq with ⟨rfl, -⟩ | kq
      · rfl
      · rw [hself, hoff q (by simp [kq])] at hpq
        exact absurd hpq.symm (hempty q kq)
    · rcases (hfc q c').1 hq with ⟨rfl, rfl⟩ | kq
      · rw [hself, hoff p (by simp [kp])] at hpq
        exact absurd hpq (hempty p kp)
      · rw [hoff p (by simp [kp]), hoff q (by simp [kq])] at hpq
        exact h.slot c' p q kp kq hpq
  · intro c' q hq
    rcases (hfc q c').1 hq with ⟨rfl, -⟩ | hq
    · exact hst
    · exact h.states c' q hq

theorem Linked.removePage (h : Linked d) (hpage : d.fCache page = some c) :
    ∃ d', removePage d c page = some d' ∧ Linked d' ∧ d'.fCache = update d.fCache page none ∧
      d'.fCacheOffset = d.fCacheOffset ∧ d'.fState = d.fState ∧ Empty d' c (d.fCacheOffset page) := by
  have hmem : page ∈ d.fPageHash (d.bucket c (d.fCacheOffset page)) := (h.hash_mem _ page).2 ⟨c, hpage, rfl⟩
  refine ⟨_, if_pos hmem, ?_, rfl, rfl, rfl, ?_⟩
  · have hfc : ∀ q c', update d.fCache page none q = some c' ↔ q ≠ page ∧ d.fCache q = some c' := by
      intro q c'
      rw [update_apply]
      by_cases hq : q = page <;> simp [hq]
    refine ⟨?_, ?_, ?_, ?_, ?_, ?_⟩
    · intro b q
      change q ∈ update d.fPageHash _ _ b ↔
        ∃ c', update d.fCache page none q = some c' ∧ d.bucket c' (d.fCacheOffset q) = b
      rw [update_apply]
      constructor
      · intro hq
        split at hq
        · rename_i hb
          obtain ⟨hne, hq⟩ := (h.hash_nodup _).mem_erase_iff.1 hq
          obtain ⟨c', hc', hb'⟩ := (h.hash_mem _ q).1 hq
          exact ⟨c', (hfc q c').2 ⟨hne, hc'⟩, hb'.trans hb.symm⟩
        · rename_i hb
          obtain ⟨c', hc', hb'⟩ := (h.hash_mem b q).1 hq
          refine ⟨c', (hfc q c').2 ⟨?_, hc'⟩, hb'⟩
          rintro rfl
          obtain rfl := Option.some.inj (hpage.symm.trans hc')
          exact hb hb'.symm
      · rintro ⟨c', hc', hb⟩
        obtain ⟨hne, hc'⟩ := (hfc q c').1 hc'
        have hq := (h.hash_mem b q).2 ⟨c', hc', hb⟩
        split
        · rename_i hb'
          subst hb'
          exact (h.hash_nodup _).mem_erase_iff.2 ⟨hne, hq⟩
        · exact hq
    · intro b
      change (update d.fPageHash _ _ b).Nodup
      rw [update_apply]
      split
      · exact (h.hash_nodup _).erase page
      · exact h.hash_nodup b
    · intro c' q
      change q ∈ update d.fResidentPages _ _ c' ↔ update d.fCache page none q = some c'
      rw [hfc q c', ← h.resident_mem c' q, update_apply]
      split
      · rename_i hc
        subst hc
        exact (h.resident_nodup _).mem_erase_iff
      · rename_i hc
        refine ⟨fun hq => ⟨?_, hq⟩, fun hq => hq.2⟩
        rintro rfl
        exact hc (Option.some.inj (((h.resident_mem c' q).1 hq).symm.trans hpage))
    · intro c'
      change (update d.fResidentPages _ _ c').Nodup
      rw [update_apply]
      split
      · exact (h.resident_nodup _).erase page
      · exact h.resident_nodup c'
    · intro c' p q hp hq hpq
      exact h.slot c' p q ((hfc p c').1 hp).2 ((hfc q c').1 hq).2 hpq
    · intro c' q hq
      exact h.states c' q ((hfc q c').1 hq).2
  · intro q hq hoff
    change update d.fCache page none q = some c at hq
    rw [update_apply] at hq
    split at hq
    · cases hq
    · rename_i hne
      exact hne (h.slot c q page hq hpage hoff)

end

end PageCache
