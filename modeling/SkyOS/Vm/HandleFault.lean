import SkyOS.Vm.AddressSpace
import SkyOS.Vm.MappedCount

/-!
# `AddressSpace::HandleFault` (`AddressSpace.cpp:198`)

The lock is given back while `GetPage` runs, and taken again. The other threads act in between: `getPage` answers the
page, if there is one, and the space as it is found then. Everything may have changed but the soundness of the physical
maps, which a space carries. The counts of references to the cache, taken and given back around the call, are left out.

| here | there |
| --- | --- |
| `Space.area` | the fields of an `Area` at an address |
| `fSourceCache cache = none` | `!cache->IsCopy()` |
| `Outcome.readers` | how often the caller holds `fAreaLock` |
-/

namespace AddressSpace

open AVLTree
open PhysicalMaps (USER_READ USER_WRITE SYSTEM_WRITE Sound Names translation pageFlags)

def SYSTEM_READ : Nat := 8

def E_NO_ERROR : Int := 0
def E_NOT_ALLOWED : Int := -5
def E_BAD_ADDRESS : Int := -6
def E_IO : Int := -8

/-- The fields of `Area` beside its range; a null cache is `none`. -/
structure AreaFields where
  fProtection : BitVec 32
  fPageCache : Option Nat
  fCacheOffset : BitVec 32

/-- What `fAreaLock` protects, with the physical maps. -/
structure Space where
  fAreas : Tree
  area : Nat → AreaFields
  fSourceCache : Nat → Option Nat
  fChangeCount : Int
  fFaultCount : Int
  maps : PhysicalMaps.State
  sound : Sound maps

/-- `GetPage` of a cache at an offset, private or not, while other threads run. -/
abbrev GetPage := Nat → BitVec 32 → Bool → Space → Option Nat × Space

structure Outcome where
  status : Int
  readers : Int
  space : Space

def lockRead (readers : Int) : Int := readers + 1

def unlockRead (readers : Int) : Int := readers - 1

/-- `protection & flag`. -/
def allows (protection : BitVec 32) (flag : Nat) : Bool := protection &&& BitVec.ofNat 32 flag ≠ 0

/-- The test of `:211`. -/
def notAllowed (protection : BitVec 32) (write user : Bool) : Bool :=
  (user && write && !allows protection USER_WRITE) || (user && !write && !allows protection USER_READ) ||
    (!user && write && !allows protection SYSTEM_WRITE) || (!user && !write && !allows protection SYSTEM_READ)

/-- What the first half has in its variables when it calls `GetPage`. -/
structure Request where
  lastChangeCount : Int
  area : Nat
  protection : BitVec 32
  cache : Nat
  copy : Bool
  offset : BitVec 32

/-- The offset of `va` in the cache of an area (`:228`). -/
def offsetOf (s : Space) (area : AVLNode) (va : BitVec 32) : BitVec 32 :=
  va - BitVec.ofNat 32 area.fLowKey + (s.area area.ptr).fCacheOffset

/-- The first half (`:202-228`), under the lock. -/
def lookup (s : Space) (va : BitVec 32) (write user : Bool) : Except Int Request :=
  match find va.toNat s.fAreas with
  | none => .error E_BAD_ADDRESS
  | some area =>
    if notAllowed (s.area area.ptr).fProtection write user then .error E_NOT_ALLOWED
    else match (s.area area.ptr).fPageCache with
      | none => .error E_NOT_ALLOWED
      | some cache => .ok ⟨s.fChangeCount, area.ptr, (s.area area.ptr).fProtection, cache, (s.fSourceCache cache).isSome,
          offsetOf s area va⟩

/-- The condition of `:241`. -/
def hasChanged (s : Space) (va : BitVec 32) (r : Request) : Bool :=
  match find va.toNat s.fAreas with
  | none => true
  | some newArea => newArea.ptr ≠ r.area || (s.area newArea.ptr).fPageCache ≠ some r.cache ||
      (s.area newArea.ptr).fCacheOffset ≠ r.offset

/-- A page read from a copy-on-write cache is mapped read only (`:249`). -/
def mappedProtection (r : Request) (write : Bool) : BitVec 32 :=
  if r.copy && !write then r.protection &&& ~~~BitVec.ofNat 32 (USER_WRITE ||| SYSTEM_WRITE) else r.protection

/-- `fPhysicalMap->Map`; no result while it waits for a page. -/
def mapPage (s : Space) (fPhysicalMap : Nat) (va : BitVec 32) (pa : Nat) (protection : BitVec 32) : Option Space :=
  match h : PhysicalMaps.map s.maps fPhysicalMap va.toNat pa protection.toNat with
  | none => none
  | some maps => some { s with maps, sound := PhysicalMaps.sound_map s.sound va.isLt h }

/-- The second half (`:234-253`), with the page at `pa`. -/
def resolve (s : Space) (fPhysicalMap : Nat) (va : BitVec 32) (write : Bool) (r : Request) (pa : Nat)
    (readers : Int) : Option Outcome :=
  let readers := lockRead readers
  if r.lastChangeCount ≠ s.fChangeCount then
    -- the `return` is not under the inner `if`
    let readers := if hasChanged s va r then unlockRead readers else readers
    some ⟨E_BAD_ADDRESS, readers, s⟩
  else (mapPage s fPhysicalMap va pa (mappedProtection r write)).map fun s =>
    ⟨E_NO_ERROR, unlockRead readers, { s with fFaultCount := s.fFaultCount + 1 }⟩

/-- `va &= ~(PAGE_SIZE - 1)`. -/
def pageBase (va : BitVec 32) : BitVec 32 := va &&& ~~~BitVec.ofNat 32 (PAGE_SIZE - 1)

/-- `HandleFault` (:198). -/
def handleFault (s : Space) (fPhysicalMap : Nat) (getPage : GetPage) (va : BitVec 32) (write user : Bool) :
    Option Outcome :=
  let va := pageBase va
  let readers := lockRead 0
  match lookup s va write user with
  | .error status => some ⟨status, unlockRead readers, s⟩
  | .ok r =>
    let readers := unlockRead readers
    match getPage r.cache r.offset (write && r.copy) s with
    | (none, s) => some ⟨ E_IO, readers, s⟩
    | (some pa, s) => resolve s fPhysicalMap va write r pa readers

/-! ## What is asked of it -/

/-- The area that covers `va`, its cache, and the offset of `va` there. -/
def located (s : Space) (va : BitVec 32) : Option (Nat × Option Nat × BitVec 32) :=
  (find va.toNat s.fAreas).map fun area => (area.ptr, (s.area area.ptr).fPageCache, offsetOf s area va)

/-- The page at `pa` is mapped at `va`. -/
def PageMapped (s : Space) (fPhysicalMap : Nat) (va : BitVec 32) (pa : Nat) (protection : BitVec 32) : Prop :=
  ∃ m, PhysicalMaps.find s.maps fPhysicalMap = some m ∧
    translation s.maps m va.toNat = some (pa ||| pageFlags va.toNat protection.toNat)

/-- `GetPage` is called for `r`, and gives the page at `pa`; the lock is retaken in `s'`. -/
def Retakes (s : Space) (getPage : GetPage) (va : BitVec 32) (write user : Bool) (r : Request) (pa : Nat)
    (s' : Space) : Prop :=
  lookup s (pageBase va) write user = .ok r ∧ getPage r.cache r.offset (write && r.copy) s = (some pa, s')

/-- A call that returns has given back the lock; and if the area was as before when it took the lock the second time, the
page is mapped. -/
def FaultRight (s : Space) (fPhysicalMap : Nat) (getPage : GetPage) (va : BitVec 32) (write user : Bool) : Prop :=
  ∀ o, handleFault s fPhysicalMap getPage va write user = some o →
    o.readers = 0 ∧ ∀ r pa s', Retakes s getPage va write user r pa s' →
      located s' (pageBase va) = located s (pageBase va) →
      o.status = E_NO_ERROR ∧ PageMapped o.space fPhysicalMap (pageBase va) pa (mappedProtection r write)

/-- The lock is retaken after some change of the space, and the area covering the address is as before, or it is the
same one with the same cache, and the offset of the fault for its own. -/
def Misjudged (s : Space) (getPage : GetPage) (va : BitVec 32) (write user : Bool) : Prop :=
  ∃ r pa s', Retakes s getPage va write user r pa s' ∧ s'.fChangeCount ≠ s.fChangeCount ∧
    (located s' (pageBase va) = located s (pageBase va) ∨ hasChanged s' (pageBase va) r = false)

/-! ## The proof -/

variable {s s' : Space} {va : BitVec 32} {write user : Bool} {r : Request} {getPage : GetPage} {fPhysicalMap pa : Nat}

theorem lookup_changeCount (h : lookup s va write user = .ok r) : r.lastChangeCount = s.fChangeCount := by
  unfold lookup at h
  split at h
  · cases h
  · split at h
    · cases h
    · split at h
      · cases h
      · cases h
        rfl

variable {o : Outcome}

theorem handleFault_early (h : handleFault s fPhysicalMap getPage va write user = some o)
    (hno : ∀ r pa s', ¬ Retakes s getPage va write user r pa s') : o.readers = 0 := by
  unfold handleFault at h
  dsimp only at h
  split at h
  · cases h
    rfl
  · rename_i r hr
    split at h
    · cases h
      rfl
    · rename_i pa s' hpage
      exact absurd ⟨hr, hpage⟩ (hno r pa s')

theorem handleFault_retaken (h : Retakes s getPage va write user r pa s') :
    handleFault s fPhysicalMap getPage va write user = resolve s' fPhysicalMap (pageBase va) write r pa 0 := by
  obtain ⟨hlookup, hpage⟩ := h
  unfold handleFault
  dsimp only
  rw [hlookup]
  dsimp only
  rw [hpage]
  rfl

theorem Retakes.unique {r' : Request} {pa' : Nat} {s'' : Space} (h : Retakes s getPage va write user r pa s')
    (h' : Retakes s getPage va write user r' pa' s'') : r' = r ∧ pa' = pa ∧ s'' = s' := by
  obtain ⟨hlookup, hpage⟩ := h
  obtain ⟨hlookup', hpage'⟩ := h'
  obtain rfl : r = r' := Except.ok.inj (hlookup.symm.trans hlookup')
  obtain ⟨hpa, hs⟩ := Prod.mk.inj (hpage'.symm.trans hpage)
  exact ⟨rfl, Option.some.inj hpa, hs⟩

/-- Without a change the page is mapped and the lock given back. -/
theorem resolve_unchanged (hcount : r.lastChangeCount = s.fChangeCount)
    (h : resolve s fPhysicalMap va write r pa 0 = some o) :
    o.readers = 0 ∧ o.status = E_NO_ERROR ∧ PageMapped o.space fPhysicalMap va pa (mappedProtection r write) := by
  unfold resolve at h
  rw [if_neg (not_not.2 hcount)] at h
  obtain ⟨space, hmap, rfl⟩ := Option.map_eq_some_iff.1 h
  refine ⟨rfl, rfl, ?_⟩
  unfold mapPage at hmap
  split at hmap
  · cases hmap
  · rename_i maps hmaps
    cases hmap
    exact PhysicalMaps.map_translates s.sound va.isLt hmaps

/-- After a change the fault is refused, and the lock is given back when the recheck fails. -/
theorem resolve_changed (hcount : r.lastChangeCount ≠ s.fChangeCount) :
    resolve s fPhysicalMap va write r pa 0 = some ⟨E_BAD_ADDRESS, if hasChanged s va r then 0 else 1, s⟩ := by
  unfold resolve
  rw [if_pos hcount]
  rfl

/-- **Page faults.** For every address, kind of access, layout of the areas, and every change that other threads make while
`GetPage` runs: the fault is handled rightly exactly when it is not misjudged. -/
theorem handleFault_right_iff (s : Space) (fPhysicalMap : Nat) (getPage : GetPage) (va : BitVec 32) (write user : Bool) :
    FaultRight s fPhysicalMap getPage va write user ↔ ¬ Misjudged s getPage va write user := by
  constructor
  · rintro hright ⟨r, pa, s', hretakes, hcount, hsame⟩
    have hcount' : r.lastChangeCount ≠ s'.fChangeCount := by
      rw [lookup_changeCount hretakes.1]
      exact hcount.symm
    obtain ⟨hreaders, hmapped⟩ := hright _ ((handleFault_retaken hretakes).trans (resolve_changed hcount'))
    rcases hsame with hsame | hsame
    · have hstatus := (hmapped r pa s' hretakes hsame).1
      cases hstatus
    · dsimp only at hreaders
      rw [hsame] at hreaders
      cases hreaders
  · intro hnot o ho
    by_cases hretaken : ∃ r pa s', Retakes s getPage va write user r pa s'
    · obtain ⟨r, pa, s', hretakes⟩ := hretaken
      rw [handleFault_retaken hretakes] at ho
      by_cases hcount : r.lastChangeCount = s'.fChangeCount
      · obtain ⟨hreaders, hstatus, hmapped⟩ := resolve_unchanged hcount ho
        refine ⟨hreaders, fun r' pa' s'' hretakes' _ => ?_⟩
        obtain ⟨rfl, rfl, -⟩ := hretakes.unique hretakes'
        exact ⟨hstatus, hmapped⟩
      · rw [resolve_changed hcount] at ho
        cases ho
        have hcount' : s'.fChangeCount ≠ s.fChangeCount := by
          rw [← lookup_changeCount hretakes.1]
          exact fun he => hcount he.symm
        refine ⟨if_pos ?_, fun r' pa' s'' hretakes' hsame => ?_⟩
        · by_contra hchanged
          exact hnot ⟨r, pa, s', hretakes, hcount', Or.inr (Bool.eq_false_iff.2 hchanged)⟩
        · obtain ⟨-, -, rfl⟩ := hretakes.unique hretakes'
          exact absurd ⟨r, pa, _, hretakes, hcount', Or.inl hsame⟩ hnot
    · refine ⟨handleFault_early ho fun r pa s' h => hretaken ⟨r, pa, s', h⟩, fun r pa s' h => ?_⟩
      exact absurd ⟨r, pa, s', h⟩ hretaken

def oneArea : Space where
  fAreas := .node ⟨3, kUserBase, kUserBase + 0xfff, 0⟩ .nil .nil
  area _ := ⟨27#32, some 1, 0#32⟩
  fSourceCache _ := none
  fChangeCount := 0
  fFaultCount := 0
  maps := PhysicalMaps.booted
  sound := PhysicalMaps.booted_init.2

/-- While the page is read another thread makes an area and takes it away again: the fault is refused, and the lock is
kept. -/
theorem handleFault_keeps_lock :
    ¬ ∀ s fPhysicalMap getPage va write user, FaultRight s fPhysicalMap getPage va write user := by
  intro h
  obtain ⟨hreaders, -⟩ := h oneArea 0 (fun _ _ _ s => (some 0x9000, { s with fChangeCount := s.fChangeCount + 2 }))
    (BitVec.ofNat 32 kUserBase) true true _ rfl
  cases hreaders

end AddressSpace
