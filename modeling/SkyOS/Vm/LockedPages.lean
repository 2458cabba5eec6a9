import Mathlib.Algebra.Group.Nat.Defs
import Mathlib.Data.List.Basic
import Mathlib.Logic.Function.Basic
import SkyOS.Lib.Machine
import SkyOS.Lib.StepSystem

/-!
# The windows of `LockPhysicalPage` (`PhysicalMap.cpp:252-321`, `physicalmap.h`)

1024 slots, each a page of the area at `kIOAreaBase`; slot 0 shows the page table of the area and is never given out. A
slot that is not in use waits in the queue and keeps its page until it is needed for another one. A call runs with
interrupts off, so it is one step. `locks` is no variable of the code: the locks that were returned and not given back.

The lookup hashes with `& kLockedPageHashSize - 1`, the insertion with `% kLockedPageHashSize`, which is the same.

| here | there |
| --- | --- |
| slot `i` | `fLockedPages + i` |
| `hashPrev = bucket b` | `&fLockedPageHash[b]` |
| `hashPrev = next i` | `&fLockedPages[i].hashNext` |
| `ioArea i` | the page table entry at `kIOAreaBase`, word `i` |
| no result | a null pointer is written through, `panic`, or a chain without end |
-/

namespace LockedPages

def PAGE_SIZE : Nat := 0x1000
def INVALID_PAGE : Nat := 0xffffffff
def kIOAreaBase : Nat := 0xd4000000
def kLockedPageHashSize : Nat := 2048
def kPagePresent : Nat := 1
def kPageWritable : Nat := 2

def slots : Nat := 1024

/-- What `hashPrev` points to. -/
inductive HashLink where
  | bucket (b : Nat)
  | next (slot : Nat)
deriving DecidableEq

structure LockedPage where
  pa : Nat
  hashNext : Option Nat
  mapCount : Int
  hashPrev : Option HashLink
deriving DecidableEq

structure State where
  fLockedPages : Nat → LockedPage
  fLockedPageHash : Nat → Option Nat
  fInactiveLockedPages : List Nat
  fLockPageHits : Int
  fLockPageRequests : Int
  ioArea : Nat → Nat
  /-- Each lock with the page asked for and the address returned. -/
  locks : List (Nat × Nat)

def bucketOf (pa : Nat) : Nat := pa / PAGE_SIZE % kLockedPageHashSize

/-- `(lockedPage - fLockedPages) * PAGE_SIZE + kIOAreaBase`. -/
def addressOf (slot : Nat) : Nat := slot * PAGE_SIZE + kIOAreaBase

/-- The slot of an address (:314), in 32 bits: that of a physical address lies far behind the last slot. -/
def slotOf (va : Nat) : Nat := Machine.sub32 va kIOAreaBase / PAGE_SIZE

/-- The loop of `:264`, from a link on: the slot with the page, or `some none` at the end of the chain. -/
def search (pages : Nat → LockedPage) (pa : Nat) : Nat → Option Nat → Option (Option Nat)
  | 0, _ => none
  | _ + 1, none => some none
  | fuel + 1, some slot => if (pages slot).pa = pa then some (some slot) else search pages pa fuel (pages slot).hashNext

/-- `lookup` of a page in the hash; a chain is no longer than there are slots, or it does not end. -/
def lookup (s : State) (pa : Nat) : Option (Option Nat) :=
    search s.fLockedPages pa (slots + 1) (s.fLockedPageHash (bucketOf pa))

def setPage (s : State) (slot : Nat) (page : LockedPage) : State :=
  { s with fLockedPages := Function.update s.fLockedPages slot page }

/-- `*hashPrev = page`. -/
def assign (s : State) (page : Option Nat) : Option HashLink → Option State
  | none => none
  | some (.bucket b) => some { s with fLockedPageHash := Function.update s.fLockedPageHash b page }
  | some (.next slot) => some (setPage s slot { s.fLockedPages slot with hashNext := page })

/-- The chain loses the slot (:276-280). -/
def evict (s : State) (slot : Nat) : Option State :=
  if (s.fLockedPages slot).pa = INVALID_PAGE then some s
  else (assign s (s.fLockedPages slot).hashNext (s.fLockedPages slot).hashPrev).map fun s =>
    match (s.fLockedPages slot).hashNext with
    | none => s
    | some next => setPage s next { s.fLockedPages next with hashPrev := (s.fLockedPages slot).hashPrev }

/-- The slot shows the page, and is entered at the head of its bucket (:282-292); its `hashNext` stays. -/
def insert (s : State) (slot pa : Nat) : State :=
  let page := s.fLockedPages slot
  { setPage s slot { page with hashPrev := some (.bucket (bucketOf pa)), pa, mapCount := page.mapCount + 1 } with
    fLockedPageHash := Function.update s.fLockedPageHash (bucketOf pa) (some slot),
    ioArea := Function.update s.ioArea slot (pa ||| kPagePresent ||| kPageWritable) }

/-- A slot for a page that is in none (:270-292). -/
def mapPage (s : State) (pa : Nat) : Option (Nat × State) :=
  match s.fInactiveLockedPages with
  | [] => none
  | slot :: rest => (evict { s with fInactiveLockedPages := rest } slot).map fun s => (slot, insert s slot pa)

/-- One lock more on the slot (:301-304). -/
def relock (s : State) (slot : Nat) : State :=
  let page := s.fLockedPages slot
  { setPage s slot { page with mapCount := page.mapCount + 1 } with
    fLockPageHits := s.fLockPageHits + 1,
    fInactiveLockedPages := if page.mapCount = 0 then s.fInactiveLockedPages.erase slot else s.fInactiveLockedPages }

/-- `LockPhysicalPage` (:252): the slot whose address is returned. -/
def lockPhysicalPage (s : State) (pa : Nat) : Option (Nat × State) :=
  let s := { s with fLockPageRequests := s.fLockPageRequests + 1 }
  (lookup s pa).bind fun
    | none => mapPage s pa
    | some slot => some (slot, relock s slot)

/-- `UnlockPhysicalPage` (:311). -/
def unlockPhysicalPage (s : State) (va : Nat) : State :=
  let slot := slotOf va
  let page := s.fLockedPages slot
  { setPage s slot { page with mapCount := page.mapCount - 1 } with
    fInactiveLockedPages := if page.mapCount - 1 = 0 then s.fInactiveLockedPages ++ [slot] else s.fInactiveLockedPages }

/-- `LockPhysicalPage` with its address, and the lock that is held from then on. -/
def lock (s : State) (pa : Nat) : Option (Nat × State) :=
  (lockPhysicalPage s pa).map fun (slot, s') => (addressOf slot, { s' with locks := (pa, addressOf slot) :: s.locks })

/-- `UnlockPhysicalPage` of a lock that is held. -/
def unlock (s : State) (va : Nat) : State := { unlockPhysicalPage s va with locks := s.locks.eraseP (·.2 = va) }

/-! ## Runs -/

inductive Call where
  | lock (pa : Nat)
  | unlock (va : Nat)

/-- Pages are page-aligned 32-bit addresses; fewer than 1023 locks are held at a time; an unlock matches a lock. -/
def Call.legal (s : State) : Call → Prop
  | .lock pa => PAGE_SIZE ∣ pa ∧ pa < 2 ^ 32 ∧ s.locks.length + 1 < 1023
  | .unlock va => ∃ lock ∈ s.locks, lock.2 = va

instance (s : State) : (c : Call) → Decidable (c.legal s)
  | .lock _ => inferInstanceAs (Decidable (_ ∧ _ ∧ _))
  | .unlock _ => inferInstanceAs (Decidable (∃ lock ∈ s.locks, _))

def step (s : State) (c : Call) : Option State :=
  if c.legal s then
    match c with
    | .lock pa => (lock s pa).map fun (_, s') => s'
    | .unlock va => some (unlock s va)
  else none

/-- A slot after `Bootstrap` (:334-343). -/
def unusedPage : LockedPage := ⟨INVALID_PAGE, none, 0, none⟩

/-- After the loop of `Bootstrap`; of slot 0 only `mapCount` is written. -/
def Initial (s : State) : Prop :=
  (s.fLockedPages 0).mapCount = 0x3fffffff ∧ (∀ slot, 0 < slot → slot < slots → s.fLockedPages slot = unusedPage) ∧
    (∀ b, s.fLockedPageHash b = none) ∧ s.fInactiveLockedPages = List.range' 1 (slots - 1) ∧ s.locks = []

def system : StepSystem State Call where
  init := Initial
  step := step

/-! ## What is asked of it -/

def chain (pages : Nat → LockedPage) : Nat → Option Nat → List Nat
  | 0, _ | _ + 1, none => []
  | fuel + 1, some slot => slot :: chain pages fuel (pages slot).hashNext

def chainOf (s : State) (b : Nat) : List Nat := chain s.fLockedPages (slots + 1) (s.fLockedPageHash b)

def Slot (slot : Nat) : Prop := 0 < slot ∧ slot < slots

/-- `(pa, va)` is held: the slot of `va` shows `pa`. -/
def Shows (s : State) (pa va : Nat) : Prop :=
  ∃ slot, Slot slot ∧ va = addressOf slot ∧ (s.fLockedPages slot).pa = pa ∧
    s.ioArea slot = pa ||| kPagePresent ||| kPageWritable

/-- The property of the windows: what is locked stays mapped, the queue holds the slots that are not in use, a locked
page is found and is in one slot, and each slot with a page is in the chains once. -/
structure WindowsRight (s : State) : Prop where
  shows : ∀ lock ∈ s.locks, Shows s lock.1 lock.2
  inactive : ∀ slot, Slot slot → ((s.fLockedPages slot).mapCount = 0 ↔ slot ∈ s.fInactiveLockedPages)
  found : ∀ lock ∈ s.locks, ∃ slot, lookup s lock.1 = some (some slot) ∧ lock.2 = addressOf slot
  one : ∀ lock ∈ s.locks, ∀ slot, Slot slot → (s.fLockedPages slot).pa = lock.1 → lock.2 = addressOf slot
  chains : ∀ slot, Slot slot → (s.fLockedPages slot).pa ≠ INVALID_PAGE →
    ∃! place : Nat × Nat, place.1 < kLockedPageHashSize ∧ (chainOf s place.1)[place.2]? = some slot

/-- The bucket of a page that is to be mapped is empty, once the chains have lost the slot for it. -/
def FindsEmpty (s : State) : Call → Prop
  | .lock pa => lookup s pa = some none → ∀ slot rest s', s.fInactiveLockedPages = slot :: rest → evict s slot = some s' →
      s'.fLockedPageHash (bucketOf pa) = none
  | .unlock _ => True

end LockedPages
