import Mathlib.Data.List.Basic
import Mathlib.Logic.Function.Basic
import SkyOS.Lib.Machine
import SkyOS.Lib.StepSystem

/-!
# `PhysicalMap` (`PhysicalMap.cpp`), with the page frames it takes (`Page.cpp`)

Page directories and page tables are words of physical pages, named by their physical address. A window
of `LockPhysicalPage` is taken for the page it shows; the calls of the windows, which a call may lack,
come to it in `MapWindows`. `ASSERT` is compiled out.

`Page::Alloc` takes the tail of `fFreeQueue` (`fClearQueue` is never filled) and waits while it is empty:
a call that waits for a page has no result here.

| here | there |
| --- | --- |
| `State.memory p i` | word `i` of the page at physical address `p` |
| `pdent / PAGE_SIZE * PAGE_SIZE` | `pdent & kPageMask` |
| `pdent % 2 = 1` | `pdent & kPagePresent` |
| object 0 | `fKernelPhysicalMap` |
-/

namespace PhysicalMaps

open Machine

def PAGE_SIZE : Nat := 0x1000
def kKernelBase : Nat := 0x01600000
def kUserBase : Nat := 0x08000000
def kUserTop : Nat := 0xbfffffff

def kPagePresent : Nat := 1
def kPageWritable : Nat := 2
def kPageUser : Nat := 4
def kPageCacheDisable : Nat := 16
def kPageGlobal : Nat := 256

def USER_READ : Nat := 1
def USER_WRITE : Nat := 2
def SYSTEM_WRITE : Nat := 16
def kUncacheablePage : Nat := 64

abbrev Memory := Nat → Nat → Nat

structure PhysicalMap where
  object : Nat
  fPageDirectory : Nat
  fMappedPageCount : Int
deriving DecidableEq, Repr

structure State where
  memory : Memory
  fFreeQueue : List Nat
  fPhysicalMaps : List PhysicalMap

/-- `entry & kPagePresent`. -/
def isPresent (entry : Nat) : Bool := entry % 2 = 1

/-- `entry & kPageMask`. -/
def pageOf (entry : Nat) : Nat := entry / PAGE_SIZE * PAGE_SIZE

def dirIndex (va : Nat) : Nat := va / PAGE_SIZE / 1024

def tableIndex (va : Nat) : Nat := va / PAGE_SIZE % 1024

def write (memory : Memory) (page i v : Nat) : Memory :=
  fun p j => if p = page ∧ j = i then v else memory p j

def clearPage (memory : Memory) (page : Nat) : Memory := fun p j => if p = page then 0 else memory p j

/-- `Page::Alloc` and `Wire`: the page, and the queue without it. -/
def allocPage (s : State) : Option (Nat × List Nat) :=
  s.fFreeQueue.getLast?.map fun page => (page, s.fFreeQueue.dropLast)

def find (s : State) (object : Nat) : Option PhysicalMap := s.fPhysicalMaps.find? (·.object = object)

/-- The default constructor (:46): 768 entries are cleared, the others copied from the kernel map. -/
def newPhysicalMap (s : State) (object : Nat) : Option State := do
  let kernel ← find s 0
  let (page, fFreeQueue) ← allocPage s
  let dir : Nat → Nat := fun i => if i < 768 then 0 else s.memory kernel.fPageDirectory i
  return { memory := Function.update s.memory page dir, fFreeQueue,
           fPhysicalMaps := s.fPhysicalMaps ++ [⟨object, page, 0⟩] }

/-- The flags of a page table entry (:146-157). -/
def pageFlags (va protection : Nat) : Nat :=
  kPagePresent ||| (if va ≥ kKernelBase then kPageGlobal else 0) |||
    (if protection &&& (USER_WRITE ||| SYSTEM_WRITE) ≠ 0 then kPageWritable else 0) |||
    (if protection &&& (USER_WRITE ||| USER_READ) ≠ 0 then kPageUser else 0) |||
    (if protection &&& kUncacheablePage ≠ 0 then kPageCacheDisable else 0)

/-- The end of `Map` (:159-162): count the page and write its entry. -/
def enterPage (s : State) (m : PhysicalMap) (pgtbl va pa protection : Nat) : State :=
  { s with
    memory := write s.memory pgtbl (tableIndex va) (pa ||| pageFlags va protection),
    fPhysicalMaps := s.fPhysicalMaps.map fun map =>
      if map.object = m.object ∧ ¬ isPresent (s.memory pgtbl (tableIndex va)) then
        { map with fMappedPageCount := map.fMappedPageCount + 1 } else map }

/-- A new page table (:104-137): at or above `kKernelBase` it is entered in every map, otherwise in this one,
for the user. -/
def installTable (s : State) (m : PhysicalMap) (va newTablePA : Nat) : Memory :=
  if va ≥ kKernelBase then
    s.fPhysicalMaps.foldl
      (fun memory map => write memory map.fPageDirectory (dirIndex va) (newTablePA ||| kPagePresent ||| kPageWritable))
      (clearPage s.memory newTablePA)
  else
    write (clearPage s.memory newTablePA) m.fPageDirectory (dirIndex va)
      (newTablePA ||| kPagePresent ||| kPageWritable ||| kPageUser)

/-- `Map` (:93). -/
def map (s : State) (object va pa protection : Nat) : Option State := do
  let m ← find s object
  let pdent := s.memory m.fPageDirectory (dirIndex va)
  if isPresent pdent then some (enterPage s m (pageOf pdent) va pa protection)
  else (allocPage s).map fun (newTablePA, fFreeQueue) =>
    enterPage { s with memory := installTable s m va newTablePA, fFreeQueue } m newTablePA va pa protection

/-- The inner loop of `Unmap` (:196-206) on the entries `indexes` of one page table: the table, and how many
pages were unmapped. -/
def clearEntries (memory : Memory) (pgtbl : Nat) : List Nat → Memory × Nat
  | [] => (memory, 0)
  | i :: indexes =>
    if isPresent (memory pgtbl i) then
      let (memory, n) := clearEntries (write memory pgtbl i 0) pgtbl indexes
      (memory, n + 1)
    else clearEntries memory pgtbl indexes

/-- The outer loop (:182-211) over the directory indexes left; a walk past the directory is no result. -/
def unmapLoop (dir : Nat) : List Nat → Nat → Nat → Memory → Option (Memory × Nat)
  | [], _, count, memory => if count = 0 then some (memory, 0) else none
  | pdindex :: dirs, ptindex, count, memory =>
    if count = 0 then some (memory, 0)
    else if ¬ isPresent (memory dir pdindex) then
      if ptindex + count < 1024 then some (memory, 0)
      else unmapLoop dir dirs 0 (count - (1024 - ptindex)) memory
    else
      let n := min count (1024 - ptindex)
      let (memory, unmapped) := clearEntries memory (pageOf (memory dir pdindex)) ((List.range n).map (ptindex + ·))
      (unmapLoop dir dirs 0 (count - n) memory).map fun (memory, k) => (memory, unmapped + k)

/-- `Unmap` (:173). -/
def unmap (s : State) (object base size : Nat) : Option State := do
  let m ← find s object
  let (memory, n) ← unmapLoop m.fPageDirectory ((List.range 1024).drop (dirIndex base)) (tableIndex base)
    (size / PAGE_SIZE) s.memory
  return { s with
    memory,
    fPhysicalMaps := s.fPhysicalMaps.map fun map =>
      if map.object = object then { map with fMappedPageCount := map.fMappedPageCount - n } else map }

/-- `Page::Free` of a list of pages. -/
def freePages (s : State) (pages : List Nat) : State := { s with fFreeQueue := s.fFreeQueue ++ pages }

/-- The page tables that the destructor frees (:77-81). -/
def ownTables (s : State) (m : PhysicalMap) : List Nat :=
  (List.range 768).filterMap fun i =>
    let pdent := s.memory m.fPageDirectory i
    if isPresent pdent then some (pageOf pdent) else none

def removeMap (s : State) (object : Nat) : State :=
  { s with fPhysicalMaps := s.fPhysicalMaps.filter (·.object ≠ object) }

/-- The destructor (:67). -/
def deletePhysicalMap (s : State) (object : Nat) : Option State :=
  (find s object).map fun m => freePages (removeMap s object) (ownTables s m ++ [m.fPageDirectory])

/-! ## Translation -/

/-- The page table entry that translates `va`, when one is present. -/
def translation (s : State) (m : PhysicalMap) (va : Nat) : Option Nat :=
  let pdent := s.memory m.fPageDirectory (dirIndex va)
  let ptent := s.memory (pageOf pdent) (tableIndex va)
  if isPresent pdent ∧ isPresent ptent then some ptent else none

/-! ## Runs -/

def InUse (s : State) (page : Nat) : Prop :=
  ∃ m ∈ s.fPhysicalMaps, page = m.fPageDirectory ∨
    ∃ i < 1024, isPresent (s.memory m.fPageDirectory i) = true ∧ page = pageOf (s.memory m.fPageDirectory i)

def Freeable (s : State) (page : Nat) : Prop := PAGE_SIZE ∣ page ∧ page ∉ s.fFreeQueue ∧ ¬ InUse s page

inductive Call where
  | newPhysicalMap (object : Nat)
  | deletePhysicalMap (object : Nat)
  | map (object va pa protection : Nat)
  | unmap (object base size : Nat)
  | allocPage
  | freePage (page : Nat)

/-- Addresses are 32-bit, objects are new when they are made, a map is deleted when no other map has the tables
it frees, and a page that is freed was in use for something else. -/
def Call.legal (s : State) : Call → Prop
  | .newPhysicalMap object => find s object = none
  | .deletePhysicalMap object => ∀ m, find s object = some m →
      (ownTables s m ++ [m.fPageDirectory]).Nodup ∧
        ∀ page ∈ ownTables s m ++ [m.fPageDirectory], Freeable (removeMap s object) page
  | .map _ va _ _ => va < 2 ^ 32
  | .unmap .. | .allocPage => True
  | .freePage page => Freeable s page

def perform (s : State) : Call → Option State
  | .newPhysicalMap object => newPhysicalMap s object
  | .deletePhysicalMap object => deletePhysicalMap s object
  | .map object va pa protection => map s object va pa protection
  | .unmap object base size => unmap s object base size
  | .allocPage => (allocPage s).map fun (_, fFreeQueue) => { s with fFreeQueue }
  | .freePage page => some (freePages s [page])

instance (s : State) (page : Nat) : Decidable (InUse s page) :=
  inferInstanceAs (Decidable (∃ m ∈ _, _ ∨ ∃ i < 1024, _ ∧ _))

instance (s : State) (page : Nat) : Decidable (Freeable s page) := inferInstanceAs (Decidable (_ ∧ _ ∧ ¬ _))

instance (s : State) : (c : Call) → Decidable (c.legal s)
  | .newPhysicalMap _ => inferInstanceAs (Decidable (_ = none))
  | .deletePhysicalMap object => inferInstanceAs (Decidable (∀ m, find s object = some m → _ ∧ ∀ page ∈ _, _))
  | .map .. => inferInstanceAs (Decidable (_ < _))
  | .unmap .. | .allocPage => .isTrue trivial
  | .freePage _ => inferInstanceAs (Decidable (Freeable _ _))

def step (s : State) (c : Call) : Option State :=
  if c.legal s then perform s c else none

/-- The pages in the free queue are not used by the maps, and no map uses a directory as a page table. -/
structure Sound (s : State) : Prop where
  aligned : ∀ p ∈ s.fFreeQueue, PAGE_SIZE ∣ p
  nodup : s.fFreeQueue.Nodup
  dirs : ∀ m ∈ s.fPhysicalMaps, m.fPageDirectory ∉ s.fFreeQueue
  tables : ∀ m ∈ s.fPhysicalMaps, ∀ i < 1024, isPresent (s.memory m.fPageDirectory i) = true →
    pageOf (s.memory m.fPageDirectory i) ∉ s.fFreeQueue ∧
      ∀ m' ∈ s.fPhysicalMaps, pageOf (s.memory m.fPageDirectory i) ≠ m'.fPageDirectory

/-- After `Bootstrap` there is the kernel map alone, and the pages the boot loader used are marked. -/
def system : StepSystem State Call where
  init s := (∃ kernel, s.fPhysicalMaps = [kernel] ∧ kernel.object = 0) ∧ Sound s
  step := step

end PhysicalMaps
