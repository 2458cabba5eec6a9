import SkyOS.Vm.Iterator

/-!
# `AddressSpace` (`AddressSpace.cpp`, `Area.h`, `memory_layout.h`)

The state is the area tree and the areas that were created and not deleted. Calls run under the write lock
of `fAreaLock`, so a call is one step. What a call learns from outside is an argument of it: whether
`PageCache::Commit` gave the size asked for. The pages a call maps and unmaps do not touch the tree and are
left out. `none` is a call without result: a path stack overflows, or `GetPageCache()` is dereferenced on
an area without cache.

An area whose `Add` was refused is returned all the same (`AddressSpace.cpp:102`); it takes part in no
further call here.

| here | there |
| --- | --- |
| `Area.size` | the size last requested for the area |
| `Call.createArea … commits` | `cache->Commit(offset + size) == offset + size` |
| `wired` | `wiring & AREA_WIRED` |
-/

namespace AddressSpace

open AVLTree Machine

def PAGE_SIZE : Nat := 0x1000
def INVALID_PAGE : Nat := 0xffffffff
def SEARCH_FROM_BOTTOM : Nat := 2

def kUserBase : Nat := 0x08000000
def kUserTop : Nat := 0xbfffffff
def kKernelBase : Nat := 0x01600000
def kKernelTop : Nat := 0xdfffffff
def kAddressSpaceTop : Nat := 0xdfffffff

def nullArea : Nat := 1
def kernelArea : Nat := 2

structure Area where
  node : Nat
  cached : Bool
  size : Nat
deriving DecidableEq, Repr

structure State where
  root : Tree
  areas : List Area

/-- `Area::GetSize` (`Area.h:86`). -/
def getSize (a : AVLNode) : Nat := u32 (sub32 a.fHighKey a.fLowKey + 1)

/-! ## `FindFreeRange` (:357) -/

/-- The loop from the bottom (:361); `low` is the end of the area before, plus one. -/
def searchFromBottom (size : Nat) : Nat → Iterator → Nat → Option Nat
  | 0, _, _ => none
  | fuel + 1, iterator, low =>
    match iterator.fCurrentNode with
    | none => some INVALID_PAGE
    | some area =>
      if sub32 area.node.fLowKey low ≥ size then some low
      else iterator.goToNext.bind fun iterator =>
        searchFromBottom size fuel iterator (u32 (area.node.fHighKey + 1))

/-- The loop from the top (:373); `high` is the base of the area above, minus one. -/
def searchFromTop (size : Nat) : Nat → Iterator → Nat → Option Nat
  | 0, _, _ => none
  | fuel + 1, iterator, high =>
    match iterator.fCurrentNode with
    | none => some INVALID_PAGE
    | some area =>
      if sub32 high area.node.fHighKey ≥ size then some (sub32 (high + 1) size)
      else iterator.goToNext.bind fun iterator =>
        searchFromTop size fuel iterator (sub32 area.node.fLowKey 1)

def findFreeRange (root : Tree) (size flags : Nat) : Option Nat :=
  if flags &&& SEARCH_FROM_BOTTOM ≠ 0 then
    (Iterator.begin root true).bind fun iterator => searchFromBottom size (root.numNodes + 1) iterator 0
  else
    (Iterator.begin root false).bind fun iterator =>
      searchFromTop size (root.numNodes + 1) iterator kAddressSpaceTop

/-! ## The calls -/

/-- The constructor (:44): the second `Add` is refused, the ranges overlap. -/
def construct : Option State := do
  let (_, root) ← add .nil nullArea 0 (kUserBase - 1)
  let (_, root) ← add root kernelArea kKernelBase kKernelTop
  return ⟨root, []⟩

/-- `new Area` and `fAreas.Add`, whose result is not looked at (:101, :136). -/
def insertArea (s : State) (area va size : Nat) (cached : Bool) : Option State :=
  (add s.root area va (u32 (va + size - 1))).map fun (_, root) => ⟨root, ⟨area, cached, size⟩ :: s.areas⟩

/-- The base of a new area (:92-95): the range asked for, when it is free, or a search. -/
def chooseBase (root : Tree) (size va flags : Nat) : Option Nat :=
  if va = INVALID_PAGE then findFreeRange root size flags
  else if va % PAGE_SIZE ≠ 0 ∨ ¬ isRangeFree va (u32 (va + size - 1)) root then some INVALID_PAGE
  else some va

/-- `CreateArea` (:82). -/
def createArea (s : State) (area size : Nat) (wired cached commits : Bool) (va flags : Nat) : Option State :=
  if size % PAGE_SIZE ≠ 0 ∨ size = 0 then some s
  else if cached ∧ ¬ commits then some s
  else (chooseBase s.root size va flags).bind fun va =>
    if va = INVALID_PAGE then some s
    else if wired ∧ ¬ cached then none
    else insertArea s area va size cached

/-- `MapPhysicalMemory` (:126). -/
def mapPhysicalMemory (s : State) (area size : Nat) : Option State := do
  let va ← findFreeRange s.root size 0
  if va = INVALID_PAGE then some s else insertArea s area va size false

def live (s : State) (area : Nat) : Option Area := s.areas.find? (·.node = area)

/-- `fAreas.Resize(area, newSize)` (:182). -/
def resized (s : State) (area newSize : Nat) : State :=
  ⟨resize s.root area newSize, s.areas.map fun a => if a.node = area then { a with size := newSize } else a⟩

/-- The test before growing (:160-162). -/
def canGrow (s : State) (a : AVLNode) (newSize : Nat) : Bool :=
  ¬ u32 (a.fLowKey + newSize) < a.fLowKey ∧
    isRangeFree (u32 (a.fLowKey + getSize a)) (u32 (a.fLowKey + newSize)) s.root

/-- `ResizeArea` (:146). -/
def resizeArea (s : State) (area newSize : Nat) (commits : Bool) : Option State :=
  match live s area, nodeAt s.root area with
  | some ar, some a =>
    if newSize = 0 then some s
    else if newSize > getSize a then
      if ¬ ar.cached then none
      else if ¬ commits then some s
      else if ¬ canGrow s a newSize then some s
      else some (resized s area newSize)
    else if newSize < getSize a then
      if ¬ ar.cached then none else some (resized s area newSize)
    else some (resized s area newSize)
  | _, _ => none

/-- `DeleteArea` (:188). -/
def deleteArea (s : State) (area : Nat) : Option State :=
  (nodeAt s.root area).bind fun a =>
    (remove s.root a).map fun (_, root) => ⟨root, s.areas.filter (·.node ≠ area)⟩

inductive Call where
  | createArea (area size : Nat) (wired cached commits : Bool) (va flags : Nat)
  | mapPhysicalMemory (area size : Nat)
  | resizeArea (area newSize : Nat) (commits : Bool)
  | deleteArea (area : Nat)

/-- A new area has a new address, arguments are 32-bit, and an area is resized and deleted while it is live. -/
def Call.legal (s : State) : Call → Prop
  | .createArea area size _ _ _ va _ => fresh s area ∧ size < 2 ^ 32 ∧ va < 2 ^ 32
  | .mapPhysicalMemory area size => fresh s area ∧ size < 2 ^ 32
  | .resizeArea area newSize _ => (live s area).isSome ∧ newSize < 2 ^ 32
  | .deleteArea area => (live s area).isSome
where
  fresh (s : State) (area : Nat) : Prop := kernelArea < area ∧ nodeAt s.root area = none ∧ live s area = none

instance (s : State) (area : Nat) : Decidable (Call.legal.fresh s area) :=
  inferInstanceAs (Decidable (_ ∧ _ = none ∧ _ = none))

instance (s : State) : (c : Call) → Decidable (c.legal s)
  | .createArea .. => inferInstanceAs (Decidable (_ ∧ _ ∧ _))
  | .mapPhysicalMemory .. | .resizeArea .. => inferInstanceAs (Decidable (_ ∧ _))
  | .deleteArea _ => inferInstanceAs (Decidable (_ = true))

def step (s : State) (c : Call) : Option State :=
  if c.legal s then
    match c with
    | .createArea area size wired cached commits va flags => createArea s area size wired cached commits va flags
    | .mapPhysicalMemory area size => mapPhysicalMemory s area size
    | .resizeArea area newSize commits => resizeArea s area newSize commits
    | .deleteArea area => deleteArea s area
  else none

def system : StepSystem State Call where
  init s := construct = some s
  step := step

end AddressSpace
