import SkyOS.Heap.OrderedArray
import SkyOS.Lib.Machine
import SkyOS.Lib.StepSystem

/-!
# The kernel heap (`kheap.cpp`)

Headers and footers lie in the memory the heap hands out. A pointer is its address, and arithmetic on
pointers and sizes is 32 bits wide. `SKY_ASSERT` halts the machine: a call that fails one has no result. The
fields of `heap_t` that only `expand` and `contract` read are left out: `memory_alloc` halts before it would
expand (`:334`), and the contraction is commented out.

| here | there |
| --- | --- |
| `header` 12 bytes: `magic`, `is_hole` at 4, `size` at 8 | `header_t` |
| `footer` 8 bytes: `magic`, `header` at 4 | `footer_t` |
| `p / PAGE_SIZE ≠ 0` | `p & 0xFFFFF000` |
-/

namespace KHeap

open Machine Bytes OrderedArrays

def PAGE_SIZE : Nat := 0x1000
def HEAP_INDEX_SIZE : Nat := 0x20000
def HEAP_MAGIC : Nat := 0x123890AB

/-- `sizeof(header_t)` and `sizeof(footer_t)`. -/
def sizeofHeader : Nat := 12
def sizeofFooter : Nat := 8

/-! ## Headers and footers -/

/-- `magic` of a header, or of a footer. -/
def magicOf (m : Memory) (p : Nat) : Nat := read32 m p

def isHoleOf (m : Memory) (header : Nat) : Nat := (m (header + 4)).toNat

def sizeOf (m : Memory) (header : Nat) : Nat := read32 m (header + 8)

def headerOf (m : Memory) (footer : Nat) : Nat := read32 m (footer + 4)

def setIsHole (m : Memory) (header is_hole : Nat) : Memory := write8 m (header + 4) is_hole

def setSize (m : Memory) (header size : Nat) : Memory := write32 m (header + 8) size

def setHeader (m : Memory) (footer header : Nat) : Memory := write32 m (footer + 4) header

def writeHeader (m : Memory) (header is_hole size : Nat) : Memory :=
  setSize (setIsHole (write32 m header HEAP_MAGIC) header is_hole) header size

def writeFooter (m : Memory) (footer header : Nat) : Memory :=
  setHeader (write32 m footer HEAP_MAGIC) footer header

/-- `header_t_less_than` (:240). -/
def header_t_less_than (m : Memory) (a b : Nat) : Bool := sizeOf m a < sizeOf m b

structure Heap where
  index : OrderedArray
  start_address : Nat
  end_address : Nat
deriving DecidableEq, Repr

/-- The memory, `kheap` and `g_usedHeapSize`. -/
structure State where
  memory : Memory
  kheap : Heap
  g_usedHeapSize : Nat

/-! ## The calls -/

/-- `create_kernel_heap` (:245). -/
def createKernelHeap (s : State) (start end_addr : Nat) : Option State :=
  if start % PAGE_SIZE = 0 ∧ end_addr % PAGE_SIZE = 0 then
    let (memory, index) := placeOrderedArray s.memory start HEAP_INDEX_SIZE
    let start := u32 (start + 4 * HEAP_INDEX_SIZE)
    let start := if start / PAGE_SIZE ≠ 0 then u32 (start / PAGE_SIZE * PAGE_SIZE + PAGE_SIZE) else start
    let memory := writeHeader memory start 1 (sub32 end_addr start)
    let (memory, index) := insertOrderedArray header_t_less_than memory start index
    some { s with memory, kheap := ⟨index, start, end_addr⟩ }
  else none

/-- Whether the hole fits (:218-229). -/
def fits (m : Memory) (size page_align header : Nat) : Bool :=
  if page_align > 0 then
    let offset : Int := if u32 (header + sizeofHeader) / PAGE_SIZE ≠ 0 then
      PAGE_SIZE - (u32 (header + sizeofHeader) % PAGE_SIZE : Nat) else 0
    toInt32 (toInt32 (sizeOf m header) - offset) ≥ toInt32 size
  else sizeOf m header ≥ size

/-- `find_smallest_hole` (:209), with `n` entries left. -/
def findFrom (m : Memory) (size page_align : Nat) (index : OrderedArray) : Nat → Nat → Option Nat
  | _, 0 => none
  | iterator, n + 1 =>
    if fits m size page_align (lookupOrderedArray m iterator index) then some iterator
    else findFrom m size page_align index (iterator + 1) n

def findSmallestHole (m : Memory) (size page_align : Nat) (heap : Heap) : Option Nat :=
  findFrom m size page_align heap.index 0 heap.index.size

structure Place where
  memory : Memory
  index : OrderedArray
  orig_hole_pos : Nat
  orig_hole_size : Nat

/-- The hole in front of a page-aligned block (:394-406). -/
def alignPlace (m : Memory) (index : OrderedArray) (pos size : Nat) : Place :=
  let new_location := sub32 (u32 (pos + PAGE_SIZE - pos % PAGE_SIZE)) sizeofHeader
  let hole_size := sub32 (PAGE_SIZE - pos % PAGE_SIZE) sizeofHeader
  let m := writeHeader m pos 1 hole_size
  let m := writeFooter m (sub32 new_location sizeofFooter) pos
  ⟨m, index, new_location, sub32 size (sizeOf m pos)⟩

/-- A whole hole leaves the index (:408-412). -/
def takePlace (m : Memory) (index : OrderedArray) (iterator pos size : Nat) : Place :=
  let (m, index) := removeOrderedArray m iterator index
  ⟨m, index, pos, size⟩

/-- The header and the footer of the block (:414-421). -/
def writeBlock (m : Memory) (pos size new_size : Nat) : Memory :=
  writeFooter (writeHeader m pos 0 new_size) (u32 (pos + sizeofHeader + size)) pos

/-- The hole behind the block (:423-440). -/
def addRemainder (m : Memory) (index : OrderedArray) (end_address pos hole_size : Nat) : Memory × OrderedArray :=
  let m := writeHeader m pos 1 hole_size
  let hole_footer := sub32 (u32 (pos + hole_size)) sizeofFooter
  let m := if hole_footer < end_address then writeFooter m hole_footer pos else m
  insertOrderedArray header_t_less_than m pos index

/-- `memory_alloc` from the hole it found (:376-453). -/
def allocFrom (s : State) (iterator size new_size page_align : Nat) : Nat × State :=
  let orig_hole_pos := lookupOrderedArray s.memory iterator s.kheap.index
  let orig_hole_size := sizeOf s.memory orig_hole_pos
  -- a remainder too small for a header and a footer goes with the block
  let small := sub32 orig_hole_size new_size < sizeofHeader + sizeofFooter
  let size := if small then u32 (size + sub32 orig_hole_size new_size) else size
  let new_size := if small then orig_hole_size else new_size
  let place := if page_align ≠ 0 ∧ orig_hole_pos / PAGE_SIZE ≠ 0 then
    alignPlace s.memory s.kheap.index orig_hole_pos orig_hole_size
    else takePlace s.memory s.kheap.index iterator orig_hole_pos orig_hole_size
  let m := writeBlock place.memory place.orig_hole_pos size new_size
  let rest := sub32 place.orig_hole_size new_size
  let (memory, index) := if rest > 0 then
    addRemainder m place.index s.kheap.end_address
      (u32 (place.orig_hole_pos + sizeofHeader + size + sizeofFooter)) rest
    else (m, place.index)
  (u32 (place.orig_hole_pos + sizeofHeader),
    { memory, kheap := { s.kheap with index }, g_usedHeapSize := u32 (s.g_usedHeapSize + new_size) })

/-- `memory_alloc` (:321). -/
def memoryAlloc (s : State) (size page_align : Nat) : Option (Nat × State) :=
  let new_size := u32 (size + sizeofHeader + sizeofFooter)
  (findSmallestHole s.memory new_size page_align s.kheap).map fun iterator =>
    allocFrom s iterator size new_size page_align

/-- "If the thing immediately to the left of us is a footer" of a hole (:489-490). -/
def leftIsHole (m : Memory) (header : Nat) : Bool :=
  let test_footer := sub32 header sizeofFooter
  magicOf m test_footer = HEAP_MAGIC ∧ isHoleOf m (headerOf m test_footer) = 1

/-- "If the thing immediately to the right of us is a header" of a hole (:501-503). -/
def rightIsHole (m : Memory) (footer : Nat) : Bool :=
  let test_header := u32 (footer + sizeofFooter)
  magicOf m test_header = HEAP_MAGIC ∧ isHoleOf m test_header ≠ 0

/-- "Unify left" (:486-497): the memory, the header and `do_add`. -/
def unifyLeft (m : Memory) (header footer : Nat) : Memory × Nat × Bool :=
  if leftIsHole m header then
    let cache_size := sizeOf m header
    let header := headerOf m (sub32 header sizeofFooter)
    let m := setHeader m footer header
    (setSize m header (u32 (sizeOf m header + cache_size)), header, false)
  else (m, header, true)

/-- The search for a header in the index (:517-520), with `n` entries left. -/
def searchIndex (m : Memory) (header : Nat) (index : OrderedArray) : Nat → Nat → Option Nat
  | _, 0 => none
  | iterator, n + 1 =>
    if lookupOrderedArray m iterator index = header then some iterator
    else searchIndex m header index (iterator + 1) n

/-- "Unify right" (:499-528). -/
def unifyRight (m : Memory) (index : OrderedArray) (header footer : Nat) : Option (Memory × OrderedArray) :=
  if rightIsHole m footer then
    let test_header := u32 (footer + sizeofFooter)
    let m := setSize m header (u32 (sizeOf m header + sizeOf m test_header))
    let footer := sub32 (u32 (test_header + sizeOf m test_header)) sizeofFooter
    let m := setHeader m footer header
    (searchIndex m test_header index 0 index.size).map fun iterator => removeOrderedArray m iterator index
  else some (m, index)

/-- The header and the footer that `hfree` finds for a pointer. -/
def headerFor (p : Nat) : Nat := sub32 p sizeofHeader

def footerFor (m : Memory) (p : Nat) : Nat := sub32 (u32 (headerFor p + sizeOf m (headerFor p))) sizeofFooter

/-- `hfree` after its checks (:480-560). -/
def release (s : State) (header footer : Nat) : Option State :=
  let (memory, merged, do_add) := unifyLeft (setIsHole s.memory header 1) header footer
  (unifyRight memory s.kheap.index merged footer).map fun (memory, index) =>
    let (memory, index) :=
      if do_add then insertOrderedArray header_t_less_than memory merged index else (memory, index)
    { s with memory, kheap := { s.kheap with index } }

/-- `hfree` (:456). -/
def hfree (s : State) (p : Nat) : Option State :=
  if p = 0 then some s
  else
    let header := headerFor p
    let footer := footerFor s.memory p
    let s := { s with g_usedHeapSize := sub32 s.g_usedHeapSize (sizeOf s.memory header) }
    if magicOf s.memory header = HEAP_MAGIC ∧ magicOf s.memory footer = HEAP_MAGIC then release s header footer
    else none

/-- `malloc_size` (:116), without its check. -/
def mallocSize (m : Memory) (p : Nat) : Nat :=
  sub32 (sub32 (sizeOf m (headerFor p)) sizeofHeader) sizeofFooter

/-! ## Runs

The heap's users keep the pointers they got and not yet freed (`live`); `fresh` says that no block has been
taken yet. They write to their blocks, and the rest of the kernel writes outside the heap. -/

structure Run extends State where
  live : List Nat
  fresh : Bool

inductive Call where
  | memoryAlloc (size : Nat)
  | hfree (p : Nat)
  | store (a v : Nat)

/-- The bytes a user of `p` has. -/
def userArea (m : Memory) (p : Nat) : Set Nat := Set.Ico p (p + mallocSize m p)

def Call.legal (r : Run) : Call → Prop
  | .memoryAlloc size => size + sizeofHeader + sizeofFooter < 2 ^ 32
  | .hfree p => p ∈ r.live
  | .store a _ => (∃ p ∈ r.live, a ∈ userArea r.memory p) ∨
      a ∉ Set.Ico r.kheap.index.array r.kheap.end_address

def perform (r : Run) : Call → Option Run
  | .memoryAlloc size => (memoryAlloc r.toState size 0).map fun (p, s) => ⟨s, p :: r.live, false⟩
  | .hfree p => (hfree r.toState p).map fun s => ⟨s, r.live.erase p, r.fresh⟩
  | .store a v => some { r with memory := write8 r.memory a v }

instance (m : Memory) (p a : Nat) : Decidable (a ∈ userArea m p) := inferInstanceAs (Decidable (_ ≤ _ ∧ _ < _))

instance (r : Run) : (c : Call) → Decidable (c.legal r)
  | .memoryAlloc _ => inferInstanceAs (Decidable (_ < _))
  | .hfree _ => inferInstanceAs (Decidable (_ ∈ _))
  | .store a _ => inferInstanceAs (Decidable ((∃ p ∈ r.live, a ∈ userArea r.memory p) ∨ ¬ (_ ≤ a ∧ a < _)))

def step (r : Run) (c : Call) : Option Run :=
  if c.legal r then perform r c else none

/-- `HeapManager::Initialize` makes the heap of a region that holds the index and at least one page. -/
def system : StepSystem Run Call where
  init r := ∃ m index start end_addr, start + 4 * HEAP_INDEX_SIZE + PAGE_SIZE < end_addr ∧ end_addr < 2 ^ 32 ∧
    createKernelHeap ⟨m, ⟨index, 0, 0⟩, 0⟩ start end_addr = some r.toState ∧ r.live = [] ∧ r.fresh = true
  step := step

end KHeap
