import SkyOS.Memory.UnmapAddress

/-!
# Mapping when the blocks run out (`VirtualMemoryManager.cpp:97`, `:114`, `:283`, `:299`)

`CreatePageTable` returns false where `AllocBlock` returns NULL, and `MapPhysicalAddressToVirtualAddresss` has no result to
pass that on with: it goes on with the entry 0, so the page's entry is written to the page at 0 (`map_without_table`). Only
`AllocBlocks` is looked at, at the beginning of `MapAddress`.
-/

namespace VirtualMemoryManager

open Bytes PhysicalMemoryManager Machine Bitmap

inductive MapCall where
  | mapAddress (startAddress pageCount : BitVec 32)
  | mapDMAAddress (va pa last : BitVec 32)

section Configuration

variable (SKY_EMULATOR : Bool)

/-- What `AllocBlocks` returns to `MapAddress`, with 0 for `NULL`. -/
def newBlocks (s : State) (pageCount : BitVec 32) : BitVec 32 :=
  BitVec.ofNat 32 ((allocBlocks SKY_EMULATOR s.pmm pageCount.toNat).1.getD 0)

def NoTable (s : State) (dir virt : BitVec 32) : Prop :=
  entry s.memory dir (PAGE_DIRECTORY_INDEX virt).toNat = 0 ∧ newTable SKY_EMULATOR s = 0

def RunsOut (s : State) (dir : BitVec 32) : MapCall → Prop
  | .mapAddress start pageCount =>
    newBlocks SKY_EMULATOR s pageCount = 0 ∨ ∃ i < pageCount.toNat,
      NoTable SKY_EMULATOR (mapPages SKY_EMULATOR ⟨s.memory, (allocBlocks SKY_EMULATOR s.pmm pageCount.toNat).2⟩ dir start
        (newBlocks SKY_EMULATOR s pageCount) i) dir (pageAt start i)
  | .mapDMAAddress va pa last =>
    ∃ i, (∀ j ≤ i, pageAt va j ≤ last) ∧ NoTable SKY_EMULATOR (mapPages SKY_EMULATOR s dir va pa i) dir (pageAt va i)

def Returns (s : State) (dir : BitVec 32) : MapCall → Bool × State → Prop
  | .mapAddress start pageCount, r => mapAddress SKY_EMULATOR s dir start pageCount = r
  | .mapDMAAddress va pa last, r => ∃ fuel, mapDMAAddress SKY_EMULATOR s dir va pa last fuel = some r

/-- No block stays allocated, and only blocks that were free are written. -/
structure Harmless (s s' : State) : Prop where
  written : ∀ x, s'.memory x ≠ s.memory x → ∃ f < s.pmm.m_maxBlocks, bit s.pmm.memoryMap f = false ∧
    x ∈ page (BitVec.ofNat 32 (blockAddress SKY_EMULATOR s.pmm f))
  used : s'.pmm.m_usedBlocks = s.pmm.m_usedBlocks
  blocks : ∀ f < s.pmm.m_maxBlocks, bit s'.pmm.memoryMap f = bit s.pmm.memoryMap f

def FailureRight (s : State) (dir : BitVec 32) (call : MapCall) : Prop :=
  RunsOut SKY_EMULATOR s dir call → ∃ s', Returns SKY_EMULATOR s dir call (false, s') ∧ Harmless SKY_EMULATOR s s'

def NoBlocks (s : State) : MapCall → Prop
  | .mapAddress _ pageCount => blocksFound s.pmm pageCount.toNat = ∅
  | .mapDMAAddress .. => False

variable {SKY_EMULATOR} {s : State} {dir virt phys flags va pa last : BitVec 32}

/-- **Without a table** the entry is written to the page at 0, and the directory keeps none. -/
theorem map_without_table (h : NoTable SKY_EMULATOR s dir virt) :
    (mapPhysicalAddressToVirtualAddresss SKY_EMULATOR s dir virt phys flags).memory =
      setEntry s.memory 0 (PAGE_TABLE_INDEX virt).toNat (phys ||| flags) := by
  obtain ⟨hzero, hnone⟩ := h
  unfold mapPhysicalAddressToVirtualAddresss createPageTable
  rw [shift_eq_PAGE_DIRECTORY_INDEX, shifts_eq_PAGE_TABLE_INDEX, if_pos hzero, if_pos hzero, if_pos hnone]
  dsimp only
  rw [hzero]
  rfl

theorem mapDMAAddress_true : ∀ {fuel : Nat} {s : State} {va pa : BitVec 32} {r : Bool × State},
    mapDMAAddress SKY_EMULATOR s dir va pa last fuel = some r → r.1 = true
  | fuel + 1, s, va, pa, r, h => by
    rw [mapDMAAddress] at h
    split at h
    · exact mapDMAAddress_true h
    · cases h
      rfl

/-- **Only `AllocBlocks` is looked at**: where blocks run out, the call returns false and leaves nothing behind if and
only if it is `MapAddress` and not even the blocks for the pages are found. (The frame bitmap lies apart from the
directory, the tables and the blocks.) -/
theorem mapping_failure_iff {call : MapCall} (hout : RunsOut SKY_EMULATOR s dir call) :
    FailureRight SKY_EMULATOR s dir call ↔ NoBlocks s call := by
  rw [FailureRight, forall_prop_of_true hout]
  cases call with
  | mapDMAAddress va pa last =>
    refine iff_of_false ?_ id
    rintro ⟨s', ⟨fuel, hreturns⟩, -⟩
    cases mapDMAAddress_true hreturns
  | mapAddress start pageCount =>
    show (∃ s', mapAddress SKY_EMULATOR s dir start pageCount = (false, s') ∧ Harmless SKY_EMULATOR s s') ↔
      blocksFound s.pmm pageCount.toNat = ∅
    rcases allocBlocks_found SKY_EMULATOR s.pmm pageCount.toNat with ⟨hnone, hfound⟩ | ⟨frame, p', hsome, ht, hfound⟩
    · refine iff_of_true ⟨s, ?_, fun x hx => absurd rfl hx, rfl, fun f _ => rfl⟩ hfound
      rw [mapAddress, hnone]
      rfl
    · have hmem : frame ∈ blocksFound s.pmm pageCount.toNat := by
        rw [hfound, Finset.mem_Ico]
        exact ⟨Nat.le_refl _, Nat.lt_add_of_pos_right ht.pos⟩
      refine iff_of_false ?_ fun hempty => Finset.notMem_empty _ (hempty ▸ hmem)
      rintro ⟨s', hreturns, hharmless⟩
      rw [mapAddress, hsome] at hreturns
      dsimp only at hreturns
      split at hreturns
      · -- block 0, whose address is NULL
        cases hreturns
        obtain ⟨hclear, hlt⟩ := ht.free 0 ht.pos
        have hset : bit p'.memoryMap (frame + 0) = true := by
          rw [ht.next, bit_markRange, decide_eq_true ⟨Nat.le_refl _, Nat.add_lt_add_left ht.pos frame⟩, Bool.true_or]
        have hsame := hharmless.blocks _ hlt
        rw [hclear] at hsame
        exact absurd (hset.symm.trans hsame) (by decide)
      · cases hreturns

end Configuration

def noBlockFree : State := ⟨fun _ => 0, ⟨32, 32, 0, 1, fun _ => 0xffffffff#32⟩⟩

def threeFree : State := ⟨fun _ => 0, ⟨29, 32, 0, 1, fun _ => 0xffffffe3#32⟩⟩

theorem noBlockFree_runsOut : RunsOut false noBlockFree 0x1000#32
    (.mapDMAAddress 0x400000#32 0xe0000000#32 0x400000#32) := by
  refine ⟨0, fun j hj => ?_, entry_zero _ _, by decide +kernel⟩
  obtain rfl := Nat.le_zero.1 hj
  decide

theorem mapping_failure_noBlockFree : FailureRight false noBlockFree 0x1000#32 (.mapAddress 0x400000#32 1#32) ↔
    NoBlocks noBlockFree (.mapAddress 0x400000#32 1#32) :=
  mapping_failure_iff (Or.inl (by decide +kernel))

/-- Two pages on both sides of a 4 MB boundary, with one block left for their two tables; and an address of a device. -/
theorem mapping_failure_silent : (¬ ∀ (s : State) (dir start pageCount : BitVec 32),
      FailureRight false s dir (.mapAddress start pageCount)) ∧
    ¬ ∀ (s : State) (dir va pa last : BitVec 32), FailureRight false s dir (.mapDMAAddress va pa last) := by
  refine ⟨fun h => ?_, fun h => ?_⟩
  · have hout : RunsOut false threeFree 0x1000#32 (.mapAddress 0x3ff000#32 2#32) := by
      refine Or.inr ⟨1, by decide, ?_, ?_⟩ <;> decide +kernel
    obtain ⟨s', hreturns, -⟩ := h _ _ _ _ hout
    have htrue : (mapAddress false threeFree 0x1000#32 0x3ff000#32 2#32).1 = true := by decide +kernel
    have hfalse := congrArg Prod.fst (show mapAddress false threeFree 0x1000#32 0x3ff000#32 2#32 =
      (false, s') from hreturns)
    rw [htrue] at hfalse
    cases hfalse
  · obtain ⟨s', ⟨fuel, hreturns⟩, -⟩ := h _ _ _ _ _ noBlockFree_runsOut
    cases mapDMAAddress_true hreturns

end VirtualMemoryManager
