import Mathlib.Data.Finset.Card
import Mathlib.Data.Finset.Image
import Mathlib.Order.Interval.Finset.Nat
import SkyOS.Memory.VirtualMemoryManager

/-!
# Ranges of pages (`VirtualMemoryManager.cpp:149-176`, `:283-329`)

`MapAddress` takes its blocks in one run and maps page by page, `MapDMAAddress` maps to addresses it is given. Both
ignore whether a page got its table. `UnmapAddress` goes page by page too, and for each page it frees the whole table,
whose block it finds with the mask `0x7FFFF000`: the rest of the table is gone with the first page, and the blocks
behind the pages are not freed at all.

The loops count `i` to `n` here. A range may wrap, as in the source.
-/

namespace VirtualMemoryManager

open Bytes PhysicalMemoryManager Machine Finset

def I86_PTE_WRITABLE : BitVec 32 := 2#32

/-- Page `i` of a range. -/
def pageAt (start : BitVec 32) (i : Nat) : BitVec 32 := start + BitVec.ofNat 32 i * 0x1000#32

section Configuration

variable (SKY_EMULATOR : Bool)

/-- The loop of `MapAddress` (:308), after `n` pages. -/
def mapPages (s : State) (pd start pa : BitVec 32) : Nat → State
  | 0 => s
  | i + 1 => mapPhysicalAddressToVirtualAddresss SKY_EMULATOR (mapPages s pd start pa i) pd (pageAt start i) (pageAt pa i)
      (I86_PTE_PRESENT ||| I86_PTE_WRITABLE)

/-- `MapAddress` (:299). -/
def mapAddress (s : State) (pd startAddress pageCount : BitVec 32) : Bool × State :=
  let pAllocatedMemory := BitVec.ofNat 32 ((allocBlocks SKY_EMULATOR s.pmm pageCount.toNat).1.getD 0)
  let s := { s with pmm := (allocBlocks SKY_EMULATOR s.pmm pageCount.toNat).2 }
  if pAllocatedMemory = 0 then (false, s) else
    (true, mapPages SKY_EMULATOR s pd startAddress pAllocatedMemory pageCount.toNat)

/-- `MapDMAAddress` (:283), for at most `fuel` pages: it does not end where no page is behind `last`. -/
def mapDMAAddress (s : State) (pd va pa last : BitVec 32) : (fuel : Nat) → Option (Bool × State)
  | 0 => none
  | fuel + 1 =>
    if va ≤ last then
      mapDMAAddress (mapPhysicalAddressToVirtualAddresss SKY_EMULATOR s pd va pa (I86_PTE_PRESENT ||| I86_PTE_WRITABLE)) pd
        (va + 0x1000#32) (pa + 0x1000#32) last fuel
    else some (true, s)

/-- `UnmapPageTable` (:149). -/
def unmapPageTable (s : State) (dir virt : BitVec 32) : State :=
  let pde := entry s.memory dir (virt >>> 22).toNat
  if pde ≠ 0 then
    ⟨setEntry s.memory dir (virt >>> 22).toNat 0, freeBlock SKY_EMULATOR s.pmm (pde &&& 0x7FFFF000#32).toNat⟩
  else s

/-- `UnmapPhysicalAddress` (:163). -/
def unmapPhysicalAddress (s : State) (dir virt : BitVec 32) : State :=
  if entry s.memory dir (virt >>> 22).toNat ≠ 0 then unmapPageTable SKY_EMULATOR s dir virt else s

/-- The loop of `UnmapAddress` (:321), after `n` pages. -/
def unmapPages (s : State) (pd start : BitVec 32) : Nat → State
  | 0 => s
  | i + 1 => unmapPhysicalAddress SKY_EMULATOR (unmapPages s pd start i) pd (pageAt start i)

/-- `UnmapAddress` (:318). -/
def unmapAddress (s : State) (pd startAddress pageCount : BitVec 32) : Bool × State :=
  (true, unmapPages SKY_EMULATOR s pd startAddress pageCount.toNat)

end Configuration

/-! ## The tables of a range -/

def indexes (start : BitVec 32) (n : Nat) : Finset Nat :=
  (Finset.range n).image fun i => (PAGE_DIRECTORY_INDEX (pageAt start i)).toNat

def tables (m : Memory) (dir start : BitVec 32) (n : Nat) : Finset Nat :=
  (indexes start n).filter fun d => entry m dir d ≠ 0

/-- The block that `UnmapPageTable` frees for an entry. -/
def freedBlock (SKY_EMULATOR : Bool) (s : State) (dir : BitVec 32) (d : Nat) : Nat :=
  blockOf SKY_EMULATOR s.pmm (entry s.memory dir d &&& 0x7FFFF000#32).toNat

variable {m m' : Memory} {s s' : State} {dir start pa : BitVec 32} {n i d : Nat} {SKY_EMULATOR : Bool}

theorem indexes_succ (start : BitVec 32) (n : Nat) :
    indexes start (n + 1) = insert (PAGE_DIRECTORY_INDEX (pageAt start n)).toNat (indexes start n) := by
  rw [indexes, range_add_one, image_insert]
  rfl

theorem mem_indexes : d ∈ indexes start n ↔ ∃ i < n, (PAGE_DIRECTORY_INDEX (pageAt start i)).toNat = d := by
  simp only [indexes, mem_image, mem_range]

theorem indexes_lt (h : d ∈ indexes start n) : d < PAGES_PER_TABLE := by
  obtain ⟨i, -, rfl⟩ := mem_indexes.1 h
  exact PAGE_DIRECTORY_INDEX_lt _

theorem card_indexes_le (start : BitVec 32) (n : Nat) : (indexes start n).card ≤ n :=
  card_image_le.trans (card_range n).le

theorem mem_tables : d ∈ tables m dir start n ↔ d ∈ indexes start n ∧ entry m dir d ≠ 0 := mem_filter

theorem card_tables_le (m : Memory) (dir start : BitVec 32) (n : Nat) : (tables m dir start n).card ≤ n :=
  (card_filter_le _ _).trans (card_indexes_le start n)

theorem card_tables_lt (m : Memory) (dir start : BitVec 32) (n : Nat) : (tables m dir start n).card < 2 ^ 32 := by
  have hsub : tables m dir start n ⊆ Finset.range PAGES_PER_TABLE := fun d hd =>
    mem_range.2 (indexes_lt (mem_tables.1 hd).1)
  have hcard := card_le_card hsub
  rw [card_range] at hcard
  exact Nat.lt_of_le_of_lt hcard (by decide)

theorem tables_congr (h : ∀ d ∈ indexes start n, entry m' dir d = entry m dir d) :
    tables m' dir start n = tables m dir start n :=
  filter_congr fun d hd => by rw [h d hd]

/-! ## What a range loses -/

/-- After unmapping `n` pages: their entries are 0, and the blocks of the tables they had are free. -/
structure TablesFreed (SKY_EMULATOR : Bool) (s : State) (dir start : BitVec 32) (n : Nat) (s' : State) : Prop where
  entries : ∀ d < PAGES_PER_TABLE, entry s'.memory dir d = if d ∈ indexes start n then 0 else entry s.memory dir d
  outside : ∀ x ∉ page dir, s'.memory x = s.memory x
  blocks : ∀ f, Bitmap.bit s'.pmm.memoryMap f = true ↔
    Bitmap.bit s.pmm.memoryMap f = true ∧ f ∉ (tables s.memory dir start n).image (freedBlock SKY_EMULATOR s dir)
  used : u32 (s'.pmm.m_usedBlocks + (tables s.memory dir start n).card) = u32 s.pmm.m_usedBlocks
  count : s.pmm.m_usedBlocks < 2 ^ 32 → s'.pmm.m_usedBlocks < 2 ^ 32
  max : s'.pmm.m_maxBlocks = s.pmm.m_maxBlocks
  base : baseIOMemory s'.pmm = baseIOMemory s.pmm

variable {virt : BitVec 32}

theorem unmapPhysicalAddress_none (h : entry s.memory dir (PAGE_DIRECTORY_INDEX virt).toNat = 0) :
    unmapPhysicalAddress SKY_EMULATOR s dir virt = s := by
  rw [unmapPhysicalAddress, shift_eq_PAGE_DIRECTORY_INDEX, if_neg (not_not.2 h)]

theorem unmapPhysicalAddress_some (h : entry s.memory dir (PAGE_DIRECTORY_INDEX virt).toNat ≠ 0) :
    unmapPhysicalAddress SKY_EMULATOR s dir virt =
      ⟨setEntry s.memory dir (PAGE_DIRECTORY_INDEX virt).toNat 0,
        { s.pmm with
          memoryMap := Bitmap.unmarkRange s.pmm.memoryMap (freedBlock SKY_EMULATOR s dir
            (PAGE_DIRECTORY_INDEX virt).toNat) 1
          m_usedBlocks := sub32 s.pmm.m_usedBlocks 1 }⟩ := by
  rw [unmapPhysicalAddress, unmapPageTable, shift_eq_PAGE_DIRECTORY_INDEX, if_pos h]
  rw [if_pos h, freeBlock_eq]
  rfl

theorem TablesFreed.idle (h : TablesFreed SKY_EMULATOR s dir start n s')
    (hzero : entry s'.memory dir (PAGE_DIRECTORY_INDEX (pageAt start n)).toNat = 0) :
    TablesFreed SKY_EMULATOR s dir start (n + 1) s' := by
  have hd := PAGE_DIRECTORY_INDEX_lt (pageAt start n)
  have hsame : tables s.memory dir start (n + 1) = tables s.memory dir start n := by
    unfold tables
    rw [indexes_succ, filter_insert]
    split
    · rename_i hne
      have hentry := h.entries _ hd
      rw [hzero] at hentry
      refine insert_eq_of_mem (mem_filter.2 ⟨?_, hne⟩)
      by_contra hnot
      rw [if_neg hnot] at hentry
      exact hne hentry.symm
    · rfl
  refine ⟨fun d hlt => ?_, h.outside, ?_, ?_, h.count, h.max, h.base⟩
  · rw [h.entries d hlt, indexes_succ]
    by_cases hid : d = (PAGE_DIRECTORY_INDEX (pageAt start n)).toNat
    · rw [hid, ← h.entries _ hd, hzero, if_pos (mem_insert_self _ _)]
    · simp only [mem_insert, hid, false_or]
  · rw [hsame]
    exact h.blocks
  · rw [hsame]
    exact h.used

theorem TablesFreed.free (h : TablesFreed SKY_EMULATOR s dir start n s')
    (hne : entry s'.memory dir (PAGE_DIRECTORY_INDEX (pageAt start n)).toNat ≠ 0) :
    TablesFreed SKY_EMULATOR s dir start (n + 1) (unmapPhysicalAddress SKY_EMULATOR s' dir (pageAt start n)) := by
  have hd := PAGE_DIRECTORY_INDEX_lt (pageAt start n)
  have hentry := h.entries _ hd
  have hnew : (PAGE_DIRECTORY_INDEX (pageAt start n)).toNat ∉ indexes start n := fun hmem => by
    rw [if_pos hmem] at hentry
    exact hne hentry
  rw [if_neg hnew] at hentry
  have htables : tables s.memory dir start (n + 1) =
      insert (PAGE_DIRECTORY_INDEX (pageAt start n)).toNat (tables s.memory dir start n) := by
    unfold tables
    rw [indexes_succ, filter_insert, if_pos (hentry ▸ hne)]
  have hblock : freedBlock SKY_EMULATOR s' dir (PAGE_DIRECTORY_INDEX (pageAt start n)).toNat =
      freedBlock SKY_EMULATOR s dir (PAGE_DIRECTORY_INDEX (pageAt start n)).toNat := by
    unfold freedBlock blockOf
    rw [hentry, h.base]
  rw [unmapPhysicalAddress_some hne, hblock]
  refine ⟨fun d hlt => ?_, fun x hx => ?_, fun f => ?_, ?_, fun _ => u32_lt _, h.max, h.base⟩
  · rw [indexes_succ]
    by_cases hid : d = (PAGE_DIRECTORY_INDEX (pageAt start n)).toNat
    · rw [hid, entry_setEntry_self, if_pos (mem_insert_self _ _)]
    · rw [entry_setEntry_of_ne _ _ _ hid, h.entries d hlt]
      simp only [mem_insert, hid, false_or]
  · exact (setEntry_outside _ _ hd hx).trans (h.outside x hx)
  · rw [htables, image_insert, mem_insert, Bitmap.bit_unmarkRange, Bool.and_eq_true, h.blocks f,
      Bool.not_eq_true', decide_eq_false_iff_not]
    generalize freedBlock SKY_EMULATOR s dir (PAGE_DIRECTORY_INDEX (pageAt start n)).toNat = b
    have hone : (b ≤ f ∧ f < b + 1) ↔ f = b := by omega
    rw [hone]
    tauto
  · have hcard : (tables s.memory dir start (n + 1)).card = (tables s.memory dir start n).card + 1 := by
      rw [htables, card_insert_of_notMem fun hmem => hnew (mem_tables.1 hmem).1]
    have hused := h.used
    rw [hcard]
    dsimp only
    unfold u32 sub32 u32 at *
    omega

/-- **Unmapping frees the tables of the range**, all of each. -/
theorem unmapPages_spec (s : State) (dir start : BitVec 32) (n : Nat) :
    TablesFreed SKY_EMULATOR s dir start n (unmapPages SKY_EMULATOR s dir start n) := by
  induction n with
  | zero =>
    refine ⟨fun d _ => ?_, fun x _ => rfl, fun f => ?_, rfl, id, rfl, rfl⟩
    · rw [if_neg (by simp [indexes])]
      rfl
    · simp [tables, indexes, unmapPages]
  | succ n ih =>
    rw [unmapPages]
    by_cases hzero : entry (unmapPages SKY_EMULATOR s dir start n).memory dir
      (PAGE_DIRECTORY_INDEX (pageAt start n)).toNat = 0
    · rw [unmapPhysicalAddress_none hzero]
      exact ih.idle hzero
    · exact ih.free hzero

end VirtualMemoryManager
