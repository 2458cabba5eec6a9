import SkyOS.Memory.MapAddress

/-!
# Unmapping does not undo mapping

`MapAddress` takes a block for each page, and one for each table it makes; `UnmapAddress` frees the tables. So the
counter comes out even only if there were as many tables as pages before, one page in each. And the blocks are the same
only if the tables were in blocks from 2 GB on, which `0x7FFFF000` takes for those 2 GB below.
-/

namespace VirtualMemoryManager

open Bytes PhysicalMemoryManager Machine Bitmap

/-! ## Blocks -/

/-- What every run of the allocator keeps, and that the emulator's memory begins at a page. -/
structure Frames (SKY_EMULATOR : Bool) (s : PhysicalMemoryManager.State) : Prop where
  low : ∀ f < s.m_maxBlocks, bit s.memoryMap f = false → f < 2 ^ 20
  count : s.m_usedBlocks < 2 ^ 32
  base : SKY_EMULATOR = true → baseIOMemory s % 4096 = 0

/-- A page directory: in a page of its own that is allocated, with tables that lie apart from it and from each other. -/
structure Directory (SKY_EMULATOR : Bool) (s : State) (dir : BitVec 32) : Prop where
  notNull : dir ≠ 0
  aligned : dir.toNat % 4096 = 0
  used : bit s.pmm.memoryMap (blockOf SKY_EMULATOR s.pmm dir.toNat) = true
  proper : Proper s.memory dir

/-- `a` blocks were allocated. -/
structure Took (s s' : PhysicalMemoryManager.State) (a : Nat) : Prop where
  marked : ∀ f, bit s.memoryMap f = true → bit s'.memoryMap f = true
  used : s'.m_usedBlocks = u32 (s.m_usedBlocks + a)
  max : s'.m_maxBlocks = s.m_maxBlocks
  base : baseIOMemory s' = baseIOMemory s

section Configuration

variable {SKY_EMULATOR : Bool} {s s' : State} {dir start virt phys flags pa : BitVec 32} {n d : Nat}

theorem frames_of_inv {boot : BootParams} {r : Run} (h : Inv SKY_EMULATOR boot r)
    (hbase : SKY_EMULATOR = true → availablePoint SKY_EMULATOR boot % 4096 = 0) : Frames SKY_EMULATOR r.toState := by
  refine ⟨fun f hf hclear => ?_, ?_, fun hemu => ?_⟩
  · have hlast := (h.free f hf hclear).2
    have hlt := lastBlock_lt boot
    omega
  · have hle := h.used_le
    have hmax := maxBlocks_lt boot
    have heq := h.max
    omega
  · rw [h.base]
    exact hbase hemu

variable {p : PhysicalMemoryManager.State} {address : Nat} {m : Memory}

variable {p' : PhysicalMemoryManager.State} {a : Nat}

theorem Took.frames (h : Took p p' a) (hf : Frames SKY_EMULATOR p) :
    Frames SKY_EMULATOR p' := by
  refine ⟨fun f hlt hclear => hf.low f (h.max ▸ hlt) ?_, ?_, fun hemu => ?_⟩
  · by_contra hset
    rw [h.marked f (by simpa using hset)] at hclear
    cases hclear
  · rw [h.used]
    exact u32_lt _
  · rw [h.base]
    exact hf.base hemu

theorem Took.refl (h : p.m_usedBlocks < 2 ^ 32) : Took p p 0 :=
  ⟨fun _ => id, (u32_of_lt h).symm, rfl, rfl⟩

theorem Took.trans {q r : PhysicalMemoryManager.State} {b : Nat} (h : Took p q a) (h' : Took q r b) : Took p r (a + b) := by
  refine ⟨fun f hf => h'.marked f (h.marked f hf), ?_, h'.max.trans h.max, h'.base.trans h.base⟩
  rw [h'.used, h.used]
  unfold u32
  omega

theorem took_of_takes {frame size : Nat}
    (h : Takes SKY_EMULATOR p frame size address p') : Took p p' size := by
  rw [h.next]
  refine ⟨fun f hf => ?_, rfl, rfl, rfl⟩
  rw [bit_markRange, hf, Bool.or_true]

theorem took_allocBlock (h : p.m_usedBlocks < 2 ^ 32) :
    ∃ a ≤ 1, Took p (allocBlock SKY_EMULATOR p).2 a := by
  obtain hres | ⟨frame, p', hres, ht⟩ := allocBlock_cases SKY_EMULATOR p
  · rw [hres]
    exact ⟨0, by decide, Took.refl h⟩
  · rw [hres]
    exact ⟨1, le_rfl, took_of_takes ht⟩

theorem newTable_some (h : newTable SKY_EMULATOR s ≠ 0) : ∃ frame,
    Takes SKY_EMULATOR s.pmm frame 1 (blockAddress SKY_EMULATOR s.pmm frame) (allocBlock SKY_EMULATOR s.pmm).2 ∧
      newTable SKY_EMULATOR s = BitVec.ofNat 32 (blockAddress SKY_EMULATOR s.pmm frame) := by
  unfold newTable at h ⊢
  obtain hres | ⟨frame, p', hres, ht⟩ := allocBlock_cases SKY_EMULATOR s.pmm
  · rw [hres] at h
    exact absurd rfl h
  · rw [hres, pointer_getD]
    exact ⟨frame, ht, rfl⟩

theorem blockAddress_lt (p : PhysicalMemoryManager.State) (frame : Nat) : blockAddress SKY_EMULATOR p frame < 2 ^ 32 := by
  unfold blockAddress
  split <;> exact u32_lt _

theorem blockAddress_aligned (h : Frames SKY_EMULATOR p) (frame : Nat) :
    blockAddress SKY_EMULATOR p frame % 4096 = 0 := by
  unfold blockAddress PMM_BLOCK_SIZE u32
  split
  · rename_i hemu
    have := h.base hemu
    omega
  · omega

theorem newTable_apart (hf : Frames SKY_EMULATOR s.pmm) (haligned : dir.toNat % 4096 = 0)
    (hused : bit s.pmm.memoryMap (blockOf SKY_EMULATOR s.pmm dir.toNat) = true) (h : newTable SKY_EMULATOR s ≠ 0) :
    (newTable SKY_EMULATOR s).toNat % 4096 = 0 ∧ Disjoint (page (newTable SKY_EMULATOR s)) (page dir) := by
  obtain ⟨frame, ht, heq⟩ := newTable_some h
  have hlt : blockAddress SKY_EMULATOR s.pmm frame < 2 ^ 32 := blockAddress_lt s.pmm frame
  have htoNat : (newTable SKY_EMULATOR s).toNat = blockAddress SKY_EMULATOR s.pmm frame := by
    rw [heq, BitVec.toNat_ofNat, Nat.mod_eq_of_lt hlt]
  have hpage : (newTable SKY_EMULATOR s).toNat % 4096 = 0 := by
    rw [htoNat]
    exact blockAddress_aligned hf frame
  refine ⟨hpage, page_disjoint hpage haligned fun hsame => ?_⟩
  obtain ⟨hclear, hmax⟩ := ht.free 0 ht.pos
  have hframe : blockOf SKY_EMULATOR s.pmm (blockAddress SKY_EMULATOR s.pmm frame) = frame :=
    blockOf_blockAddress s.pmm s.pmm rfl (hf.low _ hmax hclear)
  rw [← hsame, htoNat, hframe] at hused
  rw [Nat.add_zero, hused] at hclear
  cases hclear

/-! ## What mapping a range does to the directory -/

def Apart (m : Memory) (dir : BitVec 32) : Prop :=
  ∀ d < PAGES_PER_TABLE, entry m dir d ≠ 0 → Disjoint (page (tableOf (entry m dir d))) (page dir)

/-- A page more: a block is taken, or not; only with one may the directory get an entry. -/
structure PageMapped (s s' : State) (dir virt : BitVec 32) (a : Nat) : Prop where
  le : a ≤ 1
  took : Took s.pmm s'.pmm a
  apart : Apart s'.memory dir
  entries : ∀ d < PAGES_PER_TABLE, entry s'.memory dir d = entry s.memory dir d ∨
    a = 1 ∧ d = (PAGE_DIRECTORY_INDEX virt).toNat

theorem apart_setEntry {table e : BitVec 32} {i : Nat} (h : Disjoint (page table) (page dir)) (hi : i < PAGES_PER_TABLE) :
    ∀ d < PAGES_PER_TABLE, entry (setEntry m table i e) dir d = entry m dir d := fun _ hd =>
  entry_congr (eqOn_of_disjoint (fun _ hx => setEntry_outside m _ hi hx) h) hd

theorem Apart.congr {m' : Memory} (h : Apart m dir) (hsame : ∀ d < PAGES_PER_TABLE, entry m' dir d = entry m dir d) :
    Apart m' dir := by
  intro d hd hne
  rw [hsame d hd] at hne ⊢
  exact h d hd hne

theorem pageMapped (hf : Frames SKY_EMULATOR s.pmm) (hnull : dir ≠ 0) (haligned : dir.toNat % 4096 = 0)
    (hused : bit s.pmm.memoryMap (blockOf SKY_EMULATOR s.pmm dir.toNat) = true) (hapart : Apart s.memory dir)
    (hflags : flags.toNat < 4096) :
    ∃ a, PageMapped s (mapPhysicalAddressToVirtualAddresss SKY_EMULATOR s dir virt phys flags) dir virt a := by
  have hd := PAGE_DIRECTORY_INDEX_lt virt
  have ht := PAGE_TABLE_INDEX_lt virt
  unfold mapPhysicalAddressToVirtualAddresss
  rw [shift_eq_PAGE_DIRECTORY_INDEX, shifts_eq_PAGE_TABLE_INDEX]
  by_cases hzero : entry s.memory dir (PAGE_DIRECTORY_INDEX virt).toNat = 0
  · unfold createPageTable
    rw [if_pos hzero, if_pos hzero]
    obtain ⟨a, ha, htook⟩ : ∃ a ≤ 1, Took s.pmm (allocBlock SKY_EMULATOR s.pmm).2 a := took_allocBlock hf.count
    by_cases hnone : newTable SKY_EMULATOR s = 0
    · -- the page at 0 is written
      have hpage : Disjoint (page (tableOf (entry s.memory dir (PAGE_DIRECTORY_INDEX virt).toNat))) (page dir) := by
        rw [hzero]
        exact page_disjoint rfl haligned fun h => hnull h.symm
      have hsame := apart_setEntry (m := s.memory) (e := phys ||| flags) hpage ht
      rw [if_pos hnone]
      exact ⟨a, ha, htook, hapart.congr hsame, fun d hlt => .inl (hsame d hlt)⟩
    · obtain ⟨hblock, hdisjoint⟩ := newTable_apart hf haligned hused hnone
      obtain ⟨frame, htakes, -⟩ := newTable_some hnone
      rw [if_neg hnone]
      dsimp only
      generalize newTable SKY_EMULATOR s = block at *
      rw [entry_setEntry_self, tableOf_or_flags hblock hflags]
      have hentries : ∀ d < PAGES_PER_TABLE, d ≠ (PAGE_DIRECTORY_INDEX virt).toNat →
          entry (setEntry (setEntry (fill s.memory block.toNat 0 (4 * PAGES_PER_TABLE)) dir
            (PAGE_DIRECTORY_INDEX virt).toNat
            (block ||| flags)) block (PAGE_TABLE_INDEX virt).toNat (phys ||| flags)) dir d = entry s.memory dir d := by
        intro d hlt hne
        rw [apart_setEntry hdisjoint ht d hlt, entry_setEntry_of_ne _ _ _ hne]
        exact entry_congr (eqOn_of_disjoint (fun x => fill_outside _) hdisjoint) hlt
      refine ⟨1, le_rfl, took_of_takes htakes, fun d hlt hne => ?_, fun d hlt => ?_⟩
      · by_cases hid : d = (PAGE_DIRECTORY_INDEX virt).toNat
        · dsimp only
          rw [hid, apart_setEntry hdisjoint ht _ hd, entry_setEntry_self, tableOf_or_flags hblock hflags]
          exact hdisjoint
        · dsimp only at hne ⊢
          rw [hentries d hlt hid] at hne ⊢
          exact hapart d hlt hne
      · by_cases hid : d = (PAGE_DIRECTORY_INDEX virt).toNat
        · exact .inr ⟨rfl, hid⟩
        · exact .inl (hentries d hlt hid)
  · rw [if_neg hzero]
    have hsame := apart_setEntry (m := s.memory) (e := phys ||| flags) (hapart _ hd hzero) ht
    exact ⟨0, by decide, Took.refl hf.count, hapart.congr hsame, fun d hlt => .inl (hsame d hlt)⟩

/-- `n` pages more: the tables of the range are more by as many as blocks were taken, at most. -/
structure PagesMapped (s s' : State) (dir start : BitVec 32) (n k a : Nat) : Prop where
  le : a ≤ k
  took : Took s.pmm s'.pmm a
  apart : Apart s'.memory dir
  card : (tables s'.memory dir start n).card ≤ (tables s.memory dir start n).card + a

theorem pagesMapped (hf : Frames SKY_EMULATOR s.pmm) (hnull : dir ≠ 0) (haligned : dir.toNat % 4096 = 0)
    (hused : bit s.pmm.memoryMap (blockOf SKY_EMULATOR s.pmm dir.toNat) = true) (hapart : Apart s.memory dir) (k : Nat) :
    ∃ a, PagesMapped s (mapPages SKY_EMULATOR s dir start pa k) dir start n k a := by
  induction k with
  | zero => exact ⟨0, le_rfl, Took.refl hf.count, hapart, le_rfl⟩
  | succ k ih =>
    obtain ⟨a, ha, htook, hapart', hcard⟩ := ih
    have hused' : bit (mapPages SKY_EMULATOR s dir start pa k).pmm.memoryMap
        (blockOf SKY_EMULATOR (mapPages SKY_EMULATOR s dir start pa k).pmm dir.toNat) = true := by
      have hsame : blockOf SKY_EMULATOR (mapPages SKY_EMULATOR s dir start pa k).pmm dir.toNat =
          blockOf SKY_EMULATOR s.pmm dir.toNat := by rw [blockOf, htook.base]; rfl
      rw [hsame]
      exact htook.marked _ hused
    obtain ⟨b, hb, htook', happ, hentries⟩ : ∃ b, PageMapped (mapPages SKY_EMULATOR s dir start pa k)
        (mapPages SKY_EMULATOR s dir start pa (k + 1)) dir (pageAt start k) b :=
      pageMapped (htook.frames hf) hnull haligned hused' hapart' (by decide)
    refine ⟨a + b, by omega, htook.trans htook', happ, ?_⟩
    have hsub : tables (mapPages SKY_EMULATOR s dir start pa (k + 1)).memory dir start n ⊆
        tables (mapPages SKY_EMULATOR s dir start pa k).memory dir start n ∪
          (if b = 1 then {(PAGE_DIRECTORY_INDEX (pageAt start k)).toNat} else ∅) := by
      intro d hd
      obtain ⟨hmem, hne⟩ := mem_tables.1 hd
      rw [Finset.mem_union]
      rcases hentries d (indexes_lt hmem) with hsame | ⟨rfl, hid⟩
      · rw [hsame] at hne
        exact .inl (mem_tables.2 ⟨hmem, hne⟩)
      · rw [if_pos rfl, Finset.mem_singleton]
        exact .inr hid
    have hle := (Finset.card_le_card hsub).trans (Finset.card_union_le _ _)
    have hone : (if b = 1 then {(PAGE_DIRECTORY_INDEX (pageAt start k)).toNat} else (∅ : Finset Nat)).card ≤ b := by
      split
      · rw [Finset.card_singleton]
        omega
      · exact Nat.zero_le _
    omega

/-! ## Mapping through tables that are there -/

theorem mapPages_present (SKY_EMULATOR : Bool) (pa : BitVec 32) (hapart : Apart s.memory dir) :
    ∀ n, (∀ d ∈ indexes start n, entry s.memory dir d ≠ 0) →
      (mapPages SKY_EMULATOR s dir start pa n).pmm = s.pmm ∧
      (∀ d < PAGES_PER_TABLE, entry (mapPages SKY_EMULATOR s dir start pa n).memory dir d = entry s.memory dir d) ∧
      ∀ x, (∀ d ∈ indexes start n, x ∉ page (tableOf (entry s.memory dir d))) →
        (mapPages SKY_EMULATOR s dir start pa n).memory x = s.memory x
  | 0, _ => ⟨rfl, fun _ _ => rfl, fun _ _ => rfl⟩
  | n + 1, h => by
    rw [indexes_succ] at h
    obtain ⟨hpmm, hentries, houtside⟩ := mapPages_present SKY_EMULATOR pa hapart n fun d hd =>
      h d (Finset.mem_insert_of_mem hd)
    have hd := PAGE_DIRECTORY_INDEX_lt (pageAt start n)
    have ht := PAGE_TABLE_INDEX_lt (pageAt start n)
    have hsome := h _ (Finset.mem_insert_self _ _)
    rw [mapPages, mapPhysicalAddressToVirtualAddresss, shift_eq_PAGE_DIRECTORY_INDEX, shifts_eq_PAGE_TABLE_INDEX,
      hentries _ hd, if_neg hsome]
    dsimp only
    rw [hentries _ hd]
    refine ⟨hpmm, fun d hlt => ?_, fun x hx => ?_⟩
    · rw [apart_setEntry (hapart _ hd hsome) ht d hlt, hentries d hlt]
    · rw [indexes_succ] at hx
      rw [setEntry_outside _ _ ht (hx _ (Finset.mem_insert_self _ _)),
        houtside x fun d hmem => hx d (Finset.mem_insert_of_mem hmem)]

/-! ## The allocation -/

/-- The blocks that `AllocBlocks` takes: a run of free ones, if more are free than that. -/
def blocksFound (p : PhysicalMemoryManager.State) (n : Nat) : Finset Nat :=
  if sub32 p.m_maxBlocks p.m_usedBlocks ≤ n then ∅ else (getFreeFrames p n).elim ∅ fun frame => Finset.Ico frame (frame + n)

theorem allocBlocks_found (SKY_EMULATOR : Bool) (p : PhysicalMemoryManager.State) (n : Nat) :
    (allocBlocks SKY_EMULATOR p n = (none, p) ∧ blocksFound p n = ∅) ∨
      ∃ frame p', allocBlocks SKY_EMULATOR p n = (pointer (blockAddress SKY_EMULATOR p frame), p') ∧
        Takes SKY_EMULATOR p frame n (blockAddress SKY_EMULATOR p frame) p' ∧
        blocksFound p n = Finset.Ico frame (frame + n) := by
  unfold allocBlocks blocksFound
  split
  · exact .inl ⟨rfl, rfl⟩
  · cases hframes : getFreeFrames p n with
    | none => exact .inl ⟨rfl, rfl⟩
    | some frame =>
      obtain ⟨hpos, hlt, hfree⟩ := getFreeFrames_some hframes
      dsimp only
      rw [foldl_setBit]
      exact .inr ⟨frame, _, rfl, ⟨hfree, hpos, hlt, rfl, rfl⟩, rfl⟩

/-! ## The round trip -/

def Unmapped (m : Memory) (dir start : BitVec 32) (n : Nat) : Prop :=
  ∀ i < n, ∀ va : BitVec 32, va.toNat / 4096 = (pageAt start i).toNat / 4096 → getPhysicalAddress m dir va = 0

/-- Every address is translated as before, as many blocks are in use, and the same ones are free. -/
structure Restored (s s' : State) (dir : BitVec 32) : Prop where
  translation : ∀ va, getPhysicalAddress s'.memory dir va = getPhysicalAddress s.memory dir va
  used : s'.pmm.m_usedBlocks = s.pmm.m_usedBlocks
  blocks : ∀ f < s.pmm.m_maxBlocks, bit s'.pmm.memoryMap f = bit s.pmm.memoryMap f

/-- `MapAddress`, then `UnmapAddress`. -/
def mapUnmap (SKY_EMULATOR : Bool) (s : State) (dir start pageCount : BitVec 32) : State :=
  (unmapAddress SKY_EMULATOR (mapAddress SKY_EMULATOR s dir start pageCount).2 dir start pageCount).2

def UnmapUndoes (SKY_EMULATOR : Bool) (s : State) (dir start pageCount : BitVec 32) : Prop :=
  Unmapped s.memory dir start pageCount.toNat → Restored s (mapUnmap SKY_EMULATOR s dir start pageCount) dir

/-- The blocks that are freed for the tables of the range are those that are found for its pages, and nothing at all is
mapped by these tables. -/
structure Swapped (SKY_EMULATOR : Bool) (s : State) (dir start : BitVec 32) (n : Nat) : Prop where
  blocks : (tables s.memory dir start n).image (freedBlock SKY_EMULATOR s dir) = blocksFound s.pmm n
  empty : ∀ va : BitVec 32, (PAGE_DIRECTORY_INDEX va).toNat ∈ tables s.memory dir start n →
    getPhysicalAddress s.memory dir va = 0

theorem getPhysicalAddress_none {va : BitVec 32} (h : entry m dir (PAGE_DIRECTORY_INDEX va).toNat = 0) :
    getPhysicalAddress m dir va = 0 := by
  unfold getPhysicalAddress
  rw [if_pos h]

/-- The state from which the pages are unmapped, where the tables are as before. -/
structure Mapped (s s' : State) (dir start : BitVec 32) (n : Nat) : Prop where
  entries : ∀ d < PAGES_PER_TABLE, entry s'.memory dir d = entry s.memory dir d
  outside : ∀ x, (∀ d ∈ tables s.memory dir start n, x ∉ page (tableOf (entry s.memory dir d))) → s'.memory x = s.memory x
  base : baseIOMemory s'.pmm = baseIOMemory s.pmm

section

variable (h : Mapped s s' dir start n)
include h

theorem Mapped.freedBlock (hd : d < PAGES_PER_TABLE) :
    freedBlock SKY_EMULATOR s' dir d = freedBlock SKY_EMULATOR s dir d := by
  unfold VirtualMemoryManager.freedBlock blockOf
  rw [h.entries d hd, h.base]

theorem Mapped.tables :
    tables s'.memory dir start n = tables s.memory dir start n :=
  tables_congr fun d hd => h.entries d (indexes_lt hd)

theorem Mapped.freed :
    (VirtualMemoryManager.tables s'.memory dir start n).image (VirtualMemoryManager.freedBlock SKY_EMULATOR s' dir) =
      (VirtualMemoryManager.tables s.memory dir start n).image (VirtualMemoryManager.freedBlock SKY_EMULATOR s dir) := by
  rw [h.tables]
  exact Finset.image_congr fun d hd => h.freedBlock (indexes_lt (mem_tables.1 hd).1)

theorem Mapped.translation (hproper : Proper s.memory dir)
    (hempty : ∀ va : BitVec 32, (PAGE_DIRECTORY_INDEX va).toNat ∈ VirtualMemoryManager.tables s.memory dir start n →
      getPhysicalAddress s.memory dir va = 0) (va : BitVec 32) :
    getPhysicalAddress (unmapPages SKY_EMULATOR s' dir start n).memory dir va = getPhysicalAddress s.memory dir va := by
  have hspec : TablesFreed SKY_EMULATOR s' dir start n _ := unmapPages_spec s' dir start n
  have hva := PAGE_DIRECTORY_INDEX_lt va
  have hentry := hspec.entries _ hva
  rw [h.entries _ hva] at hentry
  by_cases hmem : (PAGE_DIRECTORY_INDEX va).toNat ∈ indexes start n
  · rw [if_pos hmem] at hentry
    rw [getPhysicalAddress_none hentry]
    by_cases hzero : entry s.memory dir (PAGE_DIRECTORY_INDEX va).toNat = 0
    · exact (getPhysicalAddress_none hzero).symm
    · exact (hempty va (mem_tables.2 ⟨hmem, hzero⟩)).symm
  · rw [if_neg hmem] at hentry
    refine getPhysicalAddress_congr hentry fun hne => entry_congr (fun x hx => ?_) (PAGE_TABLE_INDEX_lt va)
    have hdir : x ∉ page dir := fun hxd => Set.disjoint_left.1 (hproper _ hva hne).apart hx hxd
    rw [hspec.outside x hdir]
    refine h.outside x fun d hd hxd => ?_
    obtain ⟨hd, hdne⟩ := mem_tables.1 hd
    by_cases hsame : tableOf (entry s.memory dir d) = tableOf (entry s.memory dir (PAGE_DIRECTORY_INDEX va).toNat)
    · have hid := (hproper _ hva hne).once d (indexes_lt hd) hdne hsame
      rw [hid] at hd
      exact hmem hd
    · exact Set.disjoint_left.1 (page_disjoint (tableOf_aligned _) (tableOf_aligned _) hsame) hxd hx

end

theorem mapped_refl (s : State) (dir start : BitVec 32) (n : Nat) : Mapped s s dir start n :=
  ⟨fun _ _ => rfl, fun _ _ => rfl, rfl⟩

/-! ### No blocks are found -/

theorem mapUnmap_idle {pageCount : BitVec 32} (h : allocBlocks SKY_EMULATOR s.pmm pageCount.toNat = (none, s.pmm)) :
    mapUnmap SKY_EMULATOR s dir start pageCount = unmapPages SKY_EMULATOR s dir start pageCount.toNat := by
  rw [mapUnmap, mapAddress, h]
  rfl

theorem restored_idle_iff (hf : Frames SKY_EMULATOR s.pmm) (hdir : Directory SKY_EMULATOR s dir)
    (hnone : blocksFound s.pmm n = ∅) :
    Restored s (unmapPages SKY_EMULATOR s dir start n) dir ↔ Swapped SKY_EMULATOR s dir start n := by
  have hspec : TablesFreed SKY_EMULATOR s dir start n _ := unmapPages_spec s dir start n
  have hused := hspec.used
  have hlt := card_tables_lt s.memory dir start n
  constructor
  · intro h
    rw [h.used] at hused
    have hcard : (tables s.memory dir start n).card = 0 := by
      unfold u32 at hused
      omega
    have htables := Finset.card_eq_zero.1 hcard
    refine ⟨?_, fun va hva => ?_⟩
    · rw [htables, hnone, Finset.image_empty]
    · rw [htables] at hva
      cases hva
  · intro h
    have himage := h.blocks
    rw [hnone] at himage
    have htables := Finset.image_eq_empty.1 himage
    refine ⟨(mapped_refl s dir start n).translation hdir.proper h.empty, ?_, fun f _ => ?_⟩
    · have hcount := hspec.count hf.count
      have hcount' := hf.count
      rw [htables, Finset.card_empty] at hused
      unfold u32 at hused
      omega
    · rw [Bool.eq_iff_iff, hspec.blocks f, himage]
      exact and_iff_left (Finset.notMem_empty f)

/-! ### Blocks are found -/

section Taken

variable {frame : Nat} {p' : PhysicalMemoryManager.State} {pageCount : BitVec 32}

/-- The state that `MapAddress` leaves. -/
def mapState (SKY_EMULATOR : Bool) (s : State) (dir start : BitVec 32) (n frame : Nat)
    (p' : PhysicalMemoryManager.State) : State :=
  if BitVec.ofNat 32 (blockAddress SKY_EMULATOR s.pmm frame) = 0 then ⟨s.memory, p'⟩
  else mapPages SKY_EMULATOR ⟨s.memory, p'⟩ dir start (BitVec.ofNat 32 (blockAddress SKY_EMULATOR s.pmm frame)) n

theorem mapUnmap_taken
    (h : allocBlocks SKY_EMULATOR s.pmm pageCount.toNat = (pointer (blockAddress SKY_EMULATOR s.pmm frame), p')) :
    mapUnmap SKY_EMULATOR s dir start pageCount =
      unmapPages SKY_EMULATOR (mapState SKY_EMULATOR s dir start pageCount.toNat frame p') dir start pageCount.toNat := by
  rw [mapUnmap, mapAddress, h, mapState]
  dsimp only
  rw [pointer_getD]
  split <;> rfl

theorem Takes.lt (hf : Frames SKY_EMULATOR s.pmm) (ht : Takes SKY_EMULATOR s.pmm frame n address p') : n ≤ 2 ^ 20 := by
  have hpos := ht.pos
  obtain ⟨hclear, hmax⟩ := ht.free (n - 1) (by omega)
  have hlt := hf.low _ hmax hclear
  omega

theorem mapState_mapped (hdir : Directory SKY_EMULATOR s dir)
    (ht : Takes SKY_EMULATOR s.pmm frame n address p') (hcard : (tables s.memory dir start n).card = n) :
    Mapped s (mapState SKY_EMULATOR s dir start n frame p') dir start n ∧
      (mapState SKY_EMULATOR s dir start n frame p').pmm = p' := by
  have hsub : tables s.memory dir start n ⊆ indexes start n := Finset.filter_subset _ _
  have hall : tables s.memory dir start n = indexes start n :=
    Finset.eq_of_subset_of_card_le hsub (by rw [hcard]; exact card_indexes_le start n)
  have hbase : baseIOMemory p' = baseIOMemory s.pmm := (took_of_takes ht).base
  unfold mapState
  split
  · exact ⟨⟨fun _ _ => rfl, fun _ _ => rfl, hbase⟩, rfl⟩
  · have hapart : Apart s.memory dir := fun d hd hne => (hdir.proper d hd hne).apart
    obtain ⟨hpmm, hentries, houtside⟩ := mapPages_present (s := ⟨s.memory, p'⟩) SKY_EMULATOR
      (BitVec.ofNat 32 (blockAddress SKY_EMULATOR s.pmm frame)) hapart n fun d hd => (mem_tables.1 (hall ▸ hd)).2
    refine ⟨⟨hentries, fun x hx => houtside x fun d hd => hx d (hall ▸ hd), ?_⟩, hpmm⟩
    rw [hpmm]
    exact hbase

section

variable (hf : Frames SKY_EMULATOR s.pmm) (hdir : Directory SKY_EMULATOR s dir)
    (ht : Takes SKY_EMULATOR s.pmm frame n address p')
include hf hdir ht

theorem card_of_used (h : (unmapPages SKY_EMULATOR (mapState SKY_EMULATOR s dir start n frame p') dir start
      n).pmm.m_usedBlocks =
      s.pmm.m_usedBlocks) : (tables s.memory dir start n).card = n := by
  have htook := took_of_takes ht
  have hapart : Apart s.memory dir := fun d hd hne => (hdir.proper d hd hne).apart
  have hused' : bit p'.memoryMap (blockOf SKY_EMULATOR p' dir.toNat) = true := by
    have hsame : blockOf SKY_EMULATOR p' dir.toNat = blockOf SKY_EMULATOR s.pmm dir.toNat := by
      rw [blockOf, htook.base]; rfl
    rw [hsame]
    exact htook.marked _ hdir.used
  obtain ⟨a, hle, hpages⟩ : ∃ a ≤ n, Took p' (mapState SKY_EMULATOR s dir start n frame p').pmm a ∧
      (tables (mapState SKY_EMULATOR s dir start n frame p').memory dir start n).card ≤
          (tables s.memory dir start n).card + a := by
    unfold mapState
    split
    · exact ⟨0, Nat.zero_le _, Took.refl (htook.frames hf).count, Nat.le_refl _⟩
    · exact (pagesMapped (s := ⟨s.memory, p'⟩) (htook.frames hf) hdir.notNull hdir.aligned hused' hapart n).imp
        fun a ha => ⟨ha.le, ha.took, ha.card⟩
  have hspec : TablesFreed SKY_EMULATOR _ dir start n _ :=
    unmapPages_spec (mapState SKY_EMULATOR s dir start n frame p') dir start n
  have hused := hspec.used
  have hlast := Takes.lt hf ht
  have hfew := card_tables_le s.memory dir start n
  rw [h, hpages.1.used, htook.used] at hused
  unfold u32 at hused
  omega

/-- The blocks of the pages are freed if and only if it was these blocks that the tables were thought to be in. -/
theorem restored_taken_iff (hfound : blocksFound s.pmm n = Finset.Ico frame (frame + n)) :
    Restored s (unmapPages SKY_EMULATOR (mapState SKY_EMULATOR s dir start n frame p') dir start n) dir ↔
      Swapped SKY_EMULATOR s dir start n := by
  have hspec : TablesFreed SKY_EMULATOR _ dir start n _ :=
    unmapPages_spec (mapState SKY_EMULATOR s dir start n frame p') dir start n
  have hbit : ∀ f, bit p'.memoryMap f = true ↔ f ∈ Finset.Ico frame (frame + n) ∨ bit s.pmm.memoryMap f = true :=
      fun f => by
    rw [ht.next, bit_markRange, Bool.or_eq_true, decide_eq_true_iff, Finset.mem_Ico]
  have hfree : ∀ f ∈ Finset.Ico frame (frame + n), bit s.pmm.memoryMap f = false ∧ f < s.pmm.m_maxBlocks := fun f hmem => by
    rw [Finset.mem_Ico] at hmem
    have hk := ht.free (f - frame) (by omega)
    rwa [Nat.add_sub_cancel' hmem.1] at hk
  constructor
  · intro h
    have hcard := card_of_used hf hdir ht h.used
    obtain ⟨hmapped, hpmm⟩ := mapState_mapped hdir ht hcard
    have hblocks := hspec.blocks
    rw [hmapped.freed, hpmm] at hblocks
    have hsub : Finset.Ico frame (frame + n) ⊆ (tables s.memory dir start n).image (freedBlock SKY_EMULATOR s dir) := by
      intro f hmem
      obtain ⟨hclear, hlt⟩ := hfree f hmem
      by_contra hnot
      have hset := (hblocks f).2 ⟨(hbit f).2 (.inl hmem), hnot⟩
      rw [h.blocks f hlt, hclear] at hset
      cases hset
    refine ⟨?_, fun va hva => ?_⟩
    · rw [hfound]
      refine (Finset.eq_of_subset_of_card_le hsub ?_).symm
      rw [Nat.card_Ico, Nat.add_sub_cancel_left]
      exact Finset.card_image_le.trans hcard.le
    · rw [← h.translation va]
      have hentry := hspec.entries _ (PAGE_DIRECTORY_INDEX_lt va)
      rw [if_pos (mem_tables.1 hva).1] at hentry
      exact getPhysicalAddress_none hentry
  · intro h
    have himage := h.blocks
    rw [hfound] at himage
    have hcard : (tables s.memory dir start n).card = n := by
      have hle : (Finset.Ico frame (frame + n)).card ≤ (tables s.memory dir start n).card := by
        rw [← himage]
        exact Finset.card_image_le
      rw [Nat.card_Ico, Nat.add_sub_cancel_left] at hle
      exact Nat.le_antisymm (card_tables_le s.memory dir start n) hle
    obtain ⟨hmapped, hpmm⟩ := mapState_mapped hdir ht hcard
    refine ⟨hmapped.translation hdir.proper h.empty, ?_, fun f hlt => ?_⟩
    · have hused := hspec.used
      have hcount := hspec.count (by rw [hpmm]; exact ((took_of_takes ht).frames hf).count)
      have hcount' := hf.count
      rw [hmapped.tables, hcard, hpmm, (took_of_takes ht).used] at hused
      unfold u32 at hused
      omega
    · rw [Bool.eq_iff_iff, hspec.blocks f, hmapped.freed, himage, hpmm, hbit f]
      constructor
      · rintro ⟨hmem | hset, hnot⟩
        · exact absurd hmem hnot
        · exact hset
      · intro hset
        refine ⟨.inr hset, fun hmem => ?_⟩
        rw [(hfree f hmem).1] at hset
        cases hset

end

end Taken

/-- **Unmapping undoes mapping exactly where the tables stand for the pages**: the blocks found for the pages are those
freed for the tables, and these map nothing. So for no page at all where there is no table; and otherwise only by the
mask. (The frame bitmap lies apart from the directory, the tables and the blocks.) -/
theorem unmapping_restores_iff (hf : Frames SKY_EMULATOR s.pmm) (hdir : Directory SKY_EMULATOR s dir)
    {pageCount : BitVec 32}
    (hunmapped : Unmapped s.memory dir start pageCount.toNat) :
    UnmapUndoes SKY_EMULATOR s dir start pageCount ↔ Swapped SKY_EMULATOR s dir start pageCount.toNat := by
  rw [UnmapUndoes, forall_prop_of_true hunmapped]
  rcases allocBlocks_found SKY_EMULATOR s.pmm pageCount.toNat with ⟨hnone, hfound⟩ | ⟨frame, p', hsome, ht, hfound⟩
  · rw [mapUnmap_idle hnone]
    exact restored_idle_iff hf hdir hfound
  · rw [mapUnmap_taken hsome]
    exact restored_taken_iff hf hdir ht hfound

/-- Blocks in use are not found: where the freed ones are, nothing may be there. -/
theorem swapped_iff_nothing (h : ∀ d ∈ tables s.memory dir start n,
      bit s.pmm.memoryMap (freedBlock SKY_EMULATOR s dir d) = true) :
    Swapped SKY_EMULATOR s dir start n ↔ tables s.memory dir start n = ∅ ∧ blocksFound s.pmm n = ∅ := by
  constructor
  · intro hswap
    have himage := hswap.blocks
    have hnone : blocksFound s.pmm n = ∅ := by
      rcases allocBlocks_found SKY_EMULATOR s.pmm n with ⟨-, hfound⟩ | ⟨frame, p', -, ht, hfound⟩
      · exact hfound
      · have hmem : frame ∈ Finset.Ico frame (frame + n) := Finset.mem_Ico.2 ⟨le_rfl, Nat.lt_add_of_pos_right ht.pos⟩
        rw [← hfound, ← himage, Finset.mem_image] at hmem
        obtain ⟨d, hd, hblock⟩ := hmem
        have hclear := (ht.free 0 ht.pos).1
        have hset := h d hd
        rw [hblock] at hset
        rw [Nat.add_zero, hset] at hclear
        cases hclear
    rw [hnone] at himage
    exact ⟨Finset.image_eq_empty.1 himage, hnone⟩
  · rintro ⟨htables, hnone⟩
    refine ⟨?_, fun va hva => ?_⟩
    · rw [htables, hnone, Finset.image_empty]
    · rw [htables] at hva
      cases hva

end Configuration

theorem emptyDirectory_directory : Frames false emptyDirectory.pmm ∧ Directory false emptyDirectory 0x1000#32 := by
  refine ⟨⟨fun f hf _ => ?_, by decide, nofun⟩,
    by decide, by decide, by decide +kernel, fun d _ hne => absurd (entry_zero _ d) hne⟩
  have hlt : f < 32 := hf
  omega

/-- One block is free, and `AllocBlocks` wants one more than it takes. -/
theorem unmapping_restores_iff_nothing : UnmapUndoes false emptyDirectory 0x1000#32 0x400000#32 1#32 ↔
    Swapped false emptyDirectory 0x1000#32 0x400000#32 (1#32).toNat := by
  obtain ⟨hframes, hdir⟩ := emptyDirectory_directory
  refine unmapping_restores_iff hframes hdir fun i _ va _ => ?_
  exact getPhysicalAddress_none (entry_zero _ _)

/-- The page at `0x401000` is mapped by the table at `0x2000`; the blocks from 3 to 7 are free. -/
def oneTable : State :=
  ⟨setEntry (setEntry (fun _ => 0) 0x1000#32 1 0x2003#32) 0x2000#32 1 0x5003#32, ⟨27, 32, 0, 1, fun _ => 0xffffff07#32⟩⟩

theorem oneTable_entry {d : Nat} (hd : d < PAGES_PER_TABLE) :
    entry oneTable.memory 0x1000#32 d = if d = 1 then 0x2003#32 else 0 := by
  have hdisjoint : Disjoint (page 0x2000#32) (page 0x1000#32) := page_disjoint (by decide) (by decide) (by decide)
  refine (apart_setEntry hdisjoint (by decide) d hd).trans ?_
  split
  · rename_i hone
    rw [hone, entry_setEntry_self]
  · rename_i hother
    rw [entry_setEntry_of_ne _ _ _ hother, entry_zero]

theorem oneTable_directory : Frames false oneTable.pmm ∧ Directory false oneTable 0x1000#32 := by
  refine ⟨⟨fun f hf _ => ?_, by decide, nofun⟩, by decide, by decide, by decide +kernel, fun d hd hne => ?_⟩
  · have hlt : f < 32 := hf
    omega
  · have hone : ∀ d < PAGES_PER_TABLE, entry oneTable.memory 0x1000#32 d ≠ 0 → d = 1 := fun d hd hne => by
      by_contra hother
      rw [oneTable_entry hd, if_neg hother] at hne
      exact hne rfl
    obtain rfl := hone d hd hne
    refine ⟨?_, fun i hi hne _ => hone i hi hne⟩
    rw [oneTable_entry hd, if_pos rfl]
    exact page_disjoint (by decide) (by decide) (by decide)

/-- Mapping the page beside it and unmapping that takes the other one with it. -/
theorem unmapping_drops_table : ¬ ∀ (s : State) (dir start pageCount : BitVec 32), Frames false s.pmm →
    Directory false s dir →
    UnmapUndoes false s dir start pageCount := by
  intro h
  obtain ⟨hframes, hdir⟩ := oneTable_directory
  have hunmapped : Unmapped oneTable.memory 0x1000#32 0x400000#32 (1#32).toNat := by
    intro i hi va hva
    obtain rfl : i = 0 := Nat.lt_one_iff.1 hi
    obtain ⟨hdirectory, htable⟩ := page_eq_iff.1 hva
    unfold getPhysicalAddress
    dsimp only
    rw [hdirectory, htable]
    have hentry : entry oneTable.memory (tableOf (entry oneTable.memory 0x1000#32
        (PAGE_DIRECTORY_INDEX (pageAt 0x400000#32 0)).toNat)) (PAGE_TABLE_INDEX (pageAt 0x400000#32 0)).toNat = 0 := by
      decide +kernel
    rw [hentry, if_pos rfl, ite_self]
  have hother := (h oneTable 0x1000#32 0x400000#32 1#32 hframes hdir hunmapped).translation 0x401000#32
  revert hother
  decide +kernel

end VirtualMemoryManager
