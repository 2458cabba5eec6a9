import SkyOS.Memory.ReservedMemory
import SkyOS.Memory.UnmapAddress

/-!
# The identity map of the kernel (`VirtualMemoryManager.cpp:211`, `PhysicalMemoryManager.cpp:29-77`)

`SetupKernelPageDirectory` maps as many tables of 4 MB to themselves as it takes to reach `_kernelDataTop`, which
`BuildKernelMemoryLayout` sets to where the frame bitmap ends: but it adds the number of words where it should add
bytes, and it is called before that number is rounded up. So the end of the bitmap is mapped only as long as it lies in
the same 4 MB as that earlier point.

Here the frame bitmap is a part of memory: each allocation reads it there and writes it back, and between them `memset`
clears the directory and the tables. Where the block in which the bitmap ends is handed out, it clears the bitmap.
-/

namespace VirtualMemoryManager

open Bytes PhysicalMemoryManager Machine Bitmap BitVec

def I86_PTE_FRAME : BitVec 32 := 0x7FFFF000#32

def addAttribute (entry attr : BitVec 32) : BitVec 32 := entry ||| attr

def setFrame (entry addr : BitVec 32) : BitVec 32 := entry &&& ~~~I86_PTE_FRAME ||| addr

/-- `_kernelDataTop` (`PhysicalMemoryManager.cpp:32`). -/
def kernelDataTop (boot : BootParams) : Nat := u32 (memoryMapAddress false boot + maxBlocks boot / PMM_BITS_PER_INDEX)

/-- `pageTableCount` (:219-221). -/
def pageTableCount (boot : BootParams) : Nat := kernelDataTop boot / PMM_BLOCK_SIZE / 1024 + 1

/-! ## The bitmap in memory -/

def loadMap (s : State) : State :=
  { s with pmm := { s.pmm with memoryMap := fun i =>
      if i < s.pmm.m_memoryMapSize then BitVec.ofNat 32 (read32 s.memory
        (s.pmm.m_pMemoryMap + 4 * i)) else s.pmm.memoryMap i } }

def storeMap (m : Memory) (p : PhysicalMemoryManager.State) : Memory := fun x =>
  if p.m_pMemoryMap ≤ x ∧ x < p.m_pMemoryMap + 4 * p.m_memoryMapSize then
    UInt8.ofNat ((p.memoryMap ((x - p.m_pMemoryMap) / 4)).toNat / 256 ^ ((x - p.m_pMemoryMap) % 4) % 256)
  else m x

/-! ## The directory of the kernel -/

/-- The pages of one table (:237), after `n` of them. -/
def identityPages (m : Memory) (table frame virt : BitVec 32) : Nat → Memory
  | 0 => m
  | j + 1 => setEntry (identityPages m table frame virt j) table (PAGE_TABLE_INDEX (pageAt virt j)).toNat
      (setFrame (addAttribute 0 I86_PTE_PRESENT) (pageAt frame j))

/-- The loop over the tables (:226), with `left` of them to go. -/
def setupTables (s : State) (dir frame virt : BitVec 32) : (left : Nat) → Bool × State
  | 0 => (true, s)
  | left + 1 =>
    let s := loadMap s
    let identityPageTable := newTable false s
    let pmm := (allocBlock false s.pmm).2
    let memory := storeMap s.memory pmm
    if identityPageTable = 0 then (false, ⟨memory, pmm⟩)
    else
      let memory := fill memory identityPageTable.toNat 0 (4 * PAGES_PER_TABLE)
      let memory := identityPages memory identityPageTable frame virt PAGES_PER_TABLE
      let frame := pageAt frame PAGES_PER_TABLE
      let virt := pageAt virt PAGES_PER_TABLE
      let index := (PAGE_DIRECTORY_INDEX (virt - 0x00400000#32)).toNat
      let identityEntry := setFrame (addAttribute (entry memory dir index)
        (I86_PTE_PRESENT ||| I86_PTE_WRITABLE)) identityPageTable
      setupTables ⟨setEntry memory dir index identityEntry, pmm⟩ dir frame virt left

/-- What `AllocBlocks` returns for the directory, with 0 for `NULL`. -/
def kernelDirectory (p : PhysicalMemoryManager.State) : BitVec 32 := BitVec.ofNat 32 ((allocBlocks false p 1).1.getD 0)

/-- `SetupKernelPageDirectory` (:211). -/
def setupKernelPageDirectory (boot : BootParams) (s : State) : Bool × State :=
  let s := loadMap s
  let _kernel_directory := kernelDirectory s.pmm
  let pmm := (allocBlocks false s.pmm 1).2
  let memory := fill (storeMap s.memory pmm) _kernel_directory.toNat 0 (4 * PAGES_PER_TABLE)
  setupTables ⟨memory, pmm⟩ _kernel_directory 0 0 (pageTableCount boot)

/-- What `Initialize` leaves, with the bitmap in memory. -/
def initialized (boot : BootParams) (before : Nat → BitVec 32) (memory : Memory) : State :=
  ⟨storeMap memory (initializePMM false boot before), initializePMM false boot before⟩

/-! ## Properties -/

/-- The page of `va` is in a table, and mapped to itself. -/
def IdentityMapped (m : Memory) (dir va : BitVec 32) : Prop :=
  entry m dir (PAGE_DIRECTORY_INDEX va).toNat ≠ 0 ∧
    entry m (tableOf (entry m dir (PAGE_DIRECTORY_INDEX va).toNat)) (PAGE_TABLE_INDEX va).toNat ≠ 0 ∧
      getPhysicalAddress m dir va = va

def identityEnd (boot : BootParams) : Nat := pageTableCount boot * 0x400000

def BitmapCovered (boot : BootParams) : Prop :=
  ∀ k < memoryMapSize boot * 4, u32 (memoryMapAddress false boot + k) < identityEnd boot

/-- There is no bitmap, or its last byte (below 4 GB) is in no later table than the byte as many bytes behind its
beginning as it has whole words. -/
def LastByteMapped (boot : BootParams) : Prop :=
  memoryMapSize boot = 0 ∨
    min (memoryMapAddress false boot + memoryMapSize boot * 4 - 1) (2 ^ 32 - 1) / 0x400000 ≤
      u32 (memoryMapAddress false boot + maxBlocks boot / PMM_BITS_PER_INDEX) / 0x400000

/-- No block that is handed out holds a byte of the bitmap, nor does the page at 0, nor does the bitmap wrap. -/
structure BitmapApart (boot : BootParams) : Prop where
  start : 4096 ≤ memoryMapAddress false boot
  stop : memoryMapAddress false boot + 4 * memoryMapSize boot < 2 ^ 32
  whole : ReservedIsWhole boot

variable {m m' : Memory} {s s' : State} {dir table frame virt va : BitVec 32} {k j d : Nat}

/-! ## The bitmap is read as it was written -/

def mapEnd (p : PhysicalMemoryManager.State) : Nat := p.m_pMemoryMap + 4 * p.m_memoryMapSize

def bitmap (p : PhysicalMemoryManager.State) : Set Nat := Set.Ico p.m_pMemoryMap (mapEnd p)

variable {p p' : PhysicalMemoryManager.State} {i : Nat}

theorem storeMap_outside (m : Memory) {x : Nat} (hx : x ∉ bitmap p) : storeMap m p x = m x := if_neg hx

theorem read_storeMap (m : Memory) (hi : i < p.m_memoryMapSize) :
    read32 (storeMap m p) (p.m_pMemoryMap + 4 * i) = (p.memoryMap i).toNat := by
  rw [← read32_write32_self m (p.m_pMemoryMap + 4 * i) (p.memoryMap i).isLt]
  refine read32_congr fun x hx => ?_
  obtain ⟨hlow, hhigh⟩ := hx
  have hdiv : (x - p.m_pMemoryMap) / 4 = i := by omega
  have hmod : (x - p.m_pMemoryMap) % 4 = x - (p.m_pMemoryMap + 4 * i) := by omega
  rw [storeMap, if_pos ⟨by omega, by omega⟩, hdiv, hmod, write32, writeLE_inside m hlow hhigh]

/-- Where memory holds the words of the bitmap, the allocator finds them. -/
theorem loadMap_of_eqOn (h : Set.EqOn m' (storeMap m p) (bitmap p)) : loadMap ⟨m', p⟩ = ⟨m', p⟩ := by
  have hmap : (loadMap ⟨m', p⟩).pmm.memoryMap = p.memoryMap := by
    funext i
    dsimp only [loadMap]
    split
    · rename_i hi
      rw [read32_congr fun x hx => h ⟨by have := hx.1; omega, by unfold mapEnd; have := hx.2; omega⟩, read_storeMap m hi,
        ofNat_toNat, setWidth_eq]
    · rfl
  unfold loadMap at hmap ⊢
  dsimp only at hmap ⊢
  rw [hmap]

/-! ## Tables that map to themselves -/

theorem setFrame_present (addr : BitVec 32) : setFrame (addAttribute 0 I86_PTE_PRESENT) addr =
    addr ||| I86_PTE_PRESENT := by
  have hmask : addAttribute 0 I86_PTE_PRESENT &&& ~~~I86_PTE_FRAME = I86_PTE_PRESENT := by decide
  rw [setFrame, hmask, BitVec.or_comm]

theorem setFrame_writable (addr : BitVec 32) :
    setFrame (addAttribute 0 (I86_PTE_PRESENT ||| I86_PTE_WRITABLE)) addr =
    addr ||| (I86_PTE_PRESENT ||| I86_PTE_WRITABLE) := by
  have hmask : addAttribute 0 (I86_PTE_PRESENT ||| I86_PTE_WRITABLE) &&& ~~~I86_PTE_FRAME =
      I86_PTE_PRESENT ||| I86_PTE_WRITABLE := by decide
  rw [setFrame, hmask, BitVec.or_comm]

/-- The first address of table `k`. -/
def tableStart (k : Nat) : BitVec 32 := BitVec.ofNat 32 (k * 0x400000)

theorem toNat_tableStart (k : Nat) : (tableStart k).toNat = k * 0x400000 % 2 ^ 32 := toNat_ofNat _ _

theorem toNat_pageAt (start : BitVec 32) (i : Nat) : (pageAt start i).toNat = (start.toNat + i * 4096) % 2 ^ 32 := by
  rw [pageAt, toNat_add, toNat_mul, toNat_ofNat, toNat_ofNat]
  omega

theorem toNat_pageAt_tableStart (hk : k < PAGES_PER_TABLE) (hj : j < PAGES_PER_TABLE) :
    (pageAt (tableStart k) j).toNat = (k * 1024 + j) * 4096 := by
  unfold PAGES_PER_TABLE at hk hj
  rw [toNat_pageAt, toNat_tableStart]
  omega

theorem pageAt_tableStart (k : Nat) : pageAt (tableStart k) PAGES_PER_TABLE = tableStart (k + 1) := by
  apply eq_of_toNat_eq
  rw [toNat_pageAt, toNat_tableStart, toNat_tableStart, PAGES_PER_TABLE]
  omega

theorem index_tableStart (hk : k < PAGES_PER_TABLE) :
    (PAGE_DIRECTORY_INDEX (tableStart (k + 1) - 0x00400000#32)).toNat = k := by
  unfold PAGES_PER_TABLE at hk
  rw [toNat_PAGE_DIRECTORY_INDEX, toNat_sub, toNat_tableStart, toNat_ofNat]
  omega

theorem identityPages_spec (m : Memory) (table : BitVec 32) (hk : k < PAGES_PER_TABLE) : ∀ n ≤ PAGES_PER_TABLE,
    (∀ j < n, entry (identityPages m table (tableStart k) (tableStart k) n) table j =
      pageAt (tableStart k) j ||| I86_PTE_PRESENT) ∧
    ∀ x ∉ page table, identityPages m table (tableStart k) (tableStart k) n x = m x
  | 0, _ => ⟨fun _ hj => absurd hj (Nat.not_lt_zero _), fun _ _ => rfl⟩
  | n + 1, hn => by
    obtain ⟨hbefore, houtside⟩ := identityPages_spec m table hk n (by omega)
    have hindex : (PAGE_TABLE_INDEX (pageAt (tableStart k) n)).toNat = n := by
      rw [toNat_PAGE_TABLE_INDEX, toNat_pageAt_tableStart hk hn]
      unfold PAGES_PER_TABLE at hn
      omega
    rw [identityPages, hindex, setFrame_present]
    refine ⟨fun j hj => ?_, fun x hx => ?_⟩
    · by_cases hjn : j = n
      · rw [hjn, entry_setEntry_self]
      · rw [entry_setEntry_of_ne _ _ _ hjn]
        exact hbefore j (by omega)
    · rw [setEntry_outside _ _ hn hx]
      exact houtside x hx

/-! ## The directory -/

/-- The first `k` tables are there, in blocks of their own; they map to themselves. -/
structure Identity (s : State) (dir : BitVec 32) (k : Nat) : Prop where
  rest : ∀ d < PAGES_PER_TABLE, k ≤ d → entry s.memory dir d = 0
  some : ∀ d < k, entry s.memory dir d ≠ 0
  apart : ∀ d < k, Disjoint (page (tableOf (entry s.memory dir d))) (page dir)
  used : ∀ d < k, bit s.pmm.memoryMap (blockOf false s.pmm (tableOf (entry s.memory dir d)).toNat) = true
  pages : ∀ d < k, ∀ j < PAGES_PER_TABLE,
    entry s.memory (tableOf (entry s.memory dir d)) j = pageAt (tableStart d) j ||| I86_PTE_PRESENT
  behind : ∀ d < k, mapEnd s.pmm ≤ (tableOf (entry s.memory dir d)).toNat

def Behind (p : PhysicalMemoryManager.State) : Prop :=
  ∀ f < p.m_maxBlocks / PMM_BITS_PER_INDEX * PMM_BITS_PER_INDEX, bit p.memoryMap f = false → mapEnd p ≤ f * PMM_BLOCK_SIZE

/-- The page at the directory is not handed out, and nothing that is handed out is in the bitmap, which memory holds. -/
structure Reserved (s : State) (dir : BitVec 32) : Prop where
  frames : Frames false s.pmm
  aligned : dir.toNat % 4096 = 0
  used : dir = 0 ∨ bit s.pmm.memoryMap (blockOf false s.pmm dir.toNat) = true
  loaded : loadMap s = s
  apart : Disjoint (page dir) (bitmap s.pmm)
  behind : Behind s.pmm

theorem Reserved.newTable_apart (h : Reserved s dir) (hne : newTable false s ≠ 0) :
    (newTable false s).toNat % 4096 = 0 ∧ Disjoint (page (newTable false s)) (page dir) := by
  refine ⟨newTable_aligned s, ?_⟩
  rcases h.used with hzero | hused
  · exact page_disjoint (newTable_aligned s) h.aligned fun heq => hne (heq.trans hzero)
  · exact (VirtualMemoryManager.newTable_apart h.frames h.aligned hused hne).2

theorem blockOf_false (p : PhysicalMemoryManager.State) (x : Nat) : blockOf false p x = x / 4096 := rfl

theorem page_behind (h : mapEnd p ≤ table.toNat) : Disjoint (page table) (bitmap p) := by
  rw [Set.disjoint_left]
  rintro x ⟨hx, -⟩ ⟨-, hx'⟩
  omega

section

variable {n address : Nat} {f : Nat} (ht : Takes false p f n address p')
include ht

theorem takes_mapEnd : mapEnd p' = mapEnd p := by
  rw [ht.next]
  rfl

theorem takes_bitmap : bitmap p' = bitmap p := by
  rw [ht.next]
  rfl

theorem Behind.took (h : Behind p) : Behind p' := by
  intro g hg hclear
  have htook := took_of_takes ht
  rw [htook.max] at hg
  rw [takes_mapEnd ht]
  refine h g hg ?_
  by_contra hset
  rw [htook.marked g (by simpa using hset)] at hclear
  cases hclear

end

theorem takes_address (hf : Frames false p) {f n address : Nat} (ht : Takes false p f n address p') :
    (BitVec.ofNat 32 (blockAddress false p f)).toNat = f * PMM_BLOCK_SIZE := by
  obtain ⟨hclear, hlt⟩ := ht.free 0 ht.pos
  have hlow : f < 2 ^ 20 := hf.low f hlt hclear
  rw [toNat_ofNat, PhysicalMemoryManager.blockAddress_lt hlow]
  unfold PMM_BLOCK_SIZE
  omega

theorem takes_behind (hf : Frames false p) (h : Behind p) {f n address : Nat} (ht : Takes false p f n address p') :
    mapEnd p ≤ (BitVec.ofNat 32 (blockAddress false p f)).toNat := by
  rw [takes_address hf ht]
  exact h f ht.whole (ht.free 0 ht.pos).1

/-- **One table more.** -/
theorem setupTable_identity (h : Identity s dir k) (hr : Reserved s dir) (hk : k < PAGES_PER_TABLE)
    (hne : newTable false s ≠ 0)
    (hm : m = setEntry (identityPages (fill (storeMap s.memory (allocBlock false s.pmm).2) (newTable false s).toNat 0
      (4 * PAGES_PER_TABLE))
      (newTable false s) (tableStart k) (tableStart k) PAGES_PER_TABLE) dir k (newTable false s |||
      (I86_PTE_PRESENT ||| I86_PTE_WRITABLE))) :
    Identity ⟨m, (allocBlock false s.pmm).2⟩ dir (k + 1) ∧ Reserved ⟨m, (allocBlock false s.pmm).2⟩ dir := by
  obtain ⟨haligned, hdisjoint⟩ := hr.newTable_apart hne
  obtain ⟨frame, ht, hblock⟩ := newTable_some hne
  have htook := took_of_takes ht
  have hother : ∀ d < k, Disjoint (page (newTable false s)) (page (tableOf (entry s.memory dir d))) := fun d hd =>
    (newTable_apart hr.frames (tableOf_aligned _) (h.used d hd) hne).2
  have hbehind : mapEnd s.pmm ≤ (newTable false s).toNat := hblock ▸ takes_behind hr.frames hr.behind ht
  have hmarked : bit (allocBlock false s.pmm).2.memoryMap ((newTable false s).toNat / 4096) = true := by
    have hframe : frame * PMM_BLOCK_SIZE / 4096 = frame := Nat.mul_div_cancel _ (by decide)
    rw [hblock, takes_address hr.frames ht, hframe, ht.next, bit_markRange, decide_eq_true (by omega), Bool.true_or]
  have hnew : tableOf (newTable false s ||| (I86_PTE_PRESENT ||| I86_PTE_WRITABLE)) = newTable false s :=
    tableOf_or_flags haligned (by decide)
  have hend := takes_mapEnd ht
  have hbitmap := takes_bitmap ht
  have hfree := hr.behind.took ht
  obtain ⟨hpages, hpagesOut⟩ := identityPages_spec
    (fill (storeMap s.memory (allocBlock false s.pmm).2) (newTable false s).toNat 0 (4 * PAGES_PER_TABLE))
      (newTable false s) hk
    PAGES_PER_TABLE le_rfl
  generalize newTable false s = block at *
  generalize (allocBlock false s.pmm).2 = p' at *
  have hnotDir : ∀ x ∈ page dir, x ∉ bitmap p' := fun x hx hxmap => Set.disjoint_left.1 hr.apart hx (hbitmap ▸ hxmap)
  have hnotBlock : ∀ x ∈ bitmap p', x ∉ page block := fun x hxmap hx =>
    Set.disjoint_left.1 (page_behind hbehind) hx (hbitmap ▸ hxmap)
  have hstore : ∀ x ∉ page block, x ∉ page dir → m x = storeMap s.memory p' x := fun x hx hxdir => by
    rw [hm, setEntry_outside _ _ hk hxdir, hpagesOut x hx, fill_outside _ hx]
  have hself : entry m dir k = block ||| (I86_PTE_PRESENT ||| I86_PTE_WRITABLE) := by rw [hm, entry_setEntry_self]
  have hsame : ∀ d < PAGES_PER_TABLE, d ≠ k → entry m dir d = entry s.memory dir d := fun d hd hdk => by
    rw [hm, entry_setEntry_of_ne _ _ _ hdk]
    refine entry_congr (fun x hx => ?_) hd
    have hxb : x ∉ page block := fun hxb => Set.disjoint_left.1 hdisjoint hxb hx
    rw [hpagesOut x hxb, fill_outside _ hxb, storeMap_outside _ (hnotDir x hx)]
  have hold : ∀ d < k, entry m dir d = entry s.memory dir d := fun d hd => hsame d (by omega) (by omega)
  refine ⟨⟨fun d hd hkd => ?_, fun d hd => ?_, fun d hd => ?_, fun d hd => ?_, fun d hd j hj => ?_, fun d hd => ?_⟩,
    htook.frames hr.frames, hr.aligned, hr.used.imp id (htook.marked _), ?_, hbitmap ▸ hr.apart, hfree⟩
  · dsimp only
    rw [hsame d hd (by omega)]
    exact h.rest d hd (by omega)
  · dsimp only
    by_cases hdk : d = k
    · rw [hdk, hself]
      exact or_flags_ne_zero (by decide)
    · rw [hold d (by omega)]
      exact h.some d (by omega)
  · dsimp only
    by_cases hdk : d = k
    · rw [hdk, hself, hnew]
      exact hdisjoint
    · rw [hold d (by omega)]
      exact h.apart d (by omega)
  · dsimp only
    by_cases hdk : d = k
    · rw [hdk, hself, hnew]
      exact hmarked
    · rw [hold d (by omega)]
      exact htook.marked _ (h.used d (by omega))
  · dsimp only
    by_cases hdk : d = k
    · rw [hdk, hself, hnew, ← hpages j hj, hm]
      exact entry_congr (eqOn_of_disjoint (fun x => setEntry_outside _ _ hk) hdisjoint.symm) hj
    · have hdk' : d < k := by omega
      rw [hold d hdk', ← h.pages d hdk' j hj]
      refine entry_congr (fun x hx => ?_) hj
      have hxmap : x ∉ bitmap p' := fun hxmap => Set.disjoint_left.1 (page_behind (h.behind d hdk')) hx (hbitmap ▸ hxmap)
      rw [hstore x (fun hxb => Set.disjoint_left.1 (hother d hdk') hxb hx) fun hxd =>
        Set.disjoint_left.1 (h.apart d hdk') hx hxd,
        storeMap_outside _ hxmap]
  · dsimp only
    rw [hend]
    by_cases hdk : d = k
    · rw [hdk, hself, hnew]
      exact hbehind
    · rw [hold d (by omega)]
      exact h.behind d (by omega)
  · exact loadMap_of_eqOn fun x hx => hstore x (hnotBlock x hx) fun hxdir => hnotDir x hxdir hx

theorem setupTables_identity : ∀ {left k : Nat} {s s' : State}, Identity s dir k → Reserved s dir →
    k + left ≤ PAGES_PER_TABLE →
    setupTables s dir (tableStart k) (tableStart k) left = (true, s') → Identity s' dir (k + left)
  | 0, k, s, s', h, _, _, hs => by
    cases hs
    exact h
  | left + 1, k, s, s', h, hr, hk, hs => by
    rw [setupTables, hr.loaded] at hs
    dsimp only at hs
    split at hs
    · cases hs
    · rename_i hne
      have hk' : k < PAGES_PER_TABLE := by omega
      obtain ⟨-, hdisjoint⟩ := hr.newTable_apart hne
      obtain ⟨-, hpagesOut⟩ := identityPages_spec
        (fill (storeMap s.memory (allocBlock false s.pmm).2) (newTable false s).toNat 0 (4 * PAGES_PER_TABLE))
          (newTable false s) hk'
        PAGES_PER_TABLE le_rfl
      have hzero : entry (identityPages (fill (storeMap s.memory (allocBlock false s.pmm).2)
        (newTable false s).toNat 0 (4 * PAGES_PER_TABLE))
          (newTable false s) (tableStart k) (tableStart k) PAGES_PER_TABLE) dir k = 0 := by
        rw [← h.rest k hk' le_rfl]
        obtain ⟨frame, ht, -⟩ := newTable_some hne
        refine entry_congr (fun x hx => ?_) hk'
        have hxb : x ∉ page (newTable false s) := fun hxb => Set.disjoint_left.1 hdisjoint hxb hx
        have hxmap : x ∉ bitmap (allocBlock false s.pmm).2 := fun hxmap =>
          Set.disjoint_left.1 hr.apart hx (takes_bitmap ht ▸ hxmap)
        rw [hpagesOut x hxb, fill_outside _ hxb, storeMap_outside _ hxmap]
      rw [pageAt_tableStart, index_tableStart hk', hzero, setFrame_writable] at hs
      obtain ⟨hnext, hreserved⟩ := setupTable_identity h hr hk' hne rfl
      have hlast := setupTables_identity hnext hreserved (by omega) hs
      rwa [Nat.add_right_comm] at hlast

theorem Identity.mapped_iff (h : Identity s dir k) (va : BitVec 32) :
    IdentityMapped s.memory dir va ↔ va.toNat < k * 0x400000 := by
  have hd := PAGE_DIRECTORY_INDEX_lt va
  have ht := PAGE_TABLE_INDEX_lt va
  have hdiv := toNat_PAGE_DIRECTORY_INDEX va
  by_cases hlt : (PAGE_DIRECTORY_INDEX va).toNat < k
  · have hpage := toNat_pageAt_tableStart hd ht
    have hentry := h.pages _ hlt _ ht
    have hpte : pageAt (tableStart (PAGE_DIRECTORY_INDEX va).toNat) (PAGE_TABLE_INDEX va).toNat ||| I86_PTE_PRESENT ≠ 0 :=
      or_flags_ne_zero (by decide)
    have htable := toNat_PAGE_TABLE_INDEX va
    refine iff_of_true ⟨h.some _ hlt, hentry ▸ hpte, ?_⟩ (by omega)
    unfold getPhysicalAddress
    rw [if_neg (h.some _ hlt), hentry, if_neg hpte, tableOf_or_flags (by omega) (by decide)]
    apply eq_of_toNat_eq
    rw [toNat_add, toNat_PAGE_GET_OFFSET, hpage]
    have := va.isLt
    omega
  · refine iff_of_false (fun hmapped => hmapped.1 (h.rest _ hd (by omega))) ?_
    omega

theorem pageTableCount_le (boot : BootParams) : pageTableCount boot ≤ PAGES_PER_TABLE := by
  have hlt : kernelDataTop boot < 2 ^ 32 := u32_lt _
  unfold pageTableCount PMM_BLOCK_SIZE PAGES_PER_TABLE
  omega

theorem behind_initialized {boot : BootParams} (h : BitmapApart boot) (before : Nat → BitVec 32) :
    Behind (initializePMM false boot before) := by
  have hinv : Inv false boot ⟨initializePMM false boot before, []⟩ := inv_init (init_start boot before)
  have hend : mapEnd (initializePMM false boot before) = availablePoint false boot := by
    have hstop := h.stop
    rw [initializePMM_eq]
    show memoryMapAddress false boot + 4 * memoryMapSize boot = u32 (memoryMapAddress false boot + memoryMapSize boot * 4)
    rw [u32_of_lt (by omega)]
    omega
  have hstart : 4096 ≤ availablePoint false boot := by
    have hmap : memoryMapAddress false boot ≤ mapEnd (initializePMM false boot before) := by
      rw [initializePMM_eq]
      exact Nat.le_add_right _ _
    have := h.start
    omega
  intro f hf hclear
  have hmax : (initializePMM false boot before).m_maxBlocks = maxBlocks boot := hinv.max
  rw [hmax] at hf
  obtain ⟨hfirst, hlast⟩ := hinv.free f (by dsimp only; unfold PMM_BITS_PER_INDEX at hf; omega) hclear
  rw [hend]
  rcases h.whole with ⟨q, hq⟩ | hempty | hwords | hzero
  · unfold firstBlock PMM_BLOCK_SIZE at *
    omega
  · omega
  · omega
  · unfold firstBlock PMM_BLOCK_SIZE at hzero
    omega

/-- **The directory is in a block of its own**, cleared; the bitmap is in memory as it was left. -/
theorem reserved_directory (hframes : Frames false p) (hbehind : Behind p) (hstart : 4096 ≤ p.m_pMemoryMap) (m : Memory) :
    Reserved ⟨fill (storeMap m (allocBlocks false p 1).2) (kernelDirectory p).toNat 0 (4 * PAGES_PER_TABLE),
      (allocBlocks false p 1).2⟩ (kernelDirectory p) := by
  have hload : ∀ {q : PhysicalMemoryManager.State}, Disjoint (page (kernelDirectory p)) (bitmap q) →
      loadMap ⟨fill (storeMap m q) (kernelDirectory p).toNat 0 (4 * PAGES_PER_TABLE), q⟩ = _ := fun hapart =>
    loadMap_of_eqOn (m := m) fun x hx => fill_outside _ fun hxdir => Set.disjoint_left.1 hapart hxdir hx
  obtain hres | ⟨frame, p', hres, ht⟩ := allocBlocks_cases false p 1
  · have hzero : kernelDirectory p = 0 := by
      unfold kernelDirectory
      rw [hres]
      rfl
    have hapart : Disjoint (page (kernelDirectory p)) (bitmap p) := by
      rw [hzero, Set.disjoint_left]
      rintro x ⟨-, hx⟩ ⟨hx', -⟩
      have : (0 : BitVec 32).toNat = 0 := rfl
      unfold PAGES_PER_TABLE at hx
      omega
    rw [hres]
    exact ⟨hframes, by rw [hzero]; rfl, .inl hzero, hload hapart, hapart, hbehind⟩
  · have hdir : kernelDirectory p = BitVec.ofNat 32 (blockAddress false p frame) := by
      unfold kernelDirectory
      rw [hres, pointer_getD]
    have haddress := takes_address hframes ht
    have hapart : Disjoint (page (kernelDirectory p)) (bitmap p') := by
      rw [hdir, takes_bitmap ht]
      exact page_behind (takes_behind hframes hbehind ht)
    rw [hres]
    refine ⟨(took_of_takes ht).frames hframes, ?_, .inr ?_, hload hapart, hapart, hbehind.took ht⟩
    · rw [hdir, haddress]
      exact Nat.mul_mod_left _ _
    · have hframe : frame * PMM_BLOCK_SIZE / 4096 = frame := Nat.mul_div_cancel _ (by decide)
      rw [blockOf_false, hdir, haddress, hframe, ht.next, bit_markRange, decide_eq_true (by omega), Bool.true_or]

/-- **The kernel's directory maps to themselves** the addresses below `identityEnd`, and nothing else. -/
theorem setup_identity {boot : BootParams} (h : BitmapApart boot) {before : Nat → BitVec 32} {memory : Memory}
    (hs : setupKernelPageDirectory boot (initialized boot before memory) = (true, s')) (va : BitVec 32) :
    IdentityMapped s'.memory (kernelDirectory (initializePMM false boot before)) va ↔ va.toNat < identityEnd boot := by
  have hframes : Frames false (initializePMM false boot before) :=
    frames_of_inv (r := ⟨initializePMM false boot before, []⟩) (inv_init (init_start boot before)) nofun
  have hbehind := behind_initialized h before
  have hstart : 4096 ≤ (initializePMM false boot before).m_pMemoryMap := by
    rw [initializePMM_eq]
    exact h.start
  unfold initialized at hs
  generalize initializePMM false boot before = p at *
  rw [setupKernelPageDirectory, loadMap_of_eqOn fun x _ => rfl] at hs
  dsimp only at hs
  have hreserved := reserved_directory hframes hbehind hstart (storeMap memory p)
  have hempty : Identity
      ⟨fill (storeMap (storeMap memory p) (allocBlocks false p 1).2) (kernelDirectory p).toNat 0 (4 * PAGES_PER_TABLE),
        (allocBlocks false p 1).2⟩ (kernelDirectory p) 0 :=
    ⟨fun d hd _ => entry_fill _ _ hd, nofun, nofun, nofun, nofun, nofun⟩
  have hle := pageTableCount_le boot
  have hidentity := setupTables_identity hempty hreserved (by omega) hs
  rw [Nat.zero_add] at hidentity
  exact hidentity.mapped_iff va

/-! ## The bitmap in the block of the directory -/

theorem getFreeFrame_zero (hwords : 0 < p.m_maxBlocks / PMM_BITS_PER_INDEX * PMM_BITS_PER_INDEX)
    (hclear : bit p.memoryMap 0 = false) :
    getFreeFrame p = some 0 := by
  cases hres : getFreeFrame p with
  | none =>
    have hnone := scan_none hres 0 hwords hclear
    cases hnone
  | some f =>
    obtain ⟨-, -, hbefore⟩ := getFreeFrame_some hres
    rcases Nat.eq_zero_or_pos f with rfl | hpos
    · rfl
    · rw [hbefore 0 hpos] at hclear
      cases hclear

/-- Where the first block counts as free, it is found, and its address is `NULL`. -/
theorem newTable_null (hwords : 0 < s.pmm.m_maxBlocks / PMM_BITS_PER_INDEX * PMM_BITS_PER_INDEX)
    (hclear : bit s.pmm.memoryMap 0 = false) :
    newTable false s = 0 := by
  unfold newTable allocBlock
  rw [getFreeFrame_zero hwords hclear]
  split
  · rfl
  · dsimp only
    rw [pointer_getD, PhysicalMemoryManager.blockAddress_lt (by decide)]
    rfl

/-- **The bitmap is cleared** where it lies in the block that is handed out for the directory: the next block that is
found is the first, whose address is `NULL`, and the directory is not set up. -/
theorem setup_wiped {boot : BootParams} (hblock : memoryMapAddress false boot / PMM_BLOCK_SIZE = firstBlock false boot)
    (hlast : firstBlock false boot + 1 < lastBlock boot)
    (hwords : firstBlock false boot < maxBlocks boot / PMM_BITS_PER_INDEX * PMM_BITS_PER_INDEX)
    (before : Nat → BitVec 32) (memory : Memory) :
    (setupKernelPageDirectory boot (initialized boot before memory)).1 = false := by
  have hfirst : firstBlock false boot < lastBlock boot := by omega
  have hframe := getFreeFrame_initialized before hfirst hwords
  have hfree := free_initialized before hfirst
  have hmap : (initializePMM false boot before).m_pMemoryMap = memoryMapAddress false boot := by rw [initializePMM_eq]; rfl
  have hsize : (initializePMM false boot before).m_memoryMapSize = memoryMapSize boot := by rw [initializePMM_eq]; rfl
  have hmax : (initializePMM false boot before).m_maxBlocks = maxBlocks boot := by rw [initializePMM_eq]; rfl
  have hlow := lastBlock_lt boot
  unfold initialized
  generalize initializePMM false boot before = p at *
  obtain ⟨q, hres, hqsize, hqmap, hqmax⟩ : ∃ q, allocBlocks false p 1 =
    (pointer (blockAddress false p (firstBlock false boot)), q) ∧
      q.m_memoryMapSize = p.m_memoryMapSize ∧ q.m_pMemoryMap = p.m_pMemoryMap ∧ q.m_maxBlocks = p.m_maxBlocks := by
    have hone : getFreeFrames p 1 = getFreeFrame p := rfl
    rw [allocBlocks, if_neg (by omega), hone, hframe]
    dsimp only
    rw [foldl_setBit]
    exact ⟨_, rfl, rfl, rfl, rfl⟩
  have hdir : (kernelDirectory p).toNat = firstBlock false boot * PMM_BLOCK_SIZE := by
    rw [kernelDirectory, hres, pointer_getD, toNat_ofNat, PhysicalMemoryManager.blockAddress_lt (by omega)]
    unfold PMM_BLOCK_SIZE
    omega
  have hinside : 0 < q.m_memoryMapSize ∧ (kernelDirectory p).toNat ≤ q.m_pMemoryMap ∧
      q.m_pMemoryMap + 4 ≤ (kernelDirectory p).toNat + 4 * PAGES_PER_TABLE := by
    have hblocks := maxBlocks_lt boot
    have hmapSize : 0 < memoryMapSize boot ∧ memoryMapSize boot ≤ 2 ^ 27 + 1 := by
      unfold memoryMapSize PMM_BITS_PER_INDEX at *
      split <;> omega
    have hend : availablePoint false boot / PMM_BLOCK_SIZE = firstBlock false boot := rfl
    rw [hdir, hqsize, hqmap, hsize, hmap]
    unfold availablePoint u32 PMM_BLOCK_SIZE PAGES_PER_TABLE at *
    omega
  have hword : read32 (Bytes.fill (storeMap (storeMap memory p) q) (kernelDirectory p).toNat 0 (4 * PAGES_PER_TABLE))
      q.m_pMemoryMap = read32 (fun _ => 0) q.m_pMemoryMap :=
    read32_congr fun x hx => if_pos ⟨by have := hx.1; omega, by have := hx.2; omega⟩
  have hzero : read32 (fun _ => 0) q.m_pMemoryMap = 0 := rfl
  rw [setupKernelPageDirectory, loadMap_of_eqOn fun x _ => rfl]
  dsimp only
  rw [hres, pageTableCount, setupTables]
  dsimp only
  rw [if_pos]
  refine newTable_null (s := loadMap _) (Nat.lt_of_le_of_lt (Nat.zero_le _) (hqmax.trans hmax ▸ hwords)) ?_
  show BitVec.getLsbD (if 0 < q.m_memoryMapSize then _ else _) 0 = false
  rw [if_pos hinside.1, Nat.mul_zero, Nat.add_zero, hword, hzero]
  rfl

/-! ## The bitmap -/

theorem bitmapCovered_iff (boot : BootParams) : BitmapCovered boot ↔ LastByteMapped boot := by
  have haddress : memoryMapAddress false boot < 2 ^ 32 := u32_lt _
  have htop : kernelDataTop boot = u32 (memoryMapAddress false boot + maxBlocks boot / PMM_BITS_PER_INDEX) := rfl
  unfold BitmapCovered LastByteMapped identityEnd pageTableCount PMM_BLOCK_SIZE
  rw [← htop]
  generalize kernelDataTop boot = top at *
  generalize memoryMapAddress false boot = a at *
  generalize memoryMapSize boot = w
  have hdiv : top / 4096 / 1024 = top / 0x400000 := Nat.div_div_eq_div_mul _ _ _
  rw [hdiv]
  constructor
  · intro h
    by_cases hzero : w = 0
    · exact .inl hzero
    · -- the last byte that does not wrap
      have hlast := h (min (a + w * 4 - 1) (2 ^ 32 - 1) - a) (by omega)
      unfold u32 at hlast
      omega
  · rintro (hzero | hlast) k hk
    · omega
    · unfold u32
      omega

def alignedBoot : BootParams := ⟨0x200000, 0x100000, 0xfc0, 0⟩

def highBoot : BootParams := ⟨0x8000000, 0x100000, 0x2ff800, 0⟩

end VirtualMemoryManager
