import Mathlib.Data.BitVec
import Mathlib.Data.Set.BooleanAlgebra
import Mathlib.Order.CompletePartialOrder
import SkyOS.Lib.Bytes
import SkyOS.Memory.PhysicalMemoryManager

/-!
# Page directories (`VirtualMemoryManager.cpp`)

A directory and the tables its entries lead to lie in memory; a pointer to one is its physical address. An entry is the
address of a page with attributes in the low 12 bits, or 0. `MapPhysicalAddressToVirtualAddresss` allocates the table
where the directory has none, and forgets to ask whether it could: it then writes to the page at 0. The frame bitmap is
that of `PhysicalMemoryManager`; it is taken to lie apart from directories, tables and blocks, so that no write to
`memory` changes it. The critical section is left out.

| here | there |
| --- | --- |
| `entry m table i`, `setEntry` | `table[i]` |
| `tableOf` | `& ~0xfff` |
-/

namespace VirtualMemoryManager

open Bytes PhysicalMemoryManager Nat BitVec

def PAGES_PER_TABLE : Nat := 1024
def I86_PTE_PRESENT : BitVec 32 := 1#32

def PAGE_DIRECTORY_INDEX (x : BitVec 32) : BitVec 32 := (x >>> 22) &&& 0x3ff#32
def PAGE_TABLE_INDEX (x : BitVec 32) : BitVec 32 := (x >>> 12) &&& 0x3ff#32
def PAGE_GET_OFFSET (x : BitVec 32) : BitVec 32 := x &&& 0xfff#32

/-! ## Entries in memory -/

def entry (m : Memory) (table : BitVec 32) (i : Nat) : BitVec 32 := BitVec.ofNat 32 (read32 m (table.toNat + 4 * i))

def setEntry (m : Memory) (table : BitVec 32) (i : Nat) (e : BitVec 32) : Memory := write32 m (table.toNat + 4 * i) e.toNat

def tableOf (e : BitVec 32) : BitVec 32 := e &&& ~~~0xfff#32

structure State where
  memory : Memory
  pmm : PhysicalMemoryManager.State

/-- `GetPhysicalAddress` (:76). -/
def getPhysicalAddress (m : Memory) (dir va : BitVec 32) : BitVec 32 :=
  let pde := entry m dir (PAGE_DIRECTORY_INDEX va).toNat
  let pt := tableOf pde
  if pde = 0 then 0
  else
    let pte := entry m pt (PAGE_TABLE_INDEX va).toNat
    if pte = 0 then 0 else tableOf pte + PAGE_GET_OFFSET va

section Configuration

variable (SKY_EMULATOR : Bool)

/-- What `AllocBlock` returns, with 0 for `NULL`. -/
def newTable (s : State) : BitVec 32 := BitVec.ofNat 32 ((allocBlock SKY_EMULATOR s.pmm).1.getD 0)

/-- `CreatePageTable` (:97). -/
def createPageTable (s : State) (dir va flags : BitVec 32) : Bool × State :=
  if entry s.memory dir (PAGE_DIRECTORY_INDEX va).toNat = 0 then
    let pPageTable := newTable SKY_EMULATOR s
    let pmm := (allocBlock SKY_EMULATOR s.pmm).2
    if pPageTable = 0 then (false, { s with pmm })
    else
      let memory := fill s.memory pPageTable.toNat 0 (4 * PAGES_PER_TABLE)
      (true, ⟨setEntry memory dir (PAGE_DIRECTORY_INDEX va).toNat (pPageTable ||| flags), pmm⟩)
  else (true, s)

/-- `MapPhysicalAddressToVirtualAddresss` (:114). -/
def mapPhysicalAddressToVirtualAddresss (s : State) (dir virt phys flags : BitVec 32) : State :=
  let s := if entry s.memory dir (virt >>> 22).toNat = 0 then (createPageTable SKY_EMULATOR s dir virt flags).2 else s
  let pageTable := tableOf (entry s.memory dir (virt >>> 22).toNat)
  { s with memory := setEntry s.memory pageTable (virt <<< 10 >>> 10 >>> 12).toNat (phys ||| flags) }

end Configuration

/-! ## Properties -/

def page (table : BitVec 32) : Set Nat := Set.Ico table.toNat (table.toNat + 4 * PAGES_PER_TABLE)

/-- The table of an entry in use lies apart from the directory, and no other entry leads to it. -/
structure TableApart (m : Memory) (dir : BitVec 32) (d : Nat) : Prop where
  apart : Disjoint (page (tableOf (entry m dir d))) (page dir)
  once : ∀ i < PAGES_PER_TABLE, entry m dir i ≠ 0 → tableOf (entry m dir i) = tableOf (entry m dir d) → i = d

def Proper (m : Memory) (dir : BitVec 32) : Prop :=
  ∀ d < PAGES_PER_TABLE, entry m dir d ≠ 0 → TableApart m dir d

/-- What mapping `virt` needs of it: that the table of `virt` is apart, or, where there is none and the directory gets an
entry, that the directory is not over a table. -/
def Separate (m : Memory) (dir virt : BitVec 32) : Prop :=
  if entry m dir (virt >>> 22).toNat = 0 then
    ∀ i < PAGES_PER_TABLE, entry m dir i ≠ 0 → Disjoint (page (tableOf (entry m dir i))) (page dir)
  else TableApart m dir (virt >>> 22).toNat

structure Unused (m : Memory) (dir block : BitVec 32) : Prop where
  apart : Disjoint (page block) (page dir)
  tables : ∀ i < PAGES_PER_TABLE, entry m dir i ≠ 0 → Disjoint (page block) (page (tableOf (entry m dir i)))

def TableAllocated (SKY_EMULATOR : Bool) (s : State) (dir virt : BitVec 32) : Prop :=
  entry s.memory dir (virt >>> 22).toNat = 0 →
    newTable SKY_EMULATOR s ≠ 0 ∧ Unused s.memory dir (newTable SKY_EMULATOR s)

/-- The page of `virt` is mapped to `phys`, and all others are mapped as they were. -/
structure MapRight (m m' : Memory) (dir virt phys : BitVec 32) : Prop where
  mapped : ∀ va : BitVec 32, va.toNat / 4096 = virt.toNat / 4096 →
    (getPhysicalAddress m' dir va).toNat = phys.toNat + va.toNat % 4096
  others : ∀ va : BitVec 32, va.toNat / 4096 ≠ virt.toNat / 4096 →
    getPhysicalAddress m' dir va = getPhysicalAddress m dir va

variable {m m' : Memory} {s : State} {dir table block virt va phys flags e : BitVec 32} {i j : Nat}

/-! ## Bits -/

@[simp] theorem toNat_tableOf (e : BitVec 32) : (tableOf e).toNat = e.toNat / 4096 * 4096 := by
  have hmask : ~~~0xfff#32 = BitVec.allOnes 32 <<< 12 := by decide
  have hshift : tableOf e = (e >>> 12) <<< 12 := by
    apply eq_of_getLsbD_eq
    intro i hi
    rw [tableOf, hmask, getLsbD_and, getLsbD_shiftLeft, getLsbD_shiftLeft, getLsbD_ushiftRight,
      getLsbD_allOnes]
    by_cases hlt : i < 12
    · simp only [hlt, decide_true, Bool.not_true, Bool.and_false, Bool.false_and]
    · have hi' : i - 12 < 32 := by omega
      have hsum : 12 + (i - 12) = i := by omega
      simp only [hi, hlt, hi', hsum, decide_true, decide_false, Bool.not_false, Bool.and_true, Bool.true_and]
  rw [hshift, toNat_shiftLeft, toNat_ushiftRight, shiftRight_eq_div_pow, Nat.shiftLeft_eq]
  omega

theorem toNat_or_flags (hphys : phys.toNat % 4096 = 0) (hflags : flags.toNat < 4096) :
    (phys ||| flags).toNat = phys.toNat + flags.toNat := by
  have hor := shiftLeft_add_eq_or_of_lt (i := 12) hflags (phys.toNat / 4096)
  have hbase : (phys.toNat / 4096) <<< 12 = phys.toNat := by
    rw [Nat.shiftLeft_eq]
    omega
  rw [hbase] at hor
  rw [toNat_or, hor]

theorem tableOf_or_flags (hphys : phys.toNat % 4096 = 0) (hflags : flags.toNat < 4096) :
    tableOf (phys ||| flags) = phys := by
  apply eq_of_toNat_eq
  rw [toNat_tableOf, toNat_or_flags hphys hflags]
  omega

theorem or_flags_ne_zero (hflags : flags &&& I86_PTE_PRESENT ≠ 0) : phys ||| flags ≠ 0 := by
  intro h
  have hzero := (BitVec.or_eq_zero_iff.1 h).2
  rw [hzero] at hflags
  exact hflags rfl

section

variable (x : BitVec 32)
include x

@[simp] theorem toNat_PAGE_GET_OFFSET : (PAGE_GET_OFFSET x).toNat = x.toNat % 4096 := by
  rw [PAGE_GET_OFFSET, toNat_and]
  exact and_two_pow_sub_one_eq_mod _ 12

@[simp] theorem toNat_PAGE_TABLE_INDEX : (PAGE_TABLE_INDEX x).toNat = x.toNat / 4096 % 1024 := by
  rw [PAGE_TABLE_INDEX, toNat_and, toNat_ushiftRight, shiftRight_eq_div_pow]
  exact and_two_pow_sub_one_eq_mod _ 10

@[simp] theorem toNat_PAGE_DIRECTORY_INDEX : (PAGE_DIRECTORY_INDEX x).toNat = x.toNat / 2 ^ 22 := by
  rw [PAGE_DIRECTORY_INDEX, toNat_and, toNat_ushiftRight, shiftRight_eq_div_pow]
  refine (and_two_pow_sub_one_eq_mod _ 10).trans ?_
  omega

theorem shift_eq_PAGE_DIRECTORY_INDEX : x >>> 22 = PAGE_DIRECTORY_INDEX x := by
  apply eq_of_toNat_eq
  rw [toNat_PAGE_DIRECTORY_INDEX, toNat_ushiftRight, shiftRight_eq_div_pow]

theorem shifts_eq_PAGE_TABLE_INDEX : x <<< 10 >>> 10 >>> 12 = PAGE_TABLE_INDEX x := by
  apply eq_of_toNat_eq
  simp only [toNat_PAGE_TABLE_INDEX, toNat_ushiftRight, toNat_shiftLeft, shiftRight_eq_div_pow,
    Nat.shiftLeft_eq]
  omega

theorem PAGE_DIRECTORY_INDEX_lt : (PAGE_DIRECTORY_INDEX x).toNat < PAGES_PER_TABLE := by
  unfold PAGES_PER_TABLE
  rw [toNat_PAGE_DIRECTORY_INDEX]
  omega

theorem PAGE_TABLE_INDEX_lt : (PAGE_TABLE_INDEX x).toNat < PAGES_PER_TABLE := by
  rw [toNat_PAGE_TABLE_INDEX]
  exact mod_lt _ (by decide)

end

theorem page_eq_iff : va.toNat / 4096 = virt.toNat / 4096 ↔
    PAGE_DIRECTORY_INDEX va = PAGE_DIRECTORY_INDEX virt ∧ PAGE_TABLE_INDEX va = PAGE_TABLE_INDEX virt := by
  simp only [← toNat_inj, toNat_PAGE_DIRECTORY_INDEX, toNat_PAGE_TABLE_INDEX]
  omega

/-! ## Reads after writes -/

theorem entry_congr (h : Set.EqOn m' m (page table)) (hi : i < PAGES_PER_TABLE) : entry m' table i = entry m table i := by
  refine congrArg (BitVec.ofNat 32) (read32_congr fun x hx => h ?_)
  obtain ⟨hlow, hhigh⟩ := hx
  exact ⟨by omega, by omega⟩

theorem setEntry_outside (m : Memory) (e : BitVec 32) (hi : i < PAGES_PER_TABLE) {x : Nat} (hx : x ∉ page table) :
    setEntry m table i e x = m x := by
  refine write32_outside m ?_ _
  rw [page, Set.mem_Ico] at hx
  omega

theorem fill_outside (m : Memory) {x : Nat} (hx : x ∉ page block) : fill m block.toNat 0 (4 * PAGES_PER_TABLE) x = m x :=
  if_neg hx

@[simp] theorem entry_setEntry_self (m : Memory) (table : BitVec 32) (i : Nat) (e : BitVec 32) :
    entry (setEntry m table i e) table i = e := by
  rw [entry, setEntry, read32_write32_self m _ e.isLt, ofNat_toNat, setWidth_eq]

theorem entry_setEntry_of_ne (m : Memory) (table e : BitVec 32) (h : j ≠ i) :
    entry (setEntry m table i e) table j = entry m table j := by
  rw [entry, setEntry, read32_write32_of_disjoint m (by omega)]
  rfl

theorem entry_fill (m : Memory) (block : BitVec 32) (hi : i < PAGES_PER_TABLE) :
    entry (fill m block.toNat 0 (4 * PAGES_PER_TABLE)) block i = 0 := by
  have hzero : read32 (fill m block.toNat 0 (4 * PAGES_PER_TABLE)) (block.toNat + 4 * i) =
      read32 (fun _ => 0) (block.toNat + 4 * i) :=
    read32_congr fun x hx => if_pos ⟨by have := hx.1; omega, by have := hx.2; omega⟩
  rw [entry, hzero]
  rfl

variable {a b : BitVec 32}

theorem page_disjoint (ha : a.toNat % 4096 = 0) (hb : b.toNat % 4096 = 0) (h : a ≠ b) :
    Disjoint (page a) (page b) := by
  have hne : a.toNat ≠ b.toNat := fun heq => h (eq_of_toNat_eq heq)
  rw [Set.disjoint_left]
  rintro x ⟨hal, har⟩ ⟨hbl, hbr⟩
  unfold PAGES_PER_TABLE at har hbr
  omega

theorem ne_of_page_disjoint (h : Disjoint (page a) (page b)) : a ≠ b := by
  rintro rfl
  have hmem : a.toNat ∈ page a := ⟨le_rfl, by unfold PAGES_PER_TABLE; omega⟩
  exact Set.disjoint_left.1 h hmem hmem

theorem eqOn_of_disjoint (h : ∀ x ∉ page a, m' x = m x) (hd : Disjoint (page a) (page b)) :
    Set.EqOn m' m (page b) := fun x hx => h x fun ha => Set.disjoint_left.1 hd ha hx

/-- Two memories in which the directory is the same, and the tables in use are, are the same to the reader. -/
theorem getPhysicalAddress_congr (hdir : entry m' dir (PAGE_DIRECTORY_INDEX va).toNat =
      entry m dir (PAGE_DIRECTORY_INDEX va).toNat)
    (htable : entry m dir (PAGE_DIRECTORY_INDEX va).toNat ≠ 0 →
      entry m' (tableOf (entry m dir (PAGE_DIRECTORY_INDEX va).toNat)) (PAGE_TABLE_INDEX va).toNat =
        entry m (tableOf (entry m dir (PAGE_DIRECTORY_INDEX va).toNat)) (PAGE_TABLE_INDEX va).toNat) :
    getPhysicalAddress m' dir va = getPhysicalAddress m dir va := by
  unfold getPhysicalAddress
  rw [hdir]
  by_cases hzero : entry m dir (PAGE_DIRECTORY_INDEX va).toNat = 0
  · rw [if_pos hzero, if_pos hzero]
  · rw [if_neg hzero, if_neg hzero, htable hzero]

theorem TableApart.congr {d : Nat} (h : TableApart m dir d) (hd : d < PAGES_PER_TABLE)
    (hdir : ∀ i < PAGES_PER_TABLE, entry m' dir i = entry m dir i) : TableApart m' dir d := by
  refine ⟨?_, fun i hi hne heq => ?_⟩
  · rw [hdir d hd]
    exact h.apart
  · rw [hdir i hi] at hne heq
    rw [hdir d hd] at heq
    exact h.once i hi hne heq

/-! ## The two stages -/

theorem tableOf_aligned (e : BitVec 32) : (tableOf e).toNat % 4096 = 0 := by
  rw [toNat_tableOf]
  omega

/-- **The entry is written** to the table of the page. -/
theorem setEntry_right (h : TableApart m dir (PAGE_DIRECTORY_INDEX virt).toNat)
    (htable : entry m dir (PAGE_DIRECTORY_INDEX virt).toNat ≠ 0)
    (hphys : phys.toNat % 4096 = 0) (hflags : flags.toNat < 4096) (hpresent : flags &&& I86_PTE_PRESENT ≠ 0)
    (hm : m' = setEntry m (tableOf (entry m dir (PAGE_DIRECTORY_INDEX virt).toNat)) (PAGE_TABLE_INDEX virt).toNat
      (phys ||| flags)) :
    (∀ i < PAGES_PER_TABLE, entry m' dir i = entry m dir i) ∧ MapRight m m' dir virt phys := by
  have hd := PAGE_DIRECTORY_INDEX_lt virt
  have ht := PAGE_TABLE_INDEX_lt virt
  have hout : ∀ x ∉ page (tableOf (entry m dir (PAGE_DIRECTORY_INDEX virt).toNat)), m' x = m x := fun x hx => by
    rw [hm]
    exact setEntry_outside m _ ht hx
  have hdir : ∀ i < PAGES_PER_TABLE, entry m' dir i = entry m dir i := fun i hi =>
    entry_congr (eqOn_of_disjoint hout h.apart) hi
  refine ⟨hdir, fun va hva => ?_, fun va hva => ?_⟩
  · obtain ⟨hsame, htsame⟩ := page_eq_iff.1 hva
    have hpte : entry m' (tableOf (entry m dir (PAGE_DIRECTORY_INDEX virt).toNat)) (PAGE_TABLE_INDEX virt).toNat =
        phys ||| flags := by
      rw [hm, entry_setEntry_self]
    unfold getPhysicalAddress
    rw [hsame, htsame, hdir _ hd, if_neg htable, hpte, if_neg (or_flags_ne_zero hpresent), tableOf_or_flags hphys hflags,
      toNat_add, toNat_PAGE_GET_OFFSET]
    omega
  · refine getPhysicalAddress_congr (hdir _ (PAGE_DIRECTORY_INDEX_lt va)) fun hne => ?_
    by_cases hsame : PAGE_DIRECTORY_INDEX va = PAGE_DIRECTORY_INDEX virt
    · -- another entry of the same table
      have hother : (PAGE_TABLE_INDEX va).toNat ≠ (PAGE_TABLE_INDEX virt).toNat := fun heq =>
        hva (page_eq_iff.2 ⟨hsame, eq_of_toNat_eq heq⟩)
      rw [hsame, hm, entry_setEntry_of_ne _ _ _ hother]
    · refine entry_congr (eqOn_of_disjoint hout (page_disjoint (tableOf_aligned _) (tableOf_aligned _) fun heq => hsame ?_))
        (PAGE_TABLE_INDEX_lt va)
      exact eq_of_toNat_eq (h.once _ (PAGE_DIRECTORY_INDEX_lt va) hne heq.symm)

section Configuration

variable {SKY_EMULATOR : Bool}

/-- **A table is made** where there was none. Nothing is mapped through it. -/
theorem createPageTable_spec (hnone : entry s.memory dir (PAGE_DIRECTORY_INDEX virt).toNat = 0)
    (hapart : ∀ i < PAGES_PER_TABLE, entry s.memory dir i ≠ 0 → Disjoint (page (tableOf (entry s.memory dir i))) (page dir))
    (hblock : newTable SKY_EMULATOR s ≠ 0) (hunused : Unused s.memory dir (newTable SKY_EMULATOR s))
    (haligned : (newTable SKY_EMULATOR s).toNat % 4096 = 0) (hflags : flags.toNat < 4096)
    (hpresent : flags &&& I86_PTE_PRESENT ≠ 0) :
    ∃ m' pmm, createPageTable SKY_EMULATOR s dir virt flags = (true, ⟨m', pmm⟩) ∧
      entry m' dir (PAGE_DIRECTORY_INDEX virt).toNat ≠ 0 ∧ TableApart m' dir (PAGE_DIRECTORY_INDEX virt).toNat ∧
      (Proper s.memory dir → Proper m' dir) ∧ ∀ va, getPhysicalAddress m' dir va = getPhysicalAddress s.memory dir va := by
  have hd := PAGE_DIRECTORY_INDEX_lt virt
  unfold createPageTable
  rw [if_pos hnone, if_neg hblock]
  generalize newTable SKY_EMULATOR s = block at *
  generalize hm : setEntry (fill s.memory block.toNat 0 (4 * PAGES_PER_TABLE)) dir (PAGE_DIRECTORY_INDEX virt).toNat
    (block ||| flags) = m'
  have hself : entry m' dir (PAGE_DIRECTORY_INDEX virt).toNat = block ||| flags := by rw [← hm, entry_setEntry_self]
  have hfill : ∀ x ∉ page block, fill s.memory block.toNat 0 (4 * PAGES_PER_TABLE) x = s.memory x := fun x => fill_outside _
  have hother : ∀ i < PAGES_PER_TABLE, i ≠ (PAGE_DIRECTORY_INDEX virt).toNat → entry m' dir i = entry s.memory dir i :=
    fun i hi hne => by
      rw [← hm, entry_setEntry_of_ne _ _ _ hne]
      exact entry_congr (eqOn_of_disjoint hfill hunused.apart) hi
  have hout : ∀ x ∉ page block, x ∉ page dir → m' x = s.memory x := fun x hx hxdir => by
    rw [← hm, setEntry_outside _ _ hd hxdir, hfill x hx]
  have hempty : ∀ j < PAGES_PER_TABLE, entry m' block j = 0 := fun j hj => by
    rw [← entry_fill s.memory block hj, ← hm]
    exact entry_congr (eqOn_of_disjoint (fun x => setEntry_outside _ _ hd) hunused.apart.symm) hj
  have hnew : ∀ i < PAGES_PER_TABLE, entry m' dir i ≠ 0 → tableOf (entry m' dir i) = block →
      i = (PAGE_DIRECTORY_INDEX virt).toNat := by
    intro i hi hne heq
    by_contra hid
    rw [hother i hi hid] at hne heq
    exact ne_of_page_disjoint (hunused.tables i hi hne) heq.symm
  refine ⟨m', (allocBlock SKY_EMULATOR s.pmm).2, by rw [← hm], ?_, ?_, fun hproper i hi hne => ?_, fun va => ?_⟩
  · rw [hself]
    exact or_flags_ne_zero hpresent
  · refine ⟨?_, ?_⟩ <;> rw [hself, tableOf_or_flags haligned hflags]
    · exact hunused.apart
    · exact hnew
  · by_cases hid : i = (PAGE_DIRECTORY_INDEX virt).toNat
    · refine ⟨?_, ?_⟩ <;> rw [hid, hself, tableOf_or_flags haligned hflags]
      · exact hunused.apart
      · exact hnew
    · have hne' := hne
      rw [hother i hi hid] at hne'
      refine ⟨?_, fun j hj hjne heq => ?_⟩
      · rw [hother i hi hid]
        exact hapart i hi hne'
      · by_cases hjd : j = (PAGE_DIRECTORY_INDEX virt).toNat
        · rw [hjd, hself, tableOf_or_flags haligned hflags] at heq
          exact absurd (hnew i hi hne heq.symm) hid
        · rw [hother j hj hjd] at hjne heq
          rw [hother i hi hid] at heq
          exact (hproper i hi hne').once j hj hjne heq
  · by_cases hsame : PAGE_DIRECTORY_INDEX va = PAGE_DIRECTORY_INDEX virt
    · unfold getPhysicalAddress
      rw [hsame, hnone, if_pos rfl, hself, if_neg (or_flags_ne_zero hpresent), tableOf_or_flags haligned hflags,
        hempty _ (PAGE_TABLE_INDEX_lt va), if_pos rfl]
    · have hva := PAGE_DIRECTORY_INDEX_lt va
      refine getPhysicalAddress_congr (hother _ hva fun heq => hsame (eq_of_toNat_eq heq)) fun hne => ?_
      refine entry_congr (fun x hx => hout x (fun hxb => ?_) fun hxd => ?_) (PAGE_TABLE_INDEX_lt va)
      · exact Set.disjoint_left.1 (hunused.tables _ hva hne) hxb hx
      · exact Set.disjoint_left.1 (hapart _ hva hne) hx hxd

theorem newTable_aligned (s : State) : (newTable false s).toNat % 4096 = 0 := by
  unfold newTable allocBlock
  split
  · rfl
  · cases getFreeFrame s.pmm with
    | none => rfl
    | some frame =>
      show (BitVec.ofNat 32 ((pointer (Machine.u32 (frame * 4096))).getD 0)).toNat % 4096 = 0
      rw [pointer_getD, toNat_ofNat]
      unfold Machine.u32
      omega

theorem Proper.separate (h : Proper m dir) (virt : BitVec 32) : Separate m dir virt := by
  unfold Separate
  rw [shift_eq_PAGE_DIRECTORY_INDEX]
  split
  · exact fun i hi hne => (h i hi hne).apart
  · rename_i hsome
    exact h _ (PAGE_DIRECTORY_INDEX_lt virt) hsome

/-- **Mapping is precise.** Where the table of `virt` is apart, its page is mapped to `phys` and all others as they
were; and a directory whose tables all lie apart stays one. (The frame bitmap lies apart from them all.) -/
theorem mapping_precise {SKY_EMULATOR : Bool} {s : State} {dir virt phys flags : BitVec 32} (h : Separate s.memory dir virt)
    (halloc : TableAllocated SKY_EMULATOR s dir virt)
    (hpage : SKY_EMULATOR = true → (newTable SKY_EMULATOR s).toNat % 4096 = 0)
    (hphys : phys.toNat % 4096 = 0) (hflags : flags.toNat < 4096) (hpresent : flags &&& I86_PTE_PRESENT ≠ 0) :
    let m' := (mapPhysicalAddressToVirtualAddresss SKY_EMULATOR s dir virt phys flags).memory
    MapRight s.memory m' dir virt phys ∧ (Proper s.memory dir → Proper m' dir) := by
  have haligned : (newTable SKY_EMULATOR s).toNat % 4096 = 0 := by
    cases SKY_EMULATOR with
    | false => exact newTable_aligned s
    | true => exact hpage rfl
  unfold mapPhysicalAddressToVirtualAddresss
  unfold Separate at h
  unfold TableAllocated at halloc
  rw [shifts_eq_PAGE_TABLE_INDEX]
  rw [shift_eq_PAGE_DIRECTORY_INDEX] at h halloc ⊢
  split at h
  · rename_i hnone
    obtain ⟨hblock, hunused⟩ := halloc hnone
    obtain ⟨m₁, pmm, hcreate, htable, hapart, hproper, hsame⟩ :=
      createPageTable_spec hnone h hblock hunused haligned hflags hpresent
    obtain ⟨hdir, hright⟩ := setEntry_right hapart htable hphys hflags hpresent rfl
    rw [if_pos hnone, hcreate]
    refine ⟨⟨hright.mapped, fun va hva => (hright.others va hva).trans (hsame va)⟩, fun hp i hi hne => ?_⟩
    rw [hdir i hi] at hne
    exact (hproper hp i hi hne).congr hi hdir
  · rename_i hsome
    obtain ⟨hdir, hright⟩ := setEntry_right h hsome hphys hflags hpresent rfl
    rw [if_neg hsome]
    refine ⟨hright, fun hp i hi hne => ?_⟩
    rw [hdir i hi] at hne
    exact (hp i hi hne).congr hi hdir

@[simp] theorem entry_zero (table : BitVec 32) (i : Nat) : entry (fun _ => 0) table i = 0 := rfl

/-- Nothing is mapped, and the page at `0x2000` is free. -/
def emptyDirectory : State := ⟨fun _ => 0, ⟨31, 32, 0, 1, fun _ => 0xfffffffb#32⟩⟩

theorem mapping_precise_first :
    let m' := (mapPhysicalAddressToVirtualAddresss false emptyDirectory 0x1000#32 0x403000#32 0x5000#32 3#32).memory
    MapRight emptyDirectory.memory m' 0x1000#32 0x403000#32 0x5000#32 ∧
      (Proper emptyDirectory.memory 0x1000#32 → Proper m' 0x1000#32) := by
  have hproper : Proper emptyDirectory.memory 0x1000#32 := fun d _ hne => absurd (entry_zero _ d) hne
  have hblock : newTable false emptyDirectory = 0x2000#32 := by decide +kernel
  refine mapping_precise (hproper.separate _) (fun _ => ?_) nofun (by decide) (by decide) (by decide)
  rw [hblock]
  exact ⟨by decide, page_disjoint (by decide) (by decide) (by decide), fun i _ hne => absurd (entry_zero _ i) hne⟩

/-- Attributes that are part of the address, a table that two entries lead to, and a block of the emulator, in whose
page the bitmap ends. -/
theorem mapping_imprecise :
    (¬ ∀ (s : State) (dir virt phys flags : BitVec 32), Separate s.memory dir virt → TableAllocated false s dir virt →
      phys.toNat % 4096 = 0 → flags &&& I86_PTE_PRESENT ≠ 0 →
        MapRight s.memory (mapPhysicalAddressToVirtualAddresss false s dir virt phys flags).memory dir virt phys) ∧
      (¬ ∀ (s : State) (dir virt phys flags : BitVec 32), TableAllocated false s dir virt → phys.toNat % 4096 = 0 →
        flags.toNat < 4096 → flags &&& I86_PTE_PRESENT ≠ 0 →
          MapRight s.memory (mapPhysicalAddressToVirtualAddresss false s dir virt phys flags).memory dir virt phys) ∧
      ¬ ∀ (s : State) (dir virt phys flags : BitVec 32), Separate s.memory dir virt → TableAllocated true s dir virt →
        phys.toNat % 4096 = 0 → flags.toNat < 4096 → flags &&& I86_PTE_PRESENT ≠ 0 →
          MapRight s.memory (mapPhysicalAddressToVirtualAddresss true s dir virt phys flags).memory dir virt phys := by
  refine ⟨fun h => ?_, fun h => ?_, fun h => ?_⟩
  · have hproper : Proper emptyDirectory.memory 0x1000#32 := fun d _ hne => absurd (entry_zero _ d) hne
    have hblock : newTable false emptyDirectory = 0x2000#32 := by decide +kernel
    have hright := h emptyDirectory 0x1000#32 0#32 0#32 0x1001#32 (hproper.separate _) (fun _ => by
      rw [hblock]
      exact ⟨by decide, page_disjoint (by decide) (by decide) (by decide), fun i _ hne => absurd (entry_zero _ i) hne⟩)
      (by decide) (by decide)
    have hmapped := hright.mapped 0#32 rfl
    revert hmapped
    decide +kernel
  · have hright := h ⟨setEntry (setEntry (fun _ => 0) 0x1000#32 0 0x2001#32) 0x1000#32 1 0x2001#32, emptyDirectory.pmm⟩
      0x1000#32 0#32 0x5000#32 1#32 (fun hnone => absurd hnone (by decide +kernel)) (by decide) (by decide) (by decide)
    have hother := hright.others 0x400000#32 (by decide)
    revert hother
    decide +kernel
  · have hentry : ∀ i < PAGES_PER_TABLE, entry (setEntry (fun _ => 0) 0x2000#32 0 0xfffffffe#32) 0x1000#32 i = 0 :=
        fun i hi =>
      (entry_congr (eqOn_of_disjoint (fun x => setEntry_outside _ _ (by decide))
        (page_disjoint (by decide) (by decide) (by decide))) hi).trans (entry_zero _ i)
    have hproper : Proper (setEntry (fun _ => 0) 0x2000#32 0 0xfffffffe#32) 0x1000#32 := fun d hd hne =>
      absurd (hentry d hd) hne
    have hblock : newTable true ⟨setEntry (fun _ => 0) 0x2000#32 0 0xfffffffe#32,
      ⟨31, 32, 0x2000, 1, fun _ => 0xfffffffe#32⟩⟩ =
        0x2004#32 := by decide +kernel
    have hright := h ⟨setEntry (fun _ => 0) 0x2000#32 0 0xfffffffe#32, ⟨31, 32, 0x2000, 1, fun _ => 0xfffffffe#32⟩⟩
      0x1000#32 0x1000#32 0x5000#32 1#32 (hproper.separate _) (fun _ => by
      rw [hblock]
      refine ⟨by decide, ?_, fun i hi hne => absurd (hentry i hi) hne⟩
      rw [Set.disjoint_left]
      rintro x ⟨hlow, -⟩ ⟨-, hhigh⟩
      have : 0x2004 ≤ x := hlow
      have : x < 0x1000 + 4 * 1024 := hhigh
      omega) (by decide) (by decide) (by decide)
    have hother := hright.others 0#32 (by decide)
    revert hother
    decide +kernel

end Configuration

end VirtualMemoryManager
