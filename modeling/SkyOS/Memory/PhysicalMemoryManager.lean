import SkyOS.Lib.Bitmap
import SkyOS.Lib.Machine
import SkyOS.Lib.StepSystem

/-!
# `PhysicalMemoryManager` (`PhysicalMemoryManager.cpp`): the frame bitmap

`Initialize` marks every block and then unmarks what lies behind the bitmap; the allocators look for clear bits
in the whole words below `m_maxBlocks`. The invariant says which blocks can be clear at all: those from
`firstBlock` to `lastBlock`, both far below `2^20`, so no frame number wraps and no bound of a search matters.

Both configurations are modelled. With `SKY_EMULATOR` addresses count from the end of the bitmap.

| here | there |
| --- | --- |
| `memoryMap i` | `m_pMemoryMap[i]`, any number of words |
| `none` | `NULL`, also as the address of block 0; `return 0xffffffff` |
| `blockOf` | the frame an address denotes, as `FreeBlock` computes it |
| `Run.live` | the blocks handed out and not freed, one entry for each time: history |
-/

namespace PhysicalMemoryManager

open Machine Bitmap List

def PMM_BLOCK_SIZE : Nat := 4096
def PMM_BITS_PER_INDEX : Nat := 32

/-- `_memorySize` and `_kernelSize` have 64 bits; `rangeBegin` is `allocatedRange[0].begin`. -/
structure BootParams where
  memorySize : Nat
  kernelBase : Nat
  kernelSize : Nat
  rangeBegin : Nat
deriving DecidableEq, Repr

structure State where
  m_usedBlocks : Nat
  m_maxBlocks : Nat
  m_pMemoryMap : Nat
  m_memoryMapSize : Nat
  memoryMap : Nat → BitVec 32

def setBit (s : State) (bit : Nat) : State := { s with memoryMap := mark s.memoryMap bit }

def unsetBit (s : State) (bit : Nat) : State := { s with memoryMap := unmark s.memoryMap bit }

def testMemoryMap (s : State) (bit : Nat) : Bool :=
  decide (s.memoryMap (bit / 32) &&& 1#32 <<< (bit % 32) > 0#32)

/-- `SetMemoryAvailable` (:261). -/
def setMemoryAvailable (s : State) (base size : Nat) (unset : Bool) : State :=
  let startBlock := base / PMM_BLOCK_SIZE
  let endBlock := u32 (base + size) / PMM_BLOCK_SIZE
  (List.range (endBlock - startBlock)).foldl (fun s i =>
    if unset then { unsetBit s (startBlock + i) with m_usedBlocks := sub32 s.m_usedBlocks 1 }
    else { setBit s (startBlock + i) with m_usedBlocks := u32 (s.m_usedBlocks + 1) }) s

/-- The two loops both searches share: the first clear bit of the whole words at which `found` returns. -/
def scan {β : Type} (s : State) (found : Nat → Option β) : Option β :=
  (List.range (s.m_maxBlocks / PMM_BITS_PER_INDEX)).findSome? fun i =>
    if s.memoryMap i ≠ 0xffffffff#32 then
      (List.range PMM_BITS_PER_INDEX).findSome? fun j =>
        if s.memoryMap i &&& 1#32 <<< j = 0#32 then found (i * PMM_BITS_PER_INDEX + j) else none
    else none

/-- `GetFreeFrame` (:198). -/
def getFreeFrame (s : State) : Option Nat := scan s some

/-- The `count` loop of `GetFreeFrames` (:237): `some none` is its `return 0xffffffff`, `none` goes on. -/
def countFree (s : State) (startingBit size : Nat) : (left count free : Nat) → Option (Option Nat)
  | 0, _, _ => none
  | left + 1, count, free =>
    if startingBit + count ≥ s.m_maxBlocks then some none
    else if testMemoryMap s (startingBit + count) then none
    else if free + 1 = size then some (some startingBit)
    else countFree s startingBit size left (count + 1) (free + 1)

/-- `GetFreeFrames` (:215). -/
def getFreeFrames (s : State) (size : Nat) : Option Nat :=
  if size = 0 then none
  else if size = 1 then getFreeFrame s
  else (scan s fun startingBit => countFree s startingBit size size 0 0).join

def baseIOMemory (s : State) : Nat := u32 (s.m_pMemoryMap + s.m_memoryMapSize * 4)

section Configuration

variable (SKY_EMULATOR : Bool)

def blockAddress (s : State) (frame : Nat) : Nat :=
  if SKY_EMULATOR then u32 (baseIOMemory s + frame * PMM_BLOCK_SIZE) else u32 (frame * PMM_BLOCK_SIZE)

def blockOf (s : State) (pa : Nat) : Nat :=
  (if SKY_EMULATOR then sub32 pa (baseIOMemory s) else pa) / PMM_BLOCK_SIZE

/-- An address as the pointer that is returned: 0 is `NULL`. -/
def pointer (address : Nat) : Option Nat := if address = 0 then none else some address

/-! `Initialize` (:43), value by value. -/

def maxBlocks (boot : BootParams) : Nat := u32 (boot.memorySize / PMM_BLOCK_SIZE)

def memoryMapSize (boot : BootParams) : Nat :=
  maxBlocks boot / PMM_BITS_PER_INDEX + if maxBlocks boot % PMM_BITS_PER_INDEX ≠ 0 then 1 else 0

def memoryMapAddress (boot : BootParams) : Nat :=
  if SKY_EMULATOR then u32 boot.rangeBegin else u32 (boot.kernelBase + boot.kernelSize)

/-- Where the bitmap ends (:77). -/
def availablePoint (boot : BootParams) : Nat := u32 (memoryMapAddress SKY_EMULATOR boot + memoryMapSize boot * 4)

/-- The state after `memset`, on memory that held `before`: every block is in use. -/
def filled (boot : BootParams) (before : Nat → BitVec 32) : State where
  m_usedBlocks := maxBlocks boot
  m_maxBlocks := maxBlocks boot
  m_pMemoryMap := memoryMapAddress SKY_EMULATOR boot
  m_memoryMapSize := memoryMapSize boot
  memoryMap i := if i < memoryMapSize boot then 0xffffffff#32 else before i

def initializePMM (boot : BootParams) (before : Nat → BitVec 32) : State :=
  setMemoryAvailable (filled SKY_EMULATOR boot before) (availablePoint SKY_EMULATOR boot)
    (sub32 boot.memorySize (availablePoint SKY_EMULATOR boot)) true

/-- `AllocBlock` (:98). -/
def allocBlock (s : State) : Option Nat × State :=
  if sub32 s.m_maxBlocks s.m_usedBlocks ≤ 0 then (none, s)
  else
    match getFreeFrame s with
    | none => (none, s)
    | some frame =>
      (pointer (blockAddress SKY_EMULATOR s frame), { setBit s frame with m_usedBlocks := u32 (s.m_usedBlocks + 1) })

/-- `FreeBlock` (:124). -/
def freeBlock (s : State) (pa : Nat) : State :=
  { unsetBit s (blockOf SKY_EMULATOR s pa) with m_usedBlocks := sub32 s.m_usedBlocks 1 }

/-- `AllocBlocks` (:141). -/
def allocBlocks (s : State) (size : Nat) : Option Nat × State :=
  if sub32 s.m_maxBlocks s.m_usedBlocks ≤ size then (none, s)
  else
    match getFreeFrames s size with
    | none => (none, s)
    | some frame =>
      (pointer (blockAddress SKY_EMULATOR s frame),
        { (List.range size).foldl (fun s i => setBit s (frame + i)) s with
          m_usedBlocks := u32 (s.m_usedBlocks + size) })

end Configuration

/-- `FreeBlocks` (:174): the same in both configurations. -/
def freeBlocks (s : State) (pa size : Nat) : State :=
  let frame := pa / PMM_BLOCK_SIZE
  { (List.range size).foldl (fun s i => unsetBit s (frame + i)) s with m_usedBlocks := sub32 s.m_usedBlocks size }

/-! ## Runs -/

structure Run extends State where
  live : List Nat

inductive Call where
  | allocBlock
  | allocBlocks (size : Nat)
  | freeBlock (pa : Nat)
  | freeBlocks (pa size : Nat)
deriving DecidableEq, Repr

section System

variable (SKY_EMULATOR : Bool)

/-- The blocks from the one that `pa` denotes. -/
def blocksAt (s : State) (pa size : Nat) : List Nat := (List.range size).map (blockOf SKY_EMULATOR s pa + ·)

def Call.legal (r : Run) : Call → Prop
  | .allocBlock | .allocBlocks _ => True
  | .freeBlock pa => blockOf SKY_EMULATOR r.toState pa ∈ r.live
  | .freeBlocks pa size => ∀ frame ∈ blocksAt SKY_EMULATOR r.toState pa size, frame ∈ r.live

def perform (r : Run) : Call → Run
  | .allocBlock =>
    let (pa, s) := allocBlock SKY_EMULATOR r.toState
    ⟨s, pa.elim [] (blocksAt SKY_EMULATOR s · 1) ++ r.live⟩
  | .allocBlocks size =>
    let (pa, s) := allocBlocks SKY_EMULATOR r.toState size
    ⟨s, pa.elim [] (blocksAt SKY_EMULATOR s · size) ++ r.live⟩
  | .freeBlock pa => ⟨freeBlock SKY_EMULATOR r.toState pa, r.live.diff (blocksAt SKY_EMULATOR r.toState pa 1)⟩
  | .freeBlocks pa size => ⟨freeBlocks r.toState pa size, r.live.diff (blocksAt SKY_EMULATOR r.toState pa size)⟩

instance (r : Run) : (c : Call) → Decidable (c.legal SKY_EMULATOR r)
  | .allocBlock | .allocBlocks _ => .isTrue trivial
  | .freeBlock _ => inferInstanceAs (Decidable (_ ∈ _))
  | .freeBlocks .. => inferInstanceAs (Decidable (∀ _ ∈ _, _))

def step (r : Run) (c : Call) : Option Run :=
  if c.legal SKY_EMULATOR r then some (perform SKY_EMULATOR r c) else none

def system (boot : BootParams) : StepSystem Run Call where
  init r := r.live = [] ∧ ∃ before, r.toState = initializePMM SKY_EMULATOR boot before
  step := step SKY_EMULATOR

/-- `FreeBlocks` takes the blocks that its address denotes. -/
def takesItsBlocks (r : Run) : Call → Prop
  | .freeBlocks pa size => size = 0 ∨ pa / PMM_BLOCK_SIZE = blockOf SKY_EMULATOR r.toState pa
  | .allocBlock | .allocBlocks _ | .freeBlock _ => True

instance (r : Run) : (c : Call) → Decidable (takesItsBlocks SKY_EMULATOR r c)
  | .freeBlocks .. => inferInstanceAs (Decidable (_ ∨ _))
  | .allocBlock | .allocBlocks _ | .freeBlock _ => .isTrue trivial

end System

/-! ## The searches -/

theorem testMemoryMap_eq (s : State) (b : Nat) : testMemoryMap s b = bit s.memoryMap b := by
  have hlt : b % 32 < 32 := Nat.mod_lt b (by decide)
  have hzero := and_one_shiftLeft_eq_zero hlt (s.memoryMap (b / 32))
  have hpos := BitVec.pos_iff_ne_zero (s.memoryMap (b / 32) &&& 1#32 <<< (b % 32))
  rw [Bool.eq_iff_iff, testMemoryMap, decide_eq_true_iff, gt_iff_lt, hpos, Ne, hzero, bit, Bool.not_eq_false]

variable {j size frame : Nat} {β : Type} {s : State}

theorem bit_word (s : State) (i : Nat) (hj : j < PMM_BITS_PER_INDEX) :
    bit s.memoryMap (i * PMM_BITS_PER_INDEX + j) = (s.memoryMap i).getLsbD j := by
  unfold PMM_BITS_PER_INDEX at *
  have hdiv : (i * 32 + j) / 32 = i := by omega
  have hmod : (i * 32 + j) % 32 = j := by omega
  rw [bit, hdiv, hmod]

theorem word_clear_iff (s : State) (i : Nat) (hj : j < PMM_BITS_PER_INDEX) :
    s.memoryMap i &&& 1#32 <<< j = 0#32 ↔ bit s.memoryMap (i * PMM_BITS_PER_INDEX + j) = false := by
  have hj' : j < 32 := hj
  rw [bit_word s i hj, and_one_shiftLeft_eq_zero hj']

variable {found : Nat → Option β}

theorem scan_word_none {i : Nat} (hj : j < PMM_BITS_PER_INDEX)
    (h : (if s.memoryMap i ≠ 0xffffffff#32 then
      (List.range PMM_BITS_PER_INDEX).findSome? fun j =>
        if s.memoryMap i &&& 1#32 <<< j = 0#32 then found (i * PMM_BITS_PER_INDEX + j) else none
      else none) = none)
    (hbit : bit s.memoryMap (i * PMM_BITS_PER_INDEX + j) = false) : found (i * PMM_BITS_PER_INDEX + j) = none := by
  have hclear := (word_clear_iff s i hj).2 hbit
  split at h
  · have hnone := List.findSome?_eq_none_iff.1 h j (mem_range.2 hj)
    rwa [if_pos hclear] at hnone
  · rename_i hfull
    rw [not_not] at hfull
    have hones : (0xffffffff#32).getLsbD j = true := by
      have hall : 0xffffffff#32 = BitVec.allOnes 32 := by decide
      rw [hall, BitVec.getLsbD_allOnes]
      exact decide_eq_true hj
    rw [bit_word s i hj, hfull, hones] at hbit
    cases hbit

theorem index_eq (f : Nat) : f / PMM_BITS_PER_INDEX * PMM_BITS_PER_INDEX + f % PMM_BITS_PER_INDEX = f := by
  unfold PMM_BITS_PER_INDEX
  omega

theorem scan_none (h : scan s found = none) :
    ∀ f < s.m_maxBlocks / PMM_BITS_PER_INDEX * PMM_BITS_PER_INDEX, bit s.memoryMap f = false → found f = none := by
  intro f hf hbit
  have hi : f / PMM_BITS_PER_INDEX < s.m_maxBlocks / PMM_BITS_PER_INDEX := by
    unfold PMM_BITS_PER_INDEX at *
    omega
  have hj : f % PMM_BITS_PER_INDEX < PMM_BITS_PER_INDEX := Nat.mod_lt f (by decide)
  have hword := List.findSome?_eq_none_iff.1 h _ (mem_range.2 hi)
  rw [← index_eq f] at hbit ⊢
  exact scan_word_none hj hword hbit

theorem scan_some {b : β} (h : scan s found = some b) :
    ∃ f < s.m_maxBlocks / PMM_BITS_PER_INDEX * PMM_BITS_PER_INDEX, bit s.memoryMap f = false ∧ found f = some b ∧
      ∀ g < f, bit s.memoryMap g = false → found g = none := by
  obtain ⟨i, hi, hword, hbefore⟩ := findSome_range h
  obtain ⟨-, hword⟩ := Option.ite_none_right_eq_some.1 hword
  obtain ⟨j, hj, hbit, hbits⟩ := findSome_range hword
  obtain ⟨hclear, hfound⟩ := Option.ite_none_right_eq_some.1 hbit
  have hbit := (word_clear_iff s i hj).1 hclear
  refine ⟨i * PMM_BITS_PER_INDEX + j, ?_, hbit, hfound, ?_⟩
  · unfold PMM_BITS_PER_INDEX at *
    omega
  · intro g hg hgbit
    have hgj : g % PMM_BITS_PER_INDEX < PMM_BITS_PER_INDEX := Nat.mod_lt g (by decide)
    rw [← index_eq g] at hgbit ⊢
    by_cases hsame : g / PMM_BITS_PER_INDEX = i
    · -- an earlier bit of the same word
      have hgj' : g % PMM_BITS_PER_INDEX < j := by
        unfold PMM_BITS_PER_INDEX at *
        omega
      rw [hsame] at hgbit ⊢
      have hnone := hbits _ hgj'
      rwa [if_pos ((word_clear_iff s i hgj).2 hgbit)] at hnone
    · have hgi : g / PMM_BITS_PER_INDEX < i := by
        unfold PMM_BITS_PER_INDEX at *
        omega
      exact scan_word_none hgj (hbefore _ hgi) hgbit

theorem countFree_spec {startingBit : Nat} : ∀ {left count free : Nat} {frame : Nat}, free = count →
    count + left = size → (∀ k < count, bit s.memoryMap (startingBit + k) = false ∧ startingBit + k < s.m_maxBlocks) →
    countFree s startingBit size left count free = some (some frame) →
    frame = startingBit ∧ ∀ k < size, bit s.memoryMap (startingBit + k) = false ∧ startingBit + k < s.m_maxBlocks
  | 0, _, _, _, _, _, _, h => by cases h
  | left + 1, count, free, frame, hfree, hsize, hpast, h => by
    rw [countFree] at h
    split at h
    · cases h
    rename_i hinside
    split at h
    · cases h
    rename_i hclear
    rw [testMemoryMap_eq, Bool.not_eq_true] at hclear
    have hnext : ∀ k < count + 1,
        bit s.memoryMap (startingBit + k) = false ∧ startingBit + k < s.m_maxBlocks := by
      intro k hk
      rcases Nat.lt_succ_iff_lt_or_eq.1 hk with hlt | rfl
      · exact hpast k hlt
      · exact ⟨hclear, by omega⟩
    split at h
    · rename_i hdone
      cases h
      refine ⟨rfl, ?_⟩
      intro k hk
      exact hnext k (by omega)
    · exact countFree_spec (by omega) (by omega) hnext h

theorem getFreeFrame_some (h : getFreeFrame s = some frame) :
    frame < s.m_maxBlocks / PMM_BITS_PER_INDEX * PMM_BITS_PER_INDEX ∧ bit s.memoryMap frame = false ∧
      ∀ g < frame, bit s.memoryMap g = true := by
  obtain ⟨f, hf, hbit, hfound, hbefore⟩ := scan_some h
  cases hfound
  refine ⟨hf, hbit, ?_⟩
  intro g hg
  by_contra hclear
  have hnone := hbefore g hg (Bool.not_eq_true _ ▸ hclear)
  cases hnone

theorem getFreeFrames_some (h : getFreeFrames s size = some frame) :
    0 < size ∧ frame < s.m_maxBlocks / PMM_BITS_PER_INDEX * PMM_BITS_PER_INDEX ∧
      ∀ k < size, bit s.memoryMap (frame + k) = false ∧ frame + k < s.m_maxBlocks := by
  unfold getFreeFrames at h
  split at h
  · cases h
  rename_i hne
  split at h
  · rename_i hone
    subst hone
    obtain ⟨hlt, hbit, -⟩ := getFreeFrame_some h
    refine ⟨by decide, hlt, ?_⟩
    intro k hk
    obtain rfl : k = 0 := by omega
    refine ⟨hbit, ?_⟩
    unfold PMM_BITS_PER_INDEX at hlt
    omega
  · obtain ⟨f, hf, -, hfound, -⟩ := scan_some (Option.join_eq_some_iff.1 h)
    obtain ⟨rfl, hall⟩ := countFree_spec rfl (by omega) (fun k hk => absurd hk (by omega)) hfound
    exact ⟨by omega, hf, hall⟩

/-! ## What the calls do -/

theorem foldl_setBit (s : State) (frame n : Nat) :
    (List.range n).foldl (fun s i => setBit s (frame + i)) s = { s with memoryMap := markRange s.memoryMap frame n } := by
  induction n with
  | zero => rfl
  | succ n ih =>
    rw [range_succ, foldl_append, ih, markRange_succ]
    rfl

theorem foldl_unsetBit (s : State) (frame n : Nat) :
    (List.range n).foldl (fun s i => unsetBit s (frame + i)) s =
      { s with memoryMap := unmarkRange s.memoryMap frame n } := by
  induction n with
  | zero => rfl
  | succ n ih =>
    rw [range_succ, foldl_append, ih, unmarkRange_succ]
    rfl

theorem setMemoryAvailable_eq {base : Nat} (hused : s.m_usedBlocks < 2 ^ 32)
    (hle : u32 (base + size) / PMM_BLOCK_SIZE - base / PMM_BLOCK_SIZE ≤ s.m_usedBlocks) :
    setMemoryAvailable s base size true = { s with
      memoryMap := unmarkRange s.memoryMap (base / PMM_BLOCK_SIZE)
        (u32 (base + size) / PMM_BLOCK_SIZE - base / PMM_BLOCK_SIZE),
      m_usedBlocks := s.m_usedBlocks - (u32 (base + size) / PMM_BLOCK_SIZE - base / PMM_BLOCK_SIZE) } := by
  unfold setMemoryAvailable
  dsimp only
  generalize u32 (base + size) / PMM_BLOCK_SIZE - base / PMM_BLOCK_SIZE = n at hle ⊢
  induction n with
  | zero => rfl
  | succ n ih =>
    rw [range_succ, foldl_append, ih (by omega), unmarkRange_succ, foldl_cons, foldl_nil,
      if_pos rfl]
    have hsub : sub32 (s.m_usedBlocks - n) 1 = s.m_usedBlocks - (n + 1) := by
      rw [sub32_of_le (by omega) (by omega)]
      omega
    simp only [unsetBit, hsub]

section Configuration

variable (SKY_EMULATOR : Bool)

/-- A successful allocation: `size` blocks from `frame` were free, and are marked and counted. -/
structure Takes (s : State) (frame size pa : Nat) (s' : State) : Prop where
  free : ∀ k < size, bit s.memoryMap (frame + k) = false ∧ frame + k < s.m_maxBlocks
  pos : 0 < size
  whole : frame < s.m_maxBlocks / PMM_BITS_PER_INDEX * PMM_BITS_PER_INDEX
  address : pa = blockAddress SKY_EMULATOR s frame
  next : s' = { s with memoryMap := markRange s.memoryMap frame size, m_usedBlocks := u32 (s.m_usedBlocks + size) }

variable {SKY_EMULATOR}

variable {s' : State} {pa : Nat} {boot : BootParams} {r : Run}

@[simp] theorem pointer_getD (address : Nat) : (pointer address).getD 0 = address := by
  unfold pointer
  split
  · rename_i hzero
    exact hzero.symm
  · rfl

theorem pointer_some {address : Nat} (h : pointer address = some pa) : address = pa ∧ pa ≠ 0 := by
  obtain ⟨hne, heq⟩ := Option.ite_none_left_eq_some.1 h
  cases heq
  exact ⟨rfl, hne⟩

theorem pointer_none {address : Nat} (h : pointer address = none) : address = 0 := by
  by_contra hne
  rw [pointer, if_neg hne] at h
  cases h

theorem allocBlock_cases (SKY_EMULATOR : Bool) (s : State) : allocBlock SKY_EMULATOR s = (none, s) ∨
    ∃ frame s', allocBlock SKY_EMULATOR s = (pointer (blockAddress SKY_EMULATOR s frame), s') ∧
      Takes SKY_EMULATOR s frame 1 (blockAddress SKY_EMULATOR s frame) s' := by
  unfold allocBlock
  split
  · exact .inl rfl
  split
  · exact .inl rfl
  · rename_i frame hframe
    obtain ⟨hlt, hbit, -⟩ := getFreeFrame_some hframe
    refine .inr ⟨frame, _, rfl, ?_, by decide, hlt, rfl, rfl⟩
    intro k hk
    obtain rfl : k = 0 := by omega
    refine ⟨hbit, ?_⟩
    unfold PMM_BITS_PER_INDEX at hlt
    omega

theorem allocBlocks_cases (SKY_EMULATOR : Bool) (s : State) (size : Nat) : allocBlocks SKY_EMULATOR s size = (none, s) ∨
    ∃ frame s', allocBlocks SKY_EMULATOR s size = (pointer (blockAddress SKY_EMULATOR s frame), s') ∧
      Takes SKY_EMULATOR s frame size (blockAddress SKY_EMULATOR s frame) s' := by
  unfold allocBlocks
  split
  · exact .inl rfl
  split
  · exact .inl rfl
  · rename_i frame hframe
    obtain ⟨hpos, hlt, hfree⟩ := getFreeFrames_some hframe
    rw [foldl_setBit]
    exact .inr ⟨frame, _, rfl, hfree, hpos, hlt, rfl, rfl⟩

theorem allocBlock_some (h : allocBlock SKY_EMULATOR s = (some pa, s')) :
    ∃ frame, Takes SKY_EMULATOR s frame 1 pa s' := by
  obtain hnone | ⟨frame, s₁, hres, ht⟩ := allocBlock_cases SKY_EMULATOR s
  · rw [hnone] at h
    cases h
  · rw [hres] at h
    obtain ⟨hpointer, rfl⟩ := Prod.mk.inj h
    exact ⟨frame, (pointer_some hpointer).1 ▸ ht⟩

theorem allocBlock_ne_zero (h : allocBlock SKY_EMULATOR s = (some pa, s')) : pa ≠ 0 := by
  obtain hnone | ⟨frame, s₁, hres, -⟩ := allocBlock_cases SKY_EMULATOR s
  · rw [hnone] at h
    cases h
  · rw [hres] at h
    exact (pointer_some (Prod.mk.inj h).1).2

theorem allocBlock_none (h : allocBlock SKY_EMULATOR s = (none, s')) : s' = s ∨
    ∃ frame, Takes SKY_EMULATOR s frame 1 0 s' := by
  obtain hnone | ⟨frame, s₁, hres, ht⟩ := allocBlock_cases SKY_EMULATOR s
  · rw [hnone] at h
    exact .inl (Prod.mk.inj h).2.symm
  · rw [hres] at h
    obtain ⟨hpointer, rfl⟩ := Prod.mk.inj h
    exact .inr ⟨frame, pointer_none hpointer ▸ ht⟩

theorem allocBlocks_some (h : allocBlocks SKY_EMULATOR s size = (some pa, s')) :
    ∃ frame, Takes SKY_EMULATOR s frame size pa s' := by
  obtain hnone | ⟨frame, s₁, hres, ht⟩ := allocBlocks_cases SKY_EMULATOR s size
  · rw [hnone] at h
    cases h
  · rw [hres] at h
    obtain ⟨hpointer, rfl⟩ := Prod.mk.inj h
    exact ⟨frame, (pointer_some hpointer).1 ▸ ht⟩

theorem allocBlocks_ne_zero (h : allocBlocks SKY_EMULATOR s size = (some pa, s')) : pa ≠ 0 := by
  obtain hnone | ⟨frame, s₁, hres, -⟩ := allocBlocks_cases SKY_EMULATOR s size
  · rw [hnone] at h
    cases h
  · rw [hres] at h
    exact (pointer_some (Prod.mk.inj h).1).2

theorem allocBlocks_none (h : allocBlocks SKY_EMULATOR s size = (none, s')) :
    s' = s ∨ ∃ frame, Takes SKY_EMULATOR s frame size 0 s' := by
  obtain hnone | ⟨frame, s₁, hres, ht⟩ := allocBlocks_cases SKY_EMULATOR s size
  · rw [hnone] at h
    exact .inl (Prod.mk.inj h).2.symm
  · rw [hres] at h
    obtain ⟨hpointer, rfl⟩ := Prod.mk.inj h
    exact .inr ⟨frame, pointer_none hpointer ▸ ht⟩

theorem freeBlock_eq (s : State) (pa : Nat) : freeBlock SKY_EMULATOR s pa = { s with
    memoryMap := unmarkRange s.memoryMap (blockOf SKY_EMULATOR s pa) 1, m_usedBlocks := sub32 s.m_usedBlocks 1 } := rfl

theorem freeBlocks_eq (s : State) (pa size : Nat) : freeBlocks s pa size = { s with
    memoryMap := unmarkRange s.memoryMap (pa / PMM_BLOCK_SIZE) size, m_usedBlocks := sub32 s.m_usedBlocks size } := by
  unfold freeBlocks
  dsimp only
  rw [foldl_unsetBit]

theorem blockOf_blockAddress (s s' : State) (hbase : baseIOMemory s' = baseIOMemory s)
    (h : frame < 2 ^ 20) : blockOf SKY_EMULATOR s' (blockAddress SKY_EMULATOR s frame) = frame := by
  unfold blockOf blockAddress PMM_BLOCK_SIZE
  rw [hbase]
  cases SKY_EMULATOR with
  | false =>
    simp only [Bool.false_eq_true, if_false, u32]
    omega
  | true =>
    simp only [if_true, u32, sub32]
    omega

/-! ## The invariant -/

variable (SKY_EMULATOR)

/-- The blocks that `SetMemoryAvailable` unmarks. -/
def firstBlock (boot : BootParams) : Nat := availablePoint SKY_EMULATOR boot / PMM_BLOCK_SIZE

def lastBlock (boot : BootParams) : Nat := u32 boot.memorySize / PMM_BLOCK_SIZE

structure Inv (boot : BootParams) (r : Run) : Prop where
  max : r.m_maxBlocks = maxBlocks boot
  base : baseIOMemory r.toState = availablePoint SKY_EMULATOR boot
  count : r.m_usedBlocks = (ones r.memoryMap r.m_maxBlocks).card
  nodup : r.live.Nodup
  used : ∀ f ∈ r.live, bit r.memoryMap f = true ∧ firstBlock SKY_EMULATOR boot ≤ f ∧ f < lastBlock boot
  free : ∀ f < r.m_maxBlocks, bit r.memoryMap f = false → firstBlock SKY_EMULATOR boot ≤ f ∧ f < lastBlock boot

variable {SKY_EMULATOR}

theorem lastBlock_le (boot : BootParams) : lastBlock boot ≤ maxBlocks boot := by
  unfold lastBlock maxBlocks u32 PMM_BLOCK_SIZE
  omega

theorem lastBlock_lt (boot : BootParams) : lastBlock boot < 2 ^ 20 := by
  unfold lastBlock u32 PMM_BLOCK_SIZE
  omega

theorem maxBlocks_lt (boot : BootParams) : maxBlocks boot < 2 ^ 32 := u32_lt _

theorem Inv.used_le (h : Inv SKY_EMULATOR boot r) : r.m_usedBlocks ≤ r.m_maxBlocks := by
  have hcard := Finset.card_filter_le (Finset.range r.m_maxBlocks) fun n => bit r.memoryMap n = true
  rw [Finset.card_range] at hcard
  rw [h.count]
  exact hcard

theorem inv_take (h : Inv SKY_EMULATOR boot r)
    (ht : Takes SKY_EMULATOR r.toState frame size pa s') :
    blockOf SKY_EMULATOR s' pa = frame ∧
      Inv SKY_EMULATOR boot ⟨s', blocksAt SKY_EMULATOR s' pa size ++ r.live⟩ := by
  have hspan : ∀ k < size, firstBlock SKY_EMULATOR boot ≤ frame + k ∧ frame + k < lastBlock boot := by
    intro k hk
    obtain ⟨hbit, hlt⟩ := ht.free k hk
    exact h.free _ hlt hbit
  have hlast := lastBlock_lt boot
  have hmax := maxBlocks_lt boot
  have hblock : blockOf SKY_EMULATOR s' pa = frame := by
    rw [ht.address]
    have hframe := (hspan 0 ht.pos).2
    refine blockOf_blockAddress r.toState s' ?_ (by omega)
    rw [ht.next]
    rfl
  have hend : frame + size ≤ r.m_maxBlocks := by
    have hpos := ht.pos
    have hlt := (ht.free (size - 1) (by omega)).2
    omega
  have hcard := card_ones_markRange hend (m := r.memoryMap) (fun i hi hi' => by
    have hbit := (ht.free (i - frame) (by omega)).1
    rwa [show frame + (i - frame) = i by omega] at hbit)
  refine ⟨hblock, ?_⟩
  unfold blocksAt
  rw [hblock, ht.next]
  refine ⟨h.max, h.base, ?_, ?_, ?_, ?_⟩
  · show u32 (r.m_usedBlocks + size) = _
    have hle : (ones (markRange r.memoryMap frame size) r.m_maxBlocks).card ≤ r.m_maxBlocks := by
      have hfilter := Finset.card_filter_le (Finset.range r.m_maxBlocks)
        fun n => bit (markRange r.memoryMap frame size) n = true
      rwa [Finset.card_range] at hfilter
    have hm := h.max
    rw [h.count, ← hcard, u32_of_lt (by omega)]
  · show (List.map _ _ ++ r.live).Nodup
    rw [nodup_append]
    refine ⟨nodup_range.map fun a b hab => by simpa using hab, h.nodup, ?_⟩
    rintro f hf g hg rfl
    obtain ⟨k, hk, rfl⟩ := mem_map.1 hf
    have hfree := (ht.free k (mem_range.1 hk)).1
    rw [(h.used _ hg).1] at hfree
    cases hfree
  · intro f hf
    rw [bit_markRange, Bool.or_eq_true, decide_eq_true_iff]
    rcases mem_append.1 hf with hnew | hold
    · obtain ⟨k, hk, rfl⟩ := mem_map.1 hnew
      rw [mem_range] at hk
      exact ⟨.inl ⟨by omega, by omega⟩, hspan k hk⟩
    · obtain ⟨hbit, hin⟩ := h.used f hold
      exact ⟨.inr hbit, hin⟩
  · intro f hf hbit
    replace hbit : bit (markRange r.memoryMap frame size) f = false := hbit
    rw [bit_markRange, Bool.or_eq_false_iff] at hbit
    exact h.free f hf hbit.2

theorem Inv.unreturned {frames live : List Nat} {s : State} (h : Inv SKY_EMULATOR boot ⟨s, frames ++ live⟩) :
    Inv SKY_EMULATOR boot ⟨s, live⟩ :=
  ⟨h.max, h.base, h.count, (nodup_append.1 h.nodup).2.1, fun f hf => h.used f (mem_append_right _ hf), h.free⟩

theorem inv_give (h : Inv SKY_EMULATOR boot r)
    (hlive : ∀ f ∈ (List.range size).map (frame + ·), f ∈ r.live) :
    Inv SKY_EMULATOR boot ⟨{ r.toState with
      memoryMap := unmarkRange r.memoryMap frame size, m_usedBlocks := sub32 r.m_usedBlocks size },
      r.live.diff ((List.range size).map (frame + ·))⟩ := by
  have hused : ∀ i, frame ≤ i → i < frame + size →
      bit r.memoryMap i = true ∧ firstBlock SKY_EMULATOR boot ≤ i ∧ i < lastBlock boot := by
    intro i hi hi'
    apply h.used
    apply hlive
    exact mem_map.2 ⟨i - frame, mem_range.2 (by omega), by omega⟩
  have hmax := maxBlocks_lt boot
  have hle := lastBlock_le boot
  have hm := h.max
  have husedle := h.used_le
  refine ⟨h.max, h.base, ?_, h.nodup.diff, ?_, ?_⟩
  · show sub32 r.m_usedBlocks size = _
    by_cases hzero : size = 0
    · subst hzero
      rw [sub32_of_le (Nat.zero_le _) (by omega)]
      exact h.count
    have hend : frame + size ≤ r.m_maxBlocks := by
      have hlt := (hused (frame + size - 1) (by omega) (by omega)).2
      omega
    have hcard := card_ones_unmarkRange hend fun i hi hi' => (hused i hi hi').1
    have hcount := h.count
    rw [sub32_of_le (by omega) (by omega)]
    show r.m_usedBlocks - size = (ones (unmarkRange r.memoryMap frame size) r.m_maxBlocks).card
    omega
  · intro f hf
    obtain ⟨hold, hnot⟩ := h.nodup.mem_sdiff_iff.1 hf
    obtain ⟨hbit, hin⟩ := h.used f hold
    refine ⟨?_, hin⟩
    rw [bit_unmarkRange, hbit, Bool.and_true, Bool.not_eq_true', decide_eq_false_iff_not]
    rintro ⟨hlo, hhi⟩
    exact hnot (mem_map.2 ⟨f - frame, mem_range.2 (by omega), by omega⟩)
  · intro f hf hbit
    replace hbit : bit (unmarkRange r.memoryMap frame size) f = false := hbit
    rw [bit_unmarkRange, Bool.and_eq_false_iff, Bool.not_eq_false', decide_eq_true_iff] at hbit
    rcases hbit with ⟨hlo, hhi⟩ | hbit
    · exact (hused f hlo hhi).2
    · exact h.free f hf hbit

theorem inv_step {r' : Run} (h : Inv SKY_EMULATOR boot r) {c : Call}
    (hP : takesItsBlocks SKY_EMULATOR r c) (hs : step SKY_EMULATOR r c = some r') : Inv SKY_EMULATOR boot r' := by
  obtain ⟨hc, hs⟩ := Option.ite_none_right_eq_some.1 hs
  cases hs
  cases c with
  | allocBlock =>
    show Inv SKY_EMULATOR boot ⟨(allocBlock SKY_EMULATOR r.toState).2,
      (allocBlock SKY_EMULATOR r.toState).1.elim []
        (blocksAt SKY_EMULATOR (allocBlock SKY_EMULATOR r.toState).2 · 1) ++ r.live⟩
    rcases hres : allocBlock SKY_EMULATOR r.toState with ⟨_ | pa, s'⟩
    · obtain rfl | ⟨frame, ht⟩ := allocBlock_none hres
      · exact h
      · exact (inv_take h ht).2.unreturned
    · obtain ⟨frame, ht⟩ := allocBlock_some hres
      exact (inv_take h ht).2
  | allocBlocks size =>
    show Inv SKY_EMULATOR boot ⟨(allocBlocks SKY_EMULATOR r.toState size).2,
      (allocBlocks SKY_EMULATOR r.toState size).1.elim []
        (blocksAt SKY_EMULATOR (allocBlocks SKY_EMULATOR r.toState size).2 · size) ++ r.live⟩
    rcases hres : allocBlocks SKY_EMULATOR r.toState size with ⟨_ | pa, s'⟩
    · obtain rfl | ⟨frame, ht⟩ := allocBlocks_none hres
      · exact h
      · exact (inv_take h ht).2.unreturned
    · obtain ⟨frame, ht⟩ := allocBlocks_some hres
      exact (inv_take h ht).2
  | freeBlock pa =>
    show Inv SKY_EMULATOR boot ⟨freeBlock SKY_EMULATOR r.toState pa, r.live.diff (blocksAt SKY_EMULATOR r.toState pa 1)⟩
    rw [freeBlock_eq]
    refine inv_give h ?_
    intro f hf
    obtain ⟨k, hk, rfl⟩ := mem_map.1 hf
    obtain rfl : k = 0 := Nat.lt_one_iff.1 (mem_range.1 hk)
    exact hc
  | freeBlocks pa size =>
    show Inv SKY_EMULATOR boot ⟨freeBlocks r.toState pa size, r.live.diff (blocksAt SKY_EMULATOR r.toState pa size)⟩
    have hlive : ∀ f ∈ blocksAt SKY_EMULATOR r.toState pa size, f ∈ r.live := hc
    rw [freeBlocks_eq]
    rcases hP with rfl | hblock
    · exact inv_give h (by simp)
    · unfold blocksAt at hlive ⊢
      rw [← hblock] at hlive ⊢
      exact inv_give h hlive

theorem bit_filled {before : Nat → BitVec 32} {f : Nat} (hf : f < maxBlocks boot) :
    bit (filled SKY_EMULATOR boot before).memoryMap f = true := by
  have hword : f / 32 < memoryMapSize boot := by
    unfold memoryMapSize PMM_BITS_PER_INDEX
    split <;> omega
  have hall : 0xffffffff#32 = BitVec.allOnes 32 := by decide
  unfold bit filled
  dsimp only
  rw [if_pos hword, hall, BitVec.getLsbD_allOnes]
  exact decide_eq_true (Nat.mod_lt f (by decide))

theorem initializePMM_eq (boot : BootParams) (before : Nat → BitVec 32) :
    initializePMM SKY_EMULATOR boot before = { filled SKY_EMULATOR boot before with
      memoryMap := unmarkRange (filled SKY_EMULATOR boot before).memoryMap (firstBlock SKY_EMULATOR boot)
        (lastBlock boot - firstBlock SKY_EMULATOR boot),
      m_usedBlocks := maxBlocks boot - (lastBlock boot - firstBlock SKY_EMULATOR boot) } := by
  have hend : u32 (availablePoint SKY_EMULATOR boot + sub32 boot.memorySize (availablePoint SKY_EMULATOR boot)) =
      u32 boot.memorySize := by
    unfold sub32 u32
    omega
  have hlast := lastBlock_le boot
  unfold initializePMM
  rw [setMemoryAvailable_eq (maxBlocks_lt boot), hend]
  · rfl
  · rw [hend]
    show lastBlock boot - firstBlock SKY_EMULATOR boot ≤ maxBlocks boot
    omega

theorem inv_init (h : (system SKY_EMULATOR boot).init r) : Inv SKY_EMULATOR boot r := by
  obtain ⟨live, s⟩ := r
  obtain ⟨hlive, before, hs⟩ := h
  cases hlive
  cases hs.trans (initializePMM_eq boot before)
  have hlast := lastBlock_le boot
  have hall : (ones (filled SKY_EMULATOR boot before).memoryMap (maxBlocks boot)).card = maxBlocks boot := by
    have hrange : ones (filled SKY_EMULATOR boot before).memoryMap (maxBlocks boot) = Finset.range (maxBlocks boot) := by
      ext f
      rw [mem_ones, Finset.mem_range]
      exact ⟨fun hf => hf.1, fun hf => ⟨hf, bit_filled hf⟩⟩
    rw [hrange, Finset.card_range]
  refine ⟨rfl, rfl, ?_, .nil, ?_, ?_⟩
  · show maxBlocks boot - (lastBlock boot - firstBlock SKY_EMULATOR boot) =
      (ones (unmarkRange (filled SKY_EMULATOR boot before).memoryMap (firstBlock SKY_EMULATOR boot)
        (lastBlock boot - firstBlock SKY_EMULATOR boot)) (maxBlocks boot)).card
    by_cases hempty : lastBlock boot ≤ firstBlock SKY_EMULATOR boot
    · rw [Nat.sub_eq_zero_of_le hempty]
      exact hall.symm
    · have hcard := card_ones_unmarkRange (m := (filled SKY_EMULATOR boot before).memoryMap) (N := maxBlocks boot)
        (n := firstBlock SKY_EMULATOR boot) (k := lastBlock boot - firstBlock SKY_EMULATOR boot) (by omega)
        fun i _ hi => bit_filled (by omega)
      omega
  · intro f hf
    cases hf
  · intro f hf hbit
    replace hbit : bit (unmarkRange (filled SKY_EMULATOR boot before).memoryMap (firstBlock SKY_EMULATOR boot)
      (lastBlock boot - firstBlock SKY_EMULATOR boot)) f = false := hbit
    rw [bit_unmarkRange, bit_filled hf, Bool.and_true, Bool.not_eq_false', decide_eq_true_iff] at hbit
    omega

theorem init_start (boot : BootParams) (before : Nat → BitVec 32) :
    (system SKY_EMULATOR boot).init ⟨initializePMM SKY_EMULATOR boot before, []⟩ := ⟨rfl, before, rfl⟩

theorem inv_reachVia
    (h : (system SKY_EMULATOR boot).ReachVia (takesItsBlocks SKY_EMULATOR) r) : Inv SKY_EMULATOR boot r :=
  StepSystem.ReachVia.invariant (Inv SKY_EMULATOR boot) (fun _ => inv_init) (fun _ _ _ hI hP hs => inv_step hI hP hs) h

/-- The blocks in use are counted, and no block is in two live allocations. -/
structure BlocksRight (r : Run) : Prop where
  count : r.m_usedBlocks = (ones r.memoryMap r.m_maxBlocks).card
  live : r.live.Nodup

/-- A block that an allocation in `r` may return. -/
def Available (r : Run) (frame : Nat) : Prop :=
  bit r.memoryMap frame = false ∧ frame < r.m_maxBlocks ∧ frame ∉ r.live

theorem Takes.available (h : Inv SKY_EMULATOR boot r)
    (ht : Takes SKY_EMULATOR r.toState frame size pa s') :
    ∀ f ∈ blocksAt SKY_EMULATOR s' pa size, Available r f := by
  intro f hf
  obtain ⟨k, hk, rfl⟩ := mem_map.1 hf
  rw [(inv_take h ht).1]
  obtain ⟨hbit, hlt⟩ := ht.free k (mem_range.1 hk)
  refine ⟨hbit, hlt, ?_⟩
  intro hlive
  rw [(h.used _ hlive).1] at hbit
  cases hbit

/-- **The frame allocator.** In both configurations, for every boot and every run whose `FreeBlocks` take the blocks
their addresses denote, the counter and the allocations are right, and an allocation returns blocks that were free. -/
theorem blocks_right {boot : BootParams} {r : Run}
    (h : (system SKY_EMULATOR boot).ReachVia (takesItsBlocks SKY_EMULATOR) r) :
    BlocksRight r ∧
      (∀ pa s', allocBlock SKY_EMULATOR r.toState = (some pa, s') →
        ∀ f ∈ blocksAt SKY_EMULATOR s' pa 1, Available r f) ∧
      ∀ size pa s', allocBlocks SKY_EMULATOR r.toState size = (some pa, s') →
        ∀ f ∈ blocksAt SKY_EMULATOR s' pa size, Available r f := by
  have hinv := inv_reachVia h
  refine ⟨⟨hinv.count, hinv.nodup⟩, ?_, ?_⟩
  · intro pa s' hres
    obtain ⟨frame, ht⟩ := allocBlock_some hres
    exact ht.available hinv
  · intro size pa s' hres
    obtain ⟨frame, ht⟩ := allocBlocks_some hres
    exact ht.available hinv

def smallBoot : BootParams := ⟨0x200000, 0x100000, 0x1000, 0⟩

theorem blocks_right_run :
    ∃ r, (system false smallBoot).exec ⟨initializePMM false smallBoot fun _ => 0, []⟩
        [.allocBlocks 3, .allocBlock, .freeBlocks 0x101000 2, .allocBlocks 2, .freeBlock 0x104000] = some r ∧
      BlocksRight r := by
  have hrun : ((system false smallBoot).exec ⟨initializePMM false smallBoot fun _ => 0, []⟩
      [.allocBlocks 3, .allocBlock, .freeBlocks 0x101000 2, .allocBlocks 2, .freeBlock 0x104000]).isSome := by
    decide +kernel
  have hmeets : (system false smallBoot).Meets (takesItsBlocks false) ⟨initializePMM false smallBoot fun _ => 0, []⟩
      [.allocBlocks 3, .allocBlock, .freeBlocks 0x101000 2, .allocBlocks 2, .freeBlock 0x104000] := by decide +kernel
  obtain ⟨r, hr⟩ := Option.isSome_iff_exists.1 hrun
  exact ⟨r, hr, (blocks_right (StepSystem.reachVia_exec _ (.init (init_start _ _)) hmeets hr)).1⟩

/-- The emulator's 100 MB, at an address of which some blocks are in the range of the bitmap. -/
def emulatorBoot : BootParams := ⟨0x5F5D000, 0x1600000, 0x100000, 0x5F00000⟩

/-- `FreeBlocks` takes the number off the counter and leaves both blocks marked. -/
theorem freeBlocks_misses : ¬ ∀ boot r, (system true boot).Reach r → BlocksRight r := by
  intro h
  have hrun : ((system true emulatorBoot).exec ⟨initializePMM true emulatorBoot fun _ => 0, []⟩
      [.allocBlocks 2, .freeBlocks 0xbe00bec 2]).map (fun r => (r.m_usedBlocks, r.m_maxBlocks,
        (List.range 760).all fun i => r.memoryMap i = 0xffffffff#32, bit r.memoryMap 24320)) =
        some (24320, 24413, true, true) := by decide +kernel
  obtain ⟨r, hr, hfacts⟩ := Option.map_eq_some_iff.1 hrun
  simp only [Prod.mk.injEq, List.all_eq_true, List.mem_range, decide_eq_true_iff] at hfacts
  obtain ⟨hused, hmax, hwords, hbit⟩ := hfacts
  have hcount := (h _ r (StepSystem.reach_exec _ (.init (init_start _ _)) hr)).count
  have hsubset : Finset.range 24321 ⊆ ones r.memoryMap r.m_maxBlocks := by
    intro f hf
    rw [Finset.mem_range] at hf
    rw [mem_ones]
    refine ⟨by omega, ?_⟩
    by_cases hlast : f = 24320
    · rw [hlast, hbit]
    · have hall : 0xffffffff#32 = BitVec.allOnes 32 := by decide
      rw [bit, hwords _ (by omega), hall, BitVec.getLsbD_allOnes]
      exact decide_eq_true (Nat.mod_lt f (by decide))
  have hle := Finset.card_le_card hsubset
  rw [Finset.card_range] at hle
  omega

end Configuration

end PhysicalMemoryManager
