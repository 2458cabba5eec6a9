import SkyOS.Memory.PhysicalMemoryManager

/-!
# When the frame allocators return NULL (`:98`, `:141`, `:198-259`)

The searches look at `m_maxBlocks / 32` words, while `Initialize` makes the bitmap one word longer where `m_maxBlocks`
is no multiple of 32: a run of free frames is found where it begins in a whole word. That `GetFreeFrames` gives up at
the first run that touches the end loses nothing, since no later one is as long. `AllocBlocks` wants one frame more to
be free than it takes. And a block whose address is 0 is returned as NULL: frame 0, without the emulator.
(`TestMemoryMap` takes an `int`; no 32-bit address is in a frame from `2^31` on, where it would be negative.)
-/

namespace PhysicalMemoryManager

open Machine Bitmap Finset

/-- `size` consecutive free frames from `frame` on. -/
def FreeRun (s : State) (size frame : Nat) : Prop :=
  ∀ k < size, bit s.memoryMap (frame + k) = false ∧ frame + k < s.m_maxBlocks

def wholeWords (s : State) : Nat := s.m_maxBlocks / PMM_BITS_PER_INDEX * PMM_BITS_PER_INDEX

/-- NULL only if all frames are used. -/
def BlockFound (SKY_EMULATOR : Bool) (s : State) : Prop :=
  (allocBlock SKY_EMULATOR s).1 = none → ∀ frame < s.m_maxBlocks, bit s.memoryMap frame = true

/-- NULL only if there are no `size` consecutive free frames. -/
def BlocksFound (SKY_EMULATOR : Bool) (s : State) (size : Nat) : Prop :=
  (allocBlocks SKY_EMULATOR s size).1 = none → ∀ frame, ¬ FreeRun s size frame

/-- The first `size` consecutive free frames begin at `frame`, in a whole word. -/
structure First (s : State) (size frame : Nat) : Prop where
  whole : frame < wholeWords s
  run : FreeRun s size frame
  before : ∀ f < frame, ¬ FreeRun s size f

/-- If a frame is free, the first one is in a whole word, and its address is not 0. -/
def BlockFits (SKY_EMULATOR : Bool) (s : State) : Prop :=
  ∀ frame < s.m_maxBlocks, bit s.memoryMap frame = false → ∃ f, First s 1 f ∧ blockAddress SKY_EMULATOR s f ≠ 0

/-- If there are so many free frames in a row, the first such run begins in a whole word, its address is not 0, and more
frames are free. -/
def BlocksFit (SKY_EMULATOR : Bool) (s : State) (size : Nat) : Prop :=
  ∀ frame, FreeRun s size frame →
    (∃ f, First s size f ∧ blockAddress SKY_EMULATOR s f ≠ 0) ∧ size < s.m_maxBlocks - s.m_usedBlocks

variable {s : State} {size frame f : Nat}

theorem wholeWords_le (s : State) : wholeWords s ≤ s.m_maxBlocks := Nat.div_mul_le_self _ _

/-! ## The searches -/

theorem countFree_run (h : FreeRun s size frame) : ∀ {left count : Nat}, count + left + 1 = size →
    countFree s frame size (left + 1) count count = some (some frame)
  | 0, count, hsize => by
    obtain ⟨hclear, hinside⟩ := h count (by omega)
    rw [← testMemoryMap_eq] at hclear
    rw [countFree, if_neg (by omega), hclear, if_neg (by decide), if_pos (by omega)]
  | left + 1, count, hsize => by
    obtain ⟨hclear, hinside⟩ := h count (by omega)
    rw [← testMemoryMap_eq] at hclear
    rw [countFree, if_neg (by omega), hclear, if_neg (by decide), if_neg (by omega)]
    exact countFree_run h (by omega)

theorem countFree_whole (hsize : 0 < size) (h : FreeRun s size frame) : countFree s frame size size 0 0 =
    some (some frame) := by
  obtain ⟨left, rfl⟩ := Nat.exists_eq_add_of_lt hsize
  exact countFree_run h (by omega)

/-- Where the loop gives up, the memory ends before a run could. -/
theorem countFree_end : ∀ {left count free : Nat}, count + left ≤ size →
    countFree s frame size left count free = some none →
    s.m_maxBlocks < frame + size
  | 0, _, _, _, h => by cases h
  | left + 1, count, free, hsize, h => by
    rw [countFree] at h
    split at h
    · omega
    split at h
    · cases h
    split at h
    · cases h
    · exact countFree_end (by omega) h

theorem getFreeFrame_none (h : getFreeFrame s = none) : ∀ f < wholeWords s, bit s.memoryMap f = true := by
  intro f hf
  by_contra hclear
  rw [Bool.not_eq_true] at hclear
  cases scan_none h f hf hclear

/-- **Completeness** of the search in the whole words. -/
theorem getFreeFrames_none (hsize : 0 < size) (h : getFreeFrames s size = none) : ∀ f < wholeWords s,
    ¬ FreeRun s size f := by
  intro f hf hrun
  have hclear : bit s.memoryMap f = false := (hrun 0 hsize).1
  unfold getFreeFrames at h
  rw [if_neg (by omega)] at h
  split at h
  · have hused := getFreeFrame_none h f hf
    rw [hclear] at hused
    cases hused
  · have hfound := countFree_whole hsize hrun
    cases hscan : scan s fun startingBit => countFree s startingBit size size 0 0 with
    | none =>
      rw [scan_none hscan f hf hclear] at hfound
      cases hfound
    | some result =>
      rw [hscan] at h
      obtain rfl : result = none := h
      obtain ⟨g, -, -, hend, hbefore⟩ := scan_some hscan
      have hlast := (hrun (size - 1) (by omega)).2
      have hshort := countFree_end (by omega) hend
      -- the search has passed `f`
      have hlt : f < g := by omega
      rw [hbefore f hlt hclear] at hfound
      cases hfound

/-- **Minimality**: no run begins before the one that is found. -/
theorem getFreeFrames_first (h : getFreeFrames s size = some frame) : First s size frame := by
  obtain ⟨hsize, hwhole, hrun⟩ := getFreeFrames_some h
  refine ⟨hwhole, hrun, fun f hf hearlier => ?_⟩
  have hclear : bit s.memoryMap f = false := (hearlier 0 hsize).1
  unfold getFreeFrames at h
  rw [if_neg (by omega)] at h
  split at h
  · have hused := (getFreeFrame_some h).2.2 f hf
    rw [hclear] at hused
    cases hused
  · obtain ⟨g, -, -, hfound, hbefore⟩ := scan_some (Option.join_eq_some_iff.1 h)
    obtain ⟨rfl, -⟩ := countFree_spec rfl (by omega) (fun k hk => absurd hk (by omega)) hfound
    have hgoes := countFree_whole hsize hearlier
    rw [hbefore f hf hclear] at hgoes
    cases hgoes

theorem getFreeFrames_eq_some_iff (hsize : 0 < size) : getFreeFrames s size = some frame ↔ First s size frame := by
  refine ⟨getFreeFrames_first, fun h => ?_⟩
  cases hframe : getFreeFrames s size with
  | none => exact absurd h.run (getFreeFrames_none hsize hframe frame h.whole)
  | some f =>
    have hfirst := getFreeFrames_first hframe
    rcases Nat.lt_trichotomy f frame with hlt | rfl | hlt
    · exact absurd hfirst.run (h.before f hlt)
    · rfl
    · exact absurd h.run (hfirst.before frame hlt)

/-! ## The counts -/

section Counted

variable {SKY_EMULATOR : Bool} (hmax : s.m_maxBlocks < 2 ^ 32)
    (hcount : s.m_usedBlocks = (ones s.memoryMap s.m_maxBlocks).card)

include hcount

theorem used_le : s.m_usedBlocks ≤ s.m_maxBlocks := by
  rw [hcount]
  exact (card_filter_le _ _).trans (card_range _).le

theorem all_used (h : s.m_maxBlocks ≤ s.m_usedBlocks) : ∀ frame < s.m_maxBlocks, bit s.memoryMap frame = true := by
  intro frame hframe
  rw [hcount] at h
  have hall : ones s.memoryMap s.m_maxBlocks = Finset.range s.m_maxBlocks :=
    eq_of_subset_of_card_le (filter_subset _ _) (by rwa [card_range])
  have hmem : frame ∈ ones s.memoryMap s.m_maxBlocks := by rwa [hall, mem_range]
  exact (mem_ones.1 hmem).2

include hmax

theorem free_eq : sub32 s.m_maxBlocks s.m_usedBlocks = s.m_maxBlocks - s.m_usedBlocks :=
  sub32_of_le (used_le hcount) hmax

theorem allocBlock_null_iff (SKY_EMULATOR : Bool) :
    (allocBlock SKY_EMULATOR s).1 = none ↔ ∀ f, First s 1 f → blockAddress SKY_EMULATOR s f = 0 := by
  have hone : getFreeFrames s 1 = getFreeFrame s := rfl
  rw [allocBlock, free_eq hmax hcount]
  split
  · refine iff_of_true rfl fun f hfirst => ?_
    obtain ⟨hclear, hinside⟩ := hfirst.run 0 (by decide)
    rw [all_used hcount (by omega) _ hinside] at hclear
    cases hclear
  · cases hframe : getFreeFrame s with
    | none =>
      refine iff_of_true rfl fun f hfirst => ?_
      rw [← getFreeFrames_eq_some_iff (by decide), hone, hframe] at hfirst
      cases hfirst
    | some frame =>
      have hfirst : First s 1 frame := getFreeFrames_first (hone.trans hframe)
      refine ⟨fun hnull f hf => ?_, fun h => if_pos (h frame hfirst)⟩
      rw [← getFreeFrames_eq_some_iff (by decide), hone, hframe] at hf
      cases hf
      exact pointer_none hnull

theorem allocBlocks_null_iff (SKY_EMULATOR : Bool) (hsize : 0 < size) : (allocBlocks SKY_EMULATOR s size).1 = none ↔
    s.m_maxBlocks - s.m_usedBlocks ≤ size ∨ ∀ f, First s size f → blockAddress SKY_EMULATOR s f = 0 := by
  rw [allocBlocks, free_eq hmax hcount]
  split
  · rename_i hfew
    exact iff_of_true rfl (Or.inl hfew)
  · rename_i hfew
    rw [or_iff_right hfew]
    cases hframe : getFreeFrames s size with
    | none =>
      refine iff_of_true rfl fun f hfirst => ?_
      rw [← getFreeFrames_eq_some_iff hsize, hframe] at hfirst
      cases hfirst
    | some frame =>
      refine ⟨fun hnull f hf => ?_, fun h => if_pos (h frame (getFreeFrames_first hframe))⟩
      rw [← getFreeFrames_eq_some_iff hsize, hframe] at hf
      cases hf
      exact pointer_none hnull

end Counted

/-- **Completeness.** `AllocBlock` returns NULL only if all frames are used, if and only if the first free frame is not
in the last word alone and not at address 0; `AllocBlocks` returns NULL only if there is no run, if and only if the
first run begins in a whole word and not at address 0, and is not all that is free. -/
theorem search_right_iff (SKY_EMULATOR : Bool) {s : State} (hmax : s.m_maxBlocks < 2 ^ 32)
    (hcount : s.m_usedBlocks = (ones s.memoryMap s.m_maxBlocks).card) :
    (BlockFound SKY_EMULATOR s ↔ BlockFits SKY_EMULATOR s) ∧
      ∀ size, 1 ≤ size → (BlocksFound SKY_EMULATOR s size ↔ BlocksFit SKY_EMULATOR s size) := by
  constructor
  · unfold BlockFound BlockFits
    rw [allocBlock_null_iff hmax hcount]
    constructor
    · intro h frame hframe hfree
      by_contra hnone
      have hused := h (fun f hf => by
        by_contra haddress
        exact hnone ⟨f, hf, haddress⟩) frame hframe
      rw [hused] at hfree
      cases hfree
    · intro h hnull frame hframe
      by_contra hfree
      obtain ⟨f, hf, haddress⟩ := h frame hframe (by simpa using hfree)
      exact haddress (hnull f hf)
  · intro size hsize
    unfold BlocksFound BlocksFit
    rw [allocBlocks_null_iff hmax hcount SKY_EMULATOR hsize]
    constructor
    · intro h frame hrun
      constructor
      · by_contra hnone
        refine h (Or.inr fun f hf => ?_) frame hrun
        by_contra haddress
        exact hnone ⟨f, hf, haddress⟩
      · by_contra hfew
        exact h (Or.inl (by omega)) frame hrun
    · rintro h (hfew | hnull) frame hrun
      · have hmore := (h frame hrun).2
        omega
      · obtain ⟨f, hf, haddress⟩ := (h frame hrun).1
        exact haddress (hnull f hf)

def lastWord : State := ⟨32, 40, 0x101000, 2, fun i => if i = 0 then 0xffffffff#32 else 0xffffff00#32⟩

def lastTwo : State := ⟨62, 64, 0x101000, 2, fun i => if i = 0 then 0xffffffff#32 else 0x3fffffff#32⟩

theorem search_right_iff_lastTwo : (BlockFound false lastTwo ↔ BlockFits false lastTwo) ∧
    ∀ size, 1 ≤ size → (BlocksFound false lastTwo size ↔ BlocksFit false lastTwo size) :=
  search_right_iff false (by decide) (by decide +kernel)

/-- The 8 frames behind the last whole word are not found, nor are two frames that are the last free ones. -/
theorem search_incomplete :
    (¬ ∀ s : State, s.m_maxBlocks < 2 ^ 32 → s.m_usedBlocks = (ones s.memoryMap s.m_maxBlocks).card → BlockFound false s) ∧
      ¬ ∀ (s : State) (size : Nat), s.m_maxBlocks < 2 ^ 32 → s.m_usedBlocks = (ones s.memoryMap s.m_maxBlocks).card →
        1 ≤ size → BlocksFound false s size := by
  constructor
  · intro h
    have hused := h lastWord (by decide) (by decide +kernel) (by decide +kernel) 32 (by decide)
    revert hused
    decide +kernel
  · intro h
    refine h lastTwo 2 (by decide) (by decide +kernel) (by decide) (by decide +kernel) 62 ?_
    unfold FreeRun
    decide +kernel

end PhysicalMemoryManager
