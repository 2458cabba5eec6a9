import SkyOS.Memory.PhysicalMemoryManager

/-!
# Which memory `PhysicalMemoryManager` hands out

Without `SKY_EMULATOR`, an address is the number of its block times 4096. The memory below `availablePoint`, with the
kernel and the bitmap in it, is handed out as soon as the block that `availablePoint` lies in can be found by the
search: `SetMemoryAvailable` rounds down. `reserved_iff` says exactly when no byte of it ever is.
-/

namespace PhysicalMemoryManager

open Machine Bitmap

/-- The 4 KB from `pa` on and the first `n` bytes of memory have a byte in common. -/
def Overlaps (pa n : Nat) : Prop := ∃ byte, pa ≤ byte ∧ byte < pa + PMM_BLOCK_SIZE ∧ byte < n

/-- No allocation in `r` returns a block that overlaps what lies below `availablePoint`. -/
structure HandsOutNoReserved (boot : BootParams) (r : Run) : Prop where
  block : ∀ pa s', allocBlock false r.toState = (some pa, s') → ¬ Overlaps pa (availablePoint false boot)
  blocks : ∀ size pa s', allocBlocks false r.toState size = (some pa, s') →
    ∀ i < size, ¬ Overlaps (pa + i * PMM_BLOCK_SIZE) (availablePoint false boot)

/-- The bitmap ends where a block begins, or the block in which it ends is not among those that `SetMemoryAvailable`
unmarks and `GetFreeFrame` looks at, or is block 0, whose address is `NULL`. -/
def ReservedIsWhole (boot : BootParams) : Prop :=
  PMM_BLOCK_SIZE ∣ availablePoint false boot ∨ lastBlock boot ≤ firstBlock false boot ∨
    maxBlocks boot / PMM_BITS_PER_INDEX * PMM_BITS_PER_INDEX ≤ firstBlock false boot ∨ firstBlock false boot = 0

theorem overlaps_iff (pa n : Nat) : Overlaps pa n ↔ pa < n := by
  constructor
  · rintro ⟨byte, hlo, -, hn⟩
    omega
  · intro hlt
    refine ⟨pa, le_rfl, ?_, hlt⟩
    unfold PMM_BLOCK_SIZE
    omega

variable {boot : BootParams}

variable {r : Run} {frame : Nat}

theorem inv_reach (h : (system false boot).Reach r) : Inv false boot r := by
  refine inv_reachVia (h.reachVia ?_)
  intro s c s' _ _
  cases c with
  | freeBlocks pa size => exact Or.inr rfl
  | allocBlock => trivial
  | allocBlocks size => trivial
  | freeBlock pa => trivial

theorem blockAddress_lt {s : State} (h : frame < 2 ^ 20) :
    blockAddress false s frame = frame * PMM_BLOCK_SIZE := by
  unfold blockAddress PMM_BLOCK_SIZE
  rw [if_neg (by decide), u32_of_lt (by omega)]

theorem Takes.not_overlaps (hwhole : ReservedIsWhole boot) (h : Inv false boot r)
    {size pa : Nat} {s' : State} (ht : Takes false r.toState frame size pa s') (hpa : pa ≠ 0) :
    ∀ i < size, ¬ Overlaps (pa + i * PMM_BLOCK_SIZE) (availablePoint false boot) := by
  intro i hi
  have hspan : ∀ k < size, firstBlock false boot ≤ frame + k ∧ frame + k < lastBlock boot := by
    intro k hk
    obtain ⟨hbit, hlt⟩ := ht.free k hk
    exact h.free _ hlt hbit
  have hlast := lastBlock_lt boot
  obtain ⟨hfirst, hframe⟩ := hspan 0 ht.pos
  rw [ht.address, blockAddress_lt (by omega)] at hpa
  rw [overlaps_iff, ht.address, blockAddress_lt (by omega)]
  rcases hwhole with ⟨q, hq⟩ | hempty | hwords | hzero
  · -- the reserved memory is `q` whole blocks
    unfold firstBlock PMM_BLOCK_SIZE at *
    omega
  · omega
  · have hframe' := ht.whole
    rw [h.max] at hframe'
    omega
  · -- what is returned lies behind block 0
    unfold firstBlock PMM_BLOCK_SIZE at *
    omega

section

variable (before : Nat → BitVec 32) (hlast : firstBlock false boot < lastBlock boot)
  (hwords : firstBlock false boot < maxBlocks boot / PMM_BITS_PER_INDEX * PMM_BITS_PER_INDEX)
    (hzero : firstBlock false boot ≠ 0)
include before hlast hwords

theorem getFreeFrame_initialized : getFreeFrame (initializePMM false boot before) = some (firstBlock false boot) := by
  have hle := lastBlock_le boot
  have hbit : ∀ f < maxBlocks boot, bit (initializePMM false boot before).memoryMap f = false ↔
      firstBlock false boot ≤ f ∧ f < lastBlock boot := by
    intro f hf
    rw [initializePMM_eq]
    rw [bit_unmarkRange, bit_filled hf, Bool.and_true, Bool.not_eq_false', decide_eq_true_iff]
    omega
  have hclear := (hbit _ (by omega)).2 ⟨le_rfl, hlast⟩
  have hmaxBlocks : (initializePMM false boot before).m_maxBlocks = maxBlocks boot := by rw [initializePMM_eq]; rfl
  cases hres : getFreeFrame (initializePMM false boot before) with
  | none =>
    have hnone := scan_none hres (firstBlock false boot) (by rw [hmaxBlocks]; exact hwords) hclear
    cases hnone
  | some frame =>
    obtain ⟨hin, hfree, hbefore⟩ := getFreeFrame_some hres
    rw [hmaxBlocks] at hin
    obtain ⟨hge, -⟩ := (hbit frame (by unfold PMM_BITS_PER_INDEX at *; omega)).1 hfree
    have heq : frame = firstBlock false boot := by
      by_contra hne
      have hset := hbefore (firstBlock false boot) (by omega)
      rw [hclear] at hset
      cases hset
    rw [heq]

omit hwords in
theorem free_initialized : sub32 (initializePMM false boot before).m_maxBlocks
    (initializePMM false boot before).m_usedBlocks =
    lastBlock boot - firstBlock false boot := by
  have hle := lastBlock_le boot
  have hmax := maxBlocks_lt boot
  rw [initializePMM_eq]
  show sub32 (maxBlocks boot) (maxBlocks boot - (lastBlock boot - firstBlock false boot)) = _
  rw [sub32_of_le (by omega) hmax]
  omega

include hzero

theorem allocBlock_first :
    ∃ s', allocBlock false (initializePMM false boot before) = (some (firstBlock false boot * PMM_BLOCK_SIZE), s') := by
  have hlt := lastBlock_lt boot
  have hroom : ¬ sub32 (initializePMM false boot before).m_maxBlocks (initializePMM false boot before).m_usedBlocks ≤
      0 := by
    rw [free_initialized before hlast]
    omega
  unfold allocBlock
  rw [if_neg hroom, getFreeFrame_initialized before hlast hwords]
  dsimp only
  rw [blockAddress_lt (by omega), pointer, if_neg (Nat.mul_ne_zero hzero (by decide))]
  exact ⟨_, rfl⟩

theorem hands_out_reserved (hpoint : firstBlock false boot * PMM_BLOCK_SIZE < availablePoint false boot) :
    ¬ HandsOutNoReserved boot ⟨initializePMM false boot before, []⟩ := by
  intro h
  obtain ⟨s', hs'⟩ := allocBlock_first before hlast hwords hzero
  exact h.block _ s' hs' ((overlaps_iff _ _).2 hpoint)

end

/-- **Reserved memory.** For every memory size, kernel base and kernel size, no run after `Initialize` hands out a byte
below `availablePoint` exactly when `availablePoint` begins a block or its block cannot be handed out at all. -/
theorem reserved_iff (boot : BootParams) :
    (∀ r, (system false boot).Reach r → HandsOutNoReserved boot r) ↔ ReservedIsWhole boot := by
  constructor
  · intro h
    by_contra hwhole
    simp only [ReservedIsWhole, not_or, not_le] at hwhole
    obtain ⟨hdvd, hlast, hwords, hzero⟩ := hwhole
    refine hands_out_reserved (fun _ => 0) hlast hwords hzero ?_ (h _ (.init (init_start boot fun _ => 0)))
    unfold firstBlock PMM_BLOCK_SIZE at *
    omega
  · intro hwhole r hr
    have hinv := inv_reach hr
    constructor
    · intro pa s' hres
      obtain ⟨frame, ht⟩ := allocBlock_some hres
      have hpa := ht.not_overlaps hwhole hinv (allocBlock_ne_zero hres) 0 (by decide)
      rwa [Nat.zero_mul, Nat.add_zero] at hpa
    · intro size pa s' hres
      obtain ⟨frame, ht⟩ := allocBlocks_some hres
      exact ht.not_overlaps hwhole hinv (allocBlocks_ne_zero hres)

def shortBoot : BootParams := ⟨0x7FE0000, 0x100000, 0x200000, 0⟩

/-- The first `AllocBlock` returns the address of the bitmap. -/
theorem bitmap_handed_out : ¬ ∀ boot : BootParams,
    boot.kernelBase + boot.kernelSize + memoryMapSize boot * 4 ≤ boot.memorySize →
      ∀ r, (system false boot).Reach r → HandsOutNoReserved boot r := by
  intro h
  have hright := h shortBoot (by decide +kernel) _ (.init (init_start _ fun _ => 0))
  exact hands_out_reserved _ (by decide +kernel) (by decide +kernel) (by decide +kernel) (by decide +kernel) hright

end PhysicalMemoryManager
