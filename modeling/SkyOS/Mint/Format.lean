import SkyOS.Mint.Sectors

/-!
# A formatted volume (`kFormat`, `kMount`)

`kFormat` writes the MBR, and then one sector after the other of the link table and of the root directory, all from
a buffer of zeros whose first word marks cluster 0 as taken in the first of them. What `kMount` reads back is the
geometry that `kFormat` computed.
-/

namespace Mint

open Bytes Machine

def blank (disk buffer : Memory) : State :=
  ⟨disk, [], buffer, ⟨false, 0, 0, 0, 0, 0, 0, fun _ => ⟨.free, ⟨0, 0, 0, 0, 0, 0⟩⟩⟩⟩

/-- `kFormat`, `kMount`, and a pool of free handles (`kInitializeRDDFileSystem`). -/
def boot (disk buffer : Memory) (dwTotalSectorCount : Nat) : State :=
  (kMount (kFormat (blank disk buffer) dwTotalSectorCount).2).2

/-! ## Geometry -/

variable {T x : Nat}

theorem formatGeometry_spec (h : 9 ≤ T) (hT : T < 2 ^ 32) :
    1 + (formatGeometry T).1 + 8 * (formatGeometry T).2 ≤ T ∧
    (formatGeometry T).2 ≤ 128 * (formatGeometry T).1 ∧
    128 * (formatGeometry T).1 < (formatGeometry T).2 + 128 := by
  unfold formatGeometry FILESYSTEM_SECTORSPERCLUSTER
  dsimp only
  rw [u32_of_lt (show T / 8 + 127 < 2 ^ 32 by omega)]
  rw [sub32_of_le (show (T / 8 + 127) / 128 ≤ T by omega) hT,
    sub32_of_le (show 1 ≤ T - (T / 8 + 127) / 128 by omega) (by omega), u32_of_lt (by omega)]
  omega

/-! ## Formatting -/

theorem write32_link {buffer : Memory} {i w : Nat}
    (hw : w = if i = 0 then FILESYSTEM_LASTCLUSTER else FILESYSTEM_FREECLUSTER)
    (hbuffer : ∀ x, 4 ≤ x → x < 512 → buffer x = 0) (hx : 512 * (i + 1) ≤ x ∧ x < 512 * (i + 1) + 512) :
    write32 buffer 0 w (x - 512 * (i + 1)) = if x < 516 then 255 else 0 := by
  have hlast : ∀ y < 4, UInt8.ofNat (FILESYSTEM_LASTCLUSTER / 256 ^ (y - 0) % 256) = 255 := by decide
  by_cases hword : x - 512 * (i + 1) < 4
  · rw [write32, writeLE_inside _ (Nat.zero_le _) (by omega)]
    split at hw
    · rw [if_pos (by omega), hw]
      exact hlast _ hword
    · rw [if_neg (by omega), hw, FILESYSTEM_FREECLUSTER, Nat.zero_div]
      rfl
  · rw [write32_outside _ (by omega), hbuffer _ (by omega) (by omega), if_neg (by omega)]

variable {s : State} {L N : Nat}

theorem clearSectors_spec (h : s.faults = []) (hbuffer : ∀ x, 4 ≤ x → x < 512 → s.buffer x = 0)
    (i rounds : Nat) : ∃ b d, clearSectors s i rounds = (true, { s with buffer := b, disk := d }) ∧
      ∀ x, d x = if 512 * (i + 1) ≤ x ∧ x < 512 * (i + 1 + rounds) then (if x < 516 then 255 else 0) else s.disk x := by
  induction rounds generalizing s i with
  | zero => exact ⟨s.buffer, s.disk, rfl, fun x => by rw [if_neg (by omega)]⟩
  | succ rounds ih =>
    rw [clearSectors]
    generalize hw : (if i = 0 then FILESYSTEM_LASTCLUSTER else FILESYSTEM_FREECLUSTER) = w
    rw [writeHDDSector_ok (show State.faults { s with buffer := write32 s.buffer 0 w } = [] from h)]
    dsimp only
    obtain ⟨b, d, hclear, hd⟩ := ih (s := { s with
        buffer := write32 s.buffer 0 w
        disk := copy s.disk (512 * (i + 1)) (write32 s.buffer 0 w) 0 (512 * 1) }) h
      (fun x hx hx' => by
        dsimp only
        rw [write32_outside _ (by omega)]
        exact hbuffer x hx hx') (i + 1)
    refine ⟨b, d, hclear, fun x => ?_⟩
    rw [hd x]
    dsimp only
    by_cases hnext : 512 * (i + 1 + 1) ≤ x ∧ x < 512 * (i + 1 + 1 + rounds)
    · have hlater : 512 * (i + 1) ≤ x ∧ x < 512 * (i + 1 + (rounds + 1)) := by omega
      rw [if_pos hnext, if_pos hlater]
    · rw [if_neg hnext]
      by_cases hsector : 512 * (i + 1) ≤ x ∧ x < 512 * (i + 1) + 512 * 1
      · have hlater : 512 * (i + 1) ≤ x ∧ x < 512 * (i + 1 + (rounds + 1)) := by omega
        rw [copy_inside _ _ _ hsector.1 hsector.2, if_pos hlater, Nat.zero_add]
        exact write32_link hw.symm hbuffer (by omega)
      · rw [copy_outside _ _ _ (by omega), if_neg (by omega)]

theorem formatMbr_spec (buffer : Memory) (hL : L < 2 ^ 32) (hN : N < 2 ^ 32) :
    read32 (formatMbr buffer L N) 430 = FILESYSTEM_SIGNATURE ∧ read32 (formatMbr buffer L N) 434 = 0 ∧
    read32 (formatMbr buffer L N) 438 = L ∧ read32 (formatMbr buffer L N) 442 = N := by
  unfold formatMbr
  refine ⟨?_, ?_, ?_, read32_write32_self _ _ hN⟩
  · rw [read32_write32_of_disjoint _ (by omega), read32_write32_of_disjoint _ (by omega),
      read32_write32_of_disjoint _ (by omega), read32_write32_self _ _ (by decide)]
  · rw [read32_write32_of_disjoint _ (by omega), read32_write32_of_disjoint _ (by omega),
      read32_write32_self _ _ (by decide)]
  · rw [read32_write32_of_disjoint _ (by omega), read32_write32_self _ _ hL]

/-- **A formatted and mounted volume.** -/
theorem boot_spec (disk buffer : Memory) (h : 9 ≤ T) (hT : T < 2 ^ 32) (hLN : formatGeometry T = (L, N)) :
    ∃ b d, boot disk buffer T = ⟨d, [], b, ⟨true, 0, 1, L, L + 1, N, 0, fun _ => ⟨.free, ⟨0, 0, 0, 0, 0, 0⟩⟩⟩⟩ ∧
      ∀ x, 512 ≤ x → x < 512 * (L + 9) → d x = if x < 516 then 255 else 0 := by
  obtain ⟨hfits, -, htight⟩ := formatGeometry_spec h hT
  rw [hLN] at hfits htight
  have hkf : ∃ b d, kFormat (blank disk buffer) T = (true, { blank disk buffer with buffer := b, disk := d }) ∧
      (∀ x, 512 ≤ x → x < 512 * (L + 9) → d x = if x < 516 then 255 else 0) ∧
      ∃ b', ∀ x < 512, d x = formatMbr b' L N x := by
    obtain ⟨b, d, hclear, hd⟩ := clearSectors_spec (s := { blank disk buffer with
        buffer := fill (formatMbr (copy buffer 0 disk (512 * 0) (512 * 1)) L N) 0 0 512
        disk := copy disk (512 * 0) (formatMbr (copy buffer 0 disk (512 * 0) (512 * 1)) L N) 0 (512 * 1) }) rfl
      (fun x _ hx => if_pos ⟨Nat.zero_le x, by omega⟩) 0 (L + 8)
    refine ⟨b, d, ?_, fun x hx hx' => ?_, copy buffer 0 disk (512 * 0) (512 * 1), fun x hx => ?_⟩
    · unfold kFormat
      rw [hLN, readHDDSector_ok rfl]
      dsimp only
      rw [writeHDDSector_ok rfl]
      rw [u32_of_lt (by unfold FILESYSTEM_SECTORSPERCLUSTER; omega)]
      exact hclear
    · rw [hd x, if_pos (by omega)]
    · rw [hd x, if_neg (by omega)]
      exact (copy_inside _ _ _ (by omega) (by omega)).trans (by rw [Nat.zero_add, Nat.mul_zero, Nat.sub_zero])
  obtain ⟨b, d, hformat, hclear, b', hmbr⟩ := hkf
  have hword : ∀ a, a + 4 ≤ 512 → read32 (copy b 0 d (512 * 0) (512 * 1)) a = read32 (formatMbr b' L N) a :=
    fun a ha => by
      rw [read32_copy_inside _ _ _ (Nat.zero_le _) (by omega), Nat.mul_zero, Nat.zero_add, Nat.sub_zero]
      exact read32_congr fun x hx => hmbr x (by have := hx.2; omega)
  obtain ⟨hsignature, hreserved, hlinks, htotal⟩ := formatMbr_spec b' (show L < 2 ^ 32 by omega) (show N < 2 ^ 32 by omega)
  refine ⟨copy b 0 d (512 * 0) (512 * 1), d, ?_, hclear⟩
  unfold boot
  rw [hformat]
  unfold kMount
  rw [readHDDSector_ok rfl]
  dsimp only
  rw [hword 430 (by omega), hsignature, if_pos rfl, hword 434 (by omega), hword 438 (by omega), hword 442 (by omega),
    hreserved, hlinks, htotal, Nat.zero_add, Nat.zero_add, u32_of_lt (by omega), u32_of_lt (by omega)]
  rfl

/-- **After `kFormat` and `kMount`** no entry is used, and no cluster but the root directory is taken. -/
theorem boot_empty (disk buffer : Memory) (h : 9 ≤ T) (hT : T < 2 ^ 32) :
    (∀ i < FILESYSTEM_MAXDIRECTORYENTRYCOUNT, (boot disk buffer T).startOf i = 0) ∧
    (∀ c, c ≠ 0 → c < (boot disk buffer T).manager.dwTotalClusterCount →
      (boot disk buffer T).link c = FILESYSTEM_FREECLUSTER) ∧
    (∀ k, ((boot disk buffer T).manager.pstHandlePool k).bType = .free) ∧
    (0 < (boot disk buffer T).manager.dwTotalClusterCount → Ready (boot disk buffer T) ∧
      (boot disk buffer T).link 0 = FILESYSTEM_LASTCLUSTER ∧
      ∀ i < FILESYSTEM_MAXDIRECTORYENTRYCOUNT, (boot disk buffer T).initialOf i = 0) := by
  obtain ⟨hfits, hcover, htight⟩ := formatGeometry_spec h hT
  rcases hLN : formatGeometry T with ⟨L, N⟩
  obtain ⟨b, d, hboot, hd⟩ := boot_spec disk buffer h hT hLN
  rw [hLN] at hfits hcover htight
  rw [hboot]
  have hzero : ∀ x, 516 ≤ x → x + 4 ≤ 512 * (L + 9) → read32 d x = 0 := fun x hx hx' => by
    rw [show (0 : Nat) = read32 (fun _ => 0) x from rfl]
    refine read32_congr fun y hy => ?_
    have hlow := hy.1
    have hhigh := hy.2
    rw [hd y (by omega) (by omega), if_neg (by omega)]
  refine ⟨fun i hi => ?_, fun c h0 hc => ?_, fun k => rfl, fun hpos => ⟨⟨⟨rfl, ?_, hcover, htight, ?_, ?_, hpos⟩, rfl⟩,
    ?_, fun i hi => ?_⟩⟩
  · unfold FILESYSTEM_MAXDIRECTORYENTRYCOUNT at hi
    unfold State.startOf Manager.entryAddress
    exact hzero _ (by dsimp only; omega) (by dsimp only; omega)
  · dsimp only at hc
    unfold State.link Manager.linkAddress
    exact hzero _ (by dsimp only; omega) (by dsimp only; omega)
  · exact Nat.add_comm L 1
  · dsimp only
    omega
  · dsimp only at hpos ⊢
    omega
  · unfold State.link Manager.linkAddress
    rw [show FILESYSTEM_LASTCLUSTER = read32 (fun _ => 255) 512 from rfl]
    refine read32_congr fun y hy => ?_
    have hlow := hy.1
    have hhigh := hy.2
    dsimp only at hlow hhigh ⊢
    rw [hd y (by omega) (by omega), if_pos (by omega)]
  · unfold FILESYSTEM_MAXDIRECTORYENTRYCOUNT at hi
    unfold State.initialOf Manager.entryAddress
    dsimp only at hpos ⊢
    rw [hd _ (by omega) (by omega), if_neg (by omega)]

/-! ## What is written -/

/-- The sectors that the loop of `kFormat` (:191) writes. -/
def clearWrites (s : State) (i : Nat) : Nat → List Nat
  | 0 => []
  | rounds + 1 =>
    let first := if i = 0 then FILESYSTEM_LASTCLUSTER else FILESYSTEM_FREECLUSTER
    (i + 1) :: match writeHDDSector { s with buffer := write32 s.buffer 0 first } (i + 1) 1 with
      | (false, _) => []
      | (true, s) => clearWrites s (i + 1) rounds

/-- The sectors that `kFormat` (:114) writes. -/
def kFormatWrites (s : State) (dwTotalSectorCount : Nat) : List Nat :=
  let (dwClusterLinkSectorCount, dwTotalClusterCount) := formatGeometry dwTotalSectorCount
  match readHDDSector s 0 1 with
  | (false, _) => []
  | (true, s) =>
    0 :: match writeHDDSector { s with buffer := formatMbr s.buffer dwClusterLinkSectorCount dwTotalClusterCount } 0 1 with
      | (false, _) => []
      | (true, s) => clearWrites { s with buffer := fill s.buffer 0 0 512 } 0
          (u32 (dwClusterLinkSectorCount + FILESYSTEM_SECTORSPERCLUSTER))

theorem writeHDDSector_untouched (s : State) {l : Nat} (hx : x / 512 ≠ l) :
    (writeHDDSector s l 1).2.disk x = s.disk x := by
  unfold writeHDDSector
  split
  · rfl
  · exact copy_outside _ _ _ (by omega)

theorem clearSectors_untouched (s : State) (i rounds : Nat) (hx : ∀ l ∈ clearWrites s i rounds, x / 512 ≠ l) :
    (clearSectors s i rounds).2.disk x = s.disk x := by
  induction rounds generalizing s i with
  | zero => rfl
  | succ rounds ih =>
    rw [clearWrites] at hx
    rw [clearSectors]
    have hfirst := writeHDDSector_untouched
      { s with buffer := write32 s.buffer 0 (if i = 0 then FILESYSTEM_LASTCLUSTER else FILESYSTEM_FREECLUSTER) }
      (hx (i + 1) (.head _))
    split
    · rename_i s₁ hwrite
      rwa [hwrite] at hfirst
    · rename_i s₁ hwrite
      rw [hwrite] at hfirst hx
      exact (ih s₁ (i + 1) fun l hl => hx l (.tail _ hl)).trans hfirst

/-- `kFormatWrites` are all the sectors that `kFormat` writes. -/
theorem kFormat_untouched (s : State) (T : Nat) (hx : ∀ l ∈ kFormatWrites s T, x / 512 ≠ l) :
    (kFormat s T).2.disk x = s.disk x := by
  unfold kFormatWrites at hx
  unfold kFormat
  dsimp only at hx ⊢
  have hread : (readHDDSector s 0 1).2.disk = s.disk := by
    unfold readHDDSector
    split <;> rfl
  split
  · rename_i s₁ hs₁
    rw [hs₁] at hread
    exact congrFun hread x
  · rename_i s₁ hs₁
    rw [hs₁] at hread hx
    dsimp only at hread hx ⊢
    have hmbr := writeHDDSector_untouched
      { s₁ with buffer := formatMbr s₁.buffer (formatGeometry T).1 (formatGeometry T).2 } (hx 0 (.head _))
    split
    · rename_i s₂ hwrite
      rw [hwrite] at hmbr
      exact hmbr.trans (congrFun hread x)
    · rename_i s₂ hwrite
      rw [hwrite] at hmbr hx
      exact (clearSectors_untouched _ _ _ fun l hl => hx l (.tail _ hl)).trans
        (hmbr.trans (congrFun hread x))

theorem clearWrites_le (s : State) (i rounds : Nat) : ∀ l ∈ clearWrites s i rounds, l ≤ i + rounds := by
  induction rounds generalizing s i with
  | zero =>
    rintro l ⟨⟩
  | succ rounds ih =>
    rw [clearWrites]
    rintro l hl
    rcases List.mem_cons.1 hl with rfl | hl
    · omega
    · split at hl
      · cases hl
      · rename_i s₁ hwrite
        have hle := ih s₁ (i + 1) l hl
        omega

theorem kFormatWrites_le (s : State) (T : Nat) : ∀ l ∈ kFormatWrites s T, l ≤ (formatGeometry T).1 + 8 := by
  unfold kFormatWrites
  dsimp only
  rintro l hl
  split at hl
  · cases hl
  · rename_i s₁ hs₁
    rcases List.mem_cons.1 hl with rfl | hl
    · exact Nat.zero_le _
    · split at hl
      · cases hl
      · have hle := clearWrites_le _ _ _ l hl
        have hmod := Nat.mod_le ((formatGeometry T).1 + FILESYSTEM_SECTORSPERCLUSTER) (2 ^ 32)
        unfold u32 at hle
        unfold FILESYSTEM_SECTORSPERCLUSTER at hle hmod
        omega

/-- **Formatting** writes the boot record, the link area and the root directory: the data behind them stays, however the
format ends. -/
theorem kFormat_keeps_data (s : State) (T : Nat) (hx : (formatGeometry T).1 + 8 < x / 512) :
    (kFormat s T).2.disk x = s.disk x :=
  kFormat_untouched s T fun l hl => by
    have := kFormatWrites_le s T l hl
    omega

theorem kFormat_keeps_data_blank :
    (kFormat (blank (fun _ => 0) fun _ => 7) 10).2.disk 5120 = (blank (fun _ => 0) fun _ => 7).disk 5120 :=
  kFormat_keeps_data _ 10 (by decide)

/-- The areas fit on the disk, the link table has a link for every cluster, there is one, and all that is written is on
the disk. -/
structure FormatRight (s : State) (T : Nat) : Prop where
  areas : 1 + (formatGeometry T).1 + 8 * (formatGeometry T).2 ≤ T
  links : (formatGeometry T).2 ≤ (formatGeometry T).1 * 128
  clusters : 1 ≤ (formatGeometry T).2
  writes : ∀ l ∈ kFormatWrites s T, l < T

theorem formatGeometry_pos (h : 10 ≤ T) (hT : T < 2 ^ 32) : 1 ≤ (formatGeometry T).2 := by
  unfold formatGeometry FILESYSTEM_SECTORSPERCLUSTER
  dsimp only
  rw [u32_of_lt (show T / 8 + 127 < 2 ^ 32 by omega), sub32_of_le (show (T / 8 + 127) / 128 ≤ T by omega) hT,
    sub32_of_le (show 1 ≤ T - (T / 8 + 127) / 128 by omega) (by omega)]
  omega

theorem formatGeometry_small : ∀ T < 10, T < 1 + (formatGeometry T).1 + 8 * (formatGeometry T).2 ∨
    (formatGeometry T).2 = 0 := by
  decide

/-- **The geometry of a formatted disk** is right from 10 sectors on. -/
theorem kFormat_right_iff (s : State) {T : Nat} (hT : T < 2 ^ 32) (_ : (kFormat s T).1 = true) :
    FormatRight s T ↔ 10 ≤ T := by
  constructor
  · intro h
    by_contra hsmall
    have hareas := h.areas
    have hclusters := h.clusters
    rcases formatGeometry_small T (by omega) with hlarge | hnone
    · omega
    · omega
  · intro h
    obtain ⟨hfits, hcover, -⟩ := formatGeometry_spec (show 9 ≤ T by omega) hT
    have hpos := formatGeometry_pos h hT
    refine ⟨hfits, by omega, hpos, fun l hl => ?_⟩
    have hle := kFormatWrites_le s T l hl
    omega

/-- Where no sector operation fails, `kFormat` succeeds. -/
theorem kFormat_ok (h : s.faults = []) (T : Nat) : (kFormat s T).1 = true := by
  unfold kFormat
  dsimp only
  rw [readHDDSector_ok h]
  dsimp only
  rw [writeHDDSector_ok (by exact h)]
  dsimp only
  obtain ⟨b, d, hclear, -⟩ := clearSectors_spec (s := { s with
      buffer := fill (formatMbr (copy s.buffer 0 s.disk (512 * 0) (512 * 1)) (formatGeometry T).1 (formatGeometry T).2)
        0 0 512
      disk := copy s.disk (512 * 0) (formatMbr (copy s.buffer 0 s.disk (512 * 0) (512 * 1)) (formatGeometry T).1
        (formatGeometry T).2) 0 (512 * 1) }) h (fun x _ hx => if_pos ⟨Nat.zero_le x, by omega⟩) 0
    (u32 ((formatGeometry T).1 + FILESYSTEM_SECTORSPERCLUSTER))
  rw [hclear]

theorem kFormat_right_smallest : FormatRight (blank (fun _ => 0) fun _ => 0) 10 :=
  (kFormat_right_iff _ (by decide) (kFormat_ok rfl 10)).2 (by decide)

/-- **A disk without sectors** gets 536870911 clusters. -/
theorem kFormat_wrong_empty : ¬∀ (s : State) (T : Nat), T < 2 ^ 32 → (kFormat s T).1 = true → FormatRight s T := by
  intro h
  have hareas := (h (blank (fun _ => 0) fun _ => 0) 0 (by decide) (kFormat_ok rfl 0)).areas
  revert hareas
  decide

end Mint
