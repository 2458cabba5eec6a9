import SkyOS.Mint.Format

/-!
# The search for a free cluster (`kFindFreeCluster`, `:320-:380`)

The search goes once around the sectors of the link table, beginning with the sector in which it found the last
cluster. Of the last sector it looks at the first `dwTotalClusterCount % 128` links ("as many as there are clusters
left"). Where the cluster count is a multiple of 128 that is none of them, and the sector's 128 clusters are never found.

The search also ends with the first sector that cannot be read. `Reaches` takes both into account: some free cluster is
among the links that are looked at, in a sector that is read.
-/

namespace Mint

open Bytes Machine Nat

/-- What `kFindFreeCluster` returns: a free cluster, if one exists, and that there is none only if none exists. -/
def SearchRight (s : State) : Prop :=
  ((∃ c < s.manager.dwTotalClusterCount, s.link c = FILESYSTEM_FREECLUSTER) →
    (kFindFreeCluster s).1 < s.manager.dwTotalClusterCount ∧ s.link (kFindFreeCluster s).1 = FILESYSTEM_FREECLUSTER) ∧
  ((¬∃ c < s.manager.dwTotalClusterCount, s.link c = FILESYSTEM_FREECLUSTER) →
    (kFindFreeCluster s).1 = FILESYSTEM_LASTCLUSTER)

/-- Round `k` of the search is reached, and its sector is read, if nothing was found before: none of the reads up to
it fails. -/
def Readable (s : State) (k : Nat) : Prop := true ∉ s.faults.take (k + 1)

/-- Cluster `c` is free, among the links that the search looks at, and in a sector that it can read. -/
def Reaches (s : State) (c : Nat) : Prop :=
  Findable s c ∧ ∃ k < s.manager.dwClusterLinkAreaSize, s.manager.sectorAt k = c / 128 ∧ Readable s k

variable {s : State}

/-! ## One round -/

variable {i : Nat}

theorem kReadClusterLinkTable_eq (h : Geometry s.manager) (hi : i < s.manager.dwClusterLinkAreaSize) :
    kReadClusterLinkTable s i =
      if s.faults.head? = some true then (false, { s with faults := s.faults.tail })
      else (true, { s with
        faults := s.faults.tail
        buffer := copy s.buffer 0 s.disk (s.manager.linkAddress (128 * i)) 512 }) := by
  unfold kReadClusterLinkTable readHDDSector
  rw [h.lba_link hi]

theorem readable_zero : Readable s 0 ↔ s.faults.head? ≠ some true := by
  unfold Readable
  cases s.faults with
  | nil => simp
  | cons b faults => cases b <;> simp

theorem readable_succ {s' : State} (hfaults : s'.faults = s.faults.tail) (hhead : s.faults.head? ≠ some true) (k : Nat) :
    Readable s (k + 1) ↔ Readable s' k := by
  unfold Readable
  rw [hfaults]
  cases hf : s.faults with
  | nil => simp
  | cons b faults =>
    cases b with
    | true => simp [hf] at hhead
    | false => simp

theorem not_readable (hhead : s.faults.head? = some true) (k : Nat) : ¬Readable s k := by
  unfold Readable
  cases hf : s.faults with
  | nil => simp [hf] at hhead
  | cons b faults => simp_all

theorem Geometry.sectorAt_lt (h : Geometry s.manager)
    (k : Nat) : s.manager.sectorAt k < s.manager.dwClusterLinkAreaSize := by
  have hlast := h.last
  exact mod_lt _ (by omega)

theorem Geometry.exists_round (h : Geometry s.manager) (hi : i < s.manager.dwClusterLinkAreaSize) :
    ∃ k < s.manager.dwClusterLinkAreaSize, s.manager.sectorAt k = i := by
  have hlast := h.last
  have harea := h.area_lt
  refine ⟨(i + (s.manager.dwClusterLinkAreaSize - s.manager.dwLastAllocatedClusterLinkSectorOffset)) %
    s.manager.dwClusterLinkAreaSize, mod_lt _ (by omega), ?_⟩
  have hturn : s.manager.dwLastAllocatedClusterLinkSectorOffset + (i + (s.manager.dwClusterLinkAreaSize -
      s.manager.dwLastAllocatedClusterLinkSectorOffset)) = i + s.manager.dwClusterLinkAreaSize := by omega
  unfold Manager.sectorAt
  rw [u32_of_lt (by have := mod_lt (i + (s.manager.dwClusterLinkAreaSize -
      s.manager.dwLastAllocatedClusterLinkSectorOffset)) (show 0 < s.manager.dwClusterLinkAreaSize by omega); omega),
    add_mod_mod, hturn, add_mod_right, mod_eq_of_lt hi]

/-! ## The search -/

/-- From round `i` on: what is found is free and was looked at, and if nothing is found, nothing was there to be found
in the sectors that could be read. -/
theorem findFreeFrom_right (h : Geometry s.manager) {rounds : Nat} (hi : i + rounds ≤ s.manager.dwClusterLinkAreaSize) :
    (∃ k < rounds, Readable s k ∧ ∃ j < s.manager.linksIn (s.manager.sectorAt (i + k)),
      s.link (128 * s.manager.sectorAt (i + k) + j) = 0 ∧
      (findFreeFrom s s.manager.dwLastAllocatedClusterLinkSectorOffset i rounds).1 =
        128 * s.manager.sectorAt (i + k) + j) ∨
    ((findFreeFrom s s.manager.dwLastAllocatedClusterLinkSectorOffset i rounds).1 = FILESYSTEM_LASTCLUSTER ∧
      ∀ k < rounds, Readable s k → ∀ j < s.manager.linksIn (s.manager.sectorAt (i + k)),
        s.link (128 * s.manager.sectorAt (i + k) + j) ≠ 0) := by
  induction rounds generalizing s i with
  | zero => exact .inr ⟨rfl, fun k hk => absurd hk (Nat.not_lt_zero k)⟩
  | succ rounds ih =>
    have hsector := h.sectorAt_lt i
    have harea := h.area_lt
    rw [findFreeFrom]
    rw [show u32 (s.manager.dwLastAllocatedClusterLinkSectorOffset + i) % s.manager.dwClusterLinkAreaSize =
      s.manager.sectorAt i from rfl, kReadClusterLinkTable_eq h hsector]
    by_cases hhead : s.faults.head? = some true
    · rw [if_pos hhead]
      exact .inr ⟨rfl, fun k _ hk => absurd hk (not_readable hhead k)⟩
    · rw [if_neg hhead]
      dsimp only
      rw [linkCountInSector_eq h (by omega), find_link s _ (linksIn_le _ _)]
      split
      · rename_i j hfound
        have hj : j < s.manager.linksIn (s.manager.sectorAt i) :=
          List.mem_range.1 (List.mem_of_find?_eq_some hfound)
        have hfree : s.link (128 * s.manager.sectorAt i + j) = 0 := by simpa using List.find?_some hfound
        have hj128 := Nat.lt_of_lt_of_le hj (linksIn_le _ _)
        have hresult : u32 (s.manager.sectorAt i * 128 + j) = 128 * s.manager.sectorAt i + j := by
          rw [u32_of_lt (by omega), Nat.mul_comm]
        exact .inl ⟨0, succ_pos rounds, readable_zero.2 hhead, j, hj, hfree, hresult⟩
      · rename_i hnone
        let s' : State := { s with
          faults := s.faults.tail
          buffer := copy s.buffer 0 s.disk (s.manager.linkAddress (128 * s.manager.sectorAt i)) 512 }
        have hrest := ih (s := s') (i := i + 1) h (show i + 1 + rounds ≤ s.manager.dwClusterLinkAreaSize by omega)
        rcases hrest with ⟨k, hk, hread, j, hj, hfree, hresult⟩ | ⟨hresult, hall⟩
        · rw [Nat.add_assoc, Nat.add_comm 1 k] at hj hfree hresult
          exact .inl ⟨k + 1, succ_lt_succ hk, (readable_succ rfl hhead k).2 hread, j, hj, hfree, hresult⟩
        · refine .inr ⟨hresult, fun k hk hread j hj => ?_⟩
          cases k with
          | zero => simpa using List.find?_eq_none.1 hnone j (List.mem_range.2 hj)
          | succ k =>
            rw [← Nat.add_assoc, Nat.add_right_comm] at hj ⊢
            exact hall k (lt_of_succ_lt_succ hk) ((readable_succ rfl hhead k).1 hread) j hj

theorem Geometry.total_le (h : Geometry s.manager) : s.manager.dwTotalClusterCount < FILESYSTEM_LASTCLUSTER := by
  have hfits := h.fits
  unfold FILESYSTEM_LASTCLUSTER
  omega

/-- **What the search finds**: a free cluster, where one is within its reach, else nothing. -/
theorem kFindFreeCluster_reaches (h : Geometry s.manager) :
    ((kFindFreeCluster s).1 < s.manager.dwTotalClusterCount ∧ Reaches s (kFindFreeCluster s).1) ∨
    ((kFindFreeCluster s).1 = FILESYSTEM_LASTCLUSTER ∧ ∀ c < s.manager.dwTotalClusterCount, ¬Reaches s c) := by
  unfold kFindFreeCluster
  rw [if_pos h.mounted]
  rcases findFreeFrom_right h (i := 0) (Nat.le_of_eq (Nat.zero_add _)) with
    ⟨k, hk, hread, j, hj, hfree, hresult⟩ | ⟨hresult, hall⟩
  · rw [Nat.zero_add] at hj hfree hresult
    have hj128 := Nat.lt_of_lt_of_le hj (linksIn_le _ _)
    have hdiv : (128 * s.manager.sectorAt k + j) / 128 = s.manager.sectorAt k := by omega
    have hmod : (128 * s.manager.sectorAt k + j) % 128 = j := by omega
    rw [hresult]
    refine .inl ⟨h.lt_of_linksIn (h.sectorAt_lt k) hj, ⟨hfree, ?_⟩, k, hk, hdiv.symm, hread⟩
    rw [hdiv, hmod]
    exact hj
  · refine .inr ⟨hresult, ?_⟩
    rintro c hc ⟨⟨hfree, hlinks⟩, k, hk, hsector, hread⟩
    have hnot := hall k hk hread (c % 128)
    rw [Nat.zero_add, hsector, div_add_mod] at hnot
    exact hnot hlinks hfree

/-- Where no read fails, a free cluster is within reach unless it is in the last link sector of a volume whose cluster
count is a multiple of 128. -/
theorem reaches_iff (h : Geometry s.manager) (hfaults : s.faults = []) {c : Nat} (hc : c < s.manager.dwTotalClusterCount) :
    Reaches s c ↔ s.link c = FILESYSTEM_FREECLUSTER ∧
      ¬(s.manager.dwTotalClusterCount % 128 = 0 ∧ c / 128 + 1 = s.manager.dwClusterLinkAreaSize) := by
  have hcover := h.cover
  have hround := h.exists_round (i := c / 128) (by omega)
  have hread : ∀ k, Readable s k := fun k => by simp [Readable, hfaults]
  have hlinks : c % 128 < s.manager.linksIn (c / 128) ↔
      ¬(s.manager.dwTotalClusterCount % 128 = 0 ∧ c / 128 + 1 = s.manager.dwClusterLinkAreaSize) := by
    unfold Manager.linksIn
    split <;> omega
  constructor
  · rintro ⟨⟨hfree, hlt⟩, -⟩
    exact ⟨hfree, hlinks.1 hlt⟩
  · rintro ⟨hfree, hlt⟩
    obtain ⟨k, hk, hsector⟩ := hround
    exact ⟨⟨hfree, hlinks.2 hlt⟩, k, hk, hsector, hread k⟩

theorem boot_clusters (disk buffer : Memory) {T : Nat} (h : 9 ≤ T) (hT : T < 2 ^ 32) :
    (boot disk buffer T).manager.dwTotalClusterCount = (formatGeometry T).2 ∧
      (boot disk buffer T).manager.dwClusterLinkAreaSize = (formatGeometry T).1 := by
  obtain ⟨b, d, hboot, -⟩ := boot_spec disk buffer h hT rfl
  rw [hboot]
  exact ⟨rfl, rfl⟩

/-- **When the search is exact**: no cluster is free, or a free one is within its reach. -/
theorem kFindFreeCluster_right_iff (s : State) (h : Geometry s.manager) : SearchRight s ↔
    (∀ c < s.manager.dwTotalClusterCount, s.link c ≠ FILESYSTEM_FREECLUSTER) ∨
      ∃ c < s.manager.dwTotalClusterCount, Reaches s c := by
  unfold SearchRight
  rcases kFindFreeCluster_reaches h with ⟨hlt, hfound⟩ | ⟨hlast, hnone⟩
  · exact iff_of_true ⟨fun _ => ⟨hlt, hfound.1.1⟩, fun hno => absurd ⟨_, hlt, hfound.1.1⟩ hno⟩ (.inr ⟨_, hlt, hfound⟩)
  · have htotal := h.total_le
    constructor
    · rintro ⟨hsome, -⟩
      refine .inl fun c hc hlink => ?_
      have hlt := (hsome ⟨c, hc, hlink⟩).1
      omega
    · rintro (hall | ⟨c, hc, hreach⟩)
      · exact ⟨fun ⟨c, hc, hlink⟩ => absurd hlink (hall c hc), fun _ => hlast⟩
      · exact absurd hreach (hnone c hc)

theorem kFindFreeCluster_right_boot : SearchRight (boot (fun _ => 0) (fun _ => 0) 2000) := by
  obtain ⟨-, hfree, -, hready⟩ := boot_empty (fun _ => 0) (fun _ => 0) (show 9 ≤ 2000 by decide) (by decide)
  obtain ⟨hclusters, -⟩ := boot_clusters (fun _ => 0) (fun _ => 0) (show 9 ≤ 2000 by decide) (by decide)
  have htotal : (boot (fun _ => 0) (fun _ => 0) 2000).manager.dwTotalClusterCount = 249 := hclusters.trans (by decide)
  obtain ⟨⟨hgeometry, hfaults⟩, -⟩ := hready (by rw [htotal]; decide)
  have hreach : Reaches (boot (fun _ => 0) (fun _ => 0) 2000) 1 := by
    refine (reaches_iff hgeometry hfaults (by rw [htotal]; decide)).2 ⟨hfree 1 (by decide) (by rw [htotal]; decide), ?_⟩
    rw [htotal]
    decide
  exact (kFindFreeCluster_right_iff _ hgeometry).2 (.inr ⟨1, by rw [htotal]; decide, hreach⟩)

/-! ## Which clusters are out of reach -/

/-! ## A formatted volume -/

/-- After `kFormat` and `kMount` every cluster but the first is free, and the search is right unless there are exactly
128 of them. -/
theorem boot_search_right_iff (disk buffer : Memory) {T : Nat} (h : 9 ≤ T) (hT : T < 2 ^ 32)
    (hpos : 0 < (formatGeometry T).2) : SearchRight (boot disk buffer T) ↔ (formatGeometry T).2 ≠ 128 := by
  obtain ⟨hclusters, harea⟩ := boot_clusters disk buffer h hT
  obtain ⟨-, hfree, -, hready⟩ := boot_empty disk buffer h hT
  obtain ⟨⟨hgeometry, hfaults⟩, hroot, -⟩ := hready (by rw [hclusters]; exact hpos)
  have hcover := hgeometry.cover
  have htight := hgeometry.tight
  rw [hclusters] at hcover htight
  rw [kFindFreeCluster_right_iff _ hgeometry, hclusters]
  constructor
  · rintro (hall | ⟨c, hc, hreach⟩) h128
    · exact hall 1 (by omega) (hfree 1 (by decide) (by omega))
    · obtain ⟨-, hnot⟩ := (reaches_iff hgeometry hfaults (by omega)).1 hreach
      rw [hclusters] at hnot
      omega
  · intro hne
    rcases Nat.lt_or_ge 1 (formatGeometry T).2 with hmany | hone
    · refine .inr ⟨1, hmany, (reaches_iff hgeometry hfaults (by omega)).2 ⟨hfree 1 (by decide) (by omega), ?_⟩⟩
      rw [hclusters]
      omega
    · refine .inl fun c hc => ?_
      obtain rfl : c = 0 := by omega
      rw [hroot]
      decide

/-- 127 free clusters, none of which is found. -/
theorem boot_search_wrong : ¬SearchRight (boot (fun _ => 0) (fun _ => 0) 1026) := by
  rw [boot_search_right_iff (fun _ => 0) (fun _ => 0) (by decide) (by decide) (by decide)]
  decide

end Mint
