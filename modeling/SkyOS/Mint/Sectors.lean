import Mathlib.Data.List.Find
import SkyOS.Mint.Volume
import SkyOS.RamDisk.RAMDisk

/-!
# What the operations on a mounted MINT volume do

On a mounted volume whose sector operations succeed (`Ready`), every function of the lower half of the file
system is a function of the disk: `link`, `startOf`, `sizeOf` and `byte` read it, setting a link is `write32`,
writing a cluster or an entry is `copy`. The three areas (link table, root directory, data) do not overlap, so
each write leaves the other readings alone. After this module nothing looks into the buffer but `kReadFile` and
`kWriteFile`.

The sector operations here move all they are asked for. On the RAM disk that is so for the link table and for every
cluster but the last of the disk, of which some sectors stay behind (`OnRamDisk`).
-/

namespace Mint

open Bytes Machine List Nat
open Function (update update_apply)

/-- The areas that `kMount` finds: the link table has a link for every cluster, and the data area follows it. -/
structure Geometry (m : Manager) : Prop where
  mounted : m.bMounted = true
  area : m.dwDataAreaStartAddress = m.dwClusterLinkAreaStartAddress + m.dwClusterLinkAreaSize
  cover : m.dwTotalClusterCount ≤ 128 * m.dwClusterLinkAreaSize
  tight : 128 * m.dwClusterLinkAreaSize < m.dwTotalClusterCount + 128
  fits : m.dwDataAreaStartAddress + 8 * m.dwTotalClusterCount < 2 ^ 32
  last : m.dwLastAllocatedClusterLinkSectorOffset < m.dwClusterLinkAreaSize
  pos : 0 < m.dwTotalClusterCount

/-- Mounted, and no sector operation is going to fail. -/
structure Ready (s : State) : Prop where
  geometry : Geometry s.manager
  noFaults : s.faults = []

structure Laid (m : Manager) : Prop where
  mounted : m.bMounted = true
  area : m.dwDataAreaStartAddress = m.dwClusterLinkAreaStartAddress + m.dwClusterLinkAreaSize
  fits : m.dwDataAreaStartAddress < 2 ^ 32

theorem Geometry.laid {m : Manager} (h : Geometry m) : Laid m := by
  have hfits := h.fits
  exact ⟨h.mounted, h.area, by omega⟩

/-! ## Reading the disk -/

def Manager.linkAddress (m : Manager) (c : Nat) : Nat := 512 * m.dwClusterLinkAreaStartAddress + 4 * c

def Manager.clusterAddress (m : Manager) (c : Nat) : Nat := 512 * m.dwDataAreaStartAddress + 4096 * c

def Manager.entryAddress (m : Manager) (i : Nat) : Nat := 512 * m.dwDataAreaStartAddress + 32 * i

/-- The link of cluster `c`. -/
def State.link (s : State) (c : Nat) : Nat := read32 s.disk (s.manager.linkAddress c)

/-- `dwStartClusterIndex` of directory entry `i`. -/
def State.startOf (s : State) (i : Nat) : Nat := read32 s.disk (s.manager.entryAddress i + 28)

/-- `dwFileSize` of directory entry `i`. -/
def State.sizeOf (s : State) (i : Nat) : Nat := read32 s.disk (s.manager.entryAddress i + 24)

/-- The first character of the name of directory entry `i`. -/
def State.initialOf (s : State) (i : Nat) : UInt8 := s.disk (s.manager.entryAddress i)

/-- Byte `x` of cluster `c`. -/
def State.byte (s : State) (c x : Nat) : UInt8 := s.disk (s.manager.clusterAddress c + x)

variable {s : State}

theorem readHDDSector_ok (h : s.faults = []) (dwLBA n : Nat) : readHDDSector s dwLBA n =
    (true, { s with buffer := copy s.buffer 0 s.disk (512 * dwLBA) (512 * n) }) := by
  obtain ⟨disk, faults, buffer, manager⟩ := s
  cases h
  rfl

theorem writeHDDSector_ok (h : s.faults = []) (dwLBA n : Nat) : writeHDDSector s dwLBA n =
    (true, { s with disk := copy s.disk (512 * dwLBA) s.buffer 0 (512 * n) }) := by
  obtain ⟨disk, faults, buffer, manager⟩ := s
  cases h
  rfl

variable {c i x : Nat} {stEntry : Memory}

theorem Geometry.lba_cluster (h : Geometry s.manager) (hc : c < s.manager.dwTotalClusterCount) :
    512 * u32 (c * FILESYSTEM_SECTORSPERCLUSTER + s.manager.dwDataAreaStartAddress) =
      s.manager.clusterAddress c := by
  have hfits := h.fits
  rw [u32_of_lt (by unfold FILESYSTEM_SECTORSPERCLUSTER; omega)]
  unfold FILESYSTEM_SECTORSPERCLUSTER Manager.clusterAddress
  omega

theorem Geometry.lba_link (h : Geometry s.manager) (hi : i < s.manager.dwClusterLinkAreaSize) :
    512 * u32 (i + s.manager.dwClusterLinkAreaStartAddress) = s.manager.linkAddress (128 * i) := by
  have hfits := h.fits
  have harea := h.area
  rw [u32_of_lt (by omega)]
  unfold Manager.linkAddress
  omega

theorem kReadCluster_spec (h : Ready s) (hc : c < s.manager.dwTotalClusterCount) :
    kReadCluster s c =
      (true, { s with buffer := copy s.buffer 0 s.disk (s.manager.clusterAddress c) 4096 }) := by
  unfold kReadCluster
  rw [readHDDSector_ok h.noFaults, h.geometry.lba_cluster hc]
  rfl

theorem kWriteCluster_spec (h : Ready s) (hc : c < s.manager.dwTotalClusterCount) :
    kWriteCluster s c =
      (true, { s with disk := copy s.disk (s.manager.clusterAddress c) s.buffer 0 4096 }) := by
  unfold kWriteCluster
  rw [writeHDDSector_ok h.noFaults, h.geometry.lba_cluster hc]
  rfl

theorem kReadClusterLinkTable_spec (h : Ready s) (hi : i < s.manager.dwClusterLinkAreaSize) :
    kReadClusterLinkTable s i =
      (true, { s with buffer := copy s.buffer 0 s.disk (s.manager.linkAddress (128 * i)) 512 }) := by
  unfold kReadClusterLinkTable
  rw [readHDDSector_ok h.noFaults, h.geometry.lba_link hi]

theorem kWriteClusterLinkTable_spec (h : Ready s) (hi : i < s.manager.dwClusterLinkAreaSize) :
    kWriteClusterLinkTable s i =
      (true, { s with disk := copy s.disk (s.manager.linkAddress (128 * i)) s.buffer 0 512 }) := by
  unfold kWriteClusterLinkTable
  rw [writeHDDSector_ok h.noFaults, h.geometry.lba_link hi]

theorem Laid.lba_root (h : Laid s.manager) :
    512 * u32 (0 * FILESYSTEM_SECTORSPERCLUSTER + s.manager.dwDataAreaStartAddress) = s.manager.clusterAddress 0 := by
  rw [Nat.zero_mul, Nat.zero_add, u32_of_lt h.fits]
  rfl

theorem kReadCluster_root (h : Laid s.manager) (hfaults : s.faults = []) :
    kReadCluster s 0 =
      (true, { s with buffer := copy s.buffer 0 s.disk (s.manager.clusterAddress 0) 4096 }) := by
  unfold kReadCluster
  rw [readHDDSector_ok hfaults, h.lba_root]
  rfl

theorem kWriteCluster_root (h : Laid s.manager) (hfaults : s.faults = []) :
    kWriteCluster s 0 =
      (true, { s with disk := copy s.disk (s.manager.clusterAddress 0) s.buffer 0 4096 }) := by
  unfold kWriteCluster
  rw [writeHDDSector_ok hfaults, h.lba_root]
  rfl

theorem Ready.withBuffer (h : Ready s) (b : Memory) : Ready { s with buffer := b } := ⟨h.geometry, h.noFaults⟩

/-! ## Links -/

theorem kGetClusterLinkData_spec (h : Ready s) (hc : c < s.manager.dwTotalClusterCount) :
    ∃ b, kGetClusterLinkData s c = (some (s.link c), { s with buffer := b }) := by
  have hcover := h.geometry.cover
  have hi : c / 128 < s.manager.dwClusterLinkAreaSize := by omega
  refine ⟨copy s.buffer 0 s.disk (s.manager.linkAddress (128 * (c / 128))) 512, ?_⟩
  unfold kGetClusterLinkData
  rw [if_pos ⟨h.geometry.mounted, by omega⟩, kReadClusterLinkTable_spec h hi]
  dsimp only
  have haddr : s.manager.linkAddress (128 * (c / 128)) + (4 * (c % 128) - 0) = s.manager.linkAddress c := by
    unfold Manager.linkAddress
    omega
  rw [read32_copy_inside _ _ _ (zero_le _) (by omega), haddr]
  rfl

theorem kGetClusterLinkData_quiet (h : s.faults = []) (c : Nat) :
    ∃ o b, kGetClusterLinkData s c = (o, { s with buffer := b }) := by
  unfold kGetClusterLinkData
  split
  · unfold kReadClusterLinkTable
    rw [readHDDSector_ok h]
    exact ⟨_, _, rfl⟩
  · exact ⟨_, _, rfl⟩

theorem kSetClusterLinkData_spec (h : Ready s) (hc : c < s.manager.dwTotalClusterCount) (v : Nat) :
    ∃ b, kSetClusterLinkData s c v =
      (true, { s with buffer := b, disk := write32 s.disk (s.manager.linkAddress c) v }) := by
  have hcover := h.geometry.cover
  have hi : c / 128 < s.manager.dwClusterLinkAreaSize := by omega
  have haddr : s.manager.linkAddress (128 * (c / 128)) + 4 * (c % 128) = s.manager.linkAddress c := by
    unfold Manager.linkAddress
    omega
  unfold kSetClusterLinkData
  rw [if_pos h.geometry.mounted, kReadClusterLinkTable_spec h hi]
  have hwrite := kWriteClusterLinkTable_spec (h.withBuffer
    (write32 (copy s.buffer 0 s.disk (s.manager.linkAddress (128 * (c / 128))) 512) (4 * (c % 128)) v)) hi
  rw [copy_write32_copy _ _ _ (by omega), haddr] at hwrite
  exact ⟨_, hwrite⟩

/-! ## Links of any cluster

The bound that `kGetClusterLinkData` checks lets one sector more through than the link table has. -/

theorem Laid.lba_link (h : Laid s.manager) (hc : c / 128 ≤ s.manager.dwClusterLinkAreaSize) :
    512 * u32 (c / 128 + s.manager.dwClusterLinkAreaStartAddress) + 4 * (c % 128) = s.manager.linkAddress c := by
  have hfits := h.fits
  have harea := h.area
  rw [u32_of_lt (by omega)]
  unfold Manager.linkAddress
  omega

theorem kGetClusterLinkData_readable (h : Laid s.manager) (hfaults : s.faults = [])
    (hc : c / 128 ≤ s.manager.dwClusterLinkAreaSize) :
    ∃ b, kGetClusterLinkData s c = (some (s.link c), { s with buffer := b }) := by
  refine ⟨copy s.buffer 0 s.disk (512 * u32 (c / 128 + s.manager.dwClusterLinkAreaStartAddress)) (512 * 1), ?_⟩
  unfold kGetClusterLinkData kReadClusterLinkTable
  rw [if_pos ⟨h.mounted, hc⟩, readHDDSector_ok hfaults]
  dsimp only
  rw [read32_copy_inside _ _ _ (zero_le _) (by omega), Nat.sub_zero, h.lba_link hc]
  rfl

theorem kGetClusterLinkData_unreadable (hc : s.manager.dwClusterLinkAreaSize < c / 128) :
    kGetClusterLinkData s c = (none, s) :=
  if_neg fun h => absurd h.2 (Nat.not_le.2 hc)

theorem kSetClusterLinkData_readable (h : Laid s.manager) (hfaults : s.faults = [])
    (hc : c / 128 ≤ s.manager.dwClusterLinkAreaSize) (v : Nat) :
    ∃ b, kSetClusterLinkData s c v =
      (true, { s with buffer := b, disk := write32 s.disk (s.manager.linkAddress c) v }) := by
  unfold kSetClusterLinkData kReadClusterLinkTable kWriteClusterLinkTable
  rw [if_pos h.mounted, readHDDSector_ok hfaults]
  dsimp only
  rw [writeHDDSector_ok (by exact hfaults)]
  rw [copy_write32_copy _ _ _ (by omega), h.lba_link hc]
  exact ⟨_, rfl⟩

section
variable {b : Memory} {v : Nat}

theorem link_setLink (hv : v < 2 ^ 32) :
    State.link { s with buffer := b, disk := write32 s.disk (s.manager.linkAddress c) v } =
      update s.link c v := by
  funext c'
  by_cases hc : c' = c
  · subst hc
    rw [Function.update_self]
    exact read32_write32_self _ _ hv
  · rw [Function.update_of_ne hc]
    refine read32_write32_of_disjoint _ ?_ _
    change s.manager.linkAddress c' + 4 ≤ _ ∨ _ ≤ s.manager.linkAddress c'
    unfold Manager.linkAddress
    omega

section

variable (h : Geometry s.manager) (hc : c < s.manager.dwTotalClusterCount)
include h hc

theorem Geometry.linkAddress_lt :
    s.manager.linkAddress c + 4 ≤ 512 * s.manager.dwDataAreaStartAddress := by
  have hcover := h.cover
  have harea := h.area
  unfold Manager.linkAddress
  omega

theorem disk_setLink (hx : 512 * s.manager.dwDataAreaStartAddress ≤ x) :
    write32 s.disk (s.manager.linkAddress c) v x = s.disk x :=
  write32_outside _ (by have := h.linkAddress_lt hc; omega) _

theorem byte_setLink :
    State.byte { s with buffer := b, disk := write32 s.disk (s.manager.linkAddress c) v } = s.byte := by
  funext c' x
  refine disk_setLink h hc ?_
  change _ ≤ s.manager.clusterAddress c' + x
  unfold Manager.clusterAddress
  omega

end

end

/-! ## The search for a free cluster -/

/-- The links that the search looks at in sector `i`: of the last sector, `dwTotalClusterCount % 128`. -/
def Manager.linksIn (m : Manager) (i : Nat) : Nat :=
  if i + 1 = m.dwClusterLinkAreaSize then m.dwTotalClusterCount % 128 else 128

def Findable (s : State) (c : Nat) : Prop := s.link c = 0 ∧ c % 128 < s.manager.linksIn (c / 128)

theorem Geometry.area_lt (h : Geometry s.manager) : s.manager.dwClusterLinkAreaSize < 2 ^ 23 := by
  have hfits := h.fits
  have htight := h.tight
  omega

theorem linkCountInSector_eq (h : Geometry s.manager) (hi : i < s.manager.dwClusterLinkAreaSize) :
    linkCountInSector s.manager s.manager.dwLastAllocatedClusterLinkSectorOffset i =
      s.manager.linksIn (u32 (s.manager.dwLastAllocatedClusterLinkSectorOffset + i) %
        s.manager.dwClusterLinkAreaSize) := by
  have hlast := h.last
  have harea := h.area_lt
  have hmod : (s.manager.dwLastAllocatedClusterLinkSectorOffset + i) % s.manager.dwClusterLinkAreaSize + 1 =
      s.manager.dwClusterLinkAreaSize ↔
      s.manager.dwLastAllocatedClusterLinkSectorOffset + i = s.manager.dwClusterLinkAreaSize - 1 := by
    by_cases hlt : s.manager.dwLastAllocatedClusterLinkSectorOffset + i < s.manager.dwClusterLinkAreaSize
    · rw [mod_eq_of_lt hlt]
      omega
    · rw [mod_eq_sub_mod (by omega), mod_eq_of_lt (by omega)]
      omega
  unfold linkCountInSector Manager.linksIn
  rw [u32_of_lt (by omega), sub32_of_le (by omega) (by omega)]
  simp only [hmod]

theorem find_link (s : State) (i : Nat) {n : Nat} (hn : n ≤ 128) :
    ((List.range n).find? fun j => decide (read32 (copy s.buffer 0 s.disk (s.manager.linkAddress (128 * i)) 512)
      (4 * j) = FILESYSTEM_FREECLUSTER)) = (List.range n).find? fun j => decide (s.link (128 * i + j) = 0) := by
  refine List.find?_congr fun j hj => ?_
  have hjn := mem_range.1 hj
  have haddr : s.manager.linkAddress (128 * i) + (4 * j - 0) = s.manager.linkAddress (128 * i + j) := by
    unfold Manager.linkAddress
    omega
  rw [read32_copy_inside _ _ _ (zero_le _) (by omega), haddr]
  rfl

theorem linksIn_le (m : Manager) (i : Nat) : m.linksIn i ≤ 128 := by
  unfold Manager.linksIn
  split <;> omega

theorem Geometry.lt_of_linksIn (h : Geometry s.manager) {j : Nat} (hi : i < s.manager.dwClusterLinkAreaSize)
    (hj : j < s.manager.linksIn i) : 128 * i + j < s.manager.dwTotalClusterCount := by
  have htight := h.tight
  unfold Manager.linksIn at hj
  split at hj <;> omega

/-- The sector that the search looks at in round `i`. -/
def Manager.sectorAt (m : Manager) (i : Nat) : Nat :=
  u32 (m.dwLastAllocatedClusterLinkSectorOffset + i) % m.dwClusterLinkAreaSize

theorem findFreeFrom_spec (h : Ready s) {rounds : Nat} (hi : i + rounds ≤ s.manager.dwClusterLinkAreaSize) :
    ∃ a b l, findFreeFrom s s.manager.dwLastAllocatedClusterLinkSectorOffset i rounds =
        (a, { s with
          buffer := b
          manager := { s.manager with dwLastAllocatedClusterLinkSectorOffset := l } }) ∧
      l < s.manager.dwClusterLinkAreaSize ∧
      ((a < s.manager.dwTotalClusterCount ∧ Findable s a) ∨
       (a = FILESYSTEM_LASTCLUSTER ∧ ∀ k, i ≤ k → k < i + rounds → ∀ j < s.manager.linksIn (s.manager.sectorAt k),
          s.link (128 * s.manager.sectorAt k + j) ≠ 0)) := by
  have hlast := h.geometry.last
  induction rounds generalizing s i with
  | zero =>
    exact ⟨FILESYSTEM_LASTCLUSTER, s.buffer, s.manager.dwLastAllocatedClusterLinkSectorOffset, rfl, hlast,
      .inr ⟨rfl, fun k hk hk' => by omega⟩⟩
  | succ rounds ih =>
    have hsector : s.manager.sectorAt i < s.manager.dwClusterLinkAreaSize := mod_lt _ (by omega)
    have harea := h.geometry.area_lt
    rw [findFreeFrom]
    dsimp only
    rw [show u32 (s.manager.dwLastAllocatedClusterLinkSectorOffset + i) % s.manager.dwClusterLinkAreaSize =
      s.manager.sectorAt i from rfl, kReadClusterLinkTable_spec h hsector]
    dsimp only
    rw [linkCountInSector_eq h.geometry (by omega), find_link s _ (linksIn_le _ _)]
    split
    · rename_i j hfound
      have hj : j < s.manager.linksIn (s.manager.sectorAt i) :=
        mem_range.1 (List.mem_of_find?_eq_some hfound)
      have hfree : s.link (128 * s.manager.sectorAt i + j) = 0 := by
        have hp := List.find?_some hfound
        simpa using hp
      have hlt := h.geometry.lt_of_linksIn hsector hj
      have hj128 := Nat.lt_of_lt_of_le hj (linksIn_le _ _)
      have heq : u32 (s.manager.sectorAt i * 128 + j) = 128 * s.manager.sectorAt i + j := by
        rw [u32_of_lt (by omega)]
        omega
      refine ⟨_, _, _, rfl, hsector, .inl ?_⟩
      rw [heq]
      refine ⟨hlt, hfree, ?_⟩
      rw [show (128 * s.manager.sectorAt i + j) / 128 = s.manager.sectorAt i by omega]
      omega
    · rename_i hnone
      obtain ⟨a, b, l, hrest, hl, hcases⟩ := ih (i := i + 1)
        (h.withBuffer (copy s.buffer 0 s.disk (s.manager.linkAddress (128 * s.manager.sectorAt i)) 512))
        (show i + 1 + rounds ≤ s.manager.dwClusterLinkAreaSize by omega) hlast
      refine ⟨a, b, l, hrest, hl, ?_⟩
      rcases hcases with hfound | ⟨ha, hall⟩
      · exact .inl hfound
      · refine .inr ⟨ha, fun k hk hk' j hj => ?_⟩
        rcases Nat.eq_or_lt_of_le hk with rfl | hlt
        · have hnot := List.find?_eq_none.1 hnone j (mem_range.2 hj)
          simpa using hnot
        · exact hall k (by omega) (by omega) j hj

theorem kFindFreeCluster_spec (h : Ready s) : ∃ a b l, kFindFreeCluster s =
      (a, { s with
        buffer := b
        manager := { s.manager with dwLastAllocatedClusterLinkSectorOffset := l } }) ∧
    l < s.manager.dwClusterLinkAreaSize ∧
    ((a < s.manager.dwTotalClusterCount ∧ Findable s a) ∨
     (a = FILESYSTEM_LASTCLUSTER ∧ ∀ c < s.manager.dwTotalClusterCount, ¬ Findable s c)) := by
  obtain ⟨a, b, l, hfind, hl, hcases⟩ := findFreeFrom_spec h (i := 0) (Nat.le_of_eq (Nat.zero_add _))
  refine ⟨a, b, l, ?_, hl, ?_⟩
  · unfold kFindFreeCluster
    rw [if_pos h.geometry.mounted]
    exact hfind
  · rcases hcases with hfound | ⟨ha, hall⟩
    · exact .inl hfound
    · refine .inr ⟨ha, fun c hc hcfind => ?_⟩
      have hlast := h.geometry.last
      have hcover := h.geometry.cover
      have harea := h.geometry.area_lt
      -- the round in which the search looks at the sector of `c`
      let k := (c / 128 + (s.manager.dwClusterLinkAreaSize - s.manager.dwLastAllocatedClusterLinkSectorOffset)) %
        s.manager.dwClusterLinkAreaSize
      have hk : k < s.manager.dwClusterLinkAreaSize := mod_lt _ (by omega)
      have hsector : s.manager.sectorAt k = c / 128 := by
        unfold Manager.sectorAt
        rw [u32_of_lt (by omega), add_mod_mod]
        rw [show s.manager.dwLastAllocatedClusterLinkSectorOffset + (c / 128 + (s.manager.dwClusterLinkAreaSize -
          s.manager.dwLastAllocatedClusterLinkSectorOffset)) = c / 128 + s.manager.dwClusterLinkAreaSize by omega,
          add_mod_right, mod_eq_of_lt (by omega)]
      refine hall k (zero_le k) (by omega) (c % 128) ?_ ?_
      · rw [hsector]
        exact hcfind.2
      · rw [hsector, show 128 * (c / 128) + c % 128 = c by omega]
        exact hcfind.1

/-! ## Directory entries -/

def EntryAt (s : State) (i : Nat) (stEntry : Memory) : Prop :=
  ∀ x < 32, stEntry x = s.disk (s.manager.entryAddress i + x)

theorem EntryAt.word (h : EntryAt s i stEntry) (hx : x + 4 ≤ 32) :
    read32 stEntry x = read32 s.disk (s.manager.entryAddress i + x) := by
  have heq : read32 (copy stEntry 0 s.disk (s.manager.entryAddress i) 32) x = read32 stEntry x :=
    read32_congr fun y hy => by
      have hlt := hy.2
      rw [copy_inside _ _ _ (zero_le _) (by omega), h y (by omega), Nat.sub_zero]
  rw [← heq, read32_copy_inside _ _ _ (zero_le _) (by omega), Nat.sub_zero]

theorem EntryAt.start (h : EntryAt s i stEntry) : read32 stEntry 28 = s.startOf i :=
  h.word (by omega)

theorem EntryAt.size (h : EntryAt s i stEntry) : read32 stEntry 24 = s.sizeOf i :=
  h.word (by omega)

theorem entryAddress_eq (m : Manager) (i : Nat) : m.entryAddress i = m.clusterAddress 0 + 32 * i := by
  unfold Manager.entryAddress Manager.clusterAddress
  omega

theorem kFindFreeDirectoryEntry_spec (h : Ready s) : ∃ o b,
    kFindFreeDirectoryEntry s = (o, { s with buffer := b }) ∧
    ∀ i, o = some i → i < FILESYSTEM_MAXDIRECTORYENTRYCOUNT ∧ s.startOf i = 0 := by
  unfold kFindFreeDirectoryEntry
  rw [if_pos h.geometry.mounted, kReadCluster_spec h h.geometry.pos]
  refine ⟨_, _, rfl, fun i hi => ?_⟩
  have hlt := mem_range.1 (List.mem_of_find?_eq_some hi)
  have hzero : read32 (copy s.buffer 0 s.disk (s.manager.clusterAddress 0) 4096) (32 * i + 28) = 0 := by
    have hp := List.find?_some hi
    simpa using hp
  refine ⟨hlt, ?_⟩
  unfold FILESYSTEM_MAXDIRECTORYENTRYCOUNT at hlt
  rw [read32_copy_inside _ _ _ (zero_le _) (by omega)] at hzero
  rw [← hzero]
  unfold State.startOf
  rw [entryAddress_eq]
  congr 1

theorem kFindFreeDirectoryEntry_none (h : Ready s) :
    (kFindFreeDirectoryEntry s).1 = none ↔ ∀ i < FILESYSTEM_MAXDIRECTORYENTRYCOUNT, s.startOf i ≠ 0 := by
  have hword : ∀ i < FILESYSTEM_MAXDIRECTORYENTRYCOUNT,
      read32 (copy s.buffer 0 s.disk (s.manager.clusterAddress 0) 4096) (32 * i + 28) = s.startOf i := fun i hi => by
    unfold FILESYSTEM_MAXDIRECTORYENTRYCOUNT at hi
    rw [read32_copy_inside _ _ _ (zero_le _) (by omega)]
    unfold State.startOf
    rw [entryAddress_eq]
    congr 1
  unfold kFindFreeDirectoryEntry
  rw [if_pos h.geometry.mounted, kReadCluster_spec h h.geometry.pos]
  rw [List.find?_eq_none]
  constructor
  · intro hnone i hi h0
    exact hnone i (mem_range.2 hi) (decide_eq_true ((hword i hi).trans h0))
  · intro hall i hi hfound
    exact hall i (mem_range.1 hi) ((hword i (mem_range.1 hi)).symm.trans (of_decide_eq_true hfound))

theorem kSetDirectoryEntryData_laid (h : Laid s.manager) (hfaults : s.faults = [])
    (hi : i < FILESYSTEM_MAXDIRECTORYENTRYCOUNT) (stEntry : Memory) : ∃ b, kSetDirectoryEntryData s i stEntry =
      (true, { s with buffer := b, disk := copy s.disk (s.manager.entryAddress i) stEntry 0 32 }) := by
  have hwrite := kWriteCluster_root (s := { s with
    buffer := copy (copy s.buffer 0 s.disk (s.manager.clusterAddress 0) 4096) (32 * i) stEntry 0 32 }) h hfaults
  unfold kSetDirectoryEntryData
  rw [if_pos ⟨h.mounted, hi⟩, kReadCluster_root h hfaults]
  unfold FILESYSTEM_MAXDIRECTORYENTRYCOUNT at hi
  rw [copy_copy_copy _ _ _ _ (by omega), ← entryAddress_eq] at hwrite
  exact ⟨_, hwrite⟩

theorem kSetDirectoryEntryData_spec (h : Ready s) (hi : i < FILESYSTEM_MAXDIRECTORYENTRYCOUNT)
    (stEntry : Memory) : ∃ b, kSetDirectoryEntryData s i stEntry =
      (true, { s with buffer := b, disk := copy s.disk (s.manager.entryAddress i) stEntry 0 32 }) :=
  kSetDirectoryEntryData_laid h.geometry.laid h.noFaults hi stEntry

theorem kGetDirectoryEntryData_spec (h : Ready s) (hi : i < FILESYSTEM_MAXDIRECTORYENTRYCOUNT)
    (stEntry : Memory) : ∃ e b, kGetDirectoryEntryData s i stEntry = ((true, e), { s with buffer := b }) ∧
      EntryAt s i e := by
  unfold kGetDirectoryEntryData
  rw [if_pos ⟨h.geometry.mounted, hi⟩, kReadCluster_spec h h.geometry.pos]
  refine ⟨_, _, rfl, fun x hx => ?_⟩
  unfold FILESYSTEM_MAXDIRECTORYENTRYCOUNT at hi
  rw [copy_inside _ _ _ (zero_le _) (by omega)]
  dsimp only
  rw [copy_inside _ _ _ (zero_le _) (by omega), entryAddress_eq]
  congr 1
  omega

theorem kFindDirectoryEntry_laid (h : Laid s.manager) (hfaults : s.faults = []) (name : List UInt8)
    (stEntry : Memory) : ∃ o e b,
    kFindDirectoryEntry s name stEntry = ((o, e), { s with buffer := b }) ∧
    ∀ i, o = some i → i < FILESYSTEM_MAXDIRECTORYENTRYCOUNT ∧ EntryAt s i e ∧
      ∀ c rest, name = c :: rest → s.initialOf i = c := by
  unfold kFindDirectoryEntry
  rw [if_pos h.mounted, kReadCluster_root h hfaults]
  dsimp only
  split
  · rename_i i hfound
    refine ⟨_, _, _, rfl, fun i' hi' => ?_⟩
    obtain rfl := Option.some.inj hi'
    have hlt := mem_range.1 (List.mem_of_find?_eq_some hfound)
    have hstarts := List.find?_some hfound
    have hi : i < 128 := hlt
    refine ⟨hlt, fun x hx => ?_, ?_⟩
    · rw [copy_inside _ _ _ (zero_le _) (by omega), copy_inside _ _ _ (zero_le _) (by omega),
        entryAddress_eq]
      congr 1
      omega
    · rintro c rest rfl
      simp only [startsWith, Bool.and_eq_true, beq_iff_eq] at hstarts
      rw [copy_inside _ _ _ (zero_le _) (by omega)] at hstarts
      rw [← hstarts.1]
      unfold State.initialOf
      rw [entryAddress_eq]
      congr 1
  · refine ⟨_, _, _, rfl, fun i hi => ?_⟩
    cases hi

theorem kFindDirectoryEntry_spec (h : Ready s) (name : List UInt8) (stEntry : Memory) : ∃ o e b,
    kFindDirectoryEntry s name stEntry = ((o, e), { s with buffer := b }) ∧
    ∀ i, o = some i → i < FILESYSTEM_MAXDIRECTORYENTRYCOUNT ∧ EntryAt s i e ∧
      ∀ c rest, name = c :: rest → s.initialOf i = c :=
  kFindDirectoryEntry_laid h.geometry.laid h.noFaults name stEntry

/-! ## What the writes leave alone -/

section
variable {b : Memory} {stEntry : Memory}

theorem link_congr {s' : State} (h : Geometry s.manager) (hm : s'.manager.linkAddress = s.manager.linkAddress)
    (hdisk : ∀ x < 512 * s.manager.dwDataAreaStartAddress, s'.disk x = s.disk x)
    (hc : c < s.manager.dwTotalClusterCount) : s'.link c = s.link c := by
  have hlt := h.linkAddress_lt hc
  unfold State.link
  rw [hm]
  exact read32_congr fun x hx => hdisk x (by have := hx.2; omega)

theorem read32_setEntry (disk : Memory) (m : Manager) (i i' : Nat) (hx : x + 4 ≤ 32) :
    read32 (copy disk (m.entryAddress i) stEntry 0 32) (m.entryAddress i' + x) =
      if i' = i then read32 stEntry x else read32 disk (m.entryAddress i' + x) := by
  split
  · rename_i heq
    subst heq
    rw [read32_copy_inside _ _ _ (by omega) (by omega)]
    congr 1
    omega
  · refine read32_copy_outside _ _ _ ?_
    unfold Manager.entryAddress
    omega

theorem startOf_setEntry (i : Nat) :
    State.startOf { s with buffer := b, disk := copy s.disk (s.manager.entryAddress i) stEntry 0 32 } =
      update s.startOf i (read32 stEntry 28) := by
  funext i'
  rw [update_apply]
  exact read32_setEntry s.disk s.manager i i' (by omega)

theorem sizeOf_setEntry (i : Nat) :
    State.sizeOf { s with buffer := b, disk := copy s.disk (s.manager.entryAddress i) stEntry 0 32 } =
      update s.sizeOf i (read32 stEntry 24) := by
  funext i'
  rw [update_apply]
  exact read32_setEntry s.disk s.manager i i' (by omega)

theorem initialOf_setEntry (i : Nat) :
    State.initialOf { s with buffer := b, disk := copy s.disk (s.manager.entryAddress i) stEntry 0 32 } =
      update s.initialOf i (stEntry 0) := by
  funext i'
  rw [update_apply]
  change copy s.disk (s.manager.entryAddress i) stEntry 0 32 (s.manager.entryAddress i') = _
  split
  · rename_i heq
    subst heq
    rw [copy_inside _ _ _ (by omega) (by omega)]
    congr 1
    omega
  · refine copy_outside _ _ _ ?_
    unfold Manager.entryAddress
    omega

theorem link_setEntry (h : Geometry s.manager) (i : Nat) (hc : c < s.manager.dwTotalClusterCount) :
    State.link { s with buffer := b, disk := copy s.disk (s.manager.entryAddress i) stEntry 0 32 } c = s.link c := by
  refine link_congr h ?_ (fun x hx => ?_) hc
  · rfl
  · refine copy_outside _ _ _ (.inl ?_)
    unfold Manager.entryAddress
    omega

theorem byte_setEntry (hi : i < FILESYSTEM_MAXDIRECTORYENTRYCOUNT) (hc : c ≠ 0) :
    State.byte { s with buffer := b, disk := copy s.disk (s.manager.entryAddress i) stEntry 0 32 } c = s.byte c := by
  funext x
  unfold FILESYSTEM_MAXDIRECTORYENTRYCOUNT at hi
  refine copy_outside _ _ _ (.inr ?_)
  change _ ≤ s.manager.clusterAddress c + x
  unfold Manager.entryAddress Manager.clusterAddress
  omega

variable {c' : Nat}

theorem link_writeCluster (h : Geometry s.manager) (c : Nat) (hc' : c' < s.manager.dwTotalClusterCount) :
    State.link { s with disk := copy s.disk (s.manager.clusterAddress c) b 0 4096 } c' = s.link c' := by
  refine link_congr h ?_ (fun x hx => ?_) hc'
  · rfl
  · refine copy_outside _ _ _ (.inl ?_)
    unfold Manager.clusterAddress
    omega

theorem byte_writeCluster (c : Nat) (hx : x < 4096) :
    State.byte { s with disk := copy s.disk (s.manager.clusterAddress c) b 0 4096 } c' x =
      if c' = c then b x else s.byte c' x := by
  change copy s.disk (s.manager.clusterAddress c) b 0 4096 (s.manager.clusterAddress c' + x) = _
  split
  · rename_i heq
    subst heq
    rw [copy_inside _ _ _ (by omega) (by omega)]
    congr 1
    omega
  · refine copy_outside _ _ _ ?_
    unfold Manager.clusterAddress
    omega

theorem disk_writeCluster (hc : c ≠ 0) (hx : x < s.manager.clusterAddress 1) :
    copy s.disk (s.manager.clusterAddress c) b 0 4096 x = s.disk x := by
  refine copy_outside _ _ _ (.inl ?_)
  unfold Manager.clusterAddress at hx ⊢
  omega

theorem entry_lt (m : Manager) (hi : i < FILESYSTEM_MAXDIRECTORYENTRYCOUNT) :
    m.entryAddress i + 32 ≤ m.clusterAddress 1 := by
  unfold FILESYSTEM_MAXDIRECTORYENTRYCOUNT at hi
  unfold Manager.entryAddress Manager.clusterAddress
  omega

end

/-! ## On the RAM disk -/

open RamDisk

/-- The volume lies on the RAM disk `m`. -/
structure OnRamDisk (m : RDDMANAGER) (s : State) : Prop where
  pbBuffer : m.pbBuffer = s.disk
  inside : s.manager.dwDataAreaStartAddress + 8 * s.manager.dwTotalClusterCount ≤ m.dwTotalSectorCount
  small : m.dwTotalSectorCount ≤ 2 ^ 23

/-- Both operations move the `n` sectors from `dwLBA` on, as the file system's own do. -/
def MovesAll (m : RDDMANAGER) (s : State) (dwLBA n : Nat) : Prop :=
  kReadRDDSector m dwLBA n s.buffer = ((n : Int), (readHDDSector s dwLBA n).2.buffer) ∧
    kWriteRDDSector m dwLBA n s.buffer =
      ((n : Int), { m with pbBuffer := (writeHDDSector s dwLBA n).2.disk })

section

variable {m : RDDMANAGER} {dwLBA n : Nat}

theorem transferred_fits (hpos : 0 < n) (hfits : dwLBA + 2 * n ≤ m.dwTotalSectorCount)
    (hsmall : m.dwTotalSectorCount ≤ 2 ^ 23) :
    transferred m.dwTotalSectorCount dwLBA n = ⟨n, 512 * dwLBA, 512 * n⟩ := by
  have hread : readable m.dwTotalSectorCount dwLBA n = n := by
    unfold readable
    rw [if_pos (by omega)]
    omega
  have hclamped : Clamped m.dwTotalSectorCount dwLBA n := .inl ⟨by omega, hfits, by omega, by omega⟩
  obtain ⟨heq, hplace⟩ := transferred_of_clamped (by omega) (by omega) hpos (by omega) hclamped
  rw [hread] at heq hplace
  obtain ⟨hfirst, -⟩ := hplace.resolve_left (Nat.ne_of_gt hpos)
  rw [heq, hfirst, Nat.mul_comm dwLBA, Nat.mul_comm n]

theorem movesAll_of_fits (hdisk : m.pbBuffer = s.disk) (hfaults : s.faults = []) (hpos : 0 < n)
    (hfits : dwLBA + 2 * n ≤ m.dwTotalSectorCount) (hsmall : m.dwTotalSectorCount ≤ 2 ^ 23) :
    MovesAll m s dwLBA n := by
  have heq := transferred_fits hpos hfits hsmall
  unfold MovesAll kReadRDDSector kWriteRDDSector
  rw [readHDDSector_ok hfaults, writeHDDSector_ok hfaults, heq, hdisk]
  exact ⟨rfl, rfl⟩

/-- A sector of the link table: the data area lies behind it. -/
theorem OnRamDisk.movesAll_link (h : OnRamDisk m s) (hs : Ready s) (hi : i < s.manager.dwClusterLinkAreaSize) :
    MovesAll m s (u32 (i + s.manager.dwClusterLinkAreaStartAddress)) 1 := by
  have hinside := h.inside
  have hsmall := h.small
  have harea := hs.geometry.area
  have hpos := hs.geometry.pos
  rw [u32_of_lt (by omega)]
  exact movesAll_of_fits h.pbBuffer hs.noFaults Nat.one_pos (by omega) hsmall

/-- A cluster with another one behind it. -/
theorem OnRamDisk.movesAll_cluster (h : OnRamDisk m s) (hs : Ready s) (hc : c + 1 < s.manager.dwTotalClusterCount) :
    MovesAll m s (u32 (c * FILESYSTEM_SECTORSPERCLUSTER + s.manager.dwDataAreaStartAddress))
      FILESYSTEM_SECTORSPERCLUSTER := by
  have hinside := h.inside
  have hsmall := h.small
  unfold FILESYSTEM_SECTORSPERCLUSTER
  rw [u32_of_lt (by omega)]
  exact movesAll_of_fits h.pbBuffer hs.noFaults (by decide) (by omega) hsmall

/-- The last cluster, with less than a cluster left behind it, is cut short. -/
theorem OnRamDisk.cut_last (h : OnRamDisk m s) (hc : c + 1 = s.manager.dwTotalClusterCount)
    (hend : m.dwTotalSectorCount < s.manager.dwDataAreaStartAddress + 8 * s.manager.dwTotalClusterCount + 8) :
    ¬MovesAll m s (u32 (c * FILESYSTEM_SECTORSPERCLUSTER + s.manager.dwDataAreaStartAddress))
      FILESYSTEM_SECTORSPERCLUSTER := by
  have hinside := h.inside
  have hsmall := h.small
  intro hmoves
  have hcount := congrArg Prod.fst hmoves.1
  unfold FILESYSTEM_SECTORSPERCLUSTER at hcount
  rw [u32_of_lt (by omega)] at hcount
  unfold kReadRDDSector at hcount
  rw [transferred_eq (by omega) (by omega) (by decide)] at hcount
  have hleft := Int.ofNat_inj.1 hcount
  have hfits := (leftBehind_eq_readable (by decide) (by decide) (by omega)).1 (hleft.trans ?_)
  · omega
  · unfold readable
    rw [if_pos (by omega)]
    omega

end

end Mint
