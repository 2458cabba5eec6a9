import SkyOS.Lib.Bytes
import SkyOS.Lib.Machine
import Mathlib.Data.List.TakeWhile

/-!
# FAT12, FAT16 and FAT32 volumes (`FileSystem/fat32.cpp`)

The volume counts in sectors of `BytesPerSector` bytes, the disk in sectors of 512 (`Harddisk.cpp:222`), of which it
has `2^28` at most: `ReadSectors` sends the low 28 bits of the sector number. The partition's begin is a sector of the
disk.

| here | there |
| --- | --- |
| `BPB` | the fields of the boot sector that are read, those of `FAT32` included |
| `fatSize`, ..., `fatType` | the fields of `FDI` that `Initialize` computes (:32) |
| `HardDisk.bytes` | the disk, byte by byte |
| `HardDisk.fails` | the sectors that cannot be read |
| `entry`, `clusterStart` | the volume as the FAT specification has it, whatever `BytesPerSector` is |
-/

namespace Fat32

open Machine Bytes

/-! ## The source -/

structure BPB where
  bytesPerSector : Nat
  sectorsPerCluster : Nat
  reservedSectors : Nat
  numberFATs : Nat
  rootDirEntries : Nat
  totalSectors16 : Nat
  fatSize16 : Nat
  totalSectors32 : Nat
  fatSize32 : Nat
  rootCluster : Nat

inductive FATType where
  | fat12
  | fat16
  | fat32
deriving DecidableEq

structure FATInfo where
  bpb : BPB
  partitionBegining : Nat

namespace FATInfo

variable (fi : FATInfo)

def fatSize : Nat := if fi.bpb.fatSize16 ≠ 0 then fi.bpb.fatSize16 else fi.bpb.fatSize32

def totRootDirSectors : Nat :=
  (fi.bpb.rootDirEntries * 32 + (fi.bpb.bytesPerSector - 1)) / fi.bpb.bytesPerSector

def dataSectors : Nat :=
  sub32 (if fi.bpb.totalSectors16 ≠ 0 then fi.bpb.totalSectors16 else fi.bpb.totalSectors32)
    (u32 (fi.bpb.reservedSectors + fi.bpb.numberFATs * fi.fatSize + fi.totRootDirSectors))

def countOfClusters : Nat := fi.dataSectors / fi.bpb.sectorsPerCluster

def fatType : FATType :=
  if fi.countOfClusters < 4085 then .fat12 else if fi.countOfClusters < 65525 then .fat16 else .fat32

/-- `DataAreaStartSector` (:101). -/
def dataAreaStartSector : Nat :=
  u32 (fi.bpb.reservedSectors + fi.bpb.numberFATs * fi.fatSize + fi.totRootDirSectors)

/-- `FirstSectorOfCluster` (:106). -/
def firstSectorOfCluster (cluster : Nat) : Nat :=
  u32 (sub32 cluster 2 * fi.bpb.sectorsPerCluster + fi.dataAreaStartSector)

/-- `FATOffset` of `FATSectorNumber` (:134) and `FATSectorOffset` (:148). -/
def fatOffset (cluster : Nat) : Nat :=
  match fi.fatType with
  | .fat12 => u32 (cluster + cluster / 2)
  | .fat16 => u32 (cluster * 2)
  | .fat32 => u32 (cluster * 4)

/-- `FATSectorNumber` (:134). -/
def fatSectorNumber (cluster : Nat) : Nat :=
  u32 (fi.bpb.reservedSectors + fi.fatOffset cluster / fi.bpb.bytesPerSector)

/-- `FATSectorOffset` (:148). -/
def fatSectorOffset (cluster : Nat) : Nat := fi.fatOffset cluster % fi.bpb.bytesPerSector

/-- How many bytes `GetFATEntry` reads. -/
def entryWidth : Nat :=
  match fi.fatType with
  | .fat32 => 4
  | _ => 2

def decodeEntry (cluster word : Nat) : Nat :=
  match fi.fatType with
  | .fat12 => if cluster % 2 = 1 then word / 2 ^ 4 else word % 2 ^ 12
  | .fat16 => word
  | .fat32 => word % 2 ^ 28

/-- `GetFATEntry` (:164). -/
def getFATEntry (cluster : Nat) (sector : Memory) : Nat :=
  fi.decodeEntry cluster (readLE sector (fi.fatSectorOffset cluster % 2 ^ 16) fi.entryWidth)

/-- `IsEndOfClusterChain` (:212). -/
def isEndOfClusterChain (content : Nat) : Bool :=
  match fi.fatType with
  | .fat12 => decide (content % 2 ^ 16 ≥ 0xff8)
  | .fat16 => decide (content % 2 ^ 16 ≥ 0xfff8)
  | .fat32 => decide (content ≥ 0xffffff8)

/-- `IsBadCluster` (:226). -/
def isBadCluster (content : Nat) : Bool :=
  match fi.fatType with
  | .fat12 => decide (content % 2 ^ 16 = 0xff7)
  | .fat16 => decide (content % 2 ^ 16 = 0xfff7)
  | .fat32 => decide (content = 0xffffff7)

end FATInfo

structure HardDisk where
  bytes : Memory
  fails : Nat → Bool

/-- `ReadSectors` (`Harddisk.cpp:371`), up to the first sector that cannot be read. -/
def HardDisk.readSectors (disk : HardDisk) (startLBASector noOfSectors : Nat) (buffer : Memory) : Memory × Bool :=
  let lba := startLBASector % 2 ^ 28
  let read := ((List.range noOfSectors).takeWhile fun j => !disk.fails (lba + j)).length
  (copy buffer 0 disk.bytes (lba * 512) (read * 512), decide (read = noOfSectors))

/-! ## The volume -/

namespace FATInfo

variable (fi : FATInfo) (disk : HardDisk)

def bytesPerCluster : Nat := fi.bpb.sectorsPerCluster * fi.bpb.bytesPerSector

def dataStart : Nat := fi.bpb.reservedSectors + fi.bpb.numberFATs * fi.fatSize + fi.totRootDirSectors

def sectorStart (sector : Nat) : Nat := fi.partitionBegining * 512 + sector * fi.bpb.bytesPerSector

def clusterStart (cluster : Nat) : Nat := fi.sectorStart (fi.dataStart + (cluster - 2) * fi.bpb.sectorsPerCluster)

def entry (cluster : Nat) : Nat :=
  fi.decodeEntry cluster
    (readLE disk.bytes (fi.sectorStart fi.bpb.reservedSectors + fi.fatOffset cluster) fi.entryWidth)

/-- The `k`-th cluster of the chain that begins at `first`. -/
def clusterAt (first : Nat) : Nat → Nat
  | 0 => first
  | k + 1 => fi.entry disk (clusterAt first k)

def Readable (cluster : Nat) : Prop :=
  cluster ≠ 0 ∧ fi.isBadCluster cluster = false ∧ fi.isEndOfClusterChain cluster = false
  deriving Decidable

/-- The sectors of the cluster, and those of its entry, are among the `2^28` that the disk can address. -/
structure InReach (cluster : Nat) : Prop where
  two_le : 2 ≤ cluster
  data : fi.partitionBegining + fi.dataStart + (cluster - 2) * fi.bpb.sectorsPerCluster + fi.bpb.sectorsPerCluster
    ≤ 2 ^ 28
  table : fi.partitionBegining + fi.bpb.reservedSectors + fi.fatOffset cluster / 512 + 2 ≤ 2 ^ 28

end FATInfo

/-! ## Reading sectors -/

theorem HardDisk.readSectors_ok {disk : HardDisk} (hok : ∀ i, disk.fails i = false) (lba n : Nat) (buffer : Memory) :
    disk.readSectors lba n buffer = (copy buffer 0 disk.bytes (lba % 2 ^ 28 * 512) (n * 512), true) := by
  have hall : (List.range n).takeWhile (fun j => !disk.fails (lba % 2 ^ 28 + j)) = List.range n := by
    rw [List.takeWhile_eq_self_iff]
    intro j _
    simp [hok]
  unfold HardDisk.readSectors
  dsimp only
  rw [hall, List.length_range]
  simp

namespace FATInfo

variable {fi : FATInfo}

theorem InReach.firstSector {c : Nat} (h : fi.InReach c) :
    fi.firstSectorOfCluster c = fi.dataStart + (c - 2) * fi.bpb.sectorsPerCluster := by
  obtain ⟨htwo, hdata, _⟩ := h
  have hmul : c - 2 ≤ (c - 2) * fi.bpb.sectorsPerCluster ∨ fi.bpb.sectorsPerCluster = 0 := by
    rcases Nat.eq_zero_or_pos fi.bpb.sectorsPerCluster with h0 | hpos
    · exact .inr h0
    · exact .inl (Nat.le_mul_of_pos_right _ hpos)
  unfold firstSectorOfCluster dataAreaStartSector
  change u32 (sub32 c 2 * fi.bpb.sectorsPerCluster + u32 fi.dataStart) = _
  rcases hmul with hmul | hzero
  · rw [sub32_of_le htwo (by omega), u32_of_lt (x := fi.dataStart) (by omega), u32_of_lt (by omega)]
    omega
  · rw [hzero] at hdata ⊢
    rw [u32_of_lt (x := fi.dataStart) (by omega), Nat.mul_zero, Nat.mul_zero, u32_of_lt (by omega)]
    omega

end FATInfo

end Fat32
