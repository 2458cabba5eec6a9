import SkyOS.Lib.Bytes
import SkyOS.Lib.Machine

/-!
# The MINT volume (`MintFileSystem.cpp:70-575`): sectors, link table, root directory

The disk is a memory of bytes, 512 for each sector. Whatever the file system reads goes through the one buffer
`gs_vbTempBuffer`, as sectors of the link table, as clusters, and as the directory entries of cluster 0, so the
buffer is part of the state and holds what was read last. A sector operation transfers all it is asked for, or
fails and transfers nothing; `faults` says which of the coming ones fail. The RAM disk can also move some of the
sectors only, for which the file system takes any number but 0: at the last cluster of the disk, and nowhere else.

| here | there |
| --- | --- |
| `State.buffer` | `gs_vbTempBuffer` |
| `Manager` | `FILESYSTEMMANAGER gs_stFileSystemManager` |
| a `Memory` of 32 bytes | `DIRECTORYENTRY`: the name at 0, the size at 24, the start cluster at 28 |
| `none` as a cluster or an index | `FALSE` or `-1` of the function |
-/

namespace Mint

open Bytes Machine

def FILESYSTEM_SIGNATURE : Nat := 0x7E38CF10
def FILESYSTEM_SECTORSPERCLUSTER : Nat := 8
def FILESYSTEM_LASTCLUSTER : Nat := 0xFFFFFFFF
def FILESYSTEM_FREECLUSTER : Nat := 0
def FILESYSTEM_MAXDIRECTORYENTRYCOUNT : Nat := 128
def FILESYSTEM_CLUSTERSIZE : Nat := 4096
def FILESYSTEM_HANDLE_MAXCOUNT : Nat := 30
def FILESYSTEM_MAXFILENAMELENGTH : Nat := 24

/-- `bType` of a handle. -/
inductive HandleType where
  | free
  | file
  | directory
deriving DecidableEq, Repr

structure FileHandle where
  iDirectoryEntryOffset : Nat
  dwFileSize : Nat
  dwStartClusterIndex : Nat
  dwCurrentClusterIndex : Nat
  dwPreviousClusterIndex : Nat
  dwCurrentOffset : Nat
deriving DecidableEq, Repr

structure MFile where
  bType : HandleType
  stFileHandle : FileHandle
deriving DecidableEq, Repr

structure Manager where
  bMounted : Bool
  dwReservedSectorCount : Nat
  dwClusterLinkAreaStartAddress : Nat
  dwClusterLinkAreaSize : Nat
  dwDataAreaStartAddress : Nat
  dwTotalClusterCount : Nat
  dwLastAllocatedClusterLinkSectorOffset : Nat
  pstHandlePool : Nat → MFile

structure State where
  disk : Memory
  /-- The coming sector operations: `true` is one that fails. Where none are left, all succeed. -/
  faults : List Bool
  buffer : Memory
  manager : Manager

/-! ## Sectors -/

/-- `gs_pfReadHDDSector` into the buffer. -/
def readHDDSector (s : State) (dwLBA iSectorCount : Nat) : Bool × State :=
  if s.faults.head? = some true then (false, { s with faults := s.faults.tail })
  else (true, { s with
    faults := s.faults.tail
    buffer := copy s.buffer 0 s.disk (512 * dwLBA) (512 * iSectorCount) })

/-- `gs_pfWriteHDDSector` from the buffer. -/
def writeHDDSector (s : State) (dwLBA iSectorCount : Nat) : Bool × State :=
  if s.faults.head? = some true then (false, { s with faults := s.faults.tail })
  else (true, { s with
    faults := s.faults.tail
    disk := copy s.disk (512 * dwLBA) s.buffer 0 (512 * iSectorCount) })

/-- `kReadClusterLinkTable` (:236). -/
def kReadClusterLinkTable (s : State) (dwOffset : Nat) : Bool × State :=
  readHDDSector s (u32 (dwOffset + s.manager.dwClusterLinkAreaStartAddress)) 1

/-- `kWriteClusterLinkTable` (:257). -/
def kWriteClusterLinkTable (s : State) (dwOffset : Nat) : Bool × State :=
  writeHDDSector s (u32 (dwOffset + s.manager.dwClusterLinkAreaStartAddress)) 1

/-- `kReadCluster` (:290). -/
def kReadCluster (s : State) (dwOffset : Nat) : Bool × State :=
  readHDDSector s (u32 (dwOffset * FILESYSTEM_SECTORSPERCLUSTER + s.manager.dwDataAreaStartAddress))
    FILESYSTEM_SECTORSPERCLUSTER

/-- `kWriteCluster` (:300). -/
def kWriteCluster (s : State) (dwOffset : Nat) : Bool × State :=
  writeHDDSector s (u32 (dwOffset * FILESYSTEM_SECTORSPERCLUSTER + s.manager.dwDataAreaStartAddress))
    FILESYSTEM_SECTORSPERCLUSTER

/-! ## The link table -/

/-- How many links of the sector `kFindFreeCluster` looks at (:343). -/
def linkCountInSector (m : Manager) (dwLastSectorOffset i : Nat) : Nat :=
  if u32 (dwLastSectorOffset + i) = sub32 m.dwClusterLinkAreaSize 1 then m.dwTotalClusterCount % 128 else 128

/-- The loop of `kFindFreeCluster` from `i` on, with so many rounds to go. -/
def findFreeFrom (s : State) (dwLastSectorOffset i : Nat) : Nat → Nat × State
  | 0 => (FILESYSTEM_LASTCLUSTER, s)
  | rounds + 1 =>
    let dwCurrentSectorOffset := u32 (dwLastSectorOffset + i) % s.manager.dwClusterLinkAreaSize
    match kReadClusterLinkTable s dwCurrentSectorOffset with
    | (false, s) => (FILESYSTEM_LASTCLUSTER, s)
    | (true, s) =>
      match (List.range (linkCountInSector s.manager dwLastSectorOffset i)).find? fun j =>
          read32 s.buffer (4 * j) = FILESYSTEM_FREECLUSTER with
      | some j => (u32 (dwCurrentSectorOffset * 128 + j), { s with manager :=
          { s.manager with dwLastAllocatedClusterLinkSectorOffset := dwCurrentSectorOffset } })
      | none => findFreeFrom s dwLastSectorOffset (i + 1) rounds

/-- `kFindFreeCluster` (:320). -/
def kFindFreeCluster (s : State) : Nat × State :=
  if s.manager.bMounted then
    findFreeFrom s s.manager.dwLastAllocatedClusterLinkSectorOffset 0 s.manager.dwClusterLinkAreaSize
  else (FILESYSTEM_LASTCLUSTER, s)

/-- `kSetClusterLinkData` (:385). -/
def kSetClusterLinkData (s : State) (dwClusterIndex dwData : Nat) : Bool × State :=
  if s.manager.bMounted then
    match kReadClusterLinkTable s (dwClusterIndex / 128) with
    | (false, s) => (false, s)
    | (true, s) => kWriteClusterLinkTable { s with buffer := write32 s.buffer (4 * (dwClusterIndex % 128)) dwData }
        (dwClusterIndex / 128)
  else (false, s)

/-- `kGetClusterLinkData` (:418). -/
def kGetClusterLinkData (s : State) (dwClusterIndex : Nat) : Option Nat × State :=
  if s.manager.bMounted ∧ dwClusterIndex / 128 ≤ s.manager.dwClusterLinkAreaSize then
    match kReadClusterLinkTable s (dwClusterIndex / 128) with
    | (false, s) => (none, s)
    | (true, s) => (some (read32 s.buffer (4 * (dwClusterIndex % 128))), s)
  else (none, s)

/-! ## The root directory -/

/-- `kFindFreeDirectoryEntry` (:452). -/
def kFindFreeDirectoryEntry (s : State) : Option Nat × State :=
  if s.manager.bMounted then
    match kReadCluster s 0 with
    | (false, s) => (none, s)
    | (true, s) => ((List.range FILESYSTEM_MAXDIRECTORYENTRYCOUNT).find? fun i =>
        read32 s.buffer (32 * i + 28) = 0, s)
  else (none, s)

/-- `kSetDirectoryEntryData` (:485). -/
def kSetDirectoryEntryData (s : State) (iIndex : Nat) (stEntry : Memory) : Bool × State :=
  if s.manager.bMounted ∧ iIndex < FILESYSTEM_MAXDIRECTORYENTRYCOUNT then
    match kReadCluster s 0 with
    | (false, s) => (false, s)
    | (true, s) => kWriteCluster { s with buffer := copy s.buffer (32 * iIndex) stEntry 0 32 } 0
  else (false, s)

/-- `kGetDirectoryEntryData` (:517); the entry that is filled in is what was there before where it fails. -/
def kGetDirectoryEntryData (s : State) (iIndex : Nat) (stEntry : Memory) : (Bool × Memory) × State :=
  if s.manager.bMounted ∧ iIndex < FILESYSTEM_MAXDIRECTORYENTRYCOUNT then
    match kReadCluster s 0 with
    | (false, s) => ((false, stEntry), s)
    | (true, s) => ((true, copy stEntry 0 s.buffer (32 * iIndex) 32), s)
  else ((false, stEntry), s)

/-- `memcmp(m + a, name, strlen(name)) == 0`. -/
def startsWith (m : Memory) (a : Nat) : List UInt8 → Bool
  | [] => true
  | b :: name => m a == b && startsWith m (a + 1) name

/-- `kFindDirectoryEntry` (:543): the first entry whose name begins with the given one. -/
def kFindDirectoryEntry (s : State) (name : List UInt8) (stEntry : Memory) : (Option Nat × Memory) × State :=
  if s.manager.bMounted then
    match kReadCluster s 0 with
    | (false, s) => ((none, stEntry), s)
    | (true, s) =>
      match (List.range FILESYSTEM_MAXDIRECTORYENTRYCOUNT).find? fun i => startsWith s.buffer (32 * i) name with
      | some i => ((some i, copy stEntry 0 s.buffer (32 * i) 32), s)
      | none => ((none, stEntry), s)
  else ((none, stEntry), s)

/-! ## Format and mount -/

/-- The geometry that `kFormat` (:135-:163) computes: the sectors of the link table, and the clusters. -/
def formatGeometry (dwTotalSectorCount : Nat) : Nat × Nat :=
  let dwMaxClusterCount := dwTotalSectorCount / FILESYSTEM_SECTORSPERCLUSTER
  let dwClusterLinkSectorCount := u32 (dwMaxClusterCount + 127) / 128
  let dwRemainSectorCount := sub32 (sub32 dwTotalSectorCount dwClusterLinkSectorCount) 1
  let dwClusterCount := dwRemainSectorCount / FILESYSTEM_SECTORSPERCLUSTER
  (u32 (dwClusterCount + 127) / 128, dwClusterCount)

/-- The fields of the MBR that `kFormat` sets (:174-:178): signature at 430, reserved sectors, link sectors,
clusters, and the partition table of 64 bytes. -/
def formatMbr (buffer : Memory) (dwClusterLinkSectorCount dwTotalClusterCount : Nat) : Memory :=
  write32 (write32 (write32 (write32 (fill buffer 446 0 64) 430 FILESYSTEM_SIGNATURE) 434 0)
    438 dwClusterLinkSectorCount) 442 dwTotalClusterCount

/-- The loop of `kFormat` (:191) from sector `i + 1` on, with so many sectors to go. -/
def clearSectors (s : State) (i : Nat) : Nat → Bool × State
  | 0 => (true, s)
  | rounds + 1 =>
    let first := if i = 0 then FILESYSTEM_LASTCLUSTER else FILESYSTEM_FREECLUSTER
    match writeHDDSector { s with buffer := write32 s.buffer 0 first } (i + 1) 1 with
    | (false, s) => (false, s)
    | (true, s) => clearSectors s (i + 1) rounds

/-- `kFormat` (:114), for a disk that reports so many sectors. -/
def kFormat (s : State) (dwTotalSectorCount : Nat) : Bool × State :=
  let (dwClusterLinkSectorCount, dwTotalClusterCount) := formatGeometry dwTotalSectorCount
  match readHDDSector s 0 1 with
  | (false, s) => (false, s)
  | (true, s) =>
    match writeHDDSector { s with buffer := formatMbr s.buffer dwClusterLinkSectorCount dwTotalClusterCount } 0 1 with
    | (false, s) => (false, s)
    | (true, s) => clearSectors { s with buffer := fill s.buffer 0 0 512 } 0
        (u32 (dwClusterLinkSectorCount + FILESYSTEM_SECTORSPERCLUSTER))

/-- `kMount` (:70). -/
def kMount (s : State) : Bool × State :=
  match readHDDSector s 0 1 with
  | (false, s) => (false, s)
  | (true, s) =>
    if read32 s.buffer 430 = FILESYSTEM_SIGNATURE then
      let dwReservedSectorCount := read32 s.buffer 434
      let dwClusterLinkSectorCount := read32 s.buffer 438
      (true, { s with manager := { s.manager with
        bMounted := true
        dwReservedSectorCount := dwReservedSectorCount
        dwClusterLinkAreaStartAddress := u32 (dwReservedSectorCount + 1)
        dwClusterLinkAreaSize := dwClusterLinkSectorCount
        dwDataAreaStartAddress := u32 (dwReservedSectorCount + dwClusterLinkSectorCount + 1)
        dwTotalClusterCount := read32 s.buffer 442 } })
    else (false, s)

end Mint
