import SkyOS.Lib.StepSystem
import SkyOS.Mint.Volume

/-!
# Files of the MINT volume (`MintFileSystem.cpp:589-1381`)

A handle keeps its place three times: as an offset, as the current cluster, and as the cluster before it, which
is where a new cluster is linked. `kReadFile` and `kWriteFile` go through the clusters one round at a time
(`readRound`, `writeRound`); `kSeekFile` walks the links, and writes zeros past the end. A call has the handle
in hand while it runs and puts it back into the pool.

| here | there |
| --- | --- |
| a handle | its index in `pstHandlePool` |
| `mode` | `pcMode[ 0 ]` |
| `stEntry` of `kOpenFile` | what the entry on the stack holds before it is filled in |
| `none` of `kFreeClusterUntilEnd` | the loop does not end within `loopRounds` |
| `none` of `kWriteFile` | the division by a `dwSize` of 0 |
-/

namespace Mint

open Bytes Machine

/-! ## Handles -/

def State.setHandle (s : State) (h : Nat) (file : MFile) : State :=
  { s with manager := { s.manager with pstHandlePool := Function.update s.manager.pstHandlePool h file } }

/-- `kAllocateFileDirectoryHandle` (:589). -/
def kAllocateFileDirectoryHandle (s : State) : Option (Nat × State) :=
  ((List.range FILESYSTEM_HANDLE_MAXCOUNT).find? fun h => (s.manager.pstHandlePool h).bType = .free).map fun h =>
    (h, s.setHandle h { s.manager.pstHandlePool h with bType := .file })

/-- `kFreeFileDirectoryHandle` (:615). -/
def kFreeFileDirectoryHandle (s : State) (h : Nat) : State := s.setHandle h ⟨.free, ⟨0, 0, 0, 0, 0, 0⟩⟩

/-- `kIsFileOpened` (:1303). -/
def kIsFileOpened (s : State) (dwStartClusterIndex : Nat) : Bool :=
  (List.range FILESYSTEM_HANDLE_MAXCOUNT).any fun h => (s.manager.pstHandlePool h).bType = .file ∧
    (s.manager.pstHandlePool h).stFileHandle.dwStartClusterIndex = dwStartClusterIndex

/-! ## Making and freeing -/

/-- `memcpy(stEntry.vcFileName, name, strlen(name) + 1)`. -/
def putName (stEntry : Memory) (name : List UInt8) : Memory := fun x => (name ++ [0])[x]?.getD (stEntry x)

/-- `kCreateFile` (:627): the index of the entry and the entry. -/
def kCreateFile (s : State) (name : List UInt8) (stEntry : Memory) : Option (Nat × Memory) × State :=
  match kFindFreeCluster s with
  | (dwCluster, s) =>
    if dwCluster = FILESYSTEM_LASTCLUSTER then (none, s) else
    match kSetClusterLinkData s dwCluster FILESYSTEM_LASTCLUSTER with
    | (false, s) => (none, s)
    | (true, s) =>
      match kFindFreeDirectoryEntry s with
      | (none, s) => (none, (kSetClusterLinkData s dwCluster FILESYSTEM_FREECLUSTER).2)
      | (some i, s) =>
        let stEntry := write32 (write32 (putName stEntry name) 28 dwCluster) 24 0
        match kSetDirectoryEntryData s i stEntry with
        | (false, s) => (none, (kSetClusterLinkData s dwCluster FILESYSTEM_FREECLUSTER).2)
        | (true, s) => (some (i, stEntry), s)

def loopRounds : Nat := 2 ^ 33

/-- The loop of `kFreeClusterUntilEnd` (:667), with so many rounds to go. -/
def freeClusters (s : State) (dwCurrentClusterIndex : Nat) : Nat → Option (Bool × State)
  | 0 => none
  | rounds + 1 =>
    if dwCurrentClusterIndex = FILESYSTEM_LASTCLUSTER then some (true, s) else
    match kGetClusterLinkData s dwCurrentClusterIndex with
    | (none, s) => some (false, s)
    | (some dwNextClusterIndex, s) =>
      match kSetClusterLinkData s dwCurrentClusterIndex FILESYSTEM_FREECLUSTER with
      | (false, s) => some (false, s)
      | (true, s) => freeClusters s dwNextClusterIndex rounds

def kFreeClusterUntilEnd (s : State) (dwClusterIndex : Nat) : Option (Bool × State) :=
  freeClusters s dwClusterIndex loopRounds

/-- Opening with `w` (:749-:786): the clusters but the first are freed, and the size is 0. -/
def truncateFile (s : State) (i : Nat) (stEntry : Memory) : Option (Option Memory × State) :=
  match kGetClusterLinkData s (read32 stEntry 28) with
  | (none, s) => some (none, s)
  | (some dwSecondCluster, s) =>
    match kSetClusterLinkData s (read32 stEntry 28) FILESYSTEM_LASTCLUSTER with
    | (false, s) => some (none, s)
    | (true, s) =>
      (kFreeClusterUntilEnd s dwSecondCluster).map fun (freed, s) =>
        if freed then
          match kSetDirectoryEntryData s i (write32 stEntry 24 0) with
          | (false, s) => (none, s)
          | (true, s) => (some (write32 stEntry 24 0), s)
        else (none, s)

/-! ## Reading -/

/-- At the end of a cluster the handle goes on to the next one (:884, :1040). -/
def nextCluster (s : State) (fh : FileHandle) : Bool × FileHandle × State :=
  if fh.dwCurrentOffset % FILESYSTEM_CLUSTERSIZE = 0 then
    match kGetClusterLinkData s fh.dwCurrentClusterIndex with
    | (none, s) => (false, fh, s)
    | (some dwNextClusterIndex, s) =>
      (true, { fh with
        dwPreviousClusterIndex := fh.dwCurrentClusterIndex
        dwCurrentClusterIndex := dwNextClusterIndex }, s)
  else (true, fh, s)

/-- One round of `kReadFile` (:856): whether it goes on, and `pvBuffer` and `dwReadCount` after it. -/
def readRound (s : State) (fh : FileHandle) (pvBuffer : Memory) (dwTotalCount dwReadCount : Nat) :
    Bool × Memory × Nat × FileHandle × State :=
  match kReadCluster s fh.dwCurrentClusterIndex with
  | (false, s) => (false, pvBuffer, dwReadCount, fh, s)
  | (true, s) =>
    let dwOffsetInCluster := fh.dwCurrentOffset % FILESYSTEM_CLUSTERSIZE
    let dwCopySize := min (FILESYSTEM_CLUSTERSIZE - dwOffsetInCluster) (dwTotalCount - dwReadCount)
    match nextCluster s { fh with dwCurrentOffset := u32 (fh.dwCurrentOffset + dwCopySize) } with
    | (go, fh, s') =>
      (go, copy pvBuffer dwReadCount s.buffer dwOffsetInCluster dwCopySize, dwReadCount + dwCopySize, fh, s')

def readLoop (dwTotalCount : Nat) : Nat → State → FileHandle → Memory → Nat → Memory × Nat × FileHandle × State
  | 0, s, fh, pvBuffer, dwReadCount => (pvBuffer, dwReadCount, fh, s)
  | rounds + 1, s, fh, pvBuffer, dwReadCount =>
    if dwReadCount = dwTotalCount then (pvBuffer, dwReadCount, fh, s) else
    match readRound s fh pvBuffer dwTotalCount dwReadCount with
    | (false, result) => result
    | (true, pvBuffer, dwReadCount, fh, s) => readLoop dwTotalCount rounds s fh pvBuffer dwReadCount

/-- `kReadFile` (:819): the bytes read, in `pvBuffer`, and their number. -/
def kReadFile (s : State) (pvBuffer : Memory) (dwSize dwCount h : Nat) : (Nat × Memory) × State :=
  let fh := (s.manager.pstHandlePool h).stFileHandle
  if (s.manager.pstHandlePool h).bType ≠ .file then ((0, pvBuffer), s)
  else if fh.dwCurrentOffset = fh.dwFileSize ∨ fh.dwCurrentClusterIndex = FILESYSTEM_LASTCLUSTER then
    ((0, pvBuffer), s)
  else
    let dwTotalCount := min (u32 (dwSize * dwCount)) (sub32 fh.dwFileSize fh.dwCurrentOffset)
    match readLoop dwTotalCount dwTotalCount s fh pvBuffer 0 with
    | (pvBuffer, dwReadCount, fh, s) => ((dwReadCount, pvBuffer), s.setHandle h ⟨.file, fh⟩)

/-! ## Writing -/

/-- The cluster that a round of `kWriteFile` writes to, and what is in the buffer of it (:970-:1017). -/
def prepareCluster (s : State) (fh : FileHandle) (dwRemainCount : Nat) : Bool × FileHandle × State :=
  if fh.dwCurrentClusterIndex = FILESYSTEM_LASTCLUSTER then
    match kFindFreeCluster s with
    | (dwAllocatedClusterIndex, s) =>
      if dwAllocatedClusterIndex = FILESYSTEM_LASTCLUSTER then (false, fh, s) else
      match kSetClusterLinkData s dwAllocatedClusterIndex FILESYSTEM_LASTCLUSTER with
      | (false, s) => (false, fh, s)
      | (true, s) =>
        match kSetClusterLinkData s fh.dwPreviousClusterIndex dwAllocatedClusterIndex with
        | (false, s) => (false, fh, (kSetClusterLinkData s dwAllocatedClusterIndex FILESYSTEM_FREECLUSTER).2)
        | (true, s) => (true, { fh with dwCurrentClusterIndex := dwAllocatedClusterIndex },
            { s with buffer := fill s.buffer 0 0 4096 })
  else if fh.dwCurrentOffset % FILESYSTEM_CLUSTERSIZE ≠ 0 ∨ dwRemainCount < FILESYSTEM_CLUSTERSIZE then
    match kReadCluster s fh.dwCurrentClusterIndex with
    | (ok, s) => (ok, fh, s)
  else (true, fh, s)

/-- One round of `kWriteFile` (:963): whether it goes on, and `dwWriteCount` after it. -/
def writeRound (s : State) (fh : FileHandle) (pvBuffer : Memory) (dwTotalCount dwWriteCount : Nat) :
    Bool × Nat × FileHandle × State :=
  match prepareCluster s fh (dwTotalCount - dwWriteCount) with
  | (false, fh, s) => (false, dwWriteCount, fh, s)
  | (true, fh, s) =>
    let dwOffsetInCluster := fh.dwCurrentOffset % FILESYSTEM_CLUSTERSIZE
    let dwCopySize := min (FILESYSTEM_CLUSTERSIZE - dwOffsetInCluster) (dwTotalCount - dwWriteCount)
    match kWriteCluster { s with buffer := copy s.buffer dwOffsetInCluster pvBuffer dwWriteCount dwCopySize }
        fh.dwCurrentClusterIndex with
    | (false, s) => (false, dwWriteCount, fh, s)
    | (true, s) =>
      match nextCluster s { fh with dwCurrentOffset := u32 (fh.dwCurrentOffset + dwCopySize) } with
      | (go, fh, s) => (go, dwWriteCount + dwCopySize, fh, s)

def writeLoop (pvBuffer : Memory) (dwTotalCount : Nat) : Nat → State → FileHandle → Nat → Nat × FileHandle × State
  | 0, s, fh, dwWriteCount => (dwWriteCount, fh, s)
  | rounds + 1, s, fh, dwWriteCount =>
    if dwWriteCount = dwTotalCount then (dwWriteCount, fh, s) else
    match writeRound s fh pvBuffer dwTotalCount dwWriteCount with
    | (false, result) => result
    | (true, dwWriteCount, fh, s) => writeLoop pvBuffer dwTotalCount rounds s fh dwWriteCount

/-- `kUpdateDirectoryEntry` (:907). -/
def kUpdateDirectoryEntry (s : State) (fh : FileHandle) : Bool × State :=
  match kGetDirectoryEntryData s fh.iDirectoryEntryOffset fun _ => 0 with
  | ((false, _), s) => (false, s)
  | ((true, stEntry), s) => kSetDirectoryEntryData s fh.iDirectoryEntryOffset
      (write32 (write32 stEntry 24 fh.dwFileSize) 28 fh.dwStartClusterIndex)

/-- The end of `kWriteFile` (:1058): a file that has grown. -/
def updateSize (s : State) (fh : FileHandle) : FileHandle × State :=
  if fh.dwFileSize < fh.dwCurrentOffset then
    let fh := { fh with dwFileSize := fh.dwCurrentOffset }
    (fh, (kUpdateDirectoryEntry s fh).2)
  else (fh, s)

/-- `kWriteFile` (:935). -/
def kWriteFile (s : State) (pvBuffer : Memory) (dwSize dwCount h : Nat) : Option (Nat × State) :=
  if (s.manager.pstHandlePool h).bType ≠ .file then some (0, s) else
  let dwTotalCount := u32 (dwSize * dwCount)
  match writeLoop pvBuffer dwTotalCount dwTotalCount s (s.manager.pstHandlePool h).stFileHandle 0 with
  | (dwWriteCount, fh, s) =>
    match updateSize s fh with
    | (fh, s) => if dwSize = 0 then none else some (dwWriteCount / dwSize, s.setHandle h ⟨.file, fh⟩)

/-- The loop of `kWriteZero` (:1073), with so many rounds to go. -/
def writeZeros (h : Nat) : Nat → State → Nat → Option (Bool × State)
  | 0, s, dwRemainCount => some (dwRemainCount == 0, s)
  | rounds + 1, s, dwRemainCount =>
    if dwRemainCount = 0 then some (true, s) else
    let dwWriteCount := min dwRemainCount FILESYSTEM_CLUSTERSIZE
    (kWriteFile s (fun _ => 0) 1 dwWriteCount h).bind fun (written, s) =>
      if written = dwWriteCount then writeZeros h rounds s (dwRemainCount - dwWriteCount) else some (false, s)

def kWriteZero (s : State) (h dwCount : Nat) : Option (Bool × State) := writeZeros h dwCount s dwCount

/-! ## Seeking -/

/-- `iOffset` from `base`, and not below 0 (:1152, :1165). -/
def moveFrom (base : Nat) (iOffset : Int) : Nat :=
  if iOffset < 0 ∧ base ≤ u32 (-iOffset).toNat then 0 else ((base + iOffset) % 2 ^ 32).toNat

/-- `dwRealOffset` (:1134-:1174), for `FILESYSTEM_SEEK_SET`, `_CUR` and `_END`. -/
def realOffset (fh : FileHandle) (iOffset iOrigin : Int) : Nat :=
  if iOrigin = 0 then (if iOffset ≤ 0 then 0 else iOffset.toNat)
  else if iOrigin = 1 then moveFrom fh.dwCurrentOffset iOffset
  else if iOrigin = 2 then moveFrom fh.dwFileSize iOffset
  else 0

/-- `dwMoveCount` and `dwStartClusterIndex` (:1193-:1214). -/
def seekMoves (fh : FileHandle) (dwRealOffset : Nat) : Nat × Nat :=
  let dwLastClusterOffset := fh.dwFileSize / FILESYSTEM_CLUSTERSIZE
  let dwClusterOffsetToMove := dwRealOffset / FILESYSTEM_CLUSTERSIZE
  let dwCurrentClusterOffset := fh.dwCurrentOffset / FILESYSTEM_CLUSTERSIZE
  if dwLastClusterOffset < dwClusterOffsetToMove then
    (sub32 dwLastClusterOffset dwCurrentClusterOffset, fh.dwCurrentClusterIndex)
  else if dwCurrentClusterOffset ≤ dwClusterOffsetToMove then
    (dwClusterOffsetToMove - dwCurrentClusterOffset, fh.dwCurrentClusterIndex)
  else (dwClusterOffsetToMove, fh.dwStartClusterIndex)

/-- The walk of `kSeekFile` (:1221): the previous and the current cluster after so many links. -/
def moveClusters (s : State) (previous current : Nat) : Nat → Option (Nat × Nat) × State
  | 0 => (some (previous, current), s)
  | moves + 1 =>
    match kGetClusterLinkData s current with
    | (none, s) => (none, s)
    | (some next, s) => moveClusters s current next moves

/-- Where the walk leaves the handle (:1238-:1248). -/
def placeHandle (fh : FileHandle) (dwMoveCount dwStartClusterIndex previous current : Nat) : FileHandle :=
  if dwMoveCount > 0 then { fh with dwPreviousClusterIndex := previous, dwCurrentClusterIndex := current }
  else if dwStartClusterIndex = fh.dwStartClusterIndex then
    { fh with
      dwPreviousClusterIndex := fh.dwStartClusterIndex
      dwCurrentClusterIndex := fh.dwStartClusterIndex }
  else fh

/-- `kSeekFile` (:1115). -/
def kSeekFile (s : State) (h : Nat) (iOffset iOrigin : Int) : Option (Int × State) :=
  if (s.manager.pstHandlePool h).bType ≠ .file then some (0, s) else
  let fh := (s.manager.pstHandlePool h).stFileHandle
  let dwRealOffset := realOffset fh iOffset iOrigin
  let (dwMoveCount, dwStartClusterIndex) := seekMoves fh dwRealOffset
  match moveClusters s 0 dwStartClusterIndex dwMoveCount with
  | (none, s) => some (-1, s)
  | (some (previous, current), s) =>
    let fh := placeHandle fh dwMoveCount dwStartClusterIndex previous current
    if fh.dwFileSize / FILESYSTEM_CLUSTERSIZE < dwRealOffset / FILESYSTEM_CLUSTERSIZE then
      let s := s.setHandle h ⟨.file, { fh with dwCurrentOffset := fh.dwFileSize }⟩
      (kWriteZero s h (sub32 dwRealOffset fh.dwFileSize)).map fun (zeroed, s) =>
        (0, if zeroed then s.setHandle h ⟨.file,
            { (s.manager.pstHandlePool h).stFileHandle with dwCurrentOffset := dwRealOffset }⟩ else s)
    else some (0, s.setHandle h ⟨.file, { fh with dwCurrentOffset := dwRealOffset }⟩)

/-! ## Opening, closing, removing -/

/-- `strlen(name)` is no length of a file name (:711, :1334). -/
def badName (name : List UInt8) : Bool := name.length > FILESYSTEM_MAXFILENAMELENGTH - 1 ∨ name.length = 0

/-- The entry that `kOpenFile` opens (:722-:787): found, made, or truncated. -/
def openEntry (s : State) (name : List UInt8) (mode : Char) (stEntry : Memory) :
    Option (Option (Nat × Memory) × State) :=
  match kFindDirectoryEntry s name stEntry with
  | ((none, stEntry), s) => if mode = 'r' then some (none, s) else some (kCreateFile s name stEntry)
  | ((some i, stEntry), s) =>
    if mode = 'w' then
      (truncateFile s i stEntry).map fun (entry, s) => (entry.map fun stEntry => (i, stEntry), s)
    else some (some (i, stEntry), s)

/-- The handle for an entry (:804-:810). -/
def newHandle (i : Nat) (stEntry : Memory) : FileHandle where
  iDirectoryEntryOffset := i
  dwFileSize := read32 stEntry 24
  dwStartClusterIndex := read32 stEntry 28
  dwCurrentClusterIndex := read32 stEntry 28
  dwPreviousClusterIndex := read32 stEntry 28
  dwCurrentOffset := 0

/-- `kOpenFile` (:701). -/
def kOpenFile (s : State) (name : List UInt8) (mode : Char) (stEntry : Memory) : Option (Option Nat × State) :=
  if badName name then some (none, s) else
  (openEntry s name mode stEntry).bind fun
    | (none, s) => some (none, s)
    | (some (i, stEntry), s) =>
      match kAllocateFileDirectoryHandle s with
      | none => some (none, s)
      | some (h, s) =>
        let s := s.setHandle h ⟨.file, newHandle i stEntry⟩
        if mode = 'a' then (kSeekFile s h 0 2).map fun (_, s) => (some h, s) else some (some h, s)

/-- `kCloseFile` (:1286). -/
def kCloseFile (s : State) (h : Nat) : Int × State :=
  if (s.manager.pstHandlePool h).bType ≠ .file then (-1, s) else (0, kFreeFileDirectoryHandle s h)

/-- `kRemoveFile` (:1326). -/
def kRemoveFile (s : State) (name : List UInt8) (stEntry : Memory) : Option (Int × State) :=
  if badName name then some (0, s) else
  match kFindDirectoryEntry s name stEntry with
  | ((none, _), s) => some (-1, s)
  | ((some i, stEntry), s) =>
    if kIsFileOpened s (read32 stEntry 28) then some (-1, s) else
    (kFreeClusterUntilEnd s (read32 stEntry 28)).map fun (freed, s) =>
      if freed then
        match kSetDirectoryEntryData s i (fun _ => 0) with
        | (false, s) => (-1, s)
        | (true, s) => (0, s)
      else (-1, s)

end Mint
