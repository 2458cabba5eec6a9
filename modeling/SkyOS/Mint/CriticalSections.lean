import SkyOS.Lib.Sections
import SkyOS.Mint.OwnershipRuns

/-!
# The critical sections of the MINT calls

What each call does with `kEnterCriticalSection`, `kLeaveCriticalSection` and the one buffer `gs_vbTempBuffer`, as a
trace. The traces follow the functions of `Mint.Files` branch by branch; a call of a function of the lower half, all of
which work in the buffer, is one `use`, and so is each access to the buffer itself.

| here | there |
| --- | --- |
| `.enter`, `.leave` | `kEnterCriticalSection`, `kLeaveCriticalSection` |
| `.use` | the buffer, or a function that works in it |
| a trace that ends inside | `kFreeClusterUntilEnd` does not come back |
-/

namespace Mint

open Bytes Machine Sections

/-! ## Reading -/

/-- `nextCluster`: the link of the current cluster, at the end of a cluster. -/
def nextClusterTrace (fh : FileHandle) : List Event :=
  if fh.dwCurrentOffset % FILESYSTEM_CLUSTERSIZE = 0 then [.use] else []

/-- A round of `kReadFile` (:866): the cluster, the copy from the buffer, the next link. -/
def readRoundTrace (s : State) (fh : FileHandle) (dwTotalCount dwReadCount : Nat) : List Event :=
  .use :: match kReadCluster s fh.dwCurrentClusterIndex with
    | (false, _) => []
    | (true, _) =>
      let dwOffsetInCluster := fh.dwCurrentOffset % FILESYSTEM_CLUSTERSIZE
      let dwCopySize := min (FILESYSTEM_CLUSTERSIZE - dwOffsetInCluster) (dwTotalCount - dwReadCount)
      .use :: nextClusterTrace { fh with dwCurrentOffset := u32 (fh.dwCurrentOffset + dwCopySize) }

def readLoopTrace (dwTotalCount : Nat) : Nat → State → FileHandle → Memory → Nat → List Event
  | 0, _, _, _, _ => []
  | rounds + 1, s, fh, pvBuffer, dwReadCount =>
    if dwReadCount = dwTotalCount then [] else
    readRoundTrace s fh dwTotalCount dwReadCount ++ match readRound s fh pvBuffer dwTotalCount dwReadCount with
      | (false, _) => []
      | (true, pvBuffer, dwReadCount, fh, s) => readLoopTrace dwTotalCount rounds s fh pvBuffer dwReadCount

/-- `kReadFile` (:819). -/
def kReadFileTrace (s : State) (pvBuffer : Memory) (dwSize dwCount h : Nat) : List Event :=
  let fh := (s.manager.pstHandlePool h).stFileHandle
  if (s.manager.pstHandlePool h).bType ≠ .file then []
  else if fh.dwCurrentOffset = fh.dwFileSize ∨ fh.dwCurrentClusterIndex = FILESYSTEM_LASTCLUSTER then []
  else
    let dwTotalCount := min (u32 (dwSize * dwCount)) (sub32 fh.dwFileSize fh.dwCurrentOffset)
    .enter :: readLoopTrace dwTotalCount dwTotalCount s fh pvBuffer 0 ++ [.leave]

/-! ## Writing -/

/-- The cluster of a round of `kWriteFile` (:970-:1017). -/
def prepareClusterTrace (s : State) (fh : FileHandle) (dwRemainCount : Nat) : List Event :=
  if fh.dwCurrentClusterIndex = FILESYSTEM_LASTCLUSTER then
    .use :: match kFindFreeCluster s with
    | (dwAllocatedClusterIndex, s) =>
      if dwAllocatedClusterIndex = FILESYSTEM_LASTCLUSTER then [] else
      .use :: match kSetClusterLinkData s dwAllocatedClusterIndex FILESYSTEM_LASTCLUSTER with
      | (false, _) => []
      -- the link before, and then either its release or the clearing of the buffer
      | (true, _) => [.use, .use]
  else if fh.dwCurrentOffset % FILESYSTEM_CLUSTERSIZE ≠ 0 ∨ dwRemainCount < FILESYSTEM_CLUSTERSIZE then [.use]
  else []

/-- A round of `kWriteFile` (:963). -/
def writeRoundTrace (s : State) (fh : FileHandle) (pvBuffer : Memory) (dwTotalCount dwWriteCount : Nat) : List Event :=
  prepareClusterTrace s fh (dwTotalCount - dwWriteCount) ++
  match prepareCluster s fh (dwTotalCount - dwWriteCount) with
  | (false, _, _) => []
  | (true, fh, s) =>
    let dwOffsetInCluster := fh.dwCurrentOffset % FILESYSTEM_CLUSTERSIZE
    let dwCopySize := min (FILESYSTEM_CLUSTERSIZE - dwOffsetInCluster) (dwTotalCount - dwWriteCount)
    .use :: .use :: match kWriteCluster
        { s with buffer := copy s.buffer dwOffsetInCluster pvBuffer dwWriteCount dwCopySize } fh.dwCurrentClusterIndex with
    | (false, _) => []
    | (true, _) => nextClusterTrace { fh with dwCurrentOffset := u32 (fh.dwCurrentOffset + dwCopySize) }

def writeLoopTrace (pvBuffer : Memory) (dwTotalCount : Nat) : Nat → State → FileHandle → Nat → List Event
  | 0, _, _, _ => []
  | rounds + 1, s, fh, dwWriteCount =>
    if dwWriteCount = dwTotalCount then [] else
    writeRoundTrace s fh pvBuffer dwTotalCount dwWriteCount ++
    match writeRound s fh pvBuffer dwTotalCount dwWriteCount with
    | (false, _) => []
    | (true, dwWriteCount, fh, s) => writeLoopTrace pvBuffer dwTotalCount rounds s fh dwWriteCount

/-- The end of `kWriteFile` (:1058): `kUpdateDirectoryEntry` reads the entry and writes it. -/
def updateSizeTrace (s : State) (fh : FileHandle) : List Event :=
  if fh.dwFileSize < fh.dwCurrentOffset then
    .use :: match kGetDirectoryEntryData s fh.iDirectoryEntryOffset fun _ => 0 with
      | ((false, _), _) => []
      | ((true, _), _) => [.use]
  else []

/-- `kWriteFile` (:935). A `dwSize` of 0 is divided by after the section. -/
def kWriteFileTrace (s : State) (pvBuffer : Memory) (dwSize dwCount h : Nat) : List Event :=
  if (s.manager.pstHandlePool h).bType ≠ .file then [] else
  let fh := (s.manager.pstHandlePool h).stFileHandle
  let dwTotalCount := u32 (dwSize * dwCount)
  .enter :: (writeLoopTrace pvBuffer dwTotalCount dwTotalCount s fh 0 ++
    match writeLoop pvBuffer dwTotalCount dwTotalCount s fh 0 with
    | (_, fh, s) => updateSizeTrace s fh) ++ [.leave]

/-- The loop of `kWriteZero` (:1073): calls of `kWriteFile`. -/
def writeZerosTrace (h : Nat) : Nat → State → Nat → List Event
  | 0, _, _ => []
  | rounds + 1, s, dwRemainCount =>
    if dwRemainCount = 0 then [] else
    let dwWriteCount := min dwRemainCount FILESYSTEM_CLUSTERSIZE
    kWriteFileTrace s (fun _ => 0) 1 dwWriteCount h ++ match kWriteFile s (fun _ => 0) 1 dwWriteCount h with
      | none => []
      | some (written, s) =>
        if written = dwWriteCount then writeZerosTrace h rounds s (dwRemainCount - dwWriteCount) else []

def kWriteZeroTrace (s : State) (h dwCount : Nat) : List Event := writeZerosTrace h dwCount s dwCount

/-! ## Seeking -/

/-- The walk of `kSeekFile` (:1221). -/
def moveClustersTrace (s : State) (current : Nat) : Nat → List Event
  | 0 => []
  | moves + 1 =>
    .use :: match kGetClusterLinkData s current with
      | (none, _) => []
      | (some next, s) => moveClustersTrace s next moves

/-- `kSeekFile` (:1115). -/
def kSeekFileTrace (s : State) (h : Nat) (iOffset iOrigin : Int) : List Event :=
  if (s.manager.pstHandlePool h).bType ≠ .file then [] else
  let fh := (s.manager.pstHandlePool h).stFileHandle
  let dwRealOffset := realOffset fh iOffset iOrigin
  let (dwMoveCount, dwStartClusterIndex) := seekMoves fh dwRealOffset
  .enter :: moveClustersTrace s dwStartClusterIndex dwMoveCount ++
  match moveClusters s 0 dwStartClusterIndex dwMoveCount with
  | (none, _) => [.leave]
  | (some (previous, current), s) =>
    let fh := placeHandle fh dwMoveCount dwStartClusterIndex previous current
    if fh.dwFileSize / FILESYSTEM_CLUSTERSIZE < dwRealOffset / FILESYSTEM_CLUSTERSIZE then
      let s := s.setHandle h ⟨.file, { fh with dwCurrentOffset := fh.dwFileSize }⟩
      .leave :: kWriteZeroTrace s h (sub32 dwRealOffset fh.dwFileSize) ++
        match kWriteZero s h (sub32 dwRealOffset fh.dwFileSize) with
        -- the second leave (:1278)
        | some (true, _) => [.leave]
        | _ => []
    else [.leave]

/-! ## Opening and removing -/

/-- `kCreateFile` (:627): a cluster, its link, an entry, and the cluster back where one of these fails. -/
def kCreateFileTrace (s : State) (name : List UInt8) (stEntry : Memory) : List Event :=
  .use :: match kFindFreeCluster s with
  | (dwCluster, s) =>
    if dwCluster = FILESYSTEM_LASTCLUSTER then [] else
    .use :: match kSetClusterLinkData s dwCluster FILESYSTEM_LASTCLUSTER with
    | (false, _) => []
    | (true, s) =>
      .use :: match kFindFreeDirectoryEntry s with
      | (none, _) => [.use]
      | (some i, s) =>
        .use :: match kSetDirectoryEntryData s i (write32 (write32 (putName stEntry name) 28 dwCluster) 24 0) with
          | (false, _) => [.use]
          | (true, _) => []

/-- The loop of `kFreeClusterUntilEnd` (:667). -/
def freeClustersTrace (s : State) (dwCurrentClusterIndex : Nat) : Nat → List Event
  | 0 => []
  | rounds + 1 =>
    if dwCurrentClusterIndex = FILESYSTEM_LASTCLUSTER then [] else
    .use :: match kGetClusterLinkData s dwCurrentClusterIndex with
    | (none, _) => []
    | (some dwNextClusterIndex, s) =>
      .use :: match kSetClusterLinkData s dwCurrentClusterIndex FILESYSTEM_FREECLUSTER with
        | (false, _) => []
        | (true, s) => freeClustersTrace s dwNextClusterIndex rounds

/-- Freeing, and what is done with the entry then (:767-:786, :1359-:1376). -/
def freeAndSetTrace (s : State) (dwClusterIndex : Nat) : List Event :=
  freeClustersTrace s dwClusterIndex loopRounds ++ match kFreeClusterUntilEnd s dwClusterIndex with
    | some (true, _) => [.use]
    | _ => []

/-- Opening with `w` (:749-:786). -/
def truncateFileTrace (s : State) (stEntry : Memory) : List Event :=
  .use :: match kGetClusterLinkData s (read32 stEntry 28) with
  | (none, _) => []
  | (some dwSecondCluster, s) =>
    .use :: match kSetClusterLinkData s (read32 stEntry 28) FILESYSTEM_LASTCLUSTER with
      | (false, _) => []
      | (true, s) => freeAndSetTrace s dwSecondCluster

/-- The entry that `kOpenFile` opens (:722-:787). -/
def openEntryTrace (s : State) (name : List UInt8) (mode : Char) (stEntry : Memory) : List Event :=
  .use :: match kFindDirectoryEntry s name stEntry with
    | ((none, stEntry), s) => if mode = 'r' then [] else kCreateFileTrace s name stEntry
    | ((some _, stEntry), s) => if mode = 'w' then truncateFileTrace s stEntry else []

/-- `kOpenFile` (:701). -/
def kOpenFileTrace (s : State) (name : List UInt8) (mode : Char) (stEntry : Memory) : List Event :=
  if badName name then [] else
  .enter :: openEntryTrace s name mode stEntry ++ match openEntry s name mode stEntry with
    | none => []
    | some (none, _) => [.leave]
    | some (some (i, stEntry), s) =>
      match kAllocateFileDirectoryHandle s with
      | none => [.leave]
      | some (h, s) =>
        let s := s.setHandle h ⟨.file, newHandle i stEntry⟩
        (if mode = 'a' then kSeekFileTrace s h 0 2 else []) ++ [.leave]

/-- `kRemoveFile` (:1326). -/
def kRemoveFileTrace (s : State) (name : List UInt8) (stEntry : Memory) : List Event :=
  if badName name then [] else
  .enter :: .use :: match kFindDirectoryEntry s name stEntry with
    | ((none, _), _) => [.leave]
    | ((some _, stEntry), s) =>
      if kIsFileOpened s (read32 stEntry 28) then [.leave] else
      freeAndSetTrace s (read32 stEntry 28) ++ match kFreeClusterUntilEnd s (read32 stEntry 28) with
        | none => []
        | some _ => [.leave]

/-! ## Inside a section -/

theorem nextClusterTrace_inside (fh : FileHandle) : Inside (nextClusterTrace fh) := by
  unfold nextClusterTrace
  split
  · exact inside_use
  · exact inside_nil

theorem readRoundTrace_inside (s : State) (fh : FileHandle) (total count : Nat) :
    Inside (readRoundTrace s fh total count) := by
  unfold readRoundTrace
  refine Inside.use ?_
  split
  · exact inside_nil
  · exact (nextClusterTrace_inside _).use

theorem readLoopTrace_inside (total rounds : Nat) (s : State) (fh : FileHandle) (pvBuffer : Memory) (count : Nat) :
    Inside (readLoopTrace total rounds s fh pvBuffer count) := by
  induction rounds generalizing s fh pvBuffer count with
  | zero => exact inside_nil
  | succ rounds ih =>
    rw [readLoopTrace]
    split
    · exact inside_nil
    · refine (readRoundTrace_inside s fh total count).append ?_
      split
      · exact inside_nil
      · exact ih _ _ _ _

theorem prepareClusterTrace_inside (s : State) (fh : FileHandle) (remain : Nat) :
    Inside (prepareClusterTrace s fh remain) := by
  unfold prepareClusterTrace
  split
  · refine Inside.use ?_
    dsimp only
    split
    · exact inside_nil
    · refine Inside.use ?_
      split
      · exact inside_nil
      · exact inside_use.use
  · split
    · exact inside_use
    · exact inside_nil

theorem writeRoundTrace_inside (s : State) (fh : FileHandle) (pvBuffer : Memory) (total count : Nat) :
    Inside (writeRoundTrace s fh pvBuffer total count) := by
  unfold writeRoundTrace
  refine (prepareClusterTrace_inside s fh _).append ?_
  split
  · exact inside_nil
  · refine Inside.use (Inside.use ?_)
    split
    · exact inside_nil
    · exact nextClusterTrace_inside _

theorem writeLoopTrace_inside (pvBuffer : Memory) (total rounds : Nat) (s : State) (fh : FileHandle) (count : Nat) :
    Inside (writeLoopTrace pvBuffer total rounds s fh count) := by
  induction rounds generalizing s fh count with
  | zero => exact inside_nil
  | succ rounds ih =>
    rw [writeLoopTrace]
    split
    · exact inside_nil
    · refine (writeRoundTrace_inside s fh pvBuffer total count).append ?_
      split
      · exact inside_nil
      · exact ih _ _ _

theorem updateSizeTrace_inside (s : State) (fh : FileHandle) : Inside (updateSizeTrace s fh) := by
  unfold updateSizeTrace
  split
  · refine Inside.use ?_
    split
    · exact inside_nil
    · exact inside_use
  · exact inside_nil

theorem moveClustersTrace_inside (s : State) (current moves : Nat) : Inside (moveClustersTrace s current moves) := by
  induction moves generalizing s current with
  | zero => exact inside_nil
  | succ moves ih =>
    rw [moveClustersTrace]
    refine Inside.use ?_
    split
    · exact inside_nil
    · exact ih _ _

theorem kCreateFileTrace_inside (s : State) (name : List UInt8) (stEntry : Memory) :
    Inside (kCreateFileTrace s name stEntry) := by
  unfold kCreateFileTrace
  refine Inside.use ?_
  dsimp only
  split
  · exact inside_nil
  · refine Inside.use ?_
    split
    · exact inside_nil
    · refine Inside.use ?_
      split
      · exact inside_use
      · refine Inside.use ?_
        split
        · exact inside_use
        · exact inside_nil

theorem freeClustersTrace_inside (s : State) (current rounds : Nat) : Inside (freeClustersTrace s current rounds) := by
  induction rounds generalizing s current with
  | zero => exact inside_nil
  | succ rounds ih =>
    rw [freeClustersTrace]
    split
    · exact inside_nil
    · refine Inside.use ?_
      split
      · exact inside_nil
      · refine Inside.use ?_
        split
        · exact inside_nil
        · exact ih _ _

theorem freeAndSetTrace_inside (s : State) (c : Nat) : Inside (freeAndSetTrace s c) := by
  unfold freeAndSetTrace
  refine (freeClustersTrace_inside s c loopRounds).append ?_
  split
  · exact inside_use
  · exact inside_nil

theorem openEntryTrace_inside (s : State) (name : List UInt8) (mode : Char) (stEntry : Memory) :
    Inside (openEntryTrace s name mode stEntry) := by
  unfold openEntryTrace
  refine Inside.use ?_
  split
  · split
    · exact inside_nil
    · exact kCreateFileTrace_inside _ _ _
  · split
    · unfold truncateFileTrace
      refine Inside.use ?_
      split
      · exact inside_nil
      · refine Inside.use ?_
        split
        · exact inside_nil
        · exact freeAndSetTrace_inside _ _
    · exact inside_nil

/-! ## The calls -/

theorem kReadFileTrace_closed (s : State) (pvBuffer : Memory) (dwSize dwCount h : Nat) :
    Closed (kReadFileTrace s pvBuffer dwSize dwCount h) := by
  unfold kReadFileTrace
  dsimp only
  split
  · exact closed_nil
  · split
    · exact closed_nil
    · exact (readLoopTrace_inside _ _ _ _ _ _).enclosed

theorem kWriteFileTrace_closed (s : State) (pvBuffer : Memory) (dwSize dwCount h : Nat) :
    Closed (kWriteFileTrace s pvBuffer dwSize dwCount h) := by
  unfold kWriteFileTrace
  split
  · exact closed_nil
  · exact ((writeLoopTrace_inside _ _ _ _ _ _).append (updateSizeTrace_inside _ _)).enclosed

theorem writeZerosTrace_closed (h rounds : Nat) (s : State) (remain : Nat) :
    Closed (writeZerosTrace h rounds s remain) := by
  induction rounds generalizing s remain with
  | zero => exact closed_nil
  | succ rounds ih =>
    rw [writeZerosTrace]
    split
    · exact closed_nil
    · refine (kWriteFileTrace_closed _ _ _ _ _).append ?_
      split
      · exact closed_nil
      · split
        · exact ih _ _
        · exact closed_nil

/-- Zeros from the end of the file to the target (:1262-:1268). -/
def fillGap (s : State) (h : Nat) (fh : FileHandle) (dwRealOffset : Nat) : Option (Bool × State) :=
  kWriteZero (s.setHandle h ⟨.file, { fh with dwCurrentOffset := fh.dwFileSize }⟩) h (sub32 dwRealOffset fh.dwFileSize)

/-- A seek that fills a gap: on an open file, the target is in a cluster behind the one in which the file ends, the links
to that one are read, and the zeros are written. -/
def FillsGap (s : State) (h : Nat) (iOffset iOrigin : Int) : Prop :=
  (s.manager.pstHandlePool h).bType = .file ∧
  let fh := (s.manager.pstHandlePool h).stFileHandle
  Extends fh iOffset iOrigin ∧
  let (dwMoveCount, dwStartClusterIndex) := seekMoves fh (realOffset fh iOffset iOrigin)
  ∃ previous current s₁ s₂, moveClusters s 0 dwStartClusterIndex dwMoveCount = (some (previous, current), s₁) ∧
    fillGap s₁ h (placeHandle fh dwMoveCount dwStartClusterIndex previous current) (realOffset fh iOffset iOrigin) =
      some (true, s₂)

/-- A seek that fills no gap is balanced; one that does leaves once too often. -/
theorem kSeekFileTrace_depth (s : State) (h : Nat) (iOffset iOrigin : Int) :
    (FillsGap s h iOffset iOrigin ∧ depth 0 (kSeekFileTrace s h iOffset iOrigin) = none) ∨
      (¬FillsGap s h iOffset iOrigin ∧ Closed (kSeekFileTrace s h iOffset iOrigin)) := by
  unfold FillsGap kSeekFileTrace
  by_cases htype : (s.manager.pstHandlePool h).bType = .file
  · rw [if_neg (not_not.2 htype)]
    generalize (s.manager.pstHandlePool h).stFileHandle = fh
    dsimp only
    generalize hmoves : seekMoves fh (realOffset fh iOffset iOrigin) = moves
    obtain ⟨n, start⟩ := moves
    have hwalk := moveClustersTrace_inside s start n
    cases hmove : moveClusters s 0 start n with
    | mk place s₁ =>
      cases place with
      | none =>
        refine .inr ⟨?_, hwalk.enclosed⟩
        rintro ⟨-, -, _, _, _, _, hsome, -⟩
        cases hsome
      | some place =>
        obtain ⟨previous, current⟩ := place
        dsimp only
        generalize hplaced : placeHandle fh n start previous current = placed
        have hsize : placed.dwFileSize = fh.dwFileSize := by rw [← hplaced, size_placeHandle]
        by_cases hext : Extends fh iOffset iOrigin
        · rw [if_pos (by rw [hsize]; exact hext)]
          generalize hgap : s₁.setHandle h ⟨.file, { placed with dwCurrentOffset := placed.dwFileSize }⟩ = s₂
          generalize hcount : sub32 (realOffset fh iOffset iOrigin) placed.dwFileSize = count
          have hfill : fillGap s₁ h placed (realOffset fh iOffset iOrigin) = kWriteZero s₂ h count := by
            rw [fillGap, hgap, hcount]
          -- the section is left, and the zeros are written outside of it
          have hleft : Closed (.enter :: moveClustersTrace s start n ++ .leave :: kWriteZeroTrace s₂ h count) := by
            have hsplit := hwalk.enclosed.append (writeZerosTrace_closed h count s₂ count)
            rwa [List.append_assoc] at hsplit
          split
          · rename_i s₃ hzero
            refine .inl ⟨⟨htype, hext, previous, current, s₁, s₃, rfl, ?_⟩, ?_⟩
            · rw [hplaced, hfill, hzero]
            · rw [← List.append_assoc, depth_append, hleft 0]
              rfl
          · rename_i hzero
            refine .inr ⟨?_, by rw [List.append_nil]; exact hleft⟩
            rintro ⟨-, -, p, c, t₁, t₂, heq, hz⟩
            cases heq
            rw [hplaced, hfill] at hz
            exact hzero t₂ hz
        · rw [if_neg (by rw [hsize]; exact hext)]
          refine .inr ⟨fun hgap => hext hgap.2.1, hwalk.enclosed⟩
  · rw [if_pos htype]
    exact .inr ⟨fun hgap => htype hgap.1, closed_nil⟩

theorem kSeekFileTrace_end_closed (s : State) (h : Nat) : Closed (kSeekFileTrace s h 0 2) := by
  rcases kSeekFileTrace_depth s h 0 2 with ⟨hgap, -⟩ | ⟨-, hclosed⟩
  · exact absurd hgap.2.1 not_extends_end
  · exact hclosed

/-- `kOpenFile` is closed, or it does not come back and the trace ends within the section. -/
theorem kOpenFileTrace_cases (s : State) (name : List UInt8) (mode : Char) (stEntry : Memory) :
    Closed (kOpenFileTrace s name mode stEntry) ∨
      (kOpenFile s name mode stEntry = none ∧ depth 0 (kOpenFileTrace s name mode stEntry) = some 1) := by
  unfold kOpenFile kOpenFileTrace
  split
  · exact .inl closed_nil
  · have hentry := openEntryTrace_inside s name mode stEntry
    split
    · rename_i hopen
      refine .inr ⟨by rw [hopen]; rfl, ?_⟩
      rw [List.append_nil]
      exact hentry 0
    · exact .inl hentry.enclosed
    · split
      · exact .inl hentry.enclosed
      · dsimp only
        split
        · -- the seek to the end is a section in the section
          refine .inl ?_
          rw [← List.append_assoc]
          exact (hentry.append (kSeekFileTrace_end_closed _ _).inside).enclosed
        · exact .inl hentry.enclosed

theorem kRemoveFileTrace_cases (s : State) (name : List UInt8) (stEntry : Memory) :
    Closed (kRemoveFileTrace s name stEntry) ∨
      (kRemoveFile s name stEntry = none ∧ depth 0 (kRemoveFileTrace s name stEntry) = some 1) := by
  unfold kRemoveFile kRemoveFileTrace
  split
  · exact .inl closed_nil
  · obtain ⟨⟨found, stEntry₁⟩, s₁⟩ := kFindDirectoryEntry s name stEntry
    cases found with
    | none => exact .inl inside_use.enclosed
    | some i =>
      dsimp only
      split
      · exact .inl inside_use.enclosed
      · have hfree := (freeAndSetTrace_inside s₁ (read32 stEntry₁ 28)).use
        cases hends : kFreeClusterUntilEnd s₁ (read32 stEntry₁ 28) with
        | none =>
          refine .inr ⟨rfl, ?_⟩
          rw [List.append_nil]
          exact hfree 0
        | some freed => exact .inl hfree.enclosed

/-! ## All of them -/

inductive LockedCall where
  | kReadFile (pvBuffer : Memory) (dwSize dwCount h : Nat)
  | kWriteFile (pvBuffer : Memory) (dwSize dwCount h : Nat)
  | kSeekFile (h : Nat) (iOffset iOrigin : Int)
  | kOpenFile (name : List UInt8) (mode : Char) (stEntry : Memory)
  | kRemoveFile (name : List UInt8) (stEntry : Memory)

def State.trace (s : State) : LockedCall → List Event
  | .kReadFile pvBuffer dwSize dwCount h => kReadFileTrace s pvBuffer dwSize dwCount h
  | .kWriteFile pvBuffer dwSize dwCount h => kWriteFileTrace s pvBuffer dwSize dwCount h
  | .kSeekFile h iOffset iOrigin => kSeekFileTrace s h iOffset iOrigin
  | .kOpenFile name mode stEntry => kOpenFileTrace s name mode stEntry
  | .kRemoveFile name stEntry => kRemoveFileTrace s name stEntry

def State.returns (s : State) : LockedCall → Prop
  | .kOpenFile name mode stEntry => kOpenFile s name mode stEntry ≠ none
  | .kRemoveFile name stEntry => kRemoveFile s name stEntry ≠ none
  | _ => True

/-- The call never leaves more often than it has entered, uses the buffer inside only, and has left as often as it has
entered when it comes back. -/
def SectionsRight (s : State) (c : LockedCall) : Prop :=
  InOrder (s.trace c) ∧ (s.returns c → (s.trace c).count .enter = (s.trace c).count .leave)

def LeavesTwice (s : State) : LockedCall → Prop
  | .kSeekFile h iOffset iOrigin => FillsGap s h iOffset iOrigin
  | _ => False

variable {s : State} {c : LockedCall}

theorem sectionsRight_of_closed (h : Closed (s.trace c)) : SectionsRight s c :=
  ⟨h.balanced.1, fun _ => h.balanced.2⟩

theorem sectionsRight_of_cases
    (h : Closed (s.trace c) ∨ ¬s.returns c ∧ depth 0 (s.trace c) = some 1) : SectionsRight s c := by
  rcases h with hclosed | ⟨hloops, hdepth⟩
  · exact sectionsRight_of_closed hclosed
  · exact ⟨(inOrder_iff _).2 ⟨1, hdepth⟩, fun hreturns => absurd hreturns hloops⟩

/-- **The critical sections are balanced exactly unless a seek fills a gap**: in every state, for every call, all its
arguments and every outcome of the sector operations. -/
theorem criticalSections_right_iff (s : State) (c : LockedCall) : SectionsRight s c ↔ ¬LeavesTwice s c := by
  cases c with
  | kReadFile pvBuffer dwSize dwCount h =>
    exact iff_of_true (sectionsRight_of_closed (kReadFileTrace_closed s pvBuffer dwSize dwCount h)) not_false
  | kWriteFile pvBuffer dwSize dwCount h =>
    exact iff_of_true (sectionsRight_of_closed (kWriteFileTrace_closed s pvBuffer dwSize dwCount h)) not_false
  | kSeekFile h iOffset iOrigin =>
    rcases kSeekFileTrace_depth s h iOffset iOrigin with ⟨hgap, hdepth⟩ | ⟨hgap, hclosed⟩
    · refine iff_of_false (fun hright => ?_) (not_not.2 hgap)
      obtain ⟨k, hk⟩ := (inOrder_iff _).1 hright.1
      rw [State.trace, hdepth] at hk
      cases hk
    · exact iff_of_true (sectionsRight_of_closed hclosed) hgap
  | kOpenFile name mode stEntry =>
    refine iff_of_true (sectionsRight_of_cases ?_) not_false
    exact (kOpenFileTrace_cases s name mode stEntry).imp_right fun h => ⟨not_not.2 h.1, h.2⟩
  | kRemoveFile name stEntry =>
    refine iff_of_true (sectionsRight_of_cases ?_) not_false
    exact (kRemoveFileTrace_cases s name stEntry).imp_right fun h => ⟨not_not.2 h.1, h.2⟩

/-- **A section left twice.** On a new file, a seek to 4096 leaves the section of its caller. -/
theorem kSeekFile_leaves_twice : ∃ s, fileSystem.Reach s ∧ ¬SectionsRight s (.kSeekFile 0 4096 0) := by
  let start : State := boot (fun _ => 0) (fun _ => 0) 40
  let calls : List Call := [.kOpenFile ⟨[97], by decide⟩ 'w' fun _ => 0]
  have hrun : (fileSystem.exec start calls).map (fun s => depth 0 (s.trace (.kSeekFile 0 4096 0))) = some none := by
    decide +kernel
  obtain ⟨s, hs, hdepth⟩ := Option.map_eq_some_iff.1 hrun
  refine ⟨s, StepSystem.reach_exec calls (boot_init _ _ (by decide) (by decide)) hs, fun hright => ?_⟩
  obtain ⟨k, hk⟩ := (inOrder_iff _).1 hright.1
  rw [hdepth] at hk
  cases hk

end Mint
