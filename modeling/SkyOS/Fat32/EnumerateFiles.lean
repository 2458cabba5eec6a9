import SkyOS.Fat32.Directory

/-!
# What an enumeration calls (`fat32.cpp:416`, `:490`)

The enumerations of `Directory`, with the calls they make, and with a callback that may remember what it has been
called with. The loop over a block looks at one entry more than the block has. So an enumeration stays inside the bytes
it has read only if it comes to its end in the first block.

| here | there |
| --- | --- |
| `CallBackFn` | the callback: what it has been called with before, and the entry; `true` when it returns 0 |
| `DirectoryCalls` | the calls that a directory has |
| `Asked` | one of the two functions, with its argument |
| the `Bool` of an enumeration | it has looked only at bytes of the buffer that have been read |
-/

namespace Fat32

open Machine Bytes

/-! ## The source -/

abbrev CallBackFn := List DirEntry → DirEntry → Bool

/-- The loop over the entries (:458, :530), with the calls before it and behind it. -/
def scanCalls (callBackFn : CallBackFn) : List DirEntry → List DirEntry → Scan × List DirEntry
  | calls, [] => (.offEnd, calls)
  | calls, de :: entries =>
    if de.first = 0 then (.ended, calls)
    else if de.first = 0xE5 then scanCalls callBackFn calls entries
    else if callBackFn calls de.restored then (.accepted de.restored, calls ++ [de.restored])
    else scanCalls callBackFn (calls ++ [de.restored]) entries

/-- The loop in a buffer of `byteReadSize` bytes, of which `filled` have been read. -/
def scanBlock (callBackFn : CallBackFn) (calls : List DirEntry) (filled byteReadSize : Nat) (buffer : Memory) :
    Scan × List DirEntry × Bool :=
  let (found, calls') := scanCalls callBackFn calls (dirEntries buffer (byteReadSize / 32 + 1))
  (found, calls', decide (filled ≤ byteReadSize ∧
    (scanCalls callBackFn calls (dirEntries buffer (filled / 32))).1 ≠ .offEnd))

variable (disk : HardDisk) (fi : FATInfo)

/-- The loop of `EnumerateFilesInFolder` over the clusters (:450). -/
def clusterCalls (callBackFn : CallBackFn) :
    Nat → List DirEntry → Nat → Memory → Option (Enumeration × List DirEntry × Bool)
  | 0, _, _, _ => none
  | rounds + 1, calls, dirCluster, dirData =>
    let (dirData, ok) := disk.readSectors (u32 (fi.partitionBegining + fi.firstSectorOfCluster dirCluster))
      fi.bpb.sectorsPerCluster dirData
    if ok = false then some (.failed, calls, decide (fi.bpb.sectorsPerCluster * 512 ≤ fi.byteReadSize))
    else
      match scanBlock callBackFn calls (fi.bpb.sectorsPerCluster * 512) fi.byteReadSize dirData with
      | (.ended, calls, inside) => some (.failed, calls, inside)
      | (.accepted de, calls, inside) => some (.cancelled de, calls, inside)
      | (.offEnd, calls, _) =>
        let (dirData, ok) := disk.readSectors (u32 (fi.partitionBegining + fi.fatSectorNumber dirCluster)) 1
          (restoreAll fi.byteReadSize dirData)
        if ok = false then some (.failed, calls, false)
        else
          let dirCluster := fi.getFATEntry dirCluster dirData
          if fi.isEndOfClusterChain dirCluster ∨ fi.isBadCluster dirCluster then some (.completed, calls, false)
          else (clusterCalls callBackFn rounds calls dirCluster dirData).map fun r => (r.1, r.2.1, false)

/-- The loop of `EnumerateFilesInRoot` over the sectors (:525), of which it has `n` before it. -/
def rootSectorCalls (callBackFn : CallBackFn) :
    Nat → List DirEntry → Nat → Memory → Enumeration × List DirEntry × Bool
  | 0, calls, _, _ => (.completed, calls, true)
  | n + 1, calls, lbaSec, rdSector =>
    let (rdSector, ok) := disk.readSectors lbaSec 1 rdSector
    if ok = false then (.failed, calls, decide (512 ≤ fi.bpb.bytesPerSector))
    else
      match scanBlock callBackFn calls 512 fi.bpb.bytesPerSector rdSector with
      | (.ended, calls, inside) => (.failed, calls, inside)
      | (.accepted de, calls, inside) => (.cancelled de, calls, inside)
      | (.offEnd, calls, _) =>
        let rest := rootSectorCalls callBackFn n calls (lbaSec + 1) (restoreAll fi.bpb.bytesPerSector rdSector)
        (rest.1, rest.2.1, false)

inductive Asked where
  | folder (folderDE : DirEntry)
  | root

/-- `EnumerateFilesInFolder` (:416) and `EnumerateFilesInRoot` (:490). -/
def enumerateFiles (callBackFn : CallBackFn) (rounds : Nat) (heap : Memory) :
    Asked → Option (Enumeration × List DirEntry × Bool)
  | .folder folderDE => clusterCalls disk fi callBackFn rounds [] folderDE.firstCluster heap
  | .root =>
    if fi.fatType = .fat32 then clusterCalls disk fi callBackFn rounds [] (fi.bpb.rootCluster % 2 ^ 16) heap
    else some (rootSectorCalls disk fi callBackFn (fi.bpb.rootDirEntries - fi.rootLBASec) [] fi.rootLBASec heap)

/-! ## What is asked of an enumeration -/

def Asked.directory : Asked → Directory
  | .folder folderDE => .chain folderDE.firstCluster
  | .root => fi.rootDirectory

/-- The calls on the entries of the directory from the `i`-th on, behind the first `calls`: each one in order, but for
those deleted, until the directory ends or the callback returns 0. -/
inductive DirectoryCalls (dir : Directory) (callBackFn : CallBackFn) : Nat → List DirEntry → List DirEntry → Prop where
  | absent {i calls} (h : fi.entryAt disk dir i = none) : DirectoryCalls dir callBackFn i calls calls
  | ended {i calls raw} (h : fi.entryAt disk dir i = some raw) (hend : raw.first = 0) :
      DirectoryCalls dir callBackFn i calls calls
  | deleted {i calls raw all} (h : fi.entryAt disk dir i = some raw) (hdeleted : raw.first = 0xE5)
      (hrest : DirectoryCalls dir callBackFn (i + 1) calls all) : DirectoryCalls dir callBackFn i calls all
  | stopped {i calls raw} (h : fi.entryAt disk dir i = some raw) (hlive : raw.first ≠ 0 ∧ raw.first ≠ 0xE5)
      (hstop : callBackFn calls raw.restored = true) : DirectoryCalls dir callBackFn i calls (calls ++ [raw.restored])
  | called {i calls raw all} (h : fi.entryAt disk dir i = some raw) (hlive : raw.first ≠ 0 ∧ raw.first ≠ 0xE5)
      (hgoes : callBackFn calls raw.restored = false)
      (hrest : DirectoryCalls dir callBackFn (i + 1) (calls ++ [raw.restored]) all) :
      DirectoryCalls dir callBackFn i calls all

/-- The enumeration returns, has looked only at what it has read, and has made the calls of the directory. -/
def EnumerationRight (asked : Asked) (callBackFn : CallBackFn) (heap : Memory) : Prop :=
  ∃ rounds result calls, enumerateFiles disk fi callBackFn rounds heap asked = some (result, calls, true) ∧
    DirectoryCalls disk fi (asked.directory fi) callBackFn 0 [] calls

def FATInfo.clusterBlock (cluster : Nat) : List DirEntry :=
  disk.entriesFrom (u32 (fi.partitionBegining + fi.firstSectorOfCluster cluster) % 2 ^ 28 * 512)
    (fi.bpb.sectorsPerCluster * 512 / 32)

def FATInfo.sectorBlock : List DirEntry := disk.entriesFrom (fi.rootLBASec % 2 ^ 28 * 512) (512 / 32)

/-- A block has the end mark, or an entry for which the callback returns 0; behind the first `calls`, these are all the
calls up to there. -/
inductive Ends (callBackFn : CallBackFn) : List DirEntry → List DirEntry → List DirEntry → Prop where
  | ended {calls raw block} (hend : raw.first = 0) : Ends callBackFn calls (raw :: block) calls
  | deleted {calls raw block all} (hdeleted : raw.first = 0xE5) (hrest : Ends callBackFn calls block all) :
      Ends callBackFn calls (raw :: block) all
  | stopped {calls raw block} (hlive : raw.first ≠ 0 ∧ raw.first ≠ 0xE5) (hstop : callBackFn calls raw.restored = true) :
      Ends callBackFn calls (raw :: block) (calls ++ [raw.restored])
  | called {calls raw block all} (hlive : raw.first ≠ 0 ∧ raw.first ≠ 0xE5)
      (hgoes : callBackFn calls raw.restored = false) (hrest : Ends callBackFn (calls ++ [raw.restored]) block all) :
      Ends callBackFn calls (raw :: block) all

/-- The block fits into its buffer and has an end, up to which it has the calls of the directory. -/
def BlockSuits (dir : Directory) (callBackFn : CallBackFn) (filled byteReadSize : Nat) (block : List DirEntry) : Prop :=
  filled ≤ byteReadSize ∧ ∃ calls, Ends callBackFn [] block calls ∧ DirectoryCalls disk fi dir callBackFn 0 [] calls

def ClusterSuits (dir : Directory) (callBackFn : CallBackFn) (cluster : Nat) : Prop :=
  BlockSuits disk fi dir callBackFn (fi.bpb.sectorsPerCluster * 512) fi.byteReadSize (fi.clusterBlock disk cluster)

/-- The root of FAT12 and FAT16 is not begun if it starts at or behind the sector with the number `RootDirEntries`. -/
def EnumerationSuits (callBackFn : CallBackFn) : Asked → Prop
  | .folder folderDE => ClusterSuits disk fi (.chain folderDE.firstCluster) callBackFn folderDE.firstCluster
  | .root =>
    if fi.fatType = .fat32 then
      ClusterSuits disk fi (.chain fi.bpb.rootCluster) callBackFn (fi.bpb.rootCluster % 2 ^ 16)
    else if fi.rootLBASec < fi.bpb.rootDirEntries then
      BlockSuits disk fi .table callBackFn 512 fi.bpb.bytesPerSector (fi.sectorBlock disk)
    else DirectoryCalls disk fi .table callBackFn 0 [] []

/-! ## One block -/

variable {disk fi} {callBackFn : CallBackFn} {calls : List DirEntry}

variable {block : List DirEntry}

variable {all : List DirEntry} {filled byteReadSize : Nat} {dir : Directory}

theorem ends_iff : Ends callBackFn calls block all ↔
    (scanCalls callBackFn calls block).1 ≠ .offEnd ∧ all = (scanCalls callBackFn calls block).2 := by
  constructor
  · intro h
    induction h with
    | ended hend =>
      rw [scanCalls, if_pos hend]
      exact ⟨by simp, rfl⟩
    | deleted hdeleted _ ih => rwa [scanCalls, if_neg (by rw [hdeleted]; decide), if_pos hdeleted]
    | stopped hlive hstop =>
      rw [scanCalls, if_neg hlive.1, if_neg hlive.2, if_pos hstop]
      exact ⟨by simp, rfl⟩
    | called hlive hgoes _ ih => rwa [scanCalls, if_neg hlive.1, if_neg hlive.2, if_neg (by simp [hgoes])]
  · rintro ⟨hends, rfl⟩
    induction block generalizing calls with
    | nil => exact absurd rfl hends
    | cons de block ih =>
      unfold scanCalls at hends ⊢
      split_ifs at hends ⊢ with hzero hdeleted hstop
      · exact .ended hzero
      · exact .deleted hdeleted (ih hends)
      · exact .stopped ⟨hzero, hdeleted⟩ hstop
      · exact .called ⟨hzero, hdeleted⟩ (by simpa using hstop) (ih hends)

theorem scanCalls_append (before behind : List DirEntry) (h : (scanCalls callBackFn calls before).1 ≠ .offEnd) :
    scanCalls callBackFn calls (before ++ behind) = scanCalls callBackFn calls before := by
  induction before generalizing calls with
  | nil => exact absurd rfl h
  | cons de before ih =>
    rw [List.cons_append]
    unfold scanCalls at h ⊢
    split_ifs at h ⊢
    · rfl
    · exact ih h
    · rfl
    · exact ih h

theorem dirEntries_add (buffer : Memory) (n k : Nat) : ∃ behind, dirEntries buffer (n + k) = dirEntries buffer n ++
    behind := by
  unfold dirEntries
  rw [List.range_add, List.map_append]
  exact ⟨_, rfl⟩

theorem scanBlock_inside {buffer : Memory} (hfits : filled ≤ byteReadSize)
    (hends : (scanCalls callBackFn calls (dirEntries buffer (filled / 32))).1 ≠ .offEnd) :
    scanBlock callBackFn calls filled byteReadSize buffer =
      ((scanCalls callBackFn calls (dirEntries buffer (filled / 32))).1,
        (scanCalls callBackFn calls (dirEntries buffer (filled / 32))).2, true) := by
  obtain ⟨k, hk⟩ : ∃ k, byteReadSize / 32 + 1 = filled / 32 + k := ⟨byteReadSize / 32 + 1 - filled / 32, by omega⟩
  obtain ⟨behind, hbehind⟩ := dirEntries_add buffer (filled / 32) k
  rw [scanBlock, hk, hbehind, scanCalls_append _ behind hends, decide_eq_true ⟨hfits, hends⟩]

def BlockCalls (callBackFn : CallBackFn) (filled byteReadSize : Nat) (block calls : List DirEntry) : Prop :=
  filled ≤ byteReadSize ∧ Ends callBackFn [] block calls

section

variable {filled byteReadSize : Nat} {buffer : Memory} {found : Scan} {block : List DirEntry}
  (hblock : dirEntries buffer (filled / 32) = block)

include hblock

theorem blockCalls_of_scanBlock (h : scanBlock callBackFn [] filled byteReadSize buffer = (found, calls, true)) :
    BlockCalls callBackFn filled byteReadSize block calls := by
  have hinside : filled ≤ byteReadSize ∧ (scanCalls callBackFn [] (dirEntries buffer (filled / 32))).1 ≠ .offEnd :=
    of_decide_eq_true (congrArg (fun r => r.2.2) h)
  obtain ⟨hfits, hends⟩ := hinside
  rw [scanBlock_inside hfits hends, hblock] at h
  rw [hblock] at hends
  exact ⟨hfits, ends_iff.2 ⟨hends, (congrArg (fun r => r.2.1) h).symm⟩⟩

theorem BlockCalls.scanBlock (h : BlockCalls callBackFn filled byteReadSize block calls) :
    ∃ found, found ≠ .offEnd ∧ scanBlock callBackFn [] filled byteReadSize buffer = (found, calls, true) := by
  subst hblock
  obtain ⟨hends, rfl⟩ := ends_iff.1 h.2
  exact ⟨_, hends, scanBlock_inside h.1 hends⟩

end

/-! ## The first block of a directory -/

section

variable (hok : ∀ i, disk.fails i = false)

include hok

/-- When something behind the first cluster has been looked at, it is never taken back. -/
theorem clusterCalls_inside_iff (cluster : Nat) (heap : Memory) :
    (∃ rounds result, clusterCalls disk fi callBackFn rounds [] cluster heap = some (result, calls, true)) ↔
      BlockCalls callBackFn (fi.bpb.sectorsPerCluster * 512) fi.byteReadSize (fi.clusterBlock disk cluster) calls := by
  have hblock : dirEntries (copy heap 0 disk.bytes
      (u32 (fi.partitionBegining + fi.firstSectorOfCluster cluster) % 2 ^ 28 * 512) (fi.bpb.sectorsPerCluster * 512))
      (fi.bpb.sectorsPerCluster * 512 / 32) = fi.clusterBlock disk cluster := dirEntries_copy heap (by omega)
  constructor
  · rintro ⟨rounds, result, h⟩
    cases rounds with
    | zero => cases h
    | succ rounds =>
      rw [clusterCalls, HardDisk.readSectors_ok hok] at h
      dsimp only at h
      rw [if_neg (by simp)] at h
      generalize hscan : scanBlock callBackFn [] _ _ _ = scanned at h
      obtain ⟨found, calls', inside⟩ := scanned
      cases found with
      | ended =>
        cases h
        exact blockCalls_of_scanBlock hblock hscan
      | accepted de =>
        cases h
        exact blockCalls_of_scanBlock hblock hscan
      | offEnd =>
        dsimp only at h
        rw [HardDisk.readSectors_ok hok] at h
        rw [if_neg (by simp)] at h
        split at h
        · cases h
        · obtain ⟨r, -, hr⟩ := Option.map_eq_some_iff.1 h
          cases hr
  · intro h
    obtain ⟨found, hends, hscan⟩ := h.scanBlock hblock
    cases found with
    | offEnd => exact absurd rfl hends
    | ended =>
      refine ⟨1, .failed, ?_⟩
      rw [clusterCalls, HardDisk.readSectors_ok hok]
      dsimp only
      rw [if_neg (by simp), hscan]
    | accepted de =>
      refine ⟨1, .cancelled de, ?_⟩
      rw [clusterCalls, HardDisk.readSectors_ok hok]
      dsimp only
      rw [if_neg (by simp), hscan]

theorem rootSectorCalls_inside_iff (n lbaSec : Nat) (heap : Memory) :
    (∃ result, rootSectorCalls disk fi callBackFn (n + 1) [] lbaSec heap = (result, calls, true)) ↔
      BlockCalls callBackFn 512 fi.bpb.bytesPerSector (disk.entriesFrom (lbaSec % 2 ^ 28 * 512) (512 / 32)) calls := by
  have hblock : dirEntries (copy heap 0 disk.bytes (lbaSec % 2 ^ 28 * 512) (1 * 512)) (512 / 32)
      = disk.entriesFrom (lbaSec % 2 ^ 28 * 512) (512 / 32) := dirEntries_copy heap (by omega)
  rw [rootSectorCalls, HardDisk.readSectors_ok hok]
  dsimp only
  rw [if_neg (by simp)]
  constructor
  · rintro ⟨result, h⟩
    generalize hscan : scanBlock callBackFn [] _ _ _ = scanned at h
    obtain ⟨found, calls', inside⟩ := scanned
    cases found with
    | offEnd => cases h
    | ended =>
      cases h
      exact blockCalls_of_scanBlock hblock hscan
    | accepted de =>
      cases h
      exact blockCalls_of_scanBlock hblock hscan
  · intro h
    obtain ⟨found, hends, hscan⟩ := h.scanBlock hblock
    rw [hscan]
    cases found with
    | offEnd => exact absurd rfl hends
    | ended => exact ⟨.failed, rfl⟩
    | accepted de => exact ⟨.cancelled de, rfl⟩

theorem clusterSuits_iff (dir : Directory) (cluster : Nat) (heap : Memory) :
    (∃ rounds result calls, clusterCalls disk fi callBackFn rounds [] cluster heap = some (result, calls, true) ∧
      DirectoryCalls disk fi dir callBackFn 0 [] calls) ↔ ClusterSuits disk fi dir callBackFn cluster := by
  constructor
  · rintro ⟨rounds, result, calls, hrun, hcalls⟩
    obtain ⟨hfits, hends⟩ := (clusterCalls_inside_iff hok cluster heap).1 ⟨rounds, result, hrun⟩
    exact ⟨hfits, calls, hends, hcalls⟩
  · rintro ⟨hfits, calls, hends, hcalls⟩
    obtain ⟨rounds, result, hrun⟩ := (clusterCalls_inside_iff hok cluster heap).2 ⟨hfits, hends⟩
    exact ⟨rounds, result, calls, hrun, hcalls⟩

end

/-- **Enumeration**: exactly these calls of the two functions are right, on every volume that can be read. -/
theorem enumeration_right_iff (hok : ∀ i, disk.fails i = false) (asked : Asked) (callBackFn : CallBackFn) (heap : Memory) :
    EnumerationRight disk fi asked callBackFn heap ↔ EnumerationSuits disk fi callBackFn asked := by
  unfold EnumerationRight
  cases asked with
  | folder folderDE => exact clusterSuits_iff hok _ _ heap
  | root =>
    have hdirectory : Asked.directory fi .root = if fi.fatType = .fat32 then .chain fi.bpb.rootCluster else .table := rfl
    rw [hdirectory, EnumerationSuits]
    by_cases htype : fi.fatType = .fat32
    · rw [if_pos htype, if_pos htype]
      simp only [enumerateFiles, if_pos htype]
      exact clusterSuits_iff hok _ _ heap
    · rw [if_neg htype, if_neg htype]
      simp only [enumerateFiles, if_neg htype]
      by_cases hbegun : fi.rootLBASec < fi.bpb.rootDirEntries
      · obtain ⟨n, hn⟩ : ∃ n, fi.bpb.rootDirEntries - fi.rootLBASec = n + 1 :=
          ⟨fi.bpb.rootDirEntries - fi.rootLBASec - 1, by omega⟩
        rw [if_pos hbegun, hn]
        constructor
        · rintro ⟨_, result, calls, hrun, hcalls⟩
          obtain ⟨hfits, hends⟩ := (rootSectorCalls_inside_iff hok n _ heap).1 ⟨result, Option.some.inj hrun⟩
          exact ⟨hfits, calls, hends, hcalls⟩
        · rintro ⟨hfits, calls, hends, hcalls⟩
          obtain ⟨result, hrun⟩ := (rootSectorCalls_inside_iff hok n fi.rootLBASec heap).2 ⟨hfits, hends⟩
          exact ⟨0, result, calls, congrArg some hrun, hcalls⟩
      · rw [if_neg hbegun, Nat.sub_eq_zero_of_le (by omega)]
        constructor
        · rintro ⟨_, result, calls, hrun, hcalls⟩
          obtain ⟨-, rfl, -⟩ : _ ∧ [] = calls ∧ _ := by
            simpa only [rootSectorCalls, Option.some.injEq, Prod.mk.injEq] using hrun
          exact hcalls
        · exact fun hcalls => ⟨0, .completed, [], rfl, hcalls⟩

def directoryVolume : FATInfo where
  bpb :=
    { bytesPerSector := 512, sectorsPerCluster := 1, reservedSectors := 1, numberFATs := 1, rootDirEntries := 16,
      totalSectors16 := 20, fatSize16 := 1, totalSectors32 := 0, fatSize32 := 0, rootCluster := 0 }
  partitionBegining := 1

/-- Cluster 2 is the last one of its chain, and its first `n` entries are named `A`. -/
def directoryDisk (n : Nat) : HardDisk where
  bytes a := if a = 1027 then 0xff else if a = 1028 then 0x0f
    else if 2048 ≤ a ∧ a < 2048 + 32 * n ∧ a % 32 = 0 then 65 else 0
  fails _ := false

def folderOfTwo : DirEntry := ⟨List.replicate 26 0 ++ [2, 0, 0, 0, 0, 0]⟩

theorem enumeration_right_oneFile :
    EnumerationRight (directoryDisk 1) directoryVolume (.folder folderOfTwo) (fun _ _ => false) fun _ => 0 := by
  have hfirst : directoryVolume.entryAt (directoryDisk 1) (.chain 2) 0 = some ⟨65 :: List.replicate 31 0⟩ := by
    decide +kernel
  have hsecond : directoryVolume.entryAt (directoryDisk 1) (.chain 2) 1 = some ⟨List.replicate 32 0⟩ := by
    decide +kernel
  have hblock : directoryVolume.clusterBlock (directoryDisk 1) 2 =
      ⟨65 :: List.replicate 31 0⟩ :: List.replicate 15 ⟨List.replicate 32 0⟩ := by decide +kernel
  refine (enumeration_right_iff (fun _ => rfl) _ _ _).2 ⟨by decide, [⟨65 :: List.replicate 31 0⟩], ?_, ?_⟩
  · change Ends _ _ (directoryVolume.clusterBlock (directoryDisk 1) 2) _
    rw [hblock]
    exact .called ⟨by decide, by decide⟩ rfl (.ended rfl)
  · exact .called hfirst ⟨by decide, by decide⟩ rfl (.ended hsecond rfl)

/-- With 16 entries the cluster is full, and a seventeenth one is looked at behind the buffer. -/
theorem enumeration_leaves_buffer : ¬ ∀ (disk : HardDisk) (fi : FATInfo), (∀ i, disk.fails i = false) →
    ∀ asked callBackFn heap, EnumerationRight disk fi asked callBackFn heap := by
  intro hclaim
  obtain ⟨rounds, result, calls, hrun, -⟩ :=
    hclaim (directoryDisk 16) directoryVolume (fun _ => rfl) (.folder folderOfTwo) (fun _ _ => false) fun _ => 0
  have hends := ((clusterCalls_inside_iff (fun _ => rfl) _ _).1 ⟨rounds, result, hrun⟩).2
  have hoff : (scanCalls (fun _ _ => false) []
      (directoryVolume.clusterBlock (directoryDisk 16) folderOfTwo.firstCluster)).1 = .offEnd := by decide +kernel
  exact (ends_iff.1 hends).1 hoff

/-! ## The volumes of `Directory` -/

/-- A block with the first entries of the directory has the directory's calls, if it has an end. -/
theorem Ends.directoryCalls (h : Ends callBackFn calls block all) {i : Nat}
    (hbegins : ∀ j raw, block[j]? = some raw → fi.entryAt disk dir (i + j) = some raw) :
    DirectoryCalls disk fi dir callBackFn i calls all := by
  have hrest : ∀ {de : DirEntry} {block : List DirEntry} {i : Nat},
      (∀ j raw, (de :: block)[j]? = some raw → fi.entryAt disk dir (i + j) = some raw) →
      ∀ j raw, block[j]? = some raw → fi.entryAt disk dir (i + 1 + j) = some raw := by
    intro de block i hbegins j raw hraw
    rw [Nat.add_assoc, Nat.add_comm 1]
    exact hbegins (j + 1) raw hraw
  induction h generalizing i with
  | ended hend => exact .ended (hbegins 0 _ rfl) hend
  | deleted hdeleted _ ih => exact .deleted (hbegins 0 _ rfl) hdeleted (ih (hrest hbegins))
  | stopped hlive hstop => exact .stopped (hbegins 0 _ rfl) hlive hstop
  | called hlive hgoes _ ih => exact .called (hbegins 0 _ rfl) hlive hgoes (ih (hrest hbegins))

theorem Begins.blockSuits_iff
    (hbegins : Begins disk fi dir block) (hfits : filled ≤ byteReadSize) :
    BlockSuits disk fi dir callBackFn filled byteReadSize block ↔ ∃ calls, Ends callBackFn [] block calls := by
  constructor
  · exact fun ⟨_, calls, hends, _⟩ => ⟨calls, hends⟩
  · rintro ⟨calls, hends⟩
    refine ⟨hfits, calls, hends, hends.directoryCalls fun j raw hraw => ?_⟩
    rw [Nat.zero_add]
    exact hbegins j raw hraw

/-- On such a volume it is only asked that the first block has an end. -/
theorem FatVolume.clusterSuits_iff (vol : FatVolume disk fi) {first : Nat} (hleads : Leads disk fi (.chain first)) :
    ClusterSuits disk fi (.chain first) callBackFn first ↔
      ∃ calls, Ends callBackFn [] (fi.folderBlock disk first) calls := by
  have hsize := vol.byteReadSize_eq
  obtain ⟨hreach, hreadable⟩ := vol.directories first hleads
  have hblock : fi.folderBlock disk first = fi.clusterBlock disk first := by
    rw [FATInfo.folderBlock, FATInfo.clusterBlock, hsize]
  have hbegins := begins_chain vol hreach hreadable
  rw [hblock] at hbegins ⊢
  exact hbegins.blockSuits_iff hsize.ge

theorem FatVolume.rootSuits_iff (vol : FatVolume disk fi) (htype : fi.fatType ≠ .fat32)
    (hbegun : fi.rootLBASec < fi.bpb.rootDirEntries) :
    EnumerationSuits disk fi callBackFn .root ↔ ∃ calls, Ends callBackFn [] (fi.rootBlock disk) calls := by
  have hsector := vol.sector
  have hblock : fi.rootBlock disk = fi.sectorBlock disk := by
    rw [FATInfo.rootBlock, FATInfo.sectorBlock, hsector]
  have hbegins := begins_table vol htype hbegun
  rw [hblock] at hbegins ⊢
  rw [EnumerationSuits, if_neg htype, if_pos hbegun]
  exact hbegins.blockSuits_iff hsector.ge

end Fat32
