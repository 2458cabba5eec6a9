import SkyOS.Fat32.FATInfo
import SkyOS.Fat32.SplitPath

/-!
# Directories (`fat32.cpp:338`, `:416`, `:490`)

A directory is a table of 32-byte entries: the root's of FAT12 and FAT16 is a region of its own, any other one lies in
the clusters of a chain. A zero as the first byte of an entry ends the table, 0xE5 is the mark of a deleted file.

The two enumerations read a block (a cluster, a sector of the root) into a buffer of its size and go through it with
`i <= ByteReadSize`: when the block has neither an end mark nor an entry that the callback takes, the last entry they
look at lies behind the buffer, and only then do they go on to the next block.

| here | there |
| --- | --- |
| `scan` | the loop over the entries of a block |
| `Enumeration` | the results 0, 1, 2 of an enumeration, with what it copies to `Result` |
| the `Bool` of an enumeration | nothing outside the buffer has been accessed |
| `entryAt` | the table of a directory, as the FAT specification has it |
| `Finds`, `WalksTo` | the look-up by the exact name, one directory after the other |
-/

namespace Fat32

open Machine Bytes List Nat

/-! ## The source -/

structure DirEntry where
  bytes : List UInt8
deriving DecidableEq

namespace DirEntry

variable (de : DirEntry)

/-- The 8 bytes of `FileName` and the 3 bytes of `Extension` behind it. -/
def fileName : Str := de.bytes.take 11

def first : UInt8 := de.bytes.getD 0 0

/-- `Attribute` has the bit `ATTR_DIRECTORY`. -/
def isDirectory : Bool := de.bytes.getD 11 0 &&& 0x10 != 0

def word (i : Nat) : Nat := (de.bytes.getD i 0).toNat + 256 * (de.bytes.getD (i + 1) 0).toNat

/-- `FirstClusterHigh` and `FirstClusterLow`. -/
def firstCluster : Nat := de.word 20 * 2 ^ 16 + de.word 26

/-- A first character 0xE5 is stored as 0x05 (:470). -/
def restored : DirEntry := if de.first = 0x05 then ⟨de.bytes.set 0 0xE5⟩ else de

end DirEntry

def toUpper (c : UInt8) : UInt8 := if 97 ≤ c ∧ c ≤ 122 then c - 32 else c

/-- `strnicmp` (`string.cpp:327`) gives 0. -/
def strnicmp (string1 string2 : Str) (len : Nat) : Bool :=
  decide (∀ i < len, toUpper (string1.getD i 0) = toUpper (string2.getD i 0))

/-- `strncpy` (`string.cpp:149`), which stays on the final zero. -/
def strncpy (string2 : Str) (count : Nat) : Str :=
  let copied := (string2.takeWhile (· != 0)).take count
  copied ++ List.replicate (count - copied.length) 0

/-- `FindFileInEnumeration` (:338) takes the entry. Nothing has been written to `File[11]`. -/
def findFileInEnumeration (file11 : UInt8) (fileName : Str) (de : DirEntry) : Bool :=
  strnicmp (strncpy de.fileName 11 ++ [file11, 0]) fileName fileName.length

inductive Scan where
  | offEnd
  | ended
  | accepted (de : DirEntry)
deriving DecidableEq

/-- The loop over the entries (:458, :530). -/
def scan (callBackFn : DirEntry → Bool) : List DirEntry → Scan
  | [] => .offEnd
  | de :: entries =>
    if de.first = 0 then .ended
    else if de.first ≠ 0xE5 ∧ callBackFn de.restored = true then .accepted de.restored
    else scan callBackFn entries

/-- The first `n` entries of a buffer. -/
def dirEntries (buffer : Memory) (n : Nat) : List DirEntry := (List.range n).map fun i => ⟨slice buffer (32 * i) 32⟩

/-- The loop with its last round, which is behind a buffer of `byteReadSize` bytes. -/
def scanBuffer (callBackFn : DirEntry → Bool) (byteReadSize : Nat) (buffer : Memory) : Scan × Bool :=
  match scan callBackFn (dirEntries buffer (byteReadSize / 32)) with
  | .offEnd => (scan callBackFn [⟨slice buffer (32 * (byteReadSize / 32)) 32⟩], false)
  | found => (found, true)

def restoreAll (byteReadSize : Nat) (buffer : Memory) : Memory := fun a =>
  if a % 32 = 0 ∧ a ≤ byteReadSize ∧ buffer a = 0x05 then 0xE5 else buffer a

inductive Enumeration where
  | failed
  | completed
  | cancelled (result : DirEntry)
deriving DecidableEq

variable (disk : HardDisk) (fi : FATInfo)

/-- `ByteReadSize` of a cluster, a `UINT16`. -/
def FATInfo.byteReadSize : Nat := fi.bytesPerCluster % 2 ^ 16

/-- The loop of `EnumerateFilesInFolder` over the clusters (:450). -/
def enumerateClusters (callBackFn : DirEntry → Bool) : Nat → Nat → Memory → Option (Enumeration × Bool)
  | 0, _, _ => none
  | rounds + 1, dirCluster, dirData =>
    let (dirData, ok) := disk.readSectors (u32 (fi.partitionBegining + fi.firstSectorOfCluster dirCluster))
      fi.bpb.sectorsPerCluster dirData
    let fits := decide (fi.bpb.sectorsPerCluster * 512 ≤ fi.byteReadSize)
    if ok = false then some (.failed, fits)
    else
      match scanBuffer callBackFn fi.byteReadSize dirData with
      | (.ended, inside) => some (.failed, fits && inside)
      | (.accepted de, inside) => some (.cancelled de, fits && inside)
      | (.offEnd, _) =>
        let (dirData, ok) := disk.readSectors (u32 (fi.partitionBegining + fi.fatSectorNumber dirCluster)) 1
          (restoreAll fi.byteReadSize dirData)
        if ok = false then some (.failed, false)
        else
          let dirCluster := fi.getFATEntry dirCluster dirData
          if fi.isEndOfClusterChain dirCluster ∨ fi.isBadCluster dirCluster then some (.completed, false)
          else (enumerateClusters callBackFn rounds dirCluster dirData).map fun r => (r.1, false)

/-- The loop of `EnumerateFilesInRoot` over the sectors (:525), of which it has `n` before it. -/
def enumerateRootSectors (callBackFn : DirEntry → Bool) : Nat → Nat → Memory → Enumeration × Bool
  | 0, _, _ => (.completed, true)
  | n + 1, lbaSec, rdSector =>
    let (rdSector, ok) := disk.readSectors lbaSec 1 rdSector
    let fits := decide (512 ≤ fi.bpb.bytesPerSector)
    if ok = false then (.failed, fits)
    else
      match scanBuffer callBackFn fi.bpb.bytesPerSector rdSector with
      | (.ended, inside) => (.failed, fits && inside)
      | (.accepted de, inside) => (.cancelled de, fits && inside)
      | (.offEnd, _) =>
        ((enumerateRootSectors callBackFn n (lbaSec + 1) (restoreAll fi.bpb.bytesPerSector rdSector)).1, false)

/-- `RootDirStartSector` (:110), a `UINT16`. -/
def FATInfo.rootDirStartSector : Nat := (fi.bpb.reservedSectors + fi.bpb.numberFATs * fi.bpb.fatSize16) % 2 ^ 16

def FATInfo.rootLBASec : Nat := u32 (fi.partitionBegining + fi.rootDirStartSector)

section Drives

variable (drives : UInt8 → Option FATInfo)

/-- `EnumerateFilesInFolder` (:416). -/
def enumerateFilesInFolder (rounds : Nat) (driveLetter : UInt8) (folderDE : DirEntry) (callBackFn : DirEntry → Bool)
    (dirData : Memory) : Option (Enumeration × Bool) :=
  match drives driveLetter with
  | none => some (.failed, true)
  | some fi => enumerateClusters disk fi callBackFn rounds folderDE.firstCluster dirData

/-- `EnumerateFilesInRoot` (:490). The root of FAT32 is a folder, of whose cluster number the lower half is taken; that
of the others ends before the sector with the number `RootDirEntries`. -/
def enumerateFilesInRoot (rounds : Nat) (driveLetter : UInt8) (callBackFn : DirEntry → Bool) (rdSector : Memory) :
    Option (Enumeration × Bool) :=
  match drives driveLetter with
  | none => some (.failed, true)
  | some fi =>
    if fi.fatType = .fat32 then enumerateClusters disk fi callBackFn rounds (fi.bpb.rootCluster % 2 ^ 16) rdSector
    else some (enumerateRootSectors disk fi callBackFn (fi.bpb.rootDirEntries - fi.rootLBASec) fi.rootLBASec rdSector)

end Drives

/-- The entry, if the result is 2. `none` when something outside the buffer has been accessed. -/
def outcome : Option (Enumeration × Bool) → Option (Option DirEntry)
  | some (.cancelled de, true) => some (some de)
  | some (_, true) => some none
  | _ => none

/-! ## The volume -/

inductive Directory where
  /-- The root of FAT12 and FAT16. -/
  | table
  | chain (first : Nat)

namespace FATInfo

def rootDirectory : Directory := if fi.fatType = .fat32 then .chain fi.bpb.rootCluster else .table

def entryAt : Directory → Nat → Option DirEntry
  | .table, i =>
    if i < fi.bpb.rootDirEntries then
      some ⟨slice disk.bytes (fi.sectorStart (fi.bpb.reservedSectors + fi.bpb.numberFATs * fi.fatSize) + 32 * i) 32⟩
    else none
  | .chain first, i =>
    if ∀ k < 32 * i / fi.bytesPerCluster + 1, fi.Readable (fi.clusterAt disk first k) then
      some ⟨slice disk.bytes
        (fi.clusterStart (fi.clusterAt disk first (32 * i / fi.bytesPerCluster)) + 32 * i % fi.bytesPerCluster) 32⟩
    else none

end FATInfo

/-- The directory has the entry at `i`, not deleted and before the end mark. -/
def Listed (dir : Directory) (i : Nat) (de : DirEntry) : Prop :=
  (∀ j ≤ i, ∃ raw, fi.entryAt disk dir j = some raw ∧ raw.first ≠ 0) ∧
    ∃ raw, fi.entryAt disk dir i = some raw ∧ raw.first ≠ 0xE5 ∧ de = raw.restored

/-- All 11 characters agree, in upper case. -/
def Exact (c : Component) (de : DirEntry) : Prop := de.fileName.map toUpper = c.fullName.map toUpper
  deriving Decidable

def Finds (dir : Directory) (c : Component) (de : DirEntry) : Prop :=
  ∃ i, Listed disk fi dir i de ∧ Exact c de ∧ ∀ j < i, ∀ other, Listed disk fi dir j other → ¬ Exact c other

inductive WalksTo : Directory → List Component → DirEntry → Prop
  | last {dir c de} (h : Finds disk fi dir c de) : WalksTo dir [c] de
  | enter {dir c de cs result} (h : Finds disk fi dir c de) (hdir : de.isDirectory = true)
      (hrest : WalksTo (.chain de.firstCluster) cs result) : WalksTo dir (c :: cs) result

/-- The directories that paths lead to. -/
inductive Leads : Directory → Prop
  | root : Leads fi.rootDirectory
  | enter {dir c de} (h : Leads dir) (hfinds : Finds disk fi dir c de) (hdir : de.isDirectory = true) :
      Leads (.chain de.firstCluster)

/-- A volume of 512-byte sectors with clusters below 64 KiB, which can be read and of which every directory begins
within reach. -/
structure FatVolume : Prop where
  sector : fi.bpb.bytesPerSector = 512
  cluster_pos : 0 < fi.bytesPerCluster
  cluster_lt : fi.bytesPerCluster < 2 ^ 16
  reads : ∀ i, disk.fails i = false
  partition_lt : fi.partitionBegining < 2 ^ 28
  fatSize16 : fi.fatType ≠ .fat32 → fi.bpb.fatSize16 ≠ 0
  rootStart_lt : fi.fatType ≠ .fat32 → fi.bpb.reservedSectors + fi.bpb.numberFATs * fi.bpb.fatSize16 < 2 ^ 16
  rootEntries_lt : fi.bpb.rootDirEntries < 2 ^ 16
  /-- The root fills its sectors. -/
  rootEntries_sectors : fi.bpb.rootDirEntries % 16 = 0
  rootCluster_lt : fi.fatType = .fat32 → fi.bpb.rootCluster < 2 ^ 16
  directories : ∀ first, Leads disk fi (.chain first) → fi.InReach first ∧ fi.Readable first

/-! ## The block that is looked at -/

/-- The entries on the disk from the byte `start` on. -/
def HardDisk.entriesFrom (start n : Nat) : List DirEntry :=
  (List.range n).map fun i => ⟨slice disk.bytes (start + 32 * i) 32⟩

namespace FATInfo

def folderBlock (cluster : Nat) : List DirEntry :=
  disk.entriesFrom (u32 (fi.partitionBegining + fi.firstSectorOfCluster cluster) % 2 ^ 28 * 512) (fi.byteReadSize / 32)

def rootBlock : List DirEntry := disk.entriesFrom (fi.rootLBASec % 2 ^ 28 * 512) (fi.bpb.bytesPerSector / 32)

/-- How the first block of a directory is gone through. The root of FAT12 and FAT16 is not even begun when it starts
at or behind the sector with the number `RootDirEntries`. -/
def scanDirectory (callBackFn : DirEntry → Bool) : Directory → Scan
  | .table => if fi.rootLBASec < fi.bpb.rootDirEntries then scan callBackFn (fi.rootBlock disk) else .ended
  | .chain first => scan callBackFn (fi.folderBlock disk first)

end FATInfo

def Scan.outcome : Scan → Option (Option DirEntry)
  | .offEnd => none
  | .ended => some none
  | .accepted de => some (some de)

/-! ## Names -/

variable {x : UInt8} {c : Component} {de : DirEntry} {i : Nat}

variable {y : UInt8} {start n : Nat}

theorem toUpper_eq (hy : y < 65) (h : toUpper x = y) : x = y := by
  unfold toUpper at h
  split at h
  · rename_i hx
    obtain ⟨hlow, hhigh⟩ := hx
    have hnat := congrArg UInt8.toNat h
    rw [UInt8.toNat_sub_of_le x 32 (UInt8.le_trans (by decide) hlow)] at hnat
    have hlow' : 97 ≤ x.toNat := hlow
    have hy' : y.toNat < 65 := hy
    have h32 : (32 : UInt8).toNat = 32 := rfl
    omega
  · exact h

namespace Component

variable {c : Component}

theorem length_fullName (c : Component) : c.fullName.length = 11 := by
  have hname := c.name_le
  have hext := c.ext_le
  simp [fullName]
  omega

theorem mem_fullName (h : x ∈ c.fullName) : Legal x ∨ x = space := by
  simp only [fullName, mem_append, mem_replicate] at h
  rcases h with (h | h) | (h | h)
  · exact .inl (name_legal h)
  · exact .inr h.2
  · exact .inl (ext_legal h)
  · exact .inr h.2

theorem toUpper_fullName_ne (h : x ∈ c.fullName) (hy : y < 65) (hlegal : ¬ Legal y) (hspace : y ≠ space) :
    toUpper x ≠ y := by
  intro he
  obtain rfl := toUpper_eq hy he
  rcases mem_fullName h with hx | hx
  · exact hlegal hx
  · exact hspace hx

theorem text_prefix (h : c.ext = []) : c.text <+: c.fullName := by
  simp [text, dotExt, fullName, h]

theorem fileText_prefix (c : Component) : c.fileText <+: c.fullName := by
  have hname := c.name_le
  unfold fileText szFile dotExt
  rw [if_neg c.name_ne_nil]
  by_cases hext : c.ext = []
  · have hlen : (c.name ++ List.replicate (9 - c.name.length) space).length ≤ 9 := by simp; omega
    have hfull : c.fullName = c.name ++ List.replicate (9 - c.name.length) space ++ List.replicate 2 space := by
      rw [fullName, hext, nil_append, append_assoc, append_assoc, replicate_append_replicate,
        replicate_append_replicate]
      congr 2
      simp
      omega
    rw [if_pos (if_pos hext), take_of_length_le hlen, hfull]
    exact prefix_append _ _
  · have hpad : List.replicate (9 - c.name.length) space = List.replicate (8 - c.name.length) space ++ [space] := by
      rw [← replicate_one, replicate_append_replicate]
      congr 1
      omega
    have hlen : (c.name ++ List.replicate (8 - c.name.length) space).length = 8 := by simp; omega
    have htake : (c.name ++ List.replicate (9 - c.name.length) space).take 8
        = c.name ++ List.replicate (8 - c.name.length) space := by
      rw [hpad, ← append_assoc]
      exact take_left' hlen
    have hext_le := c.ext_le
    rw [if_neg hext, if_neg (by simp), htake, drop_one, tail_cons, take_of_length_le (by simp; omega),
      fullName, ← append_assoc]
    exact prefix_append _ _

end Component

theorem Exact.length (h : Exact c de) : de.fileName.length = 11 := by
  have hlen := congrArg List.length h
  rwa [length_map, length_map, c.length_fullName] at hlen

theorem Exact.getD (h : Exact c de) (hi : i < 11) :
    toUpper (de.fileName.getD i 0) = toUpper (c.fullName.getD i 0) := by
  have hfile : i < de.fileName.length := by
    rw [h.length]
    exact hi
  have hfull : i < c.fullName.length := by
    rw [c.length_fullName]
    exact hi
  have hget := congrArg (fun l => l[i]?) h
  simpa [hfile, hfull, List.getD] using hget

theorem Exact.copied (h : Exact c de) : strncpy de.fileName 11 = de.fileName := by
  have hnozero : ∀ x ∈ de.fileName, (x != 0) = true := by
    intro x hx
    obtain ⟨i, hi, rfl⟩ := mem_iff_getElem.1 hx
    have hfull : i < c.fullName.length := by
      rw [c.length_fullName, ← h.length]
      exact hi
    have heq := h.getD (i := i) (h.length ▸ hi)
    rw [getD_eq_getElem _ _ hi, getD_eq_getElem _ _ hfull] at heq
    have hne := Component.toUpper_fullName_ne (getElem_mem hfull) (y := 0) (by decide) (by decide) (by decide)
    rw [bne_iff_ne]
    intro hzero
    rw [hzero] at heq
    exact hne heq.symm
  have hall : de.fileName.takeWhile (· != 0) = de.fileName := takeWhile_eq_self_iff.2 hnozero
  simp [strncpy, hall, ← h.length]

theorem Exact.getD_file (h : Exact c de) (file11 : UInt8) (hi : i < 11) :
    (strncpy de.fileName 11 ++ [file11, 0]).getD i 0 = de.fileName.getD i 0 := by
  rw [h.copied, getD_append _ _ _ _ (by rw [h.length]; exact hi)]

theorem found_of_exact {fileName : Str} (h : Exact c de) (file11 : UInt8)
    (hpre : fileName <+: c.fullName) : findFileInEnumeration file11 fileName de = true := by
  obtain ⟨rest, hrest⟩ := hpre
  have hlen := c.length_fullName
  rw [← hrest, length_append] at hlen
  simp only [findFileInEnumeration, strnicmp, decide_eq_true_eq]
  intro i hi
  rw [h.getD_file file11 (by omega), h.getD (by omega), ← hrest, getD_append _ _ _ _ hi]

theorem ext_eq_nil_of_found {file11 : UInt8} (h : Exact c de)
    (hfound : findFileInEnumeration file11 c.text de = true) : c.ext = [] := by
  by_contra hext
  have hname := c.name_le
  have htext : c.text = c.name ++ dot :: c.ext := by simp [Component.text, Component.dotExt, hext]
  simp only [findFileInEnumeration, strnicmp, decide_eq_true_eq] at hfound
  have hdot := hfound c.name.length (by simp [htext])
  have hfull : c.name.length < c.fullName.length := by
    rw [c.length_fullName]
    omega
  rw [h.getD_file file11 (by omega), h.getD (by omega), htext, getD_append_right _ _ _ _ le_rfl,
    Nat.sub_self, getD_cons_zero, getD_eq_getElem _ _ hfull] at hdot
  exact Component.toUpper_fullName_ne (getElem_mem hfull) (by decide) (by decide) (by decide) hdot

/-! ## Scanning a block -/

def Passed (callBackFn : DirEntry → Bool) (raw : DirEntry) : Prop :=
  raw.first ≠ 0 ∧ (raw.first ≠ 0xE5 → callBackFn raw.restored = false)

section Scan

variable {callBackFn : DirEntry → Bool} {entries : List DirEntry}

theorem scan_ended (h : scan callBackFn entries = .ended) :
    ∃ before raw after, entries = before ++ raw :: after ∧ raw.first = 0 ∧ ∀ x ∈ before, Passed callBackFn x := by
  induction entries with
  | nil => simp [scan] at h
  | cons de entries ih =>
    rw [scan] at h
    split at h
    · rename_i hzero
      exact ⟨[], de, entries, rfl, hzero, by simp⟩
    · rename_i hzero
      split at h
      · cases h
      · rename_i htaken
        obtain ⟨before, raw, after, rfl, hend, hpassed⟩ := ih h
        have hfirst : Passed callBackFn de := ⟨hzero, fun hlive => Bool.eq_false_iff.2 fun ht => htaken ⟨hlive, ht⟩⟩
        exact ⟨de :: before, raw, after, rfl, hend, forall_mem_cons.2 ⟨hfirst, hpassed⟩⟩

theorem scan_accepted (h : scan callBackFn entries = .accepted de) :
    ∃ before raw after, entries = before ++ raw :: after ∧ raw.first ≠ 0 ∧ raw.first ≠ 0xE5 ∧ de = raw.restored ∧
      callBackFn de = true ∧ ∀ x ∈ before, Passed callBackFn x := by
  induction entries with
  | nil => simp [scan] at h
  | cons first entries ih =>
    rw [scan] at h
    split at h
    · cases h
    · rename_i hzero
      split at h
      · rename_i htaken
        cases h
        exact ⟨[], first, entries, rfl, hzero, htaken.1, rfl, htaken.2, by simp⟩
      · rename_i htaken
        obtain ⟨before, raw, after, rfl, hnonzero, hlive, hde, htrue, hpassed⟩ := ih h
        have hfirst : Passed callBackFn first := ⟨hzero, fun hlive => Bool.eq_false_iff.2 fun ht => htaken ⟨hlive, ht⟩⟩
        exact ⟨first :: before, raw, after, rfl, hnonzero, hlive, hde, htrue, forall_mem_cons.2 ⟨hfirst, hpassed⟩⟩

end Scan

/-! ## The enumerations -/

section Enumerations

variable {disk : HardDisk} {fi : FATInfo}

theorem dirEntries_copy (heap : Memory) {len : Nat} (h : 32 * n ≤ len) :
    dirEntries (copy heap 0 disk.bytes start len) n = disk.entriesFrom start n := by
  refine map_congr_left fun i hi => ?_
  rw [mem_range] at hi
  rw [slice_copy_inside heap disk.bytes start (zero_le _) (by omega), Nat.sub_zero]

theorem outcome_outside (e : Enumeration) : outcome (some (e, false)) = none := by
  cases e <;> rfl

theorem outcome_map_outside (x : Option (Enumeration × Bool)) : outcome (x.map fun r => (r.1, false)) = none := by
  cases x with
  | none => rfl
  | some r => exact outcome_outside r.1

theorem FatVolume.byteReadSize_eq (vol : FatVolume disk fi) : fi.byteReadSize = fi.bpb.sectorsPerCluster * 512 := by
  have hlt := vol.cluster_lt
  rw [FATInfo.byteReadSize, mod_eq_of_lt hlt, FATInfo.bytesPerCluster, vol.sector]

theorem enumerateClusters_outcome (vol : FatVolume disk fi) (callBackFn : DirEntry → Bool) (rounds cluster : Nat)
    (heap : Memory) :
    outcome (enumerateClusters disk fi callBackFn (rounds + 1) cluster heap)
      = (fi.scanDirectory disk callBackFn (.chain cluster)).outcome := by
  have hsize := vol.byteReadSize_eq
  have hblock : dirEntries (copy heap 0 disk.bytes
      (u32 (fi.partitionBegining + fi.firstSectorOfCluster cluster) % 2 ^ 28 * 512) (fi.bpb.sectorsPerCluster * 512))
      (fi.byteReadSize / 32) = fi.folderBlock disk cluster := dirEntries_copy heap (by omega)
  have hfits : decide (fi.bpb.sectorsPerCluster * 512 ≤ fi.byteReadSize) = true := by
    rw [decide_eq_true_eq, hsize]
  rw [enumerateClusters, HardDisk.readSectors_ok vol.reads]
  dsimp only
  rw [hfits, if_neg (by simp), scanBuffer, hblock, FATInfo.scanDirectory]
  cases scan callBackFn (fi.folderBlock disk cluster) with
  | ended => rfl
  | accepted de => rfl
  | offEnd =>
    -- the entry behind the buffer has been looked at, whatever comes then
    generalize scan callBackFn [_] = behind
    cases behind with
    | ended => rfl
    | accepted de => rfl
    | offEnd =>
      dsimp only
      rw [HardDisk.readSectors_ok vol.reads]
      rw [if_neg (by simp)]
      split
      · rfl
      · exact outcome_map_outside _

theorem enumerateRootSectors_outcome (vol : FatVolume disk fi) (callBackFn : DirEntry → Bool) (n lbaSec : Nat)
    (heap : Memory) :
    outcome (some (enumerateRootSectors disk fi callBackFn (n + 1) lbaSec heap))
      = (scan callBackFn (disk.entriesFrom (lbaSec % 2 ^ 28 * 512) (fi.bpb.bytesPerSector / 32))).outcome := by
  have hsector := vol.sector
  have hblock : dirEntries (copy heap 0 disk.bytes (lbaSec % 2 ^ 28 * 512) (1 * 512)) (fi.bpb.bytesPerSector / 32)
      = disk.entriesFrom (lbaSec % 2 ^ 28 * 512) (fi.bpb.bytesPerSector / 32) := dirEntries_copy heap (by omega)
  have hfits : decide (512 ≤ fi.bpb.bytesPerSector) = true := by
    rw [decide_eq_true_eq, hsector]
  rw [enumerateRootSectors, HardDisk.readSectors_ok vol.reads]
  dsimp only
  rw [hfits, if_neg (by simp), scanBuffer, hblock]
  cases scan callBackFn (disk.entriesFrom (lbaSec % 2 ^ 28 * 512) (fi.bpb.bytesPerSector / 32)) with
  | ended => rfl
  | accepted de => rfl
  | offEnd =>
    generalize scan callBackFn [_] = behind
    cases behind with
    | ended => rfl
    | accepted de => rfl
    | offEnd => exact outcome_outside _

/-- **The root** is looked through as its first block is, or not at all. -/
theorem enumerateFilesInRoot_outcome (vol : FatVolume disk fi) {drives : UInt8 → Option FATInfo} {driveLetter : UInt8}
    (hdrive : drives driveLetter = some fi) (callBackFn : DirEntry → Bool) (rounds : Nat) (heap : Memory) :
    outcome (enumerateFilesInRoot disk drives (rounds + 1) driveLetter callBackFn heap)
      = (fi.scanDirectory disk callBackFn fi.rootDirectory).outcome := by
  rw [enumerateFilesInRoot, hdrive]
  dsimp only
  by_cases htype : fi.fatType = .fat32
  · rw [if_pos htype, enumerateClusters_outcome vol, mod_eq_of_lt (vol.rootCluster_lt htype), FATInfo.rootDirectory,
      if_pos htype]
  · rw [if_neg htype, FATInfo.rootDirectory, if_neg htype, FATInfo.scanDirectory]
    by_cases hbegun : fi.rootLBASec < fi.bpb.rootDirEntries
    · obtain ⟨n, hn⟩ : ∃ n, fi.bpb.rootDirEntries - fi.rootLBASec = n + 1 :=
        ⟨fi.bpb.rootDirEntries - fi.rootLBASec - 1, by omega⟩
      rw [if_pos hbegun, hn, enumerateRootSectors_outcome vol]
      rfl
    · rw [if_neg hbegun, Nat.sub_eq_zero_of_le (by omega)]
      rfl

end Enumerations

/-! ## What a scan says about the directory -/

def Begins (dir : Directory) (block : List DirEntry) : Prop :=
  ∀ i raw, block[i]? = some raw → fi.entryAt disk dir i = some raw

section Listing

variable {disk : HardDisk} {fi : FATInfo} {dir : Directory} {c : Component} {de : DirEntry}

variable {raw other result : DirEntry} {block : List DirEntry}

theorem entriesFrom_some (h : (disk.entriesFrom start n)[i]? = some raw) :
    i < n ∧ raw = ⟨slice disk.bytes (start + 32 * i) 32⟩ := by
  obtain ⟨hlt, hget⟩ := List.getElem?_eq_some_iff.1 h
  rw [HardDisk.entriesFrom, length_map, length_range] at hlt
  refine ⟨hlt, ?_⟩
  rw [← hget]
  simp [HardDisk.entriesFrom]

theorem begins_chain (vol : FatVolume disk fi) {first : Nat} (hreach : fi.InReach first) (hreadable : fi.Readable first) :
    Begins disk fi (.chain first) (fi.folderBlock disk first) := by
  intro i raw h
  obtain ⟨hlt, rfl⟩ := entriesFrom_some h
  have hsize := vol.byteReadSize_eq
  have hcluster : fi.bytesPerCluster = fi.bpb.sectorsPerCluster * 512 := by
    rw [FATInfo.bytesPerCluster, vol.sector]
  have hdiv : 32 * i / fi.bytesPerCluster = 0 := div_eq_of_lt (by omega)
  have hmod : 32 * i % fi.bytesPerCluster = 32 * i := mod_eq_of_lt (by omega)
  have hdata := hreach.data
  have hstart : u32 (fi.partitionBegining + fi.firstSectorOfCluster first) % 2 ^ 28 * 512 = fi.clusterStart first := by
    rw [hreach.firstSector, u32_of_lt (by omega), mod_eq_of_lt (by omega), FATInfo.clusterStart,
      FATInfo.sectorStart, vol.sector]
    omega
  have hall : ∀ k < 0 + 1, fi.Readable (fi.clusterAt disk first k) := by
    intro k hk
    obtain rfl : k = 0 := by omega
    exact hreadable
  rw [FATInfo.entryAt, hdiv, hmod, if_pos hall, hstart]
  rfl

theorem begins_table (vol : FatVolume disk fi) (htype : fi.fatType ≠ .fat32)
    (hbegun : fi.rootLBASec < fi.bpb.rootDirEntries) : Begins disk fi .table (fi.rootBlock disk) := by
  intro i raw h
  obtain ⟨hlt, rfl⟩ := entriesFrom_some h
  have hsector := vol.sector
  have hentries := vol.rootEntries_sectors
  have hentries_lt := vol.rootEntries_lt
  have hpartition := vol.partition_lt
  have hstart_lt := vol.rootStart_lt htype
  have hsize : fi.fatSize = fi.bpb.fatSize16 := if_pos (vol.fatSize16 htype)
  have hlba : fi.rootLBASec = fi.partitionBegining + (fi.bpb.reservedSectors + fi.bpb.numberFATs * fi.bpb.fatSize16) := by
    rw [FATInfo.rootLBASec, FATInfo.rootDirStartSector, mod_eq_of_lt hstart_lt, u32_of_lt (by omega)]
  have hstart : fi.rootLBASec % 2 ^ 28 * 512
      = fi.sectorStart (fi.bpb.reservedSectors + fi.bpb.numberFATs * fi.fatSize) := by
    rw [mod_eq_of_lt (by omega), hlba, FATInfo.sectorStart, hsector, hsize]
    omega
  rw [FATInfo.entryAt, if_pos (by omega), hstart]

variable {callBackFn : DirEntry → Bool}

theorem begins_of_leads (vol : FatVolume disk fi) (hleads : Leads disk fi dir)
    (h : fi.scanDirectory disk callBackFn dir = .accepted de) :
    ∃ block, Begins disk fi dir block ∧ scan callBackFn block = .accepted de := by
  have hchain (first : Nat) (hleads : Leads disk fi (.chain first))
      (h : fi.scanDirectory disk callBackFn (.chain first) = .accepted de) :
      ∃ block, Begins disk fi (.chain first) block ∧ scan callBackFn block = .accepted de := by
    obtain ⟨hreach, hreadable⟩ := vol.directories first hleads
    exact ⟨_, begins_chain vol hreach hreadable, h⟩
  cases hleads with
  | enter hleads hfinds hdir => exact hchain _ (.enter hleads hfinds hdir) h
  | root =>
    by_cases htype : fi.fatType = .fat32
    · have hroot : fi.rootDirectory = .chain fi.bpb.rootCluster := if_pos htype
      have hleads : Leads disk fi fi.rootDirectory := .root
      rw [hroot] at h hleads ⊢
      exact hchain _ hleads h
    · have hroot : fi.rootDirectory = .table := if_neg htype
      rw [hroot] at h ⊢
      rw [FATInfo.scanDirectory] at h
      split at h
      · rename_i hbegun
        exact ⟨_, begins_table vol htype hbegun, h⟩
      · cases h

theorem Passed.not_taken (h : Passed callBackFn raw)
    (hraw : fi.entryAt disk dir i = some raw) (hother : Listed disk fi dir i other) : callBackFn other = false := by
  obtain ⟨_, raw', hraw', hlive, rfl⟩ := hother
  rw [hraw] at hraw'
  cases hraw'
  exact h.2 hlive

theorem listed_of_accepted (hbegins : Begins disk fi dir block)
    (h : scan callBackFn block = .accepted de) :
    ∃ i, Listed disk fi dir i de ∧ ∀ j < i, ∀ other, Listed disk fi dir j other → callBackFn other = false := by
  obtain ⟨before, raw, after, rfl, hzero, hlive, rfl, _, hpassed⟩ := scan_accepted h
  have hat : fi.entryAt disk dir before.length = some raw := hbegins _ _ (by simp)
  have hbefore (j : Nat) (hj : j < before.length) : fi.entryAt disk dir j = some before[j] :=
    hbegins _ _ (by rw [List.getElem?_append_left hj, List.getElem?_eq_getElem hj])
  refine ⟨before.length, ⟨fun j hj => ?_, raw, hat, hlive, rfl⟩, fun j hj other hother => ?_⟩
  · rcases Nat.lt_or_eq_of_le hj with hj | rfl
    · exact ⟨_, hbefore j hj, (hpassed _ (getElem_mem hj)).1⟩
    · exact ⟨_, hat, hzero⟩
  · exact (hpassed _ (getElem_mem hj)).not_taken (hbefore j hj) hother

/-- A scan that comes to the end mark has seen everything that is listed. -/
theorem not_taken_of_ended (hbegins : Begins disk fi dir block)
    (h : scan callBackFn block = .ended) (hother : Listed disk fi dir i other) :
    callBackFn other = false := by
  obtain ⟨before, raw, after, rfl, hzero, hpassed⟩ := scan_ended h
  have hat : fi.entryAt disk dir before.length = some raw := hbegins _ _ (by simp)
  have hi : i < before.length := by
    by_contra hge
    obtain ⟨raw', hraw', hnonzero⟩ := hother.1 before.length (by omega)
    rw [hat] at hraw'
    cases hraw'
    exact hnonzero hzero
  have hbefore : fi.entryAt disk dir i = some before[i] :=
    hbegins _ _ (by rw [List.getElem?_append_left hi, List.getElem?_eq_getElem hi])
  exact (hpassed _ (getElem_mem hi)).not_taken hbefore hother

/-! ## The walk -/

theorem Finds.unique {de' : DirEntry} (h : Finds disk fi dir c de) (h' : Finds disk fi dir c de') : de = de' := by
  obtain ⟨i, hi, hexact, hfirst⟩ := h
  obtain ⟨i', hi', hexact', hfirst'⟩ := h'
  rcases Nat.lt_trichotomy i i' with hlt | rfl | hlt
  · exact absurd hexact (hfirst' i hlt de hi)
  · obtain ⟨_, raw, hraw, _, rfl⟩ := hi
    obtain ⟨_, raw', hraw', _, rfl⟩ := hi'
    rw [hraw] at hraw'
    cases hraw'
    rfl
  · exact absurd hexact' (hfirst i' hlt de' hi')

theorem walksTo_single : WalksTo disk fi dir [c] result ↔ Finds disk fi dir c result := by
  constructor
  · intro h
    cases h with
    | last h => exact h
    | enter _ _ hrest => cases hrest
  · exact .last

theorem walksTo_of_finds {c' : Component} {cs : List Component} (h : Finds disk fi dir c de) :
    WalksTo disk fi dir (c :: c' :: cs) result ↔
      de.isDirectory = true ∧ WalksTo disk fi (.chain de.firstCluster) (c' :: cs) result := by
  constructor
  · intro hwalks
    cases hwalks with
    | enter hfinds hdir hrest =>
      obtain rfl := hfinds.unique h
      exact ⟨hdir, hrest⟩
  · rintro ⟨hdir, hrest⟩
    exact .enter h hdir hrest

/-- **An exact match** is what the walk finds, if the callback takes everything that has the name. -/
theorem finds_of_accepted (vol : FatVolume disk fi) (hleads : Leads disk fi dir)
    (h : fi.scanDirectory disk callBackFn dir = .accepted de) (hexact : Exact c de)
    (htakes : ∀ other, Exact c other → callBackFn other = true) : Finds disk fi dir c de := by
  obtain ⟨block, hbegins, hscan⟩ := begins_of_leads vol hleads h
  obtain ⟨i, hlisted, hfirst⟩ := listed_of_accepted hbegins hscan
  refine ⟨i, hlisted, hexact, fun j hj other hother hother_exact => ?_⟩
  have hfalse := hfirst j hj other hother
  rw [htakes other hother_exact] at hfalse
  cases hfalse

end Listing

end Fat32
