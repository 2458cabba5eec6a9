import SkyOS.Fat32.FATInfo
import SkyOS.Lib.StepSystem

/-!
# Reading a file (`fat32.cpp:643`)

An open file has a buffer of one cluster, of which `BufferOffset` bytes have been delivered, and the number of the next
cluster. `BufferIsValid` is also true of a buffer that has been delivered to its end, and false at the end of the file.

| here | there |
| --- | --- |
| `FATOpenFileInfo` | the open file, which the handle stands for |
| `fileByte` | the bytes of the file, in the order of its chain |
| `At t` | what the open file is like after `t` bytes |
| the three results of `fatReadFile` | the open file, the bytes copied to `Buffer`, the number returned |
| `none` | an entry outside `SectorBuffer`, or a loop that goes on for more than `SizeInBytes` rounds |
-/

namespace Fat32

open Machine Bytes Nat

/-! ## The source -/

structure FATOpenFileInfo where
  sectorBuffer : Memory
  bufferedFATSector : Nat
  buffer : Memory
  bufferOffset : Nat
  bufferIsValid : Bool
  fileSize : Nat
  totalBytesPassed : Nat
  currentCluster : Nat

/-- `FATFileOpen` (:551); the two buffers are not initialised. -/
def fatFileOpen (sectorBuffer buffer : Memory) (firstCluster fileSize : Nat) : FATOpenFileInfo where
  sectorBuffer := sectorBuffer
  bufferedFATSector := 0
  buffer := buffer
  bufferOffset := 0
  bufferIsValid := false
  fileSize := fileSize
  totalBytesPassed := 0
  currentCluster := firstCluster

/-- The size of `SectorBuffer`. -/
def kSectorBufferSize : Nat := 1024

variable (disk : HardDisk) (fi : FATInfo)

/-- The entry of the cluster that has been read (:663). -/
def nextCluster (file : FATOpenFileInfo) : Option (FATOpenFileInfo × Bool) :=
  let fatSector := u32 (fi.partitionBegining + fi.fatSectorNumber file.currentCluster)
  let (sectorBuffer, ok) :=
    if file.bufferedFATSector ≠ fatSector then disk.readSectors fatSector 2 file.sectorBuffer
    else (file.sectorBuffer, true)
  if ok = false then some ({ file with sectorBuffer }, false)
  else if fi.fatSectorOffset file.currentCluster + fi.entryWidth > kSectorBufferSize then none
  else
    some ({ file with
      sectorBuffer
      bufferedFATSector := fatSector
      currentCluster := fi.getFATEntry file.currentCluster sectorBuffer
      bufferOffset := 0
      bufferIsValid := true }, true)

/-- `FATReadFileCluster` (:643). -/
def fatReadFileCluster (file : FATOpenFileInfo) : Option (FATOpenFileInfo × Bool) :=
  if file.currentCluster = 0 ∨ fi.isBadCluster file.currentCluster then some (file, false)
  else if fi.isEndOfClusterChain file.currentCluster = false then
    let (buffer, ok) := disk.readSectors (u32 (fi.partitionBegining + fi.firstSectorOfCluster file.currentCluster))
      fi.bpb.sectorsPerCluster file.buffer
    if ok then nextCluster disk fi { file with buffer } else some ({ file with buffer }, false)
  else some (file, false)

/-- `BufferSize` of `FATReadFile`. -/
def FATInfo.bufferSize : Nat := fi.bytesPerCluster % 2 ^ 16

/-- So many of the bytes are still in the file (:705). -/
def FATOpenFileInfo.clamp (file : FATOpenFileInfo) (bufferBytes : Nat) : Nat :=
  if u32 (file.totalBytesPassed + bufferBytes) > file.fileSize then sub32 file.fileSize file.totalBytesPassed
  else bufferBytes

/-- `bytes` more have been delivered. -/
def FATOpenFileInfo.pass (file : FATOpenFileInfo) (bytes : Nat) : FATOpenFileInfo :=
  { file with
    totalBytesPassed := u32 (file.totalBytesPassed + bytes)
    bufferOffset := (file.bufferOffset + bytes) % 2 ^ 16 }

/-- The loop of `FATReadFile` (:714). -/
def readLoop : Nat → FATOpenFileInfo → Nat → Nat → List UInt8 → Option (FATOpenFileInfo × List UInt8 × Nat)
  | 0, file, sizeInBytes, totReadBytes, bytes =>
    if totReadBytes < sizeInBytes then none else some (file, bytes, totReadBytes)
  | rounds + 1, file, sizeInBytes, totReadBytes, bytes =>
    if totReadBytes < sizeInBytes then
      match fatReadFileCluster disk fi file with
      | none => none
      | some (file, false) => some (file, bytes, totReadBytes)
      | some (file, true) =>
        let bufferBytes :=
          if u32 (totReadBytes + fi.bufferSize) > sizeInBytes then sub32 sizeInBytes totReadBytes else fi.bufferSize
        if u32 (file.totalBytesPassed + bufferBytes) > file.fileSize then
          let rest := sub32 file.fileSize file.totalBytesPassed
          readLoop rounds { file.pass rest with bufferIsValid := false } rest (u32 (totReadBytes + rest))
            (bytes ++ slice file.buffer 0 rest)
        else
          readLoop rounds (file.pass bufferBytes) sizeInBytes (u32 (totReadBytes + bufferBytes))
            (bytes ++ slice file.buffer 0 bufferBytes)
    else some (file, bytes, totReadBytes)

/-- What is delivered from the buffer (:700). -/
def fromBuffer (file : FATOpenFileInfo) (sizeInBytes : Nat) : FATOpenFileInfo × List UInt8 × Nat :=
  if file.bufferIsValid then
    let rest := sub32 fi.bufferSize file.bufferOffset
    let bytes := file.clamp (if rest ≥ sizeInBytes then sizeInBytes else rest)
    let passed := file.pass bytes
    ({ passed with bufferIsValid := decide (passed.bufferOffset < fi.bufferSize) },
      slice file.buffer file.bufferOffset bytes, bytes)
  else (file, [], 0)

/-- `FATReadFile` (:680). -/
def fatReadFile (file : FATOpenFileInfo) (sizeInBytes : Nat) : Option (FATOpenFileInfo × List UInt8 × Nat) :=
  let (file, bytes, totReadBytes) := fromBuffer fi file sizeInBytes
  (readLoop disk fi sizeInBytes file sizeInBytes totReadBytes bytes).map fun (file, bytes, totReadBytes) =>
    (file, bytes, totReadBytes % 2 ^ 16)

/-! ## The file -/

/-- The `i`-th byte of the file whose chain begins at `first`. -/
def fileByte (first i : Nat) : UInt8 :=
  disk.bytes (fi.clusterStart (fi.clusterAt disk first (i / fi.bytesPerCluster)) + i % fi.bytesPerCluster)

/-- `n` bytes of the file from byte `t` on. -/
def bytesFrom (first t n : Nat) : List UInt8 := (List.range' t n).map (fileByte disk fi first)

/-- A file of a volume with 512 bytes per sector: the chain has a readable cluster for each byte. -/
structure FatFile (first fileSize : Nat) : Prop where
  sector : fi.bpb.bytesPerSector = 512
  cluster_pos : 0 < fi.bytesPerCluster
  cluster_lt : fi.bytesPerCluster < 2 ^ 16
  reserved_pos : 0 < fi.bpb.reservedSectors
  size_lt : fileSize < 2 ^ 32
  chain : ∀ k, k * fi.bytesPerCluster < fileSize →
    fi.Readable (fi.clusterAt disk first k) ∧ fi.InReach (fi.clusterAt disk first k)
  ok : ∀ i, disk.fails i = false

def EndsWithChain (first fileSize : Nat) : Prop :=
  fileSize % fi.bytesPerCluster = 0 ∧ ¬ fi.Readable (fi.clusterAt disk first (fileSize / fi.bytesPerCluster))
  deriving Decidable

/-- The sum of the bytes passed and those of a request does not reach `2^32` at the end of the file. -/
def NoWrap (first fileSize t n : Nat) : Prop :=
  t + n < 2 ^ 32 ∨ fileSize + fi.bytesPerCluster < 2 ^ 32 ∨ EndsWithChain disk fi first fileSize
  deriving Decidable

variable {disk fi} {first fileSize : Nat}

theorem bytesFrom_add (t n k : Nat) :
    bytesFrom disk fi first t (n + k) = bytesFrom disk fi first t n ++ bytesFrom disk fi first (t + n) k := by
  unfold bytesFrom
  rw [← List.map_append, List.range'_append_1]

@[simp] theorem length_bytesFrom (t n : Nat) : (bytesFrom disk fi first t n).length = n := by
  simp [bytesFrom]

variable {k t n size tot : Nat} {file : FATOpenFileInfo}

variable {off b : Nat}

theorem slice_eq_bytesFrom {buffer : Memory} (hpos : 0 < fi.bytesPerCluster)
    (hbuffer : ∀ j < fi.bytesPerCluster, buffer j = disk.bytes (fi.clusterStart (fi.clusterAt disk first k) + j))
    (ht : t = k * fi.bytesPerCluster + off) (hn : off + n ≤ fi.bytesPerCluster) :
    slice buffer off n = bytesFrom disk fi first t n := by
  induction n generalizing t off with
  | zero => rfl
  | succ n ih =>
    have hdiv : t / fi.bytesPerCluster = k := by
      rw [ht, Nat.mul_comm, mul_add_div hpos, div_eq_of_lt (by omega), Nat.add_zero]
    have hmod : t % fi.bytesPerCluster = off := by
      rw [ht, Nat.mul_comm, mul_add_mod, mod_eq_of_lt (by omega)]
    have hhead : fileByte disk fi first t = buffer off := by
      rw [fileByte, hdiv, hmod, hbuffer off (by omega)]
    have htail : slice buffer (off + 1) n = bytesFrom disk fi first (t + 1) n := ih (by omega) (by omega)
    rw [slice, htail]
    simp [bytesFrom, List.range'_succ, hhead]

/-! ## Reading a cluster -/

/-- `SectorBuffer` holds the two sectors that begin at `BufferedFATSector`. -/
def Cached (disk : HardDisk) (file : FATOpenFileInfo) : Prop :=
  file.bufferedFATSector = 0 ∨
    ∀ j < kSectorBufferSize, file.sectorBuffer j = disk.bytes (file.bufferedFATSector * 512 + j)

theorem FATInfo.entry_fits (fi : FATInfo) (hsector : fi.bpb.bytesPerSector = 512) (c : Nat) :
    fi.fatSectorOffset c + fi.entryWidth ≤ kSectorBufferSize := by
  have hoff : fi.fatSectorOffset c < 512 := by
    unfold FATInfo.fatSectorOffset
    rw [hsector]
    exact mod_lt _ (by decide)
  have hwidth : fi.entryWidth ≤ 4 := by
    unfold FATInfo.entryWidth
    split <;> decide
  unfold kSectorBufferSize
  omega

namespace FatFile

variable (h : FatFile disk fi first fileSize)
include h

theorem bufferSize_eq : fi.bufferSize = fi.bytesPerCluster := mod_eq_of_lt h.cluster_lt

theorem entry_fits (c : Nat) : fi.fatSectorOffset c + fi.entryWidth ≤ kSectorBufferSize :=
  fi.entry_fits h.sector c

theorem fatReadFileCluster_cases (file : FATOpenFileInfo) :
    (fatReadFileCluster disk fi file = some (file, false) ∧ ¬ fi.Readable file.currentCluster) ∨
    ∃ file', fatReadFileCluster disk fi file = some (file', true) ∧ fi.Readable file.currentCluster ∧
      file'.bufferOffset = 0 ∧ file'.bufferIsValid = true ∧ file'.fileSize = file.fileSize ∧
      file'.totalBytesPassed = file.totalBytesPassed := by
  by_cases hread : fi.Readable file.currentCluster
  · obtain ⟨hzero, hbad, hend⟩ := hread
    refine .inr ?_
    have hfits := h.entry_fits file.currentCluster
    unfold fatReadFileCluster nextCluster
    simp only [hzero, hbad, hend, HardDisk.readSectors_ok h.ok, Bool.false_eq_true, or_self, if_false, if_true]
    split
    · simp only [Bool.true_eq_false, if_false, if_neg (Nat.not_lt.2 hfits)]
      exact ⟨_, rfl, ⟨hzero, hbad, hend⟩, rfl, rfl, rfl, rfl⟩
    · simp only [Bool.true_eq_false, if_false, if_neg (Nat.not_lt.2 hfits)]
      exact ⟨_, rfl, ⟨hzero, hbad, hend⟩, rfl, rfl, rfl, rfl⟩
  · refine .inl ⟨?_, hread⟩
    unfold fatReadFileCluster
    by_cases hguard : file.currentCluster = 0 ∨ fi.isBadCluster file.currentCluster
    · rw [if_pos hguard]
    · rw [if_neg hguard, if_neg]
      intro hend
      obtain ⟨hzero, hbad⟩ := not_or.1 hguard
      exact hread ⟨hzero, by simpa using hbad, hend⟩

variable {c : Nat}

theorem readCluster (hreach : fi.InReach c) (buffer : Memory) :
    ∃ buffer', disk.readSectors (u32 (fi.partitionBegining + fi.firstSectorOfCluster c)) fi.bpb.sectorsPerCluster buffer
      = (buffer', true) ∧ ∀ j < fi.bytesPerCluster, buffer' j = disk.bytes (fi.clusterStart c + j) := by
  have hpos := h.cluster_pos
  have hfirst := hreach.firstSector
  obtain ⟨_, hdata, _⟩ := hreach
  unfold FATInfo.bytesPerCluster at hpos
  rw [h.sector] at hpos
  have hlba : u32 (fi.partitionBegining + fi.firstSectorOfCluster c) % 2 ^ 28
      = fi.partitionBegining + (fi.dataStart + (c - 2) * fi.bpb.sectorsPerCluster) := by
    rw [hfirst, u32_of_lt (by omega), mod_eq_of_lt (by omega)]
  have hsectors := HardDisk.readSectors_ok h.ok (u32 (fi.partitionBegining + fi.firstSectorOfCluster c))
    fi.bpb.sectorsPerCluster buffer
  rw [hlba] at hsectors
  refine ⟨_, hsectors, ?_⟩
  intro j hj
  unfold FATInfo.bytesPerCluster at hj
  rw [h.sector] at hj
  rw [copy_inside _ _ _ (zero_le j) (by omega)]
  refine congrArg disk.bytes ?_
  unfold FATInfo.clusterStart FATInfo.sectorStart
  rw [h.sector]
  omega

theorem readTable (hreach : fi.InReach c) (hcached : Cached disk file) :
    ∃ sectorBuffer,
      (if file.bufferedFATSector ≠ u32 (fi.partitionBegining + fi.fatSectorNumber c) then
        disk.readSectors (u32 (fi.partitionBegining + fi.fatSectorNumber c)) 2 file.sectorBuffer
      else (file.sectorBuffer, true)) = (sectorBuffer, true) ∧
      (∀ j < kSectorBufferSize,
        sectorBuffer j = disk.bytes (u32 (fi.partitionBegining + fi.fatSectorNumber c) * 512 + j)) ∧
      fi.getFATEntry c sectorBuffer = fi.entry disk c := by
  have hres := h.reserved_pos
  have htable := hreach.table
  have hnumber : u32 (fi.partitionBegining + fi.fatSectorNumber c)
      = fi.partitionBegining + fi.bpb.reservedSectors + fi.fatOffset c / 512 := by
    unfold FATInfo.fatSectorNumber
    rw [h.sector, u32_of_lt (x := fi.bpb.reservedSectors + fi.fatOffset c / 512) (by omega), u32_of_lt (by omega)]
    omega
  have hentry : ∀ sectorBuffer : Memory, (∀ j < kSectorBufferSize, sectorBuffer j
      = disk.bytes (u32 (fi.partitionBegining + fi.fatSectorNumber c) * 512 + j)) →
      fi.getFATEntry c sectorBuffer = fi.entry disk c := by
    intro sectorBuffer hsectors
    have hfits := h.entry_fits c
    have hoff : fi.fatSectorOffset c = fi.fatOffset c % 512 := by
      unfold FATInfo.fatSectorOffset
      rw [h.sector]
    unfold FATInfo.getFATEntry FATInfo.entry
    congr 1
    refine readLE_shift fun j hj => ?_
    have hsmall : fi.fatSectorOffset c % 2 ^ 16 = fi.fatSectorOffset c := by
      rw [hoff]
      omega
    rw [hsmall, hsectors _ (by omega), hnumber, hoff]
    refine congrArg disk.bytes ?_
    unfold FATInfo.sectorStart
    rw [h.sector]
    omega
  by_cases hsame : file.bufferedFATSector = u32 (fi.partitionBegining + fi.fatSectorNumber c)
  · rw [if_neg (not_not.2 hsame)]
    rcases hcached with hzero | hsectors
    · rw [hsame, hnumber] at hzero
      omega
    · rw [hsame] at hsectors
      exact ⟨_, rfl, hsectors, hentry _ hsectors⟩
  · rw [if_pos hsame]
    have hsectors : ∀ j < kSectorBufferSize,
        copy file.sectorBuffer 0 disk.bytes (u32 (fi.partitionBegining + fi.fatSectorNumber c) % 2 ^ 28 * 512) (2 * 512) j
          = disk.bytes (u32 (fi.partitionBegining + fi.fatSectorNumber c) * 512 + j) := by
      intro j hj
      unfold kSectorBufferSize at hj
      rw [copy_inside _ _ _ (zero_le j) (by omega), mod_eq_of_lt (by omega), Nat.sub_zero]
    exact ⟨_, HardDisk.readSectors_ok h.ok _ _ file.sectorBuffer, hsectors, hentry _ hsectors⟩

theorem fatReadFileCluster_spec (hcached : Cached disk file)
    (hread : fi.Readable file.currentCluster) (hreach : fi.InReach file.currentCluster) :
    ∃ file', fatReadFileCluster disk fi file = some (file', true) ∧ Cached disk file' ∧
      (∀ j < fi.bytesPerCluster, file'.buffer j = disk.bytes (fi.clusterStart file.currentCluster + j)) ∧
      file'.currentCluster = fi.entry disk file.currentCluster ∧ file'.bufferOffset = 0 ∧
      file'.bufferIsValid = true ∧ file'.fileSize = file.fileSize ∧
      file'.totalBytesPassed = file.totalBytesPassed := by
  obtain ⟨hzero, hbad, hend⟩ := hread
  have hfits := h.entry_fits file.currentCluster
  obtain ⟨buffer, hbuffer, hbytes⟩ := h.readCluster hreach file.buffer
  have hcached' : Cached disk { file with buffer } := hcached
  obtain ⟨sectorBuffer, htable, hsectors, hentry⟩ := h.readTable hreach hcached'
  refine ⟨{ file with
    buffer
    sectorBuffer
    bufferedFATSector := u32 (fi.partitionBegining + fi.fatSectorNumber file.currentCluster)
    currentCluster := fi.getFATEntry file.currentCluster sectorBuffer
    bufferOffset := 0
    bufferIsValid := true }, ?_, .inr hsectors, hbytes, hentry, rfl, rfl, rfl, rfl⟩
  unfold fatReadFileCluster
  simp only [hzero, hbad, hend, Bool.false_eq_true, or_self, if_false, if_true, hbuffer]
  unfold nextCluster
  dsimp only at htable ⊢
  rw [htable]
  simp only [Bool.true_eq_false, if_false, if_neg (Nat.not_lt.2 hfits)]

end FatFile

/-! ## The open file after `t` bytes -/

/-- Between two clusters: the buffer is used up, and the next cluster begins with byte `t`. -/
def Between (disk : HardDisk) (fi : FATInfo) (first : Nat) (file : FATOpenFileInfo) (t : Nat) : Prop :=
  Cached disk file ∧ ∃ k, t = k * fi.bytesPerCluster ∧ file.currentCluster = fi.clusterAt disk first k

def Inside (disk : HardDisk) (fi : FATInfo) (first fileSize : Nat) (file : FATOpenFileInfo) (t : Nat) : Prop :=
  Cached disk file ∧ ∃ k, k * fi.bytesPerCluster < fileSize ∧ t = k * fi.bytesPerCluster + file.bufferOffset ∧
    file.bufferOffset ≤ fi.bytesPerCluster ∧
    (∀ j < fi.bytesPerCluster, file.buffer j = disk.bytes (fi.clusterStart (fi.clusterAt disk first k) + j)) ∧
    file.currentCluster = fi.clusterAt disk first (k + 1)

def AtEnd (disk : HardDisk) (fi : FATInfo) (first fileSize : Nat) (t : Nat) : Prop :=
  t = fileSize ∧ ¬ EndsWithChain disk fi first fileSize

/-- `t` bytes have been delivered. -/
structure At (disk : HardDisk) (fi : FATInfo) (first fileSize : Nat) (file : FATOpenFileInfo) (t : Nat) : Prop where
  size : file.fileSize = fileSize
  passed : file.totalBytesPassed = t
  le : t ≤ fileSize
  place : if file.bufferIsValid then Inside disk fi first fileSize file t
    else Between disk fi first file t ∨ AtEnd disk fi first fileSize t

def Ready (disk : HardDisk) (fi : FATInfo) (first fileSize : Nat) (file : FATOpenFileInfo) (t : Nat) : Prop :=
  Between disk fi first file t ∨ AtEnd disk fi first fileSize t

theorem Ready.not_readable (hpos : 0 < fi.bytesPerCluster)
    (hready : Ready disk fi first fileSize file fileSize) (hends : EndsWithChain disk fi first fileSize) :
    ¬ fi.Readable file.currentCluster := by
  rcases hready with ⟨_, k, hk, hcur⟩ | ⟨_, hnot⟩
  · have hdiv : fileSize / fi.bytesPerCluster = k := by rw [hk, Nat.mul_div_cancel _ hpos]
    rw [hcur, ← hdiv]
    exact hends.2
  · exact absurd hends hnot

theorem EndsWithChain.whole (hends : EndsWithChain disk fi first fileSize)
    (hk : k * fi.bytesPerCluster < fileSize) : k * fi.bytesPerCluster + fi.bytesPerCluster ≤ fileSize := by
  obtain ⟨l, hl⟩ := dvd_of_mod_eq_zero hends.1
  rw [hl, Nat.mul_comm fi.bytesPerCluster] at hk ⊢
  have hlt : k < l := Nat.lt_of_mul_lt_mul_right hk
  rw [← succ_mul]
  exact Nat.mul_le_mul_right _ hlt

theorem NoWrap.lt (hwrap : NoWrap disk fi first fileSize t n) (hsize : fileSize < 2 ^ 32)
    (hk : k * fi.bytesPerCluster < fileSize) (ht : t = k * fi.bytesPerCluster + off)
    (hcluster : off + b ≤ fi.bytesPerCluster) (hb : b ≤ n) : t + b < 2 ^ 32 := by
  rcases hwrap with h | h | hends
  · omega
  · omega
  · have := hends.whole hk
    omega

theorem readLoop_done (hdone : size ≤ tot) (rounds : Nat) (out : List UInt8) :
    readLoop disk fi rounds file size tot out = some (file, out, tot) := by
  cases rounds <;> simp [readLoop, Nat.not_lt.2 hdone]

theorem bufferBytes_eq (h : FatFile disk fi first fileSize) (hle : tot ≤ size) (hsize : size < 2 ^ 16) :
    (if u32 (tot + fi.bufferSize) > size then sub32 size tot else fi.bufferSize)
      = min fi.bytesPerCluster (size - tot) := by
  have hclusterLt := h.cluster_lt
  rw [h.bufferSize_eq, u32_of_lt (by omega), sub32_of_le hle (by omega)]
  split <;> omega

theorem readLoop_round {rounds : Nat} {file1 : FATOpenFileInfo} {out : List UInt8}
    (h : FatFile disk fi first fileSize) (hmore : tot < size) (hsize : size < 2 ^ 16)
    (hread : fatReadFileCluster disk fi file = some (file1, true)) (hb : b = min fi.bytesPerCluster (size - tot)) :
    readLoop disk fi (rounds + 1) file size tot out =
      if u32 (file1.totalBytesPassed + b) > file1.fileSize then
        readLoop disk fi rounds
          { file1.pass (sub32 file1.fileSize file1.totalBytesPassed) with bufferIsValid := false }
          (sub32 file1.fileSize file1.totalBytesPassed)
          (u32 (tot + sub32 file1.fileSize file1.totalBytesPassed))
          (out ++ slice file1.buffer 0 (sub32 file1.fileSize file1.totalBytesPassed))
      else
        readLoop disk fi rounds (file1.pass b) size (u32 (tot + b)) (out ++ slice file1.buffer 0 b) := by
  subst hb
  rw [readLoop, if_pos hmore, hread]
  simp only [bufferBytes_eq h (Nat.le_of_lt hmore) hsize]

theorem readLoop_atEnd (h : FatFile disk fi first fileSize) (hat : At disk fi first fileSize file fileSize)
    (hready : Ready disk fi first fileSize file fileSize) (hmore : tot < size) (hsize : size < 2 ^ 16)
    (hwrap : NoWrap disk fi first fileSize fileSize (size - tot)) (rounds : Nat) (out : List UInt8) :
    ∃ file', readLoop disk fi (rounds + 1) file size tot out = some (file', out, tot) ∧
      At disk fi first fileSize file' fileSize := by
  have hsizeLt := h.size_lt
  have hclusterPos := h.cluster_pos
  rcases h.fatReadFileCluster_cases file with ⟨hread, _⟩ | ⟨file1, hread, hreadable, _, _, hsize1, hpassed1⟩
  · refine ⟨file, ?_, hat⟩
    simp [readLoop, hmore, hread]
  · have hnot : ¬ EndsWithChain disk fi first fileSize := fun hends => hready.not_readable hclusterPos hends hreadable
    have hbound : fileSize + min fi.bytesPerCluster (size - tot) < 2 ^ 32 := by
      rcases hwrap with hw | hw | hw
      · omega
      · omega
      · exact absurd hw hnot
    rw [hat.passed] at hpassed1
    rw [hat.size] at hsize1
    have hzero : sub32 fileSize fileSize = 0 := by
      rw [sub32_of_le (le_refl fileSize) hsizeLt, Nat.sub_self]
    rw [readLoop_round h hmore hsize hread rfl, hpassed1, hsize1, u32_of_lt hbound, if_pos (by omega), hzero,
      readLoop_done (zero_le _)]
    refine ⟨{ file1.pass 0 with bufferIsValid := false }, ?_, ?_, ?_, le_refl fileSize, ?_⟩
    · simp [slice, u32_of_lt (show tot < 2 ^ 32 by omega)]
    · exact hsize1
    · show u32 (file1.totalBytesPassed + 0) = fileSize
      rw [hpassed1, Nat.add_zero, u32_of_lt hsizeLt]
    · exact .inr ⟨rfl, hnot⟩

section Cluster

variable (h : FatFile disk fi first fileSize) {file : FATOpenFileInfo} {t k b : Nat} (hcached : Cached disk file)
  (hk : k * fi.bytesPerCluster < fileSize) (ht : t = k * fi.bytesPerCluster)
  (hcur : file.currentCluster = fi.clusterAt disk first (k + 1)) (hsize : file.fileSize = fileSize)
  (hpassed : file.totalBytesPassed = t)

include h hcached hk ht hcur hsize hpassed

theorem At.pass (hbuffer : ∀ j < fi.bytesPerCluster,
      file.buffer j = disk.bytes (fi.clusterStart (fi.clusterAt disk first k) + j))
    (hoff : file.bufferOffset = 0) (hvalid : file.bufferIsValid = true) (hb : b ≤ fi.bytesPerCluster)
    (hle : t + b ≤ fileSize) : At disk fi first fileSize (file.pass b) (t + b) := by
  have hsizeLt := h.size_lt
  have hclusterLt := h.cluster_lt
  have hoffset : (file.bufferOffset + b) % 2 ^ 16 = b := by
    rw [hoff, Nat.zero_add, mod_eq_of_lt (by omega)]
  refine ⟨hsize, ?_, hle, ?_⟩
  · show u32 (file.totalBytesPassed + b) = t + b
    rw [hpassed, u32_of_lt (by omega)]
  · show if file.bufferIsValid then _ else _
    rw [hvalid, if_pos rfl]
    refine ⟨hcached, k, hk, ?_, ?_, hbuffer, hcur⟩
    · show _ = _ + (file.bufferOffset + b) % 2 ^ 16
      rw [hoffset, ht]
    · show (file.bufferOffset + b) % 2 ^ 16 ≤ _
      rw [hoffset]
      exact hb

omit hcached hcur in
theorem At.last (hend : fileSize < t + b) (hb : b ≤ fi.bytesPerCluster) :
    At disk fi first fileSize { file.pass (fileSize - t) with bufferIsValid := false } fileSize := by
  have hsizeLt := h.size_lt
  refine ⟨hsize, ?_, le_refl fileSize, .inr ⟨rfl, fun hends => ?_⟩⟩
  · show u32 (file.totalBytesPassed + (fileSize - t)) = fileSize
    rw [hpassed, u32_of_lt (by omega)]
    omega
  · have := hends.whole hk
    omega

end Cluster

theorem readLoop_spec (h : FatFile disk fi first fileSize) :
    ∀ (rounds : Nat) (file : FATOpenFileInfo) (size tot t : Nat) (out : List UInt8),
      At disk fi first fileSize file t → (tot < size → Ready disk fi first fileSize file t) → size - tot ≤ rounds →
      tot ≤ size → size < 2 ^ 16 → NoWrap disk fi first fileSize t (size - tot) →
      ∃ file', readLoop disk fi rounds file size tot out =
          some (file', out ++ bytesFrom disk fi first t (min (size - tot) (fileSize - t)),
            tot + min (size - tot) (fileSize - t)) ∧
        At disk fi first fileSize file' (t + min (size - tot) (fileSize - t)) := by
  intro rounds
  have hsizeLt := h.size_lt
  have hclusterPos := h.cluster_pos
  induction rounds with
  | zero =>
    intro file size tot t out hat _ hrounds hle _ _
    obtain rfl : tot = size := by omega
    refine ⟨file, ?_, ?_⟩
    · simp [readLoop, bytesFrom]
    · simpa using hat
  | succ rounds ih =>
    intro file size tot t out hat hready hrounds hle hsize hwrap
    by_cases hmore : tot < size
    · have hready := hready hmore
      by_cases hend : t = fileSize
      · subst hend
        obtain ⟨file', hloop, hat'⟩ := readLoop_atEnd h hat hready hmore hsize hwrap rounds out
        have hnone : min (size - tot) (t - t) = 0 := by omega
        rw [hnone]
        exact ⟨file', by simpa [bytesFrom] using hloop, hat'⟩
      · -- a cluster of the file
        have htle := hat.le
        obtain ⟨hcached, k, htk, hcur⟩ : Between disk fi first file t :=
          hready.resolve_right fun hend' => hend hend'.1
        obtain ⟨hreadable, hreach⟩ := h.chain k (by omega)
        rw [← hcur] at hreadable hreach
        obtain ⟨file1, hread, hcached1, hbuffer, hcur1, hoff1, hvalid1, hsize1, hpassed1⟩ :=
          h.fatReadFileCluster_spec hcached hreadable hreach
        rw [hat.passed] at hpassed1
        rw [hat.size] at hsize1
        rw [hcur] at hbuffer hcur1
        have hk : k * fi.bytesPerCluster < fileSize := by omega
        have htk0 : t = k * fi.bytesPerCluster + 0 := htk
        generalize hb : min fi.bytesPerCluster (size - tot) = b
        have hbound : t + b < 2 ^ 32 := NoWrap.lt hwrap hsizeLt hk htk0 (by omega) (by omega)
        rw [readLoop_round h hmore hsize hread hb.symm, hpassed1, hsize1, u32_of_lt hbound]
        split
        · rename_i hover
          have hrest : sub32 fileSize t = fileSize - t := sub32_of_le htle hsizeLt
          have hmin : min (size - tot) (fileSize - t) = fileSize - t := by omega
          have hsum : u32 (tot + (fileSize - t)) = tot + (fileSize - t) := u32_of_lt (by omega)
          rw [hrest, hsum, readLoop_done (by omega), hmin,
            slice_eq_bytesFrom hclusterPos hbuffer htk0 (by omega)]
          refine ⟨_, rfl, ?_⟩
          rw [add_sub_of_le htle]
          exact At.last h hk htk hsize1 hpassed1 hover (by omega)
        · rename_i hover
          have hsum : u32 (tot + b) = tot + b := u32_of_lt (by omega)
          have hat1 : At disk fi first fileSize (file1.pass b) (t + b) :=
            At.pass h hcached1 hk htk hcur1 hsize1 hpassed1 hbuffer hoff1 hvalid1 (by omega) (by omega)
          have hready1 : tot + b < size → Ready disk fi first fileSize (file1.pass b) (t + b) := by
            -- the loop goes on only behind a whole cluster
            intro hmore'
            refine .inl ⟨hcached1, k + 1, ?_, hcur1⟩
            rw [succ_mul]
            omega
          have hwrap1 : NoWrap disk fi first fileSize (t + b) (size - (tot + b)) := by
            rcases hwrap with hw | hw | hw
            · exact .inl (by omega)
            · exact .inr (.inl hw)
            · exact .inr (.inr hw)
          obtain ⟨file', hloop, hat'⟩ := ih (file1.pass b) size (tot + b) (t + b)
            (out ++ bytesFrom disk fi first t b) hat1 hready1 (by omega) (by omega) hsize hwrap1
          have hsplit : min (size - tot) (fileSize - t) = b + min (size - (tot + b)) (fileSize - (t + b)) := by omega
          rw [slice_eq_bytesFrom hclusterPos hbuffer htk0 (by omega), hsum, hloop, hsplit, bytesFrom_add,
            List.append_assoc, ← Nat.add_assoc, ← Nat.add_assoc]
          exact ⟨file', rfl, hat'⟩
    · obtain rfl : tot = size := by omega
      refine ⟨file, ?_, ?_⟩
      · simp [readLoop, bytesFrom]
      · simpa using hat

/-! ## A call -/

theorem fromBuffer_spec (h : FatFile disk fi first fileSize)
    (hat : At disk fi first fileSize file t) (hwrap : NoWrap disk fi first fileSize t n) :
    ∃ file' b, fromBuffer fi file n = (file', bytesFrom disk fi first t b, b) ∧ b ≤ min n (fileSize - t) ∧
      At disk fi first fileSize file' (t + b) ∧ (b < n → Ready disk fi first fileSize file' (t + b)) := by
  have hclusterLt := h.cluster_lt
  have hsizeLt := h.size_lt
  have htle := hat.le
  have hplace := hat.place
  cases hvalid : file.bufferIsValid with
  | false =>
    rw [hvalid, if_neg Bool.false_ne_true] at hplace
    refine ⟨file, 0, ?_, zero_le _, hat, fun _ => hplace⟩
    simp [fromBuffer, hvalid, bytesFrom]
  | true =>
    rw [hvalid, if_pos rfl] at hplace
    obtain ⟨hcached, k, hk, htk, hoff, hbuffer, hcur⟩ := hplace
    have hrest : sub32 fi.bufferSize file.bufferOffset = fi.bytesPerCluster - file.bufferOffset := by
      rw [h.bufferSize_eq, sub32_of_le hoff (by omega)]
    obtain ⟨request, hrequest⟩ : ∃ request, request = min n (fi.bytesPerCluster - file.bufferOffset) := ⟨_, rfl⟩
    have hasked : (if fi.bytesPerCluster - file.bufferOffset ≥ n then n else fi.bytesPerCluster - file.bufferOffset)
        = request := by
      rw [hrequest]
      split <;> omega
    have hbound : t + request < 2 ^ 32 := NoWrap.lt hwrap hsizeLt hk htk (by omega) (by omega)
    obtain ⟨b, hb⟩ : ∃ b, b = min request (fileSize - t) := ⟨_, rfl⟩
    have hclamp : file.clamp request = b := by
      unfold FATOpenFileInfo.clamp
      rw [hat.passed, hat.size, u32_of_lt hbound, sub32_of_le htle hsizeLt, hb]
      split <;> omega
    have hslice : slice file.buffer file.bufferOffset b = bytesFrom disk fi first t b :=
      slice_eq_bytesFrom h.cluster_pos hbuffer htk (by omega)
    have hpassed : (file.pass b).totalBytesPassed = t + b := by
      show u32 (file.totalBytesPassed + b) = _
      rw [hat.passed, u32_of_lt (by omega)]
    have hoffset : (file.pass b).bufferOffset = file.bufferOffset + b := by
      show (file.bufferOffset + b) % 2 ^ 16 = _
      rw [mod_eq_of_lt (by omega)]
    refine ⟨{ file.pass b with bufferIsValid := decide ((file.pass b).bufferOffset < fi.bufferSize) }, b, ?_, by omega,
      ⟨hat.size, hpassed, by omega, ?_⟩, ?_⟩
    · unfold fromBuffer
      rw [hvalid, if_pos rfl, hrest]
      dsimp only
      rw [hasked, hclamp, hslice]
    · show if decide ((file.pass b).bufferOffset < fi.bufferSize) = true then _ else _
      rw [hoffset, h.bufferSize_eq]
      by_cases hinside : file.bufferOffset + b < fi.bytesPerCluster
      · rw [if_pos (decide_eq_true hinside)]
        refine ⟨hcached, k, hk, ?_, ?_, hbuffer, hcur⟩
        · show t + b = _ + (file.pass b).bufferOffset
          rw [hoffset]
          omega
        · show (file.pass b).bufferOffset ≤ _
          rw [hoffset]
          omega
      · rw [if_neg (fun h' => hinside (of_decide_eq_true h'))]
        refine .inl ⟨hcached, k + 1, ?_, hcur⟩
        rw [succ_mul]
        omega
    · intro hmore
      by_cases hused : file.bufferOffset + b = fi.bytesPerCluster
      · refine .inl ⟨hcached, k + 1, ?_, hcur⟩
        rw [succ_mul]
        omega
      · refine .inr ⟨by omega, fun hends => ?_⟩
        have := hends.whole hk
        omega

theorem fatReadFile_spec (h : FatFile disk fi first fileSize)
    (hat : At disk fi first fileSize file t) (hn : n < 2 ^ 16) (hwrap : NoWrap disk fi first fileSize t n) :
    ∃ file', fatReadFile disk fi file n
        = some (file', bytesFrom disk fi first t (min n (fileSize - t)), min n (fileSize - t)) ∧
      At disk fi first fileSize file' (t + min n (fileSize - t)) := by
  obtain ⟨file1, b, hbuffer, hb, hat1, hready⟩ := fromBuffer_spec h hat hwrap
  have hwrap1 : NoWrap disk fi first fileSize (t + b) (n - b) := by
    rcases hwrap with hw | hw | hw
    · exact .inl (by omega)
    · exact .inr (.inl hw)
    · exact .inr (.inr hw)
  obtain ⟨file', hloop, hat'⟩ := readLoop_spec h n file1 n b (t + b) (bytesFrom disk fi first t b) hat1 hready
    (by omega) (by omega) hn hwrap1
  have hsplit : min n (fileSize - t) = b + min (n - b) (fileSize - (t + b)) := by omega
  have hsmall : (b + min (n - b) (fileSize - (t + b))) % 2 ^ 16 = b + min (n - b) (fileSize - (t + b)) :=
    mod_eq_of_lt (by omega)
  refine ⟨file', ?_, ?_⟩
  · unfold fatReadFile
    rw [hbuffer]
    dsimp only
    rw [hloop, Option.map_some, hsmall, hsplit, bytesFrom_add]
  · rw [hsplit, ← Nat.add_assoc]
    exact hat'

theorem at_open (sectorBuffer buffer : Memory) :
    At disk fi first fileSize (fatFileOpen sectorBuffer buffer first fileSize) 0 :=
  ⟨rfl, rfl, zero_le _, .inl ⟨.inl rfl, 0, (Nat.zero_mul _).symm, rfl⟩⟩

/-! ## Sequences of calls -/

/-- An open file, the bytes that have been asked for, and those that have been delivered. -/
structure Reading where
  file : FATOpenFileInfo
  requested : Nat
  delivered : List UInt8

/-- The calls of `FATReadFile` on one handle. -/
def reading (disk : HardDisk) (fi : FATInfo) (first fileSize : Nat) : StepSystem Reading Nat where
  init s := ∃ sectorBuffer buffer, s = ⟨fatFileOpen sectorBuffer buffer first fileSize, 0, []⟩
  step s n := (fatReadFile disk fi s.file n).map fun (file, bytes, _) =>
    { file, requested := s.requested + n, delivered := s.delivered ++ bytes }

def content (disk : HardDisk) (fi : FATInfo) (first fileSize : Nat) : List UInt8 := bytesFrom disk fi first 0 fileSize

/-- A request of less than 64 KiB that does not reach `2^32` at the end of the file. -/
def Request (disk : HardDisk) (fi : FATInfo) (first fileSize : Nat) (s : Reading) (n : Nat) : Prop :=
  n < 2 ^ 16 ∧ NoWrap disk fi first fileSize (min fileSize s.requested) n
  deriving Decidable

theorem take_bytesFrom (t m n : Nat) : (bytesFrom disk fi first t m).take n = bytesFrom disk fi first t (min n m) := by
  unfold bytesFrom
  rw [← List.map_take]
  by_cases hn : n ≤ m
  · rw [List.take_range'_of_length_ge hn, Nat.min_eq_left hn]
  · rw [List.take_range'_of_length_le (by omega), Nat.min_eq_right (by omega)]

theorem drop_bytesFrom (t m n : Nat) :
    (bytesFrom disk fi first t m).drop n = bytesFrom disk fi first (t + n) (m - n) := by
  unfold bytesFrom
  rw [← List.map_drop, List.drop_range', Nat.mul_one]

theorem next_content (requested n : Nat) :
    bytesFrom disk fi first (min fileSize requested) (min n (fileSize - min fileSize requested))
      = ((content disk fi first fileSize).drop requested).take n := by
  unfold content
  rw [drop_bytesFrom, take_bytesFrom, Nat.zero_add]
  by_cases hend : requested ≤ fileSize
  · rw [Nat.min_eq_right hend]
  · rw [Nat.min_eq_left (by omega), Nat.sub_self, Nat.sub_eq_zero_of_le (by omega), Nat.min_zero]
    rfl

theorem reading_at (h : FatFile disk fi first fileSize) {s : Reading}
    (hreach : (reading disk fi first fileSize).ReachVia (Request disk fi first fileSize) s) :
    At disk fi first fileSize s.file (min fileSize s.requested) ∧
      s.delivered = bytesFrom disk fi first 0 (min fileSize s.requested) := by
  refine hreach.invariant (fun s => At disk fi first fileSize s.file (min fileSize s.requested) ∧
    s.delivered = bytesFrom disk fi first 0 (min fileSize s.requested)) ?_ ?_
  · rintro s ⟨sectorBuffer, buffer, rfl⟩
    rw [Nat.min_zero]
    exact ⟨at_open sectorBuffer buffer, rfl⟩
  · rintro s n s' ⟨hat, hdelivered⟩ ⟨hn, hwrap⟩ hstep
    obtain ⟨file', hread, hat'⟩ := fatReadFile_spec h hat hn hwrap
    have hsum : min fileSize s.requested + min n (fileSize - min fileSize s.requested)
        = min fileSize (s.requested + n) := by omega
    simp only [reading, hread, Option.map_some, Option.some.injEq] at hstep
    subst hstep
    rw [hsum] at hat'
    refine ⟨hat', ?_⟩
    rw [hdelivered, ← hsum, bytesFrom_add, Nat.zero_add]

/-- **Sequential reading of a file**: whatever the requests, the bytes delivered are the first ones of the file, and
each call delivers what it is asked for as far as the file goes, and returns that number. -/
theorem fatReadFile_run (h : FatFile disk fi first fileSize) {s : Reading}
    (hreach : (reading disk fi first fileSize).ReachVia (Request disk fi first fileSize) s) :
    s.delivered = (content disk fi first fileSize).take s.requested ∧
    ∀ n, Request disk fi first fileSize s n → ∃ file' bytes,
      fatReadFile disk fi s.file n = some (file', bytes, bytes.length) ∧
        bytes = ((content disk fi first fileSize).drop s.requested).take n := by
  obtain ⟨hat, hdelivered⟩ := reading_at h hreach
  refine ⟨?_, ?_⟩
  · rw [hdelivered]
    unfold content
    rw [take_bytesFrom, Nat.min_comm]
  · rintro n ⟨hn, hwrap⟩
    obtain ⟨file', hread, _⟩ := fatReadFile_spec h hat hn hwrap
    refine ⟨file', bytesFrom disk fi first (min fileSize s.requested) (min n (fileSize - min fileSize s.requested)),
      ?_, next_content s.requested n⟩
    rw [hread, length_bytesFrom]

/-- A FAT12 volume behind sector 1 of a disk: one sector of table, one of root directory, clusters of one sector. -/
def smallVolume (bytesPerSector : Nat) : FATInfo where
  bpb :=
    { bytesPerSector, sectorsPerCluster := 1, reservedSectors := 1, numberFATs := 1, rootDirEntries := 16,
      totalSectors16 := 20, fatSize16 := 1, totalSectors32 := 0, fatSize32 := 0, rootCluster := 0 }
  partitionBegining := 1

def smallDisk : HardDisk where
  bytes a := if a = 1027 then 3 else if a = 1028 then 0xf0 else if a = 1029 then 0xff else UInt8.ofNat a
  fails _ := false

def smallFile : FATOpenFileInfo := fatFileOpen (fun _ => 0) (fun _ => 0) 2 520

/-- A file of 520 bytes in two clusters, read in three calls and one behind its end. -/
theorem fatReadFile_run_smallVolume :
    ∃ s, (reading smallDisk (smallVolume 512) 2 520).exec ⟨smallFile, 0, []⟩ [100, 415, 3, 10] = some s ∧
      s.delivered = (content smallDisk (smallVolume 512) 2 520).take s.requested := by
  have hfile : FatFile smallDisk (smallVolume 512) 2 520 := by
    refine ⟨rfl, by decide, by decide, by decide, by decide, ?_, fun _ => rfl⟩
    intro k hk
    have hk2 : k < 2 := by
      rw [show (smallVolume 512).bytesPerCluster = 512 from rfl] at hk
      omega
    have hall : ∀ k < 2, (smallVolume 512).Readable ((smallVolume 512).clusterAt smallDisk 2 k) ∧
        2 ≤ (smallVolume 512).clusterAt smallDisk 2 k ∧ (smallVolume 512).clusterAt smallDisk 2 k ≤ 3 := by decide
    obtain ⟨hreadable, hlow, hhigh⟩ := hall k hk2
    refine ⟨hreadable, hlow, ?_, ?_⟩
    · have hstart : (smallVolume 512).dataStart = 3 := rfl
      have hone : (smallVolume 512).bpb.sectorsPerCluster = 1 := rfl
      have hpart : (smallVolume 512).partitionBegining = 1 := rfl
      rw [hone]
      omega
    · have hoff : (smallVolume 512).fatOffset ((smallVolume 512).clusterAt smallDisk 2 k) < 2 ^ 27 := by
        have hoffs : ∀ k < 2, (smallVolume 512).fatOffset ((smallVolume 512).clusterAt smallDisk 2 k) < 2 ^ 27 := by decide
        exact hoffs k hk2
      have hres : (smallVolume 512).bpb.reservedSectors = 1 := rfl
      have hpart : (smallVolume 512).partitionBegining = 1 := rfl
      omega
  have hrun : ((reading smallDisk (smallVolume 512) 2 520).exec ⟨smallFile, 0, []⟩ [100, 415, 3, 10]).map
      (fun s => s.requested) = some 528 := by decide +kernel
  obtain ⟨s, hs, _⟩ := Option.map_eq_some_iff.1 hrun
  have hmeets : (reading smallDisk (smallVolume 512) 2 520).Meets (Request smallDisk (smallVolume 512) 2 520)
      ⟨smallFile, 0, []⟩ [100, 415, 3, 10] := by decide +kernel
  have hreach : (reading smallDisk (smallVolume 512) 2 520).ReachVia (Request smallDisk (smallVolume 512) 2 520) s :=
    StepSystem.reachVia_exec [100, 415, 3, 10] (.init ⟨_, _, rfl⟩) hmeets hs
  exact ⟨s, hs, (fatReadFile_run hfile hreach).1⟩

def bigSectorDisk : HardDisk where
  bytes a := if a = 3584 then 1 else if 1536 ≤ a ∧ a < 1544 then 0xff else 0
  fails _ := false

theorem fatReadFile_bigSectors :
    ¬ ∀ (disk : HardDisk) (fi : FATInfo) (first fileSize : Nat), 0 < fi.bytesPerCluster → fi.bytesPerCluster < 2 ^ 16 →
      (∀ k, k * fi.bytesPerCluster < fileSize → fi.Readable (fi.clusterAt disk first k) ∧
        2 ≤ fi.clusterAt disk first k ∧ fi.clusterAt disk first k < fi.countOfClusters + 2) →
      fileSize < 2 ^ 32 → (∀ i, disk.fails i = false) →
      ∀ s, (reading disk fi first fileSize).ReachVia (fun _ n => n < 2 ^ 16) s →
        s.delivered = (content disk fi first fileSize).take s.requested := by
  intro hclaim
  have hchain : ∀ k, k * (smallVolume 1024).bytesPerCluster < 1 →
      (smallVolume 1024).Readable ((smallVolume 1024).clusterAt bigSectorDisk 2 k) ∧
        2 ≤ (smallVolume 1024).clusterAt bigSectorDisk 2 k ∧
        (smallVolume 1024).clusterAt bigSectorDisk 2 k < (smallVolume 1024).countOfClusters + 2 := by
    intro k hk
    rw [show (smallVolume 1024).bytesPerCluster = 1024 from rfl] at hk
    obtain rfl : k = 0 := by omega
    decide
  have hrun : ((reading bigSectorDisk (smallVolume 1024) 2 1).exec
      ⟨fatFileOpen (fun _ => 0) (fun _ => 0) 2 1, 0, []⟩ [1]).map (fun s => (s.delivered, s.requested))
        = some ([0], 1) := by decide +kernel
  obtain ⟨s, hs, hout⟩ := Option.map_eq_some_iff.1 hrun
  have hmeets : (reading bigSectorDisk (smallVolume 1024) 2 1).Meets (fun _ n => n < 2 ^ 16)
      ⟨fatFileOpen (fun _ => 0) (fun _ => 0) 2 1, 0, []⟩ [1] := by decide +kernel
  have hread := hclaim bigSectorDisk (smallVolume 1024) 2 1 (by decide) (by decide) hchain (by decide) (fun _ => rfl) s
    (StepSystem.reachVia_exec [1] (.init ⟨_, _, rfl⟩) hmeets hs)
  obtain ⟨hdelivered, hrequested⟩ := Prod.mk.inj hout
  rw [hdelivered, hrequested] at hread
  revert hread
  decide +kernel

end Fat32
