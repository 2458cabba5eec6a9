import SkyOS.Lib.Bytes
import SkyOS.Lib.Machine
import SkyOS.Lib.StepSystem

/-!
# The FAT16 file system: its table (`driver/FAT.cpp`)

The file allocation table is in memory as a whole. Every change of an entry is flushed at once: `FlushFat` writes the
512 bytes that begin with the entry to the place of the entry in the first copy on the device.

| here | there |
| --- | --- |
| `FatFileSystem.fFat` | the `fFatSize / 2` entries at `fFat` |
| `FatFileSystem.device` | what is behind `fDeviceFd`, byte by byte |
| `none` | an access outside the table, or a position that is not an `off_t` |
| `InBounds` | the calls whose flushes stay inside the table |
-/

namespace Fat

open Machine Bytes List Option

/-! ## The source -/

def kBlockSize : Nat := 512
def kDirEntriesPerBlock : Nat := kBlockSize / 32
def kEndOfFile : Nat := 0xffffffff
def kFreeCluster : Nat := 0
def kClusterChainDelimiter : Nat := 0xfff8

structure FatSuperBlock where
  sectorsPerCluster : Nat
  reservedSectors : Nat
  numFats : Nat
  rootDirEntries : Nat
  sectorsPerFat : Nat
deriving DecidableEq

structure FatFileSystem where
  fSuperBlock : FatSuperBlock
  fPartStartSector : Nat
  fFat : List Nat
  device : Memory

/-- `write_pos`: the position is an `int`. -/
def writePos (device : Memory) (offs : Int) (bytes : List UInt8) : Option Memory :=
  if 0 ≤ offs then some (copy device offs.toNat (ofList 0 bytes) 0 bytes.length) else none

namespace FatFileSystem

/-- `fRootDirStart` (:212). -/
def fRootDirStart (fs : FatFileSystem) : Nat :=
  u32 (fs.fPartStartSector + fs.fSuperBlock.reservedSectors + fs.fSuperBlock.numFats * fs.fSuperBlock.sectorsPerFat)

/-- `fDataStart` (:214). -/
def fDataStart (fs : FatFileSystem) : Nat :=
  u32 (fs.fRootDirStart + fs.fSuperBlock.rootDirEntries / kDirEntriesPerBlock)

/-- `ClusterToLba` (:237). -/
def clusterToLba (fs : FatFileSystem) (cluster : Nat) : Nat :=
  u32 (sub32 cluster 2 * fs.fSuperBlock.sectorsPerCluster + fs.fDataStart)

/-- `LbaToCluster` (:244). -/
def lbaToCluster (fs : FatFileSystem) (lba : Nat) : Nat :=
  u32 (sub32 lba fs.fDataStart / fs.fSuperBlock.sectorsPerCluster + 2)

/-- `FlushFat` (:306). -/
def flushFat (fs : FatFileSystem) (cluster : Nat) : Option FatFileSystem :=
  if cluster + kBlockSize / 2 ≤ fs.fFat.length then
    (writePos fs.device
      (toInt32 (u32 ((fs.fPartStartSector + fs.fSuperBlock.reservedSectors) * kBlockSize + cluster * 2)))
      (((fs.fFat.drop cluster).take (kBlockSize / 2)).flatMap fun entry => leBytes entry 2)).map
      fun device => { fs with device }
  else none

/-- `fFat[cluster] = value`, of an `unsigned short`. -/
def setFat (fs : FatFileSystem) (cluster value : Nat) : FatFileSystem :=
  { fs with fFat := fs.fFat.set cluster (value % 2 ^ 16) }

/-- Where the loop of `AllocateCluster` (:284) ends. -/
def freeCluster? (fs : FatFileSystem) : Option Nat := fs.fFat.findIdx? fun entry => entry = kFreeCluster

/-- `AllocateCluster` (:282). -/
def allocateCluster (fs : FatFileSystem) : Option (FatFileSystem × Nat) :=
  match fs.freeCluster? with
  | some cluster => ((fs.setFat cluster kClusterChainDelimiter).flushFat cluster).map fun fs => (fs, cluster)
  | none => some (fs, kEndOfFile)

/-- `FreeCluster` (:295). -/
def freeCluster (fs : FatFileSystem) (cluster : Nat) : Option FatFileSystem :=
  if cluster < fs.fFat.length then (fs.setFat cluster kFreeCluster).flushFat cluster else none

/-- `GetNextBlock` (:249). -/
def getNextBlock (fs : FatFileSystem) (lba : Nat) (extend : Bool) : Option (FatFileSystem × Nat) :=
  if lba = sub32 fs.fDataStart 1 then some (fs, kEndOfFile)
  else if lba < fs.fDataStart then some (fs, u32 (lba + 1))
  else if lba % fs.fSuperBlock.sectorsPerCluster ≠ 0 then some (fs, u32 (lba + 1))
  else
    match fs.fFat[fs.lbaToCluster lba]? with
    | none => none
    | some nextCluster =>
      if nextCluster ≥ kClusterChainDelimiter then
        if extend then do
          let (fs', nextCluster) ← fs.allocateCluster
          let fs' ← (fs'.setFat (fs.lbaToCluster lba) nextCluster).flushFat (fs.lbaToCluster lba)
          return (fs', fs.clusterToLba nextCluster)
        else some (fs, kEndOfFile)
      else some (fs, fs.clusterToLba nextCluster)

/-! ## What a flush does -/

def fatStart (fs : FatFileSystem) : Nat := (fs.fPartStartSector + fs.fSuperBlock.reservedSectors) * kBlockSize

def Synced (fs : FatFileSystem) : Prop :=
  ∀ c (_ : c < fs.fFat.length), readLE fs.device (fs.fatStart + 2 * c) 2 = fs.fFat[c]

def Narrow (fs : FatFileSystem) : Prop := ∀ entry ∈ fs.fFat, entry < 2 ^ 16

/-- The 256 entries from `c` on are in the table, and the position of the first one is an `off_t`. -/
def Flushes (fs : FatFileSystem) (c : Nat) : Prop :=
  c + kBlockSize / 2 ≤ fs.fFat.length ∧ fs.fatStart + 2 * c < 2 ^ 31
  deriving Decidable

variable {fs fs' : FatFileSystem} {c lba : Nat}

theorem position_of_flushes (h : fs.Flushes c) :
    toInt32 (u32 ((fs.fPartStartSector + fs.fSuperBlock.reservedSectors) * kBlockSize + c * 2)) =
      ((fs.fatStart + 2 * c : Nat) : Int) := by
  have hlt := h.2
  unfold fatStart at hlt
  rw [u32_of_lt (by omega), toInt32_of_isInt32 (by unfold IsInt32; omega), fatStart, Nat.mul_comm c 2]

def flushedBytes (fs : FatFileSystem) (c : Nat) : List UInt8 :=
  ((fs.fFat.drop c).take (kBlockSize / 2)).flatMap fun entry => leBytes entry 2

theorem length_flushedBytes (h : fs.Flushes c) : (fs.flushedBytes c).length = 512 := by
  have hle := h.1
  unfold kBlockSize at hle
  rw [flushedBytes, length_flatMap_leBytes, length_take, length_drop, kBlockSize]
  omega

theorem flushFat_eq (h : fs.Flushes c) :
    fs.flushFat c =
      some { fs with device := copy fs.device (fs.fatStart + 2 * c) (ofList 0 (fs.flushedBytes c)) 0 512 } := by
  have hpos : (0 : Int) ≤ ((fs.fatStart + 2 * c : Nat) : Int) := Int.natCast_nonneg _
  rw [flushFat, if_pos h.1, position_of_flushes h, writePos, if_pos hpos, Int.toNat_natCast]
  show Option.map _ (some (copy _ _ _ 0 (fs.flushedBytes c).length)) = _
  rw [length_flushedBytes h]
  rfl

theorem readLE_flushed (hnarrow : fs.Narrow) {i : Nat}
    (hci : c ≤ i) (hi : i < c + 256) (hlen : i < fs.fFat.length) :
    readLE (copy fs.device (fs.fatStart + 2 * c) (ofList 0 (fs.flushedBytes c)) 0 512) (fs.fatStart + 2 * i) 2 =
      fs.fFat[i] := by
  have hoff : 0 + (fs.fatStart + 2 * i - (fs.fatStart + 2 * c)) = 0 + 2 * (i - c) := by omega
  have hj : i - c < ((fs.fFat.drop c).take (kBlockSize / 2)).length := by
    rw [length_take, length_drop, kBlockSize]
    omega
  have hbytes : ∀ entry ∈ (fs.fFat.drop c).take (kBlockSize / 2), entry < 256 ^ 2 := fun entry hmem =>
    hnarrow entry (mem_of_mem_drop (mem_of_mem_take hmem))
  rw [readLE_copy_inside _ _ 0 (by omega) (by omega), hoff,
    readLE_of_holds_flatMap (holds_ofList 0 (fs.flushedBytes c)) hbytes hj, getElem_take, getElem_drop]
  congr 1
  omega

/-- **One flush** brings the first copy up to date with one changed entry, and changes nothing outside the copy. -/
theorem flushFat_setFat (hsynced : fs.Synced) (hnarrow : fs.Narrow) (h : fs.Flushes c)
    (value : Nat) :
    ∃ device, (fs.setFat c value).flushFat c = some { fs.setFat c value with device } ∧
      ({ fs.setFat c value with device } : FatFileSystem).Synced ∧ (fs.setFat c value).Narrow ∧
      ∀ a, a < fs.fatStart ∨ fs.fatStart + 2 * fs.fFat.length ≤ a → device a = fs.device a := by
  have hlen : (fs.setFat c value).fFat.length = fs.fFat.length := length_set
  have hflush : (fs.setFat c value).Flushes c := ⟨by rw [hlen]; exact h.1, h.2⟩
  have hnarrow' : (fs.setFat c value).Narrow := by
    intro entry hmem
    rcases mem_or_eq_of_mem_set hmem with hold | rfl
    · exact hnarrow entry hold
    · exact Nat.mod_lt _ (by decide)
  have hbound := h.1
  unfold kBlockSize at hbound
  refine ⟨_, flushFat_eq hflush, fun i hi => ?_, hnarrow', fun a ha => ?_⟩
  · by_cases hin : c ≤ i ∧ i < c + 256
    · exact readLE_flushed hnarrow' hin.1 hin.2 hi
    · have hne : c ≠ i := by omega
      have hi' : i < fs.fFat.length := by rw [← hlen]; exact hi
      have hsame : (fs.setFat c value).fFat[i] = fs.fFat[i] := getElem_set_ne hne _
      have hout : Set.EqOn (copy fs.device ((fs.setFat c value).fatStart + 2 * c)
          (ofList 0 ((fs.setFat c value).flushedBytes c)) 0 512) fs.device
          (Set.Ico (fs.fatStart + 2 * i) (fs.fatStart + 2 * i + 2)) := by
        intro x hx
        have hstart : (fs.setFat c value).fatStart = fs.fatStart := rfl
        rw [Set.mem_Ico] at hx
        exact copy_outside _ _ 0 (by omega)
      rw [hsame, ← hsynced i hi']
      exact readLE_congr hout
  · have hstart : (fs.setFat c value).fatStart = fs.fatStart := rfl
    exact copy_outside _ _ 0 (by omega)

/-! ## The calls -/

/-- `fs'` is `fs` with another table of the same size, which is on the device, where nothing outside the first copy
has changed. -/
structure WriteThrough (fs fs' : FatFileSystem) : Prop where
  super : fs'.fSuperBlock = fs.fSuperBlock
  part : fs'.fPartStartSector = fs.fPartStartSector
  length : fs'.fFat.length = fs.fFat.length
  synced : fs'.Synced
  narrow : fs'.Narrow
  frame : ∀ a, a < fs.fatStart ∨ fs.fatStart + 2 * fs.fFat.length ≤ a → fs'.device a = fs.device a

theorem WriteThrough.fatStart (h : fs.WriteThrough fs') : fs'.fatStart = fs.fatStart := by
  rw [FatFileSystem.fatStart, FatFileSystem.fatStart, h.super, h.part]

theorem WriteThrough.refl (hsynced : fs.Synced) (hnarrow : fs.Narrow) : fs.WriteThrough fs :=
  ⟨rfl, rfl, rfl, hsynced, hnarrow, fun _ _ => rfl⟩

theorem WriteThrough.trans {fs'' : FatFileSystem} (h : fs.WriteThrough fs') (h' : fs'.WriteThrough fs'') :
    fs.WriteThrough fs'' where
  super := h'.super.trans h.super
  part := h'.part.trans h.part
  length := h'.length.trans h.length
  synced := h'.synced
  narrow := h'.narrow
  frame := fun a ha => (h'.frame a (by rw [h.fatStart, h.length]; exact ha)).trans (h.frame a ha)

theorem WriteThrough.flushes (h : fs.WriteThrough fs') (hc : fs.Flushes c) :
    fs'.Flushes c := by
  rw [Flushes, h.length, h.fatStart]
  exact hc

theorem flushFat_spec (hsynced : fs.Synced) (hnarrow : fs.Narrow) (h : fs.Flushes c)
    (value : Nat) : ∃ fs', (fs.setFat c value).flushFat c = some fs' ∧ fs.WriteThrough fs' ∧
      fs'.fFat = (fs.setFat c value).fFat := by
  obtain ⟨device, hflush, hsynced', hnarrow', hframe⟩ := flushFat_setFat hsynced hnarrow h value
  exact ⟨_, hflush, ⟨rfl, rfl, length_set, hsynced', hnarrow', hframe⟩, rfl⟩

theorem freeCluster?_spec (h : fs.freeCluster? = some c) :
    ∃ hc : c < fs.fFat.length, fs.fFat[c] = kFreeCluster := by
  obtain ⟨hc, hfree, -⟩ := List.findIdx?_eq_some_iff_getElem.1 h
  exact ⟨hc, by simpa using hfree⟩

theorem allocateCluster_spec (hsynced : fs.Synced) (hnarrow : fs.Narrow)
    (hfree : fs.freeCluster? = some c) (h : fs.Flushes c) :
    ∃ fs', fs.allocateCluster = some (fs', c) ∧ fs.WriteThrough fs' ∧
      fs'.fFat = (fs.setFat c kClusterChainDelimiter).fFat := by
  obtain ⟨fs', hflush, hwrite, hfat⟩ := flushFat_spec hsynced hnarrow h kClusterChainDelimiter
  exact ⟨fs', by rw [allocateCluster, hfree]; simp only [hflush, map_some], hwrite, hfat⟩

theorem freeCluster_spec (hsynced : fs.Synced) (hnarrow : fs.Narrow) (h : fs.Flushes c) :
    ∃ fs', fs.freeCluster c = some fs' ∧ fs.WriteThrough fs' := by
  obtain ⟨fs', hflush, hwrite, -⟩ := flushFat_spec hsynced hnarrow h kFreeCluster
  have hlt := h.1
  unfold kBlockSize at hlt
  exact ⟨fs', by rw [freeCluster, if_pos (by omega), hflush], hwrite⟩

/-- The block is one at which `GetNextBlock` looks into the table. -/
def Looks (fs : FatFileSystem) (lba : Nat) : Prop :=
  lba ≠ sub32 fs.fDataStart 1 ∧ fs.fDataStart ≤ lba ∧ lba % fs.fSuperBlock.sectorsPerCluster = 0
  deriving Decidable

theorem getNextBlock_of_not_looks (h : ¬ fs.Looks lba) (extend : Bool) :
    ∃ r, fs.getNextBlock lba extend = some (fs, r) := by
  unfold getNextBlock
  split
  · exact ⟨_, rfl⟩
  · rename_i h1
    split
    · exact ⟨_, rfl⟩
    · rename_i h2
      split
      · exact ⟨_, rfl⟩
      · rename_i h3
        exact absurd ⟨h1, Nat.le_of_not_lt h2, by simpa using h3⟩ h

theorem getNextBlock_of_looks (h : fs.Looks lba) (extend : Bool) :
    fs.getNextBlock lba extend =
      match fs.fFat[fs.lbaToCluster lba]? with
      | none => none
      | some nextCluster =>
        if nextCluster ≥ kClusterChainDelimiter then
          if extend then do
            let (fs', nextCluster) ← fs.allocateCluster
            let fs' ← (fs'.setFat (fs.lbaToCluster lba) nextCluster).flushFat (fs.lbaToCluster lba)
            return (fs', fs.clusterToLba nextCluster)
          else some (fs, kEndOfFile)
        else some (fs, fs.clusterToLba nextCluster) := by
  obtain ⟨h1, h2, h3⟩ := h
  rw [getNextBlock, if_neg h1, if_neg (Nat.not_lt.2 h2), if_neg (by simpa using h3)]

def withDevice (fs : FatFileSystem) (device : Memory) : FatFileSystem := { fs with device }

theorem flushFat_withDevice (h : fs.Flushes c) :
    ∃ device, fs.flushFat c = some (fs.withDevice device) := ⟨_, flushFat_eq h⟩

theorem flushes_setFat (h : fs.Flushes c) (i value : Nat) :
    (fs.setFat i value).Flushes c := by
  have hlen : (fs.setFat i value).fFat.length = fs.fFat.length := length_set
  exact ⟨by rw [hlen]; exact h.1, h.2⟩

variable {next : Nat}

theorem getNextBlock_extend_fFat (hlooks : fs.Looks lba)
    (hnext : fs.fFat[fs.lbaToCluster lba]? = some next) (hend : kClusterChainDelimiter ≤ next)
    (hflush : fs.Flushes (fs.lbaToCluster lba)) (hfree : fs.freeCluster? = some c) (hc : fs.Flushes c) :
    ∃ device, fs.getNextBlock lba true = some
      (((fs.setFat c kClusterChainDelimiter).setFat (fs.lbaToCluster lba) c).withDevice device, fs.clusterToLba c) := by
  obtain ⟨device₁, hflush₁⟩ := flushFat_withDevice (flushes_setFat hc c kClusterChainDelimiter)
  have hset : ((fs.setFat c kClusterChainDelimiter).withDevice device₁).Flushes (fs.lbaToCluster lba) :=
    flushes_setFat hflush c kClusterChainDelimiter
  obtain ⟨device₂, hflush₂⟩ := flushFat_withDevice (flushes_setFat hset (fs.lbaToCluster lba) c)
  refine ⟨device₂, ?_⟩
  rw [getNextBlock_of_looks hlooks, hnext]
  dsimp only
  rw [if_pos hend, if_pos rfl, allocateCluster, hfree]
  simp only [hflush₁, map_some, bind_eq_bind, bind_some, hflush₂]
  rfl

theorem getNextBlock_extend (hsynced : fs.Synced) (hnarrow : fs.Narrow)
    (hlooks : fs.Looks lba) (hnext : fs.fFat[fs.lbaToCluster lba]? = some next)
    (hend : kClusterChainDelimiter ≤ next) (hflush : fs.Flushes (fs.lbaToCluster lba))
    (hfree : fs.freeCluster? = some c) (hc : fs.Flushes c) :
    ∃ fs', fs.getNextBlock lba true = some (fs', fs.clusterToLba c) ∧ fs.WriteThrough fs' ∧
      fs'.fFat = (fs.fFat.set c kClusterChainDelimiter).set (fs.lbaToCluster lba) (c % 2 ^ 16) := by
  obtain ⟨fs₁, halloc, hwrite₁, hfat₁⟩ := allocateCluster_spec hsynced hnarrow hfree hc
  obtain ⟨fs₂, hset, hwrite₂, hfat₂⟩ := flushFat_spec hwrite₁.synced hwrite₁.narrow (hwrite₁.flushes hflush) c
  refine ⟨fs₂, ?_, hwrite₁.trans hwrite₂, ?_⟩
  · rw [getNextBlock_of_looks hlooks, hnext]
    dsimp only
    rw [if_pos hend, if_pos rfl, halloc]
    simp only [bind_eq_bind, bind_some, hset]
    rfl
  · rw [hfat₂, setFat, hfat₁]
    rfl

/-! ## Runs -/

inductive Call where
  | allocate
  | free (cluster : Nat)
  | next (lba : Nat)
deriving DecidableEq

/-- A call and what it returns; `FreeCluster` returns nothing. -/
def call (fs : FatFileSystem) : Call → Option (FatFileSystem × Nat)
  | .allocate => fs.allocateCluster
  | .free cluster => (fs.freeCluster cluster).map fun fs => (fs, 0)
  | .next lba => fs.getNextBlock lba true

/-- The calls on a file system, starting from `fs`. -/
def calls (fs : FatFileSystem) : StepSystem FatFileSystem Call where
  init s := s = fs
  step s c := (s.call c).map Prod.fst

/-- The chain that the call has to extend ends at a cluster whose entry it can flush, and there is a free cluster. -/
def Extends (fs : FatFileSystem) (cluster : Nat) : Prop :=
  fs.Flushes cluster ∧ fs.freeCluster?.any (fun c => decide (fs.Flushes c)) = true
  deriving Decidable

/-- **The condition on a call**: what it reads of the table, to look up and to flush, is in the table, and a chain
that has to be extended can be. -/
def InBounds (fs : FatFileSystem) : Call → Prop
  | .allocate => fs.freeCluster?.all (fun c => decide (fs.Flushes c)) = true
  | .free cluster => fs.Flushes cluster
  | .next lba => fs.Looks lba → fs.fFat[fs.lbaToCluster lba]?.any
      (fun next => decide (kClusterChainDelimiter ≤ next → fs.Extends (fs.lbaToCluster lba))) = true

instance (fs : FatFileSystem) : (c : Call) → Decidable (fs.InBounds c)
  | .allocate => inferInstanceAs (Decidable (_ = true))
  | .free cluster => inferInstanceAs (Decidable (fs.Flushes cluster))
  | .next _ => inferInstanceAs (Decidable (_ → _ = true))

/-- One call: it returns, the device follows the table, and without a free cluster the table stays as it is, and
`AllocateCluster` reports the end of file. -/
theorem call_spec (hsynced : fs.Synced) (hnarrow : fs.Narrow) {c : Call} (h : fs.InBounds c) :
    ∃ fs' r, fs.call c = some (fs', r) ∧ fs.WriteThrough fs' ∧
      (fs.freeCluster? = none → (∀ cluster, c ≠ .free cluster) → fs'.fFat = fs.fFat ∧
        (c = .allocate → r = kEndOfFile)) := by
  cases c with
  | allocate =>
    rcases hfree : fs.freeCluster? with _ | cluster
    · refine ⟨fs, kEndOfFile, ?_, .refl hsynced hnarrow, fun _ _ => ⟨rfl, fun _ => rfl⟩⟩
      rw [call, allocateCluster, hfree]
    · have hc : fs.Flushes cluster := by
        rw [InBounds, hfree] at h
        simpa using h
      obtain ⟨fs', halloc, hwrite, -⟩ := allocateCluster_spec hsynced hnarrow hfree hc
      exact ⟨fs', cluster, halloc, hwrite, fun hnone => by cases hnone⟩
  | free cluster =>
    obtain ⟨fs', hfree, hwrite⟩ := freeCluster_spec hsynced hnarrow h
    refine ⟨fs', 0, ?_, hwrite, fun _ hne => absurd rfl (hne cluster)⟩
    rw [call, hfree, map_some]
  | next lba =>
    by_cases hlooks : fs.Looks lba
    · have hbound := h hlooks
      rcases hnext : fs.fFat[fs.lbaToCluster lba]? with _ | next
      · rw [hnext] at hbound
        cases hbound
      · rw [hnext, any_some, decide_eq_true_eq] at hbound
        by_cases hend : kClusterChainDelimiter ≤ next
        · obtain ⟨hflush, hany⟩ := hbound hend
          rcases hfree : fs.freeCluster? with _ | cluster
          · rw [hfree] at hany
            cases hany
          · rw [hfree, any_some, decide_eq_true_eq] at hany
            obtain ⟨fs', hget, hwrite, -⟩ := getNextBlock_extend hsynced hnarrow hlooks hnext hend hflush hfree hany
            exact ⟨fs', _, hget, hwrite, fun hnone => by cases hnone⟩
        · refine ⟨fs, fs.clusterToLba next, ?_, .refl hsynced hnarrow, fun _ _ => ⟨rfl, fun hc => by cases hc⟩⟩
          rw [call, getNextBlock_of_looks hlooks, hnext]
          dsimp only
          rw [if_neg hend]
    · obtain ⟨r, hget⟩ := getNextBlock_of_not_looks hlooks true
      exact ⟨fs, r, hget, .refl hsynced hnarrow, fun _ _ => ⟨rfl, fun hc => by cases hc⟩⟩

/-- **The first copy follows the table.** In a run whose calls are all in bounds, after each call the first copy on
the device is the table, nothing else on the device has changed, and the next call that is in bounds reads nothing
outside the table. -/
theorem writeThrough_run {fs : FatFileSystem} (hsynced : fs.Synced) (hnarrow : fs.Narrow) {fs' : FatFileSystem}
    (hrun : fs.calls.ReachVia InBounds fs') :
    fs.WriteThrough fs' ∧ ∀ c, fs'.InBounds c → ∃ fs'' r, fs'.call c = some (fs'', r) ∧ fs'.WriteThrough fs'' ∧
      (fs'.freeCluster? = none → (∀ cluster, c ≠ .free cluster) → fs''.fFat = fs'.fFat ∧
        (c = .allocate → r = kEndOfFile)) := by
  have hwrite : fs.WriteThrough fs' := by
    refine hrun.invariant fs.WriteThrough ?_ ?_
    · rintro s rfl
      exact .refl hsynced hnarrow
    · intro s c s' hs hP hstep
      obtain ⟨s'', r, hcall, hwrite, -⟩ := call_spec hs.synced hs.narrow hP
      have hsame : s'' = s' := by
        have h : (s.call c).map Prod.fst = some s' := hstep
        rw [hcall] at h
        exact Option.some.inj h
      exact hs.trans (hsame ▸ hwrite)
  exact ⟨hwrite, fun c hc => call_spec hwrite.synced hwrite.narrow hc⟩

/-- A volume with one reserved sector behind the partition sector, two copies of a table, and its first copy. -/
def volume (sectorsPerFat : Nat) (fFat : List Nat) : FatFileSystem where
  fSuperBlock := ⟨1, 1, 2, 16, sectorsPerFat⟩
  fPartStartSector := 1
  fFat := fFat
  device := ofList 1024 (fFat.flatMap fun entry => leBytes entry 2)

theorem synced_volume (sectorsPerFat : Nat) {fFat : List Nat} (h : ∀ entry ∈ fFat, entry < 2 ^ 16) :
    (volume sectorsPerFat fFat).Synced := by
  intro c hc
  have hstart : (volume sectorsPerFat fFat).fatStart = 1024 := by simp [fatStart, volume, kBlockSize]
  rw [hstart]
  exact readLE_of_holds_flatMap (holds_ofList 1024 _) h hc

def smallFat : List Nat := [0xfff8, 0xffff, 0xfff8] ++ List.replicate 509 0

theorem narrow_smallFat : ∀ entry ∈ smallFat, entry < 2 ^ 16 := by
  intro entry hmem
  rcases mem_append.1 hmem with h | h
  · clear hmem
    revert entry
    decide
  · rw [eq_of_mem_replicate h]
    decide

/-- An allocation, the file extended by a cluster, and the allocated cluster freed. -/
theorem writeThrough_smallFat :
    ∃ fs, (volume 2 smallFat).calls.exec (volume 2 smallFat) [.allocate, .next 7, .free 3] = some fs ∧
      fs.fFat.take 6 = [0xfff8, 0xffff, 4, 0, 0xfff8, 0] ∧ (volume 2 smallFat).WriteThrough fs := by
  have hrun : ((volume 2 smallFat).calls.exec (volume 2 smallFat) [.allocate, .next 7, .free 3]).map
      (fun fs => decide (fs.fFat.take 6 = [0xfff8, 0xffff, 4, 0, 0xfff8, 0])) = some true := by decide +kernel
  obtain ⟨fs, hfs, hfat⟩ := Option.map_eq_some_iff.1 hrun
  have hmeets : (volume 2 smallFat).calls.Meets InBounds (volume 2 smallFat) [.allocate, .next 7, .free 3] := by
    decide +kernel
  have hreach := StepSystem.reachVia_exec _ (.init rfl) hmeets hfs
  exact ⟨fs, hfs, of_decide_eq_true hfat,
    (writeThrough_run (synced_volume 2 narrow_smallFat) narrow_smallFat hreach).1⟩

/-- In a table of one sector every flush but that of entry 0 reads behind the table; in a full table an extended file
gets a block of no cluster, and its end marker is overwritten. -/
theorem writeThrough_fails :
    ((volume 1 ([0xfff8, 0xffff] ++ List.replicate 254 0)).call .allocate).isNone = true ∧
      ((volume 2 ([0xfff8, 0xffff, 0xfff8] ++ List.replicate 509 0xffff)).call (.next 7)).any
        (fun result => decide (result.2 ≠ kEndOfFile ∧ result.1.fFat[2]? = some 0xffff)) = true := by
  decide +kernel

end FatFileSystem

end Fat
