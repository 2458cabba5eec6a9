import Mathlib.Data.List.Perm.Subperm
import SkyOS.Fat.FatNode
import SkyOS.Vfs.MountedTree

/-!
# The FAT16 file system: `FatNode::Lookup` (`driver/FAT.cpp`)

A directory is a file of entries of 32 bytes. `Lookup` reads its blocks one after the other, until one of the entries
has the name or there is no further block. An entry that is not used does not end the directory.

| here | there |
| --- | --- |
| `entryAt` | a `FatDirEntry` in a buffer, or on the device |
| `Found` | `*outNode` |
| `Dir` | the root directory, or a directory with its clusters |
| `sectors` | the blocks of a directory |
| `visited` | those of them that `LookupBlock` comes to |
| `slots` | where the entries of some blocks are on the device |
-/

namespace Fat

open Machine Bytes LinkChain Vfs List

/-! ## The source -/

/-- The `FatDirEntry` (:80) at an address. -/
def entryAt (m : Memory) (a : Nat) : FatDirEntry where
  filename := slice m a 8
  extension := slice m (a + 8) 3
  flags := m (a + 11)
  startCluster := readLE m (a + 26) 2
  fileLength := readLE m (a + 28) 4

def blockEntries (data : List UInt8) : List FatDirEntry :=
  (List.range kDirEntriesPerBlock).map fun i => entryAt (ofList 0 data) (32 * i)

/-- `*outNode`: the node itself, or a new one. -/
inductive Found where
  | this
  | made (node : FatNode) (fFlags : UInt8)
deriving DecidableEq

/-- The entry that `Lookup` (:349) stops at. -/
def isNamed (name : List UInt8) (entry : FatDirEntry) : Bool := entry.used ∧ entry.getFilename = name

namespace FatNode

/-- The loop of `Lookup` (:343) from block `k` on, of at most `rounds` blocks. -/
def lookupLoop (name : List UInt8) :
    Nat → FatFileSystem → FatNode → Nat → Option (FatFileSystem × FatNode × Option FatDirEntry)
  | 0, _, _, _ => none
  | rounds + 1, fs, node, k =>
    match node.readBlock fs (u32 (k * kBlockSize)) with
    | none => none
    | some (fs, node, none) => some (fs, node, none)
    | some (fs, node, some data) =>
      match (blockEntries data).find? (isNamed name) with
      | some entry => some (fs, node, some entry)
      | none => lookupLoop name rounds fs node (k + 1)

/-- The node for an entry (:356). -/
def made (fs : FatFileSystem) (entry : FatDirEntry) : Found :=
  .made (new (fs.clusterToLba entry.startCluster) entry.fileLength) entry.flags

/-- `Lookup` (:329). -/
def lookup (rounds : Nat) (fs : FatFileSystem) (node : FatNode) (fFlags : UInt8) (name : List UInt8) :
    Option (FatFileSystem × FatNode × Option Found) :=
  if fFlags &&& kAttrDirectory = 0 then some (fs, node, none)
  else if name = [0x2e] then some (fs, node, some .this)
  else (node.lookupLoop name rounds fs 0).map fun r => (r.1, r.2.1, r.2.2.map (made r.1))

/-- `Lookup` returns, with this result. -/
def LooksUp (fs : FatFileSystem) (node : FatNode) (fFlags : UInt8) (name : List UInt8) (result : Option Found) : Prop :=
  ∃ rounds fs' node', node.lookup rounds fs fFlags name = some (fs', node', result)

def hinted (node : FatNode) (offset lba : Nat) : FatNode := { node with fHintOffset := offset, fHintLba := lba }

end FatNode

namespace FatFileSystem

/-! ## Directories -/

/-- The root directory, or the clusters of another one. -/
inductive Dir where
  | root
  | clusters (cs : List Nat)
deriving DecidableEq

/-- How many sectors of a cluster are visited: up to the first one whose number the cluster size divides. -/
def stride (fs : FatFileSystem) : Nat :=
  (fs.fSuperBlock.sectorsPerCluster - fs.fDataStart % fs.fSuperBlock.sectorsPerCluster) %
    fs.fSuperBlock.sectorsPerCluster + 1

def rootSectors (fs : FatFileSystem) : List Nat :=
  List.range' fs.fRootDirStart (fs.fSuperBlock.rootDirEntries / kDirEntriesPerBlock)

/-- The first `n` sectors of each cluster. -/
def clusterSectors (fs : FatFileSystem) (n : Nat) (cs : List Nat) : List Nat :=
  cs.flatMap fun c => List.range' (fs.clusterToLba c) n

def sectors (fs : FatFileSystem) : Dir → List Nat
  | .root => fs.rootSectors
  | .clusters cs => fs.clusterSectors fs.fSuperBlock.sectorsPerCluster cs

/-- The blocks that `LookupBlock` comes to. -/
def visited (fs : FatFileSystem) : Dir → List Nat
  | .root => fs.rootSectors
  | .clusters cs => fs.clusterSectors fs.stride cs

def BeginsAt (fs : FatFileSystem) (startLba : Nat) : Dir → Prop
  | .root => startLba = fs.fRootDirStart
  | .clusters cs => ∃ start, fs.FileChain start cs ∧ startLba = fs.clusterToLba start

/-- The node of a directory all of whose blocks can be read: their positions are those of an `off_t`. A hint at the
beginning is the first block. -/
structure DirNode (fs : FatFileSystem) (dir : Dir) (node : FatNode) : Prop where
  begins : fs.BeginsAt node.fStartLba dir
  hint : node.fHintOffset = 0 → node.fHintLba = node.fStartLba
  reached : ∀ lba ∈ fs.sectors dir, lba < 2 ^ 22

end FatFileSystem

def slots (lbas : List Nat) : List Nat :=
  lbas.flatMap fun lba => (List.range kDirEntriesPerBlock).map fun i => kBlockSize * lba + 32 * i

/-! ## Entries -/

theorem entryAt_shift {m m' : Memory} {a b : Nat} (h : ∀ j < 32, m' (b + j) = m (a + j)) : entryAt m' b = entryAt m a := by
  have hat : ∀ i n, i + n ≤ 32 → ∀ j < n, m' (b + i + j) = m (a + i + j) := by
    intro i n hin j hj
    rw [Nat.add_assoc b, Nat.add_assoc a]
    exact h (i + j) (by omega)
  rw [entryAt, entryAt, h 11 (by omega), slice_shift (fun j hj => h j (by omega)), slice_shift (hat 8 3 (by omega)),
    readLE_shift (hat 26 2 (by omega)), readLE_shift (hat 28 4 (by omega))]

theorem blockEntries_slice (m : Memory) (lba : Nat) :
    blockEntries (slice m (kBlockSize * lba) kBlockSize) = (slots [lba]).map (entryAt m) := by
  rw [blockEntries, slots, flatMap_singleton, map_map]
  refine map_congr_left fun i hi => ?_
  have hi' : i < kDirEntriesPerBlock := mem_range.1 hi
  refine entryAt_shift fun j hj => ?_
  unfold kDirEntriesPerBlock kBlockSize at hi'
  rw [ofList_slice m (by unfold kBlockSize; omega), Nat.add_assoc]

variable {lbas : List Nat} {lba : Nat}

variable {s : Nat}

theorem mem_slots :
    s ∈ slots lbas ↔ ∃ lba ∈ lbas, ∃ i < 16, s = kBlockSize * lba + 32 * i := by
  simp [slots, kDirEntriesPerBlock, kBlockSize, eq_comm]

theorem slots_append (lbas lbas' : List Nat) : slots (lbas ++ lbas') = slots lbas ++ slots lbas' := flatMap_append

theorem slots_cons (lba : Nat) (lbas : List Nat) : slots (lba :: lbas) = slots [lba] ++ slots lbas :=
  slots_append [lba] lbas

/-! ## Walks -/

namespace FatFileSystem

variable {fs : FatFileSystem}

/-- Where `GetNextBlock` goes without `extend`. -/
def nextBlock (fs : FatFileSystem) (lba : Nat) : Nat := ((fs.getNextBlock lba false).map Prod.snd).getD kEndOfFile

/-- The blocks that `GetNextBlock` goes through from `start` on, with `extend` as far as the chain has them. -/
structure Walked (fs : FatFileSystem) (start : Nat) (lbas : List Nat) : Prop where
  chain : Chain fs.nextBlock kEndOfFile start lbas
  nonempty : lbas ≠ []
  step : ∀ lba ∈ lbas, fs.getNextBlock lba false = some (fs, fs.nextBlock lba)
  extend : ∀ lba ∈ lbas, fs.nextBlock lba ≠ kEndOfFile → fs.getNextBlock lba true = some (fs, fs.nextBlock lba)
  reached : ∀ lba ∈ lbas, lba < 2 ^ 22

theorem nextBlock_eq {next : Nat} (h : fs.getNextBlock lba false = some (fs, next)) : fs.nextBlock lba = next := by
  rw [nextBlock, h]
  rfl

theorem Walked.length_le {start : Nat} (h : fs.Walked start lbas) : lbas.length ≤ 2 ^ 22 := by
  have hsub : lbas ⊆ List.range (2 ^ 22) := fun lba hmem => mem_range.2 (h.reached lba hmem)
  have hle := (h.chain.nodup.subperm hsub).length_le
  rwa [length_range] at hle

section

variable (hdata : fs.fDataStart = fs.fRootDirStart + fs.fSuperBlock.rootDirEntries / kDirEntriesPerBlock)
    (hlt : fs.fDataStart < 2 ^ 22)
include hdata hlt

theorem getNextBlock_root (h : lba ∈ fs.rootSectors) (extend : Bool) :
    fs.getNextBlock lba extend = some (fs, if lba + 1 = fs.fDataStart then kEndOfFile else lba + 1) := by
  rw [rootSectors, mem_range'_1] at h
  by_cases hlast : lba + 1 = fs.fDataStart
  · rw [if_pos hlast, getNextBlock, if_pos (by rw [sub32_of_le (by omega) (by omega)]; omega)]
  · rw [if_neg hlast, getNextBlock, if_neg (by rw [sub32_of_le (by omega) (by omega)]; omega), if_pos (by omega),
      u32_of_lt (by omega)]

theorem walked_root (hpos : 16 ≤ fs.fSuperBlock.rootDirEntries) :
    fs.Walked fs.fRootDirStart fs.rootSectors := by
  have hcount : 0 < fs.fSuperBlock.rootDirEntries / kDirEntriesPerBlock := Nat.div_pos hpos (by decide)
  have hnext : ∀ lba ∈ fs.rootSectors, fs.nextBlock lba = if lba + 1 = fs.fDataStart then kEndOfFile else lba + 1 :=
    fun lba h => nextBlock_eq (getNextBlock_root hdata hlt h false)
  refine ⟨?_, ?_, fun lba h => ?_, fun lba h _ => ?_, fun lba h => ?_⟩
  · have hend : Chain fs.nextBlock kEndOfFile kEndOfFile [] := rfl
    rw [rootSectors, ← append_nil (List.range' _ _)]
    refine chain_range' hcount (fun x hx hx' => ?_) (fun x _ hx => ?_) ?_ hend
    · rw [hnext x (mem_range'_1.2 ⟨hx, by omega⟩), if_neg (by omega)]
    · unfold kEndOfFile
      omega
    · rw [hnext _ (mem_range'_1.2 ⟨by omega, by omega⟩), if_pos (by omega)]
  · intro hnil
    rw [rootSectors, List.range'_eq_nil_iff] at hnil
    omega
  · rw [hnext lba h]
    exact getNextBlock_root hdata hlt h false
  · rw [hnext lba h]
    exact getNextBlock_root hdata hlt h true
  · rw [rootSectors, mem_range'_1] at h
    omega

end

theorem stride_spec (hspc : 0 < fs.fSuperBlock.sectorsPerCluster) :
    fs.stride ≤ fs.fSuperBlock.sectorsPerCluster ∧
      (fs.fDataStart + (fs.stride - 1)) % fs.fSuperBlock.sectorsPerCluster = 0 ∧
      ∀ i, i + 1 < fs.stride → (fs.fDataStart + i) % fs.fSuperBlock.sectorsPerCluster ≠ 0 := by
  have hr := Nat.mod_lt fs.fDataStart hspc
  have hmod : ∀ i, (fs.fDataStart + i) % fs.fSuperBlock.sectorsPerCluster =
      (fs.fDataStart % fs.fSuperBlock.sectorsPerCluster + i) % fs.fSuperBlock.sectorsPerCluster := fun i =>
    (Nat.mod_add_mod _ _ _).symm
  simp only [hmod]
  unfold stride
  generalize fs.fDataStart % fs.fSuperBlock.sectorsPerCluster = r at *
  generalize fs.fSuperBlock.sectorsPerCluster = spc at *
  rcases Nat.eq_zero_or_pos r with rfl | hpos
  · rw [Nat.sub_zero, Nat.mod_self]
    exact ⟨by omega, by simp, fun i hi => by omega⟩
  · rw [Nat.mod_eq_of_lt (by omega : spc - r < spc)]
    refine ⟨by omega, ?_, fun i hi => ?_⟩
    · have hsum : r + (spc - r + 1 - 1) = spc := by omega
      rw [hsum, Nat.mod_self]
    · rw [Nat.mod_eq_of_lt (by omega)]
      omega

def entrance (fs : FatFileSystem) : List Nat → Nat
  | [] => kEndOfFile
  | c :: _ => fs.clusterToLba c

section Clusters

variable (hspc : 0 < fs.fSuperBlock.sectorsPerCluster) {start : Nat} {cs : List Nat}
include hspc

theorem getNextBlock_visited {c : Nat} (hc : fs.Usable c)
    (h : lba ∈ List.range' (fs.clusterToLba c) fs.stride) :
    fs.getNextBlock lba false = some (fs, fs.nextBlock lba) ∧
      (fs.nextBlock lba ≠ kEndOfFile → fs.getNextBlock lba true = some (fs, fs.nextBlock lba)) := by
  obtain ⟨hle, hlast, hinside⟩ := stride_spec hspc
  rw [mem_range'_1] at h
  obtain ⟨i, rfl⟩ := Nat.exists_eq_add_of_le h.1
  by_cases hlooks : fs.Looks (fs.clusterToLba c + i)
  · obtain ⟨hfalse, htrue⟩ := getNextBlock_looks hspc hc (by omega) hlooks
    rw [nextBlock_eq hfalse]
    refine ⟨hfalse, fun hne => ?_⟩
    by_cases hend : kClusterChainDelimiter ≤ fs.fFat.getD c 0
    · exact absurd (if_pos hend) hne
    · rw [if_neg hend]
      exact htrue hend
  · have hstep := getNextBlock_inside hc (by omega) hlooks
    rw [nextBlock_eq (hstep false)]
    exact ⟨hstep false, fun _ => hstep true⟩

theorem chain_visited (hchain : Chain fs.link kEndOfFile start cs) (husable : ∀ c ∈ cs, fs.Usable c) :
    Chain fs.nextBlock kEndOfFile (fs.entrance cs) (fs.clusterSectors fs.stride cs) := by
  obtain ⟨hle, hlast, hinside⟩ := stride_spec hspc
  have hstride : 0 < fs.stride := Nat.succ_pos _
  induction cs generalizing start with
  | nil => rfl
  | cons c cs ih =>
    obtain ⟨rfl, -, hrest⟩ := hchain
    have hc := husable start (.head _)
    have hsec := hc.sectors
    have hlba := clusterToLba_eq hc
    have hrec := ih hrest fun x hx => husable x (.tail _ hx)
    show Chain _ _ (fs.clusterToLba start)
      (List.range' (fs.clusterToLba start) fs.stride ++ fs.clusterSectors fs.stride cs)
    refine chain_range' hstride (fun x hx hx' => ?_) (fun x hx hx' => ?_) ?_ hrec
    · obtain ⟨i, rfl⟩ := Nat.exists_eq_add_of_le hx
      have hlooks : ¬ fs.Looks (fs.clusterToLba start + i) := fun hl =>
        hinside i (by omega) ((looks_iff hc (by omega)).1 hl)
      rw [nextBlock_eq (getNextBlock_inside hc (by omega) hlooks false), Nat.add_assoc]
    · unfold kEndOfFile
      omega
    · have hat : fs.clusterToLba start + fs.stride - 1 = fs.clusterToLba start + (fs.stride - 1) := by omega
      have hlooks := (looks_iff hc (by omega)).2 hlast
      rw [hat, nextBlock_eq (getNextBlock_looks hspc hc (by omega) hlooks).1]
      cases cs with
      | nil =>
        have hend : kClusterChainDelimiter ≤ fs.fFat.getD start 0 := by
          by_contra hend
          have hlink : fs.link start = kEndOfFile := hrest
          rw [link, if_neg hend] at hlink
          exact hend (by rw [hlink]; decide)
        rw [if_pos hend]
        rfl
      | cons c' cs =>
        have hlink : fs.link start = c' := hrest.1
        have hc' := (husable c' (by simp)).lt
        have hend : ¬ kClusterChainDelimiter ≤ fs.fFat.getD start 0 := by
          intro hend
          rw [link, if_pos hend] at hlink
          rw [← hlink] at hc'
          exact absurd hc' (by decide)
        rw [if_neg hend, hlink]
        rfl

theorem walked_clusters (h : fs.FileChain start cs) (hreached : ∀ lba ∈ fs.clusterSectors fs.stride cs, lba < 2 ^ 22) :
    fs.Walked (fs.clusterToLba start) (fs.clusterSectors fs.stride cs) := by
  have hchain := chain_visited hspc h.chain h.usable
  obtain ⟨c, cs', rfl⟩ := exists_cons_of_ne_nil h.nonempty
  obtain rfl : c = start := h.chain.head
  have hsteps : ∀ lba ∈ fs.clusterSectors fs.stride (c :: cs'), _ ∧ _ := fun lba hmem => by
    obtain ⟨x, hx, hlba⟩ := mem_flatMap.1 hmem
    exact getNextBlock_visited hspc (h.usable x hx) hlba
  refine ⟨hchain, fun hnil => ?_, fun lba hmem => (hsteps lba hmem).1, fun lba hmem => (hsteps lba hmem).2, hreached⟩
  rw [clusterSectors, flatMap_cons, append_eq_nil_iff, List.range'_eq_nil_iff] at hnil
  exact Nat.succ_ne_zero _ hnil.1

end Clusters

/-! ## Volumes -/

/-- The sizes of a volume: there are clusters and a root directory, and the data area begins where positions are those
of an `off_t`. -/
structure Layout (fs : FatFileSystem) : Prop where
  sectorsPerCluster : 0 < fs.fSuperBlock.sectorsPerCluster ∧ fs.fSuperBlock.sectorsPerCluster < 2 ^ 8
  rootDirEntries : 16 ≤ fs.fSuperBlock.rootDirEntries
  data : fs.fPartStartSector + fs.fSuperBlock.reservedSectors + fs.fSuperBlock.numFats * fs.fSuperBlock.sectorsPerFat +
    fs.fSuperBlock.rootDirEntries / kDirEntriesPerBlock < 2 ^ 22

/-- A volume whose table is whole sectors, with the two entries that no cluster has, and is on the device; the first
sector of the device is not part of it and has the signature. -/
structure WellFormed (fs : FatFileSystem) : Prop extends fs.Layout where
  synced : fs.Synced
  narrow : fs.Narrow
  media : ∃ e₀ e₁ entries, fs.fFat = e₀ :: e₁ :: entries ∧ e₀ ≠ kFreeCluster ∧ e₁ ≠ kFreeCluster
  table : fs.fFat.length = kBlockSize / 2 * fs.fSuperBlock.sectorsPerFat
  clusters : fs.fFat.length ≤ 2 ^ 16
  numFats : 1 ≤ fs.fSuperBlock.numFats
  boot : 1 ≤ fs.fPartStartSector + fs.fSuperBlock.reservedSectors
  signature : fs.device 510 = 0x55 ∧ fs.device 511 = 0xaa

section Volumes

variable {fs : FatFileSystem} {dir : Dir}

variable {fs' : FatFileSystem}

theorem SameVolume.sectors (h : fs.SameVolume fs') (dir : Dir) :
    fs'.sectors dir = fs.sectors dir ∧ fs'.visited dir = fs.visited dir := by
  have hroot : fs'.rootSectors = fs.rootSectors := by
    rw [rootSectors, rootSectors, FatFileSystem.fRootDirStart, FatFileSystem.fRootDirStart, h.super, h.part]
  have hstride : fs'.stride = fs.stride := by rw [stride, stride, h.fDataStart, h.super]
  have hclusters : ∀ n cs, fs'.clusterSectors n cs = fs.clusterSectors n cs := by
    intro n cs
    rw [clusterSectors, clusterSectors]
    congr 1
    funext c
    rw [h.clusterToLba]
  cases dir with
  | root => exact ⟨hroot, hroot⟩
  | clusters cs =>
    refine ⟨?_, ?_⟩
    · rw [FatFileSystem.sectors, FatFileSystem.sectors, hclusters, h.super]
    · rw [FatFileSystem.visited, FatFileSystem.visited, hclusters, hstride]

theorem Layout.fRootDirStart (h : fs.Layout) : fs.fRootDirStart =
    fs.fPartStartSector + fs.fSuperBlock.reservedSectors + fs.fSuperBlock.numFats * fs.fSuperBlock.sectorsPerFat := by
  have hlt := Nat.lt_of_le_of_lt (Nat.le_add_right _ _) h.data
  rw [FatFileSystem.fRootDirStart, u32_of_lt (by omega)]

theorem Layout.fDataStart (h : fs.Layout) :
    fs.fDataStart = fs.fRootDirStart + fs.fSuperBlock.rootDirEntries / kDirEntriesPerBlock := by
  have hdata := h.data
  have hroot := h.fRootDirStart
  rw [FatFileSystem.fDataStart, u32_of_lt (by omega)]

theorem Layout.fRootDirStart_le (h : fs.Layout) : fs.fRootDirStart ≤ fs.fDataStart := by
  rw [h.fDataStart]
  exact Nat.le_add_right _ _

theorem Layout.fDataStart_lt (h : fs.Layout) : fs.fDataStart < 2 ^ 22 := by
  have hdata := h.data
  have hroot := h.fRootDirStart
  rw [h.fDataStart]
  omega

theorem Layout.root_reached (h : fs.Layout) : ∀ lba ∈ fs.sectors .root, lba < 2 ^ 22 := by
  intro lba hmem
  have hlba := (mem_range'_1.1 hmem).2
  rw [← h.fDataStart] at hlba
  exact Nat.lt_trans hlba h.fDataStart_lt

theorem WellFormed.fat_inside (h : fs.WellFormed) :
    512 ≤ fs.fatStart ∧ fs.fatStart + 2 * fs.fFat.length ≤ kBlockSize * fs.fRootDirStart := by
  have hmul := Nat.mul_le_mul_right fs.fSuperBlock.sectorsPerFat h.numFats
  rw [Nat.one_mul] at hmul
  have hboot := h.boot
  have htable := h.table
  rw [h.fRootDirStart]
  unfold fatStart kBlockSize at *
  omega

theorem Layout.of_sameVolume (h : fs.Layout) (hvolume : fs.SameVolume fs') : fs'.Layout := by
  obtain ⟨hspc, hroot, hdata⟩ := h
  constructor <;> rw [hvolume.super]
  · exact hspc
  · exact hroot
  · rwa [hvolume.part]

theorem sectors_ge (h : fs.Layout) {startLba : Nat} (hbegins : fs.BeginsAt startLba dir)
    (hmem : lba ∈ fs.sectors dir) : fs.fRootDirStart ≤ lba := by
  cases dir with
  | root => exact (mem_range'_1.1 hmem).1
  | clusters cs =>
    obtain ⟨start, hchain, -⟩ := hbegins
    obtain ⟨c, hc, hlba⟩ := mem_flatMap.1 hmem
    have hge := (mem_range'_1.1 hlba).1
    have hroot := h.fRootDirStart_le
    rw [clusterToLba_eq (hchain.usable c hc)] at hge
    omega

theorem visited_subset (hspc : 0 < fs.fSuperBlock.sectorsPerCluster) : fs.visited dir ⊆ fs.sectors dir := by
  cases dir with
  | root => exact fun _ hmem => hmem
  | clusters cs =>
    intro lba hmem
    obtain ⟨c, hc, hlba⟩ := mem_flatMap.1 hmem
    refine mem_flatMap.2 ⟨c, hc, ?_⟩
    have hle := (stride_spec hspc).1
    rw [mem_range'_1] at hlba ⊢
    omega

theorem slots_visited (h : fs.Layout) (hs : s ∈ slots (fs.visited dir)) : s ∈ slots (fs.sectors dir) := by
  obtain ⟨lba, hlba, hrest⟩ := mem_slots.1 hs
  exact mem_slots.2 ⟨lba, visited_subset h.sectorsPerCluster.1 hlba, hrest⟩

/-- **The blocks of a directory** that the code goes through. -/
theorem walked_visited (h : fs.Layout) {node : FatNode} (hnode : fs.DirNode dir node) :
    fs.Walked node.fStartLba (fs.visited dir) := by
  have hbegins := hnode.begins
  cases dir with
  | root =>
    have hstart : node.fStartLba = fs.fRootDirStart := hbegins
    rw [hstart]
    exact walked_root h.fDataStart h.fDataStart_lt h.rootDirEntries
  | clusters cs =>
    obtain ⟨start, hchain, hstart⟩ := hbegins
    rw [hstart]
    exact walked_clusters h.sectorsPerCluster.1 hchain fun lba hmem =>
      hnode.reached lba (visited_subset h.sectorsPerCluster.1 hmem)

end Volumes

end FatFileSystem

namespace FatNode

open FatFileSystem

/-! ## Lookups -/

section Lookups

variable {fs : FatFileSystem} {node : FatNode}

theorem lookupBlock_zero (h : node.fHintOffset = 0 → node.fHintLba = node.fStartLba) (extend : Bool) :
    node.lookupBlock fs 0 extend = some (fs, node.hinted 0 node.fStartLba, some node.fStartLba) := by
  unfold lookupBlock rewind
  by_cases hpos : 0 < node.fHintOffset
  · rw [if_pos hpos]
    rfl
  · have hzero : node.fHintOffset = 0 := by omega
    rw [if_neg hpos]
    simp only [Nat.zero_div, walk, hzero, Nat.lt_irrefl, if_false, h hzero]
    rfl

theorem lookupBlock_next {lba next k : Nat} {extend : Bool} (hget : fs.getNextBlock lba extend = some (fs, next))
    (hne : next ≠ kEndOfFile) (hk : kBlockSize * (k + 1) < 2 ^ 32) :
    (node.hinted (kBlockSize * k) lba).lookupBlock fs (kBlockSize * (k + 1)) extend =
      some (fs, node.hinted (kBlockSize * (k + 1)) next, some next) := by
  have hlt : kBlockSize * k < kBlockSize * (k + 1) := by unfold kBlockSize; omega
  have hu : u32 (kBlockSize * k + kBlockSize) = kBlockSize * (k + 1) := by
    rw [u32_of_lt (by unfold kBlockSize at *; omega), Nat.mul_succ]
  unfold lookupBlock rewind
  rw [hinted, if_neg (Nat.not_lt.2 (Nat.le_of_lt hlt))]
  dsimp only
  rw [walk, if_pos hlt, hget]
  dsimp only
  rw [if_neg hne, hu, Nat.mul_div_cancel_left _ (by decide : 0 < kBlockSize), walk, if_neg (Nat.lt_irrefl _)]
  rfl

theorem lookupBlock_end {k : Nat} {extend : Bool} (hget : fs.getNextBlock lba extend = some (fs, kEndOfFile)) :
    (node.hinted (kBlockSize * k) lba).lookupBlock fs (kBlockSize * (k + 1)) extend =
      some (fs, node.hinted (kBlockSize * k) lba, none) := by
  have hlt : kBlockSize * k < kBlockSize * (k + 1) := by unfold kBlockSize; omega
  unfold lookupBlock rewind
  rw [hinted, if_neg (Nat.not_lt.2 (Nat.le_of_lt hlt))]
  dsimp only
  rw [walk, if_pos hlt, hget]
  dsimp only
  rw [if_pos rfl]

theorem position_of_lt (h : lba < 2 ^ 22) :
    toInt32 (u32 (lba * kBlockSize)) = ((kBlockSize * lba : Nat) : Int) := by
  unfold kBlockSize
  rw [u32_of_lt (by omega), toInt32_of_isInt32 (by unfold IsInt32; omega), Nat.mul_comm]

theorem readBlock_of_lookupBlock {offset : Nat} {node' : FatNode} (hlba : lba < 2 ^ 22)
    (h : node.lookupBlock fs offset false = some (fs, node', some lba)) :
    node.readBlock fs offset = some (fs, node', some (slice fs.device (kBlockSize * lba) kBlockSize)) := by
  rw [readBlock, h]
  dsimp only
  rw [position_of_lt hlba, if_pos (Int.natCast_nonneg _), Int.toNat_natCast]

/-- What `Lookup` finds in some blocks. -/
def findIn (fs : FatFileSystem) (lbas : List Nat) (name : List UInt8) : Option FatDirEntry :=
  ((slots lbas).map (entryAt fs.device)).find? (isNamed name)

theorem findIn_cons (lba : Nat) (lbas : List Nat) (name : List UInt8) :
    findIn fs (lba :: lbas) name = (findIn fs [lba] name).or (findIn fs lbas name) := by
  rw [findIn, slots_cons, map_append, List.find?_append, findIn, findIn]

theorem lookupLoop_block {name : List UInt8} {rounds k lba : Nat} {node' : FatNode} (hk : kBlockSize * k < 2 ^ 32)
    (hlba : lba < 2 ^ 22) (h : node.lookupBlock fs (kBlockSize * k) false = some (fs, node', some lba)) :
    node.lookupLoop name (rounds + 1) fs k = match findIn fs [lba] name with
      | some entry => some (fs, node', some entry)
      | none => node'.lookupLoop name rounds fs (k + 1) := by
  have hu : u32 (k * kBlockSize) = kBlockSize * k := by rw [u32_of_lt (by rwa [Nat.mul_comm]), Nat.mul_comm]
  rw [lookupLoop, hu, readBlock_of_lookupBlock hlba h]
  dsimp only
  rw [blockEntries_slice]
  rfl

theorem lookupLoop_rest (name : List UInt8) {rest : List Nat} : ∀ {node : FatNode} {lba k rounds : Nat},
    Chain fs.nextBlock kEndOfFile (fs.nextBlock lba) rest →
    (∀ x ∈ lba :: rest, fs.getNextBlock x false = some (fs, fs.nextBlock x)) → (∀ x ∈ rest, x < 2 ^ 22) →
    kBlockSize * (k + 1 + rest.length) < 2 ^ 32 → rest.length < rounds →
    ∃ node', (node.hinted (kBlockSize * k) lba).lookupLoop name rounds fs (k + 1) =
    some (fs, node', findIn fs rest name) := by
  induction rest with
  | nil =>
    intro node lba k rounds hchain hstep _ hk hrounds
    obtain ⟨rounds, rfl⟩ := Nat.exists_eq_succ_of_ne_zero (Nat.ne_of_gt hrounds)
    have hget := hstep lba (.head _)
    have hend : fs.nextBlock lba = kEndOfFile := hchain
    rw [hend] at hget
    have hu : u32 ((k + 1) * kBlockSize) = kBlockSize * (k + 1) := by
      rw [u32_of_lt (by rw [Nat.mul_comm]; exact hk), Nat.mul_comm]
    refine ⟨node.hinted (kBlockSize * k) lba, ?_⟩
    rw [lookupLoop, hu, readBlock, lookupBlock_end hget]
    rfl
  | cons next rest ih =>
    intro node lba k rounds hchain hstep hreached hk hrounds
    obtain ⟨rounds, rfl⟩ := Nat.exists_eq_succ_of_ne_zero (Nat.ne_of_gt (Nat.zero_lt_of_lt hrounds))
    obtain ⟨hnext, hne, hrest⟩ := hchain
    have hget := hstep lba (.head _)
    rw [hnext] at hget
    rw [length_cons] at hk hrounds
    have hk' : kBlockSize * (k + 1) < 2 ^ 32 := by unfold kBlockSize at *; omega
    rw [lookupLoop_block hk' (hreached next mem_cons_self) (lookupBlock_next hget hne hk'), findIn_cons next rest]
    rcases findIn fs [next] name with _ | entry
    · exact ih hrest (fun x hx => hstep x (.tail _ hx)) (fun x hx => hreached x (.tail _ hx))
        (by rwa [Nat.add_assoc (k + 1), Nat.add_comm 1]) (by omega)
    · exact ⟨_, rfl⟩

/-- **The loop of `Lookup`** returns the first entry with the name. -/
theorem lookupLoop_walked (h : fs.Walked node.fStartLba lbas)
    (hint : node.fHintOffset = 0 → node.fHintLba = node.fStartLba) (name : List UInt8) :
    ∃ rounds node', node.lookupLoop name rounds fs 0 = some (fs, node', findIn fs lbas name) := by
  obtain ⟨lba, rest, rfl⟩ := exists_cons_of_ne_nil h.nonempty
  obtain ⟨hstart, -, hrest⟩ := h.chain
  have hlen := h.length_le
  rw [length_cons] at hlen
  have hfirst := @lookupBlock_zero fs node hint false
  rw [hstart] at hfirst
  have hblock := @lookupLoop_block fs node name (rest.length + 1) 0 lba _ (by decide)
    (h.reached lba (.head _)) hfirst
  obtain ⟨node', hloop⟩ := @lookupLoop_rest fs name rest node lba 0 (rest.length + 1) hrest h.step
    (fun x hx => h.reached x (.tail _ hx)) (by unfold kBlockSize; omega) (by omega)
  refine ⟨rest.length + 2, ?_⟩
  rw [hblock, findIn_cons lba rest]
  rcases findIn fs [lba] name with _ | entry
  · exact ⟨node', hloop⟩
  · exact ⟨_, rfl⟩

variable {name : List UInt8}

theorem lookupLoop_mono {n m : Nat} (hnm : n ≤ m) : ∀ {fs : FatFileSystem} {node : FatNode} {k : Nat}
    {r : FatFileSystem × FatNode × Option FatDirEntry}, node.lookupLoop name n fs k = some r →
    node.lookupLoop name m fs k = some r := by
  induction n generalizing m with
  | zero => intro fs node k r h; cases h
  | succ n ih =>
    intro fs node k r h
    obtain ⟨m, rfl⟩ := Nat.exists_eq_succ_of_ne_zero (Nat.ne_of_gt (Nat.zero_lt_of_lt hnm))
    rw [lookupLoop] at h ⊢
    rcases hread : node.readBlock fs (u32 (k * kBlockSize)) with _ | ⟨fs', node', _ | data⟩ <;> rw [hread] at h
    · cases h
    · exact h
    · dsimp only at h ⊢
      rcases hfind : (blockEntries data).find? (isNamed name) with _ | entry <;> rw [hfind] at h
      · exact ih (Nat.le_of_succ_le_succ hnm) h
      · exact h

/-- **`Lookup`** of a name in a directory: the node for the first entry with the name, if there is one. -/
theorem looksUp_iff (h : fs.Walked node.fStartLba lbas)
    (hint : node.fHintOffset = 0 → node.fHintLba = node.fStartLba) {fFlags : UInt8}
    (hflags : fFlags &&& kAttrDirectory ≠ 0) {result : Option Found} :
    LooksUp fs node fFlags name result ↔
      result = if name = [0x2e] then some .this else (findIn fs lbas name).map (made fs) := by
  obtain ⟨rounds, node', hloop⟩ := lookupLoop_walked h hint name
  by_cases hdot : name = [0x2e]
  · simp only [LooksUp, lookup, if_neg hflags, if_pos hdot]
    constructor
    · rintro ⟨_, fs', node', heq⟩
      cases heq
      rfl
    · rintro rfl
      exact ⟨0, fs, node, rfl⟩
  · simp only [LooksUp, lookup, if_neg hflags, if_neg hdot]
    constructor
    · rintro ⟨rounds', fs'', node'', heq⟩
      obtain ⟨r, hr, heq⟩ := Option.map_eq_some_iff.1 heq
      have hsame := (lookupLoop_mono (Nat.le_max_left rounds rounds') hloop).symm.trans
        (lookupLoop_mono (Nat.le_max_right rounds rounds') hr)
      obtain rfl := Option.some.inj hsame
      cases heq
      rfl
    · rintro rfl
      exact ⟨rounds, fs, node', by rw [hloop]; rfl⟩

end Lookups

end FatNode

end Fat
