import Mathlib.Data.List.Find
import SkyOS.Fat.Lookup

/-!
# The FAT16 file system: `FatNode::MakeDir` (`driver/FAT.cpp`)

`MakeDir` takes the first entry that is free, without a look at the names of the others, allocates a cluster, writes
the blocks of the new directory and then the block with the entry.

The position of the new directory is the number of its cluster, in bytes. The name in `sanitizedName`, which is not
read, is left out.

| here | there |
| --- | --- |
| `stack` | `dirBlock`, before the first block is read |
| `.written` | what `write_pos` returns for a block that it has written |
| `MayChange` | what the creation of a directory has to change on the device |
-/

namespace Fat

open Machine Bytes LinkChain Vfs List Option

/-! ## The source -/

inductive MakeDirStatus where
  | E_INVALID_OPERATION
  | E_IO
  | written
  | writeError
deriving DecidableEq

/-- The entry can be taken (:423). -/
def isFree (m : Memory) (a : Nat) : Bool := m a = 0 ∨ m a = 0xe5

def freeInBlock (dirBlock : Memory) : Option Nat :=
  (List.range kDirEntriesPerBlock).find? fun i => isFree dirBlock (32 * i)

/-- The free entry as `MakeDir` (:426) fills it in. -/
def newEntry (dirBlock : Memory) (entry : Nat) (name : List UInt8) (startCluster : Nat) : Memory :=
  let dirBlock := copy dirBlock entry (ofList 0 name) 0 (min 8 name.length)
  let dirBlock := fill dirBlock (entry + 8) 0x20 3
  let dirBlock := writeLE dirBlock (entry + 26) startCluster 2
  write8 dirBlock (entry + 11) 16

/-- `dirData` (:432): the entries `.` and `..`, and zeros. -/
def newDirectory (startCluster : Nat) : Memory :=
  let dirData : Memory := fun _ => 0
  let dirData := write8 dirData 0 0x2e
  let dirData := write8 dirData 11 16
  let dirData := writeLE dirData 26 startCluster 2
  let dirData := write8 (write8 dirData 32 0x2e) 33 0x2e
  let dirData := write8 dirData 43 16
  writeLE dirData 58 startCluster 2

namespace FatFileSystem

/-- `GetClusterSize` (:301). -/
def getClusterSize (fs : FatFileSystem) : Nat := fs.fSuperBlock.sectorsPerCluster * kBlockSize

end FatFileSystem

namespace FatNode

/-- `read_pos` (:417) of a block into a buffer, which stays as it is if there is no such position. -/
def readInto (dirBlock device : Memory) (lba : Nat) : Memory :=
  let pos := toInt32 (u32 (lba * kBlockSize))
  if 0 ≤ pos then copy dirBlock 0 device pos.toNat kBlockSize else dirBlock

/-- The block `k` of the directory (:410), which is appended if there is none, and its content. -/
def dirBlockAt (fs : FatFileSystem) (node : FatNode) (k : Nat) (dirBlock : Memory) :
    Option (FatFileSystem × FatNode × Option (Nat × Memory)) :=
  match node.lookupBlock fs (u32 (k * kBlockSize)) true with
  | none => none
  | some (fs, node, none) => some (fs, node, none)
  | some (fs, node, some lba) => some (fs, node, some (lba, readInto dirBlock fs.device lba))

/-- The loop of `MakeDir` (:407) from block `k` on, of at most `rounds` blocks, up to a free entry: its block, its
offset, and the block as it was read. The inner `none` is the error of `LookupBlock`. -/
def freeEntry : Nat → FatFileSystem → FatNode → Nat → Memory →
    Option (FatFileSystem × FatNode × Option (Nat × Nat × Memory))
  | 0, _, _, _, _ => none
  | rounds + 1, fs, node, k, dirBlock =>
    match node.dirBlockAt fs k dirBlock with
    | none => none
    | some (fs, node, none) => some (fs, node, none)
    | some (fs, node, some (lba, dirBlock)) =>
      match freeInBlock dirBlock with
      | some i => some (fs, node, some (lba, 32 * i, dirBlock))
      | none => freeEntry rounds fs node (k + 1) dirBlock

/-- The writes of the blocks (:442), of which the last one is returned. -/
def writeBlocks (fs : FatFileSystem) (lba entry : Nat) (dirBlock : Memory) (name : List UInt8) (startCluster : Nat) :
    MakeDirStatus × FatFileSystem :=
  let dirData := slice (newDirectory startCluster) 0 fs.getClusterSize
  let dirBlock := slice (newEntry dirBlock entry name startCluster) 0 kBlockSize
  let device := (writePos fs.device startCluster dirData).getD fs.device
  let written := writePos device (toInt32 (u32 (lba * kBlockSize))) dirBlock
  (if written.isSome then .written else .writeError, fs.withDevice (written.getD device))

/-- `MakeDir` (:374), with at most `rounds` blocks to search; `startCluster` is an `unsigned short`. -/
def makeDir (rounds : Nat) (fs : FatFileSystem) (node : FatNode) (fFlags : UInt8) (stack : Memory) (name : List UInt8) :
    Option (MakeDirStatus × FatFileSystem × FatNode) :=
  if fFlags &&& kAttrDirectory = 0 then some (.E_INVALID_OPERATION, fs, node)
  else
    match node.freeEntry rounds fs 0 stack with
    | none => none
    | some (fs, node, none) => some ( MakeDirStatus.E_IO, fs, node)
    | some (fs, node, some (lba, entry, dirBlock)) =>
      fs.allocateCluster.map fun (fs, cluster) =>
        let (status, fs) := writeBlocks fs lba entry dirBlock name (cluster % 2 ^ 16)
        (status, fs, node)

end FatNode

/-! ## What a creation has to do -/

def validChar (c : UInt8) : Bool :=
  0x20 < c ∧ c < 0x7f ∧ ¬ (0x41 ≤ c ∧ c ≤ 0x5a) ∧
    c ∉ [0x22, 0x2a, 0x2b, 0x2c, 0x2e, 0x2f, 0x3a, 0x3b, 0x3c, 0x3d, 0x3e, 0x3f, 0x5b, 0x5c, 0x5d]

/-- A lower-case 8.3 name. -/
def ValidName (name : List UInt8) : Prop :=
  ∃ base extension : List UInt8, (∀ c ∈ base ++ extension, validChar c = true) ∧ base ≠ [] ∧ base.length ≤ 8 ∧
    extension.length ≤ 3 ∧ name = if extension = [] then base else base ++ 0x2e :: extension

namespace FatFileSystem

def InEntry (fs : FatFileSystem) (c a : Nat) : Prop := fs.fatStart + 2 * c ≤ a ∧ a < fs.fatStart + 2 * c + 2

def InCluster (fs : FatFileSystem) (c a : Nat) : Prop :=
  kBlockSize * fs.clusterToLba c ≤ a ∧ a < kBlockSize * (fs.clusterToLba c + fs.fSuperBlock.sectorsPerCluster)

/-- The bytes that the creation of a directory may change: the allocated cluster and its entry in the table, the
clusters `ext` that extend the directory, their entries and that of its last cluster, and the slot. -/
def MayChange (fs : FatFileSystem) (dir : Dir) (c : Nat) (ext : List Nat) (slot a : Nat) : Prop :=
  (∃ x ∈ c :: ext, fs.InEntry x a ∨ fs.InCluster x a) ∨
    (ext ≠ [] ∧ ∃ cs, ∃ hcs : cs ≠ [], dir = .clusters cs ∧ fs.InEntry (cs.getLast hcs) a) ∨
    slot ≤ a ∧ a < slot + 32

def Present (fs : FatFileSystem) (dir : Dir) (name : List UInt8) : Prop :=
  (FatNode.findIn fs (fs.sectors dir) name).isSome = true

def firstFree (fs : FatFileSystem) (lbas : List Nat) : Option Nat := (slots lbas).find? (isFree fs.device)

def freeClusters (fs : FatFileSystem) : Nat := fs.fFat.count kFreeCluster

/-- There is a free entry, or the directory can be extended by another cluster. -/
def SlotAvailable (fs : FatFileSystem) (dir : Dir) : Prop :=
  (fs.firstFree (fs.sectors dir)).isSome = true ∨ dir ≠ .root ∧ 2 ≤ fs.freeClusters

/-- A directory `name` has been made in the directory: only what has to be changed has changed, the name is that of the
directory in the allocated cluster, and all other names look up as before. -/
structure Made (fs fs' : FatFileSystem) (dir : Dir) (node node' : FatNode) (fFlags : UInt8) (name : List UInt8)
    (c : Nat) (ext : List Nat) (slot : Nat) : Prop where
  free : ∀ x ∈ c :: ext, fs.fFat[x]? = some kFreeCluster
  frame : ∀ a, fs'.device a ≠ fs.device a → fs.MayChange dir c ext slot a
  slot_mem : slot ∈ slots (fs.sectors dir ++ fs.clusterSectors fs.fSuperBlock.sectorsPerCluster ext)
  found : ∃ made flags, FatNode.LooksUp fs' node' fFlags name (some (.made made flags)) ∧
    made.fStartLba = fs.clusterToLba c ∧ flags &&& kAttrDirectory ≠ 0 ∧ FatNode.LooksUp fs' made flags [0x2e] (some .this)
  others : ∀ other ≠ name, ∀ result,
    FatNode.LooksUp fs' node' fFlags other result ↔ FatNode.LooksUp fs node fFlags other result

/-- What `MakeDir` of a name has to do. -/
structure MakesDir (fs : FatFileSystem) (dir : Dir) (node : FatNode) (fFlags : UInt8) (stack : Memory)
    (name : List UInt8) : Prop where
  fails : fs.Present dir name ∨ fs.freeClusters = 0 → ∃ rounds status fs' node',
    node.makeDir rounds fs fFlags stack name = some (status, fs', node') ∧ status ≠ .written ∧ fs'.device = fs.device
  makes : ¬ fs.Present dir name → 1 ≤ fs.freeClusters → fs.SlotAvailable dir → ∃ rounds fs' node',
    node.makeDir rounds fs fFlags stack name = some (.written, fs', node') ∧
      ∃ c ext slot, fs.Made fs' dir node node' fFlags name c ext slot

/-- **The condition**: a root directory that is full, or a directory without the name whose first free entry reads as
the name when `MakeDir` has filled it in, while the first free cluster has 256 entries of the table from its own one
on, and the device has at the byte of the same number what `MakeDir` writes there. -/
def Suits (fs : FatFileSystem) (dir : Dir) (name : List UInt8) : Prop :=
  (dir = .root ∧ fs.firstFree (fs.visited dir) = none) ∨
    (¬ fs.Present dir name ∧ ∃ c slot, fs.freeCluster? = some c ∧ fs.Flushes c ∧
      (∀ j < fs.getClusterSize, fs.device (c + j) = newDirectory c j) ∧
      fs.firstFree (fs.visited dir) = some slot ∧ (entryAt (newEntry fs.device slot name c) slot).getFilename = name)

end FatFileSystem

/-! ## The search -/

variable {lbas : List Nat} {block m : Memory} {lba s j : Nat} {node' : FatNode} {α β : Type*}

namespace FatFileSystem

variable {fs : FatFileSystem}

theorem firstFree_cons (lba : Nat) (lbas : List Nat) :
    fs.firstFree (lba :: lbas) = (fs.firstFree [lba]).or (fs.firstFree lbas) := by
  rw [firstFree, slots_cons, List.find?_append, firstFree, firstFree]

theorem firstFree_spec {slot : Nat} (h : fs.firstFree lbas = some slot) :
    slot ∈ slots lbas ∧ isFree fs.device slot = true := ⟨List.mem_of_find?_eq_some h, List.find?_some h⟩

theorem firstFree_block (h : ∀ j < kBlockSize, block j = fs.device (kBlockSize * lba + j)) :
    fs.firstFree [lba] = (freeInBlock block).map fun i => kBlockSize * lba + 32 * i := by
  rw [firstFree, slots, flatMap_singleton, List.find?_map, freeInBlock]
  congr 1
  refine List.find?_congr fun i hi => ?_
  rw [mem_range] at hi
  unfold kDirEntriesPerBlock kBlockSize at hi
  rw [Function.comp_apply, isFree, isFree, h (32 * i) (by unfold kBlockSize; omega)]

end FatFileSystem

variable {i n a c startLba : Nat} {name : List UInt8}

namespace FatNode

open FatFileSystem

section Search

variable {fs : FatFileSystem} {node : FatNode}

/-- The search has come to a slot, in a block that it has read, or to the end of the directory. -/
def Searched (fs : FatFileSystem) (node : FatNode) :
    Option Nat → Option (FatFileSystem × FatNode × Option (Nat × Nat × Memory)) → Prop
  | some slot, r => ∃ node' block, r = some (fs, node', some (slot / kBlockSize, slot % kBlockSize, block)) ∧
      node'.fStartLba = node.fStartLba ∧ (node'.fHintOffset = 0 → node'.fHintLba = node'.fStartLba) ∧
      ∀ j < kBlockSize, block j = fs.device (kBlockSize * (slot / kBlockSize) + j)
  | none, r => ∃ node', r = some (fs, node', none)

theorem dirBlockAt_some {k lba : Nat} {node' : FatNode} {dirBlock : Memory} (hk : kBlockSize * k < 2 ^ 32)
    (hlba : lba < 2 ^ 22) (h : node.lookupBlock fs (kBlockSize * k) true = some (fs, node', some lba)) :
    node.dirBlockAt fs k dirBlock =
      some (fs, node', some (lba, copy dirBlock 0 fs.device (kBlockSize * lba) kBlockSize)) := by
  rw [Nat.mul_comm] at hk
  rw [dirBlockAt, u32_of_lt hk, Nat.mul_comm k, h]
  dsimp only
  rw [readInto, position_of_lt hlba, if_pos (Int.natCast_nonneg _), Int.toNat_natCast]

theorem dirBlockAt_none {k : Nat} (dirBlock : Memory) (hk : kBlockSize * k < 2 ^ 32)
    (h : node.lookupBlock fs (kBlockSize * k) true = some (fs, node', none)) :
    node.dirBlockAt fs k dirBlock = some (fs, node', none) := by
  rw [Nat.mul_comm] at hk
  rw [dirBlockAt, u32_of_lt hk, Nat.mul_comm k, h]

theorem slot_div_mod (lba : Nat) (hi : i < 16) :
    (kBlockSize * lba + 32 * i) / kBlockSize = lba ∧ (kBlockSize * lba + 32 * i) % kBlockSize = 32 * i := by
  unfold kBlockSize
  omega

theorem freeEntry_block {rounds k lba : Nat} {node' : FatNode} {dirBlock : Memory} (hk : kBlockSize * k < 2 ^ 32)
    (hlba : lba < 2 ^ 22) (h : node.lookupBlock fs (kBlockSize * k) true = some (fs, node', some lba)) :
    ∃ block, (∀ j < kBlockSize, block j = fs.device (kBlockSize * lba + j)) ∧
      node.freeEntry (rounds + 1) fs k dirBlock = match fs.firstFree [lba] with
        | some slot => some (fs, node', some (slot / kBlockSize, slot % kBlockSize, block))
        | none => node'.freeEntry rounds fs (k + 1) block := by
  have hblock : ∀ j < kBlockSize,
      copy dirBlock 0 fs.device (kBlockSize * lba) kBlockSize j = fs.device (kBlockSize * lba + j) := by
    intro j hj
    rw [copy_inside _ _ _ (Nat.zero_le j) (by omega), Nat.sub_zero]
  have hread := @dirBlockAt_some fs node k lba node' dirBlock hk hlba h
  generalize copy dirBlock 0 fs.device (kBlockSize * lba) kBlockSize = block at hblock hread
  refine ⟨block, hblock, ?_⟩
  rw [freeEntry, hread, firstFree_block hblock]
  dsimp only
  rcases hfind : freeInBlock block with _ | i
  · rfl
  · obtain ⟨hdiv, hmod⟩ := slot_div_mod lba (mem_range.1 (List.mem_of_find?_eq_some hfind))
    rw [map_some]
    dsimp only
    rw [hdiv, hmod]

theorem freeEntry_rest {rest : List Nat} : ∀ {node : FatNode} {lba k rounds : Nat} {dirBlock : Memory},
    Chain fs.nextBlock kEndOfFile (fs.nextBlock lba) rest →
    (∀ x ∈ lba :: rest, fs.nextBlock x ≠ kEndOfFile → fs.getNextBlock x true = some (fs, fs.nextBlock x)) →
    (fs.firstFree rest = none → ∀ x ∈ lba :: rest, fs.getNextBlock x true = some (fs, fs.nextBlock x)) →
    (∀ x ∈ rest, x < 2 ^ 22) → kBlockSize * (k + 1 + rest.length) < 2 ^ 32 → rest.length < rounds →
    Searched fs node (fs.firstFree rest) ((node.hinted (kBlockSize * k) lba).freeEntry rounds fs (k + 1) dirBlock) := by
  induction rest with
  | nil =>
    intro node lba k rounds dirBlock hchain _ hend _ hk hrounds
    obtain ⟨rounds, rfl⟩ := Nat.exists_eq_succ_of_ne_zero (Nat.ne_of_gt hrounds)
    have hget := hend rfl lba (.head _)
    have hnext : fs.nextBlock lba = kEndOfFile := hchain
    rw [hnext] at hget
    refine ⟨node.hinted (kBlockSize * k) lba, ?_⟩
    rw [freeEntry, dirBlockAt_none (k := k + 1) dirBlock hk (lookupBlock_end hget)]
  | cons next rest ih =>
    intro node lba k rounds dirBlock hchain hstep hend hreached hk hrounds
    obtain ⟨rounds, rfl⟩ := Nat.exists_eq_succ_of_ne_zero (Nat.ne_of_gt (Nat.zero_lt_of_lt hrounds))
    obtain ⟨hnext, hne, hrest⟩ := hchain
    have hget := hstep lba mem_cons_self (by rwa [hnext])
    rw [hnext] at hget
    rw [length_cons] at hk hrounds
    have hk' : kBlockSize * (k + 1) < 2 ^ 32 := by unfold kBlockSize at *; omega
    obtain ⟨block, hblock, hloop⟩ := @freeEntry_block fs _ rounds _ _ _ dirBlock hk' (hreached next (.head _))
      (@lookupBlock_next fs node _ _ _ _ hget hne hk')
    rw [hloop, firstFree_cons next rest]
    rcases hfree : fs.firstFree [next] with _ | slot
    · rw [firstFree_cons next rest, hfree, none_or] at hend
      exact @ih node next (k + 1) rounds block hrest (fun x hx => hstep x (.tail _ hx))
        (fun hnone x hx => hend hnone x (.tail _ hx)) (fun x hx => hreached x (.tail _ hx))
        (by rwa [Nat.add_assoc (k + 1), Nat.add_comm 1]) (by omega)
    · obtain ⟨lba', hmem, i, hi, rfl⟩ := mem_slots.1 (firstFree_spec hfree).1
      obtain rfl := mem_singleton.1 hmem
      have hdiv := (slot_div_mod lba' hi).1
      refine ⟨_, block, rfl, rfl, fun h0 => ?_, by rwa [hdiv]⟩
      have hpos : 0 < kBlockSize * (k + 1) := Nat.mul_pos (by decide) (Nat.succ_pos k)
      exact absurd h0 (Nat.ne_of_gt hpos)

/-- **The search** finds the first free entry; where there is none, it comes to the end if nothing can be appended. -/
theorem freeEntry_walked (h : fs.Walked node.fStartLba lbas)
    (hint : node.fHintOffset = 0 → node.fHintLba = node.fStartLba)
    (hend : fs.firstFree lbas = none → ∀ x ∈ lbas, fs.getNextBlock x true = some (fs, fs.nextBlock x)) (stack : Memory) :
    ∃ rounds, Searched fs node (fs.firstFree lbas) (node.freeEntry rounds fs 0 stack) := by
  obtain ⟨lba, rest, rfl⟩ := exists_cons_of_ne_nil h.nonempty
  obtain ⟨hstart, -, hrest⟩ := h.chain
  have hlen := h.length_le
  rw [length_cons] at hlen
  have hfirst := @lookupBlock_zero fs node hint true
  rw [hstart] at hfirst
  obtain ⟨block, hblock, hloop⟩ := @freeEntry_block fs node (rest.length + 1) 0 lba _ stack (by decide)
    (h.reached lba (.head _)) hfirst
  refine ⟨rest.length + 2, ?_⟩
  rw [hloop, firstFree_cons lba rest]
  rcases hfree : fs.firstFree [lba] with _ | slot
  · rw [firstFree_cons lba rest, hfree, none_or] at hend
    exact @freeEntry_rest fs rest node lba 0 _ _ hrest h.extend hend (fun x hx => h.reached x (.tail _ hx))
      (by unfold kBlockSize; omega) (by omega)
  · obtain ⟨lba', hmem, i, hi, rfl⟩ := mem_slots.1 (firstFree_spec hfree).1
    obtain rfl := mem_singleton.1 hmem
    have hdiv := (slot_div_mod lba' hi).1
    exact ⟨_, block, rfl, rfl, fun _ => hstart.symm, by rwa [hdiv]⟩

variable {m : Nat}

theorem freeEntry_mono (hnm : n ≤ m) : ∀ {fs : FatFileSystem} {node : FatNode} {k : Nat} {dirBlock : Memory}
    {r : FatFileSystem × FatNode × Option (Nat × Nat × Memory)}, node.freeEntry n fs k dirBlock = some r →
    node.freeEntry m fs k dirBlock = some r := by
  induction n generalizing m with
  | zero => intro fs node k dirBlock r h; cases h
  | succ n ih =>
    intro fs node k dirBlock r h
    obtain ⟨m, rfl⟩ := Nat.exists_eq_succ_of_ne_zero (Nat.ne_of_gt (Nat.zero_lt_of_lt hnm))
    rw [freeEntry] at h ⊢
    rcases hblock : node.dirBlockAt fs k dirBlock with _ | ⟨fs', node', _ | ⟨lba, block⟩⟩ <;> rw [hblock] at h
    · cases h
    · exact h
    · dsimp only at h ⊢
      rcases hfind : freeInBlock block with _ | i <;> rw [hfind] at h
      · exact ih (Nat.le_of_succ_le_succ hnm) h
      · exact h

variable {fFlags : UInt8} {stack : Memory} {r : MakeDirStatus × FatFileSystem × FatNode}

theorem makeDir_mono (hnm : n ≤ m) (h : node.makeDir n fs fFlags stack name = some r) :
    node.makeDir m fs fFlags stack name = some r := by
  rw [makeDir] at h ⊢
  by_cases hflags : fFlags &&& kAttrDirectory = 0
  · rwa [if_pos hflags] at h ⊢
  · rw [if_neg hflags] at h ⊢
    rcases hsearch : node.freeEntry n fs 0 stack with _ | r'
    · rw [hsearch] at h
      cases h
    · rw [hsearch] at h
      rw [freeEntry_mono hnm hsearch]
      exact h

theorem makeDir_unique
    {r' : MakeDirStatus × FatFileSystem × FatNode} (h : node.makeDir n fs fFlags stack name = some r)
    (h' : node.makeDir m fs fFlags stack name = some r') : r = r' :=
  Option.some.inj ((makeDir_mono (Nat.le_max_left n m) h).symm.trans (makeDir_mono (Nat.le_max_right n m) h'))

end Search

end FatNode

/-! ## What is written -/

theorem writePos_slice (device m : Memory) (pos n : Nat) :
    writePos device (pos : Int) (slice m 0 n) = some (copy device pos m 0 n) := by
  rw [writePos, if_pos (Int.natCast_nonneg _), Int.toNat_natCast, length_slice]
  congr 1
  funext a
  by_cases ha : pos ≤ a ∧ a < pos + n
  · rw [copy_inside _ _ 0 ha.1 ha.2, copy_inside _ _ 0 ha.1 ha.2, Nat.zero_add, ofList_slice m (by omega), Nat.zero_add]
  · rw [copy_outside _ _ 0 (by omega), copy_outside _ _ 0 (by omega)]

theorem newEntry_apply (m : Memory) (s : Nat) (name : List UInt8) (c a : Nat) : newEntry m s name c a =
    if a = s + 11 then 16
    else if s + 26 ≤ a ∧ a < s + 28 then UInt8.ofNat (c / 256 ^ (a - (s + 26)) % 256)
    else if s + 8 ≤ a ∧ a < s + 11 then 0x20
    else if s ≤ a ∧ a < s + min 8 name.length then name.getD (a - s) 0 else m a := by
  unfold newEntry write8
  by_cases h11 : a = s + 11
  · rw [if_pos h11, if_pos h11]
    rfl
  · rw [if_neg h11, if_neg h11]
    by_cases h26 : s + 26 ≤ a ∧ a < s + 28
    · rw [if_pos h26, writeLE_inside _ h26.1 h26.2]
    · rw [if_neg h26, writeLE_outside _ (by omega), fill]
      by_cases h8 : s + 8 ≤ a ∧ a < s + 11
      · rw [if_pos h8, if_pos h8]
        rfl
      · rw [if_neg h8, if_neg h8]
        by_cases h0 : s ≤ a ∧ a < s + min 8 name.length
        · rw [if_pos h0, copy_inside _ _ 0 h0.1 h0.2, ofList, if_pos (Nat.zero_le _), Nat.zero_add, Nat.sub_zero]
        · rw [if_neg h0, copy_outside _ _ 0 (by omega)]

theorem newEntry_outside (m : Memory) (name : List UInt8) (c : Nat) (h : a < s ∨ s + 32 ≤ a) :
    newEntry m s name c a = m a := by
  rw [newEntry_apply, if_neg (by omega), if_neg (by omega), if_neg (by omega), if_neg (by omega)]

theorem newEntry_shift {pos entry : Nat} (h : ∀ j < n, block j = m (pos + j)) (name : List UInt8)
    (c : Nat) (hj : j < n) : newEntry block entry name c j = newEntry m (pos + entry) name c (pos + j) := by
  have h26 : pos + j - (pos + entry + 26) = j - (entry + 26) := by omega
  have h0 : pos + j - (pos + entry) = j - entry := by omega
  rw [newEntry_apply, newEntry_apply, h j hj, h26, h0]
  congr 1
  · rw [eq_iff_iff]
    omega
  congr 1
  · rw [eq_iff_iff]
    omega
  congr 1
  · rw [eq_iff_iff]
    omega
  congr 1
  rw [eq_iff_iff]
  omega

theorem eq_of_readLE_two {m' : Memory} (h : readLE m' a 2 = readLE m a 2) :
    m' a = m a ∧ m' (a + 1) = m (a + 1) := by
  simp only [readLE] at h
  have h0 := (m a).toNat_lt
  have h0' := (m' a).toNat_lt
  constructor
  · exact UInt8.toNat.inj (by omega)
  · exact UInt8.toNat.inj (by omega)

namespace FatFileSystem

variable {fs fs' : FatFileSystem}

theorem WriteThrough.eq_of_not_inEntry (h : fs.WriteThrough fs') (hsynced : fs.Synced) {value : Nat}
    (hfat : fs'.fFat = fs.fFat.set c value) (ha : ¬ fs.InEntry c a) : fs'.device a = fs.device a := by
  by_cases hin : fs.fatStart ≤ a ∧ a < fs.fatStart + 2 * fs.fFat.length
  · obtain ⟨i, hi⟩ : ∃ i, a = fs.fatStart + 2 * i ∨ a = fs.fatStart + 2 * i + 1 := ⟨(a - fs.fatStart) / 2, by omega⟩
    have hlt : i < fs.fFat.length := by omega
    have hne : c ≠ i := by
      rintro rfl
      exact ha ⟨by omega, by omega⟩
    have hlt' : i < fs'.fFat.length := by rwa [h.length]
    have hnew := h.synced i hlt'
    have hget : fs'.fFat[i] = fs.fFat[i] := by
      simp only [hfat, getElem_set_ne hne]
    rw [h.fatStart, hget, ← hsynced i hlt] at hnew
    obtain ⟨hlow, hhigh⟩ := eq_of_readLE_two hnew
    rcases hi with rfl | rfl
    · exact hlow
    · exact hhigh
  · exact h.frame a (by omega)

theorem WellFormed.two_le_of_free (h : fs.WellFormed) (hc : fs.fFat[c]? = some kFreeCluster) : 2 ≤ c := by
  obtain ⟨e₀, e₁, entries, hfat, h₀, h₁⟩ := h.media
  rw [hfat] at hc
  match c with
  | 0 => exact absurd (Option.some.inj hc) h₀
  | 1 => exact absurd (Option.some.inj hc) h₁
  | c + 2 => omega

/-- What a creation that finds a slot and a cluster leaves: the block with the entry, what lies at the byte with the
number of the cluster, and the entry of the table. -/
structure Written (fs fs' : FatFileSystem) (c slot : Nat) (name : List UInt8) : Prop where
  volume : fs.SameVolume fs'
  fFat : fs'.fFat = fs.fFat.set c kClusterChainDelimiter
  block : ∀ a, a / kBlockSize = slot / kBlockSize → fs'.device a = newEntry fs.device slot name c a
  overwritten : ∀ a, a / kBlockSize ≠ slot / kBlockSize → c ≤ a → a < c + fs.getClusterSize →
    fs'.device a = newDirectory c (a - c)
  rest : ∀ a, a / kBlockSize ≠ slot / kBlockSize → ¬ (c ≤ a ∧ a < c + fs.getClusterSize) → ¬ fs.InEntry c a →
    fs'.device a = fs.device a

end FatFileSystem

namespace FatNode

open FatFileSystem

section Outcome

variable {fs : FatFileSystem} {dir : Dir} {node : FatNode} {fFlags : UInt8} {slot : Nat}

theorem writeBlocks_eq (hlba : lba < 2 ^ 22) (fs : FatFileSystem) (entry : Nat) (dirBlock : Memory)
    (name : List UInt8) (startCluster : Nat) :
    writeBlocks fs lba entry dirBlock name startCluster = (.written, fs.withDevice
      (copy (copy fs.device startCluster (newDirectory startCluster) 0 fs.getClusterSize)
        (kBlockSize * lba) (newEntry dirBlock entry name startCluster) 0 kBlockSize)) := by
  rw [writeBlocks, position_of_lt hlba, writePos_slice, getD_some, writePos_slice]
  rfl

/-- **`MakeDir` with a free entry** succeeds if `AllocateCluster` returns, whatever it returns. -/
theorem makeDir_of_firstFree (h : fs.WellFormed) (hnode : fs.DirNode dir node) (hflags : fFlags &&& kAttrDirectory ≠ 0)
    (hslot : fs.firstFree (fs.visited dir) = some slot) (stack : Memory) (name : List UInt8) :
    ∃ rounds node' block, node'.fStartLba = node.fStartLba ∧
      (node'.fHintOffset = 0 → node'.fHintLba = node'.fStartLba) ∧
      (∀ j < kBlockSize, block j = fs.device (kBlockSize * (slot / kBlockSize) + j)) ∧
      ∀ n, rounds ≤ n → node.makeDir n fs fFlags stack name = fs.allocateCluster.map fun r => (.written, r.1.withDevice
        (copy (copy r.1.device (r.2 % 2 ^ 16) (newDirectory (r.2 % 2 ^ 16)) 0 r.1.getClusterSize)
          (kBlockSize * (slot / kBlockSize)) (newEntry block (slot % kBlockSize) name (r.2 % 2 ^ 16)) 0 kBlockSize),
          node') := by
  have hwalked := walked_visited h.toLayout hnode
  obtain ⟨rounds, hsearch⟩ := freeEntry_walked hwalked hnode.hint (fun hnone => by rw [hslot] at hnone; cases hnone) stack
  rw [hslot] at hsearch
  obtain ⟨node', block, hsearch, hstart, hhint, hblock⟩ := hsearch
  have hlba : slot / kBlockSize < 2 ^ 22 := by
    obtain ⟨lba, hmem, i, hi, rfl⟩ := mem_slots.1 (firstFree_spec hslot).1
    rw [(slot_div_mod lba hi).1]
    exact hwalked.reached lba hmem
  refine ⟨rounds, node', block, hstart, hhint, hblock, fun n hn => ?_⟩
  rw [makeDir, if_neg hflags, freeEntry_mono hn hsearch]
  simp only [writeBlocks_eq hlba]

/-- **`MakeDir` in a full root directory** changes nothing. -/
theorem makeDir_of_full_root (h : fs.WellFormed) (hnode : fs.DirNode .root node) (hflags : fFlags &&& kAttrDirectory ≠ 0)
    (hslot : fs.firstFree (fs.visited .root) = none) (stack : Memory) (name : List UInt8) :
    ∃ rounds node', node.makeDir rounds fs fFlags stack name = some ( MakeDirStatus.E_IO, fs, node') := by
  have hstep : ∀ lba ∈ fs.rootSectors, fs.getNextBlock lba true = some (fs, fs.nextBlock lba) := by
    intro lba hmem
    have hget := getNextBlock_root h.fDataStart h.fDataStart_lt hmem
    rw [nextBlock_eq (hget false)]
    exact hget true
  obtain ⟨rounds, hsearch⟩ := freeEntry_walked (walked_visited h.toLayout hnode) hnode.hint (fun _ => hstep) stack
  rw [hslot] at hsearch
  obtain ⟨node', hsearch⟩ := hsearch
  exact ⟨rounds, node', by rw [makeDir, if_neg hflags, hsearch]⟩

/-- **`MakeDir` with a free entry and a free cluster**, whose entry of the table can be flushed. -/
theorem makeDir_written (h : fs.WellFormed) (hnode : fs.DirNode dir node) (hflags : fFlags &&& kAttrDirectory ≠ 0)
    (hslot : fs.firstFree (fs.visited dir) = some slot) (hfree : fs.freeCluster? = some c) (hc : fs.Flushes c)
    (stack : Memory) (name : List UInt8) :
    ∃ rounds fs' node', node.makeDir rounds fs fFlags stack name = some (.written, fs', node') ∧
      node'.fStartLba = node.fStartLba ∧ (node'.fHintOffset = 0 → node'.fHintLba = node'.fStartLba) ∧
      fs.Written fs' c slot name := by
  obtain ⟨rounds, node', block, hstart, hhint, hblock, hmake⟩ := makeDir_of_firstFree h hnode hflags hslot stack name
  obtain ⟨fs', halloc, hwrite, hfat⟩ := allocateCluster_spec h.synced h.narrow hfree hc
  have hlt : c < 2 ^ 16 := by
    have hlen := h.clusters
    obtain ⟨hlt, -⟩ := freeCluster?_spec hfree
    omega
  have hfat' : fs'.fFat = fs.fFat.set c kClusterChainDelimiter := hfat
  have hsize : fs'.getClusterSize = fs.getClusterSize := by rw [getClusterSize, hwrite.super, getClusterSize]
  have hmake := hmake rounds (le_refl rounds)
  rw [halloc, map_some, Nat.mod_eq_of_lt hlt, hsize] at hmake
  have hoff : kBlockSize * (slot / kBlockSize) + slot % kBlockSize = slot := Nat.div_add_mod slot kBlockSize
  have hin : ∀ a, a / kBlockSize = slot / kBlockSize → ∃ j < kBlockSize, a = kBlockSize * (slot / kBlockSize) + j := by
    intro a ha
    exact ⟨a % kBlockSize, Nat.mod_lt _ (by decide), by rw [← ha, Nat.div_add_mod]⟩
  have hout : ∀ a, a / kBlockSize ≠ slot / kBlockSize →
      a < kBlockSize * (slot / kBlockSize) ∨ kBlockSize * (slot / kBlockSize) + kBlockSize ≤ a := by
    intro a ha
    unfold kBlockSize at *
    omega
  refine ⟨rounds, _, node', hmake, hstart, hhint, ⟨hwrite.super, hwrite.part, hwrite.length⟩, hfat', ?_, ?_, ?_⟩
  · intro a ha
    obtain ⟨j, hj, rfl⟩ := hin a ha
    show copy _ (kBlockSize * (slot / kBlockSize)) _ 0 kBlockSize _ = _
    rw [copy_inside _ _ 0 (Nat.le_add_right _ _) (Nat.add_lt_add_left hj _), Nat.zero_add, Nat.add_sub_cancel_left,
      newEntry_shift hblock name c hj, hoff]
  · intro a ha hca hac
    show copy (copy _ c _ 0 fs.getClusterSize) _ _ 0 kBlockSize a = _
    rw [copy_outside _ _ 0 (hout a ha), copy_inside _ _ 0 hca hac, Nat.zero_add]
  · intro a ha hca hentry
    show copy (copy _ c _ 0 fs.getClusterSize) _ _ 0 kBlockSize a = _
    rw [copy_outside _ _ 0 (hout a ha), copy_outside _ _ 0 (by omega)]
    exact hwrite.eq_of_not_inEntry h.synced hfat' hentry

end Outcome

end FatNode

/-! ## The directory afterwards -/

theorem find?_map_congr {ts : List α} {f g : α → β} {p : β → Bool}
    (h : ∀ t ∈ ts, p (g t) = p (f t) ∧ (p (f t) = true → g t = f t)) : (ts.map g).find? p = (ts.map f).find? p := by
  induction ts with
  | nil => rfl
  | cons t ts ih =>
    obtain ⟨hsame, heq⟩ := h t (.head _)
    have hrest := ih fun x hx => h x (mem_cons_of_mem t hx)
    rw [map_cons, map_cons, List.find?_cons, List.find?_cons, hsame, hrest]
    rcases hp : p (f t) with _ | _
    · rfl
    · rw [heq hp]

theorem find?_map_unique {ts : List α} {f : α → β} {p : β → Bool} {s : α} (hs : s ∈ ts)
    (hp : p (f s) = true) (h : ∀ t ∈ ts, p (f t) = true → f t = f s) : (ts.map f).find? p = some (f s) := by
  have hmem : f s ∈ ts.map f := List.mem_map_of_mem hs
  rcases hfind : (ts.map f).find? p with _ | e
  · exact absurd hp (List.find?_eq_none.1 hfind _ hmem)
  · obtain ⟨t, ht, rfl⟩ := List.mem_map.1 (List.mem_of_find?_eq_some hfind)
    rw [h t ht (List.find?_some hfind)]

theorem ValidName.head (h : ValidName name) :
    ∃ c rest, name = c :: rest ∧ c ≠ 0 ∧ c ≠ 0xe5 ∧ name ≠ [0x2e] := by
  obtain ⟨base, extension, hchars, hbase, -, -, hname⟩ := h
  obtain ⟨c, base', rfl⟩ := exists_cons_of_ne_nil hbase
  have hc := hchars c (by simp)
  simp only [validChar, decide_eq_true_eq] at hc
  obtain ⟨hlow, hhigh, -, hmem⟩ := hc
  obtain ⟨rest, hrest⟩ : ∃ rest, name = c :: rest := by
    rw [hname]
    split
    · exact ⟨_, rfl⟩
    · exact ⟨_, rfl⟩
  refine ⟨c, rest, hrest, ?_, ?_, ?_⟩
  · rintro rfl
    exact absurd hlow (by decide)
  · rintro rfl
    exact absurd hhigh (by decide)
  · intro hdot
    rw [hrest] at hdot
    obtain ⟨rfl, -⟩ := List.cons.inj hdot
    exact hmem (by decide)

section Entry

variable {m : Memory} {slot c : Nat} {name : List UInt8}

theorem isNamed_of_isFree (h : isFree m slot = true) (name : List UInt8) : isNamed name (entryAt m slot) = false := by
  have hhead : (entryAt m slot).filename.head? = some (m slot) := rfl
  have hfree : m slot = 0 ∨ m slot = 0xe5 := by simpa [isFree] using h
  have hused : (entryAt m slot).used = false := by
    rw [FatDirEntry.used, hhead]
    rcases hfree with h0 | h0 <;> simp [h0]
  rw [isNamed, hused]
  simp

theorem newEntry_fields (hname : ValidName name) (hc : c < 2 ^ 16) :
    (entryAt (newEntry m slot name c) slot).startCluster = c ∧ (entryAt (newEntry m slot name c) slot).flags = 16 ∧
      (entryAt (newEntry m slot name c) slot).used = true := by
  obtain ⟨x, rest, rfl, h0, he5, -⟩ := hname.head
  have hflags : newEntry m slot (x :: rest) c (slot + 11) = 16 := by rw [newEntry_apply, if_pos rfl]
  have hfirst : newEntry m slot (x :: rest) c slot = x := by
    rw [newEntry_apply, if_neg (by omega), if_neg (by omega), if_neg (by omega), if_pos (by simp), Nat.sub_self]
    rfl
  have hlow : newEntry m slot (x :: rest) c (slot + 26) = UInt8.ofNat (c % 256) := by
    rw [newEntry_apply, if_neg (by omega), if_pos (by omega), Nat.sub_self, Nat.pow_zero, Nat.div_one]
  have hhigh : newEntry m slot (x :: rest) c (slot + 26 + 1) = UInt8.ofNat (c / 256 % 256) := by
    rw [newEntry_apply, if_neg (by omega), if_pos (by omega), Nat.add_sub_cancel_left, Nat.pow_one]
  refine ⟨?_, hflags, ?_⟩
  · show readLE _ (slot + 26) 2 = c
    simp only [readLE, hlow, hhigh, UInt8.toNat_ofNat']
    omega
  · have hhead : (entryAt (newEntry m slot (x :: rest) c) slot).filename.head? = some x := by
      show some (newEntry m slot (x :: rest) c slot) = some x
      rw [hfirst]
    have hflags' : (entryAt (newEntry m slot (x :: rest) c) slot).flags = 16 := hflags
    have hlabel : (16 : UInt8) &&& kAttrVolumeLabel = 0 := by decide
    rw [FatDirEntry.used, hhead, hflags', hlabel]
    simp [h0, he5]

end Entry

namespace FatFileSystem

section Afterwards

variable {fs fs' : FatFileSystem} {dir : Dir} {c slot : Nat} {name : List UInt8}

theorem slot_apart {t : Nat} (h : fs.WellFormed) (hbegins : fs.BeginsAt startLba dir)
    (hs : s ∈ slots (fs.sectors dir)) (ht : t ∈ slots (fs.sectors dir)) :
    (t = s ∨ t + 32 ≤ s ∨ s + 32 ≤ t) ∧ (∀ j < 32, (t + j) / kBlockSize = t / kBlockSize) ∧
      fs.fatStart + 2 * fs.fFat.length ≤ t := by
  obtain ⟨lba, hlba, i, hi, rfl⟩ := mem_slots.1 hs
  obtain ⟨lba', hlba', i', hi', rfl⟩ := mem_slots.1 ht
  have hge := sectors_ge h.toLayout hbegins hlba'
  have hfat := h.fat_inside.2
  unfold kBlockSize at *
  refine ⟨by omega, fun j hj => by omega, by omega⟩

/-- Where the device has had all that is written at the byte with the number of the cluster, what has changed is the
entry of the table and the slot. -/
theorem Written.eq_outside (h : fs.Written fs' c slot name)
    (hholds : ∀ j < fs.getClusterSize, fs.device (c + j) = newDirectory c j) (hentry : ¬ fs.InEntry c a)
    (hslot : a < slot ∨ slot + 32 ≤ a) : fs'.device a = fs.device a := by
  by_cases hblock : a / kBlockSize = slot / kBlockSize
  · rw [h.block a hblock, newEntry_outside _ _ _ hslot]
  · by_cases hin : c ≤ a ∧ a < c + fs.getClusterSize
    · rw [h.overwritten a hblock hin.1 hin.2, ← hholds (a - c) (by omega), Nat.add_sub_cancel' hin.1]
    · exact h.rest a hblock hin hentry

theorem Written.entryAt_eq (hwf : fs.WellFormed) (hbegins : fs.BeginsAt startLba dir)
    (h : fs.Written fs' c slot name) (hc : c < fs.fFat.length) (hslot : slot ∈ slots (fs.sectors dir))
    (hholds : ∀ j < fs.getClusterSize, fs.device (c + j) = newDirectory c j) :
    entryAt fs'.device slot = entryAt (newEntry fs.device slot name c) slot ∧
      ∀ t ∈ slots (fs.sectors dir), t ≠ slot → entryAt fs'.device t = entryAt fs.device t := by
  constructor
  · exact entryAt_shift fun j hj => h.block (slot + j) ((slot_apart hwf hbegins hslot hslot).2.1 j hj)
  · intro t ht hne
    obtain ⟨hapart, -, hge⟩ := slot_apart hwf hbegins hslot ht
    refine entryAt_shift fun j hj => h.eq_outside hholds (fun hentry => ?_) (by omega)
    have hend := hentry.2
    omega

theorem not_present_iff : ¬ fs.Present dir name ↔
    ∀ t ∈ slots (fs.sectors dir), isNamed name (entryAt fs.device t) = false := by
  rw [Present, FatNode.findIn, Bool.not_eq_true, isSome_eq_false_iff, isNone_iff_eq_none,
    List.find?_eq_none]
  simp

/-- **Lookups afterwards**: only the name of the new directory is looked up in another way. -/
theorem Written.findIn_eq (hwf : fs.WellFormed) (hbegins : fs.BeginsAt startLba dir)
    (h : fs.Written fs' c slot name) (hname : ValidName name) (hc : c < fs.fFat.length)
    (hslot : fs.firstFree (fs.visited dir) = some slot)
    (hholds : ∀ j < fs.getClusterSize, fs.device (c + j) = newDirectory c j) :
    (∀ other, other ≠ (entryAt (newEntry fs.device slot name c) slot).getFilename →
      FatNode.findIn fs' (fs.visited dir) other = FatNode.findIn fs (fs.visited dir) other) ∧
    ((entryAt (newEntry fs.device slot name c) slot).getFilename = name → ¬ fs.Present dir name →
      FatNode.findIn fs' (fs.visited dir) name = some (entryAt (newEntry fs.device slot name c) slot)) := by
  obtain ⟨hmem, hfree⟩ := firstFree_spec hslot
  have hsub : ∀ t ∈ slots (fs.visited dir), t ∈ slots (fs.sectors dir) := fun t => slots_visited hwf.toLayout
  have hlt : c < 2 ^ 16 := Nat.lt_of_lt_of_le hc hwf.clusters
  obtain ⟨hnew, hold⟩ := h.entryAt_eq hwf hbegins hc (hsub slot hmem) hholds
  obtain ⟨-, -, hused⟩ := @newEntry_fields fs.device slot c name hname hlt
  constructor
  · intro other hother
    refine find?_map_congr fun t ht => ?_
    by_cases hts : t = slot
    · subst hts
      have hnamed : isNamed other (entryAt fs'.device t) = false := by
        rw [hnew, isNamed]
        simp [hother.symm]
      rw [hnamed, isNamed_of_isFree hfree]
      exact ⟨rfl, fun hfalse => by cases hfalse⟩
    · rw [hold t (hsub t ht) hts]
      exact ⟨rfl, fun _ => rfl⟩
  · intro hreads habsent
    have hfind := find?_map_unique (f := entryAt fs'.device) (p := isNamed name) hmem
      (by rw [hnew, isNamed, hused, hreads]; simp) (fun t ht hp => by
        by_cases hts : t = slot
        · rw [hts]
        · rw [hold t (hsub t ht) hts, not_present_iff.1 habsent t (hsub t ht)] at hp
          cases hp)
    rw [← hnew]
    exact hfind

theorem Written.dirNode {node : FatNode} (h : fs.Written fs' c slot name) (hnode : fs.DirNode dir node)
    (hc : fs.fFat[c]? = some kFreeCluster) (hstart : node'.fStartLba = node.fStartLba)
    (hhint : node'.fHintOffset = 0 → node'.fHintLba = node'.fStartLba) : fs'.DirNode dir node' := by
  obtain ⟨hbegins, -, hreached⟩ := hnode
  have hvolume := h.volume
  refine ⟨?_, hhint, by rwa [(hvolume.sectors dir).1]⟩
  rw [hstart]
  cases dir with
  | root =>
    have hroot : fs'.fRootDirStart = fs.fRootDirStart := by
      rw [FatFileSystem.fRootDirStart, FatFileSystem.fRootDirStart, hvolume.super, hvolume.part]
    exact Eq.trans hbegins hroot.symm
  | clusters cs =>
    obtain ⟨start, hchain, hlba⟩ := hbegins
    refine ⟨start, ⟨hchain.chain.congr fun x hx => ?_, fun x hx => hvolume.usable (hchain.usable x hx), hchain.nonempty⟩,
      by rw [hlba, hvolume.clusterToLba]⟩
    -- a cluster of the directory is not free
    have hne : c ≠ x := by
      rintro rfl
      have hnext := hchain.chain.next_ne_zero (by decide) (fun y hy => Nat.ne_of_gt (Nat.lt_of_lt_of_le (by decide)
        (hchain.usable y hy).two_le)) hx
      have hzero : fs.fFat.getD c 0 = 0 := by rw [List.getD_eq_getElem?_getD, hc]; rfl
      rw [link, hzero, if_neg (by decide)] at hnext
      exact hnext rfl
    rw [link, link, h.fFat, List.getD_eq_getElem?_getD, List.getD_eq_getElem?_getD, List.getElem?_set_ne hne]

end Afterwards

end FatFileSystem

/-! ## The condition -/

namespace FatFileSystem

section Condition

variable {fs fs' : FatFileSystem} {dir : Dir} {node node' : FatNode} {fFlags : UInt8} {c slot : Nat} {name : List UInt8}

theorem freeCluster?_eq_none_iff : fs.freeCluster? = none ↔ fs.freeClusters = 0 := by
  rw [freeCluster?, freeClusters, List.findIdx?_eq_none_iff, count_eq_zero]
  constructor
  · intro h hmem
    simpa using h _ hmem
  · intro h entry hmem
    simp only [decide_eq_false_iff_not]
    rintro rfl
    exact h hmem

theorem freeCluster?_getElem? (h : fs.freeCluster? = some c) : fs.fFat[c]? = some kFreeCluster := by
  obtain ⟨hc, hfree⟩ := freeCluster?_spec h
  rw [List.getElem?_eq_getElem hc, hfree]

theorem not_free_of_lt (h : fs.freeCluster? = some c) (hi : i < c) : fs.fFat[i]? ≠ some kFreeCluster := by
  obtain ⟨hc, -, hmin⟩ := List.findIdx?_eq_some_iff_getElem.1 h
  have hentry := hmin i hi
  rw [List.getElem?_eq_getElem (by omega)]
  intro heq
  exact hentry (by simpa using heq)

theorem Written.looksUp_iff (hwf : fs.WellFormed) (h : fs.Written fs' c slot name) (hnode : fs'.DirNode dir node')
    (hflags : fFlags &&& kAttrDirectory ≠ 0) {other : List UInt8} {result : Option Found} :
    FatNode.LooksUp fs' node' fFlags other result ↔ result =
      if other = [0x2e] then some .this else (FatNode.findIn fs' (fs.visited dir) other).map (FatNode.made fs) := by
  have hmade : FatNode.made fs' = FatNode.made fs := by
    funext entry
    rw [FatNode.made, FatNode.made, h.volume.clusterToLba]
  have hwalked := walked_visited (hwf.toLayout.of_sameVolume h.volume) hnode
  rw [(h.volume.sectors dir).2] at hwalked
  rw [FatNode.looksUp_iff hwalked hnode.hint hflags, hmade]

section

variable (hwf : fs.WellFormed) (hnode : fs.DirNode dir node) (hflags : fFlags &&& kAttrDirectory ≠ 0)
    (hname : ValidName name)
include hwf hnode hflags hname

/-- **The condition is enough.** -/
theorem made_of_suits (habsent : ¬ fs.Present dir name) (hfree : fs.freeCluster? = some c)
    (hholds : ∀ j < fs.getClusterSize, fs.device (c + j) = newDirectory c j)
    (hslot : fs.firstFree (fs.visited dir) = some slot)
    (hreads : (entryAt (newEntry fs.device slot name c) slot).getFilename = name) (h : fs.Written fs' c slot name)
    (hstart : node'.fStartLba = node.fStartLba) (hhint : node'.fHintOffset = 0 → node'.fHintLba = node'.fStartLba) :
    fs.Made fs' dir node node' fFlags name c [] slot := by
  have hnode' := h.dirNode hnode (freeCluster?_getElem? hfree) hstart hhint
  obtain ⟨hlt, -⟩ := freeCluster?_spec hfree
  obtain ⟨hothers, hnew⟩ := h.findIn_eq hwf hnode.begins hname hlt hslot hholds
  obtain ⟨hcluster, hattr, -⟩ := @newEntry_fields fs.device slot c name hname (Nat.lt_of_lt_of_le hlt hwf.clusters)
  obtain ⟨-, -, -, -, -, hdot⟩ := hname.head
  refine ⟨?_, fun a ha => ?_, ?_, ?_, fun other hne result => ?_⟩
  · intro x hx
    rw [mem_singleton.1 hx]
    exact freeCluster?_getElem? hfree
  · by_contra hmay
    refine ha (h.eq_outside hholds (fun hentry => hmay (.inl ⟨c, .head _, .inl hentry⟩)) ?_)
    by_contra hin
    exact hmay (.inr (.inr ⟨by omega, by omega⟩))
  · rw [slots_append]
    exact mem_append_left _ (slots_visited hwf.toLayout (firstFree_spec hslot).1)
  · refine ⟨.new (fs.clusterToLba c) (entryAt (newEntry fs.device slot name c) slot).fileLength, 16,
      (h.looksUp_iff hwf hnode' hflags).2 ?_, rfl, by decide, 0, fs', _, rfl⟩
    rw [if_neg hdot, hnew hreads habsent, map_some, FatNode.made, hcluster, hattr]
  · rw [h.looksUp_iff hwf hnode' hflags, FatNode.looksUp_iff (walked_visited hwf.toLayout hnode) hnode.hint hflags,
      hothers other (by rwa [hreads])]

theorem makesDir_of_suits (stack : Memory) (h : fs.Suits dir name) : fs.MakesDir dir node fFlags stack name := by
  rcases h with ⟨rfl, hfull⟩ | ⟨habsent, c, slot, hfree, hflush, hholds, hslot, hreads⟩
  · obtain ⟨rounds, node', hmake⟩ := FatNode.makeDir_of_full_root hwf hnode hflags hfull stack name
    refine ⟨fun _ => ⟨rounds, MakeDirStatus.E_IO, fs, node', hmake, by decide, rfl⟩, fun _ _ hslot => ?_⟩
    have hfull' : fs.firstFree (fs.sectors .root) = none := hfull
    rcases hslot with hsome | ⟨hne, -⟩
    · rw [hfull'] at hsome
      cases hsome
    · exact absurd rfl hne
  · have hsome : fs.freeClusters ≠ 0 := by
      rw [Ne, ← freeCluster?_eq_none_iff, hfree]
      simp
    refine ⟨fun hfails => ?_, fun _ _ _ => ?_⟩
    · rcases hfails with hpresent | hnone
      · exact absurd hpresent habsent
      · exact absurd hnone hsome
    · obtain ⟨rounds, fs', node', hmake, hstart, hhint, hwritten⟩ :=
        FatNode.makeDir_written hwf hnode hflags hslot hfree hflush stack name
      exact ⟨rounds, fs', node', hmake, c, [], slot,
        made_of_suits hwf hnode hflags hname habsent hfree hholds hslot hreads hwritten hstart hhint⟩

end

/-! ## The condition is necessary -/

def IsLast (dir : Dir) (x : Nat) : Prop := ∃ cs, ∃ hcs : cs ≠ [], dir = .clusters cs ∧ x = cs.getLast hcs

variable {x : Nat}

theorem IsLast.unique {y : Nat} (hx : IsLast dir x) (hy : IsLast dir y) : x = y := by
  obtain ⟨cs, hcs, rfl, rfl⟩ := hx
  obtain ⟨cs', hcs', heq, rfl⟩ := hy
  obtain rfl := Dir.clusters.inj heq
  rfl

theorem IsLast.two_le (hbegins : fs.BeginsAt startLba dir) (hx : IsLast dir x) : 2 ≤ x := by
  obtain ⟨cs, hcs, rfl, rfl⟩ := hx
  obtain ⟨start, hchain, -⟩ := hbegins
  exact (hchain.usable _ (getLast_mem hcs)).two_le

theorem clusterToLba_ge (hwf : fs.WellFormed) (h : fs.fFat[x]? = some kFreeCluster) :
    fs.fRootDirStart ≤ fs.clusterToLba x := by
  have h2 := hwf.two_le_of_free h
  obtain ⟨hlt, -⟩ := List.getElem?_eq_some_iff.1 h
  have hlen := hwf.clusters
  have hdata := hwf.fDataStart_lt
  have hmul := Nat.mul_le_mul (show x - 2 ≤ 2 ^ 16 by omega) (Nat.le_of_lt hwf.sectorsPerCluster.2)
  have hroot := hwf.fRootDirStart_le
  rw [clusterToLba, sub32_of_le h2 (by omega), u32_of_lt (by omega)]
  omega

/-- Before the root directory, only entries of free clusters and that of the directory's last cluster may change. -/
theorem MayChange.inEntry (hwf : fs.WellFormed) (hbegins : fs.BeginsAt startLba dir) {ext : List Nat}
    (hfree : ∀ x ∈ c :: ext, fs.fFat[x]? = some kFreeCluster)
    (hslot : slot ∈ slots (fs.sectors dir ++ fs.clusterSectors fs.fSuperBlock.sectorsPerCluster ext))
    (h : fs.MayChange dir c ext slot a) (ha : a < kBlockSize * fs.fRootDirStart) :
    ∃ x, fs.InEntry x a ∧ (fs.fFat[x]? = some kFreeCluster ∨ IsLast dir x) := by
  rcases h with ⟨x, hx, hentry | hcluster⟩ | ⟨-, cs, hcs, hdir, hentry⟩ | hin
  · exact ⟨x, hentry, .inl (hfree x hx)⟩
  · have hge := clusterToLba_ge hwf (hfree x hx)
    have hlow := hcluster.1
    unfold kBlockSize at *
    omega
  · exact ⟨_, hentry, .inr ⟨cs, hcs, hdir, rfl⟩⟩
  · obtain ⟨lba, hlba, i, hi, rfl⟩ := mem_slots.1 hslot
    have hge : fs.fRootDirStart ≤ lba := by
      rcases mem_append.1 hlba with hlba | hlba
      · exact sectors_ge hwf.toLayout hbegins hlba
      · obtain ⟨x, hx, hrange⟩ := mem_flatMap.1 hlba
        exact Nat.le_trans (clusterToLba_ge hwf (hfree x (mem_cons_of_mem c hx))) (mem_range'_1.1 hrange).1
    unfold kBlockSize at *
    omega

theorem newDirectory_ne_signature : ∀ c < 511, newDirectory c (510 - c) ≠ 0x55 := by decide +kernel

theorem newDirectory_zero (h : 60 ≤ j) : newDirectory c j = 0 := by
  unfold newDirectory
  rw [writeLE_outside _ (by omega), write8_of_ne _ (by omega), write8_of_ne _ (by omega), write8_of_ne _ (by omega),
    writeLE_outside _ (by omega), write8_of_ne _ (by omega), write8_of_ne _ (by omega)]

/-- Before the root directory a creation has changed no byte that it may not, and has written at the byte with the
number of the cluster. -/
structure Spares (fs fs' : FatFileSystem) (dir : Dir) (c : Nat) : Prop where
  low : ∀ a, a < fs.fatStart → fs'.device a = fs.device a
  kept : ∀ i, i < fs.fFat.length → fs.fFat[i]? ≠ some kFreeCluster → ¬ IsLast dir i → ∀ a, fs.InEntry i a →
    fs'.device a = fs.device a
  overwritten : ∀ a, a < kBlockSize * fs.fRootDirStart → c ≤ a → a < c + fs.getClusterSize →
    fs'.device a = newDirectory c (a - c)

theorem Written.spares (hwf : fs.WellFormed) (hbegins : fs.BeginsAt startLba dir)
    (h : fs.Written fs' c slot name) (hslot : slot ∈ slots (fs.sectors dir))
    (hframe : ∀ a, a < kBlockSize * fs.fRootDirStart → fs'.device a ≠ fs.device a →
      ∃ x, fs.InEntry x a ∧ (fs.fFat[x]? = some kFreeCluster ∨ IsLast dir x)) : fs.Spares fs' dir c := by
  have hend := hwf.fat_inside.2
  refine ⟨fun a ha => ?_, fun i hi hused hnotlast a hentry => ?_, fun a ha => h.overwritten a ?_⟩
  · by_contra hne
    obtain ⟨x, hentry, -⟩ := hframe a (by omega) hne
    have hge := hentry.1
    omega
  · by_contra hne
    have hhigh := hentry.2
    obtain ⟨x, hentry', hx⟩ := hframe a (by omega) hne
    obtain rfl : x = i := by
      have h1 := hentry.1
      have h1' := hentry'.1
      have h2' := hentry'.2
      omega
    exact hx.elim hused hnotlast
  · obtain ⟨lba, hlba, i, hi, rfl⟩ := mem_slots.1 hslot
    have hge := sectors_ge hwf.toLayout hbegins hlba
    unfold kBlockSize at *
    omega

theorem getClusterSize_ge (h : fs.Layout) : 512 ≤ fs.getClusterSize :=
  Nat.le_mul_of_pos_left _ h.sectorsPerCluster.1

section

variable (h : fs.Spares fs' dir c) (hwf : fs.WellFormed)
include h hwf

/-- The signature would not be spared. -/
theorem Spares.ge (h2 : 2 ≤ c) : 512 ≤ c := by
  obtain ⟨hstart, hend⟩ := hwf.fat_inside
  have hsize := getClusterSize_ge hwf.toLayout
  by_contra hlt
  by_cases hlast : c = 511
  · have hsig := hwf.signature.2
    rw [← h.low 511 (by omega), h.overwritten 511 (by omega) (by omega) (by omega), hlast] at hsig
    exact absurd hsig (by decide)
  · have hsig := hwf.signature.1
    rw [← h.low 510 (by omega), h.overwritten 510 (by omega) (by omega) (by omega)] at hsig
    exact newDirectory_ne_signature c (by omega) hsig

theorem Spares.not_zeros (hi : i < fs.fFat.length)
    (hused : fs.fFat[i]? ≠ some kFreeCluster) (hnotlast : ¬ IsLast dir i) (hfrom : c + 60 ≤ fs.fatStart + 2 * i) :
    c + fs.getClusterSize < fs.fatStart + 2 * i + 2 := by
  have hend := hwf.fat_inside.2
  by_contra hto
  have hbyte : ∀ b < 2, fs.device (fs.fatStart + 2 * i + b) = 0 := by
    intro b hb
    rw [← h.kept i hi hused hnotlast _ ⟨by omega, by omega⟩, h.overwritten _ (by omega) (by omega) (by omega),
      newDirectory_zero (by omega)]
  have hentry := hwf.synced i hi
  have hb0 := hbyte 0 (by decide)
  rw [Nat.add_zero] at hb0
  simp only [readLE, hb0, hbyte 1 (by decide)] at hentry
  exact hused (by rw [List.getElem?_eq_getElem hi, ← hentry]; rfl)

/-- **Nothing has been overwritten** if the creation has spared what it may not change: it would otherwise have taken
the signature, something before the table, or entries that are in use. -/
theorem Spares.holds (hbegins : fs.BeginsAt startLba dir)
    (hfirst : fs.freeCluster? = some c) : ∀ j < fs.getClusterSize, fs.device (c + j) = newDirectory c j := by
  have h512 := h.ge hwf (hwf.two_le_of_free (freeCluster?_getElem? hfirst))
  obtain ⟨hclen, -⟩ := freeCluster?_spec hfirst
  obtain ⟨hstart, hend⟩ := hwf.fat_inside
  have hsize := getClusterSize_ge hwf.toLayout
  have hmedia : ∀ i < 2, ¬ IsLast dir i := fun i hi hlast => absurd (hlast.two_le hbegins) (by omega)
  intro j hj
  by_contra hne
  have hchanged : c + j < kBlockSize * fs.fRootDirStart → fs'.device (c + j) ≠ fs.device (c + j) := by
    intro hlt heq
    rw [h.overwritten _ hlt (by omega) (by omega), Nat.add_sub_cancel_left] at heq
    exact hne heq.symm
  by_cases hbefore : c + j < fs.fatStart
  · exact hchanged (by omega) (h.low _ hbefore)
  · by_cases hfirst2 : c + j < fs.fatStart + 4
    · -- the first two entries are in use
      exact hchanged (by omega) (h.kept ((c + j - fs.fatStart) / 2) (by omega) (not_free_of_lt hfirst (by omega))
        (hmedia _ (by omega)) _ ⟨by omega, by omega⟩)
    · by_cases hfar : c + 60 ≤ fs.fatStart
      · have hto := h.not_zeros hwf (i := 0) (by omega) (not_free_of_lt hfirst (by omega)) (hmedia 0 (by decide)) (by omega)
        omega
      · -- two entries in a row, of which one is not that of the last cluster
        obtain ⟨i, hi⟩ : ∃ i, i = (c + 61 - fs.fatStart) / 2 := ⟨_, rfl⟩
        by_cases hlast : IsLast dir i
        · have hnotlast : ¬ IsLast dir (i + 1) := fun hlast' => absurd (hlast.unique hlast') (by omega)
          have hto := h.not_zeros hwf (by omega) (not_free_of_lt hfirst (by omega)) hnotlast (by omega)
          omega
        · have hto := h.not_zeros hwf (by omega) (not_free_of_lt hfirst (by omega)) hlast (by omega)
          omega

end

theorem flushes_of_allocateCluster (hwf : fs.WellFormed) (hfree : fs.freeCluster? = some c)
    (h : fs.allocateCluster ≠ none) : fs.Flushes c := by
  have hlen : (fs.setFat c kClusterChainDelimiter).fFat.length = fs.fFat.length := length_set
  have hroot := hwf.fRootDirStart_le
  have hdata := hwf.fDataStart_lt
  have hfat := hwf.fat_inside.2
  have hbound : c + kBlockSize / 2 ≤ fs.fFat.length := by
    by_contra hgt
    refine h ?_
    rw [allocateCluster, hfree]
    dsimp only
    rw [flushFat, hlen, if_neg hgt, map_none]
  refine ⟨hbound, ?_⟩
  unfold kBlockSize at *
  omega

/-- **The condition is necessary** in a directory with a free entry, and in the root directory. -/
theorem suits_of_makesDir (hwf : fs.WellFormed) (hnode : fs.DirNode dir node) (hflags : fFlags &&& kAttrDirectory ≠ 0)
    (hname : ValidName name) (stack : Memory) (hdir : dir = .root ∨ (fs.firstFree (fs.visited dir)).isSome = true)
    (h : fs.MakesDir dir node fFlags stack name) : fs.Suits dir name := by
  rcases hslot : fs.firstFree (fs.visited dir) with _ | slot
  · rw [hslot] at hdir
    rcases hdir with rfl | hsome
    · exact .inl ⟨rfl, hslot⟩
    · cases hsome
  · obtain ⟨rounds, node₁, block, -, -, -, hmake⟩ := FatNode.makeDir_of_firstFree hwf hnode hflags hslot stack name
    -- it never fails
    have hnofail : ∀ {n status fs' node'}, node.makeDir n fs fFlags stack name = some (status, fs', node') →
        status = .written ∧ fs.allocateCluster ≠ none := by
      intro n status fs' node' hn
      have hn' := FatNode.makeDir_mono (Nat.le_max_left n rounds) hn
      rw [hmake _ (Nat.le_max_right n rounds)] at hn'
      obtain ⟨r, hr, heq⟩ := map_eq_some_iff.1 hn'
      exact ⟨(congrArg Prod.fst heq).symm, by rw [hr]; simp⟩
    have hfails : ¬ (fs.Present dir name ∨ fs.freeClusters = 0) := by
      intro hfail
      obtain ⟨n, status, fs', node', hn, hne, -⟩ := h.fails hfail
      exact hne (hnofail hn).1
    rw [not_or, ← freeCluster?_eq_none_iff] at hfails
    obtain ⟨habsent, hsome⟩ := hfails
    obtain ⟨c, hfree⟩ := ne_none_iff_exists'.1 hsome
    have hslotmem := slots_visited hwf.toLayout (firstFree_spec hslot).1
    have havailable : fs.SlotAvailable dir :=
      .inl (List.find?_isSome.2 ⟨slot, hslotmem, (firstFree_spec hslot).2⟩)
    have hcount : 1 ≤ fs.freeClusters := by
      rw [freeCluster?_eq_none_iff] at hsome
      omega
    obtain ⟨n, fs', node', hn, c', ext, slot', hmade⟩ := h.makes habsent hcount havailable
    have hflush := flushes_of_allocateCluster hwf hfree (hnofail hn).2
    obtain ⟨m, fs'', node'', hm, hstart, hhint, hwritten⟩ :=
      FatNode.makeDir_written hwf hnode hflags hslot hfree hflush stack name
    have hsame := FatNode.makeDir_unique hn hm
    obtain ⟨-, rfl, rfl⟩ := hsame
    have hspares := hwritten.spares hwf hnode.begins hslotmem fun a ha hne =>
      (hmade.frame a hne).inEntry hwf hnode.begins hmade.free hmade.slot_mem ha
    have hholds := hspares.holds hwf hnode.begins hfree
    refine .inr ⟨habsent, c, slot, hfree, hflush, hholds, hslot, ?_⟩
    -- the name is not found under another one
    obtain ⟨made, flags, hfound, -⟩ := hmade.found
    obtain ⟨hlt, -⟩ := freeCluster?_spec hfree
    have hnode' := hwritten.dirNode hnode (freeCluster?_getElem? hfree) hstart hhint
    obtain ⟨-, -, -, -, -, hdot⟩ := hname.head
    rw [hwritten.looksUp_iff hwf hnode' hflags, if_neg hdot] at hfound
    by_contra hreads
    have hnone : FatNode.findIn fs (fs.visited dir) name = none := by
      rw [FatNode.findIn, List.find?_eq_none]
      intro entry hmem
      obtain ⟨t, ht, rfl⟩ := List.mem_map.1 hmem
      rw [not_present_iff.1 habsent t (slots_visited hwf.toLayout ht)]
      simp
    rw [(hwritten.findIn_eq hwf hnode.begins hname hlt hslot hholds).1 name (Ne.symm hreads), hnone] at hfound
    cases hfound

/-- **Making a directory.** In every well-formed volume, every directory and for every name, `MakeDir` does what it has
to do if the condition holds; in the root directory, and in a directory with a free entry, it does so only then. -/
theorem makesDir_iff (hwf : fs.WellFormed) (hnode : fs.DirNode dir node) (hflags : fFlags &&& kAttrDirectory ≠ 0)
    (hname : ValidName name) (stack : Memory) :
    (fs.Suits dir name → fs.MakesDir dir node fFlags stack name) ∧
      (dir = .root ∨ (fs.firstFree (fs.visited dir)).isSome = true →
        (fs.MakesDir dir node fFlags stack name ↔ fs.Suits dir name)) :=
  ⟨makesDir_of_suits hwf hnode hflags hname stack, fun hdir =>
    ⟨suits_of_makesDir hwf hnode hflags hname stack hdir, makesDir_of_suits hwf hnode hflags hname stack⟩⟩

end Condition

/-! ## Small volumes -/

theorem wellFormed_small {n : Nat} {entries : List Nat} {device : Memory} (hn : n ≤ 256)
    (hlen : entries.length + 2 = 256 * n) (hnarrow : ∀ entry ∈ entries, entry < 256 ^ 2)
    (hdevice : ∀ a, 1024 ≤ a → a < 1024 + 512 * n →
      device a = ofList 1024 ((0xfff8 :: 0xffff :: entries).flatMap fun entry => leBytes entry 2) a)
    (hsignature : device 510 = 0x55 ∧ device 511 = 0xaa) :
    FatFileSystem.WellFormed ⟨⟨1, 1, 1, 16, n⟩, 1, 0xfff8 :: 0xffff :: entries, device⟩ := by
  have hnarrow' : ∀ entry ∈ 0xfff8 :: 0xffff :: entries, entry < 256 ^ 2 := by
    intro entry hmem
    rcases mem_cons.1 hmem with rfl | hmem
    · decide
    · rcases mem_cons.1 hmem with rfl | hmem
      · decide
      · exact hnarrow entry hmem
  have hlayout : FatFileSystem.Layout ⟨⟨1, 1, 1, 16, n⟩, 1, 0xfff8 :: 0xffff :: entries, device⟩ :=
    ⟨(by decide : 0 < 1 ∧ 1 < 2 ^ 8), (by decide : 16 ≤ 16), (by omega : 1 + 1 + 1 * n + 16 / 16 < 2 ^ 22)⟩
  refine ⟨hlayout, fun c hc => ?_, hnarrow', ⟨_, _, _, rfl, by decide, by decide⟩, hlen, (by omega : _ + 2 ≤ 2 ^ 16),
    (by decide : 1 ≤ 1), (by decide : 1 ≤ 1 + 1), hsignature⟩
  have hstart : FatFileSystem.fatStart ⟨⟨1, 1, 1, 16, n⟩, 1, 0xfff8 :: 0xffff :: entries, device⟩ = 1024 :=
    (by decide : (1 + 1) * 512 = 1024)
  have hread := readLE_of_holds_flatMap (holds_ofList 1024 _) hnarrow' hc
  have hlt : c < entries.length + 2 := hc
  rw [hstart]
  refine Eq.trans (readLE_congr fun a ha => ?_) hread
  rw [Set.mem_Ico] at ha
  exact hdevice a (by omega) (by omega)

/-- An empty volume. Its root directory, one sector at byte 2048, is filled with a byte, as is what is behind it. -/
def filled (fill : UInt8) : FatFileSystem where
  fSuperBlock := ⟨1, 1, 1, 16, 2⟩
  fPartStartSector := 1
  fFat := [0xfff8, 0xffff] ++ List.replicate 510 0
  device := fun a => if a = 510 then 0x55 else if a = 511 then 0xaa else if 2048 ≤ a then fill else
    ofList 1024 (([0xfff8, 0xffff] ++ List.replicate 510 0).flatMap fun entry => leBytes entry 2) a

theorem wellFormed_filled (fill : UInt8) : (filled fill).WellFormed := by
  refine wellFormed_small (by decide) ?_ (fun entry hmem => ?_) (fun a hlow hhigh => ?_) ⟨rfl, rfl⟩
  · show (List.replicate 510 0).length + 2 = _
    rw [length_replicate]
  · rw [eq_of_mem_replicate hmem]
    decide
  · show (if a = 510 then _ else if a = 511 then _ else if 2048 ≤ a then _ else _) = _
    rw [if_neg (by omega), if_neg (by omega), if_neg (by omega)]
    rfl

/-- A volume whose first free cluster is 512, and whose device has the data of that directory at byte 512. The root
directory, at byte 2560, is empty. -/
def prepared : FatFileSystem where
  fSuperBlock := ⟨1, 1, 1, 16, 3⟩
  fPartStartSector := 1
  fFat := 0xfff8 :: 0xffff :: (List.replicate 510 0xffff ++ List.replicate 256 0)
  device := fun a => if a = 510 then 0x55 else if a = 511 then 0xaa else
    if 512 ≤ a ∧ a < 1024 then newDirectory 512 (a - 512) else if 2560 ≤ a then 0 else
    ofList 1024 ((0xfff8 :: 0xffff :: (List.replicate 510 0xffff ++ List.replicate 256 0)).flatMap
      fun entry => leBytes entry 2) a

theorem wellFormed_prepared : prepared.WellFormed := by
  refine wellFormed_small (by decide) ?_ (fun entry hmem => ?_) (fun a hlow hhigh => ?_) ⟨rfl, rfl⟩
  · rw [length_append, length_replicate, length_replicate]
  · rcases mem_append.1 hmem with hmem | hmem <;> (rw [eq_of_mem_replicate hmem]; decide)
  · show (if a = 510 then _ else if a = 511 then _ else if _ ∧ _ then _ else if 2560 ≤ a then _ else _) = _
    rw [if_neg (by omega), if_neg (by omega), if_neg (by omega), if_neg (by omega)]

theorem suits_prepared : prepared.Suits .root [0x61] := by
  have habsent : ¬ (FatNode.findIn prepared (prepared.sectors .root) [0x61]).isSome = true := by decide +kernel
  refine .inr ⟨habsent, 512, 2560, by decide +kernel, ⟨by decide +kernel, by decide⟩, fun j hj => ?_,
    by decide +kernel, by decide +kernel⟩
  have hj' : j < 1 * 512 := hj
  show (if 512 + j = 510 then _ else if 512 + j = 511 then _ else if _ ∧ _ then _ else _) = _
  rw [if_neg (by omega), if_neg (by omega), if_pos (by omega), Nat.add_sub_cancel_left]

theorem dirNode_filled (fill : UInt8) : (filled fill).DirNode .root (.new 4 512) :=
  ⟨rfl, fun _ => rfl, (wellFormed_filled fill).root_reached⟩

theorem dirNode_prepared : prepared.DirNode .root (.new 5 512) :=
  ⟨rfl, fun _ => rfl, wellFormed_prepared.root_reached⟩

theorem validName_a : ValidName [0x61] := by
  refine ⟨[0x61], [], fun c hc => ?_, by simp, by simp, by simp, rfl⟩
  rw [append_nil, mem_singleton] at hc
  rw [hc]
  rfl

/-- In a root directory of files called `aaaaaaaa.aaa` no directory is made; and on the prepared volume the directory
`a` is. -/
theorem makesDir_full_and_prepared : (filled 0x41).MakesDir .root (.new 4 512) 16 (fun _ => 0) [0x61] ∧
    prepared.MakesDir .root (.new 5 512) 16 (fun _ => 0) [0x61] :=
  ⟨(makesDir_iff (wellFormed_filled 0x41) (dirNode_filled 0x41) (by decide) validName_a (fun _ => 0)).1
    (.inl ⟨rfl, by decide +kernel⟩),
  (makesDir_iff wellFormed_prepared dirNode_prepared (by decide) validName_a (fun _ => 0)).1 suits_prepared⟩

/-- In an empty root directory the directory `a` takes cluster 2, and the first sector of the device is overwritten from
byte 2 on. -/
theorem makeDir_takes_signature : (filled 0).WellFormed ∧ (filled 0).DirNode .root (.new 4 512) ∧ ValidName [0x61] ∧
    ¬ (filled 0).MakesDir .root (.new 4 512) 16 (fun _ => 0) [0x61] := by
  refine ⟨wellFormed_filled 0, dirNode_filled 0, validName_a, fun h => ?_⟩
  have hfree : (filled 0).freeCluster? = some 2 := by decide +kernel
  rcases suits_of_makesDir (wellFormed_filled 0) (dirNode_filled 0) (by decide) validName_a (fun _ => 0) (.inl rfl) h with
    ⟨-, hfull⟩ | ⟨-, c, slot, hc, -, hholds, -⟩
  · exact absurd hfull (by decide +kernel)
  · rw [hfree] at hc
    obtain rfl := Option.some.inj hc
    exact absurd (hholds 0 (by decide)) (by decide +kernel)

end FatFileSystem

end Fat
