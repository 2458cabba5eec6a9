import SkyOS.Fat.FatFileSystem
import SkyOS.Lib.Chain

/-!
# The FAT16 file system: the blocks of a file (`driver/FAT.cpp`)

`LookupBlock` walks from the remembered block, or from the first one, to the block it is asked for, and remembers it.
`GetNextBlock` takes a step: to the next sector, and at the end of a cluster through the table. Which sector is the
last one of its cluster it reads off the sector number, which takes the data area to begin right behind a multiple of
the cluster size.

| here | there |
| --- | --- |
| `FileChain` | the clusters of a file, in order |
| `sector` | the sector of a block of the file |
| `Block` | the blocks whose offset is a 32-bit number |
| `Aligned` | the last sector of a cluster is where `GetNextBlock` takes it to be |
-/

namespace Fat

open Machine Bytes LinkChain List Option

/-! ## The source -/

structure FatNode where
  fStartLba : Nat
  fLength : Nat
  fHintOffset : Nat
  fHintLba : Nat
deriving DecidableEq

namespace FatNode

/-- The constructor (:318). -/
def new (startLba size : Nat) : FatNode := ⟨startLba, size, 0, startLba⟩

/-- The loop of `LookupBlock` (:507), of at most `rounds` rounds; the inner `none` is `E_IO`. -/
def walk (extend : Bool) (requestOffset : Nat) :
    Nat → FatFileSystem → Nat → Nat → Option (FatFileSystem × Option Nat)
  | 0, fs, lba, currentOffset => if currentOffset < requestOffset then none else some (fs, some lba)
  | rounds + 1, fs, lba, currentOffset =>
    if currentOffset < requestOffset then
      match fs.getNextBlock lba extend with
      | none => none
      | some (fs, lba) =>
        if lba = kEndOfFile then some (fs, none)
        else walk extend requestOffset rounds fs lba (u32 (currentOffset + kBlockSize))
    else some (fs, some lba)

/-- The start of `LookupBlock` (:497). -/
def rewind (node : FatNode) (requestOffset : Nat) : FatNode :=
  if requestOffset < node.fHintOffset then { node with fHintOffset := 0, fHintLba := node.fStartLba } else node

/-- `LookupBlock` (:494), with the block that it found. -/
def lookupBlock (fs : FatFileSystem) (node : FatNode) (requestOffset : Nat) (extend : Bool) :
    Option (FatFileSystem × FatNode × Option Nat) :=
  let node := node.rewind requestOffset
  match walk extend requestOffset (requestOffset / kBlockSize + 1) fs node.fHintLba node.fHintOffset with
  | none => none
  | some (fs, none) => some (fs, node, none)
  | some (fs, some lba) => some (fs, { node with fHintOffset := requestOffset, fHintLba := lba }, some lba)

/-- `ReadBlock` (:463): `read_pos` takes the position as an `int`, and fails where there is no such place. -/
def readBlock (fs : FatFileSystem) (node : FatNode) (offset : Nat) :
    Option (FatFileSystem × FatNode × Option (List UInt8)) :=
  match node.lookupBlock fs offset false with
  | none => none
  | some (fs, node, none) => some (fs, node, none)
  | some (fs, node, some lba) =>
    let pos := toInt32 (u32 (lba * kBlockSize))
    some (fs, node, if 0 ≤ pos then some (slice fs.device pos.toNat kBlockSize) else none)

/-- The loop of `Read` (:528) over the blocks of a page, with the blocks it delivers. -/
def readLoop : Nat → FatFileSystem → FatNode → Nat → Option (FatFileSystem × FatNode × List (List UInt8))
  | 0, fs, node, _ => some (fs, node, [])
  | rounds + 1, fs, node, offset =>
    if offset ≥ node.fLength then some (fs, node, [])
    else
      match node.readBlock fs offset with
      | none => none
      | some (fs, node, none) => some (fs, node, [])
      | some (fs, node, some data) =>
        (readLoop rounds fs node (u32 (offset + kBlockSize))).map fun r => (r.1, r.2.1, data :: r.2.2)

/-- `Read` (:524) of the page at an offset. -/
def read (fs : FatFileSystem) (node : FatNode) (offset : Nat) :
    Option (FatFileSystem × FatNode × List (List UInt8)) :=
  node.readLoop (0x1000 / kBlockSize) fs offset

end FatNode

variable {k : Nat}

variable {n : Nat}

namespace FatFileSystem

/-! ## The clusters of a file -/

def link (fs : FatFileSystem) (c : Nat) : Nat :=
  if kClusterChainDelimiter ≤ fs.fFat.getD c 0 then kEndOfFile else fs.fFat.getD c 0

/-- A cluster number of the table that is no end marker, and whose sectors have 32-bit numbers below the one that
stands for the end of a file. -/
structure Usable (fs : FatFileSystem) (c : Nat) : Prop where
  two_le : 2 ≤ c
  lt : c < kClusterChainDelimiter
  inside : c < fs.fFat.length
  sectors : fs.fDataStart + (c - 2) * fs.fSuperBlock.sectorsPerCluster + fs.fSuperBlock.sectorsPerCluster < 2 ^ 32

/-- The clusters of the file that starts at `start`. -/
structure FileChain (fs : FatFileSystem) (start : Nat) (cs : List Nat) : Prop where
  chain : Chain fs.link kEndOfFile start cs
  usable : ∀ c ∈ cs, fs.Usable c
  nonempty : cs ≠ []

/-- The sector of the block `k` of a file. -/
def sector (fs : FatFileSystem) (cs : List Nat) (k : Nat) : Nat :=
  fs.clusterToLba (cs.getD (k / fs.fSuperBlock.sectorsPerCluster) 0) + k % fs.fSuperBlock.sectorsPerCluster

def blocks (fs : FatFileSystem) (cs : List Nat) : Nat := fs.fSuperBlock.sectorsPerCluster * cs.length

def Aligned (fs : FatFileSystem) : Prop :=
  fs.fDataStart % fs.fSuperBlock.sectorsPerCluster = 1 % fs.fSuperBlock.sectorsPerCluster
  deriving Decidable

variable {fs : FatFileSystem} {c i : Nat}

theorem clusterToLba_eq (hc : fs.Usable c) :
    fs.clusterToLba c = fs.fDataStart + (c - 2) * fs.fSuperBlock.sectorsPerCluster := by
  obtain ⟨h2, hlt, -, hsec⟩ := hc
  unfold kClusterChainDelimiter at hlt
  rw [clusterToLba, sub32_of_le h2 (by omega), u32_of_lt (by omega), Nat.add_comm]

theorem lbaToCluster_eq (hspc : 0 < fs.fSuperBlock.sectorsPerCluster) (hc : fs.Usable c)
    (hi : i < fs.fSuperBlock.sectorsPerCluster) : fs.lbaToCluster (fs.clusterToLba c + i) = c := by
  have hsec := hc.sectors
  have h2 := hc.two_le
  have hlt := hc.lt
  unfold kClusterChainDelimiter at hlt
  have hdiv : ((c - 2) * fs.fSuperBlock.sectorsPerCluster + i) / fs.fSuperBlock.sectorsPerCluster = c - 2 := by
    rw [Nat.add_comm, Nat.add_mul_div_right _ _ hspc, Nat.div_eq_of_lt hi, Nat.zero_add]
  rw [lbaToCluster, clusterToLba_eq hc, sub32_of_le (by omega) (by omega)]
  have hsub : fs.fDataStart + (c - 2) * fs.fSuperBlock.sectorsPerCluster + i - fs.fDataStart =
      (c - 2) * fs.fSuperBlock.sectorsPerCluster + i := by omega
  rw [hsub, hdiv, u32_of_lt (by omega)]
  omega

/-- A sector of a cluster is in the data area, and it is where `GetNextBlock` looks into the table if its number is a
multiple of the cluster size. -/
theorem looks_iff (hc : fs.Usable c) (hi : i < fs.fSuperBlock.sectorsPerCluster) :
    fs.Looks (fs.clusterToLba c + i) ↔
      (fs.fDataStart + i) % fs.fSuperBlock.sectorsPerCluster = 0 := by
  have hsec := hc.sectors
  have hne : fs.clusterToLba c + i ≠ sub32 fs.fDataStart 1 := by
    rw [clusterToLba_eq hc]
    unfold sub32 u32
    omega
  have hmod : (fs.clusterToLba c + i) % fs.fSuperBlock.sectorsPerCluster =
      (fs.fDataStart + i) % fs.fSuperBlock.sectorsPerCluster := by
    rw [clusterToLba_eq hc, Nat.add_right_comm, Nat.add_mul_mod_self_right]
  constructor
  · rintro ⟨-, -, h⟩
    rwa [← hmod]
  · intro h
    exact ⟨hne, by rw [clusterToLba_eq hc]; omega, by rwa [hmod]⟩

theorem looks_iff_last (haligned : fs.Aligned) (hc : fs.Usable c) (hi : i < fs.fSuperBlock.sectorsPerCluster) :
    fs.Looks (fs.clusterToLba c + i) ↔ i + 1 = fs.fSuperBlock.sectorsPerCluster := by
  rw [looks_iff hc hi, ← Nat.mod_add_mod, haligned, Nat.mod_add_mod]
  constructor
  · intro h
    by_contra hne
    rw [Nat.mod_eq_of_lt (by omega)] at h
    omega
  · intro h
    rw [Nat.add_comm, h, Nat.mod_self]

theorem getNextBlock_inside (hc : fs.Usable c) (hi : i < fs.fSuperBlock.sectorsPerCluster)
    (hlooks : ¬ fs.Looks (fs.clusterToLba c + i)) (extend : Bool) :
    fs.getNextBlock (fs.clusterToLba c + i) extend = some (fs, fs.clusterToLba c + (i + 1)) := by
  have hsec := hc.sectors
  rw [looks_iff hc hi] at hlooks
  have hmod : (fs.clusterToLba c + i) % fs.fSuperBlock.sectorsPerCluster =
      (fs.fDataStart + i) % fs.fSuperBlock.sectorsPerCluster := by
    rw [clusterToLba_eq hc, Nat.add_right_comm, Nat.add_mul_mod_self_right]
  have hne : fs.clusterToLba c + i ≠ sub32 fs.fDataStart 1 := by
    rw [clusterToLba_eq hc]
    unfold sub32 u32
    omega
  have hdata : ¬ fs.clusterToLba c + i < fs.fDataStart := by
    rw [clusterToLba_eq hc]
    omega
  have hu : u32 (fs.clusterToLba c + i + 1) = fs.clusterToLba c + (i + 1) := by
    rw [clusterToLba_eq hc, u32_of_lt (by omega)]
    omega
  rw [getNextBlock, if_neg hne, if_neg hdata, if_pos (by rwa [hmod]), hu]

theorem getNextBlock_looks (hspc : 0 < fs.fSuperBlock.sectorsPerCluster) (hc : fs.Usable c)
    (hi : i < fs.fSuperBlock.sectorsPerCluster) (hlooks : fs.Looks (fs.clusterToLba c + i)) :
    fs.getNextBlock (fs.clusterToLba c + i) false =
        some (fs, if kClusterChainDelimiter ≤ fs.fFat.getD c 0 then kEndOfFile else fs.clusterToLba (fs.link c)) ∧
      (¬ kClusterChainDelimiter ≤ fs.fFat.getD c 0 →
        fs.getNextBlock (fs.clusterToLba c + i) true = some (fs, fs.clusterToLba (fs.link c))) := by
  have hget : fs.fFat[c]? = some (fs.fFat.getD c 0) := by
    rw [getD_eq_getElem _ _ hc.inside, List.getElem?_eq_getElem hc.inside]
  constructor
  · rw [getNextBlock_of_looks hlooks, lbaToCluster_eq hspc hc hi, hget]
    dsimp only
    split
    · rfl
    · rename_i hend
      rw [link, if_neg hend]
  · intro hend
    rw [getNextBlock_of_looks hlooks, lbaToCluster_eq hspc hc hi, hget]
    dsimp only
    rw [if_neg hend, link, if_neg hend]

/-! ## Steps along the file -/

section Steps

variable {start : Nat} {cs : List Nat} {k : Nat}

theorem FileChain.cluster (h : fs.FileChain start cs) (hk : k < fs.blocks cs) :
    ∃ (hq : k / fs.fSuperBlock.sectorsPerCluster < cs.length),
      0 < fs.fSuperBlock.sectorsPerCluster ∧ fs.Usable cs[k / fs.fSuperBlock.sectorsPerCluster] ∧
      fs.sector cs k = fs.clusterToLba cs[k / fs.fSuperBlock.sectorsPerCluster] + k % fs.fSuperBlock.sectorsPerCluster := by
  have hq : k / fs.fSuperBlock.sectorsPerCluster < cs.length := Nat.div_lt_of_lt_mul hk
  have hpos : 0 < fs.fSuperBlock.sectorsPerCluster := by
    unfold blocks at hk
    rcases Nat.eq_zero_or_pos fs.fSuperBlock.sectorsPerCluster with h0 | h0
    · rw [h0, Nat.zero_mul] at hk
      omega
    · exact h0
  exact ⟨hq, hpos, h.usable _ (getElem_mem hq), by rw [sector, getD_eq_getElem cs 0 hq]⟩

theorem FileChain.sector_lt (h : fs.FileChain start cs) (hk : k < fs.blocks cs) : fs.sector cs k < kEndOfFile := by
  obtain ⟨hq, hpos, hc, hsector⟩ := h.cluster hk
  have hsec := hc.sectors
  have hmod := Nat.mod_lt k hpos
  rw [hsector, clusterToLba_eq hc, kEndOfFile]
  omega

theorem FileChain.sector_zero (h : fs.FileChain start cs) : fs.sector cs 0 = fs.clusterToLba start := by
  obtain ⟨c, cs', rfl⟩ := exists_cons_of_ne_nil h.nonempty
  have hhead := h.chain.head
  rw [sector, Nat.zero_div, Nat.zero_mod, Nat.add_zero, getD_cons_zero, hhead]

variable {q : Nat}

theorem FileChain.link_eq (h : fs.FileChain start cs) (hq : q + 1 < cs.length) :
    ¬ kClusterChainDelimiter ≤ fs.fFat.getD cs[q] 0 ∧ fs.link cs[q] = cs[q + 1] := by
  have hnext := h.chain.next_getElem (k := q) (by omega)
  rw [getD_eq_getElem cs _ hq] at hnext
  refine ⟨fun hend => ?_, hnext⟩
  have hlt := (h.usable _ (getElem_mem hq)).lt
  rw [link, if_pos hend] at hnext
  rw [← hnext] at hlt
  exact absurd hlt (by decide)

theorem FileChain.link_last (h : fs.FileChain start cs) (hq : q < cs.length) (hlast : q + 1 = cs.length) :
    kClusterChainDelimiter ≤ fs.fFat.getD cs[q] 0 := by
  have hnext := h.chain.next_getElem hq
  rw [getD_eq_default cs _ (by omega)] at hnext
  by_contra hend
  rw [link, if_neg hend] at hnext
  rw [hnext] at hend
  exact hend (by decide)

theorem div_mod_succ {spc : Nat} (hpos : 0 < spc) (k : Nat) :
    (k % spc + 1 < spc → (k + 1) / spc = k / spc ∧ (k + 1) % spc = k % spc + 1) ∧
      (k % spc + 1 = spc → (k + 1) / spc = k / spc + 1 ∧ (k + 1) % spc = 0) := by
  have hk := Nat.div_add_mod k spc
  constructor
  · intro h
    have hsum : k + 1 = spc * (k / spc) + (k % spc + 1) := by omega
    rw [hsum, Nat.mul_add_div hpos, Nat.mul_add_mod, Nat.div_eq_of_lt h, Nat.mod_eq_of_lt h]
    exact ⟨rfl, rfl⟩
  · intro h
    have hsum : k + 1 = spc * (k / spc + 1) := by rw [Nat.mul_succ]; omega
    rw [hsum, Nat.mul_div_cancel_left _ hpos, Nat.mul_mod_right]
    exact ⟨rfl, rfl⟩

/-- **One step**, in a volume whose data area is aligned as the code takes it to be. -/
theorem FileChain.next_sector (h : fs.FileChain start cs) (haligned : fs.Aligned) (hk : k + 1 < fs.blocks cs)
    (extend : Bool) : fs.getNextBlock (fs.sector cs k) extend = some (fs, fs.sector cs (k + 1)) := by
  obtain ⟨hq, hpos, hc, hsector⟩ := h.cluster (Nat.lt_of_succ_lt hk)
  obtain ⟨hq', -, -, hsector'⟩ := h.cluster hk
  obtain ⟨hinside, hend⟩ := div_mod_succ hpos k
  have hmod := Nat.mod_lt k hpos
  rw [hsector, hsector']
  by_cases hlast : k % fs.fSuperBlock.sectorsPerCluster + 1 = fs.fSuperBlock.sectorsPerCluster
  · obtain ⟨hdiv, hzero⟩ := hend hlast
    have hlooks := (looks_iff_last haligned hc hmod).2 hlast
    have hq'' : k / fs.fSuperBlock.sectorsPerCluster + 1 < cs.length := hdiv ▸ hq'
    obtain ⟨hmid, hlink⟩ := h.link_eq hq''
    obtain ⟨hfalse, htrue⟩ := getNextBlock_looks hpos hc hmod hlooks
    have hget : cs[(k + 1) / fs.fSuperBlock.sectorsPerCluster] = cs[k / fs.fSuperBlock.sectorsPerCluster + 1] := by
      congr 1
    rw [hget, hzero, Nat.add_zero]
    rw [if_neg hmid] at hfalse
    cases extend
    · rw [hfalse, hlink]
    · rw [htrue hmid, hlink]
  · obtain ⟨hdiv, hsucc⟩ := hinside (by omega)
    have hlooks : ¬ fs.Looks _ := fun hl => hlast ((looks_iff_last haligned hc hmod).1 hl)
    have hget : cs[(k + 1) / fs.fSuperBlock.sectorsPerCluster] = cs[k / fs.fSuperBlock.sectorsPerCluster] := by
      congr 1
    rw [getNextBlock_inside hc hmod hlooks, hget, hsucc]

theorem FileChain.last_sector (h : fs.FileChain start cs) (haligned : fs.Aligned) (hk : k + 1 = fs.blocks cs) :
    fs.Looks (fs.sector cs k) ∧ fs.lbaToCluster (fs.sector cs k) = cs.getLast h.nonempty ∧
      fs.getNextBlock (fs.sector cs k) false = some (fs, kEndOfFile) := by
  obtain ⟨hq, hpos, hc, hsector⟩ := h.cluster (k := k) (by omega)
  have hmod := Nat.mod_lt k hpos
  have hdm := Nat.div_add_mod k fs.fSuperBlock.sectorsPerCluster
  unfold blocks at hk
  have hlen : k / fs.fSuperBlock.sectorsPerCluster + 1 = cs.length := by
    by_contra hne
    have hle : k / fs.fSuperBlock.sectorsPerCluster + 2 ≤ cs.length := by omega
    have hmul := Nat.mul_le_mul_left fs.fSuperBlock.sectorsPerCluster hle
    rw [Nat.mul_add] at hmul
    omega
  have hlast : k % fs.fSuperBlock.sectorsPerCluster + 1 = fs.fSuperBlock.sectorsPerCluster := by
    rw [← hlen, Nat.mul_succ] at hk
    generalize fs.fSuperBlock.sectorsPerCluster * (k / fs.fSuperBlock.sectorsPerCluster) = a at hk hdm
    omega
  have hlooks := (looks_iff_last haligned hc hmod).2 hlast
  rw [hsector]
  refine ⟨hlooks, ?_, ?_⟩
  · rw [lbaToCluster_eq hpos hc hmod, getLast_eq_getElem]
    simp only [← hlen, Nat.add_sub_cancel]
  · rw [(getNextBlock_looks hpos hc hmod hlooks).1, if_pos (h.link_last hq hlen)]

end Steps

/-! ## Extended files -/

/-- The table after the chain that ends at `last` has been extended by `c`. -/
def extended (fs : FatFileSystem) (last c : Nat) : FatFileSystem := (fs.setFat c kClusterChainDelimiter).setFat last c

/-- The chain that ends at `last` can be extended `n` times: each time there is a free cluster, which is usable, and
both changed entries can be flushed. -/
def Room (fs : FatFileSystem) (last : Nat) : Nat → Prop
  | 0 => True
  | n + 1 => fs.Flushes last ∧ ∃ c, fs.freeCluster? = some c ∧ fs.Usable c ∧ fs.Flushes c ∧ Room (fs.extended last c) c n

variable {last : Nat} {cs : List Nat}

theorem Room.withDevice (h : fs.Room last n) (device : Memory) :
    (fs.withDevice device).Room last n := by
  induction n generalizing fs last with
  | zero => trivial
  | succ n ih =>
    obtain ⟨hlast, c, hfree, husable, hc, hrest⟩ := h
    exact ⟨hlast, c, hfree, ⟨husable.two_le, husable.lt, husable.inside, husable.sectors⟩, hc, ih hrest⟩

structure SameVolume (fs fs' : FatFileSystem) : Prop where
  super : fs'.fSuperBlock = fs.fSuperBlock
  part : fs'.fPartStartSector = fs.fPartStartSector
  length : fs'.fFat.length = fs.fFat.length

section SameVolume

variable {fs' fs'' : FatFileSystem}

theorem SameVolume.refl (fs : FatFileSystem) : fs.SameVolume fs := ⟨rfl, rfl, rfl⟩

section

variable (h : fs.SameVolume fs')
include h

theorem SameVolume.trans (h' : fs'.SameVolume fs'') : fs.SameVolume fs'' :=
  ⟨h'.super.trans h.super, h'.part.trans h.part, h'.length.trans h.length⟩

theorem SameVolume.fDataStart : fs'.fDataStart = fs.fDataStart := by
  rw [FatFileSystem.fDataStart, FatFileSystem.fDataStart, fRootDirStart, fRootDirStart, h.super, h.part]

theorem SameVolume.clusterToLba (c : Nat) : fs'.clusterToLba c = fs.clusterToLba c := by
  rw [FatFileSystem.clusterToLba, FatFileSystem.clusterToLba, h.fDataStart, h.super]

theorem SameVolume.aligned : fs'.Aligned ↔ fs.Aligned := by
  rw [Aligned, Aligned, h.fDataStart, h.super]

theorem SameVolume.usable (hc : fs.Usable c) : fs'.Usable c := by
  refine ⟨hc.two_le, hc.lt, by rw [h.length]; exact hc.inside, ?_⟩
  rw [h.fDataStart, h.super]
  exact hc.sectors

theorem SameVolume.blocks (cs : List Nat) : fs'.blocks cs = fs.blocks cs := by
  rw [FatFileSystem.blocks, FatFileSystem.blocks, h.super]

theorem SameVolume.sector {cs' : List Nat} (hgrown : cs <+: cs')
    (hk : k < fs.blocks cs) : fs'.sector cs' k = fs.sector cs k := by
  obtain ⟨rest, rfl⟩ := hgrown
  have hq : k / fs.fSuperBlock.sectorsPerCluster < cs.length := Nat.div_lt_of_lt_mul hk
  rw [FatFileSystem.sector, FatFileSystem.sector, h.clusterToLba, h.super, getD_append _ _ _ _ hq]

end

end SameVolume

theorem sameVolume_extended (fs : FatFileSystem) (last c : Nat) (device : Memory) :
    fs.SameVolume ((fs.extended last c).withDevice device) :=
  ⟨rfl, rfl, by simp [extended, setFat, FatFileSystem.withDevice]⟩

theorem link_extended (hc : c < fs.fFat.length) (hlast : last < fs.fFat.length)
    (hlt : c < kClusterChainDelimiter) (device : Memory) (x : Nat) :
    ((fs.extended last c).withDevice device).link x =
      Function.update (Function.update fs.link c kEndOfFile) last c x := by
  have hmod : c % 2 ^ 16 = c := Nat.mod_eq_of_lt (by unfold kClusterChainDelimiter at hlt; omega)
  have hget : ((fs.extended last c).withDevice device).fFat.getD x 0 =
      if x = last then c else if x = c then kClusterChainDelimiter else fs.fFat.getD x 0 := by
    simp only [FatFileSystem.withDevice, extended, setFat, List.getD_eq_getElem?_getD, List.getElem?_set,
      length_set, hmod]
    by_cases hx : last = x
    · subst hx
      simp [hlast]
    · rw [if_neg hx, if_neg (Ne.symm hx)]
      by_cases hx' : c = x
      · subst hx'
        simp [hc, kClusterChainDelimiter]
      · rw [if_neg hx', if_neg (Ne.symm hx')]
  rw [link, hget, Function.update_apply, Function.update_apply]
  by_cases hx : x = last
  · rw [if_pos hx, if_pos hx, if_neg (Nat.not_le.2 hlt)]
  · rw [if_neg hx, if_neg hx]
    by_cases hx' : x = c
    · rw [if_pos hx', if_pos hx', if_pos le_rfl]
    · rw [if_neg hx', if_neg hx', link]

theorem FileChain.extend {start : Nat} (h : fs.FileChain start cs)
    (hfree : fs.freeCluster? = some c) (hc : fs.Usable c) (device : Memory) :
    ((fs.extended (cs.getLast h.nonempty) c).withDevice device).FileChain start (cs ++ [c]) := by
  obtain ⟨hlt, hzero⟩ := freeCluster?_spec hfree
  have hfreeLink : fs.link c = 0 := by
    rw [link, getD_eq_getElem _ _ hlt, hzero, if_neg (by decide)]
    rfl
  have hnotin : c ∉ cs := by
    intro hmem
    refine h.chain.next_ne_zero (by decide) (fun x hx => ?_) hmem hfreeLink
    have := (h.usable x hx).two_le
    omega
  have hlast := h.usable _ (getLast_mem h.nonempty)
  have hsame := sameVolume_extended fs (cs.getLast h.nonempty) c device
  have hcne : c ≠ kEndOfFile := by
    have := hc.lt
    unfold kClusterChainDelimiter at this
    unfold kEndOfFile
    omega
  refine ⟨(h.chain.append h.nonempty hnotin hcne).congr fun x _ => ?_, fun x hx => hsame.usable ?_, by simp⟩
  · exact link_extended hlt hlast.inside hc.lt device x
  · rcases mem_append.1 hx with hx | hx
    · exact h.usable x hx
    · rw [mem_singleton.1 hx]
      exact hc

end FatFileSystem

namespace FatNode

open FatFileSystem

/-! ## Lookups -/

variable {fs : FatFileSystem} {start : Nat} {cs : List Nat}

/-- There is room for the clusters up to the one with the block `k`. -/
def RoomFor (fs : FatFileSystem) (cs : List Nat) (k : Nat) : Prop :=
  ∀ last ∈ cs.getLast?, fs.Room last (k / fs.fSuperBlock.sectorsPerCluster + 1 - cs.length)

variable {j c lba offset : Nat}

theorem getNextBlock_behind (hchain : fs.FileChain start cs) (haligned : fs.Aligned)
    (hlast : j + 1 = fs.blocks cs) (hlt : j < k) (hroom : RoomFor fs cs k) :
    ∃ fs' c, fs.getNextBlock (fs.sector cs j) true = some (fs', fs'.sector (cs ++ [c]) (j + 1)) ∧
      fs'.FileChain start (cs ++ [c]) ∧ fs.SameVolume fs' ∧ j + 1 < fs'.blocks (cs ++ [c]) ∧
      RoomFor fs' (cs ++ [c]) k := by
  obtain ⟨hlooks, hcluster, -⟩ := hchain.last_sector haligned hlast
  have hspc : 0 < fs.fSuperBlock.sectorsPerCluster := (hchain.cluster (by omega : j < fs.blocks cs)).2.1
  have hclusters : cs.length ≤ k / fs.fSuperBlock.sectorsPerCluster := by
    rw [Nat.le_div_iff_mul_le hspc, Nat.mul_comm]
    unfold FatFileSystem.blocks at hlast
    omega
  have hroom' := hroom _ (List.getLast?_eq_some_getLast hchain.nonempty)
  obtain ⟨n, hn⟩ : ∃ n, k / fs.fSuperBlock.sectorsPerCluster + 1 - cs.length = n + 1 :=
    ⟨k / fs.fSuperBlock.sectorsPerCluster - cs.length, by omega⟩
  rw [hn] at hroom'
  obtain ⟨hflush, c, hfree, husable, hc, hrest⟩ := hroom'
  have hcluster' : fs.fFat[fs.lbaToCluster (fs.sector cs j)]? = some (fs.fFat.getD (cs.getLast hchain.nonempty) 0) := by
    have hin := (hchain.usable _ (getLast_mem hchain.nonempty)).inside
    rw [hcluster, getD_eq_getElem _ _ hin, List.getElem?_eq_getElem hin]
  have hmark : kClusterChainDelimiter ≤ fs.fFat.getD (cs.getLast hchain.nonempty) 0 := by
    have hpos : cs.length - 1 + 1 = cs.length := by
      have := length_pos_iff.2 hchain.nonempty
      omega
    rw [getLast_eq_getElem]
    exact hchain.link_last (by omega) hpos
  obtain ⟨device, hget⟩ := getNextBlock_extend_fFat hlooks hcluster' hmark (by rw [hcluster]; exact hflush) hfree hc
  rw [hcluster] at hget
  have hchain' := hchain.extend hfree husable device
  have hsame := sameVolume_extended fs (cs.getLast hchain.nonempty) c device
  have hlen : (cs ++ [c]).length = cs.length + 1 := by simp
  have hsector : ((fs.extended (cs.getLast hchain.nonempty) c).withDevice device).sector (cs ++ [c]) (j + 1) =
      fs.clusterToLba c := by
    have hq : (j + 1) / fs.fSuperBlock.sectorsPerCluster = cs.length := by
      rw [hlast, FatFileSystem.blocks, Nat.mul_div_cancel_left _ hspc]
    have hi : (j + 1) % fs.fSuperBlock.sectorsPerCluster = 0 := by
      rw [hlast, FatFileSystem.blocks, Nat.mul_mod_right]
    rw [FatFileSystem.sector, hsame.super, hq, hi, hsame.clusterToLba, Nat.add_zero]
    simp
  refine ⟨_, c, hsector ▸ hget, hchain', hsame, ?_, ?_⟩
  · rw [hsame.blocks, FatFileSystem.blocks, hlen, Nat.mul_succ, ← FatFileSystem.blocks]
    omega
  · intro last hl
    rw [List.getLast?_concat, mem_some_iff] at hl
    subst hl
    have hcount : k / fs.fSuperBlock.sectorsPerCluster + 1 - (cs.length + 1) = n := by omega
    rw [hsame.super, hlen, hcount]
    exact hrest.withDevice device

/-- **The loop of `LookupBlock`** goes from a block of the file to the one it is asked for. Behind the last block it
extends the file, or ends. -/
theorem walk_spec {extend : Bool} (hk : kBlockSize * k < 2 ^ 32) (rounds : Nat) :
    ∀ {fs : FatFileSystem} {cs : List Nat} {j : Nat}, fs.FileChain start cs → fs.Aligned → j < fs.blocks cs → j ≤ k →
      k - j ≤ rounds → (extend = true → RoomFor fs cs k) →
      ∃ fs' cs', walk extend (kBlockSize * k) rounds fs (fs.sector cs j) (kBlockSize * j) =
          some (fs', if k < fs'.blocks cs' then some (fs'.sector cs' k) else none) ∧
        fs'.FileChain start cs' ∧ fs.SameVolume fs' ∧ cs <+: cs' ∧ (extend = false → fs' = fs ∧ cs' = cs) := by
  have hstop : ∀ {fs : FatFileSystem} {cs : List Nat} {rounds j : Nat}, j = k → j < fs.blocks cs →
      walk extend (kBlockSize * k) rounds fs (fs.sector cs j) (kBlockSize * j) =
        some (fs, if k < fs.blocks cs then some (fs.sector cs k) else none) := by
    rintro fs cs rounds j rfl hj
    rw [if_pos hj]
    cases rounds <;> rw [walk, if_neg (Nat.lt_irrefl _)]
  induction rounds with
  | zero =>
    intro fs cs j hchain haligned hj hjk hrounds hroom
    exact ⟨fs, cs, hstop (by omega) hj, hchain, .refl fs, prefix_rfl, fun _ => ⟨rfl, rfl⟩⟩
  | succ rounds ih =>
    intro fs cs j hchain haligned hj hjk hrounds hroom
    rcases Nat.eq_or_lt_of_le hjk with heq | hlt
    · exact ⟨fs, cs, hstop heq hj, hchain, .refl fs, prefix_rfl, fun _ => ⟨rfl, rfl⟩⟩
    have hless : kBlockSize * j < kBlockSize * k := Nat.mul_lt_mul_of_pos_left hlt (by decide)
    have hoff : u32 (kBlockSize * j + kBlockSize) = kBlockSize * (j + 1) := by
      rw [u32_of_lt (by unfold kBlockSize at hk ⊢; omega), Nat.mul_succ]
    rw [walk, if_pos hless]
    by_cases hnext : j + 1 < fs.blocks cs
    · have hne : fs.sector cs (j + 1) ≠ kEndOfFile := Nat.ne_of_lt (hchain.sector_lt hnext)
      obtain ⟨fs', cs', hwalk, hrest⟩ := ih hchain haligned hnext hlt (by omega) hroom
      refine ⟨fs', cs', ?_, hrest⟩
      rw [hchain.next_sector haligned hnext]
      dsimp only
      rw [if_neg hne, hoff, hwalk]
    · have hlast : j + 1 = fs.blocks cs := by omega
      cases extend
      · obtain ⟨-, -, hend⟩ := hchain.last_sector haligned hlast
        refine ⟨fs, cs, ?_, hchain, .refl fs, prefix_rfl, fun _ => ⟨rfl, rfl⟩⟩
        rw [hend, if_neg (by omega)]
        dsimp only
        rw [if_pos rfl]
      · obtain ⟨fs₁, c, hget, hchain₁, hsame, hj₁, hroom₁⟩ :=
          getNextBlock_behind hchain haligned hlast hlt (hroom rfl)
        have hne : fs₁.sector (cs ++ [c]) (j + 1) ≠ kEndOfFile := Nat.ne_of_lt (hchain₁.sector_lt hj₁)
        obtain ⟨fs', cs', hwalk, hfile, hsame', hgrown, -⟩ := ih hchain₁ (hsame.aligned.2 haligned) hj₁ hlt (by omega)
          fun _ => hroom₁
        refine ⟨fs', cs', ?_, hfile, hsame.trans hsame', (prefix_append cs [c]).trans hgrown, fun h => by cases h⟩
        rw [hget]
        dsimp only
        rw [if_neg hne, hoff]
        exact hwalk

structure At (fs : FatFileSystem) (start : Nat) (cs : List Nat) (node : FatNode) : Prop where
  fStartLba : node.fStartLba = fs.clusterToLba start
  hint : ∃ j, j < fs.blocks cs ∧ node.fHintOffset = kBlockSize * j ∧ node.fHintLba = fs.sector cs j

theorem blocks_pos (hspc : 0 < fs.fSuperBlock.sectorsPerCluster) (hchain : fs.FileChain start cs) : 0 < fs.blocks cs :=
  Nat.mul_pos hspc (length_pos_iff.2 hchain.nonempty)

theorem at_new (hspc : 0 < fs.fSuperBlock.sectorsPerCluster) (hchain : fs.FileChain start cs) (size : Nat) :
    At fs start cs (new (fs.clusterToLba start) size) :=
  ⟨rfl, 0, blocks_pos hspc hchain, rfl, hchain.sector_zero.symm⟩

variable {node : FatNode} {fLength : Nat}

/-- **One lookup** finds the block, or extends the file by it, and remembers it. -/
theorem lookupBlock_spec {extend : Bool} (hk : kBlockSize * k < 2 ^ 32)
    (hchain : fs.FileChain start cs) (haligned : fs.Aligned) (hat : At fs start cs node)
    (hroom : extend = true → RoomFor fs cs k) :
    ∃ fs' node' cs', node.lookupBlock fs (kBlockSize * k) extend =
        some (fs', node', if k < fs'.blocks cs' then some (fs'.sector cs' k) else none) ∧
      fs'.FileChain start cs' ∧ fs.SameVolume fs' ∧ cs <+: cs' ∧ At fs' start cs' node' ∧
      node'.fLength = node.fLength ∧ (extend = false → fs' = fs ∧ cs' = cs) := by
  obtain ⟨hstart, j, hj, hoffset, hlba⟩ := hat
  -- the walk starts at a block that is not behind the one that is asked for
  have hfrom : ∃ j', j' < fs.blocks cs ∧ j' ≤ k ∧ (node.rewind (kBlockSize * k)).fHintOffset = kBlockSize * j' ∧
      (node.rewind (kBlockSize * k)).fHintLba = fs.sector cs j' := by
    unfold rewind
    by_cases hback : kBlockSize * k < node.fHintOffset
    · rw [if_pos hback]
      exact ⟨0, by omega, Nat.zero_le k, rfl, by dsimp only; rw [hstart, hchain.sector_zero]⟩
    · rw [if_neg hback]
      refine ⟨j, hj, ?_, hoffset, hlba⟩
      rw [hoffset, Nat.not_lt] at hback
      exact Nat.le_of_mul_le_mul_left hback (by decide)
  have hnode : (node.rewind (kBlockSize * k)).fStartLba = node.fStartLba ∧
      (node.rewind (kBlockSize * k)).fLength = node.fLength := by
    unfold rewind
    split <;> exact ⟨rfl, rfl⟩
  obtain ⟨j', hj', hle, hoffset', hlba'⟩ := hfrom
  have hrounds : k - j' ≤ kBlockSize * k / kBlockSize + 1 := by
    rw [Nat.mul_div_cancel_left _ (by decide)]
    omega
  obtain ⟨fs', cs', hwalk, hfile, hsame, hgrown, hplain⟩ :=
    walk_spec hk _ hchain haligned hj' hle hrounds hroom
  have hj'' : j' < fs'.blocks cs' := by
    obtain ⟨rest, rfl⟩ := hgrown
    rw [hsame.blocks, FatFileSystem.blocks, length_append, Nat.mul_add]
    unfold FatFileSystem.blocks at hj'
    omega
  rw [lookupBlock, hoffset', hlba', hwalk]
  by_cases hin : k < fs'.blocks cs'
  · refine ⟨fs', { node.rewind (kBlockSize * k) with fHintOffset := kBlockSize * k, fHintLba := fs'.sector cs' k }, cs',
      ?_, hfile, hsame, hgrown, ⟨?_, k, hin, rfl, rfl⟩, hnode.2, hplain⟩
    · rw [if_pos hin]
    · rw [hsame.clusterToLba, ← hstart]
      exact hnode.1
  · refine ⟨fs', node.rewind (kBlockSize * k), cs', ?_, hfile, hsame, hgrown,
      ⟨?_, j', hj'', hoffset', ?_⟩, hnode.2, hplain⟩
    · rw [if_neg hin]
    · rw [hsame.clusterToLba, ← hstart]
      exact hnode.1
    · rw [hsame.sector hgrown hj', hlba']

/-- What `Read` of a page should deliver: the blocks of the page that begin before the end of the file. -/
def pageBlocks (fs : FatFileSystem) (cs : List Nat) (fLength first n : Nat) : List (List UInt8) :=
  ((List.range' first n).takeWhile fun b => decide (kBlockSize * b < fLength)).map fun b =>
    slice fs.device (kBlockSize * fs.sector cs b) kBlockSize

/-- **The loop of `Read`** delivers them, if their positions are small enough for an `int`. -/
theorem readLoop_spec (hchain : fs.FileChain start cs) (haligned : fs.Aligned)
    (hlen : fLength ≤ kBlockSize * fs.blocks cs)
    (hsmall : ∀ b, kBlockSize * b < fLength → fs.sector cs b < 2 ^ 22) (n : Nat) :
    ∀ (node : FatNode) (b : Nat), At fs start cs node → node.fLength = fLength → b + n ≤ 2 ^ 23 →
      ∃ node', node.readLoop n fs (kBlockSize * b) = some (fs, node', pageBlocks fs cs fLength b n) := by
  induction n with
  | zero => exact fun node _ _ _ _ => ⟨node, rfl⟩
  | succ n ih =>
    intro node b hat hnode hb
    rw [readLoop, pageBlocks, List.range'_succ]
    by_cases hin : kBlockSize * b < fLength
    · have hblock : b < fs.blocks cs := by
        have h := Nat.lt_of_lt_of_le hin hlen
        exact Nat.lt_of_mul_lt_mul_left h
      have hoffset : kBlockSize * b < 2 ^ 32 := by
        unfold kBlockSize
        omega
      have hplain : false = true → RoomFor fs cs b := fun h => by cases h
      obtain ⟨fs', node', cs', hlookup, -, -, -, hat', hlength, hplain⟩ :=
        lookupBlock_spec hoffset hchain haligned hat hplain
      obtain ⟨rfl, rfl⟩ := hplain rfl
      have hs := hsmall b hin
      have hpos : toInt32 (u32 (fs'.sector cs' b * kBlockSize)) = ((kBlockSize * fs'.sector cs' b : Nat) : Int) := by
        unfold kBlockSize
        rw [u32_of_lt (by omega), toInt32_of_isInt32 (by unfold IsInt32; omega), Nat.mul_comm]
      have hread : node.readBlock fs' (kBlockSize * b) =
          some (fs', node', some (slice fs'.device (kBlockSize * fs'.sector cs' b) kBlockSize)) := by
        rw [readBlock, hlookup, if_pos hblock]
        dsimp only
        rw [hpos, if_pos (Int.natCast_nonneg _), Int.toNat_natCast]
      rw [if_neg (by rw [hnode]; exact Nat.not_le.2 hin), hread, takeWhile_cons_of_pos (by simpa using hin),
        map_cons]
      dsimp only
      cases n with
      | zero => exact ⟨node', rfl⟩
      | succ n =>
        have hoff : u32 (kBlockSize * b + kBlockSize) = kBlockSize * (b + 1) := by
          unfold kBlockSize
          rw [u32_of_lt (by omega)]
          omega
        obtain ⟨node'', hrest⟩ := ih node' (b + 1) hat' (hlength.trans hnode) (by omega)
        refine ⟨node'', ?_⟩
        rw [hoff, hrest]
        rfl
    · refine ⟨node, ?_⟩
      rw [if_pos (by rw [hnode]; exact Nat.le_of_not_lt hin), takeWhile_cons_of_neg (by simpa using hin)]
      rfl

/-! ## Runs of lookups -/

abbrev Block := Fin (2 ^ 23)
abbrev Page := Fin (2 ^ 20)

/-- Lookups on one node of the volume, each of a block, with or without `extend`. -/
def lookups (fs : FatFileSystem) (start fLength : Nat) : StepSystem (FatFileSystem × FatNode) (Block × Bool) where
  init s := s = (fs, new (fs.clusterToLba start) fLength)
  step s call := (s.2.lookupBlock s.1 (kBlockSize * call.1) call.2).map fun r => (r.1, r.2.1)

def Roomy (start : Nat) (s : FatFileSystem × FatNode) (call : Block × Bool) : Prop :=
  call.2 = true → ∀ cs, s.1.FileChain start cs → RoomFor s.1 cs call.1

/-- After every run of lookups, every block of the file is found where the chain has it, none behind the end, and
`Read` delivers the bytes of the file. -/
def MapsBlocks (fs : FatFileSystem) (start fLength : Nat) : Prop :=
  ∀ s, (lookups fs start fLength).ReachVia (Roomy start) s → ∀ cs, s.1.FileChain start cs →
    (∀ k : Block, (s.2.lookupBlock s.1 (kBlockSize * k) false).map (fun r => r.2.2) =
      some (if k < s.1.blocks cs then some (s.1.sector cs k) else none)) ∧
    ∀ p : Page, (s.2.read s.1 (0x1000 * p)).map (fun r => r.2.2) = some (pageBlocks s.1 cs fLength (8 * p) 8)

/-- What holds in every run on an aligned volume: the node remembers a block of the file. -/
structure Walks (fs : FatFileSystem) (start : Nat) (cs : List Nat) (fLength : Nat) (s : FatFileSystem × FatNode) :
    Prop where
  same : fs.SameVolume s.1
  file : ∃ cs', s.1.FileChain start cs' ∧ cs <+: cs' ∧ At s.1 start cs' s.2
  fLength : s.2.fLength = fLength

theorem fileChain_withDevice (h : fs.FileChain start cs) (device : Memory) :
    (fs.withDevice device).FileChain start cs := by
  have hsame : fs.SameVolume (fs.withDevice device) := ⟨rfl, rfl, rfl⟩
  exact ⟨h.chain, fun c hc => hsame.usable (h.usable c hc), h.nonempty⟩

theorem walks_run (hspc : 0 < fs.fSuperBlock.sectorsPerCluster) (hchain : fs.FileChain start cs)
    (haligned : fs.Aligned) {s : FatFileSystem × FatNode}
    (hrun : (lookups fs start fLength).ReachVia (Roomy start) s) : Walks fs start cs fLength s := by
  refine hrun.invariant (Walks fs start cs fLength) ?_ ?_
  · rintro s rfl
    exact ⟨.refl fs, ⟨cs, hchain, prefix_rfl, at_new hspc hchain fLength⟩, rfl⟩
  · rintro ⟨fs₁, node₁⟩ ⟨k, extend⟩ ⟨fs₂, node₂⟩ ⟨hsame, ⟨cs₁, hfile, hgrown, hat⟩, hlength⟩ hP hstep
    have hk : kBlockSize * k.val < 2 ^ 32 := by
      unfold kBlockSize
      omega
    have hroom : extend = true → RoomFor fs₁ cs₁ k := fun h => hP h cs₁ hfile
    obtain ⟨fs', node', cs', hlookup, hfile', hsame', hgrown', hat', hlength', -⟩ :=
      lookupBlock_spec hk hfile (hsame.aligned.2 haligned) hat hroom
    have hresult : some (fs', node') = some (fs₂, node₂) := by
      have h : (node₁.lookupBlock fs₁ (kBlockSize * k) extend).map (fun r => (r.1, r.2.1)) = some (fs₂, node₂) := hstep
      rwa [hlookup] at h
    cases hresult
    exact ⟨hsame.trans hsame', ⟨cs', hfile', hgrown.trans hgrown', hat'⟩, hlength'.trans hlength⟩

theorem page_eq (p : Nat) : 0x1000 * p = kBlockSize * (8 * p) := by
  unfold kBlockSize
  omega

/-- On an aligned volume all is well, if the blocks of the file are where an `int` reaches them. -/
theorem mapsBlocks_of_aligned (hspc : 0 < fs.fSuperBlock.sectorsPerCluster) (hchain : fs.FileChain start cs)
    (haligned : fs.Aligned) (hlen : fLength ≤ kBlockSize * fs.blocks cs)
    (hsmall : ∀ b, kBlockSize * b < fLength → fs.sector cs b < 2 ^ 22) : MapsBlocks fs start fLength := by
  intro s hrun cs' hfile
  obtain ⟨hsame, ⟨cs'', hfile'', hgrown, hat⟩, hlength⟩ := walks_run hspc hchain haligned hrun
  obtain rfl := hfile.chain.unique hfile''.chain
  constructor
  · intro k
    have hk : kBlockSize * k.val < 2 ^ 32 := by
      unfold kBlockSize
      omega
    have hroom : false = true → RoomFor s.1 cs' k := fun h => by cases h
    obtain ⟨fs', node', cs'', hlookup, -, -, -, -, -, hplain⟩ :=
      lookupBlock_spec hk hfile (hsame.aligned.2 haligned) hat hroom
    obtain ⟨rfl, rfl⟩ := hplain rfl
    rw [hlookup, map_some]
  · intro p
    have hblocks : fs.blocks cs ≤ s.1.blocks cs' := by
      obtain ⟨rest, rfl⟩ := hgrown
      rw [hsame.blocks, FatFileSystem.blocks, FatFileSystem.blocks, length_append, Nat.mul_add]
      omega
    have hsmall' : ∀ b, kBlockSize * b < fLength → s.1.sector cs' b < 2 ^ 22 := by
      intro b hb
      have hin : b < fs.blocks cs := Nat.lt_of_mul_lt_mul_left (Nat.lt_of_lt_of_le hb hlen)
      rw [hsame.sector hgrown hin]
      exact hsmall b hb
    obtain ⟨node', hread⟩ := readLoop_spec hfile (hsame.aligned.2 haligned)
      (Nat.le_trans hlen (Nat.mul_le_mul_left _ hblocks)) hsmall' 8 s.2 (8 * p) hat hlength (by omega)
    rw [read, page_eq]
    show Option.map _ (s.2.readLoop 8 s.1 (kBlockSize * (8 * p))) = _
    rw [hread, map_some]

/-! ## Volumes that are not aligned -/

theorem walk_first (hc : fs.Usable c) (hj : j + 1 < fs.fSuperBlock.sectorsPerCluster)
    (hsmall : fs.fSuperBlock.sectorsPerCluster < 2 ^ 8) (hlooks : fs.Looks (fs.clusterToLba c + j))
    (hinside : ∀ i < j, ¬ fs.Looks (fs.clusterToLba c + i)) (rounds : Nat) : ∀ {i : Nat}, i ≤ j → j - i < rounds →
    walk false (kBlockSize * (j + 1)) rounds fs (fs.clusterToLba c + i) (kBlockSize * i) =
      if kClusterChainDelimiter ≤ fs.fFat.getD c 0 ∨ fs.clusterToLba (fs.link c) = kEndOfFile then some (fs, none)
      else some (fs, some (fs.clusterToLba (fs.link c))) := by
  induction rounds with
  | zero => omega
  | succ rounds ih =>
    intro i hi hrounds
    have hless : kBlockSize * i < kBlockSize * (j + 1) := Nat.mul_lt_mul_of_pos_left (by omega) (by decide)
    have hoff : u32 (kBlockSize * i + kBlockSize) = kBlockSize * (i + 1) := by
      unfold kBlockSize
      rw [u32_of_lt (by omega)]
      omega
    rw [walk, if_pos hless]
    rcases Nat.eq_or_lt_of_le hi with rfl | hlt
    · rw [(getNextBlock_looks (by omega) hc (by omega) hlooks).1]
      dsimp only
      by_cases hend : kClusterChainDelimiter ≤ fs.fFat.getD c 0
      · rw [if_pos hend, if_pos rfl, if_pos (.inl hend)]
      · rw [if_neg hend, hoff]
        by_cases hlba : fs.clusterToLba (fs.link c) = kEndOfFile
        · rw [if_pos hlba, if_pos (.inr hlba)]
        · rw [if_neg hlba, if_neg (not_or.2 ⟨hend, hlba⟩)]
          cases rounds <;> rw [walk, if_neg (Nat.lt_irrefl _)]
    · have hsec := hc.sectors
      have hne : fs.clusterToLba c + (i + 1) ≠ kEndOfFile := by
        rw [clusterToLba_eq hc, kEndOfFile]
        omega
      rw [getNextBlock_inside hc (by omega) (hinside i hlt)]
      dsimp only
      rw [if_neg hne, hoff]
      exact ih hlt (by omega)

theorem exists_early_look (hspc : 0 < fs.fSuperBlock.sectorsPerCluster) (hc : fs.Usable c)
    (hnot : ¬ fs.Aligned) : ∃ j, j + 1 < fs.fSuperBlock.sectorsPerCluster ∧ fs.Looks (fs.clusterToLba c + j) ∧
      ∀ i < j, ¬ fs.Looks (fs.clusterToLba c + i) := by
  have hr := Nat.mod_lt fs.fDataStart hspc
  unfold Aligned at hnot
  generalize hspc' : fs.fSuperBlock.sectorsPerCluster = spc at hspc hnot hr
  have htwo : 2 ≤ spc := by
    rcases Nat.lt_or_ge spc 2 with h | h
    · obtain rfl : spc = 1 := by omega
      rw [Nat.mod_one, Nat.mod_one] at hnot
      exact absurd rfl hnot
    · exact h
  rw [Nat.mod_eq_of_lt htwo] at hnot
  have hlooks : ∀ i < spc, (fs.Looks (fs.clusterToLba c + i) ↔ (fs.fDataStart % spc + i) % spc = 0) := by
    intro i hi
    rw [looks_iff hc (by rw [hspc']; exact hi), hspc', Nat.mod_add_mod]
  rcases Nat.eq_zero_or_pos (fs.fDataStart % spc) with h0 | hpos
  · refine ⟨0, by omega, (hlooks 0 (by omega)).2 (by rw [h0]; exact Nat.zero_mod spc), fun i hi => by omega⟩
  · refine ⟨spc - fs.fDataStart % spc, by omega, (hlooks _ (by omega)).2 ?_, fun i hi => ?_⟩
    · have hsum : fs.fDataStart % spc + (spc - fs.fDataStart % spc) = spc := by omega
      rw [hsum, Nat.mod_self]
    · rw [hlooks i (by omega), Nat.mod_eq_of_lt (by omega)]
      omega

/-- On a volume that is not aligned a lookup of a block of the first cluster finds something else. -/
theorem aligned_of_mapsBlocks (hspc : 0 < fs.fSuperBlock.sectorsPerCluster)
    (hsmall : fs.fSuperBlock.sectorsPerCluster < 2 ^ 8) (hchain : fs.FileChain start cs)
    (h : MapsBlocks fs start fLength) : fs.Aligned := by
  by_contra hnot
  obtain ⟨c, cs', rfl⟩ := exists_cons_of_ne_nil hchain.nonempty
  have hc := hchain.usable c mem_cons_self
  have hstart : start = c := hchain.chain.head.symm
  subst hstart
  obtain ⟨j, hj, hlooks, hinside⟩ := exists_early_look hspc hc hnot
  obtain ⟨hmap, -⟩ := h (fs, new (fs.clusterToLba start) fLength) (.init rfl) _ hchain
  have hk : j + 1 < 2 ^ 23 := by omega
  have hfound := hmap ⟨j + 1, hk⟩
  have hblock : j + 1 < fs.blocks (start :: cs') := by
    rw [FatFileSystem.blocks, length_cons, Nat.mul_succ]
    omega
  have hsector : fs.sector (start :: cs') (j + 1) = fs.clusterToLba start + (j + 1) := by
    rw [FatFileSystem.sector, Nat.div_eq_of_lt hj, Nat.mod_eq_of_lt hj, getD_cons_zero]
  have hrounds : kBlockSize * (j + 1) / kBlockSize + 1 = j + 2 := by
    rw [Nat.mul_div_cancel_left _ (by decide)]
  have hwalk := walk_first hc hj hsmall hlooks hinside (j + 2) (Nat.zero_le j) (by omega)
  have hrewind : (new (fs.clusterToLba start) fLength).rewind (kBlockSize * (j + 1)) =
      new (fs.clusterToLba start) fLength := if_neg (Nat.not_lt_zero _)
  rw [if_pos hblock, hsector, lookupBlock, hrewind, hrounds] at hfound
  have hwalk' : walk false (kBlockSize * (j + 1)) (j + 2) fs (new (fs.clusterToLba start) fLength).fHintLba
      (new (fs.clusterToLba start) fLength).fHintOffset = _ := hwalk
  rw [hwalk'] at hfound
  by_cases hstop : kClusterChainDelimiter ≤ fs.fFat.getD start 0 ∨ fs.clusterToLba (fs.link start) = kEndOfFile
  · rw [if_pos hstop] at hfound
    cases hfound
  · rw [if_neg hstop] at hfound
    have heq : fs.clusterToLba (fs.link start) = fs.clusterToLba start + (j + 1) :=
      Option.some.inj (Option.some.inj hfound)
    -- the next cluster is one of the file, and `j + 1` is not the first sector of a cluster
    rcases cs' with _ | ⟨c', cs'⟩
    · exact hstop (.inl (hchain.link_last (q := 0) (by simp) (by simp)))
    · have hlink : fs.link start = c' := (hchain.link_eq (q := 0) (by simp)).2
      have hc' := hchain.usable c' (by simp)
      rw [hlink, clusterToLba_eq hc', clusterToLba_eq hc] at heq
      have hmod : ((c' - 2) * fs.fSuperBlock.sectorsPerCluster) % fs.fSuperBlock.sectorsPerCluster =
          ((start - 2) * fs.fSuperBlock.sectorsPerCluster + (j + 1)) % fs.fSuperBlock.sectorsPerCluster := by
        congr 1
        omega
      rw [Nat.mul_mod_left, Nat.add_comm, Nat.add_mul_mod_self_right, Nat.mod_eq_of_lt hj] at hmod
      omega

/-! ## Positions that an `int` does not reach -/

theorem getNextBlock_plain {r : FatFileSystem × Nat} (h : fs.getNextBlock lba false = some r) :
    r.1 = fs := by
  by_cases hlooks : fs.Looks lba
  · rw [getNextBlock_of_looks hlooks] at h
    split at h
    · cases h
    · split at h
      · rw [if_neg (by decide)] at h
        obtain rfl := Option.some.inj h
        rfl
      · obtain rfl := Option.some.inj h
        rfl
  · obtain ⟨lba', hget⟩ := getNextBlock_of_not_looks hlooks false
    rw [hget] at h
    obtain rfl := Option.some.inj h
    rfl

theorem walk_plain {requestOffset : Nat} (rounds : Nat) : ∀ {lba currentOffset : Nat} {r : FatFileSystem × Option Nat},
    walk false requestOffset rounds fs lba currentOffset = some r → r.1 = fs := by
  induction rounds with
  | zero =>
    intro lba currentOffset r h
    rw [walk] at h
    split at h
    · cases h
    · obtain rfl := Option.some.inj h
      rfl
  | succ rounds ih =>
    intro lba currentOffset r h
    rw [walk] at h
    split at h
    · rcases hget : fs.getNextBlock lba false with _ | ⟨fs', lba'⟩
      · rw [hget] at h
        cases h
      · obtain rfl : fs' = fs := getNextBlock_plain hget
        rw [hget] at h
        dsimp only at h
        split at h
        · obtain rfl := Option.some.inj h
          rfl
        · exact ih h
    · obtain rfl := Option.some.inj h
      rfl

theorem lookupBlock_plain {r : FatFileSystem × FatNode × Option Nat}
    (h : node.lookupBlock fs offset false = some r) : r.1 = fs := by
  unfold lookupBlock at h
  dsimp only at h
  split at h
  · cases h
  all_goals
    rename_i hwalk
    obtain rfl := Option.some.inj h
    exact walk_plain _ hwalk

theorem position_nonneg (h : 0 ≤ toInt32 (u32 (lba * kBlockSize))) :
    ∃ lba', kBlockSize * lba' < 2 ^ 31 ∧ (toInt32 (u32 (lba * kBlockSize))).toNat = kBlockSize * lba' := by
  refine ⟨lba % 2 ^ 23, ?_⟩
  unfold toInt32 u32 kBlockSize at *
  omega

theorem readBlock_plain {r : FatFileSystem × FatNode × Option (List UInt8)}
    (h : node.readBlock fs offset = some r) : r.1 = fs ∧ ∀ block ∈ r.2.2,
      ∃ lba, kBlockSize * lba < 2 ^ 31 ∧ block = slice fs.device (kBlockSize * lba) kBlockSize := by
  unfold readBlock at h
  rcases hlookup : node.lookupBlock fs offset false with _ | ⟨fs', node', _ | lba⟩
  · rw [hlookup] at h
    cases h
  · obtain rfl : fs' = fs := lookupBlock_plain hlookup
    rw [hlookup] at h
    obtain rfl := Option.some.inj h
    exact ⟨rfl, fun block hmem => by cases hmem⟩
  · obtain rfl : fs' = fs := lookupBlock_plain hlookup
    rw [hlookup] at h
    obtain rfl := Option.some.inj h
    refine ⟨rfl, fun block hmem => ?_⟩
    split at hmem
    · rename_i hpos
      obtain ⟨lba', hlt, hlba'⟩ := position_nonneg hpos
      exact ⟨lba', hlt, by rw [← hlba']; exact (mem_some_iff.1 hmem).symm⟩
    · cases hmem

theorem mem_readLoop (n : Nat) : ∀ {node : FatNode} {offset : Nat} {r : FatFileSystem × FatNode × List (List UInt8)},
    node.readLoop n fs offset = some r → ∀ block ∈ r.2.2,
      ∃ lba, kBlockSize * lba < 2 ^ 31 ∧ block = slice fs.device (kBlockSize * lba) kBlockSize := by
  induction n with
  | zero =>
    intro node offset r h block hmem
    cases h
    cases hmem
  | succ n ih =>
    intro node offset r h block hmem
    rw [readLoop] at h
    split at h
    · cases h
      cases hmem
    · rcases hread : node.readBlock fs offset with _ | ⟨fs', node', _ | data⟩
      · rw [hread] at h
        cases h
      · rw [hread] at h
        cases h
        cases hmem
      · obtain ⟨hfs, hdata⟩ := readBlock_plain hread
        obtain rfl : fs' = fs := hfs
        rw [hread] at h
        obtain ⟨r', hrest, rfl⟩ := map_eq_some_iff.1 h
        rcases mem_cons.1 hmem with rfl | hmem
        · exact hdata _ rfl
        · exact ih hrest block hmem

theorem mem_pageBlocks {fLength b : Nat} (hb : kBlockSize * b < fLength) :
    slice fs.device (kBlockSize * fs.sector cs b) kBlockSize ∈ pageBlocks fs cs fLength (8 * (b / 8)) 8 := by
  refine List.mem_map.2 ⟨b, ?_, rfl⟩
  have hsplit : List.range' (8 * (b / 8)) 8 =
      List.range' (8 * (b / 8)) (b % 8 + 1) ++ List.range' (8 * (b / 8) + (b % 8 + 1)) (8 - (b % 8 + 1)) := by
    rw [List.range'_append_1]
    congr 1
    omega
  have hall : ∀ x ∈ List.range' (8 * (b / 8)) (b % 8 + 1), decide (kBlockSize * x < fLength) = true := by
    intro x hx
    rw [mem_range'_1] at hx
    rw [decide_eq_true_iff]
    exact Nat.lt_of_le_of_lt (Nat.mul_le_mul_left _ (by omega)) hb
  rw [hsplit, takeWhile_append_of_pos hall]
  apply mem_append_left
  rw [mem_range'_1]
  omega

theorem mem_slice {m : Memory} {a : Nat} {x : UInt8} (h : x ∈ slice m a n) : ∃ i < n, m (a + i) = x := by
  induction n generalizing a with
  | zero => cases h
  | succ n ih =>
    rw [slice] at h
    rcases mem_cons.1 h with rfl | h
    · exact ⟨0, by omega, rfl⟩
    · obtain ⟨i, hi, heq⟩ := ih h
      exact ⟨i + 1, by omega, by rw [← heq]; congr 1; omega⟩

/-- A block that no `int` reaches is not read: on a device that is zero but for its first byte. -/
theorem sector_lt_of_mapsBlocks (hchain : fs.FileChain start cs) (hfLength : fLength < 2 ^ 32)
    (h : ∀ device, MapsBlocks (fs.withDevice device) start fLength) {b : Nat} (hb : kBlockSize * b < fLength) :
    fs.sector cs b < 2 ^ 22 := by
  by_contra hbig
  let device : Memory := fun a => if a = kBlockSize * fs.sector cs b then 1 else 0
  have hchain' := fileChain_withDevice hchain device
  have hp : b / 8 < 2 ^ 20 := by
    unfold kBlockSize at hb
    omega
  obtain ⟨-, hread⟩ := h device (fs.withDevice device, new ((fs.withDevice device).clusterToLba start) fLength)
    (.init rfl) cs hchain'
  obtain ⟨r, hr, hblocks⟩ := map_eq_some_iff.1 (hread ⟨b / 8, hp⟩)
  have hmem := @mem_pageBlocks (fs.withDevice device) cs fLength b hb
  rw [← hblocks] at hmem
  obtain ⟨lba, hlba, heq⟩ := mem_readLoop _ hr _ hmem
  -- the first byte tells the two blocks apart
  have hfirst : device (kBlockSize * fs.sector cs b) ∈ slice device (kBlockSize * lba) kBlockSize := by
    have hsame : slice device (kBlockSize * fs.sector cs b) kBlockSize = slice device (kBlockSize * lba) kBlockSize := heq
    rw [← hsame]
    exact .head _
  obtain ⟨i, hi, hdevice⟩ := mem_slice hfirst
  have hone : device (kBlockSize * fs.sector cs b) = 1 := if_pos rfl
  have hne : kBlockSize * lba + i ≠ kBlockSize * fs.sector cs b := by
    unfold kBlockSize at *
    omega
  have hzero : device (kBlockSize * lba + i) = 0 := if_neg hne
  rw [hone, hzero] at hdevice
  cases hdevice

/-- **Block mapping.** On every device, after every run of lookups, the blocks of the file are found and read where
its chain has them, exactly if the data area is aligned as the code takes it to be and the blocks of the file lie in
the first 2 GiB of the device. -/
theorem mapsBlocks_iff (hspc : 0 < fs.fSuperBlock.sectorsPerCluster) (hsmall : fs.fSuperBlock.sectorsPerCluster < 2 ^ 8)
    (hchain : fs.FileChain start cs) {fLength : Nat} (hfLength : fLength < 2 ^ 32)
    (hlen : fLength ≤ kBlockSize * fs.blocks cs) :
    (∀ device, MapsBlocks (fs.withDevice device) start fLength) ↔
      fs.Aligned ∧ ∀ b, kBlockSize * b < fLength → fs.sector cs b < 2 ^ 22 := by
  constructor
  · intro h
    exact ⟨aligned_of_mapsBlocks hspc hsmall hchain (h fs.device),
      fun b hb => sector_lt_of_mapsBlocks hchain hfLength h hb⟩
  · rintro ⟨haligned, hpositions⟩ device
    have hspc' : 0 < (fs.withDevice device).fSuperBlock.sectorsPerCluster := hspc
    exact mapsBlocks_of_aligned hspc' (fileChain_withDevice hchain device) haligned hlen hpositions

/-- A volume with clusters of four sectors and a file of two clusters; the data area begins at sector
`4 + rootDirEntries / 16`. -/
def fourSectors (rootDirEntries : Nat) : FatFileSystem where
  fSuperBlock := ⟨4, 1, 2, rootDirEntries, 1⟩
  fPartStartSector := 1
  fFat := [0xfff8, 0xffff, 3, 0xffff] ++ List.replicate 252 0
  device := fun _ => 0

theorem fileChain_fourSectors {rootDirEntries : Nat} (h : rootDirEntries < 2 ^ 16) :
    (fourSectors rootDirEntries).FileChain 2 [2, 3] := by
  have hdata : (fourSectors rootDirEntries).fDataStart < 2 ^ 20 := by
    unfold FatFileSystem.fDataStart fRootDirStart fourSectors kDirEntriesPerBlock kBlockSize u32
    dsimp only
    omega
  have hlen : (fourSectors rootDirEntries).fFat.length = 256 := by
    rw [fourSectors, length_append, length_replicate]
    rfl
  have hspc : (fourSectors rootDirEntries).fSuperBlock.sectorsPerCluster = 4 := rfl
  refine ⟨⟨rfl, by decide, rfl, by decide, rfl⟩, fun c hc => ?_, by simp⟩
  have hc' : c = 2 ∨ c = 3 := by simpa using hc
  refine ⟨by omega, by unfold kClusterChainDelimiter; omega, by rw [hlen]; omega, ?_⟩
  rw [hspc]
  omega

theorem mapsBlocks_fourSectors : MapsBlocks (fourSectors 16) 2 4000 := by
  have hfile := @fileChain_fourSectors 16 (by decide)
  refine (mapsBlocks_iff (by decide) (by decide) hfile (by decide) (by decide)).2 ⟨by decide, fun b hb => ?_⟩
    (fourSectors 16).device
  have hb' : b < 8 := by
    unfold kBlockSize at hb
    omega
  have hall : ∀ b < 8, (fourSectors 16).sector [2, 3] b < 2 ^ 22 := by decide
  exact hall b hb'

/-- With 512 entries in the root directory the data area begins at sector 36: the second block of the file, sector
37, is looked up as the first one of the second cluster. -/
theorem lookupBlock_fourSectors : (fourSectors 512).FileChain 2 [2, 3] ∧ (fourSectors 512).sector [2, 3] 1 = 37 ∧
    ((new ((fourSectors 512).clusterToLba 2) 4000).lookupBlock (fourSectors 512) 512 false).map (fun r => r.2.2) =
      some (some 40) :=
  ⟨fileChain_fourSectors (by decide), by decide, by decide⟩

end FatNode

end Fat
