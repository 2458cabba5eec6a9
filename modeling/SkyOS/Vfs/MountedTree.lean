import Mathlib.Data.List.DropRight
import SkyOS.Fat.FatFileSystem
import SkyOS.Vfs.RootFS
import SkyOS.Vfs.WalkNodes

/-!
# A tree of directories and FAT16 volumes (`driver/RootFS.cpp`, `driver/FAT.cpp`)

The directories of the root file system, and the volumes that are mounted in it or in one another. `FatNode::Lookup`
makes a node for what it finds, with the start block that `ClusterToLba` gives for the cluster in the entry.

| here | there |
| --- | --- |
| `V` | the volumes that have been instantiated |
| `Node.fatRoot v` | `fRootNode` of a volume |
| `Node.fatNode … held` | another `FatNode`: one that a `Lookup` of the walk has made, or one of those that were there before |
| `FatVolume.directory` | the entries in the blocks that `ReadBlock` reads, one after the other, of a node with this start block |
| `Place` | what a node denotes: a `RootDir`, or a start block of a volume |
| not there | `FatDirEntry::GetFilename` of a name that is all blanks reads what is in front of it; here it is empty |
-/

namespace Vfs

/-! ## The source -/

def bytes (name : Name) : List UInt8 := name.map fun c => UInt8.ofNat c.toNat

def kAttrVolumeLabel : UInt8 := 8

def kAttrDirectory : UInt8 := 16

/-- What is read of a `FatDirEntry` (`FAT.cpp:80`). -/
structure FatDirEntry where
  filename : List UInt8
  extension : List UInt8
  flags : UInt8
  startCluster : Nat
  fileLength : Nat
deriving DecidableEq

namespace FatDirEntry

def isspace (c : UInt8) : Bool := c = 0x20 ∨ (0x09 ≤ c ∧ c ≤ 0x0d)

def lower (c : UInt8) : UInt8 := if 0x41 ≤ c ∧ c ≤ 0x5a then c - 0x41 + 0x61 else c

/-- `GetFilename` (:580), up to its first zero. -/
def getFilename (entry : FatDirEntry) : List UInt8 :=
  let name := (entry.filename.rdropWhile isspace).map lower
  let extension := (entry.extension.takeWhile (· ≠ 0x20)).map lower
  (if extension = [] then name else name ++ 0x2E :: extension).takeWhile (· ≠ 0)

/-- The entry is not skipped (:349). -/
def used (entry : FatDirEntry) : Bool :=
  entry.filename.head? ≠ some 0 ∧ entry.filename.head? ≠ some 0xe5 ∧ entry.flags &&& kAttrVolumeLabel = 0

def isDirectory (entry : FatDirEntry) : Bool := entry.flags &&& kAttrDirectory ≠ 0

end FatDirEntry

structure FatVolume where
  fs : Fat.FatFileSystem
  directory : Nat → List FatDirEntry

namespace FatVolume

/-- The loop of `Lookup` (:343). -/
def find (volume : FatVolume) (startLba : Nat) (name : List UInt8) : Option FatDirEntry :=
  (volume.directory startLba).find? fun entry => entry.used ∧ entry.getFilename = name

inductive IsDirectory (volume : FatVolume) : Nat → Prop where
  | root : volume.IsDirectory volume.fs.fRootDirStart
  | entry {lba : Nat} {name : List UInt8} {entry : FatDirEntry} (dir : volume.IsDirectory lba)
      (found : volume.find lba name = some entry) (flags : entry.isDirectory = true) (dot : name ≠ RootFs.dot)
      (dotdot : name ≠ RootFs.dotdot) : volume.IsDirectory (volume.fs.clusterToLba entry.startCluster)

/-- The `..` of every directory names its parent, by cluster 0 if that is the root directory; there is none in the root
directory. No `.` is ever looked up in the blocks of a volume. -/
structure Parents (volume : FatVolume) : Prop where
  root : volume.find volume.fs.fRootDirStart RootFs.dotdot = none
  entry : ∀ lba name entry, volume.IsDirectory lba → volume.find lba name = some entry → entry.isDirectory = true →
    name ≠ RootFs.dot → name ≠ RootFs.dotdot →
    ∃ parent, volume.find (volume.fs.clusterToLba entry.startCluster) RootFs.dotdot = some parent ∧
      parent.isDirectory = true ∧
      if lba = volume.fs.fRootDirStart then parent.startCluster = 0 else volume.fs.clusterToLba parent.startCluster = lba

end FatVolume

inductive Node (V : Type) where
  | rootDir (n : Nat)
  | fatRoot (v : V)
  | fatNode (v : V) (fStartLba fLength : Nat) (fFlags : UInt8) (held : Option Nat)
deriving DecidableEq

structure FileTree (V : Type) where
  rootFs : RootFs.RootFileSystem
  volume : V → FatVolume
  coveredBy : Node V → Option V
  covers : V → Option (Node V)

variable {V : Type}

/-- `GetFileSystem`; `none` is the root file system. -/
def Node.fileSystem : Node V → Option V
  | .rootDir _ => none
  | .fatRoot v => some v
  | .fatNode v _ _ _ _ => some v

/-- A `RootDir`, or a start block of a volume. -/
inductive Place (V : Type) where
  | rootDir (n : Nat)
  | block (v : V) (lba : Nat)
deriving DecidableEq

namespace FileTree

def mounts (t : FileTree V) : Mounts (Node V) (Option V) where
  fileSystem := Node.fileSystem
  coveredBy := fun n => (t.coveredBy n).map some
  covers := fun fs => fs.bind t.covers
  root := fun fs => fs.elim (.rootDir 0) .fatRoot
  kind := fun fs => fs.elim .rootFs fun _ => .fat
  rootFileSystem := none
  dead
    | .rootDir n => (t.rootFs.nodes n).fDead
    | _ => false
  kind_rootFileSystem := rfl
  fileSystem_root := by
    intro fs
    cases fs <;> rfl

/-- `RootDir::Lookup` (`RootFS.cpp:121`). -/
def rootLookup (t : FileTree V) (dir : Nat) (name : List UInt8) : Option (Node V) :=
  if (t.rootFs.nodes dir).deleted then none
  else ((t.rootFs.FindEntry dir name).filter fun entry => ¬ (t.rootFs.nodes entry).deleted).map .rootDir

/-- `FatNode::Lookup` (`FAT.cpp:329`). -/
def fatLookup (t : FileTree V) (this : Node V) (v : V) (startLba : Nat) (flags : UInt8) (name : List UInt8) :
    Option (Node V) :=
  if flags &&& kAttrDirectory = 0 then none
  else if name = RootFs.dot then some this
  else ((t.volume v).find startLba name).map fun entry =>
    .fatNode v ((t.volume v).fs.clusterToLba entry.startCluster) entry.fileLength entry.flags none

def lookup (t : FileTree V) (n : Node V) (name : Name) : Option (Node V) :=
  match n with
  | .rootDir dir => t.rootLookup dir (bytes name)
  | .fatRoot v => t.fatLookup n v (t.volume v).fs.fRootDirStart kAttrDirectory (bytes name)
  | .fatNode v startLba _ flags _ => t.fatLookup n v startLba flags (bytes name)

def isDirectory (t : FileTree V) : Node V → Bool
  | .rootDir n => ¬ (t.rootFs.nodes n).deleted
  | .fatRoot _ => true
  | .fatNode _ _ _ flags _ => flags &&& kAttrDirectory ≠ 0

def place (t : FileTree V) : Node V → Place V
  | .rootDir n => .rootDir n
  | .fatRoot v => .block v (t.volume v).fs.fRootDirStart
  | .fatNode v lba _ _ _ => .block v lba

def Directory (t : FileTree V) : Node V → Prop
  | .rootDir n => n < t.rootFs.next ∧ (t.rootFs.nodes n).deleted = false
  | .fatRoot _ => True
  | .fatNode v lba _ flags _ => flags &&& kAttrDirectory ≠ 0 ∧ (t.volume v).IsDirectory lba

/-- `WalkPath` of a whole path comes to a node, whatever the references are. -/
def WalksTo [DecidableEq V] (t : FileTree V) (currentDir : Option (Node V)) (path : List Char) (n : Node V) : Prop :=
  ∀ refs, (t.mounts.walkPath (fun _ => t.lookup) currentDir path path.length refs).2 = some n

end FileTree

/-- A tree whose directories have right `..` entries, in which volumes are mounted on directories. The root file system
is as its calls leave it (`inv_of_run`, `older_of_reach`), and a volume is older than what is mounted in it. -/
structure Tree (V : Type) extends FileTree V where
  shape : rootFs.Shape
  older : rootFs.Older
  parents : ∀ v, (volume v).Parents
  covers_eq : ∀ n v, coveredBy n = some v → covers v = some n
  made_uncovered : ∀ v lba len flags, coveredBy (.fatNode v lba len flags none) = none
  covers_directory : ∀ v n, covers v = some n → toFileTree.Directory n
  age : V → Nat
  mounted_later : ∀ n v w, coveredBy n = some w → n.fileSystem = some v → age v < age w

/-! ## Lookups -/

namespace FileTree

variable (t : FileTree V)

@[simp] theorem bytes_dotdot : bytes ['.', '.'] = RootFs.dotdot := rfl

theorem dotdot_ne_dot : RootFs.dotdot ≠ RootFs.dot := by decide

def entryNode (v : V) (entry : FatDirEntry) : Node V :=
  .fatNode v ((t.volume v).fs.clusterToLba entry.startCluster) entry.fileLength entry.flags none

variable {n : Node V} {name : Name}

variable {x : Node V} {v : V}

theorem directory_of_lookup (h : t.lookup n name = some x) : t.isDirectory n = true := by
  cases n with
  | rootDir dir =>
    simp only [lookup, rootLookup] at h
    split at h
    · cases h
    · rename_i hlive
      simpa [isDirectory] using hlive
  | fatRoot v => rfl
  | fatNode v lba len flags held =>
    simp only [lookup, fatLookup] at h
    split at h
    · cases h
    · simpa [isDirectory]

theorem lookup_dot (hn : t.isDirectory n = true) (hname : bytes name = RootFs.dot) :
    t.lookup n name = some n := by
  cases n with
  | rootDir dir =>
    have hlive : (t.rootFs.nodes dir).deleted = false := by simpa [isDirectory] using hn
    simp [lookup, rootLookup, RootFs.RootFileSystem.FindEntry, hname, hlive]
  | fatRoot v =>
    have hflags : kAttrDirectory &&& kAttrDirectory ≠ 0 := by decide
    simp only [lookup, fatLookup, if_neg hflags, hname, if_true]
  | fatNode v lba len flags held =>
    have hflags : flags &&& kAttrDirectory ≠ 0 := by simpa [isDirectory] using hn
    simp only [lookup, fatLookup, if_neg hflags, hname, if_true]

theorem lookup_block (hn : t.isDirectory n = true) {lba : Nat} (hplace : t.place n = .block v lba)
    (hname : bytes name ≠ RootFs.dot) :
    t.lookup n name = ((t.volume v).find lba (bytes name)).map (t.entryNode v) := by
  cases n with
  | rootDir dir => cases hplace
  | fatRoot v =>
    cases hplace
    have hflags : kAttrDirectory &&& kAttrDirectory ≠ 0 := by decide
    simp only [lookup, fatLookup, if_neg hflags, if_neg hname]
    rfl
  | fatNode v lba len flags held =>
    cases hplace
    have hflags : flags &&& kAttrDirectory ≠ 0 := by simpa [isDirectory] using hn
    simp only [lookup, fatLookup, if_neg hflags, if_neg hname]
    rfl

theorem lookup_rootDir {dir : Nat} :
    t.lookup (.rootDir dir) name = some x ↔ (t.rootFs.nodes dir).deleted = false ∧
      ∃ entry, t.rootFs.FindEntry dir (bytes name) = some entry ∧ (t.rootFs.nodes entry).deleted = false ∧
        x = .rootDir entry := by
  simp only [lookup, rootLookup]
  split
  · simp [*]
  · rename_i hlive
    simp only [hlive, Option.map_eq_some_iff, Option.filter_eq_some_iff]
    constructor
    · rintro ⟨entry, ⟨hfound, hentry⟩, rfl⟩
      exact ⟨trivial, entry, hfound, by simpa using hentry, rfl⟩
    · rintro ⟨-, entry, hfound, hentry, rfl⟩
      exact ⟨entry, ⟨hfound, by simpa using hentry⟩, rfl⟩

/-! ## Steps -/

section

variable [DecidableEq V]

/-- One round of the loop of `WalkPath`. -/
def step (n : Node V) (name : Name) : Option (Node V) := t.mounts.step t.lookup n name

def walk (names : List Name) (n : Node V) : Option (Node V) := t.mounts.walkNodes t.lookup names n

@[simp] theorem walk_nil (n : Node V) : t.walk [] n = some n := rfl

@[simp] theorem walk_cons (name : Name) (names : List Name) (n : Node V) :
    t.walk (name :: names) n = (t.step n name).bind (t.walk names) :=
  t.mounts.walkNodes_cons t.lookup name names n

@[simp] theorem walk_singleton (name : Name) (n : Node V) : t.walk [name] n = t.step n name := by
  rw [walk_cons]
  exact Option.bind_fun_some _

theorem walk_append (names names' : List Name) (n : Node V) :
    t.walk (names ++ names') n = (t.walk names n).bind (t.walk names') :=
  t.mounts.walkNodes_append t.lookup names names' n

theorem step_eq (n : Node V) (name : Name) :
    t.step n name = (t.lookup (t.mounts.parentSide n name) name).map t.mounts.entered := rfl

theorem walksTo_iff {currentDir : Option (Node V)} {path : List Char} :
    t.WalksTo currentDir path n ↔ t.walk (comps path) (t.mounts.startNode currentDir path) = some n := by
  simp only [WalksTo, t.mounts.walkPath_node, List.take_length, walk]
  exact ⟨fun h => h ⟨fun _ => 0, fun _ => false⟩, fun h _ => h⟩

omit [DecidableEq V] in
theorem entered_of_none (hn : t.coveredBy n = none) : t.mounts.entered n = n := by
  simp [Mounts.entered, mounts, hn]

omit [DecidableEq V] in
theorem entered_of_some (hn : t.coveredBy n = some v) : t.mounts.entered n = .fatRoot v := by
  simp [Mounts.entered, mounts, hn]

theorem step_dot (hn : t.isDirectory n = true) : t.step n ['.'] = some (t.mounts.entered n) := by
  rw [step_eq, Mounts.parentSide_of_ne (by decide), t.lookup_dot hn rfl]
  rfl

theorem parentSide_eq (hn : ∀ v, n ≠ .fatRoot v) (name : Name) : t.mounts.parentSide n name = n := by
  unfold Mounts.parentSide
  cases n with
  | rootDir dir => simp [mounts, Node.fileSystem]
  | fatRoot v => exact absurd rfl (hn v)
  | fatNode v lba len flags held => simp [mounts, Node.fileSystem]

theorem parentSide_fatRoot (v : V) : t.mounts.parentSide (.fatRoot v) ['.', '.'] = (t.covers v).getD (.fatRoot v) := by
  simp [Mounts.parentSide, mounts, Node.fileSystem]

end

end FileTree

end Vfs
