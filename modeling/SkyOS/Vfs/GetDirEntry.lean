import SkyOS.Vfs.PathRewriting

/-!
# Directory and entry (`FileSystem.cpp`, `SystemCall.cpp`)

`GetDirEntry` cuts a path behind its last slash but the one at its end, walks to the directory in front of the cut and
copies what is behind it, with a zero at its end, to a buffer. `mkdir` makes the directory of that name there.

| here | there |
| --- | --- |
| `DirEntry.written` | what is written to `outEntry`, from its first byte on |
| `DirEntry.node` | `*outNode`; `none` when the walk fails |
| `fatMakeDir` | `FatNode::MakeDir` (`FAT.cpp:372`): what becomes of the tree, and the new directory |
-/

namespace Vfs

open List Option

variable {V : Type} [DecidableEq V]

/-! ## The source -/

def nul : Char := Char.ofNat 0

/-- The scan from behind (:146). -/
def lastSlash (path : List Char) : Nat → Nat
  | 0 => 0
  | entryStart + 1 => if path[entryStart]? = some '/' then entryStart + 1 else lastSlash path entryStart

def entryStart (path : List Char) : Nat := lastSlash path (path.length - 1)

structure DirEntry (V : Type) where
  written : List Char
  node : Option (Node V)

/-- `outEntry` as a string. -/
def DirEntry.name (entry : DirEntry V) : Name := entry.written.takeWhile (· ≠ nul)

namespace FileTree

/-- `GetDirEntry` (`FileSystem.cpp:142`). -/
def getDirEntry (t : FileTree V) (currentDir : Option (Node V)) (path : List Char) (entryLen : Nat)
    (refs : Refs (Node V)) : DirEntry V where
  written := (path.drop (entryStart path)).take (min (path.length - entryStart path) entryLen) ++ [nul]
  node := (t.mounts.walkPath (fun _ => t.lookup) currentDir path (entryStart path) refs).2

variable (fatMakeDir : FileTree V → Node V → List UInt8 → Option (FileTree V × Node V))

omit [DecidableEq V] in
/-- `MakeDir`: the tree with the new directory, and its node. -/
def makeDir (t : FileTree V) (n : Node V) (name : List UInt8) : Option (FileTree V × Node V) :=
  match n with
  | .rootDir dir =>
    match t.rootFs.MakeDir dir name with
    | (.E_NO_ERROR, rootFs) => some ({ t with rootFs }, .rootDir t.rootFs.next)
    | _ => none
  | n => fatMakeDir t n name

/-- `mkdir` (`SystemCall.cpp:341`). -/
def mkdir (t : FileTree V) (currentDir : Option (Node V)) (path : List Char) (refs : Refs (Node V)) :
    Option (FileTree V × Node V) :=
  let entry := t.getDirEntry currentDir path 256 refs
  entry.node.bind fun dir => t.makeDir fatMakeDir dir (bytes entry.name)

/-! ## What it is for -/

/-- The name that is not cut off leads from the directory to where the path leads. -/
def Agrees (t : FileTree V) (currentDir : Option (Node V)) (path : List Char) (entryLen : Nat) : Prop :=
  ∀ refs dir, (t.getDirEntry currentDir path entryLen refs).node = some dir →
    path.length - entryStart path ≤ entryLen →
    ∀ refs', t.step dir (t.getDirEntry currentDir path entryLen refs).name =
      (t.mounts.walkPath (fun _ => t.lookup) currentDir path path.length refs').2

/-- `mkdir` stays in its buffer of 256 bytes, and the path leads to the directory that it has made. -/
def MkdirFinds (t : FileTree V) (currentDir : Option (Node V)) (path : List Char) : Prop :=
  ∀ refs, (t.getDirEntry currentDir path 256 refs).written.length ≤ 256 ∧
    ∀ t' made, t.mkdir fatMakeDir currentDir path refs = some (t', made) → t'.WalksTo currentDir path made

/-- `GetDirEntry` stays in its buffer, and splits the path rightly. -/
structure SplitsRight (t : FileTree V) (currentDir : Option (Node V)) (path : List Char) (entryLen : Nat) : Prop where
  inside : ∀ refs, (t.getDirEntry currentDir path entryLen refs).written.length ≤ entryLen
  agrees : t.Agrees currentDir path entryLen
  mkdir : t.MkdirFinds fatMakeDir currentDir path

/-- What is behind the cut is shorter than either buffer, and if the directory is found the path does not end in a slash;
if there is something in front of the cut, no volume is mounted on the node it leads to; and in a volume, `MakeDir`
leaves the way to the directory, and enters the new one under its name. -/
structure SplitSuits (t : FileTree V) (currentDir : Option (Node V)) (path : List Char) (entryLen : Nat) : Prop where
  fits : path.length - entryStart path < entryLen
  fitsMkdir : path.length - entryStart path < 256
  slash : ∀ dir refs, (t.getDirEntry currentDir path entryLen refs).node = some dir → path.getLast? ≠ some '/'
  uncovered : ∀ dir refs, (t.getDirEntry currentDir path entryLen refs).node = some dir →
    path.take (entryStart path) ≠ [] → ∀ n, t.StandsOn currentDir (path.take (entryStart path)) n → t.coveredBy n = none
  enters : ∀ dir refs, (t.getDirEntry currentDir path entryLen refs).node = some dir → (∀ n, dir ≠ .rootDir n) →
    ∀ t' made, fatMakeDir t dir (bytes (path.drop (entryStart path))) = some (t', made) →
      t'.StandsOn currentDir (path.take (entryStart path)) dir ∧
        t'.step dir (path.drop (entryStart path)) = some made

end FileTree

def CString (path : List Char) : Prop := ∀ c ∈ path, 0 < c.toNat ∧ c.toNat < 256

instance (path : List Char) : Decidable (CString path) :=
  List.decidableBAll (fun c : Char => 0 < c.toNat ∧ c.toNat < 256) path

/-! ## The cut -/

theorem lastSlash_le (path : List Char) (n : Nat) : lastSlash path n ≤ n := by
  induction n with
  | zero => exact le_rfl
  | succ n ih =>
    unfold lastSlash
    split
    · exact le_rfl
    · omega

theorem lastSlash_slash (path : List Char) (n : Nat) :
    lastSlash path n = 0 ∨ path[lastSlash path n - 1]? = some '/' := by
  induction n with
  | zero => exact .inl rfl
  | succ n ih =>
    unfold lastSlash
    split
    · rename_i hslash
      exact .inr hslash
    · exact ih

theorem lastSlash_behind (path : List Char) (n : Nat) :
    ∀ i, lastSlash path n ≤ i → i < n → path[i]? ≠ some '/' := by
  induction n with
  | zero =>
    intro i _ hi
    exact absurd hi (Nat.not_lt_zero i)
  | succ n ih =>
    intro i hle hi
    unfold lastSlash at hle
    split at hle
    · omega
    · rename_i hslash
      rcases Nat.lt_succ_iff_lt_or_eq.1 hi with hlt | rfl
      · exact ih i hle hlt
      · exact hslash

section

variable {path : List Char} (hpath : path ≠ [])

theorem entryStart_le (path : List Char) : entryStart path ≤ path.length := by
  have hle := lastSlash_le path (path.length - 1)
  unfold entryStart
  omega

theorem front_ends (path : List Char) :
    path.take (entryStart path) = [] ∨ (path.take (entryStart path)).getLast? = some '/' := by
  rcases lastSlash_slash path (path.length - 1) with h | h
  · exact .inl (by rw [entryStart, h, take_zero])
  · by_cases hzero : entryStart path = 0
    · exact .inl (by rw [hzero, take_zero])
    · have hle := entryStart_le path
      refine .inr ?_
      rw [List.getLast?_eq_getElem?, length_take, Nat.min_eq_left hle, List.getElem?_take_of_lt (by omega)]
      exact h

include hpath

theorem entryStart_lt : entryStart path < path.length := by
  have hle := lastSlash_le path (path.length - 1)
  have hpos := length_pos_iff.2 hpath
  unfold entryStart
  omega

theorem entry_split : ∃ u c, path.drop (entryStart path) = u ++ [c] ∧ '/' ∉ u := by
  have hlt := entryStart_lt hpath
  have hne : path.drop (entryStart path) ≠ [] := by
    rw [ne_eq, drop_eq_nil_iff]
    omega
  refine ⟨(path.drop (entryStart path)).dropLast, (path.drop (entryStart path)).getLast hne,
    (dropLast_append_getLast hne).symm, ?_⟩
  intro hmem
  obtain ⟨i, hi, hslash⟩ := mem_iff_getElem.1 hmem
  rw [length_dropLast, length_drop] at hi
  rw [getElem_dropLast, getElem_drop] at hslash
  apply lastSlash_behind path (path.length - 1) (entryStart path + i) (Nat.le_add_right _ _) (by omega)
  rw [List.getElem?_eq_getElem (by omega), hslash]

theorem entry_name (hlast : path.getLast? ≠ some '/') :
    path.drop (entryStart path) ≠ [] ∧ '/' ∉ path.drop (entryStart path) := by
  obtain ⟨u, c, hsplit, hu⟩ := entry_split hpath
  have hc : path.getLast? = some c := by
    conv_lhs => rw [← take_append_drop (entryStart path) path, hsplit]
    simp
  rw [hsplit]
  refine ⟨by simp, ?_⟩
  rw [mem_append, mem_singleton]
  rintro (h | rfl)
  · exact hu h
  · exact hlast hc

theorem entry_slash (hlast : path.getLast? = some '/') :
    ∃ u, path.drop (entryStart path) = u ++ ['/'] ∧ '/' ∉ u := by
  obtain ⟨u, c, hsplit, hu⟩ := entry_split hpath
  have hc : path.getLast? = some c := by
    conv_lhs => rw [← take_append_drop (entryStart path) path, hsplit]
    simp
  rw [hlast, Option.some.injEq] at hc
  subst hc
  exact ⟨u, hsplit, hu⟩

end

/-! ## The buffer -/

variable {w : Name}

namespace FileTree

variable {t : FileTree V} {currentDir : Option (Node V)} {path : List Char} {entryLen : Nat} {refs : Refs (Node V)}
  {n d x : Node V}

theorem length_written : (t.getDirEntry currentDir path entryLen refs).written.length =
    min (path.length - entryStart path) entryLen + 1 := by
  simp [getDirEntry]

theorem written_inside :
    (t.getDirEntry currentDir path entryLen refs).written.length ≤ entryLen ↔ path.length - entryStart path < entryLen := by
  rw [length_written]
  omega

theorem name_eq (hpath : CString path) (hlen : path.length - entryStart path ≤ entryLen) :
    (t.getDirEntry currentDir path entryLen refs).name = path.drop (entryStart path) := by
  have htake : (path.drop (entryStart path)).take (path.length - entryStart path) = path.drop (entryStart path) := by
    rw [take_of_length_le (by simp)]
  have hnul : ∀ c ∈ path.drop (entryStart path), c ≠ nul := by
    rintro c hc rfl
    exact absurd (hpath nul (mem_of_mem_drop hc)).1 (by decide)
  simp only [getDirEntry, DirEntry.name, Nat.min_eq_left hlen, htake]
  rw [takeWhile_append_of_pos (by simpa using hnul)]
  simp

omit [DecidableEq V] in
theorem zero_notMem_bytes (hpath : CString path) : 0 ∉ bytes (path.drop (entryStart path)) := by
  intro hmem
  obtain ⟨c, hc, hzero⟩ := List.mem_map.1 hmem
  have hbyte := hpath c (mem_of_mem_drop hc)
  have hnat := congrArg UInt8.toNat hzero
  rw [UInt8.toNat_ofNat', Nat.mod_eq_of_lt hbyte.2] at hnat
  simp at hnat
  omega

/-! ## The directory -/

theorem node_iff : (t.getDirEntry currentDir path entryLen refs).node = some d ↔
    t.walk (comps (path.take (entryStart path))) (t.mounts.startNode currentDir path) = some d := by
  simp only [getDirEntry, t.mounts.walkPath_node, walk]

/-- The walk to the directory stands on a node in front of the slashes, and takes one more step `.` if there are any. -/
theorem dir_cases (h : (t.getDirEntry currentDir path entryLen refs).node = some d) :
    ∃ n, t.walk (comps (trimmed (path.take (entryStart path)))) (t.mounts.startNode currentDir path) = some n ∧
      ((path.take (entryStart path) = [] ∧ d = n) ∨
        (path.take (entryStart path) ≠ [] ∧ t.isDirectory n = true ∧ d = t.mounts.entered n)) := by
  rw [node_iff] at h
  rcases front_ends path with hp | hp
  · rw [hp] at h ⊢
    exact ⟨d, h, .inl ⟨rfl, rfl⟩⟩
  · have hcomps : comps (path.take (entryStart path)) = comps (trimmed (path.take (entryStart path))) ++ [['.']] := by
      have hbehind := comps_behind_slash hp []
      rwa [append_nil, comps_slash_end] at hbehind
    rw [hcomps, walk_append, bind_eq_some_iff] at h
    obtain ⟨n, hn, hdot⟩ := h
    have hdir : t.isDirectory n = true := by
      rw [walk_cons, step_eq, Mounts.parentSide_of_ne (by decide)] at hdot
      cases hlookup : t.lookup n ['.'] with
      | none =>
        rw [hlookup] at hdot
        cases hdot
      | some y => exact t.directory_of_lookup hlookup
    rw [walk_cons, t.step_dot hdir] at hdot
    refine ⟨n, hn, .inr ⟨?_, hdir, (Option.some.inj hdot).symm⟩⟩
    intro hnil
    rw [hnil] at hp
    cases hp

theorem comps_path (path : List Char) :
    comps path = comps (trimmed (path.take (entryStart path))) ++
      restOf (path.take (entryStart path)) (path.drop (entryStart path)) := by
  conv_lhs => rw [← take_append_drop (entryStart path) path]
  exact comps_at (front_ends path)

theorem restOf_name (p : List Char) (hw : w ≠ []) (hslash : '/' ∉ w) : restOf p w = [w] := by
  unfold restOf
  split
  · exact comps_name hw hslash
  · rw [comps_slash hw, comps_name hw hslash]

omit [DecidableEq V] in
theorem startNode_front (hpath : path ≠ [])
    (h : path.take (entryStart path) ≠ [] ∨ path.getLast? ≠ some '/') :
    t.mounts.startNode currentDir (path.take (entryStart path)) = t.mounts.startNode currentDir path := by
  refine t.mounts.startNode_congr currentDir ?_
  cases hp : path.take (entryStart path) with
  | cons c p =>
    conv_rhs => rw [← take_append_drop (entryStart path) path, hp]
    rfl
  | nil =>
    have hslash := (entry_name hpath (h.resolve_left (not_not_intro hp))).2
    have hdrop : path.drop (entryStart path) = path := by
      conv_rhs => rw [← take_append_drop (entryStart path) path, hp]
      rfl
    rw [hdrop] at hslash
    constructor
    · intro hnil
      cases hnil
    · exact fun hhead => absurd (List.mem_of_mem_head? hhead) hslash

variable {fatMakeDir : FileTree V → Node V → List UInt8 → Option (FileTree V × Node V)}

theorem SplitSuits.walk (h : t.SplitSuits fatMakeDir currentDir path entryLen) (hpath : path ≠ [])
    (hnode : (t.getDirEntry currentDir path entryLen refs).node = some d) :
    t.walk (comps (trimmed (path.take (entryStart path)))) (t.mounts.startNode currentDir path) = some d ∧
      comps path = comps (trimmed (path.take (entryStart path))) ++ [path.drop (entryStart path)] := by
  have hlast := h.slash d refs hnode
  obtain ⟨hw, hslash⟩ := entry_name hpath hlast
  refine ⟨?_, by rw [comps_path, restOf_name _ hw hslash]⟩
  obtain ⟨n, hn, ⟨-, rfl⟩ | ⟨hp, -, rfl⟩⟩ := dir_cases hnode
  · exact hn
  · have hstands : t.StandsOn currentDir (path.take (entryStart path)) n := by
      rw [standsOn_iff, startNode_front hpath (.inl hp)]
      exact hn
    rw [entered_of_none _ (h.uncovered _ refs hnode hp n hstands)]
    exact hn

theorem SplitSuits.agrees (h : t.SplitSuits fatMakeDir currentDir path entryLen) (hpath : path ≠ [])
    (hstring : CString path) : t.Agrees currentDir path entryLen := by
  intro refs d hnode hlen refs'
  obtain ⟨hwalk, hcomps⟩ := h.walk hpath hnode
  have hwhole := t.mounts.walkPath_node t.lookup currentDir path path.length refs'
  rw [take_length] at hwhole
  rw [hwhole, name_eq hstring hlen]
  change _ = t.walk (comps path) _
  rw [hcomps, walk_append, hwalk, bind_some, walk_singleton]

end FileTree

/-! ## A new directory in the root file system -/

namespace Tree

open FileTree

variable {t : Tree V} {currentDir : Option (Node V)} {path : List Char} {entryLen dir : Nat} {name : List UInt8}
  {n x : Node V}

def withDir (t : Tree V) (dir : Nat) (name : List UInt8) : FileTree V :=
  { t.toFileTree with rootFs := t.rootFs.added dir name }

/-- The node is no `RootDir` that is yet to be made. -/
def Known (t : Tree V) : Node V → Prop
  | .rootDir n => n < t.rootFs.next
  | _ => True

omit [DecidableEq V] in
theorem known_of_directory (h : t.Directory n) : t.Known n := by
  cases n with
  | rootDir dir => exact h.1
  | fatRoot v => trivial
  | fatNode v lba len flags held => trivial

omit [DecidableEq V] in
theorem known_entered (h : t.Known n) : t.Known (t.mounts.entered n) := by
  cases hcovered : t.coveredBy n with
  | none => rwa [entered_of_none _ hcovered]
  | some v =>
    rw [entered_of_some _ hcovered]
    trivial

theorem known_parentSide (h : t.Known n) (name : Name) : t.Known (t.mounts.parentSide n name) := by
  cases n with
  | rootDir dir => rwa [t.parentSide_eq (by simp)]
  | fatNode v lba len flags held => rwa [t.parentSide_eq (by simp)]
  | fatRoot v =>
    by_cases hname : name = ['.', '.']
    · subst hname
      rw [parentSide_fatRoot]
      cases hcovers : t.covers v with
      | none => trivial
      | some m => exact known_of_directory (t.covers_directory v m hcovers)
    · rwa [Mounts.parentSide_of_ne hname]

omit [DecidableEq V] in
theorem known_lookup (hn : t.Known n) {name : Name} (h : t.lookup n name = some x) : t.Known x := by
  have hdir := t.directory_of_lookup h
  have hblock : ∀ v lba, t.place n = .block v lba → t.Known x := by
    intro v lba hplace
    by_cases hdot : bytes name = RootFs.dot
    · rw [t.lookup_dot hdir hdot] at h
      cases h
      exact hn
    · rw [t.lookup_block hdir hplace hdot, map_eq_some_iff] at h
      obtain ⟨entry, -, rfl⟩ := h
      trivial
  cases n with
  | rootDir k =>
    obtain ⟨-, entry, hfound, -, rfl⟩ := t.lookup_rootDir.1 h
    exact t.shape.findEntry_lt hn hfound
  | fatRoot v => exact hblock _ _ rfl
  | fatNode v lba len flags held => exact hblock _ _ rfl

variable {name' : Name} {i j : Nat} {y : Node V} {inner : List Name}

omit [DecidableEq V] in
theorem lookup_withDir (name : List UInt8) (hdir : dir < t.rootFs.next) (hn : t.Known n) (h : t.lookup n name' = some x) :
    (t.withDir dir name).lookup n name' = some x := by
  cases n with
  | rootDir k =>
    obtain ⟨hlive, entry, hfound, hentry, rfl⟩ := t.lookup_rootDir.1 h
    have hlt : entry < t.rootFs.next := t.shape.findEntry_lt hn hfound
    refine (FileTree.lookup_rootDir _).2 ⟨?_, entry, t.shape.findEntry_added hdir hn hfound, ?_, rfl⟩
    · rw [withDir, RootFs.RootFileSystem.added_old hdir name hn]
      exact hlive
    · rw [withDir, RootFs.RootFileSystem.added_old hdir name hlt]
      exact hentry
  | fatRoot v => exact h
  | fatNode v lba len flags held => exact h

theorem known_step (hn : t.Known n) {name : Name} (h : t.step n name = some x) : t.Known x := by
  rw [step_eq, map_eq_some_iff] at h
  obtain ⟨y, hy, rfl⟩ := h
  exact known_entered (known_lookup (known_parentSide hn name) hy)

theorem step_withDir (name : List UInt8) (hdir : dir < t.rootFs.next) (hn : t.Known n)
    (h : t.step n name' = some x) : (t.withDir dir name).step n name' = some x := by
  rw [step_eq, map_eq_some_iff] at h
  obtain ⟨y, hy, rfl⟩ := h
  have hlookup := lookup_withDir name hdir (known_parentSide hn name') hy
  change ((t.withDir dir name).lookup (t.mounts.parentSide n name') name').map t.mounts.entered = _
  rw [hlookup]
  rfl

theorem known_walk : ∀ {names : List Name} {n x : Node V}, t.Known n → t.walk names n = some x → t.Known x := by
  intro names
  induction names with
  | nil =>
    intro n x hn h
    cases h
    exact hn
  | cons name names ih =>
    intro n x hn h
    rw [walk_cons, bind_eq_some_iff] at h
    obtain ⟨y, hy, hrest⟩ := h
    exact ih (known_step hn hy) hrest

theorem walk_withDir (name : List UInt8) (hdir : dir < t.rootFs.next) : ∀ {names : List Name} {n x : Node V},
    t.Known n → t.walk names n = some x → (t.withDir dir name).walk names n = some x := by
  intro names
  induction names with
  | nil =>
    intro n x hn h
    exact h
  | cons name' names ih =>
    intro n x hn h
    rw [walk_cons, bind_eq_some_iff] at h
    obtain ⟨y, hy, hrest⟩ := h
    rw [walk_cons, step_withDir name hdir hn hy]
    exact ih (known_step hn hy) hrest

omit [DecidableEq V] in
theorem directory_startNode (hstart : ∀ n ∈ currentDir, t.Directory n) (path : List Char) :
    t.Directory (t.mounts.startNode currentDir path) := by
  have hroot : t.Directory (.rootDir 0) := ⟨t.shape.root.1, t.shape.root_live⟩
  cases currentDir with
  | none => exact hroot
  | some n =>
    simp only [Mounts.startNode]
    split
    · exact hroot
    · exact hstart n rfl

omit [DecidableEq V] in
theorem entered_next : t.mounts.entered (.rootDir t.rootFs.next) = .rootDir t.rootFs.next := by
  apply entered_of_none
  cases hcovered : t.coveredBy (.rootDir t.rootFs.next) with
  | none => rfl
  | some v => exact absurd (t.covers_directory v _ (t.covers_eq _ v hcovered)).1 (Nat.lt_irrefl _)

variable {fatMakeDir : FileTree V → Node V → List UInt8 → Option (FileTree V × Node V)} {refs : Refs (Node V)}
  {t' : FileTree V} {made d : Node V}

omit [DecidableEq V] in
theorem makeDir_rootDir : t.makeDir fatMakeDir (.rootDir dir) name = some (t', made) ↔
    t.rootFs.FindEntry dir name = none ∧ t' = t.withDir dir name ∧ made = .rootDir t.rootFs.next := by
  cases hfound : t.rootFs.FindEntry dir name with
  | none =>
    simp only [FileTree.makeDir, RootFs.RootFileSystem.makeDir_of_none hfound, Option.some.injEq, Prod.mk.injEq,
      true_and, withDir]
    exact and_congr eq_comm eq_comm
  | some entry => simp [FileTree.makeDir, RootFs.RootFileSystem.makeDir_of_some hfound]

omit [DecidableEq V] in
theorem makeDir_of_ne (hd : ∀ n, d ≠ .rootDir n) :
    t.makeDir fatMakeDir d name = fatMakeDir t.toFileTree d name := by
  cases d with
  | rootDir n => exact absurd rfl (hd n)
  | fatRoot v => rfl
  | fatNode v lba len flags held => rfl

theorem mkdir_eq_some (hstring : CString path) (hlen : path.length - entryStart path ≤ 256) :
    t.mkdir fatMakeDir currentDir path refs = some (t', made) ↔
      ∃ d, (t.getDirEntry currentDir path 256 refs).node = some d ∧
        t.makeDir fatMakeDir d (bytes (path.drop (entryStart path))) = some (t', made) := by
  simp only [FileTree.mkdir, name_eq hstring hlen, bind_eq_some_iff]

theorem step_new (hdir : dir < t.rootFs.next) (hlive : (t.rootFs.nodes dir).deleted = false)
    (hzero : 0 ∉ bytes w) (hnone : t.rootFs.FindEntry dir (bytes w) = none) :
    (t.withDir dir (bytes w)).step (.rootDir dir) w = some (.rootDir t.rootFs.next) := by
  have hlookup : (t.withDir dir (bytes w)).lookup (.rootDir dir) w = some (.rootDir t.rootFs.next) := by
    refine (FileTree.lookup_rootDir _).2 ⟨?_, t.rootFs.next, t.shape.findEntry_new hdir hzero hnone, ?_, rfl⟩
    · rw [withDir, RootFs.RootFileSystem.added_dir hdir]
      exact hlive
    · rw [withDir, RootFs.RootFileSystem.added_new hdir]
  rw [step_eq, FileTree.parentSide_eq _ (by simp), hlookup]
  exact congrArg some entered_next

theorem isDirectory_found (hstart : ∀ n ∈ currentDir, t.Directory n)
    (hnode : (t.getDirEntry currentDir path entryLen refs).node = some d) : t.isDirectory d = true ∧ t.Known d := by
  have hdirectory := directory_startNode hstart path
  obtain ⟨n, hn, ⟨hp, rfl⟩ | ⟨-, hdir, rfl⟩⟩ := dir_cases hnode
  · rw [hp] at hn
    cases hn
    exact ⟨isDirectory_of_directory hdirectory, known_of_directory hdirectory⟩
  · exact ⟨isDirectory_entered hdir, known_entered (known_walk (known_of_directory hdirectory) hn)⟩

theorem mkdirFinds_of_suits (h : t.SplitSuits fatMakeDir currentDir path entryLen) (hpath : path ≠ [])
    (hstring : CString path) (hstart : ∀ n ∈ currentDir, t.Directory n) :
    t.MkdirFinds fatMakeDir currentDir path := by
  intro refs
  refine ⟨written_inside.2 h.fitsMkdir, ?_⟩
  intro t' made hmade
  obtain ⟨d, hnode, hmake⟩ := (mkdir_eq_some hstring h.fitsMkdir.le).1 hmade
  obtain ⟨hwalk, hcomps⟩ := h.walk hpath hnode
  obtain ⟨hdir, hknown⟩ := isDirectory_found hstart hnode
  have henters : (∀ n, d ≠ .rootDir n) → t'.WalksTo currentDir path made := by
    intro hfat
    obtain ⟨hstands, hstep⟩ := h.enters d refs hnode hfat t' made ((makeDir_of_ne hfat).symm.trans hmake)
    rw [standsOn_iff, startNode_front hpath (.inr (h.slash d refs hnode))] at hstands
    rw [walksTo_iff, hcomps, walk_append, hstands, bind_some, walk_singleton, hstep]
  cases d with
  | rootDir dir =>
    have hlive : (t.rootFs.nodes dir).deleted = false := by simpa [FileTree.isDirectory] using hdir
    obtain ⟨hnone, rfl, rfl⟩ := makeDir_rootDir.1 hmake
    have hfront := walk_withDir (bytes (path.drop (entryStart path))) hknown
      (known_of_directory (directory_startNode hstart path)) hwalk
    rw [walksTo_iff, hcomps, walk_append]
    change ((t.withDir dir _).walk _ (t.mounts.startNode currentDir path)).bind _ = _
    rw [hfront, bind_some, walk_singleton, step_new hknown hlive (zero_notMem_bytes hstring) hnone]
  | fatRoot v => exact henters (by simp)
  | fatNode v lba len flags held => exact henters (by simp)

/-! ## A slash at the end -/

omit [DecidableEq V] in
theorem eq_of_entered (h : t.mounts.entered n = .rootDir dir) : n = .rootDir dir := by
  cases hcovered : t.coveredBy n with
  | none => rwa [entered_of_none _ hcovered] at h
  | some v =>
    rw [entered_of_some _ hcovered] at h
    cases h

omit [DecidableEq V] in
theorem entered_inj (h : t.mounts.entered (.rootDir i) = t.mounts.entered (.rootDir j)) : i = j := by
  cases hj : t.coveredBy (.rootDir j) with
  | none =>
    rw [entered_of_none _ hj] at h
    cases eq_of_entered h
    rfl
  | some v =>
    cases hi : t.coveredBy (.rootDir i) with
    | none =>
      rw [entered_of_none _ hi, eq_comm] at h
      cases eq_of_entered h
      rfl
    | some w =>
      rw [entered_of_some _ hi, entered_of_some _ hj] at h
      cases h
      have hsame := (t.covers_eq _ _ hi).symm.trans (t.covers_eq _ _ hj)
      cases hsame
      rfl

omit [DecidableEq V] in
theorem entered_entered
    (h : t.mounts.entered (t.mounts.entered (.rootDir i)) = t.mounts.entered (.rootDir j)) : i = j := by
  cases hi : t.coveredBy (.rootDir i) with
  | none =>
    rw [entered_of_none _ hi] at h
    exact entered_inj h
  | some v =>
    rw [entered_of_some _ hi] at h
    cases hv : t.coveredBy (.fatRoot v) with
    | none =>
      rw [entered_of_none _ hv, ← entered_of_some _ hi] at h
      exact entered_inj h
    | some w =>
      rw [entered_of_some _ hv] at h
      cases hj : t.coveredBy (.rootDir j) with
      | none =>
        rw [entered_of_none _ hj] at h
        cases h
      | some u =>
        rw [entered_of_some _ hj] at h
        cases h
        have hsame := (t.covers_eq _ _ hv).symm.trans (t.covers_eq _ _ hj)
        cases hsame

variable {entry : Nat} {u : Name}

omit [DecidableEq V] in
theorem entry_younger (hdir : dir < t.rootFs.next) (hmem : entry ∈ (t.rootFs.nodes dir).fEntryList) :
    dir < entry ∧ (t.rootFs.nodes dir).fParentDir ≤ dir := by
  obtain ⟨hlt, -, hparent⟩ := t.shape.entry dir hdir entry hmem
  have hne : entry ≠ 0 := by
    rintro rfl
    exact t.shape.root.2.2 ⟨dir, hdir, hmem⟩
  have hyounger := t.older.parent entry hlt hne
  rw [hparent] at hyounger
  refine ⟨hyounger, ?_⟩
  by_cases hzero : dir = 0
  · rw [hzero, t.older.root]
  · exact (t.older.parent dir hdir hzero).le

omit [DecidableEq V] in
/-- A name with a slash at its end is searched for in the entry list, where another name is not found under it. -/
theorem findEntry_slash {fs : RootFs.RootFileSystem}
    (h : fs.FindEntry dir (bytes (u ++ ['/'])) = some entry) :
    entry ∈ (fs.nodes dir).fEntryList ∧ (fs.nodes entry).fName = bytes u ++ [0x2F] := by
  have hbytes : bytes (u ++ ['/']) = bytes u ++ [0x2F] := by simp [bytes]
  have hdot : bytes u ++ [0x2F] ≠ RootFs.dot := by
    intro heq
    have hlast := congrArg List.getLast? heq
    simp [RootFs.dot] at hlast
  have hdotdot : bytes u ++ [0x2F] ≠ RootFs.dotdot := by
    intro heq
    have hlast := congrArg List.getLast? heq
    simp [RootFs.dotdot] at hlast
  rw [hbytes, RootFs.RootFileSystem.findEntry_entry _ _ hdot hdotdot] at h
  exact ⟨List.mem_of_find?_eq_some h, by simpa using List.find?_some h⟩

omit [DecidableEq V] in
theorem bytes_ne_slash (u : Name) : bytes u ≠ bytes u ++ [0x2F] := by
  intro heq
  have hlen := congrArg List.length heq
  simp at hlen

/-- The components of a path with a slash at its end: the last one is `.`. -/
theorem comps_slash_last (hw : path.drop (entryStart path) = u ++ ['/']) (hu : '/' ∉ u) :
    ∃ inner : List Name, comps path = comps (trimmed (path.take (entryStart path))) ++ (inner ++ [['.']]) ∧
      (inner = [] ∨ inner = [u]) := by
  by_cases hempty : u = []
  · subst hempty
    refine ⟨[], ?_, .inl rfl⟩
    rw [comps_path, hw, nil_append, nil_append]
    congr 1
    unfold restOf
    split <;> rfl
  · refine ⟨[u], ?_, .inr rfl⟩
    rw [comps_path, hw, restOf_name_slash _ hempty hu, comps_slash_end]
    rfl

theorem step_dot_cases {t : FileTree V} (h : t.step y ['.'] = some x) : t.mounts.entered y = x := by
  rw [step_eq, Mounts.parentSide_of_ne (by decide), map_eq_some_iff] at h
  obtain ⟨z, hz, rfl⟩ := h
  rw [t.lookup_dot (t.directory_of_lookup hz) rfl] at hz
  cases hz
  rfl

/-- The new directory is found under no other name. -/
theorem not_found_new (hdir : dir < t.rootFs.next) (hname : 0 ∉ name) (hne : bytes u ≠ name)
    (hinner : inner = [] ∨ inner = [u]) :
    (t.withDir dir name).walk inner (.rootDir dir) ≠ some (.rootDir t.rootFs.next) := by
  rcases hinner with rfl | rfl
  · intro h
    cases h
    exact absurd hdir (Nat.lt_irrefl _)
  · intro h
    rw [walk_singleton, step_eq, FileTree.parentSide_eq _ (by simp), map_eq_some_iff] at h
    obtain ⟨z, hz, hentered⟩ := h
    obtain rfl : z = .rootDir t.rootFs.next := eq_of_entered hentered
    obtain ⟨-, entry, hfound, -, heq⟩ := (FileTree.lookup_rootDir _).1 hz
    cases heq
    by_cases hdot : bytes u = RootFs.dot
    · rw [hdot] at hfound
      cases hfound
      exact absurd hdir (Nat.lt_irrefl _)
    · by_cases hdotdot : bytes u = RootFs.dotdot
      · rw [hdotdot, withDir, RootFs.RootFileSystem.FindEntry, if_neg dotdot_ne_dot, if_pos rfl,
          RootFs.RootFileSystem.added_dir hdir, Option.some.injEq] at hfound
        have hparent := t.shape.parent dir hdir
        dsimp only at hfound
        omega
      · rw [RootFs.RootFileSystem.findEntry_entry _ _ hdot hdotdot] at hfound
        have hstored := List.find?_some hfound
        rw [withDir, RootFs.RootFileSystem.added_new hdir, decide_eq_true_eq] at hstored
        rw [RootFs.RootFileSystem.stored_of_zero hname] at hstored
        exact hne hstored.symm

/-- Nor is an entry under the name without the slash, or as the directory itself. -/
theorem not_found_entry (hdir : dir < t.rootFs.next)
    (hmem : entry ∈ (t.rootFs.nodes dir).fEntryList) (hname : (t.rootFs.nodes entry).fName ≠ bytes u)
    (hinner : inner = [] ∨ inner = [u])
    (h : t.walk inner (.rootDir dir) = some y) : t.mounts.entered y ≠ t.mounts.entered (.rootDir entry) := by
  intro hentered
  obtain ⟨hyounger, hparent⟩ := entry_younger hdir hmem
  rcases hinner with rfl | rfl
  · cases h
    have := entered_inj hentered
    omega
  · rw [walk_singleton, step_eq, t.parentSide_eq (by simp), map_eq_some_iff] at h
    obtain ⟨z, hz, rfl⟩ := h
    obtain ⟨-, e, hfound, -, rfl⟩ := t.lookup_rootDir.1 hz
    obtain rfl : e = entry := entered_entered hentered
    by_cases hdot : bytes u = RootFs.dot
    · rw [hdot] at hfound
      cases hfound
      omega
    · by_cases hdotdot : bytes u = RootFs.dotdot
      · rw [hdotdot, RootFs.RootFileSystem.FindEntry, if_neg dotdot_ne_dot, if_pos rfl, Option.some.injEq] at hfound
        omega
      · rw [RootFs.RootFileSystem.findEntry_entry _ _ hdot hdotdot] at hfound
        exact hname (by simpa using List.find?_some hfound)

section

variable (hpath : path ≠ []) (hstring : CString path) (hstart : ∀ n ∈ currentDir, t.Directory n)
include hpath hstring hstart

/-- With a slash at its end a path is split wrongly in the root file system: the name has the slash. -/
theorem slash_wrong (hnode : (t.getDirEntry currentDir path entryLen refs).node = some (.rootDir dir))
    (hright : t.SplitsRight fatMakeDir currentDir path entryLen) : path.getLast? ≠ some '/' := by
  intro hlast
  obtain ⟨u, hw, hu⟩ := entry_slash hpath hlast
  obtain ⟨inner, hcomps, hinner⟩ := comps_slash_last hw hu
  obtain ⟨hdirectory, hdir⟩ := isDirectory_found hstart hnode
  have hlive : (t.rootFs.nodes dir).deleted = false := by simpa [FileTree.isDirectory] using hdirectory
  have hfront : t.walk (comps (trimmed (path.take (entryStart path)))) (t.mounts.startNode currentDir path) =
      some (.rootDir dir) := by
    obtain ⟨n, hn, ⟨-, hd⟩ | ⟨-, -, hd⟩⟩ := dir_cases hnode
    · rw [hn, hd]
    · rw [hn, eq_of_entered hd.symm]
  have hlen := written_inside.1 (hright.inside refs)
  have hlen' := written_inside.1 (hright.mkdir refs).1
  have hzero := zero_notMem_bytes hstring
  have hbytes : bytes (path.drop (entryStart path)) = bytes u ++ [0x2F] := by simp [hw, bytes]
  cases hfound : t.rootFs.FindEntry dir (bytes (path.drop (entryStart path))) with
  | none =>
    -- `mkdir` makes a directory of that name, and the path leads elsewhere
    have hmade := (hright.mkdir refs).2 _ _ ((mkdir_eq_some hstring hlen'.le).2
      ⟨_, hnode, makeDir_rootDir.2 ⟨hfound, rfl, rfl⟩⟩)
    have hfront' := walk_withDir (bytes (path.drop (entryStart path))) hdir
      (known_of_directory (directory_startNode hstart path)) hfront
    rw [walksTo_iff, hcomps, walk_append] at hmade
    change ((t.withDir dir _).walk _ (t.mounts.startNode currentDir path)).bind _ = _ at hmade
    rw [hfront', bind_some, walk_append, bind_eq_some_iff] at hmade
    obtain ⟨y, hy, hdot⟩ := hmade
    rw [walk_singleton] at hdot
    have hentered : t.mounts.entered y = .rootDir t.rootFs.next := step_dot_cases (t := t.withDir dir _) hdot
    obtain rfl := eq_of_entered hentered
    exact not_found_new hdir hzero (hbytes ▸ bytes_ne_slash u) hinner hy
  | some entry =>
    -- there is one, and the path leads elsewhere
    rw [hw] at hfound
    obtain ⟨hmem, hname⟩ := findEntry_slash hfound
    obtain ⟨hlt, hdead, -⟩ := t.shape.entry dir hdir entry hmem
    have hentry : (t.rootFs.nodes entry).deleted = false := by
      by_contra hdel
      have := t.shape.dead entry hlt (by simpa using hdel)
      rw [hdead] at this
      cases this
    have hagrees := hright.agrees refs _ hnode hlen.le refs
    have hstep : t.step (.rootDir dir) (u ++ ['/']) = some (t.mounts.entered (.rootDir entry)) := by
      rw [step_eq, t.parentSide_eq (by simp), t.lookup_rootDir.2 ⟨hlive, entry, hfound, hentry, rfl⟩]
      rfl
    have hwhole := t.mounts.walkPath_node t.lookup currentDir path path.length refs
    rw [take_length] at hwhole
    rw [name_eq hstring hlen.le, hw, hstep, hwhole] at hagrees
    change _ = t.walk (comps path) _ at hagrees
    rw [hcomps, walk_append, hfront, bind_some, walk_append, eq_comm, bind_eq_some_iff] at hagrees
    obtain ⟨y, hy, hdot⟩ := hagrees
    rw [walk_singleton] at hdot
    exact not_found_entry hdir hmem (hname ▸ (bytes_ne_slash u).symm) hinner hy (step_dot_cases hdot)

theorem splitsRight_of_suits (h : t.SplitSuits fatMakeDir currentDir path entryLen) :
    t.SplitsRight fatMakeDir currentDir path entryLen where
  inside := fun _ => written_inside.2 h.fits
  agrees := h.agrees hpath hstring
  mkdir := mkdirFinds_of_suits h hpath hstring hstart

theorem suits_of_splitsRight (hroot : ∀ refs d, (t.getDirEntry currentDir path entryLen refs).node = some d →
      ∃ n, d = .rootDir n)
    (h : t.SplitsRight fatMakeDir currentDir path entryLen) : t.SplitSuits fatMakeDir currentDir path entryLen where
  fits := written_inside.1 (h.inside ⟨fun _ => 0, fun _ => false⟩)
  fitsMkdir := written_inside.1 (h.mkdir ⟨fun _ => 0, fun _ => false⟩).1
  slash := by
    intro d refs hnode
    obtain ⟨dir, rfl⟩ := hroot refs d hnode
    exact slash_wrong hpath hstring hstart hnode h
  uncovered := by
    intro d refs hnode hp n hstands
    obtain ⟨dir, rfl⟩ := hroot refs d hnode
    obtain ⟨m, hm, ⟨hnil, -⟩ | ⟨-, -, hd⟩⟩ := dir_cases hnode
    · exact absurd hnil hp
    · rw [standsOn_iff, startNode_front hpath (.inl hp), hm] at hstands
      cases hstands
      cases hcovered : t.coveredBy n with
      | none => rfl
      | some v =>
        rw [entered_of_some _ hcovered] at hd
        cases hd
  enters := by
    intro d refs hnode hfat
    obtain ⟨dir, rfl⟩ := hroot refs d hnode
    exact absurd rfl (hfat dir)

end

/-- A name with a slash that is not found, where the path leads somewhere. -/
theorem splits_wrong_on_volume (hstring : CString path) (hw : path.drop (entryStart path) = u ++ ['/'])
    (hnode : (t.getDirEntry currentDir path entryLen refs).node = some d) (hnone : t.lookup d (u ++ ['/']) = none)
    (hfound : t.WalksTo currentDir path x) : ¬ t.SplitsRight fatMakeDir currentDir path entryLen := by
  intro h
  have hlen := written_inside.1 (h.inside refs)
  have hagrees := h.agrees refs d hnode hlen.le refs
  have hside : u ++ ['/'] ≠ ['.', '.'] := by
    intro heq
    have hlast := congrArg List.getLast? heq
    simp at hlast
  rw [hfound refs, name_eq hstring hlen.le, hw, step_eq, Mounts.parentSide_of_ne hside, hnone] at hagrees
  cases hagrees

/-- **Directory and entry.** For every tree, path, starting directory and length of the buffer: the path is split rightly
if the condition is met; only then, if the directory is one of the root file system or is not found; and in any
directory not with a slash at the end, if no name there has one and the path leads somewhere. -/
theorem getDirEntry_right_iff (t : Tree V)
    (fatMakeDir : FileTree V → Node V → List UInt8 → Option (FileTree V × Node V)) (currentDir : Option (Node V))
    (path : List Char) (entryLen : Nat) (hpath : path ≠ []) (hstring : CString path)
    (hstart : ∀ n ∈ currentDir, t.Directory n) :
    (t.SplitSuits fatMakeDir currentDir path entryLen → t.SplitsRight fatMakeDir currentDir path entryLen) ∧
    ((∀ refs d, (t.getDirEntry currentDir path entryLen refs).node = some d → ∃ n, d = .rootDir n) →
      (t.SplitsRight fatMakeDir currentDir path entryLen ↔ t.SplitSuits fatMakeDir currentDir path entryLen)) ∧
    ∀ refs d u x, (t.getDirEntry currentDir path entryLen refs).node = some d →
      path.drop (entryStart path) = u ++ ['/'] → t.lookup d (u ++ ['/']) = none → t.WalksTo currentDir path x →
      ¬ t.SplitsRight fatMakeDir currentDir path entryLen := by
  refine ⟨splitsRight_of_suits hpath hstring hstart, ?_, ?_⟩
  · exact fun hroot => ⟨suits_of_splitsRight hpath hstring hstart hroot, splitsRight_of_suits hpath hstring hstart⟩
  · exact fun refs d u x hnode hw hnone hfound => splits_wrong_on_volume hstring hw hnode hnone hfound

theorem getDirEntry_right_iff_root :
    oneVolume.SplitsRight (fun _ _ _ => none) none ['/', 'a'] 256 ∧
      ¬ oneVolume.SplitsRight (fun _ _ _ => none) none ('/' :: boot ++ ['/']) 256 := by
  have hiff := fun path (hpath : path ≠ []) (hstring : CString path) =>
    getDirEntry_right_iff oneVolume (fun _ _ _ => none) none path 256 hpath hstring (by simp)
  constructor
  · refine (hiff ['/', 'a'] (by simp) (by decide)).1 ?_
    refine ⟨by decide, by decide, fun _ _ _ => by decide, ?_, fun _ _ _ _ _ _ h => by cases h⟩
    intro d refs _ _ n hstands
    obtain rfl : Node.rootDir 0 = n := Option.some.inj (standsOn_iff.1 hstands)
    rfl
  · exact (hiff ('/' :: boot ++ ['/']) (by simp [boot]) (by decide)).2.2 ⟨fun _ => 0, fun _ => false⟩ (.rootDir 0) boot
      (.fatRoot ()) (node_iff.2 (by decide)) (by decide) (by decide) ((walksTo_iff _).2 (by decide))

/-- The four letters of `boot` and their zero do not fit into four bytes; and `mkdir` of `a/` makes a directory that
`a/` does not lead to. -/
theorem split_writes_behind : ¬ (∀ (t : Tree Unit) (currentDir : Option (Node Unit)) (path : List Char) (entryLen : Nat),
      path ≠ [] → 1 ≤ entryLen → CString path → (∀ n ∈ currentDir, t.Directory n) →
      t.SplitsRight (fun _ _ _ => none) currentDir path entryLen) ∧
    ¬ oneVolume.MkdirFinds (fun _ _ _ => none) none ['a', '/'] := by
  constructor
  · intro h
    have hinside := (h oneVolume none boot 4 (by simp [boot]) (by decide) (by decide) (by simp)).inside
      ⟨fun _ => 0, fun _ => false⟩
    revert hinside
    rw [written_inside]
    decide
  · intro h
    have hmade := (h ⟨fun _ => 0, fun _ => false⟩).2 _ _ ((mkdir_eq_some (by decide) (by decide)).2
      ⟨.rootDir 0, node_iff.2 (by decide), makeDir_rootDir.2 ⟨by decide, rfl, rfl⟩⟩)
    rw [walksTo_iff] at hmade
    revert hmade
    decide

end Tree

end Vfs
