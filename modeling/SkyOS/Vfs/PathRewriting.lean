import SkyOS.Vfs.MountedTree

/-!
# Rewriting a path (`FileSystem.cpp`)

Further slashes and `./` change nothing on the way. `d/../` leads through a subdirectory and, by the `..` in it, back.
The `..` of a directory in the root directory of a volume names cluster 0, and `ClusterToLba` makes of it a block in
front of the data area.

| here | there |
| --- | --- |
| `Insertion` | what is inserted into a path |
| `StandsOn` | the directory reached at the place of the insertion: where the walk is before the slashes in front of it |
| `Keeps` | where the path leads to a directory, the path with the insertion leads to the same place |
-/

namespace Vfs

open List Option

inductive Insertion where
  | slash
  | append
  | dot
  | subdirectory (d : Name)

namespace Insertion

def text : Insertion → List Char
  | slash => ['/']
  | append => ['/']
  | dot => ['.', '/']
  | subdirectory d => d ++ ['/', '.', '.', '/']

/-- The places for an insertion: a slash next to another one or at the end, and a component where one begins. -/
def At : Insertion → List Char → List Char → Prop
  | slash, p, q => p.getLast? = some '/' ∨ q.head? = some '/'
  | append, _, q => q = []
  | dot, p, q => (p = [] ∧ q.head? ≠ some '/') ∨ p.getLast? = some '/'
  | subdirectory _, p, q => (p = [] ∧ q.head? ≠ some '/') ∨ p.getLast? = some '/'

end Insertion

variable {V : Type} [DecidableEq V]

namespace FileTree

/-- `WalkPath` comes to a node with the part `p` of a path, without the slashes at its end. -/
def StandsOn (t : FileTree V) (currentDir : Option (Node V)) (p : List Char) (n : Node V) : Prop :=
  ∀ refs, (t.mounts.walkPath (fun _ => t.lookup) currentDir p (trimmed p).length refs).2 = some n

def Keeps (t : FileTree V) (currentDir : Option (Node V)) (p : List Char) (ins : Insertion) (q : List Char) : Prop :=
  ∀ n, t.WalksTo currentDir (p ++ q) n → t.isDirectory n = true →
    ∃ n', t.WalksTo currentDir (p ++ ins.text ++ q) n' ∧ t.place n' = t.place n

/-- In every path that the insertion has a place in where `n` is reached. -/
def Harmless (t : FileTree V) (ins : Insertion) (n : Node V) : Prop :=
  ∀ currentDir p q, ins.At p q → t.StandsOn currentDir p n → t.Keeps currentDir p ins q

omit [DecidableEq V] in
/-- A directory in `n` that `d` names. -/
def Subdirectory (t : FileTree V) (n : Node V) (d : Name) : Prop :=
  d ≠ [] ∧ '/' ∉ d ∧ bytes d ≠ RootFs.dot ∧ bytes d ≠ RootFs.dotdot ∧
    ∃ child, t.lookup n d = some child ∧ t.isDirectory child = true

/-- A slash behind a path: an empty path becomes `/`, and any other one without a slash at its end gets a component. -/
def AppendSuits (t : FileTree V) (p : List Char) (n : Node V) : Prop :=
  if p = [] then t.place (t.mounts.entered (.rootDir 0)) = t.place n
  else p.getLast? = some '/' ∨ t.coveredBy n = none

/-- Where a `..` of the directories in `n` that names cluster 0 leads to `n`: nowhere, unless the root directory lies
right there. And then the `..` of the node that is made must not be missed: it fails, but may lead on from `fRootNode`. -/
def Returns (t : FileTree V) (n : Node V) : Prop :=
  ∀ v, t.place n = .block v (t.volume v).fs.fRootDirStart →
    (t.volume v).fs.clusterToLba 0 = (t.volume v).fs.fRootDirStart ∧
    (n = .fatRoot v → ∀ m, t.covers v = some m → t.lookup m ['.', '.'] = none)

end FileTree

/-! ## Components -/

/-- The components of `q` behind `p`. -/
def restOf (p q : List Char) : List Name := if p = [] then comps q else comps ('/' :: q)

variable {p q : List Char}

theorem comps_at (hp : p = [] ∨ p.getLast? = some '/') :
    comps (p ++ q) = comps (trimmed p) ++ restOf p q := by
  rcases hp with rfl | hp
  · rfl
  · have hne : p ≠ [] := by
      rintro rfl
      cases hp
    rw [comps_behind_slash hp, restOf, if_neg hne]

theorem restOf_name_slash (p : List Char) {w : Name} (hw : w ≠ []) (hslash : '/' ∉ w) (q : List Char) :
    restOf p (w ++ '/' :: q) = w :: comps ('/' :: q) := by
  unfold restOf
  split
  · exact comps_name_slash hw hslash q
  · rw [comps_slash (by simp), comps_name_slash hw hslash q]

theorem restOf_eq (h : p ≠ [] ∨ q ≠ []) : restOf p q = comps ('/' :: q) := by
  unfold restOf
  split
  · rename_i hp
    rw [comps_slash (h.resolve_left (not_not_intro hp))]
  · rfl

namespace FileTree

variable {t : FileTree V} {currentDir : Option (Node V)} {p q : List Char} {n x : Node V}

theorem standsOn_iff :
    t.StandsOn currentDir p n ↔ t.walk (comps (trimmed p)) (t.mounts.startNode currentDir p) = some n := by
  have htake : p.take (trimmed p).length = trimmed p :=
    (prefix_iff_eq_take.1 ( rdropWhile_prefix _ _)).symm
  simp only [StandsOn, t.mounts.walkPath_node, htake, walk]
  exact ⟨fun h => h ⟨fun _ => 0, fun _ => false⟩, fun h _ => h⟩

theorem walksTo_rest (hat : (p = [] ∧ q.head? ≠ some '/') ∨ p.getLast? = some '/') (hn : t.StandsOn currentDir p n) :
    t.WalksTo currentDir (p ++ q) x ↔ t.walk (restOf p q) n = some x := by
  have hstart : t.mounts.startNode currentDir (p ++ q) = t.mounts.startNode currentDir p := by
    refine t.mounts.startNode_congr currentDir ?_
    cases p with
    | nil => simpa using hat
    | cons c p => rfl
  rw [standsOn_iff] at hn
  rw [walksTo_iff, comps_at (hat.imp_left And.left), hstart, walk_append, hn]
  rfl

end FileTree

/-! ## Nodes for one directory -/

namespace Tree

open FileTree

variable {t : Tree V} {n n' x : Node V}

/-- `n'` is `n`, or a node made for the same block. Only `fRootNode` has a `..` that a node made for its block lacks. -/
def Sim (t : Tree V) (n n' : Node V) : Prop :=
  n' = n ∨ ((∃ v lba, t.place n = .block v lba ∧ t.place n' = .block v lba) ∧ t.isDirectory n = true ∧
    t.isDirectory n' = true ∧ t.coveredBy n = none ∧ t.coveredBy n' = none ∧ (∀ v, n' ≠ .fatRoot v) ∧
    ∀ v, n = .fatRoot v → ∀ m, t.covers v = some m → t.lookup m ['.', '.'] = none)

omit [DecidableEq V] in
theorem Sim.place (h : t.Sim n n') : t.place n' = t.place n := by
  rcases h with rfl | ⟨⟨v, lba, hn, hn'⟩, -⟩
  · rfl
  · rw [hn, hn']

omit [DecidableEq V] in
theorem Sim.directory (h : t.Sim n n') (hn : t.isDirectory n = true) : t.isDirectory n' = true := by
  rcases h with rfl | ⟨-, -, hn', -⟩
  · exact hn
  · exact hn'

theorem Sim.step (h : t.Sim n n') {name : Name} (hstep : t.step n name = some x) :
    ∃ x', t.step n' name = some x' ∧ t.Sim x x' := by
  rcases h with rfl | ⟨⟨v, lba, hplace, hplace'⟩, hdir, hdir', hun, hun', hroot', hup⟩
  · exact ⟨x, hstep, .inl rfl⟩
  · have hside' : t.mounts.parentSide n' name = n' := t.parentSide_eq hroot' name
    have hside : t.mounts.parentSide n name = n := by
      by_cases hname : name = ['.', '.']
      · subst hname
        cases n with
        | rootDir dir => exact t.parentSide_eq (by simp) _
        | fatNode v lba len flags held => exact t.parentSide_eq (by simp) _
        | fatRoot w =>
          rw [parentSide_fatRoot]
          cases hcovers : t.covers w with
          | none => rfl
          | some m =>
            rw [step_eq, parentSide_fatRoot, hcovers, getD_some, hup w rfl m hcovers] at hstep
            cases hstep
      · exact Mounts.parentSide_of_ne hname n
    rw [step_eq, hside] at hstep
    rw [step_eq, hside']
    by_cases hname : bytes name = RootFs.dot
    · rw [t.lookup_dot hdir hname, map_some, entered_of_none _ hun, Option.some.injEq] at hstep
      subst hstep
      refine ⟨n', ?_, .inr ⟨⟨v, lba, hplace, hplace'⟩, hdir, hdir', hun, hun', hroot', hup⟩⟩
      rw [t.lookup_dot hdir' hname, map_some, entered_of_none _ hun']
    · rw [t.lookup_block hdir hplace hname] at hstep
      rw [t.lookup_block hdir' hplace' hname]
      exact ⟨x, hstep, .inl rfl⟩

theorem Sim.walk : ∀ {names : List Name} {n n' x : Node V}, t.Sim n n' → t.walk names n = some x →
    ∃ x', t.walk names n' = some x' ∧ t.Sim x x' := by
  intro names
  induction names with
  | nil =>
    intro n n' x h hwalk
    cases hwalk
    exact ⟨n', rfl, h⟩
  | cons name names ih =>
    intro n n' x h hwalk
    rw [walk_cons, bind_eq_some_iff] at hwalk
    obtain ⟨y, hstep, hrest⟩ := hwalk
    obtain ⟨y', hstep', hsim⟩ := h.step hstep
    obtain ⟨x', hrest', hend⟩ := ih hsim hrest
    refine ⟨x', ?_, hend⟩
    rw [walk_cons, hstep']
    exact hrest'

/-! ## Into a subdirectory and back -/

variable {d : Name} {v : V}

omit [DecidableEq V] in
theorem ne_dotdot (hd : bytes d ≠ RootFs.dotdot) : d ≠ ['.', '.'] := by
  rintro rfl
  exact hd rfl

theorem back_rootDir {dir : Nat} (hn : t.Directory (.rootDir dir)) (hd : t.Subdirectory (.rootDir dir) d) :
    t.walk [d, ['.', '.']] (.rootDir dir) = some (t.mounts.entered (.rootDir dir)) := by
  obtain ⟨-, -, hdot, hdotdot, child, hchild, -⟩ := hd
  obtain ⟨-, entry, hfound, hlive, rfl⟩ := t.lookup_rootDir.1 hchild
  have hmem : entry ∈ (t.rootFs.nodes dir).fEntryList := by
    rw [RootFs.RootFileSystem.FindEntry, if_neg hdot, if_neg hdotdot] at hfound
    exact List.mem_of_find?_eq_some hfound
  have hparent : (t.rootFs.nodes entry).fParentDir = dir := (t.shape.entry dir hn.1 entry hmem).2.2
  have hup : t.lookup (.rootDir entry) ['.', '.'] = some (.rootDir dir) := by
    refine t.lookup_rootDir.2 ⟨hlive, dir, ?_, hn.2, rfl⟩
    rw [bytes_dotdot, RootFs.RootFileSystem.FindEntry, if_neg dotdot_ne_dot, if_pos rfl, hparent]
  have hdown : t.step (.rootDir dir) d = some (t.mounts.entered (.rootDir entry)) := by
    rw [step_eq, Mounts.parentSide_of_ne (ne_dotdot hdotdot), hchild]
    rfl
  have hside : t.mounts.parentSide (t.mounts.entered (.rootDir entry)) ['.', '.'] = .rootDir entry := by
    cases hcovered : t.coveredBy (.rootDir entry) with
    | none => rw [entered_of_none _ hcovered, t.parentSide_eq (by simp)]
    | some v => rw [entered_of_some _ hcovered, parentSide_fatRoot, t.covers_eq _ v hcovered, getD_some]
  rw [walk_cons, hdown, bind_some, walk_cons, step_eq, hside, hup]
  rfl

variable {lba : Nat}

theorem back_block (hn : t.Directory n) (hplace : t.place n = .block v lba)
    (hd : t.Subdirectory n d) : ∃ len flags, flags &&& kAttrDirectory ≠ 0 ∧
      t.walk [d, ['.', '.']] n = some (.fatNode v (if lba = (t.volume v).fs.fRootDirStart then
        (t.volume v).fs.clusterToLba 0 else lba) len flags none) := by
  have hlba : (t.volume v).IsDirectory lba := by
    cases n with
    | rootDir dir => cases hplace
    | fatRoot w =>
      cases hplace
      exact .root
    | fatNode w start len flags held =>
      cases hplace
      exact hn.2
  obtain ⟨-, -, hdot, hdotdot, child, hchild, hchilddir⟩ := hd
  have hdir := t.directory_of_lookup hchild
  rw [t.lookup_block hdir hplace hdot, map_eq_some_iff] at hchild
  obtain ⟨entry, hfound, rfl⟩ := hchild
  have hflags : entry.isDirectory = true := hchilddir
  obtain ⟨parent, hparent, hparentdir, hcluster⟩ := (t.parents v).entry lba _ entry hlba hfound hflags hdot hdotdot
  have hdown : t.step n d = some (t.entryNode v entry) := by
    rw [step_eq, Mounts.parentSide_of_ne (ne_dotdot hdotdot), t.lookup_block hdir hplace hdot, hfound]
    exact congrArg some (entered_of_none _ (t.made_uncovered v _ _ _))
  have hup : t.step (t.entryNode v entry) ['.', '.'] = some (t.entryNode v parent) := by
    have hside : t.mounts.parentSide (t.entryNode v entry) ['.', '.'] = t.entryNode v entry :=
      t.parentSide_eq (by simp [entryNode]) _
    rw [step_eq, hside, t.lookup_block hchilddir rfl (by rw [bytes_dotdot]; exact dotdot_ne_dot), bytes_dotdot, hparent]
    exact congrArg some (entered_of_none _ (t.made_uncovered v _ _ _))
  refine ⟨parent.fileLength, parent.flags, by simpa [FatDirEntry.isDirectory] using hparentdir, ?_⟩
  rw [walk_cons, hdown, bind_some, walk_cons, hup]
  refine congrArg some ?_
  rw [entryNode]
  congr 1
  split
  · rename_i hroot
    rw [if_pos hroot] at hcluster
    rw [hcluster]
  · rename_i hroot
    rw [if_neg hroot] at hcluster
    exact hcluster

/-! ## Insertions that keep the place -/

theorem restOf_dot (p q : List Char) : restOf p (Insertion.dot.text ++ q) = [['.']] ++ comps ('/' :: q) :=
  restOf_name_slash p (w := ['.']) (by simp) (by decide) q

theorem restOf_subdirectory (p : List Char) (hd : d ≠ []) (hslash : '/' ∉ d) (q : List Char) :
    restOf p ((Insertion.subdirectory d).text ++ q) = [d, ['.', '.']] ++ comps ('/' :: q) := by
  have hup : comps ('/' :: '.' :: '.' :: '/' :: q) = ['.', '.'] :: comps ('/' :: q) := by
    rw [comps_slash (by simp)]
    exact comps_name_slash (w := ['.', '.']) (by simp) (by decide) q
  have htext : (Insertion.subdirectory d).text ++ q = d ++ '/' :: '.' :: '.' :: '/' :: q := by simp [Insertion.text]
  rw [htext, restOf_name_slash p hd hslash, hup]
  rfl

def Component (ins : Insertion) : Prop := ∀ q, (ins.text ++ q).head? ≠ some '/'

theorem component_dot : Component .dot := by
  intro q
  simp [Insertion.text]

theorem component_subdirectory (hd : d ≠ []) (hslash : '/' ∉ d) : Component (.subdirectory d) := by
  intro q
  obtain ⟨c, d', rfl⟩ := exists_cons_of_ne_nil hd
  have hc : c ≠ '/' := fun h => hslash (h ▸ .head _)
  simpa [Insertion.text] using hc

variable {currentDir : Option (Node V)} {p q : List Char} {ins : Insertion} {names : List Name}

section

variable (hins : Component ins) (hat : (p = [] ∧ q.head? ≠ some '/') ∨ p.getLast? = some '/')
    (hn : t.StandsOn currentDir p n) (hrest : restOf p (ins.text ++ q) = names ++ comps ('/' :: q))
    (hwalk : t.walk names n = some n')
include hins hat hn hrest hwalk

theorem walksTo_inserted :
    t.WalksTo currentDir (p ++ ins.text ++ q) x ↔ t.walk (comps ('/' :: q)) n' = some x := by
  rw [append_assoc, walksTo_rest (hat.imp_left fun h => ⟨h.1, hins q⟩) hn, hrest, walk_append, hwalk]
  rfl

theorem keeps_of_sim (hsim : t.Sim n n') (hun : t.coveredBy n' = none) : t.Keeps currentDir p ins q := by
  intro x hx hdir
  rw [walksTo_rest hat hn] at hx
  by_cases hempty : p = [] ∧ q = []
  · -- the slash of the insertion ends the path, and is one more component
    obtain ⟨rfl, rfl⟩ := hempty
    obtain rfl : n = x := Option.some.inj hx
    refine ⟨n', (walksTo_inserted hins hat hn hrest hwalk).2 ?_, hsim.place⟩
    rw [comps_slash_end, walk_cons, t.step_dot (hsim.directory hdir), entered_of_none _ hun]
    rfl
  · rw [restOf_eq (by tauto)] at hx
    obtain ⟨x', hx', hsimx⟩ := hsim.walk hx
    exact ⟨x', (walksTo_inserted hins hat hn hrest hwalk).2 hx', hsimx.place⟩

end

/-! ## Insertions that do not -/

omit [DecidableEq V] in
theorem fileSystem_of_place (h : t.place x = t.place n) : x.fileSystem = n.fileSystem := by
  cases x <;> cases n <;> simp_all [FileTree.place, Node.fileSystem]

omit [DecidableEq V] in
/-- What is mounted on a node lies in another file system, and so does what is mounted on that. -/
theorem place_ne {w : V} (hn : t.coveredBy n = some w) :
    t.place (.fatRoot w) ≠ t.place n ∧ t.place (t.mounts.entered (.fatRoot w)) ≠ t.place n := by
  constructor
  · intro hplace
    have hlater := t.mounted_later n w w hn (fileSystem_of_place hplace).symm
    exact absurd hlater (Nat.lt_irrefl _)
  · intro hplace
    cases hcovered : t.coveredBy (.fatRoot w) with
    | none =>
      rw [entered_of_none _ hcovered] at hplace
      have hlater := t.mounted_later n w w hn (fileSystem_of_place hplace).symm
      exact absurd hlater (Nat.lt_irrefl _)
    | some u =>
      rw [entered_of_some _ hcovered] at hplace
      have hlater := t.mounted_later n u w hn (fileSystem_of_place hplace).symm
      have hlater' := t.mounted_later (.fatRoot w) w u hcovered rfl
      omega

omit [DecidableEq V] in
theorem isDirectory_of_directory (hn : t.Directory n) : t.isDirectory n = true := by
  cases n with
  | rootDir dir => simpa [FileTree.isDirectory] using hn.2
  | fatRoot v => rfl
  | fatNode v lba len flags held => simpa [FileTree.isDirectory] using hn.1

theorem standsOn_start (n : Node V) : t.StandsOn (some n) [] n := standsOn_iff.2 rfl

theorem walksTo_start (n : Node V) : t.WalksTo (some n) [] n := t.walksTo_iff.2 rfl

/-- **A component `.`** -/
theorem dot_harmless_iff (hn : t.Directory n) : t.Harmless .dot n ↔ t.coveredBy n = none := by
  constructor
  · intro h
    cases hcovered : t.coveredBy n with
    | none => rfl
    | some w =>
      have hdir := isDirectory_of_directory hn
      have hwalk : t.walk [['.']] n = some (.fatRoot w) := by
        rw [walk_cons, t.step_dot hdir, entered_of_some _ hcovered]
        rfl
      have hat : Insertion.At .dot [] [] := .inl ⟨rfl, by simp⟩
      obtain ⟨x, hx, hplace⟩ := h (some n) [] [] hat (standsOn_start n) n (walksTo_start n) hdir
      rw [walksTo_inserted component_dot hat (standsOn_start n) (restOf_dot _ _) hwalk,
        comps_slash_end, walk_cons, t.step_dot rfl] at hx
      obtain rfl := Option.some.inj hx
      exact absurd hplace (place_ne hcovered).2
  · intro hun currentDir p q hat hstands x hx hdir
    have hndir : t.isDirectory n = true := isDirectory_of_directory hn
    have hwalk : t.walk [['.']] n = some n := by
      rw [walk_cons, t.step_dot hndir, entered_of_none _ hun]
      rfl
    exact keeps_of_sim component_dot hat hstands (restOf_dot p q) hwalk (.inl rfl) hun x hx hdir

omit [DecidableEq V] in
theorem isDirectory_entered (hn : t.isDirectory n = true) : t.isDirectory (t.mounts.entered n) = true := by
  cases hcovered : t.coveredBy n with
  | none => rwa [entered_of_none _ hcovered]
  | some w =>
    rw [entered_of_some _ hcovered]
    rfl

omit [DecidableEq V] in
theorem directory_of_dotdot {m : Node V} (hm : t.covers v = some m) (hup : t.lookup m ['.', '.'] = some x) :
    t.isDirectory (t.mounts.entered x) = true := by
  have hdirectory := t.covers_directory v m hm
  apply isDirectory_entered
  cases m with
  | rootDir dir =>
    obtain ⟨-, entry, -, hlive, rfl⟩ := t.lookup_rootDir.1 hup
    simpa [FileTree.isDirectory] using hlive
  | fatRoot u =>
    rw [t.lookup_block rfl rfl (by rw [bytes_dotdot]; exact dotdot_ne_dot), bytes_dotdot, (t.parents u).root] at hup
    cases hup
  | fatNode u lba len flags held =>
    rw [t.lookup_block (t.directory_of_lookup hup) rfl (by rw [bytes_dotdot]; exact dotdot_ne_dot), bytes_dotdot,
      map_eq_some_iff] at hup
    obtain ⟨parent, hparent, rfl⟩ := hup
    cases hdirectory.2 with
    | root =>
      rw [(t.parents u).root] at hparent
      cases hparent
    | entry dir found hflags hdot hdotdot =>
      obtain ⟨parent', hparent', hdir, -⟩ := (t.parents u).entry _ _ _ dir found hflags hdot hdotdot
      rw [hparent'] at hparent
      cases hparent
      exact hdir

theorem comps_slash_dotdot : comps ['/', '.', '.'] = [['.', '.']] := rfl

/-- From the node that `d/..` makes of the root of a volume there is no way up. -/
theorem no_dotdot {len : Nat} {flags : UInt8} {held : Option Nat} :
    t.walk [['.', '.']] (.fatNode v (t.volume v).fs.fRootDirStart len flags held) = none := by
  have hside := t.parentSide_eq (n := .fatNode v (t.volume v).fs.fRootDirStart len flags held) (by simp) ['.', '.']
  have hlookup : t.lookup (.fatNode v (t.volume v).fs.fRootDirStart len flags held) ['.', '.'] = none := by
    by_contra hsome
    obtain ⟨x, hx⟩ := ne_none_iff_exists'.1 hsome
    rw [t.lookup_block (t.directory_of_lookup hx) rfl (by rw [bytes_dotdot]; exact dotdot_ne_dot), bytes_dotdot,
      (t.parents v).root] at hx
    cases hx
  rw [walk_cons, step_eq, hside, hlookup]
  rfl

section

variable {d : Name} (hn : t.Directory n) (hd : t.Subdirectory n d)

include hn hd

omit hn in
theorem walksTo_subdirectory (hat : (p = [] ∧ q.head? ≠ some '/') ∨ p.getLast? = some '/')
    (hstands : t.StandsOn currentDir p n) (hwalk : t.walk [d, ['.', '.']] n = some n') :
    t.WalksTo currentDir (p ++ (Insertion.subdirectory d).text ++ q) x ↔ t.walk (comps ('/' :: q)) n' = some x :=
  walksTo_inserted (component_subdirectory hd.1 hd.2.1) hat hstands (restOf_subdirectory p hd.1 hd.2.1 q) hwalk

omit hn in
theorem harmless_rest (h : t.Harmless (.subdirectory d) n) (hq : q.head? ≠ some '/')
    (hwalk : t.walk [d, ['.', '.']] n = some n') (hx : t.walk (comps q) n = some x) (hdir : t.isDirectory x = true) :
    ∃ x', t.walk (comps ('/' :: q)) n' = some x' ∧ t.place x' = t.place x := by
  have hat : Insertion.At (.subdirectory d) [] q := .inl ⟨rfl, hq⟩
  obtain ⟨x', hx', hplace⟩ := h (some n) [] q hat (standsOn_start n) x
    ((walksTo_rest hat (standsOn_start n)).2 hx) hdir
  exact ⟨x', (walksTo_subdirectory hd hat (standsOn_start n) hwalk).1 hx', hplace⟩

theorem uncovered_of_harmless (h : t.Harmless (.subdirectory d) n) : t.coveredBy n = none := by
  cases hcovered : t.coveredBy n with
  | none => rfl
  | some w =>
    have hdir := isDirectory_of_directory hn
    cases hplace : t.place n with
    | rootDir dir =>
      obtain rfl : n = .rootDir dir := by cases n <;> simp_all [FileTree.place]
      have hback := back_rootDir hn hd
      rw [entered_of_some _ hcovered] at hback
      obtain ⟨x', hx', hsame⟩ := harmless_rest hd h (q := []) (by simp) hback rfl hdir
      rw [comps_slash_end, walk_cons, t.step_dot rfl] at hx'
      obtain rfl := Option.some.inj hx'
      exact absurd hsame (place_ne hcovered).2
    | block v lba =>
      obtain ⟨len, flags, hflags, hback⟩ := back_block hn hplace hd
      have henter : t.walk (comps ['.']) n = some (.fatRoot w) := by
        rw [comps_name (by simp) (by decide), walk_cons, t.step_dot hdir, entered_of_some _ hcovered]
        rfl
      obtain ⟨x', hx', hsame⟩ := harmless_rest hd h (q := ['.']) (by simp) hback henter rfl
      rw [comps_slash (by simp), comps_name (by simp) (by decide), walk_cons,
        t.step_dot (by simpa [FileTree.isDirectory] using hflags), entered_of_none _ (t.made_uncovered ..)] at hx'
      obtain rfl := Option.some.inj hx'
      have hv : v = w := Option.some.inj (fileSystem_of_place hsame)
      have hlater := t.mounted_later n v w hcovered
        (fileSystem_of_place (t := t) (n := .fatNode v lba len flags none) hplace)
      rw [hv] at hlater
      exact absurd hlater (Nat.lt_irrefl _)

theorem returns_of_harmless (h : t.Harmless (.subdirectory d) n) : t.Returns n := by
  intro v hplace
  obtain ⟨len, flags, hflags, hback⟩ := back_block hn hplace hd
  rw [if_pos rfl] at hback
  have hroot : (t.volume v).fs.clusterToLba 0 = (t.volume v).fs.fRootDirStart := by
    obtain ⟨x', hx', hsame⟩ := harmless_rest hd h (q := []) (by simp) hback rfl (isDirectory_of_directory hn)
    rw [comps_slash_end, walk_cons, t.step_dot (by simpa [FileTree.isDirectory] using hflags),
      entered_of_none _ (t.made_uncovered ..)] at hx'
    obtain rfl := Option.some.inj hx'
    rw [hplace] at hsame
    exact (Place.block.inj hsame).2
  refine ⟨hroot, ?_⟩
  rintro rfl m hm
  by_contra hup
  obtain ⟨x, hx⟩ := ne_none_iff_exists'.1 hup
  have hwalk : t.walk (comps ['.', '.']) (.fatRoot v) = some (t.mounts.entered x) := by
    rw [comps_name (by simp) (by decide), walk_cons, step_eq, parentSide_fatRoot, hm, getD_some, hx]
    rfl
  obtain ⟨x', hx', -⟩ := harmless_rest hd h (q := ['.', '.']) (by simp) hback hwalk (directory_of_dotdot hm hx)
  rw [comps_slash_dotdot, hroot, no_dotdot] at hx'
  cases hx'

/-- **Components `d/..`** -/
theorem subdirectory_harmless_iff :
    t.Harmless (.subdirectory d) n ↔ t.coveredBy n = none ∧ t.Returns n := by
  constructor
  · exact fun h => ⟨uncovered_of_harmless hn hd h, returns_of_harmless hn hd h⟩
  · rintro ⟨hun, hreturns⟩ currentDir p q hat hstands
    have hdir := isDirectory_of_directory hn
    have hcomponent : Component (.subdirectory d) := component_subdirectory hd.1 hd.2.1
    cases hplace : t.place n with
    | rootDir dir =>
      obtain rfl : n = .rootDir dir := by cases n <;> simp_all [FileTree.place]
      have hback := back_rootDir hn hd
      rw [entered_of_none _ hun] at hback
      exact keeps_of_sim hcomponent hat hstands (restOf_subdirectory p hd.1 hd.2.1 q) hback (.inl rfl) hun
    | block v lba =>
      obtain ⟨len, flags, hflags, hback⟩ := back_block hn hplace hd
      have hlba : (if lba = (t.volume v).fs.fRootDirStart then (t.volume v).fs.clusterToLba 0 else lba) = lba := by
        split
        · rename_i hroot
          rw [hroot] at hplace ⊢
          exact (hreturns v hplace).1
        · rfl
      rw [hlba] at hback
      have hsim : t.Sim n (.fatNode v lba len flags none) := by
        refine .inr ⟨⟨v, lba, hplace, rfl⟩, hdir, by simpa [FileTree.isDirectory] using hflags, hun,
          t.made_uncovered .., by simp, ?_⟩
        rintro w rfl
        obtain ⟨rfl, rfl⟩ := Place.block.inj hplace
        exact (hreturns w rfl).2 rfl
      exact keeps_of_sim hcomponent hat hstands (restOf_subdirectory p hd.1 hd.2.1 q) hback hsim (t.made_uncovered ..)

end

/-! ## Slashes -/

theorem comps_further_slash (h : p.getLast? = some '/' ∨ q.head? = some '/') : comps (p ++ '/' :: q) = comps (p ++ q) := by
  by_cases hp : p.getLast? = some '/'
  · rw [comps_behind_slash hp, comps_behind_slash hp, comps_slash_slash]
  · obtain ⟨q', rfl⟩ : ∃ q', q = '/' :: q' := by
      cases q with
      | nil => simp [hp] at h
      | cons c q' => exact ⟨q', by simpa [hp] using h⟩
    rw [comps_append_slash _ _ hp, comps_append_slash _ _ hp, comps_slash_slash]

/-- **A further slash** -/
theorem slash_keeps (hat : Insertion.At .slash p q) : t.Keeps currentDir p .slash q := by
  intro x hx hdir
  refine ⟨x, ?_, rfl⟩
  rw [walksTo_iff] at hx ⊢
  have hstart : t.mounts.startNode currentDir (p ++ '/' :: q) = t.mounts.startNode currentDir (p ++ q) := by
    refine t.mounts.startNode_congr currentDir ?_
    cases p with
    | nil => simpa using hat.resolve_left (by simp)
    | cons c p => rfl
  rw [Insertion.text, append_assoc, singleton_append, comps_further_slash hat, hstart]
  exact hx

/-- **A slash at the end** -/
theorem append_keeps_iff (hn : t.WalksTo currentDir p n) (hdir : t.isDirectory n = true) :
    t.Keeps currentDir p .append [] ↔ t.AppendSuits p n := by
  have hunfold : t.Keeps currentDir p .append [] ↔ ∃ n', t.WalksTo currentDir (p ++ ['/']) n' ∧ t.place n' = t.place n := by
    unfold FileTree.Keeps
    simp only [append_nil, Insertion.text]
    constructor
    · exact fun h => h n hn hdir
    · intro h x hx _
      rw [walksTo_iff] at hn hx
      rw [hn] at hx
      cases hx
      exact h
  rw [hunfold]
  unfold FileTree.AppendSuits
  rw [walksTo_iff] at hn
  by_cases hempty : p = []
  · subst hempty
    have hstart : t.mounts.startNode currentDir ['/'] = .rootDir 0 := by cases currentDir <;> rfl
    have hroot : t.isDirectory (.rootDir 0) = true := by simpa [FileTree.isDirectory] using t.shape.root_live
    simp only [nil_append, walksTo_iff, hstart, comps_slash_end, walk_cons, t.step_dot hroot, bind_some,
      walk_nil, Option.some.injEq, exists_eq_left', if_true]
  · have hstart : t.mounts.startNode currentDir (p ++ ['/']) = t.mounts.startNode currentDir p := by
      refine t.mounts.startNode_congr currentDir ?_
      cases p with
      | nil => exact absurd rfl hempty
      | cons c p => rfl
    simp only [walksTo_iff, hstart, if_neg hempty]
    by_cases hslash : p.getLast? = some '/'
    · have hcomps : comps (p ++ ['/']) = comps p := by
        rw [comps_further_slash (.inl hslash), append_nil]
      rw [hcomps, hn]
      simp [hslash]
    · rw [comps_append_slash _ _ hslash, comps_slash_end, walk_append, hn]
      simp only [bind_some, walk_cons, t.step_dot hdir, walk_nil, Option.some.injEq, exists_eq_left', hslash,
        false_or]
      constructor
      · intro hsame
        cases hcovered : t.coveredBy n with
        | none => rfl
        | some w =>
          rw [entered_of_some _ hcovered] at hsame
          exact absurd hsame (place_ne hcovered).1
      · exact fun hun => by rw [entered_of_none _ hun]

/-- **Rewriting a path.** For every tree: a further slash next to another one never matters. A slash behind a path that
leads to a directory is harmless exactly when it makes no difference that an empty path becomes absolute, or the
directory is not covered unless there was one already. And a component `.` or `d/..` is harmless, in all paths through
a directory, exactly when the directory is not covered and, for `d/..`, its subdirectories lead back to it. -/
theorem insertions_right_iff (t : Tree V) :
    (∀ currentDir p q, Insertion.At .slash p q → t.Keeps currentDir p .slash q) ∧
    (∀ currentDir p n, t.WalksTo currentDir p n → t.isDirectory n = true →
      (t.Keeps currentDir p .append [] ↔ t.AppendSuits p n)) ∧
    (∀ n, t.Directory n → (t.Harmless .dot n ↔ t.coveredBy n = none)) ∧
    ∀ n d, t.Directory n → t.Subdirectory n d →
      (t.Harmless (.subdirectory d) n ↔ t.coveredBy n = none ∧ t.Returns n) :=
  ⟨fun _ _ _ => slash_keeps, fun _ _ _ => append_keeps_iff, fun _ => dot_harmless_iff, fun _ _ => subdirectory_harmless_iff⟩

/-! ## A volume with one directory -/

def entryD : FatDirEntry := ⟨[0x44, 0x20, 0x20, 0x20, 0x20, 0x20, 0x20, 0x20], [0x20, 0x20, 0x20], kAttrDirectory, 2, 0⟩

/-- The `..` of `d`. -/
def entryParent : FatDirEntry :=
  ⟨[0x2E, 0x2E, 0x20, 0x20, 0x20, 0x20, 0x20, 0x20], [0x20, 0x20, 0x20], kAttrDirectory, 0, 0⟩

/-- One sector for the table, one for the root directory, and `d` in cluster 2. -/
def volumeD : FatVolume where
  fs := ⟨⟨1, 1, 1, 16, 1⟩, 0, [], fun _ => 0⟩
  directory := fun lba => if lba = 2 then [entryD] else if lba = 3 then [entryParent] else []

theorem find_volumeD {name : List UInt8} {entry : FatDirEntry} (h : volumeD.find lba name = some entry) :
    (lba = 2 ∧ entry = entryD) ∨ (lba = 3 ∧ name = RootFs.dotdot) := by
  have hname : entry.getFilename = name := by simpa using (And.right (by simpa using List.find?_some h))
  have hmem := List.mem_of_find?_eq_some h
  unfold volumeD at hmem
  dsimp only at hmem
  split at hmem
  · exact .inl ⟨by assumption, by simpa using hmem⟩
  · split at hmem
    · obtain rfl : entry = entryParent := by simpa using hmem
      refine .inr ⟨by assumption, ?_⟩
      rw [← hname]
      decide
    · simp at hmem

def boot : Name := ['b', 'o', 'o', 't']

/-- The volume at `/boot`. -/
def oneVolume : Tree Unit where
  rootFs := RootFs.RootFileSystem.start.added 0 (bytes boot)
  volume := fun _ => volumeD
  coveredBy := fun n => if n = .rootDir 1 then some () else none
  covers := fun _ => some (.rootDir 1)
  shape := RootFs.RootFileSystem.inv_start.toShape.add (by decide) rfl (by decide)
  older := ⟨rfl, by decide⟩
  parents := fun _ => {
    root := by decide
    entry := by
      intro lba name entry hdir hfound hflags hdot hdotdot
      rcases find_volumeD hfound with ⟨rfl, rfl⟩ | ⟨-, hname⟩
      · exact ⟨entryParent, by decide, by decide, by decide⟩
      · exact absurd hname hdotdot }
  covers_eq := by
    intro n v hn
    obtain rfl : n = .rootDir 1 := by simpa using hn
    rfl
  made_uncovered := fun _ _ _ _ => rfl
  covers_directory := by
    rintro v n hn
    cases hn
    exact ⟨by decide, rfl⟩
  age := fun _ => 0
  mounted_later := by
    intro n v w hn hvolume
    obtain rfl : n = .rootDir 1 := by simpa using hn
    cases hvolume

/-- `d/../` behind `/boot/` leads to the block of the table. -/
theorem insertion_leaves_root : ¬ ∀ (t : Tree Unit) (currentDir : Option (Node Unit)) (p : List Char) (ins : Insertion)
    (q : List Char) (n : Node Unit), ins.At p q → t.StandsOn currentDir p n →
    (∀ d, ins = .subdirectory d → t.Subdirectory n d) → t.Keeps currentDir p ins q := by
  intro h
  have hstands : oneVolume.StandsOn none ('/' :: boot ++ ['/']) (.fatRoot ()) := standsOn_iff.2 (by decide)
  have hd : oneVolume.Subdirectory (.fatRoot ()) ['d'] :=
    ⟨by decide, by decide, by decide, by decide, .fatNode () 3 0 kAttrDirectory none, by decide, by decide⟩
  obtain ⟨n', hn', hplace⟩ := h oneVolume none ('/' :: boot ++ ['/']) (.subdirectory ['d']) [] (.fatRoot ())
    (.inr (by decide)) hstands (by rintro d ⟨rfl⟩; exact hd) (.fatRoot ()) (walksTo_iff _ |>.2 (by decide)) rfl
  have hblock : oneVolume.walk (comps ('/' :: boot ++ ['/'] ++ (Insertion.subdirectory ['d']).text ++ []))
      (oneVolume.mounts.startNode none ('/' :: boot ++ ['/'] ++ (Insertion.subdirectory ['d']).text ++ [])) =
        some (.fatNode () 1 0 kAttrDirectory none) := by decide
  obtain rfl := Option.some.inj (((walksTo_iff _).1 hn').symm.trans hblock)
  revert hplace
  decide

theorem insertions_right_iff_oneVolume :
    oneVolume.Keeps none ('/' :: boot) .append [] ∧ oneVolume.Harmless .dot (.fatRoot ()) ∧
      oneVolume.Harmless (.subdirectory boot) (.rootDir 0) ∧ ¬ oneVolume.Harmless (.subdirectory ['d']) (.fatRoot ()) := by
  obtain ⟨-, happend, hdot, hsub⟩ := insertions_right_iff oneVolume
  refine ⟨?_, ?_, ?_, ?_⟩
  · exact (happend none ('/' :: boot) (.fatRoot ()) ((walksTo_iff _).2 (by decide)) rfl).2 (.inr rfl)
  · exact (hdot (.fatRoot ()) trivial).2 rfl
  · refine (hsub (.rootDir 0) boot ⟨by decide, rfl⟩ ?_).2 ⟨rfl, fun v hv => by cases hv⟩
    exact ⟨by decide, by decide, by decide, by decide, .rootDir 1, by decide, by decide⟩
  · intro h
    have hd : oneVolume.Subdirectory (.fatRoot ()) ['d'] :=
      ⟨by decide, by decide, by decide, by decide, .fatNode () 3 0 kAttrDirectory none, by decide, by decide⟩
    exact absurd (((hsub (.fatRoot ()) ['d'] trivial hd).1 h).2 () rfl).1 (by decide)

end Tree

end Vfs
