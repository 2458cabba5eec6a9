import Mathlib.Data.List.Count
import Mathlib.Logic.Function.Basic

/-!
# Path walking and references (`FileSystem.cpp`, `VNode.cpp`)

`WalkPath` holds one reference on the node it stands on, takes one on the next node and gives the old one back. Each
`Lookup` takes a reference on the node it returns. `GetRootNode` does so in the root and the device file system
(`driver/RootFS.cpp`, `driver/DevFS.cpp`), but not in the FAT file system (`driver/FAT.cpp`), and `WalkPath` takes one
of its own on the root in any case.

| here | there |
| --- | --- |
| `Mounts` | the mounted tree: what nodes and file systems point to |
| `lookup i node name` | what the `i`-th `Lookup` of the walk returns; `none` is an error |
| `Refs.count`, `Refs.deleted` | `fRefCount` of all nodes, and the nodes that `Inactive` has deleted |
| `walkPath` | `WalkPath`; `none` when it fails |
-/

namespace Vfs

/-! ## The source -/

inductive FsKind where
  | rootFs
  | devFs
  | fat
deriving DecidableEq

structure Mounts (N F : Type) where
  fileSystem : N → F
  coveredBy : N → Option F
  covers : F → Option N
  root : F → N
  kind : F → FsKind
  rootFileSystem : F
  dead : N → Bool
  kind_rootFileSystem : kind rootFileSystem = .rootFs
  fileSystem_root : ∀ fs, fileSystem (root fs) = fs

structure Refs (N : Type) where
  count : N → Int
  deleted : N → Bool

abbrev Name := List Char

variable {N F : Type} [DecidableEq N]

/-- `AcquireRef`. -/
def Refs.acquireRef (refs : Refs N) (n : N) : Refs N :=
  { refs with count := Function.update refs.count n (refs.count n + 1) }

namespace Mounts

variable (m : Mounts N F)

/-- `Inactive`: a `FatNode` deletes itself, an entry of the other two file systems if it is dead. -/
def deletesInactive (n : N) : Bool :=
  match m.kind (m.fileSystem n) with
  | .fat => true
  | _ => m.dead n

/-- `ReleaseRef` (VNode.cpp:50). -/
def releaseRef (refs : Refs N) (n : N) : Refs N where
  count := Function.update refs.count n (refs.count n - 1)
  deleted := if refs.count n - 1 = 0 ∧ m.deletesInactive n then Function.update refs.deleted n true else refs.deleted

/-- Whether `GetRootNode` takes a reference. -/
def acquires (fs : F) : Bool :=
  match m.kind fs with
  | .rootFs => true
  | .devFs => true
  | .fat => false

/-- `GetRootNode`. -/
def getRootNode (refs : Refs N) (fs : F) : Refs N × N :=
  (if m.acquires fs then refs.acquireRef (m.root fs) else refs, m.root fs)

/-- The `..` at the root of a mounted file system (:100). -/
def leaveRoot (refs : Refs N) (currentNode : N) (name : Name) : Refs N × N :=
  if name = ['.', '.'] then
    let (refs, root) := m.getRootNode refs (m.fileSystem currentNode)
    match m.covers (m.fileSystem currentNode) with
    | some prevNode =>
      if currentNode = root then ((m.releaseRef refs currentNode).acquireRef prevNode, prevNode) else (refs, currentNode)
    | none => (refs, currentNode)
  else (refs, currentNode)

/-- The walk into the file system that is mounted at the next node (:127). -/
def enter (refs : Refs N) (nextNode : N) : Refs N × N :=
  match m.coveredBy nextNode with
  | some fs =>
    let (refs, root) := m.getRootNode refs fs
    (m.releaseRef (refs.acquireRef root) nextNode, root)
  | none => (refs, nextNode)

/-- The loop of `WalkPath` (:90) over the components; the node it stands on at the end, and whether all were found. -/
def walkComponents (lookup : Nat → N → Name → Option N) : Nat → List Name → Refs N → N → Refs N × N × Bool
  | _, [], refs, currentNode => (refs, currentNode, true)
  | i, name :: names, refs, currentNode =>
    let (refs, currentNode) := m.leaveRoot refs currentNode name
    match lookup i currentNode name with
    | none => (refs, currentNode, false)
    | some nextNode =>
      let (refs, currentNode) := m.enter (m.releaseRef (refs.acquireRef nextNode) currentNode) nextNode
      walkComponents lookup (i + 1) names refs currentNode

end Mounts

/-- The components of a path as the loop finds them: slashes are skipped before each, and an empty one is `.`. -/
def components : Nat → List Char → List Name
  | 0, _ => []
  | _ + 1, [] => []
  | rounds + 1, path =>
    let rest := path.dropWhile fun c => c = '/'
    let name := rest.takeWhile fun c => c ≠ '/'
    (if name = [] then ['.'] else name) :: components rounds (rest.dropWhile fun c => c ≠ '/')

/-- `WalkPath` (:76), in a thread with a current directory or without one. -/
def Mounts.walkPath (m : Mounts N F) (lookup : Nat → N → Name → Option N) (currentDir : Option N) (path : List Char)
    (pathLength : Nat) (refs : Refs N) : Refs N × Option N :=
  let (refs, currentNode) :=
    match currentDir with
    | some dir => if path.head? = some '/' then m.getRootNode refs m.rootFileSystem else (refs, dir)
    | none => m.getRootNode refs m.rootFileSystem
  let (refs, currentNode, found) := m.walkComponents lookup 0 (components pathLength (path.take pathLength))
    (refs.acquireRef currentNode) currentNode
  (refs, if found then some currentNode else none)

/-! ## Counts -/

/-- The one reference on `cur`. -/
def own (cur n : N) : Int := if n = cur then 1 else 0

@[simp] theorem own_self (n : N) : own n n = 1 := if_pos rfl

theorem own_nonneg (cur n : N) : 0 ≤ own cur n := by
  unfold own
  split <;> omega

@[simp] theorem count_acquireRef (refs : Refs N) (cur n : N) :
    (refs.acquireRef cur).count n = refs.count n + own cur n := by
  unfold Refs.acquireRef own
  by_cases h : n = cur
  · subst h
    simp
  · simp [h]

@[simp] theorem deleted_acquireRef (refs : Refs N) (cur : N) : (refs.acquireRef cur).deleted = refs.deleted := rfl

theorem count_cons_own (t : N) (taken : List N) (n : N) :
    ((t :: taken).count n : Int) = taken.count n + own t n := by
  unfold own
  by_cases h : n = t
  · subst h
    simp
  · simp [h, Ne.symm h]

theorem count_erase_own {held : List N} {t : N} (ht : t ∈ held) (n : N) :
    ((held.erase t).count n : Int) + own t n = held.count n := by
  have hpos : 0 < held.count t := List.count_pos_iff.2 ht
  unfold own
  by_cases h : n = t
  · subst h
    rw [List.count_erase_self]
    simp
    omega
  · simp [h, List.count_erase_of_ne h]

theorem nil_of_count {taken : List N} (h : ∀ n, (taken.count n : Int) = 0) : taken = [] := by
  cases taken with
  | nil => rfl
  | cons t taken =>
    have ht := h t
    rw [count_cons_own, own_self] at ht
    omega

namespace Mounts

variable (m : Mounts N F)

@[simp] theorem count_releaseRef (refs : Refs N) (cur n : N) :
    (m.releaseRef refs cur).count n = refs.count n - own cur n := by
  unfold releaseRef own
  by_cases h : n = cur
  · subst h
    simp
  · simp [h]

/-! ## One component -/

/-- The node that a component is looked up in, on a walk that stands on `currentNode`. -/
def parentSide (currentNode : N) (name : Name) : N :=
  if name = ['.', '.'] ∧ currentNode = m.root (m.fileSystem currentNode) then
    (m.covers (m.fileSystem currentNode)).getD currentNode
  else currentNode

/-- The node that a walk stands on when `nextNode` has been found. -/
def entered (nextNode : N) : N :=
  match m.coveredBy nextNode with
  | some fs => m.root fs
  | none => nextNode

theorem leaveRoot_node (refs : Refs N) (cur : N) (name : Name) :
    (m.leaveRoot refs cur name).2 = m.parentSide cur name := by
  unfold leaveRoot parentSide getRootNode
  by_cases hn : name = ['.', '.']
  · simp only [hn, true_and, if_true]
    cases m.covers (m.fileSystem cur) with
    | none => simp
    | some prev =>
      dsimp only
      split <;> rfl
  · simp only [hn, false_and, if_false]

theorem enter_node (refs : Refs N) (next : N) : (m.enter refs next).2 = m.entered next := by
  unfold enter entered getRootNode
  cases m.coveredBy next with
  | none => rfl
  | some fs => rfl

/-- What `GetRootNode` has taken. -/
def rootTaken (fs : F) : List N := if m.acquires fs then [m.root fs] else []

omit [DecidableEq N] in
theorem of_mem_rootTaken {fs : F} {n : N} (h : n ∈ m.rootTaken fs) : ∃ fs, m.acquires fs = true ∧ n = m.root fs := by
  unfold rootTaken at h
  split at h
  · exact ⟨fs, by assumption, by simpa using h⟩
  · cases h

@[simp] theorem deleted_getRootNode (refs : Refs N) (fs : F) : (m.getRootNode refs fs).1.deleted = refs.deleted := by
  unfold getRootNode
  split <;> rfl

theorem count_getRootNode (refs : Refs N) (fs : F) (n : N) :
    (m.getRootNode refs fs).1.count n = refs.count n + (m.rootTaken fs).count n := by
  unfold getRootNode rootTaken
  split
  · simp [count_cons_own]
  · simp

/-- What `leaveRoot` has taken. -/
def leaveTaken (cur : N) (name : Name) : List N :=
  if name = ['.', '.'] then m.rootTaken (m.fileSystem cur) else []

omit [DecidableEq N] in
theorem of_mem_leaveTaken (cur : N) (name : Name) :
    ∀ n ∈ m.leaveTaken cur name, ∃ fs, m.acquires fs = true ∧ n = m.root fs := by
  unfold leaveTaken
  split
  · exact fun n => m.of_mem_rootTaken
  · simp

theorem count_leaveRoot (refs : Refs N) (cur : N) (name : Name) (n : N) :
    (m.leaveRoot refs cur name).1.count n + own cur n
      = refs.count n + (m.leaveTaken cur name).count n + own (m.parentSide cur name) n := by
  have hroot := m.count_getRootNode refs (m.fileSystem cur) n
  unfold leaveRoot leaveTaken parentSide
  by_cases hn : name = ['.', '.']
  · simp only [hn, true_and, if_true]
    cases m.covers (m.fileSystem cur) with
    | none =>
      simp only [Option.getD_none, ite_self]
      omega
    | some prev =>
      have hnode : (m.getRootNode refs (m.fileSystem cur)).2 = m.root (m.fileSystem cur) := rfl
      dsimp only
      rw [hnode]
      split
      · simp only [count_acquireRef, count_releaseRef, Option.getD_some]
        omega
      · dsimp only
        omega
  · simp [hn]

/-- What `enter` has taken. -/
def enterTaken (next : N) : List N :=
  match m.coveredBy next with
  | some fs => m.rootTaken fs
  | none => []

omit [DecidableEq N] in
theorem of_mem_enterTaken (next : N) : ∀ n ∈ m.enterTaken next, ∃ fs, m.acquires fs = true ∧ n = m.root fs := by
  unfold enterTaken
  split
  · exact fun n => m.of_mem_rootTaken
  · simp

theorem count_enter (refs : Refs N) (next n : N) :
    (m.enter refs next).1.count n + own next n
      = refs.count n + (m.enterTaken next).count n + own (m.entered next) n := by
  unfold enter enterTaken entered
  cases m.coveredBy next with
  | none => simp
  | some fs =>
    have hroot := m.count_getRootNode refs fs n
    have hnode : (m.getRootNode refs fs).2 = m.root fs := rfl
    simp only [count_releaseRef, count_acquireRef, hnode]
    omega

omit [DecidableEq N] in
theorem rootTaken_eq_nil_iff (fs : F) : m.rootTaken fs = [] ↔ m.acquires fs = false := by
  unfold rootTaken
  cases m.acquires fs <;> simp

/-! ## The walk -/

/-- Every component is found, no `..` is looked up in a file system whose `GetRootNode` takes a reference, and no such
file system is entered. -/
def Quiet (lookup : Nat → N → Name → Option N) : Nat → N → List Name → Prop
  | _, _, [] => True
  | i, cur, name :: names =>
    (name = ['.', '.'] → m.acquires (m.fileSystem cur) = false) ∧
    match lookup i (m.parentSide cur name) name with
    | none => False
    | some next => (∀ fs ∈ m.coveredBy next, m.acquires fs = false) ∧ Quiet lookup (i + 1) (m.entered next) names

omit [DecidableEq N] in
theorem leaveTaken_eq_nil_iff (cur : N) (name : Name) :
    m.leaveTaken cur name = [] ↔ (name = ['.', '.'] → m.acquires (m.fileSystem cur) = false) := by
  unfold leaveTaken
  by_cases hn : name = ['.', '.']
  · simp only [hn, if_true, forall_const, rootTaken_eq_nil_iff]
  · simp [hn]

omit [DecidableEq N] in
theorem enterTaken_eq_nil_iff (next : N) :
    m.enterTaken next = [] ↔ ∀ fs ∈ m.coveredBy next, m.acquires fs = false := by
  unfold enterTaken
  cases m.coveredBy next with
  | none => simp
  | some fs => simp [rootTaken_eq_nil_iff]

/-- The references after a round that has found `next`. -/
def roundRefs (refs : Refs N) (cur : N) (name : Name) (next : N) : Refs N :=
  (m.enter (m.releaseRef ((m.leaveRoot refs cur name).1.acquireRef next) (m.parentSide cur name)) next).1

theorem count_roundRefs (refs : Refs N) (cur : N) (name : Name) (next n : N) :
    (m.roundRefs refs cur name next).count n + own cur n
      = refs.count n + (m.leaveTaken cur name).count n + (m.enterTaken next).count n + own (m.entered next) n := by
  have hleave := m.count_leaveRoot refs cur name n
  have henter := m.count_enter
    (m.releaseRef ((m.leaveRoot refs cur name).1.acquireRef next) (m.parentSide cur name)) next n
  simp only [count_releaseRef, count_acquireRef] at henter
  unfold roundRefs
  omega

variable {lookup : Nat → N → Name → Option N} {i : Nat} {name : Name} {cur : N}

theorem walkComponents_none
    (hf : lookup i (m.parentSide cur name) name = none) (names : List Name) (refs : Refs N) :
    m.walkComponents lookup i (name :: names) refs cur
      = ((m.leaveRoot refs cur name).1, m.parentSide cur name, false) := by
  simp only [walkComponents, leaveRoot_node, hf]

theorem walkComponents_some {next : N}
    (hf : lookup i (m.parentSide cur name) name = some next) (names : List Name) (refs : Refs N) :
    m.walkComponents lookup i (name :: names) refs cur
      = m.walkComponents lookup (i + 1) names (m.roundRefs refs cur name next) (m.entered next) := by
  simp only [walkComponents, leaveRoot_node, hf, enter_node, roundRefs]

/-- What the walk leaves behind: the reference on the node it stands on at the end, and what `GetRootNode` has taken
on the way. -/
theorem walkComponents_spec (lookup : Nat → N → Name → Option N) :
    ∀ (names : List Name) (i : Nat) (refs : Refs N) (cur : N), ∃ taken : List N,
      (∀ n, (m.walkComponents lookup i names refs cur).1.count n + own cur n
        = refs.count n + taken.count n + own (m.walkComponents lookup i names refs cur).2.1 n) ∧
      (∀ n ∈ taken, ∃ fs, m.acquires fs = true ∧ n = m.root fs) ∧
      (m.Quiet lookup i cur names ↔ (m.walkComponents lookup i names refs cur).2.2 = true ∧ taken = []) := by
  intro names
  induction names with
  | nil =>
    intro i refs cur
    refine ⟨[], ?_, ?_, ?_⟩
    · intro n
      simp [walkComponents]
    · simp
    · simp [walkComponents, Quiet]
  | cons name names ih =>
    intro i refs cur
    simp only [Quiet, ← leaveTaken_eq_nil_iff]
    cases hfound : lookup i (m.parentSide cur name) name with
    | none =>
      -- the reference on the node in which the name was looked up stays
      rw [m.walkComponents_none hfound]
      refine ⟨m.leaveTaken cur name, m.count_leaveRoot refs cur name, m.of_mem_leaveTaken cur name, ?_⟩
      simp
    | some next =>
      obtain ⟨taken, hcount, hroot, hquiet⟩ := ih (i + 1) (m.roundRefs refs cur name next) (m.entered next)
      rw [m.walkComponents_some hfound]
      simp only [hquiet, ← enterTaken_eq_nil_iff]
      refine ⟨m.leaveTaken cur name ++ m.enterTaken next ++ taken, ?_, ?_, ?_⟩
      · intro n
        have hround := m.count_roundRefs refs cur name next n
        have hrest := hcount n
        rw [List.count_append, List.count_append]
        omega
      · simp only [List.mem_append]
        rintro n ((h | h) | h)
        · exact m.of_mem_leaveTaken cur name n h
        · exact m.of_mem_enterTaken next n h
        · exact hroot n h
      · simp only [List.append_eq_nil_iff]
        tauto

def startNode (currentDir : Option N) (path : List Char) : N :=
  match currentDir with
  | some dir => if path.head? = some '/' then m.root m.rootFileSystem else dir
  | none => m.root m.rootFileSystem

/-- The path is relative to a current directory and no component takes a reference. -/
def QuietWalk (lookup : Nat → N → Name → Option N) (currentDir : Option N) (path : List Char) (pathLength : Nat) :
    Prop :=
  currentDir.isSome = true ∧ path.head? ≠ some '/' ∧
    m.Quiet lookup 0 (m.startNode currentDir path) (components pathLength (path.take pathLength))

omit [DecidableEq N] in
theorem rootTaken_rootFileSystem : m.rootTaken m.rootFileSystem = [m.root m.rootFileSystem] := by
  simp [rootTaken, acquires, m.kind_rootFileSystem]

/-- A walk is a walk over its components from the node at which it starts; `GetRootNode` has taken a reference on that
node unless it is the current directory. -/
theorem walkPath_start (lookup : Nat → N → Name → Option N) (currentDir : Option N) (path : List Char)
    (pathLength : Nat) (refs : Refs N) : ∃ (refs1 : Refs N) (taken : List N),
      (let out := m.walkComponents lookup 0 (components pathLength (path.take pathLength)) refs1
          (m.startNode currentDir path)
       m.walkPath lookup currentDir path pathLength refs = (out.1, if out.2.2 then some out.2.1 else none)) ∧
      (∀ n, refs1.count n = refs.count n + taken.count n + own (m.startNode currentDir path) n) ∧
      refs1.deleted = refs.deleted ∧
      (∀ n ∈ taken, ∃ fs, m.acquires fs = true ∧ n = m.root fs) ∧
      (taken = [] ↔ currentDir.isSome = true ∧ path.head? ≠ some '/') := by
  have habs : ∀ n ∈ m.rootTaken m.rootFileSystem, ∃ fs, m.acquires fs = true ∧ n = m.root fs :=
    fun n => m.of_mem_rootTaken
  have hcount := fun n => m.count_getRootNode refs m.rootFileSystem n
  have hdeleted := m.deleted_getRootNode refs m.rootFileSystem
  cases currentDir with
  | none =>
    refine ⟨(m.getRootNode refs m.rootFileSystem).1.acquireRef (m.root m.rootFileSystem),
      m.rootTaken m.rootFileSystem, rfl, ?_, hdeleted, habs, ?_⟩
    · intro n
      rw [count_acquireRef, hcount]
      rfl
    · simp [rootTaken_rootFileSystem]
  | some dir =>
    by_cases hpath : path.head? = some '/'
    · have hstart : m.startNode (some dir) path = m.root m.rootFileSystem := if_pos hpath
      rw [hstart]
      refine ⟨(m.getRootNode refs m.rootFileSystem).1.acquireRef (m.root m.rootFileSystem),
        m.rootTaken m.rootFileSystem, ?_, ?_, hdeleted, habs, ?_⟩
      · simp only [walkPath, hpath, if_true]
        rfl
      · intro n
        rw [count_acquireRef, hcount]
      · simp [rootTaken_rootFileSystem, hpath]
    · have hstart : m.startNode (some dir) path = dir := if_neg hpath
      rw [hstart]
      refine ⟨refs.acquireRef dir, [], ?_, ?_, rfl, by simp, by simp [hpath]⟩
      · simp only [walkPath, hpath, if_false]
      · simp

end Mounts

/-- Success leaves one reference more on the node that was found and nothing else; failure leaves nothing. -/
def Neutral (refs : Refs N) (out : Refs N × Option N) : Prop :=
  ∀ n, out.1.count n = refs.count n + if out.2 = some n then 1 else 0

/-- **A walk is reference-neutral exactly when** it starts in the current directory, finds every component, and
neither leaves by `..` nor enters a file system whose `GetRootNode` takes a reference. -/
theorem walkPath_neutral_iff (m : Mounts N F) (lookup : Nat → N → Name → Option N) (currentDir : Option N)
    (path : List Char) (pathLength : Nat) (refs : Refs N) :
    Neutral refs (m.walkPath lookup currentDir path pathLength refs)
      ↔ m.QuietWalk lookup currentDir path pathLength := by
  obtain ⟨refs1, taken0, hout, hcount0, _, _, htaken0⟩ := m.walkPath_start lookup currentDir path pathLength refs
  dsimp only at hout
  unfold Mounts.QuietWalk
  obtain ⟨taken, hcount, _, hquiet⟩ := m.walkComponents_spec lookup (components pathLength (path.take pathLength)) 0
    refs1 (m.startNode currentDir path)
  rw [hquiet, ← and_assoc, ← htaken0, hout]
  generalize m.walkComponents lookup 0 (components pathLength (path.take pathLength)) refs1
    (m.startNode currentDir path) = walked at hcount
  obtain ⟨refs2, last, found⟩ := walked
  dsimp only at hcount ⊢
  constructor
  · intro hneutral
    have hsum : ∀ n, (taken0.count n : Int) + taken.count n + own last n = if found ∧ last = n then 1 else 0 := by
      intro n
      have h1 := hneutral n
      have h2 := hcount n
      have h3 := hcount0 n
      cases found with
      | false =>
        simp only [Bool.false_eq_true, if_false, reduceCtorEq, false_and] at h1 ⊢
        omega
      | true =>
        simp only [if_true, Option.some.injEq, true_and] at h1 ⊢
        omega
    have hfound : found = true := by
      have hlast := hsum last
      rw [own_self] at hlast
      cases found with
      | true => rfl
      | false =>
        simp at hlast
        omega
    have hzero : ∀ n, (taken0.count n : Int) + taken.count n = 0 := by
      intro n
      have hn := hsum n
      simp only [hfound, true_and, own, eq_comm (a := n)] at hn
      omega
    refine ⟨nil_of_count fun n => ?_, hfound, nil_of_count fun n => ?_⟩
    · have := hzero n
      omega
    · have := hzero n
      omega
  · rintro ⟨rfl, rfl, rfl⟩ n
    have h2 := hcount n
    have h3 := hcount0 n
    have hown : own last n = if last = n then 1 else 0 := by
      unfold own
      simp only [eq_comm (a := n)]
    simp only [List.count_nil, if_true, Option.some.injEq] at h2 h3 ⊢
    omega

def bare : Mounts Nat Unit where
  fileSystem := fun _ => ()
  coveredBy := fun _ => none
  covers := fun _ => none
  root := fun _ => 0
  kind := fun _ => .rootFs
  rootFileSystem := ()
  dead := fun _ => false
  kind_rootFileSystem := rfl
  fileSystem_root := fun _ => rfl

/-- A lookup that fails in the current directory leaves a reference there, and `/` two on the root. -/
theorem walkPath_leaks :
    ¬ (∀ (lookup : Nat → Nat → Name → Option Nat) (path : List Char) (refs : Refs Nat),
        Neutral refs (bare.walkPath lookup (some 1) path path.length refs)) ∧
      (bare.walkPath (fun _ n _ => some n) none ['/'] 1 ⟨fun _ => 0, fun _ => false⟩).1.count 0 = 2 := by
  refine ⟨?_, by decide⟩
  intro h
  have hfails := h (fun _ _ _ => none) ['a'] ⟨fun _ => 0, fun _ => false⟩ 1
  revert hfails
  decide

end Vfs
