import Mathlib.Data.List.Find
import Mathlib.Data.List.Nodup
import Mathlib.Data.List.TakeWhile
import Mathlib.Logic.Function.Basic
import Mathlib.Tactic.Common
import SkyOS.Lib.Machine
import SkyOS.Lib.StepSystem

/-!
# The root file system (`SkyCore/driver/RootFS.cpp`)

A tree of directories in memory. A directory that is removed leaves the entry list of its parent at once and is
deleted when its last reference is released. It keeps `fParentDir` until then, but no reference to it; and nothing
keeps a directory that is removed from getting entries again.

| here | there |
| --- | --- |
| a number | a pointer to a `RootDir`: the number of its allocation, 0 being `fRoot` |
| `fEntryList` | the entries without the two for `.` and `..`, which `FindEntry` does not get to |
| `deleted` | the memory has been freed |
| `held` | not there: the references that callers have |
| `none` from a call | a deleted directory, or a null pointer, is followed |
-/

namespace RootFs

open Machine List

abbrev Name := List UInt8

/-- `.` -/
def dot : Name := [0x2E]

/-- `..` -/
def dotdot : Name := [0x2E, 0x2E]

inductive Status where
  | E_NO_ERROR
  | E_NO_SUCH_FILE
  | E_ENTRY_EXISTS
  deriving DecidableEq

/-- `RootDir`, with what it inherits from `RootEntry` and `VNode` (:24, :36). -/
structure RootDir where
  fName : Name
  fParentDir : Nat
  fDead : Bool
  fRefCount : Int
  fEntryList : List Nat
  held : Nat
  deleted : Bool

structure RootFileSystem where
  nodes : Nat → RootDir
  next : Nat

namespace RootFileSystem

def modify (fs : RootFileSystem) (n : Nat) (f : RootDir → RootDir) : RootFileSystem :=
  { fs with nodes := Function.update fs.nodes n (f (fs.nodes n)) }

/-- `strncpy` up to a zero (:83). -/
def stored (name : Name) : Name := name.takeWhile (· ≠ 0)

/-- `FindEntry` (:132). As no zero is in the name of an entry, the two comparisons together are equality. -/
def FindEntry (fs : RootFileSystem) (dir : Nat) (name : Name) : Option Nat :=
  if name = dot then some dir
  else if name = dotdot then some (fs.nodes dir).fParentDir
  else (fs.nodes dir).fEntryList.find? fun entry => (fs.nodes entry).fName = name

/-- `AcquireRef` (`VNode.cpp:45`). -/
def AcquireRef (fs : RootFileSystem) (n : Nat) : RootFileSystem :=
  fs.modify n fun node => { node with fRefCount := toInt32 (node.fRefCount + 1) }

def hold (fs : RootFileSystem) (n : Nat) (d : Int) : RootFileSystem :=
  fs.modify n fun node => { node with held := (node.held + d).toNat }

/-- `delete` of a directory and, in its destructor (:112), of all its entries. The depth is that of the tree, which
has `next` directories. -/
def destroy : Nat → RootFileSystem → Nat → RootFileSystem
  | 0, fs, n => fs.modify n fun node => { node with deleted := true }
  | depth + 1, fs, n =>
    ((fs.nodes n).fEntryList.foldl (destroy depth) (fs.modify n fun node => { node with fEntryList := [] })).modify n
      fun node => { node with deleted := true }

/-- `ReleaseRef` (`VNode.cpp:50`), `Inactive` (:97). -/
def ReleaseRef (fs : RootFileSystem) (n : Nat) : RootFileSystem :=
  let fs := fs.modify n fun node => { node with fRefCount := toInt32 (node.fRefCount - 1) }
  if (fs.nodes n).fRefCount = 0 ∧ (fs.nodes n).fDead = true then fs.destroy fs.next n else fs

/-- `GetRootNode` (:199). -/
def GetRootNode (fs : RootFileSystem) : Option RootFileSystem :=
  if (fs.nodes 0).deleted then none else some ((fs.AcquireRef 0).hold 0 1)

/-- `Lookup` (:121). -/
def Lookup (fs : RootFileSystem) (dir : Nat) (name : Name) : Option (Status × RootFileSystem) :=
  match fs.FindEntry dir name with
  | some entry =>
    if (fs.nodes entry).deleted then none else some (.E_NO_ERROR, (fs.AcquireRef entry).hold entry 1)
  | none => some (.E_NO_SUCH_FILE, fs)

/-- `MakeDir` (:152). -/
def MakeDir (fs : RootFileSystem) (dir : Nat) (name : Name) : Status × RootFileSystem :=
  if (fs.FindEntry dir name).isSome then (.E_ENTRY_EXISTS, fs)
  else
    let entry : RootDir := ⟨stored name, dir, false, 0, [], 0, false⟩
    (.E_NO_ERROR,
      { { fs with nodes := Function.update fs.nodes fs.next entry }.modify dir fun node =>
          { node with fEntryList := node.fEntryList ++ [fs.next] } with next := fs.next + 1 })

/-- The node has links (`fPrev`, `fNext`). -/
def Linked (fs : RootFileSystem) (n : Nat) : Prop := ∃ dir < fs.next, n ∈ (fs.nodes dir).fEntryList

instance (fs : RootFileSystem) (n : Nat) : Decidable (fs.Linked n) :=
  inferInstanceAs (Decidable (∃ dir, dir < fs.next ∧ n ∈ (fs.nodes dir).fEntryList))

def unlink (fs : RootFileSystem) (n : Nat) : RootFileSystem :=
  { fs with nodes := fun i => { fs.nodes i with fEntryList := (fs.nodes i).fEntryList.erase n } }

/-- `RemoveFromList` (`List.h:65`): from the list the node is in, whosever it is. -/
def RemoveFromList (fs : RootFileSystem) (n : Nat) : Option RootFileSystem :=
  if fs.Linked n then some (fs.unlink n) else none

/-- `MakeDead` (:103). -/
def MakeDead (fs : RootFileSystem) (n : Nat) : RootFileSystem := fs.modify n fun node => { node with fDead := true }

/-- `RemoveDir` (:161). -/
def RemoveDir (fs : RootFileSystem) (dir : Nat) (name : Name) : Option (Status × RootFileSystem) :=
  match fs.FindEntry dir name with
  | none => some (.E_NO_SUCH_FILE, fs)
  | some entry =>
    -- `entry->Lookup(".")` is `entry`, with a reference
    if (fs.nodes entry).deleted then none
    else
      let fs := fs.AcquireRef entry
      if (fs.nodes entry).fEntryList ≠ [] then some (.E_ENTRY_EXISTS, fs.ReleaseRef entry)
      else (fs.RemoveFromList entry).map fun fs => (.E_NO_ERROR, (fs.MakeDead entry).ReleaseRef entry)

/-- As `RootFileSystem`'s constructor leaves it (:193). -/
def start : RootFileSystem := ⟨fun _ => ⟨[], 0, false, 0, [], 0, false⟩, 1⟩

end RootFileSystem

inductive Call where
  | getRootNode
  | makeDir (dir : Nat) (name : Name)
  | removeDir (dir : Nat) (name : Name)
  | lookup (dir : Nat) (name : Name)
  | releaseRef (dir : Nat)

namespace Call

def dir? : Call → Option Nat
  | getRootNode => none
  | makeDir dir _ | removeDir dir _ | lookup dir _ | releaseRef dir => some dir

def Enabled (fs : RootFileSystem) (call : Call) : Prop :=
  call.dir?.elim True fun dir => dir < fs.next ∧ 0 < (fs.nodes dir).held
  deriving Decidable

def run (fs : RootFileSystem) : Call → Option RootFileSystem
  | getRootNode => fs.GetRootNode
  | makeDir dir name => some (fs.MakeDir dir name).2
  | removeDir dir name => (fs.RemoveDir dir name).map Prod.snd
  | lookup dir name => (fs.Lookup dir name).map Prod.snd
  | releaseRef dir => some ((fs.hold dir (-1)).ReleaseRef dir)

end Call

open RootFileSystem

def system : StepSystem RootFileSystem Call where
  init fs := fs = start
  step fs call := if call.Enabled fs then call.run fs else none

namespace RootFileSystem

/-! ## The tree -/

def entryNames (fs : RootFileSystem) (dir : Nat) : List Name :=
  dot :: dotdot :: (fs.nodes dir).fEntryList.map fun entry => (fs.nodes entry).fName

/-- The node is in one entry list, once: that of its parent, which is not deleted. -/
def InParent (fs : RootFileSystem) (n : Nat) : Prop :=
  (fs.nodes (fs.nodes n).fParentDir).deleted = false ∧ (fs.nodes (fs.nodes n).fParentDir).fEntryList.count n = 1 ∧
    ∀ dir < fs.next, n ∈ (fs.nodes dir).fEntryList → dir = (fs.nodes n).fParentDir

/-- Distinct names, every directory in its place, and none deleted that is alive or referred to. -/
structure Right (fs : RootFileSystem) : Prop where
  names : ∀ dir < fs.next, (fs.nodes dir).deleted = false → (fs.entryNames dir).Nodup
  place : ∀ n < fs.next, n ≠ 0 → (fs.nodes n).deleted = false →
    fs.InParent n ∨ ((fs.nodes n).fDead = true ∧ ¬ fs.Linked n)
  deleted : ∀ n < fs.next, (fs.nodes n).deleted = true → (fs.nodes n).fDead = true ∧ (fs.nodes n).held = 0

/-- What `RemoveDir` finds is not deleted. If it has no entries it is in a list, and not deleted now while there are
references; and if it has entries it is not deleted at all. -/
def Removable (fs : RootFileSystem) (entry : Nat) : Prop :=
  (fs.nodes entry).deleted = false ∧
    if (fs.nodes entry).fEntryList = [] then
      fs.Linked entry ∧ ((fs.nodes entry).fRefCount = 0 → (fs.nodes entry).held = 0)
    else ¬ ((fs.nodes entry).fRefCount = 0 ∧ (fs.nodes entry).fDead = true)
  deriving Decidable

/-- A name that is not found differs from those in the list up to a zero too; what is removed can be removed; `..` is
not deleted; and what is deleted with its last reference has no entries. -/
def Fits (fs : RootFileSystem) : Call → Prop
  | .getRootNode => True
  | .makeDir dir name => fs.FindEntry dir name = none → stored name ∉ fs.entryNames dir
  | .removeDir dir name => ∀ entry ∈ fs.FindEntry dir name, fs.Removable entry
  | .lookup dir name => name = dotdot → (fs.nodes (fs.nodes dir).fParentDir).deleted = false
  | .releaseRef dir => toInt32 ((fs.nodes dir).fRefCount - 1) = 0 → (fs.nodes dir).fDead = true →
      (fs.nodes dir).held = 1 ∧ (fs.nodes dir).fEntryList = []

instance (fs : RootFileSystem) : (call : Call) → Decidable (fs.Fits call)
  | .getRootNode => .isTrue trivial
  | .makeDir dir name => inferInstanceAs (Decidable (fs.FindEntry dir name = none → stored name ∉ fs.entryNames dir))
  | .removeDir dir name => inferInstanceAs (Decidable (∀ entry ∈ fs.FindEntry dir name, fs.Removable entry))
  | .lookup _ name => inferInstanceAs (Decidable (name = dotdot → _))
  | .releaseRef dir => inferInstanceAs (Decidable (toInt32 ((fs.nodes dir).fRefCount - 1) = 0 → _ → _ ∧ _))

/-! ## The invariant -/

/-- The tree, whatever the references are. Nothing is in a list that is dead, and the root never is. -/
structure Shape (fs : RootFileSystem) : Prop where
  names : ∀ dir < fs.next, (fs.nodes dir).deleted = false → (fs.entryNames dir).Nodup
  place : ∀ n < fs.next, n ≠ 0 → (fs.nodes n).deleted = false →
    fs.InParent n ∨ ((fs.nodes n).fDead = true ∧ ¬ fs.Linked n)
  dead : ∀ n < fs.next, (fs.nodes n).deleted = true → (fs.nodes n).fDead = true
  root : 0 < fs.next ∧ (fs.nodes 0).fDead = false ∧ ¬ fs.Linked 0
  entry : ∀ dir < fs.next, ∀ e ∈ (fs.nodes dir).fEntryList, e < fs.next ∧ (fs.nodes e).fDead = false ∧
    (fs.nodes e).fParentDir = dir
  empty : ∀ dir < fs.next, (fs.nodes dir).deleted = true → (fs.nodes dir).fEntryList = []
  parent : ∀ n < fs.next, (fs.nodes n).fParentDir < fs.next

/-- The tree, and references that are counted, in `int`, until the directory is deleted. -/
structure Inv (fs : RootFileSystem) : Prop extends Shape fs where
  held : ∀ n < fs.next, (fs.nodes n).deleted = true → (fs.nodes n).held = 0
  counted : ∀ n < fs.next, (fs.nodes n).deleted = false → (fs.nodes n).fRefCount = toInt32 (fs.nodes n).held

variable {fs fs' : RootFileSystem} {n i dir : Nat} {name : Name}

theorem Inv.right (h : fs.Inv) : fs.Right :=
  ⟨h.names, h.place, fun n hn hdel => ⟨h.dead n hn hdel, h.held n hn hdel⟩⟩

theorem Inv.live (h : fs.Inv) (hn : n < fs.next) (hheld : 0 < (fs.nodes n).held) :
    (fs.nodes n).deleted = false := by
  by_contra hdel
  have := h.held n hn (by simpa using hdel)
  omega

theorem Shape.root_live (h : fs.Shape) : (fs.nodes 0).deleted = false := by
  by_contra hdel
  have hdead := h.dead 0 h.root.1 (by simpa using hdel)
  rw [h.root.2.1] at hdead
  cases hdead

theorem modify_self (fs : RootFileSystem) (n : Nat) (f : RootDir → RootDir) : (fs.modify n f).nodes n = f (fs.nodes n) :=
  Function.update_self ..

theorem modify_of_ne (fs : RootFileSystem) (f : RootDir → RootDir) (hne : i ≠ n) :
    (fs.modify n f).nodes i = fs.nodes i :=
  Function.update_of_ne hne ..

theorem modify_eq_self (fs : RootFileSystem) (n : Nat) (f : RootDir → RootDir) (hf : f (fs.nodes n) = fs.nodes n) :
    fs.modify n f = fs := by
  unfold modify
  rw [hf, Function.update_eq_self]

theorem modify_modify (fs : RootFileSystem) (n : Nat) (f g : RootDir → RootDir) :
    (fs.modify n f).modify n g = fs.modify n fun node => g (f node) := by
  simp only [modify, Function.update_self, Function.update_idem]

def strip (fs : RootFileSystem) : RootFileSystem :=
  { fs with nodes := fun i => { fs.nodes i with fRefCount := 0, held := 0 } }

theorem Shape.congr (h : fs.Shape) (hsame : fs'.strip = fs.strip) : fs'.Shape := by
  have hstrip : fs.strip.Shape := ⟨h.names, h.place, h.dead, h.root, h.entry, h.empty, h.parent⟩
  rw [← hsame] at hstrip
  exact ⟨hstrip.names, hstrip.place, hstrip.dead, hstrip.root, hstrip.entry, hstrip.empty, hstrip.parent⟩

theorem strip_modify (fs : RootFileSystem) (n : Nat) (f : RootDir → RootDir)
    (hf : { f (fs.nodes n) with fRefCount := 0, held := 0 } = { fs.nodes n with fRefCount := 0, held := 0 }) :
    (fs.modify n f).strip = fs.strip := by
  unfold strip
  congr 1
  funext i
  by_cases hi : i = n
  · subst hi
    rw [modify_self]
    exact hf
  · rw [modify_of_ne fs f hi]

theorem strip_AcquireRef (fs : RootFileSystem) (n : Nat) : (fs.AcquireRef n).strip = fs.strip :=
  strip_modify fs n _ rfl

theorem strip_hold (fs : RootFileSystem) (n : Nat) (d : Int) : (fs.hold n d).strip = fs.strip :=
  strip_modify fs n _ rfl

/-! ## References -/

theorem Inv.acquire (h : fs.Inv) (hlive : (fs.nodes n).deleted = false) :
    ((fs.AcquireRef n).hold n 1).Inv := by
  have hsame : ((fs.AcquireRef n).hold n 1).strip = fs.strip := by rw [strip_hold, strip_AcquireRef]
  have hother : ∀ i, i ≠ n → ((fs.AcquireRef n).hold n 1).nodes i = fs.nodes i := by
    intro i hi
    rw [hold, modify_of_ne _ _ hi, AcquireRef, modify_of_ne _ _ hi]
  have hself : ((fs.AcquireRef n).hold n 1).nodes n =
      { fs.nodes n with fRefCount := toInt32 ((fs.nodes n).fRefCount + 1), held := (fs.nodes n).held + 1 } := by
    rw [hold, modify_self, AcquireRef, modify_self]
    rfl
  refine ⟨h.toShape.congr hsame, ?_, ?_⟩
  · intro i hi hdel
    by_cases hin : i = n
    · subst hin
      rw [hself] at hdel
      exact absurd (hlive.symm.trans hdel) (by decide)
    · rw [hother i hin] at hdel ⊢
      exact h.held i hi hdel
  · intro i hi hdel
    by_cases hin : i = n
    · subst hin
      rw [hself]
      have := h.counted i hi hlive
      dsimp only
      rw [this]
      unfold toInt32
      omega
    · rw [hother i hin] at hdel ⊢
      exact h.counted i hi hdel

/-! ## Deletion -/

variable {f : RootDir → RootDir} {fs₁ : RootFileSystem} {e entry : Nat}

theorem modify_keep {β : Type} (g : RootDir → β) (fs : RootFileSystem) (n i : Nat)
    (hg : g (f (fs.nodes n)) = g (fs.nodes n)) : g ((fs.modify n f).nodes i) = g (fs.nodes i) := by
  by_cases hi : i = n
  · subst hi
    rw [modify_self, hg]
  · rw [modify_of_ne fs f hi]

structure Marks (fs fs' : RootFileSystem) : Prop where
  next : fs'.next = fs.next
  dead : ∀ i, (fs'.nodes i).fDead = (fs.nodes i).fDead
  held : ∀ i, (fs'.nodes i).held = (fs.nodes i).held
  deleted : ∀ i, (fs.nodes i).deleted = true → (fs'.nodes i).deleted = true

theorem Marks.refl (fs : RootFileSystem) : Marks fs fs := ⟨rfl, fun _ => rfl, fun _ => rfl, fun _ h => h⟩

theorem Marks.trans (h : Marks fs fs₁) (h' : Marks fs₁ fs') : Marks fs fs' :=
  ⟨h'.next.trans h.next, fun i => (h'.dead i).trans (h.dead i), fun i => (h'.held i).trans (h.held i),
    fun i hi => h'.deleted i (h.deleted i hi)⟩

theorem marks_modify (fs : RootFileSystem) (n : Nat) (f : RootDir → RootDir)
    (hdead : (f (fs.nodes n)).fDead = (fs.nodes n).fDead) (hheld : (f (fs.nodes n)).held = (fs.nodes n).held)
    (hdel : (fs.nodes n).deleted = true → (f (fs.nodes n)).deleted = true) : Marks fs (fs.modify n f) where
  next := rfl
  dead i := fs.modify_keep RootDir.fDead n i hdead
  held i := fs.modify_keep RootDir.held n i hheld
  deleted i hi := by
    by_cases hin : i = n
    · subst hin
      rw [modify_self]
      exact hdel hi
    · rwa [modify_of_ne fs f hin]

theorem foldl_marks {f : RootFileSystem → Nat → RootFileSystem} (hf : ∀ fs n, Marks fs (f fs n) ∧
    ((f fs n).nodes n).deleted = true) (entries : List Nat) (fs : RootFileSystem) :
    Marks fs (entries.foldl f fs) ∧ ∀ n ∈ entries, ((entries.foldl f fs).nodes n).deleted = true := by
  induction entries generalizing fs with
  | nil => exact ⟨.refl fs, fun n hn => absurd hn not_mem_nil⟩
  | cons n entries ih =>
    obtain ⟨hfirst, hdel⟩ := hf fs n
    obtain ⟨hrest, hall⟩ := ih (f fs n)
    refine ⟨hfirst.trans hrest, ?_⟩
    intro i hi
    rcases mem_cons.1 hi with rfl | hi
    · exact hrest.deleted i hdel
    · exact hall i hi

theorem destroy_marks (depth : Nat) : ∀ (fs : RootFileSystem) (n : Nat), Marks fs (fs.destroy depth n) ∧
    ((fs.destroy depth n).nodes n).deleted = true ∧
    (0 < depth → ∀ e ∈ (fs.nodes n).fEntryList, ((fs.destroy depth n).nodes e).deleted = true) := by
  induction depth with
  | zero =>
    intro fs n
    refine ⟨fs.marks_modify n _ rfl rfl fun _ => rfl, ?_, fun h => absurd h (Nat.lt_irrefl 0)⟩
    rw [destroy, modify_self]
  | succ depth ih =>
    intro fs n
    have hempty := fs.marks_modify n (fun node => { node with fEntryList := [] }) rfl rfl id
    obtain ⟨hentries, hall⟩ := foldl_marks (fun fs n => ⟨(ih fs n).1, (ih fs n).2.1⟩) (fs.nodes n).fEntryList
      (fs.modify n fun node => { node with fEntryList := [] })
    have hself := marks_modify ((fs.nodes n).fEntryList.foldl (destroy depth)
      (fs.modify n fun node => { node with fEntryList := [] })) n (fun node => { node with deleted := true }) rfl rfl
      fun _ => rfl
    rw [destroy]
    refine ⟨(hempty.trans hentries).trans hself, ?_, ?_⟩
    · rw [modify_self]
    · intro _ e he
      exact hself.deleted e (hall e he)

theorem destroy_of_empty (hempty : (fs.nodes n).fEntryList = []) (depth : Nat) :
    fs.destroy depth n = fs.modify n fun node => { node with deleted := true } := by
  cases depth with
  | zero => rfl
  | succ depth =>
    have hsame : (fs.modify n fun node => { node with fEntryList := [] }) = fs := by
      refine fs.modify_eq_self n _ ?_
      rw [← hempty]
    rw [destroy, hempty, foldl_nil, hsame]

theorem Shape.delete (h : fs.Shape) (hdead : (fs.nodes n).fDead = true)
    (hempty : (fs.nodes n).fEntryList = []) : (fs.modify n fun node => { node with deleted := true }).Shape := by
  have hname := fun i => fs.modify_keep (f := fun node => { node with deleted := true }) RootDir.fName n i rfl
  have hdeads := fun i => fs.modify_keep (f := fun node => { node with deleted := true }) RootDir.fDead n i rfl
  have hparent := fun i => fs.modify_keep (f := fun node => { node with deleted := true }) RootDir.fParentDir n i rfl
  have hlist := fun i => fs.modify_keep (f := fun node => { node with deleted := true }) RootDir.fEntryList n i rfl
  have hlive : ∀ i, ((fs.modify n fun node => { node with deleted := true }).nodes i).deleted = false →
      i ≠ n ∧ (fs.nodes i).deleted = false := by
    intro i hi
    have hne : i ≠ n := by
      rintro rfl
      rw [modify_self] at hi
      cases hi
    rw [modify_of_ne _ _ hne] at hi
    exact ⟨hne, hi⟩
  have hnext : (fs.modify n fun node => { node with deleted := true }).next = fs.next := rfl
  have hlinked : ∀ i, (fs.modify n fun node => { node with deleted := true }).Linked i ↔ fs.Linked i := by
    intro i
    simp only [Linked, hlist, hnext]
  refine ⟨?_, ?_, ?_, ?_, ?_, ?_, ?_⟩
  · intro dir hdir hdel
    simp only [entryNames, hlist, hname]
    exact h.names dir hdir (hlive dir hdel).2
  · intro i hi h0 hdel
    obtain ⟨hne, hdel⟩ := hlive i hdel
    rw [hdeads, hlinked]
    refine (h.place i hi h0 hdel).imp ?_ id
    rintro ⟨hplive, hcount, honly⟩
    unfold InParent
    simp only [hparent, hlist, hnext]
    refine ⟨?_, hcount, honly⟩
    have hpn : (fs.nodes i).fParentDir ≠ n := by
      intro heq
      rw [heq, hempty] at hcount
      cases hcount
    rwa [modify_of_ne _ _ hpn]
  · intro i hi hdel
    rw [hdeads]
    by_cases hin : i = n
    · rw [hin, hdead]
    · rw [modify_of_ne _ _ hin] at hdel
      exact h.dead i hi hdel
  · rw [hdeads, hlinked]
    exact h.root
  · intro dir hdir e he
    rw [hlist] at he
    rw [hdeads, hparent]
    exact h.entry dir hdir e he
  · intro dir hdir hdel
    rw [hlist]
    by_cases hin : dir = n
    · rw [hin, hempty]
    · rw [modify_of_ne _ _ hin] at hdel
      exact h.empty dir hdir hdel
  · intro i hi
    rw [hparent]
    exact h.parent i hi

/-- A dead directory is deleted as it should be if and only if it has no entries and nobody refers to it. -/
theorem Shape.destroy (h : fs.Shape) (hn : n < fs.next)
    (hdead : (fs.nodes n).fDead = true)
    (hheld : ∀ i < fs.next, i ≠ n → (fs.nodes i).deleted = true → (fs.nodes i).held = 0)
    (hcounted : ∀ i < fs.next, i ≠ n → (fs.nodes i).deleted = false → (fs.nodes i).fRefCount = toInt32 (fs.nodes i).held) :
    ((fs.nodes n).held = 0 ∧ (fs.nodes n).fEntryList = [] → (fs.destroy fs.next n).Inv) ∧
    (¬ ((fs.nodes n).held = 0 ∧ (fs.nodes n).fEntryList = []) → ¬ (fs.destroy fs.next n).Right) := by
  constructor
  · rintro ⟨hzero, hempty⟩
    rw [destroy_of_empty hempty]
    refine ⟨h.delete hdead hempty, ?_, ?_⟩
    · intro i hi hdel
      by_cases hin : i = n
      · rw [hin, modify_self]
        exact hzero
      · rw [modify_of_ne _ _ hin] at hdel ⊢
        exact hheld i hi hin hdel
    · intro i hi hdel
      by_cases hin : i = n
      · rw [hin, modify_self] at hdel
        cases hdel
      · rw [modify_of_ne _ _ hin] at hdel ⊢
        exact hcounted i hi hin hdel
  · intro hnot hright
    obtain ⟨hmarks, hdel, hentries⟩ := destroy_marks fs.next fs n
    have hzero := (hright.deleted n (by rwa [hmarks.next]) hdel).2
    rw [hmarks.held] at hzero
    cases hlist : (fs.nodes n).fEntryList with
    | nil => exact hnot ⟨hzero, hlist⟩
    | cons e rest =>
      -- the first entry is alive
      have he : e ∈ (fs.nodes n).fEntryList := by simp [hlist]
      obtain ⟨helt, healive, -⟩ := h.entry n hn e he
      have hedead := (hright.deleted e (by rwa [hmarks.next]) (hentries h.root.1 e he)).1
      rw [hmarks.dead, healive] at hedead
      cases hedead

/-! ## The calls -/

/-- **ReleaseRef** of a reference the caller has. -/
theorem Inv.releaseRef (h : fs.Inv) (hn : n < fs.next) (hheld : 0 < (fs.nodes n).held) :
    (fs.Fits (.releaseRef n) → ((fs.hold n (-1)).ReleaseRef n).Inv) ∧
    (¬ fs.Fits (.releaseRef n) → ¬ ((fs.hold n (-1)).ReleaseRef n).Right) := by
  have hlive := h.live hn hheld
  let fs₁ := (fs.hold n (-1)).modify n fun node => { node with fRefCount := toInt32 (node.fRefCount - 1) }
  have hsame : fs₁.strip = fs.strip := (strip_modify _ n _ rfl).trans (strip_hold fs n (-1))
  have hshape : fs₁.Shape := h.toShape.congr hsame
  have hother : ∀ i, i ≠ n → fs₁.nodes i = fs.nodes i := by
    intro i hi
    rw [modify_of_ne _ _ hi, hold, modify_of_ne _ _ hi]
  have hself : fs₁.nodes n = { fs.nodes n with
      fRefCount := toInt32 ((fs.nodes n).fRefCount - 1), held := (fs.nodes n).held - 1 } := by
    rw [modify_self, hold, modify_self]
    have hpred : ((fs.nodes n).held + -1 : Int).toNat = (fs.nodes n).held - 1 := by omega
    rw [hpred]
  have hheld₁ : ∀ i < fs₁.next, i ≠ n → (fs₁.nodes i).deleted = true → (fs₁.nodes i).held = 0 := by
    intro i hi hin hdel
    rw [hother i hin] at hdel ⊢
    exact h.held i hi hdel
  have hcounted₁ : ∀ i < fs₁.next, i ≠ n → (fs₁.nodes i).deleted = false →
      (fs₁.nodes i).fRefCount = toInt32 (fs₁.nodes i).held := by
    intro i hi hin hdel
    rw [hother i hin] at hdel ⊢
    exact h.counted i hi hdel
  have hrelease : (fs.hold n (-1)).ReleaseRef n =
      if (fs₁.nodes n).fRefCount = 0 ∧ (fs₁.nodes n).fDead = true then fs₁.destroy fs₁.next n else fs₁ := rfl
  rw [hrelease, Fits]
  by_cases hlast : (fs₁.nodes n).fRefCount = 0 ∧ (fs₁.nodes n).fDead = true
  · rw [if_pos hlast]
    obtain ⟨hgood, hbad⟩ := hshape.destroy hn hlast.2 hheld₁ hcounted₁
    rw [hself] at hlast hgood hbad
    constructor
    · intro hfits
      obtain ⟨hone, hempty⟩ := hfits hlast.1 hlast.2
      refine hgood ⟨?_, hempty⟩
      dsimp only
      omega
    · intro hnot
      refine hbad ?_
      rintro ⟨hzero, hempty⟩
      dsimp only at hzero
      exact hnot fun _ _ => ⟨by omega, hempty⟩
  · rw [if_neg hlast]
    constructor
    · intro _
      refine ⟨hshape, ?_, ?_⟩
      · intro i hi hdel
        by_cases hin : i = n
        · subst hin
          rw [hself] at hdel
          exact absurd (hlive.symm.trans hdel) (by decide)
        · exact hheld₁ i hi hin hdel
      · intro i hi hdel
        by_cases hin : i = n
        · subst hin
          rw [hself, h.counted i hn hlive]
          dsimp only
          unfold toInt32
          omega
        · exact hcounted₁ i hi hin hdel
    · intro hnot
      rw [hself] at hlast
      exact absurd (fun hcount hdead => absurd ⟨hcount, hdead⟩ hlast) hnot

/-- **Lookup** returns a directory that is not deleted, if it returns one. -/
theorem Inv.lookup (h : fs.Inv) (hdir : dir < fs.next)
    (hheld : 0 < (fs.nodes dir).held) (name : Name) :
    (fs.Fits (.lookup dir name) → ∃ r, fs.Lookup dir name = some r ∧ r.2.Inv) ∧
    (¬ fs.Fits (.lookup dir name) → fs.Lookup dir name = none) := by
  have hlive := h.live hdir hheld
  have hfound : ∀ entry, fs.FindEntry dir name = some entry →
      ((fs.nodes entry).deleted = false ↔ fs.Fits (.lookup dir name)) := by
    intro entry hentry
    unfold FindEntry at hentry
    by_cases hdot : name = dot
    · rw [if_pos hdot] at hentry
      cases hentry
      refine iff_of_true hlive fun hdotdot => ?_
      rw [hdot] at hdotdot
      exact absurd hdotdot (by decide)
    rw [if_neg hdot] at hentry
    by_cases hdotdot : name = dotdot
    · rw [if_pos hdotdot] at hentry
      cases hentry
      exact ⟨fun hp _ => hp, fun hfits => hfits hdotdot⟩
    · rw [if_neg hdotdot] at hentry
      have hmem := List.mem_of_find?_eq_some hentry
      obtain ⟨helt, healive, -⟩ := h.entry dir hdir entry hmem
      refine iff_of_true ?_ fun heq => absurd heq hdotdot
      by_contra hdel
      have hdead := h.dead entry helt (by simpa using hdel)
      rw [healive] at hdead
      cases hdead
  unfold Lookup
  cases hentry : fs.FindEntry dir name with
  | none =>
    refine ⟨fun _ => ⟨_, rfl, h⟩, fun hnot => absurd ?_ hnot⟩
    intro hdotdot
    rw [FindEntry, hdotdot, if_neg (by decide), if_pos rfl] at hentry
    cases hentry
  | some entry =>
    dsimp only
    rw [← hfound entry hentry]
    cases hdel : (fs.nodes entry).deleted with
    | false => exact ⟨fun _ => ⟨_, rfl, h.acquire hdel⟩, fun hnot => absurd rfl hnot⟩
    | true => exact ⟨fun hfalse => absurd hfalse (by decide), fun _ => rfl⟩

theorem Inv.getRootNode (h : fs.Inv) : ∃ fs', fs.GetRootNode = some fs' ∧ fs'.Inv := by
  refine ⟨(fs.AcquireRef 0).hold 0 1, ?_, h.acquire h.root_live⟩
  rw [GetRootNode, h.root_live]
  rfl

/-- The directory `MakeDir` makes. -/
def added (fs : RootFileSystem) (dir : Nat) (name : Name) : RootFileSystem :=
  { { fs with nodes := Function.update fs.nodes fs.next ⟨stored name, dir, false, 0, [], 0, false⟩ }.modify dir
      fun node => { node with fEntryList := node.fEntryList ++ [fs.next] } with next := fs.next + 1 }

section

variable {fs : RootFileSystem} {dir : Nat} (hdir : dir < fs.next) (name : Name)

include hdir

theorem added_new : (fs.added dir name).nodes fs.next = ⟨stored name, dir, false, 0, [], 0, false⟩ := by
  have hne : fs.next ≠ dir := by omega
  simp [added, modify, hne]

theorem added_dir :
    (fs.added dir name).nodes dir = { fs.nodes dir with fEntryList := (fs.nodes dir).fEntryList ++ [fs.next] } := by
  have hne : dir ≠ fs.next := by omega
  simp [added, modify, hne]

omit hdir in
theorem added_of_ne (hnew : i ≠ fs.next) (hi : i ≠ dir) : (fs.added dir name).nodes i = fs.nodes i := by
  simp [added, modify, hnew, hi]

theorem added_old {i : Nat} (hi : i < fs.next) : (fs.added dir name).nodes i =
    { fs.nodes i with fEntryList := if i = dir then (fs.nodes i).fEntryList ++
      [fs.next] else (fs.nodes i).fEntryList } := by
  by_cases hid : i = dir
  · subst hid
    rw [added_dir hdir, if_pos rfl]
  · rw [added_of_ne name (by omega) hid, if_neg hid]

theorem mem_added (hi : i < fs.next + 1) : e ∈ ((fs.added dir name).nodes i).fEntryList ↔
    (i < fs.next ∧ e ∈ (fs.nodes i).fEntryList) ∨ (i = dir ∧ e = fs.next) := by
  rcases Nat.lt_succ_iff_lt_or_eq.1 hi with hlt | rfl
  · rw [added_old hdir name hlt]
    split
    · simp [*]
    · simp [*]
  · rw [added_new hdir]
    simp
    omega

theorem linked_added (hi : i < fs.next) : (fs.added dir name).Linked i ↔ fs.Linked i := by
  constructor
  · rintro ⟨d, hd, hin⟩
    rcases (mem_added hdir name hd).1 hin with ⟨hdlt, hin⟩ | ⟨-, rfl⟩
    · exact ⟨d, hdlt, hin⟩
    · exact absurd hi (Nat.lt_irrefl _)
  · rintro ⟨d, hd, hin⟩
    exact ⟨d, Nat.lt_succ_of_lt hd, (mem_added hdir name (Nat.lt_succ_of_lt hd)).2 (.inl ⟨hd, hin⟩)⟩

theorem entryNames_new : (fs.added dir name).entryNames fs.next = [dot, dotdot] := by
  rw [entryNames, added_new hdir]
  rfl

variable (h : fs.Shape)

include h

omit hdir in
theorem Shape.not_mem_next (hi : i < fs.next) : fs.next ∉ (fs.nodes i).fEntryList := by
  intro hin
  exact absurd (h.entry i hi _ hin).1 (Nat.lt_irrefl _)

theorem Shape.entryNames_added (hi : i < fs.next) :
    (fs.added dir name).entryNames i = fs.entryNames i ++ if i = dir then [stored name] else [] := by
  have hnames : (fs.nodes i).fEntryList.map (fun e => ((fs.added dir name).nodes e).fName) =
      (fs.nodes i).fEntryList.map fun e => (fs.nodes e).fName := by
    refine map_congr_left ?_
    intro e he
    rw [added_old hdir name (h.entry i hi e he).1]
  unfold entryNames
  rw [added_old hdir name hi]
  split
  · rw [map_append, hnames, map_singleton, added_new hdir]
    rfl
  · rw [hnames, append_nil]

theorem Shape.inParent_new (hlive : (fs.nodes dir).deleted = false) : (fs.added dir name).InParent fs.next := by
  unfold InParent
  rw [added_new hdir]
  rw [added_dir hdir]
  refine ⟨hlive, ?_, ?_⟩
  · rw [count_append, count_eq_zero_of_not_mem (h.not_mem_next hdir)]
    simp
  · intro d hd hin
    rcases (mem_added hdir name hd).1 hin with ⟨hdlt, hin⟩ | ⟨rfl, -⟩
    · exact absurd hin (h.not_mem_next hdlt)
    · rfl

theorem Shape.inParent_added (hi : i < fs.next) (hin : fs.InParent i) : (fs.added dir name).InParent i := by
  have hnew : i ≠ fs.next := Nat.ne_of_lt hi
  obtain ⟨hplive, hcount, honly⟩ := hin
  unfold InParent
  rw [added_old hdir name hi]
  rw [added_old hdir name (h.parent i hi)]
  refine ⟨hplive, ?_, ?_⟩
  · dsimp only
    split
    · rw [count_append, hcount, count_singleton, if_neg (by simpa using Ne.symm hnew)]
    · exact hcount
  · intro d hd hin
    rcases (mem_added hdir name hd).1 hin with ⟨hdlt, hin⟩ | ⟨-, heq⟩
    · exact honly d hdlt hin
    · exact absurd heq hnew

end

theorem Shape.add (h : fs.Shape) (hdir : dir < fs.next)
    (hlive : (fs.nodes dir).deleted = false) (hfresh : stored name ∉ fs.entryNames dir) :
    (fs.added dir name).Shape := by
  have hold := fun i (hi : i < fs.next) => @added_old fs dir hdir name i hi
  have hcases : ∀ i < (fs.added dir name).next, i < fs.next ∨ i = fs.next := fun i => Nat.lt_succ_iff_lt_or_eq.1
  refine ⟨?_, ?_, ?_, ?_, ?_, ?_, ?_⟩
  · intro i hi hdel
    rcases hcases i hi with hlt | rfl
    · rw [hold i hlt] at hdel
      rw [h.entryNames_added hdir name hlt]
      refine nodup_append.2 ⟨h.names i hlt hdel, by split <;> simp, ?_⟩
      intro a ha b hb heq
      split at hb
      · rename_i hid
        rw [← mem_singleton.1 hb, ← hid, ← heq] at hfresh
        exact hfresh ha
      · cases hb
    · rw [entryNames_new hdir]
      decide
  · intro i hi h0 hdel
    rcases hcases i hi with hlt | rfl
    · rw [hold i hlt] at hdel ⊢
      rw [linked_added hdir name hlt]
      exact (h.place i hlt h0 hdel).imp (h.inParent_added hdir name hlt) id
    · exact .inl (h.inParent_new hdir name hlive)
  · intro i hi hdel
    rcases hcases i hi with hlt | rfl
    · rw [hold i hlt] at hdel ⊢
      exact h.dead i hlt hdel
    · rw [added_new hdir] at hdel
      cases hdel
  · refine ⟨Nat.succ_pos _, ?_, ?_⟩
    · rw [hold 0 h.root.1]
      exact h.root.2.1
    · rw [linked_added hdir name h.root.1]
      exact h.root.2.2
  · intro i hi e he
    rcases (mem_added hdir name hi).1 he with ⟨hlt, he⟩ | ⟨rfl, rfl⟩
    · obtain ⟨helt, healive, heparent⟩ := h.entry i hlt e he
      rw [hold e helt]
      exact ⟨Nat.lt_succ_of_lt helt, healive, heparent⟩
    · rw [added_new hdir]
      exact ⟨Nat.lt_succ_self _, rfl, rfl⟩
  · intro i hi hdel
    rcases hcases i hi with hlt | rfl
    · rw [hold i hlt] at hdel ⊢
      have hne : i ≠ dir := by
        rintro rfl
        exact absurd (hlive.symm.trans hdel) (by decide)
      rw [if_neg hne]
      exact h.empty i hlt hdel
    · rw [added_new hdir]
  · intro i hi
    rcases hcases i hi with hlt | rfl
    · rw [hold i hlt]
      exact Nat.lt_succ_of_lt (h.parent i hlt)
    · rw [added_new hdir]
      exact Nat.lt_succ_of_lt hdir

theorem stored_of_zero (h0 : 0 ∉ name) : stored name = name := by
  refine takeWhile_eq_self_iff.2 ?_
  intro byte hbyte
  refine decide_eq_true ?_
  rintro rfl
  exact h0 hbyte

theorem fits_makeDir (fs : RootFileSystem) (dir : Nat) (h0 : 0 ∉ name) : fs.Fits (.makeDir dir name) := by
  intro hnone
  rw [stored_of_zero h0]
  unfold FindEntry at hnone
  split at hnone
  · cases hnone
  · rename_i hdot
    split at hnone
    · cases hnone
    · rename_i hdotdot
      rw [List.find?_eq_none] at hnone
      unfold entryNames
      simp only [mem_cons, mem_map, not_or, not_exists, not_and]
      refine ⟨hdot, hdotdot, ?_⟩
      intro entry hentry heq
      exact hnone entry hentry (decide_eq_true heq)

theorem makeDir_of_none (hnone : fs.FindEntry dir name = none) :
    fs.MakeDir dir name = (.E_NO_ERROR, fs.added dir name) := by
  rw [MakeDir, hnone]
  rfl

theorem makeDir_of_some
    (hsome : fs.FindEntry dir name = some entry) : fs.MakeDir dir name = (.E_ENTRY_EXISTS, fs) := by
  rw [MakeDir, hsome]
  rfl

theorem findEntry_entry (fs : RootFileSystem) (dir : Nat) (hdot : name ≠ dot) (hdotdot : name ≠ dotdot) :
    fs.FindEntry dir name = (fs.nodes dir).fEntryList.find? fun entry => (fs.nodes entry).fName = name := by
  rw [FindEntry, if_neg hdot, if_neg hdotdot]

theorem Shape.find_added (h : fs.Shape) (hdir : dir < fs.next) (hi : i < fs.next)
    (name name' : Name) :
    (fs.nodes i).fEntryList.find? (fun entry => ((fs.added dir name).nodes entry).fName = name') =
      (fs.nodes i).fEntryList.find? fun entry => (fs.nodes entry).fName = name' := by
  refine List.find?_congr ?_
  intro entry hentry
  rw [added_old hdir name (h.entry i hi entry hentry).1]

theorem Shape.findEntry_added (h : fs.Shape) (hdir : dir < fs.next)
    (hi : i < fs.next) {name' : Name} (hfound : fs.FindEntry i name' = some e) :
    (fs.added dir name).FindEntry i name' = some e := by
  by_cases hdot : name' = dot
  · subst hdot
    exact hfound
  · by_cases hdotdot : name' = dotdot
    · subst hdotdot
      rw [FindEntry, if_neg hdot, if_pos rfl] at hfound ⊢
      rw [added_old hdir name hi]
      exact hfound
    · rw [findEntry_entry _ _ hdot hdotdot] at hfound ⊢
      rw [added_old hdir name hi]
      split
      · rw [List.find?_append, h.find_added hdir hi, hfound]
        rfl
      · rw [h.find_added hdir hi, hfound]

theorem Shape.findEntry_new (h : fs.Shape) (hdir : dir < fs.next)
    (h0 : 0 ∉ name) (hnone : fs.FindEntry dir name = none) : (fs.added dir name).FindEntry dir name = some fs.next := by
  have hdot : name ≠ dot := by
    rintro rfl
    cases hnone
  have hdotdot : name ≠ dotdot := by
    rintro rfl
    cases hnone
  rw [findEntry_entry _ _ hdot hdotdot] at hnone ⊢
  rw [added_dir hdir]
  rw [List.find?_append, h.find_added hdir hdir, hnone, List.find?_singleton, added_new hdir]
  simp [stored_of_zero h0]

/-- **MakeDir** -/
theorem Inv.makeDir (h : fs.Inv) (hdir : dir < fs.next)
    (hheld : 0 < (fs.nodes dir).held) (name : Name) :
    (fs.Fits (.makeDir dir name) → (fs.MakeDir dir name).2.Inv) ∧
    (¬ fs.Fits (.makeDir dir name) → ¬ (fs.MakeDir dir name).2.Right) := by
  have hlive := h.live hdir hheld
  unfold MakeDir Fits
  cases hentry : fs.FindEntry dir name with
  | some entry =>
    refine ⟨fun _ => h, fun hnot => absurd ?_ hnot⟩
    intro hnone
    rw [hentry] at hnone
    cases hnone
  | none =>
    change (_ → (fs.added dir name).Inv) ∧ (_ → ¬ (fs.added dir name).Right)
    constructor
    · intro hfits
      refine ⟨h.toShape.add hdir hlive (hfits hentry), ?_, ?_⟩
      · intro i hi hdel
        by_cases hnew : i = fs.next
        · rw [hnew, added_new hdir]
        · have hlt : i < fs.next := by
            have : i < fs.next + 1 := hi
            omega
          rw [added_old hdir name hlt] at hdel ⊢
          exact h.held i hlt hdel
      · intro i hi hdel
        by_cases hnew : i = fs.next
        · rw [hnew, added_new hdir]
          simp [toInt32]
        · have hlt : i < fs.next := by
            have : i < fs.next + 1 := hi
            omega
          rw [added_old hdir name hlt] at hdel ⊢
          exact h.counted i hlt hdel
    · intro hnot hright
      -- the name is there twice
      have htwice : stored name ∈ fs.entryNames dir := by
        by_contra hfresh
        exact hnot fun _ => hfresh
      have hnodup := hright.names dir (Nat.lt_succ_of_lt hdir) (by rw [added_dir hdir]; exact hlive)
      unfold entryNames at hnodup htwice
      rw [added_dir hdir] at hnodup
      have hnames : (fs.nodes dir).fEntryList.map (fun e => ((fs.added dir name).nodes e).fName) =
          (fs.nodes dir).fEntryList.map fun e => (fs.nodes e).fName := by
        refine map_congr_left ?_
        intro e he
        rw [added_old hdir name (h.entry dir hdir e he).1]
      rw [map_append, hnames, map_singleton, added_new hdir, ← cons_append, ← cons_append,
        nodup_append] at hnodup
      exact hnodup.2.2 _ htwice _ (mem_singleton_self _) rfl

section

variable (h : fs.Shape) (hn : n < fs.next) (hlinked : fs.Linked n) (hlive : (fs.nodes n).deleted = false)
include h hn hlinked hlive

theorem Shape.not_mem_erase (hdir : dir < fs.next) :
    n ∉ (fs.nodes dir).fEntryList.erase n := by
  intro hin
  have hne : n ≠ 0 := by
    rintro rfl
    exact h.root.2.2 hlinked
  obtain ⟨-, hcount, honly⟩ : fs.InParent n := (h.place n hn hne hlive).resolve_right fun hnone => hnone.2 hlinked
  have heq := honly dir hdir (mem_of_mem_erase hin)
  subst heq
  have hpos := count_pos_iff.2 hin
  rw [count_erase_self, hcount] at hpos
  exact absurd hpos (Nat.lt_irrefl 0)

theorem Shape.remove : ((fs.unlink n).MakeDead n).Shape := by
  have hnext : ((fs.unlink n).MakeDead n).next = fs.next := rfl
  have hname : ∀ i, (((fs.unlink n).MakeDead n).nodes i).fName = (fs.nodes i).fName :=
    fun i => (fs.unlink n).modify_keep RootDir.fName n i rfl
  have hparent : ∀ i, (((fs.unlink n).MakeDead n).nodes i).fParentDir = (fs.nodes i).fParentDir :=
    fun i => (fs.unlink n).modify_keep RootDir.fParentDir n i rfl
  have hdeleted : ∀ i, (((fs.unlink n).MakeDead n).nodes i).deleted = (fs.nodes i).deleted :=
    fun i => (fs.unlink n).modify_keep RootDir.deleted n i rfl
  have hlist : ∀ i, (((fs.unlink n).MakeDead n).nodes i).fEntryList = (fs.nodes i).fEntryList.erase n :=
    fun i => (fs.unlink n).modify_keep RootDir.fEntryList n i rfl
  have hdead : ∀ i, i ≠ n → (((fs.unlink n).MakeDead n).nodes i).fDead = (fs.nodes i).fDead := by
    intro i hi
    rw [MakeDead, modify_of_ne _ _ hi]
    rfl
  have hself : (((fs.unlink n).MakeDead n).nodes n).fDead = true := by
    rw [MakeDead, modify_self]
  have hout := fun dir (hdir : dir < fs.next) => h.not_mem_erase hn hlinked hlive hdir
  have hunlinked : ∀ i, ¬ fs.Linked i → ¬ ((fs.unlink n).MakeDead n).Linked i := by
    rintro i hi ⟨dir, hdir, hin⟩
    rw [hlist] at hin
    exact hi ⟨dir, hdir, mem_of_mem_erase hin⟩
  refine ⟨?_, ?_, ?_, ?_, ?_, ?_, ?_⟩
  · intro dir hdir hdel
    rw [hdeleted] at hdel
    simp only [entryNames, hlist, hname]
    refine (h.names dir hdir hdel).sublist ?_
    exact (List.Sublist.map _ erase_sublist).cons_cons _ |>.cons_cons _
  · intro i hi h0 hdel
    rw [hdeleted] at hdel
    by_cases hin : i = n
    · subst hin
      refine .inr ⟨hself, ?_⟩
      rintro ⟨dir, hdir, hin⟩
      rw [hlist] at hin
      exact hout dir hdir hin
    · rw [hdead i hin]
      refine (h.place i hi h0 hdel).imp ?_ fun hnone => ⟨hnone.1, hunlinked i hnone.2⟩
      rintro ⟨hplive, hcount, honly⟩
      unfold InParent
      simp only [hparent, hdeleted, hlist, hnext]
      refine ⟨hplive, ?_, fun dir hdir hmem => honly dir hdir (mem_of_mem_erase hmem)⟩
      rw [count_erase_of_ne hin, hcount]
  · intro i hi hdel
    rw [hdeleted] at hdel
    by_cases hin : i = n
    · rw [hin, hself]
    · rw [hdead i hin]
      exact h.dead i hi hdel
  · have hne : (0 : Nat) ≠ n := by
      rintro rfl
      exact h.root.2.2 hlinked
    rw [hdead 0 hne]
    exact ⟨h.root.1, h.root.2.1, hunlinked 0 h.root.2.2⟩
  · intro dir hdir e he
    rw [hlist] at he
    have hne : e ≠ n := by
      rintro rfl
      exact hout dir hdir he
    rw [hdead e hne, hparent]
    exact h.entry dir hdir e (mem_of_mem_erase he)
  · intro dir hdir hdel
    rw [hdeleted] at hdel
    rw [hlist, h.empty dir hdir hdel]
    rfl
  · intro i hi
    rw [hparent]
    exact h.parent i hi

end

theorem release_acquired (hcount : IsInt32 (fs.nodes n).fRefCount) :
    (fs.AcquireRef n).ReleaseRef n =
      if (fs.nodes n).fRefCount = 0 ∧ (fs.nodes n).fDead = true then fs.destroy fs.next n else fs := by
  have hback : ((fs.AcquireRef n).modify n fun node => { node with fRefCount := toInt32 (node.fRefCount - 1) }) = fs := by
    have hsame : toInt32 (toInt32 ((fs.nodes n).fRefCount + 1) - 1) = (fs.nodes n).fRefCount := by
      obtain ⟨h1, h2⟩ := hcount
      unfold toInt32
      omega
    rw [AcquireRef, modify_modify]
    refine fs.modify_eq_self n _ ?_
    rw [hsame]
  unfold ReleaseRef
  rw [hback]

theorem remove_acquired (fs : RootFileSystem) (n : Nat) :
    ((fs.AcquireRef n).unlink n).MakeDead n = ((fs.unlink n).MakeDead n).AcquireRef n := by
  unfold MakeDead AcquireRef unlink modify
  congr 1
  funext i
  by_cases hi : i = n
  · subst hi
    simp
  · simp [hi]

theorem Inv.isInt32 (h : fs.Inv) (hn : n < fs.next)
    (hlive : (fs.nodes n).deleted = false) : IsInt32 (fs.nodes n).fRefCount := by
  rw [h.counted n hn hlive]
  unfold IsInt32 toInt32
  omega

theorem Shape.findEntry_lt (h : fs.Shape) (hdir : dir < fs.next) (hentry : fs.FindEntry dir name = some entry) :
    entry < fs.next := by
  unfold FindEntry at hentry
  split at hentry
  · cases hentry
    exact hdir
  · split at hentry
    · cases hentry
      exact h.parent dir hdir
    · exact (h.entry dir hdir entry (List.mem_of_find?_eq_some hentry)).1

theorem Inv.remove_full (h : fs.Inv) (hn : n < fs.next)
    (hlive : (fs.nodes n).deleted = false) (hfull : (fs.nodes n).fEntryList ≠ []) :
    (¬ ((fs.nodes n).fRefCount = 0 ∧ (fs.nodes n).fDead = true) → ((fs.AcquireRef n).ReleaseRef n).Inv) ∧
    ((fs.nodes n).fRefCount = 0 ∧ (fs.nodes n).fDead = true → ¬ ((fs.AcquireRef n).ReleaseRef n).Right) := by
  rw [release_acquired (h.isInt32 hn hlive)]
  constructor
  · intro hnot
    rwa [if_neg hnot]
  · intro hlast
    rw [if_pos hlast]
    refine (h.toShape.destroy hn hlast.2 (fun i hi _ => h.held i hi) fun i hi _ => h.counted i hi).2 ?_
    exact fun hempty => hfull hempty.2

theorem Inv.remove_empty (h : fs.Inv) (hn : n < fs.next)
    (hlive : (fs.nodes n).deleted = false) (hempty : (fs.nodes n).fEntryList = []) (hlinked : fs.Linked n) :
    (((fs.nodes n).fRefCount = 0 → (fs.nodes n).held = 0) →
      ((((fs.AcquireRef n).unlink n).MakeDead n).ReleaseRef n).Inv) ∧
    (¬ ((fs.nodes n).fRefCount = 0 → (fs.nodes n).held = 0) →
      ¬ ((((fs.AcquireRef n).unlink n).MakeDead n).ReleaseRef n).Right) := by
  have hshape := h.toShape.remove hn hlinked hlive
  have hheld : ∀ i, (((fs.unlink n).MakeDead n).nodes i).held = (fs.nodes i).held :=
    fun i => (fs.unlink n).modify_keep RootDir.held n i rfl
  have hcount : ∀ i, (((fs.unlink n).MakeDead n).nodes i).fRefCount = (fs.nodes i).fRefCount :=
    fun i => (fs.unlink n).modify_keep RootDir.fRefCount n i rfl
  have hdeleted : ∀ i, (((fs.unlink n).MakeDead n).nodes i).deleted = (fs.nodes i).deleted :=
    fun i => (fs.unlink n).modify_keep RootDir.deleted n i rfl
  have hlist : (((fs.unlink n).MakeDead n).nodes n).fEntryList = [] := by
    have hsame : (((fs.unlink n).MakeDead n).nodes n).fEntryList = (fs.nodes n).fEntryList.erase n :=
      (fs.unlink n).modify_keep RootDir.fEntryList n n rfl
    rw [hsame, hempty]
    rfl
  have hdead : (((fs.unlink n).MakeDead n).nodes n).fDead = true := by
    rw [MakeDead, modify_self]
  have hheld₁ : ∀ i < ((fs.unlink n).MakeDead n).next, (((fs.unlink n).MakeDead n).nodes i).deleted = true →
      (((fs.unlink n).MakeDead n).nodes i).held = 0 := by
    intro i hi hdel
    rw [hdeleted] at hdel
    rw [hheld]
    exact h.held i hi hdel
  have hcounted₁ : ∀ i < ((fs.unlink n).MakeDead n).next, (((fs.unlink n).MakeDead n).nodes i).deleted = false →
      (((fs.unlink n).MakeDead n).nodes i).fRefCount = toInt32 (((fs.unlink n).MakeDead n).nodes i).held := by
    intro i hi hdel
    rw [hdeleted] at hdel
    rw [hheld, hcount]
    exact h.counted i hi hdel
  have hint : IsInt32 (((fs.unlink n).MakeDead n).nodes n).fRefCount := by
    rw [hcount]
    exact h.isInt32 hn hlive
  obtain ⟨hgood, hbad⟩ := hshape.destroy hn hdead (fun i hi _ => hheld₁ i hi) fun i hi _ => hcounted₁ i hi
  rw [hheld] at hgood hbad
  rw [remove_acquired, release_acquired hint, hcount]
  constructor
  · intro hfits
    by_cases hlast : (fs.nodes n).fRefCount = 0 ∧ (((fs.unlink n).MakeDead n).nodes n).fDead = true
    · rw [if_pos hlast]
      exact hgood ⟨hfits hlast.1, hlist⟩
    · rw [if_neg hlast]
      exact ⟨hshape, hheld₁, hcounted₁⟩
  · intro hnot
    by_cases hzero : (fs.nodes n).fRefCount = 0
    · rw [if_pos ⟨hzero, hdead⟩]
      exact hbad fun hnone => hnot fun _ => hnone.1
    · exact absurd (fun h0 => absurd h0 hzero) hnot

/-- **RemoveDir** -/
theorem Inv.removeDir (h : fs.Inv) (hdir : dir < fs.next) (name : Name) :
    (fs.Fits (.removeDir dir name) → ∃ r, fs.RemoveDir dir name = some r ∧ r.2.Inv) ∧
    (¬ fs.Fits (.removeDir dir name) → ∀ r, fs.RemoveDir dir name = some r → ¬ r.2.Right) := by
  change ((∀ entry ∈ fs.FindEntry dir name, fs.Removable entry) → _) ∧ (¬ (∀ entry ∈ _, fs.Removable entry) → _)
  unfold RemoveDir
  cases hentry : fs.FindEntry dir name with
  | none =>
    refine ⟨fun _ => ⟨_, rfl, h⟩, fun hnot => absurd ?_ hnot⟩
    rintro entry ⟨⟩
  | some entry =>
    have hlt := h.findEntry_lt hdir hentry
    have hlist : ((fs.AcquireRef entry).nodes entry).fEntryList = (fs.nodes entry).fEntryList :=
      fs.modify_keep RootDir.fEntryList entry entry rfl
    have hlinked : (fs.AcquireRef entry).Linked entry ↔ fs.Linked entry := by
      have hlists : ∀ i, ((fs.AcquireRef entry).nodes i).fEntryList = (fs.nodes i).fEntryList :=
        fun i => fs.modify_keep RootDir.fEntryList entry i rfl
      unfold Linked
      simp only [hlists]
      rfl
    have hone : (∀ e ∈ some entry, fs.Removable e) ↔ fs.Removable entry := by simp
    rw [hone, Removable]
    dsimp only
    rw [hlist]
    cases hdel : (fs.nodes entry).deleted with
    | true =>
      refine ⟨fun hfits => absurd hfits.1 (by decide), fun _ r hr => ?_⟩
      cases hr
    | false =>
      rw [if_neg Bool.false_ne_true]
      by_cases hempty : (fs.nodes entry).fEntryList = []
      · rw [if_pos hempty, if_neg (not_not.2 hempty), RemoveFromList]
        by_cases hin : fs.Linked entry
        · obtain ⟨hgood, hbad⟩ := h.remove_empty hlt hdel hempty hin
          rw [if_pos (hlinked.2 hin)]
          refine ⟨fun hfits => ⟨_, rfl, hgood hfits.2.2⟩, fun hnot r hr => ?_⟩
          cases hr
          exact hbad fun hfits => hnot ⟨rfl, hin, hfits⟩
        · rw [if_neg (mt hlinked.1 hin)]
          refine ⟨fun hfits => absurd hfits.2.1 hin, fun _ r hr => ?_⟩
          cases hr
      · obtain ⟨hgood, hbad⟩ := h.remove_full hlt hdel hempty
        rw [if_neg hempty, if_pos hempty]
        refine ⟨fun hfits => ⟨_, rfl, hgood hfits.2⟩, fun hnot r hr => ?_⟩
        cases hr
        refine hbad ?_
        by_contra hlast
        exact hnot ⟨rfl, hlast⟩

/-! ## Runs -/

/-- **One call**: it leaves everything right, or has no result, exactly as it fits. -/
theorem Inv.call (h : fs.Inv) {call : Call} (hcall : call.Enabled fs) :
    (fs.Fits call → ∃ fs', call.run fs = some fs' ∧ fs'.Inv) ∧
    (¬ fs.Fits call → ∀ fs', call.run fs = some fs' → ¬ fs'.Right) := by
  cases call with
  | getRootNode => exact ⟨fun _ => h.getRootNode, fun hnot => absurd trivial hnot⟩
  | makeDir dir name =>
    obtain ⟨hgood, hbad⟩ := h.makeDir hcall.1 hcall.2 name
    refine ⟨fun hfits => ⟨_, rfl, hgood hfits⟩, fun hnot fs' hrun => ?_⟩
    cases hrun
    exact hbad hnot
  | removeDir dir name =>
    obtain ⟨hgood, hbad⟩ := h.removeDir hcall.1 name
    constructor
    · intro hfits
      obtain ⟨r, hr, hinv⟩ := hgood hfits
      exact ⟨r.2, by rw [Call.run, hr]; rfl, hinv⟩
    · intro hnot fs' hrun
      obtain ⟨r, hr, rfl⟩ := Option.map_eq_some_iff.1 hrun
      exact hbad hnot r hr
  | lookup dir name =>
    obtain ⟨hgood, hbad⟩ := h.lookup hcall.1 hcall.2 name
    constructor
    · intro hfits
      obtain ⟨r, hr, hinv⟩ := hgood hfits
      exact ⟨r.2, by rw [Call.run, hr]; rfl, hinv⟩
    · intro hnot fs' hrun
      rw [Call.run, hbad hnot] at hrun
      cases hrun
  | releaseRef dir =>
    obtain ⟨hgood, hbad⟩ := h.releaseRef hcall.1 hcall.2
    refine ⟨fun hfits => ⟨_, rfl, hgood hfits⟩, fun hnot fs' hrun => ?_⟩
    cases hrun
    exact hbad hnot

theorem step_eq (fs : RootFileSystem) (call : Call) :
    system.step fs call = if call.Enabled fs then call.run fs else none := rfl

theorem inv_start : start.Inv where
  names dir hdir _ := by
    simp [entryNames, start, dot, dotdot]
  place n hn h0 := by
    have : n < 1 := hn
    omega
  dead n hn hdel := by cases hdel
  root := by
    refine ⟨Nat.zero_lt_one, rfl, ?_⟩
    rintro ⟨dir, hdir, hin⟩
    cases hin
  entry dir hdir e he := by cases he
  empty dir hdir _ := rfl
  parent n hn := Nat.zero_lt_one
  held n hn hdel := by cases hdel
  counted n hn _ := by
    simp [start, toInt32]

theorem inv_of_run (hrun : system.ReachVia Fits fs) : fs.Inv := by
  refine hrun.invariant Inv ?_ ?_
  · rintro fs rfl
    exact inv_start
  · intro fs call fs' h hfits hs
    rw [step_eq] at hs
    split at hs
    · rename_i hcall
      obtain ⟨fs'', hrun', hinv⟩ := (h.call hcall).1 hfits
      rw [hs] at hrun'
      cases hrun'
      exact hinv
    · cases hs

/-- **Every run whose calls fit** keeps the tree right: distinct names, each directory in its place, and none deleted
that is alive or referred to. From there a call of somebody who has a reference finds no deleted directory and keeps
the tree right if and only if it fits. -/
theorem tree_right {fs : RootFileSystem} (hrun : system.ReachVia Fits fs) : fs.Right ∧
    ∀ call : Call, call.Enabled fs → ((∃ fs', system.step fs call = some fs' ∧ fs'.Right) ↔ fs.Fits call) := by
  have hinv := inv_of_run hrun
  refine ⟨hinv.right, ?_⟩
  intro call hcall
  obtain ⟨hgood, hbad⟩ := hinv.call hcall
  rw [step_eq, if_pos hcall]
  constructor
  · rintro ⟨fs', hrun', hright⟩
    by_contra hnot
    exact hbad hnot fs' hrun' hright
  · intro hfits
    obtain ⟨fs', hrun', hinv'⟩ := hgood hfits
    exact ⟨fs', hrun', hinv'.right⟩

def nameA : Name := [0x61]

/-- `a` and `a/a`, both referred to; both are removed, the inner one first, and the outer one is released. -/
def removed : List Call :=
  [.getRootNode, .makeDir 0 nameA, .lookup 0 nameA, .makeDir 1 nameA, .lookup 1 nameA, .removeDir 1 nameA,
    .removeDir 0 nameA, .releaseRef 1]

theorem tree_right_removed : ∃ fs, system.exec start removed = some fs ∧ fs.Right ∧ (fs.nodes 1).deleted = true ∧
    ∃ fs', system.step fs (.releaseRef 2) = some fs' ∧ fs'.Right := by
  have hrun : (system.exec start removed).map (fun fs => decide ((fs.nodes 1).deleted = true ∧
      Call.Enabled fs (.releaseRef 2) ∧ fs.Fits (.releaseRef 2))) = some true := by
    decide +kernel
  obtain ⟨fs, hs, hfacts⟩ := Option.map_eq_some_iff.1 hrun
  obtain ⟨hdel, hcall, hfits⟩ := of_decide_eq_true hfacts
  have hmeets : system.Meets Fits start removed := by decide +kernel
  obtain ⟨hright, hiff⟩ := tree_right (StepSystem.reachVia_exec removed (.init rfl) hmeets hs)
  exact ⟨fs, hs, hright, hdel, (hiff _ hcall).2 hfits⟩

/-- The inner one is still referred to, and its `..` is deleted. -/
theorem lookup_deleted : ¬ ∀ fs, system.Reach fs → fs.Right ∧ ∀ dir name, (Call.lookup dir name).Enabled fs →
    ∀ entry ∈ fs.FindEntry dir name, (fs.nodes entry).deleted = false := by
  intro h
  have hrun : (system.exec start removed).map (fun fs => decide (Call.Enabled fs (.lookup 2 dotdot) ∧
      fs.FindEntry 2 dotdot = some 1 ∧ (fs.nodes 1).deleted = true)) = some true := by
    decide +kernel
  obtain ⟨fs, hs, hfacts⟩ := Option.map_eq_some_iff.1 hrun
  obtain ⟨hcall, hentry, hdel⟩ := of_decide_eq_true hfacts
  have hlive := (h fs (StepSystem.reach_exec removed (.init rfl) hs)).2 2 dotdot hcall 1 hentry
  rw [hlive] at hdel
  cases hdel

/-! ## Ages -/

/-- The root is its own parent, and every other directory is younger than its parent. -/
structure Older (fs : RootFileSystem) : Prop where
  root : (fs.nodes 0).fParentDir = 0
  parent : ∀ n < fs.next, n ≠ 0 → (fs.nodes n).fParentDir < n

structure SameParents (fs fs' : RootFileSystem) : Prop where
  next : fs'.next = fs.next
  parent : ∀ i, (fs'.nodes i).fParentDir = (fs.nodes i).fParentDir

theorem SameParents.refl (fs : RootFileSystem) : SameParents fs fs := ⟨rfl, fun _ => rfl⟩

theorem SameParents.trans {fs₁ : RootFileSystem} (h : SameParents fs fs₁) (h' : SameParents fs₁ fs') :
    SameParents fs fs' :=
  ⟨h'.next.trans h.next, fun i => (h'.parent i).trans (h.parent i)⟩

theorem SameParents.older (h : SameParents fs fs') (hold : fs.Older) : fs'.Older := by
  refine ⟨by rw [h.parent, hold.root], ?_⟩
  intro n hn hne
  rw [h.next] at hn
  rw [h.parent]
  exact hold.parent n hn hne

theorem sameParents_modify (fs : RootFileSystem) (n : Nat) {f : RootDir → RootDir}
    (hf : (f (fs.nodes n)).fParentDir = (fs.nodes n).fParentDir) : SameParents fs (fs.modify n f) :=
  ⟨rfl, fun i => fs.modify_keep RootDir.fParentDir n i hf⟩

theorem sameParents_destroy (depth : Nat) : ∀ (fs : RootFileSystem) (n : Nat), SameParents fs (fs.destroy depth n) := by
  induction depth with
  | zero => exact fun fs n => fs.sameParents_modify n rfl
  | succ depth ih =>
    intro fs n
    have hentries : ∀ (entries : List Nat) (fs : RootFileSystem), SameParents fs (entries.foldl (destroy depth) fs) := by
      intro entries
      induction entries with
      | nil => exact fun fs => .refl fs
      | cons e entries ihe => exact fun fs => (ih fs e).trans (ihe _)
    exact ((fs.sameParents_modify n rfl).trans (hentries _ _)).trans (sameParents_modify _ n rfl)

theorem sameParents_ReleaseRef (fs : RootFileSystem) (n : Nat) : SameParents fs (fs.ReleaseRef n) := by
  have hcount := fs.sameParents_modify n (f := fun node => { node with fRefCount := toInt32 (node.fRefCount - 1) }) rfl
  unfold ReleaseRef
  dsimp only
  split
  · exact hcount.trans (sameParents_destroy _ _ n)
  · exact hcount

theorem sameParents_RemoveDir {fs : RootFileSystem} {dir : Nat} {name : Name} {r : Status × RootFileSystem}
    (h : fs.RemoveDir dir name = some r) : SameParents fs r.2 := by
  unfold RemoveDir at h
  split at h
  · cases h
    exact .refl fs
  · rename_i entry _
    have hacquire : SameParents fs (fs.AcquireRef entry) := fs.sameParents_modify entry rfl
    split at h
    · cases h
    · dsimp only at h
      split at h
      · cases h
        exact hacquire.trans (sameParents_ReleaseRef _ entry)
      · obtain ⟨fs', hremoved, rfl⟩ := Option.map_eq_some_iff.1 h
        have hunlink : SameParents (fs.AcquireRef entry) fs' := by
          unfold RemoveFromList at hremoved
          split at hremoved
          · cases hremoved
            exact ⟨rfl, fun _ => rfl⟩
          · cases hremoved
        exact ((hacquire.trans hunlink).trans (sameParents_modify fs' entry rfl)).trans (sameParents_ReleaseRef _ entry)

theorem Older.added {fs : RootFileSystem} (h : fs.Older) {dir : Nat} (hdir : dir < fs.next) (name : Name) :
    (fs.added dir name).Older := by
  constructor
  · rw [added_old hdir name (by omega)]
    exact h.root
  · intro n hn hne
    rcases Nat.lt_succ_iff_lt_or_eq.1 hn with hlt | rfl
    · rw [added_old hdir name hlt]
      exact h.parent n hlt hne
    · rw [added_new hdir]
      exact hdir

theorem Older.call {fs fs' : RootFileSystem} (h : fs.Older) {call : Call} (hcall : call.Enabled fs)
    (hrun : call.run fs = some fs') : fs'.Older := by
  have hhold : ∀ fs n d, SameParents fs (hold fs n d) := fun fs n d => fs.sameParents_modify n rfl
  cases call with
  | getRootNode =>
    rw [Call.run, GetRootNode] at hrun
    split at hrun
    · cases hrun
    · cases hrun
      exact ((fs.sameParents_modify 0 rfl).trans (hhold _ 0 1)).older h
  | makeDir dir name =>
    cases hrun
    cases hfound : fs.FindEntry dir name with
    | none =>
      rw [makeDir_of_none hfound]
      exact h.added hcall.1 name
    | some entry =>
      rw [makeDir_of_some hfound]
      exact h
  | removeDir dir name =>
    obtain ⟨r, hr, rfl⟩ := Option.map_eq_some_iff.1 hrun
    exact (sameParents_RemoveDir hr).older h
  | lookup dir name =>
    obtain ⟨r, hr, rfl⟩ := Option.map_eq_some_iff.1 hrun
    unfold Lookup at hr
    split at hr
    · split at hr
      · cases hr
      · cases hr
        exact ((fs.sameParents_modify _ rfl).trans (hhold _ _ 1)).older h
    · cases hr
      exact h
  | releaseRef dir =>
    cases hrun
    exact ((hhold fs dir (-1)).trans (sameParents_ReleaseRef _ dir)).older h

/-- **Every run** -/
theorem older_of_reach {fs : RootFileSystem} (h : system.Reach fs) : fs.Older := by
  refine h.invariant Older ?_ ?_
  · rintro fs rfl
    refine ⟨rfl, fun n hn hne => ?_⟩
    have : n < 1 := hn
    omega
  · intro fs call fs' hold hs
    rw [step_eq] at hs
    split at hs
    · rename_i hcall
      exact hold.call hcall hs
    · cases hs

/-- **No directory is in a cycle**: in every reachable state, `..` after `..` comes from any directory to the root. -/
theorem climbs_to_root {fs : RootFileSystem} (h : system.Reach fs) {n : Nat} (hn : n < fs.next) :
    ∃ k ≤ n, (fun i => (fs.nodes i).fParentDir)^[k] n = 0 := by
  have hold := older_of_reach h
  induction n using Nat.strong_induction_on with
  | _ n ih =>
    by_cases hne : n = 0
    · exact ⟨0, Nat.zero_le n, hne⟩
    · have hlt := hold.parent n hn hne
      obtain ⟨k, hk, hroot⟩ := ih _ hlt (by omega)
      exact ⟨k + 1, by omega, hroot⟩

theorem climbs_to_root_removed : ∃ fs, system.exec start removed = some fs ∧
    ∃ k ≤ 2, (fun i => (fs.nodes i).fParentDir)^[k] 2 = 0 := by
  have hrun : (system.exec start removed).map (fun fs => decide (2 < fs.next)) = some true := by decide +kernel
  obtain ⟨fs, hs, hn⟩ := Option.map_eq_some_iff.1 hrun
  exact ⟨fs, hs, climbs_to_root (StepSystem.reach_exec removed (.init rfl) hs) (of_decide_eq_true hn)⟩

end RootFileSystem

end RootFs
