import SkyOS.Vfs.WalkPath
import SkyOS.Lib.StepSystem

/-!
# The root node of a mounted FAT volume

`new FatNode` starts with no reference, `GetRootNode` of the FAT file system hands the root out without taking one, and
`mount` takes one on the node that it covers only. So the first holder that comes and goes takes the root with it:
`ReleaseRef` finds no reference left, `Inactive` deletes the node, and `fRootNode` points to it still.

| here | there |
| --- | --- |
| `Walkers.held` | the nodes that walks have returned, not yet released |
| `visited` | the nodes that a walk stands on |
| `Rooted` | the root has a reference, or it is gone |
-/

namespace Vfs

open List

/-- A call of `WalkPath`, with what its lookups return. -/
structure Walk (N : Type) where
  lookup : Nat → N → Name → Option N
  currentDir : Option N
  path : List Char
  pathLength : Nat

inductive Call (N : Type) where
  | walk (w : Walk N)
  | release (n : N)

structure Walkers (N : Type) where
  refs : Refs N
  held : List N

variable {N F : Type} [DecidableEq N]

namespace Mounts

variable (m : Mounts N F)

def call (s : Walkers N) : Call N → Option (Walkers N)
  | .walk w =>
    match m.walkPath w.lookup w.currentDir w.path w.pathLength s.refs with
    | (refs, some n) => some { refs, held := n :: s.held }
    | (_, none) => none
  | .release n => if n ∈ s.held then some { refs := m.releaseRef s.refs n, held := s.held.erase n } else none

def walkers (refs : Refs N) : StepSystem (Walkers N) (Call N) where
  init s := s = { refs, held := [] }
  step := m.call

/-- The nodes that a walk stands on after `currentNode`. -/
def visited (lookup : Nat → N → Name → Option N) : Nat → N → List Name → List N
  | _, _, [] => []
  | i, currentNode, name :: names =>
    m.parentSide currentNode name ::
      match lookup i (m.parentSide currentNode name) name with
      | none => []
      | some nextNode => nextNode :: m.entered nextNode :: visited lookup (i + 1) (m.entered nextNode) names

def visits (w : Walk N) : List N :=
  m.startNode w.currentDir w.path ::
    m.visited w.lookup 0 (m.startNode w.currentDir w.path) (components w.pathLength (w.path.take w.pathLength))

/-! ## One release -/

/-- `n` has a reference, or it is gone. -/
def Rooted (refs : Refs N) (n : N) : Prop := 0 < refs.count n ∨ refs.deleted n = true

variable {m}

variable {refs : Refs N} {r cur next : N} {k : Int}

variable {n : N}

theorem deleted_releaseRef (h : n = r → 1 < refs.count r) :
    (m.releaseRef refs n).deleted r = refs.deleted r := by
  unfold releaseRef
  by_cases hn : n = r
  · subst hn
    have hcount := h rfl
    rw [if_neg (by omega)]
  · split
    · exact Function.update_of_ne (Ne.symm hn) _ _
    · rfl

theorem rooted_of_count (h0 : 0 ≤ k) (hcount : refs.count r = k + own cur r)
    (hcur : r = cur) : Rooted refs r := by
  subst hcur
  rw [own_self] at hcount
  exact .inl (by omega)

theorem Rooted.acquireRef (h : Rooted refs r) (n : N) : Rooted (refs.acquireRef n) r := by
  rcases h with hcount | hgone
  · refine .inl ?_
    have := own_nonneg n r
    rw [count_acquireRef]
    omega
  · exact .inr hgone

theorem Rooted.getRootNode (h : Rooted refs r) (fs : F) :
    Rooted (m.getRootNode refs fs).1 r := by
  unfold Mounts.getRootNode
  split
  · exact h.acquireRef _
  · exact h

/-- With a reference of somebody else on `r`, to enter a mounted file system does not delete it. -/
theorem deleted_enter
    (hcount : refs.count r = k + own next r) (hk : next = r → 0 < k) :
    (m.enter refs next).1.deleted r = refs.deleted r := by
  unfold enter
  cases m.coveredBy next with
  | none => rfl
  | some fs =>
    have hget := m.count_getRootNode refs fs r
    have hown := own_nonneg (m.getRootNode refs fs).2 r
    rw [deleted_releaseRef, deleted_acquireRef, deleted_getRootNode]
    rintro rfl
    have := hk rfl
    rw [own_self] at hcount
    rw [count_acquireRef]
    omega

section

variable {vol : F} (hfat : m.kind vol = .fat)
include hfat

theorem Rooted.releaseRef (h : Rooted refs (m.root vol)) (n : N) :
    Rooted (m.releaseRef refs n) (m.root vol) := by
  have hinactive : m.deletesInactive (m.root vol) = true := by
    simp [deletesInactive, m.fileSystem_root, hfat]
  rcases h with hcount | hgone
  · by_cases hn : n = m.root vol
    · subst hn
      by_cases hlast : refs.count (m.root vol) - 1 = 0
      · refine .inr ?_
        unfold Mounts.releaseRef
        dsimp only
        rw [if_pos ⟨hlast, hinactive⟩, Function.update_self]
      · refine .inl ?_
        rw [count_releaseRef, own_self]
        omega
    · refine .inl ?_
      have hown : own n (m.root vol) = 0 := if_neg (Ne.symm hn)
      rw [count_releaseRef, hown]
      omega
  · refine .inr ?_
    unfold Mounts.releaseRef
    dsimp only
    split
    · by_cases hn : n = m.root vol
      · subst hn
        exact Function.update_self ..
      · rw [Function.update_of_ne (Ne.symm hn)]
        exact hgone
    · exact hgone

theorem count_taken {taken : List N} (h : ∀ n ∈ taken, ∃ fs, m.acquires fs = true ∧ n = m.root fs) :
    (taken.count (m.root vol) : Int) = 0 := by
  have hnot : m.root vol ∉ taken := by
    intro hmem
    obtain ⟨fs, hacquires, hroot⟩ := h _ hmem
    have hfs : vol = fs := by rw [← m.fileSystem_root vol, hroot, m.fileSystem_root]
    subst hfs
    simp [acquires, hfat] at hacquires
  rw [count_eq_zero_of_not_mem hnot]
  rfl

/-! ## One component -/

theorem count_leaveRoot_root (refs : Refs N) (cur : N) (name : Name) :
    (m.leaveRoot refs cur name).1.count (m.root vol) + own cur (m.root vol)
      = refs.count (m.root vol) + own (m.parentSide cur name) (m.root vol) := by
  have hcount := m.count_leaveRoot refs cur name (m.root vol)
  have htaken := count_taken hfat (m.of_mem_leaveTaken cur name)
  omega

theorem rooted_leaveRoot (h : Rooted refs (m.root vol)) (cur : N) (name : Name) :
    Rooted (m.leaveRoot refs cur name).1 (m.root vol) := by
  unfold leaveRoot
  split
  · cases m.covers (m.fileSystem cur) with
    | none => exact h.getRootNode _
    | some prev =>
      dsimp only
      split
      · exact ((h.getRootNode _).releaseRef hfat _).acquireRef _
      · exact h.getRootNode _
  · exact h

theorem rooted_enter (h : Rooted refs (m.root vol)) (next : N) :
    Rooted (m.enter refs next).1 (m.root vol) := by
  unfold enter
  cases m.coveredBy next with
  | none => exact h
  | some fs => exact ((h.getRootNode fs).acquireRef _).releaseRef hfat _

theorem deleted_leaveRoot (name : Name)
    (hcount : refs.count (m.root vol) = k + own cur (m.root vol)) (hk : cur = m.root vol → 0 < k) :
    (m.leaveRoot refs cur name).1.deleted (m.root vol) = refs.deleted (m.root vol) := by
  have hget : (m.getRootNode refs (m.fileSystem cur)).1.count (m.root vol) = refs.count (m.root vol) := by
    rw [count_getRootNode, count_taken hfat fun n => m.of_mem_rootTaken]
    omega
  unfold leaveRoot
  split
  · cases m.covers (m.fileSystem cur) with
    | none => exact congrFun (m.deleted_getRootNode _ _) _
    | some prev =>
      dsimp only
      split
      · rw [deleted_acquireRef, deleted_releaseRef, deleted_getRootNode]
        rintro rfl
        have := hk rfl
        rw [own_self] at hcount
        omega
      · exact congrFun (m.deleted_getRootNode _ _) _
  · rfl

theorem count_swap (hcount : refs.count (m.root vol) = k + own cur (m.root vol))
    (name : Name) (next : N) :
    (m.releaseRef ((m.leaveRoot refs cur name).1.acquireRef next) (m.parentSide cur name)).count (m.root vol)
      = k + own next (m.root vol) := by
  have hleave := count_leaveRoot_root hfat refs cur name
  simp only [count_releaseRef, count_acquireRef]
  omega

theorem count_roundRefs_root
    (hcount : refs.count (m.root vol) = k + own cur (m.root vol)) (name : Name) (next : N) :
    (m.roundRefs refs cur name next).count (m.root vol) = k + own (m.entered next) (m.root vol) := by
  have hround := m.count_roundRefs refs cur name next (m.root vol)
  rw [count_taken hfat (m.of_mem_leaveTaken cur name), count_taken hfat (m.of_mem_enterTaken next)] at hround
  omega

variable {name : Name}

/-- With a reference of somebody else on it, a round does not delete the root. -/
theorem deleted_roundRefs
    (hcount : refs.count (m.root vol) = k + own cur (m.root vol))
    (hk : m.root vol ∈ [cur, m.parentSide cur name, next] → 0 < k) :
    (m.roundRefs refs cur name next).deleted (m.root vol) = refs.deleted (m.root vol) := by
  have hleave := count_leaveRoot_root hfat refs cur name
  have hdelLeave := deleted_leaveRoot hfat name hcount fun h => hk (by simp [h])
  have hdelEnter := deleted_enter (m := m) (count_swap hfat hcount name next) fun h => hk (by simp [h])
  have hdelSwap : (m.releaseRef ((m.leaveRoot refs cur name).1.acquireRef next) (m.parentSide cur name)).deleted
      (m.root vol) = (m.leaveRoot refs cur name).1.deleted (m.root vol) := by
    rw [deleted_releaseRef, deleted_acquireRef]
    intro hhere
    have hpos := hk (by simp [hhere])
    have hown := own_nonneg next (m.root vol)
    rw [hhere, own_self] at hleave
    rw [count_acquireRef]
    omega
  rw [roundRefs, hdelEnter, hdelSwap, hdelLeave]

/-- A round that stands on the root, or finds it, leaves it with a reference, or gone. -/
theorem rooted_roundRefs (h0 : 0 ≤ k)
    (hcount : refs.count (m.root vol) = k + own cur (m.root vol))
    (h : Rooted refs (m.root vol) ∨ m.root vol ∈ [m.parentSide cur name, next, m.entered next]) :
    Rooted (m.roundRefs refs cur name next) (m.root vol) := by
  have hleave := count_leaveRoot_root hfat refs cur name
  have hhere := rooted_of_count h0
    (by omega : (m.leaveRoot refs cur name).1.count (m.root vol) = k + own (m.parentSide cur name) (m.root vol))
  have hnext := rooted_of_count h0 (count_swap hfat hcount name next)
  have hlast := rooted_of_count h0 (count_roundRefs_root hfat hcount name next)
  have hswap : Rooted (m.leaveRoot refs cur name).1 (m.root vol) →
      Rooted (m.releaseRef ((m.leaveRoot refs cur name).1.acquireRef next) (m.parentSide cur name)) (m.root vol) :=
    fun h => (h.acquireRef next).releaseRef hfat _
  simp only [mem_cons, not_mem_nil, or_false] at h
  rcases h with h | h | h | h
  · exact rooted_enter hfat (hswap (rooted_leaveRoot hfat h cur name)) next
  · exact rooted_enter hfat (hswap (hhere h)) next
  · exact rooted_enter hfat (hnext h) next
  · exact hlast h

/-! ## A walk -/

/-- Unless the walk stands on the root while nobody else holds a reference on it, the root is not deleted. -/
theorem deleted_walkComponents (lookup : Nat → N → Name → Option N) :
    ∀ (names : List Name) (i : Nat) (refs : Refs N) (cur : N), refs.count (m.root vol) = k + own cur (m.root vol) →
      (m.root vol ∈ cur :: m.visited lookup i cur names → 0 < k) →
      (m.walkComponents lookup i names refs cur).1.deleted (m.root vol) = refs.deleted (m.root vol) := by
  intro names
  induction names with
  | nil =>
    intro i refs cur _ _
    rfl
  | cons name names ih =>
    intro i refs cur hcount hk
    cases hfound : lookup i (m.parentSide cur name) name with
    | none =>
      rw [m.walkComponents_none hfound]
      exact deleted_leaveRoot hfat name hcount fun h => hk (by simp [h])
    | some next =>
      simp only [visited, hfound] at hk
      have hround : (m.roundRefs refs cur name next).deleted (m.root vol) = refs.deleted (m.root vol) := by
        refine deleted_roundRefs hfat hcount fun hmem => hk ?_
        simp only [mem_cons, not_mem_nil, or_false] at hmem ⊢
        tauto
      rw [m.walkComponents_some hfound, ih _ _ _ (count_roundRefs_root hfat hcount name next), hround]
      intro hmem
      exact hk (.tail _ (.tail _ (.tail _ hmem)))

/-- A walk that stands on the root leaves it with a reference, or gone. -/
theorem rooted_walkComponents (lookup : Nat → N → Name → Option N) (h0 : 0 ≤ k) :
    ∀ (names : List Name) (i : Nat) (refs : Refs N) (cur : N), refs.count (m.root vol) = k + own cur (m.root vol) →
      Rooted refs (m.root vol) ∨ m.root vol ∈ m.visited lookup i cur names →
      Rooted (m.walkComponents lookup i names refs cur).1 (m.root vol) := by
  intro names
  induction names with
  | nil =>
    rintro i refs cur _ (h | h)
    · exact h
    · cases h
  | cons name names ih =>
    intro i refs cur hcount hvisited
    cases hfound : lookup i (m.parentSide cur name) name with
    | none =>
      have hleave := count_leaveRoot_root hfat refs cur name
      simp only [visited, hfound, mem_singleton] at hvisited
      rw [m.walkComponents_none hfound]
      rcases hvisited with h | h
      · exact rooted_leaveRoot hfat h cur name
      · exact rooted_of_count h0
          (by omega : (m.leaveRoot refs cur name).1.count _ = k + own (m.parentSide cur name) (m.root vol)) h
    | some next =>
      simp only [visited, hfound, mem_cons] at hvisited
      rw [m.walkComponents_some hfound]
      refine ih _ _ _ (count_roundRefs_root hfat hcount name next) ?_
      rcases hvisited with h | h | h | h | h
      · exact .inl (rooted_roundRefs hfat h0 hcount (.inl h))
      · exact .inl (rooted_roundRefs hfat h0 hcount (.inr (by simp [h])))
      · exact .inl (rooted_roundRefs hfat h0 hcount (.inr (by simp [h])))
      · exact .inl (rooted_roundRefs hfat h0 hcount (.inr (by simp [h])))
      · exact .inr h

omit hfat in
theorem walkComponents_last (lookup : Nat → N → Name → Option N) :
    ∀ (names : List Name) (i : Nat) (refs : Refs N) (cur : N),
      (m.walkComponents lookup i names refs cur).2.1 ∈ cur :: m.visited lookup i cur names := by
  intro names
  induction names with
  | nil =>
    intro i refs cur
    exact mem_singleton.2 rfl
  | cons name names ih =>
    intro i refs cur
    cases hfound : lookup i (m.parentSide cur name) name with
    | none =>
      rw [m.walkComponents_none hfound]
      simp [visited]
    | some next =>
      have hlast := ih (i + 1) (m.roundRefs refs cur name next) (m.entered next)
      rw [m.walkComponents_some hfound]
      simp only [visited, hfound]
      exact .tail _ (.tail _ (.tail _ hlast))

/-- What a walk does to the root: the reference on the node that it returns, and if the walk stood on the root, the
root is not without a reference unless it is gone. -/
theorem walkPath_root (w : Walk N) {refs' : Refs N} (h0 : 0 ≤ k)
    (hcount : refs.count (m.root vol) = k)
    (hwalk : m.walkPath w.lookup w.currentDir w.path w.pathLength refs = (refs', some n)) :
    n ∈ m.visits w ∧ refs'.count (m.root vol) = k + own n (m.root vol) ∧
      ((m.root vol ∈ m.visits w → 0 < k) → refs'.deleted (m.root vol) = refs.deleted (m.root vol)) ∧
      (Rooted refs (m.root vol) ∨ m.root vol ∈ m.visits w → Rooted refs' (m.root vol)) := by
  obtain ⟨refs1, taken0, hout, hcount0, hdel0, htaken0, _⟩ :=
    m.walkPath_start w.lookup w.currentDir w.path w.pathLength refs
  obtain ⟨taken, hcountC, htaken, _⟩ := m.walkComponents_spec w.lookup
    (components w.pathLength (w.path.take w.pathLength)) 0 refs1 (m.startNode w.currentDir w.path)
  have hstart : refs1.count (m.root vol) = k + own (m.startNode w.currentDir w.path) (m.root vol) := by
    have := hcount0 (m.root vol)
    rw [count_taken hfat htaken0] at this
    omega
  have hend := hcountC (m.root vol)
  rw [count_taken hfat htaken] at hend
  have hdel := deleted_walkComponents hfat w.lookup (components w.pathLength (w.path.take w.pathLength)) 0 refs1
    (m.startNode w.currentDir w.path) hstart
  have hrooted := rooted_walkComponents hfat w.lookup h0 (components w.pathLength (w.path.take w.pathLength)) 0 refs1
    (m.startNode w.currentDir w.path) hstart
  have hlast := walkComponents_last (m := m) w.lookup (components w.pathLength (w.path.take w.pathLength)) 0 refs1
    (m.startNode w.currentDir w.path)
  rw [hwalk] at hout
  generalize m.walkComponents w.lookup 0 (components w.pathLength (w.path.take w.pathLength)) refs1
    (m.startNode w.currentDir w.path) = walked at hout hend hdel hrooted hlast
  obtain ⟨refs2, last, found⟩ := walked
  cases found with
  | false => cases hout
  | true =>
    obtain ⟨rfl, rfl⟩ := hout
    refine ⟨hlast, by omega, ?_, ?_⟩
    · intro hk
      rw [hdel hk, hdel0]
    · intro h
      refine hrooted ?_
      rcases h with h | h
      · rcases h with hpos | hgone
        · have := own_nonneg (m.startNode w.currentDir w.path) (m.root vol)
          exact .inl (.inl (by omega))
        · exact .inl (.inr (by rw [hdel0]; exact hgone))
      · rcases mem_cons.1 h with h | h
        · exact .inl (rooted_of_count h0 hstart h)
        · exact .inr h

/-! ## Sequences of walks and releases -/

theorem exec_root {refs0 : Refs N} (h0 : 0 ≤ k) :
    ∀ (calls : List (Call N)) (s s' : Walkers N), (m.walkers refs0).exec s calls = some s' →
      s.refs.count (m.root vol) = k + s.held.count (m.root vol) →
      s'.refs.count (m.root vol) = k + s'.held.count (m.root vol) ∧
      ((0 < k ∨ m.root vol ∉ s.held ∧ ∀ w, Call.walk w ∈ calls → m.root vol ∉ m.visits w) →
        s'.refs.deleted (m.root vol) = s.refs.deleted (m.root vol)) ∧
      (Rooted s.refs (m.root vol) ∨ (∃ w, Call.walk w ∈ calls ∧ m.root vol ∈ m.visits w) →
        Rooted s'.refs (m.root vol)) := by
  intro calls
  induction calls with
  | nil =>
    intro s s' hexec hcount
    obtain rfl : s = s' := Option.some.inj hexec
    refine ⟨hcount, fun _ => rfl, ?_⟩
    rintro (h | ⟨w, hw, _⟩)
    · exact h
    · cases hw
  | cons call calls ih =>
    intro s s' hexec hcount
    rw [StepSystem.exec_cons] at hexec
    obtain ⟨s1, hstep, hrest⟩ := Option.bind_eq_some_iff.1 hexec
    cases call with
    | walk w =>
      rcases hwalk : m.walkPath w.lookup w.currentDir w.path w.pathLength s.refs with ⟨refs1, _ | n⟩
      · simp [walkers, Mounts.call, hwalk] at hstep
      · simp only [walkers, Mounts.call, hwalk, Option.some.injEq] at hstep
        subst hstep
        obtain ⟨hn, hcount1, hdel1, hrooted1⟩ := walkPath_root hfat w (by omega) hcount hwalk
        obtain ⟨hcount2, hdel2, hrooted2⟩ := ih _ s' hrest (by
          rw [count_cons_own]
          dsimp only
          omega)
        refine ⟨hcount2, ?_, ?_⟩
        · intro h
          have hw : m.root vol ∈ m.visits w → 0 < k + s.held.count (m.root vol) := by
            intro hvisits
            rcases h with hk | ⟨_, h⟩
            · omega
            · exact absurd hvisits (h w (.head _))
          rw [hdel2, hdel1 hw]
          rcases h with hk | ⟨hheld, h⟩
          · exact .inl hk
          · refine .inr ⟨?_, fun w' hw' => h w' (.tail _ hw')⟩
            rw [mem_cons, not_or]
            refine ⟨?_, hheld⟩
            rintro rfl
            exact h w (.head _) hn
        · rintro (h | ⟨w', hw', hvisits⟩)
          · exact hrooted2 (.inl (hrooted1 (.inl h)))
          · rcases mem_cons.1 hw' with h | h
            · cases h
              exact hrooted2 (.inl (hrooted1 (.inr hvisits)))
            · exact hrooted2 (.inr ⟨w', h, hvisits⟩)
    | release n =>
      by_cases hn : n ∈ s.held
      · simp only [walkers, Mounts.call, if_pos hn, Option.some.injEq] at hstep
        subst hstep
        have herase := count_erase_own hn (m.root vol)
        obtain ⟨hcount2, hdel2, hrooted2⟩ := ih _ s' hrest (by
          rw [count_releaseRef]
          dsimp only
          omega)
        refine ⟨hcount2, ?_, ?_⟩
        · intro h
          rw [hdel2, deleted_releaseRef]
          · rintro rfl
            rcases h with hk | ⟨hheld, _⟩
            · have : 0 < s.held.count (m.root vol) := count_pos_iff.2 hn
              omega
            · exact absurd hn hheld
          · rcases h with hk | ⟨hheld, h⟩
            · exact .inl hk
            · exact .inr ⟨fun h' => hheld (mem_of_mem_erase h'),
                fun w' hw' => h w' (.tail _ hw')⟩
        · rintro (h | ⟨w, hw, hvisits⟩)
          · exact hrooted2 (.inl (h.releaseRef hfat n))
          · rcases mem_cons.1 hw with h | h
            · cases h
            · exact hrooted2 (.inr ⟨w, h, hvisits⟩)
      · simp [walkers, Mounts.call, hn] at hstep

end

/-- **The root node survives exactly when** somebody else holds a reference on it or no walk stands on it: in a volume
that has just been mounted nobody does, and the first walk into it that is released deletes the root. -/
theorem root_stays_iff {vol : F} (hfat : m.kind vol = .fat) {refs : Refs N} (h0 : 0 ≤ refs.count (m.root vol))
    (hlive : refs.deleted (m.root vol) = false) {calls : List (Call N)} {s' : Walkers N}
    (hrun : (m.walkers refs).exec { refs, held := [] } calls = some s') (hreleased : s'.held = []) :
    s'.refs.deleted (m.root vol) = false ↔
      0 < refs.count (m.root vol) ∨ ∀ w, Call.walk w ∈ calls → m.root vol ∉ m.visits w := by
  obtain ⟨hcount, hdel, hrooted⟩ := exec_root hfat h0 calls _ s' hrun (by simp)
  rw [hreleased] at hcount
  constructor
  · intro hstays
    by_contra hnot
    obtain ⟨hzero, hvisits⟩ := not_or.1 hnot
    have hvisited : ∃ w, Call.walk w ∈ calls ∧ m.root vol ∈ m.visits w := by
      by_contra hnone
      exact hvisits fun w hw hmem => hnone ⟨w, hw, hmem⟩
    rcases hrooted (Or.inr hvisited) with hpos | hgone
    · rw [List.count_nil] at hcount
      omega
    · rw [hstays] at hgone
      cases hgone
  · intro h
    rw [hdel (h.imp id fun h => ⟨List.not_mem_nil, h⟩)]
    exact hlive

def bootVolume : Mounts Nat Bool where
  fileSystem n := decide (2 ≤ n)
  coveredBy n := if n = 1 then some true else none
  covers fs := if fs then some 1 else none
  root fs := if fs then 2 else 0
  kind fs := if fs then .fat else .rootFs
  rootFileSystem := false
  dead _ := false
  kind_rootFileSystem := rfl
  fileSystem_root := by decide

def bootWalk : Walk Nat := ⟨fun _ _ _ => some 1, none, ['/', 'b', 'o', 'o', 't'], 5⟩

def unused : Refs Nat := ⟨fun _ => 0, fun _ => false⟩

/-- One walk to the volume and back. -/
theorem root_stays_bootVolume :
    ∃ s', (bootVolume.walkers unused).exec { refs := unused, held := [] } [.walk bootWalk, .release 2] = some s' ∧
      (s'.refs.deleted 2 = false ↔
        (0 : Int) < 0 ∨ ∀ w, Call.walk w ∈ [Call.walk bootWalk, .release 2] → 2 ∉ bootVolume.visits w) := by
  obtain ⟨s', hs, hheld⟩ : ∃ s', (bootVolume.walkers unused).exec { refs := unused, held := [] }
      [.walk bootWalk, .release 2] = some s' ∧ s'.held = [] := ⟨_, rfl, by decide⟩
  exact ⟨s', hs, @root_stays_iff _ _ _ bootVolume true rfl unused (Int.le_refl 0) rfl _ _ hs hheld⟩

/-- The released walk has deleted the root of the volume. -/
theorem root_deleted_bootVolume :
    ¬ ∀ (calls : List (Call Nat)) (s' : Walkers Nat),
      (bootVolume.walkers unused).exec { refs := unused, held := [] } calls = some s' → s'.held = [] →
        s'.refs.deleted (bootVolume.root true) = false := by
  intro h
  have hgone := h [.walk bootWalk, .release 2] _ rfl (by decide)
  revert hgone
  decide

end Mounts

end Vfs
