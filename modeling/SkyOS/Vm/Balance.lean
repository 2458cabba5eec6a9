import SkyOS.Vm.RangeMap

/-!
# Balance of the area tree, and what `Remove` leaves off its stack

`FixBalance` repairs the nodes on the stack. Two removal cases change a subtree whose root is not on it:
case 2 hangs the left child of the dead node below the successor, and case 3 takes the successor out below
the last `leftmostParent`; neither is pushed. Their depth is still right, and they are balanced, in exactly
the shapes of `RemovesEvenly`. In runs that keep to those shapes every depth is exact and the tree is
balanced (`areaTree_balanced`), so fewer than 2^21 areas fit the stacks.
-/

namespace AVLTree

open BinaryTree (Frame plug plug_append Balanced)
open Option

/-! ## Exact depths -/

/-- Every node is balanced, and `fMaxChildDepth` is the height of its subtree above the leaf level. -/
def Good : Tree → Prop
  | .nil => True
  | .node a l r =>
    Good l ∧ Good r ∧ l.height ≤ r.height + 1 ∧ r.height ≤ l.height + 1 ∧
      a.fMaxChildDepth = max l.height r.height

/-- `fMaxChildDepth` alone. -/
def Exact : Tree → Prop
  | .nil => True
  | .node a l r => Exact l ∧ Exact r ∧ a.fMaxChildDepth = max l.height r.height

variable {t l r rr : Tree} {a : AVLNode} {fs : Stack} {s : State}

theorem Good.exact (h : Good t) : Exact t := by
  induction t with
  | nil => trivial
  | node a l r ihl ihr => exact ⟨ihl h.1, ihr h.2.1, h.2.2.2.2⟩

theorem Good.balanced (h : Good t) : t.Balanced := by
  induction t with
  | nil => trivial
  | node a l r ihl ihr => exact ⟨ihl h.1, ihr h.2.1, h.2.2.1, h.2.2.2.1⟩

/-- The node `a` with its depth computed. -/
def refreshed (a : AVLNode) (l r : Tree) : Tree :=
  .node { a with fMaxChildDepth := max l.height r.height } l r

@[simp] theorem height_refreshed (a : AVLNode) (l r : Tree) :
    (refreshed a l r).height = max l.height r.height + 1 := rfl

theorem exact_refreshed : Exact (refreshed a l r) ↔ Exact l ∧ Exact r := by
  simp [refreshed, Exact]

theorem good_refreshed :
    Good (refreshed a l r) ↔ Good l ∧ Good r ∧ l.height ≤ r.height + 1 ∧ r.height ≤ l.height + 1 := by
  simp [refreshed, Good]

theorem refreshed_of_exact (h : Exact (.node a l r)) : refreshed a l r = .node a l r := by
  unfold refreshed
  rw [← h.2.2]

theorem recomputeMaxChildDepth_exact (a : AVLNode) (hl : Exact l) (hr : Exact r) :
    recomputeMaxChildDepth (.node a l r) = refreshed a l r := by
  cases l with
  | nil =>
    cases r with
    | nil => rfl
    | node b rl rr => simp [recomputeMaxChildDepth, refreshed, hr.2.2, BinaryTree.height]
  | node c ll lr =>
    cases r with
    | nil => simp [recomputeMaxChildDepth, refreshed, hl.2.2, BinaryTree.height]
    | node b rl rr =>
      have hmax : ∀ m n : Nat, (if n > m then n else m) + 1 = max (m + 1) (n + 1) := fun m n => by
        split <;> omega
      simp only [recomputeMaxChildDepth, refreshed, hmax, hl.2.2, hr.2.2, BinaryTree.height]

theorem getBalance_exact (a : AVLNode) (hl : Exact l) (hr : Exact r) :
    getBalance (.node a l r) = (r.height : Int) - l.height := by
  cases l with
  | nil =>
    cases r with
    | nil => rfl
    | node b rl rr =>
      simp only [getBalance, hr.2.2, BinaryTree.height]
      omega
  | node c ll lr =>
    cases r with
    | nil =>
      simp only [getBalance, hl.2.2, BinaryTree.height]
      omega
    | node b rl rr =>
      simp only [getBalance, hl.2.2, hr.2.2, BinaryTree.height]
      omega

variable {rl ll lr root root' sr lpr : Tree} {h node : Nat} {returned : Bool} {ds : Stack} {lp : AVLNode}

theorem rotateLeft_exact (a b : AVLNode) (hl : Exact l) (hrl : Exact rl) (hrr : Exact rr) :
    rotateLeft (.node a l (.node b rl rr)) = refreshed b (refreshed a l rl) rr := by
  rw [rotateLeft, recomputeMaxChildDepth_exact a hl hrl,
    recomputeMaxChildDepth_exact b (exact_refreshed.2 ⟨hl, hrl⟩) hrr]

theorem rotateRight_exact (a b : AVLNode) (hll : Exact ll) (hlr : Exact lr) (hr : Exact r) :
    rotateRight (.node a (.node b ll lr) r) = refreshed b ll (refreshed a lr r) := by
  rw [rotateRight, recomputeMaxChildDepth_exact a hlr hr,
    recomputeMaxChildDepth_exact b hll (exact_refreshed.2 ⟨hlr, hr⟩)]

/-! ## One iteration of `FixBalance` -/

theorem straightenRight_exact (a b : AVLNode) (hr : Exact (.node b rl rr)) :
    straightenRight (.node a l (.node b rl rr)) =
      if rr.height < rl.height then .node a l (rotateRight (.node b rl rr)) else .node a l (.node b rl rr) := by
  have hrec : recomputeMaxChildDepth (.node b rl rr) = .node b rl rr := by
    rw [recomputeMaxChildDepth_exact b hr.1 hr.2.1, refreshed_of_exact hr]
  simp only [straightenRight, hrec, getBalance_exact b hr.1 hr.2.1]
  by_cases hlt : rr.height < rl.height
  · rw [if_pos hlt, if_pos (by omega)]
  · rw [if_neg hlt, if_neg (by omega)]

theorem straightenLeft_exact (a b : AVLNode) (hl : Exact (.node b ll lr)) :
    straightenLeft (.node a (.node b ll lr) r) =
      if ll.height < lr.height then .node a (rotateLeft (.node b ll lr)) r else .node a (.node b ll lr) r := by
  have hrec : recomputeMaxChildDepth (.node b ll lr) = .node b ll lr := by
    rw [recomputeMaxChildDepth_exact b hl.1 hl.2.1, refreshed_of_exact hl]
  simp only [straightenLeft, hrec, getBalance_exact b hl.1 hl.2.1]
  by_cases hlt : ll.height < lr.height
  · rw [if_pos hlt, if_pos (by omega)]
  · rw [if_neg hlt, if_neg (by omega)]

/-- The result of an iteration on children of height `m` and `n`: balanced, and at most one level lower
than `max m n + 1` when it rotated. -/
structure Repaired (m n : Nat) (t : Tree) : Prop where
  good : Good t
  le : t.height ≤ max m n + 1
  ge : max m n ≤ t.height
  same : m ≤ n + 1 → n ≤ m + 1 → t.height = max m n + 1

theorem repaired_right (a : AVLNode) (hl : Good l) (hr : Good r) (hh : r.height = l.height + 2) :
    Repaired l.height r.height (rotateLeft (straightenRight (refreshed a l r))) := by
  cases r with
  | nil => cases hh
  | node b rl rr =>
    obtain ⟨hrl, hrr, h1, h2, -⟩ := id hr
    simp only [BinaryTree.height] at hh ⊢
    rw [refreshed, straightenRight_exact _ b hr.exact]
    split
    · rename_i hlt
      cases rl with
      | nil => exact absurd hlt (Nat.not_lt_zero _)
      | node c cl cr =>
        obtain ⟨hcl, hcr, h3, h4, -⟩ := hrl
        -- the double rotation: `c` comes to the top
        rw [rotateRight_exact b c hcl.exact hcr.exact hrr.exact, refreshed,
          rotateLeft_exact _ _ hl.exact hcl.exact (exact_refreshed.2 ⟨hcr.exact, hrr.exact⟩)]
        simp only [BinaryTree.height] at hh h1 h2 hlt
        refine ⟨good_refreshed.2 ⟨good_refreshed.2 ⟨hl, hcl, ?_, ?_⟩, good_refreshed.2 ⟨hcr, hrr, ?_, ?_⟩, ?_, ?_⟩,
          ?_, ?_, ?_⟩ <;> first | omega | (simp only [height_refreshed, BinaryTree.height]; omega)
    · rw [rotateLeft_exact _ b hl.exact hrl.exact hrr.exact]
      refine ⟨good_refreshed.2 ⟨good_refreshed.2 ⟨hl, hrl, ?_, ?_⟩, hrr, ?_, ?_⟩, ?_, ?_, ?_⟩ <;>
        first | omega | (simp only [height_refreshed]; omega)

theorem repaired_left (a : AVLNode) (hl : Good l) (hr : Good r) (hh : l.height = r.height + 2) :
    Repaired l.height r.height (rotateRight (straightenLeft (refreshed a l r))) := by
  cases l with
  | nil => cases hh
  | node b ll lr =>
    obtain ⟨hll, hlr, h1, h2, -⟩ := id hl
    simp only [BinaryTree.height] at hh ⊢
    rw [refreshed, straightenLeft_exact _ b hl.exact]
    split
    · rename_i hlt
      cases lr with
      | nil => exact absurd hlt (Nat.not_lt_zero _)
      | node c cl cr =>
        obtain ⟨hcl, hcr, h3, h4, -⟩ := hlr
        rw [rotateLeft_exact b c hll.exact hcl.exact hcr.exact, refreshed,
          rotateRight_exact _ _ (exact_refreshed.2 ⟨hll.exact, hcl.exact⟩) hcr.exact hr.exact]
        simp only [BinaryTree.height] at hh h1 h2 hlt
        refine ⟨good_refreshed.2 ⟨good_refreshed.2 ⟨hll, hcl, ?_, ?_⟩, good_refreshed.2 ⟨hcr, hr, ?_, ?_⟩, ?_, ?_⟩,
          ?_, ?_, ?_⟩ <;> first | omega | (simp only [height_refreshed, BinaryTree.height]; omega)
    · rw [rotateRight_exact _ b hll.exact hlr.exact hr.exact]
      refine ⟨good_refreshed.2 ⟨hll, good_refreshed.2 ⟨hlr, hr, ?_, ?_⟩, ?_, ?_⟩, ?_, ?_, ?_⟩ <;>
        first | omega | (simp only [height_refreshed]; omega)

theorem repaired_rebalance (a : AVLNode) (hl : Good l) (hr : Good r) (h1 : l.height ≤ r.height + 2)
    (h2 : r.height ≤ l.height + 2) : Repaired l.height r.height (rebalance (.node a l r)) := by
  have hbal : getBalance (refreshed a l r) = (r.height : Int) - l.height :=
    getBalance_exact _ hl.exact hr.exact
  simp only [rebalance, recomputeMaxChildDepth_exact a hl.exact hr.exact, hbal]
  split
  · exact repaired_right a hl hr (by omega)
  · split
    · exact repaired_left a hl hr (by omega)
    · exact ⟨good_refreshed.2 ⟨hl, hr, by omega, by omega⟩, le_rfl, Nat.le_succ _, fun _ _ => rfl⟩

/-! ## The path above a changed subtree -/

def sibling : Frame AVLNode → Tree
  | .left _ r => r
  | .right _ l => l

/-- Height of the whole, when a subtree of height `h` hangs below the path. -/
def climb (h : Nat) : Stack → Nat
  | [] => h
  | f :: fs => climb (max h (sibling f).height + 1) fs

/-- The path is balanced around a subtree of height `h`; depths do not matter, they are recomputed. -/
def PathGood (h : Nat) : Stack → Prop
  | [] => True
  | f :: fs =>
    (Good (sibling f) ∧ h ≤ (sibling f).height + 1 ∧ (sibling f).height ≤ h + 1) ∧
      PathGood (max h (sibling f).height + 1) fs

theorem height_attach (f : Frame AVLNode) (t : Tree) : (f.attach t).height = max t.height (sibling f).height + 1 := by
  cases f with
  | left a r => rfl
  | right a l =>
    rw [Nat.max_comm]
    rfl

theorem good_attach {f : Frame AVLNode} (h : Good (f.attach t)) :
    Good t ∧ Good (sibling f) ∧ t.height ≤ (sibling f).height + 1 ∧ (sibling f).height ≤ t.height + 1 := by
  cases f with
  | left a r => exact ⟨h.1, h.2.1, h.2.2.1, h.2.2.2.1⟩
  | right a l => exact ⟨h.2.1, h.1, h.2.2.2.1, h.2.2.1⟩

theorem height_plug (fs : Stack) (t : Tree) : (plug fs t).height = climb t.height fs := by
  induction fs generalizing t with
  | nil => rfl
  | cons f fs ih => rw [BinaryTree.plug_cons, ih, height_attach, climb]

theorem pathGood_append {gs : Stack} :
    PathGood h (fs ++ gs) ↔ PathGood h fs ∧ PathGood (climb h fs) gs := by
  induction fs generalizing h with
  | nil => simp [PathGood, climb]
  | cons f fs ih => simp [PathGood, climb, ih, and_assoc]

theorem good_plug (h : Good (plug fs t)) : Good t ∧ PathGood t.height fs := by
  induction fs generalizing t with
  | nil => exact ⟨h, trivial⟩
  | cons f fs ih =>
    obtain ⟨ha, hp⟩ := ih h
    obtain ⟨ht, hf⟩ := good_attach ha
    rw [height_attach] at hp
    exact ⟨ht, hf, hp⟩

theorem good_plug_congr {t' : Tree} (h : Good (plug fs t)) (ht : Good t') (hh : t'.height = t.height) :
    Good (plug fs t') := by
  induction fs generalizing t t' with
  | nil => exact ht
  | cons f fs ih =>
    rw [BinaryTree.plug_cons] at h ⊢
    have ha := (good_plug h).1
    refine ih h ?_ (by rw [height_attach, height_attach, hh])
    cases f with
    | left a r => exact ⟨ht, ha.2.1, hh ▸ ha.2.2.1, hh ▸ ha.2.2.2.1, hh ▸ ha.2.2.2.2⟩
    | right a l => exact ⟨ha.1, ht, hh ▸ ha.2.2.1, hh ▸ ha.2.2.2.1, hh ▸ ha.2.2.2.2⟩

theorem repaired_attach (f : Frame AVLNode) (ht : Good t) (hs : Good (sibling f))
    (h1 : t.height ≤ (sibling f).height + 2) (h2 : (sibling f).height ≤ t.height + 2) :
    Repaired t.height (sibling f).height (rebalance (f.attach t)) := by
  cases f with
  | left a r => exact repaired_rebalance a ht hs h1 h2
  | right a l =>
    obtain ⟨hg, hle, hge, hsame⟩ := repaired_rebalance a hs ht h2 h1
    rw [Nat.max_comm] at hle hge hsame
    exact ⟨hg, hle, hge, fun h1 h2 => hsame h2 h1⟩

/-- **`FixBalance` repairs a change by one level**: the path was balanced around a subtree of height `h`,
and the new subtree is good and at most one level off. -/
theorem good_balanceUp (hp : PathGood h fs) (ht : Good t) (h1 : t.height ≤ h + 1)
    (h2 : h ≤ t.height + 1) : Good (balanceUp fs t) := by
  induction fs generalizing h t with
  | nil => exact ht
  | cons f fs ih =>
    obtain ⟨⟨hs, hs1, hs2⟩, hp⟩ := hp
    obtain ⟨hg, hle, hge, hsame⟩ := repaired_attach f ht hs (by omega) (by omega)
    refine ih hp hg ?_ ?_
    · omega
    · omega

/-! ## The calls -/

theorem needsBalanceFixed_false (h : ¬ needsBalanceFixed (fs ++ [dummyFrame]) = true) :
    ∃ f gs, fs = f :: gs ∧ 0 < (sibling f).height := by
  match fs, h with
  | [], h => exact absurd rfl h
  | .left a .nil :: _, h | .right a .nil :: _, h => exact absurd rfl h
  | .left a (.node b rl rr) :: gs, _ => exact ⟨_, gs, rfl, Nat.succ_pos _⟩
  | .right a (.node b ll lr) :: gs, _ => exact ⟨_, gs, rfl, Nat.succ_pos _⟩

theorem good_add (hT : TreeInv root) (h : Good root) {lowKey highKey : Nat}
    (ha : add root node lowKey highKey = some (returned, root')) : Good root' := by
  rw [add, addLoop_head] at ha
  split at ha
  · cases ha
  · cases ha
    exact h
  · rename_i stack he
    simp only [Option.some.injEq, Prod.mk.injEq] at ha
    obtain ⟨rfl, ha⟩ := ha
    cases addLoop_spec hT he with
    | place fs ht =>
      have hleaf : Good (.node ⟨node, lowKey, highKey, 0⟩ .nil .nil) := by simp [Good, BinaryTree.height]
      rw [← ht] at h
      split at ha
      · obtain ⟨-, hp⟩ := good_plug h
        rw [← ha]
        rw [show (fixBalance (fs ++ [dummyFrame]) _).right = _ from fixBalance_dummy fs _]
        exact good_balanceUp hp hleaf (Nat.le_refl _) (Nat.zero_le _)
      · rename_i hn
        obtain ⟨f, gs, rfl, hf⟩ := needsBalanceFixed_false hn
        rw [← ha]
        rw [show (plug ((f :: gs) ++ [dummyFrame]) _).right = _ from plug_dummy (f :: gs) _]
        -- the other child was there: the height below `f` stays 2
        rw [BinaryTree.plug_cons] at h ⊢
        obtain ⟨hatt, -⟩ := good_plug h
        obtain ⟨-, hs, -, hs1⟩ := good_attach hatt
        have hone : (sibling f).height = 1 := Nat.le_antisymm hs1 hf
        refine good_plug_congr h ?_ ?_
        · cases f with
          | left a r =>
            change r.height = 1 at hone
            obtain ⟨-, hr, -, -, hd⟩ := hatt
            exact ⟨hleaf, hr, by simp [hone, BinaryTree.height], by simp [hone, BinaryTree.height],
              by simpa [hone, BinaryTree.height] using hd⟩
          | right a l =>
            change l.height = 1 at hone
            obtain ⟨hl, -, -, -, hd⟩ := hatt
            exact ⟨hl, hleaf, by simp [hone, BinaryTree.height], by simp [hone, BinaryTree.height],
              by simpa [hone, BinaryTree.height] using hd⟩
        · rw [height_attach, height_attach, hone]
          rfl

/-- In case 3, the last `leftmostParent` has balance 0: its right child is as high as its left child, the
successor. -/
def leftmostParentEven (r : Tree) : Tree → Prop
  | .nil => True
  | .node _ .nil sr => r.height = sr.height + 1
  | .node _ l nr => leftmostParentEven nr l

/-- The shapes in which the node missing from the stack keeps its depth: case 1; case 2 when the left child
is lower than the right one; case 3 when the last `leftmostParent` has balance 0. -/
def RemovesEvenly (l : Tree) : Tree → Prop
  | .nil => True
  | .node c .nil rr => l.height < (BinaryTree.node c .nil rr).height
  | .node _ rl rr => leftmostParentEven rr rl

theorem leftmost_even {down : Stack} {p : AVLNode} (he : leftmostParentEven r l)
    {s : AVLNode} (hl : leftmost down p r l = some (ds, s, .node lp sr lpr)) :
    lpr.height = sr.height + 1 := by
  induction l generalizing down p r with
  | nil => cases hl
  | node c cl cr ih _ =>
    cases cl with
    | nil => cases hl; exact he
    | node d dl dr => exact ih he hl

/-- Case 2, when it is even. -/
theorem good_successor {c : AVLNode} (hl : Good l) (hr : Good (.node c .nil rr))
    (h1 : (BinaryTree.node c .nil rr).height ≤ l.height + 1) (heven : l.height < (BinaryTree.node c .nil rr).height) :
    Good (.node c l rr) ∧ l.height = rr.height := by
  obtain ⟨-, hrr, -, -, hd⟩ := hr
  simp only [BinaryTree.height] at h1 heven hd
  exact ⟨⟨hl, hrr, by omega, by omega, by omega⟩, by omega⟩

/-- Case 3, when it is even: the height below the path `ds` stays. -/
theorem good_leftmostParent {s : AVLNode}
    (h : Good (plug ds (.node lp (.node s .nil sr) lpr))) (heven : lpr.height = sr.height + 1) :
    Good (.node lp sr lpr) ∧
      (BinaryTree.node lp sr lpr).height = (BinaryTree.node lp (.node s .nil sr) lpr).height := by
  obtain ⟨⟨hs, hlpr, -, -, hd⟩, -⟩ := good_plug h
  simp only [BinaryTree.height] at hd ⊢
  exact ⟨⟨hs.2.1, hlpr, by omega, by omega, by omega⟩, by omega⟩

theorem good_remove (hT : TreeInv root) (h : Good root) {node : AVLNode}
    (hm : node ∈ root.inorder) (heven : ∀ {fs l r}, plug fs (.node node l r) = root → RemovesEvenly l r)
    (hrem : remove root node = some (returned, root')) : Good root' := by
  obtain ⟨fs, l, r, ht, -, he⟩ := remove_place hT hm
  have heven := heven ht
  rw [← ht] at h
  obtain ⟨hgood, hp⟩ := good_plug h
  obtain ⟨hl, hr, h1, h2, -⟩ := id hgood
  rw [he] at hrem
  obtain ⟨-, hrem⟩ := ite_none_right_eq_some.1 hrem
  match r with
  | .nil =>
    simp only [splice, map_some, fixBalance_dummy, Option.some.injEq, Prod.mk.injEq] at hrem
    rw [← hrem.2]
    simp only [BinaryTree.height] at hp
    exact good_balanceUp hp hl (by omega) (by omega)
  | .node c .nil rr =>
    simp only [splice, map_some, fixBalance_dummy, Option.some.injEq, Prod.mk.injEq] at hrem
    rw [← hrem.2]
    obtain ⟨hs, hlr⟩ := good_successor hl hr h2 heven
    refine good_balanceUp hp hs ?_ ?_ <;> simp only [BinaryTree.height] <;> omega
  | .node c (.node d dl dr) rr =>
    have hne : (BinaryTree.node d dl dr : Tree) ≠ .nil := by simp
    obtain ⟨ds, s, lp, sr, lpr, hlm, -, -, hplug⟩ := leftmost_spec [] c rr hne
    simp only [splice, hlm, List.append_nil] at hrem
    split at hrem
    swap
    · cases hrem
    rw [map_some, ← List.cons_append, ← List.append_assoc, fixBalance_dummy] at hrem
    cases hrem
    rw [← hplug] at hr
    obtain ⟨hlp, hsame⟩ := good_leftmostParent hr (leftmost_even heven hlm)
    obtain ⟨-, hds⟩ := good_plug hr
    have hclimb := height_plug ds (.node lp (.node s .nil sr) lpr)
    rw [hplug] at hclimb
    -- above the pushed nodes the path is the old one, with the successor in the place of the dead node
    have hpath : PathGood (BinaryTree.node lp (.node s .nil sr) lpr).height (ds ++ .right s l :: fs) := by
      refine pathGood_append.2 ⟨hds, ⟨hl, ?_, ?_⟩, ?_⟩
      · rw [← hclimb]; exact h2
      · rw [← hclimb]; exact h1
      · rw [← hclimb]
        rw [Nat.max_comm]
        exact hp
    exact good_balanceUp hpath hlp (by rw [hsame]; omega) (by rw [hsame]; omega)

/-! ## Runs -/

/-- The node is removed evenly, wherever it is in the tree. -/
def EvenAt (node : Nat) : Tree → Prop
  | .nil => True
  | .node a l r => (a.ptr = node → RemovesEvenly l r) ∧ EvenAt node l ∧ EvenAt node r

theorem EvenAt.plug (h : EvenAt node (plug fs t)) : EvenAt node t := by
  induction fs generalizing t with
  | nil => exact h
  | cons f fs ih =>
    have ha := ih h
    cases f with
    | left a r => exact ha.2.1
    | right a l => exact ha.2.2

/-- A removal is even; `Add` needs no condition. -/
def Call.even (s : State) : Call → Prop
  | .add .. => True
  | .remove node => EvenAt node s.root

theorem good_step {s' : State} (hI : Inv s) (h : Good s.root) {c : Call} (heven : c.even s)
    (hs : step s c = some s') : Good s'.root := by
  obtain ⟨hc, hs⟩ := ite_none_right_eq_some.1 hs
  obtain ⟨⟨returned, root'⟩, hrun, rfl⟩ := map_eq_some_iff.1 hs
  cases c with
  | add node lowKey highKey => exact good_add hI.tree h hrun
  | remove node =>
    obtain ⟨a, ha⟩ := isSome_iff_exists.1 hc
    obtain ⟨hm, hptr⟩ := nodeAt_some ha
    simp only [run, ha, bind_some] at hrun
    refine good_remove hI.tree h hm (fun ht => ?_) hrun
    change EvenAt node s.root at heven
    rw [← ht] at heven
    exact heven.plug.1 hptr

theorem good_reachVia (h : system.ReachVia (fun s c => c.even s) s) : Inv s ∧ Good s.root := by
  refine StepSystem.ReachVia.invariant (fun s => Inv s ∧ Good s.root) ?_ ?_ h
  · rintro s rfl
    exact ⟨⟨treeInv_nil, List.Perm.nil⟩, trivial⟩
  · rintro s c s' ⟨hI, hG⟩ heven hs
    exact ⟨inv_step hI hs, good_step hI hG heven hs⟩

/-! ## The stacks -/

theorem addPath_le_height (lowKey highKey : Nat) (t : Tree) : addPath lowKey highKey t ≤ t.height := by
  induction t with
  | nil => exact le_refl 0
  | node a l r ihl ihr =>
    simp only [addPath, BinaryTree.height]
    split
    · omega
    · split <;> omega

theorem leftSpine_le_height (t : Tree) : leftSpine t ≤ t.height := by
  induction t with
  | nil => exact le_refl 0
  | node a l r ihl _ =>
    simp only [leftSpine, BinaryTree.height]
    omega

theorem removePath_le_height (node : AVLNode) (t : Tree) : removePath node t ≤ t.height := by
  induction t with
  | nil => exact le_refl 0
  | node a l r ihl ihr =>
    simp only [removePath, BinaryTree.height]
    split
    · cases r with
      | nil => simp [leftSpine, BinaryTree.left]
      | node b rl rr =>
        have := leftSpine_le_height rl
        simp only [BinaryTree.left, BinaryTree.height]
        omega
    · split <;> omega

theorem fits_of_height (h : s.root.height + 1 ≤ kMaxTreeHeight) (c : Call) : c.fits s := by
  cases c with
  | add node lowKey highKey =>
    have := addPath_le_height lowKey highKey s.root
    change 1 + _ ≤ _
    omega
  | remove node =>
    intro a _
    have := removePath_le_height a s.root
    omega

/-- A balanced tree of fewer than 2^21 nodes has at most 29 levels. -/
theorem height_of_balanced (h : Good t) (hn : t.numNodes < 2 ^ 21) : t.height ≤ 29 := by
  refine BinaryTree.height_le_of_fib h.balanced ?_
  have hfib : Nat.fib (29 + 3) = 2178309 := by decide +kernel
  rw [hfib]
  omega

/-- **The area tree is balanced in every run of even removals**: every depth is exact, the heights of
siblings differ by at most one, and while there are fewer than 2^21 nodes no call overflows its stack. -/
theorem areaTree_balanced {s : State} (h : system.ReachVia (fun s c => c.even s) s) :
    Good s.root ∧ (s.root.numNodes < 2 ^ 21 → ∀ c, c.legal s → (run s.root c).isSome) := by
  obtain ⟨hI, hG⟩ := good_reachVia h
  refine ⟨hG, fun hn c hc => (run_isSome hI hc).2 (fits_of_height ?_ c)⟩
  have := height_of_balanced hG hn
  change _ + 1 ≤ 32
  omega

theorem areaTree_balanced_run :
    ∃ s, system.exec ⟨.nil, []⟩ [.add 2 2 2, .add 1 1 1, .add 3 3 3, .add 4 4 4, .remove 2] = some s ∧
      Good s.root ∧ (s.root.numNodes < 2 ^ 21 → ∀ c, c.legal s → (run s.root c).isSome) := by
  have heven : EvenAt 2 (.node ⟨2, 2, 2, 2⟩ (.node ⟨1, 1, 1, 0⟩ .nil .nil)
      (.node ⟨3, 3, 3, 1⟩ .nil (.node ⟨4, 4, 4, 0⟩ .nil .nil))) := by
    simp [EvenAt, RemovesEvenly, BinaryTree.height]
  exact ⟨_, rfl, areaTree_balanced (StepSystem.reachVia_exec
    [.add 2 2 2, .add 1 1 1, .add 3 3 3, .add 4 4 4, .remove 2] (.init rfl)
    ⟨trivial, trivial, trivial, trivial, heven, trivial⟩ rfl)⟩

/-- Removing the root of three nodes is case 2: the new root keeps depth 0. -/
theorem case2_leaves_stale_depth : ¬ ∀ s, system.Reach s → Good s.root := by
  intro h
  have hrun : ∃ s, system.exec ⟨.nil, []⟩ [.add 2 2 2, .add 1 1 1, .add 3 3 3, .remove 2] = some s ∧
      s.root = .node ⟨3, 3, 3, 0⟩ (.node ⟨1, 1, 1, 0⟩ .nil .nil) .nil := ⟨_, rfl, rfl⟩
  obtain ⟨s, he, hroot⟩ := hrun
  have hgood := h s (StepSystem.reach_exec _ (.init rfl) he)
  rw [hroot] at hgood
  exact absurd hgood.2.2.2.2 (by decide)

end AVLTree
