import SkyOS.Vm.AVLTree

/-!
# The area tree is a map of disjoint ranges

Everything is read off the inorder sequence `ranges`: balancing does not change it, `Add` inserts one
range into it and `Remove` takes one out. What each call needs is that the stack of the nodes it passes
fits its 32 entries (`Call.fits`); the tree can become deeper than that (`deep_tree_overflows`), because
`Remove` leaves stale depths behind.
-/

namespace AVLTree

open BinaryTree (Frame plug plug_append before after inorder_plug)
open Option

/-! ## Balancing keeps the sequence -/

@[simp] theorem ranges_nil : ranges .nil = [] := rfl

@[simp] theorem ranges_node (a : AVLNode) (l r : Tree) :
    ranges (.node a l r) = ranges l ++ a.range :: ranges r := by
  simp [ranges]

theorem ranges_plug (fs : Stack) (t : Tree) :
    ranges (plug fs t) = (before fs).map AVLNode.range ++ ranges t ++ (after fs).map AVLNode.range := by
  simp [ranges, inorder_plug]

theorem ranges_recomputeMaxChildDepth (t : Tree) : ranges (recomputeMaxChildDepth t) = ranges t := by
  cases t <;> simp [recomputeMaxChildDepth, AVLNode.range]

theorem ranges_rotateLeft (t : Tree) : ranges (rotateLeft t) = ranges t := by
  match t with
  | .nil | .node _ _ .nil => rfl
  | .node this l (.node child cl cr) => simp [rotateLeft, ranges_recomputeMaxChildDepth]

theorem ranges_rotateRight (t : Tree) : ranges (rotateRight t) = ranges t := by
  match t with
  | .nil | .node _ .nil _ => rfl
  | .node this (.node child cl cr) r => simp [rotateRight, ranges_recomputeMaxChildDepth]

theorem ranges_straightenRight (t : Tree) : ranges (straightenRight t) = ranges t := by
  cases t with
  | nil => rfl
  | node a l r =>
    simp only [straightenRight, ranges_node]
    split <;> simp [ranges_rotateRight, ranges_recomputeMaxChildDepth]

theorem ranges_straightenLeft (t : Tree) : ranges (straightenLeft t) = ranges t := by
  cases t with
  | nil => rfl
  | node a l r =>
    simp only [straightenLeft, ranges_node]
    split <;> simp [ranges_rotateLeft, ranges_recomputeMaxChildDepth]

theorem ranges_rebalance (t : Tree) : ranges (rebalance t) = ranges t := by
  unfold rebalance
  dsimp only
  split
  · rw [ranges_rotateLeft, ranges_straightenRight, ranges_recomputeMaxChildDepth]
  · split
    · rw [ranges_rotateRight, ranges_straightenLeft, ranges_recomputeMaxChildDepth]
    · exact ranges_recomputeMaxChildDepth t

/-- `FixBalance` above the dummy head. -/
def balanceUp : Stack → Tree → Tree
  | [], t => t
  | f :: fs, t => balanceUp fs (rebalance (f.attach t))

theorem ranges_balanceUp (fs : Stack) (t : Tree) : ranges (balanceUp fs t) = ranges (plug fs t) := by
  induction fs generalizing t with
  | nil => rfl
  | cons f fs ih =>
    have h := ih (rebalance (f.attach t))
    simp only [ranges_plug, ranges_rebalance] at h
    rw [balanceUp, h, BinaryTree.plug_cons, ranges_plug]

def dummyFrame : Frame AVLNode := .right dummyHead .nil

theorem fixBalance_dummy (fs : Stack) (t : Tree) :
    (fixBalance (fs ++ [dummyFrame]) t).right = balanceUp fs t := by
  induction fs generalizing t with
  | nil => rfl
  | cons f fs ih =>
    obtain ⟨g, gs, hg⟩ : ∃ g gs, fs ++ [dummyFrame] = g :: gs := by cases fs <;> simp
    rw [List.cons_append, hg, fixBalance, ← hg, ih, balanceUp]

theorem plug_dummy (fs : Stack) (t : Tree) : (plug (fs ++ [dummyFrame]) t).right = plug fs t := by
  rw [plug_append]
  rfl

/-! ## The invariant -/

/-- The range meets `[low, high]`. -/
def Range.meets (r : Range) (low high : Nat) : Prop := r.low ≤ high ∧ low ≤ r.high

instance (r : Range) (low high : Nat) : Decidable (r.meets low high) := by
  unfold Range.meets; infer_instance

def Ordered (l : List Range) : Prop := l.Pairwise fun a b => a.high < b.low

structure TreeInv (t : Tree) : Prop where
  ordered : Ordered (ranges t)
  proper : ∀ r ∈ ranges t, r.low ≤ r.high ∧ 0 < r.high
  nodup : ((ranges t).map Range.node).Nodup

theorem treeInv_nil : TreeInv .nil := ⟨List.Pairwise.nil, by simp, List.nodup_nil⟩

variable {l : List Range} {key lowKey highKey : Nat} {a : AVLNode} {t root root' : Tree} {stack : Stack}
    {returned : Bool} {s : State} {c : Call}

theorem ordered_append {l' : List Range} :
    Ordered (l ++ l') ↔ Ordered l ∧ Ordered l' ∧ ∀ a ∈ l, ∀ b ∈ l', a.high < b.low :=
  List.pairwise_append

theorem ordered_cons {a : Range} :
    Ordered (a :: l) ↔ (∀ b ∈ l, a.high < b.low) ∧ Ordered l :=
  List.pairwise_cons

variable {x : Range} {low high n : Nat} {rs : List Range} {s' : State}

theorem Ordered.meets_unique (h : Ordered l) {y : Range} (hx : x ∈ l) (hy : y ∈ l)
    (hxk : x.meets key key) (hyk : y.meets key key) : x = y := by
  have hsym : l.Pairwise fun a b => a.high < b.low ∨ b.high < a.low := h.imp fun hab => .inl hab
  have : Std.Symm fun a b : Range => a.high < b.low ∨ b.high < a.low := ⟨fun _ _ => Or.symm⟩
  by_contra hne
  have := hsym.forall hx hy hne
  obtain ⟨hx1, hx2⟩ := hxk
  obtain ⟨hy1, hy2⟩ := hyk
  omega

theorem TreeInv.node {l r : Tree} (h : TreeInv (.node a l r)) :
    TreeInv l ∧ TreeInv r ∧ a.fLowKey ≤ a.fHighKey ∧ 0 < a.fHighKey ∧
      (∀ x ∈ ranges l, x.high < a.fLowKey) ∧ ∀ x ∈ ranges r, a.fHighKey < x.low := by
  obtain ⟨ho, hp, hn⟩ := h
  rw [ranges_node] at ho hp hn
  obtain ⟨hl, har, hlar⟩ := ordered_append.1 ho
  obtain ⟨ha, hr⟩ := ordered_cons.1 har
  rw [List.map_append, List.map_cons] at hn
  obtain ⟨hnl, hnr, -⟩ := List.nodup_append.1 hn
  have hpa := hp a.range (by simp)
  exact ⟨⟨hl, fun x hx => hp x (by simp [hx]), hnl⟩,
    ⟨hr, fun x hx => hp x (by simp [hx]), (List.nodup_cons.1 hnr).2⟩, hpa.1, hpa.2,
    fun x hx => hlar x hx a.range (by simp), ha⟩

/-! ## The walk of `Add` -/

/-- The nodes the walk of `Add` passes, without the dummy head. -/
def addPath (lowKey highKey : Nat) : Tree → Nat
  | .nil => 0
  | .node a l r =>
    1 + if highKey < a.fLowKey then addPath lowKey highKey l
      else if lowKey > a.fHighKey ∨ a.fHighKey = 0 then addPath lowKey highKey r
      else 0

/-- Where the walk of `Add` ends: at a range in the way, or at the one place that keeps the order. -/
inductive AddEnd (lowKey highKey : Nat) (t : Tree) (stack : Stack) : Option Stack → Prop where
  | occupied {x : Range} (hx : x ∈ ranges t) (hm : x.meets lowKey highKey) : AddEnd lowKey highKey t stack none
  | place (fs : Stack) (ht : plug fs .nil = t) (hb : ∀ x ∈ (before fs).map AVLNode.range, x.high < lowKey)
      (ha : ∀ x ∈ (after fs).map AVLNode.range, highKey < x.low) :
      AddEnd lowKey highKey t stack (some (fs ++ stack))

theorem addEnd_snoc (fs : Stack) (f : Frame AVLNode)
    (ht : plug (fs ++ [f]) .nil = t) (hb : ∀ x ∈ (before (fs ++ [f])).map AVLNode.range, x.high < lowKey)
    (ha : ∀ x ∈ (after (fs ++ [f])).map AVLNode.range, highKey < x.low) :
    AddEnd lowKey highKey t stack (some (fs ++ f :: stack)) := by
  rw [List.append_cons]
  exact .place (fs ++ [f]) ht hb ha

theorem before_append (fs gs : Stack) : before (fs ++ gs) = before gs ++ before fs := by
  induction fs with
  | nil => simp [before]
  | cons f fs ih => cases f <;> simp [before, ih]

theorem after_append (fs gs : Stack) : after (fs ++ gs) = after fs ++ after gs := by
  induction fs with
  | nil => simp [after]
  | cons f fs ih => cases f <;> simp [after, ih]

theorem addLoop_fits (h : stack.length ≤ kMaxTreeHeight) :
    (addLoop lowKey highKey stack t).isSome ↔ stack.length + addPath lowKey highKey t ≤ kMaxTreeHeight := by
  induction t generalizing stack with
  | nil => simpa [addLoop, addPath] using h
  | node a l r ihl ihr =>
    unfold addLoop addPath
    by_cases hs : kMaxTreeHeight ≤ stack.length
    · rw [if_pos hs]
      simp
      omega
    · rw [if_neg hs]
      have hlen : ∀ f : Frame AVLNode, (f :: stack).length ≤ kMaxTreeHeight := fun f => by
        rw [List.length_cons]; omega
      split
      · rw [ihl (hlen _), List.length_cons]
        omega
      · split
        · rw [ihr (hlen _), List.length_cons]
          omega
        · simp; omega

theorem addLoop_spec (h : TreeInv t)
    {e : Option Stack} (he : addLoop lowKey highKey stack t = some e) : AddEnd lowKey highKey t stack e := by
  induction t generalizing stack e with
  | nil =>
    cases he
    exact .place [] rfl (by simp [before]) (by simp [after])
  | node a l r ihl ihr =>
    obtain ⟨hl, hr, hlow, hpos, hlx, hrx⟩ := h.node
    unfold addLoop at he
    split at he
    · cases he
    · split at he
      · rename_i hlt
        cases ihl hl he with
        | occupied hx hm => exact .occupied (by simp [hx]) hm
        | place fs ht hb ha =>
          -- everything right of the path is at or behind `a`
          refine addEnd_snoc fs (.left a r) (by rw [plug_append, ht]; rfl) ?_ ?_
          · simpa [before_append, before] using hb
          · intro x hx
            rw [after_append, List.map_append, List.mem_append] at hx
            rcases hx with hx | hx
            · exact ha x hx
            · simp only [after, List.append_nil, List.map_cons, List.mem_cons] at hx
              rcases hx with rfl | hx
              · exact hlt
              · have := hrx x hx
                omega
      · rename_i hge
        split at he
        · rename_i hgt
          have hgt : a.fHighKey < lowKey := by omega
          cases ihr hr he with
          | occupied hx hm => exact .occupied (by simp [hx]) hm
          | place fs ht hb ha =>
            refine addEnd_snoc fs (.right a l) (by rw [plug_append, ht]; rfl) ?_ ?_
            · intro x hx
              rw [before_append, List.map_append, List.mem_append] at hx
              rcases hx with hx | hx
              · simp only [before, List.nil_append, List.map_append, List.mem_append, List.map_cons, List.map_nil,
                  List.mem_singleton] at hx
                rcases hx with hx | rfl
                · have := hlx x hx
                  omega
                · exact hgt
              · exact hb x hx
            · simpa [after_append, after] using ha
        · rename_i hle
          cases he
          rw [not_or] at hle
          exact .occupied (x := a.range) (by simp) ⟨by change a.fLowKey ≤ _; omega, by change _ ≤ a.fHighKey; omega⟩

theorem addLoop_head (lowKey highKey : Nat) (root : Tree) :
    addLoop lowKey highKey [] (head root) = addLoop lowKey highKey [dummyFrame] root := by
  simp [addLoop, head, dummyHead, dummyFrame, kMaxTreeHeight]

/-- What `Add` returns and leaves behind. -/
inductive Added (root : Tree) (node lowKey highKey : Nat) : Bool → Tree → Prop where
  | refused {x : Range} (hx : x ∈ ranges root) (hm : x.meets lowKey highKey) : Added root node lowKey highKey false root
  | inserted {root' : Tree} (L R : List Range) (h : ranges root = L ++ R)
      (h' : ranges root' = L ++ ⟨node, lowKey, highKey⟩ :: R) (hL : ∀ x ∈ L, x.high < lowKey)
      (hR : ∀ x ∈ R, highKey < x.low) : Added root node lowKey highKey true root'

theorem add_isSome {node : Nat} :
    (add root node lowKey highKey).isSome ↔ 1 + addPath lowKey highKey root ≤ kMaxTreeHeight := by
  have h : (addLoop lowKey highKey [dummyFrame] root).isSome ↔
      1 + addPath lowKey highKey root ≤ kMaxTreeHeight :=
    addLoop_fits (show [dummyFrame].length ≤ kMaxTreeHeight by decide)
  rw [← h, add, addLoop_head]
  split <;> simp_all

theorem add_spec (h : TreeInv root) {node : Nat}
    (ha : add root node lowKey highKey = some (returned, root')) : Added root node lowKey highKey returned root' := by
  rw [add, addLoop_head] at ha
  split at ha
  · cases ha
  · rename_i he
    cases ha
    cases addLoop_spec h he with
    | occupied hx hm => exact .refused hx hm
  · rename_i stack he
    simp only [Option.some.injEq, Prod.mk.injEq] at ha
    obtain ⟨rfl, ha⟩ := ha
    cases addLoop_spec h he with
    | place fs ht hb hf =>
      have hroot : ranges root = (before fs).map AVLNode.range ++ (after fs).map AVLNode.range := by
        rw [← ht, ranges_plug, ranges_nil, List.append_nil]
      refine .inserted _ _ hroot ?_ hb hf
      have hplug : ranges root' = ranges (plug fs (.node ⟨node, lowKey, highKey, 0⟩ .nil .nil)) := by
        rw [← ha]
        split
        · rw [← ranges_balanceUp]
          exact congrArg ranges (fixBalance_dummy fs _)
        · exact congrArg ranges (plug_dummy fs _)
      rw [hplug, ranges_plug]
      simp [AVLNode.range]

theorem Added.inv {node : Nat}
    (ha : Added root node lowKey highKey returned root') (h : TreeInv root) (hlh : lowKey ≤ highKey) (hpos : 0 < highKey)
    (hn : ∀ x ∈ ranges root, x.node ≠ node) : TreeInv root' := by
  cases ha with
  | refused => exact h
  | inserted L R hroot hroot' hL hR =>
    obtain ⟨ho, hp, hnd⟩ := h
    rw [hroot] at ho hp hn hnd
    obtain ⟨hoL, hoR, hLR⟩ := ordered_append.1 ho
    refine ⟨?_, ?_, ?_⟩
    · rw [hroot']
      refine ordered_append.2 ⟨hoL, ordered_cons.2 ⟨hR, hoR⟩, fun a ha b hb => ?_⟩
      rcases List.mem_cons.1 hb with rfl | hb
      · exact hL a ha
      · exact hLR a ha b hb
    · intro x hx
      rw [hroot', List.mem_append, List.mem_cons] at hx
      rcases hx with hx | rfl | hx
      · exact hp x (by simp [hx])
      · exact ⟨hlh, hpos⟩
      · exact hp x (by simp [hx])
    · rw [hroot', List.map_append, List.map_cons, List.nodup_middle, ← List.map_append, List.nodup_cons]
      refine ⟨?_, hnd⟩
      intro hmem
      obtain ⟨x, hx, hxn⟩ := List.mem_map.1 hmem
      exact hn x hx hxn

/-! ## The search and the three cases of `Remove` -/

theorem ptr_unique (h : TreeInv t) {b : AVLNode} (ha : a ∈ t.inorder) (hb : b ∈ t.inorder)
    (hab : a.ptr = b.ptr) : a = b := by
  have hn := h.nodup
  rw [ranges, List.map_map] at hn
  exact List.inj_on_of_nodup_map hn ha hb hab

def leftSpine : Tree → Nat
  | .nil => 0
  | .node _ l _ => 1 + leftSpine l

/-- The stack entries `Remove` needs: one for each node down to the node itself (the dummy head counts, the
node does not), and in case 3 one for the successor and each node above `leftmostParent`. -/
def removePath (node : AVLNode) : Tree → Nat
  | .nil => 0
  | .node a l r =>
    1 + if a.ptr = node.ptr then leftSpine r.left
      else if node.fLowKey < a.fLowKey then removePath node l
      else removePath node r

/-- The loop of case 3 unlinks the first node of the sequence below `p`; `lp` is the last `leftmostParent`. -/
theorem leftmost_spec (down : Stack) (p : AVLNode) (r : Tree) {l : Tree} (hl : l ≠ .nil) :
    ∃ ds s lp sr lpr, leftmost down p r l = some (ds ++ down, s, .node lp sr lpr) ∧
      ds.length + 1 = leftSpine l ∧ before ds = [] ∧
      plug ds (.node lp (.node s .nil sr) lpr) = .node p l r := by
  induction l generalizing down p r with
  | nil => exact absurd rfl hl
  | node c cl cr ih _ =>
    cases cl with
    | nil => exact ⟨[], c, p, cr, r, rfl, rfl, rfl, rfl⟩
    | node d dl dr =>
      obtain ⟨ds, s, lp, sr, lpr, he, hlen, hb, hp⟩ := ih (.left p r :: down) c cr (by simp)
      refine ⟨ds ++ [.left p r], s, lp, sr, lpr, ?_, ?_, ?_, ?_⟩
      · rw [List.append_assoc]
        exact he
      · rw [List.length_append, List.length_singleton, leftSpine]
        omega
      · simp [before_append, before, hb]
      · rw [plug_append, hp]
        rfl

/-- Splicing out a node with children `l` and `r`: its place is taken, with the sequence of the rest. -/
theorem splice_spec (hs : stack.length ≤ kMaxTreeHeight) (l r : Tree) :
    ∃ ds t, splice stack l r =
        (if stack.length + leftSpine r.left ≤ kMaxTreeHeight then some (ds ++ stack, t) else none) ∧
      (plug ds t).inorder = l.inorder ++ r.inorder := by
  match r with
  | .nil => exact ⟨[], l, by simp [splice, leftSpine, BinaryTree.left, hs], by simp⟩
  | .node c .nil rr => exact ⟨[], .node c l rr, by simp [splice, leftSpine, BinaryTree.left, hs], by simp⟩
  | .node c (.node d dl dr) rr =>
    have hl : (BinaryTree.node d dl dr : Tree) ≠ .nil := by simp
    obtain ⟨ds, s, lp, sr, lpr, he, hlen, hb, hp⟩ := leftmost_spec [] c rr hl
    rw [List.append_nil] at he
    refine ⟨ds ++ [.right s l], .node lp sr lpr, ?_, ?_⟩
    · simp only [splice, he, BinaryTree.left, ← hlen, List.append_assoc, List.singleton_append,
        List.length_append, List.length_cons]
      congr 1
      simp only [eq_iff_iff]
      omega
    · have hin := congrArg BinaryTree.inorder hp
      rw [inorder_plug, hb] at hin
      rw [plug_append, ← hin, BinaryTree.plug_cons, BinaryTree.plug_nil, Frame.attach, BinaryTree.inorder_node,
        inorder_plug, hb]
      simp

theorem isNode_iff {node : AVLNode} (h : TreeInv t) (hm : node ∈ t.inorder) :
    isNode node t = true ↔ ∃ l r, t = .node node l r := by
  constructor
  · intro hi
    cases t with
    | nil => cases hi
    | node a l r =>
      have : a = node := ptr_unique h (by simp) hm (by simpa [isNode] using hi)
      exact ⟨l, r, by rw [this]⟩
  · rintro ⟨l, r, rfl⟩
    simp [isNode]

theorem removePath_self (node : AVLNode) (l r : Tree) :
    removePath node (.node node l r) = 1 + leftSpine r.left := by
  rw [removePath, if_pos rfl]

/-- The search of `Remove` finds `node` below `t`, unless the stack overflows on the way. -/
def Finds (node : AVLNode) (t : Tree) (path : Nat) (stack : Stack) (found : Option (Option (Stack × Tree))) : Prop :=
  ∃ fs l r, plug fs (.node node l r) = t ∧ path = fs.length + 1 + leftSpine r.left ∧
    found = if stack.length + fs.length ≤ kMaxTreeHeight then some (some (fs ++ stack, .node node l r)) else none

theorem finds_child {node : AVLNode} {c : Tree} (h : TreeInv c) (hm : node ∈ c.inorder) (f : Frame AVLNode)
    (stack : Stack)
    (hc : isNode node c = false → Finds node c (removePath node c) (f :: stack) (removeLoop node (f :: stack) c)) :
    Finds node (f.attach c) (1 + removePath node c) stack
      (if kMaxTreeHeight ≤ stack.length then none
        else if isNode node c then some (some (f :: stack, c)) else removeLoop node (f :: stack) c) := by
  cases hi : isNode node c with
  | true =>
    obtain ⟨l, r, rfl⟩ := (isNode_iff h hm).1 hi
    refine ⟨[f], l, r, rfl, by rw [removePath_self, List.length_singleton]; omega, ?_⟩
    by_cases hs : kMaxTreeHeight ≤ stack.length
    · rw [if_pos hs, if_neg (by rw [List.length_singleton]; omega)]
    · rw [if_neg hs, if_pos rfl, if_pos (by rw [List.length_singleton]; omega)]
      rfl
  | false =>
    obtain ⟨fs, l, r, ht, hp, hrem⟩ := hc hi
    refine ⟨fs ++ [f], l, r, by rw [plug_append, ht]; rfl, by simp [hp]; omega, ?_⟩
    rw [hrem, List.length_append, List.length_singleton, List.append_assoc]
    by_cases hs : kMaxTreeHeight ≤ stack.length
    · rw [if_pos hs, if_neg (by omega)]
    · simp [hs, Nat.add_comm, Nat.add_left_comm]

theorem removeLoop_spec {node : AVLNode} (h : TreeInv t) (hm : node ∈ t.inorder)
    (hroot : isNode node t = false) (stack : Stack) :
    Finds node t (removePath node t) stack (removeLoop node stack t) := by
  induction t generalizing stack with
  | nil => cases hm
  | node a l r ihl ihr =>
    obtain ⟨hl, hr, hlow, -, hlx, hrx⟩ := h.node
    have hptr : a.ptr ≠ node.ptr := by simpa [isNode] using hroot
    have hrange : node.fLowKey ≤ node.fHighKey := (h.proper _ (List.mem_map_of_mem hm)).1
    rw [BinaryTree.inorder_node, List.mem_append, List.mem_cons] at hm
    unfold removeLoop removePath
    rw [if_neg hptr]
    rcases hm with hm | rfl | hm
    · have hlt : node.fLowKey < a.fLowKey := by
        have : node.fHighKey < a.fLowKey := hlx _ (List.mem_map_of_mem hm)
        omega
      rw [if_pos hlt, if_pos hlt]
      exact finds_child hl hm (.left a r) stack fun hi => ihl hl hm hi (.left a r :: stack)
    · exact absurd rfl hptr
    · have : a.fHighKey < node.fLowKey := hrx _ (List.mem_map_of_mem hm)
      have hnlt : ¬ node.fLowKey < a.fLowKey := by omega
      have hgt : node.fHighKey > a.fHighKey := by omega
      rw [if_neg hnlt, if_neg hnlt, if_pos hgt]
      exact finds_child hr hm (.right a l) stack fun hi => ihr hr hm hi (.right a l :: stack)

section

variable (h : TreeInv root) {node : AVLNode} (hm : node ∈ root.inorder)
include h hm

/-- `Remove` of a node in the tree: the place `fs` of its subtree, then the three cases. -/
theorem remove_place :
    ∃ fs l r, plug fs (.node node l r) = root ∧ removePath node root = fs.length + 1 + leftSpine r.left ∧
      remove root node = if fs.length + 1 ≤ kMaxTreeHeight then
        (splice (fs ++ [dummyFrame]) l r).map fun (stack, t) => (true, (fixBalance stack t).right) else none := by
  have hhigh : ¬ node.fLowKey < dummyHead.fLowKey ∧ node.fHighKey > dummyHead.fHighKey :=
    ⟨Nat.not_lt_zero _, (h.proper _ (List.mem_map_of_mem hm)).2⟩
  have hhead : removeLoop node [] (head root) =
      if isNode node root then some (some ([dummyFrame], root)) else removeLoop node [dummyFrame] root := by
    simp only [removeLoop, head, if_neg hhigh.1, if_pos hhigh.2]
    rfl
  cases hi : isNode node root with
  | true =>
    obtain ⟨l, r, rfl⟩ := (isNode_iff h hm).1 hi
    refine ⟨[], l, r, rfl, by rw [removePath_self, List.length_nil], ?_⟩
    simp only [remove, hhead, hi, if_true]
    rfl
  | false =>
    obtain ⟨fs, l, r, ht, hp, hrem⟩ := removeLoop_spec h hm hi [dummyFrame]
    refine ⟨fs, l, r, ht, hp, ?_⟩
    simp only [remove, hhead, hi, hrem, List.length_singleton, Nat.add_comm 1]
    by_cases hs : fs.length + 1 ≤ kMaxTreeHeight <;> simp [hs]

theorem remove_isSome :
    (remove root node).isSome ↔ removePath node root ≤ kMaxTreeHeight := by
  obtain ⟨fs, l, r, -, hp, hrem⟩ := remove_place h hm
  rw [hrem]
  by_cases hs : fs.length + 1 ≤ kMaxTreeHeight
  · obtain ⟨ds, t, hsp, -⟩ := splice_spec (show (fs ++ [dummyFrame]).length ≤ kMaxTreeHeight by simpa using hs) l r
    rw [if_pos hs, hsp, hp, List.length_append, List.length_singleton]
    split <;> simp_all
  · rw [if_neg hs]
    simp
    omega

theorem remove_spec (hrem : remove root node = some (returned, root')) :
    returned = true ∧ ∃ L R, ranges root = L ++ node.range :: R ∧ ranges root' = L ++ R := by
  obtain ⟨fs, l, r, ht, -, he⟩ := remove_place h hm
  rw [he] at hrem
  obtain ⟨hs, hrem⟩ := ite_none_right_eq_some.1 hrem
  obtain ⟨ds, t, hsp, hin⟩ := splice_spec (show (fs ++ [dummyFrame]).length ≤ kMaxTreeHeight by simpa using hs) l r
  rw [hsp] at hrem
  split at hrem
  swap
  · cases hrem
  obtain ⟨rfl, rfl⟩ := hrem
  refine ⟨rfl, (before fs).map AVLNode.range ++ ranges l, ranges r ++ (after fs).map AVLNode.range, ?_, ?_⟩
  · rw [← ht, ranges_plug, ranges_node]
    simp
  · rw [← List.append_assoc, fixBalance_dummy, ranges_balanceUp, plug_append, ranges_plug, ranges, hin]
    simp [ranges]

end

theorem TreeInv.sublist (h : TreeInv root) (hs : (ranges root').Sublist (ranges root)) :
    TreeInv root' :=
  ⟨h.ordered.sublist hs, fun x hx => h.proper x (hs.subset hx), h.nodup.sublist (hs.map Range.node)⟩

/-! ## Queries -/

theorem find_some (h : find key t = some a) :
    a ∈ t.inorder ∧ a.range.meets key key := by
  induction t with
  | nil => cases h
  | node b l r ihl ihr =>
    unfold find at h
    split at h
    · obtain ⟨hm, hk⟩ := ihl h
      exact ⟨by simp [hm], hk⟩
    · split at h
      · obtain ⟨hm, hk⟩ := ihr h
        exact ⟨by simp [hm], hk⟩
      · cases h
        rename_i h1 h2
        exact ⟨by simp, Nat.not_lt.1 h1, Nat.not_lt.1 h2⟩

/-- The pruning of `Find`, `Add` and `IsRangeFree`: a range on the other side is out of reach. -/
theorem not_meets_right (hk : high < key) (h : ∀ x ∈ rs, key < x.low) :
    ∀ x ∈ rs, ¬ x.meets low high := by
  rintro x hx ⟨hlow, -⟩
  have := h x hx
  omega

theorem not_meets_left (hk : key < low) (h : ∀ x ∈ rs, x.high < key) :
    ∀ x ∈ rs, ¬ x.meets low high := by
  rintro x hx ⟨-, hhigh⟩
  have := h x hx
  omega

theorem isRangeFree_iff (h : TreeInv t) :
    isRangeFree lowKey highKey t = true ↔ ∀ x ∈ ranges t, ¬ x.meets lowKey highKey := by
  induction t with
  | nil => simp [isRangeFree]
  | node a l r ihl ihr =>
    obtain ⟨hl, hr, hlow, -, hlx, hrx⟩ := h.node
    simp only [isRangeFree, ranges_node, List.mem_append, List.mem_cons]
    split
    · rename_i hlt
      rw [ihl hl]
      refine ⟨?_, fun hall x hx => hall x (.inl hx)⟩
      rintro hall x (hx | rfl | hx)
      · exact hall x hx
      · exact fun hm => absurd hm.1 (Nat.not_le.2 hlt)
      · exact not_meets_right (Nat.lt_of_lt_of_le hlt hlow) hrx x hx
    · split
      · rename_i hgt
        rw [ihr hr]
        refine ⟨?_, fun hall x hx => hall x (.inr (.inr hx))⟩
        rintro hall x (hx | rfl | hx)
        · exact not_meets_left (Nat.lt_of_le_of_lt hlow hgt) hlx x hx
        · exact fun hm => absurd hm.2 (Nat.not_le.2 hgt)
        · exact hall x hx
      · rename_i h1 h2
        simp only [Bool.false_eq_true, false_iff, not_forall]
        exact ⟨a.range, .inr (.inl rfl), fun hno => hno ⟨Nat.not_lt.1 h1, Nat.not_lt.1 h2⟩⟩

theorem find_none (h : TreeInv t) (hf : find key t = none) :
    ∀ x ∈ ranges t, ¬ x.meets key key := by
  refine (isRangeFree_iff h).1 ?_
  clear h
  induction t with
  | nil => rfl
  | node a l r ihl ihr =>
    unfold find at hf
    unfold isRangeFree
    split at hf
    · rename_i hlt
      rw [if_pos hlt]
      exact ihl hf
    · rename_i hlt
      rw [if_neg hlt]
      split at hf
      · rename_i hgt
        rw [if_pos hgt]
        exact ihr hf
      · cases hf

theorem nodeAt_some (h : nodeAt root n = some a) :
    a ∈ root.inorder ∧ a.ptr = n := by
  have hp := List.find?_some h
  exact ⟨List.mem_of_find?_eq_some h, by simpa using hp⟩

theorem nodeAt_none (h : nodeAt root n = none) : ∀ x ∈ ranges root, x.node ≠ n := by
  intro x hx
  obtain ⟨a, ha, rfl⟩ := List.mem_map.1 hx
  have hne := List.find?_eq_none.1 h a ha
  simpa [AVLNode.range] using hne

/-! ## Runs -/

/-- The nodes the call passes fit `stack[kMaxTreeHeight]`. -/
def Call.fits (s : State) : Call → Prop
  | .add _ lowKey highKey => 1 + addPath lowKey highKey s.root ≤ kMaxTreeHeight
  | .remove node => ∀ a, nodeAt s.root node = some a → removePath a s.root ≤ kMaxTreeHeight

structure Inv (s : State) : Prop where
  tree : TreeInv s.root
  contents : s.stored.Perm (ranges s.root)

theorem run_isSome (h : Inv s) (hc : c.legal s) : (run s.root c).isSome ↔ c.fits s := by
  cases c with
  | add node lowKey highKey => exact add_isSome
  | remove node =>
    obtain ⟨a, ha⟩ := isSome_iff_exists.1 hc
    simp only [run, ha, bind_some, Call.fits, Option.some.injEq, forall_eq']
    exact remove_isSome h.tree (nodeAt_some ha).1

theorem fits_of_step (h : Inv s) (hs : step s c = some s') : c.fits s := by
  obtain ⟨hc, hs⟩ := ite_none_right_eq_some.1 hs
  refine (run_isSome h hc).1 ?_
  cases hrun : run s.root c with
  | none => rw [hrun] at hs; cases hs
  | some => rfl

theorem filter_middle {L R : List Range} (hn : ((L ++ x :: R).map Range.node).Nodup) :
    (L ++ x :: R).filter (·.node ≠ x.node) = L ++ R := by
  rw [List.map_append, List.map_cons, List.nodup_middle, List.nodup_cons, ← List.map_append] at hn
  have hne : ∀ y ∈ L ++ R, decide (y.node ≠ x.node) = true := by
    intro y hy
    rw [decide_eq_true_iff]
    intro he
    exact hn.1 (he ▸ List.mem_map_of_mem hy)
  rw [List.filter_append, List.filter_cons, if_neg (by simp)]
  rw [← List.filter_append, List.filter_eq_self]
  exact hne

theorem inv_step (h : Inv s) (hs : step s c = some s') : Inv s' := by
  obtain ⟨hc, hs⟩ := ite_none_right_eq_some.1 hs
  obtain ⟨⟨returned, root'⟩, hrun, rfl⟩ := map_eq_some_iff.1 hs
  cases c with
  | add node lowKey highKey =>
    obtain ⟨hn, hlh, hpos⟩ := hc
    have ha := add_spec h.tree hrun
    refine ⟨ha.inv h.tree hlh hpos (nodeAt_none hn), ?_⟩
    cases ha with
    | refused => exact h.contents
    | inserted L R hroot hroot' =>
      have hp := h.contents
      rw [hroot] at hp
      rw [hroot']
      exact (hp.cons _).trans List.perm_middle.symm
  | remove node =>
    obtain ⟨a, ha⟩ := isSome_iff_exists.1 hc
    obtain ⟨hm, rfl⟩ := nodeAt_some ha
    simp only [run, ha, bind_some] at hrun
    obtain ⟨rfl, L, R, hroot, hroot'⟩ := remove_spec h.tree hm hrun
    refine ⟨h.tree.sublist ?_, ?_⟩
    · rw [hroot, hroot']
      exact List.Sublist.append_left (List.sublist_cons_self _ R) L
    · have hp := (h.contents.filter (·.node ≠ a.ptr))
      have hf := filter_middle (hroot ▸ h.tree.nodup)
      rw [hroot] at hp
      rw [hroot', ← hf]
      exact hp

theorem inv_reach (h : system.Reach s) : Inv s :=
  StepSystem.Reach.invariant Inv (by rintro s rfl; exact ⟨treeInv_nil, List.Perm.nil⟩)
    (fun _ _ _ hI hs => inv_step hI hs) h

theorem fits_of_reach (h : system.Reach s) : system.ReachVia (fun s c => c.fits s) s :=
  h.reachVia fun _ _ _ h hs => fits_of_step (inv_reach h) hs

/-- The tree is a map of disjoint ranges, and `Find` and `IsRangeFree` answer for it. -/
structure RangeMap (s : State) : Prop where
  ordered : Ordered (ranges s.root)
  contents : (ranges s.root).Perm s.stored
  find : ∀ key r, (find key s.root).map AVLNode.range = some r ↔ r ∈ s.stored ∧ r.meets key key
  rangeFree : ∀ lowKey highKey, lowKey ≤ highKey →
    (isRangeFree lowKey highKey s.root = true ↔ ∀ r ∈ s.stored, ¬ r.meets lowKey highKey)

/-- The call returns; `Add` fails exactly when a stored range is in the way, and then changes nothing. -/
def CallRight (s : State) (c : Call) : Prop :=
  ∃ returned root', run s.root c = some (returned, root') ∧
    match c with
    | .add _ lowKey highKey =>
      (returned = false ↔ ∃ r ∈ s.stored, r.meets lowKey highKey) ∧ (returned = false → root' = s.root)
    | .remove _ => returned = true

theorem Inv.rangeMap (h : Inv s) : RangeMap s := by
  refine ⟨h.tree.ordered, h.contents.symm, fun key r => ?_, fun lowKey highKey _ => ?_⟩
  · rw [h.contents.mem_iff]
    constructor
    · intro hf
      obtain ⟨a, ha, rfl⟩ := map_eq_some_iff.1 hf
      obtain ⟨hm, hk⟩ := find_some ha
      exact ⟨List.mem_map_of_mem hm, hk⟩
    · rintro ⟨hr, hk⟩
      cases hf : AVLTree.find key s.root with
      | none => exact absurd hk (find_none h.tree hf r hr)
      | some a =>
        obtain ⟨hm, hka⟩ := find_some hf
        rw [map_some, h.tree.ordered.meets_unique (List.mem_map_of_mem hm) hr hka hk]
  · rw [isRangeFree_iff h.tree]
    exact ⟨fun hall r hr => hall r (h.contents.mem_iff.1 hr), fun hall r hr => hall r (h.contents.mem_iff.2 hr)⟩

theorem Inv.callRight (h : Inv s) (hc : c.legal s) (hf : c.fits s) : CallRight s c := by
  obtain ⟨⟨returned, root'⟩, hrun⟩ := isSome_iff_exists.1 ((run_isSome h hc).2 hf)
  refine ⟨returned, root', hrun, ?_⟩
  cases c with
  | add node lowKey highKey =>
    have ha := add_spec h.tree hrun
    cases ha with
    | refused hx hm => exact ⟨iff_of_true rfl ⟨_, h.contents.mem_iff.2 hx, hm⟩, fun _ => rfl⟩
    | inserted L R hroot hroot' hL hR =>
      refine ⟨iff_of_false (by decide) ?_, fun hfalse => by cases hfalse⟩
      rintro ⟨x, hx, hm⟩
      rw [h.contents.mem_iff, hroot, List.mem_append] at hx
      rcases hx with hx | hx
      · exact absurd hm.2 (Nat.not_le.2 (hL x hx))
      · exact absurd hm.1 (Nat.not_le.2 (hR x hx))
  | remove node =>
    obtain ⟨a, ha⟩ := isSome_iff_exists.1 hc
    simp only [run, ha, bind_some] at hrun
    exact (remove_spec h.tree (nodeAt_some ha).1 hrun).1

/-- **The area tree is a range map in every run whose calls fit the stack**: after every such run it holds
the ranges that were added and not removed, sorted and disjoint, the queries answer for them, and the next
call that fits returns what it should. -/
theorem areaTree_rangeMap {s : State} (h : system.ReachVia (fun s c => c.fits s) s) :
    RangeMap s ∧ ∀ c, c.legal s → c.fits s → CallRight s c := by
  have hI := inv_reach h.reach
  exact ⟨hI.rangeMap, fun c hc hf => hI.callRight hc hf⟩

/-! ## A tree of 33 nodes that is 32 levels deep -/

/-- One round on the keys above `w`: three adds and two removals leave one more level on the left. -/
def deepenCalls (w : Nat) : List Call :=
  [.add (w + 2) (w + 3) (w + 3), .add (w + 3) (w + 4) (w + 4), .add (w + 4) (w + 5) (w + 5),
    .remove (w + 4), .remove w]

def deepCalls : List Call :=
  [.add 2 3 3, .add 1 2 2, .add 3 4 4] ++ (List.range 30).flatMap fun i => deepenCalls (2 * i + 2)

theorem areaTree_rangeMap_run :
    ∃ s, system.exec ⟨.nil, []⟩ [.add 2 2 2, .add 1 1 1, .add 3 3 3, .remove 2] = some s ∧
      RangeMap s ∧ ∀ c, c.legal s → c.fits s → CallRight s c :=
  ⟨_, rfl, areaTree_rangeMap (fits_of_reach (StepSystem.reach_exec
    [.add 2 2 2, .add 1 1 1, .add 3 3 3, .remove 2] (.init rfl) rfl))⟩

/-- After `deepCalls`, the next `Add` of a key below all others writes `stack[32]`. -/
theorem deep_tree_overflows :
    ¬ ∀ s, system.Reach s → RangeMap s ∧ ∀ c, c.legal s → CallRight s c := by
  intro h
  have hrun : ((system.exec ⟨.nil, []⟩ deepCalls).any fun s =>
      decide ((Call.add 0 1 1).legal s) && (run s.root (.add 0 1 1)).isNone) = true := by
    decide +kernel
  obtain ⟨s, he, hs⟩ := (Option.any_eq_true _ _).1 hrun
  rw [Bool.and_eq_true, decide_eq_true_iff] at hs
  obtain ⟨hlegal, hnone⟩ := hs
  obtain ⟨returned, root', hrun', -⟩ := (h s (StepSystem.reach_exec _ (.init rfl) he)).2 _ hlegal
  rw [hrun'] at hnone
  cases hnone

end AVLTree