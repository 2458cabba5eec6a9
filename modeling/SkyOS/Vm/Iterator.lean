import SkyOS.Vm.RangeMap

/-!
# `AVLTreeIterator` (`AVLTree.h:67`, `AVLTree.cpp:267-329`)

The iterator keeps its own stack `fStack[32]` of the nodes it passed on the way down, and does not check
it: `none` is a write past its end. `remaining` is the sequence still to be visited, the inorder sequence
of the tree at the start (`remaining_begin`) and one node shorter after each `GoToNext`.
-/

namespace AVLTree

/-- A non-null `AVLNode*`: the node with its subtrees. -/
structure Place where
  node : AVLNode
  left : Tree
  right : Tree

structure Iterator where
  fIteratingForward : Bool
  fCurrentNode : Option Place
  fStack : List Place

def Place.near (forward : Bool) (p : Place) : Tree := if forward then p.left else p.right

def Place.far (forward : Bool) (p : Place) : Tree := if forward then p.right else p.left

/-- The loop `while (fCurrentNode->fLeft)` (:276, :293), or with `fRight` when iterating backward. -/
def descend (forward : Bool) (stack : List Place) : Tree → Option (List Place × Option Place)
  | .nil => some (stack, none)
  | .node a l r =>
    if Place.near forward ⟨a, l, r⟩ = .nil then some (stack, some ⟨a, l, r⟩)
    else if kMaxTreeHeight ≤ stack.length then none
    else if forward then descend forward (⟨a, l, r⟩ :: stack) l
    else descend forward (⟨a, l, r⟩ :: stack) r

/-- The constructor (:267). -/
def Iterator.begin (root : Tree) (forward : Bool) : Option Iterator :=
  (descend forward [] root).map fun (stack, p) => ⟨forward, p, stack⟩

/-- `GoToNext` (:288). -/
def Iterator.goToNext (it : Iterator) : Option Iterator :=
  match it.fCurrentNode with
  | none => none
  | some p =>
    if p.far it.fIteratingForward ≠ .nil then
      (descend it.fIteratingForward it.fStack (p.far it.fIteratingForward)).map fun (stack, p) =>
        ⟨it.fIteratingForward, p, stack⟩
    else
      match it.fStack with
      | [] => some { it with fCurrentNode := none }
      | p :: stack => some { it with fCurrentNode := some p, fStack := stack }

/-! ## The sequence to come -/

def order (forward : Bool) (t : Tree) : List AVLNode := if forward then t.inorder else t.inorder.reverse

/-- What a node on the stack still stands for. -/
def Place.pending (forward : Bool) (p : Place) : List AVLNode := p.node :: order forward (p.far forward)

def pendingAll (forward : Bool) (p : Option Place) (stack : List Place) : List AVLNode :=
  p.elim [] (Place.pending forward) ++ stack.flatMap (Place.pending forward)

def Iterator.remaining (it : Iterator) : List AVLNode :=
  pendingAll it.fIteratingForward it.fCurrentNode it.fStack

theorem order_node (forward : Bool) (a : AVLNode) (l r : Tree) :
    order forward (.node a l r) =
      order forward (Place.near forward ⟨a, l, r⟩) ++ Place.pending forward ⟨a, l, r⟩ := by
  cases forward <;> simp [order, Place.near, Place.far, Place.pending]

variable {forward : Bool} {t root : Tree} {stack : List Place} {h : Nat}

theorem descend_spec {stack' : List Place} {p : Option Place}
    (h : descend forward stack t = some (stack', p)) :
    pendingAll forward p stack' = order forward t ++ stack.flatMap (Place.pending forward) ∧
      (p = none → t = .nil ∧ stack' = stack) := by
  induction t generalizing stack with
  | nil =>
    cases h
    exact ⟨by cases forward <;> rfl, fun _ => ⟨rfl, rfl⟩⟩
  | node a l r ihl ihr =>
    unfold descend at h
    split at h
    · rename_i hnear
      cases h
      refine ⟨?_, fun hp => by cases hp⟩
      rw [order_node, hnear]
      cases forward <;> rfl
    · rename_i hnear
      split at h
      · cases h
      · cases forward with
        | true =>
          obtain ⟨hrem, hnil⟩ := ihl h
          refine ⟨?_, fun hp => absurd (hnil hp).1 hnear⟩
          rw [hrem, order_node, List.flatMap_cons, List.append_assoc]
          rfl
        | false =>
          obtain ⟨hrem, hnil⟩ := ihr h
          refine ⟨?_, fun hp => absurd (hnil hp).1 hnear⟩
          rw [hrem, order_node, List.flatMap_cons, List.append_assoc]
          rfl

def Iterator.Ok (it : Iterator) : Prop := it.fCurrentNode = none → it.fStack = []

variable {it : Iterator}

theorem remaining_begin (h : Iterator.begin root forward = some it) :
    it.fIteratingForward = forward ∧ it.remaining = order forward root ∧ it.Ok := by
  obtain ⟨⟨stack, p⟩, hd, rfl⟩ := Option.map_eq_some_iff.1 h
  obtain ⟨hrem, hnil⟩ := descend_spec hd
  exact ⟨rfl, by simpa [Iterator.remaining] using hrem, fun hp => (hnil hp).2⟩

theorem remaining_goToNext {it' : Iterator} (h : it.goToNext = some it') :
    it'.fIteratingForward = it.fIteratingForward ∧
      (∃ p, it.fCurrentNode = some p ∧ it.remaining = p.node :: it'.remaining) ∧ it'.Ok := by
  obtain ⟨forward, current, stack⟩ := it
  cases current with
  | none => cases h
  | some p =>
    simp only [Iterator.goToNext] at h
    split at h
    · rename_i hfar
      obtain ⟨⟨stack', p'⟩, hd, rfl⟩ := Option.map_eq_some_iff.1 h
      obtain ⟨hrem, hnil⟩ := descend_spec hd
      refine ⟨rfl, ⟨p, rfl, ?_⟩, fun hp => absurd (hnil hp).1 hfar⟩
      change p.node :: (order forward (p.far forward) ++ _) = p.node :: pendingAll forward p' stack'
      rw [hrem]
    · rename_i hfar
      rw [not_not] at hfar
      have hpend : p.pending forward = [p.node] := by
        rw [Place.pending, hfar]
        cases forward <;> rfl
      cases stack with
      | nil =>
        cases h
        refine ⟨rfl, ⟨p, rfl, ?_⟩, fun _ => rfl⟩
        simp [Iterator.remaining, pendingAll, hpend]
      | cons q stack =>
        cases h
        refine ⟨rfl, ⟨p, rfl, ?_⟩, fun hq => by cases hq⟩
        simp [Iterator.remaining, pendingAll, hpend]

/-! ## The stack suffices for a tree of at most 32 levels -/

/-- Below each stacked node there is room for its subtree. -/
def Room (h : Nat) : List Place → Prop
  | [] => True
  | p :: stack => max p.left.height p.right.height + 1 + stack.length ≤ h ∧ Room h stack

theorem descend_isSome (hh : h ≤ kMaxTreeHeight) (forward : Bool)
    (hr : Room h stack) (ht : t.height + stack.length ≤ h) :
    ∃ stack' p, descend forward stack t = some (stack', p) ∧ Room h stack' ∧
      ∀ q, p = some q → max q.left.height q.right.height + 1 + stack'.length ≤ h := by
  induction t generalizing stack with
  | nil => exact ⟨stack, none, rfl, hr, fun q hq => by cases hq⟩
  | node a l r ihl ihr =>
    simp only [BinaryTree.height] at ht
    unfold descend
    split
    · exact ⟨stack, some ⟨a, l, r⟩, rfl, hr, fun q hq => by cases hq; exact ht⟩
    · rw [if_neg (by omega)]
      have hpush : Room h (⟨a, l, r⟩ :: stack) := ⟨ht, hr⟩
      split
      · exact ihl hpush (by rw [List.length_cons]; omega)
      · exact ihr hpush (by rw [List.length_cons]; omega)

def Iterator.Fits (h : Nat) (it : Iterator) : Prop :=
  Room h it.fStack ∧ ∀ p, it.fCurrentNode = some p → max p.left.height p.right.height + 1 + it.fStack.length ≤ h

theorem begin_isSome (hh : root.height ≤ kMaxTreeHeight) (forward : Bool) :
    ∃ it, Iterator.begin root forward = some it ∧ it.Fits root.height := by
  obtain ⟨stack, p, hd, hr, hp⟩ :=
    descend_isSome hh forward (show Room root.height [] from trivial) (le_refl root.height)
  exact ⟨⟨forward, p, stack⟩, by rw [Iterator.begin, hd]; rfl, hr, hp⟩

theorem goToNext_isSome (hh : h ≤ kMaxTreeHeight) (hf : it.Fits h) {p : Place}
    (hp : it.fCurrentNode = some p) : ∃ it', it.goToNext = some it' ∧ it'.Fits h := by
  obtain ⟨forward, current, stack⟩ := it
  obtain ⟨hr, hc⟩ := hf
  cases hp
  have hfit := hc p rfl
  simp only [Iterator.goToNext]
  split
  · have hfar : (p.far forward).height + stack.length ≤ h := by
      cases forward <;> simp only [Place.far] <;> dsimp only at hfit <;> simp <;> omega
    obtain ⟨stack', p', hd, hr', hp'⟩ := descend_isSome hh forward hr hfar
    exact ⟨⟨forward, p', stack'⟩, by rw [hd]; rfl, hr', hp'⟩
  · cases stack with
    | nil => exact ⟨_, rfl, trivial, fun q hq => by cases hq⟩
    | cons q stack => exact ⟨_, rfl, hr.2, fun q' hq => by cases hq; exact hr.1⟩

end AVLTree
