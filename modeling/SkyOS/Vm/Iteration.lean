import SkyOS.Vm.Iterator

/-!
# Iterating over the areas (`AVLTreeIterator`, `AVLTree.cpp:267-329`)

`fStack` has room for `kMaxTreeHeight` nodes, which suffices for balanced trees. The iterator does not check it, and
`Remove` lets trees degenerate: on a tree of 34 levels the thirty-third entry is written into the memory behind the
iterator.

| here | there |
| --- | --- |
| `Visits` | what `GetCurrent` returns, from the current node until it is 0 |
| `turns` | the most ancestors that a node has on the stack while it is the current one |
-/

namespace AVLTree

open List

/-- The nodes that `GetCurrent` returns before it returns 0, with at most `depth` entries on the stack. -/
inductive Iterator.Visits (depth : Nat) : Iterator → List AVLNode → Prop where
  | done {it : Iterator} (h : it.fCurrentNode = none) : Visits depth it []
  | next {it it' : Iterator} {p : Place} {seq : List AVLNode} (hp : it.fCurrentNode = some p)
      (hdepth : it.fStack.length ≤ depth) (hnext : it.goToNext = some it') (h : Visits depth it' seq) :
      Visits depth it (p.node :: seq)

/-- In the order of the keys, or against it. -/
def KeyOrder (forward : Bool) (seq : List AVLNode) : Prop :=
  seq.Pairwise fun a b => if forward then a.fHighKey < b.fLowKey else b.fHighKey < a.fLowKey

/-- The iteration ends, each node was visited once and in order, and the stack was never higher than the tree. -/
def IteratesRight (root : Tree) (forward : Bool) : Prop :=
  ∃ it seq, Iterator.begin root forward = some it ∧ it.Visits root.height seq ∧
    seq.Perm root.inorder ∧ (seq.map AVLNode.ptr).Nodup ∧ KeyOrder forward seq

def turns (forward : Bool) : Tree → Nat
  | .nil => 0
  | .node a l r =>
    if Place.near forward ⟨a, l, r⟩ = .nil then (if forward then turns forward r else turns forward l)
    else if forward then max (turns forward l + 1) (turns forward r) else max (turns forward r + 1) (turns forward l)

theorem turns_node (forward : Bool) (a : AVLNode) (l r : Tree) : turns forward (.node a l r) =
    if Place.near forward ⟨a, l, r⟩ = .nil then turns forward (Place.far forward ⟨a, l, r⟩)
    else max (turns forward (Place.near forward ⟨a, l, r⟩) + 1) (turns forward (Place.far forward ⟨a, l, r⟩)) := by
  cases forward <;> rfl

/-! ## The stack while it lasts -/

def StackFits (forward : Bool) : List Place → Prop
  | [] => True
  | p :: stack => stack.length + turns forward (p.far forward) ≤ kMaxTreeHeight ∧ StackFits forward stack

def PlaceFits (forward : Bool) (p : Option Place) (stack : List Place) : Prop :=
  StackFits forward stack ∧ ∀ q, p = some q → stack.length + turns forward (q.far forward) ≤ kMaxTreeHeight

variable {t : Tree} {it : Iterator} {h : Nat}

variable {forward : Bool} {it' : Iterator} {root : Tree}

/-- The loop never leaves more on the stack than there is room for. -/
theorem descend_length : ∀ {stack stack' : List Place} {p : Option Place},
    stack.length ≤ kMaxTreeHeight → descend forward stack t = some (stack', p) → stack'.length ≤ kMaxTreeHeight := by
  induction t with
  | nil =>
    intro stack stack' p hlen hd
    cases hd
    exact hlen
  | node a l r ihl ihr =>
    intro stack stack' p hlen hd
    unfold descend at hd
    split at hd
    · cases hd
      exact hlen
    split at hd
    · cases hd
    split at hd
    · exact ihl (by rw [length_cons]; omega) hd
    · exact ihr (by rw [length_cons]; omega) hd

/-- **Going down** needs a place for each turn. -/
theorem descend_fits (forward : Bool) (t : Tree) : ∀ stack : List Place, stack.length ≤ kMaxTreeHeight →
    ((∃ stack' p, descend forward stack t = some (stack', p) ∧ PlaceFits forward p stack') ↔
      StackFits forward stack ∧ stack.length + turns forward t ≤ kMaxTreeHeight) := by
  induction t with
  | nil =>
    intro stack hlen
    constructor
    · rintro ⟨stack', p, hd, hfits⟩
      cases hd
      exact ⟨hfits.1, hlen⟩
    · rintro ⟨hfits, -⟩
      exact ⟨stack, none, rfl, hfits, fun q hq => by cases hq⟩
  | node a l r ihl ihr =>
    intro stack hlen
    rw [turns_node]
    unfold descend
    by_cases hnear : Place.near forward ⟨a, l, r⟩ = .nil
    · rw [if_pos hnear, if_pos hnear]
      constructor
      · rintro ⟨stack', p, hd, hfits⟩
        cases hd
        exact ⟨hfits.1, hfits.2 _ rfl⟩
      · rintro ⟨hfits, hroom⟩
        refine ⟨stack, _, rfl, hfits, fun q hq => ?_⟩
        cases hq
        exact hroom
    · rw [if_neg hnear, if_neg hnear]
      have hloop : (if kMaxTreeHeight ≤ stack.length then none
          else if forward = true then descend forward (⟨a, l, r⟩ :: stack) l
          else descend forward (⟨a, l, r⟩ :: stack) r) =
          if kMaxTreeHeight ≤ stack.length then none
          else descend forward (⟨a, l, r⟩ :: stack) (Place.near forward ⟨a, l, r⟩) := by
        cases forward <;> rfl
      rw [hloop]
      by_cases hfull : kMaxTreeHeight ≤ stack.length
      · rw [if_pos hfull]
        constructor
        · rintro ⟨stack', p, hd, -⟩
          cases hd
        · rintro ⟨-, hroom⟩
          omega
      · have hpush : (∃ stack' p, descend forward (⟨a, l, r⟩ :: stack) (Place.near forward ⟨a, l, r⟩) =
            some (stack', p) ∧ PlaceFits forward p stack') ↔ StackFits forward (⟨a, l, r⟩ :: stack) ∧
              stack.length + 1 + turns forward (Place.near forward ⟨a, l, r⟩) ≤ kMaxTreeHeight := by
          cases forward with
          | true => exact ihl (⟨a, l, r⟩ :: stack) (Nat.lt_of_not_le hfull)
          | false => exact ihr (⟨a, l, r⟩ :: stack) (Nat.lt_of_not_le hfull)
        rw [if_neg hfull, hpush, StackFits]
        constructor
        · rintro ⟨⟨hfar, hfits⟩, hroom⟩
          exact ⟨hfits, by omega⟩
        · rintro ⟨hfits, hroom⟩
          exact ⟨⟨by omega, hfits⟩, by omega⟩

def Iterator.Lasts (it : Iterator) : Prop := PlaceFits it.fIteratingForward it.fCurrentNode it.fStack

theorem begin_lasts (root : Tree) (forward : Bool) :
    (∃ it, Iterator.begin root forward = some it ∧ it.Lasts) ↔ turns forward root ≤ kMaxTreeHeight := by
  have hdescend := descend_fits forward root [] (Nat.zero_le _)
  simp only [StackFits, true_and, length_nil, Nat.zero_add] at hdescend
  rw [← hdescend]
  constructor
  · rintro ⟨it, hbegin, hfits⟩
    obtain ⟨⟨stack, p⟩, hd, rfl⟩ := Option.map_eq_some_iff.1 hbegin
    exact ⟨stack, p, hd, hfits⟩
  · rintro ⟨stack, p, hd, hfits⟩
    exact ⟨⟨forward, p, stack⟩, by rw [Iterator.begin, hd]; rfl, hfits⟩

theorem goToNext_lasts {p : Place} (hp : it.fCurrentNode = some p)
    (hlen : it.fStack.length ≤ kMaxTreeHeight) : (∃ it', it.goToNext = some it' ∧ it'.Lasts) ↔ it.Lasts := by
  obtain ⟨forward, current, stack⟩ := it
  cases hp
  have hhere : Iterator.Lasts ⟨forward, some p, stack⟩ ↔
      StackFits forward stack ∧ stack.length + turns forward (p.far forward) ≤ kMaxTreeHeight := by
    refine and_congr_right fun _ => ⟨fun h => h p rfl, fun h q hq => ?_⟩
    cases hq
    exact h
  rw [hhere]
  simp only [Iterator.goToNext]
  by_cases hfar : p.far forward = .nil
  · rw [if_neg (not_not.2 hfar), hfar, turns, Nat.add_zero, and_iff_left hlen]
    cases stack with
    | nil => exact iff_of_true ⟨_, rfl, trivial, fun q hq => by cases hq⟩ trivial
    | cons q stack =>
      constructor
      · rintro ⟨it', hnext, hfits⟩
        cases hnext
        exact ⟨hfits.2 q rfl, hfits.1⟩
      · intro hfits
        refine ⟨_, rfl, hfits.2, fun q' hq => ?_⟩
        cases hq
        exact hfits.1
  · rw [if_pos hfar, ← descend_fits forward (p.far forward) stack hlen]
    constructor
    · rintro ⟨it', hnext, hfits⟩
      obtain ⟨⟨stack', p'⟩, hd, rfl⟩ := Option.map_eq_some_iff.1 hnext
      exact ⟨stack', p', hd, hfits⟩
    · rintro ⟨stack', p', hd, hfits⟩
      exact ⟨⟨forward, p', stack'⟩, by rw [hd]; rfl, hfits⟩

/-! ## The height of the stack -/

theorem descend_room : ∀ {stack stack' : List Place} {p : Option Place},
    Room h stack → t.height + stack.length ≤ h → descend forward stack t = some (stack', p) →
      (Iterator.mk forward p stack').Fits h := by
  induction t with
  | nil =>
    intro stack stack' p hr ht hd
    cases hd
    exact ⟨hr, fun q hq => by cases hq⟩
  | node a l r ihl ihr =>
    intro stack stack' p hr ht hd
    simp only [BinaryTree.height] at ht
    unfold descend at hd
    split at hd
    · cases hd
      refine ⟨hr, fun q hq => ?_⟩
      cases hq
      exact ht
    split at hd
    · cases hd
    have hpush : Room h (⟨a, l, r⟩ :: stack) := ⟨ht, hr⟩
    split at hd
    · exact ihl hpush (by rw [length_cons]; omega) hd
    · exact ihr hpush (by rw [length_cons]; omega) hd

theorem goToNext_length (hlen : it.fStack.length ≤ kMaxTreeHeight)
    (hnext : it.goToNext = some it') : it'.fStack.length ≤ kMaxTreeHeight := by
  obtain ⟨forward, current, stack⟩ := it
  cases current with
  | none => cases hnext
  | some p =>
    simp only [Iterator.goToNext] at hnext
    split at hnext
    · obtain ⟨⟨stack', p'⟩, hd, rfl⟩ := Option.map_eq_some_iff.1 hnext
      exact descend_length hlen hd
    · cases stack with
      | nil =>
        cases hnext
        exact Nat.zero_le _
      | cons q stack =>
        cases hnext
        exact Nat.le_of_succ_le hlen

theorem goToNext_room (hf : it.Fits h) (hnext : it.goToNext = some it') : it'.Fits h := by
  obtain ⟨forward, current, stack⟩ := it
  obtain ⟨hr, hc⟩ := hf
  cases current with
  | none => cases hnext
  | some p =>
    have hfit := hc p rfl
    simp only [Iterator.goToNext] at hnext
    split at hnext
    · obtain ⟨⟨stack', p'⟩, hd, rfl⟩ := Option.map_eq_some_iff.1 hnext
      refine descend_room hr ?_ hd
      dsimp only at hfit
      cases forward with
      | true => simp only [Place.far, if_true]; omega
      | false => simp only [Place.far, Bool.false_eq_true, if_false]; omega
    · cases stack with
      | nil =>
        cases hnext
        exact ⟨trivial, fun q hq => by cases hq⟩
      | cons q stack =>
        cases hnext
        refine ⟨hr.2, fun q' hq => ?_⟩
        cases hq
        exact hr.1

/-! ## The iteration -/

/-- **While the stack lasts** the iteration goes on, through all that remains. -/
theorem Iterator.Lasts.visits (n : Nat) : ∀ {it : Iterator}, it.remaining.length = n → it.Lasts → it.Ok →
    it.Fits h → it.fStack.length ≤ kMaxTreeHeight → it.Visits h it.remaining := by
  induction n with
  | zero =>
    intro it hn _ _ _ _
    have hdone : it.fCurrentNode = none := by
      cases hp : it.fCurrentNode with
      | none => rfl
      | some p =>
        rw [remaining, hp] at hn
        cases hn
    rw [length_eq_zero_iff.1 hn]
    exact .done hdone
  | succ n ih =>
    intro it hn hlasts hok hf hlen
    cases hp : it.fCurrentNode with
    | none =>
      rw [remaining, hp, hok hp] at hn
      cases hn
    | some p =>
      obtain ⟨it', hnext, hlasts'⟩ := (goToNext_lasts hp hlen).2 hlasts
      obtain ⟨-, ⟨q, hq, hrem⟩, hok'⟩ := remaining_goToNext hnext
      rw [hp] at hq
      cases hq
      rw [hrem] at hn ⊢
      have hdepth := hf.2 p hp
      exact .next hp (by omega) hnext (ih (Nat.succ.inj hn) hlasts' hok' (goToNext_room hf hnext)
        (goToNext_length hlen hnext))

/-- An iteration that ends has had room on its stack. -/
theorem Iterator.Visits.lasts {depth : Nat} {seq : List AVLNode} (h : it.Visits depth seq) :
    it.Ok → it.fStack.length ≤ kMaxTreeHeight → it.Lasts := by
  induction h with
  | @done it hp =>
    intro hok _
    refine ⟨?_, fun q hq => ?_⟩
    · rw [hok hp]
      exact trivial
    · rw [hp] at hq
      cases hq
  | @next it it' p seq hp _ hnext _ ih =>
    intro _ hlen
    obtain ⟨-, -, hok'⟩ := remaining_goToNext hnext
    exact (goToNext_lasts hp hlen).1 ⟨it', hnext, ih hok' (goToNext_length hlen hnext)⟩

theorem keyOrder_order (h : Ordered (ranges root)) (forward : Bool) :
    KeyOrder forward (order forward root) := by
  have hpairs : root.inorder.Pairwise fun a b => a.fHighKey < b.fLowKey := pairwise_map.1 h
  cases forward with
  | true => exact hpairs
  | false => exact pairwise_reverse.2 hpairs

/-- **The iteration is right if and only if** no node comes before more than 32 of its ancestors. -/
theorem iteratesRight_iff {root : Tree} (h : TreeInv root) (forward : Bool) :
    IteratesRight root forward ↔ turns forward root ≤ kMaxTreeHeight := by
  rw [← begin_lasts]
  constructor
  · rintro ⟨it, seq, hbegin, hvisits, -⟩
    obtain ⟨-, -, hok⟩ := remaining_begin hbegin
    obtain ⟨⟨stack, p⟩, hd, rfl⟩ := Option.map_eq_some_iff.1 hbegin
    exact ⟨_, hbegin, hvisits.lasts hok (descend_length (Nat.zero_le _) hd)⟩
  · rintro ⟨it, hbegin, hlasts⟩
    obtain ⟨-, hrem, hok⟩ := remaining_begin hbegin
    obtain ⟨⟨stack, p⟩, hd, rfl⟩ := Option.map_eq_some_iff.1 hbegin
    have hroom : (Iterator.mk forward p stack).Fits root.height :=
      descend_room (show Room root.height [] from trivial) (Nat.le_refl _) hd
    have hvisits := hlasts.visits _ rfl hok hroom (descend_length (Nat.zero_le _) hd)
    rw [hrem] at hvisits
    have hperm : (order forward root).Perm root.inorder := by
      cases forward with
      | true => exact .refl _
      | false => exact List.reverse_perm _
    have hnodup : (root.inorder.map AVLNode.ptr).Nodup := by
      have hnodes := h.nodup
      rw [ranges, List.map_map] at hnodes
      exact hnodes
    exact ⟨_, _, hbegin, hvisits, hperm, ((hperm.map _).nodup_iff).2 hnodup, keyOrder_order h.ordered forward⟩

theorem turns_lt_height (forward : Bool) (h : t ≠ .nil) : turns forward t < t.height := by
  induction t with
  | nil => exact absurd rfl h
  | node a l r ihl ihr =>
    have hsub : ∀ s : Tree, (s ≠ .nil → turns forward s < s.height) → turns forward s ≤ s.height := by
      intro s hs
      by_cases hnil : s = .nil
      · rw [hnil]
        exact le_refl 0
      · exact (hs hnil).le
    have hl := hsub l ihl
    have hr := hsub r ihr
    rw [turns_node]
    cases forward with
    | true =>
      change (if l = .nil then turns true r else max (turns true l + 1) (turns true r)) < max l.height r.height + 1
      split
      · omega
      · next hnear =>
        have := ihl hnear
        omega
    | false =>
      change (if r = .nil then turns false l else max (turns false r + 1) (turns false l)) < max l.height r.height + 1
      split
      · omega
      · next hnear =>
        have := ihr hnear
        omega

theorem iteratesRight_of_height (h : TreeInv root) (hheight : root.height ≤ kMaxTreeHeight + 1)
    (forward : Bool) : IteratesRight root forward := by
  rw [iteratesRight_iff h]
  by_cases hnil : root = .nil
  · rw [hnil]
    exact Nat.zero_le _
  · have := turns_lt_height forward hnil
    omega

theorem iteratesRight_iff_run : ∃ s, system.exec ⟨.nil, []⟩ [.add 2 2 2, .add 1 1 1, .add 3 3 3, .remove 2] = some s ∧
    IteratesRight s.root true ∧ IteratesRight s.root false := by
  refine ⟨_, rfl, ?_⟩
  have hreach := StepSystem.reach_exec [Call.add 2 2 2, .add 1 1 1, .add 3 3 3, .remove 2] (M := system) (.init rfl) rfl
  exact ⟨(iteratesRight_iff (inv_reach hreach).tree true).2 (by decide),
    (iteratesRight_iff (inv_reach hreach).tree false).2 (by decide)⟩

/-- Two rounds of `deepenCalls` more than it takes to fill the path stack of `Add`. -/
theorem deep_tree_outlasts_stack : ¬ ∀ s, system.Reach s → ∀ forward, IteratesRight s.root forward := by
  intro h
  have hrun : ((system.exec ⟨.nil, []⟩ ([Call.add 2 3 3, .add 1 2 2, .add 3 4 4] ++
      (List.range 32).flatMap fun i => deepenCalls (2 * i + 2))).any fun s =>
        (Iterator.begin s.root true).isNone) = true := by
    decide +kernel
  obtain ⟨s, he, hs⟩ := (Option.any_eq_true _ _).1 hrun
  obtain ⟨it, seq, hbegin, -⟩ := h s (StepSystem.reach_exec _ (.init rfl) he) true
  rw [hbegin] at hs
  cases hs

end AVLTree
