import SkyOS.Lib.BinTree
import SkyOS.Lib.Machine
import SkyOS.Lib.StepSystem

/-!
# `AVLTree` (`AVLTree.cpp`, `AVLTree.h`)

A tree of nodes is the `BinaryTree` that hangs to the right of `fDummyHead`; a null child is `nil`. The
array `stack[32]` of visited nodes is a path, deepest node first, and `none` is a write outside it: the
`ASSERT`s that would catch it are compiled out. A loop that never ends (`Remove` of a node whose range
lies inside another's) runs into the same `none`.

| here | there |
| --- | --- |
| `Frame.left p r` | a stack entry `p` left through `p->fLeft` |
| `plug stack t` | the tree, once `t` is linked where the walk stopped |
| `none` | a write past `stack[kMaxTreeHeight - 1]` |
| `some (false, _)` | the call returns 0 |
-/

namespace AVLTree

open BinaryTree (Frame plug)

def kMaxTreeHeight : Nat := 32

/-- A node; `ptr` is its address. -/
structure AVLNode where
  ptr : Nat
  fLowKey : Nat
  fHighKey : Nat
  fMaxChildDepth : Nat
deriving DecidableEq, Repr

abbrev Tree := BinaryTree AVLNode

abbrev Stack := List (Frame AVLNode)

/-! ## Nodes -/

/-- `RecomputeMaxChildDepth` (:29). -/
def recomputeMaxChildDepth : Tree → Tree
  | .nil => .nil
  | .node a l r =>
    .node { a with fMaxChildDepth :=
      match l, r with
      | .node cl _ _, .nil => cl.fMaxChildDepth + 1
      | .nil, .node cr _ _ => cr.fMaxChildDepth + 1
      | .nil, .nil => 0
      | .node cl _ _, .node cr _ _ =>
        (if cr.fMaxChildDepth > cl.fMaxChildDepth then cr.fMaxChildDepth else cl.fMaxChildDepth) + 1 } l r

/-- `GetBalance` (:42). -/
def getBalance : Tree → Int
  | .nil | .node _ .nil .nil => 0
  | .node _ .nil (.node cr _ _) => cr.fMaxChildDepth + 1
  | .node _ (.node cl _ _) .nil => -(cl.fMaxChildDepth + 1)
  | .node _ (.node cl _ _) (.node cr _ _) => (cr.fMaxChildDepth : Int) - cl.fMaxChildDepth

/-- `RotateLeft` (:54): the right child takes the place below the parent. It is only called on a node that
has one. -/
def rotateLeft : Tree → Tree
  | .node this l (.node child cl cr) =>
    recomputeMaxChildDepth (.node child (recomputeMaxChildDepth (.node this l cl)) cr)
  | t => t

/-- `RotateRight` (:68). -/
def rotateRight : Tree → Tree
  | .node this (.node child cl cr) r =>
    recomputeMaxChildDepth (.node child cl (recomputeMaxChildDepth (.node this cr r)))
  | t => t

/-- Lines 250-253: the right child leans left, so it is rotated first. -/
def straightenRight : Tree → Tree
  | .node a l r =>
    let r := recomputeMaxChildDepth r
    .node a l (if getBalance r < 0 then rotateRight r else r)
  | .nil => .nil

/-- Lines 257-260. -/
def straightenLeft : Tree → Tree
  | .node a l r =>
    let l := recomputeMaxChildDepth l
    .node a (if getBalance l > 0 then rotateLeft l else l) r
  | .nil => .nil

/-- One iteration of `FixBalance` (:245), on the subtree of `current`. -/
def rebalance (current : Tree) : Tree :=
  let current := recomputeMaxChildDepth current
  if getBalance current > 1 then rotateLeft (straightenRight current)
  else if getBalance current < -1 then rotateRight (straightenLeft current)
  else current

/-- `FixBalance` (:242), with `t` linked below `stack`. The entry at depth 0 is the dummy head, which is
left alone. -/
def fixBalance : Stack → Tree → Tree
  | [], t => t
  | [dummy], t => dummy.attach t
  | f :: g :: stack, t => fixBalance (g :: stack) (rebalance (f.attach t))

/-! ## The tree -/

/-- `fDummyHead`, with the real root as its right child. -/
def dummyHead : AVLNode := ⟨0, 0, 0, 0⟩

def head (root : Tree) : Tree := .node dummyHead .nil root

/-- The walk of `Add` (:87): where the new node is linked, or `some none` when a range is in the way. -/
def addLoop (lowKey highKey : Nat) (stack : Stack) : Tree → Option (Option Stack)
  | .nil => some (some stack)
  | .node parent l r =>
    if kMaxTreeHeight ≤ stack.length then none
    else if highKey < parent.fLowKey then addLoop lowKey highKey (.left parent r :: stack) l
    else if lowKey > parent.fHighKey ∨ parent.fHighKey = 0 then
      addLoop lowKey highKey (.right parent l :: stack) r
    else some none

/-- The parent had no child before (:97, :108). -/
def needsBalanceFixed : Stack → Bool
  | .left _ .nil :: _ | .right _ .nil :: _ => true
  | _ => false

/-- `Add` (:82). -/
def add (root : Tree) (node lowKey highKey : Nat) : Option (Bool × Tree) :=
  match addLoop lowKey highKey [] (head root) with
  | none => none
  | some none => some (false, root)
  | some (some stack) =>
    let leaf : Tree := .node ⟨node, lowKey, highKey, 0⟩ .nil .nil
    some (true, (if needsBalanceFixed stack then fixBalance stack leaf else plug stack leaf).right)

def isNode (node : AVLNode) : Tree → Bool
  | .nil => false
  | .node a _ _ => a.ptr = node.ptr

/-- The search of `Remove` (:137): the path to the node and its subtree. -/
def removeLoop (node : AVLNode) (stack : Stack) : Tree → Option (Option (Stack × Tree))
  | .nil => some none
  | .node parent l r =>
    if kMaxTreeHeight ≤ stack.length then none
    else if node.fLowKey < parent.fLowKey then
      if isNode node l then some (some (.left parent r :: stack, l))
      else removeLoop node (.left parent r :: stack) l
    else if node.fHighKey > parent.fHighKey then
      if isNode node r then some (some (.right parent l :: stack, r))
      else removeLoop node (.right parent l :: stack) r
    else none

/-- The loop of case 3 (:175) from `leftmostParent` with children `l` and `r`: the nodes pushed, the
successor, and `leftmostParent` without it (:183). -/
def leftmost (down : Stack) (leftmostParent : AVLNode) (r : Tree) : Tree → Option (Stack × AVLNode × Tree)
  | .nil => none
  | .node successor .nil sr => some (down, successor, .node leftmostParent sr r)
  | .node next l nr => leftmost (.left leftmostParent r :: down) next nr l

/-- The three cases of `Remove` (:156-190) for a node with children `l` and `r`: what takes its place, and
the stack from which the balance is fixed. In case 3 the entry reserved for the successor (`newStackEntry`)
is below the nodes pushed after it. -/
def splice (stack : Stack) (l : Tree) : Tree → Option (Stack × Tree)
  | .nil => some (stack, l)
  | .node successor .nil rr => some (stack, .node successor l rr)
  | .node right rl rr =>
    match leftmost [] right rr rl with
    | none => none
    | some (down, successor, t) =>
      let stack := down ++ .right successor l :: stack
      if stack.length ≤ kMaxTreeHeight then some (stack, t) else none

/-- `Remove` (:130). -/
def remove (root : Tree) (node : AVLNode) : Option (Bool × Tree) :=
  match removeLoop node [] (head root) with
  | some (some (stack, .node _ l r)) =>
    (splice stack l r).map fun (stack, t) => (true, (fixBalance stack t).right)
  | some _ => some (false, root)
  | none => none

/-- `Find` (:206). -/
def find (key : Nat) : Tree → Option AVLNode
  | .nil => none
  | .node a l r =>
    if key < a.fLowKey then find key l
    else if key > a.fHighKey then find key r
    else some a

/-- `IsRangeFree` (:227). -/
def isRangeFree (lowKey highKey : Nat) : Tree → Bool
  | .nil => true
  | .node a l r =>
    if highKey < a.fLowKey then isRangeFree lowKey highKey l
    else if lowKey > a.fHighKey then isRangeFree lowKey highKey r
    else false

/-- `Resize` (:221): the new end is `fLowKey + newSize`. -/
def resize (root : Tree) (node newSize : Nat) : Tree :=
  root.map fun a => if a.ptr = node then { a with fHighKey := Machine.u32 (a.fLowKey + newSize) } else a

/-! ## Runs -/

structure Range where
  node : Nat
  low : Nat
  high : Nat
deriving DecidableEq, Repr

def AVLNode.range (a : AVLNode) : Range := ⟨a.ptr, a.fLowKey, a.fHighKey⟩

def ranges (t : Tree) : List Range := t.inorder.map AVLNode.range

def nodeAt (root : Tree) (node : Nat) : Option AVLNode := root.inorder.find? (·.ptr = node)

/-- The tree, with the ranges that were added successfully and not yet removed. -/
structure State where
  root : Tree
  stored : List Range

inductive Call where
  | add (node lowKey highKey : Nat)
  | remove (node : Nat)
deriving DecidableEq, Repr

/-- `Add` of a node that is not in the tree, with a non-empty range that does not end at 0, and `Remove` of
a node that is. -/
def Call.legal (s : State) : Call → Prop
  | .add node lowKey highKey => nodeAt s.root node = none ∧ lowKey ≤ highKey ∧ 0 < highKey
  | .remove node => (nodeAt s.root node).isSome

instance (s : State) : (c : Call) → Decidable (c.legal s)
  | .add .. => inferInstanceAs (Decidable (_ ∧ _ ∧ _))
  | .remove _ => inferInstanceAs (Decidable (_ = true))

def run (root : Tree) : Call → Option (Bool × Tree)
  | .add node lowKey highKey => add root node lowKey highKey
  | .remove node => (nodeAt root node).bind (remove root)

def record (stored : List Range) : Call → Bool → List Range
  | .add node lowKey highKey, true => ⟨node, lowKey, highKey⟩ :: stored
  | .remove node, true => stored.filter (·.node ≠ node)
  | _, false => stored

def step (s : State) (c : Call) : Option State :=
  if c.legal s then (run s.root c).map fun (returned, root) => ⟨root, record s.stored c returned⟩ else none

def system : StepSystem State Call where
  init s := s = ⟨.nil, []⟩
  step := step

end AVLTree
