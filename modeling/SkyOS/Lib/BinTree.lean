import Mathlib.Data.Nat.Fib.Basic
import Mathlib.Data.Tree.Basic

/-!
# Binary trees: paths, inorder and balance

A loop that walks down from the root and keeps the nodes it passed is a zipper: the deepest `Frame`
first, each with the child that was not taken. `plug` puts a subtree back below a path. What the rest of
a tree contributes to the inorder sequence and to the height is read off the path alone
(`inorder_plug`), so an update of a subtree is an update of one segment of the sequence.
`fib_le_numNodes` is the bound that makes balanced trees shallow.
-/

namespace BinaryTree

universe u

variable {α : Type u}

def inorder : BinaryTree α → List α
  | nil => []
  | node a l r => l.inorder ++ a :: r.inorder

@[simp] theorem inorder_nil : (nil : BinaryTree α).inorder = [] := rfl

@[simp] theorem inorder_node (a : α) (l r : BinaryTree α) :
    (node a l r).inorder = l.inorder ++ a :: r.inorder := rfl

theorem length_inorder (t : BinaryTree α) : t.inorder.length = t.numNodes := by
  induction t with
  | nil => rfl
  | node a l r ihl ihr =>
    simp only [inorder_node, numNodes, List.length_append, List.length_cons, ihl, ihr]
    omega

theorem inorder_map {β : Type u} (f : α → β) (t : BinaryTree α) : (t.map f).inorder = t.inorder.map f := by
  induction t with
  | nil => rfl
  | node a l r ihl ihr => simp [BinaryTree.map, ihl, ihr]

/-! ## Paths -/

inductive Frame (α : Type u) where
  | left (a : α) (r : BinaryTree α)
  | right (a : α) (l : BinaryTree α)

def Frame.attach : Frame α → BinaryTree α → BinaryTree α
  | .left a r, t => node a t r
  | .right a l, t => node a l t

/-- The whole tree, when `t` hangs below the path `fs`. -/
def plug : List (Frame α) → BinaryTree α → BinaryTree α
  | [], t => t
  | f :: fs, t => plug fs (f.attach t)

@[simp] theorem plug_nil (t : BinaryTree α) : plug [] t = t := rfl

@[simp] theorem plug_cons (f : Frame α) (fs : List (Frame α)) (t : BinaryTree α) :
    plug (f :: fs) t = plug fs (f.attach t) := rfl

theorem plug_append (fs gs : List (Frame α)) (t : BinaryTree α) : plug (fs ++ gs) t = plug gs (plug fs t) := by
  induction fs generalizing t with
  | nil => rfl
  | cons f fs ih => exact ih (f.attach t)

def before : List (Frame α) → List α
  | [] => []
  | .left _ _ :: fs => before fs
  | .right a l :: fs => before fs ++ l.inorder ++ [a]

def after : List (Frame α) → List α
  | [] => []
  | .left a r :: fs => a :: (r.inorder ++ after fs)
  | .right _ _ :: fs => after fs

theorem inorder_plug (fs : List (Frame α)) (t : BinaryTree α) :
    (plug fs t).inorder = before fs ++ t.inorder ++ after fs := by
  induction fs generalizing t with
  | nil => simp [before, after]
  | cons f fs ih =>
    rw [plug_cons, ih]
    cases f <;> simp [Frame.attach, before, after]

/-! ## Balance -/

def Balanced : BinaryTree α → Prop
  | nil => True
  | node _ l r => l.Balanced ∧ r.Balanced ∧ l.height ≤ r.height + 1 ∧ r.height ≤ l.height + 1

variable {t : BinaryTree α}

/-- A balanced tree of height `h` has at least `fib (h + 2) - 1` nodes. -/
theorem fib_le_numNodes (h : t.Balanced) : Nat.fib (t.height + 2) ≤ t.numNodes + 1 := by
  induction t with
  | nil => simp
  | node a l r ihl ihr =>
    obtain ⟨hl, hr, hlr, hrl⟩ := h
    have ihl := ihl hl
    have ihr := ihr hr
    -- the higher child has at least `fib (m + 2)`, the lower at least `fib (m + 1)`
    have hsum : Nat.fib (max l.height r.height + 3) =
        Nat.fib (max l.height r.height + 1) + Nat.fib (max l.height r.height + 2) := Nat.fib_add_two
    simp only [height, numNodes]
    rw [Nat.add_right_comm, hsum]
    rcases Nat.le_total l.height r.height with hle | hle
    · rw [Nat.max_eq_right hle]
      have := Nat.fib_mono (by omega : r.height + 1 ≤ l.height + 2)
      omega
    · rw [Nat.max_eq_left hle]
      have := Nat.fib_mono (by omega : l.height + 1 ≤ r.height + 2)
      omega

theorem height_le_of_fib (h : t.Balanced) {k : Nat} (hk : t.numNodes + 1 < Nat.fib (k + 3)) :
    t.height ≤ k := by
  by_contra hlt
  have := Nat.fib_mono (by omega : k + 3 ≤ t.height + 2)
  have := fib_le_numNodes h
  omega

end BinaryTree
