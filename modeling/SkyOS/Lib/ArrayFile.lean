import Mathlib.Data.List.Basic

/-!
# Files as arrays with a cursor

What a file is for the one who reads and writes it through a handle: an array that grows at its end, and a place in it.
A call reads or writes from the place on and leaves it behind the last element. Where the array is given element by
element, by a function on indices, so is the result of each call (`read_map_range`, `write_map_range`).
-/

universe u

structure ArrayFile (α : Type u) where
  content : List α
  cursor : Nat
deriving DecidableEq

namespace ArrayFile

open List

variable {α : Type u}

def rest (file : ArrayFile α) : Nat := file.content.length - file.cursor

/-- What a read of `n` elements returns. -/
def read (file : ArrayFile α) (n : Nat) : List α := (file.content.drop file.cursor).take n

def afterRead (file : ArrayFile α) (n : Nat) : ArrayFile α := { file with cursor := file.cursor + min n file.rest }

def write (file : ArrayFile α) (elements : List α) : ArrayFile α where
  content := file.content.take file.cursor ++ elements ++ file.content.drop (file.cursor + elements.length)
  cursor := file.cursor + elements.length

def seek (file : ArrayFile α) (target : Nat) : ArrayFile α := { file with cursor := target }

theorem read_map_range (f : Nat → α) (n c k : Nat) :
    (⟨(List.range n).map f, c⟩ : ArrayFile α).read k = (List.range (min k (n - c))).map fun j => f (c + j) := by
  refine ext_getElem ?_ fun i hi hi' => ?_
  · simp [read]
  · simp [read]

theorem write_map_range (f g : Nat → α) {n c : Nat} (k : Nat) (h : c ≤ n) :
    ((⟨(List.range n).map f, c⟩ : ArrayFile α).write ((List.range k).map g)).content
      = (List.range (max n (c + k))).map fun x => if c ≤ x ∧ x < c + k then g (x - c) else f x := by
  refine ext_getElem ?_ fun i hi hi' => ?_
  · simp [write]
    omega
  · rw [length_map, length_range] at hi'
    have htake : (((List.range n).map f).take c).length = c := by simp [h]
    have hmid : (((List.range n).map f).take c ++ (List.range k).map g).length = c + k := by simp [h]
    simp only [write, length_map, length_range, getElem_map, getElem_range]
    by_cases hin : i < c + k
    · rw [getElem_append_left (by omega)]
      by_cases hlow : i < c
      · rw [getElem_append_left (by omega), if_neg (by omega)]
        simp
      · rw [getElem_append_right (by omega), if_pos ⟨by omega, hin⟩]
        simp [h]
    · rw [getElem_append_right (by omega), if_neg (by omega)]
      simp [h]
      congr 1
      omega

end ArrayFile
