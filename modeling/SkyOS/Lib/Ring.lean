import Mathlib.Data.List.Range
import Mathlib.Logic.Function.Basic

/-!
# Ring buffers

`n` slots used in turn: the queue is what the `len` slots from `get` on hold, modulo `n`. An item is added in the slot
behind the last one and removed by moving on from the first.
-/

namespace Ring

open List Nat

universe u

variable {α : Type u} {slot slot' : Nat → α} {n get len : Nat}

def contents (slot : Nat → α) (n get len : Nat) : List α := (List.range len).map fun k => slot ((get + k) % n)

theorem contents_congr (h : ∀ i < n, slot' i = slot i) (hn : 0 < n) : contents slot' n get len = contents slot n get len :=
  map_congr_left fun _ _ => h _ (mod_lt _ hn)

theorem contents_succ (slot : Nat → α) (n get len : Nat) :
    contents slot n get (len + 1) = contents slot n get len ++ [slot ((get + len) % n)] := by
  simp [contents, range_succ]

theorem mod_ne {j k : Nat} (hj : j < k) (hk : k < n) : (get + j) % n ≠ (get + k) % n := by
  intro h
  have hdiv := sub_mod_eq_zero_of_mod_eq h.symm
  rw [Nat.add_sub_add_left] at hdiv
  rw [mod_eq_of_lt (by omega)] at hdiv
  omega

theorem contents_put (hlen : len < n) (x : α) :
    contents (Function.update slot ((get + len) % n) x) n get (len + 1) = contents slot n get len ++ [x] := by
  rw [contents_succ, Function.update_self]
  congr 1
  refine map_congr_left fun k hk => Function.update_of_ne ?_ x slot
  exact mod_ne (mem_range.1 hk) hlen

theorem contents_get (hget : get < n) :
    contents slot n get (len + 1) = slot get :: contents slot n ((get + 1) % n) len := by
  rw [contents, range_succ_eq_map, map_cons, Nat.add_zero, mod_eq_of_lt hget, map_map, contents]
  congr 1
  refine map_congr_left fun k _ => congrArg slot ?_
  rw [mod_add_mod, Nat.add_assoc, Nat.add_comm 1 k]

end Ring
