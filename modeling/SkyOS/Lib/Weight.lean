import Mathlib.Algebra.BigOperators.Group.Finset.Piecewise
import Mathlib.Algebra.Order.BigOperators.Group.Finset
import Mathlib.Data.Fintype.Card
import Mathlib.Data.Int.Order.Basic
import Mathlib.Algebra.Order.Group.Int

/-!
# Counting the threads of a family by weight

A system of finitely many threads is a function from threads to local states. `total w f` adds a
weight over all threads: with a 0/1 weight it is the number of threads in a set of local states.
One thread moving changes a total by the difference of two weights (`total_update`).
-/

namespace Weight

open Finset

variable {ι κ : Type*} [Fintype ι]

def total (w : κ → ℤ) (f : ι → κ) : ℤ := ∑ i, w (f i)

theorem total_update [DecidableEq ι] (w : κ → ℤ) (f : ι → κ) (i : ι) (q : κ) :
    total w (Function.update f i q) = total w f - w (f i) + w q := by
  have h1 : (fun j => w (Function.update f i q j)) = Function.update (fun j => w (f j)) i (w q) := by
    funext j
    by_cases hj : j = i
    · subst hj; simp
    · simp [hj]
  have h2 := sum_update_of_mem (mem_univ i) (fun j => w (f j)) (w q)
  have h3 := add_sum_erase Finset.univ (fun j => w (f j)) (mem_univ i)
  rw [sdiff_singleton_eq_erase] at h2
  unfold total
  rw [h1, h2, ← h3]
  omega

variable {w : κ → ℤ}

theorem total_const_zero {f : ι → κ} (h : ∀ i, w (f i) = 0) : total w f = 0 :=
  sum_eq_zero fun i _ => h i

theorem total_nonneg (hw : ∀ x, 0 ≤ w x) (f : ι → κ) : 0 ≤ total w f :=
  sum_nonneg fun i _ => hw (f i)

theorem le_total (hw : ∀ x, 0 ≤ w x) (f : ι → κ) (i : ι) : w (f i) ≤ total w f :=
  single_le_sum (f := fun j => w (f j)) (fun j _ => hw (f j)) (mem_univ i)

theorem total_le_card (hw : ∀ x, w x ≤ 1) (f : ι → κ) : total w f ≤ Fintype.card ι := by
  have h := sum_le_card_nsmul Finset.univ (fun i => w (f i)) 1 fun i _ => hw (f i)
  simpa [total] using h

theorem total_add (v w : κ → ℤ) (f : ι → κ) : total (fun x => v x + w x) f = total v f + total w f :=
  sum_add_distrib

end Weight
