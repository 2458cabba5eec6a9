import Mathlib.Data.List.GetD
import Mathlib.Data.List.Nodup
import Mathlib.Data.Set.Function

/-!
# Chains of links

`next` says for each cell which one follows it; `last` is the number that ends a chain and is no cell.
`Chain next last c l` says that the links from `c` go through the cells of `l`, in order, and end. The list is
determined by its first cell, so it does not repeat itself, and it is the same for every `next` that agrees on it.
-/

namespace LinkChain

open Function (update update_apply update_of_ne update_self)
open List

variable {next next' : Nat → Nat} {last c a : Nat} {l l' : List Nat}

/-- The links from a cell go through `l` and end. -/
def Chain (next : Nat → Nat) (last : Nat) : Nat → List Nat → Prop
  | c, [] => c = last
  | c, x :: l => c = x ∧ x ≠ last ∧ Chain next last (next x) l

variable {x b : Nat} {pre post : List Nat}

theorem Chain.head (h : Chain next last c (x :: l)) : x = c := h.1.symm

theorem Chain.ne_last (h : Chain next last c l) : last ∉ l := by
  induction l generalizing c with
  | nil => exact not_mem_nil
  | cons x l ih =>
    obtain ⟨-, hx, hrest⟩ := h
    rw [mem_cons, not_or]
    exact ⟨hx.symm, ih hrest⟩

theorem Chain.congr (h : Chain next last c l) (heq : ∀ x ∈ l, next' x = next x) : Chain next' last c l := by
  induction l generalizing c with
  | nil => exact h
  | cons x l ih =>
    obtain ⟨hc, hx, hrest⟩ := h
    refine ⟨hc, hx, ?_⟩
    rw [heq x mem_cons_self]
    exact ih hrest fun y hy => heq y (mem_cons_of_mem x hy)

theorem Chain.unique (h : Chain next last c l) (h' : Chain next last c l') : l = l' := by
  induction l generalizing c l' with
  | nil =>
    cases l' with
    | nil => rfl
    | cons y l' =>
      obtain ⟨hy, hne, -⟩ := h'
      exact absurd (hy.symm.trans h) hne
  | cons x l ih =>
    obtain ⟨hc, hx, hrest⟩ := h
    cases l' with
    | nil => exact absurd (hc.symm.trans h') hx
    | cons y l' =>
      obtain ⟨hy, -, hrest'⟩ := h'
      obtain rfl : x = y := hc.symm.trans hy
      rw [ih hrest hrest']

theorem Chain.of_append (h : Chain next last c (l ++ l')) : ∃ x, Chain next last x l' := by
  induction l generalizing c with
  | nil => exact ⟨c, h⟩
  | cons x l ih => exact ih h.2.2

theorem Chain.nodup (h : Chain next last c l) : l.Nodup := by
  induction l generalizing c with
  | nil => exact nodup_nil
  | cons x l ih =>
    have hrest := h.2.2
    refine nodup_cons.2 ⟨fun hmem => ?_, ih hrest⟩
    obtain ⟨pre, post, rfl⟩ := append_of_mem hmem
    obtain ⟨y, htail⟩ := hrest.of_append
    obtain rfl := htail.head
    -- from the second visit of the cell on, the chain is the whole chain again
    have heq := (show Chain next last x (x :: (pre ++ x :: post)) from ⟨rfl, h.2.1, hrest⟩).unique htail
    have hlen := congrArg List.length heq
    simp only [length_cons, length_append] at hlen
    omega

theorem Chain.next_getElem (h : Chain next last c l) {k : Nat} (hk : k < l.length) :
    next l[k] = l.getD (k + 1) last := by
  induction l generalizing c k with
  | nil => cases hk
  | cons x l ih =>
    obtain ⟨-, -, hrest⟩ := h
    cases k with
    | zero =>
      cases l with
      | nil => exact hrest
      | cons y l => exact hrest.1
    | succ k =>
      rw [getElem_cons_succ, getD_cons_succ]
      exact ih hrest (Nat.lt_of_succ_lt_succ hk)

theorem Chain.getD_zero (h : Chain next last c l) : l.getD 0 last = c := by
  cases l with
  | nil => exact h.symm
  | cons x l => exact h.1.symm

theorem Chain.splice (h : Chain next last c (pre ++ b :: post))
    (hpre : ∀ x ∈ pre, next' x = next x) (hl : Chain next' last (next' b) l) : Chain next' last c (pre ++ b :: l) := by
  induction pre generalizing c with
  | nil => exact ⟨h.1, h.2.1, hl⟩
  | cons x pre ih =>
    obtain ⟨hc, hx, hrest⟩ := h
    refine ⟨hc, hx, ?_⟩
    rw [hpre x mem_cons_self]
    exact ih hrest fun y hy => hpre y (mem_cons_of_mem x hy)

theorem Chain.insert (h : Chain next last c (pre ++ b :: post)) (ha : a ≠ last)
    (hb : next' b = a) (hnext : next' a = next b)
    (hother : ∀ x ∈ pre ++ b :: post, x ≠ b → next' x = next x) : Chain next' last c (pre ++ b :: a :: post) := by
  have hnodup := nodup_middle.1 h.nodup
  have hne : ∀ x ∈ pre ++ post, x ≠ b := fun x hx hxb => (nodup_cons.1 hnodup).1 (hxb ▸ hx)
  obtain ⟨y, hy, -, hpost⟩ := h.of_append
  subst hy
  refine h.splice (fun x hx => ?_) ?_
  · exact hother x (mem_append_left _ hx) (hne x (mem_append_left _ hx))
  · rw [hb]
    refine ⟨rfl, ha, ?_⟩
    rw [hnext]
    exact hpost.congr fun x hx => hother x (by simp [hx]) (hne x (mem_append_right _ hx))

theorem Chain.append (h : Chain next last c l) (hl : l ≠ []) (ha : a ∉ l) (hal : a ≠ last) :
    Chain (update (update next a last) (l.getLast hl) a) last c (l ++ [a]) := by
  have hend : update (update next a last) (l.getLast hl) a a = last := by
    rw [update_of_ne, update_self]
    rintro heq
    exact ha (heq ▸ getLast_mem hl)
  induction l generalizing c next with
  | nil => exact absurd rfl hl
  | cons x l ih =>
    obtain ⟨hc, hx, hrest⟩ := h
    have hnodup := (show Chain next last c (x :: l) from ⟨hc, hx, hrest⟩).nodup
    refine ⟨hc, hx, ?_⟩
    cases l with
    | nil =>
      rw [getLast_singleton, update_self]
      rw [getLast_singleton] at hend
      exact ⟨rfl, hal, hend⟩
    | cons y l =>
      have hne : x ≠ (x :: y :: l).getLast hl := by
        rw [getLast_cons (cons_ne_nil y l)]
        intro heq
        exact (nodup_cons.1 hnodup).1 (heq ▸ getLast_mem (cons_ne_nil y l))
      have hxa : x ≠ a := by
        rintro rfl
        exact ha (.head _)
      rw [update_of_ne hne, update_of_ne hxa]
      rw [getLast_cons (cons_ne_nil y l)] at hend ⊢
      exact ih hrest (cons_ne_nil y l) (fun hmem => ha (mem_cons_of_mem x hmem)) hend

theorem chain_singleton (hc : c ≠ last) (h : next c = last) : Chain next last c [c] := ⟨rfl, hc, h⟩

/-- A link that is not 0 is in a chain of cells that are not 0, so no member of a chain is free. -/
theorem Chain.next_ne_zero (h : Chain next last c l) (hlast : last ≠ 0) (hpos : ∀ x ∈ l, x ≠ 0)
    (hx : x ∈ l) : next x ≠ 0 := by
  obtain ⟨k, hk, rfl⟩ := getElem_of_mem hx
  rw [h.next_getElem hk]
  by_cases hk' : k + 1 < l.length
  · rw [getD_eq_getElem l last hk']
    exact hpos _ (getElem_mem hk')
  · rw [getD_eq_default l last (by omega)]
    exact hlast

/-! ## Families of chains -/

/-- The chains of the members `i` with `used i`, from `start i`, own exactly the live cells that are not free. -/
structure Owns {ι : Type*} (next : Nat → Nat) (last free : Nat) (live : Nat → Prop) (used : ι → Prop)
    (start : ι → Nat) (chain : ι → List Nat) : Prop where
  chained : ∀ i, used i → Chain next last (start i) (chain i)
  nonempty : ∀ i, chain i ≠ [] ↔ used i
  disjoint : ∀ i j c, c ∈ chain i → c ∈ chain j → i = j
  inside : ∀ i, ∀ c ∈ chain i, live c ∧ next c ≠ free
  covered : ∀ c, live c → next c ≠ free → ∃ i, c ∈ chain i

section Owns

variable {ι : Type*} {free : Nat} {live : Nat → Prop} {used used' : ι → Prop} {start start' : ι → Nat}
  {chain : ι → List Nat} {i : ι}

/-- One chain is replaced by another. The cells it gives up become free, and the cells it takes were free. -/
theorem Owns.replace [DecidableEq ι] (h : Owns next last free live used start chain)
    (hused : ∀ j, j ≠ i → (used' j ↔ used j)) (hstart : ∀ j, j ≠ i → used j → start' j = start j)
    (hchain : used' i → Chain next' last (start' i) l) (hne : l ≠ [] ↔ used' i)
    (hkeep : ∀ c, live c → c ∉ chain i → c ∉ l → next' c = next c)
    (htake : ∀ c ∈ l, live c ∧ next' c ≠ free ∧ (c ∈ chain i ∨ next c = free))
    (hgive : ∀ c ∈ chain i, c ∉ l → next' c = free) :
    Owns next' last free live used' start' (update chain i l) := by
  -- the cells of the other chains are neither given up nor taken
  have hother : ∀ j, j ≠ i → ∀ c ∈ chain j, c ∉ chain i ∧ c ∉ l := by
    intro j hj c hc
    have hci : c ∉ chain i := fun hci => hj (h.disjoint j i c hc hci)
    refine ⟨hci, fun hcl => ?_⟩
    rcases (htake c hcl).2.2 with hmem | hfree
    · exact hci hmem
    · exact (h.inside j c hc).2 hfree
  have hsame : ∀ j, j ≠ i → ∀ c ∈ chain j, next' c = next c := fun j hj c hc =>
    hkeep c (h.inside j c hc).1 (hother j hj c hc).1 (hother j hj c hc).2
  constructor
  · intro j hj
    by_cases hji : j = i
    · subst hji
      rw [update_self]
      exact hchain hj
    · have hj' := (hused j hji).1 hj
      rw [update_of_ne hji, hstart j hji hj']
      exact (h.chained j hj').congr (hsame j hji)
  · intro j
    by_cases hji : j = i
    · subst hji
      rw [update_self]
      exact hne
    · rw [update_of_ne hji, hused j hji]
      exact h.nonempty j
  · intro j k c hj hk
    rw [update_apply] at hj hk
    split at hj <;> split at hk <;> rename_i hji hki
    · rw [hji, hki]
    · exact absurd hj (hother k hki c hk).2
    · exact absurd hk (hother j hji c hj).2
    · exact h.disjoint j k c hj hk
  · intro j c hc
    rw [update_apply] at hc
    split at hc
    · exact ⟨(htake c hc).1, (htake c hc).2.1⟩
    · rename_i hji
      rw [hsame j hji c hc]
      exact h.inside j c hc
  · intro c hc hnext
    by_cases hcl : c ∈ l
    · exact ⟨i, by rwa [update_self]⟩
    · have hci : c ∉ chain i := fun hci => hnext (hgive c hci hcl)
      rw [hkeep c hc hci hcl] at hnext
      obtain ⟨j, hj⟩ := h.covered c hc hnext
      have hji : j ≠ i := by
        rintro rfl
        exact hci hj
      exact ⟨j, by rwa [update_of_ne hji]⟩

/-- Only the links of the live cells matter. -/
theorem Owns.congr (h : Owns next last free live used start chain) (hnext : ∀ c, live c → next' c = next c)
    (hused : ∀ j, used' j ↔ used j) (hstart : ∀ j, used j → start' j = start j) :
    Owns next' last free live used' start' chain := by
  constructor
  · intro j hj
    rw [hstart j ((hused j).1 hj)]
    exact (h.chained j ((hused j).1 hj)).congr fun c hc => hnext c (h.inside j c hc).1
  · intro j
    rw [hused j]
    exact h.nonempty j
  · exact h.disjoint
  · intro j c hc
    rw [hnext c (h.inside j c hc).1]
    exact h.inside j c hc
  · intro c hc hfree
    rw [hnext c hc] at hfree
    exact h.covered c hc hfree

theorem Owns.start_mem (h : Owns next last free live used start chain) (hi : used i) : start i ∈ chain i := by
  have hchain := h.chained i hi
  have hne := (h.nonempty i).2 hi
  obtain ⟨x, l, hl⟩ := exists_cons_of_ne_nil hne
  rw [hl] at hchain ⊢
  rw [hchain.head]
  exact .head _

end Owns

theorem Chain.eq_getLast (h : Chain next last c l) (ha : a ∈ l) (hnext : next a = last) :
    a = l.getLast (ne_nil_of_mem ha) := by
  obtain ⟨k, hk, rfl⟩ := getElem_of_mem ha
  rw [h.next_getElem hk] at hnext
  have hend : ¬ k + 1 < l.length := by
    intro hlt
    rw [getD_eq_getElem l last hlt] at hnext
    exact h.ne_last (hnext ▸ getElem_mem hlt)
  rw [getLast_eq_getElem]
  congr 1
  omega

theorem Chain.next_mem (h : Chain next last c l) (ha : a ∈ l) : next a = last ∨ next a ∈ l := by
  obtain ⟨k, hk, rfl⟩ := getElem_of_mem ha
  rw [h.next_getElem hk]
  by_cases hlt : k + 1 < l.length
  · rw [getD_eq_getElem l last hlt]
    exact .inr (getElem_mem hlt)
  · rw [getD_eq_default l last (by omega)]
    exact .inl rfl

theorem chain_range' {s n c' : Nat} (hn : 0 < n) (hinside : ∀ x, s ≤ x → x + 1 < s + n → next x = x + 1)
    (hne : ∀ x, s ≤ x → x < s + n → x ≠ last) (hnext : next (s + n - 1) = c') (h : Chain next last c' l) :
    Chain next last s (List.range' s n ++ l) := by
  induction n generalizing s with
  | zero => cases hn
  | succ n ih =>
    refine ⟨rfl, hne s (le_refl s) (by omega), ?_⟩
    rcases Nat.eq_zero_or_pos n with rfl | hpos
    · rw [Nat.add_sub_cancel] at hnext
      rw [hnext]
      exact h
    · rw [hinside s (le_refl s) (by omega)]
      have hlast : s + 1 + n - 1 = s + (n + 1) - 1 := by omega
      exact ih hpos (fun x hx hx' => hinside x (by omega) (by omega)) (fun x hx hx' => hne x (by omega) (by omega))
        (by rw [hlast]; exact hnext)

end LinkChain
