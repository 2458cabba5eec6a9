import Mathlib.Logic.Function.Basic
import SkyOS.Windowing.DisjointRects

/-!
# Merging the rectangles of a region (`Region::optimize`, `WindowingSystem/Region.cpp:215`)

Two rectangles of one height are merged where the right side of the first is the left side of the second. Both sides
are inclusive, so rectangles that do not overlap never pass this test; but the inner loop starts at the rectangle of
the outer one, and a rectangle of one column passes it with itself. It is then taken out of the array, and the one
behind the last is moved into it.

| here | there |
| --- | --- |
| `Rects.fRects` | the memory at `fRects`, beyond `fNumRects` as well |
| `Rects.reads` | the indices that were read, the last one first |
| `rounds` | a bound for the rounds of a loop: more of them change nothing |
-/

namespace Windowing

open List

structure Rects where
  fRects : Nat → Rect
  count : Nat
  reads : List Nat

theorem Region.Right.sublist {r r' : Region} (h : r.Right) (hsub : r'.Sublist r) : r'.Right :=
  ⟨fun rect hmem => h.valid rect (hsub.subset hmem), h.disjoint.sublist hsub⟩

namespace Rects

def region (s : Rects) : Region := (List.range s.count).map s.fRects

/-- `fRects[k] = fRects[k + 1]` (:225). -/
def moveRect (s : Rects) (k : Nat) : Rects :=
  { s with fRects := Function.update s.fRects k (s.fRects (k + 1)), reads := (k + 1) :: s.reads }

/-- The loop over `k` (:225). -/
def moveLoop : Nat → Nat → Rects → Rects
  | 0, _, s => s
  | rounds + 1, k, s => moveLoop rounds (k + 1) (s.moveRect k)

/-- The test (:220). -/
def adjacent (a b : Rect) : Bool := a.top = b.top ∧ a.bottom = b.bottom ∧ a.right = b.left

/-- What is done with two adjacent ones (:223). -/
def merge (s : Rects) (i j : Nat) : Rects :=
  let merged := { s with fRects := Function.update s.fRects i { s.fRects i with right := (s.fRects j).right } }
  { moveLoop (s.count - j) j merged with count := s.count - 1 }

/-- The loop over `j` (:219). -/
def innerLoop (i : Nat) : Nat → Nat → Rects → Rects
  | 0, _, s => s
  | rounds + 1, j, s =>
    if j < s.count then
      let tested := { s with reads := i :: j :: s.reads }
      if adjacent (s.fRects i) (s.fRects j) then innerLoop i rounds j (tested.merge i j)
      else innerLoop i rounds (j + 1) tested
    else s

/-- The loop over `i` (:218). -/
def outerLoop : Nat → Nat → Rects → Rects
  | 0, _, s => s
  | rounds + 1, i, s =>
    if i < s.count then outerLoop rounds (i + 1) (innerLoop i (s.count - i) i s) else s

/-- `optimize` (:215). -/
def optimize (fRects : Nat → Rect) (fNumRects : Nat) : Rects := outerLoop fNumRects 0 ⟨fRects, fNumRects, []⟩

/-! ## Taking a rectangle out -/

theorem moveLoop_fRects (rounds : Nat) : ∀ (k : Nat) (s : Rects) (l : Nat), (moveLoop rounds k s).fRects l =
    if k ≤ l ∧ l < k + rounds then s.fRects (l + 1) else s.fRects l := by
  induction rounds with
  | zero =>
    intro k s l
    rw [if_neg (by omega)]
    rfl
  | succ rounds ih =>
    intro k s l
    rw [moveLoop, ih]
    simp only [moveRect, Function.update_apply]
    by_cases hmoved : k + 1 ≤ l ∧ l < k + 1 + rounds
    · rw [if_pos hmoved, if_neg (by omega), if_pos (by omega)]
    · rw [if_neg hmoved]
      by_cases hl : l = k
      · rw [if_pos hl, if_pos (by omega), hl]
      · rw [if_neg hl, if_neg (by omega)]

variable {s : Rects} {i j : Nat}

theorem fRects_merge_self (k : Nat) : (s.merge i i).fRects k =
    if i ≤ k ∧ k < i + (s.count - i) then s.fRects (k + 1) else s.fRects k := by
  simp only [merge, Function.update_eq_self]
  exact moveLoop_fRects _ _ _ _

theorem count_eq {rects : List Rect} (hregion : s.region = rects) : s.count = rects.length := by
  rw [← hregion]
  simp [region]

variable {pre rest : List Rect} {c : Rect}

theorem fRects_eq (hregion : s.region = pre ++ c :: rest) :
    s.fRects pre.length = c := by
  have hat : s.region[pre.length]? = some c := by simp [hregion]
  have hcount := count_eq hregion
  simpa [region, hcount] using hat

/-- A rectangle that is merged with itself is lost. -/
theorem region_merge_self (hregion : s.region = pre ++ c :: rest) :
    (s.merge pre.length pre.length).region = pre ++ rest := by
  have hcount : s.count = pre.length + rest.length + 1 := by
    simp [count_eq hregion, Nat.add_assoc]
  have hat : ∀ k, k < s.count → (pre ++ c :: rest)[k]? = some (s.fRects k) := by
    intro k hk
    rw [← hregion]
    simp [region, hk]
  have hcount' : (s.merge pre.length pre.length).count = pre.length + rest.length := by
    simp [merge, hcount]
  refine List.ext_getElem? fun k => ?_
  rw [region, hcount', List.getElem?_map]
  by_cases hk : k < pre.length + rest.length
  · rw [List.getElem?_range hk, Option.map_some, fRects_merge_self]
    by_cases hpre : k < pre.length
    · rw [if_neg (by omega), ← hat k (by omega), List.getElem?_append_left hpre,
        List.getElem?_append_left hpre]
    · rw [if_pos (by omega), ← hat (k + 1) (by omega), List.getElem?_append_right (by omega),
        List.getElem?_append_right (by omega), show k + 1 - pre.length = (k - pre.length) + 1 by omega,
        List.getElem?_cons_succ]
  · rw [List.getElem?_eq_none (by simpa using hk), List.getElem?_eq_none (by simpa using hk)]
    rfl

/-! ## The loops over disjoint rectangles -/

def thin (c : Rect) : Bool := c.left = c.right

theorem adjacent_self (c : Rect) : adjacent c c = thin c := by
  simp [adjacent, thin, eq_comm]

/-- Two different rectangles of the region are never adjacent: they would share a column. -/
theorem not_adjacent (hright : s.region.Right) (hi : i < s.count) (hj : j < s.count) (hne : i ≠ j) :
    adjacent (s.fRects i) (s.fRects j) = false := by
  by_contra hadj
  simp only [adjacent, Bool.not_eq_false, decide_eq_true_eq] at hadj
  have hvalid : ∀ k, k < s.count → (s.fRects k).valid = true := fun k hk =>
    hright.valid _ (mem_map.2 ⟨k, mem_range.2 hk, rfl⟩)
  have hvi := hvalid i hi
  have hvj := hvalid j hj
  simp only [Rect.valid_iff] at hvi hvj
  have hapart : ∀ k l, k < l → l < s.count → ∀ x y,
      ¬ ((s.fRects k).contains x y = true ∧ (s.fRects l).contains x y = true) := by
    intro k l hkl hl
    have hlen : s.region.length = s.count := by simp [region]
    have hget := pairwise_iff_getElem.1 hright.disjoint k l (by omega) (by omega) hkl
    simpa [region] using hget
  have hin : (s.fRects i).contains (s.fRects i).right (s.fRects i).top = true ∧
      (s.fRects j).contains (s.fRects i).right (s.fRects i).top = true := by
    simp only [Rect.contains_iff]
    omega
  rcases Nat.lt_or_gt_of_ne hne with hlt | hlt
  · exact hapart i j hlt hj _ _ hin
  · exact hapart j i hlt hi _ _ hin.symm

theorem innerLoop_behind (rounds : Nat) : ∀ (j : Nat) (s : Rects), s.region.Right → i < j →
    (innerLoop i rounds j s).fRects = s.fRects ∧ (innerLoop i rounds j s).count = s.count ∧
      ∀ l ∈ (innerLoop i rounds j s).reads, l ∈ s.reads ∨ l < s.count := by
  induction rounds with
  | zero => exact fun j s _ _ => ⟨rfl, rfl, fun l hl => .inl hl⟩
  | succ rounds ih =>
    intro j s hright hij
    rw [innerLoop]
    split
    · rename_i hj
      have hnot := not_adjacent hright (by omega) hj (by omega : i ≠ j)
      rw [if_neg (by simp [hnot])]
      obtain ⟨hrects, hcount, hreads⟩ := ih (j + 1) { s with reads := i :: j :: s.reads } hright (by omega)
      refine ⟨hrects, hcount, fun l hl => ?_⟩
      rcases hreads l hl with hold | hnew
      · simp only [mem_cons] at hold
        rcases hold with rfl | rfl | hold
        · exact .inr (by omega)
        · exact .inr hj
        · exact .inl hold
      · exact .inr hnew
    · exact ⟨rfl, rfl, fun l hl => .inl hl⟩

theorem region_innerLoop (rounds : Nat) : ∀ (s : Rects) (pre rest : List Rect), s.region = pre ++ rest →
    s.region.Right → rest.length ≤ rounds →
      (innerLoop pre.length rounds pre.length s).region = pre ++ rest.dropWhile thin := by
  induction rounds with
  | zero =>
    intro s pre rest hregion _ hlen
    obtain rfl := length_eq_zero_iff.1 (Nat.le_zero.1 hlen)
    rw [innerLoop, hregion]
    rfl
  | succ rounds ih =>
    intro s pre rest hregion hright hlen
    have hcount := count_eq hregion
    cases rest with
    | nil =>
      rw [innerLoop, if_neg (by simp [hcount]), hregion]
      rfl
    | cons c rest =>
      have hat := fRects_eq hregion
      rw [innerLoop, if_pos (by simp [hcount]), hat, adjacent_self, dropWhile_cons]
      by_cases hthin : thin c = true
      · have htaken : (merge { s with reads := pre.length :: pre.length :: s.reads } pre.length pre.length).region =
            pre ++ rest := region_merge_self hregion
        have hright' : Region.Right (pre ++ rest) := (hregion ▸ hright).sublist (by simp)
        rw [if_pos hthin, if_pos hthin]
        exact ih _ pre rest htaken (htaken ▸ hright') (by simpa using hlen)
      · obtain ⟨hrects, hcount', -⟩ := innerLoop_behind (i := pre.length) rounds (pre.length + 1)
          { s with reads := pre.length :: pre.length :: s.reads } hright (by omega)
        rw [if_neg hthin, if_neg hthin, ← hregion, region, region, hrects, hcount']

theorem filter_dropWhile_thin (rects : List Rect) :
    (rects.dropWhile thin).filter (fun c => !thin c) = rects.filter fun c => !thin c := by
  induction rects with
  | nil => rfl
  | cons c rects ih =>
    rw [dropWhile_cons]
    split
    · rename_i hthin
      simp [ih, hthin]
    · rfl

/-- **The loops** take out the thin rectangles and leave the others as they are. -/
theorem region_outerLoop (rounds : Nat) : ∀ (s : Rects) (pre rest : List Rect), s.region = pre ++ rest →
    s.region.Right → rest.length ≤ rounds →
      (outerLoop rounds pre.length s).region = pre ++ rest.filter fun c => !thin c := by
  induction rounds with
  | zero =>
    intro s pre rest hregion _ hlen
    obtain rfl := length_eq_zero_iff.1 (Nat.le_zero.1 hlen)
    rw [outerLoop, hregion]
    rfl
  | succ rounds ih =>
    intro s pre rest hregion hright hlen
    have hcount := count_eq hregion
    rw [outerLoop]
    split
    · have hinner := region_innerLoop (s.count - pre.length) s pre rest hregion hright
        (by simp [hcount])
      have hright' : Region.Right (pre ++ rest.dropWhile thin) :=
        (hregion ▸ hright).sublist ((dropWhile_sublist thin).append_left pre)
      have hlen' : (rest.dropWhile thin).length ≤ rest.length := (dropWhile_sublist thin).length_le
      have hnot := List.head?_dropWhile_not thin rest
      rw [← filter_dropWhile_thin]
      generalize rest.dropWhile thin = left at hinner hright' hlen' hnot
      cases left with
      | nil =>
        have hcount' := count_eq hinner
        have hstop : ∀ rounds, outerLoop rounds (pre.length + 1)
            (innerLoop pre.length (s.count - pre.length) pre.length s) =
              innerLoop pre.length (s.count - pre.length) pre.length s := by
          rintro (_ | rounds)
          · rfl
          · rw [outerLoop, if_neg (by simp [hcount'])]
        rw [hstop, hinner]
        rfl
      | cons c left =>
        -- the rectangle that has stayed is behind the outer loop from now on
        have hnot : thin c = false := hnot
        have hnext := ih (innerLoop pre.length (s.count - pre.length) pre.length s) (pre ++ [c]) left
          (by rw [hinner, append_cons]) (hinner ▸ hright') (by simp at hlen'; omega)
        rw [length_append, length_singleton] at hnext
        rw [hnext, filter_cons_of_pos (by simp [hnot])]
        simp
    · rename_i hend
      obtain rfl : rest = [] := length_eq_zero_iff.1 (by rw [hcount, length_append] at hend; omega)
      rw [hregion]
      rfl

/-- A region without thin rectangles is only read, and only where it has rectangles. -/
theorem innerLoop_own (rounds : Nat) (hright : s.region.Right)
    (hnone : ∀ k, k < s.count → thin (s.fRects k) = false) :
    (innerLoop i rounds i s).fRects = s.fRects ∧ (innerLoop i rounds i s).count = s.count ∧
      ∀ l ∈ (innerLoop i rounds i s).reads, l ∈ s.reads ∨ l < s.count := by
  cases rounds with
  | zero => exact ⟨rfl, rfl, fun l hl => .inl hl⟩
  | succ rounds =>
    rw [innerLoop]
    split
    · rename_i hi
      rw [if_neg (by simp [adjacent_self, hnone i hi])]
      obtain ⟨hrects, hcount, hreads⟩ := innerLoop_behind (i := i) rounds (i + 1) { s with reads := i :: i :: s.reads }
        hright (by omega)
      refine ⟨hrects, hcount, fun l hl => ?_⟩
      rcases hreads l hl with hold | hnew
      · simp only [mem_cons] at hold
        rcases hold with rfl | rfl | hold
        · exact .inr hi
        · exact .inr hi
        · exact .inl hold
      · exact .inr hnew
    · exact ⟨rfl, rfl, fun l hl => .inl hl⟩

theorem reads_outerLoop (rounds : Nat) : ∀ (i : Nat) (s : Rects), s.region.Right →
    (∀ k, k < s.count → thin (s.fRects k) = false) →
      ∀ l ∈ (outerLoop rounds i s).reads, l ∈ s.reads ∨ l < s.count := by
  induction rounds with
  | zero => exact fun i s _ _ l hl => .inl hl
  | succ rounds ih =>
    intro i s hright hnone l hl
    rw [outerLoop] at hl
    split at hl
    · obtain ⟨hrects, hcount, hreads⟩ := innerLoop_own (i := i) (s.count - i) hright hnone
      have hregion : (innerLoop i (s.count - i) i s).region = s.region := by
        rw [region, region, hrects, hcount]
      rcases ih (i + 1) _ (hregion ▸ hright) (by rw [hrects, hcount]; exact hnone) l hl with hold | hnew
      · exact hreads l hold
      · exact .inr (hcount ▸ hnew)
    · exact .inl hl

/-! ## The whole function -/

variable {fRects : Nat → Rect} {fNumRects : Nat}

def regionOf (fRects : Nat → Rect) (fNumRects : Nat) : Region := (List.range fNumRects).map fRects

theorem region_optimize (hright : (regionOf fRects fNumRects).Right) :
    (optimize fRects fNumRects).region = (regionOf fRects fNumRects).filter fun c => !thin c :=
  region_outerLoop fNumRects ⟨fRects, fNumRects, []⟩ [] _ rfl hright (by simp [regionOf])

/-- The points of the region stay, its rectangles are valid and disjoint, and only they are read. -/
structure Preserved (fRects : Nat → Rect) (fNumRects : Nat) : Prop where
  contains : ∀ x y, (optimize fRects fNumRects).region.contains x y = (regionOf fRects fNumRects).contains x y
  right : (optimize fRects fNumRects).region.Right
  reads : ∀ k ∈ (optimize fRects fNumRects).reads, k < fNumRects

/-- **Optimisation** preserves a region of valid, disjoint rectangles if and only if none of them is of one column. -/
theorem optimize_preserved_iff (hright : (regionOf fRects fNumRects).Right) :
    Preserved fRects fNumRects ↔ ∀ k, k < fNumRects → (fRects k).left ≠ (fRects k).right := by
  have hregion := region_optimize hright
  constructor
  · intro h k hk hthin
    have hmem : fRects k ∈ regionOf fRects fNumRects := List.mem_map.2 ⟨k, List.mem_range.2 hk, rfl⟩
    have hvalid := hright.valid _ hmem
    have hin : (fRects k).contains (fRects k).left (fRects k).top = true := by
      simp only [Rect.valid_iff] at hvalid
      rw [Rect.contains_iff]
      omega
    -- its corner is still in the region, so another rectangle has it
    have hbefore : (regionOf fRects fNumRects).contains (fRects k).left (fRects k).top = true :=
      List.any_eq_true.2 ⟨_, hmem, hin⟩
    have hcorner := h.contains (fRects k).left (fRects k).top
    rw [hregion, hbefore] at hcorner
    obtain ⟨c, hc, hcin⟩ := List.any_eq_true.1 hcorner
    obtain ⟨hcmem, hcthick⟩ := List.mem_filter.1 hc
    obtain rfl := hright.eq_of_contains hcmem hmem hcin hin
    simp [thin, hthin] at hcthick
  · intro hnone
    have hthick : ∀ k, k < fNumRects → thin (fRects k) = false := fun k hk => by simpa [thin] using hnone k hk
    have hkept : (optimize fRects fNumRects).region = regionOf fRects fNumRects := by
      rw [hregion, List.filter_eq_self]
      intro c hc
      obtain ⟨k, hk, rfl⟩ := List.mem_map.1 hc
      simp [hthick k (List.mem_range.1 hk)]
    refine ⟨fun x y => by rw [hkept], hkept ▸ hright, fun k hk => ?_⟩
    exact (reads_outerLoop fNumRects 0 ⟨fRects, fNumRects, []⟩ hright hthick k hk).resolve_left (by simp)

def sideBySide : Nat → Rect := fun k => [⟨0, 0, 3, 3⟩, ⟨4, 0, 6, 3⟩].getD k ⟨6, 0, 9, 3⟩

theorem optimize_preserved_sideBySide : (regionOf sideBySide 2).Right ∧ Preserved sideBySide 2 := by
  have hright : (regionOf sideBySide 2).Right := by
    refine ⟨by decide, List.pairwise_pair.2 fun x y => ?_⟩
    simp only [Rect.contains_iff, sideBySide, List.getD_cons_zero, List.getD_cons_succ]
    omega
  exact ⟨hright, (optimize_preserved_iff hright).2 (by decide)⟩

def column : Nat → Rect := fun k => [⟨0, 0, 4, 3⟩, ⟨5, 0, 5, 3⟩, ⟨6, 0, 9, 3⟩].getD k ⟨0, 0, 0, 0⟩

/-- **A rectangle of one column** is lost, and what is behind the array is read. -/
theorem optimize_loses_column : (regionOf column 3).Right ∧ ¬ Preserved column 3 ∧
    (optimize column 3).region = [⟨0, 0, 4, 3⟩, ⟨6, 0, 9, 3⟩] ∧ 3 ∈ (optimize column 3).reads := by
  refine ⟨⟨by decide, ?_⟩, fun h => ?_, by decide, by decide⟩
  · simp only [regionOf, List.range, List.range.loop, List.map_cons, List.map_nil, Region.Disjoint, List.pairwise_cons,
      List.mem_cons, List.not_mem_nil, or_false, forall_eq_or_imp, forall_eq, false_imp_iff, implies_true,
      List.Pairwise.nil, and_true, column, List.getD_cons_zero, List.getD_cons_succ, Rect.contains_iff]
    refine ⟨⟨?_, ?_⟩, ?_⟩ <;>
    · intro x y
      omega
  · have hpoint := h.contains 5 0
    revert hpoint
    decide

end Rects

end Windowing
