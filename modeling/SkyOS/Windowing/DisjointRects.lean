import Mathlib.Data.List.Pairwise
import SkyOS.Windowing.Region

/-!
# The rectangles of a region do not overlap (`WindowingSystem/Region.h:137`, `:150`)

`include` and `addRect` assume that what is added is not in the region yet, and `clip` hands out the rectangles one
by one, so a pixel in two of them is drawn twice. The pieces of a split rectangle share their seams with each other.
None is left twice if the excluded rectangle cuts the other one right across (`Across`); where a corner is left
over, the pieces at it overlap.

| here | there |
| --- | --- |
| `Expr` | what regions are computed by, from rectangles |
| a list of rectangles, for `clip` | the calls of `clipper` |
| `Clean` | the condition on an expression |
-/

namespace Windowing

open Machine List

/-! ## Moving and clipping -/

/-- `offsetBy` (:78). -/
def Rect.offsetBy (r : Rect) (h v : Int) : Rect where
  left := toInt32 (r.left + h)
  top := toInt32 (r.top + v)
  right := toInt32 (r.right + h)
  bottom := toInt32 (r.bottom + v)

namespace Region

/-- `translateBy` (:182). -/
def translateBy (r : Region) (xv yv : Int) : Region := r.map fun rect => rect.offsetBy xv yv

/-- `clip` (:190): what `clipper` is called with. -/
def clip (r : Region) (left top right bottom : Int) : List Rect :=
  let boundingRect : Rect := ⟨min left right, min top bottom, max left right, max top bottom⟩
  r.filter fun rect => rect.intersects boundingRect

/-! ## Disjoint rectangles -/

def Disjoint (rects : List Rect) : Prop :=
  rects.Pairwise fun a b => ∀ x y, ¬ (a.contains x y = true ∧ b.contains x y = true)

/-- The rectangles are valid and disjoint. -/
structure Right (r : Region) : Prop where
  valid : ∀ rect ∈ r, rect.valid = true
  disjoint : Disjoint r

end Region

/-- `exrect` cuts `c` right across, from top to bottom or from left to right. -/
def Across (exrect c : Rect) : Prop :=
  (exrect.top ≤ c.top ∧ c.bottom ≤ exrect.bottom) ∨ (exrect.left ≤ c.left ∧ c.right ≤ exrect.right)
  deriving Decidable

/-! ## One exclusion -/

variable {exrect c : Rect}

theorem disjoint_pieces : Region.Disjoint (pieces exrect c) ↔
    (quadrants exrect c).Pairwise fun q q' =>
      ∀ x y, c.contains x y = true → q.contains x y = true → ¬ q'.contains x y = true := by
  unfold Region.Disjoint pieces
  rw [pairwise_filterMap]
  refine List.Pairwise.iff ?_
  intro q q'
  constructor
  · intro hout x y hc hq hq'
    have hmeet := Rect.intersects_of_contains hc hq
    have hmeet' := Rect.intersects_of_contains hc hq'
    exact hout _ (if_pos hmeet) _ (if_pos hmeet') x y
      ⟨Rect.contains_intersect.2 ⟨hq, hc⟩, Rect.contains_intersect.2 ⟨hq', hc⟩⟩
  · intro hout b hb b' hb' x y
    split at hb
    · split at hb'
      · cases hb
        cases hb'
        rintro ⟨hin, hin'⟩
        rw [Rect.contains_intersect] at hin hin'
        exact hout x y hin.2 hin.1 hin'.1
      · cases hb'
    · cases hb

/-- **Splitting.** The pieces of a rectangle do not overlap if and only if it is cut across. -/
theorem disjoint_pieces_iff (hex : exrect.Steps) (hvalid : exrect.valid = true)
    (hmeet : exrect.intersects c = true) : Region.Disjoint (pieces exrect c) ↔ Across exrect c := by
  rw [disjoint_pieces, quadrants_of_steps hex]
  simp only [Rect.valid_iff] at hvalid
  rw [Rect.intersects_iff] at hmeet
  simp only [pairwise_cons, mem_cons, not_mem_nil, or_false, forall_eq_or_imp, forall_eq, false_imp_iff,
    implies_true, List.Pairwise.nil, and_true, Rect.contains_iff]
  unfold Across
  constructor
  · rintro ⟨⟨h12, -⟩, ⟨h23, -⟩, -, -, -, ⟨h67, -⟩, h78⟩
    by_contra hcorner
    -- a corner is left over, and the two pieces above it, or below it, overlap
    by_cases habove : c.top < exrect.top
    · by_cases hleft : c.left < exrect.left
      · exact h12 (exrect.left - 1) (exrect.top - 1) (by omega) (by omega) (by omega)
      · exact h23 (exrect.right + 1) (exrect.top - 1) (by omega) (by omega) (by omega)
    · by_cases hleft : c.left < exrect.left
      · exact h67 (exrect.left - 1) (exrect.bottom + 1) (by omega) (by omega) (by omega)
      · exact h78 (exrect.right + 1) (exrect.bottom + 1) (by omega) (by omega) (by omega)
  · intro hacross
    refine ⟨⟨?_, ?_, ?_, ?_, ?_, ?_, ?_⟩, ⟨?_, ?_, ?_, ?_, ?_, ?_⟩, ⟨?_, ?_, ?_, ?_, ?_⟩, ⟨?_, ?_, ?_, ?_⟩,
      ⟨?_, ?_, ?_⟩, ⟨?_, ?_⟩, ?_⟩ <;>
    · intro x y hc hq hq'
      omega

variable {piece : Rect} {x y : Int}

theorem contains_of_mem_pieces (h : piece ∈ pieces exrect c)
    (hin : piece.contains x y = true) : c.contains x y = true :=
  (mem_pieces_points.1 ⟨piece, h, hin⟩).2

theorem pieces_valid (hex : exrect.Steps) (hvalid : exrect.valid = true) (hc : c.valid = true)
    (h : piece ∈ pieces exrect c) : piece.valid = true := by
  simp only [pieces, mem_filterMap] at h
  obtain ⟨q, hq, hpiece⟩ := h
  rw [quadrants_of_steps hex] at hq
  split at hpiece
  · rename_i hmeet
    obtain rfl := Option.some.inj hpiece
    simp only [Rect.intersects_iff] at hmeet
    simp only [Rect.valid_iff] at hvalid hc ⊢
    simp only [mem_cons, not_mem_nil, or_false] at hq
    simp only [Rect.intersect]
    rcases hq with rfl | rfl | rfl | rfl | rfl | rfl | rfl | rfl <;> dsimp only at hmeet ⊢ <;> omega
  · cases hpiece

namespace Region

variable {r a b : Region} {exrect : Rect}

/-- The rectangles that `exrect` meets are cut across by it. -/
def CutAcross (r : Region) (exrect : Rect) : Prop :=
  ∀ c ∈ r, exrect.intersects c = true → exrect.Steps ∧ Across exrect c
  deriving Decidable

/-- What is in two rectangles of a region is in none, or they are the same one. -/
theorem Right.eq_of_contains (h : r.Right) {c' : Rect} (hc : c ∈ r) (hc' : c' ∈ r)
    (hin : c.contains x y = true) (hin' : c'.contains x y = true) : c = c' := by
  by_contra hne
  have hsymm : Std.Symm fun a b : Rect => ∀ x y, ¬ (a.contains x y = true ∧ b.contains x y = true) :=
    ⟨fun _ _ hab x y hba => hab x y hba.symm⟩
  exact h.disjoint.forall hc hc' hne x y ⟨hin, hin'⟩

/-- Nothing that `exrect` meets makes it step out of `int`. -/
def StepsIn (r : Region) (exrect : Rect) : Prop := ∀ c ∈ r, exrect.intersects c = true → exrect.Steps
  deriving Decidable

theorem excludeRect_valid (hr : ∀ c ∈ r, c.valid = true) (hvalid : exrect.valid = true) (hsteps : r.StepsIn exrect) :
    ∀ rect ∈ r.excludeRect exrect, rect.valid = true := by
  intro rect hmem
  rw [excludeRect_eq, mem_append, mem_filter, mem_flatMap] at hmem
  rcases hmem with ⟨hc, -⟩ | ⟨c, hc, hpiece⟩
  · exact hr rect hc
  · split at hpiece
    · rename_i hmeet
      exact pieces_valid (hsteps c hc hmeet) hvalid (hr c hc) hpiece
    · cases hpiece

/-- **Exclusion** of a rectangle that cuts across what it meets. -/
theorem Right.excludeRect (h : r.Right) (hvalid : exrect.valid = true) (hcut : r.CutAcross exrect) :
    (r.excludeRect exrect).Right := by
  constructor
  · exact excludeRect_valid h.valid hvalid fun c hc hmeet => (hcut c hc hmeet).1
  · rw [excludeRect_eq]
    unfold Disjoint
    rw [pairwise_append, pairwise_flatMap]
    refine ⟨h.disjoint.filter _, ⟨fun c hc => ?_, h.disjoint.imp ?_⟩, ?_⟩
    · split
      · rename_i hmeet
        obtain ⟨hsteps, hacross⟩ := hcut c hc hmeet
        exact (disjoint_pieces_iff hsteps hvalid hmeet).2 hacross
      · exact List.Pairwise.nil
    · -- pieces of different rectangles
      intro c c' hdisjoint piece hpiece piece' hpiece' x y hin
      split at hpiece
      · split at hpiece'
        · exact hdisjoint x y ⟨contains_of_mem_pieces hpiece hin.1, contains_of_mem_pieces hpiece' hin.2⟩
        · cases hpiece'
      · cases hpiece
    · -- a rectangle that stays, and a piece of one that does not
      intro c hc piece hpiece x y hin
      obtain ⟨hcr, hmiss⟩ := mem_filter.1 hc
      obtain ⟨c', hc', hpiece⟩ := mem_flatMap.1 hpiece
      split at hpiece
      · rename_i hmeet
        obtain rfl := h.eq_of_contains hcr hc' hin.1 (contains_of_mem_pieces hpiece hin.2)
        simp [hmeet] at hmiss
      · cases hpiece

/-- A split that leaves a corner over makes pieces that overlap. -/
theorem Right.excludeRect_iff (hvalid : exrect.valid = true) (h : r.Right)
    (hsteps : r.StepsIn exrect) : (r.excludeRect exrect).Right ↔ r.CutAcross exrect := by
  constructor
  · intro hright c hc hmeet
    have hdisjoint := hright.disjoint
    rw [excludeRect_eq] at hdisjoint
    unfold Disjoint at hdisjoint
    rw [pairwise_append, pairwise_flatMap] at hdisjoint
    have hpieces := hdisjoint.2.1.1 c hc
    rw [if_pos hmeet] at hpieces
    exact ⟨hsteps c hc hmeet, (disjoint_pieces_iff (hsteps c hc hmeet) hvalid hmeet).1 hpieces⟩
  · exact h.excludeRect hvalid

theorem Right.excludeRect_iff_hole : ¬ Right (Region.excludeRect [⟨0, 0, 9, 9⟩] ⟨3, 3, 6, 6⟩) := fun h =>
  absurd ((Right.excludeRect_iff (by decide) ⟨by decide, pairwise_singleton _ _⟩ (by decide)).1 h) (by decide)

/-! ## The operators -/

/-- Each rectangle of `b`, when its turn comes, cuts across what it meets of what is left of `a`. -/
def ExcludesCleanly : Region → Region → Prop
  | _, [] => True
  | a, exrect :: b => a.CutAcross exrect ∧ ExcludesCleanly (a.excludeRect exrect) b

instance : (a b : Region) → Decidable (ExcludesCleanly a b)
  | _, [] => .isTrue trivial
  | a, exrect :: b =>
    have := instDecidableExcludesCleanly (a.excludeRect exrect) b
    inferInstanceAs (Decidable (_ ∧ _))

/-- The same without the cuts. -/
def ExcludesInInt : Region → Region → Prop
  | _, [] => True
  | a, exrect :: b => a.StepsIn exrect ∧ ExcludesInInt (a.excludeRect exrect) b

instance : (a b : Region) → Decidable (ExcludesInInt a b)
  | _, [] => .isTrue trivial
  | a, exrect :: b =>
    have := instDecidableExcludesInInt (a.excludeRect exrect) b
    inferInstanceAs (Decidable (_ ∧ _))

theorem exclude_valid (ha : ∀ rect ∈ a, rect.valid = true) (hb : ∀ rect ∈ b, rect.valid = true)
    (hint : ExcludesInInt a b) : ∀ rect ∈ a.exclude b, rect.valid = true := by
  unfold Region.exclude
  induction b generalizing a with
  | nil => exact ha
  | cons exrect b ih =>
    rw [foldl_cons]
    exact ih (excludeRect_valid ha (hb exrect (by simp)) hint.1) (fun rect h => hb rect (by simp [h])) hint.2

theorem Right.exclude (ha : a.Right) (hb : ∀ rect ∈ b, rect.valid = true) (hclean : ExcludesCleanly a b) :
    (a.exclude b).Right := by
  unfold Region.exclude
  induction b generalizing a with
  | nil => exact ha
  | cons exrect b ih =>
    rw [foldl_cons]
    exact ih (ha.excludeRect (hb exrect (by simp)) hclean.1) (fun rect h => hb rect (by simp [h])) hclean.2

theorem points_exclude_clean (hclean : ExcludesCleanly a b) : (a.exclude b).points = a.points \ b.points := by
  unfold Region.exclude
  induction b generalizing a with
  | nil => simp [points, contains]
  | cons exrect b ih =>
    rw [foldl_cons, ih hclean.2, points_excludeRect a fun c hc hmeet => (hclean.1 c hc hmeet).1, Set.sdiff_sdiff,
      ← points_append]
    rfl

theorem Right.append (ha : a.Right) (hb : b.Right) (hdisjoint : ∀ p ∈ b.points, p ∉ a.points) :
    Right (a ++ b) := by
  refine ⟨fun rect h => (mem_append.1 h).elim (ha.valid rect) (hb.valid rect), ?_⟩
  unfold Disjoint
  rw [pairwise_append]
  refine ⟨ha.disjoint, hb.disjoint, fun c hc c' hc' x y hin => ?_⟩
  exact hdisjoint (x, y) (mem_points.2 ⟨c', hc', hin.2⟩) (mem_points.2 ⟨c, hc, hin.1⟩)

theorem Right.operatorOr (ha : a.Right) (hb : b.Right) (hclean : ExcludesCleanly b a) : (a.operatorOr b).Right := by
  rw [Region.operatorOr, include_eq]
  refine ha.append (hb.exclude ha.valid hclean) fun p hp => ?_
  rw [points_exclude_clean hclean] at hp
  exact hp.2

theorem right_kInfinite : kInfinite.Right := ⟨by decide, pairwise_singleton _ _⟩

theorem Right.operatorNot (ha : a.Right) (hclean : ExcludesCleanly kInfinite a) : a.operatorNot.Right :=
  right_kInfinite.exclude ha.valid hclean

theorem Right.translateBy (ha : a.Right) {xv yv : Int} (hint : ∀ rect ∈ a,
    (IsInt32 (rect.left + xv) ∧ IsInt32 (rect.right + xv)) ∧ IsInt32 (rect.top + yv) ∧ IsInt32 (rect.bottom + yv)) :
    (a.translateBy xv yv).Right := by
  have hoffset : ∀ rect ∈ a, rect.offsetBy xv yv = ⟨rect.left + xv, rect.top + yv, rect.right + xv, rect.bottom + yv⟩ := by
    intro rect hrect
    obtain ⟨⟨hl, hr⟩, ht, hb⟩ := hint rect hrect
    rw [Rect.offsetBy, toInt32_of_isInt32 hl, toInt32_of_isInt32 hr, toInt32_of_isInt32 ht, toInt32_of_isInt32 hb]
  constructor
  · intro rect hmem
    obtain ⟨c, hc, rfl⟩ := mem_map.1 hmem
    have hvalid := ha.valid c hc
    rw [hoffset c hc]
    simp only [Rect.valid_iff] at hvalid ⊢
    omega
  · unfold Disjoint Region.translateBy
    rw [pairwise_map]
    refine ha.disjoint.imp_of_mem fun {c c'} hc hc' hdisjoint x y hin => hdisjoint (x - xv) (y - yv) ?_
    rw [hoffset c hc, hoffset c' hc'] at hin
    simp only [Rect.contains_iff] at hin ⊢
    omega

end Region

/-! ## Expressions -/

inductive Expr where
  | region (left top right bottom : Int32)
  | or (a b : Expr)
  | and (a b : Expr)
  | sub (a b : Expr)
  | xor (a b : Expr)
  | not (a : Expr)
  | translateBy (a : Expr) (xv yv : Int32)

namespace Expr

def eval : Expr → Region
  | region left top right bottom => Region.ofRect left.toInt top.toInt right.toInt bottom.toInt
  | or a b => a.eval.operatorOr b.eval
  | and a b => a.eval.operatorAnd b.eval
  | sub a b => a.eval.operatorSub b.eval
  | xor a b => a.eval.operatorXor b.eval
  | not a => a.eval.operatorNot
  | translateBy a xv yv => a.eval.translateBy xv.toInt yv.toInt

/-- The rectangles at the leaves are valid, each exclusion from what an operator returns cuts across, and nothing leaves
`int`. (The complement inside `&` is only excluded itself: its rectangles may overlap.) -/
def Clean : Expr → Prop
  | region left top right bottom => left.toInt ≤ right.toInt ∧ top.toInt ≤ bottom.toInt
  | or a b => (a.Clean ∧ b.Clean) ∧ Region.ExcludesCleanly b.eval a.eval
  | and a b => (a.Clean ∧ b.Clean) ∧ Region.ExcludesInInt Region.kInfinite b.eval ∧
      Region.ExcludesCleanly a.eval b.eval.operatorNot
  | sub a b => (a.Clean ∧ b.Clean) ∧ Region.ExcludesCleanly a.eval b.eval
  | xor a b => (a.Clean ∧ b.Clean) ∧ Region.ExcludesCleanly b.eval a.eval ∧
      Region.ExcludesCleanly a.eval (b.eval.exclude a.eval) ∧
      Region.ExcludesCleanly (b.eval.exclude a.eval) (a.eval.exclude (b.eval.exclude a.eval))
  | not a => a.Clean ∧ Region.ExcludesCleanly Region.kInfinite a.eval
  | translateBy a xv yv => a.Clean ∧ ∀ rect ∈ a.eval, (IsInt32 (rect.left + xv.toInt) ∧ IsInt32 (rect.right + xv.toInt)) ∧
      IsInt32 (rect.top + yv.toInt) ∧ IsInt32 (rect.bottom + yv.toInt)

instance : (e : Expr) → Decidable e.Clean
  | region .. => inferInstanceAs (Decidable (_ ∧ _))
  | or a b | and a b | sub a b | xor a b =>
    have := instDecidableClean a
    have := instDecidableClean b
    inferInstanceAs (Decidable ((_ ∧ _) ∧ _))
  | not a =>
    have := instDecidableClean a
    inferInstanceAs (Decidable (_ ∧ _))
  | translateBy a .. =>
    have := instDecidableClean a
    inferInstanceAs (Decidable (_ ∧ ∀ rect ∈ a.eval, _))

theorem eval_right {e : Expr} (h : e.Clean) : e.eval.Right := by
  induction e with
  | region left top right bottom =>
    refine ⟨?_, pairwise_singleton _ _⟩
    intro rect hrect
    obtain rfl := mem_singleton.1 hrect
    simp only [Rect.valid_iff]
    exact h
  | or a b iha ihb =>
    obtain ⟨⟨ha, hb⟩, hclean⟩ := h
    exact (iha ha).operatorOr (ihb hb) hclean
  | and a b iha ihb =>
    obtain ⟨⟨ha, hb⟩, hnot, hclean⟩ := h
    exact (iha ha).exclude (Region.exclude_valid Region.right_kInfinite.valid (ihb hb).valid hnot) hclean
  | sub a b iha ihb =>
    obtain ⟨⟨ha, hb⟩, hclean⟩ := h
    exact (iha ha).exclude (ihb hb).valid hclean
  | xor a b iha ihb =>
    obtain ⟨⟨ha, hb⟩, hba, hab, hor⟩ := h
    have hb' := (ihb hb).exclude (iha ha).valid hba
    have ha' := (iha ha).exclude hb'.valid hab
    exact ha'.operatorOr hb' hor
  | not a ih =>
    obtain ⟨ha, hclean⟩ := h
    exact (ih ha).operatorNot hclean
  | translateBy a xv yv ih =>
    obtain ⟨ha, hint⟩ := h
    exact (ih ha).translateBy hint

/-- **Disjoint rectangles.** A region that is computed by clean exclusions consists of valid rectangles that do not
overlap, and `clip` hands out each point at most once. -/
theorem region_right {e : Expr} (h : e.Clean) :
    e.eval.Right ∧ ∀ left top right bottom, Region.Disjoint (e.eval.clip left top right bottom) := by
  have hright := eval_right h
  exact ⟨hright, fun left top right bottom => hright.disjoint.filter _⟩

/-- A band, cut at both sides, and beside it what a bar leaves of a square. -/
theorem region_right_bands :
    let e := (((region 0 0 10 10).and (region 5 (-5) 20 20)).or ((region 0 0 4 10).sub (region 2 0 2 10))).translateBy 3 4
    e.Clean ∧ e.eval.Right ∧ ∀ left top right bottom, Region.Disjoint (e.eval.clip left top right bottom) := by
  intro e
  have hclean : e.Clean := by decide +kernel
  exact ⟨hclean, region_right hclean⟩

/-- **A hole in a square.** The pieces above the hole share their seams. -/
theorem hole_overlaps : ¬ ((region 0 0 10 10).sub (region 5 5 5 5)).eval.Right ∧
    (((region 0 0 10 10).sub (region 5 5 5 5)).eval.clip 0 0 10 10).countP (fun rect => rect.contains 4 4) = 3 := by
  refine ⟨fun h => ?_, by decide +kernel⟩
  have heq : (⟨0, 0, 4, 4⟩ : Rect) = ⟨4, 0, 6, 4⟩ :=
    h.eq_of_contains (x := 4) (y := 4) (by decide +kernel) (by decide +kernel) (by decide) (by decide)
  revert heq
  decide

end Expr

end Windowing
