import Mathlib.Data.Real.Basic
import Mathlib.Tactic.FieldSimp
import Mathlib.Tactic.Linarith
import Mathlib.Tactic.Ring
import SkyOS.Windowing.StrokeLine

/-!
# Clipping lines (`LineClipper::operator()`, `WindowingSystem/GraphicsContext.cpp:289`)

An end outside the rectangle is moved along the line to the edge it is beyond, to the bottom or top first, then to the
side. The division truncates, so an end is off the line by less than a pixel each time. What is cut off lies beyond an
edge that the other end is not beyond, so the divisor is not zero, and a moved end that is still outside shares an
edge with the other one: each end is moved twice at most.

| here | there |
| --- | --- |
| `Line` | `clippedX1` … `clippedY2` |
| `int`, `div` | arithmetic that must not overflow, nor divide by zero |
| `none` | a fault, or more rounds than allowed |
| `some none` | `rejected` |
| `some (some line)` | the arguments of `strokeLine` |
-/

namespace Windowing

open Machine Option Int

/-! ## The code -/

def div (a b : Int) : Option Int := if b = 0 then none else int (a.tdiv b)

/-- `a1 + ( b - b1 ) * ( a2 - a1 ) / ( b2 - b1 )`. -/
def interpolate (a1 b1 a2 b2 b : Int) : Option Int := do
  let run ← int (b - b1)
  let rise ← int (a2 - a1)
  let product ← int (run * rise)
  let length ← int (b2 - b1)
  let quotient ← div product length
  int (a1 + quotient)

/-- `vert_clip` (:31). -/
def vert_clip (x1 y1 x2 y2 x : Int) : Option Int := interpolate y1 x1 y2 x2 x

/-- `horz_clip` (:36). -/
def horz_clip (x1 y1 x2 y2 y : Int) : Option Int := interpolate x1 y1 x2 y2 y

def kBottom : Nat := 1
def kTop : Nat := 2
def kLeft : Nat := 4
def kRight : Nat := 8

/-- `clipmask` (:41). -/
def clipmask (x y : Int) (rect : Rect) : Nat :=
  (if x < rect.left then kLeft else if x > rect.right then kRight else 0) |||
    (if y < rect.top then kTop else if y > rect.bottom then kBottom else 0)

structure Line where
  x1 : Int
  y1 : Int
  x2 : Int
  y2 : Int
deriving DecidableEq, Repr

/-- The point on the edge that `mask` names first (:307). -/
def edgePoint (rect : Rect) (l : Line) (mask : Nat) : Option (Int × Int) :=
  if mask &&& kBottom ≠ 0 then (horz_clip l.x1 l.y1 l.x2 l.y2 rect.bottom).map fun x => (x, rect.bottom)
  else if mask &&& kTop ≠ 0 then (horz_clip l.x1 l.y1 l.x2 l.y2 rect.top).map fun x => (x, rect.top)
  else if mask &&& kRight ≠ 0 then (vert_clip l.x1 l.y1 l.x2 l.y2 rect.right).map fun y => (rect.right, y)
  else if mask &&& kLeft ≠ 0 then (vert_clip l.x1 l.y1 l.x2 l.y2 rect.left).map fun y => (rect.left, y)
  else none

/-- The loop (:299). -/
def clipLoop (rect : Rect) : Nat → Line → Nat → Nat → Option (Option Line)
  | 0, _, _, _ => none
  | rounds + 1, l, point1mask, point2mask =>
    if point1mask = 0 ∧ point2mask = 0 then some (some l)
    else if point1mask &&& point2mask ≠ 0 then some none
    else
      (edgePoint rect l (if point1mask ≠ 0 then point1mask else point2mask)).bind fun p =>
        if point1mask ≠ 0 then clipLoop rect rounds { l with x1 := p.1, y1 := p.2 } (clipmask p.1 p.2 rect) point2mask
        else clipLoop rect rounds { l with x2 := p.1, y2 := p.2 } point1mask (clipmask p.1 p.2 rect)

/-- `operator()` (:289), with a bound for the rounds. -/
def lineClipper (rounds : Nat) (rect : Rect) (l : Line) : Option (Option Line) :=
  clipLoop rect rounds l (clipmask l.x1 l.y1 rect) (clipmask l.x2 l.y2 rect)

/-! ## The masks -/

section
variable {x y x' y' : Int} {rect : Rect}

theorem clipmask_mem (x y : Int) (rect : Rect) : clipmask x y rect ∈ [0, 1, 2, 4, 5, 6, 8, 9, 10] := by
  unfold clipmask
  split_ifs <;> decide

theorem clipmask_bottom (h : rect.top ≤ rect.bottom) : clipmask x y rect &&& kBottom ≠ 0 ↔ rect.bottom < y := by
  unfold clipmask
  split_ifs <;> first | exact iff_of_true (by decide) (by omega) | exact iff_of_false (by decide) (by omega)

theorem clipmask_top : clipmask x y rect &&& kTop ≠ 0 ↔ y < rect.top := by
  unfold clipmask
  split_ifs <;> first | exact iff_of_true (by decide) (by omega) | exact iff_of_false (by decide) (by omega)

theorem clipmask_right (h : rect.left ≤ rect.right) : clipmask x y rect &&& kRight ≠ 0 ↔ rect.right < x := by
  unfold clipmask
  split_ifs <;> first | exact iff_of_true (by decide) (by omega) | exact iff_of_false (by decide) (by omega)

theorem clipmask_left : clipmask x y rect &&& kLeft ≠ 0 ↔ x < rect.left := by
  unfold clipmask
  split_ifs <;> first | exact iff_of_true (by decide) (by omega) | exact iff_of_false (by decide) (by omega)

theorem clipmask_eq_zero : clipmask x y rect = 0 ↔ rect.contains x y = true := by
  rw [Rect.contains_iff]
  unfold clipmask
  split_ifs <;> first | exact iff_of_true (by decide) (by omega) | exact iff_of_false (by decide) (by omega)

def Beyond (rect : Rect) (x y x' y' : Int) : Prop :=
  (rect.bottom < y ∧ rect.bottom < y' ∨ y < rect.top ∧ y' < rect.top) ∨
    rect.right < x ∧ rect.right < x' ∨ x < rect.left ∧ x' < rect.left

theorem land_ne_zero : ∀ a ∈ [0, 1, 2, 4, 5, 6, 8, 9, 10], ∀ b ∈ [0, 1, 2, 4, 5, 6, 8, 9, 10], a &&& b ≠ 0 ↔
    (a &&& kBottom ≠ 0 ∧ b &&& kBottom ≠ 0 ∨ a &&& kTop ≠ 0 ∧ b &&& kTop ≠ 0) ∨
      a &&& kRight ≠ 0 ∧ b &&& kRight ≠ 0 ∨ a &&& kLeft ≠ 0 ∧ b &&& kLeft ≠ 0 := by
  decide

theorem clipmask_land (hx : rect.left ≤ rect.right) (hy : rect.top ≤ rect.bottom) :
    clipmask x y rect &&& clipmask x' y' rect ≠ 0 ↔ Beyond rect x y x' y' := by
  rw [land_ne_zero _ (clipmask_mem x y rect) _ (clipmask_mem x' y' rect), clipmask_bottom hy, clipmask_bottom hy,
    clipmask_top, clipmask_top, clipmask_right hx, clipmask_right hx, clipmask_left, clipmask_left]
  rfl

end

/-! ## One division -/

theorem tdiv_near (run rise length : Int)
    (h : 0 < length ∧ 0 ≤ run ∧ run ≤ length ∨ length < 0 ∧ length ≤ run ∧ run ≤ 0) :
    (min 0 rise ≤ (run * rise).tdiv length ∧ (run * rise).tdiv length ≤ max 0 rise) ∧
      |(run * rise).tdiv length * length - run * rise| < |length| := by
  -- with a positive length and no negative rise
  have hpos : ∀ run rise length : Int, 0 < length → 0 ≤ run → run ≤ length → 0 ≤ rise →
      (0 ≤ (run * rise).tdiv length ∧ (run * rise).tdiv length ≤ rise) ∧
        0 ≤ run * rise - (run * rise).tdiv length * length ∧ run * rise - (run * rise).tdiv length * length < length := by
    intro run rise length hlength hrun hle hrise
    have hprod : 0 ≤ run * rise := mul_nonneg hrun hrise
    rw [tdiv_eq_ediv_of_nonneg hprod]
    have hdiv := emod_add_mul_ediv (run * rise) length
    have hmod := emod_nonneg (run * rise) (by omega : length ≠ 0)
    have hmod' := emod_lt_of_pos (run * rise) hlength
    have hnonneg := ediv_nonneg hprod (Int.le_of_lt hlength)
    rw [Int.mul_comm length] at hdiv
    refine ⟨⟨hnonneg, ?_⟩, by omega, by omega⟩
    exact Int.ediv_le_of_le_mul hlength (by nlinarith)
  have hsigned : ∀ run rise length : Int, 0 < length → 0 ≤ run → run ≤ length →
      (min 0 rise ≤ (run * rise).tdiv length ∧ (run * rise).tdiv length ≤ max 0 rise) ∧
        |(run * rise).tdiv length * length - run * rise| < length := by
    intro run rise length hlength hrun hle
    rw [abs_lt]
    rcases Int.le_total 0 rise with hrise | hrise
    · have h := hpos run rise length hlength hrun hle hrise
      omega
    · have h := hpos run (-rise) length hlength hrun hle (by omega)
      rw [Int.mul_neg, Int.neg_tdiv, Int.neg_mul] at h
      omega
  rcases h with ⟨hlength, hrun, hle⟩ | ⟨hlength, hle, hrun⟩
  · rw [abs_of_pos hlength]
    exact hsigned run rise length hlength hrun hle
  · have h := hsigned (-run) rise (-length) (by omega) (by omega) (by omega)
    rw [Int.neg_mul, Int.neg_tdiv_neg, Int.mul_neg, ← neg_sub', abs_neg] at h
    rw [abs_of_neg hlength]
    exact h

/-! ## One edge -/

def Small (x : Int) : Prop := -2 ^ 14 < x ∧ x < 2 ^ 14

instance (x : Int) : Decidable (Small x) := inferInstanceAs (Decidable (_ ∧ _))

/-- **One division** does not fail, and gives a point between the ends, within a unit of the line. -/
theorem interpolate_spec {a1 b1 a2 b2 b : Int} (hsmall : (Small a1 ∧ Small b1) ∧ (Small a2 ∧ Small b2) ∧ Small b)
    (hne : b1 ≠ b2) (hcross : b1 ≤ b ∧ b ≤ b2 ∨ b2 ≤ b ∧ b ≤ b1) : ∃ a, interpolate a1 b1 a2 b2 b = some a ∧
      (min a1 a2 ≤ a ∧ a ≤ max a1 a2) ∧ |(a - a1) * (b2 - b1) - (b - b1) * (a2 - a1)| < |b2 - b1| := by
  unfold Small at hsmall
  have hbound : -2 ^ 30 ≤ (b - b1) * (a2 - a1) ∧ (b - b1) * (a2 - a1) ≤ 2 ^ 30 := by
    have habs : |(b - b1) * (a2 - a1)| ≤ 2 ^ 15 * 2 ^ 15 := by
      rw [abs_mul]
      refine mul_le_mul ?_ ?_ (abs_nonneg _) (by norm_num)
      · rw [abs_le]
        omega
      · rw [abs_le]
        omega
    rw [abs_le] at habs
    omega
  have hnear := tdiv_near (b - b1) (a2 - a1) (b2 - b1) (by omega)
  have hint : ∀ x : Int, -2 ^ 31 ≤ x → x < 2 ^ 31 → int x = some x := fun x h h' => if_pos ⟨h, h'⟩
  refine ⟨a1 + ((b - b1) * (a2 - a1)).tdiv (b2 - b1), ?_, by omega, ?_⟩
  · rw [interpolate, hint _ (by omega) (by omega), hint _ (by omega) (by omega)]
    simp only [bind_eq_bind, bind_some]
    rw [hint _ (by omega) (by omega), hint _ (by omega) (by omega)]
    simp only [bind_some]
    rw [div, if_neg (by omega), hint _ (by omega) (by omega), bind_some, hint _ (by omega) (by omega)]
  · rw [add_sub_cancel_left]
    exact hnear.2

/-- Within `e` of a point of the line from `( a1, b1 )` to `( a2, b2 )`. -/
def Near (a1 b1 a2 b2 e qa qb : ℝ) : Prop :=
  ∃ t : ℝ, (0 ≤ t ∧ t ≤ 1) ∧ |a1 + t * (a2 - a1) - qa| ≤ e ∧ |b1 + t * (b2 - b1) - qb| ≤ e

variable {a1 b1 a2 b2 e qa qb : ℝ}

theorem Near.transpose (h : Near a1 b1 a2 b2 e qa qb) : Near b1 a1 b2 a2 e qb qa := by
  obtain ⟨t, ht, ha, hb⟩ := h
  exact ⟨t, ht, hb, ha⟩

theorem Near.reverse (h : Near a1 b1 a2 b2 e qa qb) : Near a2 b2 a1 b1 e qa qb := by
  obtain ⟨t, ht, ha, hb⟩ := h
  refine ⟨1 - t, by constructor <;> linarith, ?_, ?_⟩
  · rwa [show a2 + (1 - t) * (a1 - a2) = a1 + t * (a2 - a1) by ring]
  · rwa [show b2 + (1 - t) * (b1 - b2) = b1 + t * (b2 - b1) by ring]

theorem near_clip {a b t : ℝ} (hb : b1 ≠ b2) (hcross : b1 < b ∧ b ≤ b2 ∨ b2 ≤ b ∧ b < b1)
    (hnear : |(a - a1) * (b2 - b1) - (b - b1) * (a2 - a1)| ≤ |b2 - b1|) (ht : 0 ≤ t ∧ t ≤ 1)
    (hside : b1 < b ∧ b ≤ b1 + t * (b2 - b1) ∨ b1 + t * (b2 - b1) ≤ b ∧ b < b1) :
    ∃ t' : ℝ, (0 ≤ t' ∧ t' ≤ 1) ∧ |a + t' * (a2 - a) - (a1 + t * (a2 - a1))| ≤ 1 ∧
      b + t' * (b2 - b) = b1 + t * (b2 - b1) := by
  have hoff : |((a - a1) * (b2 - b1) - (b - b1) * (a2 - a1)) / (b2 - b1)| ≤ 1 := by
    rw [abs_div]
    exact div_le_one_of_le₀ hnear (abs_nonneg _)
  by_cases hend : b = b2
  · -- the edge is at the other end, and so is the point
    subst hend
    have hone : t = 1 := by
      rcases hside with ⟨h, h'⟩ | ⟨h, h'⟩
      · nlinarith
      · nlinarith
    exact ⟨1, by norm_num, by simp [hone], by rw [hone]; ring⟩
  · have hrest : b2 - b ≠ 0 := sub_ne_zero.2 (Ne.symm hend)
    have hweight : 0 ≤ (b1 + t * (b2 - b1) - b) / (b2 - b) ∧ (b1 + t * (b2 - b1) - b) / (b2 - b) ≤ 1 := by
      rcases hcross with ⟨h1, h2⟩ | ⟨h2, h1⟩
      · have hpos : 0 < b2 - b := sub_pos.2 (lt_of_le_of_ne h2 hend)
        constructor
        · refine div_nonneg ?_ hpos.le
          rcases hside with ⟨h, h'⟩ | ⟨h, h'⟩
          · linarith
          · linarith
        · rw [div_le_one hpos]
          nlinarith
      · have hneg : b2 - b < 0 := sub_neg.2 (lt_of_le_of_ne h2 (Ne.symm hend))
        constructor
        · refine div_nonneg_of_nonpos ?_ hneg.le
          rcases hside with ⟨h, h'⟩ | ⟨h, h'⟩
          · linarith
          · linarith
        · rw [div_le_one_of_neg hneg]
          nlinarith
    have hshift : a + (b1 + t * (b2 - b1) - b) / (b2 - b) * (a2 - a) - (a1 + t * (a2 - a1)) =
        (1 - (b1 + t * (b2 - b1) - b) / (b2 - b)) *
          (((a - a1) * (b2 - b1) - (b - b1) * (a2 - a1)) / (b2 - b1)) := by
      field_simp
      ring
    refine ⟨_, hweight, ?_, by field_simp; ring⟩
    rw [hshift, abs_mul]
    refine mul_le_one₀ ?_ (abs_nonneg _) hoff
    rw [abs_le]
    constructor <;> linarith

/-- So what is deep enough on the side that stays keeps a point near, one unit further away. -/
theorem Near.clip {a b : ℝ} (h : Near a1 b1 a2 b2 e qa qb)
    (hcross : b1 < b ∧ b ≤ b2 ∨ b2 ≤ b ∧ b < b1)
    (hnear : |(a - a1) * (b2 - b1) - (b - b1) * (a2 - a1)| ≤ |b2 - b1|)
    (hdeep : b1 < b ∧ b + e ≤ qb ∨ b < b1 ∧ qb ≤ b - e) : Near a b a2 b2 (e + 1) qa qb := by
  obtain ⟨t, ht, ha, hb⟩ := h
  have hne : b1 ≠ b2 := by
    rcases hcross with h | h
    · exact ne_of_lt (lt_of_lt_of_le h.1 h.2)
    · exact ne_of_gt (lt_of_le_of_lt h.1 h.2)
  have hside : b1 < b ∧ b ≤ b1 + t * (b2 - b1) ∨ b1 + t * (b2 - b1) ≤ b ∧ b < b1 := by
    rw [abs_le] at hb
    rcases hdeep with ⟨h, h'⟩ | ⟨h, h'⟩
    · exact .inl ⟨h, by linarith⟩
    · exact .inr ⟨by linarith, h⟩
  obtain ⟨t', ht', ha', hb'⟩ := near_clip hne hcross hnear ht hside
  refine ⟨t', ht', ?_, ?_⟩
  · have htriangle := abs_sub_le (a + t' * (a2 - a)) (a1 + t * (a2 - a1)) qa
    linarith
  · rw [hb']
    linarith

theorem interpolate_first (a1 b1 a2 b2 b : Int)
    (hsmall : (Small a1 ∧ Small b1) ∧ (Small a2 ∧ Small b2) ∧ Small b)
    (hcross : b1 < b ∧ b ≤ b2 ∨ b2 ≤ b ∧ b < b1) : ∃ a, interpolate a1 b1 a2 b2 b = some a ∧
      (min a1 a2 ≤ a ∧ a ≤ max a1 a2) ∧ ∀ e qa qb : ℝ, Near a1 b1 a2 b2 e qa qb →
        (b1 < b ∧ b + e ≤ qb ∨ b < b1 ∧ qb ≤ b - e) → Near a b a2 b2 (e + 1) qa qb := by
  obtain ⟨a, ha, hbetween, hnear⟩ := interpolate_spec hsmall (by omega) (by omega)
  refine ⟨a, ha, hbetween, fun e qa qb h hdeep => h.clip (by exact_mod_cast hcross) ?_
    (by simpa only [cast_lt] using hdeep)⟩
  exact_mod_cast hnear.le

theorem interpolate_second (a1 b1 a2 b2 b : Int)
    (hsmall : (Small a1 ∧ Small b1) ∧ (Small a2 ∧ Small b2) ∧ Small b)
    (hcross : b2 < b ∧ b ≤ b1 ∨ b1 ≤ b ∧ b < b2) : ∃ a, interpolate a1 b1 a2 b2 b = some a ∧
      (min a1 a2 ≤ a ∧ a ≤ max a1 a2) ∧ ∀ e qa qb : ℝ, Near a1 b1 a2 b2 e qa qb →
        (b2 < b ∧ b + e ≤ qb ∨ b < b2 ∧ qb ≤ b - e) → Near a1 b1 a b (e + 1) qa qb := by
  obtain ⟨a, ha, hbetween, hnear⟩ := interpolate_spec hsmall (by omega) (by omega)
  refine ⟨a, ha, hbetween, fun e qa qb h hdeep => (h.reverse.clip (by exact_mod_cast hcross) ?_
    (by simpa only [cast_lt] using hdeep)).reverse⟩
  have hturned : (a - a2) * (b1 - b2) - (b - b2) * (a1 - a2) = -((a - a1) * (b2 - b1) - (b - b1) * (a2 - a1)) := by ring
  have hsame : |(a - a2) * (b1 - b2) - (b - b2) * (a1 - a2)| ≤ |b1 - b2| := by
    rw [hturned, abs_neg, abs_sub_comm b1 b2]
    exact hnear.le
  exact_mod_cast hsame

/-! ## One round -/

namespace Line

def Near (l : Line) (e qx qy : ℝ) : Prop := Windowing.Near l.x1 l.y1 l.x2 l.y2 e qx qy

def Within (l' l : Line) : Prop :=
  InBox (l.x1, l.y1) (l.x2, l.y2) (l'.x1, l'.y1) ∧ InBox (l.x1, l.y1) (l.x2, l.y2) (l'.x2, l'.y2)

def Small (l : Line) : Prop := (Windowing.Small l.x1 ∧ Windowing.Small l.y1) ∧ Windowing.Small l.x2 ∧ Windowing.Small l.y2

instance (l : Line) : Decidable l.Small := inferInstanceAs (Decidable (_ ∧ _))

theorem Within.refl (l : Line) : l.Within l := by
  unfold Within InBox
  omega

theorem Within.trans {l l' l'' : Line} (h' : l''.Within l') (h : l'.Within l) : l''.Within l := by
  unfold Within InBox at h h' ⊢
  omega

theorem Within.small {l l' : Line} (h : l'.Within l) (hl : l.Small) : l'.Small := by
  unfold Within InBox at h
  unfold Small Windowing.Small at hl ⊢
  omega

end Line

def Rect.Small (rect : Rect) : Prop :=
  (rect.left ≤ rect.right ∧ rect.top ≤ rect.bottom) ∧
    (Windowing.Small rect.left ∧ Windowing.Small rect.right) ∧ Windowing.Small rect.top ∧ Windowing.Small rect.bottom

instance (rect : Rect) : Decidable rect.Small := inferInstanceAs (Decidable (_ ∧ _))

/-- In the rectangle shrunk by `e`. -/
def Deep (rect : Rect) (e qx qy : ℝ) : Prop :=
  (rect.left + e ≤ qx ∧ qx ≤ rect.right - e) ∧ rect.top + e ≤ qy ∧ qy ≤ rect.bottom - e

def rank (rect : Rect) (l : Line) : Nat :=
  if rect.contains l.x1 l.y1 = true then
    if l.y2 < rect.top ∨ rect.bottom < l.y2 then 2 else if l.x2 < rect.left ∨ rect.right < l.x2 then 1 else 0
  else if l.y1 < rect.top ∨ rect.bottom < l.y1 then 4 else 3

/-- **A round** moves an end within the box, keeps what is deep enough near, and gets closer to the end of the loop. -/
structure Step (rect : Rect) (l l' : Line) : Prop where
  within : l'.Within l
  near : ∀ e qx qy : ℝ, l.Near e qx qy → Deep rect e qx qy → l'.Near (e + 1) qx qy
  ends : rank rect l' < rank rect l ∨ Beyond rect l'.x1 l'.y1 l'.x2 l'.y2

variable {rect : Rect} {l : Line}

theorem step_first (hrect : rect.Small) (hl : l.Small) (hout : ¬ rect.contains l.x1 l.y1 = true)
    (hnot : ¬ Beyond rect l.x1 l.y1 l.x2 l.y2) : ∃ p, edgePoint rect l (clipmask l.x1 l.y1 rect) = some p ∧
      Step rect l { l with x1 := p.1, y1 := p.2 } := by
  obtain ⟨⟨hx, hy⟩, hrect⟩ := hrect
  have hout' := hout
  rw [Rect.contains_iff] at hout'
  unfold Beyond at hnot
  simp only [edgePoint, clipmask_bottom hy, clipmask_top, clipmask_right hx, clipmask_left]
  by_cases hbottom : rect.bottom < l.y1
  · obtain ⟨x, hclip, hbetween, hnear⟩ := interpolate_first l.x1 l.y1 l.x2 l.y2 rect.bottom
      ⟨hl.1, hl.2, hrect.2.2⟩ (by omega)
    refine ⟨(x, rect.bottom), ?_, ?_, ?_, ?_⟩
    · rw [if_pos hbottom, horz_clip, hclip]
      rfl
    · simp only [Line.Within, InBox]
      omega
    · exact fun e qx qy h hdeep => hnear e qx qy h (.inr ⟨hbottom, hdeep.2.2⟩)
    · simp only [rank, Beyond, hout]
      split_ifs <;> simp only [Rect.contains_iff] at * <;> omega
  by_cases htop : l.y1 < rect.top
  · obtain ⟨x, hclip, hbetween, hnear⟩ := interpolate_first l.x1 l.y1 l.x2 l.y2 rect.top
      ⟨hl.1, hl.2, hrect.2.1⟩ (by omega)
    refine ⟨(x, rect.top), ?_, ?_, ?_, ?_⟩
    · rw [if_neg hbottom, if_pos htop, horz_clip, hclip]
      rfl
    · simp only [Line.Within, InBox]
      omega
    · exact fun e qx qy h hdeep => hnear e qx qy h (.inl ⟨htop, hdeep.2.1⟩)
    · simp only [rank, Beyond, hout]
      split_ifs <;> simp only [Rect.contains_iff] at * <;> omega
  by_cases hright : rect.right < l.x1
  · obtain ⟨y, hclip, hbetween, hnear⟩ := interpolate_first l.y1 l.x1 l.y2 l.x2 rect.right
      ⟨hl.1.symm, hl.2.symm, hrect.1.2⟩ (by omega)
    refine ⟨(rect.right, y), ?_, ?_, ?_, ?_⟩
    · rw [if_neg hbottom, if_neg htop, if_pos hright, vert_clip, hclip]
      rfl
    · simp only [Line.Within, InBox]
      omega
    · exact fun e qx qy h hdeep => (hnear e qy qx h.transpose (.inr ⟨hright, hdeep.1.2⟩)).transpose
    · simp only [rank, Beyond, hout]
      split_ifs <;> simp only [Rect.contains_iff] at * <;> omega
  · have hleft : l.x1 < rect.left := by omega
    obtain ⟨y, hclip, hbetween, hnear⟩ := interpolate_first l.y1 l.x1 l.y2 l.x2 rect.left
      ⟨hl.1.symm, hl.2.symm, hrect.1.1⟩ (by omega)
    refine ⟨(rect.left, y), ?_, ?_, ?_, ?_⟩
    · rw [if_neg hbottom, if_neg htop, if_neg hright, if_pos hleft, vert_clip, hclip]
      rfl
    · simp only [Line.Within, InBox]
      omega
    · exact fun e qx qy h hdeep => (hnear e qy qx h.transpose (.inl ⟨hleft, hdeep.1.1⟩)).transpose
    · simp only [rank, Beyond, hout]
      split_ifs <;> simp only [Rect.contains_iff] at * <;> omega

theorem step_second (hrect : rect.Small) (hl : l.Small) (hin : rect.contains l.x1 l.y1 = true)
    (hout : ¬ rect.contains l.x2 l.y2 = true) : ∃ p, edgePoint rect l (clipmask l.x2 l.y2 rect) = some p ∧
      Step rect l { l with x2 := p.1, y2 := p.2 } := by
  obtain ⟨⟨hx, hy⟩, hrect⟩ := hrect
  have hin' := hin
  rw [Rect.contains_iff] at hout hin'
  simp only [edgePoint, clipmask_bottom hy, clipmask_top, clipmask_right hx, clipmask_left]
  by_cases hbottom : rect.bottom < l.y2
  · obtain ⟨x, hclip, hbetween, hnear⟩ := interpolate_second l.x1 l.y1 l.x2 l.y2 rect.bottom
      ⟨hl.1, hl.2, hrect.2.2⟩ (by omega)
    refine ⟨(x, rect.bottom), ?_, ?_, ?_, ?_⟩
    · rw [if_pos hbottom, horz_clip, hclip]
      rfl
    · simp only [Line.Within, InBox]
      omega
    · exact fun e qx qy h hdeep => hnear e qx qy h (.inr ⟨hbottom, hdeep.2.2⟩)
    · simp only [rank, hin]
      split_ifs <;> omega
  by_cases htop : l.y2 < rect.top
  · obtain ⟨x, hclip, hbetween, hnear⟩ := interpolate_second l.x1 l.y1 l.x2 l.y2 rect.top
      ⟨hl.1, hl.2, hrect.2.1⟩ (by omega)
    refine ⟨(x, rect.top), ?_, ?_, ?_, ?_⟩
    · rw [if_neg hbottom, if_pos htop, horz_clip, hclip]
      rfl
    · simp only [Line.Within, InBox]
      omega
    · exact fun e qx qy h hdeep => hnear e qx qy h (.inl ⟨htop, hdeep.2.1⟩)
    · simp only [rank, hin]
      split_ifs <;> omega
  by_cases hright : rect.right < l.x2
  · obtain ⟨y, hclip, hbetween, hnear⟩ := interpolate_second l.y1 l.x1 l.y2 l.x2 rect.right
      ⟨hl.1.symm, hl.2.symm, hrect.1.2⟩ (by omega)
    refine ⟨(rect.right, y), ?_, ?_, ?_, ?_⟩
    · rw [if_neg hbottom, if_neg htop, if_pos hright, vert_clip, hclip]
      rfl
    · simp only [Line.Within, InBox]
      omega
    · exact fun e qx qy h hdeep => (hnear e qy qx h.transpose (.inr ⟨hright, hdeep.1.2⟩)).transpose
    · simp only [rank, hin]
      split_ifs <;> omega
  · have hleft : l.x2 < rect.left := by omega
    obtain ⟨y, hclip, hbetween, hnear⟩ := interpolate_second l.y1 l.x1 l.y2 l.x2 rect.left
      ⟨hl.1.symm, hl.2.symm, hrect.1.1⟩ (by omega)
    refine ⟨(rect.left, y), ?_, ?_, ?_, ?_⟩
    · rw [if_neg hbottom, if_neg htop, if_neg hright, if_pos hleft, vert_clip, hclip]
      rfl
    · simp only [Line.Within, InBox]
      omega
    · exact fun e qx qy h hdeep => (hnear e qy qx h.transpose (.inl ⟨hleft, hdeep.1.1⟩)).transpose
    · simp only [rank, hin]
      split_ifs <;> omega

/-! ## The loop -/

/-- What the loop makes of a line: it is drawn in the rectangle and in its own box, or nothing near it is deep in the
rectangle. -/
structure Result (rect : Rect) (l : Line) (e : ℝ) (r : Option Line) : Prop where
  drawn : ∀ l', r = some l' → (rect.contains l'.x1 l'.y1 = true ∧ rect.contains l'.x2 l'.y2 = true) ∧ l'.Within l
  rejected : r = none → ∀ qx qy : ℝ, l.Near e qx qy → ¬ Deep rect 4 qx qy

theorem not_deep_of_beyond (h : Beyond rect l.x1 l.y1 l.x2 l.y2) {qx qy : ℝ} (he : e ≤ 4) (hnear : l.Near e qx qy) :
    ¬ Deep rect 4 qx qy := by
  rintro ⟨⟨hl, hr⟩, ht, hb⟩
  obtain ⟨t, ⟨ht0, ht1⟩, hx, hy⟩ := hnear
  rw [abs_le] at hx hy
  -- a coordinate between two that are greater than a bound, or less
  have hgreater : ∀ a b c : Int, c < a → c < b → (c : ℝ) < a + t * (b - a) := by
    intro a b c ha hb
    have ha' : (c : ℝ) < a := by exact_mod_cast ha
    have hb' : (c : ℝ) < b := by exact_mod_cast hb
    rcases le_total (a : ℝ) b with hle | hle
    · nlinarith
    · nlinarith
  have hless : ∀ a b c : Int, a < c → b < c → (a : ℝ) + t * (b - a) < c := by
    intro a b c ha hb
    have ha' : (a : ℝ) < c := by exact_mod_cast ha
    have hb' : (b : ℝ) < c := by exact_mod_cast hb
    rcases le_total (a : ℝ) b with hle | hle
    · nlinarith
    · nlinarith
  rcases h with (⟨h1, h2⟩ | ⟨h1, h2⟩) | ⟨h1, h2⟩ | ⟨h1, h2⟩
  · have h := hgreater _ _ _ h1 h2
    linarith
  · have h := hless _ _ _ h1 h2
    linarith
  · have h := hgreater _ _ _ h1 h2
    linarith
  · have h := hless _ _ _ h1 h2
    linarith

theorem result_of_inside (h : rect.contains l.x1 l.y1 = true ∧ rect.contains l.x2 l.y2 = true) (e : ℝ) :
    (∀ rounds > 0, lineClipper rounds rect l = some (some l)) ∧ Result rect l e (some l) := by
  constructor
  · intro rounds hrounds
    obtain ⟨rounds, rfl⟩ := Nat.exists_eq_succ_of_ne_zero (by omega : rounds ≠ 0)
    rw [lineClipper, clipLoop, if_pos ⟨clipmask_eq_zero.2 h.1, clipmask_eq_zero.2 h.2⟩]
  · refine ⟨fun l' hl' => ?_, fun hr => by cases hr⟩
    obtain rfl := Option.some.inj hl'
    exact ⟨h, Line.Within.refl l⟩

theorem result_of_beyond (hrect : rect.Small) (h : Beyond rect l.x1 l.y1 l.x2 l.y2) (he : e ≤ 4) :
    (∀ rounds > 0, lineClipper rounds rect l = some none) ∧ Result rect l e none := by
  obtain ⟨⟨hx, hy⟩, -⟩ := hrect
  constructor
  · intro rounds hrounds
    obtain ⟨rounds, rfl⟩ := Nat.exists_eq_succ_of_ne_zero (by omega : rounds ≠ 0)
    have hland := (clipmask_land hx hy).2 h
    have hmask : ¬ (clipmask l.x1 l.y1 rect = 0 ∧ clipmask l.x2 l.y2 rect = 0) := by
      rintro ⟨h1, -⟩
      exact hland (by rw [h1, Nat.zero_and])
    rw [lineClipper, clipLoop, if_neg hmask, if_pos hland]
  · exact ⟨fun l' hl' => absurd hl' (by simp), fun _ qx qy hnear => not_deep_of_beyond h he hnear⟩

theorem lineClipper_step (hrect : rect.Small) (hl : l.Small)
    (hout : ¬ (rect.contains l.x1 l.y1 = true ∧ rect.contains l.x2 l.y2 = true))
    (hnot : ¬ Beyond rect l.x1 l.y1 l.x2 l.y2) :
    ∃ l', (∀ rounds, lineClipper (rounds + 1) rect l = lineClipper rounds rect l') ∧ Step rect l l' := by
  have hmask : ¬ (clipmask l.x1 l.y1 rect = 0 ∧ clipmask l.x2 l.y2 rect = 0) := by
    rwa [clipmask_eq_zero, clipmask_eq_zero]
  have hland : ¬ (clipmask l.x1 l.y1 rect &&& clipmask l.x2 l.y2 rect ≠ 0) := by
    rwa [clipmask_land hrect.1.1 hrect.1.2]
  by_cases hfirst : rect.contains l.x1 l.y1 = true
  · obtain ⟨p, hp, hstep⟩ := step_second hrect hl hfirst fun h => hout ⟨hfirst, h⟩
    have hzero : ¬ clipmask l.x1 l.y1 rect ≠ 0 := fun h => h (clipmask_eq_zero.2 hfirst)
    refine ⟨_, fun rounds => ?_, hstep⟩
    rw [lineClipper, clipLoop, if_neg hmask, if_neg hland, if_neg hzero, hp, bind_some, if_neg hzero]
    rfl
  · obtain ⟨p, hp, hstep⟩ := step_first hrect hl hfirst hnot
    have hne : clipmask l.x1 l.y1 rect ≠ 0 := fun h => hfirst (clipmask_eq_zero.1 h)
    refine ⟨_, fun rounds => ?_, hstep⟩
    rw [lineClipper, clipLoop, if_neg hmask, if_neg hland, if_pos hne, hp, bind_some, if_pos hne]
    rfl

theorem inside_of_rank (h : rank rect l = 0) :
    rect.contains l.x1 l.y1 = true ∧ rect.contains l.x2 l.y2 = true := by
  unfold rank at h
  split_ifs at h with hfirst hy hx
  exact ⟨hfirst, Rect.contains_iff.2 (by omega)⟩

/-- **The loop** ends after at most as many moves as the rank says, and each of them takes the line one unit further
away. -/
theorem lineClipper_result (hrect : rect.Small) (n : Nat) : ∀ (l : Line) (e : ℝ), l.Small →
    (rank rect l ≤ n ∧ e + n ≤ 4) ∨ (Beyond rect l.x1 l.y1 l.x2 l.y2 ∧ e ≤ 4) →
      ∃ r, (∀ rounds > n, lineClipper rounds rect l = some r) ∧ Result rect l e r := by
  induction n with
  | zero =>
    rintro l e hl (⟨hrank, -⟩ | ⟨hbeyond, he⟩)
    · have hin := inside_of_rank (Nat.le_zero.1 hrank)
      exact ⟨some l, result_of_inside hin e⟩
    · exact ⟨none, result_of_beyond hrect hbeyond he⟩
  | succ n ih =>
    intro l e hl hstate
    have he : e ≤ 4 := by
      rcases hstate with ⟨-, he⟩ | ⟨-, he⟩
      · have hpos : (0 : ℝ) ≤ (n + 1 : Nat) := Nat.cast_nonneg _
        linarith
      · exact he
    by_cases hin : rect.contains l.x1 l.y1 = true ∧ rect.contains l.x2 l.y2 = true
    · obtain ⟨hrounds, hr⟩ := result_of_inside hin e
      exact ⟨some l, fun rounds h => hrounds rounds (by omega), hr⟩
    by_cases hbeyond : Beyond rect l.x1 l.y1 l.x2 l.y2
    · obtain ⟨hrounds, hr⟩ := result_of_beyond hrect hbeyond he
      exact ⟨none, fun rounds h => hrounds rounds (by omega), hr⟩
    · obtain ⟨l', hloop, hstep⟩ := lineClipper_step hrect hl hin hbeyond
      obtain ⟨hrank, hsum⟩ := hstate.resolve_right fun h => hbeyond h.1
      have hnext : (rank rect l' ≤ n ∧ (e + 1) + n ≤ 4) ∨ (Beyond rect l'.x1 l'.y1 l'.x2 l'.y2 ∧ e + 1 ≤ 4) := by
        push_cast at hsum
        rcases hstep.ends with h | h
        · exact .inl ⟨by omega, by linarith⟩
        · exact .inr ⟨h, by linarith⟩
      obtain ⟨r, hrounds, hr⟩ := ih l' (e + 1) (hstep.within.small hl) hnext
      refine ⟨r, fun rounds hlt => ?_, fun l'' hl'' => ?_, fun hnone qx qy hnear hdeep => ?_⟩
      · obtain ⟨rounds, rfl⟩ := Nat.exists_eq_succ_of_ne_zero (by omega : rounds ≠ 0)
        rw [hloop]
        exact hrounds rounds (by omega)
      · obtain ⟨hends, hwithin⟩ := hr.drawn l'' hl''
        exact ⟨hends, hwithin.trans hstep.within⟩
      · have hdeep' : Deep rect e qx qy := by
          obtain ⟨⟨h1, h2⟩, h3, h4⟩ := hdeep
          refine ⟨⟨?_, ?_⟩, ?_, ?_⟩ <;> linarith
        exact hr.rejected hnone qx qy (hstep.near e qx qy hnear hdeep') hdeep

/-- **Clipping.** The loop ends without a fault. What is drawn is in the rectangle and in the box of the line, and is the
line itself if that is inside; nothing of what is rejected is in the rectangle shrunk by four pixels. -/
theorem lineClipper_spec (hrect : rect.Small) (hl : l.Small) :
    ∃ r, (∀ rounds > 4, lineClipper rounds rect l = some r) ∧
      (∀ l', r = some l' → (rect.contains l'.x1 l'.y1 = true ∧ rect.contains l'.x2 l'.y2 = true) ∧ l'.Within l) ∧
      (rect.contains l.x1 l.y1 = true → rect.contains l.x2 l.y2 = true → r = some l) ∧
      (r = none → ∀ t : ℝ, 0 ≤ t → t ≤ 1 → ¬ Deep rect 4 (l.x1 + t * (l.x2 - l.x1)) (l.y1 + t * (l.y2 - l.y1))) := by
  have hrank : rank rect l ≤ 4 := by
    unfold rank
    split_ifs <;> omega
  obtain ⟨r, hrounds, hr⟩ := lineClipper_result hrect 4 l 0 hl (.inl ⟨hrank, by norm_num⟩)
  refine ⟨r, hrounds, hr.drawn, fun h1 h2 => ?_, fun hnone t ht0 ht1 => ?_⟩
  · have hline := (result_of_inside ⟨h1, h2⟩ 0).1 5 (by omega)
    rw [hrounds 5 (by omega)] at hline
    exact Option.some.inj hline
  · exact hr.rejected hnone _ _ ⟨t, ⟨ht0, ht1⟩, by simp, by simp⟩

/-- From side to side. -/
theorem lineClipper_spec_across : ∃ r, lineClipper 5 ⟨0, 0, 100, 100⟩ ⟨-50, 50, 150, 30⟩ = some r ∧
    ∀ l', r = some l' → l'.Within ⟨-50, 50, 150, 30⟩ := by
  obtain ⟨r, hrounds, hdrawn, -⟩ := @lineClipper_spec ⟨0, 0, 100, 100⟩ ⟨-50, 50, 150, 30⟩ (by decide) (by decide)
  exact ⟨r, hrounds 5 (by decide), fun l' h => (hdrawn l' h).2⟩

example : lineClipper 5 ⟨0, 0, 100, 100⟩ ⟨-50, 50, 150, 30⟩ = some (some ⟨0, 45, 100, 35⟩) := by decide

end Windowing
