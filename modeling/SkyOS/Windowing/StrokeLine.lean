import Mathlib.Data.List.Range
import Mathlib.Tactic.Ring
import SkyOS.Windowing.Surface

/-!
# Lines (`Rasterizer24bpp::strokeLine`, `WindowingSystem/Rasterizer24bpp.cpp:25`)

The line goes from top to bottom along its longer side, and takes a step along the shorter one where an error term
exceeds the length of the longer. Both lengths count the end pixel. If the shorter one is really shorter, all of its
steps have been taken before the last pixel; on an exact diagonal one is missing, because the first comparison is of
equal lengths and strict.

| here | there |
| --- | --- |
| `minor n m k` | the steps along the side of `m` pixels before pixel `k` of `n` |
| `strokeDown` | `strokeLine` after the swap |
| `none` | an assertion that fails |
-/

namespace Windowing

open List Nat

/-! ## The code -/

/-- The loop of a straight line (:57, :65), `ptr` moving by `by`. -/
def straightLoop (color step : Int) : Nat → Int → Drawing → Drawing
  | 0, _, d => d
  | rounds + 1, ptr, d => straightLoop color step rounds (ptr + step) (d.store ptr color)

/-- The loop with the horizontal major axis (:75), left at `x2`. -/
def horizontalLoop (s : Surface) (color x2 deltaX deltaY xDir : Int) : Nat → Int → Int → Int → Drawing → Drawing
  | 0, _, _, _, d => d
  | rounds + 1, x, error, ptr, d =>
    let d := d.store ptr color
    let error := error + deltaY
    let turned := error > deltaX
    let ptr := if turned then ptr + s.stride else ptr
    let error := if turned then error - deltaX else error
    let ptr := ptr + xDir * 3
    if x = x2 then d else horizontalLoop s color x2 deltaX deltaY xDir rounds (x + xDir) error ptr d

/-- The loop with the vertical major axis (:93), `y2 - y1 + 1` rounds. -/
def verticalLoop (s : Surface) (color deltaX deltaY xDir : Int) : Nat → Int → Int → Drawing → Drawing
  | 0, _, _, d => d
  | rounds + 1, error, ptr, d =>
    let d := d.store ptr color
    let error := error + deltaX
    let turned := error > deltaY
    let ptr := if turned then ptr + xDir * 3 else ptr
    let error := if turned then error - deltaY else error
    verticalLoop s color deltaX deltaY xDir rounds error (ptr + s.stride) d

/-- What follows the swap (:49-:104). -/
def strokeDown (s : Surface) (x1 y1 x2 y2 color : Int) (d : Drawing) : Drawing :=
  let deltaY := (y2 - y1) + 1
  let deltaX := if x2 > x1 then (x2 - x1) + 1 else (x1 - x2) + 1
  let xDir : Int := if x2 > x1 then 1 else -1
  let ptr := s.bits + x1 * 3 + y1 * s.stride
  if deltaX = 0 then straightLoop color s.stride deltaY.toNat ptr d
  else if deltaY = 0 then straightLoop color (xDir * 3) deltaX.toNat ptr d
  else if deltaX > deltaY then horizontalLoop s color x2 deltaX deltaY xDir deltaX.toNat x1 0 ptr d
  else verticalLoop s color deltaX deltaY xDir (y2 - y1 + 1).toNat 0 ptr d

/-- `strokeLine` (:25). -/
def strokeLine (s : Surface) (x1 y1 x2 y2 color : Int) (d : Drawing) : Option Drawing :=
  if ((x1 ≥ 0 ∧ x1 < s.width) ∧ x2 ≥ 0 ∧ x2 < s.width) ∧ (y1 ≥ 0 ∧ y1 < s.height) ∧ y2 ≥ 0 ∧ y2 < s.height then
    some (if y1 > y2 then strokeDown s x2 y2 x1 y1 color d else strokeDown s x1 y1 x2 y2 color d)
  else none

/-! ## The error term -/

def minor (n m k : Nat) : Nat := (k * m - 1) / n

variable {n m k : Nat}

@[simp] theorem minor_zero (n m : Nat) : minor n m 0 = 0 := by
  simp [minor]

theorem minor_succ (hm : 0 < m) (hmn : m ≤ n) (k : Nat) : minor n m (k + 1) =
    if k * m - n * minor n m k + m > n then minor n m k + 1 else minor n m k := by
  cases k with
  | zero =>
    simp only [minor_zero, Nat.zero_mul, Nat.mul_zero]
    rw [if_neg (by omega), minor, div_eq_of_lt (by omega)]
  | succ k =>
    have hpos : 0 < (k + 1) * m := Nat.mul_pos (succ_pos k) hm
    have hdiv : n * minor n m (k + 1) + ((k + 1) * m - 1) % n = (k + 1) * m - 1 := div_add_mod _ n
    have hmod := mod_lt ((k + 1) * m - 1) (by omega : 0 < n)
    generalize ((k + 1) * m - 1) % n = rest at hdiv hmod
    have hnext : (k + 1 + 1) * m - 1 = n * minor n m (k + 1) + (rest + m) := by
      rw [succ_mul (k + 1)]
      omega
    have hsum : minor n m (k + 1 + 1) = minor n m (k + 1) + (rest + m) / n := by
      conv_lhs => rw [minor, hnext, mul_add_div (by omega)]
    rw [hsum]
    split
    · have hone : (rest + m) / n = 1 := Nat.div_eq_of_lt_le (by omega) (by omega)
      rw [hone]
    · have hnone : (rest + m) / n = 0 := div_eq_of_lt (by omega)
      rw [hnone, Nat.add_zero]

theorem minor_le (n m k : Nat) : n * minor n m k ≤ k * m := by
  have h := mul_div_le (k * m - 1) n
  unfold minor
  omega

theorem minor_lt (hm : 0 < m) (hk : k < n) : minor n m k < m := by
  have hprod : (k + 1) * m ≤ n * m := Nat.mul_le_mul_right m hk
  rw [succ_mul] at hprod
  exact Nat.div_lt_of_lt_mul (by omega)

theorem minor_last (hm : 0 < m) (hmn : m < n) : minor n m (n - 1) = m - 1 := by
  obtain ⟨rest, rfl⟩ : ∃ rest, n = m + rest + 1 := ⟨n - m - 1, by omega⟩
  obtain ⟨m, rfl⟩ := exists_eq_succ_of_ne_zero (by omega : m ≠ 0)
  have hprod : (m + 1 + rest + 1 - 1) * (m + 1) - 1 = (m + 1 + rest + 1) * m + rest := by
    have hexpand : (m + 1 + rest) * (m + 1) = (m + 1 + rest) * m + (m + 1 + rest) := mul_succ _ _
    have hexpand' : (m + 1 + rest + 1) * m = (m + 1 + rest) * m + m := succ_mul _ _
    rw [Nat.add_sub_cancel]
    omega
  rw [minor, hprod, mul_add_div (by omega), div_eq_of_lt (by omega)]
  rfl

/-- On an exact diagonal the steps lag one behind. -/
theorem minor_diagonal (hn : 0 < n) (k : Nat) : minor n n k = k - 1 := by
  cases k with
  | zero => exact minor_zero n n
  | succ k =>
    have hprod : (k + 1) * n - 1 = n * k + (n - 1) := by
      rw [succ_mul, Nat.mul_comm]
      omega
    rw [minor, hprod, mul_add_div hn, div_eq_of_lt (by omega)]
    rfl

/-! ## What the loops draw -/

/-- Pixel `k` of a line to the right or left, and of a line down. -/
def horizontalPixel (x1 y1 xDir : Int) (n m k : Nat) : Int × Int := (x1 + xDir * k, y1 + minor n m k)

def verticalPixel (x1 y1 xDir : Int) (n m k : Nat) : Int × Int := (x1 + xDir * minor n m k, y1 + k)

variable {s : Surface} {color x1 y1 x2 y2 xDir : Int}

/-- The error that the loops carry to pixel `k`. -/
def errorAt (n m k : Nat) : Int := k * m - n * minor n m k

theorem errorAt_succ (hm : 0 < m) (hmn : m ≤ n) (k : Nat) :
    (minor n m (k + 1) = if errorAt n m k + m > n then minor n m k + 1 else minor n m k) ∧
      errorAt n m (k + 1) = if errorAt n m k + m > n then errorAt n m k + m - n else errorAt n m k + m := by
  have hle := minor_le n m k
  have hsucc := minor_succ hm hmn k
  have hcast : errorAt n m k = ((k * m - n * minor n m k : Nat) : Int) := by
    rw [errorAt]
    omega
  have hturn : (errorAt n m k + m > n) ↔ k * m - n * minor n m k + m > n := by
    rw [hcast]
    omega
  simp only [hturn]
  refine ⟨hsucc, ?_⟩
  rw [errorAt, hsucc, errorAt]
  split
  · push_cast
    ring
  · push_cast
    ring

theorem verticalLoop_eq (s : Surface) (color x1 y1 xDir : Int) (hm : 0 < m) (hmn : m ≤ n) (rounds : Nat) :
    ∀ (k : Nat) (ptr : Int) (d : Drawing),
    ptr = s.addr (verticalPixel x1 y1 xDir n m k).1 (verticalPixel x1 y1 xDir n m k).2 →
      verticalLoop s color m n xDir rounds (errorAt n m k) ptr d =
        d.pixels s color ((List.range' k rounds).map (verticalPixel x1 y1 xDir n m)) := by
  induction rounds with
  | zero => exact fun k ptr d _ => rfl
  | succ rounds ih =>
    intro k ptr d hptr
    obtain ⟨hminor, herror⟩ := errorAt_succ hm hmn k
    rw [List.range'_succ, map_cons, Drawing.pixels_cons, ← hptr, verticalLoop]
    rw [← herror]
    refine ih (k + 1) _ _ ?_
    simp only [verticalPixel, Surface.addr, hminor] at hptr ⊢
    rw [hptr]
    split
    · push_cast
      ring
    · push_cast
      ring

theorem horizontalLoop_eq (s : Surface) (color y1 : Int) (hm : 0 < m) (hmn : m ≤ n) (hdir : xDir ≠ 0)
    (hx2 : x2 = x1 + xDir * (n - 1 : Nat)) (rounds : Nat) : ∀ (k : Nat) (ptr : Int) (d : Drawing), k < n → n - k ≤ rounds →
    ptr = s.addr (horizontalPixel x1 y1 xDir n m k).1 (horizontalPixel x1 y1 xDir n m k).2 →
      horizontalLoop s color x2 n m xDir rounds (x1 + xDir * k) (errorAt n m k) ptr d =
        d.pixels s color ((List.range' k (n - k)).map (horizontalPixel x1 y1 xDir n m)) := by
  induction rounds with
  | zero =>
    intro k ptr d hk hrounds
    omega
  | succ rounds ih =>
    intro k ptr d hk hrounds hptr
    obtain ⟨hminor, herror⟩ := errorAt_succ hm hmn k
    have hcount : n - k = (n - (k + 1)) + 1 := by omega
    rw [hcount, List.range'_succ, map_cons, Drawing.pixels_cons, ← hptr, horizontalLoop]
    by_cases hlast : k = n - 1
    · have hnone : n - (k + 1) = 0 := by omega
      rw [if_pos (by rw [hx2, hlast]), hnone]
      rfl
    · have hnot : x1 + xDir * k ≠ x2 := by
        rw [hx2]
        intro heq
        have hsame := mul_left_cancel₀ hdir (Int.add_left_cancel heq)
        omega
      have hstep : x1 + xDir * k + xDir = x1 + xDir * (k + 1 : Nat) := by
        push_cast
        ring
      rw [if_neg hnot, ← herror, hstep]
      refine ih (k + 1) _ _ (by omega) (by omega) ?_
      simp only [horizontalPixel, Surface.addr, hminor] at hptr ⊢
      rw [hptr]
      split
      · push_cast
        ring
      · push_cast
        ring

/-- The pixels along `x` and `y`, the end pixel counted. -/
def extent (a b : Int) : Nat := (b - a).natAbs + 1

def direction (x1 x2 : Int) : Int := if x2 > x1 then 1 else -1

/-- Pixel `k` of the line from the upper end. -/
def linePixel (x1 y1 x2 y2 : Int) : Nat → Int × Int :=
  if extent x1 x2 > extent y1 y2 then horizontalPixel x1 y1 (direction x1 x2) (extent x1 x2) (extent y1 y2)
  else verticalPixel x1 y1 (direction x1 x2) (extent y1 y2) (extent x1 x2)

theorem strokeDown_eq (hy : y1 ≤ y2) (d : Drawing) : strokeDown s x1 y1 x2 y2 color d =
    d.pixels s color ((List.range (max (extent x1 x2) (extent y1 y2))).map (linePixel x1 y1 x2 y2)) := by
  have hdeltaY : y2 - y1 + 1 = (extent y1 y2 : Int) := by
    unfold extent
    omega
  have hdeltaX : (if x2 > x1 then x2 - x1 + 1 else x1 - x2 + 1) = (extent x1 x2 : Int) := by
    unfold extent
    split <;> omega
  have hpos : 0 < extent x1 x2 ∧ 0 < extent y1 y2 := ⟨succ_pos _, succ_pos _⟩
  have herror : ∀ n m, errorAt n m 0 = 0 := fun n m => by simp [errorAt]
  have hdir : (if x2 > x1 then (1 : Int) else -1) = direction x1 x2 := rfl
  have haddr : s.bits + x1 * 3 + y1 * s.stride = s.addr x1 y1 := rfl
  rw [strokeDown]
  simp only [hdeltaX, hdeltaY, hdir, haddr]
  rw [if_neg (by omega), if_neg (by omega), range_eq_range', linePixel]
  by_cases hmajor : extent x1 x2 > extent y1 y2
  · have hx2 : x2 = x1 + direction x1 x2 * (extent x1 x2 - 1 : Nat) := by
      unfold direction extent
      split <;> omega
    have hne : direction x1 x2 ≠ 0 := by
      unfold direction
      split <;> omega
    have hloop := horizontalLoop_eq s color y1 hpos.2 (Nat.le_of_lt hmajor) hne hx2
      (extent x1 x2) 0 (s.addr x1 y1) d hpos.1 le_rfl (by simp [horizontalPixel])
    rw [if_pos (by omega), if_pos hmajor, Nat.max_eq_left (Nat.le_of_lt hmajor)]
    simpa [herror] using hloop
  · have hloop := verticalLoop_eq s color x1 y1 (direction x1 x2) hpos.1 (Nat.le_of_not_lt hmajor)
      (extent y1 y2) 0 (s.addr x1 y1) d (by simp [verticalPixel])
    rw [if_neg (by omega), if_neg hmajor, Nat.max_eq_right (Nat.le_of_not_lt hmajor)]
    simpa [herror] using hloop

/-! ## The path -/

def Adjacent (p q : Int × Int) : Prop := p ≠ q ∧ ((q.1 - p.1).natAbs ≤ 1 ∧ (q.2 - p.2).natAbs ≤ 1)

variable {p q : Int × Int} {length : Nat}

theorem Adjacent.symm (h : Adjacent p q) : Adjacent q p :=
  ⟨h.1.symm, by have := h.2; omega⟩

def InBox (p q r : Int × Int) : Prop :=
  (min p.1 q.1 ≤ r.1 ∧ r.1 ≤ max p.1 q.1) ∧ min p.2 q.2 ≤ r.2 ∧ r.2 ≤ max p.2 q.2

/-- `length + 1` different pixels of the box, each beside the one before it. -/
structure Path (p q : Int × Int) (length : Nat) (pixel : Nat → Int × Int) : Prop where
  start : pixel 0 = p
  adjacent : ∀ k < length, Adjacent (pixel k) (pixel (k + 1))
  distinct : ∀ j ≤ length, ∀ k ≤ length, pixel j = pixel k → j = k
  inBox : ∀ k ≤ length, InBox p q (pixel k)

theorem InBox.symm {r : Int × Int} (h : InBox p q r) : InBox q p r := by
  unfold InBox at h ⊢
  omega

variable {pixel : Nat → Int × Int}

theorem Path.near (h : Path p q length pixel) :
    ∀ k ≤ length, ((pixel k).1 - p.1).natAbs ≤ k ∧ ((pixel k).2 - p.2).natAbs ≤ k := by
  intro k
  induction k with
  | zero =>
    intro _
    simp [h.start]
  | succ k ih =>
    intro hk
    have hstep := (h.adjacent k hk).2
    omega

theorem Path.reverse (h : Path p q length pixel)
    (hend : pixel length = q) : Path q p length (fun k => pixel (length - k)) := by
  constructor
  · exact hend
  · intro k hk
    have hadj := (h.adjacent (length - (k + 1)) (by omega)).symm
    rwa [show length - (k + 1) + 1 = length - k by omega] at hadj
  · intro j hj k hk heq
    have hsame := h.distinct (length - j) (by omega) (length - k) (by omega) heq
    omega
  · exact fun k hk => (h.inBox (length - k) (by omega)).symm

theorem direction_cases (x1 x2 : Int) : (direction x1 x2 = 1 ∧ x1 < x2) ∨ (direction x1 x2 = -1 ∧ x2 ≤ x1) := by
  unfold direction
  split <;> omega

theorem minor_step (hm : 0 < m) (hmn : m ≤ n) (k : Nat) :
    minor n m k ≤ minor n m (k + 1) ∧ minor n m (k + 1) ≤ minor n m k + 1 := by
  rw [minor_succ hm hmn]
  split <;> omega

/-- **The pixels of a line** are a path from its upper end. -/
theorem path_linePixel (hy : y1 ≤ y2) :
    Path (x1, y1) (x2, y2) (max (x2 - x1).natAbs (y2 - y1).natAbs) (linePixel x1 y1 x2 y2) := by
  have hpos : 0 < extent x1 x2 ∧ 0 < extent y1 y2 := ⟨succ_pos _, succ_pos _⟩
  have hx : extent x1 x2 = (x2 - x1).natAbs + 1 := rfl
  have hy' : extent y1 y2 = (y2 - y1).natAbs + 1 := rfl
  unfold linePixel
  by_cases hmajor : extent x1 x2 > extent y1 y2
  · rw [if_pos hmajor]
    have hlt : ∀ k ≤ (x2 - x1).natAbs, minor (extent x1 x2) (extent y1 y2) k < extent y1 y2 :=
      fun k hk => minor_lt hpos.2 (by omega)
    constructor
    · simp [horizontalPixel]
    · intro k _
      have hstep := minor_step hpos.2 (Nat.le_of_lt hmajor) k
      rcases direction_cases x1 x2 with ⟨hd, -⟩ | ⟨hd, -⟩ <;>
      · simp only [Adjacent, horizontalPixel, hd, ne_eq, Prod.mk.injEq]
        omega
    · intro j _ k _ heq
      rcases direction_cases x1 x2 with ⟨hd, -⟩ | ⟨hd, -⟩ <;>
      · simp only [horizontalPixel, hd, Prod.mk.injEq] at heq
        omega
    · intro k hk
      have hminor := hlt k (by omega)
      rcases direction_cases x1 x2 with ⟨hd, hdir⟩ | ⟨hd, hdir⟩ <;>
      · simp only [InBox, horizontalPixel, hd]
        omega
  · rw [if_neg hmajor]
    have hlt : ∀ k ≤ (y2 - y1).natAbs, minor (extent y1 y2) (extent x1 x2) k < extent x1 x2 :=
      fun k hk => minor_lt hpos.1 (by omega)
    constructor
    · simp [verticalPixel]
    · intro k _
      have hstep := minor_step hpos.1 (Nat.le_of_not_lt hmajor) k
      rcases direction_cases x1 x2 with ⟨hd, -⟩ | ⟨hd, -⟩ <;>
      · simp only [Adjacent, verticalPixel, hd, ne_eq, Prod.mk.injEq]
        omega
    · intro j _ k _ heq
      simp only [verticalPixel, Prod.mk.injEq] at heq
      omega
    · intro k hk
      have hminor := hlt k (by omega)
      rcases direction_cases x1 x2 with ⟨hd, hdir⟩ | ⟨hd, hdir⟩ <;>
      · simp only [InBox, verticalPixel, hd]
        omega

theorem linePixel_last_iff (hy : y1 ≤ y2) :
    linePixel x1 y1 x2 y2 (max (x2 - x1).natAbs (y2 - y1).natAbs) = (x2, y2) ↔
      (x2 - x1).natAbs ≠ (y2 - y1).natAbs ∨ (x1 = x2 ∧ y1 = y2) := by
  have hpos : 0 < extent x1 x2 ∧ 0 < extent y1 y2 := ⟨succ_pos _, succ_pos _⟩
  have hx : extent x1 x2 = (x2 - x1).natAbs + 1 := rfl
  have hy' : extent y1 y2 = (y2 - y1).natAbs + 1 := rfl
  unfold linePixel
  rcases Nat.lt_trichotomy (x2 - x1).natAbs (y2 - y1).natAbs with hlt | heq | hlt
  · have hlast := minor_last (n := extent y1 y2) hpos.1 (by omega)
    rw [hy', Nat.add_sub_cancel, ← hy'] at hlast
    rw [if_neg (by omega), Nat.max_eq_right (by omega), verticalPixel, hlast]
    refine iff_of_true (Prod.ext ?_ ?_) (.inl (by omega))
    · rcases direction_cases x1 x2 with ⟨hd, hdir⟩ | ⟨hd, hdir⟩ <;>
      · simp only [hd]
        omega
    · simp only
      omega
  · have hlag := minor_diagonal hpos.2 (y2 - y1).natAbs
    have hsquare : extent x1 x2 = extent y1 y2 := by omega
    rw [if_neg (by omega), Nat.max_eq_right (by omega), verticalPixel, hsquare, hlag, Prod.mk.injEq]
    rcases direction_cases x1 x2 with ⟨hd, hdir⟩ | ⟨hd, hdir⟩ <;>
    · simp only [hd]
      omega
  · have hlast := minor_last (n := extent x1 x2) hpos.2 (by omega)
    rw [hx, Nat.add_sub_cancel, ← hx] at hlast
    rw [if_pos (by omega), Nat.max_eq_left (by omega), horizontalPixel, hlast]
    refine iff_of_true (Prod.ext ?_ ?_) (.inl (by omega))
    · rcases direction_cases x1 x2 with ⟨hd, hdir⟩ | ⟨hd, hdir⟩ <;>
      · simp only [hd]
        omega
    · simp only
      omega

/-! ## The whole function -/

/-- `length + 1` pixels, a path from `p` to `q`, have been stored, and nothing else. -/
def Drawn (s : Surface) (color : Int) (p q : Int × Int) (length : Nat) (mem : Bits) (d : Drawing) : Prop :=
  ∃ pixel, Path p q length pixel ∧ pixel length = q ∧
    (∀ a, a ∈ d.stored ↔ ∃ k ≤ length, a = s.addr (pixel k).1 (pixel k).2) ∧
    Painted s color {p | ∃ k ≤ length, pixel k = p} mem d.mem

theorem Drawn.symm {mem : Bits} {d : Drawing} (h : Drawn s color p q length mem d) :
    Drawn s color q p length mem d := by
  obtain ⟨pixel, hpath, hend, hstored, hpainted⟩ := h
  have hturn : ∀ P : Int × Int → Prop, (∃ k ≤ length, P (pixel (length - k))) ↔ ∃ k ≤ length, P (pixel k) := by
    intro P
    constructor
    · rintro ⟨k, hk, h⟩
      exact ⟨length - k, by omega, h⟩
    · rintro ⟨k, hk, h⟩
      exact ⟨length - k, by omega, by rwa [Nat.sub_sub_self hk]⟩
  refine ⟨_, hpath.reverse hend, ?_, fun a => ?_, ?_⟩
  · rw [Nat.sub_self]
    exact hpath.start
  · rw [hstored]
    exact (hturn fun r => a = s.addr r.1 r.2).symm
  · have hsame : {r | ∃ k ≤ length, pixel (length - k) = r} = {r | ∃ k ≤ length, pixel k = r} :=
      Set.ext fun r => hturn fun r' => r' = r
    rw [hsame]
    exact hpainted

theorem drawn_strokeDown_iff (h1 : s.Inside (x1, y1)) (h2 : s.Inside (x2, y2)) (hy : y1 ≤ y2) (mem : Bits) :
    Drawn s color (x1, y1) (x2, y2) (max (x2 - x1).natAbs (y2 - y1).natAbs) mem
        (strokeDown s x1 y1 x2 y2 color ⟨mem, []⟩) ↔
      (x2 - x1).natAbs ≠ (y2 - y1).natAbs ∨ (x1 = x2 ∧ y1 = y2) := by
  have hpath : Path (x1, y1) (x2, y2) (max (x2 - x1).natAbs (y2 - y1).natAbs) (linePixel x1 y1 x2 y2) :=
    path_linePixel hy
  have hcount : max (extent x1 x2) (extent y1 y2) = max (x2 - x1).natAbs (y2 - y1).natAbs + 1 := by
    unfold extent
    omega
  rw [strokeDown_eq hy, hcount, ← linePixel_last_iff hy]
  generalize hlength : max (x2 - x1).natAbs (y2 - y1).natAbs = length at hpath
  have hin : ∀ p ∈ (List.range (length + 1)).map (linePixel x1 y1 x2 y2), 0 ≤ p.1 ∧ p.1 < s.width := by
    intro p hp
    obtain ⟨k, hk, rfl⟩ := mem_map.1 hp
    have hbox := (hpath.inBox k (by simpa [Nat.lt_succ_iff] using hk)).1
    have hx1 := h1.1
    have hx2 := h2.1
    simp only at hbox hx1 hx2
    omega
  constructor
  · rintro ⟨pixel, -, hend, hstored, -⟩
    -- the end has been stored, so it is one of the pixels of the line, and no earlier one gets there
    have hmem : s.addr (x2, y2).1 (x2, y2).2 ∈
        (Drawing.pixels s color ((List.range (length + 1)).map (linePixel x1 y1 x2 y2)) ⟨mem, []⟩).stored :=
      (hstored _).2 ⟨length, le_rfl, by rw [hend]⟩
    rw [Drawing.addr_mem_stored hin h2.1] at hmem
    obtain ⟨k, hk, hat⟩ := mem_map.1 hmem
    have hnear := hpath.near k (by simpa [Nat.lt_succ_iff] using hk)
    rw [hat] at hnear
    simp only [mem_range] at hk hnear
    obtain rfl : k = length := by omega
    exact hat
  · intro hlast
    refine ⟨linePixel x1 y1 x2 y2, hpath, hlast, fun a => ?_, ?_⟩
    · rw [Drawing.stored_pixels, append_nil, mem_reverse, map_map]
      simp only [mem_map, mem_range, Nat.lt_succ_iff, Function.comp_apply, eq_comm]
    · have hpainted : Painted s color {p | p ∈ _} mem _ := Drawing.painted_pixels ⟨mem, []⟩ hin
      simp only [mem_map, mem_range, Nat.lt_succ_iff] at hpainted
      exact hpainted

def LineDrawn (s : Surface) (x1 y1 x2 y2 color : Int) (mem : Bits) : Prop :=
  ∃ d, strokeLine s x1 y1 x2 y2 color ⟨mem, []⟩ = some d ∧
    Drawn s color (x1, y1) (x2, y2) (max (x2 - x1).natAbs (y2 - y1).natAbs) mem d

/-- **Lines.** The function draws a path from one end to the other if and only if the line is a single pixel or no exact
diagonal. -/
theorem lineDrawn_iff (h1 : s.Inside (x1, y1)) (h2 : s.Inside (x2, y2)) (mem : Bits) :
    LineDrawn s x1 y1 x2 y2 color mem ↔ (x2 - x1).natAbs ≠ (y2 - y1).natAbs ∨ (x1 = x2 ∧ y1 = y2) := by
  have hassert :
      ((x1 ≥ 0 ∧ x1 < s.width) ∧ x2 ≥ 0 ∧ x2 < s.width) ∧ (y1 ≥ 0 ∧ y1 < s.height) ∧ y2 ≥ 0 ∧ y2 < s.height :=
    ⟨⟨h1.1, h2.1⟩, h1.2, h2.2⟩
  rw [LineDrawn, strokeLine, if_pos hassert]
  simp only [Option.some.injEq, exists_eq_left']
  by_cases hy : y1 > y2
  · have hdown : Drawn s color (x2, y2) (x1, y1) _ mem _ ↔ _ := drawn_strokeDown_iff h2 h1 (Int.le_of_lt hy) mem
    have hlength : max (x2 - x1).natAbs (y2 - y1).natAbs = max (x1 - x2).natAbs (y1 - y2).natAbs := by omega
    rw [if_pos hy, hlength]
    constructor
    · intro h
      have hcond := hdown.1 h.symm
      omega
    · intro h
      exact (hdown.2 (by omega)).symm
  · rw [if_neg hy]
    exact drawn_strokeDown_iff h1 h2 (by omega) mem

theorem lineDrawn_flat : LineDrawn eightByEight 6 4 1 2 0xff black :=
  (lineDrawn_iff (by decide) (by decide) black).2 (by decide)

/-- **An exact diagonal**: the pixel below the first one is stored instead of the one beside it, and the end is not
reached. -/
theorem diagonal_lacks_end : ¬ LineDrawn eightByEight 0 0 2 2 0xff black ∧
    ((strokeLine eightByEight 0 0 2 2 0xff ⟨black, []⟩).map Drawing.stored = some
      [eightByEight.addr 1 2, eightByEight.addr 0 1, eightByEight.addr 0 0]) := by
  refine ⟨?_, rfl⟩
  rintro ⟨d, hd, hdrawn⟩
  obtain rfl : strokeDown eightByEight 0 0 2 2 0xff ⟨black, []⟩ = d := Option.some.inj hd
  have hin : eightByEight.Inside (0, 0) ∧ eightByEight.Inside (2, 2) := by decide
  have hcond := (drawn_strokeDown_iff hin.1 hin.2 (by decide) black).1 hdrawn
  revert hcond
  decide

end Windowing
