import Mathlib.Data.List.Dedup
import SkyOS.Windowing.BlitClipper

/-!
# Scaled copies and the clip region (`StretchBlitClipper`, `WindowingSystem/GraphicsContext.cpp:355`)

The clipper rounds the corners of a piece to pixels of the source, and the scaler of `Surface::blit` scales what is left
of the source once more, with roundings of its own that are another one for the lines than for the columns. A pixel
shows the same in every piece only where both roundings compose, and what they compose to counts from the corner of
the source surface, not of the source rectangle.

| here | there |
| --- | --- |
| `col`, `row` | the first rounding, as a function of the column or the line |
| `Exact` | the scaler shows in a piece what the first rounding would show in each of its pixels |
| `Composes` | the steps of the first rounding that the scaler can repeat |
-/

namespace Windowing

open Machine BlockMoves Surface List
open Set (mem_ofPred_eq)

/-! ## Steps -/

section

variable {f : Nat → Int} {n : Nat}

section

variable (hmono : ∀ j, j + 1 < n → f j ≤ f (j + 1)) (hstep : ∀ j, j + 1 < n → f (j + 1) ≤ f j + 1)
    (hthree : ∀ j, j + 2 < n → f (j + 1) = f j + 1 → f (j + 2) ≠ f (j + 1))
include hmono hstep hthree

theorem rising_of_step {i : Nat} (hi : f (i + 1) = f i + 1)
    (j : Nat) (hj : i + j < n) : f (i + j) = f i + j := by
  have hboth : ∀ j, i + j + 1 < n → f (i + j) = f i + j ∧ f (i + j + 1) = f i + j + 1 := by
    intro j
    induction j with
    | zero => exact fun _ => ⟨by simp, by simpa using hi⟩
    | succ j ih =>
      intro hlt
      obtain ⟨hprev, hnext⟩ := ih (by omega)
      have hne := hthree (i + j) (by omega) (by omega)
      have hle : f (i + j + 2) ≤ f (i + j + 1) + 1 := hstep (i + j + 1) (by omega)
      have hge : f (i + j + 1) ≤ f (i + j + 2) := hmono (i + j + 1) (by omega)
      change f (i + j + 1) = _ ∧ f (i + j + 2) = _
      omega
  cases j with
  | zero => simp
  | succ j =>
    have hnext := (hboth j (by omega)).2
    rw [← Nat.add_assoc, hnext]
    push_cast
    ring

theorem columns_shape (hfour : ∀ j, j + 3 < n → f (j + 2) = f j → f (j + 3) = f j) :
    (∀ j < n, f j = f 0) ∨ (∀ j < n, f j = f 0 + j) ∨ ∀ j < n, f j = f 0 + (j - 1 : Nat) := by
  rcases Nat.lt_or_ge n 2 with hsmall | hlarge
  · refine .inl fun j hj => ?_
    obtain rfl : j = 0 := by omega
    rfl
  have hfirst : f 1 ≤ f 0 + 1 := hstep 0 (by omega)
  have hfirst' : f 0 ≤ f 1 := hmono 0 (by omega)
  rcases Int.lt_or_eq_of_le hfirst with hflat | hrise
  · rcases Nat.lt_or_ge n 3 with hsmall | hlarge
    · refine .inl fun j hj => ?_
      obtain rfl | rfl : j = 0 ∨ j = 1 := by omega
      · rfl
      · omega
    have hsecond : f 2 ≤ f 1 + 1 := hstep 1 (by omega)
    have hsecond' : f 1 ≤ f 2 := hmono 1 (by omega)
    rcases Int.lt_or_eq_of_le hsecond with hflat' | hrise'
    · left
      -- three columns at a time
      have hall : ∀ j, j + 2 < n → f j = f 0 ∧ f (j + 1) = f 0 ∧ f (j + 2) = f 0 := by
        intro j
        induction j with
        | zero => exact fun _ => ⟨rfl, (by omega : f 1 = f 0), (by omega : f 2 = f 0)⟩
        | succ j ih =>
          intro hlt
          obtain ⟨h0, h1, h2⟩ := ih (by omega)
          exact ⟨h1, h2, (hfour j (by omega) (h2.trans h0.symm)).trans h0⟩
      intro j hj
      rcases Nat.lt_or_ge j 2 with hlow | hhigh
      · obtain rfl | rfl : j = 0 ∨ j = 1 := by omega
        · rfl
        · exact (hall 0 (by omega)).2.1
      · obtain ⟨i, rfl⟩ := Nat.exists_eq_add_of_le' hhigh
        exact (hall i hj).2.2
    · refine .inr (.inr fun j hj => ?_)
      rcases Nat.eq_zero_or_pos j with rfl | hpos
      · simp
      · have hrest := rising_of_step hmono hstep hthree hrise' (j - 1) (by omega)
        rw [Nat.add_comm, Nat.sub_add_cancel hpos] at hrest
        omega
  · refine .inr (.inl fun j hj => ?_)
    have hrest := rising_of_step hmono hstep hthree hrise j (by omega)
    rw [Nat.zero_add] at hrest
    exact hrest

end

/-- Lines: as columns, or the last of four is a new one. -/
theorem lines_shape (hmono : ∀ l, l + 1 < n → f l ≤ f (l + 1)) (hstep : ∀ l, l + 1 < n → f (l + 1) ≤ f l + 1)
    (hthree : ∀ l, l + 2 < n → f (l + 1) = f l + 1 → f (l + 2) ≠ f (l + 1))
    (hfive : ∀ l, l + 4 < n → f (l + 2) = f l → f (l + 4) = f l) :
    ((∀ l < n, f l = f 0) ∨ (∀ l < n, f l = f 0 + l) ∨ ∀ l < n, f l = f 0 + (l - 1 : Nat)) ∨
      n = 4 ∧ (f 1 = f 0 ∧ f 2 = f 0) ∧ f 3 = f 0 + 1 := by
  by_cases hfour : ∀ l, l + 3 < n → f (l + 2) = f l → f (l + 3) = f l
  · exact .inl (columns_shape hmono hstep hthree hfour)
  · push Not at hfour
    obtain ⟨l, hl, hflat, hrise⟩ := hfour
    have h0 : f l ≤ f (l + 1) := hmono l (by omega)
    have h1 : f (l + 1) ≤ f (l + 2) := hmono (l + 1) (by omega)
    have h2 : f (l + 2) ≤ f (l + 3) := hmono (l + 2) (by omega)
    have h2' : f (l + 3) ≤ f (l + 2) + 1 := hstep (l + 2) (by omega)
    have hlast : ¬ l + 4 < n := by
      intro hlt
      have h4 := hfive l hlt hflat
      have h3 : f (l + 3) ≤ f (l + 4) := hmono (l + 3) (by omega)
      omega
    have hfirst : l = 0 := by
      by_contra hne
      obtain ⟨i, rfl⟩ : ∃ i, l = i + 1 := ⟨l - 1, by omega⟩
      change f (i + 1) ≤ f (i + 2) at h0
      change f (i + 2) ≤ f (i + 3) at h1
      change f (i + 3) = f (i + 1) at hflat
      change f (i + 4) ≠ f (i + 1) at hrise
      have h3 : f i ≤ f (i + 1) := hmono i (by omega)
      have h3' : f (i + 1) ≤ f i + 1 := hstep i (by omega)
      rcases Int.lt_or_eq_of_le h3' with hsame | hnew
      · have h4 : f (i + 4) = f i := hfive i (by omega) (by omega)
        omega
      · have h4 : f (i + 2) ≠ f (i + 1) := hthree i (by omega) hnew
        omega
    subst hfirst
    refine .inr ⟨by omega, ⟨?_, hflat⟩, ?_⟩
    · change f 0 ≤ f 1 at h0
      change f 1 ≤ f 2 at h1
      change f 2 = f 0 at hflat
      omega
    · change f 3 ≠ f 0 at hrise
      change f 2 ≤ f 3 at h2
      change f 3 ≤ f 2 + 1 at h2'
      change f 2 = f 0 at hflat
      omega

theorem rising_of_ends (hshape : (∀ j < n, f j = f 0) ∨ (∀ j < n, f j = f 0 + j) ∨
    ∀ j < n, f j = f 0 + (j - 1 : Nat)) (hends : f (n - 1) = f 0 + (n - 1 : Nat)) {j : Nat} (hj : j < n) :
    f j = f 0 + j := by
  rcases hshape with hflat | hrise | hlate
  · have hlast := hflat (n - 1) (by omega)
    obtain rfl : j = 0 := by omega
    simp
  · exact hrise j hj
  · have hlast := hlate (n - 1) (by omega)
    obtain rfl : j = 0 := by omega
    simp

theorem mul_pred_div {c j : Nat} (hj : j < c + 1) : j * c / (c + 1) = j - 1 := by
  rw [Nat.div_eq_iff (Nat.succ_pos c)]
  cases j with
  | zero => simp
  | succ i =>
    rw [Nat.add_sub_cancel, Nat.mul_succ, Nat.succ_mul]
    omega

theorem mul_pred_sub_div {c l : Nat} (hl : l < c + 1) : (l * c - 1) / (c + 1) = l - 1 := by
  rw [Nat.div_eq_iff (Nat.succ_pos c)]
  cases l with
  | zero => simp
  | succ i =>
    rw [Nat.add_sub_cancel, Nat.mul_succ, Nat.succ_mul]
    omega

/-- **The columns that the scaler repeats.** -/
theorem sourceColumn_of_shape (hshape : (∀ j < n, f j = f 0) ∨ (∀ j < n, f j = f 0 + j) ∨
    ∀ j < n, f j = f 0 + (j - 1 : Nat)) {j : Nat} (hj : j < n) :
    (sourceColumn (f (n - 1) - f 0 + 1) n j : Int) = f j - f 0 := by
  obtain ⟨c, rfl⟩ : ∃ c, n = c + 1 := ⟨n - 1, by omega⟩
  rw [Nat.add_sub_cancel]
  rcases hshape with hflat | hrise | hlate
  · have hsize : f c - f 0 + 1 = (1 : Nat) := by rw [hflat c (by omega)]; simp
    rw [hsize, sourceColumn_natCast, Nat.mul_one, Nat.div_eq_of_lt hj, hflat j hj]
    simp
  · have hsize : f c - f 0 + 1 = (c + 1 : Nat) := by rw [hrise c (by omega)]; push_cast; ring
    rw [hsize, sourceColumn_natCast, Nat.mul_div_cancel _ (Nat.succ_pos c), hrise j hj]
    ring
  · rcases Nat.eq_zero_or_pos c with rfl | hpos
    · obtain rfl : j = 0 := by omega
      simp [sourceColumn]
    · have hsize : f c - f 0 + 1 = (c : Nat) := by rw [hlate c (by omega)]; omega
      rw [hsize, sourceColumn_natCast, mul_pred_div hj, hlate j hj]
      ring

/-- **The lines that the scaler repeats**: not those of which each is taken. -/
theorem sourceLine_of_shape (hshape : (∀ l < n, f l = f 0) ∨ (∀ l < n, f l = f 0 + (l - 1 : Nat)) ∨
    n = 4 ∧ (f 1 = f 0 ∧ f 2 = f 0) ∧ f 3 = f 0 + 1) {l : Nat} (hl : l < n) :
    (sourceLine (f (n - 1) - f 0 + 1) n l : Int) = f l - f 0 := by
  rcases hshape with hflat | hlate | ⟨rfl, ⟨h1, h2⟩, h3⟩
  · have hsize : f (n - 1) - f 0 + 1 = (1 : Nat) := by rw [hflat (n - 1) (by omega)]; simp
    rw [hsize, sourceLine_natCast, Nat.mul_one, Nat.div_eq_of_lt (by omega), hflat l hl]
    simp
  · obtain ⟨c, rfl⟩ : ∃ c, n = c + 1 := ⟨n - 1, by omega⟩
    rw [Nat.add_sub_cancel]
    rcases Nat.eq_zero_or_pos c with rfl | hpos
    · obtain rfl : l = 0 := by omega
      simp [sourceLine]
    · have hsize : f c - f 0 + 1 = (c : Nat) := by rw [hlate c (by omega)]; omega
      rw [hsize, sourceLine_natCast, mul_pred_sub_div hl, hlate l hl]
      ring
  · have hsize : f (4 - 1) - f 0 + 1 = (2 : Nat) := by
      change f 3 - f 0 + 1 = _
      omega
    rw [hsize, sourceLine_natCast]
    obtain rfl | rfl | rfl | rfl : l = 0 ∨ l = 1 ∨ l = 2 ∨ l = 3 := by omega
    · simp
    · simp [h1]
    · simp [h2]
    · simp [h3]

end

/-! ## Composing -/

def pieceOf (col row : Int → Int) (piece : Rect) : Rect :=
  ⟨col piece.left, row piece.top, col piece.right, row piece.bottom⟩

/-- The piece shows in each pixel what the pixel as a piece of its own would show. -/
def Exact (col row : Int → Int) (piece : Rect) : Prop :=
  ∀ j l : Nat, (piece.left + j ≤ piece.right ∧ piece.top + l ≤ piece.bottom) →
    col piece.left + columnOf (pieceOf col row piece) piece j = col (piece.left + j) ∧
      row piece.top + lineOf (pieceOf col row piece) piece l = row (piece.top + l)

/-- `w` by `h` pixels. -/
def block (x y w h : Int) : Set (Int × Int) := {p | (x ≤ p.1 ∧ p.1 < x + w) ∧ y ≤ p.2 ∧ p.2 < y + h}

structure Composes (col row : Int → Int) (V : Set (Int × Int)) : Prop where
  across : ∀ x y, block x y 2 1 ⊆ V → col (x + 1) ≤ col x + 1
  across_three : ∀ x y, block x y 3 1 ⊆ V → col (x + 1) = col x + 1 → col (x + 2) ≠ col (x + 1)
  across_four : ∀ x y, block x y 4 1 ⊆ V → col (x + 2) = col x → col (x + 3) = col x
  down : ∀ x y, block x y 1 2 ⊆ V → row (y + 1) ≤ row y + 1
  down_three : ∀ x y, block x y 1 3 ⊆ V → row (y + 1) = row y + 1 → row (y + 2) ≠ row (y + 1)
  down_five : ∀ x y, block x y 1 5 ⊆ V → row (y + 2) = row y → row (y + 4) = row y
  square : ∀ x y, block x y 2 2 ⊆ V → row (y + 1) = row y ∨ col (x + 1) = col x + 1

section

variable {col row : Int → Int} {V : Set (Int × Int)} {piece : Rect}

variable {n : Nat}

section

variable (h : Composes col row V) (hvalid : piece.valid = true)
    (hpiece : block piece.left piece.top (piece.right - piece.left + 1) (piece.bottom - piece.top + 1) ⊆ V)
include h hvalid hpiece

theorem Composes.columns (hcol : ∀ x, piece.left ≤ x ∧ x < piece.right → col x ≤ col (x + 1))
    (hn : piece.right - piece.left + 1 = n) :
    (∀ j < n, col (piece.left + j) = col (piece.left + (0 : Nat))) ∨
      (∀ j < n, col (piece.left + j) = col (piece.left + (0 : Nat)) + j) ∨
        ∀ j < n, col (piece.left + j) = col (piece.left + (0 : Nat)) + (j - 1 : Nat) := by
  simp only [Rect.valid_iff] at hvalid
  have hblock : ∀ j w : Nat, j + w ≤ n → block (piece.left + j) piece.top w 1 ⊆ V := by
    intro j w hle p hp
    refine hpiece ?_
    simp only [block, mem_ofPred_eq] at hp ⊢
    omega
  have hadd : ∀ j k : Nat, piece.left + (j + k : Nat) = piece.left + j + k := by
    intro j k
    push_cast
    ring
  refine columns_shape (f := fun j : Nat => col (piece.left + j)) (fun j hj => ?_) (fun j hj => ?_) (fun j hj => ?_)
    (fun j hj => ?_)
  · simp only [hadd]
    exact hcol _ (by omega)
  · simp only [hadd]
    exact h.across _ _ (hblock j 2 hj)
  · simp only [hadd]
    exact h.across_three _ _ (hblock j 3 hj)
  · simp only [hadd]
    exact h.across_four _ _ (hblock j 4 hj)

theorem Composes.lines (hrow : ∀ y, piece.top ≤ y ∧ y < piece.bottom → row y ≤ row (y + 1))
    (hn : piece.bottom - piece.top + 1 = n) :
    ((∀ l < n, row (piece.top + l) = row (piece.top + (0 : Nat))) ∨
      (∀ l < n, row (piece.top + l) = row (piece.top + (0 : Nat)) + l) ∨
        ∀ l < n, row (piece.top + l) = row (piece.top + (0 : Nat)) + (l - 1 : Nat)) ∨
      n = 4 ∧ (row (piece.top + (1 : Nat)) = row (piece.top + (0 : Nat)) ∧
        row (piece.top + (2 : Nat)) = row (piece.top + (0 : Nat))) ∧
          row (piece.top + (3 : Nat)) = row (piece.top + (0 : Nat)) + 1 := by
  simp only [Rect.valid_iff] at hvalid
  have hblock : ∀ l w : Nat, l + w ≤ n → block piece.left (piece.top + l) 1 w ⊆ V := by
    intro l w hle p hp
    refine hpiece ?_
    simp only [block, mem_ofPred_eq] at hp ⊢
    omega
  have hadd : ∀ l k : Nat, piece.top + (l + k : Nat) = piece.top + l + k := by
    intro l k
    push_cast
    ring
  refine lines_shape (f := fun l : Nat => row (piece.top + l)) (fun l hl => ?_) (fun l hl => ?_) (fun l hl => ?_)
    (fun l hl => ?_)
  · simp only [hadd]
    exact hrow _ (by omega)
  · simp only [hadd]
    exact h.down _ _ (hblock l 2 hl)
  · simp only [hadd]
    exact h.down_three _ _ (hblock l 3 hl)
  · simp only [hadd]
    exact h.down_five _ _ (hblock l 5 hl)

end

/-- A step down makes the scaler leave the lines as they are only if it leaves the columns, too. -/
theorem Composes.rising (h : Composes col row V)
    (hpiece : block piece.left piece.top (piece.right - piece.left + 1) (piece.bottom - piece.top + 1) ⊆ V)
    (hstep : piece.top < piece.bottom) (hrow : row (piece.top + 1) ≠ row piece.top) :
    ∀ j : Nat, piece.left + j ≤ piece.right → col (piece.left + j) = col piece.left + j := by
  intro j
  induction j with
  | zero => simp
  | succ j ih =>
    intro hj
    have hsquare := h.square (piece.left + j) piece.top fun p hp => hpiece (by
      simp only [block, mem_ofPred_eq] at hp ⊢
      omega)
    have hnext := hsquare.resolve_left hrow
    rw [ih (by omega), Int.add_assoc] at hnext
    push_cast
    rw [hnext]
    ring

section

variable (h : Composes col row V) (hvalid : piece.valid = true)
    (hpiece : block piece.left piece.top (piece.right - piece.left + 1) (piece.bottom - piece.top + 1) ⊆ V)
include h hvalid hpiece

/-- Where the piece is scaled, its lines do not rise one by one: then every column would be taken, too, and the piece
would be as large as its source. -/
theorem Composes.scaled_lines (hrow : ∀ y, piece.top ≤ y ∧ y < piece.bottom → row y ≤ row (y + 1)) {m : Nat}
    (hn : piece.right - piece.left + 1 = n) (hm : piece.bottom - piece.top + 1 = m)
    (hscaled : ¬ SameSize (pieceOf col row piece) piece) :
    (∀ l < m, row (piece.top + l) = row (piece.top + (0 : Nat))) ∨
      (∀ l < m, row (piece.top + l) = row (piece.top + (0 : Nat)) + (l - 1 : Nat)) ∨
        m = 4 ∧ (row (piece.top + (1 : Nat)) = row (piece.top + (0 : Nat)) ∧
          row (piece.top + (2 : Nat)) = row (piece.top + (0 : Nat))) ∧
            row (piece.top + (3 : Nat)) = row (piece.top + (0 : Nat)) + 1 := by
  rcases h.lines hvalid hpiece hrow hm with (hflat | hrise | hlate) | hfour
  · exact .inl hflat
  · left
    intro l hl
    simp only [Rect.valid_iff] at hvalid
    by_cases htall : piece.top < piece.bottom
    · have hright : piece.left + (n - 1 : Nat) = piece.right := by omega
      have hbottom : piece.top + (m - 1 : Nat) = piece.bottom := by omega
      have hsecond := hrise 1 (by omega)
      have hlast := hrise (m - 1) (by omega)
      simp only [Nat.cast_zero, Nat.cast_one, Int.add_zero] at hsecond hlast
      have hends := h.rising hpiece htall (by omega) (n - 1) (by omega)
      rw [hright] at hends
      rw [hbottom] at hlast
      refine absurd ⟨?_, ?_⟩ hscaled
      · simp only [pieceOf]
        omega
      · simp only [pieceOf]
        omega
    · obtain rfl : l = 0 := by omega
      rfl
  · exact .inr (.inl hlate)
  · exact .inr (.inr hfour)

theorem Composes.exact (hcol : ∀ x, piece.left ≤ x ∧ x < piece.right → col x ≤ col (x + 1))
    (hrow : ∀ y, piece.top ≤ y ∧ y < piece.bottom → row y ≤ row (y + 1)) : Exact col row piece := by
  have hsizes := hvalid
  simp only [Rect.valid_iff] at hsizes
  obtain ⟨n, hn⟩ := Int.eq_ofNat_of_zero_le (a := piece.right - piece.left + 1) (by omega)
  obtain ⟨m, hm⟩ := Int.eq_ofNat_of_zero_le (a := piece.bottom - piece.top + 1) (by omega)
  have hright : piece.left + (n - 1 : Nat) = piece.right := by omega
  have hbottom : piece.top + (m - 1 : Nat) = piece.bottom := by omega
  have hcolumns := h.columns hvalid hpiece hcol hn
  intro j l hin
  by_cases hsame : SameSize (pieceOf col row piece) piece
  · rw [columnOf, lineOf, if_pos hsame, if_pos hsame]
    simp only [SameSize, pieceOf] at hsame
    have hcolumn := @rising_of_ends (fun j : Nat => col (piece.left + j)) n hcolumns
      (by simp only [hright, Nat.cast_zero, Int.add_zero]; omega) j (by omega)
    have hline := @rising_of_ends (fun l : Nat => row (piece.top + l)) m
      ((h.lines hvalid hpiece hrow hm).resolve_right fun hfour => by
        obtain ⟨rfl, -, hlast⟩ := hfour
        simp only [Nat.cast_zero, Int.add_zero] at hlast
        rw [hbottom] at hlast
        omega)
      (by simp only [hbottom, Nat.cast_zero, Int.add_zero]; omega) l (by omega)
    simp only [Nat.cast_zero, Int.add_zero] at hcolumn hline
    exact ⟨hcolumn.symm, hline.symm⟩
  · have hlines := h.scaled_lines hvalid hpiece hrow hn hm hsame
    have hcolumn := @sourceColumn_of_shape (fun j : Nat => col (piece.left + j)) n hcolumns j (by omega)
    have hline := @sourceLine_of_shape (fun l : Nat => row (piece.top + l)) m hlines l (by omega)
    simp only [hright, hbottom, Nat.cast_zero, Int.add_zero] at hcolumn hline
    rw [columnOf, lineOf, if_neg hsame, if_neg hsame]
    simp only [pieceOf, hn, hm]
    omega

end

theorem Exact.scaled {x y : Int} {w h c c' j l : Nat} (hexact : Exact col row ⟨x, y, x + w, y + h⟩)
    (hsame : ¬ (w = col (x + w) - col x ∧ h = row (y + h) - row y)) (hc : col (x + w) - col x + 1 = c)
    (hc' : row (y + h) - row y + 1 = c') (hj : j ≤ w) (hl : l ≤ h) :
    col x + (j * c / (w + 1) : Nat) = col (x + j) ∧ row y + ((l * c' - 1) / (h + 1) : Nat) = row (y + l) := by
  have hplace := hexact j l (by simp only; omega)
  have hwidth : x + w - x + 1 = (w + 1 : Nat) := by push_cast; ring
  have hheight : y + h - y + 1 = (h + 1 : Nat) := by push_cast; ring
  have hscaled : ¬ SameSize (pieceOf col row ⟨x, y, x + w, y + h⟩) ⟨x, y, x + w, y + h⟩ := by
    simp only [SameSize, pieceOf]
    omega
  rw [columnOf, lineOf, if_neg hscaled, if_neg hscaled] at hplace
  simp only [pieceOf, hc, hc', hwidth, hheight, sourceColumn_natCast, sourceLine_natCast] at hplace
  exact hplace

theorem Exact.strip {x y : Int} {w c j : Nat} (hexact : Exact col row ⟨x, y, x + w, y + (0 : Nat)⟩)
    (hsame : w + 1 ≠ c) (hc : col (x + w) = col x + c - 1) (hj : j ≤ w) :
    col x + (j * c / (w + 1) : Nat) = col (x + j) := by
  have hline : row (y + (0 : Nat)) - row y + 1 = (1 : Nat) := by simp
  exact (hexact.scaled (by omega) (by omega) hline hj (Nat.zero_le 0)).1

theorem Exact.upright {x y : Int} {h c l : Nat} (hexact : Exact col row ⟨x, y, x + (0 : Nat), y + h⟩)
    (hsame : h + 1 ≠ c) (hc : row (y + h) = row y + c - 1) (hl : l ≤ h) :
    row y + ((l * c - 1) / (h + 1) : Nat) = row (y + l) := by
  have hcolumn : col (x + (0 : Nat)) - col x + 1 = (1 : Nat) := by simp
  exact (hexact.scaled (by omega) hcolumn (by omega) (Nat.zero_le 0) hl).2

theorem block_subset {x y w h x' y' w' h' : Int} (hV : block x y w h ⊆ V) (hx : x ≤ x' ∧ x' + w' ≤ x + w)
    (hy : y ≤ y' ∧ y' + h' ≤ y + h) : block x' y' w' h' ⊆ V := by
  intro p hp
  refine hV ?_
  simp only [block, mem_ofPred_eq] at hp ⊢
  omega

def ExactOn (col row : Int → Int) (V : Set (Int × Int)) : Prop :=
  ∀ piece : Rect, piece.valid = true → (∀ p : Int × Int, piece.contains p.1 p.2 = true → p ∈ V) → Exact col row piece

namespace ExactOn

variable {x y : Int}

theorem of_block {w h : Nat} (hexact : ExactOn col row V) (hV : block x y (w + 1) (h + 1) ⊆ V) :
    Exact col row ⟨x, y, x + w, y + h⟩ := by
  refine hexact _ (by simp only [Rect.valid_iff]; omega) fun p hp => hV ?_
  simp only [Rect.contains_iff] at hp
  simp only [block, mem_ofPred_eq]
  omega

section

variable (hexact : ExactOn col row V)
include hexact

theorem across_le (hV : block x y 2 1 ⊆ V) : col (x + 1) ≤ col x + 1 := by
  by_contra hfar
  obtain ⟨c, hc⟩ := Int.eq_ofNat_of_zero_le (a := col (x + 1) - col x + 1) (by omega)
  have hpair : col x + (1 * c / 2 : Nat) = col (x + 1) :=
    @Exact.strip col row x y 1 c 1 (@of_block col row V x y 1 0 hexact hV) (by omega) (by rw [Nat.cast_one]; omega)
      (by omega)
  omega

theorem down_le (hV : block x y 1 2 ⊆ V) : row (y + 1) ≤ row y + 1 := by
  by_contra hfar
  obtain ⟨c, hc⟩ := Int.eq_ofNat_of_zero_le (a := row (y + 1) - row y + 1) (by omega)
  have hpair : row y + ((1 * c - 1) / 2 : Nat) = row (y + 1) :=
    @Exact.upright col row x y 1 c 1 (@of_block col row V x y 0 1 hexact hV) (by omega) (by rw [Nat.cast_one]; omega)
      (by omega)
  omega

theorem across_three (hV : block x y 3 1 ⊆ V) (hnew : col (x + 1) = col x + 1) :
    col (x + 2) ≠ col (x + 1) := by
  intro hsame
  have hthree : col x + (1 * 2 / 3 : Nat) = col (x + (1 : Nat)) :=
    @Exact.strip col row x y 2 2 1 (@of_block col row V x y 2 0 hexact hV) (by omega) (by push_cast; omega) (by omega)
  push_cast at hthree
  omega

theorem down_three (hV : block x y 1 3 ⊆ V) (hnew : row (y + 1) = row y + 1) :
    row (y + 2) ≠ row (y + 1) := by
  intro hsame
  have hthree : row y + ((1 * 2 - 1) / 3 : Nat) = row (y + (1 : Nat)) :=
    @Exact.upright col row x y 2 2 1 (@of_block col row V x y 0 2 hexact hV) (by omega) (by push_cast; omega) (by omega)
  push_cast at hthree
  omega

/-- Two of the four columns would show the new one. -/
theorem across_four (hcol : ∀ x y, block x y 2 1 ⊆ V → col x ≤ col (x + 1))
    (hV : block x y 4 1 ⊆ V) (hsame : col (x + 2) = col x) : col (x + 3) = col x := by
  by_contra hnew
  have hlast : block (x + 2) y 2 1 ⊆ V := block_subset hV (by omega) (by omega)
  have h2 := hexact.across_le hlast
  have h2' := hcol _ _ hlast
  simp only [Int.add_assoc, Int.reduceAdd] at h2 h2'
  have hfour : col x + (2 * 2 / 4 : Nat) = col (x + (2 : Nat)) :=
    @Exact.strip col row x y 3 2 2 (@of_block col row V x y 3 0 hexact hV) (by omega) (by push_cast; omega) (by omega)
  push_cast at hfour
  omega

theorem down_five (hrow : ∀ x y, block x y 1 2 ⊆ V → row y ≤ row (y + 1))
    (hV : block x y 1 5 ⊆ V) (hsame : row (y + 2) = row y) : row (y + 4) = row y := by
  by_contra hnew
  have hlast : block x (y + 2) 1 3 ⊆ V := block_subset hV (by omega) (by omega)
  have hpair : block x (y + 2) 1 2 ⊆ V := block_subset hV (by omega) (by omega)
  have hpair' : block x (y + 3) 1 2 ⊆ V := block_subset hV (by omega) (by omega)
  have h2 := hexact.down_le hpair
  have h2' := hrow _ _ hpair
  have h3 := hexact.down_le hpair'
  have h3' := hrow _ _ hpair'
  have hthree := hexact.down_three hlast
  simp only [Int.add_assoc, Int.reduceAdd] at h2 h2' h3 h3' hthree
  rcases Int.lt_or_eq_of_le h2 with hflat | hstep
  · -- the new line is the last of the five, and two show it
    have hfive : row y + ((3 * 2 - 1) / 5 : Nat) = row (y + (3 : Nat)) :=
      @Exact.upright col row x y 4 2 3 (@of_block col row V x y 0 4 hexact hV) (by omega) (by push_cast; omega)
        (by omega)
    push_cast at hfive
    omega
  · -- two new lines, and the first is shown too early
    have hfive : row y + ((2 * 3 - 1) / 5 : Nat) = row (y + (2 : Nat)) :=
      @Exact.upright col row x y 4 3 2 (@of_block col row V x y 0 4 hexact hV) (by omega) (by push_cast; omega)
        (by omega)
    push_cast at hfive
    omega

/-- Two lines of one column are scaled, and both show the first. -/
theorem square (hcol : col x ≤ col (x + 1)) (hrow : row y ≤ row (y + 1))
    (hV : block x y 2 2 ⊆ V) : row (y + 1) = row y ∨ col (x + 1) = col x + 1 := by
  by_contra hnot
  have hwide : block x y 2 1 ⊆ V := block_subset hV (by omega) (by omega)
  have htall : block x y 1 2 ⊆ V := block_subset hV (by omega) (by omega)
  have hx := hexact.across_le hwide
  have hy := hexact.down_le htall
  have hsquare := (@Exact.scaled col row x y 1 1 1 2 0 1 (@of_block col row V x y 1 1 hexact hV) (by push_cast; omega)
    (by push_cast; omega) (by push_cast; omega) (by omega) (by omega)).2
  push_cast at hsquare
  omega

end

end ExactOn

/-- **The steps that compose** are the only ones: blocks of up to five pixels show where others do not. -/
theorem composes_of_exact (hexact : ExactOn col row V) (hcol : ∀ x y, block x y 2 1 ⊆ V → col x ≤ col (x + 1))
    (hrow : ∀ x y, block x y 1 2 ⊆ V → row y ≤ row (y + 1)) : Composes col row V where
  across _ _ hV := hexact.across_le hV
  across_three _ _ hV := hexact.across_three hV
  across_four _ _ hV := hexact.across_four hcol hV
  down _ _ hV := hexact.down_le hV
  down_three _ _ hV := hexact.down_three hV
  down_five _ _ hV := hexact.down_five hrow hV
  square x y hV := hexact.square (hcol x y (block_subset hV (by omega) (by omega)))
    (hrow x y (block_subset hV (by omega) (by omega))) hV

theorem Composes.congr (h : Composes col row V) {col' row' : Int → Int}
    (hsame : ∀ p ∈ V, col' p.1 = col p.1 ∧ row' p.2 = row p.2) : Composes col' row' V := by
  have hcol : ∀ {x y w : Int}, block x y w 1 ⊆ V → ∀ i : Int, 0 ≤ i ∧ i < w → col' (x + i) = col (x + i) := by
    intro x y w hV i hi
    exact (hsame (x + i, y) (hV (by simp only [block, mem_ofPred_eq]; omega))).1
  have hrow : ∀ {x y h : Int}, block x y 1 h ⊆ V → ∀ i : Int, 0 ≤ i ∧ i < h → row' (y + i) = row (y + i) := by
    intro x y h hV i hi
    exact (hsame (x, y + i) (hV (by simp only [block, mem_ofPred_eq]; omega))).2
  refine ⟨fun x y hV => ?_, fun x y hV => ?_, fun x y hV => ?_, fun x y hV => ?_, fun x y hV => ?_, fun x y hV => ?_,
    fun x y hV => ?_⟩
  · have h0 := hcol hV 0 (by omega)
    rw [Int.add_zero] at h0
    rw [h0, hcol hV 1 (by omega)]
    exact h.across x y hV
  · have h0 := hcol hV 0 (by omega)
    rw [Int.add_zero] at h0
    rw [h0, hcol hV 1 (by omega), hcol hV 2 (by omega)]
    exact h.across_three x y hV
  · have h0 := hcol hV 0 (by omega)
    rw [Int.add_zero] at h0
    rw [h0, hcol hV 2 (by omega), hcol hV 3 (by omega)]
    exact h.across_four x y hV
  · have h0 := hrow hV 0 (by omega)
    rw [Int.add_zero] at h0
    rw [h0, hrow hV 1 (by omega)]
    exact h.down x y hV
  · have h0 := hrow hV 0 (by omega)
    rw [Int.add_zero] at h0
    rw [h0, hrow hV 1 (by omega), hrow hV 2 (by omega)]
    exact h.down_three x y hV
  · have h0 := hrow hV 0 (by omega)
    rw [Int.add_zero] at h0
    rw [h0, hrow hV 2 (by omega), hrow hV 4 (by omega)]
    exact h.down_five x y hV
  · have hwide : block x y 2 1 ⊆ V := block_subset hV (by omega) (by omega)
    have htall : block x y 1 2 ⊆ V := block_subset hV (by omega) (by omega)
    have h0 := hcol hwide 0 (by omega)
    have h0' := hrow htall 0 (by omega)
    rw [Int.add_zero] at h0 h0'
    rw [h0, h0', hcol hwide 1 (by omega), hrow htall 1 (by omega)]
    exact h.square x y hV

end

/-! ## Another decomposition -/

def around (region : Region) (piece : Rect) : Region :=
  piece :: ((region.flatMap Rect.pixels).dedup.filter fun p => piece.contains p.1 p.2 = false).map fun p =>
    ⟨p.1, p.2, p.1, p.2⟩

variable {p : Int × Int} {rect : Rect}

section

variable {region : Region} {piece : Rect} {s : Surface}

section

variable (hvalid : ∀ rect ∈ region, rect.valid = true)
include hvalid

theorem mem_flatMap_pixels :
    p ∈ region.flatMap Rect.pixels ↔ region.contains p.1 p.2 = true := by
  simp only [mem_flatMap, Region.contains, any_eq_true]
  constructor
  · rintro ⟨rect, hrect, hp⟩
    exact ⟨rect, hrect, (Rect.mem_pixels (hvalid rect hrect)).1 hp⟩
  · rintro ⟨rect, hrect, hp⟩
    exact ⟨rect, hrect, (Rect.mem_pixels (hvalid rect hrect)).2 hp⟩

theorem mem_around : rect ∈ around region piece ↔
    rect = piece ∨ ∃ p : Int × Int, (region.contains p.1 p.2 = true ∧ piece.contains p.1 p.2 = false) ∧
      rect = ⟨p.1, p.2, p.1, p.2⟩ := by
  simp only [around, mem_cons, mem_map, mem_filter, mem_dedup, mem_flatMap_pixels hvalid,
    decide_eq_true_eq, @eq_comm Rect _ rect]

theorem around_right (hpiece : piece.valid = true) :
    Region.Right (around region piece) := by
  constructor
  · intro rect hrect
    rcases (mem_around hvalid).1 hrect with rfl | ⟨p, -, rfl⟩
    · exact hpiece
    · simp [Rect.valid]
  · unfold Region.Disjoint around
    rw [pairwise_cons]
    constructor
    · intro rect hrect x y hboth
      obtain ⟨p, hp, rfl⟩ := mem_map.1 hrect
      have hout := (mem_filter.1 hp).2
      rw [decide_eq_true_eq] at hout
      obtain ⟨hin, hin'⟩ := hboth
      simp only [Rect.contains_iff] at hin'
      obtain rfl : x = p.1 := by omega
      obtain rfl : y = p.2 := by omega
      rw [hin] at hout
      cases hout
    · rw [pairwise_map]
      refine ((nodup_dedup _).filter _).imp fun {p q} hne x y hboth => hne ?_
      simp only [Rect.contains_iff] at hboth
      exact Prod.ext (by omega) (by omega)

theorem around_points (hpiece : ∀ p : Int × Int, piece.contains p.1 p.2 = true → region.contains p.1 p.2 = true) :
    Region.points (around region piece) = region.points := by
  ext p
  simp only [Region.mem_points, mem_around hvalid]
  constructor
  · rintro ⟨rect, rfl | ⟨q, ⟨hq, -⟩, rfl⟩, hp⟩
    · exact any_eq_true.1 (hpiece p hp)
    · simp only [Rect.contains_iff] at hp
      obtain rfl : p = q := Prod.ext (by omega) (by omega)
      exact any_eq_true.1 hq
  · intro hp
    by_cases hin : piece.contains p.1 p.2 = true
    · exact ⟨piece, .inl rfl, hin⟩
    · refine ⟨⟨p.1, p.2, p.1, p.2⟩, .inr ⟨p, ⟨any_eq_true.2 hp, Bool.eq_false_iff.2 hin⟩, rfl⟩, ?_⟩
      simp [Rect.contains_iff]

end

theorem around_within (hwithin : ∀ rect ∈ region, rect.Within s) (hvalid : piece.valid = true)
    (hpiece : ∀ p : Int × Int, piece.contains p.1 p.2 = true → region.contains p.1 p.2 = true) :
    ∀ rect ∈ around region piece, rect.Within s := by
  have hinside : ∀ p : Int × Int, region.contains p.1 p.2 = true → s.Inside p := by
    intro p hp
    obtain ⟨rect, hrect, hcontains⟩ := any_eq_true.1 hp
    obtain ⟨-, hx, hy⟩ := hwithin rect hrect
    rw [Rect.contains_iff] at hcontains
    unfold Inside
    omega
  intro rect hrect
  rcases (mem_around fun rect hrect => (hwithin rect hrect).1).1 hrect with rfl | ⟨p, ⟨hp, -⟩, rfl⟩
  · refine ⟨hvalid, ?_⟩
    simp only [Rect.valid_iff] at hvalid
    have hfirst := hinside (rect.left, rect.top) (hpiece _ (by simp only [Rect.contains_iff]; omega))
    have hlast := hinside (rect.right, rect.bottom) (hpiece _ (by simp only [Rect.contains_iff]; omega))
    unfold Inside at hfirst hlast
    simp only at hfirst hlast
    omega
  · have hin := hinside p hp
    unfold Inside at hin
    simp only [Rect.Within, Rect.valid_iff]
    omega

end

/-! ## The picture -/

namespace GraphicsContext

variable {gc : GraphicsContext} {t : Surface} {src dst : Rect}

def Draws (gc : GraphicsContext) (t : Surface) (src dst : Rect) (shown : Int × Int → Int × Int) : Prop :=
  ∀ region : Region, (region.Right ∧ ∀ rect ∈ region, rect.Within gc.fSurface) →
    region.points = gc.fClipRegion.points → ∀ mem, ∃ mem',
      ({ gc with fClipRegion := region } : GraphicsContext).blit (.other t) src dst mem = some mem' ∧
        Showing gc.fSurface t (gc.visible (gc.destRect dst)) shown mem mem'

/-- A scaled copy between surfaces of one colour space and with memories of their own, of a rectangle in the source. -/
structure Stretches (gc : GraphicsContext) (t : Surface) (src dst : Rect) : Prop where
  clips : gc.Clips
  color : t.colorSpace = gc.fSurface.colorSpace
  apart : gc.fSurface.Apart t
  sized : gc.fSurface.Sized ∧ t.Sized
  src_within : src.Within t
  int : ∀ i ∈ [dst.left, dst.top, dst.right, dst.bottom], IsInt32 i
  other_size : ¬ SameSize src dst
  larger : dst.left < dst.right ∧ dst.top < dst.bottom

section

variable (h : gc.Stretches t src dst)
include h

/-- Sides that wrap apart make the destination inside out. -/
theorem Stretches.destRect_lt (hvalid : (gc.destRect dst).valid = true) :
    (gc.destRect dst).right > (gc.destRect dst).left ∧ (gc.destRect dst).bottom > (gc.destRect dst).top := by
  have hint := h.int
  have hlarger := h.larger
  simp only [forall_mem_cons, not_mem_nil, false_imp_iff, implies_true, and_true, IsInt32] at hint
  simp only [Rect.valid_iff, destRect, Rect.offsetBy, toInt32] at hvalid ⊢
  omega

theorem Stretches.suits (hvalid : (gc.destRect dst).valid = true) :
    Suits gc.fSurface t src (gc.destRect dst) := ⟨h.color, h.apart, h.sized, h.src_within, hvalid⟩

theorem blit_stretched (hsizes : ∀ i ∈ sizeInts src dst, IsInt32 i)
    (hvalid : (gc.destRect dst).valid = true) (mem : Bits) : gc.blit (.other t) src dst mem =
      if gc.PieceInts src (gc.destRect dst) then
        some fun a => mem (trace (gc.stretchMoves t src (gc.destRect dst)) a) else none := by
  unfold blit
  rw [if_pos hsizes, if_neg h.other_size]
  exact (if_pos (h.destRect_lt hvalid)).trans (stretched_eq h.clips (h.suits hvalid) mem)

theorem blit_invalid (hsizes : ∀ i ∈ sizeInts src dst, IsInt32 i)
    (hvalid : ¬ (gc.destRect dst).valid = true) (mem : Bits) : gc.blit (.other t) src dst mem = some mem := by
  unfold blit
  rw [if_pos hsizes, if_neg h.other_size]
  refine if_neg fun hlt => hvalid ?_
  simp only [Rect.valid_iff]
  exact ⟨hlt.1.le, hlt.2.le⟩

end

theorem sizeInts_of_blit {source : Source} {mem mem' : Bits} (h : gc.blit source src dst mem = some mem') :
    ∀ i ∈ sizeInts src dst, IsInt32 i := by
  by_contra hnot
  unfold blit at h
  rw [if_neg hnot] at h
  cases h

theorem Stretches.region (h : gc.Stretches t src dst) {region : Region}
    (hregion : region.Right ∧ ∀ rect ∈ region, rect.Within gc.fSurface) :
    ({ gc with fClipRegion := region } : GraphicsContext).Stretches t src dst :=
  ⟨⟨hregion.1, hregion.2⟩, h.color, h.apart, h.sized, h.src_within, h.int, h.other_size, h.larger⟩

theorem visible_congr {region : Region} (hpoints : region.points = gc.fClipRegion.points) (dest : Rect) :
    ({ gc with fClipRegion := region } : GraphicsContext).visible dest = gc.visible dest := by
  ext p
  exact and_congr_right fun _ => Set.ext_iff.1 hpoints p

variable {shown : Int × Int → Int × Int} {dest : Rect}

section

variable (h : gc.Stretches t src dst) (hinside : ∀ p ∈ gc.visible (gc.destRect dst),
      src.contains (shown p).1 (shown p).2 = true)
include h hinside

/-- **Every piece** must show what is to be shown. -/
theorem Stretches.shownBy_eq (hdrawn : ∀ mem, ∃ mem', gc.blit (.other t) src dst mem = some mem' ∧
      Showing gc.fSurface t (gc.visible (gc.destRect dst)) shown mem mem')
    (hvalid : (gc.destRect dst).valid = true) (hrect : rect ∈ gc.fClipRegion)
    (hmeet : rect.intersects (gc.destRect dst) = true) :
    (∀ i ∈ pieceInts src (gc.destRect dst) ((gc.destRect dst).intersect rect), IsInt32 i) ∧
      ∀ p : Int × Int, ((gc.destRect dst).intersect rect).contains p.1 p.2 = true →
        shownBy src (gc.destRect dst) ((gc.destRect dst).intersect rect) p = shown p := by
  have hsizes : ∀ i ∈ sizeInts src dst, IsInt32 i := by
    obtain ⟨mem', hresult, -⟩ := hdrawn black
    exact sizeInts_of_blit hresult
  have hrun := blit_stretched h hsizes hvalid
  have hints : gc.PieceInts src (gc.destRect dst) := by
    obtain ⟨mem', hresult, -⟩ := hdrawn black
    by_contra hnot
    rw [hrun, if_neg hnot] at hresult
    cases hresult
  refine ⟨hints rect hrect hmeet, fun p hp => ?_⟩
  have htrace := trace_stretchMoves h.clips (h.suits hvalid) hrect hp (k := 0) (by omega)
  obtain ⟨hin, hcontains⟩ := Rect.contains_intersect.1 hp
  have hvisible : p ∈ gc.visible (gc.destRect dst) := ⟨hin, any_eq_true.2 ⟨rect, hrect, hcontains⟩⟩
  have hbytes : (0 : UInt8) ≠ 1 := by decide
  have haddr : trace (gc.stretchMoves t src (gc.destRect dst)) (gc.fSurface.addr p.1 p.2 + 0) =
      t.addr (shown p).1 (shown p).2 + 0 := by
    refine eq_of_forall_mem hbytes fun mem => ?_
    obtain ⟨mem', hresult, hshows⟩ := hdrawn mem
    rw [hrun, if_pos hints] at hresult
    obtain rfl := Option.some.inj hresult
    exact hshows.inside p hvisible 0 (by omega)
  rw [htrace] at haddr
  have hsource := hinside p hvisible
  obtain ⟨-, hx, hy⟩ := h.src_within
  rw [Rect.contains_iff] at hsource
  obtain ⟨hpart, -⟩ := piece_part hvalid (h.clips.within rect hrect) hmeet
  have hshownBy := shownBy_within h.src_within hpart hp
  exact addr_pixel_inj hshownBy.1 (by omega) (by omega)

/-- A piece of visible pixels, too: the region can be divided so that it is one. -/
theorem Draws.shownBy_eq (hdraws : gc.Draws t src dst shown) {piece : Rect} (hpiece : piece.valid = true)
    (hin : ∀ p : Int × Int, piece.contains p.1 p.2 = true → p ∈ gc.visible (gc.destRect dst)) :
    (∀ i ∈ pieceInts src (gc.destRect dst) piece, IsInt32 i) ∧
      ∀ p : Int × Int, piece.contains p.1 p.2 = true → shownBy src (gc.destRect dst) piece p = shown p := by
  have hright := h.clips.right.valid
  have hsub : ∀ p : Int × Int, piece.contains p.1 p.2 = true → gc.fClipRegion.contains p.1 p.2 = true :=
    fun p hp => (hin p hp).2
  have hregion : (around gc.fClipRegion piece).Right ∧ ∀ rect ∈ around gc.fClipRegion piece, rect.Within gc.fSurface :=
    ⟨around_right hright hpiece, around_within h.clips.within hpiece hsub⟩
  have hpoints := around_points hright hsub
  have hsizes := hpiece
  simp only [Rect.valid_iff] at hsizes
  have hfirst := (hin (piece.left, piece.top) (by simp only [Rect.contains_iff]; omega)).1
  have hlast := (hin (piece.right, piece.bottom) (by simp only [Rect.contains_iff]; omega)).1
  simp only [Rect.contains_iff] at hfirst hlast
  have hvalid : (gc.destRect dst).valid = true := by
    simp only [Rect.valid_iff]
    omega
  have hcut : (gc.destRect dst).intersect piece = piece := by
    simp only [Rect.intersect]
    rw [max_eq_right hfirst.1.1, max_eq_right hfirst.2.1, min_eq_right hlast.1.2, min_eq_right hlast.2.2]
  have hmeet : piece.intersects (gc.destRect dst) = true := by
    rw [Rect.intersects_iff]
    omega
  have hvisible := visible_congr hpoints (gc.destRect dst)
  have hshown := (h.region hregion).shownBy_eq (fun p hp => hinside p (hvisible.subset hp))
    (fun mem => hvisible.symm ▸ hdraws _ hregion hpoints mem) hvalid (.head _) hmeet
  rw [← hcut]
  exact hshown

end

/-! ## When it draws one picture -/

def own (src dest : Rect) (p : Int × Int) : Int × Int := (sourceX src dest p.1, sourceY src dest p.2)

theorem exact_iff {piece : Rect} : Exact (sourceX src dest) (sourceY src dest) piece ↔
    ∀ p : Int × Int, piece.contains p.1 p.2 = true → shownBy src dest piece p = own src dest p := by
  constructor
  · intro h p hp
    rw [Rect.contains_iff] at hp
    have hplace := h (p.1 - piece.left).toNat (p.2 - piece.top).toNat (by omega)
    rw [Int.toNat_of_nonneg (by omega), Int.toNat_of_nonneg (by omega), add_sub_cancel, add_sub_cancel] at hplace
    exact Prod.ext hplace.1 hplace.2
  · intro h j l hin
    have hplace := h (piece.left + j, piece.top + l) (by simp only [Rect.contains_iff]; omega)
    simp only [shownBy, own, add_sub_cancel_left, Int.toNat_natCast, Prod.mk.injEq] at hplace
    exact hplace

theorem shownBy_pixel : shownBy src dest ⟨p.1, p.2, p.1, p.2⟩ p = own src dest p := by
  simp only [shownBy, own, Int.sub_self, Int.toNat_zero, columnOf_zero, lineOf_zero, pieceSource, Nat.cast_zero,
    Int.add_zero]

/-- Where the pieces compose, **the region is drawn as one**. -/
theorem drawn_of_composes (h : gc.Stretches t src dst) (hvalid : (gc.destRect dst).valid = true)
    (hcomposes : Composes (sourceX src (gc.destRect dst)) (sourceY src (gc.destRect dst))
      (gc.visible (gc.destRect dst))) (mem : Bits) :
    Showing gc.fSurface t (gc.visible (gc.destRect dst)) (own src (gc.destRect dst)) mem
      fun a => mem (trace (gc.stretchMoves t src (gc.destRect dst)) a) := by
  refine drawn_stretched h.clips (h.suits hvalid) (fun rect hrect p hp => ?_) mem
  obtain ⟨hin, hcontains⟩ := Rect.contains_intersect.1 hp
  obtain ⟨⟨hpiece, hx, hy⟩, -⟩ :=
    piece_part hvalid (h.clips.within rect hrect) (Rect.intersects_of_contains hcontains hin)
  have hblock : block ((gc.destRect dst).intersect rect).left ((gc.destRect dst).intersect rect).top
      (((gc.destRect dst).intersect rect).right - ((gc.destRect dst).intersect rect).left + 1)
      (((gc.destRect dst).intersect rect).bottom - ((gc.destRect dst).intersect rect).top + 1) ⊆
        gc.visible (gc.destRect dst) := by
    intro q hq
    simp only [block, mem_ofPred_eq] at hq
    have hq' := Rect.contains_intersect.1 (Rect.contains_iff.2 (by omega) :
      ((gc.destRect dst).intersect rect).contains q.1 q.2 = true)
    exact ⟨hq'.1, any_eq_true.2 ⟨rect, hrect, hq'.2⟩⟩
  exact exact_iff.1 (hcomposes.exact hpiece hblock
    (fun x hx' => sourceX_le h.src_within.1 (by omega) (by omega))
    fun y hy' => sourceY_le h.src_within.1 (by omega) (by omega)) p hp

theorem composes_of_pieces (h : gc.Stretches t src dst)
    (hpieces : ∀ piece : Rect, piece.valid = true →
      (∀ p : Int × Int, piece.contains p.1 p.2 = true → p ∈ gc.visible (gc.destRect dst)) →
        ∀ p : Int × Int, piece.contains p.1 p.2 = true →
          shownBy src (gc.destRect dst) piece p = own src (gc.destRect dst) p) :
    Composes (sourceX src (gc.destRect dst)) (sourceY src (gc.destRect dst)) (gc.visible (gc.destRect dst)) := by
  refine composes_of_exact (fun piece hpiece hin => exact_iff.2 (hpieces piece hpiece hin)) (fun x y hV => ?_)
    fun x y hV => ?_
  · have hin := (@hV (x, y) (by simp [block])).1
    rw [Rect.contains_iff] at hin
    exact sourceX_le h.src_within.1 hin.1 (by omega)
  · have hin := (@hV (x, y) (by simp [block])).1
    rw [Rect.contains_iff] at hin
    exact sourceY_le h.src_within.1 hin.2 (by omega)

def column (src dest : Rect) (x : Int) : Int :=
  (x - dest.left) * (src.right - src.left + 1) / (dest.right - dest.left + 1)

def line (src dest : Rect) (y : Int) : Int :=
  (y - dest.top) * (src.bottom - src.top + 1) / (dest.bottom - dest.top + 1)

theorem own_eq (hsrc : src.valid = true) (hp : p ∈ gc.visible dest) :
    column src dest p.1 = sourceX src dest p.1 ∧ line src dest p.2 = sourceY src dest p.2 := by
  have hin := hp.1
  rw [Rect.contains_iff] at hin
  simp only [Rect.valid_iff] at hsrc
  exact ⟨(scale_eq_ediv (by omega) hin.1.1).symm, (scale_eq_ediv (by omega) hin.2.1).symm⟩

/-- Every visible pixel is computed in `int`, and its place is in the source rectangle. -/
def Fits (gc : GraphicsContext) (src dest : Rect) : Prop :=
  ∀ p ∈ gc.visible dest, (∀ i ∈ pieceInts src dest ⟨p.1, p.2, p.1, p.2⟩, IsInt32 i) ∧
    src.left ≤ column src dest p.1 ∧ src.top ≤ line src dest p.2

theorem Fits.pieceInts (h : gc.Fits src dest) (hrect : rect ∈ gc.fClipRegion)
    (hpiece : (dest.intersect rect).valid = true) : ∀ i ∈ pieceInts src dest (dest.intersect rect), IsInt32 i := by
  have hcorner : ∀ p : Int × Int, (dest.intersect rect).contains p.1 p.2 = true →
      ∀ i ∈ Windowing.pieceInts src dest ⟨p.1, p.2, p.1, p.2⟩, IsInt32 i := by
    intro p hp
    obtain ⟨hin, hcontains⟩ := Rect.contains_intersect.1 hp
    exact (h p ⟨hin, any_eq_true.2 ⟨rect, hrect, hcontains⟩⟩).1
  simp only [Rect.valid_iff] at hpiece
  have hfirst := hcorner ((dest.intersect rect).left, (dest.intersect rect).top)
    (by simp only [Rect.contains_iff]; omega)
  have hlast := hcorner ((dest.intersect rect).right, (dest.intersect rect).bottom)
    (by simp only [Rect.contains_iff]; omega)
  simp only [Windowing.pieceInts, scaleInts, forall_mem_append, forall_mem_cons, not_mem_nil,
    false_imp_iff, implies_true, and_true] at hfirst hlast ⊢
  tauto

theorem Fits.own_contains (h : gc.Fits src dest) (hsrc : src.Within t)
    (hp : p ∈ gc.visible dest) : src.contains (own src dest p).1 (own src dest p).2 = true := by
  have hin := hp.1
  obtain ⟨-, hfirst⟩ := h p hp
  obtain ⟨hvalid, hleft, htop⟩ := hsrc
  obtain ⟨hcolumn, hline⟩ := own_eq hvalid hp
  rw [hcolumn, hline] at hfirst
  rw [Rect.contains_iff] at hin
  have hx := sourceX_spec hvalid hin.1
  have hy := sourceY_spec hvalid hin.2
  rw [Rect.contains_iff]
  simp only [own]
  omega

/-- The only picture there can be: **each pixel by itself**. -/
theorem Draws.own_eq (h : gc.Stretches t src dst)
    (hinside : ∀ p ∈ gc.visible (gc.destRect dst), src.contains (shown p).1 (shown p).2 = true)
    (hdraws : gc.Draws t src dst shown) (hp : p ∈ gc.visible (gc.destRect dst)) :
    (∀ i ∈ pieceInts src (gc.destRect dst) ⟨p.1, p.2, p.1, p.2⟩, IsInt32 i) ∧
      own src (gc.destRect dst) p = shown p := by
  have hpixel : ∀ q : Int × Int, Rect.contains ⟨p.1, p.2, p.1, p.2⟩ q.1 q.2 = true →
      q ∈ gc.visible (gc.destRect dst) := by
    intro q hq
    simp only [Rect.contains_iff] at hq
    obtain rfl : q = p := Prod.ext (by omega) (by omega)
    exact hp
  obtain ⟨hints, hshown⟩ := hdraws.shownBy_eq h hinside (by simp [Rect.valid]) hpixel
  have hself := hshown p (by simp [Rect.contains_iff])
  rw [shownBy_pixel] at hself
  exact ⟨hints, hself⟩

/-- **One picture, of the source rectangle,** is drawn through every division of the region if and only if the visible
pixels lie in the source rectangle and the roundings compose on them. -/
theorem stretched_draws_iff (h : gc.Stretches t src dst) :
    (∃ shown, (∀ p ∈ gc.visible (gc.destRect dst), src.contains (shown p).1 (shown p).2 = true) ∧
      gc.Draws t src dst shown) ↔
        (∀ i ∈ sizeInts src dst, IsInt32 i) ∧ gc.Fits src (gc.destRect dst) ∧
          Composes (column src (gc.destRect dst)) (line src (gc.destRect dst)) (gc.visible (gc.destRect dst)) := by
  have hown : ∀ p ∈ gc.visible (gc.destRect dst),
      column src (gc.destRect dst) p.1 = sourceX src (gc.destRect dst) p.1 ∧
        line src (gc.destRect dst) p.2 = sourceY src (gc.destRect dst) p.2 := fun p hp => own_eq h.src_within.1 hp
  constructor
  · rintro ⟨shown, hinside, hdraws⟩
    have hcomposes := composes_of_pieces h fun piece hvalid hin p hp => by
      obtain ⟨-, hshown⟩ := hdraws.shownBy_eq h hinside hvalid hin
      rw [hshown p hp, (hdraws.own_eq h hinside (hin p hp)).2]
    refine ⟨?_, fun p hp => ?_, hcomposes.congr hown⟩
    · obtain ⟨mem', hresult, -⟩ := hdraws gc.fClipRegion ⟨h.clips.right, h.clips.within⟩ rfl black
      exact sizeInts_of_blit hresult
    · obtain ⟨hints, hshown⟩ := hdraws.own_eq h hinside hp
      have hsource := hinside p hp
      rw [← hshown, Rect.contains_iff] at hsource
      rw [(hown p hp).1, (hown p hp).2]
      exact ⟨hints, hsource.1.1, hsource.2.1⟩
  · rintro ⟨hsizes, hfits, hsteps⟩
    have hcomposes := hsteps.congr fun p hp => ⟨(hown p hp).1.symm, (hown p hp).2.symm⟩
    refine ⟨own src (gc.destRect dst), fun p hp => hfits.own_contains h.src_within hp,
      fun region hregion hpoints mem => ?_⟩
    have hvisible := visible_congr hpoints (gc.destRect dst)
    have hst := h.region hregion
    rw [← hvisible] at hcomposes ⊢
    by_cases hvalid : (gc.destRect dst).valid = true
    · have hfits' : ({ gc with fClipRegion := region } : GraphicsContext).Fits src (gc.destRect dst) := by
        intro p hp
        exact hfits p (hvisible ▸ hp)
      have hints : ({ gc with fClipRegion := region } : GraphicsContext).PieceInts src (gc.destRect dst) := by
        intro rect hrect hmeet
        obtain ⟨hpart, -⟩ := piece_part hvalid (hregion.2 rect hrect) hmeet
        exact hfits'.pieceInts hrect hpart.1
      have hrun := blit_stretched hst hsizes hvalid mem
      exact ⟨_, hrun.trans (if_pos hints), drawn_of_composes hst hvalid hcomposes mem⟩
    · refine ⟨mem, blit_invalid hst hsizes hvalid mem, ⟨fun p hp => absurd ?_ hvalid, fun a _ => rfl⟩⟩
      have hin := hp.1
      rw [Rect.contains_iff] at hin
      simp only [Rect.valid_iff]
      omega

theorem stretches_eightByEight : eightByEightContext.Stretches Source.smallBuffer ⟨0, 0, 1, 0⟩ ⟨0, 2, 2, 3⟩ :=
  ⟨clips_eightByEight, rfl, Source.apart_smallBuffer, by unfold Sized; decide, by decide, by decide, by decide,
    by decide⟩

/-- Two pixels on three columns: the first one twice. -/
theorem stretched_draws_pair : ∃ shown,
    (∀ p ∈ eightByEightContext.visible ⟨1, 2, 3, 3⟩, Rect.contains ⟨0, 0, 1, 0⟩ (shown p).1 (shown p).2 = true) ∧
      eightByEightContext.Draws Source.smallBuffer ⟨0, 0, 1, 0⟩ ⟨0, 2, 2, 3⟩ shown := by
  have hcolumn : ∀ x, column ⟨0, 0, 1, 0⟩ ⟨1, 2, 3, 3⟩ x = (x - 1) * 2 / 3 := fun x => rfl
  have hline : ∀ y, line ⟨0, 0, 1, 0⟩ ⟨1, 2, 3, 3⟩ y = (y - 2) * 1 / 2 := fun y => rfl
  refine (stretched_draws_iff stretches_eightByEight).2 ⟨by decide, fun p hp => ?_, ?_⟩
  · have hfits : ∀ p ∈ Rect.pixels ⟨1, 2, 3, 3⟩,
        (∀ i ∈ pieceInts ⟨0, 0, 1, 0⟩ ⟨1, 2, 3, 3⟩ ⟨p.1, p.2, p.1, p.2⟩, IsInt32 i) ∧
          0 ≤ column ⟨0, 0, 1, 0⟩ ⟨1, 2, 3, 3⟩ p.1 ∧ 0 ≤ line ⟨0, 0, 1, 0⟩ ⟨1, 2, 3, 3⟩ p.2 := by decide
    exact hfits p ((Rect.mem_pixels (by decide)).2 hp.1)
  · have hV : ∀ {x y w h : Int}, 0 < w ∧ 0 < h → block x y w h ⊆ eightByEightContext.visible ⟨1, 2, 3, 3⟩ →
        (1 ≤ x ∧ x + w ≤ 4) ∧ 2 ≤ y ∧ y + h ≤ 4 := by
      intro x y w h hpos hV
      have hfirst := (@hV (x, y) (by simp only [block, Set.mem_ofPred_eq]; omega)).1
      have hlast := (@hV (x + w - 1, y + h - 1) (by simp only [block, Set.mem_ofPred_eq]; omega)).1
      simp only [Rect.contains_iff] at hfirst hlast
      omega
    change Composes (column ⟨0, 0, 1, 0⟩ ⟨1, 2, 3, 3⟩) (line ⟨0, 0, 1, 0⟩ ⟨1, 2, 3, 3⟩)
      (eightByEightContext.visible ⟨1, 2, 3, 3⟩)
    constructor
    all_goals
      intro x y hblock
      have hin := hV (by omega) hblock
      simp only [hcolumn, hline]
      omega

def wholeContext : GraphicsContext := ⟨eightByEight, [⟨0, 0, 7, 7⟩], 0, 0, 0⟩

/-- **Twice as large**: the third line shows the first one of the source, or the second if it is drawn apart. -/
theorem doubled_depends : wholeContext.Stretches Source.smallBuffer ⟨0, 0, 1, 1⟩ ⟨0, 0, 3, 3⟩ ∧ ¬ ∃ shown,
    (∀ p ∈ wholeContext.visible ⟨0, 0, 3, 3⟩, Rect.contains ⟨0, 0, 1, 1⟩ (shown p).1 (shown p).2 = true) ∧
      wholeContext.Draws Source.smallBuffer ⟨0, 0, 1, 1⟩ ⟨0, 0, 3, 3⟩ shown := by
  refine ⟨⟨⟨⟨by decide, List.pairwise_singleton _ _⟩, by decide⟩, rfl, Source.apart_smallBuffer,
    by unfold Sized; decide, by decide, by decide, by decide, by decide⟩, ?_⟩
  rintro ⟨shown, -, hdraws⟩
  -- one byte of the second line of the source is set
  have hbyte : ∀ region : Region, (region.Right ∧ ∀ rect ∈ region, rect.Within eightByEight) →
      region.points = wholeContext.fClipRegion.points → ∀ byte : UInt8,
        (({ wholeContext with fClipRegion := region } : GraphicsContext).blit (.other Source.smallBuffer) ⟨0, 0, 1, 1⟩
          ⟨0, 0, 3, 3⟩ fun a => if a = 0x2012 then 1 else 0).map (fun mem' => mem' 0x1030) = some byte →
            byte = if Source.smallBuffer.addr (shown (0, 2)).1 (shown (0, 2)).2 + 0 = 0x2012 then 1 else 0 := by
    intro region hregion hpoints byte hbyte
    obtain ⟨mem', hblit, hdrawn⟩ := hdraws region hregion hpoints fun a => if a = 0x2012 then 1 else 0
    rw [hblit, Option.map_some] at hbyte
    have hvisible : ((0, 2) : Int × Int) ∈ wholeContext.visible (wholeContext.destRect ⟨0, 0, 3, 3⟩) := by
      unfold visible
      decide
    exact (Option.some.inj hbyte).symm.trans (hdrawn.inside (0, 2) hvisible 0 (by omega))
  have hwhole := hbyte [⟨0, 0, 7, 7⟩] ⟨⟨by decide, List.pairwise_singleton _ _⟩, by decide⟩ rfl 0 (by decide +kernel)
  have hparts := hbyte [⟨0, 0, 7, 1⟩, ⟨0, 2, 7, 7⟩] ⟨⟨by decide, List.pairwise_pair.2 fun x y => by
    simp only [Rect.contains_iff]
    omega⟩, by decide⟩ (by
    ext p
    simp only [Region.mem_points, wholeContext, List.mem_cons, List.not_mem_nil, or_false, exists_eq_or_imp,
      exists_eq_left, Rect.contains_iff]
    omega) 1 (by decide +kernel)
  exact absurd (hwhole.trans hparts.symm) (by decide)

end GraphicsContext

end Windowing
