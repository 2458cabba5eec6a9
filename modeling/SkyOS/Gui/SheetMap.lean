import Mathlib.Data.Int.Range
import SkyOS.Gui.SheetStack
import SkyOS.Lib.Machine

/-!
# The sheet map (`SkySheetController::RefreshMap`, `SkyOS/SkySheetController.cpp:137`)

`m_map` has, for every pixel of the screen, the index of the sheet seen there. A call that changes the stack or moves a
sheet paints the sheet's rectangle again, from one height upwards. The rectangle ends at `vx1` and `vy1`, which are no
longer part of it: `vy1` is cut to `m_ysize`, `vx1` to `m_xsize - 1`, so the last column of the screen is never painted.

| here | there |
| --- | --- |
| `Picture` | the buffer of a sheet and its size, which stay as they are |
| `Map` | `m_map` |
| `none` | an `int` overflows, or an access is outside `m_map`, a buffer or `m_pSheets` |

`RefreshSub`, a pure virtual function, draws on the screen and is left out.
-/

namespace Gui

open Machine SkySheetController Option

/-! ## The code -/

/-- What `SetBuf` sets (`SkySheet.cpp:30`). -/
structure Picture where
  m_buf : Option (Int → UInt8)
  m_bxsize : Int
  m_bysize : Int
  m_col_inv : Int
  sizes : 0 ≤ m_bxsize ∧ 0 ≤ m_bysize ∧ m_bxsize * m_bysize < 2 ^ 31

structure Display where
  m_xsize : Int
  m_ysize : Int
  picture : Fin MAX_SHEETS → Picture
  sizes : 0 < m_xsize ∧ 0 < m_ysize ∧ m_xsize * m_ysize < 2 ^ 31

abbrev Map := Int → UInt8

namespace Display

/-- `buf[i]` -/
def read (pic : Picture) (buf : Int → UInt8) (i : Int) : Option UInt8 :=
  if 0 ≤ i ∧ i < pic.m_bxsize * pic.m_bysize then some (buf i) else none

/-- `m_map[i] = sid` -/
def write (D : Display) (m_map : Map) (i : Int) (sid : UInt8) : Option Map :=
  if 0 ≤ i ∧ i < D.m_xsize * D.m_ysize then some (Function.update m_map i sid) else none

section
variable (D : Display) (sht : SkySheet) (pic : Picture) (buf : Int → UInt8) (sid : UInt8)

/-- The body of the inner loop (:205). -/
def pixel (by_ vy bx : Int) (m_map : Map) : Option Map := do
  let vx ← int (sht.m_vx0 + bx)
  let color ← read pic buf (← int (by_ * pic.m_bxsize + bx))
  if (color.toNat : Int) ≠ pic.m_col_inv then D.write m_map (← int (vy * D.m_xsize + vx)) sid else some m_map

/-- The inner loop (:203). -/
def columns (by_ vy : Int) : Nat → Int → Map → Option Map
  | 0, _, m_map => some m_map
  | n + 1, bx, m_map => (pixel D sht pic buf sid by_ vy bx m_map).bind (columns by_ vy n (bx + 1))

/-- The outer loop (:200). -/
def rows (bx0 bx1 : Int) : Nat → Int → Map → Option Map
  | 0, _, m_map => some m_map
  | n + 1, by_, m_map => do
    let vy ← int (sht.m_vy0 + by_)
    let m_map ← columns D sht pic buf sid by_ vy (bx1 - bx0).toNat bx0 m_map
    rows bx0 bx1 n (by_ + 1) m_map

end

/-- One round of the loop over the heights (:162). -/
def RefreshSheet (D : Display) (c : SkySheetController) (vx0 vy0 vx1 vy1 h : Int) (m_map : Map) : Option Map :=
  if InArray h then
    match c.m_pSheets h with
    | none => some m_map
    | some sid =>
      let sht := c.sheets0 sid
      let pic := D.picture sid
      match pic.m_buf with
      | none => some m_map
      | some buf => do
        let bx0 ← int (vx0 - sht.m_vx0)
        let by0 ← int (vy0 - sht.m_vy0)
        let bx1 ← int (vx1 - sht.m_vx0)
        let by1 ← int (vy1 - sht.m_vy0)
        let bx0 := if bx0 < 0 then 0 else bx0
        let by0 := if by0 < 0 then 0 else by0
        let bx1 := if bx1 > pic.m_bxsize then pic.m_bxsize else bx1
        let by1 := if by1 > pic.m_bysize then pic.m_bysize else by1
        rows D sht pic buf (UInt8.ofNat sid) bx0 bx1 (by1 - by0).toNat by0 m_map
  else none

def heights (D : Display) (c : SkySheetController) (vx0 vy0 vx1 vy1 : Int) : Nat → Int → Map → Option Map
  | 0, _, m_map => some m_map
  | n + 1, h, m_map =>
    (D.RefreshSheet c vx0 vy0 vx1 vy1 h m_map).bind (heights D c vx0 vy0 vx1 vy1 n (h + 1))

/-- `RefreshMap` (:137). -/
def RefreshMap (D : Display) (c : SkySheetController) (vx0 vy0 vx1 vy1 h0 : Int) (m_map : Map) : Option Map :=
  let vx0 := if vx0 < 0 then 0 else vx0
  let vy0 := if vy0 < 0 then 0 else vy0
  let vx1 := if vx1 > D.m_xsize - 1 then D.m_xsize - 1 else vx1
  let vy1 := if vy1 > D.m_ysize then D.m_ysize else vy1
  D.heights c vx0 vy0 vx1 vy1 (c.m_sheetTop + 1 - h0).toNat h0 m_map

/-- `RefreshMap` for the rectangle of a sheet at `(vx0, vy0)`. -/
def RefreshRect (D : Display) (c : SkySheetController) (sheet : Fin MAX_SHEETS) (vx0 vy0 h0 : Int) (m_map : Map) :
    Option Map := do
  let vx1 ← int (vx0 + (D.picture sheet).m_bxsize)
  let vy1 ← int (vy0 + (D.picture sheet).m_bysize)
  D.RefreshMap c vx0 vy0 vx1 vy1 h0 m_map

end Display

structure Screen where
  stack : SkySheetController
  m_map : Map

namespace Screen

/-- The height from which `UpdateSheets` has the map painted, in the order of its cases (:64). -/
def refreshFrom (old height : Int) : Option Int :=
  if height ≥ MAX_SHEETS then none
  else if old > height then if height ≥ 0 then some (height + 1) else some 0
  else if old < height then some height
  else none

/-- `Updown` (`SkySheet.cpp:42`). `UpdateSheets` calls `RefreshMap` last, when the stack is changed. -/
def Updown (D : Display) (s : Screen) (sheet : Fin MAX_SHEETS) (height : Int) : Option Screen := do
  let stack ← s.stack.Updown sheet height
  match refreshFrom (s.stack.sheets0 sheet).m_height (s.stack.clamp height) with
  | none => some { s with stack }
  | some h0 =>
    let m_map ← D.RefreshRect stack sheet (stack.sheets0 sheet).m_vx0 (stack.sheets0 sheet).m_vy0 h0 s.m_map
    some ⟨stack, m_map⟩

/-- `Slide` (`SkySheet.cpp:73`). -/
def Slide (D : Display) (s : Screen) (sheet : Fin MAX_SHEETS) (vx0 vy0 : Int) : Option Screen := do
  let old := s.stack.sheets0 sheet
  let stack := s.stack.Slide sheet vx0 vy0
  if old.m_height ≥ 0 then
    let m_map ← D.RefreshRect stack sheet old.m_vx0 old.m_vy0 0 s.m_map
    let m_map ← D.RefreshRect stack sheet vx0 vy0 old.m_height m_map
    some ⟨stack, m_map⟩
  else some { s with stack }

end Screen

/-! ## What is seen -/

variable {x y h vx0 vy0 h0 height i : Int} {sheet t : Fin MAX_SHEETS}

namespace Display

variable {D : Display} {c : SkySheetController}

/-- The index of a pixel in `m_map`. -/
def at_ (D : Display) (x y : Int) : Int := y * D.m_xsize + x

def OnScreen (D : Display) (x y : Int) : Prop := (0 ≤ x ∧ x < D.m_xsize) ∧ 0 ≤ y ∧ y < D.m_ysize

def Covers (D : Display) (c : SkySheetController) (sheet : Fin MAX_SHEETS) (x y : Int) : Prop :=
  let sht := c.sheets0 sheet
  let pic := D.picture sheet
  ∃ buf, pic.m_buf = some buf ∧ (0 ≤ x - sht.m_vx0 ∧ x - sht.m_vx0 < pic.m_bxsize) ∧
    (0 ≤ y - sht.m_vy0 ∧ y - sht.m_vy0 < pic.m_bysize) ∧
    ((buf ((y - sht.m_vy0) * pic.m_bxsize + (x - sht.m_vx0))).toNat : Int) ≠ pic.m_col_inv
  deriving Decidable

/-- The entry at `h` is the topmost one that covers the pixel. -/
structure Topmost (D : Display) (c : SkySheetController) (x y h : Int) (sheet : Fin MAX_SHEETS) : Prop where
  displayed : 0 ≤ h ∧ h ≤ c.m_sheetTop
  entry : c.m_pSheets h = some sheet
  covers : D.Covers c sheet x y
  above : ∀ h', h < h' → h' ≤ c.m_sheetTop → ∀ t, c.m_pSheets h' = some t → ¬ D.Covers c t x y

theorem index_bounds {w : Int} (hx : 0 ≤ x ∧ x < w) (hy : 0 ≤ y ∧ y < h) : 0 ≤ y * w + x ∧ y * w + x < w * h := by
  constructor
  · exact Int.add_nonneg (Int.mul_nonneg hy.1 (by omega)) hx.1
  · calc y * w + x < y * w + w := by omega
      _ = (y + 1) * w := by rw [Int.add_mul, Int.one_mul]
      _ ≤ h * w := Int.mul_le_mul_of_nonneg_right (by omega) (by omega)
      _ = w * h := Int.mul_comm ..

theorem at_inj {x' y' : Int} (h : D.OnScreen x y) (h' : D.OnScreen x' y') :
    D.at_ x y = D.at_ x' y' ↔ x = x' ∧ y = y' := by
  constructor
  · intro heq
    have hx : ∀ x y, D.OnScreen x y → D.at_ x y % D.m_xsize = x := by
      intro x y h
      rw [at_, Int.add_comm, Int.add_mul_emod_self_right, Int.emod_eq_of_lt h.1.1 h.1.2]
    have hsame : x = x' := by rw [← hx x y h, heq, hx x' y' h']
    refine ⟨hsame, ?_⟩
    have hpos := D.sizes.1
    rw [at_, at_, hsame] at heq
    have hrow : y * D.m_xsize = y' * D.m_xsize := by omega
    exact Int.eq_of_mul_eq_mul_right (Int.ne_of_gt hpos) hrow
  · rintro ⟨rfl, rfl⟩
    rfl

/-! ## One sheet -/

/-- The pixels in `P` have become `sid`, and the others are as before. -/
structure Painted (D : Display) (sid : UInt8) (P : Int → Int → Prop) (m m' : Map) : Prop where
  inside : ∀ x y, D.OnScreen x y → P x y → m' (D.at_ x y) = sid
  outside : ∀ x y, D.OnScreen x y → ¬ P x y → m' (D.at_ x y) = m (D.at_ x y)

namespace Painted

variable {sid : UInt8} {P Q R : Int → Int → Prop} {m m₁ m' : Map}

theorem refl (m : Map) (hP : ∀ x y, ¬ P x y) : Painted D sid P m m where
  inside x y _ h := absurd h (hP x y)
  outside _ _ _ _ := rfl

theorem trans (h : Painted D sid P m m₁) (h' : Painted D sid Q m₁ m') (hR : ∀ x y, R x y ↔ P x y ∨ Q x y) :
    Painted D sid R m m' where
  inside x y hon hin := by
    by_cases hQ : Q x y
    · exact h'.inside x y hon hQ
    · rw [h'.outside x y hon hQ]
      exact h.inside x y hon (((hR x y).1 hin).resolve_right hQ)
  outside x y hon hout := by
    rw [hR, not_or] at hout
    rw [h'.outside x y hon hout.2, h.outside x y hon hout.1]

end Painted

section
variable (D : Display) (sht : SkySheet) (pic : Picture) (buf : Int → UInt8) (sid : UInt8)

theorem pixel_spec {by_ vy bx : Int} (hb : (0 ≤ bx ∧ bx < pic.m_bxsize) ∧ 0 ≤ by_ ∧ by_ < pic.m_bysize)
    (hon : D.OnScreen (sht.m_vx0 + bx) vy) (m : Map) : ∃ m', pixel D sht pic buf sid by_ vy bx m = some m' ∧
      Painted D sid (fun x y => y = vy ∧ x = sht.m_vx0 + bx ∧
        ((buf (by_ * pic.m_bxsize + bx)).toNat : Int) ≠ pic.m_col_inv) m m' := by
  have hbuffer := index_bounds hb.1 hb.2
  have hmap := index_bounds hon.1 hon.2
  have hsizes := D.sizes
  have hsizes' := pic.sizes
  have hwidth : D.m_xsize < 2 ^ 31 := by
    have := Int.mul_le_mul_of_nonneg_left (show 1 ≤ D.m_ysize by omega) (show 0 ≤ D.m_xsize by omega)
    omega
  unfold pixel
  rw [int_of_isInt32 ⟨by have := hon.1; omega, by have := hon.1; omega⟩, int_of_isInt32 ⟨by omega, by omega⟩]
  simp only [bind_eq_bind, bind_some, read, if_pos hbuffer,
    int_of_isInt32 (x := vy * D.m_xsize + (sht.m_vx0 + bx)) ⟨by omega, by omega⟩, write, if_pos hmap]
  split
  · rename_i hseen
    refine ⟨_, rfl, ?_, ?_⟩
    · rintro x y - ⟨rfl, rfl, -⟩
      exact Function.update_self ..
    · intro x y hxy hnot
      refine Function.update_of_ne ?_ ..
      intro heq
      obtain ⟨rfl, rfl⟩ := (at_inj hxy hon).1 heq
      exact hnot ⟨rfl, rfl, hseen⟩
  · rename_i hclear
    exact ⟨m, rfl, .refl m fun x y h => hclear h.2.2⟩

theorem columns_spec {by_ vy : Int} (hby : 0 ≤ by_ ∧ by_ < pic.m_bysize) (hvy : 0 ≤ vy ∧ vy < D.m_ysize) (n : Nat) :
    ∀ (bx : Int) (m : Map), (n ≠ 0 → (0 ≤ bx ∧ bx + n ≤ pic.m_bxsize) ∧
      0 ≤ sht.m_vx0 + bx ∧ sht.m_vx0 + bx + n ≤ D.m_xsize) →
    ∃ m', columns D sht pic buf sid by_ vy n bx m = some m' ∧
      Painted D sid (fun x y => y = vy ∧ (bx ≤ x - sht.m_vx0 ∧ x - sht.m_vx0 < bx + n) ∧
        ((buf (by_ * pic.m_bxsize + (x - sht.m_vx0))).toNat : Int) ≠ pic.m_col_inv) m m' := by
  induction n with
  | zero => exact fun bx m _ => ⟨m, rfl, .refl m (by omega)⟩
  | succ n ih =>
    intro bx m hin
    have hin := hin (Nat.succ_ne_zero n)
    obtain ⟨m₁, hpixel, hpainted⟩ := pixel_spec D sht pic buf sid
      ⟨⟨hin.1.1, by omega⟩, hby⟩ ⟨⟨hin.2.1, by omega⟩, hvy⟩ m
    obtain ⟨m', hrest, hpainted'⟩ := ih (bx + 1) m₁ (by omega)
    refine ⟨m', by rw [columns, hpixel, bind_some, hrest], hpainted.trans hpainted' fun x y => ?_⟩
    have hat : x = sht.m_vx0 + bx ↔ x - sht.m_vx0 = bx := by omega
    constructor
    · rintro ⟨rfl, hx, hseen⟩
      by_cases hfirst : x - sht.m_vx0 = bx
      · exact .inl ⟨rfl, hat.2 hfirst, hfirst ▸ hseen⟩
      · exact .inr ⟨rfl, by omega, hseen⟩
    · rintro (⟨rfl, hx, hseen⟩ | ⟨rfl, hx, hseen⟩)
      · exact ⟨rfl, by omega, (hat.1 hx).symm ▸ hseen⟩
      · exact ⟨rfl, by omega, hseen⟩

theorem rows_spec (bx0 bx1 : Int) (hbx : bx0 < bx1 → (0 ≤ bx0 ∧ bx1 ≤ pic.m_bxsize) ∧
    0 ≤ sht.m_vx0 + bx0 ∧ sht.m_vx0 + bx1 ≤ D.m_xsize) (n : Nat) :
    ∀ (by_ : Int) (m : Map), (n ≠ 0 → (0 ≤ by_ ∧ by_ + n ≤ pic.m_bysize) ∧
      0 ≤ sht.m_vy0 + by_ ∧ sht.m_vy0 + by_ + n ≤ D.m_ysize) →
    ∃ m', rows D sht pic buf sid bx0 bx1 n by_ m = some m' ∧
      Painted D sid (fun x y => (bx0 ≤ x - sht.m_vx0 ∧ x - sht.m_vx0 < bx1) ∧
        (by_ ≤ y - sht.m_vy0 ∧ y - sht.m_vy0 < by_ + n) ∧
        ((buf ((y - sht.m_vy0) * pic.m_bxsize + (x - sht.m_vx0))).toNat : Int) ≠ pic.m_col_inv) m m' := by
  have hheight : D.m_ysize < 2 ^ 31 := by
    have hsizes := D.sizes
    have := Int.mul_le_mul_of_nonneg_right (show 1 ≤ D.m_xsize by omega) (show 0 ≤ D.m_ysize by omega)
    omega
  induction n with
  | zero => exact fun by_ m _ => ⟨m, rfl, .refl m (by omega)⟩
  | succ n ih =>
    intro by_ m hin
    obtain ⟨m₁, hcolumns, hpainted⟩ := columns_spec D sht pic buf sid (by omega : 0 ≤ by_ ∧ _)
      (by omega : 0 ≤ sht.m_vy0 + by_ ∧ _) (bx1 - bx0).toNat bx0 m (by omega)
    obtain ⟨m', hrest, hpainted'⟩ := ih (by_ + 1) m₁ (by omega)
    refine ⟨m', ?_, hpainted.trans hpainted' fun x y => ?_⟩
    · rw [rows, int_of_isInt32 ⟨by omega, by omega⟩]
      simp only [bind_eq_bind, bind_some, hcolumns, hrest]
    · have hat : y = sht.m_vy0 + by_ ↔ y - sht.m_vy0 = by_ := by omega
      constructor
      · rintro ⟨hx, hy, hseen⟩
        by_cases hfirst : y - sht.m_vy0 = by_
        · exact .inl ⟨hat.2 hfirst, by omega, hfirst ▸ hseen⟩
        · exact .inr ⟨hx, by omega, hseen⟩
      · rintro (⟨hy, hx, hseen⟩ | ⟨hx, hy, hseen⟩)
        · exact ⟨by omega, by omega, (hat.1 hy).symm ▸ hseen⟩
        · exact ⟨hx, by omega, hseen⟩

end

/-! ## All sheets from a height upwards -/

theorem ite_neg_eq_max (a : Int) : (if a < 0 then 0 else a) = max a 0 := by
  split <;> omega

theorem ite_gt_eq_min (a b : Int) : (if a > b then b else a) = min a b := by
  split <;> omega

def Region (vx0 vy0 vx1 vy1 x y : Int) : Prop := (vx0 ≤ x ∧ x < vx1) ∧ vy0 ≤ y ∧ y < vy1

def Relative (D : Display) (c : SkySheetController) (vx0 vy0 vx1 vy1 : Int) (t : Fin MAX_SHEETS) : Prop :=
  (D.picture t).m_buf ≠ none → (IsInt32 (vx0 - (c.sheets0 t).m_vx0) ∧ IsInt32 (vy0 - (c.sheets0 t).m_vy0)) ∧
    IsInt32 (vx1 - (c.sheets0 t).m_vx0) ∧ IsInt32 (vy1 - (c.sheets0 t).m_vy0)
  deriving Decidable

/-- The entry at `h` has been painted. -/
structure Entered (D : Display) (c : SkySheetController) (region : Int → Int → Prop) (h : Int) (m m' : Map) : Prop where
  inside : ∀ x y, D.OnScreen x y → region x y → ∀ t, c.m_pSheets h = some t → D.Covers c t x y →
    m' (D.at_ x y) = UInt8.ofNat t
  outside : ∀ x y, D.OnScreen x y → (region x y → ∀ t, c.m_pSheets h = some t → ¬ D.Covers c t x y) →
    m' (D.at_ x y) = m (D.at_ x y)

theorem RefreshSheet_spec {vx1 vy1 : Int} (hin : InArray h) (hx : 0 ≤ vx0 ∧ vx1 ≤ D.m_xsize)
    (hy : 0 ≤ vy0 ∧ vy1 ≤ D.m_ysize) (hint : ∀ t, c.m_pSheets h = some t → D.Relative c vx0 vy0 vx1 vy1 t) (m : Map) :
    ∃ m', D.RefreshSheet c vx0 vy0 vx1 vy1 h m = some m' ∧ D.Entered c (Region vx0 vy0 vx1 vy1) h m m' := by
  rw [RefreshSheet, if_pos hin]
  cases hentry : c.m_pSheets h with
  | none =>
    refine ⟨m, rfl, ?_, fun _ _ _ _ => rfl⟩
    intro x y _ _ t ht
    rw [hentry] at ht
    cases ht
  | some sid =>
    have hint := hint sid hentry
    have honly : ∀ t, c.m_pSheets h = some t → t = sid := fun t ht => by
      rw [hentry] at ht
      exact (Option.some.inj ht).symm
    dsimp only
    cases hbuf : (D.picture sid).m_buf with
    | none =>
      refine ⟨m, rfl, ?_, fun _ _ _ _ => rfl⟩
      intro x y _ _ t ht hcovers
      obtain ⟨buf, hsome, -⟩ := hcovers
      rw [honly t ht, hbuf] at hsome
      cases hsome
    | some buf =>
      obtain ⟨⟨h1, h2⟩, h3, h4⟩ := hint (by rw [hbuf]; exact some_ne_none buf)
      simp only [int_of_isInt32 h1, int_of_isInt32 h2, int_of_isInt32 h3, int_of_isInt32 h4, bind_eq_bind,
        bind_some, ite_neg_eq_max, ite_gt_eq_min]
      obtain ⟨m', hrows, hpainted⟩ := rows_spec D (c.sheets0 sid) (D.picture sid) buf (UInt8.ofNat sid)
        (max (vx0 - (c.sheets0 sid).m_vx0) 0) (min (vx1 - (c.sheets0 sid).m_vx0) (D.picture sid).m_bxsize) (by omega)
        (min (vy1 - (c.sheets0 sid).m_vy0) (D.picture sid).m_bysize - max (vy0 - (c.sheets0 sid).m_vy0) 0).toNat
        (max (vy0 - (c.sheets0 sid).m_vy0) 0) m (by omega)
      refine ⟨m', hrows, ?_, ?_⟩
      · rintro x y hon ⟨hx, hy⟩ t ht ⟨buf', hsome, hbx, hby, hseen⟩
        obtain rfl := honly t ht
        obtain rfl := Option.some.inj (hbuf.symm.trans hsome)
        exact hpainted.inside x y hon ⟨by omega, by omega, hseen⟩
      · intro x y hon hnot
        refine hpainted.outside x y hon ?_
        rintro ⟨hx, hy, hseen⟩
        exact hnot ⟨by omega, by omega⟩ sid hentry ⟨buf, hbuf, by omega, by omega, hseen⟩

/-- The entries from `lo` on, below `hi`, have been painted one over the other. -/
structure Layered (D : Display) (c : SkySheetController) (region : Int → Int → Prop) (lo hi : Int) (m m' : Map) :
    Prop where
  inside : ∀ x y, D.OnScreen x y → region x y → ∀ h t, lo ≤ h → h < hi → c.m_pSheets h = some t → D.Covers c t x y →
    (∀ h', h < h' → h' < hi → ∀ u, c.m_pSheets h' = some u → ¬ D.Covers c u x y) → m' (D.at_ x y) = UInt8.ofNat t
  outside : ∀ x y, D.OnScreen x y →
    (region x y → ∀ h t, lo ≤ h → h < hi → c.m_pSheets h = some t → ¬ D.Covers c t x y) →
      m' (D.at_ x y) = m (D.at_ x y)

theorem heights_spec (D : Display) (c : SkySheetController) {vx1 vy1 hi : Int}
    (hx : 0 ≤ vx0 ∧ vx1 ≤ D.m_xsize) (hy : 0 ≤ vy0 ∧ vy1 ≤ D.m_ysize)
    (hhi : hi ≤ MAX_SHEETS) (n : Nat) : ∀ (lo : Int) (m : Map), 0 ≤ lo → lo + n = hi →
    (∀ h t, lo ≤ h → h < hi → c.m_pSheets h = some t → D.Relative c vx0 vy0 vx1 vy1 t) →
    ∃ m', D.heights c vx0 vy0 vx1 vy1 n lo m = some m' ∧ D.Layered c (Region vx0 vy0 vx1 vy1) lo hi m m' := by
  induction n with
  | zero =>
    intro lo m _ hlo _
    exact ⟨m, rfl, fun x y _ _ h t _ _ => by omega, fun _ _ _ _ => rfl⟩
  | succ n ih =>
    intro lo m h0 hlo hint
    obtain ⟨m₁, hsheet, hentered⟩ := RefreshSheet_spec (D := D) (c := c) (h := lo) ⟨h0, by omega⟩ hx hy
      (fun t => hint lo t le_rfl (by omega)) m
    obtain ⟨m', hrest, hlayered⟩ := ih (lo + 1) m₁ (by omega) (by omega) fun h t hle => hint h t (by omega)
    refine ⟨m', by rw [heights, hsheet, bind_some, hrest], ?_, ?_⟩
    · intro x y hon hregion h t hle hlt hentry hcovers habove
      by_cases hfirst : h = lo
      · subst hfirst
        -- no later sheet covers the pixel
        rw [hlayered.outside x y hon fun _ h' u hle' hlt' hu => habove h' (by omega) hlt' u hu]
        exact hentered.inside x y hon hregion t hentry hcovers
      · exact hlayered.inside x y hon hregion h t (by omega) hlt hentry hcovers habove
    · intro x y hon hnone
      rw [hlayered.outside x y hon fun hregion h t hle hlt => hnone hregion h t (by omega) hlt]
      exact hentered.outside x y hon fun hregion t => hnone hregion lo t le_rfl (by omega)

/-- The part of the screen that `RefreshMap` paints, for the rectangle of a sheet at `(vx0, vy0)`. The last column is
not in it. -/
def Painting (D : Display) (sheet : Fin MAX_SHEETS) (vx0 vy0 : Int) (x y : Int) : Prop :=
  Region (max vx0 0) (max vy0 0) (min (vx0 + (D.picture sheet).m_bxsize) (D.m_xsize - 1))
    (min (vy0 + (D.picture sheet).m_bysize) D.m_ysize) x y

/-- No `int` overflows when the rectangle of a sheet at `(vx0, vy0)` is painted: its right and lower end, and the
corners of what is left of it on the screen relative to the sheet itself and to the displayed ones. -/
def Computes (D : Display) (c : SkySheetController) (sheet : Fin MAX_SHEETS) (vx0 vy0 : Int) : Prop :=
  (IsInt32 (vx0 + (D.picture sheet).m_bxsize) ∧ IsInt32 (vy0 + (D.picture sheet).m_bysize)) ∧
    ∀ t, t = sheet ∨ (c.Allocated t ∧ 0 ≤ (c.sheets0 t).m_height) →
      D.Relative c (max vx0 0) (max vy0 0) (min (vx0 + (D.picture sheet).m_bxsize) (D.m_xsize - 1))
        (min (vy0 + (D.picture sheet).m_bysize) D.m_ysize) t
  deriving Decidable

/-- The pixels whose topmost sheet is at `h0` or above are painted with it, the others are left as they are. -/
theorem RefreshRect_spec (hright : c.Right) (h0 : Int)
    (h : 0 ≤ h0 ∧ h0 ≤ c.m_sheetTop + 1) (hint : D.Computes c sheet vx0 vy0) (m : Map) :
    ∃ m', D.RefreshRect c sheet vx0 vy0 h0 m = some m' ∧
      ∀ x y, D.OnScreen x y → ∀ h t, D.Topmost c x y h t →
        (D.Painting sheet vx0 vy0 x y → h0 ≤ h → m' (D.at_ x y) = UInt8.ofNat t) ∧
        ((D.Painting sheet vx0 vy0 x y → h < h0) → m' (D.at_ x y) = m (D.at_ x y)) := by
  obtain ⟨⟨hvx1, hvy1⟩, hrelative⟩ := hint
  have htop := hright.top
  have hdisplayed : ∀ h t, h0 ≤ h → h < c.m_sheetTop + 1 → c.m_pSheets h = some t →
      c.Allocated t ∧ 0 ≤ (c.sheets0 t).m_height := by
    intro h t hle hlt hat
    obtain ⟨t', hat', ht', hheight⟩ := hright.entry h (by omega) (by omega)
    obtain rfl := Option.some.inj (hat.symm.trans hat')
    exact ⟨ht', by omega⟩
  have hx : 0 ≤ max vx0 0 ∧ min (vx0 + (D.picture sheet).m_bxsize) (D.m_xsize - 1) ≤ D.m_xsize := by omega
  have hy : 0 ≤ max vy0 0 ∧ min (vy0 + (D.picture sheet).m_bysize) D.m_ysize ≤ D.m_ysize := by omega
  obtain ⟨m', hheights, hlayered⟩ := heights_spec D c hx hy (by omega : c.m_sheetTop + 1 ≤ _)
    (c.m_sheetTop + 1 - h0).toNat h0 m h.1 (by omega) fun h t hle hlt hat =>
      hrelative t (.inr (hdisplayed h t hle hlt hat))
  refine ⟨m', ?_, ?_⟩
  · simp only [RefreshRect, int_of_isInt32 hvx1, int_of_isInt32 hvy1, bind_eq_bind, bind_some, RefreshMap,
      ite_neg_eq_max, ite_gt_eq_min]
    exact hheights
  · intro x y hon h t htopmost
    constructor
    · intro hregion hle
      exact hlayered.inside x y hon hregion h t hle (by have := htopmost.displayed; omega) htopmost.entry
        htopmost.covers fun h' hlt' hhi => htopmost.above h' hlt' (by omega)
    · intro hbelow
      refine hlayered.outside x y hon fun hregion h' u hle hlt => ?_
      have := hbelow hregion
      exact htopmost.above h' (by omega) (by omega) u

end Display

/-! ## The positions -/

def SamePlaces (c c' : SkySheetController) : Prop :=
  ∀ t, (c'.sheets0 t).m_vx0 = (c.sheets0 t).m_vx0 ∧ (c'.sheets0 t).m_vy0 = (c.sheets0 t).m_vy0 ∧
    (c'.sheets0 t).m_flags = (c.sheets0 t).m_flags

namespace SamePlaces

variable {c c₁ c' : SkySheetController}

theorem refl (c : SkySheetController) : SamePlaces c c := fun _ => ⟨rfl, rfl, rfl⟩

theorem trans (h : SamePlaces c c₁) (h' : SamePlaces c₁ c') : SamePlaces c c' := fun t =>
  ⟨(h' t).1.trans (h t).1, (h' t).2.1.trans (h t).2.1, (h' t).2.2.trans (h t).2.2⟩

theorem setHeight (c : SkySheetController) (sheet : Fin MAX_SHEETS) (h : Int) : SamePlaces c (c.setHeight sheet h) := by
  intro t
  by_cases ht : t = sheet
  · subst ht
    simp [SkySheetController.setHeight]
  · simp [SkySheetController.setHeight, ht]

theorem write (hrun : c.write h sheet = some c') : SamePlaces c c' := by
  rw [SkySheetController.write] at hrun
  split at hrun
  · cases hrun
    exact refl c
  · cases hrun

variable {guarded : Bool}

theorem move (hrun : c.move guarded h h0 = some c') : SamePlaces c c' := by
  rw [SkySheetController.move] at hrun
  split at hrun
  · split at hrun
    · obtain ⟨c₁, hwrite, rfl⟩ := map_eq_some_iff.1 hrun
      exact (write hwrite).trans (setHeight _ _ _)
    · split at hrun
      · cases hrun
        exact refl c
      · cases hrun
  · cases hrun

theorem shiftUp (n : Nat) : ∀ {c c' : SkySheetController},
    c.shiftUp guarded height n = some c' → SamePlaces c c' := by
  induction n with
  | zero =>
    intro c c' hrun
    cases hrun
    exact refl c
  | succ n ih =>
    intro c c' hrun
    obtain ⟨c₁, hmove, hrest⟩ := bind_eq_some_iff.1 hrun
    exact (move hmove).trans (ih hrest)

theorem shiftDown (n : Nat) : ∀ {c c' : SkySheetController} {old : Int},
    c.shiftDown guarded old n = some c' → SamePlaces c c' := by
  induction n with
  | zero =>
    intro c c' old hrun
    cases hrun
    exact refl c
  | succ n ih =>
    intro c c' old hrun
    obtain ⟨c₁, hmove, hrest⟩ := bind_eq_some_iff.1 hrun
    exact (move hmove).trans (ih hrest)

theorem updateSheets {old : Int} (hrun : c.UpdateSheets old height sheet = some c') :
    SamePlaces c c' := by
  unfold UpdateSheets at hrun
  split at hrun
  · cases hrun
    exact refl c
  split at hrun
  · split at hrun
    · obtain ⟨c₁, hshift, hwrite⟩ := bind_eq_some_iff.1 hrun
      exact (shiftUp _ hshift).trans (write hwrite)
    · obtain ⟨c₁, hshift, rfl⟩ := map_eq_some_iff.1 hrun
      change SamePlaces c c₁
      split at hshift
      · exact shiftDown _ hshift
      · cases hshift
        exact refl c
  split at hrun
  · split at hrun
    · obtain ⟨c₁, hshift, hwrite⟩ := bind_eq_some_iff.1 hrun
      exact (shiftDown _ hshift).trans (write hwrite)
    · obtain ⟨c₁, hshift, hmap⟩ := bind_eq_some_iff.1 hrun
      obtain ⟨c₂, hwrite, rfl⟩ := map_eq_some_iff.1 hmap
      have hwritten : SamePlaces c₁ c₂ := write hwrite
      exact (shiftUp _ hshift).trans hwritten
  · cases hrun
    exact refl c

theorem moved {old : Int}
    (hrun : (c.setHeight sheet height).UpdateSheets old height sheet = some c') : SamePlaces c c' :=
  (setHeight c sheet height).trans (updateSheets hrun)

theorem allocated (h : SamePlaces c c') (ht : c.Allocated t) : c'.Allocated t := by
  rw [Allocated, (h t).2.2]
  exact ht

end SamePlaces

/-! ## The order of the sheets -/

namespace SkySheetController

variable {c c' : SkySheetController} {sheet : Fin MAX_SHEETS}

/-- A call on `sheet`, after which the map is painted from `h0` on, keeps the order of the others. One of them that is
below `h0` is below `sheet`, and if that is below `h0` itself, it has not passed one that is above it. -/
structure Reordered (c c' : SkySheetController) (sheet : Fin MAX_SHEETS) (h0 : Int) : Prop where
  right : c'.Right
  places : SamePlaces c c'
  from_ : 0 ≤ h0 ∧ h0 ≤ c'.m_sheetTop + 1
  displayed : ∀ t, t ≠ sheet → c.Allocated t → (0 ≤ (c'.sheets0 t).m_height ↔ 0 ≤ (c.sheets0 t).m_height)
  order : ∀ t u, t ≠ sheet → u ≠ sheet → c.Allocated t → c.Allocated u → 0 ≤ (c.sheets0 t).m_height →
    (c.sheets0 t).m_height < (c.sheets0 u).m_height → (c'.sheets0 t).m_height < (c'.sheets0 u).m_height
  below : ∀ t, t ≠ sheet → c.Allocated t → 0 ≤ (c'.sheets0 t).m_height → (c'.sheets0 t).m_height < h0 →
    (c'.sheets0 t).m_height < (c'.sheets0 sheet).m_height
  itself : 0 ≤ (c'.sheets0 sheet).m_height → (c'.sheets0 sheet).m_height < h0 → 0 ≤ (c.sheets0 sheet).m_height ∧
    ∀ u, u ≠ sheet → c.Allocated u → (c.sheets0 sheet).m_height < (c.sheets0 u).m_height →
      (c'.sheets0 sheet).m_height < (c'.sheets0 u).m_height

theorem Right.height_ne (h : c.Right) {u : Fin MAX_SHEETS} (hne : t ≠ u) (ht : c.Allocated t) (hu : c.Allocated u)
    (h0 : 0 ≤ (c.sheets0 t).m_height) : (c.sheets0 t).m_height ≠ (c.sheets0 u).m_height := by
  intro heq
  obtain hneg | ⟨-, -, hat⟩ := h.sheet t ht
  · omega
  obtain hneg | ⟨-, -, hat'⟩ := h.sheet u hu
  · omega
  rw [heq, hat'] at hat
  exact hne (Option.some.inj hat).symm

theorem Right.le_top (h : c.Right) (ht : c.Allocated t) (h0 : 0 ≤ (c.sheets0 t).m_height) :
    (c.sheets0 t).m_height ≤ c.m_sheetTop := by
  obtain hneg | ⟨-, hle, -⟩ := h.sheet t ht
  · omega
  · exact hle

theorem Right.height_other (h : c.Right) (hs : c.Allocated sheet) (hne : t ≠ sheet)
    (ht : c.Allocated t) : (c.sheets0 t).m_height = -1 ∨
      ((0 ≤ (c.sheets0 t).m_height ∧ (c.sheets0 t).m_height ≤ c.m_sheetTop) ∧
        (c.sheets0 t).m_height ≠ (c.sheets0 sheet).m_height) := by
  rcases h.sheet t ht with hneg | ⟨h0, hle, -⟩
  · exact .inl hneg
  · exact .inr ⟨⟨h0, hle⟩, h.height_ne hne ht hs h0⟩

/-- A shift that keeps the order of the entries, that of `sheet` apart, keeps the order of the sheets. -/
theorem Right.order_of_others (h : c.Right) (hs : c.Allocated sheet) {P : Int → Prop} [DecidablePred P] {d : Int}
    (hothers : Others c c' sheet P d) (hneg : shifted P d (-1) = -1)
    (hmono : ∀ i j, 0 ≤ i → i < j → j ≤ c.m_sheetTop → i ≠ (c.sheets0 sheet).m_height →
      j ≠ (c.sheets0 sheet).m_height → shifted P d i < shifted P d j)
    (hdisplayed : ∀ i, 0 ≤ i → i ≤ c.m_sheetTop → i ≠ (c.sheets0 sheet).m_height → 0 ≤ shifted P d i) :
    (∀ t, t ≠ sheet → c.Allocated t → (0 ≤ (c'.sheets0 t).m_height ↔ 0 ≤ (c.sheets0 t).m_height)) ∧
      ∀ t u, t ≠ sheet → u ≠ sheet → c.Allocated t → c.Allocated u → 0 ≤ (c.sheets0 t).m_height →
        (c.sheets0 t).m_height < (c.sheets0 u).m_height → (c'.sheets0 t).m_height < (c'.sheets0 u).m_height := by
  constructor
  · intro t ht hts
    rw [hothers t ht hts]
    rcases h.height_other hs ht hts with hhidden | ⟨hin, hne⟩
    · rw [hhidden, hneg]
    · exact iff_of_true (hdisplayed _ hin.1 hin.2 hne) hin.1
  · intro t u ht hu hts hus h0 hlt
    rw [hothers t ht hts, hothers u hu hus]
    have hat := h.height_other hs ht hts
    have hau := h.height_other hs hu hus
    exact hmono _ _ h0 hlt (by omega) (by omega) (by omega)

/-- The height asked for is one of the stack: for a displayed sheet not above the top. -/
def WithinStack (c : SkySheetController) (sheet : Fin MAX_SHEETS) (height : Int) : Prop :=
  (c.sheets0 sheet).m_height < 0 ∨ height ≤ c.m_sheetTop

/-- Upwards: the entries between the old height and the new one go down. -/
theorem Right.reordered_raise (h : c.Right) (hs : c.Allocated sheet)
    (h0 : 0 ≤ (c.sheets0 sheet).m_height) (hlt : (c.sheets0 sheet).m_height < height) (hle : height ≤ c.m_sheetTop) :
    ∃ c', (c.setHeight sheet height).UpdateSheets (c.sheets0 sheet).m_height height sheet = some c' ∧
      Reordered c c' sheet height := by
  obtain ⟨c', hrun, hright, hheight, hothers⟩ := h.raise hs h0 hlt (.inl hle)
  have hplaces := SamePlaces.moved hrun
  have htop := hright.le_top (hplaces.allocated hs) (by omega)
  obtain ⟨hdisplayed, horder⟩ := h.order_of_others hs hothers (if_neg (by omega))
    (fun i j _ _ _ _ _ => by unfold shifted; split <;> split <;> omega)
    (fun i _ _ _ => by unfold shifted; split <;> omega)
  refine ⟨c', hrun, hright, hplaces, by omega, hdisplayed, horder, ?_, ?_⟩
  · intro t ht hts
    omega
  · omega

/-- Out of hiding: the entries from the new height on go up. -/
theorem Right.reordered_show (h : c.Right) (hs : c.Allocated sheet)
    (hhidden : (c.sheets0 sheet).m_height < 0) (h0 : 0 ≤ height) (hle : height ≤ c.m_sheetTop + 1) :
    ∃ c', (c.setHeight sheet height).UpdateSheets (c.sheets0 sheet).m_height height sheet = some c' ∧
      Reordered c c' sheet height := by
  obtain ⟨c', hrun, hright, hheight, hothers⟩ := h.show hs hhidden h0 hle
  have hplaces := SamePlaces.moved hrun
  have htop := hright.le_top (hplaces.allocated hs) (by omega)
  obtain ⟨hdisplayed, horder⟩ := h.order_of_others hs hothers (if_neg (by omega))
    (fun i j _ _ _ _ _ => by unfold shifted; split <;> split <;> omega)
    (fun i _ _ _ => by unfold shifted; split <;> omega)
  refine ⟨c', hrun, hright, hplaces, by omega, hdisplayed, horder, ?_, ?_⟩
  · intro t ht hts
    omega
  · omega

/-- Downwards: the entries between the new height and the old one go up, and the sheet itself has been painted. -/
theorem Right.reordered_lower (h : c.Right) (hs : c.Allocated sheet) (h0 : 0 ≤ height)
    (hlt : height < (c.sheets0 sheet).m_height) :
    ∃ c', (c.setHeight sheet height).UpdateSheets (c.sheets0 sheet).m_height height sheet = some c' ∧
      Reordered c c' sheet (height + 1) := by
  obtain ⟨c', hrun, hright, hheight, hothers⟩ := h.lower hs h0 hlt
  have hplaces := SamePlaces.moved hrun
  have htop := hright.le_top (hplaces.allocated hs) (by omega)
  obtain ⟨hdisplayed, horder⟩ := h.order_of_others hs hothers (if_neg (by omega))
    (fun i j _ _ _ _ _ => by unfold shifted; split <;> split <;> omega)
    (fun i _ _ _ => by unfold shifted; split <;> omega)
  refine ⟨c', hrun, hright, hplaces, by omega, hdisplayed, horder, ?_, ?_⟩
  · intro t ht hts
    rw [hothers t ht hts, shifted]
    split <;> omega
  · intro _ _
    refine ⟨by omega, fun u hu hus => ?_⟩
    rw [hothers u hu hus, shifted]
    split <;> omega

/-- Into hiding: the entries above go down. -/
theorem Right.reordered_hide (h : c.Right) (hs : c.Allocated sheet) (h0 : 0 ≤ (c.sheets0 sheet).m_height) :
    ∃ c', (c.setHeight sheet (-1)).UpdateSheets (c.sheets0 sheet).m_height (-1) sheet = some c' ∧
      Reordered c c' sheet 0 := by
  obtain ⟨c', hrun, hright, hheight, -, hothers⟩ := h.hide hs h0
  have hplaces := SamePlaces.moved hrun
  have htop := hright.top
  obtain ⟨hdisplayed, horder⟩ := h.order_of_others hs hothers (if_neg (by omega))
    (fun i j _ _ _ _ _ => by unfold shifted; split <;> split <;> omega)
    (fun i _ _ _ => by unfold shifted; split <;> omega)
  refine ⟨c', hrun, hright, hplaces, by omega, hdisplayed, horder, ?_, ?_⟩
  · omega
  · omega

theorem Right.reordered (h : c.Right) (hs : c.Allocated sheet) (hwithin : c.WithinStack sheet height) :
    ∃ c', c.Updown sheet height = some c' ∧
      match Screen.refreshFrom (c.sheets0 sheet).m_height (c.clamp height) with
      | none => c' = c
      | some h0 => Reordered c c' sheet h0 := by
  have htop := h.top
  have hself : (c.sheets0 sheet).m_height = -1 ∨
      (0 ≤ (c.sheets0 sheet).m_height ∧ (c.sheets0 sheet).m_height ≤ c.m_sheetTop) :=
    (h.sheet sheet hs).imp_right fun hdisplayed => ⟨hdisplayed.1, hdisplayed.2.1⟩
  unfold WithinStack at hwithin
  unfold Updown
  dsimp only
  rw [clamp_eq htop.1]
  generalize hnew : max (-1) (min height (c.m_sheetTop + 1)) = new
  rcases lt_trichotomy (c.sheets0 sheet).m_height new with hlt | heq | hgt
  · have hfrom : Screen.refreshFrom (c.sheets0 sheet).m_height new = some new := by
      have hroom := @Right.room c h sheet
      rw [Screen.refreshFrom, if_neg (by omega), if_neg (by omega), if_pos hlt]
    rw [hfrom]
    by_cases hold : 0 ≤ (c.sheets0 sheet).m_height
    · exact h.reordered_raise hs hold hlt (by omega)
    · exact h.reordered_show hs (by omega) (by omega) (by omega)
  · have hfrom : Screen.refreshFrom (c.sheets0 sheet).m_height new = none := by
      rw [Screen.refreshFrom, heq]
      simp
    rw [hfrom, ← heq, setHeight_m_height]
    refine ⟨c, ?_, rfl⟩
    rw [UpdateSheets, if_neg (by omega), if_neg (by omega), if_neg (by omega)]
  · by_cases h0 : 0 ≤ new
    · have hfrom : Screen.refreshFrom (c.sheets0 sheet).m_height new = some (new + 1) := by
        rw [Screen.refreshFrom, if_neg (by omega), if_pos hgt, if_pos h0]
      rw [hfrom]
      exact h.reordered_lower hs h0 hgt
    · have hfrom : Screen.refreshFrom (c.sheets0 sheet).m_height new = some 0 := by
        rw [Screen.refreshFrom, if_neg (by omega), if_pos hgt, if_neg h0]
      obtain rfl : new = -1 := by omega
      rw [hfrom]
      exact h.reordered_hide hs (by omega)

end SkySheetController

namespace Display

variable {D : Display} {c c' : SkySheetController} {sheet : Fin MAX_SHEETS}

theorem SamePlaces.covers (h : SamePlaces c c') (t : Fin MAX_SHEETS) (x y : Int) :
    D.Covers c' t x y ↔ D.Covers c t x y := by
  simp only [Covers, (h t).1, (h t).2.1]

theorem topmost_iff (h : c.Right) : D.Topmost c x y i t ↔
    (c.Allocated t ∧ (c.sheets0 t).m_height = i) ∧ 0 ≤ i ∧ D.Covers c t x y ∧
      ∀ u, c.Allocated u → i < (c.sheets0 u).m_height → ¬ D.Covers c u x y := by
  constructor
  · rintro ⟨⟨h0, hle⟩, hat, hcovers, habove⟩
    obtain ⟨t', hat', ht', hheight⟩ := h.entry i h0 hle
    obtain rfl := Option.some.inj (hat.symm.trans hat')
    refine ⟨⟨ht', hheight⟩, h0, hcovers, fun u hu hlt => ?_⟩
    obtain hneg | ⟨-, hle', hatu⟩ := h.sheet u hu
    · omega
    · exact habove _ hlt hle' u hatu
  · rintro ⟨⟨ht, rfl⟩, h0, hcovers, habove⟩
    obtain hneg | ⟨-, hle, hat⟩ := h.sheet t ht
    · omega
    · refine ⟨⟨h0, hle⟩, hat, hcovers, fun i' hlt hle' u hatu => ?_⟩
      obtain ⟨u', hatu', hu', hheight⟩ := h.entry i' (by omega) hle'
      obtain rfl := Option.some.inj (hatu.symm.trans hatu')
      exact habove u hu' (by omega)

theorem Topmost.before (h : c.Right) (hs : c.Allocated sheet) (hr : Reordered c c' sheet h0)
    (ht : D.Topmost c' x y i t) (hbelow : D.Covers c sheet x y → i < h0) :
    ∃ j, D.Topmost c x y j t := by
  obtain ⟨⟨halloc', rfl⟩, hdisplayed, hcovers, habove⟩ := (topmost_iff hr.right).1 ht
  have halloc : c.Allocated t := by
    rw [Allocated, ← (hr.places t).2.2]
    exact halloc'
  rw [SamePlaces.covers hr.places] at hcovers
  have habove' : ∀ u, c.Allocated u → (c'.sheets0 t).m_height < (c'.sheets0 u).m_height → ¬ D.Covers c u x y := by
    intro u hu hlt
    rw [← SamePlaces.covers hr.places]
    exact habove u (hr.places.allocated hu) hlt
  refine ⟨_, (topmost_iff h).2 ⟨⟨halloc, rfl⟩, ?_⟩⟩
  by_cases hts : t = sheet
  · subst hts
    obtain ⟨h0, hup⟩ := hr.itself hdisplayed (hbelow hcovers)
    refine ⟨h0, hcovers, fun u hu hlt => ?_⟩
    have hut : u ≠ t := by
      rintro rfl
      omega
    exact habove' u hu (hup u hut hu hlt)
  · have h0 := (hr.displayed t hts halloc).1 hdisplayed
    refine ⟨h0, hcovers, fun u hu hlt hcu => ?_⟩
    by_cases hus : u = sheet
    · subst hus
      exact habove' u hu (hr.below t hts halloc hdisplayed (hbelow hcu)) hcu
    · exact habove' u hu (hr.order t u hts hus halloc hu h0 hlt) hcu

/-- The sheet has no pixel in the last column of the screen. -/
def Clear (D : Display) (c : SkySheetController) (sheet : Fin MAX_SHEETS) : Prop :=
  ∀ y, 0 ≤ y → y < D.m_ysize → ¬ D.Covers c sheet (D.m_xsize - 1) y
  deriving Decidable

theorem Clear.painting (h : D.Clear c sheet) (hon : D.OnScreen x y) (hcovers : D.Covers c sheet x y) :
    D.Painting sheet (c.sheets0 sheet).m_vx0 (c.sheets0 sheet).m_vy0 x y := by
  have hlast : x ≠ D.m_xsize - 1 := by
    rintro rfl
    exact h y hon.2.1 hon.2.2 hcovers
  obtain ⟨buf, -, hx, hy, -⟩ := hcovers
  obtain ⟨hx', hy'⟩ := hon
  refine ⟨⟨?_, ?_⟩, ?_, ?_⟩ <;> omega

theorem Computes.of_reordered (h : D.Computes c sheet vx0 vy0) (hr : Reordered c c' sheet h0) :
    D.Computes c' sheet vx0 vy0 := by
  refine ⟨h.1, fun t ht => ?_⟩
  rw [Relative, (hr.places t).1, (hr.places t).2.1]
  refine h.2 t ?_
  by_cases hts : t = sheet
  · exact .inl hts
  · obtain ⟨hallocated, hdisplayed⟩ := ht.resolve_left hts
    rw [Allocated, (hr.places t).2.2] at hallocated
    exact .inr ⟨hallocated, (hr.displayed t hts hallocated).1 hdisplayed⟩

end Display

namespace Screen

/-- The map has the index of the topmost sheet, for every pixel that a displayed sheet covers. -/
def Shows (D : Display) (s : Screen) : Prop :=
  ∀ x y, D.OnScreen x y → ∀ h t, D.Topmost s.stack x y h t → s.m_map (D.at_ x y) = UInt8.ofNat t

variable {D : Display} {s : Screen} {sheet : Fin MAX_SHEETS}

theorem refreshFrom_self (h : Int) : refreshFrom h h = none := by
  simp [refreshFrom]

theorem updown_shows (h : s.stack.Right) (hs : s.stack.Allocated sheet)
    (hwithin : s.stack.WithinStack sheet height) (hshows : s.Shows D)
    (hsuits : s.stack.clamp height ≠ (s.stack.sheets0 sheet).m_height → D.Clear s.stack sheet ∧
      D.Computes s.stack sheet (s.stack.sheets0 sheet).m_vx0 (s.stack.sheets0 sheet).m_vy0) :
    ∃ s', s.Updown D sheet height = some s' ∧ s'.stack.Right ∧ s'.Shows D := by
  obtain ⟨c', hrun, hcase⟩ := h.reordered hs hwithin
  unfold Updown
  simp only [hrun, bind_eq_bind, bind_some]
  cases hfrom : refreshFrom (s.stack.sheets0 sheet).m_height (s.stack.clamp height) with
  | none =>
    rw [hfrom] at hcase
    obtain rfl := hcase
    exact ⟨s, rfl, h, hshows⟩
  | some h0 =>
    rw [hfrom] at hcase
    obtain ⟨hclear, hcomputes⟩ := hsuits fun heq => by
      rw [heq, refreshFrom_self] at hfrom
      cases hfrom
    obtain ⟨m', hrefresh, hmap⟩ := D.RefreshRect_spec hcase.right h0 hcase.from_ (hcomputes.of_reordered hcase) s.m_map
    refine ⟨⟨c', m'⟩, ?_, hcase.right, ?_⟩
    · simp only [(hcase.places sheet).1, (hcase.places sheet).2.1, hrefresh, bind_some]
    · intro x y hon i t ht
      obtain ⟨hpainted, hkept⟩ := hmap x y hon i t ht
      by_cases hin : D.Painting sheet (s.stack.sheets0 sheet).m_vx0 (s.stack.sheets0 sheet).m_vy0 x y ∧ h0 ≤ i
      · exact hpainted hin.1 hin.2
      · have hnot : D.Painting sheet (s.stack.sheets0 sheet).m_vx0 (s.stack.sheets0 sheet).m_vy0 x y → i < h0 :=
          fun hpaint => Int.not_le.1 fun hle => hin ⟨hpaint, hle⟩
        obtain ⟨j, hbefore⟩ := ht.before h hs hcase fun hcovers => hnot (hclear.painting hon hcovers)
        exact (hkept hnot).trans (hshows x y hon j t hbefore)

theorem slide_of_ne (c : SkySheetController) (vx0 vy0 : Int) (hne : t ≠ sheet) :
    (c.Slide sheet vx0 vy0).sheets0 t = c.sheets0 t := Function.update_of_ne hne ..

theorem slide_m_height (c : SkySheetController) (t : Fin MAX_SHEETS) (vx0 vy0 : Int) :
    ((c.Slide sheet vx0 vy0).sheets0 t).m_height = (c.sheets0 t).m_height := by
  by_cases ht : t = sheet
  · subst ht
    simp [SkySheetController.Slide]
  · rw [slide_of_ne c vx0 vy0 ht]

theorem slide_allocated (c : SkySheetController) (t : Fin MAX_SHEETS) (vx0 vy0 : Int) :
    (c.Slide sheet vx0 vy0).Allocated t ↔ c.Allocated t := by
  by_cases ht : t = sheet
  · subst ht
    simp [SkySheetController.Slide, Allocated]
  · rw [Allocated, Allocated, slide_of_ne c vx0 vy0 ht]

/-- Where a displayed sheet neither was nor is, the topmost sheet is the same as before it moved. -/
theorem topmost_of_slide {c : SkySheetController} (h : c.Right)
    (ht : D.Topmost (c.Slide sheet vx0 vy0) x y i t) (haway : 0 ≤ (c.sheets0 sheet).m_height →
      ¬ D.Covers c sheet x y ∧ ¬ D.Covers (c.Slide sheet vx0 vy0) sheet x y) : D.Topmost c x y i t := by
  have hsame : ∀ u, u ≠ sheet → (D.Covers (c.Slide sheet vx0 vy0) u x y ↔ D.Covers c u x y) := by
    intro u hu
    rw [Display.Covers, Display.Covers, slide_of_ne c vx0 vy0 hu]
  rw [Display.topmost_iff (h.slide sheet vx0 vy0)] at ht
  simp only [slide_allocated, slide_m_height] at ht
  obtain ⟨⟨halloc, hheight⟩, h0, hcovers, habove⟩ := ht
  have hts : t ≠ sheet := by
    rintro rfl
    exact (haway (by omega)).2 hcovers
  refine (Display.topmost_iff h).2 ⟨⟨halloc, hheight⟩, h0, (hsame t hts).1 hcovers, fun u hu hlt => ?_⟩
  by_cases hus : u = sheet
  · subst hus
    exact (haway (by omega)).1
  · rw [← hsame u hus]
    exact habove u hu hlt

theorem slide_shows (h : s.stack.Right) (hs : s.stack.Allocated sheet) (vx0 vy0 : Int) (hshows : s.Shows D)
    (hsuits : 0 ≤ (s.stack.sheets0 sheet).m_height →
      (D.Clear s.stack sheet ∧ D.Clear (s.stack.Slide sheet vx0 vy0) sheet) ∧
      D.Computes (s.stack.Slide sheet vx0 vy0) sheet (s.stack.sheets0 sheet).m_vx0 (s.stack.sheets0 sheet).m_vy0 ∧
      D.Computes (s.stack.Slide sheet vx0 vy0) sheet vx0 vy0) :
    ∃ s', s.Slide D sheet vx0 vy0 = some s' ∧ s'.stack.Right ∧ s'.Shows D := by
  have hright := h.slide sheet vx0 vy0
  unfold Slide
  dsimp only
  split
  · rename_i hdisplayed
    obtain ⟨⟨hclear, hclear'⟩, hold, hnew⟩ := hsuits hdisplayed
    have hle := h.le_top hs hdisplayed
    obtain ⟨m₁, hfirst, hmap₁⟩ := D.RefreshRect_spec hright 0 (by have := hright.top; omega) hold s.m_map
    obtain ⟨m', hsecond, hmap'⟩ := D.RefreshRect_spec hright (s.stack.sheets0 sheet).m_height
      ⟨hdisplayed, by change _ ≤ s.stack.m_sheetTop + 1; omega⟩ hnew m₁
    refine ⟨⟨s.stack.Slide sheet vx0 vy0, m'⟩, ?_, hright, ?_⟩
    · simp only [hfirst, hsecond, bind_eq_bind, bind_some]
    · intro x y hon i t ht
      change m' (D.at_ x y) = _
      obtain ⟨hpainted', hkept'⟩ := hmap' x y hon i t ht
      obtain ⟨hpainted, hkept⟩ := hmap₁ x y hon i t ht
      -- a sheet that covers the pixel now is painted there by the second call
      by_cases hin : D.Painting sheet vx0 vy0 x y ∧ (s.stack.sheets0 sheet).m_height ≤ i
      · exact hpainted' hin.1 hin.2
      have hnot : D.Painting sheet vx0 vy0 x y → i < (s.stack.sheets0 sheet).m_height :=
        fun hpaint => Int.not_le.1 fun hle => hin ⟨hpaint, hle⟩
      rw [hkept' hnot]
      by_cases hwas : D.Painting sheet (s.stack.sheets0 sheet).m_vx0 (s.stack.sheets0 sheet).m_vy0 x y
      · exact hpainted hwas ht.displayed.1
      rw [hkept fun hpaint => absurd hpaint hwas]
      refine hshows x y hon i t (topmost_of_slide h ht fun _ => ⟨fun hcovers => ?_, fun hcovers => ?_⟩)
      · exact hwas (hclear.painting hon hcovers)
      · have hplace : (s.stack.Slide sheet vx0 vy0).sheets0 sheet =
            { s.stack.sheets0 sheet with m_vx0 := vx0, m_vy0 := vy0 } := Function.update_self ..
        have hpaint := hclear'.painting hon hcovers
        rw [hplace] at hpaint
        have habove := ((Display.topmost_iff hright).1 ht).2.2.2 sheet ((slide_allocated ..).2 hs)
        rw [slide_m_height] at habove
        exact habove (hnot hpaint) hcovers
  · rename_i hhidden
    exact ⟨_, rfl, hright, fun x y hon i t ht =>
      hshows x y hon i t (topmost_of_slide h ht fun h0 => absurd h0 hhidden)⟩

end Screen

/-! ## Runs -/

inductive MapCall where
  | updown (sheet : Fin MAX_SHEETS) (height : Int)
  | slide (sheet : Fin MAX_SHEETS) (vx0 vy0 : Int)

namespace MapCall

def run (D : Display) (s : Screen) : MapCall → Option Screen
  | updown sheet height => s.Updown D sheet height
  | slide sheet vx0 vy0 => s.Slide D sheet vx0 vy0

def OnStack (s : Screen) : MapCall → Prop
  | updown sheet height => s.stack.Allocated sheet ∧ s.stack.WithinStack sheet height
  | slide sheet _ _ => s.stack.Allocated sheet

instance (s : Screen) : (call : MapCall) → Decidable (call.OnStack s)
  | updown sheet _ => inferInstanceAs (Decidable (s.stack.Allocated sheet ∧ (_ ∨ _)))
  | slide sheet _ _ => inferInstanceAs (Decidable (s.stack.Allocated sheet))

/-- The sheet of the call, if it is painted at all, has no pixel in the last column of the screen, neither where it was
nor where it is moved to, and nothing overflows. -/
def Suits (D : Display) (s : Screen) : MapCall → Prop
  | updown sheet height => s.stack.clamp height ≠ (s.stack.sheets0 sheet).m_height → D.Clear s.stack sheet ∧
      D.Computes s.stack sheet (s.stack.sheets0 sheet).m_vx0 (s.stack.sheets0 sheet).m_vy0
  | slide sheet vx0 vy0 => 0 ≤ (s.stack.sheets0 sheet).m_height →
      (D.Clear s.stack sheet ∧ D.Clear (s.stack.Slide sheet vx0 vy0) sheet) ∧
      D.Computes (s.stack.Slide sheet vx0 vy0) sheet (s.stack.sheets0 sheet).m_vx0 (s.stack.sheets0 sheet).m_vy0 ∧
      D.Computes (s.stack.Slide sheet vx0 vy0) sheet vx0 vy0

end MapCall

namespace Display

/-- It starts with an intact stack and a map that is right, as with no sheet displayed. -/
def system (D : Display) : StepSystem Screen MapCall where
  init s := s.stack.Right ∧ s.Shows D
  step s call := if call.OnStack s then call.run D s else none

theorem step_shows {D : Display} {s : Screen} (h : s.stack.Right) (hshows : s.Shows D) (call : MapCall)
    (hcall : call.OnStack s) (hsuits : call.Suits D s) :
    ∃ s', D.system.step s call = some s' ∧ s'.stack.Right ∧ s'.Shows D := by
  have hstep : D.system.step s call = call.run D s := if_pos hcall
  rw [hstep]
  cases call with
  | updown sheet height => exact Screen.updown_shows h hcall.1 hcall.2 hshows hsuits
  | slide sheet vx0 vy0 => exact Screen.slide_shows h hcall vx0 vy0 hshows hsuits

/-- **Every run whose calls suit the screen** leaves the map with the topmost sheet of every covered pixel; and from
there such a call accesses nothing outside, and leaves the map right again. -/
theorem map_shows {D : Display} {s : Screen} (hrun : D.system.ReachVia (fun s call => call.Suits D s) s) :
    s.Shows D ∧ ∀ call : MapCall, call.OnStack s → call.Suits D s →
      ∃ s', D.system.step s call = some s' ∧ s'.Shows D := by
  have hinv : s.stack.Right ∧ s.Shows D := by
    refine hrun.invariant (fun s => s.stack.Right ∧ s.Shows D) (fun _ h => h) ?_
    rintro s call s' ⟨h, hshows⟩ hsuits hs
    by_cases hcall : call.OnStack s
    · obtain ⟨s'', hs', hright, hshows'⟩ := step_shows h hshows call hcall hsuits
      obtain rfl := Option.some.inj (hs.symm.trans hs')
      exact ⟨hright, hshows'⟩
    · have hnone : D.system.step s call = none := if_neg hcall
      rw [hnone] at hs
      cases hs
  refine ⟨hinv.2, fun call hcall hsuits => ?_⟩
  obtain ⟨s', hs, -, hshows⟩ := step_shows hinv.1 hinv.2 call hcall hsuits
  exact ⟨s', hs, hshows⟩

instance (D : Display) (s : Screen) : (call : MapCall) → Decidable (call.Suits D s)
  | .updown .. => inferInstanceAs (Decidable (_ ≠ _ → _ ∧ D.Computes ..))
  | .slide .. => inferInstanceAs (Decidable (_ → (_ ∧ _) ∧ D.Computes .. ∧ D.Computes ..))

def hidden : Screen where
  stack := ⟨-1, fun _ => none, fun _ => ⟨0, 0, -1, SHEET_USE⟩⟩
  m_map _ := 255

theorem hidden_init (D : Display) : D.system.init hidden :=
  ⟨⟨by decide, by intro h h0 hle; change h ≤ -1 at hle; omega, fun _ _ => .inl rfl⟩,
    fun x y _ h t ht => by have := ht.displayed; change 0 ≤ h ∧ h ≤ -1 at this; omega⟩

/-- A screen of five columns and three rows, and sheets of two by two pixels. -/
def fiveByThree : Display where
  m_xsize := 5
  m_ysize := 3
  picture t := ⟨if t ≤ 1 then some fun _ => 1 else none, 2, 2, 0, by decide⟩
  sizes := by decide

def overlapping : List MapCall := [.updown 0 0, .updown 1 1, .slide 1 1 1]

theorem map_shows_overlapping : ∃ s, fiveByThree.system.exec hidden overlapping = some s ∧ s.Shows fiveByThree ∧
    (List.range 15).map (fun i => s.m_map i) = [0, 0, 255, 255, 255, 0, 1, 1, 255, 255, 255, 1, 1, 255, 255] := by
  have hmeets : fiveByThree.system.Meets (fun s call => call.Suits fiveByThree s) hidden overlapping := by decide +kernel
  have hrun : (fiveByThree.system.exec hidden overlapping).map (fun s => (List.range 15).map fun i : Nat => s.m_map i) =
      some [0, 0, 255, 255, 255, 0, 1, 1, 255, 255, 255, 1, 1, 255, 255] := by decide +kernel
  obtain ⟨s, hs, hmap⟩ := Option.map_eq_some_iff.1 hrun
  exact ⟨s, hs, (map_shows (StepSystem.reachVia_exec _ (.init (hidden_init _)) hmeets hs)).1, hmap⟩

def threeByTwo : Display where
  m_xsize := 3
  m_ysize := 2
  picture t := ⟨if t ≤ 1 then some fun _ => 1 else none, if t = 1 then 3 else 2, 1, 0, by split <;> decide⟩
  sizes := by decide

/-- Sheet 1 is as wide as the screen, and the last pixel of the row is not painted. -/
theorem last_column_left_out : ¬ ∀ s, threeByTwo.system.Reach s → s.Shows threeByTwo := by
  intro h
  have hrun : (threeByTwo.system.exec hidden [.updown 1 0]).map (fun s => decide (s.m_map 2 = 255 ∧
      s.stack.m_pSheets 0 = some 1 ∧ s.stack.m_sheetTop = 0 ∧ (s.stack.sheets0 1).m_vx0 = 0 ∧
      (s.stack.sheets0 1).m_vy0 = 0)) = some true := by
    decide +kernel
  obtain ⟨s, hs, hfacts⟩ := Option.map_eq_some_iff.1 hrun
  obtain ⟨hmap, hat, htop, hvx, hvy⟩ := of_decide_eq_true hfacts
  have hcovers : threeByTwo.Covers s.stack 1 2 0 :=
    ⟨fun _ => 1, rfl, by rw [hvx]; decide, by rw [hvy]; decide, by change ((1 : Nat) : Int) ≠ 0; decide⟩
  have hseen : s.m_map 2 = 1 := h s (StepSystem.reach_exec _ (.init (hidden_init _)) hs) 2 0 ⟨by decide, by decide⟩ 0 1
    ⟨by omega, hat, hcovers, fun h' _ _ => by omega⟩
  rw [hmap] at hseen
  cases hseen

end Display

end Gui
