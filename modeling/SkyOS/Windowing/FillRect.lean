import Mathlib.Data.List.ProdSigma
import Mathlib.Data.List.Range
import Mathlib.Tactic.Ring
import SkyOS.Windowing.DisjointRects
import SkyOS.Windowing.Surface

/-!
# Clipped rectangles (`GraphicsContext::fillRect`, `WindowingSystem/GraphicsContext.cpp:206`)

A rectangle is moved by the origin, cut to each rectangle of the clip region that it meets, and filled line by line.
The corners may come in any order: `Region::clip` and `RectClipper` both put them in order. They are moved in `int`
arithmetic, so near the ends of its range the rectangle that is filled is another one.

| here | there |
| --- | --- |
| `clipper` | `RectClipper::operator()` |
| `moved` | the corners, moved by the origin and put in order |
| `none` | an assertion that fails |
-/

namespace Windowing

open Machine List

/-! ## The code -/

/-- The loop over `x` (`Rasterizer24bpp.cpp:126`), with `ptr` behind the line. -/
def rowLoop (color : Int) : Nat → Int → Drawing → Int × Drawing
  | 0, ptr, d => (ptr, d)
  | rounds + 1, ptr, d => rowLoop color rounds (ptr + 3) (d.store ptr color)

/-- The loop over `y` (:125). -/
def rowsLoop (color wrap : Int) (width : Nat) : Nat → Int → Drawing → Drawing
  | 0, _, d => d
  | rounds + 1, ptr, d =>
    let (ptr, d) := rowLoop color width ptr d
    rowsLoop color wrap width rounds (ptr + wrap) d

/-- `Rasterizer24bpp::fillRect` (:109). -/
def fillRect (s : Surface) (x1 y1 x2 y2 color : Int) (d : Drawing) : Option Drawing :=
  if (((x1 ≥ 0 ∧ x1 ≤ s.width) ∧ x2 ≥ 0 ∧ x2 ≤ s.width) ∧ (y1 ≥ 0 ∧ y1 ≤ s.height) ∧ y2 ≥ 0 ∧ y2 ≤ s.height) ∧
      x2 ≥ x1 ∧ y2 ≥ y1 then
    some (rowsLoop color (s.stride - ((x2 - x1) + 1) * 3) (x2 - x1 + 1).toNat (y2 - y1 + 1).toNat
      (s.bits + x1 * 3 + y1 * s.stride) d)
  else none

structure RectClipper where
  fX1 : Int
  fY1 : Int
  fX2 : Int
  fY2 : Int

namespace RectClipper

/-- The constructor (`GraphicsContext.cpp:86`), which swaps. -/
def make (x1 y1 x2 y2 : Int) : RectClipper where
  fX1 := if x1 > x2 then x2 else x1
  fX2 := if x1 > x2 then x1 else x2
  fY1 := if y1 > y2 then y2 else y1
  fY2 := if y1 > y2 then y1 else y2

/-- `operator()` (:273). -/
def clipper (c : RectClipper) (s : Surface) (color : Int) (d : Drawing) (rect : Rect) : Option Drawing :=
  let clipleft := max c.fX1 rect.left
  let cliptop := max c.fY1 rect.top
  let clipright := min c.fX2 rect.right
  let clipbottom := min c.fY2 rect.bottom
  if clipright ≥ clipleft ∧ clipbottom ≥ cliptop then fillRect s clipleft cliptop clipright clipbottom color d
  else some d

end RectClipper

structure GraphicsContext where
  fSurface : Surface
  fClipRegion : Region
  fCurrentColor : Int
  fXOrigin : Int
  fYOrigin : Int

/-- `GraphicsContext::fillRect` (:206). -/
def GraphicsContext.fillRect (gc : GraphicsContext) (x1 y1 x2 y2 : Int) (d : Drawing) : Option Drawing :=
  let globalX1 := toInt32 (x1 + gc.fXOrigin)
  let globalY1 := toInt32 (y1 + gc.fYOrigin)
  let globalX2 := toInt32 (x2 + gc.fXOrigin)
  let globalY2 := toInt32 (y2 + gc.fYOrigin)
  (gc.fClipRegion.clip globalX1 globalY1 globalX2 globalY2).foldlM
    ((RectClipper.make globalX1 globalY1 globalX2 globalY2).clipper gc.fSurface gc.fCurrentColor) d

/-! ## One rectangle -/

/-- The pixels of a line from the `k`-th on, and those of a rectangle from line `l` on, as they are stored. -/
def rowPixels (x y : Int) (k width : Nat) : List (Int × Int) := (List.range' k width).map fun j : Nat => (x + j, y)

def rectPixels (x y : Int) (width l height : Nat) : List (Int × Int) :=
  (List.range' l height).flatMap fun j : Nat => rowPixels x (y + j) 0 width

variable {s : Surface} {color : Int}

theorem rowLoop_eq (s : Surface) (color x y : Int) (rounds : Nat) : ∀ (k : Nat) (d : Drawing),
    rowLoop color rounds (s.addr (x + k) y) d =
      (s.addr (x + (k + rounds : Nat)) y, d.pixels s color (rowPixels x y k rounds)) := by
  induction rounds with
  | zero => exact fun k d => rfl
  | succ rounds ih =>
    intro k d
    have hstep : s.addr (x + k) y + 3 = s.addr (x + (k + 1 : Nat)) y := by
      unfold Surface.addr
      push_cast
      ring
    rw [rowLoop, hstep, ih, rowPixels, rowPixels, List.range'_succ, map_cons, Drawing.pixels_cons,
      Nat.succ_add_eq_add_succ]

theorem rowsLoop_eq (s : Surface) (color x y : Int) {wrap : Int} (width : Nat) (hwrap : wrap = s.stride - width * 3)
    (rounds : Nat) : ∀ (l : Nat) (d : Drawing), rowsLoop color wrap width rounds (s.addr x (y + l)) d =
      d.pixels s color (rectPixels x y width l rounds) := by
  induction rounds with
  | zero => exact fun l d => rfl
  | succ rounds ih =>
    intro l d
    have hrow := rowLoop_eq s color x (y + l) width 0 d
    have hstep : s.addr (x + (0 + width : Nat)) (y + l) + wrap = s.addr x (y + (l + 1 : Nat)) := by
      rw [hwrap]
      unfold Surface.addr
      push_cast
      ring
    rw [Nat.cast_zero, Int.add_zero] at hrow
    rw [rowsLoop, hrow]
    simp only
    rw [hstep, ih, rectPixels, rectPixels, List.range'_succ, flatMap_cons, Drawing.pixels_append]

theorem nodup_rectPixels (x y : Int) (width height : Nat) : (rectPixels x y width 0 height).Nodup := by
  unfold rectPixels rowPixels
  rw [nodup_flatMap]
  constructor
  · intro l _
    refine List.Nodup.map (fun j k h => ?_) nodup_range'
    simp only [Prod.mk.injEq, and_true] at h
    omega
  · refine List.Pairwise.imp ?_ (nodup_range' (s := 0) (n := height))
    intro j k hjk p hp hp'
    simp only [mem_map] at hp hp'
    obtain ⟨i, -, rfl⟩ := hp
    obtain ⟨i', -, hsame⟩ := hp'
    simp only [Prod.mk.injEq] at hsame
    omega

def Rect.pixels (rect : Rect) : List (Int × Int) :=
  rectPixels rect.left rect.top (rect.right - rect.left + 1).toNat 0 (rect.bottom - rect.top + 1).toNat

variable {rect : Rect} {x1 y1 x2 y2 : Int}

variable {p : Int × Int} {region : Region}

theorem Rect.mem_pixels (hvalid : rect.valid = true) :
    p ∈ rect.pixels ↔ rect.contains p.1 p.2 = true := by
  simp only [Rect.valid_iff] at hvalid
  simp only [Rect.pixels, rectPixels, rowPixels, mem_flatMap, mem_map, mem_range'_1, Rect.contains_iff]
  constructor
  · rintro ⟨l, hl, k, hk, rfl⟩
    simp only
    omega
  · rintro ⟨hx, hy⟩
    refine ⟨(p.2 - rect.top).toNat, by omega, (p.1 - rect.left).toNat, by omega, Prod.ext ?_ ?_⟩
    · simp only
      omega
    · simp only
      omega

def Rect.Within (rect : Rect) (s : Surface) : Prop :=
  rect.valid = true ∧ (0 ≤ rect.left ∧ rect.right < s.width) ∧ 0 ≤ rect.top ∧ rect.bottom < s.height
  deriving Decidable

theorem fillRect_eq (h : rect.Within s) (d : Drawing) :
    fillRect s rect.left rect.top rect.right rect.bottom color d = some (d.pixels s color rect.pixels) := by
  obtain ⟨hvalid, hx, hy⟩ := h
  simp only [Rect.valid_iff] at hvalid
  have hrows := @rowsLoop_eq s color rect.left rect.top (s.stride - ((rect.right - rect.left) + 1) * 3)
    (rect.right - rect.left + 1).toNat (by omega) (rect.bottom - rect.top + 1).toNat 0 d
  rw [Nat.cast_zero, Int.add_zero] at hrows
  rw [fillRect, if_pos (by omega), Rect.pixels, ← hrows]
  rfl

/-! ## All rectangles of the clip region -/

def Rect.span (x1 y1 x2 y2 : Int) : Rect := ⟨min x1 x2, min y1 y2, max x1 x2, max y1 y2⟩

theorem clipper_eq (hin : rect.Within s)
    (hmeet : rect.intersects (Rect.span x1 y1 x2 y2) = true) (d : Drawing) :
    (RectClipper.make x1 y1 x2 y2).clipper s color d rect =
      some (d.pixels s color ((Rect.span x1 y1 x2 y2).intersect rect).pixels) := by
  obtain ⟨hvalid, hx, hy⟩ := hin
  have hcut : ((Rect.span x1 y1 x2 y2).intersect rect).Within s := by
    rw [Rect.intersects_iff] at hmeet
    simp only [Rect.Within, Rect.valid_iff, Rect.intersect, Rect.span] at hmeet hvalid ⊢
    omega
  have hfill : fillRect s _ _ _ _ color d = _ := fillRect_eq hcut d
  have hbound := hcut.1
  have hcorners : RectClipper.make x1 y1 x2 y2 = ⟨min x1 x2, min y1 y2, max x1 x2, max y1 y2⟩ := by
    simp only [RectClipper.make, RectClipper.mk.injEq]
    refine ⟨?_, ?_, ?_, ?_⟩ <;> split <;> omega
  simp only [Rect.valid_iff] at hbound
  rw [hcorners, RectClipper.clipper]
  exact (if_pos hbound).trans hfill

theorem foldlM_clipper (rects : List Rect) : ∀ d : Drawing, (∀ rect ∈ rects, rect.Within s ∧
    rect.intersects (Rect.span x1 y1 x2 y2) = true) →
      rects.foldlM ((RectClipper.make x1 y1 x2 y2).clipper s color) d =
        some (d.pixels s color (rects.flatMap fun rect => ((Rect.span x1 y1 x2 y2).intersect rect).pixels)) := by
  induction rects with
  | nil => exact fun d _ => rfl
  | cons rect rects ih =>
    intro d hrects
    obtain ⟨hin, hmeet⟩ := hrects rect (.head _)
    rw [foldlM_cons, clipper_eq hin hmeet, flatMap_cons, Drawing.pixels_append]
    exact ih _ fun rect' h => hrects rect' (mem_cons_of_mem rect h)

def clippedPixels (moved : Rect) (region : Region) : List (Int × Int) :=
  (region.filter fun rect => rect.intersects moved).flatMap fun rect => (moved.intersect rect).pixels

theorem intersect_valid {moved : Rect} (hmoved : moved.valid = true) (hvalid : rect.valid = true)
    (hmeet : rect.intersects moved = true) : (moved.intersect rect).valid = true := by
  rw [Rect.intersects_iff] at hmeet
  simp only [Rect.valid_iff, Rect.intersect] at hmoved hvalid ⊢
  omega

theorem mem_clippedPixels {moved : Rect} (hmoved : moved.valid = true)
    (hvalid : ∀ rect ∈ region, rect.valid = true) :
    p ∈ clippedPixels moved region ↔ moved.contains p.1 p.2 = true ∧ region.contains p.1 p.2 = true := by
  simp only [clippedPixels, mem_flatMap, mem_filter, Region.contains, any_eq_true]
  constructor
  · rintro ⟨rect, ⟨hrect, hmeet⟩, hp⟩
    rw [Rect.mem_pixels (intersect_valid hmoved (hvalid rect hrect) hmeet)] at hp
    obtain ⟨hin, hin'⟩ := Rect.contains_intersect.1 hp
    exact ⟨hin, rect, hrect, hin'⟩
  · rintro ⟨hin, rect, hrect, hin'⟩
    have hmeet := Rect.intersects_of_contains hin' hin
    refine ⟨rect, ⟨hrect, hmeet⟩, ?_⟩
    rw [Rect.mem_pixels (intersect_valid hmoved (hvalid rect hrect) hmeet)]
    exact Rect.contains_intersect.2 ⟨hin, hin'⟩

theorem nodup_clippedPixels {moved : Rect} (hmoved : moved.valid = true) (h : region.Right) :
    (clippedPixels moved region).Nodup := by
  rw [clippedPixels, nodup_flatMap]
  refine ⟨fun rect _ => nodup_rectPixels _ _ _ _, ?_⟩
  have hpairs := h.disjoint.filter fun rect => rect.intersects moved
  refine hpairs.imp_of_mem fun {a b} ha hb hapart p hp hp' => ?_
  have hvalid : ∀ {rect : Rect}, rect ∈ region.filter (fun rect => rect.intersects moved) →
      (moved.intersect rect).valid = true := fun hrect =>
    intersect_valid hmoved (h.valid _ (mem_filter.1 hrect).1) (mem_filter.1 hrect).2
  rw [Rect.mem_pixels (hvalid ha)] at hp
  rw [Rect.mem_pixels (hvalid hb)] at hp'
  exact hapart p.1 p.2 ⟨(Rect.contains_intersect.1 hp).2, (Rect.contains_intersect.1 hp').2⟩

/-! ## The whole function -/

structure Filled (s : Surface) (color : Int) (pixels : Set (Int × Int)) (mem : Bits) (d : Drawing) : Prop where
  once : d.stored.Nodup
  stored : ∀ a, a ∈ d.stored ↔ ∃ p ∈ pixels, a = s.addr p.1 p.2
  painted : Painted s color pixels mem d.mem

namespace GraphicsContext

def moved (gc : GraphicsContext) (x1 y1 x2 y2 : Int) : Rect :=
  Rect.span (toInt32 (x1 + gc.fXOrigin)) (toInt32 (y1 + gc.fYOrigin)) (toInt32 (x2 + gc.fXOrigin))
    (toInt32 (y2 + gc.fYOrigin))

theorem moved_eq {gc : GraphicsContext}
    (hx : IsInt32 (x1 + gc.fXOrigin) ∧ IsInt32 (x2 + gc.fXOrigin))
    (hy : IsInt32 (y1 + gc.fYOrigin) ∧ IsInt32 (y2 + gc.fYOrigin)) : gc.moved x1 y1 x2 y2 =
      Rect.span (x1 + gc.fXOrigin) (y1 + gc.fYOrigin) (x2 + gc.fXOrigin) (y2 + gc.fYOrigin) := by
  rw [moved, toInt32_of_isInt32 hx.1, toInt32_of_isInt32 hx.2, toInt32_of_isInt32 hy.1, toInt32_of_isInt32 hy.2]

structure Clips (gc : GraphicsContext) : Prop where
  right : gc.fClipRegion.Right
  within : ∀ rect ∈ gc.fClipRegion, rect.Within gc.fSurface

/-- **Filling.** What is filled is the rectangle in `int` arithmetic: the moved one, unless a sum leaves `int`. -/
theorem fillRect_filled {gc : GraphicsContext} (h : gc.Clips) (x1 y1 x2 y2 : Int) (mem : Bits) :
    ∃ d, gc.fillRect x1 y1 x2 y2 ⟨mem, []⟩ = some d ∧ Filled gc.fSurface gc.fCurrentColor
        {p | (gc.moved x1 y1 x2 y2).contains p.1 p.2 = true ∧ gc.fClipRegion.contains p.1 p.2 = true} mem d ∧
      (IsInt32 (x1 + gc.fXOrigin) ∧ IsInt32 (x2 + gc.fXOrigin) →
        IsInt32 (y1 + gc.fYOrigin) ∧ IsInt32 (y2 + gc.fYOrigin) → gc.moved x1 y1 x2 y2 =
          Rect.span (x1 + gc.fXOrigin) (y1 + gc.fYOrigin) (x2 + gc.fXOrigin) (y2 + gc.fYOrigin)) := by
  have hmoved : (gc.moved x1 y1 x2 y2).valid = true := by
    simp only [moved, Rect.span, Rect.valid_iff]
    omega
  have hmem : ∀ p, p ∈ clippedPixels (gc.moved x1 y1 x2 y2) gc.fClipRegion ↔ _ := fun p =>
    mem_clippedPixels hmoved h.right.valid
  have hin : ∀ p ∈ clippedPixels (gc.moved x1 y1 x2 y2) gc.fClipRegion, 0 ≤ p.1 ∧ p.1 < gc.fSurface.width := by
    intro p hp
    obtain ⟨rect, hrect, hcontains⟩ := List.any_eq_true.1 ((hmem p).1 hp).2
    obtain ⟨-, hx, -⟩ := h.within rect hrect
    rw [Rect.contains_iff] at hcontains
    omega
  refine ⟨Drawing.pixels gc.fSurface gc.fCurrentColor (clippedPixels (gc.moved x1 y1 x2 y2) gc.fClipRegion) ⟨mem, []⟩,
    ?_, ?_, fun hx hy => moved_eq hx hy⟩
  · refine foldlM_clipper _ _ fun rect hrect => ?_
    obtain ⟨hrect, hmeet⟩ := List.mem_filter.1 hrect
    exact ⟨h.within rect hrect, hmeet⟩
  · have hpixels : {p | (gc.moved x1 y1 x2 y2).contains p.1 p.2 = true ∧ gc.fClipRegion.contains p.1 p.2 = true} =
        {p | p ∈ clippedPixels (gc.moved x1 y1 x2 y2) gc.fClipRegion} := Set.ext fun p => (hmem p).symm
    rw [hpixels]
    refine ⟨Drawing.nodup_stored hin (nodup_clippedPixels hmoved h.right) mem, fun a => ?_,
      Drawing.painted_pixels ⟨mem, []⟩ hin⟩
    rw [Drawing.stored_pixels, List.append_nil, List.mem_reverse, List.mem_map]
    simp only [Set.mem_ofPred_eq, eq_comm]

def eightByEightContext : GraphicsContext := ⟨eightByEight, [⟨0, 0, 3, 7⟩, ⟨4, 2, 7, 7⟩], 0xff, 1, 0⟩

theorem clips_eightByEight : eightByEightContext.Clips := by
  refine ⟨⟨by decide, pairwise_pair.2 fun x y => ?_⟩, by decide⟩
  simp only [Rect.contains_iff]
  omega

theorem fillRect_filled_corners : ∃ d, eightByEightContext.fillRect 5 6 1 1 ⟨black, []⟩ = some d ∧
    Filled eightByEight 0xff {p | (Rect.span 6 6 2 1).contains p.1 p.2 = true ∧
      eightByEightContext.fClipRegion.contains p.1 p.2 = true} black d := by
  obtain ⟨d, hd, hfilled, hmoved⟩ := fillRect_filled clips_eightByEight 5 6 1 1 black
  rw [hmoved (by decide) (by decide)] at hfilled
  exact ⟨d, hd, hfilled⟩

/-- **A corner at the end of `int`**, moved to the other end: the columns on the wrong side of the other corner are
filled. -/
theorem fillRect_wraps : eightByEightContext.Clips ∧
    ¬ ∃ d, eightByEightContext.fillRect 0x7fffffff 0 2 0 ⟨black, []⟩ = some d ∧
      Filled eightByEight 0xff {p | (Rect.span (0x7fffffff + 1) (0 + 0) (2 + 1) (0 + 0)).contains p.1 p.2 = true ∧
        eightByEightContext.fClipRegion.contains p.1 p.2 = true} black d := by
  refine ⟨clips_eightByEight, ?_⟩
  rintro ⟨d, hd, hfilled⟩
  have hstored : (eightByEightContext.fillRect 0x7fffffff 0 2 0 ⟨black, []⟩).map Drawing.stored =
      some [0x1009, 0x1006, 0x1003, 0x1000] := rfl
  rw [hd, Option.map_some] at hstored
  have hfirst : (0x1000 : Int) ∈ d.stored := by
    rw [Option.some.inj hstored]
    decide
  obtain ⟨p, ⟨hp, -⟩, haddr⟩ := (hfilled.stored _).1 hfirst
  simp only [Rect.span, Rect.contains_iff, Surface.addr, eightByEight] at hp haddr
  omega

end GraphicsContext

end Windowing
