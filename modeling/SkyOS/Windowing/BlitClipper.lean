import SkyOS.Windowing.UnscaledBlit

/-!
# Copying through the clip region (`GraphicsContext::blit`, `WindowingSystem/GraphicsContext.cpp:225`)

Each rectangle of the clip region that meets the destination makes a piece, which is copied by a call of its own from
the rectangle of the source that belongs to it. Where the copy is scaled, the corners of that rectangle are computed by
an integer division, from the start of the surface and not of the source rectangle.

| here | there |
| --- | --- |
| `sourceX`, `sourceY` | `( destLeft - fDestRect.left ) * fSourceRect.width() / fDestRect.width()` and its like |
| `none` | an `int` that overflows, and what `Surface.blit` fails at |
| `pieceSource` | the arguments of `blit` in `StretchBlitClipper` that are of the source |
-/

namespace Windowing

open Machine BlockMoves List Int

/-! ## The code -/

/-- `BlitClipper::operator()` (:337). -/
def blitClipper (fDestination : Surface) (fSource : Source) (fSourceLeft fSourceTop : Int) (fDestRect : Rect)
    (mem : Bits) (rect : Rect) : Option Bits :=
  let destLeft := max fDestRect.left rect.left
  let destTop := max fDestRect.top rect.top
  let destRight := min fDestRect.right rect.right
  let destBottom := min fDestRect.bottom rect.bottom
  let sourceLeft := fSourceLeft + (destLeft - fDestRect.left)
  let sourceTop := fSourceTop + (destTop - fDestRect.top)
  let sourceRight := sourceLeft + (destRight - destLeft)
  let sourceBottom := sourceTop + (destBottom - destTop)
  if ∀ i ∈ [destLeft - fDestRect.left, sourceLeft, destTop - fDestRect.top, sourceTop, destRight - destLeft,
      sourceRight, destBottom - destTop, sourceBottom], IsInt32 i then
    if destRight ≥ destLeft ∧ destBottom ≥ destTop then
      fDestination.blit fSource ⟨sourceLeft, sourceTop, sourceRight, sourceBottom⟩
        ⟨destLeft, destTop, destRight, destBottom⟩ mem
    else some mem
  else none

/-- `( x - start ) * fromSize / toSize`. -/
def scale (fromSize toSize start x : Int) : Int := ((x - start) * fromSize).tdiv toSize

/-- The column and the line of the source for those of the destination (:364-:371). -/
def sourceX (fSourceRect fDestRect : Rect) : Int → Int :=
  scale (fSourceRect.right - fSourceRect.left + 1) (fDestRect.right - fDestRect.left + 1) fDestRect.left

def sourceY (fSourceRect fDestRect : Rect) : Int → Int :=
  scale (fSourceRect.bottom - fSourceRect.top + 1) (fDestRect.bottom - fDestRect.top + 1) fDestRect.top

def pieceSource (fSourceRect fDestRect piece : Rect) : Rect where
  left := sourceX fSourceRect fDestRect piece.left
  right := sourceX fSourceRect fDestRect piece.right
  top := sourceY fSourceRect fDestRect piece.top
  bottom := sourceY fSourceRect fDestRect piece.bottom

/-- What it takes in `int`: both sizes of an axis, and both ends of the piece. -/
def scaleInts (fromStart fromEnd toStart toEnd x x' : Int) : List Int :=
  [fromEnd - fromStart, fromEnd - fromStart + 1, toEnd - toStart, toEnd - toStart + 1,
    x - toStart, (x - toStart) * (fromEnd - fromStart + 1), x' - toStart, (x' - toStart) * (fromEnd - fromStart + 1)]

def pieceInts (fSourceRect fDestRect piece : Rect) : List Int :=
  scaleInts fSourceRect.left fSourceRect.right fDestRect.left fDestRect.right piece.left piece.right ++
    scaleInts fSourceRect.top fSourceRect.bottom fDestRect.top fDestRect.bottom piece.top piece.bottom

/-- `StretchBlitClipper::operator()` (:357). -/
def stretchBlitClipper (fDestination : Surface) (fSource : Source) (fSourceRect fDestRect : Rect) (mem : Bits)
    (rect : Rect) : Option Bits :=
  let piece := fDestRect.intersect rect
  if piece.right ≥ piece.left ∧ piece.bottom ≥ piece.top then
    if ∀ i ∈ pieceInts fSourceRect fDestRect piece, IsInt32 i then
      fDestination.blit fSource (pieceSource fSourceRect fDestRect piece) piece mem
    else none
  else some mem

/-- The differences that are compared (:230). -/
def sizeInts (src dst : Rect) : List Int :=
  [src.right - src.left, dst.right - dst.left] ++
    if src.right - src.left = dst.right - dst.left then [src.bottom - src.top, dst.bottom - dst.top] else []

/-- `GraphicsContext::blit` (:225). -/
def GraphicsContext.blit (gc : GraphicsContext) (source : Source) (src dst : Rect) (mem : Bits) : Option Bits :=
  let dest := dst.offsetBy gc.fXOrigin gc.fYOrigin
  let calls := gc.fClipRegion.clip dest.left dest.top dest.right dest.bottom
  if ∀ i ∈ sizeInts src dst, IsInt32 i then
    if Surface.SameSize src dst then calls.foldlM (blitClipper gc.fSurface source src.left src.top dest) mem
    else if dest.right > dest.left ∧ dest.bottom > dest.top then
      calls.foldlM (stretchBlitClipper gc.fSurface source src dest) mem
    else some mem
  else none

/-! ## One call -/

namespace Surface

variable {s t : Surface} {src dst : Rect}

/-- As the memory of a surface is allocated by a size in `int`. -/
def Sized (s : Surface) : Prop := s.height * s.stride < 2 ^ 31

theorem fixed_of_within (h : dst.Within s) : s.fixed dst = dst := by
  obtain ⟨-, hx, hy⟩ := h
  unfold fixed
  rw [if_neg (by omega), if_neg (by omega), if_neg (by omega), if_neg (by omega)]

theorem isInt32_of_within (hs : s.Sized) (h : dst.Within s) : IsInt32 (dst.left * 3) ∧ IsInt32 (dst.top * s.stride) ∧
    (0 ≤ s.stride ∧ s.stride < 2 ^ 31) ∧ s.width * 3 < 2 ^ 31 ∧ s.height < 2 ^ 31 := by
  obtain ⟨hvalid, hx, hy⟩ := h
  have hfits := s.fits
  simp only [Rect.valid_iff] at hvalid
  unfold Sized at hs
  have hline : dst.top * s.stride ≤ s.height * s.stride := mul_le_mul_of_nonneg_right (by omega) (by omega)
  have hnonneg : 0 ≤ dst.top * s.stride := mul_nonneg hy.1 (by omega)
  have hstride : s.stride ≤ s.height * s.stride := le_mul_of_one_le_left (by omega) (by omega)
  have hheight : s.height ≤ s.height * s.stride := le_mul_of_one_le_right (by omega) (by omega)
  unfold IsInt32
  omega

/-- **Within both surfaces** there is nothing to cut and no way to fail. -/
theorem blit_of_within (hcolor : t.colorSpace = s.colorSpace) (hs : s.Sized) (ht : t.Sized) (hsrc : src.Within t)
    (hdst : dst.Within s) (mem : Bits) :
    s.blit (.other t) src dst mem = some fun a => mem (trace (s.movesFrom t src dst) a) := by
  have hints : ∀ i ∈ (Source.other t).ints s src dst, IsInt32 i := by
    obtain ⟨hleft, htop, hstride, hwidth, hheight⟩ := isInt32_of_within hs hdst
    obtain ⟨hleft', htop', hstride', hwidth', hheight'⟩ := isInt32_of_within ht hsrc
    rw [Source.ints, fixed_of_within hdst, fixed_of_within hsrc, fromInts, forall_mem_append]
    obtain ⟨hvalid, hx, hy⟩ := hdst
    obtain ⟨hvalid', hx', hy'⟩ := hsrc
    simp only [Rect.valid_iff] at hvalid hvalid'
    unfold IsInt32 at *
    constructor
    · simp only [forall_mem_cons, not_mem_nil, false_imp_iff, implies_true, and_true]
      omega
    · rw [if_pos hvalid.2]
      split
      · simp only [forall_mem_cons, not_mem_nil, false_imp_iff, implies_true, and_true]
        omega
      · simp only [forall_mem_cons, not_mem_nil, false_imp_iff, implies_true, and_true]
        omega
  rw [@Source.blit_eq s (.other t) hcolor, if_pos hints, Source.moves, fixed_of_within hdst, fixed_of_within hsrc,
    run_eq]
  exact if_pos (allowed_movesFrom hsrc hdst)

end Surface

/-! ## The rectangle of the source -/

variable {fromSize toSize start x k : Int} {p : Int × Int} {rect : Rect}

theorem scale_eq_ediv (hfrom : 0 ≤ fromSize) (hx : start ≤ x) :
    scale fromSize toSize start x = (x - start) * fromSize / toSize :=
  tdiv_eq_ediv_of_nonneg (mul_nonneg (by omega) hfrom)

theorem scale_nonneg (hfrom : 0 ≤ fromSize) (hto : 0 < toSize) (hx : start ≤ x) :
    0 ≤ scale fromSize toSize start x := by
  rw [scale_eq_ediv hfrom hx]
  exact ediv_nonneg (mul_nonneg (by omega) hfrom) hto.le

theorem scale_lt {fromSize toSize start x : Int} (hfrom : 0 < fromSize) (hx : start ≤ x) (hx' : x < start + toSize) :
    scale fromSize toSize start x < fromSize := by
  rw [scale_eq_ediv hfrom.le hx]
  refine Int.ediv_lt_of_lt_mul (by omega) ?_
  rw [Int.mul_comm fromSize]
  exact mul_lt_mul_of_pos_right (by omega) hfrom

theorem scale_le_scale {x' : Int} (hfrom : 0 ≤ fromSize) (hto : 0 < toSize) (hx : start ≤ x)
    (hle : x ≤ x') : scale fromSize toSize start x ≤ scale fromSize toSize start x' := by
  rw [scale_eq_ediv hfrom hx, scale_eq_ediv hfrom (hx.trans hle)]
  exact Int.ediv_le_ediv hto (mul_le_mul_of_nonneg_right (by omega) hfrom)

section

variable {s t : Surface} {src dest piece : Rect}

/-- The columns of the source are those of a surface as wide as the source rectangle, and go with those of the
destination. -/
theorem sourceX_spec (hsrc : src.valid = true) {x : Int} (hx : dest.left ≤ x ∧ x ≤ dest.right) :
    0 ≤ sourceX src dest x ∧ sourceX src dest x ≤ src.right - src.left := by
  simp only [Rect.valid_iff] at hsrc
  have hlt := @scale_lt (src.right - src.left + 1) (dest.right - dest.left + 1) dest.left x (by omega) hx.1 (by omega)
  exact ⟨scale_nonneg (by omega) (by omega) hx.1, by unfold sourceX; omega⟩

theorem sourceY_spec (hsrc : src.valid = true) {y : Int} (hy : dest.top ≤ y ∧ y ≤ dest.bottom) :
    0 ≤ sourceY src dest y ∧ sourceY src dest y ≤ src.bottom - src.top := by
  simp only [Rect.valid_iff] at hsrc
  have hlt := @scale_lt (src.bottom - src.top + 1) (dest.bottom - dest.top + 1) dest.top y (by omega) hy.1 (by omega)
  exact ⟨scale_nonneg (by omega) (by omega) hy.1, by unfold sourceY; omega⟩

theorem sourceX_le (hsrc : src.valid = true) {x x' : Int} (hx : dest.left ≤ x ∧ x ≤ dest.right) (hle : x ≤ x') :
    sourceX src dest x ≤ sourceX src dest x' := by
  simp only [Rect.valid_iff] at hsrc
  exact scale_le_scale (by omega) (by omega) hx.1 hle

theorem sourceY_le (hsrc : src.valid = true) {y y' : Int} (hy : dest.top ≤ y ∧ y ≤ dest.bottom) (hle : y ≤ y') :
    sourceY src dest y ≤ sourceY src dest y' := by
  simp only [Rect.valid_iff] at hsrc
  exact scale_le_scale (by omega) (by omega) hy.1 hle

def Part (dest piece : Rect) : Prop :=
  piece.valid = true ∧ (dest.left ≤ piece.left ∧ piece.right ≤ dest.right) ∧ dest.top ≤ piece.top ∧
    piece.bottom ≤ dest.bottom

theorem pieceSource_within (hsrc : src.Within t) (hpart : Part dest piece) : (pieceSource src dest piece).Within t := by
  obtain ⟨hvalid, hx, hy⟩ := hpart
  obtain ⟨hvalid', hx', hy'⟩ := hsrc
  simp only [Rect.valid_iff] at hvalid
  have hleft := @sourceX_spec src dest hvalid' piece.left (by omega)
  have hright := @sourceX_spec src dest hvalid' piece.right (by omega)
  have htop := @sourceY_spec src dest hvalid' piece.top (by omega)
  have hbottom := @sourceY_spec src dest hvalid' piece.bottom (by omega)
  have hcolumns := @sourceX_le src dest hvalid' piece.left piece.right (by omega) hvalid.1
  have hlines := @sourceY_le src dest hvalid' piece.top piece.bottom (by omega) hvalid.2
  simp only [Rect.Within, Rect.valid_iff, pieceSource]
  omega

def shownBy (src dest piece : Rect) (p : Int × Int) : Int × Int :=
  ((pieceSource src dest piece).left + Surface.columnOf (pieceSource src dest piece) piece (p.1 - piece.left).toNat,
    (pieceSource src dest piece).top + Surface.lineOf (pieceSource src dest piece) piece (p.2 - piece.top).toNat)

theorem shownBy_within (hsrc : src.Within t) (hpart : Part dest piece)
    (hp : piece.contains p.1 p.2 = true) : t.Inside (shownBy src dest piece p) := by
  obtain ⟨hvalid, hx, hy⟩ := pieceSource_within hsrc hpart
  rw [Rect.contains_iff] at hp
  have hcolumn := @Surface.columnOf_lt (pieceSource src dest piece) piece (p.1 - piece.left).toNat hvalid (by omega)
  have hline := @Surface.lineOf_lt (pieceSource src dest piece) piece (p.2 - piece.top).toNat hvalid (by omega)
  simp only [shownBy, Surface.Inside]
  omega

def pieceMoves (s t : Surface) (src dest rect : Rect) : List Move :=
  s.movesFrom t (pieceSource src dest (dest.intersect rect)) (dest.intersect rect)

variable {m : Move}

theorem origin_of_mem_pieceMoves (hm : m ∈ pieceMoves s t src dest rect) {a : Int}
    (ha : m.Covers a) : ∃ p : Int × Int, (dest.intersect rect).contains p.1 p.2 = true ∧ ∃ k : Int, (0 ≤ k ∧ k < 3) ∧
      a = s.addr p.1 p.2 + k ∧ m.origin a = t.addr (shownBy src dest (dest.intersect rect) p).1
        (shownBy src dest (dest.intersect rect) p).2 + k := by
  obtain ⟨j, l, hin, k, hk, haddr, horigin⟩ := Surface.origin_of_mem_movesFrom hm ha
  refine ⟨((dest.intersect rect).left + j, (dest.intersect rect).top + l), ?_, k, hk, haddr, ?_⟩
  · simp only [Rect.contains_iff]
    omega
  · simp only [shownBy, add_sub_cancel_left, toNat_natCast]
    exact horigin

theorem exists_mem_pieceMoves {rect : Rect} {p : Int × Int} (hp : (dest.intersect rect).contains p.1 p.2 = true)
    {k : Int} (hk : 0 ≤ k ∧ k < 3) : ∃ m ∈ pieceMoves s t src dest rect, m.Covers (s.addr p.1 p.2 + k) := by
  rw [Rect.contains_iff] at hp
  obtain ⟨j, hj⟩ := eq_ofNat_of_zero_le (a := p.1 - (dest.intersect rect).left) (by omega)
  obtain ⟨l, hl⟩ := eq_ofNat_of_zero_le (a := p.2 - (dest.intersect rect).top) (by omega)
  have hx : p.1 = (dest.intersect rect).left + j := by omega
  have hy : p.2 = (dest.intersect rect).top + l := by omega
  rw [hx, hy]
  exact Surface.exists_mem_movesFrom (by omega) hk

/-! ## All calls -/

/-- The source surface is another one, and the source rectangle is in it. -/
structure Suits (s t : Surface) (src dest : Rect) : Prop where
  color : t.colorSpace = s.colorSpace
  apart : s.Apart t
  sized : s.Sized ∧ t.Sized
  src_within : src.Within t
  dest_valid : dest.valid = true

theorem piece_part (hdest : dest.valid = true) (hin : rect.Within s)
    (hmeet : rect.intersects dest = true) : Part dest (dest.intersect rect) ∧ (dest.intersect rect).Within s := by
  have hvalid := intersect_valid hdest hin.1 hmeet
  obtain ⟨-, hx, hy⟩ := hin
  refine ⟨⟨hvalid, ?_⟩, hvalid, ?_⟩
  · simp only [Rect.intersect]
    omega
  · simp only [Rect.intersect]
    omega

theorem stretchBlitClipper_eq (h : Suits s t src dest) (hin : rect.Within s)
    (hmeet : rect.intersects dest = true) (mem : Bits) : stretchBlitClipper s (.other t) src dest mem rect =
      if ∀ i ∈ pieceInts src dest (dest.intersect rect), IsInt32 i then
        some fun a => mem (trace (pieceMoves s t src dest rect) a) else none := by
  obtain ⟨hpart, hwithin⟩ := piece_part h.dest_valid hin hmeet
  have hvalid := hpart.1
  simp only [Rect.valid_iff] at hvalid
  unfold stretchBlitClipper
  simp only
  rw [if_pos hvalid, Surface.blit_of_within h.color h.sized.1 h.sized.2 (pieceSource_within h.src_within hpart) hwithin]
  rfl

theorem foldlM_stretchBlitClipper (h : Suits s t src dest) (rects : List Rect) : ∀ mem : Bits,
    (∀ rect ∈ rects, rect.Within s ∧ rect.intersects dest = true) →
      rects.foldlM (stretchBlitClipper s (.other t) src dest) mem =
        if ∀ rect ∈ rects, ∀ i ∈ pieceInts src dest (dest.intersect rect), IsInt32 i then
          some fun a => mem (trace (rects.flatMap (pieceMoves s t src dest)) a) else none := by
  induction rects with
  | nil =>
    intro mem _
    rw [if_pos fun rect hrect => absurd hrect not_mem_nil]
    rfl
  | cons rect rects ih =>
    intro mem hrects
    obtain ⟨hin, hmeet⟩ := hrects rect (.head _)
    rw [foldlM_cons, stretchBlitClipper_eq h hin hmeet]
    by_cases hints : ∀ i ∈ pieceInts src dest (dest.intersect rect), IsInt32 i
    · have hrest := ih (fun a => mem (trace (pieceMoves s t src dest rect) a)) fun rect' hrect' =>
        hrects rect' (mem_cons_of_mem rect hrect')
      rw [if_pos hints]
      refine hrest.trans ?_
      simp only [forall_mem_cons, flatMap_cons, trace_append, iff_of_true hints trivial, true_and]
    · rw [if_neg hints, if_neg fun hall => hints (hall rect mem_cons_self)]
      rfl

variable {rects : List Rect} {rect : Rect}

theorem inside_of_piece (hin : rect.Within s) (hp : (dest.intersect rect).contains p.1 p.2 = true) :
    rect.contains p.1 p.2 = true ∧ s.Inside p := by
  obtain ⟨-, hx, hy⟩ := hin
  have hrect := (Rect.contains_intersect.1 hp).2
  refine ⟨hrect, ?_⟩
  rw [Rect.contains_iff] at hrect
  unfold Surface.Inside
  omega

/-- Pieces do not overlap, so a move that covers a pixel is one of the pixel's own piece. -/
theorem origin_of_covers (hright : Region.Right rects) (hwithin : ∀ rect ∈ rects, rect.Within s)
    (hrect : rect ∈ rects) (hp : (dest.intersect rect).contains p.1 p.2 = true) (hk : 0 ≤ k ∧ k < 3)
    (hm : m ∈ rects.flatMap (pieceMoves s t src dest)) (ha : m.Covers (s.addr p.1 p.2 + k)) :
    m.origin (s.addr p.1 p.2 + k) = t.addr (shownBy src dest (dest.intersect rect) p).1
      (shownBy src dest (dest.intersect rect) p).2 + k := by
  obtain ⟨rect', hrect', hm'⟩ := mem_flatMap.1 hm
  obtain ⟨p', hp', k', hk', haddr, horigin⟩ := origin_of_mem_pieceMoves hm' ha
  obtain ⟨hcontains, hinside⟩ := inside_of_piece (hwithin rect hrect) hp
  obtain ⟨hcontains', hinside'⟩ := inside_of_piece (hwithin rect' hrect') hp'
  obtain ⟨⟨hx, hy⟩, rfl⟩ := Surface.addr_inj hinside.1 hinside'.1 hk hk' haddr
  obtain rfl : p = p' := Prod.ext hx hy
  obtain rfl := hright.eq_of_contains hrect hrect' hcontains hcontains'
  exact horigin

/-- **What is shown in a pixel** is what its own piece shows there. -/
theorem trace_pieces (hright : Region.Right rects) (hapart : s.Apart t) (hwithin : ∀ rect ∈ rects, rect.Within s)
    (hallowed : ∀ m ∈ rects.flatMap (pieceMoves s t src dest), s.Allowed t m) (hrect : rect ∈ rects)
    (hp : (dest.intersect rect).contains p.1 p.2 = true) (hk : 0 ≤ k ∧ k < 3) :
    trace (rects.flatMap (pieceMoves s t src dest)) (s.addr p.1 p.2 + k) =
      t.addr (shownBy src dest (dest.intersect rect) p).1 (shownBy src dest (dest.intersect rect) p).2 + k := by
  have hundisturbed : Undisturbed (rects.flatMap (pieceMoves s t src dest)) := by
    refine pairwise_of_forall_mem_list fun m hm m' hm' a ha' => ⟨fun ha => ?_, fun ha => ?_⟩
    · exact hapart _ ⟨((hallowed m hm).of_covers ha).1, ((hallowed m' hm').of_covers ha').2⟩
    · obtain ⟨rect', hrect', hmem⟩ := mem_flatMap.1 hm'
      obtain ⟨p', hp', k', hk', rfl, horigin⟩ := origin_of_mem_pieceMoves hmem ha'
      rw [horigin, origin_of_covers hright hwithin hrect' hp' hk' hm ha]
  obtain ⟨m, hm, ha⟩ := @exists_mem_pieceMoves s t src dest rect p hp k hk
  have hmem := mem_flatMap.2 ⟨rect, hrect, hm⟩
  rw [hundisturbed.trace_eq hmem ha]
  exact origin_of_covers hright hwithin hrect hp hk hmem ha

end

/-- The pixels have what the source has at the places shown in them, and no other byte has changed. -/
structure Showing (s t : Surface) (pixels : Set (Int × Int)) (shown : Int × Int → Int × Int) (mem mem' : Bits) :
    Prop where
  inside : ∀ p ∈ pixels, ∀ k : Int, 0 ≤ k ∧ k < 3 → mem' (s.addr p.1 p.2 + k) = mem (t.addr (shown p).1 (shown p).2 + k)
  outside : ∀ a, (∀ p ∈ pixels, ∀ k : Int, 0 ≤ k ∧ k < 3 → a ≠ s.addr p.1 p.2 + k) → mem' a = mem a

namespace GraphicsContext

variable {gc : GraphicsContext} {t : Surface} {src dst dest : Rect}

def visible (gc : GraphicsContext) (dest : Rect) : Set (Int × Int) :=
  {p | dest.contains p.1 p.2 = true ∧ gc.fClipRegion.contains p.1 p.2 = true}

theorem clip_eq (hdest : dest.valid = true) (region : Region) :
    region.clip dest.left dest.top dest.right dest.bottom = region.filter fun rect => rect.intersects dest := by
  simp only [Rect.valid_iff] at hdest
  rw [Region.clip, min_eq_left hdest.1, max_eq_right hdest.1, min_eq_left hdest.2, max_eq_right hdest.2]

/-- The destination (:228). -/
def destRect (gc : GraphicsContext) (dst : Rect) : Rect := dst.offsetBy gc.fXOrigin gc.fYOrigin

def stretchMoves (gc : GraphicsContext) (t : Surface) (src dest : Rect) : List Move :=
  (gc.fClipRegion.filter fun rect => rect.intersects dest).flatMap (pieceMoves gc.fSurface t src dest)

/-- All pieces stay in `int`. -/
def PieceInts (gc : GraphicsContext) (src dest : Rect) : Prop :=
  ∀ rect ∈ gc.fClipRegion, rect.intersects dest = true → ∀ i ∈ pieceInts src dest (dest.intersect rect), IsInt32 i
  deriving Decidable

section

variable (hclips : gc.Clips) (h : Suits gc.fSurface t src dest)
include hclips h

theorem stretched_eq (mem : Bits) :
    (gc.fClipRegion.clip dest.left dest.top dest.right dest.bottom).foldlM
      (stretchBlitClipper gc.fSurface (.other t) src dest) mem =
        if gc.PieceInts src dest then some fun a => mem (trace (gc.stretchMoves t src dest) a) else none := by
  have hfold := foldlM_stretchBlitClipper h (gc.fClipRegion.filter fun rect => rect.intersects dest) mem
    fun rect hrect => ⟨hclips.within rect (mem_filter.1 hrect).1, (mem_filter.1 hrect).2⟩
  rw [clip_eq h.dest_valid, hfold]
  refine if_congr ?_ rfl rfl
  simp only [mem_filter, and_imp]
  rfl

/-- **What a visible pixel shows** is what the piece of its rectangle shows there. -/
theorem trace_stretchMoves (hrect : rect ∈ gc.fClipRegion) (hp : (dest.intersect rect).contains p.1 p.2 = true)
    (hk : 0 ≤ k ∧ k < 3) : trace (gc.stretchMoves t src dest) (gc.fSurface.addr p.1 p.2 + k) =
      t.addr (shownBy src dest (dest.intersect rect) p).1 (shownBy src dest (dest.intersect rect) p).2 + k := by
  have hright : Region.Right (gc.fClipRegion.filter fun rect => rect.intersects dest) :=
    ⟨fun rect hrect => hclips.right.valid rect (mem_filter.1 hrect).1, hclips.right.disjoint.filter _⟩
  have hwithin : ∀ rect ∈ gc.fClipRegion.filter fun rect => rect.intersects dest, rect.Within gc.fSurface :=
    fun rect hrect => hclips.within rect (mem_filter.1 hrect).1
  have hallowed : ∀ m ∈ gc.stretchMoves t src dest, gc.fSurface.Allowed t m := by
    intro m hm
    obtain ⟨rect, hrect, hmem⟩ := mem_flatMap.1 hm
    obtain ⟨hpart, hpiece⟩ := piece_part h.dest_valid (hwithin rect hrect) (mem_filter.1 hrect).2
    exact Surface.allowed_movesFrom (pieceSource_within h.src_within hpart) hpiece m hmem
  obtain ⟨hin, hcontains⟩ := Rect.contains_intersect.1 hp
  exact trace_pieces hright h.apart hwithin hallowed
    (mem_filter.2 ⟨hrect, Rect.intersects_of_contains hcontains hin⟩) hp hk

theorem drawn_stretched {shown : Int × Int → Int × Int}
    (hshown : ∀ rect ∈ gc.fClipRegion, ∀ p, (dest.intersect rect).contains p.1 p.2 = true →
      shownBy src dest (dest.intersect rect) p = shown p) (mem : Bits) :
    Showing gc.fSurface t (gc.visible dest) shown mem fun a => mem (trace (gc.stretchMoves t src dest) a) := by
  constructor
  · rintro p ⟨hp, hregion⟩ k hk
    obtain ⟨rect, hrect, hcontains⟩ := any_eq_true.1 hregion
    have hpiece := Rect.contains_intersect.2 ⟨hp, hcontains⟩
    rw [trace_stretchMoves hclips h hrect hpiece hk, hshown rect hrect p hpiece]
  · intro a ha
    refine congrArg mem (trace_of_not_covers fun m hm hcovers => ?_)
    obtain ⟨rect, hrect, hmem⟩ := mem_flatMap.1 hm
    obtain ⟨p, hp, k, hk, haddr, -⟩ := origin_of_mem_pieceMoves hmem hcovers
    obtain ⟨hin, hcontains⟩ := Rect.contains_intersect.1 hp
    exact ha p ⟨hin, any_eq_true.2 ⟨rect, (mem_filter.1 hrect).1, hcontains⟩⟩ k hk haddr

end

end GraphicsContext

end Windowing
