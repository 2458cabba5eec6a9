import Mathlib.Data.Set.SymmDiff
import SkyOS.Lib.Machine

/-!
# Regions of the window system (`WindowingSystem/Region.cpp`, `Rect.h`)

A region is an array of rectangles, inclusive on all sides, and a point is in it if it is in one of them. All set
operations come down to `exclude`: a rectangle that meets the excluded one is replaced by the pieces of it around
that one, up to eight, which overlap at their edges and are appended to the array that the loop runs over.

| here | there |
| --- | --- |
| `Region` | `fRects` and `fNumRects` |
| `addRect` | `++ [rect]` |
| `removeRect( i )` | `eraseIdx i` |
| `excludeRect`, `excludeLoop` | `exclude( const Rect & )` |
| a result of `…Assign` | `*this` afterwards |
-/

namespace Windowing

open Machine List

/-! ## Rectangles -/

structure Rect where
  left : Int
  top : Int
  right : Int
  bottom : Int
deriving DecidableEq, Repr

namespace Rect

/-- `valid` (:98). -/
def valid (r : Rect) : Bool := r.right ≥ r.left ∧ r.bottom ≥ r.top

/-- `contains` (:119). -/
def contains (r : Rect) (x y : Int) : Bool := x ≥ r.left ∧ x ≤ r.right ∧ y ≥ r.top ∧ y ≤ r.bottom

/-- `intersects` (:92). -/
def intersects (r rect : Rect) : Bool :=
  r.left ≤ rect.right ∧ r.right ≥ rect.left ∧ r.bottom ≥ rect.top ∧ r.top ≤ rect.bottom

/-- `intersect` (:130). -/
def intersect (r rect : Rect) : Rect where
  left := max r.left rect.left
  right := min r.right rect.right
  top := max r.top rect.top
  bottom := min r.bottom rect.bottom

end Rect

/-! ## Regions -/

abbrev Region := List Rect

/-- The pieces around `exrect` (:293-:335), each as it is before it is cut to `clipRect`. -/
def quadrants (exrect clipRect : Rect) : List Rect :=
  let left := toInt32 (exrect.left - 1)
  let right := toInt32 (exrect.right + 1)
  let top := toInt32 (exrect.top - 1)
  let bottom := toInt32 (exrect.bottom + 1)
  [⟨clipRect.left, clipRect.top, left, top⟩,
   ⟨left, clipRect.top, right, top⟩,
   ⟨right, clipRect.top, clipRect.right, top⟩,
   ⟨clipRect.left, top, left, bottom⟩,
   ⟨right, top, clipRect.right, bottom⟩,
   ⟨clipRect.left, bottom, left, clipRect.bottom⟩,
   ⟨left, bottom, right, clipRect.bottom⟩,
   ⟨right, bottom, clipRect.right, clipRect.bottom⟩]

/-- The rectangles that are added for `clipRect`. -/
def pieces (exrect clipRect : Rect) : List Rect :=
  (quadrants exrect clipRect).filterMap fun q =>
    if clipRect.intersects q then some (q.intersect clipRect) else none

namespace Region

def contains (r : Region) (x y : Int) : Bool := r.any fun rect => rect.contains x y

/-- The loop of `exclude` (:263) from `i` on, `checkRects - i` rounds. -/
def excludeLoop (exrect : Rect) : Nat → Nat → Region → Region
  | 0, _, fRects => fRects
  | rounds + 1, i, fRects =>
    match fRects[i]? with
    | none => fRects
    | some clipRect =>
      if exrect.intersects clipRect then
        excludeLoop exrect rounds i ((fRects ++ pieces exrect clipRect).eraseIdx i)
      else excludeLoop exrect rounds (i + 1) fRects

/-- `exclude( const Rect & )` (:259). -/
def excludeRect (r : Region) (exrect : Rect) : Region := excludeLoop exrect r.length 0 r

/-- `exclude( const Region & )` (:253), of another region. -/
def exclude (r region : Region) : Region := region.foldl excludeRect r

/-- `include` (:247). -/
def «include» (r region : Region) : Region := region.foldl (fun r rect => r ++ [rect]) r

/-- The region of one rectangle (:37). -/
def ofRect (left top right bottom : Int) : Region := [⟨left, top, right, bottom⟩]

/-- `kInfinite`, as `wsmain` makes it. -/
def kInfinite : Region := ofRect (-0x7fff) (-0x7fff) 0x7fff 0x7fff

/-- `operator-` (:130). -/
def operatorSub (this region : Region) : Region := this.exclude region

/-- `operator~` (:149). -/
def operatorNot (this : Region) : Region := kInfinite.operatorSub this

/-- `operator&` (:112). -/
def operatorAnd (this region : Region) : Region := this.exclude region.operatorNot

/-- `operator|` (:120). -/
def operatorOr (this region : Region) : Region := this.include (region.exclude this)

/-- `operator^` (:138). -/
def operatorXor (this region : Region) : Region :=
  let b := region.exclude this
  let a := this.exclude b
  a.operatorOr b

/-- `operator&=` (:154). -/
def operatorAndAssign (this region : Region) : Region := this.exclude region.operatorNot

/-- `operator|=` (:160). -/
def operatorOrAssign (this region : Region) : Region := this.include (region.exclude this)

/-- `operator-=` (:169). -/
def operatorSubAssign (this region : Region) : Region := this.exclude region

/-- `operator^=` (:176). -/
def operatorXorAssign (this region : Region) : Region := this.operatorXor region

/-! ## What a region is for: a set of points

| operator | points |
| --- | --- |
| `-` | difference |
| `~` | complement in `kInfinite` |
| `&`, `\|` | intersection, union |
| `^` | union as well: `b` has lost the points of `a` already when it is excluded from `a` |
-/

def points (r : Region) : Set (Int × Int) := {p | r.contains p.1 p.2 = true}

end Region

/-- The points that `kInfinite` covers. -/
def square : Set (Int × Int) := {p | (-0x7fff ≤ p.1 ∧ p.1 ≤ 0x7fff) ∧ -0x7fff ≤ p.2 ∧ p.2 ≤ 0x7fff}

/-- A valid rectangle within the square: the rectangles a region is built from. -/
def Rect.InSquare (r : Rect) : Prop :=
  r.valid = true ∧ (-0x7fff ≤ r.left ∧ r.right ≤ 0x7fff) ∧ -0x7fff ≤ r.top ∧ r.bottom ≤ 0x7fff
  deriving Decidable

variable {r rect exrect clipRect : Rect} {x y : Int}

namespace Rect

theorem valid_iff : r.valid = true ↔ r.left ≤ r.right ∧ r.top ≤ r.bottom := decide_eq_true_iff

theorem contains_iff :
    r.contains x y = true ↔ (r.left ≤ x ∧ x ≤ r.right) ∧ r.top ≤ y ∧ y ≤ r.bottom := by
  simp [contains, and_assoc]

theorem intersects_iff : r.intersects rect = true ↔
    (r.left ≤ rect.right ∧ rect.left ≤ r.right) ∧ rect.top ≤ r.bottom ∧ r.top ≤ rect.bottom := by
  simp [intersects, and_assoc]

theorem intersects_of_contains (hr : r.contains x y = true)
    (hrect : rect.contains x y = true) : r.intersects rect = true := by
  rw [contains_iff] at hr hrect
  rw [intersects_iff]
  omega

theorem contains_intersect :
    (r.intersect rect).contains x y = true ↔ r.contains x y = true ∧ rect.contains x y = true := by
  simp only [contains_iff, intersect]
  omega

end Rect

/-! ## The pieces around the excluded rectangle -/

/-- The steps of one outwards stay in `int`. -/
def Rect.Steps (r : Rect) : Prop :=
  (IsInt32 (r.left - 1) ∧ IsInt32 (r.right + 1)) ∧ IsInt32 (r.top - 1) ∧ IsInt32 (r.bottom + 1)

instance (r : Rect) : Decidable r.Steps := inferInstanceAs (Decidable (_ ∧ _))

theorem Rect.InSquare.steps (h : r.InSquare) : r.Steps := by
  obtain ⟨hv, hx, hy⟩ := h
  simp only [Rect.valid_iff] at hv
  unfold Rect.Steps IsInt32
  omega

theorem quadrants_of_steps (hex : exrect.Steps) (clipRect : Rect) :
    quadrants exrect clipRect =
      [⟨clipRect.left, clipRect.top, exrect.left - 1, exrect.top - 1⟩,
       ⟨exrect.left - 1, clipRect.top, exrect.right + 1, exrect.top - 1⟩,
       ⟨exrect.right + 1, clipRect.top, clipRect.right, exrect.top - 1⟩,
       ⟨clipRect.left, exrect.top - 1, exrect.left - 1, exrect.bottom + 1⟩,
       ⟨exrect.right + 1, exrect.top - 1, clipRect.right, exrect.bottom + 1⟩,
       ⟨clipRect.left, exrect.bottom + 1, exrect.left - 1, clipRect.bottom⟩,
       ⟨exrect.left - 1, exrect.bottom + 1, exrect.right + 1, clipRect.bottom⟩,
       ⟨exrect.right + 1, exrect.bottom + 1, clipRect.right, clipRect.bottom⟩] := by
  obtain ⟨⟨hl, hr⟩, ht, hb⟩ := hex
  simp only [quadrants, toInt32_of_isInt32 hl, toInt32_of_isInt32 hr, toInt32_of_isInt32 ht, toInt32_of_isInt32 hb]

/-- A quadrant that misses the rectangle gives no piece, and has no point in it either. -/
theorem mem_pieces_points :
    (∃ piece ∈ pieces exrect clipRect, piece.contains x y = true) ↔
      (∃ q ∈ quadrants exrect clipRect, q.contains x y = true) ∧ clipRect.contains x y = true := by
  simp only [pieces, mem_filterMap]
  constructor
  · rintro ⟨piece, ⟨q, hq, hpiece⟩, hp⟩
    split at hpiece
    · obtain rfl := Option.some.inj hpiece
      obtain ⟨hin, hclip⟩ := Rect.contains_intersect.1 hp
      exact ⟨⟨q, hq, hin⟩, hclip⟩
    · cases hpiece
  · rintro ⟨⟨q, hq, hin⟩, hclip⟩
    have hmeet : clipRect.intersects q = true := Rect.intersects_of_contains hclip hin
    exact ⟨q.intersect clipRect, ⟨q, hq, by rw [if_pos hmeet]⟩, Rect.contains_intersect.2 ⟨hin, hclip⟩⟩

theorem pieces_points (hex : exrect.Steps) :
    (∃ piece ∈ pieces exrect clipRect, piece.contains x y = true) ↔
      clipRect.contains x y = true ∧ ¬ exrect.contains x y = true := by
  rw [mem_pieces_points, quadrants_of_steps hex]
  simp only [mem_cons, not_mem_nil, or_false, exists_eq_or_imp, exists_eq_left, Rect.contains_iff]
  omega

theorem pieces_inSquare (hex : exrect.InSquare) (hclip : clipRect.InSquare)
    {piece : Rect} (hp : piece ∈ pieces exrect clipRect) : piece.InSquare := by
  simp only [pieces, mem_filterMap] at hp
  obtain ⟨q, hq, hpiece⟩ := hp
  rw [quadrants_of_steps hex.steps] at hq
  split at hpiece
  · rename_i hmeet
    obtain rfl := Option.some.inj hpiece
    simp only [Rect.intersects_iff] at hmeet
    simp only [Rect.InSquare, Rect.valid_iff] at hex hclip ⊢
    simp only [mem_cons, not_mem_nil, or_false] at hq
    simp only [Rect.intersect]
    rcases hq with rfl | rfl | rfl | rfl | rfl | rfl | rfl | rfl <;> dsimp only at hmeet ⊢ <;> omega
  · cases hpiece

namespace Region

/-! ## Exclusion -/

theorem excludeLoop_eq (exrect : Rect) (mid : List Rect) : ∀ pre post : List Rect,
    excludeLoop exrect mid.length pre.length (pre ++ mid ++ post) =
      pre ++ mid.filter (fun c => !exrect.intersects c) ++ post ++
        mid.flatMap fun c => if exrect.intersects c then pieces exrect c else [] := by
  induction mid with
  | nil => intro pre post; simp [excludeLoop]
  | cons c mid ih =>
    intro pre post
    have hget : (pre ++ c :: mid ++ post)[pre.length]? = some c := by simp
    simp only [length_cons, excludeLoop, hget]
    by_cases hmeet : exrect.intersects c = true
    · -- the pieces go behind `post`, and `mid` moves into the place of `c`
      have herase : ((pre ++ c :: mid ++ post) ++ pieces exrect c).eraseIdx pre.length =
          pre ++ mid ++ (post ++ pieces exrect c) := by
        simp [eraseIdx_append_of_length_le]
      rw [if_pos hmeet, herase, ih]
      simp [hmeet]
    · have hshift : pre ++ c :: mid ++ post = (pre ++ [c]) ++ mid ++ post := by simp
      have hlen : pre.length + 1 = (pre ++ [c]).length := by simp
      rw [if_neg hmeet, hshift, hlen, ih]
      simp [hmeet]

theorem excludeRect_eq (r : Region) (exrect : Rect) :
    r.excludeRect exrect = r.filter (fun c => !exrect.intersects c) ++
      r.flatMap fun c => if exrect.intersects c then pieces exrect c else [] := by
  have h := excludeLoop_eq exrect r [] []
  simpa [excludeRect] using h

variable {r region : Region} {lo hi : Int}

theorem mem_points {p : Int × Int} : p ∈ r.points ↔ ∃ rect ∈ r, rect.contains p.1 p.2 = true := by
  simp [points, contains]

theorem points_append (r r' : Region) : (r ++ r').points = r.points ∪ r'.points := by
  simp [points, contains, Set.ext_iff]

theorem points_excludeRect (r : Region)
    (hex : ∀ c ∈ r, exrect.intersects c = true → exrect.Steps) :
    (r.excludeRect exrect).points = r.points \ points [exrect] := by
  ext p
  rw [excludeRect_eq, points_append, Set.mem_union, Set.mem_sdiff]
  simp only [mem_points, mem_filter, mem_flatMap, mem_singleton, exists_eq_left]
  constructor
  · rintro (⟨c, ⟨hc, hmiss⟩, hp⟩ | ⟨piece, ⟨c, hc, hpiece⟩, hp⟩)
    · refine ⟨⟨c, hc, hp⟩, fun hin => ?_⟩
      have hmeet := Rect.intersects_of_contains hin hp
      simp [hmeet] at hmiss
    · split at hpiece
      · rename_i hmeet
        obtain ⟨hin, hout⟩ := (pieces_points (hex c hc hmeet)).1 ⟨piece, hpiece, hp⟩
        exact ⟨⟨c, hc, hin⟩, hout⟩
      · cases hpiece
  · rintro ⟨⟨c, hc, hp⟩, hout⟩
    by_cases hmeet : exrect.intersects c = true
    · obtain ⟨piece, hpiece, hin⟩ := (pieces_points (hex c hc hmeet)).2 ⟨hp, hout⟩
      exact .inr ⟨piece, ⟨c, hc, by rwa [if_pos hmeet]⟩, hin⟩
    · exact .inl ⟨c, ⟨hc, by simp [hmeet]⟩, hp⟩

def Regular (r : Region) : Prop := ∀ rect ∈ r, rect.InSquare
  deriving Decidable

theorem Regular.excludeRect (hr : r.Regular) (hex : exrect.InSquare) :
    (r.excludeRect exrect).Regular := by
  intro rect hmem
  rw [excludeRect_eq, mem_append, mem_filter, mem_flatMap] at hmem
  rcases hmem with ⟨hc, -⟩ | ⟨c, hc, hpiece⟩
  · exact hr rect hc
  · split at hpiece
    · exact pieces_inSquare hex (hr c hc) hpiece
    · cases hpiece

theorem Regular.exclude (hr : r.Regular) (hregion : region.Regular) :
    (r.exclude region).Regular := by
  unfold Region.exclude
  induction region generalizing r with
  | nil => exact hr
  | cons exrect region ih =>
    rw [foldl_cons]
    exact ih (hr.excludeRect (hregion exrect (by simp))) fun rect h => hregion rect (by simp [h])

/-- The steps of one outwards stay in `int`, for each rectangle. -/
def Steps (r : Region) : Prop := ∀ rect ∈ r, rect.Steps

theorem Regular.steps (h : r.Regular) : r.Steps := fun rect hrect => (h rect hrect).steps

theorem points_exclude (r : Region) (hregion : region.Steps) :
    (r.exclude region).points = r.points \ region.points := by
  unfold exclude
  induction region generalizing r with
  | nil => simp [points, contains]
  | cons exrect region ih =>
    rw [foldl_cons, ih _ fun rect h => hregion rect (by simp [h]),
      points_excludeRect r fun _ _ _ => hregion exrect (by simp), Set.sdiff_sdiff, ← points_append]
    rfl

theorem include_eq (r region : Region) : r.include region = r ++ region := by
  unfold «include»
  induction region generalizing r with
  | nil => simp
  | cons rect region ih => rw [foldl_cons, ih]; simp

variable {r' : Region}

/-! ## Coordinates in a range

Exclusion only cuts rectangles: the coordinates stay in their range, whatever is excluded. And no point is lost that
is not excluded, even where a step outwards leaves `int`.
-/

/-- The coordinates of the rectangles are from `lo` to `hi`; the rectangles need not be valid. -/
def Between (lo hi : Int) (r : Region) : Prop :=
  ∀ rect ∈ r, ((lo ≤ rect.left ∧ rect.left ≤ hi) ∧ lo ≤ rect.right ∧ rect.right ≤ hi) ∧
    (lo ≤ rect.top ∧ rect.top ≤ hi) ∧ lo ≤ rect.bottom ∧ rect.bottom ≤ hi
  deriving Decidable

/-- The coordinates are of `int`. -/
abbrev Ints : Region → Prop := Between (-2 ^ 31) (2 ^ 31 - 1)

/-- The rectangles are within `kInfinite`. -/
abbrev Within : Region → Prop := Between (-0x7fff) 0x7fff

theorem Between.append (hr : r.Between lo hi) (hr' : r'.Between lo hi) :
    Between lo hi (r ++ r') := by
  intro rect hmem
  exact (mem_append.1 hmem).elim (hr rect) (hr' rect)

theorem Between.singleton (hr : r.Between lo hi) (hrect : rect ∈ r) :
    Between lo hi [rect] := by
  intro c hc
  obtain rfl := mem_singleton.1 hc
  exact hr c hrect

theorem Between.excludeRect (hr : r.Between lo hi) (exrect : Rect) :
    (r.excludeRect exrect).Between lo hi := by
  intro rect hmem
  rw [excludeRect_eq, mem_append, mem_filter, mem_flatMap] at hmem
  rcases hmem with ⟨hc, -⟩ | ⟨c, hc, hpiece⟩
  · exact hr rect hc
  · have hrange := hr c hc
    split at hpiece
    · simp only [pieces, mem_filterMap] at hpiece
      obtain ⟨q, -, hpiece⟩ := hpiece
      split at hpiece
      · rename_i hmeet
        obtain rfl := Option.some.inj hpiece
        rw [Rect.intersects_iff] at hmeet
        simp only [Rect.intersect]
        omega
      · cases hpiece
    · cases hpiece

theorem Between.exclude (hr : r.Between lo hi) (region : Region) :
    (r.exclude region).Between lo hi := by
  unfold Region.exclude
  induction region generalizing r with
  | nil => exact hr
  | cons exrect region ih =>
    rw [foldl_cons]
    exact ih (hr.excludeRect exrect)

theorem Within.steps (hr : r.Within) : r.Steps := by
  intro rect hrect
  have := hr rect hrect
  unfold Rect.Steps IsInt32
  omega

theorem Within.ints (hr : r.Within) : r.Ints := by
  intro rect hrect
  have := hr rect hrect
  omega

theorem Within.points_subset (hr : r.Within) : r.points ⊆ square := by
  intro p hp
  obtain ⟨rect, hrect, hin⟩ := mem_points.1 hp
  have := hr rect hrect
  rw [Rect.contains_iff] at hin
  simp only [square, Set.mem_ofPred_eq]
  omega

theorem Regular.within (hr : r.Regular) : r.Within := by
  intro rect hrect
  obtain ⟨hvalid, hx, hy⟩ := hr rect hrect
  simp only [Rect.valid_iff] at hvalid
  omega

/-- The sides that a point lies beyond are no ends of `int`. -/
theorem exists_quadrant (hex : Ints [exrect]) (hclip : Ints [clipRect])
    (hin : clipRect.contains x y = true) (hout : ¬ exrect.contains x y = true) :
    ∃ q ∈ quadrants exrect clipRect, q.contains x y = true := by
  have hex := hex exrect (mem_singleton_self _)
  have hclip := hclip clipRect (mem_singleton_self _)
  simp only [quadrants, mem_cons, not_mem_nil, or_false, exists_eq_or_imp, exists_eq_left, Rect.contains_iff]
  rw [Rect.contains_iff] at hin hout
  by_cases habove : y < exrect.top
  · rw [toInt32_of_isInt32 (x := exrect.top - 1) (by unfold IsInt32; omega)]
    generalize toInt32 (exrect.left - 1) = left
    generalize toInt32 (exrect.right + 1) = right
    omega
  by_cases hbelow : exrect.bottom < y
  · rw [toInt32_of_isInt32 (x := exrect.bottom + 1) (by unfold IsInt32; omega)]
    generalize toInt32 (exrect.left - 1) = left
    generalize toInt32 (exrect.right + 1) = right
    omega
  · generalize toInt32 (exrect.top - 1) = top
    generalize toInt32 (exrect.bottom + 1) = bottom
    by_cases hleft : x < exrect.left
    · rw [toInt32_of_isInt32 (x := exrect.left - 1) (by unfold IsInt32; omega)]
      omega
    · rw [toInt32_of_isInt32 (x := exrect.right + 1) (by unfold IsInt32; omega)]
      omega

theorem points_exclude_subset (r region : Region) : (r.exclude region).points ⊆ r.points := by
  unfold exclude
  induction region generalizing r with
  | nil => exact fun _ h => h
  | cons exrect region ih =>
    rw [foldl_cons]
    refine (ih _).trans fun p hp => ?_
    rw [excludeRect_eq, points_append] at hp
    simp only [Set.mem_union, mem_points, mem_filter, mem_flatMap] at hp
    rcases hp with ⟨c, ⟨hc, -⟩, hp⟩ | ⟨piece, ⟨c, hc, hpiece⟩, hp⟩
    · exact mem_points.2 ⟨c, hc, hp⟩
    · split at hpiece
      · exact mem_points.2 ⟨c, hc, (mem_pieces_points.1 ⟨piece, hpiece, hp⟩).2⟩
      · cases hpiece

theorem subset_points_exclude (hr : r.Ints) (hregion : region.Ints) :
    r.points \ region.points ⊆ (r.exclude region).points := by
  unfold exclude
  induction region generalizing r with
  | nil => exact fun _ h => h.1
  | cons exrect region ih =>
    rw [foldl_cons]
    refine Set.Subset.trans ?_ (ih (hr.excludeRect exrect) fun rect h => hregion rect (by simp [h]))
    rintro p ⟨hp, hout⟩
    rw [mem_points] at hp hout
    obtain ⟨c, hc, hp⟩ := hp
    refine ⟨?_, fun hin => ?_⟩
    · rw [excludeRect_eq, points_append]
      simp only [Set.mem_union, mem_points, mem_filter, mem_flatMap]
      by_cases hmeet : exrect.intersects c = true
      · obtain ⟨piece, hpiece, hin⟩ := mem_pieces_points.2
          ⟨exists_quadrant (hregion.singleton (.head _)) (hr.singleton hc) hp
            fun hin => hout ⟨exrect, .head _, hin⟩, hp⟩
        exact .inr ⟨piece, ⟨c, hc, by rwa [if_pos hmeet]⟩, hin⟩
      · exact .inl ⟨c, ⟨hc, by simp [hmeet]⟩, hp⟩
    · obtain ⟨rect, hrect, hin⟩ := mem_points.1 hin
      exact hout ⟨rect, by simp [hrect], hin⟩

/-! ## The operators

One lemma for each on the points of the result; the results are again regions of valid rectangles within the
square. -/

theorem regular_kInfinite : kInfinite.Regular := by decide

theorem points_kInfinite : kInfinite.points = square := by
  ext p
  simp [mem_points, kInfinite, ofRect, Rect.contains_iff, square]

section Operators

variable {a b : Region}

theorem points_operatorSub (hb : b.Steps) : (a.operatorSub b).points = a.points \ b.points := points_exclude a hb

theorem points_operatorNot (hb : b.Steps) : b.operatorNot.points = square \ b.points := by
  rw [operatorNot, points_operatorSub hb, points_kInfinite]

theorem within_operatorNot (b : Region) : b.operatorNot.Within := regular_kInfinite.within.exclude b

theorem points_operatorAnd (ha : a.points ⊆ square) (hb : b.Steps) :
    (a.operatorAnd b).points = a.points ∩ b.points := by
  rw [operatorAnd, points_exclude a (within_operatorNot b).steps, points_operatorNot hb]
  ext p
  simp only [Set.mem_sdiff, Set.mem_inter_iff]
  tauto

theorem points_operatorOr (ha : a.Ints) (hb : b.Ints) : (a.operatorOr b).points = a.points ∪ b.points := by
  rw [operatorOr, include_eq, points_append]
  refine Set.Subset.antisymm (Set.union_subset_union_right _ (points_exclude_subset b a)) ?_
  rintro p (hp | hp)
  · exact .inl hp
  · by_cases hin : p ∈ a.points
    · exact .inl hin
    · exact .inr (subset_points_exclude hb ha ⟨hp, hin⟩)

theorem Between.operatorOr (ha : a.Between lo hi) (hb : b.Between lo hi) :
    (a.operatorOr b).Between lo hi := by
  rw [Region.operatorOr, include_eq]
  exact ha.append (hb.exclude a)

variable (ha : a.Regular) (hb : b.Regular)

include ha hb in
/-- `b` is what is left of the right operand when it is excluded from the left one, which therefore stays whole. -/
theorem points_operatorXor : (a.operatorXor b).points = a.points ∪ b.points := by
  have hb' : (b.exclude a).Regular := hb.exclude ha
  have ha' : (a.exclude (b.exclude a)).Regular := ha.exclude hb'
  rw [operatorXor, points_operatorOr ha'.within.ints hb'.within.ints, points_exclude a hb'.steps,
    points_exclude b ha.steps]
  ext p
  simp only [Set.mem_union, Set.mem_sdiff]
  tauto

end Operators

/-- The operators and the compound assignments do at `(x, y)` what the header says of them. -/
def SetAlgebraAt (a b : Region) (x y : Int) : Prop :=
  ((a.operatorOr b).contains x y = (a.contains x y || b.contains x y) ∧
    (a.operatorAnd b).contains x y = (a.contains x y && b.contains x y) ∧
    (a.operatorSub b).contains x y = (a.contains x y && !b.contains x y) ∧
    (a.operatorXor b).contains x y = (a.contains x y ^^ b.contains x y) ∧
    a.operatorNot.contains x y = !a.contains x y) ∧
  (a.operatorOrAssign b).contains x y = (a.contains x y || b.contains x y) ∧
  (a.operatorAndAssign b).contains x y = (a.contains x y && b.contains x y) ∧
  (a.operatorSubAssign b).contains x y = (a.contains x y && !b.contains x y) ∧
  (a.operatorXorAssign b).contains x y = (a.contains x y ^^ b.contains x y)
  deriving Decidable

theorem contains_iff_points (r : Region) (x y : Int) : r.contains x y = true ↔ (x, y) ∈ r.points := Iff.rfl

/-- `^` in terms of `contains`. -/
theorem contains_operatorXor {a b : Region} (ha : a.Regular) (hb : b.Regular) (x y : Int) :
    (a.operatorXor b).contains x y = (a.contains x y || b.contains x y) := by
  rw [Bool.eq_iff_iff, Bool.or_eq_true]
  simp only [contains_iff_points, points_operatorXor ha hb, Set.mem_union]

/-- **Region algebra.** The set operations are pointwise right exactly at the points that are not in both operands:
there `^` still has the point. -/
theorem setAlgebraAt_iff {a b : Region} (ha : a.Regular) (hb : b.Regular) {x y : Int} (hxy : (x, y) ∈ square) :
    a.SetAlgebraAt b x y ↔ ¬ (a.contains x y = true ∧ b.contains x y = true) := by
  have hor : (a.operatorOr b).contains x y = (a.contains x y || b.contains x y) := by
    rw [Bool.eq_iff_iff, Bool.or_eq_true]
    simp only [contains_iff_points, points_operatorOr ha.within.ints hb.within.ints, Set.mem_union]
  have hand : (a.operatorAnd b).contains x y = (a.contains x y && b.contains x y) := by
    rw [Bool.eq_iff_iff, Bool.and_eq_true]
    simp only [contains_iff_points, points_operatorAnd ha.within.points_subset hb.steps, Set.mem_inter_iff]
  have hsub : (a.operatorSub b).contains x y = (a.contains x y && !b.contains x y) := by
    rw [Bool.eq_iff_iff, Bool.and_eq_true, Bool.not_eq_true', ← Bool.not_eq_true]
    simp only [contains_iff_points, points_operatorSub hb.steps, Set.mem_sdiff]
  have hnot : a.operatorNot.contains x y = !a.contains x y := by
    rw [Bool.eq_iff_iff, Bool.not_eq_true', ← Bool.not_eq_true]
    simp only [contains_iff_points, points_operatorNot ha.steps, Set.mem_sdiff, hxy, true_and]
  have hxor : (a.operatorXor b).contains x y = (a.contains x y ^^ b.contains x y) ↔
      ¬ (a.contains x y = true ∧ b.contains x y = true) := by
    rw [contains_operatorXor ha hb]
    cases a.contains x y <;> cases b.contains x y <;> simp
  constructor
  · rintro ⟨⟨-, -, -, hx, -⟩, -⟩
    exact hxor.1 hx
  · intro hdisj
    exact ⟨⟨hor, hand, hsub, hxor.2 hdisj, hnot⟩, hor, hand, hsub, hxor.2 hdisj⟩

/-- Two rectangles and one that overlaps both: a point of the first only, and a point of the overlap. -/
theorem setAlgebraAt_overlap :
    SetAlgebraAt (ofRect 0 0 10 10 ++ ofRect 20 0 30 10) (ofRect 5 5 25 15) 7 3 ∧
      ¬ SetAlgebraAt (ofRect 0 0 10 10 ++ ofRect 20 0 30 10) (ofRect 5 5 25 15) 7 7 :=
  ⟨(setAlgebraAt_iff (by decide) (by decide) (by simp [square])).2 (by decide),
    fun h => (setAlgebraAt_iff (by decide) (by decide) (by simp [square])).1 h (by decide)⟩

/-- The exclusive or of the screen with itself is the screen. -/
theorem operatorXor_self :
    ¬ SetAlgebraAt (ofRect 0 0 1023 767) (ofRect 0 0 1023 767) 100 100 ∧
      (operatorXor (ofRect 0 0 1023 767) (ofRect 0 0 1023 767)).contains 100 100 = true := by
  decide

end Region

end Windowing
