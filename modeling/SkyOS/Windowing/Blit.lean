import SkyOS.Lib.BlockMoves
import SkyOS.Windowing.FillRect

/-!
# Copying between surfaces (`Surface::blit`, `WindowingSystem/Surface.cpp:74`)

Both rectangles are cut to their surfaces, each on its own, and then the pixels are moved: line by line within one
surface, line by line from another one if what is left of the rectangles has one size, and pixel by pixel otherwise,
scaled by two error terms. Each loop is a sequence of block moves; the two errors choose the column and the line of
the source by a division each, and round differently.

| here | there |
| --- | --- |
| `fixed` | "Fix all of the arguments" (:82-:104) |
| `Source.this` | `source == this` |
| `none` | an `int` that overflows, a byte that belongs to no pixel of the surface |
| `movesFrom` | the bytes that are moved, in order |
-/

namespace Windowing

open Machine BlockMoves List Nat Int

/-! ## The code -/

/-- Where pixels are taken from: the surface itself, or another one with memory of its own. -/
inductive Source where
  | this
  | other (source : Surface)

def Source.surface (s : Surface) : Source → Surface
  | .this => s
  | .other t => t

namespace Surface

def Holds (s : Surface) (a : Int) : Prop :=
  (0 ≤ a - s.bits ∧ (a - s.bits) / s.stride < s.height) ∧ (a - s.bits) % s.stride < 3 * s.width
  deriving Decidable

/-- A negative size is a huge one for `memcpy` and `memmove`. -/
def Allowed (s t : Surface) (m : Move) : Prop :=
  0 ≤ m.size ∧ ∀ k < m.size.toNat, s.Holds (m.dst + k) ∧ t.Holds (m.src + k)

instance (s t : Surface) (m : Move) : Decidable (s.Allowed t m) := inferInstanceAs (Decidable (_ ∧ _))

/-- `memcpy` and `memmove`. -/
def move (s t : Surface) (dst src size : Int) (mem : Bits) : Option Bits :=
  if s.Allowed t ⟨dst, src, size⟩ then some ((⟨dst, src, size⟩ : Move).apply mem) else none

/-- The loops over lines (:113, :125, :139). -/
def moveLoop (s t : Surface) (size destStep sourceStep : Int) : Nat → Int → Int → Bits → Option Bits
  | 0, _, _, mem => some mem
  | rounds + 1, destAddr, sourceAddr, mem => do
    let mem ← s.move t destAddr sourceAddr size mem
    moveLoop s t size destStep sourceStep rounds (destAddr + destStep) (sourceAddr + sourceStep) mem

/-- `while (herror >= destWidth)` (:174) and `while (verror > destHeight)` (:182). -/
def advance (more : Int → Bool) (extent step : Int) : Nat → Int → Int → Int × Int
  | 0, error, ptr => (error, ptr)
  | rounds + 1, error, ptr =>
    if more error then advance more extent step rounds (error - extent) (ptr + step) else (error, ptr)

/-- The loop over `x` (:168), with `destPtr` behind the line. -/
def stretchLine (s t : Surface) (sourceWidth destWidth : Int) : Nat → Int → Int → Int → Bits → Option (Int × Bits)
  | 0, destPtr, _, _, mem => some (destPtr, mem)
  | rounds + 1, destPtr, image_ptr, herror, mem => do
    let mem ← s.move t destPtr image_ptr 1 mem
    let mem ← s.move t (destPtr + 1) (image_ptr + 1) 1 mem
    let mem ← s.move t (destPtr + 2) (image_ptr + 2) 1 mem
    let herror := herror + sourceWidth
    let (herror, image_ptr) := advance (fun herror => herror ≥ destWidth) destWidth 3 herror.toNat herror image_ptr
    stretchLine s t sourceWidth destWidth rounds (destPtr + 3) image_ptr herror mem

/-- The loop over `y` (:165). -/
def stretchLoop (s t : Surface) (sourceWidth destWidth sourceHeight destHeight destWrap : Int) :
    Nat → Int → Int → Int → Bits → Option Bits
  | 0, _, _, _, mem => some mem
  | rounds + 1, destPtr, sourceLinePtr, verror, mem => do
    let (destPtr, mem) ← s.stretchLine t sourceWidth destWidth destWidth.toNat destPtr sourceLinePtr 0 mem
    let verror := verror + sourceHeight
    let (verror, sourceLinePtr) :=
      advance (fun verror => verror > destHeight) destHeight t.stride verror.toNat verror sourceLinePtr
    stretchLoop s t sourceWidth destWidth sourceHeight destHeight destWrap rounds (destPtr + destWrap) sourceLinePtr
      verror mem

/-- The rectangle, cut to the surface. Nothing keeps it from being turned inside out. -/
def fixed (s : Surface) (r : Rect) : Rect where
  left := if r.left < 0 then 0 else r.left
  top := if r.top < 0 then 0 else r.top
  right := if r.right ≥ s.width then s.width - 1 else r.right
  bottom := if r.bottom ≥ s.height then s.height - 1 else r.bottom

/-- Within the surface (:106). -/
def moveWithin (s : Surface) (src dst : Rect) (mem : Bits) : Option Bits :=
  let lineSize := (src.right - src.left) * 3
  let offset := (dst.left - src.left) * 3 + (dst.top - src.top) * s.stride
  if dst.top > src.top ∧ dst.top < src.bottom then
    let srcptr := s.bits + src.left * 3 + src.bottom * s.stride
    s.moveLoop s lineSize (-s.stride) (-s.stride) (src.bottom - src.top + 1).toNat (srcptr + offset) srcptr mem
  else
    let srcptr := s.bits + src.left * 3 + src.top * s.stride
    s.moveLoop s lineSize s.stride s.stride (src.bottom - src.top + 1).toNat (srcptr + offset) srcptr mem

/-- What it computes in `int`. -/
def withinInts (s : Surface) (src dst : Rect) : List Int :=
  [src.right - src.left, (src.right - src.left) * 3, src.left * 3,
    (if dst.top > src.top ∧ dst.top < src.bottom then src.bottom else src.top) * s.stride,
    dst.left - src.left, (dst.left - src.left) * 3, dst.top - src.top, (dst.top - src.top) * s.stride,
    (dst.left - src.left) * 3 + (dst.top - src.top) * s.stride]

/-- The same size (:131). -/
def SameSize (src dst : Rect) : Prop :=
  dst.right - dst.left = src.right - src.left ∧ dst.bottom - dst.top = src.bottom - src.top
  deriving Decidable

/-- From another surface (:131). -/
def moveFrom (s t : Surface) (src dst : Rect) (mem : Bits) : Option Bits :=
  if SameSize src dst then
    s.moveLoop t ((dst.right - dst.left + 1) * 3) s.stride t.stride (dst.bottom - dst.top + 1).toNat
      (s.bits + dst.top * s.stride + dst.left * 3) (t.bits + src.top * t.stride + src.left * 3) mem
  else
    let destHeight := dst.bottom - dst.top + 1
    let destWidth := dst.right - dst.left + 1
    let sourceHeight := src.bottom - src.top + 1
    let sourceWidth := src.right - src.left + 1
    s.stretchLoop t sourceWidth destWidth sourceHeight destHeight (s.stride - destWidth * 3) destHeight.toNat
      (s.bits + dst.left * 3 + dst.top * s.stride) (t.bits + src.left * 3 + src.top * t.stride) 0 mem

/-- What it computes in `int`. -/
def fromInts (s t : Surface) (src dst : Rect) : List Int :=
  [dst.right - dst.left, src.right - src.left, dst.bottom - dst.top, src.bottom - src.top, dst.left * 3,
    dst.top * s.stride, src.left * 3, src.top * t.stride] ++
  if SameSize src dst then
    if dst.top ≤ dst.bottom then [dst.right - dst.left + 1, (dst.right - dst.left + 1) * 3] else []
  else
    [dst.right - dst.left + 1, dst.bottom - dst.top + 1, src.right - src.left + 1, src.bottom - src.top + 1,
      (dst.right - dst.left + 1) * 3, s.stride - (dst.right - dst.left + 1) * 3]

end Surface

/-- The values of all `int` expressions of a call, after the arguments are fixed. -/
def Source.ints (s : Surface) (src dst : Rect) : Source → List Int
  | .this => s.withinInts (s.fixed src) (s.fixed dst)
  | .other t => s.fromInts t (t.fixed src) (s.fixed dst)

/-- `Surface::blit` (:74). -/
def Surface.blit (s : Surface) (source : Source) (src dst : Rect) (mem : Bits) : Option Bits :=
  if (source.surface s).colorSpace ≠ s.colorSpace then some mem
  else if ∀ i ∈ source.ints s src dst, IsInt32 i then
    match source with
    | .this => s.moveWithin (s.fixed src) (s.fixed dst) mem
    | .other t => s.moveFrom t (t.fixed src) (s.fixed dst) mem
  else none

/-! ## The bytes of a surface -/

namespace Surface

variable {s t : Surface} {a : Int}

theorem holds_addr {p : Int × Int} {k : Int} (hp : s.Inside p) (hk : 0 ≤ k ∧ k < 3) : s.Holds (s.addr p.1 p.2 + k) := by
  obtain ⟨hx, hy⟩ := hp
  have hfits := s.fits
  have hoffset : s.addr p.1 p.2 + k - s.bits = p.1 * 3 + k + s.stride * p.2 := by
    unfold addr
    ring
  have hbyte : 0 ≤ p.1 * 3 + k ∧ p.1 * 3 + k < s.stride := by omega
  have hbelow : 0 ≤ s.stride * p.2 := mul_nonneg (by omega) hy.1
  unfold Holds
  rw [hoffset, add_mul_ediv_left _ _ (by omega), add_mul_emod_self_left, ediv_eq_zero_of_lt hbyte.1 hbyte.2,
    emod_eq_of_lt hbyte.1 hbyte.2]
  omega

section

variable {r : Rect} (hr : r.Within s) {j l : Nat} (hj : j < r.right - r.left + 1) (hl : l < r.bottom - r.top + 1)
include hr hj hl

theorem inside_of_within : s.Inside (r.left + j, r.top + l) := by
  obtain ⟨-, hx, hy⟩ := hr
  unfold Inside
  simp only
  omega

theorem holds_of_within {k : Int} (hk : 0 ≤ k ∧ k < 3) : s.Holds (s.addr (r.left + j) (r.top + l) + k) :=
  @holds_addr s (r.left + j, r.top + l) k (inside_of_within hr hj hl) hk

end

variable {m : Move} {destWidth : Int}

theorem Allowed.of_covers (h : s.Allowed t m) (ha : m.Covers a) : s.Holds a ∧ t.Holds (m.origin a) := by
  have hbyte := h.2 (a - m.dst).toNat (by unfold Move.Covers at ha; omega)
  have hoffset : ((a - m.dst).toNat : Int) = a - m.dst := toNat_of_nonneg (Int.sub_nonneg.2 ha.1)
  have hdst : m.dst + (a - m.dst) = a := by omega
  rw [hoffset, hdst, Int.add_comm m.src] at hbyte
  rw [Move.origin_of_covers ha]
  exact hbyte

/-! ## What is moved -/

def lineMoves (size destStep sourceStep destAddr sourceAddr : Int) (k rounds : Nat) : List Move :=
  (List.range' k rounds).map fun i : Nat => ⟨destAddr + i * destStep, sourceAddr + i * sourceStep, size⟩

theorem moveLoop_eq (s t : Surface) (size destStep sourceStep destAddr sourceAddr : Int) (rounds : Nat) :
    ∀ (k : Nat) (mem : Bits), s.moveLoop t size destStep sourceStep rounds (destAddr + k * destStep)
      (sourceAddr + k * sourceStep) mem =
        run (s.Allowed t) (lineMoves size destStep sourceStep destAddr sourceAddr k rounds) mem := by
  induction rounds with
  | zero => exact fun k mem => rfl
  | succ rounds ih =>
    intro k mem
    have hdest : destAddr + k * destStep + destStep = destAddr + (k + 1 : Nat) * destStep := by
      push_cast
      ring
    have hsource : sourceAddr + k * sourceStep + sourceStep = sourceAddr + (k + 1 : Nat) * sourceStep := by
      push_cast
      ring
    rw [moveLoop, lineMoves, List.range'_succ, map_cons, run_cons, hdest, hsource]
    exact congrArg _ (funext fun mem => ih (k + 1) mem)

theorem advance_eq {more : Int → Bool} {extent step : Int} (n : Nat) : ∀ {rounds : Nat} {error ptr : Int}, n ≤ rounds →
    (∀ i < n, more (error - i * extent) = true) → more (error - n * extent) = false →
      advance more extent step rounds error ptr = (error - n * extent, ptr + n * step) := by
  induction n with
  | zero =>
    intro rounds error ptr _ _ hstop
    simp only [Nat.cast_zero, Int.zero_mul, Int.sub_zero, Int.add_zero] at hstop ⊢
    cases rounds with
    | zero => rfl
    | succ rounds => rw [advance, hstop, if_neg Bool.false_ne_true]
  | succ n ih =>
    intro rounds error ptr hrounds hmore hstop
    cases rounds with
    | zero => omega
    | succ rounds =>
      have hfirst := hmore 0 (succ_pos n)
      rw [Nat.cast_zero, Int.zero_mul, Int.sub_zero] at hfirst
      have hnext : ∀ i : Nat, error - extent - i * extent = error - (i + 1 : Nat) * extent := by
        intro i
        push_cast
        ring
      have hrest := @ih rounds (error - extent) (ptr + step) (le_of_succ_le_succ hrounds)
        (fun i hi => by rw [hnext]; exact hmore (i + 1) (succ_lt_succ hi)) (by rw [hnext]; exact hstop)
      rw [advance, hfirst, if_pos rfl, hrest, hnext, Prod.mk.injEq]
      refine ⟨rfl, ?_⟩
      push_cast
      ring

theorem advance_div {more : Int → Bool} {extent limit : Int} (step : Int) (hextent : 0 < extent) (hlimit : 0 ≤ limit)
    (hmore : ∀ error, more error = decide (extent + limit ≤ error)) (total ptr : Int) {done : Nat}
    (hdone : done ≤ (total - limit).toNat / extent.toNat) :
    advance more extent step (total - done * extent).toNat (total - done * extent) (ptr + done * step) =
      (total - ((total - limit).toNat / extent.toNat : Nat) * extent,
        ptr + ((total - limit).toNat / extent.toNat : Nat) * step) := by
  obtain ⟨e, rfl⟩ := eq_ofNat_of_zero_le hextent.le
  have he : 0 < e := natCast_pos.1 hextent
  rw [toNat_natCast] at hdone ⊢
  generalize hN : (total - limit).toNat = N at hdone ⊢
  have hbelow := div_mul_le_self N e
  have habove := lt_div_mul_add he (a := N)
  obtain ⟨n, hn⟩ := Nat.exists_eq_add_of_le hdone
  rw [hn] at hbelow habove ⊢
  have hsum : (done + n) * e = done * e + n * e := Nat.add_mul done n e
  have hsplit : ∀ i : Nat, total - done * e - i * e = total - (done + i : Nat) * e := by
    intro i
    push_cast
    ring
  have hsteps : ptr + done * step + n * step = ptr + (done + n : Nat) * step := by
    push_cast
    ring
  have hmove := @advance_eq more e step n (total - done * e).toNat (total - done * e) (ptr + done * step) ?_ ?_ ?_
  · rw [hmove, hsplit, hsteps]
  · have hle : n ≤ n * e := Nat.le_mul_of_pos_right n he
    rw [← natCast_mul]
    omega
  · intro i hi
    have hle : (done + i) * e + e ≤ (done + n) * e := by
      rw [← succ_mul]
      exact Nat.mul_le_mul_right e (by omega)
    rw [hmore, hsplit, decide_eq_true_eq, ← natCast_mul]
    omega
  · rw [hmore, hsplit, decide_eq_false_iff_not, ← natCast_mul]
    omega

def sourceColumn (sourceWidth destWidth : Int) (j : Nat) : Nat := (j * sourceWidth).toNat / destWidth.toNat

def sourceLine (sourceHeight destHeight : Int) (l : Nat) : Nat := (l * sourceHeight - 1).toNat / destHeight.toNat

theorem sourceColumn_le_succ (sourceWidth destWidth : Int) (j : Nat) :
    sourceColumn sourceWidth destWidth j ≤ sourceColumn sourceWidth destWidth (j + 1) := by
  refine Nat.div_le_div_right ?_
  push_cast
  rw [Int.add_mul, Int.one_mul]
  have hnonneg : 0 ≤ sourceWidth ∨ j * sourceWidth ≤ 0 := by
    rcases Int.le_total 0 sourceWidth with h | h
    · exact .inl h
    · exact .inr (Int.mul_nonpos_of_nonneg_of_nonpos (by omega) h)
  omega

theorem sourceLine_le_succ (sourceHeight destHeight : Int) (l : Nat) :
    sourceLine sourceHeight destHeight l ≤ sourceLine sourceHeight destHeight (l + 1) := by
  refine Nat.div_le_div_right ?_
  push_cast
  rw [Int.add_mul, Int.one_mul]
  have hnonneg : 0 ≤ sourceHeight ∨ l * sourceHeight ≤ 0 := by
    rcases Int.le_total 0 sourceHeight with h | h
    · exact .inl h
    · exact .inr (Int.mul_nonpos_of_nonneg_of_nonpos (by omega) h)
  omega

/-- The three bytes of a pixel, of those of a line from the `j`-th on, and of the lines from the `l`-th on. -/
def pixelMoves (destPtr image_ptr : Int) : List Move :=
  [⟨destPtr, image_ptr, 1⟩, ⟨destPtr + 1, image_ptr + 1, 1⟩, ⟨destPtr + 2, image_ptr + 2, 1⟩]

def stretchedLine (col : Nat → Nat) (destPtr sourceLinePtr : Int) (j width : Nat) : List Move :=
  (List.range' j width).flatMap fun j : Nat => pixelMoves (destPtr + j * 3) (sourceLinePtr + col j * 3)

theorem size_nonneg_of_mem_pixelMoves {destPtr image_ptr : Int} (h : m ∈ pixelMoves destPtr image_ptr) :
    0 ≤ m.size := by
  simp only [pixelMoves, mem_cons, not_mem_nil, or_false] at h
  rcases h with rfl | rfl | rfl <;> exact Int.one_nonneg

theorem bind_pixelMoves {β : Type} (s t : Surface) (destPtr image_ptr : Int) (f : Bits → Option β) (mem : Bits) :
    (run (s.Allowed t) (pixelMoves destPtr image_ptr) mem).bind f = (do
      let mem ← s.move t destPtr image_ptr 1 mem
      let mem ← s.move t (destPtr + 1) (image_ptr + 1) 1 mem
      let mem ← s.move t (destPtr + 2) (image_ptr + 2) 1 mem
      f mem) := by
  simp only [pixelMoves, run_cons, Option.bind_assoc]
  rfl

theorem stretchLine_eq (s t : Surface) (sourceWidth : Int) (hwidth : 0 < destWidth)
    (destPtr sourceLinePtr : Int) (rounds : Nat) : ∀ (j : Nat) (mem : Bits),
    s.stretchLine t sourceWidth destWidth rounds (destPtr + j * 3)
      (sourceLinePtr + sourceColumn sourceWidth destWidth j * 3)
      (j * sourceWidth - sourceColumn sourceWidth destWidth j * destWidth) mem =
        (run (s.Allowed t) (stretchedLine (sourceColumn sourceWidth destWidth) destPtr sourceLinePtr j rounds) mem).map
          fun mem => (destPtr + (j + rounds : Nat) * 3, mem) := by
  induction rounds with
  | zero => exact fun j mem => rfl
  | succ rounds ih =>
    intro j mem
    have herror : j * sourceWidth - sourceColumn sourceWidth destWidth j * destWidth + sourceWidth =
        (j + 1 : Nat) * sourceWidth - sourceColumn sourceWidth destWidth j * destWidth := by
      push_cast
      ring
    have hnext : destPtr + j * 3 + 3 = destPtr + (j + 1 : Nat) * 3 := by
      push_cast
      ring
    have hadvance := @advance_div (fun herror => decide (herror ≥ destWidth)) destWidth 0 3 hwidth (by omega)
      (fun error => by rw [Int.add_zero]) ((j + 1 : Nat) * sourceWidth) sourceLinePtr
      (sourceColumn sourceWidth destWidth j) (by rw [Int.sub_zero]; exact sourceColumn_le_succ _ _ _)
    rw [Int.sub_zero] at hadvance
    rw [stretchLine, stretchedLine, List.range'_succ, flatMap_cons, run_append, herror]
    simp only [hadvance, hnext]
    rw [← bind_pixelMoves, Option.map_bind]
    refine congrArg _ (funext fun mem => ?_)
    have hrest := ih (j + 1) mem
    rw [Nat.add_right_comm j 1 rounds] at hrest
    exact hrest

/-- The pixels of a rectangle from line `l` on, the lines in a rectangle of the source. -/
def stretchedLines (col row : Nat → Nat) (destStride sourceStride destPtr sourcePtr : Int) (width l height : Nat) :
    List Move :=
  (List.range' l height).flatMap fun l : Nat =>
    stretchedLine col (destPtr + l * destStride) (sourcePtr + row l * sourceStride) 0 width

theorem stretchLoop_eq (s t : Surface) (sourceWidth sourceHeight : Int) {destHeight : Int}
    (hwidth : 0 < destWidth) (hheight : 0 < destHeight) (destPtr sourcePtr : Int) (rounds : Nat) :
    ∀ (l : Nat) (mem : Bits),
    s.stretchLoop t sourceWidth destWidth sourceHeight destHeight (s.stride - destWidth * 3) rounds
      (destPtr + l * s.stride) (sourcePtr + sourceLine sourceHeight destHeight l * t.stride)
      (l * sourceHeight - sourceLine sourceHeight destHeight l * destHeight) mem =
        run (s.Allowed t) (stretchedLines (sourceColumn sourceWidth destWidth) (sourceLine sourceHeight destHeight)
          s.stride t.stride destPtr sourcePtr destWidth.toNat l rounds) mem := by
  induction rounds with
  | zero => exact fun l mem => rfl
  | succ rounds ih =>
    intro l mem
    have herror : l * sourceHeight - sourceLine sourceHeight destHeight l * destHeight + sourceHeight =
        (l + 1 : Nat) * sourceHeight - sourceLine sourceHeight destHeight l * destHeight := by
      push_cast
      ring
    have hadvance := @advance_div (fun verror => decide (verror > destHeight)) destHeight 1 t.stride hheight (by omega)
      (fun error => rfl) ((l + 1 : Nat) * sourceHeight) sourcePtr (sourceLine sourceHeight destHeight l)
      (sourceLine_le_succ _ _ _)
    have hline := stretchLine_eq s t sourceWidth hwidth (destPtr + l * s.stride)
      (sourcePtr + sourceLine sourceHeight destHeight l * t.stride) destWidth.toNat 0 mem
    have hnext : destPtr + l * s.stride + (0 + destWidth.toNat : Nat) * 3 + (s.stride - destWidth * 3) =
        destPtr + (l + 1 : Nat) * s.stride := by
      have hcast : ((0 + destWidth.toNat : Nat) : Int) = destWidth := by omega
      rw [hcast]
      push_cast
      ring
    have hstart : sourceColumn sourceWidth destWidth 0 = 0 := by simp [sourceColumn]
    simp only [hstart, Nat.cast_zero, Int.zero_mul, Int.add_zero, Int.sub_zero] at hline
    rw [stretchLoop, hline, stretchedLines, List.range'_succ, flatMap_cons, run_append, herror]
    simp only [hadvance]
    refine Option.bind_map.trans (congrArg _ (funext fun mem => ?_))
    rw [Function.comp_apply, hnext]
    exact ih (l + 1) mem

theorem stretchLoop_empty (s t : Surface) (sourceWidth sourceHeight : Int) (destHeight : Int)
    (hwidth : destWidth ≤ 0) (destWrap : Int) (rounds : Nat) : ∀ (destPtr sourcePtr verror : Int) (mem : Bits),
    s.stretchLoop t sourceWidth destWidth sourceHeight destHeight destWrap rounds destPtr sourcePtr verror mem =
      some mem := by
  have hnone : destWidth.toNat = 0 := toNat_of_nonpos hwidth
  induction rounds with
  | zero => exact fun destPtr sourcePtr verror mem => rfl
  | succ rounds ih =>
    intro destPtr sourcePtr verror mem
    rw [stretchLoop, hnone]
    exact ih _ _ _ mem

/-- The column and the line of the source rectangle that are shown in those of the destination. -/
def columnOf (src dst : Rect) (j : Nat) : Nat :=
  if SameSize src dst then j else sourceColumn (src.right - src.left + 1) (dst.right - dst.left + 1) j

def lineOf (src dst : Rect) (l : Nat) : Nat :=
  if SameSize src dst then l else sourceLine (src.bottom - src.top + 1) (dst.bottom - dst.top + 1) l

def movesFrom (s t : Surface) (src dst : Rect) : List Move :=
  if SameSize src dst then
    lineMoves ((dst.right - dst.left + 1) * 3) s.stride t.stride (s.addr dst.left dst.top) (t.addr src.left src.top) 0
      (dst.bottom - dst.top + 1).toNat
  else
    stretchedLines (columnOf src dst) (lineOf src dst) s.stride t.stride (s.addr dst.left dst.top)
      (t.addr src.left src.top) (dst.right - dst.left + 1).toNat 0 (dst.bottom - dst.top + 1).toNat

theorem moveFrom_eq (s t : Surface) (src dst : Rect) (mem : Bits) :
    s.moveFrom t src dst mem = run (s.Allowed t) (s.movesFrom t src dst) mem := by
  unfold moveFrom movesFrom
  by_cases hsize : SameSize src dst
  · have hloop := moveLoop_eq s t ((dst.right - dst.left + 1) * 3) s.stride t.stride (s.addr dst.left dst.top)
      (t.addr src.left src.top) (dst.bottom - dst.top + 1).toNat 0 mem
    simp only [Nat.cast_zero, Int.zero_mul, Int.add_zero] at hloop
    rw [if_pos hsize, if_pos hsize, ← hloop, addr, addr, Int.add_right_comm s.bits, Int.add_right_comm t.bits]
  · rw [if_neg hsize, if_neg hsize]
    by_cases hwidth : 0 < dst.right - dst.left + 1
    · by_cases hheight : 0 < dst.bottom - dst.top + 1
      · have hloop := stretchLoop_eq s t (src.right - src.left + 1) (src.bottom - src.top + 1) hwidth hheight
          (s.addr dst.left dst.top) (t.addr src.left src.top) (dst.bottom - dst.top + 1).toNat 0 mem
        have hstart : sourceLine (src.bottom - src.top + 1) (dst.bottom - dst.top + 1) 0 = 0 := by simp [sourceLine]
        have hcol : columnOf src dst = sourceColumn (src.right - src.left + 1) (dst.right - dst.left + 1) :=
          funext fun j => if_neg hsize
        have hrow : lineOf src dst = sourceLine (src.bottom - src.top + 1) (dst.bottom - dst.top + 1) :=
          funext fun l => if_neg hsize
        simp only [hstart, Nat.cast_zero, Int.zero_mul, Int.add_zero, Int.sub_zero] at hloop
        rw [hcol, hrow, ← hloop]
        rfl
      · simp only [toNat_of_nonpos (Int.not_lt.1 hheight)]
        rfl
    · have hempty : stretchedLines (columnOf src dst) (lineOf src dst) s.stride t.stride (s.addr dst.left dst.top)
          (t.addr src.left src.top) (dst.right - dst.left + 1).toNat 0 (dst.bottom - dst.top + 1).toNat = [] := by
        rw [toNat_of_nonpos (Int.not_lt.1 hwidth), stretchedLines, flatMap_eq_nil_iff]
        exact fun l _ => rfl
      rw [hempty]
      exact stretchLoop_empty s t _ _ _ (Int.not_lt.1 hwidth) _ _ _ _ _ _

variable {src dst : Rect}

/-- **What a moved byte is**: one of a pixel of the destination, from the pixel of the source that is shown there. -/
theorem origin_of_mem_movesFrom (hm : m ∈ s.movesFrom t src dst) (ha : m.Covers a) :
    ∃ j l : Nat, (j < dst.right - dst.left + 1 ∧ l < dst.bottom - dst.top + 1) ∧ ∃ k : Int, (0 ≤ k ∧ k < 3) ∧
      a = s.addr (dst.left + j) (dst.top + l) + k ∧
        m.origin a = t.addr (src.left + columnOf src dst j) (src.top + lineOf src dst l) + k := by
  rw [Move.origin_of_covers ha]
  unfold movesFrom at hm
  unfold Move.Covers at ha
  by_cases hsize : SameSize src dst
  · rw [if_pos hsize, lineMoves, mem_map] at hm
    obtain ⟨l, hl, rfl⟩ := hm
    rw [mem_range'_1] at hl
    simp only at ha ⊢
    simp only [columnOf, lineOf, if_pos hsize]
    obtain ⟨j, hj⟩ := eq_ofNat_of_zero_le (a := (a - (s.addr dst.left dst.top + l * s.stride)) / 3) (by omega)
    refine ⟨j, l, by omega, a - (s.addr dst.left dst.top + l * s.stride) - j * 3, by omega, ?_, ?_⟩
    · unfold addr
      ring
    · unfold addr
      ring
  · rw [if_neg hsize, stretchedLines, mem_flatMap] at hm
    obtain ⟨l, hl, hm⟩ := hm
    rw [stretchedLine, mem_flatMap] at hm
    obtain ⟨j, hj, hm⟩ := hm
    rw [mem_range'_1] at hl hj
    refine ⟨j, l, by omega, a - s.addr (dst.left + j) (dst.top + l), ?_⟩
    have hdest : s.addr (dst.left + j) (dst.top + l) = s.addr dst.left dst.top + l * s.stride + j * 3 := by
      unfold addr
      ring
    have hsource : ∀ x y : Nat, t.addr (src.left + x) (src.top + y) =
        t.addr src.left src.top + y * t.stride + x * 3 := by
      intro x y
      unfold addr
      ring
    rw [hdest, hsource]
    simp only [pixelMoves, mem_cons, not_mem_nil, or_false] at hm
    rcases hm with rfl | rfl | rfl
    · simp only at ha ⊢
      omega
    · simp only at ha ⊢
      omega
    · simp only at ha ⊢
      omega

theorem exists_mem_movesFrom {src dst : Rect} {j l : Nat}
    (hin : j < dst.right - dst.left + 1 ∧ l < dst.bottom - dst.top + 1) {k : Int} (hk : 0 ≤ k ∧ k < 3) :
    ∃ m ∈ s.movesFrom t src dst, m.Covers (s.addr (dst.left + j) (dst.top + l) + k) := by
  have hdest : s.addr (dst.left + j) (dst.top + l) = s.addr dst.left dst.top + l * s.stride + j * 3 := by
    unfold addr
    ring
  unfold movesFrom Move.Covers
  rw [hdest]
  by_cases hsize : SameSize src dst
  · rw [if_pos hsize]
    refine ⟨_, mem_map_of_mem (mem_range'_1.2 ⟨zero_le l, by omega⟩), ?_⟩
    simp only
    omega
  · rw [if_neg hsize]
    have hpixel : ∃ m ∈ pixelMoves (s.addr dst.left dst.top + l * s.stride + j * 3)
        (t.addr src.left src.top + lineOf src dst l * t.stride + columnOf src dst j * 3),
        m.dst ≤ s.addr dst.left dst.top + l * s.stride + j * 3 + k ∧
          s.addr dst.left dst.top + l * s.stride + j * 3 + k < m.dst + m.size := by
      simp only [pixelMoves, mem_cons, not_mem_nil, or_false, exists_eq_or_imp, exists_eq_left]
      omega
    obtain ⟨m, hm, ha⟩ := hpixel
    refine ⟨m, mem_flatMap.2 ⟨l, mem_range'_1.2 ⟨zero_le l, by omega⟩, ?_⟩, ha⟩
    exact mem_flatMap.2 ⟨j, mem_range'_1.2 ⟨zero_le j, by omega⟩, hm⟩

def Apart (s t : Surface) : Prop := ∀ a, ¬ (s.Holds a ∧ t.Holds a)

/-- **What is shown** after copying from another surface. -/
theorem trace_movesFrom {src dst : Rect} (hapart : s.Apart t) (hdst : dst.Within s)
    (hallowed : ∀ m ∈ s.movesFrom t src dst, s.Allowed t m) {j l : Nat}
    (hin : j < dst.right - dst.left + 1 ∧ l < dst.bottom - dst.top + 1) {k : Int} (hk : 0 ≤ k ∧ k < 3) :
    trace (s.movesFrom t src dst) (s.addr (dst.left + j) (dst.top + l) + k) =
      t.addr (src.left + columnOf src dst j) (src.top + lineOf src dst l) + k := by
  obtain ⟨-, hx, hy⟩ := hdst
  have hsame : ∀ m ∈ s.movesFrom t src dst, ∀ j l : Nat,
      (j < dst.right - dst.left + 1 ∧ l < dst.bottom - dst.top + 1) → ∀ k : Int, (0 ≤ k ∧ k < 3) →
        m.Covers (s.addr (dst.left + j) (dst.top + l) + k) → m.origin (s.addr (dst.left + j) (dst.top + l) + k) =
          t.addr (src.left + columnOf src dst j) (src.top + lineOf src dst l) + k := by
    intro m hm j l hin k hk ha
    obtain ⟨j', l', hin', k', hk', haddr, horigin⟩ := origin_of_mem_movesFrom hm ha
    obtain ⟨⟨hj, hl⟩, rfl⟩ := addr_inj (by omega) (by omega) hk hk' haddr
    obtain rfl : j = j' := by omega
    obtain rfl : l = l' := by omega
    exact horigin
  have hundisturbed : Undisturbed (s.movesFrom t src dst) := by
    refine pairwise_of_forall_mem_list fun m hm m' hm' a ha' => ⟨fun ha => ?_, fun ha => ?_⟩
    · exact hapart _ ⟨((hallowed m hm).of_covers ha).1, ((hallowed m' hm').of_covers ha').2⟩
    · obtain ⟨j, l, hin, k, hk, rfl, horigin⟩ := origin_of_mem_movesFrom hm' ha'
      rw [horigin]
      exact hsame m hm j l hin k hk ha
  obtain ⟨m, hm, ha⟩ := @exists_mem_movesFrom s t src dst j l hin k hk
  rw [hundisturbed.trace_eq hm ha]
  exact hsame m hm j l hin k hk ha

theorem allowed_of_covers (hsize : 0 ≤ m.size)
    (h : ∀ a, m.Covers a → s.Holds a ∧ t.Holds (m.origin a)) : s.Allowed t m := by
  refine ⟨hsize, fun k hk => ?_⟩
  have hcovers : m.Covers (m.dst + k) := by
    unfold Move.Covers
    omega
  have hbyte := h (m.dst + k) hcovers
  have hoffset : m.dst + k - m.dst + m.src = m.src + k := by omega
  rw [Move.origin_of_covers hcovers, hoffset] at hbyte
  exact hbyte

/-! ### The two roundings -/

theorem sourceColumn_natCast (c d j : Nat) : sourceColumn c d j = j * c / d := by
  rw [sourceColumn, ← natCast_mul, toNat_natCast, toNat_natCast]

theorem sourceLine_natCast (c d l : Nat) : sourceLine c d l = (l * c - 1) / d := by
  rw [sourceLine, ← natCast_mul, toNat_natCast]
  congr 1
  omega

/-- Columns are scaled by one where the source is at most one wider. -/
theorem sourceColumn_id_iff {c d : Nat} (hd : 0 < d) :
    (∀ j < d, sourceColumn c d j = j) ↔ d = 1 ∨ c = d ∨ c = d + 1 := by
  simp only [sourceColumn_natCast]
  constructor
  · intro h
    obtain rfl | ⟨e, rfl⟩ : d = 1 ∨ ∃ e, d = e + 2 := by
      rcases Nat.lt_or_ge d 2 with hlt | hge
      · exact .inl (by omega)
      · exact .inr ⟨d - 2, by omega⟩
    · exact .inl rfl
    · obtain ⟨hbelow, habove⟩ := (Nat.div_eq_iff hd).1 (h (e + 1) (by omega))
      have hwide : e + 2 ≤ c := Nat.le_of_mul_le_mul_left hbelow (succ_pos e)
      have hnarrow : (e + 1) * c ≤ (e + 1) * (e + 3) := by
        rw [mul_succ (e + 1) (e + 2)]
        omega
      have := Nat.le_of_mul_le_mul_left hnarrow (succ_pos e)
      omega
  · intro h j hj
    rw [Nat.div_eq_iff hd]
    rcases h with rfl | rfl | rfl
    · obtain rfl : j = 0 := by omega
      omega
    · omega
    · rw [Nat.mul_add]
      omega

/-- Lines are scaled by one where the source is one higher, and where it is two lines of four. -/
theorem sourceLine_id_iff {c d : Nat} (hd : 0 < d) :
    (∀ l < d, sourceLine c d l = l) ↔ d = 1 ∨ c = d + 1 ∨ (d = 2 ∧ c = 4) := by
  simp only [sourceLine_natCast]
  constructor
  · intro h
    obtain rfl | ⟨e, rfl⟩ : d = 1 ∨ ∃ e, d = e + 2 := by
      rcases Nat.lt_or_ge d 2 with hlt | hge
      · exact .inl (by omega)
      · exact .inr ⟨d - 2, by omega⟩
    · exact .inl rfl
    · obtain ⟨hbelow, -⟩ := (Nat.div_eq_iff hd).1 (h 1 (by omega))
      obtain ⟨-, habove⟩ := (Nat.div_eq_iff hd).1 (h (e + 1) (by omega))
      have hexpand : (e + 1) * (e + 3) = (e + 1) * (e + 2) + (e + 1) := mul_succ (e + 1) (e + 2)
      have hnext : (e + 1) * (e + 4) = (e + 1) * (e + 3) + (e + 1) := mul_succ (e + 1) (e + 3)
      rcases Nat.eq_zero_or_pos e with rfl | he
      · omega
      · have hflat : (e + 1) * c < (e + 1) * (e + 4) := by omega
        have := Nat.lt_of_mul_lt_mul_left hflat
        omega
  · intro h l hl
    rw [Nat.div_eq_iff hd]
    rcases h with rfl | rfl | ⟨rfl, rfl⟩
    · obtain rfl : l = 0 := by omega
      omega
    · rw [Nat.mul_add]
      rcases Nat.eq_zero_or_pos l with rfl | hpos
      · omega
      · omega
    · omega

theorem columnOf_lt {src dst : Rect} {j : Nat} (hsrc : src.valid = true) (hj : j < dst.right - dst.left + 1) :
    columnOf src dst j < src.right - src.left + 1 := by
  simp only [Rect.valid_iff] at hsrc
  unfold columnOf
  by_cases hsize : SameSize src dst
  · rw [if_pos hsize]
    rw [SameSize] at hsize
    omega
  · obtain ⟨c, hc⟩ := eq_ofNat_of_zero_le (a := src.right - src.left + 1) (by omega)
    obtain ⟨d, hd⟩ := eq_ofNat_of_zero_le (a := dst.right - dst.left + 1) (by omega)
    rw [if_neg hsize, hc, hd, sourceColumn_natCast]
    have : j * c / d < c := Nat.div_lt_of_lt_mul (Nat.mul_lt_mul_of_pos_right (by omega) (by omega))
    omega

theorem lineOf_lt {src dst : Rect} {l : Nat} (hsrc : src.valid = true) (hl : l < dst.bottom - dst.top + 1) :
    lineOf src dst l < src.bottom - src.top + 1 := by
  simp only [Rect.valid_iff] at hsrc
  unfold lineOf
  by_cases hsize : SameSize src dst
  · rw [if_pos hsize]
    rw [SameSize] at hsize
    omega
  · obtain ⟨c, hc⟩ := eq_ofNat_of_zero_le (a := src.bottom - src.top + 1) (by omega)
    obtain ⟨d, hd⟩ := eq_ofNat_of_zero_le (a := dst.bottom - dst.top + 1) (by omega)
    rw [if_neg hsize, hc, hd, sourceLine_natCast]
    have hlt : l * c < d * c := Nat.mul_lt_mul_of_pos_right (by omega) (by omega)
    have : (l * c - 1) / d < c := Nat.div_lt_of_lt_mul (by omega)
    omega

@[simp] theorem columnOf_zero (src dst : Rect) : columnOf src dst 0 = 0 := by
  unfold columnOf sourceColumn
  split <;> simp

@[simp] theorem lineOf_zero (src dst : Rect) : lineOf src dst 0 = 0 := by
  unfold lineOf sourceLine
  split <;> simp

theorem allowed_movesFrom (hsrc : src.Within t) (hdst : dst.Within s) :
    ∀ m ∈ s.movesFrom t src dst, s.Allowed t m := by
  intro m hm
  refine allowed_of_covers ?_ fun a ha => ?_
  · unfold movesFrom at hm
    have hvalid := hdst.1
    simp only [Rect.valid_iff] at hvalid
    split at hm
    · obtain ⟨l, -, rfl⟩ := mem_map.1 hm
      simp only
      omega
    · obtain ⟨l, -, hline⟩ := mem_flatMap.1 hm
      obtain ⟨j, -, hpixel⟩ := mem_flatMap.1 hline
      exact size_nonneg_of_mem_pixelMoves hpixel
  · obtain ⟨j, l, ⟨hj, hl⟩, k, hk, rfl, horigin⟩ := origin_of_mem_movesFrom hm ha
    have hcolumn := columnOf_lt hsrc.1 hj
    have hline := lineOf_lt hsrc.1 hl
    rw [horigin]
    exact ⟨holds_of_within hdst hj hl hk, holds_of_within hsrc hcolumn hline hk⟩

end Surface

end Windowing
