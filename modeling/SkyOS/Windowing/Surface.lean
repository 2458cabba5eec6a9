import Mathlib.Data.List.Nodup
import Mathlib.Tactic.Linarith
import SkyOS.Windowing.Region

/-!
# Surfaces (`WindowingSystem/Surface.h`, the stores of `Rasterizer24bpp.cpp`)

A surface is a range of memory: the pixel in column `x` of line `y` is three bytes at `x * 3 + y * stride`. The
rasterizer goes through it with a pointer and stores a pixel where that points.

| here | there |
| --- | --- |
| `Bits` | the memory, by address |
| `bits`, `stride` | `lockBits()`, `getStride()` |
| `Drawing.stored` | the values of `ptr` at which a pixel was stored, the last one first |
-/

namespace Windowing

open List

abbrev Bits := Int → UInt8

inductive ColorSpace where
  | kCMAP8
  | kRGB565
  | kRGB24
  | kRGBA32
deriving DecidableEq, Repr

structure Surface where
  colorSpace : ColorSpace
  width : Int
  height : Int
  bits : Int
  stride : Int
  /-- Each line has room for three bytes a pixel, as in all surfaces that are made (`kRGB24`). -/
  fits : 3 * width ≤ stride

namespace Surface

/-- Where the pixel at `x`, `y` begins. -/
def addr (s : Surface) (x y : Int) : Int := s.bits + x * 3 + y * s.stride

def Inside (s : Surface) (p : Int × Int) : Prop := (0 ≤ p.1 ∧ p.1 < s.width) ∧ 0 ≤ p.2 ∧ p.2 < s.height
  deriving Decidable

variable {s : Surface} {x y x' y' k k' : Int}

theorem addr_inj (hx : 0 ≤ x ∧ x < s.width) (hx' : 0 ≤ x' ∧ x' < s.width) (hk : 0 ≤ k ∧ k < 3) (hk' : 0 ≤ k' ∧ k' < 3)
    (h : s.addr x y + k = s.addr x' y' + k') : (x = x' ∧ y = y') ∧ k = k' := by
  have hfits := s.fits
  simp only [addr] at h
  have hy : y = y' := by
    rcases Int.lt_trichotomy y y' with hlt | heq | hlt
    · have hstep : s.stride ≤ (y' - y) * s.stride := le_mul_of_one_le_left (by omega) (by omega)
      rw [Int.sub_mul] at hstep
      omega
    · exact heq
    · have hstep : s.stride ≤ (y - y') * s.stride := le_mul_of_one_le_left (by omega) (by omega)
      rw [Int.sub_mul] at hstep
      omega
  subst hy
  omega

theorem addr_pixel_inj {p q : Int × Int} (hp : 0 ≤ p.1 ∧ p.1 < s.width) (hq : 0 ≤ q.1 ∧ q.1 < s.width)
    (h : s.addr p.1 p.2 = s.addr q.1 q.2) : p = q := by
  have hsame := @addr_inj s p.1 p.2 q.1 q.2 0 0 hp hq (by omega) (by omega) (by omega)
  exact Prod.ext hsame.1.1 hsame.1.2

end Surface

def eightByEight : Surface := ⟨.kRGB24, 8, 8, 0x1000, 24, by decide⟩

def black : Bits := fun _ => 0

/-! ## Storing pixels -/

/-- `( color >> 8 * k ) & 0xff`. -/
def colorByte (color : Int) (k : Nat) : UInt8 := UInt8.ofNat (color / 256 ^ k % 256).toNat

/-- `ptr[0] = color & 0xff`, and the two bytes after it (`Rasterizer24bpp.cpp:59`). -/
def storePixel (mem : Bits) (ptr color : Int) : Bits := fun a =>
  if a = ptr then colorByte color 0
  else if a = ptr + 1 then colorByte color 1
  else if a = ptr + 2 then colorByte color 2
  else mem a

structure Drawing where
  mem : Bits
  stored : List Int

def Drawing.store (d : Drawing) (ptr color : Int) : Drawing := ⟨storePixel d.mem ptr color, ptr :: d.stored⟩

def Drawing.pixels (s : Surface) (color : Int) (ps : List (Int × Int)) (d : Drawing) : Drawing :=
  ps.foldl (fun d p => d.store (s.addr p.1 p.2) color) d

structure Painted (s : Surface) (color : Int) (pixels : Set (Int × Int)) (mem mem' : Bits) : Prop where
  inside : ∀ p ∈ pixels, ∀ k : Nat, k < 3 → mem' (s.addr p.1 p.2 + k) = colorByte color k
  outside : ∀ a, (∀ p ∈ pixels, ∀ k : Nat, k < 3 → a ≠ s.addr p.1 p.2 + k) → mem' a = mem a

theorem storePixel_self (mem : Bits) (ptr color : Int) {k : Nat} (hk : k < 3) :
    storePixel mem ptr color (ptr + k) = colorByte color k := by
  unfold storePixel
  obtain rfl | rfl | rfl : k = 0 ∨ k = 1 ∨ k = 2 := by omega
  · simp
  · simp
  · simp

theorem storePixel_of_ne (mem : Bits) {ptr a : Int} (color : Int) (h : ∀ k : Nat, k < 3 → a ≠ ptr + k) :
    storePixel mem ptr color a = mem a := by
  have h0 : a ≠ ptr := by simpa using h 0 (by omega)
  have h1 : a ≠ ptr + 1 := h 1 (by omega)
  have h2 : a ≠ ptr + 2 := h 2 (by omega)
  unfold storePixel
  rw [if_neg h0, if_neg h1, if_neg h2]

namespace Drawing

variable {s : Surface} {color : Int} {ps : List (Int × Int)}

theorem pixels_cons (p : Int × Int) (d : Drawing) :
    d.pixels s color (p :: ps) = (d.store (s.addr p.1 p.2) color).pixels s color ps := rfl

theorem pixels_append (ps qs : List (Int × Int)) (d : Drawing) :
    d.pixels s color (ps ++ qs) = (d.pixels s color ps).pixels s color qs := foldl_append

theorem stored_pixels (ps : List (Int × Int)) : ∀ d : Drawing,
    (d.pixels s color ps).stored = (ps.map fun p => s.addr p.1 p.2).reverse ++ d.stored := by
  induction ps with
  | nil => exact fun d => rfl
  | cons p ps ih =>
    intro d
    rw [pixels_cons, ih]
    simp [store]

/-- **Painting** pixel after pixel. -/
theorem painted_pixels : ∀ d : Drawing, (∀ p ∈ ps, 0 ≤ p.1 ∧ p.1 < s.width) →
    Painted s color {p | p ∈ ps} d.mem (d.pixels s color ps).mem := by
  induction ps with
  | nil => exact fun d _ => ⟨fun p hp => absurd hp not_mem_nil, fun a _ => rfl⟩
  | cons p ps ih =>
    intro d hps
    have hrest := ih (d.store (s.addr p.1 p.2) color) fun q hq => hps q (mem_cons_of_mem p hq)
    have hp := hps p (.head _)
    constructor
    · intro q hq k hk
      by_cases hlater : q ∈ ps
      · exact hrest.inside q hlater k hk
      · obtain rfl := (mem_cons.1 hq).resolve_right hlater
        rw [pixels_cons, hrest.outside]
        · exact storePixel_self _ _ _ hk
        · intro q' hq' k' hk' heq
          obtain ⟨hsame, -⟩ := Surface.addr_inj hp (hps q' (mem_cons_of_mem q hq')) (by omega) (by omega) heq
          exact hlater (Prod.ext hsame.1 hsame.2 ▸ hq')
    · intro a ha
      rw [pixels_cons, hrest.outside a fun q hq => ha q (mem_cons_of_mem p hq)]
      exact storePixel_of_ne _ _ (ha p (.head _))

theorem addr_mem_stored {p : Int × Int} (hps : ∀ q ∈ ps, 0 ≤ q.1 ∧ q.1 < s.width) (hp : 0 ≤ p.1 ∧ p.1 < s.width)
    (mem : Bits) : s.addr p.1 p.2 ∈ (pixels s color ps ⟨mem, []⟩).stored ↔ p ∈ ps := by
  rw [stored_pixels, append_nil, mem_reverse, mem_map]
  constructor
  · rintro ⟨q, hq, heq⟩
    exact Surface.addr_pixel_inj (hps q hq) hp heq ▸ hq
  · exact fun h => ⟨p, h, rfl⟩

theorem nodup_stored (hps : ∀ q ∈ ps, 0 ≤ q.1 ∧ q.1 < s.width) (hnodup : ps.Nodup) (mem : Bits) :
    (pixels s color ps ⟨mem, []⟩).stored.Nodup := by
  rw [stored_pixels, append_nil, nodup_reverse]
  refine List.Nodup.map_on (fun p hp q hq heq => ?_) hnodup
  exact Surface.addr_pixel_inj (hps p hp) (hps q hq) heq

end Drawing

end Windowing
