import Mathlib.Algebra.Group.Int.Defs
import Mathlib.Algebra.Group.Nat.Defs

/-!
# 32-bit machine integers

An `int` is an `Int` that every arithmetic operation wraps to `[-2^31, 2^31)`; an `unsigned int`
(`u32int`, `DWORD`) is a `Nat` reduced modulo `2^32`.
-/

namespace Machine

def toInt32 (x : Int) : Int := (x + 2 ^ 31) % 2 ^ 32 - 2 ^ 31

/-- The values of a 32-bit `int`. -/
def IsInt32 (x : Int) : Prop := -2 ^ 31 ≤ x ∧ x < 2 ^ 31
  deriving Decidable

theorem toInt32_of_isInt32 {x : Int} (h : IsInt32 x) : toInt32 x = x := by
  obtain ⟨h1, h2⟩ := h
  unfold toInt32
  omega

/-- The result of an `int` operation that must not overflow. -/
def int (x : Int) : Option Int := if IsInt32 x then some x else none

theorem int_of_isInt32 {x : Int} (h : IsInt32 x) : int x = some x := if_pos h

def u32 (x : Nat) : Nat := x % 2 ^ 32

theorem u32_of_lt {x : Nat} (h : x < 2 ^ 32) : u32 x = x := Nat.mod_eq_of_lt h

theorem u32_lt (x : Nat) : u32 x < 2 ^ 32 := Nat.mod_lt _ (by decide)

/-- `a - b` on unsigned 32-bit operands. -/
def sub32 (a b : Nat) : Nat := u32 (2 ^ 32 - u32 b + a)

theorem sub32_of_le {a b : Nat} (hb : b ≤ a) (ha : a < 2 ^ 32) : sub32 a b = a - b := by
  unfold sub32 u32; omega

/-- An `int` as an unsigned operand. -/
def dword (x : Int) : Nat := (x % 2 ^ 32).toNat

theorem dword_natCast {n : Nat} (h : n < 2 ^ 32) : dword n = n := by
  unfold dword
  omega

end Machine
