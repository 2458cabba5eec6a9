import Mathlib.Data.Nat.Digits.Lemmas
import SkyOS.Stdio.Vfscanf

/-!
# Numerals (`CommonLib/sprintf.cpp:28`, `CommonLib/stdio.cpp:320`)

`itoa` writes the numeral of an unsigned number, and `strtol` reads a numeral with a sign. There are two functions
`itoa_s`; the header declares the one for an `unsigned int` only, so that this is the one which is called from
`stdio.cpp`.

| here | there |
| --- | --- |
| `tbufFrom` | the loop over the digits, the lowest first; the first argument is the room left in `tbuf` |
| the result of `itoa_s` | the string in the buffer, which is all zeros before |
| the head and the tail of the list in `strtol` | `c` and `s`; `s - 1` is the list |
| `none` as a result | a read behind the terminator, a write behind a buffer, a division by zero |
-/

namespace Printf

open Machine List
open Stdio (isspace isdigit charOf)

def minus : UInt8 := 45

/-! ## The code -/

/-- `bchars` (`sprintf.cpp:26`). -/
def bchars : List UInt8 := [48, 49, 50, 51, 52, 53, 54, 55, 56, 57, 65, 66, 67, 68, 69, 70]

/-- The first loop of `itoa` (:41). -/
def tbufFrom (base : Nat) : Nat → Nat → Option (List UInt8)
  | 0, i => if i = 0 then some [] else none
  | room + 1, i =>
    if i = 0 then some []
    else if base = 0 then none
    else bchars[i % base]?.bind fun c => (tbufFrom base room (i / base)).map (c :: ·)

/-- `itoa` (:28). -/
def itoa (i base : Nat) : Option (List UInt8) :=
  if i = 0 ∨ 16 < base then some [48] else (tbufFrom base 32 i).map List.reverse

/-- `itoa_s` for an `unsigned int` (:61), with a buffer of `size` bytes. -/
def itoa_s (i base size : Nat) : Option (List UInt8) :=
  if 16 < base then some []
  else (itoa i base).bind fun s => if s.length < size then some s else none

def isupper (c : Int) : Bool := 65 ≤ c % 256 && c % 256 ≤ 90

def isalpha (c : Int) : Bool := isupper c || 97 ≤ c % 256 && c % 256 ≤ 122

/-- The sign (`stdio.cpp:338`): `neg`, and what is behind it. -/
def signOf : List UInt8 → Bool × List UInt8
  | [] => (false, [])
  | c :: s => if c = 45 then (true, s) else if c = 43 then (false, s) else (false, c :: s)

/-- The base with its prefix (:344). -/
def baseOf (base : Nat) (s : List UInt8) : Nat × List UInt8 :=
  if (base = 0 ∨ base = 16) ∧ s.head? = some 48 ∧ (s[1]? = some 120 ∨ s[1]? = some 88) then (16, s.drop 2)
  else if (base = 0 ∨ base = 2) ∧ s.head? = some 48 ∧ (s[1]? = some 98 ∨ s[1]? = some 66) then (2, s.drop 2)
  else (if base = 0 then (if s.head? = some 48 then 8 else 10) else base, s)

/-- A character as a digit (:380); `none` leaves the loop. -/
def digitOf (c : Int) : Option Int :=
  if isdigit c then some (c - 48)
  else if isalpha c then some (c - (if isupper c then 65 - 10 else 97 - 10))
  else none

/-- The loop of `strtol` (:379): `any`, `acc`, and what is left. -/
def strtolFrom (base cutoff cutlim : Nat) : List UInt8 → Int → Nat → Option (Int × Nat × List UInt8)
  | [], _, _ => none
  | b :: s, any, acc =>
    match digitOf (charOf b) with
    | none => some (any, acc, b :: s)
    | some c =>
      if c ≥ base then some (any, acc, b :: s)
      else if any < 0 ∨ acc > cutoff ∨ acc = cutoff ∧ c > cutlim then strtolFrom base cutoff cutlim s (-1) acc
      else strtolFrom base cutoff cutlim s 1 (u32 (u32 (acc * base) + dword c))

/-- `cutoff` before it is divided (:376), the largest legal value. -/
def limit (neg : Bool) : Nat := if neg then 2 ^ 31 else 2 ^ 31 - 1

/-- `strtol` (:320): the result, and where `*endptr` points to. -/
def strtol (nptr : List UInt8) (base : Nat) : Option (Int × Nat) :=
  let (neg, s) := signOf (nptr.dropWhile fun c => isspace (charOf c))
  let (base, s) := baseOf base s
  (strtolFrom base (limit neg / base) (limit neg % base) s 0 0).map fun (any, acc, rest) =>
    (if any < 0 then (if neg then -2 ^ 31 else 2 ^ 31 - 1) else if neg then toInt32 (-acc) else toInt32 acc,
      if any = 0 then 0 else nptr.length - rest.length)

/-! ## What they should be -/

def digits (base n : Nat) : List Nat := if n = 0 then [0] else (Nat.digits base n).reverse

/-- `0` to `9`, and `A` to `F` behind them. -/
def digitChar (d : Nat) : UInt8 := UInt8.ofNat (if d < 10 then 48 + d else 55 + d)

def numeral (base n : Nat) : List UInt8 := (digits base n).map digitChar

def signed (base : Nat) (n : Int) : List UInt8 :=
  if n < 0 then minus :: numeral base n.natAbs else numeral base n.natAbs

/-! ## Digits -/

section Digits

variable {base n : Nat}

theorem digits_lt (hbase : 1 < base) {d : Nat} (hd : d ∈ digits base n) : d < base := by
  unfold digits at hd
  split at hd
  · rw [mem_singleton] at hd
    omega
  · exact Nat.digits_lt_base hbase (mem_reverse.1 hd)

theorem digits_ne_nil (base n : Nat) : digits base n ≠ [] := by
  unfold digits
  split
  · exact cons_ne_nil _ _
  · rename_i hn
    exact mt reverse_eq_nil_iff.1 (Nat.digits_ne_nil_iff_ne_zero.2 hn)

theorem length_digits_le (hbase : 1 < base) {k : Nat} (hk : 0 < k) (hn : n < base ^ k) :
    (digits base n).length ≤ k := by
  unfold digits
  split
  · exact hk
  · rw [length_reverse]
    exact (Nat.digits_length_le_iff hbase n).2 hn

theorem digits_value (base n : Nat) : (digits base n).foldl (fun acc d => acc * base + d) 0 = n := by
  unfold digits
  split
  · rename_i hn
    rw [hn, foldl_cons, foldl_nil, Nat.zero_mul]
  · rw [foldl_reverse]
    calc (Nat.digits base n).foldr (fun d acc => acc * base + d) 0
        = Nat.ofDigits base (Nat.digits base n) := by
          rw [Nat.ofDigits_eq_foldr]
          congr 1
          funext d acc
          rw [Nat.cast_id, Nat.mul_comm, Nat.add_comm]
      _ = n := Nat.ofDigits_digits base n

theorem length_numeral (base n : Nat) : (numeral base n).length = (digits base n).length := length_map _

end Digits

/-! ## Writing -/

section Writing

variable {base i : Nat}

theorem bchars_eq : ∀ d < 16, bchars[d]? = some (digitChar d) := by decide

theorem tbufFrom_eq (hbase : 1 < base) (h16 : base ≤ 16) :
    ∀ room i, (Nat.digits base i).length ≤ room → tbufFrom base room i = some ((Nat.digits base i).map digitChar) := by
  intro room
  induction room with
  | zero =>
    intro i hlength
    have hi : i = 0 := Nat.digits_eq_nil_iff_eq_zero.1 (length_eq_zero_iff.1 (Nat.le_zero.1 hlength))
    rw [tbufFrom, if_pos hi, hi, Nat.digits_zero, map_nil]
  | succ room ih =>
    intro i hlength
    by_cases hi : i = 0
    · rw [tbufFrom, if_pos hi, hi, Nat.digits_zero, map_nil]
    · have hdigits : Nat.digits base i = i % base :: Nat.digits base (i / base) :=
        Nat.digits_def' hbase (Nat.pos_of_ne_zero hi)
      have hlt : i % base < 16 := Nat.lt_of_lt_of_le (Nat.mod_lt i (by omega)) h16
      rw [hdigits, length_cons] at hlength
      rw [tbufFrom, if_neg hi, if_neg (by omega), bchars_eq _ hlt, Option.bind_some, ih _ (by omega), hdigits]
      rfl

theorem itoa_eq (hbase : 1 < base) (h16 : base ≤ 16) (hi : (digits base i).length ≤ 32) :
    itoa i base = some (numeral base i) := by
  by_cases h0 : i = 0
  · rw [itoa, if_pos (.inl h0), h0]
    rfl
  · have hdigits : digits base i = (Nat.digits base i).reverse := if_neg h0
    rw [hdigits, length_reverse] at hi
    rw [itoa, if_neg (by omega), tbufFrom_eq hbase h16 32 i hi, numeral, hdigits, map_reverse]
    rfl

/-- From base 4 on a buffer of 32 bytes is large enough. -/
theorem itoa_s_eq (hbase : 4 ≤ base) (h16 : base ≤ 16) (hi : i < 2 ^ 32) :
    itoa_s i base 32 = some (numeral base i) := by
  have hlength : (digits base i).length ≤ 16 := by
    refine length_digits_le (by omega) (by omega) (Nat.lt_of_lt_of_le hi ?_)
    calc 2 ^ 32 = 4 ^ 16 := by norm_num
      _ ≤ base ^ 16 := Nat.pow_le_pow_left hbase 16
  rw [itoa_s, if_neg (by omega), itoa_eq (by omega) h16 (by omega), Option.bind_some, length_numeral,
    if_pos (by omega)]

end Writing

/-! ## Reading -/

section Reading

theorem digitChar_decimal :
    ∀ d < 10, isspace (charOf (digitChar d)) = false ∧ digitChar d ≠ 45 ∧ digitChar d ≠ 43 ∧
      digitOf (charOf (digitChar d)) = some (d : Int) := by
  decide

theorem le_foldl (ds : List Nat) : ∀ acc, acc ≤ ds.foldl (fun acc d => acc * 10 + d) acc := by
  induction ds with
  | nil => exact Nat.le_refl
  | cons d ds ih =>
    intro acc
    exact Nat.le_trans (by omega) (ih (acc * 10 + d))

/-- As long as the number fits, no digit is left out, and the loop ends at the terminator. -/
theorem strtolFrom_digits (cutoff cutlim : Nat) (hlimit : cutoff * 10 + cutlim < 2 ^ 32) (hcutlim : cutlim < 10)
    (rest : List UInt8) :
    ∀ (ds : List Nat) (any : Int) (acc : Nat), (∀ d ∈ ds, d < 10) → 0 ≤ any →
      ds.foldl (fun acc d => acc * 10 + d) acc ≤ cutoff * 10 + cutlim →
      strtolFrom 10 cutoff cutlim (ds.map digitChar ++ 0 :: rest) any acc =
        some (if ds = [] then any else 1, ds.foldl (fun acc d => acc * 10 + d) acc, 0 :: rest) := by
  intro ds
  induction ds with
  | nil => exact fun any acc _ _ _ => rfl
  | cons d ds ih =>
    intro any acc hds hany hle
    have hd : d < 10 := hds d (.head _)
    have hgrows : acc * 10 + d ≤ ds.foldl (fun acc d => acc * 10 + d) (acc * 10 + d) := le_foldl ds _
    rw [foldl_cons] at hle
    have hacc : u32 (u32 (acc * 10) + dword d) = acc * 10 + d := by
      rw [dword_natCast (by omega), u32_of_lt (x := acc * 10) (by omega), u32_of_lt (by omega)]
    rw [map_cons, cons_append, strtolFrom, (digitChar_decimal d hd).2.2.2]
    dsimp only
    rw [if_neg (by omega), if_neg (by omega), hacc,
      ih 1 _ (fun d hd => hds d (.tail _ hd)) (by decide) hle, if_neg (cons_ne_nil _ _), ite_self,
      foldl_cons]

theorem strtol_of_sign (rest : List UInt8) {nptr : List UInt8} {neg : Bool} {m : Nat}
    (hsign : signOf (nptr.dropWhile fun c => isspace (charOf c)) = (neg, numeral 10 m ++ 0 :: rest))
    (hm : m ≤ limit neg) :
    strtol nptr 10 = some (if neg then -(m : Int) else m, nptr.length - (rest.length + 1)) := by
  have hlimit : limit neg ≤ 2 ^ 31 := by cases neg <;> decide
  have hbase : baseOf 10 (numeral 10 m ++ 0 :: rest) = (10, numeral 10 m ++ 0 :: rest) := by
    rw [baseOf, if_neg (by simp), if_neg (by simp), if_neg (by decide)]
  have hloop := strtolFrom_digits (limit neg / 10) (limit neg % 10) (by omega) (Nat.mod_lt _ (by decide)) rest
    (digits 10 m) 0 0 (fun d hd => digits_lt (by decide) hd) (by decide) (by rw [digits_value]; omega)
  rw [digits_value, if_neg (digits_ne_nil 10 m)] at hloop
  unfold strtol
  rw [hsign]
  dsimp only
  rw [hbase]
  rw [numeral, hloop]
  cases neg with
  | false =>
    have hvalue : toInt32 (m : Int) = m := toInt32_of_isInt32 ⟨by omega, by unfold limit at hm; simp at hm; omega⟩
    simp [hvalue]
  | true =>
    have hvalue : toInt32 (-(m : Int)) = -m := toInt32_of_isInt32 ⟨by omega, by omega⟩
    simp [hvalue]

theorem signOf_numeral (m : Nat) (rest : List UInt8) :
    signOf ((numeral 10 m ++ 0 :: rest).dropWhile fun c => isspace (charOf c)) =
      (false, numeral 10 m ++ 0 :: rest) := by
  obtain ⟨d, ds, hdigits⟩ := exists_cons_of_ne_nil (digits_ne_nil 10 m)
  have hmem : d ∈ digits 10 m := by
    rw [hdigits]
    exact .head _
  have hd : d < 10 := digits_lt (by decide) hmem
  obtain ⟨hspace, hminus, hplus, -⟩ := digitChar_decimal d hd
  rw [numeral, hdigits, map_cons, cons_append, dropWhile_cons_of_neg (by rw [hspace]; decide), signOf,
    if_neg hminus, if_neg hplus]

theorem signOf_minus (m : Nat) (rest : List UInt8) :
    signOf ((minus :: numeral 10 m ++ 0 :: rest).dropWhile fun c => isspace (charOf c)) =
      (true, numeral 10 m ++ 0 :: rest) := by
  rw [cons_append, dropWhile_cons_of_neg (by decide)]
  rfl

/-- `strtol` to the base 10 reads back every `int`. -/
theorem strtol_signed {n : Int} (hn : IsInt32 n) (rest : List UInt8) :
    strtol (signed 10 n ++ 0 :: rest) 10 = some (n, (signed 10 n).length) := by
  obtain ⟨hlow, hhigh⟩ := hn
  have hlength : (signed 10 n ++ 0 :: rest).length - (rest.length + 1) = (signed 10 n).length := by
    rw [length_append, length_cons, Nat.add_sub_cancel]
  by_cases hneg : n < 0
  · have htext : signed 10 n = minus :: numeral 10 n.natAbs := if_pos hneg
    have hle : n.natAbs ≤ limit true := show n.natAbs ≤ 2 ^ 31 by omega
    rw [strtol_of_sign rest (by rw [htext, signOf_minus]) hle, if_pos rfl, hlength,
      Int.ofNat_natAbs_of_nonpos (Int.le_of_lt hneg), Int.neg_neg]
  · have htext : signed 10 n = numeral 10 n.natAbs := if_neg hneg
    have hle : n.natAbs ≤ limit false := show n.natAbs ≤ 2 ^ 31 - 1 by omega
    rw [strtol_of_sign rest (by rw [htext, signOf_numeral]) hle, if_neg Bool.false_ne_true, hlength,
      Int.natAbs_of_nonneg (Int.not_lt.1 hneg)]

end Reading

end Printf
