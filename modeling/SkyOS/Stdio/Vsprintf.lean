import SkyOS.Stdio.Numerals
import SkyOS.Strings.Tokens

/-!
# `vsprintf` (`CommonLib/stdio.cpp:21`)

The loop goes through the format up to its terminator, which the last round stores. Each round moves on in the format
and in the buffer by one; a conversion moves on in the format itself, and leaves `loc` at the last character of its
text, so that an empty text takes `loc` back by one.

| here | there |
| --- | --- |
| `Arg` | what is at `ap`: 32 bits, or a pointer to a string |
| `skip` | how often a conversion has counted `i` up, for the loop to pass over |
| the conversion `f` | is left out: `none` |
| `none` as a result | a write behind a buffer, an argument that does not match |
-/

namespace Printf

open Machine List
open StrUtil (CString store store_of_lt)

/-! ## The code -/

inductive Arg where
  | word (w : UInt32)
  | string (s : CString)

structure State where
  ap : List Arg
  str : List UInt8
  loc : Nat

/-- `strcpy` (`string.cpp:131`) to a place of the buffer. -/
def strcpy (str : List UInt8) (loc : Nat) : List UInt8 → Option (List UInt8)
  | [] => store str loc 0
  | c :: s => (store str loc c).bind fun str => strcpy str (loc + 1) s

/-- The digits of `_i64toa` (`sprintf.cpp:88`), the lowest of them first; there are at most `room`. -/
def i64From (radix : Nat) : Nat → Nat → List UInt8 → Option (List UInt8)
  | 0, _, _ => none
  | room + 1, val, pos =>
    let digit := val % radix
    let pos := UInt8.ofNat (if digit < 10 then 48 + digit else 97 + digit - 10) :: pos
    if val / radix = 0 then some pos else i64From radix room (val / radix) pos

/-- `_i64toa` (:68), with a buffer of `size` bytes; `value` as it is unsigned. -/
def i64toa (value radix size : Nat) : Option (List UInt8) :=
  let negative := 2 ^ 63 ≤ value ∧ radix = 10
  (i64From radix 64 (if negative then 2 ^ 64 - value else value) []).bind fun pos =>
    let pos := if negative then minus :: pos else pos
    if pos.length < size then some pos else none

namespace State

/-- `va_arg` for 32 bits and less. -/
def vaArg (s : State) : Option (UInt32 × State) :=
  match s.ap with
  | .word w :: ap => some (w, { s with ap := ap })
  | _ => none

/-- `va_arg` for 64 bits. -/
def vaArg64 (s : State) : Option (Nat × State) :=
  s.vaArg.bind fun (low, s) => s.vaArg.map fun (high, s) => (high.toNat * 2 ^ 32 + low.toNat, s)

/-- `str[loc] = c`. -/
def putChar (s : State) (c : UInt8) : Option State := (store s.str s.loc c).map fun str => { s with str := str }

/-- `strcpy(&str[loc], s); loc += strlen(s) - 1;`. -/
def put (s : State) (text : List UInt8) : Option State :=
  (strcpy s.str s.loc text).map fun str => { s with str := str, loc := u32 (s.loc + sub32 text.length 1) }

/-- `loc++`. -/
def next (s : State) : State := { s with loc := u32 (s.loc + 1) }

/-- The conversions with a sign (`stdio.cpp:48`, :72). -/
def putSigned (base : Nat) (s : State) : Option State :=
  s.vaArg.bind fun (w, s) =>
    let c := toInt32 w.toNat
    (if c < 0 then (s.putChar minus).map fun s => (toInt32 (-c), s.next) else some (c, s)).bind fun (c, s) =>
      (itoa_s (dword c) base 32).bind s.put

/-- The conversions without (:91, :150). -/
def putUnsigned (base : Nat) (s : State) : Option State :=
  s.vaArg.bind fun (w, s) => (itoa_s w.toNat base 32).bind s.put

/-- The strings (:103), which go through a buffer of 512 bytes. -/
def putString (s : State) : Option State :=
  match s.ap with
  | .string c :: ap => if c.bytes.length < 512 then { s with ap := ap }.put c.bytes else none
  | _ => none

end State

/-- The switch for a conversion (:37), with the two characters behind `%`: `skip`, and the state. -/
def conversion (d e : UInt8) (s : State) : Option (Nat × State) :=
  if d = 'c'.toUInt8 then (s.vaArg.bind fun (w, s) => s.putChar w.toUInt8).map fun s => (1, s)
  else if d = 'd'.toUInt8 ∨ d = 'I'.toUInt8 ∨ d = 'i'.toUInt8 then (s.putSigned 10).map fun s => (1, s)
  else if d = 'X'.toUInt8 ∨ d = 'p'.toUInt8 then (s.putSigned 16).map fun s => (1, s)
  else if d = 'x'.toUInt8 then (s.putUnsigned 16).map fun s => (1, s)
  else if d = 's'.toUInt8 then s.putString.map fun s => (1, s)
  else if d = 'f'.toUInt8 then none
  else if d = 'Q'.toUInt8 then
    (s.vaArg64.bind fun (value, s) => (i64toa value 10 20).bind s.put).map fun s => (1, s)
  else if d = 'q'.toUInt8 then
    (s.vaArg64.bind fun (value, s) => (i64toa value 16 20).bind s.put).map fun s => (1, s)
  else if d = 'l'.toUInt8 then
    if e = 'd'.toUInt8 then (s.putUnsigned 10).map fun s => (2, s) else some (1, s)
  else some (0, s)

def percent : UInt8 := 37

/-- The loop (:33) over the format without its terminator: `i`, and the buffer. -/
def vsprintfFrom : List UInt8 → Nat → Nat → State → Option (Nat × List UInt8)
  | [], _, i, s => (s.putChar 0).map fun s => (i + 1, s.str)
  | _ :: format, skip + 1, i, s => vsprintfFrom format skip (i + 1) s
  | c :: format, 0, i, s =>
    (if c = percent then conversion (format[0]?.getD 0) (format[1]?.getD 0) s
      else (s.putChar c).map fun s => (0, s)).bind fun (skip, s) => vsprintfFrom format skip (i + 1) s.next

/-- `vsprintf` (:21). -/
def vsprintf (str : List UInt8) (format : List UInt8) (ap : List Arg) : Option (Int × List UInt8) :=
  (vsprintfFrom format 0 0 ⟨ap, str, 0⟩).map fun (i, str) => (toInt32 i, str)

/-! ## What it should be -/

inductive Piece where
  | ordinary (c : { c : UInt8 // c ≠ 0 ∧ c ≠ percent })
  | d (n : { n : Int // IsInt32 n })
  | x (n : UInt32)
  | X (n : { n : Int // IsInt32 n })
  | c (n : UInt32)
  | s (s : { s : CString // s.bytes.length < 512 })

namespace Piece

def directive : Piece → List UInt8
  | .ordinary char => [char.1]
  | .d _ => [percent, 'd'.toUInt8]
  | .x _ => [percent, 'x'.toUInt8]
  | .X _ => [percent, 'X'.toUInt8]
  | .c _ => [percent, 'c'.toUInt8]
  | .s _ => [percent, 's'.toUInt8]

def arg : Piece → List Arg
  | .ordinary _ => []
  | .d n | .X n => [.word (UInt32.ofNat (dword n.1))]
  | .x n | .c n => [.word n]
  | .s string => [.string string.1]

/-- What a part stands for; `%X` is of an `int`, with its sign. -/
def text : Piece → List UInt8
  | .ordinary char => [char.1]
  | .d n => signed 10 n.1
  | .x n => numeral 16 n.toNat
  | .X n => signed 16 n.1
  | .c n => [n.toUInt8]
  | .s string => string.1.bytes

end Piece

def format (pieces : List Piece) : List UInt8 := pieces.flatMap Piece.directive

def args (pieces : List Piece) : List Arg := pieces.flatMap Piece.arg

def output (pieces : List Piece) : List UInt8 := pieces.flatMap Piece.text

structure Buffer where
  bytes : List UInt8
  length_le : bytes.length ≤ 2 ^ 32

/-- The buffer holds the output with one terminator, and behind it what it held before. -/
def Formats (pieces : List Piece) (str : Buffer) : Prop :=
  ∃ i, vsprintf str.bytes (format pieces) (args pieces) =
    some (i, output pieces ++ 0 :: str.bytes.drop ((output pieces).length + 1))

/-- `strtol` of what is in the buffer after `%d`. -/
def ReadsBack (n : { n : Int // IsInt32 n }) (str : Buffer) : Prop :=
  ∃ i text p, vsprintf str.bytes (Piece.d n).directive (Piece.d n).arg = some (i, text) ∧
    strtol text 10 = some (n.1, p)

/-! ## A text in the buffer -/

section Texts

variable {P R : List UInt8} {ap : List Arg}

theorem store_append (P : List UInt8) (r : UInt8) (R : List UInt8) (b : UInt8) :
    store (P ++ r :: R) P.length b = some (P ++ b :: R) := by
  rw [store_of_lt (by simp), set_append_right _ _ le_rfl, Nat.sub_self, set_cons_zero]

theorem strcpy_eq (text : List UInt8) :
    ∀ P R : List UInt8, text.length < R.length →
      strcpy (P ++ R) P.length text = some (P ++ text ++ 0 :: R.drop (text.length + 1)) := by
  induction text with
  | nil =>
    intro P R hlength
    obtain ⟨r, R, rfl⟩ := List.exists_cons_of_length_pos hlength
    rw [strcpy, store_append, List.append_nil]
    rfl
  | cons c text ih =>
    intro P R hlength
    rw [length_cons] at hlength
    obtain ⟨r, R, rfl⟩ := List.exists_cons_of_length_pos (Nat.lt_of_le_of_lt (Nat.zero_le _) hlength)
    rw [length_cons, Nat.add_lt_add_iff_right] at hlength
    have hrest := ih (P ++ [c]) R hlength
    rw [append_assoc, singleton_append, length_append, length_singleton] at hrest
    rw [strcpy, store_append, Option.bind_some, hrest, append_assoc P [c], singleton_append]
    rfl

/-- The text is stored with a terminator, and the next round goes on behind it. -/
def Puts (ap : List Arg) (P R text : List UInt8) (x : Option State) : Prop :=
  ∃ s, x = some s ∧ s.next = ⟨ap, P ++ text ++ 0 :: R.drop (text.length + 1), (P ++ text).length⟩

theorem u32_put {loc len : Nat} (h : loc + len < 2 ^ 32) : u32 (u32 (loc + sub32 len 1) + 1) = loc + len := by
  unfold sub32 u32
  omega

theorem puts_put (ap : List Arg) (P text : List UInt8) (hroom : text.length < R.length)
    (hR : P.length + R.length ≤ 2 ^ 32) :
    Puts ap P R text (State.put ⟨ap, P ++ R, P.length⟩ text) := by
  have hloc : u32 (u32 (P.length + sub32 text.length 1) + 1) = P.length + text.length := u32_put (by omega)
  refine ⟨_, by rw [State.put, strcpy_eq text P R hroom, Option.map_some], ?_⟩
  simp only [State.next, hloc, length_append]

theorem puts_unsigned (base : Nat) (hbase : 4 ≤ base) (h16 : base ≤ 16) (n : UInt32)
    (hroom : (numeral base n.toNat).length < R.length) (hR : P.length + R.length ≤ 2 ^ 32) :
    Puts ap P R (numeral base n.toNat) (State.putUnsigned base ⟨.word n :: ap, P ++ R, P.length⟩) := by
  have hput : State.putUnsigned base ⟨.word n :: ap, P ++ R, P.length⟩ =
      State.put ⟨ap, P ++ R, P.length⟩ (numeral base n.toNat) := by
    rw [State.putUnsigned, State.vaArg, Option.bind_some]
    dsimp only
    rw [itoa_s_eq hbase h16 n.toNat_lt, Option.bind_some]
  rw [hput]
  exact puts_put ap P _ hroom hR

variable {n : Int}

theorem toInt32_word (hn : IsInt32 n) : toInt32 (UInt32.ofNat (dword n)).toNat = n := by
  obtain ⟨hlow, hhigh⟩ := hn
  have hlt : dword n < 2 ^ 32 := by
    unfold dword
    omega
  have hdword : (UInt32.ofNat (dword n)).toNat = dword n := UInt32.toNat_ofNat_of_lt hlt
  rw [hdword]
  unfold dword toInt32
  omega

/-- The negation wraps around for the least number, but what it gives is right as an unsigned number. -/
theorem dword_toInt32_neg (hn : IsInt32 n) (hneg : n < 0) : dword (toInt32 (-n)) = n.natAbs := by
  obtain ⟨hlow, hhigh⟩ := hn
  unfold dword toInt32
  omega

theorem dword_nonneg (hn : IsInt32 n) (hneg : ¬ n < 0) : dword n = n.natAbs := by
  obtain ⟨hlow, hhigh⟩ := hn
  unfold dword
  omega

theorem puts_signed (base : Nat) (hbase : 4 ≤ base) (h16 : base ≤ 16) (hn : IsInt32 n)
    (hroom : (signed base n).length < R.length) (hR : P.length + R.length ≤ 2 ^ 32) :
    Puts ap P R (signed base n)
      (State.putSigned base ⟨.word (UInt32.ofNat (dword n)) :: ap, P ++ R, P.length⟩) := by
  have habs : n.natAbs < 2 ^ 32 := by
    obtain ⟨hlow, hhigh⟩ := hn
    omega
  obtain ⟨r, R, rfl⟩ := List.exists_cons_of_length_pos (Nat.lt_of_le_of_lt (Nat.zero_le _) hroom)
  rw [State.putSigned, State.vaArg, Option.bind_some]
  dsimp only
  rw [toInt32_word hn]
  by_cases hneg : n < 0
  · have htext : signed base n = minus :: numeral base n.natAbs := if_pos hneg
    rw [htext] at hroom ⊢
    rw [length_cons, length_cons] at hroom
    rw [length_cons] at hR
    have hnext : u32 (P.length + 1) = (P ++ [minus]).length := by
      rw [length_append, u32_of_lt (by omega)]
      rfl
    obtain ⟨s, hs, hsnext⟩ := puts_put ap (P ++ [minus]) (numeral base n.natAbs) (R := R)
      (by omega) (by rw [length_append, length_singleton]; omega)
    rw [append_assoc, singleton_append] at hs
    refine ⟨s, ?_, ?_⟩
    · rw [if_pos hneg, State.putChar, store_append, Option.map_some, Option.map_some, Option.bind_some,
        dword_toInt32_neg hn hneg, itoa_s_eq hbase h16 habs, Option.bind_some, State.next, hnext, hs]
    · rw [hsnext, append_assoc P, singleton_append]
      rfl
  · have htext : signed base n = numeral base n.natAbs := if_neg hneg
    rw [htext] at hroom ⊢
    rw [if_neg hneg, Option.bind_some, dword_nonneg hn hneg, itoa_s_eq hbase h16 habs, Option.bind_some]
    exact puts_put ap P _ hroom hR

theorem puts_string {string : CString} (h512 : string.bytes.length < 512) (hroom : string.bytes.length < R.length)
    (hR : P.length + R.length ≤ 2 ^ 32) :
    Puts ap P R string.bytes (State.putString ⟨.string string :: ap, P ++ R, P.length⟩) := by
  rw [State.putString]
  dsimp only
  rw [if_pos h512]
  exact puts_put ap P _ hroom hR

end Texts

/-! ## Going through the format -/

section Loop

variable {P R : List UInt8} {ap : List Arg} {F : List UInt8}

variable {d : UInt8} {piece : Piece}

theorem loop_conversion {s s' : State} (h : ∀ e, conversion d e s = some (1, s')) (i : Nat) :
    vsprintfFrom (percent :: d :: F) 0 i s = vsprintfFrom F 0 (i + 2) s'.next := by
  rw [vsprintfFrom, if_pos rfl]
  dsimp only [List.getElem?_cons_zero, Option.getD_some]
  rw [h, Option.bind_some]
  rw [vsprintfFrom]

theorem conversion_d (e : UInt8) (s : State) :
    conversion 'd'.toUInt8 e s = (s.putSigned 10).map fun s => (1, s) := by
  rw [conversion, if_neg (by decide), if_pos (by decide)]

theorem conversion_X (e : UInt8) (s : State) :
    conversion 'X'.toUInt8 e s = (s.putSigned 16).map fun s => (1, s) := by
  rw [conversion, if_neg (by decide), if_neg (by decide), if_pos (by decide)]

theorem conversion_x (e : UInt8) (s : State) :
    conversion 'x'.toUInt8 e s = (s.putUnsigned 16).map fun s => (1, s) := by
  rw [conversion, if_neg (by decide), if_neg (by decide), if_neg (by decide), if_pos rfl]

/-- Where a part has been put, and where what is behind it goes. -/
def Goes (F : List UInt8) (ap : List Arg) (P R : List UInt8) (piece : Piece) : Prop :=
  ∀ i, ∃ R', R'.length + piece.text.length = R.length ∧ R'.drop 1 = R.drop (piece.text.length + 1) ∧
    vsprintfFrom (piece.directive ++ F) 0 i ⟨piece.arg ++ ap, P ++ R, P.length⟩ =
      vsprintfFrom F 0 (i + piece.directive.length) ⟨ap, P ++ piece.text ++ R', (P ++ piece.text).length⟩

theorem goes_of_puts {x : Option State} (hdirective : piece.directive = [percent, d])
    (hconversion : ∀ e, conversion d e ⟨piece.arg ++ ap, P ++ R, P.length⟩ = x.map fun s => (1, s))
    (hroom : piece.text.length < R.length) (hputs : Puts ap P R piece.text x) : Goes F ap P R piece := by
  intro i
  obtain ⟨s, rfl, hnext⟩ := hputs
  refine ⟨0 :: R.drop (piece.text.length + 1), ?_, rfl, ?_⟩
  · rw [length_cons, length_drop]
    omega
  · have hput : ∀ e, conversion d e ⟨piece.arg ++ ap, P ++ R, P.length⟩ = some (1, s) := hconversion
    rw [hdirective, cons_append, singleton_append, loop_conversion hput, hnext]
    rfl

/-- A character of the format, or the one of `%c`, is stored by itself. -/
theorem goes_of_char {c : UInt8} (htext : piece.text = [c])
    (hloop : ∀ i r R, vsprintfFrom (piece.directive ++ F) 0 i ⟨piece.arg ++ ap, P ++ r :: R, P.length⟩ =
      vsprintfFrom F 0 (i + piece.directive.length) (State.next ⟨ap, P ++ c :: R, P.length⟩))
    (hroom : piece.text.length < R.length) (hR : P.length + R.length ≤ 2 ^ 32) : Goes F ap P R piece := by
  intro i
  rw [htext, length_singleton] at *
  obtain ⟨r, R, rfl⟩ := List.exists_cons_of_length_pos (Nat.lt_trans Nat.zero_lt_one hroom)
  rw [length_cons] at hR hroom
  refine ⟨R, rfl, rfl, ?_⟩
  have hnext : u32 (P.length + 1) = (P ++ [c]).length := by
    rw [length_append, u32_of_lt (by omega)]
    rfl
  rw [hloop, State.next, hnext, append_assoc P [c], singleton_append]

theorem goes (F : List UInt8) (ap : List Arg) (piece : Piece) (hroom : piece.text.length < R.length)
    (hR : P.length + R.length ≤ 2 ^ 32) : Goes F ap P R piece := by
  cases piece with
  | ordinary char =>
    refine goes_of_char rfl (fun i r R => ?_) hroom hR
    change vsprintfFrom (char.1 :: F) 0 i ⟨ap, P ++ r :: R, P.length⟩ = _
    rw [vsprintfFrom, if_neg char.2.2, State.putChar, store_append]
    rfl
  | c n =>
    refine goes_of_char rfl (fun i r R => ?_) hroom hR
    have hput (e : UInt8) : conversion 'c'.toUInt8 e ⟨.word n :: ap, P ++ r :: R, P.length⟩ =
        some (1, ⟨ap, P ++ n.toUInt8 :: R, P.length⟩) := by
      rw [conversion, if_pos rfl, State.vaArg, Option.bind_some]
      dsimp only
      rw [State.putChar, store_append]
      rfl
    exact loop_conversion hput i
  | d n =>
    exact goes_of_puts rfl (fun e => conversion_d e _) hroom
      (puts_signed 10 (by decide) (by decide) n.2 hroom hR)
  | X n =>
    exact goes_of_puts rfl (fun e => conversion_X e _) hroom
      (puts_signed 16 (by decide) (by decide) n.2 hroom hR)
  | x n =>
    exact goes_of_puts rfl (fun e => conversion_x e _) hroom
      (puts_unsigned 16 (by decide) (by decide) n hroom hR)
  | s string => exact goes_of_puts rfl (fun _ => rfl) hroom (puts_string string.2 hroom hR)

theorem vsprintfFrom_pieces (pieces : List Piece) :
    ∀ (i : Nat) (P R : List UInt8), (output pieces).length < R.length → P.length + R.length ≤ 2 ^ 32 →
      vsprintfFrom (format pieces) 0 i ⟨args pieces, P ++ R, P.length⟩ =
        some (i + (format pieces).length + 1, P ++ output pieces ++ 0 :: R.drop ((output pieces).length + 1)) := by
  induction pieces with
  | nil =>
    intro i P R hroom hR
    obtain ⟨r, R, rfl⟩ := List.exists_cons_of_length_pos hroom
    change ((State.putChar ⟨[], P ++ r :: R, P.length⟩ 0).map fun s => (i + 1, s.str)) = _
    rw [State.putChar, store_append, Option.map_some, Option.map_some]
    change some (i + 1, P ++ 0 :: R) = some (i + 1, P ++ [] ++ 0 :: R)
    rw [List.append_nil]
  | cons piece pieces ih =>
    intro i P R hroom hR
    have hformat : format (piece :: pieces) = piece.directive ++ format pieces := flatMap_cons
    have hargs : args (piece :: pieces) = piece.arg ++ args pieces := flatMap_cons
    have houtput : output (piece :: pieces) = piece.text ++ output pieces := flatMap_cons
    rw [houtput, length_append] at hroom
    obtain ⟨R', hlength, hdrop, hgoes⟩ := goes (format pieces) (args pieces) piece (by omega) hR i
    rw [hformat, hargs, hgoes, ih _ (P ++ piece.text) R' (by omega) (by rw [length_append]; omega)]
    have hrest : R'.drop ((output pieces).length + 1) = R.drop ((output (piece :: pieces)).length + 1) := by
      rw [Nat.add_comm, ← drop_drop, hdrop, drop_drop, houtput, length_append]
      congr 1
      omega
    have hdirective : (piece.directive ++ format pieces).length = piece.directive.length + (format pieces).length :=
      length_append
    rw [hrest, houtput, hdirective, append_assoc P]
    congr 2
    omega

end Loop

/-- The output is the parts' texts one behind the other with one terminator, and `strtol` reads the text of `%d` back;
also for the least `int`, whose negation wraps around. -/
theorem formats_and_reads_back :
    (∀ (pieces : List Piece) (str : Buffer), (output pieces).length < str.bytes.length → Formats pieces str) ∧
      ∀ (n : { n : Int // IsInt32 n }) (str : Buffer), (signed 10 n.1).length < str.bytes.length → ReadsBack n str := by
  have hformats : ∀ (pieces : List Piece) (str : Buffer), (output pieces).length < str.bytes.length →
      Formats pieces str := by
    intro pieces str hroom
    have hrun := vsprintfFrom_pieces pieces 0 [] str.bytes hroom (by simpa using str.length_le)
    exact ⟨_, by rw [vsprintf]; exact congrArg _ hrun⟩
  refine ⟨hformats, fun n str hroom => ?_⟩
  have houtput : output [.d n] = signed 10 n.1 := List.append_nil _
  obtain ⟨i, h⟩ := hformats [.d n] str (by rwa [houtput])
  rw [houtput] at h
  exact ⟨i, _, _, h, strtol_signed n.2 _⟩

def leastInt : { n : Int // IsInt32 n } := ⟨-2 ^ 31, by decide⟩

def freshBuffer : Buffer := ⟨List.replicate 16 0xCC, by decide⟩

theorem formats_and_reads_back_least :
    Formats [.ordinary ⟨'='.toUInt8, by decide⟩, .d leastInt] freshBuffer ∧ ReadsBack leastInt freshBuffer :=
  ⟨formats_and_reads_back.1 _ _ (by decide +kernel), formats_and_reads_back.2 _ _ (by decide +kernel)⟩

example : vsprintf freshBuffer.bytes ("%d:%x%s".toList.map Char.toUInt8)
    [.word 0xFFFFFFFE, .word 0xFFFFFFFE, .string ⟨[], by decide, by decide⟩] =
      some (8, "-2:FFFFFFFE".toList.map Char.toUInt8 ++ 0 :: List.replicate 4 0xCC) := by
  decide +kernel

end Printf
