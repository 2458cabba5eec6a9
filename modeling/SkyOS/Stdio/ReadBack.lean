import SkyOS.Stdio.Directives
import SkyOS.Stdio.Vsprintf

/-!
# A format that is written and then read (`stdio.cpp:21`, `kfileio.cpp:162`)

`vsprintf` and `vfscanf` take the same format: `%d`, `%x` and `%s`, each with a blank behind it. The scanner stops
where the writer has put the blank, so it reads back what has been written, value after value (`reads_back`). `%x`
comes back as the `int` of the same 32 bits.

| here | there |
| --- | --- |
| `Value` | an argument with its conversion; a word that `%s` can read |
| `pieces`, `directives` | the format as the writer and as the scanner takes it |
-/

namespace Stdio

open List Machine
open Printf (Piece digits digitChar numeral signed)
open StrUtil (CString)

inductive Value where
  | d (n : { n : Int // IsInt32 n })
  | x (n : UInt32)
  | s (s : { s : CString // s.bytes.length < 512 ∧ s.bytes ≠ [] ∧
      ∀ c ∈ s.bytes, isspace (charOf c) = false ∧ charOf c ≠ EOF })

namespace Value

def piece : Value → Piece
  | .d n => .d n
  | .x n => .x n
  | .s word => .s ⟨word.1, word.2.1⟩

def directive : Value → Directive
  | .d _ => .d
  | .x _ => .x
  | .s _ => .s

def field : Value → Field
  | .d n => .int n.1
  | .x n => .int (toInt32 n.toNat)
  | .s word => .string word.1.bytes

end Value

def pieces (values : List Value) : List Piece := values.flatMap fun v => [v.piece, .ordinary ⟨32, by decide⟩]

def output (values : List Value) : List UInt8 := Printf.output (pieces values)

def directives (values : List Value) : List Directive := values.flatMap fun v => [v.directive, .white ⟨32, by decide⟩]

theorem format_pieces (values : List Value) : Printf.format (pieces values) = text (directives values) := by
  induction values with
  | nil => rfl
  | cons v values ih =>
    have hformat : Printf.format (pieces (v :: values)) = v.piece.directive ++ 32 :: Printf.format (pieces values) := by
      cases v <;> rfl
    have htext : text (directives (v :: values)) = v.directive.text ++ 32 :: text (directives values) := by
      cases v <;> rfl
    have hsame : v.piece.directive = v.directive.text := by cases v <;> rfl
    rw [hformat, htext, hsame, ih]

/-! ## Numbers -/

theorem digitChar_decimal : ∀ d < 10, isDigitOf 10 (charOf (digitChar d)) = true := by decide

theorem digitChar_spec : ∀ d < 16, isDigitOf 16 (charOf (digitChar d)) = true ∧ digitOf (charOf (digitChar d)) = d ∧
    (isspace (charOf (digitChar d)) = false ∧ charOf (digitChar d) ≠ EOF) ∧
      charOf (digitChar d) ≠ 45 ∧ charOf (digitChar d) ≠ 43 := by decide

variable {base m : Nat} {rest : List UInt8}

theorem foldl_digitChar (base : Nat) (ds : List Nat) (hds : ∀ d ∈ ds, d < 16) : ∀ acc : Nat,
    (ds.map digitChar).foldl (fun i b => i * base + digitOf (charOf b)) (acc : Int) =
      (ds.foldl (fun acc d => acc * base + d) acc : Nat) := by
  induction ds with
  | nil => exact fun acc => rfl
  | cons d ds ih =>
    intro acc
    rw [map_cons, foldl_cons, foldl_cons, (digitChar_spec d (hds d (by simp))).2.1]
    exact_mod_cast ih (fun d hd => hds d (by simp [hd])) (acc * base + d)

theorem mem_numeral (hbase : base = 10 ∨ base = 16) {c : UInt8} (hc : c ∈ numeral base m) :
    isDigitOf base (charOf c) = true ∧ (isspace (charOf c) = false ∧ charOf c ≠ EOF) ∧
      charOf c ≠ 45 ∧ charOf c ≠ 43 := by
  obtain ⟨d, hd, rfl⟩ := mem_map.1 hc
  have hlt := Printf.digits_lt (by omega) hd
  have hspec := digitChar_spec d (by omega)
  refine ⟨?_, hspec.2.2⟩
  rcases hbase with rfl | rfl
  · exact digitChar_decimal d hlt
  · exact hspec.1

theorem numeral_ne_nil (base m : Nat) : numeral base m ≠ [] := by simp [numeral, Printf.digits_ne_nil]

theorem number_of_sign (hbase : base = 10 ∨ base = 16) (hm : m < 2 ^ 32) {bytes : List UInt8} {negative : Bool}
    {width : Nat} (hsign : signOfBytes maxWidth bytes = (negative, width, numeral base m ++ 32 :: rest))
    (hwidth : 32 ≤ width) :
    number base bytes = (some (.int (toInt32 (if negative then -(m : Int) else m))), 32 :: rest) := by
  have hlength : (digits base m).length ≤ 32 :=
    Printf.length_digits_le (by omega) (by omega) (Nat.lt_of_lt_of_le hm (Nat.pow_le_pow_left (by omega) 32))
  have hrun : run (isDigitOf base) width (numeral base m ++ 32 :: rest) = numeral base m := by
    have hblank : ¬ isDigitOf base (charOf 32) = true := by rcases hbase with rfl | rfl <;> decide
    rw [run, takeWhile_append_of_pos fun c hc => (mem_numeral hbase hc).1,
      takeWhile_cons_of_neg (a := 32) (p := fun c => isDigitOf base (charOf c)) hblank, append_nil,
      take_of_length_le (by rw [Printf.length_numeral]; omega)]
  have hvalue : (numeral base m).foldl (fun i b => i * base + digitOf (charOf b)) (0 : Int) = m := by
    have hfold := foldl_digitChar base (digits base m) (fun d hd => by
      have := Printf.digits_lt (by omega) hd
      omega) 0
    rwa [Printf.digits_value] at hfold
  unfold number
  rw [hsign]
  dsimp only
  rw [hrun, if_neg (numeral_ne_nil base m), integer, hvalue, drop_left]

theorem look_numeral (hbase : base = 10 ∨ base = 16) (m : Nat) (rest : List UInt8) :
    look (numeral base m ++ rest) ≠ 45 ∧ look (numeral base m ++ rest) ≠ 43 := by
  obtain ⟨c, cs, hcons⟩ := exists_cons_of_ne_nil (numeral_ne_nil base m)
  rw [hcons]
  exact (mem_numeral hbase (by rw [hcons]; simp)).2.2

theorem number_numeral (hbase : base = 10 ∨ base = 16) (hm : m < 2 ^ 32) (rest : List UInt8) :
    number base (numeral base m ++ 32 :: rest) = (some (.int (toInt32 m)), 32 :: rest) := by
  obtain ⟨hminus, hplus⟩ := look_numeral hbase m (32 :: rest)
  have hsign : signOfBytes maxWidth (numeral base m ++ 32 :: rest) =
      (false, maxWidth, numeral base m ++ 32 :: rest) := by
    rw [signOfBytes, if_neg hminus, if_neg hplus]
  rw [number_of_sign hbase hm hsign (by decide), if_neg Bool.false_ne_true]

theorem number_signed {n : Int} (hn : IsInt32 n) (rest : List UInt8) :
    number 10 (signed 10 n ++ 32 :: rest) = (some (.int n), 32 :: rest) := by
  have hint : toInt32 n = n := toInt32_of_isInt32 hn
  obtain ⟨hlow, hhigh⟩ := hn
  by_cases hneg : n < 0
  · have hsign : signOfBytes maxWidth (signed 10 n ++ 32 :: rest) =
        (true, maxWidth - 1, numeral 10 n.natAbs ++ 32 :: rest) := by
      have hlook : look (Printf.minus :: (numeral 10 n.natAbs ++ 32 :: rest)) = 45 := (by decide : charOf 45 = 45)
      rw [signed, if_pos hneg, cons_append, signOfBytes, if_pos hlook, tail_cons]
    rw [number_of_sign (.inl rfl) (by omega) hsign (by decide), if_pos rfl,
      show -(n.natAbs : Int) = n by omega, hint]
  · rw [signed, if_neg hneg, number_numeral (.inl rfl) (by omega), show (n.natAbs : Int) = n by omega, hint]

/-! ## Value after value -/

theorem text_cons (v : Value) : ∃ c cs, v.piece.text = c :: cs ∧ isspace (charOf c) = false ∧ charOf c ≠ EOF := by
  have hnumeral (base : Nat) (hbase : base = 10 ∨ base = 16) (m : Nat) :
      ∃ c cs, numeral base m = c :: cs ∧ isspace (charOf c) = false ∧ charOf c ≠ EOF := by
    obtain ⟨c, cs, hcons⟩ := exists_cons_of_ne_nil (numeral_ne_nil base m)
    exact ⟨c, cs, hcons, (mem_numeral hbase (by rw [hcons]; simp)).2.1⟩
  cases v with
  | d n =>
    change ∃ c cs, signed 10 n.1 = c :: cs ∧ _
    unfold signed
    split
    · exact ⟨45, _, rfl, by decide⟩
    · exact hnumeral 10 (.inl rfl) _
  | x n => exact hnumeral 16 (.inr rfl) _
  | s s =>
    obtain ⟨c, cs, hcons⟩ := exists_cons_of_ne_nil s.2.2.1
    exact ⟨c, cs, hcons, s.2.2.2 c (by rw [hcons]; simp)⟩

theorem convert_text (v : Value) (rest : List UInt8) :
    v.directive.convert (v.piece.text ++ 32 :: rest) = (some v.field, 32 :: rest) := by
  cases v with
  | d n => exact number_signed n.2 rest
  | x n => exact number_numeral (.inr rfl) n.toNat_lt rest
  | s s =>
    have hword : word (s.1.bytes ++ 32 :: rest) = s.1.bytes := by
      have hall : ∀ c ∈ s.1.bytes, (charOf c != EOF && !isspace (charOf c)) = true := fun c hc => by
        simp [s.2.2.2 c hc]
      have hle : s.1.bytes.length ≤ maxWidth := Nat.le_trans (Nat.le_of_lt s.2.1) (by decide)
      rw [word, run, takeWhile_append_of_pos hall, takeWhile_cons_of_neg (by decide), append_nil, take_of_length_le hle]
    change (some (Field.string (word (s.1.bytes ++ 32 :: rest))),
      (s.1.bytes ++ 32 :: rest).drop (word (s.1.bytes ++ 32 :: rest)).length) = (some (.string s.1.bytes), 32 :: rest)
    rw [hword, drop_left]

theorem dropSpace_text (v : Value) (rest : List UInt8) : dropSpace (v.piece.text ++ rest) = v.piece.text ++ rest := by
  obtain ⟨c, cs, hcons, hspace, -⟩ := text_cons v
  rw [hcons]
  exact dropWhile_cons_of_neg (p := fun b => isspace (charOf b)) (a := c) (by simp [hspace])

theorem not_ended_text (v : Value) (rest : List UInt8) : ¬ Ended (v.piece.text ++ rest) := by
  obtain ⟨c, cs, hcons, -, heof⟩ := text_cons v
  rw [hcons]
  exact heof

/-- A conversion takes the text of its value, and leaves the blank. -/
theorem scan_value (v : Value) (rest : List UInt8) :
    v.directive.scan (v.piece.text ++ 32 :: rest) = ⟨[v.field], true, 32 :: rest⟩ := by
  have hconversion : ∀ bytes, v.directive.scan bytes = if Ended (dropSpace bytes) then ⟨[], false, dropSpace bytes⟩
      else .ofConversion (v.directive.convert (dropSpace bytes)) := by
    cases v <;> exact fun bytes => rfl
  rw [hconversion, dropSpace_text, if_neg (not_ended_text v _), convert_text]
  rfl

theorem dropSpace_output (values : List Value) : dropSpace (32 :: output values) = output values := by
  cases values with
  | nil => rfl
  | cons v values => exact dropSpace_text v (32 :: output values)

theorem scan_values (values : List Value) :
    scan (directives values) (output values) = ⟨values.map Value.field, true, []⟩ := by
  induction values with
  | nil => rfl
  | cons v values ih =>
    have hformat : directives (v :: values) = v.directive :: .white ⟨32, by decide⟩ :: directives values := rfl
    have htext : output (v :: values) = v.piece.text ++ 32 :: output values := rfl
    have hblank : ¬ Ended (32 :: output values) := (by decide : charOf 32 ≠ EOF)
    rw [hformat, htext, scan, if_neg (not_ended_text v _), scan_value]
    dsimp only
    rw [if_pos rfl, scan, if_neg hblank]
    dsimp only [Directive.scan]
    rw [if_pos rfl, dropSpace_output, ih]
    rfl

theorem fieldCount_directives (values : List Value) : fieldCount (directives values) = values.length := by
  induction values with
  | nil => rfl
  | cons v values ih =>
    have hcons : directives (v :: values) = [v.directive, .white ⟨32, by decide⟩] ++ directives values := rfl
    have hone : fieldCount [v.directive, .white ⟨32, by decide⟩] = 1 := by cases v <;> rfl
    rw [hcons, fieldCount, countP_append, length_cons, Nat.add_comm]
    exact congrArg₂ _ ih hone

/-- **What `vsprintf` has written, `vfscanf` reads back with the same format**, from wherever a stream has it ahead. -/
theorem reads_back (values : List Value) (str : Printf.Buffer) (hroom : (output values).length < str.bytes.length)
    {mem : Bytes.Memory} (buf : Nat) {stream : FILE} (hstream : Ahead mem stream (output values)) {args : List Nat}
    (hargs : args.length = values.length) :
    (∃ i, Printf.vsprintf str.bytes (text (directives values)) (Printf.args (pieces values)) =
        some (i, output values ++ 0 :: str.bytes.drop ((output values).length + 1))) ∧
      ∃ result stream', vfscanf mem buf stream (text (directives values)) args =
        some (result, args.zip (values.map Value.field), stream') := by
  have hrun := Printf.vsprintfFrom_pieces (pieces values) 0 [] str.bytes hroom (by simpa using str.length_le)
  rw [format_pieces] at hrun
  obtain ⟨result, stream', hscan, -⟩ :=
    vfscanf_spec buf (directives values) hstream (by rw [fieldCount_directives, hargs])
  rw [scan_values] at hscan
  exact ⟨⟨_, by rw [Printf.vsprintf]; exact congrArg _ hrun⟩, result, stream', hscan⟩

def threeValues : List Value :=
  [.d Printf.leastInt, .x 0xBEEF, .s ⟨⟨[97, 98], by decide, by decide⟩, by decide +kernel⟩]

def threeValuesBuffer : Printf.Buffer := ⟨List.replicate 32 0xCC, by decide⟩

theorem reads_back_three :
    (∃ i, Printf.vsprintf threeValuesBuffer.bytes (text (directives threeValues)) (Printf.args (pieces threeValues)) =
        some (i, output threeValues ++ 0 :: threeValuesBuffer.bytes.drop ((output threeValues).length + 1))) ∧
      ∃ result stream', vfscanf (Bytes.ofList 4096 (output threeValues)) 0 (openModule ⟨4096, 4116⟩)
        (text (directives threeValues)) [8, 16, 24] =
          some (result, [8, 16, 24].zip (threeValues.map Value.field), stream') := by
  have hplaced : Placed (openModule ⟨4096, 4116⟩) := (by decide : 4096 + 20 < 2 ^ 32)
  exact reads_back threeValues threeValuesBuffer (by decide +kernel) 0
    ⟨by decide, hplaced, by decide +kernel, by decide +kernel⟩ rfl

end Stdio
