import SkyOS.Stdio.Vfscanf

/-!
# Formats as lists of directives

A format of ordinary characters, white space, `%d`, `%x` and `%s` is a list of directives, and what it stands for does
not depend on how a scanner reads ahead: `scan` goes from directive to directive and leaves the bytes behind the last
character it has matched, so that it composes (`scan_append`). `vfscanf_spec` says that `vfscanf` assigns what `scan`
yields, and that the stream is then behind one byte more.

| here | there |
| --- | --- |
| `Directive.text`, `text` | the format as it is written |
| `Ended` | nothing is left, or a byte 0xFF is next, which is `EOF` as a `char` |
| `Looks` | `streamChar` and the bytes ahead together are the bytes not matched yet |
-/

namespace Stdio

open Machine Bytes List

inductive Directive where
  | white (c : { c : UInt8 // isspace (charOf c) = true })
  | ordinary (c : { c : UInt8 // isspace (charOf c) = false ∧ c ≠ 0 ∧ c ≠ 37 })
  | d
  | x
  | s

def Directive.text : Directive → List UInt8
  | .white c => [c.1]
  | .ordinary c => [c.1]
  | .d => [37, 100]
  | .x => [37, 120]
  | .s => [37, 115]

def Directive.isConversion : Directive → Bool
  | .white _ | .ordinary _ => false
  | .d | .x | .s => true

def text (format : List Directive) : List UInt8 := format.flatMap Directive.text

def fieldCount (format : List Directive) : Nat := format.countP Directive.isConversion

/-! ## What a format stands for -/

def look (bytes : List UInt8) : Int := bytes.head?.elim EOF charOf

def Ended (bytes : List UInt8) : Prop := look bytes = EOF
  deriving Decidable

/-- The longest run of bytes of a kind, of at most `width`. -/
def run (p : Int → Bool) (width : Nat) (bytes : List UInt8) : List UInt8 :=
    (bytes.takeWhile fun b => p (charOf b)).take width

def dropSpace (bytes : List UInt8) : List UInt8 := bytes.dropWhile fun b => isspace (charOf b)

/-- The value of digits, as an `int`. -/
def integer (base : Nat) (negative : Bool) (digits : List UInt8) : Int :=
  let i := digits.foldl (fun i b => i * base + digitOf (charOf b)) 0
  toInt32 (if negative then -i else i)

def signOfBytes (width : Nat) (bytes : List UInt8) : Bool × Nat × List UInt8 :=
  if look bytes = 45 then (true, width - 1, bytes.tail)
  else if look bytes = 43 then (false, width - 1, bytes.tail)
  else (false, width, bytes)

def maxWidth : Nat := 1000000

def number (base : Nat) (bytes : List UInt8) : Option Field × List UInt8 :=
  let (negative, width, bytes) := signOfBytes maxWidth bytes
  let digits := run (isDigitOf base) width bytes
  (if digits = [] then none else some (.int (integer base negative digits)), bytes.drop digits.length)

def word (bytes : List UInt8) : List UInt8 := run (fun c => c != EOF && !isspace c) maxWidth bytes

def Directive.convert : Directive → List UInt8 → Option Field × List UInt8
  | .s, bytes => (some (.string (word bytes)), bytes.drop (word bytes).length)
  | .d, bytes => number 10 bytes
  | .x, bytes => number 16 bytes
  | .white _, bytes | .ordinary _, bytes => (none, bytes)

/-- What a scan yields: the fields, whether it has gone to the end of the format, and the bytes that are left. -/
structure Scanned where
  fields : List Field
  complete : Bool
  rest : List UInt8
  deriving DecidableEq

def Scanned.ofConversion : Option Field × List UInt8 → Scanned
  | (some field, rest) => ⟨[field], true, rest⟩
  | (none, rest) => ⟨[], false, rest⟩

def Directive.scan (directive : Directive) (bytes : List UInt8) : Scanned :=
  match directive with
  | .white _ => ⟨[], true, dropSpace bytes⟩
  | .ordinary c => if look bytes = charOf c.1 then ⟨[], true, bytes.tail⟩ else ⟨[], false, bytes⟩
  | conversion =>
    if Ended (dropSpace bytes) then ⟨[], false, dropSpace bytes⟩
    else .ofConversion (conversion.convert (dropSpace bytes))

def scan : List Directive → List UInt8 → Scanned
  | [], bytes => ⟨[], true, bytes⟩
  | directive :: format, bytes =>
    if Ended bytes then ⟨[], false, bytes⟩
    else
      let first := directive.scan bytes
      if first.complete then { scan format first.rest with fields := first.fields ++ (scan format first.rest).fields }
      else first

/-- Scans compose: the second format goes on with the bytes that the first one has left. -/
theorem scan_append (A B : List Directive) (bytes : List UInt8) : scan (A ++ B) bytes =
    if (scan A bytes).complete then
      { scan B (scan A bytes).rest with fields := (scan A bytes).fields ++ (scan B (scan A bytes).rest).fields }
    else scan A bytes := by
  induction A generalizing bytes with
  | nil => rfl
  | cons directive A ih =>
    rw [cons_append, scan, scan]
    by_cases hended : Ended bytes
    · rw [if_pos hended, if_pos hended]
      rfl
    rw [if_neg hended, if_neg hended]
    by_cases hfirst : (directive.scan bytes).complete
    · rw [if_pos hfirst, if_pos hfirst, ih]
      by_cases hrest : (scan A (directive.scan bytes).rest).complete
      · rw [if_pos hrest, if_pos hrest, append_assoc]
      · rw [if_neg hrest, if_neg hrest]
    · rw [if_neg hfirst, if_neg hfirst, if_neg hfirst]

/-! ## Character after character -/

variable {mem : Memory} {s s' : Scan} {bytes : List UInt8}

structure Looks (mem : Memory) (s : Scan) (bytes : List UInt8) : Prop where
  char : s.streamChar = look bytes
  ahead : Ahead mem s.stream bytes.tail

def Moved (s s' : Scan) : Prop := s'.args = s.args ∧ s'.assigned = s.assigned

theorem getc_spec (h : Ahead mem s.stream bytes) : ∃ s', s.getc mem = some s' ∧ Looks mem s' bytes ∧ Moved s s' := by
  cases bytes with
  | nil =>
    obtain ⟨stream, hgetc, hahead⟩ := fgetc_nil h
    exact ⟨{ s with stream := stream, streamChar := EOF },
      by rw [Scan.getc, hgetc, Option.map_some], ⟨rfl, hahead⟩, rfl, rfl⟩
  | cons b bytes =>
    obtain ⟨stream, hgetc, hahead⟩ := fgetc_cons h
    exact ⟨{ s with stream := stream, streamChar := charOf b },
      by rw [Scan.getc, hgetc, Option.map_some]; rfl, ⟨rfl, hahead⟩, rfl, rfl⟩

theorem run_succ_cons (p : Int → Bool) (width : Nat) (b : UInt8) (bytes : List UInt8) :
    run p (width + 1) (b :: bytes) = if p (charOf b) then b :: run p width bytes else [] := by
  unfold run
  rw [takeWhile_cons]
  split
  · rw [take_succ_cons]
  · rw [take_nil]

theorem takeChars_spec {p : Int → Bool} (hp : p EOF = false) (width : Nat) : ∀ {s : Scan} {bytes : List UInt8},
    Looks mem s bytes → ∃ left s', takeChars mem p width s = some ((run p width bytes).map charOf, left, s') ∧
      Looks mem s' (bytes.drop (run p width bytes).length) ∧ Moved s s' := by
  induction width with
  | zero =>
    intro s bytes h
    exact ⟨0, s, by rw [run, take_zero]; rfl, by rw [run, take_zero]; exact h, rfl, rfl⟩
  | succ width ih =>
    intro s bytes h
    cases bytes with
    | nil =>
      have hstop : ¬ p s.streamChar = true := by
        rw [h.char]
        exact Bool.eq_false_iff.1 hp
      exact ⟨width + 1, s, by rw [takeChars, if_neg hstop]; rfl, h, rfl, rfl⟩
    | cons b bytes =>
      have hchar : s.streamChar = charOf b := h.char
      rw [takeChars, hchar, run_succ_cons]
      by_cases hb : p (charOf b) = true
      · obtain ⟨s₁, hgetc, hlooks, hmoved⟩ := getc_spec (s := s) h.ahead
        obtain ⟨left, s', htake, hlooks', hmoved'⟩ := ih hlooks
        rw [if_pos hb, if_pos hb, hgetc, Option.bind_eq_bind, Option.bind_some, htake]
        exact ⟨left, s', rfl, hlooks', hmoved'.1.trans hmoved.1, hmoved'.2.trans hmoved.2⟩
      · rw [if_neg hb, if_neg hb]
        exact ⟨width + 1, s, rfl, h, rfl, rfl⟩

theorem skipSpace_spec (h : Looks mem s bytes) :
    ∃ s', skipSpace mem s = some s' ∧ Looks mem s' (dropSpace bytes) ∧ Moved s s' := by
  obtain ⟨left, s', htake, hlooks, hmoved⟩ := takeChars_spec (p := isspace) (by decide)
    (s.stream._fileLength - s.stream._position + 1) h
  refine ⟨s', by rw [skipSpace, htake, Option.map_some], ?_, hmoved⟩
  have hrounds : run isspace (s.stream._fileLength - s.stream._position + 1) bytes =
      bytes.takeWhile fun b => isspace (charOf b) := by
    refine take_of_length_le ?_
    have hlength := congrArg List.length h.ahead.held
    rw [length_slice, length_tail] at hlength
    have hle := ( takeWhile_prefix (l := bytes) fun b => isspace (charOf b)).length_le
    omega
  have hdrop : bytes.drop (bytes.takeWhile fun b => isspace (charOf b)).length = dropSpace bytes :=
    (congrArg (List.drop _) takeWhile_append_dropWhile.symm).trans drop_left
  rwa [hrounds, hdrop] at hlooks

theorem signOf_spec (width : Nat) (h : Looks mem s bytes) : ∃ s', signOf mem width s =
      some ((signOfBytes width bytes).1, (signOfBytes width bytes).2.1, s') ∧
      Looks mem s' (signOfBytes width bytes).2.2 ∧ Moved s s' := by
  obtain ⟨s₁, hgetc, hlooks, hmoved⟩ := getc_spec h.ahead
  rw [signOf, signOfBytes, h.char, hgetc]
  split_ifs
  · exact ⟨s₁, rfl, hlooks, hmoved⟩
  · exact ⟨s₁, rfl, hlooks, hmoved⟩
  · exact ⟨s, rfl, h, rfl, rfl⟩

/-! ## The value of a number -/

theorem toInt32_eq_add (x : Int) : ∃ k, toInt32 x = x + 2 ^ 32 * k := ⟨-((x + 2 ^ 31) / 2 ^ 32), by
  unfold toInt32
  omega⟩

theorem toInt32_add_mul (x k : Int) : toInt32 (x + 2 ^ 32 * k) = toInt32 x := by
  unfold toInt32
  omega

theorem toInt32_digits (base : Nat) (digits : List UInt8) : ∀ i j : Int, i = toInt32 j →
    (digits.map charOf).foldl (fun i c => toInt32 (toInt32 (i * base) + digitOf c)) i =
      toInt32 (digits.foldl (fun i b => i * base + digitOf (charOf b)) j) := by
  induction digits with
  | nil => exact fun _ _ h => h
  | cons b digits ih =>
    intro i j h
    rw [map_cons, foldl_cons, foldl_cons]
    refine ih _ _ ?_
    obtain ⟨k, hk⟩ := toInt32_eq_add j
    obtain ⟨l, hl⟩ := toInt32_eq_add (i * base)
    have hsum : toInt32 (i * base) + digitOf (charOf b) =
        j * base + digitOf (charOf b) + 2 ^ 32 * (k * base + l) := by
      rw [hl, h, hk, Int.add_mul, Int.mul_add, Int.mul_assoc]
      omega
    rw [hsum, toInt32_add_mul]

theorem integer_eq (base : Nat) (negative : Bool) (digits : List UInt8) :
    (if negative then toInt32 (-(digits.map charOf).foldl (fun i c => toInt32 (toInt32 (i * base) + digitOf c)) 0)
      else (digits.map charOf).foldl (fun i c => toInt32 (toInt32 (i * base) + digitOf c)) 0) =
      integer base negative digits := by
  dsimp only [integer]
  rw [toInt32_digits base digits 0 0 (by decide)]
  cases negative with
  | false => rfl
  | true =>
    rw [if_pos rfl, if_pos rfl]
    obtain ⟨k, hk⟩ := toInt32_eq_add (digits.foldl (fun i b => i * base + digitOf (charOf b)) 0)
    rw [hk, Int.neg_add, ← Int.mul_neg, toInt32_add_mul]

/-! ## The main loop -/

/-- What `vfscanf` has done where a scan yields `t`. -/
structure Follows (mem : Memory) (s s' : Scan) (t : Scanned) : Prop where
  looks : Looks mem s' t.rest
  assigned : s'.assigned = s.assigned ++ s.args.zip t.fields
  args : s'.args = s.args.drop t.fields.length

theorem Follows.of_moved {complete : Bool} (h : Looks mem s' bytes) (hmoved : Moved s s') :
    Follows mem s s' ⟨[], complete, bytes⟩ :=
  ⟨h, by rw [hmoved.2, zip_nil_right, append_nil], hmoved.1⟩

variable {s₁ : Scan} {t : Scanned} {directive : Directive}

theorem Follows.trans {s₂ s₃ : Scan} {u : Scanned} (h : Follows mem s₁ s₂ t) (hlength : t.fields.length ≤ s₁.args.length)
    (h' : Follows mem s₂ s₃ u) : Follows mem s₁ s₃ { u with fields := t.fields ++ u.fields } where
  looks := h'.looks
  assigned := by
    have hsplit : s₁.args.zip (t.fields ++ u.fields) =
        s₁.args.zip t.fields ++ (s₁.args.drop t.fields.length).zip u.fields := by
      conv_lhs => rw [← take_append_drop t.fields.length s₁.args]
      rw [zip_append (length_take_of_le hlength), @zip_eq_zip_take_min _ _ s₁.args t.fields,
        Nat.min_eq_right hlength, take_length]
    rw [h'.assigned, h.assigned, h.args, append_assoc]
    rw [hsplit]
  args := by
    rw [h'.args, h.args, drop_drop, length_append]

/-- What a conversion does where a directive yields `t`. -/
def Converts (mem : Memory) (format : List UInt8) (s : Scan) (outcome : Option Outcome) (t : Scanned) : Prop :=
  ∃ s', outcome = some (if t.complete then .next format s' else .done s') ∧ Follows mem s s' t

theorem Follows.of_assign {field : Field} {arg : Nat} {args : List Nat} (hargs : s.args = arg :: args)
    (h : Looks mem s' bytes) (hmoved : Moved s s') :
    Follows mem s ({ s' with args := args }.assign arg field) ⟨[field], true, bytes⟩ where
  looks := ⟨h.char, h.ahead⟩
  assigned := by
    rw [hargs, ← hmoved.2, zip_cons_cons, zip_nil_right]
    rfl
  args := by
    rw [hargs]
    rfl

theorem integerConversion_spec (base : Nat) (negative : Bool) (width : Nat) (format : List UInt8) (h : Looks mem s bytes)
    (hargs : s.args ≠ []) : Converts mem format s
      (integerConversion mem base negative false false width format s)
      (if run (isDigitOf base) width bytes = [] then ⟨[], false, bytes⟩
      else ⟨[.int (integer base negative (run (isDigitOf base) width bytes))], true,
        bytes.drop (run (isDigitOf base) width bytes).length⟩) := by
  obtain ⟨arg, args, hargs⟩ := exists_cons_of_ne_nil hargs
  have hstop : isDigitOf base EOF = false := by
    unfold isDigitOf
    split_ifs <;> decide
  obtain ⟨left, s₁, htake, hlooks, hmoved⟩ := takeChars_spec hstop width h
  rw [integerConversion, htake, Option.bind_eq_bind, Option.bind_some]
  dsimp only
  by_cases hdigits : run (isDigitOf base) width bytes = []
  · rw [hdigits] at hlooks ⊢
    exact ⟨s₁, rfl, .of_moved hlooks hmoved⟩
  · have hchars : (run (isDigitOf base) width bytes).map charOf ≠ [] := mt map_eq_nil_iff.1 hdigits
    have hvaArg : s₁.vaArg = some (arg, { s₁ with args := args }) := by
      rw [Scan.vaArg, hmoved.1, hargs]
    rw [if_neg hchars, if_neg hdigits, if_neg Bool.false_ne_true, hvaArg, integer_eq]
    exact ⟨_, rfl, .of_assign hargs hlooks hmoved⟩

theorem bytesOf_map_charOf (bytes : List UInt8) : bytesOf (bytes.map charOf) = bytes := by
  rw [bytesOf, map_map]
  refine (map_congr_left fun b _ => ?_).trans (map_id bytes)
  simp only [Function.comp_apply, charOf, Int8.ofInt_toInt, UInt8.toUInt8_toInt8, id_eq]

theorem charConversion_spec (width : Nat) (format : List UInt8) (h : Looks mem s bytes) (hargs : s.args ≠ []) :
    Converts mem format s (charConversion mem true false width format s)
      ⟨[.string (run (fun c => c != EOF && !isspace c) width bytes)], true,
        bytes.drop (run (fun c => c != EOF && !isspace c) width bytes).length⟩ := by
  obtain ⟨arg, args, hargs⟩ := exists_cons_of_ne_nil hargs
  have hvaArg : s.vaArg = some (arg, { s with args := args }) := by
    rw [Scan.vaArg, hargs]
  have hlooks : Looks mem { s with args := args } bytes := ⟨h.char, h.ahead⟩
  obtain ⟨left, s₁, htake, hlooks₁, hmoved⟩ :=
    takeChars_spec (p := fun c => c != EOF && !isspace c) (by decide) width hlooks
  generalize run (fun c => c != EOF && !isspace c) width bytes = taken at htake hlooks₁ ⊢
  refine ⟨{ s₁ with ptr := arg + (taken.map charOf).length }.assign arg (.string taken), ?_, ?_, ?_, ?_⟩
  · simp only [charConversion, if_neg Bool.false_ne_true, hvaArg, Option.bind_eq_bind, Option.bind_some, Bool.true_and,
      htake, if_true, bytesOf_map_charOf]
    rfl
  · exact ⟨hlooks₁.char, hlooks₁.ahead⟩
  · rw [hargs, zip_cons_cons, zip_nil_right, Scan.assign]
    exact congrArg (· ++ [(arg, Field.string taken)]) hmoved.2
  · rw [hargs]
    exact hmoved.1

theorem Follows.of_moved_left (hmoved : Moved s s₁) (h : Follows mem s₁ s' t) :
    Follows mem s s' t :=
  ⟨h.looks, by rw [h.assigned, hmoved.1, hmoved.2], by rw [h.args, hmoved.1]⟩

/-- Behind the white space a conversion goes on if the bytes have not ended. -/
theorem converts_behind_space {format : List UInt8} {outcome rest : Option Outcome}
    (hlooks : Looks mem s₁ (dropSpace bytes)) (hmoved : Moved s s₁)
    (houtcome : outcome = if s₁.streamChar = EOF then some (.done s₁) else rest) (h : Converts mem format s₁ rest t) :
    Converts mem format s outcome (if Ended (dropSpace bytes) then ⟨[], false, dropSpace bytes⟩ else t) := by
  have hchar : s₁.streamChar = EOF ↔ Ended (dropSpace bytes) := by
    rw [hlooks.char]
    rfl
  by_cases hended : Ended (dropSpace bytes)
  · rw [houtcome, if_pos (hchar.2 hended), if_pos hended]
    exact ⟨s₁, rfl, .of_moved hlooks hmoved⟩
  · rw [houtcome, if_neg (mt hchar.1 hended), if_neg hended]
    obtain ⟨s', houtcome, hfollows⟩ := h
    exact ⟨s', houtcome, hfollows.of_moved_left hmoved⟩

theorem conversion_s (buf : Nat) (format : List UInt8) (h : Looks mem s bytes) (hargs : s.args ≠ []) :
    Converts mem format s (conversion mem buf (115 :: format) s) (Directive.s.scan bytes) := by
  obtain ⟨s₁, hskip, hlooks, hmoved⟩ := skipSpace_spec h
  have hargs₁ : s₁.args ≠ [] := by
    rw [hmoved.1]
    exact hargs
  refine converts_behind_space hlooks hmoved ?_ (charConversion_spec maxWidth format hlooks hargs₁)
  have hcontrol : controlFields (115 :: format) = (⟨false, -1, false, false⟩, 115 :: format) := rfl
  simp only [conversion, hcontrol, headD_cons, hskip, Option.bind_eq_bind, Option.bind_some]
  rfl

theorem ofConversion_number (base : Nat) (bytes : List UInt8) : Scanned.ofConversion (number base bytes) =
    if run (isDigitOf base) (signOfBytes maxWidth bytes).2.1 (signOfBytes maxWidth bytes).2.2 = [] then
      ⟨[], false, (signOfBytes maxWidth bytes).2.2⟩
    else ⟨[.int (integer base (signOfBytes maxWidth bytes).1
        (run (isDigitOf base) (signOfBytes maxWidth bytes).2.1 (signOfBytes maxWidth bytes).2.2))], true,
      (signOfBytes maxWidth bytes).2.2.drop
        (run (isDigitOf base) (signOfBytes maxWidth bytes).2.1 (signOfBytes maxWidth bytes).2.2).length⟩ := by
  rw [number]
  dsimp only
  by_cases hdigits : run (isDigitOf base) (signOfBytes maxWidth bytes).2.1 (signOfBytes maxWidth bytes).2.2 = []
  · rw [if_pos hdigits, if_pos hdigits, hdigits]
    rfl
  · rw [if_neg hdigits, if_neg hdigits]
    rfl

theorem number_spec (base : Nat) (format : List UInt8) (h : Looks mem s bytes) (hargs : s.args ≠ []) :
    Converts mem format s
      ((signOf mem maxWidth s).bind fun (negative, width, s) =>
        integerConversion mem base negative false false width format s)
      (.ofConversion (number base bytes)) := by
  obtain ⟨s₁, hsign, hlooks, hmoved⟩ := signOf_spec maxWidth h
  have hargs₁ : s₁.args ≠ [] := by
    rw [hmoved.1]
    exact hargs
  rw [hsign, Option.bind_some, ofConversion_number]
  obtain ⟨s', houtcome, hfollows⟩ := integerConversion_spec base (signOfBytes maxWidth bytes).1
    (signOfBytes maxWidth bytes).2.1 format hlooks hargs₁
  exact ⟨s', houtcome, hfollows.of_moved_left hmoved⟩

variable {c : UInt8} {format : List Directive}

theorem conversion_number (buf : Nat) {base : Nat} (hc : c = 100 ∧ base = 10 ∨ c = 120 ∧ base = 16)
    (format : List UInt8) (h : Looks mem s bytes) (hargs : s.args ≠ []) :
    Converts mem format s (conversion mem buf (c :: format) s)
      (if Ended (dropSpace bytes) then ⟨[], false, dropSpace bytes⟩
      else .ofConversion (number base (dropSpace bytes))) := by
  obtain ⟨s₁, hskip, hlooks, hmoved⟩ := skipSpace_spec h
  have hargs₁ : s₁.args ≠ [] := by
    rw [hmoved.1]
    exact hargs
  refine converts_behind_space hlooks hmoved ?_ (number_spec base format hlooks hargs₁)
  have hcontrol : controlFields (c :: format) = (⟨false, -1, false, false⟩, c :: format) := by
    obtain ⟨rfl, -⟩ | ⟨rfl, -⟩ := hc <;> rfl
  simp only [conversion, hcontrol, headD_cons, hskip, Option.bind_eq_bind, Option.bind_some]
  obtain ⟨rfl, rfl⟩ | ⟨rfl, rfl⟩ := hc <;> rfl

theorem conversion_spec (buf : Nat) (htext : directive.text = [37, c])
    (format : List UInt8) (h : Looks mem s bytes) (hargs : s.args ≠ []) :
    Converts mem format s (conversion mem buf (c :: format) s) (directive.scan bytes) := by
  cases directive with
  | white c | ordinary c => exact absurd (congrArg List.length htext) (Nat.ne_of_lt (Nat.lt_succ_self 1))
  | d =>
    obtain rfl : 100 = c := (List.cons.inj (List.cons.inj htext).2).1
    exact conversion_number buf (.inl ⟨rfl, rfl⟩) format h hargs
  | x =>
    obtain rfl : 120 = c := (List.cons.inj (List.cons.inj htext).2).1
    exact conversion_number buf (.inr ⟨rfl, rfl⟩) format h hargs
  | s =>
    obtain rfl : 115 = c := (List.cons.inj (List.cons.inj htext).2).1
    exact conversion_s buf format h hargs

theorem length_fields_le (directive : Directive) (bytes : List UInt8) :
    (directive.scan bytes).fields.length ≤ if directive.isConversion then 1 else 0 := by
  have hconversion : ∀ r : Option Field × List UInt8, (Scanned.ofConversion r).fields.length ≤ 1 := by
    rintro ⟨_ | field, rest⟩
    · exact Nat.zero_le 1
    · exact Nat.le_refl 1
  cases directive with
  | white c => exact le_refl 0
  | ordinary c =>
    rw [Directive.scan]
    split <;> exact le_refl 0
  | d | x | s =>
    unfold Directive.scan
    dsimp only
    split
    · exact Nat.zero_le 1
    · exact hconversion _

theorem scan_fields_le (format : List Directive) (bytes : List UInt8) :
    (scan format bytes).fields.length ≤ fieldCount format := by
  induction format generalizing bytes with
  | nil => exact le_refl 0
  | cons directive format ih =>
    have hfirst := length_fields_le directive bytes
    rw [scan, fieldCount, countP_cons, ← fieldCount]
    split
    · exact Nat.zero_le _
    · dsimp only
      split
      · have hrest := ih (directive.scan bytes).rest
        rw [length_append]
        omega
      · omega

theorem follows_cons (hended : ¬ Ended bytes)
    (hargs : fieldCount (directive :: format) ≤ s.args.length) (hcomplete : (directive.scan bytes).complete = true)
    (h : Follows mem s s₁ (directive.scan bytes)) (h' : Follows mem s₁ s' (scan format (directive.scan bytes).rest)) :
    Follows mem s s' (scan (directive :: format) bytes) := by
  have hfirst := length_fields_le directive bytes
  rw [fieldCount, countP_cons] at hargs
  rw [scan, if_neg hended]
  rw [if_pos hcomplete]
  exact h.trans (by omega) h'

theorem args_of_follows
    (hargs : fieldCount (directive :: format) ≤ s.args.length) (h : Follows mem s s₁ (directive.scan bytes)) :
    fieldCount format ≤ s₁.args.length := by
  have hfirst := length_fields_le directive bytes
  rw [fieldCount, countP_cons] at hargs
  rw [h.args, length_drop, fieldCount]
  omega

/-- **The main loop** assigns what a scan yields. -/
theorem scanLoop_spec (buf : Nat) (format : List Directive) : ∀ {rounds : Nat} {s : Scan} {bytes : List UInt8},
    (text format).length < rounds → Looks mem s bytes → fieldCount format ≤ s.args.length →
    ∃ s', scanLoop mem buf rounds (text format) s = some (s'.result, s') ∧ Follows mem s s' (scan format bytes) := by
  induction format with
  | nil =>
    intro rounds s bytes hrounds h _
    obtain ⟨rounds, rfl⟩ : ∃ n, rounds = n + 1 := ⟨rounds - 1, by omega⟩
    exact ⟨s, rfl, .of_moved h ⟨rfl, rfl⟩⟩
  | cons directive format ih =>
    intro rounds s bytes hrounds h hargs
    obtain ⟨rounds, rfl⟩ : ∃ n, rounds = n + 1 := ⟨rounds - 1, by omega⟩
    have htext : text (directive :: format) = directive.text ++ text format := flatMap_cons
    rw [htext, length_append] at hrounds
    rw [htext]
    have hcons : ∃ f rest, directive.text = f :: rest := by
      cases directive <;> exact ⟨_, _, rfl⟩
    by_cases hended : Ended bytes
    · obtain ⟨f, rest, hf⟩ := hcons
      rw [hf, cons_append, scanLoop, if_pos (h.char.trans hended), scan, if_pos hended]
      exact ⟨s, rfl, .of_moved h ⟨rfl, rfl⟩⟩
    have hchar : ¬ s.streamChar = EOF := by
      rw [h.char]
      exact hended
    -- a directive that is through, and the rest of the format
    have hgoesOn : ∀ s₁, Follows mem s s₁ (directive.scan bytes) → (directive.scan bytes).complete = true →
        ∃ s', scanLoop mem buf rounds (text format) s₁ = some (s'.result, s') ∧
          Follows mem s s' (scan (directive :: format) bytes) := fun s₁ hs₁ hcomplete => by
      have hpos : 0 < directive.text.length := by
        obtain ⟨f, rest, hf⟩ := hcons
        rw [hf]
        exact Nat.succ_pos _
      obtain ⟨s', hloop, hfollows⟩ := ih (show (text format).length < rounds by omega) hs₁.looks
        (args_of_follows hargs hs₁)
      exact ⟨s', hloop, follows_cons hended hargs hcomplete hs₁ hfollows⟩
    have hstops : ∀ s₁, Follows mem s s₁ (directive.scan bytes) → (directive.scan bytes).complete = false →
        Follows mem s s₁ (scan (directive :: format) bytes) := fun s₁ hs₁ hcomplete => by
      rw [scan, if_neg hended]
      rw [if_neg (Bool.eq_false_iff.1 hcomplete)]
      exact hs₁
    -- a conversion, whichever it is
    have hconverts : ∀ c, directive.text = [37, c] → fieldCount (directive :: format) = fieldCount format + 1 →
        ∃ s', scanLoop mem buf (rounds + 1) (directive.text ++ text format) s = some (s'.result, s') ∧
          Follows mem s s' (scan (directive :: format) bytes) := fun c hc hcount => by
      have hpointer : s.args ≠ [] := fun hnil => by
        rw [hcount, hnil] at hargs
        cases hargs
      obtain ⟨s₁, houtcome, hs₁⟩ := conversion_spec buf hc (text format) h hpointer
      rw [hc, cons_append, cons_append, nil_append, scanLoop, if_neg hchar, if_neg (by decide),
        if_neg (not_not_intro rfl), houtcome]
      cases hcomplete : (directive.scan bytes).complete with
      | true => exact hgoesOn s₁ hs₁ hcomplete
      | false => exact ⟨s₁, rfl, hstops s₁ hs₁ hcomplete⟩
    cases directive with
    | white c =>
      obtain ⟨s₁, hskip, hlooks, hmoved⟩ := skipSpace_spec h
      obtain ⟨s', hloop, hfollows⟩ := hgoesOn s₁ (.of_moved hlooks hmoved) rfl
      refine ⟨s', ?_, hfollows⟩
      rw [Directive.text, cons_append, nil_append, scanLoop, if_neg hchar, if_pos c.2, hskip]
      exact hloop
    | ordinary c =>
      rw [Directive.text, cons_append, nil_append, scanLoop, if_neg hchar,
        if_neg (Bool.eq_false_iff.1 c.2.1), if_pos c.2.2.2, h.char]
      by_cases hc : look bytes = charOf c.1
      · have hscan : (Directive.ordinary c).scan bytes = ⟨[], true, bytes.tail⟩ := if_pos hc
        obtain ⟨s₁, hgetc, hlooks, hmoved⟩ := getc_spec h.ahead
        rw [if_neg (not_not_intro hc), hgetc]
        refine hgoesOn s₁ ?_ (by rw [hscan])
        rw [hscan]
        exact .of_moved hlooks hmoved
      · have hscan : (Directive.ordinary c).scan bytes = ⟨[], false, bytes⟩ := if_neg hc
        rw [if_pos hc]
        refine ⟨s, rfl, hstops s ?_ (by rw [hscan])⟩
        rw [hscan]
        exact .of_moved h ⟨rfl, rfl⟩
    | d => exact hconverts 100 rfl countP_cons
    | x => exact hconverts 120 rfl countP_cons
    | s => exact hconverts 115 rfl countP_cons

/-- **`vfscanf`** assigns what a scan yields, and leaves the stream behind one byte more than has been matched. -/
theorem vfscanf_spec (buf : Nat) (format : List Directive) {stream : FILE} {args : List Nat} (h : Ahead mem stream bytes)
    (hargs : fieldCount format ≤ args.length) :
    ∃ result stream', vfscanf mem buf stream (text format) args =
        some (result, args.zip (scan format bytes).fields, stream') ∧
      Ahead mem stream' (scan format bytes).rest.tail := by
  obtain ⟨s, hgetc, hlooks, hmoved⟩ := getc_spec (s := ⟨stream, 0, args, 0, 0, []⟩) h
  rw [vfscanf, hgetc, Option.bind_eq_bind, Option.bind_some, hlooks.char]
  by_cases hended : Ended bytes
  · have hscan : (scan format bytes).fields = [] ∧ (scan format bytes).rest = bytes := by
      cases format with
      | nil => exact ⟨rfl, rfl⟩
      | cons directive format =>
        rw [scan, if_pos hended]
        exact ⟨rfl, rfl⟩
    rw [hscan.1, hscan.2, zip_nil_right]
    exact ⟨EOF, s.stream, if_pos hended, hlooks.ahead⟩
  · obtain ⟨s', hloop, hfollows⟩ := scanLoop_spec buf format (Nat.lt_succ_self _) hlooks (by rwa [hmoved.1])
    have hassigned : s'.assigned = args.zip (scan format bytes).fields := by
      rw [hfollows.assigned, hmoved.1, hmoved.2]
      rfl
    refine ⟨s'.result, s'.stream, ?_, hfollows.looks.ahead⟩
    rw [← hassigned]
    refine (if_neg hended).trans ?_
    rw [hloop]
    rfl

end Stdio
