import SkyOS.Stdio.Stream

/-!
# `vfscanf` (`kfileio.cpp:162-543`)

The scanner goes through the format with one character of look-ahead, `streamChar`. Nothing gives this character back to
the stream when the call is over: the two `ungetc` are commented out.

| here | there |
| --- | --- |
| `format` | what is left of the format, without its terminating zero |
| `args` | the pointers in `va_list` that are left |
| `assigned` | what has been stored, and where: `assignedFields` is its length |
| `takeChars`, `copyChar` | a loop over characters of one kind; one such character (`COPYCHAR`) |
| `Field.float`, `Field.double` | the sign and the text that `atof` is given |
| `buf` | the address of the local buffer of that name |
| `none` | a read behind the file or the format, or behind the end of `va_list` |
-/

namespace Stdio

open Machine Bytes

/-- `isspace` and `isdigit` look at `_pctype[(unsigned char)c]` (CommonLib/ctype.cpp). -/
def isspace (c : Int) : Bool := 9 ≤ c % 256 && c % 256 ≤ 13 || c % 256 == 32

def isdigit (c : Int) : Bool := 48 ≤ c % 256 && c % 256 ≤ 57

/-- A byte of a string, as the `char` it is. -/
def charOf (b : UInt8) : Int := b.toInt8.toInt

/-- `strtoul` (CommonLib/stdio.cpp:408) to the base 10 of what begins with a digit: the value, and `end`. -/
def strtoul (s : List UInt8) : Nat × List UInt8 :=
  let digits := s.takeWhile fun b => isdigit (charOf b)
  (min (digits.foldl (fun acc b => acc * 10 + (b.toNat - 48)) 0) (2 ^ 32 - 1), s.drop digits.length)

/-- What is stored at an argument. A `string` has a zero behind it, which `chars` have not. -/
inductive Field where
  | int (i : Int)
  | short (i : Int)
  | chars (cs : List UInt8)
  | string (cs : List UInt8)
  | float (negative : Bool) (text : List UInt8)
  | double (negative : Bool) (text : List UInt8)
  deriving DecidableEq

structure Scan where
  stream : FILE
  streamChar : Int
  args : List Nat
  ptr : Nat
  firstPtr : Nat
  assigned : List (Nat × Field)

/-- The fields between `%` and the conversion character. -/
structure Control where
  suppress : Bool
  width : Int
  storeLong : Bool
  storeShort : Bool

/-- How an iteration of the main loop ends: with `continue`, at `done`, or with `return EOF`. -/
inductive Outcome where
  | next (format : List UInt8) (s : Scan)
  | done (s : Scan)
  | returnEOF (s : Scan)

def MAX_FLOAT_SIZE : Nat := 320

def bytesOf (cs : List Int) : List UInt8 := cs.map fun c => (Int8.ofInt c).toUInt8

section

variable (mem : Memory)

/-- `streamChar = fgetc(stream)`. -/
def Scan.getc (s : Scan) : Option Scan :=
  (fgetc mem s.stream).map fun (c, stream) => { s with stream := stream, streamChar := c }

/-- `va_arg`: the pointer that is next. -/
def Scan.vaArg (s : Scan) : Option (Nat × Scan) :=
  match s.args with
  | [] => none
  | arg :: args => some (arg, { s with args := args })

def Scan.assign (s : Scan) (arg : Nat) (field : Field) : Scan := { s with assigned := s.assigned ++ [(arg, field)] }

/-- `while (width > 0 && p(streamChar))`: the characters taken, and the width that is left. -/
def takeChars (p : Int → Bool) : Nat → Scan → Option (List Int × Nat × Scan)
  | 0, s => some ([], 0, s)
  | width + 1, s =>
    if p s.streamChar then do
      let (cs, width, s') ← takeChars p width (← s.getc mem)
      return (s.streamChar :: cs, width, s')
    else some ([], width + 1, s)

/-- `COPYCHAR` where `width > 0 && p(streamChar)`. -/
def copyChar (p : Int → Bool) (width : Nat) (s : Scan) : Option (List Int × Nat × Scan) :=
  if 0 < width && p s.streamChar then do return ([s.streamChar], width - 1, ← s.getc mem) else some ([], width, s)

/-- `while (isspace(streamChar))`: with as many rounds as there are bytes ahead the character is no space. -/
def skipSpace (s : Scan) : Option Scan :=
  (takeChars mem isspace (s.stream._fileLength - s.stream._position + 1) s).map fun (_, _, s) => s

/-! ## The conversions -/

/-- The control fields (:223-:247), and the format from the conversion character on. -/
def controlFields (format : List UInt8) : Control × List UInt8 :=
  let (suppress, format) := if format.headD 0 = 42 then (true, format.tail) else (false, format)
  let (width, format) :=
    if isdigit (charOf (format.headD 0)) then (toInt32 (strtoul format).1, (strtoul format).2) else (-1, format)
  let (storeLong, format) := if format.headD 0 = 108 then (true, format.tail) else (false, format)
  let (storeShort, format) := if format.headD 0 = 104 then (true, format.tail) else (false, format)
  (⟨suppress, width, storeLong, storeShort⟩, format)

/-- `%c` and `%s` (:315-:348). -/
def charConversion (isString suppress : Bool) (width : Nat) (format : List UInt8) (s : Scan) : Option Outcome := do
  let p := fun c => c != EOF && !(isString && isspace c)
  if suppress then
    let (_, _, s) ← takeChars mem p width s
    return .next format s
  else
    let (arg, s) ← s.vaArg
    let (cs, _, s) ← takeChars mem p width s
    let field := if isString then Field.string (bytesOf cs) else Field.chars (bytesOf cs)
    return .next format ({ s with ptr := arg + cs.length }.assign arg field)

/-- Whether the search of `%[` for a character stops at it, or at the bracket or the end (:360-:379). -/
def inBrackets (c : Int) : List UInt8 → Bool
  | [] => c == 0
  | f :: format => charOf f == c || f != 93 && inBrackets c format

/-- `%[` (:350-:401). -/
def bracketConversion (suppress : Bool) (width : Nat) (format : List UInt8) (s : Scan) : Option Outcome := do
  let negated := format.headD 0 = 94
  let format := if negated then format.tail else format
  let (arg, s) ← if suppress then pure (s.firstPtr, s) else
    s.vaArg.map fun (arg, s) => (arg, { s with ptr := arg, firstPtr := arg })
  let (cs, _, s) ← takeChars mem (fun c => c != EOF && inBrackets c format != negated) width s
  let s := if suppress then s else { s with ptr := arg + cs.length }
  if s.ptr = s.firstPtr then return .done s
  else
    match format.dropWhile fun f => f != 93 with
    | [] => none
    | _ :: format => return .next format (if suppress then s else s.assign arg (.string (bytesOf cs)))

def isDigitOf (base : Nat) (c : Int) : Bool :=
  if base = 10 then isdigit c
  else if base = 8 then 48 ≤ c && c ≤ 55
  else isdigit c || 97 ≤ c && c ≤ 102 || 65 ≤ c && c ≤ 70

def digitOf (c : Int) : Int := if isdigit c then c - 48 else if 97 ≤ c ∧ c ≤ 102 then c + 10 - 97 else c + 10 - 65

/-- The sign in front of a number (:436-:447). -/
def signOf (width : Nat) (s : Scan) : Option (Bool × Nat × Scan) :=
  if s.streamChar = 45 then do return (true, width - 1, ← s.getc mem)
  else if s.streamChar = 43 then do return (false, width - 1, ← s.getc mem)
  else some (false, width, s)

/-- An integer behind its sign (:505-:563). -/
def integerConversion (base : Nat) (negative suppress storeShort : Bool) (width : Nat) (format : List UInt8) (s : Scan) :
    Option Outcome := do
  let (cs, _, s) ← takeChars mem (isDigitOf base) width s
  if cs = [] then return .done s
  else
    let i := cs.foldl (fun i c => toInt32 (toInt32 (i * base) + digitOf c)) 0
    let i := if negative then toInt32 (-i) else i
    if suppress then return .next format s
    else
      let (arg, s) ← s.vaArg
      return .next format (s.assign arg (if storeShort then .short ((i + 2 ^ 15) % 2 ^ 16 - 2 ^ 15) else .int i))

/-- A floating-point number behind its sign (:458-:503). -/
def floatConversion (buf : Nat) (negative suppress storeLong : Bool) (width : Nat) (format : List UInt8) (s : Scan) :
    Option Outcome := do
  let (whole, width, s) ← takeChars mem isdigit (min width MAX_FLOAT_SIZE) s
  let (point, width, s) ← copyChar mem (fun c => c == 46) width s
  let (fraction, width, s) ← takeChars mem isdigit width s
  let (e, width, s) ← copyChar mem (fun c => c == 101 || c == 69) width s
  let (sign, width, s) ← if e = [] then pure ([], width, s) else copyChar mem (fun c => c == 43 || c == 45) width s
  let (exponent, _, s) ← if e = [] then pure ([], width, s) else takeChars mem isdigit width s
  let text := whole ++ point ++ fraction ++ e ++ sign ++ exponent
  let s := { s with ptr := buf + text.length }
  if text = [] then return .done s
  else if suppress then return .next format s
  else
    let (arg, s) ← s.vaArg
    return .next format (s.assign arg (if storeLong then .double negative (bytesOf text) else .float negative
      (bytesOf text)))

/-- The base of a conversion character (:284-:308); 0 is a floating-point number. -/
def baseOf (formatChar : UInt8) : Nat :=
  if formatChar = 79 ∨ formatChar = 111 then 8
  else if formatChar = 88 ∨ formatChar = 120 then 16
  else if formatChar = 69 ∨ formatChar = 70 ∨ formatChar = 101 ∨ formatChar = 102 then 0
  else 10

/-- From a `%` on, which is in front of `format`, to the end of the iteration (:213-:564). -/
def conversion (buf : Nat) (format : List UInt8) (s : Scan) : Option Outcome := do
  let (control, format) := controlFields format
  let formatChar := format.headD 0
  let s ← if formatChar ≠ 99 ∧ formatChar ≠ 91 then skipSpace mem s else pure s
  let width := if control.width ≤ 0 ∧ formatChar ≠ 99 then 1000000 else control.width
  if s.streamChar = EOF then return .done s
  else if formatChar = 37 then
    if s.streamChar ≠ 37 then return .done s else return .next format.tail (← s.getc mem)
  else if formatChar = 99 then
    charConversion mem false control.suppress (if width ≤ 0 then 1 else width.toNat) format.tail s
  else if formatChar = 115 then charConversion mem true control.suppress width.toNat format.tail s
  else if formatChar = 91 then bracketConversion mem control.suppress width.toNat format.tail s
  else if format = [] then return .returnEOF s
  else
    let (negative, width, s) ← signOf mem width.toNat s
    if baseOf formatChar = 0 then
      floatConversion mem buf negative control.suppress (control.storeLong || formatChar == 69 || formatChar == 70) width
        format.tail s
    else
      let storeShort := control.storeShort && formatChar != 68 && formatChar != 79 && formatChar != 88
      integerConversion mem (baseOf formatChar) negative control.suppress storeShort width format.tail s

/-! ## The main loop -/

/-- What is returned at `done` (:567). -/
def Scan.result (s : Scan) : Int := if s.streamChar = EOF ∧ s.assigned = [] then EOF else s.assigned.length

/-- The loop over the format (:201); every iteration takes a character from it. -/
def scanLoop (buf : Nat) : Nat → List UInt8 → Scan → Option (Int × Scan)
  | 0, _, _ => none
  | _ + 1, [], s => some (s.result, s)
  | rounds + 1, f :: format, s => do
    if s.streamChar = EOF then return (s.result, s)
    else if isspace (charOf f) then scanLoop buf rounds format (← skipSpace mem s)
    else if f ≠ 37 then
      if s.streamChar ≠ charOf f then return (s.result, s) else scanLoop buf rounds format (← s.getc mem)
    else
      match ← conversion mem buf format s with
      | .next format s => scanLoop buf rounds format s
      | .done s => return (s.result, s)
      | .returnEOF s => return (EOF, s)

/-- `vfscanf` (:162): the result, what has been assigned, and the stream. -/
def vfscanf (buf : Nat) (stream : FILE) (format : List UInt8) (args : List Nat) :
    Option (Int × List (Nat × Field) × FILE) := do
  let s ← Scan.getc mem ⟨stream, 0, args, 0, 0, []⟩
  if s.streamChar = EOF then return (EOF, [], s.stream)
  else
    let (result, s) ← scanLoop mem buf (format.length + 1) format s
    return (result, s.assigned, s.stream)

end

end Stdio
