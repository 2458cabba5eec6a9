import SkyOS.Lib.Bytes
import SkyOS.Lib.Machine
import SkyOS.Lib.StepSystem

/-!
# Streams on a memory resource (`kfileio.cpp:48-120`, `MemoryResourceAdaptor.cpp:28`)

A stream is a cursor over the bytes of a boot module. `_position` and `_eof` are kept apart: the reader and the three
cases of `fseek` set them each in its own way. `Suits` says which calls leave `feof` and the cursor in agreement and
do what they are for.

| here | there |
| --- | --- |
| `offset`, `whence` as `Int32`; `size`, `count` as `UInt32` | `long` and `int`; `size_t` |
| `room` | the bytes of the destination of a `memcpy`; `none` is a copy that does not fit it |
| `FILE.module` | the module whose address is in `_id` |
-/

namespace Stdio

open Machine Bytes Option

/-! ## The source -/

def EOF : Int := -1

def SEEK_SET : Int := 0
def SEEK_CUR : Int := 1
def SEEK_END : Int := 2

structure Module where
  ModuleStart : Nat
  ModuleEnd : Nat
  deriving DecidableEq

structure FILE where
  module : Module
  _fileLength : Nat
  _eof : Nat
  _position : Nat
  deriving DecidableEq

section

variable (mem : Memory)

/-- `MemoryResourceAdaptor::Open` (:68). -/
def openModule (m : Module) : FILE := ⟨m, sub32 m.ModuleEnd m.ModuleStart, 0, 0⟩

def memcpy (room src count : Nat) : Option (List UInt8) := if count ≤ room then some (slice mem src count) else none

/-- `MemoryResourceAdaptor::Read` (:28): what is returned, what is in the buffer, and the stream. -/
def read (room : Nat) (file : FILE) (size count : Nat) : Option (Int × List UInt8 × FILE) :=
  let remain := toInt32 (sub32 file._fileLength file._position)
  if remain = 0 then some (0, [], { file with _eof := 1 })
  else
    let product := toInt32 (size * count : Nat)
    let readCount := if product > remain then remain else product
    (memcpy mem room (u32 (file.module.ModuleStart + file._position)) (dword readCount)).map fun buffer =>
      (readCount, buffer, { file with
        _eof := if product > remain then 1 else file._eof
        _position := u32 (file._position + dword readCount) })

/-- `StorageManager::ReadFile` (:122), with the module's adaptor as the current file system. -/
def ReadFile (room : Nat) (file : FILE) (size count : Nat) : Option (Int × List UInt8 × FILE) :=
  if count = 0 then some (0, [], file) else read mem room file size count

/-- `fread` (:14), to a destination for what it asks for. -/
def fread (stream : FILE) (size count : Nat) : Option (Nat × List UInt8 × FILE) :=
  (ReadFile mem (size * count) stream size count).map fun (readCount, buffer, stream) => (dword readCount, buffer, stream)

/-- `fgetc` (:105); its buffer has two bytes of type `char`. -/
def fgetc (stream : FILE) : Option (Int × FILE) :=
  (ReadFile mem 2 stream 1 1).map fun (readCount, buf, stream) =>
    (if readCount = 0 then EOF else (buf.headD 0).toInt8.toInt, stream)

def feof (stream : FILE) : Nat := if stream._eof ≠ 0 then stream._eof else 0

/-- `ftell` (:99). -/
def ftell (stream : FILE) : Int := toInt32 stream._position

/-- `fseek` (:63): 0 or -1, and the stream. -/
def fseek (stream : FILE) (offset whence : Int) : Int × FILE :=
  if whence = SEEK_CUR then
    if dword (stream._position + offset) > stream._fileLength then (-1, stream)
    else (0, { stream with _position := dword (stream._position + offset) })
  else if whence = SEEK_SET then
    if offset < 0 ∨ dword offset > stream._fileLength then (-1, stream)
    else (0, { stream with
      _position := dword offset
      _eof := if dword offset < stream._fileLength then 0 else stream._eof })
  else if whence = SEEK_END then
    if offset > 0 ∨ dword (-offset) ≥ stream._fileLength then (-1, stream)
    else (0, { stream with _position := dword (stream._fileLength + offset), _eof := 1 })
  else (-1, stream)

/-! ## Runs -/

inductive Call where
  | fseek (offset whence : Int32)
  | fread (size count : UInt32)
  | fgetc
  | ftell
  | feof

def call (stream : FILE) : Call → Option FILE
  | .fseek offset whence => some (fseek stream offset.toInt whence.toInt).2
  | .fread size count => (fread mem stream size.toNat count.toNat).map fun (_, _, stream) => stream
  | .fgetc => (fgetc mem stream).map fun (_, stream) => stream
  | .ftell | .feof => some stream

def streams (m : Module) : StepSystem FILE Call where
  init stream := stream = openModule m
  step := call mem

/-! ## What a stream is for -/

/-- The cursor is in the file, and `feof` reports nothing but its end. -/
structure InFile (stream : FILE) : Prop where
  position : stream._position ≤ stream._fileLength
  atEnd : feof stream ≠ 0 → stream._position = stream._fileLength

/-- The stream with its cursor at `position`, whatever `_eof` is. -/
def MovesTo (stream : FILE) (position : Nat) (stream' : FILE) : Prop :=
  stream' = { stream with _position := position, _eof := stream'._eof }

def base (stream : FILE) (whence : Int) : Option Nat :=
  if whence = SEEK_SET then some 0
  else if whence = SEEK_CUR then some stream._position
  else if whence = SEEK_END then some stream._fileLength
  else none

/-- The place that `fseek` is to go to, if it is in the file. -/
def target (stream : FILE) (offset whence : Int) : Option Nat :=
  (base stream whence).bind fun b =>
    if 0 ≤ b + offset ∧ b + offset ≤ stream._fileLength then some (b + offset).toNat else none

def SeekRight (stream : FILE) (offset whence : Int) : Prop :=
  match target stream offset whence with
  | some position => (fseek stream offset whence).1 = 0 ∧ MovesTo stream position (fseek stream offset whence).2
  | none => fseek stream offset whence = (-1, stream)

/-- The bytes from the cursor on, at most `n`, with the cursor behind them. -/
def Delivers (stream : FILE) (n : Nat) (bytes : List UInt8) (stream' : FILE) : Prop :=
  bytes = slice mem (stream.module.ModuleStart + stream._position) (min n (stream._fileLength - stream._position)) ∧
    MovesTo stream (stream._position + min n (stream._fileLength - stream._position)) stream'

def CallRight (stream : FILE) : Call → Prop
  | .fseek offset whence => SeekRight stream offset.toInt whence.toInt
  | .fread size count => ∃ bytes stream', fread mem stream size.toNat count.toNat = some (bytes.length, bytes, stream') ∧
      Delivers mem stream (size.toNat * count.toNat) bytes stream'
  | .fgetc => ∃ bytes stream', fgetc mem stream = some (bytes.head?.elim EOF fun c => c.toInt8.toInt, stream') ∧
      Delivers mem stream 1 bytes stream'
  | .ftell | .feof => True

/-- Every state of the run is in order, and every call of it does what it is for. -/
def CursorRight (m : Module) (calls : List Call) : Prop :=
  (∀ before, before <+: calls → ∀ stream, (streams mem m).exec (openModule m) before = some stream → InFile stream) ∧
    (streams mem m).Meets (CallRight mem) (openModule m) calls

end

/-! ## Which calls are right -/

/-- From an end that `feof` reports nobody goes away; a sum does not wrap around into the file. -/
def CurSuits (stream : FILE) (offset : Int) : Prop :=
  (stream._eof = 0 ∨ offset = 0 ∨ stream._position + offset < 0 ∨ stream._fileLength < stream._position + offset) ∧
    stream._fileLength < stream._position + offset + 2 ^ 32 ∧ stream._position + offset < 2 ^ 32
  deriving Decidable

def EndSuits (stream : FILE) (offset : Int) : Prop :=
  0 < offset ∨ stream._fileLength < -offset ∨ offset = 0 ∧ stream._fileLength ≠ 0
  deriving Decidable

/-- `n` bytes are asked for where `rest` are left: both are on the same side of 2^31 once the first is reduced modulo
2^32, and the rest is no more than what the reduction leaves, if it changes anything; or the rest is of 2^31 bytes and
more and the request, but not its reduction, at least as large. -/
def ReadSuits (rest n : Nat) : Prop :=
  if n % 2 ^ 32 < 2 ^ 31 ↔ rest < 2 ^ 31 then n < 2 ^ 32 ∨ rest ≤ n % 2 ^ 32 else 2 ^ 31 ≤ rest ∧ rest ≤ n
  deriving Decidable

def Suits (stream : FILE) : Call → Prop
  | .fseek offset whence =>
    (whence.toInt = SEEK_CUR → CurSuits stream offset.toInt) ∧ (whence.toInt = SEEK_END → EndSuits stream offset.toInt)
  | .fread size count => stream._position = stream._fileLength ∨ count = 0 ∨
      ReadSuits (stream._fileLength - stream._position) (size.toNat * count.toNat)
  | .fgetc => stream._fileLength - stream._position < 2 ^ 31
  | .ftell | .feof => True

instance (stream : FILE) : (c : Call) → Decidable (Suits stream c)
  | .fseek offset whence =>
    inferInstanceAs (Decidable ((whence.toInt = SEEK_CUR → CurSuits stream offset.toInt) ∧
      (whence.toInt = SEEK_END → EndSuits stream offset.toInt)))
  | .fread .. => inferInstanceAs (Decidable (_ ∨ _ ∨ _))
  | .fgetc => inferInstanceAs (Decidable (_ - _ < 2 ^ 31))
  | .ftell | .feof => .isTrue trivial

/-! ## What a call leaves as it was -/

variable {mem : Memory} {stream stream' : FILE}

def Placed (stream : FILE) : Prop := stream.module.ModuleStart + stream._fileLength < 2 ^ 32

variable {room size count n : Nat} {r offset whence : Int} {bytes : List UInt8}

theorem readFile_frame
    (h : ReadFile mem room stream size count = some (r, bytes, stream')) :
    stream'.module = stream.module ∧ stream'._fileLength = stream._fileLength := by
  unfold ReadFile read at h
  split at h
  · cases h
    exact ⟨rfl, rfl⟩
  · dsimp only at h
    split at h
    · cases h
      exact ⟨rfl, rfl⟩
    · obtain ⟨buffer, -, h⟩ := map_eq_some_iff.1 h
      obtain ⟨-, -, rfl⟩ : _ ∧ _ ∧ _ = stream' := by simpa only [Prod.mk.injEq] using h
      exact ⟨rfl, rfl⟩

theorem fseek_frame (offset whence : Int) :
    (fseek stream offset whence).2.module = stream.module ∧
      (fseek stream offset whence).2._fileLength = stream._fileLength := by
  unfold fseek
  split_ifs <;> exact ⟨rfl, rfl⟩

variable {c : Call} {x : Int} {b rest : Nat}

theorem call_frame (h : call mem stream c = some stream') :
    stream'.module = stream.module ∧ stream'._fileLength = stream._fileLength := by
  cases c with
  | fseek offset whence =>
    cases h
    exact fseek_frame _ _
  | fread size count =>
    obtain ⟨⟨r, bytes, t⟩, hread, rfl⟩ := map_eq_some_iff.1 h
    obtain ⟨⟨r', bytes', t'⟩, hread, he⟩ := map_eq_some_iff.1 hread
    cases he
    exact readFile_frame hread
  | fgetc =>
    rw [call, map_eq_some_iff] at h
    obtain ⟨⟨r, t⟩, hgetc, rfl⟩ := h
    rw [fgetc, map_eq_some_iff] at hgetc
    obtain ⟨⟨r', bytes', t'⟩, hread, he⟩ := hgetc
    obtain ⟨-, rfl⟩ := Prod.mk.inj he
    exact readFile_frame hread
  | ftell | feof =>
    cases h
    exact ⟨rfl, rfl⟩

theorem placed_call (hplaced : Placed stream) (h : call mem stream c = some stream') : Placed stream' := by
  obtain ⟨hmodule, hlength⟩ := call_frame h
  rw [Placed, hmodule, hlength]
  exact hplaced

theorem feof_eq (stream : FILE) : feof stream = stream._eof := by
  unfold feof
  split <;> omega

/-! ## Seeks -/

theorem dword_of_nonneg (h : 0 ≤ x) (hlt : x < 2 ^ 32) : dword x = x.toNat := by
  unfold dword
  omega

theorem dword_of_neg (h : x < 0) (hlt : -2 ^ 32 ≤ x) : dword x = (x + 2 ^ 32).toNat := by
  unfold dword
  omega

theorem target_eq_some (hb : base stream whence = some b) (h : 0 ≤ b + offset)
    (h' : b + offset ≤ stream._fileLength) : target stream offset whence = some (b + offset).toNat := by
  rw [target, hb, bind_some, if_pos ⟨h, h'⟩]

theorem target_eq_none (hb : base stream whence = some b)
    (h : b + offset < 0 ∨ stream._fileLength < b + offset) : target stream offset whence = none := by
  rw [target, hb, bind_some, if_neg (by omega)]

theorem seek_moved (htarget : target stream offset whence = none)
    (h : (fseek stream offset whence).1 = 0) : ¬ SeekRight stream offset whence := by
  intro hright
  rw [SeekRight, htarget] at hright
  rw [hright] at h
  cases h

theorem seek_cur_iff (h : InFile stream) (hplaced : Placed stream) (hoffset : IsInt32 offset) :
    SeekRight stream offset SEEK_CUR ∧ InFile (fseek stream offset SEEK_CUR).2 ↔ CurSuits stream offset := by
  have hbase : base stream SEEK_CUR = some stream._position := rfl
  have hseek : fseek stream offset SEEK_CUR = if dword (stream._position + offset) > stream._fileLength then (-1, stream)
      else (0, { stream with _position := dword (stream._position + offset) }) := if_pos rfl
  have hpos := h.position
  have hend := h.atEnd
  rw [feof_eq] at hend
  unfold Placed at hplaced
  unfold IsInt32 at hoffset
  unfold CurSuits
  by_cases hlow : stream._position + offset < 0
  · have htarget := target_eq_none hbase (.inl hlow)
    have hdword := dword_of_neg hlow (by omega)
    by_cases hwrap : dword (stream._position + offset) > stream._fileLength
    · rw [if_pos hwrap] at hseek
      rw [SeekRight, htarget, hseek]
      exact iff_of_true ⟨rfl, h⟩ (by omega)
    · rw [if_neg hwrap] at hseek
      exact iff_of_false (fun hright => seek_moved htarget (by rw [hseek]) hright.1) (by omega)
  · by_cases hhigh : stream._fileLength < stream._position + offset
    · have htarget := target_eq_none hbase (.inr hhigh)
      by_cases hwrap : dword (stream._position + offset) > stream._fileLength
      · rw [if_pos hwrap] at hseek
        rw [SeekRight, htarget, hseek]
        refine iff_of_true ⟨rfl, h⟩ ?_
        unfold dword at hwrap
        omega
      · rw [if_neg hwrap] at hseek
        refine iff_of_false (fun hright => seek_moved htarget (by rw [hseek]) hright.1) ?_
        unfold dword at hwrap
        omega
    · have htarget : target stream offset SEEK_CUR = some (stream._position + offset).toNat :=
        target_eq_some hbase (by omega) (by omega)
      have hdword := dword_of_nonneg (x := stream._position + offset) (by omega) (by omega)
      rw [hdword, if_neg (by omega)] at hseek
      rw [SeekRight, htarget, hseek]
      constructor
      · rintro ⟨-, hin⟩
        have hend' := hin.atEnd
        rw [feof_eq] at hend'
        dsimp only at hend'
        omega
      · intro hsuits
        refine ⟨⟨rfl, rfl⟩, ⟨by dsimp only; omega, ?_⟩⟩
        rw [feof_eq]
        dsimp only
        omega

theorem seek_set_right (h : InFile stream) (hoffset : IsInt32 offset) :
    SeekRight stream offset SEEK_SET ∧ InFile (fseek stream offset SEEK_SET).2 := by
  have hbase : base stream SEEK_SET = some 0 := rfl
  have hseek : fseek stream offset SEEK_SET = if offset < 0 ∨ dword offset > stream._fileLength then (-1, stream)
      else (0, { stream with
        _position := dword offset, _eof := if dword offset < stream._fileLength then 0 else stream._eof }) := rfl
  have hend := h.atEnd
  rw [feof_eq] at hend
  unfold IsInt32 at hoffset
  by_cases hin : 0 ≤ offset ∧ offset ≤ stream._fileLength
  · have hdword := dword_of_nonneg hin.1 (by omega)
    rw [if_neg (by omega), hdword] at hseek
    rw [SeekRight, target_eq_some hbase (by omega) (by omega), hseek, Int.natCast_zero, Int.zero_add]
    refine ⟨⟨rfl, rfl⟩, ⟨by dsimp only; omega, ?_⟩⟩
    rw [feof_eq]
    dsimp only
    split <;> omega
  · have hdword : ¬ 0 ≤ offset ∨ dword offset = offset.toNat := by
      by_cases hlow : 0 ≤ offset
      · exact .inr (dword_of_nonneg hlow (by omega))
      · exact .inl hlow
    rw [if_pos (by omega)] at hseek
    rw [SeekRight, target_eq_none hbase (by omega), hseek]
    exact ⟨rfl, h⟩

theorem seek_end_iff (h : InFile stream) (hplaced : Placed stream) (hoffset : IsInt32 offset) :
    SeekRight stream offset SEEK_END ∧ InFile (fseek stream offset SEEK_END).2 ↔ EndSuits stream offset := by
  have hbase : base stream SEEK_END = some stream._fileLength := rfl
  have hseek : fseek stream offset SEEK_END = if offset > 0 ∨ dword (-offset) ≥ stream._fileLength then (-1, stream)
      else (0, { stream with _position := dword (stream._fileLength + offset), _eof := 1 }) := rfl
  unfold Placed at hplaced
  unfold IsInt32 at hoffset
  unfold EndSuits
  by_cases hin : offset ≤ 0 ∧ -offset ≤ stream._fileLength
  · have hdword := dword_of_nonneg (x := -offset) (by omega) (by omega)
    have htarget : target stream offset SEEK_END = some (stream._fileLength + offset).toNat :=
      target_eq_some hbase (by omega) (by omega)
    by_cases hfirst : -offset = stream._fileLength
    · -- the first byte is refused
      rw [if_pos (by omega)] at hseek
      refine iff_of_false (fun hright => ?_) (by omega)
      have hright := hright.1
      rw [SeekRight, htarget, hseek] at hright
      cases hright.1
    · have hplace := dword_of_nonneg (x := stream._fileLength + offset) (by omega) (by omega)
      rw [if_neg (by omega), hplace] at hseek
      rw [SeekRight, htarget, hseek]
      constructor
      · rintro ⟨-, hin'⟩
        have hend := hin'.atEnd
        rw [feof_eq] at hend
        dsimp only at hend
        omega
      · intro hsuits
        exact ⟨⟨rfl, rfl⟩, ⟨by dsimp only; omega, fun _ => by dsimp only; omega⟩⟩
  · have hdword : 0 < offset ∨ dword (-offset) = (-offset).toNat := by
      by_cases hlow : 0 < offset
      · exact .inl hlow
      · exact .inr (dword_of_nonneg (by omega) (by omega))
    rw [if_pos (by omega)] at hseek
    rw [SeekRight, target_eq_none hbase (by omega), hseek]
    exact iff_of_true ⟨rfl, h⟩ (by omega)

theorem seek_iff (h : InFile stream) (hplaced : Placed stream) (hoffset : IsInt32 offset) (whence : Int) :
    SeekRight stream offset whence ∧ InFile (fseek stream offset whence).2 ↔
      (whence = SEEK_CUR → CurSuits stream offset) ∧ (whence = SEEK_END → EndSuits stream offset) := by
  by_cases hcur : whence = SEEK_CUR
  · subst hcur
    rw [seek_cur_iff h hplaced hoffset]
    exact ⟨fun hsuits => ⟨fun _ => hsuits, fun he => absurd he (by decide)⟩, fun hsuits => hsuits.1 rfl⟩
  by_cases hend : whence = SEEK_END
  · subst hend
    rw [seek_end_iff h hplaced hoffset]
    exact ⟨fun hsuits => ⟨fun he => absurd he (by decide), fun _ => hsuits⟩, fun hsuits => hsuits.2 rfl⟩
  refine iff_of_true ?_ ⟨fun he => absurd he hcur, fun he => absurd he hend⟩
  by_cases hset : whence = SEEK_SET
  · subst hset
    exact seek_set_right h hoffset
  · have hseek : fseek stream offset whence = (-1, stream) := by
      rw [fseek, if_neg hcur, if_neg hset, if_neg hend]
    have htarget : target stream offset whence = none := by
      rw [target, base, if_neg hset, if_neg hcur, if_neg hend, bind_none]
    rw [SeekRight, htarget, hseek]
    exact ⟨rfl, h⟩

/-! ## Reads -/

/-- The bytes that are copied where `rest` are left and `n` are asked for. -/
def taken (rest n : Nat) : Nat := dword (if toInt32 n > toInt32 rest then toInt32 rest else toInt32 n)

theorem toInt32_eq_zero_iff (h : n < 2 ^ 32) : toInt32 n = 0 ↔ n = 0 := by
  unfold toInt32
  omega

theorem taken_eq_min_iff (hrest : rest < 2 ^ 32) :
    taken rest n = min n rest ↔ ReadSuits rest n := by
  unfold taken ReadSuits dword toInt32
  split_ifs <;> omega

theorem taken_of_gt (hrest : rest < 2 ^ 32) (h : toInt32 n > toInt32 rest) : taken rest n = rest := by
  rw [taken, if_pos h]
  unfold dword toInt32
  omega

theorem toInt32_taken (rest n : Nat) :
    (if toInt32 n > toInt32 rest then toInt32 rest else toInt32 n) = toInt32 (taken rest n : Nat) := by
  unfold taken dword toInt32
  split_ifs <;> omega

/-- **The reader**, off the end of the file. -/
theorem readFile_eq (hpos : stream._position ≤ stream._fileLength) (hplaced : Placed stream) (room : Nat)
    (hcount : count ≠ 0) (hend : stream._position ≠ stream._fileLength) : ReadFile mem room stream size count =
      if taken (stream._fileLength - stream._position) (size * count) ≤ room then
        some (toInt32 (taken (stream._fileLength - stream._position) (size * count)),
          slice mem (stream.module.ModuleStart + stream._position)
            (taken (stream._fileLength - stream._position) (size * count)),
          { stream with
            _eof := if toInt32 ((size * count : Nat) : Int) > toInt32 ((stream._fileLength - stream._position : Nat) : Int)
              then 1 else stream._eof
            _position := u32 (stream._position + taken (stream._fileLength - stream._position) (size * count)) })
      else none := by
  unfold Placed at hplaced
  have hremain : toInt32 ((stream._fileLength - stream._position : Nat) : Int) ≠ 0 := fun hzero => by
    rw [toInt32_eq_zero_iff (by omega)] at hzero
    omega
  rw [ReadFile, if_neg hcount, read, sub32_of_le hpos (by omega), if_neg hremain]
  dsimp only
  have haddr : u32 (stream.module.ModuleStart + stream._position) = stream.module.ModuleStart + stream._position :=
    u32_of_lt (by omega)
  rw [haddr, memcpy, ← taken, toInt32_taken]
  by_cases hroom : taken (stream._fileLength - stream._position) (size * count) ≤ room
  · rw [if_pos hroom, if_pos hroom, map_some]
  · rw [if_neg hroom, if_neg hroom, map_none]

def ReadRight (mem : Memory) (room : Nat) (stream : FILE) (size count : Nat) : Prop :=
  ∃ bytes stream', ReadFile mem room stream size count = some (toInt32 bytes.length, bytes, stream') ∧
    Delivers mem stream (size * count) bytes stream'

section

variable (h : InFile stream) (hplaced : Placed stream)
include h hplaced

theorem readFile_right_iff {room size count : Nat}
    (hroom : size * count ≤ room) : ReadRight mem room stream size count ↔
      stream._position = stream._fileLength ∨ count = 0 ∨
        ReadSuits (stream._fileLength - stream._position) (size * count) := by
  have hpos := h.position
  have hlt : stream._fileLength - stream._position < 2 ^ 32 := by
    unfold Placed at hplaced
    omega
  by_cases hcount : count = 0
  · refine iff_of_true ⟨[], stream, if_pos hcount, ?_⟩ (.inr (.inl hcount))
    rw [Delivers, hcount, Nat.mul_zero, Nat.zero_min]
    exact ⟨rfl, rfl⟩
  by_cases hend : stream._position = stream._fileLength
  · refine iff_of_true ⟨[], { stream with _eof := 1 }, ?_, ?_⟩ (.inl hend)
    · rw [ReadFile, if_neg hcount, read, hend, sub32_of_le le_rfl (by unfold Placed at hplaced; omega),
        Nat.sub_self]
      rfl
    · rw [Delivers, hend, Nat.sub_self, Nat.min_zero]
      exact ⟨rfl, rfl⟩
  rw [or_iff_right hend, or_iff_right hcount, ← taken_eq_min_iff hlt, ReadRight,
    readFile_eq h.position hplaced room hcount hend]
  generalize hn : taken (stream._fileLength - stream._position) (size * count) = n
  constructor
  · rintro ⟨bytes, stream', hread, hbytes, -⟩
    obtain ⟨-, hread⟩ := ite_none_right_eq_some.1 hread
    obtain ⟨-, hread⟩ := Prod.mk.inj (Option.some.inj hread)
    obtain ⟨hread, -⟩ := Prod.mk.inj hread
    have hlength := congrArg List.length (hread.trans hbytes)
    rwa [length_slice, length_slice] at hlength
  · intro hmin
    have hle : n ≤ room := by omega
    have hnext : stream._position + n < 2 ^ 32 := by
      unfold Placed at hplaced
      omega
    refine ⟨slice mem (stream.module.ModuleStart + stream._position) n, { stream with
      _eof := if toInt32 ((size * count : Nat) : Int) > toInt32 ((stream._fileLength - stream._position : Nat) : Int)
        then 1 else stream._eof
      _position := u32 (stream._position + n) }, ?_, ?_, ?_⟩
    · rw [if_pos hle, length_slice]
    · rw [hmin]
    · rw [MovesTo, u32_of_lt hnext, hmin]

theorem inFile_of_readFile (hread : ReadFile mem room stream size count = some (r, bytes, stream'))
    (hmoves : MovesTo stream (stream._position + min (size * count) (stream._fileLength - stream._position)) stream') :
    InFile stream' := by
  have hpos := h.position
  have hframe := readFile_frame hread
  have hposition : stream'._position = stream._position + min (size * count) (stream._fileLength - stream._position) := by
    rw [hmoves]
  refine ⟨by rw [hposition, hframe.2]; omega, fun heof => ?_⟩
  rw [feof_eq] at heof
  have hold := h.atEnd
  rw [feof_eq] at hold
  by_cases hend : stream._position = stream._fileLength
  · rw [hposition, hframe.2]
    omega
  by_cases hcount : count = 0
  · rw [ReadFile, if_pos hcount] at hread
    obtain ⟨-, -, rfl⟩ : _ ∧ _ ∧ _ = stream' := by simpa only [Option.some.injEq, Prod.mk.injEq] using hread
    exact hold heof
  rw [readFile_eq h.position hplaced room hcount hend] at hread
  obtain ⟨-, hread⟩ := ite_none_right_eq_some.1 hread
  obtain ⟨-, -, rfl⟩ : _ ∧ _ ∧ _ = stream' := by simpa only [Option.some.injEq, Prod.mk.injEq] using hread
  dsimp only at heof hposition ⊢
  split at heof
  · rename_i hgt
    have hlt : stream._fileLength - stream._position < 2 ^ 32 := by
      unfold Placed at hplaced
      omega
    rw [taken_of_gt hlt hgt, u32_of_lt (by unfold Placed at hplaced; omega)]
    omega
  · exact absurd (hold heof) hend

theorem readFile_count (hread : ReadFile mem room stream size count = some (r, bytes, stream')) :
    r = toInt32 bytes.length ∧ bytes.length < 2 ^ 32 := by
  by_cases hcount : count = 0
  · rw [ReadFile, if_pos hcount] at hread
    cases hread
    exact ⟨rfl, by decide⟩
  by_cases hend : stream._position = stream._fileLength
  · rw [ReadFile, if_neg hcount, read, hend, sub32_of_le le_rfl (by unfold Placed at hplaced; omega),
      Nat.sub_self, Int.natCast_zero, if_pos (by decide)] at hread
    cases hread
    exact ⟨rfl, by decide⟩
  · rw [readFile_eq h.position hplaced room hcount hend] at hread
    obtain ⟨-, hread⟩ := ite_none_right_eq_some.1 hread
    obtain ⟨rfl, rfl, -⟩ : _ = r ∧ _ = bytes ∧ _ := by simpa only [Option.some.injEq, Prod.mk.injEq] using hread
    rw [length_slice]
    refine ⟨rfl, ?_⟩
    unfold taken dword
    omega

end

/-! ## One call -/

theorem fread_right_iff (h : InFile stream) (hplaced : Placed stream) (size count : UInt32) :
    CallRight mem stream (.fread size count) ↔
      ReadRight mem (size.toNat * count.toNat) stream size.toNat count.toNat := by
  constructor
  · rintro ⟨bytes, stream', hread, hdelivers⟩
    rw [fread, map_eq_some_iff] at hread
    obtain ⟨⟨r, bytes', t⟩, hread, he⟩ := hread
    obtain ⟨-, rfl, rfl⟩ : _ ∧ bytes' = bytes ∧ t = stream' := by simpa only [Prod.mk.injEq] using he
    rw [(readFile_count h hplaced hread).1] at hread
    exact ⟨bytes', t, hread, hdelivers⟩
  · rintro ⟨bytes, stream', hread, hdelivers⟩
    have hlt := (readFile_count h hplaced hread).2
    have hdword : dword (toInt32 bytes.length) = bytes.length := by
      unfold dword toInt32
      omega
    refine ⟨bytes, stream', ?_, hdelivers⟩
    rw [fread, hread, map_some]
    dsimp only
    rw [hdword]

theorem fgetc_large (hpos : stream._position ≤ stream._fileLength) (hplaced : Placed stream)
    (hlarge : 2 ^ 31 ≤ stream._fileLength - stream._position) : fgetc mem stream = none := by
  have hlt : stream._fileLength - stream._position < 2 ^ 32 := by
    unfold Placed at hplaced
    omega
  have hgt : toInt32 ((1 * 1 : Nat) : Int) > toInt32 ((stream._fileLength - stream._position : Nat) : Int) := by
    unfold toInt32
    omega
  rw [fgetc, readFile_eq hpos hplaced 2 (by decide) (by omega), taken_of_gt hlt hgt, if_neg (by omega), map_none]

theorem fgetc_right_iff (h : InFile stream) (hplaced : Placed stream) :
    CallRight mem stream .fgetc ↔ stream._fileLength - stream._position < 2 ^ 31 := by
  have hpos := h.position
  constructor
  · rintro ⟨bytes, stream', hgetc, -⟩
    by_contra hlarge
    rw [fgetc_large hpos hplaced (by omega)] at hgetc
    cases hgetc
  · intro hsmall
    have hsuits : ReadSuits (stream._fileLength - stream._position) (1 * 1) := by
      rw [ReadSuits, if_pos (by omega)]
      omega
    obtain ⟨bytes, stream', hread, hdelivers⟩ :=
      (@readFile_right_iff mem stream h hplaced 2 1 1 (by decide)).2 (.inr (.inr hsuits))
    have hlength := (readFile_count h hplaced hread).2
    refine ⟨bytes, stream', ?_, hdelivers⟩
    rw [fgetc, hread, map_some]
    dsimp only
    cases bytes with
    | nil => rfl
    | cons c bytes =>
      have hcount : toInt32 (c :: bytes).length ≠ 0 := fun hzero => by
        rw [toInt32_eq_zero_iff hlength] at hzero
        cases hzero
      rw [if_neg hcount]
      rfl

/-- **One call** is right and leaves the stream in order exactly when it suits. -/
theorem suits_iff (h : InFile stream) (hplaced : Placed stream) (c : Call) :
    (CallRight mem stream c ∧ ∀ t, call mem stream c = some t → InFile t) ↔ Suits stream c := by
  cases c with
  | fseek offset whence =>
    rw [Suits, ← seek_iff h hplaced ⟨offset.le_toInt, offset.toInt_lt⟩]
    refine and_congr_right fun _ => ⟨fun hcall => hcall _ rfl, fun hin t ht => ?_⟩
    cases ht
    exact hin
  | fread size count =>
    have hin : CallRight mem stream (.fread size count) → ∀ t, call mem stream (.fread size count) = some t → InFile t := by
      rintro ⟨bytes, stream', hread, hdelivers⟩ t ht
      rw [call, hread] at ht
      cases ht
      rw [fread, map_eq_some_iff] at hread
      obtain ⟨⟨r, bytes', t⟩, hread, he⟩ := hread
      obtain ⟨-, rfl, rfl⟩ : _ ∧ bytes' = bytes ∧ t = stream' := by simpa only [Prod.mk.injEq] using he
      exact inFile_of_readFile h hplaced hread hdelivers.2
    rw [and_iff_left_of_imp hin, fread_right_iff h hplaced, readFile_right_iff h hplaced le_rfl, Suits,
      ← UInt32.toNat_inj]
    rfl
  | fgetc =>
    have hin : CallRight mem stream .fgetc → ∀ t, call mem stream .fgetc = some t → InFile t := by
      rintro ⟨bytes, stream', hgetc, hdelivers⟩ t ht
      rw [call, hgetc] at ht
      cases ht
      rw [fgetc, map_eq_some_iff] at hgetc
      obtain ⟨⟨r, bytes', t⟩, hread, he⟩ := hgetc
      obtain ⟨-, rfl⟩ := Prod.mk.inj he
      exact inFile_of_readFile h hplaced hread hdelivers.2
    rw [and_iff_left_of_imp hin, fgetc_right_iff h hplaced]
    rfl
  | ftell | feof =>
    refine iff_of_true ⟨trivial, fun t ht => ?_⟩ trivial
    cases ht
    exact h

/-! ## Character after character -/

/-- The bytes from the cursor to the end of the file, which are fewer than 2^31. -/
structure Ahead (mem : Memory) (stream : FILE) (bytes : List UInt8) : Prop where
  position : stream._position ≤ stream._fileLength
  placed : Placed stream
  held : slice mem (stream.module.ModuleStart + stream._position) (stream._fileLength - stream._position) = bytes
  small : bytes.length < 2 ^ 31

theorem fgetc_nil (h : Ahead mem stream []) :
    ∃ stream', fgetc mem stream = some (EOF, stream') ∧ Ahead mem stream' [] := by
  have hlength := congrArg List.length h.held
  rw [length_slice, List.length_nil] at hlength
  have hend : stream._position = stream._fileLength := by
    have := h.position
    omega
  refine ⟨{ stream with _eof := 1 }, ?_, ⟨h.position, h.placed, h.held, h.small⟩⟩
  rw [fgetc, ReadFile, if_neg (by decide), read, hend,
    sub32_of_le le_rfl (by have := h.placed; unfold Placed at this; omega), Nat.sub_self, Int.natCast_zero,
    if_pos (by decide)]
  rfl

theorem fgetc_cons {c : UInt8} (h : Ahead mem stream (c :: bytes)) :
    ∃ stream', fgetc mem stream = some (c.toInt8.toInt, stream') ∧ Ahead mem stream' bytes := by
  have hplaced := h.placed
  unfold Placed at hplaced
  have hsmall := h.small
  have hlength := congrArg List.length h.held
  rw [length_slice] at hlength
  rw [List.length_cons] at hlength hsmall
  have hbytes := h.held
  obtain ⟨rest, hrest⟩ : ∃ rest, stream._fileLength - stream._position = rest + 1 := ⟨_, hlength⟩
  rw [hrest, slice, List.cons.injEq] at hbytes
  have htaken : taken (rest + 1) (1 * 1) = 1 := by
    unfold taken dword toInt32
    split_ifs <;> omega
  have heof : ¬ toInt32 ((1 * 1 : Nat) : Int) > toInt32 ((rest + 1 : Nat) : Int) := by
    unfold toInt32
    omega
  refine ⟨{ stream with _position := stream._position + 1 }, ?_, ⟨?_, h.placed, ?_, by omega⟩⟩
  · rw [fgetc, readFile_eq h.position h.placed 2 (by decide) (by omega), hrest, htaken, if_pos (by decide),
      map_some, u32_of_lt (by omega), if_neg heof, slice, hbytes.1]
    rfl
  · dsimp only
    omega
  · dsimp only
    rw [show stream._fileLength - (stream._position + 1) = rest by omega, ← Nat.add_assoc]
    exact hbytes.2

theorem ahead_open (mem : Memory) {m : Module} (hm : m.ModuleStart ≤ m.ModuleEnd) (hend : m.ModuleEnd < 2 ^ 32)
    (hsmall : m.ModuleEnd - m.ModuleStart < 2 ^ 31) :
    Ahead mem (openModule m) (slice mem m.ModuleStart (m.ModuleEnd - m.ModuleStart)) := by
  rw [openModule, sub32_of_le hm hend]
  refine ⟨Nat.zero_le _, ?_, rfl, by rwa [length_slice]⟩
  rw [Placed]
  dsimp only
  omega

/-! ## Runs of calls -/

theorem inFile_open (m : Module) : InFile (openModule m) where
  position := Nat.zero_le _
  atEnd h := absurd rfl h

/-- **The cursor of a stream.** In every run on every module: each state is in order and each call does what it is for,
exactly when all its calls suit. -/
theorem cursor_right_iff (mem : Memory) {m : Module} (hm : m.ModuleStart ≤ m.ModuleEnd) (hend : m.ModuleEnd < 2 ^ 32)
    (calls : List Call) : CursorRight mem m calls ↔ (streams mem m).Meets Suits (openModule m) calls := by
  have hplaced : Placed (openModule m) := by
    rw [Placed, openModule, sub32_of_le hm hend]
    dsimp only
    omega
  exact StepSystem.states_and_calls_iff_meets Placed (fun _ _ _ => placed_call) (fun _ c hp hin => suits_iff hin hp c)
    hplaced (inFile_open m)

def threeBytes : Memory := ofList 4096 [65, 66, 67]

theorem cursor_right_iff_threeBytes : CursorRight threeBytes ⟨4096, 4099⟩
    [.fread 2 1, .fseek (-1) 1, .fgetc, .fseek 0 2, .fseek 0 0, .fseek 1 1, .fread 4 4, .feof] :=
  (cursor_right_iff threeBytes (by decide) (by decide) _).2 (by decide +kernel)

/-- At the end, which `feof` reports once a read has met it, `SEEK_CUR` goes back and leaves the flag. -/
theorem feof_reports_middle : ¬ ∀ (mem : Memory) (m : Module), m.ModuleStart ≤ m.ModuleEnd → m.ModuleEnd < 2 ^ 32 →
    ∀ calls, CursorRight mem m calls := by
  intro h
  have hmiddle := (h threeBytes ⟨4096, 4099⟩ (by decide) (by decide) [.fread 4 1, .fseek (-1) 1]).1 _
    (List.prefix_refl _) ⟨⟨4096, 4099⟩, 3, 1, 2⟩ (by decide +kernel)
  exact absurd (hmiddle.atEnd (by decide)) (by decide)

end Stdio
