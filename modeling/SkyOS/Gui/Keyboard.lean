import Mathlib.Data.List.Infix
import Mathlib.Data.List.Forall2
import Mathlib.Tactic.Common

/-!
# Scan codes (`SkyOS/SkyInputHandler.cpp`)

The keyboard sends one byte for a key that goes down or up, two with 0xE0 first for an extended key, and six for
Pause. `ConvertScanCodeToASCIICode` is fed one byte at a time and keeps in `m_keyboardState` what it has to remember.

| here | there |
| --- | --- |
| `none` from the decoder | `gs_vstKeyMappingTable` is indexed out of range |
| `storeBool` | a write through `bool* pbFlags`, which points to the byte `bFlags` |
| `Transition` | a key goes down or up: the bytes the keyboard sends |

The queue the events go to and the LEDs are left out.
-/

namespace Gui

open List Option

def KEY_SKIPCOUNTFORPAUSE : Nat := 2

def KEY_FLAGS_DOWN : UInt8 := 0x01

def KEY_FLAGS_EXTENDEDKEY : UInt8 := 0x02

def KEY_MAPPINGTABLEMAXCOUNT : Nat := 90

def KEY_PAUSE : UInt8 := 0xA0

structure KEYMAPPINGENTRY where
  bNormalCode : UInt8
  bCombinedCode : UInt8

/-- The keys that shift changes nothing on. -/
def same (code : UInt8) : KEYMAPPINGENTRY := ⟨code, code⟩

def chars (normal combined : Char) : KEYMAPPINGENTRY := ⟨normal.toUInt8, combined.toUInt8⟩

/-- `gs_vstKeyMappingTable` (:122). The last entry is not given there and is zero. -/
def gs_vstKeyMappingTable : List KEYMAPPINGENTRY :=
  [same 0x00, same 0x1B,
   chars '1' '!', chars '2' '@', chars '3' '#', chars '4' '$', chars '5' '%', chars '6' '^', chars '7' '&',
   chars '8' '*', chars '9' '(', chars '0' ')', chars '-' '_', chars '=' '+', same 0x08, same 0x09,
   chars 'q' 'Q', chars 'w' 'W', chars 'e' 'E', chars 'r' 'R', chars 't' 'T', chars 'y' 'Y', chars 'u' 'U',
   chars 'i' 'I', chars 'o' 'O', chars 'p' 'P', ⟨0x5B, 0x7B⟩, ⟨0x5D, 0x7D⟩, same 0x0A, same 0x81,
   chars 'a' 'A', chars 's' 'S', chars 'd' 'D', chars 'f' 'F', chars 'g' 'G', chars 'h' 'H', chars 'j' 'J',
   chars 'k' 'K', chars 'l' 'L', chars ';' ':', ⟨0x27, 0x22⟩, ⟨0x60, 0x7E⟩, same 0x82, ⟨0x5C, 0x7C⟩,
   chars 'z' 'Z', chars 'x' 'X', chars 'c' 'C', chars 'v' 'V', chars 'b' 'B', chars 'n' 'N', chars 'm' 'M',
   chars ',' '<', chars '.' '>', chars '/' '?', same 0x83, chars '*' '*', same 0x85, same 0x20, same 0x86,
   same 0x87, same 0x88, same 0x89, same 0x8A, same 0x8B, same 0x8C, same 0x8D, same 0x8E, same 0x8F, same 0x90,
   same 0x91, same 0x92,
   ⟨0x93, '7'.toUInt8⟩, ⟨0x94, '8'.toUInt8⟩, ⟨0x95, '9'.toUInt8⟩, chars '-' '-', ⟨0x96, '4'.toUInt8⟩,
   ⟨0x97, '5'.toUInt8⟩, ⟨0x98, '6'.toUInt8⟩, chars '+' '+', ⟨0x99, '1'.toUInt8⟩, ⟨0x9A, '2'.toUInt8⟩,
   ⟨0x9B, '3'.toUInt8⟩, ⟨0x9C, '0'.toUInt8⟩, ⟨0x9D, '.'.toUInt8⟩,
   same 0x00, same 0x00, same 0x00, same 0x9E, same 0x9F, same 0x00]

theorem gs_vstKeyMappingTable_length : gs_vstKeyMappingTable.length = KEY_MAPPINGTABLEMAXCOUNT := rfl

/-- `m_keyboardState` -/
structure KEYBOARDSTATE where
  bShiftDown : Bool
  bCapsLockOn : Bool
  bNumLockOn : Bool
  bScrollLockOn : Bool
  bExtendedCodeIn : Bool
  iSkipCountForPause : Nat

structure KEYDATA where
  bScanCode : UInt8
  bASCIICode : UInt8
  bFlags : UInt8

/-- A number stored through a pointer to `bool`. -/
def storeBool (value : UInt8) : UInt8 := if value = 0 then 0 else 1

/-- `IsAlphabetScanCode` (:824). -/
def IsAlphabetScanCode (bScanCode : UInt8) : Option Bool :=
  gs_vstKeyMappingTable[bScanCode.toNat]?.map fun entry =>
    decide ('a'.toUInt8 ≤ entry.bNormalCode ∧ entry.bNormalCode ≤ 'z'.toUInt8)

/-- `IsNumberOrSymbolScanCode` (:838). -/
def IsNumberOrSymbolScanCode (bScanCode : UInt8) : Option Bool :=
  if 2 ≤ bScanCode ∧ bScanCode ≤ 53 then (IsAlphabetScanCode bScanCode).map (! ·) else some false

/-- `IsNumberPadScanCode` (:854). -/
def IsNumberPadScanCode (bScanCode : UInt8) : Bool := decide (71 ≤ bScanCode ∧ bScanCode ≤ 83)

namespace KEYBOARDSTATE

/-- As `memset` leaves it in the constructor. -/
def zero : KEYBOARDSTATE := ⟨false, false, false, false, false, 0⟩

/-- `IsUseCombinedCode` (:769). -/
def IsUseCombinedCode (state : KEYBOARDSTATE) (bScanCode : UInt8) : Option Bool :=
  let bDownScanCode := bScanCode &&& 0x7F
  (IsAlphabetScanCode bDownScanCode).bind fun alphabet =>
    if alphabet then some (state.bShiftDown ^^ state.bCapsLockOn)
    else
      (IsNumberOrSymbolScanCode bDownScanCode).map fun symbol =>
        if symbol then state.bShiftDown
        else if IsNumberPadScanCode bDownScanCode ∧ state.bExtendedCodeIn = false then state.bNumLockOn
        else false

/-- `UpdateCombinationKeyStatusAndLED` (:650). -/
def UpdateCombinationKeyStatusAndLED (state : KEYBOARDSTATE) (bScanCode : UInt8) : KEYBOARDSTATE :=
  let bDown := decide (bScanCode &&& 0x80 = 0)
  let bDownScanCode := bScanCode &&& 0x7F
  if bDownScanCode = 42 ∨ bDownScanCode = 54 then { state with bShiftDown := bDown }
  else if bDownScanCode = 58 ∧ bDown then { state with bCapsLockOn := ! state.bCapsLockOn }
  else if bDownScanCode = 69 ∧ bDown then { state with bNumLockOn := ! state.bNumLockOn }
  else if bDownScanCode = 70 ∧ bDown then { state with bScrollLockOn := ! state.bScrollLockOn }
  else state

/-- `ConvertScanCodeToASCIICode` (:586): the event, if it returns `TRUE`. -/
def ConvertScanCodeToASCIICode (state : KEYBOARDSTATE) (bScanCode : UInt8) : Option (Option KEYDATA × KEYBOARDSTATE) :=
  if state.iSkipCountForPause > 0 then
    some (none, { state with iSkipCountForPause := state.iSkipCountForPause - 1 })
  else if bScanCode = 0xE1 then
    some (some ⟨bScanCode, KEY_PAUSE, storeBool KEY_FLAGS_DOWN⟩,
      { state with iSkipCountForPause := KEY_SKIPCOUNTFORPAUSE })
  else if bScanCode = 0xE0 then some (none, { state with bExtendedCodeIn := true })
  else
    (state.IsUseCombinedCode bScanCode).bind fun bUseCombinedKey =>
      gs_vstKeyMappingTable[(bScanCode &&& 0x7F).toNat]?.map fun entry =>
        let bASCIICode := if bUseCombinedKey then entry.bCombinedCode else entry.bNormalCode
        let bFlags := if state.bExtendedCodeIn then storeBool KEY_FLAGS_EXTENDEDKEY else storeBool 0
        let bFlags := if bScanCode &&& 0x80 = 0 then storeBool (bFlags ||| KEY_FLAGS_DOWN) else bFlags
        (some ⟨bScanCode, bASCIICode, bFlags⟩,
          { state with bExtendedCodeIn := false }.UpdateCombinationKeyStatusAndLED bScanCode)

def decode (state : KEYBOARDSTATE) : List UInt8 → Option (List KEYDATA × KEYBOARDSTATE)
  | [] => some ([], state)
  | bScanCode :: rest =>
    (state.ConvertScanCodeToASCIICode bScanCode).bind fun r =>
      (r.2.decode rest).map fun r' => (r.1.toList ++ r'.1, r'.2)

end KEYBOARDSTATE

/-! ## Keys -/

/-- A key by its make code, with 0xE0 before it or without. The codes 0x60 and 0x61 are no keys: with the bit of a
release they are the prefixes. -/
structure Key where
  extended : Bool
  code : UInt8
  isKey : code < 0x80 ∧ code ≠ 0x60 ∧ code ≠ 0x61
  deriving DecidableEq

namespace Key

def lshift : Key := ⟨false, 42, by decide⟩

def rshift : Key := ⟨false, 54, by decide⟩

/-- The bytes for a key, its last byte being `bScanCode`. -/
def bytes (key : Key) (bScanCode : UInt8) : List UInt8 := if key.extended then [0xE0, bScanCode] else [bScanCode]

end Key

/-- A key goes down or up, or Pause is pressed (it has no release). -/
inductive Transition where
  | press (key : Key)
  | release (key : Key)
  | pause

namespace Transition

def bytes : Transition → List UInt8
  | press key => key.bytes key.code
  | release key => key.bytes (key.code ||| 0x80)
  | pause => [0xE1, 0x1D, 0x45, 0xE1, 0x9D, 0xC5]

def IsPress : Transition → Prop
  | press _ | pause => True
  | release _ => False

def IsExtended : Transition → Prop
  | press key | release key => key.extended = true
  | pause => False

def apply (held : Key → Bool) : Transition → Key → Bool
  | press key => Function.update held key true
  | release key => Function.update held key false
  | pause => held

structure Reports (t : Transition) (event : KEYDATA) : Prop where
  down : event.bFlags &&& KEY_FLAGS_DOWN ≠ 0 ↔ t.IsPress
  extended : event.bFlags &&& KEY_FLAGS_EXTENDEDKEY ≠ 0 ↔ t.IsExtended

end Transition

/-- The keys that are down after `ts`. -/
def held (ts : List Transition) : Key → Bool := ts.foldl Transition.apply fun _ => false

def ShiftHeld (held : Key → Bool) : Prop := held Key.lshift = true ∨ held Key.rshift = true

/-- The bytes of `ts` are decoded within the table to one event a transition, with the flags of it, and to whether a
shift key is down. -/
def DecodedTo (ts : List Transition) (events : List KEYDATA) (state : KEYBOARDSTATE) : Prop :=
  KEYBOARDSTATE.zero.decode (ts.flatMap Transition.bytes) = some (events, state) ∧
    List.Forall₂ Transition.Reports ts events ∧
    (state.bShiftDown = true ↔ ShiftHeld (held ts))

/-- So are the bytes of everything `ts` begins with. -/
def Decoded (ts : List Transition) : Prop := ∀ pre, pre <+: ts → ∃ events state, DecodedTo pre events state

/-- A key of the table without a prefix; and of the shift keys only the last one that is down goes up. -/
def Transition.Fits (held : Key → Bool) : Transition → Prop
  | .press key => key.extended = false ∧ key.code.toNat < KEY_MAPPINGTABLEMAXCOUNT
  | .release key => key.extended = false ∧ key.code.toNat < KEY_MAPPINGTABLEMAXCOUNT ∧
      (key = Key.lshift → held Key.rshift = false) ∧ (key = Key.rshift → held Key.lshift = false)
  | .pause => False

/-! ## One byte -/

theorem code_facts {code : UInt8} (h : code < 0x80) : code &&& 0x7F = code ∧ code &&& 0x80 = 0 ∧
    (code ||| 0x80) &&& 0x7F = code ∧ (code ||| 0x80) &&& 0x80 ≠ 0 := by
  have hall : ∀ n < 128, (UInt8.ofNat n) &&& 0x7F = UInt8.ofNat n ∧ (UInt8.ofNat n) &&& 0x80 = 0 ∧
      ((UInt8.ofNat n) ||| 0x80) &&& 0x7F = UInt8.ofNat n ∧ ((UInt8.ofNat n) ||| 0x80) &&& 0x80 ≠ 0 := by
    decide
  have := hall code.toNat h
  rwa [UInt8.ofNat_toNat] at this

namespace Key

theorem code_ne (key : Key) : key.code ≠ 0xE0 ∧ key.code ≠ 0xE1 := by
  have h := key.isKey.1
  constructor <;>
  · intro heq
    rw [heq] at h
    exact absurd h (by decide)

theorem release_ne (key : Key) : key.code ||| 0x80 ≠ 0xE0 ∧ key.code ||| 0x80 ≠ 0xE1 := by
  obtain ⟨h, h60, h61⟩ := key.isKey
  obtain ⟨-, -, hcode, -⟩ := code_facts h
  constructor <;>
  · intro heq
    rw [heq] at hcode
    first
    | exact h60 hcode.symm
    | exact h61 hcode.symm

end Key

variable {bScanCode : UInt8} {state : KEYBOARDSTATE} {events : List KEYDATA} {key : Key} {t : Transition}
    {ts : List Transition}

theorem IsAlphabetScanCode_isSome :
    (IsAlphabetScanCode bScanCode).isSome = true ↔ bScanCode.toNat < KEY_MAPPINGTABLEMAXCOUNT := by
  rw [IsAlphabetScanCode, isSome_map, ← gs_vstKeyMappingTable_length]
  simp

variable {state' : KEYBOARDSTATE}

namespace KEYBOARDSTATE

theorem IsUseCombinedCode_isSome (state : KEYBOARDSTATE)
    (h : (bScanCode &&& 0x7F).toNat < KEY_MAPPINGTABLEMAXCOUNT) :
    ∃ combined, state.IsUseCombinedCode bScanCode = some combined := by
  obtain ⟨alphabet, halphabet⟩ := isSome_iff_exists.1 (IsAlphabetScanCode_isSome.2 h)
  have hsymbol : ∃ symbol, IsNumberOrSymbolScanCode (bScanCode &&& 0x7F) = some symbol := by
    unfold IsNumberOrSymbolScanCode
    rw [halphabet]
    split
    · exact ⟨_, rfl⟩
    · exact ⟨_, rfl⟩
  obtain ⟨symbol, hsymbol⟩ := hsymbol
  unfold IsUseCombinedCode
  dsimp only
  rw [halphabet, bind_some, hsymbol]
  cases alphabet <;> exact ⟨_, rfl⟩

/-- Between two transitions nothing is remembered of the last one but what is down or on. -/
def Settled (state : KEYBOARDSTATE) : Prop := state.bExtendedCodeIn = false ∧ state.iSkipCountForPause = 0

theorem UpdateCombinationKeyStatusAndLED_settled (h : state.Settled) (bScanCode : UInt8) :
    (state.UpdateCombinationKeyStatusAndLED bScanCode).Settled := by
  unfold UpdateCombinationKeyStatusAndLED
  dsimp only
  split_ifs <;> exact h

theorem UpdateCombinationKeyStatusAndLED_bShiftDown (state : KEYBOARDSTATE) (bScanCode : UInt8) :
    (state.UpdateCombinationKeyStatusAndLED bScanCode).bShiftDown =
      if bScanCode &&& 0x7F = 42 ∨ bScanCode &&& 0x7F = 54 then decide (bScanCode &&& 0x80 = 0)
      else state.bShiftDown := by
  unfold UpdateCombinationKeyStatusAndLED
  dsimp only
  split_ifs <;> rfl

section

variable (hskip : state.iSkipCountForPause = 0) (h0 : bScanCode ≠ 0xE0) (h1 : bScanCode ≠ 0xE1)
include hskip h0 h1

theorem ConvertScanCodeToASCIICode_of_lt (h : (bScanCode &&& 0x7F).toNat < KEY_MAPPINGTABLEMAXCOUNT) :
    ∃ event : KEYDATA, state.ConvertScanCodeToASCIICode bScanCode =
        some (some event, { state with bExtendedCodeIn := false }.UpdateCombinationKeyStatusAndLED bScanCode) ∧
      event.bFlags = if state.bExtendedCodeIn = true ∨ bScanCode &&& 0x80 = 0 then 1 else 0 := by
  obtain ⟨combined, hcombined⟩ := state.IsUseCombinedCode_isSome h
  have hentry := List.getElem?_eq_getElem (gs_vstKeyMappingTable_length ▸ h)
  rw [ConvertScanCodeToASCIICode, if_neg (by omega), if_neg h1, if_neg h0, hcombined, bind_some, hentry]
  refine ⟨_, rfl, ?_⟩
  cases state.bExtendedCodeIn <;> by_cases hup : bScanCode &&& 0x80 = 0 <;> simp only [hup] <;> rfl

theorem ConvertScanCodeToASCIICode_of_le (h : KEY_MAPPINGTABLEMAXCOUNT ≤ (bScanCode &&& 0x7F).toNat) :
    state.ConvertScanCodeToASCIICode bScanCode = none := by
  have halphabet : IsAlphabetScanCode (bScanCode &&& 0x7F) = none := by
    rw [← not_isSome_iff_eq_none, IsAlphabetScanCode_isSome]
    omega
  rw [ConvertScanCodeToASCIICode, if_neg (by omega), if_neg h1, if_neg h0, IsUseCombinedCode]
  rw [halphabet]
  rfl

end

theorem decode_append (state : KEYBOARDSTATE) (bytes rest : List UInt8) :
    state.decode (bytes ++ rest) = (state.decode bytes).bind fun r =>
      (r.2.decode rest).map fun r' => (r.1 ++ r'.1, r'.2) := by
  induction bytes generalizing state with
  | nil => simp [decode]
  | cons bScanCode bytes ih =>
    rw [cons_append, decode, decode]
    cases state.ConvertScanCodeToASCIICode bScanCode with
    | none => rfl
    | some r =>
      simp only [bind_some, ih]
      cases r.2.decode bytes with
      | none => rfl
      | some r' => simp [Function.comp_def]

theorem decode_plain (hsettled : state.Settled) (h0 : bScanCode ≠ 0xE0)
    (h1 : bScanCode ≠ 0xE1) (h : (bScanCode &&& 0x7F).toNat < KEY_MAPPINGTABLEMAXCOUNT) :
    ∃ event : KEYDATA, state.decode [bScanCode] =
        some ([event], state.UpdateCombinationKeyStatusAndLED bScanCode) ∧
      event.bFlags = if bScanCode &&& 0x80 = 0 then 1 else 0 := by
  obtain ⟨event, hconvert, hflags⟩ := ConvertScanCodeToASCIICode_of_lt hsettled.2 h0 h1 h
  refine ⟨event, ?_, ?_⟩
  · have hstate : { state with bExtendedCodeIn := false } = state := by
      rw [← hsettled.1]
    rw [hstate] at hconvert
    rw [decode, hconvert]
    rfl
  · rw [hflags, hsettled.1]
    simp

theorem decode_extended (hsettled : state.Settled) (h0 : bScanCode ≠ 0xE0)
    (h1 : bScanCode ≠ 0xE1)
    (hdecode : state.decode [0xE0, bScanCode] = some (events, state')) :
    ∀ event ∈ events, event.bFlags &&& KEY_FLAGS_EXTENDEDKEY = 0 := by
  have hextended : state.ConvertScanCodeToASCIICode 0xE0 = some (none, { state with bExtendedCodeIn := true }) := by
    rw [ConvertScanCodeToASCIICode, if_neg (by have := hsettled.2; omega), if_neg (by decide), if_pos rfl]
  rw [decode, hextended, bind_some, decode] at hdecode
  have hskip : ({ state with bExtendedCodeIn := true } : KEYBOARDSTATE).iSkipCountForPause = 0 := hsettled.2
  by_cases h : (bScanCode &&& 0x7F).toNat < KEY_MAPPINGTABLEMAXCOUNT
  · obtain ⟨event, hconvert, hflags⟩ := ConvertScanCodeToASCIICode_of_lt hskip h0 h1 h
    dsimp only at hdecode
    rw [hconvert] at hdecode
    cases hdecode
    intro event' hmem
    obtain rfl : event' = event := by simpa using hmem
    rw [hflags, if_pos (.inl rfl)]
    decide
  · have hconvert := ConvertScanCodeToASCIICode_of_le hskip h0 h1 (by omega)
    rw [hconvert] at hdecode
    cases hdecode

theorem decode_pause (hsettled : state.Settled) :
    ∃ e₁ e₂, state.decode Transition.pause.bytes = some ([e₁, e₂], state) := by
  obtain ⟨bShiftDown, bCapsLockOn, bNumLockOn, bScrollLockOn, bExtendedCodeIn, iSkipCountForPause⟩ := state
  obtain ⟨hext, hskip⟩ := hsettled
  subst hext hskip
  exact ⟨_, _, rfl⟩

end KEYBOARDSTATE

/-! ## One transition -/

open KEYBOARDSTATE

/-- What the transition should be decoded to. -/
def Transition.DecodedFrom (t : Transition) (state : KEYBOARDSTATE) (held : Key → Bool) : Prop :=
  ∃ event state', state.decode t.bytes = some ([event], state') ∧ t.Reports event ∧
    (state'.bShiftDown = true ↔ ShiftHeld (t.apply held))

theorem shiftDown_iff {held : Key → Bool} (hshift : state.bShiftDown = true ↔ ShiftHeld held)
    (hplain : key.extended = false) (hcode : bScanCode &&& 0x7F = key.code) :
    ((state.UpdateCombinationKeyStatusAndLED bScanCode).bShiftDown = true ↔
        ShiftHeld (Function.update held key (decide (bScanCode &&& 0x80 = 0)))) ↔
      (bScanCode &&& 0x80 ≠ 0 → (key = Key.lshift → held Key.rshift = false) ∧
        (key = Key.rshift → held Key.lshift = false)) := by
  have hne : Key.lshift ≠ Key.rshift := by decide
  have hkey : ∀ other : Key, other.extended = false → (key = other ↔ key.code = other.code) := by
    intro other hother
    constructor
    · rintro rfl
      rfl
    · intro heq
      cases key
      cases other
      simp_all
  rw [UpdateCombinationKeyStatusAndLED_bShiftDown, hcode]
  by_cases hl : key = Key.lshift
  · subst hl
    rw [if_pos (.inl rfl), ShiftHeld, Function.update_self, Function.update_of_ne hne.symm]
    by_cases hup : bScanCode &&& 0x80 = 0
    · simp [hup]
    · simp [hup, hne]
  by_cases hr : key = Key.rshift
  · subst hr
    rw [if_pos (.inr rfl), ShiftHeld, Function.update_self, Function.update_of_ne hne]
    by_cases hup : bScanCode &&& 0x80 = 0
    · simp [hup]
    · simp [hup, hne.symm]
  · have hcode' : ¬ (key.code = 42 ∨ key.code = 54) := by
      rintro (h42 | h54)
      · exact hl ((hkey Key.lshift rfl).2 h42)
      · exact hr ((hkey Key.rshift rfl).2 h54)
    rw [if_neg hcode', ShiftHeld, Function.update_of_ne (Ne.symm hl), Function.update_of_ne (Ne.symm hr)]
    exact iff_of_true hshift fun _ => ⟨fun h => absurd h hl, fun h => absurd h hr⟩

section

variable (hsettled : state.Settled) {held : Key → Bool}
include hsettled

theorem decodedFrom_plain (hshift : state.bShiftDown = true ↔ ShiftHeld held) (hplain : key.extended = false)
    (h0 : bScanCode ≠ 0xE0) (h1 : bScanCode ≠ 0xE1) (hcode : bScanCode &&& 0x7F = key.code)
    (hbytes : t.bytes = key.bytes bScanCode) (hext : t.IsExtended ↔ key.extended = true)
    (hpress : t.IsPress ↔ bScanCode &&& 0x80 = 0)
    (happly : t.apply held = Function.update held key (decide (bScanCode &&& 0x80 = 0))) :
    t.DecodedFrom state held ↔ key.code.toNat < KEY_MAPPINGTABLEMAXCOUNT ∧ (bScanCode &&& 0x80 ≠ 0 →
      (key = Key.lshift → held Key.rshift = false) ∧ (key = Key.rshift → held Key.lshift = false)) := by
  have hone : t.bytes = [bScanCode] := by
    rw [hbytes, Key.bytes, hplain]
    rfl
  unfold Transition.DecodedFrom
  rw [hone, happly, ← hcode]
  by_cases h : (bScanCode &&& 0x7F).toNat < KEY_MAPPINGTABLEMAXCOUNT
  · obtain ⟨event, hdecode, hflags⟩ := decode_plain hsettled h0 h1 h
    have hreports : t.Reports event := by
      constructor
      · rw [hpress, hflags]
        split
        · exact iff_of_true (by decide) ‹_›
        · exact iff_of_false (by decide) ‹_›
      · rw [hext, hplain, hflags]
        split
        · exact iff_of_false (by decide) Bool.false_ne_true
        · exact iff_of_false (by decide) Bool.false_ne_true
    rw [hdecode, ← shiftDown_iff hshift hplain hcode]
    constructor
    · rintro ⟨event', state', heq, -, hdown⟩
      cases heq
      exact ⟨h, hdown⟩
    · rintro ⟨-, hdown⟩
      exact ⟨event, _, rfl, hreports, hdown⟩
  · have hnone : state.decode [bScanCode] = none := by
      rw [decode, ConvertScanCodeToASCIICode_of_le hsettled.2 h0 h1 (by omega)]
      rfl
    rw [hnone]
    refine iff_of_false ?_ fun hlt => h hlt.1
    rintro ⟨_, _, heq, -⟩
    cases heq

theorem decodedFrom_extended (hextended : key.extended = true) (h0 : bScanCode ≠ 0xE0) (h1 : bScanCode ≠ 0xE1)
    (hbytes : t.bytes = key.bytes bScanCode) (hext : t.IsExtended ↔ key.extended = true) :
    ¬ t.DecodedFrom state held := by
  rintro ⟨event, state', hdecode, hreports, -⟩
  have htwo : t.bytes = [0xE0, bScanCode] := by
    rw [hbytes, Key.bytes, hextended]
    rfl
  rw [htwo] at hdecode
  exact hreports.extended.2 (hext.2 hextended) (decode_extended hsettled h0 h1 hdecode event (by simp))

/-- **One transition** is decoded right if and only if it fits. -/
theorem Transition.decodedFrom_iff (hshift : state.bShiftDown = true ↔ ShiftHeld held) (t : Transition) :
    t.DecodedFrom state held ↔ t.Fits held := by
  cases t with
  | pause =>
    refine iff_of_false ?_ id
    rintro ⟨event, state', hdecode, -⟩
    obtain ⟨e₁, e₂, htwo⟩ := decode_pause hsettled
    rw [htwo] at hdecode
    cases hdecode
  | press key =>
    obtain ⟨hcode, hbit, -, -⟩ := code_facts key.isKey.1
    obtain ⟨h0, h1⟩ := key.code_ne
    cases hplain : key.extended with
    | false =>
      rw [decodedFrom_plain (t := .press key) hsettled hshift hplain h0 h1 hcode rfl Iff.rfl (iff_of_true trivial hbit)
        (by rw [hbit]; rfl), Fits]
      simp [hbit, hplain]
    | true =>
      refine iff_of_false (decodedFrom_extended hsettled hplain h0 h1 rfl Iff.rfl) ?_
      rintro ⟨hfalse, -⟩
      rw [hplain] at hfalse
      cases hfalse
  | release key =>
    obtain ⟨-, -, hcode, hbit⟩ := code_facts key.isKey.1
    obtain ⟨h0, h1⟩ := key.release_ne
    cases hplain : key.extended with
    | false =>
      rw [decodedFrom_plain (t := .release key) hsettled hshift hplain h0 h1 hcode rfl Iff.rfl (iff_of_false id hbit)
        (by rw [decide_eq_false hbit]; rfl), Fits]
      simp [hbit, hplain]
    | true =>
      refine iff_of_false (decodedFrom_extended hsettled hplain h0 h1 rfl Iff.rfl) ?_
      rintro ⟨hfalse, -⟩
      rw [hplain] at hfalse
      cases hfalse

theorem Transition.settled_of_fits (hfits : t.Fits held)
    (hdecode : state.decode t.bytes = some (events, state')) : state'.Settled := by
  have hplain : ∀ (key : Key) (bScanCode : UInt8), key.extended = false → bScanCode ≠ 0xE0 → bScanCode ≠ 0xE1 →
      bScanCode &&& 0x7F = key.code → key.code.toNat < KEY_MAPPINGTABLEMAXCOUNT →
      state.decode (key.bytes bScanCode) = some (events, state') → state'.Settled := by
    intro key bScanCode hplain h0 h1 hcode hlt hdecode
    obtain ⟨event, hdecode', -⟩ := decode_plain hsettled h0 h1 (by rwa [hcode])
    rw [Key.bytes, hplain, if_neg Bool.false_ne_true, hdecode'] at hdecode
    cases hdecode
    exact UpdateCombinationKeyStatusAndLED_settled hsettled bScanCode
  cases t with
  | pause => exact absurd hfits id
  | press key =>
    obtain ⟨hcode, -, -, -⟩ := code_facts key.isKey.1
    exact hplain key _ hfits.1 key.code_ne.1 key.code_ne.2 hcode hfits.2 hdecode
  | release key =>
    obtain ⟨-, -, hcode, -⟩ := code_facts key.isKey.1
    exact hplain key _ hfits.1 key.release_ne.1 key.release_ne.2 hcode hfits.2.1 hdecode

end

/-! ## Sequences of transitions -/

theorem held_concat (ts : List Transition) (t : Transition) : held (ts ++ [t]) = t.apply (held ts) := by
  simp [held]

theorem decodedTo_concat
    (h : DecodedTo ts events state) (t : Transition) (state' : KEYBOARDSTATE) :
    (∃ events', DecodedTo (ts ++ [t]) events' state') ↔ ∃ event, state.decode t.bytes = some ([event], state') ∧
      t.Reports event ∧ (state'.bShiftDown = true ↔ ShiftHeld (t.apply (held ts))) := by
  obtain ⟨hdecode, hreports, -⟩ := h
  unfold DecodedTo
  rw [flatMap_append, flatMap_singleton, decode_append, hdecode, bind_some, held_concat]
  constructor
  · rintro ⟨events', hrest, hreports', hdown⟩
    obtain ⟨r, hr, heq⟩ := map_eq_some_iff.1 hrest
    cases heq
    have hlast := List.forall₂_drop_append _ _ _ hreports'
    rw [← hreports.length_eq, drop_left] at hlast
    -- what is left of the events is the one for `t`
    obtain ⟨event, rest, hreport, hnil, hevents⟩ := List.forall₂_cons_left_iff.1 hlast
    rw [List.forall₂_nil_left_iff] at hnil
    subst hnil
    exact ⟨event, by rw [hr, ← hevents], hreport, hdown⟩
  · rintro ⟨event, hlast, hreport, hdown⟩
    rw [hlast]
    exact ⟨_, rfl, rel_append hreports (.cons hreport .nil), hdown⟩

def FitsAll (ts : List Transition) : Prop := ∀ pre t, pre ++ [t] <+: ts → t.Fits (held pre)

theorem fitsAll_concat :
    FitsAll (ts ++ [t]) ↔ FitsAll ts ∧ t.Fits (held ts) := by
  unfold FitsAll
  constructor
  · intro h
    exact ⟨fun pre u hpre => h pre u (hpre.trans (prefix_append ts [t])), h ts t (prefix_refl _)⟩
  · rintro ⟨h, ht⟩ pre u hpre
    rcases prefix_concat_iff.1 hpre with heq | hpre
    · obtain ⟨hsame, hlast⟩ := append_inj' heq rfl
      cases hlast
      rwa [hsame]
    · exact h pre u hpre

theorem decodedTo_of_fitsAll (h : FitsAll ts) :
    ∃ events state, DecodedTo ts events state ∧ state.Settled := by
  induction ts using List.reverseRecOn with
  | nil =>
    refine ⟨[], zero, ⟨rfl, .nil, ?_⟩, rfl, rfl⟩
    simp [ShiftHeld, held, zero]
  | append_singleton ts t ih =>
    obtain ⟨hts, ht⟩ := fitsAll_concat.1 h
    obtain ⟨events, state, hto, hsettled⟩ := ih hts
    obtain ⟨event, state', hdecode, hrest⟩ := (t.decodedFrom_iff hsettled hto.2.2).2 ht
    obtain ⟨events', hto'⟩ := (decodedTo_concat hto t state').2 ⟨event, hdecode, hrest⟩
    exact ⟨events', state', hto', t.settled_of_fits hsettled ht hdecode⟩

/-- **Scan codes.** The bytes of a sequence of transitions are decoded right, all along, if and only if every
transition fits: only keys of the table without a prefix, no Pause, and no shift key that goes up while the other one
is down. -/
theorem decoded_iff (ts : List Transition) : Decoded ts ↔ FitsAll ts := by
  constructor
  · intro h
    induction ts using List.reverseRecOn with
    | nil =>
      intro pre t hpre
      simp at hpre
    | append_singleton ts t ih =>
      have hts : FitsAll ts := ih fun pre hpre => h pre (hpre.trans (List.prefix_append ts [t]))
      obtain ⟨events, state, hto, hsettled⟩ := decodedTo_of_fitsAll hts
      obtain ⟨events', state', hto'⟩ := h (ts ++ [t]) (List.prefix_refl _)
      obtain ⟨event, hdecode, hrest⟩ := (decodedTo_concat hto t state').1 ⟨events', hto'⟩
      exact fitsAll_concat.2 ⟨hts, (t.decodedFrom_iff hsettled hto.2.2).1 ⟨event, state', hdecode, hrest⟩⟩
  · intro h pre hpre
    have hpre' : FitsAll pre := fun before t hbefore => h before t (hbefore.trans hpre)
    obtain ⟨events, state, hto, -⟩ := decodedTo_of_fitsAll hpre'
    exact ⟨events, state, hto⟩

/-- The right arrow is pressed and released: both events say that a key goes down, and not that it is extended. -/
theorem right_arrow : ¬ Decoded [.press ⟨true, 0x4D, by decide⟩, .release ⟨true, 0x4D, by decide⟩] := by
  intro h
  obtain ⟨events, state, hdecode, hreports, -⟩ := h _ (List.prefix_refl _)
  have hrun : (zero.decode [0xE0, 0x4D, 0xE0, 0xCD]).map (fun r => r.1.map KEYDATA.bFlags) = some [1, 1] := by
    decide +kernel
  change zero.decode [0xE0, 0x4D, 0xE0, 0xCD] = some (events, state) at hdecode
  rw [hdecode] at hrun
  cases hreports with
  | cons hpress hrest =>
    rename_i event rest
    have hflags : event.bFlags = 1 := by
      simp only [Option.map_some, List.map_cons, Option.some.injEq, List.cons.injEq] at hrun
      exact hrun.1
    have hext := hpress.extended.2 rfl
    rw [hflags] at hext
    exact hext (by decide)

end Gui
