import Mathlib.Logic.Function.Basic
import SkyOS.Lib.Machine
import SkyOS.Lib.StepSystem

/-!
# The text console (`SkyCore/SkyConsole.cpp`)

80 by 25 cells and a cursor. A character is written at the cursor, which goes on to the next cell, and the screen is
scrolled when the row has become `m_ScreenHeight`. `WriteString` writes a row and goes on to the next without scrolling.

| here | there |
| --- | --- |
| `Console.m_pVideoMemory` | the cells, each a character and an attribute |
| `Console.offset` | what the ports of the hardware cursor have been given |
| `Console.scrolls` | how often `scrollup` has been called; the source has no such count |
| `none` as a result | a write outside the screen |
-/

namespace SkyConsole

open Machine Nat

inductive ConsoleColor where
  | Black | Blue | Green | Cyan | Red | Magenta | Brown | LightGray
  | DarkGray | LightBlue | LightGreen | LightCyan | LightRed | LightMagenta | LightBrown | White
deriving DecidableEq

def ConsoleColor.code : ConsoleColor → UInt8
  | Black => 0 | Blue => 1 | Green => 2 | Cyan => 3 | Red => 4 | Magenta => 5 | Brown => 6 | LightGray => 7
  | DarkGray => 8 | LightBlue => 9 | LightGreen => 10 | LightCyan => 11 | LightRed => 12 | LightMagenta => 13
  | LightBrown => 14 | White => 15

structure Cell where
  char : UInt8
  attrib : UInt8
deriving DecidableEq

structure Console where
  m_Color : UInt8
  m_Text : ConsoleColor
  m_backGroundColor : ConsoleColor
  m_xPos : Nat
  m_yPos : Nat
  m_pVideoMemory : Nat → Cell
  offset : Nat
  scrolls : Nat

def m_ScreenHeight : Nat := 25
def m_ScreenWidth : Nat := 80

/-! ## The code -/

namespace Console

def store (s : Console) (t : Nat) (c : Cell) : Option Console :=
  if t < m_ScreenWidth * m_ScreenHeight then
    some { s with m_pVideoMemory := Function.update s.m_pVideoMemory t c }
  else none

def blank (s : Console) : Cell := ⟨32, s.m_Color⟩

/-- `MoveCursor` (`SkyConsole.cpp:328`). -/
def MoveCursor (s : Console) (X Y : Nat) : Console :=
  let X := if X > m_ScreenWidth then 0 else X
  { s with
    offset := u32 (Y * m_ScreenWidth + sub32 X 1) % 2 ^ 16
    m_xPos := if X > 0 then X - 1 else 0
    m_yPos := Y }

/-- `Clear` (:65). -/
def Clear (s : Console) : Console :=
  MoveCursor { s with
    m_pVideoMemory := (List.range (m_ScreenWidth * m_ScreenHeight)).foldl
      (fun cells i => Function.update cells i s.blank) s.m_pVideoMemory } 0 0

/-- `Initialize` (:30). -/
def Initialize (s : Console) : Console :=
  Clear { s with
    m_xPos := 0
    m_yPos := 0
    m_Text := .White
    m_backGroundColor := .Black
    m_Color := ConsoleColor.Black.code <<< 4 ||| ConsoleColor.White.code }

/-- `scrollup` (:363). -/
def scrollup (s : Console) : Console :=
  let cells := (List.range (m_ScreenWidth * (m_ScreenHeight - 1))).foldl
    (fun cells t => Function.update cells t (cells (t + m_ScreenWidth))) s.m_pVideoMemory
  let cells := (List.range' (m_ScreenWidth * (m_ScreenHeight - 1)) m_ScreenWidth).foldl
    (fun cells t => Function.update cells t s.blank) cells
  { s with m_pVideoMemory := cells, scrolls := s.scrolls + 1 }

/-- A character with its attribute; the sign of a character from 128 on fills the attribute. -/
def cell (c : UInt8) (textColour backColour : ConsoleColor) : Cell :=
  ⟨c, if c < 128 then backColour.code <<< 4 ||| (textColour.code &&& 15) else 255⟩

/-- The end of a row (:144). -/
def wrap (s : Console) : Console :=
  if s.m_xPos ≥ m_ScreenWidth then { s with m_yPos := u32 (s.m_yPos + 1) } else s

/-- The end of the screen (:147). -/
def scroll (s : Console) : Console :=
  if s.m_yPos = m_ScreenHeight then { s.scrollup with m_yPos := s.m_yPos - 1 } else s

/-- What `WriteChar` does behind its switch. -/
def settle (s : Console) : Console := s.wrap.scroll.MoveCursor (u32 (s.wrap.scroll.m_xPos + 1)) s.wrap.scroll.m_yPos

/-- The backspace of `WriteChar` (:117). An `int t` that is negative is no cell either. -/
def backspace (s : Console) : Option Console :=
  let t := u32 (s.m_xPos + s.m_yPos * m_ScreenWidth)
  let t := if t > 0 then t - 1 else t
  let s :=
    if s.m_xPos > 0 then { s with m_xPos := s.m_xPos - 1 }
    else if s.m_yPos > 0 then { s with m_yPos := s.m_yPos - 1, m_xPos := m_ScreenWidth - 1 }
    else s
  s.store t s.blank

/-- `WriteChar` (:97); a `char` below the space is a control character or negative. -/
def WriteChar (s : Console) (c : UInt8) (textColour backColour : ConsoleColor) : Option Console :=
  (if c = 13 then some { s with m_xPos := 0 }
    else if c = 10 then some { s with m_xPos := 0, m_yPos := u32 (s.m_yPos + 1) }
    else if c = 8 then s.backspace
    else if c < 32 ∨ 128 ≤ c then some s
    else
      (s.store (u32 (m_ScreenWidth * s.m_yPos + s.m_xPos)) (cell c textColour backColour)).map fun s =>
        { s with m_xPos := u32 (s.m_xPos + 1) }).map settle

/-- `Write` (:80). -/
def Write (s : Console) : List UInt8 → Option Console
  | [] => some s
  | c :: szString => (s.WriteChar c s.m_Text s.m_backGroundColor).bind fun s => s.Write szString

/-- The loop of `WriteString` (:165). -/
def writeCells (textColour backColour : ConsoleColor) (s : Console) (i : Nat) : List UInt8 → Option Console
  | [] => some s
  | c :: szString =>
    (s.store (u32 (m_ScreenWidth * s.m_yPos + i)) (cell c textColour backColour)).bind fun s =>
      writeCells textColour backColour s (i + 1) szString

/-- `WriteString` (:158). -/
def WriteString (s : Console) (szString : Option (List UInt8)) (textColour backColour : ConsoleColor) :
    Option Console :=
  match szString with
  | none => some s
  | some szString =>
    (writeCells textColour backColour s 0 szString).map fun s =>
      let s := { s with m_yPos := u32 (s.m_yPos + 1) }
      s.MoveCursor 1 s.m_yPos

end Console

/-! ## What it should be -/

inductive ConsoleCall where
  | WriteChar (c : UInt8)
  | WriteCharIn (c : UInt8) (textColour backColour : ConsoleColor)
  | Write (szString : List UInt8)
  | WriteString (szString : Option (List UInt8)) (fits : ∀ str ∈ szString, str.length ≤ m_ScreenWidth)
      (textColour backColour : ConsoleColor)
  | MoveCursor (X Y : Nat) (hX : 1 ≤ X ∧ X ≤ m_ScreenWidth) (hY : Y < m_ScreenHeight)

def consoleSystem : StepSystem Console ConsoleCall where
  init s := ∃ before : Console, s = before.Initialize
  step s
    | .WriteChar c => s.WriteChar c s.m_Text s.m_backGroundColor
    | .WriteCharIn c textColour backColour => s.WriteChar c textColour backColour
    | .Write szString => s.Write szString
    | .WriteString szString _ textColour backColour => s.WriteString szString textColour backColour
    | .MoveCursor X Y _ _ => some (s.MoveCursor X Y)

def Inside (s : Console) : Prop := s.m_xPos < m_ScreenWidth ∧ s.m_yPos < m_ScreenHeight
  deriving Decidable

def Stores (s : Console) (c : ConsoleCall) : Prop := (consoleSystem.step s c).isSome

def NotLast (s : Console) : ConsoleCall → Prop
  | .WriteString (some _) _ _ _ => s.m_yPos + 1 < m_ScreenHeight
  | _ => True

instance (s : Console) (c : ConsoleCall) : Decidable (NotLast s c) :=
  match c with
  | .WriteString (some _) _ _ _ => inferInstanceAs (Decidable (_ < _))
  | .WriteString none _ _ _ | .WriteChar _ | .WriteCharIn _ _ _ | .Write _ | .MoveCursor _ _ _ _ =>
    .isTrue trivial

/-! ## Each call -/

namespace Console

variable {s : Console}

theorem store_of_lt {t : Nat} (h : t < m_ScreenWidth * m_ScreenHeight) (c : Cell) :
    s.store t c = some { s with m_pVideoMemory := Function.update s.m_pVideoMemory t c } := if_pos h

theorem inside_initialize (s : Console) : Inside s.Initialize := by
  constructor
  · exact zero_lt_succ _
  · exact zero_lt_succ _

theorem inside_moveCursor {X Y : Nat} (hX : X ≤ m_ScreenWidth + 1) (hY : Y < m_ScreenHeight) (s : Console) :
    Inside (s.MoveCursor X Y) := by
  refine ⟨?_, hY⟩
  unfold MoveCursor m_ScreenWidth at *
  dsimp only
  split <;> split <;> omega

theorem wrap_xPos (s : Console) : s.wrap.m_xPos = s.m_xPos := by
  unfold wrap
  split <;> rfl

theorem wrap_yPos (hy : s.m_yPos ≤ m_ScreenHeight) :
    s.wrap.m_yPos = if s.m_xPos ≥ m_ScreenWidth then s.m_yPos + 1 else s.m_yPos := by
  unfold wrap
  split
  · exact u32_of_lt (by unfold m_ScreenHeight at hy; omega)
  · rfl

theorem scroll_xPos (s : Console) : s.scroll.m_xPos = s.m_xPos := by
  unfold scroll
  split <;> rfl

theorem scroll_yPos (s : Console) :
    s.scroll.m_yPos = if s.m_yPos = m_ScreenHeight then s.m_yPos - 1 else s.m_yPos := by
  unfold scroll
  split <;> rfl

theorem inside_settle (hx : s.m_xPos ≤ m_ScreenWidth) (hy : s.m_yPos ≤ m_ScreenHeight)
    (hxy : s.m_xPos < m_ScreenWidth ∨ s.m_yPos < m_ScreenHeight) : Inside s.settle := by
  have hnext : u32 (s.m_xPos + 1) = s.m_xPos + 1 := u32_of_lt (by unfold m_ScreenWidth at hx; omega)
  unfold settle
  rw [scroll_xPos, scroll_yPos, wrap_xPos, wrap_yPos hy, hnext]
  refine inside_moveCursor (by omega) ?_ _
  unfold m_ScreenWidth m_ScreenHeight at *
  split <;> split <;> omega

theorem backspace_inside (h : Inside s) : ∃ t, s.backspace = some t ∧ Inside t := by
  obtain ⟨hx, hy⟩ := h
  have hplace : u32 (s.m_xPos + s.m_yPos * m_ScreenWidth) < m_ScreenWidth * m_ScreenHeight := by
    unfold m_ScreenWidth m_ScreenHeight at *
    rw [u32_of_lt (by omega)]
    omega
  unfold backspace
  rw [store_of_lt (by split <;> omega)]
  refine ⟨_, rfl, ?_⟩
  split
  · exact ⟨by dsimp only; omega, hy⟩
  · split
    · exact ⟨by dsimp only; omega, by dsimp only; omega⟩
    · exact ⟨hx, hy⟩

theorem place_lt (h : Inside s) :
    u32 (m_ScreenWidth * s.m_yPos + s.m_xPos) = m_ScreenWidth * s.m_yPos + s.m_xPos ∧
      m_ScreenWidth * s.m_yPos + s.m_xPos < m_ScreenWidth * m_ScreenHeight := by
  obtain ⟨hx, hy⟩ := h
  unfold m_ScreenWidth m_ScreenHeight at *
  exact ⟨u32_of_lt (by omega), by omega⟩

theorem writeChar_inside (h : Inside s) (c : UInt8) (textColour backColour : ConsoleColor) :
    ∃ t, s.WriteChar c textColour backColour = some t ∧ Inside t := by
  obtain ⟨hx, hy⟩ := id h
  unfold WriteChar
  by_cases hcr : c = 13
  · rw [if_pos hcr]
    exact ⟨_, rfl, inside_settle (zero_le _) (Nat.le_of_lt hy) (.inl (zero_lt_succ _))⟩
  rw [if_neg hcr]
  by_cases hnl : c = 10
  · have hrow : u32 (s.m_yPos + 1) = s.m_yPos + 1 := u32_of_lt (by unfold m_ScreenHeight at hy; omega)
    rw [if_pos hnl, hrow]
    exact ⟨_, rfl, inside_settle (zero_le _) hy (.inl (zero_lt_succ _))⟩
  rw [if_neg hnl]
  by_cases hbs : c = 8
  · obtain ⟨t, ht, hxt, hyt⟩ := backspace_inside h
    rw [if_pos hbs, ht]
    exact ⟨_, rfl, inside_settle (Nat.le_of_lt hxt) (Nat.le_of_lt hyt) (.inl hxt)⟩
  rw [if_neg hbs]
  by_cases hcontrol : c < 32 ∨ 128 ≤ c
  · rw [if_pos hcontrol]
    exact ⟨_, rfl, inside_settle (Nat.le_of_lt hx) (Nat.le_of_lt hy) (.inl hx)⟩
  · have hnext : u32 (s.m_xPos + 1) = s.m_xPos + 1 := u32_of_lt (by unfold m_ScreenWidth at hx; omega)
    obtain ⟨hplace, hlt⟩ := place_lt h
    rw [if_neg hcontrol, hplace, store_of_lt hlt]
    refine ⟨_, rfl, inside_settle ?_ (Nat.le_of_lt hy) (.inr hy)⟩
    dsimp only
    rw [hnext]
    exact hx

theorem write_inside (h : Inside s) (szString : List UInt8) : ∃ t, s.Write szString = some t ∧ Inside t := by
  induction szString generalizing s with
  | nil => exact ⟨s, rfl, h⟩
  | cons c szString ih =>
    obtain ⟨t, ht, hinside⟩ := writeChar_inside h c s.m_Text s.m_backGroundColor
    rw [Write, ht]
    exact ih hinside

variable {szString : List UInt8}

theorem writeCells_inside (h : s.m_yPos < m_ScreenHeight) (textColour backColour : ConsoleColor) {i : Nat}
    (hfits : i + szString.length ≤ m_ScreenWidth) :
    ∃ t, writeCells textColour backColour s i szString = some t ∧ t.m_yPos = s.m_yPos := by
  induction szString generalizing s i with
  | nil => exact ⟨s, rfl, rfl⟩
  | cons c szString ih =>
    rw [List.length_cons] at hfits
    have hplace : u32 (m_ScreenWidth * s.m_yPos + i) < m_ScreenWidth * m_ScreenHeight := by
      unfold m_ScreenWidth m_ScreenHeight at *
      rw [u32_of_lt (by omega)]
      omega
    rw [writeCells, store_of_lt hplace, Option.bind_some]
    exact @ih { s with m_pVideoMemory := Function.update s.m_pVideoMemory _ _ } h (i + 1) (by omega)

theorem writeString_inside_iff (h : Inside s) (hfits : szString.length ≤ m_ScreenWidth)
    (textColour backColour : ConsoleColor) :
    ∃ t, s.WriteString (some szString) textColour backColour = some t ∧
      (Inside t ↔ s.m_yPos + 1 < m_ScreenHeight) := by
  obtain ⟨t, ht, hy⟩ := writeCells_inside h.2 textColour backColour (by rwa [Nat.zero_add])
  have hrow : u32 (t.m_yPos + 1) = s.m_yPos + 1 := by
    have hlast := h.2
    rw [hy]
    exact u32_of_lt (by unfold m_ScreenHeight at hlast; omega)
  refine ⟨_, by rw [WriteString, ht, Option.map_some, hrow], ?_⟩
  exact and_iff_right (zero_lt_succ _)

end Console

/-! ## Over runs -/

open Console

/-- One call: it writes to the screen and leaves the cursor on it exactly if it does not write a string to the last
row. -/
theorem inside_step_iff {s : Console} (h : Inside s) (c : ConsoleCall) :
    (Stores s c ∧ ∀ t, consoleSystem.step s c = some t → Inside t) ↔ NotLast s c := by
  have hstep {o : Option Console} {P : Prop} (ho : ∃ t, o = some t ∧ (Inside t ↔ P)) :
      (o.isSome ∧ ∀ t, o = some t → Inside t) ↔ P := by
    obtain ⟨t, rfl, ht⟩ := ho
    simp [ht]
  have hinside {o : Option Console} (ho : ∃ t, o = some t ∧ Inside t) :
      (o.isSome ∧ ∀ t, o = some t → Inside t) ↔ True := by
    obtain ⟨t, ho, ht⟩ := ho
    exact hstep ⟨t, ho, iff_true_intro ht⟩
  cases c with
  | WriteChar c => exact hinside (writeChar_inside h c _ _)
  | WriteCharIn c textColour backColour => exact hinside (writeChar_inside h c _ _)
  | Write szString => exact hinside (write_inside h szString)
  | WriteString szString fits textColour backColour =>
    cases szString with
    | none => exact hinside ⟨s, rfl, h⟩
    | some szString => exact hstep (writeString_inside_iff h (fits szString rfl) textColour backColour)
  | MoveCursor X Y hX hY => exact hinside ⟨_, rfl, inside_moveCursor (Nat.le_trans hX.2 (le_succ _)) hY s⟩

/-- The cursor is on the screen after every call of a run, and every call writes to cells of the screen, exactly if no
string is written to the last row. -/
theorem inside_throughout_iff (before : Console) (calls : List ConsoleCall) :
    ((∀ done, done <+: calls → ∀ s, consoleSystem.exec before.Initialize done = some s → Inside s) ∧
        consoleSystem.Meets Stores before.Initialize calls) ↔
      consoleSystem.Meets NotLast before.Initialize calls :=
  StepSystem.states_and_calls_iff_meets (fun _ => True) (fun _ _ _ _ _ => trivial) (fun _ c _ h => inside_step_iff h c)
    trivial ( inside_initialize before)

/-- A string on the last row, and a character behind it. -/
theorem writeString_leaves_screen :
    (consoleSystem.exec (Initialize ⟨0, .Black, .Black, 0, 0, fun _ => ⟨0, 0⟩, 0, 0⟩)
        [.MoveCursor 1 24 (by decide) (by decide), .WriteString (some []) (by decide) .White .Black]).map (·.m_yPos) =
        some 25 ∧
      (consoleSystem.exec (Initialize ⟨0, .Black, .Black, 0, 0, fun _ => ⟨0, 0⟩, 0, 0⟩)
        [.MoveCursor 1 24 (by decide) (by decide), .WriteString (some []) (by decide) .White .Black,
          .WriteChar 65]).isNone := by
  exact ⟨rfl, rfl⟩

end SkyConsole
