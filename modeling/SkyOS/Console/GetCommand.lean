import SkyOS.Console.SkyConsole
import SkyOS.Strings.Tokens

/-!
# Reading a line (`SkyCore/SkyConsole.cpp`)

`GetCommand` keeps the line in a buffer and shows it at the cursor. A backspace in the first column moves the cursor to
the end of the row above without having erased what stands there, and a line that fills the buffer is terminated behind
it.

| here | there |
| --- | --- |
| a list of characters | what `KeyboardController::GetInput` returns, key after key |
| `Editing.commandBuffer` | the buffer, all of its `bufSize` characters |
| `none` as a result | a write outside the screen or the buffer, a key that does not come |
-/

namespace SkyConsole

open Machine List
open StrUtil (store text)
open Function (update update_of_ne update_self)

/-! ## The code -/

/-- The variables of `GetCommand`, and whether it has returned. -/
structure Editing where
  console : Console
  commandBuffer : List UInt8
  i : Nat
  ended : Bool

namespace Editing

/-- A backspace on a line that is not empty (`SkyConsole.cpp:452`). -/
def erase (e : Editing) : Option Editing :=
  let s := e.console
  let (s, x, y) :=
    if s.m_xPos > 0 then (s.MoveCursor s.m_xPos s.m_yPos, s.m_xPos, s.m_yPos)
    else (s, 80, sub32 s.m_yPos 1)
  (s.WriteChar 32 s.m_Text s.m_backGroundColor).map fun s =>
    { e with console := s.MoveCursor x y, i := e.i - 1 }

/-- A character (:482). -/
def insert (e : Editing) (c : UInt8) : Option Editing :=
  if c ≠ 0 then
    (e.console.WriteChar c e.console.m_Text e.console.m_backGroundColor).bind fun s =>
      (store e.commandBuffer e.i c).map fun buf => { e with console := s, commandBuffer := buf, i := e.i + 1 }
  else some e

/-- The end (:501). -/
def terminate (e : Editing) : Option Editing :=
  (store e.commandBuffer e.i 0).map fun buf => { e with commandBuffer := buf, ended := true }

/-- The body of the loop behind the test for the return key (:448). -/
def body (e : Editing) (c : UInt8) : Option Editing :=
  if c = 8 then if e.i > 0 then e.erase else some e
  else e.insert c

def loop (e : Editing) : List UInt8 → Option Editing
  | [] => if e.i < e.commandBuffer.length then none else e.terminate
  | c :: keys =>
    if e.i < e.commandBuffer.length then
      if c = 13 then e.terminate
      else (e.body c).bind fun e => e.loop keys
    else e.terminate

end Editing

/-- `GetCommand` (:419). -/
def GetCommand (s : Console) (commandBuffer : List UInt8) (keys : List UInt8) : Option (Console × List UInt8) :=
  (Editing.loop ⟨s, commandBuffer, 0, false⟩ keys).map fun e => (e.console, e.commandBuffer)

/-! ## What it should be -/

inductive Key where
  | char (c : UInt8) (printable : 32 ≤ c ∧ c ≤ 126)
  | backspace

namespace Key

/-- What the keyboard returns; `none` is the return key. -/
def code : Option Key → UInt8
  | none => 13
  | some (char c _) => c
  | some backspace => 8

def apply (line : List UInt8) : Option Key → List UInt8
  | none => line
  | some (char c _) => line ++ [c]
  | some backspace => line.dropLast

end Key

def lineOf (keys : List (Option Key)) : List UInt8 := keys.foldl Key.apply []

def place (s : Console) : Nat := m_ScreenWidth * s.m_yPos + s.m_xPos

def scrolled (start now : Console) : Nat := m_ScreenWidth * (now.scrolls - start.scrolls)

/-- The characters of the line that are still on the screen stand there, from the first place of the cursor on, and
behind them there is a blank. -/
structure Shows (start now : Console) (line : List UInt8) : Prop where
  chars : ∀ j < line.length, scrolled start now ≤ place start + j →
    some (now.m_pVideoMemory (place start + j - scrolled start now)).char = (line)[j]?
  on_screen : scrolled start now ≤ place start + line.length ∧
    place start + line.length - scrolled start now < m_ScreenWidth * m_ScreenHeight
  blank : (now.m_pVideoMemory (place start + line.length - scrolled start now)).char = 32

/-! ## The keys as steps -/

def Editing.key (e : Editing) (k : Option Key) : Option Editing :=
  match k with
  | none => e.terminate
  | some _ =>
    (e.body (Key.code k)).bind fun e => if e.i < e.commandBuffer.length then some e else e.terminate

def commandSystem (start : Console) (commandBuffer : List UInt8) :
    StepSystem (Editing × List (Option Key)) (Option Key) where
  init p := p = (⟨start, commandBuffer, 0, false⟩, [])
  step p k := if p.1.ended then none else (p.1.key k).map fun e => (e, p.2 ++ [k])

/-- `GetCommand` stays in the buffer, leaves the line there, and shows it after every key. -/
structure CommandRight (start : Console) (commandBuffer : List UInt8) (keys : List Key) : Prop where
  line : ∃ s buf, GetCommand start commandBuffer (keys.map (fun k => Key.code (some k)) ++ [13]) = some (s, buf) ∧
    text buf = lineOf (keys.map some)
  shows : ∀ pressed, pressed <+: keys.map some ++ [none] → ∀ p,
    (commandSystem start commandBuffer).exec (⟨start, commandBuffer, 0, false⟩, []) pressed = some p → p.2 ≠ [] →
      Shows start p.1.console (lineOf p.2)

/-! ## Scrolling -/

theorem foldl_update_const {cells : Nat → Cell} {b : Cell} (l : List Nat) (k : Nat) :
    (l.foldl (fun cells t => update cells t b) cells) k = if k ∈ l then b else cells k := by
  induction l generalizing cells with
  | nil => rfl
  | cons t l ih =>
    rw [foldl_cons, ih]
    by_cases hk : k ∈ l
    · rw [if_pos hk, if_pos (mem_cons_of_mem t hk)]
    · rw [if_neg hk]
      by_cases ht : k = t
      · subst ht
        rw [update_self, if_pos mem_cons_self]
      · rw [update_of_ne ht, if_neg (by simp [ht, hk])]

theorem foldl_update_up (cells : Nat → Cell) (w n k : Nat) :
    ((List.range n).foldl (fun cells t => update cells t (cells (t + w))) cells) k =
      if k < n then cells (k + w) else cells k := by
  induction n generalizing k with
  | zero => rfl
  | succ n ih =>
    rw [range_succ, foldl_append, foldl_cons, foldl_nil]
    by_cases hk : k = n
    · subst hk
      rw [update_self, ih, if_neg (by omega), if_pos (by omega)]
    · rw [update_of_ne hk, ih]
      by_cases hlt : k < n
      · rw [if_pos hlt, if_pos (by omega)]
      · rw [if_neg hlt, if_neg (by omega)]

variable {k : Nat} {c : UInt8} {t : Console}

namespace Console

variable {s : Console}

theorem scrollup_cells (s : Console) (hk : k < m_ScreenWidth * m_ScreenHeight) :
    s.scrollup.m_pVideoMemory k =
      if k < m_ScreenWidth * (m_ScreenHeight - 1) then s.m_pVideoMemory (k + m_ScreenWidth) else s.blank := by
  have hmem : k ∈ List.range' (m_ScreenWidth * (m_ScreenHeight - 1)) m_ScreenWidth ↔
      ¬ k < m_ScreenWidth * (m_ScreenHeight - 1) := by
    rw [mem_range'_1]
    unfold m_ScreenWidth m_ScreenHeight at *
    omega
  unfold scrollup
  dsimp only
  rw [foldl_update_const, foldl_update_up, if_congr hmem rfl rfl]
  split <;> simp_all

/-- `t` is `s` with its first `k` rows scrolled away, and the cursor on the screen. -/
structure Follows (s t : Console) (k : Nat) : Prop where
  inside : Inside t
  scrolls : t.scrolls = s.scrolls + k
  place : place t + m_ScreenWidth * k = place s
  cells : ∀ v < m_ScreenWidth * m_ScreenHeight, m_ScreenWidth * k ≤ v →
    t.m_pVideoMemory (v - m_ScreenWidth * k) = s.m_pVideoMemory v
  full : k ≠ 0 → m_ScreenWidth * m_ScreenHeight ≤ SkyConsole.place s
  blank : k ≠ 0 → (t.m_pVideoMemory (SkyConsole.place t)).char = 32

theorem place_lt_of_inside (h : Inside s) : place s < m_ScreenWidth * m_ScreenHeight := (place_lt h).2

variable {X : Nat}

theorem place_moveCursor (hX : 1 ≤ X ∧ X ≤ m_ScreenWidth) (Y : Nat) (s : Console) :
    place (s.MoveCursor X Y) = m_ScreenWidth * Y + (X - 1) := by
  unfold place MoveCursor
  dsimp only
  rw [if_neg (Nat.not_lt.2 hX.2), if_pos (Nat.lt_of_succ_le hX.1)]

theorem place_moveCursor_home (hX : m_ScreenWidth < X) (Y : Nat) (s : Console) :
    place (s.MoveCursor X Y) = m_ScreenWidth * Y := by
  unfold place MoveCursor
  rw [if_pos hX]
  rfl

theorem follows_settle (hx : s.m_xPos ≤ m_ScreenWidth) (hy : s.m_yPos < m_ScreenHeight) :
    ∃ k, Follows s s.settle k := by
  have hinside := inside_settle hx (Nat.le_of_lt hy) (.inr hy)
  have hnext : u32 (s.m_xPos + 1) = s.m_xPos + 1 := u32_of_lt (by unfold m_ScreenWidth at hx; omega)
  have hrow : u32 (s.m_yPos + 1) = s.m_yPos + 1 := u32_of_lt (by unfold m_ScreenHeight at hy; omega)
  by_cases hfull : s.m_xPos ≥ m_ScreenWidth
  · have hwrap : s.wrap = { s with m_yPos := s.m_yPos + 1 } := by rw [wrap, if_pos hfull, hrow]
    have hplace : place s = m_ScreenWidth * (s.m_yPos + 1) := by
      unfold place m_ScreenWidth at *
      omega
    by_cases hlast : s.m_yPos + 1 = m_ScreenHeight
    · have hscroll : s.wrap.scroll = { (s.wrap).scrollup with m_yPos := s.m_yPos } := by
        rw [scroll, hwrap, if_pos hlast]
        rfl
      have hsettle : s.settle = MoveCursor { (s.wrap).scrollup with m_yPos := s.m_yPos } (s.m_xPos + 1) s.m_yPos := by
        rw [settle, hscroll, ← hnext, hwrap]
        rfl
      have hcells (v : Nat) (hv : v < m_ScreenWidth * m_ScreenHeight) : s.settle.m_pVideoMemory v =
          if v < m_ScreenWidth * (m_ScreenHeight - 1) then s.m_pVideoMemory (v + m_ScreenWidth) else s.blank := by
        rw [hsettle]
        refine (scrollup_cells s.wrap hv).trans ?_
        rw [hwrap]
        rfl
      have htarget : place s.settle = m_ScreenWidth * s.m_yPos := by
        rw [hsettle, place_moveCursor_home (by omega)]
      refine ⟨1, hinside, by rw [hsettle, hwrap]; rfl, ?_, fun v hv hk => ?_, fun _ => ?_, fun _ => ?_⟩
      · rw [htarget, hplace]
        rfl
      · rw [hcells _ (by omega), if_pos (by unfold m_ScreenWidth m_ScreenHeight at *; omega), Nat.mul_one,
          Nat.sub_add_cancel (by omega)]
      · rw [hplace, hlast]
      · rw [hcells _ (place_lt_of_inside hinside), htarget, if_neg (by unfold m_ScreenWidth m_ScreenHeight at *; omega)]
        rfl
    · have hsettle : s.settle = MoveCursor { s with m_yPos := s.m_yPos + 1 } (s.m_xPos + 1) (s.m_yPos + 1) := by
        have hscroll : s.wrap.scroll = { s with m_yPos := s.m_yPos + 1 } := by
          rw [scroll, hwrap, if_neg hlast]
        rw [settle, hscroll, hnext]
      refine ⟨0, hinside, by rw [hsettle]; rfl, ?_, fun v _ _ => by rw [hsettle]; rfl, fun h => absurd rfl h,
        fun h => absurd rfl h⟩
      rw [hplace, hsettle, place_moveCursor_home (by omega)]
      rfl
  · have hsettle : s.settle = s.MoveCursor (s.m_xPos + 1) s.m_yPos := by
      have hwrap : s.wrap = s := if_neg hfull
      have hscroll : s.wrap.scroll = s := by rw [hwrap]; exact if_neg (by omega)
      rw [settle, hscroll, hnext]
    refine ⟨0, hinside, by rw [hsettle]; rfl, ?_, fun v _ _ => by rw [hsettle]; rfl, fun h => absurd rfl h,
      fun h => absurd rfl h⟩
    rw [hsettle, place_moveCursor ⟨by omega, by omega⟩]
    rfl

/-- What `WriteChar` has written before the cursor is brought back. -/
def written (s : Console) (c : Cell) : Console :=
  { s with m_pVideoMemory := Function.update s.m_pVideoMemory (place s) c, m_xPos := s.m_xPos + 1 }

theorem place_written (s : Console) (c : Cell) : place (s.written c) = place s + 1 := rfl

theorem writeChar_printable (h : Inside s) (hc : 32 ≤ c ∧ c ≤ 126) (textColour backColour : ConsoleColor) :
    ∃ t k, s.WriteChar c textColour backColour = some t ∧ Follows (s.written (cell c textColour backColour)) t k := by
  obtain ⟨hx, hy⟩ := id h
  obtain ⟨hplace, hlt⟩ := place_lt h
  have hnext : u32 (s.m_xPos + 1) = s.m_xPos + 1 := u32_of_lt (by unfold m_ScreenWidth at hx; omega)
  obtain ⟨k, hk⟩ := @follows_settle (s.written (cell c textColour backColour)) hx hy
  refine ⟨_, k, ?_, hk⟩
  have hcontrol : ¬ (c < 32 ∨ 128 ≤ c) := by
    obtain ⟨h1, h2⟩ := hc
    rw [UInt8.le_iff_toNat_le] at h1 h2
    rw [UInt8.lt_iff_toNat_lt, UInt8.le_iff_toNat_le]
    simp only [UInt8.reduceToNat] at *
    omega
  have hne {d : UInt8} (hd : d < 32) : c ≠ d := by
    rintro rfl
    exact hcontrol (.inl hd)
  rw [WriteChar, if_neg (hne (by decide)), if_neg (hne (by decide)), if_neg (hne (by decide)), if_neg hcontrol, hplace,
    store_of_lt hlt, Option.map_some, Option.map_some, hnext]
  rfl

end Console

/-! ## What a key does to the screen -/

structure Tracks (start now : Console) (line : List UInt8) : Prop where
  inside : Inside now
  scrolls_le : start.scrolls ≤ now.scrolls
  place : place now + scrolled start now = place start + line.length
  chars : ∀ j < line.length, scrolled start now ≤ SkyConsole.place start + j →
    some (now.m_pVideoMemory (SkyConsole.place start + j - scrolled start now)).char = (line)[j]?

def BlankAt (s : Console) (v : Nat) : Prop := (s.m_pVideoMemory v).char = 32
  deriving Decidable

theorem blank_iff_of_follows {now : Console} {c : Cell} (hk : Console.Follows (now.written c) t k) :
    BlankAt t (place t) ↔
      (place now + 1 < m_ScreenWidth * m_ScreenHeight → BlankAt now (place now + 1)) := by
  have htarget : SkyConsole.place t + m_ScreenWidth * k = SkyConsole.place now + 1 := hk.place
  have hlt := Console.place_lt_of_inside hk.inside
  by_cases hzero : k = 0
  · subst hzero
    rw [Nat.mul_zero, Nat.add_zero] at htarget
    have hcell := hk.cells (place t) hlt (Nat.zero_le _)
    rw [Nat.mul_zero, Nat.sub_zero] at hcell
    have hwritten : (now.written c).m_pVideoMemory (place t) = now.m_pVideoMemory (place t) :=
      update_of_ne (by omega) _ _
    rw [← htarget, BlankAt, BlankAt, hcell, hwritten]
    exact ⟨fun hblank _ => hblank, fun hblank => hblank hlt⟩
  · have hfull : m_ScreenWidth * m_ScreenHeight ≤ place now + 1 := hk.full hzero
    exact iff_of_true (hk.blank hzero) fun hon => absurd hon (by omega)

namespace Tracks

variable {start now : Console} {line : List UInt8}

theorem shows_iff (h : Tracks start now line) : Shows start now line ↔ BlankAt now (SkyConsole.place now) := by
  have hlt := Console.place_lt_of_inside h.inside
  have hplace := h.place
  have hv : SkyConsole.place start + line.length - scrolled start now = SkyConsole.place now := by omega
  constructor
  · intro hshows
    have := hshows.blank
    rwa [hv] at this
  · intro hblank
    exact ⟨h.chars, ⟨by omega, by omega⟩, by rw [hv]; exact hblank⟩

theorem refl (h : Inside start) : Tracks start start [] := by
  refine ⟨h, le_rfl, ?_, fun j hj => absurd hj (Nat.not_lt_zero j)⟩
  unfold scrolled
  rw [Nat.sub_self]
  rfl

theorem scrolled_follows {c : Cell} (h : Tracks start now line)
    (hk : Console.Follows (now.written c) t k) : scrolled start t = scrolled start now + m_ScreenWidth * k := by
  have hle := h.scrolls_le
  have hscrolls : t.scrolls = now.scrolls + k := hk.scrolls
  unfold scrolled
  rw [hscrolls, ← Nat.mul_add]
  congr 1
  omega

theorem insert {c : Cell} (h : Tracks start now line)
    (hk : Console.Follows (now.written c) t k) : Tracks start t (line ++ [c.char]) := by
  have hscrolled := h.scrolled_follows hk
  have hscrolls : t.scrolls = now.scrolls + k := hk.scrolls
  have hplace := h.place
  have htarget : SkyConsole.place t + m_ScreenWidth * k = SkyConsole.place now + 1 := hk.place
  have hlt := Console.place_lt_of_inside h.inside
  have hle := h.scrolls_le
  refine ⟨hk.inside, by omega, ?_, fun j hj hon => ?_⟩
  · rw [length_append, length_singleton]
    omega
  · rw [length_append, length_singleton] at hj
    have hcell := hk.cells (SkyConsole.place start + j - scrolled start now) (by omega) (by omega)
    rw [hscrolled, ← Nat.sub_sub, hcell]
    rcases Nat.lt_or_ge j line.length with hlt | hge
    · have hne : SkyConsole.place start + j - scrolled start now ≠ SkyConsole.place now := by omega
      rw [List.getElem?_append_left hlt, ← h.chars j hlt (by omega)]
      exact congrArg (fun c => some (Cell.char c)) (update_of_ne hne _ _)
    · obtain rfl : j = line.length := by omega
      have heq : SkyConsole.place start + line.length - scrolled start now = SkyConsole.place now := by omega
      rw [List.getElem?_concat_length, heq]
      exact congrArg (fun c => some (Cell.char c)) (update_self _ _ _)

theorem erase {u : Console} {c : Cell} {q : Nat} (h : Tracks start now line) (hne : line ≠ []) (hinside : Inside u)
    (hscrolls : u.scrolls = now.scrolls) (hplace : SkyConsole.place u + 1 = SkyConsole.place now)
    (hq : SkyConsole.place u ≤ q)
    (hcells : ∀ v < m_ScreenWidth * m_ScreenHeight,
      u.m_pVideoMemory v = update now.m_pVideoMemory q c v) :
    Tracks start u line.dropLast := by
  have hscrolled : scrolled start u = scrolled start now := by
    unfold scrolled
    rw [hscrolls]
  have hle := h.scrolls_le
  have htracks := h.place
  have hlt := Console.place_lt_of_inside hinside
  have hpos := length_pos_iff.2 hne
  refine ⟨hinside, by omega, ?_, fun j hj hon => ?_⟩
  · rw [hscrolled, length_dropLast]
    omega
  · rw [length_dropLast] at hj
    rw [hscrolled] at hon ⊢
    have hv : SkyConsole.place start + j - scrolled start now ≠ q := by omega
    rw [hcells _ (by omega), update_of_ne hv, List.getElem?_dropLast, if_pos hj]
    exact h.chars j (by omega) hon

theorem last (h : Tracks start now line) (hne : line ≠ []) (hpos : 0 < SkyConsole.place now) :
    some (now.m_pVideoMemory (SkyConsole.place now - 1)).char = line.getLast? := by
  have htracks := h.place
  have hlength := length_pos_iff.2 hne
  have hv : SkyConsole.place start + (line.length - 1) - scrolled start now = SkyConsole.place now - 1 := by omega
  rw [List.getLast?_eq_getElem?, ← h.chars (line.length - 1) (by omega) (by omega), hv]

end Tracks

namespace Console

variable {s : Console}

theorem writeChar_row (h : Inside s) (hx : s.m_xPos + 1 < m_ScreenWidth) (hc : 32 ≤ c ∧ c ≤ 126)
    (textColour backColour : ConsoleColor) :
    ∃ t, s.WriteChar c textColour backColour = some t ∧ t.scrolls = s.scrolls ∧
      ∀ v < m_ScreenWidth * m_ScreenHeight,
        t.m_pVideoMemory v = update s.m_pVideoMemory (place s) (cell c textColour backColour) v := by
  obtain ⟨t, k, ht, hk⟩ := writeChar_printable h hc textColour backColour
  have hzero : k = 0 := by
    by_contra hk0
    have hfull := hk.full hk0
    have hy := h.2
    rw [place_written] at hfull
    unfold place m_ScreenWidth m_ScreenHeight at *
    omega
  subst hzero
  refine ⟨t, ht, hk.scrolls, fun v hv => ?_⟩
  have hcell := hk.cells v hv (Nat.zero_le _)
  rwa [Nat.mul_zero, Nat.sub_zero] at hcell

end Console

namespace Editing

variable {e : Editing} {start : Console} {line : List UInt8}

theorem erase_in_row (h : Tracks start e.console line) (hne : line ≠ []) (hx : 0 < e.console.m_xPos) :
    ∃ t, e.erase = some { e with console := t, i := e.i - 1 } ∧ Tracks start t line.dropLast ∧ BlankAt t (place t) := by
  obtain ⟨hcol, hrow⟩ := h.inside
  have hX : 1 ≤ e.console.m_xPos ∧ e.console.m_xPos ≤ m_ScreenWidth := ⟨hx, Nat.le_of_lt hcol⟩
  have hback := Console.inside_moveCursor (Nat.le_succ_of_le hX.2) hrow e.console
  have hplace (s : Console) :
      place (s.MoveCursor e.console.m_xPos e.console.m_yPos) + 1 = place e.console := by
    rw [Console.place_moveCursor hX]
    unfold place
    omega
  have hnext : (e.console.MoveCursor e.console.m_xPos e.console.m_yPos).m_xPos + 1 < m_ScreenWidth := by
    have := hplace e.console
    unfold place at this
    change m_ScreenWidth * e.console.m_yPos + _ + 1 = _ at this
    omega
  obtain ⟨t, ht, hscrolls, hcells⟩ := Console.writeChar_row hback hnext (by decide : 32 ≤ (32 : UInt8) ∧ 32 ≤ 126)
    e.console.m_Text e.console.m_backGroundColor
  have hinside := Console.inside_moveCursor (Nat.le_succ_of_le hX.2) hrow t
  have hsame : place (e.console.MoveCursor e.console.m_xPos e.console.m_yPos) =
      place (t.MoveCursor e.console.m_xPos e.console.m_yPos) := by
    have h1 := hplace e.console
    have h2 := hplace t
    omega
  refine ⟨t.MoveCursor e.console.m_xPos e.console.m_yPos, ?_, ?_, ?_⟩
  · unfold erase
    dsimp only
    rw [if_pos hx]
    exact congrArg (Option.map fun s : Console =>
      { e with console := s.MoveCursor e.console.m_xPos e.console.m_yPos, i := e.i - 1 }) ht
  · exact h.erase hne hinside hscrolls (hplace t) (Nat.le_of_eq hsame.symm) hcells
  · have hlt := Console.place_lt_of_inside hinside
    have hcell := hcells _ hlt
    rw [hsame, update_self] at hcell
    exact congrArg Cell.char hcell

/-- In the first column the cell under the cursor is overwritten instead. -/
theorem erase_column_zero (h : Tracks start e.console line) (hx : e.console.m_xPos = 0) :
    ∃ t : Console, e.erase = some { e with console := t.MoveCursor 80 (sub32 e.console.m_yPos 1), i := e.i - 1 } ∧
      t.scrolls = e.console.scrolls ∧
      ∀ v < m_ScreenWidth * m_ScreenHeight, t.m_pVideoMemory v = update e.console.m_pVideoMemory
        (place e.console) (Console.cell 32 e.console.m_Text e.console.m_backGroundColor) v := by
  have hnext : e.console.m_xPos + 1 < m_ScreenWidth := by
    rw [hx]
    decide
  obtain ⟨t, ht, hscrolls, hcells⟩ := Console.writeChar_row h.inside hnext (by decide : 32 ≤ (32 : UInt8) ∧ 32 ≤ 126)
    e.console.m_Text e.console.m_backGroundColor
  refine ⟨t, ?_, hscrolls, hcells⟩
  unfold erase
  dsimp only
  rw [if_neg (by omega)]
  exact congrArg (Option.map fun s : Console =>
    { e with console := s.MoveCursor 80 (sub32 e.console.m_yPos 1), i := e.i - 1 }) ht

/-- The line is shown after that exactly if there is a row above, and the character was a blank. -/
theorem erase_column_zero_shows_iff (h : Tracks start e.console line) (hne : line ≠ []) (hx : e.console.m_xPos = 0) :
    ∃ t, e.erase = some { e with console := t, i := e.i - 1 } ∧
      (Shows start t line.dropLast ↔ 0 < e.console.m_yPos ∧ line.getLast? = some 32) ∧
      (Shows start t line.dropLast → Tracks start t line.dropLast) := by
  obtain ⟨t, herase, hscrolls, hcells⟩ := erase_column_zero h hx
  refine ⟨_, herase, ?_⟩
  obtain ⟨hcol, hrow⟩ := h.inside
  have hpos := length_pos_iff.2 hne
  have htracks := h.place
  by_cases hy : 0 < e.console.m_yPos
  · have hsub : sub32 e.console.m_yPos 1 = e.console.m_yPos - 1 :=
      sub32_of_le hy (by unfold m_ScreenHeight at hrow; omega)
    rw [hsub]
    have hplace : place (t.MoveCursor 80 (e.console.m_yPos - 1)) + 1 = place e.console := by
      rw [Console.place_moveCursor ⟨by decide, by decide⟩]
      unfold place m_ScreenWidth
      omega
    have hinside : Inside (t.MoveCursor 80 (e.console.m_yPos - 1)) := Console.inside_moveCursor (by decide) (by omega) t
    have hkeep : Tracks start (t.MoveCursor 80 (e.console.m_yPos - 1)) line.dropLast :=
      h.erase hne hinside hscrolls hplace (by omega) hcells
    refine ⟨?_, fun _ => hkeep⟩
    rw [hkeep.shows_iff, and_iff_right hy, ← h.last hne (by omega), Option.some.injEq]
    have hcell := hcells (place (t.MoveCursor 80 (e.console.m_yPos - 1))) (Console.place_lt_of_inside hinside)
    rw [update_of_ne (by omega)] at hcell
    have hfront : place (t.MoveCursor 80 (e.console.m_yPos - 1)) = place e.console - 1 := by omega
    rw [hfront] at hcell ⊢
    exact iff_of_eq (congrArg (fun c => Cell.char c = 32) hcell)
  · have hscrolled : scrolled start (t.MoveCursor 80 (sub32 e.console.m_yPos 1)) = scrolled start e.console :=
      congrArg (fun n => m_ScreenWidth * (n - start.scrolls)) hscrolls
    have hnot : ¬ Shows start (t.MoveCursor 80 (sub32 e.console.m_yPos 1)) line.dropLast := by
      intro hshows
      have hon := hshows.on_screen.1
      have htop : place e.console = 0 := by
        unfold place m_ScreenWidth
        omega
      rw [hscrolled, length_dropLast] at hon
      omega
    exact ⟨iff_of_false hnot fun h => hy h.1, fun hshows => absurd hshows hnot⟩

/-! ## The loop between two keys -/

structure Live (start : Console) (e : Editing) (line : List UInt8) : Prop where
  tracks : Tracks start e.console line
  i_eq : e.i = line.length
  i_lt : e.i < e.commandBuffer.length
  buffer : e.commandBuffer.take e.i = line
  noZero : 0 ∉ line
  ended : e.ended = false

/-- What the key is right for: it leaves room for the terminator, and the cell behind the new line is blank already. -/
def Suits (e : Editing) : Option Key → Prop
  | none => BlankAt e.console (place e.console)
  | some (.char _ _) => e.i + 1 < e.commandBuffer.length ∧
      (place e.console + 1 < m_ScreenWidth * m_ScreenHeight → BlankAt e.console (place e.console + 1))
  | some .backspace =>
    if e.i = 0 then BlankAt e.console (place e.console)
    else 0 < e.console.m_xPos ∨ (0 < e.console.m_yPos ∧ e.commandBuffer[e.i - 1]? = some 32)

instance (e : Editing) (k : Option Key) : Decidable (e.Suits k) :=
  match k with
  | none => inferInstanceAs (Decidable (BlankAt _ _))
  | some (.char _ _) => inferInstanceAs (Decidable (_ ∧ _))
  | some .backspace =>
    inferInstanceAs (Decidable (if e.i = 0 then BlankAt e.console (place e.console)
      else 0 < e.console.m_xPos ∨ (0 < e.console.m_yPos ∧ e.commandBuffer[e.i - 1]? = some 32)))

theorem key_char_eq (e : Editing) (hc : 32 ≤ c ∧ c ≤ 126) :
    e.key (some (.char c hc)) =
      (e.insert c).bind fun e => if e.i < e.commandBuffer.length then some e else e.terminate := by
  have hc8 : c ≠ 8 := by
    rintro rfl
    exact absurd hc.1 (by decide)
  rw [key, Key.code, body, if_neg hc8]

variable {e' : Editing}

namespace Live

theorem init (h : Inside start) {commandBuffer : List UInt8} (hbuf : 1 ≤ commandBuffer.length) :
    Live start ⟨start, commandBuffer, 0, false⟩ [] :=
  ⟨.refl h, rfl, hbuf, rfl, not_mem_nil, rfl⟩

section

variable (h : Live start e line)
include h

theorem last (hne : line ≠ []) : e.commandBuffer[e.i - 1]? = line.getLast? := by
  have hpos := length_pos_iff.2 hne
  have hi := h.i_eq
  rw [List.getLast?_eq_getElem?, ← h.buffer, length_take, min_eq_left (Nat.le_of_lt h.i_lt),
    List.getElem?_take_of_lt (by omega)]

theorem key_return :
    e.key none = some { e with commandBuffer := e.commandBuffer.set e.i 0, ended := true } ∧
      text (e.commandBuffer.set e.i 0) = line := by
  constructor
  · rw [key, terminate, StrUtil.store_of_lt h.i_lt, Option.map_some]
  · rw [set_eq_take_append_cons_drop, if_pos h.i_lt, h.buffer, StrUtil.text_terminated h.noZero]

theorem insert_eq (hc : 32 ≤ c ∧ c ≤ 126) :
    ∃ t k, e.insert c = some { e with console := t, commandBuffer := e.commandBuffer.set e.i c, i := e.i + 1 } ∧
      Console.Follows (e.console.written (Console.cell c e.console.m_Text e.console.m_backGroundColor)) t k := by
  obtain ⟨t, k, ht, hk⟩ := Console.writeChar_printable h.tracks.inside hc e.console.m_Text e.console.m_backGroundColor
  have hc0 : c ≠ 0 := by
    rintro rfl
    exact absurd hc.1 (by decide)
  refine ⟨t, k, ?_, hk⟩
  rw [insert, if_pos hc0, ht, Option.bind_some, StrUtil.store_of_lt h.i_lt, Option.map_some]

/-- A character that fills the buffer leaves no room for the terminator. -/
theorem key_char_full (hfull : ¬ e.i + 1 < e.commandBuffer.length)
    (hc : 32 ≤ c ∧ c ≤ 126) : e.key (some (.char c hc)) = none := by
  obtain ⟨t, k, hinsert, -⟩ := h.insert_eq hc
  have hlength : (e.commandBuffer.set e.i c).length ≤ e.i + 1 := by
    rw [length_set]
    exact Nat.not_lt.1 hfull
  rw [key_char_eq e hc, hinsert, Option.bind_some, if_neg (Nat.not_lt.2 hlength), terminate,
    StrUtil.store_of_ge hlength, Option.map_none]

theorem key_char (hroom : e.i + 1 < e.commandBuffer.length)
    (hc : 32 ≤ c ∧ c ≤ 126) :
    ∃ t, e.key (some (.char c hc)) =
        some { e with console := t, commandBuffer := e.commandBuffer.set e.i c, i := e.i + 1 } ∧
      Live start { e with console := t, commandBuffer := e.commandBuffer.set e.i c, i := e.i + 1 } (line ++ [c]) ∧
      (BlankAt t (place t) ↔
        (place e.console + 1 < m_ScreenWidth * m_ScreenHeight → BlankAt e.console (place e.console + 1))) := by
  obtain ⟨t, k, hinsert, hk⟩ := h.insert_eq hc
  have hlt : e.i + 1 < (e.commandBuffer.set e.i c).length := by rwa [length_set]
  refine ⟨t, ?_, ⟨h.tracks.insert hk, ?_, hlt, ?_, ?_, h.ended⟩, blank_iff_of_follows hk⟩
  · rw [key_char_eq e hc, hinsert, Option.bind_some, if_pos hlt]
  · rw [length_append, length_singleton, ← h.i_eq]
  · dsimp only
    rw [set_eq_take_append_cons_drop, if_pos h.i_lt, h.buffer, h.i_eq, ← singleton_append,
      ← append_assoc, take_left' (by rw [length_append, length_singleton])]
  · rw [mem_append, mem_singleton]
    rintro (hline | rfl)
    · exact h.noZero hline
    · exact absurd hc.1 (by decide)

end

theorem key_backspace_nil (h : Live start e []) : e.key (some .backspace) = some e := by
  have hi : e.i = 0 := h.i_eq
  rw [key, Key.code, body, if_pos rfl, if_neg (by omega), Option.bind_some, if_pos h.i_lt]

theorem key_backspace (h : Live start e line) (hne : line ≠ []) :
    ∃ t, e.key (some .backspace) = some { e with console := t, i := e.i - 1 } ∧
      (Shows start t line.dropLast → Live start { e with console := t, i := e.i - 1 } line.dropLast) ∧
      (Shows start t line.dropLast ↔
        0 < e.console.m_xPos ∨ (0 < e.console.m_yPos ∧ e.commandBuffer[e.i - 1]? = some 32)) := by
  have hpos := length_pos_iff.2 hne
  have hi := h.i_eq
  have hlt := h.i_lt
  have hlive (t : Console) (ht : Tracks start t line.dropLast) :
      Live start { e with console := t, i := e.i - 1 } line.dropLast := by
    refine ⟨ht, ?_, ?_, ?_, fun hmem => h.noZero (dropLast_subset line hmem), h.ended⟩
    · rw [length_dropLast, ← hi]
    · dsimp only
      omega
    · dsimp only
      rw [dropLast_eq_take, ← hi, ← h.buffer, take_take, min_eq_left (by omega)]
  have hkey {t : Console} (herase : e.erase = some { e with console := t, i := e.i - 1 }) :
      e.key (some .backspace) = some { e with console := t, i := e.i - 1 } := by
    rw [key, Key.code, body, if_pos rfl, if_pos (by omega), herase, Option.bind_some, if_pos (by dsimp only; omega)]
  by_cases hx : 0 < e.console.m_xPos
  · obtain ⟨t, herase, htracks, hblank⟩ := erase_in_row h.tracks hne hx
    exact ⟨t, hkey herase, fun _ => hlive t htracks, iff_of_true (htracks.shows_iff.2 hblank) (.inl hx)⟩
  · obtain ⟨t, herase, hshows, htracks⟩ := erase_column_zero_shows_iff h.tracks hne (Nat.eq_zero_of_not_pos hx)
    refine ⟨t, hkey herase, fun hs => hlive t (htracks hs), ?_⟩
    rw [hshows, h.last hne, or_iff_right hx]

theorem key_right_iff (h : Live start e line) (k : Option Key) :
    ((e.key k).isSome ∧ ∀ e', e.key k = some e' → Shows start e'.console (Key.apply line k)) ↔ e.Suits k := by
  cases k with
  | none =>
    rw [h.key_return.1, Suits, ← h.tracks.shows_iff]
    simp [Key.apply]
  | some k =>
    cases k with
    | char c hc =>
      by_cases hroom : e.i + 1 < e.commandBuffer.length
      · obtain ⟨t, hkey, hlive, hblank⟩ := h.key_char hroom hc
        rw [hkey, Suits, and_iff_right hroom, ← hblank, ← hlive.tracks.shows_iff]
        simp [Key.apply]
      · rw [h.key_char_full hroom hc, Suits]
        simp [hroom]
    | backspace =>
      by_cases hne : line = []
      · subst hne
        have hi : e.i = 0 := h.i_eq
        rw [h.key_backspace_nil, Suits, if_pos hi]
        simpa [Key.apply] using h.tracks.shows_iff
      · obtain ⟨t, hkey, -, hshows⟩ := h.key_backspace hne
        have hpos := length_pos_iff.2 hne
        have hi := h.i_eq
        rw [hkey, Suits, if_neg (by omega), ← hshows]
        simp [Key.apply]

/-- After a key that is shown, the loop goes on, or the line is in the buffer. -/
theorem key_next (h : Live start e line) {k : Option Key} (hkey : e.key k = some e')
    (hshows : Shows start e'.console (Key.apply line k)) :
    Live start e' (Key.apply line k) ∨ (e'.ended = true ∧ text e'.commandBuffer = Key.apply line k) := by
  cases k with
  | none =>
    obtain ⟨hreturn, htext⟩ := h.key_return
    cases hreturn.symm.trans hkey
    exact .inr ⟨rfl, htext⟩
  | some k =>
    refine .inl ?_
    cases k with
    | char c hc =>
      by_cases hroom : e.i + 1 < e.commandBuffer.length
      · obtain ⟨t, hkey', hlive, -⟩ := h.key_char hroom hc
        cases hkey'.symm.trans hkey
        exact hlive
      · cases (h.key_char_full hroom hc).symm.trans hkey
    | backspace =>
      by_cases hne : line = []
      · subst hne
        cases h.key_backspace_nil.symm.trans hkey
        exact h
      · obtain ⟨t, hkey', hlive, -⟩ := h.key_backspace hne
        cases hkey'.symm.trans hkey
        exact hlive hshows

end Live

/-! ## The loop and its keys -/

theorem body_ended (h : e.body c = some e') : e'.ended = e.ended := by
  unfold body erase insert at h
  split at h
  · split at h
    · obtain ⟨s, -, rfl⟩ := Option.map_eq_some_iff.1 h
      rfl
    · cases h
      rfl
  · split at h
    · obtain ⟨s, -, h⟩ := Option.bind_eq_some_iff.1 h
      obtain ⟨buf, -, rfl⟩ := Option.map_eq_some_iff.1 h
      rfl
    · cases h
      rfl

theorem terminate_ended (h : e.terminate = some e') : e'.ended = true := by
  obtain ⟨buf, -, rfl⟩ := Option.map_eq_some_iff.1 h
  rfl

theorem loop_eq_exec (start : Console) (commandBuffer : List UInt8) (pressed : List (Option Key)) (keys : List Key)
    (hended : e.ended = false) (hi : e.i < e.commandBuffer.length) :
    e.loop (keys.map (fun k => Key.code (some k)) ++ [13]) =
      ((commandSystem start commandBuffer).exec (e, pressed) (keys.map some ++ [none])).map Prod.fst := by
  have hstep (k : Option Key) :
      (commandSystem start commandBuffer).step (e, pressed) k = (e.key k).map fun e => (e, pressed ++ [k]) := by
    rw [commandSystem]
    dsimp only
    rw [hended, if_neg Bool.false_ne_true]
  induction keys generalizing e pressed with
  | nil =>
    rw [map_nil, map_nil, nil_append, nil_append, loop, if_pos hi, if_pos rfl, StepSystem.exec_cons,
      hstep, key]
    cases e.terminate <;> rfl
  | cons k keys ih =>
    have hcode : Key.code (some k) ≠ 13 := by
      cases k with
      | char c hc =>
        rintro rfl
        exact absurd hc.1 (by decide)
      | backspace => decide
    rw [map_cons, map_cons, cons_append, cons_append, loop, if_pos hi, if_neg hcode,
      StepSystem.exec_cons, hstep, key]
    cases hbody : e.body (Key.code (some k)) with
    | none => rfl
    | some e₁ =>
      have hended₁ : e₁.ended = false := (body_ended hbody).trans hended
      rw [Option.bind_some, Option.bind_some]
      by_cases hi₁ : e₁.i < e₁.commandBuffer.length
      · rw [if_pos hi₁, Option.map_some, Option.bind_some]
        refine ih (pressed ++ [some k]) hended₁ hi₁ fun k => ?_
        rw [commandSystem]
        dsimp only
        rw [hended₁, if_neg Bool.false_ne_true]
      · have hnone : e₁.terminate = none := by
          rw [terminate, StrUtil.store_of_ge (Nat.not_lt.1 hi₁), Option.map_none]
        obtain ⟨c, rest, hrest⟩ := exists_cons_of_ne_nil
          (append_ne_nil_of_right_ne_nil (keys.map fun k => Key.code (some k)) (cons_ne_nil 13 []))
        rw [hrest, loop, if_neg hi₁, if_neg hi₁, hnone]
        rfl

end Editing

/-! ## Over the keys of a line -/

section Runs

variable {start : Console} {commandBuffer : List UInt8}

theorem getCommand_eq (hbuf : 1 ≤ commandBuffer.length) (keys : List Key) :
    GetCommand start commandBuffer (keys.map (fun k => Key.code (some k)) ++ [13]) =
      ((commandSystem start commandBuffer).exec (⟨start, commandBuffer, 0, false⟩, []) (keys.map some ++ [none])).map
        fun p => (p.1.console, p.1.commandBuffer) := by
  have hloop := Editing.loop_eq_exec (e := ⟨start, commandBuffer, 0, false⟩) start commandBuffer [] keys rfl hbuf
  rw [GetCommand, hloop, Option.map_map]
  rfl

variable {p : Editing × List (Option Key)}

variable {p' : Editing × List (Option Key)} {keys : List (Option Key)}

theorem exec_pressed
    (h : (commandSystem start commandBuffer).exec p keys = some p') : p'.2 = p.2 ++ keys := by
  induction keys generalizing p with
  | nil =>
    cases h
    exact (append_nil _).symm
  | cons k keys ih =>
    rw [StepSystem.exec_cons] at h
    obtain ⟨q, hq, hrest⟩ := Option.bind_eq_some_iff.1 h
    obtain ⟨-, hq⟩ := Option.ite_none_left_eq_some.1 hq
    obtain ⟨e, -, rfl⟩ := Option.map_eq_some_iff.1 hq
    rw [ih hrest, append_assoc, singleton_append]

theorem lineOf_concat (pressed : List (Option Key)) (k : Option Key) :
    lineOf (pressed ++ [k]) = Key.apply (lineOf pressed) k := by
  rw [lineOf, foldl_append]
  rfl

def SuitsNext (p : Editing × List (Option Key)) (k : Option Key) : Prop := p.1.ended = false ∧ p.1.Suits k
  deriving Decidable

def Edited (start : Console) (p : Editing × List (Option Key)) : Prop :=
  p.1.Live start (lineOf p.2) ∨ (p.1.ended = true ∧ text p.1.commandBuffer = lineOf p.2)

def Shown (start : Console) (p : Editing × List (Option Key)) : Prop :=
  p.2 ≠ [] → Shows start p.1.console (lineOf p.2)

theorem edited_key_iff (h : Edited start p) (k : Option Key) :
    (((commandSystem start commandBuffer).step p k).isSome ∧
        ∀ p', (commandSystem start commandBuffer).step p k = some p' → Shown start p') ↔ SuitsNext p k := by
  have hstep : (commandSystem start commandBuffer).step p k =
      if p.1.ended then none else (p.1.key k).map fun e => (e, p.2 ++ [k]) := rfl
  rcases h with hlive | ⟨hended, -⟩
  · have hended := hlive.ended
    rw [hstep, hended, if_neg Bool.false_ne_true, SuitsNext, hended, and_iff_right rfl, ← hlive.key_right_iff k,
      Option.isSome_map]
    refine and_congr_right fun _ => ⟨fun hshown e' he' => ?_, fun hshows p' hp' _ => ?_⟩
    · have hshown := hshown (e', p.2 ++ [k]) (by rw [he', Option.map_some]) (by simp)
      rwa [lineOf_concat] at hshown
    · obtain ⟨e', he', rfl⟩ := Option.map_eq_some_iff.1 hp'
      rw [lineOf_concat]
      exact hshows e' he'
  · rw [hstep, hended, if_pos rfl, SuitsNext, hended]
    simp

theorem edited_next {k : Option Key} (h : Edited start p) (hsuits : SuitsNext p k)
    (hshown : Shown start p') (hstep : (commandSystem start commandBuffer).step p k = some p') : Edited start p' := by
  obtain ⟨-, hstep⟩ := Option.ite_none_left_eq_some.1 hstep
  obtain ⟨e', he', rfl⟩ := Option.map_eq_some_iff.1 hstep
  rcases h with hlive | ⟨hended, -⟩
  · have hshows := hshown (by simp)
    rw [lineOf_concat] at hshows
    rw [Edited, lineOf_concat]
    exact hlive.key_next he' hshows
  · exact absurd hsuits.1 (by rw [hended]; decide)

variable (hinside : Inside start) (hbuf : 1 ≤ commandBuffer.length)

include hinside hbuf

theorem shown_throughout_iff (keys : List (Option Key)) :
    ((∀ pressed, pressed <+: keys → ∀ p,
          (commandSystem start commandBuffer).exec (⟨start, commandBuffer, 0, false⟩, []) pressed = some p →
            Shown start p) ∧
        ((commandSystem start commandBuffer).exec (⟨start, commandBuffer, 0, false⟩, []) keys).isSome) ↔
      (commandSystem start commandBuffer).Meets SuitsNext (⟨start, commandBuffer, 0, false⟩, []) keys := by
  rw [← StepSystem.meets_isSome_iff]
  exact StepSystem.states_and_calls_iff_meets_while (Edited start)
    (fun _ _ _ h hs hg hstep => edited_next h hs hg hstep) (fun _ k h _ => edited_key_iff h k)
    (.inl (.init hinside hbuf)) fun h => absurd rfl h

theorem text_of_suits
    (hsuits : (commandSystem start commandBuffer).Meets SuitsNext (⟨start, commandBuffer, 0, false⟩, []) keys)
    (hexec : (commandSystem start commandBuffer).exec (⟨start, commandBuffer, 0, false⟩, []) keys = some p)
    (hended : p.1.ended = true) : text p.1.commandBuffer = lineOf p.2 := by
  have hreach := StepSystem.reachVia_exec keys (.init rfl) hsuits hexec
  have hedited : Edited start p := by
    refine hreach.invariant (Edited start) ?_ ?_
    · rintro _ rfl
      exact .inl (.init hinside hbuf)
    · intro q k q' hq hs hstep
      exact edited_next hq hs (((edited_key_iff hq k).2 hs).2 q' hstep) hstep
  rcases hedited with hlive | ⟨-, htext⟩
  · exact absurd hlive.ended (by rw [hended]; decide)
  · exact htext

/-- `GetCommand` is right for the keys exactly if each of them suits the state before it. -/
theorem commandRight_iff (keys : List Key) :
    CommandRight start commandBuffer keys ↔
      (commandSystem start commandBuffer).Meets SuitsNext (⟨start, commandBuffer, 0, false⟩, [])
        (keys.map some ++ [none]) := by
  rw [← shown_throughout_iff hinside hbuf]
  constructor
  · rintro ⟨⟨s, buf, hget, -⟩, hshows⟩
    rw [getCommand_eq hbuf] at hget
    obtain ⟨p, hp, -⟩ := Option.map_eq_some_iff.1 hget
    exact ⟨hshows, by rw [hp]; rfl⟩
  · intro h
    obtain ⟨p, hp⟩ := Option.isSome_iff_exists.1 h.2
    have hsuits := (shown_throughout_iff hinside hbuf _).1 h
    have hended : p.1.ended = true := by
      rw [StepSystem.exec_concat] at hp
      obtain ⟨q, -, hlast⟩ := Option.bind_eq_some_iff.1 hp
      obtain ⟨-, hlast⟩ := Option.ite_none_left_eq_some.1 hlast
      obtain ⟨e, he, rfl⟩ := Option.map_eq_some_iff.1 hlast
      exact Editing.terminate_ended he
    have htext := text_of_suits hinside hbuf hsuits hp hended
    rw [exec_pressed hp, List.nil_append, lineOf_concat] at htext
    refine ⟨⟨p.1.console, p.1.commandBuffer, ?_, htext⟩, h.1⟩
    rw [getCommand_eq hbuf, hp, Option.map_some]

end Runs

def blankScreen (x : Nat) : Console := ⟨15, .White, .Black, x, 0, fun _ => ⟨32, 15⟩, 0, 0⟩

/-- The line `ab`, with the `b` taken back. -/
theorem commandRight_iff_run :
    CommandRight (blankScreen 0) [0, 0, 0, 0] [.char 97 (by decide), .char 98 (by decide), .backspace] :=
  (commandRight_iff (by decide) (by decide) [.char 97 (by decide), .char 98 (by decide), .backspace]).2
    (by decide +kernel)

/-- A line that fills the buffer is terminated behind it. A character at the end of a row is still shown when it has
been taken back. -/
theorem full_buffer_and_row_end :
    GetCommand (blankScreen 0) [0] [97, 13] = none ∧ ¬ CommandRight (blankScreen 0) [0] [.char 97 (by decide)] ∧
      ¬ CommandRight (blankScreen 79) [0, 0, 0, 0] [.char 97 (by decide), .backspace] := by
  have hfull : (GetCommand (blankScreen 0) [0] [97, 13]).isNone := by decide +kernel
  have hrow : ((commandSystem (blankScreen 79) [0, 0, 0, 0]).exec (⟨blankScreen 79, [0, 0, 0, 0], 0, false⟩, [])
      [some (.char 97 (by decide)), some .backspace]).map
        (fun p => (p.2.isEmpty, scrolled (blankScreen 79) p.1.console, lineOf p.2, p.1.console.m_pVideoMemory 79)) =
      some (false, 0, [], ⟨97, 15⟩) := by
    decide +kernel
  refine ⟨Option.isNone_iff_eq_none.1 hfull, ?_, ?_⟩
  · rintro ⟨⟨s, buf, hget, -⟩, -⟩
    have hget : GetCommand (blankScreen 0) [0] [97, 13] = some (s, buf) := hget
    rw [hget] at hfull
    cases hfull
  · rintro ⟨-, hshows⟩
    obtain ⟨p, hp, hobserved⟩ := Option.map_eq_some_iff.1 hrow
    have hpressed := congrArg Prod.fst hobserved
    have hscrolled := congrArg (fun o => o.2.1) hobserved
    have hline := congrArg (fun o => o.2.2.1) hobserved
    have hcell := congrArg (fun o => o.2.2.2) hobserved
    dsimp only at hpressed hscrolled hline hcell
    have hshown := hshows [some (.char 97 (by decide)), some .backspace] ⟨[none], rfl⟩ p hp
      (fun hnil => by rw [hnil] at hpressed; cases hpressed)
    have hblank := hshown.blank
    rw [hscrolled, hline] at hblank
    have hplace : place (blankScreen 79) + ([] : List UInt8).length - 0 = 79 := rfl
    rw [hplace, hcell] at hblank
    exact absurd hblank (by decide)

end SkyConsole
