import Mathlib.Algebra.GroupWithZero.Nat
import Mathlib.Data.Fintype.EquivFin
import Mathlib.Tactic.Common
import SkyOS.Lib.StepSystem

/-!
# The sheet stack (`SkyOS/SkySheet.cpp`, `SkyOS/SkySheetController.cpp`)

`m_pSheets[0 .. m_sheetTop]` are the displayed sheets from back to front, and each keeps its position in `m_height`.
`UpdateSheets` shifts the array when a sheet goes up, goes down, appears or disappears. `Updown` lets the height be
one more than the top, which is right for a sheet that appears. A displayed sheet sent there leaves the stack, as the
top stays where it is (`Fits`).

| here | there |
| --- | --- |
| `Fin MAX_SHEETS` | a pointer into `sheets0` |
| `none` from a step | a null pointer is followed, or an access is outside `m_pSheets` |

What is drawn (`RefreshMap`, `RefreshSub`) is left out: it reads the stack and writes the map and the screen.
-/

namespace Gui

def MAX_SHEETS : Nat := 256

instance : NeZero MAX_SHEETS := ⟨by decide⟩

def SHEET_USE : Nat := 1

/-- `SkySheet` (`SkySheet.h:5`), without what is only drawn. -/
structure SkySheet where
  m_vx0 : Int
  m_vy0 : Int
  m_height : Int
  m_flags : Nat
  deriving DecidableEq

/-- `SkySheetController` (`SkySheetController.h:8`). Only `m_pSheets[0 .. MAX_SHEETS - 1]` is part of it. -/
structure SkySheetController where
  m_sheetTop : Int
  m_pSheets : Int → Option (Fin MAX_SHEETS)
  sheets0 : Fin MAX_SHEETS → SkySheet

namespace SkySheetController

/-- An index of `m_pSheets`. -/
def InArray (h : Int) : Prop := 0 ≤ h ∧ h < MAX_SHEETS
  deriving Decidable

/-- Write an entry of `m_pSheets`. -/
def put (c : SkySheetController) (h : Int) (sheet : Fin MAX_SHEETS) : SkySheetController :=
  { c with m_pSheets := Function.update c.m_pSheets h (some sheet) }

/-- `sheet->m_height = h`. -/
def setHeight (c : SkySheetController) (sheet : Fin MAX_SHEETS) (h : Int) : SkySheetController :=
  { c with sheets0 := Function.update c.sheets0 sheet { c.sheets0 sheet with m_height := h } }

/-- `m_pSheets[h] = sheet` -/
def write (c : SkySheetController) (h : Int) (sheet : Fin MAX_SHEETS) : Option SkySheetController :=
  if InArray h then some (c.put h sheet) else none

/-- `m_pSheets[h] = m_pSheets[h0]; m_pSheets[h]->m_height = h`, after a check for null or without one. -/
def move (guarded : Bool) (c : SkySheetController) (h h0 : Int) : Option SkySheetController :=
  if InArray h0 then
    match c.m_pSheets h0 with
    | some sheet => (c.write h sheet).map fun c => c.setHeight sheet h
    | none => if guarded then some c else none
  else none

/-- The loops that go down (:74, :120): `n` entries from `height` on move one up. -/
def shiftUp (guarded : Bool) (c : SkySheetController) (height : Int) : Nat → Option SkySheetController
  | 0 => some c
  | n + 1 => (c.move guarded (height + n + 1) (height + n)).bind fun c => shiftUp guarded c height n

/-- The loops that go up (:88, :105): `n` entries after `old` move one down. -/
def shiftDown (guarded : Bool) (c : SkySheetController) (old : Int) : Nat → Option SkySheetController
  | 0 => some c
  | n + 1 => (c.move guarded old (old + 1)).bind fun c => shiftDown guarded c (old + 1) n

/-- `UpdateSheets` (:64). -/
def UpdateSheets (c : SkySheetController) (old height : Int) (sheet : Fin MAX_SHEETS) : Option SkySheetController :=
  if height ≥ MAX_SHEETS then some c
  else if old > height then
    if height ≥ 0 then
      (shiftUp false c height (old - height).toNat).bind fun c => c.write height sheet
    else
      (if c.m_sheetTop > old then shiftDown false c old (c.m_sheetTop - old).toNat else some c).map fun c =>
        { c with m_sheetTop := c.m_sheetTop - 1 }
  else if old < height then
    if old ≥ 0 then
      (shiftDown true c old (height - old).toNat).bind fun c => c.write height sheet
    else
      -- the loop variable of the source is the index the entry leaves
      (shiftUp true c height (c.m_sheetTop + 1 - height).toNat).bind fun c =>
        (c.write height sheet).map fun c => { c with m_sheetTop := c.m_sheetTop + 1 }
  else some c

/-- The height `Updown` settles on (`SkySheet.cpp:50`). -/
def clamp (c : SkySheetController) (height : Int) : Int :=
  let height := if height > c.m_sheetTop + 1 then c.m_sheetTop + 1 else height
  if height < -1 then -1 else height

/-- `Updown` (`SkySheet.cpp:42`). -/
def Updown (c : SkySheetController) (sheet : Fin MAX_SHEETS) (height : Int) : Option SkySheetController :=
  let old := (c.sheets0 sheet).m_height
  let height := c.clamp height
  (c.setHeight sheet height).UpdateSheets old height sheet

/-- `Slide` (`SkySheet.cpp:73`). -/
def Slide (c : SkySheetController) (sheet : Fin MAX_SHEETS) (vx0 vy0 : Int) : SkySheetController :=
  { c with sheets0 := Function.update c.sheets0 sheet { c.sheets0 sheet with m_vx0 := vx0, m_vy0 := vy0 } }

/-- `sheet->m_flags = flags` -/
def setFlags (c : SkySheetController) (sheet : Fin MAX_SHEETS) (flags : Nat) : SkySheetController :=
  { c with sheets0 := Function.update c.sheets0 sheet { c.sheets0 sheet with m_flags := flags } }

/-- `Free` (`SkySheet.cpp:91`). -/
def Free (c : SkySheetController) (sheet : Fin MAX_SHEETS) : Option SkySheetController :=
  (if (c.sheets0 sheet).m_height ≥ 0 then c.Updown sheet (-1) else some c).map fun c => c.setFlags sheet 0

/-- `Alloc` (:14): the sheet, if one is left. -/
def Alloc (c : SkySheetController) : Option (Fin MAX_SHEETS) × SkySheetController :=
  match (List.finRange MAX_SHEETS).find? fun i => (c.sheets0 i).m_flags = 0 with
  | some sheet => (some sheet, (c.setFlags sheet SHEET_USE).setHeight sheet (-1))
  | none => (none, c)

/-- A sheet handed out by `Alloc` and not freed. -/
def Allocated (c : SkySheetController) (sheet : Fin MAX_SHEETS) : Prop := (c.sheets0 sheet).m_flags ≠ 0
  deriving Decidable

end SkySheetController

/-! ## Runs -/

inductive Call where
  | alloc
  | updown (sheet : Fin MAX_SHEETS) (height : Int)
  | slide (sheet : Fin MAX_SHEETS) (vx0 vy0 : Int)
  | free (sheet : Fin MAX_SHEETS)

namespace Call

def sheet? : Call → Option (Fin MAX_SHEETS)
  | alloc => none
  | updown sheet _ | slide sheet _ _ | free sheet => some sheet

def run (c : SkySheetController) : Call → Option SkySheetController
  | alloc => some c.Alloc.2
  | updown sheet height => c.Updown sheet height
  | slide sheet vx0 vy0 => some (c.Slide sheet vx0 vy0)
  | free sheet => c.Free sheet

def OnAllocated (c : SkySheetController) (call : Call) : Prop := call.sheet?.elim True c.Allocated
  deriving Decidable

end Call

open SkySheetController

def system : StepSystem SkySheetController Call where
  init c := c.m_sheetTop = -1 ∧ (∀ h, c.m_pSheets h = none) ∧ ∀ sheet, c.Allocated sheet → (c.sheets0 sheet).m_height = -1
  step c call := if call.OnAllocated c then call.run c else none

namespace SkySheetController

/-! ## The stack -/

/-- The entries up to the top are the displayed sheets, each at its height, and no other sheet is displayed. -/
structure Right (c : SkySheetController) : Prop where
  top : -1 ≤ c.m_sheetTop ∧ c.m_sheetTop < MAX_SHEETS
  entry : ∀ h, 0 ≤ h → h ≤ c.m_sheetTop →
    ∃ sheet, c.m_pSheets h = some sheet ∧ c.Allocated sheet ∧ (c.sheets0 sheet).m_height = h
  sheet : ∀ sheet, c.Allocated sheet → (c.sheets0 sheet).m_height = -1 ∨
    (0 ≤ (c.sheets0 sheet).m_height ∧ (c.sheets0 sheet).m_height ≤ c.m_sheetTop ∧
      c.m_pSheets (c.sheets0 sheet).m_height = some sheet)

/-! ## The shifts -/

/-- The entries at the positions in `P`, and the heights of the sheets there, have moved by `d`. -/
structure Moved (c c' : SkySheetController) (P : Int → Prop) (d : Int) : Prop where
  top : c'.m_sheetTop = c.m_sheetTop
  flags : ∀ sheet, (c'.sheets0 sheet).m_flags = (c.sheets0 sheet).m_flags
  entry : ∀ h, P h → c'.m_pSheets (h + d) = c.m_pSheets h
  entry_kept : ∀ h, ¬ P (h - d) → c'.m_pSheets h = c.m_pSheets h
  height : ∀ sheet, P (c.sheets0 sheet).m_height → c.m_pSheets (c.sheets0 sheet).m_height = some sheet →
    (c'.sheets0 sheet).m_height = (c.sheets0 sheet).m_height + d
  height_kept : ∀ sheet, ¬ (P (c.sheets0 sheet).m_height ∧ c.m_pSheets (c.sheets0 sheet).m_height = some sheet) →
    (c'.sheets0 sheet).m_height = (c.sheets0 sheet).m_height

section

variable (c : SkySheetController)
include c

@[simp] theorem put_m_sheetTop (h : Int) (sheet : Fin MAX_SHEETS) :
    (c.put h sheet).m_sheetTop = c.m_sheetTop := rfl

@[simp] theorem put_sheets0 (h : Int) (sheet : Fin MAX_SHEETS) :
    (c.put h sheet).sheets0 = c.sheets0 := rfl

theorem put_self (h : Int) (sheet : Fin MAX_SHEETS) :
    (c.put h sheet).m_pSheets h = some sheet := Function.update_self ..

theorem put_of_ne {h h' : Int} (sheet : Fin MAX_SHEETS) (hne : h' ≠ h) :
    (c.put h sheet).m_pSheets h' = c.m_pSheets h' := Function.update_of_ne hne ..

@[simp] theorem setHeight_m_sheetTop (sheet : Fin MAX_SHEETS) (h : Int) :
    (c.setHeight sheet h).m_sheetTop = c.m_sheetTop := rfl

@[simp] theorem setHeight_m_pSheets (sheet : Fin MAX_SHEETS) (h : Int) :
    (c.setHeight sheet h).m_pSheets = c.m_pSheets := rfl

@[simp] theorem setHeight_m_flags (sheet s : Fin MAX_SHEETS) (h : Int) :
    ((c.setHeight sheet h).sheets0 s).m_flags = (c.sheets0 s).m_flags := by
  by_cases hs : s = sheet
  · subst hs
    simp [setHeight]
  · simp [setHeight, hs]

theorem setHeight_self (sheet : Fin MAX_SHEETS) (h : Int) :
    ((c.setHeight sheet h).sheets0 sheet).m_height = h := by
  simp [setHeight]

end

variable {sheet : Fin MAX_SHEETS} {P : Int → Prop} {c c₁ c' : SkySheetController} {d height : Int}

theorem setHeight_of_ne (c : SkySheetController) {s : Fin MAX_SHEETS} (h : Int) (hne : s ≠ sheet) :
    (c.setHeight sheet h).sheets0 s = c.sheets0 s := Function.update_of_ne hne ..

theorem setHeight_m_height (c : SkySheetController) (sheet : Fin MAX_SHEETS) :
    c.setHeight sheet (c.sheets0 sheet).m_height = c := by
  simp [setHeight]

namespace Moved

theorem refl (c : SkySheetController) (d : Int) (hP : ∀ h, ¬ P h) : Moved c c P d where
  top := rfl
  flags _ := rfl
  entry h hin := absurd hin (hP h)
  entry_kept _ _ := rfl
  height _ hin := absurd hin (hP _)
  height_kept _ _ := rfl

theorem trans {Q R : Int → Prop} (h : Moved c c₁ P d)
    (h' : Moved c₁ c' Q d) (hd : ∀ h, P h → ¬ Q (h + d)) (hPQ : ∀ h, P h → ¬ Q h) (hR : ∀ h, R h ↔ P h ∨ Q h) :
    Moved c c' R d where
  top := h'.top.trans h.top
  flags sheet := (h'.flags sheet).trans (h.flags sheet)
  entry i hin := by
    rcases (hR i).1 hin with hin | hin
    · have hout : ¬ Q (i + d - d) := by
        rw [Int.add_sub_cancel]
        exact hPQ i hin
      rw [h'.entry_kept _ hout, h.entry i hin]
    · have hout : ¬ P (i - d) := by
        intro hP
        have := hd _ hP
        rw [Int.sub_add_cancel] at this
        exact this hin
      rw [h'.entry i hin, h.entry_kept i hout]
  entry_kept i hout := by
    rw [hR, not_or] at hout
    rw [h'.entry_kept i hout.2, h.entry_kept i hout.1]
  height sheet hin hat := by
    rcases (hR _).1 hin with hin | hin
    · have hmoved := h.height sheet hin hat
      rw [h'.height_kept sheet, hmoved]
      rintro ⟨hQ, -⟩
      rw [hmoved] at hQ
      exact hd _ hin hQ
    · have hkept := h.height_kept sheet fun hP => hPQ _ hP.1 hin
      have hout : ¬ P ((c.sheets0 sheet).m_height - d) := by
        intro hP
        have := hd _ hP
        rw [Int.sub_add_cancel] at this
        exact this hin
      rw [h'.height sheet (by rwa [hkept]) (by rw [hkept, h.entry_kept _ hout, hat]), hkept]
  height_kept sheet hout := by
    have hkept := h.height_kept sheet fun hP => hout ⟨(hR _).2 (.inl hP.1), hP.2⟩
    rw [h'.height_kept sheet, hkept]
    rintro ⟨hQ, hat⟩
    rw [hkept] at hQ hat
    have hnot : ¬ P ((c.sheets0 sheet).m_height - d) := by
      intro hP
      have := hd _ hP
      rw [Int.sub_add_cancel] at this
      exact this hQ
    rw [h.entry_kept _ hnot] at hat
    exact hout ⟨(hR _).2 (.inr hQ), hat⟩

end Moved

theorem move_spec (guarded : Bool) {h : Int}
    (hin : InArray h) (hto : InArray (h + d)) (hentry : c.m_pSheets h = some sheet)
    (hheight : (c.sheets0 sheet).m_height = h) :
    ∃ c', c.move guarded (h + d) h = some c' ∧ Moved c c' (· = h) d := by
  refine ⟨(c.put (h + d) sheet).setHeight sheet (h + d), ?_, rfl, ?_, ?_, ?_, ?_, ?_⟩
  · simp [move, hin, hentry, write, hto]
  · intro s
    simp
  · rintro i rfl
    simp [put_self, hentry]
  · intro i hne
    simp only [setHeight_m_pSheets]
    exact put_of_ne c sheet (by omega)
  · intro s hat hs
    have heq : s = sheet := by
      rw [hat, hentry] at hs
      exact (Option.some.inj hs).symm
    subst heq
    rw [setHeight_self, hheight]
  · intro s hne
    have hs : s ≠ sheet := by
      rintro rfl
      exact hne ⟨hheight, by rw [hheight, hentry]⟩
    rw [setHeight_of_ne _ _ hs, put_sheets0]

/-- Sheets at their heights, from `lo` up to `hi`. -/
def Entries (c : SkySheetController) (lo hi : Int) : Prop :=
  ∀ h, lo ≤ h → h < hi → ∃ sheet, c.m_pSheets h = some sheet ∧ (c.sheets0 sheet).m_height = h

theorem Moved.entries {lo hi : Int} (h : Moved c c' P d)
    (hent : c.Entries lo hi) (hout : ∀ i, lo ≤ i → i < hi → ¬ P i ∧ ¬ P (i - d)) : c'.Entries lo hi := by
  intro i hlo hhi
  obtain ⟨sheet, hat, hheight⟩ := hent i hlo hhi
  refine ⟨sheet, ?_, ?_⟩
  · rw [h.entry_kept i (hout i hlo hhi).2, hat]
  · rw [h.height_kept sheet, hheight]
    rw [hheight]
    exact fun hP => (hout i hlo hhi).1 hP.1

theorem shiftUp_spec (guarded : Bool) (n : Nat) : ∀ {c : SkySheetController} {height : Int}, 0 ≤ height →
    height + n < MAX_SHEETS → c.Entries height (height + n) →
    ∃ c', c.shiftUp guarded height n = some c' ∧ Moved c c' (fun h => height ≤ h ∧ h < height + n) 1 := by
  induction n with
  | zero =>
    intro c height _ _ _
    exact ⟨c, rfl, .refl c 1 (by omega)⟩
  | succ n ih =>
    intro c height h0 hlt hent
    obtain ⟨sheet, hat, hheight⟩ := hent (height + n) (by omega) (by omega)
    obtain ⟨c₁, hmove, hm⟩ := move_spec guarded (d := 1) ⟨by omega, by omega⟩ ⟨by omega, by omega⟩
      hat hheight
    have hent₁ : c₁.Entries height (height + n) :=
      hm.entries (fun i hlo hhi => hent i hlo (by omega)) (by omega)
    obtain ⟨c', hrest, hm'⟩ := ih h0 (by omega) hent₁
    refine ⟨c', ?_, hm.trans hm' (by omega) (by omega) (by omega)⟩
    rw [shiftUp, hmove]
    exact hrest

theorem shiftDown_spec (guarded : Bool) (n : Nat) : ∀ {c : SkySheetController} {old : Int}, 0 ≤ old →
    old + n < MAX_SHEETS → c.Entries (old + 1) (old + 1 + n) →
    ∃ c', c.shiftDown guarded old n = some c' ∧ Moved c c' (fun h => old < h ∧ h ≤ old + n) (-1) := by
  induction n with
  | zero =>
    intro c old _ _ _
    exact ⟨c, rfl, .refl c (-1) (by omega)⟩
  | succ n ih =>
    intro c old h0 hlt hent
    obtain ⟨sheet, hat, hheight⟩ := hent (old + 1) (by omega) (by omega)
    have hback : old + 1 + -1 = old := by omega
    obtain ⟨c₁, hmove, hm⟩ := move_spec guarded (d := -1) (h := old + 1) ⟨by omega, by omega⟩
      ⟨by omega, by omega⟩ hat hheight
    rw [hback] at hmove
    have hent₁ : c₁.Entries (old + 1 + 1) (old + 1 + 1 + n) :=
      hm.entries (fun i hlo hhi => hent i (by omega) (by omega)) (by omega)
    obtain ⟨c', hrest, hm'⟩ := ih (by omega) (by omega) hent₁
    refine ⟨c', ?_, hm.trans hm' (by omega) (by omega) (by omega)⟩
    rw [shiftDown, hmove]
    exact hrest

/-- With the check for null the loop is defined on any entries, and leaves alone a sheet that is not one of them. -/
theorem shiftDown_guarded (n : Nat) : ∀ (c : SkySheetController) {old : Int}, 0 ≤ old → old + n < MAX_SHEETS →
    ∃ c', c.shiftDown true old n = some c' ∧ c'.m_sheetTop = c.m_sheetTop ∧
      (∀ sheet, (c'.sheets0 sheet).m_flags = (c.sheets0 sheet).m_flags) ∧
      ∀ sheet, (∀ h, old < h → h ≤ old + n → c.m_pSheets h ≠ some sheet) →
        (c'.sheets0 sheet).m_height = (c.sheets0 sheet).m_height := by
  induction n with
  | zero =>
    intro c old _ _
    exact ⟨c, rfl, rfl, fun _ => rfl, fun _ _ => rfl⟩
  | succ n ih =>
    intro c old h0 hlt
    have hin : InArray (old + 1) := ⟨by omega, by omega⟩
    have hto : InArray old := ⟨by omega, by omega⟩
    rw [shiftDown]
    cases hat : c.m_pSheets (old + 1) with
    | none =>
      obtain ⟨c', hrest, htop, hflags, hheight⟩ := ih c (by omega : 0 ≤ old + 1) (by omega)
      refine ⟨c', ?_, htop, hflags, fun sheet hnot => hheight sheet fun h hlo hhi => hnot h (by omega) (by omega)⟩
      simpa [move, hin, hat] using hrest
    | some moved =>
      obtain ⟨c', hrest, htop, hflags, hheight⟩ := ih ((c.put old moved).setHeight moved old) (by omega : 0 ≤ old + 1)
        (by omega)
      refine ⟨c', ?_, htop, fun sheet => (hflags sheet).trans (by simp), fun sheet hnot => ?_⟩
      · simpa [move, hin, hat, write, hto] using hrest
      · have hne : sheet ≠ moved := by
          rintro rfl
          exact hnot (old + 1) (by omega) (by omega) hat
        rw [hheight sheet, setHeight_of_ne _ _ hne, put_sheets0]
        intro h hlo hhi
        rw [setHeight_m_pSheets, put_of_ne c moved (by omega)]
        exact hnot h (by omega) (by omega)

/-! ## One call -/

/-- Where a shift takes the entry at `h`. -/
def shifted (P : Int → Prop) [DecidablePred P] (d h : Int) : Int := if P h then h + d else h

/-- The stack after `sheet` has got a new height, the entries in `P` have moved, and perhaps an entry has been written
that no other sheet is at. -/
theorem Right.of_moved (h : c.Right) (hs : c.Allocated sheet) [DecidablePred P]
    (hm : Moved (c.setHeight sheet height) c₁ P d)
    (hsheets : c'.sheets0 = c₁.sheets0) (htop : -1 ≤ c'.m_sheetTop ∧ c'.m_sheetTop < MAX_SHEETS) (hneg : ¬ P (-1))
    (hother : ∀ i, 0 ≤ i → i ≤ c.m_sheetTop → i ≠ (c.sheets0 sheet).m_height → (¬ P i → ¬ P (i - d)) ∧
      c'.m_pSheets (shifted P d i) = c₁.m_pSheets (shifted P d i) ∧ 0 ≤ shifted P d i ∧ shifted P d i ≤ c'.m_sheetTop)
    (hmoved : (c'.sheets0 sheet).m_height = -1 ∨ (0 ≤ (c'.sheets0 sheet).m_height ∧
      (c'.sheets0 sheet).m_height ≤ c'.m_sheetTop ∧ c'.m_pSheets (c'.sheets0 sheet).m_height = some sheet))
    (honto : ∀ h', 0 ≤ h' → h' ≤ c'.m_sheetTop → h' = (c'.sheets0 sheet).m_height ∨
      ∃ h, 0 ≤ h ∧ h ≤ c.m_sheetTop ∧ h ≠ (c.sheets0 sheet).m_height ∧ shifted P d h = h') : c'.Right := by
  have hflags : ∀ s, (c'.sheets0 s).m_flags = (c.sheets0 s).m_flags := by
    intro s
    rw [hsheets, hm.flags, setHeight_m_flags]
  -- another sheet is found where the shift has taken it
  have hshown : ∀ s i, s ≠ sheet → 0 ≤ i → i ≤ c.m_sheetTop → (c.sheets0 s).m_height = i →
      c.m_pSheets i = some s → i ≠ (c.sheets0 sheet).m_height →
      (c'.sheets0 s).m_height = shifted P d i ∧ c'.m_pSheets (shifted P d i) = some s := by
    intro s i hne hi0 hile hheight hat hi
    obtain ⟨hstay, hput, -, -⟩ := hother i hi0 hile hi
    rw [hsheets, hput]
    have hkept := setHeight_of_ne c height hne
    unfold shifted
    split
    · rename_i hin
      rw [hm.entry i hin, setHeight_m_pSheets]
      refine ⟨?_, hat⟩
      rw [hm.height s] <;> rw [hkept, hheight]
      · exact hin
      · exact hat
    · rename_i hout
      rw [hm.entry_kept i (hstay hout), setHeight_m_pSheets]
      refine ⟨?_, hat⟩
      rw [hm.height_kept s] <;> rw [hkept, hheight]
      exact fun hP => hout hP.1
  refine ⟨htop, ?_, ?_⟩
  · intro h' h0 hle
    rcases honto h' h0 hle with rfl | ⟨i, hi0, hile, hne, rfl⟩
    · rcases hmoved with hmoved | ⟨-, -, hat⟩
      · omega
      · refine ⟨sheet, hat, ?_, rfl⟩
        rwa [Allocated, hflags]
    · obtain ⟨s, hat, hs, hheight⟩ := h.entry i hi0 hile
      have hss : s ≠ sheet := by
        rintro rfl
        exact hne hheight.symm
      obtain ⟨hheight', hat'⟩ := hshown s i hss hi0 hile hheight hat hne
      refine ⟨s, hat', ?_, hheight'⟩
      rwa [Allocated, hflags]
  · intro s hs'
    by_cases hss : s = sheet
    · subst hss
      exact hmoved
    rw [Allocated, hflags] at hs'
    rcases h.sheet s hs' with hheight | ⟨h0, hle, hat⟩
    · left
      rw [hsheets, hm.height_kept s] <;> rw [setHeight_of_ne _ _ hss, hheight]
      exact fun hP => hneg hP.1
    · right
      have hne : (c.sheets0 s).m_height ≠ (c.sheets0 sheet).m_height := by
        intro heq
        rcases h.sheet sheet hs with hheight | ⟨-, -, hat'⟩
        · omega
        · rw [heq, hat'] at hat
          exact hss (Option.some.inj hat).symm
      obtain ⟨hheight', hat'⟩ := hshown s _ hss h0 hle rfl hat hne
      obtain ⟨-, -, hf0, hfle⟩ := hother _ h0 hle hne
      rw [hheight']
      exact ⟨hf0, hfle, hat'⟩

def Others (c c' : SkySheetController) (sheet : Fin MAX_SHEETS) (P : Int → Prop) [DecidablePred P] (d : Int) : Prop :=
  ∀ t, t ≠ sheet → c.Allocated t → (c'.sheets0 t).m_height = shifted P d (c.sheets0 t).m_height

theorem Right.others (h : c.Right) [DecidablePred P] (hm : Moved (c.setHeight sheet height) c₁ P d)
    (hsheets : c'.sheets0 = c₁.sheets0) (hneg : ¬ P (-1)) : Others c c' sheet P d := by
  intro t hne ht
  rw [hsheets]
  have hsame := setHeight_of_ne c height hne
  unfold shifted
  split
  · rename_i hin
    rw [hm.height t] <;> rw [hsame]
    · exact hin
    · rcases h.sheet t ht with hhidden | ⟨-, -, hat⟩
      · rw [hhidden] at hin
        exact absurd hin hneg
      · exact hat
  · rename_i hout
    rw [hm.height_kept t, hsame]
    rw [hsame]
    exact fun hP => hout hP.1

theorem Right.entries (h : c.Right) (sheet : Fin MAX_SHEETS) (height lo hi : Int) (h0 : 0 ≤ lo)
    (hhi : hi ≤ c.m_sheetTop + 1) (hout : (c.sheets0 sheet).m_height < lo ∨ hi ≤ (c.sheets0 sheet).m_height) :
    (c.setHeight sheet height).Entries lo hi := by
  intro i hlo hlt
  obtain ⟨s, hat, -, hheight⟩ := h.entry i (by omega) (by omega)
  have hne : s ≠ sheet := by
    rintro rfl
    omega
  exact ⟨s, hat, by rw [setHeight_of_ne _ _ hne, hheight]⟩

theorem Right.room {c : SkySheetController} (h : c.Right) {sheet : Fin MAX_SHEETS}
    (hheight : (c.sheets0 sheet).m_height < 0) : c.m_sheetTop + 1 < MAX_SHEETS := by
  by_contra hfull
  have hent : ∀ i : Fin MAX_SHEETS, ∃ s, (c.sheets0 s).m_height = i := by
    intro i
    obtain ⟨s, -, -, hs⟩ := h.entry i (by omega) (by omega)
    exact ⟨s, hs⟩
  choose at_ hat using hent
  have hinj : Function.Injective at_ := by
    intro i j hij
    have hi := hat i
    rw [hij, hat j] at hi
    omega
  obtain ⟨i, hi⟩ := (Finite.injective_iff_surjective.1 hinj) sheet
  have := hat i
  rw [hi] at this
  omega

theorem Right.height_sheet
    (hm : Moved (c.setHeight sheet height) c₁ P d) (hout : P height → c.m_pSheets height ≠ some sheet) :
    (c₁.sheets0 sheet).m_height = height := by
  rw [hm.height_kept sheet, setHeight_self]
  rw [setHeight_self, setHeight_m_pSheets]
  exact fun hP => hout hP.1 hP.2

theorem Right.entry_ne (h : c.Right) (h0 : 0 ≤ height)
    (hle : height ≤ c.m_sheetTop) (hne : height ≠ (c.sheets0 sheet).m_height) : c.m_pSheets height ≠ some sheet := by
  obtain ⟨s, hat, -, hheight⟩ := h.entry height h0 hle
  rw [hat]
  rintro heq
  cases heq
  exact hne hheight.symm

section

variable (h : c.Right) (hs : c.Allocated sheet)
include h hs

theorem Right.lower (h0 : 0 ≤ height) (hlt : height < (c.sheets0 sheet).m_height) :
    ∃ c', (c.setHeight sheet height).UpdateSheets (c.sheets0 sheet).m_height height sheet = some c' ∧ c'.Right ∧
      (c'.sheets0 sheet).m_height = height ∧
      Others c c' sheet (fun i => height ≤ i ∧ i < height + ((c.sheets0 sheet).m_height - height).toNat) 1 := by
  have htop := h.top
  obtain hneg | ⟨hold0, hold, -⟩ := h.sheet sheet hs
  · omega
  have hne : c.m_pSheets height ≠ some sheet := h.entry_ne h0 (by omega) (by omega)
  obtain ⟨c₁, hshift, hm⟩ := shiftUp_spec (c := c.setHeight sheet height) false
    ((c.sheets0 sheet).m_height - height).toNat h0 (by omega) (h.entries sheet height _ _ h0 (by omega) (by omega))
  have hnew := Right.height_sheet hm fun _ => hne
  refine ⟨c₁.put height sheet, ?_, h.of_moved hs hm rfl ?_ ?_ ?_ ?_ ?_, hnew, h.others hm rfl (by omega)⟩
  · have hin : InArray height := ⟨h0, by omega⟩
    rw [UpdateSheets, if_neg (by omega), if_pos (by omega), if_pos h0, hshift]
    exact if_pos hin
  · rw [put_m_sheetTop, hm.top]
    exact htop
  · omega
  · intro i hi0 hile hi
    rw [put_m_sheetTop, hm.top, setHeight_m_sheetTop, shifted]
    refine ⟨by omega, put_of_ne _ _ ?_, ?_, ?_⟩ <;> split <;> omega
  · right
    rw [put_sheets0, hnew, put_m_sheetTop, hm.top, setHeight_m_sheetTop]
    exact ⟨h0, by omega, put_self ..⟩
  · intro i hi0 hile
    rw [put_m_sheetTop, hm.top, setHeight_m_sheetTop] at hile
    rw [put_sheets0, hnew]
    by_cases hi : i = height
    · exact .inl hi
    · right
      by_cases hin : height < i ∧ i ≤ (c.sheets0 sheet).m_height
      · refine ⟨i - 1, by omega, by omega, by omega, ?_⟩
        rw [shifted, if_pos (by omega)]
        omega
      · refine ⟨i, hi0, hile, by omega, ?_⟩
        rw [shifted, if_neg (by omega)]

theorem Right.hide (hold : 0 ≤ (c.sheets0 sheet).m_height) :
    ∃ c', (c.setHeight sheet (-1)).UpdateSheets (c.sheets0 sheet).m_height (-1) sheet = some c' ∧ c'.Right ∧
      (c'.sheets0 sheet).m_height = -1 ∧ (∀ s, (c'.sheets0 s).m_flags = (c.sheets0 s).m_flags) ∧
      Others c c' sheet (fun i => (c.sheets0 sheet).m_height < i ∧
        i ≤ (c.sheets0 sheet).m_height + (c.m_sheetTop - (c.sheets0 sheet).m_height).toNat) (-1) := by
  have htop := h.top
  obtain hneg | ⟨-, hle, -⟩ := h.sheet sheet hs
  · omega
  obtain ⟨c₁, hshift, hm⟩ := shiftDown_spec (c := c.setHeight sheet (-1)) false
    (c.m_sheetTop - (c.sheets0 sheet).m_height).toNat hold (by omega)
    (h.entries sheet (-1) _ _ (by omega) (by omega) (by omega))
  have hnew := Right.height_sheet hm (by omega)
  refine ⟨{ c₁ with m_sheetTop := c₁.m_sheetTop - 1 }, ?_, h.of_moved hs hm rfl ?_ ?_ ?_ (.inl hnew) ?_, hnew, ?_,
    h.others hm rfl (by omega)⟩
  · rw [UpdateSheets, if_neg (by omega), if_pos (by omega), if_neg (by omega), setHeight_m_sheetTop]
    split
    · rw [hshift]
      rfl
    · rename_i hlast
      have hzero : (c.m_sheetTop - (c.sheets0 sheet).m_height).toNat = 0 := by omega
      rw [hzero, shiftDown] at hshift
      rw [hshift]
      rfl
  · dsimp only
    rw [hm.top, setHeight_m_sheetTop]
    omega
  · omega
  · intro i hi0 hile hi
    dsimp only
    rw [hm.top, setHeight_m_sheetTop, shifted]
    refine ⟨by omega, rfl, ?_, ?_⟩ <;> split <;> omega
  · intro i hi0 hile
    dsimp only at hile
    rw [hm.top, setHeight_m_sheetTop] at hile
    right
    by_cases hin : (c.sheets0 sheet).m_height ≤ i
    · refine ⟨i + 1, by omega, by omega, by omega, ?_⟩
      rw [shifted, if_pos (by omega)]
      omega
    · refine ⟨i, hi0, by omega, by omega, ?_⟩
      rw [shifted, if_neg (by omega)]
  · intro s
    exact (hm.flags s).trans (setHeight_m_flags ..)

/-- A displayed sheet goes up, not above the top, or to where an earlier entry for it is left: the sheets between go
down. -/
theorem Right.raise (hold : 0 ≤ (c.sheets0 sheet).m_height) (hlt : (c.sheets0 sheet).m_height < height)
    (hfits : height ≤ c.m_sheetTop ∨ (height = c.m_sheetTop + 1 ∧ height < MAX_SHEETS ∧ c.m_pSheets height = some sheet)) :
    ∃ c', (c.setHeight sheet height).UpdateSheets (c.sheets0 sheet).m_height height sheet = some c' ∧ c'.Right ∧
      (height ≤ c.m_sheetTop → (c'.sheets0 sheet).m_height = height) ∧
      Others c c' sheet (fun i => (c.sheets0 sheet).m_height < i ∧
        i ≤ (c.sheets0 sheet).m_height + (height - (c.sheets0 sheet).m_height).toNat) (-1) := by
  have htop := h.top
  have hent : (c.setHeight sheet height).Entries ((c.sheets0 sheet).m_height + 1) (height + 1) := by
    intro i hlo hhi
    by_cases hin : i ≤ c.m_sheetTop
    · exact h.entries sheet height ((c.sheets0 sheet).m_height + 1) (c.m_sheetTop + 1) (by omega) (by omega)
        (by omega) i hlo (by omega)
    · obtain ⟨rfl, hat⟩ : i = height ∧ c.m_pSheets height = some sheet := by
        rcases hfits with hle | ⟨rfl, -, hat⟩
        · omega
        · exact ⟨by omega, hat⟩
      exact ⟨sheet, hat, setHeight_self ..⟩
  have hn : (c.sheets0 sheet).m_height + 1 + ((height - (c.sheets0 sheet).m_height).toNat : Int) = height + 1 := by omega
  obtain ⟨c₁, hshift, hm⟩ := shiftDown_spec (c := c.setHeight sheet height) true
    (height - (c.sheets0 sheet).m_height).toNat hold (by omega) (by rwa [hn])
  have hin : InArray height := ⟨by omega, by omega⟩
  have hrun : (c.setHeight sheet height).UpdateSheets (c.sheets0 sheet).m_height height sheet =
      some (c₁.put height sheet) := by
    rw [UpdateSheets, if_neg (by omega), if_neg (by omega), if_pos hlt, if_pos hold, hshift]
    exact if_pos hin
  -- the height of the sheet in the end
  have hnew : (c₁.sheets0 sheet).m_height = height ∧ height ≤ c.m_sheetTop ∨
      (c₁.sheets0 sheet).m_height = c.m_sheetTop ∧ height = c.m_sheetTop + 1 ∧
        c₁.m_pSheets c.m_sheetTop = some sheet := by
    rcases hfits with hle | ⟨rfl, -, hat⟩
    · exact .inl ⟨Right.height_sheet hm fun _ => h.entry_ne (by omega) hle (by omega), hle⟩
    · right
      have hself := setHeight_self c sheet (c.m_sheetTop + 1)
      refine ⟨?_, rfl, ?_⟩
      · rw [hm.height sheet] <;> rw [hself]
        · omega
        · omega
        · exact hat
      · have hentry := hm.entry (c.m_sheetTop + 1) (by omega)
        rw [Int.add_neg_cancel_right, setHeight_m_pSheets, hat] at hentry
        exact hentry
  refine ⟨c₁.put height sheet, hrun, h.of_moved hs hm rfl ?_ ?_ ?_ ?_ ?_, ?_, h.others hm rfl (by omega)⟩
  · rw [put_m_sheetTop, hm.top]
    exact htop
  · omega
  · intro i hi0 hile hi
    rw [put_m_sheetTop, hm.top, setHeight_m_sheetTop, shifted]
    refine ⟨by omega, put_of_ne _ _ ?_, ?_, ?_⟩ <;> split <;> omega
  · right
    rw [put_sheets0, put_m_sheetTop, hm.top, setHeight_m_sheetTop]
    rcases hnew with ⟨hnew, hle⟩ | ⟨hnew, hheight, hat⟩
    · rw [hnew]
      exact ⟨by omega, hle, put_self ..⟩
    · rw [hnew, put_of_ne _ _ (by omega), hat]
      exact ⟨by omega, le_refl _, rfl⟩
  · intro i hi0 hile
    rw [put_m_sheetTop, hm.top, setHeight_m_sheetTop] at hile
    rw [put_sheets0]
    by_cases hi : i = (c₁.sheets0 sheet).m_height
    · exact .inl hi
    · right
      by_cases hbetween : (c.sheets0 sheet).m_height ≤ i ∧ i < height
      · refine ⟨i + 1, by omega, by omega, by omega, ?_⟩
        rw [shifted, if_pos (by omega)]
        omega
      · refine ⟨i, hi0, hile, by omega, ?_⟩
        rw [shifted, if_neg (by omega)]
  · intro hle
    rw [put_sheets0]
    rcases hnew with ⟨hnew, -⟩ | ⟨-, habove, -⟩
    · exact hnew
    · omega

theorem Right.show (hold : (c.sheets0 sheet).m_height < 0) (h0 : 0 ≤ height) (hle : height ≤ c.m_sheetTop + 1) :
    ∃ c', (c.setHeight sheet height).UpdateSheets (c.sheets0 sheet).m_height height sheet = some c' ∧ c'.Right ∧
      (c'.sheets0 sheet).m_height = height ∧
      Others c c' sheet (fun i => height ≤ i ∧ i < height + (c.m_sheetTop + 1 - height).toNat) 1 := by
  have hroom := h.room hold
  obtain ⟨c₁, hshift, hm⟩ := shiftUp_spec (c := c.setHeight sheet height) true (c.m_sheetTop + 1 - height).toNat h0
    (by omega) (h.entries sheet height _ _ h0 (by omega) (by omega))
  have hin : InArray height := ⟨h0, by omega⟩
  have hnew := Right.height_sheet hm fun hP => h.entry_ne h0 (by omega) (by omega)
  refine ⟨{ c₁.put height sheet with m_sheetTop := c₁.m_sheetTop + 1 }, ?_, h.of_moved hs hm rfl ?_ ?_ ?_ ?_ ?_, hnew,
    h.others hm rfl (by omega)⟩
  · rw [UpdateSheets, if_neg (by omega), if_neg (by omega), if_pos (by omega), if_neg (by omega),
      setHeight_m_sheetTop, hshift, Option.bind_some, write, if_pos hin]
    rfl
  · dsimp only
    rw [hm.top, setHeight_m_sheetTop]
    omega
  · omega
  · intro i hi0 hile hi
    dsimp only
    rw [hm.top, setHeight_m_sheetTop, shifted]
    refine ⟨by omega, put_of_ne _ _ ?_, ?_, ?_⟩ <;> split <;> omega
  · right
    dsimp only
    rw [put_sheets0, hnew, hm.top, setHeight_m_sheetTop]
    exact ⟨h0, by omega, put_self ..⟩
  · intro i hi0 hile
    dsimp only at hile
    rw [hm.top, setHeight_m_sheetTop] at hile
    rw [put_sheets0, hnew]
    by_cases hi : i = height
    · exact .inl hi
    · right
      by_cases habove : height < i
      · refine ⟨i - 1, by omega, by omega, by omega, ?_⟩
        rw [shifted, if_pos (by omega)]
        omega
      · refine ⟨i, hi0, by omega, by omega, ?_⟩
        rw [shifted, if_neg (by omega)]

/-- A displayed sheet is sent above the top, where no entry for it is left: it leaves the stack. -/
theorem Right.lost (hold : 0 ≤ (c.sheets0 sheet).m_height) (hnot : ¬ (c.m_sheetTop + 1 < MAX_SHEETS ∧
      c.m_pSheets (c.m_sheetTop + 1) = some sheet)) :
    ∃ c', (c.setHeight sheet (c.m_sheetTop + 1)).UpdateSheets (c.sheets0 sheet).m_height (c.m_sheetTop + 1) sheet =
      some c' ∧ ¬ c'.Right := by
  have hold' := (h.sheet sheet hs).resolve_left (by omega)
  -- the sheet is displayed, and not among the entries
  have hbad : ∀ c' : SkySheetController, c'.m_sheetTop = c.m_sheetTop →
      (c'.sheets0 sheet).m_flags = (c.sheets0 sheet).m_flags → (c'.sheets0 sheet).m_height = c.m_sheetTop + 1 →
      ¬ c'.Right := by
    intro c' htop' hflags hheight hright
    have hs' : c'.Allocated sheet := by rwa [Allocated, hflags]
    rcases hright.sheet sheet hs' with hneg | ⟨-, hle, -⟩ <;> omega
  by_cases hroom : c.m_sheetTop + 1 < MAX_SHEETS
  · have hat : c.m_pSheets (c.m_sheetTop + 1) ≠ some sheet := fun hat => hnot ⟨hroom, hat⟩
    obtain ⟨c₁, hshift, htop₁, hflags₁, hheight₁⟩ := shiftDown_guarded
      (c.m_sheetTop + 1 - (c.sheets0 sheet).m_height).toNat (c.setHeight sheet (c.m_sheetTop + 1)) hold (by omega)
    have hin : InArray (c.m_sheetTop + 1) := ⟨by omega, hroom⟩
    refine ⟨c₁.put (c.m_sheetTop + 1) sheet, ?_, hbad _ htop₁ ((hflags₁ sheet).trans (setHeight_m_flags ..)) ?_⟩
    · rw [UpdateSheets, if_neg (by omega), if_neg (by omega), if_pos (by omega), if_pos hold, hshift]
      exact if_pos hin
    · rw [put_sheets0, hheight₁ sheet, setHeight_self]
      intro i hlo hhi
      by_cases hi : i = c.m_sheetTop + 1
      · rwa [hi]
      · exact h.entry_ne (by omega) (by omega) (by omega)
  · refine ⟨c.setHeight sheet (c.m_sheetTop + 1), ?_, hbad _ rfl (setHeight_m_flags ..) (setHeight_self ..)⟩
    rw [UpdateSheets, if_pos (by omega)]

end

/-- A call keeps a displayed sheet in the stack: it is not raised above the top, unless an earlier entry for it is
still there. -/
def Fits (c : SkySheetController) : Call → Prop
  | .updown sheet height => (c.sheets0 sheet).m_height < 0 ∨ height ≤ c.m_sheetTop ∨
      (c.m_sheetTop + 1 < MAX_SHEETS ∧ c.m_pSheets (c.m_sheetTop + 1) = some sheet)
  | _ => True

instance (c : SkySheetController) : (call : Call) → Decidable (c.Fits call)
  | .updown _ _ => inferInstanceAs (Decidable (_ ∨ _ ∨ _))
  | .alloc => .isTrue trivial
  | .slide _ _ _ => .isTrue trivial
  | .free _ => .isTrue trivial

theorem clamp_eq (htop : -1 ≤ c.m_sheetTop) (height : Int) :
    c.clamp height = max (-1) (min height (c.m_sheetTop + 1)) := by
  unfold clamp
  dsimp only
  split <;> split <;> omega

theorem Right.updown (h : c.Right) (hs : c.Allocated sheet)
    (height : Int) : ∃ c', c.Updown sheet height = some c' ∧ (c'.Right ↔ c.Fits (.updown sheet height)) := by
  have htop := h.top
  unfold Updown
  dsimp only
  rw [clamp_eq htop.1, Fits]
  rcases h.sheet sheet hs with hold | ⟨hold, hle, -⟩
  · -- the sheet is not displayed
    by_cases h0 : 0 ≤ height
    · obtain ⟨c', hrun, hright, -⟩ := h.show hs (by omega) (by omega : 0 ≤ max (-1) (min height (c.m_sheetTop + 1)))
        (by omega)
      exact ⟨c', hrun, iff_of_true hright (.inl (by omega))⟩
    · have hnew : max (-1) (min height (c.m_sheetTop + 1)) = (c.sheets0 sheet).m_height := by omega
      rw [hnew, setHeight_m_height]
      refine ⟨c, ?_, iff_of_true h (.inl (by omega))⟩
      rw [UpdateSheets, if_neg (by omega), if_neg (by omega), if_neg (by omega)]
  · by_cases h0 : height < 0
    · have hnew : max (-1) (min height (c.m_sheetTop + 1)) = -1 := by omega
      rw [hnew]
      obtain ⟨c', hrun, hright, -, -⟩ := h.hide hs hold
      exact ⟨c', hrun, iff_of_true hright (.inr (.inl (by omega)))⟩
    by_cases hhigh : height ≤ c.m_sheetTop
    · have hnew : max (-1) (min height (c.m_sheetTop + 1)) = height := by omega
      rw [hnew]
      have hfits : (c.sheets0 sheet).m_height < 0 ∨ height ≤ c.m_sheetTop ∨
        (c.m_sheetTop + 1 < MAX_SHEETS ∧ c.m_pSheets (c.m_sheetTop + 1) = some sheet) := .inr (.inl hhigh)
      rcases lt_trichotomy height (c.sheets0 sheet).m_height with hlt | heq | hgt
      · obtain ⟨c', hrun, hright, -⟩ := h.lower hs (by omega) hlt
        exact ⟨c', hrun, iff_of_true hright hfits⟩
      · refine ⟨c, ?_, iff_of_true h hfits⟩
        rw [heq, setHeight_m_height, UpdateSheets, if_neg (by omega), if_neg (by omega), if_neg (by omega)]
      · obtain ⟨c', hrun, hright, -⟩ := h.raise hs hold hgt (.inl hhigh)
        exact ⟨c', hrun, iff_of_true hright hfits⟩
    · have hnew : max (-1) (min height (c.m_sheetTop + 1)) = c.m_sheetTop + 1 := by omega
      rw [hnew]
      by_cases hleft : c.m_sheetTop + 1 < MAX_SHEETS ∧ c.m_pSheets (c.m_sheetTop + 1) = some sheet
      · obtain ⟨c', hrun, hright, -⟩ := h.raise hs hold (by omega) (.inr ⟨rfl, hleft⟩)
        exact ⟨c', hrun, iff_of_true hright (.inr (.inr hleft))⟩
      · obtain ⟨c', hrun, hright⟩ := h.lost hs hold hleft
        refine ⟨c', hrun, iff_of_false hright ?_⟩
        rintro (hneg | hle' | hat)
        · omega
        · exact hhigh hle'
        · exact hleft hat

theorem Right.setFlags (h : c.Right) (flags : Nat)
    (hheight : (c.sheets0 sheet).m_height = -1) : (c.setFlags sheet flags).Right where
  top := h.top
  entry i h0 hle := by
    obtain ⟨s, hat, hs, hsh⟩ := h.entry i h0 hle
    have hne : s ≠ sheet := by
      rintro rfl
      omega
    refine ⟨s, hat, ?_, ?_⟩
    · simpa [Allocated, SkySheetController.setFlags, hne] using hs
    · simpa [SkySheetController.setFlags, hne] using hsh
  sheet s hs := by
    by_cases hne : s = sheet
    · subst hne
      left
      simpa [SkySheetController.setFlags] using hheight
    · have hkept : (c.setFlags sheet flags).sheets0 s = c.sheets0 s := Function.update_of_ne hne ..
      rw [Allocated, hkept] at hs
      rw [hkept]
      exact h.sheet s hs

theorem Right.slide (h : c.Right) (sheet : Fin MAX_SHEETS) (vx0 vy0 : Int) :
    (c.Slide sheet vx0 vy0).Right := by
  have hheight : ∀ s, ((c.Slide sheet vx0 vy0).sheets0 s).m_height = (c.sheets0 s).m_height := by
    intro s
    by_cases hs : s = sheet
    · subst hs
      simp [Slide]
    · simp [Slide, hs]
  have hflags : ∀ s, ((c.Slide sheet vx0 vy0).sheets0 s).m_flags = (c.sheets0 s).m_flags := by
    intro s
    by_cases hs : s = sheet
    · subst hs
      simp [Slide]
    · simp [Slide, hs]
  refine ⟨h.top, ?_, ?_⟩
  · intro i h0 hle
    obtain ⟨s, hat, hs, hsh⟩ := h.entry i h0 hle
    refine ⟨s, hat, ?_, ?_⟩
    · rwa [Allocated, hflags]
    · rwa [hheight]
  · intro s hs
    rw [Allocated, hflags] at hs
    rw [hheight]
    exact h.sheet s hs

/-- A sheet without flags is in no entry, whatever height it is given. -/
theorem Right.setHeight_free (h : c.Right) (height : Int)
    (hs : ¬ c.Allocated sheet) : (c.setHeight sheet height).Right where
  top := h.top
  entry i h0 hle := by
    obtain ⟨s, hat, hs', hsh⟩ := h.entry i h0 hle
    have hne : s ≠ sheet := by
      rintro rfl
      exact hs hs'
    exact ⟨s, hat, by rwa [Allocated, setHeight_m_flags], by rwa [setHeight_of_ne _ _ hne]⟩
  sheet s hs' := by
    rw [Allocated, setHeight_m_flags] at hs'
    have hne : s ≠ sheet := by
      rintro rfl
      exact hs hs'
    rw [setHeight_of_ne _ _ hne]
    exact h.sheet s hs'

theorem Right.alloc (h : c.Right) : c.Alloc.2.Right := by
  unfold Alloc
  split
  · rename_i sheet hfind
    have hfree : ¬ c.Allocated sheet := by
      have := List.find?_some hfind
      simpa [Allocated] using this
    have hcomm : (c.setFlags sheet SHEET_USE).setHeight sheet (-1) =
        (c.setHeight sheet (-1)).setFlags sheet SHEET_USE := by
      simp [SkySheetController.setHeight, SkySheetController.setFlags]
    rw [hcomm]
    exact (h.setHeight_free (-1) hfree).setFlags SHEET_USE (setHeight_self ..)
  · exact h

theorem Right.free (h : c.Right) (hs : c.Allocated sheet) :
    ∃ c', c.Free sheet = some c' ∧ c'.Right := by
  have htop := h.top
  rcases h.sheet sheet hs with hold | ⟨hold, hle, -⟩
  · refine ⟨c.setFlags sheet 0, ?_, h.setFlags 0 hold⟩
    rw [Free, if_neg (by omega)]
    rfl
  · obtain ⟨c', hrun, hright, hheight, -⟩ := h.hide hs hold
    have hclamp : c.clamp (-1) = -1 := by
      rw [clamp_eq htop.1]
      omega
    refine ⟨c'.setFlags sheet 0, ?_, hright.setFlags 0 hheight⟩
    rw [Free, if_pos hold, Updown]
    rw [hclamp, hrun]
    rfl

theorem step_eq (c : SkySheetController) (call : Call) :
    system.step c call = if call.OnAllocated c then call.run c else none := rfl

/-- **One call.** It has a result, and the stack is right afterwards if and only if the call fits. -/
theorem Right.call (h : c.Right) {call : Call} (hcall : call.OnAllocated c) :
    ∃ c', system.step c call = some c' ∧ (c'.Right ↔ c.Fits call) := by
  rw [step_eq, if_pos hcall]
  cases call with
  | alloc => exact ⟨_, rfl, iff_of_true h.alloc trivial⟩
  | updown sheet height => exact h.updown hcall height
  | slide sheet vx0 vy0 => exact ⟨_, rfl, iff_of_true (h.slide sheet vx0 vy0) trivial⟩
  | free sheet =>
    obtain ⟨c', hrun, hright⟩ := h.free hcall
    exact ⟨c', hrun, iff_of_true hright trivial⟩

theorem Right.init (h : system.init c) : c.Right where
  top := by
    rw [h.1]
    decide
  entry i h0 hle := by
    have := h.1
    omega
  sheet s hs := .inl (h.2.2 s hs)

/-- **Every run whose calls fit** leaves the entries up to the top and the displayed sheets the same, each at its
height; and from there a call on an allocated sheet has a result, which is right if and only if the call fits. -/
theorem stack_right {c : SkySheetController} (hrun : system.ReachVia Fits c) : c.Right ∧
    ∀ call : Call, call.OnAllocated c → ∃ c', system.step c call = some c' ∧ (c'.Right ↔ c.Fits call) := by
  have hright : c.Right := by
    refine hrun.invariant Right (fun _ => Right.init) ?_
    intro c call c' h hfits hs
    by_cases hcall : call.OnAllocated c
    · obtain ⟨c'', hs', hiff⟩ := h.call hcall
      rw [hs] at hs'
      cases hs'
      exact hiff.2 hfits
    · rw [step_eq, if_neg hcall] at hs
      cases hs
  exact ⟨hright, fun call => hright.call⟩

def start : SkySheetController where
  m_sheetTop := -1
  m_pSheets _ := none
  sheets0 _ := ⟨0, 0, -1, 0⟩

theorem start_init : system.init start := by
  refine ⟨rfl, fun _ => rfl, ?_⟩
  intro sheet _
  rfl

/-- Three sheets are shown, reordered and hidden, and the last one goes back to the position it had. -/
theorem stack_right_three : ∃ c, c.Right ∧ c.m_sheetTop = 1 ∧ c.m_pSheets 0 = some 0 ∧ c.m_pSheets 1 = some 2 ∧
    ∃ c', system.step c (.updown 2 2) = some c' ∧ c'.Right := by
  let calls : List Call := [.alloc, .alloc, .alloc, .updown 0 0, .updown 1 7, .updown 2 7, .updown 0 1, .slide 0 30 40,
    .updown 0 0, .free 1]
  have hrun : (system.exec start calls).map (fun c => decide (c.m_sheetTop = 1 ∧ c.m_pSheets 0 = some 0 ∧
      c.m_pSheets 1 = some 2 ∧ Call.OnAllocated c (.updown 2 2) ∧ c.Fits (.updown 2 2))) = some true := by
    decide +kernel
  obtain ⟨c, hc, hfacts⟩ := Option.map_eq_some_iff.1 hrun
  obtain ⟨htop, h0, h1, hcall, hfits⟩ := of_decide_eq_true hfacts
  have hmeets : system.Meets Fits start calls := by decide +kernel
  obtain ⟨hright, hnext⟩ := stack_right (StepSystem.reachVia_exec calls (.init start_init) hmeets hc)
  obtain ⟨c', hs, hiff⟩ := hnext (.updown 2 2) hcall
  exact ⟨c, hright, htop, h0, h1, c', hs, hiff.2 hfits⟩

/-- Two sheets at the heights 0 and 1; the one on top is sent to the height 2 and is at the entry 1. -/
theorem raised_above_top : ¬ ∀ c, system.Reach c → c.Right := by
  intro h
  let calls : List Call := [.alloc, .alloc, .updown 0 0, .updown 1 1, .updown 1 2]
  have hrun : (system.exec start calls).map (fun c => decide (c.m_sheetTop = 1 ∧ c.m_pSheets 1 = some 1 ∧
      (c.sheets0 1).m_height = 2)) = some true := by
    decide +kernel
  obtain ⟨c, hc, hfacts⟩ := Option.map_eq_some_iff.1 hrun
  obtain ⟨htop, hat, hheight⟩ := of_decide_eq_true hfacts
  have hright := h c (StepSystem.reach_exec calls (.init start_init) hc)
  obtain ⟨sheet, hat', -, hheight'⟩ := hright.entry 1 (by omega) (by omega)
  rw [hat] at hat'
  cases hat'
  omega

end SkySheetController

end Gui
