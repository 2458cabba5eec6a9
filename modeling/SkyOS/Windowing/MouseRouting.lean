import Mathlib.Data.List.Nodup
import SkyOS.Windowing.Visibility

/-!
# The window under the mouse (`WindowManager::handleMouseMove`, `WindowingSystem/WindowManager.cpp:96`)

A lookup keeps the window it has found and the rectangle of its visible region that the point is in. A later move into
that rectangle goes to the same window, without asking again whether the region has changed.

| here | there |
| --- | --- |
| `Option Nat` | a pointer to a window, null or the address |
| `WindowCall` | what clients, and the windows that get a button event, call |
| `reaction` | what the window that gets the event calls |
| `Outcome.state = none` | a null pointer, or one to no window, is followed |

`fEnableFocusFollowsMouse` is always true. What windows do with a move is left out: they draw, and call `invalidate`.
-/

namespace Windowing

open Machine List Option

/-! ## The code -/

/-- `getBoundingRect` (`Region.cpp:102`). -/
def Region.getBoundingRect (r : Region) (x y : Int) : Rect := (r.find? fun rect => rect.contains x y).getD ⟨0, 0, 0, 0⟩

namespace WindowManager

def window? (wm : WindowManager) (id : Nat) : Option ServerWindow := wm.windows.find? fun w => w.id = id

/-- `findChild` (`ServerWindow.cpp:332`) of the root window. -/
def findChild (wm : WindowManager) (x y : Int) : ServerWindow :=
  (wm.fChildList.siblings.find? fun child => child.fBounds.contains x y).getD wm.fRootWindow

end WindowManager

/-- `isDraggable` (`ServerWindow.cpp:357`). -/
def ServerWindow.isDraggable (w : ServerWindow) : Bool := w.fIsDraggable && !w.fIsMaximized

/-- What `setResizeLimits` sets (`ServerWindow.cpp:451`). -/
structure ResizeLimits where
  fMinimumWidth : Int
  fMaximumWidth : Int
  fMinimumHeight : Int
  fMaximumHeight : Int

structure Settings where
  screen : Screen
  limits : Nat → ResizeLimits

/-- The root window with its children, and what the manager knows of the mouse. -/
structure Mouse where
  manager : WindowManager
  fFocusWindow : Option Nat
  fMouseWindow : Option Nat
  fMouseRect : Rect
  fMouseFocusLocked : Bool
  fDraggedWindow : Option Nat
  fGrabX : Int
  fGrabY : Int
  fResizeWindow : Option Nat
  fResizeLeft : Bool
  fResizeBottom : Bool
  fResizeRight : Bool
  fResizeTop : Bool
  fOriginalWidth : Int
  fOriginalHeight : Int

inductive Event where
  | handleMouseMoved (id : Nat) (x y : Int)
  | handleMouseExit (id : Nat)
  | handleMouseButton (id : Nat) (x y buttons : Int)
deriving DecidableEq

structure Outcome where
  events : List Event
  state : Option Mouse

def Outcome.moved (o : Outcome) : List Nat := o.events.filterMap fun
  | .handleMouseMoved id _ _ => some id
  | _ => none

inductive WindowCall where
  | tree (call : Call)
  | maximizeWindow (id : Nat)
  | lockMouseFocus

namespace Mouse

/-- `setFocusedWindow` (:176). -/
def setFocusedWindow (s : Mouse) (window : Nat) : Option Mouse :=
  if s.fFocusWindow = some window then some s
  else s.fFocusWindow.map fun old => { s with
    manager := (s.manager.modify old (·.invalidate .kInfinite)).modify window (·.invalidate .kInfinite)
    fFocusWindow := some window }

/-- `newWindow` (:45), `closeWindow` (:55), and the calls that are about windows only. -/
def tree (P : Settings) (s : Mouse) (call : Call) : Option Mouse :=
  if call.Enabled s.manager then
    (call.run P.screen s.manager).map fun manager =>
      match call with
      | .newWindow window _ => { s with manager, fFocusWindow := some window.id }
      | .closeWindow id => { s with
          manager
          fMouseWindow := none
          fResizeWindow := none
          fDraggedWindow := none
          fFocusWindow := if s.fFocusWindow = some id then some manager.fRootWindow.id else s.fFocusWindow
          fMouseFocusLocked := false }
      | _ => { s with manager }
  else none

def window (P : Settings) (s : Mouse) : WindowCall → Option Mouse
  | .tree call => s.tree P call
  | .maximizeWindow id => (s.setFocusedWindow id).bind fun s => s.tree P (.maximizeChild id)
  | .lockMouseFocus => some { s with fMouseFocusLocked := true }

/-- The new width or height of the window that is resized (:104). -/
def newSize (after before : Bool) (x grab original minimum maximum : Int) : Int :=
  let new :=
    if after then toInt32 (toInt32 (x - grab) + original)
    else if before then toInt32 (toInt32 (grab - x) + original)
    else original
  let new := if new > maximum then maximum else new
  if new < minimum then minimum else new

/-- The window the mouse is in (:136), and `fMouseRect` afterwards. -/
def newWindow (s : Mouse) (x y : Int) : Option (Nat × Rect) :=
  let lookup := s.manager.findChildRecursive x y
  let found := (lookup.id, lookup.fLocalClip.getBoundingRect x y)
  match s.fMouseWindow with
  | none => if s.fMouseFocusLocked then none else some found
  | some id =>
    if s.fMouseFocusLocked || s.fMouseRect.contains x y then some (id, s.fMouseRect)
    else (s.manager.window? id).map fun window =>
      if window.fLocalClip.contains x y then (id, s.fMouseRect) else found

/-- `handleMouseMove` (:96). -/
def handleMouseMove (P : Settings) (s : Mouse) (x y : Int) : Outcome :=
  match s.fDraggedWindow, s.fResizeWindow with
  | some id, _ =>
    ⟨[], some { s with
      manager := s.manager.moveChildBy id (toInt32 (x - s.fGrabX)) (toInt32 (y - s.fGrabY))
      fGrabX := x
      fGrabY := y }⟩
  | none, some id =>
    let limits := P.limits id
    let newHeight := newSize s.fResizeBottom s.fResizeTop y s.fGrabY s.fOriginalHeight
      limits.fMinimumHeight limits.fMaximumHeight
    let newWidth := newSize s.fResizeRight s.fResizeLeft x s.fGrabX s.fOriginalWidth
      limits.fMinimumWidth limits.fMaximumWidth
    ⟨[], some { s with manager := s.manager.resizeChild id newWidth newHeight s.fResizeRight s.fResizeBottom }⟩
  | none, none =>
    match s.newWindow x y with
    | none => ⟨[], none⟩
    | some (newWindow, fMouseRect) =>
      let s := { s with fMouseRect }
      if s.fMouseWindow = some newWindow then ⟨[.handleMouseMoved newWindow x y], some s⟩
      else
        let newFocusWindow := s.manager.findChild x y
        ⟨s.fMouseWindow.toList.map .handleMouseExit ++ [.handleMouseMoved newWindow x y],
          { s with fMouseWindow := some newWindow }.setFocusedWindow newFocusWindow.id⟩

/-- A window is grabbed to be dragged or resized (:194). -/
def grab (s : Mouse) (w : ServerWindow) (x y : Int) : Mouse :=
  let left : Bool := x < toInt32 (w.fFrame.left + 10)
  let right : Bool := !left && x > toInt32 (w.fFrame.right - 10)
  let top : Bool := y < toInt32 (w.fFrame.top + 3)
  let bottom : Bool := !top && y > toInt32 (w.fFrame.bottom - 10)
  let s := { s with
    fResizeLeft := left
    fResizeRight := right
    fResizeTop := top
    fResizeBottom := bottom
    fGrabX := x
    fGrabY := y }
  if left || bottom || right || top then
    { s with fResizeWindow := some w.id, fOriginalWidth := w.fFrame.width, fOriginalHeight := w.fFrame.height }
  else { s with fDraggedWindow := some w.id }

/-- What a button does before the window gets the event (:188). -/
def press (s : Mouse) (x y buttons : Int) : Option Mouse :=
  if buttons % 2 = 1 then
    match s.fMouseWindow with
    | none => some s
    | some id => do
      let w ← s.manager.window? id
      let s := if w.isDraggable then s.grab w x y else s
      let newFocusWindow := s.manager.findChild x y
      let s ← s.setFocusedWindow newFocusWindow.id
      if newFocusWindow.id ≠ s.manager.fRootWindow.id then
        (s.manager.moveToFront newFocusWindow.id).map fun manager => { s with manager }
      else some s
  else some { s with fDraggedWindow := none, fResizeWindow := none }

def react (P : Settings) (s : Mouse) (reaction : List WindowCall) : Option Mouse := reaction.foldlM (window P) s

/-- Whether the mouse focus is no longer locked afterwards (:241). -/
def unlocks (s : Mouse) (buttons : Int) : Bool := s.fMouseFocusLocked && buttons = 0

/-- `handleMouseButton` (:188). -/
def handleMouseButton (P : Settings) (s : Mouse) (x y buttons : Int) (reaction : List WindowCall) : Outcome :=
  match s.press x y buttons with
  | none => ⟨[], none⟩
  | some s =>
    match s.fMouseWindow with
    | none => ⟨[], some s⟩
    | some id =>
      match s.react P reaction with
      | none => ⟨[.handleMouseButton id x y buttons], none⟩
      | some s =>
        if s.unlocks buttons then
          let o := { s with fMouseFocusLocked := false }.handleMouseMove P x y
          { o with events := .handleMouseButton id x y buttons :: o.events }
        else ⟨[.handleMouseButton id x y buttons], some s⟩

/-- The state in which `handleMouseButton` calls `handleMouseMove`. -/
def faked (P : Settings) (s : Mouse) (x y buttons : Int) (reaction : List WindowCall) : Option Mouse := do
  let s ← s.press x y buttons
  let _ ← s.fMouseWindow
  let s ← s.react P reaction
  if s.unlocks buttons then some { s with fMouseFocusLocked := false } else none

end Mouse

inductive MouseCall where
  | window (call : WindowCall)
  | handleMouseMove (x y : Int)
  | handleMouseButton (x y buttons : Int) (reaction : List WindowCall)

/-- Calls after `setRootWindow`; the root window is not one that can be dragged. -/
def Settings.system (P : Settings) : StepSystem Mouse MouseCall where
  init s := (∃ root children, Unclipped (root :: children.windows) ∧ root.fIsDraggable = false ∧
      s.manager = .setRootWindow root children) ∧ s.fFocusWindow = none ∧ s.fMouseWindow = none ∧
    s.fMouseFocusLocked = false ∧ s.fDraggedWindow = none ∧ s.fResizeWindow = none
  step s
    | .window call => s.window P call
    | .handleMouseMove x y => (s.handleMouseMove P x y).state
    | .handleMouseButton x y buttons reaction => (s.handleMouseButton P x y buttons reaction).state

/-! ## What every call keeps -/

theorem Children.findChildRecursive_mem (x y : Int) (this : ServerWindow) (children : Children) :
    children.findChildRecursive x y this ∈ this :: children.windows := by
  induction children generalizing this with
  | none => exact .head _
  | cons w children next ihc ihn =>
    rw [findChildRecursive, windows]
    split
    · exact mem_cons_of_mem this (mem_append_left next.windows (ihc w))
    · rcases mem_cons.1 (ihn this) with h | h
      · rw [h]
        exact .head _
      · exact mem_cons_of_mem this (mem_cons_of_mem w (mem_append_right _ h))

theorem WindowManager.findChildRecursive_mem (wm : WindowManager) (x y : Int) :
    wm.findChildRecursive x y ∈ wm.windows := Children.findChildRecursive_mem x y wm.fRootWindow wm.fChildList

namespace Mouse

/-- The windows are clipped as they should be, no two have one address, and the mouse is in one of them. -/
structure Sound (s : Mouse) : Prop where
  clipped : s.manager.Clipped
  nodup : (ids s.manager.windows).Nodup
  mouse : ∀ id, s.fMouseWindow = some id → id ∈ ids s.manager.windows

variable {wm : WindowManager} {x y : Int} {id : Nat} {w : ServerWindow}

namespace Sound

variable {P : Settings} {s s' : Mouse}

theorem of_perm (h : s.Sound) (hclipped : s'.manager.Clipped)
    (hids : (ids s'.manager.windows).Perm (ids s.manager.windows)) (hmouse : s'.fMouseWindow = s.fMouseWindow) :
    s'.Sound where
  clipped := hclipped
  nodup := hids.nodup_iff.2 h.nodup
  mouse id hid := hids.mem_iff.2 (h.mouse id (hmouse ▸ hid))

theorem setFocusedWindow (h : s.Sound) {window : Nat} (hrun : s.setFocusedWindow window = some s') : s'.Sound := by
  unfold Mouse.setFocusedWindow at hrun
  split at hrun
  · cases hrun
    exact h
  · obtain ⟨old, -, rfl⟩ := map_eq_some_iff.1 hrun
    refine h.of_perm ?_ ?_ rfl
    · exact (h.clipped.modify (f := (·.invalidate .kInfinite)) old (fun _ => rfl) (fun _ => rfl) fun _ => rfl).modify
        (f := (·.invalidate .kInfinite)) window (fun _ => rfl) (fun _ => rfl) fun _ => rfl
    · rw [WindowManager.ids_modify (f := (·.invalidate .kInfinite)) _ window fun _ => rfl,
        WindowManager.ids_modify (f := (·.invalidate .kInfinite)) _ old fun _ => rfl]

variable {call : Call}

theorem ids_run {screen : Screen} {wm' : WindowManager} (hrun : call.run screen wm = some wm')
    (hclose : ∀ id, call ≠ .closeWindow id) : ∀ id ∈ ids wm.windows, id ∈ ids wm'.windows := by
  intro id hid
  cases call with
  | newWindow window children =>
    cases hrun
    unfold WindowManager.newWindow
    rw [WindowManager.ids_update]
    have hsub : wm.windows.Sublist (wm.fRootWindow :: (window :: (children.windows ++ wm.fChildList.windows))) :=
      ((sublist_append_right _ _).cons _).cons_cons _
    exact (hsub.map ServerWindow.id).subset hid
  | closeWindow id => exact absurd rfl (hclose id)
  | moveToFront id => exact (WindowManager.perm_moveToFront hrun).mem_iff.2 hid
  | moveChildBy id x y =>
    cases hrun
    rwa [WindowManager.ids_moveChildBy]
  | resizeChild id width height rightSide bottom =>
    cases hrun
    rwa [WindowManager.ids_resizeChild]
  | maximizeChild id =>
    cases hrun
    rwa [WindowManager.ids_maximizeChild]
  | invalidate id region =>
    cases hrun
    rwa [WindowManager.ids_modify (f := (·.invalidate region)) wm id fun _ => rfl]
  | beginPaint id =>
    cases hrun
    rwa [WindowManager.ids_modify wm id ServerWindow.beginPaint_id]
  | endPaint id =>
    cases hrun
    rwa [WindowManager.ids_modify wm id ServerWindow.endPaint_id]

theorem tree (h : s.Sound) (hrun : s.tree P call = some s') : s'.Sound := by
  unfold Mouse.tree at hrun
  split at hrun
  · rename_i henabled
    obtain ⟨manager, hcall, rfl⟩ := map_eq_some_iff.1 hrun
    have hclipped := h.clipped.run hcall
    have hnodup := WindowManager.nodup_run h.nodup henabled hcall
    split
    · exact ⟨hclipped, hnodup, fun id hid => ids_run hcall (by simp) id (h.mouse id hid)⟩
    · exact ⟨hclipped, hnodup, fun id hid => by cases hid⟩
    · rename_i hclose
      exact ⟨hclipped, hnodup, fun id hid => ids_run hcall hclose id (h.mouse id hid)⟩
  · cases hrun

theorem window (h : s.Sound) {call : WindowCall} (hrun : s.window P call = some s') : s'.Sound := by
  cases call with
  | tree call => exact h.tree hrun
  | maximizeWindow id =>
    obtain ⟨s₁, hfocus, htree⟩ := bind_eq_some_iff.1 hrun
    exact (h.setFocusedWindow hfocus).tree htree
  | lockMouseFocus =>
    cases hrun
    exact ⟨h.clipped, h.nodup, h.mouse⟩

theorem newWindow (h : s.Sound) {rect : Rect} (hnew : s.newWindow x y = some (id, rect)) :
    id ∈ ids s.manager.windows := by
  have hlookup : (s.manager.findChildRecursive x y).id ∈ ids s.manager.windows :=
    List.mem_map_of_mem (s.manager.findChildRecursive_mem x y)
  unfold Mouse.newWindow at hnew
  split at hnew
  · split at hnew
    · cases hnew
    · cases hnew
      exact hlookup
  · rename_i old hold
    split at hnew
    · cases hnew
      exact h.mouse _ hold
    · obtain ⟨w, -, hsome⟩ := map_eq_some_iff.1 hnew
      split at hsome
      · cases hsome
        exact h.mouse _ hold
      · cases hsome
        exact hlookup

theorem handleMouseMove (h : s.Sound) (hrun : (s.handleMouseMove P x y).state = some s') : s'.Sound := by
  unfold Mouse.handleMouseMove at hrun
  split at hrun
  · cases hrun
    exact h.of_perm (h.clipped.update _) (by rw [WindowManager.ids_moveChildBy]) rfl
  · cases hrun
    exact h.of_perm (h.clipped.update _) (by rw [WindowManager.ids_resizeChild]) rfl
  · split at hrun
    · cases hrun
    · rename_i newWindow rect hnew
      have hmem := h.newWindow hnew
      dsimp only at hrun
      split at hrun
      · cases hrun
        exact ⟨h.clipped, h.nodup, h.mouse⟩
      · refine Sound.setFocusedWindow ?_ hrun
        exact ⟨h.clipped, h.nodup, fun id hid => Option.some.inj hid ▸ hmem⟩

theorem grab (h : s.Sound) (w : ServerWindow) (x y : Int) : (s.grab w x y).Sound := by
  unfold Mouse.grab
  dsimp only
  split <;> exact ⟨h.clipped, h.nodup, h.mouse⟩

variable {buttons : Int} {reaction : List WindowCall}

theorem press (h : s.Sound) (hrun : s.press x y buttons = some s') : s'.Sound := by
  unfold Mouse.press at hrun
  split at hrun
  · split at hrun
    · cases hrun
      exact h
    · obtain ⟨w, -, hrun⟩ := bind_eq_some_iff.1 hrun
      obtain ⟨s₁, hfocus, hrun⟩ := bind_eq_some_iff.1 hrun
      have h₀ : (if w.isDraggable = true then s.grab w x y else s).Sound := by
        split
        · exact h.grab w x y
        · exact h
      generalize (if w.isDraggable = true then s.grab w x y else s) = s₀ at h₀ hfocus hrun
      have h₁ := h₀.setFocusedWindow hfocus
      split at hrun
      · obtain ⟨manager, hmove, rfl⟩ := map_eq_some_iff.1 hrun
        have hclipped : manager.Clipped := @WindowManager.Clipped.run ⟨0, 0⟩ _ _ h₁.clipped (.moveToFront _) hmove
        exact h₁.of_perm hclipped (WindowManager.perm_moveToFront hmove) rfl
      · cases hrun
        exact h₁
  · cases hrun
    exact ⟨h.clipped, h.nodup, h.mouse⟩

theorem react (h : s.Sound) (hrun : s.react P reaction = some s') : s'.Sound := by
  induction reaction generalizing s with
  | nil =>
    cases hrun
    exact h
  | cons call reaction ih =>
    obtain ⟨s₁, hcall, hrest⟩ := bind_eq_some_iff.1 hrun
    exact ih (h.window hcall) hrest

theorem handleMouseButton (h : s.Sound)
    (hrun : (s.handleMouseButton P x y buttons reaction).state = some s') : s'.Sound := by
  unfold Mouse.handleMouseButton at hrun
  split at hrun
  · cases hrun
  rename_i s₁ hpress
  have h₁ := h.press hpress
  split at hrun
  · cases hrun
    exact h₁
  split at hrun
  · cases hrun
  rename_i s₂ hreact
  have h₂ := h₁.react hreact
  split at hrun
  · have h₃ : ({ s₂ with fMouseFocusLocked := false } : Mouse).Sound := ⟨h₂.clipped, h₂.nodup, h₂.mouse⟩
    exact h₃.handleMouseMove hrun
  · cases hrun
    exact h₂

theorem faked (h : s.Sound)
    (hrun : s.faked P x y buttons reaction = some s') : s'.Sound := by
  obtain ⟨s₁, hpress, hrun⟩ := bind_eq_some_iff.1 hrun
  obtain ⟨id, -, hrun⟩ := bind_eq_some_iff.1 hrun
  obtain ⟨s₂, hreact, hrun⟩ := bind_eq_some_iff.1 hrun
  have h₂ := (h.press hpress).react hreact
  split at hrun
  · cases hrun
    exact ⟨h₂.clipped, h₂.nodup, h₂.mouse⟩
  · cases hrun

theorem init (h : P.system.init s) : s.Sound := by
  obtain ⟨⟨root, children, hunclipped, -, hmanager⟩, -, hmouse, -⟩ := h
  have hreach : (Windowing.system P.screen).Reach s.manager := .init ⟨root, children, hunclipped, hmanager⟩
  refine ⟨WindowManager.clipped_of_reach hreach, WindowManager.ids_nodup hreach, fun id hid => ?_⟩
  rw [hmouse] at hid
  cases hid

theorem of_reach (h : P.system.Reach s) : s.Sound := by
  refine h.invariant Sound (fun _ => init) ?_
  intro s call s' h hstep
  cases call with
  | window call => exact h.window hstep
  | handleMouseMove x y => exact h.handleMouseMove hstep
  | handleMouseButton x y buttons reaction => exact h.handleMouseButton hstep

end Sound

/-! ## The window found -/

variable {s : Mouse}

/-- A window that sees the point is the one found there. -/
theorem Sound.found (h : s.Sound) (hbounds : ∀ w ∈ s.manager.windows, w.fBounds.Within) (hw : w ∈ s.manager.windows)
    (hsees : w.fLocalClip.contains x y = true) :
    s.manager.findChildRecursive x y = w := by
  have hmem : w ∈ s.manager.windows.filter fun w => w.fLocalClip.contains x y := mem_filter.2 ⟨hw, hsees⟩
  rw [h.clipped.filter_eq hbounds] at hmem
  split at hmem
  · exact (mem_singleton.1 hmem).symm
  · cases hmem

theorem Sound.sees (h : s.Sound) (hbounds : ∀ w ∈ s.manager.windows, w.fBounds.Within)
    (hin : s.manager.fRootWindow.fBounds.contains x y = true) :
    (s.manager.findChildRecursive x y).fLocalClip.contains x y = true := by
  have hfilter := h.clipped.filter_eq hbounds x y
  rw [if_pos (h.clipped.global hbounds hin)] at hfilter
  have hmem : s.manager.findChildRecursive x y ∈ s.manager.windows.filter fun w => w.fLocalClip.contains x y := by
    rw [hfilter]
    exact mem_singleton_self _
  simpa using (mem_filter.1 hmem).2

def Idle (s : Mouse) : Prop := s.fDraggedWindow = none ∧ s.fResizeWindow = none ∧ s.fMouseFocusLocked = false

/-- If the point is in the rectangle that has been kept, the window that has been kept sees it still. -/
def Current (s : Mouse) (x y : Int) : Prop :=
  ∀ id, s.fMouseWindow = some id → s.fMouseRect.contains x y = true →
    ∃ w, s.manager.window? id = some w ∧ w.fLocalClip.contains x y = true

theorem window?_mem (h : wm.window? id = some w) :
    w ∈ wm.windows ∧ w.id = id := by
  have hid := List.find?_some h
  exact ⟨List.mem_of_find?_eq_some h, of_decide_eq_true hid⟩

theorem window?_of_mem (h : id ∈ ids wm.windows) : ∃ w, wm.window? id = some w := by
  obtain ⟨w, hw, hid⟩ := List.mem_map.1 h
  exact isSome_iff_exists.1 (List.find?_isSome.2 ⟨w, hw, decide_eq_true hid⟩)

theorem eq_of_id {windows : List ServerWindow} (hnodup : (ids windows).Nodup) {w' : ServerWindow} (hw : w ∈ windows)
    (hw' : w' ∈ windows) (hid : w.id = w'.id) : w = w' := inj_on_of_nodup_map hnodup hw hw' hid

variable {P : Settings} {s : Mouse}

theorem moved_handleMouseMove (hidle : s.Idle) (x y : Int) :
    (s.handleMouseMove P x y).moved = ((s.newWindow x y).map Prod.fst).toList := by
  unfold handleMouseMove
  rw [hidle.1, hidle.2.1]
  cases s.newWindow x y with
  | none => rfl
  | some found =>
    dsimp only
    split
    · rfl
    · cases s.fMouseWindow <;> rfl

theorem newWindow_eq (h : s.Sound) (hidle : s.Idle) (hbounds : ∀ w ∈ s.manager.windows, w.fBounds.Within)
    (hcurrent : s.Current x y) : (s.newWindow x y).map Prod.fst = some (s.manager.findChildRecursive x y).id := by
  unfold newWindow
  cases hmouse : s.fMouseWindow with
  | none =>
    dsimp only
    rw [hidle.2.2]
    rfl
  | some id =>
    obtain ⟨w, hw⟩ := window?_of_mem (h.mouse id hmouse)
    obtain ⟨hmem, hid⟩ := window?_mem hw
    dsimp only
    rw [hidle.2.2, Bool.false_or, hw]
    by_cases hrect : s.fMouseRect.contains x y = true
    · rw [if_pos hrect]
      obtain ⟨w', hw', hsees⟩ := hcurrent id hmouse hrect
      obtain rfl := Option.some.inj (hw.symm.trans hw')
      rw [h.found hbounds hmem hsees, hid]
      rfl
    · rw [if_neg hrect, map_some]
      split
      · rename_i hsees
        rw [h.found hbounds hmem hsees, hid]
        rfl
      · rfl

/-- The window found is the one that has been kept, if the event goes there. -/
theorem current_of_newWindow (h : s.Sound) (hidle : s.Idle) (hbounds : ∀ w ∈ s.manager.windows, w.fBounds.Within)
    (hin : s.manager.fRootWindow.fBounds.contains x y = true)
    (hnew : (s.newWindow x y).map Prod.fst = some (s.manager.findChildRecursive x y).id) : s.Current x y := by
  intro id hmouse hrect
  obtain ⟨w, hw⟩ := window?_of_mem (h.mouse id hmouse)
  obtain ⟨hmem, hid⟩ := window?_mem hw
  refine ⟨w, hw, ?_⟩
  unfold newWindow at hnew
  rw [hmouse] at hnew
  dsimp only at hnew
  rw [hidle.2.2, Bool.false_or, if_pos hrect] at hnew
  have hsame := eq_of_id h.nodup hmem (s.manager.findChildRecursive_mem x y) (hid.trans (Option.some.inj hnew))
  rw [hsame]
  exact h.sees hbounds hin

end Mouse

/-- The states in which `handleMouseMove` is called: those that runs reach, and those in which `handleMouseButton` calls
it. -/
inductive Settings.Moves (P : Settings) : Mouse → Prop
  | called {s : Mouse} (h : P.system.Reach s) : Moves P s
  | faked {s s' : Mouse} {x y buttons : Int} {reaction : List WindowCall} (h : P.system.Reach s)
      (hfaked : s.faked P x y buttons reaction = some s') : Moves P s'

open Mouse in
/-- **Mouse routing.** A move of the pointer alone goes to the window that a lookup finds if the window kept still sees
the point, should that be in the rectangle kept; and on the root window only if. -/
theorem moved_findChildRecursive {P : Settings} {s : Mouse} (h : P.Moves s) (hidle : s.Idle)
    (hbounds : ∀ w ∈ s.manager.windows, w.fBounds.Within) (x y : Int) :
    (s.Current x y → (s.handleMouseMove P x y).moved = [(s.manager.findChildRecursive x y).id]) ∧
      (s.manager.fRootWindow.fBounds.contains x y = true →
        (s.handleMouseMove P x y).moved = [(s.manager.findChildRecursive x y).id] → s.Current x y) := by
  have hsound : s.Sound := by
    cases h with
    | called h => exact .of_reach h
    | faked h hfaked => exact (Sound.of_reach h).faked hfaked
  rw [moved_handleMouseMove hidle]
  constructor
  · intro hcurrent
    rw [newWindow_eq hsound hidle hbounds hcurrent]
    rfl
  · intro hin hmoved
    refine current_of_newWindow hsound hidle hbounds hin ?_
    cases hnew : (s.newWindow x y).map Prod.fst with
    | none =>
      rw [hnew] at hmoved
      cases hmoved
    | some id =>
      rw [hnew] at hmoved
      exact congrArg some (List.singleton_inj.1 hmoved)

def idle : Mouse where
  manager := .setRootWindow (.new 1 ⟨0, 0, 1023, 767⟩ false) .none
  fFocusWindow := none
  fMouseWindow := none
  fMouseRect := ⟨0, 0, 0, 0⟩
  fMouseFocusLocked := false
  fDraggedWindow := none
  fGrabX := 0
  fGrabY := 0
  fResizeWindow := none
  fResizeLeft := false
  fResizeBottom := false
  fResizeRight := false
  fResizeTop := false
  fOriginalWidth := 0
  fOriginalHeight := 0

def wide : Settings := ⟨⟨1024, 768⟩, fun _ => ⟨50, 500, 50, 400⟩⟩

theorem idle_init : wide.system.init idle := ⟨⟨_, _, by decide, rfl, rfl⟩, rfl, rfl, rfl, rfl, rfl⟩

def twoMoves : List MouseCall :=
  [.window (.tree (.newWindow (.new 2 ⟨10, 10, 300, 300⟩ false) .none)),
   .window (.tree (.newWindow (.new 4 ⟨400, 100, 600, 400⟩ false) .none)), .handleMouseMove 50 50]

theorem moved_findChildRecursive_two : ∃ s, wide.system.Reach s ∧
    (s.handleMouseMove wide 450 150).moved = [(s.manager.findChildRecursive 450 150).id] ∧
    (s.manager.findChildRecursive 450 150).id = 4 := by
  have hrun : (wide.system.exec idle twoMoves).map (fun s => decide ((∀ w ∈ s.manager.windows, w.fBounds.Within) ∧
      (s.fDraggedWindow = none ∧ s.fResizeWindow = none ∧ s.fMouseFocusLocked = false) ∧
      s.fMouseRect.contains 450 150 = false ∧ (s.manager.findChildRecursive 450 150).id = 4)) = some true := by
    decide +kernel
  obtain ⟨s, hs, hfacts⟩ := Option.map_eq_some_iff.1 hrun
  obtain ⟨hbounds, hidle, hrect, hid⟩ := of_decide_eq_true hfacts
  have hreach := StepSystem.reach_exec twoMoves (.init idle_init) hs
  refine ⟨s, hreach, ?_, hid⟩
  refine (moved_findChildRecursive (.called hreach) hidle hbounds 450 150).1 fun id _ hin => ?_
  rw [hrect] at hin
  cases hin

def covered : List MouseCall :=
  [.window (.tree (.newWindow (.new 2 ⟨10, 10, 300, 300⟩ false) .none)), .handleMouseMove 50 50,
   .window (.tree (.newWindow (.new 4 ⟨0, 0, 400, 400⟩ false) .none))]

theorem covered_gets_event : ¬ ∀ s, wide.Moves s → s.Idle → ∀ x y,
    (s.handleMouseMove wide x y).moved = [(s.manager.findChildRecursive x y).id] := by
  intro h
  have hrun : (wide.system.exec idle covered).map (fun s => decide (
      (s.fDraggedWindow = none ∧ s.fResizeWindow = none ∧ s.fMouseFocusLocked = false) ∧
      (s.handleMouseMove wide 50 50).moved = [2] ∧ (s.manager.findChildRecursive 50 50).id = 4)) = some true := by
    decide +kernel
  obtain ⟨s, hs, hfacts⟩ := Option.map_eq_some_iff.1 hrun
  obtain ⟨hidle, hmoved, hfound⟩ := of_decide_eq_true hfacts
  have hsame := h s (.called (StepSystem.reach_exec covered (.init idle_init) hs)) hidle 50 50
  rw [hmoved, hfound] at hsame
  revert hsame
  decide

end Windowing
