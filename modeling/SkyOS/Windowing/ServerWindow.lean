import SkyOS.Lib.StepSystem
import SkyOS.Windowing.DisjointRects

/-!
# Windows (`WindowingSystem/ServerWindow.cpp`, `WindowManager.cpp`)

A window is in front of its parent, and of the siblings after it in the list. `updateClip` gives each window what is
left of its parent's region by the siblings before it, as far as it lies in the window's bounds, and takes from that
what its children cover; what was not visible before is dirty.

| here | there |
| --- | --- |
| `Children` | a list linked by `fNextSibling`, with the `fChildList` of each window in it |
| `id` | the address of a window |
| `fClipRegion` | that of `fGraphics` |
| `fRootWindow`, `fChildList` | `fRootWindow` and its `fChildList` |
| `Call` | what is called on the root window, or on a window of its tree |

What is drawn, the events to the clients, the focus and the mouse are left out.
-/

namespace Windowing

open Machine List

/-- `width` (:109). -/
def Rect.width (r : Rect) : Int := toInt32 (r.right - r.left + 1)

/-- `height` (:114). -/
def Rect.height (r : Rect) : Int := toInt32 (r.bottom - r.top + 1)

/-- The frame that `resize` (:472) makes of a frame. -/
def Rect.resized (r : Rect) (dWidth dHeight : Int) (rightSide bottom : Bool) : Rect where
  left := if rightSide then r.left else toInt32 (r.left - dWidth)
  top := if bottom then r.top else toInt32 (r.top - dHeight)
  right := if rightSide then toInt32 (r.right + dWidth) else r.right
  bottom := if bottom then toInt32 (r.bottom + dHeight) else r.bottom

/-- `getWidth` and `getHeight` of `fSurface`. -/
structure Screen where
  width : Int
  height : Int

structure ServerWindow where
  id : Nat
  fFrame : Rect
  fBounds : Region
  fGlobalClip : Region
  fLocalClip : Region
  fDirtyRegion : Region
  fClipRegion : Region
  fEnableDoubleBufferedUpdates : Bool
  fIsDraggable : Bool
  fIsMaximized : Bool
  fOldFrame : Rect
deriving DecidableEq

def ids (windows : List ServerWindow) : List Nat := windows.map ServerWindow.id

inductive Children where
  | none
  | cons (window : ServerWindow) (fChildList fNextSibling : Children)
deriving DecidableEq

/-! ## The loops over the children -/

namespace Children

def windows : Children → List ServerWindow
  | none => []
  | cons w children next => w :: (children.windows ++ next.windows)

def siblings : Children → List ServerWindow
  | none => []
  | cons w _ next => w :: next.siblings

/-- What the loop in `updateClip` (:165) leaves of `fLocalClip`. -/
def clipAgainst : Region → Children → Region
  | fLocalClip, none => fLocalClip
  | fLocalClip, cons child _ next => clipAgainst (fLocalClip.operatorSubAssign child.fBounds) next

/-- `findChildRecursive` (:342) of the window `this`. -/
def findChildRecursive (x y : Int) : ServerWindow → Children → ServerWindow
  | this, none => this
  | this, cons child children next =>
    if child.fBounds.contains x y then findChildRecursive x y child children else findChildRecursive x y this next

end Children

/-! ## One window -/

namespace ServerWindow

/-- The constructor (:45), for a window at the address `id`. -/
def new (id : Nat) (rect : Rect) (doubleBuffer : Bool) : ServerWindow where
  id := id
  fFrame := rect
  fBounds := .ofRect rect.left rect.top rect.right rect.bottom
  fGlobalClip := []
  fLocalClip := []
  fDirtyRegion := []
  fClipRegion := []
  fEnableDoubleBufferedUpdates := doubleBuffer
  fIsDraggable := false
  fIsMaximized := false
  fOldFrame := ⟨0, 0, 0, 0⟩

/-- `invalidate` (:265). -/
def invalidate (w : ServerWindow) (region : Region) : ServerWindow :=
  { w with fDirtyRegion := w.fDirtyRegion.operatorOrAssign region }

/-- The part of `updateClip` (:157) that concerns the window itself. -/
def updateClip (w : ServerWindow) (visibleRegion : Region) (fChildList : Children) : ServerWindow :=
  let oldVisibleRegion := w.fLocalClip
  let fGlobalClip := visibleRegion.operatorAnd w.fBounds
  let fLocalClip := fChildList.clipAgainst fGlobalClip
  { w with
    fGlobalClip := fGlobalClip
    fLocalClip := fLocalClip
    fClipRegion := fLocalClip }.invalidate (fLocalClip.operatorSub oldVisibleRegion)

/-- The part of `moveBy` (:176) that concerns the window itself. -/
def moveBy (w : ServerWindow) (x y : Int) : ServerWindow :=
  { w with fFrame := w.fFrame.offsetBy x y, fBounds := w.fBounds.translateBy x y }.invalidate .kInfinite

def setFrame (w : ServerWindow) (frame : Rect) : ServerWindow :=
  { w with fFrame := frame, fBounds := .ofRect frame.left frame.top frame.right frame.bottom }

/-- `beginPaint` (:290). -/
def beginPaint (w : ServerWindow) : ServerWindow :=
  if w.fEnableDoubleBufferedUpdates then w
  else { w with fClipRegion := w.fDirtyRegion.operatorAnd w.fLocalClip, fDirtyRegion := [] }

/-- `endPaint` (:308). -/
def endPaint (w : ServerWindow) : ServerWindow :=
  if w.fEnableDoubleBufferedUpdates then w else { w with fClipRegion := w.fLocalClip }

section Paint

variable (w : ServerWindow)

@[simp] theorem beginPaint_id : w.beginPaint.id = w.id := by unfold beginPaint; split <;> rfl

@[simp] theorem beginPaint_fBounds : w.beginPaint.fBounds = w.fBounds := by unfold beginPaint; split <;> rfl

@[simp] theorem beginPaint_fGlobalClip : w.beginPaint.fGlobalClip = w.fGlobalClip := by
  unfold beginPaint; split <;> rfl

@[simp] theorem beginPaint_fLocalClip : w.beginPaint.fLocalClip = w.fLocalClip := by unfold beginPaint; split <;> rfl

theorem endPaint_eq : ∃ fClipRegion, w.endPaint = { w with fClipRegion := fClipRegion } := by
  unfold endPaint
  split
  · exact ⟨w.fClipRegion, rfl⟩
  · exact ⟨w.fLocalClip, rfl⟩

@[simp] theorem endPaint_id : w.endPaint.id = w.id := by obtain ⟨_, h⟩ := w.endPaint_eq; rw [h]

@[simp] theorem endPaint_fBounds : w.endPaint.fBounds = w.fBounds := by obtain ⟨_, h⟩ := w.endPaint_eq; rw [h]

@[simp] theorem endPaint_fGlobalClip : w.endPaint.fGlobalClip = w.fGlobalClip := by
  obtain ⟨_, h⟩ := w.endPaint_eq; rw [h]

@[simp] theorem endPaint_fLocalClip : w.endPaint.fLocalClip = w.fLocalClip := by
  obtain ⟨_, h⟩ := w.endPaint_eq; rw [h]

end Paint

end ServerWindow

/-! ## Windows with their children -/

namespace Children

/-- `updateClip` (:157) of each window, from the front. -/
def updateClip : Region → Children → Children
  | _, none => none
  | visibleRegion, cons w children next =>
    cons (w.updateClip visibleRegion children) (children.updateClip (visibleRegion.operatorAnd w.fBounds))
      (next.updateClip (visibleRegion.operatorSubAssign w.fBounds))

/-- `moveBy` (:176) of each window. -/
def moveBy (x y : Int) : Children → Children
  | none => none
  | cons w children next => cons (w.moveBy x y) (children.moveBy x y) (next.moveBy x y)

/-- The first child of a draggable window is resized with it (:240, :494). -/
def resizeFirst (fIsDraggable : Bool) (dWidth dHeight : Int) : Children → Children
  | none => none
  | cons w children next =>
    if fIsDraggable then
      let width := toInt32 (w.fFrame.width + dWidth)
      let height := toInt32 (w.fFrame.height + dHeight)
      let dWidth := toInt32 (width - w.fFrame.width)
      let dHeight := toInt32 (height - w.fFrame.height)
      cons ((w.setFrame (w.fFrame.resized dWidth dHeight true true)).invalidate .kInfinite)
        (children.resizeFirst w.fIsDraggable dWidth dHeight) next
    else cons w children next

def modify (id : Nat) (f : ServerWindow → Children → ServerWindow × Children) : Children → Children
  | none => none
  | cons w children next =>
    if w.id = id then cons (f w children).1 (f w children).2 next
    else cons w (children.modify id f) (next.modify id f)

/-- `_removeChild` (:132). -/
def removeChild (id : Nat) : Children → Children
  | none => none
  | cons w children next => if w.id = id then next else cons w children (next.removeChild id)

def find? (id : Nat) : Children → Option (ServerWindow × Children)
  | none => .none
  | cons w children next => if w.id = id then some (w, children) else next.find? id

end Children

namespace ServerWindow

/-- `resize` (:467). -/
def resize (width height : Int) (rightSide bottom : Bool) (w : ServerWindow) (fChildList : Children) :
    ServerWindow × Children :=
  let dWidth := toInt32 (width - w.fFrame.width)
  let dHeight := toInt32 (height - w.fFrame.height)
  let moved :=
    if !rightSide || !bottom then
      fChildList.moveBy (if rightSide then 0 else toInt32 (-dWidth)) (if bottom then 0 else toInt32 (-dHeight))
    else fChildList
  ((w.setFrame (w.fFrame.resized dWidth dHeight rightSide bottom)).invalidate .kInfinite,
    moved.resizeFirst w.fIsDraggable dWidth dHeight)

/-- `maximize` (:201). -/
def maximize (screen : Screen) (w : ServerWindow) (fChildList : Children) : ServerWindow × Children :=
  let frame : Rect :=
    if w.fIsMaximized then w.fOldFrame else ⟨0, 0, toInt32 (screen.width - 1), toInt32 (screen.height - 1)⟩
  let dX := if w.fIsMaximized then w.fOldFrame.left else toInt32 (-w.fFrame.left)
  let dY := if w.fIsMaximized then w.fOldFrame.top else toInt32 (-w.fFrame.top)
  let dWidth := toInt32 ((if w.fIsMaximized then w.fOldFrame.width else screen.width) - w.fFrame.width)
  let dHeight := toInt32 ((if w.fIsMaximized then w.fOldFrame.height else screen.height) - w.fFrame.height)
  let fOldFrame := if w.fIsMaximized then w.fOldFrame else w.fFrame
  ((({ w with fIsMaximized := !w.fIsMaximized, fOldFrame := fOldFrame }).setFrame frame).invalidate .kInfinite,
    (fChildList.moveBy dX dY).resizeFirst w.fIsDraggable dWidth dHeight)

end ServerWindow

/-! ## The root window -/

structure WindowManager where
  fRootWindow : ServerWindow
  fChildList : Children
deriving DecidableEq

namespace WindowManager

def windows (wm : WindowManager) : List ServerWindow := wm.fRootWindow :: wm.fChildList.windows

def findChildRecursive (wm : WindowManager) (x y : Int) : ServerWindow :=
  wm.fChildList.findChildRecursive x y wm.fRootWindow

/-- `updateClip( const Region & )` (:157) of the root window. -/
def updateClip (wm : WindowManager) (visibleRegion : Region) : WindowManager where
  fRootWindow := wm.fRootWindow.updateClip visibleRegion wm.fChildList
  fChildList := wm.fChildList.updateClip (visibleRegion.operatorAnd wm.fRootWindow.fBounds)

/-- `updateClip()` (:152). -/
def update (wm : WindowManager) : WindowManager := wm.updateClip wm.fRootWindow.fGlobalClip

/-- `setRootWindow` (:34). -/
def setRootWindow (root : ServerWindow) (fChildList : Children) : WindowManager :=
  (WindowManager.mk root fChildList).updateClip .kInfinite

/-- `addChild` (:105), for `newWindow` (:45). -/
def newWindow (wm : WindowManager) (window : ServerWindow) (children : Children) : WindowManager :=
  { wm with fChildList := .cons window children wm.fChildList }.update

/-- `closeWindow` (:55): `removeChild` (:113) updates the clips already. -/
def closeWindow (wm : WindowManager) (id : Nat) : WindowManager :=
  { wm with fChildList := wm.fChildList.removeChild id }.update.update

/-- `moveToFront` (:74). -/
def moveToFront (wm : WindowManager) (id : Nat) : Option WindowManager :=
  if (wm.fChildList.siblings.head?.map ServerWindow.id) = some id then some wm
  else (wm.fChildList.find? id).map fun (window, children) =>
    { wm with fChildList := .cons window children (wm.fChildList.removeChild id) }.update

/-- Something is done to a window in the tree other than the root window, and the clips are updated. -/
def change (wm : WindowManager) (id : Nat) (f : ServerWindow → Children → ServerWindow × Children) : WindowManager :=
  { wm with fChildList := wm.fChildList.modify id f }.update

/-- `moveChildBy` (:188). -/
def moveChildBy (wm : WindowManager) (id : Nat) (x y : Int) : WindowManager :=
  wm.change id fun child children => (child.moveBy x y, children.moveBy x y)

/-- `resizeChild` (:194). -/
def resizeChild (wm : WindowManager) (id : Nat) (width height : Int) (rightSide bottom : Bool) : WindowManager :=
  wm.change id (ServerWindow.resize width height rightSide bottom)

/-- `maximizeChild` (:249). -/
def maximizeChild (wm : WindowManager) (screen : Screen) (id : Nat) : WindowManager :=
  wm.change id (ServerWindow.maximize screen)

def modify (wm : WindowManager) (id : Nat) (f : ServerWindow → ServerWindow) : WindowManager :=
  if wm.fRootWindow.id = id then { wm with fRootWindow := f wm.fRootWindow }
  else { wm with fChildList := wm.fChildList.modify id fun w children => (f w, children) }

end WindowManager

/-! ## The calls -/

inductive Call where
  | newWindow (window : ServerWindow) (children : Children)
  | closeWindow (id : Nat)
  | moveToFront (id : Nat)
  | moveChildBy (id : Nat) (x y : Int)
  | resizeChild (id : Nat) (width height : Int) (rightSide bottom : Bool)
  | maximizeChild (id : Nat)
  | invalidate (id : Nat) (region : Region)
  | beginPaint (id : Nat)
  | endPaint (id : Nat)
deriving DecidableEq

def Unclipped (windows : List ServerWindow) : Prop :=
  (ids windows).Nodup ∧
    ∀ w ∈ windows, w.fGlobalClip = [] ∧ w.fLocalClip = [] ∧ w.fDirtyRegion.Ints
  deriving Decidable

namespace Call

/-- A new window is one, a window that is closed or moved to the front is a child of the root window, and the other
calls are about windows in the tree. Coordinates are of `int`. -/
def Enabled (wm : WindowManager) : Call → Prop
  | newWindow window children =>
    Unclipped (window :: children.windows) ∧
      ∀ w ∈ window :: children.windows, w.id ∉ ids wm.windows
  | closeWindow id | moveToFront id => id ∈ ids wm.fChildList.siblings
  | moveChildBy id _ _ | resizeChild id _ _ _ _ | maximizeChild id => id ∈ ids wm.fChildList.windows
  | invalidate id region => id ∈ ids wm.windows ∧ region.Ints
  | beginPaint id | endPaint id => id ∈ ids wm.windows

instance (wm : WindowManager) : (call : Call) → Decidable (call.Enabled wm)
  | newWindow _ _ => inferInstanceAs (Decidable (_ ∧ _))
  | closeWindow _ | moveToFront _ => inferInstanceAs (Decidable (_ ∈ _))
  | moveChildBy _ _ _ | resizeChild _ _ _ _ _ | maximizeChild _ => inferInstanceAs (Decidable (_ ∈ _))
  | invalidate _ _ => inferInstanceAs (Decidable (_ ∧ _))
  | beginPaint _ | endPaint _ => inferInstanceAs (Decidable (_ ∈ _))

def run (screen : Screen) (wm : WindowManager) : Call → Option WindowManager
  | newWindow window children => some (wm.newWindow window children)
  | closeWindow id => some (wm.closeWindow id)
  | moveToFront id => wm.moveToFront id
  | moveChildBy id x y => some (wm.moveChildBy id x y)
  | resizeChild id width height rightSide bottom => some (wm.resizeChild id width height rightSide bottom)
  | maximizeChild id => some (wm.maximizeChild screen id)
  | invalidate id region => some (wm.modify id (·.invalidate region))
  | beginPaint id => some (wm.modify id ServerWindow.beginPaint)
  | endPaint id => some (wm.modify id ServerWindow.endPaint)

end Call

/-- Calls after `setRootWindow`. -/
def system (screen : Screen) : StepSystem WindowManager Call where
  init wm := ∃ root children, Unclipped (root :: children.windows) ∧ wm = .setRootWindow root children
  step wm call := if call.Enabled wm then call.run screen wm else none

/-! ## A window at each address -/

variable {f : ServerWindow → Children → ServerWindow × Children} {id : Nat}

namespace Children

theorem ids_cons (w : ServerWindow) (children next : Children) :
    ids (cons w children next).windows = w.id :: (ids children.windows ++ ids next.windows) := by
  simp [ids, windows]

theorem ids_updateClip (visibleRegion : Region) (children : Children) :
    ids (children.updateClip visibleRegion).windows = ids children.windows := by
  induction children generalizing visibleRegion with
  | none => rfl
  | cons w children next ihc ihn =>
    rw [updateClip, ids_cons, ids_cons, ihc, ihn]
    rfl

theorem ids_moveBy (x y : Int) (children : Children) : ids (children.moveBy x y).windows = ids children.windows := by
  induction children with
  | none => rfl
  | cons w children next ihc ihn =>
    rw [moveBy, ids_cons, ids_cons, ihc, ihn]
    rfl

theorem ids_resizeFirst (fIsDraggable : Bool) (dWidth dHeight : Int) (children : Children) :
    ids (children.resizeFirst fIsDraggable dWidth dHeight).windows = ids children.windows := by
  induction children generalizing fIsDraggable dWidth dHeight with
  | none => rfl
  | cons w children next ihc _ =>
    unfold resizeFirst
    split
    · rw [ids_cons, ids_cons, ihc]
      rfl
    · rfl

theorem ids_modify (id : Nat)
    (hid : ∀ w children, (f w children).1.id = w.id)
    (hids : ∀ w children, ids (f w children).2.windows = ids children.windows) (children : Children) :
    ids (children.modify id f).windows = ids children.windows := by
  induction children with
  | none => rfl
  | cons w children next ihc ihn =>
    unfold modify
    split
    · rw [ids_cons, ids_cons, hid, hids]
    · rw [ids_cons, ids_cons, ihc, ihn]

theorem removeChild_perm {list : Children} {w : ServerWindow} {children : Children}
    (h : list.find? id = some (w, children)) :
    ((w :: children.windows) ++ (list.removeChild id).windows).Perm list.windows := by
  induction list with
  | none => cases h
  | cons v inside next _ ih =>
    unfold find? at h
    unfold removeChild
    split at h
    · next hid =>
      cases h
      rw [if_pos hid]
      exact List.Perm.refl _
    · next hid =>
      rw [if_neg hid]
      refine .trans perm_middle (.cons _ ?_)
      rw [← append_assoc]
      refine .trans (perm_append_comm.append_right _) ?_
      rw [append_assoc]
      exact (ih h).append_left _

theorem removeChild_sublist (id : Nat) (children : Children) :
    (children.removeChild id).windows.Sublist children.windows := by
  induction children with
  | none => exact List.Sublist.refl _
  | cons w children next _ ih =>
    unfold removeChild
    split
    · exact (sublist_append_right _ _).cons _
    · exact (ih.append_left _).cons_cons _

end Children

namespace WindowManager

variable {wm wm' : WindowManager}

variable {screen : Screen}

variable {call : Call}

theorem step_run (h : (system screen).step wm call = some wm') :
    call.Enabled wm ∧ call.run screen wm = some wm' := by
  change (if call.Enabled wm then call.run screen wm else none) = some wm' at h
  split at h
  · next henabled => exact ⟨henabled, h⟩
  · cases h

theorem ids_update (wm : WindowManager) : ids wm.update.windows = ids wm.windows := by
  simp only [ids, windows, map_cons]
  exact congrArg _ (Children.ids_updateClip _ wm.fChildList)

theorem ids_change (wm : WindowManager) (id : Nat)
    (hid : ∀ w children, (f w children).1.id = w.id)
    (hids : ∀ w children, ids (f w children).2.windows = ids children.windows) :
    ids (wm.change id f).windows = ids wm.windows := by
  unfold change
  rw [ids_update]
  exact congrArg (wm.fRootWindow.id :: ·) (Children.ids_modify id hid hids wm.fChildList)

theorem ids_modify (wm : WindowManager) (id : Nat) {f : ServerWindow → ServerWindow} (hid : ∀ w, (f w).id = w.id) :
    ids (wm.modify id f).windows = ids wm.windows := by
  unfold modify
  split
  · simp only [ids, windows, map_cons, hid]
  · exact congrArg (wm.fRootWindow.id :: ·)
      (Children.ids_modify id (fun w _ => hid w) (fun _ _ => rfl) wm.fChildList)

theorem perm_moveToFront (hmove : wm.moveToFront id = some wm') :
    (ids wm'.windows).Perm (ids wm.windows) := by
  unfold moveToFront at hmove
  split at hmove
  · cases hmove
    exact .refl _
  · obtain ⟨⟨window, children⟩, hfind, rfl⟩ := Option.map_eq_some_iff.1 hmove
    rw [ids_update]
    exact ((Children.removeChild_perm hfind).cons wm.fRootWindow).map ServerWindow.id

theorem ids_moveChildBy (wm : WindowManager) (id : Nat) (x y : Int) :
    ids (wm.moveChildBy id x y).windows = ids wm.windows :=
  ids_change wm id (fun _ _ => rfl) fun _ children => Children.ids_moveBy x y children

theorem ids_resizeChild (wm : WindowManager) (id : Nat) (width height : Int) (rightSide bottom : Bool) :
    ids (wm.resizeChild id width height rightSide bottom).windows = ids wm.windows := by
  refine ids_change wm id (fun _ _ => rfl) fun w children => ?_
  unfold ServerWindow.resize
  rw [Children.ids_resizeFirst]
  split
  · exact Children.ids_moveBy _ _ children
  · rfl

theorem ids_maximizeChild (wm : WindowManager) (screen : Screen) (id : Nat) :
    ids (wm.maximizeChild screen id).windows = ids wm.windows := by
  refine ids_change wm id (fun _ _ => rfl) fun w children => ?_
  unfold ServerWindow.maximize
  rw [Children.ids_resizeFirst, Children.ids_moveBy]

theorem nodup_run (h : (ids wm.windows).Nodup) (henabled : call.Enabled wm)
    (hrun : call.run screen wm = some wm') : (ids wm'.windows).Nodup := by
  cases call with
  | newWindow window children =>
    cases hrun
    obtain ⟨⟨hnodup, -⟩, hfresh⟩ := henabled
    unfold newWindow
    rw [ids_update]
    have hperm : ((window :: children.windows) ++ wm.windows).Perm
        (wm.fRootWindow :: (window :: (children.windows ++ wm.fChildList.windows))) := perm_middle
    refine ((hperm.map ServerWindow.id).nodup_iff).1 ?_
    rw [map_append]
    refine nodup_append.2 ⟨hnodup, h, fun id hnew id' hold heq => ?_⟩
    obtain ⟨w, hw, rfl⟩ := mem_map.1 hnew
    exact hfresh w hw (by rw [heq]; exact hold)
  | closeWindow id =>
    cases hrun
    unfold closeWindow
    rw [ids_update, ids_update]
    exact h.sublist (((Children.removeChild_sublist id wm.fChildList).cons_cons wm.fRootWindow).map ServerWindow.id)
  | moveToFront id => exact (perm_moveToFront hrun).nodup_iff.2 h
  | moveChildBy id x y =>
    cases hrun
    rwa [ids_moveChildBy]
  | resizeChild id width height rightSide bottom =>
    cases hrun
    rwa [ids_resizeChild]
  | maximizeChild id =>
    cases hrun
    rwa [ids_maximizeChild]
  | invalidate id region =>
    cases hrun
    rw [ids_modify (f := (·.invalidate region)) wm id fun _ => rfl]
    exact h
  | beginPaint id =>
    cases hrun
    rw [ids_modify wm id ServerWindow.beginPaint_id]
    exact h
  | endPaint id =>
    cases hrun
    rw [ids_modify wm id ServerWindow.endPaint_id]
    exact h

theorem ids_nodup (h : (system screen).Reach wm) : (ids wm.windows).Nodup := by
  refine h.invariant (fun wm => (ids wm.windows).Nodup) ?_ ?_
  · rintro _ ⟨root, children, ⟨hnodup, -⟩, rfl⟩
    have hids : ids (setRootWindow root children).windows = ids (root :: children.windows) :=
      congrArg (root.id :: ·) (Children.ids_updateClip _ children)
    rw [hids]
    exact hnodup
  · intro wm call wm' h hstep
    obtain ⟨henabled, hrun⟩ := step_run hstep
    exact nodup_run h henabled hrun

end WindowManager

end Windowing
