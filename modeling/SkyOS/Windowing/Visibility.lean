import SkyOS.Windowing.ServerWindow

/-!
# Each point belongs to one window

The clips depend on the bounds only, so they are right as soon as `updateClip` has run once more: `Clipped` says that
they are as `updateClip` makes them, and every call leaves it so. A child's part of the region is taken out of it
before the next sibling and the parent get theirs, in the order in which `findChildRecursive` asks the children.
-/

namespace Windowing

open List Bool

namespace Region

variable {b : Region}

theorem contains_operatorSubAssign (a : Region) (hb : b.Within) (x y : Int) :
    (a.operatorSubAssign b).contains x y = (a.contains x y && !b.contains x y) := by
  have hpoints : (a.operatorSubAssign b).points = a.points \ b.points := points_exclude a hb.steps
  rw [Bool.eq_iff_iff, and_eq_true, not_eq_true', ← not_eq_true]
  simp only [contains_iff_points, hpoints, Set.mem_sdiff]

theorem contains_operatorAnd {a : Region} (ha : a.Within) (hb : b.Within) (x y : Int) :
    (a.operatorAnd b).contains x y = (a.contains x y && b.contains x y) := by
  rw [Bool.eq_iff_iff, and_eq_true]
  simp only [contains_iff_points, points_operatorAnd ha.points_subset hb.steps, Set.mem_inter_iff]

end Region

variable {visibleRegion : Region}

namespace Children

/-! ## Clips as they should be -/

/-- The local clips are those that `updateClip` computes. -/
def Clipped : Region → Children → Prop
  | _, none => True
  | visibleRegion, cons w children next =>
    w.fLocalClip = children.clipAgainst (visibleRegion.operatorAnd w.fBounds) ∧
      Clipped (visibleRegion.operatorAnd w.fBounds) children ∧
      Clipped (visibleRegion.operatorSubAssign w.fBounds) next

theorem clipAgainst_updateClip (clip visibleRegion : Region) (children : Children) :
    (children.updateClip visibleRegion).clipAgainst clip = children.clipAgainst clip := by
  induction children generalizing clip visibleRegion with
  | none => rfl
  | cons w children next _ ih => exact ih _ _

theorem clipped_updateClip (visibleRegion : Region) (children : Children) :
    (children.updateClip visibleRegion).Clipped visibleRegion := by
  induction children generalizing visibleRegion with
  | none => trivial
  | cons w children next ihc ihn => exact ⟨(clipAgainst_updateClip _ _ children).symm, ihc _, ihn _⟩

variable {children : Children}

section Modify

variable {f : ServerWindow → ServerWindow} (hbounds : ∀ w, (f w).fBounds = w.fBounds)
  (hclip : ∀ w, (f w).fLocalClip = w.fLocalClip) (id : Nat)

include hbounds in
theorem clipAgainst_modify (clip : Region) (children : Children) :
    (children.modify id fun w children => (f w, children)).clipAgainst clip = children.clipAgainst clip := by
  induction children generalizing clip with
  | none => rfl
  | cons w children next _ ih =>
    unfold modify
    split
    · simp only [clipAgainst, hbounds]
    · exact ih _

include hbounds hclip in
theorem Clipped.modify (h : children.Clipped visibleRegion) :
    (children.modify id fun w children => (f w, children)).Clipped visibleRegion := by
  induction children generalizing visibleRegion with
  | none => trivial
  | cons w children next ihc ihn =>
    obtain ⟨hw, hc, hn⟩ := h
    unfold Children.modify
    split
    · simp only [Clipped, hbounds, hclip]
      exact ⟨hw, hc, hn⟩
    · exact ⟨by rw [clipAgainst_modify hbounds, hw], ihc hc, ihn hn⟩

end Modify

/-! ## One window for each point -/

/-- The windows a point belongs to, the window with the children first. -/
def owners (x y : Int) (this : ServerWindow) (fLocalClip : Region) (children : Children) : List ServerWindow :=
  (if fLocalClip.contains x y then [this] else []) ++ children.windows.filter fun w => w.fLocalClip.contains x y

/-- In a region that is given out to a window and its children, a point belongs to the one that
`findChildRecursive` finds; outside of it to none. -/
theorem Clipped.owners_eq (h : children.Clipped visibleRegion)
    (hvisible : visibleRegion.Within) (hbounds : ∀ w ∈ children.windows, w.fBounds.Within) (x y : Int)
    (this : ServerWindow) : children.owners x y this (children.clipAgainst visibleRegion) =
      if visibleRegion.contains x y then [children.findChildRecursive x y this] else [] := by
  induction children generalizing visibleRegion this with
  | none => exact append_nil _
  | cons w children next ihc ihn =>
    obtain ⟨hw, hc, hn⟩ := h
    simp only [windows, mem_cons, mem_append] at hbounds
    have hb := hbounds w (.inl rfl)
    have hinside := ihc hc (hvisible.exclude _) (fun w hw => hbounds w (.inr (.inl hw))) w
    have hbeside := ihn hn (hvisible.exclude _) (fun w hw => hbounds w (.inr (.inr hw))) this
    rw [Region.contains_operatorAnd hvisible hb, ← hw] at hinside
    rw [Region.contains_operatorSubAssign _ hb] at hbeside
    -- the window's own share and its children's stand between what is left and the siblings
    have hsplit : (cons w children next).owners x y this ((cons w children next).clipAgainst visibleRegion) =
        (if (next.clipAgainst (visibleRegion.operatorSubAssign w.fBounds)).contains x y then [this] else []) ++
          children.owners x y w w.fLocalClip ++ next.windows.filter fun w => w.fLocalClip.contains x y := by
      change _ ++ List.filter _ (w :: (children.windows ++ next.windows)) = _
      rw [filter_cons, filter_append, owners, clipAgainst]
      cases w.fLocalClip.contains x y <;> simp
    rw [hsplit, hinside]
    by_cases hin : w.fBounds.contains x y = true
    · simp only [hin, Bool.not_true, Bool.and_false, false_eq_true, if_false] at hbeside
      obtain ⟨hleft, hsiblings⟩ := append_eq_nil_iff.1 hbeside
      simp [hleft, hsiblings, hin, findChildRecursive]
    · simp only [not_eq_true] at hin
      simp only [hin, Bool.not_false, Bool.and_true] at hbeside
      simp only [hin, Bool.and_false, false_eq_true, if_false, append_nil, findChildRecursive]
      exact hbeside

end Children

/-! ## The root window -/

namespace WindowManager

structure Clipped (wm : WindowManager) : Prop where
  within : wm.fRootWindow.fGlobalClip.Within
  whole : wm.fRootWindow.fBounds.Within → wm.fRootWindow.fGlobalClip.points = wm.fRootWindow.fBounds.points
  root : wm.fRootWindow.fLocalClip = wm.fChildList.clipAgainst wm.fRootWindow.fGlobalClip
  children : wm.fChildList.Clipped wm.fRootWindow.fGlobalClip

variable {wm : WindowManager}

theorem clipped_updateClip (hvisible : visibleRegion.Within)
    (hwhole : wm.fRootWindow.fBounds.Within → wm.fRootWindow.fBounds.points ⊆ visibleRegion.points) :
    (wm.updateClip visibleRegion).Clipped where
  within := hvisible.exclude _
  whole hbounds := by
    have hand := Region.points_operatorAnd hvisible.points_subset hbounds.steps
    exact hand.trans (Set.inter_eq_right.2 (hwhole hbounds))
  root := (Children.clipAgainst_updateClip _ _ wm.fChildList).symm
  children := Children.clipped_updateClip _ wm.fChildList

theorem Clipped.update (h : wm.Clipped) (children : Children) :
    ({ wm with fChildList := children }.update).Clipped :=
  clipped_updateClip h.within fun hbounds => (h.whole hbounds).ge

theorem Clipped.modify (h : wm.Clipped) (id : Nat) {f : ServerWindow → ServerWindow}
    (hbounds : ∀ w, (f w).fBounds = w.fBounds) (hglobal : ∀ w, (f w).fGlobalClip = w.fGlobalClip)
    (hclip : ∀ w, (f w).fLocalClip = w.fLocalClip) : (wm.modify id f).Clipped := by
  unfold WindowManager.modify
  split
  · exact ⟨by rw [hglobal]; exact h.within, by rw [hglobal, hbounds]; exact h.whole,
      by rw [hglobal, hclip]; exact h.root, by rw [hglobal]; exact h.children⟩
  · exact ⟨h.within, h.whole, by rw [Children.clipAgainst_modify hbounds]; exact h.root,
      h.children.modify hbounds hclip id⟩

open ServerWindow in
theorem Clipped.run {screen : Screen} {wm wm' : WindowManager} (h : wm.Clipped) {call : Call}
    (hrun : call.run screen wm = some wm') : wm'.Clipped := by
  cases call with
  | newWindow window children => cases hrun; exact h.update _
  | closeWindow id => cases hrun; exact (h.update _).update _
  | moveToFront id =>
    change wm.moveToFront id = some wm' at hrun
    unfold WindowManager.moveToFront at hrun
    split at hrun
    · cases hrun
      exact h
    · obtain ⟨⟨window, children⟩, -, rfl⟩ := Option.map_eq_some_iff.1 hrun
      exact h.update _
  | moveChildBy id x y => cases hrun; exact h.update _
  | resizeChild id width height rightSide bottom => cases hrun; exact h.update _
  | maximizeChild id => cases hrun; exact h.update _
  | invalidate id region => cases hrun; exact h.modify id (fun _ => rfl) (fun _ => rfl) fun _ => rfl
  | beginPaint id => cases hrun; exact h.modify id beginPaint_fBounds beginPaint_fGlobalClip beginPaint_fLocalClip
  | endPaint id => cases hrun; exact h.modify id endPaint_fBounds endPaint_fGlobalClip endPaint_fLocalClip

theorem clipped_of_reach {screen : Screen} (h : (system screen).Reach wm) : wm.Clipped := by
  refine h.invariant Clipped ?_ ?_
  · rintro _ ⟨root, children, -, rfl⟩
    refine clipped_updateClip Region.regular_kInfinite.within fun hbounds => ?_
    rw [Region.points_kInfinite]
    exact hbounds.points_subset
  · intro wm call wm' h hstep
    exact h.run (step_run hstep).2

/-- In the root window's region a point belongs to the window that `findChildRecursive` finds; outside of it to none. -/
theorem Clipped.filter_eq (h : wm.Clipped) (hbounds : ∀ w ∈ wm.windows, w.fBounds.Within)
    (x y : Int) : wm.windows.filter (fun w => w.fLocalClip.contains x y) =
      if wm.fRootWindow.fGlobalClip.contains x y then [wm.findChildRecursive x y] else [] := by
  have howners := h.children.owners_eq h.within (fun w hw => hbounds w (.tail _ hw)) x y wm.fRootWindow
  rw [← h.root] at howners
  unfold findChildRecursive
  rw [← howners, windows, filter_cons, Children.owners]
  split <;> simp

theorem Clipped.global (h : wm.Clipped) (hbounds : ∀ w ∈ wm.windows, w.fBounds.Within) {x y : Int}
    (hin : wm.fRootWindow.fBounds.contains x y = true) : wm.fRootWindow.fGlobalClip.contains x y = true := by
  rw [Region.contains_iff_points, h.whole (hbounds _ mem_cons_self)]
  exact hin

/-- **Visibility.** After every run, each point of the root window's bounds is in the local clip of exactly one
window, the one that `findChildRecursive` finds there. -/
theorem owner_eq_findChildRecursive {screen : Screen} {wm : WindowManager} (h : (system screen).Reach wm)
    (hbounds : ∀ w ∈ wm.windows, w.fBounds.Within) {x y : Int} (hin : wm.fRootWindow.fBounds.contains x y = true) :
    wm.windows.filter (fun w => w.fLocalClip.contains x y) = [wm.findChildRecursive x y] := by
  have hclipped := clipped_of_reach h
  rw [hclipped.filter_eq hbounds, if_pos (hclipped.global hbounds hin)]

def twoWindows : List Call :=
  [.newWindow (.new 2 ⟨10, 10, 300, 300⟩ false) (.cons (.new 3 ⟨14, 30, 296, 296⟩ true) .none .none),
   .newWindow (.new 4 ⟨100, 100, 400, 400⟩ false) .none, .moveToFront 2, .moveChildBy 4 5 (-5)]

/-- Where they overlap the child is found. -/
theorem owner_eq_findChildRecursive_two : ∃ wm, (system ⟨1024, 768⟩).Reach wm ∧
    wm.windows.filter (fun w => w.fLocalClip.contains 150 150) = [wm.findChildRecursive 150 150] ∧
    (wm.findChildRecursive 150 150).id = 3 := by
  have hrun : ((system ⟨1024, 768⟩).exec (.setRootWindow (.new 1 ⟨0, 0, 1023, 767⟩ false) .none) twoWindows).map
      (fun wm => decide ((∀ w ∈ wm.windows, w.fBounds.Within) ∧ wm.fRootWindow.fBounds.contains 150 150 = true ∧
        (wm.findChildRecursive 150 150).id = 3)) = some true := by decide +kernel
  obtain ⟨wm, hwm, hfacts⟩ := Option.map_eq_some_iff.1 hrun
  obtain ⟨hbounds, hin, hid⟩ := of_decide_eq_true hfacts
  have hinit : (system ⟨1024, 768⟩).init (.setRootWindow (.new 1 ⟨0, 0, 1023, 767⟩ false) .none) :=
    ⟨_, _, by decide, rfl⟩
  have hreach := StepSystem.reach_exec twoWindows (.init hinit) hwm
  exact ⟨wm, hreach, owner_eq_findChildRecursive hreach hbounds hin, hid⟩

end WindowManager

end Windowing
