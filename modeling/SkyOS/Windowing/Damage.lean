import Mathlib.Data.List.Induction
import SkyOS.Windowing.ServerWindow

/-!
# No damage is lost

A point that is visible in a window and not dirty has been visible since the window was last painted, with the window
in its place. One step at a time: a point that is `Steady` in a window afterwards was so before, in the same window at
the same place (`Follows`), unless the window has just been painted. What is moved or resized is dirty everywhere.
-/

namespace Windowing

open List

namespace ServerWindow

def Steady (w : ServerWindow) (p : Int × Int) : Prop := p ∈ w.fLocalClip.points ∧ p ∉ w.fDirtyRegion.points

def Sound (w : ServerWindow) : Prop := w.fLocalClip.Within ∧ w.fDirtyRegion.Ints

/-- What a window can become when it is not painted. -/
structure Follows (p : Int × Int) (w w' : ServerWindow) : Prop where
  id : w'.id = w.id
  sound : w.Sound → w'.Sound
  steady : w.Sound → w'.Steady p → w.Steady p ∧ w'.fFrame = w.fFrame ∧ w'.fBounds = w.fBounds

variable {p : Int × Int} {w w' w'' : ServerWindow}

theorem Follows.refl (p : Int × Int) (w : ServerWindow) : Follows p w w := ⟨rfl, fun h => h, fun _ h => ⟨h, rfl, rfl⟩⟩

theorem Follows.trans (h : Follows p w w') (h' : Follows p w' w'') : Follows p w w'' := by
  refine ⟨h'.id.trans h.id, fun hs => h'.sound (h.sound hs), fun hs hsteady => ?_⟩
  obtain ⟨hsteady', hframe', hbounds'⟩ := h'.steady (h.sound hs) hsteady
  obtain ⟨hsteady'', hframe, hbounds⟩ := h.steady hs hsteady'
  exact ⟨hsteady'', hframe'.trans hframe, hbounds'.trans hbounds⟩

theorem ints_kInfinite : Region.kInfinite.Ints := Region.regular_kInfinite.within.ints

theorem follows_invalidate (p : Int × Int) (w : ServerWindow) {region : Region} (hregion : region.Ints) :
    Follows p w (w.invalidate region) := by
  refine ⟨rfl, fun hs => ⟨hs.1, hs.2.operatorOr hregion⟩, fun hs hsteady => ⟨⟨hsteady.1, fun hdirty => ?_⟩, rfl, rfl⟩⟩
  refine hsteady.2 ?_
  have hor : (w.invalidate region).fDirtyRegion.points = _ := Region.points_operatorOr hs.2 hregion
  rw [hor]
  exact .inl hdirty

/-- A window that is dirty everywhere, wherever it is now. -/
theorem follows_kInfinite (p : Int × Int) (hid : w'.id = w.id) (hclip : w'.fLocalClip = w.fLocalClip)
    (hdirty : w'.fDirtyRegion = w.fDirtyRegion) : Follows p w (w'.invalidate .kInfinite) := by
  refine ⟨hid, fun hs => ⟨?_, ?_⟩, fun hs hsteady => ?_⟩
  · change w'.fLocalClip.Within
    rw [hclip]
    exact hs.1
  · change (w'.fDirtyRegion.operatorOr _).Ints
    rw [hdirty]
    exact hs.2.operatorOr ints_kInfinite
  · refine absurd ?_ hsteady.2
    change p ∈ (w'.fDirtyRegion.operatorOr _).points
    rw [hdirty, Region.points_operatorOr hs.2 ints_kInfinite, Region.points_kInfinite]
    have hin : p ∈ w'.fLocalClip.points := hsteady.1
    rw [hclip] at hin
    exact .inr (hs.1.points_subset hin)

end ServerWindow

open ServerWindow

namespace Children

theorem within_clipAgainst {clip : Region} (h : clip.Within) (children : Children) :
    (children.clipAgainst clip).Within := by
  induction children generalizing clip with
  | none => exact h
  | cons w children next _ ih => exact ih (h.exclude _)

end Children

variable {visibleRegion : Region} {R : ServerWindow → ServerWindow → Prop}
    {f : ServerWindow → Children → ServerWindow × Children}

/-- What has become visible is dirty. -/
theorem ServerWindow.follows_updateClip (p : Int × Int) (w : ServerWindow)
    (hvisible : visibleRegion.Within) (children : Children) : Follows p w (w.updateClip visibleRegion children) := by
  have hclip : (children.clipAgainst (visibleRegion.operatorAnd w.fBounds)).Within :=
    Children.within_clipAgainst (hvisible.exclude _) children
  generalize hlocal : children.clipAgainst (visibleRegion.operatorAnd w.fBounds) = fLocalClip at hclip
  have hexposed : (fLocalClip.operatorSub w.fLocalClip).Ints := hclip.ints.exclude _
  refine ⟨rfl, fun hs => ⟨?_, ?_⟩, fun hs hsteady => ?_⟩
  · change (children.clipAgainst _).Within
    rw [hlocal]
    exact hclip
  · change (w.fDirtyRegion.operatorOr ((children.clipAgainst _).operatorSub _)).Ints
    rw [hlocal]
    exact hs.2.operatorOr hexposed
  · obtain ⟨hin, hdirty⟩ := hsteady
    change p ∈ (children.clipAgainst _).points at hin
    change p ∉ (w.fDirtyRegion.operatorOr ((children.clipAgainst _).operatorSub _)).points at hdirty
    rw [hlocal] at hin hdirty
    rw [Region.points_operatorOr hs.2 hexposed] at hdirty
    refine ⟨⟨?_, fun h => hdirty (.inl h)⟩, rfl, rfl⟩
    by_contra hout
    exact hdirty (.inr (Region.subset_points_exclude hclip.ints hs.1.ints ⟨hin, hout⟩))

section Unclipped

variable {windows : List ServerWindow} (h : Unclipped windows) {w : ServerWindow} (hw : w ∈ windows)

include h hw

theorem Unclipped.sound : w.Sound := by
  obtain ⟨-, hclip, hdirty⟩ := h.2 w hw
  exact ⟨by rw [hclip]; exact fun rect hrect => absurd hrect not_mem_nil, hdirty⟩

theorem Unclipped.not_steady (p : Int × Int) : ¬ w.Steady p := by
  intro hsteady
  obtain ⟨rect, hrect, -⟩ := Region.mem_points.1 hsteady.1
  rw [(h.2 w hw).2.1] at hrect
  exact absurd hrect not_mem_nil

end Unclipped

/-! ## The windows of a tree -/

def Stem (R : ServerWindow → ServerWindow → Prop) (before after : List ServerWindow) : Prop :=
  ∀ w' ∈ after, ∃ w ∈ before, R w w'

section Stem

variable {R : ServerWindow → ServerWindow → Prop} {a b c a' b' : List ServerWindow}

theorem Stem.of_subset (hrefl : ∀ w, R w w) (h : b ⊆ a) : Stem R a b := fun w hw => ⟨w, h hw, hrefl w⟩

theorem Stem.trans (htrans : ∀ {w w' w''}, R w w' → R w' w'' → R w w'') (h : Stem R a b) (h' : Stem R b c) :
    Stem R a c := by
  intro w'' hw''
  obtain ⟨w', hw', h'⟩ := h' w'' hw''
  obtain ⟨w, hw, h⟩ := h w' hw'
  exact ⟨w, hw, htrans h h'⟩

theorem Stem.append (h : Stem R a b) (h' : Stem R a' b') : Stem R (a ++ a') (b ++ b') := by
  intro w hw
  rcases mem_append.1 hw with hw | hw
  · obtain ⟨w₀, hw₀, hR⟩ := h w hw
    exact ⟨w₀, mem_append_left _ hw₀, hR⟩
  · obtain ⟨w₀, hw₀, hR⟩ := h' w hw
    exact ⟨w₀, mem_append_right _ hw₀, hR⟩

theorem Stem.cons {w w' : ServerWindow} (hw : R w w') (h : Stem R a b) : Stem R (w :: a) (w' :: b) :=
  Stem.append (b := [w']) (fun v hv => ⟨w, mem_singleton_self _, by rw [mem_singleton.1 hv]; exact hw⟩) h

end Stem

variable {id : Nat} {children : Children}

namespace Children

variable {p : Int × Int}

theorem stem_updateClip (p : Int × Int) (hvisible : visibleRegion.Within)
    (children : Children) : Stem (Follows p) children.windows (children.updateClip visibleRegion).windows := by
  induction children generalizing visibleRegion with
  | none => exact .of_subset (.refl p) (List.Subset.refl _)
  | cons w children next ihc ihn =>
    exact .cons (follows_updateClip p w hvisible children) ((ihc (hvisible.exclude _)).append (ihn (hvisible.exclude _)))

theorem stem_moveBy (p : Int × Int) (x y : Int) (children : Children) :
    Stem (Follows p) children.windows (children.moveBy x y).windows := by
  induction children with
  | none => exact .of_subset (.refl p) (List.Subset.refl _)
  | cons w children next ihc ihn => exact .cons (follows_kInfinite p rfl rfl rfl) (ihc.append ihn)

theorem stem_resizeFirst (p : Int × Int) (fIsDraggable : Bool) (dWidth dHeight : Int) (children : Children) :
    Stem (Follows p) children.windows (children.resizeFirst fIsDraggable dWidth dHeight).windows := by
  induction children generalizing fIsDraggable dWidth dHeight with
  | none => exact .of_subset (.refl p) (List.Subset.refl _)
  | cons w children next ihc _ =>
    unfold resizeFirst
    split
    · exact .cons (follows_kInfinite p rfl rfl rfl) ((ihc _ _ _).append (.of_subset (.refl p) (List.Subset.refl _)))
    · exact .of_subset (.refl p) (List.Subset.refl _)

theorem stem_modify (hrefl : ∀ w, R w w) (id : Nat)
    (hf : ∀ w children, w.id = id → Stem R (w :: children.windows) ((f w children).1 :: (f w children).2.windows))
    (children : Children) : Stem R children.windows (children.modify id f).windows := by
  induction children with
  | none => exact .of_subset hrefl (List.Subset.refl _)
  | cons w children next ihc ihn =>
    unfold modify
    split
    · next hid => exact (hf w children hid).append (.of_subset hrefl (List.Subset.refl _))
    · exact .cons (hrefl w) (ihc.append ihn)

theorem windows_find? {list : Children} {w : ServerWindow}
    (h : list.find? id = some (w, children)) : w :: children.windows ⊆ list.windows := by
  induction list with
  | none => cases h
  | cons v inside next _ ih =>
    unfold find? at h
    split at h
    · cases h
      exact cons_subset_cons _ (subset_append_left _ _)
    · exact fun u hu => .tail _ (mem_append_right _ (ih h hu))

end Children

/-! ## One call -/

namespace WindowManager

structure Sound (wm : WindowManager) : Prop where
  within : wm.fRootWindow.fGlobalClip.Within
  windows : ∀ w ∈ wm.windows, w.Sound

variable {wm wm' : WindowManager} {p : Int × Int}

structure Follows (p : Int × Int) (wm wm' : WindowManager) : Prop where
  within : wm.fRootWindow.fGlobalClip.Within → wm'.fRootWindow.fGlobalClip.Within
  stem : wm.fRootWindow.fGlobalClip.Within → Stem (ServerWindow.Follows p) wm.windows wm'.windows

theorem follows_update (p : Int × Int) (wm : WindowManager) : Follows p wm wm.update where
  within h := h.exclude _
  stem h := .cons (follows_updateClip p wm.fRootWindow h _) (Children.stem_updateClip p (h.exclude _) wm.fChildList)

theorem follows_of_stem
    (h : Stem (ServerWindow.Follows p) wm.fChildList.windows children.windows) :
    Follows p wm { wm with fChildList := children }.update where
  within := (follows_update p _).within
  stem hwithin := Stem.trans .trans (.cons (.refl p _) h) ((follows_update p _).stem hwithin)

theorem follows_closeWindow (p : Int × Int) (wm : WindowManager) (id : Nat) : Follows p wm (wm.closeWindow id) := by
  have hremoved : Follows p wm { wm with fChildList := wm.fChildList.removeChild id }.update :=
    follows_of_stem (.of_subset (.refl p) (Children.removeChild_sublist id wm.fChildList).subset)
  have hagain := follows_update p { wm with fChildList := wm.fChildList.removeChild id }.update
  exact ⟨fun h => hagain.within (hremoved.within h),
    fun h => Stem.trans .trans (hremoved.stem h) (hagain.stem (hremoved.within h))⟩

theorem follows_moveToFront (h : wm.moveToFront id = some wm') : Follows p wm wm' := by
  unfold moveToFront at h
  split at h
  · cases h
    exact ⟨fun h => h, fun _ => .of_subset (.refl p) (List.Subset.refl _)⟩
  · obtain ⟨⟨window, children⟩, hfind, rfl⟩ := Option.map_eq_some_iff.1 h
    refine follows_of_stem (.of_subset (.refl p) ?_)
    rintro w (_ | ⟨_, hw⟩)
    · exact Children.windows_find? hfind (.head _)
    · rcases mem_append.1 hw with hw | hw
      · exact Children.windows_find? hfind (.tail _ hw)
      · exact (Children.removeChild_sublist id wm.fChildList).subset hw

theorem follows_change
    (hf : ∀ w children, Stem (ServerWindow.Follows p) (w :: children.windows)
      ((f w children).1 :: (f w children).2.windows)) : Follows p wm (wm.change id f) :=
  follows_of_stem (Children.stem_modify (.refl p) id (fun w children _ => hf w children) wm.fChildList)

theorem stem_resize (p : Int × Int) (width height : Int) (rightSide bottom : Bool) (w : ServerWindow)
    (children : Children) : Stem (ServerWindow.Follows p) (w :: children.windows)
      ((w.resize width height rightSide bottom children).1 ::
        (w.resize width height rightSide bottom children).2.windows) := by
  refine .cons (follows_kInfinite p rfl rfl rfl) ?_
  unfold ServerWindow.resize
  split
  · exact Stem.trans .trans (Children.stem_moveBy p _ _ children) (Children.stem_resizeFirst p _ _ _ _)
  · exact Children.stem_resizeFirst p _ _ _ _

theorem stem_maximize (p : Int × Int) (screen : Screen) (w : ServerWindow) (children : Children) :
    Stem (ServerWindow.Follows p) (w :: children.windows)
      ((w.maximize screen children).1 :: (w.maximize screen children).2.windows) :=
  .cons (follows_kInfinite p rfl rfl rfl)
    (Stem.trans .trans (Children.stem_moveBy p _ _ children) (Children.stem_resizeFirst p _ _ _ _))

variable {f : ServerWindow → ServerWindow} {screen : Screen}

theorem stem_modify (hrefl : ∀ w, R w w) (wm : WindowManager) (id : Nat) (hf : ∀ w, w.id = id → R w (f w)) :
    Stem R wm.windows (wm.modify id f).windows := by
  unfold modify
  split
  · next hid => exact .cons (hf _ hid) (.of_subset hrefl (List.Subset.refl _))
  · exact .cons (hrefl _) (Children.stem_modify hrefl id
      (fun w children hid => .cons (hf w hid) (.of_subset hrefl (List.Subset.refl _))) wm.fChildList)

theorem modify_fGlobalClip (wm : WindowManager) (id : Nat)
    (hf : ∀ w, (f w).fGlobalClip = w.fGlobalClip) :
    (wm.modify id f).fRootWindow.fGlobalClip = wm.fRootWindow.fGlobalClip := by
  unfold modify
  split
  · exact hf _
  · rfl

theorem follows_modify (wm : WindowManager) (id : Nat)
    (hclip : ∀ w, (f w).fGlobalClip = w.fGlobalClip) (hf : ∀ w, ServerWindow.Follows p w (f w)) :
    Follows p wm (wm.modify id f) where
  within h := by rw [modify_fGlobalClip wm id hclip]; exact h
  stem _ := stem_modify (.refl p) wm id fun w _ => hf w

theorem follows_endPaint (p : Int × Int) (w : ServerWindow) : ServerWindow.Follows p w w.endPaint := by
  obtain ⟨fClipRegion, hw⟩ := w.endPaint_eq
  rw [hw]
  exact ⟨rfl, fun h => h, fun _ h => ⟨h, rfl, rfl⟩⟩

/-- What is steady was so before, unless the window has just been painted. -/
structure Kept (p : Int × Int) (wm : WindowManager) (call : Call) (wm' : WindowManager) : Prop where
  sound : wm'.Sound
  steady : ∀ w' ∈ wm'.windows, w'.Steady p → call = .beginPaint w'.id ∨
    ∃ w ∈ wm.windows, w'.id = w.id ∧ w.Steady p ∧ w'.fFrame = w.fFrame ∧ w'.fBounds = w.fBounds

theorem Follows.kept (h : Follows p wm wm') (hsound : wm.Sound) (call : Call) : Kept p wm call wm' := by
  have hstem := h.stem hsound.within
  refine ⟨⟨h.within hsound.within, fun w' hw' => ?_⟩, fun w' hw' hsteady => .inr ?_⟩
  · obtain ⟨w, hw, hfollows⟩ := hstem w' hw'
    exact hfollows.sound (hsound.windows w hw)
  · obtain ⟨w, hw, hfollows⟩ := hstem w' hw'
    exact ⟨w, hw, hfollows.id, hfollows.steady (hsound.windows w hw) hsteady⟩

theorem kept_newWindow {window : ServerWindow} (hsound : wm.Sound)
    (henabled : (Call.newWindow window children).Enabled wm) :
    Kept p wm (.newWindow window children) (wm.newWindow window children) := by
  have hunclipped : Unclipped (window :: children.windows) := henabled.1
  have hadded : Sound { wm with fChildList := .cons window children wm.fChildList } := by
    refine ⟨hsound.within, fun w hw => ?_⟩
    have hcases : w ∈ window :: children.windows ∨ w ∈ wm.windows := by
      simp only [windows, Children.windows, mem_cons, mem_append] at hw ⊢
      tauto
    rcases hcases with hnew | hold
    · exact hunclipped.sound hnew
    · exact hsound.windows w hold
  obtain ⟨hafter, hsteady⟩ := (follows_update p _).kept hadded (.newWindow window children)
  refine ⟨hafter, fun w' hw' hs => ?_⟩
  rcases hsteady w' hw' hs with hcall | ⟨w, hw, hid, hws, hframe⟩
  · exact .inl hcall
  · refine .inr ⟨w, ?_, hid, hws, hframe⟩
    -- nothing is steady in a new window
    by_contra hold
    have hnew : w ∈ window :: children.windows := by
      simp only [windows, Children.windows, mem_cons, mem_append] at hw hold ⊢
      tauto
    exact hunclipped.not_steady hnew p hws

theorem kept_beginPaint (hsound : wm.Sound) (id : Nat) : Kept p wm (.beginPaint id) (wm.modify id beginPaint) := by
  have hstem : Stem (fun w w' => (w'.id = id ∧ (w.Sound → w'.Sound)) ∨ ServerWindow.Follows p w w') wm.windows
      (wm.modify id beginPaint).windows := by
    refine stem_modify (fun w => .inr (.refl p w)) wm id fun w hid => .inl ?_
    unfold beginPaint
    split
    · exact ⟨hid, fun h => h⟩
    · exact ⟨hid, fun h => ⟨h.1, fun rect hrect => absurd hrect not_mem_nil⟩⟩
  refine ⟨⟨?_, fun w' hw' => ?_⟩, fun w' hw' hsteady => ?_⟩
  · rw [modify_fGlobalClip wm id beginPaint_fGlobalClip]
    exact hsound.within
  · obtain ⟨w, hw, ⟨-, hs⟩ | hfollows⟩ := hstem w' hw'
    · exact hs (hsound.windows w hw)
    · exact hfollows.sound (hsound.windows w hw)
  · obtain ⟨w, hw, ⟨rfl, -⟩ | hfollows⟩ := hstem w' hw'
    · exact .inl rfl
    · exact .inr ⟨w, hw, hfollows.id, hfollows.steady (hsound.windows w hw) hsteady⟩

theorem kept_of_run {call : Call} (p : Int × Int) (hsound : wm.Sound) (henabled : call.Enabled wm)
    (hrun : call.run screen wm = some wm') : Kept p wm call wm' := by
  cases call with
  | newWindow window children => cases hrun; exact kept_newWindow hsound henabled
  | closeWindow id => cases hrun; exact (follows_closeWindow p wm id).kept hsound _
  | moveToFront id => exact (follows_moveToFront hrun).kept hsound _
  | moveChildBy id x y =>
    cases hrun
    refine (follows_change fun w children => ?_).kept hsound _
    exact .cons (follows_kInfinite p rfl rfl rfl) (Children.stem_moveBy p x y children)
  | resizeChild id width height rightSide bottom =>
    cases hrun
    exact (follows_change (stem_resize p width height rightSide bottom)).kept hsound _
  | maximizeChild id => cases hrun; exact (follows_change (stem_maximize p screen)).kept hsound _
  | invalidate id region =>
    cases hrun
    exact (follows_modify (f := (·.invalidate region)) wm id (fun _ => rfl)
      fun w => follows_invalidate p w henabled.2).kept hsound _
  | beginPaint id => cases hrun; exact kept_beginPaint hsound id
  | endPaint id =>
    cases hrun
    exact (follows_modify wm id endPaint_fGlobalClip (follows_endPaint p)).kept hsound _

/-! ## Whole runs -/

/-- In the run `calls` the window has been painted, and the point has been visible in it since, at the same place. -/
def VisibleSincePaint (screen : Screen) (start : WindowManager) (calls : List Call) (w : ServerWindow)
    (p : Int × Int) : Prop :=
  ∃ before after, calls = before ++ .beginPaint w.id :: after ∧ Call.beginPaint w.id ∉ after ∧
    ∀ later, later <+: after → ∃ wm, (system screen).exec start (before ++ .beginPaint w.id :: later) = some wm ∧
      ∃ w' ∈ wm.windows, w'.id = w.id ∧ p ∈ w'.fLocalClip.points ∧ w'.fFrame = w.fFrame ∧ w'.fBounds = w.fBounds

variable {start : WindowManager}

theorem start_clean (hstart : (system screen).init start) :
    start.Sound ∧ ∀ w ∈ start.windows, ∀ p, ¬ w.Steady p := by
  obtain ⟨root, children, hunclipped, rfl⟩ := hstart
  have hstem : ∀ p, Stem (ServerWindow.Follows p) (root :: children.windows) (setRootWindow root children).windows := by
    intro p
    have hinfinite := Region.regular_kInfinite.within
    exact .cons (follows_updateClip p root hinfinite children)
      (Children.stem_updateClip p (hinfinite.exclude _) children)
  refine ⟨⟨Region.regular_kInfinite.within.exclude _, fun w' hw' => ?_⟩, fun w' hw' p hsteady => ?_⟩
  · obtain ⟨w, hw, hfollows⟩ := hstem (0, 0) w' hw'
    exact hfollows.sound (hunclipped.sound hw)
  · obtain ⟨w, hw, hfollows⟩ := hstem p w' hw'
    exact hunclipped.not_steady hw p (hfollows.steady (hunclipped.sound hw) hsteady).1

theorem visibleSincePaint_of_steady (hstart : (system screen).init start)
    {calls : List Call} (hrun : (system screen).exec start calls = some wm) :
    wm.Sound ∧ ∀ w ∈ wm.windows, ∀ p, w.Steady p → VisibleSincePaint screen start calls w p := by
  induction calls using List.reverseRecOn generalizing wm with
  | nil =>
    cases hrun
    obtain ⟨hsound, hclean⟩ := start_clean hstart
    exact ⟨hsound, fun w hw p hsteady => absurd hsteady (hclean w hw p)⟩
  | append_singleton calls call ih =>
    have hstep := hrun
    rw [StepSystem.exec_concat] at hstep
    obtain ⟨wm₀, hwm₀, hstep⟩ := Option.bind_eq_some_iff.1 hstep
    obtain ⟨hsound, hsince⟩ := ih hwm₀
    obtain ⟨henabled, hstep⟩ := step_run hstep
    refine ⟨(kept_of_run (0, 0) hsound henabled hstep).sound, fun w hw p hsteady => ?_⟩
    by_cases hpaint : call = .beginPaint w.id
    · -- it has just been painted
      subst hpaint
      refine ⟨calls, [], rfl, not_mem_nil, fun later hlater => ?_⟩
      obtain rfl := prefix_nil.1 hlater
      exact ⟨wm, hrun, w, hw, rfl, hsteady.1, rfl, rfl⟩
    · obtain ⟨w₀, hw₀, hid, hsteady₀, hframe, hbounds⟩ :=
        ((kept_of_run p hsound henabled hstep).steady w hw hsteady).resolve_left hpaint
      obtain ⟨before, after, rfl, hlast, hlater⟩ := hsince w₀ hw₀ p hsteady₀
      rw [← hid, ← hframe, ← hbounds] at hlater
      rw [← hid] at hlast hrun
      refine ⟨before, after ++ [call], ?_, ?_, fun later hprefix => ?_⟩
      · rw [append_assoc, cons_append, hid]
      · rw [mem_append, mem_singleton]
        exact not_or.2 ⟨hlast, fun h => hpaint h.symm⟩
      · rcases prefix_concat_iff.1 hprefix with rfl | hprefix
        · rw [append_assoc, cons_append] at hrun
          exact ⟨wm, hrun, w, hw, rfl, hsteady.1, rfl, rfl⟩
        · exact hlater later hprefix

/-- **Damage.** In every state that a run reaches, a visible point of a window that is not dirty has been visible since
the window's last `beginPaint`, with the window neither moved nor resized. -/
theorem visibleSincePaint_of_clean {screen : Screen} {start wm : WindowManager} (hstart : (system screen).init start)
    {calls : List Call} (hrun : (system screen).exec start calls = some wm) {w : ServerWindow} (hw : w ∈ wm.windows)
    {p : Int × Int} (hvisible : p ∈ w.fLocalClip.points) (hclean : p ∉ w.fDirtyRegion.points) :
    VisibleSincePaint screen start calls w p :=
  (visibleSincePaint_of_steady hstart hrun).2 w hw p ⟨hvisible, hclean⟩

def paintedOnce : List Call :=
  [.newWindow (.new 2 ⟨10, 10, 300, 300⟩ false) .none, .beginPaint 2, .endPaint 2,
   .newWindow (.new 3 ⟨100, 100, 400, 400⟩ true) .none, .moveChildBy 3 5 (-5)]

/-- The corner of the first window has been visible since. -/
theorem visibleSincePaint_of_clean_once : ∃ w : ServerWindow, w.id = 2 ∧
    VisibleSincePaint ⟨1024, 768⟩ (.setRootWindow (.new 1 ⟨0, 0, 1023, 767⟩ false) .none) paintedOnce w (20, 20) := by
  have hrun : ((system ⟨1024, 768⟩).exec (.setRootWindow (.new 1 ⟨0, 0, 1023, 767⟩ false) .none) paintedOnce).map
      (fun wm => wm.windows.any fun w => w.id = 2 ∧ w.fLocalClip.contains 20 20 = true ∧
        ¬ w.fDirtyRegion.contains 20 20 = true) = some true := by decide +kernel
  obtain ⟨wm, hwm, hfacts⟩ := Option.map_eq_some_iff.1 hrun
  obtain ⟨w, hw, hfacts⟩ := List.any_eq_true.1 hfacts
  obtain ⟨hid, hvisible, hclean⟩ := of_decide_eq_true hfacts
  exact ⟨w, hid, visibleSincePaint_of_clean ⟨_, _, by decide, rfl⟩ hwm hw hvisible hclean⟩

end WindowManager
end Windowing
