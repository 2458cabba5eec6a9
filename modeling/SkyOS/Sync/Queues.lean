import SkyOS.Sync.Synchronization

/-!
# The wait queues: a tag is queued exactly while its thread waits for the object

`QueueInv` ties together the three places a wait is recorded in: the event of the thread, the tag
queues of the objects it waits for, and the tags a running `Signal` has yet to visit. It holds between
any two steps, whatever the counts do (`queueInv_reach`).
-/

namespace Synchronization

open Machine List
open Function (update update_of_ne update_self)

/-! ## Loops over objects -/

theorem modify_apply (objs : Nat → Option SyncObject) (f : SyncObject → SyncObject) (o x : Nat) :
    modify objs f o x = if x = o then (objs x).map f else objs x := by
  unfold modify
  by_cases hx : x = o
  · subst hx; simp
  · simp [hx]

variable {l : List Nat} {o t : Nat} {s s' : State} {ev : WaitEvent}

theorem modifyAll_apply (f : SyncObject → SyncObject) (hl : l.Nodup)
    (objs : Nat → Option SyncObject) (x : Nat) :
    modifyAll objs f l x = if x ∈ l then (objs x).map f else objs x := by
  induction l generalizing objs with
  | nil => simp [modifyAll]
  | cons o l ih =>
    obtain ⟨ho, hl⟩ := nodup_cons.1 hl
    have hstep : modifyAll objs f (o :: l) = modifyAll (modify objs f o) f l := rfl
    rw [hstep, ih hl, modify_apply]
    by_cases hx : x = o
    · subst hx; simp [ho]
    · simp [hx]

theorem modify_eq_modifyAll (objs : Nat → Option SyncObject) (f : SyncObject → SyncObject) (o : Nat) :
    modify objs f o = modifyAll objs f [o] := rfl

def tagsIn (objs : Nat → Option SyncObject) (o : Nat) : List Nat := ((objs o).map (·.fTags)).getD []

abbrev tagsOf (s : State) (o : Nat) : List Nat := tagsIn s.objects o

variable {objs : Nat → Option SyncObject} {ob : SyncObject} {f : SyncObject → SyncObject} {c : Call}

theorem tagsIn_some (h : objs o = some ob) :
    tagsIn objs o = ob.fTags := by
  simp [tagsIn, h]

theorem tagsIn_modifyAll_same (hf : ∀ ob, (f ob).fTags = ob.fTags)
    (hl : l.Nodup) (objs : Nat → Option SyncObject) (x : Nat) :
    tagsIn (modifyAll objs f l) x = tagsIn objs x := by
  unfold tagsIn
  rw [modifyAll_apply f hl]
  split
  · cases objs x <;> simp [hf]
  · rfl

theorem tagsIn_modifyAll_erase
    (hf : ∀ ob, (f ob).fTags = ob.fTags.erase t) (hl : l.Nodup)
    (objs : Nat → Option SyncObject) (x : Nat) :
    tagsIn (modifyAll objs f l) x = if x ∈ l then (tagsIn objs x).erase t else tagsIn objs x := by
  unfold tagsIn
  rw [modifyAll_apply f hl]
  split
  · cases objs x <;> simp [hf]
  · rfl

theorem tagsIn_modifyAll_enqueue (hl : l.Nodup)
    (he : ∀ o ∈ l, (objs o).isSome) (x : Nat) :
    tagsIn (modifyAll objs (SyncObject.enqueue t) l) x =
      if x ∈ l then tagsIn objs x ++ [t] else tagsIn objs x := by
  unfold tagsIn
  rw [modifyAll_apply _ hl]
  split
  · rename_i hx
    obtain ⟨ob, hob⟩ := Option.isSome_iff_exists.1 (he x hx)
    simp [hob, SyncObject.enqueue]
  · rfl

theorem threadWoken_fTags (ob : SyncObject) : ob.threadWoken.fTags = ob.fTags := by
  unfold SyncObject.threadWoken
  split <;> rfl

/-! ## The invariant -/

structure QueueInv (s : State) : Prop where
  nodup : ∀ o, (tagsOf s o).Nodup
  queued : ∀ o t, t ∈ tagsOf s o ↔ ∃ ev, s.waits t = some ev ∧ o ∈ ev.fTags
  event : ∀ t ev, s.waits t = some ev → ev.fTags.Nodup
  visiting : ∀ o l, s.signalling = some (o, l) → l.Nodup ∧ ∀ t ∈ l, t ∈ tagsOf s o

theorem queueInv_initial : QueueInv initial where
  nodup o := nodup_nil
  queued o t := by simp [initial, tagsIn]
  event t ev h := by simp [initial] at h
  visiting o l h := by simp [initial] at h

theorem QueueInv.frame (h : QueueInv s) (ht : ∀ o, tagsOf s' o = tagsOf s o)
    (hw : s'.waits = s.waits)
    (hv : ∀ o l, s'.signalling = some (o, l) → l.Nodup ∧ ∀ t ∈ l, t ∈ tagsOf s o) : QueueInv s' where
  nodup o := by rw [ht]; exact h.nodup o
  queued o t := by rw [ht, hw]; exact h.queued o t
  event := by rw [hw]; exact h.event
  visiting o l hl := by rw [ht]; exact hv o l hl

theorem tagsOf_signal (s : State) (o x : Nat) : tagsOf (signal s o) x = tagsOf s x := by
  have h := tagsIn_modifyAll_same (f := fun ob => { ob with fSignalled := true }) (fun _ => rfl)
    (nodup_singleton o) s.objects x
  exact h

theorem queueInv_signal (h : QueueInv s) (o : Nat) : QueueInv (signal s o) := by
  refine h.frame (tagsOf_signal s o) rfl fun x l hx => ?_
  cases hx
  exact ⟨h.nodup o, fun t ht => ht⟩

theorem queueInv_remove (h : QueueInv s) (he : s.waits t = some ev)
    (ht : ∀ x, tagsOf s' x = if x ∈ ev.fTags then (tagsOf s x).erase t else tagsOf s x)
    (hw : s'.waits = update s.waits t none)
    (hv : ∀ o l, s'.signalling = some (o, l) → l.Nodup ∧ ∀ u ∈ l, u ≠ t ∧ u ∈ tagsOf s o) : QueueInv s' := by
  -- the queues without `t`: exactly where it was queued it is erased
  have hmem : ∀ x u, u ∈ tagsOf s' x ↔ u ≠ t ∧ u ∈ tagsOf s x := by
    intro x u
    rw [ht]
    split
    · exact (h.nodup x).mem_erase_iff
    · rename_i hx
      refine ⟨fun hu => ⟨?_, hu⟩, fun hu => hu.2⟩
      rintro rfl
      obtain ⟨ev', he', hx'⟩ := (h.queued x u).1 hu
      rw [he] at he'
      cases he'
      exact hx hx'
  refine ⟨fun x => ?_, fun x u => ?_, fun u ev' hu => ?_, fun o l hl => ?_⟩
  · rw [ht]
    split
    · exact (h.nodup x).erase t
    · exact h.nodup x
  · rw [hmem, hw, h.queued x u]
    by_cases hut : u = t
    · subst hut; simp
    · simp [hut]
  · rw [hw] at hu
    by_cases hut : u = t
    · subst hut; simp at hu
    · rw [update_of_ne hut] at hu
      exact h.event u ev' hu
  · obtain ⟨hn, hl⟩ := hv o l hl
    exact ⟨hn, fun u hu => (hmem o u).2 (hl u hu)⟩

theorem queueInv_waitInternal (h : QueueInv s) {objs : List Nat} {flags : WaitFlags}
    {timed : Bool} (hv : s.signalling = none) (hw : s.waits t = none) (hl : objs.Nodup)
    (he : ∀ o ∈ objs, (s.objects o).isSome) : QueueInv (waitInternal s t objs flags timed) := by
  have ht : ∀ x, tagsOf (waitInternal s t objs flags timed) x =
      if x ∈ objs then tagsOf s x ++ [t] else tagsOf s x := tagsIn_modifyAll_enqueue hl he
  have hfresh : ∀ x, t ∉ tagsOf s x := fun x hx => by
    obtain ⟨ev, hev, -⟩ := (h.queued x t).1 hx
    rw [hw] at hev
    cases hev
  refine ⟨fun x => ?_, fun x u => ?_, fun u ev hu => ?_, fun o l hs => ?_⟩
  · rw [ht]
    split
    · exact (h.nodup x).append (nodup_singleton t) (by simpa using hfresh x)
    · exact h.nodup x
  · change _ ↔ ∃ ev, update s.waits t (some ⟨objs.reverse, flags, timed⟩) u = some ev ∧ _
    rw [ht]
    by_cases hut : u = t
    · subst hut
      rw [update_self]
      split
      · rename_i hx; simp [hx]
      · rename_i hx; simp [hx, hfresh x]
    · rw [update_of_ne hut, ← h.queued x u]
      split
      · simp [hut]
      · rfl
  · change update s.waits t (some ⟨objs.reverse, flags, timed⟩) u = some ev at hu
    by_cases hut : u = t
    · subst hut
      rw [update_self] at hu
      cases hu
      exact nodup_reverse.2 hl
    · rw [update_of_ne hut] at hu
      exact h.event u ev hu
  · change s.signalling = some (o, l) at hs
    rw [hv] at hs
    cases hs

theorem queueInv_consume (h : QueueInv s) {objs : List Nat} (hl : objs.Nodup) :
    QueueInv { s with objects := modifyAll s.objects SyncObject.threadWoken objs } :=
  h.frame (tagsIn_modifyAll_same threadWoken_fTags hl s.objects) rfl h.visiting

theorem queueInv_put (h : QueueInv s) (hob : ob.fTags = tagsOf s o) :
    QueueInv (s.put o ob) := by
  have ht : ∀ x, tagsOf (s.put o ob) x = tagsOf s x := by
    intro x
    change tagsIn (update s.objects o (some ob)) x = _
    by_cases hx : x = o
    · subst hx
      rw [tagsIn_some (update_self ..), hob]
    · unfold tagsOf tagsIn
      rw [update_of_ne hx]
  exact h.frame ht rfl h.visiting

/-! ## Every step keeps the queues -/

theorem queueInv_wake (h : QueueInv s) {rest : List Nat}
    (he : s.waits t = some ev) (hs : s.signalling = some (o, t :: rest)) :
    QueueInv (wake { s with signalling := some (o, rest) } o t ev) := by
  obtain ⟨hn, hmem⟩ := h.visiting o (t :: rest) hs
  obtain ⟨htr, hn⟩ := nodup_cons.1 hn
  have hev := h.event t ev he
  refine queueInv_remove h he (fun x => ?_) rfl fun x l hx => ?_
  · cases hf : ev.fFlags with
    | forAll =>
      simp only [tagsOf, wake, hf]
      exact tagsIn_modifyAll_erase (fun ob => by rw [threadWoken_fTags]; rfl) hev s.objects x
    | forOne =>
      simp only [tagsOf, wake, hf, modify_eq_modifyAll]
      rw [tagsIn_modifyAll_same threadWoken_fTags (nodup_singleton o)]
      exact tagsIn_modifyAll_erase (fun ob => rfl) hev s.objects x
  · change some (o, rest) = some (x, l) at hx
    cases hx
    refine ⟨hn, fun u hu => ⟨?_, hmem u (mem_cons_of_mem t hu)⟩⟩
    rintro rfl
    exact htr hu

/-- What an iteration of the loop of `Signal` does. -/
inductive Visited (s : State) : State → Prop where
  | atEnd (o : Nat) (hsig : s.signalling = some (o, [])) : Visited s { s with signalling := none }
  | usedUp (o t : Nat) (rest : List Nat) (hsig : s.signalling = some (o, t :: rest)) (hoff : signalled s o = false) :
    Visited s { s with signalling := none }
  | woken (o t : Nat) (rest : List Nat) (ev : WaitEvent) (hsig : s.signalling = some (o, t :: rest))
    (hon : signalled s o = true) (hev : s.waits t = some ev) (hw : wakes s ev = true) :
    Visited s (wake { s with signalling := some (o, rest) } o t ev)
  | passed (o t : Nat) (rest : List Nat) (ev : WaitEvent) (hsig : s.signalling = some (o, t :: rest))
    (hon : signalled s o = true) (hev : s.waits t = some ev) (hw : wakes s ev = false) :
    Visited s { s with signalling := some (o, rest) }

theorem visit_cases (hs : visit s = some s') : Visited s s' := by
  unfold visit at hs
  split at hs
  · cases hs
  · rename_i o hsig
    cases hs
    exact .atEnd o hsig
  · rename_i o t rest hsig
    split at hs
    · rename_i hon
      split at hs
      · cases hs
      · rename_i ev hev
        cases hs
        split
        · rename_i hw
          exact .woken o t rest ev hsig hon hev hw
        · rename_i hw
          exact .passed o t rest ev hsig hon hev (eq_false_of_ne_true hw)
    · rename_i hoff
      cases hs
      exact .usedUp o t rest hsig (eq_false_of_ne_true hoff)

theorem queueInv_visit (h : QueueInv s) (hs : visit s = some s') : QueueInv s' := by
  cases visit_cases hs with
  | atEnd o hsig => exact h.frame (fun _ => rfl) rfl fun o l hl => by cases hl
  | usedUp o t rest hsig hoff => exact h.frame (fun _ => rfl) rfl fun o l hl => by cases hl
  | woken o t rest ev hsig hon hev hw => exact queueInv_wake h hev hsig
  | passed o t rest ev hsig hon hev hw =>
    obtain ⟨hn, hmem⟩ := h.visiting o (t :: rest) hsig
    refine h.frame (fun _ => rfl) rfl fun x l hx => ?_
    cases hx
    exact ⟨(nodup_cons.1 hn).2, fun u hu => hmem u (mem_cons_of_mem t hu)⟩

theorem tagsOf_none (h : ¬ (s.objects o).isSome) : tagsOf s o = [] := by
  simp only [Option.not_isSome_iff_eq_none] at h
  simp [tagsIn, h]

/-- What a call does: it writes an object without touching its queue, begins a `Signal`, or both; it takes what it
waits for, or goes to sleep; a wait is given up; or the loop of `Signal` goes on. -/
inductive Stepped (s : State) (c : Call) : State → Prop where
  | put (o : Nat) (ob : SyncObject) (htags : ob.fTags = tagsOf s o)
    (hon : ob.fSignalled = true → signalled s o = true) : Stepped s c (s.put o ob)
  | signal (o : Nat) (hv : s.signalling = none) : Stepped s c (Synchronization.signal s o)
  | putSignal (o : Nat) (ob : SyncObject) (htags : ob.fTags = tagsOf s o)
    (hon : ob.fSignalled = true → signalled s o = true) (hv : s.signalling = none) :
    Stepped s c (Synchronization.signal (s.put o ob) o)
  | consume (objs : List Nat) (hl : objs.Nodup) :
    Stepped s c { s with objects := modifyAll s.objects SyncObject.threadWoken objs }
  | sleep (t : Nat) (objs : List Nat) (flags : WaitFlags) (timed : Bool)
    (hc : c = .waitForMultiple t objs flags timed ∨ ∃ o, c = .wait t o timed ∧ objs = [o] ∧ flags = .forOne)
    (hv : s.signalling = none) (hw : s.waits t = none) (hl : objs.Nodup) (he : ∀ o ∈ objs, (s.objects o).isSome)
    (hoff : satisfied s objs flags = false) : Stepped s c (waitInternal s t objs flags timed)
  | timeout (t : Nat) (tags : List Nat) (flags : WaitFlags) (hc : c = .timeout t) (hv : s.signalling = none)
    (hev : s.waits t = some ⟨tags, flags, true⟩) :
    Stepped s c { s with objects := modifyAll s.objects (SyncObject.removeTag t) tags,
                         waits := Function.update s.waits t none, ready := s.ready ++ [t] }
  | visit (s' : State) (hc : c = .visit) (hs : Synchronization.visit s = some s') : Stepped s c s'

theorem step_cases (hs : step s c = some s') : Stepped s c s' := by
  obtain ⟨hlegal, hs⟩ := Option.ite_none_right_eq_some.1 hs
  cases c with
  | newSemaphore o n =>
    simp only [newSemaphore] at hs
    split at hs
    · cases hs
    · rename_i hno
      rw [not_or] at hno
      cases hs
      split
      · exact .putSignal o _ (tagsOf_none hno.1).symm (fun hf => by cases hf) hlegal.1
      · exact .put o _ (tagsOf_none hno.1).symm fun hf => by cases hf
  | newMutex o =>
    simp only [newMutex] at hs
    split at hs
    · cases hs
    · rename_i hno
      cases hs
      exact .putSignal o _ (tagsOf_none hno).symm (fun hf => by cases hf) hlegal
  | release o n =>
    simp only [release] at hs
    split at hs
    · rename_i sig tags count ho
      have htags : tags = tagsOf s o := by rw [tagsOf, tagsIn_some ho]
      have hon : sig = true → signalled s o = true := fun hf => by simpa [signalled, ho] using hf
      cases hs
      split
      · exact .putSignal o _ htags hon hlegal.1
      · exact .put o _ htags hon
    · cases hs
  | unlock o =>
    simp only [unlock] at hs
    split at hs
    · cases hs
      exact .signal o hlegal
    · cases hs
  | wait t o timed =>
    obtain ⟨hv, hw, he⟩ := hlegal
    simp only [wait, Option.some.injEq] at hs
    subst hs
    split
    · rw [modify_eq_modifyAll]
      exact .consume [o] (nodup_singleton o)
    · rename_i hoff
      refine .sleep t [o] .forOne timed (.inr ⟨o, rfl, rfl, rfl⟩) hv hw (nodup_singleton o) (by simpa using he) ?_
      simp only [satisfied, any_cons, any_nil, Bool.or_false]
      exact eq_false_of_ne_true hoff
  | waitForMultiple t objs flags timed =>
    obtain ⟨hv, hw, hl, he⟩ := hlegal
    simp only [waitForMultiple, Option.some.injEq] at hs
    subst hs
    split
    · exact .consume objs hl
    · rename_i hoff
      exact .sleep t objs flags timed (.inl rfl) hv hw hl he (eq_false_of_ne_true hoff)
  | timeout t =>
    simp only [handleTimeout] at hs
    split at hs
    · rename_i tags flags hev
      cases hs
      exact .timeout t tags flags rfl hlegal hev
    · cases hs
  | visit => exact .visit s' rfl hs

theorem queueInv_timeout (h : QueueInv s) (hv : s.signalling = none)
    (hev : s.waits t = some ev) :
    QueueInv { s with objects := modifyAll s.objects (SyncObject.removeTag t) ev.fTags,
                      waits := update s.waits t none, ready := s.ready ++ [t] } := by
  refine queueInv_remove h hev (tagsIn_modifyAll_erase (fun _ => rfl) (h.event t _ hev) s.objects) rfl ?_
  intro o l hl
  rw [hv] at hl
  cases hl

theorem queueInv_step (h : QueueInv s) (hs : step s c = some s') : QueueInv s' := by
  cases step_cases hs with
  | put o ob htags hon => exact queueInv_put h htags
  | signal o hv => exact queueInv_signal h o
  | putSignal o ob htags hon hv => exact queueInv_signal (queueInv_put h htags) o
  | consume objs hl => exact queueInv_consume h hl
  | sleep t objs flags timed hc hv hw hl he hoff => exact queueInv_waitInternal h hv hw hl he
  | timeout t tags flags hc hv hev => exact queueInv_timeout h hv hev
  | visit s' hc hs => exact queueInv_visit h hs

theorem queueInv_reach (h : system.Reach s) : QueueInv s :=
  StepSystem.Reach.invariant QueueInv (fun _ h0 => by cases h0; exact queueInv_initial)
    (fun _ _ _ hI hs => queueInv_step hI hs) h

end Synchronization
