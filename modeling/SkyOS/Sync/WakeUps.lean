import SkyOS.Sync.Queues

/-!
# No lost wake-up

While `Signal` walks a queue, a wait whose condition holds is still to be visited; when no `Signal` runs, nobody is
left waiting for what is there already (`WakeInv`). Nothing is needed of the counts: only `Signal` sets
`fSignalled`, and `Release` skips `Signal` without setting it.

`Threads` adds what the scheduler does to the state of a thread.

| here | there |
| --- | --- |
| `Threads.fState` | `Thread::fState` |
| `State.ready` | the threads given to `EnqueueReadyThread`, which sets `kThreadReady` (`Scheduler.cpp:85`) |
| `Call.switchTo` | `Thread::SwitchTo` (`Thread.cpp:103`) |
| `Call.preempt` | `Reschedule` while the thread runs (`Scheduler.cpp:55`) |
| `Threads.begun` | how often the thread went to sleep in `WaitInternal`: history |
-/

namespace Synchronization

open Machine List Option
open Function (update update_of_ne update_self)

def conditionHolds (s : State) (ev : WaitEvent) : Bool :=
  match ev.fFlags with
  | .forOne => ev.fTags.any (signalled s)
  | .forAll => ev.fTags.all (signalled s)

/-- A wait whose condition holds is one that the running `Signal` has yet to visit. -/
structure WakeInv (s : State) : Prop where
  forOne : ∀ t ev, s.waits t = some ev → ev.fFlags = .forOne → ∀ o ∈ ev.fTags, signalled s o = true →
    ∃ l, s.signalling = some (o, l) ∧ t ∈ l
  forAll : ∀ t ev, s.waits t = some ev → ev.fFlags = .forAll →
    (∃ o ∈ ev.fTags, signalled s o = false) ∨ ∃ o l, s.signalling = some (o, l) ∧ t ∈ l

/-! ## Signals that go away -/

/-- No object becomes signalled from `s` to `s'`. -/
def Quieter (s s' : State) : Prop := ∀ o, signalled s' o = true → signalled s o = true

variable {s s' : State} {o t : Nat} {ev : WaitEvent} {rest : List Nat} {c : Call}

theorem Quieter.unsignalled (h : Quieter s s') (ho : signalled s o = false) :
    signalled s' o = false := by
  by_contra hne
  rw [h o (Bool.not_eq_false _ ▸ hne)] at ho
  cases ho

theorem threadWoken_quieter (ob : SyncObject) : ob.threadWoken.fSignalled = true → ob.fSignalled = true := by
  obtain ⟨sig, tags, kind⟩ := ob
  cases kind with
  | semaphore n =>
    intro h
    change (if toInt32 (n - 1) = 0 then false else sig) = true at h
    split at h
    · cases h
    · exact h
  | mutex =>
    intro h
    cases h

variable {l : List Nat} {u : Nat}

theorem quieter_modifyAll {f : SyncObject → SyncObject} (hl : l.Nodup)
    (hf : ∀ ob, (f ob).fSignalled = true → ob.fSignalled = true)
    (hs : s'.objects = modifyAll s.objects f l) : Quieter s s' := by
  intro o ho
  unfold signalled at ho ⊢
  rw [hs, modifyAll_apply f hl] at ho
  split at ho
  · cases hob : s.objects o with
    | none =>
      rw [hob] at ho
      cases ho
    | some ob =>
      rw [hob] at ho
      exact hf ob ho
  · exact ho

theorem WakeInv.mono (h : WakeInv s) (hq : Quieter s s')
    (hw : ∀ t ev, s'.waits t = some ev → s.waits t = some ev) (hv : s'.signalling = s.signalling) : WakeInv s' := by
  constructor
  · intro t ev ht hf o ho hsig
    rw [hv]
    exact h.forOne t ev (hw t ev ht) hf o ho (hq o hsig)
  · intro t ev ht hf
    rw [hv]
    rcases h.forAll t ev (hw t ev ht) hf with ⟨o, ho, hsig⟩ | hvisit
    · exact .inl ⟨o, ho, hq.unsignalled hsig⟩
    · exact .inr hvisit

theorem update_none (hw : s'.waits = update s.waits t none)
    (hu : s'.waits u = some ev) : u ≠ t ∧ s.waits u = some ev := by
  rw [hw] at hu
  by_cases hut : u = t
  · subst hut
    rw [update_self] at hu
    cases hu
  · rw [update_of_ne hut] at hu
    exact ⟨hut, hu⟩

/-! ## Every step keeps the invariant -/

theorem wakeInv_signal (h : WakeInv s) (hq : QueueInv s) (hv : s.signalling = none) (o : Nat) :
    WakeInv (signal s o) := by
  have hsig : ∀ x, x ≠ o → signalled (signal s o) x = signalled s x := by
    intro x hx
    unfold signalled signal
    dsimp only
    rw [modify_apply, if_neg hx]
  have hlist : ∀ t ev, s.waits t = some ev → o ∈ ev.fTags → t ∈ ((s.objects o).map (·.fTags)).getD [] :=
    fun t ev ht ho => (hq.queued o t).2 ⟨ev, ht, ho⟩
  constructor
  · intro t ev ht hf x hx hon
    by_cases hxo : x = o
    · subst hxo
      exact ⟨_, rfl, hlist t ev ht hx⟩
    · rw [hsig x hxo] at hon
      obtain ⟨l, hl, -⟩ := h.forOne t ev ht hf x hx hon
      rw [hv] at hl
      cases hl
  · intro t ev ht hf
    by_cases ho : o ∈ ev.fTags
    · exact .inr ⟨o, _, rfl, hlist t ev ht ho⟩
    · rcases h.forAll t ev ht hf with ⟨x, hx, hoff⟩ | ⟨x, l, hl, -⟩
      · refine .inl ⟨x, hx, ?_⟩
        rw [hsig x (by rintro rfl; exact ho hx)]
        exact hoff
      · rw [hv] at hl
        cases hl

theorem wakeInv_waitInternal (h : WakeInv s) {objs : List Nat} {flags : WaitFlags} {timed : Bool}
    (hl : objs.Nodup) (hoff : satisfied s objs flags = false) : WakeInv (waitInternal s t objs flags timed) := by
  have hq : Quieter s (waitInternal s t objs flags timed) :=
    quieter_modifyAll (f := SyncObject.enqueue t) hl (fun _ hob => hob) rfl
  have hw : ∀ u, u ≠ t → (waitInternal s t objs flags timed).waits u = s.waits u := fun u hu =>
    update_of_ne hu _ _
  have hself : (waitInternal s t objs flags timed).waits t = some ⟨objs.reverse, flags, timed⟩ :=
    update_self ..
  constructor
  · intro u ev hu hf o ho hon
    by_cases hut : u = t
    · subst hut
      rw [hself] at hu
      cases hu
      cases hf
      have hany : objs.any (signalled s) = true := List.any_eq_true.2 ⟨o, mem_reverse.1 ho, hq o hon⟩
      rw [show satisfied s objs .forOne = objs.any (signalled s) from rfl, hany] at hoff
      cases hoff
    · rw [hw u hut] at hu
      exact h.forOne u ev hu hf o ho (hq o hon)
  · intro u ev hu hf
    by_cases hut : u = t
    · subst hut
      rw [hself] at hu
      cases hu
      cases hf
      obtain ⟨o, ho, hno⟩ := List.all_eq_false.1 hoff
      exact .inl ⟨o, mem_reverse.2 ho, hq.unsignalled (Bool.not_eq_true _ ▸ hno)⟩
    · rw [hw u hut] at hu
      rcases h.forAll u ev hu hf with ⟨o, ho, hno⟩ | hvisit
      · exact .inl ⟨o, ho, hq.unsignalled hno⟩
      · exact .inr hvisit

theorem quieter_wake (hn : ev.fTags.Nodup) : Quieter s (wake s o t ev) := by
  cases hf : ev.fFlags with
  | forAll =>
    refine quieter_modifyAll (f := fun ob => (ob.removeTag t).threadWoken) hn ?_ (by simp only [wake, hf])
    intro ob hob
    exact threadWoken_quieter (ob.removeTag t) hob
  | forOne =>
    have hremove : Quieter s { s with objects := modifyAll s.objects (SyncObject.removeTag t) ev.fTags } :=
      quieter_modifyAll (f := SyncObject.removeTag t) hn (fun _ hob => hob) rfl
    have hwoken : Quieter { s with objects := modifyAll s.objects (SyncObject.removeTag t) ev.fTags } (wake s o t ev) := by
      refine quieter_modifyAll (nodup_singleton o) threadWoken_quieter ?_
      simp only [wake, hf, modify_eq_modifyAll]
    exact fun x hx => hremove x (hwoken x hx)

theorem ahead_of_ne {x : Nat} (hsig : s.signalling = some (o, t :: rest))
    (hut : u ≠ t) (hl : s.signalling = some (x, l)) (hu : u ∈ l) : o = x ∧ u ∈ rest := by
  rw [hsig] at hl
  cases hl
  rcases mem_cons.1 hu with rfl | hu
  · exact absurd rfl hut
  · exact ⟨rfl, hu⟩

theorem wakeInv_woken (h : WakeInv s) (hq : QueueInv s)
    (hsig : s.signalling = some (o, t :: rest)) (hev : s.waits t = some ev) :
    WakeInv (wake { s with signalling := some (o, rest) } o t ev) := by
  have hquiet := quieter_wake (s := { s with signalling := some (o, rest) }) (o := o) (t := t) (hq.event t ev hev)
  constructor
  · intro u ev' hu hf x hx hon'
    obtain ⟨hut, hu⟩ := update_none (s := s) rfl hu
    obtain ⟨l, hl, hul⟩ := h.forOne u ev' hu hf x hx (hquiet x hon')
    obtain ⟨rfl, hrest⟩ := ahead_of_ne hsig hut hl hul
    exact ⟨rest, rfl, hrest⟩
  · intro u ev' hu hf
    obtain ⟨hut, hu⟩ := update_none (s := s) rfl hu
    rcases h.forAll u ev' hu hf with ⟨x, hx, hoff⟩ | ⟨x, l, hl, hul⟩
    · exact .inl ⟨x, hx, hquiet.unsignalled hoff⟩
    · obtain ⟨rfl, hrest⟩ := ahead_of_ne hsig hut hl hul
      exact .inr ⟨o, rest, rfl, hrest⟩

theorem wakeInv_passed (h : WakeInv s)
    (hsig : s.signalling = some (o, t :: rest)) (hev : s.waits t = some ev) (hw : wakes s ev = false) :
    WakeInv { s with signalling := some (o, rest) } := by
  have hthis : ∀ ev', s.waits t = some ev' → ev' = ev := fun ev' hev' => by
    rw [hev] at hev'
    cases hev'
    rfl
  constructor
  · intro u ev' hu hf x hx hon
    obtain ⟨l, hl, hul⟩ := h.forOne u ev' hu hf x hx hon
    by_cases hut : u = t
    · subst hut
      obtain rfl := hthis ev' hu
      simp only [wakes, hf, Bool.true_eq_false] at hw
    · obtain ⟨rfl, hrest⟩ := ahead_of_ne hsig hut hl hul
      exact ⟨rest, rfl, hrest⟩
  · intro u ev' hu hf
    by_cases hut : u = t
    · subst hut
      obtain rfl := hthis ev' hu
      simp only [wakes, hf] at hw
      obtain ⟨x, hx, hoff⟩ := List.all_eq_false.1 hw
      exact .inl ⟨x, hx, Bool.not_eq_true _ ▸ hoff⟩
    · rcases h.forAll u ev' hu hf with hoff | ⟨x, l, hl, hul⟩
      · exact .inl hoff
      · obtain ⟨rfl, hrest⟩ := ahead_of_ne hsig hut hl hul
        exact .inr ⟨o, rest, rfl, hrest⟩

theorem wakeInv_visit (h : WakeInv s) (hq : QueueInv s) (hs : visit s = some s') : WakeInv s' := by
  cases visit_cases hs with
  | atEnd o hsig =>
    constructor
    · intro t ev ht hf x hx hon
      obtain ⟨l, hl, hmem⟩ := h.forOne t ev ht hf x hx hon
      rw [hsig] at hl
      cases hl
      cases hmem
    · intro t ev ht hf
      rcases h.forAll t ev ht hf with hoff | ⟨x, l, hl, hmem⟩
      · exact .inl hoff
      · rw [hsig] at hl
        cases hl
        cases hmem
  | usedUp o t rest hsig hoff =>
    constructor
    · intro u ev hu hf x hx hon
      obtain ⟨l, hl, -⟩ := h.forOne u ev hu hf x hx hon
      rw [hsig] at hl
      cases hl
      have hon' : signalled s o = true := hon
      rw [hoff] at hon'
      cases hon'
    · intro u ev hu hf
      rcases h.forAll u ev hu hf with hno | ⟨x, l, hl, hul⟩
      · exact .inl hno
      · rw [hsig] at hl
        cases hl
        -- a thread that is ahead waits for the object
        obtain ⟨ev', hev', ho⟩ := (hq.queued o u).1 ((hq.visiting o (t :: rest) hsig).2 u hul)
        have hev : s.waits u = some ev := hu
        rw [hev] at hev'
        cases hev'
        exact .inl ⟨o, ho, hoff⟩
  | woken o t rest ev hsig hon hev hw => exact wakeInv_woken h hq hsig hev
  | passed o t rest ev hsig hon hev hw => exact wakeInv_passed h hsig hev hw

theorem wakeInv_initial : WakeInv initial := by
  constructor
  · intro t ev ht
    cases ht
  · intro t ev ht
    cases ht

theorem wakeInv_put (h : WakeInv s) {ob : SyncObject}
    (hob : ob.fSignalled = true → signalled s o = true) : WakeInv (s.put o ob) := by
  refine h.mono ?_ (fun t ev ht => ht) rfl
  intro x hx
  unfold signalled State.put at hx
  dsimp only at hx
  by_cases hxo : x = o
  · subst hxo
    rw [update_self] at hx
    exact hob hx
  · rw [update_of_ne hxo] at hx
    exact hx

theorem wakeInv_step (h : WakeInv s) (hq : QueueInv s) (hs : step s c = some s') :
    WakeInv s' := by
  cases step_cases hs with
  | put o ob htags hon => exact wakeInv_put h hon
  | signal o hv => exact wakeInv_signal h hq hv o
  | putSignal o ob htags hon hv => exact wakeInv_signal (wakeInv_put h hon) (queueInv_put hq htags) hv o
  | consume objs hl => exact h.mono (quieter_modifyAll hl threadWoken_quieter rfl) (fun u ev hu => hu) rfl
  | sleep t objs flags timed hc hv hw hl he hoff => exact wakeInv_waitInternal h hl hoff
  | timeout t tags flags hc hv hev =>
    refine h.mono (quieter_modifyAll (f := SyncObject.removeTag t) (hq.event t _ hev) (fun _ hob => hob) rfl) ?_ rfl
    intro u ev hu
    exact (update_none (s := s) rfl hu).2
  | visit s' hc hs => exact wakeInv_visit h hq hs

/-- Between operations no wait has a condition that holds. -/
theorem WakeInv.idle (h : WakeInv s) (hv : s.signalling = none)
    (ht : s.waits t = some ev) : conditionHolds s ev = false := by
  unfold conditionHolds
  cases hf : ev.fFlags with
  | forOne =>
    dsimp only
    rw [List.any_eq_false]
    intro o ho hon
    obtain ⟨l, hl, -⟩ := h.forOne t ev ht hf o ho hon
    rw [hv] at hl
    cases hl
  | forAll =>
    rw [List.all_eq_false]
    rcases h.forAll t ev ht hf with ⟨o, ho, hoff⟩ | ⟨o, l, hl, -⟩
    · exact ⟨o, ho, by rw [hoff]; decide⟩
    · rw [hv] at hl
      cases hl

/-! ## What a step does to the waits -/

def Call.caller : Call → Option Nat
  | .wait t _ _ | .waitForMultiple t _ _ _ => some t
  | .newSemaphore .. | .newMutex _ | .release .. | .unlock _ | .timeout _ | .visit => none

inductive Moves (s s' : State) (caller : Option Nat) : Prop where
  | same (hw : s'.waits = s.waits) (hr : s'.ready = s.ready)
  | sleep (t : Nat) (ev : WaitEvent) (hc : caller = some t) (h0 : s.waits t = none)
      (hw : s'.waits = Function.update s.waits t (some ev)) (hr : s'.ready = s.ready)
  | wake (t : Nat) (ev : WaitEvent) (hc : caller = none) (h0 : s.waits t = some ev)
      (hw : s'.waits = Function.update s.waits t none) (hr : s'.ready = s.ready ++ [t])

theorem moves_visit (hs : visit s = some s') : Moves s s' none := by
  cases visit_cases hs with
  | atEnd o hsig => exact .same rfl rfl
  | usedUp o t rest hsig hoff => exact .same rfl rfl
  | woken o t rest ev hsig hon hev hw => exact .wake t ev rfl hev rfl rfl
  | passed o t rest ev hsig hon hev hw => exact .same rfl rfl

theorem moves_step (hs : step s c = some s') : Moves s s' c.caller := by
  cases step_cases hs with
  | put o ob htags hon => exact .same rfl rfl
  | signal o hv => exact .same rfl rfl
  | putSignal o ob htags hon hv => exact .same rfl rfl
  | consume objs hl => exact .same rfl rfl
  | sleep t objs flags timed hc hv hw hl he hoff =>
    refine .sleep t _ ?_ hw rfl rfl
    rcases hc with rfl | ⟨o, rfl, -, -⟩
    · rfl
    · rfl
  | timeout t tags flags hc hv hev =>
    subst hc
    exact .wake t _ rfl hev rfl rfl
  | visit s' hc hs =>
    subst hc
    exact moves_visit hs

/-! ## Threads -/

inductive ThreadState where
  | kThreadCreated
  | kThreadWaiting
  | kThreadReady
  | kThreadRunning
  | kThreadDead
deriving DecidableEq, Repr

structure Threads extends State where
  fState : Nat → ThreadState
  begun : Nat → Nat

namespace Threads

inductive Call where
  | sync (c : Synchronization.Call)
  | switchTo (t : Nat)
  | preempt (t : Nat)

def legal (s : Threads) : Call → Prop
  | .sync c => ∀ t ∈ c.caller, s.fState t = .kThreadRunning
  | .switchTo t => s.fState t = .kThreadReady
  | .preempt t => s.fState t = .kThreadRunning

/-- The caller that went to sleep: `SetState(kThreadWaiting)` (`Synchronization.cpp:202`). -/
def asleep (s : State) (c : Synchronization.Call) : Option Nat := c.caller.filter fun t => (s.waits t).isSome

def setStates (fState : Nat → ThreadState) (threads : List Nat) (st : ThreadState) : Nat → ThreadState :=
  threads.foldl (fun f t => Function.update f t st) fState

def perform (s : Threads) : Call → Option Threads
  | .sync c => (Synchronization.step s.toState c).map fun s' =>
      { toState := s'
        fState := setStates (setStates s.fState (asleep s' c).toList .kThreadWaiting)
          (s'.ready.drop s.ready.length) .kThreadReady
        begun := (asleep s' c).elim s.begun fun t => Function.update s.begun t (s.begun t + 1) }
  | .switchTo t => some { s with fState := Function.update s.fState t .kThreadRunning }
  | .preempt t => some { s with fState := Function.update s.fState t .kThreadReady }

instance (s : Threads) : (c : Call) → Decidable (s.legal c)
  | .sync _ => inferInstanceAs (Decidable (∀ _ ∈ _, _))
  | .switchTo _ | .preempt _ => inferInstanceAs (Decidable (_ = _))

def step (s : Threads) (c : Call) : Option Threads :=
  if s.legal c then s.perform c else none

def system : StepSystem Threads Call where
  init s := s.toState = initial ∧ (∀ t, s.fState t ≠ .kThreadWaiting) ∧ ∀ t, s.begun t = 0
  step := step

structure Inv (s : Threads) : Prop where
  wakes : WakeInv s.toState
  queues : QueueInv s.toState
  waiting : ∀ t, s.fState t = .kThreadWaiting ↔ (s.waits t).isSome = true
  once : ∀ t, s.ready.count t + (if (s.waits t).isSome then 1 else 0) = s.begun t

variable {s : Threads}

theorem inv_init (h : system.init s) : Inv s := by
  obtain ⟨s0, fState, begun⟩ := s
  obtain ⟨h0, hstate, hbegun⟩ := h
  cases h0
  refine ⟨wakeInv_initial, queueInv_initial, ?_, ?_⟩
  · intro t
    constructor
    · intro hw
      exact absurd hw (hstate t)
    · intro hw
      cases hw
  · intro t
    exact (hbegun t).symm

theorem asleep_same {c : Synchronization.Call} (hw : ∀ t ∈ c.caller, (s'.waits t).isSome = false) :
    asleep s' c = none := by
  unfold asleep
  cases hc : c.caller with
  | none => rfl
  | some t => exact filter_some_neg (by rw [hw t hc])

theorem inv_sync {s' : Threads} (h : Inv s) {c : Synchronization.Call} (hc : s.legal (.sync c))
    (hs : s.perform (.sync c) = some s') : Inv s' := by
  obtain ⟨s0, hs0, rfl⟩ := map_eq_some_iff.1 hs
  have hnot : ∀ t ∈ c.caller, (s.waits t).isSome = false := by
    intro t ht
    by_contra hne
    rw [Bool.not_eq_false, ← h.waiting, hc t ht] at hne
    cases hne
  have hwakes := wakeInv_step h.wakes h.queues hs0
  have hqueues := queueInv_step h.queues hs0
  cases moves_step hs0 with
  | same hw hr =>
    have hasleep : asleep s0 c = none := asleep_same (by rw [hw]; exact hnot)
    rw [hasleep, hr, drop_length]
    refine ⟨hwakes, hqueues, ?_, ?_⟩
    · rw [show (setStates (setStates s.fState none.toList .kThreadWaiting) [] .kThreadReady) = s.fState from rfl]
      simp only [hw]
      exact h.waiting
    · simp only [hw, hr]
      exact h.once
  | sleep t ev hcaller h0 hw hr =>
    have hasleep : asleep s0 c = some t := by
      unfold asleep
      rw [hcaller, hw]
      exact filter_some_pos (by rw [update_self]; rfl)
    rw [hasleep, hr, drop_length]
    refine ⟨hwakes, hqueues, ?_, ?_⟩
    · intro u
      show update s.fState t .kThreadWaiting u = _ ↔ (s0.waits u).isSome = true
      rw [hw]
      by_cases hut : u = t
      · subst hut
        simp
      · rw [update_of_ne hut, update_of_ne hut]
        exact h.waiting u
    · intro u
      show s0.ready.count u + (if (s0.waits u).isSome then 1 else 0) = update s.begun t (s.begun t + 1) u
      have honce := h.once u
      rw [hw, hr]
      by_cases hut : u = t
      · subst hut
        rw [h0] at honce
        simp only [isSome_none, Bool.false_eq_true, if_false] at honce
        rw [update_self, update_self]
        simp only [isSome_some, if_true]
        omega
      · rw [update_of_ne hut, update_of_ne hut]
        exact honce
  | wake t ev hcaller h0 hw hr =>
    have hasleep : asleep s0 c = none := by
      unfold asleep
      rw [hcaller]
      rfl
    rw [hasleep, hr, drop_left]
    refine ⟨hwakes, hqueues, ?_, ?_⟩
    · intro u
      show update s.fState t .kThreadReady u = _ ↔ (s0.waits u).isSome = true
      rw [hw]
      by_cases hut : u = t
      · subst hut
        simp
      · rw [update_of_ne hut, update_of_ne hut]
        exact h.waiting u
    · intro u
      have honce := h.once u
      rw [hw, hr, count_append]
      by_cases hut : u = t
      · subst hut
        rw [h0] at honce
        rw [update_self, count_singleton_self]
        simpa using honce
      · have hzero : [t].count u = 0 := count_eq_zero_of_not_mem (by simpa using hut)
        rw [update_of_ne hut, hzero]
        exact honce

theorem inv_step {s' : Threads} (h : Inv s) (hs : s.step c = some s') : Inv s' := by
  obtain ⟨hc, hs⟩ := ite_none_right_eq_some.1 hs
  cases c with
  | sync c => exact inv_sync h hc hs
  | switchTo t =>
    cases hs
    refine ⟨h.wakes, h.queues, ?_, h.once⟩
    intro u
    show update s.fState t .kThreadRunning u = _ ↔ _
    rw [← h.waiting]
    by_cases hut : u = t
    · subst hut
      have hready : s.fState u = .kThreadReady := hc
      rw [update_self, hready]
      simp
    · rw [update_of_ne hut]
  | preempt t =>
    cases hs
    refine ⟨h.wakes, h.queues, ?_, h.once⟩
    intro u
    show update s.fState t .kThreadReady u = _ ↔ _
    rw [← h.waiting]
    by_cases hut : u = t
    · subst hut
      have hrunning : s.fState u = .kThreadRunning := hc
      rw [update_self, hrunning]
      simp
    · rw [update_of_ne hut]

theorem inv_reach (h : system.Reach s) : Inv s :=
  StepSystem.Reach.invariant Inv (fun _ => inv_init) (fun _ _ _ hI hs => inv_step hI hs) h

structure NoLostWakeUp (s : Threads) : Prop where
  /-- Who is queued has a condition that does not hold. -/
  asleep : ∀ t ev, s.waits t = some ev → conditionHolds s.toState ev = false
  /-- A queued tag is one of a thread that waits, for this object among others. -/
  queued : ∀ o, ∀ t ∈ tagsOf s.toState o, s.fState t = .kThreadWaiting ∧ ∃ ev, s.waits t = some ev ∧ o ∈ ev.fTags
  /-- A thread has been made ready once for each wait that is over. -/
  once : ∀ t, s.ready.count t + (if s.fState t = .kThreadWaiting then 1 else 0) = s.begun t

/-- **No lost wake-up.** In every reachable state in which no `Signal` is running. -/
theorem no_lost_wake_up {s : Threads} (h : system.Reach s) (hidle : s.signalling = none) : NoLostWakeUp s := by
  have hinv := inv_reach h
  refine ⟨?_, ?_, ?_⟩
  · intro t ev ht
    exact hinv.wakes.idle hidle ht
  · intro o t ht
    obtain ⟨ev, hev, ho⟩ := (hinv.queues.queued o t).1 ht
    exact ⟨(hinv.waiting t).2 (by rw [hev]; rfl), ev, hev, ho⟩
  · intro t
    simp only [hinv.waiting]
    exact hinv.once t

def allRunning : Threads := ⟨initial, fun _ => .kThreadRunning, fun _ => 0⟩

/-- Thread 7 waits for a semaphore and a mutex, thread 8 for the semaphore; two tokens wake both. -/
theorem no_lost_wake_up_run :
    ∃ s, system.exec allRunning [.sync (.newSemaphore 0 0), .sync (.newMutex 1), .sync .visit,
        .sync (.waitForMultiple 7 [0, 1] .forAll true), .sync (.wait 8 0 false), .sync (.release 0 2), .sync .visit,
        .sync .visit, .sync .visit, .switchTo 8] = some s ∧ s.ready = [7, 8] ∧ NoLostWakeUp s := by
  have hrun : (system.exec allRunning [.sync (.newSemaphore 0 0), .sync (.newMutex 1), .sync .visit,
      .sync (.waitForMultiple 7 [0, 1] .forAll true), .sync (.wait 8 0 false), .sync (.release 0 2), .sync .visit,
      .sync .visit, .sync .visit, .switchTo 8]).map (fun s => (s.signalling, s.ready)) = some (none, [7, 8]) := by
    decide +kernel
  obtain ⟨s, hs, hfacts⟩ := Option.map_eq_some_iff.1 hrun
  obtain ⟨hidle, hready⟩ := Prod.mk.inj hfacts
  have hinit : system.init allRunning := ⟨rfl, (fun _ h => by cases h), fun _ => rfl⟩
  exact ⟨s, hs, hready, no_lost_wake_up (StepSystem.reach_exec _ (.init hinit) hs) hidle⟩

end Threads

end Synchronization
