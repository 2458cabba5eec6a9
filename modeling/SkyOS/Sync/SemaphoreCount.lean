import SkyOS.Sync.Queues

/-!
# The count of a semaphore: `fCount >= 0`, and `fSignalled` exactly while `fCount > 0`

The immediate path of `WaitForMultipleSyncObject` runs `ThreadWoken` on every object it was given
(`Synchronization.cpp:104`), so with `WAIT_FOR_ONE` and two semaphores it takes a token from both,
signalled or not. `Call.consumesRight` leaves out exactly that, and the overflow of
`fCount += releaseCount` (`Semaphore.cpp:36`).
-/

namespace Synchronization

open Machine List Option

/-- What an object can still give: a semaphore its count, a mutex one token while it is free. -/
def SyncObject.units (ob : SyncObject) : Int :=
  match ob.kind with
  | .semaphore fCount => fCount
  | .mutex => if ob.fSignalled then 1 else 0

def units (s : State) (o : Nat) : Int := ((s.objects o).map SyncObject.units).getD 0

/-- The count is in range and `fSignalled` is its sign. -/
structure SyncObject.Ok (ob : SyncObject) : Prop where
  nonneg : 0 ≤ ob.units
  bound : ob.units < 2 ^ 31
  sign : ob.fSignalled = true ↔ 0 < ob.units

variable {ob : SyncObject} {s s' : State} {o t : Nat} {l objs : List Nat}

theorem units_threadWoken (h : ob.Ok) (hs : ob.fSignalled = true) :
    ob.threadWoken.units = ob.units - 1 := by
  have hpos := h.sign.1 hs
  have hb := h.bound
  obtain ⟨sig, tags, kind⟩ := ob
  cases kind with
  | mutex =>
    subst hs
    rfl
  | semaphore n =>
    change 0 < n at hpos
    change n < 2 ^ 31 at hb
    exact toInt32_of_isInt32 ⟨by omega, by omega⟩

theorem ok_threadWoken (h : ob.Ok) (hs : ob.fSignalled = true) : ob.threadWoken.Ok := by
  have hu := units_threadWoken h hs
  have hpos := h.sign.1 hs
  have hb := h.bound
  refine ⟨by omega, by omega, ?_⟩
  rw [hu]
  obtain ⟨sig, tags, kind⟩ := ob
  subst hs
  cases kind with
  | mutex => simp [SyncObject.threadWoken, SyncObject.units]
  | semaphore n =>
    change toInt32 (n - 1) = n - 1 at hu
    change 0 < n at hpos
    change ((if toInt32 (n - 1) = 0 then false else true) = true) ↔ 0 < n - 1
    rw [hu]
    split <;> simp <;> omega

@[simp] theorem units_removeTag (t : Nat) (ob : SyncObject) : (ob.removeTag t).units = ob.units := rfl
@[simp] theorem signalled_removeTag (t : Nat) (ob : SyncObject) :
    (ob.removeTag t).fSignalled = ob.fSignalled := rfl

theorem SyncObject.Ok.enqueue (h : ob.Ok) (t : Nat) : (ob.enqueue t).Ok :=
  ⟨h.nonneg, h.bound, h.sign⟩

theorem SyncObject.Ok.removeTag (h : ob.Ok) (t : Nat) : (ob.removeTag t).Ok :=
  ⟨h.nonneg, h.bound, h.sign⟩

/-! ## The invariant -/

theorem signalled_iff :
    signalled s o = true ↔ ∃ ob, s.objects o = some ob ∧ ob.fSignalled = true := by
  unfold signalled
  cases s.objects o <;> simp

theorem units_some (h : s.objects o = some ob) :
    units s o = ob.units := by
  simp [units, h]

/-- Every object is in order. -/
def CountInv (s : State) : Prop := ∀ o ob, s.objects o = some ob → ob.Ok

/-- What a call may not do if counts are to stay right: satisfy a `WAIT_FOR_ONE` over two or more
objects at once, or release past the largest `int`. -/
def Call.consumesRight (s : State) : Call → Prop
  | .waitForMultiple _ objs .forOne _ => objs.length ≤ 1 ∨ satisfied s objs .forOne = false
  | .release o releaseCount => units s o + releaseCount < 2 ^ 31
  | _ => True

variable {f : SyncObject → SyncObject} {n : Int} {flags : WaitFlags} {timed : Bool}

/-- The objects after a loop of `f` over `l`, when `f` keeps `Ok` where it runs. -/
theorem ok_modifyAll (h : CountInv s) (hl : l.Nodup)
    (hf : ∀ o ∈ l, ∀ ob, s.objects o = some ob → (f ob).Ok) (o : Nat) (ob : SyncObject)
    (ho : modifyAll s.objects f l o = some ob) : ob.Ok := by
  rw [modifyAll_apply f hl] at ho
  split at ho
  · rename_i hmem
    obtain ⟨ob0, h0, rfl⟩ := map_eq_some_iff.1 ho
    exact hf o hmem ob0 h0
  · exact h o ob ho

theorem countInv_signal (h : ∀ x ob, x ≠ o → s.objects x = some ob → ob.Ok)
    (ho : ∀ ob, s.objects o = some ob → ({ ob with fSignalled := true } : SyncObject).Ok) :
    CountInv (signal s o) := by
  intro x ob hx
  change modify s.objects _ o x = some ob at hx
  rw [modify_apply] at hx
  split at hx
  · rename_i hxo
    subst hxo
    obtain ⟨ob0, h0, rfl⟩ := map_eq_some_iff.1 hx
    exact ho ob0 h0
  · rename_i hxo
    exact h x ob hxo hx

theorem put_self (s : State) (o : Nat) (ob : SyncObject) : (s.put o ob).objects o = some ob :=
  Function.update_self ..

theorem put_of_ne (s : State) {x : Nat} (ob : SyncObject) (h : x ≠ o) :
    (s.put o ob).objects x = s.objects x := Function.update_of_ne h ..

theorem countInv_put (h : CountInv s) (hob : ob.Ok) :
    CountInv (s.put o ob) := by
  intro x obx hx
  by_cases hxo : x = o
  · subst hxo
    rw [put_self] at hx
    cases hx
    exact hob
  · rw [put_of_ne s ob hxo] at hx
    exact h x obx hx

theorem countInv_put_signal (h : CountInv s)
    (hob : ({ ob with fSignalled := true } : SyncObject).Ok) : CountInv (signal (s.put o ob) o) := by
  refine countInv_signal (fun x obx hxo hx => ?_) fun ob0 h0 => ?_
  · rw [put_of_ne s ob hxo] at hx
    exact h x obx hx
  · rw [put_self] at h0
    cases h0
    exact hob

theorem countInv_newSemaphore (h : CountInv s) (hn : IsInt32 n)
    (hs : newSemaphore s o n = some s') : CountInv s' := by
  unfold newSemaphore at hs
  split at hs
  · cases hs
  · rename_i hno
    rw [not_or, Int.not_lt] at hno
    obtain ⟨-, h2⟩ := hn
    simp only [Option.some.injEq] at hs
    subst hs
    split
    · exact countInv_put_signal h ⟨hno.2, h2, by simpa [SyncObject.units]⟩
    · exact countInv_put h ⟨hno.2, h2, by simp [SyncObject.units]; omega⟩

theorem ok_freeMutex (tags : List Nat) : (⟨true, tags, .mutex⟩ : SyncObject).Ok := by
  constructor <;> simp [SyncObject.units]

theorem countInv_newMutex (h : CountInv s) (hs : newMutex s o = some s') :
    CountInv s' := by
  unfold newMutex at hs
  split at hs
  · cases hs
  · cases hs
    exact countInv_put_signal h (ok_freeMutex [])

theorem countInv_unlock (h : CountInv s) (hs : unlock s o = some s') :
    CountInv s' := by
  unfold unlock at hs
  split at hs
  · rename_i sig tags ho
    cases hs
    refine countInv_signal (fun x ob _ hx => h x ob hx) fun ob hob => ?_
    rw [ho] at hob
    cases hob
    exact ok_freeMutex tags
  · cases hs

theorem countInv_release (h : CountInv s) (hn : 1 ≤ n)
    (hb : units s o + n < 2 ^ 31) (hs : release s o n = some s') : CountInv s' := by
  unfold release at hs
  split at hs
  · rename_i sig tags c ho
    have hok := h o _ ho
    rw [units_some ho] at hb
    change c + n < 2 ^ 31 at hb
    have h0 : 0 ≤ c := hok.nonneg
    have hsum : toInt32 (c + n) = c + n := toInt32_of_isInt32 ⟨by omega, by omega⟩
    simp only [Option.some.injEq, hsum] at hs
    subst hs
    split
    · exact countInv_put_signal h ⟨by simp [SyncObject.units]; omega, hb, by simp [SyncObject.units]; omega⟩
    · -- the count was positive already, so `fSignalled` was set
      have hsig : sig = true := hok.sign.2 (by simp [SyncObject.units]; omega)
      subst hsig
      exact countInv_put h ⟨by simp [SyncObject.units]; omega, hb, by simp [SyncObject.units]; omega⟩
  · cases hs

theorem countInv_waitInternal (h : CountInv s) (hl : objs.Nodup)
    (flags : WaitFlags) (timed : Bool) : CountInv (waitInternal s t objs flags timed) :=
  ok_modifyAll h hl fun o _ ob ho => (h o ob ho).enqueue t

/-! ## Consumption -/

/-- What a satisfied wait takes: `WAIT_FOR_ONE` one token from one signalled object, `WAIT_FOR_ALL` one
from each. -/
def Consumes (s s' : State) : WaitFlags → List Nat → Prop
  | .forOne, objs => ∃ o ∈ objs, signalled s o = true ∧ units s' o = units s o - 1 ∧
      ∀ x, x ≠ o → units s' x = units s x
  | .forAll, objs => (∀ o ∈ objs, units s' o = units s o - 1) ∧ ∀ x, x ∉ objs → units s' x = units s x

/-- The wait a call satisfies, at once or by waking its thread: flags and objects. -/
def satisfiedWait (s : State) : Call → Option (WaitFlags × List Nat)
  | .wait _ o _ => if signalled s o then some (.forOne, [o]) else none
  | .waitForMultiple _ objs flags _ => if satisfied s objs flags then some (flags, objs) else none
  | .visit =>
    match s.signalling with
    | some (o, t :: _) =>
      if signalled s o then
        (s.waits t).bind fun ev => if wakes s ev then some (ev.fFlags, ev.fTags) else none
      else none
    | _ => none
  | _ => none

/-- What `f` does to an object, as far as counts go, is what `ThreadWoken` does. -/
structure Wakes (f : SyncObject → SyncObject) : Prop where
  units : ∀ ob, (f ob).units = ob.threadWoken.units
  ok : ∀ ob, ob.threadWoken.Ok → (f ob).Ok

theorem wakes_threadWoken : Wakes SyncObject.threadWoken := ⟨fun _ => rfl, fun _ h => h⟩

theorem threadWoken_removeTag (t : Nat) (ob : SyncObject) :
    (ob.removeTag t).threadWoken = ob.threadWoken.removeTag t := by
  obtain ⟨sig, tags, kind⟩ := ob
  cases kind <;> rfl

theorem wakes_removeTag_threadWoken (t : Nat) : Wakes fun ob => (ob.removeTag t).threadWoken where
  units ob := by rw [threadWoken_removeTag, units_removeTag]
  ok ob h := by rw [threadWoken_removeTag]; exact h.removeTag t

theorem consume_all (h : CountInv s) (hf : Wakes f)
    (hl : l.Nodup) (hs : ∀ o ∈ l, signalled s o = true) (s' : State)
    (ho : s'.objects = modifyAll s.objects f l) :
    CountInv s' ∧ (∀ o ∈ l, units s' o = units s o - 1) ∧ ∀ x, x ∉ l → units s' x = units s x := by
  refine ⟨?_, fun o hol => ?_, fun x hx => ?_⟩
  · intro o ob hob
    rw [ho] at hob
    refine ok_modifyAll h hl (fun o hol ob hob => ?_) o ob hob
    obtain ⟨ob', h', hsig⟩ := signalled_iff.1 (hs o hol)
    rw [hob] at h'
    cases h'
    exact hf.ok ob (ok_threadWoken (h o ob hob) hsig)
  · obtain ⟨ob, hob, hsig⟩ := signalled_iff.1 (hs o hol)
    unfold units
    rw [ho, modifyAll_apply f hl, if_pos hol, hob]
    exact (hf.units ob).trans (units_threadWoken (h o ob hob) hsig)
  · unfold units
    rw [ho, modifyAll_apply f hl, if_neg hx]

theorem forOne_of_all (hs : signalled s o = true) (ho : o ∈ objs)
    (h : (∀ x ∈ [o], units s' x = units s x - 1) ∧ ∀ x, x ∉ [o] → units s' x = units s x) :
    Consumes s s' .forOne objs :=
  ⟨o, ho, hs, h.1 o (mem_singleton_self o), fun x hx => h.2 x (by simpa using hx)⟩

theorem wait_spec (h : CountInv s) (t o : Nat) (timed : Bool) :
    CountInv (wait s t o timed) ∧ (signalled s o = true → Consumes s (wait s t o timed) .forOne [o]) := by
  unfold wait
  split
  · rename_i hs
    obtain ⟨hI, hall⟩ := consume_all h wakes_threadWoken (nodup_singleton o) (by simpa using hs)
      { s with objects := modify s.objects SyncObject.threadWoken o } rfl
    exact ⟨hI, fun _ => forOne_of_all hs (mem_singleton_self o) hall⟩
  · rename_i hs
    exact ⟨countInv_waitInternal h (nodup_singleton o) .forOne timed, fun hs' => absurd hs' hs⟩

/-- A satisfied wait that meets the condition is over signalled objects only, and over one object if it
is for one. -/
theorem satisfied_signalled
    (hr : (Call.waitForMultiple t objs flags timed).consumesRight s) (hs : satisfied s objs flags = true) :
    (∀ o ∈ objs, signalled s o = true) ∧ (flags = .forOne → ∃ o, objs = [o]) := by
  cases flags with
  | forAll => exact ⟨List.all_eq_true.1 hs, fun hf => by cases hf⟩
  | forOne =>
    rcases hr with hlen | hno
    · obtain ⟨x, hx, hsx⟩ := List.any_eq_true.1 hs
      obtain ⟨a, rfl⟩ : ∃ a, objs = [a] := length_eq_one_iff.1 (by
        have := length_pos_of_mem hx
        omega)
      rw [mem_singleton] at hx
      subst hx
      exact ⟨fun o ho => by rw [mem_singleton.1 ho]; exact hsx, fun _ => ⟨x, rfl⟩⟩
    · rw [hs] at hno
      cases hno

theorem waitForMultiple_spec (h : CountInv s) (hl : objs.Nodup)
    (hr : (Call.waitForMultiple t objs flags timed).consumesRight s) :
    CountInv (waitForMultiple s t objs flags timed) ∧
      (satisfied s objs flags = true → Consumes s (waitForMultiple s t objs flags timed) flags objs) := by
  unfold waitForMultiple
  split
  · rename_i hs
    obtain ⟨hsig, hone⟩ := satisfied_signalled hr hs
    obtain ⟨hI, hall⟩ := consume_all h wakes_threadWoken hl hsig
      { s with objects := modifyAll s.objects SyncObject.threadWoken objs } rfl
    refine ⟨hI, fun _ => ?_⟩
    cases flags with
    | forAll => exact hall
    | forOne =>
      obtain ⟨o, rfl⟩ := hone rfl
      exact forOne_of_all (hsig o (mem_singleton_self o)) (mem_singleton_self o) hall
  · rename_i hs
    exact ⟨countInv_waitInternal h hl flags timed, fun hs' => absurd hs' hs⟩

theorem countInv_removeTags (h : CountInv s) (hl : l.Nodup)
    (ho : s'.objects = modifyAll s.objects (SyncObject.removeTag t) l) : CountInv s' := by
  intro o ob hob
  rw [ho] at hob
  exact ok_modifyAll h hl (fun o _ ob hob => (h o ob hob).removeTag t) o ob hob

section

variable (hl : l.Nodup) (ho : s'.objects = modifyAll s.objects (SyncObject.removeTag t) l) (x : Nat)
include hl ho x

theorem units_removeTags : units s' x = units s x := by
  unfold units
  rw [ho, modifyAll_apply _ hl]
  split
  · cases s.objects x <;> simp
  · rfl

theorem signalled_removeTags :
    signalled s' x = signalled s x := by
  unfold signalled
  rw [ho, modifyAll_apply _ hl]
  split
  · cases s.objects x <;> simp
  · rfl

end

theorem wake_spec (h : CountInv s) {ev : WaitEvent} (hev : ev.fTags.Nodup)
    (ho : o ∈ ev.fTags) (hs : signalled s o = true) (hw : wakes s ev = true) :
    CountInv (wake s o t ev) ∧ Consumes s (wake s o t ev) ev.fFlags ev.fTags := by
  cases hf : ev.fFlags with
  | forAll =>
    simp only [wakes, hf] at hw
    exact consume_all h (wakes_removeTag_threadWoken t) hev (List.all_eq_true.1 hw) (wake s o t ev)
      (by simp only [wake, hf])
  | forOne =>
    -- first the tags leave the queues, then the signalled object gives a token
    let s1 : State := { s with objects := modifyAll s.objects (SyncObject.removeTag t) ev.fTags }
    have h1 : CountInv s1 := countInv_removeTags h hev rfl
    have hs1 : signalled s1 o = true := by rw [signalled_removeTags hev rfl]; exact hs
    obtain ⟨hI, hall⟩ := consume_all h1 wakes_threadWoken (nodup_singleton o) (by simpa using hs1)
      (wake s o t ev) (by simp only [wake, hf]; rfl)
    refine ⟨hI, forOne_of_all hs ho ?_⟩
    simpa only [units_removeTags hev (rfl : s1.objects = _)] using hall

theorem visit_spec (hQ : QueueInv s) (h : CountInv s) (hs : visit s = some s') :
    CountInv s' ∧ ∀ flags objs, satisfiedWait s .visit = some (flags, objs) → Consumes s s' flags objs := by
  unfold satisfiedWait
  cases visit_cases hs with
  | atEnd o hsig =>
    rw [hsig]
    exact ⟨h, nofun⟩
  | usedUp o t rest hsig hoff =>
    rw [hsig]
    dsimp only
    rw [if_neg (by rw [hoff]; decide)]
    exact ⟨h, nofun⟩
  | woken o t rest ev hsig hon hev hw =>
    rw [hsig]
    dsimp only
    rw [if_pos hon, hev, bind_some, if_pos hw]
    -- the visited tag is queued at `o`, so `o` is an object of its event
    have hmem : o ∈ ev.fTags := by
      obtain ⟨ev', hev', ho⟩ := (hQ.queued o t).1 ((hQ.visiting o _ hsig).2 t (.head _))
      rw [hev] at hev'
      cases hev'
      exact ho
    have h1 : CountInv { s with signalling := some (o, rest) } := h
    obtain ⟨hI, hc⟩ := wake_spec h1 (hQ.event t ev hev) hmem hon hw
    refine ⟨hI, ?_⟩
    rintro flags objs ⟨⟩
    exact hc
  | passed o t rest ev hsig hon hev hw =>
    rw [hsig]
    dsimp only
    rw [if_pos hon, hev, bind_some, if_neg (by rw [hw]; decide)]
    exact ⟨h, nofun⟩

/-! ## Every step -/

theorem count_step (hQ : QueueInv s) (h : CountInv s) {c : Call} (hr : c.consumesRight s)
    (hs : step s c = some s') :
    CountInv s' ∧ ∀ flags objs, satisfiedWait s c = some (flags, objs) → Consumes s s' flags objs := by
  unfold step at hs
  split at hs
  swap
  · cases hs
  rename_i hlegal
  cases c with
  | newSemaphore o n => exact ⟨countInv_newSemaphore h hlegal.2 hs, fun _ _ hsw => by cases hsw⟩
  | newMutex o => exact ⟨countInv_newMutex h hs, fun _ _ hsw => by cases hsw⟩
  | release o n => exact ⟨countInv_release h hlegal.2.2 hr hs, fun _ _ hsw => by cases hsw⟩
  | unlock o => exact ⟨countInv_unlock h hs, fun _ _ hsw => by cases hsw⟩
  | wait t o timed =>
    cases hs
    obtain ⟨hI, hc⟩ := wait_spec h t o timed
    refine ⟨hI, fun flags objs hsw => ?_⟩
    obtain ⟨ho, ⟨⟩⟩ := ite_none_right_eq_some.1 hsw
    exact hc ho
  | waitForMultiple t objs flags timed =>
    cases hs
    obtain ⟨hI, hc⟩ := waitForMultiple_spec h hlegal.2.2.1 hr
    refine ⟨hI, fun flags objs hsw => ?_⟩
    obtain ⟨ho, ⟨⟩⟩ := ite_none_right_eq_some.1 hsw
    exact hc ho
  | timeout t =>
    simp only [handleTimeout] at hs
    split at hs
    · rename_i tags flags hev
      cases hs
      exact ⟨countInv_removeTags h (hQ.event t _ hev) rfl, fun _ _ hsw => by cases hsw⟩
    · cases hs
  | visit => exact visit_spec hQ h hs

theorem countInv_initial : CountInv initial := fun o ob h => by cases h

theorem countInv_reachVia (h : system.ReachVia (fun s c => c.consumesRight s) s) :
    QueueInv s ∧ CountInv s := by
  refine StepSystem.ReachVia.invariant (fun s => QueueInv s ∧ CountInv s) ?_ ?_ h
  · rintro s rfl
    exact ⟨queueInv_initial, countInv_initial⟩
  · rintro s c s' ⟨hQ, hC⟩ hr hs
    exact ⟨queueInv_step hQ hs, (count_step hQ hC hr hs).1⟩

def SemaphoreRight (s : State) : Prop :=
  ∀ o sig tags fCount, s.objects o = some ⟨sig, tags, .semaphore fCount⟩ →
    0 ≤ fCount ∧ (sig = true ↔ 0 < fCount)

theorem CountInv.semaphoreRight (h : CountInv s) : SemaphoreRight s := by
  intro o sig tags fCount ho
  obtain ⟨h0, -, hsign⟩ := h o _ ho
  exact ⟨h0, hsign⟩

/-- **Counts are right in every run that consumes right**: in every state every semaphore has
`fCount >= 0` and is signalled exactly while `fCount > 0`, and every satisfied wait takes what it is for. -/
theorem semaphore_counts {s : State} (h : system.ReachVia (fun s c => c.consumesRight s) s) :
    SemaphoreRight s ∧
      ∀ c s' flags objs, c.consumesRight s → step s c = some s' → satisfiedWait s c = some (flags, objs) →
        SemaphoreRight s' ∧ Consumes s s' flags objs := by
  obtain ⟨hQ, hC⟩ := countInv_reachVia h
  refine ⟨hC.semaphoreRight, fun c s' flags objs hr hs hsw => ?_⟩
  obtain ⟨hC', hcons⟩ := count_step hQ hC hr hs
  exact ⟨hC'.semaphoreRight, hcons flags objs hsw⟩

/-- A release while a thread waits for it. -/
theorem semaphore_counts_run :
    ∃ s, system.exec initial [.newSemaphore 0 0, .wait 7 0 false, .release 0 2, .visit] = some s ∧
      SemaphoreRight s ∧
      ∀ c s' flags objs, c.consumesRight s → step s c = some s' → satisfiedWait s c = some (flags, objs) →
        SemaphoreRight s' ∧ Consumes s s' flags objs :=
  ⟨_, rfl, semaphore_counts <|
    StepSystem.reachVia_exec [.newSemaphore 0 0, .wait 7 0 false, .release 0 2, .visit] (.init rfl)
      ⟨trivial, trivial, (by decide : (0 : Int) + 2 < 2 ^ 31), trivial, trivial⟩ rfl⟩

/-- With `WAIT_FOR_ONE` over a signalled semaphore and one without tokens, `ThreadWoken` runs on both:
the second count becomes −1. -/
theorem waitForOne_takes_all : ¬ ∀ s, system.Reach s → SemaphoreRight s := by
  intro h
  have hreach : ∃ s, system.exec initial [.newSemaphore 0 1, .visit, .newSemaphore 1 0,
      .waitForMultiple 0 [0, 1] .forOne false] = some s ∧ s.objects 1 = some ⟨false, [], .semaphore (-1)⟩ :=
    ⟨_, rfl, rfl⟩
  obtain ⟨s, he, ho⟩ := hreach
  have hneg := (h s (StepSystem.reach_exec _ (.init rfl) he) 1 _ _ _ ho).1
  omega

end Synchronization
