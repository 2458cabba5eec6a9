import Mathlib.Data.List.Nodup
import SkyOS.Lib.Machine
import SkyOS.Lib.StepSystem

/-!
# `Synchronization`, `Semaphore`, `Mutex` (`Synchronization.cpp`, `Semaphore.cpp`, `Mutex.cpp:6-24`)

Every call runs with interrupts disabled, so a call is one step, except that the loop of `Signal`
(`Synchronization.cpp:136`) is taken one visited tag at a time (`visit`): while `signalling` is set no
other call is enabled. A thread waits for at most one event, so the `ThreadWaitEvent` on its stack is
found by the thread's number, and a `WaitTag` by its thread and its object.

| here | there |
| --- | --- |
| `SyncObject` | `Synchronization`: `fSignalled`, the queue `fTags`, and what the subclass adds |
| `WaitEvent.fTags` | the `fEventNext` chain, last object first (`WaitInternal`, :191-196) |
| `WaitEvent.timed` | `timeout != INFINITE_TIMEOUT`, so a timer is pending |
| `State.ready` | the calls `gScheduler.EnqueueReadyThread`, oldest first |
| `Call.visit` | one iteration of the loop of `Signal` |
-/

namespace Synchronization

open Machine

inductive WaitFlags where
  | forOne
  | forAll
deriving DecidableEq, Repr

/-- What the subclasses of `Synchronization` add. -/
inductive Kind where
  | semaphore (fCount : Int)
  | mutex
deriving DecidableEq, Repr

structure SyncObject where
  fSignalled : Bool
  fTags : List Nat
  kind : Kind
deriving DecidableEq, Repr

structure WaitEvent where
  fTags : List Nat
  fFlags : WaitFlags
  timed : Bool
deriving DecidableEq, Repr

structure State where
  objects : Nat → Option SyncObject
  /-- The event a thread waits for. -/
  waits : Nat → Option WaitEvent
  ready : List Nat
  /-- The object being signalled and the tags its loop has yet to visit. -/
  signalling : Option (Nat × List Nat)

/-! ## The objects -/

/-- `ThreadWoken`: `Semaphore.cpp:43`, `Mutex.cpp:21`. -/
def SyncObject.threadWoken (ob : SyncObject) : SyncObject :=
  match ob.kind with
  | .semaphore fCount =>
    { ob with kind := .semaphore (toInt32 (fCount - 1)),
              fSignalled := if toInt32 (fCount - 1) = 0 then false else ob.fSignalled }
  | .mutex => { ob with fSignalled := false }

def SyncObject.enqueue (t : Nat) (ob : SyncObject) : SyncObject := { ob with fTags := ob.fTags ++ [t] }

/-- `WaitTag::RemoveFromList`. -/
def SyncObject.removeTag (t : Nat) (ob : SyncObject) : SyncObject := { ob with fTags := ob.fTags.erase t }

def State.put (s : State) (o : Nat) (ob : SyncObject) : State :=
  { s with objects := Function.update s.objects o (some ob) }

def modify (objs : Nat → Option SyncObject) (f : SyncObject → SyncObject) (o : Nat) : Nat → Option SyncObject :=
  Function.update objs o ((objs o).map f)

/-- A loop over dispatchers or tags that does `f` to each object. -/
def modifyAll (objs : Nat → Option SyncObject) (f : SyncObject → SyncObject) (l : List Nat) :
    Nat → Option SyncObject :=
  l.foldl (fun objs o => modify objs f o) objs

def signalled (s : State) (o : Nat) : Bool := (s.objects o).any (·.fSignalled)

/-! ## The calls -/

/-- `Signal` (`Synchronization.cpp:127`) up to the first test of its loop. -/
def signal (s : State) (o : Nat) : State :=
  { s with objects := modify s.objects (fun ob => { ob with fSignalled := true }) o,
           signalling := some (o, ((s.objects o).map (·.fTags)).getD []) }

/-- `Semaphore::Semaphore` (`Semaphore.cpp:22`); a negative count panics. -/
def newSemaphore (s : State) (o : Nat) (initialCount : Int) : Option State :=
  if (s.objects o).isSome ∨ initialCount < 0 then none else
  let s := s.put o ⟨false, [], .semaphore initialCount⟩
  some (if 0 < initialCount then signal s o else s)

/-- `Mutex::Mutex` (`Mutex.cpp:6`). -/
def newMutex (s : State) (o : Nat) : Option State :=
  if (s.objects o).isSome then none else
  some (signal (s.put o ⟨false, [], .mutex⟩) o)

/-- `Semaphore::Release` (`Semaphore.cpp:32`). -/
def release (s : State) (o : Nat) (releaseCount : Int) : Option State :=
  match s.objects o with
  | some ⟨sig, tags, .semaphore oldCount⟩ =>
    let s := s.put o ⟨sig, tags, .semaphore (toInt32 (oldCount + releaseCount))⟩
    some (if oldCount = 0 then signal s o else s)
  | _ => none

/-- `Mutex::Unlock` (`Mutex.cpp:16`). -/
def unlock (s : State) (o : Nat) : Option State :=
  match s.objects o with
  | some ⟨_, _, .mutex⟩ => some (signal s o)
  | _ => none

/-- `WaitInternal` (`Synchronization.cpp:186`): queue a tag at every object and block. -/
def waitInternal (s : State) (t : Nat) (objs : List Nat) (flags : WaitFlags) (timed : Bool) : State :=
  { s with objects := modifyAll s.objects (SyncObject.enqueue t) objs,
           waits := Function.update s.waits t (some ⟨objs.reverse, flags, timed⟩) }

/-- `Wait` (`Synchronization.cpp:60`). -/
def wait (s : State) (t o : Nat) (timed : Bool) : State :=
  if signalled s o then { s with objects := modify s.objects SyncObject.threadWoken o }
  else waitInternal s t [o] .forOne timed

/-- The test of `WaitForMultipleSyncObject` (:85-101). -/
def satisfied (s : State) (objs : List Nat) : WaitFlags → Bool
  | .forAll => objs.all (signalled s)
  | .forOne => objs.any (signalled s)

/-- `WaitForMultipleSyncObject` (:79): when the condition holds, `ThreadWoken` runs on *every* object
(:103-105), whatever the flags. -/
def waitForMultiple (s : State) (t : Nat) (objs : List Nat) (flags : WaitFlags) (timed : Bool) : State :=
  if satisfied s objs flags then { s with objects := modifyAll s.objects SyncObject.threadWoken objs }
  else waitInternal s t objs flags timed

/-- `ThreadWaitEvent::HandleTimeout` (:40). -/
def handleTimeout (s : State) (t : Nat) : Option State :=
  match s.waits t with
  | some ⟨tags, _, true⟩ =>
    some { s with objects := modifyAll s.objects (SyncObject.removeTag t) tags,
                  waits := Function.update s.waits t none, ready := s.ready ++ [t] }
  | _ => none

/-- The test `wake` of `Signal` (:142-151) for the event `ev`. -/
def wakes (s : State) (ev : WaitEvent) : Bool :=
  match ev.fFlags with
  | .forOne => true
  | .forAll => ev.fTags.all (signalled s)

/-- The wake-up of `Signal` (:153-169): unlink the tags, consume, make the thread ready. -/
def wake (s : State) (o t : Nat) (ev : WaitEvent) : State :=
  let objs := match ev.fFlags with
    | .forAll => modifyAll s.objects (fun ob => (ob.removeTag t).threadWoken) ev.fTags
    | .forOne => modify (modifyAll s.objects (SyncObject.removeTag t) ev.fTags) SyncObject.threadWoken o
  { s with objects := objs, waits := Function.update s.waits t none, ready := s.ready ++ [t] }

/-- One iteration of the loop of `Signal` (:136). The next tag is read before the visited one is
unlinked, and a wake-up unlinks no other tag of this queue, so the loop visits the tags that were queued
when it began. A tag without event would be a dangling pointer: no result. -/
def visit (s : State) : Option State :=
  match s.signalling with
  | none => none
  | some (_, []) => some { s with signalling := none }
  | some (o, t :: rest) =>
    if signalled s o then
      match s.waits t with
      | none => none
      | some ev =>
        let s := { s with signalling := some (o, rest) }
        some (if wakes s ev then wake s o t ev else s)
    else some { s with signalling := none }

inductive Call where
  | newSemaphore (o : Nat) (initialCount : Int)
  | newMutex (o : Nat)
  | release (o : Nat) (releaseCount : Int)
  | unlock (o : Nat)
  | wait (t o : Nat) (timed : Bool)
  | waitForMultiple (t : Nat) (objs : List Nat) (flags : WaitFlags) (timed : Bool)
  | timeout (t : Nat)
  | visit

/-- A thread that waits makes no call, the objects of a call exist and are distinct, the arguments are
32-bit, a release gives at least one token, and no call starts while `Signal` runs. -/
def Call.legal (s : State) : Call → Prop
  | .newSemaphore _ initialCount => s.signalling = none ∧ IsInt32 initialCount
  | .newMutex _ | .unlock _ | .timeout _ => s.signalling = none
  | .release _ releaseCount => s.signalling = none ∧ IsInt32 releaseCount ∧ 1 ≤ releaseCount
  | .wait t o _ => s.signalling = none ∧ s.waits t = none ∧ (s.objects o).isSome
  | .waitForMultiple t objs _ _ =>
    s.signalling = none ∧ s.waits t = none ∧ objs.Nodup ∧ ∀ o ∈ objs, (s.objects o).isSome
  | .visit => True

instance (s : State) : (c : Call) → Decidable (c.legal s)
  | .newSemaphore .. => inferInstanceAs (Decidable (_ ∧ _ ∧ _))
  | .newMutex _ | .unlock _ | .timeout _ => inferInstanceAs (Decidable (_ = none))
  | .release .. => inferInstanceAs (Decidable (_ ∧ (_ ∧ _) ∧ _))
  | .wait .. => inferInstanceAs (Decidable (_ ∧ _ ∧ _ = true))
  | .waitForMultiple .. => inferInstanceAs (Decidable (_ ∧ _ ∧ _ ∧ ∀ o ∈ _, _))
  | .visit => .isTrue trivial

def step (s : State) (c : Call) : Option State :=
  if c.legal s then
    match c with
    | .newSemaphore o initialCount => newSemaphore s o initialCount
    | .newMutex o => newMutex s o
    | .release o releaseCount => release s o releaseCount
    | .unlock o => unlock s o
    | .wait t o timed => some (wait s t o timed)
    | .waitForMultiple t objs flags timed => some (waitForMultiple s t objs flags timed)
    | .timeout t => handleTimeout s t
    | .visit => visit s
  else none

def initial : State := ⟨fun _ => none, fun _ => none, [], none⟩

def system : StepSystem State Call where
  init s := s = initial
  step := step

end Synchronization
