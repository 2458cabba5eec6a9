import SkyOS.Cache.GetPage
import SkyOS.Lib.Machine

/-!
# Destroying caches under `fCacheLock` (`PageCache.cpp:49`, `:180`, `Mutex.cpp:11`)

`ReleaseRef` deletes the cache when the last reference goes, and `~PageCache` releases the source of the cache
while it holds `fCacheLock`, which is not recursive. So a thread's destructors are a stack of frames: as long as
the source has another reference the stack has one frame, and the lock is taken once. Where the reference is the
last one, the destructor of the source waits for the lock that the frame below it holds, for good.

| here | there |
| --- | --- |
| `Frame.using` | a thread between `fCacheLock.Lock()` and `Unlock()` in `GetPage`, `Lock` and `Unlock` |
| `Frame.lock` … `Frame.delete` | `~PageCache` at :53, :54, :60, :63, :65 |
| `fSignalled` | `fCacheLock.fSignalled`: the mutex is free |
| `alive` | the cache is constructed and not yet deleted |
-/

namespace CacheLock

open PageCache (Cache CacheState)
open Pages (PageState)
open Machine List

inductive Frame where
  | using
  | lock (this : Cache)
  | removePages (this : Cache)
  | release (this : Cache)
  | unlock (this : Cache)
  | delete (this : Cache)
deriving DecidableEq, Repr

/-- The thread has `fCacheLock` for this frame. -/
def Frame.holds : Frame → Bool
  | .using | .removePages _ | .release _ | .unlock _ => true
  | .lock _ | .delete _ => false

structure State (T P : Type) where
  data : CacheState P
  alive : Cache → Bool
  fSourceCache : Cache → Option Cache
  fRefCount : Cache → Int
  fSignalled : Bool
  /-- What a thread is in, innermost first. -/
  stack : T → List Frame

inductive Call (T P : Type) where
  | newCache (this : Cache) (copyCache : Option Cache)
  | acquireRef (this : Cache)
  | releaseRef (t : T) (this : Cache)
  | lock (t : T)
  | insertPage (t : T) (this : Cache) (offset : BitVec 32) (page : P)
  | unlock (t : T)
  | run (t : T)

section
variable {T P : Type}

/-- `AtomicAdd(&fRefCount, n)`. -/
def atomicAdd (s : State T P) (this : Cache) (n : Int) : State T P :=
  { s with fRefCount := Function.update s.fRefCount this (toInt32 (s.fRefCount this + n)) }

/-- `PageCache` (:34). -/
def newCache (s : State T P) (this : Cache) (copyCache : Option Cache) : State T P :=
  let s := { s with
    data := { s.data with fResidentPages := Function.update s.data.fResidentPages this [] }
    alive := Function.update s.alive this true
    fSourceCache := Function.update s.fSourceCache this copyCache
    fRefCount := Function.update s.fRefCount this 0 }
  match copyCache with
  | some source => atomicAdd s source 1
  | none => s

variable [DecidableEq T]

def State.withStack (s : State T P) (t : T) (frames : List Frame) : State T P :=
  { s with stack := Function.update s.stack t frames }

/-- `fCacheLock.Lock()`: the mutex is taken while it is signalled (`Mutex::ThreadWoken`). -/
def lockMutex (s : State T P) (t : T) (frames : List Frame) : Option (State T P) :=
  if s.fSignalled then some ({ s with fSignalled := false }.withStack t frames) else none

def unlockMutex (s : State T P) (t : T) (frames : List Frame) : State T P :=
  { s with fSignalled := true }.withStack t frames

/-- `ReleaseRef` (:180): the thread goes on in `frames`, or deletes the cache before that. -/
def releaseRef (s : State T P) (t : T) (this : Cache) (frames : List Frame) : State T P :=
  (atomicAdd s this (-1)).withStack t (if s.fRefCount this = 1 then .lock this :: frames else frames)

variable [DecidableEq P]

def run (s : State T P) (t : T) : Option (State T P) :=
  match s.stack t with
  | [] | .using :: _ => none
  | .lock this :: rest => lockMutex s t (.removePages this :: rest)
  | .removePages this :: rest =>
    match s.data.fResidentPages this with
    | page :: _ => (PageCache.removePage s.data this page).map fun data =>
        { s with data := PageCache.setState data page .kPageFree }
    | [] => some (s.withStack t (.release this :: rest))
  | .release this :: rest =>
    match s.fSourceCache this with
    | some source => some (releaseRef s t source (.unlock this :: rest))
    | none => some (s.withStack t (.unlock this :: rest))
  | .unlock this :: rest => some (unlockMutex s t (.delete this :: rest))
  | .delete this :: rest => some ({ s with alive := Function.update s.alive this false }.withStack t rest)

/-- Callers release references they have, and not from within the cache. -/
def Call.legal (s : State T P) : Call T P → Prop
  | .newCache this copyCache => s.alive this = false ∧ copyCache.all s.alive = true
  | .acquireRef this => s.alive this = true
  | .releaseRef t this => s.stack t = [] ∧ s.alive this = true ∧ 0 < s.fRefCount this
  | .lock t => s.stack t = []
  | .insertPage t this _ page => s.stack t = [.using] ∧ s.alive this = true ∧ s.data.fCache page = none
  | .unlock t => s.stack t = [.using]
  | .run _ => True

def perform (s : State T P) : Call T P → Option (State T P)
  | .newCache this copyCache => some (newCache s this copyCache)
  | .acquireRef this => some (atomicAdd s this 1)
  | .releaseRef t this => some (releaseRef s t this [])
  | .lock t => lockMutex s t [.using]
  | .insertPage _ this offset page => some { s with data := PageCache.insertPage s.data this offset page }
  | .unlock t => some (unlockMutex s t [])
  | .run t => run s t

instance (s : State T P) : (c : Call T P) → Decidable (c.legal s)
  | .newCache _ _ => inferInstanceAs (Decidable (_ ∧ _))
  | .acquireRef _ => inferInstanceAs (Decidable (_ = _))
  | .releaseRef _ _ | .insertPage _ _ _ _ => inferInstanceAs (Decidable (_ ∧ _ ∧ _))
  | .lock _ | .unlock _ => inferInstanceAs (Decidable (_ = _))
  | .run _ => .isTrue trivial

def step (s : State T P) (c : Call T P) : Option (State T P) :=
  if c.legal s then perform s c else none

/-- No cache yet; the pages are in any state, and the mutex is free (`Mutex::Mutex`). -/
def bootstrap (T : Type) {P : Type} (pageCount : Nat) (fState : P → PageState) : State T P where
  data := (PageCache.bootstrap T pageCount fState fun _ => none).data
  alive _ := false
  fSourceCache _ := none
  fRefCount _ := 0
  fSignalled := true
  stack _ := []

def system (T P : Type) [DecidableEq T] [DecidableEq P] : StepSystem (State T P) (Call T P) where
  init s := ∃ pageCount fState, s = bootstrap T pageCount fState
  step := step

/-! ## The discipline -/

/-- The thread is about to lock what it has locked. -/
def Relocks (s : State T P) (t : T) : Prop :=
  ∃ this rest, s.stack t = .lock this :: rest ∧ ∃ f ∈ rest, f.holds = true

def NoRelock (s : State T P) : Prop := ∀ t, ¬ Relocks s t

/-- The source that the innermost destructor of a thread releases next. -/
def releases (s : State T P) (t : T) : Option Cache :=
  match s.stack t with
  | .release this :: _ => s.fSourceCache this
  | _ => none

/-- A destructor that releases its source does not release the last reference. -/
def sourceShared (s : State T P) : Call T P → Prop
  | .run t => ∀ source ∈ releases s t, s.fRefCount source ≠ 1
  | _ => True

end

/-! ## What a step does to the stacks and the mutex -/

/-- The thread `t` goes on, with the stack and the mutex that it leaves. -/
inductive Moves {T P : Type} (s : State T P) : Call T P → T → List Frame → Bool → Prop where
  | begins {t : T} {this : Cache} (h : s.stack t = []) :
    Moves s (.releaseRef t this) t [.lock this] s.fSignalled
  | uses {t : T} (h : s.stack t = []) (hfree : s.fSignalled = true) : Moves s (.lock t) t [.using] false
  | leaves {t : T} (h : s.stack t = [.using]) : Moves s (.unlock t) t [] true
  | locks {t : T} {this : Cache} {rest : List Frame} (h : s.stack t = .lock this :: rest)
    (hfree : s.fSignalled = true) : Moves s (.run t) t (.removePages this :: rest) false
  | emptied {t : T} {this : Cache} {rest : List Frame} (h : s.stack t = .removePages this :: rest) :
    Moves s (.run t) t (.release this :: rest) s.fSignalled
  | keeps {t : T} {this : Cache} {rest : List Frame} (h : s.stack t = .release this :: rest)
    (hshared : ∀ source, s.fSourceCache this = some source → s.fRefCount source ≠ 1) :
    Moves s (.run t) t (.unlock this :: rest) s.fSignalled
  | nests {t : T} {this source : Cache} {rest : List Frame} (h : s.stack t = .release this :: rest)
    (hsource : s.fSourceCache this = some source) (hlast : s.fRefCount source = 1) :
    Moves s (.run t) t (.lock source :: .unlock this :: rest) s.fSignalled
  | unlocks {t : T} {this : Cache} {rest : List Frame} (h : s.stack t = .unlock this :: rest) :
    Moves s (.run t) t (.delete this :: rest) true
  | deletes {t : T} {this : Cache} {rest : List Frame} (h : s.stack t = .delete this :: rest) :
    Moves s (.run t) t rest s.fSignalled

section
variable {T P : Type} {s s' : State T P}

@[simp] theorem newCache_stack (this : Cache) (copyCache : Option Cache) :
    (newCache s this copyCache).stack = s.stack := by
  cases copyCache <;> rfl

@[simp] theorem newCache_fSignalled (this : Cache) (copyCache : Option Cache) :
    (newCache s this copyCache).fSignalled = s.fSignalled := by
  cases copyCache <;> rfl

variable {t : T}

variable {rest : List Frame}

theorem releases_eq {this : Cache} (h : s.stack t = .release this :: rest) :
    releases s t = s.fSourceCache this := by
  unfold releases
  rw [h]

/-! ## One frame for each thread -/

variable {c : Call T P} {frames : List Frame} {sig : Bool}

theorem Moves.length_le (h : Moves s c t frames sig)
    (hshared : sourceShared s c) (hlen : (s.stack t).length ≤ 1) : frames.length ≤ 1 := by
  cases h with
  | begins h | uses h | leaves h => simp
  | locks h | emptied h | keeps h | unlocks h =>
    rw [h] at hlen
    exact hlen
  | nests h hsource hlast => exact absurd hlast (hshared _ ((releases_eq h).trans hsource))
  | deletes h =>
    rw [h, length_cons] at hlen
    omega

/-- Every step but one keeps to the condition, and that one begins a destructor under the lock. -/
theorem Moves.shared_or (h : Moves s c t frames sig) :
    sourceShared s c ∨ ∃ source this rest, frames = .lock source :: .unlock this :: rest := by
  cases h with
  | begins | uses | leaves => exact .inl trivial
  | locks h | emptied h | unlocks h | deletes h =>
    refine .inl fun source hsource => ?_
    simp [releases, h] at hsource
  | keeps h hshared => exact .inl fun source hsource => hshared source ((releases_eq h).symm.trans hsource)
  | nests => exact .inr ⟨_, _, _, rfl⟩

/-- No destructor is within another. -/
def Flat (s : State T P) : Prop := ∀ t, (s.stack t).length ≤ 1

theorem Flat.noRelock (hf : Flat s) : NoRelock s := by
  rintro t ⟨this, rest, hstack, f, hmem, -⟩
  have hlen := hf t
  rw [hstack, length_cons] at hlen
  obtain rfl : rest = [] := eq_nil_of_length_eq_zero (by omega)
  cases hmem

/-! ## The mutex -/

def Holds (s : State T P) (t : T) : Prop := ∃ f ∈ s.stack t, f.holds = true

/-- One thread has the mutex, or it is free; and a destructor within another one has not passed its lock. -/
structure LockInv (s : State T P) : Prop where
  free : s.fSignalled = true → ∀ t, ¬ Holds s t
  one : ∀ t t', Holds s t → Holds s t' → t = t'
  shape : ∀ t, (s.stack t).length ≤ 1 ∨ ∃ source this, s.stack t = [.lock source, .unlock this]

theorem holds_iff (h : s.stack t = frames) : Holds s t ↔ ∃ f ∈ frames, f.holds = true := by
  rw [← h]
  rfl

/-- Where the mutex is free, the innermost frame is the only one. -/
theorem LockInv.rest_nil (hi : LockInv s) {f : Frame} (h : s.stack t = f :: rest)
    (hf : s.fSignalled = true ∨ ∀ source, f ≠ .lock source) : rest = [] := by
  rcases hi.shape t with hlen | ⟨source, this, hstack⟩
  · rw [h, length_cons] at hlen
    exact eq_nil_of_length_eq_zero (by omega)
  · rcases hf with hfree | hne
    · refine absurd ⟨.unlock this, ?_, rfl⟩ (hi.free hfree t)
      simp [hstack]
    · rw [h] at hstack
      cases hstack
      exact absurd rfl (hne source)

theorem Moves.mutex (h : Moves s c t frames sig)
    (hi : LockInv s) :
    (frames.length ≤ 1 ∨ ∃ source this, frames = [.lock source, .unlock this]) ∧
    ((s.fSignalled = true ∧ sig = false) ∨
     (Holds s t ∧ sig = true ∧ ¬ ∃ f ∈ frames, f.holds = true) ∨
     (sig = s.fSignalled ∧ ((∃ f ∈ frames, f.holds = true) ↔ Holds s t))) := by
  cases h with
  | begins h => exact ⟨.inl (by simp), .inr (.inr ⟨rfl, by simp [holds_iff h, Frame.holds]⟩)⟩
  | uses h hfree => exact ⟨.inl (by simp), .inl ⟨hfree, rfl⟩⟩
  | leaves h => exact ⟨.inl (by simp), .inr (.inl ⟨(holds_iff h).2 ⟨_, .head _, rfl⟩, rfl, by simp⟩)⟩
  | locks h hfree =>
    obtain rfl := hi.rest_nil h (.inl hfree)
    exact ⟨.inl (by simp), .inl ⟨hfree, rfl⟩⟩
  | emptied h | keeps h =>
    obtain rfl := hi.rest_nil h (.inr (by simp))
    exact ⟨.inl (by simp), .inr (.inr ⟨rfl, by simp [holds_iff h, Frame.holds]⟩)⟩
  | nests h =>
    obtain rfl := hi.rest_nil h (.inr (by simp))
    exact ⟨.inr ⟨_, _, rfl⟩, .inr (.inr ⟨rfl, by simp [holds_iff h, Frame.holds]⟩)⟩
  | unlocks h =>
    obtain rfl := hi.rest_nil h (.inr (by simp))
    refine ⟨.inl (by simp), .inr (.inl ⟨(holds_iff h).2 ⟨_, .head _, rfl⟩, rfl, ?_⟩)⟩
    simp [Frame.holds]
  | deletes h =>
    obtain rfl := hi.rest_nil h (.inr (by simp))
    exact ⟨.inl (by simp), .inr (.inr ⟨rfl, by simp [holds_iff h, Frame.holds]⟩)⟩

/-! ## Steps -/

variable [DecidableEq T]

theorem lockMutex_some (h : lockMutex s t frames = some s') :
    s.fSignalled = true ∧ s'.fSignalled = false ∧ s'.stack = Function.update s.stack t frames := by
  obtain ⟨hfree, h⟩ := Option.ite_none_right_eq_some.1 h
  obtain rfl := Option.some.inj h
  exact ⟨hfree, rfl, rfl⟩

theorem update_self_stack (frames : List Frame) (h : s.stack t = frames) :
    Function.update s.stack t frames = s.stack := by
  subst h
  exact Function.update_eq_self t s.stack

variable [DecidableEq P]

theorem run_moves (h : run s t = some s') :
    (s'.stack = s.stack ∧ s'.fSignalled = s.fSignalled ∧ sourceShared s (.run t : Call T P)) ∨
    ∃ frames, Moves s (.run t) t frames s'.fSignalled ∧ s'.stack = Function.update s.stack t frames := by
  unfold run at h
  split at h
  case h_1 => cases h
  case h_2 => cases h
  case h_3 this rest hstack =>
    obtain ⟨hfree, hsig, hstk⟩ := lockMutex_some h
    rw [hsig]
    exact .inr ⟨_, .locks hstack hfree, hstk⟩
  case h_4 this rest hstack =>
    split at h
    · obtain ⟨data, -, rfl⟩ := Option.map_eq_some_iff.1 h
      refine .inl ⟨rfl, rfl, fun source h' => ?_⟩
      simp [releases, hstack] at h'
    · cases h
      exact .inr ⟨_, .emptied hstack, rfl⟩
  case h_5 this rest hstack =>
    split at h
    case h_1 source hsource =>
      cases h
      by_cases hlast : s.fRefCount source = 1
      · refine .inr ⟨_, .nests hstack hsource hlast, ?_⟩
        unfold releaseRef
        rw [if_pos hlast]
        rfl
      · refine .inr ⟨_, .keeps hstack fun source' hsource' => ?_, ?_⟩
        · obtain rfl := Option.some.inj (hsource.symm.trans hsource')
          exact hlast
        · unfold releaseRef
          rw [if_neg hlast]
          rfl
    case h_2 hnone =>
      cases h
      refine .inr ⟨_, .keeps hstack fun source hsource => ?_, rfl⟩
      rw [hnone] at hsource
      cases hsource
  case h_6 this rest hstack =>
    cases h
    exact .inr ⟨_, .unlocks hstack, rfl⟩
  case h_7 this rest hstack =>
    cases h
    exact .inr ⟨_, .deletes hstack, rfl⟩

theorem step_moves (h : step s c = some s') :
    (s'.stack = s.stack ∧ s'.fSignalled = s.fSignalled ∧ sourceShared s c) ∨
    ∃ t frames, Moves s c t frames s'.fSignalled ∧ s'.stack = Function.update s.stack t frames := by
  obtain ⟨hlegal, h⟩ := Option.ite_none_right_eq_some.1 h
  cases c with
  | newCache this copyCache =>
    cases h
    exact .inl ⟨newCache_stack .., newCache_fSignalled .., trivial⟩
  | acquireRef this =>
    cases h
    exact .inl ⟨rfl, rfl, trivial⟩
  | releaseRef t this =>
    cases h
    obtain ⟨hidle, -, -⟩ := hlegal
    by_cases hlast : s.fRefCount this = 1
    · refine .inr ⟨t, _, .begins hidle, ?_⟩
      unfold releaseRef
      rw [if_pos hlast]
      rfl
    · refine .inl ⟨?_, rfl, trivial⟩
      unfold releaseRef
      rw [if_neg hlast]
      exact update_self_stack [] hidle
  | lock t =>
    obtain ⟨hfree, hsig, hstk⟩ := lockMutex_some h
    rw [hsig]
    exact .inr ⟨t, _, .uses hlegal hfree, hstk⟩
  | insertPage t this offset page =>
    cases h
    exact .inl ⟨rfl, rfl, trivial⟩
  | unlock t =>
    cases h
    exact .inr ⟨t, _, .leaves hlegal, rfl⟩
  | run t =>
    rcases run_moves h with hstays | ⟨frames, hmoves, hstk⟩
    · exact .inl hstays
    · exact .inr ⟨t, frames, hmoves, hstk⟩

theorem Flat.step (hf : Flat s) (hshared : sourceShared s c) (h : step s c = some s') : Flat s' := by
  intro t'
  rcases step_moves h with ⟨hstk, -, -⟩ | ⟨t, frames, hmoves, hstk⟩
  · rw [hstk]
    exact hf t'
  · rw [hstk, Function.update_apply]
    split
    · exact hmoves.length_le hshared (hf t)
    · exact hf t'

/-- A step that leaves no thread before a lock that it holds has not released the last reference to a source. -/
theorem shared_of_noRelock (h : step s c = some s') (hno : NoRelock s') : sourceShared s c := by
  rcases step_moves h with ⟨-, -, hshared⟩ | ⟨t, frames, hmoves, hstk⟩
  · exact hshared
  · rcases hmoves.shared_or with hshared | ⟨source, this, rest, rfl⟩
    · exact hshared
    · refine absurd ⟨source, .unlock this :: rest, ?_, _, .head _, rfl⟩ (hno t)
      rw [hstk]
      exact Function.update_self ..

/-- **No thread locks what it has locked**, in every run in which destructors release sources that have another
reference; and a step that releases the last one is a step to a thread before its own lock. -/
theorem no_relock {s : State T P} (h : (system T P).ReachVia sourceShared s) :
    NoRelock s ∧ ∀ c s', step s c = some s' → (NoRelock s' ↔ sourceShared s c) := by
  have hf : Flat s := by
    refine h.invariant Flat ?_ fun _ _ _ hf hshared hst => hf.step hshared hst
    rintro _ ⟨pageCount, fState, rfl⟩ t
    exact Nat.zero_le 1
  refine ⟨hf.noRelock, fun c s' hst => ⟨shared_of_noRelock hst, fun hshared => ?_⟩⟩
  exact (hf.step hshared hst).noRelock

theorem bootstrap_reach (C : State T P → Call T P → Prop) (pageCount : Nat) (fState : P → PageState) :
    (system T P).ReachVia C (bootstrap T pageCount fState) := .init ⟨pageCount, fState, rfl⟩

/-! ## Who locks twice waits for ever -/

theorem LockInv.step (hi : LockInv s) (h : step s c = some s') : LockInv s' := by
  rcases step_moves h with ⟨hstk, hsig, -⟩ | ⟨t, frames, hmoves, hstk⟩
  · have hholds : ∀ t, Holds s' t ↔ Holds s t := by
      intro t
      unfold Holds
      rw [hstk]
    refine ⟨?_, ?_, ?_⟩
    · intro hfree t ht
      exact hi.free (hsig.symm.trans hfree) t ((hholds t).1 ht)
    · intro t t' ht ht'
      exact hi.one t t' ((hholds t).1 ht) ((hholds t').1 ht')
    · intro t
      rw [hstk]
      exact hi.shape t
  · obtain ⟨hshape, hmutex⟩ := hmoves.mutex hi
    have hself : Holds s' t ↔ ∃ f ∈ frames, f.holds = true := holds_iff (by rw [hstk]; exact Function.update_self ..)
    have hother : ∀ t', t' ≠ t → (Holds s' t' ↔ Holds s t') := by
      intro t' hne
      refine holds_iff ?_
      rw [hstk, Function.update_of_ne hne]
    -- who has the mutex now either had it before or is the thread that took it while it was free
    have hwho : ∀ t', Holds s' t' → Holds s t' ∨ (t' = t ∧ s.fSignalled = true) := by
      intro t' ht'
      by_cases hne : t' = t
      · subst hne
        rcases hmutex with ⟨hfree, -⟩ | ⟨hhad, -, -⟩ | ⟨-, hsame⟩
        · exact .inr ⟨rfl, hfree⟩
        · exact .inl hhad
        · exact .inl (hsame.1 (hself.1 ht'))
      · exact .inl ((hother t' hne).1 ht')
    refine ⟨?_, ?_, ?_⟩
    · intro hfree t' ht'
      rcases hmutex with ⟨-, hsig⟩ | ⟨hhad, -, hnot⟩ | ⟨hsig, hsame⟩
      · rw [hsig] at hfree
        cases hfree
      · by_cases hne : t' = t
        · subst hne
          exact hnot (hself.1 ht')
        · exact hne (hi.one t' t ((hother t' hne).1 ht') hhad)
      · rcases hwho t' ht' with hhad | ⟨rfl, hwas⟩
        · exact hi.free (hsig.symm.trans hfree) t' hhad
        · exact hi.free hwas t' (hsame.1 (hself.1 ht'))
    · intro t₁ t₂ h₁ h₂
      rcases hwho t₁ h₁ with k₁ | ⟨rfl, hfree⟩
      · rcases hwho t₂ h₂ with k₂ | ⟨-, hfree⟩
        · exact hi.one t₁ t₂ k₁ k₂
        · exact absurd k₁ (hi.free hfree t₁)
      · rcases hwho t₂ h₂ with k₂ | ⟨rfl, -⟩
        · exact absurd k₂ (hi.free hfree t₂)
        · rfl
    · intro t'
      rw [hstk, Function.update_apply]
      split
      · exact hshape
      · exact hi.shape t'

theorem lockInv_reach (h : (system T P).Reach s) : LockInv s := by
  refine h.invariant LockInv ?_ fun _ _ _ hi hst => hi.step hst
  rintro _ ⟨pageCount, fState, rfl⟩
  have hnot : ∀ t, ¬ Holds (bootstrap T pageCount fState) t := by
    rintro t ⟨f, hf, -⟩
    cases hf
  exact ⟨fun _ => hnot, fun t t' ht => absurd ht (hnot t), fun t => .inl (Nat.zero_le 1)⟩

theorem Relocks.step (hi : LockInv s) (hr : Relocks s t) (h : step s c = some s') :
    Relocks s' t ∧ s'.stack t = s.stack t := by
  obtain ⟨this, rest, hstack, f, hf, hholds⟩ := hr
  have hmine : Holds s t := ⟨f, by rw [hstack]; exact mem_cons_of_mem _ hf, hholds⟩
  have hbusy : s.fSignalled ≠ true := fun hfree => hi.free hfree t hmine
  have hsame : s'.stack t = s.stack t := by
    rcases step_moves h with ⟨hstk, -, -⟩ | ⟨t', frames, hmoves, hstk⟩
    · rw [hstk]
    · rw [hstk, Function.update_of_ne]
      rintro rfl
      -- the thread can only take the mutex, and that is not free
      generalize s'.fSignalled = sig at hmoves
      cases hmoves with
      | locks _ hfree => exact hbusy hfree
      | begins k | uses k | leaves k | emptied k | keeps k | nests k | unlocks k | deletes k =>
        rw [hstack] at k
        cases k
  exact ⟨⟨this, rest, hsame.trans hstack, f, hf, hholds⟩, hsame⟩

/-- **A thread before a lock that it holds** stays there, and no other thread gets the lock, however the run
goes on. -/
theorem relock_deadlocks (h : (system T P).Reach s) (hr : Relocks s t) (calls : List (Call T P))
    (hs : (system T P).exec s calls = some s') : s'.stack t = s.stack t ∧ s'.fSignalled = false := by
  induction calls generalizing s with
  | nil =>
    cases hs
    obtain ⟨this, rest, hstack, f, hf, hholds⟩ := hr
    refine ⟨rfl, Bool.eq_false_iff.2 fun hfree => (lockInv_reach h).free hfree t ⟨f, ?_, hholds⟩⟩
    rw [hstack]
    exact .tail _ hf
  | cons c calls ih =>
    rw [StepSystem.exec_cons] at hs
    obtain ⟨s₁, hstep, hs⟩ := Option.bind_eq_some_iff.1 hs
    obtain ⟨hr₁, hsame⟩ := hr.step (lockInv_reach h) hstep
    obtain ⟨hstack, hsig⟩ := ih (.step h trivial hstep) hr₁ hs
    exact ⟨hstack.trans hsame, hsig⟩

end

theorem relock_deadlocks_run : ∃ s s' : State Bool (Fin 1), s.stack false = [.lock 0x2000, .unlock 0x1000] ∧
    (system Bool (Fin 1)).exec s [.newCache 0x3000 none, .acquireRef 0x3000] = some s' ∧
      s'.stack false = s.stack false ∧ s'.fSignalled = false := by
  let start : State Bool (Fin 1) := bootstrap Bool 4096 fun _ => .kPageFree
  let calls : List (Call Bool (Fin 1)) := [.newCache 0x2000 none, .newCache 0x1000 (some 0x2000),
    .acquireRef 0x1000, .releaseRef false 0x1000, .run false, .run false, .run false]
  have hrun : ((system Bool (Fin 1)).exec start calls).map (fun s => decide (s.stack false =
      [.lock 0x2000, .unlock 0x1000] ∧
        ((system Bool (Fin 1)).exec s [.newCache 0x3000 none, .acquireRef 0x3000]).isSome)) = some true := by decide +kernel
  obtain ⟨s, hs, hfacts⟩ := Option.map_eq_some_iff.1 hrun
  obtain ⟨hstack, hafter⟩ := of_decide_eq_true hfacts
  obtain ⟨s', hs'⟩ := Option.isSome_iff_exists.1 hafter
  have hrelocks : Relocks s false := ⟨_, _, hstack, .unlock 0x1000, List.mem_cons_self, rfl⟩
  exact ⟨s, s', hstack, hs', relock_deadlocks (StepSystem.reach_exec calls (bootstrap_reach ..) hs) hrelocks _ hs'⟩

instance {n : Nat} (s : State Bool (Fin n)) : (c : Call Bool (Fin n)) → Decidable (sourceShared s c)
  | .run t => decidable_of_iff (((releases s t).all fun source => decide (s.fRefCount source ≠ 1)) = true) (by
      simp [sourceShared, Option.all_eq_true])
  | .newCache _ _ | .acquireRef _ | .releaseRef _ _ | .lock _ | .insertPage _ _ _ _ | .unlock _ =>
    .isTrue trivial

/-- A cache and its source, each with a reference of its own, are deleted one after the other. -/
theorem no_relock_run : ∃ s, (system Bool (Fin 1)).ReachVia sourceShared s ∧
    (NoRelock s ∧ ∀ c s', step s c = some s' → (NoRelock s' ↔ sourceShared s c)) ∧
    s.alive 0x1000 = false ∧ s.alive 0x2000 = false ∧ s.data.fState 0 = .kPageFree := by
  let start : State Bool (Fin 1) := bootstrap Bool 4096 fun _ => .kPageActive
  let calls : List (Call Bool (Fin 1)) := [.newCache 0x2000 none, .acquireRef 0x2000, .newCache 0x1000 (some 0x2000),
    .acquireRef 0x1000, .lock true, .insertPage true 0x1000 0 0, .releaseRef false 0x1000, .unlock true,
    .run false, .run false, .run false, .run false, .run false, .run false,
    .releaseRef true 0x2000, .run true, .run true, .run true, .run true, .run true]
  have hrun : ((system Bool (Fin 1)).exec start calls).map (fun s =>
      decide (s.alive 0x1000 = false ∧ s.alive 0x2000 = false ∧ s.data.fState 0 = .kPageFree)) = some true := by
    decide +kernel
  have hmeets : (system Bool (Fin 1)).Meets sourceShared start calls := by decide +kernel
  obtain ⟨s, hs, hfacts⟩ := Option.map_eq_some_iff.1 hrun
  have hreach := StepSystem.reachVia_exec calls (bootstrap_reach ..) hmeets hs
  exact ⟨s, hreach, no_relock hreach, of_decide_eq_true hfacts⟩

/-- A cache with the only reference to its source: `ReleaseRef` of the cache locks twice. -/
theorem last_source_relocks : ¬ ∀ s, (system Bool (Fin 1)).Reach s → NoRelock s := by
  intro h
  let start : State Bool (Fin 1) := bootstrap Bool 4096 fun _ => .kPageFree
  let calls : List (Call Bool (Fin 1)) := [.newCache 0x2000 none, .newCache 0x1000 (some 0x2000),
    .acquireRef 0x1000, .releaseRef false 0x1000, .run false, .run false, .run false]
  have hrun : ((system Bool (Fin 1)).exec start calls).map (fun s => s.stack false) =
      some [.lock 0x2000, .unlock 0x1000] := by decide +kernel
  obtain ⟨s, hs, hstack⟩ := Option.map_eq_some_iff.1 hrun
  refine h s (StepSystem.reach_exec calls (bootstrap_reach ..) hs) false ⟨_, _, hstack, .unlock 0x1000, ?_, rfl⟩
  exact List.mem_cons_self

end CacheLock
