import Mathlib.Data.Fintype.Basic
import SkyOS.Lib.Machine
import SkyOS.Lib.StepSystem
import SkyOS.Lib.Weight

/-!
# `RWLock` (`Mutex.cpp:26-73`): the reader-writer lock under every interleaving

Each step is one atomic action of one thread: an `AtomicAdd` on `fCount`, one operation of the two
semaphores, one operation of the mutex `fWriteLock`, or the loop test of `LockWrite`. `AtomicAdd`
returns the old value (`cpu_asm.h:141`); its sum wraps to 32 bits.

| here | there |
| --- | --- |
| `State.fCount`, `fReadSem`, `fWriteSem` | the members of `RWLock` (`Mutex.h:23-26`), the semaphores as their counts |
| `State.fWriteLock` | the mutex, `some i` while thread `i` has it |
| `Pc` | where a thread stands between two atomic actions |
| `Label.lockRead` …, `Label.resume` | a call made, and the next atomic action of a call in progress |
-/

namespace RWLock

open Machine Weight Option

/-- Mutex.cpp:26 -/
def kMaxReaders : Int := 0x50000000

/-- A thread's place in `LockRead`, `UnlockRead`, `LockWrite` and `UnlockWrite`. -/
inductive Pc where
  | idle
  /-- `LockRead`: the counter was negative, before `fReadSem.Wait` returns. -/
  | readWait
  | reading
  /-- `UnlockRead`: the counter was negative, before `fWriteSem.Release`. -/
  | readRelease
  /-- `LockWrite`: before `fWriteLock.Lock` returns. -/
  | writeLock
  /-- `LockWrite`: before `AtomicAdd(&fCount, -kMaxReaders)`. -/
  | writeCount
  /-- `LockWrite`: at the test `readerCount-- > 0`. -/
  | writeLoop (readerCount : Int)
  /-- `LockWrite`: before `fWriteSem.Wait` returns. -/
  | writeWait (readerCount : Int)
  | writing
  /-- `UnlockWrite`: before `if (waitingReaders > 0) fReadSem.Release(waitingReaders)`. -/
  | writeRelease (waitingReaders : Int)
  /-- `UnlockWrite`: before `fWriteLock.Unlock`. -/
  | writeUnlock
deriving DecidableEq, Repr

structure State (ι : Type) where
  fCount : Int
  fReadSem : Nat
  fWriteSem : Nat
  fWriteLock : Option ι
  pc : ι → Pc

/-- What a thread does next: start a call, or take the next atomic action of its call. -/
inductive Label (ι : Type) where
  | lockRead (i : ι)
  | unlockRead (i : ι)
  | lockWrite (i : ι)
  | unlockWrite (i : ι)
  | resume (i : ι)

section
variable {ι : Type} [DecidableEq ι]

def State.goto (s : State ι) (i : ι) (q : Pc) : State ι := { s with pc := Function.update s.pc i q }

section

variable (s : State ι) (i : ι) (q : Pc)
include s i q

@[simp] theorem goto_fCount : (s.goto i q).fCount = s.fCount := rfl
@[simp] theorem goto_fReadSem : (s.goto i q).fReadSem = s.fReadSem := rfl
@[simp] theorem goto_fWriteSem : (s.goto i q).fWriteSem = s.fWriteSem := rfl
@[simp] theorem goto_fWriteLock : (s.goto i q).fWriteLock = s.fWriteLock := rfl
@[simp] theorem goto_pc : (s.goto i q).pc = Function.update s.pc i q := rfl

end

/-- `LockRead` (:35), up to and including its `AtomicAdd`. -/
def lockRead (s : State ι) (i : ι) : State ι :=
  { s with fCount := toInt32 (s.fCount + 1) }.goto i (if s.fCount < 0 then .readWait else .reading)

/-- `UnlockRead` (:44), up to and including its `AtomicAdd`. -/
def unlockRead (s : State ι) (i : ι) : State ι :=
  { s with fCount := toInt32 (s.fCount - 1) }.goto i (if s.fCount < 0 then .readRelease else .idle)

/-- `UnlockWrite` (:66), up to and including its `AtomicAdd`. -/
def unlockWrite (s : State ι) (i : ι) : State ι :=
  { s with fCount := toInt32 (s.fCount + kMaxReaders) }.goto i
    (.writeRelease (toInt32 (s.fCount + kMaxReaders)))

/-- The next atomic action of a call in progress; `none` while the thread has to wait. -/
def resume (s : State ι) (i : ι) : Option (State ι) :=
  match s.pc i with
  | .readWait => if 0 < s.fReadSem then some ({ s with fReadSem := s.fReadSem - 1 }.goto i .reading) else none
  | .readRelease => some ({ s with fWriteSem := s.fWriteSem + 1 }.goto i .idle)
  | .writeLock =>
    if s.fWriteLock = none then some ({ s with fWriteLock := some i }.goto i .writeCount) else none
  | .writeCount =>
    some ({ s with fCount := toInt32 (s.fCount - kMaxReaders) }.goto i (.writeLoop s.fCount))
  | .writeLoop readerCount =>
    some (s.goto i (if 0 < readerCount then .writeWait (readerCount - 1) else .writing))
  | .writeWait readerCount =>
    if 0 < s.fWriteSem then some ({ s with fWriteSem := s.fWriteSem - 1 }.goto i (.writeLoop readerCount))
    else none
  | .writeRelease waitingReaders =>
    some ({ s with fReadSem := s.fReadSem + waitingReaders.toNat }.goto i .writeUnlock)
  | .writeUnlock => some ({ s with fWriteLock := none }.goto i .idle)
  | .idle | .reading | .writing => none

def step (s : State ι) : Label ι → Option (State ι)
  | .lockRead i => if s.pc i = .idle then some (lockRead s i) else none
  | .unlockRead i => if s.pc i = .reading then some (unlockRead s i) else none
  | .lockWrite i => if s.pc i = .idle then some (s.goto i .writeLock) else none
  | .unlockWrite i => if s.pc i = .writing then some (unlockWrite s i) else none
  | .resume i => resume s i

/-- `RWLock::RWLock` (:28): both semaphores empty, the mutex free, no thread in a call. -/
def initial : State ι := ⟨0, 0, 0, none, fun _ => .idle⟩

def system (ι : Type) [DecidableEq ι] : StepSystem (State ι) (Label ι) where
  init s := s = initial
  step := step

end

/-! ## Where threads stand -/

/-- The thread holds the lock or is in `LockRead` / `LockWrite`. -/
def Pc.holdsOrAcquires : Pc → Bool
  | .readWait | .reading | .writeLock | .writeCount | .writeLoop _ | .writeWait _ | .writing => true
  | .idle | .readRelease | .writeRelease _ | .writeUnlock => false

/-- The thread is between `fWriteLock.Lock` and `fWriteLock.Unlock`. -/
def Pc.hasMutex : Pc → Bool
  | .writeCount | .writeLoop _ | .writeWait _ | .writing | .writeRelease _ | .writeUnlock => true
  | _ => false

/-- The thread has biased the counter by `-kMaxReaders`. -/
def Pc.biased : Pc → Bool
  | .writeLoop _ | .writeWait _ | .writing => true
  | _ => false

def Pc.awaits : Pc → Int
  | .writeLoop n => n
  | .writeWait n => n + 1
  | _ => 0

def Pc.pending : Pc → Int
  | .writeRelease n => n
  | _ => 0

def wWaiting : Pc → ℤ | .readWait => 1 | _ => 0
def wReading : Pc → ℤ | .reading => 1 | _ => 0
def wLeaving : Pc → ℤ | .readRelease => 1 | _ => 0

theorem wWaiting_nonneg (q : Pc) : 0 ≤ wWaiting q := by cases q <;> simp [wWaiting]
theorem wReading_nonneg (q : Pc) : 0 ≤ wReading q := by cases q <;> simp [wReading]
theorem wLeaving_nonneg (q : Pc) : 0 ≤ wLeaving q := by cases q <;> simp [wLeaving]

theorem readers_le_one (q : Pc) : wWaiting q + wReading q ≤ 1 := by cases q <;> simp [wWaiting, wReading]

theorem hasMutex_weights {q : Pc} (h : q.hasMutex = true) : wWaiting q = 0 ∧ wReading q = 0 ∧ wLeaving q = 0 := by
  cases q <;> simp [Pc.hasMutex, wWaiting, wReading, wLeaving] at h ⊢

/-- The counts a `writeLoop` / `writeWait` / `writeRelease` carries are never negative. -/
def Pc.ok : Pc → Prop
  | .writeLoop n | .writeWait n | .writeRelease n => 0 ≤ n
  | _ => True

section
variable {ι : Type}

/-- The place of the thread that has `fWriteLock`. -/
def State.owner (s : State ι) : Pc :=
  match s.fWriteLock with
  | none => .idle
  | some j => s.pc j

variable {s : State ι} {i : ι}

theorem owner_eq (h : s.fWriteLock = some i) : s.owner = s.pc i := by
  simp [State.owner, h]

variable [Fintype ι]

/-- Threads waiting for a read token, reading, and about to release a write token. -/
def State.waiting (s : State ι) : ℤ := total wWaiting s.pc
def State.reading (s : State ι) : ℤ := total wReading s.pc
def State.leaving (s : State ι) : ℤ := total wLeaving s.pc

structure Inv (s : State ι) : Prop where
  mutex : ∀ j, (s.pc j).hasMutex = true ↔ s.fWriteLock = some j
  ok : ∀ j, (s.pc j).ok
  count : s.fCount = s.waiting + s.reading - (if s.owner.biased then kMaxReaders else 0)
  /-- No writer counts: every waiting reader has a token or will get one, nobody leaves for a writer. -/
  free : s.owner.biased = false →
    s.fReadSem + s.owner.pending = s.waiting ∧ s.fWriteSem = 0 ∧ s.leaving = 0
  /-- A writer counts: its missing tokens are the readers that can still be inside. -/
  busy : s.owner.biased = true →
    s.owner.awaits = s.reading + s.fReadSem + s.leaving + s.fWriteSem ∧ s.fReadSem ≤ s.waiting

theorem waiting_nonneg (s : State ι) : 0 ≤ s.waiting := total_nonneg wWaiting_nonneg _
theorem reading_nonneg (s : State ι) : 0 ≤ s.reading := total_nonneg wReading_nonneg _
theorem leaving_nonneg (s : State ι) : 0 ≤ s.leaving := total_nonneg wLeaving_nonneg _

theorem readers_le_card (s : State ι) : s.waiting + s.reading ≤ Fintype.card ι := by
  have h := total_le_card readers_le_one s.pc
  rwa [total_add] at h

theorem one_le_reading (h : s.pc i = .reading) : 1 ≤ s.reading := by
  have hle := le_total wReading_nonneg s.pc i
  rwa [h] at hle

theorem not_owner (hI : Inv s) (h : (s.pc i).hasMutex = false) :
    s.fWriteLock ≠ some i := fun e => by simp [(hI.mutex i).2 e] at h

theorem inv_initial : Inv (initial : State ι) where
  mutex j := by simp [initial, Pc.hasMutex]
  ok j := trivial
  count := by
    simp [initial, State.waiting, State.reading, State.owner, Pc.biased, total, wWaiting, wReading]
  free _ := by
    simp [initial, State.waiting, State.leaving, State.owner, Pc.pending, total, wWaiting, wLeaving]
  busy h := by simp [initial, State.owner, Pc.biased] at h

end

/-! ## One thread moves -/

section
variable {ι : Type} [DecidableEq ι] {s : State ι} {i : ι} {q : Pc}

theorem owner_goto_self (h : s.fWriteLock = some i) (q : Pc) : (s.goto i q).owner = q := by
  simp [State.owner, h]

theorem owner_goto_other (h : s.fWriteLock ≠ some i) (q : Pc) : (s.goto i q).owner = s.owner := by
  unfold State.owner
  rw [goto_fWriteLock]
  cases hl : s.fWriteLock with
  | none => rfl
  | some j =>
    have hne : j ≠ i := fun e => h (by rw [hl, e])
    simp [hne]

theorem mutex_goto (h : ∀ j, (s.pc j).hasMutex = true ↔ s.fWriteLock = some j)
    (hq : q.hasMutex = (s.pc i).hasMutex) (j : ι) :
    ((s.goto i q).pc j).hasMutex = true ↔ (s.goto i q).fWriteLock = some j := by
  rw [goto_pc, goto_fWriteLock, ← h j]
  by_cases hj : j = i
  · subst hj; simp [hq]
  · simp [hj]

theorem ok_goto (h : ∀ j, (s.pc j).ok) (hq : q.ok) (j : ι) : ((s.goto i q).pc j).ok := by
  rw [goto_pc]
  by_cases hj : j = i
  · subst hj; simpa using hq
  · simpa [hj] using h j

variable [Fintype ι]

theorem waiting_goto (s : State ι) (i : ι) (q : Pc) :
    (s.goto i q).waiting = s.waiting - wWaiting (s.pc i) + wWaiting q := total_update _ _ _ _
theorem reading_goto (s : State ι) (i : ι) (q : Pc) :
    (s.goto i q).reading = s.reading - wReading (s.pc i) + wReading q := total_update _ _ _ _
theorem leaving_goto (s : State ι) (i : ι) (q : Pc) :
    (s.goto i q).leaving = s.leaving - wLeaving (s.pc i) + wLeaving q := total_update _ _ _ _

theorem inv_outside (hI : Inv s) (hp : (s.pc i).hasMutex = false) (hq : q.hasMutex = false) (hqo : q.ok)
    (c : Int) (r w : Nat)
    (hc : c - s.fCount = wWaiting q - wWaiting (s.pc i) + (wReading q - wReading (s.pc i)))
    (hf : s.owner.biased = false → (r : ℤ) - s.fReadSem = wWaiting q - wWaiting (s.pc i) ∧
      w = s.fWriteSem ∧ wLeaving q = wLeaving (s.pc i))
    (hb : s.owner.biased = true → (r : ℤ) + w - s.fReadSem - s.fWriteSem =
        wReading (s.pc i) - wReading q + (wLeaving (s.pc i) - wLeaving q) ∧
      (r : ℤ) - s.fReadSem ≤ wWaiting q - wWaiting (s.pc i)) :
    Inv ((⟨c, r, w, s.fWriteLock, s.pc⟩ : State ι).goto i q) := by
  have hno := not_owner hI hp
  have hown : ((⟨c, r, w, s.fWriteLock, s.pc⟩ : State ι).goto i q).owner = s.owner := owner_goto_other hno q
  have hW := waiting_goto ⟨c, r, w, s.fWriteLock, s.pc⟩ i q
  have hR := reading_goto ⟨c, r, w, s.fWriteLock, s.pc⟩ i q
  have hL := leaving_goto ⟨c, r, w, s.fWriteLock, s.pc⟩ i q
  change _ = s.waiting - _ + _ at hW
  change _ = s.reading - _ + _ at hR
  change _ = s.leaving - _ + _ at hL
  refine ⟨mutex_goto hI.mutex (by rw [hq]; exact hp.symm), ok_goto hI.ok hqo, ?_, ?_, ?_⟩
  · rw [hown, hW, hR, goto_fCount]
    have := hI.count
    simp only at hc ⊢
    omega
  · rw [hown, hW, hL, goto_fReadSem, goto_fWriteSem]
    intro hfree
    have h1 := hI.free hfree
    have h2 := hf hfree
    simp only
    omega
  · rw [hown, hW, hR, hL, goto_fReadSem, goto_fWriteSem]
    intro hbusy
    have h1 := hI.busy hbusy
    have h2 := hb hbusy
    simp only
    omega

theorem inv_inside (hI : Inv s) (hl : s.fWriteLock = some i) (hq : q.hasMutex = true) (hqo : q.ok)
    (c : Int) (r w : Nat)
    (hc : c = s.waiting + s.reading - (if q.biased then kMaxReaders else 0))
    (hf : q.biased = false → r + q.pending = s.waiting ∧ w = 0 ∧ s.leaving = 0)
    (hb : q.biased = true → q.awaits = s.reading + r + s.leaving + w ∧ (r : ℤ) ≤ s.waiting) :
    Inv ((⟨c, r, w, s.fWriteLock, s.pc⟩ : State ι).goto i q) := by
  have hp := (hI.mutex i).2 hl
  have hown : ((⟨c, r, w, s.fWriteLock, s.pc⟩ : State ι).goto i q).owner = q := owner_goto_self hl q
  have hW := waiting_goto ⟨c, r, w, s.fWriteLock, s.pc⟩ i q
  have hR := reading_goto ⟨c, r, w, s.fWriteLock, s.pc⟩ i q
  have hL := leaving_goto ⟨c, r, w, s.fWriteLock, s.pc⟩ i q
  simp only [(hasMutex_weights hp).1, (hasMutex_weights hq).1] at hW
  simp only [(hasMutex_weights hp).2.1, (hasMutex_weights hq).2.1] at hR
  simp only [(hasMutex_weights hp).2.2, (hasMutex_weights hq).2.2] at hL
  simp only [sub_zero, add_zero] at hW hR hL
  refine ⟨mutex_goto hI.mutex (hq.trans hp.symm), ok_goto hI.ok hqo, ?_, ?_, ?_⟩
  · rw [hown, hW, hR, goto_fCount]; exact hc
  · rw [hown, hW, hL]; exact hf
  · rw [hown, hW, hR, hL]; exact hb

theorem inv_passes (hI : Inv s) {lock : Option ι} (hqo : q.ok)
    (hp : wWaiting (s.pc i) = 0 ∧ wReading (s.pc i) = 0 ∧ wLeaving (s.pc i) = 0)
    (hq : wWaiting q = 0 ∧ wReading q = 0 ∧ wLeaving q = 0)
    (hmutex : ∀ j, (({ s with fWriteLock := lock }.goto i q).pc j).hasMutex = true ↔ lock = some j)
    (hbefore : s.owner.biased = false ∧ s.owner.pending = 0)
    (hafter : ({ s with fWriteLock := lock }.goto i q).owner.biased = false ∧
      ({ s with fWriteLock := lock }.goto i q).owner.pending = 0) :
    Inv ({ s with fWriteLock := lock }.goto i q) := by
  have hW := waiting_goto { s with fWriteLock := lock } i q
  have hR := reading_goto { s with fWriteLock := lock } i q
  have hL := leaving_goto { s with fWriteLock := lock } i q
  simp only [hp, hq, sub_zero, add_zero] at hW hR hL
  change _ = s.waiting at hW
  change _ = s.reading at hR
  change _ = s.leaving at hL
  have hc := hI.count
  have hf := hI.free hbefore.1
  simp only [hbefore, Bool.false_eq_true, if_false, sub_zero, add_zero] at hc hf
  refine ⟨hmutex, ok_goto hI.ok hqo, ?_, fun _ => ?_, fun hbusy => ?_⟩
  · rw [hafter.1, hW, hR]
    simpa using hc
  · rw [hafter.2, hW, hL]
    simpa using hf
  · rw [hafter.1] at hbusy
    cases hbusy

theorem inv_acquire (hI : Inv s) (hp : s.pc i = .writeLock) (hl : s.fWriteLock = none) :
    Inv ({ s with fWriteLock := some i }.goto i .writeCount) := by
  have hown : ({ s with fWriteLock := some i }.goto i .writeCount).owner = .writeCount :=
    owner_goto_self rfl _
  have hown0 : s.owner = .idle := by simp [State.owner, hl]
  refine inv_passes hI trivial (by rw [hp]; exact ⟨rfl, rfl, rfl⟩) ⟨rfl, rfl, rfl⟩ (fun j => ?_)
    (by rw [hown0]; exact ⟨rfl, rfl⟩) (by rw [hown]; exact ⟨rfl, rfl⟩)
  rw [goto_pc]
  by_cases hj : j = i
  · subst hj; simp [Pc.hasMutex]
  · have hm := hI.mutex j
    rw [hl] at hm
    simp [hj, hm, Ne.symm hj]

theorem inv_release (hI : Inv s) (hp : s.pc i = .writeUnlock) :
    Inv ({ s with fWriteLock := none }.goto i .idle) := by
  have hl : s.fWriteLock = some i := (hI.mutex i).1 (by simp [hp, Pc.hasMutex])
  have hown : ({ s with fWriteLock := none }.goto i .idle).owner = .idle := rfl
  have hown0 : s.owner = .writeUnlock := (owner_eq hl).trans hp
  refine inv_passes hI trivial (by rw [hp]; exact ⟨rfl, rfl, rfl⟩) ⟨rfl, rfl, rfl⟩ (fun j => ?_)
    (by rw [hown0]; exact ⟨rfl, rfl⟩) (by rw [hown]; exact ⟨rfl, rfl⟩)
  rw [goto_pc]
  by_cases hj : j = i
  · subst hj; simp [Pc.hasMutex]
  · have hm := hI.mutex j
    rw [hl] at hm
    have hne : some i ≠ some j := fun e => hj (Option.some.inj e).symm
    simpa [hj, hne] using hm

end

/-! ## Every step keeps the invariant -/

section
variable {ι : Type} [Fintype ι] {s : State ι}

/-- With fewer than `kMaxReaders` threads the counter shows its sign: it is negative exactly while a
writer has biased it, and no `AtomicAdd` overflows. -/
theorem count_sign (hI : Inv s) (hn : (Fintype.card ι : ℤ) < kMaxReaders) :
    (s.fCount < 0 ↔ s.owner.biased = true) ∧ -kMaxReaders ≤ s.fCount ∧ s.fCount < kMaxReaders := by
  have hc := hI.count
  have h1 := waiting_nonneg s
  have h2 := reading_nonneg s
  have h3 := readers_le_card s
  cases hb : s.owner.biased
  · simp only [hb, Bool.false_eq_true, if_false] at hc
    refine ⟨⟨fun h => by omega, fun h => by simp at h⟩, by unfold kMaxReaders at *; omega, by omega⟩
  · simp only [hb, if_true] at hc
    refine ⟨⟨fun _ => rfl, fun _ => by omega⟩, by omega, by unfold kMaxReaders at *; omega⟩

theorem not_biased (hI : Inv s) (hn : (Fintype.card ι : ℤ) < kMaxReaders) (h : ¬ s.fCount < 0) :
    s.owner.biased = false := by
  cases hb : s.owner.biased
  · rfl
  · exact absurd ((count_sign hI hn).1.2 hb) h

variable {i : ι}

/-- A writer inside has drained every reader and every token. -/
theorem drained (hI : Inv s) (hp : s.pc i = .writing) :
    s.owner = .writing ∧ s.reading = 0 ∧ s.fReadSem = 0 ∧ s.leaving = 0 ∧ s.fWriteSem = 0 := by
  have hl : s.fWriteLock = some i := (hI.mutex i).1 (by simp [hp, Pc.hasMutex])
  have ho : s.owner = .writing := (owner_eq hl).trans hp
  have hb := (hI.busy (by simp [ho, Pc.biased])).1
  have h1 := reading_nonneg s
  have h2 := leaving_nonneg s
  simp only [ho, Pc.awaits] at hb
  exact ⟨ho, by omega, by omega, by omega, by omega⟩

variable [DecidableEq ι]

section

variable (hI : Inv s) (hn : (Fintype.card ι : ℤ) < kMaxReaders)
include hI hn

theorem inv_lockRead (hp : s.pc i = .idle) :
    Inv (lockRead s i) := by
  obtain ⟨hsign, hlo, hhi⟩ := count_sign hI hn
  have hw : toInt32 (s.fCount + 1) = s.fCount + 1 :=
    toInt32_of_isInt32 ⟨by unfold kMaxReaders at *; omega, by unfold kMaxReaders at *; omega⟩
  unfold lockRead
  rw [hw]
  by_cases hneg : s.fCount < 0
  · rw [if_pos hneg]
    have hb := hsign.1 hneg
    apply inv_outside hI <;> simp [hp, hb, Pc.hasMutex, Pc.ok, wWaiting, wReading, wLeaving]
  · rw [if_neg hneg]
    have hb := not_biased hI hn hneg
    apply inv_outside hI <;> simp [hp, hb, Pc.hasMutex, Pc.ok, wWaiting, wReading, wLeaving]

theorem inv_unlockRead (hp : s.pc i = .reading) :
    Inv (unlockRead s i) := by
  obtain ⟨hsign, hlo, hhi⟩ := count_sign hI hn
  have hw : toInt32 (s.fCount - 1) = s.fCount - 1 :=
    toInt32_of_isInt32 ⟨by unfold kMaxReaders at *; omega, by unfold kMaxReaders at *; omega⟩
  unfold unlockRead
  rw [hw]
  by_cases hneg : s.fCount < 0
  · rw [if_pos hneg]
    have hb := hsign.1 hneg
    apply inv_outside hI <;> simp [hp, hb, Pc.hasMutex, Pc.ok, wWaiting, wReading, wLeaving]
  · rw [if_neg hneg]
    have hb := not_biased hI hn hneg
    apply inv_outside hI <;> simp [hp, hb, Pc.hasMutex, Pc.ok, wWaiting, wReading, wLeaving]

theorem inv_unlockWrite (hp : s.pc i = .writing) :
    Inv (unlockWrite s i) := by
  have hl : s.fWriteLock = some i := (hI.mutex i).1 (by simp [hp, Pc.hasMutex])
  obtain ⟨ho, hr, hrs, hlv, hws⟩ := drained hI hp
  have hc := hI.count
  have hwn := waiting_nonneg s
  simp only [ho, Pc.biased, if_true] at hc
  have hw : toInt32 (s.fCount + kMaxReaders) = s.waiting := by
    rw [toInt32_of_isInt32 ⟨by unfold kMaxReaders at *; omega, by
      have := readers_le_card s; unfold kMaxReaders at *; omega⟩]
    omega
  unfold unlockWrite
  rw [hw]
  apply inv_inside hI hl <;> simp [Pc.hasMutex, Pc.ok, Pc.biased, Pc.pending, hwn, hr, hrs, hlv, hws]

end

variable {s' : State ι}

theorem inv_resume (hI : Inv s) (hn : (Fintype.card ι : ℤ) < kMaxReaders)
    (h : resume s i = some s') : Inv s' := by
  have hmut := (hI.mutex i).1
  have hok := hI.ok i
  unfold resume at h
  cases hp : s.pc i with
  | idle | reading | writing => simp [hp] at h
  | readWait =>
    simp only [hp] at h
    obtain ⟨hpos, ⟨⟩⟩ := ite_none_right_eq_some.1 h
    apply inv_outside hI <;> simp [hp, Pc.hasMutex, Pc.ok, wWaiting, wReading, wLeaving] <;> omega
  | readRelease =>
    simp only [hp, Option.some.injEq] at h
    subst h
    have hle : 1 ≤ s.leaving := by
      have := le_total wLeaving_nonneg s.pc i
      rwa [hp] at this
    have hb : s.owner.biased = true := by
      cases hb : s.owner.biased
      · have := (hI.free hb).2.2; omega
      · rfl
    apply inv_outside hI <;> simp [hp, hb, Pc.hasMutex, Pc.ok, wWaiting, wReading, wLeaving]
  | writeLock =>
    simp only [hp] at h
    obtain ⟨hl, ⟨⟩⟩ := ite_none_right_eq_some.1 h
    exact inv_acquire hI hp hl
  | writeCount =>
    simp only [hp, Option.some.injEq] at h
    subst h
    have hl := hmut (by simp [hp, Pc.hasMutex])
    have ho : s.owner = .writeCount := (owner_eq hl).trans hp
    obtain ⟨hsign, hlo, hhi⟩ := count_sign hI hn
    have hf := hI.free (by simp [ho, Pc.biased])
    have hc := hI.count
    have h2 := reading_nonneg s
    simp only [ho, Pc.biased, Pc.pending, Bool.false_eq_true, if_false] at hf hc
    have hw : toInt32 (s.fCount - kMaxReaders) = s.fCount - kMaxReaders :=
      toInt32_of_isInt32 ⟨by unfold kMaxReaders at *; omega, by unfold kMaxReaders at *; omega⟩
    rw [hw]
    apply inv_inside hI hl <;> simp [Pc.hasMutex, Pc.ok, Pc.biased, Pc.awaits] <;> omega
  | writeLoop n =>
    simp only [hp, Option.some.injEq] at h
    subst h
    have hl := hmut (by simp [hp, Pc.hasMutex])
    have ho : s.owner = .writeLoop n := (owner_eq hl).trans hp
    have hb := hI.busy (by simp [ho, Pc.biased])
    have hc := hI.count
    rw [hp] at hok
    simp only [ho, Pc.biased, Pc.awaits, Pc.ok, if_true] at hb hc hok
    by_cases hpos : 0 < n
    · rw [if_pos hpos]
      apply inv_inside hI hl <;> simp [Pc.hasMutex, Pc.ok, Pc.biased, Pc.awaits] <;> omega
    · rw [if_neg hpos]
      apply inv_inside hI hl <;> simp [Pc.hasMutex, Pc.ok, Pc.biased, Pc.awaits] <;> omega
  | writeWait n =>
    simp only [hp] at h
    obtain ⟨hpos, ⟨⟩⟩ := ite_none_right_eq_some.1 h
    have hl := hmut (by simp [hp, Pc.hasMutex])
    have ho : s.owner = .writeWait n := (owner_eq hl).trans hp
    have hb := hI.busy (by simp [ho, Pc.biased])
    have hc := hI.count
    rw [hp] at hok
    simp only [ho, Pc.biased, Pc.awaits, Pc.ok, if_true] at hb hc hok
    apply inv_inside hI hl <;> simp [Pc.hasMutex, Pc.ok, Pc.biased, Pc.awaits] <;> omega
  | writeRelease n =>
    simp only [hp, Option.some.injEq] at h
    subst h
    have hl := hmut (by simp [hp, Pc.hasMutex])
    have ho : s.owner = .writeRelease n := (owner_eq hl).trans hp
    have hf := hI.free (by simp [ho, Pc.biased])
    have hc := hI.count
    rw [hp] at hok
    simp only [ho, Pc.biased, Pc.pending, Pc.ok, Bool.false_eq_true, if_false] at hf hc hok
    apply inv_inside hI hl <;> simp [Pc.hasMutex, Pc.ok, Pc.biased, Pc.pending] <;> omega
  | writeUnlock =>
    simp only [hp, Option.some.injEq] at h
    subst h
    exact inv_release hI hp

theorem inv_step (hn : (Fintype.card ι : ℤ) < kMaxReaders) (a : Label ι) (hI : Inv s)
    (h : step s a = some s') : Inv s' := by
  cases a with
  | lockRead i =>
    obtain ⟨hp, ⟨⟩⟩ := ite_none_right_eq_some.1 h
    exact inv_lockRead hI hn hp
  | unlockRead i =>
    obtain ⟨hp, ⟨⟩⟩ := ite_none_right_eq_some.1 h
    exact inv_unlockRead hI hn hp
  | lockWrite i =>
    obtain ⟨hp, ⟨⟩⟩ := ite_none_right_eq_some.1 h
    apply inv_outside hI <;> simp [hp, Pc.hasMutex, Pc.ok, wWaiting, wReading, wLeaving]
  | unlockWrite i =>
    obtain ⟨hp, ⟨⟩⟩ := ite_none_right_eq_some.1 h
    exact inv_unlockWrite hI hn hp
  | resume i => exact inv_resume hI hn h

theorem inv_reach (hn : (Fintype.card ι : ℤ) < kMaxReaders) (h : (system ι).Reach s) : Inv s :=
  StepSystem.Reach.invariant Inv (fun _ h0 => by cases h0; exact inv_initial)
    (fun _ a _ hI hs => inv_step hn a hI hs) h

/-- **Reader-writer lock safety.** With fewer than `kMaxReaders` threads and under every interleaving of
the atomic steps, a writer in its critical section is alone there; and when no thread holds or is
acquiring the lock, `fCount` and both semaphore counts are 0. -/
theorem rwLock_safe (ι : Type) [DecidableEq ι] [Fintype ι] (hn : (Fintype.card ι : ℤ) < kMaxReaders)
    (s : State ι) (h : (system ι).Reach s) :
    (∀ i j, s.pc i = .writing → i ≠ j → s.pc j ≠ .writing ∧ s.pc j ≠ .reading) ∧
    ((∀ i, (s.pc i).holdsOrAcquires = false) → s.fCount = 0 ∧ s.fReadSem = 0 ∧ s.fWriteSem = 0) := by
  have hI := inv_reach hn h
  refine ⟨fun i j hi hij => ⟨fun hj => ?_, fun hj => ?_⟩, fun hq => ?_⟩
  · have h1 := (hI.mutex i).1 (by simp [hi, Pc.hasMutex])
    have h2 := (hI.mutex j).1 (by simp [hj, Pc.hasMutex])
    exact hij (Option.some.inj (h1.symm.trans h2))
  · have h1 := (drained hI hi).2.1
    have h2 := one_le_reading hj
    omega
  · have hw : s.waiting = 0 := total_const_zero fun i => by
      have := hq i
      cases hp : s.pc i <;> simp_all [Pc.holdsOrAcquires, wWaiting]
    have hr : s.reading = 0 := total_const_zero fun i => by
      have := hq i
      cases hp : s.pc i <;> simp_all [Pc.holdsOrAcquires, wReading]
    have hb : s.owner.biased = false := by
      unfold State.owner
      cases s.fWriteLock with
      | none => rfl
      | some j =>
        have := hq j
        cases hp : s.pc j <;> simp_all [Pc.holdsOrAcquires, Pc.biased]
    have hc := hI.count
    have hf := hI.free hb
    have hpend : 0 ≤ s.owner.pending := by
      unfold State.owner
      cases s.fWriteLock with
      | none => exact le_refl 0
      | some j =>
        have := hI.ok j
        cases hp : s.pc j <;> simp_all [Pc.pending, Pc.ok]
    simp only [hb, Bool.false_eq_true, if_false] at hc
    omega

def readerThenWriter : List (Label (Fin 2)) :=
  [.lockRead 0, .lockWrite 1, .resume 1, .resume 1, .resume 1]

theorem rwLock_safe_two :
    ∃ s, (system (Fin 2)).exec initial readerThenWriter = some s ∧ s.pc 0 = .reading ∧ s.pc 1 = .writeWait 0 ∧
      ((∀ i j, s.pc i = .writing → i ≠ j → s.pc j ≠ .writing ∧ s.pc j ≠ .reading) ∧
        ((∀ i, (s.pc i).holdsOrAcquires = false) → s.fCount = 0 ∧ s.fReadSem = 0 ∧ s.fWriteSem = 0)) :=
  ⟨_, rfl, rfl, rfl, rwLock_safe (Fin 2) (by decide) _
    (StepSystem.reach_exec readerThenWriter (.init rfl) rfl)⟩

end

/-! ## The lock drains -/

/-- How many atomic actions a thread among `n` has ahead of it, at most, until it is out of its call and of the lock. -/
def Pc.left (n : ℤ) : Pc → ℤ
  | .idle => 0
  | .readRelease | .writeUnlock => 1
  | .reading | .writeRelease _ => 2
  | .readWait | .writing => 3
  | .writeLoop k => 2 * k.toNat + 4
  | .writeWait k => 2 * k.toNat + 5
  | .writeCount => 2 * n.toNat + 5
  | .writeLock => 2 * n.toNat + 6

def Label.starts {ι : Type} : Label ι → Bool
  | .lockRead _ | .lockWrite _ => true
  | .unlockRead _ | .unlockWrite _ | .resume _ => false

section
variable {ι : Type} [Fintype ι] {s s' : State ι} {i : ι}

theorem left_nonneg (n : ℤ) (q : Pc) : 0 ≤ q.left n := by cases q <;> simp [Pc.left] <;> omega

def State.left (s : State ι) : ℤ := total (Pc.left (Fintype.card ι)) s.pc

variable [DecidableEq ι]

theorem goto_left {q : Pc} (h : q.left (Fintype.card ι) < (s.pc i).left (Fintype.card ι))
    (c : Int) (r w : Nat) (l : Option ι) : ((⟨c, r, w, l, s.pc⟩ : State ι).goto i q).left < s.left := by
  unfold State.left
  rw [goto_pc, total_update]
  dsimp only
  omega

/-- Without new calls, each step leaves less to do. -/
theorem left_step (hI : Inv s) {l : Label ι}
    (hl : l.starts = false) (h : step s l = some s') : s'.left < s.left := by
  cases l with
  | lockRead i => cases hl
  | lockWrite i => cases hl
  | unlockRead i =>
    obtain ⟨hp, ⟨⟩⟩ := Option.ite_none_right_eq_some.1 h
    exact goto_left (by rw [hp]; split <;> simp [Pc.left]) _ _ _ _
  | unlockWrite i =>
    obtain ⟨hp, ⟨⟩⟩ := Option.ite_none_right_eq_some.1 h
    exact goto_left (by rw [hp]; simp [Pc.left]) _ _ _ _
  | resume i =>
    change resume s i = some s' at h
    have hok := hI.ok i
    unfold resume at h
    cases hp : s.pc i <;> simp only [hp, Option.ite_none_right_eq_some, Option.some.injEq, reduceCtorEq] at h
    case readRelease | writeRelease | writeUnlock =>
      subst h
      exact goto_left (by simp [hp, Pc.left]) _ _ _ _
    case readWait | writeLock | writeWait =>
      obtain ⟨-, rfl⟩ := h
      exact goto_left (by simp [hp, Pc.left]) _ _ _ _
    case writeCount =>
      subst h
      have howner : s.owner = .writeCount := (owner_eq ((hI.mutex i).1 (by simp [hp, Pc.hasMutex]))).trans hp
      have hc := hI.count
      have hcard := readers_le_card s
      simp only [howner, Pc.biased, Bool.false_eq_true, if_false] at hc
      exact goto_left (by simp only [hp, Pc.left]; omega) _ _ _ _
    case writeLoop k =>
      subst h
      rw [hp] at hok
      simp only [Pc.ok] at hok
      exact goto_left (by rw [hp]; split <;> simp only [Pc.left] <;> omega) _ _ _ _

/-- While a thread is in a call or in the lock, some thread can act. -/
theorem acts_of_busy (hI : Inv s) (hbusy : s.pc i ≠ .idle) :
    ∃ l : Label ι, l.starts = false ∧ (step s l).isSome := by
  by_contra hstuck
  push Not at hstuck
  have hresume (j : ι) : resume s j = none := by simpa [step] using hstuck (.resume j) rfl
  have hout (j : ι) : s.pc j ≠ .reading ∧ s.pc j ≠ .writing :=
    ⟨fun hp => hstuck (.unlockRead j) rfl (by simp [step, hp]),
      fun hp => hstuck (.unlockWrite j) rfl (by simp [step, hp])⟩
  have hreading : s.reading = 0 := total_const_zero fun j => by
    have := (hout j).1
    cases hp : s.pc j <;> simp_all [wReading]
  have hleaving : s.leaving = 0 := total_const_zero fun j => by
    have := hresume j
    cases hp : s.pc j <;> simp_all [wLeaving, resume]
  -- a waiting reader finds no token, so there is none to be had
  have hwait (j : ι) (hp : s.pc j = .readWait) : s.fReadSem = 0 := by
    have := hresume j
    simp only [resume, hp] at this
    by_contra hpos
    simp [Nat.pos_of_ne_zero hpos] at this
  have hpos (hw : 0 < s.waiting) : s.fReadSem = 0 := by
    by_contra hne
    exact absurd (total_const_zero fun j => by cases hp : s.pc j <;> simp_all [wWaiting]) hw.ne'
  cases hlock : s.fWriteLock with
  | none =>
    have howner : s.owner = .idle := by simp [State.owner, hlock]
    have hfree := (hI.free (by simp [howner, Pc.biased])).1
    simp only [howner, Pc.pending] at hfree
    have hi := hresume i
    have hm := hI.mutex i
    cases hp : s.pc i with
    | readWait =>
      have h0 := hwait i hp
      have hle := le_total wWaiting_nonneg s.pc i
      rw [hp] at hle
      change 1 ≤ s.waiting at hle
      omega
    | _ => simp_all [resume, Pc.hasMutex]
  | some j =>
    have howner := owner_eq hlock
    have hj := hresume j
    have hm := (hI.mutex j).2 hlock
    have hok := hI.ok j
    cases hp : s.pc j with
    | writeWait k =>
      obtain ⟨hawaits, hle⟩ := hI.busy (by simp [howner, hp, Pc.biased])
      rw [howner, hp] at hawaits
      rw [hp] at hok
      simp only [resume, hp] at hj
      have hsem : s.fWriteSem = 0 := by
        by_contra hne
        simp [Nat.pos_of_ne_zero hne] at hj
      simp only [Pc.awaits, Pc.ok] at hawaits hok
      have := hpos (by omega)
      omega
    | _ => simp_all [resume, Pc.hasMutex]

/-- **The lock drains.** Without new calls of `LockRead` and `LockWrite`, a run from any reachable state ends, and
it ends only when every thread is out. -/
theorem runs_drain (hn : (Fintype.card ι : ℤ) < kMaxReaders) (h : (system ι).Reach s) (labels : List (Label ι))
    (hl : ∀ l ∈ labels, l.starts = false) (hs : (system ι).exec s labels = some s') :
    labels.length ≤ s.left ∧ ((∀ l : Label ι, l.starts = false → step s' l = none) → ∀ i, s'.pc i = .idle) := by
  induction labels generalizing s with
  | nil =>
    cases hs
    refine ⟨total_nonneg (left_nonneg _) _, fun hend i => ?_⟩
    by_contra hbusy
    obtain ⟨l, hl, hsome⟩ := acts_of_busy (inv_reach hn h) hbusy
    simp [hend l hl] at hsome
  | cons l labels ih =>
    rw [StepSystem.exec_cons] at hs
    obtain ⟨s₁, hstep, hs⟩ := Option.bind_eq_some_iff.1 hs
    have hlt := left_step (inv_reach hn h) (hl l (by simp)) hstep
    obtain ⟨hlen, hend⟩ := ih (.step h trivial hstep) (fun l' hl' => hl l' (by simp [hl'])) hs
    refine ⟨?_, hend⟩
    rw [List.length_cons]
    push_cast
    omega

theorem runs_drain_two : ∃ s s', (system (Fin 2)).exec initial readerThenWriter = some s ∧
    (system (Fin 2)).exec s [.unlockRead 0, .resume 0, .resume 1, .resume 1] = some s' ∧ s'.pc 1 = .writing ∧
      4 ≤ s.left ∧ ((∀ l : Label (Fin 2), l.starts = false → step s' l = none) → ∀ i, s'.pc i = .idle) :=
  ⟨_, _, rfl, rfl, rfl, runs_drain (by decide) (StepSystem.reach_exec readerThenWriter (.init rfl) rfl)
    [.unlockRead 0, .resume 0, .resume 1, .resume 1] (by decide) rfl⟩

end

end RWLock
