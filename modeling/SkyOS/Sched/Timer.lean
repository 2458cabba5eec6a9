import Mathlib.Algebra.GroupWithZero.Nat
import Mathlib.Data.List.Sort
import Mathlib.Data.Int.Order.Basic
import Mathlib.Logic.Function.Basic

/-!
# The timer queue (`Timer.cpp`)

One hardware timer serves many `Timer`s: those that are pending wait in `fTimerQueue`, sorted by `fWhen`, and the
hardware is programmed for the head. `Enqueue` special-cases the empty queue and a new head and searches backwards
otherwise; on a sorted queue all three are the ordered insertion (`enqueue_eq`).

| here | there |
| --- | --- |
| `Int64` | `bigtime_t`, whose sums and differences wrap around |
| `SystemTime` | a reading of the clock, which is not negative |
| `hardware` | the last `SetHardwareTimer`: the relative time, and the reading it was computed from |
| `fired` | the calls of `HandleTimeout` so far |
| `rounds` | how often the loop of `HardwareTimerInterrupt` runs at most |

`HandleTimeout` is overridden by each kind of timer: a handler is given by what it does to its own timer and by the
status it returns. The `Reschedule` after the interrupt (:140) calls `CancelTimeout` and `SetTimeout` of the scheduler's
own timer.
-/

namespace TimerQueue

open List
open Function (update update_of_ne)

/-! ## The source -/

inductive TimerMode where
  | kPeriodicTimer
  | kOneShotTimer
deriving DecidableEq

inductive InterruptStatus where
  | kUnhandledInterrupt
  | kHandledInterrupt
  | kReschedule
deriving DecidableEq

structure Timer where
  fWhen : Int64
  fMode : TimerMode
  fPending : Bool
  fInterval : Int64

abbrev SystemTime := { t : Int64 // 0 ≤ t }

structure Timers (T : Type) where
  timer : T → Timer
  queue : List T
  hardware : Option (Int64 × SystemTime)
  fired : List T

variable {T : Type}

/-- The search of `Enqueue` (:153), on the reversed queue: behind the first timer that is due before the new one. If
there is none, the timer is not enqueued. -/
def addAfterLast (fWhen : T → Int64) (newTimer : T) : List T → List T
  | [] => []
  | timer :: before =>
    if fWhen timer < fWhen newTimer then newTimer :: timer :: before
    else timer :: addAfterLast fWhen newTimer before

/-- `Enqueue` (:145). -/
def enqueue (fWhen : T → Int64) (newTimer : T) : List T → List T
  | [] => [newTimer]
  | head :: queue =>
    if fWhen newTimer ≤ fWhen head then newTimer :: head :: queue
    else (addAfterLast fWhen newTimer (head :: queue).reverse).reverse

/-- The time at which a timer is due that `SetTimeout` is called on. -/
def deadline (now : SystemTime) (time : Int64) : TimerMode → Int64
  | .kPeriodicTimer => now.1 + time
  | .kOneShotTimer => time

/-- The fields that `SetTimeout` sets (:46); `none` is its panic. -/
def Timer.arm (timer : Timer) (now : SystemTime) (time : Int64) (mode : TimerMode) : Option Timer :=
  if timer.fPending then none
  else
    match mode with
    | .kPeriodicTimer =>
      if time ≤ 0 then none
      else some { fWhen := deadline now time mode, fMode := mode, fPending := true, fInterval := time }
    | .kOneShotTimer => some { timer with fWhen := deadline now time mode, fMode := mode, fPending := true }

section

variable [DecidableEq T]

namespace Timers

/-- `ReprogramHardwareTimer` (:163). -/
def reprogramHardwareTimer (s : Timers T) (now : SystemTime) : Timers T :=
  match s.queue with
  | [] => s
  | head :: _ => { s with hardware := some ((s.timer head).fWhen - now.1, now) }

/-- `timer` has new fields and is put in the queue. -/
def put (s : Timers T) (t : T) (timer : Timer) (queue : List T) : Timers T :=
  { s with
    timer := Function.update s.timer t timer
    queue := enqueue (fun u => (Function.update s.timer t timer u).fWhen) t queue }

/-- `SetTimeout` (:40); the clock is read for a periodic deadline and to program the hardware. -/
def setTimeout (s : Timers T) (t : T) (now later : SystemTime) (time : Int64) (mode : TimerMode) :
    Option (Timers T) :=
  ((s.timer t).arm now time mode).map fun timer =>
    let s' := s.put t timer s.queue
    if s'.queue.head? = s.queue.head? then s' else s'.reprogramHardwareTimer later

/-- `CancelTimeout` (:69). -/
def cancelTimeout (s : Timers T) (t : T) (later : SystemTime) : Timers T × Bool :=
  let timer := s.timer t
  let s' :=
    { s with
      timer := Function.update s.timer t { timer with fPending := false }
      queue := if timer.fPending then s.queue.erase t else s.queue }
  (if s.queue.head? = some t then s'.reprogramHardwareTimer later else s', timer.fPending)

end Timers

/-- What a handler does to its own timer. -/
inductive Own where
  | leave
  | cancelTimeout (later : SystemTime)
  | setTimeout (now later : SystemTime) (time : Int64) (mode : TimerMode)

structure Handler where
  own : Own
  status : InterruptStatus

def Own.run (s : Timers T) (t : T) : Own → Option (Timers T)
  | .leave => some s
  | .cancelTimeout later => some (s.cancelTimeout t later).1
  | .setTimeout now later time mode => s.setTimeout t now later time mode

namespace Timers

/-- The expired timer goes back to the queue or is done (:110). -/
def dequeue (s : Timers T) (t : T) (queue : List T) : Timers T :=
  match (s.timer t).fMode with
  | .kPeriodicTimer =>
    s.put t { s.timer t with fWhen := (s.timer t).fWhen + (s.timer t).fInterval } queue
  | .kOneShotTimer =>
    { s with timer := Function.update s.timer t { s.timer t with fPending := false }, queue := queue }

/-- The expired timer leaves the head of the queue, and `HandleTimeout` is called. -/
def fire (s : Timers T) (t : T) (queue : List T) : Timers T :=
  { s.dequeue t queue with fired := s.fired ++ [t] }

/-- The loop of `HardwareTimerInterrupt` (:106); `none` when it is not done after `rounds` rounds or a handler
panics. -/
def expire (now : SystemTime) (handleTimeout : Nat → T → Handler) :
    Nat → Nat → Timers T → Bool → Option (Timers T × Bool)
  | 0, _, _, _ => none
  | rounds + 1, i, s, reschedule =>
    match s.queue with
    | [] => some (s, reschedule)
    | t :: queue =>
      if (s.timer t).fWhen ≤ now.1 then
        ((handleTimeout i t).own.run (s.fire t queue) t).bind fun s' =>
          expire now handleTimeout rounds (i + 1) s'
            (reschedule || (handleTimeout i t).status = InterruptStatus.kReschedule)
      else some (s, reschedule)

/-- `HardwareTimerInterrupt` (:101). -/
def hardwareTimerInterrupt (s : Timers T) (now later : SystemTime) (rounds : Nat)
    (handleTimeout : Nat → T → Handler) : Option (Timers T × InterruptStatus) :=
  (expire now handleTimeout rounds 0 s false).map fun (s', reschedule) =>
    (s'.reprogramHardwareTimer later, if reschedule then .kReschedule else .kHandledInterrupt)

end Timers

end

/-! ## `Enqueue` inserts in order -/

def Before (fWhen : T → Int64) (a b : T) : Prop := (fWhen a).toInt ≤ (fWhen b).toInt

instance (fWhen : T → Int64) : DecidableRel (Before fWhen) := fun a b =>
  inferInstanceAs (Decidable ((fWhen a).toInt ≤ (fWhen b).toInt))

instance (fWhen : T → Int64) : IsTrans T (Before fWhen) := ⟨fun _ _ _ => Int.le_trans⟩

instance (fWhen : T → Int64) : Std.Total (Before fWhen) := ⟨fun a b => Int.le_total (fWhen a).toInt (fWhen b).toInt⟩

variable {fWhen : T → Int64}

variable {t : T} {queue : List T} {timer : Timer} {s' : Timers T} {now later : SystemTime} {time : Int64}
    {mode : TimerMode}

theorem orderedInsert_concat_le {n : T} (h : Before fWhen n t) (queue : List T) :
    (queue ++ [t]).orderedInsert (Before fWhen) n = queue.orderedInsert (Before fWhen) n ++ [t] := by
  induction queue with
  | nil => simp [h]
  | cons a queue ih =>
    by_cases ha : Before fWhen n a
    · simp [ha]
    · simp [ha, ih]

theorem orderedInsert_all_lt {n : T} (h : ∀ t ∈ queue, ¬ Before fWhen n t) :
    queue.orderedInsert (Before fWhen) n = queue ++ [n] := by
  induction queue with
  | nil => rfl
  | cons a queue ih =>
    have ha := h a (.head _)
    have hrest := ih fun t ht => h t (.tail _ ht)
    simp [ha, hrest]

/-- The backwards search over a sorted queue in which some timer is due before the new one. -/
theorem addAfterLast_reverse (n : T) (queue : List T) (hsorted : queue.reverse.Pairwise (Before fWhen))
    (h : ∃ t ∈ queue, ¬ Before fWhen n t) :
    (addAfterLast fWhen n queue).reverse = queue.reverse.orderedInsert (Before fWhen) n := by
  induction queue with
  | nil =>
    obtain ⟨t, ht, _⟩ := h
    cases ht
  | cons a queue ih =>
    have hlt : fWhen a < fWhen n ↔ ¬ Before fWhen n a := by
      rw [Int64.lt_iff_toInt_lt]
      exact Int.not_le.symm
    rw [reverse_cons, pairwise_append] at hsorted
    obtain ⟨hqueue, _, hlast⟩ := hsorted
    simp only [addAfterLast, reverse_cons]
    by_cases ha : Before fWhen n a
    · rw [if_neg (fun hlt' => hlt.1 hlt' ha), reverse_cons, orderedInsert_concat_le ha, ih hqueue]
      obtain ⟨t, ht, hnt⟩ := h
      rcases mem_cons.1 ht with rfl | ht
      · exact absurd ha hnt
      · exact ⟨t, ht, hnt⟩
    · rw [if_pos (hlt.2 ha)]
      have hall : ∀ t ∈ queue.reverse ++ [a], ¬ Before fWhen n t := by
        intro t ht hnt
        rcases mem_append.1 ht with ht | ht
        · exact ha (Int.le_trans hnt (hlast t ht a (mem_singleton.2 rfl)))
        · rw [mem_singleton.1 ht] at hnt
          exact ha hnt
      rw [orderedInsert_all_lt hall]
      simp

theorem enqueue_eq (n : T) (hsorted : queue.Pairwise (Before fWhen)) :
    enqueue fWhen n queue = queue.orderedInsert (Before fWhen) n := by
  cases queue with
  | nil => rfl
  | cons head queue =>
    have hle : fWhen n ≤ fWhen head ↔ Before fWhen n head := Int64.le_iff_toInt_le
    by_cases h : Before fWhen n head
    · simp [enqueue, hle, h]
    · rw [enqueue, if_neg (fun h' => h (hle.1 h')), addAfterLast_reverse n, reverse_reverse]
      · rwa [reverse_reverse]
      · exact ⟨head, by simp, h⟩

/-! ## The queue holds what is pending, in order -/

/-- `HandleTimeout` is called in the order of `fWhen`, and `fPending` says who waits. -/
structure Good [DecidableEq T] (s : Timers T) : Prop where
  sorted : s.queue.Pairwise (Before fun t => (s.timer t).fWhen)
  count : ∀ t, s.queue.count t = if (s.timer t).fPending then 1 else 0
  interval : ∀ t, (s.timer t).fPending = true → (s.timer t).fMode = .kPeriodicTimer → 0 < (s.timer t).fInterval.toInt

variable [DecidableEq T] {s : Timers T}

namespace Good

theorem mem_iff (h : Good s) (t : T) : t ∈ s.queue ↔ (s.timer t).fPending = true := by
  rw [← count_pos_iff, h.count]
  split <;> simp [*]

theorem nodup (h : Good s) : s.queue.Nodup := by
  rw [nodup_iff_count_le_one]
  intro t
  rw [h.count]
  split <;> omega

theorem head_le (h : Good s) {head : T} (hq : s.queue = head :: queue) (ht : t ∈ s.queue) :
    (s.timer head).fWhen.toInt ≤ (s.timer t).fWhen.toInt := by
  have hsorted := h.sorted
  rw [hq] at ht hsorted
  rcases mem_cons.1 ht with rfl | ht
  · exact Int.le_refl _
  · exact (pairwise_cons.1 hsorted).1 t ht

end Good

theorem pairwise_update (ht : t ∉ queue)
    (h : queue.Pairwise (Before fun u => (s.timer u).fWhen)) :
    queue.Pairwise (Before fun u => (update s.timer t timer u).fWhen) := by
  refine h.imp_of_mem ?_
  intro a b ha hb hab
  have hat : a ≠ t := fun h => ht (h ▸ ha)
  have hbt : b ≠ t := fun h => ht (h ▸ hb)
  unfold Before at hab ⊢
  dsimp only
  rwa [update_of_ne hat, update_of_ne hbt]

theorem good_put
    (hsorted : queue.Pairwise (Before fun u => (s.timer u).fWhen))
    (hcount : ∀ u, u ≠ t → queue.count u = if (s.timer u).fPending then 1 else 0) (ht : t ∉ queue)
    (hothers : ∀ u, u ≠ t → (s.timer u).fPending = true → (s.timer u).fMode = .kPeriodicTimer →
      0 < (s.timer u).fInterval.toInt)
    (hpending : timer.fPending = true) (hinterval : timer.fMode = .kPeriodicTimer → 0 < timer.fInterval.toInt) :
    Good (s.put t timer queue) := by
  have hupdate : queue.Pairwise (Before fun u => (update s.timer t timer u).fWhen) :=
    pairwise_update ht hsorted
  refine ⟨?_, ?_, ?_⟩
  · show (enqueue (fun u => (update s.timer t timer u).fWhen) t queue).Pairwise _
    rw [enqueue_eq t hupdate]
    exact hupdate.orderedInsert t _
  · intro u
    show (enqueue (fun u => (update s.timer t timer u).fWhen) t queue).count u = _
    rw [enqueue_eq t hupdate, (perm_orderedInsert _ t queue).count_eq, count_cons]
    by_cases hu : u = t
    · subst hu
      simp [Timers.put, hpending, count_eq_zero_of_not_mem ht]
    · simp [Timers.put, update_of_ne hu, hcount u hu, Ne.symm hu]
  · intro u
    show (update s.timer t timer u).fPending = true → (update s.timer t timer u).fMode = _ →
      0 < (update s.timer t timer u).fInterval.toInt
    by_cases hu : u = t
    · subst hu
      rw [Function.update_self]
      exact fun _ => hinterval
    · rw [update_of_ne hu]
      exact hothers u hu

/-! ## The operations -/

theorem Good.congr (h : Good s) (htimer : s'.timer = s.timer) (hqueue : s'.queue = s.queue) :
    Good s' := by
  obtain ⟨hsorted, hcount, hinterval⟩ := h
  refine ⟨?_, ?_, ?_⟩
  · rwa [htimer, hqueue]
  · rwa [htimer, hqueue]
  · rwa [htimer]

omit [DecidableEq T] in
theorem reprogramHardwareTimer_cases (s : Timers T) (now : SystemTime) :
    (s.reprogramHardwareTimer now).timer = s.timer ∧ (s.reprogramHardwareTimer now).queue = s.queue ∧
      (s.reprogramHardwareTimer now).fired = s.fired := by
  unfold Timers.reprogramHardwareTimer
  split <;> exact ⟨rfl, rfl, rfl⟩

theorem arm_cases {timer' : Timer}
    (h : timer.arm now time mode = some timer') :
    timer.fPending = false ∧ timer'.fPending = true ∧ timer'.fMode = mode ∧ timer'.fWhen = deadline now time mode ∧
      (timer'.fMode = .kPeriodicTimer → 0 < timer'.fInterval.toInt) := by
  unfold Timer.arm at h
  split at h
  · cases h
  · rename_i hpending
    cases mode with
    | kPeriodicTimer =>
      dsimp only at h
      split at h
      · cases h
      · rename_i htime
        cases h
        rw [Int64.le_iff_toInt_le] at htime
        exact ⟨by simpa using hpending, rfl, rfl, rfl, fun _ => Int.not_le.1 htime⟩
    | kOneShotTimer =>
      cases h
      exact ⟨by simpa using hpending, rfl, rfl, rfl, fun hmode => by cases hmode⟩

theorem setTimeout_cases
    (h : s.setTimeout t now later time mode = some s') :
    ∃ timer, (s.timer t).arm now time mode = some timer ∧
      s' = if (s.put t timer s.queue).queue.head? = s.queue.head? then s.put t timer s.queue
        else (s.put t timer s.queue).reprogramHardwareTimer later := by
  obtain ⟨timer, harm, rfl⟩ := Option.map_eq_some_iff.1 h
  exact ⟨timer, harm, rfl⟩

theorem setTimeout_spec
    (h : s.setTimeout t now later time mode = some s') :
    ∃ timer, (s.timer t).arm now time mode = some timer ∧ s'.timer = update s.timer t timer ∧
      s'.queue = (s.put t timer s.queue).queue ∧ s'.fired = s.fired := by
  obtain ⟨timer, harm, rfl⟩ := setTimeout_cases h
  refine ⟨timer, harm, ?_⟩
  split
  · exact ⟨rfl, rfl, rfl⟩
  · exact reprogramHardwareTimer_cases _ _

theorem Good.setTimeout (hs : Good s) (h : s.setTimeout t now later time mode = some s') : Good s' := by
  obtain ⟨timer, harm, htimer, hqueue, _⟩ := setTimeout_spec h
  obtain ⟨hidle, hpending, _, _, hinterval⟩ := arm_cases harm
  have ht : t ∉ s.queue := by
    rw [hs.mem_iff, hidle]
    exact Bool.false_ne_true
  refine (good_put hs.sorted (fun u _ => hs.count u) ht (fun u _ => hs.interval u) hpending hinterval).congr
    htimer hqueue

theorem cancelTimeout_spec (s : Timers T) (t : T) (later : SystemTime) :
    (s.cancelTimeout t later).1.timer = update s.timer t { s.timer t with fPending := false } ∧
      (s.cancelTimeout t later).1.queue = (if (s.timer t).fPending then s.queue.erase t else s.queue) ∧
      (s.cancelTimeout t later).1.fired = s.fired := by
  unfold Timers.cancelTimeout
  split
  · exact reprogramHardwareTimer_cases _ _
  · exact ⟨rfl, rfl, rfl⟩

theorem good_remove (hs : Good s) (hqueue : queue.Sublist s.queue)
    (hcount : ∀ u, queue.count u = if u = t then 0 else s.queue.count u)
    (htimer : s'.timer = update s.timer t { s.timer t with fPending := false }) (hs' : s'.queue = queue) :
    Good s' := by
  have ht : t ∉ queue := by
    rw [← count_eq_zero, hcount, if_pos rfl]
  refine ⟨?_, ?_, ?_⟩
  · rw [htimer, hs']
    exact pairwise_update ht (hs.sorted.sublist hqueue)
  · intro u
    rw [htimer, hs', hcount]
    by_cases hu : u = t
    · subst hu
      simp
    · rw [if_neg hu, update_of_ne hu]
      exact hs.count u
  · intro u
    rw [htimer]
    by_cases hu : u = t
    · subst hu
      simp
    · rw [update_of_ne hu]
      exact hs.interval u

theorem Good.cancelTimeout (hs : Good s) (t : T) (later : SystemTime) : Good (s.cancelTimeout t later).1 := by
  obtain ⟨htimer, hqueue, _⟩ := cancelTimeout_spec s t later
  have herase : (if (s.timer t).fPending then s.queue.erase t else s.queue) = s.queue.erase t := by
    split
    · rfl
    · rename_i hidle
      rw [erase_of_not_mem fun ht => hidle ((hs.mem_iff t).1 ht)]
  rw [herase] at hqueue
  refine good_remove hs erase_sublist ?_ htimer hqueue
  intro u
  split
  · subst u
    exact count_eq_zero_of_not_mem hs.nodup.not_mem_erase
  · rename_i hu
    exact count_erase_of_ne hu

theorem Good.dequeue (hs : Good s) (hq : s.queue = t :: queue) : Good (s.dequeue t queue) := by
  have hsorted := hs.sorted
  have hnodup := hs.nodup
  rw [hq] at hsorted hnodup
  have ht : t ∉ queue := (nodup_cons.1 hnodup).1
  have hcount : ∀ u, u ≠ t → queue.count u = s.queue.count u := by
    intro u hu
    rw [hq, count_cons_of_ne (Ne.symm hu)]
  have hpending : (s.timer t).fPending = true := (hs.mem_iff t).1 (hq ▸ (.head _))
  unfold Timers.dequeue
  cases hmode : (s.timer t).fMode with
  | kPeriodicTimer =>
    refine good_put hsorted.of_cons (fun u hu => ?_) ht (fun u _ => hs.interval u) hpending
      (fun _ => hs.interval t hpending hmode)
    rw [hcount u hu, hs.count]
  | kOneShotTimer =>
    dsimp only
    refine good_remove hs (hq ▸ sublist_cons_self t queue) (fun u => ?_) rfl rfl
    split
    · subst u
      exact count_eq_zero_of_not_mem ht
    · rename_i hu
      exact hcount u hu

theorem Good.own (hs : Good s) {own : Own} (h : own.run s t = some s') : Good s' := by
  cases own with
  | leave => exact (Option.some.inj h) ▸ hs
  | cancelTimeout later => exact (Option.some.inj h) ▸ hs.cancelTimeout t later
  | setTimeout now later time mode => exact hs.setTimeout h

end TimerQueue
