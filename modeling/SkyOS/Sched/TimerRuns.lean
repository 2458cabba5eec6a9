import SkyOS.Sched.Timer
import SkyOS.Lib.StepSystem
import Mathlib.Algebra.Order.BigOperators.Group.List

/-!
# Runs of the timer queue

The hardware is programmed with the difference of the head's deadline and the clock, a 64-bit number. For a deadline
more than `2^63` before the clock it wraps around and the hardware waits, where a difference that is not positive would
make it interrupt at once. In runs without such a deadline the queue does what it is for (`timers_run`); `InTime` says
when the difference is right.
-/

namespace TimerQueue

open Function (update_of_ne update_self)
open List Int

variable {T : Type} [DecidableEq T] {s : Timers T}

/-! ## One round of the loop -/

variable {now later : SystemTime} {handleTimeout : Nat → T → Handler} {s' : Timers T} {t : T} {queue : List T}
    {own : Own} {timer : Timer}

theorem expire_cases {rounds i : Nat}
    {r r' : Bool} (h : Timers.expire now handleTimeout (rounds + 1) i s r = some (s', r')) :
    (s' = s ∧ ∀ head, s.queue.head? = some head → now.1.toInt < (s.timer head).fWhen.toInt) ∨
    ∃ t queue s1 r1, s.queue = t :: queue ∧ (s.timer t).fWhen.toInt ≤ now.1.toInt ∧
      (handleTimeout i t).own.run (s.fire t queue) t = some s1 ∧
      Timers.expire now handleTimeout rounds (i + 1) s1 r1 = some (s', r') := by
  rw [Timers.expire] at h
  split at h
  · rename_i hq
    cases h
    refine .inl ⟨rfl, ?_⟩
    rw [hq]
    intro head hhead
    cases hhead
  · rename_i t queue hq
    split at h
    · rename_i hwhen
      obtain ⟨s1, hown, hrest⟩ := Option.bind_eq_some_iff.1 h
      exact .inr ⟨t, queue, s1, _, hq, Int64.le_iff_toInt_le.1 hwhen, hown, hrest⟩
    · rename_i hwhen
      cases h
      refine .inl ⟨rfl, ?_⟩
      rw [hq]
      intro head hhead
      cases hhead
      rw [Int64.le_iff_toInt_le] at hwhen
      exact Int.not_le.1 hwhen

theorem Good.fire (hs : Good s) (hq : s.queue = t :: queue) : Good (s.fire t queue) :=
  (hs.dequeue hq).congr rfl rfl

theorem fire_other {u : T} (hu : u ≠ t) : (s.fire t queue).timer u = s.timer u := by
  unfold Timers.fire Timers.dequeue
  split
  · exact update_of_ne hu _ _
  · exact update_of_ne hu _ _

theorem fire_oneShot (h : (s.timer t).fMode = .kOneShotTimer) :
    ((s.fire t queue).timer t).fPending = false := by
  unfold Timers.fire Timers.dequeue
  rw [h]
  simp

theorem own_other (h : own.run s t = some s') :
    s'.fired = s.fired ∧ ∀ u, u ≠ t → s'.timer u = s.timer u := by
  cases own with
  | leave =>
    cases h
    exact ⟨rfl, fun _ _ => rfl⟩
  | cancelTimeout later =>
    cases h
    obtain ⟨htimer, _, hfired⟩ := cancelTimeout_spec s t later
    refine ⟨hfired, fun u hu => ?_⟩
    rw [htimer, update_of_ne hu]
  | setTimeout now later time mode =>
    obtain ⟨timer, _, htimer, _, hfired⟩ := setTimeout_spec h
    refine ⟨hfired, fun u hu => ?_⟩
    rw [htimer, update_of_ne hu]

def Own.NotOver (now : SystemTime) (own : Own) : Prop :=
  ∀ now' later time mode, own = .setTimeout now' later time mode → now.1.toInt < (deadline now' time mode).toInt

/-- After its handler a timer that was not pending waits for a time to come, or not at all. -/
theorem own_self (hown : own.NotOver now)
    (hidle : (s.timer t).fPending = false) (h : own.run s t = some s') :
    (s'.timer t).fPending = true → now.1.toInt < (s'.timer t).fWhen.toInt := by
  cases own with
  | leave =>
    cases h
    rw [hidle]
    exact fun h => by cases h
  | cancelTimeout later =>
    cases h
    rw [(cancelTimeout_spec s t later).1, update_self]
    exact fun h => by cases h
  | setTimeout now' later time mode =>
    obtain ⟨timer, harm, htimer, _, _⟩ := setTimeout_spec h
    obtain ⟨_, _, _, hwhen, _⟩ := arm_cases harm
    rw [htimer, update_self, hwhen]
    exact fun _ => hown now' later time mode rfl

/-! ## The loop -/

theorem expire_good :
    ∀ (rounds i : Nat) (s s' : Timers T) (r r' : Bool), Good s →
      Timers.expire now handleTimeout rounds i s r = some (s', r') →
      Good s' ∧ ∀ t ∈ s'.queue, now.1.toInt < (s'.timer t).fWhen.toInt := by
  intro rounds
  induction rounds with
  | zero =>
    intro i s s' r r' _ h
    cases h
  | succ rounds ih =>
    intro i s s' r r' hs h
    rcases expire_cases h with ⟨rfl, hhead⟩ | ⟨t, queue, s1, r1, hq, _, hown, hrest⟩
    · refine ⟨hs, fun t ht => ?_⟩
      cases hq : s'.queue with
      | nil =>
        rw [hq] at ht
        cases ht
      | cons head queue =>
        have hfirst := hhead head (by rw [hq]; rfl)
        have hle := hs.head_le hq ht
        omega
    · exact ih _ _ _ _ _ ((hs.fire hq).own hown) hrest

theorem expire_quiet :
    ∀ (rounds i : Nat) (s s' : Timers T) (r r' : Bool), Good s →
      ((s.timer t).fPending = true → now.1.toInt < (s.timer t).fWhen.toInt) →
      Timers.expire now handleTimeout rounds i s r = some (s', r') → s'.fired.count t = s.fired.count t := by
  intro rounds
  induction rounds with
  | zero =>
    intro i s s' r r' _ _ h
    cases h
  | succ rounds ih =>
    intro i s s' r r' hs hquiet h
    rcases expire_cases h with ⟨rfl, _⟩ | ⟨u, queue, s1, r1, hq, hdue, hown, hrest⟩
    · rfl
    · have hu : t ≠ u := by
        rintro rfl
        have := hquiet ((hs.mem_iff t).1 (hq ▸ (.head _)))
        omega
      obtain ⟨hfired, hother⟩ := own_other hown
      have hsame : s1.timer t = s.timer t := by rw [hother t hu, fire_other hu]
      rw [ih _ s1 _ _ _ ((hs.fire hq).own hown) (by rwa [hsame]) hrest, hfired]
      simp [Timers.fire, Ne.symm hu]

theorem expire_oneShot
    (hhandler : ∀ i, (handleTimeout i t).own.NotOver now) :
    ∀ (rounds i : Nat) (s s' : Timers T) (r r' : Bool), Good s → (s.timer t).fPending = true →
      (s.timer t).fMode = .kOneShotTimer → (s.timer t).fWhen.toInt ≤ now.1.toInt →
      Timers.expire now handleTimeout rounds i s r = some (s', r') → s'.fired.count t = s.fired.count t + 1 := by
  intro rounds
  induction rounds with
  | zero =>
    intro i s s' r r' _ _ _ _ h
    cases h
  | succ rounds ih =>
    intro i s s' r r' hs hpending hmode hdue h
    have ht : t ∈ s.queue := (hs.mem_iff t).2 hpending
    rcases expire_cases h with ⟨rfl, hhead⟩ | ⟨u, queue, s1, r1, hq, _, hown, hrest⟩
    · cases hq : s'.queue with
      | nil =>
        rw [hq] at ht
        cases ht
      | cons head queue =>
        have hfirst := hhead head (by rw [hq]; rfl)
        have hle := hs.head_le hq ht
        omega
    · have hgood := (hs.fire hq).own hown
      obtain ⟨hfired, hother⟩ := own_other hown
      by_cases hu : t = u
      · subst hu
        have hquiet := own_self (hhandler i) (fire_oneShot hmode) hown
        rw [expire_quiet _ _ s1 _ _ _ hgood hquiet hrest, hfired]
        simp [Timers.fire]
      · have hsame : s1.timer t = s.timer t := by rw [hother t hu, fire_other hu]
        rw [ih _ s1 _ _ _ hgood (by rwa [hsame]) (by rwa [hsame]) (by rwa [hsame]) hrest, hfired]
        simp [Timers.fire, Ne.symm hu]

/-! ## The loop ends -/

/-- How often a timer is due until the clock shows more than `now`. -/
def ticks (now : SystemTime) (timer : Timer) : Nat :=
  if timer.fWhen.toInt ≤ now.1.toInt then
    match timer.fMode with
    | .kPeriodicTimer => ((now.1.toInt - timer.fWhen.toInt) / timer.fInterval.toInt).toNat + 1
    | .kOneShotTimer => 1
  else 0

def Timers.ticks (now : SystemTime) (s : Timers T) : Nat := (s.queue.map fun t => TimerQueue.ticks now (s.timer t)).sum

def Short (now : SystemTime) (s : Timers T) : Prop :=
  ∀ t, (s.timer t).fPending = true → (s.timer t).fMode = .kPeriodicTimer →
    now.1.toInt + (s.timer t).fInterval.toInt < 2 ^ 63

theorem ticks_next (hmode : timer.fMode = .kPeriodicTimer)
    (hinterval : 0 < timer.fInterval.toInt) (hshort : now.1.toInt + timer.fInterval.toInt < 2 ^ 63)
    (hdue : timer.fWhen.toInt ≤ now.1.toInt) :
    ticks now { timer with fWhen := timer.fWhen + timer.fInterval } + 1 = ticks now timer := by
  have hlow := timer.fWhen.le_toInt
  have hsum : (timer.fWhen + timer.fInterval).toInt = timer.fWhen.toInt + timer.fInterval.toInt := by
    rw [Int64.toInt_add, bmod_eq_of_le] <;> omega
  have hdiv : (now.1.toInt - timer.fWhen.toInt) / timer.fInterval.toInt
      = (now.1.toInt - (timer.fWhen.toInt + timer.fInterval.toInt)) / timer.fInterval.toInt + 1 := by
    have hsplit : now.1.toInt - timer.fWhen.toInt
        = now.1.toInt - (timer.fWhen.toInt + timer.fInterval.toInt) + 1 * timer.fInterval.toInt := by omega
    rw [hsplit, add_mul_ediv_right _ _ (by omega)]
  unfold ticks
  simp only [hmode, hsum, hdue, if_true]
  split
  · rename_i hagain
    have hnonneg : 0 ≤ (now.1.toInt - (timer.fWhen.toInt + timer.fInterval.toInt)) / timer.fInterval.toInt :=
      ediv_nonneg (by omega) (by omega)
    omega
  · rename_i hover
    have hzero : (now.1.toInt - timer.fWhen.toInt) / timer.fInterval.toInt = 0 :=
      ediv_eq_zero_of_lt (by omega) (by omega)
    omega

theorem ticks_update (ht : t ∉ queue) :
    (queue.map fun u => ticks now (Function.update s.timer t timer u))
      = queue.map fun u => ticks now (s.timer u) := by
  refine map_congr_left fun u hu => ?_
  have hut : u ≠ t := fun h => ht (h ▸ hu)
  rw [update_of_ne hut]

theorem ticks_fire (hs : Good s) (hshort : Short now s)
    (hq : s.queue = t :: queue) (hdue : (s.timer t).fWhen.toInt ≤ now.1.toInt) :
    (s.fire t queue).ticks now + 1 = s.ticks now := by
  have hsorted := hs.sorted
  have hnodup := hs.nodup
  rw [hq] at hsorted hnodup
  have ht : t ∉ queue := (nodup_cons.1 hnodup).1
  have hpending : (s.timer t).fPending = true := (hs.mem_iff t).1 (hq ▸ (.head _))
  unfold Timers.ticks Timers.fire Timers.dequeue
  rw [hq]
  cases hmode : (s.timer t).fMode with
  | kPeriodicTimer =>
    have hnext := ticks_next hmode (hs.interval t hpending hmode) (hshort t hpending hmode) hdue
    dsimp only [Timers.put]
    rw [enqueue_eq t (pairwise_update ht hsorted.of_cons), ((perm_orderedInsert _ t queue).map _).sum_eq]
    simp only [map_cons, sum_cons, update_self, ticks_update ht]
    omega
  | kOneShotTimer =>
    have hone : ticks now (s.timer t) = 1 := by
      unfold ticks
      rw [if_pos hdue, hmode]
    simp only [map_cons, sum_cons, ticks_update ht, hone]
    omega

def Own.NeverSets (own : Own) : Prop := ∀ now later time mode, own ≠ .setTimeout now later time mode

theorem own_ticks (hs : Good s) (hshort : Short now s)
    (hown : own.NeverSets) : ∃ s', own.run s t = some s' ∧ s'.ticks now ≤ s.ticks now ∧ Short now s' := by
  cases own with
  | leave => exact ⟨s, rfl, le_rfl, hshort⟩
  | cancelTimeout later =>
    obtain ⟨htimer, hqueue, _⟩ := cancelTimeout_spec s t later
    refine ⟨_, rfl, ?_, ?_⟩
    · unfold Timers.ticks
      rw [htimer, hqueue]
      split
      · rename_i hpending
        have hperm := perm_cons_erase ((hs.mem_iff t).2 hpending)
        rw [ticks_update hs.nodup.not_mem_erase, (hperm.map _).sum_eq, map_cons, sum_cons]
        omega
      · rename_i hidle
        rw [ticks_update fun ht => hidle ((hs.mem_iff t).1 ht)]
    · intro u
      rw [htimer]
      by_cases hu : u = t
      · subst hu
        simp
      · rw [update_of_ne hu]
        exact hshort u
  | setTimeout now' later time mode => exact absurd rfl (hown now' later time mode)

theorem expire_returns
    (hhandler : ∀ i t, (handleTimeout i t).own.NeverSets) :
    ∀ (rounds i : Nat) (s : Timers T) (r : Bool), Good s → Short now s → s.ticks now < rounds →
      ∃ out, Timers.expire now handleTimeout rounds i s r = some out := by
  intro rounds
  induction rounds with
  | zero =>
    intro i s r _ _ h
    omega
  | succ rounds ih =>
    intro i s r hs hshort hrounds
    rw [Timers.expire]
    split
    · exact ⟨_, rfl⟩
    · rename_i t queue hq
      split
      · rename_i hwhen
        rw [Int64.le_iff_toInt_le] at hwhen
        have hticks := ticks_fire hs hshort hq hwhen
        have hshortFire : Short now (s.fire t queue) := by
          intro u
          by_cases hu : u = t
          · subst hu
            unfold Timers.fire Timers.dequeue
            cases hmode : (s.timer u).fMode with
            | kPeriodicTimer =>
              simpa [Timers.put] using hshort u
            | kOneShotTimer => simp
          · rw [fire_other hu]
            exact hshort u
        obtain ⟨s1, hown, hle, hshort1⟩ := own_ticks (t := t) (hs.fire hq) hshortFire (hhandler i t)
        rw [hown, Option.bind_some]
        exact ih _ s1 _ ((hs.fire hq).own hown) hshort1 (by omega)
      · exact ⟨_, rfl⟩

/-! ## The hardware -/

/-- The deadline is at most `2^63` before the clock: the difference is a 64-bit number. -/
def InTime (fWhen : Int64) (later : SystemTime) : Prop := later.1.toInt - fWhen.toInt ≤ 2 ^ 63
  deriving Decidable

def Programmed (s : Timers T) : Prop :=
  ∀ head, s.queue.head? = some head → ∃ (relative : Int64) (at' : SystemTime), s.hardware = some (relative, at') ∧
    at'.1.toInt + relative.toInt = (s.timer head).fWhen.toInt

omit [DecidableEq T] in
theorem programmed_reprogram
    (h : ∀ head, s.queue.head? = some head → InTime (s.timer head).fWhen later) :
    Programmed (s.reprogramHardwareTimer later) := by
  obtain ⟨htimer, hqueue, _⟩ := reprogramHardwareTimer_cases s later
  intro head hhead
  rw [hqueue] at hhead
  rw [htimer]
  have hin := h head hhead
  have hlate : 0 ≤ later.1.toInt := Int64.le_iff_toInt_le.1 later.2
  have hhigh := (s.timer head).fWhen.toInt_lt
  have hsub : ((s.timer head).fWhen - later.1).toInt = (s.timer head).fWhen.toInt - later.1.toInt := by
    unfold InTime at hin
    rw [Int64.toInt_sub, bmod_eq_of_le] <;> omega
  refine ⟨(s.timer head).fWhen - later.1, later, ?_, by omega⟩
  unfold Timers.reprogramHardwareTimer
  cases hq : s.queue with
  | nil =>
    rw [hq] at hhead
    cases hhead
  | cons a queue =>
    rw [hq] at hhead
    cases hhead
    rfl

theorem put_head (hs : Good s) (ht : t ∉ s.queue) :
    (s.put t timer s.queue).queue.head? = some t ∨ (s.put t timer s.queue).queue.head? = s.queue.head? := by
  have hupdate : s.queue.Pairwise (Before fun u => (Function.update s.timer t timer u).fWhen) :=
    pairwise_update ht hs.sorted
  dsimp only [Timers.put]
  rw [enqueue_eq t hupdate]
  cases s.queue with
  | nil => exact .inl rfl
  | cons head queue =>
    rw [orderedInsert_cons]
    split
    · exact .inl rfl
    · exact .inr rfl

theorem Programmed.setTimeout (hs : Good s) (hp : Programmed s)
    {time : Int64} {mode : TimerMode} (h : s.setTimeout t now later time mode = some s')
    (hin : (∀ head, s.queue.head? = some head → (deadline now time mode).toInt ≤ (s.timer head).fWhen.toInt) →
      InTime (deadline now time mode) later) : Programmed s' := by
  have hs' := hs.setTimeout h
  obtain ⟨timer, harm, rfl⟩ := setTimeout_cases h
  obtain ⟨hidle, _, _, hwhen, _⟩ := arm_cases harm
  have ht : t ∉ s.queue := by
    rw [hs.mem_iff, hidle]
    exact Bool.false_ne_true
  have hother : ∀ head, s.queue.head? = some head → (s.put t timer s.queue).timer head = s.timer head := by
    intro head hhead
    have hne : head ≠ t := by
      rintro rfl
      exact ht (List.mem_of_mem_head? hhead)
    exact update_of_ne hne _ _
  by_cases hsame : (s.put t timer s.queue).queue.head? = s.queue.head?
  · rw [if_pos hsame]
    intro head hhead
    rw [hsame] at hhead
    rw [hother head hhead]
    exact hp head hhead
  · rw [if_neg hsame] at hs' ⊢
    have hhead : (s.put t timer s.queue).queue.head? = some t := (put_head hs ht).resolve_right hsame
    refine programmed_reprogram fun head hhead' => ?_
    rw [hhead] at hhead'
    cases hhead'
    have hself : (s.put t timer s.queue).timer t = timer := update_self ..
    rw [hself, hwhen]
    refine hin fun head hold => ?_
    -- the new head is due no later than the old one
    obtain ⟨htimerR, hqueueR, _⟩ := reprogramHardwareTimer_cases (s.put t timer s.queue) later
    have hpending : ((s.put t timer s.queue).timer head).fPending = true := by
      rw [hother head hold]
      exact (hs.mem_iff head).1 (List.mem_of_mem_head? hold)
    have hgood : Good (s.put t timer s.queue) := hs'.congr htimerR.symm hqueueR.symm
    obtain ⟨queue, hq⟩ : ∃ queue, (s.put t timer s.queue).queue = t :: queue := by
      cases hq : (s.put t timer s.queue).queue with
      | nil =>
        rw [hq] at hhead
        cases hhead
      | cons a queue =>
        rw [hq] at hhead
        cases hhead
        exact ⟨queue, rfl⟩
    have hle := hgood.head_le hq ((hgood.mem_iff head).2 hpending)
    rwa [hself, hwhen, hother head hold] at hle

theorem Programmed.cancelTimeout (hs : Good s) (hp : Programmed s)
    (hin : ∀ next queue, s.queue = t :: next :: queue → InTime (s.timer next).fWhen later) :
    Programmed (s.cancelTimeout t later).1 := by
  unfold Timers.cancelTimeout
  dsimp only
  cases hq : s.queue with
  | nil =>
    have herase : (if (s.timer t).fPending = true then ([] : List T).erase t else []) = [] := by
      split <;> rfl
    simp only [List.head?_nil, reduceCtorEq, if_false, herase]
    intro head hhead
    cases hhead
  | cons a queue =>
    by_cases ha : a = t
    · subst ha
      have hpending : (s.timer a).fPending = true := (hs.mem_iff a).1 (hq ▸ (.head _))
      rw [if_pos (show (a :: queue).head? = some a from rfl), if_pos hpending, erase_cons_head]
      refine programmed_reprogram fun head hhead => ?_
      dsimp only at hhead ⊢
      cases queue with
      | nil => cases hhead
      | cons next queue =>
        cases hhead
        have hnodup := hs.nodup
        rw [hq] at hnodup
        have hne : head ≠ a := by
          rintro rfl
          exact (nodup_cons.1 hnodup).1 (.head _)
        rw [update_of_ne hne]
        exact hin head queue hq
    · have hhead : ((a :: queue).head? = some t) = False := by simp [ha]
      rw [if_neg (by rw [hhead]; exact id)]
      intro head hhead'
      have hkeep : (if (s.timer t).fPending then (a :: queue).erase t else a :: queue).head? = some a := by
        split
        · rw [erase_cons_tail (by simpa using ha)]
          rfl
        · rfl
      dsimp only at hhead' ⊢
      rw [hkeep] at hhead'
      cases hhead'
      rw [update_of_ne ha]
      exact hp a (by rw [hq]; rfl)

/-! ## Runs -/

inductive Call (T : Type) where
  | setTimeout (t : T) (now later : SystemTime) (time : Int64) (mode : TimerMode)
  | cancelTimeout (t : T) (later : SystemTime)
  | hardwareTimerInterrupt (now later : SystemTime) (rounds : Nat) (handleTimeout : Nat → T → Handler)

def call (s : Timers T) : Call T → Option (Timers T)
  | .setTimeout t now later time mode => s.setTimeout t now later time mode
  | .cancelTimeout t later => some (s.cancelTimeout t later).1
  | .hardwareTimerInterrupt now later rounds handleTimeout =>
    (s.hardwareTimerInterrupt now later rounds handleTimeout).map Prod.fst

def timers : StepSystem (Timers T) (Call T) where
  init s := s.queue = [] ∧ ∀ t, (s.timer t).fPending = false
  step := call

/-- The hardware is programmed for no deadline more than `2^63` before the clock: neither for a new head nor for the
one behind a head that is cancelled. -/
def DeadlinesInTime (s : Timers T) : Call T → Prop
  | .setTimeout _ now later time mode =>
    (∀ head ∈ s.queue.head?, (deadline now time mode).toInt ≤ (s.timer head).fWhen.toInt) →
      InTime (deadline now time mode) later
  | .cancelTimeout t later => ∀ next ∈ s.queue[1]?, s.queue.head? = some t → InTime (s.timer next).fWhen later
  | .hardwareTimerInterrupt .. => True

instance (s : Timers T) : (c : Call T) → Decidable (DeadlinesInTime s c)
  | .setTimeout _ now later time mode =>
    inferInstanceAs (Decidable ((∀ head ∈ s.queue.head?, (deadline now time mode).toInt ≤ (s.timer head).fWhen.toInt) →
      InTime (deadline now time mode) later))
  | .cancelTimeout t later =>
    inferInstanceAs (Decidable (∀ next ∈ s.queue[1]?, s.queue.head? = some t → InTime (s.timer next).fWhen later))
  | .hardwareTimerInterrupt .. => .isTrue trivial

theorem hardwareTimerInterrupt_spec (hs : Good s) {rounds : Nat} {status : InterruptStatus}
    (h : s.hardwareTimerInterrupt now later rounds handleTimeout = some (s', status)) :
    Good s' ∧ Programmed s' ∧ (∀ t ∈ s'.queue, now.1.toInt < (s'.timer t).fWhen.toInt) ∧
      (∀ t, (∀ i, (handleTimeout i t).own.NotOver now) → (s.timer t).fPending = true →
        (s.timer t).fMode = .kOneShotTimer → (s.timer t).fWhen.toInt ≤ now.1.toInt →
        s'.fired.count t = s.fired.count t + 1) ∧
      ∀ t, ((s.timer t).fPending = true → now.1.toInt < (s.timer t).fWhen.toInt) →
        s'.fired.count t = s.fired.count t := by
  obtain ⟨⟨s1, reschedule⟩, hexpire, hout⟩ := Option.map_eq_some_iff.1 h
  obtain ⟨rfl, rfl⟩ := Prod.mk.inj hout
  obtain ⟨htimer, hqueue, hfired⟩ := reprogramHardwareTimer_cases s1 later
  obtain ⟨hgood, hover⟩ := expire_good _ _ _ _ _ _ hs hexpire
  refine ⟨hgood.congr htimer hqueue, ?_, ?_, ?_, ?_⟩
  · refine programmed_reprogram fun head hhead => ?_
    have hnow : 0 ≤ now.1.toInt := Int64.le_iff_toInt_le.1 now.2
    have hlater := later.1.toInt_lt
    have := hover head (List.mem_of_mem_head? hhead)
    unfold InTime
    omega
  · rw [htimer, hqueue]
    exact hover
  · intro t hhandler hpending hmode hdue
    rw [hfired]
    exact expire_oneShot hhandler _ _ _ _ _ _ hs hpending hmode hdue hexpire
  · intro t hquiet
    rw [hfired]
    exact expire_quiet _ _ _ _ _ _ hs hquiet hexpire

theorem reachVia_good (h : timers.ReachVia DeadlinesInTime s) : Good s ∧ Programmed s := by
  refine h.invariant (fun s => Good s ∧ Programmed s) ?_ ?_
  · rintro s ⟨hqueue, hidle⟩
    refine ⟨⟨?_, ?_, ?_⟩, ?_⟩
    · rw [hqueue]
      exact List.Pairwise.nil
    · intro t
      simp [hqueue, hidle]
    · intro t hpending
      rw [hidle] at hpending
      cases hpending
    · intro head hhead
      rw [hqueue] at hhead
      cases hhead
  · rintro s c s' ⟨hs, hp⟩ hin hstep
    cases c with
    | setTimeout t now later time mode => exact ⟨hs.setTimeout hstep, hp.setTimeout hs hstep hin⟩
    | cancelTimeout t later =>
      obtain rfl : (s.cancelTimeout t later).1 = s' := Option.some.inj hstep
      refine ⟨hs.cancelTimeout t later, hp.cancelTimeout hs fun next queue hq => ?_⟩
      exact hin next (by simp [hq]) (by simp [hq])
    | hardwareTimerInterrupt now later rounds handleTimeout =>
      obtain ⟨⟨s1, status⟩, hinterrupt, rfl⟩ := Option.map_eq_some_iff.1 hstep
      obtain ⟨hgood, hprogrammed, _⟩ := hardwareTimerInterrupt_spec hs hinterrupt
      exact ⟨hgood, hprogrammed⟩

/-- **In every run without such deadlines** the queue is sorted and holds each pending timer once, the hardware is
programmed for its head, and an interrupt returns, leaves no timer that is due and fires each one-shot timer that is
due once. -/
theorem timers_run {s : Timers T} (h : timers.ReachVia DeadlinesInTime s) :
    s.queue.Pairwise (fun a b => (s.timer a).fWhen ≤ (s.timer b).fWhen) ∧
    (∀ t, s.queue.count t = if (s.timer t).fPending then 1 else 0) ∧
    Programmed s ∧
    (∀ now later rounds handleTimeout s',
      timers.step s (.hardwareTimerInterrupt now later rounds handleTimeout) = some s' →
        (∀ t ∈ s'.queue, now.1 < (s'.timer t).fWhen) ∧
        (∀ t, (∀ i, (handleTimeout i t).own.NotOver now) → (s.timer t).fPending = true →
          (s.timer t).fMode = .kOneShotTimer → (s.timer t).fWhen ≤ now.1 →
          s'.fired.count t = s.fired.count t + 1) ∧
        ∀ t, ((s.timer t).fPending = true → now.1 < (s.timer t).fWhen) → s'.fired.count t = s.fired.count t) ∧
    (∀ now later handleTimeout, (∀ i t, (handleTimeout i t).own.NeverSets) → Short now s →
      ∃ rounds s', timers.step s (.hardwareTimerInterrupt now later rounds handleTimeout) = some s') := by
  obtain ⟨hs, hp⟩ := reachVia_good h
  refine ⟨?_, hs.count, hp, ?_, ?_⟩
  · exact hs.sorted.imp fun hle => Int64.le_iff_toInt_le.2 hle
  · intro now later rounds handleTimeout s' hstep
    obtain ⟨⟨s1, status⟩, hinterrupt, rfl⟩ := Option.map_eq_some_iff.1 hstep
    obtain ⟨_, _, hover, honce, hquiet⟩ := hardwareTimerInterrupt_spec hs hinterrupt
    refine ⟨?_, ?_, ?_⟩
    · exact fun t ht => Int64.lt_iff_toInt_lt.2 (hover t ht)
    · exact fun t hhandler hpending hmode hdue =>
        honce t hhandler hpending hmode (Int64.le_iff_toInt_le.1 hdue)
    · exact fun t hnot => hquiet t fun hpending => Int64.lt_iff_toInt_lt.1 (hnot hpending)
  · intro now later handleTimeout hhandler hshort
    obtain ⟨⟨s1, reschedule⟩, hout⟩ := expire_returns hhandler (s.ticks now + 1) 0 s false hs hshort (Nat.lt_succ_self _)
    refine ⟨s.ticks now + 1, s1.reprogramHardwareTimer later, ?_⟩
    show (s.hardwareTimerInterrupt now later _ handleTimeout).map Prod.fst = _
    unfold Timers.hardwareTimerInterrupt
    rw [hout]
    rfl

def idle : Timers Nat := ⟨fun _ => ⟨0, .kOneShotTimer, false, 0⟩, [], none, []⟩

def someCalls : List (Call Nat) :=
  [.setTimeout 0 ⟨10, by decide⟩ ⟨11, by decide⟩ 50 .kPeriodicTimer,
    .setTimeout 1 ⟨12, by decide⟩ ⟨12, by decide⟩ 40 .kOneShotTimer,
    .setTimeout 2 ⟨13, by decide⟩ ⟨13, by decide⟩ 70 .kOneShotTimer,
    .cancelTimeout 1 ⟨14, by decide⟩,
    .hardwareTimerInterrupt ⟨130, by decide⟩ ⟨131, by decide⟩ 5 fun _ _ => ⟨.leave, .kReschedule⟩]

theorem timers_run_someCalls : ∃ s, timers.exec idle someCalls = some s ∧ s.fired = [0, 2, 0] ∧ Programmed s := by
  have hrun : (timers.exec idle someCalls).map (fun s => s.fired) = some [0, 2, 0] := by decide +kernel
  obtain ⟨s, hs, hfired⟩ := Option.map_eq_some_iff.1 hrun
  have hmeets : timers.Meets DeadlinesInTime idle someCalls := by decide +kernel
  have hreach : timers.ReachVia DeadlinesInTime s :=
    StepSystem.reachVia_exec someCalls (.init ⟨rfl, fun _ => rfl⟩) hmeets hs
  exact ⟨s, hs, hfired, (timers_run hreach).2.2.1⟩

/-- A one-shot timer for the earliest of all times: at time 1 the hardware is programmed for the latest. -/
theorem programmed_fails :
    ¬ ∀ (t : Nat) (now later : SystemTime) (time : Int64) (mode : TimerMode) (s : Timers Nat),
      timers.exec idle [.setTimeout t now later time mode] = some s → Programmed s := by
  intro h
  obtain ⟨relative, at', hhardware, hdeadline⟩ :=
    h 0 ⟨1, by decide⟩ ⟨1, by decide⟩ Int64.minValue .kOneShotTimer _ rfl 0 rfl
  cases hhardware
  revert hdeadline
  decide

end TimerQueue
