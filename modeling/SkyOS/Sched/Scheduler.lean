import SkyOS.Lib.Machine
import SkyOS.Lib.StepSystem
import SkyOS.Lib.Weight

/-!
# `_Scheduler` (`Scheduler.cpp`): the ready queues

`EnqueueReadyThread` and `PickNextThread` run with interrupts disabled, so each is one step. Reading a queue
outside of the 32 has no result, except in the scan of `PickNextThread`: there the hint is already below the
array when the read is made, and `-1` stands for whatever index the scan stops at. The hint stays in range
exactly as long as a pick leaves a thread behind; `scheduler_right` is about the runs in which it does.

| here | there |
| --- | --- |
| threads | numbers, with `fBasePriority` and `fCurrentPriority` as functions |
| `sleepTime` | `thread->GetSleepTime()` |
| `Run.enqueuedAt` | when a thread was last enqueued: history, to say which thread is the oldest |
-/

namespace Scheduler

open Weight List
open Function (update update_of_ne update_self)

def kQuantum : Int := 8000
def kMaxPriority : Int := 31

structure State where
  fReadyThreadCount : Int
  fHighestReadyThread : Int
  fReadyQueue : Fin 32 → List Nat
  fBasePriority : Nat → Int
  fCurrentPriority : Nat → Int

/-- An index into `fReadyQueue`. -/
def queueAt (i : Int) : Option (Fin 32) := if h : 0 ≤ i ∧ i < 32 then some ⟨i.toNat, by omega⟩ else none

/-- The priority of a thread that becomes ready (:70-79); `SetCurrentPriority` keeps 5 bits. -/
def readyPriority (base current sleepTime : Int) : Int :=
  if sleepTime > kQuantum * 4 then
    if current < min kMaxPriority (base + 3) then (current + 1) % 32 else current
  else if current > base then (current - 1) % 32 else current

/-- `EnqueueReadyThread` (:67). -/
def enqueueReadyThread (s : State) (thread : Nat) (sleepTime : Int) : Option State := do
  let priority := readyPriority (s.fBasePriority thread) (s.fCurrentPriority thread) sleepTime
  let i ← queueAt priority
  return { s with
    fCurrentPriority := Function.update s.fCurrentPriority thread priority,
    fHighestReadyThread := if priority > s.fHighestReadyThread then priority else s.fHighestReadyThread,
    fReadyThreadCount := s.fReadyThreadCount + 1,
    fReadyQueue := Function.update s.fReadyQueue i (s.fReadyQueue i ++ [thread]) }

/-- The scan of `PickNextThread` (:93) over the first `n` queues, from the top. -/
def lower (q : Fin 32 → List Nat) : (n : Nat) → n ≤ 32 → Int
  | 0, _ => -1
  | n + 1, h => if q ⟨n, h⟩ = [] then lower q n (Nat.le_of_succ_le h) else n

/-- `PickNextThread` (:90). -/
def pickNextThread (s : State) : Option (Option Nat × State) := do
  let i ← queueAt s.fHighestReadyThread
  let fReadyQueue := Function.update s.fReadyQueue i (s.fReadyQueue i).tail
  return ((s.fReadyQueue i).head?,
    { s with fReadyThreadCount := s.fReadyThreadCount - 1, fReadyQueue,
             fHighestReadyThread := lower fReadyQueue (i + 1) i.isLt })

/-! ## Runs -/

structure Run extends State where
  clock : Nat
  enqueuedAt : Nat → Nat

inductive Call where
  | enqueueReadyThread (thread : Nat) (sleepTime : Int)
  | pickNextThread
deriving DecidableEq, Repr

/-- A thread is enqueued once, its base priority is one, and a pick is made when a thread is ready. -/
def Call.legal (r : Run) : Call → Prop
  | .enqueueReadyThread thread _ =>
    (∀ i, thread ∉ r.fReadyQueue i) ∧ 0 ≤ r.fBasePriority thread ∧ r.fBasePriority thread ≤ kMaxPriority
  | .pickNextThread => ∃ i, r.fReadyQueue i ≠ []

def perform (r : Run) : Call → Option Run
  | .enqueueReadyThread thread sleepTime =>
    (enqueueReadyThread r.toState thread sleepTime).map fun s =>
      ⟨s, r.clock + 1, Function.update r.enqueuedAt thread r.clock⟩
  | .pickNextThread => (pickNextThread r.toState).map fun (_, s) => { r with toState := s }

instance (r : Run) : (c : Call) → Decidable (c.legal r)
  | .enqueueReadyThread .. => inferInstanceAs (Decidable ((∀ _, _) ∧ _ ∧ _))
  | .pickNextThread => inferInstanceAs (Decidable (∃ _, _))

def step (r : Run) (c : Call) : Option Run :=
  if c.legal r then perform r c else none

def system : StepSystem Run Call where
  init r := r.fReadyThreadCount = 0 ∧ r.fHighestReadyThread = 0 ∧ (∀ i, r.fReadyQueue i = []) ∧
    r.fCurrentPriority = r.fBasePriority
  step := step

def readyCount (q : Fin 32 → List Nat) : Int := total (fun l : List Nat => (l.length : Int)) q

/-! ## The invariant -/

structure Inv (r : Run) : Prop where
  count : r.fReadyThreadCount = readyCount r.fReadyQueue
  low : 0 ≤ r.fHighestReadyThread
  high : r.fHighestReadyThread ≤ kMaxPriority
  bound : ∀ i : Fin 32, r.fReadyQueue i ≠ [] → (i : Int) ≤ r.fHighestReadyThread
  exact : ∀ i : Fin 32, r.fHighestReadyThread = i → (∃ j, r.fReadyQueue j ≠ []) → r.fReadyQueue i ≠ []
  idle : (∀ j, r.fReadyQueue j = []) → r.fHighestReadyThread = 0
  priority : ∀ t, 0 ≤ r.fBasePriority t → r.fBasePriority t ≤ kMaxPriority →
    r.fBasePriority t ≤ r.fCurrentPriority t ∧ r.fCurrentPriority t ≤ min kMaxPriority (r.fBasePriority t + 3)
  sorted : ∀ i, (r.fReadyQueue i).Pairwise fun t u => r.enqueuedAt t < r.enqueuedAt u
  past : ∀ i, ∀ t ∈ r.fReadyQueue i, r.enqueuedAt t < r.clock

theorem queueAt_eq {i : Int} (h0 : 0 ≤ i) (h1 : i ≤ kMaxPriority) : ∃ k, queueAt i = some k ∧ (k : Int) = i := by
  unfold kMaxPriority at h1
  refine ⟨⟨i.toNat, by omega⟩, ?_, Int.toNat_of_nonneg h0⟩
  rw [queueAt, dif_pos ⟨h0, by omega⟩]

theorem readyPriority_bounds {base current : Int} (sleepTime : Int) (h0 : 0 ≤ base) (h1 : base ≤ kMaxPriority)
    (hlow : base ≤ current) (hhigh : current ≤ min kMaxPriority (base + 3)) :
    base ≤ readyPriority base current sleepTime ∧ readyPriority base current sleepTime ≤ min kMaxPriority (base + 3) := by
  unfold readyPriority kMaxPriority at *
  split
  · split <;> omega
  · split <;> omega

theorem readyCount_update (q : Fin 32 → List Nat) (i : Fin 32) (l : List Nat) :
    readyCount (update q i l) = readyCount q - (q i).length + l.length :=
  total_update _ q i l

theorem lower_spec (q : Fin 32 → List Nat) (n : Nat) (hn : n ≤ 32) :
    (∀ i : Fin 32, (i : Nat) < n → q i ≠ [] → (i : Int) ≤ lower q n hn) ∧
      ((∃ i : Fin 32, (i : Nat) < n ∧ q i ≠ []) →
        0 ≤ lower q n hn ∧ lower q n hn < n ∧ ∀ i : Fin 32, lower q n hn = i → q i ≠ []) := by
  induction n with
  | zero =>
    refine ⟨fun i hi => absurd hi (Nat.not_lt_zero _), ?_⟩
    rintro ⟨i, hi, -⟩
    exact absurd hi (Nat.not_lt_zero _)
  | succ n ih =>
    obtain ⟨hbound, hexact⟩ := ih (Nat.le_of_succ_le hn)
    by_cases hempty : q ⟨n, hn⟩ = []
    · have hne : ∀ i : Fin 32, (i : Nat) < n + 1 → q i ≠ [] → (i : Nat) < n := by
        intro i hi hq
        rcases Nat.lt_succ_iff_lt_or_eq.1 hi with hlt | heq
        · exact hlt
        · subst heq
          exact absurd hempty hq
      rw [lower, if_pos hempty]
      refine ⟨fun i hi hq => hbound i (hne i hi hq) hq, ?_⟩
      rintro ⟨i, hi, hq⟩
      obtain ⟨h1, h2, h3⟩ := hexact ⟨i, hne i hi hq, hq⟩
      exact ⟨h1, by omega, h3⟩
    · rw [lower, if_neg hempty]
      refine ⟨fun i hi _ => by omega, fun _ => ⟨by omega, by omega, ?_⟩⟩
      intro i hi
      have hin : i = ⟨n, hn⟩ := Fin.ext (show (i : Nat) = n by omega)
      rw [hin]
      exact hempty

variable {r : Run}

theorem inv_init (h : system.init r) : Inv r := by
  obtain ⟨hcount, hhint, hempty, hcurrent⟩ := h
  have hq : r.fReadyQueue = fun _ => [] := funext hempty
  refine ⟨?_, by omega, by unfold kMaxPriority; omega, ?_, ?_, ?_, ?_, ?_, ?_⟩
  · rw [hcount, hq]
    exact (total_const_zero fun _ => rfl).symm
  · intro i hi
    exact absurd (hempty i) hi
  · rintro i - ⟨j, hj⟩
    exact absurd (hempty j) hj
  · exact fun _ => hhint
  · intro t h0 h1
    rw [hcurrent]
    omega
  · intro i
    rw [hempty i]
    exact .nil
  · intro i t ht
    rw [hempty i] at ht
    cases ht

theorem enqueue_hint (h : Inv r) (thread : Nat) {i : Fin 32} {p : Int} (hip : (i : Int) = p) :
    (∀ j : Fin 32, update r.fReadyQueue i (r.fReadyQueue i ++ [thread]) j ≠ [] →
      (j : Int) ≤ if p > r.fHighestReadyThread then p else r.fHighestReadyThread) ∧
    ∀ j : Fin 32, (if p > r.fHighestReadyThread then p else r.fHighestReadyThread) = j →
      update r.fReadyQueue i (r.fReadyQueue i ++ [thread]) j ≠ [] := by
  refine ⟨fun j hj => ?_, fun j hj => ?_⟩
  · by_cases hji : j = i
    · subst hji
      split <;> omega
    · rw [update_of_ne hji] at hj
      have := h.bound j hj
      split <;> omega
  · by_cases hji : j = i
    · subst hji
      rw [update_self]
      simp
    · rw [update_of_ne hji]
      split at hj
      · exact absurd (Fin.ext (by omega)) hji
      · rename_i hle
        refine h.exact j hj ?_
        -- an empty scheduler has the lowest hint, which is then that of the thread's own queue
        by_contra hnone
        simp only [not_exists, not_not] at hnone
        have hidle := h.idle hnone
        exact hji (Fin.ext (by omega))

variable {thread : Nat}

theorem enqueue_order (h : Inv r) (hnot : ∀ i, thread ∉ r.fReadyQueue i) (i j : Fin 32) :
    (update r.fReadyQueue i (r.fReadyQueue i ++ [thread]) j).Pairwise (fun t u =>
      update r.enqueuedAt thread r.clock t < update r.enqueuedAt thread r.clock u) ∧
    ∀ t ∈ update r.fReadyQueue i (r.fReadyQueue i ++ [thread]) j,
      update r.enqueuedAt thread r.clock t < r.clock + 1 := by
  have hold : ∀ j, ∀ t ∈ r.fReadyQueue j, update r.enqueuedAt thread r.clock t = r.enqueuedAt t := by
    intro j t ht
    refine update_of_ne ?_ _ _
    rintro rfl
    exact hnot j ht
  have hkeep : (r.fReadyQueue j).Pairwise fun t u =>
      update r.enqueuedAt thread r.clock t < update r.enqueuedAt thread r.clock u := by
    refine (h.sorted j).imp_of_mem ?_
    intro t u ht hu htu
    rwa [hold j t ht, hold j u hu]
  have hpast : ∀ t ∈ r.fReadyQueue j, update r.enqueuedAt thread r.clock t < r.clock := by
    intro t ht
    rw [hold j t ht]
    exact h.past j t ht
  by_cases hji : j = i
  · subst hji
    rw [update_self]
    refine ⟨pairwise_append.2 ⟨hkeep, pairwise_singleton _ _, fun t ht u hu => ?_⟩, fun t ht => ?_⟩
    · rw [mem_singleton.1 hu, update_self]
      exact hpast t ht
    · rcases mem_append.1 ht with ht | ht
      · exact Nat.lt_succ_of_lt (hpast t ht)
      · rw [mem_singleton.1 ht, update_self]
        exact Nat.lt_succ_self _
  · rw [update_of_ne hji]
    exact ⟨hkeep, fun t ht => Nat.lt_succ_of_lt (hpast t ht)⟩

theorem inv_enqueueReadyThread (h : Inv r) {sleepTime : Int}
    (hc : (Call.enqueueReadyThread thread sleepTime).legal r) :
    ∃ s, enqueueReadyThread r.toState thread sleepTime = some s ∧
      Inv ⟨s, r.clock + 1, update r.enqueuedAt thread r.clock⟩ := by
  obtain ⟨hnot, h0, h1⟩ := hc
  obtain ⟨hlow, hhigh⟩ := h.priority thread h0 h1
  obtain ⟨hplow, hphigh⟩ := readyPriority_bounds sleepTime h0 h1 hlow hhigh
  generalize hp : readyPriority (r.fBasePriority thread) (r.fCurrentPriority thread) sleepTime = p at hplow hphigh
  obtain ⟨i, hi, hip⟩ := queueAt_eq (i := p) (by omega) (by omega)
  refine ⟨_, by simp only [enqueueReadyThread, hp, hi]; rfl, ?_⟩
  have hhint' := h.high
  obtain ⟨hbound, hexact⟩ := enqueue_hint h thread hip
  refine ⟨?_, ?_, ?_, hbound, fun j hj _ => hexact j hj, ?_, ?_, fun j => (enqueue_order h hnot i j).1,
    fun j => (enqueue_order h hnot i j).2⟩
  · show r.fReadyThreadCount + 1 = _
    rw [readyCount_update, h.count, length_append, length_singleton]
    omega
  · dsimp only
    split <;> omega
  · dsimp only
    split <;> omega
  · intro hall
    have hi := hall i
    dsimp only at hi
    rw [update_self] at hi
    simp at hi
  · intro t ht0 ht1
    dsimp only at ht0 ht1 ⊢
    by_cases ht : t = thread
    · subst ht
      rw [update_self]
      exact ⟨hplow, hphigh⟩
    · rw [update_of_ne ht]
      exact h.priority t ht0 ht1

/-- A pick takes the head of the highest queue; with a thread left behind the hint finds it. -/
theorem inv_pickNextThread (h : Inv r) (hready : ∃ i, r.fReadyQueue i ≠ []) :
    ∃ i t s, pickNextThread r.toState = some (some t, s) ∧ (∀ j, i < j → r.fReadyQueue j = []) ∧
      (r.fReadyQueue i).head? = some t ∧ (2 ≤ readyCount r.fReadyQueue → Inv { r with toState := s }) := by
  obtain ⟨i, hi, hhint⟩ := queueAt_eq h.low h.high
  have hne := h.exact i hhint.symm hready
  obtain ⟨t, rest, hq⟩ := exists_cons_of_ne_nil hne
  have htop : ∀ j, i < j → r.fReadyQueue j = [] := by
    intro j hij
    by_contra hj
    have := h.bound j hj
    omega
  generalize hq' : update r.fReadyQueue i (r.fReadyQueue i).tail = q'
  have hsub : ∀ j, (q' j).Sublist (r.fReadyQueue j) := by
    intro j
    rw [← hq']
    by_cases hji : j = i
    · subst hji
      rw [update_self]
      exact tail_sublist _
    · rw [update_of_ne hji]
  have hhead : (r.fReadyQueue i).head? = some t := by rw [hq, List.head?_cons]
  refine ⟨i, t, { r.toState with
    fReadyThreadCount := r.fReadyThreadCount - 1, fReadyQueue := q', fHighestReadyThread := lower q' (i + 1) i.isLt },
    ?_, htop, hhead, ?_⟩
  · rw [pickNextThread, hi, ← hq', ← hhead]
    rfl
  intro htwo
  have hcount : readyCount q' = readyCount r.fReadyQueue - 1 := by
    rw [← hq', readyCount_update, hq, tail_cons, length_cons]
    omega
  have hleft : ∃ j : Fin 32, (j : Nat) < i + 1 ∧ q' j ≠ [] := by
    by_contra hnone
    simp only [not_exists, not_and, not_not] at hnone
    have hall : ∀ j, q' j = [] := by
      intro j
      by_cases hj : (j : Nat) < i + 1
      · exact hnone j hj
      · have := hsub j
        rw [htop j (by omega)] at this
        exact sublist_nil.1 this
    have : readyCount q' = 0 := total_const_zero fun j => by rw [hall j]; rfl
    omega
  obtain ⟨hbound, hexact⟩ := lower_spec q' (i + 1) i.isLt
  obtain ⟨hlow, hlt, hnonempty⟩ := hexact hleft
  refine ⟨?_, hlow, ?_, ?_, ?_, ?_, h.priority, ?_, ?_⟩
  · show r.fReadyThreadCount - 1 = readyCount q'
    rw [hcount, h.count]
  · have := i.isLt
    show lower q' (i + 1) i.isLt ≤ 31
    omega
  · intro j hj
    refine hbound j ?_ hj
    by_contra hij
    have hnil := hsub j
    rw [htop j (by omega)] at hnil
    exact hj (sublist_nil.1 hnil)
  · intro j hj _
    exact hnonempty j hj
  · intro hall
    obtain ⟨j, -, hj⟩ := hleft
    exact absurd (hall j) hj
  · intro j
    exact (h.sorted j).sublist (hsub j)
  · intro j u hu
    exact h.past j u ((hsub j).subset hu)

theorem inv_step {r' : Run} (h : Inv r) {c : Call} (hP : c = .pickNextThread → 2 ≤ readyCount r.fReadyQueue)
    (hs : step r c = some r') : Inv r' := by
  obtain ⟨hc, hs⟩ := Option.ite_none_right_eq_some.1 hs
  cases c with
  | enqueueReadyThread thread sleepTime =>
    obtain ⟨s, hs', rfl⟩ := Option.map_eq_some_iff.1 hs
    obtain ⟨s'', hs'', hinv⟩ := inv_enqueueReadyThread h hc
    rw [hs'] at hs''
    cases hs''
    exact hinv
  | pickNextThread =>
    obtain ⟨⟨next, s⟩, hs', rfl⟩ := Option.map_eq_some_iff.1 hs
    obtain ⟨i, t, s'', hs'', -, -, hinv⟩ := inv_pickNextThread h hc
    rw [hs'] at hs''
    cases hs''
    exact hinv (hP rfl)

/-- Counts, hint and priorities are right, and the next pick returns the oldest thread of the highest queue. -/
structure SchedulerRight (r : Run) : Prop where
  count : r.fReadyThreadCount = readyCount r.fReadyQueue
  hint : 0 ≤ r.fHighestReadyThread ∧ r.fHighestReadyThread ≤ kMaxPriority
  bound : ∀ i : Fin 32, r.fReadyQueue i ≠ [] → (i : Int) ≤ r.fHighestReadyThread
  exact : (∃ i, r.fReadyQueue i ≠ []) → ∃ i : Fin 32, (i : Int) = r.fHighestReadyThread ∧ r.fReadyQueue i ≠ []
  priority : ∀ t, 0 ≤ r.fBasePriority t → r.fBasePriority t ≤ kMaxPriority →
    r.fBasePriority t ≤ r.fCurrentPriority t ∧ r.fCurrentPriority t ≤ min kMaxPriority (r.fBasePriority t + 3)
  pick : (∃ i, r.fReadyQueue i ≠ []) → ∃ i t s, pickNextThread r.toState = some (some t, s) ∧
    (∀ j, i < j → r.fReadyQueue j = []) ∧ t ∈ r.fReadyQueue i ∧
    ∀ u ∈ r.fReadyQueue i, u ≠ t → r.enqueuedAt t < r.enqueuedAt u

theorem Inv.schedulerRight (h : Inv r) : SchedulerRight r := by
  refine ⟨h.count, ⟨h.low, h.high⟩, h.bound, ?_, h.priority, ?_⟩
  · intro hready
    obtain ⟨i, -, hi⟩ := queueAt_eq h.low h.high
    exact ⟨i, hi, h.exact i hi.symm hready⟩
  · intro hready
    obtain ⟨i, t, s, hs, htop, hhead, -⟩ := inv_pickNextThread h hready
    have hmem : t ∈ r.fReadyQueue i := List.mem_of_mem_head? hhead
    refine ⟨i, t, s, hs, htop, hmem, ?_⟩
    intro u hu hut
    have hsorted := h.sorted i
    obtain ⟨rest, hq⟩ : ∃ rest, r.fReadyQueue i = t :: rest := ⟨_, (List.cons_head?_tail hhead).symm⟩
    rw [hq] at hu hsorted
    rcases mem_cons.1 hu with rfl | hu
    · exact absurd rfl hut
    · exact (pairwise_cons.1 hsorted).1 u hu

/-- **Ready queues.** In every run whose picks leave a ready thread behind, every state is right, and every legal
call returns. -/
theorem scheduler_right {r : Run}
    (h : system.ReachVia (fun r c => c = .pickNextThread → 2 ≤ readyCount r.fReadyQueue) r) :
    SchedulerRight r ∧ ∀ c : Call, c.legal r → (step r c).isSome := by
  have hinv : Inv r := StepSystem.ReachVia.invariant Inv (fun _ h0 => inv_init h0)
    (fun _ _ _ hI hP hs => inv_step hI hP hs) h
  refine ⟨hinv.schedulerRight, ?_⟩
  intro c hc
  rw [step, if_pos hc]
  cases c with
  | enqueueReadyThread thread sleepTime =>
    obtain ⟨s, hs, -⟩ := inv_enqueueReadyThread hinv hc
    simp only [perform, hs, Option.map_some, Option.isSome_some]
  | pickNextThread =>
    obtain ⟨i, t, s, hs, -, -, -⟩ := inv_pickNextThread hinv hc
    simp only [perform, hs, Option.map_some, Option.isSome_some]

def started : Run := ⟨⟨0, 0, fun _ => [], fun _ => 5, fun _ => 5⟩, 0, fun _ => 0⟩

theorem scheduler_right_run :
    ∃ r, system.exec started [.enqueueReadyThread 1 0, .enqueueReadyThread 2 40000, .pickNextThread] = some r ∧
      SchedulerRight r ∧ ∀ c : Call, c.legal r → (step r c).isSome := by
  have hrun : (system.exec started [.enqueueReadyThread 1 0, .enqueueReadyThread 2 40000, .pickNextThread]).isSome := by
    decide +kernel
  obtain ⟨r, hr⟩ := Option.isSome_iff_exists.1 hrun
  refine ⟨r, hr, scheduler_right (StepSystem.reachVia_exec _ (.init ⟨rfl, rfl, fun _ => rfl, rfl⟩) ?_ hr)⟩
  decide +kernel

/-- The pick of the only ready thread takes the hint out of the array. -/
theorem last_pick_leaves_range : ¬ ∀ r, system.Reach r → SchedulerRight r := by
  intro h
  have hrun : (system.exec started [.enqueueReadyThread 1 0, .pickNextThread]).map (fun r => r.fHighestReadyThread) =
      some (-1) := by
    decide +kernel
  obtain ⟨r, hr, hhint⟩ := Option.map_eq_some_iff.1 hrun
  have hlow := (h r (StepSystem.reach_exec _ (.init ⟨rfl, rfl, fun _ => rfl, rfl⟩) hr)).hint.1
  rw [hhint] at hlow
  exact absurd hlow (by decide)

/-! ## Picks in a row -/

def picks : Nat → State → Option (List Nat)
  | 0, _ => some []
  | n + 1, s => do
    let (next, s) ← pickNextThread s
    return (← next) :: (← picks n s)

def readyOrder (q : Fin 32 → List Nat) : List Nat := (finRange 32).reverse.flatMap q

theorem readyOrder_cons {q : Fin 32 → List Nat} {i : Fin 32} {t : Nat} {rest : List Nat} (hq : q i = t :: rest)
    (htop : ∀ j, i < j → q j = []) : readyOrder q = t :: readyOrder (update q i rest) := by
  obtain ⟨above, below, hsplit⟩ := append_of_mem (mem_reverse.2 (mem_finRange i))
  have hsorted : ((finRange 32).reverse).Pairwise fun j k => k < j := pairwise_reverse.2 (pairwise_lt_finRange 32)
  rw [hsplit, pairwise_append, pairwise_cons] at hsorted
  obtain ⟨-, ⟨hbelow, -⟩, habove⟩ := hsorted
  have hempty : ∀ j ∈ above, q j = [] := fun j hj => htop j (habove j hj i mem_cons_self)
  have hempty' : ∀ j ∈ above, update q i rest j = [] := fun j hj => by
    rw [update_of_ne (habove j hj i mem_cons_self).ne', hempty j hj]
  have hsame : below.flatMap (update q i rest) = below.flatMap q :=
    flatMap_congr fun j hj => update_of_ne (hbelow j hj).ne _ _
  rw [readyOrder, readyOrder, hsplit, flatMap_append, flatMap_append, flatMap_eq_nil_iff.2 hempty,
    flatMap_eq_nil_iff.2 hempty', flatMap_cons, flatMap_cons, hq, update_self, hsame]
  rfl

theorem Inv.picks (h : Inv r) {n : Nat} (hn : n ≤ readyCount r.fReadyQueue) :
    picks n r.toState = some ((readyOrder r.fReadyQueue).take n) := by
  induction n generalizing r with
  | zero => rfl
  | succ n ih =>
    have hready : ∃ i, r.fReadyQueue i ≠ [] := by
      by_contra hnone
      simp only [not_exists, not_not] at hnone
      have : readyCount r.fReadyQueue = 0 := total_const_zero fun j => by rw [hnone j]; rfl
      omega
    obtain ⟨i, hi, hhint⟩ := queueAt_eq h.low h.high
    obtain ⟨t, rest, hq⟩ := exists_cons_of_ne_nil (h.exact i hhint.symm hready)
    have htop : ∀ j, i < j → r.fReadyQueue j = [] := by
      intro j hij
      by_contra hj
      have := h.bound j hj
      omega
    obtain ⟨s, hpick, hqueue⟩ : ∃ s, pickNextThread r.toState = some ((r.fReadyQueue i).head?, s) ∧
        s.fReadyQueue = update r.fReadyQueue i (r.fReadyQueue i).tail := by
      rw [pickNextThread, hi]
      exact ⟨_, rfl, rfl⟩
    rw [hq] at hpick hqueue
    rw [tail_cons] at hqueue
    have hcount : readyCount s.fReadyQueue = readyCount r.fReadyQueue - 1 := by
      rw [hqueue, readyCount_update, hq, length_cons]
      omega
    rw [readyOrder_cons hq htop, take_succ_cons, Scheduler.picks, hpick, ← hqueue]
    cases n with
    | zero => rfl
    | succ n =>
      obtain ⟨_, _, s', hs', -, -, hinv⟩ := inv_pickNextThread h hready
      rw [hpick] at hs'
      cases hs'
      have hrest := ih (hinv (by omega)) (by show _ ≤ readyCount s.fReadyQueue; omega)
      change (Scheduler.picks (n + 1) s >>= fun l => some (t :: l)) = _
      rw [hrest]
      rfl

/-- **Picks in a row** return the ready threads by their priority, and those of one priority in the order in which they
were enqueued. -/
theorem picks_in_order (h : system.ReachVia (fun r c => c = .pickNextThread → 2 ≤ readyCount r.fReadyQueue) r) {n : Nat}
    (hn : n ≤ readyCount r.fReadyQueue) :
    picks n r.toState = some ((readyOrder r.fReadyQueue).take n) ∧
      ∀ i, (r.fReadyQueue i).Pairwise fun t u => r.enqueuedAt t < r.enqueuedAt u := by
  have hinv : Inv r := StepSystem.ReachVia.invariant Inv (fun _ h0 => inv_init h0)
    (fun _ _ _ hI hP hs => inv_step hI hP hs) h
  exact ⟨hinv.picks hn, hinv.sorted⟩

theorem picks_in_order_run : ∃ r, system.exec started [.enqueueReadyThread 1 0, .enqueueReadyThread 2 40000] = some r ∧
    picks 2 r.toState = some ((readyOrder r.fReadyQueue).take 2) := by
  have hrun : (system.exec started [.enqueueReadyThread 1 0, .enqueueReadyThread 2 40000]).map
      (fun r => decide (2 ≤ readyCount r.fReadyQueue)) = some true := by decide +kernel
  obtain ⟨r, hr, hn⟩ := Option.map_eq_some_iff.1 hrun
  exact ⟨r, hr, (picks_in_order (StepSystem.reachVia_exec _ (.init ⟨rfl, rfl, fun _ => rfl, rfl⟩)
    (by decide +kernel) hr) (of_decide_eq_true hn)).1⟩

end Scheduler
