import SkyOS.Lib.StepSystem
import SkyOS.Lib.Weight

/-!
# `Page` (`Page.cpp`): page states, queues and the semaphore of free pages

Interrupts are disabled wherever a page moves, so `MoveToQueue` is one step, and so is each part of `Alloc`,
`MarkUsed` and `PageEraser` between two waits. The semaphore is its count: a `Wait` is taken while it is
positive. What ties it to the queues is a sum: the count and the threads that hold a token they have not used
yet are together the pages that can be taken (`Tokens`). It survives every move of a page in use. `MarkUsed`,
which is for the bootstrap, tests the state of its page before it waits, and is right while the page stays there.

| here | there |
| --- | --- |
| `T` | the threads, any finite number |
| `Fin n` | `fPages`, with `n` for `fPageCount` |
| `count .kPageFree`, `.kPageTransition`, … | `fFreeCount`, `fTransitionCount`, `fActiveCount`, `fWiredCount`, `fClearCount` |
| `queue .kPageFree`, `.kPageActive`, `.kPageClear` | `fFreeQueue`, `fActiveQueue`, `fClearQueue`, head first |
| `Call.resume` | the next step of a call in progress |
-/

namespace Pages

open Weight Option
open Function (update_apply update_of_ne update_self)

inductive PageState where
  | kPageFree
  | kPageTransition
  | kPageActive
  | kPageWired
  | kPageClear
deriving DecidableEq, Repr

def PageState.queued : PageState → Bool
  | .kPageFree | .kPageActive | .kPageClear => true
  | .kPageTransition | .kPageWired => false

/-- Pages of this state can be taken by `Alloc`. -/
def PageState.available : PageState → Bool
  | .kPageFree | .kPageClear => true
  | .kPageTransition | .kPageActive | .kPageWired => false

/-- Where a thread is in `Alloc`, `MarkUsed` or `PageEraser`. -/
inductive Pc (n : Nat) where
  | idle
  /-- `Alloc`, after `fFreePagesAvailable.Wait()` (:74). -/
  | allocWaited (clear : Bool)
  /-- `MarkUsed`: the page was free, before `Wait` (:191). -/
  | marking (page : Fin n)
  | markWaited (page : Fin n)
  /-- `PageEraser`, after `Wait` (:269). -/
  | eraserWaited
  /-- `PageEraser` found no free page, before `Release` (:274). -/
  | eraserGivesBack
  | erasing (page : Fin n)
deriving DecidableEq, Repr

def Pc.passed {n : Nat} : Pc n → Bool
  | .allocWaited _ | .markWaited _ | .eraserWaited | .eraserGivesBack => true
  | .idle | .marking _ | .erasing _ => false

structure State (T : Type) (n : Nat) where
  fState : Fin n → PageState
  count : PageState → Int
  queue : PageState → List (Fin n)
  fFreePagesAvailable : Int
  pc : T → Pc n

section
variable {T : Type} {n : Nat}

/-- `MoveToQueue` (:197). -/
def moveToQueue (s : State T n) (page : Fin n) (newState : PageState) : State T n :=
  let old := s.fState page
  let count := Function.update s.count old (s.count old - 1)
  let queue := if old.queued then Function.update s.queue old ((s.queue old).erase page) else s.queue
  { s with
    fState := Function.update s.fState page newState
    count := Function.update count newState (count newState + 1)
    queue := if newState.queued then Function.update queue newState (queue newState ++ [page]) else queue
    fFreePagesAvailable := if newState.available then s.fFreePagesAvailable + 1 else s.fFreePagesAvailable }

/-- The page that `Alloc` takes (:82-119): the tail of one of the two queues. -/
def pickPage (s : State T n) (clear : Bool) : Option (Fin n) :=
  if clear ∧ s.count .kPageClear > 0 then (s.queue .kPageClear).getLast?
  else if clear then (s.queue .kPageFree).getLast?
  else if s.count .kPageFree > 0 then (s.queue .kPageFree).getLast?
  else (s.queue .kPageClear).getLast?

variable [DecidableEq T]

def State.goto (s : State T n) (t : T) (q : Pc n) : State T n := { s with pc := Function.update s.pc t q }

/-- `fFreePagesAvailable.Wait()`. -/
def wait (s : State T n) (t : T) (q : Pc n) : Option (State T n) :=
  if 0 < s.fFreePagesAvailable then
    some ({ s with fFreePagesAvailable := s.fFreePagesAvailable - 1 }.goto t q)
  else none

/-- The next step of a call in progress; the tail of an empty queue is a null pointer to `Alloc`. -/
def resume (s : State T n) (t : T) : Option (State T n) :=
  match s.pc t with
  | .idle => none
  | .allocWaited clear => (pickPage s clear).map fun page => (moveToQueue s page .kPageTransition).goto t .idle
  | .marking page => wait s t (.markWaited page)
  | .markWaited page => some ((moveToQueue s page .kPageWired).goto t .idle)
  | .eraserWaited =>
    some ((s.queue .kPageFree).getLast?.elim (s.goto t .eraserGivesBack) fun page =>
      (moveToQueue s page .kPageTransition).goto t (.erasing page))
  | .eraserGivesBack => some ({ s with fFreePagesAvailable := s.fFreePagesAvailable + 1 }.goto t .idle)
  | .erasing page => some ((moveToQueue s page .kPageClear).goto t .idle)

inductive Call (T : Type) (n : Nat) where
  | alloc (t : T) (clear : Bool)
  | markUsed (t : T) (page : Fin n)
  | pageEraser (t : T)
  | resume (t : T)
  | free (page : Fin n)
  | setBusy (page : Fin n)
  | setNotBusy (page : Fin n)
  | wire (page : Fin n)
  | unwire (page : Fin n)
  | lockPage (page : Fin n)

/-- A page that is moved is not free, and `LockPage` (:46) sleeps while it is in transition. -/
def Call.legal (s : State T n) : Call T n → Prop
  | .alloc t _ | .markUsed t _ | .pageEraser t => s.pc t = .idle
  | .resume _ => True
  | .free page | .setBusy page | .setNotBusy page | .wire page | .unwire page => s.fState page ≠ .kPageFree
  | .lockPage page => s.fState page ≠ .kPageFree ∧ s.fState page ≠ .kPageTransition

def perform (s : State T n) : Call T n → Option (State T n)
  | .alloc t clear => wait s t (.allocWaited clear)
  | .markUsed t page => some (if s.fState page = .kPageFree then s.goto t (.marking page) else s)
  | .pageEraser t => wait s t .eraserWaited
  | .resume t => resume s t
  | .free page => some (moveToQueue s page .kPageFree)
  | .setBusy page => some (moveToQueue s page .kPageTransition)
  | .setNotBusy page => some (moveToQueue s page .kPageActive)
  | .wire page => some (moveToQueue s page .kPageWired)
  | .unwire page => some (moveToQueue s page .kPageActive)
  | .lockPage page => some (moveToQueue s page .kPageTransition)

instance (s : State T n) : (c : Call T n) → Decidable (c.legal s)
  | .alloc .. | .markUsed .. | .pageEraser _ => inferInstanceAs (Decidable (_ = _))
  | .resume _ => .isTrue trivial
  | .free _ | .setBusy _ | .setNotBusy _ | .wire _ | .unwire _ => inferInstanceAs (Decidable (_ ≠ _))
  | .lockPage _ => inferInstanceAs (Decidable (_ ∧ _))

def step (s : State T n) (c : Call T n) : Option (State T n) :=
  if c.legal s then perform s c else none

/-- `Bootstrap` (:156). -/
def bootstrap (T : Type) (n : Nat) : State T n where
  fState _ := .kPageFree
  count st := if st = .kPageFree then n else 0
  queue st := if st = .kPageFree then List.finRange n else []
  fFreePagesAvailable := n
  pc _ := .idle

def system (T : Type) [DecidableEq T] (n : Nat) : StepSystem (State T n) (Call T n) where
  init s := s = bootstrap T n
  step := step

def inUse (s : State T n) : Call T n → Prop
  | .free page | .setBusy page | .setNotBusy page | .wire page | .unwire page | .lockPage page =>
    (s.fState page).available = false
  | .alloc .. | .markUsed .. | .pageEraser _ | .resume _ => True

/-- A page that is freed is not with `PageEraser`. -/
def notErasing (s : State T n) : Call T n → Prop
  | .free page => ∀ t, s.pc t ≠ .erasing page
  | _ => True

/-- The page of `MarkUsed` can be taken when it is moved. -/
def stillAvailable (s : State T n) : Call T n → Prop
  | .resume t => ∀ page, s.pc t = .markWaited page → (s.fState page).available = true
  | _ => True

end

/-! ## What the accounting promises -/

section
variable {T : Type} {n : Nat}

/-- The pages in state `st`. -/
def pagesIn (s : State T n) (st : PageState) : Int := total (fun x => if x = st then 1 else 0) s.fState

def Counted (s : State T n) : Prop := ∀ st, s.count st = pagesIn s st

/-- A page is on the queue of its state, once, and on no other. -/
def Queued (s : State T n) : Prop :=
  ∀ st : PageState, st.queued = true → (s.queue st).Nodup ∧ ∀ page, page ∈ s.queue st ↔ s.fState page = st

def available (s : State T n) : Int := s.count .kPageFree + s.count .kPageClear

/-- `PageEraser` has a page that no one can take, and has it to itself. -/
structure Erasers (s : State T n) : Prop where
  taken : ∀ t page, s.pc t = .erasing page → (s.fState page).available = false
  alone : ∀ t t' page, s.pc t = .erasing page → s.pc t' = .erasing page → t = t'

variable [Fintype T]

/-- The threads that have passed `Wait` and have no page yet. -/
def passed (s : State T n) : Int := total (fun q : Pc n => if q.passed then 1 else 0) s.pc

/-- Tokens, in the semaphore or in hand, are as many as the pages that can be taken. -/
def Tokens (s : State T n) : Prop := s.fFreePagesAvailable + passed s = available s

structure PagesRight [DecidableEq T] (s : State T n) : Prop where
  counted : Counted s
  sum : s.count .kPageFree + s.count .kPageTransition + s.count .kPageActive + s.count .kPageWired
    + s.count .kPageClear = n
  queued : Queued s
  tokens : Tokens s
  /-- `Alloc` finds a page behind every token. -/
  allocs : ∀ t clear, s.pc t = .allocWaited clear → (step s (.resume t)).isSome

structure Inv (s : State T n) : Prop where
  counted : Counted s
  queued : Queued s
  tokens : Tokens s
  nonneg : 0 ≤ s.fFreePagesAvailable
  erasers : Erasers s

end

/-! ## Moving one page -/

section
variable {T : Type} {n : Nat} {s : State T n} {page : Fin n} {newState : PageState}

@[simp] theorem moveToQueue_fState :
    (moveToQueue s page newState).fState = Function.update s.fState page newState := rfl

@[simp] theorem moveToQueue_pc : (moveToQueue s page newState).pc = s.pc := rfl

theorem moveToQueue_count (st : PageState) :
    (moveToQueue s page newState).count st =
      s.count st - (if s.fState page = st then 1 else 0) + (if newState = st then 1 else 0) := by
  simp only [moveToQueue, update_apply]
  by_cases hnew : newState = st <;> by_cases hold : s.fState page = st
  · simp [hnew, hold]
  · have hold' : ¬ st = s.fState page := fun h => hold h.symm
    simp [hnew, hold, hold']
  · have hnew' : ¬ st = newState := fun h => hnew h.symm
    simp [hnew, hnew', hold]
  · have hold' : ¬ st = s.fState page := fun h => hold h.symm
    have hnew' : ¬ st = newState := fun h => hnew h.symm
    simp [hnew, hold, hold', hnew']

variable {st : PageState}

theorem moveToQueue_queue (hst : st.queued = true) :
    (moveToQueue s page newState).queue st =
      (if s.fState page = st then (s.queue st).erase page else s.queue st)
        ++ (if newState = st then [page] else []) := by
  have hout : (if (s.fState page).queued = true then
      Function.update s.queue (s.fState page) ((s.queue (s.fState page)).erase page) else s.queue) st
      = if s.fState page = st then (s.queue st).erase page else s.queue st := by
    by_cases hold : s.fState page = st
    · subst hold
      simp [hst]
    · have hold' : ¬ st = s.fState page := fun h => hold h.symm
      rw [if_neg hold]
      split
      · rw [update_of_ne hold']
      · rfl
  by_cases hnew : newState = st
  · subst hnew
    simp only [moveToQueue, hst, if_true, update_self]
    rw [hout]
  · have hnew' : ¬ st = newState := fun h => hnew h.symm
    rw [if_neg hnew, List.append_nil, ← hout]
    simp only [moveToQueue]
    split
    · rw [update_of_ne hnew']
    · rfl

theorem moveToQueue_tokens (s : State T n) (page : Fin n) (newState : PageState) :
    (moveToQueue s page newState).fFreePagesAvailable =
      s.fFreePagesAvailable + if newState.available then 1 else 0 := by
  simp only [moveToQueue]
  split <;> simp

theorem moveToQueue_pagesIn (st : PageState) :
    pagesIn (moveToQueue s page newState) st =
      pagesIn s st - (if s.fState page = st then 1 else 0) + (if newState = st then 1 else 0) :=
  total_update _ s.fState page newState

theorem Counted.moveToQueue (h : Counted s) : Counted (moveToQueue s page newState) := by
  intro st
  rw [moveToQueue_count, moveToQueue_pagesIn, h st]

theorem Queued.moveToQueue (h : Queued s) : Queued (moveToQueue s page newState) := by
  intro st hst
  obtain ⟨hnodup, hmem⟩ := h st hst
  -- what is left on the queue of `st` without the page
  have hleft : ∀ p, p ∈ (if s.fState page = st then (s.queue st).erase page else s.queue st) ↔
      p ≠ page ∧ s.fState p = st := by
    intro p
    by_cases hold : s.fState page = st
    · rw [if_pos hold, hnodup.mem_erase_iff, hmem p]
    · rw [if_neg hold, hmem p]
      refine ⟨fun hp => ⟨?_, hp⟩, fun hp => hp.2⟩
      rintro rfl
      exact hold hp
  have hleftNodup : (if s.fState page = st then (s.queue st).erase page else s.queue st).Nodup := by
    split
    · exact hnodup.erase page
    · exact hnodup
  rw [moveToQueue_queue hst]
  constructor
  · refine List.Nodup.append hleftNodup (by split <;> simp) ?_
    intro p hp hp'
    split at hp'
    · exact ((hleft p).1 hp).1 (List.mem_singleton.1 hp')
    · exact absurd hp' List.not_mem_nil
  · intro p
    rw [List.mem_append, hleft p, moveToQueue_fState, update_apply]
    by_cases hp : p = page
    · subst hp
      by_cases hnew : newState = st <;> simp [hnew]
    · by_cases hnew : newState = st <;> simp [hnew, hp]

theorem moveToQueue_available (s : State T n) (page : Fin n) (newState : PageState) :
    available (moveToQueue s page newState) =
      available s - (if (s.fState page).available then 1 else 0) + (if newState.available then 1 else 0) := by
  simp only [available, moveToQueue_count]
  cases s.fState page <;> cases newState <;> simp [PageState.available] <;> omega

/-! ## The page that `Alloc` takes -/

theorem getLast_isSome (hc : Counted s) (hq : Queued s) (hst : st.queued = true)
    (hpos : 0 < s.count st) : (s.queue st).getLast?.isSome = true := by
  have hex : ∃ page, s.fState page = st := by
    by_contra hne
    simp only [not_exists] at hne
    have hzero : pagesIn s st = 0 := total_const_zero fun page => if_neg (hne page)
    rw [hc st, hzero] at hpos
    omega
  obtain ⟨page, hpage⟩ := hex
  have hmem := ((hq st hst).2 page).2 hpage
  rw [List.getLast?_isSome]
  exact List.ne_nil_of_mem hmem

theorem fState_of_getLast (hq : Queued s) (hst : st.queued = true)
    (h : (s.queue st).getLast? = some page) : s.fState page = st :=
  ((hq st hst).2 page).1 (List.mem_of_getLast? h)

theorem pickPage_available {clear : Bool} (hq : Queued s) (h : pickPage s clear = some page) :
    (s.fState page).available = true := by
  have hfree : (s.queue .kPageFree).getLast? = some page → (s.fState page).available = true := by
    intro hlast
    rw [fState_of_getLast hq rfl hlast]
    rfl
  have hclear : (s.queue .kPageClear).getLast? = some page → (s.fState page).available = true := by
    intro hlast
    rw [fState_of_getLast hq rfl hlast]
    rfl
  unfold pickPage at h
  split at h
  · exact hclear h
  · split at h
    · exact hfree h
    · split at h
      · exact hfree h
      · exact hclear h

theorem pickPage_isSome (hc : Counted s) (hq : Queued s) (h : 0 < available s) (clear : Bool) :
    (pickPage s clear).isSome = true := by
  have hfree : 0 < s.count .kPageFree → (s.queue .kPageFree).getLast?.isSome = true := getLast_isSome hc hq rfl
  have hclear : 0 < s.count .kPageClear → (s.queue .kPageClear).getLast?.isSome = true := getLast_isSome hc hq rfl
  unfold available at h
  unfold pickPage
  split
  case isTrue hpre => exact hclear hpre.2
  case isFalse hpre =>
    split
    case isTrue hclr =>
      have hnone : ¬ s.count .kPageClear > 0 := fun hpos => hpre ⟨hclr, hpos⟩
      exact hfree (by omega)
    case isFalse =>
      split
      · rename_i hpos
        exact hfree hpos
      · exact hclear (by omega)

end

/-! ## Steps -/

section
variable {T : Type} {n : Nat} {s s' : State T n}

variable {page : Fin n} {newState : PageState} {t : T} {q : Pc n}

/-- A page may be moved to where it cannot be taken, or else by someone other than an eraser of it. -/
theorem Erasers.moveToQueue (h : Erasers s)
    (hpage : newState.available = true → ∀ t, s.pc t ≠ .erasing page) :
    Erasers (moveToQueue s page newState) := by
  refine ⟨fun t p ht => ?_, h.alone⟩
  rw [moveToQueue_fState, update_apply]
  split
  · subst p
    cases havail : newState.available with
    | false => rfl
    | true => exact absurd ht (hpage havail t)
  · exact h.taken t p ht

theorem Erasers.not_erasing (h : Erasers s) (hpage : (s.fState page).available = true) (t : T) :
    s.pc t ≠ .erasing page := by
  intro ht
  rw [h.taken t page ht] at hpage
  cases hpage

theorem pagesIn_bootstrap (st : PageState) :
    pagesIn (bootstrap T n) st = if st = .kPageFree then (n : Int) else 0 := by
  simp only [pagesIn, total, bootstrap]
  by_cases hst : st = .kPageFree
  · subst hst
    simp
  · have hst' : ¬ PageState.kPageFree = st := fun h => hst h.symm
    simp [hst, hst']

theorem pagesIn_sum (s : State T n) :
    pagesIn s .kPageFree + pagesIn s .kPageTransition + pagesIn s .kPageActive + pagesIn s .kPageWired
      + pagesIn s .kPageClear = n := by
  unfold pagesIn
  rw [← total_add, ← total_add, ← total_add, ← total_add]
  have hone : (fun x : PageState => (((if x = .kPageFree then (1 : Int) else 0) + (if x = .kPageTransition then 1 else 0)
      + (if x = .kPageActive then 1 else 0)) + (if x = .kPageWired then 1 else 0))
      + (if x = .kPageClear then 1 else 0)) = fun _ => 1 := by
    funext x
    cases x <;> rfl
  rw [hone]
  simp [total]

section
variable [Fintype T]

theorem passed_pos (ht : (s.pc t).passed = true) : 0 < passed s := by
  have hle := le_total (w := fun q : Pc n => if q.passed then 1 else 0) (fun q => by split <;> omega) s.pc t
  simp only [ht, if_true] at hle
  exact hle

theorem inv_bootstrap : Inv (bootstrap T n) := by
  refine ⟨fun st => (pagesIn_bootstrap st).symm, ?_, ?_, Int.natCast_nonneg n, ⟨nofun, nofun⟩⟩
  · intro st _
    by_cases hst : st = .kPageFree
    · subst hst
      refine ⟨List.nodup_finRange n, fun page => ?_⟩
      simp [bootstrap]
    · have hst' : ¬ PageState.kPageFree = st := fun h => hst h.symm
      simp [bootstrap, hst, hst']
  · have hpassed : passed (bootstrap T n) = 0 := total_const_zero fun _ => rfl
    unfold Tokens
    rw [hpassed]
    simp [available, bootstrap]

theorem Inv.moveToQueue (hi : Inv s)
    (hpage : (s.fState page).available = false)
    (herase : newState.available = true → ∀ t, s.pc t ≠ .erasing page) :
    Inv (moveToQueue s page newState) := by
  have htok := hi.tokens
  refine ⟨hi.counted.moveToQueue, hi.queued.moveToQueue, ?_, ?_, hi.erasers.moveToQueue herase⟩
  · unfold Tokens at htok ⊢
    rw [moveToQueue_available, moveToQueue_tokens]
    change _ + passed s = _
    simp only [hpage, Bool.false_eq_true, if_false]
    omega
  · have hnonneg := hi.nonneg
    rw [moveToQueue_tokens]
    split <;> omega

end

variable [DecidableEq T]

@[simp] theorem goto_fState (t : T) (q : Pc n) : (s.goto t q).fState = s.fState := rfl
@[simp] theorem goto_tokens (t : T) (q : Pc n) : (s.goto t q).fFreePagesAvailable = s.fFreePagesAvailable := rfl
@[simp] theorem goto_pc (t : T) (q : Pc n) : (s.goto t q).pc = Function.update s.pc t q := rfl

theorem Erasers.goto (h : Erasers s) (hq : ∀ page, q ≠ .erasing page) :
    Erasers (s.goto t q) := by
  have hpc : ∀ t' page, (s.goto t q).pc t' = .erasing page → s.pc t' = .erasing page := by
    intro t' page ht'
    rw [goto_pc, update_apply] at ht'
    split at ht'
    · exact absurd ht' (hq page)
    · exact ht'
  exact ⟨fun t' page ht' => h.taken t' page (hpc t' page ht'),
    fun t₁ t₂ page h₁ h₂ => h.alone t₁ t₂ page (hpc _ _ h₁) (hpc _ _ h₂)⟩

variable [Fintype T]

theorem passed_goto (t : T) (q : Pc n) :
    passed (s.goto t q) = passed s - (if (s.pc t).passed then 1 else 0) + (if q.passed then 1 else 0) :=
  total_update _ s.pc t q

theorem Inv.wait (hi : Inv s) (h : wait s t q = some s') (hpc : (s.pc t).passed = false)
    (hq : q.passed = true) : Inv s' := by
  obtain ⟨hpos, h⟩ := ite_none_right_eq_some.1 h
  obtain rfl := Option.some.inj h
  have htok := hi.tokens
  refine ⟨hi.counted, hi.queued, ?_, ?_, ?_⟩
  · have hpassed := passed_goto (s := { s with fFreePagesAvailable := s.fFreePagesAvailable - 1 }) t q
    simp only [hpc, hq, if_true, Bool.false_eq_true, if_false] at hpassed
    unfold Tokens at htok ⊢
    rw [hpassed, goto_tokens]
    change s.fFreePagesAvailable - 1 + (passed s - 0 + 1) = available s
    omega
  · rw [goto_tokens]
    change 0 ≤ s.fFreePagesAvailable - 1
    omega
  · refine Erasers.goto ⟨hi.erasers.taken, hi.erasers.alone⟩ ?_
    rintro page rfl
    cases hq

theorem Inv.take (hi : Inv s)
    (hpc : (s.pc t).passed = true) (hq : q.passed = false) (hpage : (s.fState page).available = true)
    (hnew : newState.available = false) (herase : ∀ p, q = .erasing p → p = page) :
    Inv ((Pages.moveToQueue s page newState).goto t q) := by
  have htok := hi.tokens
  have hnot := hi.erasers.not_erasing hpage
  have hmoved : Erasers (Pages.moveToQueue s page newState) := hi.erasers.moveToQueue fun _ => hnot
  refine ⟨hi.counted.moveToQueue, hi.queued.moveToQueue, ?_, ?_, ?_⟩
  · have hpassed := passed_goto (s := Pages.moveToQueue s page newState) t q
    simp only [moveToQueue_pc, hpc, hq, if_true, Bool.false_eq_true, if_false] at hpassed
    have havail := moveToQueue_available s page newState
    simp only [hpage, hnew, if_true, Bool.false_eq_true, if_false] at havail
    have hsem := moveToQueue_tokens s page newState
    simp only [hnew, Bool.false_eq_true, if_false] at hsem
    unfold Tokens at htok ⊢
    rw [hpassed, goto_tokens, hsem]
    change _ + (passed s - 1 + 0) = available (Pages.moveToQueue s page newState)
    rw [havail]
    omega
  · have hsem := moveToQueue_tokens s page newState
    have hnonneg := hi.nonneg
    rw [goto_tokens, hsem]
    split <;> omega
  · by_cases hqe : ∀ p, q ≠ .erasing p
    · exact hmoved.goto hqe
    · simp only [not_forall, not_not] at hqe
      obtain ⟨p, rfl⟩ := hqe
      obtain rfl := herase p rfl
      -- the page could be taken, so the other erasers are at other pages
      have hpc' : ∀ t' p', ((Pages.moveToQueue s p newState).goto t (.erasing p)).pc t' = .erasing p' →
          (t' = t ∧ p' = p) ∨ (t' ≠ t ∧ s.pc t' = .erasing p') := by
        intro t' p' ht'
        rw [goto_pc, moveToQueue_pc, update_apply] at ht'
        split at ht'
        · cases ht'
          exact .inl ⟨‹_›, rfl⟩
        · exact .inr ⟨‹_›, ht'⟩
      constructor
      · intro t' p' ht'
        rw [goto_fState, moveToQueue_fState, update_apply]
        rcases hpc' t' p' ht' with ⟨-, rfl⟩ | ⟨-, ht'⟩
        · rw [if_pos rfl, hnew]
        · split
          · exact hnew
          · exact hi.erasers.taken t' p' ht'
      · intro t₁ t₂ p' h₁ h₂
        rcases hpc' t₁ p' h₁ with ⟨rfl, rfl⟩ | ⟨-, k₁⟩
        · rcases hpc' t₂ p' h₂ with ⟨rfl, -⟩ | ⟨-, k₂⟩
          · rfl
          · exact absurd k₂ (hnot t₂)
        · rcases hpc' t₂ p' h₂ with ⟨-, rfl⟩ | ⟨-, k₂⟩
          · exact absurd k₁ (hnot t₁)
          · exact hi.erasers.alone t₁ t₂ p' k₁ k₂

theorem Inv.erased (hi : Inv s) (ht : s.pc t = .erasing page) :
    Inv ((Pages.moveToQueue s page .kPageClear).goto t .idle) := by
  have htok := hi.tokens
  have htaken := hi.erasers.taken t page ht
  have hsem := moveToQueue_tokens s page .kPageClear
  simp only [PageState.available, if_true] at hsem
  have hcounted : Counted (Pages.moveToQueue s page .kPageClear) := hi.counted.moveToQueue
  have hqueued : Queued (Pages.moveToQueue s page .kPageClear) := hi.queued.moveToQueue
  refine ⟨hcounted, hqueued, ?_, ?_, ?_, ?_⟩
  · have hpassed := passed_goto (s := Pages.moveToQueue s page .kPageClear) t .idle
    simp only [moveToQueue_pc, ht, Pc.passed, Bool.false_eq_true, if_false] at hpassed
    have havail := moveToQueue_available s page .kPageClear
    simp only [htaken, show PageState.kPageClear.available = true from rfl, if_true, Bool.false_eq_true, if_false] at havail
    unfold Tokens at htok ⊢
    rw [hpassed, goto_tokens, hsem]
    change _ + (passed s - 0 + 0) = available (Pages.moveToQueue s page .kPageClear)
    rw [havail]
    omega
  · have hnonneg := hi.nonneg
    rw [goto_tokens, hsem]
    omega
  · intro t' p' ht'
    rw [goto_pc, moveToQueue_pc, update_apply] at ht'
    split at ht'
    · cases ht'
    · rename_i hne
      have hp : p' ≠ page := by
        rintro rfl
        exact hne (hi.erasers.alone t' t p' ht' ht)
      rw [goto_fState, moveToQueue_fState, update_of_ne hp]
      exact hi.erasers.taken t' p' ht'
  · intro t₁ t₂ p' h₁ h₂
    rw [goto_pc, moveToQueue_pc, update_apply] at h₁ h₂
    split at h₁
    · cases h₁
    · split at h₂
      · cases h₂
      · exact hi.erasers.alone t₁ t₂ p' h₁ h₂

theorem Inv.goto (hi : Inv s) (hq : q.passed = (s.pc t).passed)
    (herase : ∀ page, q ≠ .erasing page) : Inv (s.goto t q) := by
  refine ⟨hi.counted, hi.queued, ?_, hi.nonneg, hi.erasers.goto herase⟩
  have htok := hi.tokens
  unfold Tokens at htok ⊢
  rw [passed_goto, hq, goto_tokens]
  change _ = available s
  omega

theorem Inv.giveBack (hi : Inv s) (ht : s.pc t = .eraserGivesBack) :
    Inv ({ s with fFreePagesAvailable := s.fFreePagesAvailable + 1 }.goto t .idle) := by
  have htok := hi.tokens
  have hnonneg := hi.nonneg
  refine ⟨hi.counted, hi.queued, ?_, ?_, Erasers.goto ⟨hi.erasers.taken, hi.erasers.alone⟩ (by simp)⟩
  · have hpassed := passed_goto (s := { s with fFreePagesAvailable := s.fFreePagesAvailable + 1 }) t .idle
    simp only [ht, Pc.passed, if_true, Bool.false_eq_true, if_false] at hpassed
    unfold Tokens at htok ⊢
    rw [hpassed, goto_tokens]
    change s.fFreePagesAvailable + 1 + (passed s - 1 + 0) = available s
    omega
  · change 0 ≤ s.fFreePagesAvailable + 1
    omega

theorem Inv.resume (hi : Inv s) (hstill : stillAvailable s (.resume t)) (h : resume s t = some s') : Inv s' := by
  unfold Pages.resume at h
  cases hpc : s.pc t with
  | idle => rw [hpc] at h; cases h
  | allocWaited clear =>
    simp only [hpc] at h
    obtain ⟨page, hpick, rfl⟩ := map_eq_some_iff.1 h
    exact hi.take (by rw [hpc]; rfl) rfl (pickPage_available hi.queued hpick) rfl (by simp)
  | marking page =>
    simp only [hpc] at h
    exact hi.wait h (by rw [hpc]; rfl) rfl
  | markWaited page =>
    simp only [hpc] at h
    obtain rfl := Option.some.inj h
    exact hi.take (by rw [hpc]; rfl) rfl (hstill page hpc) rfl (by simp)
  | eraserWaited =>
    simp only [hpc] at h
    obtain rfl := Option.some.inj h
    cases hlast : (s.queue .kPageFree).getLast? with
    | none => exact hi.goto (by rw [hpc]; rfl) (by simp)
    | some page =>
      have havail : (s.fState page).available = true := by
        rw [fState_of_getLast hi.queued rfl hlast]
        rfl
      refine hi.take (by rw [hpc]; rfl) rfl havail rfl ?_
      rintro p hp
      cases hp
      rfl
  | eraserGivesBack =>
    simp only [hpc] at h
    obtain rfl := Option.some.inj h
    exact hi.giveBack hpc
  | erasing page =>
    simp only [hpc] at h
    obtain rfl := Option.some.inj h
    exact hi.erased hpc

theorem Inv.step {c : Call T n} (hi : Inv s) (huse : inUse s c) (hnot : notErasing s c) (hstill : stillAvailable s c)
    (h : step s c = some s') : Inv s' := by
  obtain ⟨hlegal, h⟩ := ite_none_right_eq_some.1 h
  cases c with
  | alloc t clear => exact hi.wait h (by rw [show s.pc t = .idle from hlegal]; rfl) rfl
  | pageEraser t => exact hi.wait h (by rw [show s.pc t = .idle from hlegal]; rfl) rfl
  | markUsed t page =>
    obtain rfl := Option.some.inj h
    split
    · exact hi.goto (by rw [show s.pc t = .idle from hlegal]; rfl) (by simp)
    · exact hi
  | resume t => exact hi.resume hstill h
  | free page =>
    obtain rfl := Option.some.inj h
    exact hi.moveToQueue huse fun _ => hnot
  | setBusy page | setNotBusy page | wire page | unwire page | lockPage page =>
    obtain rfl := Option.some.inj h
    exact hi.moveToQueue huse nofun

theorem Inv.right (hi : Inv s) : PagesRight s := by
  refine ⟨hi.counted, ?_, hi.queued, hi.tokens, ?_⟩
  · simp only [hi.counted _]
    exact pagesIn_sum s
  · intro t clear ht
    have hpos : 0 < available s := by
      have htok := hi.tokens
      have hpassed : 0 < passed s := passed_pos (t := t) (by rw [ht]; rfl)
      have hnonneg := hi.nonneg
      unfold Tokens at htok
      omega
    have hsome := pickPage_isSome hi.counted hi.queued hpos clear
    unfold Pages.step
    rw [if_pos (show (Call.resume t).legal s from trivial)]
    simp only [perform, Pages.resume, ht, isSome_map]
    exact hsome

/-- **The accounting of pages.** Where the pages that are moved are in use, no page is freed under the eraser
and the page of `MarkUsed` is not gone, counters, queues and semaphore agree, and `Alloc` never meets an empty
queue. -/
theorem pages_right {s : State T n}
    (h : (system T n).ReachVia (fun s c => inUse s c ∧ notErasing s c ∧ stillAvailable s c) s) : PagesRight s := by
  refine Inv.right (h.invariant Inv ?_ fun _ _ _ hi hP hst => hi.step hP.1 hP.2.1 hP.2.2 hst)
  rintro _ rfl
  exact inv_bootstrap

end

/-! ## Each of the three conditions is needed -/

section
variable {n : Nat}

instance (s : State Bool n) : (c : Call Bool n) → Decidable (inUse s c)
  | .free _ | .setBusy _ | .setNotBusy _ | .wire _ | .unwire _ | .lockPage _ => inferInstanceAs (Decidable (_ = _))
  | .alloc .. | .markUsed .. | .pageEraser _ | .resume _ => .isTrue trivial

instance (s : State Bool n) : (c : Call Bool n) → Decidable (notErasing s c)
  | .free page => inferInstanceAs (Decidable (∀ t, s.pc t ≠ .erasing page))
  | .setBusy _ | .setNotBusy _ | .wire _ | .unwire _ | .lockPage _ | .alloc .. | .markUsed .. | .pageEraser _
  | .resume _ => .isTrue trivial

instance (s : State Bool n) : (c : Call Bool n) → Decidable (stillAvailable s c)
  | .resume t => inferInstanceAs (Decidable (∀ page, s.pc t = .markWaited page → (s.fState page).available = true))
  | .free _ | .setBusy _ | .setNotBusy _ | .wire _ | .unwire _ | .lockPage _ | .alloc .. | .markUsed ..
  | .pageEraser _ => .isTrue trivial

theorem bootstrap_reach (P : State Bool n → Call Bool n → Prop) :
    (system Bool n).ReachVia P (bootstrap Bool n) := .init rfl

end

/-- Both threads take a page, one of them cleared by the eraser and locked again. -/
theorem pages_right_run : ∃ s, (system Bool 3).ReachVia
    (fun s c => inUse s c ∧ notErasing s c ∧ stillAvailable s c) s ∧ PagesRight s ∧
    s.fState 2 = .kPageWired ∧ s.fState 1 = .kPageActive ∧ s.fFreePagesAvailable = 1 := by
  let calls : List (Call Bool 3) := [.markUsed false 2, .resume false, .resume false, .pageEraser true, .resume true,
    .resume true, .alloc false true, .resume false, .setNotBusy 1, .lockPage 1, .free 1, .alloc true false,
    .resume true, .setBusy 1, .setNotBusy 1]
  have hrun : ((system Bool 3).exec (bootstrap Bool 3) calls).map (fun s =>
      decide (s.fState 2 = .kPageWired ∧ s.fState 1 = .kPageActive ∧ s.fFreePagesAvailable = 1)) = some true := by
    decide +kernel
  have hmeets : (system Bool 3).Meets (fun s c => inUse s c ∧ notErasing s c ∧ stillAvailable s c)
      (bootstrap Bool 3) calls := by decide +kernel
  obtain ⟨s, hs, hfacts⟩ := Option.map_eq_some_iff.1 hrun
  have hreach := StepSystem.reachVia_exec calls (bootstrap_reach _) hmeets hs
  exact ⟨s, hreach, pages_right hreach, of_decide_eq_true hfacts⟩

/-- `LockPage` on a clear page leaves its token behind: `Alloc` passes `Wait` and finds both queues empty. -/
theorem lockPage_clear : ¬ ∀ s, (system Bool 1).ReachVia (fun s c => notErasing s c ∧ stillAvailable s c) s →
    PagesRight s := by
  intro h
  let calls : List (Call Bool 1) :=
    [.pageEraser false, .resume false, .resume false, .lockPage 0, .alloc true false]
  have hrun : ((system Bool 1).exec (bootstrap Bool 1) calls).map (fun s =>
      decide (s.pc true = .allocWaited false ∧ (step s (.resume true)).isSome = false)) = some true := by
    decide +kernel
  have hmeets : (system Bool 1).Meets (fun s c => notErasing s c ∧ stillAvailable s c) (bootstrap Bool 1) calls := by
    decide +kernel
  obtain ⟨s, hs, hfacts⟩ := map_eq_some_iff.1 hrun
  obtain ⟨hpc, hstuck⟩ := of_decide_eq_true hfacts
  have hright := h s (StepSystem.reachVia_exec calls (bootstrap_reach _) hmeets hs)
  have hsome := hright.allocs true false hpc
  rw [hstuck] at hsome
  cases hsome

/-- A page freed under the eraser is released twice. -/
theorem free_erasing : ¬ ∀ s, (system Bool 1).ReachVia (fun s c => inUse s c ∧ stillAvailable s c) s →
    PagesRight s := by
  intro h
  let calls : List (Call Bool 1) := [.pageEraser false, .resume false, .free 0, .resume false]
  have hrun : ((system Bool 1).exec (bootstrap Bool 1) calls).map (fun s =>
      decide (s.fFreePagesAvailable + passed s = available s)) = some false := by
    decide +kernel
  have hmeets : (system Bool 1).Meets (fun s c => inUse s c ∧ stillAvailable s c) (bootstrap Bool 1) calls := by
    decide +kernel
  obtain ⟨s, hs, hfacts⟩ := map_eq_some_iff.1 hrun
  exact of_decide_eq_false hfacts (h s (StepSystem.reachVia_exec calls (bootstrap_reach _) hmeets hs)).tokens

/-- A page that `Alloc` took between the test and the `Wait` of `MarkUsed` costs a second token. -/
theorem markUsed_taken : ¬ ∀ s, (system Bool 2).ReachVia (fun s c => inUse s c ∧ notErasing s c) s →
    PagesRight s := by
  intro h
  let calls : List (Call Bool 2) :=
    [.markUsed false 1, .alloc true false, .resume true, .resume false, .resume false]
  have hrun : ((system Bool 2).exec (bootstrap Bool 2) calls).map (fun s =>
      decide (s.fFreePagesAvailable + passed s = available s)) = some false := by
    decide +kernel
  have hmeets : (system Bool 2).Meets (fun s c => inUse s c ∧ notErasing s c) (bootstrap Bool 2) calls := by
    decide +kernel
  obtain ⟨s, hs, hfacts⟩ := map_eq_some_iff.1 hrun
  exact of_decide_eq_false hfacts (h s (StepSystem.reachVia_exec calls (bootstrap_reach _) hmeets hs)).tokens

/-- On their own the calls do not keep the accounting, and no two of the conditions are enough. -/
theorem pages_wrong :
    (¬ ∀ s, (system Bool 1).Reach s → PagesRight s) ∧
    (¬ ∀ s, (system Bool 1).ReachVia (fun s c => notErasing s c ∧ stillAvailable s c) s → PagesRight s) ∧
    (¬ ∀ s, (system Bool 1).ReachVia (fun s c => inUse s c ∧ stillAvailable s c) s → PagesRight s) ∧
    (¬ ∀ s, (system Bool 2).ReachVia (fun s c => inUse s c ∧ notErasing s c) s → PagesRight s) :=
  ⟨fun h => lockPage_clear fun s hs => h s hs.reach, lockPage_clear, free_erasing, markUsed_taken⟩

end Pages
