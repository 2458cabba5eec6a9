import Mathlib.Data.Option.Basic

/-!
# Step systems: runs, reachable states and the invariant rule

A component is a set of initial states and a partial step function: `step s a = none` means that
the call `a` is not enabled in `s`, or that it has no defined result there. `ReachVia P s` says that
a run all of whose steps meet the condition `P` (on the state *before* the step) ends in `s`;
`Reach` is the unconditional case. The one induction over runs is `ReachVia.invariant`.
-/

universe u v

/-- Initial states and a partial, labelled step function. -/
structure StepSystem (σ : Type u) (α : Type v) where
  init : σ → Prop
  step : σ → α → Option σ

namespace StepSystem

open List

variable {σ : Type u} {α : Type v} {M : StepSystem σ α} {P Q : σ → α → Prop}

/-- `s` ends a run from an initial state in which every step meets `P` before it is taken. -/
inductive ReachVia (M : StepSystem σ α) (P : σ → α → Prop) : σ → Prop where
  | init {s : σ} (h : M.init s) : ReachVia M P s
  | step {s s' : σ} {a : α} (h : ReachVia M P s) (hP : P s a) (hs : M.step s a = some s') : ReachVia M P s'

/-- `s` ends some run. -/
def Reach (M : StepSystem σ α) (s : σ) : Prop := M.ReachVia (fun _ _ => True) s

variable {s s' t : σ} {a : α} {G : σ → Prop} {as : List α}

/-- The invariant rule: what holds initially and survives every step that meets `P` holds at the end
of every run whose steps meet `P`. -/
theorem ReachVia.invariant (Inv : σ → Prop) (h0 : ∀ s, M.init s → Inv s)
    (hs : ∀ s a s', Inv s → P s a → M.step s a = some s' → Inv s') (h : M.ReachVia P s) : Inv s := by
  induction h with
  | init h => exact h0 _ h
  | step _ hP hst ih => exact hs _ _ _ ih hP hst

theorem Reach.invariant (Inv : σ → Prop) (h0 : ∀ s, M.init s → Inv s)
    (hs : ∀ s a s', Inv s → M.step s a = some s' → Inv s') (h : M.Reach s) : Inv s :=
  ReachVia.invariant Inv h0 (fun s a s' hi _ => hs s a s' hi) h

theorem ReachVia.mono (hPQ : ∀ s a, P s a → Q s a) (h : M.ReachVia P s) : M.ReachVia Q s :=
  h.invariant (M.ReachVia Q) (fun _ => .init) (fun _ _ _ ih hP hst => .step ih (hPQ _ _ hP) hst)

theorem ReachVia.reach (h : M.ReachVia P s) : M.Reach s := h.mono fun _ _ _ => trivial

theorem Reach.reachVia (hP : ∀ s a s', M.Reach s → M.step s a = some s' → P s a) (h : M.Reach s) :
    M.ReachVia P s := by
  induction h with
  | init h => exact .init h
  | step h _ hst ih => exact .step ih (hP _ _ _ h hst) hst

/-! ## Runs as lists of labels -/

/-- Execute a list of calls; `none` as soon as one of them is not defined. -/
def exec (M : StepSystem σ α) : σ → List α → Option σ
  | s, [] => some s
  | s, a :: as => (M.step s a).bind fun s' => M.exec s' as

theorem exec_cons (s : σ) (a : α) (as : List α) :
    M.exec s (a :: as) = (M.step s a).bind fun s' => M.exec s' as := rfl

theorem exec_concat (s : σ) (as : List α) (a : α) : M.exec s (as ++ [a]) = (M.exec s as).bind fun s' => M.step s' a := by
  induction as generalizing s with
  | nil => simp [exec]
  | cons b as ih =>
    rw [cons_append, exec_cons, exec_cons, Option.bind_assoc]
    exact congrArg _ (funext ih)

/-- Every step of the run `as` from `s` meets `P`. -/
def Meets (M : StepSystem σ α) (P : σ → α → Prop) : σ → List α → Prop
  | _, [] => True
  | s, a :: as => P s a ∧ (M.step s a).elim True fun s' => M.Meets P s' as

instance {o : Option σ} {p : σ → Prop} [∀ s, Decidable (p s)] : Decidable (o.elim True p) :=
  match o with
  | none => .isTrue trivial
  | some s => inferInstanceAs (Decidable (p s))

/-- Whether a run meets a decidable condition can be computed. -/
instance decidableMeets (M : StepSystem σ α) (P : σ → α → Prop) [∀ s a, Decidable (P s a)] :
    (s : σ) → (as : List α) → Decidable (M.Meets P s as)
  | _, [] => .isTrue trivial
  | s, a :: as =>
    have := fun s' => decidableMeets M P s' as
    inferInstanceAs (Decidable (P s a ∧ (M.step s a).elim True fun s' => M.Meets P s' as))

theorem reachVia_exec (as : List α) (h : M.ReachVia P s) (hP : M.Meets P s as)
    (he : M.exec s as = some s') : M.ReachVia P s' := by
  induction as generalizing s with
  | nil => cases he; exact h
  | cons a as ih =>
    rw [exec_cons] at he
    obtain ⟨t, ht, he⟩ := Option.bind_eq_some_iff.1 he
    obtain ⟨ha, hrest⟩ := hP
    rw [ht] at hrest
    exact ih (.step h ha ht) hrest he

theorem meets_of_forall (h : ∀ a ∈ as, ∀ s, P s a) : M.Meets P s as := by
  induction as generalizing s with
  | nil => trivial
  | cons a as ih =>
    refine ⟨h a (.head _) s, ?_⟩
    cases M.step s a with
    | none => trivial
    | some s' => exact ih fun b hb => h b (.tail _ hb)

theorem reach_exec (as : List α) (h : M.Reach s) (he : M.exec s as = some s') : M.Reach s' :=
  reachVia_exec as h (meets_of_forall fun _ _ _ => trivial) he

/-! ## The states on the way -/

theorem exec_of_step (hs : M.step s a = some t) (as : List α) : M.exec s (a :: as) = M.exec t as := by
  rw [exec_cons, hs, Option.bind_some]

theorem meets_of_step (hs : M.step s a = some t) (as : List α) :
    M.Meets P s (a :: as) ↔ P s a ∧ M.Meets P t as := by
  rw [Meets, hs, Option.elim_some]

theorem meets_isSome_iff (s : σ) (as : List α) :
    M.Meets (fun s a => (M.step s a).isSome) s as ↔ (M.exec s as).isSome := by
  induction as generalizing s with
  | nil => exact iff_of_true trivial rfl
  | cons a as ih =>
    cases ht : M.step s a with
    | none => simp [Meets, exec_cons, ht]
    | some t =>
      rw [meets_of_step ht, exec_of_step ht, ih, ht]
      exact and_iff_right rfl

theorem forall_states_nil :
    (∀ before, before <+: [] → ∀ r, M.exec s before = some r → G r) ↔ G s := by
  constructor
  · exact fun h => h [] nil_prefix s rfl
  · intro h before hbefore r hr
    rw [prefix_nil.1 hbefore] at hr
    cases hr
    exact h

theorem forall_states_cons (hs : M.step s a = some t) :
    (∀ before, before <+: a :: as → ∀ r, M.exec s before = some r → G r) ↔
      G s ∧ ∀ before, before <+: as → ∀ r, M.exec t before = some r → G r := by
  constructor
  · refine fun h => ⟨h [] nil_prefix s rfl, fun before hbefore r hr => ?_⟩
    exact h (a :: before) (cons_prefix_cons.2 ⟨rfl, hbefore⟩) r (by rw [exec_of_step hs]; exact hr)
  · rintro ⟨hfirst, hrest⟩ before hbefore r hr
    cases before with
    | nil =>
      cases hr
      exact hfirst
    | cons b before =>
      obtain ⟨rfl, hprefix⟩ := cons_prefix_cons.1 hbefore
      rw [exec_of_step hs] at hr
      exact hrest before hprefix r hr

/-- The rule for a goal that a step keeps exactly when it meets `P`: it holds in every state of a run exactly when every
step of the run meets `P`. -/
theorem forall_states_iff_meets (Inv : σ → Prop) (hinv : ∀ s a t, Inv s → M.step s a = some t → Inv t)
    (hkeep : ∀ s a t, Inv s → G s → M.step s a = some t → (G t ↔ P s a)) (hi : Inv s)
    (hG : G s) (he : M.exec s as = some s') :
    (∀ before, before <+: as → ∀ r, M.exec s before = some r → G r) ↔ M.Meets P s as := by
  induction as generalizing s with
  | nil => exact iff_of_true (forall_states_nil.2 hG) trivial
  | cons a as ih =>
    rw [exec_cons] at he
    obtain ⟨t, ht, hrun⟩ := Option.bind_eq_some_iff.1 he
    rw [forall_states_cons ht, meets_of_step ht]
    constructor
    · rintro ⟨-, hrest⟩
      have ht' : G t := hrest [] nil_prefix t rfl
      exact ⟨(hkeep s a t hi hG ht).1 ht', (ih (hinv s a t hi ht) ht' hrun).1 hrest⟩
    · rintro ⟨hP, hrest⟩
      exact ⟨hG, (ih (hinv s a t hi ht) ((hkeep s a t hi hG ht).2 hP) hrun).2 hrest⟩

variable {R : σ → α → Prop}

/-- The same for what the states of a run satisfy together with what its calls satisfy in the state before, with an
invariant that holds as long as they do. -/
theorem states_and_calls_iff_meets_while (Inv : σ → Prop)
    (hinv : ∀ s a t, Inv s → P s a → G t → M.step s a = some t → Inv t)
    (hkeep : ∀ s a, Inv s → G s → ((R s a ∧ ∀ t, M.step s a = some t → G t) ↔ P s a)) (hi : Inv s)
    (hG : G s) :
    ((∀ before, before <+: as → ∀ r, M.exec s before = some r → G r) ∧ M.Meets R s as) ↔ M.Meets P s as := by
  induction as generalizing s with
  | nil => exact iff_of_true ⟨forall_states_nil.2 hG, trivial⟩ trivial
  | cons a as ih =>
    cases ht : M.step s a with
    | none =>
      have hkeep := hkeep s a hi hG
      rw [ht] at hkeep
      rw [Meets, Meets, ht, ← hkeep]
      constructor
      · exact fun h => ⟨⟨h.2.1, fun _ hnone => nomatch hnone⟩, trivial⟩
      · refine fun h => ⟨fun before hbefore r hr => ?_, h.1.1, trivial⟩
        cases before with
        | nil =>
          cases hr
          exact hG
        | cons b before =>
          obtain ⟨rfl, -⟩ := cons_prefix_cons.1 hbefore
          rw [exec_cons, ht] at hr
          cases hr
    | some t =>
      have hkeep := hkeep s a hi hG
      rw [ht] at hkeep
      rw [forall_states_cons ht, meets_of_step ht, meets_of_step ht, ← hkeep]
      constructor
      · rintro ⟨⟨-, hrest⟩, hcall, hcalls⟩
        have ht' : G t := hrest [] nil_prefix t rfl
        have hnext : ∀ t', some t = some t' → G t' := fun _ he => Option.some.inj he ▸ ht'
        have hP := hkeep.1 ⟨hcall, hnext⟩
        exact ⟨⟨hcall, hnext⟩, (ih (hinv s a t hi hP ht' ht) ht').1 ⟨hrest, hcalls⟩⟩
      · rintro ⟨⟨hcall, hnext⟩, hcalls⟩
        have hP := hkeep.1 ⟨hcall, hnext⟩
        obtain ⟨hrest, hcalls⟩ := (ih (hinv s a t hi hP (hnext t rfl) ht) (hnext t rfl)).2 hcalls
        exact ⟨⟨hG, hrest⟩, hcall, hcalls⟩

/-- The same with an invariant of every run. -/
theorem states_and_calls_iff_meets (Inv : σ → Prop)
    (hinv : ∀ s a t, Inv s → M.step s a = some t → Inv t)
    (hkeep : ∀ s a, Inv s → G s → ((R s a ∧ ∀ t, M.step s a = some t → G t) ↔ P s a)) (hi : Inv s)
    (hG : G s) :
    ((∀ before, before <+: as → ∀ r, M.exec s before = some r → G r) ∧ M.Meets R s as) ↔ M.Meets P s as :=
  states_and_calls_iff_meets_while Inv (fun s a t hi _ _ ht => hinv s a t hi ht) hkeep hi hG

end StepSystem
