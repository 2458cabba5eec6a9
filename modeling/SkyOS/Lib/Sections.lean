import Mathlib.Data.List.Infix

/-!
# Traces of critical sections

What a piece of code does with a critical section that may be nested: it enters, it leaves, and it uses what the section
protects. `depth` runs a trace from a nesting depth and fails where it leaves more often than it has entered or uses
something outside. `Closed` traces come back to the depth at which they began, whatever it is; `Inside` traces need to
be in a section and stay in it.
-/

namespace Sections

open List

inductive Event where
  | enter
  | leave
  | use
deriving DecidableEq, Repr

def depth : Nat → List Event → Option Nat
  | d, [] => some d
  | d, .enter :: es => depth (d + 1) es
  | 0, .leave :: _ => none
  | d + 1, .leave :: es => depth d es
  | 0, .use :: _ => none
  | d + 1, .use :: es => depth (d + 1) es

theorem depth_append (d : Nat) (as bs : List Event) : depth d (as ++ bs) = (depth d as).bind fun d => depth d bs := by
  induction as generalizing d with
  | nil => rfl
  | cons a as ih =>
    cases a with
    | enter => exact ih (d + 1)
    | leave =>
      cases d with
      | zero => rfl
      | succ d => exact ih d
    | use =>
      cases d with
      | zero => rfl
      | succ d => exact ih (d + 1)

def Closed (es : List Event) : Prop := ∀ d, depth d es = some d

/-- Needs a section around it, and ends at the depth at which it began. -/
def Inside (es : List Event) : Prop := ∀ d, depth (d + 1) es = some (d + 1)

variable {es as : List Event}

theorem Closed.inside (h : Closed es) : Inside es := fun d => h (d + 1)

theorem closed_nil : Closed [] := fun _ => rfl

theorem inside_nil : Inside [] := fun _ => rfl

theorem inside_use : Inside [.use] := fun _ => rfl

variable {bs : List Event} {k : Nat}

theorem Closed.append (ha : Closed as) (hb : Closed bs) : Closed (as ++ bs) := fun d => by
  rw [depth_append, ha d]
  exact hb d

theorem Inside.append (ha : Inside as) (hb : Inside bs) : Inside (as ++ bs) := fun d => by
  rw [depth_append, ha d]
  exact hb d

theorem Inside.use (h : Inside es) : Inside (.use :: es) := inside_use.append h

theorem Inside.enclosed (h : Inside es) : Closed (.enter :: es ++ [.leave]) := fun d => by
  rw [cons_append, depth, depth_append, h d]
  rfl

/-! ## In terms of counts -/

/-- Nothing is left that was not entered, and what is protected is used inside only. -/
structure InOrder (es : List Event) : Prop where
  leaves : ∀ p, p <+: es → p.count .leave ≤ p.count .enter
  uses : ∀ p, p ++ [.use] <+: es → p.count .leave < p.count .enter

theorem depth_concat_eq_some_iff {d : Nat} {e : Event} : depth d (es ++ [e]) = some k ↔
    ∃ j, depth d es = some j ∧ depth j [e] = some k := by
  rw [depth_append, Option.bind_eq_some_iff]

theorem count_of_depth (h : depth 0 es = some k) : es.count .enter = es.count .leave + k := by
  induction es using List.reverseRecOn generalizing k with
  | nil => cases h; rfl
  | append_singleton es e ih =>
    obtain ⟨j, hj, hk⟩ := depth_concat_eq_some_iff.1 h
    have hcount := ih hj
    rw [count_append, count_append]
    cases e with
    | enter =>
      cases hk
      simp
      omega
    | leave =>
      cases j with
      | zero => cases hk
      | succ j => cases hk; simp; omega
    | use =>
      cases j with
      | zero => cases hk
      | succ j => cases hk; simp; omega

theorem InOrder.initial (h : InOrder es) (hp : as <+: es) : InOrder as :=
  ⟨fun p hpa => h.leaves p (hpa.trans hp), fun p hpa => h.uses p (hpa.trans hp)⟩

theorem inOrder_iff (es : List Event) : InOrder es ↔ ∃ k, depth 0 es = some k := by
  induction es using List.reverseRecOn with
  | nil =>
    refine iff_of_true ⟨fun p hp => ?_, fun p hp => ?_⟩ ⟨0, rfl⟩
    · rw [prefix_nil.1 hp]
      exact le_refl 0
    · simp at hp
  | append_singleton es e ih =>
    constructor
    · intro h
      obtain ⟨j, hj⟩ := ih.1 (h.initial (prefix_append es [e]))
      have hcount := count_of_depth hj
      cases e with
      | enter => exact ⟨j + 1, depth_concat_eq_some_iff.2 ⟨j, hj, rfl⟩⟩
      | leave =>
        have hall := h.leaves _ (prefix_refl _)
        cases j with
        | zero => simp [count_append] at hall; omega
        | succ j => exact ⟨j, depth_concat_eq_some_iff.2 ⟨j + 1, hj, rfl⟩⟩
      | use =>
        have hall := h.uses _ (prefix_refl _)
        cases j with
        | zero => omega
        | succ j => exact ⟨j + 1, depth_concat_eq_some_iff.2 ⟨j + 1, hj, rfl⟩⟩
    · rintro ⟨k, hk⟩
      obtain ⟨j, hj, he⟩ := depth_concat_eq_some_iff.1 hk
      have hes := ih.2 ⟨j, hj⟩
      have hcount := count_of_depth hj
      have hcount' := count_of_depth hk
      refine ⟨fun p hp => ?_, fun p hp => ?_⟩
      · rcases prefix_concat_iff.1 hp with rfl | hp
        · omega
        · exact hes.leaves p hp
      · rcases prefix_concat_iff.1 hp with heq | hp
        · obtain ⟨rfl, he'⟩ := append_inj' heq rfl
          obtain rfl := singleton_inj.1 he'
          cases j with
          | zero => cases he
          | succ j => omega
        · exact hes.uses p hp

def Balanced (es : List Event) : Prop := InOrder es ∧ es.count .enter = es.count .leave

theorem balanced_iff (es : List Event) : Balanced es ↔ depth 0 es = some 0 := by
  unfold Balanced
  rw [inOrder_iff]
  constructor
  · rintro ⟨⟨k, hk⟩, hcount⟩
    have heq := count_of_depth hk
    obtain rfl : k = 0 := by omega
    exact hk
  · intro h
    have heq := count_of_depth h
    exact ⟨⟨0, h⟩, by omega⟩

theorem Closed.balanced (h : Closed es) : Balanced es := (balanced_iff es).2 (h 0)

end Sections
