import Mathlib.Data.List.Infix

/-!
# Wildcard patterns

A pattern is a list of tokens: a star stands for any sequence of characters, every other token for exactly one. A
matcher that lets a star take one character after the other, and only then looks whether one is left for the token
behind it, can come to the end of the text with nothing left: `Starves` says for which texts.
-/

namespace Wildcard

/-- `one none` stands for any one character, `one (some a)` for `a`. -/
inductive Token (α : Type*) where
  | star
  | one (c : Option α)
deriving DecidableEq

variable {α : Type*}

def Takes (c : Option α) (x : α) : Prop := c = none ∨ c = some x

instance [DecidableEq α] (c : Option α) (x : α) : Decidable (Takes c x) := inferInstanceAs (Decidable (_ ∨ _))

def Matches : List (Token α) → List α → Prop
  | [], t => t = []
  | .star :: p, t => ∃ b, b <:+ t ∧ Matches p b
  | .one c :: p, t => ∃ x b, t = x :: b ∧ Takes c x ∧ Matches p b

/-- What is in front of some star and the "any" behind it matches with the star taking all that is left of the text. -/
def Starves (p : List (Token α)) (t : List α) : Prop :=
  ∃ q r, p = q ++ .star :: .one none :: r ∧ Matches (q ++ [.star]) t

theorem matches_star_self (t : List α) : Matches [.star] t := ⟨[], List.nil_suffix, rfl⟩

theorem not_starves_nil (t : List α) : ¬ Starves [] t := by
  rintro ⟨q, r, hp, -⟩
  exact absurd hp.symm (by simp)

variable {p : List (Token α)} {t : List α}

theorem starves_one {c : Option α} :
    Starves (.one c :: p) t ↔ ∃ x b, t = x :: b ∧ Takes c x ∧ Starves p b := by
  constructor
  · rintro ⟨q, r, hp, hq⟩
    cases q with
    | nil => cases hp
    | cons a q =>
      obtain ⟨rfl, rfl⟩ := List.cons.inj hp
      obtain ⟨x, b, rfl, hx, hb⟩ := hq
      exact ⟨x, b, rfl, hx, q, r, rfl, hb⟩
  · rintro ⟨x, b, rfl, hx, q, r, rfl, hb⟩
    exact ⟨.one c :: q, r, rfl, x, b, rfl, hx, hb⟩

theorem starves_star :
    Starves (.star :: p) t ↔ (∃ r, p = .one none :: r) ∨ ∃ b, b <:+ t ∧ Starves p b := by
  constructor
  · rintro ⟨q, r, hp, hq⟩
    cases q with
    | nil => exact .inl ⟨r, (List.cons.inj hp).2⟩
    | cons a q =>
      obtain ⟨rfl, rfl⟩ := List.cons.inj hp
      obtain ⟨b, hsuffix, hb⟩ := hq
      exact .inr ⟨b, hsuffix, q, r, rfl, hb⟩
  · rintro (⟨r, rfl⟩ | ⟨b, hsuffix, q, r, rfl, hb⟩)
    · exact ⟨[], r, rfl, matches_star_self t⟩
    · exact ⟨.star :: q, r, rfl, b, hsuffix, hb⟩

/-- Where the pattern can be starved, it matches if it matches some end of the text. -/
theorem Starves.matches_of_suffix {b : List α} (h : Starves p t) (hsuffix : b <:+ t)
    (hb : Matches p b) : Matches p t := by
  induction p generalizing t b with
  | nil => exact absurd h (not_starves_nil t)
  | cons a p ih =>
    cases a with
    | star =>
      obtain ⟨d, hd, hmatches⟩ := hb
      exact ⟨d, hd.trans hsuffix, hmatches⟩
    | one c =>
      obtain ⟨x, s, rfl, hx, hs⟩ := starves_one.1 h
      obtain ⟨y, d, rfl, -, hd⟩ := hb
      have hrest : d <:+ s := by
        rcases List.suffix_cons_iff.1 hsuffix with heq | hsuffix
        · rw [(List.cons.inj heq).2]
        · exact (List.suffix_cons y d).trans hsuffix
      exact ⟨x, s, rfl, hx, ih hs hrest hd⟩

end Wildcard
