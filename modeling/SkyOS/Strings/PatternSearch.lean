import Mathlib.Algebra.Group.Nat.Defs
import Mathlib.Tactic.ByContra
import SkyOS.Lib.Wildcard

/-!
# Wildcard search (`CommonLib/str_util.cpp`)

`str_pattern_search` and `PatternSearch` are the same function. At a star it looks at the character of the pattern
behind it, which it takes for a character of its own even if it is a second star, tries every place of the text for it,
the terminator among them, and goes on behind that place. Behind the terminator only one pattern is looked at without
looking at the text: a final star.

| here | there |
| --- | --- |
| `CString.bytes` | the characters in front of the terminator |
| `some t` as a text | a pointer into the string, with `t` from there to the terminator |
| `none` as a text | the pointer behind the terminator |
| `none` as a result | a read behind the terminator |
-/

namespace StrUtil

open Wildcard List

/-- A terminated string; no object is so large that an `int` does not hold its length. -/
structure CString where
  bytes : List UInt8
  noZero : 0 ∉ bytes
  length_lt : bytes.length < 2 ^ 31

def asterisk : UInt8 := 42
def question : UInt8 := 63

/-! ## The code -/

/-- The loop at a star (`str_util.cpp:274`): `c` is the character of the pattern behind the star, `search` the call for
what follows it. -/
def hunt (search : Option (List UInt8) → Option Bool) (c : UInt8) : List UInt8 → Option Bool
  | [] => if 0 = c ∨ c = question then search none else some false
  | x :: src =>
    if x = c ∨ c = question then
      (search (some src)).bind fun found => if found then some true else hunt search c src
    else hunt search c src

def search : List UInt8 → Option (List UInt8) → Option Bool
  | [], src => src.map List.isEmpty
  | c :: pattern, src =>
    if c = asterisk then
      match pattern with
      | [] => some true
      | d :: pattern => src.bind (hunt (search pattern) d)
    else
      src.bind fun
        | [] => some false
        | x :: src => if c = question ∨ c = x then search pattern (some src) else some false

/-- `str_pattern_search` (`str_util.cpp:252`). -/
def str_pattern_search (src pattern : CString) : Option Bool := search pattern.bytes (some src.bytes)

/-- `PatternSearch` (:44). -/
def PatternSearch (szText szPattern : CString) : Option Bool := search szPattern.bytes (some szText.bytes)

/-! ## What it should be -/

def oneToken (c : UInt8) : Token UInt8 := .one (if c = question then none else some c)

def token (c : UInt8) : Token UInt8 := if c = asterisk then .star else oneToken c

/-- What a search for the pattern in the text should return. -/
def SearchRight (text pattern : CString) (r : Option Bool) : Prop :=
  r ≠ none ∧ (r = some true ↔ Matches (pattern.bytes.map token) text.bytes)

/-- The pattern as the code reads it: the character behind a star is not a star, and the last star of a final `*?*` is
enough for all three. -/
def asRead : List UInt8 → List (Token UInt8)
  | [] => []
  | c :: pattern =>
    if c = asterisk then
      match pattern with
      | [] => [.star]
      | d :: pattern => if d = question ∧ pattern = [asterisk] then [.star] else .star :: oneToken d :: asRead pattern
    else oneToken c :: asRead pattern

/-! ## What the search returns -/

theorem search_asterisk (d : UInt8) (pattern : List UInt8) (src : Option (List UInt8)) :
    search (asterisk :: d :: pattern) src = src.bind (hunt (search pattern) d) := by
  cases src <;> rfl

variable {c : UInt8} {M S : Prop}

section

variable (hc : c ≠ asterisk) (pattern : List UInt8)
include hc pattern

theorem search_nil :
    search (c :: pattern) (some []) = some false := by
  cases pattern <;> exact if_neg hc

theorem search_cons (x : UInt8) (src : List UInt8) :
    search (c :: pattern) (some (x :: src)) =
      if c = question ∨ c = x then search pattern (some src) else some false := by
  cases pattern <;> exact if_neg hc

theorem asRead_cons :
    asRead (c :: pattern) = oneToken c :: asRead pattern := by
  cases pattern <;> exact if_neg hc

end

/-- The result for a pattern that matches if `M`, and that reads behind the terminator if not `M` but `S`. -/
noncomputable def verdict (M S : Prop) : Option Bool :=
  open Classical in if M then some true else if S then none else some false

theorem verdict_true (h : M) (S : Prop) : verdict M S = some true := if_pos h

theorem verdict_none (h : ¬ M) (hS : S) : verdict M S = none := by
  rw [verdict, if_neg h, if_pos hS]

theorem verdict_false (h : ¬ M) (hS : ¬ S) : verdict M S = some false := by
  rw [verdict, if_neg h, if_neg hS]

theorem verdict_congr {M' S' : Prop} (hM : M ↔ M') (hS : S ↔ S') : verdict M S = verdict M' S' := by
  rw [propext hM, propext hS]

theorem search_question (c x : UInt8) : (c = question ∨ c = x) ↔ Takes (if c = question then none else some c) x := by
  by_cases h : c = question
  · rw [if_pos h]
    exact iff_of_true (.inl h) (.inl rfl)
  · rw [if_neg h, Takes]
    simp [h]

section Hunt

variable {search : Option (List UInt8) → Option Bool} {M S : List UInt8 → Prop} {c : UInt8}

/-- A place of the text for `c` with something behind it that the rest of the pattern matches. -/
def Place (c : UInt8) (M : List UInt8 → Prop) (t : List UInt8) : Prop :=
  ∃ x b, x :: b <:+ t ∧ (x = c ∨ c = question) ∧ M b

theorem place_cons {x : UInt8} {t : List UInt8} :
    Place c M (x :: t) ↔ ((x = c ∨ c = question) ∧ M t) ∨ Place c M t := by
  constructor
  · rintro ⟨y, b, hsuffix, hy, hb⟩
    rcases suffix_cons_iff.1 hsuffix with heq | hsuffix
    · obtain ⟨rfl, rfl⟩ := List.cons.inj heq
      exact .inl ⟨hy, hb⟩
    · exact .inr ⟨y, b, hsuffix, hy, hb⟩
  · rintro (⟨hx, ht⟩ | ⟨y, b, hsuffix, hy, hb⟩)
    · exact ⟨x, t, suffix_refl _, hx, ht⟩
    · exact ⟨y, b, hsuffix.trans (suffix_cons x t), hy, hb⟩

theorem not_place_nil : ¬ Place c M [] := by
  rintro ⟨x, b, hsuffix, -⟩
  exact absurd (suffix_nil.1 hsuffix) (cons_ne_nil x b)

/-- The loop returns at the first place that matches; the terminator is the last. -/
theorem hunt_eq (hsearch : ∀ b, search (some b) = verdict (M b) (S b)) (hnone : c = question → search none = none)
    (hc : c ≠ 0) (hclosed : ∀ t b, S t → b <:+ t → M b → M t) (t : List UInt8) :
    hunt search c t = verdict (Place c M t) (c = question ∨ Place c S t) := by
  induction t with
  | nil =>
    by_cases hq : c = question
    · rw [hunt, if_pos (.inr hq), hnone hq, verdict_none not_place_nil (.inl hq)]
    · rw [hunt, if_neg (not_or.2 ⟨hc.symm, hq⟩), verdict_false not_place_nil (not_or.2 ⟨hq, not_place_nil⟩)]
  | cons x t ih =>
    by_cases hx : x = c ∨ c = question
    · rw [hunt, if_pos hx, hsearch]
      by_cases hM : M t
      · rw [verdict_true hM, verdict_true (place_cons.2 (.inl ⟨hx, hM⟩))]
        rfl
      · by_cases hS : S t
        · have hplace : ¬ Place c M (x :: t) := by
            rw [place_cons]
            rintro (⟨-, ht⟩ | ⟨y, b, hsuffix, -, hb⟩)
            · exact hM ht
            · exact hM (hclosed t b hS ((suffix_cons y b).trans hsuffix) hb)
          rw [verdict_none hM hS, verdict_none hplace (.inr (place_cons.2 (.inl ⟨hx, hS⟩)))]
          rfl
        · rw [verdict_false hM hS, Option.bind_some, if_neg Bool.false_ne_true, ih]
          refine verdict_congr ?_ ?_
          · rw [place_cons, or_iff_right fun h => hM h.2]
          · rw [place_cons, or_iff_right fun h : _ ∧ S t => hS h.2]
    · rw [hunt, if_neg hx, ih]
      refine verdict_congr ?_ ?_
      · rw [place_cons, or_iff_right fun h => hx h.1]
      · rw [place_cons, or_iff_right fun h : _ ∧ S t => hx h.1]

end Hunt

theorem search_none (pattern : List UInt8) :
    search pattern none = if pattern = [asterisk] then some true else none := by
  cases pattern with
  | nil => rfl
  | cons c pattern =>
    by_cases hc : c = asterisk
    · cases pattern with
      | nil => rw [search, if_pos hc, hc, if_pos rfl]
      | cons d pattern => rw [hc, search_asterisk, if_neg (by simp), Option.bind_none]
    · rw [if_neg (by simp [hc])]
      cases pattern <;> exact if_neg hc

theorem place_iff (d : UInt8) (p : List (Token UInt8)) (t : List UInt8) :
    Place d (Matches p) t ↔ Matches (.star :: oneToken d :: p) t := by
  constructor
  · rintro ⟨x, b, hsuffix, hx, hb⟩
    exact ⟨x :: b, hsuffix, x, b, rfl, (search_question d x).1 (hx.symm.imp_right Eq.symm), hb⟩
  · rintro ⟨_, hsuffix, x, b, rfl, hx, hb⟩
    exact ⟨x, b, hsuffix, ((search_question d x).2 hx).symm.imp_left Eq.symm, hb⟩

theorem starves_iff (d : UInt8) (p : List (Token UInt8)) (t : List UInt8) :
    (d = question ∨ Place d (Starves p) t) ↔ Starves (.star :: oneToken d :: p) t := by
  rw [starves_star]
  refine or_congr ?_ ⟨?_, ?_⟩
  · unfold oneToken
    by_cases hd : d = question <;> simp [hd]
  · rintro ⟨x, b, hsuffix, hx, hb⟩
    exact ⟨x :: b, hsuffix, starves_one.2 ⟨x, b, rfl, (search_question d x).1 (hx.symm.imp_right Eq.symm), hb⟩⟩
  · rintro ⟨b', hsuffix, hb'⟩
    obtain ⟨x, b, rfl, hx, hb⟩ := starves_one.1 hb'
    exact ⟨x, b, hsuffix, ((search_question d x).2 hx).symm.imp_left Eq.symm, hb⟩

theorem search_final (t : List UInt8) : search [asterisk, question, asterisk] (some t) = some true := by
  cases t with
  | nil => rfl
  | cons x t =>
    rw [search_asterisk, Option.bind_some, hunt, if_pos (.inr rfl)]
    rfl

variable {pattern : List UInt8}

/-- The search decides the pattern as it reads it, or is starved. -/
theorem search_eq (h0 : 0 ∉ pattern) (t : List UInt8) :
    search pattern (some t) = verdict (Matches (asRead pattern) t) (Starves (asRead pattern) t) := by
  induction pattern using asRead.induct generalizing t with
  | case1 =>
    cases t with
    | nil => exact (verdict_true rfl _).symm
    | cons x t => exact (verdict_false (cons_ne_nil x t) (not_starves_nil _)).symm
  | case2 =>
    exact (verdict_true (matches_star_self t) _).symm
  | case3 d pattern hfinal =>
    obtain ⟨rfl, rfl⟩ := hfinal
    exact (search_final t).trans (verdict_true (matches_star_self t) _).symm
  | case4 d pattern hfinal ih =>
    have hd : d ≠ 0 := fun hd => h0 (by simp [hd])
    have hpattern : 0 ∉ pattern := fun h => h0 (by simp [h])
    have hnone : d = question → search pattern none = none := fun hq => by
      rw [search_none, if_neg fun hp => hfinal ⟨hq, hp⟩]
    rw [search_asterisk, Option.bind_some, hunt_eq (fun b => ih hpattern b) hnone hd
      fun t b hS hsuffix hM => hS.matches_of_suffix hsuffix hM]
    rw [asRead, if_pos rfl, if_neg hfinal]
    exact verdict_congr (place_iff d _ t) (starves_iff d _ t)
  | case5 c pattern hc ih =>
    have hpattern : 0 ∉ pattern := fun h => h0 (mem_cons_of_mem c h)
    rw [asRead_cons hc]
    cases t with
    | nil =>
      rw [search_nil hc]
      refine (verdict_false ?_ ?_).symm
      · rintro ⟨x, b, hnil, -⟩
        cases hnil
      · rw [oneToken, starves_one]
        rintro ⟨x, b, hnil, -⟩
        cases hnil
    | cons x t =>
      have hiff (P : List UInt8 → Prop) :
          (∃ y b, x :: t = y :: b ∧ Takes (if c = question then none else some c) y ∧ P b) ↔
            (c = question ∨ c = x) ∧ P t := by
        rw [search_question]
        constructor
        · rintro ⟨y, b, heq, hy, hb⟩
          cases heq
          exact ⟨hy, hb⟩
        · exact fun h => ⟨x, t, rfl, h⟩
      have hM : Matches (oneToken c :: asRead pattern) (x :: t) ↔ _ := hiff _
      have hS : Starves (oneToken c :: asRead pattern) (x :: t) ↔ _ := starves_one.trans (hiff _)
      rw [search_cons hc, verdict_congr hM hS]
      by_cases hx : c = question ∨ c = x
      · rw [if_pos hx, ih hpattern]
        exact verdict_congr (and_iff_right hx).symm (and_iff_right hx).symm
      · rw [if_neg hx, verdict_false (fun h => hx h.1) fun h => hx h.1]

/-! ## Where the search is right -/

theorem searchRight_verdict {text pattern : CString} :
    SearchRight text pattern (verdict M S) ↔
      (M ↔ Matches (pattern.bytes.map token) text.bytes) ∧ (M ∨ ¬ S) := by
  unfold SearchRight
  by_cases hM : M
  · rw [verdict_true hM]
    simp [hM]
  · by_cases hS : S
    · rw [verdict_none hM hS]
      simp [hM, hS]
    · rw [verdict_false hM hS]
      simp [hM, hS]

/-- Both functions are right for a text and a pattern exactly if the text matches the pattern and the pattern as the
code reads it, or neither and no star of that can starve a `?` behind it. -/
theorem searchRight_iff (text pattern : CString) :
    (SearchRight text pattern (str_pattern_search text pattern) ∧
        SearchRight text pattern (PatternSearch text pattern)) ↔
      (Matches (asRead pattern.bytes) text.bytes ↔ Matches (pattern.bytes.map token) text.bytes) ∧
        (Matches (asRead pattern.bytes) text.bytes ∨ ¬ Starves (asRead pattern.bytes) text.bytes) := by
  unfold str_pattern_search PatternSearch
  rw [and_self_iff, search_eq pattern.noZero, searchRight_verdict]

/-- No star is followed by a second star or by a `?`. -/
def Plain : List UInt8 → Prop
  | c :: d :: pattern => (c = asterisk → d ≠ asterisk ∧ d ≠ question) ∧ Plain (d :: pattern)
  | _ => True

theorem asRead_of_plain (h : Plain pattern) :
    asRead pattern = pattern.map token ∧ ∀ t, ¬ Starves (asRead pattern) t := by
  induction pattern using asRead.induct with
  | case1 => exact ⟨rfl, not_starves_nil⟩
  | case2 =>
    refine ⟨rfl, fun t hstarves => ?_⟩
    rcases starves_star.1 hstarves with ⟨r, hr⟩ | ⟨b, -, hb⟩
    · cases hr
    · exact not_starves_nil b hb
  | case3 d pattern hfinal => exact absurd hfinal.1 (h.1 rfl).2
  | case4 d pattern hfinal ih =>
    obtain ⟨hasterisk, hquestion⟩ := h.1 rfl
    have hplain : Plain pattern := by
      cases pattern with
      | nil => trivial
      | cons e pattern => exact h.2.2
    obtain ⟨htokens, hstarves⟩ := ih hplain
    rw [asRead, if_pos rfl, if_neg hfinal]
    refine ⟨?_, fun t hstar => ?_⟩
    · rw [map_cons, map_cons, htokens, token, token, if_pos rfl, if_neg hasterisk]
    · rcases starves_star.1 hstar with ⟨r, hr⟩ | ⟨b, -, hb⟩
      · rw [oneToken, if_neg hquestion] at hr
        cases hr
      · obtain ⟨x, b', -, -, hb'⟩ := starves_one.1 hb
        exact hstarves b' hb'
  | case5 c pattern hc ih =>
    have hplain : Plain pattern := by
      cases pattern with
      | nil => trivial
      | cons e pattern => exact h.2
    obtain ⟨htokens, hstarves⟩ := ih hplain
    rw [asRead_cons hc]
    refine ⟨?_, fun t hone => ?_⟩
    · rw [map_cons, htokens, token, if_neg hc]
    · obtain ⟨x, b, -, -, hb⟩ := starves_one.1 hone
      exact hstarves b hb

/-- For a pattern in which no star is followed by a star or a `?`, the search is right for every text. -/
theorem searchRight_of_plain {pattern : CString} (h : Plain pattern.bytes) (text : CString) :
    SearchRight text pattern (str_pattern_search text pattern) := by
  obtain ⟨htokens, hstarves⟩ := asRead_of_plain h
  refine ((searchRight_iff text pattern).2 ⟨by rw [htokens], .inr (hstarves _)⟩).1

theorem searchRight_of_plain_name :
    SearchRight ⟨[97, 98], by decide, by decide⟩ ⟨[42, 98], by decide, by decide⟩
      (str_pattern_search ⟨[97, 98], by decide, by decide⟩ ⟨[42, 98], by decide, by decide⟩) :=
  @searchRight_of_plain ⟨[42, 98], by decide, by decide⟩ ⟨fun _ => by decide, trivial⟩ _

/-- `**` does not match `a`, and `*?` reads behind the end of the empty text. -/
theorem stars_search_wrong :
    (str_pattern_search ⟨[97], by decide, by decide⟩ ⟨[42, 42], by decide, by decide⟩ = some false ∧
        ¬ SearchRight ⟨[97], by decide, by decide⟩ ⟨[42, 42], by decide, by decide⟩
          (str_pattern_search ⟨[97], by decide, by decide⟩ ⟨[42, 42], by decide, by decide⟩)) ∧
      str_pattern_search ⟨[], by decide, by decide⟩ ⟨[42, 63], by decide, by decide⟩ = none := by
  have hrun : str_pattern_search ⟨[97], by decide, by decide⟩ ⟨[42, 42], by decide, by decide⟩ = some false := by decide
  refine ⟨⟨hrun, fun hright => ?_⟩, by decide⟩
  have hmatches : Matches ([42, 42].map token) [(97 : UInt8)] := ⟨_, List.suffix_refl _, matches_star_self _⟩
  have := hright.2.2 hmatches
  rw [hrun] at this
  cases this

end StrUtil
