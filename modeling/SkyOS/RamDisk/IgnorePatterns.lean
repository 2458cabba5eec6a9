import SkyOS.RamDisk.RamDiskWriter

/-!
# Ignore patterns (`RamDiskWriter.cpp:109`)

Before `WriteRecursive` writes anything it goes through the lines of `.rdignore`. A star stands for any characters, at
the beginning of a pattern or at its end; without one the pattern names one entry of the source folder.

| here | there |
| --- | --- |
| `w` | the bits of `size_t`: 32 in the Win32 configuration, 64 in the other |
| `find` | `std::string::find`, with `npos` when there is no occurrence |
| `skips` | the tests for one pattern (:115-:139) |
| `Matches` | what the patterns stand for |
-/

namespace RamDisk

open List

/-! ## The source -/

def star : UInt8 := 42

section

variable (w : Nat)

/-- `std::string::npos`. -/
def npos : Nat := 2 ^ w - 1

/-- The difference of two values of `size_t`. -/
def subSize (a b : Nat) : Nat := (a + 2 ^ w - b) % 2 ^ w

/-- `s.find(part)`: the least position of an occurrence. -/
def find (s part : Path) : Nat :=
  ((List.range (s.length + 1)).find? fun p => part <+: s.drop p).getD (npos w)

/-- The tests for the pattern `ign`. -/
def skips (basePath path ign : Path) : Bool :=
  (find w ign [star] = 0 && find w path (ign.drop 1) = subSize w path.length (ign.drop 1).length) ||
  (find w ign [star] = subSize w ign.length 1 &&
    find w path (basePath ++ 0x2F :: ign.take (subSize w ign.length 1)) = 0) ||
  basePath ++ 0x2F :: ign = path

/-- The loop over the patterns (:112). -/
def ignored (ignores : List Path) (basePath path : Path) : Bool := ignores.any (skips w basePath path)

end

/-! ## What the patterns stand for -/

/-- At most one star, at the beginning or at the end. -/
def Pattern (ign : Path) : Prop :=
  star ∉ ign ∨ (∃ suffix, star ∉ suffix ∧ ign = star :: suffix) ∨ ∃ front, star ∉ front ∧ ign = front ++ [star]

inductive Matches (basePath path : Path) : Path → Prop
  | suffix {suffix : Path} (h : suffix <:+ path) : Matches basePath path (star :: suffix)
  | front {front : Path} (h : basePath ++ 0x2F :: front <+: path) : Matches basePath path (front ++ [star])
  | whole {ign : Path} (hstar : star ∉ ign) (h : path = basePath ++ 0x2F :: ign) : Matches basePath path ign

/-- The suffix ends the path, but the path has it before as well; and the pattern itself is not the path. -/
def Repeats (basePath path ign : Path) : Prop :=
  (∃ suffix, ign = star :: suffix ∧ suffix ≠ [] ∧ suffix <:+ path ∧
    ∃ before after, after ≠ [] ∧ path = before ++ suffix ++ after) ∧ path ≠ basePath ++ 0x2F :: ign

/-- The suffix has a character more than the path; or the pattern is empty, and the path is that of an entry. -/
def Overlong (basePath path ign : Path) : Prop :=
  (∃ suffix, ign = star :: suffix ∧ suffix.length = path.length + 1) ∨ ign = [] ∧ path ≠ basePath ++ [0x2F]

/-! ## Searching -/

variable {w : Nat} {s part : Path}

theorem find_eq_iff {p : Nat} (hp : p < npos w) :
    find w s part = p ↔ p ≤ s.length ∧ part <+: s.drop p ∧ ∀ q < p, ¬ part <+: s.drop q := by
  unfold find
  cases hfind : (List.range (s.length + 1)).find? fun p => part <+: s.drop p with
  | none =>
    rw [List.find?_range_eq_none] at hfind
    rw [Option.getD_none]
    constructor
    · intro h
      omega
    · rintro ⟨hle, hpre, -⟩
      simpa [hpre] using hfind p (by omega)
  | some q =>
    rw [List.find?_range_eq_some] at hfind
    obtain ⟨hpre, hmem, hfirst⟩ := hfind
    rw [mem_range] at hmem
    rw [Option.getD_some]
    have hfirst' : ∀ j < q, ¬ part <+: s.drop j := fun j hj => by simpa using hfirst j hj
    have hpre' : part <+: s.drop q := by simpa using hpre
    constructor
    · rintro rfl
      exact ⟨by omega, hpre', hfirst'⟩
    · rintro ⟨hle, hpre'', hfirst''⟩
      rcases Nat.lt_trichotomy q p with hlt | heq | hlt
      · exact absurd hpre' (hfirst'' q hlt)
      · exact heq
      · exact absurd hpre'' (hfirst' p hlt)

theorem find_eq_npos_iff (hs : s.length < npos w) : find w s part = npos w ↔ ∀ q ≤ s.length, ¬ part <+: s.drop q := by
  unfold find
  cases hfind : (List.range (s.length + 1)).find? fun p => part <+: s.drop p with
  | none =>
    rw [List.find?_range_eq_none] at hfind
    refine ⟨fun _ q hq => ?_, fun _ => rfl⟩
    simpa using hfind q (by omega)
  | some q =>
    rw [List.find?_range_eq_some, mem_range] at hfind
    obtain ⟨hpre, hmem, -⟩ := hfind
    rw [Option.getD_some]
    constructor
    · intro h
      omega
    · intro h
      exact absurd (by simpa using hpre) (h q (by omega))

theorem find_eq_zero_iff (hw : 0 < npos w) : find w s part = 0 ↔ part <+: s := by
  rw [find_eq_iff hw, drop_zero]
  simp

theorem find_star_cons (hw : 0 < npos w) (suffix : Path) : find w (star :: suffix) [star] = 0 := by
  rw [find_eq_zero_iff hw]
  exact ⟨suffix, rfl⟩

theorem star_prefix_iff : [star] <+: s ↔ ∃ rest, s = star :: rest := by
  constructor
  · rintro ⟨rest, rfl⟩
    exact ⟨rest, rfl⟩
  · rintro ⟨rest, rfl⟩
    exact ⟨rest, rfl⟩

variable {front suffix : Path}

theorem find_star_append (hfront : star ∉ front) (hlen : front.length < npos w) :
    find w (front ++ [star]) [star] = front.length := by
  rw [find_eq_iff hlen]
  refine ⟨by simp, by simp, fun q hq hpre => ?_⟩
  rw [drop_append_of_le_length (Nat.le_of_lt hq), star_prefix_iff] at hpre
  obtain ⟨rest, hrest⟩ := hpre
  rw [drop_eq_getElem_cons hq, cons_append] at hrest
  exact hfront ((List.cons.inj hrest).1 ▸ getElem_mem hq)

theorem find_star_none (hs : star ∉ s) (hlen : s.length < npos w) : find w s [star] = npos w := by
  rw [find_eq_npos_iff hlen]
  intro q hq hpre
  obtain ⟨rest, hrest⟩ := star_prefix_iff.1 hpre
  exact hs (mem_of_mem_drop (hrest ▸ mem_cons_self))

variable {a b : Nat} {path : Path}

theorem subSize_of_le (hb : b ≤ a) (ha : a < npos w) : subSize w a b = a - b := by
  unfold subSize
  unfold npos at ha
  have hsum : a + 2 ^ w - b = a - b + 2 ^ w := by omega
  rw [hsum, Nat.add_mod_right, Nat.mod_eq_of_lt (by omega)]

theorem subSize_of_lt (ha : a < b) (hb : b < npos w) : subSize w a b = 2 ^ w - (b - a) := by
  unfold subSize
  unfold npos at hb
  have hsum : a + 2 ^ w - b = 2 ^ w - (b - a) := by omega
  rw [hsum, Nat.mod_eq_of_lt (by omega)]

/-! ## One pattern -/

/-- A suffix is where the code looks for it exactly if it is nowhere before; one with a character more than the path
is taken for a suffix as well. -/
theorem find_suffix_iff (hpath : path.length < npos w) (hsuffix : suffix.length < npos w) :
    find w path suffix = subSize w path.length suffix.length ↔
      (suffix <:+ path ∧ ∀ q < path.length - suffix.length, ¬ suffix <+: path.drop q) ∨
        suffix.length = path.length + 1 := by
  rcases Nat.lt_or_ge path.length suffix.length with hlong | hle
  · have hnone : find w path suffix = npos w := by
      rw [find_eq_npos_iff hpath]
      intro q hq hpre
      have hlen := hpre.length_le
      rw [length_drop] at hlen
      omega
    rw [hnone, subSize_of_lt hlong hsuffix]
    unfold npos at hsuffix ⊢
    constructor
    · intro h
      exact .inr (by omega)
    · rintro (⟨hsuf, -⟩ | h)
      · have hlen := hsuf.length_le
        omega
      · omega
  · rw [subSize_of_le hle hpath, find_eq_iff (by omega)]
    constructor
    · rintro ⟨-, hpre, hfirst⟩
      refine .inl ⟨?_, hfirst⟩
      have hlen : (path.drop (path.length - suffix.length)).length = suffix.length := by
        rw [length_drop]
        omega
      rw [hpre.eq_of_length hlen.symm]
      exact drop_suffix _ _
    · rintro (⟨hsuf, hfirst⟩ | h)
      · exact ⟨by omega, ⟨[], by rw [append_nil, ← suffix_iff_eq_drop.1 hsuf]⟩, hfirst⟩
      · omega

theorem before_end_iff :
    (∃ before after, after ≠ [] ∧ path = before ++ suffix ++ after) ↔
      ∃ q < path.length - suffix.length, suffix <+: path.drop q := by
  constructor
  · rintro ⟨before, after, hafter, rfl⟩
    have hpos := length_pos_iff.2 hafter
    refine ⟨before.length, by simp; omega, after, ?_⟩
    rw [append_assoc, drop_left]
  · rintro ⟨q, hq, after, hafter⟩
    have hsplit := take_append_drop q path
    rw [← hafter, ← append_assoc] at hsplit
    refine ⟨path.take q, after, ?_, hsplit.symm⟩
    rintro rfl
    have hlen := congrArg List.length hafter
    rw [length_append, length_nil, length_drop] at hlen
    omega

section

variable {basePath path : Path}

theorem cons_eq_append_star (hsuffix : star ∉ suffix) (h : star :: suffix = front ++ [star]) :
    front = [] ∧ suffix = [] := by
  cases front with
  | nil => exact ⟨rfl, (List.cons.inj h).2⟩
  | cons c front =>
    rw [cons_append] at h
    exact absurd ((List.cons.inj h).2 ▸ mem_append_right _ (.head _)) hsuffix

theorem matches_suffix (hsuffix : star ∉ suffix) :
    Matches basePath path (star :: suffix) ↔ suffix <:+ path := by
  constructor
  · intro h
    generalize hign : star :: suffix = ign at h
    cases h with
    | suffix h =>
      rw [(List.cons.inj hign).2]
      exact h
    | front h =>
      obtain ⟨-, rfl⟩ := cons_eq_append_star hsuffix hign
      exact nil_suffix
    | whole hstar h => exact absurd (hign ▸ (.head _)) hstar
  · exact .suffix

theorem matches_front (hfront : star ∉ front) (hne : front ≠ []) :
    Matches basePath path (front ++ [star]) ↔ basePath ++ 0x2F :: front <+: path := by
  constructor
  · intro h
    generalize hign : front ++ [star] = ign at h
    cases h with
    | suffix h =>
      cases front with
      | nil => exact absurd rfl hne
      | cons c front =>
        rw [cons_append] at hign
        exact absurd ((List.cons.inj hign).1 ▸ (.head _)) hfront
    | front h =>
      rw [(append_inj' hign rfl).1]
      exact h
    | whole hstar h => exact absurd (hign ▸ mem_append_right _ (.head _)) hstar
  · exact .front

variable {ign : Path}

theorem matches_whole (hstar : star ∉ ign) :
    Matches basePath path ign ↔ path = basePath ++ 0x2F :: ign := by
  constructor
  · intro h
    cases h with
    | suffix h => exact absurd (.head _) hstar
    | front h => exact absurd (mem_append_right _ (.head _)) hstar
    | whole _ h => exact h
  · exact .whole hstar

theorem Repeats.matches (h : Repeats basePath path ign) : Matches basePath path ign := by
  obtain ⟨⟨suffix, rfl, -, hsuf, -⟩, -⟩ := h
  exact .suffix hsuf

theorem skips_eq_true_iff : skips w basePath path ign = true ↔
    (find w ign [star] = 0 ∧ find w path (ign.drop 1) = subSize w path.length (ign.drop 1).length ∨
      find w ign [star] = subSize w ign.length 1 ∧
        find w path (basePath ++ 0x2F :: ign.take (subSize w ign.length 1)) = 0) ∨
      basePath ++ 0x2F :: ign = path := by
  simp only [skips, Bool.or_eq_true, Bool.and_eq_true, decide_eq_true_eq]

theorem skips_nil (hbelow : basePath ++ [0x2F] <+: path) (hw : 1 < npos w) : skips w basePath path [] = true := by
  have hnone : find w [] [star] = npos w := find_star_none not_mem_nil (Nat.lt_trans Nat.zero_lt_one hw)
  have hsub : subSize w ([] : Path).length 1 = npos w := subSize_of_lt Nat.zero_lt_one hw
  refine skips_eq_true_iff.2 (.inl (.inr ⟨by rw [hnone, hsub], ?_⟩))
  rw [find_eq_zero_iff (Nat.lt_trans Nat.zero_lt_one hw), take_nil]
  exact hbelow

theorem skips_suffix (hbelow : basePath ++ [0x2F] <+: path) (hpath : path.length < npos w)
    (hlen : suffix.length + 1 < npos w) :
    skips w basePath path (star :: suffix) = true ↔
      (suffix <:+ path ∧ ∀ q < path.length - suffix.length, ¬ suffix <+: path.drop q) ∨
        suffix.length = path.length + 1 ∨ suffix = [] ∨ path = basePath ++ 0x2F :: star :: suffix := by
  have hw : 0 < npos w := Nat.lt_of_le_of_lt (Nat.zero_le _) hpath
  have hsub : subSize w (star :: suffix).length 1 = suffix.length := by
    rw [length_cons, subSize_of_le (by omega) hlen, Nat.add_sub_cancel]
  rw [skips_eq_true_iff, find_star_cons hw, hsub, find_eq_zero_iff hw, drop_one, tail_cons,
    find_suffix_iff hpath (by omega)]
  have hnil : 0 = suffix.length ∧ basePath ++ 0x2F :: (star :: suffix).take suffix.length <+: path ↔ suffix = [] := by
    constructor
    · rintro ⟨h0, -⟩
      exact length_eq_zero_iff.1 h0.symm
    · rintro rfl
      exact ⟨rfl, hbelow⟩
  rw [hnil, eq_comm (a := path)]
  tauto

theorem skips_front (hfront : star ∉ front) (hne : front ≠ []) (hpath : path.length < npos w)
    (hlen : front.length + 1 < npos w) :
    skips w basePath path (front ++ [star]) = true ↔ basePath ++ 0x2F :: front <+: path := by
  have hw : 0 < npos w := Nat.lt_of_le_of_lt (Nat.zero_le _) hpath
  have hpos := length_pos_iff.2 hne
  have hsub : subSize w (front ++ [star]).length 1 = front.length := by
    rw [length_append, length_singleton, subSize_of_le (by omega) hlen, Nat.add_sub_cancel]
  rw [skips_eq_true_iff, find_star_append hfront (by omega), hsub, find_eq_zero_iff hw, take_left]
  constructor
  · rintro ((⟨h0, -⟩ | ⟨-, h⟩) | h)
    · omega
    · exact h
    · exact ⟨[star], by rw [← h]; simp⟩
  · intro h
    exact .inl (.inr ⟨rfl, h⟩)

theorem skips_whole (hstar : star ∉ ign) (hne : ign ≠ []) (hlen : ign.length < npos w) :
    skips w basePath path ign = true ↔ path = basePath ++ 0x2F :: ign := by
  have hpos := length_pos_iff.2 hne
  rw [skips_eq_true_iff, find_star_none hstar hlen, subSize_of_le (by omega) hlen]
  constructor
  · rintro ((⟨h0, -⟩ | ⟨h1, -⟩) | h)
    · omega
    · omega
    · exact h.symm
  · intro h
    exact .inr h.symm

theorem skips_suffix_iff (hstar : star ∉ suffix) (hbelow : basePath ++ [0x2F] <+: path)
    (hpath : path.length < npos w) (hlen : suffix.length + 1 < npos w) :
    skips w basePath path (star :: suffix) = true ↔
      Matches basePath path (star :: suffix) ∧ ¬ Repeats basePath path (star :: suffix) ∨
        Overlong basePath path (star :: suffix) := by
  have hrepeats : Repeats basePath path (star :: suffix) ↔
      (suffix ≠ [] ∧ suffix <:+ path ∧ ∃ q < path.length - suffix.length, suffix <+: path.drop q) ∧
        path ≠ basePath ++ 0x2F :: star :: suffix := by
    simp [Repeats, ← before_end_iff]
  have hoverlong : Overlong basePath path (star :: suffix) ↔ suffix.length = path.length + 1 := by
    simp [Overlong]
  rw [skips_suffix hbelow hpath hlen, matches_suffix hstar, hrepeats, hoverlong]
  constructor
  · rintro (⟨hsuf, hfirst⟩ | hlong | hnil | hself)
    · exact .inl ⟨hsuf, fun ⟨⟨_, _, q, hq, hpre⟩, _⟩ => hfirst q hq hpre⟩
    · exact .inr hlong
    · exact .inl ⟨hnil ▸ nil_suffix, fun h => h.1.1 hnil⟩
    · exact .inl ⟨⟨basePath ++ [0x2F, star], by simp [hself]⟩, fun h => h.2 hself⟩
  · rintro (⟨hsuf, hnot⟩ | hlong)
    · by_cases hnil : suffix = []
      · exact .inr (.inr (.inl hnil))
      · by_cases hself : path = basePath ++ 0x2F :: star :: suffix
        · exact .inr (.inr (.inr hself))
        · exact .inl ⟨hsuf, fun q hq hpre => hnot ⟨⟨hnil, hsuf, q, hq, hpre⟩, hself⟩⟩
    · exact .inr (.inl hlong)

/-- **One pattern**, for the path of an entry below the source folder. -/
theorem skips_iff (hign : Pattern ign) (hbelow : basePath ++ [0x2F] <+: path)
    (hpath : path.length < npos w) (hlen : ign.length < npos w) :
    skips w basePath path ign = true ↔
      Matches basePath path ign ∧ ¬ Repeats basePath path ign ∨ Overlong basePath path ign := by
  have hno {front : Path} (hfront : star ∉ front) (hne : front ≠ []) (rest suffix : Path) :
      front ++ rest ≠ star :: suffix := by
    intro h
    cases front with
    | nil => exact hne rfl
    | cons c front => exact hfront ((List.cons.inj h).1 ▸ (.head _))
  rcases hign with hstar | ⟨suffix, hstar, rfl⟩ | ⟨front, hstar, rfl⟩
  · by_cases hne : ign = []
    · subst hne
      have hpos : 1 ≤ path.length := by
        have hle := hbelow.length_le
        rw [length_append, length_singleton] at hle
        omega
      rw [skips_nil hbelow (Nat.lt_of_le_of_lt hpos hpath), matches_whole hstar]
      by_cases hsame : path = basePath ++ [0x2F]
      · simp [Repeats, hsame]
      · simp [Overlong, hsame]
    · have hno' := hno hstar hne []
      rw [append_nil] at hno'
      rw [skips_whole hstar hne hlen, matches_whole hstar]
      simp [Repeats, Overlong, hno', hne]
  · exact skips_suffix_iff hstar hbelow hpath hlen
  · rw [length_append, length_singleton] at hlen
    by_cases hne : front = []
    · subst hne
      exact skips_suffix_iff hstar hbelow hpath hlen
    · rw [skips_front hstar hne hpath hlen, matches_front hstar hne]
      simp [Repeats, Overlong, hno hstar hne]

/-! ## All patterns -/

/-- **Ignore patterns.** An entry is skipped exactly when a pattern matches it, if one matches it whose suffix the path
does not repeat; otherwise if the patterns that skip too much and those that skip too little are there both or not at
all. -/
theorem ignored_right_iff (w : Nat) (ignores : List Path) (basePath rest : Path)
    (hign : ∀ ign ∈ ignores, Pattern ign) (hpath : (basePath ++ 0x2F :: rest).length < npos w)
    (hlen : ∀ ign ∈ ignores, ign.length < npos w) :
    (ignored w ignores basePath (basePath ++ 0x2F :: rest) = true ↔
        ∃ ign ∈ ignores, Matches basePath (basePath ++ 0x2F :: rest) ign) ↔
      (∃ ign ∈ ignores, Matches basePath (basePath ++ 0x2F :: rest) ign ∧
          ¬ Repeats basePath (basePath ++ 0x2F :: rest) ign) ∨
        ((∃ ign ∈ ignores, Overlong basePath (basePath ++ 0x2F :: rest) ign) ↔
          ∃ ign ∈ ignores, Repeats basePath (basePath ++ 0x2F :: rest) ign) := by
  have hbelow : basePath ++ [0x2F] <+: basePath ++ 0x2F :: rest := ⟨rest, by simp⟩
  generalize basePath ++ 0x2F :: rest = path at hbelow hpath ⊢
  have hcode : ignored w ignores basePath path = true ↔
      (∃ ign ∈ ignores, Matches basePath path ign ∧ ¬ Repeats basePath path ign) ∨
        ∃ ign ∈ ignores, Overlong basePath path ign := by
    rw [ignored, List.any_eq_true, ← exists_or]
    refine exists_congr fun ign => ?_
    rw [← and_or_left]
    exact and_congr_right fun hmem => skips_iff (hign ign hmem) hbelow hpath (hlen ign hmem)
  have hmatch : (∃ ign ∈ ignores, Matches basePath path ign) ↔
      (∃ ign ∈ ignores, Matches basePath path ign ∧ ¬ Repeats basePath path ign) ∨
        ∃ ign ∈ ignores, Repeats basePath path ign := by
    constructor
    · rintro ⟨ign, hmem, h⟩
      by_cases hrepeats : Repeats basePath path ign
      · exact Or.inr ⟨ign, hmem, hrepeats⟩
      · exact Or.inl ⟨ign, hmem, h, hrepeats⟩
    · rintro (⟨ign, hmem, h, -⟩ | ⟨ign, hmem, h⟩)
      · exact ⟨ign, hmem, h⟩
      · exact ⟨ign, hmem, h.matches⟩
  rw [hcode, hmatch]
  generalize (∃ ign ∈ ignores, Matches basePath path ign ∧ ¬ Repeats basePath path ign) = good
  generalize (∃ ign ∈ ignores, Overlong basePath path ign) = tooMuch
  generalize (∃ ign ∈ ignores, Repeats basePath path ign) = tooLittle
  by_cases hgood : good
  · simp [hgood]
  · simp [hgood]

/-- `*.o` and the entry `a.o` of the folder `s`. -/
theorem ignored_right_object : ignored 32 [[star, 46, 111]] [115] [115, 0x2F, 97, 46, 111] = true ↔
    ∃ ign ∈ [[star, 46, 111]], Matches [115] [115, 0x2F, 97, 46, 111] ign := by
  have hpattern : Pattern [star, 46, 111] := Or.inr (Or.inl ⟨[46, 111], by decide, rfl⟩)
  refine (ignored_right_iff 32 _ [115] [97, 46, 111] (by simpa using hpattern) (by decide) (by decide)).2
    (Or.inl ⟨_, List.mem_singleton.2 rfl, .suffix ⟨[115, 0x2F, 97], rfl⟩, ?_⟩)
  rintro ⟨⟨suffix, h, -, -, hbefore⟩, -⟩
  obtain rfl := (List.cons.inj h).2
  rw [before_end_iff] at hbefore
  revert hbefore
  decide

/-- `*o` does not skip `oo`: the suffix is found at the `o` before the last one. -/
theorem ignored_misses : ¬ ∀ (w : Nat) (ignores : List Path) (basePath rest : Path), (∀ ign ∈ ignores, Pattern ign) →
    (basePath ++ 0x2F :: rest).length < npos w → (∀ ign ∈ ignores, ign.length < npos w) →
    (ignored w ignores basePath (basePath ++ 0x2F :: rest) = true ↔
      ∃ ign ∈ ignores, Matches basePath (basePath ++ 0x2F :: rest) ign) := by
  intro h
  have hpattern : Pattern [star, 111] := Or.inr (Or.inl ⟨[111], by decide, rfl⟩)
  have hskipped := (h 32 [[star, 111]] [115] [111, 111] (by simpa using hpattern) (by decide) (by decide)).2
    ⟨_, List.mem_singleton.2 rfl, .suffix ⟨[115, 0x2F, 111], rfl⟩⟩
  revert hskipped
  decide

end

end RamDisk
