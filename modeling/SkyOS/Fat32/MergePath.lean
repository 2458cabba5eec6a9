import Mathlib.Order.Lattice
import Mathlib.Tactic.ByContra
import SkyOS.Fat32.SplitPath

/-!
# Merging the parts of a path (`CommonLib/str_util.cpp`)

`MergePath` puts a path together from what `SplitPath` cuts it into. `strrchr` looks at every character of a string but
the first, so a path with nothing but a separator in front of the name has no directory, and the separator goes into the
name.
-/

namespace Fat32

open List

/-- The drive (`str_util.cpp:163`). -/
def mergeDrive : Str → Str
  | [] => []
  | d :: _ => [d, colon]

/-- The directory (:169), with a separator behind it. -/
def mergeDir (path dir : Str) : Str :=
  match dir.getLast? with
  | none => path
  | some last_dir_char =>
    if last_dir_char ≠ slash ∧ last_dir_char ≠ backslash then
      path ++ dir ++ [if dir.contains backslash then backslash else slash]
    else path ++ dir

/-- The extension (:178), with a dot in front of it. -/
def mergeExt (path : Str) : Str → Str
  | [] => path
  | c :: ext => if c ≠ dot then path ++ [dot] ++ c :: ext else path ++ c :: ext

/-- `MergePath` (:160). -/
def mergePath (parts : PathParts) : Str :=
  mergeExt (mergeDir (mergeDrive parts.drive) parts.dir ++ parts.name) parts.ext

/-! ## What it should be -/

def IsSeparator (c : UInt8) : Prop := c = slash ∨ c = backslash
  deriving Decidable

/-- The laws of the parts of `path`. -/
structure SplitsRight (path : Str) (parts : PathParts) : Prop where
  merge : mergePath parts = path
  dir : parts.dir = [] ∨ ∃ a sep, parts.dir = a ++ [sep] ∧ IsSeparator sep
  name : ∀ c ∈ parts.name, ¬ IsSeparator c
  ext : parts.ext = [] ∨ ∃ b, parts.ext = dot :: b ∧ ∀ c ∈ b, c ≠ dot ∧ ¬ IsSeparator c

/-- A drive: a letter or one of the characters between the two alphabets, and a colon. -/
def IsDrive (d c : UInt8) : Prop := (isalpha d ∨ d ∈ [91, 92, 93, 94, 95, 96]) ∧ c = colon
  deriving Decidable

def afterDrive : Str → Str
  | d :: c :: pp => if IsDrive d c then pp else d :: c :: pp
  | pp => pp

def OnlyRoot (pp : Str) : Prop := ∃ sep b, pp = sep :: b ∧ IsSeparator sep ∧ ∀ c ∈ b, ¬ IsSeparator c

/-! ## The last occurrence -/

theorem exists_last_of_mem {p : UInt8 → Prop} [DecidablePred p] {s : Str} (h : ∃ c ∈ s, p c) :
    ∃ a c b, s = a ++ c :: b ∧ p c ∧ ∀ x ∈ b, ¬ p x := by
  induction s with
  | nil => simp at h
  | cons x s ih =>
    by_cases hs : ∃ c ∈ s, p c
    · obtain ⟨a, c, b, rfl, hc, hb⟩ := ih hs
      exact ⟨x :: a, c, b, rfl, hc, hb⟩
    · obtain ⟨c, hmem, hc⟩ := h
      rcases mem_cons.1 hmem with rfl | hmem
      · exact ⟨[], c, s, rfl, hc, fun y hy hp => hs ⟨y, hy, hp⟩⟩
      · exact absurd ⟨c, hmem, hc⟩ hs

theorem exists_last_of_mem_drop {p : UInt8 → Prop} [DecidablePred p] {s : Str} (h : ∃ c ∈ s.drop 1, p c) :
    ∃ a c b, s = a ++ c :: b ∧ a ≠ [] ∧ p c ∧ ∀ x ∈ b, ¬ p x := by
  cases s with
  | nil => simp at h
  | cons x s =>
    obtain ⟨a, c, b, hs, hc, hb⟩ := exists_last_of_mem h
    rw [drop_one, tail_cons] at hs
    exact ⟨x :: a, c, b, by rw [hs, cons_append], cons_ne_nil x a, hc, hb⟩

theorem strrchr_cases (s : Str) {c : UInt8} (hc : c ≠ 0) :
    (∃ a b, s = a ++ c :: b ∧ c ∉ b ∧ strrchr s c = some a.length) ∨ (c ∉ s.drop 1 ∧ strrchr s c = none) := by
  by_cases h : c ∈ s.drop 1
  · obtain ⟨a, x, b, hs, ha, hx, hb⟩ := @exists_last_of_mem_drop (· = c) _ s ⟨c, h, rfl⟩
    have hb' : c ∉ b := fun hmem => hb c hmem rfl
    rw [hx] at hs
    refine .inl ⟨a, b, hs, hb', ?_⟩
    rw [hs]
    exact strrchr_append ha hc hb'
  · exact .inr ⟨h, strrchr_eq_none hc h⟩

variable {sep : UInt8} {drive dir pp path : Str}

variable {a b ext : Str}

theorem maxPtr_strrchr {other : UInt8} (hother : other ≠ 0) (hmem : other ∉ sep :: b) :
    maxPtr (some a.length) (strrchr (a ++ sep :: b) other) = some a.length ∧
      maxPtr (strrchr (a ++ sep :: b) other) (some a.length) = some a.length := by
  rcases strrchr_cases (a ++ sep :: b) hother with ⟨a', b', hsplit, -, hfound⟩ | ⟨-, hnone⟩
  · have hle : a'.length ≤ a.length := by
      by_contra hgt
      have hget : (a ++ sep :: b)[a'.length]? = some other := by
        rw [hsplit, List.getElem?_append_right (le_refl _), Nat.sub_self, List.getElem?_cons_zero]
      rw [List.getElem?_append_right (by omega)] at hget
      exact hmem (List.mem_of_getElem? hget)
    rw [hfound, maxPtr, maxPtr, max_eq_left hle, max_eq_right hle]
    exact ⟨rfl, rfl⟩
  · rw [hnone]
    exact ⟨rfl, rfl⟩

/-! ## The cuts -/

theorem splitDrive_cases (path : Str) :
    ((∃ d, path = d :: colon :: afterDrive path ∧ splitDrive path = ([d, colon], afterDrive path)) ∨
      (path = afterDrive path ∧ splitDrive path = ([], afterDrive path))) := by
  cases path with
  | nil => exact .inr ⟨rfl, rfl⟩
  | cons d pp =>
    cases pp with
    | nil => exact .inr ⟨rfl, rfl⟩
    | cons c pp =>
      by_cases h : IsDrive d c
      · obtain ⟨hd, rfl⟩ := id h
        refine .inl ⟨d, ?_, ?_⟩
        · rw [afterDrive, if_pos h]
        · rw [afterDrive, if_pos h, splitDrive, if_pos (by simpa using hd)]
      · refine .inr ⟨?_, ?_⟩
        · rw [afterDrive, if_neg h]
        · rw [afterDrive, if_neg h, splitDrive, if_neg (by simpa [IsDrive] using h)]

/-- The directory ends with the last separator, unless no separator follows the first character. -/
theorem splitDir_cases (pp : Str) :
    (∃ a sep b, pp = a ++ sep :: b ∧ a ≠ [] ∧ IsSeparator sep ∧ (∀ c ∈ b, ¬ IsSeparator c) ∧
        splitDir pp = (a ++ [sep], b)) ∨
      ((∀ c ∈ pp.drop 1, ¬ IsSeparator c) ∧ splitDir pp = ([], pp)) := by
  by_cases h : ∃ c ∈ pp.drop 1, IsSeparator c
  · obtain ⟨a, sep, b, rfl, ha, hsep, hb⟩ := exists_last_of_mem_drop h
    have hslash : slash ∉ b := fun hmem => hb _ hmem (.inl rfl)
    have hback : backslash ∉ b := fun hmem => hb _ hmem (.inr rfl)
    have hlen : (a ++ [sep]).length = a.length + 1 := by rw [length_append, length_singleton]
    have hcut : a ++ sep :: b = (a ++ [sep]) ++ b := by rw [append_assoc, singleton_append]
    have hmax : maxPtr (strrchr (a ++ sep :: b) backslash) (strrchr (a ++ sep :: b) slash) = some a.length := by
      rcases hsep with rfl | rfl
      · have hother : backslash ∉ slash :: b := by simp [hback]; decide
        rw [@strrchr_append a b slash ha (by decide) hslash]
        exact (maxPtr_strrchr (by decide) hother).2
      · have hother : slash ∉ backslash :: b := by simp [hslash]; decide
        rw [@strrchr_append a b backslash ha (by decide) hback]
        exact (maxPtr_strrchr (by decide) hother).1
    refine .inl ⟨a, sep, b, rfl, ha, hsep, hb, ?_⟩
    rw [splitDir, hmax]
    dsimp only
    rw [hcut, ← hlen, take_left, drop_left]
  · have hnone : ∀ c ∈ pp.drop 1, ¬ IsSeparator c := fun c hc hsep => h ⟨c, hc, hsep⟩
    refine .inr ⟨hnone, ?_⟩
    rw [splitDir, strrchr_eq_none (by decide) fun hmem => hnone _ hmem (.inr rfl),
      strrchr_eq_none (by decide) fun hmem => hnone _ hmem (.inl rfl)]
    rfl

theorem splitName_cases (pp : Str) :
    (∃ a b, pp = a ++ dot :: b ∧ dot ∉ b ∧ splitName pp = (a, dot :: b)) ∨ splitName pp = (pp, []) := by
  obtain ⟨dots, hdots⟩ : ∃ dots, dots = pp.takeWhile (· == dot) := ⟨_, rfl⟩
  obtain ⟨rest, hpp⟩ : ∃ rest, pp = dots ++ rest :=
    ⟨pp.dropWhile (· == dot), by rw [hdots, takeWhile_append_dropWhile]⟩
  have hrest : pp.drop dots.length = rest := by rw [hpp, drop_left]
  unfold splitName
  rw [← hdots]
  dsimp only
  rw [hrest]
  rcases @strrchr_cases rest dot (by decide) with ⟨a, b, hcut, hb, hfound⟩ | ⟨-, hnone⟩
  · refine .inl ⟨dots ++ a, b, ?_, hb, ?_⟩
    · rw [append_assoc, ← hcut, hpp]
    · rw [hfound]
      dsimp only
      rw [hcut, take_left, drop_left]
  · refine .inr ?_
    rw [hnone]
    rw [← hpp]

/-! ## Splitting and merging -/

theorem mergeDrive_eq (h : drive = [] ∨ ∃ d, drive = [d, colon]) : mergeDrive drive = drive := by
  rcases h with rfl | ⟨d, rfl⟩ <;> rfl

theorem mergeDir_eq (path : Str) (h : dir = [] ∨ ∃ a sep, dir = a ++ [sep] ∧ IsSeparator sep) :
    mergeDir path dir = path ++ dir := by
  rcases h with rfl | ⟨a, sep, rfl, hsep⟩
  · exact (append_nil path).symm
  · have hlast : ¬ (sep ≠ slash ∧ sep ≠ backslash) := by
      rintro ⟨hslash, hback⟩
      exact hsep.elim hslash hback
    rw [mergeDir, List.getLast?_concat]
    exact if_neg hlast

theorem mergeExt_eq (path : Str) (h : ext = [] ∨ ∃ b, ext = dot :: b) :
    mergeExt path ext = path ++ ext := by
  rcases h with rfl | ⟨b, rfl⟩
  · exact (append_nil path).symm
  · rw [mergeExt, if_neg (not_not.2 rfl)]

/-- What `MergePath` makes of parts such as `SplitPath` cuts. -/
theorem mergePath_eq {name : Str} (hdrive : drive = [] ∨ ∃ d, drive = [d, colon])
    (hdir : dir = [] ∨ ∃ a sep, dir = a ++ [sep] ∧ IsSeparator sep) (hext : ext = [] ∨ ∃ b, ext = dot :: b) :
    mergePath ⟨drive, dir, name, ext⟩ = drive ++ dir ++ (name ++ ext) := by
  rw [mergePath, mergeDrive_eq hdrive, mergeDir_eq _ hdir, mergeExt_eq _ hext, append_assoc]

/-- The name and the extension have no separator where what they are cut from has none. -/
theorem splitName_plain (h : ∀ c ∈ pp, ¬ IsSeparator c) :
    (∀ c ∈ (splitName pp).1, ¬ IsSeparator c) := by
  rcases splitName_cases pp with ⟨a, b, rfl, -, hsplit⟩ | hsplit
  · rw [hsplit]
    exact fun c hc => h c (mem_append_left _ hc)
  · rw [hsplit]
    exact h

theorem splitName_ext (h : ∀ c ∈ pp.drop 1, ¬ IsSeparator c) :
    (splitName pp).2 = [] ∨ ∃ b, (splitName pp).2 = dot :: b ∧ ∀ c ∈ b, c ≠ dot ∧ ¬ IsSeparator c := by
  rcases splitName_cases pp with ⟨a, b, rfl, hb, hsplit⟩ | hsplit
  · rw [hsplit]
    refine .inr ⟨b, rfl, fun c hc => ⟨fun hdot => hb (hdot ▸ hc), h c ?_⟩⟩
    cases a with
    | nil => exact hc
    | cons x a => exact mem_append_right _ (.tail _ hc)
  · rw [hsplit]
    exact .inl rfl

theorem splitName_append (pp : Str) : (splitName pp).1 ++ (splitName pp).2 = pp := by
  rcases splitName_cases pp with ⟨a, b, rfl, -, hsplit⟩ | hsplit
  · rw [hsplit]
  · rw [hsplit, append_nil]

theorem splitName_sep (hsep : IsSeparator sep) (b : Str) : sep ∈ (splitName (sep :: b)).1 := by
  rcases splitName_cases (sep :: b) with ⟨a, b', hcut, -, hsplit⟩ | hsplit
  · rw [hsplit]
    cases a with
    | nil =>
      obtain ⟨rfl, -⟩ := List.cons.inj hcut
      exact absurd hsep (by decide)
    | cons x a =>
      obtain ⟨rfl, -⟩ := List.cons.inj hcut
      exact .head _
  · rw [hsplit]
    exact .head _

theorem splitPath_eq {rest : Str} (hdrive : splitDrive path = (drive, pp))
    (hdir : splitDir pp = (dir, rest)) :
    splitPath path = ⟨drive, dir, (splitName rest).1, (splitName rest).2⟩ := by
  simp only [splitPath, hdrive, hdir]

theorem drive_append (path : Str) :
    ∃ drive, splitDrive path = (drive, afterDrive path) ∧ path = drive ++ afterDrive path ∧
      (drive = [] ∨ ∃ d, drive = [d, colon]) := by
  rcases splitDrive_cases path with ⟨d, hpath, hsplit⟩ | ⟨hpath, hsplit⟩
  · exact ⟨_, hsplit, hpath, .inr ⟨d, rfl⟩⟩
  · exact ⟨_, hsplit, hpath, .inl rfl⟩

theorem splitsRight_of_dir (hpp : afterDrive path = a ++ sep :: b)
    (hsep : IsSeparator sep) (hb : ∀ c ∈ b, ¬ IsSeparator c) (hdir : splitDir (afterDrive path) = (a ++ [sep], b)) :
    SplitsRight path (splitPath path) := by
  obtain ⟨drive, hsplit, hpath, hdrive⟩ := drive_append path
  have hext := splitName_ext fun c hc => hb c (mem_of_mem_drop hc)
  have hdirText : a ++ [sep] = [] ∨ ∃ a' sep', a ++ [sep] = a' ++ [sep'] ∧ IsSeparator sep' :=
    .inr ⟨a, sep, rfl, hsep⟩
  rw [splitPath_eq hsplit hdir]
  refine ⟨?_, hdirText, splitName_plain hb, hext⟩
  rw [mergePath_eq hdrive hdirText (hext.imp_right (Exists.imp fun _ => And.left)), splitName_append,
    append_assoc, append_assoc, singleton_append, ← hpp]
  exact hpath.symm

theorem splitsRight_of_no_dir (hdir : splitDir (afterDrive path) = ([], afterDrive path))
    (hplain : ∀ c ∈ (afterDrive path).drop 1, ¬ IsSeparator c) :
    SplitsRight path (splitPath path) ↔ ∀ c ∈ (splitName (afterDrive path)).1, ¬ IsSeparator c := by
  obtain ⟨drive, hsplit, hpath, hdrive⟩ := drive_append path
  have hext := splitName_ext hplain
  rw [splitPath_eq hsplit hdir]
  refine ⟨SplitsRight.name, fun hname => ⟨?_, .inl rfl, hname, hext⟩⟩
  rw [mergePath_eq hdrive (.inl rfl) (hext.imp_right (Exists.imp fun _ => And.left)), splitName_append, append_nil]
  exact hpath.symm

/-- Merging gives the path back, and the parts are what they should be, exactly if what follows the drive does not have
its only separator in front. -/
theorem splitsRight_iff (path : Str) : SplitsRight path (splitPath path) ↔ ¬ OnlyRoot (afterDrive path) := by
  rcases splitDir_cases (afterDrive path) with ⟨a, sep, b, hpp, ha, hsep, hb, hdir⟩ | ⟨hplain, hdir⟩
  · refine iff_of_true (splitsRight_of_dir hpp hsep hb hdir) ?_
    rintro ⟨sep', b', hroot, -, hb'⟩
    obtain ⟨x, a, rfl⟩ := List.exists_cons_of_ne_nil ha
    obtain ⟨-, hrest⟩ := List.cons.inj (hpp.symm.trans hroot)
    exact hb' sep (hrest ▸ List.mem_append_right _ List.mem_cons_self) hsep
  · rw [splitsRight_of_no_dir hdir hplain]
    constructor
    · rintro hname ⟨sep, b, hroot, hsep, -⟩
      rw [hroot] at hname
      exact hname sep (splitName_sep hsep b) hsep
    · intro hroot
      refine splitName_plain fun c hc hsep => hroot ?_
      obtain ⟨x, b, hpp⟩ := List.exists_cons_of_ne_nil (List.ne_nil_of_mem hc)
      rw [hpp, List.drop_one, List.tail_cons] at hplain
      rw [hpp] at hc
      rcases List.mem_cons.1 hc with rfl | hmem
      · exact ⟨c, b, hpp, hsep, hplain⟩
      · exact absurd hsep (hplain c hmem)

/-- The name of `c:/x` is `/x`. -/
theorem root_in_name :
    (splitPath [99, 58, 47, 120]).dir = [] ∧ (splitPath [99, 58, 47, 120]).name = [47, 120] ∧
      ¬ SplitsRight [99, 58, 47, 120] (splitPath [99, 58, 47, 120]) := by
  refine ⟨rfl, rfl, fun h => ?_⟩
  exact absurd (h.name 47 (by decide)) (by decide)

end Fat32
