import Mathlib.Data.List.GetD

/-!
# Paths and their parts (`CommonLib/str_util.cpp`, `fat32.cpp:319`)

A string is the list of its bytes before the final zero. A buffer that is searched for a separator is the list of all
its bytes, so that a search which meets neither a separator nor a zero runs off its end.

| here | there |
| --- | --- |
| `Component` | a name of the 8.3 form: `name` and `ext`, as a path writes them |
| `Component.fullName` | the 11 characters of the directory entry |
| `Path.text` | the path: a drive letter, the directories and the file |
| `Path.dirText` | what `SplitPath` puts into `Dir` |
-/

namespace Fat32

open List

abbrev Str := List UInt8

def backslash : UInt8 := 92
def slash : UInt8 := 47
def dot : UInt8 := 46
def colon : UInt8 := 58
def space : UInt8 := 32

/-! ## The source -/

/-- The loop of `strrchr`: `i` goes down and stops before 0. -/
def strrchrFrom (string : Str) (character : UInt8) : Nat → Option Nat
  | 0 => none
  | i + 1 => if string.getD (i + 1) 0 = character then some (i + 1) else strrchrFrom string character i

/-- `strrchr` (`string.cpp:336`), as an index. -/
def strrchr (string : Str) (character : UInt8) : Option Nat := strrchrFrom string character string.length

/-- `MaxPtr` (`str_util.cpp:7`); no index is the null pointer. -/
def maxPtr : Option Nat → Option Nat → Option Nat
  | some p1, some p2 => some (max p1 p2)
  | some p1, none => some p1
  | none, p2 => p2

def isalpha (c : UInt8) : Bool := decide (65 ≤ c ∧ c ≤ 90 ∨ 97 ≤ c ∧ c ≤ 122)

/-- The drive (`str_util.cpp:93`) and what follows it. -/
def splitDrive : Str → Str × Str
  | d :: c :: pp => if (isalpha d || [91, 92, 93, 94, 95, 96].contains d) && c == colon then ([d, c], pp) else
    ([], d :: c :: pp)
  | pp => ([], pp)

/-- The directory (`str_util.cpp:102`) and what follows it. -/
def splitDir (pp : Str) : Str × Str :=
  match maxPtr (strrchr pp backslash) (strrchr pp slash) with
  | some pe => (pp.take (pe + 1), pp.drop (pe + 1))
  | none => ([], pp)

/-- The name and the extension (`str_util.cpp:120`); dots at the beginning belong to the name. -/
def splitName (pp : Str) : Str × Str :=
  let dots := pp.takeWhile (· == dot)
  let pp := pp.drop dots.length
  match strrchr pp dot with
  | some pe => (dots ++ pp.take pe, pp.drop pe)
  | none => (dots ++ pp, [])

structure PathParts where
  drive : Str
  dir : Str
  name : Str
  ext : Str

/-- `SplitPath` (`str_util.cpp:79`). -/
def splitPath (path : Str) : PathParts :=
  let (drive, pp) := splitDrive path
  let (dir, pp) := splitDir pp
  let (name, ext) := splitName pp
  { drive, dir, name, ext }

/-- `szFile` (:373): the name filled up with blanks, and the extension without its dot. -/
def szFile (name ext : Str) : Str :=
  if name = [] then []
  else if ext = [] then (name ++ List.replicate (9 - name.length) space).take 9
  else ((name ++ List.replicate (9 - name.length) space).take 8 ++ ext.drop 1).take 12

/-- `SplitFirstDirectory` (:319): the first directory and the separator behind it, which is a pointer into the buffer.
`none` when the search runs off the buffer. -/
def splitFirstDirectory : List UInt8 → Option (Str × Option (List UInt8))
  | [] => none
  | c :: path =>
    if c = 0 then some ([], none)
    else if c = backslash then some ([], some (c :: path))
    else (splitFirstDirectory path).map fun (firstDir, dirSep) => (if dirSep.isSome then c :: firstDir else [], dirSep)

/-! ## Paths of the 8.3 form -/

/-- The characters of a short name: no control character, no blank and none of `"*+,./:;<=>?[\]|`. -/
def Legal (c : UInt8) : Prop := space < c ∧ c ∉ [34, 42, 43, 44, 46, 47, 58, 59, 60, 61, 62, 63, 91, 92, 93, 124]
  deriving Decidable

structure Component where
  name : Str
  ext : Str
  name_pos : 0 < name.length
  name_le : name.length ≤ 8
  ext_le : ext.length ≤ 3
  legal : ∀ c ∈ name ++ ext, Legal c

theorem legal_of_all {s : Str} (h : (s.all fun c => decide (Legal c)) = true) : ∀ c ∈ s, Legal c :=
  fun c hc => of_decide_eq_true (all_eq_true.1 h c hc)

namespace Component

variable (c : Component)

def dotExt : Str := if c.ext = [] then [] else dot :: c.ext

def text : Str := c.name ++ c.dotExt

def fullName : Str :=
  c.name ++ List.replicate (8 - c.name.length) space ++ (c.ext ++ List.replicate (3 - c.ext.length) space)

/-- What `GetDirectoryEntry` looks for when the component is the file. -/
def fileText : Str := szFile c.name c.dotExt

end Component

structure Path where
  drive : UInt8
  drive_alpha : isalpha drive = true
  dirs : List Component
  file : Component

namespace Path

variable (path : Path)

def dirText (dirs : List Component) : Str := dirs.flatMap (fun c => backslash :: c.text) ++ [backslash]

def text : Str := path.drive :: colon :: (dirText path.dirs ++ path.file.text)

def components : List Component := path.dirs ++ [path.file]

end Path

/-! ## Searching strings -/

variable {a : Str} {c : UInt8}

theorem strrchrFrom_append {b : Str} (ha : a ≠ []) (hc : c ≠ 0) (hb : c ∉ b) (k : Nat) :
    strrchrFrom (a ++ c :: b) c (a.length + k) = some a.length := by
  induction k with
  | zero =>
    obtain ⟨i, hi⟩ : ∃ i, a.length = i + 1 := ⟨a.length - 1, by have := length_pos_iff.2 ha; omega⟩
    have hget : (a ++ c :: b).getD (i + 1) 0 = c := by
      rw [← hi]
      simp
    rw [Nat.add_zero, hi, strrchrFrom, if_pos hget]
  | succ k ih =>
    have hget : (a ++ c :: b).getD (a.length + k + 1) 0 ≠ c := by
      rw [getD_append_right _ _ _ _ (by omega), show a.length + k + 1 - a.length = k + 1 by omega,
        getD_cons_succ]
      by_cases hk : k < b.length
      · rw [getD_eq_getElem _ _ hk]
        intro he
        exact hb (he ▸ getElem_mem hk)
      · rw [getD_eq_default _ _ (by omega)]
        exact hc.symm
    rw [← Nat.add_assoc, strrchrFrom, if_neg hget, ih]

theorem strrchr_append {a b : Str} {c : UInt8} (ha : a ≠ []) (hc : c ≠ 0) (hb : c ∉ b) :
    strrchr (a ++ c :: b) c = some a.length := by
  have hlen : (a ++ c :: b).length = a.length + (b.length + 1) := by simp
  rw [strrchr, hlen]
  exact strrchrFrom_append ha hc hb _

theorem strrchr_eq_none (hc : c ≠ 0) (ha : c ∉ a.drop 1) : strrchr a c = none := by
  have hget (i : Nat) : a.getD (i + 1) 0 ≠ c := by
    by_cases hi : i + 1 < a.length
    · rw [getD_eq_getElem _ _ hi]
      intro he
      refine ha (he ▸ ?_)
      rw [mem_iff_getElem]
      exact ⟨i, by simp; omega, by simp⟩
    · rw [getD_eq_default _ _ (by omega)]
      exact hc.symm
  have hall (k : Nat) : strrchrFrom a c k = none := by
    induction k with
    | zero => rfl
    | succ k ih => rw [strrchrFrom, if_neg (hget k), ih]
  exact hall _

theorem splitFirstDirectory_append {first : Str} (h : ∀ c ∈ first, c ≠ 0 ∧ c ≠ backslash) (rest : List UInt8) :
    splitFirstDirectory (first ++ backslash :: rest) = some (first, some (backslash :: rest)) := by
  induction first with
  | nil => rfl
  | cons c first ih =>
    obtain ⟨hzero, hsep⟩ := h c (.head _)
    have htail := ih fun x hx => h x (mem_cons_of_mem c hx)
    simp [splitFirstDirectory, hzero, hsep, htail]

theorem splitFirstDirectory_eq_none {buffer : List UInt8} (h : ∀ c ∈ buffer, c ≠ 0 ∧ c ≠ backslash) :
    splitFirstDirectory buffer = none := by
  induction buffer with
  | nil => rfl
  | cons c buffer ih =>
    obtain ⟨hzero, hsep⟩ := h c (.head _)
    have htail := ih fun x hx => h x (mem_cons_of_mem c hx)
    simp [splitFirstDirectory, hzero, hsep, htail]

/-! ## Names -/

namespace Component

variable {c : Component}

theorem name_ne_nil (c : Component) : c.name ≠ [] := length_pos_iff.1 c.name_pos

variable {x : UInt8}

theorem name_legal (h : x ∈ c.name) : Legal x := c.legal x (mem_append_left _ h)

theorem ext_legal (h : x ∈ c.ext) : Legal x := c.legal x (mem_append_right _ h)

theorem mem_text (h : x ∈ c.text) : Legal x ∨ x = dot := by
  unfold text dotExt at h
  rcases mem_append.1 h with hname | hext
  · exact .inl (name_legal hname)
  · split at hext
    · simp at hext
    · rcases mem_cons.1 hext with rfl | hext
      · exact .inr rfl
      · exact .inl (ext_legal hext)

theorem not_mem_text (hx : ¬ Legal x) (hdot : x ≠ dot) : x ∉ c.text := by
  intro h
  rcases mem_text h with hlegal | rfl
  · exact hx hlegal
  · exact hdot rfl

theorem text_plain (h : x ∈ c.text) : x ≠ 0 ∧ x ≠ backslash := by
  constructor
  · rintro rfl
    exact not_mem_text (by decide) (by decide) h
  · rintro rfl
    exact not_mem_text (by decide) (by decide) h

theorem text_ne_nil (c : Component) : c.text ≠ [] := by
  simp [text, c.name_ne_nil]

theorem length_text_le (c : Component) : c.text.length ≤ 12 := by
  have hname := c.name_le
  have hext := c.ext_le
  unfold text dotExt
  split
  · simp; omega
  · simp; omega

theorem length_dotExt_le (c : Component) : c.dotExt.length ≤ 4 := by
  have hext := c.ext_le
  unfold dotExt
  split
  · simp
  · simp; omega

theorem splitName_text (c : Component) : splitName c.text = (c.name, c.dotExt) := by
  have hnodot : dot ∉ c.name := fun h => absurd (name_legal h) (by decide)
  have hdots : c.text.takeWhile (· == dot) = [] := by
    obtain ⟨x, name, hname⟩ := exists_cons_of_ne_nil c.name_ne_nil
    have hx : x ≠ dot := by
      rintro rfl
      exact hnodot (hname ▸ (.head _))
    simp [text, hname, hx]
  unfold splitName
  simp only [hdots, length_nil, drop_zero, nil_append]
  by_cases hext : c.ext = []
  · have hnone : strrchr c.name dot = none := strrchr_eq_none (by decide) fun h => hnodot (mem_of_mem_drop h)
    simp [text, dotExt, hext, hnone]
  · have hlast : dot ∉ c.ext := fun h => absurd (ext_legal h) (by decide)
    have hsome := strrchr_append c.name_ne_nil (by decide) hlast
    simp [text, dotExt, hext, hsome]

end Component

/-! ## The parts of a path -/

namespace Path

variable (path : Path)

theorem splitDrive_text : splitDrive path.text = ([path.drive, colon], dirText path.dirs ++ path.file.text) := by
  simp [splitDrive, text, path.drive_alpha]

theorem slash_not_mem (dirs : List Component) : slash ∉ dirText dirs := by
  simp only [dirText, mem_append, mem_flatMap, mem_singleton, not_or, not_exists, not_and]
  refine ⟨fun c _ h => ?_, by decide⟩
  rcases mem_cons.1 h with h | h
  · exact absurd h (by decide)
  · exact Component.not_mem_text (by decide) (by decide) h

theorem splitDir_text (file : Component) {dirs : List Component} (h : dirs ≠ []) :
    splitDir (dirText dirs ++ file.text) = (dirText dirs, file.text) := by
  have hslash : strrchr (dirText dirs ++ file.text) slash = none := by
    refine strrchr_eq_none (by decide) fun hmem => ?_
    rcases mem_append.1 (mem_of_mem_drop hmem) with hmem | hmem
    · exact slash_not_mem dirs hmem
    · exact Component.not_mem_text (by decide) (by decide) hmem
  have hfile : backslash ∉ file.text := Component.not_mem_text (by decide) (by decide)
  obtain ⟨c, rest, rfl⟩ := exists_cons_of_ne_nil h
  have hsep : strrchr (dirText (c :: rest) ++ file.text) backslash
      = some ((c :: rest).flatMap fun c => backslash :: c.text).length := by
    rw [dirText, append_assoc, singleton_append]
    exact strrchr_append (by simp) (by decide) hfile
  have hlen : (dirText (c :: rest)).length = ((c :: rest).flatMap fun c => backslash :: c.text).length + 1 := by
    rw [dirText, length_append, length_singleton]
  rw [splitDir, hsep, hslash]
  simp only [maxPtr, ← hlen, take_left, drop_left]

theorem splitPath_text (h : path.dirs ≠ []) :
    splitPath path.text = ⟨[path.drive, colon], dirText path.dirs, path.file.name, path.file.dotExt⟩ := by
  simp only [splitPath, splitDrive_text, splitDir_text path.file h, Component.splitName_text]

theorem splitPath_root (h : path.dirs = []) :
    splitPath path.text
      = ⟨[path.drive, colon], [], (splitName (backslash :: path.file.text)).1,
        (splitName (backslash :: path.file.text)).2⟩ := by
  have hnone (x : UInt8) (hx : ¬ Legal x) (hdot : x ≠ dot) (hzero : x ≠ 0) :
      strrchr (backslash :: path.file.text) x = none :=
    strrchr_eq_none hzero (Component.not_mem_text hx hdot)
  have hdir : splitDir (backslash :: path.file.text) = ([], backslash :: path.file.text) := by
    rw [splitDir, hnone backslash (by decide) (by decide) (by decide), hnone slash (by decide) (by decide) (by decide)]
    rfl
  have htext : dirText path.dirs ++ path.file.text = backslash :: path.file.text := by
    rw [h]
    rfl
  simp only [splitPath, splitDrive_text, htext, hdir]

end Path

end Fat32
