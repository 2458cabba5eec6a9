import Mathlib.Data.List.DropRight
import SkyOS.Vfs.WalkPath

/-!
# Path walking: components and nodes (`FileSystem.cpp`)

Which node a walk comes to is a matter of its components alone: the references it takes and gives back do not show in
it. The slashes of a path divide it; how many there are in one place makes no difference, and the ones at its end are
one more component, `.`.

| here | there |
| --- | --- |
| `comps` | all components of a path |
| `trimmed` | a path without the slashes at its end |
| `step` | one round of the loop of `WalkPath` |
| `walkNodes` | its rounds |
-/

namespace Vfs

open List

/-! ## Components -/

def comps (path : List Char) : List Name := components path.length path

def skipSlashes (path : List Char) : List Char := path.dropWhile fun c => c = '/'

def firstName (path : List Char) : Name := (skipSlashes path).takeWhile fun c => c ≠ '/'

def afterName (path : List Char) : List Char := (skipSlashes path).dropWhile fun c => c ≠ '/'

def trimmed (path : List Char) : List Char := path.rdropWhile fun c => c = '/'

@[simp] theorem comps_nil : comps [] = [] := rfl

@[simp] theorem comps_slash_end : comps ['/'] = [['.']] := rfl

@[simp] theorem skipSlashes_slash (q : List Char) : skipSlashes ('/' :: q) = skipSlashes q := by
  simp [skipSlashes]

theorem skipSlashes_of_ne {c : Char} (hc : c ≠ '/') (q : List Char) : skipSlashes (c :: q) = c :: q := by
  simp [skipSlashes, hc]

variable {path s : List Char} {w : Name}

theorem length_afterName (hpath : path ≠ []) : (afterName path).length < path.length := by
  cases path with
  | nil => exact absurd rfl hpath
  | cons c q =>
    unfold afterName
    by_cases hc : c = '/'
    · subst hc
      have h1 : (skipSlashes q).length ≤ q.length := (dropWhile_sublist _).length_le
      have h2 := (dropWhile_sublist (fun c => decide (c ≠ '/')) (l := skipSlashes q)).length_le
      rw [skipSlashes_slash, length_cons]
      omega
    · have h2 := (dropWhile_sublist (fun c => decide (c ≠ '/')) (l := q)).length_le
      rw [skipSlashes_of_ne hc, dropWhile_cons_of_pos (by simpa using hc), length_cons]
      omega

theorem components_of_ne_nil {rounds : Nat} (hpath : path ≠ []) :
    components (rounds + 1) path =
      (if firstName path = [] then ['.'] else firstName path) :: components rounds (afterName path) := by
  cases path with
  | nil => exact absurd rfl hpath
  | cons c q => rfl

theorem components_eq_comps : ∀ (rounds : Nat) (path : List Char), path.length ≤ rounds →
    components rounds path = comps path := by
  intro rounds
  induction rounds using Nat.strong_induction_on with
  | _ rounds ih =>
    intro path hlen
    by_cases hpath : path = []
    · subst hpath
      cases rounds <;> rfl
    · have hpos : 0 < path.length := length_pos_iff.2 hpath
      have hshort := length_afterName hpath
      obtain ⟨k, rfl⟩ : ∃ k, rounds = k + 1 := ⟨rounds - 1, by omega⟩
      obtain ⟨j, hj⟩ : ∃ j, path.length = j + 1 := ⟨path.length - 1, by omega⟩
      rw [comps, hj, components_of_ne_nil hpath, components_of_ne_nil hpath,
        ih k (by omega) _ (by omega), ih j (by omega) _ (by omega)]

theorem comps_of_ne_nil (hpath : path ≠ []) :
    comps path = (if firstName path = [] then ['.'] else firstName path) :: comps (afterName path) := by
  have hshort := length_afterName hpath
  obtain ⟨j, hj⟩ : ∃ j, path.length = j + 1 := ⟨path.length - 1, by omega⟩
  rw [comps, hj, components_of_ne_nil hpath, components_eq_comps j _ (by omega)]

/-! ## Slashes -/

theorem comps_slash {q : List Char} (hq : q ≠ []) : comps ('/' :: q) = comps q := by
  rw [comps_of_ne_nil (cons_ne_nil _ _), comps_of_ne_nil hq]
  simp [firstName, afterName]

theorem comps_slash_slash (q : List Char) : comps ('/' :: '/' :: q) = comps ('/' :: q) :=
  comps_slash (cons_ne_nil _ _)

theorem comps_slashes {slashes : List Char} (hall : ∀ c ∈ slashes, c = '/') (q : List Char) :
    comps ('/' :: (slashes ++ q)) = comps ('/' :: q) := by
  induction slashes with
  | nil => rfl
  | cons c slashes ih =>
    have hc : c = '/' := hall c (.head _)
    subst hc
    rw [cons_append, comps_slash_slash]
    exact ih fun c hmem => hall c (.tail _ hmem)

theorem skipSlashes_append (hs : skipSlashes s ≠ []) (q : List Char) :
    skipSlashes (s ++ q) = skipSlashes s ++ q := by
  unfold skipSlashes at hs ⊢
  rw [dropWhile_append, if_neg (by simpa using hs)]

theorem takeWhile_name_append (s q : List Char) :
    (s ++ '/' :: q).takeWhile (fun c => decide (c ≠ '/')) = s.takeWhile fun c => c ≠ '/' := by
  induction s with
  | nil => simp
  | cons c s ih =>
    by_cases hc : c = '/'
    · simp [hc]
    · simpa [hc] using ih

theorem dropWhile_name_append (s q : List Char) :
    (s ++ '/' :: q).dropWhile (fun c => decide (c ≠ '/')) = (s.dropWhile fun c => c ≠ '/') ++ '/' :: q := by
  induction s with
  | nil => simp
  | cons c s ih =>
    by_cases hc : c = '/'
    · simp [hc]
    · simpa [hc] using ih

theorem getLast?_of_suffix {rest : List Char} (hsuffix : rest <:+ s) (hlast : s.getLast? ≠ some '/') :
    rest.getLast? ≠ some '/' := by
  obtain ⟨front, rfl⟩ := hsuffix
  intro hrest
  apply hlast
  rw [List.getLast?_append, hrest]
  rfl

theorem skipSlashes_ne_nil (hs : s ≠ []) (hlast : s.getLast? ≠ some '/') : skipSlashes s ≠ [] := by
  intro hskip
  apply hlast
  have hall : ∀ c ∈ s, c = '/' := by simpa [skipSlashes] using hskip
  rw [List.getLast?_eq_some_getLast hs, hall _ (getLast_mem hs)]

theorem comps_append_slash (q : List Char) : ∀ (s : List Char), s.getLast? ≠ some '/' →
    comps (s ++ '/' :: q) = comps s ++ comps ('/' :: q) := by
  intro s
  induction hlen : s.length using Nat.strong_induction_on generalizing s with
  | _ n ih =>
    intro hlast
    by_cases hs : s = []
    · subst hs
      rfl
    · have hskip := skipSlashes_ne_nil hs hlast
      have hname : firstName (s ++ '/' :: q) = firstName s := by
        rw [firstName, skipSlashes_append hskip, takeWhile_name_append]
        rfl
      have hafter : afterName (s ++ '/' :: q) = afterName s ++ '/' :: q := by
        rw [afterName, skipSlashes_append hskip, dropWhile_name_append]
        rfl
      have hsuffix : afterName s <:+ s := (dropWhile_suffix _).trans (dropWhile_suffix _)
      rw [comps_of_ne_nil (by simp), comps_of_ne_nil hs, hname, hafter,
        ih (afterName s).length (hlen ▸ length_afterName hs) (afterName s) rfl (getLast?_of_suffix hsuffix hlast)]
      rfl

theorem trimmed_getLast? (p : List Char) : (trimmed p).getLast? ≠ some '/' := by
  intro hlast
  have hne : trimmed p ≠ [] := by
    intro hnil
    simp [hnil] at hlast
  rw [List.getLast?_eq_some_getLast hne, Option.some.injEq] at hlast
  apply rdropWhile_last_not _ _ hne
  exact decide_eq_true hlast

variable {p : List Char}

theorem trimmed_slashes (hp : p.getLast? = some '/') :
    ∃ slashes : List Char, (∀ c ∈ slashes, c = '/') ∧ p = trimmed p ++ '/' :: slashes := by
  have happend : trimmed p ++ p.rtakeWhile (fun c => c = '/') = p := rdropWhile_append_rtakeWhile
  have hall : ∀ c ∈ p.rtakeWhile (fun c => c = '/'), c = '/' := fun c hc => by simpa using mem_rtakeWhile_imp hc
  cases hs : p.rtakeWhile fun c => c = '/' with
  | nil =>
    rw [hs, append_nil] at happend
    have hlast := trimmed_getLast? p
    rw [happend] at hlast
    exact absurd hp hlast
  | cons c slashes =>
    rw [hs] at happend hall
    obtain rfl : c = '/' := hall c (.head _)
    exact ⟨slashes, fun c hc => hall c (.tail _ hc), happend.symm⟩

theorem comps_behind_slash (hp : p.getLast? = some '/') (q : List Char) :
    comps (p ++ q) = comps (trimmed p) ++ comps ('/' :: q) := by
  obtain ⟨slashes, hall, hsplit⟩ := trimmed_slashes hp
  have happend : p ++ q = trimmed p ++ '/' :: (slashes ++ q) := by
    conv_lhs => rw [hsplit]
    rw [append_assoc, cons_append]
  calc comps (p ++ q) = comps (trimmed p ++ '/' :: (slashes ++ q)) := by rw [happend]
    _ = comps (trimmed p) ++ comps ('/' :: q) := by
        rw [comps_append_slash _ _ (trimmed_getLast? p), comps_slashes hall]

theorem comps_name (hw : w ≠ []) (hslash : '/' ∉ w) : comps w = [w] := by
  have hne : ∀ c ∈ w, c ≠ '/' := fun c hc heq => hslash (heq ▸ hc)
  have hskip : skipSlashes w = w := by
    cases w with
    | nil => rfl
    | cons c w => exact skipSlashes_of_ne (hne c (.head _)) w
  have hname : firstName w = w := by
    rw [firstName, hskip, takeWhile_eq_self_iff]
    simpa using hne
  have hafter : afterName w = [] := by
    rw [afterName, hskip, dropWhile_eq_nil_iff]
    simpa using hne
  rw [comps_of_ne_nil hw, hname, hafter, if_neg hw, comps_nil]

theorem name_getLast? (hslash : '/' ∉ w) : w.getLast? ≠ some '/' :=
  fun hlast => hslash (List.mem_of_getLast? hlast)

theorem comps_name_slash (hw : w ≠ []) (hslash : '/' ∉ w) (q : List Char) :
    comps (w ++ '/' :: q) = w :: comps ('/' :: q) := by
  rw [comps_append_slash q w (name_getLast? hslash), comps_name hw hslash]
  rfl

/-! ## Nodes -/

namespace Mounts

variable {N F : Type} [DecidableEq N] (m : Mounts N F) (lookup : N → Name → Option N)

def step (cur : N) (name : Name) : Option N := (lookup (m.parentSide cur name) name).map m.entered

variable {m} in
theorem parentSide_of_ne {name : Name} (hname : name ≠ ['.', '.']) (cur : N) : m.parentSide cur name = cur :=
  if_neg fun h => hname h.1

def walkNodes (names : List Name) (cur : N) : Option N := names.foldlM (m.step lookup) cur

theorem walkNodes_cons (name : Name) (names : List Name) (cur : N) :
    m.walkNodes lookup (name :: names) cur = (m.step lookup cur name).bind (m.walkNodes lookup names) := by
  simp [walkNodes]
  rfl

theorem walkNodes_append (names names' : List Name) (cur : N) :
    m.walkNodes lookup (names ++ names') cur = (m.walkNodes lookup names cur).bind (m.walkNodes lookup names') := by
  simp [walkNodes]
  rfl

omit [DecidableEq N] in
theorem startNode_congr (currentDir : Option N) {path' : List Char}
    (hslash : path.head? = some '/' ↔ path'.head? = some '/') :
    m.startNode currentDir path = m.startNode currentDir path' := by
  cases currentDir with
  | none => rfl
  | some dir => simp only [startNode, hslash]

theorem walkComponents_nodes : ∀ (names : List Name) (i : Nat) (refs : Refs N) (cur : N),
    (let out := m.walkComponents (fun _ => lookup) i names refs cur
     if out.2.2 then some out.2.1 else none) = m.walkNodes lookup names cur := by
  intro names
  induction names with
  | nil =>
    intro i refs cur
    rfl
  | cons name names ih =>
    intro i refs cur
    rw [walkNodes_cons, step]
    cases hfound : lookup (m.parentSide cur name) name with
    | none =>
      rw [m.walkComponents_none hfound]
      rfl
    | some next =>
      rw [m.walkComponents_some hfound]
      exact ih (i + 1) (m.roundRefs refs cur name next) (m.entered next)

theorem walkPath_node (currentDir : Option N) (path : List Char) (pathLength : Nat) (refs : Refs N) :
    (m.walkPath (fun _ => lookup) currentDir path pathLength refs).2 =
      m.walkNodes lookup (comps (path.take pathLength)) (m.startNode currentDir path) := by
  obtain ⟨refs1, taken, hout, -⟩ := m.walkPath_start (fun _ => lookup) currentDir path pathLength refs
  have hnodes := m.walkComponents_nodes lookup (components pathLength (path.take pathLength)) 0 refs1
    (m.startNode currentDir path)
  rw [hout, ← components_eq_comps pathLength _ (length_take_le _ _), ← hnodes]

/-- **Walks compose**: a path behind another one leads to where it leads from the node that the other one leads to, over
mount points and `..`, whatever the counts are. -/
theorem walkPath_append (currentDir : Option N) {p q : List Char} (hp : p ≠ []) (hlast : p.getLast? ≠ some '/')
    (hq : q ≠ []) (hslash : q.head? ≠ some '/') (refs refs₁ refs₂ : Refs N) :
    (m.walkPath (fun _ => lookup) currentDir (p ++ '/' :: q) (p ++ '/' :: q).length refs).2 =
      (m.walkPath (fun _ => lookup) currentDir p p.length refs₁).2.bind fun dir =>
        (m.walkPath (fun _ => lookup) (some dir) q q.length refs₂).2 := by
  have hstart : m.startNode currentDir (p ++ '/' :: q) = m.startNode currentDir p := by
    refine m.startNode_congr currentDir ?_
    rw [head?_append_of_ne_nil p hp]
  have hrest (dir : N) : m.startNode (some dir) q = dir := if_neg hslash
  simp only [walkPath_node, take_length, hstart, hrest, comps_append_slash q p hlast, comps_slash hq, walkNodes_append]

theorem walkPath_append_bare :
    (bare.walkPath (fun _ cur _ => some (cur + 1)) none ['a', '/', 'b'] 3 ⟨fun _ => 0, fun _ => false⟩).2 =
      (bare.walkPath (fun _ cur _ => some (cur + 1)) none ['a'] 1 ⟨fun _ => 0, fun _ => false⟩).2.bind fun dir =>
        (bare.walkPath (fun _ cur _ => some (cur + 1)) (some dir) ['b'] 1 ⟨fun _ => 1, fun _ => false⟩).2 :=
  walkPath_append bare (fun cur _ => some (cur + 1)) none (p := ['a']) (q := ['b']) (by decide) (by decide) (by decide)
    (by decide) _ _ _

end Mounts

end Vfs
