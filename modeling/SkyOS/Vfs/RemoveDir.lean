import SkyOS.Vfs.RootFS

/-!
# Removal of a directory (`RootFS.cpp:161`)

What a removal does to the lookups. A directory that is removed and not referred to is deleted at once, even if one that
was removed from it before is still referred to: `..` of that one then leads to the deleted directory.

| here | there |
| --- | --- |
| `found` | what `Lookup` finds; `none` where a deleted directory is followed |
| `Follows` | a lookup in the directory can be made after the call |
| `RemovalRight` | what `RemoveDir` is to do |
| `RemovalSuits` | the calls that do it |
-/

namespace RootFs

open Machine

namespace RootFileSystem

/-! ## What is asked of a removal -/

def found (fs : RootFileSystem) (dir : Nat) (name : Name) : Option (Option Nat) :=
  if (fs.nodes dir).deleted then none
  else
    match fs.FindEntry dir name with
    | some entry => if (fs.nodes entry).deleted then none else some (some entry)
    | none => some none

/-- Somebody has a reference to the directory, or it is not deleted. -/
def Follows (fs fs' : RootFileSystem) (dir : Nat) : Prop :=
  dir < fs.next ∧ (0 < (fs.nodes dir).held ∨ (fs'.nodes dir).deleted = false)

def HasEmpty (fs : RootFileSystem) (dir : Nat) (name : Name) : Prop :=
  ∃ entry ∈ (fs.nodes dir).fEntryList, (fs.nodes entry).fName = name ∧ (fs.nodes entry).fEntryList = []

/-- `RemoveDir`, and `MakeDir` with `RemoveDir` behind it. -/
structure RemovalRight (fs : RootFileSystem) (dir : Nat) (name : Name) : Prop where
  succeeds : (∃ fs', fs.RemoveDir dir name = some (.E_NO_ERROR, fs')) ↔ fs.HasEmpty dir name
  removes : ∀ fs', fs.RemoveDir dir name = some (.E_NO_ERROR, fs') → fs'.found dir name = some none ∧
    ∀ d, fs.Follows fs' d → ∀ name', (d, name') ≠ (dir, name) → fs'.found d name' = fs.found d name'
  fails : (∀ fs', fs.RemoveDir dir name ≠ some (.E_NO_ERROR, fs')) → ∃ status, fs.RemoveDir dir name = some (status, fs)
  restores : fs.FindEntry dir name = none → ∃ r, (fs.MakeDir dir name).2.RemoveDir dir name = some r ∧
    ∀ d, fs.Follows r.2 d → ∀ name', r.2.found d name' = fs.found d name'

/-- If it is counted as unreferenced nobody has a reference, and it is not the parent of a directory that was removed
from it. -/
def Unreferenced (fs : RootFileSystem) (entry : Nat) : Prop :=
  (fs.nodes entry).fRefCount = 0 →
    (fs.nodes entry).held = 0 ∧ ∀ n < fs.next, (fs.nodes n).deleted = false → (fs.nodes n).fParentDir ≠ entry

/-- What is removed is unreferenced; and a name with a zero that is not found is found up to its first one. -/
def RemovalSuits (fs : RootFileSystem) (dir : Nat) (name : Name) : Prop :=
  (∀ entry ∈ fs.FindEntry dir name, (fs.nodes entry).fEntryList = [] → fs.Unreferenced entry) ∧
    (fs.FindEntry dir name = none → 0 ∈ name → fs.FindEntry dir (stored name) ≠ none)

instance (fs : RootFileSystem) (entry : Nat) : Decidable (fs.Unreferenced entry) :=
  inferInstanceAs (Decidable (_ → _ ∧ ∀ n, n < fs.next → _ → _ ≠ _))

instance (fs : RootFileSystem) (dir : Nat) (name : Name) : Decidable (fs.RemovalSuits dir name) :=
  inferInstanceAs (Decidable ((∀ entry ∈ fs.FindEntry dir name, _ → _) ∧ (_ → _ → _ ≠ none)))

/-! ## What is found -/

variable {dir d : Nat} {fs : RootFileSystem} {name name' : Name}

theorem findEntry_dotdot (fs : RootFileSystem) (dir : Nat) : fs.FindEntry dir dotdot = some (fs.nodes dir).fParentDir :=
  rfl

theorem found_of_some {entry : Nat} (hlive : (fs.nodes dir).deleted = false)
    (hentry : fs.FindEntry dir name = some entry) :
    fs.found dir name = if (fs.nodes entry).deleted then none else some (some entry) := by
  rw [found, hlive, if_neg Bool.false_ne_true, hentry]

theorem found_of_none (hlive : (fs.nodes dir).deleted = false)
    (hnone : fs.FindEntry dir name = none) : fs.found dir name = some none := by
  rw [found, hlive, if_neg Bool.false_ne_true, hnone]

theorem found_congr {fs' : RootFileSystem}
    (hdir : (fs'.nodes dir).deleted = (fs.nodes dir).deleted)
    (hfind : fs'.FindEntry dir name = fs.FindEntry dir name)
    (hentry : ∀ entry, fs.FindEntry dir name = some entry → (fs'.nodes entry).deleted = (fs.nodes entry).deleted) :
    fs'.found dir name = fs.found dir name := by
  unfold found
  rw [hdir, hfind]
  cases hfound : fs.FindEntry dir name with
  | none => rfl
  | some entry =>
    dsimp only
    rw [hentry entry hfound]

/-! ## The directory that is removed -/

def without (fs : RootFileSystem) (entry : Nat) : RootFileSystem :=
  if (fs.nodes entry).fRefCount = 0 then
    ((fs.unlink entry).MakeDead entry).modify entry fun node => { node with deleted := true }
  else (fs.unlink entry).MakeDead entry

section

variable (fs : RootFileSystem) (entry i : Nat)

theorem without_fName : ((fs.without entry).nodes i).fName = (fs.nodes i).fName := by
  have hdead : (((fs.unlink entry).MakeDead entry).nodes i).fName = (fs.nodes i).fName :=
    (fs.unlink entry).modify_keep RootDir.fName entry i rfl
  unfold without
  split
  · exact (modify_keep RootDir.fName _ entry i rfl).trans hdead
  · exact hdead

theorem without_fParentDir : ((fs.without entry).nodes i).fParentDir = (fs.nodes i).fParentDir := by
  have hdead : (((fs.unlink entry).MakeDead entry).nodes i).fParentDir = (fs.nodes i).fParentDir :=
    (fs.unlink entry).modify_keep RootDir.fParentDir entry i rfl
  unfold without
  split
  · exact (modify_keep RootDir.fParentDir _ entry i rfl).trans hdead
  · exact hdead

theorem without_fEntryList : ((fs.without entry).nodes i).fEntryList = (fs.nodes i).fEntryList.erase entry := by
  have hdead : (((fs.unlink entry).MakeDead entry).nodes i).fEntryList = (fs.nodes i).fEntryList.erase entry :=
    (fs.unlink entry).modify_keep RootDir.fEntryList entry i rfl
  unfold without
  split
  · exact (modify_keep RootDir.fEntryList _ entry i rfl).trans hdead
  · exact hdead

theorem without_deleted : ((fs.without entry).nodes i).deleted =
    if i = entry ∧ (fs.nodes entry).fRefCount = 0 then true else (fs.nodes i).deleted := by
  have hdead : (((fs.unlink entry).MakeDead entry).nodes i).deleted = (fs.nodes i).deleted :=
    (fs.unlink entry).modify_keep RootDir.deleted entry i rfl
  unfold without
  by_cases hcount : (fs.nodes entry).fRefCount = 0
  · rw [if_pos hcount]
    by_cases hi : i = entry
    · subst hi
      rw [if_pos ⟨rfl, hcount⟩, modify_self]
    · rw [if_neg (fun h => hi h.1), modify_of_ne _ _ hi, hdead]
  · rw [if_neg hcount, if_neg (fun h => hcount h.2), hdead]

end

theorem find?_erase {l : List Nat} {p : Nat → Bool} {n : Nat} (hn : p n = false) : (l.erase n).find? p = l.find? p := by
  induction l with
  | nil => rfl
  | cons i l ih =>
    by_cases hi : i = n
    · subst hi
      rw [List.erase_cons_head, List.find?_cons, hn]
    · rw [List.erase_cons_tail (by simpa using hi), List.find?_cons, List.find?_cons, ih]

variable {fs : RootFileSystem} {dir entry : Nat} {name : Name}

theorem mem_of_findEntry (hdot : name ≠ dot) (hdotdot : name ≠ dotdot) (hfound : fs.FindEntry dir name = some entry) :
    entry ∈ (fs.nodes dir).fEntryList ∧ (fs.nodes entry).fName = name := by
  rw [findEntry_entry fs dir hdot hdotdot] at hfound
  have hname := List.find?_some hfound
  exact ⟨List.mem_of_find?_eq_some hfound, of_decide_eq_true hname⟩

theorem Shape.unique (h : fs.Shape) (hdir : dir < fs.next) (hlive : (fs.nodes dir).deleted = false) {e e' : Nat}
    (he : e ∈ (fs.nodes dir).fEntryList) (he' : e' ∈ (fs.nodes dir).fEntryList)
    (hname : (fs.nodes e).fName = (fs.nodes e').fName) : e = e' := by
  have hnodup : ((fs.nodes dir).fEntryList.map fun entry => (fs.nodes entry).fName).Nodup := by
    have hall := h.names dir hdir hlive
    exact hall.of_cons.of_cons
  exact List.inj_on_of_nodup_map hnodup he he' hname

section

variable (h : fs.Shape) (hdir : dir < fs.next) (hlive : (fs.nodes dir).deleted = false)
  (hmem : entry ∈ (fs.nodes dir).fEntryList)

include h hdir hmem

theorem Shape.entry_live : (fs.nodes entry).deleted = false := by
  obtain ⟨hlt, halive, -⟩ := h.entry dir hdir entry hmem
  by_contra hdel
  have hdead := h.dead entry hlt (by simpa using hdel)
  rw [halive] at hdead
  cases hdead

theorem Shape.findEntry_without (hd : d < fs.next)
    (hother : (d, name') ≠ (dir, (fs.nodes entry).fName)) :
    (fs.without entry).FindEntry d name' = fs.FindEntry d name' := by
  by_cases hdot : name' = dot
  · rw [hdot]
    rfl
  · by_cases hdotdot : name' = dotdot
    · rw [hdotdot, findEntry_dotdot, findEntry_dotdot, without_fParentDir]
    · rw [findEntry_entry _ _ hdot hdotdot, findEntry_entry _ _ hdot hdotdot, without_fEntryList]
      simp only [without_fName]
      by_cases hin : entry ∈ (fs.nodes d).fEntryList
      · -- in one list only
        have hparent : dir = d := by
          rw [← (h.entry dir hdir entry hmem).2.2, (h.entry d hd entry hin).2.2]
        subst hparent
        refine find?_erase (decide_eq_false ?_)
        rintro rfl
        exact hother rfl
      · rw [List.erase_of_not_mem hin]

include hlive

theorem Shape.findEntry_gone (hdot : (fs.nodes entry).fName ≠ dot) (hdotdot : (fs.nodes entry).fName ≠ dotdot) :
    (fs.without entry).FindEntry dir (fs.nodes entry).fName = none := by
  rw [findEntry_entry _ _ hdot hdotdot, without_fEntryList, List.find?_eq_none]
  intro e he hname
  rw [without_fName] at hname
  obtain rfl := h.unique hdir hlive (List.mem_of_mem_erase he) hmem (of_decide_eq_true hname)
  exact h.not_mem_erase (h.entry dir hdir e hmem).1 ⟨dir, hdir, hmem⟩ (h.entry_live hdir hmem) hdir he

end

/-! ## The call -/

section

variable (h : fs.Inv) (hdir : dir < fs.next) (hmem : entry ∈ (fs.nodes dir).fEntryList)
  (hfound : fs.FindEntry dir name = some entry)

include h hdir hmem hfound

theorem Inv.removeDir_empty (hempty : (fs.nodes entry).fEntryList = []) :
    fs.RemoveDir dir name = some (.E_NO_ERROR, fs.without entry) := by
  have hlive := h.entry_live hdir hmem
  have hlists : ∀ i, ((fs.AcquireRef entry).nodes i).fEntryList = (fs.nodes i).fEntryList :=
    fun i => fs.modify_keep RootDir.fEntryList entry i rfl
  have hlinked : (fs.AcquireRef entry).Linked entry := ⟨dir, hdir, by rw [hlists]; exact hmem⟩
  have hcount : (((fs.unlink entry).MakeDead entry).nodes entry).fRefCount = (fs.nodes entry).fRefCount :=
    (fs.unlink entry).modify_keep RootDir.fRefCount entry entry rfl
  have hlist : (((fs.unlink entry).MakeDead entry).nodes entry).fEntryList = [] := by
    have hsame : (((fs.unlink entry).MakeDead entry).nodes entry).fEntryList = (fs.nodes entry).fEntryList.erase entry :=
      (fs.unlink entry).modify_keep RootDir.fEntryList entry entry rfl
    rw [hsame, hempty]
    rfl
  have hdead : (((fs.unlink entry).MakeDead entry).nodes entry).fDead = true := by
    rw [MakeDead, modify_self]
  have hint : IsInt32 (((fs.unlink entry).MakeDead entry).nodes entry).fRefCount :=
    hcount ▸ h.isInt32 (h.entry dir hdir entry hmem).1 hlive
  unfold RemoveDir
  rw [hfound]
  dsimp only
  rw [hlive, if_neg Bool.false_ne_true, hlists, if_neg (not_not.2 hempty), RemoveFromList, if_pos hlinked, Option.map_some,
    remove_acquired, release_acquired hint, hcount, destroy_of_empty hlist, without]
  simp only [hdead, and_true]

theorem Inv.removeDir_full (hfull : (fs.nodes entry).fEntryList ≠ []) :
    fs.RemoveDir dir name = some (.E_ENTRY_EXISTS, fs) := by
  obtain ⟨hlt, halive, -⟩ := h.entry dir hdir entry hmem
  have hlive := h.entry_live hdir hmem
  have hlist : ((fs.AcquireRef entry).nodes entry).fEntryList = (fs.nodes entry).fEntryList :=
    fs.modify_keep RootDir.fEntryList entry entry rfl
  have hkept : ¬ ((fs.nodes entry).fRefCount = 0 ∧ (fs.nodes entry).fDead = true) := by
    rw [halive]
    simp
  unfold RemoveDir
  rw [hfound]
  dsimp only
  rw [hlive, if_neg Bool.false_ne_true, hlist, if_pos hfull, release_acquired (h.isInt32 hlt hlive), if_neg hkept]

end

theorem removeDir_none (hnone : fs.FindEntry dir name = none) : fs.RemoveDir dir name = some (.E_NO_SUCH_FILE, fs) := by
  rw [RemoveDir, hnone]

/-! ## The lookups behind it -/

section

variable (h : fs.Inv) (hdir : dir < fs.next) (hmem : entry ∈ (fs.nodes dir).fEntryList)

include h hdir hmem

theorem Inv.found_without (hsuits : fs.Unreferenced entry) (hd : fs.Follows (fs.without entry) d)
    (hother : (d, name') ≠ (dir, (fs.nodes entry).fName)) : (fs.without entry).found d name' = fs.found d name' := by
  have hstays : ¬ (d = entry ∧ (fs.nodes entry).fRefCount = 0) := by
    rintro ⟨rfl, hcount⟩
    have hnone := (hsuits hcount).1
    rcases hd.2 with hheld | hkept
    · omega
    · rw [without_deleted, if_pos ⟨rfl, hcount⟩] at hkept
      cases hkept
  have hsame : ((fs.without entry).nodes d).deleted = (fs.nodes d).deleted := by
    rw [without_deleted, if_neg hstays]
  have hlive : (fs.nodes d).deleted = false := by
    rcases hd.2 with hheld | hkept
    · exact h.live hd.1 hheld
    · rwa [hsame] at hkept
  refine found_congr hsame (h.findEntry_without hdir hmem hd.1 hother) ?_
  intro e he
  rw [without_deleted, if_neg]
  rintro ⟨rfl, hcount⟩
  by_cases hdot : name' = dot
  · subst hdot
    cases he
    exact hstays ⟨rfl, hcount⟩
  · by_cases hdotdot : name' = dotdot
    · subst hdotdot
      exact (hsuits hcount).2 d hd.1 hlive (Option.some.inj he)
    · obtain ⟨hin, rfl⟩ := mem_of_findEntry hdot hdotdot he
      have hparent : dir = d := by
        rw [← (h.entry dir hdir e hmem).2.2, (h.entry d hd.1 e hin).2.2]
      exact hother (by rw [hparent])

theorem Inv.not_found_without (hdot : (fs.nodes entry).fName ≠ dot) (hdotdot : (fs.nodes entry).fName ≠ dotdot)
    (hempty : (fs.nodes entry).fEntryList = []) (hnot : ¬ fs.Unreferenced entry) :
    ∃ d name', fs.Follows (fs.without entry) d ∧ (d, name') ≠ (dir, (fs.nodes entry).fName) ∧
      (fs.without entry).found d name' ≠ fs.found d name' := by
  have hlive := h.entry_live hdir hmem
  have hlt := (h.entry dir hdir entry hmem).1
  unfold Unreferenced at hnot
  push Not at hnot
  obtain ⟨hcount, hnot⟩ := hnot
  have hgone : ((fs.without entry).nodes entry).deleted = true := by
    rw [without_deleted, if_pos ⟨rfl, hcount⟩]
  by_cases hheld : (fs.nodes entry).held = 0
  · obtain ⟨n, hn, hnlive, hparent⟩ := hnot hheld
    have hne : n ≠ entry := by
      rintro rfl
      have hself := (h.entry dir hdir n hmem).2.2
      rw [hparent] at hself
      rw [← hself, hempty] at hmem
      cases hmem
    have hnlive' : ((fs.without entry).nodes n).deleted = false := by
      rw [without_deleted, if_neg (fun h => hne h.1), hnlive]
    refine ⟨n, dotdot, ⟨hn, .inr hnlive'⟩, fun heq => hdotdot (Prod.mk.inj heq).2.symm, ?_⟩
    have hfind : (fs.without entry).FindEntry n dotdot = some entry := by
      rw [findEntry_dotdot, without_fParentDir, hparent]
    rw [found_of_some hnlive' hfind, found_of_some hnlive (by rw [findEntry_dotdot, hparent]), hgone, hlive]
    simp
  · refine ⟨entry, dot, ⟨hlt, .inl (by omega)⟩, fun heq => hdot (Prod.mk.inj heq).2.symm, ?_⟩
    have hself : fs.FindEntry entry dot = some entry := rfl
    rw [found, hgone, found_of_some hlive hself, hlive]
    simp

end

/-! ## A directory that is made and removed -/

section

variable (h : fs.Shape) (hdir : dir < fs.next) (hd : d < fs.next)
    (hother : (d, name') = (dir, stored name) → fs.FindEntry d name' ≠ none)
include h hdir hd hother

theorem Shape.findEntry_added_eq :
    (fs.added dir name).FindEntry d name' = fs.FindEntry d name' := by
  cases hfound : fs.FindEntry d name' with
  | some e => exact h.findEntry_added hdir hd hfound
  | none =>
    have hdot : name' ≠ dot := by
      rintro rfl
      cases hfound
    have hdotdot : name' ≠ dotdot := by
      rintro rfl
      cases hfound
    have hnew : d = dir → ¬ stored name = name' := by
      rintro rfl rfl
      exact hother rfl hfound
    rw [findEntry_entry _ _ hdot hdotdot] at hfound ⊢
    rw [added_old hdir name hd]
    split
    next heq =>
      rw [List.find?_append, h.find_added hdir hd, hfound, List.find?_singleton, added_new hdir]
      simp [hnew heq]
    next => rw [h.find_added hdir hd, hfound]

theorem Shape.found_added :
    (fs.added dir name).found d name' = fs.found d name' := by
  refine found_congr ?_ (h.findEntry_added_eq hdir hd hother) ?_
  · rw [added_old hdir name hd]
  · intro e he
    rw [added_old hdir name (h.findEntry_lt hd he)]

end

theorem zero_not_mem_stored (name : Name) : 0 ∉ stored name := by
  intro hin
  exact absurd (List.mem_takeWhile_imp hin) (by decide)

theorem added_stored (fs : RootFileSystem) (dir : Nat) (name : Name) : fs.added dir (stored name) = fs.added dir name := by
  unfold added
  rw [stored_of_zero (zero_not_mem_stored name)]

section

variable (h : fs.Inv) (hdir : dir < fs.next) (hheld : 0 < (fs.nodes dir).held) (hnone : fs.FindEntry dir name = none)

include h hdir hheld hnone

theorem Inv.restores (h0 : 0 ∉ name) : ∃ r, (fs.MakeDir dir name).2.RemoveDir dir name = some r ∧
    ∀ d, fs.Follows r.2 d → ∀ name', r.2.found d name' = fs.found d name' := by
  have hinv : (fs.added dir name).Inv := by
    have hmade := (h.makeDir hdir hheld name).1 (fits_makeDir fs dir h0)
    rwa [makeDir_of_none hnone] at hmade
  have hdir' : dir < (fs.added dir name).next := Nat.lt_succ_of_lt hdir
  have hnew : (fs.added dir name).nodes fs.next = ⟨name, dir, false, 0, [], 0, false⟩ := by
    rw [added_new hdir, stored_of_zero h0]
  have hmem : fs.next ∈ ((fs.added dir name).nodes dir).fEntryList :=
    (mem_added hdir name hdir').2 (.inr ⟨rfl, rfl⟩)
  have hfind : (fs.added dir name).FindEntry dir name = some fs.next := h.findEntry_new hdir h0 hnone
  have hdot : name ≠ dot := by
    rintro rfl
    cases hnone
  have hdotdot : name ≠ dotdot := by
    rintro rfl
    cases hnone
  have hunreferenced : (fs.added dir name).Unreferenced fs.next := by
    refine fun _ => ⟨by rw [hnew], fun n hn _ => ?_⟩
    by_cases hn' : n = fs.next
    · rw [hn', hnew]
      exact Nat.ne_of_lt hdir
    · have hlt : n < fs.next := Nat.lt_of_le_of_ne (Nat.le_of_lt_succ hn) hn'
      rw [added_old hdir name hlt]
      exact Nat.ne_of_lt (h.parent n hlt)
  rw [makeDir_of_none hnone]
  refine ⟨_, hinv.removeDir_empty hdir' hmem hfind (by rw [hnew]), ?_⟩
  rintro d ⟨hd, hfollows⟩ name'
  have hd' : (fs.added dir name).Follows ((fs.added dir name).without fs.next) d := by
    refine ⟨Nat.lt_succ_of_lt hd, ?_⟩
    rw [added_old hdir name hd]
    exact hfollows
  by_cases hother : (d, name') = (dir, name)
  · obtain ⟨rfl, rfl⟩ := Prod.mk.inj hother
    have hgone := hinv.findEntry_gone hdir' (hinv.live hdir' (by rw [added_old hdir name' hd]; exact hheld)) hmem
    rw [hnew] at hgone
    have hkept : (((fs.added d name').without fs.next).nodes d).deleted = false := by
      rw [without_deleted, if_neg (fun heq => Nat.ne_of_lt hd heq.1), added_old hdir name' hd]
      exact h.live hdir hheld
    rw [found_of_none (h.live hdir hheld) hnone, found_of_none hkept (hgone hdot hdotdot)]
  · rw [hinv.found_without hdir' hmem hunreferenced hd' (by rwa [hnew]),
      h.found_added hdir hd (fun heq => absurd (stored_of_zero h0 ▸ heq) hother)]

theorem Inv.restores_zero_iff (h0 : 0 ∈ name) : (∃ r, (fs.MakeDir dir name).2.RemoveDir dir name = some r ∧
    ∀ d, fs.Follows r.2 d → ∀ name', r.2.found d name' = fs.found d name') ↔
      fs.FindEntry dir (stored name) ≠ none := by
  have hlive := h.live hdir hheld
  have hnot : stored name ≠ name := fun heq => zero_not_mem_stored name (by rw [heq]; exact h0)
  have hrun : (fs.added dir name).RemoveDir dir name = some (.E_NO_SUCH_FILE, fs.added dir name) := by
    refine removeDir_none ?_
    rw [h.findEntry_added_eq hdir hdir (fun heq => absurd (Prod.mk.inj heq).2.symm hnot), hnone]
  rw [makeDir_of_none hnone]
  rw [hrun]
  constructor
  · rintro ⟨r, hr, hsame⟩ hfree
    cases hr
    have hafter := hsame dir ⟨hdir, .inl hheld⟩ (stored name)
    have hfind := h.findEntry_new hdir (zero_not_mem_stored name) hfree
    rw [added_stored] at hfind
    have hlive' : ((fs.added dir name).nodes dir).deleted = false := by
      rw [added_old hdir name hdir]
      exact hlive
    rw [found_of_none hlive hfree, found_of_some hlive' hfind, added_new hdir] at hafter
    simp at hafter
  · intro hpresent
    refine ⟨_, rfl, fun d hd name' => h.found_added hdir hd.1 fun heq => ?_⟩
    obtain ⟨rfl, rfl⟩ := Prod.mk.inj heq
    exact hpresent

end

/-! ## Every run -/

section

variable (h : fs.Inv) (hdir : dir < fs.next) (hheld : 0 < (fs.nodes dir).held) (hdot : name ≠ dot)
  (hdotdot : name ≠ dotdot)

include hdot hdotdot in
theorem removalRight_none_iff (hnone : fs.FindEntry dir name = none) : fs.RemovalRight dir name ↔
    ∃ r, (fs.MakeDir dir name).2.RemoveDir dir name = some r ∧
      ∀ d, fs.Follows r.2 d → ∀ name', r.2.found d name' = fs.found d name' := by
  have hrun := removeDir_none hnone
  have hfails : ∀ fs', fs.RemoveDir dir name ≠ some (.E_NO_ERROR, fs') := by
    intro fs' hr
    rw [hrun] at hr
    cases hr
  have hmissing : ¬ fs.HasEmpty dir name := by
    rintro ⟨entry, hmem, hname, -⟩
    rw [findEntry_entry fs dir hdot hdotdot, List.find?_eq_none] at hnone
    exact hnone entry hmem (decide_eq_true hname)
  refine ⟨fun hright => hright.restores hnone, fun hrestores => ⟨?_, ?_, fun _ => ⟨_, hrun⟩, fun _ => hrestores⟩⟩
  · exact iff_of_false (fun ⟨fs', hr⟩ => hfails fs' hr) hmissing
  · exact fun fs' hr => absurd hr (hfails fs')

variable (hmem : entry ∈ (fs.nodes dir).fEntryList) (hfound : fs.FindEntry dir (fs.nodes entry).fName = some entry)

include h hdir hheld hmem hfound

theorem Inv.removalRight_full (hfull : (fs.nodes entry).fEntryList ≠ []) :
    fs.RemovalRight dir (fs.nodes entry).fName := by
  have hrun := h.removeDir_full hdir hmem hfound hfull
  have hfails : ∀ fs', fs.RemoveDir dir (fs.nodes entry).fName ≠ some (.E_NO_ERROR, fs') := by
    intro fs' hr
    rw [hrun] at hr
    cases hr
  have hmissing : ¬ fs.HasEmpty dir (fs.nodes entry).fName := by
    rintro ⟨e, he, hname, hempty⟩
    obtain rfl := h.unique hdir (h.live hdir hheld) he hmem hname
    exact hfull hempty
  refine ⟨?_, fun fs' hr => absurd hr (hfails fs'), fun _ => ⟨_, hrun⟩, fun hnone => ?_⟩
  · exact iff_of_false (fun ⟨fs', hr⟩ => hfails fs' hr) hmissing
  · rw [hfound] at hnone
    cases hnone

theorem Inv.removalRight_empty_iff (hdot : (fs.nodes entry).fName ≠ dot) (hdotdot : (fs.nodes entry).fName ≠ dotdot)
    (hempty : (fs.nodes entry).fEntryList = []) :
    fs.RemovalRight dir (fs.nodes entry).fName ↔ fs.Unreferenced entry := by
  have hrun := h.removeDir_empty hdir hmem hfound hempty
  have hlive := h.live hdir hheld
  have hkept : ((fs.without entry).nodes dir).deleted = false := by
    have hne : dir ≠ entry := by
      rintro rfl
      rw [hempty] at hmem
      cases hmem
    rw [without_deleted, if_neg (fun heq => hne heq.1), hlive]
  constructor
  · intro hright
    by_contra hnot
    obtain ⟨d, name', hd, hother, hne⟩ := h.not_found_without hdir hmem hdot hdotdot hempty hnot
    exact hne ((hright.removes _ hrun).2 d hd name' hother)
  · intro hsuits
    refine ⟨iff_of_true ⟨_, hrun⟩ ⟨entry, hmem, rfl, hempty⟩, ?_, fun hfails => absurd hrun (hfails _), fun hnone => ?_⟩
    · intro fs' hr
      rw [hrun] at hr
      cases hr
      exact ⟨found_of_none hkept (h.findEntry_gone hdir hlive hmem hdot hdotdot),
        fun d hd name' hother => h.found_without hdir hmem hsuits hd hother⟩
    · rw [hfound] at hnone
      cases hnone

end

theorem Inv.removalRight_iff (h : fs.Inv) (hdir : dir < fs.next) (hheld : 0 < (fs.nodes dir).held) (hdot : name ≠ dot)
    (hdotdot : name ≠ dotdot) : fs.RemovalRight dir name ↔ fs.RemovalSuits dir name := by
  cases hfound : fs.FindEntry dir name with
  | none =>
    have hsuits : fs.RemovalSuits dir name ↔ (0 ∈ name → fs.FindEntry dir (stored name) ≠ none) := by
      simp [RemovalSuits, hfound]
    rw [hsuits, removalRight_none_iff hdot hdotdot hfound]
    by_cases h0 : 0 ∈ name
    · rw [h.restores_zero_iff hdir hheld hfound h0, forall_prop_of_true h0]
    · exact iff_of_true (h.restores hdir hheld hfound h0) fun h0' => absurd h0' h0
  | some entry =>
    obtain ⟨hmem, rfl⟩ := mem_of_findEntry hdot hdotdot hfound
    have hsuits : fs.RemovalSuits dir (fs.nodes entry).fName ↔
        ((fs.nodes entry).fEntryList = [] → fs.Unreferenced entry) := by
      simp [RemovalSuits, hfound]
    rw [hsuits]
    by_cases hempty : (fs.nodes entry).fEntryList = []
    · rw [h.removalRight_empty_iff hdir hheld hmem hfound hdot hdotdot hempty, forall_prop_of_true hempty]
    · exact iff_of_true (h.removalRight_full hdir hheld hmem hfound hempty) fun hempty' => absurd hempty' hempty

/-- **Removal**: in every run of calls that fit, exactly these removals are right. -/
theorem removal_right_iff (hrun : system.ReachVia Fits fs) (hcall : Call.Enabled fs (.removeDir dir name))
    (hdot : name ≠ dot) (hdotdot : name ≠ dotdot) : fs.RemovalRight dir name ↔ fs.RemovalSuits dir name :=
  (inv_of_run hrun).removalRight_iff hcall.1 hcall.2 hdot hdotdot

/-- `a/a` is referred to and removed; `a` is not referred to any more. -/
def removedBelow : List Call :=
  [.getRootNode, .makeDir 0 nameA, .lookup 0 nameA, .makeDir 1 nameA, .lookup 1 nameA, .removeDir 1 nameA]

/-- While `a` is referred to it can be removed. -/
theorem removal_right_iff_referred : ∃ fs, system.exec start removedBelow = some fs ∧ fs.RemovalRight 0 nameA := by
  have hrun : (system.exec start removedBelow).map (fun fs => decide (Call.Enabled fs (.removeDir 0 nameA) ∧
      fs.RemovalSuits 0 nameA)) = some true := by
    decide +kernel
  obtain ⟨fs, hs, hfacts⟩ := Option.map_eq_some_iff.1 hrun
  obtain ⟨hcall, hsuits⟩ := of_decide_eq_true hfacts
  have hmeets : system.Meets Fits start removedBelow := by decide +kernel
  have hreach := StepSystem.reachVia_exec removedBelow (.init rfl) hmeets hs
  exact ⟨fs, hs, (removal_right_iff hreach hcall (by decide) (by decide)).2 hsuits⟩

/-- When it is not, it is deleted, and `..` of `a/a` leads there. -/
theorem removal_deletes_parent : ¬ ∀ fs, system.Reach fs → ∀ dir name, Call.Enabled fs (.removeDir dir name) →
    name ≠ dot → name ≠ dotdot → fs.RemovalRight dir name := by
  intro hclaim
  have hrun : (system.exec start (removedBelow ++ [.releaseRef 1])).map (fun fs =>
      decide (Call.Enabled fs (.removeDir 0 nameA) ∧ ¬ fs.RemovalSuits 0 nameA)) = some true := by
    decide +kernel
  obtain ⟨fs, hs, hfacts⟩ := Option.map_eq_some_iff.1 hrun
  obtain ⟨hcall, hnot⟩ := of_decide_eq_true hfacts
  have hmeets : system.Meets Fits start (removedBelow ++ [.releaseRef 1]) := by decide +kernel
  have hinv := inv_of_run (StepSystem.reachVia_exec _ (.init rfl) hmeets hs)
  have hright := hclaim fs (StepSystem.reach_exec _ (.init rfl) hs) 0 nameA hcall (by decide) (by decide)
  exact hnot ((hinv.removalRight_iff hcall.1 hcall.2 (by decide) (by decide)).1 hright)

end RootFileSystem

end RootFs
