import Mathlib.Data.List.Perm.Basic
import SkyOS.Handles.HandleRuns

/-!
# `close_handle` (`SystemCall.cpp:231`) in several threads

`close_handle` looks the id up under the read lock and closes it under the write lock; the lock is free in
between. A step is one locked section of one thread, in any order. `Close` trusts the id, so it does the right
thing exactly when the id still names the resource that was looked up; runs in which every `Close` finds it so
keep the table and the references right (`close_race`).

`Open` is its locked section; the id it reads afterwards is not used here.
-/

namespace HandleTables

open List

/-- Where a thread is in `close_handle`: outside, or between the two sections with the id and its resource. -/
inductive Pc where
  | idle
  | looked (id : Int) (resource : Nat)
deriving DecidableEq, Repr

structure Race where
  table : HandleTable
  pc : Nat → Pc
  /-- The references the table took and gave back, one for each `AcquireRef` and `ReleaseRef`. -/
  acquired : List Nat
  released : List Nat

namespace Race

inductive Call where
  | openHandle (resource : Nat)
  | lookup (thread : Nat) (id : Int)
  | close (thread : Nat)
deriving DecidableEq, Repr

def legal (s : Race) : Call → Prop
  | .openHandle resource => kLevel2Size ≤ resource
  | .lookup thread _ => s.pc thread = .idle
  | .close _ => True

def perform (s : Race) : Call → Option Race
  | .openHandle resource => (HandleTables.openHandle s.table resource).map fun (table, _, _) =>
      { s with table, acquired := s.acquired ++ [resource] }
  | .lookup thread id =>
    some ((getResource (fun _ => OBJ_ANY) s.table id OBJ_ANY).elim s fun resource =>
      { s with pc := Function.update s.pc thread (.looked id resource) })
  | .close thread =>
    match s.pc thread with
    | .idle => none
    | .looked id _ => (closeHandle s.table id).map fun (table, resource) =>
        { s with table, pc := Function.update s.pc thread .idle, released := s.released ++ [resource] }

instance (s : Race) : (c : Call) → Decidable (s.legal c)
  | .openHandle _ => inferInstanceAs (Decidable (_ ≤ _))
  | .lookup .. => inferInstanceAs (Decidable (_ = _))
  | .close _ => .isTrue trivial

def step (s : Race) (c : Call) : Option Race :=
  if s.legal c then s.perform c else none

def initial : Race := ⟨newHandleTable, fun _ => .idle, [], []⟩

def system : StepSystem Race Call where
  init s := s = initial
  step := step

/-- At a `Close` the id still names the resource that was looked up. -/
def stillOpen (s : Race) : Call → Prop
  | .close thread => ∀ id resource, s.pc thread = .looked id resource →
      getResource (fun _ => OBJ_ANY) s.table id OBJ_ANY = some resource
  | .openHandle _ | .lookup .. => True

/-! ## The invariant -/

structure Holds (t : HandleTable) (held : List ((Nat × Nat) × Nat)) : Prop where
  nodup : (held.map (·.1)).Nodup
  mem : ∀ l i resource, ((l, i), resource) ∈ held ↔ InTable l i ∧ resourceAt t l i = some resource

structure Inv (s : Race) (held : List ((Nat × Nat) × Nat)) : Prop where
  table : TableInv s.table
  holds : Holds s.table held
  refs : s.acquired.Perm (held.map (·.2) ++ s.released)

theorem inv_initial : Inv initial [] := by
  refine ⟨tableInv_new, ⟨.nil, ?_⟩, .refl _⟩
  intro l i resource
  constructor
  · intro hmem
    cases hmem
  · rintro ⟨-, hr⟩
    cases hr

variable {s : Race}

variable {s' : Race} {held : List ((Nat × Nat) × Nat)} {resource : Nat}

theorem inv_openHandle (h : Inv s held)
    (hc : s.legal (.openHandle resource)) (hs : s.perform (.openHandle resource) = some s') :
    ∃ held', Inv s' held' := by
  obtain ⟨⟨t', l, i⟩, hopen, rfl⟩ := Option.map_eq_some_iff.1 hs
  obtain ⟨t'', l', i', hopen', htable, hin, hfree, hres, hserial, hother⟩ :=
    openHandle_spec h.table (room_of_openHandle h.table hopen) hc
  rw [hopen] at hopen'
  cases hopen'
  refine ⟨((l, i), resource) :: held, htable, ⟨?_, ?_⟩, ?_⟩
  · rw [map_cons, nodup_cons]
    refine ⟨?_, h.holds.nodup⟩
    intro hmem
    obtain ⟨⟨⟨l', i'⟩, res⟩, hmem, he⟩ := mem_map.1 hmem
    cases he
    have hused := ((h.holds.mem l i res).1 hmem).2
    rw [hfree] at hused
    cases hused
  · intro l' i' res
    rw [mem_cons, h.holds.mem]
    by_cases hat : l' = l ∧ i' = i
    · obtain ⟨rfl, rfl⟩ := hat
      rw [hfree, hres]
      simp [hin, eq_comm]
    · constructor
      · rintro (he | ⟨hin', hr⟩)
        · cases he
          exact absurd ⟨rfl, rfl⟩ hat
        · exact ⟨hin', (hother l' i' hin' hat).trans hr⟩
      · rintro ⟨hin', hr⟩
        exact Or.inr ⟨hin', (hother l' i' hin' hat).symm.trans hr⟩
  · show (s.acquired ++ [resource]).Perm _
    have hperm := (perm_append_singleton resource s.acquired).trans (h.refs.cons resource)
    simpa using hperm

/-- A `Close` that finds its id as it was looked up closes that handle and no other. -/
theorem inv_close (h : Inv s held) {thread : Nat} {id : Int}
    (hpc : s.pc thread = .looked id resource) (hopen : s.stillOpen (.close thread)) :
    ∃ s' held', s.perform (.close thread) = some s' ∧ Inv s' held' ∧ s'.released = s.released ++ [resource] ∧
      resourceAt s.table (level1Of id) (level2Of id) = some resource ∧
      resourceAt s'.table (level1Of id) (level2Of id) = none ∧
      ∀ l i, ¬ (l = level1Of id ∧ i = level2Of id) → resourceAt s'.table l i = resourceAt s.table l i := by
  obtain ⟨-, -, hres, -⟩ := getResource_some (hopen id resource hpc)
  obtain ⟨t', hclose, htable, hfree, -, hother⟩ := closeHandle_spec h.table hres
  have hin := inTable_of id
  have hmem : ((level1Of id, level2Of id), resource) ∈ held := (h.holds.mem _ _ _).2 ⟨hin, hres⟩
  have hperform : s.perform (.close thread) = some
      { s with table := t', pc := Function.update s.pc thread .idle, released := s.released ++ [resource] } := by
    simp only [perform, hpc, hclose, Option.map_some]
  have hnodup := h.holds.nodup.of_map
  refine ⟨_, held.erase ((level1Of id, level2Of id), resource), hperform, ⟨htable, ⟨?_, ?_⟩, ?_⟩, rfl, hres, hfree,
    fun l i hat => (hother l i hat).1⟩
  · exact h.holds.nodup.sublist (erase_sublist.map _)
  · intro l i res
    rw [hnodup.mem_erase_iff, h.holds.mem]
    by_cases hat : l = level1Of id ∧ i = level2Of id
    · obtain ⟨rfl, rfl⟩ := hat
      rw [hfree, hres]
      constructor
      · rintro ⟨hne, -, hr⟩
        cases hr
        exact absurd rfl hne
      · rintro ⟨-, hr⟩
        cases hr
    · rw [(hother l i hat).1]
      constructor
      · exact fun hr => hr.2
      · intro hr
        refine ⟨?_, hr⟩
        intro he
        cases he
        exact hat ⟨rfl, rfl⟩
  · show s.acquired.Perm ((held.erase _).map (·.2) ++ (s.released ++ [resource]))
    have hheld := ((perm_cons_erase hmem).map (·.2)).append_right s.released
    refine (h.refs.trans hheld).trans ?_
    have hmove : (resource :: ((held.erase ((level1Of id, level2Of id), resource)).map (·.2) ++ s.released)).Perm
        ((held.erase ((level1Of id, level2Of id), resource)).map (·.2) ++ s.released ++ [resource]) :=
      (perm_append_singleton _ _).symm
    simpa using hmove

theorem inv_step (h : ∃ held, Inv s held) {c : Call} (hP : s.stillOpen c) (hs : s.step c = some s') :
    ∃ held, Inv s' held := by
  obtain ⟨held, h⟩ := h
  obtain ⟨hc, hs⟩ := Option.ite_none_right_eq_some.1 hs
  cases c with
  | openHandle resource => exact inv_openHandle h hc hs
  | lookup thread id =>
    cases hs
    refine ⟨held, ?_⟩
    cases getResource (fun _ => OBJ_ANY) s.table id OBJ_ANY with
    | none => exact h
    | some resource => exact ⟨h.table, h.holds, h.refs⟩
  | close thread =>
    cases hpc : s.pc thread with
    | idle =>
      simp only [perform, hpc] at hs
      cases hs
    | looked id resource =>
      obtain ⟨s'', held', hs'', hinv, -⟩ := inv_close h hpc hP
      rw [hs] at hs''
      cases hs''
      exact ⟨held', hinv⟩

theorem inv_reachVia (h : system.ReachVia stillOpen s) : ∃ held, Inv s held :=
  StepSystem.ReachVia.invariant (fun s => ∃ held, Inv s held)
    (fun s h0 => by cases h0; exact ⟨[], inv_initial⟩)
    (fun _ _ _ hI hP hs => inv_step hI hP hs) h

/-- No entry is in a free list twice, the counters count the free entries, and every reference the table took is
held by one slot or was given back once. -/
structure RaceRight (s : Race) : Prop where
  counts : ∀ l sub, s.table.fMainTable l = some sub → ∃ free : List Nat, free.Nodup ∧
    (∀ i, i ∈ free ↔ i < kLevel2Size ∧ (sub.fHandle i).isFree = true) ∧
    Linked sub.fHandle sub.fFirstFree free ∧ free.length = sub.fFreeHandles
  refs : ∃ held, Holds s.table held ∧ s.acquired.Perm (held.map (·.2) ++ s.released)

/-- **Closing under concurrency.** In every run whose `Close` sections find their id as it was looked up, the table and
the references are right, and such a `Close` closes the handle that was looked up and no other. -/
theorem close_race {s : Race} (h : system.ReachVia stillOpen s) :
    RaceRight s ∧ ∀ thread id resource, s.pc thread = .looked id resource → s.stillOpen (.close thread) →
      ∃ s', s.step (.close thread) = some s' ∧ s'.released = s.released ++ [resource] ∧
        resourceAt s.table (level1Of id) (level2Of id) = some resource ∧
        resourceAt s'.table (level1Of id) (level2Of id) = none ∧
        ∀ l i, ¬ (l = level1Of id ∧ i = level2Of id) → resourceAt s'.table l i = resourceAt s.table l i := by
  obtain ⟨held, hinv⟩ := inv_reachVia h
  refine ⟨⟨?_, ⟨held, hinv.holds, hinv.refs⟩⟩, ?_⟩
  · intro l sub hl
    obtain ⟨free, hfree⟩ := hinv.table.free l sub hl
    exact ⟨free, hfree.nodup, hfree.mem, hfree.linked, hfree.count⟩
  · intro thread id resource hpc hopen
    obtain ⟨s', held', hs', -, hrest⟩ := inv_close hinv hpc hopen
    refine ⟨s', ?_, hrest⟩
    have hlegal : s.legal (.close thread) := trivial
    rw [step, if_pos hlegal]
    exact hs'

instance (s : Race) : (c : Call) → Decidable (s.stillOpen c)
  | .close thread =>
    match hpc : s.pc thread with
    | .idle => isTrue fun _ _ h => by rw [hpc] at h; cases h
    | .looked id resource =>
      decidable_of_iff (getResource (fun _ => OBJ_ANY) s.table id OBJ_ANY = some resource)
        ⟨fun hget id' resource' h => by rw [hpc] at h; cases h; exact hget, fun h => h id resource hpc⟩
  | .openHandle _ | .lookup .. => .isTrue trivial

/-- Two threads look one id up; one closes it, and the other one gives up. -/
theorem close_race_run :
    ∃ s, system.exec initial [.openHandle 0x2000, .lookup 1 1023, .lookup 2 1023, .close 1, .openHandle 0x3000] = some s ∧
      RaceRight s := by
  have hrun : (system.exec initial
      [.openHandle 0x2000, .lookup 1 1023, .lookup 2 1023, .close 1, .openHandle 0x3000]).isSome := by decide +kernel
  have hmeets : system.Meets stillOpen initial
      [.openHandle 0x2000, .lookup 1 1023, .lookup 2 1023, .close 1, .openHandle 0x3000] := by decide +kernel
  obtain ⟨s, hs⟩ := Option.isSome_iff_exists.1 hrun
  exact ⟨s, hs, (close_race (StepSystem.reachVia_exec _ (.init rfl) hmeets hs)).1⟩

/-- Both threads close it: the counter counts 1025 free entries of 1024. -/
theorem double_close : ¬ ∀ s, system.Reach s → RaceRight s := by
  intro h
  have hrun : (system.exec initial [.openHandle 0x2000, .lookup 1 1023, .lookup 2 1023, .close 1, .close 2]).map
      (fun s => (s.table.fMainTable 0).map (·.fFreeHandles)) = some (some 1025) := by decide +kernel
  obtain ⟨s, hs, hcount⟩ := Option.map_eq_some_iff.1 hrun
  obtain ⟨sub, hsub, hcount⟩ := Option.map_eq_some_iff.1 hcount
  obtain ⟨free, hnodup, hmem, -, hlen⟩ := (h s (StepSystem.reach_exec _ (.init rfl) hs)).counts 0 sub hsub
  have hsubset : free ⊆ List.range 1024 := fun i hi => List.mem_range.2 ((hmem i).1 hi).1
  have hle := (List.subperm_of_subset hnodup hsubset).length_le
  rw [hlen, hcount, List.length_range] at hle
  omega

end Race

end HandleTables
