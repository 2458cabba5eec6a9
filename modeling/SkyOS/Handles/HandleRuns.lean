import Mathlib.Data.List.Perm.Subperm
import SkyOS.Handles.HandleTable

/-!
# Every run of a handle table

A run keeps what its callers know: the ids they hold, with the resources they opened, and for every slot how
often it was closed. A slot's serial number is that count modulo 2048, and an id is its slot and the serial
number, so an id that was closed names something again after 2047 more closes of its slot, and not before.
-/

namespace HandleTables

open List Option Nat
open Function (update update_self)

structure Run where
  table : HandleTable
  /-- The open ids, with their resources. -/
  opened : List (Int × Nat)
  /-- How often a slot was closed. -/
  closes : Nat → Nat → Nat
  /-- For an id that was closed: how often its slot was, when it was last. -/
  closedAt : Int → Option Nat

inductive Call where
  | openHandle (resource : Nat)
  | close (id : Int)
deriving DecidableEq, Repr

/-- A resource is an address above the first page, there are at most 2^20 handles, and open ids are closed. -/
def Call.legal (r : Run) : Call → Prop
  | .openHandle resource => kLevel2Size ≤ resource ∧ r.opened.length < 2 ^ 20
  | .close id => id ∈ r.opened.map (·.1)

/-- One more close of the slot of `id`. -/
def countClose (closes : Nat → Nat → Nat) (id : Int) : Nat → Nat → Nat :=
  fun l i => if l = level1Of id ∧ i = level2Of id then closes l i + 1 else closes l i

def perform (r : Run) : Call → Option Run
  | .openHandle resource => (openHandle r.table resource).map fun (table, l, i) =>
      { r with table, opened := (handleId (serialAt table l i) l i, resource) :: r.opened }
  | .close id => (closeHandle r.table id).map fun (table, _) =>
      { table, opened := r.opened.filter (·.1 ≠ id),
        closes := countClose r.closes id,
        closedAt := Function.update r.closedAt id (some (r.closes (level1Of id) (level2Of id) + 1)) }

instance (r : Run) : (c : Call) → Decidable (c.legal r)
  | .openHandle _ => inferInstanceAs (Decidable (_ ∧ _))
  | .close _ => inferInstanceAs (Decidable (_ ∈ _))

def step (r : Run) (c : Call) : Option Run :=
  if c.legal r then perform r c else none

def system : StepSystem Run Call where
  init r := r = ⟨newHandleTable, [], fun _ _ => 0, fun _ => none⟩
  step := step

/-! ## The invariant -/

structure Open (t : HandleTable) (id : Int) (resource : Nat) : Prop where
  nonneg : 0 ≤ id
  lt : id < 2 ^ 31
  serial : serialAt t (level1Of id) (level2Of id) = serialOf id
  resource : resourceAt t (level1Of id) (level2Of id) = some resource

structure Inv (r : Run) : Prop where
  table : TableInv r.table
  opened : ∀ id resource, (id, resource) ∈ r.opened ↔ Open r.table id resource
  nodup : (r.opened.map (·.1)).Nodup
  closes : ∀ l i, InTable l i → serialAt r.table l i = r.closes l i % kSerialNumberCount
  closedAt : ∀ id n, r.closedAt id = some n →
    n ≤ r.closes (level1Of id) (level2Of id) ∧ n % kSerialNumberCount = (serialOf id + 1) % kSerialNumberCount

variable {id : Int} {resource : Nat} {r : Run}

variable {t : HandleTable} {c : Call} {sub : SubTable} {free : List Nat}

theorem getResource_any (h : Open t id resource) (typeOf : Nat → Int) :
    getResource typeOf t id OBJ_ANY = some resource := by
  have hneg := h.nonneg
  rw [getResource, if_neg (by omega), if_neg (not_not.2 h.serial), h.resource]
  simp

theorem getResource_some {typeOf : Nat → Int} {matchType : Int}
    (h : getResource typeOf t id matchType = some resource) :
    0 ≤ id ∧ serialAt t (level1Of id) (level2Of id) = serialOf id ∧
      resourceAt t (level1Of id) (level2Of id) = some resource ∧ (matchType = OBJ_ANY ∨ matchType = typeOf resource) := by
  unfold getResource at h
  split at h
  · cases h
  · split at h
    · cases h
    · rename_i hneg hserial
      obtain ⟨hr, htype⟩ := filter_eq_some_iff.1 h
      exact ⟨by omega, not_not.1 hserial, hr, by simpa using htype⟩

theorem Inv.room {r : Run} (h : Inv r) (hlen : r.opened.length < 2 ^ 20) :
    ∃ l i, InTable l i ∧ resourceAt r.table l i = none := by
  by_contra hnone
  simp only [not_exists, not_and] at hnone
  have hin : ∀ n ∈ List.range (2 ^ 20), InTable (n / 1024) (n % 1024) := by
    intro n hn
    rw [mem_range] at hn
    refine ⟨?_, mod_lt _ (by decide)⟩
    show n / 1024 < 1024
    omega
  have hnodup : ((List.range (2 ^ 20)).map fun n =>
      handleId (serialAt r.table (n / 1024) (n % 1024)) (n / 1024) (n % 1024)).Nodup := by
    refine List.Nodup.map_on ?_ nodup_range
    intro n hn n' hn' he
    have hl := congrArg level1Of he
    have hi := congrArg level2Of he
    rw [level1Of_handleId (hin n hn), level1Of_handleId (hin n' hn')] at hl
    rw [level2Of_handleId (hin n hn), level2Of_handleId (hin n' hn')] at hi
    omega
  have hsub : ((List.range (2 ^ 20)).map fun n =>
      handleId (serialAt r.table (n / 1024) (n % 1024)) (n / 1024) (n % 1024)) ⊆ r.opened.map (·.1) := by
    intro id hid
    obtain ⟨n, hn, rfl⟩ := List.mem_map.1 hid
    obtain ⟨resource, hr⟩ := ne_none_iff_exists'.1 (hnone _ _ (hin n hn))
    have hopen : Open r.table (handleId (serialAt r.table (n / 1024) (n % 1024)) (n / 1024) (n % 1024)) resource := by
      refine ⟨handleId_nonneg _ _ _, handleId_lt (hin n hn) (h.table.serial_lt _ _), ?_, ?_⟩
      · rw [level1Of_handleId (hin n hn), level2Of_handleId (hin n hn), serialOf_handleId (hin n hn)]
      · rw [level1Of_handleId (hin n hn), level2Of_handleId (hin n hn)]
        exact hr
    exact List.mem_map.2 ⟨_, (h.opened _ _).2 hopen, rfl⟩
  have hle := (subperm_of_subset hnodup hsub).length_le
  rw [length_map, length_map, length_range] at hle
  omega

theorem inv_openHandle (h : Inv r) (hc : (Call.openHandle resource).legal r) :
    ∃ r', perform r (.openHandle resource) = some r' ∧ Inv r' := by
  obtain ⟨hr, hlen⟩ := hc
  obtain ⟨t', l, i, hopen, htable, hin, hfree, hres, hserial, hother⟩ := openHandle_spec h.table (h.room hlen) hr
  have hid : level1Of (handleId (serialAt t' l i) l i) = l := level1Of_handleId hin
  have hid' : level2Of (handleId (serialAt t' l i) l i) = i := level2Of_handleId hin
  have hnew : Open t' (handleId (serialAt t' l i) l i) resource := by
    refine ⟨handleId_nonneg _ _ _, handleId_lt hin (htable.serial_lt _ _), ?_, ?_⟩
    · rw [hid, hid', serialOf_handleId hin]
    · rw [hid, hid', hres]
  -- the slot was free, so no open id names it
  have hslot : ∀ id res, Open r.table id res → ¬ (level1Of id = l ∧ level2Of id = i) := by
    rintro id res hopen' ⟨rfl, rfl⟩
    have hslot := hopen'.resource
    rw [hfree] at hslot
    cases hslot
  have hsame : ∀ id res, ¬ (level1Of id = l ∧ level2Of id = i) → (Open t' id res ↔ Open r.table id res) := by
    intro id res hne
    have h1 := hserial _ _ (inTable_of id)
    have h2 := hother _ _ (inTable_of id) hne
    constructor
    · rintro ⟨ha, hb, hc, hd⟩
      exact ⟨ha, hb, h1 ▸ hc, h2 ▸ hd⟩
    · rintro ⟨ha, hb, hc, hd⟩
      exact ⟨ha, hb, h1.trans hc, h2.trans hd⟩
  have hperform : perform r (.openHandle resource) =
      some { r with table := t', opened := (handleId (serialAt t' l i) l i, resource) :: r.opened } := by
    simp only [perform, hopen, map_some]
  refine ⟨_, hperform, ⟨htable, ?_, ?_, ?_, h.closedAt⟩⟩
  · intro id res
    rw [mem_cons, Prod.mk.injEq]
    constructor
    · rintro (⟨rfl, rfl⟩ | hmem)
      · exact hnew
      · have hopen' := (h.opened id res).1 hmem
        exact (hsame id res (hslot id res hopen')).2 hopen'
    · intro hid''
      by_cases hat : level1Of id = l ∧ level2Of id = i
      · obtain ⟨hl, hi⟩ := hat
        have hres' := hid''.resource
        have hser := hid''.serial
        rw [hl, hi, hres] at hres'
        rw [hl, hi] at hser
        refine .inl ⟨?_, (Option.some.inj hres').symm⟩
        exact id_ext hid''.nonneg hid''.lt hnew.nonneg hnew.lt (hl.trans hid.symm) (hi.trans hid'.symm)
          (by rw [serialOf_handleId hin, hser])
      · exact .inr ((h.opened id res).2 ((hsame id res hat).1 hid''))
  · dsimp only
    rw [map_cons, nodup_cons]
    refine ⟨?_, h.nodup⟩
    intro hmem
    obtain ⟨⟨id, res⟩, hmem, he⟩ := List.mem_map.1 hmem
    subst he
    exact hslot _ _ ((h.opened _ _).1 hmem) ⟨hid, hid'⟩
  · intro l' i' hin'
    rw [hserial l' i' hin']
    exact h.closes l' i' hin'

theorem inv_close (h : Inv r) (hc : (Call.close id).legal r) :
    ∃ r', perform r (.close id) = some r' ∧ Inv r' := by
  obtain ⟨⟨id, resource⟩, hmem, rfl⟩ := List.mem_map.1 hc
  have hopen := (h.opened id resource).1 hmem
  obtain ⟨t', hclose, htable, hfree, hserial, hother⟩ := closeHandle_spec h.table hopen.resource
  have hperform : perform r (.close id) =
      some ⟨t', r.opened.filter (·.1 ≠ id), countClose r.closes id,
        update r.closedAt id (some (r.closes (level1Of id) (level2Of id) + 1))⟩ := by
    simp only [perform, hclose, map_some]
  refine ⟨_, hperform, ⟨htable, ?_, ?_, ?_, ?_⟩⟩
  · intro id' res
    rw [mem_filter, h.opened]
    have hne : ∀ res, Open t' id' res → ¬ (level1Of id' = level1Of id ∧ level2Of id' = level2Of id) := by
      rintro res hopen' ⟨hl, hi⟩
      have hslot := hopen'.resource
      rw [hl, hi, hfree] at hslot
      cases hslot
    constructor
    · rintro ⟨⟨ha, hb, hc', hd⟩, hid⟩
      have hat : ¬ (level1Of id' = level1Of id ∧ level2Of id' = level2Of id) := by
        rintro ⟨hl, hi⟩
        have hsame : id' = id := by
          refine id_ext ha hb hopen.nonneg hopen.lt hl hi ?_
          rw [← hc', ← hopen.serial, hl, hi]
        exact absurd hsame (by simpa using hid)
      obtain ⟨h1, h2⟩ := hother _ _ hat
      exact ⟨ha, hb, h2.trans hc', h1.trans hd⟩
    · intro hopen'
      obtain ⟨h1, h2⟩ := hother _ _ (hne res hopen')
      refine ⟨⟨hopen'.nonneg, hopen'.lt, h2 ▸ hopen'.serial, h1 ▸ hopen'.resource⟩, ?_⟩
      have hid : id' ≠ id := by
        rintro rfl
        exact hne res hopen' ⟨rfl, rfl⟩
      simpa using hid
  · exact h.nodup.sublist ((filter_sublist).map _)
  · intro l i hin
    show serialAt t' l i = countClose r.closes id l i % kSerialNumberCount
    unfold countClose
    by_cases hat : l = level1Of id ∧ i = level2Of id
    · obtain ⟨rfl, rfl⟩ := hat
      rw [if_pos ⟨rfl, rfl⟩, hserial, h.closes _ _ hin, mod_add_mod]
    · rw [if_neg hat, (hother l i hat).2]
      exact h.closes l i hin
  · intro id' n hn
    dsimp only at hn ⊢
    by_cases hid : id' = id
    · subst hid
      rw [update_self] at hn
      cases hn
      rw [countClose, if_pos ⟨rfl, rfl⟩]
      refine ⟨Nat.le_refl _, ?_⟩
      have hcount := h.closes _ _ (inTable_of id')
      rw [hopen.serial] at hcount
      rw [hcount, mod_add_mod]
    · rw [Function.update_of_ne hid] at hn
      obtain ⟨h1, h2⟩ := h.closedAt id' n hn
      refine ⟨Nat.le_trans h1 ?_, h2⟩
      unfold countClose
      split <;> omega

theorem inv_step {r' : Run} (h : Inv r) (hs : step r c = some r') : Inv r' := by
  obtain ⟨hc, hs⟩ := ite_none_right_eq_some.1 hs
  cases c with
  | openHandle resource =>
    obtain ⟨r'', hs'', hinv⟩ := inv_openHandle h hc
    rw [hs] at hs''
    cases hs''
    exact hinv
  | close id =>
    obtain ⟨r'', hs'', hinv⟩ := inv_close h hc
    rw [hs] at hs''
    cases hs''
    exact hinv

theorem inv_init (h : system.init r) : Inv r := by
  cases h
  refine ⟨tableInv_new, ?_, .nil, fun _ _ _ => rfl, nofun⟩
  intro id resource
  constructor
  · intro hmem
    cases hmem
  · intro hopen
    cases hopen.resource

theorem inv_reach (h : system.Reach r) : Inv r :=
  StepSystem.Reach.invariant Inv (fun _ h0 => inv_init h0) (fun _ _ _ hI hs => inv_step hI hs) h

/-! ## Ids, serial numbers and free lists -/

/-- The free entries reached from `fFirstFree`. -/
inductive ReachesFree (sub : SubTable) : Nat → Prop
  | first : (sub.fHandle sub.fFirstFree).isFree = true → ReachesFree sub sub.fFirstFree
  | next {i : Nat} : ReachesFree sub i → (sub.fHandle (sub.fHandle i).fDatum).isFree = true →
      ReachesFree sub (sub.fHandle i).fDatum

theorem Linked.reachesFree {first : Nat} (h : Linked sub.fHandle first free)
    (hfirst : (sub.fHandle first).isFree = true → ReachesFree sub first)
    (hfree : ∀ i ∈ free, (sub.fHandle i).isFree = true) : ∀ i ∈ free, ReachesFree sub i := by
  induction h with
  | nil first => simp
  | @cons i rest _ ih =>
    have hi := hfirst (hfree i (by simp))
    intro j hj
    rcases mem_cons.1 hj with rfl | hj
    · exact hi
    · exact ih (.next hi) (fun k hk => hfree k (by simp [hk])) j hj

/-- The free list holds exactly the free entries that can be reached. -/
theorem FreeList.mem_iff_reaches (h : FreeList sub free) (i : Nat) :
    i ∈ free ↔ ReachesFree sub i := by
  constructor
  · intro hi
    exact h.linked.reachesFree .first (fun j hj => ((h.mem j).1 hj).2) i hi
  · intro hi
    refine (h.mem i).2 ?_
    induction hi with
    | first hfree => exact ⟨h.first, hfree⟩
    | next _ hfree ih => exact ⟨(isFree_iff _).1 ih.2, hfree⟩

/-- Open ids are distinct and name their resources, closed ones name nothing until their slot was closed a multiple
of 2048 times, the close of the id included; the counters are right. -/
structure HandlesRight (r : Run) : Prop where
  distinct : (r.opened.map (·.1)).Nodup
  range : ∀ id ∈ r.opened.map (·.1), 0 ≤ id ∧ id < 2 ^ 31
  get : ∀ id resource, (id, resource) ∈ r.opened → ∀ typeOf, getResource typeOf r.table id OBJ_ANY = some resource
  closed : ∀ id n typeOf matchType, r.closedAt id = some n → getResource typeOf r.table id matchType ≠ none →
    n ≤ r.closes (level1Of id) (level2Of id) ∧
      (r.closes (level1Of id) (level2Of id) - n) % kSerialNumberCount = kSerialNumberCount - 1
  counts : ∀ l sub, r.table.fMainTable l = some sub → ∃ free : List Nat, free.Nodup ∧
    (∀ i, i ∈ free ↔ ReachesFree sub i) ∧ (∀ i < kLevel2Size, i ∈ free ↔ (sub.fHandle i).isFree = true) ∧
    free.length = sub.fFreeHandles
  full : ∀ l < r.table.fFreeHint, ∃ sub, r.table.fMainTable l = some sub ∧ sub.fFreeHandles = 0

theorem Inv.handlesRight (h : Inv r) : HandlesRight r := by
  refine ⟨h.nodup, ?_, ?_, ?_, ?_, h.table.full⟩
  · intro id hid
    obtain ⟨⟨id, resource⟩, hmem, rfl⟩ := List.mem_map.1 hid
    have hopen := (h.opened id resource).1 hmem
    exact ⟨hopen.nonneg, hopen.lt⟩
  · intro id resource hmem typeOf
    exact getResource_any ((h.opened id resource).1 hmem) typeOf
  · intro id n typeOf matchType hn hget
    obtain ⟨resource, hget⟩ := ne_none_iff_exists'.1 hget
    obtain ⟨-, hserial, -, -⟩ := getResource_some hget
    obtain ⟨hle, hmod⟩ := h.closedAt id n hn
    have hcount := h.closes _ _ (inTable_of id)
    rw [hserial] at hcount
    refine ⟨hle, ?_⟩
    unfold kSerialNumberCount at *
    omega
  · intro l sub hl
    obtain ⟨free, hfree⟩ := h.table.free l sub hl
    refine ⟨free, hfree.nodup, hfree.mem_iff_reaches, ?_, hfree.count⟩
    intro i hi
    rw [hfree.mem]
    exact ⟨fun hin => hin.2, fun hin => ⟨hi, hin⟩⟩

/-- **Handle table.** In every reachable state the ids and the counters are right, and every legal call returns; an
`Open` never returns an id that is open. -/
theorem handles_right {r : Run} (h : system.Reach r) : HandlesRight r ∧ ∀ c : Call, c.legal r → (step r c).isSome := by
  have hinv := inv_reach h
  refine ⟨hinv.handlesRight, ?_⟩
  intro c hc
  rw [step, if_pos hc]
  cases c with
  | openHandle resource =>
    obtain ⟨r', hr', -⟩ := inv_openHandle hinv hc
    rw [hr']
    rfl
  | close id =>
    obtain ⟨r', hr', -⟩ := inv_close hinv hc
    rw [hr']
    rfl

/-- Two handles, the first closed and its slot opened again: the new id has serial number 1. -/
theorem handles_right_run :
    ∃ r, system.exec ⟨newHandleTable, [], fun _ _ => 0, fun _ => none⟩
        [.openHandle 0x2000, .openHandle 0x3000, .close 1023, .openHandle 0x4000] = some r ∧
      r.opened = [(0x100000 + 1023, 0x4000), (1022, 0x3000)] ∧ HandlesRight r ∧
      ∀ c : Call, c.legal r → (step r c).isSome := by
  have hrun : (system.exec ⟨newHandleTable, [], fun _ _ => 0, fun _ => none⟩
      [.openHandle 0x2000, .openHandle 0x3000, .close 1023, .openHandle 0x4000]).map (·.opened) =
      some [(0x100000 + 1023, 0x4000), (1022, 0x3000)] := by decide +kernel
  obtain ⟨r, hr, hopened⟩ := Option.map_eq_some_iff.1 hrun
  exact ⟨r, hr, hopened, handles_right (StepSystem.reach_exec _ (.init rfl) hr)⟩

/-! ## The wrap of a serial number -/

def oneTable (fFreeHandles fFirstFree : Nat) (handle : Handle) : HandleTable :=
  ⟨Function.update (fun _ => none) 0 (some ⟨fFreeHandles, fFirstFree, Function.update newSubTable.fHandle 1023 handle⟩), 0⟩

theorem close_oneTable (serial resource : Nat) :
    closeHandle (oneTable 1023 1022 ⟨serial, resource⟩) (handleId serial 0 1023) =
      some (oneTable 1024 1023 ⟨(serial + 1) % kSerialNumberCount, 1022⟩, resource) := by
  have hin : InTable 0 1023 := ⟨by decide, by decide⟩
  simp only [closeHandle, oneTable, level1Of_handleId hin, level2Of_handleId hin, update_self,
    Function.update_idem, bind_eq_bind, bind_some, Nat.min_self]
  rfl

theorem open_oneTable (serial resource : Nat) :
    openHandle (oneTable 1024 1023 ⟨serial, 1022⟩) resource = some (oneTable 1023 1022 ⟨serial, resource⟩, 0, 1023) := by
  have hscan : openScan (oneTable 1024 1023 ⟨serial, 1022⟩).fMainTable (oneTable 1024 1023 ⟨serial, 1022⟩).fFreeHint none
      (kLevel1Size - (oneTable 1024 1023 ⟨serial, 1022⟩).fFreeHint) = (0, none) := rfl
  have hzero : (0 : Nat) ≠ kLevel1Size := by decide
  unfold openHandle
  rw [hscan]
  simp only [if_neg hzero, oneTable, update_self, map_some, bind_eq_bind, bind_some, takeHandle,
    Function.update_idem]
  rfl

theorem open_new (resource : Nat) :
    openHandle newHandleTable resource = some (oneTable 1023 1022 ⟨0, resource⟩, 0, 1023) := by
  have hscan : openScan newHandleTable.fMainTable newHandleTable.fFreeHint none
      (kLevel1Size - newHandleTable.fFreeHint) = (1024, some 0) := by decide +kernel
  unfold openHandle
  rw [hscan]
  rfl

theorem serialAt_oneTable (fFreeHandles fFirstFree : Nat) (handle : Handle) :
    serialAt (oneTable fFreeHandles fFirstFree handle) 0 1023 = handle.fSerialNumber := by
  simp only [serialAt, oneTable, update_self, elim_some]

theorem system_step (hc : c.legal r) : system.step r c = perform r c := if_pos hc

/-- The slot is opened, and closed and opened again `k` times. -/
theorem cycles (k : Nat) : ∃ r, system.Reach r ∧ r.table = oneTable 1023 1022 ⟨k % kSerialNumberCount, 0x2000⟩ ∧
    r.opened = [(handleId (k % kSerialNumberCount) 0 1023, 0x2000)] ∧ r.closes 0 1023 = k ∧
    (0 < k → k ≤ 2048 → r.closedAt 1023 = some 1) := by
  have hin : InTable 0 1023 := ⟨by decide, by decide⟩
  induction k with
  | zero =>
    have hstep : system.step ⟨newHandleTable, [], fun _ _ => 0, fun _ => none⟩ (.openHandle 0x2000) =
        some ⟨oneTable 1023 1022 ⟨0, 0x2000⟩, [(handleId 0 0 1023, 0x2000)], fun _ _ => 0, fun _ => none⟩ := by
      have hc : (Call.openHandle 0x2000).legal ⟨newHandleTable, [], fun _ _ => 0, fun _ => none⟩ :=
        ⟨by decide, by decide⟩
      rw [system_step hc]
      simp only [perform, open_new, map_some, serialAt_oneTable]
    simp only [zero_mod]
    exact ⟨_, StepSystem.ReachVia.step (StepSystem.ReachVia.init rfl) trivial hstep, rfl, rfl, rfl,
      fun h0 => absurd h0 (Nat.lt_irrefl 0)⟩
  | succ k ih =>
    obtain ⟨r, hr, htable, hopened, hcloses, hclosed⟩ := ih
    generalize hid : handleId (k % kSerialNumberCount) 0 1023 = id at hopened
    have hl : level1Of id = 0 := hid ▸ level1Of_handleId hin
    have hi : level2Of id = 1023 := hid ▸ level2Of_handleId hin
    have hnext : (k % kSerialNumberCount + 1) % kSerialNumberCount = (k + 1) % kSerialNumberCount := mod_add_mod _ _ _
    have hclose : system.step r (.close id) = some ⟨oneTable 1024 1023 ⟨(k + 1) % kSerialNumberCount, 1022⟩, [],
        countClose r.closes id, update r.closedAt id (some (k + 1))⟩ := by
      have hc : (Call.close id).legal r := by
        show id ∈ r.opened.map (·.1)
        rw [hopened]
        exact mem_singleton.2 rfl
      rw [system_step hc]
      have hcall := close_oneTable (k % kSerialNumberCount) 0x2000
      rw [hid, hnext] at hcall
      simp only [perform, htable, hcall, map_some, hl, hi, hcloses, hopened]
      simp
    have hopen : system.step ⟨oneTable 1024 1023 ⟨(k + 1) % kSerialNumberCount, 1022⟩, [], countClose r.closes id,
        update r.closedAt id (some (k + 1))⟩ (.openHandle 0x2000) =
        some ⟨oneTable 1023 1022 ⟨(k + 1) % kSerialNumberCount, 0x2000⟩,
          [(handleId ((k + 1) % kSerialNumberCount) 0 1023, 0x2000)], countClose r.closes id,
          update r.closedAt id (some (k + 1))⟩ := by
      have hc : (Call.openHandle 0x2000).legal ⟨oneTable 1024 1023 ⟨(k + 1) % kSerialNumberCount, 1022⟩, [],
          countClose r.closes id, update r.closedAt id (some (k + 1))⟩ := ⟨by decide, Nat.two_pow_pos 20⟩
      rw [system_step hc]
      simp only [perform, open_oneTable, map_some, serialAt_oneTable]
    refine ⟨_, .step (.step hr trivial hclose) trivial hopen, rfl, rfl, ?_, ?_⟩
    · show countClose r.closes id 0 1023 = k + 1
      rw [countClose, if_pos ⟨hl.symm, hi.symm⟩, hcloses]
    · intro _ hk
      show update r.closedAt id (some (k + 1)) 1023 = some 1
      cases k with
      | zero =>
        have hzero : id = 1023 := by
          rw [← hid]
          rfl
        rw [hzero, update_self]
      | succ k =>
        have hne : (1023 : Int) ≠ id := by
          rw [← hid]
          unfold handleId kSerialNumberCount kLevel1Size kLevel2Size
          omega
        rw [Function.update_of_ne hne]
        exact hclosed (succ_pos k) (by omega)

/-- After 2047 more closes of the slot the first id names the resource again. -/
theorem closed_id_returns : ¬ ∀ r, system.Reach r → ∀ id n, r.closedAt id = some n →
    getResource (fun _ => 0) r.table id OBJ_ANY ≠ none →
    (r.closes (level1Of id) (level2Of id) - n) % kSerialNumberCount = 0 := by
  intro h
  obtain ⟨r, hr, htable, hopened, hcloses, hclosed⟩ := cycles 2048
  have hget : getResource (fun _ => 0) r.table 1023 OBJ_ANY ≠ none := by
    have hid : ((1023 : Int), 0x2000) ∈ r.opened := by
      rw [hopened]
      exact List.mem_singleton.2 rfl
    rw [getResource_any (((inv_reach hr).opened _ _).1 hid)]
    exact Option.some_ne_none _
  have hmod := h r hr 1023 1 (hclosed (by decide) (by decide)) hget
  have hl : level1Of 1023 = 0 := rfl
  have hi : level2Of 1023 = 1023 := rfl
  rw [hl, hi, hcloses] at hmod
  exact absurd hmod (by decide)

end HandleTables
