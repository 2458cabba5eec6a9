import Mathlib.Algebra.Group.Int.Defs
import Mathlib.Algebra.Group.Nat.Defs
import Mathlib.Data.List.Nodup
import Mathlib.Logic.Function.Basic
import SkyOS.Lib.StepSystem

/-!
# `HandleTable` (`HandleTable.cpp`)

A two-level table from ids to resources. A handle's `fDatum` is a pointer when the handle is open and the next
free index otherwise; `IsFree` tells them apart by value, so a resource pointer is never below 1024. Every
call holds `fLock` while it touches the table, so its locked section is one function here; a resource is its
address, and what `ReleaseRef` does to it is left to the runs.

| here | there |
| --- | --- |
| `serialAt`, `resourceAt` | what a slot holds; a sub-table that is not there yet reads as a new one |
| `Handle.fDatum` as `Nat` | the union, as unsigned: `IsFree` (`:42`) is then `< kLevel2Size` |
| `openHandle`, `closeHandle` | the locked sections of `Open` and `Close` |
-/

namespace HandleTables

open Function (update update_of_ne update_self)
open List Option

def kLevel1Size : Nat := 1024
def kLevel2Size : Nat := 1024
def kSerialNumberCount : Nat := 2048
def OBJ_ANY : Int := -1

structure Handle where
  fSerialNumber : Nat
  fDatum : Nat
deriving DecidableEq, Repr

structure SubTable where
  fFreeHandles : Nat
  fFirstFree : Nat
  fHandle : Nat → Handle

structure HandleTable where
  fMainTable : Nat → Option SubTable
  fFreeHint : Nat

/-- `Handle::IsFree` (:40). -/
def Handle.isFree (h : Handle) : Bool := h.fDatum < kLevel2Size

/-- `SubTable::SubTable` (:45). -/
def newSubTable : SubTable := ⟨kLevel2Size, kLevel2Size - 1, fun i => ⟨0, i - 1⟩⟩

/-- `HandleTable::HandleTable` (:56). -/
def newHandleTable : HandleTable := ⟨fun _ => none, 0⟩

/-- The loop of `Open` (:86-92), with `n` tables left: where it stops, and the first empty entry. -/
def openScan (fMainTable : Nat → Option SubTable) : Nat → Option Nat → Nat → Nat × Option Nat
  | level1Index, firstEmpty, 0 => (level1Index, firstEmpty)
  | level1Index, firstEmpty, n + 1 =>
    match fMainTable level1Index with
    | none => openScan fMainTable (level1Index + 1) (firstEmpty.or (some level1Index)) n
    | some sub =>
      if sub.fFreeHandles > 0 then (level1Index, firstEmpty)
      else openScan fMainTable (level1Index + 1) firstEmpty n

/-- A handle taken from a sub-table (:104-109): the sub-table and the index. -/
def takeHandle (sub : SubTable) (resource : Nat) : SubTable × Nat :=
  let level2Index := sub.fFirstFree
  let handle := sub.fHandle level2Index
  ({ fFreeHandles := sub.fFreeHandles - 1, fFirstFree := handle.fDatum,
     fHandle := Function.update sub.fHandle level2Index { handle with fDatum := resource } }, level2Index)

/-- `Open` (:79) up to the unlock: the table and the slot; a full table panics. -/
def openHandle (t : HandleTable) (resource : Nat) : Option (HandleTable × Nat × Nat) := do
  let (level1Index, firstEmpty) := openScan t.fMainTable t.fFreeHint none (kLevel1Size - t.fFreeHint)
  let (level1Index, sub) ←
    if level1Index = kLevel1Size then firstEmpty.map fun l => (l, newSubTable)
    else (t.fMainTable level1Index).map fun sub => (level1Index, sub)
  let (sub, level2Index) := takeHandle sub resource
  return (⟨Function.update t.fMainTable level1Index (some sub), level1Index⟩, level1Index, level2Index)

def serialAt (t : HandleTable) (level1Index level2Index : Nat) : Nat :=
  (t.fMainTable level1Index).elim 0 fun sub => (sub.fHandle level2Index).fSerialNumber

def resourceAt (t : HandleTable) (level1Index level2Index : Nat) : Option Nat :=
  (t.fMainTable level1Index).bind fun sub =>
    if (sub.fHandle level2Index).isFree then none else some (sub.fHandle level2Index).fDatum

/-- The id that `Open` returns (:111), from the serial number it reads after the unlock. -/
def handleId (serial level1Index level2Index : Nat) : Int :=
  (((serial * kLevel2Size) + level1Index) * kLevel1Size + level2Index : Nat)

def level1Of (id : Int) : Nat := id.toNat / kLevel2Size % kLevel1Size

def level2Of (id : Int) : Nat := id.toNat % kLevel2Size

def serialOf (id : Int) : Nat := id.toNat / (kLevel1Size * kLevel2Size)

/-- The locked section of `Close` (:114), with the resource it releases afterwards. -/
def closeHandle (t : HandleTable) (id : Int) : Option (HandleTable × Nat) := do
  let level1Index := level1Of id
  let level2Index := level2Of id
  let sub ← t.fMainTable level1Index
  let handle := sub.fHandle level2Index
  let sub := { sub with
    fFreeHandles := sub.fFreeHandles + 1, fFirstFree := level2Index,
    fHandle := Function.update sub.fHandle level2Index
      ⟨(handle.fSerialNumber + 1) % kSerialNumberCount, sub.fFirstFree⟩ }
  return (⟨Function.update t.fMainTable level1Index (some sub), min level1Index t.fFreeHint⟩, handle.fDatum)

/-- `GetResource` (:133). -/
def getResource (typeOf : Nat → Int) (t : HandleTable) (id matchType : Int) : Option Nat :=
  if id < 0 then none
  else if serialAt t (level1Of id) (level2Of id) ≠ serialOf id then none
  else (resourceAt t (level1Of id) (level2Of id)).filter fun resource =>
    matchType = OBJ_ANY ∨ matchType = typeOf resource

/-! ## The free lists -/

inductive Linked (fHandle : Nat → Handle) : Nat → List Nat → Prop
  | nil (first : Nat) : Linked fHandle first []
  | cons {i : Nat} {rest : List Nat} : Linked fHandle (fHandle i).fDatum rest → Linked fHandle i (i :: rest)

/-- `free` lists the free entries, in the order in which they are taken. -/
structure FreeList (sub : SubTable) (free : List Nat) : Prop where
  linked : Linked sub.fHandle sub.fFirstFree free
  nodup : free.Nodup
  mem : ∀ i, i ∈ free ↔ i < kLevel2Size ∧ (sub.fHandle i).isFree = true
  count : free.length = sub.fFreeHandles
  first : sub.fFirstFree < kLevel2Size
  serial : ∀ i, (sub.fHandle i).fSerialNumber < kSerialNumberCount

/-- Sub-tables are added in order, each has its free list, and those below the hint are full. -/
structure TableInv (t : HandleTable) : Prop where
  free : ∀ l sub, t.fMainTable l = some sub → ∃ free, FreeList sub free
  ordered : ∀ l l', l' < l → (t.fMainTable l).isSome → (t.fMainTable l').isSome
  size : ∀ l, (t.fMainTable l).isSome → l < kLevel1Size
  hint : t.fFreeHint < kLevel1Size
  full : ∀ l < t.fFreeHint, ∃ sub, t.fMainTable l = some sub ∧ sub.fFreeHandles = 0

variable {free : List Nat} {i resource l serial : Nat} {sub : SubTable} {t : HandleTable}

variable {fHandle : Nat → Handle} {first : Nat} {id : Int}

theorem Linked.congr {fHandle' : Nat → Handle} (h : Linked fHandle first free)
    (heq : ∀ i ∈ free, fHandle' i = fHandle i) : Linked fHandle' first free := by
  induction h with
  | nil first => exact .nil first
  | @cons i rest _ ih =>
    refine .cons ?_
    rw [heq i (by simp)]
    exact ih fun j hj => heq j (by simp [hj])

theorem Linked.tail {rest : List Nat} (h : Linked fHandle first (i :: rest)) :
    first = i ∧ Linked fHandle (fHandle i).fDatum rest := by
  cases h with
  | cons hrest => exact ⟨rfl, hrest⟩

theorem isFree_iff (h : Handle) : h.isFree = true ↔ h.fDatum < kLevel2Size := by
  simp [Handle.isFree]

theorem linked_newSubTable (n : Nat) : Linked newSubTable.fHandle (n - 1) (List.range n).reverse := by
  induction n with
  | zero => exact .nil _
  | succ n ih =>
    rw [range_succ, reverse_append, reverse_singleton, singleton_append]
    exact .cons ih

theorem freeList_newSubTable : FreeList newSubTable (List.range kLevel2Size).reverse := by
  have hnodup : (List.range kLevel2Size).reverse.Nodup := by
    rw [nodup_reverse]
    exact nodup_range
  refine ⟨linked_newSubTable kLevel2Size, hnodup, ?_, ?_, ?_, ?_⟩
  · intro i
    rw [mem_reverse, mem_range]
    constructor
    · intro hi
      refine ⟨hi, (isFree_iff _).2 ?_⟩
      show i - 1 < kLevel2Size
      omega
    · exact fun hi => hi.1
  · rw [length_reverse, length_range]
    rfl
  · show kLevel2Size - 1 < kLevel2Size
    unfold kLevel2Size
    omega
  · intro i
    show 0 < kSerialNumberCount
    unfold kSerialNumberCount
    omega

theorem FreeList.take (h : FreeList sub free) (hpos : 0 < sub.fFreeHandles) (hr : kLevel2Size ≤ resource) :
    FreeList (takeHandle sub resource).1 free.tail ∧ sub.fFirstFree < kLevel2Size ∧
      (sub.fHandle sub.fFirstFree).isFree = true := by
  obtain ⟨hlinked, hnodup, hmem, hcount, hfirst, hserial⟩ := h
  obtain ⟨i, rest, rfl⟩ : ∃ i rest, free = i :: rest := by
    cases free with
    | nil =>
      rw [length_nil] at hcount
      omega
    | cons i rest => exact ⟨i, rest, rfl⟩
  obtain ⟨rfl, hrest⟩ := hlinked.tail
  obtain ⟨hnot, hnodup⟩ := nodup_cons.1 hnodup
  obtain ⟨-, hfree⟩ := (hmem sub.fFirstFree).1 (by simp)
  have hother : ∀ j, j ≠ sub.fFirstFree → (takeHandle sub resource).1.fHandle j = sub.fHandle j :=
    fun j hj => update_of_ne hj _ _
  have hself : (takeHandle sub resource).1.fHandle sub.fFirstFree =
      { sub.fHandle sub.fFirstFree with fDatum := resource } := update_self _ _ _
  refine ⟨⟨?_, hnodup, ?_, ?_, ?_, ?_⟩, hfirst, hfree⟩
  · exact hrest.congr fun j hj => hother j fun he => hnot (he ▸ hj)
  · intro j
    by_cases hj : j = sub.fFirstFree
    · subst hj
      rw [hself, isFree_iff]
      constructor
      · exact fun hin => absurd hin hnot
      · rintro ⟨-, hlt⟩
        exact absurd hlt (Nat.not_lt.2 hr)
    · rw [hother j hj, ← hmem j, tail_cons, mem_cons]
      exact ⟨.inr, fun hin => hin.resolve_left hj⟩
  · rw [length_cons] at hcount
    show rest.length = sub.fFreeHandles - 1
    omega
  · exact (isFree_iff _).1 hfree
  · intro j
    by_cases hj : j = sub.fFirstFree
    · subst hj
      rw [hself]
      exact hserial _
    · rw [hother j hj]
      exact hserial j

theorem FreeList.put (h : FreeList sub free) (hi : i < kLevel2Size)
    (hused : (sub.fHandle i).isFree = false) (serial : Nat) :
    FreeList { fFreeHandles := sub.fFreeHandles + 1, fFirstFree := i,
               fHandle := update sub.fHandle i ⟨serial % kSerialNumberCount, sub.fFirstFree⟩ } (i :: free) := by
  obtain ⟨hlinked, hnodup, hmem, hcount, hfirst, hserial⟩ := h
  have hnot : i ∉ free := by
    intro hin
    rw [(hmem i).1 hin |>.2] at hused
    cases hused
  refine ⟨.cons ?_, nodup_cons.2 ⟨hnot, hnodup⟩, ?_, ?_, hi, ?_⟩
  · dsimp only
    rw [update_self]
    refine hlinked.congr fun j hj => update_of_ne ?_ _ _
    rintro rfl
    exact hnot hj
  · intro j
    dsimp only
    by_cases hj : j = i
    · subst hj
      rw [update_self, isFree_iff]
      exact ⟨fun _ => ⟨hi, hfirst⟩, fun _ => by simp⟩
    · rw [update_of_ne hj, ← hmem j, mem_cons]
      exact ⟨fun hin => hin.resolve_left hj, .inr⟩
  · rw [length_cons, hcount]
  · intro j
    dsimp only
    by_cases hj : j = i
    · subst hj
      rw [update_self]
      exact Nat.mod_lt _ (by decide)
    · rw [update_of_ne hj]
      exact hserial j

/-! ## What the calls do to a slot -/

theorem openScan_spec (fMainTable : Nat → Option SubTable) (l : Nat) (firstEmpty : Option Nat) (n : Nat) :
    ∃ r firstEmpty', openScan fMainTable l firstEmpty n = (r, firstEmpty') ∧ l ≤ r ∧
      (∀ i sub, l ≤ i → i < r → fMainTable i = some sub → sub.fFreeHandles = 0) ∧
      ((r < l + n ∧ ∃ sub, fMainTable r = some sub ∧ 0 < sub.fFreeHandles) ∨
        (r = l + n ∧
          ((firstEmpty' = firstEmpty ∧ (firstEmpty = none → ∀ i, l ≤ i → i < l + n → (fMainTable i).isSome)) ∨
            (firstEmpty = none ∧ ∃ e, firstEmpty' = some e ∧ l ≤ e ∧ e < l + n ∧ fMainTable e = none ∧
              ∀ i, l ≤ i → i < e → (fMainTable i).isSome)))) := by
  induction n generalizing l firstEmpty with
  | zero => exact ⟨l, firstEmpty, rfl, Nat.le_refl l, fun i _ h1 h2 => by
    omega, .inr ⟨rfl, .inl ⟨rfl, fun _ i h1 h2 => by omega⟩⟩⟩
  | succ n ih =>
    unfold openScan
    cases hl : fMainTable l with
    | none =>
      obtain ⟨r, fe, hscan, hle, hfull, hend⟩ := ih (l + 1) (firstEmpty.or (some l))
      refine ⟨r, fe, hscan, by omega, ?_, ?_⟩
      · intro i sub h1 h2 hi
        rcases Nat.eq_or_lt_of_le h1 with rfl | hlt
        · rw [hl] at hi
          cases hi
        · exact hfull i sub hlt h2 hi
      · rcases hend with ⟨hr, hsub⟩ | ⟨hr, ⟨rfl, -⟩ | ⟨hnone, -⟩⟩
        · exact .inl ⟨by omega, hsub⟩
        · refine .inr ⟨by omega, ?_⟩
          cases firstEmpty with
          | none => exact .inr ⟨rfl, l, rfl, Nat.le_refl l, by omega, hl, fun i h1 h2 => by omega⟩
          | some e => exact .inl ⟨rfl, nofun⟩
        · cases firstEmpty <;> cases hnone
    | some sub =>
      dsimp only
      split
      · rename_i hpos
        exact ⟨l, firstEmpty, rfl, Nat.le_refl l, fun i _ h1 h2 => by omega, .inl ⟨by omega, sub, hl, hpos⟩⟩
      · rename_i hpos
        obtain ⟨r, fe, hscan, hle, hfull, hend⟩ := ih (l + 1) firstEmpty
        refine ⟨r, fe, hscan, by omega, ?_, ?_⟩
        · intro i sub' h1 h2 hi
          rcases Nat.eq_or_lt_of_le h1 with rfl | hlt
          · rw [hl] at hi
            cases hi
            omega
          · exact hfull i sub' hlt h2 hi
        · have hstart : ∀ i, l ≤ i → (l + 1 ≤ i → (fMainTable i).isSome) → (fMainTable i).isSome := by
            intro i h1 hi
            rcases Nat.eq_or_lt_of_le h1 with rfl | hlt
            · rw [hl]
              rfl
            · exact hi hlt
          rcases hend with ⟨hr, hsub⟩ | ⟨hr, ⟨rfl, hsome⟩ | ⟨hf, e, he, hle', hlt, hnone, hsome⟩⟩
          · exact .inl ⟨by omega, hsub⟩
          · exact .inr ⟨by omega, .inl ⟨rfl, fun hf i h1 h2 => hstart i h1 fun h1' => hsome hf i h1' (by omega)⟩⟩
          · exact .inr ⟨by omega, .inr ⟨hf, e, he, by omega, by omega, hnone,
              fun i h1 h2 => hstart i h1 fun h1' => hsome i h1' h2⟩⟩

def InTable (l i : Nat) : Prop := l < kLevel1Size ∧ i < kLevel2Size

theorem resourceAt_eq_none_of_missing (h : t.fMainTable l = none) (i : Nat) :
    resourceAt t l i = none := by
  rw [resourceAt, h, bind_none]

theorem resourceAt_of_sub (h : t.fMainTable l = some sub) (i : Nat) :
    resourceAt t l i = if (sub.fHandle i).isFree then none else some (sub.fHandle i).fDatum := by
  rw [resourceAt, h, bind_some]

theorem serialAt_of_sub (h : t.fMainTable l = some sub) (i : Nat) :
    serialAt t l i = (sub.fHandle i).fSerialNumber := by
  rw [serialAt, h, elim_some]

theorem TableInv.full_slot (h : TableInv t) (hl : t.fMainTable l = some sub)
    (hfull : sub.fFreeHandles = 0) (hi : i < kLevel2Size) : resourceAt t l i ≠ none := by
  obtain ⟨free, hfree⟩ := h.free l sub hl
  have hnil : free = [] := length_eq_zero_iff.1 (hfree.count.trans hfull)
  rw [resourceAt_of_sub hl]
  split
  · rename_i hf
    have hmem := (hfree.mem i).2 ⟨hi, hf⟩
    rw [hnil] at hmem
    cases hmem
  · exact some_ne_none _

theorem TableInv.replace (h : TableInv t) {hint : Nat}
    (hl : l < kLevel1Size) (hfree : FreeList sub free) (hprev : ∀ l' < l, (t.fMainTable l').isSome)
    (hhint : hint ≤ l) (hfull : ∀ l' < hint, ∃ sub, t.fMainTable l' = some sub ∧ sub.fFreeHandles = 0) :
    TableInv ⟨update t.fMainTable l (some sub), hint⟩ := by
  refine ⟨?_, ?_, ?_, Nat.lt_of_le_of_lt hhint hl, ?_⟩
  · intro k sub' hk
    dsimp only at hk
    by_cases hkl : k = l
    · subst hkl
      rw [update_self] at hk
      cases hk
      exact ⟨free, hfree⟩
    · rw [update_of_ne hkl] at hk
      exact h.free k sub' hk
  · intro k k' hlt hk
    dsimp only at hk ⊢
    by_cases hkl' : k' = l
    · subst hkl'
      rw [update_self]
      rfl
    · rw [update_of_ne hkl']
      by_cases hkl : k = l
      · subst hkl
        exact hprev k' hlt
      · rw [update_of_ne hkl] at hk
        exact h.ordered k k' hlt hk
  · intro k hk
    dsimp only at hk
    by_cases hkl : k = l
    · rw [hkl]
      exact hl
    · rw [update_of_ne hkl] at hk
      exact h.size k hk
  · intro k hk
    dsimp only at hk ⊢
    rw [update_of_ne (by omega)]
    exact hfull k hk

/-- What `Open` finds: a sub-table with a free entry, there already or new, with full ones before it. -/
theorem TableInv.scan (h : TableInv t) (hroom : ∃ l i, InTable l i ∧ resourceAt t l i = none) :
    ∃ l sub free, l < kLevel1Size ∧ FreeList sub free ∧ 0 < sub.fFreeHandles ∧
      (t.fMainTable l = some sub ∨ t.fMainTable l = none ∧ sub = newSubTable) ∧
      (∀ l' < l, ∃ sub, t.fMainTable l' = some sub ∧ sub.fFreeHandles = 0) ∧
      ∀ resource, openHandle t resource = some
        (⟨update t.fMainTable l (some (takeHandle sub resource).1), l⟩, l, (takeHandle sub resource).2) := by
  have hhint := h.hint
  obtain ⟨r, fe, hscan, hle, hpassed, hend⟩ := openScan_spec t.fMainTable t.fFreeHint none (kLevel1Size - t.fFreeHint)
  have hsum : t.fFreeHint + (kLevel1Size - t.fFreeHint) = kLevel1Size := by omega
  rw [hsum] at hend
  -- below the stop everything that is there is full
  have hbelow : ∀ l', l' < r → (t.fMainTable l').isSome → ∃ sub, t.fMainTable l' = some sub ∧ sub.fFreeHandles = 0 := by
    intro l' hl' hsome
    by_cases hlow : l' < t.fFreeHint
    · exact h.full l' hlow
    · obtain ⟨sub, hsub⟩ := isSome_iff_exists.1 hsome
      exact ⟨sub, hsub, hpassed l' sub (by omega) hl' hsub⟩
  rcases hend with ⟨hr, sub, hsub, hpos⟩ | ⟨hr, hend⟩
  · obtain ⟨free, hfree⟩ := h.free r sub hsub
    refine ⟨r, sub, free, hr, hfree, hpos, .inl hsub, ?_, ?_⟩
    · exact fun l' hl' => hbelow l' hl' (h.ordered r l' hl' (by rw [hsub]; rfl))
    · intro resource
      simp only [openHandle, hscan, if_neg (Nat.ne_of_lt hr), hsub, map_some]
      rfl
  · rcases hend with ⟨rfl, hall⟩ | ⟨-, e, rfl, hhe, he, hmissing, hbefore⟩
    · -- every sub-table is there and full
      exfalso
      obtain ⟨l, i, ⟨hl, hi⟩, hnone⟩ := hroom
      have hsome : (t.fMainTable l).isSome := by
        by_cases hlow : l < t.fFreeHint
        · obtain ⟨sub, hsub, -⟩ := h.full l hlow
          rw [hsub]
          rfl
        · exact hall rfl l (by omega) hl
      obtain ⟨sub, hsub, hfull⟩ := hbelow l (by omega) hsome
      exact h.full_slot hsub hfull hi hnone
    · refine ⟨e, newSubTable, _, he, freeList_newSubTable, by decide, .inr ⟨hmissing, rfl⟩, ?_, ?_⟩
      · intro l' hl'
        refine hbelow l' (by omega) ?_
        by_cases hlow : l' < t.fFreeHint
        · obtain ⟨sub, hsub, -⟩ := h.full l' hlow
          rw [hsub]
          rfl
        · exact hbefore l' (by omega) hl'
      · intro resource
        simp only [openHandle, hscan, if_pos hr, map_some]
        rfl

/-- **Open.** A free slot gets the resource; nothing else changes. -/
theorem openHandle_spec (h : TableInv t) (hroom : ∃ l i, InTable l i ∧ resourceAt t l i = none)
    (hr : kLevel2Size ≤ resource) :
    ∃ t' l i, openHandle t resource = some (t', l, i) ∧ TableInv t' ∧ InTable l i ∧ resourceAt t l i = none ∧
      resourceAt t' l i = some resource ∧ (∀ l' i', InTable l' i' → serialAt t' l' i' = serialAt t l' i') ∧
      ∀ l' i', InTable l' i' → ¬ (l' = l ∧ i' = i) → resourceAt t' l' i' = resourceAt t l' i' := by
  obtain ⟨l, sub, free, hl, hfree, hpos, hsub, hfull, hopen⟩ := h.scan hroom
  obtain ⟨htake, hfirst, hisFree⟩ := hfree.take hpos hr
  have hself : (takeHandle sub resource).1.fHandle sub.fFirstFree =
      { sub.fHandle sub.fFirstFree with fDatum := resource } := update_self _ _ _
  have hother : ∀ j, j ≠ sub.fFirstFree → (takeHandle sub resource).1.fHandle j = sub.fHandle j :=
    fun j hj => update_of_ne hj _ _
  generalize hsub' : (takeHandle sub resource).1 = sub' at htake hself hother
  have hnew : (⟨update t.fMainTable l (some sub'), l⟩ : HandleTable).fMainTable l = some sub' :=
    update_self _ _ _
  -- a missing sub-table reads as a new one
  have hold : ∀ j < kLevel2Size, resourceAt t l j = (if (sub.fHandle j).isFree then none else some (sub.fHandle j).fDatum) ∧
      serialAt t l j = (sub.fHandle j).fSerialNumber := by
    intro j hj
    rcases hsub with hsub | ⟨hmissing, rfl⟩
    · exact ⟨resourceAt_of_sub hsub j, serialAt_of_sub hsub j⟩
    · have hj' := ((freeList_newSubTable.mem j).1 (by rw [mem_reverse, mem_range]; exact hj)).2
      rw [resourceAt_eq_none_of_missing hmissing, if_pos hj', serialAt, hmissing]
      exact ⟨rfl, rfl⟩
  refine ⟨_, l, sub.fFirstFree, hsub' ▸ hopen resource, ?_, ⟨hl, hfirst⟩, ?_, ?_, ?_, ?_⟩
  · exact h.replace hl htake (fun l' hl' => by
      obtain ⟨sub'', hl'', -⟩ := hfull l' hl'
      rw [hl'']
      rfl) (Nat.le_refl l) hfull
  · rw [(hold _ hfirst).1, if_pos hisFree]
  · have hused : ¬ (sub'.fHandle sub.fFirstFree).isFree = true := by
      rw [isFree_iff, hself]
      exact Nat.not_lt.2 hr
    rw [resourceAt_of_sub hnew, if_neg hused, hself]
  · intro l' i' hin
    by_cases hl' : l' = l
    · subst hl'
      rw [serialAt_of_sub hnew, (hold i' hin.2).2]
      by_cases hi' : i' = sub.fFirstFree
      · subst hi'
        rw [hself]
      · rw [hother i' hi']
    · simp only [serialAt, update_of_ne hl']
  · intro l' i' hin hne
    by_cases hl' : l' = l
    · subst hl'
      rw [resourceAt_of_sub hnew, (hold i' hin.2).1, hother i' fun hi' => hne ⟨rfl, hi'⟩]
    · simp only [resourceAt, update_of_ne hl']

theorem room_of_openHandle {t' : HandleTable} (h : TableInv t)
    (hopen : openHandle t resource = some (t', l, i)) : ∃ l i, InTable l i ∧ resourceAt t l i = none := by
  have hhint := h.hint
  obtain ⟨r, fe, hscan, hle, -, hend⟩ := openScan_spec t.fMainTable t.fFreeHint none (kLevel1Size - t.fFreeHint)
  have hsum : t.fFreeHint + (kLevel1Size - t.fFreeHint) = kLevel1Size := by omega
  rw [hsum] at hend
  rcases hend with ⟨hr, sub, hsub, hpos⟩ | ⟨hr, ⟨rfl, -⟩ | ⟨-, e, -, -, he, hmissing, -⟩⟩
  · obtain ⟨free, hfree⟩ := h.free r sub hsub
    obtain ⟨j, hj⟩ := exists_mem_of_length_pos (show 0 < free.length by rw [hfree.count]; exact hpos)
    obtain ⟨hlt, hisFree⟩ := (hfree.mem j).1 hj
    exact ⟨r, j, ⟨hr, hlt⟩, by rw [resourceAt_of_sub hsub, if_pos hisFree]⟩
  · simp only [openHandle, hscan, if_pos hr, map_none] at hopen
    cases hopen
  · exact ⟨e, 0, ⟨he, by decide⟩, resourceAt_eq_none_of_missing hmissing 0⟩

/-- **Close.** The slot of an open handle is free again, with the next serial number; nothing else changes. -/
theorem closeHandle_spec (h : TableInv t)
    (hr : resourceAt t (level1Of id) (level2Of id) = some resource) :
    ∃ t', closeHandle t id = some (t', resource) ∧ TableInv t' ∧ resourceAt t' (level1Of id) (level2Of id) = none ∧
      serialAt t' (level1Of id) (level2Of id) = (serialAt t (level1Of id) (level2Of id) + 1) % kSerialNumberCount ∧
      ∀ l' i', ¬ (l' = level1Of id ∧ i' = level2Of id) →
        resourceAt t' l' i' = resourceAt t l' i' ∧ serialAt t' l' i' = serialAt t l' i' := by
  have hi : level2Of id < kLevel2Size := Nat.mod_lt _ (by decide)
  obtain ⟨sub, hsub, hdatum⟩ := bind_eq_some_iff.1 hr
  obtain ⟨hused, rfl⟩ : (sub.fHandle (level2Of id)).isFree = false ∧ (sub.fHandle (level2Of id)).fDatum = resource := by
    split at hdatum
    · cases hdatum
    · rename_i hnot
      exact ⟨by simpa using hnot, Option.some.inj hdatum⟩
  obtain ⟨free, hfree⟩ := h.free _ sub hsub
  have hput := hfree.put hi hused ((sub.fHandle (level2Of id)).fSerialNumber + 1)
  generalize hsub' : (⟨sub.fFreeHandles + 1, level2Of id, update sub.fHandle (level2Of id)
    ⟨((sub.fHandle (level2Of id)).fSerialNumber + 1) % kSerialNumberCount, sub.fFirstFree⟩⟩ : SubTable) = sub' at hput
  have hself : sub'.fHandle (level2Of id) =
      ⟨((sub.fHandle (level2Of id)).fSerialNumber + 1) % kSerialNumberCount, sub.fFirstFree⟩ := by
    rw [← hsub']
    exact update_self _ _ _
  have hother : ∀ j, j ≠ level2Of id → sub'.fHandle j = sub.fHandle j := by
    intro j hj
    rw [← hsub']
    exact update_of_ne hj _ _
  have hnew : (⟨update t.fMainTable (level1Of id) (some sub'), min (level1Of id) t.fFreeHint⟩ :
      HandleTable).fMainTable (level1Of id) = some sub' := update_self _ _ _
  refine ⟨⟨update t.fMainTable (level1Of id) (some sub'), min (level1Of id) t.fFreeHint⟩, ?_, ?_, ?_, ?_, ?_⟩
  · simp only [closeHandle, hsub, bind_eq_bind, bind_some, hsub']
    rfl
  · have hl := h.size (level1Of id) (by rw [hsub]; rfl)
    refine h.replace hl hput (fun l' hl' => h.ordered _ l' hl' (by rw [hsub]; rfl)) (Nat.min_le_left _ _) ?_
    intro l' hl'
    exact h.full l' (Nat.lt_of_lt_of_le hl' (Nat.min_le_right _ _))
  · have hfreeNow : (sub'.fHandle (level2Of id)).isFree = true := by
      rw [isFree_iff, hself]
      exact hfree.first
    rw [resourceAt_of_sub hnew, if_pos hfreeNow]
  · rw [serialAt_of_sub hnew, hself, serialAt_of_sub hsub]
  · intro l' i' hne
    by_cases hl' : l' = level1Of id
    · subst hl'
      have hi' : i' ≠ level2Of id := fun hi' => hne ⟨rfl, hi'⟩
      rw [resourceAt_of_sub hnew, resourceAt_of_sub hsub, serialAt_of_sub hnew, serialAt_of_sub hsub, hother i' hi']
      exact ⟨rfl, rfl⟩
    · simp only [resourceAt, serialAt, update_of_ne hl', and_self]

theorem tableInv_new : TableInv newHandleTable := by
  refine ⟨?_, ?_, ?_, by decide, fun l hl => absurd hl (Nat.not_lt_zero l)⟩
  · intro l sub hl
    cases hl
  · intro l l' _ hl
    cases hl
  · intro l hl
    cases hl

theorem TableInv.serial_lt (h : TableInv t) (l i : Nat) : serialAt t l i < kSerialNumberCount := by
  rw [serialAt]
  cases hl : t.fMainTable l with
  | none => exact (by decide : 0 < kSerialNumberCount)
  | some sub =>
    obtain ⟨free, hfree⟩ := h.free l sub hl
    exact hfree.serial i

/-! ## Ids -/

theorem level1Of_handleId (hin : InTable l i) : level1Of (handleId serial l i) = l := by
  obtain ⟨hl, hi⟩ := hin
  unfold level1Of handleId kLevel1Size kLevel2Size at *
  rw [Int.toNat_natCast]
  omega

theorem level2Of_handleId (hin : InTable l i) : level2Of (handleId serial l i) = i := by
  obtain ⟨hl, hi⟩ := hin
  unfold level2Of handleId kLevel1Size kLevel2Size at *
  rw [Int.toNat_natCast]
  omega

theorem serialOf_handleId (hin : InTable l i) : serialOf (handleId serial l i) = serial := by
  obtain ⟨hl, hi⟩ := hin
  unfold serialOf handleId kLevel1Size kLevel2Size at *
  rw [Int.toNat_natCast]
  omega

theorem handleId_nonneg (serial l i : Nat) : 0 ≤ handleId serial l i := Int.natCast_nonneg _

theorem handleId_lt (hin : InTable l i) (hs : serial < kSerialNumberCount) :
    handleId serial l i < 2 ^ 31 := by
  obtain ⟨hl, hi⟩ := hin
  unfold handleId kSerialNumberCount kLevel1Size kLevel2Size at *
  omega

theorem inTable_of (id : Int) : InTable (level1Of id) (level2Of id) :=
  ⟨Nat.mod_lt _ (by decide), Nat.mod_lt _ (by decide)⟩

theorem id_ext {id' : Int} (h0 : 0 ≤ id) (h1 : id < 2 ^ 31) (h0' : 0 ≤ id') (h1' : id' < 2 ^ 31)
    (hl : level1Of id = level1Of id') (hi : level2Of id = level2Of id') (hs : serialOf id = serialOf id') : id = id' := by
  unfold level1Of level2Of serialOf kLevel1Size kLevel2Size at *
  omega

end HandleTables
