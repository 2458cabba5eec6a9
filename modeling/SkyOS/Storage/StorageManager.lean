import Mathlib.Algebra.Group.Nat.Defs
import Mathlib.Data.List.FinRange
import Mathlib.Logic.Function.Basic
import SkyOS.Lib.Machine
import SkyOS.Lib.StepSystem

/-!
# The storage registry (`FileSystem/StorageManager.cpp:14-104`)

26 slots for file systems, the number of them that are in use, and the current one. The slot of a device id is its
letter, a `char` computed from the low byte of the id.

| here | there |
| --- | --- |
| `α` | the adaptors, `Option α` a `FileSysAdaptor*` |
| `m_deviceID` of the manager | the field of each adaptor |
| `none` as the result of a call | an access outside `m_fileSystems` |

Five calls change slots, count or current file system, and each forgets something: `Keeps` says when a call does no harm.
-/

namespace Storage

open Machine Option

universe u

/-! ## The source -/

def STORAGE_DEVICE_MAX : Nat := 26

/-- `_pctype[(unsigned char)c] & _LOWER` (CommonLib/ctype.cpp). -/
def islower (c : Nat) : Bool := 0x61 ≤ c % 256 && c % 256 ≤ 0x7A

/-- `toupper` (CommonLib/ctype.h:103) of a `DWORD`. -/
def toupper (c : Nat) : Nat := if islower c then c - 0x61 + 0x41 else c

/-- Narrowing to a signed `char`. -/
def toChar (x : Int) : Int := (x + 128) % 256 - 128

/-- `char deviceLetter = toupper(deviceID); deviceLetter -= 'A';` -/
def deviceLetter (deviceID : Nat) : Int := toChar (toChar (toupper deviceID) - 0x41)

def slotOf (letter : Int) : Option (Fin STORAGE_DEVICE_MAX) :=
  if h : 0 ≤ letter ∧ letter < 26 then some ⟨letter.toNat, by unfold STORAGE_DEVICE_MAX; omega⟩ else none

structure StorageManager (α : Type u) where
  m_fileSystems : Vector (Option α) STORAGE_DEVICE_MAX
  m_stroageCount : Int
  m_pCurrentFileSystem : Option α
  m_deviceID : α → Nat

section

variable {α : Type u} [DecidableEq α]

/-- The constructor (:14), with the adaptors as they are. -/
def StorageManager.empty (m_deviceID : α → Nat) : StorageManager α where
  m_fileSystems := Vector.replicate STORAGE_DEVICE_MAX none
  m_stroageCount := 0
  m_pCurrentFileSystem := none
  m_deviceID := m_deviceID

/-- The loop of `UnregisterFileSystem` and `SetCurrentFileSystem`: the first slot that holds the pointer. -/
def StorageManager.find (s : StorageManager α) (fsys : Option α) : Option (Fin STORAGE_DEVICE_MAX) :=
  (List.finRange STORAGE_DEVICE_MAX).find? fun i => s.m_fileSystems[i] = fsys

/-- `RegisterFileSystem` (:26). -/
def RegisterFileSystem (s : StorageManager α) (fsys : Option α) (deviceID : Nat) : Option (Bool × StorageManager α) :=
  if s.m_stroageCount < STORAGE_DEVICE_MAX then
    match fsys with
    | none => some (false, s)
    | some a => (slotOf (deviceLetter deviceID)).map fun i : Fin STORAGE_DEVICE_MAX => (true, { s with
        m_fileSystems := s.m_fileSystems.set i fsys
        m_stroageCount := toInt32 (s.m_stroageCount + 1)
        m_deviceID := Function.update s.m_deviceID a (dword (deviceLetter deviceID)) })
  else some (false, s)

/-- `UnregisterFileSystem` (:46). -/
def UnregisterFileSystem (s : StorageManager α) (fsys : Option α) : Bool × StorageManager α :=
  match s.find fsys with
  | some i => (true, { s with
      m_fileSystems := s.m_fileSystems.set i none
      m_stroageCount := toInt32 (s.m_stroageCount - 1) })
  | none => (false, s)

/-- `SetCurrentFileSystemByID` (:61). -/
def SetCurrentFileSystemByID (s : StorageManager α) (deviceID : Nat) : Option (Bool × StorageManager α) :=
  if deviceLetter deviceID < STORAGE_DEVICE_MAX then
    (slotOf (deviceLetter deviceID)).map fun i : Fin STORAGE_DEVICE_MAX =>
      if s.m_fileSystems[i] ≠ none then (true, { s with m_pCurrentFileSystem := s.m_fileSystems[i] }) else (false, s)
  else some (false, s)

/-- `SetCurrentFileSystem` (:77). -/
def SetCurrentFileSystem (s : StorageManager α) (fsys : Option α) : Bool × StorageManager α :=
  match s.find fsys with
  | some i => (true, { s with m_pCurrentFileSystem := s.m_fileSystems[i] })
  | none => (false, s)

/-- `UnregisterFileSystemByID` (:90). -/
def UnregisterFileSystemByID (s : StorageManager α) (deviceID : Nat) : Option (Bool × StorageManager α) :=
  if deviceLetter deviceID < STORAGE_DEVICE_MAX then
    (slotOf (deviceLetter deviceID)).map fun i : Fin STORAGE_DEVICE_MAX =>
      if s.m_fileSystems[i] ≠ none then (true, { s with m_fileSystems := s.m_fileSystems.set i none }) else (false, s)
  else some (false, s)

end

inductive Call (α : Type u) where
  | register (fsys : Option α) (deviceID : Nat)
  | unregister (fsys : Option α)
  | unregisterByID (deviceID : Nat)
  | setCurrent (fsys : Option α)
  | setCurrentByID (deviceID : Nat)
deriving DecidableEq, Repr

variable {α : Type u} [DecidableEq α]

def step (s : StorageManager α) : Call α → Option (StorageManager α)
  | .register fsys deviceID => (RegisterFileSystem s fsys deviceID).map Prod.snd
  | .unregister fsys => some (UnregisterFileSystem s fsys).2
  | .unregisterByID deviceID => (UnregisterFileSystemByID s deviceID).map Prod.snd
  | .setCurrent fsys => some (SetCurrentFileSystem s fsys).2
  | .setCurrentByID deviceID => (SetCurrentFileSystemByID s deviceID).map Prod.snd

def storage (α : Type u) [DecidableEq α] : StepSystem (StorageManager α) (Call α) where
  init s := ∃ m_deviceID, s = StorageManager.empty m_deviceID
  step := step

/-! ## What should hold -/

/-- The count is the number of slots in use, and the current file system is in one of them. -/
structure Right (s : StorageManager α) : Prop where
  count_eq : s.m_stroageCount = (s.m_fileSystems.countP Option.isSome : Nat)
  current_mem : ∀ a, s.m_pCurrentFileSystem = some a → some a ∈ s.m_fileSystems

/-- The call stays within `m_fileSystems`, and what should hold does after it. -/
def CallRight (s : StorageManager α) (c : Call α) : Prop := ∃ s', step s c = some s' ∧ Right s'

/-- The calls that do no harm: a registration, where one is made, goes to an empty slot; what is removed by pointer is
no null pointer in an empty slot, and not the only slot of the current file system; nothing is removed by id; no letter
is negative. -/
def Keeps (s : StorageManager α) : Call α → Prop
  | .register fsys deviceID => s.m_stroageCount < 26 → fsys ≠ none →
      ∃ i, slotOf (deviceLetter deviceID) = some i ∧ s.m_fileSystems[i] = none
  | .unregister none => none ∉ s.m_fileSystems
  | .unregister (some a) => s.m_pCurrentFileSystem = some a → s.m_fileSystems.count (some a) ≠ 1
  | .unregisterByID deviceID => 26 ≤ deviceLetter deviceID ∨
      ∃ i, slotOf (deviceLetter deviceID) = some i ∧ s.m_fileSystems[i] = none
  | .setCurrent _ => True
  | .setCurrentByID deviceID => 0 ≤ deviceLetter deviceID

instance (s : StorageManager α) (c : Call α) : Decidable (Keeps s c) :=
  match c with
  | .register fsys deviceID => inferInstanceAs (Decidable (s.m_stroageCount < 26 → fsys ≠ none →
      ∃ i, slotOf (deviceLetter deviceID) = some i ∧ s.m_fileSystems[i] = none))
  | .unregister none => inferInstanceAs (Decidable (none ∉ s.m_fileSystems))
  | .unregister (some a) =>
    inferInstanceAs (Decidable (s.m_pCurrentFileSystem = some a → s.m_fileSystems.count (some a) ≠ 1))
  | .unregisterByID deviceID => inferInstanceAs (Decidable (26 ≤ deviceLetter deviceID ∨
      ∃ i, slotOf (deviceLetter deviceID) = some i ∧ s.m_fileSystems[i] = none))
  | .setCurrent _ => .isTrue trivial
  | .setCurrentByID deviceID => inferInstanceAs (Decidable (0 ≤ deviceLetter deviceID))

/-! ## Slots -/

variable {s : StorageManager α}

variable {letter : Int} {fsys : Option α}

theorem slotOf_eq_some (h : 0 ≤ letter) (h' : letter < 26) : ∃ i, slotOf letter = some i := by
  unfold slotOf
  rw [dif_pos ⟨h, h'⟩]
  exact ⟨_, rfl⟩

variable {i : Fin STORAGE_DEVICE_MAX} {fs : Vector (Option α) STORAGE_DEVICE_MAX}

theorem slotOf_nonneg (h : slotOf letter = some i) :
    0 ≤ letter ∧ letter < 26 := by
  unfold slotOf at h
  split at h
  · assumption
  · cases h

theorem find_eq_some (h : s.find fsys = some i) :
    s.m_fileSystems[i] = fsys := by
  simpa using List.find?_some h

theorem find_eq_none : s.find fsys = none ↔ fsys ∉ s.m_fileSystems := by
  unfold StorageManager.find
  rw [List.find?_eq_none, Vector.mem_iff_getElem]
  constructor
  · rintro h ⟨i, hi, heq⟩
    exact absurd (decide_eq_true heq) (h ⟨i, hi⟩ (List.mem_finRange _))
  · intro h i _ heq
    exact h ⟨i, i.isLt, of_decide_eq_true heq⟩

omit [DecidableEq α] in
theorem mem_set_of_mem {x y : Option α}
    (h : x ∈ fs) (hne : fs[i] ≠ x) : x ∈ fs.set i y := by
  obtain ⟨j, hj, rfl⟩ := Vector.mem_iff_getElem.1 h
  refine Vector.mem_iff_getElem.2 ⟨j, hj, ?_⟩
  rw [Vector.getElem_set_ne]
  intro heq
  subst heq
  exact hne rfl

omit [DecidableEq α] in
theorem countP_isSome_le (fs : Vector (Option α) STORAGE_DEVICE_MAX) : fs.countP Option.isSome ≤ 26 := Vector.countP_le_size

omit [DecidableEq α] in
theorem inUse_set_empty (h : fs[i] = none)
    (y : Option α) : (fs.set i y).countP Option.isSome = fs.countP Option.isSome + if y.isSome then 1 else 0 := by
  rw [Vector.countP_set i.isLt, show fs[(i : Nat)] = none from h]
  rfl

omit [DecidableEq α] in
theorem inUse_set_occupied (h : fs[i] ≠ none)
    (y : Option α) : (fs.set i y).countP Option.isSome + 1 = fs.countP Option.isSome + if y.isSome then 1 else 0 := by
  have hpos : 0 < fs.countP Option.isSome :=
    Vector.countP_pos_iff.2 ⟨_, Vector.getElem_mem i.isLt, isSome_iff_ne_none.2 h⟩
  rw [Vector.countP_set i.isLt, if_pos (show fs[(i : Nat)].isSome from isSome_iff_ne_none.2 h)]
  omega

/-! ## The calls, one by one -/

section

variable (h : Right s)
include h

theorem register_right_iff (fsys : Option α) (deviceID : Nat) :
    CallRight s (.register fsys deviceID) ↔ Keeps s (.register fsys deviceID) := by
  have hcount := h.count_eq
  unfold CallRight Keeps step RegisterFileSystem
  dsimp only
  by_cases hroom : s.m_stroageCount < 26
  · rw [if_pos (by exact hroom)]
    cases fsys with
    | none => exact iff_of_true ⟨s, rfl, h⟩ fun _ hne => absurd rfl hne
    | some a =>
      cases hslot : slotOf (deviceLetter deviceID) with
      | none => exact iff_of_false (by rintro ⟨_, hnone, -⟩; cases hnone) fun hk => by simpa using hk hroom
      | some i =>
        have hnext : toInt32 (s.m_stroageCount + 1) = s.m_stroageCount + 1 := toInt32_of_isInt32 ⟨by omega, by omega⟩
        constructor
        · rintro ⟨s', hs, hright⟩ - -
          obtain rfl := Option.some.inj hs
          refine ⟨i, rfl, ?_⟩
          have hafter : toInt32 (s.m_stroageCount + 1) = ((s.m_fileSystems.set i (some a)).countP Option.isSome : Nat) :=
            hright.count_eq
          rw [hnext] at hafter
          -- had the slot been in use, the number of slots in use would be the same
          by_contra hused
          have hsame := inUse_set_occupied hused (some a)
          rw [if_pos isSome_some] at hsame
          omega
        · intro hk
          obtain ⟨j, hj, hempty⟩ := hk hroom (some_ne_none a)
          obtain rfl := Option.some.inj hj
          refine ⟨_, rfl, ?_, fun b hb => ?_⟩
          · dsimp only
            rw [hnext, inUse_set_empty hempty, if_pos isSome_some]
            omega
          · refine mem_set_of_mem (h.current_mem b hb) ?_
            rw [hempty]
            exact some_ne_none b |>.symm
  · rw [if_neg (by exact hroom)]
    exact iff_of_true ⟨s, rfl, h⟩ fun hlt => absurd hlt hroom

theorem unregister_null_right_iff : CallRight s (.unregister none) ↔ Keeps s (.unregister none) := by
  have hle := countP_isSome_le s.m_fileSystems
  have hcount := h.count_eq
  unfold CallRight Keeps step UnregisterFileSystem
  dsimp only
  cases hfind : s.find none with
  | none => exact iff_of_true ⟨s, rfl, h⟩ (find_eq_none.1 hfind)
  | some i =>
    have hempty := find_eq_some hfind
    have hmem : none ∈ s.m_fileSystems := Vector.mem_of_getElem hempty
    refine iff_of_false ?_ (fun hk => hk hmem)
    rintro ⟨s', hs, hright⟩
    obtain rfl := Option.some.inj hs
    have hafter : toInt32 (s.m_stroageCount - 1) = ((s.m_fileSystems.set i none).countP Option.isSome : Nat) :=
      hright.count_eq
    rw [toInt32_of_isInt32 ⟨by omega, by omega⟩, inUse_set_empty hempty, if_neg (by simp)] at hafter
    omega

theorem unregister_right_iff (a : α) : CallRight s (.unregister (some a)) ↔ Keeps s (.unregister (some a)) := by
  have hle := countP_isSome_le s.m_fileSystems
  have hcount := h.count_eq
  unfold CallRight Keeps step UnregisterFileSystem
  dsimp only
  cases hfind : s.find (some a) with
  | none =>
    refine iff_of_true ⟨s, rfl, h⟩ fun hcur => ?_
    exact absurd (h.current_mem a hcur) (find_eq_none.1 hfind)
  | some i =>
    have hslot := find_eq_some hfind
    have hmem : some a ∈ s.m_fileSystems := Vector.mem_of_getElem hslot
    have hset := inUse_set_occupied (show s.m_fileSystems[i] ≠ none by rw [hslot]; exact some_ne_none a) none
    rw [if_neg (by simp)] at hset
    have hother : (s.m_fileSystems.set i none).count (some a) = s.m_fileSystems.count (some a) - 1 := by
      rw [Vector.count_set i.isLt]
      have hslot' : s.m_fileSystems[i.val] = some a := hslot
      simp [hslot']
    constructor
    · rintro ⟨s', hs, hright⟩ hcur hone
      obtain rfl := Option.some.inj hs
      have hstill : some a ∈ s.m_fileSystems.set i none := hright.current_mem a hcur
      rw [← Vector.count_pos_iff, hother, hone] at hstill
      omega
    · intro hk
      refine ⟨_, rfl, ?_, fun b hb => ?_⟩
      · dsimp only
        rw [toInt32_of_isInt32 ⟨by omega, by omega⟩]
        omega
      · by_cases hba : b = a
        · subst hba
          have hmany := hk hb
          have hone : 0 < s.m_fileSystems.count (some b) := Vector.count_pos_iff.2 hmem
          rw [← Vector.count_pos_iff, hother]
          omega
        · refine mem_set_of_mem (h.current_mem b hb) ?_
          rw [hslot]
          exact fun heq => hba (Option.some.inj heq).symm

theorem unregisterByID_right_iff (deviceID : Nat) :
    CallRight s (.unregisterByID deviceID) ↔ Keeps s (.unregisterByID deviceID) := by
  have hcount := h.count_eq
  unfold CallRight Keeps step UnregisterFileSystemByID
  dsimp only
  by_cases hrange : deviceLetter deviceID < 26
  · rw [if_pos (by exact hrange)]
    cases hslot : slotOf (deviceLetter deviceID) with
    | none => exact iff_of_false (by rintro ⟨_, hnone, -⟩; cases hnone) (by rintro (hge | ⟨i, hi, -⟩); omega; cases hi)
    | some i =>
      simp only [map_some]
      by_cases hempty : s.m_fileSystems[i] = none
      · rw [if_neg (not_not.2 hempty)]
        exact iff_of_true ⟨s, rfl, h⟩ (.inr ⟨i, rfl, hempty⟩)
      · rw [if_pos hempty]
        refine iff_of_false ?_ ?_
        · rintro ⟨s', hs, hright⟩
          obtain rfl := Option.some.inj hs
          have hset := inUse_set_occupied hempty none
          have hafter : s.m_stroageCount = ((s.m_fileSystems.set i none).countP Option.isSome : Nat) := hright.count_eq
          rw [if_neg (by simp)] at hset
          omega
        · rintro (hge | ⟨j, hj, hnone⟩)
          · omega
          · obtain rfl := Option.some.inj hj
            exact hempty hnone
  · rw [if_neg (by exact hrange)]
    exact iff_of_true ⟨s, rfl, h⟩ (.inl (Int.not_lt.1 hrange))

theorem setCurrent_right (fsys : Option α) : CallRight s (.setCurrent fsys) := by
  unfold CallRight step SetCurrentFileSystem
  dsimp only
  cases s.find fsys with
  | none => exact ⟨s, rfl, h⟩
  | some i => exact ⟨_, rfl, h.count_eq, fun a ha => Vector.mem_of_getElem ha⟩

theorem setCurrentByID_right_iff (deviceID : Nat) :
    CallRight s (.setCurrentByID deviceID) ↔ Keeps s (.setCurrentByID deviceID) := by
  unfold CallRight Keeps step SetCurrentFileSystemByID
  dsimp only
  by_cases hrange : deviceLetter deviceID < 26
  · rw [if_pos (by exact hrange)]
    cases hslot : slotOf (deviceLetter deviceID) with
    | none =>
      refine iff_of_false (by rintro ⟨_, hnone, -⟩; cases hnone) fun hnonneg => ?_
      obtain ⟨i, hi⟩ := slotOf_eq_some hnonneg hrange
      rw [hi] at hslot
      cases hslot
    | some i =>
      refine iff_of_true ?_ (slotOf_nonneg hslot).1
      simp only [map_some]
      split
      · exact ⟨_, rfl, h.count_eq, fun a ha => Vector.mem_of_getElem ha⟩
      · exact ⟨s, rfl, h⟩
  · rw [if_neg (by exact hrange)]
    exact iff_of_true ⟨s, rfl, h⟩ (by omega)

/-- From a registry in order, a call is right exactly when it does no harm. -/
theorem callRight_iff (c : Call α) : CallRight s c ↔ Keeps s c := by
  cases c with
  | register fsys deviceID => exact register_right_iff h fsys deviceID
  | unregister fsys =>
    cases fsys with
    | none => exact unregister_null_right_iff h
    | some a => exact unregister_right_iff h a
  | unregisterByID deviceID => exact unregisterByID_right_iff h deviceID
  | setCurrent fsys => exact iff_of_true (setCurrent_right h fsys) trivial
  | setCurrentByID deviceID => exact setCurrentByID_right_iff h deviceID

end

/-! ## Runs -/

omit [DecidableEq α] in
theorem right_empty (m_deviceID : α → Nat) : Right (StorageManager.empty m_deviceID) where
  count_eq := by simp [StorageManager.empty, Vector.countP_replicate]
  current_mem a h := by cases h

/-- **The registry**: in every run of harmless calls every access is in range, the count is that of the slots in use
and the current file system is registered; and from there on any call keeps that exactly when it is harmless. -/
theorem registry_right {s : StorageManager α} (h : (storage α).ReachVia Keeps s) :
    Right s ∧ ∀ c, CallRight s c ↔ Keeps s c := by
  have hright : Right s := by
    refine h.invariant Right ?_ ?_
    · rintro s ⟨m_deviceID, rfl⟩
      exact right_empty m_deviceID
    · intro s c s' hs hkeeps hstep
      obtain ⟨t, ht, hright⟩ := (callRight_iff hs c).2 hkeeps
      obtain rfl : t = s' := Option.some.inj (ht.symm.trans hstep)
      exact hright
  exact ⟨hright, callRight_iff hright⟩

def twoDrives : List (Call Nat) :=
  [.register (some 0) 0x4C, .register (some 1) 0x70, .setCurrentByID 0x6C, .unregister (some 1)]

theorem registry_right_twoDrives : ∃ s, (storage Nat).exec (StorageManager.empty fun _ => 0) twoDrives = some s ∧ Right s ∧
    ∀ c, CallRight s c ↔ Keeps s c := by
  have hmeets : (storage Nat).Meets Keeps (StorageManager.empty fun _ => 0) twoDrives := by decide
  have hruns : ((storage Nat).exec (StorageManager.empty fun _ => 0) twoDrives).isSome = true := by decide
  obtain ⟨s, he⟩ := Option.isSome_iff_exists.1 hruns
  exact ⟨s, he, registry_right (StepSystem.reachVia_exec twoDrives (.init ⟨_, rfl⟩) hmeets he)⟩

/-- A drive that is registered and removed by its id is still counted. -/
theorem unregisterByID_wrong : ∃ s, (storage Nat).Reach s ∧ ¬Right s := by
  have hruns : ((storage Nat).exec (StorageManager.empty fun _ => 0)
      [.register (some 0) 0x4C, .unregisterByID 0x4C]).isSome = true := by decide
  obtain ⟨s, he⟩ := Option.isSome_iff_exists.1 hruns
  refine ⟨s, StepSystem.reach_exec _ (.init ⟨_, rfl⟩) he, fun hright => ?_⟩
  have hcount : ((storage Nat).exec (StorageManager.empty fun _ => 0)
      [.register (some 0) 0x4C, .unregisterByID 0x4C]).map StorageManager.m_stroageCount = some 1 := by decide
  have hslots : ((storage Nat).exec (StorageManager.empty fun _ => 0)
      [.register (some 0) 0x4C, .unregisterByID 0x4C]).map (fun s => s.m_fileSystems.countP Option.isSome) = some 0 := by
    decide
  rw [he] at hcount hslots
  have hone : s.m_stroageCount = 1 := Option.some.inj hcount
  have hzero : s.m_fileSystems.countP Option.isSome = 0 := Option.some.inj hslots
  have heq := hright.count_eq
  omega

end Storage
