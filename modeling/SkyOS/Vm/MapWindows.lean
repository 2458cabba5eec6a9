import SkyOS.Vm.LockedWindows
import SkyOS.Vm.MappedCount

/-!
# `PhysicalMap` with its windows (`PhysicalMap.cpp:46-215`)

Directories and page tables are reached through windows of `LockPhysicalPage`, of which there are 1023. A window shows
its page as long as it is locked, so the words read and written are those of `PhysicalMaps`; what comes to them here are
the window calls of each call, in their order. When there is no slot for a window the kernel panics, and the call has no
result.

`Map` does not give back the window of `:98`. And for a table at or above `kKernelBase`, as are all of user addresses,
it locks each directory and then unlocks its physical address (`:131-132`): the window stays locked, and a word far
behind `fLockedPages` is counted down, whatever it belongs to. It is not a word of maps or windows here; `CountsOutside`
says that it does not come to 0, for then what lies there would be taken for a slot.

| here | there |
| --- | --- |
| `WindowCall.unlock pa` | `UnlockPhysicalPage` of the window last locked for `pa` |
| `WindowCall.unlockPhysical pa` | `UnlockPhysicalPage` of `pa` itself |
| `PagedCall.lock`, `unlock` | the calls of others |
-/

namespace PhysicalMaps

open LockedPages (Linked Slot lookup bucketOf)
open Option

inductive WindowCall where
  | lock (pa : Nat)
  | unlock (pa : Nat)
  | unlockPhysical (pa : Nat)
deriving DecidableEq

/-- One lock more is an `int`. -/
def Countable (w : LockedPages.State) (pa : Nat) : Prop := ∀ slot ∈ (lookup w pa).join,
    (w.fLockedPages slot).mapCount < 2 ^ 31 - 1
  deriving Decidable

def windowCall (w : LockedPages.State) : WindowCall → Option LockedPages.State
  | .lock pa => if Countable w pa then (LockedPages.lock w pa).map fun (_, w') => w' else none
  | .unlock pa => some ((w.locks.find? (·.1 = pa)).elim w fun held => LockedPages.unlock w held.2)
  | .unlockPhysical pa => some (LockedPages.unlockPhysicalPage w pa)

def pool : StepSystem LockedPages.State WindowCall where
  init := LockedPages.Initial
  step := windowCall

/-! ## The window calls of each call -/

/-- `Map` (:98-:166). -/
def mapWindows (s : State) (m : PhysicalMap) (va : Nat) : List WindowCall :=
  let pdent := s.memory m.fPageDirectory (dirIndex va)
  .lock m.fPageDirectory ::
    (if isPresent pdent then [.lock (pageOf pdent), .unlock (pageOf pdent)]
    else (allocPage s).elim [] fun (newTablePA, _) =>
      .lock newTablePA :: (if va ≥ kKernelBase then s.fPhysicalMaps.flatMap fun map =>
        [.lock map.fPageDirectory, .unlockPhysical map.fPageDirectory] else []) ++ [.unlock newTablePA]) ++
    [.lock m.fPageDirectory, .unlock m.fPageDirectory]

/-- The tables that the outer loop of `Unmap` (:182-211) comes to. -/
def tablesOf (memory : Memory) (dir : Nat) : List Nat → Nat → Nat → List Nat
  | [], _, _ => []
  | pdindex :: dirs, ptindex, count =>
    if count = 0 then []
    else if ¬ isPresent (memory dir pdindex) then
      if ptindex + count < 1024 then [] else tablesOf memory dir dirs 0 (count - (1024 - ptindex))
    else pageOf (memory dir pdindex) :: tablesOf memory dir dirs 0 (count - min count (1024 - ptindex))

/-- `Unmap` (:178-:213). -/
def unmapWindows (s : State) (m : PhysicalMap) (base size : Nat) : List WindowCall :=
  .lock m.fPageDirectory ::
    (tablesOf s.memory m.fPageDirectory ((List.range 1024).drop (dirIndex base)) (tableIndex base)
      (size / PAGE_SIZE)).flatMap (fun pgtbl => [.lock pgtbl, .unlock pgtbl]) ++ [.unlock m.fPageDirectory]

/-- The constructor (:55-60). -/
def constructorWindows (s : State) : List WindowCall :=
  (find s 0).elim [] fun kernel => (allocPage s).elim [] fun (page, _) =>
    [.lock kernel.fPageDirectory, .lock page, .unlock kernel.fPageDirectory, .unlock page]

def windowCalls (s : State) : Call → List WindowCall
  | .newPhysicalMap _ => constructorWindows s
  | .deletePhysicalMap object => (find s object).elim [] fun m => [.lock m.fPageDirectory, .unlock m.fPageDirectory]
  | .map object va _ _ => (find s object).elim [] fun m => mapWindows s m va
  | .unmap object base size => (find s object).elim [] fun m => unmapWindows s m base size
  | .allocPage | .freePage _ => []

/-! ## Runs -/

structure Paged where
  maps : State
  windows : LockedPages.State

inductive PagedCall where
  | maps (c : Call)
  | lock (pa : Nat)
  | unlock (va : Nat)

def Paged.call (s : Paged) : PagedCall → Option Paged
  | .maps c => (step s.maps c).bind fun maps => (pool.exec s.windows (windowCalls s.maps c)).map fun windows =>
    ⟨maps, windows⟩
  | .lock pa => if PAGE_SIZE ∣ pa then (windowCall s.windows (.lock pa)).map fun windows => { s with windows } else none
  | .unlock va =>
    if ∃ held ∈ s.windows.locks, held.2 = va then some { s with windows := LockedPages.unlock s.windows va } else none

def DirsAligned (s : State) : Prop := ∀ m ∈ s.fPhysicalMaps, PAGE_SIZE ∣ m.fPageDirectory

/-- After `Bootstrap`; in the directory of the kernel no table stands twice. -/
def pagedSystem : StepSystem Paged PagedCall where
  init s := system.init s.maps ∧ TablesApart s.maps ∧ DirsAligned s.maps ∧ LockedPages.Initial s.windows
  step := Paged.call

/-- What `:132` counts down lies behind the slots, and does not come to 0. -/
def CountsOutside (w : LockedPages.State) : WindowCall → Prop
  | .unlockPhysical pa =>
    LockedPages.slots ≤ LockedPages.slotOf pa ∧ (w.fLockedPages (LockedPages.slotOf pa)).mapCount ≠ 1
  | .lock _ | .unlock _ => True

def Outside (s : Paged) : PagedCall → Prop
  | .maps c => pool.Meets CountsOutside s.windows (windowCalls s.maps c)
  | .lock _ | .unlock _ => True

/-- The page is in a window, whose count has not reached the end of `int`, or there is a slot for one. -/
def HasWindow (w : LockedPages.State) : WindowCall → Prop
  | .lock pa => Countable w pa ∧ (lookup w pa = some none → w.fInactiveLockedPages ≠ [])
  | .unlock _ | .unlockPhysical _ => True

def HasWindows (s : Paged) (c : Call) : Prop := pool.Meets HasWindow s.windows (windowCalls s.maps c)

/-- A page for a new table is there: otherwise `Map` waits for one. -/
def HasPage (s : State) : Call → Prop
  | .map object va _ _ => ∀ m, find s object = some m →
      isPresent (s.memory m.fPageDirectory (dirIndex va)) = true ∨ s.fFreeQueue ≠ []
  | .newPhysicalMap _ | .deletePhysicalMap _ | .unmap .. | .allocPage | .freePage _ => True

def Served (s : Paged) : PagedCall → Prop
  | .maps c => HasPage s.maps c ∧ HasWindows s c
  | .lock _ | .unlock _ => True

instance (w : LockedPages.State) : (c : WindowCall) → Decidable (CountsOutside w c)
  | .unlockPhysical _ => inferInstanceAs (Decidable (_ ∧ _ ≠ _))
  | .lock _ | .unlock _ => .isTrue trivial

instance (s : Paged) : (c : PagedCall) → Decidable (Outside s c)
  | .maps _ => inferInstanceAs (Decidable (pool.Meets ..))
  | .lock _ | .unlock _ => .isTrue trivial

instance (w : LockedPages.State) : (c : WindowCall) → Decidable (HasWindow w c)
  | .lock _ => inferInstanceAs (Decidable (_ ∧ (_ → _ ≠ _)))
  | .unlock _ | .unlockPhysical _ => .isTrue trivial

instance (s : State) : (c : Call) → Decidable (HasPage s c)
  | .map object .. => inferInstanceAs (Decidable (∀ m, find s object = some m → _ ∨ _ ≠ _))
  | .newPhysicalMap _ | .deletePhysicalMap _ | .unmap .. | .allocPage | .freePage _ => .isTrue trivial

instance (s : Paged) : (c : PagedCall) → Decidable (Served s c)
  | .maps _ => inferInstanceAs (Decidable (_ ∧ pool.Meets ..))
  | .lock _ | .unlock _ => .isTrue trivial

variable {w w' : LockedPages.State} {s s' : Paged} {c : Call} {ops : List WindowCall} {pa slot : Nat}

/-! ## The pool -/

/-- What is counted down behind the slots is none of them. -/
theorem linked_unlockPhysical (h : Linked w) (hout : CountsOutside w (.unlockPhysical pa)) :
    Linked (LockedPages.unlockPhysicalPage w pa) := by
  obtain ⟨hslots, hcount⟩ := hout
  have hpages : ∀ j, Slot j → (LockedPages.unlockPhysicalPage w pa).fLockedPages j = w.fLockedPages j := fun j hj =>
    Function.update_of_ne (by have := hj.2; omega) _ _
  have hqueue : (LockedPages.unlockPhysicalPage w pa).fInactiveLockedPages = w.fInactiveLockedPages :=
    if_neg (by omega)
  refine ⟨fun j hj => ?_, fun j hj => ?_, fun b j hb => ?_, fun j hj => ?_, fun j hj => h.queue j (hqueue ▸ hj),
    hqueue ▸ h.nodup, fun j hj => ?_, fun j hj => ?_, fun held hheld => ?_⟩
  · rw [hpages j hj]
    exact h.next j hj
  · rw [hpages j hj]
    exact h.prev j hj
  · rw [hpages j (h.head b j hb).1]
    exact h.head b j hb
  · rw [hpages j hj]
    exact h.area j hj
  · rw [hpages j hj, hqueue]
    exact h.inactive j hj
  · rw [hpages j hj]
    exact h.count j hj
  · obtain ⟨hvalid, j, hj, hva, hpa⟩ := h.locks held hheld
    exact ⟨hvalid, j, hj, hva, by rw [hpages j hj]; exact hpa⟩

def OnPage (c : WindowCall) : Prop := ∀ pa, c = .lock pa → PAGE_SIZE ∣ pa

theorem linked_windowCall {c : WindowCall} (h : Linked w) (hpage : OnPage c) (hout : CountsOutside w c)
    (hs : windowCall w c = some w') : Linked w' := by
  cases c with
  | lock pa =>
    obtain ⟨-, hs⟩ := ite_none_right_eq_some.1 hs
    obtain ⟨⟨va, w₁⟩, hlock, rfl⟩ := map_eq_some_iff.1 hs
    exact LockedPages.linked_lock h (LockedPages.aligned_valid (hpage pa rfl)) hlock
  | unlock pa =>
    cases hs
    cases hfind : w.locks.find? (·.1 = pa) with
    | none => exact h
    | some held => exact LockedPages.linked_unlock h (List.mem_of_find?_eq_some hfind)
  | unlockPhysical pa =>
    cases hs
    exact linked_unlockPhysical h hout

theorem windowCall_isSome_iff {c : WindowCall} (h : Linked w) : (windowCall w c).isSome ↔ HasWindow w c := by
  cases c with
  | lock pa =>
    rw [windowCall, HasWindow, ← LockedPages.lock_isSome_iff h]
    split
    · rename_i hcount
      rw [isSome_map, and_iff_right hcount]
    · rename_i hcount
      exact iff_of_false nofun fun hand => hcount hand.1
  | unlock pa => exact iff_of_true rfl trivial
  | unlockPhysical pa => exact iff_of_true rfl trivial

/-- **The window calls of a call** are all answered if and only if there is a window for each, and they leave the
windows in order. -/
theorem exec_pool (h : Linked w) (hpages : ∀ c ∈ ops, OnPage c) (hout : pool.Meets CountsOutside w ops) :
    ((pool.exec w ops).isSome ↔ pool.Meets HasWindow w ops) ∧ ∀ w', pool.exec w ops = some w' → Linked w' := by
  induction ops generalizing w with
  | nil => exact ⟨iff_of_true rfl trivial, fun w' hs => by cases hs; exact h⟩
  | cons c ops ih =>
    have hiff : (pool.step w c).isSome ↔ HasWindow w c := windowCall_isSome_iff h
    cases hstep : pool.step w c with
    | none =>
      rw [hstep] at hiff
      rw [StepSystem.exec_cons, hstep, StepSystem.Meets, hstep]
      refine ⟨iff_of_false Bool.false_ne_true fun hand => ?_, fun w' hs => by cases hs⟩
      exact Bool.false_ne_true (hiff.2 hand.1)
    | some w₁ =>
      rw [hstep] at hiff
      rw [StepSystem.meets_of_step hstep] at hout
      obtain ⟨hnext, hlinked⟩ := ih (linked_windowCall h (hpages c (.head _)) hout.1 hstep) (fun c hc =>
        hpages c (.tail _ hc)) hout.2
      rw [StepSystem.exec_of_step hstep, StepSystem.meets_of_step hstep, hnext, and_iff_right (hiff.1 rfl)]
      exact ⟨.rfl, hlinked⟩

/-! ## Calls -/

theorem pageOf_dvd (entry : Nat) : PAGE_SIZE ∣ pageOf entry := ⟨_, Nat.mul_comm _ _⟩

theorem tablesOf_dvd (memory : Memory) (dir : Nat) {dirs : List Nat} :
    ∀ ptindex count, ∀ pgtbl ∈ tablesOf memory dir dirs ptindex count, PAGE_SIZE ∣ pgtbl := by
  induction dirs with
  | nil => exact fun _ _ _ hin => nomatch hin
  | cons d dirs ih =>
    intro ptindex count pgtbl hin
    unfold tablesOf at hin
    split at hin
    · cases hin
    · split at hin
      · split at hin
        · cases hin
        · exact ih _ _ pgtbl hin
      · rcases List.mem_cons.1 hin with rfl | hin
        · exact pageOf_dvd _
        · exact ih _ _ pgtbl hin

/-- What holds in every state of a run: the maps keep their tables apart, the directories are pages, and the windows are in
order. -/
structure Ordered (s : Paged) : Prop where
  sound : Sound s.maps
  apart : TablesApart s.maps
  dirs : DirsAligned s.maps
  linked : Linked s.windows

theorem forall_mem_elim {α β : Type} {o : Option α} {f : α → List β} {P : β → Prop} (h : ∀ a, o = some a → ∀ b ∈ f a, P b) :
    ∀ b ∈ o.elim [] f, P b := by
  cases o with
  | none => exact fun _ hb => nomatch hb
  | some a => exact h a rfl

theorem onPage_lock (h : PAGE_SIZE ∣ pa) : OnPage (.lock pa) := by
  rintro pa' ⟨⟩
  exact h

theorem onPage_unlock (pa : Nat) : OnPage (.unlock pa) := nofun

theorem onPage_unlockPhysical (pa : Nat) : OnPage (.unlockPhysical pa) := nofun

theorem mapWindows_onPage (h : Ordered s) {m : PhysicalMap} (hm : m ∈ s.maps.fPhysicalMaps) (va : Nat) :
    ∀ op ∈ mapWindows s.maps m va, OnPage op := by
  have hdir := onPage_lock (h.dirs m hm)
  refine List.forall_mem_cons.2 ⟨hdir, List.forall_mem_append.2 ⟨?_, by simp [hdir, onPage_unlock]⟩⟩
  split
  · simp [onPage_lock (pageOf_dvd _), onPage_unlock]
  · refine forall_mem_elim fun (page, queue) halloc => ?_
    have hfresh := onPage_lock (h.sound.fresh (allocPage_some halloc)).1
    refine List.forall_mem_cons.2 ⟨hfresh, List.forall_mem_append.2 ⟨?_, by simp [onPage_unlock]⟩⟩
    split
    · refine List.forall_mem_flatMap.2 fun map hmap => ?_
      simp [onPage_lock (h.dirs map hmap), onPage_unlockPhysical]
    · exact fun _ hop => nomatch hop

theorem unmapWindows_onPage (h : Ordered s) {m : PhysicalMap} (hm : m ∈ s.maps.fPhysicalMaps) (base size : Nat) :
    ∀ op ∈ unmapWindows s.maps m base size, OnPage op := by
  refine List.forall_mem_cons.2 ⟨onPage_lock (h.dirs m hm), List.forall_mem_append.2 ⟨?_, by simp [onPage_unlock]⟩⟩
  refine List.forall_mem_flatMap.2 fun pgtbl hpgtbl => ?_
  simp [onPage_lock (tablesOf_dvd _ _ _ _ pgtbl hpgtbl), onPage_unlock]

theorem windowCalls_onPage (h : Ordered s) (c : Call) : ∀ op ∈ windowCalls s.maps c, OnPage op := by
  cases c with
  | newPhysicalMap object =>
    refine forall_mem_elim fun kernel hk => forall_mem_elim fun (page, queue) halloc => ?_
    have hfresh := onPage_lock (h.sound.fresh (allocPage_some halloc)).1
    simp [onPage_lock (h.dirs kernel (find_some hk).1), hfresh, onPage_unlock]
  | deletePhysicalMap object =>
    refine forall_mem_elim fun m hm => ?_
    simp [onPage_lock (h.dirs m (find_some hm).1), onPage_unlock]
  | map object va pa protection => exact forall_mem_elim fun m hm => mapWindows_onPage h (find_some hm).1 va
  | unmap object base size => exact forall_mem_elim fun m hm => unmapWindows_onPage h (find_some hm).1 base size
  | allocPage => exact fun _ hop => nomatch hop
  | freePage page => exact fun _ hop => nomatch hop

theorem call_maps (hs : s.call (.maps c) = some s') :
    step s.maps c = some s'.maps ∧ pool.exec s.windows (windowCalls s.maps c) = some s'.windows := by
  obtain ⟨maps, hstep, hs⟩ := bind_eq_some_iff.1 hs
  obtain ⟨windows, hexec, rfl⟩ := map_eq_some_iff.1 hs
  exact ⟨hstep, hexec⟩

/-- A call of a map returns if and only if the call itself does, and its windows are there. -/
theorem call_isSome_iff (h : Ordered s) (hout : Outside s (.maps c)) :
    (s.call (.maps c)).isSome ↔ (step s.maps c).isSome ∧ HasWindows s c := by
  rw [HasWindows, ← (exec_pool h.linked (windowCalls_onPage h c) hout).1, Paged.call]
  cases step s.maps c with
  | none => exact iff_of_false nofun fun hand => nomatch hand.1
  | some maps =>
    rw [bind_some, isSome_map]
    exact (and_iff_right rfl).symm

/-! ## Runs keep the order -/

theorem DirsAligned.of_dirs {t t' : State} (h : DirsAligned t)
    (hdirs : ∀ m' ∈ t'.fPhysicalMaps, ∃ m ∈ t.fPhysicalMaps, m.fPageDirectory = m'.fPageDirectory) : DirsAligned t' := by
  intro m' hm'
  obtain ⟨m, hm, hdir⟩ := hdirs m' hm'
  exact hdir ▸ h m hm

theorem dirsAligned_step {t t' : State} (hsound : Sound t) (h : DirsAligned t) (hs : step t c = some t') :
    DirsAligned t' := by
  obtain ⟨-, hs⟩ := ite_none_right_eq_some.1 hs
  cases c with
  | newPhysicalMap object =>
    obtain ⟨kernel, -, hs⟩ := bind_eq_some_iff.1 hs
    obtain ⟨⟨page, queue⟩, halloc, hs⟩ := bind_eq_some_iff.1 hs
    cases hs
    refine List.forall_mem_append.2 ⟨h, ?_⟩
    rw [List.forall_mem_singleton]
    exact (hsound.fresh (allocPage_some halloc)).1
  | deletePhysicalMap object =>
    obtain ⟨m, -, rfl⟩ := map_eq_some_iff.1 hs
    exact h.of_dirs fun m' hm' => ⟨m', (List.mem_filter.1 hm').1, rfl⟩
  | map object va pa protection =>
    obtain ⟨m, -, ⟨-, rfl⟩ | ⟨-, page, queue, -, rfl⟩⟩ := map_spec hs
    · exact h.of_dirs (enterPage_dirs _ m _ va pa protection)
    · exact h.of_dirs (enterPage_dirs _ m page va pa protection)
  | unmap object base size =>
    obtain ⟨m, -, hs⟩ := bind_eq_some_iff.1 hs
    obtain ⟨⟨memory, n⟩, -, hs⟩ := bind_eq_some_iff.1 hs
    cases hs
    exact h.of_dirs (dirs_map fun m' => by split <;> rfl)
  | allocPage =>
    obtain ⟨-, -, rfl⟩ := map_eq_some_iff.1 hs
    exact h
  | freePage page =>
    cases hs
    exact h

theorem ordered_call {c : PagedCall} (h : Ordered s) (hout : Outside s c) (hs : s.call c = some s') : Ordered s' := by
  cases c with
  | maps c =>
    obtain ⟨hstep, hexec⟩ := call_maps hs
    exact ⟨sound_step h.sound hstep, tablesApart_step h.sound h.apart hstep, dirsAligned_step h.sound h.dirs hstep,
      (exec_pool h.linked (windowCalls_onPage h c) hout).2 _ hexec⟩
  | lock pa =>
    obtain ⟨hpa, hs⟩ := ite_none_right_eq_some.1 hs
    obtain ⟨windows, hlock, rfl⟩ := map_eq_some_iff.1 hs
    exact { h with linked := linked_windowCall h.linked (onPage_lock hpa) trivial hlock }
  | unlock va =>
    obtain ⟨⟨held, hheld, rfl⟩, hs⟩ := ite_none_right_eq_some.1 hs
    cases hs
    exact { h with linked := LockedPages.linked_unlock h.linked hheld }

theorem ordered_reach (h : pagedSystem.ReachVia Outside s) : Ordered s := by
  refine StepSystem.ReachVia.invariant Ordered ?_ (fun _ _ _ => ordered_call) h
  rintro s ⟨⟨-, hsound⟩, hapart, hdirs, hinitial⟩
  exact ⟨hsound, hapart, hdirs, (LockedPages.linked_initial hinitial).1⟩

/-! ## `Unmap`, and the count -/

/-- A call with no unlock of a physical address counts nothing down behind the slots. -/
theorem outside_of_notMem (h : ∀ pa, .unlockPhysical pa ∉ windowCalls s.maps c) : Outside s (.maps c) := by
  refine StepSystem.meets_of_forall fun op hop w => ?_
  cases op with
  | lock pa => trivial
  | unlock pa => trivial
  | unlockPhysical pa => exact absurd hop (h pa)

theorem unmap_outside (s : Paged) (object base size : Nat) : Outside s (.maps (.unmap object base size)) := by
  refine outside_of_notMem fun pa hop => ?_
  unfold windowCalls unmapWindows at hop
  cases hm : find s.maps object with
  | none => simp [hm] at hop
  | some m => simp [hm] at hop

theorem map_isSome_iff {t : State} {m : PhysicalMap} {object va : Nat} (hm : find t object = some m) (pa protection : Nat) :
    (map t object va pa protection).isSome ↔ HasPage t (.map object va pa protection) := by
  have hpage : HasPage t (.map object va pa protection) ↔
      isPresent (t.memory m.fPageDirectory (dirIndex va)) = true ∨ t.fFreeQueue ≠ [] := by
    constructor
    · exact fun h => h m hm
    · rintro h m' hm'
      rw [hm] at hm'
      cases hm'
      exact h
  rw [hpage, map, hm, bind_eq_bind, bind_some]
  dsimp only
  split
  · rename_i hpres
    exact iff_of_true rfl (.inl hpres)
  · rename_i habsent
    rw [isSome_map, allocPage, isSome_map, or_iff_right habsent, List.getLast?_isSome]

/-- **A call of a map** on user addresses returns if and only if it is served. -/
theorem user_call_isSome_iff {object : Nat} {m : PhysicalMap} (h : Ordered s) (hm : find s.maps object = some m)
    (huser : UserCall object c) (hout : Outside s (.maps c)) : (s.call (.maps c)).isSome ↔ Served s (.maps c) := by
  rw [call_isSome_iff h hout]
  refine and_congr_left fun _ => ?_
  cases c with
  | map o va pa protection =>
    obtain ⟨rfl, -, hhigh⟩ := huser
    have hlegal : Call.legal s.maps (.map o va pa protection) := Nat.lt_of_le_of_lt hhigh (by decide)
    rw [step, if_pos hlegal]
    exact map_isSome_iff hm pa protection
  | unmap o base size =>
    obtain ⟨rfl, hlow, hhigh⟩ := huser
    have hbase : base < 2 ^ 32 := by unfold kUserBase kUserTop at *; omega
    have hend : base / PAGE_SIZE + size / PAGE_SIZE ≤ 1024 * 1024 := by unfold kUserBase kUserTop PAGE_SIZE at *; omega
    obtain ⟨t, m', hunmap, -⟩ := unmap_unmapped h.sound h.apart hm hbase hend
    have hlegal : Call.legal s.maps (.unmap o base size) := trivial
    rw [step, if_pos hlegal, perform, hunmap]
    exact iff_of_true rfl trivial
  | newPhysicalMap _ => cases huser
  | deletePhysicalMap _ => cases huser
  | allocPage => cases huser
  | freePage _ => cases huser

/-- **Every sequence** of `Map` and `Unmap` on user addresses of one map returns if and only if each call is served, and
then the count is right. -/
theorem counted_calls_iff {object : Nat} {m : PhysicalMap} {calls : List Call} (h : Ordered s)
    (hm : find s.maps object = some m)
    (hc : Counted s.maps m) (huser : ∀ c ∈ calls, UserCall object c)
    (hout : pagedSystem.Meets Outside s (calls.map .maps)) :
    (∃ s' m', pagedSystem.exec s (calls.map .maps) = some s' ∧ find s'.maps object = some m' ∧ Counted s'.maps m') ↔
      pagedSystem.Meets Served s (calls.map .maps) := by
  induction calls generalizing s m with
  | nil => exact iff_of_true ⟨s, m, rfl, hm, hc⟩ trivial
  | cons c calls ih =>
    have huser₁ := huser c (.head _)
    have hiff : (pagedSystem.step s (.maps c)).isSome ↔ Served s (.maps c) := user_call_isSome_iff h hm huser₁ hout.1
    rw [List.map_cons] at hout ⊢
    cases hstep : pagedSystem.step s (.maps c) with
    | none =>
      rw [hstep] at hiff
      rw [StepSystem.exec_cons, hstep, StepSystem.Meets]
      refine iff_of_false ?_ fun hand => Bool.false_ne_true (hiff.2 hand.1)
      rintro ⟨s', m', hexec, -⟩
      cases hexec
    | some s₁ =>
      rw [hstep] at hiff
      rw [StepSystem.meets_of_step hstep] at hout
      rw [StepSystem.exec_of_step hstep, StepSystem.meets_of_step hstep, and_iff_right (hiff.1 rfl)]
      obtain ⟨m₁, hm₁, hc₁⟩ := counted_step h.sound h.apart hm hc huser₁ (call_maps hstep).1
      exact ih (ordered_call h hout.1 hstep) hm₁ hc₁ (fun c hc => huser c (.tail _ hc)) hout.2

theorem booted_ordered : pagedSystem.init ⟨booted, LockedPages.bootstrapped⟩ := by
  refine ⟨booted_init, ?_, fun m hm => ?_, LockedPages.bootstrapped_initial⟩
  · intro m _ i _ j _ hpres
    cases hpres
  · rw [List.mem_singleton.1 hm]
    decide

def pageCalls : List Call :=
  [.map 1 0x08000000 0x9000 USER_READ, .map 1 0x08001000 0xa000 USER_READ, .map 1 0x08000000 0xb000 USER_READ,
    .unmap 1 0x08000000 0x1000]

end PhysicalMaps
