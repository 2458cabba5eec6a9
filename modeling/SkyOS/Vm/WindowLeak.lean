import SkyOS.Vm.MapWindows

/-!
# The windows that `Map` loses

A directory and a page table whose pages fall into one bucket take the hash from each other. Once the window of the
directory has been given back while the hash leads to it, each `Map` at that table takes this window for good (`:98`)
and leaves another one behind in its place: `map_leaks`. When the last window goes, `Map` and `Unmap` find none for the
table, and panic.
-/

namespace PhysicalMaps

open LockedPages (Linked lookup bucketOf)
open Option

variable {w w' : LockedPages.State} {s s' : Paged} {m : PhysicalMap} {object va pa protection slot dir pgtbl : Nat}

/-! ## One window -/

theorem lookup_other (h : Linked w) (hfound : lookup w dir = some (some slot)) (hne : pgtbl ≠ dir)
    (hbucket : bucketOf pgtbl = bucketOf dir) : lookup w pgtbl = some none := by
  obtain ⟨-, hhead, hdir⟩ := LockedPages.lookup_some h hfound
  rw [LockedPages.lookup_eq h, hbucket, hhead, filter_some, if_neg]
  rw [decide_eq_true_iff, hdir]
  exact hne.symm

def Waits (w : LockedPages.State) (pa : Nat) : Prop := ∃ slot, lookup w pa = some (some slot) ∧
    slot ∈ w.fInactiveLockedPages

theorem lock_returns (h : Linked w) (hand : HasWindow w (.lock pa)) :
    ∃ va w', LockedPages.lock w pa = some (va, w') ∧ windowCall w (.lock pa) = some w' := by
  obtain ⟨hcount, hslot⟩ := hand
  obtain ⟨⟨va, w'⟩, hlock⟩ := isSome_iff_exists.1 ((LockedPages.lock_isSome_iff h).2 hslot)
  exact ⟨va, w', hlock, by rw [windowCall, if_pos hcount, hlock, map_some]⟩

theorem lock_waiting (h : Linked w) (hpa : PAGE_SIZE ∣ pa) (hwaits : Waits w pa) : ∃ w' slot,
    windowCall w (.lock pa) = some w' ∧
    Linked w' ∧ lookup w' pa = some (some slot) ∧ w'.fInactiveLockedPages.length + 1 = w.fInactiveLockedPages.length := by
  obtain ⟨slot, hfound, hin⟩ := hwaits
  obtain ⟨hslot, hhead, hshows⟩ := LockedPages.lookup_some h hfound
  have hzero := (h.inactive slot hslot).2 hin
  have hcount : Countable w pa := by
    intro slot' hslot'
    rw [hfound] at hslot'
    cases hslot'
    rw [hzero]
    decide
  obtain ⟨va, w', hlock, hcall⟩ := lock_returns h ⟨hcount, fun hnone => by rw [hfound] at hnone; cases hnone⟩
  have hlinked := linked_windowCall h (onPage_lock hpa) trivial hcall
  obtain ⟨slot', -, ⟨hfound', rfl⟩ | ⟨rest, hnone, -⟩⟩ := LockedPages.lock_cases h hlock
  · obtain rfl : slot = slot' := by
      rw [hfound] at hfound'
      exact Option.some.inj (Option.some.inj hfound')
    refine ⟨_, slot, hcall, hlinked, ?_, ?_⟩
    · rw [LockedPages.lookup_eq hlinked]
      have hhead' : (LockedPages.relock { w with fLockPageRequests := w.fLockPageRequests + 1 } slot).fLockedPageHash
          (bucketOf pa) = some slot :=
        hhead
      dsimp only
      rw [hhead', filter_some, if_pos]
      rw [decide_eq_true_iff]
      dsimp only [LockedPages.relock, LockedPages.setPage]
      rw [Function.update_self]
      exact hshows
    · dsimp only [LockedPages.relock]
      rw [if_pos hzero, List.length_erase_of_mem hin]
      exact Nat.sub_add_cancel (List.length_pos_of_mem hin)
  · rw [hfound] at hnone
    cases hnone

/-- The slot holds the last lock, of this page, and the hash leads to it. -/
structure Held (w : LockedPages.State) (pa slot : Nat) : Prop where
  linked : Linked w
  given : LockedPages.Slot slot
  locks : w.locks.head? = some (pa, LockedPages.addressOf slot)
  hash : w.fLockedPageHash (bucketOf pa) = some slot
  shows : (w.fLockedPages slot).pa = pa
  count : (w.fLockedPages slot).mapCount = 1

theorem lock_new (h : Linked w) (hpa : PAGE_SIZE ∣ pa) (hnone : lookup w pa = some none)
    (hqueue : w.fInactiveLockedPages ≠ []) :
    ∃ w' slot, windowCall w (.lock pa) = some w' ∧ Held w' pa slot ∧
    w.fInactiveLockedPages = slot :: w'.fInactiveLockedPages := by
  have hcount : Countable w pa := by
    intro slot hslot
    rw [hnone] at hslot
    cases hslot
  obtain ⟨va, w', hlock, hcall⟩ := lock_returns h ⟨hcount, fun _ => hqueue⟩
  have hlinked := linked_windowCall h (onPage_lock hpa) trivial hcall
  obtain ⟨slot, -, ⟨hfound, -⟩ | ⟨rest, -, hslots, rfl⟩⟩ := LockedPages.lock_cases h hlock
  · rw [hnone] at hfound
    cases hfound
  · have hin : slot ∈ w.fInactiveLockedPages := hslots ▸ .head _
    have hslot := h.queue slot hin
    refine ⟨_, slot, hcall, ⟨hlinked, hslot, rfl, Function.update_self .., ?_, ?_⟩, hslots⟩
    · dsimp only [LockedPages.insert, LockedPages.setPage]
      rw [Function.update_self]
    · dsimp only [LockedPages.insert, LockedPages.setPage]
      rw [Function.update_self, (h.inactive slot hslot).2 hin, zero_add]

theorem unlock_last (h : Held w pa slot) : ∃ w', windowCall w (.unlock pa) = some w' ∧ Linked w' ∧ Waits w' pa ∧
    w'.fInactiveLockedPages = w.fInactiveLockedPages ++ [slot] := by
  obtain ⟨locks, hlocks⟩ := List.head?_eq_some_iff.1 h.locks
  have hcall : windowCall w (.unlock pa) = some (LockedPages.unlock w (LockedPages.addressOf slot)) := by
    rw [windowCall, hlocks, List.find?_cons_of_pos (by exact decide_eq_true rfl), elim_some]
  have hlinked := linked_windowCall h.linked (onPage_unlock pa) trivial hcall
  have hr := LockedPages.recounted_unlock w h.given
  have hqueue : (LockedPages.unlock w (LockedPages.addressOf slot)).fInactiveLockedPages = w.fInactiveLockedPages ++
      [slot] := by
    rw [LockedPages.unlock_queue w h.given, h.count, if_pos (Int.sub_self 1)]
  refine ⟨_, hcall, hlinked, ⟨slot, ?_, by rw [hqueue]; exact List.mem_append_right _ (List.mem_singleton_self slot)⟩,
    hqueue⟩
  rw [LockedPages.lookup_eq hlinked, hr.hash, h.hash, filter_some, if_pos]
  rw [decide_eq_true_iff, hr.pages, LockedPages.update_mapCount]
  exact h.shows

/-! ## One `Map` -/

/-- The window calls of `Map` where the table is there. -/
def presentWindows (dir pgtbl : Nat) : List WindowCall := [.lock dir, .lock pgtbl, .unlock pgtbl, .lock dir, .unlock dir]

/-- A directory and a table that share a bucket. -/
structure Sharing (dir pgtbl : Nat) : Prop where
  dirPage : PAGE_SIZE ∣ dir
  tablePage : PAGE_SIZE ∣ pgtbl
  ne : pgtbl ≠ dir
  bucket : bucketOf pgtbl = bucketOf dir

/-- **One window less.** The window of the directory that waits is locked and not given back; the table takes its place
in the hash, and the directory one more window, which waits in its turn. -/
theorem presentWindows_leak (h : Linked w) (hpages : Sharing dir pgtbl) (hwaits : Waits w dir)
    (hslots : 2 ≤ w.fInactiveLockedPages.length) :
    ∃ w', pool.exec w (presentWindows dir pgtbl) = some w' ∧ Linked w' ∧ Waits w' dir ∧
      w'.fInactiveLockedPages.length + 1 = w.fInactiveLockedPages.length := by
  obtain ⟨w₁, slot₁, hcall₁, h₁, hfound₁, hlen₁⟩ := lock_waiting h hpages.dirPage hwaits
  have hnone₁ := lookup_other h₁ hfound₁ hpages.ne hpages.bucket
  obtain ⟨w₂, slot₂, hcall₂, hheld₂, hqueue₂⟩ := lock_new h₁ hpages.tablePage hnone₁ (List.ne_nil_of_length_pos (by omega))
  obtain ⟨w₃, hcall₃, h₃, ⟨slot₃, hfound₃, hin₃⟩, hqueue₃⟩ := unlock_last hheld₂
  have hnone₃ := lookup_other h₃ hfound₃ hpages.ne.symm hpages.bucket.symm
  obtain ⟨w₄, slot₄, hcall₄, hheld₄, hqueue₄⟩ := lock_new h₃ hpages.dirPage hnone₃ (List.ne_nil_of_mem hin₃)
  obtain ⟨w₅, hcall₅, h₅, hwaits₅, hqueue₅⟩ := unlock_last hheld₄
  refine ⟨w₅, ?_, h₅, hwaits₅, ?_⟩
  · unfold presentWindows
    rw [StepSystem.exec_of_step hcall₁, StepSystem.exec_of_step hcall₂, StepSystem.exec_of_step hcall₃,
      StepSystem.exec_of_step hcall₄, StepSystem.exec_of_step hcall₅]
    rfl
  · have hlen₂ := congrArg List.length hqueue₂
    have hlen₃ := congrArg List.length hqueue₃
    have hlen₄ := congrArg List.length hqueue₄
    have hlen₅ := congrArg List.length hqueue₅
    rw [List.length_cons] at hlen₂ hlen₄
    rw [List.length_append, List.length_singleton] at hlen₃ hlen₅
    omega

/-- With the last window for the directory there is none for the table. -/
theorem lock_both_fails (h : Linked w) (hpages : Sharing dir pgtbl) (hwaits : Waits w dir)
    (hslots : w.fInactiveLockedPages.length = 1)
    (ops : List WindowCall) : pool.exec w (.lock dir :: .lock pgtbl :: ops) = none := by
  obtain ⟨w₁, slot, hcall, h₁, hfound, hlen⟩ := lock_waiting h hpages.dirPage hwaits
  have hnone := lookup_other h₁ hfound hpages.ne hpages.bucket
  have hempty : w₁.fInactiveLockedPages = [] := List.eq_nil_of_length_eq_zero (by omega)
  have hfails : pool.step w₁ (.lock pgtbl) = none := by
    refine not_isSome_iff_eq_none.1 fun hsome => ?_
    exact ((windowCall_isSome_iff (c := .lock pgtbl) h₁).1 hsome).2 hnone hempty
  rw [StepSystem.exec_of_step hcall, StepSystem.exec_cons, hfails]
  rfl

/-! ## A run of `Map` calls -/

structure Again (s : State) (m : PhysicalMap) (va pa protection : Nat) : Prop where
  find : find s m.object = some m
  present : isPresent (s.memory m.fPageDirectory (dirIndex va)) = true
  sharing : Sharing m.fPageDirectory (pageOf (s.memory m.fPageDirectory (dirIndex va)))
  entry : s.memory (pageOf (s.memory m.fPageDirectory (dirIndex va))) (tableIndex va) = pa ||| pageFlags va protection

theorem map_again {t : State} (h : Again t m va pa protection) : map t m.object va pa protection = some t := by
  rw [map, h.find, bind_eq_bind, bind_some]
  dsimp only
  rw [if_pos h.present, enterPage, write_same h.entry, h.entry, isPresent_pageFlags]
  simp

theorem map_windows (h : Again s.maps m va pa protection) : windowCalls s.maps (.map m.object va pa protection) =
    presentWindows m.fPageDirectory (pageOf (s.maps.memory m.fPageDirectory (dirIndex va))) := by
  rw [windowCalls, h.find, elim_some, mapWindows]
  dsimp only
  rw [if_pos h.present]
  rfl

/-- **One `Map`** of the page again: a window is lost. -/
theorem map_leaks (hs : pagedSystem.ReachVia Outside s) (h : Again s.maps m va pa protection) (hva : va < 2 ^ 32)
    (hwaits : Waits s.windows m.fPageDirectory) (hslots : 2 ≤ s.windows.fInactiveLockedPages.length) :
    ∃ s', pagedSystem.ReachVia Outside s' ∧ s'.maps = s.maps ∧ Waits s'.windows m.fPageDirectory ∧
      s'.windows.fInactiveLockedPages.length + 1 = s.windows.fInactiveLockedPages.length := by
  obtain ⟨windows, hexec, -, hwaits', hlen⟩ := presentWindows_leak (ordered_reach hs).linked h.sharing hwaits hslots
  have hstep : step s.maps (.map m.object va pa protection) = some s.maps := by
    rw [step, if_pos (by exact hva)]
    exact map_again h
  have hcall : pagedSystem.step s (.maps (.map m.object va pa protection)) = some ⟨s.maps, windows⟩ := by
    have hcalls : pagedSystem.step = Paged.call := rfl
    rw [hcalls, Paged.call, hstep, bind_some, map_windows h, hexec, map_some]
  refine ⟨⟨s.maps, windows⟩, .step hs ?_ hcall, rfl, hwaits', hlen⟩
  refine outside_of_notMem fun pa' hop => ?_
  rw [map_windows h] at hop
  simp [presentWindows] at hop

/-- **Any number of them**: one window is left. -/
theorem maps_leak (hs : pagedSystem.ReachVia Outside s) (h : Again s.maps m va pa protection) (hva : va < 2 ^ 32)
    (hwaits : Waits s.windows m.fPageDirectory) :
    ∃ s', pagedSystem.ReachVia Outside s' ∧ s'.maps = s.maps ∧ Waits s'.windows m.fPageDirectory ∧
      s'.windows.fInactiveLockedPages.length = 1 := by
  induction hlen : s.windows.fInactiveLockedPages.length generalizing s with
  | zero =>
    obtain ⟨slot, -, hin⟩ := hwaits
    exact absurd (List.length_pos_of_mem hin) (by omega)
  | succ n ih =>
    by_cases hone : n = 0
    · exact ⟨s, hs, rfl, hwaits, by omega⟩
    · obtain ⟨s₁, hs₁, hmaps, hwaits₁, hlen₁⟩ := map_leaks hs h hva hwaits (by omega)
      rw [← hmaps] at h ⊢
      exact ih hs₁ h hwaits₁ (by omega)

/-- With the last window gone for the directory, `Unmap` has none for the table. -/
theorem unmap_fails (hs : pagedSystem.ReachVia Outside s) (h : Again s.maps m va pa protection) (hva : va < 2 ^ 32)
    (hwaits : Waits s.windows m.fPageDirectory) (hslots : s.windows.fInactiveLockedPages.length = 1) {size : Nat}
    (hsize : PAGE_SIZE ≤ size) :
    s.call (.maps (.unmap m.object va size)) = none := by
  have hcount : size / PAGE_SIZE ≠ 0 := by
    unfold PAGE_SIZE at *
    omega
  have hlt : dirIndex va < (List.range 1024).length := List.length_range ▸ dirIndex_lt hva
  have hwindows : ∃ ops, windowCalls s.maps (.unmap m.object va size) =
      .lock m.fPageDirectory :: .lock (pageOf (s.maps.memory m.fPageDirectory (dirIndex va))) :: ops := by
    rw [windowCalls, h.find, elim_some, unmapWindows, List.drop_eq_getElem_cons hlt, List.getElem_range, tablesOf,
      if_neg hcount, if_neg (not_not_intro h.present)]
    exact ⟨_, rfl⟩
  obtain ⟨ops, hwindows⟩ := hwindows
  rw [Paged.call, hwindows, lock_both_fails (ordered_reach hs).linked h.sharing hwaits hslots]
  cases step s.maps _ <;> rfl

def sharingPages : Paged := ⟨{ booted with fFreeQueue := [0x802000, 0x2000] }, LockedPages.bootstrapped⟩

theorem sharingPages_init : pagedSystem.init sharingPages := by
  refine ⟨⟨⟨_, rfl, rfl⟩, by decide, by decide, by decide, ?_⟩, ?_, ?_, LockedPages.bootstrapped_initial⟩
  · intro m _ i _ hpres
    cases hpres
  · intro m _ i _ j _ hpres
    cases hpres
  · intro m hm
    rw [List.mem_singleton.1 hm]
    decide

def twiceMapped : List PagedCall :=
  [.maps (.newPhysicalMap 1), .maps (.map 1 0x08000000 0x9000 USER_READ), .maps (.map 1 0x08000000 0x9000 USER_READ)]

theorem twice_mapped : ∃ s, pagedSystem.ReachVia Outside s ∧ Again s.maps ⟨1, 0x2000, 1⟩ 0x08000000 0x9000 USER_READ ∧
    Waits s.windows 0x2000 := by
  have hmeets : pagedSystem.Meets Outside sharingPages twiceMapped := by decide +kernel
  have hrun : (pagedSystem.exec sharingPages twiceMapped).any (fun s => find s.maps 1 = some ⟨1, 0x2000, 1⟩ &&
      s.maps.memory 0x2000 32 = 0x802003 && s.maps.memory 0x802000 0 = 0x9000 ||| pageFlags 0x08000000 USER_READ &&
      lookup s.windows 0x2000 = some (some 6) && decide (6 ∈ s.windows.fInactiveLockedPages)) = true := by
    decide +kernel
  obtain ⟨s, hexec, hrun⟩ := (any_eq_true _ _).1 hrun
  simp only [Bool.and_eq_true, decide_eq_true_eq] at hrun
  obtain ⟨⟨⟨⟨hfind, hdir⟩, hentry⟩, hfound⟩, hin⟩ := hrun
  have hreach := StepSystem.reachVia_exec _ (.init sharingPages_init) hmeets hexec
  have hnames : Names (s.maps.memory 0x2000 (dirIndex 0x08000000)) 0x802000 := by
    rw [show dirIndex 0x08000000 = 32 from rfl, hdir]
    exact ⟨by decide, by decide⟩
  refine ⟨s, hreach, ⟨hfind, hnames.1, ?_, ?_⟩, 6, hfound, hin⟩
  · rw [hnames.2]
    exact ⟨by decide, by decide, by decide, by decide⟩
  · rw [hnames.2]
    exact hentry

end PhysicalMaps
