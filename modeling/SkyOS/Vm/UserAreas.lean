import SkyOS.Vm.Areas

/-!
# User areas and the reserved ranges

The constructor means to reserve `[0, kUserBase)` and `[kKernelBase, kKernelTop]`. With
`kKernelBase < kUserBase` the two ranges overlap, the second `Add` is refused and only the first is in the
tree. So nothing keeps an area out of `(kUserTop, kAddressSpaceTop]`: the default search, from the top,
goes there first (`search_leaves_user_space`). `Call.staysInUser` says when a call does not.
-/

namespace AddressSpace

open AVLTree Machine

def UserAreas (s : State) : Prop :=
  ∀ ar ∈ s.areas, ∃ a, nodeAt s.root ar.node = some a ∧
    kUserBase ≤ a.fLowKey ∧ a.fLowKey ≤ a.fHighKey ∧ a.fHighKey ≤ kUserTop

def nullRange : Range := ⟨nullArea, 0, kUserBase - 1⟩

structure UserInv (s : State) : Prop where
  tree : TreeInv s.root
  null : nullRange ∈ ranges s.root
  user : ∀ r ∈ ranges s.root, r = nullRange ∨ (kUserBase ≤ r.low ∧ r.high ≤ kUserTop)
  area : ∀ ar ∈ s.areas, ar.node ≠ nullArea ∧ ∃ r ∈ ranges s.root, r.node = ar.node

/-- Fewer than `size` bytes are left between some area and `kAddressSpaceTop`. -/
def topTaken (s : State) (size : Nat) : Prop := ∃ r ∈ ranges s.root, kAddressSpaceTop < r.high + size

/-- What keeps the areas inside: a search goes from the bottom or finds the top taken, an explicit range ends
below `kUserTop`, and so does a resized one; a resize that adds the one byte needs it free. -/
def Call.staysInUser (s : State) : Call → Prop
  | .createArea _ size _ cached commits va flags =>
    accepted size cached commits →
      if va = INVALID_PAGE then flags &&& SEARCH_FROM_BOTTOM ≠ 0 ∨ topTaken s size
      else PAGE_SIZE ∣ va → isRangeFree va (u32 (va + size - 1)) s.root = true → va + size ≤ kUserTop + 1
  | .mapPhysicalMemory _ size => topTaken s size
  | .resizeArea area newSize commits =>
    ∀ a, nodeAt s.root area = some a → resizes s a newSize commits →
      a.fLowKey + newSize ≤ kUserTop ∧
        (newSize = getSize a → isRangeFree (a.fLowKey + newSize) (a.fLowKey + newSize) s.root = true)
  | .deleteArea _ => True

/-! ## Searching -/

variable {s s' : State} {base size flags area : Nat} {commits : Bool}

theorem UserInv.high_le (h : UserInv s) : ∀ r ∈ ranges s.root, r.high ≤ kUserTop := by
  intro r hr
  rcases h.user r hr with rfl | ⟨-, hle⟩
  · decide
  · exact hle

theorem UserInv.bounds (h : UserInv s) : ∀ r ∈ ranges s.root, r.low ≤ r.high ∧ r.high < 2 ^ 32 :=
  fun r hr => ⟨(h.tree.proper r hr).1, Nat.lt_of_le_of_lt (h.high_le r hr) (by decide)⟩

theorem UserInv.above_null (h : UserInv s)
    (hfree : ∀ r ∈ ranges s.root, ¬ r.meets base (base + size - 1)) : kUserBase ≤ base := by
  by_contra hlt
  refine hfree nullRange h.null ⟨Nat.zero_le _, ?_⟩
  change base ≤ kUserBase - 1
  omega

structure UserBase (s : State) (base size : Nat) : Prop where
  top : base + size ≤ kUserTop + 1
  free : ∀ r ∈ ranges s.root, ¬ r.meets base (base + size - 1)

theorem userBase_bottom (h : UserInv s) (hs : 0 < size)
    (hf : flags &&& SEARCH_FROM_BOTTOM ≠ 0) (hfind : findFreeRange s.root size flags = some base)
    (hbase : base ≠ INVALID_PAGE) : UserBase s base size := by
  have he := findFreeRange_eq hfind
  rw [if_pos hf] at he
  obtain ⟨hfree, -, -, r, hr, hle⟩ :=
    fromBottom_free hs h.tree.ordered h.bounds (fun r _ => Nat.zero_le _) he.symm hbase
  have hb := (h.bounds r hr).1
  have ht := h.high_le r hr
  exact ⟨by omega, hfree⟩

theorem userBase_top (h : UserInv s)
    (hf : ¬ flags &&& SEARCH_FROM_BOTTOM ≠ 0) (htaken : topTaken s size)
    (hfind : findFreeRange s.root size flags = some base) (hbase : base ≠ INVALID_PAGE) :
    0 < size ∧ UserBase s base size := by
  have he := findFreeRange_eq hfind
  rw [if_neg hf] at he
  obtain ⟨q, hq, hqtop⟩ := htaken
  have hq2 := h.high_le q hq
  have hTop : kUserTop < kAddressSpaceTop := by decide
  have hT : ∀ r ∈ (ranges s.root).reverse, r.high ≤ kAddressSpaceTop := fun r hr => by
    have := h.high_le r (List.mem_reverse.1 hr)
    omega
  obtain ⟨hfree, hends, -⟩ := fromTop_free (descending_reverse h.tree.ordered)
    (fun r hr => h.bounds r (List.mem_reverse.1 hr)) hbase kAddressSpaceTop (by decide) hT he.symm
  have hfree : ∀ r ∈ ranges s.root, ¬ r.meets base (base + size - 1) := fun r hr => hfree r (List.mem_reverse.2 hr)
  refine ⟨by omega, ?_, hfree⟩
  rcases hends with hends | ⟨r, hr, hends⟩
  · -- the range would end at the top, where `q` leaves no room
    have hqb := (h.bounds q hq).1
    exact absurd ⟨by omega, by omega⟩ (hfree q hq)
  · have hr := List.mem_reverse.1 hr
    have hb := (h.bounds r hr).1
    have ht := h.high_le r hr
    omega

/-! ## The calls -/

variable {cached : Bool} {newSize : Nat}

theorem UserInv.insert (h : UserInv s) (hs : 0 < size)
    (hfresh : Call.legal.fresh s area) (hb : UserBase s base size)
    (hi : insertArea s area base size cached = some s') : UserInv s' := by
  have hlow := h.above_null hb.free
  have htop := hb.top
  have hu : 0 < kUserBase ∧ kUserTop + 1 < 2 ^ 32 := by decide
  obtain ⟨hT, hr, hareas⟩ := insertArea_spec h.tree hs (by omega) (by omega) hfresh.2.1 hb.free hi
  refine ⟨hT, (hr _).2 (.inr h.null), fun r hm => ?_, fun ar har => ?_⟩
  · rcases (hr r).1 hm with rfl | hm
    · exact .inr ⟨hlow, by change base + size - 1 ≤ kUserTop; omega⟩
    · exact h.user r hm
  · rw [hareas] at har
    rcases List.mem_cons.1 har with rfl | har
    · refine ⟨?_, _, (hr _).2 (.inl rfl), rfl⟩
      have := hfresh.1
      change area ≠ nullArea
      unfold kernelArea nullArea at *
      omega
    · obtain ⟨hne, r, hm, hnode⟩ := h.area ar har
      exact ⟨hne, r, (hr r).2 (.inr hm), hnode⟩

theorem UserInv.createArea (h : UserInv s) {wired : Bool}
    {va : Nat} (hfresh : Call.legal.fresh s area)
    (hk : (Call.createArea area size wired cached commits va flags).staysInUser s)
    (hs : createArea s area size wired cached commits va flags = some s') : UserInv s' := by
  rcases createArea_spec hs with rfl | ⟨hacc, base, hi, hbase⟩
  · exact h
  · have hpos := hacc.2.1
    have hk := hk hacc
    refine h.insert hpos hfresh ?_ hi
    rcases hbase with ⟨hva, hfind, hvalid⟩ | ⟨hva, rfl, hpage, hfree⟩
    · rw [if_pos hva] at hk
      by_cases hf : flags &&& SEARCH_FROM_BOTTOM ≠ 0
      · exact userBase_bottom h hpos hf hfind hvalid
      · exact (userBase_top h hf (hk.resolve_left hf) hfind hvalid).2
    · rw [if_neg hva] at hk
      have hb := hk hpage hfree
      have hu : kUserTop + 1 < 2 ^ 32 := by decide
      rw [u32_of_lt (by omega)] at hfree
      exact ⟨hb, (isRangeFree_iff h.tree).1 hfree⟩

theorem UserInv.mapPhysicalMemory (h : UserInv s)
    (hfresh : Call.legal.fresh s area) (hk : topTaken s size) (hs : mapPhysicalMemory s area size = some s') :
    UserInv s' := by
  rcases mapPhysicalMemory_spec hs with rfl | ⟨base, hi, hfind, hvalid⟩
  · exact h
  · obtain ⟨hpos, hb⟩ := userBase_top h (by decide) hk hfind hvalid
    exact h.insert hpos hfresh hb hi

theorem live_some (h : (live s area).isSome) : ∃ ar ∈ s.areas, ar.node = area := by
  obtain ⟨ar, har⟩ := Option.isSome_iff_exists.1 h
  exact ⟨ar, List.mem_of_find?_eq_some har, by simpa using List.find?_some har⟩

theorem UserInv.live_ne (h : UserInv s) (hl : (live s area).isSome) : area ≠ nullArea := by
  obtain ⟨ar, har, rfl⟩ := live_some hl
  exact (h.area ar har).1

theorem UserInv.deleteArea (h : UserInv s) (hl : (live s area).isSome)
    (hs : deleteArea s area = some s') : UserInv s' := by
  obtain ⟨a, ha, hs⟩ := Option.bind_eq_some_iff.1 hs
  obtain ⟨⟨returned, root'⟩, hrem, rfl⟩ := Option.map_eq_some_iff.1 hs
  obtain ⟨hT, hr⟩ := remove_ranges h.tree ha hrem
  refine ⟨hT, (hr _).2 ⟨h.null, (h.live_ne hl).symm⟩, fun r hm => h.user r ((hr r).1 hm).1, fun ar har => ?_⟩
  obtain ⟨har, hne⟩ := List.mem_filter.1 har
  obtain ⟨hnull, r, hm, hnode⟩ := h.area ar har
  refine ⟨hnull, r, (hr r).2 ⟨hm, ?_⟩, hnode⟩
  rw [hnode]
  simpa using hne

theorem resize_next (h : UserInv s) {a : AVLNode}
    (ha : a.range ∈ ranges s.root) (hres : resizes s a newSize commits) (htop : a.fLowKey + newSize ≤ kUserTop)
    (hsame : newSize = getSize a → isRangeFree (a.fLowKey + newSize) (a.fLowKey + newSize) s.root = true) :
    ∀ r ∈ ranges s.root, a.fHighKey < r.low → a.fLowKey + newSize < r.low := by
  intro r hr hlt
  have hle : a.fLowKey ≤ a.fHighKey := (h.bounds _ ha).1
  have hhi : a.fHighKey ≤ kUserTop := h.high_le _ ha
  have hrl := (h.bounds r hr).1
  have hu : kUserTop + 1 < 2 ^ 32 := by decide
  have hsize : getSize a = a.fHighKey - a.fLowKey + 1 := by
    unfold getSize
    rw [sub32_of_le hle (by omega), u32_of_lt (by omega)]
  by_contra hge
  rcases Nat.lt_trichotomy newSize (getSize a) with hcmp | hcmp | hcmp
  · omega
  · have hfree := (isRangeFree_iff h.tree).1 (hsame hcmp) r hr
    exact hfree ⟨by omega, by omega⟩
  · obtain ⟨-, hgrow⟩ := hres.2 hcmp
    have hgrow : isRangeFree (u32 (a.fLowKey + getSize a)) (u32 (a.fLowKey + newSize)) s.root = true := by
      simp only [canGrow, decide_eq_true_eq] at hgrow
      exact hgrow.2
    rw [u32_of_lt (by omega), u32_of_lt (by omega)] at hgrow
    exact (isRangeFree_iff h.tree).1 hgrow r hr ⟨by omega, by omega⟩

theorem UserInv.resizeArea (h : UserInv s)
    (hl : (live s area).isSome) (hk : (Call.resizeArea area newSize commits).staysInUser s)
    (hs : resizeArea s area newSize commits = some s') : UserInv s' := by
  rcases resizeArea_spec hs with rfl | ⟨rfl, a, ha, hres⟩
  · exact h
  · obtain ⟨htop, hsame⟩ := hk a ha hres
    obtain ⟨hm, hptr⟩ := range_of_nodeAt ha
    have hu : kUserTop + 1 < 2 ^ 32 := by decide
    have hpos : 0 < newSize := Nat.pos_of_ne_zero hres.1
    have hhigh : u32 (a.fLowKey + newSize) = a.fLowKey + newSize := u32_of_lt (by omega)
    obtain ⟨hT, hr⟩ := resize_spec h.tree ha hhigh (by omega) (by omega) (resize_next h hm hres htop hsame)
    have hne := h.live_ne hl
    refine ⟨hT, (hr _).2 (.inr ⟨h.null, hne.symm⟩), fun r hmr => ?_, fun ar har => ?_⟩
    · rcases (hr r).1 hmr with rfl | ⟨hmr, -⟩
      · rcases h.user a.range hm with hnull | ⟨hlow, -⟩
        · exact absurd (hptr.symm.trans (congrArg Range.node hnull)) hne
        · exact .inr ⟨hlow, htop⟩
      · exact h.user r hmr
    · obtain ⟨ar0, har0, rfl⟩ := List.mem_map.1 har
      obtain ⟨hnull, r, hmr, hnode⟩ := h.area ar0 har0
      have hsame : (if ar0.node = area then { ar0 with size := newSize } else ar0).node = ar0.node := by
        split <;> rfl
      rw [hsame]
      by_cases hra : r.node = area
      · exact ⟨hnull, ⟨area, a.fLowKey, a.fLowKey + newSize⟩, (hr _).2 (.inl rfl), hra.symm.trans hnode⟩
      · exact ⟨hnull, r, (hr r).2 (.inr ⟨hmr, hra⟩), hnode⟩

theorem userInv_step (h : UserInv s) {c : Call} (hk : c.staysInUser s) (hs : step s c = some s') :
    UserInv s' := by
  obtain ⟨hc, hs⟩ := Option.ite_none_right_eq_some.1 hs
  cases c with
  | createArea area size wired cached commits va flags => exact h.createArea hc.1 hk hs
  | mapPhysicalMemory area size => exact h.mapPhysicalMemory hc.1 hk hs
  | resizeArea area newSize commits => exact h.resizeArea hc.1 hk hs
  | deleteArea area => exact h.deleteArea hc hs

theorem userInv_init (h : construct = some s) : UserInv s := by
  rw [construct_eq h]
  refine ⟨treeInv_constructed, (ranges_constructed _).2 rfl, fun r hr => .inl ((ranges_constructed r).1 hr), ?_⟩
  intro ar har
  cases har

theorem UserInv.userAreas (h : UserInv s) : UserAreas s := by
  intro ar har
  obtain ⟨hne, r, hr, hnode⟩ := h.area ar har
  obtain ⟨a, ha, rfl⟩ := nodeAt_of_range h.tree hr
  rw [hnode] at ha
  rcases h.user _ hr with hnull | ⟨hlow, htop⟩
  · exact absurd (hnode.symm.trans (congrArg Range.node hnull)) hne
  · exact ⟨a, ha, hlow, (h.bounds _ hr).1, htop⟩

/-- **User areas stay in user space in every run whose calls do**: in every state each area created lies in
`[kUserBase, kUserTop]`. -/
theorem user_areas {s : State} (h : system.ReachVia (fun s c => c.staysInUser s) s) : UserAreas s :=
  (StepSystem.ReachVia.invariant UserInv (fun _ h0 => userInv_init h0)
    (fun _ _ _ hI hk hs => userInv_step hI hk hs) h).userAreas

theorem user_areas_run :
    ∃ s, system.exec constructed [.createArea 10 0x2000 false true true 0x10000000 0, .resizeArea 10 0x1000 true] =
      some s ∧ UserAreas s := by
  refine ⟨_, rfl, user_areas (StepSystem.reachVia_exec
    [.createArea 10 0x2000 false true true 0x10000000 0, .resizeArea 10 0x1000 true] (.init rfl) ⟨?_, ?_, trivial⟩ rfl)⟩
  · exact fun _ _ _ => by decide
  · rintro a ha -
    cases ha
    exact ⟨by decide, fun hsize => absurd hsize (by decide)⟩

/-- The first search from the top ends at `kAddressSpaceTop`. -/
theorem search_leaves_user_space : ¬ ∀ s, system.Reach s → UserAreas s := by
  intro h
  have hrun : ∃ s, system.exec constructed [.createArea 10 0x1000 false false false INVALID_PAGE 0] = some s ∧
      s.areas = [⟨10, false, 0x1000⟩] ∧ nodeAt s.root 10 = some ⟨10, 0xdffff000, 0xdfffffff, 0⟩ :=
    ⟨_, rfl, rfl, rfl⟩
  obtain ⟨s, he, hareas, hnode⟩ := hrun
  obtain ⟨a, ha, -, -, htop⟩ := h s (StepSystem.reach_exec _ (.init rfl) he) ⟨10, false, 0x1000⟩ (by rw [hareas]; simp)
  rw [hnode] at ha
  cases ha
  exact absurd htop (by decide)

end AddressSpace
