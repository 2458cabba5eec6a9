import SkyOS.Vm.Areas

/-!
# Areas keep their size, their alignment and their distance

`AVLTree::Resize` stores `fLowKey + newSize` as the last key (`AVLTree.cpp:223`), one byte too much. The other
ways out of the invariant are an explicit `va` whose range passes `2^32`, and a search from the top below an area
that ends above `kAddressSpaceTop`. `Call.keepsAreas` leaves out exactly these.
-/

namespace AddressSpace

open AVLTree Machine List

/-- The invariant of the areas, as the calls need it. -/
structure AreaInv (s : State) : Prop where
  tree : TreeInv s.root
  paged : ∀ r ∈ ranges s.root, PAGE_SIZE ∣ r.low ∧ PAGE_SIZE ∣ r.high + 1 ∧ r.high < 2 ^ 32
  sized : ∀ ar ∈ s.areas, PAGE_SIZE ∣ ar.size ∧ ar.size < 2 ^ 32 ∧
    ∃ r ∈ ranges s.root, r.node = ar.node ∧ r.high + 1 = r.low + ar.size

/-- Every area is in the tree, page-aligned, of the size last requested, and the areas are disjoint. -/
structure AreasRight (s : State) : Prop where
  area : ∀ ar ∈ s.areas, ∃ a, nodeAt s.root ar.node = some a ∧ PAGE_SIZE ∣ a.fLowKey ∧ getSize a = ar.size ∧
    PAGE_SIZE ∣ ar.size ∧ a.fLowKey ≤ a.fHighKey
  disjoint : Ordered (ranges s.root)

/-- A search from the top starts above all areas, or wraps into bytes that are free. -/
def topSearchRight (s : State) (size : Nat) : Prop :=
  ∀ r ∈ ranges s.root, (∀ x ∈ ranges s.root, x.high ≤ r.high) → kAddressSpaceTop < r.high →
    kAddressSpaceTop + 2 ^ 32 - r.high < size ∨
      (size ≤ kAddressSpaceTop + 1 ∧ isRangeFree (kAddressSpaceTop + 1 - size) kAddressSpaceTop s.root = true)

/-- Areas are created, resized to a non-zero number of pages and deleted; none is made for physical memory. -/
def Call.paged : Call → Prop
  | .createArea .. | .deleteArea _ => True
  | .mapPhysicalMemory .. => False
  | .resizeArea _ newSize _ => newSize ≠ 0 ∧ PAGE_SIZE ∣ newSize

def Call.keepsAreas (s : State) : Call → Prop
  | .createArea _ size _ cached commits va flags =>
    accepted size cached commits →
      if va = INVALID_PAGE then flags &&& SEARCH_FROM_BOTTOM ≠ 0 ∨ topSearchRight s size
      else PAGE_SIZE ∣ va → isRangeFree va (u32 (va + size - 1)) s.root = true → va + size ≤ 2 ^ 32
  | .resizeArea area newSize commits => ∀ a, nodeAt s.root area = some a → ¬ resizes s a newSize commits
  | .mapPhysicalMemory .. | .deleteArea _ => True

/-! ## Searching -/

variable {s s' : State} {size flags base area : Nat}

theorem AreaInv.bounds (h : AreaInv s) : ∀ r ∈ ranges s.root, r.low ≤ r.high ∧ r.high < 2 ^ 32 :=
  fun r hr => ⟨(h.tree.proper r hr).1, (h.paged r hr).2.2⟩

/-- A base that was found is good for the new area. -/
structure GoodBase (s : State) (base size : Nat) : Prop where
  paged : PAGE_SIZE ∣ base
  bound : base + size ≤ 2 ^ 32
  free : ∀ r ∈ ranges s.root, ¬ r.meets base (base + size - 1)

theorem goodBase_bottom (h : AreaInv s) (hs : 0 < size)
    (hf : flags &&& SEARCH_FROM_BOTTOM ≠ 0) (hfind : findFreeRange s.root size flags = some base)
    (hbase : base ≠ INVALID_PAGE) : GoodBase s base size := by
  have he := findFreeRange_eq hfind
  rw [if_pos hf] at he
  obtain ⟨hfree, -, heq, r, hr, hle⟩ :=
    fromBottom_free hs h.tree.ordered h.bounds (fun r _ => Nat.zero_le _) he.symm hbase
  have hb := h.bounds r hr
  refine ⟨?_, by omega, hfree⟩
  rcases heq with rfl | ⟨x, hx, rfl⟩
  · exact Nat.dvd_zero _
  · exact (h.paged x hx).2.1

theorem TopFree.goodBase (h : AreaInv s) {high : Nat} (hs : PAGE_SIZE ∣ size)
    (hh : PAGE_SIZE ∣ high + 1) (hb : high < 2 ^ 32) (ht : TopFree size base high (ranges s.root).reverse) :
    GoodBase s base size := by
  obtain ⟨hfree, hends, -⟩ := ht
  have hfree : ∀ r ∈ ranges s.root, ¬ r.meets base (base + size - 1) :=
    fun r hr => hfree r (mem_reverse.2 hr)
  rcases hends with hends | ⟨r, hr, hends⟩
  · exact ⟨(Nat.dvd_add_left hs).1 (hends ▸ hh), by omega, hfree⟩
  · have hr := mem_reverse.1 hr
    have hrb := h.bounds r hr
    exact ⟨(Nat.dvd_add_left hs).1 (hends ▸ (h.paged r hr).1), by omega, hfree⟩

theorem goodBase_top (h : AreaInv s) (hs : PAGE_SIZE ∣ size) (hlt : size < 2 ^ 32)
    (hf : ¬ flags &&& SEARCH_FROM_BOTTOM ≠ 0) (htop : topSearchRight s size)
    (hfind : findFreeRange s.root size flags = some base) (hbase : base ≠ INVALID_PAGE) : GoodBase s base size := by
  have he := findFreeRange_eq hfind
  rw [if_neg hf] at he
  have hdesc := descending_reverse h.tree.ordered
  have hbounds : ∀ r ∈ (ranges s.root).reverse, r.low ≤ r.high ∧ r.high < 2 ^ 32 :=
    fun r hr => h.bounds r (mem_reverse.1 hr)
  have hT : PAGE_SIZE ∣ kAddressSpaceTop + 1 := by decide
  cases hrev : (ranges s.root).reverse with
  | nil =>
    rw [hrev] at he
    exact absurd he hbase
  | cons r rs =>
    have hmem : ∀ x, x ∈ ranges s.root ↔ x ∈ r :: rs := fun x => by rw [← hrev, mem_reverse]
    have hr := (hmem r).2 (by simp)
    have hmax : ∀ x ∈ ranges s.root, x.high ≤ r.high := by
      intro x hx
      rw [hrev] at hdesc
      rcases mem_cons.1 ((hmem x).1 hx) with rfl | hx'
      · exact le_rfl
      · have := (pairwise_cons.1 hdesc).1 x hx'
        have := h.bounds r hr
        omega
    by_cases hle : r.high ≤ kAddressSpaceTop
    · have ht := fromTop_free hdesc hbounds hbase kAddressSpaceTop (by decide)
        (fun x hx => Nat.le_trans (hmax x (mem_reverse.1 hx)) hle) he.symm
      exact ht.goodBase h hs hT (by decide)
    · -- the first difference wraps
      have hrb := h.bounds r hr
      have hwrap : sub32 kAddressSpaceTop r.high = kAddressSpaceTop + 2 ^ 32 - r.high := by
        unfold sub32
        rw [u32_of_lt hrb.2, u32_of_lt (by omega)]
        omega
      rw [hrev, fromTop, hwrap] at he
      rcases htop r hr hmax (by omega) with hsmall | ⟨hsize, hfree⟩
      · rw [if_neg (by omega)] at he
        rw [hrev] at hdesc hbounds
        have hrs := (pairwise_cons.1 hdesc).2
        have hbelow := TopFree.below hdesc hbounds hbase he.symm
          (fromTop_free hrs (fun x hx => hbounds x (by simp [hx])) hbase)
        have ht := hbelow.2 kAddressSpaceTop
        rw [← hrev] at ht
        exact ht.goodBase h hs hT (by decide)
      · have hfree := (isRangeFree_iff h.tree).1 hfree
        by_cases hgap : kAddressSpaceTop + 2 ^ 32 - r.high ≥ size
        · rw [if_pos hgap, sub32_of_le hsize (by decide)] at he
          subst he
          have hsum : kAddressSpaceTop + 1 - size + size = kAddressSpaceTop + 1 := by omega
          refine ⟨(Nat.dvd_add_left hs).1 (by rw [hsum]; exact hT), by rw [hsum]; decide, ?_⟩
          rw [hsum]
          exact hfree
        · exact absurd hsize (by unfold kAddressSpaceTop at *; omega)

/-! ## The calls -/

theorem AreaInv.insert (h : AreaInv s) {cached : Bool} (hs : PAGE_SIZE ∣ size)
    (hpos : 0 < size) (hlt : size < 2 ^ 32) (hn : nodeAt s.root area = none) (hb : GoodBase s base size)
    (hi : insertArea s area base size cached = some s') : AreaInv s' := by
  have hpage : 1 < base + size := by
    have := Nat.le_of_dvd hpos hs
    have : PAGE_SIZE = 4096 := rfl
    omega
  obtain ⟨hT, hr, hareas⟩ := insertArea_spec h.tree hpos hb.bound hpage hn hb.free hi
  refine ⟨hT, fun r hm => ?_, fun ar har => ?_⟩
  · rcases (hr r).1 hm with rfl | hm
    · have hend : base + size - 1 + 1 = base + size := by omega
      refine ⟨hb.paged, ?_, ?_⟩
      · change PAGE_SIZE ∣ base + size - 1 + 1
        rw [hend]
        exact Nat.dvd_add hb.paged hs
      · have := hb.bound
        change base + size - 1 < 2 ^ 32
        omega
    · exact h.paged r hm
  · rw [hareas] at har
    rcases mem_cons.1 har with rfl | har
    · exact ⟨hs, hlt, _, (hr _).2 (.inl rfl), rfl, by change base + size - 1 + 1 = base + size; omega⟩
    · obtain ⟨h1, h2, r, hm, hrest⟩ := h.sized ar har
      exact ⟨h1, h2, r, (hr r).2 (.inr hm), hrest⟩

theorem AreaInv.createArea (h : AreaInv s) {wired cached commits : Bool}
    {va : Nat} (hn : nodeAt s.root area = none) (hlt : size < 2 ^ 32)
    (hk : (Call.createArea area size wired cached commits va flags).keepsAreas s)
    (hs : createArea s area size wired cached commits va flags = some s') : AreaInv s' := by
  rcases createArea_spec hs with rfl | ⟨hacc, base, hi, hbase⟩
  · exact h
  · obtain ⟨hdvd, hpos, -⟩ := id hacc
    have hk := hk hacc
    refine h.insert hdvd hpos hlt hn ?_ hi
    rcases hbase with ⟨hva, hfind, hvalid⟩ | ⟨hva, rfl, hpage, hfree⟩
    · rw [if_pos hva] at hk
      by_cases hf : flags &&& SEARCH_FROM_BOTTOM ≠ 0
      · exact goodBase_bottom h hpos hf hfind hvalid
      · exact goodBase_top h hdvd hlt hf (hk.resolve_left hf) hfind hvalid
    · rw [if_neg hva] at hk
      have hb := hk hpage hfree
      rw [u32_of_lt (by omega)] at hfree
      exact ⟨hpage, hb, (isRangeFree_iff h.tree).1 hfree⟩

theorem AreaInv.deleteArea (h : AreaInv s) (hs : deleteArea s area = some s') :
    AreaInv s' := by
  obtain ⟨a, ha, hs⟩ := Option.bind_eq_some_iff.1 hs
  obtain ⟨⟨returned, root'⟩, hrem, rfl⟩ := Option.map_eq_some_iff.1 hs
  obtain ⟨hT, hr⟩ := remove_ranges h.tree ha hrem
  refine ⟨hT, fun r hm => h.paged r ((hr r).1 hm).1, fun ar har => ?_⟩
  obtain ⟨har, hne⟩ := mem_filter.1 har
  obtain ⟨h1, h2, r, hm, hnode, hsize⟩ := h.sized ar har
  refine ⟨h1, h2, r, (hr r).2 ⟨hm, ?_⟩, hnode, hsize⟩
  rw [hnode]
  simpa using hne

theorem areaInv_step (h : AreaInv s) {c : Call} (hp : c.paged) (hk : c.keepsAreas s)
    (hs : step s c = some s') : AreaInv s' := by
  obtain ⟨hc, hs⟩ := Option.ite_none_right_eq_some.1 hs
  cases c with
  | createArea area size wired cached commits va flags => exact h.createArea hc.1.2.1 hc.2.1 hk hs
  | mapPhysicalMemory area size => exact absurd hp id
  | resizeArea area newSize commits =>
    rcases resizeArea_spec hs with rfl | ⟨-, a, ha, hres⟩
    · exact h
    · exact absurd hres (hk a ha)
  | deleteArea area => exact h.deleteArea hs

theorem areaInv_init (h : construct = some s) : AreaInv s := by
  rw [construct_eq h]
  refine ⟨treeInv_constructed, fun r hr => ?_, fun ar har => by cases har⟩
  rw [(ranges_constructed r).1 hr]
  decide

theorem AreaInv.areasRight (h : AreaInv s) : AreasRight s := by
  refine ⟨fun ar har => ?_, h.tree.ordered⟩
  obtain ⟨hdvd, hlt, r, hr, hnode, hsize⟩ := h.sized ar har
  obtain ⟨a, ha, rfl⟩ := nodeAt_of_range h.tree hr
  obtain ⟨hle, hb⟩ := h.bounds a.range hr
  rw [hnode] at ha
  exact ⟨a, ha, (h.paged _ hr).1, getSize_eq hle hb hsize hlt, hdvd, hle⟩

/-- **Areas are right in every run that keeps them**: in every state every area is in the tree with an
aligned base, the size last requested for it, and no two areas meet. -/
theorem areas_right {s : State} (h : system.ReachVia (fun s c => c.paged ∧ c.keepsAreas s) s) : AreasRight s := by
  refine (StepSystem.ReachVia.invariant AreaInv (fun s h0 => areaInv_init h0) ?_ h).areasRight
  rintro s c s' hI ⟨hp, hk⟩ hs
  exact areaInv_step hI hp hk hs

/-- Two areas, one placed by address and one below it from the bottom; the first is deleted again. -/
theorem areas_right_run :
    ∃ s, system.exec constructed
      [.createArea 10 0x2000 false false false 0x10000000 0,
        .createArea 11 0x1000 false false false INVALID_PAGE SEARCH_FROM_BOTTOM, .deleteArea 10] = some s ∧
      AreasRight s := by
  refine ⟨_, rfl, areas_right (StepSystem.reachVia_exec
    [.createArea 10 0x2000 false false false 0x10000000 0,
      .createArea 11 0x1000 false false false INVALID_PAGE SEARCH_FROM_BOTTOM, .deleteArea 10]
    (.init rfl) ⟨⟨trivial, ?_⟩, ⟨trivial, ?_⟩, ⟨trivial, trivial⟩, trivial⟩ rfl)⟩
  · exact fun _ _ _ => by decide
  · exact fun _ => Or.inl (by decide)

/-- Resizing an area to the size it has makes it one byte longer. -/
theorem resize_adds_a_byte : ¬ ∀ s, system.ReachVia (fun _ c => c.paged) s → AreasRight s := by
  intro h
  have hrun : ∃ s, system.exec constructed
      [.createArea 10 0x1000 false false false 0x10000000 0, .resizeArea 10 0x1000 true] = some s ∧
      s.areas = [⟨10, false, 0x1000⟩] ∧ nodeAt s.root 10 = some ⟨10, 0x10000000, 0x10001000, 0⟩ :=
    ⟨_, rfl, rfl, rfl⟩
  obtain ⟨s, he, hareas, hnode⟩ := hrun
  have hreach : system.ReachVia (fun _ c => c.paged) s := StepSystem.reachVia_exec
    [.createArea 10 0x1000 false false false 0x10000000 0, .resizeArea 10 0x1000 true] (.init rfl)
    ⟨trivial, ⟨by decide, by decide⟩, trivial⟩ he
  obtain ⟨a, ha, -, hsize, -⟩ := (h s hreach).area ⟨10, false, 0x1000⟩ (by rw [hareas]; simp)
  rw [hnode] at ha
  cases ha
  exact absurd hsize (by decide)

end AddressSpace
