import SkyOS.Vm.AddressSpace

/-!
# What the calls on an address space do to its areas

`FindFreeRange` is a scan of the sorted ranges (`fromBottom`, `fromTop`); while the ranges are disjoint and
the scan starts above all of them it returns a free range. Each call is then one of three things to the
sequence of ranges: it inserts one, takes one out, or moves the end of one.
-/

namespace AddressSpace

open AVLTree Machine Option

/-! ## The scans -/

def fromBottom (size : Nat) : Nat → List Range → Nat
  | _, [] => INVALID_PAGE
  | low, r :: rs => if sub32 r.low low ≥ size then low else fromBottom size (u32 (r.high + 1)) rs

def fromTop (size : Nat) : Nat → List Range → Nat
  | _, [] => INVALID_PAGE
  | high, r :: rs =>
    if sub32 high r.high ≥ size then sub32 (high + 1) size else fromTop size (sub32 r.low 1) rs

variable {it : Iterator} {size fuel low va high area : Nat} {root : Tree} {rs : List Range} {a : AVLNode} {s s' : State}

theorem remaining_end (hok : it.Ok) (h : it.fCurrentNode = none) : it.remaining = [] := by
  simp [Iterator.remaining, pendingAll, h, hok h]

theorem searchFromBottom_eq (hok : it.Ok)
    (h : searchFromBottom size fuel it low = some va) :
    va = fromBottom size low (it.remaining.map AVLNode.range) := by
  induction fuel generalizing it low with
  | zero => cases h
  | succ fuel ih =>
    unfold searchFromBottom at h
    split at h
    · rename_i hend
      cases h
      rw [remaining_end hok hend]
      rfl
    · rename_i area hcur
      by_cases hgap : sub32 area.node.fLowKey low ≥ size
      · rw [if_pos hgap] at h
        cases h
        simp [Iterator.remaining, pendingAll, hcur, Place.pending, fromBottom, AVLNode.range, hgap]
      · rw [if_neg hgap] at h
        obtain ⟨it', hnext, h⟩ := bind_eq_some_iff.1 h
        obtain ⟨-, ⟨p, hp, hrem⟩, hok'⟩ := remaining_goToNext hnext
        rw [hcur] at hp
        cases hp
        rw [hrem, List.map_cons, fromBottom, if_neg (by exact hgap)]
        exact ih hok' h

theorem searchFromTop_eq (hok : it.Ok)
    (h : searchFromTop size fuel it high = some va) :
    va = fromTop size high (it.remaining.map AVLNode.range) := by
  induction fuel generalizing it high with
  | zero => cases h
  | succ fuel ih =>
    unfold searchFromTop at h
    split at h
    · rename_i hend
      cases h
      rw [remaining_end hok hend]
      rfl
    · rename_i area hcur
      by_cases hgap : sub32 high area.node.fHighKey ≥ size
      · rw [if_pos hgap] at h
        cases h
        simp [Iterator.remaining, pendingAll, hcur, Place.pending, fromTop, AVLNode.range, hgap]
      · rw [if_neg hgap] at h
        obtain ⟨it', hnext, h⟩ := bind_eq_some_iff.1 h
        obtain ⟨-, ⟨p, hp, hrem⟩, hok'⟩ := remaining_goToNext hnext
        rw [hcur] at hp
        cases hp
        rw [hrem, List.map_cons, fromTop, if_neg (by exact hgap)]
        exact ih hok' h

variable {flags h newSize : Nat} {r : Range} {root' : Tree} {returned cached commits : Bool}

theorem findFreeRange_eq (h : findFreeRange root size flags = some va) :
    va = if flags &&& SEARCH_FROM_BOTTOM ≠ 0 then fromBottom size 0 (ranges root)
      else fromTop size kAddressSpaceTop (ranges root).reverse := by
  unfold findFreeRange at h
  split at h
  · rename_i hf
    rw [if_pos hf]
    obtain ⟨it, hbegin, h⟩ := bind_eq_some_iff.1 h
    obtain ⟨-, hrem, hok⟩ := remaining_begin hbegin
    rw [searchFromBottom_eq hok h, hrem]
    rfl
  · rename_i hf
    rw [if_neg hf]
    obtain ⟨it, hbegin, h⟩ := bind_eq_some_iff.1 h
    obtain ⟨-, hrem, hok⟩ := remaining_begin hbegin
    rw [searchFromTop_eq hok h, hrem, order, if_neg (by decide), ranges, List.map_reverse]

theorem searchFromBottom_isSome (hh : h ≤ kMaxTreeHeight) (size : Nat)
    (hf : it.Fits h) (hlen : it.remaining.length < fuel) (low : Nat) :
    (searchFromBottom size fuel it low).isSome := by
  induction fuel generalizing it low with
  | zero => exact absurd hlen (Nat.not_lt_zero _)
  | succ fuel ih =>
    unfold searchFromBottom
    split
    · rfl
    · rename_i area hcur
      split
      · rfl
      · obtain ⟨it', hnext, hf'⟩ := goToNext_isSome hh hf hcur
        obtain ⟨-, ⟨p, -, hrem⟩, -⟩ := remaining_goToNext hnext
        rw [hrem, List.length_cons] at hlen
        rw [hnext]
        exact ih hf' (by omega) _

theorem searchFromTop_isSome (hh : h ≤ kMaxTreeHeight) (size : Nat)
    (hf : it.Fits h) (hlen : it.remaining.length < fuel) (high : Nat) :
    (searchFromTop size fuel it high).isSome := by
  induction fuel generalizing it high with
  | zero => exact absurd hlen (Nat.not_lt_zero _)
  | succ fuel ih =>
    unfold searchFromTop
    split
    · rfl
    · rename_i area hcur
      split
      · rfl
      · obtain ⟨it', hnext, hf'⟩ := goToNext_isSome hh hf hcur
        obtain ⟨-, ⟨p, -, hrem⟩, -⟩ := remaining_goToNext hnext
        rw [hrem, List.length_cons] at hlen
        rw [hnext]
        exact ih hf' (by omega) _

theorem length_order (forward : Bool) (t : Tree) : (order forward t).length = t.numNodes := by
  cases forward <;> simp [order, BinaryTree.length_inorder]

/-- The stack and the fuel of `FindFreeRange` suffice for a tree of at most 32 levels. -/
theorem findFreeRange_isSome (h : root.height ≤ kMaxTreeHeight) (size flags : Nat) :
    (findFreeRange root size flags).isSome := by
  unfold findFreeRange
  split
  · obtain ⟨it, hbegin, hf⟩ := begin_isSome h true
    have hlen := congrArg List.length (remaining_begin hbegin).2.1
    rw [length_order] at hlen
    rw [hbegin]
    exact searchFromBottom_isSome h size hf (by omega) 0
  · obtain ⟨it, hbegin, hf⟩ := begin_isSome h false
    have hlen := congrArg List.length (remaining_begin hbegin).2.1
    rw [length_order] at hlen
    rw [hbegin]
    exact searchFromTop_isSome h size hf (by omega) kAddressSpaceTop

/-! ## A free range is found -/

theorem fromBottom_free (hs : 0 < size) (ho : Ordered rs)
    (hp : ∀ r ∈ rs, r.low ≤ r.high ∧ r.high < 2 ^ 32) (hlow : ∀ r ∈ rs, low ≤ r.low)
    (h : fromBottom size low rs = va) (hva : va ≠ INVALID_PAGE) :
    (∀ r ∈ rs, ¬ r.meets va (va + size - 1)) ∧ low ≤ va ∧ (va = low ∨ ∃ r ∈ rs, va = r.high + 1) ∧
      ∃ r ∈ rs, va + size ≤ r.low := by
  induction rs generalizing low with
  | nil => exact absurd h.symm hva
  | cons r rs ih =>
    obtain ⟨hr, ho⟩ := ordered_cons.1 ho
    obtain ⟨hrp, hrb⟩ := hp r (by simp)
    have hrl := hlow r (by simp)
    unfold fromBottom at h
    rw [sub32_of_le hrl (by omega)] at h
    split at h
    · rename_i hgap
      subst h
      refine ⟨?_, le_rfl, .inl rfl, r, by simp, by omega⟩
      rintro x hx ⟨hx1, -⟩
      rcases List.mem_cons.1 hx with rfl | hx
      · omega
      · have := hr x hx
        omega
    · have hnext : ∀ x ∈ rs, u32 (r.high + 1) ≤ x.low := by
        intro x hx
        have := hr x hx
        have hx2 := hp x (by simp [hx])
        rw [u32_of_lt (by omega)]
        omega
      obtain ⟨hfree, hle, heq, q, hq, hqv⟩ := ih ho (fun x hx => hp x (by simp [hx])) hnext h
      have hq2 := hp q (by simp [hq])
      have hrq := hr q hq
      have hu : u32 (r.high + 1) = r.high + 1 := u32_of_lt (by omega)
      rw [hu] at hle heq
      refine ⟨?_, by omega, .inr ?_, q, by simp [hq], hqv⟩
      · rintro x hx hm
        rcases List.mem_cons.1 hx with rfl | hx
        · have := hm.2
          omega
        · exact hfree x hx hm
      · rcases heq with heq | ⟨x, hx, hxe⟩
        · exact ⟨r, by simp, heq⟩
        · exact ⟨x, by simp [hx], hxe⟩

def Descending (l : List Range) : Prop := l.Pairwise fun a b => b.high < a.low

/-- What the scan from `high` found: `[va, va + size)` is free, ends at `high` or where a range begins, and
lies above some range. -/
structure TopFree (size va high : Nat) (rs : List Range) : Prop where
  free : ∀ r ∈ rs, ¬ r.meets va (va + size - 1)
  ends : va + size = high + 1 ∨ ∃ r ∈ rs, va + size = r.low
  above : ∃ r ∈ rs, r.high < va

/-- The scan goes on below the range `r`. -/
theorem TopFree.below (ho : Descending (r :: rs))
    (hp : ∀ x ∈ r :: rs, x.low ≤ x.high ∧ x.high < 2 ^ 32) (hva : va ≠ INVALID_PAGE)
    (h : fromTop size (sub32 r.low 1) rs = va)
    (ih : ∀ high, high + 1 < 2 ^ 32 → (∀ x ∈ rs, x.high ≤ high) → fromTop size high rs = va → TopFree size va high rs) :
    va + size ≤ r.low ∧ ∀ high, TopFree size va high (r :: rs) := by
  cases rs with
  | nil => exact absurd h.symm hva
  | cons q rs =>
    obtain ⟨hr, -⟩ := List.pairwise_cons.1 ho
    obtain ⟨hrp, hrb⟩ := hp r (by simp)
    have hqr := hr q (by simp)
    have hlow : sub32 r.low 1 = r.low - 1 := sub32_of_le (by omega) (by omega)
    rw [hlow] at h
    obtain ⟨hfree, hends, p, hpm, hpv⟩ := ih (r.low - 1) (by omega) (fun x hx => by have := hr x hx; omega) h
    have htop : va + size ≤ r.low := by
      rcases hends with hends | ⟨x, hx, hxe⟩
      · omega
      · have := hr x hx
        have := hp x (by simp [hx])
        omega
    refine ⟨htop, fun high => ⟨?_, .inr ?_, p, by simp [hpm], hpv⟩⟩
    · rintro x hx hm
      rcases List.mem_cons.1 hx with rfl | hx
      · have := hm.1
        omega
      · exact hfree x hx hm
    · rcases hends with hends | ⟨x, hx, hxe⟩
      · exact ⟨r, by simp, by omega⟩
      · exact ⟨x, by simp [hx], hxe⟩

theorem fromTop_free (ho : Descending rs)
    (hp : ∀ r ∈ rs, r.low ≤ r.high ∧ r.high < 2 ^ 32) (hva : va ≠ INVALID_PAGE) (high : Nat) (hb : high + 1 < 2 ^ 32)
    (hhigh : ∀ r ∈ rs, r.high ≤ high) (h : fromTop size high rs = va) : TopFree size va high rs := by
  induction rs generalizing high with
  | nil => exact absurd h.symm hva
  | cons r rs ih =>
    obtain ⟨hr, hrs⟩ := List.pairwise_cons.1 ho
    obtain ⟨hrp, hrb⟩ := hp r (by simp)
    have hrh := hhigh r (by simp)
    unfold fromTop at h
    rw [sub32_of_le hrh (by omega)] at h
    split at h
    · rename_i hgap
      rw [sub32_of_le (by omega) hb] at h
      subst h
      refine ⟨?_, .inl (by omega), r, by simp, by omega⟩
      rintro x hx ⟨-, hx2⟩
      rcases List.mem_cons.1 hx with rfl | hx
      · omega
      · have := hr x hx
        omega
    · exact (TopFree.below ho hp hva h (ih hrs fun x hx => hp x (by simp [hx]))).2 high

theorem descending_reverse (h : Ordered rs) : Descending rs.reverse :=
  List.pairwise_reverse.2 h

/-! ## The three effects on the ranges -/

theorem add_free (h : TreeInv root) {node : Nat} (hlh : low ≤ high)
    (hpos : 0 < high) (hn : nodeAt root node = none) (hfree : ∀ r ∈ ranges root, ¬ r.meets low high)
    (ha : add root node low high = some (returned, root')) :
    TreeInv root' ∧ ∀ r, r ∈ ranges root' ↔ r = ⟨node, low, high⟩ ∨ r ∈ ranges root := by
  have hadd := add_spec h ha
  refine ⟨hadd.inv h hlh hpos (nodeAt_none hn), fun r => ?_⟩
  cases hadd with
  | refused hx hm => exact absurd hm (hfree _ hx)
  | inserted L R hroot hroot' =>
    rw [hroot, hroot']
    simp only [List.mem_append, List.mem_cons]
    constructor
    · rintro (hr | rfl | hr)
      · exact .inr (.inl hr)
      · exact .inl rfl
      · exact .inr (.inr hr)
    · rintro (rfl | hr | hr)
      · exact .inr (.inl rfl)
      · exact .inl hr
      · exact .inr (.inr hr)

theorem remove_ranges (h : TreeInv root)
    (ha : nodeAt root area = some a) (hrem : remove root a = some (returned, root')) :
    TreeInv root' ∧ ∀ r, r ∈ ranges root' ↔ r ∈ ranges root ∧ r.node ≠ area := by
  obtain ⟨hm, rfl⟩ := nodeAt_some ha
  obtain ⟨-, L, R, hroot, hroot'⟩ := remove_spec h hm hrem
  constructor
  · refine h.sublist ?_
    rw [hroot, hroot']
    exact List.Sublist.append_left (List.sublist_cons_self _ R) L
  · intro r
    have hf := filter_middle (hroot ▸ h.nodup)
    rw [hroot', ← hf, hroot, List.mem_filter, decide_eq_true_iff]
    rfl

theorem nodeAt_of_mem (h : TreeInv root) (ha : a ∈ root.inorder) :
    nodeAt root a.ptr = some a := by
  cases hn : nodeAt root a.ptr with
  | none => exact absurd rfl (nodeAt_none hn _ (List.mem_map_of_mem ha))
  | some b =>
    obtain ⟨hb, hptr⟩ := nodeAt_some hn
    rw [ptr_unique h hb ha hptr]

theorem nodeAt_of_range (h : TreeInv root) (hr : r ∈ ranges root) :
    ∃ a, nodeAt root r.node = some a ∧ a.range = r := by
  obtain ⟨a, ha, rfl⟩ := List.mem_map.1 hr
  exact ⟨a, nodeAt_of_mem h ha, rfl⟩

theorem range_of_nodeAt (h : nodeAt root area = some a) :
    a.range ∈ ranges root ∧ a.ptr = area := by
  obtain ⟨hm, hptr⟩ := nodeAt_some h
  exact ⟨List.mem_map_of_mem hm, hptr⟩

theorem ranges_resize (root : Tree) (node newSize : Nat) :
    ranges (resize root node newSize) =
      (ranges root).map fun r => if r.node = node then { r with high := u32 (r.low + newSize) } else r := by
  rw [ranges, resize, BinaryTree.inorder_map, ranges, List.map_map, List.map_map]
  refine List.map_congr_left fun a _ => ?_
  by_cases h : a.ptr = node <;> simp [AVLNode.range, h]

/-- `Resize` moves the end of one range, and keeps the order while the new end stays below the next range. -/
theorem resize_spec (h : TreeInv root)
    (ha : nodeAt root area = some a) (hhigh : u32 (a.fLowKey + newSize) = high) (hle : a.fLowKey ≤ high)
    (hpos : 0 < high) (hnext : ∀ r ∈ ranges root, a.fHighKey < r.low → high < r.low) :
    TreeInv (resize root area newSize) ∧
      ∀ r, r ∈ ranges (resize root area newSize) ↔
        r = ⟨area, a.fLowKey, high⟩ ∨ (r ∈ ranges root ∧ r.node ≠ area) := by
  obtain ⟨hm, rfl⟩ := range_of_nodeAt ha
  obtain ⟨L, R, hroot⟩ := List.append_of_mem hm
  obtain ⟨ho, hp, hn⟩ := h
  have hother : ∀ r ∈ L ++ R, r.node ≠ a.ptr := by
    intro r hr he
    rw [hroot, List.map_append, List.map_cons, List.nodup_middle, ← List.map_append, List.nodup_cons] at hn
    exact hn.1 (List.mem_map.2 ⟨r, hr, he⟩)
  have hkeep : ∀ l : List Range, (∀ r ∈ l, r.node ≠ a.ptr) →
      l.map (fun r => if r.node = a.ptr then { r with high := u32 (r.low + newSize) } else r) = l := by
    intro l hl
    refine (List.map_congr_left fun r hr => if_neg (hl r hr)).trans (List.map_id l)
  have hnew : ranges (resize root a.ptr newSize) = L ++ ⟨a.ptr, a.fLowKey, high⟩ :: R := by
    rw [ranges_resize, hroot, List.map_append, List.map_cons, hkeep L fun r hr => hother r (by simp [hr]),
      hkeep R fun r hr => hother r (by simp [hr])]
    simp [AVLNode.range, hhigh]
  rw [hroot] at ho hp hnext
  obtain ⟨hL, haR, hLR⟩ := ordered_append.1 ho
  obtain ⟨haR, hR⟩ := ordered_cons.1 haR
  refine ⟨⟨?_, ?_, ?_⟩, fun r => ?_⟩
  · rw [hnew]
    refine ordered_append.2 ⟨hL, ordered_cons.2 ⟨fun b hb => hnext b (by simp [hb]) (haR b hb), hR⟩, ?_⟩
    intro x hx b hb
    rcases List.mem_cons.1 hb with rfl | hb
    · exact hLR x hx a.range (by simp)
    · exact hLR x hx b (by simp [hb])
  · intro r hr
    rw [hnew, List.mem_append, List.mem_cons] at hr
    rcases hr with hr | rfl | hr
    · exact hp r (by simp [hr])
    · exact ⟨hle, hpos⟩
    · exact hp r (by simp [hr])
  · rw [hroot, List.map_append, List.map_cons] at hn
    rw [hnew, List.map_append, List.map_cons]
    exact hn
  · rw [hnew, hroot]
    simp only [List.mem_append, List.mem_cons]
    constructor
    · rintro (hr | rfl | hr)
      · exact .inr ⟨.inl hr, hother r (by simp [hr])⟩
      · exact .inl rfl
      · exact .inr ⟨.inr (.inr hr), hother r (by simp [hr])⟩
    · rintro (rfl | ⟨hr | rfl | hr, hne⟩)
      · exact .inr (.inl rfl)
      · exact .inl hr
      · exact absurd rfl hne
      · exact .inr (.inr hr)

theorem getSize_eq (h : a.fLowKey ≤ a.fHighKey) (hb : a.fHighKey < 2 ^ 32)
    (hsize : a.fHighKey + 1 = a.fLowKey + size) (hs : size < 2 ^ 32) : getSize a = size := by
  unfold getSize
  rw [sub32_of_le h hb, u32_of_lt (by omega)]
  omega

theorem insertArea_spec (h : TreeInv s.root) {base : Nat} (hs : 0 < size)
    (hb : base + size ≤ 2 ^ 32) (hpos : 1 < base + size) (hn : nodeAt s.root area = none)
    (hfree : ∀ r ∈ ranges s.root, ¬ r.meets base (base + size - 1))
    (hi : insertArea s area base size cached = some s') :
    TreeInv s'.root ∧ (∀ r, r ∈ ranges s'.root ↔ r = ⟨area, base, base + size - 1⟩ ∨ r ∈ ranges s.root) ∧
      s'.areas = ⟨area, cached, size⟩ :: s.areas := by
  obtain ⟨⟨returned, root'⟩, ha, rfl⟩ := map_eq_some_iff.1 hi
  rw [u32_of_lt (by omega)] at ha
  obtain ⟨hT, hr⟩ := add_free h (by omega) (by omega) hn hfree ha
  exact ⟨hT, hr, rfl⟩

/-! ## The calls -/

/-- The checks of `CreateArea` on its arguments pass. -/
def accepted (size : Nat) (cached commits : Bool) : Prop :=
  PAGE_SIZE ∣ size ∧ 0 < size ∧ (cached = true → commits = true)

theorem createArea_spec {wired : Bool}
    (h : createArea s area size wired cached commits va flags = some s') :
    s' = s ∨ accepted size cached commits ∧ ∃ base, insertArea s area base size cached = some s' ∧
      ((va = INVALID_PAGE ∧ findFreeRange s.root size flags = some base ∧ base ≠ INVALID_PAGE) ∨
        (va ≠ INVALID_PAGE ∧ base = va ∧ PAGE_SIZE ∣ va ∧ isRangeFree va (u32 (va + size - 1)) s.root = true)) := by
  unfold createArea at h
  split at h
  · cases h; exact .inl rfl
  · rename_i hsize
    rw [not_or, not_not] at hsize
    split at h
    · cases h; exact .inl rfl
    · rename_i hcommit
      obtain ⟨base, hbase, h⟩ := bind_eq_some_iff.1 h
      split at h
      · cases h; exact .inl rfl
      · rename_i hvalid
        split at h
        · cases h
        · refine .inr ⟨⟨Nat.dvd_of_mod_eq_zero hsize.1, by omega, ?_⟩, base, h, ?_⟩
          · intro hc
            by_contra hno
            exact hcommit ⟨hc, by simpa using hno⟩
          · unfold chooseBase at hbase
            split at hbase
            · rename_i hva
              exact .inl ⟨hva, hbase, hvalid⟩
            · rename_i hva
              split at hbase
              · cases hbase
                exact absurd rfl hvalid
              · rename_i hok
                cases hbase
                rw [not_or, not_not, not_not] at hok
                exact .inr ⟨hva, rfl, Nat.dvd_of_mod_eq_zero hok.1, hok.2⟩

theorem mapPhysicalMemory_spec (h : mapPhysicalMemory s area size = some s') :
    s' = s ∨ ∃ base, insertArea s area base size false = some s' ∧
      findFreeRange s.root size 0 = some base ∧ base ≠ INVALID_PAGE := by
  obtain ⟨base, hbase, h⟩ := bind_eq_some_iff.1 h
  split at h
  · cases h; exact .inl rfl
  · rename_i hvalid
    exact .inr ⟨base, h, hbase, hvalid⟩

/-- `ResizeArea` reaches `AVLTree::Resize`. -/
def resizes (s : State) (a : AVLNode) (newSize : Nat) (commits : Bool) : Prop :=
  newSize ≠ 0 ∧ (getSize a < newSize → commits = true ∧ canGrow s a newSize = true)

theorem resizeArea_spec
    (h : resizeArea s area newSize commits = some s') :
    s' = s ∨ s' = resized s area newSize ∧ ∃ a, nodeAt s.root area = some a ∧ resizes s a newSize commits := by
  unfold resizeArea at h
  split at h
  · rename_i ar a hlive hnode
    split at h
    · cases h; exact .inl rfl
    · rename_i h0
      split at h
      · split at h
        · cases h
        · split at h
          · cases h; exact .inl rfl
          · rename_i hc
            split at h
            · cases h; exact .inl rfl
            · rename_i hg
              cases h
              exact .inr ⟨rfl, a, hnode, h0, fun _ => ⟨by simpa using hc, by simpa using hg⟩⟩
      · rename_i hle
        have hno : getSize a < newSize → commits = true ∧ canGrow s a newSize = true := fun hlt => absurd hlt hle
        split at h
        · split at h
          · cases h
          · cases h
            exact .inr ⟨rfl, a, hnode, h0, hno⟩
        · cases h
          exact .inr ⟨rfl, a, hnode, h0, hno⟩
  · cases h

/-! ## The constructor -/

def constructed : State := ⟨.node ⟨nullArea, 0, kUserBase - 1, 0⟩ .nil .nil, []⟩

theorem construct_eq (h : construct = some s) : s = constructed := by
  have hc : construct = some constructed := by rfl
  rw [hc] at h
  cases h
  rfl

theorem ranges_constructed (r : Range) : r ∈ ranges constructed.root ↔ r = ⟨nullArea, 0, kUserBase - 1⟩ := by
  simp [constructed, AVLNode.range]

theorem treeInv_constructed : TreeInv constructed.root := by
  refine ⟨List.pairwise_singleton _ _, fun r hr => ?_, List.nodup_singleton _⟩
  rw [(ranges_constructed r).1 hr]
  decide

end AddressSpace
