import SkyOS.Vm.AreaInvariant
import SkyOS.Vm.Balance
import SkyOS.Vm.Iteration

/-!
# What `FindFreeRange` overlooks (`AddressSpace.cpp:357`)

Both loops look at the gap in front of each area, on the side the search comes from, and stop at the last area: the gap
behind it is not looked at. So a search from the bottom does not find the range above the highest area, and one from the
top not the range below the lowest; in an empty address space neither finds anything.
-/

namespace AddressSpace

open AVLTree Machine List

/-- `[base, base + size)` does not wrap, and meets no range. -/
structure Free (rs : List Range) (base size : Nat) : Prop where
  fits : base + size ≤ 2 ^ 32
  apart : ∀ r ∈ rs, base + size ≤ r.low ∨ r.high < base

/-- A free range of the searched space `[0, kAddressSpaceTop]`. -/
def Gap (rs : List Range) (base size : Nat) : Prop := Free rs base size ∧ base + size ≤ kAddressSpaceTop + 1

/-- A base that is returned is that of a free range, and `INVALID_PAGE` is returned only if there is no gap. -/
structure SearchRight (rs : List Range) (size base : Nat) : Prop where
  found : base ≠ INVALID_PAGE → Free rs base size
  invalid : base = INVALID_PAGE → ∀ b, ¬ Gap rs b size

def AreaAbove (rs : List Range) (size : Nat) : Prop :=
  (∃ b, Gap rs b size) → ∃ b, Free rs b size ∧ ∃ r ∈ rs, b + size ≤ r.low

def AreaBelow (rs : List Range) (size : Nat) : Prop :=
  (∃ b, Gap rs b size) → ∃ b, Gap rs b size ∧ ∃ r ∈ rs, r.high < b

/-- An area ends above the searched space, and the first difference, which wraps, is large enough. -/
def Wraps (rs : List Range) (size : Nat) : Prop :=
  (∃ r ∈ rs, kAddressSpaceTop < r.high) ∧ ∀ r ∈ rs, r.high + size ≤ kAddressSpaceTop + 2 ^ 32

def SearchSuits (rs : List Range) (size flags : Nat) : Prop :=
  if flags &&& SEARCH_FROM_BOTTOM ≠ 0 then AreaAbove rs size
  else (Wraps rs size → size ≤ kAddressSpaceTop + 1 ∧ Gap rs (kAddressSpaceTop + 1 - size) size) ∧
    (¬ Wraps rs size → AreaBelow rs size)

variable {rs : List Range} {r : Range} {size low high base : Nat}

theorem mem_bounds_cons (h : ∀ x ∈ r :: rs, x.low ≤ x.high ∧ x.high < 2 ^ 32) :
    (r.low ≤ r.high ∧ r.high < 2 ^ 32) ∧ ∀ x ∈ rs, x.low ≤ x.high ∧ x.high < 2 ^ 32 :=
  ⟨h r (.head _), fun x hx => h x (.tail _ hx)⟩

/-! ## From the bottom -/

/-- The outcomes of a scan from `low`: a free range below some area, or none is below any. -/
inductive BottomScan (rs : List Range) (size low : Nat) (base : Nat) : Prop where
  | found (above : low ≤ base) (apart : ∀ r ∈ rs, base + size ≤ r.low ∨ r.high < base)
    (area : ∃ r ∈ rs, base + size ≤ r.low)
  | invalid (none : base = INVALID_PAGE)
      (highest : ∀ b, low ≤ b → (∀ r ∈ rs, b + size ≤ r.low ∨ r.high < b) → ∀ r ∈ rs, r.high < b)

theorem bottomScan (ho : Ordered rs) (hp : ∀ r ∈ rs, r.low ≤ r.high ∧ r.high < 2 ^ 32) (hlow : ∀ r ∈ rs, low ≤ r.low) :
    BottomScan rs size low (fromBottom size low rs) := by
  induction rs generalizing low with
  | nil => exact .invalid rfl fun b _ _ r hr => by cases hr
  | cons r rs ih =>
    obtain ⟨hr, ho⟩ := ordered_cons.1 ho
    obtain ⟨⟨hrp, hrb⟩, hp⟩ := mem_bounds_cons hp
    have hrl := hlow r (.head _)
    rw [fromBottom, sub32_of_le hrl (by omega)]
    split
    · rename_i hgap
      refine .found le_rfl (fun x hx => .inl ?_) ⟨r, .head _, by omega⟩
      rcases mem_cons.1 hx with rfl | hx
      · omega
      · have := hr x hx
        omega
    · rename_i hsmall
      -- a free range from `low` on is not in front of `r`
      have hbehind : ∀ b, low ≤ b → (∀ x ∈ r :: rs, b + size ≤ x.low ∨ x.high < b) → r.high < b := fun b hb hfree =>
        (hfree r (.head _)).resolve_left (by omega)
      cases hrs : rs with
      | nil =>
        refine .invalid rfl fun b hb hfree x hx => ?_
        obtain rfl := mem_singleton.1 hx
        rw [hrs] at hbehind
        exact hbehind b hb hfree
      | cons q qs =>
        have hnext : u32 (r.high + 1) = r.high + 1 := by
          have hq := hr q (hrs ▸ .head _)
          have hqb := hp q (hrs ▸ .head _)
          exact u32_of_lt (by omega)
        rw [← hrs, hnext]
        rcases (ih ho hp fun x hx => hr x hx : BottomScan rs size (r.high + 1) _) with ⟨habove, hapart, x, hx,
          harea⟩ | ⟨hnone, hhighest⟩
        · refine .found (by omega) (fun y hy => ?_) ⟨x, .tail _ hx, harea⟩
          rcases mem_cons.1 hy with rfl | hy
          · exact .inr habove
          · exact hapart y hy
        · refine .invalid hnone fun b hb hfree x hx => ?_
          have hrb' := hbehind b hb hfree
          rcases mem_cons.1 hx with rfl | hx
          · exact hrb'
          · exact hhighest b hrb' (fun y hy => hfree y (.tail _ hy)) x hx

theorem not_behind (hp : ∀ r ∈ rs, r.low ≤ r.high ∧ r.high < 2 ^ 32) {b : Nat} (h : ∀ r ∈ rs, r.high < b)
    (hr : r ∈ rs) : ¬ b + size ≤ r.low := by
  have hlt := h r hr
  have hle := (hp r hr).1
  omega

theorem fromBottom_ne (hs : PAGE_SIZE ∣ size) (hp : ∀ r ∈ rs, r.low ≤ r.high ∧ r.high < 2 ^ 32)
    (h : ∃ r ∈ rs, fromBottom size 0 rs + size ≤ r.low) : fromBottom size 0 rs ≠ INVALID_PAGE := by
  obtain ⟨r, hr, harea⟩ := h
  intro hbase
  have hb := hp r hr
  rw [hbase] at harea
  have hzero : size = 0 := by
    obtain ⟨n, rfl⟩ := hs
    unfold INVALID_PAGE PAGE_SIZE at *
    omega
  cases rs with
  | nil => cases hr
  | cons q qs =>
    rw [hzero, fromBottom, if_pos (Nat.zero_le _)] at hbase
    cases hbase

theorem bottom_right_iff (hs : PAGE_SIZE ∣ size) (ho : Ordered rs) (hp : ∀ r ∈ rs, r.low ≤ r.high ∧ r.high < 2 ^ 32) :
    SearchRight rs size (fromBottom size 0 rs) ↔ AreaAbove rs size := by
  have hne := fromBottom_ne hs hp
  rcases (bottomScan ho hp fun r _ => Nat.zero_le _ : BottomScan rs size 0 _) with ⟨-, hapart, harea⟩ | ⟨hnone, hhighest⟩
  · obtain ⟨r, hr, hle⟩ := harea
    have hb := hp r hr
    have hfree : Free rs (fromBottom size 0 rs) size := ⟨by omega, hapart⟩
    exact iff_of_true ⟨fun _ => hfree, fun hbase => absurd hbase (hne ⟨r, hr, hle⟩)⟩ fun _ => ⟨_, hfree, r, hr, hle⟩
  · have hnoarea : ¬ ∃ b, Free rs b size ∧ ∃ r ∈ rs, b + size ≤ r.low := by
      rintro ⟨b, hfree, r, hr, hle⟩
      exact not_behind hp (hhighest b (Nat.zero_le _) hfree.apart) hr hle
    constructor
    · rintro h ⟨b, hgap⟩
      exact absurd hgap (h.invalid hnone b)
    · intro h
      exact ⟨fun hbase => absurd hnone hbase, fun _ b hgap => hnoarea (h ⟨b, hgap⟩)⟩

/-! ## From the top -/

/-- The outcomes of a scan from `high`: a free range above some area, or none is above any. -/
inductive TopScan (rs : List Range) (size high : Nat) (base : Nat) : Prop where
  | found (below : base + size ≤ high + 1) (apart : ∀ r ∈ rs, base + size ≤ r.low ∨ r.high < base)
    (area : ∃ r ∈ rs, r.high < base)
  | invalid (none : base = INVALID_PAGE)
      (lowest : ∀ b, b + size ≤ high + 1 → (∀ r ∈ rs, b + size ≤ r.low ∨ r.high < b) → ∀ r ∈ rs, b + size ≤ r.low)

theorem topScan (ho : Descending rs) (hp : ∀ r ∈ rs, r.low ≤ r.high ∧ r.high < 2 ^ 32) (hb : high + 1 < 2 ^ 32)
    (hhigh : ∀ r ∈ rs, r.high ≤ high) : TopScan rs size high (fromTop size high rs) := by
  induction rs generalizing high with
  | nil => exact .invalid rfl fun b _ _ r hr => by cases hr
  | cons r rs ih =>
    obtain ⟨hr, ho⟩ := pairwise_cons.1 ho
    obtain ⟨⟨hrp, hrb⟩, hp⟩ := mem_bounds_cons hp
    have hrh := hhigh r (.head _)
    rw [fromTop, sub32_of_le hrh (by omega)]
    split
    · rename_i hgap
      rw [sub32_of_le (by omega) hb]
      refine .found (by omega) (fun x hx => .inr ?_) ⟨r, .head _, by omega⟩
      rcases mem_cons.1 hx with rfl | hx
      · omega
      · have := hr x hx
        omega
    · rename_i hsmall
      have hfront : ∀ b, b + size ≤ high + 1 → (∀ x ∈ r :: rs, b + size ≤ x.low ∨ x.high < b) → b + size ≤ r.low :=
          fun b hb hfree =>
        (hfree r (.head _)).resolve_right (by omega)
      cases hrs : rs with
      | nil =>
        refine .invalid rfl fun b hb hfree x hx => ?_
        obtain rfl := mem_singleton.1 hx
        rw [hrs] at hfront
        exact hfront b hb hfree
      | cons q qs =>
        have hq := hr q (hrs ▸ .head _)
        have hnext : sub32 r.low 1 = r.low - 1 := sub32_of_le (by omega) (by omega)
        rw [← hrs, hnext]
        have hbelow : ∀ x ∈ rs, x.high ≤ r.low - 1 := fun x hx => by
          have := hr x hx
          omega
        rcases ih ho hp (by omega) hbelow with ⟨hend, hapart, x, hx, harea⟩ | ⟨hnone, hlowest⟩
        · refine .found (by omega) (fun y hy => ?_) ⟨x, .tail _ hx, harea⟩
          rcases mem_cons.1 hy with rfl | hy
          · exact .inl (by omega)
          · exact hapart y hy
        · refine .invalid hnone fun b hb hfree x hx => ?_
          have hrf := hfront b hb hfree
          rcases mem_cons.1 hx with rfl | hx
          · exact hrf
          · exact hlowest b (by omega) (fun y hy => hfree y (.tail _ hy)) x hx

/-- All areas end in the searched space. -/
theorem top_right_iff (ho : Descending rs) (hp : ∀ r ∈ rs, r.low ≤ r.high ∧ r.high < 2 ^ 32)
    (hin : ∀ r ∈ rs, r.high ≤ kAddressSpaceTop) :
    SearchRight rs size (fromTop size kAddressSpaceTop rs) ↔ AreaBelow rs size := by
  rcases (topScan ho hp (by decide) hin : TopScan rs size kAddressSpaceTop _) with ⟨hend, hapart, harea⟩ | ⟨hnone, hlowest⟩
  · have hne : fromTop size kAddressSpaceTop rs ≠ INVALID_PAGE := by
      intro hbase
      rw [hbase] at hend
      unfold kAddressSpaceTop INVALID_PAGE at hend
      omega
    have hgap : Gap rs (fromTop size kAddressSpaceTop rs) size := by
      refine ⟨⟨?_, hapart⟩, hend⟩
      unfold kAddressSpaceTop at hend ⊢
      omega
    exact iff_of_true ⟨fun _ => hgap.1, fun hbase => absurd hbase hne⟩ fun _ => ⟨_, hgap, harea⟩
  · have hnoarea : ¬ ∃ b, Gap rs b size ∧ ∃ r ∈ rs, r.high < b := by
      rintro ⟨b, hgap, r, hr, hlt⟩
      have hle := hlowest b hgap.2 hgap.1.apart r hr
      have hb := (hp r hr).1
      omega
    constructor
    · rintro h ⟨b, hgap⟩
      exact absurd hgap (h.invalid hnone b)
    · intro h
      exact ⟨fun hbase => absurd hnone hbase, fun _ b hgap => hnoarea (h ⟨b, hgap⟩)⟩

theorem sub32_top_wraps (hr : kAddressSpaceTop < r.high) (hb : r.high < 2 ^ 32) :
    sub32 kAddressSpaceTop r.high = kAddressSpaceTop + 2 ^ 32 - r.high := by
  unfold sub32
  rw [u32_of_lt hb, u32_of_lt (by omega)]
  omega

theorem wrapped_right_iff (hs : PAGE_SIZE ∣ size) (hlt : size < 2 ^ 32) (ho : Descending (r :: rs))
    (hp : ∀ x ∈ r :: rs, x.low ≤ x.high ∧ x.high < 2 ^ 32) (hr : kAddressSpaceTop < r.high) :
    SearchRight (r :: rs) size (fromTop size kAddressSpaceTop (r :: rs)) ↔
      (r.high + size ≤ kAddressSpaceTop + 2 ^ 32 →
        size ≤ kAddressSpaceTop + 1 ∧ Gap (r :: rs) (kAddressSpaceTop + 1 - size) size) := by
  have hrb := hp r (.head _)
  rw [fromTop, sub32_top_wraps hr hrb.2]
  split
  · rename_i hgap
    rw [forall_prop_of_true (by omega)]
    by_cases hsize : size ≤ kAddressSpaceTop + 1
    · rw [sub32_of_le hsize (by decide)]
      have hne : kAddressSpaceTop + 1 - size ≠ INVALID_PAGE := by
        unfold kAddressSpaceTop INVALID_PAGE
        omega
      constructor
      · exact fun h => ⟨hsize, h.found hne, by omega⟩
      · exact fun h => ⟨fun _ => h.2.1, fun hbase => absurd hbase hne⟩
    · -- the base wraps too
      refine iff_of_false (fun h => ?_) fun h => hsize h.1
      have hbase : sub32 (kAddressSpaceTop + 1) size = kAddressSpaceTop + 1 + 2 ^ 32 - size := by
        unfold sub32
        rw [u32_of_lt hlt, u32_of_lt (by omega)]
        omega
      have hne : kAddressSpaceTop + 1 + 2 ^ 32 - size ≠ INVALID_PAGE := by
        obtain ⟨n, rfl⟩ := hs
        unfold kAddressSpaceTop INVALID_PAGE PAGE_SIZE at *
        omega
      rw [hbase] at h
      have hfits := (h.found hne).fits
      omega
  · rename_i hgap
    refine iff_of_true ?_ fun hle => absurd hle (by omega)
    have hlarge : ∀ b, ¬ Gap (r :: rs) b size := fun b hb => by
      have := hb.2
      omega
    refine ⟨fun hne => ?_, fun _ => hlarge⟩
    obtain ⟨hrs, ho⟩ := pairwise_cons.1 ho
    cases hcons : rs with
    | nil =>
      rw [hcons] at hne
      exact absurd rfl hne
    | cons q qs =>
      have hq := hrs q (hcons ▸ .head _)
      have hnext : sub32 r.low 1 = r.low - 1 := sub32_of_le (by omega) (by omega)
      rw [← hcons, hnext]
      rw [hnext] at hne
      have hbelow : ∀ x ∈ q :: qs, x.high ≤ r.low - 1 := fun x hx => by
        have := hrs x (hcons ▸ hx)
        omega
      rw [← hcons] at hbelow
      rcases (topScan ho (mem_bounds_cons hp).2 (by omega) hbelow : TopScan rs size (r.low - 1) _) with
        ⟨hend, hapart, -⟩ | ⟨hnone, -⟩
      · refine ⟨by omega, fun x hx => ?_⟩
        rcases mem_cons.1 hx with rfl | hx
        · exact .inl (by omega)
        · exact hapart x hx
      · exact absurd hnone hne

theorem wraps_iff_head (ho : Descending (r :: rs)) (hp : ∀ x ∈ r :: rs, x.low ≤ x.high ∧ x.high < 2 ^ 32) :
    Wraps (r :: rs) size ↔ kAddressSpaceTop < r.high ∧ r.high + size ≤ kAddressSpaceTop + 2 ^ 32 := by
  obtain ⟨hrs, -⟩ := pairwise_cons.1 ho
  have hmax : ∀ x ∈ r :: rs, x.high ≤ r.high := by
    intro x hx
    rcases mem_cons.1 hx with rfl | hx
    · exact le_rfl
    · have := hrs x hx
      have := hp r (.head _)
      omega
  constructor
  · rintro ⟨⟨x, hx, htop⟩, hall⟩
    have := hmax x hx
    exact ⟨by omega, hall r (.head _)⟩
  · rintro ⟨htop, hle⟩
    refine ⟨⟨r, .head _, htop⟩, fun x hx => ?_⟩
    have := hmax x hx
    omega

theorem fromTop_right_iff (hs : PAGE_SIZE ∣ size) (hlt : size < 2 ^ 32) (ho : Descending rs)
    (hp : ∀ r ∈ rs, r.low ≤ r.high ∧ r.high < 2 ^ 32) :
    SearchRight rs size (fromTop size kAddressSpaceTop rs) ↔
      (Wraps rs size → size ≤ kAddressSpaceTop + 1 ∧ Gap rs (kAddressSpaceTop + 1 - size) size) ∧
        (¬ Wraps rs size → AreaBelow rs size) := by
  by_cases htop : ∃ r ∈ rs, kAddressSpaceTop < r.high
  · cases rs with
    | nil =>
      obtain ⟨r, hr, -⟩ := htop
      cases hr
    | cons r rs =>
      have hr : kAddressSpaceTop < r.high := by
        obtain ⟨x, hx, hxtop⟩ := htop
        rcases mem_cons.1 hx with rfl | hx
        · exact hxtop
        · have := (pairwise_cons.1 ho).1 x hx
          have := hp r (.head _)
          omega
      rw [wrapped_right_iff hs hlt ho hp hr, wraps_iff_head ho hp]
      constructor
      · refine fun h => ⟨fun hw => h hw.2, fun hw => ?_⟩
        -- the size is beyond the searched space
        rintro ⟨b, hgap⟩
        have hend := hgap.2
        have hb := hp r (.head _)
        exact absurd ⟨hr, by omega⟩ hw
      · exact fun h hle => h.1 ⟨hr, hle⟩
  · have hin : ∀ r ∈ rs, r.high ≤ kAddressSpaceTop := fun r hr => by
      by_contra hgt
      exact htop ⟨r, hr, by omega⟩
    have hnot : ¬ Wraps rs size := fun hw => htop hw.1
    rw [top_right_iff ho hp hin]
    exact ⟨fun h => ⟨fun hw => absurd hw hnot, fun _ => h⟩, fun h => h.2 hnot⟩

/-! ## The search -/

theorem Free.perm {rs' : List Range} (h : ∀ r, r ∈ rs ↔ r ∈ rs') {b : Nat} : Free rs b size ↔ Free rs' b size :=
  ⟨fun hf => ⟨hf.fits, fun r hr => hf.apart r ((h r).2 hr)⟩, fun hf => ⟨hf.fits, fun r hr => hf.apart r ((h r).1 hr)⟩⟩

/-- **The search is right** if and only if, from the bottom, an area lies above a free range where there is a gap at
all; from the top, where the first difference wraps, the last bytes of the space are free, and otherwise an area lies
below a gap where there is one. -/
theorem findFreeRange_right_iff {root : Tree} (hT : TreeInv root) (hb : ∀ r ∈ ranges root, r.high < 2 ^ 32)
    {size flags base : Nat} (hs : PAGE_SIZE ∣ size) (hlt : size < 2 ^ 32)
    (hfind : findFreeRange root size flags = some base) :
    SearchRight (ranges root) size base ↔ SearchSuits (ranges root) size flags := by
  have hp : ∀ r ∈ ranges root, r.low ≤ r.high ∧ r.high < 2 ^ 32 := fun r hr => ⟨(hT.proper r hr).1, hb r hr⟩
  rw [findFreeRange_eq hfind]
  unfold SearchSuits
  split
  · exact bottom_right_iff hs hT.ordered hp
  · have hmem : ∀ r, r ∈ (ranges root).reverse ↔ r ∈ ranges root := fun r => List.mem_reverse
    have hfree : ∀ b, Free (ranges root).reverse b size ↔ Free (ranges root) b size := fun b => Free.perm hmem
    have hgap : ∀ b, Gap (ranges root).reverse b size ↔ Gap (ranges root) b size := fun b => and_congr_left fun _ => hfree b
    have hwraps : Wraps (ranges root).reverse size ↔ Wraps (ranges root) size := by simp only [Wraps, List.mem_reverse]
    have hbelow : AreaBelow (ranges root).reverse size ↔ AreaBelow (ranges root) size := by
      simp only [AreaBelow, hgap, List.mem_reverse]
    have hright : ∀ base, SearchRight (ranges root).reverse size base ↔ SearchRight (ranges root) size base := fun base =>
      ⟨fun h => ⟨fun hne => (hfree base).1 (h.found hne), fun he b hg => h.invalid he b ((hgap b).2 hg)⟩,
        fun h => ⟨fun hne => (hfree base).2 (h.found hne), fun he b hg => h.invalid he b ((hgap b).1 hg)⟩⟩
    have htop := fromTop_right_iff hs hlt (descending_reverse hT.ordered) (fun r hr => hp r ((hmem r).1 hr))
    rwa [hright, hwraps, hgap, hbelow] at htop

def single (low high : Nat) : Tree := .node ⟨10, low, high, 0⟩ .nil .nil

theorem treeInv_single (h : low ≤ high) (hpos : 0 < high) : TreeInv (single low high) := by
  refine ⟨pairwise_singleton _ _, fun r hr => ?_, nodup_singleton _⟩
  obtain rfl := mem_singleton.1 hr
  exact ⟨h, hpos⟩

theorem findFreeRange_right_iff_constructed :
    SearchRight (ranges constructed.root) 0x1000 0xdffff000 ↔ SearchSuits (ranges constructed.root) 0x1000 0 :=
  findFreeRange_right_iff treeInv_constructed (by decide) ⟨1, rfl⟩ (by decide) rfl

/-- In the space as it is constructed, a search from the bottom finds nothing; and where an area goes beyond
`kAddressSpaceTop`, a search from the top finds a part of it. -/
theorem search_overlooks : (¬ ∀ size base, PAGE_SIZE ∣ size → size < 2 ^ 32 →
      findFreeRange constructed.root size SEARCH_FROM_BOTTOM = some base →
      SearchRight (ranges constructed.root) size base) ∧
    ¬ ∀ root size base, TreeInv root → (∀ r ∈ ranges root, r.high < 2 ^ 32) → PAGE_SIZE ∣ size → size < 2 ^ 32 →
      findFreeRange root size 0 = some base → SearchRight (ranges root) size base := by
  refine ⟨fun h => ?_, fun h => ?_⟩
  · refine (h 0x1000 INVALID_PAGE ⟨1, rfl⟩ (by decide) rfl).invalid rfl kUserBase ⟨⟨by decide, fun r hr => ?_⟩, by decide⟩
    obtain rfl := (ranges_constructed r).1 hr
    exact Or.inr (by decide)
  · have hright := h (single 0xd0000000 0xf0000fff) 0x1000 0xdffff000 (treeInv_single (by decide) (by decide)) (by decide)
      ⟨1, rfl⟩ (by decide) rfl
    have hapart := (hright.found (by decide)).apart ⟨10, 0xd0000000, 0xf0000fff⟩ (by decide)
    revert hapart
    decide

/-- **The stack of the iterator suffices**: in every run of even removals, while there are fewer than 2^21 areas, a search
for a free range returns, and an iteration visits every area in the order of the addresses. -/
theorem search_returns {s : AVLTree.State} (h : AVLTree.system.ReachVia (fun s c => c.even s) s)
    (hn : s.root.numNodes < 2 ^ 21) (size flags : Nat) (forward : Bool) :
    (findFreeRange s.root size flags).isSome ∧ IteratesRight s.root forward := by
  obtain ⟨hI, hG⟩ := good_reachVia h
  have hheight := height_of_balanced hG hn
  have hmax : kMaxTreeHeight = 32 := rfl
  exact ⟨findFreeRange_isSome (by omega) size flags, iteratesRight_of_height hI.tree (by omega) forward⟩

theorem search_returns_run : ∃ s, AVLTree.system.exec ⟨.nil, []⟩ [.add 2 2 2, .add 1 1 1, .add 3 3 3, .remove 1] = some s ∧
    (findFreeRange s.root 0x1000 0).isSome ∧ IteratesRight s.root true := by
  have heven : EvenAt 1 (.node ⟨2, 2, 2, 1⟩ (.node ⟨1, 1, 1, 0⟩ .nil .nil) (.node ⟨3, 3, 3, 0⟩ .nil .nil)) := by
    simp [EvenAt, RemovesEvenly, BinaryTree.height]
  exact ⟨_, rfl, search_returns (StepSystem.reachVia_exec [.add 2 2 2, .add 1 1 1, .add 3 3 3, .remove 1] (.init rfl)
    ⟨trivial, trivial, trivial, heven, trivial⟩ rfl) (by decide) 0x1000 0 true⟩

end AddressSpace
