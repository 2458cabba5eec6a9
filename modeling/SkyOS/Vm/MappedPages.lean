import Mathlib.Data.Finset.Card
import Mathlib.Order.Interval.Finset.Nat
import SkyOS.Vm.Isolation

/-!
# `Unmap` page by page (`PhysicalMap.cpp:173`), and the count of mapped pages

A page is the number of an address without its offset: its directory index and its table index are the two halves of it. The
loop of `Unmap` takes the pages in order; where a table is absent it goes on at the next one, or stops if the range ends
before that. Two entries of a directory never lead to one table (`TablesApart`), which every call keeps.
-/

namespace PhysicalMaps

open List

def TablesApart (s : State) : Prop :=
  ∀ m ∈ s.fPhysicalMaps, ∀ i < 1024, ∀ j < 1024, isPresent (s.memory m.fPageDirectory i) = true →
    isPresent (s.memory m.fPageDirectory j) = true → i ≠ j →
      pageOf (s.memory m.fPageDirectory i) ≠ pageOf (s.memory m.fPageDirectory j)

/-- The page table of page `v`. -/
def tableOf (memory : Memory) (dir v : Nat) : Nat := pageOf (memory dir (v / 1024))

/-- Page `v` has a table, and its entry there is present. -/
def Present (memory : Memory) (dir v : Nat) : Prop :=
  isPresent (memory dir (v / 1024)) = true ∧ isPresent (memory (tableOf memory dir v) (v % 1024)) = true
  deriving Decidable

/-- The present pages from `a` to `b`. -/
def presentPages (memory : Memory) (dir a b : Nat) : Finset Nat := {v ∈ Finset.Ico a b | Present memory dir v}

/-- The entries of the pages from `a` to `b` that were present are cleared, `n` of them, and nothing else is written. -/
structure Cleared (memory memory' : Memory) (dir a b n : Nat) : Prop where
  entries : ∀ v ∈ presentPages memory dir a b, memory' (tableOf memory dir v) (v % 1024) = 0
  others : ∀ p i, (∀ v ∈ presentPages memory dir a b, ¬ (p = tableOf memory dir v ∧ i = v % 1024)) →
    memory' p i = memory p i
  count : n = (presentPages memory dir a b).card

structure Walkable (memory : Memory) (dir : Nat) : Prop where
  self : ∀ i < 1024, isPresent (memory dir i) = true → pageOf (memory dir i) ≠ dir
  apart : ∀ i < 1024, ∀ j < 1024, isPresent (memory dir i) = true → isPresent (memory dir j) = true → i ≠ j →
    pageOf (memory dir i) ≠ pageOf (memory dir j)

variable {memory memory' memory'' : Memory} {dir a b c n k v d : Nat} {s s' : State} {m : PhysicalMap}

theorem mem_presentPages : v ∈ presentPages memory dir a b ↔ (a ≤ v ∧ v < b) ∧ Present memory dir v := by
  rw [presentPages, Finset.mem_filter, Finset.mem_Ico]

theorem presentPages_empty (h : b ≤ a) : presentPages memory dir a b = ∅ := by
  rw [presentPages, Finset.Ico_eq_empty (by omega), Finset.filter_empty]

theorem walkable (h : Sound s) (ha : TablesApart s) (hm : m ∈ s.fPhysicalMaps) : Walkable s.memory m.fPageDirectory :=
  ⟨fun i hi hpres => (h.tables m hm i hi hpres).2 m hm, ha m hm⟩

theorem Walkable.entry_ne (h : Walkable memory dir) {w : Nat} (hv : v < 1024 * 1024) (hw : w < 1024 * 1024)
    (hpv : isPresent (memory dir (v / 1024)) = true) (hpw : isPresent (memory dir (w / 1024)) = true) (hne : v ≠ w) :
    ¬ (tableOf memory dir v = tableOf memory dir w ∧ v % 1024 = w % 1024) := by
  rintro ⟨htable, hindex⟩
  by_cases hdir : v / 1024 = w / 1024
  · omega
  · exact h.apart _ (by omega) _ (by omega) hpv hpw hdir htable

/-! ## One table -/

theorem clearEntries_spec (memory : Memory) (pgtbl : Nat) {indexes : List Nat} (hn : indexes.Nodup) :
    (∀ p i, (clearEntries memory pgtbl indexes).1 p i =
      if p = pgtbl ∧ i ∈ indexes ∧ isPresent (memory pgtbl i) then 0 else memory p i) ∧
      (clearEntries memory pgtbl indexes).2 = (indexes.filter fun i => isPresent (memory pgtbl i)).length := by
  induction indexes generalizing memory with
  | nil => exact ⟨fun p i => (if_neg fun h => not_mem_nil h.2.1).symm, rfl⟩
  | cons j indexes ih =>
    obtain ⟨hj, hn⟩ := nodup_cons.1 hn
    rw [clearEntries]
    split
    · rename_i hpres
      obtain ⟨hwords, hcount⟩ := ih (write memory pgtbl j 0) hn
      have hsame : ∀ i ∈ indexes, write memory pgtbl j 0 pgtbl i = memory pgtbl i := fun i hi => by
        have hij : i ≠ j := fun he => hj (he ▸ hi)
        simp [write, hij]
      refine ⟨fun p i => ?_, ?_⟩
      · dsimp only
        rw [hwords p i]
        by_cases hpj : p = pgtbl ∧ i = j
        · obtain ⟨rfl, rfl⟩ := hpj
          rw [if_neg fun h => hj h.2.1, if_pos ⟨rfl, mem_cons_self .., hpres⟩]
          simp [write]
        · have hword : write memory pgtbl j 0 p i = memory p i := by simp only [write, if_neg hpj]
          rw [hword]
          refine if_congr ?_ rfl rfl
          constructor
          · rintro ⟨hp, hi, hpi⟩
            rw [hsame i hi] at hpi
            exact ⟨hp, .tail _ hi, hpi⟩
          · rintro ⟨hp, hi, hpi⟩
            have hi : i ∈ indexes := (mem_cons.1 hi).resolve_left fun he => hpj ⟨hp, he⟩
            exact ⟨hp, hi, by rwa [hsame i hi]⟩
      · dsimp only
        rw [hcount, filter_cons, if_pos hpres, length_cons]
        exact congrArg (· + 1) (congrArg List.length (filter_congr fun i hi => by rw [hsame i hi]))
    · rename_i habsent
      obtain ⟨hwords, hcount⟩ := ih memory hn
      refine ⟨fun p i => ?_, ?_⟩
      · rw [hwords p i]
        refine if_congr (and_congr_right fun _ => ?_) rfl rfl
        rw [mem_cons]
        constructor
        · exact fun h => ⟨.inr h.1, h.2⟩
        · rintro ⟨rfl | hi, hpi⟩
          · exact absurd hpi habsent
          · exact ⟨hi, hpi⟩
      · rw [hcount, filter_cons, if_neg habsent]

/-- The inner loop, on the table of directory index `d` from table index `a` on. -/
theorem clearEntries_cleared (hpres : isPresent (memory dir d) = true) (hk : a + k ≤ 1024) :
    Cleared memory (clearEntries memory (pageOf (memory dir d)) ((List.range k).map (a + ·))).1 dir (d * 1024 + a)
    (d * 1024 + a + k)
      (clearEntries memory (pageOf (memory dir d)) ((List.range k).map (a + ·))).2 := by
  have hnodup : ((List.range k).map (a + ·)).Nodup := nodup_range.map fun x y hxy => Nat.add_left_cancel hxy
  obtain ⟨hwords, hcount⟩ := clearEntries_spec memory (pageOf (memory dir d)) hnodup
  have hmem : ∀ i, i ∈ (List.range k).map (a + ·) ↔ a ≤ i ∧ i < a + k := fun i => by
    rw [mem_map]
    constructor
    · rintro ⟨j, hj, rfl⟩
      have := mem_range.1 hj
      omega
    · exact fun h => ⟨i - a, mem_range.2 (by omega), by omega⟩
  have hpage : ∀ v, d * 1024 + a ≤ v → v < d * 1024 + a + k →
      v / 1024 = d ∧ (Present memory dir v ↔ isPresent (memory (pageOf (memory dir d)) (v % 1024)) = true) :=
          fun v hlo hhi => by
    have hdiv : v / 1024 = d := by omega
    refine ⟨hdiv, ?_⟩
    unfold Present tableOf
    rw [hdiv, and_iff_right hpres]
  refine ⟨fun v hv => ?_, fun p i hother => ?_, ?_⟩
  · obtain ⟨⟨hlo, hhi⟩, hpresent⟩ := mem_presentPages.1 hv
    obtain ⟨hdiv, hiff⟩ := hpage v hlo hhi
    rw [tableOf, hdiv, hwords, if_pos ⟨rfl, (hmem _).2 ⟨by omega, by omega⟩, hiff.1 hpresent⟩]
  · rw [hwords, if_neg]
    rintro ⟨rfl, hi, hpi⟩
    obtain ⟨hlo, hhi⟩ := (hmem i).1 hi
    have hmod : (d * 1024 + i) % 1024 = i := by omega
    obtain ⟨hdiv, hiff⟩ := hpage (d * 1024 + i) (by omega) (by omega)
    rw [hmod] at hiff
    refine hother (d * 1024 + i) (mem_presentPages.2 ⟨⟨by omega, by omega⟩, hiff.2 hpi⟩) ⟨?_, hmod.symm⟩
    rw [tableOf, hdiv]
  · rw [hcount, ← toFinset_card_of_nodup (hnodup.filter _)]
    refine Finset.card_bij (fun i _ => d * 1024 + i) (fun i hi => ?_) (fun i _ j _ hij =>
      Nat.add_left_cancel hij) fun v hv => ?_
    · obtain ⟨hi, hpi⟩ := mem_filter.1 (mem_toFinset.1 hi)
      obtain ⟨hlo, hhi⟩ := (hmem i).1 hi
      have hmod : (d * 1024 + i) % 1024 = i := by omega
      obtain ⟨-, hiff⟩ := hpage (d * 1024 + i) (by omega) (by omega)
      rw [hmod] at hiff
      exact mem_presentPages.2 ⟨⟨by omega, by omega⟩, hiff.2 hpi⟩
    · obtain ⟨⟨hlo, hhi⟩, hpresent⟩ := mem_presentPages.1 hv
      obtain ⟨hdiv, hiff⟩ := hpage v hlo hhi
      refine ⟨v % 1024, mem_toFinset.2 (mem_filter.2 ⟨(hmem _).2 ⟨by omega, by omega⟩, hiff.1 hpresent⟩), by omega⟩

/-! ## Range after range -/

section

variable (h : Cleared memory memory' dir a b n) (hw : Walkable memory dir) (hb : b ≤ 1024 * 1024)
include h hw hb

theorem Cleared.directory :
    memory' dir = memory dir := by
  funext i
  refine h.others dir i fun v hv => ?_
  obtain ⟨⟨-, hhi⟩, hpres, -⟩ := mem_presentPages.1 hv
  exact fun he => hw.self _ (by omega) hpres he.1.symm

theorem Cleared.entry (hv : v < 1024 * 1024) (hout : v < a ∨ b ≤ v) (hpres : isPresent (memory dir (v / 1024)) = true) :
    memory' (tableOf memory dir v) (v % 1024) = memory (tableOf memory dir v) (v % 1024) := by
  refine h.others _ _ fun w hw' => ?_
  obtain ⟨⟨hlo, hhi⟩, hpw, -⟩ := mem_presentPages.1 hw'
  exact hw.entry_ne hv (by omega) hpres hpw (by omega)

theorem Cleared.walkable :
    Walkable memory' dir := by
  have hdir := h.directory hw hb
  exact ⟨by rw [hdir]; exact hw.self, by rw [hdir]; exact hw.apart⟩

theorem Cleared.present_iff (hv : v < 1024 * 1024) : Present memory' dir v ↔ Present memory dir v ∧ (v < a ∨ b ≤ v) := by
  have hdir := h.directory hw hb
  have htable : tableOf memory' dir v = tableOf memory dir v := by rw [tableOf, hdir]; rfl
  unfold Present
  rw [htable, hdir]
  constructor
  · rintro ⟨hpres, hentry⟩
    by_cases hout : v < a ∨ b ≤ v
    · rw [h.entry hw hb hv hout hpres] at hentry
      exact ⟨⟨hpres, hentry⟩, hout⟩
    · by_cases hp : isPresent (memory (tableOf memory dir v) (v % 1024)) = true
      · -- it was present, and is cleared
        rw [h.entries v (mem_presentPages.2 ⟨⟨by omega, by omega⟩, hpres, hp⟩)] at hentry
        cases hentry
      · have hsame : memory' (tableOf memory dir v) (v % 1024) = memory (tableOf memory dir v) (v % 1024) := by
          refine h.others _ _ fun w hw' he => ?_
          obtain ⟨⟨hlo, hhi⟩, hpw⟩ := mem_presentPages.1 hw'
          by_cases hvw : v = w
          · exact hp (hvw ▸ hpw.2)
          · exact hw.entry_ne hv (by omega) hpres hpw.1 hvw he
        rw [hsame] at hentry
        exact absurd hentry hp
  · rintro ⟨⟨hpres, hentry⟩, hout⟩
    exact ⟨hpres, by rwa [h.entry hw hb hv hout hpres]⟩

end

theorem Cleared.append (h : Cleared memory memory' dir a b n) (h' : Cleared memory' memory'' dir b c k)
    (hw : Walkable memory dir) (hab : a ≤ b) (hbc : b ≤ c) (hc : c ≤ 1024 * 1024) :
    Cleared memory memory'' dir a c (n + k) := by
  have hdir := h.directory hw (by omega)
  have htable : ∀ v, tableOf memory' dir v = tableOf memory dir v := fun v => by rw [tableOf, hdir]; rfl
  have hsecond : presentPages memory' dir b c = presentPages memory dir b c := by
    ext v
    rw [mem_presentPages, mem_presentPages]
    refine and_congr_right fun hv => ?_
    rw [h.present_iff hw (by omega) (by omega)]
    exact and_iff_left (.inr hv.1)
  have hunion : presentPages memory dir a c = presentPages memory dir a b ∪ presentPages memory dir b c := by
    rw [presentPages, presentPages, presentPages, ← Finset.filter_union, Finset.Ico_union_Ico_eq_Ico hab hbc]
  have hdisjoint : Disjoint (presentPages memory dir a b) (presentPages memory dir b c) := by
    rw [Finset.disjoint_left]
    intro v hv hv'
    have := (mem_presentPages.1 hv).1
    have := (mem_presentPages.1 hv').1
    omega
  refine ⟨fun v hv => ?_, fun p i hother => ?_, ?_⟩
  · rw [hunion, Finset.mem_union] at hv
    by_cases hv' : v ∈ presentPages memory dir b c
    · rw [← htable]
      exact h'.entries v (hsecond ▸ hv')
    · have hv := hv.resolve_right hv'
      rw [← h.entries v hv]
      refine h'.others _ _ fun w hw' he => ?_
      rw [hsecond] at hw'
      rw [htable] at he
      obtain ⟨⟨-, hvb⟩, hpv⟩ := mem_presentPages.1 hv
      obtain ⟨⟨hbw, hwc⟩, hpw⟩ := mem_presentPages.1 hw'
      exact hw.entry_ne (by omega) (by omega) hpv.1 hpw.1 (by omega) he
  · rw [hunion] at hother
    rw [h'.others p i fun v hv => by
      rw [hsecond] at hv
      rw [htable]
      exact hother v (Finset.mem_union_right _ hv)]
    exact h.others p i fun v hv => hother v (Finset.mem_union_left _ hv)
  · rw [h.count, h'.count, hsecond, hunion, Finset.card_union_of_disjoint hdisjoint]

theorem cleared_absent (habsent : ¬ isPresent (memory dir d) = true) (ha : d * 1024 ≤ a) (hb : b ≤ (d + 1) * 1024) :
    Cleared memory memory dir a b 0 := by
  have hempty : presentPages memory dir a b = ∅ := by
    rw [Finset.eq_empty_iff_forall_notMem]
    intro v hv
    obtain ⟨⟨hlo, hhi⟩, hpres, -⟩ := mem_presentPages.1 hv
    have hdiv : v / 1024 = d := by omega
    rw [hdiv] at hpres
    exact habsent hpres
  refine ⟨fun v hv => ?_, fun p i _ => rfl, by rw [hempty, Finset.card_empty]⟩
  rw [hempty] at hv
  cases hv

theorem cleared_nothing (h : b ≤ a) : Cleared memory memory dir a b 0 := by
  refine ⟨fun v hv => ?_, fun p i _ => rfl, by rw [presentPages_empty h, Finset.card_empty]⟩
  rw [presentPages_empty h] at hv
  cases hv

theorem Cleared.nothing (h : Cleared memory memory' dir a b n) (hab : b ≤ a) : memory' = memory ∧ n = 0 := by
  have hempty := (presentPages_empty hab : presentPages memory dir a b = ∅)
  constructor
  · funext p i
    refine h.others p i fun v hv => ?_
    rw [hempty] at hv
    cases hv
  · rw [h.count, hempty, Finset.card_empty]

variable {ptindex count : Nat}

theorem unmapLoop_present {dirs : List Nat} (hcount : count ≠ 0) (hpres : isPresent (memory dir d) = true) :
    unmapLoop dir (d :: dirs) ptindex count memory =
      (unmapLoop dir dirs 0 (count - min count (1024 - ptindex))
        (clearEntries memory (pageOf (memory dir d)) ((List.range (min count (1024 - ptindex))).map (ptindex + ·))).1).map
        fun (memory', k) =>
          (memory', (clearEntries memory (pageOf (memory dir d))
            ((List.range (min count (1024 - ptindex))).map (ptindex + ·))).2 + k) := by
  rw [unmapLoop, if_neg hcount, if_neg (not_not.2 hpres)]

theorem next_table (hpt : ptindex < 1024) (hcount : 1024 - ptindex ≤ count) :
    (d + 1) * 1024 + 0 + (count - (1024 - ptindex)) = d * 1024 + ptindex + count := by
  omega

/-- **The outer loop**, from directory index `d` with `left` indexes to go. -/
theorem unmapLoop_spec (left : Nat) : ∀ (d ptindex count : Nat) (memory : Memory), Walkable memory dir → d + left = 1024 →
    ptindex < 1024 → ptindex + count ≤ left * 1024 →
      ∃ memory' n, unmapLoop dir (List.range' d left) ptindex count memory = some (memory', n) ∧
        Cleared memory memory' dir (d * 1024 + ptindex) (d * 1024 + ptindex + count) n := by
  induction left with
  | zero =>
    intro d ptindex count memory _ _ _ hcount
    obtain rfl : count = 0 := by omega
    exact ⟨memory, 0, rfl, cleared_nothing (by omega)⟩
  | succ left ih =>
    intro d ptindex count memory hw hd hpt hcount
    rw [List.range'_succ]
    by_cases hzero : count = 0
    · exact ⟨memory, 0, by rw [unmapLoop, if_pos hzero], cleared_nothing (by omega)⟩
    by_cases hpres : isPresent (memory dir d) = true
    · rw [unmapLoop_present hzero hpres]
      have hle : ptindex + min count (1024 - ptindex) ≤ 1024 := by omega
      have hfirst := clearEntries_cleared hpres hle
      have hwalk := hfirst.walkable hw (by omega)
      generalize clearEntries memory (pageOf (memory dir d))
        ((List.range (min count (1024 - ptindex))).map (ptindex + ·)) = first at *
      obtain ⟨memory', n, hloop, hcleared⟩ :=
        ih (d + 1) 0 (count - min count (1024 - ptindex)) first.1 hwalk (by omega) (by omega)
        (by omega)
      rw [hloop]
      refine ⟨memory', first.2 + n, rfl, ?_⟩
      by_cases hlast : count ≤ 1024 - ptindex
      · -- the range ends in this table
        rw [Nat.min_eq_left hlast] at hfirst hcleared
        obtain ⟨hsame, hn⟩ := hcleared.nothing (by omega)
        rw [hn, hsame]
        exact hfirst
      · rw [Nat.min_eq_right (by omega)] at hfirst hcleared
        have hmid : d * 1024 + ptindex + (1024 - ptindex) = (d + 1) * 1024 + 0 := by omega
        rw [hmid] at hfirst
        have hboth := hfirst.append hcleared hw (by omega) (by omega) (by omega)
        rwa [next_table (by omega) (by omega)] at hboth
    · rw [unmapLoop, if_neg hzero, if_pos hpres]
      by_cases hend : ptindex + count < 1024
      · rw [if_pos hend]
        exact ⟨memory, 0, rfl, cleared_absent hpres (by omega) (by omega)⟩
      · -- the table is absent, and the range goes beyond it
        rw [if_neg hend]
        obtain ⟨memory', n, hloop, hcleared⟩ :=
          ih (d + 1) 0 (count - (1024 - ptindex)) memory hw (by omega) (by omega) (by omega)
        refine ⟨memory', n, hloop, ?_⟩
        have hskip : Cleared memory memory dir (d * 1024 + ptindex) ((d + 1) * 1024 + 0) 0 :=
          cleared_absent hpres (by omega) (by omega)
        have hboth := hskip.append hcleared hw (by omega) (by omega) (by omega)
        rwa [Nat.zero_add, next_table (by omega) (by omega)] at hboth

/-- **`Unmap`** returns, and clears the range of the map: nothing but its page table entries and its count change. -/
theorem unmap_spec {object base size : Nat} (h : Sound s) (ha : TablesApart s) (hm : find s object = some m)
    (hbase : base < 2 ^ 32)
    (hend : base / PAGE_SIZE + size / PAGE_SIZE ≤ 1024 * 1024) :
    ∃ (memory' : Memory) (n : Nat), unmap s object base size = some { s with
        memory := memory',
        fPhysicalMaps := s.fPhysicalMaps.map fun map =>
          if map.object = object then { map with fMappedPageCount := map.fMappedPageCount - n } else map } ∧
      Cleared s.memory memory' m.fPageDirectory (base / PAGE_SIZE) (base / PAGE_SIZE + size / PAGE_SIZE) n := by
  have hdir := dirIndex_lt hbase
  have hpage : dirIndex base * 1024 + tableIndex base = base / PAGE_SIZE := by
    unfold dirIndex tableIndex
    omega
  obtain ⟨memory', n, hloop, hcleared⟩ := unmapLoop_spec (1024 - dirIndex base) (dirIndex base) (tableIndex base)
    (size / PAGE_SIZE) s.memory (walkable h ha (find_some hm).1) (by omega) (tableIndex_lt base) (by omega)
  rw [hpage] at hcleared
  refine ⟨memory', n, ?_, hcleared⟩
  have hindexes : (List.range 1024).drop (dirIndex base) = List.range' (dirIndex base) (1024 - dirIndex base) := by
    rw [range_eq_range', drop_range', Nat.mul_one, Nat.zero_add]
  simp [unmap, hm, hindexes, hloop]

end PhysicalMaps
