import SkyOS.Heap.Requests

/-!
# Best fit (`find_smallest_hole`, `insert_ordered_array`)

`find_smallest_hole` takes the first hole that fits. Insertion and removal keep the index in order, but two paths change
the size of a hole that stays in it: the front of a page-aligned block keeps the entry of the whole hole (`:394-406`),
and a freed block joins the hole to its left where that is (`:492-496`).
-/

namespace KHeap

open Machine Bytes OrderedArrays List

def Sorted (r : Run) : Prop := (entries r.memory r.kheap.index).Pairwise (bySize r.memory)

/-- The hole to the left, with the block and a hole to the right of it, is not larger than any that is behind it in the
index. -/
def JoinKeeps (m : Memory) (index : OrderedArray) (header footer : Nat) : Prop :=
  leftIsHole m header = true → (entries m index).Pairwise fun p q =>
    p = headerOf m (sub32 header sizeofFooter) → ¬(rightIsHole m footer = true ∧ q = u32 (footer + sizeofFooter)) →
      sizeOf m p + sizeOf m header + (if rightIsHole m footer then sizeOf m (u32 (footer + sizeofFooter)) else 0) ≤
        sizeOf m q
  deriving Decidable

def Request.Small : Request → Prop
  | .memoryAlloc size 0 => size + 20 < 2 ^ 32
  | .memoryAlloc _ (_ + 1) | .hfree _ | .store .. => True

/-- A hole whose size changes in the index keeps its place there. -/
def Request.keepsOrder (r : Run) : Request → Prop
  | .memoryAlloc _ 0 => True
  | .memoryAlloc size (page_align + 1) => ∀ hole ∈ chosen r size (page_align + 1),
      (entries r.memory r.kheap.index).Pairwise fun p q => q = hole.header → sizeOf r.memory p ≤ frontSize hole.header
  | .hfree p => JoinKeeps r.memory r.kheap.index (headerFor p) (footerFor r.memory p)
  | .store .. => True

variable {r r' : Run} {blocks blocks' left right : List Block} {b : Block} {m m' : Memory} {l : List Nat} {x : Nat}

/-! ## Order -/

theorem pairwise_kept (hkept : ∀ q ∈ l, sizeOf m' q = sizeOf m q) : l.Pairwise (bySize m') ↔ l.Pairwise (bySize m) := by
  refine List.Pairwise.iff_of_mem fun {p q} hp hq => ?_
  simp only [bySize, hkept p hp, hkept q hq]

theorem pairwise_orderedInsert_iff : (l.orderedInsert (bySize m) x).Pairwise (bySize m) ↔ l.Pairwise (bySize m) :=
  ⟨fun h => h.sublist (sublist_orderedInsert x l), fun h => h.orderedInsert x l⟩

section

variable (hsorted : l.Pairwise (bySize m)) (hnodup : l.Nodup) (hkept : ∀ q ∈ l, q ≠ x → sizeOf m' q = sizeOf m q)
include hsorted hnodup hkept

theorem pairwise_changed :
    l.Pairwise (bySize m') ↔
      l.Pairwise fun p q => (p = x → sizeOf m' x ≤ sizeOf m q) ∧ (q = x → sizeOf m p ≤ sizeOf m' x) := by
  have hboth := hsorted.and hnodup
  constructor
  · intro h
    refine (h.and hboth).imp_of_mem fun {p q} hp hq ⟨hnew, _, hne⟩ => ⟨?_, ?_⟩
    · rintro rfl
      rw [← hkept q hq (Ne.symm hne)]
      exact hnew
    · rintro rfl
      rw [← hkept p hp hne]
      exact hnew
  · intro h
    refine (h.and hboth).imp_of_mem fun {p q} hp hq ⟨⟨hfirst, hsecond⟩, hold, hne⟩ => ?_
    by_cases hpx : p = x
    · subst hpx
      rw [bySize, hkept q hq (Ne.symm hne)]
      exact hfirst rfl
    · rw [bySize, hkept p hp hpx]
      by_cases hqx : q = x
      · subst hqx
        exact hsecond rfl
      · rw [hkept q hq hqx]
        exact hold

theorem pairwise_grown (hgrow : sizeOf m x ≤ sizeOf m' x) :
    l.Pairwise (bySize m') ↔ l.Pairwise fun p q => p = x → sizeOf m' x ≤ sizeOf m q := by
  rw [pairwise_changed hsorted hnodup hkept]
  refine ⟨fun h => h.imp And.left, fun h => (h.and hsorted).imp fun {p q} ⟨hnew, hold⟩ => ⟨hnew, ?_⟩⟩
  rintro rfl
  exact Nat.le_trans hold hgrow

end

/-! ## Sizes -/

theorem Tiled.sizeOf_eq (h : Tiled r blocks) (hb : b ∈ blocks) : sizeOf r.memory b.header = b.size := by
  obtain ⟨-, -, -, -, hhead, -⟩ := h.heap.laid.split hb
  exact hhead.size

theorem Tiled.nodup (h : Tiled r blocks) : (entries r.memory r.kheap.index).Nodup := h.heapRight.once

theorem Tiled.mem_entries (h : Tiled r blocks) {p : Nat} :
    p ∈ entries r.memory r.kheap.index ↔ ∃ b ∈ blocks, b.hole = true ∧ b.header = p := by
  refine Iff.trans (h.heap.index.mem_iff (a := p)) ⟨mem_holeHeaders, ?_⟩
  rintro ⟨b, hb, hhole, rfl⟩
  exact mem_map.2 ⟨b, mem_filter.2 ⟨hb, hhole⟩, rfl⟩

variable {q i size : Nat}

theorem Tiled.sizeOf_kept (h : Tiled r blocks) (h' : Tiled r' blocks') (hq : q ∈ entries r.memory r.kheap.index)
    (hstay : ∀ c ∈ blocks, c.hole = true → c.header = q → c ∈ blocks') : sizeOf r'.memory q = sizeOf r.memory q := by
  obtain ⟨c, hc, hhole, rfl⟩ := h.mem_entries.1 hq
  rw [h.sizeOf_eq hc, h'.sizeOf_eq (hstay c hc hhole rfl)]

theorem Tiled.sizeOf_kept_of_ne {new : List Block} (h : Tiled r (left ++ b :: right))
    (h' : Tiled r' (left ++ new ++ right)) (hq : q ∈ entries r.memory r.kheap.index) (hne : q ≠ b.header) :
    sizeOf r'.memory q = sizeOf r.memory q := by
  refine h.sizeOf_kept h' hq fun c hc _ hheader => ?_
  rcases mem_append.1 hc with hc | hc
  · simp [hc]
  · rcases mem_cons.1 hc with rfl | hc
    · exact absurd hheader.symm hne
    · simp [hc]

theorem Tiled.not_mem_entries (h : Tiled r blocks) (hb : b ∈ blocks) (hlive : b.hole = false) :
    b.header ∉ entries r.memory r.kheap.index := by
  intro hmem
  obtain ⟨c, hc, hhole, hheader⟩ := h.mem_entries.1 hmem
  have hbroom := (h.heap.bounds hb).2.2.2.1
  have hcroom := (h.heap.bounds hc).2.2.2.1
  rcases h.heap.laid.apart hb hc with rfl | hapart | hapart
  · rw [hlive] at hhole
    cases hhole
  · unfold Block.fin at hapart
    omega
  · unfold Block.fin at hapart
    omega

/-! ## What a request does to the order -/

theorem leftIsHole_mark {header : Nat} (h : leftIsHole m header = true) (hlow : sizeofFooter ≤ header)
    (hlt : header < 2 ^ 32) :
    leftIsHole (setIsHole m header 1) header = true := by
  have haddr : sub32 header sizeofFooter = header - 8 := sub32_of_le hlow hlt
  unfold sizeofFooter at hlow
  simp only [leftIsHole, haddr, decide_eq_true_eq] at h ⊢
  obtain ⟨hmagic, hhole⟩ := h
  have hheader : headerOf (setIsHole m header 1) (header - 8) = headerOf m (header - 8) :=
    read32_write8_of_disjoint m (.inl (by omega)) _
  refine ⟨(read32_write8_of_disjoint m (.inl (by omega)) _).trans hmagic, ?_⟩
  rw [hheader]
  by_cases heq : headerOf m (header - 8) + 4 = header + 4
  · rw [isHoleOf, heq, setIsHole, write8_self]
    rfl
  · rw [isHoleOf, setIsHole_outside m heq]
    exact hhole

theorem Tiled.neighbours (h : Tiled r (left ++ b :: right))
    (hfits : (Request.hfree b.pointer).fits r) :
    (leftIsHole r.memory b.header = true ↔ ∃ before l, left = before ++ [l] ∧ l.hole = true) ∧
      (rightIsHole r.memory b.footer = true ↔ ∃ c after, right = c :: after ∧ c.hole = true) := by
  obtain ⟨hleft, hhead, hright⟩ := h.heap.sides h.sides_nil
  obtain ⟨hlow, hstart, hend, hroom, htop⟩ := h.heap.bounds (b := b) (by simp)
  have hfin : b.fin = b.header + b.size := rfl
  have hfooter : b.footer + sizeofFooter = b.fin := by
    show b.header + b.size - 8 + 8 = b.header + b.size
    omega
  replace hfits : ReleaseFits r.memory r.kheap (headerFor b.pointer) (footerFor r.memory b.pointer) := hfits
  rw [headerFor_pointer htop hroom, footerFor_pointer hhead htop] at hfits
  obtain ⟨hfirst, hlast, -⟩ := hfits
  constructor
  · rcases eq_nil_or_concat left with rfl | ⟨before, l, rfl⟩
    · have hnone := hfirst hleft.symm
      refine ⟨fun hjoin => ?_, by simp⟩
      rw [leftIsHole_mark hjoin (by unfold sizeofFooter; omega) (by omega)] at hnone
      cases hnone
    · rw [concat_eq_append] at hleft ⊢
      obtain ⟨x, -, rfl, hlhead, hlfoot, hlfin⟩ := laid_append.1 hleft
      rw [leftIsHole_iff hlhead (hlfoot rfl) hlfin (by omega)]
      simp
  · cases right with
    | nil =>
      have hnone := hlast (by rw [hfooter]; exact hright)
      refine ⟨fun hjoin => ?_, by simp⟩
      rw [rightIsHole_congr fun x hx => setIsHole_outside _ (by
        rw [hfooter, u32_of_lt htop] at hx
        have := hx.1
        omega) 1, hjoin] at hnone
      cases hnone
    | cons c after =>
      obtain ⟨hcheader, hchead, -, -⟩ := hright
      rw [rightIsHole_iff hroom htop hchead hcheader.symm]
      simp

theorem Tiled.eraseIdx (h : Tiled r blocks) (hi : i < r.kheap.index.size)
    (hq : q ∈ (entries r.memory r.kheap.index).eraseIdx i) :
    q ∈ entries r.memory r.kheap.index ∧ q ≠ lookupOrderedArray r.memory i r.kheap.index := by
  obtain ⟨-, -, -, hperm, -⟩ := removeOrderedArray_spec r.memory hi
  have hnodup := hperm.nodup_iff.2 h.nodup
  refine ⟨hperm.subset (.tail _ hq), ?_⟩
  rintro rfl
  exact (nodup_cons.1 hnodup).1 hq

theorem sorted_taken {hole : Block} (h : Tiled r (left ++ hole :: right))
    (h' : Tiled r' (left ++ takeBlocks hole (size + 20) ++ right)) (hi : i < r.kheap.index.size)
    (hlook : lookupOrderedArray r.memory i r.kheap.index = hole.header)
    (hentries : entries r'.memory r'.kheap.index =
      takeEntries (bySize r'.memory) (entries r.memory r.kheap.index) i hole (size + 20))
      (hsorted : Sorted r) : Sorted r' := by
  have hrest : ((entries r.memory r.kheap.index).eraseIdx i).Pairwise (bySize r'.memory) := by
    refine (pairwise_kept fun q hq => ?_).2 (List.Pairwise.sublist (eraseIdx_sublist _ i) hsorted)
    obtain ⟨hmem, hne⟩ := h.eraseIdx hi hq
    exact h.sizeOf_kept_of_ne h' hmem (hlook ▸ hne)
  rw [Sorted, hentries, takeEntries]
  split
  · exact hrest
  · exact pairwise_orderedInsert_iff.2 hrest

/-- The front keeps the place of the hole if no hole before it is larger. -/
theorem sorted_aligned_iff {hole : Block} (h : Tiled r (left ++ hole :: right))
    (h' : Tiled r' (left ++ alignBlocks hole size ++ right)) (hfits : AlignFits r.kheap hole size)
    (hentries : entries r'.memory r'.kheap.index =
      alignEntries (bySize r'.memory) (entries r.memory r.kheap.index) hole size)
    (hsorted : Sorted r) :
    Sorted r' ↔ (entries r.memory r.kheap.index).Pairwise fun p q =>
      q = hole.header → sizeOf r.memory p ≤ frontSize hole.header := by
  have hfront : sizeOf r'.memory hole.header = frontSize hole.header := by
    refine h'.sizeOf_eq (b := ⟨hole.header, frontSize hole.header, true⟩) ?_
    unfold alignBlocks
    split <;> simp
  have hold : sizeOf r.memory hole.header = hole.size := h.sizeOf_eq (by simp)
  have hsame : Sorted r' ↔ (entries r.memory r.kheap.index).Pairwise (bySize r'.memory) := by
    rw [Sorted, hentries, alignEntries]
    split
    · exact Iff.rfl
    · exact pairwise_orderedInsert_iff
  rw [hsame, pairwise_changed hsorted h.nodup fun q hq hne => h.sizeOf_kept_of_ne h' hq hne]
  constructor
  · intro hp
    refine hp.imp fun {p q} hpq hq => ?_
    rw [← hfront]
    exact hpq.2 hq
  · intro hp
    refine (hp.and hsorted).imp fun {p q} ⟨hpq, hle⟩ => ⟨?_, ?_⟩
    · rintro rfl
      rw [bySize, hold] at hle
      rw [hfront]
      obtain ⟨-, hexact | ⟨hmore, -⟩⟩ := hfits <;> omega
    · intro hq
      rw [hfront]
      exact hpq hq

theorem sorted_released {c c' : Block} {right' : List Block} {joined : Bool} (h : Tiled r (left ++ b :: right))
    (h' : Tiled r' (left ++ c' :: right')) (hlive : b.hole = false) (hc : c = { b with hole := true })
    (hright : JoinedRight c right right' c' joined)
    (hentries : entries r'.memory r'.kheap.index =
      (if joined then (entries r.memory r.kheap.index).erase c.fin else entries r.memory r.kheap.index).orderedInsert
        (bySize r'.memory) c'.header) (hsorted : Sorted r) : Sorted r' := by
  have hnot := h.not_mem_entries (b := b) (by simp) hlive
  rw [Sorted, hentries, pairwise_orderedInsert_iff]
  cases hright with
  | stays =>
    have h'' : Tiled r' (left ++ [c] ++ right) := by simpa using h'
    refine (pairwise_kept fun q hq => h.sizeOf_kept_of_ne h'' hq ?_).2 hsorted
    rintro rfl
    exact hnot hq
  | joins hhole hfin =>
    refine (pairwise_kept fun q hq => ?_).2 (List.Pairwise.sublist erase_sublist hsorted)
    obtain ⟨hne, hmem⟩ := (List.Nodup.mem_erase_iff h.nodup).1 hq
    refine h.sizeOf_kept h' hmem fun x hx hxhole hxheader => ?_
    rcases mem_append.1 hx with hx | hx
    · simp [hx]
    · rcases mem_cons.1 hx with rfl | hx
      · rw [hlive] at hxhole
        cases hxhole
      · rcases mem_cons.1 hx with rfl | hx
        · exact absurd (hxheader.symm.trans hfin.symm) hne
        · simp [hx]

theorem Tiled.left_footer {before : List Block} {l : Block} (h : Tiled r (before ++ [l] ++ b :: right)) :
    headerOf r.memory (sub32 b.header sizeofFooter) = l.header := by
  obtain ⟨hleft, -, -⟩ := h.heap.sides h.sides_nil
  obtain ⟨-, -, -, hroom, htop⟩ := h.heap.bounds (b := b) (by simp)
  obtain ⟨-, -, -, hlroom, -⟩ := h.heap.bounds (b := l) (by simp)
  obtain ⟨x, -, rfl, -, hlfoot, hlfin⟩ := laid_append.1 hleft
  replace hlfin : l.fin = b.header := hlfin
  have hfin : b.fin = b.header + b.size := rfl
  have hlfin' : l.fin = l.header + l.size := rfl
  rw [sub32_of_le (by unfold sizeofFooter; omega) (by omega), ← hlfin]
  exact (hlfoot rfl).header

/-- A block that joins the hole to its left leaves the entry where it is. -/
theorem sorted_joined_iff {before right' : List Block} {l c' : Block} {joined : Bool}
    (h : Tiled r (before ++ [l] ++ b :: right)) (h' : Tiled r' (before ++ c' :: right'))
    (hfits : (Request.hfree b.pointer).fits r) (hlive : b.hole = false) (hhole : l.hole = true)
    (hright : JoinedRight (merge l { b with hole := true }) right right' c' joined)
    (hentries : entries r'.memory r'.kheap.index =
      if joined then (entries r.memory r.kheap.index).erase (merge l { b with hole := true }).fin
      else entries r.memory r.kheap.index) (hsorted : Sorted r) :
    Sorted r' ↔ JoinKeeps r.memory r.kheap.index b.header b.footer := by
  obtain ⟨hleftIff, hrightIff⟩ := h.neighbours hfits
  have hleftHole : leftIsHole r.memory b.header = true := hleftIff.2 ⟨before, l, rfl, hhole⟩
  have hnot := h.not_mem_entries (b := b) (by simp) hlive
  have hlsize : sizeOf r.memory l.header = l.size := h.sizeOf_eq (by simp)
  have hbsize : sizeOf r.memory b.header = b.size := h.sizeOf_eq (by simp)
  obtain ⟨-, -, -, hroom, htop⟩ := h.heap.bounds (b := b) (by simp)
  have hlfin : l.fin = b.header := by
    obtain ⟨x, -, -, -, -, hlfin⟩ := laid_append.1 (h.heap.sides h.sides_nil).1
    exact hlfin
  have hcfin : (merge l { b with hole := true }).fin = b.fin := merge_fin hlfin
  rw [hcfin] at hentries
  rw [JoinKeeps, h.left_footer, hbsize, footer_add hroom htop, Sorted, hentries]
  simp only [hleftHole, true_implies]
  cases hright with
  | stays hno =>
    have hrightHole : rightIsHole r.memory b.footer = false := by
      refine Bool.eq_false_iff.2 fun hjoin => ?_
      obtain ⟨d, after, hd, hdhole⟩ := hrightIff.1 hjoin
      rw [hno d after hd] at hdhole
      cases hdhole
    have hnew : sizeOf r'.memory l.header = l.size + b.size := h'.sizeOf_eq (b := merge l { b with hole := true }) (by simp)
    rw [if_neg Bool.false_ne_true, pairwise_grown (x := l.header) hsorted h.nodup (fun q hq hne => ?_) (by omega)]
    · simp only [hrightHole, Bool.false_eq_true, false_and, not_false_eq_true, true_implies, if_false, hnew, Nat.add_zero]
      refine List.Pairwise.iff fun p q => ⟨?_, ?_⟩
      · rintro hp rfl
        rw [hlsize]
        exact hp rfl
      · rintro hp rfl
        omega
    · refine h.sizeOf_kept h' hq fun c hc hchole hcheader => ?_
      simp only [mem_append, mem_cons, not_mem_nil, or_false] at hc ⊢
      rcases hc with (hc | rfl) | rfl | hc
      · exact .inl hc
      · exact absurd hcheader.symm hne
      · exact absurd hq (hcheader ▸ hnot)
      · exact .inr (.inr hc)
  | @joins _ d hrhole hrfin =>
    have hrightHole : rightIsHole r.memory b.footer = true := hrightIff.2 ⟨d, _, rfl, hrhole⟩
    have hdheader : b.fin = d.header := hcfin.symm.trans hrfin
    have hdsize : sizeOf r.memory d.header = d.size := h.sizeOf_eq (by simp)
    have hne : l.header ≠ d.header := by
      unfold Block.fin at hlfin hdheader
      omega
    have hnew : sizeOf r'.memory l.header = l.size + b.size + d.size :=
      h'.sizeOf_eq (b := merge (merge l { b with hole := true }) d) (by simp)
    have hsub := List.Pairwise.sublist (erase_sublist (a := b.fin)) hsorted
    rw [if_pos rfl, pairwise_grown (x := l.header) hsub (h.nodup.erase _) (fun q hq hqne => ?_) (by omega),
      h.nodup.erase_eq_filter, pairwise_filter]
    · simp only [hrightHole, true_and, if_true, hnew, hdheader, hdsize]
      refine List.Pairwise.iff fun p q => ⟨?_, ?_⟩
      · rintro hp rfl hq
        rw [hlsize]
        exact hp (by simpa using hne) (by simpa using hq) rfl
      · rintro hp - hq rfl
        have := hp rfl (by simpa using hq)
        omega
    · obtain ⟨hqfin, hmem⟩ := (List.Nodup.mem_erase_iff h.nodup).1 hq
      refine h.sizeOf_kept h' hmem fun c hc hchole hcheader => ?_
      simp only [mem_append, mem_cons, not_mem_nil, or_false] at hc ⊢
      rcases hc with (hc | rfl) | rfl | rfl | hc
      · exact .inl hc
      · exact absurd hcheader.symm hqne
      · exact absurd hmem (hcheader ▸ hnot)
      · exact absurd (hcheader.symm.trans hdheader.symm) hqfin
      · exact .inr (.inr hc)

/-- **The order after a request.** It is kept exactly if the hole that changes its size keeps its place. -/
theorem sorted_iff_of_outcome {c : Request} (h : Tiled r blocks) (h' : Tiled r' blocks') (hfits : c.fits r)
    (ho : Outcome r r' c blocks blocks') (hsorted : Sorted r) : Sorted r' ↔ c.keepsOrder r := by
  cases ho with
  | taken hhole hfit hfind hlook hlive hentries =>
    have hi := findFrom_lt hfind
    rw [Nat.zero_add] at hi
    exact iff_of_true (sorted_taken h h' hi hlook hentries hsorted) trivial
  | aligned hhole halign hchosen hentries =>
    rw [sorted_aligned_iff h h' halign hentries hsorted]
    constructor
    · intro hp d hd
      cases Option.mem_unique hd hchosen
      exact hp
    · intro hp
      exact hp _ hchosen
  | @released left right left' right' b c' hlive hreleased =>
    obtain ⟨hleft, hhead, hright⟩ := h.heap.sides h.sides_nil
    obtain ⟨-, -, -, hroom, htop⟩ := h.heap.bounds (b := b) (by simp)
    have hkeeps : (Request.hfree b.pointer).keepsOrder r ↔ JoinKeeps r.memory r.kheap.index b.header b.footer := by
      rw [Request.keepsOrder, headerFor_pointer htop hroom, footerFor_pointer hhead htop]
    rw [hkeeps]
    obtain ⟨c, do_add, joined, hjoinLeft, hjoinRight, hentries⟩ := hreleased
    cases hjoinLeft with
    | stays hno =>
      refine iff_of_true (sorted_released h h' hlive rfl hjoinRight hentries hsorted) fun hjoin => ?_
      obtain ⟨before, l, hl, hhole⟩ := (h.neighbours hfits).1.1 hjoin
      rw [hno before l hl] at hhole
      cases hhole
    | joins hhole hfin => exact sorted_joined_iff h h' hfits hlive hhole hjoinRight hentries hsorted
  | stored hentries =>
    refine iff_of_true ?_ trivial
    rw [Sorted, hentries]
    exact (pairwise_kept fun q hq => h.sizeOf_kept h' hq fun c hc _ _ => hc).2 hsorted

theorem sorted_init (h : requests.init r) : Sorted r := by
  obtain ⟨blocks, hinv⟩ := tiled_init h
  obtain ⟨m, index, start, end_addr, -, -, -, -, hfresh⟩ := h
  obtain ⟨b, rfl, hhole⟩ := hinv.fresh hfresh
  have hperm : (entries r.memory r.kheap.index).Perm [b.header] := by
    have hindex := hinv.heap.index
    rwa [holeHeaders_cons_hole hhole] at hindex
  rw [Sorted, perm_singleton.1 hperm]
  exact pairwise_singleton _ _

/-! ## The hole that is taken -/

/-- A block that need not be on a page takes the smallest of the holes that are large enough. -/
def TakesSmallest (r : Run) (blocks : List Block) : Prop :=
  ∀ size p s, size + 20 < 2 ^ 32 → memoryAlloc r.toState size 0 = some (p, s) →
    ∃ b ∈ blocks, b.hole = true ∧ p = b.pointer ∧ size + 20 ≤ b.size ∧
      ∀ c ∈ blocks, c.hole = true → size + 20 ≤ c.size → b.size ≤ c.size

theorem findFrom_first {index : OrderedArray} {iterator n : Nat}
    (h : findFrom m size 0 index iterator n = some i) :
    ∀ j, iterator ≤ j → j < i → sizeOf m (lookupOrderedArray m j index) < size := by
  induction n generalizing iterator with
  | zero => cases h
  | succ n ih =>
    intro j hle hlt
    unfold findFrom at h
    split at h
    · cases h
      omega
    · rename_i hfits
      rcases Nat.eq_or_lt_of_le hle with rfl | hless
      · simpa [fits] using hfits
      · exact ih h j hless hlt

theorem lookup_of_lt {index : OrderedArray} (hi : i < (entries m index).length) :
    (entries m index)[i] = lookupOrderedArray m i index :=
  getElem_words m index.array hi

theorem Tiled.takesSmallest (h : Tiled r blocks) (hsorted : Sorted r) : TakesSmallest r blocks := by
  intro size p s hlt halloc
  obtain ⟨left, b, right, i, rfl, hhole, rfl, hfind, hlook, hfit, -⟩ := runInv_memoryAlloc h.toRunInv (.inl hlt) halloc
  rw [u32_of_lt hlt] at hfind hfit
  refine ⟨b, by simp, hhole, rfl, hfit, fun c hc hchole hcfit => ?_⟩
  have hlength : (entries r.memory r.kheap.index).length = r.kheap.index.size := length_words _ _ _
  obtain ⟨j, hj, hjlook⟩ := (mem_entries_iff _ _ _).1 (h.mem_entries.2 ⟨c, hc, hchole, rfl⟩)
  have hcsize := h.sizeOf_eq hc
  have hbsize : sizeOf r.memory b.header = b.size := h.sizeOf_eq (by simp)
  rcases Nat.lt_trichotomy j i with hlt | rfl | hlt
  · have hsmall := findFrom_first hfind j (Nat.zero_le j) hlt
    rw [hjlook, hcsize] at hsmall
    omega
  · rw [hjlook] at hlook
    rw [← hbsize, ← hcsize, hlook]
  · have hordered := pairwise_iff_getElem.1 hsorted i j (by omega) (by omega) hlt
    rwa [bySize, lookup_of_lt, lookup_of_lt, hlook, hjlook, hbsize, hcsize] at hordered

instance : (c : Request) → Decidable c.Small
  | .memoryAlloc size 0 => inferInstanceAs (Decidable (size + 20 < 2 ^ 32))
  | .memoryAlloc _ (_ + 1) | .hfree _ | .store .. => .isTrue trivial

instance (r : Run) : (c : Request) → Decidable (c.keepsOrder r)
  | .memoryAlloc _ 0 => .isTrue trivial
  | .memoryAlloc size (page_align + 1) =>
    inferInstanceAs (Decidable (∀ hole ∈ chosen r size (page_align + 1), List.Pairwise _ _))
  | .hfree p => inferInstanceAs (Decidable (JoinKeeps _ _ (headerFor p) _))
  | .store .. => .isTrue trivial

def twoPagesRun (m : Memory) : Option Run := (twoPages m).map fun s => ⟨s, [], true⟩

theorem twoPagesRun_init (h : twoPagesRun m = some r) : requests.init r := by
  obtain ⟨s, hs, rfl⟩ := Option.map_eq_some_iff.1 h
  exact ⟨m, ⟨0, 0, 0⟩, 0x1000, 0x84000, by decide, by decide, hs, rfl, rfl⟩

/-- **Best fit.** In every run whose requests keep the order the index is sorted, and the smallest hole that fits is taken;
any other request that fits leaves the index out of order. -/
theorem best_fit (h : requests.ReachVia (fun r c => c.fits r ∧ c.Small ∧ c.keepsOrder r) r) :
    ∃ blocks, HeapRight r blocks ∧ Sorted r ∧ TakesSmallest r blocks ∧
      ∀ c r', c.fits r → requests.step r c = some r' → (Sorted r' ↔ c.keepsOrder r) := by
  have hinv : (∃ blocks, Tiled r blocks) ∧ Sorted r := by
    refine StepSystem.ReachVia.invariant (fun r => (∃ blocks, Tiled r blocks) ∧ Sorted r)
      (fun r h0 => ⟨tiled_init h0, sorted_init h0⟩) ?_ h
    rintro r c r' ⟨⟨blocks, htiled⟩, hsorted⟩ ⟨hfits, -, hkeeps⟩ hs
    obtain ⟨blocks', htiled', ho⟩ := outcome_of_step htiled hfits hs
    exact ⟨⟨blocks', htiled'⟩, (sorted_iff_of_outcome htiled htiled' hfits ho hsorted).2 hkeeps⟩
  obtain ⟨⟨blocks, htiled⟩, hsorted⟩ := hinv
  refine ⟨blocks, htiled.heapRight, hsorted, htiled.takesSmallest hsorted, fun c r' hfits hs => ?_⟩
  obtain ⟨blocks', htiled', ho⟩ := outcome_of_step htiled hfits hs
  exact sorted_iff_of_outcome htiled htiled' hfits ho hsorted

def pageAndBack : List Request :=
  [.memoryAlloc 100 1, .memoryAlloc 16 0, .hfree 0x83000, .hfree 0x83078]

theorem best_fit_run : ∃ r₀ r, twoPagesRun (fun _ => 0) = some r₀ ∧ requests.exec r₀ pageAndBack = some r ∧
    ∃ blocks, HeapRight r blocks ∧ Sorted r ∧ TakesSmallest r blocks ∧
      ∀ c r', c.fits r → requests.step r c = some r' → (Sorted r' ↔ c.keepsOrder r) := by
  have hcreate : (twoPagesRun fun _ => 0).isSome := by decide +kernel
  have hrun : ((twoPagesRun fun _ => 0).bind fun r => requests.exec r pageAndBack).isSome := by decide +kernel
  have hmeets : (twoPagesRun fun _ => 0).elim True fun r =>
    requests.Meets (fun r c => c.fits r ∧ c.Small ∧ c.keepsOrder r) r pageAndBack := by decide +kernel
  obtain ⟨r₀, h₀⟩ := Option.isSome_iff_exists.1 hcreate
  rw [h₀] at hrun hmeets
  obtain ⟨r, hr⟩ := Option.isSome_iff_exists.1 hrun
  exact ⟨r₀, r, h₀, hr, best_fit (StepSystem.reachVia_exec pageAndBack (.init (twoPagesRun_init h₀)) hmeets hr)⟩

/-- Five blocks; the first and the fourth are freed, and the second joins the first. -/
def growing : List Request :=
  [.memoryAlloc 16 0, .memoryAlloc 180 0, .memoryAlloc 16 0, .memoryAlloc 100 0, .memoryAlloc 16 0,
    .hfree 0x8200c, .hfree 0x8211c, .hfree 0x82030]

/-- The first hole has grown to 236 bytes and is still in front of the one of 120: that is where 100 bytes are taken. -/
theorem best_fit_lost : ¬∀ r, requests.Reach r → Sorted r ∧ ∀ size p s, memoryAlloc r.toState size 0 = some (p, s) →
    ∃ q ∈ entries r.memory r.kheap.index, p = q + 12 ∧ size + 20 ≤ sizeOf r.memory q ∧
      ∀ q' ∈ entries r.memory r.kheap.index, size + 20 ≤ sizeOf r.memory q' → sizeOf r.memory q ≤ sizeOf r.memory q' := by
  intro hclaim
  have hcreate : (onePage fun _ => 0).isSome := by decide +kernel
  have hrun : ((onePage fun _ => 0).bind fun r => requests.exec r growing).map (fun r =>
      ((entries r.memory r.kheap.index).map (fun q => (q, sizeOf r.memory q)),
        (memoryAlloc r.toState 100 0).map Prod.fst)) =
      some ([(0x82000, 236), (0x82110, 120), (0x821ac, 3668)], some 0x8200c) := by decide +kernel
  obtain ⟨r₀, h₀⟩ := Option.isSome_iff_exists.1 hcreate
  rw [h₀] at hrun
  obtain ⟨r, hr, hfacts⟩ := Option.map_eq_some_iff.1 hrun
  rw [Prod.mk.injEq] at hfacts
  obtain ⟨hsizes, halloc⟩ := hfacts
  obtain ⟨⟨p, s⟩, halloc, hp⟩ := Option.map_eq_some_iff.1 halloc
  replace hp : p = 0x8200c := hp
  obtain ⟨q, hq, hpq, -, hleast⟩ := (hclaim r (StepSystem.reach_exec growing (.init (onePage_init h₀)) hr)).2 100 p s halloc
  have hpair : ∀ q ∈ entries r.memory r.kheap.index, (q, sizeOf r.memory q) ∈
      [(0x82000, 236), (0x82110, 120), (0x821ac, 3668)] :=
    fun q hq => hsizes ▸ List.mem_map.2 ⟨q, hq, rfl⟩
  obtain ⟨d, hd, hdpair⟩ := List.mem_map.1 (hsizes.symm ▸ (by simp :
    (0x82110, 120) ∈ [(0x82000, 236), (0x82110, 120), (0x821ac, 3668)]))
  simp only [Prod.mk.injEq] at hdpair
  have hle := hleast d hd (by omega)
  have hqpair := hpair q hq
  simp only [List.mem_cons, Prod.mk.injEq, List.not_mem_nil, or_false] at hqpair
  omega

end KHeap
