import SkyOS.Heap.Requests

/-!
# The capacity of the index (`insert_ordered_array`, `HEAP_INDEX_SIZE`)

`place_ordered_array` clears room for `HEAP_INDEX_SIZE` entries in front of the heap and stores the number as `max_size`.
Nobody reads it again. Two requests make an entry without giving one back: a freed block that joins no hole, and a
page-aligned block that leaves something of its hole behind it. The kernel's heap of 12800 pages has room for far more holes
than the index has entries.
-/

namespace KHeap

open Machine Bytes OrderedArrays List Option

/-! ## The kernel's heap (`HeapManager::Initialize`) -/

def kHeapBase : Nat := 0xc0104000
def KERNEL_HEAP_FRAME_COUNT : Nat := 12800
def kHeapTop : Nat := kHeapBase + KERNEL_HEAP_FRAME_COUNT * PAGE_SIZE

def kernelRequests : StepSystem Run Request where
  init r := ∃ m index, createKernelHeap ⟨m, ⟨index, 0, 0⟩, 0⟩ kHeapBase kHeapTop = some r.toState ∧ r.live = [] ∧
    r.fresh = true
  step := requests.step

/-- The array has not outgrown its place in front of the heap. -/
structure IndexRight (r : Run) : Prop where
  bounded : r.kheap.index.size ≤ HEAP_INDEX_SIZE
  placed : r.kheap.index.array + 4 * HEAP_INDEX_SIZE ≤ r.kheap.start_address

/-- Something of the hole is left behind the page-aligned block (:423). -/
def LeavesRest (s : State) (size iterator : Nat) : Prop :=
  let pos := lookupOrderedArray s.memory iterator s.kheap.index
  let hole_size := sizeOf s.memory pos
  sub32 (alignPlace s.memory s.kheap.index pos hole_size).orig_hole_size
    (absorb hole_size size (u32 (size + sizeofHeader + sizeofFooter))).2 > 0
  deriving Decidable

def Request.indexFits (r : Run) : Request → Prop
  | .memoryAlloc size page_align => page_align ≠ 0 →
      ∀ i ∈ findSmallestHole r.memory (u32 (size + sizeofHeader + sizeofFooter)) page_align r.kheap,
        lookupOrderedArray r.memory i r.kheap.index / PAGE_SIZE ≠ 0 → LeavesRest r.toState size i →
          r.kheap.index.size < HEAP_INDEX_SIZE
  | .hfree p => p ≠ 0 →
      let m := setIsHole r.memory (headerFor p) 1
      leftIsHole m (headerFor p) = false → rightIsHole m (footerFor r.memory p) = false →
        r.kheap.index.size < HEAP_INDEX_SIZE
  | .store .. => True

instance (r : Run) : (c : Request) → Decidable (c.indexFits r)
  | .memoryAlloc .. => inferInstanceAs (Decidable (_ → ∀ i ∈ findSmallestHole _ _ _ _, _ → _ → _))
  | .hfree _ => inferInstanceAs (Decidable (_ → _ → _ → _))
  | .store .. => .isTrue trivial

variable {r r' : Run} {s s' : State} {m m' : Memory} {index index' : OrderedArray} {size i p header footer : Nat}

/-! ## How many entries there are -/

theorem insertOrderedArray_index (m : Memory) (p : Nat) (index : OrderedArray) :
    (insertOrderedArray header_t_less_than m p index).2 = { index with size := index.size + 1 } := by
  unfold insertOrderedArray
  dsimp only
  split <;> rfl

theorem addRemainder_index (m : Memory) (index : OrderedArray) (end_address pos hole_size : Nat) :
    (addRemainder m index end_address pos hole_size).2 = { index with size := index.size + 1 } :=
  insertOrderedArray_index _ pos index

theorem fillPlace_index (place : Place) (end_address size new_size : Nat) :
    (fillPlace place end_address size new_size).2 =
      { place.index with size := if sub32 place.orig_hole_size new_size > 0 then place.index.size + 1
        else place.index.size } := by
  unfold fillPlace
  dsimp only
  split
  · exact addRemainder_index _ _ _ _ _
  · rfl

variable {page_align : Nat} {c : Request} {blocks : List Block} {b x z : Block}

theorem allocFrom_kheap {pos hole_size : Nat} {place : Place} (size : Nat)
    (hpos : lookupOrderedArray s.memory i s.kheap.index = pos)
    (hsize : sizeOf s.memory pos = hole_size)
    (hplace : (if page_align ≠ 0 ∧ pos / PAGE_SIZE ≠ 0 then alignPlace s.memory s.kheap.index pos hole_size
      else takePlace s.memory s.kheap.index i pos hole_size) = place) (new_size : Nat) :
    (allocFrom s i size new_size page_align).2.kheap = { s.kheap with index :=
      (fillPlace place s.kheap.end_address (absorb hole_size size new_size).1 (absorb hole_size size new_size).2).2 } := by
  unfold allocFrom fillPlace absorb
  dsimp only
  rw [hpos, hsize, hplace]
  split <;> rfl

/-- A request for a block makes an entry without giving one back where the front keeps that of the hole and something is
left behind the block, and nowhere else. -/
theorem memoryAlloc_index (h : memoryAlloc s size page_align = some (p, s')) :
    s'.kheap.start_address = s.kheap.start_address ∧ s'.kheap.index.array = s.kheap.index.array ∧
      ∃ i, findSmallestHole s.memory (u32 (size + sizeofHeader + sizeofFooter)) page_align s.kheap = some i ∧
        if page_align ≠ 0 ∧ lookupOrderedArray s.memory i s.kheap.index / PAGE_SIZE ≠ 0 ∧ LeavesRest s size i then
          s'.kheap.index.size = s.kheap.index.size + 1
        else s'.kheap.index.size ≤ s.kheap.index.size := by
  obtain ⟨i, hfind, heq⟩ := map_eq_some_iff.1 h
  have hi : i < s.kheap.index.size := by
    have := findFrom_lt hfind
    omega
  by_cases hfront : page_align ≠ 0 ∧ lookupOrderedArray s.memory i s.kheap.index / PAGE_SIZE ≠ 0
  · have hkheap := allocFrom_kheap size rfl rfl (if_pos hfront) (u32 (size + sizeofHeader + sizeofFooter))
    rw [heq, fillPlace_index] at hkheap
    refine ⟨by rw [hkheap], by rw [hkheap]; rfl, i, hfind, ?_⟩
    rw [hkheap]
    by_cases hrest : LeavesRest s size i
    · rw [if_pos ⟨hfront.1, hfront.2, hrest⟩]
      exact if_pos hrest
    · rw [if_neg fun h => hrest h.2.2]
      exact Nat.le_of_eq (if_neg hrest)
  · have hkheap := allocFrom_kheap size rfl rfl (if_neg hfront) (u32 (size + sizeofHeader + sizeofFooter))
    rw [heq, fillPlace_index] at hkheap
    refine ⟨by rw [hkheap], by rw [hkheap]; rfl, i, hfind, ?_⟩
    rw [hkheap, if_neg fun h => hfront ⟨h.1, h.2.1⟩]
    unfold takePlace removeOrderedArray
    dsimp only
    split <;> omega

variable {n : Nat} {left right : List Block}

theorem searchIndex_lt {iterator : Nat} (h : searchIndex m p index iterator n = some i) : i < iterator + n := by
  induction n generalizing iterator with
  | zero => cases h
  | succ n ih =>
    unfold searchIndex at h
    split at h
    · cases h
      omega
    · have := ih h
      omega

theorem unifyRight_index (h : unifyRight m index header footer = some (m', index')) :
    index'.array = index.array ∧ if rightIsHole m footer then index'.size + 1 = index.size else index'.size =
    index.size := by
  unfold unifyRight at h
  split at h
  · rename_i hright
    obtain ⟨i, hsearch, heq⟩ := map_eq_some_iff.1 h
    have := searchIndex_lt hsearch
    cases heq
    rw [if_pos hright]
    exact ⟨rfl, Nat.sub_add_cancel (by omega)⟩
  · rename_i hright
    cases h
    exact ⟨rfl, by rw [if_neg hright]⟩

/-- A block that is freed makes an entry without giving one back where it joins no hole, and nowhere else. -/
theorem release_index (h : release s header footer = some s') :
    s'.kheap.start_address = s.kheap.start_address ∧ s'.kheap.index.array = s.kheap.index.array ∧
      if leftIsHole (setIsHole s.memory header 1) header = false ∧
          rightIsHole (setIsHole s.memory header 1) footer = false then
        s'.kheap.index.size = s.kheap.index.size + 1
      else s'.kheap.index.size ≤ s.kheap.index.size := by
  unfold release at h
  cases hleft : leftIsHole (setIsHole s.memory header 1) header with
  | true =>
    -- the hole to the left has an entry already
    simp only [unifyLeft, if_pos hleft, Bool.false_eq_true, if_false] at h
    obtain ⟨⟨m₃, index₃⟩, hright, rfl⟩ := map_eq_some_iff.1 h
    obtain ⟨harray, hcount⟩ := unifyRight_index hright
    simp only [Bool.true_eq_false, false_and, if_false]
    refine ⟨trivial, harray, ?_⟩
    split at hcount <;> omega
  | false =>
    simp only [unifyLeft, hleft, Bool.false_eq_true, if_false, if_true] at h
    obtain ⟨⟨m₃, index₃⟩, hright, rfl⟩ := map_eq_some_iff.1 h
    obtain ⟨harray, hcount⟩ := unifyRight_index hright
    simp only [insertOrderedArray_index, true_and]
    refine ⟨harray, ?_⟩
    cases hr : rightIsHole (setIsHole s.memory header 1) footer <;> rw [hr] at hcount
    · exact congrArg (· + 1) hcount
    · exact Nat.le_of_eq hcount

theorem hfree_index (h : hfree s p = some s') :
    s'.kheap.start_address = s.kheap.start_address ∧ s'.kheap.index.array = s.kheap.index.array ∧
      if p ≠ 0 ∧ leftIsHole (setIsHole s.memory (headerFor p) 1) (headerFor p) = false ∧
        rightIsHole (setIsHole s.memory (headerFor p) 1) (footerFor s.memory p) = false then
        s'.kheap.index.size = s.kheap.index.size + 1
      else s'.kheap.index.size ≤ s.kheap.index.size := by
  unfold hfree at h
  split at h
  · rename_i hp
    cases h
    exact ⟨rfl, rfl, by rw [if_neg fun h => h.1 hp]⟩
  · rename_i hp
    obtain ⟨-, h⟩ := ite_none_right_eq_some.1 h
    have hindex := release_index h
    simp only [hp, ne_eq, not_false_eq_true, true_and]
    exact hindex

/-- **The step.** The array stays where it is, and an index within its bound keeps it where the request fits, and only
there. -/
theorem index_of_step (hs : kernelRequests.step r c = some r') :
    r'.kheap.start_address = r.kheap.start_address ∧ r'.kheap.index.array = r.kheap.index.array ∧
      (r.kheap.index.size ≤ HEAP_INDEX_SIZE → (r'.kheap.index.size ≤ HEAP_INDEX_SIZE ↔ c.indexFits r)) := by
  obtain ⟨hlegal, hs⟩ := ite_none_right_eq_some.1 hs
  cases c with
  | memoryAlloc size page_align =>
    obtain ⟨⟨p, s⟩, halloc, rfl⟩ := map_eq_some_iff.1 hs
    obtain ⟨hstart, harray, i, hfind, hcount⟩ := memoryAlloc_index halloc
    refine ⟨hstart, harray, fun h => ?_⟩
    have hfits : (Request.memoryAlloc size page_align).indexFits r ↔
        (page_align ≠ 0 ∧ lookupOrderedArray r.memory i r.kheap.index / PAGE_SIZE ≠ 0 ∧ LeavesRest r.toState size i →
          r.kheap.index.size < HEAP_INDEX_SIZE) := by
      simp only [Request.indexFits, hfind, mem_some_iff, forall_eq', and_imp]
    rw [hfits]
    split at hcount
    · rename_i hgrows
      rw [hcount]
      exact ⟨fun h _ => h, fun h => h hgrows⟩
    · rename_i hgrows
      exact ⟨fun _ h => absurd h hgrows, fun _ => Nat.le_trans hcount h⟩
  | hfree p =>
    obtain ⟨s, hfree, rfl⟩ := map_eq_some_iff.1 hs
    obtain ⟨hstart, harray, hcount⟩ := hfree_index hfree
    refine ⟨hstart, harray, fun h => ?_⟩
    split at hcount
    · rename_i hgrows
      rw [hcount]
      exact ⟨fun h _ _ _ => h, fun h => h hgrows.1 hgrows.2.1 hgrows.2.2⟩
    · rename_i hgrows
      exact ⟨fun _ hp hleft hright => absurd ⟨hp, hleft, hright⟩ hgrows, fun _ => Nat.le_trans hcount h⟩
  | store a v =>
    cases hs
    exact ⟨rfl, rfl, fun h => iff_of_true h trivial⟩

theorem step_kernel (hc : c.legal r) (h : request r c = some r') : kernelRequests.step r c = some r' :=
  (if_pos hc).trans h

theorem kernel_init (h : kernelRequests.init r) : r.kheap.index.array = kHeapBase ∧ r.kheap.index.size = 1 ∧
    r.kheap.start_address = kHeapBase + 4 * HEAP_INDEX_SIZE + PAGE_SIZE := by
  obtain ⟨m, index, hcreate, hlive, hfresh⟩ := h
  obtain ⟨hinv, -⟩ := createKernelHeap_spec (by decide) (by decide) hcreate
  refine ⟨?_, ?_, hinv.laid.1.symm⟩
  · obtain ⟨-, hcreate⟩ := ite_none_right_eq_some.1 hcreate
    rw [← Option.some.inj hcreate]
  · exact (length_words _ _ _).symm.trans hinv.index.length_eq

theorem kernel_reach (h : kernelRequests.Reach r) :
    r.kheap.index.array = kHeapBase ∧ r.kheap.start_address = kHeapBase + 4 * HEAP_INDEX_SIZE + PAGE_SIZE := by
  refine StepSystem.Reach.invariant (fun r => r.kheap.index.array = kHeapBase ∧
    r.kheap.start_address = kHeapBase + 4 * HEAP_INDEX_SIZE + PAGE_SIZE) (fun r h => ?_) (fun r c r' hI hs => ?_) h
  · obtain ⟨harray, -, hstart⟩ := kernel_init h
    exact ⟨harray, hstart⟩
  · obtain ⟨hstart, harray, -⟩ := index_of_step hs
    exact ⟨harray.trans hI.1, hstart.trans hI.2⟩

/-- **The capacity.** In every run of the kernel's heap whose requests have room for the entries they make the array
stays in its place, and the next request keeps it there if and only if it has room. -/
theorem index_capacity (h : kernelRequests.ReachVia (fun r c => c.indexFits r) r) :
    IndexRight r ∧ ∀ c r', kernelRequests.step r c = some r' → (IndexRight r' ↔ c.indexFits r) := by
  have hplaced : ∀ {r}, kernelRequests.Reach r → r.kheap.index.array + 4 * HEAP_INDEX_SIZE ≤ r.kheap.start_address := by
    intro r hr
    obtain ⟨harray, hstart⟩ := kernel_reach hr
    omega
  have hsize : r.kheap.index.size ≤ HEAP_INDEX_SIZE := by
    refine StepSystem.ReachVia.invariant (fun r => r.kheap.index.size ≤ HEAP_INDEX_SIZE) (fun r h => ?_)
      (fun r c r' hI hc hs => ?_) h
    · rw [(kernel_init h).2.1]
      decide
    · exact ((index_of_step hs).2.2 hI).2 hc
  refine ⟨⟨hsize, hplaced h.reach⟩, fun c r' hs => ?_⟩
  have hstep := (index_of_step hs).2.2 hsize
  exact ⟨fun h => hstep.1 h.bounded, fun hc => ⟨hstep.2 hc, hplaced (.step h.reach trivial hs)⟩⟩

def kernelHeap (m : Memory) : Option Run :=
  (createKernelHeap ⟨m, ⟨⟨0, 0, 0⟩, 0, 0⟩, 0⟩ kHeapBase kHeapTop).map fun s => ⟨s, [], true⟩

theorem kernelHeap_init (h : kernelHeap m = some r) : kernelRequests.init r := by
  obtain ⟨s, hs, rfl⟩ := map_eq_some_iff.1 h
  exact ⟨m, ⟨0, 0, 0⟩, hs, rfl, rfl⟩

/-- A block on a page, one behind it, and the first is freed. -/
theorem index_capacity_run : ∃ r₀ r, kernelHeap (fun _ => 0) = some r₀ ∧
    kernelRequests.exec r₀ [.memoryAlloc 100 1, .memoryAlloc 40 0, .hfree 0xc0186000] = some r ∧
    IndexRight r ∧ ∀ c r', kernelRequests.step r c = some r' → (IndexRight r' ↔ c.indexFits r) := by
  have hcreate : (kernelHeap fun _ => 0).isSome := by decide +kernel
  have hrun : ((kernelHeap fun _ => 0).bind fun r =>
      kernelRequests.exec r [.memoryAlloc 100 1, .memoryAlloc 40 0, .hfree 0xc0186000]).isSome := by decide +kernel
  have hmeets : (kernelHeap fun _ => 0).elim True fun r => kernelRequests.Meets (fun r c => c.indexFits r) r
      [.memoryAlloc 100 1, .memoryAlloc 40 0, .hfree 0xc0186000] := by decide +kernel
  obtain ⟨r₀, h₀⟩ := Option.isSome_iff_exists.1 hcreate
  rw [h₀] at hrun hmeets
  obtain ⟨r, hr⟩ := Option.isSome_iff_exists.1 hrun
  exact ⟨r₀, r, h₀, hr, index_capacity (StepSystem.reachVia_exec _ (.init (kernelHeap_init h₀)) hmeets hr)⟩

/-! ## Twice as many blocks as the index has entries -/

theorem RunInv.index_size (h : RunInv r blocks) : r.kheap.index.size = (holeHeaders blocks).length :=
  (length_words _ _ _).symm.trans h.heap.index.length_eq

theorem holeHeaders_live (h : ∀ b ∈ blocks, b.hole = false) : holeHeaders blocks = [] := by
  induction blocks with
  | nil => rfl
  | cons b blocks ih => rw [holeHeaders_cons_live (h b (by simp)), ih fun c hc => h c (by simp [hc])]

theorem eq_last {taken : List Block} {big : Block} (htaken : ∀ b ∈ taken, b.hole = false) (hb : b.hole = true)
    (h : taken ++ [big] = left ++ b :: right) : left = taken ∧ b = big ∧ right = [] := by
  induction taken generalizing left with
  | nil =>
    obtain ⟨rfl, rfl⟩ := eq_nil_of_singleton h.symm
    exact ⟨rfl, (List.cons.inj h).1.symm, rfl⟩
  | cons c taken ih =>
    cases left with
    | nil =>
      have hc := htaken c (by simp)
      rw [(List.cons.inj h).1, hb] at hc
      cases hc
    | cons d left =>
      obtain ⟨hcd, h⟩ := List.cons.inj h
      obtain ⟨rfl, hbig, hright⟩ := ih (fun b hb => htaken b (by simp [hb])) h
      exact ⟨by rw [hcd], hbig, hright⟩

theorem exists_taken (hn : kHeapBase + 4 * HEAP_INDEX_SIZE + PAGE_SIZE + 21 * n + 20 ≤ kHeapTop) :
    ∃ r taken big, kernelRequests.Reach r ∧ RunInv r (taken ++ [big]) ∧ taken.length = n ∧ (∀ b ∈ taken, b.hole = false) ∧
      big.hole = true ∧ kHeapBase + 4 * HEAP_INDEX_SIZE + PAGE_SIZE + 21 * n + big.size = kHeapTop := by
  induction n with
  | zero =>
    have hcreate : (kernelHeap fun _ => 0).isSome := rfl
    obtain ⟨r, hr⟩ := isSome_iff_exists.1 hcreate
    have hinit := kernelHeap_init hr
    obtain ⟨m, index, hcreate, hlive, hfresh⟩ := id hinit
    obtain ⟨hinv, hused⟩ := createKernelHeap_spec (by decide) (by decide) hcreate
    refine ⟨r, [], _, .init hinit, ⟨by rw [hfresh]; exact hinv, fun _ => ⟨_, rfl, rfl⟩, ?_, hused.trans ?_⟩, rfl,
      nofun, rfl, rfl⟩
    · rw [hlive]
      exact List.Perm.refl _
    · rfl
  | succ n ih =>
    obtain ⟨r, taken, big, hreach, hinv, hlen, htaken, hbig, hsize⟩ := ih (by omega)
    have hbigSize : sizeOf r.memory big.header = big.size := (hinv.heap.sides hinv.sides_nil).2.1.size
    have hentry : big.header ∈ entries r.memory r.kheap.index := hinv.heap.index.symm.subset (by
      rw [holeHeaders_append, holeHeaders_cons_hole hbig]
      simp)
    have hcan : (Call.memoryAlloc 1).canRun r := ⟨big.header, hentry, by
      rw [hbigSize]
      unfold sizeofHeader sizeofFooter
      omega⟩
    have hlegal : (Call.memoryAlloc 1).legal r := show 1 + sizeofHeader + sizeofFooter < 2 ^ 32 by decide
    have hfits : (Call.memoryAlloc 1).fits r := trivial
    obtain ⟨r', hr'⟩ := isSome_iff_exists.1 (isSome_step hinv hlegal hfits hcan)
    obtain ⟨-, hr'⟩ := ite_none_right_eq_some.1 hr'
    obtain ⟨⟨p, s⟩, halloc, rfl⟩ := map_eq_some_iff.1 hr'
    obtain ⟨left, b, right, i, heq, hhole, -, -, -, -, hinv', -⟩ := runInv_memoryAlloc hinv (.inl (by decide)) halloc
    obtain ⟨rfl, rfl, rfl⟩ := eq_last htaken hhole heq
    have hstep : kernelRequests.step r (.memoryAlloc 1 0) = some ⟨s, p :: r.live, false⟩ :=
      step_kernel ⟨by decide, by decide⟩ (by simp only [request, halloc, map_some])
    rw [takeBlocks_split (by omega), append_nil] at hinv'
    refine ⟨_, left ++ [⟨b.header, 21, false⟩], ⟨b.header + 21, b.size - 21, true⟩, .step hreach trivial hstep, ?_,
      ?_, ?_, rfl, ?_⟩
    · simpa using hinv'
    · rw [length_append, hlen, length_singleton]
    · intro c hc
      rcases mem_append.1 hc with hc | hc
      · exact htaken c hc
      · rw [mem_singleton.1 hc]
    · dsimp only
      omega

theorem JoinedLeft.of_live {left' : List Block} {c : Block} {do_add : Bool}
    (h : JoinedLeft b (left ++ [x]) left' c do_add) (hx : x.hole = false) : left' = left ++ [x] ∧ c = b := by
  generalize hl : left ++ [x] = l at h
  cases h with
  | stays => exact ⟨rfl, rfl⟩
  | joins hhole =>
    obtain ⟨-, hx'⟩ := append_inj' hl rfl
    rw [(List.cons.inj hx').1, hhole] at hx
    cases hx

theorem JoinedRight.of_live {right' : List Block} {c c' : Block} {joined : Bool}
    (h : JoinedRight c (z :: right) right' c' joined) (hz : z.hole = false) : right' = z :: right ∧ c' = c := by
  cases h with
  | stays => exact ⟨rfl, rfl⟩
  | joins hhole =>
    rw [hhole] at hz
    cases hz

theorem hfree_between {y : Block} (h : RunInv r (left ++ x :: y :: z :: right)) (hx : x.hole = false)
    (hy : y.hole = false) (hz : z.hole = false)
    (hroom : r.kheap.index.array + 4 * (r.kheap.index.size + 1) ≤ r.kheap.start_address) :
    ∃ r', kernelRequests.step r (.hfree y.pointer) = some r' ∧
      RunInv r' (left ++ x :: { y with hole := true } :: z :: right) := by
  have hlegal : y.pointer ∈ r.live := h.live.symm.subset (List.mem_map.2 ⟨y, mem_filter.2 ⟨by simp, by simp [hy]⟩, rfl⟩)
  obtain ⟨-, -, -, -, -, -, hfresh⟩ := h.block_of hlegal
  rw [append_cons] at h
  obtain ⟨hleft, hhead, hright⟩ := h.heap.sides h.sides_nil
  obtain ⟨-, -, -, hysize, htop⟩ := h.heap.bounds (b := y) (by simp)
  have hheader := headerFor_pointer htop hysize
  have hfooter := footerFor_pointer hhead htop
  have hfits : (Call.hfree y.pointer).fits r := by
    show ReleaseFits _ _ _ _
    rw [hheader, hfooter]
    refine ⟨fun hfirst => ?_, fun hlast => ?_, .inl hroom⟩
    · obtain ⟨hstart, hend, hsize⟩ := hleft.bounds x (by simp)
      unfold Block.fin at hend
      omega
    · obtain ⟨hstart, hend, hsize⟩ := hright.bounds z (by simp)
      have hyfooter : y.footer = y.header + y.size - 8 := rfl
      unfold sizeofFooter at hlast
      unfold Block.fin at hstart hend
      omega
  obtain ⟨s, left', c', right', hfree, hinv, ⟨c, do_add, joined, hjoinLeft, hjoinRight, -⟩, -⟩ :=
    hfree_spec h hy hfresh hfits
  obtain ⟨rfl, rfl⟩ := hjoinLeft.of_live hx
  obtain ⟨rfl, rfl⟩ := hjoinRight.of_live hz
  refine ⟨⟨s, r.live.erase y.pointer, r.fresh⟩, step_kernel hlegal ?_, by simpa using hinv⟩
  simp only [request, perform, hfree, map_some]

theorem exists_holes {k : Nat} (hn : kHeapBase + 4 * HEAP_INDEX_SIZE + PAGE_SIZE + 21 * (2 * n + 1) + 20 ≤ kHeapTop)
    (hk : k ≤ n) (hroom : n ≤ HEAP_INDEX_SIZE) :
    ∃ r left x right big, kernelRequests.Reach r ∧ RunInv r (left ++ x :: (right ++ [big])) ∧ x.hole = false ∧
      (∀ b ∈ right, b.hole = false) ∧ big.hole = true ∧ right.length + 2 * k = 2 * n ∧ (holeHeaders left).length = k := by
  induction k with
  | zero =>
    obtain ⟨r, taken, big, hreach, hinv, hlen, htaken, hbig, -⟩ := exists_taken hn
    cases taken with
    | nil => cases hlen
    | cons x right =>
      refine ⟨r, [], x, right, big, hreach, hinv, htaken x (by simp), fun b hb => htaken b (by simp [hb]), hbig, ?_, rfl⟩
      rw [length_cons] at hlen
      omega
  | succ k ih =>
    obtain ⟨r, left, x, right, big, hreach, hinv, hx, hright, hbig, hlen, hholes⟩ := ih (by omega)
    obtain ⟨harray, hstart⟩ := kernel_reach hreach
    have hsize : r.kheap.index.size = k + 1 := by
      rw [hinv.index_size, holeHeaders_append, holeHeaders_cons_live hx, holeHeaders_append, holeHeaders_live hright,
        holeHeaders_cons_hole hbig, length_append, hholes]
      rfl
    match right, hright, hlen with
    | [], _, hlen | [_], _, hlen =>
      simp only [length_nil, length_singleton] at hlen
      omega
    | y :: z :: right, hright, hlen =>
      have hy : y.hole = false := hright y (by simp)
      have hz : z.hole = false := hright z (by simp)
      obtain ⟨r', hstep, hinv'⟩ := hfree_between hinv hx hy hz (by
        unfold HEAP_INDEX_SIZE PAGE_SIZE at *
        omega)
      refine ⟨r', left ++ [x, { y with hole := true }], z, right, big, .step hreach trivial hstep, by simpa using hinv', hz,
        fun b hb => hright b (by simp [hb]), hbig, ?_, ?_⟩
      · simp only [length_cons] at hlen
        omega
      · rw [holeHeaders_append, length_append, hholes, holeHeaders_cons_live hx, holeHeaders_cons_hole rfl]
        rfl

/-- 262145 blocks of one byte are taken from the fresh heap, and every second one is freed. -/
theorem index_outgrown : ¬ ∀ r, kernelRequests.Reach r → r.kheap.index.size ≤ HEAP_INDEX_SIZE := by
  intro h
  obtain ⟨r, left, x, right, big, hreach, hinv, hx, hright, hbig, -, hholes⟩ :=
    exists_holes (n := HEAP_INDEX_SIZE) (by decide) (Nat.le_refl _) (Nat.le_refl _)
  have hsize := h r hreach
  rw [hinv.index_size, holeHeaders_append, holeHeaders_cons_live hx, holeHeaders_append, holeHeaders_live hright,
    holeHeaders_cons_hole hbig, List.length_append, hholes] at hsize
  exact absurd hsize (Nat.not_succ_le_self HEAP_INDEX_SIZE)

end KHeap
