import Mathlib.Order.CompletePartialOrder
import Mathlib.Data.Set.BooleanAlgebra
import Mathlib.Algebra.Order.BigOperators.Group.List
import Mathlib.Algebra.Order.Group.Nat
import SkyOS.Heap.HeapCalls

/-!
# Every run of the kernel heap

Between calls the heap is laid out in blocks, the index holds its holes, and the users hold the rest
(`RunInv`). Two reads and one write of the heap's code go past these structures: `hfree` looks to the left of
the first block and to the right of the last one, where anything may lie, and `insert_ordered_array` never
looks at `max_size`. `Call.fits` is that a call meets none of the three, and `heap_tiled` that runs of such
calls keep the heap right.
-/

namespace KHeap

open Machine Bytes OrderedArrays List Option

structure RunInv (r : Run) (blocks : List Block) : Prop where
  heap : HeapInv r.memory r.kheap (!r.fresh) blocks [] []
  fresh : r.fresh = true → ∃ b, blocks = [b] ∧ b.hole = true
  live : r.live.Perm ((liveBlocks blocks).map (·.pointer))
  used : r.g_usedHeapSize = ((liveBlocks blocks).map (·.size)).sum

def Call.fits (r : Run) : Call → Prop
  | .hfree p => ReleaseFits r.memory r.kheap (headerFor p) (footerFor r.memory p)
  | .memoryAlloc _ | .store .. => True

instance (m : Memory) (heap : Heap) (header footer : Nat) : Decidable (ReleaseFits m heap header footer) :=
  inferInstanceAs (Decidable ((_ → _) ∧ (_ → _) ∧ (_ ∨ _ ∨ _)))

instance (r : Run) : (c : Call) → Decidable (c.fits r)
  | .hfree _ => inferInstanceAs (Decidable (ReleaseFits _ _ _ _))
  | .memoryAlloc _ | .store .. => .isTrue trivial

/-! ## The start -/

variable {s : State} {r : Run} {m : Memory} {size p : Nat} {footed : Bool} {blocks left right : List Block} {b : Block}

variable {s' : State} {index : OrderedArray} {iterator n i a v : Nat} {heap : Heap} {c : Block}

theorem createKernelHeap_spec {start end_addr : Nat} (hroom : start + 4 * HEAP_INDEX_SIZE + PAGE_SIZE < end_addr)
    (htop : end_addr < 2 ^ 32) (h : createKernelHeap s start end_addr = some s') :
    HeapInv s'.memory s'.kheap false [⟨start + 4 * HEAP_INDEX_SIZE + PAGE_SIZE,
      end_addr - (start + 4 * HEAP_INDEX_SIZE + PAGE_SIZE), true⟩] [] [] ∧ s'.g_usedHeapSize = s.g_usedHeapSize := by
  obtain ⟨⟨hstart, hend⟩, h⟩ := ite_none_right_eq_some.1 h
  unfold PAGE_SIZE HEAP_INDEX_SIZE at *
  have hbase : u32 (start + 4 * 0x20000) = start + 4 * 0x20000 := u32_of_lt (by omega)
  have haligned : (if (start + 4 * 0x20000) / 0x1000 ≠ 0 then u32 ((start + 4 * 0x20000) / 0x1000 * 0x1000 + 0x1000)
      else start + 4 * 0x20000) = start + 4 * 0x20000 + 0x1000 := by
    rw [if_pos (by omega), u32_of_lt (by omega)]
    omega
  have hsize : sub32 end_addr (start + 4 * 0x20000 + 0x1000) = end_addr - (start + 4 * 0x20000 + 0x1000) :=
    sub32_of_le (by omega) htop
  simp only [placeOrderedArray, hbase, haligned, hsize] at h
  generalize hblk : (⟨start + 4 * 0x20000 + 0x1000, end_addr - (start + 4 * 0x20000 + 0x1000), true⟩ : Block) = b at *
  have hheader : b.header = start + 4 * 0x20000 + 0x1000 := by rw [← hblk]
  have hbsize : b.size = end_addr - (start + 4 * 0x20000 + 0x1000) := by rw [← hblk]
  have hhole : b.hole = true := by rw [← hblk]
  rw [← hbsize, ← hheader] at h
  have hhead := headed_writeHeader (fill s.memory start 0 (4 * 0x20000)) b (by omega) (by omega)
  rw [hhole] at hhead
  have hpending : HeapInv (writeHeader (fill s.memory start 0 (4 * 0x20000)) b.header 1 b.size)
      ⟨⟨start, 0, 0x20000⟩, b.header, end_addr⟩ false [b] [b.header] [] := by
    refine ⟨⟨rfl, hhead, nofun, ?_⟩, ?_, ?_, ?_, htop⟩
    · show b.header + b.size = end_addr
      omega
    · rw [holeHeaders_cons_hole hhole]
      exact List.Perm.refl _
    · show start + 4 * 0 ≤ b.header
      omega
    · show 12 ≤ b.header
      omega
  obtain ⟨m', index', hinsert, hinv, -⟩ := hpending.insert (by omega) (by
    show start + 4 * (0 + 1) ≤ b.header
    omega)
  have hinsert' : insertOrderedArray header_t_less_than
      (writeHeader (fill s.memory start 0 (4 * 0x20000)) b.header 1 b.size) b.header
        ⟨start, 0, 0x20000⟩ = (m', index') := hinsert
  rw [hinsert'] at h
  cases h
  exact ⟨hinv, rfl⟩

theorem runInv_init (h : system.init r) : ∃ blocks, RunInv r blocks := by
  obtain ⟨m, index, start, end_addr, hroom, htop, hcreate, hlive, hfresh⟩ := h
  obtain ⟨hinv, hused⟩ := createKernelHeap_spec hroom htop hcreate
  refine ⟨_, ⟨by rw [hfresh]; exact hinv, fun _ => ⟨_, rfl, rfl⟩, ?_, hused.trans ?_⟩⟩
  · rw [hlive]
    exact List.Perm.refl _
  · rfl

/-! ## Allocation -/

theorem findFrom_spec
    (h : findFrom m size 0 index iterator n = some i) :
    i < iterator + n ∧ size ≤ sizeOf m (lookupOrderedArray m i index) := by
  induction n generalizing iterator with
  | zero => cases h
  | succ n ih =>
    unfold findFrom at h
    split at h
    · rename_i hfits
      cases h
      exact ⟨by omega, by simpa [fits] using hfits⟩
    · obtain ⟨hi, hsize⟩ := ih h
      exact ⟨by omega, hsize⟩

theorem findFrom_isSome
    (h : ∃ i, iterator ≤ i ∧ i < iterator + n ∧ size ≤ sizeOf m (lookupOrderedArray m i index)) :
    (findFrom m size 0 index iterator n).isSome := by
  induction n generalizing iterator with
  | zero =>
    obtain ⟨i, h1, h2, -⟩ := h
    omega
  | succ n ih =>
    unfold findFrom
    split
    · rfl
    · rename_i hfits
      obtain ⟨i, h1, h2, h3⟩ := h
      refine ih ⟨i, ?_, by omega, h3⟩
      rcases Nat.eq_or_lt_of_le h1 with rfl | hlt
      · exact absurd (by simpa [fits] using h3) hfits
      · exact hlt

theorem HeapInv.hole_at
    (h : HeapInv m heap footed blocks [] []) (hi : i < heap.index.size) :
    ∃ left b right, blocks = left ++ b :: right ∧ b.hole = true ∧ lookupOrderedArray m i heap.index = b.header := by
  have hmem : lookupOrderedArray m i heap.index ∈ entries m heap.index := (mem_entries_iff _ _ _).2 ⟨i, hi, rfl⟩
  obtain ⟨b, hb, hhole, hheader⟩ := mem_holeHeaders (h.index.subset hmem)
  obtain ⟨left, right, rfl⟩ := append_of_mem hb
  exact ⟨left, b, right, rfl, hhole, hheader.symm⟩

theorem eq_nil_of_singleton (h : left ++ b :: right = [c]) : left = [] ∧ right = [] := by
  rcases append_eq_singleton_iff.1 h with ⟨rfl, hbc⟩ | ⟨-, hbc⟩
  · exact ⟨rfl, (List.cons.inj hbc).2⟩
  · cases hbc

theorem RunInv.sides_nil (h : RunInv r (left ++ b :: right))
    (hf : (!r.fresh) = false) : left = [] ∧ right = [] := by
  obtain ⟨c, hc, -⟩ := h.fresh (by simpa using hf)
  exact eq_nil_of_singleton hc

theorem liveBlocks_takeBlocks (b : Block) (new_size : Nat) :
    liveBlocks (takeBlocks b new_size) = [⟨b.header, takenSize b new_size, false⟩] := by
  unfold takeBlocks takenSize
  split <;> rfl

theorem HeapInv.sum_live {pending stale : List Nat}
    (h : HeapInv m heap footed blocks pending stale) : ((liveBlocks blocks).map (·.size)).sum < 2 ^ 32 := by
  have hsum := h.laid.sum_size
  have hle : ((liveBlocks blocks).map (·.size)).sum ≤ (blocks.map (·.size)).sum :=
    List.Sublist.sum_le_sum ((filter_sublist (p := fun b : Block => !b.hole)).map _) fun _ _ => Nat.zero_le _
  have htop := h.top
  omega

theorem RunInv.taken {new : List Block} (h : RunInv r (left ++ b :: right))
    (hhole : b.hole = true) (hinv : HeapInv s.memory s.kheap true (left ++ new ++ right) [] [])
    (hnew : liveBlocks new = [c])
    (hused : s.g_usedHeapSize = u32 (r.g_usedHeapSize + c.size)) :
    RunInv ⟨s, c.pointer :: r.live, false⟩ (left ++ new ++ right) := by
  have hlive : liveBlocks (left ++ new ++ right) = liveBlocks left ++ c :: liveBlocks right := by
    rw [liveBlocks_append, liveBlocks_append, hnew, append_assoc, singleton_append]
  have hbefore : liveBlocks (left ++ b :: right) = liveBlocks left ++ liveBlocks right := by
    rw [liveBlocks_append, liveBlocks_cons_hole hhole]
  refine ⟨hinv, nofun, ?_, ?_⟩
  · have hperm := h.live
    rw [hbefore, map_append] at hperm
    rw [hlive, map_append, map_cons]
    exact (hperm.cons _).trans perm_middle.symm
  · have hsum := hinv.sum_live
    have hold := h.used
    rw [hlive, map_append, map_cons, sum_append, sum_cons] at hsum ⊢
    rw [hbefore, map_append, sum_append] at hold
    refine hused.trans ?_
    rw [hold, u32_of_lt (by omega)]
    omega

/-- The size fits a word with its header and footer, or the hole that is found goes whole. -/
def TakesHole (s : State) (size : Nat) : Prop :=
  size + sizeofHeader + sizeofFooter < 2 ^ 32 ∨
    ∀ i, findSmallestHole s.memory (u32 (size + sizeofHeader + sizeofFooter)) 0 s.kheap = some i →
      sizeOf s.memory (lookupOrderedArray s.memory i s.kheap.index) < u32 (size + sizeofHeader + sizeofFooter) + 20

theorem memoryAlloc_spec (h : HeapInv s.memory s.kheap footed blocks [] [])
    (hfresh : footed = false → ∃ b, blocks = [b]) (hfits : TakesHole s size)
    (hs : memoryAlloc s size 0 = some (p, s')) :
    ∃ left b right i, blocks = left ++ b :: right ∧ b.hole = true ∧ p = b.pointer ∧
      findFrom s.memory (u32 (size + 20)) 0 s.kheap.index 0 s.kheap.index.size = some i ∧
      lookupOrderedArray s.memory i s.kheap.index = b.header ∧ u32 (size + 20) ≤ b.size ∧
      HeapInv s'.memory s'.kheap true (left ++ takeBlocks b (size + 20) ++ right) [] [] ∧
      s'.g_usedHeapSize = u32 (s.g_usedHeapSize + takenSize b (size + 20)) ∧
      s'.kheap.start_address = s.kheap.start_address ∧ s'.kheap.end_address = s.kheap.end_address ∧
      entries s'.memory s'.kheap.index = takeEntries (bySize s'.memory) (entries s.memory s.kheap.index) i b
      (size + 20) := by
  obtain ⟨i, hfind, hs⟩ := map_eq_some_iff.1 hs
  replace hfind : findFrom s.memory (u32 (size + 20)) 0 s.kheap.index 0 s.kheap.index.size = some i := hfind
  replace hs : allocFrom s i size (u32 (size + 20)) 0 = (p, s') := hs
  obtain ⟨hi, hfit⟩ := findFrom_spec hfind
  rw [Nat.zero_add] at hi
  obtain ⟨left, b, right, rfl, hhole, hlook⟩ := h.hole_at hi
  have hsides : footed = false → left = [] ∧ right = [] := fun hf => (hfresh hf).elim fun _ => eq_nil_of_singleton
  obtain ⟨-, -, -, hroom, htop⟩ := h.bounds (b := b) (by simp)
  have hfin : b.fin = b.header + b.size := rfl
  have hsize : sizeOf s.memory b.header = b.size := (h.sides hsides).2.1.size
  rw [hlook, hsize] at hfit
  -- a wrapped size is that of the whole hole
  obtain ⟨n, hn, htake, hblocks, htaken, hentriesEq⟩ : ∃ n, n + 20 ≤ b.size ∧ allocFrom s i size (u32 (size + 20)) 0 =
      allocFrom s i n (n + 20) 0 ∧ takeBlocks b (n + 20) = takeBlocks b (size + 20) ∧
      takenSize b (n + 20) = takenSize b (size + 20) ∧
      ∀ m, takeEntries (bySize m) (entries s.memory s.kheap.index) i b (n + 20) =
        takeEntries (bySize m) (entries s.memory s.kheap.index) i b (size + 20) := by
    by_cases hlt : size + 20 < 2 ^ 32
    · rw [u32_of_lt hlt] at hfit ⊢
      exact ⟨size, hfit, rfl, rfl, rfl, fun _ => rfl⟩
    · have hsmall : b.size < u32 (size + 20) + 20 := by
        have hwhole := hfits.resolve_left hlt i hfind
        rwa [hlook, hsize] at hwhole
      have hback : b.size - 20 + 20 = b.size := Nat.sub_add_cancel hroom
      refine ⟨b.size - 20, by omega, ?_, ?_, ?_, fun m => ?_⟩
      · rw [hback]
        exact allocFrom_whole hlook hsize hfit hsmall hroom (by omega)
      · rw [takeBlocks_small (by omega), takeBlocks_small (by omega)]
      · rw [takenSize, takenSize, if_pos (by omega), if_pos (by omega)]
      · rw [takeEntries, takeEntries, if_pos (by omega), if_pos (by omega)]
  rw [htake] at hs
  obtain ⟨s'', halloc, hinv, hstart, hend, hused, hentries⟩ := allocFrom_spec h hsides hi hlook hhole hn
  rw [halloc] at hs
  cases hs
  rw [hblocks] at hinv
  rw [htaken] at hused
  rw [hentriesEq] at hentries
  exact ⟨left, b, right, i, rfl, hhole, rfl, hfind, hlook, hfit, hinv, hused, hstart, hend, hentries⟩

theorem runInv_memoryAlloc (h : RunInv r blocks)
    (hfits : TakesHole r.toState size) (hs : memoryAlloc r.toState size 0 = some (p, s)) :
    ∃ left b right i, blocks = left ++ b :: right ∧ b.hole = true ∧ p = b.pointer ∧
      findFrom r.memory (u32 (size + 20)) 0 r.kheap.index 0 r.kheap.index.size = some i ∧
      lookupOrderedArray r.memory i r.kheap.index = b.header ∧ u32 (size + 20) ≤ b.size ∧
      RunInv ⟨s, p :: r.live, false⟩ (left ++ takeBlocks b (size + 20) ++ right) ∧
      s.kheap.start_address = r.kheap.start_address ∧ s.kheap.end_address = r.kheap.end_address ∧
      entries s.memory s.kheap.index = takeEntries (bySize s.memory) (entries r.memory r.kheap.index) i b (size + 20) := by
  have hfresh : (!r.fresh) = false → ∃ b, blocks = [b] := fun hf => (h.fresh (by simpa using hf)).imp fun _ hb => hb.1
  obtain ⟨left, b, right, i, rfl, hhole, rfl, hfind, hlook, hfit, hinv, hused, hkept⟩ :=
    memoryAlloc_spec h.heap hfresh hfits hs
  exact ⟨left, b, right, i, rfl, hhole, rfl, hfind, hlook, hfit,
    h.taken (c := ⟨b.header, takenSize b (size + 20), false⟩) hhole
    hinv (liveBlocks_takeBlocks b (size + 20)) hused, hkept⟩

/-! ## Release -/

theorem RunInv.block_of (h : RunInv r blocks) (hp : p ∈ r.live) :
    ∃ left b right, blocks = left ++ b :: right ∧ b.hole = false ∧ p = b.pointer ∧ r.fresh = false := by
  obtain ⟨b, hb, rfl⟩ := List.mem_map.1 (h.live.subset hp)
  obtain ⟨hmem, hlive⟩ := mem_filter.1 hb
  have hhole : b.hole = false := by simpa using hlive
  obtain ⟨left, right, rfl⟩ := append_of_mem hmem
  refine ⟨left, b, right, rfl, hhole, rfl, ?_⟩
  by_contra hfresh
  obtain ⟨c, hc, hchole⟩ := h.fresh (by simpa using hfresh)
  rw [hc, mem_singleton] at hmem
  rw [hmem, hchole] at hhole
  cases hhole

theorem headerFor_pointer (hlt : b.fin < 2 ^ 32) (hroom : 20 ≤ b.size) : headerFor b.pointer = b.header := by
  have hfin : b.fin = b.header + b.size := rfl
  unfold headerFor Block.pointer sizeofHeader
  rw [sub32_of_le (by omega) (by omega), Nat.add_sub_cancel]

theorem footerFor_pointer (hhead : Headed m b) (hlt : b.fin < 2 ^ 32) :
    footerFor m b.pointer = b.footer := by
  have hroom := hhead.room
  have hfin : b.fin = b.header + b.size := rfl
  rw [footerFor, headerFor_pointer hlt hroom, hhead.size, u32_of_lt (by omega),
    sub32_of_le (by unfold sizeofFooter; omega) (by omega)]
  rfl

theorem hfree_spec (h : RunInv r (left ++ b :: right))
    (hb : b.hole = false) (hfresh : r.fresh = false) (hfits : (Call.hfree b.pointer).fits r) :
    ∃ s left' c' right', hfree r.toState b.pointer = some s ∧
      RunInv ⟨s, r.live.erase b.pointer, r.fresh⟩ (left' ++ c' :: right') ∧
      Released r.toState s left { b with hole := true } right left' c' right' ∧
      s.kheap.start_address = r.kheap.start_address ∧ s.kheap.end_address = r.kheap.end_address := by
  have hheap := h.heap
  rw [hfresh] at hheap
  obtain ⟨hleft, hhead, hright⟩ := hheap.sides nofun
  obtain ⟨hlow, hstart, hend, hroom, htop⟩ := hheap.bounds (b := b) (by simp)
  have hfoot : Footed r.memory b := by
    obtain ⟨-, -, -, -, hfoot, -⟩ := laid_append.1 hheap.laid
    exact hfoot rfl
  have hheader := headerFor_pointer htop hroom
  have hfooter := footerFor_pointer hhead htop
  have hlive : liveBlocks (left ++ b :: right) = liveBlocks left ++ b :: liveBlocks right := by
    rw [liveBlocks_append, liveBlocks_cons_live hb]
  have hused := h.used
  have hsum := hheap.sum_live
  rw [hlive, map_append, map_cons, sum_append, sum_cons] at hused hsum
  have hless : sub32 r.g_usedHeapSize b.size = ((liveBlocks left).map (·.size)).sum +
      ((liveBlocks right).map (·.size)).sum := by
    rw [sub32_of_le (by omega) (by omega)]
    omega
  replace hfits : ReleaseFits r.memory r.kheap (headerFor b.pointer) (footerFor r.memory b.pointer) := hfits
  rw [hheader, hfooter] at hfits
  obtain ⟨s', left', c', right', hrelease, hinv, hreleased, hblocks, hsame, hstart', hend'⟩ :=
    release_spec (s := { r.toState with g_usedHeapSize := sub32 r.g_usedHeapSize b.size }) hheap hb hfits
  refine ⟨s', left', c', right', ?_, ⟨by rw [hfresh]; exact hinv, ?_, ?_, ?_⟩, hreleased, hstart', hend'⟩
  · have hne : b.pointer ≠ 0 := by
      unfold Block.pointer
      omega
    simp only [hfree, if_neg hne, hheader, hfooter, hhead.magic, hfoot.magic, hhead.size, and_self, if_true]
    exact hrelease
  · intro hf
    rw [hfresh] at hf
    cases hf
  · have hperm := h.live
    rw [hlive, map_append, map_cons] at hperm
    have herase := (hperm.trans perm_middle).erase b.pointer
    rw [erase_cons_head, ← map_append] at herase
    rw [hblocks]
    exact herase
  · show s'.g_usedHeapSize = _
    rw [hsame, hblocks, map_append, sum_append]
    exact hless

/-! ## The users and the rest of the kernel -/

theorem mallocSize_pointer (hhead : Headed m b) (hlt : b.fin < 2 ^ 32) :
    mallocSize m b.pointer = b.size - 20 := by
  have hroom := hhead.room
  have hfin : b.fin = b.header + b.size := rfl
  have hinner : sub32 b.size sizeofHeader = b.size - 12 := sub32_of_le (by unfold sizeofHeader; omega) (by omega)
  rw [mallocSize, headerFor_pointer hlt hroom, hhead.size, hinner,
    sub32_of_le (by unfold sizeofFooter; omega) (by omega), sizeofFooter]
  omega

theorem userArea_pointer (hhead : Headed m b) (hlt : b.fin < 2 ^ 32) :
    userArea m b.pointer = Set.Ico (b.header + 12) b.footer := by
  have hroom := hhead.room
  have hfin : b.fin = b.header + b.size := rfl
  have hend : b.pointer + (b.size - 20) = b.footer := by
    unfold Block.pointer Block.footer
    omega
  rw [userArea, mallocSize_pointer hhead hlt, hend]
  rfl

theorem entries_store (h : RunInv r blocks) (hlegal : (Call.store a v).legal r) :
    entries (write8 r.memory a v) r.kheap.index = entries r.memory r.kheap.index := by
  have hout : a < r.kheap.index.array ∨ r.kheap.index.array + 4 * r.kheap.index.size ≤ a := by
    have hbelow := h.heap.below
    rcases hlegal with ⟨p, hp, harea⟩ | hout
    · obtain ⟨left, c, right, rfl, hlive, rfl, hfresh⟩ := h.block_of hp
      obtain ⟨-, hcstart, -, hcroom, hctop⟩ := h.heap.bounds (b := c) (by simp)
      rw [userArea_pointer (h.heap.sides h.sides_nil).2.1 hctop, Set.mem_Ico] at harea
      omega
    · rw [Set.mem_Ico] at hout
      have := h.heap.laid.le
      omega
  exact entries_congr fun x hx => write8_of_ne _ (by rw [Set.mem_Ico] at hx; omega) v

theorem runInv_store (h : RunInv r blocks) (hlegal : (Call.store a v).legal r) :
    RunInv { r with memory := write8 r.memory a v } blocks := by
  have hends : ∀ b ∈ blocks, (a < b.header ∨ b.header + 12 ≤ a) ∧ (a < b.footer ∨ b.footer + 8 ≤ a) := by
    intro b hb
    obtain ⟨hlow, hstart, hend, hroom, htop⟩ := h.heap.bounds hb
    have hbelow := h.heap.below
    have hfin : b.fin = b.header + b.size := rfl
    have hfooter : b.footer = b.header + b.size - 8 := rfl
    rcases hlegal with ⟨p, hp, harea⟩ | hout
    · obtain ⟨left, c, right, rfl, hlive, rfl, hfresh⟩ := h.block_of hp
      obtain ⟨-, -, -, hcroom, hctop⟩ := h.heap.bounds (b := c) (by simp)
      have hcfin : c.fin = c.header + c.size := rfl
      have hcfooter : c.footer = c.header + c.size - 8 := rfl
      rw [userArea_pointer (h.heap.sides h.sides_nil).2.1 hctop, Set.mem_Ico] at harea
      have hpair := h.heap.laid.pairwise
      rw [pairwise_append, pairwise_cons] at hpair
      rcases mem_append.1 hb with hb | hb
      · have := hpair.2.2 b hb c (by simp)
        omega
      · rcases mem_cons.1 hb with rfl | hb
        · omega
        · have := hpair.2.1.1 b hb
          omega
    · rw [Set.mem_Ico] at hout
      omega
  refine ⟨⟨h.heap.laid.congr_ends fun b hb => ?_, ?_, h.heap.below, h.heap.low, h.heap.top⟩, h.fresh, h.live, h.used⟩
  · obtain ⟨hh, hf⟩ := hends b hb
    refine ⟨fun x hx => write8_of_ne _ ?_ v, fun x hx => write8_of_ne _ ?_ v⟩
    · rw [Set.mem_Ico] at hx
      omega
    · rw [Set.mem_Ico] at hx
      omega
  · show (entries (write8 r.memory a v) r.kheap.index).Perm _
    rw [entries_store h hlegal]
    exact h.heap.index

/-! ## Runs -/

theorem runInv_step {r' : Run} (h : ∃ blocks, RunInv r blocks) {c : Call} (hfits : c.fits r) (hs : step r c = some r') :
    ∃ blocks, RunInv r' blocks := by
  obtain ⟨blocks, h⟩ := h
  obtain ⟨hc, hs⟩ := ite_none_right_eq_some.1 hs
  cases c with
  | memoryAlloc size =>
    obtain ⟨⟨p, s⟩, halloc, rfl⟩ := map_eq_some_iff.1 hs
    obtain ⟨left, b, right, i, -, -, -, -, -, -, hinv, -⟩ := runInv_memoryAlloc h (Or.inl hc) halloc
    exact ⟨_, hinv⟩
  | hfree p =>
    obtain ⟨s, hfree, rfl⟩ := map_eq_some_iff.1 hs
    obtain ⟨left, b, right, rfl, hlive, rfl, hfresh⟩ := h.block_of hc
    obtain ⟨s', left', c', right', hfree', hinv, -⟩ := hfree_spec h hlive hfresh hfits
    rw [hfree] at hfree'
    cases hfree'
    exact ⟨_, hinv⟩
  | store a v =>
    cases hs
    exact ⟨blocks, runInv_store h hc⟩

theorem runInv_reachVia (h : system.ReachVia (fun r c => c.fits r) r) : ∃ blocks, RunInv r blocks :=
  StepSystem.ReachVia.invariant (fun r => ∃ blocks, RunInv r blocks) (fun _ h0 => runInv_init h0)
    (fun _ _ _ hI hP hs => runInv_step hI hP hs) h

/-- The heap is blocks from one end to the other, headed and (once one was taken) footed; the index holds the
headers of the holes, each once; the users' blocks are the others, and do not overlap. -/
structure HeapRight (r : Run) (blocks : List Block) : Prop where
  tiled : Laid r.memory (!r.fresh) blocks r.kheap.start_address r.kheap.end_address
  index : (entries r.memory r.kheap.index).Perm (holeHeaders blocks)
  once : (entries r.memory r.kheap.index).Nodup
  live : r.live.Perm ((liveBlocks blocks).map (·.pointer))
  apart : r.live.Pairwise fun p q => Disjoint (userArea r.memory p) (userArea r.memory q)
  used : r.g_usedHeapSize = ((liveBlocks blocks).map (·.size)).sum

def Call.canRun (r : Run) : Call → Prop
  | .memoryAlloc size => ∃ p ∈ entries r.memory r.kheap.index, size + sizeofHeader + sizeofFooter ≤ sizeOf r.memory p
  | .hfree _ | .store .. => True

theorem RunInv.heapRight (h : RunInv r blocks) : HeapRight r blocks := by
  have hpair := h.heap.laid.pairwise
  refine ⟨h.heap.laid, h.heap.index, ?_, h.live, ?_, h.used⟩
  · refine h.heap.index.nodup_iff.2 (pairwise_map.2 ((hpair.filter _).imp_of_mem ?_))
    intro b c hb hc hbc
    have hroom := (h.heap.bounds (mem_filter.1 hb).1).2.2.2.1
    unfold Block.fin at hbc
    omega
  · have hsymm : ∀ {p q : Nat}, Disjoint (userArea r.memory p) (userArea r.memory q) →
        Disjoint (userArea r.memory q) (userArea r.memory p) := fun hd => hd.symm
    refine (h.live.pairwise_iff hsymm).2 (pairwise_map.2 ((hpair.filter _).imp_of_mem ?_))
    intro b c hb hc hbc
    have harea : ∀ d ∈ liveBlocks blocks, userArea r.memory d.pointer = Set.Ico (d.header + 12) d.footer ∧ 20 ≤ d.size := by
      intro d hd
      have hmem := (mem_filter.1 hd).1
      obtain ⟨-, -, -, hroom, htop⟩ := h.heap.bounds hmem
      obtain ⟨left, right, -, -, hhead, -⟩ := h.heap.laid.split hmem
      exact ⟨userArea_pointer hhead htop, hroom⟩
    rw [(harea b hb).1, (harea c hc).1, Set.disjoint_left]
    intro x hxb hxc
    have h1 : x < b.fin - 8 := hxb.2
    have h2 : c.header + 12 ≤ x := hxc.1
    omega

theorem isSome_step (h : RunInv r blocks) {c : Call} (hc : c.legal r) (hfits : c.fits r)
    (hcan : c.canRun r) : (step r c).isSome := by
  rw [step, if_pos hc]
  cases c with
  | memoryAlloc size =>
    obtain ⟨p, hp, hsize⟩ := hcan
    obtain ⟨i, hi, rfl⟩ := (mem_entries_iff _ _ _).1 hp
    have hnew : u32 (size + sizeofHeader + sizeofFooter) = size + sizeofHeader + sizeofFooter := u32_of_lt hc
    have hfind : (findFrom r.memory (size + sizeofHeader + sizeofFooter) 0 r.kheap.index 0 r.kheap.index.size).isSome :=
      findFrom_isSome ⟨i, Nat.zero_le i, by omega, hsize⟩
    simp only [perform, memoryAlloc, findSmallestHole, hnew, isSome_map, hfind]
  | hfree p =>
    obtain ⟨left, b, right, rfl, hlive, rfl, hfresh⟩ := h.block_of hc
    obtain ⟨s', left', c', right', hfree', -⟩ := hfree_spec h hlive hfresh hfits
    simp only [perform, hfree', map_some, isSome_some]
  | store a v => rfl

/-- **Tiling.** In every run whose calls stay in the heap and its index, the heap is right, and a call that finds a
hole returns. -/
theorem heap_tiled {r : Run} (h : system.ReachVia (fun r c => c.fits r) r) :
    (∃ blocks, HeapRight r blocks) ∧ ∀ c : Call, c.legal r → c.fits r → c.canRun r → (step r c).isSome := by
  obtain ⟨blocks, hinv⟩ := runInv_reachVia h
  exact ⟨⟨blocks, hinv.heapRight⟩, fun c hc hfits hcan => isSome_step hinv hc hfits hcan⟩

def onePage (m : Memory) : Option Run :=
  (createKernelHeap ⟨m, ⟨⟨0, 0, 0⟩, 0, 0⟩, 0⟩ 0x1000 0x83000).map fun s => ⟨s, [], true⟩

theorem onePage_init (h : onePage m = some r) : system.init r := by
  obtain ⟨s, hs, rfl⟩ := map_eq_some_iff.1 h
  exact ⟨m, ⟨0, 0, 0⟩, 0x1000, 0x83000, by decide, by decide, hs, rfl, rfl⟩

/-- Two blocks, a byte written to the second, and both freed: the first hole joins the second from the left. -/
def twoBlocks : List Call :=
  [.memoryAlloc 16, .memoryAlloc 100, .store 0x82030 7, .hfree 0x8200c, .hfree 0x82030]

theorem heap_tiled_run : ∃ r₀ r, onePage (fun _ => 0) = some r₀ ∧ system.exec r₀ twoBlocks = some r ∧
    (∃ blocks, HeapRight r blocks) ∧ ∀ c : Call, c.legal r → c.fits r → c.canRun r → (step r c).isSome := by
  have hcreate : (onePage fun _ => 0).isSome := by decide +kernel
  have hrun : ((onePage fun _ => 0).bind fun r => system.exec r twoBlocks).isSome := by decide +kernel
  have hmeets : (onePage fun _ => 0).elim True fun r => system.Meets (fun r c => c.fits r) r twoBlocks := by decide +kernel
  obtain ⟨r₀, h₀⟩ := Option.isSome_iff_exists.1 hcreate
  rw [h₀] at hrun hmeets
  obtain ⟨r, hr⟩ := Option.isSome_iff_exists.1 hrun
  exact ⟨r₀, r, h₀, hr, heap_tiled (StepSystem.reachVia_exec twoBlocks (.init (onePage_init h₀)) hmeets hr)⟩

/-- What was in the page between the index and the heap: a footer of a hole elsewhere. -/
def staleFooter : Memory := write8 (writeFooter (fun _ => 0) 0x81ff8 0x500) 0x504 1

/-- The whole heap is taken and freed: the block joins the hole that the stale footer names, and is lost. -/
theorem stale_footer_loses_block : ¬ ∀ r, system.Reach r → ∃ blocks, HeapRight r blocks := by
  intro h
  have hcreate : (onePage staleFooter).isSome := by decide +kernel
  have hrun : ((onePage staleFooter).bind fun r => system.exec r [.memoryAlloc 0xfec, .hfree 0x8200c]).map
      (fun r => (r.kheap.index.size, r.live, r.kheap.start_address, r.kheap.end_address)) =
      some (0, [], 0x82000, 0x83000) := by decide +kernel
  obtain ⟨r₀, h₀⟩ := Option.isSome_iff_exists.1 hcreate
  rw [h₀] at hrun
  obtain ⟨r, hr, hfacts⟩ := Option.map_eq_some_iff.1 hrun
  simp only [Prod.mk.injEq] at hfacts
  obtain ⟨hsize, hlive, hstart, hend⟩ := hfacts
  obtain ⟨blocks, hright⟩ := h r (StepSystem.reach_exec _ (.init (onePage_init h₀)) hr)
  have hholes : holeHeaders blocks = [] := by
    have hindex := hright.index
    rw [entries, hsize] at hindex
    exact hindex.symm.eq_nil
  have hnone : liveBlocks blocks = [] := by
    have hperm := hright.live
    rw [hlive] at hperm
    exact List.map_eq_nil_iff.1 hperm.symm.eq_nil
  have htiled := hright.tiled
  rw [hstart, hend] at htiled
  cases blocks with
  | nil => cases htiled
  | cons b blocks =>
    cases hb : b.hole with
    | true =>
      rw [holeHeaders_cons_hole hb] at hholes
      cases hholes
    | false =>
      rw [liveBlocks_cons_live hb] at hnone
      cases hnone

end KHeap
