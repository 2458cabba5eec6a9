import SkyOS.Heap.Tiling

/-!
# What `memory_alloc` and `hfree` do to the blocks

`HeapInv` is the invariant with two loose ends for the middle of a call: `pending` holes are not in the index
yet, `stale` entries are in it no longer for a reason. `HeapInv.replace` is a change to memory inside
neighbouring blocks, `HeapInv.insert` and `HeapInv.remove` are changes to the index; the stages of the two
calls follow one another by these three.
-/

namespace KHeap

open Machine Bytes OrderedArrays List

structure HeapInv (m : Memory) (heap : Heap) (footed : Bool) (blocks : List Block) (pending stale : List Nat) : Prop where
  laid : Laid m footed blocks heap.start_address heap.end_address
  index : (pending ++ entries m heap.index).Perm (stale ++ holeHeaders blocks)
  below : heap.index.array + 4 * heap.index.size ≤ heap.start_address
  low : 12 ≤ heap.start_address
  top : heap.end_address < 2 ^ 32

variable {m m' : Memory} {heap : Heap} {footed : Bool} {blocks left right : List Block} {pending stale : List Nat}

theorem HeapInv.replace (h : HeapInv m heap footed blocks pending stale) {footed' : Bool} {new : List Block}
    {pending' stale' : List Nat} {a e : Nat} (hleft : Laid m footed' left heap.start_address a)
    (hnew : Laid m' footed' new a e) (hright : Laid m footed' right e heap.end_address)
    (heq : Set.EqOn m' m (Set.Ico a e)ᶜ)
    (hperm : (pending' ++ entries m heap.index).Perm (stale' ++ holeHeaders (left ++ new ++ right))) :
    HeapInv m' heap footed' (left ++ new ++ right) pending' stale' := by
  have ha := hleft.le
  refine ⟨?_, ?_, h.below, h.low, h.top⟩
  · refine laid_append.2 ⟨e, laid_append.2 ⟨a, hleft.congr fun x hx => heq ?_, hnew⟩, hright.congr fun x hx => heq ?_⟩
    · have := hx.2
      rw [Set.mem_compl_iff, Set.mem_Ico]
      omega
    · have := hx.1
      rw [Set.mem_compl_iff, Set.mem_Ico]
      omega
  · rw [entries_congr fun x hx => heq ?_]
    · exact hperm
    · have := hx.2
      have := h.below
      rw [Set.mem_compl_iff, Set.mem_Ico]
      omega

def bySize (m : Memory) (p q : Nat) : Prop := sizeOf m p ≤ sizeOf m q

instance (m : Memory) : DecidableRel (bySize m) := fun _ _ => inferInstanceAs (Decidable (_ ≤ _))

instance (m : Memory) : IsTrans Nat (bySize m) := ⟨fun _ _ _ => Nat.le_trans⟩

instance (m : Memory) : Std.Total (bySize m) := ⟨fun _ _ => Nat.le_total _ _⟩

variable {p n iterator : Nat} {b l : Block} {s : State}

theorem orderedInsert_congr {r r' : Nat → Nat → Prop} [DecidableRel r] [DecidableRel r'] {l : List Nat}
    (h : ∀ q ∈ l, r p q ↔ r' p q) : l.orderedInsert r p = l.orderedInsert r' p := by
  induction l with
  | nil => rfl
  | cons q l ih =>
    have hq := h q (by simp)
    simp only [orderedInsert_cons, hq, ih fun x hx => h x (by simp [hx])]

theorem HeapInv.start_le (h : HeapInv m heap footed blocks pending []) (hp : p ∈ pending ++ entries m heap.index) :
    heap.start_address ≤ p := by
  obtain ⟨b, hb, -, rfl⟩ := mem_holeHeaders (h.index.subset hp)
  exact (h.laid.bounds b hb).1

theorem HeapInv.insert (h : HeapInv m heap footed blocks (p :: pending) [])
    (hp : p < 2 ^ 32) (hroom : heap.index.array + 4 * (heap.index.size + 1) ≤ heap.start_address) :
    ∃ m' index, insertOrderedArray header_t_less_than m p heap.index = (m', index) ∧
      HeapInv m' { heap with index } footed blocks pending [] ∧
      entries m' index = (entries m heap.index).orderedInsert (bySize m') p := by
  obtain ⟨m', heq, hentries, hout⟩ := insertOrderedArray_ordered header_t_less_than m hp heap.index (r := bySize m)
    fun p q => by simp [bySize, header_t_less_than]
  have hperm := hentries ▸ perm_orderedInsert (bySize m) p (entries m heap.index)
  have hsize : ∀ q ∈ p :: pending ++ entries m heap.index, sizeOf m' q = sizeOf m q := by
    intro q hq
    have hstart := h.start_le hq
    refine read32_congr fun x hx => hout ?_
    have := hx.1
    rw [Set.mem_compl_iff, Set.mem_Ico]
    omega
  refine ⟨m', _, heq, ⟨h.laid.congr fun x hx => hout ?_, ?_, hroom, h.low, h.top⟩, hentries.trans (orderedInsert_congr ?_)⟩
  · have := hx.1
    rw [Set.mem_compl_iff, Set.mem_Ico]
    omega
  · exact ((hperm.append_left pending).trans perm_middle).trans h.index
  · intro q hq
    rw [bySize, bySize, hsize p (by simp), hsize q (by simp [hq])]

variable {i new_size size header footer : Nat} {blk : Block} {index : OrderedArray}

theorem HeapInv.remove (h : HeapInv m heap footed blocks pending stale) (hi : i < heap.index.size) :
    ∃ m' index, removeOrderedArray m i heap.index = (m', index) ∧
      HeapInv m' { heap with index } footed blocks (lookupOrderedArray m i heap.index :: pending) stale ∧
      index.array = heap.index.array ∧ index.size + 1 = heap.index.size ∧
      entries m' index = (entries m heap.index).eraseIdx i := by
  obtain ⟨m', heq, hentries, hperm, hout⟩ := removeOrderedArray_spec m hi
  refine ⟨m', _, heq, ⟨h.laid.congr fun x hx => hout ?_, ?_, ?_, h.low, h.top⟩, rfl, Nat.sub_add_cancel (by omega),
    hentries⟩
  · have := hx.1
    have := h.below
    rw [Set.mem_compl_iff, Set.mem_Ico]
    omega
  · rw [hentries]
    exact (perm_middle.symm.trans (hperm.append_left pending)).trans h.index
  · have := h.below
    show heap.index.array + 4 * (heap.index.size - 1) ≤ heap.start_address
    omega

theorem HeapInv.cancel (h : HeapInv m heap footed blocks (p :: pending) (p :: stale)) :
    HeapInv m heap footed blocks pending stale :=
  ⟨h.laid, (perm_cons p).1 h.index, h.below, h.low, h.top⟩

theorem HeapInv.bounds (h : HeapInv m heap footed blocks pending stale) (hb : b ∈ blocks) :
    12 ≤ b.header ∧ heap.start_address ≤ b.header ∧ b.fin ≤ heap.end_address ∧ 20 ≤ b.size ∧ b.fin < 2 ^ 32 := by
  obtain ⟨h1, h2, h3⟩ := h.laid.bounds b hb
  exact ⟨Nat.le_trans h.low h1, h1, h2, h3, Nat.lt_of_le_of_lt h2 h.top⟩

/-! ## Taking a hole -/

theorem laid_singleton (hhead : Headed m b) (hfoot : Footed m b) : Laid m footed [b] b.header b.fin :=
  ⟨rfl, hhead, fun _ => hfoot, rfl⟩

theorem writeBlock_spec (m : Memory) (b : Block) (hlive : b.hole = false) (hroom : 20 ≤ b.size) (hlt : b.fin < 2 ^ 32) :
    ∃ m', writeBlock m b.header (b.size - 20) b.size = m' ∧ Headed m' b ∧ Footed m' b ∧
      Set.EqOn m' m (Set.Ico b.header b.fin)ᶜ := by
  have hfin : b.fin = b.header + b.size := rfl
  have hfooter : u32 (b.header + sizeofHeader + (b.size - 20)) = b.footer := by
    rw [u32_of_lt (by unfold sizeofHeader; omega), Block.footer, hfin, sizeofHeader]
    omega
  have hhead := headed_writeHeader m b hroom (by omega)
  rw [hlive] at hhead
  have hf : b.footer = b.header + b.size - 8 := rfl
  refine ⟨_, rfl, ?_, ?_, fun x hx => ?_⟩
  · rw [writeBlock, hfooter]
    exact hhead.congr fun x hx => writeFooter_outside _ (.inl (by have := hx.2; omega)) _
  · rw [writeBlock, hfooter]
    exact footed_writeFooter _ b (by omega)
  · rw [Set.mem_compl_iff, Set.mem_Ico] at hx
    rw [writeBlock, hfooter, writeFooter_outside _ (by omega), writeHeader_outside m (by omega)]

theorem writeHole_spec (m : Memory) (b : Block) (hhole : b.hole = true) (hroom : 20 ≤ b.size) (end_address : Nat)
    (hend : b.fin ≤ end_address) (htop : end_address < 2 ^ 32) (index : OrderedArray) :
    ∃ m', addRemainder m index end_address b.header b.size = insertOrderedArray header_t_less_than m' b.header index ∧
      Headed m' b ∧ Footed m' b ∧ Set.EqOn m' m (Set.Ico b.header b.fin)ᶜ := by
  have hfin : b.fin = b.header + b.size := rfl
  have hf : b.footer = b.header + b.size - 8 := rfl
  have hfooter : sub32 (u32 (b.header + b.size)) sizeofFooter = b.footer := by
    rw [u32_of_lt (by omega), sub32_of_le (by unfold sizeofFooter; omega) (by omega)]
    rfl
  have hhead := headed_writeHeader m b hroom (by omega)
  rw [hhole] at hhead
  refine ⟨writeFooter (writeHeader m b.header 1 b.size) b.footer b.header, ?_, ?_, ?_, fun x hx => ?_⟩
  · unfold addRemainder
    simp only [hfooter, if_pos (show b.footer < end_address by omega)]
  · exact hhead.congr fun x hx => writeFooter_outside _ (.inl (by have := hx.2; omega)) _
  · exact footed_writeFooter _ b (by omega)
  · rw [Set.mem_compl_iff, Set.mem_Ico] at hx
    rw [writeFooter_outside _ (by omega), writeHeader_outside m (by omega)]

/-- What `allocFrom` puts in place of a hole. -/
def takeBlocks (b : Block) (new_size : Nat) : List Block :=
  if b.size - new_size < 20 then [⟨b.header, b.size, false⟩]
  else [⟨b.header, new_size, false⟩, ⟨b.header + new_size, b.size - new_size, true⟩]

/-- The block that `allocFrom` makes of a hole. -/
def takenSize (b : Block) (new_size : Nat) : Nat := if b.size - new_size < 20 then b.size else new_size

theorem HeapInv.sides (h : HeapInv m heap footed (left ++ b :: right) pending stale)
    (hfresh : footed = false → left = [] ∧ right = []) :
    Laid m true left heap.start_address b.header ∧ Headed m b ∧ Laid m true right b.fin heap.end_address := by
  obtain ⟨x, hleft, hx, hhead, -, hright⟩ := laid_append.1 h.laid
  subst hx
  cases footed with
  | true => exact ⟨hleft, hhead, hright⟩
  | false =>
    obtain ⟨rfl, rfl⟩ := hfresh rfl
    exact ⟨hleft, hhead, hright⟩

theorem takeBlocks_small (h : b.size - new_size < 20) :
    takeBlocks b new_size = [⟨b.header, b.size, false⟩] := if_pos h

theorem takeBlocks_split (h : ¬ b.size - new_size < 20) :
    takeBlocks b new_size = [⟨b.header, new_size, false⟩, ⟨b.header + new_size, b.size - new_size, true⟩] := if_neg h

theorem split_spec (m : Memory) (hn : 20 ≤ n) (hle : n ≤ b.size) (hrest : 20 ≤ b.size - n)
    {end_address : Nat} (hend : b.fin ≤ end_address) (htop : end_address < 2 ^ 32) (index : OrderedArray) :
    ∃ m', addRemainder (writeBlock m b.header (n - 20) n) index end_address (b.header + n) (b.size - n) =
        insertOrderedArray header_t_less_than m' (b.header + n) index ∧
      Laid m' true [⟨b.header, n, false⟩, ⟨b.header + n, b.size - n, true⟩] b.header b.fin ∧
      Set.EqOn m' m (Set.Ico b.header b.fin)ᶜ := by
  have hfin : b.fin = b.header + b.size := rfl
  have hfin₁ : (⟨b.header, n, false⟩ : Block).fin = b.header + n := rfl
  have hfin₂ : (⟨b.header + n, b.size - n, true⟩ : Block).fin = b.header + n + (b.size - n) := rfl
  obtain ⟨m₁, hwrite, hhead, hfoot, hout⟩ := writeBlock_spec m ⟨b.header, n, false⟩ rfl hn (by omega)
  obtain ⟨m₂, hadd, hhead', hfoot', hout'⟩ := writeHole_spec m₁ ⟨b.header + n, b.size - n, true⟩ rfl hrest end_address
    (by omega) htop index
  -- the second block is written behind the first
  have hbefore : Set.EqOn m₂ m₁ (Set.Ico b.header (b.header + n)) := fun x hx => hout' <| by
    rw [Set.mem_compl_iff, Set.mem_Ico]
    exact fun hx' => absurd hx.2 (Nat.not_lt.2 hx'.1)
  refine ⟨m₂, ?_, ⟨rfl, hhead.congr fun x hx => hbefore ⟨hx.1, ?_⟩, fun _ => hfoot.congr fun x hx => hbefore ⟨?_, ?_⟩, rfl,
    hhead', fun _ => hfoot', ?_⟩, fun x hx => ?_⟩
  · rw [← hadd, ← hwrite]
  · have : x < b.header + 12 := hx.2
    omega
  · have : b.header + n - 8 ≤ x := hx.1
    omega
  · have : x < b.header + n - 8 + 8 := hx.2
    omega
  · show b.header + n + (b.size - n) = b.fin
    omega
  · rw [Set.mem_compl_iff, Set.mem_Ico] at hx
    refine (hout' fun hx' => hx ?_).trans (hout fun hx' => hx ?_)
    · have h1 : b.header + n ≤ x := hx'.1
      have h2 : x < b.header + n + (b.size - n) := hx'.2
      omega
    · have h1 : b.header ≤ x := hx'.1
      have h2 : x < b.header + n := hx'.2
      omega

def takeEntries (r : Nat → Nat → Prop) [DecidableRel r] (l : List Nat) (iterator : Nat) (b : Block) (new_size : Nat) :
    List Nat :=
  if b.size - new_size < 20 then l.eraseIdx iterator else (l.eraseIdx iterator).orderedInsert r (b.header + new_size)

theorem allocFrom_spec (h : HeapInv s.memory s.kheap footed (left ++ blk :: right) [] [])
    (hfresh : footed = false → left = [] ∧ right = []) (hi : iterator < s.kheap.index.size)
    (hp : lookupOrderedArray s.memory iterator s.kheap.index = blk.header) (hblk : blk.hole = true)
    (hfit : size + 20 ≤ blk.size) :
    ∃ s', allocFrom s iterator size (size + 20) 0 = (blk.header + 12, s') ∧
      HeapInv s'.memory s'.kheap true (left ++ takeBlocks blk (size + 20) ++ right) [] [] ∧
      s'.kheap.start_address = s.kheap.start_address ∧ s'.kheap.end_address = s.kheap.end_address ∧
      s'.g_usedHeapSize = u32 (s.g_usedHeapSize + takenSize blk (size + 20)) ∧
      entries s'.memory s'.kheap.index =
        takeEntries (bySize s'.memory) (entries s.memory s.kheap.index) iterator blk (size + 20) := by
  obtain ⟨hlow, hstart, hend, hroom, htop⟩ := h.bounds (b := blk) (by simp)
  have hfin : blk.fin = blk.header + blk.size := rfl
  have hsize : sizeOf s.memory blk.header = blk.size := (h.sides hfresh).2.1.size
  have hdiff : sub32 blk.size (size + 20) = blk.size - (size + 20) := sub32_of_le hfit (by omega)
  have hpointer : u32 (blk.header + sizeofHeader) = blk.header + 12 := u32_of_lt (by unfold sizeofHeader; omega)
  -- the hole leaves the index
  obtain ⟨m₁, index₁, hremove, h₁, harray, hcount, herase⟩ := h.remove hi
  rw [hp] at h₁
  obtain ⟨hleft, -, hright⟩ := h₁.sides hfresh
  have hkept : ∀ m, Set.EqOn m m₁ (Set.Ico blk.header blk.fin)ᶜ → entries m index₁ = entries m₁ index₁ := fun m hout =>
    entries_congr fun x hx => hout <| by
      have := hx.2
      have := h.below
      rw [Set.mem_compl_iff, Set.mem_Ico]
      omega
  have hplace : takePlace s.memory s.kheap.index iterator blk.header blk.size = ⟨m₁, index₁, blk.header, blk.size⟩ := by
    simp only [takePlace, hremove]
  have hholes : (entries m₁ index₁).Perm (holeHeaders left ++ holeHeaders right) := by
    have hindex := h₁.index
    rw [holeHeaders_append, holeHeaders_cons_hole hblk] at hindex
    exact (perm_cons _).1 (hindex.trans perm_middle)
  by_cases hsmall : blk.size - (size + 20) < 20
  · have hextra : u32 (size + (blk.size - (size + 20))) = blk.size - 20 := by
      rw [u32_of_lt (by omega)]
      omega
    obtain ⟨m₂, hwrite, hhead, hfoot, hout⟩ := writeBlock_spec m₁ ⟨blk.header, blk.size, false⟩ rfl hroom htop
    have hnew : Laid m₂ true [⟨blk.header, blk.size, false⟩] blk.header blk.fin := laid_singleton hhead hfoot
    have h₂ : HeapInv m₂ { s.kheap with index := index₁ } true (left ++ [⟨blk.header, blk.size, false⟩] ++ right) []
        [] := by
      refine h₁.replace hleft hnew hright hout ?_
      simpa [holeHeaders] using hholes
    refine ⟨⟨m₂, { s.kheap with index := index₁ }, u32 (s.g_usedHeapSize + blk.size)⟩, ?_, ?_, rfl, rfl, ?_, ?_⟩
    · have hrest : ¬ sub32 blk.size blk.size > 0 := by
        rw [sub32_of_le le_rfl (by omega)]
        omega
      simp only [allocFrom, hp, hsize, hdiff,
        if_pos (show blk.size - (size + 20) < sizeofHeader + sizeofFooter from hsmall),
        hextra, hplace, hwrite, if_neg hrest, hpointer, ne_eq, not_true_eq_false, false_and, if_false]
    · rw [takeBlocks_small hsmall]
      exact h₂
    · rw [takenSize, if_pos hsmall]
    · rw [takeEntries, if_pos hsmall, ← herase]
      exact hkept m₂ hout
  · have hpos : u32 (blk.header + sizeofHeader + size + sizeofFooter) = blk.header + (size + 20) := by
      rw [u32_of_lt (by unfold sizeofHeader sizeofFooter; omega)]
      unfold sizeofHeader sizeofFooter
      omega
    obtain ⟨m₃, hadd, hnew, hout₃⟩ := split_spec m₁ (show 20 ≤ size + 20 by omega) hfit (Nat.not_lt.1 hsmall) hend h.top
      index₁
    have h₃ : HeapInv m₃ { s.kheap with index := index₁ } true (left ++ takeBlocks blk (size + 20) ++ right)
        [blk.header + (size + 20)] [] := by
      rw [takeBlocks_split hsmall]
      refine h₁.replace hleft hnew hright hout₃ ?_
      have hperm := (hholes.cons (blk.header + (size + 20))).trans perm_middle.symm
      simpa [holeHeaders] using hperm
    have hbelow := h.below
    obtain ⟨m₄, index₄, hinsert, h₄, hentries⟩ := h₃.insert (by omega) (by
      show index₁.array + 4 * (index₁.size + 1) ≤ s.kheap.start_address
      omega)
    refine ⟨⟨m₄, { s.kheap with index := index₄ }, u32 (s.g_usedHeapSize + (size + 20))⟩, ?_, h₄, rfl, rfl, ?_, ?_⟩
    · have hrest : sub32 blk.size (size + 20) > 0 := by
        rw [hdiff]
        omega
      have hadd' : addRemainder (writeBlock m₁ blk.header size (size + 20)) index₁ s.kheap.end_address
          (blk.header + (size + 20)) (blk.size - (size + 20)) = (m₄, index₄) := hadd.trans hinsert
      simp only [allocFrom, hp, hsize, hdiff,
        if_neg (show ¬ blk.size - (size + 20) < sizeofHeader + sizeofFooter from hsmall),
        hplace, if_pos (hdiff ▸ hrest), hpos, hadd', hpointer, ne_eq, not_true_eq_false, false_and, if_false]
    · rw [takenSize, if_neg hsmall]
    · rw [takeEntries, if_neg hsmall, ← herase, ← hkept m₃ hout₃]
      exact hentries

theorem allocFrom_whole
    (hp : lookupOrderedArray s.memory iterator s.kheap.index = blk.header) (hsize : sizeOf s.memory blk.header = blk.size)
    (hle : u32 (size + 20) ≤ blk.size) (hsmall : blk.size < u32 (size + 20) + 20) (hroom : 20 ≤ blk.size)
    (hlt : blk.size < 2 ^ 32) :
    allocFrom s iterator size (u32 (size + 20)) 0 = allocFrom s iterator (blk.size - 20) blk.size 0 := by
  have hrest : sub32 blk.size (u32 (size + 20)) = blk.size - u32 (size + 20) := sub32_of_le hle hlt
  have hwhole : sub32 blk.size blk.size = 0 := by rw [sub32_of_le le_rfl hlt, Nat.sub_self]
  have hadd : u32 (size + (blk.size - u32 (size + 20))) = blk.size - 20 := by
    unfold u32 at *
    omega
  have hadd' : u32 (blk.size - 20 + 0) = blk.size - 20 := u32_of_lt (by omega)
  have hless : blk.size - u32 (size + 20) < sizeofHeader + sizeofFooter := by
    unfold sizeofHeader sizeofFooter
    omega
  have hless' : 0 < sizeofHeader + sizeofFooter := by decide
  simp only [allocFrom, hp, hsize, hrest, hwhole, if_pos hless, if_pos hless', hadd, hadd']

/-! ## Releasing a block -/

theorem Headed.isHole_eq_one (h : Headed m b) : isHoleOf m b.header = 1 ↔ b.hole = true := by
  rw [h.hole]
  cases b.hole <;> simp

theorem leftIsHole_iff (hhead : Headed m l) (hfoot : Footed m l) (hfin : l.fin = header)
    (hlt : header < 2 ^ 32) : leftIsHole m header = true ↔ l.hole = true := by
  have hsize := hhead.room
  have haddr : sub32 header sizeofFooter = l.footer := by
    rw [← hfin, sub32_of_le (by unfold sizeofFooter Block.fin; omega) (by omega)]
    rfl
  simp only [leftIsHole, haddr, hfoot.magic, hfoot.header, true_and, decide_eq_true_eq]
  exact hhead.isHole_eq_one

theorem footer_add (hroom : 20 ≤ b.size) (hlt : b.fin < 2 ^ 32) : u32 (b.footer + sizeofFooter) = b.fin := by
  have hfin : b.fin = b.header + b.size := rfl
  rw [u32_of_lt (by unfold Block.footer sizeofFooter; omega), Block.footer, sizeofFooter]
  omega

theorem rightIsHole_iff {r : Block} (hroom : 20 ≤ b.size) (hlt : b.fin < 2 ^ 32) (hhead : Headed m r)
    (hfin : b.fin = r.header) :
    rightIsHole m b.footer = true ↔ r.hole = true := by
  simp only [rightIsHole, footer_add hroom hlt, hfin, hhead.magic, hhead.hole, true_and, decide_eq_true_eq]
  cases r.hole <;> simp

/-- Two neighbours become one hole: the left header gets the size, the right footer points to it. -/
def merge (l b : Block) : Block := ⟨l.header, l.size + b.size, true⟩

theorem merge_fin (h : l.fin = b.header) : (merge l b).fin = b.fin := by
  show l.header + (l.size + b.size) = b.header + b.size
  unfold Block.fin at h
  omega

theorem merge_footer (h : l.fin = b.header) : (merge l b).footer = b.footer := by
  rw [Block.footer, merge_fin h, Block.footer]

theorem headed_merge (h : Headed m l) (hhole : l.hole = true) (hlt : l.size + b.size < 2 ^ 32) :
    Headed (setSize m l.header (l.size + b.size)) (merge l b) := by
  have hhead := headed_setSize h (Nat.le_trans h.room (Nat.le_add_right l.size b.size)) hlt
  rw [hhole] at hhead
  exact hhead

section

variable (hl : Headed m l) (hhole : l.hole = true) (hb : Footed m b) (hroom : 20 ≤ b.size) (hfin : l.fin = b.header)
    (hlt : b.fin < 2 ^ 32)
include hl hhole hb hroom hfin hlt

theorem laid_mergeLeft :
    Laid (setSize (setHeader m b.footer l.header) l.header (l.size + b.size)) footed [merge l b] l.header b.fin := by
  have hlfin : l.fin = l.header + l.size := rfl
  have hbfin : b.fin = b.header + b.size := rfl
  have hbfooter : b.footer = b.header + b.size - 8 := rfl
  have hl' : Headed (setHeader m b.footer l.header) l :=
    hl.congr fun x hx => setHeader_outside m (.inl (by have := hx.2; omega)) _
  have hb' : Footed (setHeader m b.footer l.header) (merge l b) := footed_setHeader hb (merge_footer hfin) (by
    show l.header < 2 ^ 32
    omega)
  refine ⟨rfl, headed_merge hl' hhole (by omega), fun _ => hb'.congr fun x hx => setSize_outside _ (.inr ?_) _,
    merge_fin hfin⟩
  have := hx.1
  rw [merge_footer hfin] at this
  omega

theorem laid_mergeRight :
    Laid (setHeader (setSize m l.header (l.size + b.size)) b.footer l.header) footed [merge l b] l.header b.fin := by
  have hlfin : l.fin = l.header + l.size := rfl
  have hbfin : b.fin = b.header + b.size := rfl
  have hbfooter : b.footer = b.header + b.size - 8 := rfl
  have hb' : Footed (setSize m l.header (l.size + b.size)) b :=
    hb.congr fun x hx => setSize_outside m (.inr (by have := hx.1; omega)) _
  refine ⟨rfl, (headed_merge hl hhole (by omega)).congr fun x hx => setHeader_outside _ (.inl ?_) _,
    fun _ => footed_setHeader hb' (merge_footer hfin) (by show l.header < 2 ^ 32; omega), merge_fin hfin⟩
  have : x < l.header + 12 := hx.2
  omega

end

theorem setSize_setHeader_outside (m : Memory) (hl : 20 ≤ l.size) (hb : 20 ≤ b.size) (hfin : l.fin = b.header)
    (v w : Nat) : Set.EqOn (setSize (setHeader m b.footer v) l.header w) m (Set.Ico l.header b.fin)ᶜ ∧
      Set.EqOn (setHeader (setSize m l.header w) b.footer v) m (Set.Ico l.header b.fin)ᶜ := by
  have hlfin : l.fin = l.header + l.size := rfl
  have hbfin : b.fin = b.header + b.size := rfl
  have hbfooter : b.footer = b.header + b.size - 8 := rfl
  constructor
  · intro x hx
    rw [Set.mem_compl_iff, Set.mem_Ico] at hx
    rw [setSize_outside _ (by omega), setHeader_outside _ (by omega)]
  · intro x hx
    rw [Set.mem_compl_iff, Set.mem_Ico] at hx
    rw [setHeader_outside _ (by omega), setSize_outside _ (by omega)]

theorem perm_second (xs ys : List Nat) (x y : Nat) : (xs ++ x :: y :: ys).Perm (y :: (xs ++ x :: ys)) := by
  have hswap : ((xs ++ [x]) ++ y :: ys).Perm (y :: ((xs ++ [x]) ++ ys)) := perm_middle
  simpa using hswap

/-- The blocks to the left, and the new hole, which has joined the last of them if that is a hole. -/
inductive JoinedLeft (b : Block) : List Block → List Block → Block → Bool → Prop where
  | stays {left : List Block} (h : ∀ before l, left = before ++ [l] → l.hole = false) : JoinedLeft b left left b true
  | joins {left : List Block} {l : Block} (h : l.hole = true) (hfin : l.fin = b.header) :
      JoinedLeft b (left ++ [l]) left (merge l b) false

/-- The blocks to the right, the first of which the hole has joined if it is a hole. -/
inductive JoinedRight (c : Block) : List Block → List Block → Block → Bool → Prop where
  | stays {right : List Block} (h : ∀ r after, right = r :: after → r.hole = false) : JoinedRight c right right c false
  | joins {right : List Block} {r : Block} (h : r.hole = true) (hfin : c.fin = r.header) :
      JoinedRight c (r :: right) right (merge c r) true

/-- **Unify left.** The new hole joins a hole to its left, or stays as it is. -/
theorem unifyLeft_spec (h : HeapInv m heap true (left ++ b :: right) [b.header] []) (hb : b.hole = true)
    (hfirst : left = [] → leftIsHole m b.header = false) :
    ∃ m' left' c do_add, unifyLeft m b.header b.footer = (m', c.header, do_add) ∧ c.hole = true ∧ c.footer = b.footer ∧
      HeapInv m' heap true (left' ++ c :: right) (if do_add then [c.header] else []) [] ∧
      liveBlocks left' = liveBlocks left ∧ Set.EqOn m' m (Set.Ico heap.start_address heap.end_address)ᶜ ∧
      do_add = !leftIsHole m b.header ∧ (do_add = true → m' = m) ∧ JoinedLeft b left left' c do_add := by
  obtain ⟨hleft, hhead, hright⟩ := h.sides nofun
  obtain ⟨hlow, hstart, hend, hroom, htop⟩ := h.bounds (b := b) (by simp)
  have hsize := hhead.size
  by_cases hjoin : leftIsHole m b.header = true
  · rcases eq_nil_or_concat left with rfl | ⟨left', l, rfl⟩
    · rw [hfirst rfl] at hjoin
      cases hjoin
    · rw [concat_eq_append] at h hleft ⊢
      obtain ⟨x, hleft', rfl, hlhead, hlfoot, hlfin⟩ := laid_append.1 hleft
      replace hlfin : l.fin = b.header := hlfin
      replace hlfoot := hlfoot rfl
      have hbfoot : Footed m b := by
        obtain ⟨-, -, -, -, hfoot, -⟩ := laid_append.1 h.laid
        exact hfoot rfl
      have hlhole : l.hole = true := (leftIsHole_iff hlhead hlfoot hlfin (by unfold Block.fin at htop; omega)).1 hjoin
      have hlroom := hlhead.room
      have hbfin : b.fin = b.header + b.size := rfl
      have hlfin' : l.fin = l.header + l.size := rfl
      have haddr : sub32 b.header sizeofFooter = l.footer := by
        rw [← hlfin, sub32_of_le (by unfold sizeofFooter; omega) (by omega)]
        rfl
      have hkept : sizeOf (setHeader m b.footer l.header) l.header = l.size := by
        rw [← hlhead.size]
        refine read32_congr fun x hx => setHeader_outside m (.inl ?_) _
        have := hx.2
        unfold Block.footer
        omega
      have hsum : u32 (l.size + b.size) = l.size + b.size := u32_of_lt (by omega)
      refine ⟨_, left', merge l b, false, ?_, rfl, merge_footer hlfin, ?_, ?_,
        ((setSize_setHeader_outside m hlroom hroom hlfin l.header (l.size + b.size)).1).mono ?_,
        by rw [hjoin]; rfl, nofun, .joins hlhole hlfin⟩
      · simp only [unifyLeft, if_pos hjoin, haddr, hlfoot.header, hsize, hkept, hsum]
        rfl
      · have hmerged : Laid _ true [merge l b] l.header b.fin := laid_mergeLeft hlhead hlhole hbfoot hroom hlfin htop
        have hperm : (entries m heap.index).Perm (holeHeaders (left' ++ [merge l b] ++ right)) := by
          have hindex := h.index
          simp only [holeHeaders_append, holeHeaders_cons_hole hlhole, holeHeaders_cons_hole hb, append_assoc] at hindex
          simp only [holeHeaders_append, holeHeaders_cons_hole (b := merge l b) rfl, append_assoc]
          exact (perm_cons _).1 (hindex.trans (perm_second _ _ _ _))
        have hnew : HeapInv _ heap true (left' ++ [merge l b] ++ right) [] [] :=
          h.replace hleft' hmerged hright (setSize_setHeader_outside m hlroom hroom hlfin l.header
            (l.size + b.size)).1 hperm
        simpa using hnew
      · rw [liveBlocks_append, liveBlocks_cons_hole hlhole]
        simp [liveBlocks]
      · intro x hx
        rw [Set.mem_compl_iff, Set.mem_Ico] at hx ⊢
        have := hleft'.le
        omega
  · refine ⟨m, left, b, true, ?_, hb, rfl, h, rfl, fun _ _ => rfl, ?_, fun _ => rfl, .stays ?_⟩
    · simp only [unifyLeft, if_neg hjoin]
    · rw [Bool.not_eq_true] at hjoin
      rw [hjoin]
      rfl
    · rintro before l rfl
      obtain ⟨x, -, rfl, hlhead, hlfoot, hlfin⟩ := laid_append.1 hleft
      rw [leftIsHole_iff hlhead (hlfoot rfl) hlfin (by unfold Block.fin at htop; omega)] at hjoin
      simpa using hjoin

theorem searchIndex_spec (hn : iterator + n = index.size)
    (h : ∃ i, iterator ≤ i ∧ i < index.size ∧ lookupOrderedArray m i index = p) :
    ∃ i < index.size, searchIndex m p index iterator n = some i ∧ lookupOrderedArray m i index = p := by
  induction n generalizing iterator with
  | zero =>
    obtain ⟨i, hi, hlt, -⟩ := h
    omega
  | succ n ih =>
    unfold searchIndex
    split
    · rename_i hp
      exact ⟨iterator, by omega, rfl, hp⟩
    · rename_i hp
      obtain ⟨i, hi, hlt, hlook⟩ := h
      refine ih (by omega) ⟨i, ?_, hlt, hlook⟩
      rcases Nat.eq_or_lt_of_le hi with rfl | hlt'
      · exact absurd hlook hp
      · exact hlt'

theorem erase_of_searchIndex
    (h : searchIndex m p index iterator n = some i) :
    iterator ≤ i ∧ (words m (index.array + 4 * iterator) n).eraseIdx (i - iterator) =
      (words m (index.array + 4 * iterator) n).erase p := by
  induction n generalizing iterator with
  | zero => cases h
  | succ n ih =>
    have haddr : index.array + 4 * iterator + 4 = index.array + 4 * (iterator + 1) := by omega
    unfold searchIndex at h
    split at h
    · rename_i hp
      cases h
      rw [words, show read32 m (index.array + 4 * i) = p from hp]
      simp
    · rename_i hp
      obtain ⟨hle, herase⟩ := ih h
      have hsub : i - iterator = (i - (iterator + 1)) + 1 := by omega
      rw [words, haddr, hsub, eraseIdx_cons_succ, herase, erase_cons_tail (by simpa [lookupOrderedArray] using hp)]
      exact ⟨by omega, rfl⟩

/-- **Unify right.** The hole is joined by a hole to its right, which leaves the index. -/
theorem unifyRight_spec {c : Block} (h : HeapInv m heap true (left ++ c :: right) pending []) (hc : c.hole = true)
    (hpending : pending = [] ∨ pending = [c.header]) (hfooter : p = c.footer)
    (hlast : right = [] → rightIsHole m c.footer = false) :
    ∃ m' index c' right', unifyRight m heap.index c.header p = some (m', index) ∧ c'.header = c.header ∧ c'.hole = true ∧
      HeapInv m' { heap with index } true (left ++ c' :: right') pending [] ∧ liveBlocks right' = liveBlocks right ∧
      index.array = heap.index.array ∧ (if rightIsHole m c.footer then index.size + 1 else index.size) = heap.index.size ∧
      JoinedRight c right right' c' (rightIsHole m c.footer) ∧
      entries m' index = if rightIsHole m c.footer then (entries m heap.index).erase c.fin else entries m heap.index := by
  subst hfooter
  obtain ⟨hleft, hhead, hright⟩ := h.sides nofun
  obtain ⟨hlow, hstart, hend, hroom, htop⟩ := h.bounds (b := c) (by simp)
  by_cases hjoin : rightIsHole m c.footer = true
  · rcases right with _ | ⟨r, right'⟩
    · rw [hlast rfl] at hjoin
      cases hjoin
    · obtain ⟨hrheader, hrhead, hrfoot, hright'⟩ := hright
      replace hrfoot := hrfoot rfl
      obtain ⟨hrlow, -, hrend, hrroom, hrtop⟩ := h.bounds (b := r) (by simp)
      have hrhole : r.hole = true := (rightIsHole_iff hroom htop hrhead hrheader.symm).1 hjoin
      have hcfin : c.fin = c.header + c.size := rfl
      have hrfin : r.fin = r.header + r.size := rfl
      have hsum : u32 (c.size + r.size) = c.size + r.size := u32_of_lt (by omega)
      have hkept : sizeOf (setSize m c.header (c.size + r.size)) r.header = r.size := by
        rw [← hrhead.size]
        refine read32_congr fun x hx => setSize_outside m (.inr ?_) _
        have := hx.1
        omega
      have haddr : sub32 (u32 (r.header + r.size)) sizeofFooter = r.footer := by
        rw [u32_of_lt (by omega), sub32_of_le (by unfold sizeofFooter; omega) (by omega)]
        rfl
      have hout := (setSize_setHeader_outside m hroom hrroom hrheader.symm c.header (c.size + r.size)).2
      have hmerged : Laid _ true [merge c r] c.header r.fin := laid_mergeRight hhead hc hrfoot hrroom hrheader.symm hrtop
      have hperm : (pending ++ entries m heap.index).Perm ([r.header] ++ holeHeaders (left ++ [merge c r] ++ right')) := by
        refine h.index.trans ?_
        simp only [holeHeaders_append, holeHeaders_cons_hole hc, holeHeaders_cons_hole hrhole,
          holeHeaders_cons_hole (b := merge c r) rfl, append_assoc]
        exact perm_second _ _ _ _
      have h₁ : HeapInv _ heap true (left ++ [merge c r] ++ right') pending [r.header] :=
        h.replace hleft hmerged hright' hout hperm
      have hfound : r.header ∈ entries (setHeader (setSize m c.header (c.size + r.size)) r.footer c.header) heap.index := by
        have hmem : r.header ∈ pending ++ entries _ heap.index := h₁.index.symm.subset (by simp)
        rcases mem_append.1 hmem with hmem | hmem
        · rcases hpending with rfl | rfl
          · cases hmem
          · rw [mem_singleton] at hmem
            omega
        · exact hmem
      obtain ⟨i₀, hi₀, hlook₀⟩ := (mem_entries_iff _ _ _).1 hfound
      obtain ⟨i, hi, hsearch, hlook⟩ := searchIndex_spec (Nat.zero_add heap.index.size)
        ⟨i₀, Nat.zero_le _, hi₀, hlook₀⟩
      obtain ⟨m₂, index₂, hremove, h₂, harray, hsize, herase⟩ := h₁.remove hi
      rw [hlook] at h₂
      refine ⟨m₂, index₂, merge c r, right', ?_, rfl, rfl,
        by simpa using h₂.cancel, (liveBlocks_cons_hole hrhole right').symm,
        harray, by rw [if_pos hjoin]; exact hsize, hjoin ▸ .joins hrhole hrheader.symm, ?_⟩
      · simp only [unifyRight, if_pos hjoin, footer_add hroom htop, ← hrheader, hhead.size, hrhead.size, hsum, hkept, haddr,
          hsearch, Option.map_some, hremove]
      · have hsame : entries (setHeader (setSize m c.header (c.size + r.size)) r.footer c.header) heap.index =
            entries m heap.index := entries_congr fun x hx => hout <| by
          have := hx.2
          have := h.below
          rw [Set.mem_compl_iff, Set.mem_Ico]
          omega
        have hfirst := (erase_of_searchIndex hsearch).2
        rw [Nat.mul_zero, Nat.add_zero, Nat.sub_zero] at hfirst
        rw [if_pos hjoin, herase, ← hrheader, ← hsame]
        exact hfirst
  · refine ⟨m, heap.index, c, right, ?_, rfl, hc, h, rfl, rfl, by rw [if_neg hjoin], ?_, by rw [if_neg hjoin]⟩
    · simp only [unifyRight, if_neg hjoin]
    · rw [Bool.eq_false_of_not_eq_true hjoin]
      refine .stays ?_
      rintro r after rfl
      obtain ⟨hrheader, hrhead, -, -⟩ := hright
      rw [rightIsHole_iff hroom htop hrhead hrheader.symm] at hjoin
      simpa using hjoin

/-- The hole at `start_address` has nothing to its left, the one that ends at `end_address` nothing to its right,
and a hole that joins neither has room in the index. -/
def ReleaseFits (m : Memory) (heap : Heap) (header footer : Nat) : Prop :=
  (header = heap.start_address → leftIsHole (setIsHole m header 1) header = false) ∧
  (footer + sizeofFooter = heap.end_address → rightIsHole (setIsHole m header 1) footer = false) ∧
  (heap.index.array + 4 * (heap.index.size + 1) ≤ heap.start_address ∨
    leftIsHole (setIsHole m header 1) header = true ∨ rightIsHole (setIsHole m header 1) footer = true)

theorem rightIsHole_congr (he : Set.EqOn m' m (Set.Ico (u32 (footer + sizeofFooter)) (u32 (footer + sizeofFooter) + 5))) :
    rightIsHole m' footer = rightIsHole m footer := by
  have hmagic : magicOf m' (u32 (footer + sizeofFooter)) = magicOf m (u32 (footer + sizeofFooter)) :=
    read32_congr fun x hx => he ⟨hx.1, by have := hx.2; omega⟩
  have hbyte : m' (u32 (footer + sizeofFooter) + 4) = m (u32 (footer + sizeofFooter) + 4) := he ⟨by omega, by omega⟩
  have hhole : isHoleOf m' (u32 (footer + sizeofFooter)) = isHoleOf m (u32 (footer + sizeofFooter)) :=
    congrArg UInt8.toNat hbyte
  unfold rightIsHole
  dsimp only
  rw [hmagic, hhole]

theorem HeapInv.mark (h : HeapInv m heap true (left ++ b :: right) [] []) (hb : b.hole = false) :
    HeapInv (setIsHole m b.header 1) heap true (left ++ { b with hole := true } :: right) [b.header] [] := by
  obtain ⟨hleft, hhead, hright⟩ := h.sides nofun
  obtain ⟨hlow, hstart, hend, hroom, htop⟩ := h.bounds (b := b) (by simp)
  have hfin : b.fin = b.header + b.size := rfl
  have hfoot : Footed m b := by
    obtain ⟨-, -, -, -, hfoot, -⟩ := laid_append.1 h.laid
    exact hfoot rfl
  have hfoot' : Footed (setIsHole m b.header 1) { b with hole := true } := by
    have hkept : Set.EqOn (setIsHole m b.header 1) m (Set.Ico b.footer (b.footer + 8)) := fun x hx => by
      have := hx.1
      unfold Block.footer at this
      exact setIsHole_outside m (by omega) 1
    obtain ⟨hmagic, hheader⟩ := hfoot.congr hkept
    exact ⟨hmagic, hheader⟩
  have hnew : Laid (setIsHole m b.header 1) true [{ b with hole := true }] b.header b.fin :=
    ⟨rfl, headed_setIsHole hhead, fun _ => hfoot', rfl⟩
  have hmarked : HeapInv (setIsHole m b.header 1) heap true (left ++ [{ b with hole := true }] ++ right) [b.header] [] := by
    refine h.replace hleft hnew hright (fun x hx => setIsHole_outside m ?_ 1) ?_
    · rw [Set.mem_compl_iff, Set.mem_Ico] at hx
      omega
    · have hindex := h.index
      simp only [holeHeaders_append, holeHeaders_cons_live hb, nil_append] at hindex
      simp only [holeHeaders_append, append_assoc, nil_append, singleton_append]
      exact ((hindex.cons b.header).trans perm_middle.symm)
  simpa using hmarked

theorem release_of {merged : Nat} {do_add : Bool} {m₂ m₃ m₄ : Memory} {index₃ index₄ : OrderedArray}
    (hleft : unifyLeft (setIsHole s.memory header 1) header footer = (m₂, merged, do_add))
    (hright : unifyRight m₂ s.kheap.index merged footer = some (m₃, index₃))
    (hadd : (if do_add then insertOrderedArray header_t_less_than m₃ merged index₃ else (m₃, index₃)) = (m₄, index₄)) :
    release s header footer = some { s with memory := m₄, kheap := { s.kheap with index := index₄ } } := by
  unfold release
  simp only [hleft, hright, Option.map_some, hadd]

/-- What a release makes of the blocks and of the index: the new hole joins its neighbours, and has the entry of the left
one or a new one. -/
def Released (s s' : State) (left : List Block) (b : Block) (right left' : List Block) (c' : Block)
    (right' : List Block) : Prop :=
  ∃ c do_add joined, JoinedLeft b left left' c do_add ∧ JoinedRight c right right' c' joined ∧
    entries s'.memory s'.kheap.index =
      let rest := if joined then (entries s.memory s.kheap.index).erase c.fin else entries s.memory s.kheap.index
      if do_add then rest.orderedInsert (bySize s'.memory) c'.header else rest

/-- `hfree` of a block: it is a hole now, joined with its neighbours. -/
theorem release_spec (h : HeapInv s.memory s.kheap true (left ++ b :: right) [] [])
    (hb : b.hole = false) (hfits : ReleaseFits s.memory s.kheap b.header b.footer) :
    ∃ s' left' c' right', release s b.header b.footer = some s' ∧
      HeapInv s'.memory s'.kheap true (left' ++ c' :: right') [] [] ∧
      Released s s' left { b with hole := true } right left' c' right' ∧
      liveBlocks (left' ++ c' :: right') = liveBlocks left ++ liveBlocks right ∧ s'.g_usedHeapSize = s.g_usedHeapSize ∧
      s'.kheap.start_address = s.kheap.start_address ∧ s'.kheap.end_address = s.kheap.end_address := by
  obtain ⟨hfirst, hlast, hroom⟩ := hfits
  obtain ⟨hleft, -, hright⟩ := h.sides nofun
  obtain ⟨hlow, hstart, hend, hsize, htop⟩ := h.bounds (b := b) (by simp)
  have h₁ := h.mark hb
  have hfooter : b.footer + sizeofFooter = b.fin := by
    show b.header + b.size - 8 + 8 = b.header + b.size
    omega
  obtain ⟨m₂, left', c, do_add, hunify, hc, hcfooter, h₂, hlive, hout, hadd, hsame, hjoinLeft⟩ :=
    unifyLeft_spec h₁ rfl fun hnil => hfirst (by subst hnil; exact hleft.symm)
  replace hcfooter : c.footer = b.footer := hcfooter
  have hbelow := h.below
  have hright₂ : right = [] → rightIsHole m₂ c.footer = false := by
    intro hnil
    subst hnil
    have hatEnd : b.fin = s.kheap.end_address := hright
    rw [hcfooter, ← hlast (by rw [hfooter, hatEnd])]
    refine rightIsHole_congr fun x hx => hout ?_
    rw [hfooter, u32_of_lt htop] at hx
    have := hx.1
    rw [Set.mem_compl_iff, Set.mem_Ico]
    omega
  have hpending : (if do_add = true then [c.header] else []) = [] ∨ (if do_add = true then [c.header] else []) =
      [c.header] := by
    cases do_add
    · exact .inl rfl
    · exact .inr rfl
  obtain ⟨m₃, index₃, c', right', hunify', hcheader, hc', h₃, hlive', harray, hcount, hjoinRight, hentries⟩ :=
    unifyRight_spec h₂ hc hpending hcfooter.symm hright₂
  have hindex : entries m₂ s.kheap.index = entries s.memory s.kheap.index := entries_congr fun x hx => by
    have := hx.2
    rw [hout (by rw [Set.mem_compl_iff, Set.mem_Ico]; omega), setIsHole_outside _ (by omega)]
  rw [hindex] at hentries
  have hblocks : liveBlocks (left' ++ c' :: right') = liveBlocks left ++ liveBlocks right := by
    rw [liveBlocks_append, liveBlocks_cons_hole hc', hlive, hlive']
  have hunify'' : unifyLeft (setIsHole s.memory b.header 1) b.header b.footer = (m₂, c.header, do_add) := hunify
  cases do_add with
  | false =>
    exact ⟨_, left', c', right', release_of hunify'' hunify' rfl, h₃, ⟨c, false, _, hjoinLeft, hjoinRight, hentries⟩,
      hblocks, rfl, rfl, rfl⟩
  | true =>
    have hnoleft : leftIsHole (setIsHole s.memory b.header 1) b.header = false := by simpa using hadd.symm
    have hroom₃ : index₃.array + 4 * (index₃.size + 1) ≤ s.kheap.start_address := by
      rw [hsame rfl, hcfooter] at hcount
      rcases hroom with hroom | hjoin | hjoin
      · split at hcount <;> omega
      · rw [hnoleft] at hjoin
        cases hjoin
      · rw [if_pos hjoin] at hcount
        omega
    obtain ⟨hclow, -, hcend, hcsize, hctop⟩ := h₂.bounds (b := c) (by simp)
    obtain ⟨m₄, index₄, hinsert, h₄, hordered⟩ := h₃.insert (by unfold Block.fin at hctop; omega) hroom₃
    refine ⟨_, left', c', right', release_of hunify'' hunify' hinsert, h₄, ⟨c, true, _, hjoinLeft, hjoinRight, ?_⟩, hblocks,
      rfl, rfl, rfl⟩
    rw [hcheader, if_pos rfl, ← hentries]
    exact hordered

end KHeap
