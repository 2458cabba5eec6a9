import SkyOS.Heap.HeapRuns

/-!
# Page-aligned allocation (`memory_alloc` with `page_align`, `:386-454`)

The block is put where the next page begins behind the hole's header, and what is in front of it stays a hole, with the
entry that the whole hole had in the index. Nobody looks at how large that front is, and whether what is left
behind the block is enough for a hole is decided (`:384`) with the size that the hole had before it lost its front.
-/

namespace KHeap

open Machine Bytes OrderedArrays List Set

/-! ## The source, with the hole and its size in hand -/

/-- `size` and `new_size` once the remainder is taken in (:384-388). -/
def absorb (orig_hole_size size new_size : Nat) : Nat × Nat :=
  if sub32 orig_hole_size new_size < sizeofHeader + sizeofFooter then
    (u32 (size + sub32 orig_hole_size new_size), orig_hole_size)
  else (size, new_size)

/-- The block and the hole behind it (:414-440). -/
def fillPlace (place : Place) (end_address size new_size : Nat) : Memory × OrderedArray :=
  let m := writeBlock place.memory place.orig_hole_pos size new_size
  let rest := sub32 place.orig_hole_size new_size
  if rest > 0 then
    addRemainder m place.index end_address (u32 (place.orig_hole_pos + sizeofHeader + size + sizeofFooter)) rest
  else (m, place.index)

def frontSize (p : Nat) : Nat := PAGE_SIZE - sizeofHeader - p % PAGE_SIZE

/-- All parts of the hole hold a header and a footer, and a hole behind the block gets an entry in the index. -/
def AlignFits (heap : Heap) (hole : Block) (size : Nat) : Prop :=
  hole.header % PAGE_SIZE + 20 ≤ PAGE_SIZE - sizeofHeader ∧
  (frontSize hole.header + (size + 20) = hole.size ∨
    frontSize hole.header + (size + 20) + 20 ≤ hole.size ∧
      heap.index.array + 4 * (heap.index.size + 1) ≤ heap.start_address)

/-- The pointer is on a page, and the hole has become blocks, the user's one among them; the rest of the heap is tiled as
before. -/
structure AlignedRight (s' : State) (p : Nat) (left right : List Block) (hole : Block) : Prop where
  aligned : p % PAGE_SIZE = 0
  tiled : ∃ new b, HeapInv s'.memory s'.kheap true (left ++ new ++ right) [] [] ∧ liveBlocks new = [b] ∧ b.pointer = p ∧
    hole.header ≤ b.header ∧ b.fin ≤ hole.fin

variable {s s' : State} {m : Memory} {footed : Bool} {left right blocks : List Block} {hole b c : Block}
    {size i p a e : Nat}

theorem allocFrom_aligned (hp : lookupOrderedArray s.memory i s.kheap.index = hole.header)
    (hsize : sizeOf s.memory hole.header = hole.size) (hlow : PAGE_SIZE ≤ hole.header) (new_size : Nat) :
    allocFrom s i size new_size 1 =
      (u32 ((alignPlace s.memory s.kheap.index hole.header hole.size).orig_hole_pos + sizeofHeader),
        { memory := (fillPlace (alignPlace s.memory s.kheap.index hole.header hole.size) s.kheap.end_address
            (absorb hole.size size new_size).1 (absorb hole.size size new_size).2).1
          kheap := { s.kheap with index := (fillPlace (alignPlace s.memory s.kheap.index hole.header hole.size)
            s.kheap.end_address (absorb hole.size size new_size).1 (absorb hole.size size new_size).2).2 }
          g_usedHeapSize := u32 (s.g_usedHeapSize + (absorb hole.size size new_size).2) }) := by
  have hpage : hole.header / PAGE_SIZE ≠ 0 := by
    unfold PAGE_SIZE at hlow ⊢
    omega
  unfold allocFrom absorb fillPlace
  dsimp only
  rw [hp, hsize, if_pos ⟨Nat.one_ne_zero, hpage⟩]
  split <;> rfl

/-! ## The front -/

variable {pos x new_size F size' new' : Nat} {new : List Block}

theorem alignPlace_pos (m : Memory) (index : OrderedArray) (size : Nat) (h : pos % PAGE_SIZE ≤ PAGE_SIZE - sizeofHeader)
    (hlt : pos + frontSize pos + sizeofHeader < 2 ^ 32) :
    alignPlace m index pos size = ⟨writeFooter (writeHeader m pos 1 (frontSize pos))
      (sub32 (pos + frontSize pos) sizeofFooter) pos,
      index, pos + frontSize pos, sub32 size (sizeOf (writeFooter (writeHeader m pos 1 (frontSize pos))
        (sub32 (pos + frontSize pos) sizeofFooter) pos) pos)⟩ := by
  unfold frontSize at *
  unfold PAGE_SIZE sizeofHeader at *
  have hpage : u32 (pos + 0x1000 - pos % 0x1000) = pos + 0x1000 - pos % 0x1000 := u32_of_lt (by omega)
  have hlocation : sub32 (pos + 0x1000 - pos % 0x1000) 12 = pos + (0x1000 - 12 - pos % 0x1000) := by
    rw [sub32_of_le (by omega) (by omega)]
    omega
  have hfront : sub32 (0x1000 - pos % 0x1000) 12 = 0x1000 - 12 - pos % 0x1000 := by
    rw [sub32_of_le (by omega) (by omega)]
    omega
  unfold alignPlace PAGE_SIZE sizeofHeader
  rw [hpage, hlocation, hfront]

/-- **The front** is a hole of its own, where it holds a header and a footer. -/
theorem alignPlace_spec (m : Memory) (index : OrderedArray) (size : Nat)
    (h : pos % PAGE_SIZE + 20 ≤ PAGE_SIZE - sizeofHeader) (hlt : pos + frontSize pos + sizeofHeader < 2 ^ 32) :
    ∃ m', alignPlace m index pos size = ⟨m', index, pos + frontSize pos, sub32 size (frontSize pos)⟩ ∧
      Laid m' true [⟨pos, frontSize pos, true⟩] pos (pos + frontSize pos) ∧
      Set.EqOn m' m (Set.Ico pos (pos + frontSize pos))ᶜ := by
  have hroom : 20 ≤ frontSize pos := by
    unfold frontSize
    omega
  have hfooter : sub32 (pos + frontSize pos) sizeofFooter = (⟨pos, frontSize pos, true⟩ : Block).footer := by
    rw [sub32_of_le (by unfold sizeofFooter; omega) (by unfold sizeofHeader at hlt; omega)]
    rfl
  have hfoot : (⟨pos, frontSize pos, true⟩ : Block).footer = pos + frontSize pos - 8 := rfl
  have hhead := headed_writeHeader m ⟨pos, frontSize pos, true⟩ hroom (by dsimp only; omega)
  have hhead' : Headed (writeFooter (writeHeader m pos 1 (frontSize pos)) _ pos) ⟨pos, frontSize pos, true⟩ :=
      hhead.congr fun x hx =>
    writeFooter_outside _ (.inl (show x < (⟨pos, frontSize pos, true⟩ : Block).footer by
      have : x < pos + 12 := hx.2
      omega)) _
  rw [alignPlace_pos m index size (by omega) hlt, hfooter]
  refine ⟨_, ?_, laid_singleton hhead' (footed_writeFooter _ ⟨pos, frontSize pos, true⟩ (by dsimp only; omega)),
    fun x hx => ?_⟩
  · rw [hhead'.size]
  · rw [mem_compl_iff, mem_Ico] at hx
    rw [writeFooter_outside _ (by omega), writeHeader_outside m (by omega)]

/-! ## Where all parts are large enough -/

theorem holeHeaders_hole (blocks : List Block) (left : List Block) (h : hole.hole = true) :
    (holeHeaders (left ++ hole :: blocks)).Perm (hole.header :: (holeHeaders left ++ holeHeaders blocks)) := by
  rw [holeHeaders_append, holeHeaders_cons_hole h]
  exact perm_middle

/-- What `allocFrom` makes of a hole for a block on a page. -/
def alignBlocks (b : Block) (size : Nat) : List Block :=
  if frontSize b.header + (size + 20) = b.size then
    [⟨b.header, frontSize b.header, true⟩, ⟨b.header + frontSize b.header, size + 20, false⟩]
  else
    [⟨b.header, frontSize b.header, true⟩, ⟨b.header + frontSize b.header, size + 20, false⟩,
      ⟨b.header + frontSize b.header + (size + 20), b.size - frontSize b.header - (size + 20), true⟩]

def alignEntries (r : Nat → Nat → Prop) [DecidableRel r] (l : List Nat) (b : Block) (size : Nat) : List Nat :=
  if frontSize b.header + (size + 20) = b.size then l else l.orderedInsert r (b.header + frontSize b.header + (size + 20))

theorem liveBlocks_alignBlocks (b : Block) (size : Nat) :
    liveBlocks (alignBlocks b size) = [⟨b.header + frontSize b.header, size + 20, false⟩] := by
  unfold alignBlocks
  split <;> rfl

theorem entries_outside (h : HeapInv s.memory s.kheap footed (left ++ hole :: right) [] [])
    (hout : Set.EqOn m s.memory (Set.Ico hole.header hole.fin)ᶜ) :
    entries m s.kheap.index = entries s.memory s.kheap.index := by
  have hstart := (h.bounds (b := hole) (by simp)).2.1
  have hbelow := h.below
  refine entries_congr fun x hx => hout ?_
  have := hx.2
  rw [mem_compl_iff, mem_Ico]
  omega

section Fill

variable {m₁ : Memory} {F : Nat}

section

variable (h : HeapInv s.memory s.kheap footed (left ++ hole :: right) [] [])
    (hfresh : footed = false → left = [] ∧ right = []) (hhole : hole.hole = true)
    (hfront : Laid m₁ true [⟨hole.header, F, true⟩] hole.header (hole.header + F))
    (hout₁ : Set.EqOn m₁ s.memory (Set.Ico hole.header (hole.header + F))ᶜ)
include h hfresh hhole hfront hout₁

theorem fillPlace_exact (hexact : F + (size + 20) = hole.size) :
    ∃ m₂, fillPlace ⟨m₁, s.kheap.index, hole.header + F, hole.size - F⟩ s.kheap.end_address size (size + 20) =
    (m₂, s.kheap.index) ∧
      HeapInv m₂ s.kheap true (left ++ [⟨hole.header, F, true⟩, ⟨hole.header + F, size + 20, false⟩] ++ right) [] [] ∧
      entries m₂ s.kheap.index = entries s.memory s.kheap.index := by
  obtain ⟨-, -, -, -, htop⟩ := h.bounds (b := hole) (by simp)
  obtain ⟨hleft, -, hright⟩ := h.sides hfresh
  have hfin : hole.fin = hole.header + hole.size := rfl
  have hsize : hole.size - F = size + 20 := by omega
  obtain ⟨m₂, hwrite, hhead₂, hfoot₂, hout₂⟩ := writeBlock_spec m₁ ⟨hole.header + F, size + 20, false⟩ rfl
    (by dsimp only; omega) (by show hole.header + F + (size + 20) < 2 ^ 32; omega)
  have hend₂ : (⟨hole.header + F, size + 20, false⟩ : Block).fin = hole.fin := by
    show hole.header + F + (size + 20) = hole.fin
    omega
  rw [hend₂] at hout₂
  have hblock : Laid m₂ true [⟨hole.header + F, size + 20, false⟩] (hole.header + F) hole.fin :=
    hend₂ ▸ laid_singleton hhead₂ hfoot₂
  have hkept : Laid m₂ true [⟨hole.header, F, true⟩] hole.header (hole.header + F) := hfront.congr fun x hx => hout₂ <| by
    have := hx.2
    rw [mem_compl_iff, mem_Ico]
    dsimp only
    omega
  have hlaid : Laid m₂ true [⟨hole.header, F, true⟩, ⟨hole.header + F, size + 20, false⟩] hole.header hole.fin :=
    laid_append.2 ⟨_, hkept, hblock⟩
  have hout : Set.EqOn m₂ s.memory (Set.Ico hole.header hole.fin)ᶜ := fun x hx => by
    rw [mem_compl_iff, mem_Ico] at hx
    refine (hout₂ ?_).trans (hout₁ ?_) <;> rw [mem_compl_iff, mem_Ico]
    · dsimp only
      omega
    · omega
  refine ⟨m₂, ?_, h.replace hleft hlaid hright hout ?_, entries_outside h hout⟩
  · unfold fillPlace
    dsimp only
    rw [hsize, if_neg (by rw [sub32_of_le le_rfl (by omega)]; omega)]
    exact congrArg (·, s.kheap.index) hwrite
  · refine (h.index.trans (holeHeaders_hole right left hhole)).trans ?_
    simp only [holeHeaders_append, nil_append, append_assoc]
    exact perm_middle.symm

theorem fillPlace_more (hmore : F + (size + 20) + 20 ≤ hole.size)
    (hroom : s.kheap.index.array + 4 * (s.kheap.index.size + 1) ≤ s.kheap.start_address) :
    ∃ m₃ index₃, fillPlace ⟨m₁, s.kheap.index, hole.header + F, hole.size - F⟩ s.kheap.end_address size (size + 20) =
    (m₃, index₃) ∧
      HeapInv m₃ { s.kheap with index := index₃ } true
      (left ++ [⟨hole.header, F, true⟩, ⟨hole.header + F, size + 20, false⟩,
        ⟨hole.header + F + (size + 20), hole.size - F - (size + 20), true⟩] ++ right) [] [] ∧
      entries m₃ index₃ = (entries s.memory s.kheap.index).orderedInsert (bySize m₃) (hole.header + F + (size + 20)) := by
  obtain ⟨-, -, hend, -, htop⟩ := h.bounds (b := hole) (by simp)
  obtain ⟨hleft, -, hright⟩ := h.sides hfresh
  have hfin : hole.fin = hole.header + hole.size := rfl
  -- the part behind the front, as if it were a hole
  have hback : (⟨hole.header + F, hole.size - F, true⟩ : Block).fin = hole.fin := by
    show hole.header + F + (hole.size - F) = hole.fin
    omega
  obtain ⟨m₂, hadd, hlaid₂, hout₂⟩ := split_spec m₁ (b := ⟨hole.header + F, hole.size - F, true⟩) (n := size + 20)
    (by omega) (by dsimp only; omega) (by dsimp only; omega) (hback ▸ hend) h.top s.kheap.index
  rw [hback] at hlaid₂ hout₂
  dsimp only at hadd hlaid₂ hout₂
  have hlaid : Laid m₂ true [⟨hole.header, F, true⟩, ⟨hole.header + F, size + 20, false⟩,
      ⟨hole.header + F + (size + 20), hole.size - F - (size + 20), true⟩] hole.header hole.fin := by
    refine laid_append.2 ⟨hole.header + F, hfront.congr fun x hx => hout₂ ?_, hlaid₂⟩
    have := hx.2
    rw [mem_compl_iff, mem_Ico]
    omega
  have hout : Set.EqOn m₂ s.memory (Set.Ico hole.header hole.fin)ᶜ := fun x hx => by
    rw [mem_compl_iff, mem_Ico] at hx
    refine (hout₂ ?_).trans (hout₁ ?_) <;> rw [mem_compl_iff, mem_Ico] <;> omega
  have h₂ : HeapInv m₂ s.kheap true (left ++ [⟨hole.header, F, true⟩, ⟨hole.header + F, size + 20, false⟩,
      ⟨hole.header + F + (size + 20), hole.size - F - (size + 20), true⟩] ++ right) [hole.header + F + (size + 20)] [] := by
    refine h.replace hleft hlaid hright hout ?_
    refine ((h.index.trans (holeHeaders_hole right left hhole)).cons (hole.header + F + (size + 20))).trans ?_
    simp only [holeHeaders_append, nil_append, append_assoc]
    refine (List.Perm.swap _ _ _).trans ?_
    exact (perm_append_comm_assoc (holeHeaders left)
      [hole.header, hole.header + F + (size + 20)] (holeHeaders right)).symm
  obtain ⟨m₃, index₃, hinsert, h₃, hordered⟩ := h₂.insert (by omega) hroom
  rw [entries_outside h hout] at hordered
  refine ⟨m₃, index₃, ?_, h₃, hordered⟩
  have hdiff : sub32 (hole.size - F) (size + 20) = hole.size - F - (size + 20) := sub32_of_le (by omega) (by omega)
  have hpos : u32 (hole.header + F + sizeofHeader + size + sizeofFooter) = hole.header + F + (size + 20) := by
    rw [u32_of_lt (by unfold sizeofHeader sizeofFooter; omega)]
    unfold sizeofHeader sizeofFooter
    omega
  have hadd' := hadd.trans hinsert
  rw [show size + 20 - 20 = size by omega] at hadd'
  unfold fillPlace
  rw [hdiff, if_pos (by omega), hpos]
  exact hadd'

end

end Fill

theorem memoryAlloc_aligned_fits (h : HeapInv s.memory s.kheap footed (left ++ hole :: right) [] [])
    (hfresh : footed = false → left = [] ∧ right = []) (hlow : PAGE_SIZE ≤ hole.header) (hhole : hole.hole = true)
    (hp : lookupOrderedArray s.memory i s.kheap.index = hole.header) (hfits : AlignFits s.kheap hole size) :
    ∃ s', allocFrom s i size (size + 20) 1 = (hole.header + frontSize hole.header + sizeofHeader, s') ∧
      HeapInv s'.memory s'.kheap true (left ++ alignBlocks hole size ++ right) [] [] ∧
      s'.kheap.start_address = s.kheap.start_address ∧ s'.kheap.end_address = s.kheap.end_address ∧
      s'.g_usedHeapSize = u32 (s.g_usedHeapSize + (size + 20)) ∧
      entries s'.memory s'.kheap.index = alignEntries (bySize s'.memory) (entries s.memory s.kheap.index) hole size := by
  obtain ⟨hoffset, hfit⟩ := hfits
  obtain ⟨-, -, -, -, htop⟩ := h.bounds (b := hole) (by simp)
  have hhead := (h.sides hfresh).2.1
  have hfin : hole.fin = hole.header + hole.size := rfl
  unfold alignBlocks alignEntries
  obtain ⟨m₁, hplace, hfront, hout₁⟩ := alignPlace_spec s.memory s.kheap.index hole.size hoffset
    (by unfold sizeofHeader; omega)
  generalize hF : frontSize hole.header = F at *
  have habsorb : absorb hole.size size (size + 20) = (size, size + 20) := by
    refine if_neg ?_
    rw [sub32_of_le (by omega) (by omega)]
    unfold frontSize at hF
    unfold sizeofHeader sizeofFooter at *
    omega
  have hrest : sub32 hole.size F = hole.size - F := sub32_of_le (by omega) (by omega)
  have hpointer : u32 (hole.header + F + sizeofHeader) = hole.header + F + sizeofHeader :=
    u32_of_lt (by unfold sizeofHeader; omega)
  rw [allocFrom_aligned hp hhead.size hlow, habsorb, hplace, hrest]
  rcases hfit with hexact | ⟨hmore, hroom⟩
  · obtain ⟨m₂, hfill, hinv, hentries⟩ := fillPlace_exact h hfresh hhole hfront hout₁ hexact
    simp only [if_pos hexact, hfill]
    exact ⟨_, Prod.ext hpointer rfl, hinv, rfl, rfl, rfl, hentries⟩
  · obtain ⟨m₃, index₃, hfill, hinv, hentries⟩ := fillPlace_more h hfresh hhole hfront hout₁ hmore hroom
    have hne : F + (size + 20) ≠ hole.size := by omega
    simp only [if_neg hne, hfill]
    exact ⟨_, Prod.ext hpointer rfl, hinv, rfl, rfl, rfl, hentries⟩

/-! ## Where one is not -/

theorem absorb_spec {n S : Nat} (hn : n = u32 (size + 20)) (hS : S < 2 ^ 32) :
    (absorb S size n).2 < 2 ^ 32 ∧ u32 ((absorb S size n).1 + 20) = (absorb S size n).2 ∧
      (absorb S size n = (size, n) ∨ (absorb S size n).2 = S) := by
  subst hn
  unfold absorb
  split
  · refine ⟨hS, ?_, .inr rfl⟩
    unfold sub32 u32
    omega
  · exact ⟨u32_lt _, rfl, .inl rfl⟩

/-- What is between two lists of blocks that stay. -/
theorem Laid.middle {m₁ m₂ : Memory} {f₁ f₂ : Bool} {y : Nat} (h : Laid m footed (left ++ new ++ right) a e)
    (hleft : Laid m₁ f₁ left a x) (hright : Laid m₂ f₂ right y e) : Laid m footed left a x ∧ Laid m footed new x y := by
  obtain ⟨y', h', hright'⟩ := laid_append.1 h
  obtain ⟨x', hleft', hnew⟩ := laid_append.1 h'
  have hx : x' = x := hleft'.sum_size.symm.trans hleft.sum_size
  have hy : y' = y := Nat.add_right_cancel (hright'.sum_size.trans hright.sum_size.symm)
  subst hx hy
  exact ⟨hleft', hnew⟩

theorem Laid.first_or (h : Laid m footed blocks a e) (hb : b ∈ blocks) : b.header = a ∨ a + 20 ≤ b.header := by
  cases blocks with
  | nil => cases hb
  | cons c rest =>
    obtain ⟨rfl, hhead, -, hrest⟩ := h
    rcases mem_cons.1 hb with rfl | hb
    · exact .inl rfl
    · have := (hrest.bounds b hb).1
      have := hhead.room
      unfold Block.fin at *
      exact .inr (by omega)

theorem Laid.apart (h : Laid m footed blocks a e) (hb : b ∈ blocks) (hc : c ∈ blocks) :
    b = c ∨ b.fin ≤ c.header ∨ c.fin ≤ b.header := by
  obtain ⟨left, right, rfl, hleft, -, -, hright⟩ := h.split hb
  rcases mem_append.1 hc with hc | hc
  · exact .inr (.inr (hleft.bounds c hc).2.1)
  · rcases mem_cons.1 hc with rfl | hc
    · exact .inl rfl
    · exact .inr (.inl (hright.bounds c hc).1)

theorem fillPlace_rest (place : Place) {end_address : Nat} (hlt : new_size < 2 ^ 32) (hnew : u32 (size + 20) = new_size)
    (hfin : place.orig_hole_pos + place.orig_hole_size < 2 ^ 32) (hroom : 8 ≤ place.orig_hole_pos + place.orig_hole_size)
    (hend : place.orig_hole_pos + place.orig_hole_size ≤ end_address) (hrest : sub32 place.orig_hole_size new_size > 0) :
    ∃ m', fillPlace place end_address size new_size = (m', { place.index with size := place.index.size + 1 }) ∧
      u32 (place.orig_hole_pos + new_size) ∈ entries m' { place.index with size := place.index.size + 1 } ∧
      Set.EqOn m' (writeFooter (writeHeader (writeBlock place.memory place.orig_hole_pos size new_size)
        (u32 (place.orig_hole_pos + new_size)) 1 (sub32 place.orig_hole_size new_size))
        (place.orig_hole_pos + place.orig_hole_size - 8) (u32 (place.orig_hole_pos + new_size)))
        (Set.Ico place.index.array (place.index.array + 4 * (place.index.size + 1)))ᶜ := by
  have hpos : u32 (place.orig_hole_pos + sizeofHeader + size + sizeofFooter) = u32 (place.orig_hole_pos + new_size) := by
    subst hnew
    unfold u32 sizeofHeader sizeofFooter
    omega
  have hfooter : sub32 (u32 (u32 (place.orig_hole_pos + new_size) + sub32 place.orig_hole_size new_size)) sizeofFooter =
      place.orig_hole_pos + place.orig_hole_size - 8 := by
    have hsum : u32 (u32 (place.orig_hole_pos + new_size) + sub32 place.orig_hole_size new_size) =
        place.orig_hole_pos + place.orig_hole_size := by
      unfold sub32 u32
      omega
    exact hsum.symm ▸ sub32_of_le hroom hfin
  obtain ⟨m', hinsert, hperm, hout⟩ := insertOrderedArray_spec header_t_less_than
    (writeFooter (writeHeader (writeBlock place.memory place.orig_hole_pos size new_size)
        (u32 (place.orig_hole_pos + new_size)) 1 (sub32 place.orig_hole_size new_size))
        (place.orig_hole_pos + place.orig_hole_size - 8) (u32 (place.orig_hole_pos + new_size)))
    (u32_lt (place.orig_hole_pos + new_size)) place.index
  refine ⟨m', ?_, hperm.symm.subset (by simp), hout⟩
  unfold fillPlace addRemainder
  dsimp only
  rw [if_pos hrest, hpos, hfooter, if_pos (by omega)]
  exact hinsert

theorem frontSize_of_le {header : Nat} (hpos : pos < 2 ^ 32) (hle : pos ≤ header)
    (hpointer : header + 12 = u32 (sub32 (u32 (pos + PAGE_SIZE - pos % PAGE_SIZE)) sizeofHeader + sizeofHeader)) :
    pos % PAGE_SIZE ≤ PAGE_SIZE - sizeofHeader ∧ pos + frontSize pos + sizeofHeader < 2 ^ 32 ∧
    header = pos + frontSize pos := by
  unfold frontSize PAGE_SIZE sizeofHeader at *
  unfold sub32 u32 at hpointer
  omega

theorem frontSize_of_laid (h : Laid m footed new pos e) (hb : b ∈ new)
    (hheader : b.header = pos + frontSize pos) : frontSize pos = 0 ∨ 20 ≤ frontSize pos := by
  rcases h.first_or hb with hfirst | hfirst <;> omega

theorem alignPlace_eq (m : Memory) (index : OrderedArray) (hoffset : pos % PAGE_SIZE ≤ PAGE_SIZE - sizeofHeader)
    (hlt : pos + frontSize pos + sizeofHeader < 2 ^ 32) (hfront : frontSize pos = 0 ∨ 20 ≤ frontSize pos)
    (hlow : PAGE_SIZE ≤ pos)
    (hle : frontSize pos ≤ size) (hsize : size < 2 ^ 32) :
    alignPlace m index pos size = ⟨writeFooter (writeHeader m pos 1 (frontSize pos)) (pos + frontSize pos - 8) pos, index,
      pos + frontSize pos, size - frontSize pos⟩ := by
  unfold PAGE_SIZE at hlow
  have hfooter : sub32 (pos + frontSize pos) sizeofFooter = pos + frontSize pos - 8 :=
    sub32_of_le (by unfold sizeofFooter; omega) (by omega)
  have hkept : sizeOf (writeFooter (writeHeader m pos 1 (frontSize pos)) (pos + frontSize pos - 8) pos) pos =
      frontSize pos := by
    have hread : read32 (writeHeader m pos 1 (frontSize pos)) (pos + 8) = frontSize pos :=
      read32_write32_self _ _ (by omega)
    refine (read32_congr fun x hx => writeFooter_outside _ ?_ pos).trans hread
    have h1 := hx.1
    have h2 := hx.2
    omega
  rw [alignPlace_pos m index size hoffset hlt, hfooter, hkept, sub32_of_le hle hsize]

theorem Laid.headerOf_last (h : Laid m true blocks a e) (hne : a ≠ e) : headerOf m (e - 8) < e := by
  rcases eq_nil_or_concat blocks with rfl | ⟨before, b, rfl⟩
  · exact absurd h hne
  · rw [concat_eq_append] at h
    obtain ⟨x, -, -, hhead, hfoot, hfin⟩ := laid_append.1 h
    replace hfin : b.fin = e := hfin
    have hroom := hhead.room
    subst hfin
    have hheader := (hfoot rfl).header
    unfold Block.footer at hheader
    unfold Block.fin at hheader ⊢
    omega

theorem writeBlock_outside (m : Memory) (size new_size : Nat) (hhead : x < pos ∨ pos + 12 ≤ x)
    (hfoot : x < u32 (pos + sizeofHeader + size) ∨ u32 (pos + sizeofHeader + size) + 8 ≤ x) :
    writeBlock m pos size new_size x = m x := by
  rw [writeBlock, writeFooter_outside _ hfoot, writeHeader_outside m hhead]

/-- With an empty front, its footer is that of the block to the left, and now points to the wrong header. -/
theorem headerOf_emptyFront (m : Memory) (size new_size : Nat) (hlow : 8 ≤ pos) (hlt : pos < 2 ^ 32)
    (hfoot : u32 (pos + sizeofHeader + size) + 8 ≤ pos - 4 ∨ pos ≤ u32 (pos + sizeofHeader + size)) :
    headerOf (writeBlock (writeFooter (writeHeader m pos 1 0) (pos - 8) pos) pos size new_size) (pos - 8) = pos := by
  have hread : headerOf (writeFooter (writeHeader m pos 1 0) (pos - 8) pos) (pos - 8) = pos := read32_write32_self _ _ hlt
  refine (read32_congr fun x hx => writeBlock_outside _ _ _ (.inl ?_) ?_).trans hread
  · have := hx.2
    omega
  · have h1 := hx.1
    have h2 := hx.2
    omega

theorem sizeOf_writeBlock (m : Memory) (hlt : new_size < 2 ^ 32)
    (hfoot : pos + 12 ≤ u32 (pos + sizeofHeader + size)) : sizeOf (writeBlock m pos size new_size) pos = new_size := by
  have hread : sizeOf (writeHeader m pos 0 new_size) pos = new_size := read32_write32_self _ _ hlt
  refine (read32_congr fun x hx => writeFooter_outside _ (.inl ?_) pos).trans hread
  have := hx.2
  omega

theorem footer_of_rest {rest : Nat} (hnew : u32 (size + 20) = new_size) (hrest : rest = u32 (pos + new_size))
    (hlow : 8 ≤ rest) : u32 (pos + sizeofHeader + size) = rest - 8 := by
  subst hnew hrest
  unfold u32 sizeofHeader at *
  omega

/-! The four writes of a block with a hole behind it, and what is read in them. -/

section Writes

variable {m₁ : Memory} {pos new_size rest next foot : Nat}

theorem headerOf_rest (hnext : next + 12 ≤ x + 4 ∨ x + 8 ≤ next) (hfoot : x + 8 ≤ foot) :
    headerOf (writeFooter (writeHeader (writeBlock m₁ pos size new_size) next 1 rest) foot next) x =
      headerOf (writeBlock m₁ pos size new_size) x := by
  refine read32_congr fun y hy => ?_
  have h1 := hy.1
  have h2 := hy.2
  rw [writeFooter_outside _ (by omega), writeHeader_outside _ (by omega)]

theorem sizeOf_block_rest (hlt : new_size < 2 ^ 32) (hblock : pos + 12 ≤ u32 (pos + sizeofHeader + size))
    (hnext : pos + 12 ≤ next) (hfoot : pos + 12 ≤ foot) :
    sizeOf (writeFooter (writeHeader (writeBlock m₁ pos size new_size) next 1 rest) foot next) pos = new_size := by
  refine (read32_congr fun y hy => ?_).trans (sizeOf_writeBlock m₁ hlt hblock)
  have h2 := hy.2
  rw [writeFooter_outside _ (by omega), writeHeader_outside _ (by omega)]

theorem sizeOf_rest (hlt : rest < 2 ^ 32) (hfoot : next + 12 ≤ foot) :
    sizeOf (writeFooter (writeHeader m₁ next 1 rest) foot next) next = rest := by
  have hread : sizeOf (writeHeader m₁ next 1 rest) next = rest := read32_write32_self _ _ hlt
  refine (read32_congr fun y hy => writeFooter_outside _ ?_ next).trans hread
  have h2 := hy.2
  omega

end Writes

/-- What a right outcome says of its parts: the block lies behind a front `F` that is empty or large, and `fillPlace` was
given `size'` and `new'` for it. -/
structure AlignedParts (s s' : State) (left new : List Block) (hole b : Block) (F size size' new' : Nat) : Prop where
  before : Laid s'.memory true left s.kheap.start_address hole.header
  inside : Laid s'.memory true new hole.header hole.fin
  mem : b ∈ new
  live : b.hole = false
  header : b.header = hole.header + F
  fin_le : b.fin ≤ hole.fin
  room : 20 ≤ b.size
  front : F = 0 ∨ 20 ≤ F
  first : F = 0 → s.kheap.start_address + 20 ≤ hole.header
  new_lt : new' < 2 ^ 32
  new_eq : u32 (size' + 20) = new'
  size_or : new' = hole.size ∨ new' = u32 (size + 20)
  memory : (s'.memory, s'.kheap) =
    let filled := fillPlace ⟨writeFooter (writeHeader s.memory hole.header 1 F) (hole.header + F - 8) hole.header,
      s.kheap.index, hole.header + F, hole.size - F⟩ s.kheap.end_address size' new'
    (filled.1, { s.kheap with index := filled.2 })

theorem alignedParts_of_right (h : HeapInv s.memory s.kheap footed (left ++ hole :: right) [] [])
    (hfresh : footed = false → left = [] ∧ right = []) (hpage : s.kheap.start_address % PAGE_SIZE = 0)
    (hlow : PAGE_SIZE ≤ s.kheap.start_address) (hp : lookupOrderedArray s.memory i s.kheap.index = hole.header)
    (hs : allocFrom s i size (u32 (size + 20)) 1 = (p, s')) (hr : AlignedRight s' p left right hole) :
    ∃ new b size' new', HeapInv s'.memory s'.kheap true (left ++ new ++ right) [] [] ∧
      hole.header % PAGE_SIZE ≤ PAGE_SIZE - sizeofHeader ∧
      AlignedParts s s' left new hole b (frontSize hole.header) size size' new' := by
  obtain ⟨-, new, b, hinv, hlive, hpointer, hle, hbfin⟩ := hr
  obtain ⟨-, hstart, -, -, htop⟩ := h.bounds (b := hole) (by simp)
  obtain ⟨hleft, hhead, hright⟩ := h.sides hfresh
  have hholeFin : hole.fin = hole.header + hole.size := rfl
  have hbfin' : b.fin = b.header + b.size := rfl
  have hbmem : b ∈ liveBlocks new := by rw [hlive]; simp
  obtain ⟨hbnew, hblive⟩ := mem_filter.1 hbmem
  obtain ⟨-, -, -, hbroom, -⟩ := hinv.bounds (b := b) (by simp [hbnew])
  have halloc := hs.symm.trans (allocFrom_aligned hp hhead.size (Nat.le_trans hlow hstart) (u32 (size + 20)))
  rw [Prod.mk.injEq] at halloc
  obtain ⟨hpeq, hs'⟩ := halloc
  obtain ⟨hoffset, hlt, hbheader⟩ := frontSize_of_le (by omega) hle (hpointer.trans hpeq)
  have hlaid : Laid s'.memory true (left ++ new ++ right) s.kheap.start_address s.kheap.end_address := by
    have hinvLaid := hinv.laid
    rw [hs'] at hinvLaid ⊢
    exact hinvLaid
  obtain ⟨hleft', hnew⟩ := hlaid.middle hleft hright
  have hfront := frontSize_of_laid hnew hbnew hbheader
  have hplace := alignPlace_eq s.memory s.kheap.index hoffset hlt hfront (Nat.le_trans hlow hstart)
    (show frontSize hole.header ≤ hole.size by omega) (by omega)
  rw [hplace] at hs'
  obtain ⟨hnewlt, hnewsum, hnewcases⟩ := absorb_spec (show u32 (size + 20) = u32 (size + 20) from rfl)
    (show hole.size < 2 ^ 32 by omega)
  refine ⟨new, b, _, _, hinv, hoffset, hleft', hnew, hbnew,
    by simpa using hblive, hbheader, hbfin, hbroom, hfront, fun hzero => ?_,
    hnewlt, hnewsum, hnewcases.elim (fun heq => .inr (by rw [heq])) .inl, by rw [hs']⟩
  unfold frontSize PAGE_SIZE sizeofHeader at *
  omega

section

variable (h : AlignedParts s s' left new hole b F size size' new')
include h

theorem AlignedParts.front_ne (hwrong : F = 0 → headerOf s'.memory (hole.header - 8) = hole.header) : 20 ≤ F := by
  refine h.front.resolve_left fun hzero => ?_
  have hfirst := h.first hzero
  have hlast := h.before.headerOf_last (by omega)
  rw [hwrong hzero] at hlast
  exact Nat.lt_irrefl _ hlast

theorem AlignedParts.exact (hlow : PAGE_SIZE ≤ hole.header) (htop : hole.fin < 2 ^ 32) (hsize : size < 2 ^ 32)
    (hrest : ¬ sub32 (hole.size - F) new' > 0) :
    20 ≤ F ∧ F + (size + 20) = hole.size := by
  have hfin : hole.fin = hole.header + hole.size := rfl
  have hbfin : b.fin = b.header + b.size := rfl
  have hfin_le := h.fin_le
  have hheader := h.header
  have hroom := h.room
  have hnewlt := h.new_lt
  have hnew : new' = hole.size - F := by
    unfold sub32 u32 at hrest
    omega
  have hmemory := congrArg Prod.fst h.memory
  rw [show fillPlace ⟨writeFooter (writeHeader s.memory hole.header 1 F) (hole.header + F - 8) hole.header, s.kheap.index,
    hole.header + F, hole.size - F⟩ s.kheap.end_address size' new' = (_, s.kheap.index) from if_neg hrest] at hmemory
  dsimp only at hmemory
  have hF : 20 ≤ F := h.front_ne fun hzero => by
    subst hzero
    rw [hmemory]
    have hsum := h.new_eq
    unfold PAGE_SIZE at hlow
    exact headerOf_emptyFront s.memory size' new' (by omega) (by omega) (.inr (by unfold u32 sizeofHeader at *; omega))
  have hnewSize : new' = u32 (size + 20) := h.size_or.resolve_left (by omega)
  unfold u32 at hnewSize
  omega

theorem AlignedParts.more (hinv : HeapInv s'.memory s'.kheap true (left ++ new ++ right) [] [])
    (hright : Laid m footed right hole.fin s.kheap.end_address)
    (hlow : PAGE_SIZE ≤ s.kheap.start_address) (htop : hole.fin < 2 ^ 32) (hsize : size < 2 ^ 32)
    (hrest : sub32 (hole.size - F) new' > 0) :
    20 ≤ F ∧ F + (size + 20) + 20 ≤ hole.size ∧
      s.kheap.index.array + 4 * (s.kheap.index.size + 1) ≤ s.kheap.start_address := by
  have hfin : hole.fin = hole.header + hole.size := rfl
  have hbfin : b.fin = b.header + b.size := rfl
  have hfin_le := h.fin_le
  have hheader := h.header
  have hbroom := h.room
  have hnewlt := h.new_lt
  have hsum := h.new_eq
  have hstart := h.before.le
  have hend := hright.le
  have hlow' : 4096 ≤ s.kheap.start_address := hlow
  have hfoot : hole.header + F + (hole.size - F) = hole.fin := by omega
  obtain ⟨m', hfill, hmem, hout⟩ := fillPlace_rest
    ⟨writeFooter (writeHeader s.memory hole.header 1 F) (hole.header + F - 8) hole.header, s.kheap.index, hole.header + F,
      hole.size - F⟩ hnewlt hsum (hfoot.symm ▸ htop) (by dsimp only; omega) (hfoot.symm ▸ hend) hrest
  dsimp only at hmem hout
  have hmemory := h.memory
  rw [hfill] at hmemory
  obtain ⟨hm, hkheap⟩ := Prod.mk.inj hmemory
  rw [hm, hkheap] at hinv
  have hroom := hinv.below
  dsimp only at hroom
  -- the hole behind the block is a block of its own, apart from the user's
  obtain ⟨c, hcmem, hchole, hcheader⟩ := mem_holeHeaders (hinv.index.subset (by simpa using hmem))
  obtain ⟨-, hcstart, -, hcroom, -⟩ := hinv.bounds hcmem
  dsimp only at hcstart
  have hcfin : c.fin = c.header + c.size := rfl
  have hfooter := footer_of_rest hsum hcheader (by omega)
  rw [← hcheader, hfoot] at hout
  have hkept : ∀ {x}, s.kheap.start_address ≤ x → sizeOf m' x = _ := fun hx => read32_congr fun y hy => hout (by
    have := hy.1
    rw [mem_compl_iff, mem_Ico]
    omega)
  have hapart : b.fin ≤ c.header ∨ c.fin ≤ b.header := by
    refine (hinv.laid.apart (by simp [h.mem]) hcmem).resolve_left fun heq => ?_
    have hlive := h.live
    rw [heq, hchole] at hlive
    cases hlive
  have hF : 20 ≤ F := h.front_ne fun hzero => by
    subst hzero
    have hfirst := h.first rfl
    rw [hm]
    refine (read32_congr fun y hy => hout ?_).trans ((headerOf_rest (by omega) (by omega)).trans
      (headerOf_emptyFront s.memory size' new' (by omega) (by omega) (by
        rw [← Nat.add_zero hole.header, hfooter]
        omega)))
    have := hy.1
    rw [mem_compl_iff, mem_Ico]
    omega
  refine ⟨hF, ?_, hroom⟩
  rcases hapart with hbehind | hbefore
  · obtain ⟨-, -, -, -, hbhead, -⟩ := h.inside.split h.mem
    rw [hm] at hbhead
    have hbsize : b.size = new' := by
      rw [← hbhead.size, hkept (by omega), hheader]
      exact sizeOf_block_rest hnewlt (by rw [hfooter]; omega) (by omega) (by omega)
    have hcsum : c.header = b.fin := by
      unfold u32 at hcheader
      omega
    have hcend : c.fin ≤ hole.fin := by
      rcases mem_append.1 hcmem with hc | hc
      · rcases mem_append.1 hc with hc | hc
        · have := (h.before.bounds c hc).2.1
          omega
        · exact (h.inside.bounds c hc).2.1
      · have := (hright.bounds c hc).1
        unfold sub32 u32 at hrest
        omega
    have hnewSize : new' = u32 (size + 20) := h.size_or.resolve_left (by omega)
    unfold u32 at hnewSize
    omega
  · -- a block that is not behind the user's has the size of what wrapped
    obtain ⟨-, -, -, -, hchead, -⟩ := hinv.laid.split hcmem
    have hcsize : c.size = sub32 (hole.size - F) new' := by
      rw [← hchead.size, hkept (by omega)]
      exact sizeOf_rest (u32_lt _) (by omega)
    unfold sub32 u32 at *
    omega

end

theorem alignFits_of_right (h : HeapInv s.memory s.kheap footed (left ++ hole :: right) [] [])
    (hfresh : footed = false → left = [] ∧ right = []) (hpage : s.kheap.start_address % PAGE_SIZE = 0)
    (hlow : PAGE_SIZE ≤ s.kheap.start_address) (hp : lookupOrderedArray s.memory i s.kheap.index = hole.header)
    (hsize : size < 2 ^ 32) (hs : allocFrom s i size (u32 (size + 20)) 1 = (p, s'))
    (hr : AlignedRight s' p left right hole) :
    AlignFits s.kheap hole size := by
  obtain ⟨-, hstart, -, -, htop⟩ := h.bounds (b := hole) (by simp)
  obtain ⟨-, -, hright⟩ := h.sides hfresh
  obtain ⟨new, b, size', new', hinv, hoffset, hparts⟩ := alignedParts_of_right h hfresh hpage hlow hp hs hr
  have hF : frontSize hole.header = PAGE_SIZE - sizeofHeader - hole.header % PAGE_SIZE := rfl
  by_cases hrest : sub32 (hole.size - frontSize hole.header) new' > 0
  · obtain ⟨hfront, hmore, hroom⟩ := hparts.more hinv hright hlow htop hsize hrest
    exact ⟨by omega, .inr ⟨hmore, hroom⟩⟩
  · obtain ⟨hfront, hexact⟩ := hparts.exact (Nat.le_trans hlow hstart) htop hsize hrest
    exact ⟨by omega, .inl hexact⟩

/-- **Page-aligned allocation** from the hole that was found is right exactly when all parts are large enough. -/
theorem memoryAlloc_aligned_right_iff (h : HeapInv s.memory s.kheap footed (left ++ hole :: right) [] [])
    (hfresh : footed = false → left = [] ∧ right = []) (hpage : s.kheap.start_address % PAGE_SIZE = 0)
    (hlow : PAGE_SIZE ≤ s.kheap.start_address) (hsize : size < 2 ^ 32)
    (hfind : findSmallestHole s.memory (u32 (size + sizeofHeader + sizeofFooter)) 1 s.kheap = some i)
    (hp : lookupOrderedArray s.memory i s.kheap.index = hole.header) (hhole : hole.hole = true) :
    ∃ p s', memoryAlloc s size 1 = some (p, s') ∧ (AlignedRight s' p left right hole ↔ AlignFits s.kheap hole size) := by
  have halloc : memoryAlloc s size 1 = some (allocFrom s i size (u32 (size + 20)) 1) := by
    rw [memoryAlloc, hfind]
    rfl
  rcases hresult : allocFrom s i size (u32 (size + 20)) 1 with ⟨p, s'⟩
  refine ⟨p, s', halloc.trans (congrArg some hresult), alignFits_of_right h hfresh hpage hlow hp hsize hresult,
    fun hfits => ?_⟩
  obtain ⟨-, hstart, hend, hroom, htop⟩ := h.bounds (b := hole) (by simp)
  have hfin : hole.fin = hole.header + hole.size := rfl
  have hnew : u32 (size + 20) = size + 20 := u32_of_lt (by
    obtain ⟨-, hexact | ⟨hmore, -⟩⟩ := hfits <;> omega)
  obtain ⟨s'', heq, hinv, -⟩ := memoryAlloc_aligned_fits h hfresh (Nat.le_trans hlow hstart) hhole hp hfits
  rw [hnew, heq, Prod.mk.injEq] at hresult
  obtain ⟨rfl, rfl⟩ := hresult
  refine ⟨?_, _, _, hinv, liveBlocks_alignBlocks hole size, rfl, Nat.le_add_right _ _, ?_⟩
  · have hoffset := hfits.1
    unfold frontSize PAGE_SIZE sizeofHeader at *
    omega
  · show hole.header + frontSize hole.header + (size + 20) ≤ hole.fin
    obtain ⟨-, hexact | ⟨hmore, -⟩⟩ := hfits <;> omega

def twoPages (m : Memory) : Option State := createKernelHeap ⟨m, ⟨⟨0, 0, 0⟩, 0, 0⟩, 0⟩ 0x1000 0x84000

theorem twoPages_spec (h : twoPages m = some s) :
    HeapInv s.memory s.kheap false [⟨0x82000, 0x2000, true⟩] [] [] :=
  (createKernelHeap_spec (by decide) (by decide) h).1

/-- 100 bytes behind the first page of the heap. -/
theorem memoryAlloc_aligned_right_hundred : ∃ s p s', twoPages (fun _ => 0) = some s ∧ memoryAlloc s 100 1 = some (p, s') ∧
    AlignedRight s' p [] [] ⟨0x82000, 0x2000, true⟩ := by
  have hrun : (twoPages fun _ => 0).map (fun s => (findSmallestHole s.memory 120 1 s.kheap,
      lookupOrderedArray s.memory 0 s.kheap.index, s.kheap)) =
      some (some 0, 0x82000, ⟨⟨0x1000, 1, 0x20000⟩, 0x82000, 0x84000⟩) := by decide +kernel
  obtain ⟨s, hs, hfacts⟩ := Option.map_eq_some_iff.1 hrun
  simp only [Prod.mk.injEq] at hfacts
  obtain ⟨hfind, hlook, hkheap⟩ := hfacts
  have h : HeapInv s.memory s.kheap false ([] ++ ⟨0x82000, 0x2000, true⟩ :: []) [] [] := twoPages_spec hs
  obtain ⟨p, s', halloc, hiff⟩ := memoryAlloc_aligned_right_iff h (fun _ => ⟨rfl, rfl⟩) (by rw [hkheap]; rfl)
    (by rw [hkheap]; decide) (show 100 < 2 ^ 32 by decide) hfind hlook rfl
  refine ⟨s, p, s', hs, halloc, hiff.2 ⟨by decide, Or.inr ⟨by decide, ?_⟩⟩⟩
  rw [hkheap]
  decide

/-- The block ends ten bytes before the heap: what is left does not hold its header and its footer. -/
theorem memoryAlloc_aligned_wrong : ¬∀ (s : State) (footed : Bool) (blocks : List Block) (i size : Nat),
    HeapInv s.memory s.kheap footed blocks [] [] → (footed = false → ∃ b, blocks = [b]) →
    s.kheap.start_address % PAGE_SIZE = 0 → PAGE_SIZE ≤ s.kheap.start_address → size < 2 ^ 32 →
    findSmallestHole s.memory (u32 (size + sizeofHeader + sizeofFooter)) 1 s.kheap = some i →
    ∃ p s', memoryAlloc s size 1 = some (p, s') ∧ p % PAGE_SIZE = 0 ∧
      ∃ blocks', HeapInv s'.memory s'.kheap true blocks' [] [] := by
  intro hclaim
  have hrun : (twoPages fun _ => 0).map (fun s => (findSmallestHole s.memory 4098 1 s.kheap, s.kheap)) =
      some (some 0, ⟨⟨0x1000, 1, 0x20000⟩, 0x82000, 0x84000⟩) := by decide +kernel
  have hafter : (twoPages fun _ => 0).bind (fun s => (memoryAlloc s 4078 1).map fun r =>
      (lookupOrderedArray r.2.memory 0 r.2.kheap.index, r.2.kheap.index.size, magicOf r.2.memory 0x83ff6)) =
      some (0x83ff6, 2, 0x90AB90AB) := by decide +kernel
  obtain ⟨s, hs, hfacts⟩ := Option.map_eq_some_iff.1 hrun
  simp only [Prod.mk.injEq] at hfacts
  obtain ⟨hfind, hkheap⟩ := hfacts
  obtain ⟨p, s', halloc, -, blocks', hinv⟩ := hclaim s false _ 0 4078 (twoPages_spec hs) (fun _ => ⟨_, rfl⟩)
    (by rw [hkheap]; rfl) (by rw [hkheap]; decide) (by decide) hfind
  rw [hs, Option.bind_some, halloc, Option.map_some, Option.some.injEq] at hafter
  simp only [Prod.mk.injEq] at hafter
  obtain ⟨hlook, hsize, hmagic⟩ := hafter
  have hmem : 0x83ff6 ∈ entries s'.memory s'.kheap.index := (mem_entries_iff _ _ _).2 ⟨0, by omega, hlook⟩
  obtain ⟨c, hc, -, hheader⟩ := mem_holeHeaders (hinv.index.subset hmem)
  obtain ⟨-, -, -, -, hhead, -⟩ := hinv.laid.split hc
  have hheadMagic := hhead.magic
  rw [hheader, hmagic] at hheadMagic
  exact absurd hheadMagic (by decide)

end KHeap
