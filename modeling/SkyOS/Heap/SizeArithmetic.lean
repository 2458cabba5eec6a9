import SkyOS.Heap.AlignedAlloc

/-!
# Sizes that wrap (`kmalloc`, `calloc`, `malloc_size`)

The header and the footer are added to a size in 32 bits before the search (`:326`), and so is the product of `calloc`
(`:93`). Nobody looks whether the sum or the product has wrapped: a size just below `2^32`, or a product above it, is as
good as a small one.
-/

namespace KHeap

open Machine Bytes OrderedArrays Option

/-- `memset`; an address behind the last is 0 again. -/
def memset (m : Memory) (dest val count : Nat) : Memory := fun a => if sub32 a dest < count then UInt8.ofNat val else m a

/-- `kmalloc` (:98). -/
def kmalloc (s : State) (sz : Nat) : Option (Nat × State) := memoryAlloc s sz 0

/-- `calloc` (:91). -/
def calloc (s : State) (count size : Nat) : Option (Nat × State) :=
  (kmalloc s (u32 (count * size))).map fun (ptr, s) =>
    (ptr, { s with memory := memset s.memory ptr 0 (u32 (count * size)) })

/-- `malloc_size` (:104), which halts at a block that has no bytes for its user. -/
def checkedMallocSize (m : Memory) (ptr : Nat) : Option Nat :=
    if mallocSize m ptr > 0 then some (mallocSize m ptr) else none

/-- A pointer is only returned for a size that fits 32 bits with its header and footer, and `malloc_size` of it is not
less. -/
def KmallocRight (s : State) (sz : Nat) : Prop :=
  ∀ p s', kmalloc s sz = some (p, s') → sz + 20 < 2 ^ 32 ∧ ∃ k, checkedMallocSize s'.memory p = some k ∧ sz ≤ k

/-- A pointer is only returned for a product that fits, and so many bytes from it on are the user's, and zero. -/
def CallocRight (s : State) (count size : Nat) : Prop :=
  ∀ p s', calloc s count size = some (p, s') → count * size + 20 < 2 ^ 32 ∧
    Set.Ico p (p + count * size) ⊆ userArea s'.memory p ∧ ∀ a ∈ Set.Ico p (p + count * size), s'.memory a = 0

/-- The size fits with its header and footer (and is not 0, unless it gets more bytes from a hole that goes whole), or
there is no hole at all. -/
def KmallocFits (s : State) (sz : Nat) : Prop :=
  if sz + 20 < 2 ^ 32 then
    sz = 0 → ∀ i, findSmallestHole s.memory 20 0 s.kheap = some i →
      let size := sizeOf s.memory (lookupOrderedArray s.memory i s.kheap.index)
      20 < size ∧ size < 40
  else s.kheap.index.size = 0

/-- The product fits with a header and a footer, or no hole is large enough for what is left of it in 32 bits. -/
def CallocFits (s : State) (count size : Nat) : Prop :=
  count * size + 20 < 2 ^ 32 ∨ findSmallestHole s.memory (u32 (u32 (count * size) + sizeofHeader + sizeofFooter)) 0
    s.kheap = none

variable {s s' : State} {footed : Bool} {blocks : List Block} {sz p count size : Nat}

theorem kmalloc_spec (h : HeapInv s.memory s.kheap footed blocks [] []) (hfresh : footed = false → ∃ b, blocks = [b])
    (hlt : sz + 20 < 2 ^ 32) (hs : kmalloc s sz = some (p, s')) :
    ∃ b c i, findSmallestHole s.memory (sz + 20) 0 s.kheap = some i ∧
      sizeOf s.memory (lookupOrderedArray s.memory i s.kheap.index) = b.size ∧ sz + 20 ≤ b.size ∧
      p = c.pointer ∧ c.size = takenSize b (sz + 20) ∧ Headed s'.memory c ∧ 12 ≤ c.header ∧ c.fin < 2 ^ 32 := by
  obtain ⟨left, b, right, i, rfl, hhole, rfl, hfind, hlook, hfit, hinv, -⟩ := memoryAlloc_spec h hfresh (.inl hlt) hs
  rw [u32_of_lt hlt] at hfind hfit
  have hsize : sizeOf s.memory b.header = b.size := by
    obtain ⟨-, -, -, -, hhead, -⟩ := h.laid.split (b := b) (by simp)
    exact hhead.size
  have hlive : (⟨b.header, takenSize b (sz + 20), false⟩ : Block) ∈ liveBlocks (takeBlocks b (sz + 20)) := by
    simp [liveBlocks_takeBlocks]
  have hmem : (⟨b.header, takenSize b (sz + 20), false⟩ : Block) ∈ left ++ takeBlocks b (sz + 20) ++ right := by
    simp [(List.mem_filter.1 hlive).1]
  obtain ⟨hlow, -, -, -, htop⟩ := hinv.bounds hmem
  obtain ⟨-, -, -, -, hhead, -⟩ := hinv.laid.split hmem
  exact ⟨b, ⟨b.header, takenSize b (sz + 20), false⟩, i, hfind, by rw [hlook, hsize], hfit, rfl, rfl, hhead, hlow, htop⟩

theorem le_takenSize {b : Block} {new_size : Nat} (h : new_size ≤ b.size) : new_size ≤ takenSize b new_size := by
  unfold takenSize
  split <;> omega

theorem findSmallestHole_wrapped (h : HeapInv s.memory s.kheap footed blocks [] []) {n : Nat} (hn : n ≤ 20) :
    (findSmallestHole s.memory n 0 s.kheap).isSome ↔ s.kheap.index.size ≠ 0 := by
  constructor
  · intro hsome hzero
    rw [findSmallestHole, hzero] at hsome
    cases hsome
  · intro hne
    obtain ⟨left, b, right, rfl, -, hlook⟩ := h.hole_at (Nat.pos_of_ne_zero hne)
    obtain ⟨-, -, -, -, hhead, -⟩ := h.laid.split (b := b) (by simp)
    have hroom := hhead.room
    exact findFrom_isSome ⟨0, le_refl 0, by omega, by rw [hlook, hhead.size]; omega⟩

theorem kmalloc_isSome (n : Nat) (hn : u32 (sz + sizeofHeader + sizeofFooter) = n) :
    (kmalloc s sz).isSome ↔ (findSmallestHole s.memory n 0 s.kheap).isSome := by
  subst hn
  rw [kmalloc, memoryAlloc, isSome_map]

/-- **`kmalloc`.** -/
theorem kmalloc_right_iff (h : HeapInv s.memory s.kheap footed blocks [] []) (hfresh : footed = false → ∃ b, blocks = [b])
    (hsz : sz < 2 ^ 32) : KmallocRight s sz ↔ KmallocFits s sz := by
  unfold KmallocFits
  split
  · rename_i hlt
    have hnew : u32 (sz + sizeofHeader + sizeofFooter) = sz + 20 := u32_of_lt hlt
    constructor
    · rintro hright rfl i hfind
      have hsome := (kmalloc_isSome _ hnew).2 (isSome_iff_exists.2 ⟨i, hfind⟩)
      obtain ⟨⟨p, s'⟩, hs⟩ := isSome_iff_exists.1 hsome
      obtain ⟨b, c, j, hfind', hsize, hfit, rfl, hc, hhead, hlow, htop⟩ := kmalloc_spec h hfresh hlt hs
      obtain ⟨-, k, hk, -⟩ := hright _ _ hs
      rw [Nat.zero_add] at hfind' hc hfit
      cases hfind.symm.trans hfind'
      have hpos : mallocSize s'.memory c.pointer > 0 := (ite_none_right_eq_some.1 hk).1
      rw [mallocSize_pointer hhead htop, hc, takenSize] at hpos
      rw [hsize]
      split at hpos <;> omega
    · intro hfits p s' hs
      obtain ⟨b, c, i, hfind, hsize, hfit, rfl, hc, hhead, hlow, htop⟩ := kmalloc_spec h hfresh hlt hs
      have hle := le_takenSize hfit
      have hmalloc : mallocSize s'.memory c.pointer = takenSize b (sz + 20) - 20 := by
        rw [mallocSize_pointer hhead htop, hc]
      refine ⟨hlt, takenSize b (sz + 20) - 20, ?_, by omega⟩
      rw [checkedMallocSize, hmalloc, if_pos]
      by_cases hzero : sz = 0
      · subst hzero
        have hwhole := hfits rfl i hfind
        rw [hsize] at hwhole
        rw [takenSize, if_pos (by omega)]
        omega
      · omega
  · rename_i hlt
    have hwrapped : u32 (sz + sizeofHeader + sizeofFooter) ≤ 20 := by
      unfold u32 sizeofHeader sizeofFooter
      omega
    have hiff := (kmalloc_isSome (s := s) _ rfl).trans (findSmallestHole_wrapped h hwrapped)
    constructor
    · intro hright
      by_contra hne
      obtain ⟨⟨p, s'⟩, hs⟩ := isSome_iff_exists.1 (hiff.2 hne)
      exact hlt (hright p s' hs).1
    · intro hzero p s' hs
      exact absurd hzero (hiff.1 (by rw [hs]; rfl))

/-! ## `calloc` -/

variable {dest a : Nat}

theorem memset_inside (m : Memory) (ha : a ∈ Set.Ico dest (dest + count)) (hlt : dest + count ≤ 2 ^ 32) :
    memset m dest 0 count a = 0 := by
  have h1 := ha.1
  have h2 := ha.2
  rw [memset, sub32_of_le h1 (by omega), if_pos (by omega)]
  rfl

theorem memset_before (m : Memory) (ha : a < dest) (hnear : dest ≤ a + 20)
    (hcount : count + 20 < 2 ^ 32) (val : Nat) : memset m dest val count a = m a := by
  refine if_neg ?_
  unfold sub32 u32
  omega

theorem calloc_eq (hcount : count * size < 2 ^ 32) : calloc s count size =
    (kmalloc s (count * size)).map fun (ptr, s) => (ptr, { s with memory := memset s.memory ptr 0 (count * size) }) := by
  rw [calloc, u32_of_lt hcount]

/-- **`calloc`.** -/
theorem calloc_right_iff (h : HeapInv s.memory s.kheap footed blocks [] []) (hfresh : footed = false → ∃ b, blocks = [b]) :
    CallocRight s count size ↔ CallocFits s count size := by
  by_cases hlt : count * size + 20 < 2 ^ 32
  · refine iff_of_true (fun p s' hs => ⟨hlt, ?_⟩) (.inl hlt)
    rw [calloc_eq (by omega)] at hs
    obtain ⟨⟨ptr, s₁⟩, hk, heq⟩ := map_eq_some_iff.1 hs
    cases heq
    obtain ⟨b, c, i, -, -, hfit, rfl, hc, hhead, hlow, htop⟩ := kmalloc_spec h hfresh hlt hk
    have hle := le_takenSize hfit
    have hfin : c.fin = c.header + c.size := rfl
    have hpointer : c.pointer = c.header + 12 := rfl
    have hhead' : Headed (memset s₁.memory c.pointer 0 (count * size)) c := hhead.congr fun x hx => by
      have h1 := hx.1
      have h2 := hx.2
      exact memset_before _ (by omega) (by omega) hlt 0
    refine ⟨fun a ha => ?_, fun a ha => memset_inside _ ha (by omega)⟩
    rw [userArea_pointer hhead' htop]
    have h1 := ha.1
    have h2 := ha.2
    have hfooter : c.footer = c.header + c.size - 8 := rfl
    rw [Set.mem_Ico]
    omega
  · have hiff : (calloc s count size).isSome ↔
        (findSmallestHole s.memory (u32 (u32 (count * size) + sizeofHeader + sizeofFooter)) 0 s.kheap).isSome := by
      rw [calloc, isSome_map]
      exact kmalloc_isSome _ rfl
    constructor
    · intro hright
      refine .inr (not_isSome_iff_eq_none.1 fun hsome => ?_)
      obtain ⟨⟨p, s'⟩, hs⟩ := isSome_iff_exists.1 (hiff.2 hsome)
      exact hlt (hright p s' hs).1
    · intro hfits p s' hs
      have hnone := hfits.resolve_left hlt
      have hsome := hiff.1 (by rw [hs]; rfl)
      rw [hnone] at hsome
      cases hsome

/-- **Size arithmetic**, for every tiled heap and every argument. -/
theorem sizes_right_iff (h : HeapInv s.memory s.kheap footed blocks [] []) (hfresh : footed = false → ∃ b, blocks = [b])
    (sz count size : Nat) (hsz : sz < 2 ^ 32) :
    (KmallocRight s sz ↔ KmallocFits s sz) ∧ (CallocRight s count size ↔ CallocFits s count size) :=
  ⟨kmalloc_right_iff h hfresh hsz, calloc_right_iff h hfresh⟩

/-- 16 bytes, and 3 times 8. -/
theorem sizes_right_new : ∃ s, twoPages (fun _ => 0) = some s ∧ KmallocRight s 16 ∧ CallocRight s 3 8 := by
  have hcreate : (twoPages fun _ => 0).isSome := by decide +kernel
  obtain ⟨s, hs⟩ := Option.isSome_iff_exists.1 hcreate
  obtain ⟨hkmalloc, hcalloc⟩ := sizes_right_iff (twoPages_spec hs) (fun _ => ⟨_, rfl⟩) 16 3 8 (by decide)
  refine ⟨s, hs, hkmalloc.2 ?_, hcalloc.2 (Or.inl (by decide))⟩
  rw [KmallocFits, if_pos (by decide)]
  exact fun hzero => absurd hzero (by decide)

/-- Four bytes less than all addresses: a block of 16 bytes is split off, header and footer included. -/
theorem sizes_wrap : ¬∀ (s : State) (footed : Bool) (blocks : List Block) (sz count size : Nat),
    HeapInv s.memory s.kheap footed blocks [] [] → (footed = false → ∃ b, blocks = [b]) → sz < 2 ^ 32 → count < 2 ^ 32 →
    size < 2 ^ 32 → KmallocRight s sz ∧ CallocRight s count size := by
  intro hclaim
  have hrun : (twoPages fun _ => 0).map (fun s => (kmalloc s 0xfffffffc).map Prod.fst) = some (some 0x8200c) := by
    decide +kernel
  obtain ⟨s, hs, halloc⟩ := Option.map_eq_some_iff.1 hrun
  obtain ⟨⟨p, s'⟩, hk, -⟩ := Option.map_eq_some_iff.1 halloc
  have hright := (hclaim s false _ 0xfffffffc 0 0 (twoPages_spec hs) (fun _ => ⟨_, rfl⟩) (by decide) (by decide)
    (by decide)).1
  exact absurd (hright p s' hk).1 (by decide)

end KHeap
