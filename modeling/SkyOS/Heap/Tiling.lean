import Mathlib.Algebra.GroupWithZero.Nat
import Mathlib.Data.List.Perm.Basic
import Mathlib.Algebra.BigOperators.Group.List.Basic
import SkyOS.Heap.KHeap

/-!
# The blocks of the heap

The heap is a list of blocks laid end to end. `Laid` reads them from memory, `HeapInv` ties the index to the
headers of the holes. Each stage of an allocation or a release replaces a few neighbouring blocks: it writes
inside them and below the heap, so `Laid.congr` carries the others over. In between, `pending` is a hole that
is not in the index yet.
-/

namespace KHeap

open Machine Bytes OrderedArrays List

structure Block where
  header : Nat
  size : Nat
  hole : Bool

namespace Block

def fin (b : Block) : Nat := b.header + b.size

def footer (b : Block) : Nat := b.fin - 8

def pointer (b : Block) : Nat := b.header + 12

end Block

structure Headed (m : Memory) (b : Block) : Prop where
  room : 20 ≤ b.size
  magic : magicOf m b.header = HEAP_MAGIC
  hole : isHoleOf m b.header = if b.hole then 1 else 0
  size : sizeOf m b.header = b.size

structure Footed (m : Memory) (b : Block) : Prop where
  magic : magicOf m b.footer = HEAP_MAGIC
  header : headerOf m b.footer = b.header

/-- Blocks from `a` to `e`. -/
def Laid (m : Memory) (footed : Bool) : List Block → Nat → Nat → Prop
  | [], a, e => a = e
  | b :: blocks, a, e => b.header = a ∧ Headed m b ∧ (footed = true → Footed m b) ∧ Laid m footed blocks b.fin e

def holeHeaders (blocks : List Block) : List Nat := (blocks.filter (·.hole)).map (·.header)

def liveBlocks (blocks : List Block) : List Block := blocks.filter (!·.hole)

/-! ## Headers and footers in memory -/

variable {m : Memory} {b : Block} {header x : Nat}

variable {m' : Memory}

theorem Headed.congr (h : Headed m b)
    (he : Set.EqOn m' m (Set.Ico b.header (b.header + 12))) : Headed m' b := by
  refine ⟨h.room, (read32_congr fun x hx => he ⟨hx.1, by have := hx.2; omega⟩).trans h.magic, ?_,
    (read32_congr fun x hx => he ⟨by have := hx.1; omega, by have := hx.2; omega⟩).trans h.size⟩
  have hbyte : m' (b.header + 4) = m (b.header + 4) := he ⟨by omega, by omega⟩
  rw [← h.hole, isHoleOf, isHoleOf, hbyte]

theorem Footed.congr (h : Footed m b)
    (he : Set.EqOn m' m (Set.Ico b.footer (b.footer + 8))) : Footed m' b :=
  ⟨(read32_congr fun x hx => he ⟨hx.1, by have := hx.2; omega⟩).trans h.magic,
    (read32_congr fun x hx => he ⟨by have := hx.1; omega, by have := hx.2; omega⟩).trans h.header⟩

theorem setIsHole_outside (m : Memory) (h : x ≠ header + 4) (v : Nat) : setIsHole m header v x = m x :=
  write8_of_ne m h v

theorem setSize_outside (m : Memory) (h : x < header + 8 ∨ header + 12 ≤ x) (v : Nat) :
    setSize m header v x = m x :=
  write32_outside m (by omega) v

theorem setHeader_outside (m : Memory) {footer : Nat} (h : x < footer + 4 ∨ footer + 8 ≤ x) (v : Nat) :
    setHeader m footer v x = m x :=
  write32_outside m (by omega) v

theorem writeHeader_outside (m : Memory) (h : x < header ∨ header + 12 ≤ x) (is_hole size : Nat) :
    writeHeader m header is_hole size x = m x := by
  rw [writeHeader, setSize_outside _ (by omega), setIsHole_outside _ (by omega), write32_outside m (by omega)]

theorem writeFooter_outside (m : Memory) {footer : Nat} (h : x < footer ∨ footer + 8 ≤ x) (header : Nat) :
    writeFooter m footer header x = m x := by
  rw [writeFooter, setHeader_outside _ (by omega), write32_outside m (by omega)]

theorem headed_setSize (h : Headed m b) {size : Nat} (hroom : 20 ≤ size) (hlt : size < 2 ^ 32) :
    Headed (setSize m b.header size) { b with size } := by
  refine ⟨hroom, ?_, ?_, read32_write32_self m _ hlt⟩
  · show magicOf _ b.header = _
    exact (read32_congr fun x hx => setSize_outside m (.inl (by have := hx.2; omega)) _).trans h.magic
  · show isHoleOf _ b.header = _
    rw [← h.hole, isHoleOf, isHoleOf, setSize_outside m (.inl (by omega))]

theorem headed_setIsHole (h : Headed m b) : Headed (setIsHole m b.header 1) { b with hole := true } := by
  refine ⟨h.room, ?_, ?_, ?_⟩
  · exact (read32_write8_of_disjoint m (.inl le_rfl) _).trans h.magic
  · rw [isHoleOf, setIsHole, write8_self]
    rfl
  · show sizeOf _ b.header = _
    exact (read32_write8_of_disjoint m (.inr (by omega)) _).trans h.size

theorem headed_writeHeader (m : Memory) (b : Block) (hroom : 20 ≤ b.size) (hlt : b.size < 2 ^ 32) :
    Headed (writeHeader m b.header (if b.hole then 1 else 0) b.size) b := by
  refine ⟨hroom, ?_, ?_, read32_write32_self _ _ hlt⟩
  · rw [magicOf, writeHeader, read32_congr fun x hx => setSize_outside _ (.inl (by have := hx.2; omega)) _,
      setIsHole, read32_write8_of_disjoint _ (.inl le_rfl), read32_write32_self _ _ (by decide)]
  · rw [isHoleOf, writeHeader, setSize_outside _ (.inl (by omega)), setIsHole, write8_self]
    cases b.hole <;> rfl

theorem footed_setHeader {c : Block} (h : Footed m b) (hfin : c.footer = b.footer) (hlt : c.header < 2 ^ 32) :
    Footed (setHeader m b.footer c.header) c := by
  rw [← hfin]
  refine ⟨?_, read32_write32_self _ _ hlt⟩
  have hmagic := h.magic
  rw [← hfin] at hmagic
  exact (read32_congr fun x hx => setHeader_outside m (.inl (by have := hx.2; omega)) _).trans hmagic

theorem footed_writeFooter (m : Memory) (b : Block) (hlt : b.header < 2 ^ 32) :
    Footed (writeFooter m b.footer b.header) b := by
  refine ⟨?_, read32_write32_self _ _ hlt⟩
  rw [magicOf, writeFooter, read32_congr fun x hx => setHeader_outside _ (.inl (by have := hx.2; omega)) _,
    read32_write32_self _ _ (by decide)]

/-! ## Lists of blocks -/

section Laid

variable {m m' : Memory} {footed : Bool} {blocks : List Block} {a e : Nat}

theorem laid_append {left right : List Block} :
    Laid m footed (left ++ right) a e ↔ ∃ b, Laid m footed left a b ∧ Laid m footed right b e := by
  induction left generalizing a with
  | nil => simp [Laid]
  | cons c left ih =>
    simp only [cons_append, Laid, ih]
    constructor
    · rintro ⟨h1, h2, h3, b, h4, h5⟩
      exact ⟨b, ⟨h1, h2, h3, h4⟩, h5⟩
    · rintro ⟨b, ⟨h1, h2, h3, h4⟩, h5⟩
      exact ⟨h1, h2, h3, b, h4, h5⟩

section

variable (h : Laid m footed blocks a e)
include h

theorem Laid.le : a ≤ e := by
  induction blocks generalizing a with
  | nil => exact Nat.le_of_eq h
  | cons b blocks ih =>
    obtain ⟨rfl, -, -, hrest⟩ := h
    exact Nat.le_trans (Nat.le_add_right _ _) (ih hrest)

theorem Laid.bounds : ∀ b ∈ blocks, a ≤ b.header ∧ b.fin ≤ e ∧ 20 ≤ b.size := by
  induction blocks generalizing a with
  | nil => simp
  | cons c blocks ih =>
    obtain ⟨rfl, hhead, -, hrest⟩ := h
    intro b hb
    rcases mem_cons.1 hb with rfl | hb
    · exact ⟨le_rfl, hrest.le, hhead.room⟩
    · obtain ⟨h1, h2⟩ := ih hrest b hb
      exact ⟨Nat.le_trans (Nat.le_add_right _ _) h1, h2⟩

theorem Laid.congr_ends (heq : ∀ b ∈ blocks, Set.EqOn m' m (Set.Ico b.header (b.header + 12)) ∧
      Set.EqOn m' m (Set.Ico b.footer (b.footer + 8))) :
    Laid m' footed blocks a e := by
  induction blocks generalizing a with
  | nil => exact h
  | cons b blocks ih =>
    obtain ⟨ha, hhead, hfoot, hrest⟩ := h
    obtain ⟨hh, hf⟩ := heq b (by simp)
    exact ⟨ha, hhead.congr hh, fun ht => (hfoot ht).congr hf, ih hrest fun c hc => heq c (by simp [hc])⟩

theorem Laid.congr (heq : Set.EqOn m' m (Set.Ico a e)) : Laid m' footed blocks a e := by
  refine h.congr_ends fun b hb => ?_
  obtain ⟨h1, h2, h3⟩ := h.bounds b hb
  refine ⟨fun x hx => heq ⟨Nat.le_trans h1 hx.1, ?_⟩, fun x hx => heq ⟨?_, ?_⟩⟩
  · have := hx.2
    unfold Block.fin at h2
    omega
  · have := hx.1
    unfold Block.footer Block.fin at this
    omega
  · have := hx.2
    unfold Block.footer at this
    unfold Block.fin at this h2
    omega

theorem Laid.split (hb : b ∈ blocks) :
    ∃ left right, blocks = left ++ b :: right ∧ Laid m footed left a b.header ∧ Headed m b ∧ (footed = true → Footed m b) ∧
      Laid m footed right b.fin e := by
  obtain ⟨left, right, rfl⟩ := append_of_mem hb
  obtain ⟨x, hleft, rfl, hhead, hfoot, hright⟩ := laid_append.1 h
  exact ⟨left, right, rfl, hleft, hhead, hfoot, hright⟩

theorem Laid.sum_size : a + (blocks.map (·.size)).sum = e := by
  induction blocks generalizing a with
  | nil => simpa [Laid] using h
  | cons b blocks ih =>
    obtain ⟨rfl, -, -, hrest⟩ := h
    rw [map_cons, sum_cons, ← ih hrest, Block.fin]
    omega

theorem Laid.pairwise : blocks.Pairwise fun b c => b.fin ≤ c.header := by
  induction blocks generalizing a with
  | nil => exact .nil
  | cons b blocks ih =>
    obtain ⟨-, -, -, hrest⟩ := h
    exact pairwise_cons.2 ⟨fun c hc => (hrest.bounds c hc).1, ih hrest⟩

end

end Laid

theorem holeHeaders_append (left right : List Block) : holeHeaders (left ++ right) = holeHeaders left ++
    holeHeaders right := by
  simp [holeHeaders]

theorem holeHeaders_cons_hole (h : b.hole = true) (blocks : List Block) :
    holeHeaders (b :: blocks) = b.header :: holeHeaders blocks := by
  simp [holeHeaders, h]

theorem holeHeaders_cons_live (h : b.hole = false) (blocks : List Block) :
    holeHeaders (b :: blocks) = holeHeaders blocks := by
  simp [holeHeaders, h]

theorem liveBlocks_append (left right : List Block) : liveBlocks (left ++ right) = liveBlocks left ++ liveBlocks right := by
  simp [liveBlocks]

theorem liveBlocks_cons_hole (h : b.hole = true) (blocks : List Block) :
    liveBlocks (b :: blocks) = liveBlocks blocks := by
  simp [liveBlocks, h]

theorem liveBlocks_cons_live (h : b.hole = false) (blocks : List Block) :
    liveBlocks (b :: blocks) = b :: liveBlocks blocks := by
  simp [liveBlocks, h]

theorem mem_holeHeaders {blocks : List Block} {p : Nat} (h : p ∈ holeHeaders blocks) :
    ∃ b ∈ blocks, b.hole = true ∧ b.header = p := by
  obtain ⟨b, hb, rfl⟩ := mem_map.1 h
  obtain ⟨hmem, hhole⟩ := mem_filter.1 hb
  exact ⟨b, hmem, hhole, rfl⟩

end KHeap
