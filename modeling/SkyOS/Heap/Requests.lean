import SkyOS.Heap.AlignedAlloc

/-!
# Runs with blocks on pages, and with sizes of any 32 bits

`Call` asks for blocks anywhere, of sizes that fit a word with their header and footer. The kernel's users ask for any
size, and for blocks on a page too (`kmalloc_a`). `Outcome` says what a request does to the blocks and to the index: each
property of these runs is proved from it, without a look at the calls.
-/

namespace KHeap

open Machine Bytes OrderedArrays

inductive Request where
  | memoryAlloc (size page_align : Nat)
  | hfree (p : Nat)
  | store (a v : Nat)

/-- `size` is a `u32int`, `page_align` a `u8int`; what is freed was allocated. -/
def Request.legal (r : Run) : Request → Prop
  | .memoryAlloc size page_align => size < 2 ^ 32 ∧ page_align < 2 ^ 8
  | .hfree p => p ∈ r.live
  | .store a v => (Call.store a v).legal r

def request (r : Run) : Request → Option Run
  | .memoryAlloc size page_align => (memoryAlloc r.toState size page_align).map fun (p, s) => ⟨s, p :: r.live, false⟩
  | .hfree p => perform r (.hfree p)
  | .store a v => perform r (.store a v)

instance (r : Run) : (c : Request) → Decidable (c.legal r)
  | .memoryAlloc _ _ => inferInstanceAs (Decidable (_ ∧ _))
  | .hfree _ => inferInstanceAs (Decidable (_ ∈ _))
  | .store a v => inferInstanceAs (Decidable ((Call.store a v).legal r))

/-- The heaps are those of `system`. -/
def requests : StepSystem Run Request where
  init := system.init
  step r c := if c.legal r then request r c else none

/-! ## What a request does -/

structure Tiled (r : Run) (blocks : List Block) : Prop extends RunInv r blocks where
  above : PAGE_SIZE ≤ r.kheap.start_address

/-- The hole that `memory_alloc` takes. -/
def chosen (r : Run) (size page_align : Nat) : Option Block :=
  (findSmallestHole r.memory (u32 (size + sizeofHeader + sizeofFooter)) page_align r.kheap).map fun i =>
    let pos := lookupOrderedArray r.memory i r.kheap.index
    ⟨pos, sizeOf r.memory pos, true⟩

/-- The size fits a word with its header and footer, or the hole goes whole; a block on a page leaves no part too small;
a free block is not joined with what is outside the heap, and has room in the index. -/
def Request.fits (r : Run) : Request → Prop
  | .memoryAlloc size 0 => TakesHole r.toState size
  | .memoryAlloc size (page_align + 1) => ∀ hole ∈ chosen r size (page_align + 1), AlignFits r.kheap hole size
  | .hfree p => (Call.hfree p).fits r
  | .store .. => True

instance (heap : Heap) (hole : Block) (size : Nat) : Decidable (AlignFits heap hole size) :=
  inferInstanceAs (Decidable (_ ∧ (_ ∨ _ ∧ _)))

instance decidableForallMem {α : Type} {p : α → Prop} [DecidablePred p] : (o : Option α) → Decidable (∀ a ∈ o, p a)
  | none => .isTrue (by simp)
  | some a => decidable_of_iff (p a) (by simp)

instance (s : State) (size : Nat) : Decidable (TakesHole s size) :=
  decidable_of_iff (size + sizeofHeader + sizeofFooter < 2 ^ 32 ∨
    ∀ i ∈ findSmallestHole s.memory (u32 (size + sizeofHeader + sizeofFooter)) 0 s.kheap,
      sizeOf s.memory (lookupOrderedArray s.memory i s.kheap.index) < u32 (size + sizeofHeader + sizeofFooter) + 20) Iff.rfl

instance (r : Run) : (c : Request) → Decidable (c.fits r)
  | .memoryAlloc size 0 => inferInstanceAs (Decidable (TakesHole r.toState size))
  | .memoryAlloc size (page_align + 1) =>
    inferInstanceAs (Decidable (∀ hole ∈ chosen r size (page_align + 1), AlignFits r.kheap hole size))
  | .hfree p => inferInstanceAs (Decidable ((Call.hfree p).fits r))
  | .store .. => .isTrue trivial

inductive Outcome (r r' : Run) : Request → List Block → List Block → Prop where
  | taken {size i : Nat} {left right : List Block} {hole : Block} (hhole : hole.hole = true)
    (hfit : u32 (size + 20) ≤ hole.size)
      (hfind : findFrom r.memory (u32 (size + 20)) 0 r.kheap.index 0 r.kheap.index.size = some i)
      (hlook : lookupOrderedArray r.memory i r.kheap.index = hole.header) (hlive : r'.live = hole.pointer :: r.live)
      (hentries : entries r'.memory r'.kheap.index =
        takeEntries (bySize r'.memory) (entries r.memory r.kheap.index) i hole (size + 20)) :
      Outcome r r' (.memoryAlloc size 0) (left ++ hole :: right) (left ++ takeBlocks hole (size + 20) ++ right)
  | aligned {size page_align : Nat} {left right : List Block} {hole : Block} (hhole : hole.hole = true)
      (hfits : AlignFits r.kheap hole size) (hchosen : hole ∈ chosen r size (page_align + 1))
      (hentries : entries r'.memory r'.kheap.index =
        alignEntries (bySize r'.memory) (entries r.memory r.kheap.index) hole size) :
      Outcome r r' (.memoryAlloc size (page_align + 1)) (left ++ hole :: right) (left ++ alignBlocks hole size ++ right)
  | released {left right left' right' : List Block} {b c' : Block} (hlive : b.hole = false)
      (hreleased : Released r.toState r'.toState left { b with hole := true } right left' c' right') :
      Outcome r r' (.hfree b.pointer) (left ++ b :: right) (left' ++ c' :: right')
  | stored {a v : Nat} {blocks : List Block} (hentries : entries r'.memory r'.kheap.index =
    entries r.memory r.kheap.index) :
      Outcome r r' (.store a v) blocks blocks

variable {r r' : Run} {blocks blocks' : List Block}

theorem findFrom_page (m : Memory) (size page_align : Nat) (index : OrderedArray) (iterator n : Nat) :
    findFrom m size (page_align + 1) index iterator n = findFrom m size 1 index iterator n := by
  induction n generalizing iterator with
  | zero => rfl
  | succ n ih =>
    have hfits : fits m size (page_align + 1) = fits m size 1 := by
      funext header
      simp only [fits, gt_iff_lt, Nat.zero_lt_succ, if_true]
    simp only [findFrom, hfits, ih]

theorem memoryAlloc_page (s : State) (size page_align : Nat) : memoryAlloc s size (page_align + 1) =
    memoryAlloc s size 1 := by
  simp only [memoryAlloc, findSmallestHole, findFrom_page, allocFrom, ne_eq, Nat.add_one_ne_zero, not_false_eq_true,
    true_and]

theorem findFrom_lt {m : Memory} {size page_align : Nat} {index : OrderedArray} {iterator n i : Nat}
    (h : findFrom m size page_align index iterator n = some i) : i < iterator + n := by
  induction n generalizing iterator with
  | zero => cases h
  | succ n ih =>
    unfold findFrom at h
    split at h
    · cases h
      omega
    · have := ih h
      omega

theorem tiled_init (h : requests.init r) : ∃ blocks, Tiled r blocks := by
  obtain ⟨m, index, start, end_addr, hroom, htop, hcreate, hlive, hfresh⟩ := h
  obtain ⟨hinv, hused⟩ := createKernelHeap_spec hroom htop hcreate
  refine ⟨_, ⟨by rw [hfresh]; exact hinv, fun _ => ⟨_, rfl, rfl⟩, ?_, hused.trans rfl⟩, ?_⟩
  · rw [hlive]
    exact List.Perm.refl _
  · have hstart : start + 4 * HEAP_INDEX_SIZE + PAGE_SIZE = r.kheap.start_address := hinv.laid.1
    omega

/-- **The step.** What a request that fits does. -/
theorem outcome_of_step (h : Tiled r blocks) {c : Request} (hfits : c.fits r) (hs : requests.step r c = some r') :
    ∃ blocks', Tiled r' blocks' ∧ Outcome r r' c blocks blocks' := by
  obtain ⟨hlegal, hs⟩ := Option.ite_none_right_eq_some.1 hs
  cases c with
  | memoryAlloc size page_align =>
    obtain ⟨⟨p, s⟩, halloc, rfl⟩ := Option.map_eq_some_iff.1 hs
    cases page_align with
    | zero =>
      obtain ⟨left, b, right, i, rfl, hhole, rfl, hfind, hlook, hfit, hinv, hstart, -, hentries⟩ :=
        runInv_memoryAlloc h.toRunInv hfits halloc
      exact ⟨_, ⟨hinv, hstart ▸ h.above⟩, .taken hhole hfit hfind hlook rfl hentries⟩
    | succ page_align =>
      rw [memoryAlloc_page] at halloc
      obtain ⟨i, hfind, halloc⟩ := Option.map_eq_some_iff.1 halloc
      have hchosen : chosen r size (page_align + 1) = some ⟨lookupOrderedArray r.memory i r.kheap.index,
          sizeOf r.memory (lookupOrderedArray r.memory i r.kheap.index), true⟩ := by
        simp only [chosen, findSmallestHole, findFrom_page]
        rw [← findSmallestHole, hfind]
        rfl
      have hi : i < r.kheap.index.size := by simpa using findFrom_lt hfind
      obtain ⟨left, b, right, rfl, hhole, hlook⟩ := h.heap.hole_at hi
      have hsize : sizeOf r.memory b.header = b.size := (h.heap.sides h.sides_nil).2.1.size
      have hb : b = ⟨b.header, b.size, true⟩ := by rw [← hhole]
      rw [hlook, hsize, ← hb] at hchosen
      have halign := hfits b hchosen
      obtain ⟨-, hstart, -, -, htop⟩ := h.heap.bounds (b := b) (by simp)
      have hfin : b.fin = b.header + b.size := rfl
      have hnew : u32 (size + sizeofHeader + sizeofFooter) = size + 20 := u32_of_lt (by
        unfold sizeofHeader sizeofFooter
        obtain ⟨-, hexact | ⟨hmore, -⟩⟩ := halign <;> omega)
      obtain ⟨s', heq, hinv, hstart', hend', hused, hentries⟩ :=
        memoryAlloc_aligned_fits h.heap h.sides_nil (Nat.le_trans h.above hstart) hhole hlook halign
      rw [hnew, heq] at halloc
      cases halloc
      exact ⟨_, ⟨h.taken (c := ⟨b.header + frontSize b.header, size + 20, false⟩) hhole hinv (liveBlocks_alignBlocks b size)
        hused, hstart' ▸ h.above⟩, .aligned hhole halign hchosen hentries⟩
  | hfree p =>
    obtain ⟨s, hfree, rfl⟩ := Option.map_eq_some_iff.1 hs
    obtain ⟨left, b, right, rfl, hlive, rfl, hfresh⟩ := h.block_of hlegal
    obtain ⟨s', left', c', right', hfree', hinv, hreleased, hstart, -⟩ := hfree_spec h.toRunInv hlive hfresh hfits
    rw [hfree] at hfree'
    cases hfree'
    exact ⟨_, ⟨hinv, hstart ▸ h.above⟩, .released hlive hreleased⟩
  | store a v =>
    cases hs
    exact ⟨blocks, ⟨runInv_store h.toRunInv hlegal, h.above⟩, .stored (entries_store h.toRunInv hlegal)⟩

end KHeap
