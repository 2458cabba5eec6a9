import SkyOS.Lib.Bitmap
import SkyOS.Lib.Bytes
import SkyOS.Lib.Machine
import SkyOS.Lib.StepSystem

/-!
# `SwapSpace` (`SwapSpace.cpp`): chunks of the swap device

`AllocSwapSpace` walks the words 0, 32, 64, … of the map and numbers the bits of word `v` from `v + 1` on, so
chunk `n` is bit `slot n` of the map. `FreeSwapSpace` clears bit `n`. The two are never the same bit, and so a
freed chunk is never available again; the bit it clears can be the one of another chunk that is in use.

The invariant lives on the chunks in use: their numbers differ, and their bits are set. It survives every
`FreeSwapSpace` that clears no bit of a chunk in use (`sparesOthers`).

| here | there |
| --- | --- |
| `fSwapMap i` | the `int` `fSwapMap[i]`, as a word of bits |
| `State.device` | the bytes of `fSwapDevice`, which is open |
| `State.spaces` | the live objects, by number |
| `none` | `panic`, or an index outside an array |
| `Run.written` | the page that was last written at an offset of an object: history |
-/

namespace Swap

open Machine Bitmap Bytes List Option
open Function (update update_of_ne update_self)

def PAGE_SIZE : Nat := 4096
def kChunkSize : Nat := PAGE_SIZE * 4

structure SwapChunk where
  offset : Int
  alloc : BitVec 4
deriving DecidableEq, Repr

/-- Storing into `int offset : 28`. -/
def offsetField (x : Nat) : Int := ((x : Int) + 2 ^ 27) % 2 ^ 28 - 2 ^ 27

structure SwapSpace where
  fChunkArray : List SwapChunk
  fCommittedSize : Int
deriving DecidableEq, Repr

structure State where
  fSwapMap : Nat → BitVec 32
  fSwapChunkCount : Nat
  fFreeSwapChunks : Int
  device : Memory
  spaces : Nat → Option SwapSpace

/-- The page at `a`. -/
def pageAt (m : Memory) (a : Nat) : List UInt8 := (List.range PAGE_SIZE).map fun k => m (a + k)

/-- `AllocSwapSpace` (:144): the number of the chunk, and the map. -/
def allocSwapSpace (s : State) : Option (Nat × (Nat → BitVec 32)) :=
  let wordCount := s.fSwapChunkCount / 32
  (List.range ((wordCount + 31) / 32)).findSome? fun k =>
    let wordIndex := k * 32
    if s.fSwapMap wordIndex = 0xffffffff#32 then none
    else
      (List.range 32).findSome? fun bitIndex =>
        if s.fSwapMap wordIndex &&& 1#32 <<< bitIndex = 0#32 then
          some (wordIndex + bitIndex + 1, mark s.fSwapMap (wordIndex * 32 + bitIndex))
        else none

/-- `FreeSwapSpace` (:164). -/
def freeSwapSpace (fSwapMap : Nat → BitVec 32) (offset : Int) : Nat → BitVec 32 := unmark fSwapMap offset.toNat

/-- The growing of `fChunkArray` in `Write` (:68-77). -/
def grow (fChunkArray : List SwapChunk) (arrayOffset : Nat) : List SwapChunk :=
  fChunkArray ++ List.replicate (arrayOffset + 1 - fChunkArray.length) ⟨0, 0⟩

/-- Where a page is on the device (:57, :83). -/
def deviceOffset (chunk : SwapChunk) (offset : Nat) : Int :=
  toInt32 ((chunk.offset - 1) * kChunkSize + (offset % kChunkSize : Nat))

/-- `HasPage` (:42). -/
def hasPage (space : SwapSpace) (offset : Nat) : Bool :=
  (space.fChunkArray[offset / kChunkSize]?).any fun chunk => chunk.alloc.getLsbD (offset % kChunkSize / PAGE_SIZE)

/-- `Read` (:51). -/
def read (s : State) (i offset : Nat) : Option (List UInt8) := do
  let space ← s.spaces i
  let chunk ← space.fChunkArray[offset / kChunkSize]?
  if deviceOffset chunk offset < 0 then none
  else return pageAt s.device (deviceOffset chunk offset).toNat

/-- The chunk of an entry, allocated when it has none (:79). -/
def chunkNumber (s : State) (chunk : SwapChunk) : Option (Int × (Nat → BitVec 32)) :=
  if chunk.offset = 0 then (allocSwapSpace s).map fun (n, map) => (offsetField n, map)
  else some (chunk.offset, s.fSwapMap)

/-- `Write` (:61) of the page at `va` in `memory`. -/
def write (s : State) (i offset : Nat) (memory : Memory) (va : Nat) : Option State := do
  let space ← s.spaces i
  let arrayOffset := offset / kChunkSize
  let fChunkArray := grow space.fChunkArray arrayOffset
  let chunk ← fChunkArray[arrayOffset]?
  let (chunkOffset, fSwapMap) ← chunkNumber s chunk
  let chunk : SwapChunk := ⟨chunkOffset, chunk.alloc ||| 1#4 <<< (offset % kChunkSize / PAGE_SIZE)⟩
  if deviceOffset chunk offset < 0 then none
  else return { s with
    fSwapMap
    device := copy s.device (deviceOffset chunk offset).toNat memory va PAGE_SIZE
    spaces := Function.update s.spaces i (some { space with fChunkArray := fChunkArray.set arrayOffset chunk }) }

/-- `~SwapSpace` (:49). -/
def destroy (s : State) (i : Nat) : Option State := do
  let space ← s.spaces i
  return { s with
    fSwapMap := space.fChunkArray.foldl (fun map chunk =>
      if chunk.offset ≠ 0 then freeSwapSpace map chunk.offset else map) s.fSwapMap
    fFreeSwapChunks := toInt32 (s.fFreeSwapChunks + space.fCommittedSize)
    spaces := Function.update s.spaces i none }

/-! ## Runs -/

structure Run extends State where
  written : Nat → Nat → Option (List UInt8)

inductive Call where
  | newSwapSpace (i : Nat)
  | write (i offset : Nat) (memory : Memory) (va : Nat)
  | destroy (i : Nat)

/-- Offsets are page-aligned values of a 32-bit `off_t`. -/
def Call.legal (r : Run) : Call → Prop
  | .newSwapSpace i => (r.spaces i).isNone
  | .write i offset _ _ => (r.spaces i).isSome ∧ offset % PAGE_SIZE = 0 ∧ offset < 2 ^ 31
  | .destroy i => (r.spaces i).isSome

instance (r : Run) : (c : Call) → Decidable (c.legal r)
  | .newSwapSpace _ => inferInstanceAs (Decidable (_ = true))
  | .write .. => inferInstanceAs (Decidable (_ = true ∧ _ ∧ _))
  | .destroy _ => inferInstanceAs (Decidable (_ = true))

def perform (r : Run) : Call → Option Run
  | .newSwapSpace i =>
    some ⟨{ r.toState with spaces := Function.update r.spaces i (some ⟨[], 0⟩) }, Function.update r.written i fun _ => none⟩
  | .write i offset memory va => (write r.toState i offset memory va).map fun s =>
      ⟨s, Function.update r.written i (Function.update (r.written i) offset (some (pageAt memory va)))⟩
  | .destroy i => (destroy r.toState i).map fun s => ⟨s, r.written⟩

def step (r : Run) (c : Call) : Option Run :=
  if c.legal r then perform r c else none

/-- After `SwapOn` (:128): the words that are looked at are zero, and no object is there. -/
def system : StepSystem Run Call where
  init r := (∀ i, r.spaces i = none) ∧ r.fSwapChunkCount < 2 ^ 17 ∧
    ∀ i < r.fSwapChunkCount / 32, r.fSwapMap i = 0#32
  step := step

/-! ## Chunks in use -/

/-- The live object `i` has chunk `n` for the `a`-th part of it. -/
def HasChunk (s : State) (i a : Nat) (n : Int) : Prop :=
  ∃ space chunk, s.spaces i = some space ∧ space.fChunkArray[a]? = some chunk ∧ chunk.offset = n ∧ n ≠ 0

/-- The bit that `AllocSwapSpace` sets for chunk `n`. -/
def slot (n : Nat) : Nat := (n - 1) / 32 * 32 * 32 + (n - 1) % 32

/-- `AllocSwapSpace` may return chunk `n`. -/
def Available (fSwapMap : Nat → BitVec 32) (fSwapChunkCount n : Nat) : Prop :=
  0 < n ∧ (n - 1) / 32 * 32 < fSwapChunkCount / 32 ∧ bit fSwapMap (slot n) = false

/-- `FreeSwapSpace(n)` makes chunk `n` available, and no other. -/
def FreesExactly (s : State) (n : Nat) : Prop :=
  ∀ m, Available (freeSwapSpace s.fSwapMap n) s.fSwapChunkCount m ↔ Available s.fSwapMap s.fSwapChunkCount m ∨ m = n

/-- A destructor clears no bit of a chunk that another object has. -/
def sparesOthers (r : Run) : Call → Prop
  | .destroy i => ∀ a n, HasChunk r.toState i a n → ∀ j b m, j ≠ i → HasChunk r.toState j b m → slot m.toNat ≠ n.toNat
  | .newSwapSpace _ | .write .. => True

def freesNothing (r : Run) : Call → Prop
  | .destroy i => ∀ a n, ¬ HasChunk r.toState i a n
  | .newSwapSpace _ | .write .. => True

/-! ## `AllocSwapSpace` -/

theorem slot_eq (k j : Nat) (hj : j < 32) : slot (k * 32 + j + 1) = k * 32 * 32 + j := by
  have hdiv : (k * 32 + j + 1 - 1) / 32 = k := by omega
  have hmod : (k * 32 + j + 1 - 1) % 32 = j := by omega
  rw [slot, hdiv, hmod]

variable {n a b i offset va offset' j : Nat} {s s' : State} {map : Nat → BitVec 32} {arr : List SwapChunk} {r : Run}
    {memory : Memory} {m : Int}

theorem slot_ne (hn : 0 < n) : slot n ≠ n := by
  unfold slot
  omega

theorem allocSwapSpace_spec (h : allocSwapSpace s = some (n, map)) :
    Available s.fSwapMap s.fSwapChunkCount n ∧ map = mark s.fSwapMap (slot n) := by
  obtain ⟨k, hk, hword, -⟩ := findSome_range h
  dsimp only at hword
  split at hword
  · cases hword
  obtain ⟨j, hj, hbit, -⟩ := findSome_range hword
  obtain ⟨hclear, hres⟩ := ite_none_right_eq_some.1 hbit
  cases hres
  have hslot := slot_eq k j hj
  refine ⟨⟨Nat.succ_pos _, by omega, ?_⟩, by rw [hslot]⟩
  have hdiv : (k * 32 * 32 + j) / 32 = k * 32 := by omega
  have hmod : (k * 32 * 32 + j) % 32 = j := by omega
  rw [hslot, bit, hdiv, hmod]
  exact (and_one_shiftLeft_eq_zero hj _).1 hclear

theorem allocSwapSpace_isSome (h : Available s.fSwapMap s.fSwapChunkCount n) :
    (allocSwapSpace s).isSome := by
  obtain ⟨hpos, hlt, hbit⟩ := h
  rw [← not_isNone, Bool.not_eq_true', ← Bool.not_eq_true, isNone_iff_eq_none]
  intro hnone
  have hj : (n - 1) % 32 < 32 := Nat.mod_lt _ (by decide)
  have hword := List.findSome?_eq_none_iff.1 hnone ((n - 1) / 32) (mem_range.2 (by omega))
  dsimp only at hword
  have hdiv : slot n / 32 = (n - 1) / 32 * 32 := by
    unfold slot
    omega
  have hmod : slot n % 32 = (n - 1) % 32 := by
    unfold slot
    omega
  rw [bit, hdiv, hmod] at hbit
  split at hword
  · rename_i hfull
    have hall : 0xffffffff#32 = BitVec.allOnes 32 := by decide
    rw [hfull, hall, BitVec.getLsbD_allOnes, decide_eq_true hj] at hbit
    cases hbit
  · have hclear := (and_one_shiftLeft_eq_zero hj _).2 hbit
    have hloop := List.findSome?_eq_none_iff.1 hword _ (mem_range.2 hj)
    rw [if_pos hclear] at hloop
    cases hloop

theorem Available.lt {count : Nat} (h : Available map count n) (hcount : count < 2 ^ 17) :
    n < 2 ^ 13 := by
  obtain ⟨hpos, hlt, -⟩ := h
  omega

theorem offsetField_eq (h : n < 2 ^ 13) : offsetField n = n := by
  unfold offsetField
  omega

theorem deviceOffset_eq {n : Int} (alloc : BitVec 4) (offset : Nat) (hlo : 0 < n) (hhi : n < 2 ^ 13) :
    deviceOffset ⟨n, alloc⟩ offset = (n - 1) * 16384 + (offset % 16384 : Nat) := by
  unfold deviceOffset kChunkSize PAGE_SIZE
  dsimp only
  exact toInt32_of_isInt32 ⟨by omega, by omega⟩

/-! ## The array of chunks -/

variable {chunk old : SwapChunk} {space : SwapSpace} {x : Nat} {r' : Run}

theorem grow_of_some (h : arr[b]? = some chunk) :
    (grow arr a)[b]? = some chunk := by
  obtain ⟨hlt, -⟩ := List.getElem?_eq_some_iff.1 h
  rw [grow, List.getElem?_append_left hlt, h]

theorem grow_some (h : (grow arr a)[b]? = some chunk)
    (hne : chunk.offset ≠ 0) : arr[b]? = some chunk := by
  unfold grow at h
  by_cases hlt : b < arr.length
  · rwa [List.getElem?_append_left hlt] at h
  · rw [List.getElem?_append_right (by omega), List.getElem?_replicate] at h
    obtain ⟨-, hzero⟩ := ite_none_right_eq_some.1 h
    cases hzero
    exact absurd rfl hne

def address (n : Int) (offset : Nat) : Nat := (n.toNat - 1) * 16384 + offset % 16384

/-- What `Write` does: it has a chunk for the offset, an old one or one that was available, and puts the page there. -/
structure Writes (s : State) (i offset : Nat) (memory : Memory) (va : Nat) (s' : State) (space : SwapSpace)
    (old : SwapChunk)
    (n : Int) : Prop where
  object : s.spaces i = some space
  entry : (grow space.fChunkArray (offset / kChunkSize))[offset / kChunkSize]? = some old
  number : (old.offset ≠ 0 ∧ n = old.offset ∧ s'.fSwapMap = s.fSwapMap) ∨
    (old.offset = 0 ∧ ∃ k : Nat, n = k ∧ Available s.fSwapMap s.fSwapChunkCount k ∧ s'.fSwapMap = mark s.fSwapMap (slot k))
  count : s'.fSwapChunkCount = s.fSwapChunkCount
  device : s'.device = copy s.device (address n offset) memory va PAGE_SIZE
  spaces : s'.spaces = Function.update s.spaces i (some { space with
    fChunkArray := (grow space.fChunkArray (offset / kChunkSize)).set (offset / kChunkSize)
      ⟨n, old.alloc ||| 1#4 <<< (offset % kChunkSize / PAGE_SIZE)⟩ })

/-! ## The invariant -/

structure Inv (r : Run) : Prop where
  count : r.fSwapChunkCount < 2 ^ 17
  bound : ∀ i a n, HasChunk r.toState i a n → 0 < n ∧ n < 2 ^ 13
  marked : ∀ i a n, HasChunk r.toState i a n → bit r.fSwapMap (slot n.toNat) = true
  distinct : ∀ i a j b n, HasChunk r.toState i a n → HasChunk r.toState j b n → i = j ∧ a = b
  written : ∀ i space offset bytes, r.spaces i = some space → r.written i offset = some bytes →
    offset % PAGE_SIZE = 0 ∧ ∃ n, HasChunk r.toState i (offset / kChunkSize) n ∧ hasPage space offset = true ∧
      pageAt r.device (address n offset) = bytes

theorem write_spec (h : Inv r)
    (hs : write r.toState i offset memory va = some s') :
    ∃ space old n, Writes r.toState i offset memory va s' space old n ∧ 0 < n ∧ n < 2 ^ 13 := by
  obtain ⟨space, hspace, hs⟩ := bind_eq_some_iff.1 hs
  obtain ⟨old, hold, hs⟩ := bind_eq_some_iff.1 hs
  obtain ⟨⟨n, map⟩, hn, hs⟩ := bind_eq_some_iff.1 hs
  have hnumber : ((old.offset ≠ 0 ∧ n = old.offset ∧ map = r.fSwapMap) ∨
      (old.offset = 0 ∧ ∃ k : Nat, n = k ∧ Available r.fSwapMap r.fSwapChunkCount k ∧ map = mark r.fSwapMap (slot k))) ∧
      0 < n ∧ n < 2 ^ 13 := by
    unfold chunkNumber at hn
    split at hn
    · rename_i hzero
      obtain ⟨⟨k, map'⟩, halloc, hres⟩ := map_eq_some_iff.1 hn
      obtain ⟨havail, rfl⟩ := allocSwapSpace_spec halloc
      have hlt := havail.lt h.count
      have hpos := havail.1
      dsimp only at hres
      rw [offsetField_eq hlt] at hres
      cases hres
      exact ⟨.inr ⟨hzero, k, rfl, havail, rfl⟩, by omega, by omega⟩
    · rename_i hne
      cases hn
      exact ⟨.inl ⟨hne, rfl, rfl⟩, h.bound i _ _ ⟨space, old, hspace, grow_some hold hne, rfl, hne⟩⟩
  obtain ⟨hnumber, hpos, hlt⟩ := hnumber
  obtain ⟨hdev, hs⟩ := ite_none_left_eq_some.1 hs
  have haddress : deviceOffset ⟨n, old.alloc ||| 1#4 <<< (offset % kChunkSize / PAGE_SIZE)⟩ offset =
      (n - 1) * 16384 + (offset % 16384 : Nat) := deviceOffset_eq _ offset hpos hlt
  have htoNat : ((n - 1) * 16384 + (offset % 16384 : Nat) : Int).toNat = address n offset := by
    unfold address
    omega
  rw [haddress, htoNat] at hs
  cases hs
  exact ⟨space, old, n, ⟨hspace, hold, hnumber, rfl, rfl, rfl⟩, hpos, hlt⟩

theorem write_isSome (h : Inv r) (hi : (r.spaces i).isSome)
    (havail : ∃ n, Available r.fSwapMap r.fSwapChunkCount n) : (write r.toState i offset memory va).isSome := by
  obtain ⟨space, hspace⟩ := isSome_iff_exists.1 hi
  have hlen : offset / kChunkSize < (grow space.fChunkArray (offset / kChunkSize)).length := by
    unfold grow
    rw [length_append, length_replicate]
    omega
  have hget := List.getElem?_eq_getElem hlen
  generalize (grow space.fChunkArray (offset / kChunkSize))[offset / kChunkSize] = old at hget
  have hnumber : ∃ n map, chunkNumber r.toState old = some (n, map) ∧ 0 < n ∧ n < 2 ^ 13 := by
    unfold chunkNumber
    split
    · obtain ⟨n, hn⟩ := havail
      obtain ⟨⟨k, map⟩, halloc⟩ := isSome_iff_exists.1 (allocSwapSpace_isSome hn)
      obtain ⟨hk, -⟩ := allocSwapSpace_spec halloc
      have hlt := hk.lt h.count
      have hpos := hk.1
      refine ⟨k, map, ?_, by omega, by omega⟩
      rw [halloc, map_some]
      dsimp only
      rw [offsetField_eq hlt]
    · rename_i hne
      obtain ⟨hpos, hlt⟩ := h.bound i _ _ ⟨space, old, hspace, grow_some hget hne, rfl, hne⟩
      exact ⟨_, _, rfl, hpos, hlt⟩
  obtain ⟨n, map, hn, hpos, hlt⟩ := hnumber
  have hdev : ¬ deviceOffset ⟨n, old.alloc ||| 1#4 <<< (offset % kChunkSize / PAGE_SIZE)⟩ offset < 0 := by
    rw [deviceOffset_eq _ offset hpos hlt]
    omega
  simp only [write, hspace, hget, hn, bind_eq_bind, bind_some, if_neg hdev]
  rfl

theorem Writes.hasChunk_iff {n : Int}
    (h : Writes s i offset memory va s' space old n) (hn : 0 < n) (j b : Nat) (m : Int) :
    HasChunk s' j b m ↔ (j = i ∧ b = offset / kChunkSize ∧ m = n) ∨
      (¬ (j = i ∧ b = offset / kChunkSize) ∧ HasChunk s j b m) := by
  have hlen := (List.getElem?_eq_some_iff.1 h.entry).1
  unfold HasChunk
  rw [h.spaces]
  by_cases hji : j = i
  · subst hji
    rw [update_self]
    by_cases hb : b = offset / kChunkSize
    · subst hb
      simp only [Option.some.injEq, true_and, and_true, not_true_eq_false, false_and, or_false]
      constructor
      · rintro ⟨_, chunk, rfl, hchunk, rfl, -⟩
        rw [List.getElem?_set_self hlen] at hchunk
        cases hchunk
        rfl
      · intro hm
        exact ⟨_, _, rfl, List.getElem?_set_self hlen, hm.symm, by omega⟩
    · simp only [Option.some.injEq, hb, and_false, false_and, not_false_eq_true, true_and, false_or]
      constructor
      · rintro ⟨_, chunk, rfl, hchunk, hoff, hne⟩
        rw [List.getElem?_set_ne (Ne.symm hb)] at hchunk
        exact ⟨space, chunk, h.object, grow_some hchunk (by rw [hoff]; exact hne), hoff, hne⟩
      · rintro ⟨space', chunk, hspace', hchunk, hoff, hne⟩
        rw [h.object] at hspace'
        cases hspace'
        refine ⟨_, chunk, rfl, ?_, hoff, hne⟩
        rw [List.getElem?_set_ne (Ne.symm hb)]
        exact grow_of_some hchunk
  · rw [update_of_ne hji]
    simp [hji]

/-! ## Pages on the device -/

theorem pageAt_copy_self (m : Memory) (a : Nat) (src : Memory) (b : Nat) :
    pageAt (copy m a src b PAGE_SIZE) a = pageAt src b := by
  unfold pageAt
  apply map_congr_left
  intro k hk
  rw [mem_range] at hk
  unfold copy
  rw [if_pos ⟨by omega, by omega⟩, Nat.add_sub_cancel_left]

theorem pageAt_copy_other {a' : Nat} (h : a' + PAGE_SIZE ≤ a ∨ a + PAGE_SIZE ≤ a') (m src : Memory) (b : Nat) :
    pageAt (copy m a src b PAGE_SIZE) a' = pageAt m a' := by
  unfold pageAt
  apply map_congr_left
  intro k hk
  rw [mem_range] at hk
  unfold copy
  rw [if_neg (by omega)]

theorem address_apart {n : Int} (hn : 0 < n) (hm : 0 < m) (ho : offset % PAGE_SIZE = 0)
    (ho' : offset' % PAGE_SIZE = 0) (h : n ≠ m ∨ offset % kChunkSize ≠ offset' % kChunkSize) :
    address m offset' + PAGE_SIZE ≤ address n offset ∨ address n offset + PAGE_SIZE ≤ address m offset' := by
  unfold address kChunkSize PAGE_SIZE at *
  omega

/-! ## Every step keeps the invariant -/

theorem hasPage_set {n : Int}
    (h : (grow space.fChunkArray (offset / kChunkSize))[offset / kChunkSize]? = some old) (offset' : Nat) :
    hasPage { space with
      fChunkArray := (grow space.fChunkArray (offset / kChunkSize)).set (offset / kChunkSize)
        ⟨n, old.alloc ||| 1#4 <<< (offset % kChunkSize / PAGE_SIZE)⟩ } offset' =
      if offset' / kChunkSize = offset / kChunkSize then
        old.alloc.getLsbD (offset' % kChunkSize / PAGE_SIZE) ||
          decide (offset' % kChunkSize / PAGE_SIZE = offset % kChunkSize / PAGE_SIZE)
      else ((grow space.fChunkArray (offset / kChunkSize))[offset' / kChunkSize]?).any fun chunk =>
        chunk.alloc.getLsbD (offset' % kChunkSize / PAGE_SIZE) := by
  have hlen := (List.getElem?_eq_some_iff.1 h).1
  have hpage : offset % kChunkSize / PAGE_SIZE < 4 := by
    unfold kChunkSize PAGE_SIZE
    omega
  unfold hasPage
  split
  · rename_i hsame
    rw [hsame, List.getElem?_set_self hlen, any_some, BitVec.getLsbD_or, getLsbD_one_shiftLeft hpage]
  · rename_i hother
    rw [List.getElem?_set_ne (Ne.symm hother)]

namespace Writes

variable {r : Run} (h : Inv r) {i offset : Nat} {memory : Memory} {va : Nat} {s' : State} {space : SwapSpace}
  {old : SwapChunk} {n : Int} (hw : Writes r.toState i offset memory va s' space old n)

include hw

theorem hasChunk_old (hold : old.offset ≠ 0) (hn : n = old.offset) :
    HasChunk r.toState i (offset / kChunkSize) n :=
  ⟨space, old, hw.object, grow_some hw.entry hold, hn.symm, hn ▸ hold⟩

theorem bit_of_bit (hx : bit r.fSwapMap x = true) : bit s'.fSwapMap x = true := by
  rcases hw.number with ⟨-, -, hmap⟩ | ⟨-, k, -, -, hmap⟩
  · rw [hmap]
    exact hx
  · rw [hmap, bit_mark, hx, Bool.or_true]

include h

theorem fresh (hne : ¬ (j = i ∧ b = offset / kChunkSize)) : ¬ HasChunk r.toState j b n := by
  intro hj
  rcases hw.number with ⟨hold, hn, -⟩ | ⟨-, k, hn, havail, -⟩
  · obtain ⟨rfl, rfl⟩ := h.distinct _ _ _ _ _ hj (hw.hasChunk_old hold hn)
    exact hne ⟨rfl, rfl⟩
  · have hset := h.marked _ _ _ hj
    rw [hn, Int.toNat_natCast, havail.2.2] at hset
    cases hset

theorem bit_slot : bit s'.fSwapMap (slot n.toNat) = true := by
  rcases hw.number with ⟨hold, hn, hmap⟩ | ⟨-, k, hn, -, hmap⟩
  · rw [hmap]
    exact h.marked i _ n (hw.hasChunk_old hold hn)
  · rw [hmap, hn, Int.toNat_natCast, bit_mark, decide_eq_true rfl, Bool.true_or]

theorem pageAt_other (hpos : 0 < n) (halign : offset % PAGE_SIZE = 0)
    (halign' : offset' % PAGE_SIZE = 0) (hm : HasChunk r.toState j (offset' / kChunkSize) m)
    (hne : ¬ (j = i ∧ offset' / kChunkSize = offset / kChunkSize)) :
    pageAt s'.device (address m offset') = pageAt r.device (address m offset') := by
  have hnm : n ≠ m := by
    rintro rfl
    exact hw.fresh h hne hm
  rw [hw.device, pageAt_copy_other (address_apart hpos (h.bound j _ m hm).1 halign halign' (.inl hnm))]

theorem written_self (hpos : 0 < n) (halign : offset % PAGE_SIZE = 0) {space' : SwapSpace}
    {bytes : List UInt8} (hspace : s'.spaces i = some space')
    (hwritten : update (r.written i) offset (some (pageAt memory va)) offset' = some bytes) :
    offset' % PAGE_SIZE = 0 ∧ ∃ m, HasChunk s' i (offset' / kChunkSize) m ∧ hasPage space' offset' = true ∧
      pageAt s'.device (address m offset') = bytes := by
  have hiff := hw.hasChunk_iff hpos
  rw [hw.spaces, update_self] at hspace
  cases hspace
  have hhas := hasPage_set (n := n) hw.entry offset'
  by_cases hoff : offset' = offset
  · subst hoff
    rw [update_self] at hwritten
    rw [← Option.some.inj hwritten]
    refine ⟨halign, n, (hiff _ _ _).2 (.inl ⟨rfl, rfl, rfl⟩), ?_, ?_⟩
    · rw [hhas, if_pos rfl, decide_eq_true rfl, Bool.or_true]
    · rw [hw.device, pageAt_copy_self]
  · rw [update_of_ne hoff] at hwritten
    obtain ⟨halign', m, hm, hpage, hbytes⟩ := h.written i space offset' bytes hw.object hwritten
    have ⟨space'', chunk, hspace'', hchunk, hcm, hm0⟩ := hm
    rw [hw.object] at hspace''
    cases hspace''
    have hget := grow_of_some (a := offset / kChunkSize) hchunk
    have hpage' : chunk.alloc.getLsbD (offset' % kChunkSize / PAGE_SIZE) = true := by
      unfold hasPage at hpage
      rwa [hchunk] at hpage
    by_cases hsame : offset' / kChunkSize = offset / kChunkSize
    · -- another page of the chunk that was written
      have hold : chunk = old := by
        rw [hsame, hw.entry] at hget
        cases hget
        rfl
      subst hold
      have hnm : n = m := by
        rcases hw.number with ⟨-, hn, -⟩ | ⟨hzero, -⟩
        · rw [hn, hcm]
        · rw [hcm] at hzero
          exact absurd hzero hm0
      subst hnm
      have hmod : offset % kChunkSize ≠ offset' % kChunkSize := by
        intro hmod
        apply hoff
        rw [← Nat.div_add_mod offset kChunkSize, ← Nat.div_add_mod offset' kChunkSize, hsame, hmod]
      refine ⟨halign', n, (hiff _ _ _).2 (.inl ⟨rfl, hsame, rfl⟩), ?_, ?_⟩
      · rw [hhas, if_pos hsame, hpage', Bool.true_or]
      · rw [hw.device, pageAt_copy_other (address_apart hpos hpos halign halign' (.inr hmod)), hbytes]
    · have hne : ¬ (i = i ∧ offset' / kChunkSize = offset / kChunkSize) := fun he => hsame he.2
      refine ⟨halign', m, (hiff _ _ _).2 (.inr ⟨hne, hm⟩), ?_, ?_⟩
      · rw [hhas, if_neg hsame, hget]
        exact hpage'
      · rw [hw.pageAt_other h hpos halign halign' hm hne, hbytes]

end Writes

theorem inv_write (h : Inv r)
    (hc : (Call.write i offset memory va).legal r) (hs : write r.toState i offset memory va = some s') :
    Inv ⟨s', update r.written i (update (r.written i) offset (some (pageAt memory va)))⟩ := by
  obtain ⟨-, halign, -⟩ := hc
  obtain ⟨space, old, n, hw, hpos, hlt⟩ := write_spec h hs
  have hiff := hw.hasChunk_iff hpos
  refine ⟨hw.count ▸ h.count, ?_, ?_, ?_, ?_⟩
  · intro j b m hm
    rcases (hiff j b m).1 hm with ⟨-, -, rfl⟩ | ⟨-, hm⟩
    · exact ⟨hpos, hlt⟩
    · exact h.bound j b m hm
  · intro j b m hm
    rcases (hiff j b m).1 hm with ⟨-, -, rfl⟩ | ⟨-, hm⟩
    · exact hw.bit_slot h
    · exact hw.bit_of_bit (h.marked j b m hm)
  · intro j b j' b' m hm hm'
    rcases (hiff j b m).1 hm with ⟨rfl, rfl, rfl⟩ | ⟨hne, hm⟩
    · rcases (hiff j' b' m).1 hm' with ⟨rfl, rfl, -⟩ | ⟨hne', hm'⟩
      · exact ⟨rfl, rfl⟩
      · exact absurd hm' (hw.fresh h hne')
    · rcases (hiff j' b' m).1 hm' with ⟨-, -, rfl⟩ | ⟨-, hm'⟩
      · exact absurd hm (hw.fresh h hne)
      · exact h.distinct j b j' b' m hm hm'
  · intro j space' offset' bytes hspace hwritten
    replace hspace : s'.spaces j = some space' := hspace
    replace hwritten : update r.written i _ j offset' = some bytes := hwritten
    by_cases hji : j = i
    · subst hji
      rw [update_self] at hwritten
      exact hw.written_self h hpos halign hspace hwritten
    · rw [hw.spaces, update_of_ne hji] at hspace
      rw [update_of_ne hji] at hwritten
      obtain ⟨halign', m, hm, hpage, hbytes⟩ := h.written j space' offset' bytes hspace hwritten
      have hne : ¬ (j = i ∧ offset' / kChunkSize = offset / kChunkSize) := fun he => hji he.1
      refine ⟨halign', m, (hiff _ _ _).2 (.inr ⟨hne, hm⟩), hpage, ?_⟩
      exact (hw.pageAt_other h hpos halign halign' hm hne).trans hbytes

theorem bit_frees (h : ∀ chunk ∈ arr, chunk.offset ≠ 0 → x ≠ chunk.offset.toNat) (hx : bit map x = true) :
    bit (arr.foldl (fun map chunk => if chunk.offset ≠ 0 then freeSwapSpace map chunk.offset else map) map) x = true := by
  induction arr generalizing map with
  | nil => exact hx
  | cons chunk arr ih =>
    rw [foldl_cons]
    refine ih (fun c hc => h c (mem_cons_of_mem chunk hc)) ?_
    split
    · rename_i hne
      have hxn := h chunk (.head _) hne
      rw [freeSwapSpace, bit_unmark, hx, decide_eq_false hxn]
      rfl
    · exact hx

theorem HasChunk.of_destroyed (hspaces : s'.spaces = update s.spaces i none) (h : HasChunk s' j b m) : j ≠ i ∧
    HasChunk s j b m := by
  obtain ⟨space, chunk, hspace, hrest⟩ := h
  rw [hspaces] at hspace
  by_cases hji : j = i
  · subst hji
    rw [update_self] at hspace
    cases hspace
  · rw [update_of_ne hji] at hspace
    exact ⟨hji, space, chunk, hspace, hrest⟩

theorem HasChunk.destroyed (hspaces : s'.spaces = update s.spaces i none) (hji : j ≠ i) (h : HasChunk s j b m) :
    HasChunk s' j b m := by
  obtain ⟨space, chunk, hspace, hrest⟩ := h
  refine ⟨space, chunk, ?_, hrest⟩
  rw [hspaces, update_of_ne hji]
  exact hspace

theorem inv_destroy (h : Inv r) (hP : sparesOthers r (.destroy i))
    (hs : destroy r.toState i = some s') : Inv ⟨s', r.written⟩ := by
  obtain ⟨space, hspace, hs⟩ := bind_eq_some_iff.1 hs
  have hspaces : s'.spaces = update r.spaces i none := by
    cases hs
    rfl
  have hchunk : ∀ {j b m}, HasChunk s' j b m → j ≠ i ∧ HasChunk r.toState j b m := HasChunk.of_destroyed hspaces
  have hcount : s'.fSwapChunkCount = r.fSwapChunkCount ∧ s'.device = r.device := by
    cases hs
    exact ⟨rfl, rfl⟩
  refine ⟨hcount.1 ▸ h.count, ?_, ?_, ?_, ?_⟩
  · intro j b m hm
    exact h.bound j b m (hchunk hm).2
  · intro j b m hm
    obtain ⟨hji, hold⟩ := hchunk hm
    cases hs
    refine bit_frees ?_ (h.marked j b m hold)
    intro chunk hmem hne heq
    obtain ⟨a, ha⟩ := List.mem_iff_getElem?.1 hmem
    exact hP a _ ⟨space, chunk, hspace, ha, rfl, hne⟩ j b m hji hold heq
  · intro j b j' b' m hm hm'
    exact h.distinct j b j' b' m (hchunk hm).2 (hchunk hm').2
  · intro j space' offset bytes hspace' hwritten
    replace hspace' : s'.spaces j = some space' := hspace'
    rw [hspaces] at hspace'
    by_cases hji : j = i
    · subst hji
      rw [update_self] at hspace'
      cases hspace'
    · rw [update_of_ne hji] at hspace'
      obtain ⟨halign, n, hn, hpage, hbytes⟩ := h.written j space' offset bytes hspace' hwritten
      refine ⟨halign, n, hn.destroyed hspaces hji, hpage, ?_⟩
      rw [hcount.2, hbytes]

theorem inv_newSwapSpace (h : Inv r) (hc : (Call.newSwapSpace i).legal r)
    (hs : perform r (.newSwapSpace i) = some r') : Inv r' := by
  cases hs
  have hnone : r.spaces i = none := isNone_iff_eq_none.1 hc
  have hchunk : ∀ j b m, HasChunk { r.toState with spaces := update r.spaces i (some ⟨[], 0⟩) } j b m ↔
      HasChunk r.toState j b m := by
    intro j b m
    unfold HasChunk
    by_cases hji : j = i
    · subst hji
      simp [hnone]
    · simp [hji]
  refine ⟨h.count, ?_, ?_, ?_, ?_⟩
  · intro j b m hm
    exact h.bound j b m ((hchunk j b m).1 hm)
  · intro j b m hm
    exact h.marked j b m ((hchunk j b m).1 hm)
  · intro j b j' b' m hm hm'
    exact h.distinct j b j' b' m ((hchunk j b m).1 hm) ((hchunk j' b' m).1 hm')
  · intro j space offset bytes hspace hwritten
    by_cases hji : j = i
    · subst hji
      replace hwritten : update r.written j (fun _ => none) j offset = some bytes := hwritten
      rw [update_self] at hwritten
      cases hwritten
    · replace hwritten : update r.written i (fun _ => none) j offset = some bytes := hwritten
      replace hspace : update r.spaces i _ j = some space := hspace
      rw [update_of_ne hji] at hwritten hspace
      obtain ⟨halign, n, hn, hrest⟩ := h.written j space offset bytes hspace hwritten
      exact ⟨halign, n, (hchunk _ _ _).2 hn, hrest⟩

theorem inv_step (h : Inv r) {c : Call} (hP : sparesOthers r c) (hs : step r c = some r') : Inv r' := by
  obtain ⟨hc, hs⟩ := ite_none_right_eq_some.1 hs
  cases c with
  | newSwapSpace i => exact inv_newSwapSpace h hc hs
  | write i offset memory va =>
    obtain ⟨s', hs', rfl⟩ := map_eq_some_iff.1 hs
    exact inv_write h hc hs'
  | destroy i =>
    obtain ⟨s', hs', rfl⟩ := map_eq_some_iff.1 hs
    exact inv_destroy h hP hs'

theorem inv_init (h : system.init r) : Inv r := by
  obtain ⟨hnone, hcount, hzero⟩ := h
  have hno : ∀ i a n, ¬ HasChunk r.toState i a n := by
    rintro i a n ⟨space, chunk, hspace, -⟩
    rw [hnone i] at hspace
    cases hspace
  refine ⟨hcount, ?_, ?_, ?_, ?_⟩
  · intro i a n hn
    exact absurd hn (hno i a n)
  · intro i a n hn
    exact absurd hn (hno i a n)
  · intro i a j b n hn
    exact absurd hn (hno i a n)
  · intro i space offset bytes hspace
    rw [hnone i] at hspace
    cases hspace

theorem inv_reachVia (h : system.ReachVia sparesOthers r) : Inv r :=
  StepSystem.ReachVia.invariant Inv (fun _ => inv_init) (fun _ _ _ hI hP hs => inv_step hI hP hs) h

/-- No chunk has two owners, what is read is what was last written there, and a page is written while a chunk is
available. -/
structure SwapRight (r : Run) : Prop where
  owners : ∀ i a j b n, HasChunk r.toState i a n → HasChunk r.toState j b n → i = j ∧ a = b
  writes : ∀ i offset memory va, (Call.write i offset memory va).legal r →
    (∃ n, Available r.fSwapMap r.fSwapChunkCount n) → (write r.toState i offset memory va).isSome
  reads : ∀ i space offset bytes, r.spaces i = some space → r.written i offset = some bytes →
    hasPage space offset = true ∧ read r.toState i offset = some bytes

theorem Inv.swapRight (h : Inv r) : SwapRight r := by
  refine ⟨h.distinct, fun _ _ _ _ hc havail => write_isSome h hc.1 havail, ?_⟩
  intro i space offset bytes hspace hwritten
  obtain ⟨halign, n, ⟨space', ⟨number, alloc⟩, hspace', hget, rfl, hne⟩, hpage, hbytes⟩ :=
    h.written i space offset bytes hspace hwritten
  rw [hspace] at hspace'
  cases hspace'
  obtain ⟨hpos, hlt⟩ := h.bound i _ _ ⟨space, _, hspace, hget, rfl, hne⟩
  refine ⟨hpage, ?_⟩
  have hdev := deviceOffset_eq alloc offset hpos hlt
  dsimp only at hdev hbytes hpos hget
  have hnonneg : ¬ deviceOffset ⟨number, alloc⟩ offset < 0 := by
    rw [hdev]
    omega
  have htoNat : (deviceOffset ⟨number, alloc⟩ offset).toNat = address number offset := by
    rw [hdev]
    unfold address
    omega
  simp only [read, hspace, hget, bind_eq_bind, bind_some, if_neg hnonneg, htoNat, hbytes]
  rfl

/-- `FreeSwapSpace` never makes the chunk it frees available. -/
theorem Inv.not_freesExactly (h : Inv r) {n : Int} (hn : HasChunk r.toState i a n) :
    ¬ FreesExactly r.toState n.toNat := by
  intro hfree
  obtain ⟨hpos, -⟩ := h.bound i a n hn
  obtain ⟨-, -, hclear⟩ := (hfree n.toNat).2 (.inr rfl)
  have hne : slot n.toNat ≠ n.toNat := slot_ne (by omega)
  rw [freeSwapSpace, Int.toNat_natCast, bit_unmark, decide_eq_false hne, h.marked i a n hn] at hclear
  cases hclear

/-- **Swap space.** While no object that has a chunk is destroyed, everything holds; and freeing a chunk never
makes that chunk available again. -/
theorem swap_right {r : Run} (h : system.ReachVia freesNothing r) :
    SwapRight r ∧ ∀ i a n, HasChunk r.toState i a n → ¬ FreesExactly r.toState n.toNat := by
  have hinv : Inv r := by
    refine inv_reachVia (h.mono ?_)
    intro s c hP
    cases c with
    | destroy i => exact fun a n hn => absurd hn (hP a n)
    | newSwapSpace i => trivial
    | write i offset memory va => trivial
  exact ⟨hinv.swapRight, fun i a n hn => hinv.not_freesExactly hn⟩

def smallDevice : Run :=
  ⟨⟨fun _ => 0#32, 32, 0x7fffffff, fun _ => 0, fun _ => none⟩, fun _ _ => none⟩

theorem smallDevice_init : system.init smallDevice := ⟨fun _ => rfl, by decide, fun _ _ => rfl⟩

instance (space : SwapSpace) : Decidable (∀ chunk ∈ space.fChunkArray, chunk.offset = 0) :=
  inferInstanceAs (Decidable (∀ _ ∈ _, _))

theorem freesNothing_iff : freesNothing r (.destroy i) ↔
    (r.spaces i).elim True fun space => ∀ chunk ∈ space.fChunkArray, chunk.offset = 0 := by
  constructor
  · intro h
    cases hspace : r.spaces i with
    | none => trivial
    | some space =>
      intro chunk hmem
      obtain ⟨a, ha⟩ := List.mem_iff_getElem?.1 hmem
      by_contra hne
      exact h a _ ⟨space, chunk, hspace, ha, rfl, hne⟩
  · rintro h a n ⟨space, chunk, hspace, hget, hn, hne⟩
    rw [hspace] at h
    exact hne (hn ▸ h chunk (List.mem_of_getElem? hget))

instance (r : Run) : (c : Call) → Decidable (freesNothing r c)
  | .destroy _ => decidable_of_iff _ freesNothing_iff.symm
  | .newSwapSpace _ | .write .. => .isTrue trivial

/-- Two objects, three pages; an object that was never written to is destroyed. -/
theorem swap_right_run :
    ∃ r, system.exec smallDevice [.newSwapSpace 0, .newSwapSpace 1, .write 0 0x5000 (fun _ => 1) 0,
        .write 1 0 (fun _ => 2) 0, .newSwapSpace 2, .destroy 2, .write 0 0x6000 (fun _ => 3) 0] = some r ∧
      SwapRight r := by
  have hrun : (system.exec smallDevice [.newSwapSpace 0, .newSwapSpace 1, .write 0 0x5000 (fun _ => 1) 0,
      .write 1 0 (fun _ => 2) 0, .newSwapSpace 2, .destroy 2, .write 0 0x6000 (fun _ => 3) 0]).isSome := by
    decide +kernel
  have hmeets : system.Meets freesNothing smallDevice [.newSwapSpace 0, .newSwapSpace 1, .write 0 0x5000 (fun _ => 1) 0,
      .write 1 0 (fun _ => 2) 0, .newSwapSpace 2, .destroy 2, .write 0 0x6000 (fun _ => 3) 0] := by decide +kernel
  obtain ⟨r, hr⟩ := Option.isSome_iff_exists.1 hrun
  exact ⟨r, hr, (swap_right (StepSystem.reachVia_exec _ (.init smallDevice_init) hmeets hr)).1⟩

/-- The destructor of the owner of chunk 1 clears the bit of chunk 2, which is then given away again. -/
theorem chunk_given_twice : ¬ ∀ r, system.Reach r → SwapRight r := by
  intro h
  have hrun : (system.exec smallDevice [.newSwapSpace 0, .newSwapSpace 1, .write 0 0 (fun _ => 1) 0,
      .write 1 0 (fun _ => 2) 0, .destroy 0, .newSwapSpace 2, .write 2 0 (fun _ => 3) 0]).map
        (fun r => (r.spaces 1, r.spaces 2)) = some (some ⟨[⟨2, 1⟩], 0⟩, some ⟨[⟨2, 1⟩], 0⟩) := by decide +kernel
  obtain ⟨r, hr, hfacts⟩ := Option.map_eq_some_iff.1 hrun
  obtain ⟨hone, htwo⟩ := Prod.mk.inj hfacts
  have hright := h r (StepSystem.reach_exec _ (.init smallDevice_init) hr)
  have howner : ∀ i, r.spaces i = some ⟨[⟨2, 1⟩], 0⟩ → HasChunk r.toState i 0 2 :=
    fun i hi => ⟨_, _, hi, rfl, rfl, by decide⟩
  obtain ⟨heq, -⟩ := hright.owners 1 0 2 0 2 (howner 1 hone) (howner 2 htwo)
  cases heq

end Swap
