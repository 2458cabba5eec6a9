import Mathlib.Data.List.Basic
import Mathlib.Data.List.Sort
import SkyOS.Lib.Bytes

/-!
# `ordered_array_t` (`ordered_array.cpp`)

An array of pointers in memory, kept by a `less_than` that reads what the pointers point to. `max_size` is
stored and never read; `ASSERT` is defined away in this file.
-/

namespace OrderedArrays

open Bytes List

structure OrderedArray where
  array : Nat
  size : Nat
  max_size : Nat
deriving DecidableEq, Repr

/-- `place_ordered_array` (:34). -/
def placeOrderedArray (m : Memory) (addr max_size : Nat) : Memory × OrderedArray :=
  (fill m addr 0 (4 * max_size), ⟨addr, 0, max_size⟩)

/-- `lookup_ordered_array` (:74). -/
def lookupOrderedArray (m : Memory) (i : Nat) (index : OrderedArray) : Nat := read32 m (index.array + 4 * i)

/-- The first loop of the insertion (:51), with `n` entries left. -/
def insertAt (less_than : Memory → Nat → Nat → Bool) (m : Memory) (item : Nat) (index : OrderedArray) : Nat → Nat → Nat
  | iterator, 0 => iterator
  | iterator, n + 1 =>
    if less_than m (lookupOrderedArray m iterator index) item then insertAt less_than m item index (iterator + 1) n
    else iterator

/-- The second loop (:59-65), with `n` entries left to move up. -/
def moveUp (array : Nat) : Memory → Nat → Nat → Nat → Memory
  | m, _, _, 0 => m
  | m, tmp, iterator, n + 1 =>
    let tmp2 := read32 m (array + 4 * (iterator + 1))
    moveUp array (write32 m (array + 4 * (iterator + 1)) tmp) tmp2 (iterator + 1) n

/-- `insert_ordered_array` (:47). -/
def insertOrderedArray (less_than : Memory → Nat → Nat → Bool) (m : Memory) (item : Nat) (index : OrderedArray) :
    Memory × OrderedArray :=
  let iterator := insertAt less_than m item index 0 index.size
  if iterator = index.size then
    (write32 m (index.array + 4 * index.size) item, { index with size := index.size + 1 })
  else
    let tmp := read32 m (index.array + 4 * iterator)
    (moveUp index.array (write32 m (index.array + 4 * iterator) item) tmp iterator (index.size - iterator),
      { index with size := index.size + 1 })

/-- The loop of the removal (:82), with `n` entries left to move down. -/
def moveDown (array : Nat) : Memory → Nat → Nat → Memory
  | m, _, 0 => m
  | m, i, n + 1 => moveDown array (write32 m (array + 4 * i) (read32 m (array + 4 * (i + 1)))) (i + 1) n

/-- `remove_ordered_array` (:80). -/
def removeOrderedArray (m : Memory) (i : Nat) (index : OrderedArray) : Memory × OrderedArray :=
  (moveDown index.array m i (index.size - i), { index with size := index.size - 1 })

/-! ## The entries -/

def entries (m : Memory) (index : OrderedArray) : List Nat := words m index.array index.size

theorem insertAt_le (less_than : Memory → Nat → Nat → Bool) (m : Memory) (item : Nat) (index : OrderedArray)
    (iterator n : Nat) : insertAt less_than m item index iterator n ≤ iterator + n := by
  induction n generalizing iterator with
  | zero => simp [insertAt]
  | succ n ih =>
    unfold insertAt
    split
    · have := ih (iterator + 1)
      omega
    · omega

variable {x item : Nat} {m : Memory} {r : Nat → Nat → Prop} {index : OrderedArray}

theorem moveUp_outside (array : Nat) (m : Memory) (tmp iterator n : Nat)
    (h : x < array + 4 * (iterator + 1) ∨ array + 4 * (iterator + 1 + n) ≤ x) : moveUp array m tmp iterator n x = m x := by
  induction n generalizing m tmp iterator with
  | zero => rfl
  | succ n ih =>
    rw [moveUp, ih _ _ _ (by omega), write32_outside m (by omega)]

/-- Moving up puts `tmp` in front and drops the last word. -/
theorem words_moveUp (array : Nat) (m : Memory) {tmp : Nat} (htmp : tmp < 2 ^ 32) (iterator n : Nat) :
    words (moveUp array m tmp iterator n) (array + 4 * (iterator + 1)) n =
      (tmp :: words m (array + 4 * (iterator + 1)) n).take n := by
  induction n generalizing m tmp iterator with
  | zero => rfl
  | succ n ih =>
    have haddr : array + 4 * (iterator + 1) + 4 = array + 4 * (iterator + 1 + 1) := by omega
    have hhead : read32 (moveUp array m tmp iterator (n + 1)) (array + 4 * (iterator + 1)) = tmp := by
      rw [moveUp, read32_congr fun x hx => moveUp_outside array _ _ _ _ (.inl (by have := hx.2; omega))]
      exact read32_write32_self m _ htmp
    have htail := ih (write32 m (array + 4 * (iterator + 1)) tmp)
      (read32_lt m (array + 4 * (iterator + 1))) (iterator + 1)
    have hkeep : words (write32 m (array + 4 * (iterator + 1)) tmp) (array + 4 * (iterator + 1 + 1)) n =
        words m (array + 4 * (iterator + 1 + 1)) n :=
      words_congr fun x hx => write32_outside m (.inr (by have := hx.1; omega)) _
    rw [hkeep] at htail
    rw [words, hhead, haddr, take_succ_cons, words, haddr, moveUp, htail]

theorem moveDown_outside (array : Nat) (m : Memory) (i n : Nat)
    (h : x < array + 4 * i ∨ array + 4 * (i + n) ≤ x) : moveDown array m i n x = m x := by
  induction n generalizing m i with
  | zero => rfl
  | succ n ih =>
    rw [moveDown, ih _ _ (by omega), write32_outside m (by omega)]

theorem words_moveDown (array : Nat) (m : Memory) (i n : Nat) :
    words (moveDown array m i n) (array + 4 * i) n = words m (array + 4 * (i + 1)) n := by
  induction n generalizing m i with
  | zero => rfl
  | succ n ih =>
    have haddr : array + 4 * i + 4 = array + 4 * (i + 1) := by omega
    have haddr' : array + 4 * (i + 1) + 4 = array + 4 * (i + 1 + 1) := by omega
    have hhead : read32 (moveDown array m i (n + 1)) (array + 4 * i) = read32 m (array + 4 * (i + 1)) := by
      rw [moveDown, read32_congr fun x hx => moveDown_outside array _ _ _ (.inl (by have := hx.2; omega))]
      exact read32_write32_self m _ (read32_lt m _)
    have hkeep : words (write32 m (array + 4 * i) (read32 m (array + 4 * (i + 1)))) (array + 4 * (i + 1 + 1)) n =
        words m (array + 4 * (i + 1 + 1)) n :=
      words_congr fun x hx => write32_outside m (.inr (by have := hx.1; omega)) _
    rw [words, hhead, haddr, moveDown, ih, hkeep, words, haddr']

theorem le_insertAt (less_than : Memory → Nat → Nat → Bool) (m : Memory) (item : Nat) (index : OrderedArray)
    (iterator n : Nat) : iterator ≤ insertAt less_than m item index iterator n := by
  induction n generalizing iterator with
  | zero => simp [insertAt]
  | succ n ih =>
    unfold insertAt
    split
    · have := ih (iterator + 1)
      omega
    · omega

/-- The first loop stops where the item belongs. -/
theorem orderedInsert_words {less_than : Memory → Nat → Nat → Bool} [DecidableRel r]
    (hr : ∀ p q, r p q ↔ less_than m q p = false) (item : Nat) (index : OrderedArray) (iterator n : Nat) :
    (words m (index.array + 4 * iterator) n).orderedInsert r item =
      words m (index.array + 4 * iterator) (insertAt less_than m item index iterator n - iterator) ++
        item :: words m (index.array + 4 * insertAt less_than m item index iterator n)
          (iterator + n - insertAt less_than m item index iterator n) := by
  induction n generalizing iterator with
  | zero => simp [insertAt, words]
  | succ n ih =>
    have haddr : index.array + 4 * iterator + 4 = index.array + 4 * (iterator + 1) := by omega
    unfold insertAt
    by_cases hless : less_than m (lookupOrderedArray m iterator index) item = true
    · have hle := le_insertAt less_than m item index (iterator + 1) n
      rw [if_pos hless, words, orderedInsert_of_not_le, haddr, ih]
      · obtain ⟨k, hk⟩ := Nat.exists_eq_add_of_le hle
        have h1 : iterator + 1 + k - iterator = k + 1 := by omega
        have h2 : iterator + (n + 1) - (iterator + 1 + k) = iterator + 1 + n - (iterator + 1 + k) := by omega
        rw [hk, h1, h2, Nat.add_sub_cancel_left, words, haddr, cons_append]
      · rw [hr]
        simp only [lookupOrderedArray] at hless
        simp [hless]
    · rw [if_neg hless, words, orderedInsert_cons_of_le]
      · simp [words]
      · rw [hr]
        simpa [lookupOrderedArray] using hless

/-- **Insertion in order.** The item is put before the first entry that is not less, and nothing outside the grown array
changes. -/
theorem insertOrderedArray_ordered (less_than : Memory → Nat → Nat → Bool) (m : Memory) (hitem : item < 2 ^ 32)
    (index : OrderedArray) [DecidableRel r] (hr : ∀ p q, r p q ↔ less_than m q p = false) :
    ∃ m', insertOrderedArray less_than m item index = (m', { index with size := index.size + 1 }) ∧
      entries m' { index with size := index.size + 1 } = (entries m index).orderedInsert r item ∧
      Set.EqOn m' m (Set.Ico index.array (index.array + 4 * (index.size + 1)))ᶜ := by
  have hle := insertAt_le less_than m item index 0 index.size
  have hordered := orderedInsert_words hr item index 0 index.size
  unfold insertOrderedArray entries
  dsimp only
  simp only [Nat.mul_zero, Nat.add_zero, Nat.sub_zero, Nat.zero_add] at hordered hle
  rw [hordered]
  generalize hi : insertAt less_than m item index 0 index.size = i at hle ⊢
  split
  · rename_i heq
    subst heq
    refine ⟨_, rfl, ?_, fun x hx => write32_outside m ?_ _⟩
    · have hkeep : words (write32 m (index.array + 4 * index.size) item) index.array index.size =
          words m index.array index.size :=
        words_congr fun x hx => write32_outside m (.inl hx.2) _
      rw [words_succ, hkeep, read32_write32_self m _ hitem, Nat.sub_self]
      rfl
    · rw [Set.mem_compl_iff, Set.mem_Ico] at hx
      omega
  · rename_i hne
    obtain ⟨k, hk⟩ := Nat.exists_eq_add_of_lt (show i < index.size by omega)
    have hcount : index.size - i = k + 1 := by omega
    have hsize : index.size + 1 = i + 1 + (k + 1) := by omega
    refine ⟨_, rfl, ?_, fun x hx => ?_⟩
    · -- the entries before `i`, the item, and the entries from `i` on
      have hlow : words (moveUp index.array (write32 m (index.array + 4 * i) item) (read32 m (index.array + 4 * i)) i
          (k + 1)) index.array (i + 1) = words m index.array i ++ [item] := by
        have hkeep : words (write32 m (index.array + 4 * i) item) index.array i = words m index.array i :=
          words_congr fun x hx => write32_outside m (.inl hx.2) _
        rw [words_congr fun x hx => moveUp_outside _ _ _ _ _ (.inl hx.2), words_succ, hkeep,
          read32_write32_self m _ hitem]
      have hhigh := words_moveUp index.array (write32 m (index.array + 4 * i) item)
        (read32_lt m (index.array + 4 * i)) i (k + 1)
      have hkeep : words (write32 m (index.array + 4 * i) item) (index.array + 4 * (i + 1)) (k + 1) =
          words m (index.array + 4 * (i + 1)) (k + 1) :=
        words_congr fun x hx => write32_outside m (.inr (by have := hx.1; omega)) _
      have haddr : index.array + 4 * i + 4 = index.array + 4 * (i + 1) := by omega
      rw [hkeep, take_succ_cons, take_words m _ (Nat.le_succ k)] at hhigh
      rw [hcount, hsize, words_append, hlow, hhigh, words, haddr, append_assoc]
      rfl
    · rw [Set.mem_compl_iff, Set.mem_Ico] at hx
      rw [moveUp_outside _ _ _ _ _ (by omega), write32_outside m (by omega)]

/-- **Insertion.** One more entry, and nothing outside the grown array changes. -/
theorem insertOrderedArray_spec (less_than : Memory → Nat → Nat → Bool) (m : Memory) (hitem : item < 2 ^ 32)
    (index : OrderedArray) :
    ∃ m', insertOrderedArray less_than m item index = (m', { index with size := index.size + 1 }) ∧
      (entries m' { index with size := index.size + 1 }).Perm (item :: entries m index) ∧
      Set.EqOn m' m (Set.Ico index.array (index.array + 4 * (index.size + 1)))ᶜ := by
  obtain ⟨m', heq, hentries, hout⟩ :=
    insertOrderedArray_ordered less_than m hitem index (r := fun p q => less_than m q p = false) fun _ _ => Iff.rfl
  exact ⟨m', heq, hentries ▸ perm_orderedInsert _ _ _, hout⟩

/-- **Removal.** The entry is erased, and nothing outside the array changes. -/
theorem removeOrderedArray_spec (m : Memory) {i : Nat} (hi : i < index.size) :
    ∃ m', removeOrderedArray m i index = (m', { index with size := index.size - 1 }) ∧
      entries m' { index with size := index.size - 1 } = (entries m index).eraseIdx i ∧
      (lookupOrderedArray m i index :: (entries m index).eraseIdx i).Perm (entries m index) ∧
      Set.EqOn m' m (Set.Ico index.array (index.array + 4 * index.size))ᶜ := by
  obtain ⟨k, hk⟩ := Nat.exists_eq_add_of_lt hi
  have hcount : index.size - i = k + 1 := by omega
  have hsize : index.size - 1 = i + k := by omega
  unfold removeOrderedArray entries lookupOrderedArray
  have hold : words m index.array index.size =
      words m index.array i ++ read32 m (index.array + 4 * i) :: words m (index.array + 4 * (i + 1)) k := by
    have haddr : index.array + 4 * i + 4 = index.array + 4 * (i + 1) := by omega
    have hsplit : index.size = i + (k + 1) := by omega
    rw [hsplit, words_append, words, haddr]
  have herase : (words m index.array index.size).eraseIdx i =
      words m index.array i ++ words m (index.array + 4 * (i + 1)) k := by
    rw [hold, eraseIdx_append_of_length_le (Nat.le_of_eq (length_words m index.array i)), length_words, Nat.sub_self]
    rfl
  rw [herase]
  refine ⟨_, rfl, ?_, ?_, fun x hx => ?_⟩
  · have hlow : words (moveDown index.array m i (k + 1)) index.array i = words m index.array i :=
      words_congr fun x hx => moveDown_outside _ _ _ _ (.inl hx.2)
    have hhigh : words (moveDown index.array m i (k + 1)) (index.array + 4 * i) k =
        words m (index.array + 4 * (i + 1)) k := by
      rw [← take_words _ _ (Nat.le_succ k), words_moveDown, take_words m _ (Nat.le_succ k)]
    rw [hcount, hsize, words_append, hlow, hhigh]
  · rw [hold]
    exact perm_middle.symm
  · rw [Set.mem_compl_iff, Set.mem_Ico] at hx
    exact moveDown_outside _ _ _ _ (by omega)

theorem entries_congr {m' : Memory}
    (h : Set.EqOn m' m (Set.Ico index.array (index.array + 4 * index.size))) : entries m' index = entries m index :=
  words_congr h

theorem mem_entries_iff (m : Memory) (index : OrderedArray) (p : Nat) :
    p ∈ entries m index ↔ ∃ i < index.size, lookupOrderedArray m i index = p :=
  mem_words_iff m index.array index.size p

end OrderedArrays
