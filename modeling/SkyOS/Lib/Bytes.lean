import Mathlib.Algebra.Group.Nat.Defs
import Mathlib.Data.Set.Function
import Mathlib.Order.Interval.Set.Defs

/-!
# Byte memories

A memory is a function from addresses to bytes. `readLE` and `writeLE` are little-endian words of `n` bytes,
`words` reads an array of 32-bit words. What a write leaves alone is stated with `Set.EqOn` on address
intervals, and every reading has a congruence lemma for it.
-/

namespace Bytes

open List Nat

abbrev Memory := Nat → UInt8

def write8 (m : Memory) (a v : Nat) : Memory := fun x => if x = a then UInt8.ofNat v else m x

/-- `n` bytes from `a` on, least significant first. -/
def readLE (m : Memory) (a : Nat) : Nat → Nat
  | 0 => 0
  | n + 1 => (m a).toNat + 256 * readLE m (a + 1) n

def writeLE (m : Memory) (a v : Nat) : Nat → Memory
  | 0 => m
  | n + 1 => writeLE (write8 m a (v % 256)) (a + 1) (v / 256) n

def read32 (m : Memory) (a : Nat) : Nat := readLE m a 4

def write32 (m : Memory) (a v : Nat) : Memory := writeLE m a v 4

/-- `memset`. -/
def fill (m : Memory) (a v n : Nat) : Memory := fun x => if a ≤ x ∧ x < a + n then UInt8.ofNat v else m x

/-- `memcpy` of `n` bytes, from another memory. -/
def copy (m : Memory) (a : Nat) (src : Memory) (b n : Nat) : Memory :=
  fun x => if a ≤ x ∧ x < a + n then src (b + (x - a)) else m x

/-! ## Reading -/

variable {m m' : Memory} {a n b x v k : Nat}

theorem readLE_congr (h : Set.EqOn m' m (Set.Ico a (a + n))) :
    readLE m' a n = readLE m a n := by
  induction n generalizing a with
  | zero => rfl
  | succ n ih =>
    have hhead : m' a = m a := h ⟨by omega, by omega⟩
    have htail := ih (a := a + 1) fun x hx => h ⟨by have := hx.1; omega, by have := hx.2; omega⟩
    simp only [readLE, hhead, htail]

theorem readLE_shift (h : ∀ j < n, m' (b + j) = m (a + j)) :
    readLE m' b n = readLE m a n := by
  induction n generalizing a b with
  | zero => rfl
  | succ n ih =>
    have hhead : m' b = m a := h 0 (succ_pos n)
    have htail := ih (a := a + 1) (b := b + 1) fun j hj => by
      rw [Nat.add_right_comm b, Nat.add_right_comm a]
      exact h (j + 1) (succ_lt_succ hj)
    simp only [readLE, hhead, htail]

theorem readLE_lt (m : Memory) (a n : Nat) : readLE m a n < 256 ^ n := by
  induction n generalizing a with
  | zero => simp [readLE]
  | succ n ih =>
    have hbyte := (m a).toNat_lt
    have htail := ih (a + 1)
    rw [readLE, Nat.pow_succ]
    omega

theorem read32_congr (h : Set.EqOn m' m (Set.Ico a (a + 4))) : read32 m' a = read32 m a :=
  readLE_congr h

theorem read32_lt (m : Memory) (a : Nat) : read32 m a < 2 ^ 32 := readLE_lt m a 4

/-! ## Writing -/

theorem write8_self (m : Memory) (a v : Nat) : write8 m a v a = UInt8.ofNat v := by
  simp [write8]

theorem write8_of_ne (m : Memory) (h : x ≠ a) (v : Nat) : write8 m a v x = m x := by
  simp [write8, h]

theorem writeLE_outside (m : Memory) (h : x < a ∨ a + n ≤ x) (v : Nat) : writeLE m a v n x = m x := by
  induction n generalizing m a v with
  | zero => rfl
  | succ n ih =>
    rw [writeLE, ih _ (by omega), write8_of_ne m (by omega)]

theorem readLE_writeLE_self (m : Memory) (a : Nat) (h : v < 256 ^ n) : readLE (writeLE m a v n) a n = v := by
  induction n generalizing m a v with
  | zero =>
    rw [Nat.pow_zero] at h
    simp only [readLE]
    omega
  | succ n ih =>
    rw [Nat.pow_succ] at h
    have hlow : writeLE m a v (n + 1) a = UInt8.ofNat (v % 256) := by
      rw [writeLE, writeLE_outside _ (by omega), write8_self]
    have hhigh := ih (write8 m a (v % 256)) (a + 1) (v := v / 256) (by omega)
    rw [readLE, hlow, writeLE, hhigh, UInt8.toNat_ofNat']
    omega

theorem write32_outside (m : Memory) (h : x < a ∨ a + 4 ≤ x) (v : Nat) : write32 m a v x = m x :=
  writeLE_outside m h v

@[simp] theorem read32_write32_self (m : Memory) (a : Nat) (h : v < 2 ^ 32) : read32 (write32 m a v) a = v :=
  readLE_writeLE_self m a h

theorem read32_write32_of_disjoint (m : Memory) (h : b + 4 ≤ a ∨ a + 4 ≤ b) (v : Nat) :
    read32 (write32 m a v) b = read32 m b :=
  read32_congr fun x hx => write32_outside m (by have := hx.1; have := hx.2; omega) v

theorem read32_write8_of_disjoint (m : Memory) (h : b + 4 ≤ a ∨ a < b) (v : Nat) :
    read32 (write8 m a v) b = read32 m b :=
  read32_congr fun x hx => write8_of_ne m (by have := hx.1; have := hx.2; omega) v

/-! ## Copies -/

theorem copy_inside (m : Memory) (src : Memory) (b : Nat) (h : a ≤ x) (h' : x < a + n) :
    copy m a src b n x = src (b + (x - a)) := if_pos ⟨h, h'⟩

theorem copy_outside (m : Memory) (src : Memory) (b : Nat) (h : x < a ∨ a + n ≤ x) :
    copy m a src b n x = m x := if_neg (by omega)

theorem readLE_copy_inside (m : Memory) (src : Memory) (b : Nat) (h : a ≤ x) (h' : x + k ≤ a + n) :
    readLE (copy m a src b n) x k = readLE src (b + (x - a)) k := by
  induction k generalizing x with
  | zero => rfl
  | succ k ih =>
    have haddr : b + (x - a) + 1 = b + (x + 1 - a) := by omega
    rw [readLE, readLE, copy_inside m src b h (by omega), ih (by omega) (by omega), haddr]

theorem read32_copy_inside (m : Memory) (src : Memory) (b : Nat) (h : a ≤ x) (h' : x + 4 ≤ a + n) :
    read32 (copy m a src b n) x = read32 src (b + (x - a)) := readLE_copy_inside m src b h h'

theorem read32_copy_outside (m : Memory) (src : Memory) (b : Nat) (h : x + 4 ≤ a ∨ a + n ≤ x) :
    read32 (copy m a src b n) x = read32 m x :=
  read32_congr fun y hy => copy_outside m src b (by have := hy.1; have := hy.2; omega)

theorem writeLE_inside (m : Memory) (h : a ≤ x) (h' : x < a + n) (v : Nat) :
    writeLE m a v n x = UInt8.ofNat (v / 256 ^ (x - a) % 256) := by
  induction n generalizing m a v with
  | zero => omega
  | succ n ih =>
    rw [writeLE]
    by_cases hx : x = a
    · subst hx
      rw [writeLE_outside _ (by omega), write8_self]
      simp
    · have hpow : x - a = (x - (a + 1)) + 1 := by omega
      rw [ih _ (by omega) (by omega), hpow, Nat.pow_succ, Nat.mul_comm, Nat.div_div_eq_div_mul]

theorem writeLE_readLE (m : Memory) (a n : Nat) : writeLE m a (readLE m a n) n = m := by
  induction n generalizing a with
  | zero => rfl
  | succ n ih =>
    have hbyte := (m a).toNat_lt
    have hlow : readLE m a (n + 1) % 256 = (m a).toNat := by
      rw [readLE]
      omega
    have hhigh : readLE m a (n + 1) / 256 = readLE m (a + 1) n := by
      rw [readLE]
      omega
    have hsame : write8 m a (readLE m a (n + 1) % 256) = m := by
      funext x
      by_cases hx : x = a
      · rw [hx, write8_self, hlow, UInt8.ofNat_toNat]
      · exact write8_of_ne m hx _
    rw [writeLE, hsame, hhigh, ih]

theorem write32_read32 (m : Memory) (a : Nat) : write32 m a (read32 m a) = m := writeLE_readLE m a 4

theorem write32_write32 (m : Memory) (a v w : Nat) : write32 (write32 m a v) a w = write32 m a w := by
  funext x
  by_cases hx : a ≤ x ∧ x < a + 4
  · unfold write32
    rw [writeLE_inside _ hx.1 hx.2, writeLE_inside _ hx.1 hx.2]
  · rw [write32_outside _ (by omega), write32_outside _ (by omega), write32_outside _ (by omega)]

theorem copy_same {src : Memory} (h : ∀ x < n, src x = m (a + x)) : copy m a src 0 n = m := by
  funext x
  by_cases hx : a ≤ x ∧ x < a + n
  · rw [copy_inside m src 0 hx.1 hx.2, Nat.zero_add, h _ (by omega), Nat.add_sub_cancel' hx.1]
  · exact copy_outside m src 0 (by omega)

theorem copy_write32_copy (m b : Memory) (a : Nat) (h : k + 4 ≤ n) (v : Nat) :
    copy m a (write32 (copy b 0 m a n) k v) 0 n = write32 m (a + k) v := by
  funext x
  by_cases hx : a ≤ x ∧ x < a + n
  · rw [copy_inside m _ 0 hx.1 hx.2, Nat.zero_add]
    by_cases hw : k ≤ x - a ∧ x - a < k + 4
    · have hoff : x - (a + k) = x - a - k := by omega
      rw [write32, write32, writeLE_inside _ hw.1 hw.2, writeLE_inside m (by omega) (by omega), hoff]
    · rw [write32_outside _ (by omega), write32_outside m (by omega), copy_inside b m a (by omega) (by omega)]
      congr 1
      omega
  · rw [copy_outside m _ 0 (by omega), write32_outside m (by omega)]

theorem copy_copy_copy (m b src : Memory) (a : Nat) {l : Nat} (h : k + l ≤ n) :
    copy m a (copy (copy b 0 m a n) k src 0 l) 0 n = copy m (a + k) src 0 l := by
  funext x
  by_cases hx : a ≤ x ∧ x < a + n
  · rw [copy_inside m _ 0 hx.1 hx.2, Nat.zero_add]
    by_cases hw : k ≤ x - a ∧ x - a < k + l
    · have hoff : x - (a + k) = x - a - k := by omega
      rw [copy_inside _ src 0 hw.1 hw.2, copy_inside m src 0 (by omega) (by omega), hoff]
    · rw [copy_outside _ src 0 (by omega), copy_outside m src 0 (by omega), copy_inside b m a (by omega) (by omega)]
      congr 1
      omega
  · rw [copy_outside m _ 0 (by omega), copy_outside m src 0 (by omega)]

/-! ## Byte strings in memory -/

/-- The `n` bytes from `a` on. -/
def slice (m : Memory) (a : Nat) : Nat → List UInt8
  | 0 => []
  | n + 1 => m a :: slice m (a + 1) n

/-- The little-endian bytes of a word of `n` bytes. -/
def leBytes (v : Nat) : Nat → List UInt8
  | 0 => []
  | n + 1 => UInt8.ofNat (v % 256) :: leBytes (v / 256) n

/-- The memory holds the string at `a`. -/
def Holds (m : Memory) (a : Nat) (bytes : List UInt8) : Prop := slice m a bytes.length = bytes
  deriving Decidable

@[simp] theorem length_slice (m : Memory) (a n : Nat) : (slice m a n).length = n := by
  induction n generalizing a with
  | zero => rfl
  | succ n ih => simp [slice, ih]

theorem slice_congr (h : Set.EqOn m' m (Set.Ico a (a + n))) : slice m' a n = slice m a n := by
  induction n generalizing a with
  | zero => rfl
  | succ n ih =>
    have hhead : m' a = m a := h ⟨by omega, by omega⟩
    have htail := ih (a := a + 1) fun x hx => h ⟨by have := hx.1; omega, by have := hx.2; omega⟩
    rw [slice, slice, hhead, htail]

theorem slice_shift (h : ∀ j < n, m' (b + j) = m (a + j)) : slice m' b n = slice m a n := by
  induction n generalizing a b with
  | zero => rfl
  | succ n ih =>
    have hhead : m' b = m a := h 0 (succ_pos n)
    have htail := ih (a := a + 1) (b := b + 1) fun j hj => by
      rw [Nat.add_right_comm b, Nat.add_right_comm a]
      exact h (j + 1) (succ_lt_succ hj)
    rw [slice, slice, hhead, htail]

theorem slice_copy_inside (m : Memory) (src : Memory) (b : Nat) (h : a ≤ x) (h' : x + k ≤ a + n) :
    slice (copy m a src b n) x k = slice src (b + (x - a)) k := by
  induction k generalizing x with
  | zero => rfl
  | succ k ih =>
    have haddr : b + (x - a) + 1 = b + (x + 1 - a) := by omega
    rw [slice, slice, copy_inside m src b h (by omega), ih (by omega) (by omega), haddr]

@[simp] theorem length_leBytes (v n : Nat) : (leBytes v n).length = n := by
  induction n generalizing v with
  | zero => rfl
  | succ n ih => simp [leBytes, ih]

theorem slice_add (m : Memory) (a n k : Nat) : slice m a (n + k) = slice m a n ++ slice m (a + n) k := by
  induction n generalizing a with
  | zero => simp [slice]
  | succ n ih =>
    have haddr : a + 1 + n = a + (n + 1) := by omega
    rw [succ_add, slice, slice, ih, haddr, cons_append]

theorem holds_append {xs ys : List UInt8} :
    Holds m a (xs ++ ys) ↔ Holds m a xs ∧ Holds m (a + xs.length) ys := by
  unfold Holds
  rw [length_append, slice_add]
  constructor
  · intro h
    exact append_inj h (length_slice m a xs.length)
  · rintro ⟨hx, hy⟩
    rw [hx, hy]

theorem readLE_of_holds (h : Holds m a (leBytes v n)) (hv : v < 256 ^ n) :
    readLE m a n = v := by
  unfold Holds at h
  rw [length_leBytes] at h
  induction n generalizing a v with
  | zero => rw [Nat.pow_zero] at hv; simp only [readLE]; omega
  | succ n ih =>
    rw [Nat.pow_succ] at hv
    obtain ⟨hhead, htail⟩ := List.cons.inj h
    have hrest := ih htail (by omega)
    rw [readLE, hrest, hhead, UInt8.toNat_ofNat']
    omega

theorem holds_leBytes_readLE (m : Memory) (a n : Nat) : Holds m a (leBytes (readLE m a n) n) := by
  unfold Holds
  rw [length_leBytes]
  induction n generalizing a with
  | zero => rfl
  | succ n ih =>
    have hlt := UInt8.toNat_lt (m a)
    have hhead : UInt8.ofNat (readLE m a (n + 1) % 256) = m a := by
      rw [readLE, add_mul_mod_self_left, mod_eq_of_lt hlt, UInt8.ofNat_toNat]
    have hrest : readLE m a (n + 1) / 256 = readLE m (a + 1) n := by
      rw [readLE]
      omega
    rw [slice, leBytes, hhead, hrest, ← ih]

theorem read32_of_holds (h : Holds m a (leBytes v 4)) (hv : v < 2 ^ 32) : read32 m a = v :=
  readLE_of_holds h hv

theorem readLE_of_holds_flatMap {w : Nat} {es : List Nat} (h : Holds m a (es.flatMap fun e => leBytes e w))
    (hw : ∀ e ∈ es, e < 256 ^ w) {j : Nat} (hj : j < es.length) : readLE m (a + w * j) w = es[j] := by
  induction es generalizing a j with
  | nil => cases hj
  | cons e es ih =>
    rw [flatMap_cons, holds_append, length_leBytes] at h
    cases j with
    | zero => exact readLE_of_holds h.1 (hw e (.head _))
    | succ j =>
      have haddr : a + w * (j + 1) = a + w + w * j := by rw [mul_succ]; omega
      rw [haddr, getElem_cons_succ]
      exact ih h.2 (fun x hx => hw x (mem_cons_of_mem e hx)) (lt_of_succ_lt_succ hj)

theorem length_flatMap_leBytes (es : List Nat) (w : Nat) : (es.flatMap fun e => leBytes e w).length = w * es.length := by
  induction es with
  | nil => rfl
  | cons e es ih => rw [flatMap_cons, length_append, length_leBytes, ih, length_cons, mul_succ, Nat.add_comm]

def ofList (a : Nat) (bytes : List UInt8) : Memory := fun x => if a ≤ x then bytes.getD (x - a) 0 else 0

theorem holds_ofList (a : Nat) (bytes : List UInt8) : Holds (ofList a bytes) a bytes := by
  have hdrop : ∀ k, slice (ofList a bytes) (a + k) (bytes.drop k).length = bytes.drop k := by
    intro k
    induction hn : bytes.length - k generalizing k with
    | zero => rw [drop_eq_nil_of_le (by omega)]; rfl
    | succ n ih =>
      have hk : k < bytes.length := by omega
      have hhead : ofList a bytes (a + k) = bytes[k] := by simp [ofList, hk]
      have haddr : a + k + 1 = a + (k + 1) := by omega
      rw [drop_eq_getElem_cons hk, length_cons, slice, hhead, haddr, ih (k + 1) (by omega)]
  exact hdrop 0

theorem ofList_slice (m : Memory) (h : x < n) : ofList 0 (slice m a n) x = m (a + x) := by
  induction n generalizing a x with
  | zero => cases h
  | succ n ih =>
    cases x with
    | zero => rfl
    | succ x =>
      have hx := ih (a := a + 1) (lt_of_succ_lt_succ h)
      have haddr : a + 1 + x = a + (x + 1) := by omega
      rw [← haddr, ← hx]
      simp [ofList, slice]

/-! ## Arrays of words -/

/-- The `n` words from `base` on. -/
def words (m : Memory) (base : Nat) : Nat → List Nat
  | 0 => []
  | n + 1 => read32 m base :: words m (base + 4) n

theorem length_words (m : Memory) (base n : Nat) : (words m base n).length = n := by
  induction n generalizing base with
  | zero => rfl
  | succ n ih => simp [words, ih]

theorem words_congr {base : Nat} (h : Set.EqOn m' m (Set.Ico base (base + 4 * n))) :
    words m' base n = words m base n := by
  induction n generalizing base with
  | zero => rfl
  | succ n ih =>
    have hhead : read32 m' base = read32 m base := read32_congr fun x hx => h ⟨hx.1, by have := hx.2; omega⟩
    have htail : words m' (base + 4) n = words m (base + 4) n := ih fun x hx =>
      h ⟨by have := hx.1; omega, by have := hx.2; omega⟩
    rw [words, words, hhead, htail]

theorem words_append (m : Memory) (base a b : Nat) :
    words m base (a + b) = words m base a ++ words m (base + 4 * a) b := by
  induction a generalizing base with
  | zero => simp [words]
  | succ a ih =>
    have haddr : base + 4 + 4 * a = base + 4 * (a + 1) := by omega
    rw [succ_add, words, words, ih, haddr, cons_append]

theorem words_succ (m : Memory) (base n : Nat) : words m base (n + 1) = words m base n ++ [read32 m (base + 4 * n)] :=
  words_append m base n 1

theorem take_words (m : Memory) (base : Nat) {i : Nat} (h : i ≤ n) : (words m base n).take i = words m base i := by
  obtain ⟨k, rfl⟩ := Nat.exists_eq_add_of_le h
  rw [words_append, take_left' (length_words m base i)]

theorem getElem_words (m : Memory) (base : Nat) {i : Nat} (h : i < (words m base n).length) :
    (words m base n)[i] = read32 m (base + 4 * i) := by
  induction n generalizing i base with
  | zero => cases h
  | succ n ih =>
    cases i with
    | zero => rfl
    | succ i =>
      have haddr : base + 4 + 4 * i = base + 4 * (i + 1) := by omega
      rw [← haddr]
      exact ih (base + 4) (lt_of_succ_lt_succ h)

theorem mem_words_iff (m : Memory) (base n w : Nat) : w ∈ words m base n ↔ ∃ i < n, read32 m (base + 4 * i) = w := by
  constructor
  · intro hw
    obtain ⟨i, hi, rfl⟩ := mem_iff_getElem.1 hw
    exact ⟨i, by rwa [length_words] at hi, (getElem_words m base hi).symm⟩
  · rintro ⟨i, hi, rfl⟩
    have hlen : i < (words m base n).length := by rwa [length_words]
    rw [← getElem_words m base hlen]
    exact getElem_mem hlen

end Bytes
