import Mathlib.Algebra.Order.Group.Unbundled.Int
import Mathlib.Data.List.Basic
import SkyOS.Lib.Machine
import SkyOS.Lib.StepSystem

/-!
# The double-ended queue (`CommonLib/stl/deque.hpp`, `CommonLib/stl/darray.hpp`)

Two arrays that grow: what is pushed at the front is in one of them, backwards, what is pushed at the back in the
other. A pop at an end whose own array is empty moves a marker into the other array, `_rear_first` or `_front_last`,
and `size`, `empty`, `operator[]` and the pops at the other end do not look at the markers.

| here | there |
| --- | --- |
| `Darray.ref` | `darray::operator[]`, whose result is a reference: the place in the array |
| `_element` | `none` for an element that nothing has been assigned to since `new T[]` |
| `none` as a result | an access outside the array, an `int` that overflows, `assert(0)` |
-/

namespace Stl

open Machine List Option

/-! ## The code -/

structure Darray (T : Type) where
  _element : Int → Option T
  _capacity : Int
  _size : Int

namespace Darray

variable {T : Type}

/-- The constructor (`darray.hpp:22`). -/
def new (T : Type) (c : Int) : Darray T := ⟨fun _ => none, c, 0⟩

/-- `_grow` (:151). -/
def _grow (a : Darray T) (i : Int) : Option (Darray T) :=
  (int (a._capacity + i)).map fun _capacity =>
    { a with _element := fun j => if 0 ≤ j ∧ j < a._size then a._element j else none, _capacity }

/-- `operator[]` (:127). -/
def ref (a : Darray T) (i : Int) : Option (Int × Darray T) :=
  if i < 0 then some (0, a)
  else
    (if i ≥ a._capacity then a._grow i else some a).bind fun a =>
      let a := if i + 1 > a._size then { a with _size := i + 1 } else a
      if i < a._capacity then some (i, a) else none

/-- `a[i] = b`. -/
def store (a : Darray T) (i : Int) (b : T) : Option (Darray T) :=
  (a.ref i).map fun (i, a) => { a with _element := fun j => if j = i then some b else a._element j }

/-- The value of `a[i]`, and the array after it. -/
def load (a : Darray T) (i : Int) : Option (Option T × Darray T) :=
  (a.ref i).map fun (i, a) => (a._element i, a)

end Darray

structure Deque (T : Type) where
  _deque_front : Darray T
  _deque_rear : Darray T
  _front : Int
  _front_last : Int
  _rear : Int
  _rear_first : Int

namespace Deque

variable {T : Type}

/-- The constructor (`deque.hpp:4`). -/
def new (T : Type) (c : Int) : Deque T := ⟨.new T c, .new T c, 0, 0, 0, 0⟩

def onFront (d : Deque T) (r : Option (Option T × Darray T)) : Option (Option T × Deque T) :=
  r.map fun (x, a) => (x, { d with _deque_front := a })

def onRear (d : Deque T) (r : Option (Option T × Darray T)) : Option (Option T × Deque T) :=
  r.map fun (x, a) => (x, { d with _deque_rear := a })

/-- `operator[]` (:29). -/
def get (d : Deque T) (i : Int) : Option (Option T × Deque T) :=
  (if i < 0 then (d._deque_rear.ref 0).map fun (_, a) => { d with _deque_rear := a } else some d).bind fun d =>
    if i < d._front then d.onFront (d._deque_front.load (d._front - 1 - i))
    else if d._front = 0 then d.onRear (d._deque_rear.load i)
    else if i ≥ d._front then d.onRear (d._deque_rear.load (i - d._front))
    else d.onRear (d._deque_rear.load 0)

/-- `size` (:45). -/
def size (d : Deque T) : Option Int := int (d._front + d._rear)

/-- `empty` (:54). -/
def empty (d : Deque T) : Bool := d._front == 0 && d._rear == 0

/-- `push_front` (:63). -/
def push_front (d : Deque T) (b : T) : Option (Deque T) :=
  (int (d._front + 1)).bind fun _front =>
    (d._deque_front.store d._front b).map fun a => { d with _deque_front := a, _front }

/-- `push_back` (:73). -/
def push_back (d : Deque T) (b : T) : Option (Deque T) :=
  (int (d._rear + 1)).bind fun _rear =>
    (d._deque_rear.store d._rear b).map fun a => { d with _deque_rear := a, _rear }

/-- `front` (:82). -/
def front (d : Deque T) : Option (Option T × Deque T) :=
  if d.empty then none
  else if d._front ≠ 0 then d.onFront (d._deque_front.load (d._front - 1))
  else d.onRear (d._deque_rear.load d._rear_first)

/-- `back` (:95). -/
def back (d : Deque T) : Option (Option T × Deque T) :=
  if d.empty then none
  else if d._rear ≠ 0 then d.onRear (d._deque_rear.load (d._rear - 1))
  else d.onFront (d._deque_front.load d._front_last)

/-- `pop_front` (:108). -/
def pop_front (d : Deque T) : Option (Deque T) :=
  if d.empty then none
  else if d._front ≠ 0 then some { d with _front := d._front - 1 }
  else (int (d._rear_first + 1)).map fun _rear_first => { d with _rear_first }

/-- `pop_back` (:120). -/
def pop_back (d : Deque T) : Option (Deque T) :=
  if d.empty then none
  else if d._rear ≠ 0 then some { d with _rear := d._rear - 1 }
  else (int (d._front_last + 1)).map fun _front_last => { d with _front_last }

end Deque

/-! ## What it should be -/

inductive DequeCall (T : Type) where
  | push_front (b : T)
  | push_back (b : T)
  | pop_front
  | pop_back
deriving DecidableEq

namespace DequeCall

variable {T : Type}

def run (d : Deque T) : DequeCall T → Option (Deque T)
  | push_front b => d.push_front b
  | push_back b => d.push_back b
  | pop_front => d.pop_front
  | pop_back => d.pop_back

def apply (s : List T) : DequeCall T → List T
  | push_front b => b :: s
  | push_back b => s ++ [b]
  | pop_front => s.tail
  | pop_back => s.dropLast

def Legal (s : List T) : DequeCall T → Prop
  | push_front _ | push_back _ => True
  | pop_front | pop_back => s ≠ []

instance (s : List T) (c : DequeCall T) : Decidable (c.Legal s) :=
  match c with
  | push_front _ | push_back _ => .isTrue trivial
  | pop_front | pop_back => inferInstanceAs (Decidable (s ≠ []))

end DequeCall

structure Reports {T : Type} (d : Deque T) (s : List T) : Prop where
  size : d.size = some s.length
  empty : d.empty = s.isEmpty
  front : s ≠ [] → d.front = some (s.head?, d)
  back : s ≠ [] → d.back = some (s.getLast?, d)
  get : ∀ i : Nat, i < s.length → d.get i = some (s[i]?, d)

def dequeSystem (T : Type) : StepSystem (Deque T × List T) (DequeCall T) where
  init p := ∃ c, (1 ≤ c ∧ IsInt32 c) ∧ p = (.new T c, [])
  step p c := if c.Legal p.2 then (c.run p.1).map fun d => (d, c.apply p.2) else none

/-! ## What the arrays hold -/

variable {c : Int}

namespace Darray

variable {T : Type} {a : Darray T} {l : List T}

/-- The first elements are `l`. -/
structure Holds (a : Darray T) (l : List T) : Prop where
  capacity : 1 ≤ a._capacity ∧ IsInt32 a._capacity
  length_le : l.length ≤ a._size
  size_le : a._size ≤ a._capacity
  element : ∀ j : Nat, j < l.length → a._element j = l[j]?

/-- There is room for one more after `n`, or the capacity can be raised by `n`. -/
def Room (a : Darray T) (n : Int) : Prop := n < a._capacity ∨ IsInt32 (a._capacity + n)
  deriving Decidable

theorem holds_new (hc : 1 ≤ c ∧ IsInt32 c) : (new T c).Holds [] where
  capacity := hc
  length_le := le_refl _
  size_le := by change (0 : Int) ≤ c; omega
  element := fun _ hj => absurd hj (Nat.not_lt_zero _)

variable {i : Int}

theorem ref_of_lt (h0 : 0 ≤ i) (hlt : i < a._capacity) :
    a.ref i = some (i, { a with _size := max a._size (i + 1) }) := by
  unfold ref
  rw [if_neg (by omega), if_neg (by omega), bind_some]
  by_cases hsize : i + 1 > a._size
  · rw [if_pos hsize, if_pos hlt, max_eq_right (by omega)]
  · rw [if_neg hsize, if_pos hlt, max_eq_left (by omega)]

theorem ref_of_grow (h0 : 0 ≤ i) (hcapacity : 1 ≤ a._capacity) (hge : a._capacity ≤ i) {a' : Darray T}
    (hgrow : a._grow i = some a') : a.ref i = a'.ref i := by
  have hlt : i < a'._capacity := by
    obtain ⟨c, hc, rfl⟩ := map_eq_some_iff.1 hgrow
    obtain ⟨-, hc⟩ := ite_none_right_eq_some.1 hc
    have := Option.some.inj hc
    dsimp only
    omega
  unfold ref
  rw [if_neg (by omega), if_pos hge, hgrow, if_neg (by omega), if_neg (by omega)]

theorem store_of_lt (h0 : 0 ≤ i) (hlt : i < a._capacity) (b : T) :
    a.store i b = some { a with
      _element := fun j => if j = i then some b else a._element j
      _size := max a._size (i + 1) } := by
  rw [store, ref_of_lt h0 hlt, map_some]

namespace Holds

theorem load (h : a.Holds l) {i : Nat} (hi : i < l.length) : a.load i = some (l[i]?, a) := by
  have hsize := h.length_le
  have hcapacity := h.size_le
  unfold Darray.load
  rw [ref_of_lt (by omega) (by omega), map_some, max_eq_left (by omega)]
  dsimp only
  rw [h.element i hi]

theorem dropLast (h : a.Holds l) : a.Holds l.dropLast where
  capacity := h.capacity
  length_le := by
    have := h.length_le
    rw [length_dropLast]
    omega
  size_le := h.size_le
  element := fun j hj => by
    rw [length_dropLast] at hj
    rw [h.element j (by omega), List.getElem?_dropLast, if_pos hj]

theorem store_of_lt (h : a.Holds l) (b : T) (hlt : l.length < a._capacity) :
    ∃ a', a.store l.length b = some a' ∧ a'.Holds (l ++ [b]) := by
  have hsize := h.size_le
  refine ⟨_, Darray.store_of_lt (by omega) hlt b, h.capacity, ?_, ?_, fun j hj => ?_⟩
  · rw [length_append, length_singleton]
    dsimp only
    omega
  · dsimp only
    omega
  · rw [length_append, length_singleton] at hj
    dsimp only
    rcases Nat.lt_or_ge j l.length with hlt | hge
    · rw [if_neg (by omega), h.element j hlt, List.getElem?_append_left hlt]
    · obtain rfl : j = l.length := by omega
      rw [if_pos rfl, List.getElem?_concat_length]

theorem _grow (h : a.Holds l) (h0 : 0 ≤ i) (hint : IsInt32 (a._capacity + i)) :
    ∃ a', a._grow i = some a' ∧ a'.Holds l ∧ a'._capacity = a._capacity + i := by
  have hcapacity := h.capacity.1
  have hlength := h.length_le
  have hsize := h.size_le
  have hgrow := congrArg (Option.map fun c => ({ a with
    _element := fun j => if 0 ≤ j ∧ j < a._size then a._element j else none
    _capacity := c } : Darray T)) (int_of_isInt32 hint)
  refine ⟨_, hgrow, ⟨⟨?_, hint⟩, hlength, ?_, fun j hj => ?_⟩, rfl⟩
  · dsimp only
    omega
  · dsimp only
    omega
  · dsimp only
    rw [if_pos (by omega), h.element j hj]

theorem store (h : a.Holds l) (b : T) (hroom : a.Room l.length) :
    ∃ a', a.store l.length b = some a' ∧ a'.Holds (l ++ [b]) := by
  rcases lt_or_ge (l.length : Int) a._capacity with hlt | hge
  · exact h.store_of_lt b hlt
  · obtain ⟨a', hgrow, h', hcapacity⟩ := h._grow (Int.natCast_nonneg _) (hroom.resolve_left (by omega))
    have hpos := h.capacity.1
    rw [Darray.store, ref_of_grow (Int.natCast_nonneg _) hpos hge hgrow]
    exact h'.store_of_lt b (by omega)

theorem store_eq_none (_ : a.Holds l) (b : T) (hroom : ¬ a.Room l.length) : a.store l.length b = none := by
  rw [Room, not_or] at hroom
  unfold Darray.store ref Darray._grow int
  rw [if_neg (by omega), if_pos (by omega), if_neg hroom.2]
  rfl

end Holds

end Darray

/-! ## What the queue holds -/

namespace Deque

variable {T : Type} {d : Deque T} {F R : List T}

def mirror (d : Deque T) : Deque T :=
  ⟨d._deque_rear, d._deque_front, d._rear, d._rear_first, d._front, d._front_last⟩

theorem push_back_eq (d : Deque T) (b : T) : d.push_back b = (d.mirror.push_front b).map mirror := by
  rw [push_back, push_front, Option.map_bind]
  congr 1
  funext n
  rw [Function.comp_apply, Option.map_map]
  rfl

theorem empty_mirror (d : Deque T) : d.mirror.empty = d.empty := Bool.and_comm _ _

theorem pop_back_eq (d : Deque T) : d.pop_back = d.mirror.pop_front.map mirror := by
  unfold pop_back pop_front
  rw [d.empty_mirror]
  cases d.empty with
  | true => rfl
  | false =>
    rw [if_neg Bool.false_ne_true, if_neg Bool.false_ne_true, apply_ite (Option.map mirror), Option.map_map]
    rfl

theorem back_eq (d : Deque T) : d.back = d.mirror.front.map fun (x, d) => (x, d.mirror) := by
  unfold back front
  rw [d.empty_mirror]
  cases d.empty with
  | true => rfl
  | false =>
    rw [if_neg Bool.false_ne_true, if_neg Bool.false_ne_true, apply_ite (Option.map _), onFront, onRear, onFront,
      onRear, Option.map_map, Option.map_map]
    rfl

variable {b : T} {d' : Deque T}

theorem push_front_mirror (hpush : d.push_back b = some d') :
    d.mirror.push_front b = some d'.mirror := by
  rw [push_back_eq] at hpush
  obtain ⟨d'', hfront, rfl⟩ := map_eq_some_iff.1 hpush
  exact hfront

theorem pop_front_mirror (hpop : d.pop_back = some d') : d.mirror.pop_front = some d'.mirror := by
  rw [pop_back_eq] at hpop
  obtain ⟨d'', hfront, rfl⟩ := map_eq_some_iff.1 hpop
  exact hfront

/-- The first array holds `F`, the second `R`, and no element has been popped out of the other end's array. -/
structure Lists (d : Deque T) (F R : List T) : Prop where
  front : d._deque_front.Holds F
  rear : d._deque_rear.Holds R
  _front : d._front = F.length
  _rear : d._rear = R.length
  _front_last : d._front_last = 0
  _rear_first : d._rear_first = 0

namespace Lists

theorem new (hc : 1 ≤ c ∧ IsInt32 c) : (Deque.new T c).Lists [] [] :=
  ⟨Darray.holds_new hc, Darray.holds_new hc, rfl, rfl, rfl, rfl⟩

section

variable (h : d.Lists F R)
include h

theorem mirror : d.mirror.Lists R F :=
  ⟨h.rear, h.front, h._rear, h._front, h._rear_first, h._front_last⟩

theorem empty : d.empty = (F.reverse ++ R).isEmpty := by
  unfold Deque.empty
  rw [h._front, h._rear, Bool.eq_iff_iff, Bool.and_eq_true, beq_iff_eq, beq_iff_eq, List.isEmpty_iff,
    append_eq_nil_iff, reverse_eq_nil_iff, ← length_eq_zero_iff, ← length_eq_zero_iff]
  omega

theorem empty_eq_false (hne : F.reverse ++ R ≠ []) : d.empty = false := by
  rw [h.empty, isEmpty_eq_false_iff]
  exact hne

theorem load_front {i : Nat} (hi : i < F.length) :
    d.onFront (d._deque_front.load i) = some (F[i]?, d) := by
  rw [h.front.load hi]
  rfl

theorem load_rear {i : Nat} (hi : i < R.length) :
    d.onRear (d._deque_rear.load i) = some (R[i]?, d) := by
  rw [h.rear.load hi]
  rfl

theorem get (i : Nat) (hi : i < (F.reverse ++ R).length) :
    d.get i = some ((F.reverse ++ R)[i]?, d) := by
  rw [length_append, length_reverse] at hi
  unfold Deque.get
  rw [if_neg (by omega), bind_some, h._front]
  rcases Nat.lt_or_ge i F.length with hlt | hge
  · have hindex : (F.length : Int) - 1 - i = (F.length - 1 - i : Nat) := by omega
    rw [if_pos (by omega), hindex, h.load_front (by omega),
      List.getElem?_append_left (by rw [length_reverse]; exact hlt), List.getElem?_reverse hlt]
  · have hindex : (i : Int) - F.length = (i - F.length : Nat) := by omega
    have hload := @load_rear _ _ _ _ h (i - F.length) (by omega)
    rw [if_neg (by omega), List.getElem?_append_right (by rw [length_reverse]; exact hge), length_reverse]
    split
    next hzero =>
      have hnil : F.length = 0 := by omega
      rw [hnil, Nat.sub_zero] at hload ⊢
      exact hload
    next =>
      rw [if_pos (by omega), hindex]
      exact hload

theorem front_eq (hne : F.reverse ++ R ≠ []) : d.front = some ((F.reverse ++ R).head?, d) := by
  unfold Deque.front
  rw [h.empty_eq_false hne, if_neg Bool.false_ne_true, h._front, h._rear_first]
  rcases F.eq_nil_or_concat' with rfl | ⟨F, b, rfl⟩
  · rw [reverse_nil, nil_append] at hne ⊢
    rw [if_neg (by simp), List.head?_eq_getElem?]
    exact h.load_rear (length_pos_iff.2 hne)
  · have hindex : (((F ++ [b]).length : Nat) : Int) - 1 = F.length := by simp
    rw [if_pos (by simp; omega), hindex, h.load_front (by simp), List.getElem?_concat_length, reverse_append]
    rfl

theorem back_eq (hne : F.reverse ++ R ≠ []) : d.back = some ((F.reverse ++ R).getLast?, d) := by
  have hreverse : (F.reverse ++ R).reverse = R.reverse ++ F := by rw [reverse_append, reverse_reverse]
  have hfront := h.mirror.front_eq (by rw [← hreverse, ne_eq, reverse_eq_nil_iff]; exact hne)
  rw [d.back_eq, hfront, ← hreverse, List.head?_reverse]
  rfl

theorem reports (hsize : IsInt32 (F.length + R.length)) : Reports d (F.reverse ++ R) where
  size := by
    unfold Deque.size
    rw [h._front, h._rear, int_of_isInt32 hsize, length_append, length_reverse]
    rfl
  empty := h.empty
  front := h.front_eq
  back := h.back_eq
  get := h.get

theorem reports_iff : Reports d (F.reverse ++ R) ↔ IsInt32 (d._front + d._rear) := by
  constructor
  · exact fun hreports => (ite_none_right_eq_some.1 hreports.size).1
  · rw [h._front, h._rear]
    exact h.reports

end

/-! ### The calls -/

section

variable (h : d.Lists F R)
include h

theorem push_front (b : T) (hint : IsInt32 (d._front + 1)) (hroom : d._deque_front.Room d._front) :
    ∃ d', d.push_front b = some d' ∧ d'.Lists (F ++ [b]) R := by
  rw [h._front] at hint hroom
  obtain ⟨a, ha, hholds⟩ := h.front.store b hroom
  refine ⟨{ d with _deque_front := a, _front := F.length + 1 }, ?_,
    ⟨hholds, h.rear, by simp, h._rear, h._front_last, h._rear_first⟩⟩
  unfold Deque.push_front
  rw [h._front, int_of_isInt32 hint, bind_some, ha, map_some]

theorem push_back (b : T) (hint : IsInt32 (d._rear + 1)) (hroom : d._deque_rear.Room d._rear) :
    ∃ d', d.push_back b = some d' ∧ d'.Lists F (R ++ [b]) := by
  obtain ⟨d', hpush, hlists⟩ := h.mirror.push_front b hint hroom
  exact ⟨d'.mirror, by rw [push_back_eq, hpush, map_some], hlists.mirror⟩

theorem of_push_front (hpush : d.push_front b = some d') :
    d._deque_front.Room d._front ∧ d'.Lists (F ++ [b]) R := by
  obtain ⟨n, hn, hstored⟩ := bind_eq_some_iff.1 hpush
  obtain ⟨a, ha, -⟩ := map_eq_some_iff.1 hstored
  have hroom : d._deque_front.Room d._front := by
    by_contra hroom
    rw [h._front] at ha hroom
    rw [h.front.store_eq_none b hroom] at ha
    cases ha
  obtain ⟨d'', hpush', hlists⟩ := h.push_front b (ite_none_right_eq_some.1 hn).1 hroom
  cases hpush.symm.trans hpush'
  exact ⟨hroom, hlists⟩

theorem of_push_back (hpush : d.push_back b = some d') :
    d._deque_rear.Room d._rear ∧ d'.Lists F (R ++ [b]) := by
  obtain ⟨hroom, hlists⟩ := h.mirror.of_push_front (push_front_mirror hpush)
  exact ⟨hroom, hlists.mirror⟩

theorem pop_front (hpos : 0 < d._front) :
    ∃ d', d.pop_front = some d' ∧ d'.Lists F.dropLast R := by
  have hlength := h._front
  have hempty : d.empty = false := h.empty_eq_false fun hnil => by
    have := congrArg List.length hnil
    rw [length_append, length_reverse, length_nil] at this
    omega
  refine ⟨{ d with _front := d._front - 1 }, ?_, ⟨h.front.dropLast, h.rear, ?_, h._rear, h._front_last, h._rear_first⟩⟩
  · unfold Deque.pop_front
    rw [hempty, if_neg Bool.false_ne_true, if_pos (by omega)]
  · rw [length_dropLast]
    dsimp only
    omega

theorem pop_back (hpos : 0 < d._rear) : ∃ d', d.pop_back = some d' ∧ d'.Lists F R.dropLast := by
  obtain ⟨d', hpop, hlists⟩ := h.mirror.pop_front hpos
  exact ⟨d'.mirror, by rw [pop_back_eq, hpop, map_some], hlists.mirror⟩

end

end Lists

/-! ## Which calls are right -/

/-- What the call is right for: the pop has an element in the array of its own end, what is pushed can be counted and
stored. -/
def Suits (d : Deque T) : DequeCall T → Prop
  | .push_front _ => IsInt32 (d._front + d._rear + 1) ∧ d._deque_front.Room d._front
  | .push_back _ => IsInt32 (d._front + d._rear + 1) ∧ d._deque_rear.Room d._rear
  | .pop_front => 0 < d._front
  | .pop_back => 0 < d._rear

instance (d : Deque T) (c : DequeCall T) : Decidable (d.Suits c) :=
  match c with
  | .push_front _ | .push_back _ => inferInstanceAs (Decidable (_ ∧ _))
  | .pop_front | .pop_back => inferInstanceAs (Decidable (_ < _))

theorem size_of_pop_front_across (hfront : d._front = 0) (hpop : d.pop_front = some d') :
    d'.size = d.size := by
  unfold pop_front at hpop
  split at hpop
  next => cases hpop
  next =>
    rw [if_neg (not_not.2 hfront)] at hpop
    obtain ⟨n, -, rfl⟩ := map_eq_some_iff.1 hpop
    rfl

theorem size_mirror (d : Deque T) : d.mirror.size = d.size := congrArg int (Int.add_comm _ _)

theorem size_of_pop_back_across (hrear : d._rear = 0) (hpop : d.pop_back = some d') :
    d'.size = d.size := by
  rw [← d.size_mirror, ← d'.size_mirror]
  exact size_of_pop_front_across hrear (pop_front_mirror hpop)

theorem not_reports_of_size {s t : List T} (hreports : Reports d s) (hlength : t.length + 1 = s.length)
    (hsize : d'.size = d.size) : ¬ Reports d' t := by
  intro hreports'
  have := hreports.size.symm.trans (hsize.symm.trans hreports'.size)
  have := Option.some.inj this
  omega

namespace Lists

section

variable (h : d.Lists F R)
include h

theorem push_front_right_iff (b : T) :
    (∃ d', d.push_front b = some d' ∧ Reports d' (b :: (F.reverse ++ R))) ↔ d.Suits (.push_front b) := by
  have hF := h._front
  have hR := h._rear
  have happly : b :: (F.reverse ++ R) = (F ++ [b]).reverse ++ R := by rw [reverse_concat, cons_append]
  have hlength : ((F ++ [b]).length : Int) = F.length + 1 := by simp
  constructor
  · rintro ⟨d', hpush, hreports'⟩
    obtain ⟨hroom, hlists⟩ := h.of_push_front hpush
    rw [happly, hlists.reports_iff, hlists._front, hlists._rear, hlength] at hreports'
    refine ⟨?_, hroom⟩
    rwa [hF, hR, Int.add_right_comm]
  · rintro ⟨hsize, hroom⟩
    unfold IsInt32 at hsize
    obtain ⟨d', hpush, hlists⟩ := h.push_front b (by unfold IsInt32; omega) hroom
    refine ⟨d', hpush, ?_⟩
    rw [happly, hlists.reports_iff, hlists._front, hlists._rear, hlength]
    unfold IsInt32
    omega

theorem push_back_right_iff (b : T) :
    (∃ d', d.push_back b = some d' ∧ Reports d' (F.reverse ++ R ++ [b])) ↔ d.Suits (.push_back b) := by
  have hF := h._front
  have hR := h._rear
  have hlength : ((R ++ [b]).length : Int) = R.length + 1 := by simp
  constructor
  · rintro ⟨d', hpush, hreports'⟩
    obtain ⟨hroom, hlists⟩ := h.of_push_back hpush
    rw [append_assoc, hlists.reports_iff, hlists._front, hlists._rear, hlength] at hreports'
    refine ⟨?_, hroom⟩
    rwa [hF, hR, Int.add_assoc]
  · rintro ⟨hsize, hroom⟩
    unfold IsInt32 at hsize
    obtain ⟨d', hpush, hlists⟩ := h.push_back b (by unfold IsInt32; omega) hroom
    refine ⟨d', hpush, ?_⟩
    rw [append_assoc, hlists.reports_iff, hlists._front, hlists._rear, hlength]
    unfold IsInt32
    omega

theorem pop_front_right_iff (hreports : Reports d (F.reverse ++ R)) (hne : F.reverse ++ R ≠ []) :
    (∃ d', d.pop_front = some d' ∧ Reports d' (F.reverse ++ R).tail) ↔ d.Suits .pop_front := by
  have hF := h._front
  have hR := h._rear
  constructor
  · rintro ⟨d', hpop, hreports'⟩
    have hpos := length_pos_iff.2 hne
    by_contra hacross
    refine not_reports_of_size hreports ?_ (size_of_pop_front_across ?_ hpop) hreports'
    · rw [length_tail]
      omega
    · unfold Suits at hacross
      omega
  · intro hfront
    obtain ⟨d', hpop, hlists⟩ := h.pop_front hfront
    refine ⟨d', hpop, ?_⟩
    have hint := h.reports_iff.1 hreports
    have hne : F.reverse ≠ [] := by
      unfold Suits at hfront
      rw [ne_eq, reverse_eq_nil_iff, ← length_eq_zero_iff]
      omega
    rw [tail_append_of_ne_nil hne, tail_reverse, hlists.reports_iff, hlists._front, hlists._rear,
      length_dropLast]
    unfold IsInt32 at *
    omega

theorem pop_back_right_iff (hreports : Reports d (F.reverse ++ R)) (hne : F.reverse ++ R ≠ []) :
    (∃ d', d.pop_back = some d' ∧ Reports d' (F.reverse ++ R).dropLast) ↔ d.Suits .pop_back := by
  have hF := h._front
  have hR := h._rear
  constructor
  · rintro ⟨d', hpop, hreports'⟩
    have hpos := length_pos_iff.2 hne
    by_contra hacross
    refine not_reports_of_size hreports ?_ (size_of_pop_back_across ?_ hpop) hreports'
    · rw [length_dropLast]
      omega
    · unfold Suits at hacross
      omega
  · intro hrear
    obtain ⟨d', hpop, hlists⟩ := h.pop_back hrear
    refine ⟨d', hpop, ?_⟩
    have hint := h.reports_iff.1 hreports
    have hne : R ≠ [] := by
      unfold Suits at hrear
      rw [ne_eq, ← length_eq_zero_iff]
      omega
    rw [dropLast_append_of_ne_nil hne, hlists.reports_iff, hlists._front, hlists._rear, length_dropLast]
    unfold IsInt32 at *
    omega

theorem right_iff (hreports : Reports d (F.reverse ++ R)) {c : DequeCall T}
    (hlegal : c.Legal (F.reverse ++ R)) :
    (∃ d', c.run d = some d' ∧ Reports d' (c.apply (F.reverse ++ R))) ↔ d.Suits c := by
  cases c with
  | push_front b => exact h.push_front_right_iff b
  | push_back b => exact h.push_back_right_iff b
  | pop_front => exact h.pop_front_right_iff hreports hlegal
  | pop_back => exact h.pop_back_right_iff hreports hlegal

theorem next {c : DequeCall T} (hsuits : d.Suits c) {d' : Deque T} (hrun : c.run d = some d') :
    ∃ F' R', d'.Lists F' R' ∧ c.apply (F.reverse ++ R) = F'.reverse ++ R' := by
  have hF := h._front
  have hR := h._rear
  cases c with
  | push_front b =>
    refine ⟨_, _, (h.of_push_front hrun).2, ?_⟩
    rw [reverse_concat, cons_append]
    rfl
  | push_back b => exact ⟨_, _, (h.of_push_back hrun).2, append_assoc _ _ _⟩
  | pop_front =>
    obtain ⟨d'', hpop, hlists⟩ := h.pop_front hsuits
    cases hrun.symm.trans hpop
    refine ⟨_, _, hlists, ?_⟩
    have hne : F.reverse ≠ [] := by
      unfold Suits at hsuits
      rw [ne_eq, reverse_eq_nil_iff, ← length_eq_zero_iff]
      omega
    rw [DequeCall.apply, tail_append_of_ne_nil hne, tail_reverse]
  | pop_back =>
    obtain ⟨d'', hpop, hlists⟩ := h.pop_back hsuits
    cases hrun.symm.trans hpop
    refine ⟨_, _, hlists, ?_⟩
    have hne : R ≠ [] := by
      unfold Suits at hsuits
      rw [ne_eq, ← length_eq_zero_iff]
      omega
    exact dropLast_append_of_ne_nil hne

end

end Lists

/-! ## Over runs -/

def Split (p : Deque T × List T) : Prop := ∃ F R, p.1.Lists F R ∧ p.2 = F.reverse ++ R

def Returns (p : Deque T × List T) (c : DequeCall T) : Prop := c.Legal p.2 → (c.run p.1).isSome

def SuitsLegal (p : Deque T × List T) (c : DequeCall T) : Prop := c.Legal p.2 → p.1.Suits c
  deriving Decidable

theorem right_step_iff {p : Deque T × List T} {c : DequeCall T} (h : Split p) (hreports : Reports p.1 p.2) :
    (Returns p c ∧ ∀ p', (dequeSystem T).step p c = some p' → Reports p'.1 p'.2) ↔ SuitsLegal p c := by
  by_cases hlegal : c.Legal p.2
  · obtain ⟨F, R, hlists, hs⟩ := h
    have hright : (∃ d', c.run p.1 = some d' ∧ Reports d' (c.apply p.2)) ↔ p.1.Suits c := by
      rw [hs] at hlegal hreports ⊢
      exact hlists.right_iff hreports hlegal
    have hstep : (dequeSystem T).step p c = (c.run p.1).map fun d => (d, c.apply p.2) := if_pos hlegal
    rw [hstep, SuitsLegal, Returns, ← hright]
    constructor
    · rintro ⟨hreturns, hreports'⟩ -
      obtain ⟨d', hrun⟩ := isSome_iff_exists.1 (hreturns hlegal)
      exact ⟨d', hrun, hreports' _ (by rw [hrun, map_some])⟩
    · intro hsuits
      obtain ⟨d', hrun, hreports'⟩ := hsuits hlegal
      refine ⟨fun _ => by rw [hrun]; rfl, fun p' hp' => ?_⟩
      rw [hrun, map_some] at hp'
      cases hp'
      exact hreports'
  · refine iff_of_true ⟨fun hl => absurd hl hlegal, fun p' hp' => ?_⟩ fun hl => absurd hl hlegal
    exact absurd (ite_none_right_eq_some.1 hp').1 hlegal

theorem split_step {p p' : Deque T × List T} {c : DequeCall T} (h : Split p) (hsuits : SuitsLegal p c)
    (hstep : (dequeSystem T).step p c = some p') : Split p' := by
  obtain ⟨hlegal, hstep⟩ := ite_none_right_eq_some.1 hstep
  obtain ⟨d', hrun, rfl⟩ := map_eq_some_iff.1 hstep
  obtain ⟨F, R, hlists, hs⟩ := h
  obtain ⟨F', R', hlists', happly⟩ := hlists.next (hsuits hlegal) hrun
  refine ⟨F', R', hlists', ?_⟩
  rw [hs]
  exact happly

theorem reports_new (hc : 1 ≤ c ∧ IsInt32 c) : Reports (new T c) [] :=
  (Lists.new hc).reports_iff.2 (by decide : IsInt32 (0 + 0))

/-- The queue reports the sequence after every call of a run, and every call returns, exactly if no element is popped
out of the other end's array and no count and no capacity leaves the range of an `int`. -/
theorem reports_throughout_iff {c : Int} (hc : 1 ≤ c ∧ IsInt32 c) (calls : List (DequeCall T)) :
    ((∀ before, before <+: calls → ∀ p, (dequeSystem T).exec (new T c, []) before = some p → Reports p.1 p.2) ∧
        (dequeSystem T).Meets Returns (new T c, []) calls) ↔
      (dequeSystem T).Meets SuitsLegal (new T c, []) calls :=
  StepSystem.states_and_calls_iff_meets_while Split (fun _ _ _ h hsuits _ hstep => split_step h hsuits hstep)
    (fun _ _ h hreports => right_step_iff h hreports) ⟨[], [], .new hc, rfl⟩ (reports_new hc)

/-- A run in which both arrays are used and one of them grows. -/
theorem reports_throughout_iff_run :
    (∀ before, before <+: [.push_front 1, .push_back 2, .push_front 3, .pop_back, .pop_front] →
        ∀ p, (dequeSystem Nat).exec (new Nat 1, []) before = some p → Reports p.1 p.2) ∧
      (dequeSystem Nat).Meets Returns (new Nat 1, [])
        [.push_front 1, .push_back 2, .push_front 3, .pop_back, .pop_front] :=
  (reports_throughout_iff ⟨by decide, by decide⟩ [.push_front 1, .push_back 2, .push_front 3, .pop_back, .pop_front]).2
    (by decide)

/-- The element pushed at the back and popped at the front is still counted. -/
theorem pop_across_keeps_size :
    ((dequeSystem Nat).exec (new Nat 4, []) [.push_back 7, .pop_front]).map (fun p => (p.1.size, p.1.empty, p.2)) =
        some (some 1, false, []) ∧
      ¬ ∀ p, (dequeSystem Nat).exec (new Nat 4, []) [.push_back 7, .pop_front] = some p → Reports p.1 p.2 := by
  have hrun : ((dequeSystem Nat).exec (new Nat 4, []) [.push_back 7, .pop_front]).map
      (fun p => (p.1.size, p.1.empty, p.2)) = some (some 1, false, []) := by decide
  refine ⟨hrun, fun hreports => ?_⟩
  obtain ⟨p, hp, hobserved⟩ := Option.map_eq_some_iff.1 hrun
  obtain ⟨hsize, hlist⟩ : p.1.size = some 1 ∧ p.2 = [] :=
    ⟨congrArg Prod.fst hobserved, congrArg (fun o => o.2.2) hobserved⟩
  have := (hreports p hp).size
  rw [hsize, hlist] at this
  cases this

end Deque

end Stl
