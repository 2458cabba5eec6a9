import Mathlib.Algebra.Group.Nat.Defs
import SkyOS.Lib.Bytes
import SkyOS.Lib.Machine
import SkyOS.Lib.Ring

/-!
# The input queue (`SkyQueue.cpp`)

A ring of `iMaxDataCount` items of `iDataSize` bytes. Where the two indices coincide, the last operation says whether
the queue is full or empty.

| here | there |
| --- | --- |
| `m_pvQueueArray` | the bytes from `m_pvQueueArray` on |
| a `Memory` argument | the bytes from `pvData` on |
| `Fifo` | what the queue is for: a list of at most so many items |
-/

namespace Gui

open Machine Bytes List

/-! ## The source -/

structure SkyQueue where
  m_iDataSize : Int
  m_iMaxDataCount : Int
  m_pvQueueArray : Memory
  m_iPutIndex : Int
  m_iGetIndex : Int
  m_bLastOperationPut : Bool

namespace SkyQueue

/-- `Initialize` (:13). -/
def Initialize (pvQueueBuffer : Memory) (iMaxDataCount iDataSize : Int) : SkyQueue where
  m_iDataSize := iDataSize
  m_iMaxDataCount := iMaxDataCount
  m_pvQueueArray := pvQueueBuffer
  m_iPutIndex := 0
  m_iGetIndex := 0
  m_bLastOperationPut := false

/-- `IsQueueFull` (:24). -/
def IsQueueFull (q : SkyQueue) : Bool := q.m_iGetIndex == q.m_iPutIndex && q.m_bLastOperationPut

/-- `IsQueueEmpty` (:34). -/
def IsQueueEmpty (q : SkyQueue) : Bool := q.m_iGetIndex == q.m_iPutIndex && !q.m_bLastOperationPut

/-- `m_iDataSize * index`, added to a pointer. -/
def offset (q : SkyQueue) (index : Int) : Nat := dword (toInt32 (q.m_iDataSize * index))

/-- `( index + 1 ) % m_iMaxDataCount`. -/
def next (q : SkyQueue) (index : Int) : Int := (toInt32 (index + 1)).tmod q.m_iMaxDataCount

/-- `PutQueue` (:44). -/
def PutQueue (q : SkyQueue) (pvData : Memory) : Bool × SkyQueue :=
  if q.IsQueueFull then (false, q)
  else (true, { q with
    m_pvQueueArray := copy q.m_pvQueueArray (q.offset q.m_iPutIndex) pvData 0 (dword q.m_iDataSize)
    m_iPutIndex := q.next q.m_iPutIndex
    m_bLastOperationPut := true })

/-- `GetQueue` (:59): the result, the caller's data and the queue. -/
def GetQueue (q : SkyQueue) (pvData : Memory) : Bool × Memory × SkyQueue :=
  if q.IsQueueEmpty then (false, pvData, q)
  else (true, copy pvData 0 q.m_pvQueueArray (q.offset q.m_iGetIndex) (dword q.m_iDataSize), { q with
    m_iGetIndex := q.next q.m_iGetIndex
    m_bLastOperationPut := false })

end SkyQueue

/-- A call, with what lies at `pvData`. -/
inductive QueueCall where
  | put (pvData : Memory)
  | get (pvData : Memory)

/-- What the caller sees: the result, and what lies at `pvData` then. -/
abbrev QueueOut := Bool × Memory

def SkyQueue.call (q : SkyQueue) : QueueCall → QueueOut × SkyQueue
  | .put pvData => (((q.PutQueue pvData).1, pvData), (q.PutQueue pvData).2)
  | .get pvData => (((q.GetQueue pvData).1, (q.GetQueue pvData).2.1), (q.GetQueue pvData).2.2)

def SkyQueue.run (q : SkyQueue) : List QueueCall → List QueueOut × SkyQueue
  | [] => ([], q)
  | c :: calls => ((q.call c).1 :: ((q.call c).2.run calls).1, ((q.call c).2.run calls).2)

/-! ## What it is for -/

def place (m : Memory) (bytes : List UInt8) : Memory := fun a => bytes.getD a (m a)

/-- A first-in first-out queue of at most `n` items of `size` bytes. -/
def Fifo.call (n size : Nat) (items : List (List UInt8)) : QueueCall → QueueOut × List (List UInt8)
  | .put pvData => if items.length < n then ((true, pvData), items ++ [slice pvData 0 size]) else ((false, pvData), items)
  | .get pvData =>
    match items with
    | [] => ((false, pvData), [])
    | x :: rest => ((true, place pvData x), rest)

def Fifo.run (n size : Nat) (items : List (List UInt8)) : List QueueCall → List QueueOut × List (List UInt8)
  | [] => ([], items)
  | c :: calls =>
    ((Fifo.call n size items c).1 :: (Fifo.run n size (Fifo.call n size items c).2 calls).1,
      (Fifo.run n size (Fifo.call n size items c).2 calls).2)

/-! ## Slots -/

/-- What lies in slot `i`. -/
def slot (array : Memory) (size i : Nat) : List UInt8 := slice array (size * i) size

/-- The queue holds the items: they are what lies in the slots from the get index on, the put index follows the last
of them, and with none or `n` of them the last operation says which. -/
structure Represents (q : SkyQueue) (n size : Nat) (items : List (List UInt8)) : Prop where
  size_eq : q.m_iDataSize = size
  count_eq : q.m_iMaxDataCount = n
  get_lt : q.m_iGetIndex.toNat < n
  get_nonneg : 0 ≤ q.m_iGetIndex
  put_eq : q.m_iPutIndex = ((q.m_iGetIndex.toNat + items.length) % n : Nat)
  length_le : items.length ≤ n
  last_put : items.length = n → q.m_bLastOperationPut = true
  last_get : items = [] → q.m_bLastOperationPut = false
  holds : Ring.contents (slot q.m_pvQueueArray size) n q.m_iGetIndex.toNat items.length = items

theorem getD_slice (m m' : Memory) (b n a : Nat) : (slice m b n).getD a (m' a) = if a < n then m (b + a) else m' a := by
  induction n generalizing b a m' with
  | zero => simp [slice]
  | succ n ih =>
    cases a with
    | zero => simp [slice]
    | succ a =>
      have haddr : b + 1 + a = b + (a + 1) := by omega
      have htail := ih (fun x => m' (x + 1)) (b + 1) a
      simpa [slice, haddr, Nat.add_lt_add_iff_right] using htail

theorem copy_eq_place (m src : Memory) (b n : Nat) : copy m 0 src b n = place m (slice src b n) := by
  funext a
  rw [place, getD_slice]
  simp [copy]

section

variable {q : SkyQueue} {n size : Nat} {items : List (List UInt8)}

variable {i : Nat}

section

variable (hsize : q.m_iDataSize = size) (hfits : n * size ≤ 2 ^ 32)
include hsize hfits

theorem offset_eq (hsize0 : 0 < size) (hi : i < n) :
    q.offset i = size * i := by
  have hlt : size * i < 2 ^ 32 := by
    calc size * i < size * n := Nat.mul_lt_mul_of_pos_left hi hsize0
      _ = n * size := Nat.mul_comm _ _
      _ ≤ 2 ^ 32 := hfits
  unfold SkyQueue.offset dword toInt32
  rw [hsize, ← Int.natCast_mul]
  omega

theorem slice_offset (hi : i < n) :
    slice q.m_pvQueueArray (q.offset i) size = slot q.m_pvQueueArray size i := by
  rcases Nat.eq_zero_or_pos size with rfl | hpos
  · rfl
  · rw [slot, offset_eq hsize hfits hpos hi]

theorem slot_copy (pvData : Memory) {p : Nat} (hp : p < n) :
    ∀ i < n, slot (copy q.m_pvQueueArray (q.offset p) pvData 0 size) size i =
      Function.update (slot q.m_pvQueueArray size) p (slice pvData 0 size) i := by
  intro i hi
  rcases Nat.eq_zero_or_pos size with rfl | hpos
  · by_cases h : i = p
    · rw [h, Function.update_self]
      rfl
    · rw [Function.update_of_ne h]
      rfl
  · rw [offset_eq hsize hfits hpos hp, slot]
    rcases Nat.lt_trichotomy i p with hlt | rfl | hgt
    · rw [Function.update_of_ne (by omega)]
      have hbefore : size * i + size ≤ size * p := by
        rw [← Nat.mul_succ]
        exact Nat.mul_le_mul_left size hlt
      exact slice_congr fun x hx => copy_outside _ _ _ (by have := hx.2; omega)
    · rw [Function.update_self, slice_copy_inside _ _ _ le_rfl le_rfl, Nat.sub_self]
    · rw [Function.update_of_ne (by omega)]
      have hbehind : size * p + size ≤ size * i := by
        rw [← Nat.mul_succ]
        exact Nat.mul_le_mul_left size hgt
      exact slice_congr fun x hx => copy_outside _ _ _ (by have := hx.1; omega)

end

theorem next_eq (hcount : q.m_iMaxDataCount = n) (hn : n < 2 ^ 31) (hi : i < n) :
    q.next i = ((i + 1) % n : Nat) := by
  have hint : toInt32 ((i : Int) + 1) = ((i + 1 : Nat) : Int) := by
    rw [toInt32_of_isInt32 ⟨by omega, by omega⟩]
    rfl
  unfold SkyQueue.next
  rw [hint, hcount, ← Int.ofNat_tmod]

/-! ## Full and empty -/

theorem Represents.indices_eq_iff (h : Represents q n size items) :
    q.m_iGetIndex = q.m_iPutIndex ↔ items.length = 0 ∨ items.length = n := by
  have hget := h.get_lt
  have hnonneg := h.get_nonneg
  have hle := h.length_le
  have hput := h.put_eq
  rcases Nat.lt_or_ge (q.m_iGetIndex.toNat + items.length) n with hlt | hge
  · rw [Nat.mod_eq_of_lt hlt] at hput
    omega
  · rw [Nat.mod_eq_sub_mod hge, Nat.mod_eq_of_lt (by omega)] at hput
    omega

theorem Represents.isQueueFull_iff (h : Represents q n size items) : q.IsQueueFull = true ↔ items.length = n := by
  have hindices := h.indices_eq_iff
  simp only [SkyQueue.IsQueueFull, Bool.and_eq_true, beq_iff_eq, hindices]
  constructor
  · rintro ⟨hzero | hfull, hlast⟩
    · rw [h.last_get (length_eq_zero_iff.1 hzero)] at hlast
      cases hlast
    · exact hfull
  · intro hfull
    exact ⟨.inr hfull, h.last_put hfull⟩

theorem Represents.isQueueEmpty_iff (h : Represents q n size items) : q.IsQueueEmpty = true ↔ items = [] := by
  have hindices := h.indices_eq_iff
  simp only [SkyQueue.IsQueueEmpty, Bool.and_eq_true, beq_iff_eq, hindices, Bool.not_eq_true']
  constructor
  · rintro ⟨hzero | hfull, hlast⟩
    · exact length_eq_zero_iff.1 hzero
    · rw [h.last_put hfull] at hlast
      cases hlast
  · intro hempty
    exact ⟨.inl (length_eq_zero_iff.2 hempty), h.last_get hempty⟩

/-! ## One call -/

theorem Represents.putQueue (h : Represents q n size items) (hn : n < 2 ^ 31) (hsize : size < 2 ^ 31)
    (hfits : n * size ≤ 2 ^ 32) (hroom : items.length < n) (pvData : Memory) :
    (q.PutQueue pvData).1 = true ∧ Represents (q.PutQueue pvData).2 n size (items ++ [slice pvData 0 size]) := by
  have hfull : q.IsQueueFull = false := by
    rw [Bool.eq_false_iff]
    intro hfull
    have := h.isQueueFull_iff.1 hfull
    omega
  have hpos : 0 < n := by omega
  have hput : (q.m_iGetIndex.toNat + items.length) % n < n := Nat.mod_lt _ hpos
  have hbytes : dword q.m_iDataSize = size := by
    rw [h.size_eq, dword_natCast (by omega)]
  simp only [SkyQueue.PutQueue, hfull, Bool.false_eq_true, if_false]
  refine ⟨trivial, h.size_eq, h.count_eq, h.get_lt, h.get_nonneg, ?_, ?_, fun _ => rfl, fun hnil => ?_, ?_⟩
  · dsimp only
    rw [h.put_eq, next_eq h.count_eq hn hput, length_append, length_singleton, Nat.mod_add_mod, Nat.add_assoc]
  · rw [length_append, length_singleton]
    exact hroom
  · simp at hnil
  · dsimp only
    rw [h.put_eq, hbytes, length_append, length_singleton,
      Ring.contents_congr (slot_copy h.size_eq hfits pvData hput) hpos, Ring.contents_put hroom, h.holds]

theorem Represents.getQueue {x : List UInt8} {rest : List (List UInt8)} (h : Represents q n size (x :: rest))
    (hn : n < 2 ^ 31) (hsize : size < 2 ^ 31) (hfits : n * size ≤ 2 ^ 32) (pvData : Memory) :
    (q.GetQueue pvData).1 = true ∧ (q.GetQueue pvData).2.1 = place pvData x ∧
      Represents (q.GetQueue pvData).2.2 n size rest := by
  have hempty : q.IsQueueEmpty = false := by
    rw [Bool.eq_false_iff]
    intro hempty
    cases h.isQueueEmpty_iff.1 hempty
  have hget := h.get_lt
  have hnat : q.m_iGetIndex = (q.m_iGetIndex.toNat : Int) := (Int.toNat_of_nonneg h.get_nonneg).symm
  have hbytes : dword q.m_iDataSize = size := by
    rw [h.size_eq, dword_natCast (by omega)]
  have hle := h.length_le
  have hput := h.put_eq
  rw [length_cons] at hle hput
  -- the first slot holds the first item, and the others the rest
  have hholds := h.holds
  rw [length_cons, Ring.contents_get hget] at hholds
  obtain ⟨hfirst, hrest⟩ := List.cons.inj hholds
  have hnext : q.next q.m_iGetIndex = ((q.m_iGetIndex.toNat + 1) % n : Nat) := by
    rw [hnat, next_eq h.count_eq hn hget]
    rfl
  simp only [SkyQueue.GetQueue, hempty, Bool.false_eq_true, if_false]
  refine ⟨trivial, ?_, h.size_eq, h.count_eq, ?_, ?_, ?_, by omega, fun hfull => ?_, fun _ => rfl, ?_⟩
  · rw [hbytes, copy_eq_place, ← hfirst, hnat, slice_offset h.size_eq hfits hget]
    rfl
  · dsimp only
    rw [hnext]
    exact Nat.mod_lt _ (by omega)
  · dsimp only
    rw [hnext]
    exact Int.natCast_nonneg _
  · dsimp only
    rw [hput, hnext, Int.toNat_natCast, Nat.mod_add_mod, Nat.add_assoc, Nat.add_comm 1]
  · omega
  · dsimp only
    rw [hnext, Int.toNat_natCast]
    exact hrest

theorem Represents.call (h : Represents q n size items) (hn : n < 2 ^ 31) (hsize : size < 2 ^ 31)
    (hfits : n * size ≤ 2 ^ 32) (c : QueueCall) :
    (q.call c).1 = (Fifo.call n size items c).1 ∧ Represents (q.call c).2 n size (Fifo.call n size items c).2 := by
  cases c with
  | put pvData =>
    by_cases hroom : items.length < n
    · obtain ⟨hresult, hrep⟩ := h.putQueue hn hsize hfits hroom pvData
      simp only [SkyQueue.call, Fifo.call, if_pos hroom, hresult]
      exact ⟨trivial, hrep⟩
    · have hfull : q.IsQueueFull = true := h.isQueueFull_iff.2 (Nat.le_antisymm h.length_le (Nat.not_lt.1 hroom))
      simp only [SkyQueue.call, SkyQueue.PutQueue, Fifo.call, if_neg hroom, hfull, if_true]
      exact ⟨trivial, h⟩
  | get pvData =>
    cases items with
    | nil =>
      have hempty : q.IsQueueEmpty = true := h.isQueueEmpty_iff.2 rfl
      simp only [SkyQueue.call, SkyQueue.GetQueue, Fifo.call, hempty, if_true]
      exact ⟨trivial, h⟩
    | cons x rest =>
      obtain ⟨hresult, hdata, hrep⟩ := h.getQueue hn hsize hfits pvData
      simp only [SkyQueue.call, Fifo.call, hresult, hdata]
      exact ⟨trivial, hrep⟩

/-! ## Runs -/

theorem Represents.run (h : Represents q n size items) (hn : n < 2 ^ 31) (hsize : size < 2 ^ 31)
    (hfits : n * size ≤ 2 ^ 32) (calls : List QueueCall) :
    (q.run calls).1 = (Fifo.run n size items calls).1 ∧
      Represents (q.run calls).2 n size (Fifo.run n size items calls).2 := by
  induction calls generalizing q items with
  | nil => exact ⟨rfl, h⟩
  | cons c calls ih =>
    obtain ⟨hout, hnext⟩ := h.call hn hsize hfits c
    obtain ⟨houts, hrest⟩ := ih hnext
    simp only [SkyQueue.run, Fifo.run, hout, houts]
    exact ⟨trivial, hrest⟩

theorem represents_initialize (pvQueueBuffer : Memory) (hn : 1 ≤ n) :
    Represents (SkyQueue.Initialize pvQueueBuffer n size) n size [] where
  size_eq := rfl
  count_eq := rfl
  get_lt := hn
  get_nonneg := Int.le_refl 0
  put_eq := by simp [SkyQueue.Initialize]
  length_le := Nat.zero_le n
  last_put hfull := by
    rw [length_nil] at hfull
    omega
  last_get _ := rfl
  holds := rfl

theorem Represents.indices (h : Represents q n size items) :
    (0 ≤ q.m_iGetIndex ∧ q.m_iGetIndex < n) ∧ (0 ≤ q.m_iPutIndex ∧ q.m_iPutIndex < n) := by
  have hget := h.get_lt
  have hnonneg := h.get_nonneg
  have hlt : (q.m_iGetIndex.toNat + items.length) % n < n := Nat.mod_lt _ (by omega)
  rw [h.put_eq]
  omega

theorem Represents.refused (h : Represents q n size items) :
    (∀ pvData, (q.PutQueue pvData).1 = false ↔ items.length = n) ∧
    (∀ pvData, (q.PutQueue pvData).1 = false → (q.PutQueue pvData).2 = q) ∧
    (∀ pvData, (q.GetQueue pvData).1 = false ↔ items = []) ∧
    (∀ pvData, (q.GetQueue pvData).1 = false → (q.GetQueue pvData).2 = (pvData, q)) := by
  have hfull : ∀ pvData, (q.PutQueue pvData).1 = false ↔ q.IsQueueFull = true := fun pvData => by
    unfold SkyQueue.PutQueue
    split <;> simp_all
  have hempty : ∀ pvData, (q.GetQueue pvData).1 = false ↔ q.IsQueueEmpty = true := fun pvData => by
    unfold SkyQueue.GetQueue
    split <;> simp_all
  refine ⟨fun pvData => (hfull pvData).trans h.isQueueFull_iff, fun pvData hfalse => ?_,
    fun pvData => (hempty pvData).trans h.isQueueEmpty_iff, fun pvData hfalse => ?_⟩
  · rw [SkyQueue.PutQueue, if_pos ((hfull pvData).1 hfalse)]
  · rw [SkyQueue.GetQueue, if_pos ((hempty pvData).1 hfalse)]

end

/-- **The input queue is a bounded first-in first-out queue**: for every capacity, every item size and every sequence
of calls, on a buffer of `n * size` bytes, it answers as the abstract queue does, its indices stay among the slots, and
a call is refused, changing nothing, exactly when the queue is full or empty. -/
theorem skyQueue_refines (pvQueueBuffer : Memory) (n size : Nat) (hn1 : 1 ≤ n) (hn : n < 2 ^ 31) (hsize : size < 2 ^ 31)
    (hfits : n * size ≤ 2 ^ 32) (calls : List QueueCall) :
    let concrete := (SkyQueue.Initialize pvQueueBuffer n size).run calls
    let abstract := Fifo.run n size [] calls
    concrete.1 = abstract.1 ∧
    ((0 ≤ concrete.2.m_iGetIndex ∧ concrete.2.m_iGetIndex < n) ∧
      (0 ≤ concrete.2.m_iPutIndex ∧ concrete.2.m_iPutIndex < n)) ∧
    (∀ pvData, (concrete.2.PutQueue pvData).1 = false ↔ abstract.2.length = n) ∧
    (∀ pvData, (concrete.2.PutQueue pvData).1 = false → (concrete.2.PutQueue pvData).2 = concrete.2) ∧
    (∀ pvData, (concrete.2.GetQueue pvData).1 = false ↔ abstract.2 = []) ∧
    (∀ pvData, (concrete.2.GetQueue pvData).1 = false → (concrete.2.GetQueue pvData).2 = (pvData, concrete.2)) := by
  have hinit : Represents (SkyQueue.Initialize pvQueueBuffer n size) n size [] := represents_initialize pvQueueBuffer hn1
  obtain ⟨houts, hrep⟩ := hinit.run hn hsize hfits calls
  exact ⟨houts, hrep.indices, hrep.refused⟩

/-- A queue of two bytes refuses the third. -/
theorem skyQueue_refines_two :
    ((SkyQueue.Initialize (fun _ => 0) (2 : Nat) (1 : Nat)).run
      [.put fun _ => 7, .put fun _ => 8, .put fun _ => 9]).1 =
      [(true, fun _ => 7), (true, fun _ => 8), (false, fun _ => 9)] :=
  (skyQueue_refines (fun _ => 0) 2 1 (by decide) (by decide) (by decide) (by decide)
    [.put fun _ => 7, .put fun _ => 8, .put fun _ => 9]).1

end Gui
