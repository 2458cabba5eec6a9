import Mathlib.Algebra.GroupWithZero.Nat
import Mathlib.Data.List.GetD
import Mathlib.Data.List.TakeDrop
import Mathlib.Logic.Function.Basic
import Mathlib.Tactic.Common
import SkyOS.Lib.Chain
import SkyOS.Lib.StepSystem

/-!
# The keyed collection (`FileSystem/Collect.h`)

A singly linked list of nodes, each with a value and a key of at most 14 characters. `Add` walks with two cursors, the
second of which stays on the last node; `Remove` walks with pointers to the pointers.

| here | there |
| --- | --- |
| an address, 0 | a `CollectionData*`, `NULL` |
| `heap` | the nodes that are allocated |
| `none` as a result | a node that is not allocated is used, or a loop does not end |
| `news` | how many nodes have been allocated: no walk that ends is longer |
| `new` in a call | the address that `new` yields, if there is memory |
| a key | a C string as its characters |

No element is ever removed right: when `Remove` has linked the node's place to the next one, `*ptrCur` is that one.
-/

namespace Collect

open LinkChain List Option Nat
open Function (update update_of_ne update_self)

variable {α : Type}

/-! ## The source -/

/-- What fits into `char Key[15]`. -/
abbrev StoredKey := { key : List UInt8 // key.length ≤ 14 }

structure CollectionData (α : Type) where
  ptr : α
  Key : StoredKey
  Next : Nat

structure Collection (α : Type) where
  _Item : Nat
  ItemCount : UInt16
  heap : Nat → Option (CollectionData α)
  news : Nat

def Initialize : Collection α := ⟨0, 0, fun _ => none, 0⟩

def Collection.rounds (s : Collection α) : Nat := s.news + 2

def Count (s : Collection α) : UInt16 := s.ItemCount

/-- The first 14 characters (:60). -/
def copyKey (PKey : List UInt8) : StoredKey := ⟨PKey.take 14, by simp⟩

/-- The loop of `Add` (:70): the node after which the new one comes. -/
def position (heap : Nat → Option (CollectionData α)) (Index : Int) : Nat → Nat → Nat → UInt16 → Option Nat
  | 0, _, _, _ => none
  | rounds + 1, ptrTemp, ptrPrev, Pos =>
    if (Pos.toNat : Int) < Index ∧ ptrTemp ≠ 0 then do
      let temp ← heap ptrTemp
      if temp.Next ≠ 0 then
        let prev ← heap ptrPrev
        position heap Index rounds temp.Next prev.Next (Pos + 1)
      else position heap Index rounds temp.Next ptrPrev (Pos + 1)
    else some ptrPrev

inductive Place where
  | item
  | next (a : Nat)

def Collection.load (s : Collection α) : Place → Option Nat
  | .item => some s._Item
  | .next a => (s.heap a).map CollectionData.Next

def Collection.store (s : Collection α) : Place → Nat → Option (Collection α)
  | .item, p => some { s with _Item := p }
  | .next a, p => (s.heap a).map fun d => { s with heap := Function.update s.heap a (some { d with Next := p }) }

/-- `Add(ptr, Index, PKey)` (:55). -/
def Add (s : Collection α) (ptr : α) (Index : Int) (PKey : List UInt8) (new : Option Nat) :
    Option (Bool × Collection α) := do
  let ptrPrev ← position s.heap Index s.rounds s._Item s._Item 0
  let ptrNext ← if ptrPrev ≠ 0 then s.load (.next ptrPrev) else some 0
  match new with
  | none => some (false, s)
  | some ptrNew =>
    let s' := { s with
      heap := Function.update s.heap ptrNew (some ⟨ptr, copyKey PKey, ptrNext⟩)
      news := s.news + 1
      ItemCount := s.ItemCount + 1 }
    let s'' ← s'.store (if ptrPrev ≠ 0 then .next ptrPrev else .item) ptrNew
    some (true, s'')

/-- `Add(ptr)` (:93), without a key. -/
def AddPtr (s : Collection α) (ptr : α) (new : Option Nat) : Option (Bool × Collection α) :=
  Add s ptr s.ItemCount.toNat [] new

/-- The loop of `IsKeyAlreadyExist` (:97) and of `Add(ptr, Key)`. -/
def existsFrom (heap : Nat → Option (CollectionData α)) (Key : List UInt8) : Nat → Nat → Option Bool
  | 0, _ => none
  | rounds + 1, ptrCur =>
    if ptrCur = 0 then some false
    else do
      let cur ← heap ptrCur
      if Key = cur.Key.1 then some true else existsFrom heap Key rounds cur.Next

def IsKeyAlreadyExist (s : Collection α) (Key : List UInt8) : Option Bool := existsFrom s.heap Key s.rounds s._Item

/-- `Add(ptr, Key)` (:108). -/
def AddKey (s : Collection α) (ptr : α) (Key : List UInt8) (new : Option Nat) : Option (Bool × Collection α) := do
  if ← existsFrom s.heap Key s.rounds s._Item then some (false, s) else Add s ptr s.ItemCount.toNat Key new

/-- `delete`, of a node or of `NULL`. -/
def Collection.delete (s : Collection α) (p : Nat) : Option (Collection α) :=
  if p = 0 then some s else (s.heap p).map fun _ => { s with heap := Function.update s.heap p none }

/-- The pointer before the node to be removed is set (:132). -/
def Collection.linkPast (s : Collection α) (next : Nat) : Option Place → Option (Collection α)
  | none => s.store .item next
  | some ptrPrev => (s.load ptrPrev).bind fun prev => s.store (.next prev) next

/-- The loop of `Remove` (:125), with pointers to pointers. -/
def removeFrom (s : Collection α) (Index : Int) : Nat → Place → Option Place → UInt16 → Option (Bool × Collection α)
  | 0, _, _, _ => none
  | rounds + 1, ptrCur, ptrPrev, i => do
    let cur ← s.load ptrCur
    if cur ≠ 0 ∧ (i.toNat : Int) ≤ Index then
      if (i.toNat : Int) = Index then
        let next ← s.load (.next cur)
        let s' ← s.linkPast next ptrPrev
        -- what `*ptrCur` is by now
        let s'' ← (s'.load ptrCur).bind s'.delete
        some (true, { s'' with ItemCount := s''.ItemCount - 1 })
      else removeFrom s Index rounds (.next cur) (some ptrCur) (i + 1)
    else some (false, s)

/-- `Remove(Index)` (:121). -/
def Remove (s : Collection α) (Index : Int) : Option (Bool × Collection α) :=
  removeFrom s Index s.rounds .item none 0

/-- The loop of `Item(Index)` (:161). -/
def itemFrom [Zero α] (heap : Nat → Option (CollectionData α)) (Index : Int) : Nat → Nat → UInt16 → Option α
  | 0, _, _ => none
  | rounds + 1, ptrCur, i =>
    if ptrCur = 0 then some 0
    else do
      let cur ← heap ptrCur
      if (i.toNat : Int) = Index then some cur.ptr else itemFrom heap Index rounds cur.Next (i + 1)

def ItemAt [Zero α] (s : Collection α) (Index : Int) : Option α := itemFrom s.heap Index s.rounds s._Item 0

/-- The loop of `Item(Key)` (:174). -/
def itemUnderFrom [Zero α] (heap : Nat → Option (CollectionData α)) (Key : List UInt8) : Nat → Nat → Option α
  | 0, _ => none
  | rounds + 1, ptrCur =>
    if ptrCur = 0 then some 0
    else do
      let cur ← heap ptrCur
      if Key = cur.Key.1 then some cur.ptr else itemUnderFrom heap Key rounds cur.Next

def ItemUnder [Zero α] (s : Collection α) (Key : List UInt8) : Option α := itemUnderFrom s.heap Key s.rounds s._Item

inductive CollectionCall (α : Type) where
  | add (ptr : α) (new : Option Nat)
  | addAt (ptr : α) (Index : Int) (Key : List UInt8) (new : Option Nat)
  | addKey (ptr : α) (Key : List UInt8) (new : Option Nat)
  | remove (Index : Int)

def Collection.call (s : Collection α) : CollectionCall α → Option (Bool × Collection α)
  | .add ptr new => AddPtr s ptr new
  | .addAt ptr Index Key new => Add s ptr Index Key new
  | .addKey ptr Key new => AddKey s ptr Key new
  | .remove Index => Remove s Index

/-- `new` yields a node that is not in use. -/
def Collection.Yields (s : Collection α) (new : Option Nat) : Prop := ∀ a, new = some a → a ≠ 0 ∧ s.heap a = none

def Collection.Possible (s : Collection α) : CollectionCall α → Prop
  | .add _ new => s.Yields new
  | .addAt _ _ _ new => s.Yields new
  | .addKey _ _ new => s.Yields new
  | .remove _ => True

/-! ## The list of pairs -/

abbrev Pairs (α : Type) := List (List UInt8 × α)

def Pairs.add (L : Pairs α) (ptr : α) (Index : Int) (Key : List UInt8) (room : Bool) : Bool × Pairs α :=
  if room then (true, L.take Index.toNat ++ (Key, ptr) :: L.drop Index.toNat) else (false, L)

def Pairs.call (L : Pairs α) : CollectionCall α → Bool × Pairs α
  | .add ptr new => Pairs.add L ptr L.length [] new.isSome
  | .addAt ptr Index Key new => Pairs.add L ptr Index Key new.isSome
  | .addKey ptr Key new => if Key ∈ L.map Prod.fst then (false, L) else Pairs.add L ptr L.length Key new.isSome
  | .remove Index => if 0 ≤ Index ∧ Index < L.length then (true, L.eraseIdx Index.toNat) else (false, L)

def Pairs.itemAt [Zero α] (L : Pairs α) (Index : Int) : α :=
  if 0 ≤ Index then (L[Index.toNat]?.map Prod.snd).getD 0 else 0

def Pairs.itemUnder [Zero α] (L : Pairs α) (Key : List UInt8) : α := (L.lookup Key).getD 0

/-! ## What is to hold -/

def nextOf (heap : Nat → Option (CollectionData α)) (a : Nat) : Nat := (heap a).elim 0 CollectionData.Next

def pairOf (heap : Nat → Option (CollectionData α)) (a : Nat) : Option (List UInt8 × α) :=
  (heap a).map fun d => (d.Key.1, d.ptr)

/-- The links from `p` go through the nodes, which carry the list. -/
structure Carries (heap : Nat → Option (CollectionData α)) (p : Nat) (nodes : List Nat) (L : Pairs α) : Prop where
  chain : Chain (nextOf heap) 0 p nodes
  pairs : nodes.map (pairOf heap) = L.map some

/-- Those from `_Item` do, and no other node is allocated. -/
structure Holds (s : Collection α) (nodes : List Nat) (L : Pairs α) : Prop extends
    Carries s.heap s._Item nodes L where
  only : ∀ a, (s.heap a).isSome → a ∈ nodes

structure Right [Zero α] (s : Collection α) (L : Pairs α) : Prop where
  count : (Count s).toNat = L.length
  itemAt : ∀ Index, ItemAt s Index = some (Pairs.itemAt L Index)
  itemUnder : ∀ Key, ItemUnder s Key = some (Pairs.itemUnder L Key)
  exist : ∀ Key, IsKeyAlreadyExist s Key = some (decide (Key ∈ L.map Prod.fst))
  holds : ∃ nodes, Holds s nodes L

/-- A call answers as the list does, and the collection is the list again. -/
def CallRight [Zero α] (s : Collection α) (L : Pairs α) (c : CollectionCall α) : Prop :=
  ∃ s', s.call c = some ((Pairs.call L c).1, s') ∧ Right s' (Pairs.call L c).2

/-- A pair can be added at an index: the count does not wrap, the key fits, and the index is behind all the others, or
what is there is the same pair. -/
def Fits (L : Pairs α) (ptr : α) (Index : Int) (Key : List UInt8) : Prop :=
  L.length < 65535 ∧ Key.length ≤ 14 ∧ (L = [] ∨ L.length ≤ Index ∨ L[Index.toNat]? = some (Key, ptr))

def Good (L : Pairs α) : CollectionCall α → Prop
  | .add ptr new => new.isSome → Fits L ptr L.length []
  | .addAt ptr Index Key new => new.isSome → Fits L ptr Index Key
  | .addKey ptr Key new => Key ∉ L.map Prod.fst → new.isSome → Fits L ptr L.length Key
  | .remove Index => ¬(0 ≤ Index ∧ Index < L.length)

/-! ## The walks -/

section

variable {heap : Nat → Option (CollectionData α)} {p rounds : Nat} {nodes : List Nat} {L : Pairs α}

theorem Carries.length_eq (h : Carries heap p nodes L) : nodes.length = L.length := by
  simpa using congrArg List.length h.pairs

theorem Carries.nil (h : Carries heap p nodes []) : nodes = [] ∧ p = 0 := by
  have hnil : nodes = [] := eq_nil_of_length_eq_zero h.length_eq
  subst hnil
  exact ⟨rfl, h.chain⟩

theorem Carries.cons {x : List UInt8 × α} (h : Carries heap p nodes (x :: L)) :
    ∃ d rest, nodes = p :: rest ∧ p ≠ 0 ∧ heap p = some d ∧ (d.Key.1, d.ptr) = x ∧ Carries heap d.Next rest L := by
  obtain ⟨hchain, hpairs⟩ := h
  cases nodes with
  | nil => simp at hpairs
  | cons a rest =>
    obtain ⟨rfl, hne, hrest⟩ := hchain
    simp only [map_cons, List.cons.injEq] at hpairs
    obtain ⟨d, hd, hpair⟩ := map_eq_some_iff.1 hpairs.1
    refine ⟨d, rest, rfl, hne, hd, hpair, ?_, hpairs.2⟩
    rwa [nextOf, hd] at hrest

theorem existsFrom_eq (h : Carries heap p nodes L) (Key : List UInt8) (hrounds : L.length < rounds) :
    existsFrom heap Key rounds p = some (decide (Key ∈ L.map Prod.fst)) := by
  induction L generalizing p nodes rounds with
  | nil =>
    obtain ⟨rounds, rfl⟩ := exists_eq_add_one.2 (zero_lt_of_lt hrounds)
    rw [existsFrom, if_pos h.nil.2]
    simp
  | cons x L ih =>
    obtain ⟨rounds, rfl⟩ := exists_eq_add_one.2 (zero_lt_of_lt hrounds)
    obtain ⟨d, rest, -, hne, hd, rfl, hrest⟩ := h.cons
    rw [existsFrom, if_neg hne, hd]
    simp only [bind_eq_bind, bind_some, map_cons, mem_cons]
    by_cases hkey : Key = d.Key.1
    · rw [if_pos hkey]
      simp [hkey]
    · rw [if_neg hkey, ih hrest (lt_of_succ_lt_succ hrounds)]
      simp [hkey]

theorem itemUnderFrom_eq [Zero α] (h : Carries heap p nodes L) (Key : List UInt8) (hrounds : L.length < rounds) :
    itemUnderFrom heap Key rounds p = some (Pairs.itemUnder L Key) := by
  induction L generalizing p nodes rounds with
  | nil =>
    obtain ⟨rounds, rfl⟩ := exists_eq_add_one.2 (zero_lt_of_lt hrounds)
    rw [itemUnderFrom, if_pos h.nil.2]
    rfl
  | cons x L ih =>
    obtain ⟨rounds, rfl⟩ := exists_eq_add_one.2 (zero_lt_of_lt hrounds)
    obtain ⟨d, rest, -, hne, hd, rfl, hrest⟩ := h.cons
    rw [itemUnderFrom, if_neg hne, hd]
    simp only [bind_eq_bind, bind_some, Pairs.itemUnder, lookup_cons]
    by_cases hkey : Key = d.Key.1
    · simp [hkey]
    · rw [if_neg hkey, ih hrest (lt_of_succ_lt_succ hrounds), Pairs.itemUnder, beq_false_of_ne hkey]

variable {i : UInt16}

theorem toNat_succ (h : i.toNat < 65535) : (i + 1).toNat = i.toNat + 1 := by
  rw [UInt16.toNat_add]
  exact mod_eq_of_lt (succ_lt_succ h)

theorem itemFrom_eq [Zero α] (h : Carries heap p nodes L) (Index : Int) (hi : i.toNat + L.length ≤ 65535)
    (hrounds : L.length < rounds) : itemFrom heap Index rounds p i = some (Pairs.itemAt L (Index - i.toNat)) := by
  induction L generalizing p nodes rounds i with
  | nil =>
    obtain ⟨rounds, rfl⟩ := exists_eq_add_one.2 (zero_lt_of_lt hrounds)
    rw [itemFrom, if_pos h.nil.2]
    simp [Pairs.itemAt]
  | cons x L ih =>
    obtain ⟨rounds, rfl⟩ := exists_eq_add_one.2 (zero_lt_of_lt hrounds)
    obtain ⟨d, rest, -, hne, hd, rfl, hrest⟩ := h.cons
    rw [length_cons] at hi
    rw [itemFrom, if_neg hne, hd]
    simp only [bind_eq_bind, bind_some]
    by_cases hindex : (i.toNat : Int) = Index
    · simp [Pairs.itemAt, hindex]
    · have hsucc := toNat_succ (i := i) (by omega)
      rw [if_neg hindex, ih hrest (by omega) (lt_of_succ_lt_succ hrounds), hsucc]
      unfold Pairs.itemAt
      by_cases hpos : 0 ≤ Index - (i.toNat : Int)
      · have hnat : (Index - (i.toNat : Int)).toNat = (Index - ((i.toNat + 1 : Nat) : Int)).toNat + 1 := by omega
        rw [if_pos hpos, if_pos (by omega), hnat, List.getElem?_cons_succ]
      · rw [if_neg hpos, if_neg (by omega)]

theorem position_eq {x : List UInt8 × α} (h : Carries heap p nodes (x :: L)) (Index : Int)
    (hi : i.toNat + L.length < 65535) (hrounds : L.length + 1 < rounds) :
    position heap Index rounds p p i = some (nodes.getD (min (Index - i.toNat).toNat L.length) 0) := by
  induction L generalizing p nodes rounds i x with
  | nil =>
    obtain ⟨rounds, rfl⟩ : ∃ k, rounds = k + 2 := ⟨rounds - 2, by simp only [length_nil] at hrounds; omega⟩
    obtain ⟨d, rest, rfl, hne, hd, -, hrest⟩ := h.cons
    rw [position, length_nil, Nat.min_zero, getD_cons_zero]
    by_cases hpos : (i.toNat : Int) < Index
    · -- the first cursor leaves the last node, the second one stays
      simp only [if_pos (And.intro hpos hne), hd, bind_eq_bind, bind_some, hrest.nil.2, ne_eq, not_true,
        if_false]
      rw [position, if_neg (fun hand => hand.2 rfl)]
    · rw [if_neg fun hand => hpos hand.1]
  | cons y L ih =>
    obtain ⟨rounds, rfl⟩ := exists_eq_add_one.2 (zero_lt_of_lt hrounds)
    obtain ⟨d, rest, rfl, hne, hd, -, hrest⟩ := h.cons
    have hnext : d.Next ≠ 0 := (hrest.cons.choose_spec.choose_spec).2.1
    rw [length_cons] at hi hrounds ⊢
    rw [position]
    by_cases hpos : (i.toNat : Int) < Index
    · have hsucc := toNat_succ (i := i) (by omega)
      simp only [if_pos (And.intro hpos hne), hd, bind_eq_bind, bind_some, if_pos hnext]
      rw [ih hrest (by omega) (lt_of_succ_lt_succ hrounds), hsucc]
      have hmin : min (Index - (i.toNat : Int)).toNat (L.length + 1)
          = min (Index - ((i.toNat + 1 : Nat) : Int)).toNat L.length + 1 := by omega
      rw [hmin, getD_cons_succ]
    · have hmin : min (Index - (i.toNat : Int)).toNat (L.length + 1) = 0 := by omega
      rw [if_neg fun hand => hpos hand.1, hmin, getD_cons_zero]

end

/-! ## What a state holds -/

structure Inv (s : Collection α) (L : Pairs α) : Prop where
  holds : ∃ nodes, Holds s nodes L
  count : s.ItemCount.toNat = L.length
  news : L.length ≤ s.news

section

variable {s s' : Collection α} {nodes nodes' : List Nat} {L L' : Pairs α} {new : Option Nat} {a : Nat}

theorem Holds.unique (h : Holds s nodes L) (h' : Holds s nodes' L') : nodes = nodes' ∧ L = L' := by
  have hnodes : nodes = nodes' := h.chain.unique h'.chain
  subst hnodes
  exact ⟨rfl, map_injective_iff.2 (some_injective _) (h.pairs.symm.trans h'.pairs)⟩

theorem Holds.isSome (h : Holds s nodes L) (ha : a ∈ nodes) : (s.heap a).isSome := by
  have hmem : pairOf s.heap a ∈ L.map some := h.pairs ▸ List.mem_map_of_mem ha
  obtain ⟨x, -, hx⟩ := List.mem_map.1 hmem
  obtain ⟨d, hd, -⟩ := map_eq_some_iff.1 hx.symm
  rw [hd]
  rfl

theorem Inv.length_le (h : Inv s L) : L.length ≤ 65535 := by
  have := s.ItemCount.toNat_lt
  rw [← h.count]
  omega

theorem Inv.right [Zero α] (h : Inv s L) : Right s L := by
  have hrounds : L.length < s.rounds := by
    have := h.news
    unfold Collection.rounds
    omega
  obtain ⟨nodes, hholds⟩ := h.holds
  refine ⟨h.count, fun Index => ?_, fun Key => itemUnderFrom_eq hholds.toCarries Key hrounds,
    fun Key => existsFrom_eq hholds.toCarries Key hrounds, nodes, hholds⟩
  have hitem := itemFrom_eq hholds.toCarries Index (i := 0) (by have := h.length_le; simpa using this) hrounds
  simpa [ItemAt] using hitem

/-! ## Adding -/

theorem exists_split (l : List Nat) (k : Nat) (hl : l ≠ []) : ∃ pre b post, l = pre ++ b :: post ∧
    b = l.getD (min k (l.length - 1)) 0 ∧ l.take (k + 1) = pre ++ [b] ∧ l.drop (k + 1) = post := by
  have hlt : min k (l.length - 1) < l.length := by
    have := length_pos_iff.2 hl
    omega
  refine ⟨l.take (min k (l.length - 1)), l[min k (l.length - 1)], l.drop (min k (l.length - 1) + 1), ?_, ?_, ?_, ?_⟩
  · rw [getElem_cons_drop, take_append_drop]
  · rw [getD_eq_getElem _ _ hlt]
  · rw [take_append_getElem hlt, take_eq_take_iff]
    omega
  · rw [drop_eq_drop_iff]
    omega

theorem position_spec (h : Holds s nodes L) (hlen : L.length ≤ 65535) (hnews : L.length ≤ s.news) (Index : Int) :
    position s.heap Index s.rounds s._Item s._Item 0 = some (nodes.getD (min Index.toNat (nodes.length - 1)) 0) := by
  cases L with
  | nil =>
    obtain ⟨rfl, hitem⟩ := h.nil
    rw [hitem, Collection.rounds, position, if_neg (fun hand => hand.2 rfl)]
    rfl
  | cons x L =>
    rw [length_cons] at hlen hnews
    rw [position_eq h.toCarries Index (show (0 : UInt16).toNat + L.length < 65535 by simp; omega)
      (by unfold Collection.rounds; omega), h.length_eq]
    simp

theorem add_none (h : Inv s L) (ptr : α) (Index : Int) (Key : List UInt8) : Add s ptr Index Key none = some (false, s) := by
  obtain ⟨nodes, hholds⟩ := h.holds
  rw [Add, position_spec hholds h.length_le h.news Index]
  by_cases hlt : min Index.toNat (nodes.length - 1) < nodes.length
  · have hmem := getElem_mem hlt
    obtain ⟨d, hd⟩ := isSome_iff_exists.1 (hholds.isSome hmem)
    have hne : nodes[min Index.toNat (nodes.length - 1)] ≠ 0 := fun hzero => hholds.chain.ne_last (hzero ▸ hmem)
    rw [getD_eq_getElem _ _ hlt]
    simp only [bind_eq_bind, bind_some, if_pos hne, Collection.load, hd, map_some]
  · rw [getD_eq_default _ _ (Nat.not_lt.1 hlt)]
    simp

variable {pre rest : List Nat}

variable {heap heap' : Nat → Option (CollectionData α)} {p x : Nat} {c : CollectionCall α}

theorem Carries.insert {b k : Nat} {post : List Nat}
    {d new : CollectionData α} (h : Carries heap p nodes L) (hnodes : nodes = pre ++ b :: post)
    (htake : nodes.take (k + 1) = pre ++ [b]) (hdrop : nodes.drop (k + 1) = post) (ha : a ≠ 0) (hanodes : a ∉ nodes)
    (hd : heap b = some d) (hprev : heap' b = some { d with Next := a }) (hnew : heap' a = some new)
    (hnext : new.Next = d.Next) (hother : ∀ c, c ≠ a → c ≠ b → heap' c = heap c) :
    Carries heap' p (nodes.take (k + 1) ++ a :: nodes.drop (k + 1))
      (L.take (k + 1) ++ (new.Key.1, new.ptr) :: L.drop (k + 1)) := by
  have hne : ∀ c ∈ nodes, c ≠ a := fun c hc heq => hanodes (heq ▸ hc)
  have hpair : ∀ c ∈ nodes, pairOf heap' c = pairOf heap c := fun c hc => by
    by_cases hcb : c = b
    · rw [hcb, pairOf, pairOf, hprev, hd]
      rfl
    · rw [pairOf, pairOf, hother c (hne c hc) hcb]
  have hpairs : nodes.map (pairOf heap') = L.map some := (map_congr_left hpair).trans h.pairs
  have hpairNew : pairOf heap' a = some (new.Key.1, new.ptr) := by
    rw [pairOf, hnew]
    rfl
  refine ⟨?_, ?_⟩
  · have hchain : Chain (nextOf heap) 0 p (pre ++ b :: post) := hnodes ▸ h.chain
    rw [htake, hdrop, append_assoc, singleton_append]
    refine hchain.insert ha ?_ ?_ fun c hc hcb => ?_
    · rw [nextOf, hprev]
      rfl
    · rw [nextOf, nextOf, hnew, hd]
      exact hnext
    · rw [nextOf, nextOf, hother c (hne c (hnodes ▸ hc)) hcb]
  · rw [map_append, map_cons, map_take, map_drop, hpairs, hpairNew, map_append, map_cons,
      map_take, map_drop]

/-- **What `Add` does**: the new node comes behind the one at the index, or behind the last one. -/
theorem add_holds (h : Holds s nodes L) (hlen : L.length ≤ 65535) (hnews : L.length ≤ s.news) (ptr : α) (Index : Int)
    (PKey : List UInt8) (ha : a ≠ 0) (hfree : s.heap a = none) :
    ∃ s', Add s ptr Index PKey (some a) = some (true, s') ∧ s'.ItemCount = s.ItemCount + 1 ∧ s'.news = s.news + 1 ∧
      Holds s' (nodes.take (Index.toNat + 1) ++ a :: nodes.drop (Index.toNat + 1))
        (L.take (Index.toNat + 1) ++ ((copyKey PKey).1, ptr) :: L.drop (Index.toNat + 1)) := by
  have hanodes : a ∉ nodes := fun hmem => by
    have := h.isSome hmem
    rw [hfree] at this
    cases this
  cases L with
  | nil =>
    obtain ⟨rfl, hitem⟩ := h.nil
    have hpos : position s.heap Index s.rounds s._Item s._Item 0 = some 0 := position_spec h hlen hnews Index
    simp only [Add, hpos, bind_eq_bind, bind_some, ne_eq, not_true, if_false, Collection.store]
    refine ⟨_, rfl, rfl, rfl, ⟨⟨⟨rfl, ha, ?_⟩, ?_⟩, fun c hc => ?_⟩⟩
    · simp [nextOf, LinkChain.Chain]
    · simp [pairOf]
    · by_cases hca : c = a
      · simp [hca]
      · simp only [update_of_ne hca] at hc
        exact absurd (h.only c hc) not_mem_nil
  | cons x L =>
    have hlength : nodes.length = L.length + 1 := h.length_eq
    obtain ⟨pre, b, post, hnodes, hb, htake, hdrop⟩ := exists_split nodes Index.toNat (by
      rintro rfl
      simp at hlength)
    have hpos : position s.heap Index s.rounds s._Item s._Item 0 = some b := hb ▸ position_spec h hlen hnews Index
    have hbmem : b ∈ nodes := by simp [hnodes]
    have hb0 : b ≠ 0 := fun hzero => h.chain.ne_last (hzero ▸ hbmem)
    have hab : b ≠ a := fun heq => hanodes (heq ▸ hbmem)
    obtain ⟨d, hd⟩ := isSome_iff_exists.1 (h.isSome hbmem)
    simp only [Add, hpos, bind_eq_bind, bind_some, if_pos hb0, Collection.load, hd, map_some,
      Collection.store, update_of_ne hab]
    have hother : ∀ c, c ≠ a → c ≠ b → update (update s.heap a (some ⟨ptr, copyKey PKey, d.Next⟩)) b
        (some { d with Next := a }) c = s.heap c := fun c hca hcb => by
      rw [update_of_ne hcb, update_of_ne hca]
    have hnew : update (update s.heap a (some ⟨ptr, copyKey PKey, d.Next⟩)) b
        (some { d with Next := a }) a = some ⟨ptr, copyKey PKey, d.Next⟩ := by
      rw [update_of_ne (Ne.symm hab), update_self]
    refine ⟨_, rfl, rfl, rfl, ⟨h.toCarries.insert hnodes htake hdrop ha hanodes hd (update_self ..) hnew rfl hother,
      fun c hc => ?_⟩⟩
    by_cases hca : c = a
    · simp [hca]
    · have hmem : c ∈ nodes := by
        by_cases hcb : c = b
        · exact hcb ▸ hbmem
        · exact h.only c (hother c hca hcb ▸ hc)
      rw [← take_append_drop (Index.toNat + 1) nodes] at hmem
      simp only [mem_append, mem_cons] at hmem ⊢
      tauto

theorem insert_eq_iff {β : Type} (l : List β) (k : Nat) (x y : β) :
    l.take (k + 1) ++ y :: l.drop (k + 1) = l.take k ++ x :: l.drop k ↔ y = x ∧ (l.length ≤ k ∨ l[k]? = some x) := by
  induction l generalizing k with
  | nil => simp
  | cons z l ih =>
    cases k with
    | zero =>
      simp only [take_succ_cons, take_zero, drop_succ_cons, drop_zero, nil_append,
        cons_append, List.cons.injEq, length_cons, List.getElem?_cons_zero, Option.some.injEq]
      constructor
      · rintro ⟨rfl, rfl, -⟩
        exact ⟨rfl, .inr rfl⟩
      · rintro ⟨rfl, hlen | rfl⟩
        · omega
        · exact ⟨rfl, rfl, trivial⟩
    | succ k =>
      simp only [take_succ_cons, drop_succ_cons, cons_append, List.cons.injEq, true_and, ih k,
        length_cons, List.getElem?_cons_succ, succ_le_succ_iff]

theorem copyKey_eq_iff (PKey : List UInt8) : (copyKey PKey).1 = PKey ↔ PKey.length ≤ 14 := take_eq_self_iff PKey

theorem fits_iff (L : Pairs α) (ptr : α) (Index : Int) (Key : List UInt8) : Fits L ptr Index Key ↔
    L.length < 65535 ∧ L.take (Index.toNat + 1) ++ ((copyKey Key).1, ptr) :: L.drop (Index.toNat + 1)
      = L.take Index.toNat ++ (Key, ptr) :: L.drop Index.toNat := by
  have hlen : (L = [] ∨ (L.length : Int) ≤ Index) ↔ L.length ≤ Index.toNat := by
    rw [← length_eq_zero_iff]
    omega
  rw [Fits, insert_eq_iff, Prod.mk.injEq, copyKey_eq_iff, ← @or_assoc (L = []), hlen]
  simp

theorem add_good (h : Inv s L) (ptr : α) (Index : Int) (Key : List UInt8) (hnew : s.Yields new)
    (hfits : new.isSome → Fits L ptr Index Key) :
    ∃ s', Add s ptr Index Key new = some ((Pairs.add L ptr Index Key new.isSome).1, s') ∧
      Inv s' (Pairs.add L ptr Index Key new.isSome).2 := by
  cases new with
  | none => exact ⟨s, add_none h ptr Index Key, h⟩
  | some a =>
    obtain ⟨nodes, hholds⟩ := h.holds
    obtain ⟨s', hadd, hcount, hnews, hholds'⟩ :=
      add_holds hholds h.length_le h.news ptr Index Key (hnew a rfl).1 (hnew a rfl).2
    obtain ⟨hroom, hlist⟩ := (fits_iff L ptr Index Key).1 (hfits rfl)
    rw [hlist] at hholds'
    have hlength : (L.take Index.toNat ++ (Key, ptr) :: L.drop Index.toNat).length = L.length + 1 := by
      simp only [length_append, length_take, length_cons, length_drop]
      omega
    refine ⟨s', hadd, ⟨⟨_, hholds'⟩, ?_, ?_⟩⟩
    · simp only [Pairs.add, isSome_some, if_true]
      rw [hcount, toNat_succ (h.count ▸ hroom), h.count, hlength]
    · simp only [Pairs.add, isSome_some, if_true]
      rw [hnews, hlength]
      exact succ_le_succ h.news

theorem fits_of_right [Zero α] (h : Inv s L) (ptr : α) (Index : Int) (Key : List UInt8) (hnew : s.Yields new)
    (hadd : Add s ptr Index Key new = some ((Pairs.add L ptr Index Key new.isSome).1, s'))
    (hright : Right s' (Pairs.add L ptr Index Key new.isSome).2) : new.isSome → Fits L ptr Index Key := by
  cases new with
  | none => intro hsome; cases hsome
  | some a =>
    intro _
    obtain ⟨nodes, hholds⟩ := h.holds
    obtain ⟨s'', hadd', -, -, hholds'⟩ := add_holds hholds h.length_le h.news ptr Index Key (hnew a rfl).1 (hnew a rfl).2
    simp only [Pairs.add, isSome_some, if_true] at hadd hright
    cases hadd.symm.trans hadd'
    obtain ⟨nodes', hright'⟩ := hright.holds
    refine (fits_iff L ptr Index Key).2 ⟨?_, (hholds'.unique hright').2⟩
    -- the count is below 2 ^ 16, so that of the list is
    have hcount := hright.count
    have hlt := (Count s').toNat_lt
    simp only [length_append, length_take, length_cons, length_drop] at hcount
    omega

/-! ## Removing -/

/-- Where the two cursors of `Remove` are: the second pointer is the one in the node that the first one leads to. -/
structure Cursors (s : Collection α) (ptrCur : Place) (ptrPrev : Option Place) (p : Nat) : Prop where
  load : s.load ptrCur = some p
  before : ptrPrev.elim (ptrCur = .item) fun place => ∃ b, s.load place = some b ∧ ptrCur = .next b

/-- The place of a pointer is set to `next`, which is then deleted. -/
def cutOut (s : Collection α) (place : Place) (next : Nat) : Option (Bool × Collection α) := do
  let s' ← s.store place next
  let s'' ← s'.delete next
  some (true, { s'' with ItemCount := s''.ItemCount - 1 })

theorem load_store {place : Place} (h : s.store place p = some s') : s'.load place = some p := by
  cases place with
  | item =>
    cases h
    rfl
  | next a =>
    obtain ⟨d, hd, rfl⟩ := map_eq_some_iff.1 h
    simp [Collection.load]

section

variable {p rounds : Nat} {ptrCur : Place} {ptrPrev : Option Place} {Index : Int} {i : UInt16}

theorem Cursors.next (h : Cursors s ptrCur ptrPrev p) {d : CollectionData α} (hd : s.heap p = some d) :
    Cursors s (.next p) (some ptrCur) d.Next where
  load := by rw [Collection.load, hd, map_some]
  before := ⟨p, h.load, rfl⟩

theorem removeFrom_missing (h : Carries s.heap p nodes L) (hcur : Cursors s ptrCur ptrPrev p)
    (hi : i.toNat + L.length ≤ 65535) (hrounds : L.length < rounds)
    (hindex : ¬(0 ≤ Index - i.toNat ∧ Index - i.toNat < L.length)) :
    removeFrom s Index rounds ptrCur ptrPrev i = some (false, s) := by
  induction L generalizing p nodes rounds ptrCur ptrPrev i with
  | nil =>
    obtain ⟨rounds, rfl⟩ := exists_eq_add_one.2 (zero_lt_of_lt hrounds)
    rw [removeFrom, hcur.load, h.nil.2]
    simp
  | cons x L ih =>
    obtain ⟨rounds, rfl⟩ := exists_eq_add_one.2 (zero_lt_of_lt hrounds)
    obtain ⟨d, rest, -, hne, hd, -, hrest⟩ := h.cons
    rw [length_cons] at hi hindex
    rw [removeFrom, hcur.load]
    simp only [bind_eq_bind, bind_some]
    by_cases hle : (i.toNat : Int) ≤ Index
    · have hsucc := toNat_succ (i := i) (by omega)
      rw [if_pos ⟨hne, hle⟩, if_neg (by omega)]
      exact ih hrest (hcur.next hd) (by omega) (lt_of_succ_lt_succ hrounds) (by omega)
    · rw [if_neg fun hand => hle hand.2]

theorem Cursors.linkPast_eq (h : Cursors s ptrCur ptrPrev p) (next : Nat) :
    s.linkPast next ptrPrev = s.store ptrCur next := by
  cases ptrPrev with
  | none => rw [show ptrCur = .item from h.before, Collection.linkPast]
  | some place =>
    obtain ⟨b, hb, rfl⟩ := h.before
    rw [Collection.linkPast, hb, bind_some]

theorem Cursors.cutOut_eq (h : Cursors s ptrCur ptrPrev p) (next : Nat) :
    ((s.linkPast next ptrPrev).bind fun s' => ((s'.load ptrCur).bind s'.delete).bind fun s'' =>
      some (true, { s'' with ItemCount := s''.ItemCount - 1 })) = cutOut s ptrCur next := by
  rw [h.linkPast_eq, cutOut]
  cases hs : s.store ptrCur next with
  | none => rfl
  | some s' => simp only [bind_eq_bind, bind_some, load_store hs]

theorem removeFrom_found (h : Carries s.heap p (pre ++ x :: rest) L)
    (hcur : Cursors s ptrCur ptrPrev p) (hi : i.toNat + L.length ≤ 65535) (hrounds : pre.length < rounds)
    (hindex : Index = i.toNat + pre.length) :
    removeFrom s Index rounds ptrCur ptrPrev i = cutOut s (pre.getLast?.elim ptrCur .next) (rest.getD 0 0) := by
  induction pre generalizing p L rounds ptrCur ptrPrev i with
  | nil =>
    obtain ⟨rounds, rfl⟩ := exists_eq_add_one.2 (zero_lt_of_lt hrounds)
    obtain ⟨y, L, rfl⟩ := exists_cons_of_ne_nil (show L ≠ [] by rintro rfl; simpa using h.nil.1)
    obtain ⟨d, rest', hnodes, hne, hd, -, hrest⟩ := h.cons
    obtain ⟨rfl, rfl⟩ := List.cons.inj hnodes
    rw [length_nil] at hindex
    rw [removeFrom, hcur.load]
    simp only [bind_eq_bind, bind_some]
    rw [if_pos ⟨hne, by omega⟩, if_pos (by omega), Collection.load, hd, map_some, hrest.chain.getD_zero]
    exact hcur.cutOut_eq d.Next
  | cons b pre ih =>
    obtain ⟨rounds, rfl⟩ := exists_eq_add_one.2 (zero_lt_of_lt hrounds)
    obtain ⟨y, L, rfl⟩ := exists_cons_of_ne_nil (show L ≠ [] by rintro rfl; simpa using h.nil.1)
    obtain ⟨d, rest', hnodes, hne, hd, -, hrest⟩ := h.cons
    obtain ⟨rfl, rfl⟩ := List.cons.inj hnodes
    rw [length_cons] at hindex hi
    have hsucc := toNat_succ (i := i) (by omega)
    rw [removeFrom, hcur.load]
    simp only [bind_eq_bind, bind_some]
    rw [if_pos ⟨hne, by omega⟩, if_neg (by omega),
      ih hrest (hcur.next hd) (by omega) (lt_of_succ_lt_succ hrounds) (by omega)]
    cases pre with
    | nil => rfl
    | cons c pre =>
      rw [List.getLast?_cons_cons, List.getLast?_eq_some_getLast (cons_ne_nil c pre)]
      rfl

end

theorem isSome_of_pairOf {c : Nat} (h : pairOf heap' c = pairOf heap c) :
    (heap' c).isSome = (heap c).isSome := by
  simpa [pairOf] using congrArg Option.isSome h

theorem store_out (h : Carries s.heap s._Item (pre ++ x :: rest) L)
    (hs : s.store (pre.getLast?.elim .item .next) (rest.getD 0 0) = some s') :
    Chain (nextOf s'.heap) 0 s'._Item (pre ++ rest) ∧ s'.ItemCount = s.ItemCount ∧
      ∀ c, pairOf s'.heap c = pairOf s.heap c := by
  obtain ⟨y, rfl, -, hrest⟩ := h.chain.of_append
  have hnext : rest.getD 0 0 = nextOf s.heap y := hrest.getD_zero
  obtain rfl | ⟨pre, b, rfl⟩ := eq_nil_or_concat pre
  · cases hs
    rw [hnext]
    exact ⟨hrest, rfl, fun c => rfl⟩
  · rw [concat_eq_append] at h hs ⊢
    rw [List.getLast?_concat] at hs
    obtain ⟨d, hd, rfl⟩ := map_eq_some_iff.1 hs
    have hchain := h.chain
    rw [append_assoc, singleton_append] at hchain ⊢
    have hnodup := nodup_middle.1 hchain.nodup
    have hother : ∀ c ∈ pre ++ y :: rest, nextOf (update s.heap b (some { d with Next := rest.getD 0 0 })) c
        = nextOf s.heap c := fun c hc => by
      have hcb : c ≠ b := fun heq => (nodup_cons.1 hnodup).1 (heq ▸ hc)
      rw [nextOf, nextOf, update_of_ne hcb]
    refine ⟨hchain.splice (fun c hc => hother c (mem_append_left _ hc)) ?_, rfl, fun c => ?_⟩
    · have hself : nextOf (update s.heap b (some { d with Next := rest.getD 0 0 })) b = nextOf s.heap y := by
        rw [nextOf, update_self, ← hnext]
        rfl
      rw [hself]
      exact hrest.congr fun c hc => hother c (by simp [hc])
    · by_cases hcb : c = b
      · simp [pairOf, hcb, hd]
      · simp [pairOf, update_of_ne hcb]

theorem delete_behind {item : Nat} (h : Chain (nextOf s.heap) 0 item (pre ++ rest))
    (hs : s.delete (rest.getD 0 0) = some s') : Chain (nextOf s'.heap) 0 item (pre ++ rest.take 1) ∧
      s'._Item = s._Item ∧ ∀ c, c ∉ rest → s'.heap c = s.heap c := by
  cases rest with
  | nil =>
    rw [Collection.delete, getD_nil, if_pos rfl] at hs
    cases hs
    exact ⟨h, rfl, fun _ _ => rfl⟩
  | cons y rest =>
    have hy : y ≠ 0 := fun hzero => h.ne_last (by simp [hzero])
    rw [Collection.delete, getD_cons_zero, if_neg hy] at hs
    obtain ⟨d, -, rfl⟩ := map_eq_some_iff.1 hs
    have hnodup := nodup_middle.1 h.nodup
    refine ⟨h.splice (fun c hc => ?_) ?_, rfl, fun c hc => ?_⟩
    · have hcy : c ≠ y := fun heq => (nodup_cons.1 hnodup).1 (heq ▸ mem_append_left _ hc)
      simp only [nextOf, update_of_ne hcy]
    · simp [nextOf, LinkChain.Chain]
    · exact update_of_ne (fun heq : c = y => hc (heq ▸ (.head _))) _ _

/-- **No element is removed right**: the node is linked out, but still allocated. -/
theorem remove_not_right [Zero α] (h : Inv s L) {Index : Int} (hlow : 0 ≤ Index) (hhigh : Index < L.length) {r : Bool}
    (hs : Remove s Index = some (r, s')) : ¬ Right s' L' := by
  obtain ⟨nodes, hholds⟩ := h.holds
  have hlt : Index.toNat < nodes.length := by
    rw [hholds.length_eq]
    omega
  have hnodes : nodes = nodes.take Index.toNat ++ nodes[Index.toNat] :: nodes.drop (Index.toNat + 1) := by
    rw [getElem_cons_drop, take_append_drop]
  have hprelen : (nodes.take Index.toNat).length = Index.toNat := by
    rw [length_take]
    omega
  generalize nodes.take Index.toNat = pre at hnodes hprelen
  generalize nodes.drop (Index.toNat + 1) = rest at hnodes
  generalize nodes[Index.toNat] = x at hnodes
  subst hnodes
  have hlen := h.length_le
  have hnews := h.news
  have hcur : Cursors s .item none s._Item := ⟨rfl, rfl⟩
  rw [Remove, removeFrom_found hholds.toCarries hcur (by simpa using hlen)
    (by unfold Collection.rounds; omega) (by simp; omega)] at hs
  obtain ⟨s₁, hstore, hs⟩ := bind_eq_some_iff.1 hs
  obtain ⟨s₂, hdelete, hs⟩ := bind_eq_some_iff.1 hs
  cases hs
  obtain ⟨hchain₁, -, hpair₁⟩ := store_out hholds.toCarries hstore
  obtain ⟨hchain₂, hitem, hkept⟩ := delete_behind hchain₁ hdelete
  have hnodup := nodup_middle.1 hholds.chain.nodup
  have hx : x ∉ pre ++ rest := (nodup_cons.1 hnodup).1
  rintro ⟨-, -, -, -, nodes', hright⟩
  -- the links of the result do not go through the node, which is allocated
  have hnodes' : nodes' = pre ++ rest.take 1 := hright.chain.unique (hitem ▸ hchain₂)
  have hmem : x ∈ nodes' := hright.only x (by
    rw [hkept x fun hxr => hx (mem_append_right _ hxr), isSome_of_pairOf (hpair₁ x)]
    exact hholds.isSome (by simp))
  rw [hnodes'] at hmem
  rcases mem_append.1 hmem with hpre | hrest
  · exact hx (mem_append_left _ hpre)
  · exact hx (mem_append_right _ (mem_of_mem_take hrest))

/-! ## Calls and runs -/

theorem existsFrom_item (h : Inv s L) (Key : List UInt8) :
    existsFrom s.heap Key s.rounds s._Item = some (decide (Key ∈ L.map Prod.fst)) := by
  obtain ⟨nodes, hholds⟩ := h.holds
  have hnews := h.news
  exact existsFrom_eq hholds.toCarries Key (by unfold Collection.rounds; omega)

theorem addKey_eq (h : Inv s L) (ptr : α) (Key : List UInt8) : AddKey s ptr Key new =
    if Key ∈ L.map Prod.fst then some (false, s) else Add s ptr L.length Key new := by
  rw [AddKey, existsFrom_item h Key, h.count]
  simp only [bind_eq_bind, bind_some, decide_eq_true_eq]

theorem good_call (h : Inv s L) (hpos : s.Possible c) (hgood : Good L c) :
    ∃ s', s.call c = some ((Pairs.call L c).1, s') ∧ Inv s' (Pairs.call L c).2 := by
  cases c with
  | add ptr new =>
    rw [Collection.call, AddPtr, h.count]
    exact add_good h ptr L.length [] hpos hgood
  | addAt ptr Index Key new => exact add_good h ptr Index Key hpos hgood
  | addKey ptr Key new =>
    simp only [Collection.call, addKey_eq h, Pairs.call]
    by_cases hmem : Key ∈ L.map Prod.fst
    · simp only [if_pos hmem]
      exact ⟨s, rfl, h⟩
    · simp only [if_neg hmem]
      exact add_good h ptr L.length Key hpos (hgood hmem)
  | remove Index =>
    obtain ⟨nodes, hholds⟩ := h.holds
    have hlen := h.length_le
    have hnews := h.news
    have hcur : Cursors s .item none s._Item := ⟨rfl, rfl⟩
    have hmissing : Remove s Index = some (false, s) := removeFrom_missing hholds.toCarries hcur (by simpa using hlen)
      (by unfold Collection.rounds; omega) (by simpa [Good] using hgood)
    simp only [Collection.call, hmissing, Pairs.call, if_neg (show ¬(0 ≤ Index ∧ Index < L.length) from hgood)]
    exact ⟨s, rfl, h⟩

theorem good_of_right [Zero α] (h : Inv s L) (hpos : s.Possible c) (hright : CallRight s L c) :
    Good L c := by
  obtain ⟨s', hs, hr⟩ := hright
  cases c with
  | add ptr new =>
    rw [Collection.call, AddPtr, h.count] at hs
    exact fits_of_right h ptr L.length [] hpos hs hr
  | addAt ptr Index Key new => exact fits_of_right h ptr Index Key hpos hs hr
  | addKey ptr Key new =>
    intro hmem
    simp only [Collection.call, addKey_eq h, Pairs.call, if_neg hmem] at hs hr
    exact fits_of_right h ptr L.length Key hpos hs hr
  | remove Index =>
    rintro ⟨hlow, hhigh⟩
    exact remove_not_right h hlow hhigh hs hr

end

instance (s : Collection α) (new : Option Nat) : Decidable (s.Yields new) :=
  match new with
  | none => isTrue fun a ha => by cases ha
  | some a => decidable_of_iff (a ≠ 0 ∧ (s.heap a).isNone)
      ⟨fun h b hb => by cases hb; exact ⟨h.1, Option.isNone_iff_eq_none.1 h.2⟩,
        fun h => ⟨(h a rfl).1, Option.isNone_iff_eq_none.2 (h a rfl).2⟩⟩

instance (s : Collection α) : (c : CollectionCall α) → Decidable (s.Possible c)
  | .add _ new => inferInstanceAs (Decidable (s.Yields new))
  | .addAt _ _ _ new => inferInstanceAs (Decidable (s.Yields new))
  | .addKey _ _ new => inferInstanceAs (Decidable (s.Yields new))
  | .remove _ => .isTrue trivial

def collection (α : Type) : StepSystem (Collection α × Pairs α) (CollectionCall α) where
  init x := x = (Initialize, [])
  step x c := if x.1.Possible c then (x.1.call c).map fun r => (r.2, (Pairs.call x.2 c).2) else none

theorem inv_initialize : Inv (Initialize : Collection α) [] where
  holds := ⟨[], ⟨rfl, rfl⟩, fun a ha => by cases ha⟩
  count := rfl
  news := le_refl 0

theorem inv_of_good {x : Collection α × Pairs α} (h : (collection α).ReachVia (fun x c => Good x.2 c) x) :
    Inv x.1 x.2 := by
  refine h.invariant (fun x => Inv x.1 x.2) (fun x hx => hx ▸ inv_initialize) fun x c x' hinv hgood hs => ?_
  simp only [collection] at hs
  split at hs
  · next hpos =>
    obtain ⟨s', hcall, hinv'⟩ := good_call hinv hpos hgood
    rw [hcall] at hs
    cases hs
    exact hinv'
  · cases hs

/-- **The collection is the list of the added pairs** in every run whose calls are good; and of the states of such a run,
a call keeps it so exactly when it is good. -/
theorem collection_right [Zero α] {s : Collection α} {L : Pairs α}
    (h : (collection α).ReachVia (fun x c => Good x.2 c) (s, L)) :
    Right s L ∧ ∀ c, s.Possible c → (CallRight s L c ↔ Good L c) := by
  have hinv : Inv s L := inv_of_good h
  refine ⟨hinv.right, fun c hpos => ⟨good_of_right hinv hpos, fun hgood => ?_⟩⟩
  obtain ⟨s', hcall, hinv'⟩ := good_call hinv hpos hgood
  exact ⟨s', hcall, hinv'.right⟩

instance [DecidableEq α] (L : Pairs α) (ptr : α) (Index : Int) (Key : List UInt8) : Decidable (Fits L ptr Index Key) :=
  inferInstanceAs (Decidable (_ ∧ _ ∧ (_ ∨ _ ∨ _)))

/-- Whether a call is good can be computed. -/
instance [DecidableEq α] (L : Pairs α) : (c : CollectionCall α) → Decidable (Good L c)
  | .add ptr new => inferInstanceAs (Decidable (new.isSome → Fits L ptr L.length []))
  | .addAt ptr Index Key new => inferInstanceAs (Decidable (new.isSome → Fits L ptr Index Key))
  | .addKey ptr Key new => inferInstanceAs (Decidable (Key ∉ L.map Prod.fst → new.isSome → Fits L ptr L.length Key))
  | .remove Index => inferInstanceAs (Decidable ¬(0 ≤ Index ∧ Index < L.length))

/-- Three additions, of which the last is refused, and a `Remove` behind the end. -/
theorem collection_right_three : ∃ s : Collection Nat, Right s [([0x61], 7), ([], 8)] ∧
    ∀ c, s.Possible c → (CallRight s [([0x61], 7), ([], 8)] c ↔ Good [([0x61], 7), ([], 8)] c) := by
  let calls : List (CollectionCall Nat) :=
    [.addKey 7 [0x61] (some 16), .add 8 (some 32), .addKey 9 [0x61] (some 48), .remove 2]
  have hlist : ((collection Nat).exec (Initialize, []) calls).map Prod.snd = some [([0x61], 7), ([], 8)] := by
    decide +kernel
  obtain ⟨⟨s, L⟩, hs, hL⟩ := Option.map_eq_some_iff.1 hlist
  obtain rfl : L = _ := hL
  exact ⟨s, collection_right (StepSystem.reachVia_exec calls (.init rfl) (by decide +kernel) hs)⟩

/-- After `Remove(0)` of two elements, `Item(0)` is in a node that has been deleted. -/
theorem remove_first_wrong : ∃ (s : Collection Nat) (L : Pairs Nat), (collection Nat).Reach (s, L) ∧ ¬ Right s L := by
  let calls : List (CollectionCall Nat) := [.add 7 (some 16), .add 8 (some 32), .remove 0]
  have hitem : ((collection Nat).exec (Initialize, []) calls).map (fun x => ItemAt x.1 0) = some none := by
    decide +kernel
  obtain ⟨⟨s, L⟩, hs, hnone⟩ := Option.map_eq_some_iff.1 hitem
  refine ⟨s, L, StepSystem.reach_exec calls (.init rfl) hs, fun hright => ?_⟩
  have hsome := hright.itemAt 0
  rw [hnone] at hsome
  cases hsome

end Collect
