import SkyOS.RamDisk.SkyRamDisk

/-!
# Paths on the RAM disk (`FileSystem/SkyRamDisk.cpp:118-199`)

`FindRelative` copies the path to a buffer and cuts component after component off its front. An entry that is not found
is a null pointer, and the next `FindChild` reads the id of the parent through it.

| here | there |
| --- | --- |
| `Result.outside` | an access to no live entry, or behind a buffer |
| `buf` | the buffer, a memory of its own from address 0 on |
| `bufString` | the string in it |
| `components` | what is between the slashes of a path, unless it is empty |
| `child` | the first entry of a parent that has a name |
-/

namespace RamDisk

open Bytes List

/-! ## The source -/

abbrev Str := List UInt8

def slash : UInt8 := 47

def G_RAMDISK_MAXIMUM_PATH_LENGTH : Nat := 512

/-- `memcpy` (`memory.cpp:5`), byte after byte. -/
def memcpy (m : Memory) (dest src : Nat) : Nat → Memory
  | 0 => m
  | count + 1 => memcpy (write8 m dest (m src).toNat) (dest + 1) (src + 1) count

/-- `indexOf` (:10), from the position `pos` on. -/
def indexOf (c : UInt8) : Str → Int → Int
  | [], _ => -1
  | x :: str, pos => if x = c then pos else indexOf c str (pos + 1)

def cString (s : Str) : Str := s.takeWhile fun c => c ≠ 0

def bufString (buf : Memory) : Str := cString (slice buf 0 G_RAMDISK_MAXIMUM_PATH_LENGTH)

inductive Result where
  | outside
  | node (entry : Option RamDiskEntry)
deriving DecidableEq

/-- `current->parentid == parent->id && strcmp(current->name, childName) == 0`. -/
def RamDiskEntry.isChild (current parent : RamDiskEntry) (childName : Str) : Bool :=
  current.parentid = parent.id ∧ cString current.name = cString childName

/-- The loop of `FindChild` (:122), from the entry that `current` points to on, which is read before it is tested. -/
def findChildFrom (parent : Option RamDiskEntry) (childName : Str) : List RamDiskEntry → Result
  | [] => .outside
  | current :: next =>
    match parent with
    | none => .outside
    | some p =>
      if current.isChild p childName then .node (some current)
      else if next = [] then .node none
      else findChildFrom parent childName next

namespace SkyRamDisk

variable (d : SkyRamDisk)

/-- `FindChild` (:118). -/
def findChild (parent : Option RamDiskEntry) (childName : Str) : Result := findChildFrom parent childName d.entries

/-- The buffer without its first component (:189): the string behind `slashIndex`. -/
def cutOff (buf : Memory) (slashIndex : Nat) : Memory :=
  let len := (bufString buf).length - (slashIndex + 1)
  write8 (memcpy buf 0 (slashIndex + 1) len) len 0

/-- The loop of `FindRelative` (:176), of at most `rounds` rounds. -/
def findLoop : Nat → Memory → Option RamDiskEntry → Option Result
  | 0, buf, currentNode => if 0 < (bufString buf).length then none else some (.node currentNode)
  | rounds + 1, buf, currentNode =>
    if 0 < (bufString buf).length then
      let slashIndex := indexOf slash (bufString buf) 0
      if slashIndex ≥ 0 then
        if slashIndex > 0 then
          match d.findChild currentNode ((bufString buf).take slashIndex.toNat) with
          | .outside => some .outside
          | .node currentNode => findLoop rounds (cutOff buf slashIndex.toNat) currentNode
        else findLoop rounds (cutOff buf slashIndex.toNat) currentNode
      else some (d.findChild currentNode (bufString buf))
    else some (.node currentNode)

/-- `FindRelative` (:168), with what the buffer held before. -/
def findRelative (buf : Memory) (rounds : Nat) (node : Option RamDiskEntry) (path : Str) : Option Result :=
  if path.length < G_RAMDISK_MAXIMUM_PATH_LENGTH then
    d.findLoop rounds (write8 (copy buf 0 (ofList 0 path) 0 path.length) path.length 0) node
  else some .outside

/-! ## What a path stands for -/

def child (parent : RamDiskEntry) (name : Str) : Option RamDiskEntry := d.entries.find? fun e => e.isChild parent name

def follow (node : RamDiskEntry) (names : List Str) : Option RamDiskEntry := names.foldlM d.child node

end SkyRamDisk

def components (path : Str) : List Str := (path.splitOn slash).filter fun name => name ≠ []

/-- With enough rounds the walk comes to its end, without an access outside, and to the entry that the components lead
to. -/
def SkyRamDisk.FindsRelative (d : SkyRamDisk) (node : RamDiskEntry) (path : Str) : Prop :=
  ∀ buf, ∃ enough, ∀ rounds ≥ enough,
    d.findRelative buf rounds (some node) path = some (.node (d.follow node (components path)))

/-! ## The buffer -/

theorem memcpy_forward (m : Memory) {dest src : Nat} (h : dest ≤ src) (count : Nat) :
    memcpy m dest src count = copy m dest m src count := by
  induction count generalizing m dest src with
  | zero =>
    funext x
    rw [copy_outside m m src (by omega)]
    rfl
  | succ count ih =>
    rw [memcpy, ih _ (Nat.succ_le_succ h)]
    funext x
    by_cases hfirst : x = dest
    · subst hfirst
      rw [copy_outside _ _ _ (by omega), write8_self, copy_inside m m src (by omega) (by omega), Nat.sub_self,
        UInt8.ofNat_toNat, Nat.add_zero]
    · by_cases hin : dest < x ∧ x < dest + (count + 1)
      · have haddr : src + 1 + (x - (dest + 1)) = src + (x - dest) := by omega
        rw [copy_inside _ _ _ (by omega) (by omega), copy_inside m m src (by omega) (by omega), haddr,
          write8_of_ne m (by omega)]
      · rw [copy_outside _ _ _ (by omega), copy_outside m m src (by omega), write8_of_ne m hfirst]

variable {s pre : Str} {c : UInt8}

theorem cString_eq (h : 0 ∉ s) : cString s = s := by
  refine takeWhile_eq_self_iff.2 ?_
  intro c hc
  refine decide_eq_true ?_
  rintro rfl
  exact h hc

def HasString (buf : Memory) (s : Str) : Prop :=
  Holds buf 0 (s ++ [0]) ∧ 0 ∉ s ∧ s.length < G_RAMDISK_MAXIMUM_PATH_LENGTH

variable {buf : Memory} {path : Str}

theorem HasString.bufString (h : HasString buf s) : bufString buf = s := by
  obtain ⟨hholds, hzero, hlength⟩ := h
  have hsplit : G_RAMDISK_MAXIMUM_PATH_LENGTH = (s ++ [0]).length + (511 - s.length) := by
    rw [length_append, length_singleton]
    unfold G_RAMDISK_MAXIMUM_PATH_LENGTH at *
    omega
  have hall : ∀ c ∈ s, decide (c ≠ 0) = true := takeWhile_eq_self_iff.1 (cString_eq hzero)
  rw [RamDisk.bufString, hsplit, slice_add, hholds, cString, append_assoc, takeWhile_append_of_pos hall,
    singleton_append, takeWhile_cons_of_neg (by simp), append_nil]

theorem hasString_copy (buf : Memory) (hlength : path.length < G_RAMDISK_MAXIMUM_PATH_LENGTH)
    (hzero : 0 ∉ path) : HasString (write8 (copy buf 0 (ofList 0 path) 0 path.length) path.length 0) path := by
  refine ⟨?_, hzero, hlength⟩
  have hbefore : Set.EqOn (write8 (copy buf 0 (ofList 0 path) 0 path.length) path.length 0) (ofList 0 path)
      (Set.Ico 0 (0 + path.length)) := by
    intro x hx
    have hlt := hx.2
    rw [write8_of_ne _ (by omega), copy_inside _ _ _ (by omega) (by omega), Nat.zero_add, Nat.sub_zero]
  rw [holds_append, Nat.zero_add]
  refine ⟨?_, ?_⟩
  · rw [Holds, slice_congr hbefore]
    exact holds_ofList 0 path
  · rw [Holds, length_singleton, slice, slice, write8_self]
    rfl

theorem HasString.cutOff {rest : Str} (h : HasString buf (pre ++ c :: rest)) :
    HasString (SkyRamDisk.cutOff buf pre.length) rest := by
  obtain ⟨hholds, hzero, hlength⟩ := id h
  rw [length_append, length_cons] at hlength
  have hlen : (RamDisk.bufString buf).length - (pre.length + 1) = rest.length := by
    rw [h.bufString, length_append, length_cons]
    omega
  have hrest : Holds buf (pre.length + 1) rest := by
    have happend : pre ++ c :: rest ++ [0] = (pre ++ [c]) ++ (rest ++ [0]) := by simp
    rw [happend, holds_append, length_append, length_singleton, Nat.zero_add] at hholds
    exact (holds_append.1 hholds.2).1
  have hbefore : slice (SkyRamDisk.cutOff buf pre.length) 0 rest.length = slice buf (pre.length + 1) rest.length := by
    unfold SkyRamDisk.cutOff
    dsimp only
    rw [hlen, memcpy_forward buf (Nat.zero_le _), slice_congr (m := copy buf 0 buf (pre.length + 1) rest.length),
      slice_copy_inside buf buf _ (Nat.le_refl 0) (by omega), Nat.sub_zero, Nat.add_zero]
    intro x hx
    have hlt := hx.2
    exact write8_of_ne _ (by omega) 0
  refine ⟨?_, fun hmem => hzero (mem_append_right _ (.tail _ hmem)),
    Nat.lt_of_le_of_lt (by omega) hlength⟩
  rw [holds_append, Nat.zero_add]
  refine ⟨?_, ?_⟩
  · rw [Holds, hbefore]
    exact hrest
  · unfold SkyRamDisk.cutOff
    rw [Holds, length_singleton, slice, slice, hlen, write8_self]
    rfl

/-! ## Components -/

theorem indexOf_notMem (h : c ∉ s) (pos : Int) : indexOf c s pos = -1 := by
  induction s generalizing pos with
  | nil => rfl
  | cons x s ih =>
    rw [mem_cons, not_or] at h
    rw [indexOf, if_neg (Ne.symm h.1), ih h.2]

theorem indexOf_append (h : c ∉ pre) (rest : Str) (pos : Int) :
    indexOf c (pre ++ c :: rest) pos = pos + pre.length := by
  induction pre generalizing pos with
  | nil => simp [indexOf]
  | cons x pre ih =>
    rw [mem_cons, not_or] at h
    rw [cons_append, indexOf, if_neg (Ne.symm h.1), ih h.2, length_cons]
    omega

theorem components_slash (h : slash ∉ pre) (rest : Str) :
    components (pre ++ slash :: rest) = (if pre = [] then [] else [pre]) ++ components rest := by
  rw [components, splitOn_append_cons_self, splitOn_eq_singleton h, filter_append, components]
  split
  · rename_i hpre
    rw [hpre]
    rfl
  · rename_i hpre
    rw [filter_cons_of_pos (by simpa using hpre), filter_nil]

theorem components_name (h : slash ∉ s) (hs : s ≠ []) : components s = [s] := by
  rw [components, splitOn_eq_singleton h, filter_cons_of_pos (by simpa using hs), filter_nil]

theorem slash_cases (s : Str) : slash ∉ s ∨ ∃ pre rest, s = pre ++ slash :: rest ∧ slash ∉ pre := by
  by_cases h : slash ∈ s
  · obtain ⟨pre, rest, heq, hpre⟩ := eq_append_cons_of_mem h
    exact .inr ⟨pre, rest, heq, hpre⟩
  · exact .inl h

namespace SkyRamDisk

variable (d : SkyRamDisk)

/-- The calls of `FindChild`, one for each component. -/
def findChildren : Option RamDiskEntry → List Str → Result
  | currentNode, [] => .node currentNode
  | currentNode, name :: names =>
    match d.findChild currentNode name with
    | .outside => .outside
    | .node currentNode => findChildren currentNode names

/-- **The loop** calls `FindChild` for each component of the string. -/
theorem findLoop_spec (rounds : Nat) : ∀ {buf : Memory} {s : Str} (currentNode : Option RamDiskEntry), HasString buf s →
    s.length ≤ rounds → d.findLoop rounds buf currentNode = some (d.findChildren currentNode (components s)) := by
  induction rounds with
  | zero =>
    intro buf s currentNode hbuf hrounds
    obtain rfl := length_eq_zero_iff.1 (Nat.le_zero.1 hrounds)
    rw [findLoop, hbuf.bufString]
    rfl
  | succ rounds ih =>
    intro buf s currentNode hbuf hrounds
    rw [findLoop, hbuf.bufString]
    by_cases hs : s = []
    · subst hs
      rfl
    · rw [if_pos (length_pos_iff.2 hs)]
      rcases slash_cases s with hslash | ⟨pre, rest, rfl, hpre⟩
      · have hindex := indexOf_notMem hslash 0
        rw [hindex, components_name hslash hs]
        dsimp only
        rw [if_neg (by decide), findChildren]
        cases d.findChild currentNode s <;> rfl
      · have hrest : rest.length ≤ rounds := by
          rw [length_append, length_cons] at hrounds
          omega
        have hcut := hbuf.cutOff
        rw [indexOf_append hpre, Int.zero_add, components_slash hpre]
        rw [if_pos (Int.natCast_nonneg _), Int.toNat_natCast, take_left]
        by_cases hnone : pre = []
        · subst hnone
          rw [if_neg (by simp), if_pos rfl, nil_append]
          exact ih currentNode hcut hrest
        · rw [if_pos (by simpa [length_pos_iff] using hnone), if_neg hnone, singleton_append, findChildren]
          cases d.findChild currentNode pre with
          | outside => rfl
          | node currentNode => exact ih currentNode hcut hrest

/-! ## Following the components -/

theorem findChild_none (name : Str) : d.findChild none name = .outside := by
  unfold findChild
  cases d.entries <;> rfl

theorem findChildFrom_some {entries : List RamDiskEntry} (h : entries ≠ []) (parent : RamDiskEntry) (name : Str) :
    findChildFrom (some parent) name entries = .node (entries.find? fun e => e.isChild parent name) := by
  induction entries with
  | nil => exact absurd rfl h
  | cons current next ih =>
    rw [findChildFrom]
    by_cases hchild : current.isChild parent name
    · rw [if_pos hchild, List.find?_cons_of_pos (by exact hchild)]
    · rw [if_neg hchild, List.find?_cons_of_neg (by simpa using hchild)]
      by_cases hnext : next = []
      · rw [if_pos hnext, hnext]
        rfl
      · rw [if_neg hnext, ih hnext]

theorem findChild_some (h : d.entries ≠ []) (parent : RamDiskEntry) (name : Str) :
    d.findChild (some parent) name = .node (d.child parent name) := findChildFrom_some h parent name

theorem follow_cons (node : RamDiskEntry) (name : Str) (names : List Str) :
    d.follow node (name :: names) = (d.child node name).bind fun next => d.follow next names := foldlM_cons ..

/-- The calls lead to what the components lead to as long as there is an entry to look in. -/
theorem findChildren_eq_iff (node : RamDiskEntry) (names : List Str) :
    d.findChildren (some node) names = .node (d.follow node names) ↔
      names = [] ∨ d.entries ≠ [] ∧ (d.follow node names.dropLast).isSome := by
  induction names generalizing node with
  | nil => simp [findChildren, follow]
  | cons name names ih =>
    by_cases hempty : d.entries = []
    · have hout : d.findChild (some node) name = .outside := by
        rw [findChild, hempty]
        rfl
      simp [findChildren, hout, hempty]
    · rw [findChildren, d.findChild_some hempty]
      dsimp only
      cases names with
      | nil =>
        rw [findChildren, follow_cons]
        simp [hempty, follow]
      | cons name' names =>
        rw [dropLast_cons_cons, follow_cons, follow_cons]
        cases hchild : d.child node name with
        | none =>
          have hout : d.findChildren none (name' :: names) = .outside := by
            rw [findChildren, findChild_none]
          simp [hout]
        | some next =>
          rw [Option.bind_some, Option.bind_some, ih next]
          simp [hempty]

theorem findRelative_eq (node : RamDiskEntry) (buf : Memory)
    (hlength : path.length < G_RAMDISK_MAXIMUM_PATH_LENGTH) (hpath : 0 ∉ path) {rounds : Nat}
    (hrounds : path.length ≤ rounds) :
    d.findRelative buf rounds (some node) path = some (d.findChildren (some node) (components path)) := by
  rw [findRelative, if_pos hlength]
  exact d.findLoop_spec rounds _ (hasString_copy buf hlength hpath) hrounds

/-- **Path lookup.** `FindRelative` comes to its end without an access outside, and to the entry that the components
lead to, exactly if the path and its zero fit the buffer and there is an entry to look in for every component. -/
theorem findsRelative_iff (node : RamDiskEntry) {path : Str} (hpath : 0 ∉ path) :
    d.FindsRelative node path ↔ path.length < G_RAMDISK_MAXIMUM_PATH_LENGTH ∧
      (components path = [] ∨ d.entries ≠ [] ∧ (d.follow node (components path).dropLast).isSome) := by
  by_cases hlength : path.length < G_RAMDISK_MAXIMUM_PATH_LENGTH
  · rw [← d.findChildren_eq_iff node (components path), and_iff_right hlength]
    constructor
    · intro h
      obtain ⟨enough, henough⟩ := h fun _ => 0
      have hfound := henough (max enough path.length) (Nat.le_max_left _ _)
      rw [d.findRelative_eq node _ hlength hpath (Nat.le_max_right _ _)] at hfound
      exact Option.some.inj hfound
    · intro h buf
      exact ⟨path.length, fun rounds hrounds => by rw [d.findRelative_eq node buf hlength hpath hrounds, h]⟩
  · constructor
    · intro h
      obtain ⟨enough, henough⟩ := h fun _ => 0
      have hfound := henough enough (Nat.le_refl _)
      rw [findRelative, if_neg hlength] at hfound
      cases hfound
    · rintro ⟨hlt, -⟩
      exact absurd hlt hlength

/-- A disk with the folder `b`, and its root. -/
def oneFolder : SkyRamDisk := ⟨[⟨G_RAMDISK_ENTRY_TYPE_FOLDER, 1, 0, [98], 0, 0⟩], 2⟩

def oneFolderRoot : RamDiskEntry := ⟨G_RAMDISK_ENTRY_TYPE_FOLDER, 0, 0, [], 0, 0⟩

theorem findsRelative_oneFolder : oneFolder.FindsRelative oneFolderRoot [47, 98, 47, 47] :=
  (findsRelative_iff oneFolder oneFolderRoot (by decide)).2 ⟨by decide, by decide⟩

/-- `a/b`: there is no `a`, and `b` is looked for in what is not there. -/
theorem findRelative_outside : ¬ ∀ (d : SkyRamDisk) (node : RamDiskEntry) (path : Str), 0 ∉ path →
    d.FindsRelative node path := by
  intro h
  obtain ⟨enough, henough⟩ := h oneFolder oneFolderRoot [97, 47, 98] (by decide) fun _ => 0
  have hfound := henough (max enough 3) (Nat.le_max_left _ _)
  have heq : oneFolder.findRelative (fun _ => 0) (max enough 3) (some oneFolderRoot) [97, 47, 98] = some .outside :=
    findRelative_eq oneFolder oneFolderRoot _ (by decide) (by decide) (Nat.le_max_right enough 3)
  rw [heq] at hfound
  revert hfound
  decide

end SkyRamDisk

end RamDisk
