import Mathlib.Algebra.Ring.Parity
import Mathlib.Data.List.Range
import Mathlib.Data.List.TakeWhile
import SkyOS.Lib.Bytes
import SkyOS.Lib.Machine

/-!
# The RAM disk (`FileSystem/SkyRamDisk.cpp`)

A RAM disk image is a row of records, each a type byte, id, parent id, name and, for a file, its data. `Load` turns
it into a list of entries; `CreateChild` puts new ones before them and numbers them from `next_unused_id` on.

| here | there |
| --- | --- |
| `SkyRamDisk.entries` | the list from `firstHeader` on |
| `loadLoop` | the loop of `Load`, with a bound on its rounds |
| `Record`, `encode` | the layout that `Load` reads |
| `RamDiskEntry.data` | an address of the image |
| `recordAt` | the record that begins at an address |
-/

namespace RamDisk

open Machine Bytes List

/-! ## The source -/

structure BootModule where
  moduleStart : Nat
  moduleEnd : Nat

def G_RAMDISK_ENTRY_TYPE_FOLDER : UInt8 := 0
def G_RAMDISK_ENTRY_TYPE_FILE : UInt8 := 1

structure RamDiskEntry where
  type : UInt8
  id : Nat
  parentid : Nat
  name : List UInt8
  datalength : Nat
  data : Nat
deriving DecidableEq, Repr

structure SkyRamDisk where
  entries : List RamDiskEntry
  next_unused_id : Nat
deriving DecidableEq, Repr

/-- The constructor: `firstHeader = 0`, `next_unused_id = 0`. -/
def SkyRamDisk.empty : SkyRamDisk := ⟨[], 0⟩

/-- One round of the loop (:51-:104): the entry and the position after it. -/
def loadHeader (mem : Memory) (ramdisk ramdiskPosition : Nat) : RamDiskEntry × Nat :=
  let pos := ramdiskPosition
  let type := mem (u32 (ramdisk + pos))
  let pos := u32 (pos + 1)
  let id := read32 mem (u32 (ramdisk + pos))
  let pos := u32 (pos + 4)
  let parentid := read32 mem (u32 (ramdisk + pos))
  let pos := u32 (pos + 4)
  let namelength := read32 mem (u32 (ramdisk + pos))
  let pos := u32 (pos + 4)
  let name := slice mem (u32 (ramdisk + pos)) namelength
  let pos := u32 (pos + namelength)
  if type = G_RAMDISK_ENTRY_TYPE_FILE then
    let datalength := read32 mem (u32 (ramdisk + pos))
    let pos := u32 (pos + 4)
    (⟨type, id, parentid, name, datalength, u32 (ramdisk + pos)⟩, u32 (pos + datalength))
  else (⟨type, id, parentid, name, 0, 0⟩, pos)

/-- `next_unused_id` after an id (:107). -/
def raiseNext (next_unused_id id : Nat) : Nat := if id > next_unused_id then u32 (id + 1) else next_unused_id

/-- The loop of `Load` (:50), of at most `rounds` rounds. -/
def loadLoop (mem : Memory) (module : BootModule) : Nat → SkyRamDisk → Nat → Option (SkyRamDisk × Nat)
  | 0, disk, pos => if u32 (module.moduleStart + pos) < module.moduleEnd then none else some (disk, pos)
  | rounds + 1, disk, pos =>
    if u32 (module.moduleStart + pos) < module.moduleEnd then
      let (header, pos') := loadHeader mem module.moduleStart pos
      loadLoop mem module rounds ⟨disk.entries ++ [header], raiseNext disk.next_unused_id header.id⟩ pos'
    else some (disk, pos)

/-- `Load` (:31), and the position where it stops. -/
def load (mem : Memory) (module : BootModule) (rounds : Nat) : Option (SkyRamDisk × Nat) :=
  loadLoop mem module rounds SkyRamDisk.empty 0

namespace SkyRamDisk

/-- `FindById` (:135), of an id other than that of the root. -/
def findById (d : SkyRamDisk) (id : Nat) : Option RamDiskEntry := d.entries.find? fun e => e.id = id

/-- `CreateChild` (:259). -/
def createChild (d : SkyRamDisk) (parentid : Nat) (filename : List UInt8) : SkyRamDisk where
  entries := ⟨G_RAMDISK_ENTRY_TYPE_FILE, d.next_unused_id, parentid, filename, 0, 0⟩ :: d.entries
  next_unused_id := u32 (d.next_unused_id + 1)

/-- A row of calls of `CreateChild`: the id of the parent, and the name. -/
def createChildren (d : SkyRamDisk) (calls : List (Nat × List UInt8)) : SkyRamDisk :=
  calls.foldl (fun d call => d.createChild call.1 call.2) d

def ids (d : SkyRamDisk) : List Nat := d.entries.map RamDiskEntry.id

/-- The ids are distinct, and none is the id of the root. -/
def UniqueIds (d : SkyRamDisk) : Prop := d.ids.Nodup ∧ 0 ∉ d.ids
  deriving Decidable

end SkyRamDisk

/-! ## Images -/

/-- What an image says of an entry; a folder has no data. -/
structure Record where
  type : UInt8
  id : Nat
  parentid : Nat
  name : List UInt8
  content : List UInt8
deriving DecidableEq, Repr

namespace Record

structure Fits (r : Record) : Prop where
  id : r.id < 2 ^ 32
  parentid : r.parentid < 2 ^ 32
  name : r.name.length < 2 ^ 32
  content : r.content.length < 2 ^ 32
  folder : r.type ≠ G_RAMDISK_ENTRY_TYPE_FILE → r.content = []

def header (r : Record) : List UInt8 :=
  [r.type] ++ (leBytes r.id 4 ++ (leBytes r.parentid 4 ++ (leBytes r.name.length 4 ++ r.name)))

def encode (r : Record) : List UInt8 :=
  r.header ++ if r.type = G_RAMDISK_ENTRY_TYPE_FILE then leBytes r.content.length 4 ++ r.content else []

theorem length_header (r : Record) : r.header.length = 13 + r.name.length := by
  simp [header]
  omega

theorem length_encode (r : Record) : r.encode.length =
    13 + r.name.length + if r.type = G_RAMDISK_ENTRY_TYPE_FILE then 4 + r.content.length else 0 := by
  rw [encode, length_append, length_header]
  split <;> simp

end Record

def encode (records : List Record) : List UInt8 := records.flatMap Record.encode

def RamDiskEntry.record (mem : Memory) (e : RamDiskEntry) : Record where
  type := e.type
  id := e.id
  parentid := e.parentid
  name := e.name
  content := slice mem e.data e.datalength

def contentAt (mem : Memory) (a : Nat) : List UInt8 :=
  if mem a = G_RAMDISK_ENTRY_TYPE_FILE then
    slice mem (a + 17 + read32 mem (a + 9)) (read32 mem (a + 13 + read32 mem (a + 9)))
  else []

def recordAt (mem : Memory) (a : Nat) : Record where
  type := mem a
  id := read32 mem (a + 1)
  parentid := read32 mem (a + 5)
  name := slice mem (a + 13) (read32 mem (a + 9))
  content := contentAt mem a

theorem length_recordAt (mem : Memory) (a : Nat) : (recordAt mem a).encode.length =
    13 + read32 mem (a + 9) +
      if mem a = G_RAMDISK_ENTRY_TYPE_FILE then 4 + read32 mem (a + 13 + read32 mem (a + 9)) else 0 := by
  have hname : (recordAt mem a).name.length = read32 mem (a + 9) := length_slice ..
  have htype : (recordAt mem a).type = mem a := rfl
  rw [Record.length_encode, hname, htype]
  by_cases hfile : mem a = G_RAMDISK_ENTRY_TYPE_FILE
  · have hcontent : (recordAt mem a).content =
        slice mem (a + 17 + read32 mem (a + 9)) (read32 mem (a + 13 + read32 mem (a + 9))) := if_pos hfile
    rw [if_pos hfile, hcontent, length_slice, if_pos hfile]
  · rw [if_neg hfile, if_neg hfile]

variable {mem : Memory} {ids : List Nat}

variable {r : Record} {start next m k : Nat}

theorem recordAt_of_holds {a : Nat} (hr : r.Fits) (hmem : Holds mem a r.encode) :
    recordAt mem a = r := by
  obtain ⟨hhead, hdata⟩ := holds_append.1 hmem
  rw [Record.length_header] at hdata
  simp only [Record.header, holds_append, length_singleton, length_leBytes] at hhead
  obtain ⟨htype, hid, hparentid, hnamelength, hname⟩ := hhead
  have htype' : mem a = r.type := (List.cons.inj htype).1
  have hid' := read32_of_holds hid hr.id
  have hparentid' : read32 mem (a + 5) = r.parentid := read32_of_holds hparentid hr.parentid
  have hnamelength' : read32 mem (a + 9) = r.name.length := read32_of_holds hnamelength hr.name
  have hname' : slice mem (a + 13) r.name.length = r.name := hname
  have hcontent : contentAt mem a = r.content := by
    unfold contentAt
    rw [htype', hnamelength']
    by_cases hfile : r.type = G_RAMDISK_ENTRY_TYPE_FILE
    · rw [if_pos hfile, holds_append, length_leBytes] at hdata
      obtain ⟨hlength, hbytes⟩ := hdata
      have hlength' := read32_of_holds hlength hr.content
      have haddr : a + (13 + r.name.length) = a + 13 + r.name.length := by omega
      have haddr' : a + (13 + r.name.length) + 4 = a + 17 + r.name.length := by omega
      rw [haddr] at hlength'
      rw [haddr'] at hbytes
      rw [if_pos hfile, hlength']
      exact hbytes
    · rw [if_neg hfile, hr.folder hfile]
  simp only [recordAt, htype', hid', hparentid', hnamelength', hname', hcontent]

theorem loadHeader_recordAt (mem : Memory) (start pos : Nat)
    (hend : start + pos + (recordAt mem (start + pos)).encode.length < 2 ^ 32) :
    (loadHeader mem start pos).1.record mem = recordAt mem (start + pos) ∧
      (loadHeader mem start pos).2 = pos + (recordAt mem (start + pos)).encode.length := by
  rw [length_recordAt] at hend ⊢
  have h0 : u32 (start + pos) = start + pos := u32_of_lt (by omega)
  have h1 : u32 (start + u32 (pos + 1)) = start + pos + 1 := by
    unfold u32
    omega
  have h2 : u32 (start + u32 (u32 (pos + 1) + 4)) = start + pos + 5 := by
    unfold u32
    omega
  have h3 : u32 (start + u32 (u32 (u32 (pos + 1) + 4) + 4)) = start + pos + 9 := by
    unfold u32
    omega
  have h4 : u32 (u32 (u32 (u32 (pos + 1) + 4) + 4) + 4) = pos + 13 := by
    unfold u32
    omega
  have h5 : u32 (start + (pos + 13)) = start + pos + 13 := u32_of_lt (by omega)
  have h6 : u32 (pos + 13 + read32 mem (start + pos + 9)) = pos + 13 + read32 mem (start + pos + 9) :=
    u32_of_lt (by omega)
  simp only [loadHeader, h0, h1, h2, h3, h4, h5, h6]
  by_cases hfile : mem (start + pos) = G_RAMDISK_ENTRY_TYPE_FILE
  · rw [if_pos hfile] at hend
    have h7 : u32 (start + (pos + 13 + read32 mem (start + pos + 9))) =
        start + pos + 13 + read32 mem (start + pos + 9) := by
      unfold u32
      omega
    have h8 : u32 (pos + 13 + read32 mem (start + pos + 9) + 4) = pos + 17 + read32 mem (start + pos + 9) := by
      unfold u32
      omega
    have h9 : u32 (start + (pos + 17 + read32 mem (start + pos + 9))) =
        start + pos + 17 + read32 mem (start + pos + 9) := by
      unfold u32
      omega
    simp only [if_pos hfile, h7, h8, h9]
    refine ⟨?_, ?_⟩
    · simp only [RamDiskEntry.record, recordAt, contentAt, if_pos hfile]
    · rw [u32_of_lt (by omega)]
      omega
  · simp only [if_neg hfile]
    refine ⟨?_, by omega⟩
    simp only [RamDiskEntry.record, recordAt, contentAt, if_neg hfile, slice]

theorem loadHeader_spec {pos : Nat} (hr : r.Fits)
    (hmem : Holds mem (start + pos) r.encode) (hend : start + pos + r.encode.length < 2 ^ 32) :
    (loadHeader mem start pos).1.record mem = r ∧ (loadHeader mem start pos).2 = pos + r.encode.length := by
  have hrecord := recordAt_of_holds hr hmem
  have hspec := loadHeader_recordAt mem start pos (by rw [hrecord]; exact hend)
  rwa [hrecord] at hspec

/-- **`Load` reads an image back.** It takes one round for each record and stops at the end of the image. -/
theorem loadLoop_encode (records : List Record) :
    ∀ (rounds pos : Nat) (disk : SkyRamDisk), (∀ r ∈ records, r.Fits) → Holds mem (start + pos) (encode records) →
      start + pos + (encode records).length < 2 ^ 32 → records.length ≤ rounds →
      ∃ entries, entries.map (RamDiskEntry.record mem) = records ∧
        loadLoop mem ⟨start, start + pos + (encode records).length⟩ rounds disk pos =
          some (⟨disk.entries ++ entries, (records.map Record.id).foldl raiseNext disk.next_unused_id⟩,
            pos + (encode records).length) := by
  induction records with
  | nil =>
    intro rounds pos disk _ _ hend _
    have hdone : ¬ u32 (start + pos) < start + pos + (encode []).length := by
      rw [u32_of_lt (by omega)]
      simp [encode]
    refine ⟨[], rfl, ?_⟩
    cases rounds <;> rw [loadLoop, if_neg hdone] <;> simp [encode]
  | cons r records ih =>
    intro rounds pos disk hfits hmem hend hrounds
    have hsplit : encode (r :: records) = r.encode ++ encode records := rfl
    rw [hsplit, length_append] at hend
    rw [hsplit, holds_append] at hmem
    obtain ⟨hhead, hrest⟩ := hmem
    obtain ⟨hrec, hpos⟩ := loadHeader_spec (hfits r (by simp)) hhead (by omega)
    obtain ⟨rounds, rfl⟩ : ∃ k, rounds = k + 1 := ⟨rounds - 1, by simp at hrounds; omega⟩
    have hlen := r.length_encode
    have hgo : u32 (start + pos) < start + pos + (encode (r :: records)).length := by
      rw [u32_of_lt (by omega), hsplit, length_append]
      omega
    have haddr : start + pos + r.encode.length = start + (pos + r.encode.length) := by omega
    rw [haddr] at hrest
    rcases hload : loadHeader mem start pos with ⟨header, pos'⟩
    rw [hload] at hrec hpos
    subst hpos
    obtain ⟨entries, hentries, hloop⟩ := ih rounds _
      ⟨disk.entries ++ [header], raiseNext disk.next_unused_id header.id⟩ (fun x hx => hfits x (by simp [hx])) hrest
      (by omega) (by simp at hrounds; omega)
    refine ⟨header :: entries, by rw [map_cons, hrec, hentries], ?_⟩
    have hstop : start + (pos + r.encode.length) + (encode records).length =
        start + pos + (encode (r :: records)).length := by
      rw [hsplit, length_append]
      omega
    have hid : header.id = r.id := by rw [← hrec]; rfl
    rw [hstop] at hloop
    rw [loadLoop, if_pos hgo]
    dsimp only
    rw [hload]
    rw [hloop, hid, hsplit, length_append]
    simp [Nat.add_assoc]

theorem load_encode {mem : Memory} {start : Nat} {records : List Record} (hfits : ∀ r ∈ records, r.Fits)
    (hmem : Holds mem start (encode records)) (hend : start + (encode records).length < 2 ^ 32) {rounds : Nat}
    (hrounds : records.length ≤ rounds) :
    ∃ disk, load mem ⟨start, start + (encode records).length⟩ rounds = some (disk, (encode records).length) ∧
      disk.entries.map (RamDiskEntry.record mem) = records ∧
      disk.next_unused_id = (records.map Record.id).foldl raiseNext 0 := by
  obtain ⟨entries, hentries, hloop⟩ := loadLoop_encode records rounds 0 SkyRamDisk.empty hfits hmem hend hrounds
  rw [Nat.zero_add] at hloop
  exact ⟨_, hloop, hentries, rfl⟩

/-! ## The counter

Whether the greatest id `m` raises the counter depends on whether `m - 1` comes before it and does, and so on: the
ids `…, m - 1, m` that follow one another in the image raise it by turns. -/

/-- The number of ids `m, m - 1, …` of which each comes before the one above it. -/
def ascent : List Nat → Nat → Nat
  | _, 0 => 0
  | ids, m + 1 => if m + 1 ∈ ids then ascent (ids.takeWhile fun id => id ≠ m + 1) m + 1 else 0

theorem foldl_raiseNext_of_le (h : ∀ id ∈ ids, id ≤ next) :
    ids.foldl raiseNext next = next := by
  induction ids with
  | nil => rfl
  | cons id ids ih =>
    have hid : ¬ id > next := Nat.not_lt.2 (h id (by simp))
    rw [foldl_cons, raiseNext, if_neg hid]
    exact ih fun x hx => h x (by simp [hx])

theorem split_at (hnodup : ids.Nodup) (hm : m ∈ ids) :
    ∃ pre post, ids = pre ++ m :: post ∧ m ∉ pre ∧ m ∉ post ∧ (ids.takeWhile fun id => id ≠ m) = pre ∧
      (ids.dropWhile fun id => id ≠ m) = m :: post := by
  obtain ⟨pre, post, heq, hpre⟩ := eq_append_cons_of_mem hm
  have hall : ∀ id ∈ pre, decide (id ≠ m) = true := by
    intro id hid
    rw [decide_eq_true_iff]
    rintro rfl
    exact hpre hid
  subst heq
  refine ⟨pre, post, rfl, hpre, (nodup_cons.1 (nodup_append.1 hnodup).2.1).1, ?_, ?_⟩
  · rw [takeWhile_append_of_pos hall, takeWhile_cons_of_neg (by simp), append_nil]
  · rw [dropWhile_append_of_pos hall, dropWhile_cons_of_neg (by simp)]

/-- **The counter after ids up to `m`** is `m + 1` if they end with an ascent of odd length, and else at most `m`. -/
theorem foldl_raiseNext_spec (hm : m + 1 < 2 ^ 32) (hnodup : ids.Nodup) (h0 : 0 ∉ ids)
    (hle : ∀ id ∈ ids, id ≤ m) :
    (ids.foldl raiseNext 0 = m + 1 ↔ Odd (ascent ids m)) ∧ ids.foldl raiseNext 0 ≤ m + 1 ∧
      (m ∈ ids → m ≤ ids.foldl raiseNext 0) := by
  induction m generalizing ids with
  | zero =>
    have hnil : ids = [] := by
      rcases ids with _ | ⟨id, ids⟩
      · rfl
      · have hid : id = 0 := Nat.le_zero.1 (hle id (by simp))
        exact absurd (by simp [hid]) h0
    subst hnil
    simp [ascent]
  | succ m ih =>
    by_cases hmem : m + 1 ∈ ids
    · obtain ⟨pre, post, rfl, hpre, hpost, htake, -⟩ := split_at hnodup hmem
      -- the ids before `m + 1` are at most `m`, and so are those after it, which change nothing any more
      have hprele : ∀ id ∈ pre, id ≤ m := by
        intro id h
        have hne : id ≠ m + 1 := fun hid => hpre (hid ▸ h)
        have := hle id (by simp [h])
        omega
      have hpostle : ∀ id ∈ post, id ≤ m := by
        intro id h
        have hne : id ≠ m + 1 := fun hid => hpost (hid ▸ h)
        have := hle id (by simp [h])
        omega
      obtain ⟨ihodd, ihle, -⟩ := ih (by omega) (nodup_append.1 hnodup).1 (fun h => h0 (by simp [h])) hprele
      have hraise : raiseNext (pre.foldl raiseNext 0) (m + 1) = if m + 1 > pre.foldl raiseNext 0 then m + 2
          else pre.foldl raiseNext 0 := by rw [raiseNext, u32_of_lt hm]
      have hfold : (pre ++ (m + 1) :: post).foldl raiseNext 0 = raiseNext (pre.foldl raiseNext 0) (m + 1) := by
        rw [foldl_append, foldl_cons]
        apply foldl_raiseNext_of_le
        intro id h
        have := hpostle id h
        rw [hraise]
        split <;> omega
      rw [hfold, ascent, if_pos hmem, htake, Nat.odd_add_one, ← ihodd, hraise]
      split
      · exact ⟨by omega, by omega, fun _ => by omega⟩
      · exact ⟨by omega, by omega, fun _ => by omega⟩
    · have hbelow : ∀ id ∈ ids, id ≤ m := by
        intro id h
        have hne : id ≠ m + 1 := fun hid => hmem (hid ▸ h)
        have := hle id h
        omega
      obtain ⟨-, ihle, -⟩ := ih (by omega) hnodup h0 hbelow
      rw [ascent, if_neg hmem]
      refine ⟨⟨fun h => by omega, fun h => by simp at h⟩, by omega, fun h => absurd h hmem⟩

def maxId : Nat := 2 ^ 32 - 1

def counted (ids : List Nat) : List Nat := if maxId ∈ ids then (ids.dropWhile fun id => id ≠ maxId).tail else ids

/-- The ids from which `k` calls number the entries are unused: `next` is not the root's, nothing wraps, and no id of
the image is among them. -/
def Free (ids : List Nat) (next k : Nat) : Prop :=
  0 < next ∧ next + k ≤ 2 ^ 32 ∧ ∀ id ∈ ids, id < next ∨ next + k ≤ id

/-- The greatest counted id exists and ends an ascent of odd length, and the `k` ids that follow it are not in the
image. -/
def Follows (ids part : List Nat) (k : Nat) : Prop :=
  ∃ m ∈ part, (∀ id ∈ part, id ≤ m) ∧ Odd (ascent part m) ∧ m + k < 2 ^ 32 ∧ ∀ id ∈ ids, id ≤ m ∨ m + k < id

theorem exists_greatest (h : ids ≠ []) : ∃ m ∈ ids, ∀ id ∈ ids, id ≤ m := by
  obtain ⟨m, hm⟩ := Option.isSome_iff_exists.1 (List.isSome_max?_of_ne_nil h)
  exact ⟨m, List.max?_mem hm, fun id hid => (List.max?_le_iff hm).1 (le_refl m) id hid⟩

theorem free_iff_follows {part : List Nat} (hsub : part ⊆ ids) (hnodup : part.Nodup) (h0 : 0 ∉ part)
    (hlt : ∀ id ∈ part, id < maxId) (hk : 0 < k) :
    Free ids (part.foldl raiseNext 0) k ↔ Follows ids part k := by
  rcases eq_nil_or_concat part with rfl | hcons
  · simp [Free, Follows]
  have hne : part ≠ [] := by
    obtain ⟨l, a, rfl⟩ := hcons
    simp
  obtain ⟨m, hm, hmax⟩ := exists_greatest hne
  have hm' := hlt m hm
  unfold maxId at hm'
  obtain ⟨hodd, hle, hge⟩ := foldl_raiseNext_spec (by omega) hnodup h0 hmax
  have hge := hge hm
  constructor
  · rintro ⟨-, hwrap, hfree⟩
    have hnext : part.foldl raiseNext 0 = m + 1 := by
      rcases hfree m (hsub hm) with h | h <;> omega
    rw [hnext] at hwrap hfree
    refine ⟨m, hm, hmax, hodd.1 hnext, by omega, fun id hid => ?_⟩
    rcases hfree id hid with h | h <;> omega
  · rintro ⟨m', hm', hmax', hodd', hwrap, hfree⟩
    obtain rfl : m' = m := by
      have := hmax m' hm'
      have := hmax' m hm
      omega
    have hnext := hodd.2 hodd'
    rw [hnext]
    refine ⟨by omega, by omega, fun id hid => ?_⟩
    rcases hfree id hid with h | h <;> omega

/-- The condition on the ids of an image, in their order, and a number of calls of `CreateChild`. -/
def Unused (ids : List Nat) (k : Nat) : Prop :=
  k = 0 ∨ (maxId ∈ ids → Odd (ascent ids maxId)) ∧ Follows ids (counted ids) k

theorem free_iff_unused (hnodup : ids.Nodup) (h0 : 0 ∉ ids) (hlt : ∀ id ∈ ids, id < 2 ^ 32)
    (hk : 0 < k) :
    Free ids (ids.foldl raiseNext 0) k ↔ (maxId ∈ ids → Odd (ascent ids maxId)) ∧ Follows ids (counted ids) k := by
  by_cases hmax : maxId ∈ ids
  · obtain ⟨pre, post, rfl, hpre, hpost, htake, hdrop⟩ := split_at hnodup hmax
    have hbelow : ∀ id ∈ pre ++ maxId :: post, id ≠ maxId → id < maxId := by
      intro id hid hne
      have := hlt id hid
      unfold maxId at hne ⊢
      omega
    have hprelt : ∀ id ∈ pre, id ≤ maxId - 1 := by
      intro id h
      have := hbelow id (by simp [h]) fun hid => hpre (hid ▸ h)
      omega
    have hpostlt : ∀ id ∈ post, id < maxId := fun id h => hbelow id (by simp [h]) fun hid => hpost (hid ▸ h)
    obtain ⟨hodd, hle, -⟩ := foldl_raiseNext_spec (m := maxId - 1) (by decide) (nodup_append.1 hnodup).1
      (fun h => h0 (by simp [h])) hprelt
    have hpred : maxId - 1 + 1 = maxId := by decide
    have hascent : ascent (pre ++ maxId :: post) maxId = ascent pre (maxId - 1) + 1 := by
      have h := ascent.eq_2 (pre ++ maxId :: post) (maxId - 1)
      rw [hpred, if_pos hmax, htake] at h
      exact h
    rw [hpred] at hodd hle
    have hcounted : counted (pre ++ maxId :: post) = post := by
      rw [counted, if_pos hmax, hdrop, tail_cons]
    rw [hascent, Nat.odd_add_one, ← hodd, hcounted, foldl_append, foldl_cons]
    by_cases hstuck : pre.foldl raiseNext 0 = maxId
    · -- the counter stays at `maxId`, which is taken
      have hnext : post.foldl raiseNext (raiseNext (pre.foldl raiseNext 0) maxId) = maxId := by
        have hraise : raiseNext (pre.foldl raiseNext 0) maxId = maxId := by
          rw [raiseNext, hstuck, if_neg (Nat.lt_irrefl _)]
        rw [hraise]
        exact foldl_raiseNext_of_le fun id h => Nat.le_of_lt (hpostlt id h)
      rw [hnext]
      constructor
      · rintro ⟨-, -, hfree⟩
        rcases hfree maxId hmax with h | h <;> omega
      · rintro ⟨h, -⟩
        exact absurd hstuck (h hmax)
    · have hraise : raiseNext (pre.foldl raiseNext 0) maxId = 0 := by
        have hlt' : maxId > pre.foldl raiseNext 0 := by omega
        rw [raiseNext, if_pos hlt', hpred.symm]
        decide
      rw [hraise, free_iff_follows (fun id h => by simp [h]) (nodup_cons.1 (nodup_append.1 hnodup).2.1).2
        (fun h => h0 (by simp [h])) hpostlt hk]
      exact ⟨fun h => ⟨fun _ => hstuck, h⟩, fun h => h.2⟩
  · have hlt' : ∀ id ∈ ids, id < maxId := by
      intro id hid
      have hne : id ≠ maxId := fun h => hmax (h ▸ hid)
      have := hlt id hid
      unfold maxId at hne ⊢
      omega
    rw [counted, if_neg hmax, free_iff_follows (List.Subset.refl ids) hnodup h0 hlt' hk]
    exact ⟨fun h => ⟨fun hm => absurd hm hmax, h⟩, fun h => h.2⟩

/-! ## New entries -/

namespace SkyRamDisk

theorem createChildren_concat (d : SkyRamDisk) (calls : List (Nat × List UInt8)) (call : Nat × List UInt8) :
    d.createChildren (calls ++ [call]) = (d.createChildren calls).createChild call.1 call.2 := by
  simp [createChildren]

variable {d : SkyRamDisk}

theorem next_createChildren (hd : d.next_unused_id < 2 ^ 32) (calls : List (Nat × List UInt8)) :
    (d.createChildren calls).next_unused_id = u32 (d.next_unused_id + calls.length) := by
  induction calls using List.reverseRecOn with
  | nil => exact (u32_of_lt hd).symm
  | append_singleton calls call ih =>
    rw [createChildren_concat, createChild, ih, length_append, length_singleton]
    dsimp only
    unfold u32
    omega

/-- The ids of the entries that were in the list, and of the new ones. -/
theorem mem_ids_createChildren (hd : d.next_unused_id < 2 ^ 32) (calls : List (Nat × List UInt8))
    (id : Nat) : id ∈ (d.createChildren calls).ids ↔
      id ∈ d.ids ∨ ∃ i < calls.length, id = u32 (d.next_unused_id + i) := by
  induction calls using List.reverseRecOn with
  | nil => simp [createChildren]
  | append_singleton calls call ih =>
    have hids : (d.createChildren (calls ++ [call])).ids =
        (d.createChildren calls).next_unused_id :: (d.createChildren calls).ids := by
      rw [createChildren_concat]
      rfl
    rw [hids, mem_cons, ih, next_createChildren hd, length_append, length_singleton]
    constructor
    · rintro (rfl | h | ⟨i, hi, rfl⟩)
      · exact .inr ⟨calls.length, by omega, rfl⟩
      · exact .inl h
      · exact .inr ⟨i, by omega, rfl⟩
    · rintro (h | ⟨i, hi, rfl⟩)
      · exact .inr (.inl h)
      · rcases Nat.lt_succ_iff_lt_or_eq.1 hi with h | rfl
        · exact .inr (.inr ⟨i, h, rfl⟩)
        · exact .inl rfl

theorem uniqueIds_createChildren (hd : d.next_unused_id < 2 ^ 32) (hunique : d.UniqueIds)
    (calls : List (Nat × List UInt8)) :
    (d.createChildren calls).UniqueIds ↔ calls.length = 0 ∨ Free d.ids d.next_unused_id calls.length := by
  induction calls using List.reverseRecOn with
  | nil => simpa [createChildren] using hunique
  | append_singleton calls call ih =>
    have hstep : (d.createChildren (calls ++ [call])).UniqueIds ↔
        (d.createChildren calls).UniqueIds ∧ u32 (d.next_unused_id + calls.length) ∉ (d.createChildren calls).ids ∧
          u32 (d.next_unused_id + calls.length) ≠ 0 := by
      have hids : (d.createChildren (calls ++ [call])).ids =
          u32 (d.next_unused_id + calls.length) :: (d.createChildren calls).ids := by
        rw [← next_createChildren hd, createChildren_concat]
        rfl
      rw [UniqueIds, UniqueIds, hids, nodup_cons, mem_cons]
      tauto
    rw [hstep, ih, mem_ids_createChildren hd, length_append, length_singleton]
    generalize d.next_unused_id = next at hd
    generalize calls.length = k
    constructor
    · rintro ⟨hfree, hnew, hne⟩
      have hpos : 0 < next ∧ next + k ≤ 2 ^ 32 ∧ ∀ id ∈ d.ids, id < next ∨ next + k ≤ id := by
        rcases hfree with rfl | h
        · have hu : u32 (next + 0) = next := u32_of_lt hd
          rw [hu] at hne
          exact ⟨by omega, by omega, fun id _ => by omega⟩
        · exact h
      obtain ⟨hpos, hwrap, hfree⟩ := hpos
      have hlast : next + k < 2 ^ 32 := by
        refine Nat.lt_of_le_of_ne hwrap fun h => ?_
        rw [h] at hne
        exact hne rfl
      rw [u32_of_lt hlast] at hnew
      refine .inr ⟨hpos, by omega, fun id hid => ?_⟩
      have hne' : id ≠ next + k := fun h => hnew (.inl (h ▸ hid))
      rcases hfree id hid with h | h <;> omega
    · rintro (h | ⟨hpos, hwrap, hfree⟩)
      · omega
      · have hu : u32 (next + k) = next + k := u32_of_lt (by omega)
        rw [hu]
        refine ⟨.inr ⟨hpos, by omega, fun id hid => ?_⟩, ?_, by omega⟩
        · rcases hfree id hid with h | h <;> omega
        · rintro (hid | ⟨i, hi, heq⟩)
          · rcases hfree _ hid with h | h <;> omega
          · rw [u32_of_lt (by omega)] at heq
            omega

end SkyRamDisk

theorem foldl_raiseNext_lt (ids : List Nat) (h : next < 2 ^ 32) : ids.foldl raiseNext next < 2 ^ 32 := by
  induction ids generalizing next with
  | nil => exact h
  | cons id ids ih =>
    rw [foldl_cons]
    apply ih
    unfold raiseNext
    split
    · exact u32_lt _
    · exact h

/-- **Id uniqueness.** After an image with distinct ids, none of them zero, has been loaded, calls of `CreateChild`
keep the ids distinct exactly when the greatest id ended an ascent of odd length. -/
theorem uniqueIds_iff {mem : Memory} {start : Nat} (records : List Record) (hfits : ∀ r ∈ records, r.Fits)
    (hnodup : (records.map Record.id).Nodup) (h0 : 0 ∉ records.map Record.id)
    (hmem : Holds mem start (encode records)) (hend : start + (encode records).length < 2 ^ 32) (rounds : Nat)
    (hrounds : records.length ≤ rounds) (calls : List (Nat × List UInt8)) :
    ∃ disk pos, load mem ⟨start, start + (encode records).length⟩ rounds = some (disk, pos) ∧
      ((disk.createChildren calls).UniqueIds ↔ Unused (records.map Record.id) calls.length) := by
  obtain ⟨disk, hload, hrecords, hnext⟩ := load_encode hfits hmem hend hrounds
  have hids : disk.ids = records.map Record.id := by
    rw [← hrecords, List.map_map]
    rfl
  have hlt : ∀ id ∈ records.map Record.id, id < 2 ^ 32 := by
    intro id hid
    obtain ⟨r, hr, rfl⟩ := List.mem_map.1 hid
    exact (hfits r hr).id
  have hunique : disk.UniqueIds := by rw [SkyRamDisk.UniqueIds, hids]; exact ⟨hnodup, h0⟩
  refine ⟨disk, _, hload, ?_⟩
  rw [SkyRamDisk.uniqueIds_createChildren (by rw [hnext]; exact foldl_raiseNext_lt _ (by decide)) hunique, hids, hnext,
    Unused]
  rcases Nat.eq_zero_or_pos calls.length with hk | hk
  · simp [hk]
  · rw [free_iff_unused hnodup h0 hlt hk]

def threeRecords : List Record :=
  [⟨0, 1, 0, [0x64], []⟩, ⟨1, 2, 1, [0x61], [7, 8]⟩, ⟨1, 3, 1, [0x62], []⟩]

theorem fits_threeRecords : ∀ r ∈ threeRecords, r.Fits := by
  intro r hr
  simp only [threeRecords, mem_cons, not_mem_nil, or_false] at hr
  rcases hr with rfl | rfl | rfl <;> constructor <;> decide

theorem uniqueIds_threeRecords :
    ∃ disk pos, load (ofList 4096 (encode threeRecords)) ⟨4096, 4096 + (encode threeRecords).length⟩ 3 =
        some (disk, pos) ∧ (disk.createChildren [(1, [0x63]), (0, [0x64])]).UniqueIds := by
  obtain ⟨disk, pos, hload, hiff⟩ := uniqueIds_iff threeRecords fits_threeRecords (by decide) (by decide)
    (holds_ofList 4096 _) (by decide) 3 (by decide) [(1, [0x63]), (0, [0x64])]
  exact ⟨disk, pos, hload, hiff.2 (.inr ⟨by decide, 3, by decide, by decide, by decide, by decide, by decide⟩)⟩

/-- A folder with one file: the first new entry gets the id of the file, which `FindById` no longer finds. -/
theorem uniqueIds_twoRecords :
    (load (ofList 4096 (encode (threeRecords.take 2))) ⟨4096, 4096 + (encode (threeRecords.take 2)).length⟩ 2).any
      (fun loaded => decide (loaded.1.ids = [1, 2] ∧ ¬ (loaded.1.createChildren [(0, [0x63])]).UniqueIds ∧
        ((loaded.1.createChildren [(0, [0x63])]).findById 2).map RamDiskEntry.name = some [0x63])) = true := by
  decide +kernel

end RamDisk
