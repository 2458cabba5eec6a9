import SkyOS.RamDisk.SkyRamDisk

/-!
# The program that writes RAM disks (`RamDiskWriter.cpp`)

`WriteRecursive` numbers the files and folders below a source folder in the order in which it meets them, and writes
a record for each; the source folder has id 0 and no record.

| here | there |
| --- | --- |
| `Node` | what `stat` finds at an entry of a folder |
| `Node.folder name entries` | a folder, with what `readdir` lists of it, `.` and `..` as well |
| `writeRecursive`, `writeEntries` | `WriteRecursive` and its loop over a folder (:208) |
| `none` | a write behind `entryPath`, or an overflow of `idCounter` |

The path of an entry is put together in a stream and taken out of it with `>>`, which ends at white space and knows
nothing of the 260 characters of `entryPath`.
-/

namespace RamDisk

open Machine Bytes List Option

/-! ## The source -/

abbrev Path := List UInt8

/-- What the tree has below an entry. `.` and `..` are folders without entries: nothing below them is read. -/
inductive Node where
  | file (name : Path) (content : List UInt8)
  | folder (name : Path) (entries : List Node)

namespace Node

def name : Node → Path
  | file name _ => name
  | folder name _ => name

/-- The folders that :227 leaves out. -/
def isDots : Node → Bool
  | file _ _ => false
  | folder name _ => name = [0x2E] || name = [0x2E, 0x2E]

end Node

/-- White space for `>>`: blank, and tab to carriage return. -/
def isSpace (c : UInt8) : Bool := c = 0x20 || (0x09 ≤ c && c ≤ 0x0D)

/-- What `str << path << '/' << entry->d_name` holds. -/
def joinPath (path name : Path) : Path := path ++ 0x2F :: name

/-- `str >> entryPath` (:216): the first word, if it and its end fit the 260 characters. -/
def entryPath (path name : Path) : Option Path :=
  let word := ((joinPath path name).dropWhile isSpace).takeWhile fun c => !isSpace c
  if word.length < 260 then some word else none

/-- `idCounter++` on an `int`. -/
def nextId (idCounter : Nat) : Option Nat := if idCounter + 1 < 2 ^ 31 then some (idCounter + 1) else none

/-- The record up to the name (:151-:181), which the root has not. -/
def writeHeader (entryId parentId : Nat) (name : Path) (isFile : Bool) : List UInt8 :=
  if entryId > 0 then
    [if isFile then 1 else 0] ++ (leBytes entryId 4 ++ (leBytes parentId 4 ++ (leBytes name.length 4 ++ name)))
  else []

/-- `bufferSize`. -/
def bufferSize : Nat := 0x10000

/-- The loop that copies the file (:196): a short read ends it. -/
def copyLoop : Nat → List UInt8 → List UInt8
  | 0, _ => []
  | rounds + 1, input =>
    input.take bufferSize ++ if (input.take bufferSize).length = bufferSize then copyLoop rounds (input.drop bufferSize)
      else []

/-- The content of a file, with its length before it (:183-:202). -/
def writeContent (content : List UInt8) : List UInt8 :=
  leBytes (u32 content.length) 4 ++ copyLoop (content.length / bufferSize + 1) content

mutual

/-- `WriteRecursive` (:105): the id counter afterwards, and what is written. -/
def writeRecursive (idCounter parentId : Nat) (path : Path) : Node → Option (Nat × List UInt8)
  | .file name content => do
    let next ← nextId idCounter
    return (next, writeHeader idCounter parentId name true ++ writeContent content)
  | .folder name entries => do
    let next ← nextId idCounter
    let (next, bytes) ← writeEntries next idCounter path entries
    return (next, writeHeader idCounter parentId name false ++ bytes)

/-- The loop over the entries of a folder. A path that lost a part names nothing, and ends it. -/
def writeEntries (idCounter entryId : Nat) (path : Path) : List Node → Option (Nat × List UInt8)
  | [] => some (idCounter, [])
  | entry :: entries =>
    match entryPath path entry.name with
    | none => none
    | some found =>
      if found = joinPath path entry.name then
        if entry.isDots then writeEntries idCounter entryId path entries
        else do
          let (next, bytes) ← writeRecursive idCounter entryId found entry
          let (next, rest) ← writeEntries next entryId path entries
          return (next, bytes ++ rest)
      else some (idCounter, [])

end

/-- `Create` (:86), of the folder at `sourcePath`. -/
def create (sourcePath : Path) (entries : List Node) : Option (List UInt8) :=
  (writeRecursive 0 0 sourcePath (.folder [] entries)).map Prod.snd

/-! ## The tree as a list

The files and folders in pre-order, numbered in that order, each with the number of its folder. -/

mutual

def listNode (id parentid : Nat) : Node → List Record
  | .file name content => [⟨G_RAMDISK_ENTRY_TYPE_FILE, id, parentid, name, content⟩]
  | .folder name entries => ⟨G_RAMDISK_ENTRY_TYPE_FOLDER, id, parentid, name, []⟩ :: listNodes (id + 1) id entries

def listNodes (id parentid : Nat) : List Node → List Record
  | [] => []
  | entry :: entries =>
    if entry.isDots then listNodes id parentid entries
    else listNode id parentid entry ++ listNodes (id + (listNode id parentid entry).length) parentid entries

end

/-- Every parent is the root or a folder before the record. -/
def ParentsFirst : List Nat → List Record → Prop
  | _, [] => True
  | folders, r :: records =>
    r.parentid ∈ folders ∧ ParentsFirst (if r.type = G_RAMDISK_ENTRY_TYPE_FOLDER then r.id :: folders else folders) records

mutual

def fitsNode (path : Path) : Node → Bool
  | .file _ _ => true
  | .folder _ entries => fitsNodes path entries

/-- The paths that the writer puts together below `path` are shorter than 260 characters. -/
def fitsNodes (path : Path) : List Node → Bool
  | [] => true
  | entry :: entries =>
    (joinPath path entry.name).length < 260 && (entry.isDots || fitsNode (joinPath path entry.name) entry) &&
      fitsNodes path entries

end

mutual

def plainNode : Node → Bool
  | .file name content => name.all (fun c => !isSpace c) && decide (content.length < 2 ^ 32)
  | .folder name entries => name.all (fun c => !isSpace c) && plainNodes entries

/-- No name has white space, and no file has `2^32` bytes or more. -/
def plainNodes : List Node → Bool
  | [] => true
  | entry :: entries => plainNode entry && plainNodes entries

end

/-! ## What is written -/

theorem copyLoop_eq (rounds : Nat) (input : List UInt8) (h : input.length < rounds * bufferSize) :
    copyLoop rounds input = input := by
  induction rounds generalizing input with
  | zero => simp at h
  | succ rounds ih =>
    rw [copyLoop]
    split
    · rename_i hfull
      rw [length_take] at hfull
      rw [ih _ (by rw [length_drop, Nat.succ_mul] at *; omega), take_append_drop]
    · rename_i hshort
      rw [length_take] at hshort
      rw [append_nil, take_of_length_le (by omega)]

theorem writeContent_eq {content : List UInt8} (h : content.length < 2 ^ 32) :
    writeContent content = leBytes content.length 4 ++ content := by
  rw [writeContent, u32_of_lt h, copyLoop_eq]
  rw [Nat.mul_comm]
  exact Nat.lt_mul_div_succ _ (by decide)

variable {path name : Path}

theorem entryPath_of_plain (hpath : path.all fun c => !isSpace c)
    (hname : name.all fun c => !isSpace c) :
    entryPath path name = if (joinPath path name).length < 260 then some (joinPath path name) else none := by
  have hall : ∀ c ∈ joinPath path name, isSpace c = false := by
    intro c hc
    rw [List.all_eq_true] at hpath hname
    rcases mem_append.1 hc with h | h
    · simpa using hpath c h
    · rcases mem_cons.1 h with rfl | h
      · decide
      · simpa using hname c h
  have hdrop : (joinPath path name).dropWhile isSpace = joinPath path name := by
    rcases hj : joinPath path name with _ | ⟨c, rest⟩
    · rfl
    · rw [dropWhile_cons_of_neg]
      rw [hall c (by simp [hj])]
      simp
  have htake : (joinPath path name).takeWhile (fun c => !isSpace c) = joinPath path name := by
    rw [takeWhile_eq_self_iff]
    intro c hc
    rw [hall c hc]
    rfl
  rw [entryPath, hdrop, htake]

theorem entryPath_of_space (hpath : ¬ (path.all fun c => !isSpace c) = true) {found : Path}
    (h : entryPath path name = some found) : found ≠ joinPath path name := by
  rintro rfl
  unfold entryPath at h
  dsimp only at h
  split at h
  · have hword := Option.some.inj h
    apply hpath
    rw [List.all_eq_true]
    intro c hc
    have hmem : c ∈ joinPath path name := mem_append_left _ hc
    rw [← hword] at hmem
    exact mem_takeWhile_imp (p := fun c => !isSpace c) hmem
  · cases h

theorem plain_joinPath (hpath : (path.all fun c => !isSpace c) = true)
    (hname : (name.all fun c => !isSpace c) = true) : ((joinPath path name).all fun c => !isSpace c) = true := by
  rw [joinPath, all_append, all_cons, hpath, hname]
  decide

theorem plain_name {node : Node} (h : plainNode node = true) : (node.name.all fun c => !isSpace c) = true := by
  cases node <;> simp only [plainNode, Bool.and_eq_true] at h <;> exact h.1

theorem encode_append (xs ys : List Record) : encode (xs ++ ys) = encode xs ++ encode ys := by
  simp [encode]

def written (fits : Bool) (idCounter : Nat) (records : List Record) : Option (Nat × List UInt8) :=
  if fits = true ∧ idCounter + records.length < 2 ^ 31 then some (idCounter + records.length, encode records) else none

theorem written_append (fits fits' : Bool) (idCounter : Nat) (records records' : List Record) :
    ((written fits idCounter records).bind fun p => (written fits' p.1 records').bind fun q =>
      some (q.1, p.2 ++ q.2)) = written (fits && fits') idCounter (records ++ records') := by
  unfold written
  by_cases h : fits = true ∧ idCounter + records.length < 2 ^ 31
  · rw [if_pos h]
    simp only [bind_some, h.1, Bool.true_and, length_append, encode_append, Nat.add_assoc]
    split <;> rfl
  · rw [if_neg h, if_neg]
    · rfl
    · rw [Bool.and_eq_true, length_append]
      rintro ⟨⟨hf, -⟩, hlt⟩
      exact h ⟨hf, by omega⟩

theorem written_singleton (idCounter : Nat) (r : Record) :
    written true idCounter [r] = (nextId idCounter).map fun next => (next, r.encode) := by
  unfold written nextId
  simp only [true_and, length_singleton]
  split <;> simp [encode]

theorem writeHeader_eq {entryId : Nat} (h : 0 < entryId) (parentId : Nat) (name : Path) (isFile : Bool)
    (content : List UInt8) :
    writeHeader entryId parentId name isFile = Record.header ⟨if isFile then 1 else 0, entryId, parentId, name, content⟩ :=
  if_pos h

mutual

theorem writeRecursive_spec : ∀ (node : Node) (idCounter parentId : Nat) {path : Path}, 0 < idCounter →
    (path.all fun c => !isSpace c) = true → plainNode node = true →
    writeRecursive idCounter parentId path node =
      written (fitsNode path node) idCounter (listNode idCounter parentId node)
  | .file name content, idCounter, parentId, path, hid, hpath, hplain => by
    simp only [plainNode, Bool.and_eq_true, decide_eq_true_eq] at hplain
    rw [writeRecursive, fitsNode, listNode, written_singleton, writeContent_eq hplain.2, writeHeader_eq hid _ _ _ content]
    cases nextId idCounter <;> rfl
  | .folder name entries, idCounter, parentId, path, hid, hpath, hplain => by
    simp only [plainNode, Bool.and_eq_true] at hplain
    have hhead := written_append true (fitsNodes path entries) idCounter
      [⟨G_RAMDISK_ENTRY_TYPE_FOLDER, idCounter, parentId, name, []⟩] (listNodes (idCounter + 1) idCounter entries)
    rw [written_singleton, Bool.true_and, singleton_append] at hhead
    rw [writeRecursive, fitsNode, listNode, ← hhead, writeHeader_eq hid _ _ _ []]
    by_cases hlt : idCounter + 1 < 2 ^ 31
    · have ih : writeEntries (idCounter + 1) idCounter path entries =
          written (fitsNodes path entries) (idCounter + 1) (listNodes (idCounter + 1) idCounter entries) :=
        writeEntries_spec entries _ _ (by omega) hlt hpath hplain.2
      have hkind : G_RAMDISK_ENTRY_TYPE_FOLDER ≠ G_RAMDISK_ENTRY_TYPE_FILE := by decide
      have hfolder : Record.encode ⟨G_RAMDISK_ENTRY_TYPE_FOLDER, idCounter, parentId, name, []⟩ =
          Record.header ⟨G_RAMDISK_ENTRY_TYPE_FOLDER, idCounter, parentId, name, []⟩ := by
        rw [Record.encode, if_neg hkind, append_nil]
      rw [nextId, if_pos hlt, hfolder]
      simp only [bind_eq_bind, bind_some, map_some, ih]
      rfl
    · rw [nextId, if_neg hlt]
      rfl

theorem writeEntries_spec : ∀ (entries : List Node) (idCounter entryId : Nat) {path : Path}, 0 < idCounter →
    idCounter < 2 ^ 31 → (path.all fun c => !isSpace c) = true → plainNodes entries = true →
    writeEntries idCounter entryId path entries =
      written (fitsNodes path entries) idCounter (listNodes idCounter entryId entries)
  | [], idCounter, entryId, path, hid, hlt, hpath, hplain => by
    rw [writeEntries, fitsNodes, listNodes, written, if_pos ⟨rfl, hlt⟩]
    rfl
  | entry :: entries, idCounter, entryId, path, hid, hlt, hpath, hplain => by
    simp only [plainNodes, Bool.and_eq_true] at hplain
    have hname := plain_name hplain.1
    rw [writeEntries, entryPath_of_plain hpath hname, fitsNodes, listNodes]
    by_cases hfit : (joinPath path entry.name).length < 260
    · rw [if_pos hfit, decide_eq_true hfit, Bool.true_and]
      dsimp only
      rw [if_pos rfl]
      by_cases hdots : entry.isDots = true
      · rw [if_pos hdots, if_pos hdots, hdots, Bool.true_or, Bool.true_and]
        exact writeEntries_spec entries _ _ hid hlt hpath hplain.2
      · have ih := writeRecursive_spec entry idCounter entryId hid
          (plain_joinPath hpath hname) hplain.1
        rw [if_neg hdots, if_neg hdots, ih, Bool.eq_false_iff.2 hdots, Bool.false_or, ← written_append]
        -- the rest starts with the id after the entry's own
        by_cases hentry : fitsNode (joinPath path entry.name) entry = true ∧
            idCounter + (listNode idCounter entryId entry).length < 2 ^ 31
        · have hrest := writeEntries_spec entries (idCounter + (listNode idCounter entryId entry).length) entryId
            (by omega) hentry.2 hpath hplain.2
          rw [written, if_pos hentry]
          simp only [bind_eq_bind, bind_some, hrest]
          rfl
        · rw [written, if_neg hentry]
          rfl
    · rw [if_neg hfit, decide_eq_false hfit, Bool.false_and, Bool.false_and, written, if_neg]
      rintro ⟨h, -⟩
      cases h

end

/-! ## What the list is -/

mutual

theorem ids_listNode : ∀ (node : Node) (id parentid : Nat),
    (listNode id parentid node).map Record.id = List.range' id (listNode id parentid node).length
  | .file name content, id, parentid => rfl
  | .folder name entries, id, parentid => by
    rw [listNode, map_cons, length_cons, ids_listNodes entries, List.range'_succ]

/-- The ids are consecutive. -/
theorem ids_listNodes : ∀ (entries : List Node) (id parentid : Nat),
    (listNodes id parentid entries).map Record.id = List.range' id (listNodes id parentid entries).length
  | [], id, parentid => rfl
  | entry :: entries, id, parentid => by
    rw [listNodes]
    split
    · exact ids_listNodes entries id parentid
    · rw [map_append, ids_listNode entry, ids_listNodes entries, length_append, ← List.range'_append_1]

end

variable {folders : List Nat} {entries : List Node}

theorem ParentsFirst.weaken {folders' : List Nat} {records : List Record} (h : ParentsFirst folders records)
    (hsub : folders ⊆ folders') : ParentsFirst folders' records := by
  induction records generalizing folders folders' with
  | nil => trivial
  | cons r records ih =>
    obtain ⟨hr, hrest⟩ := h
    refine ⟨hsub hr, ih hrest ?_⟩
    split
    · exact cons_subset_cons r.id hsub
    · exact hsub

theorem ParentsFirst.append {xs ys : List Record} (hx : ParentsFirst folders xs)
    (hy : ParentsFirst folders ys) : ParentsFirst folders (xs ++ ys) := by
  induction xs generalizing folders with
  | nil => exact hy
  | cons r xs ih =>
    obtain ⟨hr, hrest⟩ := hx
    refine ⟨hr, ih hrest (hy.weaken ?_)⟩
    split
    · exact subset_cons_self _ _
    · exact List.Subset.refl _

mutual

theorem parentsFirst_listNode : ∀ (node : Node) (id : Nat) {parentid : Nat} {folders : List Nat}, parentid ∈ folders →
    ParentsFirst folders (listNode id parentid node)
  | .file name content, id, parentid, folders, h => ⟨h, trivial⟩
  | .folder name entries, id, parentid, folders, h => ⟨h, parentsFirst_listNodes entries (id + 1) (by simp)⟩

/-- Every record comes after that of its folder. -/
theorem parentsFirst_listNodes : ∀ (entries : List Node) (id : Nat) {parentid : Nat} {folders : List Nat},
    parentid ∈ folders → ParentsFirst folders (listNodes id parentid entries)
  | [], id, parentid, folders, h => trivial
  | entry :: entries, id, parentid, folders, h => by
    rw [listNodes]
    split
    · exact parentsFirst_listNodes entries id h
    · exact (parentsFirst_listNode entry id h).append (parentsFirst_listNodes entries _ h)

end

mutual

theorem fits_listNode : ∀ (node : Node) {id parentid : Nat} {path : Path}, node.name.length < 2 ^ 32 →
    fitsNode path node = true → plainNode node = true → parentid < 2 ^ 32 →
    id + (listNode id parentid node).length ≤ 2 ^ 32 → ∀ r ∈ listNode id parentid node, r.Fits
  | .file name content, id, parentid, path, hname, hfits, hplain, hparent, hid => by
    simp only [plainNode, Bool.and_eq_true, decide_eq_true_eq] at hplain
    simp only [listNode, length_singleton, mem_singleton] at hid ⊢
    rintro r rfl
    exact ⟨by dsimp only; omega, hparent, hname, hplain.2, fun h => absurd rfl h⟩
  | .folder name entries, id, parentid, path, hname, hfits, hplain, hparent, hid => by
    simp only [plainNode, Bool.and_eq_true] at hplain
    simp only [listNode, length_cons, mem_cons] at hid ⊢
    rintro r (rfl | hr)
    · exact ⟨by dsimp only; omega, hparent, hname, by simp, fun _ => rfl⟩
    · exact fits_listNodes entries hfits hplain.2 (by omega) (by omega) r hr

theorem fits_listNodes : ∀ (entries : List Node) {id parentid : Nat} {path : Path}, fitsNodes path entries = true →
    plainNodes entries = true → parentid < 2 ^ 32 → id + (listNodes id parentid entries).length ≤ 2 ^ 32 →
    ∀ r ∈ listNodes id parentid entries, r.Fits
  | [], id, parentid, path, hfits, hplain, hparent, hid => by simp [listNodes]
  | entry :: entries, id, parentid, path, hfits, hplain, hparent, hid => by
    simp only [fitsNodes, Bool.and_eq_true, decide_eq_true_eq] at hfits
    simp only [plainNodes, Bool.and_eq_true] at hplain
    rw [listNodes] at hid ⊢
    by_cases hdots : entry.isDots = true
    · rw [if_pos hdots] at hid ⊢
      exact fits_listNodes entries hfits.2 hplain.2 hparent hid
    · rw [if_neg hdots, length_append] at hid
      rw [if_neg hdots]
      have hname : entry.name.length < 2 ^ 32 := by
        have := hfits.1.1
        rw [joinPath, length_append, length_cons] at this
        omega
      have hentry : fitsNode (joinPath path entry.name) entry = true := by
        have := hfits.1.2
        rw [Bool.or_eq_true] at this
        exact this.resolve_left hdots
      intro r hr
      rcases mem_append.1 hr with hr | hr
      · exact fits_listNode entry hname hentry hplain.1 hparent (by omega) r hr
      · exact fits_listNodes entries hfits.2 hplain.2 hparent (by omega) r hr

end

/-! ## Writer and loader -/

/-- The writer writes an image, and wherever it is in memory `Load` makes the entries of the tree of it and stops at
its end. -/
def RoundTrip (sourcePath : Path) (entries : List Node) : Prop :=
  ∃ image, create sourcePath entries = some image ∧
    ∀ mem start rounds, Holds mem start image → start + image.length < 2 ^ 32 →
      (listNodes 1 0 entries).length ≤ rounds →
      ∃ disk, load mem ⟨start, start + image.length⟩ rounds = some (disk, image.length) ∧
        disk.entries.map (RamDiskEntry.record mem) = listNodes 1 0 entries ∧
        ParentsFirst [0] (disk.entries.map (RamDiskEntry.record mem))

/-- The condition: a source path without white space, no path of 260 characters or more, and fewer files and folders
than an `int` counts. With white space in the source path nothing is written, which is right if there is nothing. -/
def Packs (sourcePath : Path) (entries : List Node) : Prop :=
  if (sourcePath.all fun c => !isSpace c) = true then
    fitsNodes sourcePath entries = true ∧ 1 + (listNodes 1 0 entries).length < 2 ^ 31
  else listNodes 1 0 entries = [] ∧ entries.head?.all (fun entry => (entryPath sourcePath entry.name).isSome) = true
  deriving Decidable

theorem create_eq (sourcePath : Path) (entries : List Node) :
    create sourcePath entries = (writeEntries 1 0 sourcePath entries).map Prod.snd := by
  have hnext : nextId 0 = some 1 := by decide
  have hroot : writeHeader 0 0 [] false = [] := rfl
  rw [create, writeRecursive, hnext, hroot]
  simp only [bind_eq_bind, bind_some, nil_append]
  cases writeEntries 1 0 sourcePath entries <;> rfl

theorem roundTrip_of_encode {sourcePath : Path}
    (hcreate : create sourcePath entries = some (encode (listNodes 1 0 entries)))
    (hfits : ∀ r ∈ listNodes 1 0 entries, r.Fits) : RoundTrip sourcePath entries := by
  refine ⟨_, hcreate, fun mem start rounds hmem hend hrounds => ?_⟩
  obtain ⟨disk, hload, hrecords, -⟩ := load_encode hfits hmem hend hrounds
  refine ⟨disk, hload, hrecords, ?_⟩
  rw [hrecords]
  exact parentsFirst_listNodes entries 1 (by simp)

/-- **Writer and loader agree** on every tree whose names have no white space, exactly when the paths can be read
back from the stream into the buffer. -/
theorem roundTrip_iff (sourcePath : Path) (entries : List Node) (hplain : plainNodes entries = true) :
    RoundTrip sourcePath entries ↔ Packs sourcePath entries := by
  unfold Packs
  by_cases hpath : (sourcePath.all fun c => !isSpace c) = true
  · have hspec := writeEntries_spec entries 1 0 (by decide) (by decide) hpath hplain
    rw [if_pos hpath]
    constructor
    · rintro ⟨image, hcreate, -⟩
      rw [create_eq, hspec] at hcreate
      by_contra hnot
      rw [written, if_neg hnot] at hcreate
      cases hcreate
    · intro hfits
      apply roundTrip_of_encode
      · rw [create_eq, hspec, written, if_pos hfits]
        rfl
      · exact fits_listNodes entries hfits.1 hplain (by decide) (by omega)
  · rw [if_neg hpath]
    rcases entries with _ | ⟨entry, entries⟩
    · refine iff_of_true (roundTrip_of_encode (create_eq _ _) fun r hr => ?_) ⟨rfl, rfl⟩
      simp [listNodes] at hr
    · rcases hfound : entryPath sourcePath entry.name with _ | found
      · have hnone : create sourcePath (entry :: entries) = none := by
          rw [create_eq, writeEntries, hfound]
          rfl
        constructor
        · rintro ⟨image, hcreate, -⟩
          rw [hnone] at hcreate
          cases hcreate
        · rintro ⟨-, hhead⟩
          simp [hfound] at hhead
      · have hempty : create sourcePath (entry :: entries) = some [] := by
          rw [create_eq, writeEntries, hfound]
          dsimp only
          rw [if_neg (entryPath_of_space hpath hfound)]
          rfl
        constructor
        · rintro ⟨image, hcreate, hload⟩
          obtain rfl : [] = image := Option.some.inj (hempty.symm.trans hcreate)
          obtain ⟨disk, hdisk, hlist, -⟩ := hload (ofList 0 []) 0 _ rfl (by decide) (Nat.le_refl _)
          obtain ⟨disk', hdisk', hrecords, -⟩ := @load_encode (ofList 0 []) 0 [] (by simp) rfl (by decide) _
            (Nat.zero_le (listNodes 1 0 (entry :: entries)).length)
          have hsame : disk = disk' := congrArg Prod.fst (Option.some.inj (hdisk.symm.trans hdisk'))
          rw [hsame] at hlist
          have hrecords' : disk'.entries.map (RamDiskEntry.record (ofList 0 [])) = [] := hrecords
          exact ⟨by rw [← hlist, hrecords'], by simp [hfound]⟩
        · rintro ⟨hnone, -⟩
          apply roundTrip_of_encode
          · rw [hempty, hnone]
            rfl
          · rw [hnone]
            simp

/-- A folder `src` as it is listed: `.`, `..`, a file `a`, and a folder `d` with an empty file. -/
def smallTree : List Node :=
  [.folder [0x2E] [], .folder [0x2E, 0x2E] [], .file [0x61] [1, 2, 3], .folder [0x64] [.folder [0x2E] [], .file [0x62] []]]

theorem roundTrip_smallTree : RoundTrip [0x73, 0x72, 0x63] smallTree :=
  (roundTrip_iff [0x73, 0x72, 0x63] smallTree (by decide)).2 (by decide)

/-- The same tree in a folder `my src`: the image is empty. -/
theorem roundTrip_space : plainNodes smallTree = true ∧ ¬ RoundTrip [0x6D, 0x79, 0x20, 0x73, 0x72, 0x63] smallTree := by
  refine ⟨by decide, ?_⟩
  rintro ⟨image, hcreate, hload⟩
  have hempty : create [0x6D, 0x79, 0x20, 0x73, 0x72, 0x63] smallTree = some [] := by decide
  obtain rfl : [] = image := Option.some.inj (hempty.symm.trans hcreate)
  obtain ⟨disk, hdisk, hlist, -⟩ := hload (ofList 0 []) 0 3 rfl (by decide) (by decide)
  have hnone : load (ofList 0 []) ⟨0, 0⟩ 3 = some (SkyRamDisk.empty, 0) := by decide
  have hsame : disk = SkyRamDisk.empty := congrArg Prod.fst (Option.some.inj (hdisk.symm.trans hnone))
  have hlen := congrArg List.length hlist
  rw [hsame] at hlen
  exact absurd hlen (by decide)

end RamDisk
