import SkyOS.Fat32.Directory

/-!
# Finding the entry of a path (`fat32.cpp:364`)

`GetDirectoryEntry` peels the directories off `Dir` one by one and looks for each in the one before, by the characters
that the path has for it. The loop ends on the character behind the last separator, which it reads through `NextDir`:
that is the null pointer after a search that has met no separator. A path with one directory comes there, because its
first directory has been peeled off before the loop; a path without a directory is taken from what `Dir` held before.

| here | there |
| --- | --- |
| `Garbage` | what the memory holds that nothing has been written to |
| the results of `getDirectoryEntry` | the entry, if one is returned, and the entries that the callback took |
| `none` | an access outside a buffer, or a chain that goes on for more than `rounds` rounds |
| `Resolves` | what is expected of a path, whatever the garbage |
| `Resolvable` | when the code does it |
-/

namespace Fat32

open Machine Bytes List

/-! ## The source -/

structure Garbage where
  /-- The 256 bytes of `Dir`. -/
  dir : List UInt8
  dir_length : dir.length = 256
  file11 : UInt8
  /-- Where `kmalloc` puts a block. -/
  heap : Memory

/-- `Dir` with a string in it. -/
def Garbage.buffer (garbage : Garbage) (dir : Str) : List UInt8 := dir ++ 0 :: garbage.dir.drop (dir.length + 1)

section Source

variable (disk : HardDisk) (drives : UInt8 → Option FATInfo) (garbage : Garbage) (rounds : Nat)

def searchRoot (drive : UInt8) (fileName : Str) : Option (Option DirEntry) :=
  outcome (enumerateFilesInRoot disk drives rounds drive (findFileInEnumeration garbage.file11 fileName) garbage.heap)

def searchFolder (drive : UInt8) (deInfo : DirEntry) (fileName : Str) : Option (Option DirEntry) :=
  outcome (enumerateFilesInFolder disk drives rounds drive deInfo (findFileInEnumeration garbage.file11 fileName)
    garbage.heap)

/-- The loop over the directories and the search for the file (:400), for `n` directories at most. -/
def descend (drive : UInt8) (szFile : Str) : Nat → List UInt8 → DirEntry → Option (Option DirEntry × List DirEntry)
  | 0, _, _ => none
  | n + 1, nextDir, deInfo =>
    match splitFirstDirectory (nextDir.drop 1) with
    | none => none
    | some (curDir, nextDir) =>
      -- `CurDir` has 13 bytes
      if 13 ≤ curDir.length then none
      else
        match searchFolder disk drives garbage rounds drive deInfo curDir with
        | none => none
        | some none => some (none, [])
        | some (some deInfo) =>
          match nextDir with
          | none => none
          | some nextDir =>
            match nextDir.drop 1 with
            | [] => none
            | next :: _ =>
              (if next ≠ 0 then descend drive szFile n nextDir deInfo
                else if szFile.getD 1 0 ≠ 0 then
                  (searchFolder disk drives garbage rounds drive deInfo szFile).map fun result => (result, result.toList)
                else some (some deInfo, [])).map fun (result, taken) => (result, deInfo :: taken)

/-- `GetDirectoryEntry` (:364). -/
def getDirectoryEntry (filePath : Str) : Option (Option DirEntry × List DirEntry) :=
  let parts := splitPath filePath
  if 256 ≤ parts.dir.length ∨ 14 ≤ parts.name.length ∨ 5 ≤ parts.ext.length then none
  else
    let drive := parts.drive.getD 0 0
    let szFile := szFile parts.name parts.ext
    match splitFirstDirectory ((garbage.buffer parts.dir).drop 1) with
    | none => none
    | some (curDir, nextDir) =>
      if 13 ≤ curDir.length then none
      else if curDir = [] then
        (searchRoot disk drives garbage rounds drive szFile).map fun result => (result, result.toList)
      else
        match searchRoot disk drives garbage rounds drive curDir with
        | none => none
        | some none => some (none, [])
        | some (some deInfo) =>
          match nextDir with
          | none => none
          | some nextDir =>
            (descend disk drives garbage rounds drive szFile 256 nextDir deInfo).map fun (result, taken) =>
              (result, deInfo :: taken)

end Source

/-! ## What is expected -/

def AllExact : List Component → List DirEntry → Prop
  | _, [] => True
  | [], _ :: _ => False
  | c :: comps, de :: taken => Exact c de ∧ AllExact comps taken

/-- The call returns, without an access outside a buffer; it returns an entry if and only if the walk finds it; and it
takes no entry that has another name. -/
def Resolves (disk : HardDisk) (drives : UInt8 → Option FATInfo) (fi : FATInfo) (path : Path) : Prop :=
  ∀ garbage : Garbage, ∃ enough, ∀ rounds ≥ enough, ∃ result taken,
    getDirectoryEntry disk drives garbage rounds path.text = some (result, taken) ∧
      (∀ de, result = some de ↔ WalksTo disk fi fi.rootDirectory path.components de) ∧ AllExact path.components taken

/-! ## When the code does it -/

section Condition

variable (disk : HardDisk) (fi : FATInfo) (file11 : UInt8)

/-- What lies behind an entry that is no directory: nothing is found there, by exact matches. -/
def Misses : Directory → List Component → Prop
  | _, [] => False
  | dir, [file] => fi.scanDirectory disk (findFileInEnumeration file11 file.fileText) dir = .ended
  | dir, c :: c' :: cs =>
    match fi.scanDirectory disk (findFileInEnumeration file11 c.text) dir with
    | .offEnd => False
    | .ended => True
    | .accepted de => Exact c de ∧ Misses (.chain de.firstCluster) (c' :: cs)

/-- The first block of the directory comes to an end mark, with the name in it nowhere, or to an entry that begins as
the component does; this is the component's, and what follows goes well in it. -/
def Descends : Directory → List Component → Prop
  | _, [] => False
  | dir, [file] =>
    match fi.scanDirectory disk (findFileInEnumeration file11 file.fileText) dir with
    | .offEnd => False
    | .ended => ∀ de, ¬ WalksTo disk fi dir [file] de
    | .accepted de => Exact file de
  | dir, c :: c' :: cs =>
    match fi.scanDirectory disk (findFileInEnumeration file11 c.text) dir with
    | .offEnd => False
    | .ended => ∀ de, ¬ WalksTo disk fi dir (c :: c' :: cs) de
    | .accepted de => Exact c de ∧ (if de.isDirectory then Descends (.chain de.firstCluster) (c' :: cs)
        else Misses disk fi file11 (.chain de.firstCluster) (c' :: cs))

/-- With one directory, that has to be missing or empty: the loop takes any entry in it, and goes on to the null
pointer. -/
def DescendsOnce (dir : Directory) (c file : Component) : Prop :=
  match fi.scanDirectory disk (findFileInEnumeration file11 c.text) dir with
  | .offEnd => False
  | .ended => ∀ de, ¬ WalksTo disk fi dir [c, file] de
  | .accepted de => Exact c de ∧
      fi.scanDirectory disk (findFileInEnumeration file11 []) (.chain de.firstCluster) = .ended

/-- The path has a directory, its directories fit into `Dir`, and each look-up on the way goes well. -/
def Resolvable (path : Path) : Prop :=
  match path.dirs with
  | [] => False
  | [c] => ∀ file11, DescendsOnce disk fi file11 fi.rootDirectory c path.file
  | c :: c' :: cs => (Path.dirText (c :: c' :: cs)).length < 256 ∧
      ∀ file11, Descends disk fi file11 fi.rootDirectory (c :: c' :: cs ++ [path.file])

end Condition

/-! ## The look-ups of the code -/

def search (disk : HardDisk) (fi : FATInfo) (file11 : UInt8) :
    Directory → List Component → Option (Option DirEntry × List DirEntry)
  | _, [] => none
  | dir, [file] =>
    (fi.scanDirectory disk (findFileInEnumeration file11 file.fileText) dir).outcome.map fun result =>
      (result, result.toList)
  | dir, c :: c' :: cs =>
    match (fi.scanDirectory disk (findFileInEnumeration file11 c.text) dir).outcome with
    | none => none
    | some none => some (none, [])
    | some (some de) =>
      (search disk fi file11 (.chain de.firstCluster) (c' :: cs)).map fun (result, taken) => (result, de :: taken)

variable {c c' : Component} {cs : List Component} {de : DirEntry}

section LookUps

variable {disk : HardDisk} {fi : FATInfo} {drives : UInt8 → Option FATInfo} {garbage : Garbage} {drive : UInt8}

theorem searchRoot_eq (garbage : Garbage) (vol : FatVolume disk fi) (hdrive : drives drive = some fi) (rounds : Nat)
    (fileName : Str) :
    searchRoot disk drives garbage (rounds + 1) drive fileName
      = (fi.scanDirectory disk (findFileInEnumeration garbage.file11 fileName) fi.rootDirectory).outcome :=
  enumerateFilesInRoot_outcome vol hdrive _ rounds garbage.heap

theorem searchFolder_eq (vol : FatVolume disk fi) (hdrive : drives drive = some fi) (rounds : Nat) (de : DirEntry)
    (fileName : Str) :
    searchFolder disk drives garbage (rounds + 1) drive de fileName
      = (fi.scanDirectory disk (findFileInEnumeration garbage.file11 fileName) (.chain de.firstCluster)).outcome := by
  rw [searchFolder, enumerateFilesInFolder, hdrive]
  exact enumerateClusters_outcome vol _ rounds _ garbage.heap

theorem split_dirText (c : Component) (cs : List Component) (junk : List UInt8) :
    splitFirstDirectory ((Path.dirText (c :: cs) ++ junk).drop 1) = some (c.text, some (Path.dirText cs ++ junk)) := by
  have hdir : ∃ rest, Path.dirText cs = backslash :: rest := by
    cases cs with
    | nil => exact ⟨[], rfl⟩
    | cons c' cs => exact ⟨_, rfl⟩
  obtain ⟨rest, hrest⟩ := hdir
  have htail : (Path.dirText (c :: cs) ++ junk).drop 1 = c.text ++ backslash :: (rest ++ junk) := by
    have hcons : Path.dirText (c :: cs) = backslash :: (c.text ++ Path.dirText cs) := by simp [Path.dirText]
    rw [hcons, hrest]
    simp
  rw [htail, splitFirstDirectory_append (fun _ h => Component.text_plain h), hrest]
  rfl

theorem fileText_second (file : Component) : file.fileText.getD 1 0 ≠ 0 := by
  have hlen : 1 < file.fileText.length := by
    unfold Component.fileText szFile
    rw [if_neg file.name_ne_nil]
    split
    · simp; omega
    · simp; omega
  rw [getD_eq_getElem _ _ hlen]
  intro hzero
  have hmem : (0 : UInt8) ∈ file.fullName := file.fileText_prefix.subset (hzero ▸ getElem_mem hlen)
  rcases Component.mem_fullName hmem with h | h
  · exact absurd h (by decide)
  · exact absurd h (by decide)

theorem descend_eq (garbage : Garbage) (vol : FatVolume disk fi) (hdrive : drives drive = some fi) (rounds : Nat)
    (file : Component) (junk : List UInt8) (c : Component) (cs : List Component) {n : Nat} (hn : cs.length < n)
    (de : DirEntry) :
    descend disk drives garbage (rounds + 1) drive file.fileText n (Path.dirText (c :: cs) ++ 0 :: junk) de
      = search disk fi garbage.file11 (.chain de.firstCluster) (c :: cs ++ [file]) := by
  induction cs generalizing c n de with
  | nil =>
    obtain ⟨n, rfl⟩ : ∃ k, n = k + 1 := ⟨n - 1, by omega⟩
    have hlen := c.length_text_le
    rw [descend, split_dirText]
    dsimp only
    rw [if_neg (by omega), searchFolder_eq vol hdrive, singleton_append, search]
    cases fi.scanDirectory disk (findFileInEnumeration garbage.file11 c.text) (.chain de.firstCluster) with
    | offEnd => rfl
    | ended => rfl
    | accepted de =>
      dsimp only [Scan.outcome]
      change (if (0 : UInt8) ≠ 0 then _ else _ : Option (Option DirEntry × List DirEntry)).map _ = _
      rw [if_neg (by simp), if_pos (fileText_second file), searchFolder_eq vol hdrive, search]
  | cons c' cs ih =>
    obtain ⟨n, rfl⟩ : ∃ k, n = k + 1 := ⟨n - 1, by omega⟩
    have hlen := c.length_text_le
    obtain ⟨x, text, htext⟩ := exists_cons_of_ne_nil c'.text_ne_nil
    have hx : x ≠ 0 := (Component.text_plain (c := c') (htext ▸ (.head _))).1
    have hnext : ∃ rest, (Path.dirText (c' :: cs) ++ 0 :: junk).drop 1 = x :: rest := by
      simp [Path.dirText, htext]
    obtain ⟨rest, hrest⟩ := hnext
    rw [descend, split_dirText]
    dsimp only
    rw [if_neg (by omega), searchFolder_eq vol hdrive, cons_append, cons_append, search]
    cases fi.scanDirectory disk (findFileInEnumeration garbage.file11 c.text) (.chain de.firstCluster) with
    | offEnd => rfl
    | ended => rfl
    | accepted de =>
      have htail := ih c' (n := n) (by rw [length_cons] at hn; omega) de
      dsimp only [Scan.outcome]
      rw [hrest]
      dsimp only
      rw [if_pos hx, htail]
      rfl

theorem length_dirText (dirs : List Component) : dirs.length < (Path.dirText dirs).length := by
  have hflat : dirs.length ≤ (dirs.flatMap fun c => backslash :: c.text).length := by
    induction dirs with
    | nil => exact le_rfl
    | cons c cs ih =>
      rw [flatMap_cons, length_append, length_cons, length_cons]
      omega
  rw [Path.dirText, length_append, length_singleton]
  omega

variable {path : Path}

/-- A path without a directory: the search for a separator begins in what `Dir` held before, and leaves it. -/
theorem getDirectoryEntry_root (h : path.dirs = []) (rounds : Nat) :
    getDirectoryEntry disk drives ⟨List.replicate 256 1, length_replicate, 0, fun _ => 0⟩ rounds path.text = none := by
  have hrun : splitFirstDirectory ((Garbage.buffer ⟨List.replicate 256 1, length_replicate, 0, fun _ => 0⟩ []).drop 1)
      = none := splitFirstDirectory_eq_none (by decide +kernel)
  rw [getDirectoryEntry, Path.splitPath_root path h]
  split
  · rfl
  · rw [hrun]

theorem getDirectoryEntry_long (h : path.dirs ≠ []) (hlong : 256 ≤ (Path.dirText path.dirs).length)
    (rounds : Nat) : getDirectoryEntry disk drives garbage rounds path.text = none := by
  rw [getDirectoryEntry, Path.splitPath_text path h]
  exact if_pos (.inl hlong)

section

variable (vol : FatVolume disk fi) (hdrive : drives path.drive = some fi)
include vol hdrive

theorem getDirectoryEntry_first (hdirs : path.dirs = c :: cs)
    (hshort : (Path.dirText path.dirs).length < 256) (rounds : Nat) :
    getDirectoryEntry disk drives garbage (rounds + 1) path.text =
      match (fi.scanDirectory disk (findFileInEnumeration garbage.file11 c.text) fi.rootDirectory).outcome with
      | none => none
      | some none => some (none, [])
      | some (some de) =>
        (descend disk drives garbage (rounds + 1) path.drive path.file.fileText 256
          (Path.dirText cs ++ 0 :: garbage.dir.drop ((Path.dirText path.dirs).length + 1)) de).map
            fun (result, taken) => (result, de :: taken) := by
  have hname := path.file.name_le
  have hext := path.file.length_dotExt_le
  have hlen := c.length_text_le
  have hne : path.dirs ≠ [] := by simp [hdirs]
  have hsplit : splitFirstDirectory ((garbage.buffer (Path.dirText path.dirs)).drop 1)
      = some (c.text, some (Path.dirText cs ++ 0 :: garbage.dir.drop ((Path.dirText path.dirs).length + 1))) := by
    rw [Garbage.buffer]
    simp only [hdirs]
    exact split_dirText c cs _
  have hfits : ¬ (256 ≤ (Path.dirText path.dirs).length ∨ 14 ≤ path.file.name.length ∨ 5 ≤ path.file.dotExt.length) := by
    omega
  rw [getDirectoryEntry, Path.splitPath_text path hne]
  dsimp only
  rw [if_neg hfits, hsplit]
  dsimp only
  rw [if_neg (by omega), if_neg c.text_ne_nil]
  have hroot := searchRoot_eq garbage vol hdrive rounds c.text
  rw [show [path.drive, colon].getD 0 0 = path.drive from rfl, hroot]
  rfl

/-- With two directories or more the call is the sequence of look-ups. -/
theorem getDirectoryEntry_eq (hdirs : path.dirs = c :: c' :: cs)
    (hshort : (Path.dirText path.dirs).length < 256) (rounds : Nat) :
    getDirectoryEntry disk drives garbage (rounds + 1) path.text
      = search disk fi garbage.file11 fi.rootDirectory (c :: c' :: cs ++ [path.file]) := by
  have hcount := length_dirText path.dirs
  rw [hdirs, length_cons, length_cons] at hcount
  rw [getDirectoryEntry_first vol hdrive hdirs hshort, cons_append, cons_append, search]
  cases fi.scanDirectory disk (findFileInEnumeration garbage.file11 c.text) fi.rootDirectory with
  | offEnd => rfl
  | ended => rfl
  | accepted de =>
    have hdescend := descend_eq garbage vol hdrive rounds path.file
      (garbage.dir.drop ((Path.dirText path.dirs).length + 1)) c' cs (n := 256) (by rw [hdirs] at hshort; omega) de
    dsimp only [Scan.outcome]
    rw [hdescend]
    rfl

theorem getDirectoryEntry_once (hdirs : path.dirs = [c]) (rounds : Nat) :
    getDirectoryEntry disk drives garbage (rounds + 1) path.text =
      match (fi.scanDirectory disk (findFileInEnumeration garbage.file11 c.text) fi.rootDirectory).outcome with
      | none => none
      | some none => some (none, [])
      | some (some de) =>
        match fi.scanDirectory disk (findFileInEnumeration garbage.file11 []) (.chain de.firstCluster) with
        | .ended => some (none, [de])
        | _ => none := by
  have hshort : (Path.dirText path.dirs).length < 256 := by
    have hlen := c.length_text_le
    simp [hdirs, Path.dirText]
    omega
  rw [getDirectoryEntry_first vol hdrive hdirs hshort]
  cases fi.scanDirectory disk (findFileInEnumeration garbage.file11 c.text) fi.rootDirectory with
  | offEnd => rfl
  | ended => rfl
  | accepted de =>
    dsimp only [Scan.outcome]
    rw [show Path.dirText [] = [backslash] from rfl, descend]
    have hempty (junk : List UInt8) : splitFirstDirectory (([backslash] ++ 0 :: junk).drop 1) = some ([], none) := rfl
    rw [hempty]
    dsimp only
    rw [if_neg (by simp), searchFolder_eq vol hdrive]
    cases fi.scanDirectory disk (findFileInEnumeration garbage.file11 []) (.chain de.firstCluster) with
    | offEnd => rfl
    | ended => rfl
    | accepted de => rfl

end

end LookUps

/-! ## The look-ups and the walk -/

section Walk

variable {disk : HardDisk} {fi : FATInfo} {file11 : UInt8} {dir : Directory}

theorem misses_iff (comps : List Component) :
    (∃ taken, search disk fi file11 dir comps = some (none, taken) ∧ AllExact comps taken) ↔
      Misses disk fi file11 dir comps := by
  induction comps generalizing dir with
  | nil => simp [search, Misses]
  | cons c cs ih =>
    cases cs with
    | nil =>
      rw [search, Misses]
      cases fi.scanDirectory disk (findFileInEnumeration file11 c.fileText) dir with
      | offEnd => simp [Scan.outcome]
      | ended => simp [Scan.outcome, AllExact]
      | accepted de => simp [Scan.outcome]
    | cons c' cs =>
      rw [search, Misses]
      cases fi.scanDirectory disk (findFileInEnumeration file11 c.text) dir with
      | offEnd => simp [Scan.outcome]
      | ended => simp [Scan.outcome, AllExact]
      | accepted de =>
        dsimp only [Scan.outcome]
        rw [← ih]
        constructor
        · rintro ⟨taken, hsearch, hexact⟩
          obtain ⟨⟨result, rest⟩, hrest, heq⟩ := Option.map_eq_some_iff.1 hsearch
          obtain ⟨rfl, rfl⟩ := Prod.mk.inj heq
          exact ⟨hexact.1, rest, hrest, hexact.2⟩
        · rintro ⟨hexact, rest, hrest, hrest_exact⟩
          rw [hrest]
          exact ⟨de :: rest, rfl, hexact, hrest_exact⟩

def Follows (disk : HardDisk) (fi : FATInfo) (file11 : UInt8) (dir : Directory) (comps : List Component) : Prop :=
  ∃ result taken, search disk fi file11 dir comps = some (result, taken) ∧
    (∀ de, result = some de ↔ WalksTo disk fi dir comps de) ∧ AllExact comps taken

theorem follows_ended {comps : List Component} (h : search disk fi file11 dir comps = some (none, [])) :
    Follows disk fi file11 dir comps ↔ ∀ de, ¬ WalksTo disk fi dir comps de := by
  constructor
  · rintro ⟨result, taken, hsearch, hright, _⟩ de hwalks
    rw [h] at hsearch
    obtain ⟨rfl, rfl⟩ := Prod.mk.inj (Option.some.inj hsearch)
    cases (hright de).2 hwalks
  · intro hmissing
    refine ⟨none, [], h, fun de => ?_, by simp [AllExact]⟩
    simp [hmissing de]

section

variable (vol : FatVolume disk fi) (hleads : Leads disk fi dir)
include vol hleads

/-- An entry with the name of a directory, when it is taken, is what the walk finds: the name has no extension. -/
theorem finds_of_taken (hscan : fi.scanDirectory disk (findFileInEnumeration file11 c.text) dir = .accepted de)
    (hexact : Exact c de) :
    Finds disk fi dir c de := by
  obtain ⟨block, _, hblock⟩ := begins_of_leads vol hleads hscan
  obtain ⟨_, _, _, _, _, _, _, htaken, _⟩ := scan_accepted hblock
  have hext := ext_eq_nil_of_found hexact htaken
  exact finds_of_accepted vol hleads hscan hexact fun other h => found_of_exact h file11 (Component.text_prefix hext)

theorem follows_file (file : Component) :
    Follows disk fi file11 dir [file] ↔ Descends disk fi file11 dir [file] := by
  rw [Descends]
  cases hscan : fi.scanDirectory disk (findFileInEnumeration file11 file.fileText) dir with
  | offEnd => simp [Follows, search, hscan, Scan.outcome]
  | ended =>
    exact follows_ended (by rw [search, hscan]; rfl)
  | accepted de =>
    rw [Follows, search, hscan]
    constructor
    · rintro ⟨result, taken, hsearch, _, hexact⟩
      obtain ⟨rfl, rfl⟩ := Prod.mk.inj (Option.some.inj hsearch)
      exact hexact.1
    · intro hexact
      have hfinds : Finds disk fi dir file de :=
        finds_of_accepted vol hleads hscan hexact fun other h => found_of_exact h file11 file.fileText_prefix
      refine ⟨some de, [de], rfl, fun other => ?_, hexact, trivial⟩
      rw [walksTo_single, Option.some_inj]
      constructor
      · rintro rfl
        exact hfinds
      · exact hfinds.unique

theorem follows_step (hscan : fi.scanDirectory disk (findFileInEnumeration file11 c.text) dir = .accepted de) :
    Follows disk fi file11 dir (c :: c' :: cs) ↔ Exact c de ∧
      (if de.isDirectory then Follows disk fi file11 (.chain de.firstCluster) (c' :: cs)
        else Misses disk fi file11 (.chain de.firstCluster) (c' :: cs)) := by
  rw [Follows, search, hscan]
  dsimp only [Scan.outcome]
  constructor
  · rintro ⟨result, taken, hsearch, hright, hexact⟩
    obtain ⟨⟨result', rest⟩, hrest, heq⟩ := Option.map_eq_some_iff.1 hsearch
    obtain ⟨rfl, rfl⟩ := Prod.mk.inj heq
    have hde := finds_of_taken vol hleads hscan hexact.1
    refine ⟨hexact.1, ?_⟩
    by_cases hdir : de.isDirectory = true
    · rw [if_pos hdir]
      refine ⟨result', rest, hrest, fun other => ?_, hexact.2⟩
      rw [hright, walksTo_of_finds hde]
      exact and_iff_right hdir
    · -- the walk does not enter a file, so that nothing may have been found
      rw [if_neg hdir, ← misses_iff]
      have hnone : result' = none := by
        refine Option.eq_none_iff_forall_ne_some.2 fun other hother => ?_
        exact hdir ((walksTo_of_finds hde).1 ((hright other).1 hother)).1
      exact ⟨rest, hnone ▸ hrest, hexact.2⟩
  · rintro ⟨hexact, hrest⟩
    have hde := finds_of_taken vol hleads hscan hexact
    by_cases hdir : de.isDirectory = true
    · rw [if_pos hdir] at hrest
      obtain ⟨result, rest, hsearch, hright, hrest_exact⟩ := hrest
      rw [hsearch]
      refine ⟨result, de :: rest, rfl, fun other => ?_, hexact, hrest_exact⟩
      rw [hright, walksTo_of_finds hde]
      exact (and_iff_right hdir).symm
    · rw [if_neg hdir, ← misses_iff] at hrest
      obtain ⟨rest, hsearch, hrest_exact⟩ := hrest
      rw [hsearch]
      refine ⟨none, de :: rest, rfl, fun other => ?_, hexact, hrest_exact⟩
      simp [walksTo_of_finds hde, hdir]

/-- **The descent**: the look-ups follow the walk if and only if each goes well. -/
theorem follows_iff (comps : List Component) :
    Follows disk fi file11 dir comps ↔ Descends disk fi file11 dir comps := by
  induction comps generalizing dir with
  | nil => simp [Follows, search, Descends]
  | cons c cs ih =>
    cases cs with
    | nil => exact follows_file vol hleads c
    | cons c' cs =>
      cases hscan : fi.scanDirectory disk (findFileInEnumeration file11 c.text) dir with
      | offEnd => simp [Follows, search, Descends, hscan, Scan.outcome]
      | ended =>
        rw [Descends, hscan]
        exact follows_ended (by rw [search, hscan]; rfl)
      | accepted de =>
        rw [follows_step vol hleads hscan, Descends, hscan]
        refine and_congr_right fun hexact => ?_
        by_cases hdir : de.isDirectory = true
        · have hfinds := finds_of_taken vol hleads hscan hexact
          rw [if_pos hdir, if_pos hdir, ih (.enter hleads hfinds hdir)]
        · rw [if_neg hdir, if_neg hdir]

end

end Walk

/-! ## The call -/

section Call

variable {disk : HardDisk} {fi : FATInfo} {drives : UInt8 → Option FATInfo} {path : Path}

/-- Some garbage with the given byte at `File[11]`. -/
def Garbage.withFile11 (file11 : UInt8) : Garbage := ⟨List.replicate 256 0, List.length_replicate, file11, fun _ => 0⟩

theorem findFileInEnumeration_nil (file11 : UInt8) (de : DirEntry) : findFileInEnumeration file11 [] de = true := by
  simp [findFileInEnumeration, strnicmp]

theorem not_walksTo_empty (vol : FatVolume disk fi) {file11 : UInt8} (file : Component)
    (hfinds : Finds disk fi fi.rootDirectory c de)
    (hended : fi.scanDirectory disk (findFileInEnumeration file11 []) (.chain de.firstCluster) = .ended)
    (result : DirEntry) : ¬ WalksTo disk fi fi.rootDirectory [c, file] result := by
  intro hwalks
  obtain ⟨hdir, hrest⟩ := (walksTo_of_finds hfinds).1 hwalks
  obtain ⟨hreach, hreadable⟩ := vol.directories _ (.enter .root hfinds hdir)
  obtain ⟨_, hlisted, _⟩ := walksTo_single.1 hrest
  have hfalse := not_taken_of_ended (begins_chain vol hreach hreadable) hended hlisted
  rw [findFileInEnumeration_nil] at hfalse
  cases hfalse

theorem resolves_once (vol : FatVolume disk fi) (hdrive : drives path.drive = some fi)
    (hdirs : path.dirs = [c]) :
    Resolves disk drives fi path ↔ ∀ file11, DescendsOnce disk fi file11 fi.rootDirectory c path.file := by
  have hcomps : path.components = [c, path.file] := by simp [Path.components, hdirs]
  constructor
  · intro h file11
    obtain ⟨enough, hcall⟩ := h (.withFile11 file11)
    obtain ⟨result, taken, hrun, hright, hexact⟩ := hcall (enough + 1) (by omega)
    rw [getDirectoryEntry_once vol hdrive hdirs, show (Garbage.withFile11 file11).file11 = file11 from rfl] at hrun
    rw [hcomps] at hright hexact
    rw [DescendsOnce]
    cases hscan : fi.scanDirectory disk (findFileInEnumeration file11 c.text) fi.rootDirectory with
    | offEnd =>
      rw [hscan] at hrun
      cases hrun
    | ended =>
      rw [hscan] at hrun
      obtain ⟨rfl, rfl⟩ := Prod.mk.inj (Option.some.inj hrun)
      intro de hwalks
      cases (hright de).2 hwalks
    | accepted de =>
      rw [hscan] at hrun
      dsimp only [Scan.outcome] at hrun ⊢
      split at hrun
      · rename_i hended
        obtain ⟨rfl, rfl⟩ := Prod.mk.inj (Option.some.inj hrun)
        exact ⟨hexact.1, hended⟩
      · cases hrun
  · intro h garbage
    refine ⟨1, fun rounds hrounds => ?_⟩
    obtain ⟨n, rfl⟩ : ∃ k, rounds = k + 1 := ⟨rounds - 1, by omega⟩
    have hfirst := h garbage.file11
    rw [DescendsOnce] at hfirst
    rw [getDirectoryEntry_once vol hdrive hdirs, hcomps]
    cases hscan : fi.scanDirectory disk (findFileInEnumeration garbage.file11 c.text) fi.rootDirectory with
    | offEnd =>
      rw [hscan] at hfirst
      exact hfirst.elim
    | ended =>
      rw [hscan] at hfirst
      exact ⟨none, [], rfl, fun de => by simp [hfirst de], by simp [AllExact]⟩
    | accepted de =>
      rw [hscan] at hfirst
      obtain ⟨hexact, hended⟩ := hfirst
      have hmissing := not_walksTo_empty vol path.file (finds_of_taken vol .root hscan hexact) hended
      dsimp only [Scan.outcome]
      rw [hended]
      exact ⟨none, [de], rfl, fun other => by simp [hmissing other], hexact, by simp [AllExact]⟩

theorem resolves_descends (vol : FatVolume disk fi) (hdrive : drives path.drive = some fi)
    (hdirs : path.dirs = c :: c' :: cs) (hshort : (Path.dirText path.dirs).length < 256) :
    Resolves disk drives fi path ↔ ∀ file11, Descends disk fi file11 fi.rootDirectory (c :: c' :: cs ++ [path.file]) := by
  have hcomps : path.components = c :: c' :: cs ++ [path.file] := by rw [Path.components, hdirs]
  constructor
  · intro h file11
    obtain ⟨enough, hcall⟩ := h (.withFile11 file11)
    obtain ⟨result, taken, hrun, hright, hexact⟩ := hcall (enough + 1) (by omega)
    rw [getDirectoryEntry_eq vol hdrive hdirs hshort] at hrun
    rw [hcomps] at hright hexact
    exact (follows_iff vol .root _).1 ⟨result, taken, hrun, hright, hexact⟩
  · intro h garbage
    refine ⟨1, fun rounds hrounds => ?_⟩
    obtain ⟨n, rfl⟩ : ∃ k, rounds = k + 1 := ⟨rounds - 1, by omega⟩
    obtain ⟨result, taken, hrun, hright, hexact⟩ := (follows_iff vol .root _).2 (h garbage.file11)
    rw [getDirectoryEntry_eq vol hdrive hdirs hshort, hcomps]
    exact ⟨result, taken, hrun, hright, hexact⟩

theorem not_resolves_of_none (garbage : Garbage)
    (h : ∀ rounds, getDirectoryEntry disk drives garbage rounds path.text = none) : ¬ Resolves disk drives fi path := by
  intro hresolves
  obtain ⟨enough, hcall⟩ := hresolves garbage
  obtain ⟨_, _, hrun, _⟩ := hcall enough le_rfl
  rw [h] at hrun
  cases hrun

/-- **Path resolution.** The call resolves the path if and only if the path has a directory, its directories fit into
`Dir`, and the first entry of each directory that begins as the component does is the component's. -/
theorem resolves_iff (vol : FatVolume disk fi) (hdrive : drives path.drive = some fi) :
    Resolves disk drives fi path ↔ Resolvable disk fi path := by
  rw [Resolvable]
  split
  · rename_i hdirs
    exact iff_false_intro (not_resolves_of_none _ (getDirectoryEntry_root hdirs))
  · rename_i c hdirs
    exact resolves_once vol hdrive hdirs
  · rename_i c c' cs hdirs
    by_cases hshort : (Path.dirText path.dirs).length < 256
    · rw [resolves_descends vol hdrive hdirs hshort]
      rw [hdirs] at hshort
      exact (and_iff_right hshort).symm
    · have hne : path.dirs ≠ [] := by simp [hdirs]
      have hfails : ¬ Resolves disk drives fi path :=
        not_resolves_of_none (.withFile11 0) (getDirectoryEntry_long hne (by omega))
      rw [hdirs] at hshort
      exact ⟨fun h => absurd h hfails, fun h => absurd h.1 hshort⟩

end Call

/-! ## A volume with two directories -/

def entryBytes (name : Str) (bits cluster : UInt8) : List UInt8 :=
  name ++ [bits] ++ List.replicate 14 0 ++ [cluster, 0, 0, 0, 0, 0]

/-- The entries `.` and `..`, which every directory but the root has. -/
def dotEntries (self parent : UInt8) : List UInt8 :=
  entryBytes (dot :: List.replicate 10 space) 0x10 self ++ entryBytes (dot :: dot :: List.replicate 9 space) 0x10 parent

def treeVolume : FATInfo where
  bpb :=
    { bytesPerSector := 512, sectorsPerCluster := 1, reservedSectors := 1, numberFATs := 1, rootDirEntries := 16,
      totalSectors16 := 20, fatSize16 := 1, totalSectors32 := 0, fatSize32 := 0, rootCluster := 0 }
  partitionBegining := 1

/-- The directory `ABC` of the root, in cluster 2, has the directory `D`, in cluster 3, with the empty file `F.TXT`. -/
def treeDisk : HardDisk where
  bytes a :=
    if 2560 ≤ a then
      (dotEntries 3 2 ++ entryBytes ([70] ++ List.replicate 7 space ++ [84, 88, 84]) 0x20 0).getD (a - 2560) 0
    else if 2048 ≤ a then (dotEntries 2 0 ++ entryBytes ([68] ++ List.replicate 10 space) 0x10 3).getD (a - 2048) 0
    else if 1536 ≤ a then (entryBytes ([65, 66, 67] ++ List.replicate 8 space) 0x10 2).getD (a - 1536) 0
    else if 1024 ≤ a then [0xf0, 0xff, 0xff, 0xff, 0xff, 0xff].getD (a - 1024) 0
    else 0
  fails _ := false

def componentAB : Component := ⟨[65, 66], [], by decide, by decide, by decide, legal_of_all (by decide)⟩
def componentABC : Component := ⟨[65, 66, 67], [], by decide, by decide, by decide, legal_of_all (by decide)⟩
def componentD : Component := ⟨[68], [], by decide, by decide, by decide, legal_of_all (by decide)⟩
def componentF : Component := ⟨[70], [84, 88, 84], by decide, by decide, by decide, legal_of_all (by decide)⟩

/-- `C:\ABC\D\F.TXT`. -/
def treePath : Path := ⟨67, by decide, [componentABC, componentD], componentF⟩

/-- `C:\AB\D\F.TXT`. -/
def prefixPath : Path := ⟨67, by decide, [componentAB, componentD], componentF⟩

/-- The entry leads to one of the two directories, unless it has a name that no path has. -/
def treeEntry (entry : Option DirEntry) : Bool :=
  entry.all fun raw => raw.restored.fileName.getD 0 0 == dot || !raw.restored.isDirectory ||
    raw.restored.firstCluster == 2 || raw.restored.firstCluster == 3

theorem Exact.not_dot (h : Exact c de) : de.fileName.getD 0 0 ≠ dot := by
  have hfull : 0 < c.fullName.length := by
    rw [c.length_fullName]
    omega
  have hfirst := h.getD (i := 0) (by omega)
  rw [getD_eq_getElem c.fullName _ hfull] at hfirst
  intro hdot
  rw [hdot] at hfirst
  exact Component.toUpper_fullName_ne (getElem_mem hfull) (y := dot) (by decide) (by decide) (by decide) hfirst.symm

theorem leads_treeDisk {dir : Directory} (h : Leads treeDisk treeVolume dir) :
    dir = .table ∨ dir = .chain 2 ∨ dir = .chain 3 := by
  have hentries (dir : Directory) (hdir : dir = .table ∨ dir = .chain 2 ∨ dir = .chain 3) :
      (∀ i < 3, treeEntry (treeVolume.entryAt treeDisk dir i) = true) ∧
        (treeVolume.entryAt treeDisk dir 3).map DirEntry.first = some 0 := by
    rcases hdir with rfl | rfl | rfl
    · decide +kernel
    · decide +kernel
    · decide +kernel
  induction h with
  | root => exact .inl rfl
  | @enter dir c de _ hfinds hdir ih =>
    obtain ⟨hgood, hend⟩ := hentries dir ih
    obtain ⟨i, ⟨hall, raw, hraw, _, rfl⟩, hexact, _⟩ := hfinds
    have hi : i < 3 := by
      by_contra hge
      obtain ⟨last, hlast, hnonzero⟩ := hall 3 (by omega)
      rw [hlast] at hend
      exact hnonzero (Option.some.inj hend)
    have hentry := hgood i hi
    rw [hraw] at hentry
    simp only [treeEntry, Option.all_some, Bool.or_eq_true, beq_iff_eq, hdir, Bool.not_true, Bool.false_eq_true,
      or_false] at hentry
    rcases hentry with (hdot | htwo) | hthree
    · exact absurd hdot hexact.not_dot
    · exact .inr (.inl (by rw [htwo]))
    · exact .inr (.inr (by rw [hthree]))

theorem fatVolume_treeDisk : FatVolume treeDisk treeVolume where
  sector := rfl
  cluster_pos := by decide
  cluster_lt := by decide
  reads _ := rfl
  partition_lt := by decide
  fatSize16 _ := by decide
  rootStart_lt _ := by decide
  rootEntries_lt := by decide
  rootEntries_sectors := rfl
  rootCluster_lt _ := by decide
  directories first h := by
    have hreach (c : Nat) (hlow : 2 ≤ c) (hhigh : c ≤ 3) : treeVolume.InReach c := by
      have hone : treeVolume.bpb.sectorsPerCluster = 1 := rfl
      have hstart : treeVolume.dataStart = 3 := rfl
      have hpart : treeVolume.partitionBegining = 1 := rfl
      have hres : treeVolume.bpb.reservedSectors = 1 := rfl
      have hoff : treeVolume.fatOffset c < 2 ^ 27 := by
        have htype : treeVolume.fatType = .fat12 := by decide
        rw [FATInfo.fatOffset, htype]
        dsimp only
        rw [u32_of_lt (by omega)]
        omega
      refine ⟨hlow, ?_, ?_⟩
      · rw [hone]
        omega
      · omega
    rcases leads_treeDisk h with h | h | h
    · cases h
    · cases h
      exact ⟨hreach 2 (by decide) (by decide), by decide⟩
    · cases h
      exact ⟨hreach 3 (by decide) (by decide), by decide⟩

theorem length_strncpy (string2 : Str) (count : Nat) : (strncpy string2 count).length = count := by
  simp [strncpy]

/-- A name of up to 11 characters is compared with what has been written. -/
theorem findFileInEnumeration_short {fileName : Str} (h : fileName.length ≤ 11) (file11 : UInt8) :
    findFileInEnumeration file11 fileName = findFileInEnumeration 0 fileName := by
  funext de
  have hget (i : Nat) (hi : i < fileName.length) (x : UInt8) :
      (strncpy de.fileName 11 ++ [x, 0]).getD i 0 = (strncpy de.fileName 11).getD i 0 :=
    getD_append _ _ _ _ (by rw [length_strncpy]; omega)
  simp only [findFileInEnumeration, strnicmp]
  congr 1
  refine propext (forall₂_congr fun i hi => ?_)
  rw [hget i hi, hget i hi]

/-- `C:\ABC\D\F.TXT` is found. -/
theorem resolves_treePath : Resolves treeDisk (fun _ => some treeVolume) treeVolume treePath := by
  refine (resolves_iff fatVolume_treeDisk rfl).2 ⟨by decide, fun file11 => ?_⟩
  have hshort (c : Component) (hc : c.text.length ≤ 11) := findFileInEnumeration_short hc file11
  have habc : treeVolume.scanDirectory treeDisk (findFileInEnumeration 0 componentABC.text) treeVolume.rootDirectory
      = .accepted ⟨entryBytes ([65, 66, 67] ++ List.replicate 8 space) 0x10 2⟩ := by decide +kernel
  have hd : treeVolume.scanDirectory treeDisk (findFileInEnumeration 0 componentD.text) (.chain 2)
      = .accepted ⟨entryBytes ([68] ++ List.replicate 10 space) 0x10 3⟩ := by decide +kernel
  have hf : treeVolume.scanDirectory treeDisk (findFileInEnumeration 0 treePath.file.fileText) (.chain 3)
      = .accepted ⟨entryBytes ([70] ++ List.replicate 7 space ++ [84, 88, 84]) 0x20 0⟩ := by decide +kernel
  rw [List.cons_append, List.cons_append, Descends, hshort componentABC (by decide), habc]
  refine ⟨by decide, ?_⟩
  rw [if_pos (by decide), List.nil_append, Descends, hshort componentD (by decide),
    show DirEntry.firstCluster ⟨entryBytes ([65, 66, 67] ++ List.replicate 8 space) 0x10 2⟩ = 2 by decide, hd]
  refine ⟨by decide, ?_⟩
  rw [if_pos (by decide), Descends, findFileInEnumeration_short (by decide) file11,
    show DirEntry.firstCluster ⟨entryBytes ([68] ++ List.replicate 10 space) 0x10 3⟩ = 3 by decide, hf]
  show Exact _ _
  decide

/-- `C:\AB\D\F.TXT` is found too, though there is no `AB`: the look-up takes `ABC`. -/
theorem getDirectoryEntry_takes_prefix :
    ¬ ∀ (disk : HardDisk) (drives : UInt8 → Option FATInfo) (fi : FATInfo) (path : Path),
      FatVolume disk fi → drives path.drive = some fi → Resolves disk drives fi path := by
  intro hclaim
  have hvol := fatVolume_treeDisk
  obtain ⟨enough, hcall⟩ := hclaim treeDisk (fun _ => some treeVolume) treeVolume prefixPath hvol rfl (.withFile11 0)
  obtain ⟨result, taken, hrun, _, hexact⟩ := hcall (enough + 1) (by omega)
  rw [getDirectoryEntry_eq hvol rfl rfl (by decide)] at hrun
  have htaken : (search treeDisk treeVolume 0 treeVolume.rootDirectory prefixPath.components).map
      (fun call => (call.1.isSome, call.2.head?))
        = some (true, some ⟨entryBytes ([65, 66, 67] ++ List.replicate 8 space) 0x10 2⟩) := by decide +kernel
  rw [show search treeDisk treeVolume 0 treeVolume.rootDirectory prefixPath.components = some (result, taken) from hrun]
    at htaken
  obtain ⟨_, hhead⟩ := Prod.mk.inj (Option.some.inj htaken)
  obtain ⟨rest, rfl⟩ := List.head?_eq_some_iff.1 hhead
  exact absurd hexact.1 (by decide)

end Fat32
