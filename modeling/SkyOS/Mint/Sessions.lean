import SkyOS.Mint.FileRuns

/-!
# Files used one at a time

A volume that has just been formatted and mounted, and one handle at a time: files are opened, read, written, gone
through and closed, and removed in between. Each call on the handle is answered twice, by the file system and by the
array that the file should be.

| here | there |
| --- | --- |
| `opened` | the open handle, and the array that its file should be |
| `answer`, `expected` | what the last call returned, and what the array says |
| `Within` | seeks stay in the file, and writes find free clusters |
| `Computed` | what the 32 bit numbers and the search for free clusters need besides |
-/

namespace Mint

open Bytes Machine LinkChain Option

variable {s s' : State} {chain : Nat → List Nat} {k i size off : Nat}

/-! ## The system -/

inductive FileCall where
  | kOpenFile (name : FileName) (mode : Char) (stEntry : Memory)
  | kReadFile (pvBuffer : Memory) (dwSize dwCount : UInt32)
  | kWriteFile (pvBuffer : Memory) (dwSize dwCount : UInt32)
  | kSeekFile (iOffset iOrigin : Int32)
  | kCloseFile
  | kRemoveFile (name : FileName) (stEntry : Memory)

/-- What a call on a handle returns: the bytes read, `dwSize` bytes at a time written, or the result. -/
inductive Answer where
  | nothing
  | read (bytes : List UInt8)
  | written (count : Nat)
  | moved (result : Int)
deriving DecidableEq

structure Session where
  state : State
  opened : Option (Nat × ArrayFile UInt8)
  answer : Answer
  expected : Answer

def State.entryOf (s : State) (k : Nat) : Nat := (s.manager.pstHandlePool k).stFileHandle.iDirectoryEntryOffset

def State.clustersOf (s : State) (k : Nat) : List Nat := s.chainOf (s.entryOf k)

def State.fileOpened (s : State) (k : Nat) (mode : Char) : ArrayFile UInt8 :=
  s.fileAt (s.clustersOf k) (s.sizeOf (s.entryOf k)) (if mode = 'a' then s.sizeOf (s.entryOf k) else 0)

def Session.call (σ : Session) : FileCall → Option Session
  | .kOpenFile name mode stEntry =>
    if σ.opened.isSome then none else
    (kOpenFile σ.state name.chars mode stEntry).map fun (r, s) =>
      ⟨s, r.map fun k => (k, s.fileOpened k mode), .nothing, .nothing⟩
  | .kReadFile pvBuffer dwSize dwCount => σ.opened.map fun (k, file) =>
    let n := dwSize.toNat * dwCount.toNat
    match kReadFile σ.state pvBuffer dwSize.toNat dwCount.toNat k with
    | ((count, pvBuffer), s) =>
      ⟨s, some (k, file.afterRead n), .read ((List.range count).map pvBuffer), .read (file.read n)⟩
  | .kWriteFile pvBuffer dwSize dwCount => σ.opened.bind fun (k, file) =>
    (kWriteFile σ.state pvBuffer dwSize.toNat dwCount.toNat k).map fun (count, s) =>
      ⟨s, some (k, file.write ((List.range (dwSize.toNat * dwCount.toNat)).map pvBuffer)), .written count,
        .written dwCount.toNat⟩
  | .kSeekFile iOffset iOrigin => σ.opened.bind fun (k, file) =>
    (kSeekFile σ.state k iOffset.toInt iOrigin.toInt).map fun (r, s) =>
      ⟨s, some (k, file.seek (target file.content.length file.cursor iOffset.toInt iOrigin.toInt)), .moved r, .moved 0⟩
  | .kCloseFile => σ.opened.map fun (k, _) => ⟨(kCloseFile σ.state k).2, none, .nothing, .nothing⟩
  | .kRemoveFile name stEntry =>
    if σ.opened.isSome then none else
    (kRemoveFile σ.state name.chars stEntry).map fun (_, s) => ⟨s, none, .nothing, .nothing⟩

def sessions : StepSystem Session FileCall where
  init σ := ∃ disk buffer T, 9 ≤ T ∧ T < 2 ^ 32 ∧ σ = ⟨boot disk buffer T, none, .nothing, .nothing⟩
  step := Session.call

def State.unusedCount (s : State) : Nat :=
  ((Finset.range s.manager.dwTotalClusterCount).filter fun c => s.link c = FILESYSTEM_FREECLUSTER).card

/-- Seeks go to places in the file, and there are clusters for what is written. Files are opened and removed on a
volume that has clusters, while none is open. -/
def Within (σ : Session) : FileCall → Prop
  | .kOpenFile .. | .kRemoveFile .. => σ.opened.isNone ∧ 0 < σ.state.manager.dwTotalClusterCount
  | .kReadFile .. | .kCloseFile => σ.opened.isSome
  | .kWriteFile _ dwSize dwCount => ∃ x ∈ σ.opened, x.2.cursor + dwSize.toNat * dwCount.toNat ≤
      FILESYSTEM_CLUSTERSIZE * ((σ.state.clustersOf x.1).length + σ.state.unusedCount)
  | .kSeekFile iOffset iOrigin => ∃ x ∈ σ.opened,
      target x.2.content.length x.2.cursor iOffset.toInt iOrigin.toInt ≤ x.2.content.length

/-- The number of bytes is the product computed in 32 bits, or the file ends before it; for a write, `dwSize` is no 0,
its end is an offset, and the clusters that it needs are among those that `kFindFreeCluster` looks at. -/
def Computed (σ : Session) : FileCall → Prop
  | .kReadFile _ dwSize dwCount => ∀ x ∈ σ.opened, dwSize.toNat * dwCount.toNat < 2 ^ 32 ∨
      x.2.rest ≤ u32 (dwSize.toNat * dwCount.toNat)
  | .kWriteFile _ dwSize dwCount => dwSize ≠ 0 ∧ ∀ x ∈ σ.opened,
      x.2.cursor + dwSize.toNat * dwCount.toNat < 2 ^ 32 ∧
      x.2.cursor + dwSize.toNat * dwCount.toNat ≤
        FILESYSTEM_CLUSTERSIZE * ((σ.state.clustersOf x.1).length + σ.state.freeCount)
  | _ => True

def Fitting (σ : Session) (call : FileCall) : Prop := Within σ call ∧ Computed σ call

instance (σ : Session) : (call : FileCall) → Decidable (Within σ call)
  | .kOpenFile .. | .kRemoveFile .. => inferInstanceAs (Decidable (_ ∧ _))
  | .kReadFile .. | .kCloseFile => inferInstanceAs (Decidable (_ = true))
  | .kWriteFile .. | .kSeekFile .. => inferInstanceAs (Decidable (∃ x ∈ σ.opened, _ ≤ _))

instance (σ : Session) : (call : FileCall) → Decidable (Computed σ call)
  | .kReadFile .. => inferInstanceAs (Decidable (∀ x ∈ σ.opened, _ < _ ∨ _ ≤ _))
  | .kWriteFile .. => inferInstanceAs (Decidable (_ ∧ ∀ x ∈ σ.opened, _ < _ ∧ _ ≤ _))
  | .kOpenFile .. | .kSeekFile .. | .kCloseFile | .kRemoveFile .. => .isTrue trivial

instance (σ : Session) (call : FileCall) : Decidable (Fitting σ call) := inferInstanceAs (Decidable (_ ∧ _))

/-! ## The handle and the array -/

/-- The file of the handle is the array, and the handle keeps its place as it should. -/
structure HandleRight (s : State) (k : Nat) (file : ArrayFile UInt8) : Prop where
  isFile : (s.manager.pstHandlePool k).bType = .file
  chain : Chain s.link FILESYSTEM_LASTCLUSTER (s.manager.pstHandlePool k).stFileHandle.dwStartClusterIndex
    (s.clustersOf k)
  offset : (s.manager.pstHandlePool k).stFileHandle.dwCurrentOffset = file.cursor
  inside : file.cursor ≤ file.content.length
  size : (s.manager.pstHandlePool k).stFileHandle.dwFileSize = file.content.length
  entrySize : s.sizeOf (s.entryOf k) = file.content.length
  content : file.content = (List.range file.content.length).map (s.fileByte (s.clustersOf k))
  current : (s.manager.pstHandlePool k).stFileHandle.dwCurrentClusterIndex =
    (s.clustersOf k).getD ((s.manager.pstHandlePool k).stFileHandle.dwCurrentOffset / FILESYSTEM_CLUSTERSIZE)
      FILESYSTEM_LASTCLUSTER
  previous : (s.manager.pstHandlePool k).stFileHandle.dwPreviousClusterIndex =
    (s.clustersOf k).getD ((s.manager.pstHandlePool k).stFileHandle.dwCurrentOffset / FILESYSTEM_CLUSTERSIZE - 1)
      FILESYSTEM_LASTCLUSTER

/-- The last call was answered as by the array, and the handle, if there is one, is right. -/
def Session.Right (σ : Session) : Prop :=
  σ.answer = σ.expected ∧ ∀ x ∈ σ.opened, HandleRight σ.state x.1 x.2

theorem Stands.entryOf (h : Stands s chain k i size off) : s.entryOf k = i := by
  obtain ⟨fh, hpool, hentry, -⟩ := h.handle
  unfold State.entryOf
  rw [hpool]
  exact hentry

theorem Stands.clustersOf (h : Stands s chain k i size off) : s.clustersOf k = chain i := by
  unfold State.clustersOf
  rw [h.entryOf]
  exact h.sound.chainOf_eq h.used

theorem Stands.handleRight (h : Stands s chain k i size off) : HandleRight s k (s.fileAt (chain i) size off) := by
  obtain ⟨fh, hpool, hentry, hfile, hstart⟩ := h.handle
  constructor
  · rw [hpool]
  · rw [hpool, h.clustersOf, show (fh.placed (chain i) off).dwStartClusterIndex = fh.dwStartClusterIndex from rfl, hstart]
    exact h.sound.owns.chained i h.used
  · rw [hpool]
    rfl
  · rw [length_fileAt]
    exact h.off_le
  · rw [hpool, length_fileAt]
    exact hfile
  · rw [h.entryOf, length_fileAt]
    exact h.sizeOf
  · rw [length_fileAt, h.clustersOf]
    rfl
  · rw [hpool, h.clustersOf]
    rfl
  · rw [hpool, h.clustersOf]
    rfl

/-- What every call keeps: the handle stands in the file that the array is, or the volume is at rest. -/
def Held (σ : Session) : Prop :=
  match σ.opened with
  | none => 0 < σ.state.manager.dwTotalClusterCount → AtRest σ.state
  | some (k, file) => ∃ chain i size off,
      Stands σ.state chain k i size off ∧ file = σ.state.fileAt (chain i) size off

variable {σ : Session} {T : Nat}

theorem Held.stands (h : Held σ) {x : Nat × ArrayFile UInt8} (hx : x ∈ σ.opened) :
    ∃ chain i size off, Stands σ.state chain x.1 i size off ∧ x.2 = σ.state.fileAt (chain i) size off := by
  unfold Held at h
  rwa [mem_def.1 hx] at h

theorem Held.atRest (h : Held σ) (hnone : σ.opened = none)
    (hpos : 0 < σ.state.manager.dwTotalClusterCount) : AtRest σ.state := by
  unfold Held at h
  rw [hnone] at h
  exact h hpos

/-! ## One call -/

variable {σ : Session}

section

variable (h : Held σ)
include h

theorem kOpenFile_held (name : FileName) (mode : Char) (stEntry : Memory)
    (hfit : Within σ (.kOpenFile name mode stEntry)) : ∃ σ',
      σ.call (.kOpenFile name mode stEntry) = some σ' ∧ Held σ' ∧ σ'.answer = σ'.expected := by
  obtain ⟨hnone, hpos⟩ := hfit
  rw [isNone_iff_eq_none] at hnone
  obtain ⟨r, s', hopen, hrest, hstands⟩ := kOpenFile_stands (h.atRest hnone hpos) name.noNul mode stEntry
  rw [Session.call, hnone, if_neg (by simp), hopen]
  refine ⟨_, rfl, ?_, rfl⟩
  cases r with
  | none => exact fun _ => hrest rfl
  | some k =>
    obtain ⟨chain, i, size, hk⟩ := hstands k rfl
    refine ⟨chain, i, size, _, hk, ?_⟩
    unfold State.fileOpened
    rw [hk.clustersOf, hk.entryOf, hk.sizeOf]

theorem kReadFile_held (pvBuffer : Memory) (dwSize dwCount : UInt32)
    (hfit : Fitting σ (.kReadFile pvBuffer dwSize dwCount)) : ∃ σ',
      σ.call (.kReadFile pvBuffer dwSize dwCount) = some σ' ∧ Held σ' ∧ σ'.answer = σ'.expected := by
  obtain ⟨hsome, hcount⟩ := hfit
  obtain ⟨⟨k, file⟩, hopened⟩ := isSome_iff_exists.1 hsome
  obtain ⟨chain, i, size, off, hstands, hfile⟩ := h.stands hopened
  dsimp only at hstands hfile
  have hrest : file.rest = size - off := by
    rw [hfile]
    simp [ArrayFile.rest]
  have hcount' := hcount _ hopened
  rw [hrest] at hcount'
  obtain ⟨pv', s', hread, hstands', hbytes, hanswer⟩ := kReadFile_stands hstands pvBuffer hcount'
  rw [Session.call, hopened, map_some]
  dsimp only
  rw [hread]
  refine ⟨_, rfl, ⟨chain, i, size, _, hstands', ?_⟩, ?_⟩
  · unfold ArrayFile.afterRead
    rw [hrest, hfile]
    unfold State.fileAt
    rw [hbytes]
  · rw [hanswer, hfile]

theorem kWriteFile_held (pvBuffer : Memory) (dwSize dwCount : UInt32)
    (hfit : Fitting σ (.kWriteFile pvBuffer dwSize dwCount)) : ∃ σ',
      σ.call (.kWriteFile pvBuffer dwSize dwCount) = some σ' ∧ Held σ' ∧ σ'.answer = σ'.expected := by
  obtain ⟨⟨⟨k, file⟩, hopened, -⟩, hsize, hcomputed⟩ := hfit
  obtain ⟨hlt, hroom⟩ := hcomputed _ hopened
  obtain ⟨chain, i, size, off, hstands, hfile⟩ := h.stands hopened
  dsimp only at hstands hfile hlt hroom
  have hcursor : file.cursor = off := by rw [hfile, cursor_fileAt]
  rw [hstands.clustersOf] at hroom
  rw [hcursor] at hlt hroom
  have hsize' : dwSize.toNat ≠ 0 := fun hzero => hsize (UInt32.toNat_inj.1 hzero)
  obtain ⟨chain', s', hwrite, hstands', hcontent⟩ := kWriteFile_stands hstands pvBuffer hsize' hlt hroom
  rw [Session.call, hopened, bind_some]
  dsimp only
  rw [hwrite]
  refine ⟨_, rfl, ⟨chain', i, _, _, hstands', ?_⟩, rfl⟩
  rw [hcontent, hfile]

theorem kSeekFile_held (iOffset iOrigin : Int32) (hfit : Within σ (.kSeekFile iOffset iOrigin)) : ∃ σ',
    σ.call (.kSeekFile iOffset iOrigin) = some σ' ∧ Held σ' ∧ σ'.answer = σ'.expected := by
  obtain ⟨⟨k, file⟩, hopened, hto⟩ := hfit
  obtain ⟨chain, i, size, off, hstands, hfile⟩ := h.stands hopened
  dsimp only at hstands hfile hto
  have hcursor : file.cursor = off := by rw [hfile, cursor_fileAt]
  have hlength : file.content.length = size := by rw [hfile, length_fileAt]
  rw [hcursor, hlength] at hto
  obtain ⟨s', hseek, hstands', hbytes⟩ := kSeekFile_stands hstands iOffset.le_toInt iOffset.toInt_lt hto
  rw [Session.call, hopened, bind_some]
  dsimp only
  rw [hseek, hcursor, hlength]
  refine ⟨_, rfl, ⟨chain, i, size, _, hstands', ?_⟩, rfl⟩
  rw [hfile]
  unfold State.fileAt ArrayFile.seek
  rw [hbytes]

theorem kCloseFile_held (hfit : Within σ .kCloseFile) : ∃ σ',
    σ.call .kCloseFile = some σ' ∧ Held σ' ∧ σ'.answer = σ'.expected := by
  obtain ⟨⟨k, file⟩, hopened⟩ := isSome_iff_exists.1 hfit
  obtain ⟨chain, i, size, off, hstands, -⟩ := h.stands hopened
  rw [Session.call, hopened, map_some]
  exact ⟨_, rfl, fun _ => kCloseFile_stands hstands, rfl⟩

theorem kRemoveFile_held (name : FileName) (stEntry : Memory)
    (hfit : Within σ (.kRemoveFile name stEntry)) : ∃ σ',
      σ.call (.kRemoveFile name stEntry) = some σ' ∧ Held σ' ∧ σ'.answer = σ'.expected := by
  obtain ⟨hnone, hpos⟩ := hfit
  rw [isNone_iff_eq_none] at hnone
  obtain ⟨r, s', hremove, hrest⟩ := kRemoveFile_atRest (h.atRest hnone hpos) name.noNul stEntry
  rw [Session.call, hnone, if_neg (by simp), hremove]
  exact ⟨_, rfl, fun _ => hrest, rfl⟩

theorem call_held {call : FileCall} (hfit : Fitting σ call) : ∃ σ',
    σ.call call = some σ' ∧ Held σ' ∧ σ'.answer = σ'.expected := by
  cases call with
  | kOpenFile name mode stEntry => exact kOpenFile_held h name mode stEntry hfit.1
  | kReadFile pvBuffer dwSize dwCount => exact kReadFile_held h pvBuffer dwSize dwCount hfit
  | kWriteFile pvBuffer dwSize dwCount => exact kWriteFile_held h pvBuffer dwSize dwCount hfit
  | kSeekFile iOffset iOrigin => exact kSeekFile_held h iOffset iOrigin hfit.1
  | kCloseFile => exact kCloseFile_held h hfit.1
  | kRemoveFile name stEntry => exact kRemoveFile_held h name stEntry hfit.1

end

/-! ## Runs -/

theorem boot_held (disk buffer : Memory) (h : 9 ≤ T) (hT : T < 2 ^ 32) :
    Held ⟨boot disk buffer T, none, .nothing, .nothing⟩ := by
  intro hpos
  obtain ⟨hstart, -, hpool, -⟩ := boot_empty disk buffer h hT
  refine ⟨⟨_, (boot_sound disk buffer h hT hpos).1, fun i hi => absurd (hstart i hi.1) hi.2⟩, fun j => ?_⟩
  rw [hpool j]
  nofun

/-- **A handle is an array with a cursor.** In every run whose calls fit, every call is defined, is answered as by the
array, and leaves the handle at its place in the file that the array is. -/
theorem handle_array {σ : Session} (h : sessions.ReachVia Fitting σ) :
    σ.Right ∧ ∀ call, Fitting σ call → (sessions.step σ call).isSome := by
  have hheld : Held σ ∧ σ.answer = σ.expected := by
    refine h.invariant (fun σ => Held σ ∧ σ.answer = σ.expected) ?_ fun σ call σ' hi hfit hs => ?_
    · rintro σ ⟨disk, buffer, T, hT, hT', rfl⟩
      exact ⟨boot_held disk buffer hT hT', rfl⟩
    · obtain ⟨σ₁, hcall, hheld, hanswer⟩ := call_held hi.1 hfit
      cases hcall.symm.trans hs
      exact ⟨hheld, hanswer⟩
  refine ⟨⟨hheld.2, fun x hx => ?_⟩, fun call hfit => ?_⟩
  · obtain ⟨chain, i, size, off, hstands, hfile⟩ := hheld.1.stands hx
    rw [hfile]
    exact hstands.handleRight
  · obtain ⟨σ', hcall, -⟩ := call_held hheld.1 hfit
    exact Option.isSome_iff_exists.2 ⟨σ', hcall⟩

theorem sessions_init (disk buffer : Memory) (h : 9 ≤ T) (hT : T < 2 ^ 32)
    {P : Session → FileCall → Prop} : sessions.ReachVia P ⟨boot disk buffer T, none, .nothing, .nothing⟩ :=
  .init ⟨disk, buffer, T, h, hT, rfl⟩

/-- A file that goes on in a second cluster, read over the boundary. -/
theorem handle_array_run : ∃ σ, sessions.ReachVia Fitting σ ∧
    (σ.Right ∧ ∀ call, Fitting σ call → (sessions.step σ call).isSome) ∧ σ.answer = .read [1, 2] := by
  let start : Session := ⟨boot (fun _ => 0) (fun _ => 0) 40, none, .nothing, .nothing⟩
  let a : FileName := ⟨[97], by decide⟩
  let calls : List FileCall := [.kOpenFile a 'w' fun _ => 0, .kWriteFile (fun _ => 1) 1 4096,
    .kWriteFile (fun _ => 2) 1 1, .kSeekFile 4095 0, .kReadFile (fun _ => 0) 1 8]
  have hrun : (sessions.exec start calls).map (fun σ => decide (σ.answer = .read [1, 2])) = some true := by
    decide +kernel
  have hmeets : sessions.Meets Fitting start calls := by decide +kernel
  obtain ⟨σ, hs, hanswer⟩ := Option.map_eq_some_iff.1 hrun
  have hreach : sessions.ReachVia Fitting σ :=
    StepSystem.reachVia_exec calls (sessions_init _ _ (by decide) (by decide)) hmeets hs
  exact ⟨σ, hreach, handle_array hreach, of_decide_eq_true hanswer⟩

/-- **A product that is 0 in 32 bits.** 65536 elements of 65536 bytes are asked for, of a file of one byte, and none
is read. -/
theorem read_nothing : ¬ ∀ σ, sessions.ReachVia Within σ → σ.Right := by
  intro h
  let start : Session := ⟨boot (fun _ => 0) (fun _ => 0) 40, none, .nothing, .nothing⟩
  let a : FileName := ⟨[97], by decide⟩
  let calls : List FileCall := [.kOpenFile a 'w' fun _ => 0, .kWriteFile (fun _ => 1) 1 1, .kSeekFile 0 0,
    .kReadFile (fun _ => 0) 65536 65536]
  have hrun : (sessions.exec start calls).map (fun σ => decide (σ.answer = .read [] ∧ σ.expected = .read [1]))
      = some true := by decide +kernel
  have hmeets : sessions.Meets Within start calls := by decide +kernel
  obtain ⟨σ, hs, hfacts⟩ := Option.map_eq_some_iff.1 hrun
  obtain ⟨hanswer, hexpected⟩ := of_decide_eq_true hfacts
  have hright := (h σ (StepSystem.reachVia_exec calls (sessions_init _ _ (by decide) (by decide)) hmeets hs)).1
  rw [hanswer, hexpected] at hright
  cases hright

end Mint
