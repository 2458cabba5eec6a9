import SkyOS.Mint.SeekPast

/-!
# Runs with seeks past the end

Several files are open, some of them more than once, and every handle is at its place in its file: that is so as long as no
call leaves a cursor behind the end of a file, and as long as files grow and are emptied with one handle on them.

| here | there |
| --- | --- |
| `InOrder` | several files are open, and every handle is at its place in its file |
| `Alone` | no other handle is open on the file |
| `Idle` | there is no volume, and no handle is open |
-/

namespace Mint

open Bytes Machine LinkChain Option

variable {s s' : State} {chain chain' : Nat → List Nat} {k i size off : Nat}

/-! ## Several files at a time -/

/-- Clusters and sizes are in order, and every open handle is at a place of its file. -/
structure InOrder (s : State) (chain : Nat → List Nat) : Prop where
  sound : Sound s chain
  fits : Fits s chain
  handles : ∀ k, (s.manager.pstHandlePool k).bType = .file →
    k < FILESYSTEM_HANDLE_MAXCOUNT ∧ ∃ i size off, Placed s chain k i size off

namespace InOrder

theorem handlesIn (h : InOrder s chain) : HandlesIn s := by
  intro k hfile
  obtain ⟨hlt, i, size, off, hplaced⟩ := h.handles k hfile
  obtain ⟨fh, hpool, hentry, -, hstart⟩ := hplaced.handle
  rw [hpool]
  change k < _ ∧ Used s fh.iDirectoryEntryOffset ∧ s.startOf fh.iDirectoryEntryOffset = fh.dwStartClusterIndex
  rw [hentry]
  exact ⟨hlt, hplaced.used, hstart.symm⟩

end InOrder

theorem Placed.carry (h : Placed s chain k i size off) (hsound : Sound s' chain') (hfits : Fits s' chain')
    (hpool : s'.manager.pstHandlePool k = s.manager.pstHandlePool k) (hstart : s'.startOf i = s.startOf i)
    (hsize : s'.sizeOf i = s.sizeOf i) (hchain : chain' i = chain i) : Placed s' chain' k i size off := by
  refine ⟨hsound, hfits, ⟨h.used.1, by rw [hstart]; exact h.used.2⟩, hsize.trans h.sizeOf, h.off_le, ?_⟩
  rw [hpool, hchain, hstart]
  exact h.handle

/-- A call through a handle: the others on its file see no change, or there are none. -/
theorem InOrder.through (h : InOrder s chain) {size' off' : Nat} (hk : k < FILESYSTEM_HANDLE_MAXCOUNT)
    (hplaced : Placed s' chain' k i size' off') (hbeside : Beside s s' chain chain' k i)
    (hothers : (∀ j < FILESYSTEM_HANDLE_MAXCOUNT, j ≠ k → (s.manager.pstHandlePool j).bType = .file → s.entryOf j ≠ i) ∨
      s'.sizeOf i = s.sizeOf i ∧ chain' i = chain i) : InOrder s' chain' := by
  refine ⟨hplaced.sound, hplaced.fits, fun j hfile => ?_⟩
  by_cases hj : j = k
  · subst hj
    exact ⟨hk, i, size', off', hplaced⟩
  · rw [hbeside.pool j hj] at hfile
    obtain ⟨hlt, e, size, off, hj'⟩ := h.handles j hfile
    obtain ⟨hsize, hchain⟩ : s'.sizeOf e = s.sizeOf e ∧ chain' e = chain e := by
      by_cases he : e = i
      · rw [he]
        refine hothers.resolve_left fun halone => halone j hlt hj hfile ?_
        rw [hj'.entryOf, he]
      · exact hbeside.other e hj'.used.1 he
    exact ⟨hlt, e, size, off, hj'.carry hplaced.sound hplaced.fits (hbeside.pool j hj) (hbeside.start e hj'.used.1)
      hsize hchain⟩

/-- A call that touches one file, on which no handle is open. -/
theorem InOrder.onlyFile (h : InOrder s chain) {own : List Nat} (honly : OnlyFile s s' i own)
    (hown : ∀ c ∈ own, c ∈ chain i) (hsound : Sound s' chain') (hfits : Fits s' chain')
    (hpool : s'.manager.pstHandlePool = s.manager.pstHandlePool)
    (hnone : ∀ j, (s.manager.pstHandlePool j).bType = .file → s.entryOf j ≠ i) : InOrder s' chain' := by
  refine ⟨hsound, hfits, fun j hfile => ?_⟩
  rw [hpool] at hfile
  obtain ⟨hlt, e, size, off, hj⟩ := h.handles j hfile
  have hei : e ≠ i := by
    rw [← hj.entryOf]
    exact hnone j hfile
  obtain ⟨hstart, hsize, -⟩ := honly.entry e hj.used.1 hei
  have hchain := (hsound.owns.chained e ((honly.used hei).2 hj.used)).unique (honly.chained h.sound hown hj.used hei)
  exact ⟨hlt, e, size, off, hj.carry hsound hfits (congrFun hpool j) hstart hsize hchain⟩

/-! ## The calls -/

inductive DiskCall where
  | volume (call : Call)
  | kReadFile (pvBuffer : Memory) (dwSize dwCount : UInt32) (h : Fin FILESYSTEM_HANDLE_MAXCOUNT)

def State.diskCall (s : State) : DiskCall → Option State
  | .volume call => s.call call
  | .kReadFile pvBuffer dwSize dwCount h => some (kReadFile s pvBuffer dwSize.toNat dwCount.toNat h).2

def disk : StepSystem State DiskCall where
  init := fileSystem.init
  step := State.diskCall

def Alone (s : State) (k : Nat) : Prop := ∀ j < FILESYSTEM_HANDLE_MAXCOUNT, j ≠ k →
  (s.manager.pstHandlePool j).bType = .file → s.entryOf j ≠ s.entryOf k

/-- A file is truncated while no handle is open on it, and grows through its only handle; the end of a write is an offset;
and a seek past the end goes to a later cluster. Files are opened and removed on a volume that has clusters. -/
def Orderly (s : State) : DiskCall → Prop
  | .volume (.kOpenFile name mode stEntry) => 0 < s.manager.dwTotalClusterCount ∧
      (mode = 'w' → ∀ j < FILESYSTEM_HANDLE_MAXCOUNT, (s.manager.pstHandlePool j).bType = .file →
        (kFindDirectoryEntry s name.chars stEntry).1.1 ≠ some (s.entryOf j))
  | .volume (.kWriteFile _ dwSize dwCount h) => (s.manager.pstHandlePool h).bType = .file →
      (s.manager.pstHandlePool h).stFileHandle.dwCurrentOffset + u32 (dwSize.toNat * dwCount.toNat) < 2 ^ 32 ∧
      ((s.manager.pstHandlePool h).stFileHandle.dwFileSize <
        (s.manager.pstHandlePool h).stFileHandle.dwCurrentOffset + u32 (dwSize.toNat * dwCount.toNat) → Alone s h)
  | .volume (.kSeekFile h iOffset iOrigin) => (s.manager.pstHandlePool h).bType = .file →
      (s.manager.pstHandlePool h).stFileHandle.dwFileSize < s.targetOf h iOffset.toInt iOrigin.toInt →
      PastCluster s h iOffset.toInt iOrigin.toInt ∧ Alone s h
  | .volume (.kRemoveFile ..) => 0 < s.manager.dwTotalClusterCount
  | .volume (.kCloseFile _) => True
  | .kReadFile .. => True

variable {pv : Memory} {r : Int} {mode : Char} {call : DiskCall}

theorem kWriteFile_zero {count : Nat} (hfile : (s.manager.pstHandlePool k).bType = .file) :
    kWriteFile s pv 0 count k = none := by
  unfold kWriteFile
  rw [if_neg (not_not.2 hfile)]
  rfl

theorem kWriteFile_inOrder (h : InOrder s chain) {dwSize dwCount n : Nat}
    (hsafe : (s.manager.pstHandlePool k).bType = .file →
      (s.manager.pstHandlePool k).stFileHandle.dwCurrentOffset + u32 (dwSize * dwCount) < 2 ^ 32 ∧
      ((s.manager.pstHandlePool k).stFileHandle.dwFileSize <
        (s.manager.pstHandlePool k).stFileHandle.dwCurrentOffset + u32 (dwSize * dwCount) → Alone s k))
    (hs : kWriteFile s pv dwSize dwCount k = some (n, s')) : ∃ chain', InOrder s' chain' := by
  by_cases hfile : (s.manager.pstHandlePool k).bType = .file
  · obtain ⟨hlt, i, size, off, hplaced⟩ := h.handles k hfile
    obtain ⟨hend, halone⟩ := hsafe hfile
    rw [hplaced.fields.1, hplaced.fields.2] at halone
    rw [hplaced.fields.2] at hend
    have hsize : dwSize ≠ 0 := by
      rintro rfl
      rw [kWriteFile_zero hfile] at hs
      cases hs
    obtain ⟨m, chain', s₁, hm, hwrite, hplaced', hbeside, -, -, hstays, -⟩ := kWriteFile_placed hplaced pv _ _ hsize hend
    rw [hwrite] at hs
    cases hs
    refine ⟨chain', h.through hlt hplaced' hbeside ?_⟩
    by_cases hgrown : size < off + u32 (dwSize * dwCount)
    · have hno := halone hgrown
      unfold Alone at hno
      rw [hplaced.entryOf] at hno
      exact .inl hno
    · refine .inr ⟨?_, hstays (by omega)⟩
      rw [hplaced'.sizeOf, hplaced.sizeOf]
      omega
  · rw [kWriteFile_closed hfile] at hs
    cases hs
    exact ⟨chain, h⟩

theorem kSeekFile_inOrder (h : InOrder s chain) {iOffset iOrigin : Int} (hlow : -2 ^ 31 ≤ iOffset)
    (hhigh : iOffset < 2 ^ 31) (hsafe : (s.manager.pstHandlePool k).bType = .file →
      (s.manager.pstHandlePool k).stFileHandle.dwFileSize < s.targetOf k iOffset iOrigin →
      PastCluster s k iOffset iOrigin ∧ Alone s k)
    (hs : kSeekFile s k iOffset iOrigin = some (r, s')) : ∃ chain', InOrder s' chain' := by
  by_cases hfile : (s.manager.pstHandlePool k).bType = .file
  · obtain ⟨hlt, i, size, off, hplaced⟩ := h.handles k hfile
    have hsafe' := hsafe hfile
    unfold PastCluster at hsafe'
    rw [hplaced.targetOf, hplaced.fields.1] at hsafe'
    have hsize_lt := hplaced.size_lt
    have hreal : target size off iOffset iOrigin < 2 ^ 32 → ∀ fh : FileHandle, fh.dwFileSize = size →
        fh.dwCurrentOffset = off → realOffset fh iOffset iOrigin = target size off iOffset iOrigin := by
      intro hdest fh hsize hoff
      rw [← hsize, ← hoff] at hdest ⊢
      exact realOffset_eq hlow hhigh hdest
    by_cases hpast : size < target size off iOffset iOrigin
    · obtain ⟨⟨hext, hdest⟩, halone⟩ := hsafe' hpast
      obtain ⟨n, chain', s₁, -, hseek, hplaced', hbeside, -⟩ := kSeekFile_past hplaced iOffset iOrigin hext hdest
        (hreal hdest)
      rw [hseek] at hs
      cases hs
      unfold Alone at halone
      rw [hplaced.entryOf] at halone
      exact ⟨chain', h.through hlt hplaced' hbeside (.inl halone)⟩
    · obtain ⟨s₁, hseek, hplaced', hbeside, hsize, -⟩ := kSeekFile_placed hplaced (Nat.not_lt.1 hpast) (hreal (by omega))
      rw [hseek] at hs
      cases hs
      exact ⟨chain, h.through hlt hplaced' hbeside (.inr ⟨hsize, rfl⟩)⟩
  · rw [kSeekFile_closed hfile] at hs
    cases hs
    exact ⟨chain, h⟩

theorem kReadFile_closed (hfile : (s.manager.pstHandlePool k).bType ≠ .file) (pv : Memory) (dwSize dwCount : Nat) :
    kReadFile s pv dwSize dwCount k = ((0, pv), s) := if_pos hfile

theorem kReadFile_inOrder (h : InOrder s chain) (pv : Memory) (dwSize dwCount : Nat) :
    InOrder (kReadFile s pv dwSize dwCount k).2 chain := by
  by_cases hfile : (s.manager.pstHandlePool k).bType = .file
  · obtain ⟨hlt, i, size, off, hplaced⟩ := h.handles k hfile
    obtain ⟨pv', s₁, hread, hplaced', hbeside, hsize, -⟩ := kReadFile_placed hplaced pv dwSize dwCount
    rw [hread]
    exact h.through hlt hplaced' hbeside (.inr ⟨hsize, rfl⟩)
  · rw [kReadFile_closed hfile]
    exact h

theorem kCloseFile_inOrder (h : InOrder s chain) (k : Nat) : InOrder (kCloseFile s k).2 chain := by
  unfold kCloseFile
  split
  · exact h
  · refine ⟨h.sound.setHandle k _, h.fits, fun j hfile => ?_⟩
    by_cases hj : j = k
    · subst hj
      unfold kFreeFileDirectoryHandle at hfile
      rw [pool_setHandle] at hfile
      cases hfile
    · have hpool : (kFreeFileDirectoryHandle s k).manager.pstHandlePool j = s.manager.pstHandlePool j :=
        Function.update_of_ne hj _ _
      rw [hpool] at hfile
      obtain ⟨hlt, e, size, off, hplaced⟩ := h.handles j hfile
      exact ⟨hlt, e, size, off, hplaced.carry (h.sound.setHandle k _) h.fits hpool rfl rfl rfl⟩

variable {name : List UInt8} {stEntry : Memory}

theorem kRemoveFile_inOrder (h : InOrder s chain) (hnul : 0 ∉ name)
    (hs : kRemoveFile s name stEntry = some (r, s')) : ∃ chain', InOrder s' chain' := by
  obtain ⟨r', s₁, hremove, ⟨chain', hsound, hfits⟩, hk, hh⟩ := kRemoveFile_sound h.sound h.handlesIn hnul stEntry
  rw [hremove] at hs
  cases hs
  obtain ⟨i, own, honly, hown, -, hunused⟩ := kRemoveFile_onlyFile h.sound hnul hremove
  refine ⟨chain', h.onlyFile honly hown hsound (hfits h.fits) hk.pool fun j hfile heq => hunused ?_⟩
  have hused := (hh j (by rw [hk.pool]; exact hfile)).2.1
  rw [hk.pool] at hused
  exact heq ▸ hused

theorem openEntry_inOrder (h : InOrder s chain) (hname : ValidName name) {o : Option (Nat × Memory)}
    (hsafe : mode = 'w' → ∀ j < FILESYSTEM_HANDLE_MAXCOUNT,
      (s.manager.pstHandlePool j).bType = .file → (kFindDirectoryEntry s name stEntry).1.1 ≠ some (s.entryOf j))
    (hopen : openEntry s name mode stEntry = some (o, s')) : ∃ chain', InOrder s' chain' ∧
      ∀ i e k, o = some (i, e) → k < FILESYSTEM_HANDLE_MAXCOUNT →
        InOrder (s'.setHandle k ⟨.file, newHandle i e⟩) chain' ∧
        Placed (s'.setHandle k ⟨.file, newHandle i e⟩) chain' k i (read32 e 24) 0 := by
  obtain ⟨o', s₁, hopen', ⟨chain', hsound', hfits'⟩, hk', hspec⟩ := openEntry_sound h.sound hname.1 hname.2 mode stEntry
  rw [hopen] at hopen'
  cases hopen'
  obtain ⟨i, own, honly, hown, hfound, -, -⟩ := openEntry_onlyFile h.sound hname hopen
  have h' : InOrder s' chain' := by
    refine h.onlyFile honly hown hsound' (hfits' h.fits) hk'.pool fun j hfile heq => ?_
    obtain ⟨hlt, e, size, off, hplaced⟩ := h.handles j hfile
    have hused : Used s i := by
      rw [← heq, hplaced.entryOf]
      exact hplaced.used
    obtain ⟨hmode, hfind, -⟩ := hfound hused
    exact hsafe hmode j hlt hfile (by rw [hfind, heq])
  refine ⟨chain', h', fun i e k ho hlt => ?_⟩
  obtain ⟨hused, hstart, hsize⟩ := hspec i e ho
  rw [newHandle_placed hsound' hused hstart]
  have hplaced : Placed (s'.setHandle k ⟨.file, (newHandle i e).placed (chain' i) 0⟩) chain' k i (read32 e 24) 0 :=
    hsound'.placed (hfits' h.fits) hused hsize.symm (Nat.zero_le _) rfl rfl hstart
  have hbeside : Beside s' (s'.setHandle k ⟨.file, (newHandle i e).placed (chain' i) 0⟩) chain' chain' k i :=
    ((relinked_buffer hsound'.ready s'.buffer).toKept.beside (fun _ _ => rfl) k).setHandle _
  exact ⟨h'.through hlt hplaced hbeside (.inr ⟨rfl, rfl⟩), hplaced⟩

theorem kOpenFile_inOrder (h : InOrder s chain) (hnul : 0 ∉ name)
    {r : Option Nat} (hsafe : mode = 'w' → ∀ j < FILESYSTEM_HANDLE_MAXCOUNT, (s.manager.pstHandlePool j).bType = .file →
      (kFindDirectoryEntry s name stEntry).1.1 ≠ some (s.entryOf j))
    (hs : kOpenFile s name mode stEntry = some (r, s')) : ∃ chain', InOrder s' chain' := by
  cases kOpenFile_cases hs with
  | badName hbad => exact ⟨chain, h⟩
  | noHandle o _ hname hopen =>
    obtain ⟨chain₁, h₁, -⟩ := openEntry_inOrder h ⟨hname, hnul⟩ hsafe hopen
    exact ⟨chain₁, h₁⟩
  | atStart i e s₁ k hname hopen hk =>
    obtain ⟨chain₁, -, hnew⟩ := openEntry_inOrder h ⟨hname, hnul⟩ hsafe hopen
    exact ⟨chain₁, (hnew i e k rfl hk).1⟩
  | atEnd i e s₁ k m _ hname hopen hk hseek =>
    obtain ⟨chain₁, -, hnew⟩ := openEntry_inOrder h ⟨hname, hnul⟩ hsafe hopen
    obtain ⟨h₂, hplaced⟩ := hnew i e k rfl hk
    -- the end is not behind the end
    refine kSeekFile_inOrder h₂ (by decide) (by decide) (fun _ hpast => ?_) hseek
    rw [hplaced.targetOf, hplaced.fields.1] at hpast
    unfold target at hpast
    rw [if_neg (by decide), if_neg (by decide), if_pos rfl] at hpast
    omega

/-! ## Runs -/

def Idle (s : State) : Prop :=
  s.manager.dwTotalClusterCount = 0 ∧ ∀ k, (s.manager.pstHandlePool k).bType ≠ .file

theorem Idle.diskCall (h : Idle s) (hsafe : Orderly s call) (hs : s.diskCall call = some s') :
    s' = s := by
  obtain ⟨hzero, hnone⟩ := h
  cases call with
  | volume call =>
    cases call with
    | kOpenFile name mode stEntry => exact absurd hzero (Nat.ne_of_gt hsafe.1)
    | kRemoveFile name stEntry => exact absurd hzero (Nat.ne_of_gt hsafe)
    | kWriteFile pvBuffer dwSize dwCount k =>
      obtain ⟨⟨n, s₁⟩, hwrite, rfl⟩ := map_eq_some_iff.1 hs
      rw [kWriteFile_closed (hnone k)] at hwrite
      cases hwrite
      rfl
    | kSeekFile k iOffset iOrigin =>
      obtain ⟨⟨r, s₁⟩, hseek, rfl⟩ := map_eq_some_iff.1 hs
      rw [kSeekFile_closed (hnone k)] at hseek
      cases hseek
      rfl
    | kCloseFile k =>
      cases hs
      unfold kCloseFile
      rw [if_pos (hnone k)]
  | kReadFile pvBuffer dwSize dwCount k =>
    cases hs
    rw [kReadFile_closed (hnone k)]

theorem diskCall_inOrder (h : InOrder s chain) (hsafe : Orderly s call)
    (hs : s.diskCall call = some s') : ∃ chain', InOrder s' chain' := by
  cases call with
  | volume call =>
    cases call with
    | kOpenFile name mode stEntry =>
      obtain ⟨⟨r, s₁⟩, hopen, rfl⟩ := map_eq_some_iff.1 hs
      exact kOpenFile_inOrder h name.noNul hsafe.2 hopen
    | kWriteFile pvBuffer dwSize dwCount k =>
      obtain ⟨⟨n, s₁⟩, hwrite, rfl⟩ := map_eq_some_iff.1 hs
      exact kWriteFile_inOrder h hsafe hwrite
    | kSeekFile k iOffset iOrigin =>
      obtain ⟨⟨r, s₁⟩, hseek, rfl⟩ := map_eq_some_iff.1 hs
      exact kSeekFile_inOrder h iOffset.le_toInt iOffset.toInt_lt hsafe hseek
    | kCloseFile k =>
      cases hs
      exact ⟨chain, kCloseFile_inOrder h k⟩
    | kRemoveFile name stEntry =>
      obtain ⟨⟨r, s₁⟩, hremove, rfl⟩ := map_eq_some_iff.1 hs
      exact kRemoveFile_inOrder h name.noNul hremove
  | kReadFile pvBuffer dwSize dwCount k =>
    cases hs
    exact ⟨chain, kReadFile_inOrder h pvBuffer dwSize.toNat dwCount.toNat⟩

theorem disk_inOrder (h : disk.ReachVia Orderly s) : (∃ chain, InOrder s chain) ∨ Idle s := by
  refine h.invariant (fun s => (∃ chain, InOrder s chain) ∨ Idle s) ?_ fun s call s' hi hsafe hs => ?_
  · rintro s ⟨disk, buffer, T, hT, hT', rfl⟩
    obtain ⟨hstart, -, hpool, -⟩ := boot_empty disk buffer hT hT'
    have hnone : ∀ k, ((boot disk buffer T).manager.pstHandlePool k).bType ≠ .file := fun k => by
      rw [hpool k]
      nofun
    rcases Nat.eq_zero_or_pos (boot disk buffer T).manager.dwTotalClusterCount with hzero | hpos
    · exact .inr ⟨hzero, hnone⟩
    · exact .inl ⟨_, (boot_sound disk buffer hT hT' hpos).1, fun i hi => absurd (hstart i hi.1) hi.2,
        fun k hfile => absurd hfile (hnone k)⟩
  · rcases hi with ⟨chain, hi⟩ | hi
    · exact .inl (diskCall_inOrder hi hsafe hs)
    · rw [hi.diskCall hsafe hs]
      exact .inr hi

/-- **Seeking past the end.** With sector operations that move all they are asked for: in every orderly run, a seek past
the end of an open file is right exactly when it goes to a cluster behind the last and there are clusters up to it, and
every read is inside the file. And whatever state and handle there are, a read is inside the file exactly when the cursor
is not behind its end, or nothing is read. -/
theorem seek_past (s : State) (k : Nat) :
    (disk.ReachVia Orderly s → (s.manager.pstHandlePool k).bType = .file →
      (∀ iOffset iOrigin : Int32,
        (s.manager.pstHandlePool k).stFileHandle.dwFileSize < s.targetOf k iOffset.toInt iOrigin.toInt →
        (SeekRight s k iOffset.toInt iOrigin.toInt ↔
          PastCluster s k iOffset.toInt iOrigin.toInt ∧ HasRoom s k iOffset.toInt iOrigin.toInt)) ∧
      ∀ pvBuffer dwSize dwCount, ReadInside s pvBuffer dwSize dwCount k) ∧
    ∀ pvBuffer dwSize dwCount, (s.manager.pstHandlePool k).stFileHandle.dwCurrentOffset < 2 ^ 32 →
      (s.manager.pstHandlePool k).stFileHandle.dwFileSize < 2 ^ 32 →
      (ReadInside s pvBuffer dwSize dwCount k ↔ (s.manager.pstHandlePool k).stFileHandle.dwCurrentOffset ≤
        (s.manager.pstHandlePool k).stFileHandle.dwFileSize ∨ ReadsNothing s dwSize dwCount k) := by
  refine ⟨fun h hfile => ?_, fun pvBuffer dwSize dwCount => kReadFile_inside_iff s pvBuffer dwSize dwCount k⟩
  rcases disk_inOrder h with ⟨chain, hin⟩ | hidle
  · obtain ⟨-, i, size, off, hplaced⟩ := hin.handles k hfile
    obtain ⟨hsize, hoff⟩ := hplaced.fields
    refine ⟨fun iOffset iOrigin hpast => ?_, fun pvBuffer dwSize dwCount => ?_⟩
    · rw [hsize] at hpast
      exact seekRight_iff hplaced iOffset.le_toInt iOffset.toInt_lt hpast
    · have hle := hplaced.off_le
      have hlt := hplaced.size_lt
      refine (kReadFile_inside_iff s pvBuffer dwSize dwCount k (by omega) (by omega)).2 (.inl ?_)
      rw [hsize, hoff]
      exact hle
  · exact absurd hfile (hidle.2 k)

instance (s : State) (k : Nat) : Decidable (Alone s k) := inferInstanceAs (Decidable (∀ j < _, _ → _ → _ ≠ _))

instance (s : State) (k : Nat) (iOffset iOrigin : Int) : Decidable (PastCluster s k iOffset iOrigin) :=
  inferInstanceAs (Decidable (_ < _ ∧ _ < _))

instance (s : State) (k : Nat) (iOffset iOrigin : Int) : Decidable (HasRoom s k iOffset iOrigin) :=
  inferInstanceAs (Decidable (_ ≤ _))

instance (s : State) : (call : DiskCall) → Decidable (Orderly s call)
  | .volume (.kOpenFile ..) => inferInstanceAs (Decidable (_ ∧ (_ → ∀ j < _, _ → _ ≠ _)))
  | .volume (.kWriteFile ..) => inferInstanceAs (Decidable (_ → _ ∧ (_ → Alone ..)))
  | .volume (.kSeekFile ..) => inferInstanceAs (Decidable (_ → _ → PastCluster .. ∧ Alone ..))
  | .volume (.kRemoveFile ..) => inferInstanceAs (Decidable (_ < _))
  | .volume (.kCloseFile _) => .isTrue trivial
  | .kReadFile .. => .isTrue trivial

theorem disk_init (disk₀ buffer : Memory) {T : Nat} (h : 9 ≤ T) (hT : T < 2 ^ 32) {P : State → DiskCall → Prop} :
    disk.ReachVia P (boot disk₀ buffer T) :=
  .init ⟨disk₀, buffer, T, h, hT, rfl⟩

/-- A file of 3 bytes grows to 5000, by zeros. -/
theorem seek_past_run : ∃ s, disk.ReachVia Orderly s ∧ SeekRight s 0 5000 0 := by
  let start : State := boot (fun _ => 0) (fun _ => 0) 40
  let a : FileName := ⟨[97], by decide⟩
  let h0 : Fin FILESYSTEM_HANDLE_MAXCOUNT := ⟨0, by decide⟩
  let calls : List DiskCall := [.volume (.kOpenFile a 'w' fun _ => 0), .volume (.kWriteFile (fun _ => 1) 1 3 h0)]
  have hrun : (disk.exec start calls).map (fun s => decide ((s.manager.pstHandlePool 0).bType = .file ∧
      (s.manager.pstHandlePool 0).stFileHandle.dwFileSize < s.targetOf 0 5000 0 ∧
      PastCluster s 0 5000 0 ∧ HasRoom s 0 5000 0)) = some true := by decide +kernel
  have hmeets : disk.Meets Orderly start calls := by decide +kernel
  obtain ⟨s, hs, hfacts⟩ := Option.map_eq_some_iff.1 hrun
  obtain ⟨hfile, hpast, hcluster, hroom⟩ := of_decide_eq_true hfacts
  have hreach := StepSystem.reachVia_exec calls (disk_init _ _ (by decide) (by decide)) hmeets hs
  exact ⟨s, hreach, (((seek_past s 0).1 hreach hfile).1 5000 0 hpast).2 ⟨hcluster, hroom⟩⟩

/-- **A target in the last cluster.** In a new file, a seek to 100 leaves the file empty. -/
theorem seek_within_cluster : ∃ s, disk.ReachVia Orderly s ∧ (s.manager.pstHandlePool 0).bType = .file ∧
    (s.manager.pstHandlePool 0).stFileHandle.dwFileSize < s.targetOf 0 100 0 ∧ HasRoom s 0 100 0 ∧
    ¬SeekRight s 0 100 0 := by
  let start : State := boot (fun _ => 0) (fun _ => 0) 40
  let calls : List DiskCall := [.volume (.kOpenFile ⟨[97], by decide⟩ 'w' fun _ => 0)]
  have hrun : (disk.exec start calls).map (fun s => decide ((s.manager.pstHandlePool 0).bType = .file ∧
      (s.manager.pstHandlePool 0).stFileHandle.dwFileSize < s.targetOf 0 100 0 ∧ HasRoom s 0 100 0 ∧
      (kSeekFile s 0 100 0).map (fun r => (r.2.manager.pstHandlePool 0).stFileHandle.dwFileSize) = some 0 ∧
      s.targetOf 0 100 0 = 100)) = some true := by decide +kernel
  have hmeets : disk.Meets Orderly start calls := by decide +kernel
  obtain ⟨s, hs, hfacts⟩ := Option.map_eq_some_iff.1 hrun
  obtain ⟨hfile, hpast, hroom, hafter, htarget⟩ := of_decide_eq_true hfacts
  refine ⟨s, StepSystem.reachVia_exec calls (disk_init _ _ (by decide) (by decide)) hmeets hs, hfile, hpast, hroom,
    ?_⟩
  rintro ⟨r, s', hseek, hends, -⟩
  rw [hseek, Option.map_some] at hafter
  have hsize := hends.size
  rw [Option.some.inj hafter, htarget] at hsize
  cases hsize

end Mint
