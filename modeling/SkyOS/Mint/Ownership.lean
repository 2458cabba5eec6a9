import Mathlib.Data.List.Perm.Subperm
import SkyOS.Mint.Rounds

/-!
# Who owns the clusters of a MINT volume

The link table is a family of chains, one for each used entry of the root directory (`Sound`). A free cluster is
put behind the end of a chain, or it starts one; truncation and removal give the cells of a chain back. What can go
wrong is a handle whose place is no longer what it was when it was cached (`Fresh` says that it is): the file has been
truncated, or has grown, through another handle.

| here | there |
| --- | --- |
| `Used` | `dwStartClusterIndex` of a directory entry is not 0 |
| `InUse` | the link of a cluster other than 0 is not `FILESYSTEM_FREECLUSTER` |
-/

namespace Mint

open Bytes Machine LinkChain List
open Function (update update_apply update_of_ne update_self)

variable {s s' : State} {chain : Nat → List Nat} {fh : FileHandle}

def Used (s : State) (i : Nat) : Prop := i < FILESYSTEM_MAXDIRECTORYENTRYCOUNT ∧ s.startOf i ≠ 0

def Live (s : State) (c : Nat) : Prop := c ≠ 0 ∧ c < s.manager.dwTotalClusterCount

/-- The volume is a family of chains. Entries that are not used have an empty name, so they are not found. -/
structure Sound (s : State) (chain : Nat → List Nat) : Prop where
  ready : Ready s
  owns : Owns s.link FILESYSTEM_LASTCLUSTER FILESYSTEM_FREECLUSTER (Live s) (Used s) s.startOf chain
  root : s.link 0 ≠ FILESYSTEM_FREECLUSTER
  unnamed : ∀ i < FILESYSTEM_MAXDIRECTORYENTRYCOUNT, s.startOf i = 0 → s.initialOf i = 0

def InUse (s : State) (c : Nat) : Prop := Live s c ∧ s.link c ≠ FILESYSTEM_FREECLUSTER

/-- The handle still stands on a cluster in use, or behind one that is still the last of its chain. -/
def Fresh (s : State) (fh : FileHandle) : Prop :=
  if fh.dwCurrentClusterIndex = FILESYSTEM_LASTCLUSTER then
    InUse s fh.dwPreviousClusterIndex ∧ s.link fh.dwPreviousClusterIndex = FILESYSTEM_LASTCLUSTER
  else InUse s fh.dwCurrentClusterIndex

/-! ## The clusters in use are those of the chains -/

variable {i c p k count n : Nat} {iOffset iOrigin : Int}

section

variable (h : Sound s chain)
include h

theorem Sound.inUse_of_mem (hc : c ∈ chain i) : InUse s c := h.owns.inside i c hc

theorem Sound.mem_of_inUse (hc : InUse s c) : ∃ i, c ∈ chain i :=
  h.owns.covered c hc.1 hc.2

theorem Sound.used_of_mem (hc : c ∈ chain i) : Used s i :=
  (h.owns.nonempty i).1 (ne_nil_of_mem hc)

theorem Sound.ne_last (hc : InUse s c) : c ≠ FILESYSTEM_LASTCLUSTER :=
  Nat.ne_of_lt (h.ready.geometry.lt_last hc.1.2)

theorem Sound.length_chain_le (hi : Used s i) :
    (chain i).length ≤ s.manager.dwTotalClusterCount := by
  have hsub : (chain i).Subperm (List.range s.manager.dwTotalClusterCount) :=
    (h.owns.chained i hi).nodup.subperm fun c hc => mem_range.2 (h.inUse_of_mem hc).1.2
  have hlen := hsub.length_le
  rwa [length_range] at hlen

theorem Sound.link_inUse (hc : InUse s c) :
    s.link c = FILESYSTEM_LASTCLUSTER ∨ InUse s (s.link c) := by
  obtain ⟨i, hi⟩ := h.mem_of_inUse hc
  rcases (h.owns.chained i (h.used_of_mem hi)).next_mem hi with hlast | hmem
  · exact .inl hlast
  · exact .inr (h.inUse_of_mem hmem)

end

theorem Fresh.onCluster (hf : Fresh s fh) : OnCluster s fh := by
  unfold Fresh at hf
  unfold OnCluster
  split
  · rename_i hlast
    rw [if_pos hlast] at hf
    exact hf.1.1.2
  · rename_i hlast
    rw [if_neg hlast] at hf
    exact ⟨hf.1.2, hf.1.1⟩

theorem Sound.fresh_advance (h : Sound s chain) (fh : FileHandle) {link : Nat → Nat} (hc : InUse s fh.dwCurrentClusterIndex)
    (hlink : s.link fh.dwCurrentClusterIndex = link fh.dwCurrentClusterIndex) (n : Nat) :
    Fresh s (fh.advance link n) := by
  unfold FileHandle.advance
  dsimp only
  split
  · unfold Fresh
    dsimp only
    rw [← hlink]
    split
    · rename_i hlast
      exact ⟨hc, hlast⟩
    · rename_i hlast
      exact (h.link_inUse hc).resolve_left hlast
  · unfold Fresh
    rw [if_neg (h.ne_last hc)]
    exact hc

/-! ## What is kept -/

theorem Kept.used (hk : Kept s s') (i : Nat) : Used s' i ↔ Used s i := by
  unfold Used
  constructor <;> rintro ⟨hi, hne⟩ <;> refine ⟨hi, ?_⟩
  · rwa [hk.startOf hi] at hne
  · rwa [hk.startOf hi]

theorem Steady.live (hk : Steady s s') : Live s' = Live s := by
  unfold Live
  rw [hk.total]

theorem Sound.kept (h : Sound s chain) (hk : Kept s s')
    (hlinks : ∀ c < s.manager.dwTotalClusterCount, s'.link c = s.link c) : Sound s' chain := by
  refine ⟨hk.ready h.ready, ?_, ?_, fun i hi h0 => ?_⟩
  · rw [hk.live]
    exact h.owns.congr (fun c hc => hlinks c hc.2) hk.used fun i hi => hk.startOf hi.1
  · rw [hlinks 0 h.ready.geometry.pos]
    exact h.root
  · rw [hk.initialOf hi]
    exact h.unnamed i hi (by rwa [hk.startOf hi] at h0)

theorem Fresh.kept (hf : Fresh s fh) (hk : Steady s s')
    (hlinks : ∀ c < s.manager.dwTotalClusterCount, s'.link c = s.link c) : Fresh s' fh := by
  have hin : ∀ c, InUse s c → InUse s' c := fun c hc => by
    unfold InUse
    rw [hk.live, hlinks c hc.1.2]
    exact hc
  unfold Fresh at hf ⊢
  split
  · rename_i hlast
    rw [if_pos hlast] at hf
    rw [hlinks _ hf.1.1.2]
    exact ⟨hin _ hf.1, hf.2⟩
  · rename_i hlast
    rw [if_neg hlast] at hf
    exact hin _ hf

/-! ## Writing -/

/-- **A free cluster behind the end of a chain.** -/
theorem Sound.grow (h : Sound s chain) (hk : Kept s s') {a : Nat} (hi : p ∈ chain i)
    (hend : s.link p = FILESYSTEM_LASTCLUSTER) (ha : a < s.manager.dwTotalClusterCount)
    (hfree : s.link a = FILESYSTEM_FREECLUSTER)
    (hlinks : ∀ c < s.manager.dwTotalClusterCount,
      s'.link c = update (update s.link a FILESYSTEM_LASTCLUSTER) p a c) :
    Sound s' (update chain i (chain i ++ [a])) := by
  have hp := h.inUse_of_mem hi
  have hused := h.used_of_mem hi
  have hchain := h.owns.chained i hused
  have ha0 : a ≠ 0 := by
    rintro rfl
    exact h.root hfree
  have hai : a ∉ chain i := fun hmem => (h.inUse_of_mem hmem).2 hfree
  have hap : a ≠ p := by
    rintro rfl
    exact hp.2 hfree
  have halast : a ≠ FILESYSTEM_LASTCLUSTER := Nat.ne_of_lt (h.ready.geometry.lt_last ha)
  have hin : ∀ c ∈ chain i, c < s.manager.dwTotalClusterCount := fun c hc => (h.inUse_of_mem hc).1.2
  have hlink_a : s'.link a = FILESYSTEM_LASTCLUSTER := by
    rw [hlinks a ha, update_of_ne hap, update_self]
  have hlink_p : s'.link p = a := by rw [hlinks p hp.1.2, update_self]
  have hlink_other : ∀ c, Live s c → c ≠ a → c ≠ p → s'.link c = s.link c := fun c hc hca hcp => by
    rw [hlinks c hc.2, update_of_ne hcp, update_of_ne hca]
  have howns : Owns s'.link FILESYSTEM_LASTCLUSTER FILESYSTEM_FREECLUSTER (Live s) (Used s') s'.startOf
      (update chain i (chain i ++ [a])) := by
    refine h.owns.replace (fun j _ => hk.used j) (fun j _ hj => hk.startOf hj.1) (fun _ => ?_) ?_
      (fun c hc hci hcl => ?_) (fun c hc => ?_) (fun c hci hcl => ?_)
    · rw [hk.startOf hused.1]
      have happend := hchain.append (ne_nil_of_mem hi) hai halast
      rw [← hchain.eq_getLast hi hend] at happend
      refine happend.congr fun c hc => ?_
      rcases mem_append.1 hc with hc | hc
      · exact hlinks c (hin c hc)
      · rw [mem_singleton.1 hc]
        exact hlinks a ha
    · rw [hk.used i]
      simp [hused]
    · refine hlink_other c hc ?_ ?_
      · rintro rfl
        exact hcl (mem_append_right _ (mem_singleton.2 rfl))
      · rintro rfl
        exact hci hi
    · rcases mem_append.1 hc with hci | hca
      · refine ⟨(h.inUse_of_mem hci).1, ?_, .inl hci⟩
        by_cases hcp : c = p
        · rw [hcp, hlink_p]
          exact ha0
        · rw [hlink_other c (h.inUse_of_mem hci).1 (fun hca => hai (hca ▸ hci)) hcp]
          exact (h.inUse_of_mem hci).2
      · obtain rfl := mem_singleton.1 hca
        refine ⟨⟨ha0, ha⟩, ?_, .inr hfree⟩
        rw [hlink_a]
        decide
    · exact absurd (mem_append_left _ hci) hcl
  refine ⟨hk.ready h.ready, by rwa [hk.live], ?_, fun j hj h0 => ?_⟩
  · rw [hlinks 0 h.ready.geometry.pos, update_of_ne hp.1.1.symm, update_of_ne ha0.symm]
    exact h.root
  · rw [hk.initialOf hj]
    exact h.unnamed j hj (by rwa [hk.startOf hj] at h0)

def SameFile (fh fh' : FileHandle) : Prop :=
  fh'.iDirectoryEntryOffset = fh.iDirectoryEntryOffset ∧ fh'.dwStartClusterIndex = fh.dwStartClusterIndex

variable {fh' : FileHandle} {pv : Memory} {size : Nat} {r : Int}

theorem SameFile.trans {fh'' : FileHandle} (h : SameFile fh fh') (h' : SameFile fh' fh'') : SameFile fh fh'' :=
  ⟨h'.1.trans h.1, h'.2.trans h.2⟩

theorem sameFile_advance (fh : FileHandle) (c : Nat) (link : Nat → Nat) (n : Nat) :
    SameFile fh ({ fh with dwCurrentClusterIndex := c }.advance link n) := by
  unfold FileHandle.advance
  dsimp only
  split <;> exact ⟨rfl, rfl⟩

theorem writeRound_sound (h : Sound s chain) (hf : Fresh s fh) (pv : Memory) (total count : Nat) :
    ∃ chain' go count' fh' s', writeRound s fh pv total count = (go, count', fh', s') ∧
      Sound s' chain' ∧ Fresh s' fh' ∧ Kept s s' ∧ SameFile fh fh' := by
  rcases writeRound_spec h.ready hf.onCluster h.root pv rfl with ⟨s', hround, hs', -, -⟩ |
    ⟨c, link, s', hround, hto, hs'⟩
  · exact ⟨chain, _, _, _, s', hround, h.kept hs'.toKept hs'.links, hf.kept hs'.toSteady hs'.links, hs'.toKept,
      rfl, rfl⟩
  · have hk := hs'.toKept
    -- the cluster that is written to is in use now
    have hgrown : ∃ chain', Sound s' chain' ∧ InUse s' c := by
      unfold WritesTo at hto
      unfold Fresh at hf
      split at hto <;> rename_i hlast
      · rw [if_pos hlast] at hf
        obtain ⟨i, hi⟩ := h.mem_of_inUse hf.1
        have hsound := h.grow hk hi hf.2 hto.1 hto.2.1.1 fun x hx => by rw [hs'.links x hx, hto.2.2]
        refine ⟨_, hsound, hsound.inUse_of_mem (i := i) ?_⟩
        rw [update_self]
        exact mem_append_right _ (mem_singleton.2 rfl)
      · rw [if_neg hlast] at hf
        obtain ⟨rfl, rfl⟩ := hto
        refine ⟨chain, h.kept hk hs'.links, ?_⟩
        unfold InUse
        rw [hk.live, hs'.links _ hf.1.2]
        exact hf
    obtain ⟨chain', hsound, hc⟩ := hgrown
    have hct : c < s.manager.dwTotalClusterCount := by rw [← hk.total]; exact hc.1.2
    exact ⟨chain', _, _, _, s', hround, hsound,
      hsound.fresh_advance { fh with dwCurrentClusterIndex := c } hc (hs'.links c hct) _, hk,
      sameFile_advance fh c link _⟩

theorem writeLoop_sound (h : Sound s chain) (hf : Fresh s fh) (pv : Memory) (total rounds count : Nat) :
    ∃ chain' count' fh' s', writeLoop pv total rounds s fh count = (count', fh', s') ∧
      Sound s' chain' ∧ Fresh s' fh' ∧ Kept s s' ∧ SameFile fh fh' := by
  induction rounds generalizing s chain fh count with
  | zero =>
    exact ⟨chain, count, fh, s, rfl, h, hf, (relinked_buffer h.ready s.buffer).toKept, rfl, rfl⟩
  | succ rounds ih =>
    rw [writeLoop]
    split
    · exact ⟨chain, count, fh, s, rfl, h, hf, (relinked_buffer h.ready s.buffer).toKept, rfl, rfl⟩
    · obtain ⟨chain₁, go, count₁, fh₁, s₁, hround, h₁, hf₁, hk₁, hsame₁⟩ := writeRound_sound h hf pv total count
      rw [hround]
      cases go with
      | false => exact ⟨chain₁, count₁, fh₁, s₁, rfl, h₁, hf₁, hk₁, hsame₁⟩
      | true =>
        obtain ⟨chain₂, count₂, fh₂, s₂, hloop, h₂, hf₂, hk₂, hsame₂⟩ := ih h₁ hf₁ count₁
        exact ⟨chain₂, count₂, fh₂, s₂, hloop, h₂, hf₂, hk₁.trans hk₂, hsame₁.trans hsame₂⟩

/-! ## The directory and the handles -/

structure SameStarts (s s' : State) : Prop extends Steady s s' where
  startOf : ∀ i < FILESYSTEM_MAXDIRECTORYENTRYCOUNT, s'.startOf i = s.startOf i

theorem Kept.sameStarts (h : Kept s s') : SameStarts s s' := ⟨h.toSteady, fun _ hi => h.startOf hi⟩

theorem SameStarts.trans {s'' : State} (h : SameStarts s s') (h' : SameStarts s' s'') : SameStarts s s'' :=
  ⟨h.toSteady.trans h'.toSteady, fun i hi => (h'.startOf i hi).trans (h.startOf i hi)⟩

def HandlesIn (s : State) : Prop := ∀ h, (s.manager.pstHandlePool h).bType = .file →
  h < FILESYSTEM_HANDLE_MAXCOUNT ∧ Used s (s.manager.pstHandlePool h).stFileHandle.iDirectoryEntryOffset ∧
  s.startOf (s.manager.pstHandlePool h).stFileHandle.iDirectoryEntryOffset =
    (s.manager.pstHandlePool h).stFileHandle.dwStartClusterIndex

theorem SameStarts.used (hk : SameStarts s s') (i : Nat) : Used s' i ↔ Used s i := by
  unfold Used
  constructor <;> rintro ⟨hi, hne⟩ <;> refine ⟨hi, ?_⟩
  · rwa [hk.startOf i hi] at hne
  · rwa [hk.startOf i hi]

theorem Sound.entered (h : Sound s chain) {e : Memory} (hs' : Entered s s' i e) (hused : Used s i)
    (hstart : read32 e 28 = s.startOf i) : Sound s' chain ∧ SameStarts s s' := by
  have hsame : SameStarts s s' := by
    refine ⟨hs'.toSteady, fun j _ => ?_⟩
    rw [hs'.startOf, update_apply]
    split
    · rename_i hji
      rw [hji, hstart]
    · rfl
  refine ⟨⟨hs'.ready h.ready, ?_, ?_, fun j hj h0 => ?_⟩, hsame⟩
  · rw [hs'.live]
    exact h.owns.congr (fun c hc => hs'.links c hc.2) hsame.used fun j hj => hsame.startOf j hj.1
  · rw [hs'.links 0 h.ready.geometry.pos]
    exact h.root
  · rw [hsame.startOf j hj] at h0
    have hji : j ≠ i := by
      rintro rfl
      exact hused.2 h0
    rw [hs'.initialOf, update_of_ne hji]
    exact h.unnamed j hj h0

@[simp] theorem pool_setHandle (s : State) (k : Nat) (file : MFile) :
    (s.setHandle k file).manager.pstHandlePool k = file :=
  update_self (β := fun _ => MFile) k file s.manager.pstHandlePool

theorem Sound.setHandle (h : Sound s chain) (k : Nat) (file : MFile) : Sound (s.setHandle k file) chain := by
  obtain ⟨⟨⟨mounted, area, cover, tight, fits, last, pos⟩, noFaults⟩, owns, root, unnamed⟩ := h
  exact ⟨⟨⟨mounted, area, cover, tight, fits, last, pos⟩, noFaults⟩, owns, root, unnamed⟩

theorem HandlesIn.sameStarts (hh : HandlesIn s) (hk : SameStarts s s') : HandlesIn s' := by
  intro k hfile
  rw [hk.pool] at hfile ⊢
  obtain ⟨hlt, hused, hstart⟩ := hh k hfile
  exact ⟨hlt, (hk.used _).2 hused, (hk.startOf _ hused.1).trans hstart⟩

theorem HandlesIn.setHandle (hh : HandlesIn s) {file : MFile} (hfile : file.bType = .file →
    k < FILESYSTEM_HANDLE_MAXCOUNT ∧ Used s file.stFileHandle.iDirectoryEntryOffset ∧
      s.startOf file.stFileHandle.iDirectoryEntryOffset = file.stFileHandle.dwStartClusterIndex) :
    HandlesIn (s.setHandle k file) := by
  intro j hj
  change (update s.manager.pstHandlePool k file j).bType = .file at hj
  change j < _ ∧ Used s (update s.manager.pstHandlePool k file j).stFileHandle.iDirectoryEntryOffset ∧
    s.startOf (update s.manager.pstHandlePool k file j).stFileHandle.iDirectoryEntryOffset =
      (update s.manager.pstHandlePool k file j).stFileHandle.dwStartClusterIndex
  by_cases hjk : j = k
  · subst hjk
    rw [update_self] at hj ⊢
    exact hfile hj
  · rw [update_of_ne hjk] at hj ⊢
    exact hh j hj

theorem HandlesIn.moved (hh : HandlesIn s) (hk : SameStarts s s')
    (hfile : (s.manager.pstHandlePool k).bType = .file)
    (hsame : SameFile (s.manager.pstHandlePool k).stFileHandle fh') : HandlesIn (s'.setHandle k ⟨.file, fh'⟩) := by
  obtain ⟨hlt, hused, hstart⟩ := hh k hfile
  refine (hh.sameStarts hk).setHandle fun _ => ?_
  rw [hsame.1, hsame.2]
  exact ⟨hlt, (hk.used _).2 hused, (hk.startOf _ hused.1).trans hstart⟩

theorem updateSize_sound (h : Sound s chain) (fh : FileHandle) (hused : Used s fh.iDirectoryEntryOffset)
    (hstart : s.startOf fh.iDirectoryEntryOffset = fh.dwStartClusterIndex) :
    ∃ n s', updateSize s fh = ({ fh with dwFileSize := n }, s') ∧ Sound s' chain ∧ SameStarts s s' ∧
      ∀ c < s.manager.dwTotalClusterCount, s'.link c = s.link c := by
  unfold updateSize
  split
  · obtain ⟨e, s', hupdate, hs', he, -⟩ := kUpdateDirectoryEntry_entered h.ready
      { fh with dwFileSize := fh.dwCurrentOffset } hused.1 (by rw [← hstart]; exact read32_lt _ _)
    obtain ⟨hsound, hsame⟩ := h.entered hs' hused (he.trans hstart.symm)
    exact ⟨fh.dwCurrentOffset, s', by dsimp only; rw [hupdate], hsound, hsame, hs'.links⟩
  · exact ⟨fh.dwFileSize, s, rfl, h, (relinked_buffer h.ready s.buffer).toKept.sameStarts, fun _ _ => rfl⟩

/-- The loop of `kWriteFile`, which does nothing where there is nothing to write. -/
theorem writeLoop_kept (h : Sound s chain) (pv : Memory) {total : Nat} (hf : total ≠ 0 → Fresh s fh) :
    ∃ chain' count' fh' s', writeLoop pv total total s fh 0 = (count', fh', s') ∧ Sound s' chain' ∧ Kept s s' ∧
      SameFile fh fh' ∧ (Fresh s fh → Fresh s' fh') := by
  by_cases hzero : total = 0
  · subst hzero
    exact ⟨chain, 0, fh, s, rfl, h, (relinked_buffer h.ready s.buffer).toKept, ⟨rfl, rfl⟩, id⟩
  · obtain ⟨chain', count', fh', s', hloop, h', hf', hk', hsame'⟩ := writeLoop_sound h (hf hzero) pv total total 0
    exact ⟨chain', count', fh', s', hloop, h', hk', hsame', fun _ => hf'⟩

theorem kWriteFile_closed (hfile : (s.manager.pstHandlePool k).bType ≠ .file) (pv : Memory)
    (size count : Nat) : kWriteFile s pv size count k = some (0, s) := if_pos hfile

/-- What `kWriteFile` does. -/
inductive Written (s : State) (pv : Memory) (size count k : Nat) (fh : FileHandle) : Nat → State → Prop where
  | closed (hfile : (s.manager.pstHandlePool k).bType ≠ .file) : Written s pv size count k fh 0 s
  | stored (count' : Nat) (fh' fh'' : FileHandle) (s' s'' : State)
    (hfile : (s.manager.pstHandlePool k).bType = .file)
    (hloop : writeLoop pv (u32 (size * count)) (u32 (size * count)) s fh 0 = (count', fh', s'))
    (hupdate : updateSize s' fh' = (fh'', s'')) :
    Written s pv size count k fh (count' / size) (s''.setHandle k ⟨.file, fh''⟩)

theorem kWriteFile_cases (hs : kWriteFile s pv size count k = some (n, s')) :
    Written s pv size count k (s.manager.pstHandlePool k).stFileHandle n s' := by
  by_cases hfile : (s.manager.pstHandlePool k).bType = .file
  · unfold kWriteFile at hs
    rw [if_neg (not_not.2 hfile)] at hs
    obtain ⟨_, hs⟩ := Option.ite_none_left_eq_some.1 hs
    cases hs
    exact .stored _ _ _ _ _ hfile rfl rfl
  · rw [kWriteFile_closed hfile] at hs
    cases hs
    exact .closed hfile

/-- **`kWriteFile` keeps the chains**, through a handle that still has its place. -/
theorem kWriteFile_sound (h : Sound s chain) (hh : HandlesIn s)
    (hf : (s.manager.pstHandlePool k).bType = .file → u32 (size * count) ≠ 0 →
      Fresh s (s.manager.pstHandlePool k).stFileHandle)
    (hs : kWriteFile s pv size count k = some (n, s')) :
    (∃ chain', Sound s' chain') ∧ HandlesIn s' ∧
    ((s.manager.pstHandlePool k).bType = .file → (s'.manager.pstHandlePool k).bType = .file ∧
      (Fresh s (s.manager.pstHandlePool k).stFileHandle → Fresh s' (s'.manager.pstHandlePool k).stFileHandle)) := by
  cases kWriteFile_cases hs with
  | closed hclosed => exact ⟨⟨chain, h⟩, hh, fun hfile => absurd hfile hclosed⟩
  | stored count₁ fh₁ fh₂ s₁ s₂ hfile hloop hupdate =>
    obtain ⟨hlt, hused, hstart⟩ := hh k hfile
    generalize hfh : (s.manager.pstHandlePool k).stFileHandle = fh at *
    obtain ⟨chain₁, _, _, _, hloop', h₁, hk₁, hsame₁, hf₁⟩ := writeLoop_kept h pv (hf hfile)
    rw [hloop] at hloop'
    cases hloop'
    have hstarts₁ := hk₁.sameStarts
    obtain ⟨m, _, hupdate', h₂, hstarts₂, hlinks₂⟩ := updateSize_sound h₁ fh₁
      (by rw [hsame₁.1]; exact (hstarts₁.used _).2 hused)
      (by rw [hsame₁.1, hsame₁.2, hstarts₁.startOf _ hused.1]; exact hstart)
    rw [hupdate] at hupdate'
    cases hupdate'
    refine ⟨⟨chain₁, h₂.setHandle k _⟩, hh.moved (hstarts₁.trans hstarts₂) hfile (by rw [hfh]; exact hsame₁),
      fun _ => ?_⟩
    rw [pool_setHandle]
    refine ⟨rfl, fun hfresh => ?_⟩
    have hf₂ := (hf₁ hfresh).kept hstarts₂.toSteady hlinks₂
    exact hf₂

theorem writeZeros_sound (h : Sound s chain) (hh : HandlesIn s) {rounds : Nat} {zeroed : Bool}
    (hfile : (s.manager.pstHandlePool k).bType = .file) (hf : Fresh s (s.manager.pstHandlePool k).stFileHandle)
    (hs : writeZeros k rounds s count = some (zeroed, s')) :
    (∃ chain', Sound s' chain') ∧ HandlesIn s' ∧ (s'.manager.pstHandlePool k).bType = .file := by
  induction rounds generalizing s chain count with
  | zero =>
    cases hs
    exact ⟨⟨chain, h⟩, hh, hfile⟩
  | succ rounds ih =>
    rw [writeZeros] at hs
    split at hs
    · cases hs
      exact ⟨⟨chain, h⟩, hh, hfile⟩
    · obtain ⟨⟨written, s₁⟩, hwrite, hs⟩ := Option.bind_eq_some_iff.1 hs
      obtain ⟨⟨chain₁, h₁⟩, hh₁, hafter⟩ := kWriteFile_sound h hh (fun _ _ => hf) hwrite
      obtain ⟨hfile₁, hf₁⟩ := hafter hfile
      dsimp only at hs
      split at hs
      · exact ih h₁ hh₁ hfile₁ (hf₁ hf) hs
      · cases hs
        exact ⟨⟨chain₁, h₁⟩, hh₁, hfile₁⟩

/-! ## Seeking -/

theorem kGetClusterLinkData_last (h : Ready s) : kGetClusterLinkData s FILESYSTEM_LASTCLUSTER = (none, s) := by
  have harea := h.geometry.area_lt
  unfold kGetClusterLinkData FILESYSTEM_LASTCLUSTER
  rw [if_neg]
  rintro ⟨-, hle⟩
  omega

theorem moveClusters_relinked (h : Ready s) (p c n : Nat) :
    ∃ o s', moveClusters s p c n = (o, s') ∧ Relinked s s' s.link := by
  induction n generalizing s p c with
  | zero => exact ⟨_, s, rfl, relinked_buffer h s.buffer⟩
  | succ n ih =>
    obtain ⟨o, b, hget⟩ := kGetClusterLinkData_quiet h.noFaults c
    rw [moveClusters, hget]
    cases o with
    | none => exact ⟨none, _, rfl, relinked_buffer h b⟩
    | some next =>
      obtain ⟨o, s', hmove, hs'⟩ := ih (h.withBuffer b) c next
      exact ⟨o, s', hmove, (relinked_buffer h b).trans hs'⟩

theorem Sound.moveClusters (h : Sound s chain) {p' c' : Nat} (hc : InUse s c)
    (hmove : moveClusters s p c (n + 1) = (some (p', c'), s')) : InUse s p' ∧ s.link p' = c' := by
  induction n generalizing s p c with
  | zero =>
    obtain ⟨b, hget⟩ := kGetClusterLinkData_spec h.ready hc.1.2
    rw [Mint.moveClusters, hget] at hmove
    cases hmove
    exact ⟨hc, rfl⟩
  | succ n ih =>
    obtain ⟨b, hget⟩ := kGetClusterLinkData_spec h.ready hc.1.2
    rw [Mint.moveClusters, hget] at hmove
    dsimp only at hmove
    have hk := (relinked_buffer h.ready b).toKept
    have hb : Sound { s with buffer := b } chain := h.kept hk fun _ _ => rfl
    rcases h.link_inUse hc with hlast | hnext
    · rw [hlast, Mint.moveClusters, kGetClusterLinkData_last hb.ready] at hmove
      cases hmove
    · exact ih (s := { s with buffer := b }) hb hnext hmove

theorem sameFile_placeHandle (fh : FileHandle) (n start p c : Nat) : SameFile fh (placeHandle fh n start p c) := by
  unfold placeHandle
  split
  · exact ⟨rfl, rfl⟩
  · split <;> exact ⟨rfl, rfl⟩

theorem size_placeHandle (fh : FileHandle) (n start p c : Nat) :
    (placeHandle fh n start p c).dwFileSize = fh.dwFileSize := by
  unfold placeHandle
  split
  · rfl
  · split <;> rfl

def Extends (fh : FileHandle) (iOffset iOrigin : Int) : Prop :=
  fh.dwFileSize / FILESYSTEM_CLUSTERSIZE < realOffset fh iOffset iOrigin / FILESYSTEM_CLUSTERSIZE

theorem Sound.fresh_placeHandle (h : Sound s chain) (hf : Fresh s fh) (hstart : InUse s fh.dwStartClusterIndex)
    (hmove : Mint.moveClusters s 0 fh.dwCurrentClusterIndex n = (some (p, c), s')) :
    Fresh s (placeHandle fh n fh.dwCurrentClusterIndex p c) := by
  unfold placeHandle
  split
  · rename_i hn
    obtain ⟨n, rfl⟩ := Nat.exists_eq_succ_of_ne_zero (show n ≠ 0 by omega)
    unfold Fresh at hf
    split at hf
    · rename_i hlast
      rw [hlast, Mint.moveClusters, kGetClusterLinkData_last h.ready] at hmove
      cases hmove
    · obtain ⟨hp, hlink⟩ := h.moveClusters hf hmove
      unfold Fresh
      dsimp only
      split
      · rename_i hlast
        exact ⟨hp, hlink.trans hlast⟩
      · rename_i hlast
        rw [← hlink] at hlast ⊢
        exact (h.link_inUse hp).resolve_left hlast
  · split
    · unfold Fresh
      rw [if_neg (h.ne_last hstart)]
      exact hstart
    · exact hf

theorem Sound.inUse_start (h : Sound s chain) (hi : Used s i) : InUse s (s.startOf i) :=
  h.inUse_of_mem (h.owns.start_mem hi)

theorem kSeekFile_closed (hfile : (s.manager.pstHandlePool k).bType ≠ .file) (iOffset iOrigin : Int) :
    kSeekFile s k iOffset iOrigin = some (0, s) := if_pos hfile

def walkedHandle (fh : FileHandle) (iOffset iOrigin : Int) (previous current : Nat) : FileHandle :=
  placeHandle fh (seekMoves fh (realOffset fh iOffset iOrigin)).1 (seekMoves fh (realOffset fh iOffset iOrigin)).2
    previous current

/-- What `kSeekFile` does. -/
inductive Sought (s : State) (k : Nat) (fh : FileHandle) (iOffset iOrigin : Int) : Int → State → Prop where
  | closed (hfile : (s.manager.pstHandlePool k).bType ≠ .file) : Sought s k fh iOffset iOrigin 0 s
  | lost (s₁ : State) (hmove : moveClusters s 0 (seekMoves fh (realOffset fh iOffset iOrigin)).2
      (seekMoves fh (realOffset fh iOffset iOrigin)).1 = (none, s₁)) : Sought s k fh iOffset iOrigin (-1) s₁
  | within (p c : Nat) (s₁ : State) (hfile : (s.manager.pstHandlePool k).bType = .file)
    (hext : ¬Extends fh iOffset iOrigin) (hmove : moveClusters s 0 (seekMoves fh (realOffset fh iOffset iOrigin)).2
      (seekMoves fh (realOffset fh iOffset iOrigin)).1 = (some (p, c), s₁)) :
    Sought s k fh iOffset iOrigin 0 (s₁.setHandle k ⟨.file,
      { walkedHandle fh iOffset iOrigin p c with dwCurrentOffset := realOffset fh iOffset iOrigin }⟩)
  | beyond (p c : Nat) (s₁ s₂ : State) (zeroed : Bool) (hfile : (s.manager.pstHandlePool k).bType = .file)
    (hext : Extends fh iOffset iOrigin) (hmove : moveClusters s 0 (seekMoves fh (realOffset fh iOffset iOrigin)).2
      (seekMoves fh (realOffset fh iOffset iOrigin)).1 = (some (p, c), s₁))
    (hzero : kWriteZero (s₁.setHandle k ⟨.file, { walkedHandle fh iOffset iOrigin p c with
      dwCurrentOffset := (walkedHandle fh iOffset iOrigin p c).dwFileSize }⟩) k
      (sub32 (realOffset fh iOffset iOrigin) (walkedHandle fh iOffset iOrigin p c).dwFileSize) = some (zeroed, s₂)) :
    Sought s k fh iOffset iOrigin 0 (if zeroed then s₂.setHandle k ⟨.file,
      { (s₂.manager.pstHandlePool k).stFileHandle with dwCurrentOffset := realOffset fh iOffset iOrigin }⟩ else s₂)

theorem kSeekFile_cases (hs : kSeekFile s k iOffset iOrigin = some (r, s')) :
    Sought s k (s.manager.pstHandlePool k).stFileHandle iOffset iOrigin r s' := by
  by_cases hfile : (s.manager.pstHandlePool k).bType = .file
  · unfold kSeekFile at hs
    rw [if_neg (not_not.2 hfile)] at hs
    generalize (s.manager.pstHandlePool k).stFileHandle = fh at *
    dsimp only at hs
    split at hs
    · rename_i s₁ hmove
      cases hs
      exact .lost _ hmove
    · rename_i p c s₁ hmove
      by_cases hext : Extends fh iOffset iOrigin
      · rw [if_pos (by rw [size_placeHandle]; exact hext)] at hs
        obtain ⟨⟨zeroed, s₂⟩, hzero, hs⟩ := Option.map_eq_some_iff.1 hs
        cases hs
        exact .beyond p c s₁ s₂ zeroed hfile hext hmove hzero
      · rw [if_neg (by rw [size_placeHandle]; exact hext)] at hs
        cases hs
        exact .within p c s₁ hfile hext hmove
  · rw [kSeekFile_closed hfile] at hs
    cases hs
    exact .closed hfile

theorem Relinked.of_moveClusters (h : Ready s) {o : Option (Nat × Nat)}
    (hmove : moveClusters s p c n = (o, s')) : Relinked s s' s.link := by
  obtain ⟨_, _, hmove', h'⟩ := moveClusters_relinked h p c n
  rw [hmove] at hmove'
  cases hmove'
  exact h'

/-- A walk towards a target behind the file begins at the current cluster. -/
theorem seekMoves_beyond (hext : Extends fh iOffset iOrigin) :
    (seekMoves fh (realOffset fh iOffset iOrigin)).2 = fh.dwCurrentClusterIndex := by
  unfold seekMoves
  rw [if_pos (by exact hext)]

/-- What the walk leaves to the zeros: the chains, the handle of its entry, and a place. -/
theorem Sound.walked (h : Sound s chain) (hh : HandlesIn s)
    (hfile : (s.manager.pstHandlePool k).bType = .file) (hfh : (s.manager.pstHandlePool k).stFileHandle = fh)
    (hmove : Mint.moveClusters s 0 (seekMoves fh (realOffset fh iOffset iOrigin)).2
      (seekMoves fh (realOffset fh iOffset iOrigin)).1 = (some (p, c), s')) : Sound s' chain ∧
    (∀ n, HandlesIn (s'.setHandle k ⟨.file, { walkedHandle fh iOffset iOrigin p c with dwCurrentOffset := n }⟩)) ∧
    (Extends fh iOffset iOrigin → Fresh s fh → Fresh s' (walkedHandle fh iOffset iOrigin p c)) := by
  have h' := Relinked.of_moveClusters h.ready hmove
  obtain ⟨hlt, hused, hstart⟩ := hh k hfile
  rw [hfh] at hused hstart
  refine ⟨h.kept h'.toKept h'.links, fun n => hh.moved h'.toKept.sameStarts hfile ?_, fun hext hf => ?_⟩
  · rw [hfh]
    exact sameFile_placeHandle fh _ _ p c
  · unfold walkedHandle
    rw [seekMoves_beyond hext] at hmove ⊢
    exact (h.fresh_placeHandle hf (by rw [← hstart]; exact h.inUse_start hused) hmove).kept h'.toSteady h'.links

/-- **`kSeekFile` keeps the chains**, where it does not extend the file through a handle that has lost its place. -/
theorem kSeekFile_sound (h : Sound s chain) (hh : HandlesIn s)
    (hf : (s.manager.pstHandlePool k).bType = .file →
      Extends (s.manager.pstHandlePool k).stFileHandle iOffset iOrigin → Fresh s (s.manager.pstHandlePool k).stFileHandle)
    (hs : kSeekFile s k iOffset iOrigin = some (r, s')) : (∃ chain', Sound s' chain') ∧ HandlesIn s' := by
  cases kSeekFile_cases hs with
  | closed hclosed => exact ⟨⟨chain, h⟩, hh⟩
  | lost _ hmove =>
    have h' := Relinked.of_moveClusters h.ready hmove
    exact ⟨⟨chain, h.kept h'.toKept h'.links⟩, hh.sameStarts h'.toKept.sameStarts⟩
  | within p c s₁ hfile hext hmove =>
    obtain ⟨h₁, hmoved, -⟩ := h.walked hh hfile rfl hmove
    exact ⟨⟨chain, h₁.setHandle k _⟩, hmoved _⟩
  | beyond p c s₁ s₂ zeroed hfile hext hmove hzero =>
    obtain ⟨h₁, hmoved, hfresh⟩ := h.walked hh hfile rfl hmove
    obtain ⟨⟨chain₂, h₂⟩, hh₂, hfile₂⟩ := writeZeros_sound (h₁.setHandle k _) (hmoved _) (by rw [pool_setHandle])
      (by rw [pool_setHandle]; exact hfresh hext (hf hfile hext)) hzero
    split
    · refine ⟨⟨chain₂, h₂.setHandle k _⟩, hh₂.moved ?_ hfile₂ ⟨rfl, rfl⟩⟩
      exact (relinked_buffer h₂.ready s₂.buffer).toKept.sameStarts
    · exact ⟨⟨chain₂, h₂⟩, hh₂⟩

end Mint
