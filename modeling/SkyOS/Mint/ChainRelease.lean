import SkyOS.Mint.OwnershipRuns

/-!
# Releasing a chain that may be broken (`kFreeClusterUntilEnd`, `:667-:696`)

The loop reads the link of a cluster, marks the cluster free, and goes on with the link. The mark of a free cluster is
0, which is also the number of the root directory: wherever the loop comes upon a free entry, or upon one that it has
freed itself, it goes on with cluster 0 and marks that.
It is safe if the links that are in the table beforehand lead to the end (`ReleaseEnds`).
-/

namespace Mint

open Bytes Machine LinkChain List

variable {s s' : State} {c : Nat}

/-- The clusters that the loop of `kFreeClusterUntilEnd` (:667) marks free, with so many rounds to go. -/
def freeClustersMarks (s : State) (dwCurrentClusterIndex : Nat) : Nat → List Nat
  | 0 => []
  | rounds + 1 =>
    if dwCurrentClusterIndex = FILESYSTEM_LASTCLUSTER then [] else
    match kGetClusterLinkData s dwCurrentClusterIndex with
    | (none, _) => []
    | (some dwNextClusterIndex, s) =>
      dwCurrentClusterIndex :: match kSetClusterLinkData s dwCurrentClusterIndex FILESYSTEM_FREECLUSTER with
        | (false, _) => []
        | (true, s) => freeClustersMarks s dwNextClusterIndex rounds

structure ReleaseRight (s : State) (dwClusterIndex : Nat) : Prop where
  ends : (kFreeClusterUntilEnd s dwClusterIndex).isSome
  root : 0 ∉ freeClustersMarks s dwClusterIndex loopRounds

/-- The sector of the link is one that `kGetClusterLinkData` reads (:424). -/
def InTable (s : State) (c : Nat) : Prop := c / 128 ≤ s.manager.dwClusterLinkAreaSize

/-- The links from the cluster on lead past the table, as the end marker does, and not through cluster 0. -/
def ReleaseEnds (s : State) (dwClusterIndex : Nat) : Prop := ∃ stop l,
  Chain s.link stop dwClusterIndex l ∧ ¬InTable s stop ∧ ∀ x ∈ l, InTable s x ∧ x ≠ 0

/-! ## One round -/

theorem freeClusters_outside (hc : ¬InTable s c) (rounds : Nat) :
    (freeClusters s c (rounds + 1)).isSome ∧ freeClustersMarks s c (rounds + 1) = [] := by
  rw [freeClusters, freeClustersMarks]
  split
  · exact ⟨rfl, rfl⟩
  · rw [kGetClusterLinkData_unreadable (Nat.lt_of_not_le hc)]
    exact ⟨rfl, rfl⟩

theorem InTable.ne_last (h : Ready s) (hc : InTable s c) : c ≠ FILESYSTEM_LASTCLUSTER := by
  have harea := h.geometry.area_lt
  unfold InTable at hc
  unfold FILESYSTEM_LASTCLUSTER
  omega

/-- **One round** reads the link, and then it is 0. -/
theorem freeClusters_round (h : Ready s) (hc : InTable s c) : ∃ s', Ready s' ∧
    (∀ x, InTable s' x ↔ InTable s x) ∧ s'.link = Function.update s.link c FILESYSTEM_FREECLUSTER ∧
    ∀ rounds, freeClusters s c (rounds + 1) = freeClusters s' (s.link c) rounds ∧
      freeClustersMarks s c (rounds + 1) = c :: freeClustersMarks s' (s.link c) rounds := by
  obtain ⟨b₁, hget⟩ := kGetClusterLinkData_readable h.geometry.laid h.noFaults hc
  obtain ⟨b₂, hset⟩ := kSetClusterLinkData_readable (s := { s with buffer := b₁ }) h.geometry.laid h.noFaults hc
    FILESYSTEM_FREECLUSTER
  refine ⟨{ s with buffer := b₂, disk := write32 s.disk (s.manager.linkAddress c) FILESYSTEM_FREECLUSTER },
    ⟨h.geometry, h.noFaults⟩, fun _ => Iff.rfl, link_setLink (by decide), fun rounds => ?_⟩
  rw [freeClusters, freeClustersMarks, if_neg (hc.ne_last h), if_neg (hc.ne_last h), hget]
  dsimp only
  rw [hset]
  exact ⟨rfl, rfl⟩

/-! ## The loop -/

variable {l : List Nat} {rounds : Nat}

/-- Along links that end, the loop marks what it meets and ends. -/
theorem freeClusters_ends (h : Ready s) {stop : Nat} (hchain : Chain s.link stop c l)
    (hstop : ¬InTable s stop) (hl : ∀ x ∈ l, InTable s x) (hrounds : l.length < rounds) :
    (freeClusters s c rounds).isSome ∧ freeClustersMarks s c rounds = l := by
  induction l generalizing s c rounds with
  | nil =>
    obtain ⟨rounds, rfl⟩ := Nat.exists_eq_add_of_lt hrounds
    obtain rfl : c = stop := hchain
    exact freeClusters_outside hstop _
  | cons x l ih =>
    obtain ⟨rounds, rfl⟩ := Nat.exists_eq_succ_of_ne_zero (show rounds ≠ 0 by omega)
    have hxl := (nodup_cons.1 hchain.nodup).1
    obtain ⟨rfl, -, hrest⟩ := hchain
    obtain ⟨s', hr', htable, hlink, hround⟩ := freeClusters_round h (hl c (.head _))
    have hrest' : Chain s'.link stop (s.link c) l := hrest.congr fun y hy => by
      rw [hlink, Function.update_of_ne]
      rintro rfl
      exact hxl hy
    obtain ⟨hsome, hmarks⟩ := ih hr' hrest' (fun hin => hstop ((htable stop).1 hin))
      (fun y hy => (htable y).2 (hl y (mem_cons_of_mem c hy))) (Nat.lt_of_succ_lt_succ hrounds)
    obtain ⟨hrun, hmarked⟩ := hround rounds
    exact ⟨by rwa [hrun], by rw [hmarked, hmarks]⟩

/-- If it ends without marking cluster 0, it has met links that end. -/
theorem releaseEnds_of_run (h : Ready s) (hsome : (freeClusters s c rounds).isSome)
    (hroot : 0 ∉ freeClustersMarks s c rounds) : ReleaseEnds s c := by
  induction rounds generalizing s c with
  | zero => cases hsome
  | succ rounds ih =>
    by_cases hc : InTable s c
    · obtain ⟨s', hr', htable, hlink, hround⟩ := freeClusters_round h hc
      obtain ⟨hrun, hmarked⟩ := hround rounds
      rw [hrun] at hsome
      rw [hmarked, mem_cons, not_or] at hroot
      obtain ⟨stop, l, hchain, hstop, hl⟩ := ih hr' hsome hroot.2
      rw [htable] at hstop
      have hcl : c ∉ l := by
        intro hmem
        -- the entry has been freed, so the loop would go on with cluster 0
        have hnext := hchain.next_mem hmem
        rw [hlink, Function.update_self] at hnext
        rcases hnext with hend | hzero
        · exact hstop (by rw [← hend]; exact Nat.zero_le _)
        · exact (hl _ hzero).2 rfl
      refine ⟨stop, c :: l, ⟨rfl, ?_, ?_⟩, hstop, fun x hx => ?_⟩
      · rintro rfl
        exact hstop hc
      · refine hchain.congr fun y hy => ?_
        rw [hlink, Function.update_of_ne]
        rintro rfl
        exact hcl hy
      · rcases mem_cons.1 hx with rfl | hx
        · exact ⟨hc, Ne.symm hroot.1⟩
        · exact ⟨(htable x).1 (hl x hx).1, (hl x hx).2⟩
    · exact ⟨c, [], rfl, hc, fun x hx => absurd hx not_mem_nil⟩

theorem length_lt_loopRounds (h : Ready s) (hnodup : l.Nodup) (hl : ∀ x ∈ l, InTable s x) :
    l.length < loopRounds := by
  have harea := h.geometry.area_lt
  have hsub : l.Subperm (List.range (128 * s.manager.dwClusterLinkAreaSize + 128)) :=
    hnodup.subperm fun x hx => mem_range.2 (by have hin := hl x hx; unfold InTable at hin; omega)
  have hlen := hsub.length_le
  rw [length_range] at hlen
  unfold loopRounds
  omega

/-- **When the release of a chain is safe**: the links in the table lead past it, and not through cluster 0. -/
theorem kFreeClusterUntilEnd_right_iff (h : Ready s) (c : Nat) : ReleaseRight s c ↔ ReleaseEnds s c := by
  constructor
  · rintro ⟨hends, hroot⟩
    exact releaseEnds_of_run h hends hroot
  · rintro ⟨stop, l, hchain, hstop, hl⟩
    obtain ⟨hsome, hmarks⟩ := freeClusters_ends h hchain hstop (fun x hx => (hl x hx).1)
      (length_lt_loopRounds h hchain.nodup fun x hx => (hl x hx).1)
    refine ⟨hsome, ?_⟩
    rw [hmarks]
    exact fun hzero => (hl 0 hzero).2 rfl

/-- A file of the clusters 1 and 2. -/
theorem kFreeClusterUntilEnd_right_file : ∃ s c, Ready s ∧ s.link c = 2 ∧ ReleaseRight s c := by
  let start : State := boot (fun _ => 0) (fun _ => 0) 40
  let a : FileName := ⟨[97], by decide⟩
  let h0 : Fin FILESYSTEM_HANDLE_MAXCOUNT := ⟨0, by decide⟩
  let calls : List Call := [.kOpenFile a 'w' fun _ => 0, .kWriteFile (fun _ => 1) 4096 1 h0,
    .kWriteFile (fun _ => 2) 1 1 h0]
  have hrun : (fileSystem.exec start calls).map (fun s => decide (0 < s.manager.dwTotalClusterCount ∧
      s.manager.dwClusterLinkAreaSize = 1 ∧ s.link 1 = 2 ∧ s.link 2 = FILESYSTEM_LASTCLUSTER)) = some true := by
    decide +kernel
  have hmeets : fileSystem.Meets InPlace start calls := by decide +kernel
  obtain ⟨s, hs, hfacts⟩ := Option.map_eq_some_iff.1 hrun
  obtain ⟨hpos, harea, hlink1, hlink2⟩ := of_decide_eq_true hfacts
  have hreach := StepSystem.reachVia_exec calls (boot_init _ _ (by decide) (by decide)) hmeets hs
  obtain ⟨⟨chain, hsound⟩, -⟩ := (intact_of_reachVia hreach).sound hpos
  refine ⟨s, 1, hsound.ready, hlink1, (kFreeClusterUntilEnd_right_iff hsound.ready 1).2
    ⟨FILESYSTEM_LASTCLUSTER, [1, 2], ⟨rfl, by decide, ?_⟩, ?_, ?_⟩⟩
  · rw [hlink1]
    exact ⟨rfl, by decide, hlink2⟩
  · unfold InTable
    rw [harea]
    decide
  · unfold InTable
    rw [harea]
    decide

/-- **A start cluster that is free**: the link is 0, and the root directory is marked free. -/
theorem kFreeClusterUntilEnd_frees_root : ¬∀ s c, Ready s → c < s.manager.dwTotalClusterCount → ReleaseRight s c := by
  intro h
  have hpos : 1 < (boot (fun _ => 0) (fun _ => 0) 40).manager.dwTotalClusterCount := by decide +kernel
  obtain ⟨-, -, -, hready⟩ := boot_empty (fun _ => 0) (fun _ => 0) (show 9 ≤ 40 by decide) (by decide)
  have hroot := (h _ 1 (hready (by omega)).1 hpos).root
  revert hroot
  decide +kernel

end Mint
