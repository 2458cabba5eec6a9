import Mathlib.Data.Finset.Card
import SkyOS.Lib.ArrayFile
import SkyOS.Mint.Ownership

/-!
# Where a handle stands in its file

The place of a handle is determined by the clusters of the file and an offset (`placed`): the current cluster is the
one that the offset lies in, or there is none, and the previous cluster is the one before it, or the first. A round of
a loop goes from a place to a place (`advance_placed`), and so do whole loops and the walk of `kSeekFile`.

| here | there |
| --- | --- |
| `chainOf` | the clusters of the file of a directory entry |
| `fileByte` | the bytes of a file, in the order of its clusters |
| `freeCount` | how many clusters `kFindFreeCluster` can still give |
-/

namespace Mint

open Bytes Machine LinkChain List Nat

variable {s s' : State} {chain : Nat → List Nat} {fh : FileHandle} {l : List Nat} {c : Nat}

/-! ## The clusters of a file -/

/-- The links from `c` on, for so many cells at most. -/
def State.chainFrom (s : State) : Nat → Nat → List Nat
  | 0, _ => []
  | cells + 1, c => if c = FILESYSTEM_LASTCLUSTER then [] else c :: s.chainFrom cells (s.link c)

def State.chainOf (s : State) (i : Nat) : List Nat := s.chainFrom s.manager.dwTotalClusterCount (s.startOf i)

theorem chainFrom_eq {cells : Nat} (h : Chain s.link FILESYSTEM_LASTCLUSTER c l) (hlen : l.length ≤ cells) :
    s.chainFrom cells c = l := by
  induction l generalizing c cells with
  | nil =>
    cases cells with
    | zero => rfl
    | succ cells => exact if_pos h
  | cons x l ih =>
    obtain ⟨rfl, hne, hrest⟩ := h
    obtain ⟨cells, rfl⟩ : ∃ k, cells = k + 1 := ⟨cells - 1, by rw [length_cons] at hlen; omega⟩
    rw [State.chainFrom, if_neg hne, ih hrest (le_of_succ_le_succ hlen)]

variable {i n off count total : Nat}

theorem Sound.chainOf_eq (h : Sound s chain) (hi : Used s i) : s.chainOf i = chain i :=
  chainFrom_eq (h.owns.chained i hi) (h.length_chain_le hi)

variable {k rest rounds j p : Nat}

theorem Sound.inUse_getD (h : Sound s chain) (hk : k < (chain i).length) :
    InUse s ((chain i).getD k FILESYSTEM_LASTCLUSTER) := by
  rw [getD_eq_getElem _ _ hk]
  exact h.inUse_of_mem (getElem_mem hk)

theorem Sound.link_getD (h : Sound s chain) (hi : Used s i) (hk : k < (chain i).length) :
    s.link ((chain i).getD k FILESYSTEM_LASTCLUSTER) = (chain i).getD (k + 1) FILESYSTEM_LASTCLUSTER := by
  rw [getD_eq_getElem _ _ hk]
  exact (h.owns.chained i hi).next_getElem hk

theorem Sound.getD_zero (h : Sound s chain) (hi : Used s i) :
    (chain i).getD 0 FILESYSTEM_LASTCLUSTER = s.startOf i := (h.owns.chained i hi).getD_zero

theorem Sound.length_pos (h : Sound s chain) (hi : Used s i) : 0 < (chain i).length :=
  length_pos_iff.2 ((h.owns.nonempty i).2 hi)

/-! ## The bytes of a file -/

def State.fileByte (s : State) (l : List Nat) (x : Nat) : UInt8 :=
  s.byte (l.getD (x / FILESYSTEM_CLUSTERSIZE) FILESYSTEM_LASTCLUSTER) (x % FILESYSTEM_CLUSTERSIZE)

/-- A file whose chain is `l`, of so many bytes, with the cursor at `c`. -/
def State.fileAt (s : State) (l : List Nat) (size c : Nat) : ArrayFile UInt8 := ⟨(List.range size).map (s.fileByte l), c⟩

@[simp] theorem length_fileAt (s : State) (l : List Nat) (size c : Nat) : (s.fileAt l size c).content.length = size := by
  simp [State.fileAt]

@[simp] theorem cursor_fileAt (s : State) (l : List Nat) (size c : Nat) : (s.fileAt l size c).cursor = c := rfl

/-! ## Places -/

def FileHandle.placed (fh : FileHandle) (l : List Nat) (dwOffset : Nat) : FileHandle :=
  { fh with
    dwCurrentOffset := dwOffset
    dwCurrentClusterIndex := l.getD (dwOffset / FILESYSTEM_CLUSTERSIZE) FILESYSTEM_LASTCLUSTER
    dwPreviousClusterIndex := l.getD (dwOffset / FILESYSTEM_CLUSTERSIZE - 1) FILESYSTEM_LASTCLUSTER }

/-- **Going on**: a round that stays in the cluster, or comes to its end, goes from a place to a place. -/
theorem advance_placed {link : Nat → Nat} {off n : Nat}
    (hlink : link (l.getD (off / FILESYSTEM_CLUSTERSIZE) FILESYSTEM_LASTCLUSTER)
      = l.getD (off / FILESYSTEM_CLUSTERSIZE + 1) FILESYSTEM_LASTCLUSTER)
    (hpos : 0 < n) (hn : off % FILESYSTEM_CLUSTERSIZE + n ≤ FILESYSTEM_CLUSTERSIZE) (hlt : off + n < 2 ^ 32) :
    (fh.placed l off).advance link n = fh.placed l (off + n) := by
  have hoff : u32 (off + n) = off + n := u32_of_lt hlt
  unfold FILESYSTEM_CLUSTERSIZE at hlink hn
  unfold FileHandle.advance FileHandle.placed FILESYSTEM_CLUSTERSIZE
  rw [hoff]
  by_cases hend : (off + n) % 4096 = 0
  · have hdiv : (off + n) / 4096 = off / 4096 + 1 := by omega
    rw [if_pos hend, hdiv, Nat.add_sub_cancel, hlink]
  · have hdiv : (off + n) / 4096 = off / 4096 := by omega
    rw [if_neg hend, hdiv]

theorem copySize_pos (h : 0 < n) : 0 < copySize fh n := by
  unfold copySize FILESYSTEM_CLUSTERSIZE
  omega

/-! ## Reading -/

/-- **Reading on** from a place: the bytes of the file, and the place behind them. -/
theorem readLoop_placed (fh : FileHandle) (h : Sound s chain) (hi : Used s i) (htotal : count + rest = total)
    (hend : off + rest ≤ FILESYSTEM_CLUSTERSIZE * (chain i).length)
    (hlt : off + rest < 2 ^ 32) (hrounds : rest ≤ rounds) (pv : Memory) : ∃ pv' s',
      readLoop total rounds s (fh.placed (chain i) off) pv count
        = (pv', total, fh.placed (chain i) (off + rest), s') ∧
      Relinked s s' s.link ∧
      ∀ x, pv' x = if count ≤ x ∧ x < total then s.fileByte (chain i) (off + (x - count)) else pv x := by
  induction rounds generalizing s off count rest pv with
  | zero =>
    obtain rfl : rest = 0 := by omega
    refine ⟨pv, s, ?_, relinked_buffer h.ready s.buffer, fun x => (if_neg (by omega)).symm⟩
    rw [readLoop, Nat.add_zero, ← htotal, Nat.add_zero]
  | succ rounds ih =>
    rw [readLoop]
    by_cases hdone : rest = 0
    · subst hdone
      rw [if_pos (by omega)]
      refine ⟨pv, s, ?_, relinked_buffer h.ready s.buffer, fun x => (if_neg (by omega)).symm⟩
      rw [Nat.add_zero, ← htotal, Nat.add_zero]
    · have hk : off / FILESYSTEM_CLUSTERSIZE < (chain i).length := by
        unfold FILESYSTEM_CLUSTERSIZE at hend ⊢
        omega
      have hin := h.inUse_getD hk
      have hcur : (fh.placed (chain i) off).dwCurrentClusterIndex < s.manager.dwTotalClusterCount := hin.1.2
      obtain ⟨pv₁, s₁, hround, h₁, hpv₁⟩ := @readRound_spec s h.ready _ hcur pv total count
      have hrest : total - count = rest := by omega
      rw [hrest] at hround hpv₁
      have hpos : 0 < copySize (fh.placed (chain i) off) rest := copySize_pos (by omega)
      have hle : off % FILESYSTEM_CLUSTERSIZE + copySize (fh.placed (chain i) off) rest ≤ FILESYSTEM_CLUSTERSIZE :=
        copySize_le (fh.placed (chain i) off) rest
      have hcopy : copySize (fh.placed (chain i) off) rest ≤ rest := Nat.min_le_right _ _
      generalize copySize (fh.placed (chain i) off) rest = n at hround hpv₁ hpos hle hcopy
      rw [if_neg (by omega), hround, advance_placed (h.link_getD hi hk) hpos hle (by omega)]
      dsimp only
      have hsound₁ := h.kept h₁.toKept h₁.links
      obtain ⟨pv₂, s₂, hloop, h₂, hpv₂⟩ := ih hsound₁ ((h₁.toKept.used i).2 hi)
        (show count + n + (rest - n) = total by omega)
        (show off + n + (rest - n) ≤ FILESYSTEM_CLUSTERSIZE * (chain i).length by omega) (by omega) (by omega) pv₁
      refine ⟨pv₂, s₂, ?_, (h₁.trans h₂).congr fun x hx => (h₁.links x hx).symm, fun x => ?_⟩
      · rw [hloop, show off + n + (rest - n) = off + rest by omega]
      · have hbytes : s₁.fileByte (chain i) = s.fileByte (chain i) := by
          funext y
          rw [State.fileByte, h₁.bytes]
          rfl
        rw [hpv₂, hpv₁, hbytes]
        by_cases hx : count ≤ x ∧ x < count + n
        · -- a byte of this round
          rw [if_neg (by omega), if_pos hx, if_pos (by omega), State.fileByte]
          unfold FILESYSTEM_CLUSTERSIZE at hle ⊢
          have hdiv : (off + (x - count)) / 4096 = off / 4096 := by omega
          have hmod : (off + (x - count)) % 4096 = off % 4096 + (x - count) := by omega
          rw [hdiv, hmod]
          rfl
        · rw [if_neg hx]
          by_cases hlater : count + n ≤ x ∧ x < total
          · rw [if_pos hlater, if_pos (by omega), show off + n + (x - (count + n)) = off + (x - count) by omega]
          · rw [if_neg hlater, if_neg (by omega)]

/-! ## Seeking -/

/-- **Walking the links** from the cluster `j` of a file: `n` clusters further on, with the one before. -/
theorem moveClusters_placed (h : Sound s chain) (hi : Used s i)
    (hn : j + n ≤ (chain i).length) (p : Nat) : ∃ p' s',
      moveClusters s p ((chain i).getD j FILESYSTEM_LASTCLUSTER) n
        = (some (p', (chain i).getD (j + n) FILESYSTEM_LASTCLUSTER), s') ∧
      Relinked s s' s.link ∧ (0 < n → p' = (chain i).getD (j + n - 1) FILESYSTEM_LASTCLUSTER) := by
  induction n generalizing s p j with
  | zero => exact ⟨p, s, rfl, relinked_buffer h.ready s.buffer, fun h0 => absurd h0 (Nat.lt_irrefl 0)⟩
  | succ n ih =>
    have hj : j < (chain i).length := by omega
    obtain ⟨s₁, hget, h₁⟩ := kGetClusterLinkData_relinked h.ready (h.inUse_getD hj).1.2
    have hsound₁ := h.kept h₁.toKept h₁.links
    obtain ⟨p₂, s₂, hmove, h₂, hp₂⟩ := ih hsound₁ ((h₁.toKept.used i).2 hi) (j := j + 1) (by omega)
      ((chain i).getD j FILESYSTEM_LASTCLUSTER)
    rw [moveClusters, hget, h.link_getD hi hj]
    refine ⟨p₂, s₂, ?_, (h₁.trans h₂).congr fun x hx => (h₁.links x hx).symm, fun _ => ?_⟩
    · dsimp only
      rw [hmove, show j + 1 + n = j + (n + 1) by omega]
    · rcases Nat.eq_zero_or_pos n with rfl | hpos
      · cases hmove
        rfl
      · rw [hp₂ hpos, show j + 1 + n = j + (n + 1) by omega]

theorem placeHandle_placed {target : Nat} (hlast : FILESYSTEM_LASTCLUSTER ∉ l) (hnodup : l.Nodup)
    (hnonempty : 0 < l.length) (hstart : fh.dwStartClusterIndex = l.getD 0 FILESYSTEM_LASTCLUSTER)
    (hn : j + n = target / FILESYSTEM_CLUSTERSIZE)
    (hfrom : j = off / FILESYSTEM_CLUSTERSIZE ∨ j = 0)
    (hp : 0 < n → p = l.getD (j + n - 1) FILESYSTEM_LASTCLUSTER) :
    { placeHandle (fh.placed l off) n (l.getD j FILESYSTEM_LASTCLUSTER) p (l.getD (j + n) FILESYSTEM_LASTCLUSTER) with
        dwCurrentOffset := target } = fh.placed l target := by
  unfold placeHandle
  by_cases hpos : 0 < n
  · rw [if_pos hpos, hp hpos, hn]
    rfl
  · obtain rfl : n = 0 := by omega
    rw [Nat.add_zero] at hn
    rw [if_neg hpos]
    by_cases hfirst : l.getD j FILESYSTEM_LASTCLUSTER = (fh.placed l off).dwStartClusterIndex
    · rw [if_pos hfirst]
      have hfirst' : l.getD j FILESYSTEM_LASTCLUSTER = l.getD 0 FILESYSTEM_LASTCLUSTER := hfirst.trans hstart
      have hj : j = 0 := by
        by_contra hne
        rw [getD_eq_getElem _ _ hnonempty] at hfirst'
        by_cases hlt : j < l.length
        · rw [getD_eq_getElem _ _ hlt] at hfirst'
          exact hne ((hnodup.getElem_inj_iff).1 hfirst')
        · rw [getD_eq_default _ _ (by omega)] at hfirst'
          exact hlast (hfirst' ▸ getElem_mem hnonempty)
      subst hj
      have htarget : target / FILESYSTEM_CLUSTERSIZE = 0 := hn.symm
      unfold FileHandle.placed
      rw [htarget, ← hstart]
    · rw [if_neg hfirst]
      rcases hfrom with hfrom | rfl
      · unfold FileHandle.placed
        rw [← hn, hfrom]
      · exact absurd hstart.symm hfirst

/-! ## Free clusters -/

instance (s : State) (c : Nat) : Decidable (Findable s c) :=
  inferInstanceAs (Decidable (s.link c = 0 ∧ c % 128 < s.manager.linksIn (c / 128)))

def State.freeCount (s : State) : Nat := ((Finset.range s.manager.dwTotalClusterCount).filter (Findable s)).card

theorem Steady.linksIn (h : Steady s s') : s'.manager.linksIn = s.manager.linksIn := by
  obtain ⟨l, -, hm⟩ := h.manager
  rw [hm]
  rfl

theorem freeCount_same (h : Steady s s') (hlinks : ∀ c < s.manager.dwTotalClusterCount, s'.link c = s.link c) :
    s'.freeCount = s.freeCount := by
  unfold State.freeCount
  rw [h.total]
  refine congrArg Finset.card (Finset.filter_congr fun c hc => ?_)
  unfold Findable
  rw [h.linksIn, hlinks c (Finset.mem_range.1 hc)]

theorem freeCount_grown (h : Steady s s') {a : Nat} (ha : a < s.manager.dwTotalClusterCount) (hfree : Findable s a)
    (hp : s.link p ≠ FILESYSTEM_FREECLUSTER) (ha0 : a ≠ 0)
    (hlinks : ∀ c < s.manager.dwTotalClusterCount,
      s'.link c = Function.update (Function.update s.link a FILESYSTEM_LASTCLUSTER) p a c) :
    s'.freeCount + 1 = s.freeCount := by
  have hmem : a ∈ (Finset.range s.manager.dwTotalClusterCount).filter (Findable s) :=
    Finset.mem_filter.2 ⟨Finset.mem_range.2 ha, hfree⟩
  have herase : (Finset.range s'.manager.dwTotalClusterCount).filter (Findable s')
      = ((Finset.range s.manager.dwTotalClusterCount).filter (Findable s)).erase a := by
    ext c
    rw [h.total, Finset.mem_erase, Finset.mem_filter, Finset.mem_filter, Finset.mem_range]
    by_cases hc : c < s.manager.dwTotalClusterCount
    · unfold Findable
      rw [h.linksIn, hlinks c hc, Function.update_apply, Function.update_apply]
      by_cases hcp : c = p
      · subst hcp
        have hne : s.link c ≠ 0 := hp
        simp [ha0, hne]
      · by_cases hca : c = a
        · subst hca
          simp [hcp, FILESYSTEM_LASTCLUSTER]
        · simp [hcp, hca]
    · simp [hc]
  unfold State.freeCount
  rw [herase]
  exact Finset.card_erase_add_one hmem

theorem exists_findable (h : 0 < s.freeCount) : ∃ c < s.manager.dwTotalClusterCount, Findable s c := by
  obtain ⟨c, hc⟩ := Finset.card_pos.1 h
  obtain ⟨hlt, hfree⟩ := Finset.mem_filter.1 hc
  exact ⟨c, Finset.mem_range.1 hlt, hfree⟩

/-! ## Writing -/

/-- `n` bytes of the file of entry `i` are written from the offset on, and its chain has grown as far as that needs. -/
structure WritesOn (s s' : State) (chain chain' : Nat → List Nat) (i off n : Nat) (bytes : Nat → UInt8) : Prop
    extends Kept s s' where
  sound : Sound s' chain'
  others : ∀ j, j ≠ i → chain' j = chain j
  longer : (chain i).length ≤ (chain' i).length
  room : off + n ≤ FILESYSTEM_CLUSTERSIZE * (chain' i).length
  free : (chain' i).length + s'.freeCount = (chain i).length + s.freeCount
  content : ∀ x, x < FILESYSTEM_CLUSTERSIZE * (chain i).length ∨ x < off + n →
    s'.fileByte (chain' i) x = if off ≤ x ∧ x < off + n then bytes (x - off) else s.fileByte (chain i) x

namespace WritesOn

variable {chain' chain'' : Nat → List Nat} {i off n m : Nat} {bytes : Nat → UInt8} {s'' : State}

theorem refl (h : Sound s chain) (hoff : off ≤ FILESYSTEM_CLUSTERSIZE * (chain i).length) :
    WritesOn s s chain chain i off 0 bytes :=
  ⟨(relinked_buffer h.ready s.buffer).toKept, h, fun _ _ => rfl, le_rfl, hoff, rfl,
    fun x _ => (if_neg (by omega)).symm⟩

theorem trans (h : WritesOn s s' chain chain' i off n bytes)
    (h' : WritesOn s' s'' chain' chain'' i (off + n) m fun x => bytes (n + x)) :
    WritesOn s s'' chain chain'' i off (n + m) bytes := by
  refine ⟨h.toKept.trans h'.toKept, h'.sound, fun j hj => (h'.others j hj).trans (h.others j hj),
    Nat.le_trans h.longer h'.longer, by have := h'.room; omega, h'.free.trans h.free, fun x hx => ?_⟩
  have hlonger := h.longer
  have hroom := h.room
  unfold FILESYSTEM_CLUSTERSIZE at hx hroom
  rw [h'.content x (by unfold FILESYSTEM_CLUSTERSIZE; omega)]
  by_cases hlater : off + n ≤ x ∧ x < off + n + m
  · rw [if_pos hlater, if_pos (by omega), show n + (x - (off + n)) = x - off by omega]
  · rw [if_neg hlater, h.content x (by unfold FILESYSTEM_CLUSTERSIZE; omega)]
    by_cases hin : off ≤ x ∧ x < off + n
    · rw [if_pos hin, if_pos (by omega)]
    · rw [if_neg hin, if_neg (by omega)]

end WritesOn

theorem written_placed {x : Nat} (pv : Memory)
    (hx : x / FILESYSTEM_CLUSTERSIZE = off / FILESYSTEM_CLUSTERSIZE) :
    written s (fh.placed l off) pv count n (x % FILESYSTEM_CLUSTERSIZE) =
      if off ≤ x ∧ x < off + n then pv (count + (x - off))
      else prepared s (fh.placed l off) (x % FILESYSTEM_CLUSTERSIZE) := by
  have hoff : (fh.placed l off).dwCurrentOffset = off := rfl
  unfold written
  rw [hoff]
  unfold FILESYSTEM_CLUSTERSIZE at hx ⊢
  by_cases hin : off ≤ x ∧ x < off + n
  · rw [if_pos hin, if_pos (by omega), show x % 4096 - off % 4096 = x - off by omega]
  · rw [if_neg hin, if_neg (by omega)]

theorem writeRound_within (h : Sound s chain) (hi : Used s i)
    (hk : off / FILESYSTEM_CLUSTERSIZE < (chain i).length)
    (hn : n = copySize (fh.placed (chain i) off) (total - count)) (hpos : 0 < n) (hlt : off + n < 2 ^ 32)
    (pv : Memory) : ∃ s',
      writeRound s (fh.placed (chain i) off) pv total count
        = (true, count + n, fh.placed (chain i) (off + n), s') ∧
      WritesOn s s' chain chain i off n fun x => pv (count + x) := by
  have hin := h.inUse_getD hk
  have hcur : (fh.placed (chain i) off).dwCurrentClusterIndex
      = (chain i).getD (off / FILESYSTEM_CLUSTERSIZE) FILESYSTEM_LASTCLUSTER := rfl
  have hne : (fh.placed (chain i) off).dwCurrentClusterIndex ≠ FILESYSTEM_LASTCLUSTER := by
    rw [hcur]
    exact h.ne_last hin
  have hon : OnCluster s (fh.placed (chain i) off) := by
    unfold OnCluster
    rw [if_neg hne, hcur]
    exact ⟨hin.1.2, hin.1.1⟩
  have hle : off % FILESYSTEM_CLUSTERSIZE + n ≤ FILESYSTEM_CLUSTERSIZE := by
    rw [hn]
    exact copySize_le (fh.placed (chain i) off) (total - count)
  have hnodup := (h.owns.chained i hi).nodup
  rcases writeRound_spec h.ready hon h.root pv hn with ⟨_, _, _, hlast, _⟩ | ⟨c, link, s', hround, hto, hs'⟩
  · exact absurd hlast hne
  · unfold WritesTo at hto
    rw [if_neg hne] at hto
    obtain ⟨rfl, rfl⟩ := hto
    have hsound := h.kept hs'.toKept hs'.links
    have hfree := freeCount_same hs'.toSteady hs'.links
    refine ⟨s', ?_, hs'.toKept, hsound, fun _ _ => rfl, le_rfl, ?_, by rw [hfree], fun x hx => ?_⟩
    · rw [hround]
      have hadvance := @advance_placed fh _ _ off n (h.link_getD hi hk) hpos hle hlt
      rw [show ({ fh.placed (chain i) off with
        dwCurrentClusterIndex := (fh.placed (chain i) off).dwCurrentClusterIndex } : FileHandle)
          = fh.placed (chain i) off from rfl, hadvance]
    · unfold FILESYSTEM_CLUSTERSIZE at hk hle ⊢
      omega
    · unfold State.fileByte
      by_cases hsame : x / FILESYSTEM_CLUSTERSIZE = off / FILESYSTEM_CLUSTERSIZE
      · have hinside := hs'.inside (x % FILESYSTEM_CLUSTERSIZE) (mod_lt x (by decide))
        rw [hcur] at hinside
        rw [hsame, hinside, written_placed pv hsame]
        unfold prepared
        rw [if_neg hne, hcur]
      · have hxk : x / FILESYSTEM_CLUSTERSIZE < (chain i).length := by
          unfold FILESYSTEM_CLUSTERSIZE at hx hk hle ⊢
          omega
        have hother : (chain i).getD (x / FILESYSTEM_CLUSTERSIZE) FILESYSTEM_LASTCLUSTER
            ≠ (fh.placed (chain i) off).dwCurrentClusterIndex := by
          rw [hcur, getD_eq_getElem _ _ hxk, getD_eq_getElem _ _ hk]
          exact fun heq => hsame ((hnodup.getElem_inj_iff).1 heq)
        rw [hs'.outside _ hother _ (mod_lt x (by decide)), if_neg]
        unfold FILESYSTEM_CLUSTERSIZE at hsame hle
        omega

theorem behind_placed (fh : FileHandle) (h : Sound s chain) (hi : Used s i)
    (hoff : off = FILESYSTEM_CLUSTERSIZE * (chain i).length) :
    off / FILESYSTEM_CLUSTERSIZE = (chain i).length ∧
      (fh.placed (chain i) off).dwCurrentClusterIndex = FILESYSTEM_LASTCLUSTER ∧
      (fh.placed (chain i) off).dwPreviousClusterIndex = (chain i).getD ((chain i).length - 1) FILESYSTEM_LASTCLUSTER ∧
      OnCluster s (fh.placed (chain i) off) := by
  have hlength := h.length_pos hi
  have hdiv : off / FILESYSTEM_CLUSTERSIZE = (chain i).length := by
    rw [hoff]
    exact Nat.mul_div_cancel_left _ (by decide)
  have hlast : (fh.placed (chain i) off).dwCurrentClusterIndex = FILESYSTEM_LASTCLUSTER := by
    unfold FileHandle.placed
    dsimp only
    rw [hdiv, getD_eq_default _ _ le_rfl]
  have hprev : (fh.placed (chain i) off).dwPreviousClusterIndex
      = (chain i).getD ((chain i).length - 1) FILESYSTEM_LASTCLUSTER := by
    unfold FileHandle.placed
    rw [hdiv]
  refine ⟨hdiv, hlast, hprev, ?_⟩
  unfold OnCluster
  rw [if_pos hlast, hprev]
  exact (h.inUse_getD (show (chain i).length - 1 < (chain i).length by omega)).1.2

theorem writeRound_behind (h : Sound s chain) (hi : Used s i)
    (hoff : off = FILESYSTEM_CLUSTERSIZE * (chain i).length) (hfree : 0 < s.freeCount)
    (hn : n = copySize (fh.placed (chain i) off) (total - count)) (hpos : 0 < n) (hlt : off + n < 2 ^ 32)
    (pv : Memory) : ∃ chain' s',
      writeRound s (fh.placed (chain i) off) pv total count
        = (true, count + n, fh.placed (chain' i) (off + n), s') ∧
      WritesOn s s' chain chain' i off n fun x => pv (count + x) := by
  have hlength := h.length_pos hi
  obtain ⟨hdiv, hlast, hprev, hon⟩ := behind_placed fh h hi hoff
  have hmod : off % FILESYSTEM_CLUSTERSIZE = 0 := by
    rw [hoff]
    exact mul_mod_right _ _
  have hk : (chain i).length - 1 < (chain i).length := by omega
  have hp := h.inUse_getD hk
  have hp_mem : (chain i).getD ((chain i).length - 1) FILESYSTEM_LASTCLUSTER ∈ chain i := by
    rw [getD_eq_getElem _ _ hk]
    exact getElem_mem hk
  have hp_link : s.link ((chain i).getD ((chain i).length - 1) FILESYSTEM_LASTCLUSTER) = FILESYSTEM_LASTCLUSTER := by
    rw [h.link_getD hi hk]
    exact getD_eq_default _ _ (by omega)
  have hle : off % FILESYSTEM_CLUSTERSIZE + n ≤ FILESYSTEM_CLUSTERSIZE := by
    rw [hn]
    exact copySize_le (fh.placed (chain i) off) (total - count)
  rcases writeRound_spec h.ready hon h.root pv hn with ⟨_, _, _, _, hnone⟩ | ⟨c, link, s', hround, hto, hs'⟩
  · obtain ⟨c, hc, hcfree⟩ := exists_findable hfree
    exact absurd hcfree (hnone c hc)
  · unfold WritesTo at hto
    rw [if_pos hlast, hprev] at hto
    obtain ⟨hc, hcfree, rfl⟩ := hto
    have hc0 : c ≠ 0 := by
      rintro rfl
      exact h.root hcfree.1
    have hcl : c ∉ chain i := fun hmem => (h.inUse_of_mem hmem).2 hcfree.1
    have hcp : c ≠ (chain i).getD ((chain i).length - 1) FILESYSTEM_LASTCLUSTER := fun heq => hcl (heq ▸ hp_mem)
    have hsound := h.grow hs'.toKept hp_mem hp_link hc hcfree.1 hs'.links
    have hcount := freeCount_grown hs'.toSteady hc hcfree hp.2 hc0 hs'.links
    have hchain : Function.update chain i (chain i ++ [c]) i = chain i ++ [c] := Function.update_self ..
    have hnew : (chain i ++ [c]).getD (chain i).length FILESYSTEM_LASTCLUSTER = c := by
      rw [getD_append_right _ _ _ _ le_rfl, Nat.sub_self, getD_cons_zero]
    have hplaced : ({ fh.placed (chain i) off with dwCurrentClusterIndex := c } : FileHandle)
        = fh.placed (chain i ++ [c]) off := by
      unfold FileHandle.placed
      rw [hdiv, hnew, getD_append _ _ _ _ hk]
    have hlink : Function.update (Function.update s.link c FILESYSTEM_LASTCLUSTER)
        ((chain i).getD ((chain i).length - 1) FILESYSTEM_LASTCLUSTER) c
        ((chain i ++ [c]).getD (off / FILESYSTEM_CLUSTERSIZE) FILESYSTEM_LASTCLUSTER)
          = (chain i ++ [c]).getD (off / FILESYSTEM_CLUSTERSIZE + 1) FILESYSTEM_LASTCLUSTER := by
      have hend : (chain i ++ [c]).getD ((chain i).length + 1) FILESYSTEM_LASTCLUSTER = FILESYSTEM_LASTCLUSTER :=
        getD_eq_default _ _ (by simp)
      rw [hdiv, hnew, hend, Function.update_of_ne hcp, Function.update_self]
    refine ⟨_, s', ?_, hs'.toKept, hsound, fun j hj => Function.update_of_ne hj _ _, ?_, ?_, ?_, fun x hx => ?_⟩
    · rw [hround, hplaced, advance_placed hlink hpos hle hlt, hchain]
    · rw [hchain]
      simp
    · rw [hchain, length_append, length_singleton]
      unfold FILESYSTEM_CLUSTERSIZE at hoff hmod hle ⊢
      omega
    · rw [hchain, length_append, length_singleton]
      omega
    · rw [hchain]
      unfold State.fileByte
      by_cases hsame : x / FILESYSTEM_CLUSTERSIZE = off / FILESYSTEM_CLUSTERSIZE
      · have hinside := hs'.inside (x % FILESYSTEM_CLUSTERSIZE) (mod_lt x (by decide))
        rw [hsame, hdiv, hnew, hinside, written_placed pv hsame]
        unfold FILESYSTEM_CLUSTERSIZE at hx hsame hoff hmod
        rw [if_pos (by omega), if_pos (by omega)]
      · have hxk : x / FILESYSTEM_CLUSTERSIZE < (chain i).length := by
          unfold FILESYSTEM_CLUSTERSIZE at hx hsame hoff hmod hle ⊢
          omega
        have hother : (chain i).getD (x / FILESYSTEM_CLUSTERSIZE) FILESYSTEM_LASTCLUSTER ≠ c := by
          rw [getD_eq_getElem _ _ hxk]
          exact fun heq => hcl (heq ▸ getElem_mem hxk)
        rw [getD_append _ _ _ _ hxk, hs'.outside _ hother _ (mod_lt x (by decide)), if_neg]
        unfold FILESYSTEM_CLUSTERSIZE at hxk hoff
        omega

theorem writeRound_full (fh : FileHandle) (count total : Nat) (h : Sound s chain) (hi : Used s i)
    (hoff : off = FILESYSTEM_CLUSTERSIZE * (chain i).length) (hfree : s.freeCount = 0) (pv : Memory) : ∃ s',
      writeRound s (fh.placed (chain i) off) pv total count = (false, count, fh.placed (chain i) off, s') ∧
      Relinked s s' s.link := by
  obtain ⟨-, hlast, -, hon⟩ := behind_placed fh h hi hoff
  rcases writeRound_spec h.ready hon h.root pv rfl with ⟨s', hround, hs', -, -⟩ | ⟨c, link, s', -, hto, -⟩
  · exact ⟨s', hround, hs'⟩
  · unfold WritesTo at hto
    rw [if_pos hlast] at hto
    have hmem : c ∈ (Finset.range s.manager.dwTotalClusterCount).filter (Findable s) :=
      Finset.mem_filter.2 ⟨Finset.mem_range.2 hto.1, hto.2.1⟩
    exact absurd hfree (Nat.ne_of_gt (Finset.card_pos.2 ⟨c, hmem⟩))

theorem WritesOn.relinked {bytes : Nat → UInt8} (h : Sound s chain)
    (hoff : off ≤ FILESYSTEM_CLUSTERSIZE * (chain i).length) (hs' : Relinked s s' s.link) :
    WritesOn s s' chain chain i off 0 bytes := by
  refine ⟨hs'.toKept, h.kept hs'.toKept hs'.links, fun _ _ => rfl, le_rfl, hoff, ?_, fun x _ => ?_⟩
  · rw [freeCount_same hs'.toSteady hs'.links]
  · rw [if_neg (by omega), State.fileByte, hs'.bytes]
    rfl

/-- **Writing on** from a place, until all is written or no cluster is free. -/
theorem writeLoop_until (fh : FileHandle) (h : Sound s chain) (hi : Used s i) (htotal : count + rest = total)
    (hoff : off ≤ FILESYSTEM_CLUSTERSIZE * (chain i).length)
    (hlt : off + rest < 2 ^ 32) (hrounds : rest ≤ rounds) (pv : Memory) : ∃ n chain' s', n ≤ rest ∧
      writeLoop pv total rounds s (fh.placed (chain i) off) count
        = (count + n, fh.placed (chain' i) (off + n), s') ∧
      WritesOn s s' chain chain' i off n (fun x => pv (count + x)) ∧
      (n < rest → s'.freeCount = 0 ∧ off + n = FILESYSTEM_CLUSTERSIZE * (chain' i).length) ∧
      (off + n ≤ FILESYSTEM_CLUSTERSIZE * (chain i).length → chain' i = chain i) := by
  induction rounds generalizing s chain off count rest with
  | zero =>
    obtain rfl : rest = 0 := by omega
    exact ⟨0, chain, s, le_refl 0, rfl, .refl h hoff, fun hlt => absurd hlt (Nat.lt_irrefl 0), fun _ => rfl⟩
  | succ rounds ih =>
    rw [writeLoop]
    by_cases hdone : rest = 0
    · subst hdone
      rw [if_pos (by omega)]
      exact ⟨0, chain, s, le_refl 0, rfl, .refl h hoff, fun hlt => absurd hlt (Nat.lt_irrefl 0), fun _ => rfl⟩
    · rw [if_neg (by omega)]
      have hpos : 0 < copySize (fh.placed (chain i) off) (total - count) := copySize_pos (by omega)
      have hcopy : copySize (fh.placed (chain i) off) (total - count) ≤ rest := by
        have hmin : copySize (fh.placed (chain i) off) (total - count) ≤ total - count := Nat.min_le_right _ _
        omega
      by_cases hfull : off = FILESYSTEM_CLUSTERSIZE * (chain i).length ∧ s.freeCount = 0
      · obtain ⟨s₁, hround, h₁⟩ := writeRound_full fh count total h hi hfull.1 hfull.2 pv
        rw [hround]
        refine ⟨0, chain, s₁, zero_le _, rfl, .relinked h hoff h₁, fun _ => ⟨?_, hfull.1⟩, fun _ => rfl⟩
        rw [freeCount_same h₁.toSteady h₁.links]
        exact hfull.2
      · have hround : ∃ n chain₁ s₁, 0 < n ∧ n ≤ rest ∧
            writeRound s (fh.placed (chain i) off) pv total count
              = (true, count + n, fh.placed (chain₁ i) (off + n), s₁) ∧
            WritesOn s s₁ chain chain₁ i off n (fun x => pv (count + x)) ∧
            (off + n ≤ FILESYSTEM_CLUSTERSIZE * (chain i).length → chain₁ i = chain i) := by
          by_cases hk : off / FILESYSTEM_CLUSTERSIZE < (chain i).length
          · obtain ⟨s₁, hround, h₁⟩ := writeRound_within h hi hk rfl hpos (by omega) pv
            exact ⟨_, chain, s₁, hpos, hcopy, hround, h₁, fun _ => rfl⟩
          · have hend : off = FILESYSTEM_CLUSTERSIZE * (chain i).length := by
              unfold FILESYSTEM_CLUSTERSIZE at hoff hk ⊢
              omega
            obtain ⟨chain₁, s₁, hround, h₁⟩ := writeRound_behind h hi hend (by omega) rfl hpos (by omega) pv
            exact ⟨_, chain₁, s₁, hpos, hcopy, hround, h₁, fun hle => absurd hle (by omega)⟩
        obtain ⟨n, chain₁, s₁, hn, hnrest, hround, h₁, hstays₁⟩ := hround
        obtain ⟨m, chain₂, s₂, hm, hloop, h₂, hshort, hstays₂⟩ := ih h₁.sound ((h₁.toKept.used i).2 hi)
          (show count + n + (rest - n) = total by omega) h₁.room (by omega) (by omega)
        rw [hround]
        refine ⟨n + m, chain₂, s₂, by omega, ?_, ?_, fun hlt => ?_, fun hle => ?_⟩
        · dsimp only
          rw [hloop, Nat.add_assoc, Nat.add_assoc]
        · have hbytes : (fun x => pv (count + n + x)) = fun x => pv (count + (n + x)) := by
            funext x
            rw [Nat.add_assoc]
          rw [hbytes] at h₂
          exact h₁.trans h₂
        · obtain ⟨hnone, hend⟩ := hshort (by omega)
          exact ⟨hnone, by rw [← hend, Nat.add_assoc]⟩
        · have hsame := hstays₁ (by omega)
          exact (hstays₂ (by rw [hsame]; omega)).trans hsame

end Mint
