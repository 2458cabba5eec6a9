import Mathlib.Algebra.GroupWithZero.Nat
import Mathlib.Order.Interval.Set.Basic
import SkyOS.Lib.Bytes
import SkyOS.Lib.Machine

/-!
# Base relocation (`PerformBaseRelocation`, `SkyCore/LoadDLL.cpp:220`)

The relocation directory is a sequence of blocks: a page, the size of the block, and entries of two bytes, the upper
four bits of which are the type. The difference of the bases is added to the word that a `HIGHLOW` entry names. The
end that the blocks are compared with is `sizeof(IMAGE_BASE_RELOCATION)` before the end of the directory, and the
structure is packed and has one entry in it (`PEImage.h:723`): ten bytes. A last block of ten bytes is left out.

| here | there |
| --- | --- |
| `RelocationContext` | what is read of `LOAD_DLL_CONTEXT` |
| `none` | the loop of `Unknown relocation`, or more rounds than allowed |
| `leftOut` | the part of the directory that is left out |
-/

namespace Modules

open Machine Bytes List Nat

/-! ## The code -/

/-- `image_base`, and of the headers `ImageBase` and the directory entry. -/
structure RelocationContext where
  image_base : Nat
  ImageBase : Nat
  DirVirtualAddress : Nat
  DirSize : Nat

/-- `IMAGE_SIZEOF_BASE_RELOCATION`, and `sizeof(IMAGE_BASE_RELOCATION)`. -/
def IMAGE_SIZEOF_BASE_RELOCATION : Nat := 8

def sizeofIMAGE_BASE_RELOCATION : Nat := 10

def IMAGE_REL_BASED_ABSOLUTE : Nat := 0

def IMAGE_REL_BASED_HIGHLOW : Nat := 3

/-- `relocation->VirtualAddress`, `relocation->SizeOfBlock`. -/
def blockAddress (m : Memory) (relocation : Nat) : Nat := read32 m relocation

def SizeOfBlock (m : Memory) (relocation : Nat) : Nat := read32 m (u32 (relocation + 4))

def entryType (item : Nat) : Nat := item / 2 ^ 12

def entryOffset (item : Nat) : Nat := item % 2 ^ 12

/-- The loop over the entries of a block (:247). -/
def entryLoop (relocation dest delta : Nat) : Nat → Nat → Nat → Memory → Option Memory
  | 0, _, _, _ => none
  | fuel + 1, i, relInfo, m =>
    if i < sub32 (SizeOfBlock m relocation) IMAGE_SIZEOF_BASE_RELOCATION / 2 then
      let item := readLE m relInfo 2
      if entryType item = IMAGE_REL_BASED_ABSOLUTE then
        entryLoop relocation dest delta fuel (i + 1) (u32 (relInfo + 2)) m
      else if entryType item = IMAGE_REL_BASED_HIGHLOW then
        let patchAddrHL := u32 (dest + entryOffset item)
        entryLoop relocation dest delta fuel (i + 1) (u32 (relInfo + 2))
          (write32 m patchAddrHL (u32 (read32 m patchAddrHL + delta)))
      else none
    else some m

/-- The loop over the blocks (:242). -/
def blockLoop (codeBase r_end delta : Nat) : Nat → Nat → Memory → Option Memory
  | 0, _, _ => none
  | fuel + 1, relocation, m =>
    if relocation < r_end then
      let dest := u32 (codeBase + blockAddress m relocation)
      (entryLoop relocation dest delta fuel 0 (u32 (relocation + IMAGE_SIZEOF_BASE_RELOCATION)) m).bind fun m =>
        blockLoop codeBase r_end delta fuel (u32 (relocation + SizeOfBlock m relocation)) m
    else some m

/-- `delta` (:223). -/
def RelocationContext.delta (ctx : RelocationContext) : Nat := sub32 ctx.image_base ctx.ImageBase

def RelocationContext.directory (ctx : RelocationContext) : Nat := u32 (ctx.image_base + ctx.DirVirtualAddress)

/-- `PerformBaseRelocation` (:220), with a bound for the rounds of each loop. -/
def PerformBaseRelocation (ctx : RelocationContext) (fuel : Nat) (m : Memory) : Option (Bool × Memory) :=
  if ctx.DirSize = 0 then some (ctx.delta = 0, m)
  else
    let r_end := sub32 (ctx.directory + ctx.DirSize) sizeofIMAGE_BASE_RELOCATION
    (blockLoop ctx.image_base r_end ctx.delta fuel ctx.directory m).map fun m => (true, m)

/-! ## A well-formed directory -/

structure RelocationBlock where
  VirtualAddress : Nat
  entries : List Nat

namespace RelocationBlock

/-- Its `SizeOfBlock`: at least eight, and even. -/
def size (b : RelocationBlock) : Nat := IMAGE_SIZEOF_BASE_RELOCATION + 2 * b.entries.length

end RelocationBlock

/-- The addresses of the words that the `HIGHLOW` entries of a block name. -/
def targetsOf (dest : Nat) (entries : List Nat) : List Nat :=
  (entries.filter fun item => entryType item = IMAGE_REL_BASED_HIGHLOW).map fun item => u32 (dest + entryOffset item)

def totalSize (blocks : List RelocationBlock) : Nat := (blocks.map RelocationBlock.size).sum

def allTargets (image_base : Nat) (blocks : List RelocationBlock) : List Nat :=
  blocks.flatMap fun b => targetsOf (u32 (image_base + b.VirtualAddress)) b.entries

def EntriesAt (m : Memory) (a : Nat) : List Nat → Prop
  | [] => True
  | item :: items => readLE m a 2 = item ∧ EntriesAt m (a + 2) items

def BlocksAt (m : Memory) (a : Nat) : List RelocationBlock → Prop
  | [] => True
  | b :: bs => (read32 m a = b.VirtualAddress ∧ read32 m (a + 4) = b.size) ∧
      EntriesAt m (a + IMAGE_SIZEOF_BASE_RELOCATION) b.entries ∧ BlocksAt m (a + b.size) bs

/-- The image is in memory, with a directory in it, and the words that are named are elsewhere in it. -/
structure WellFormed (ctx : RelocationContext) (imageSize : Nat) (m : Memory) (blocks : List RelocationBlock) :
    Prop where
  /-- The heap does not give out the first bytes of memory, nor the last one. -/
  heap : 4 ≤ ctx.image_base ∧ ctx.image_base + imageSize < 2 ^ 32
  directory : ctx.DirVirtualAddress + ctx.DirSize ≤ imageSize
  size : totalSize blocks = ctx.DirSize
  table : BlocksAt m (ctx.image_base + ctx.DirVirtualAddress) blocks
  types : ∀ b ∈ blocks, ∀ item ∈ b.entries,
    entryType item = IMAGE_REL_BASED_ABSOLUTE ∨ entryType item = IMAGE_REL_BASED_HIGHLOW
  inside : ∀ t ∈ allTargets ctx.image_base blocks, ctx.image_base ≤ t ∧ t + 4 ≤ ctx.image_base + imageSize
  outside : ∀ t ∈ allTargets ctx.image_base blocks, t + 4 ≤ ctx.image_base + ctx.DirVirtualAddress ∨
    ctx.image_base + ctx.DirVirtualAddress + ctx.DirSize ≤ t
  disjoint : (allTargets ctx.image_base blocks).Pairwise fun t t' => t + 4 ≤ t' ∨ t' + 4 ≤ t

/-! ## Adding the difference -/

def relocate (delta : Nat) (m : Memory) (targets : List Nat) : Memory :=
  targets.foldl (fun m t => write32 m t (u32 (read32 m t + delta))) m

variable {delta : Nat} {m m' : Memory} {targets : List Nat}

theorem relocate_cons (t : Nat) (targets : List Nat) : relocate delta m (t :: targets) =
    relocate delta (write32 m t (u32 (read32 m t + delta))) targets := rfl

theorem relocate_append (targets targets' : List Nat) : relocate delta m (targets ++ targets') =
    relocate delta (relocate delta m targets) targets' := foldl_append

theorem relocate_outside {x : Nat} (h : ∀ t ∈ targets, x < t ∨ t + 4 ≤ x) : relocate delta m targets x = m x := by
  induction targets generalizing m with
  | nil => rfl
  | cons t targets ih =>
    rw [relocate_cons, ih fun t' ht' => h t' (mem_cons_of_mem t ht')]
    exact write32_outside m (h t (.head _)) _

variable {lo hi a relocation : Nat} {items : List Nat} {bs : List RelocationBlock}

theorem eqOn_relocate (h : ∀ t ∈ targets, t + 4 ≤ lo ∨ hi ≤ t) :
    Set.EqOn (relocate delta m targets) m (Set.Ico lo hi) := by
  intro x hx
  refine relocate_outside fun t ht => ?_
  have ht := h t ht
  have hx1 := hx.1
  have hx2 := hx.2
  omega

theorem read32_relocate (hdisjoint : targets.Pairwise fun t t' => t + 4 ≤ t' ∨ t' + 4 ≤ t) {t : Nat}
    (ht : t ∈ targets) : read32 (relocate delta m targets) t = u32 (read32 m t + delta) := by
  induction targets generalizing m with
  | nil => cases ht
  | cons t' targets ih =>
    rw [pairwise_cons] at hdisjoint
    rw [relocate_cons]
    rcases mem_cons.1 ht with rfl | ht
    · have hrest : Set.EqOn (relocate delta (write32 m t (u32 (read32 m t + delta))) _) _ (Set.Ico t (t + 4)) :=
        eqOn_relocate fun t' ht' => (hdisjoint.1 t' ht').symm
      rw [read32_congr hrest, read32_write32_self m t (u32_lt _)]
    · rw [ih hdisjoint.2 ht, read32_write32_of_disjoint m (hdisjoint.1 t ht).symm]

/-! ## The loops -/

theorem EntriesAt.congr (h : EntriesAt m a items)
    (hsame : Set.EqOn m' m (Set.Ico a (a + 2 * items.length))) : EntriesAt m' a items := by
  induction items generalizing a with
  | nil => trivial
  | cons item items ih =>
    rw [length_cons] at hsame
    refine ⟨?_, ih h.2 fun x hx => hsame ⟨?_, ?_⟩⟩
    · rw [readLE_congr fun x hx => hsame ⟨hx.1, by have := hx.2; omega⟩]
      exact h.1
    · have := hx.1
      omega
    · have := hx.2
      omega

theorem BlocksAt.congr (h : BlocksAt m a bs)
    (hsame : Set.EqOn m' m (Set.Ico a (a + totalSize bs))) : BlocksAt m' a bs := by
  induction bs generalizing a with
  | nil => trivial
  | cons b bs ih =>
    obtain ⟨⟨haddress, hsize⟩, hentries, hrest⟩ := h
    have htotal : totalSize (b :: bs) = b.size + totalSize bs := rfl
    have hb : b.size = 8 + 2 * b.entries.length := rfl
    have hheader : IMAGE_SIZEOF_BASE_RELOCATION = 8 := rfl
    rw [htotal] at hsame
    have hsub : ∀ {lo hi : Nat}, a ≤ lo → hi ≤ a + (b.size + totalSize bs) → Set.EqOn m' m (Set.Ico lo hi) :=
      fun hlo hhi => hsame.mono (Set.Ico_subset_Ico hlo hhi)
    refine ⟨⟨?_, ?_⟩, hentries.congr (hsub ?_ ?_), ih hrest (hsub ?_ ?_)⟩
    · rw [read32_congr (hsub (by omega) (by omega)), haddress]
    · rw [read32_congr (hsub (by omega) (by omega)), hsize]
    all_goals omega

theorem count_eq {n : Nat} (hin : relocation + 8 ≤ hi) (hhi : hi < 2 ^ 32)
    (hsize : read32 m (relocation + 4) = 8 + 2 * n) :
    sub32 (SizeOfBlock m relocation) IMAGE_SIZEOF_BASE_RELOCATION / 2 = n := by
  have hlt := read32_lt m (relocation + 4)
  have haddr : u32 (relocation + 4) = relocation + 4 := u32_of_lt (by omega)
  rw [hsize] at hlt
  have hsub : sub32 (8 + 2 * n) IMAGE_SIZEOF_BASE_RELOCATION = 8 + 2 * n - 8 := sub32_of_le (by
    unfold IMAGE_SIZEOF_BASE_RELOCATION
    omega) hlt
  rw [SizeOfBlock, haddr, hsize, hsub]
  omega

theorem entryLoop_eq {dest : Nat} (hlo : lo ≤ relocation) (hhi : hi < 2 ^ 32) :
    ∀ {fuel i relInfo : Nat} {m : Memory}, items.length < fuel → relocation + 8 ≤ hi →
      lo ≤ relInfo → relInfo + 2 * items.length ≤ hi → read32 m (relocation + 4) = 8 + 2 * (i + items.length) →
      EntriesAt m relInfo items →
      (∀ item ∈ items, entryType item = IMAGE_REL_BASED_ABSOLUTE ∨ entryType item = IMAGE_REL_BASED_HIGHLOW) →
      (∀ t ∈ targetsOf dest items, t + 4 ≤ lo ∨ hi ≤ t) →
        entryLoop relocation dest delta fuel i relInfo m = some (relocate delta m (targetsOf dest items)) := by
  induction items with
  | nil =>
    intro fuel i relInfo m hfuel hin _ _ hsize _ _ _
    obtain ⟨fuel, rfl⟩ := exists_eq_add_one.2 hfuel
    have hcount := count_eq hin hhi hsize
    rw [entryLoop, if_neg (by rw [hcount]; simp)]
    rfl
  | cons item items ih =>
    intro fuel i relInfo m hfuel hin hlo' hhi' hsize hentries htypes htargets
    obtain ⟨fuel, rfl⟩ := exists_eq_add_one.2 (zero_lt_of_lt hfuel)
    rw [length_cons] at hfuel hhi' hsize
    obtain ⟨hitem, hrest⟩ := hentries
    have hcount := count_eq hin hhi hsize
    have hnext : u32 (relInfo + 2) = relInfo + 2 := u32_of_lt (by omega)
    have hsize' : 8 + 2 * (i + (items.length + 1)) = 8 + 2 * (i + 1 + items.length) := by omega
    rw [hsize'] at hsize
    rw [entryLoop, if_pos (by omega)]
    simp only [hitem, hnext]
    have hrestTypes : ∀ item ∈ items,
        entryType item = IMAGE_REL_BASED_ABSOLUTE ∨ entryType item = IMAGE_REL_BASED_HIGHLOW :=
      fun item' h => htypes item' (mem_cons_of_mem item h)
    rcases htypes item (.head _) with htype | htype
    · have hskip : targetsOf dest (item :: items) = targetsOf dest items := by
        simp [targetsOf, htype, IMAGE_REL_BASED_ABSOLUTE, IMAGE_REL_BASED_HIGHLOW]
      rw [if_pos htype, hskip]
      rw [hskip] at htargets
      exact ih (by omega) hin (by omega) (by omega) hsize hrest hrestTypes htargets
    · have htarget : targetsOf dest (item :: items) = u32 (dest + entryOffset item) :: targetsOf dest items := by
        simp [targetsOf, htype]
      rw [htarget] at htargets
      have hapart := htargets _ (.head _)
      -- the word is outside of the directory, so the rest of the loop reads what was there
      have hsame : ∀ v, Set.EqOn (write32 m (u32 (dest + entryOffset item)) v) m (Set.Ico lo hi) := by
        intro v x hx
        have hx1 := hx.1
        have hx2 := hx.2
        exact write32_outside m (by omega) v
      rw [if_neg (by rw [htype]; decide), if_pos htype, htarget, relocate_cons]
      refine ih (by omega) hin (by omega) (by omega) ?_ ?_ hrestTypes fun t ht => htargets t (.tail _ ht)
      · rw [read32_congr ((hsame _).mono (Set.Ico_subset_Ico (by omega) (by omega))), hsize]
      · exact hrest.congr ((hsame _).mono (Set.Ico_subset_Ico (by omega) (by omega)))

/-- The part of the blocks that the loop gets to, and the words that are named in the rest. -/
def visited : List RelocationBlock → List RelocationBlock
  | [] => []
  | b :: bs => if totalSize (b :: bs) > sizeofIMAGE_BASE_RELOCATION then b :: visited bs else []

def leftOut (image_base : Nat) : List RelocationBlock → List Nat
  | [] => []
  | b :: bs =>
    if totalSize (b :: bs) > sizeofIMAGE_BASE_RELOCATION then leftOut image_base bs
    else allTargets image_base (b :: bs)

theorem allTargets_eq (image_base : Nat) (bs : List RelocationBlock) :
    allTargets image_base bs = allTargets image_base (visited bs) ++ leftOut image_base bs := by
  induction bs with
  | nil => rfl
  | cons b bs ih =>
    rw [visited, leftOut]
    split
    · simp only [allTargets, flatMap_cons] at ih ⊢
      rw [ih, append_assoc]
    · rfl

theorem blockLoop_eq {codeBase finish : Nat} (hfinish : finish < 2 ^ 32) :
    ∀ {fuel a : Nat} {m : Memory}, totalSize bs < fuel → a + totalSize bs = finish → BlocksAt m a bs →
      (∀ b ∈ bs, ∀ item ∈ b.entries,
        entryType item = IMAGE_REL_BASED_ABSOLUTE ∨ entryType item = IMAGE_REL_BASED_HIGHLOW) →
      (∀ t ∈ allTargets codeBase bs, t + 4 ≤ a ∨ finish ≤ t) →
        blockLoop codeBase (finish - sizeofIMAGE_BASE_RELOCATION) delta fuel a m =
          some (relocate delta m (allTargets codeBase (visited bs))) := by
  induction bs with
  | nil =>
    intro fuel a m hfuel ha _ _ _
    obtain ⟨fuel, rfl⟩ := exists_eq_add_one.2 hfuel
    have htotal : totalSize [] = 0 := rfl
    rw [blockLoop, if_neg (by omega)]
    rfl
  | cons b bs ih =>
    intro fuel a m hfuel ha htable htypes htargets
    obtain ⟨fuel, rfl⟩ := exists_eq_add_one.2 (zero_lt_of_lt hfuel)
    have htotal : totalSize (b :: bs) = b.size + totalSize bs := rfl
    have hb : b.size = 8 + 2 * b.entries.length := rfl
    have hheader : IMAGE_SIZEOF_BASE_RELOCATION = 8 := rfl
    by_cases hlong : totalSize (b :: bs) > sizeofIMAGE_BASE_RELOCATION
    · obtain ⟨⟨haddress, hsize⟩, hentries, hrest⟩ := htable
      have hsplit : allTargets codeBase (b :: bs) = targetsOf (u32 (codeBase + b.VirtualAddress)) b.entries ++
          allTargets codeBase bs := rfl
      have hvisited : allTargets codeBase (visited (b :: bs)) =
          targetsOf (u32 (codeBase + b.VirtualAddress)) b.entries ++ allTargets codeBase (visited bs) := by
        rw [visited, if_pos hlong]
        rfl
      have hfirst : u32 (a + IMAGE_SIZEOF_BASE_RELOCATION) = a + 8 := u32_of_lt (by omega)
      have hown : ∀ t ∈ targetsOf (u32 (codeBase + b.VirtualAddress)) b.entries, t + 4 ≤ a ∨ finish ≤ t := fun t ht =>
        htargets t (hsplit ▸ mem_append_left _ ht)
      have hloop : entryLoop a (u32 (codeBase + b.VirtualAddress)) delta fuel 0 (a + 8) m =
          some (relocate delta m (targetsOf (u32 (codeBase + b.VirtualAddress)) b.entries)) :=
        entryLoop_eq (le_refl a) hfinish (by omega) (by omega) (by omega) (by omega)
          (by rw [hsize, Nat.zero_add, hb]) hentries (htypes b mem_cons_self) hown
      have hsame : Set.EqOn (relocate delta m _) m (Set.Ico a finish) := eqOn_relocate hown
      have hstep :
          SizeOfBlock (relocate delta m (targetsOf (u32 (codeBase + b.VirtualAddress)) b.entries)) a = b.size := by
        have haddr : u32 (a + 4) = a + 4 := u32_of_lt (by omega)
        rw [SizeOfBlock, haddr, read32_congr (hsame.mono (Set.Ico_subset_Ico (by omega) (by omega))), hsize]
      have hnext : u32 (a + b.size) = a + b.size := u32_of_lt (by omega)
      rw [blockLoop, if_pos (by omega)]
      simp only [blockAddress, haddress, hfirst, hloop, Option.bind_some, hstep, hnext]
      rw [hvisited, relocate_append]
      refine ih (by omega) (by omega) (hrest.congr (hsame.mono (Set.Ico_subset_Ico (by omega) (by omega))))
        (fun b' h => htypes b' (mem_cons_of_mem b h)) fun t ht => ?_
      have ht := htargets t (hsplit ▸ mem_append_right _ ht)
      omega
    · rw [blockLoop, if_neg (by omega), visited, if_neg hlong]
      rfl

/-! ## The whole function -/

/-- The last block has one entry, a `HIGHLOW` one. -/
def LastLeftOut (blocks : List RelocationBlock) : Prop :=
  ∃ b item, blocks.getLast? = some b ∧ b.entries = [item] ∧ entryType item = IMAGE_REL_BASED_HIGHLOW

theorem leftOut_ne_nil_iff (image_base : Nat) (bs : List RelocationBlock) :
    leftOut image_base bs ≠ [] ↔ LastLeftOut bs := by
  have hstop : sizeofIMAGE_BASE_RELOCATION = 10 := rfl
  have hsize : ∀ b : RelocationBlock, b.size = 8 + 2 * b.entries.length := fun b => rfl
  induction bs with
  | nil => simp [leftOut, LastLeftOut]
  | cons b bs ih =>
    have hb := hsize b
    have htotal : totalSize (b :: bs) = b.size + totalSize bs := rfl
    rw [leftOut]
    cases bs with
    | nil =>
      have hnone : totalSize [] = 0 := rfl
      have hlast : LastLeftOut [b] ↔ ∃ item, b.entries = [item] ∧ entryType item = IMAGE_REL_BASED_HIGHLOW := by
        simp [LastLeftOut]
      rw [hlast]
      split
      · refine iff_of_false (fun h => h rfl) ?_
        rintro ⟨item, hentries, -⟩
        rw [hentries, length_singleton] at hb
        omega
      · have htargets : allTargets image_base [b] = targetsOf (u32 (image_base + b.VirtualAddress)) b.entries := by
          simp [allTargets]
        rw [htargets]
        match hentries : b.entries with
        | [] => simp [targetsOf]
        | [item] => simp [targetsOf, filter_cons]
        | item :: item' :: items =>
          simp only [hentries, length_cons] at hb
          omega
    | cons b' bs =>
      have hb' := hsize b'
      have htotal' : totalSize (b' :: bs) = b'.size + totalSize bs := rfl
      rw [if_pos (by omega)]
      refine ih.trans ?_
      simp [LastLeftOut, List.getLast?_cons_cons]

/-- The difference is added to the words that the `HIGHLOW` entries name, and nothing else changes; so taking it off
again gives back the image. -/
def Relocates (ctx : RelocationContext) (m : Memory) (blocks : List RelocationBlock) : Prop :=
  ∃ rounds, ∀ fuel ≥ rounds, ∃ ok m', PerformBaseRelocation ctx fuel m = some (ok, m') ∧
    (∀ t ∈ allTargets ctx.image_base blocks, read32 m' t = u32 (read32 m t + ctx.delta)) ∧
    (∀ x, (∀ t ∈ allTargets ctx.image_base blocks, x < t ∨ t + 4 ≤ x) → m' x = m x) ∧
    ∀ t ∈ allTargets ctx.image_base blocks, sub32 (read32 m' t) ctx.delta = read32 m t

variable {ctx : RelocationContext} {imageSize : Nat} {blocks : List RelocationBlock}

theorem PerformBaseRelocation_eq (h : WellFormed ctx imageSize m blocks) {fuel : Nat} (hfuel : ctx.DirSize < fuel) :
    ∃ ok, PerformBaseRelocation ctx fuel m =
      some (ok, relocate ctx.delta m (allTargets ctx.image_base (visited blocks))) := by
  obtain ⟨hheap, hheap'⟩ := h.heap
  have hdir := h.directory
  have hsize := h.size
  unfold PerformBaseRelocation
  by_cases hzero : ctx.DirSize = 0
  · have hnone : blocks = [] := by
      cases blocks with
      | nil => rfl
      | cons b bs =>
        have htotal : totalSize (b :: bs) = 8 + 2 * b.entries.length + totalSize bs := rfl
        omega
    subst hnone
    exact ⟨_, if_pos hzero⟩
  · have hcons : 8 ≤ ctx.DirSize := by
      cases blocks with
      | nil => exact absurd hsize.symm hzero
      | cons b bs =>
        have htotal : totalSize (b :: bs) = 8 + 2 * b.entries.length + totalSize bs := rfl
        omega
    have hplace : ctx.directory = ctx.image_base + ctx.DirVirtualAddress := u32_of_lt (by omega)
    have hend : sub32 (ctx.image_base + ctx.DirVirtualAddress + ctx.DirSize) sizeofIMAGE_BASE_RELOCATION =
        ctx.image_base + ctx.DirVirtualAddress + ctx.DirSize - sizeofIMAGE_BASE_RELOCATION := by
      refine sub32_of_le ?_ (by omega)
      unfold sizeofIMAGE_BASE_RELOCATION
      omega
    have hloop : blockLoop ctx.image_base
        (ctx.image_base + ctx.DirVirtualAddress + ctx.DirSize - sizeofIMAGE_BASE_RELOCATION) ctx.delta fuel
        (ctx.image_base + ctx.DirVirtualAddress) m =
          some (relocate ctx.delta m (allTargets ctx.image_base (visited blocks))) :=
      blockLoop_eq (by omega) (by omega) (by omega) h.table h.types h.outside
    refine ⟨true, ?_⟩
    rw [if_neg hzero, hplace, hend]
    simp only [hloop, Option.map_some]

/-- **Base relocation** does what it should if and only if the bases are the same or the last block is not one with a
single entry to relocate. -/
theorem relocates_iff (h : WellFormed ctx imageSize m blocks) :
    Relocates ctx m blocks ↔ ctx.delta = 0 ∨ ¬ LastLeftOut blocks := by
  have hall := allTargets_eq ctx.image_base blocks
  have hdisjoint := h.disjoint
  rw [hall, List.pairwise_append] at hdisjoint
  obtain ⟨hvisited, -, hapart⟩ := hdisjoint
  -- what is left out is as it was
  have hleft : ∀ t ∈ leftOut ctx.image_base blocks,
      read32 (relocate ctx.delta m (allTargets ctx.image_base (visited blocks))) t = read32 m t := fun t ht =>
    read32_congr (eqOn_relocate fun t' ht' => hapart t' ht' t ht)
  have hdelta : ctx.delta < 2 ^ 32 := u32_lt _
  constructor
  · rintro ⟨rounds, hrounds⟩
    by_contra hnot
    push Not at hnot
    obtain ⟨hne, hlast⟩ := hnot
    obtain ⟨t, ht⟩ := List.exists_mem_of_ne_nil _ ((leftOut_ne_nil_iff ctx.image_base blocks).2 hlast)
    obtain ⟨ok, m', hrun, hwords, -⟩ := hrounds (max rounds (ctx.DirSize + 1)) (Nat.le_max_left _ _)
    obtain ⟨ok', hrun'⟩ :=
      PerformBaseRelocation_eq h (show ctx.DirSize < max rounds (ctx.DirSize + 1) from Nat.le_max_right _ _)
    obtain ⟨-, rfl⟩ := Prod.mk.inj (Option.some.inj (hrun.symm.trans hrun'))
    have hword := hwords t (hall ▸ List.mem_append_right _ ht)
    have hlt := read32_lt m t
    rw [hleft t ht] at hword
    unfold u32 at hword
    omega
  · intro hcond
    have hadded : ∀ t ∈ allTargets ctx.image_base blocks,
        read32 (relocate ctx.delta m (allTargets ctx.image_base (visited blocks))) t =
          u32 (read32 m t + ctx.delta) := by
      intro t ht
      rw [hall] at ht
      rcases List.mem_append.1 ht with ht | ht
      · exact read32_relocate hvisited ht
      · have hlast := (leftOut_ne_nil_iff ctx.image_base blocks).1 (List.ne_nil_of_mem ht)
        rw [hleft t ht, hcond.resolve_right fun hnot => hnot hlast, Nat.add_zero, u32_of_lt (read32_lt m t)]
    refine ⟨ctx.DirSize + 1, fun fuel hfuel => ?_⟩
    obtain ⟨ok, hrun⟩ := PerformBaseRelocation_eq h hfuel
    refine ⟨ok, _, hrun, hadded, fun x hx => ?_, fun t ht => ?_⟩
    · exact relocate_outside fun t ht => hx t (hall ▸ List.mem_append_left _ ht)
    · have hlt := read32_lt m t
      rw [hadded t ht]
      unfold sub32 u32
      omega

def twoEntries : List RelocationBlock := [⟨0, [0x3080, 0x3090]⟩]

def twoEntriesContext : RelocationContext := ⟨0x10000, 0x400000, 0x40, 12⟩

def twoEntriesImage : Memory :=
  ofList 0x10040 (leBytes 0 4 ++ leBytes 12 4 ++ leBytes 0x3080 2 ++ leBytes 0x3090 2)

theorem relocates_twoEntries : WellFormed twoEntriesContext 0x100 twoEntriesImage twoEntries ∧
    Relocates twoEntriesContext twoEntriesImage twoEntries := by
  have h : WellFormed twoEntriesContext 0x100 twoEntriesImage twoEntries := by
    refine ⟨by decide, by decide, by decide, ?_, by decide, by decide, by decide, by decide⟩
    exact ⟨⟨by decide, by decide⟩, ⟨by decide, by decide, trivial⟩, trivial⟩
  refine ⟨h, (relocates_iff h).2 (.inr ?_)⟩
  rintro ⟨b, item, hb, hentries, -⟩
  obtain rfl := Option.some.inj hb
  cases hentries

def oneEntry : List RelocationBlock := [⟨0, [0x3080]⟩]

def oneEntryContext : RelocationContext := ⟨0x10000, 0x400000, 0x40, 10⟩

def oneEntryImage : Memory := ofList 0x10040 (leBytes 0 4 ++ leBytes 10 4 ++ leBytes 0x3080 2)

/-- **A last block with one entry** is not gone through: nothing changes at all. -/
theorem oneEntry_left_out : WellFormed oneEntryContext 0x100 oneEntryImage oneEntry ∧
    ¬ Relocates oneEntryContext oneEntryImage oneEntry := by
  have h : WellFormed oneEntryContext 0x100 oneEntryImage oneEntry := by
    refine ⟨by decide, by decide, by decide, ?_, by decide, by decide, by decide, by decide⟩
    exact ⟨⟨by decide, by decide⟩, ⟨by decide, trivial⟩, trivial⟩
  refine ⟨h, ?_⟩
  rintro ⟨rounds, hrounds⟩
  obtain ⟨ok, m', hrun, hwords, -⟩ := hrounds (max rounds 11) (Nat.le_max_left _ _)
  obtain ⟨ok', hrun'⟩ := PerformBaseRelocation_eq h (show 10 < max rounds 11 from Nat.le_max_right _ _)
  obtain ⟨-, rfl⟩ := Prod.mk.inj (Option.some.inj (hrun.symm.trans hrun'))
  have hword := hwords 0x10080 (by decide)
  revert hword
  decide

end Modules
