import Mathlib.Data.List.Infix
import Mathlib.Data.List.TakeWhile
import SkyOS.Mint.OwnershipRuns

/-!
# File names (`kFindDirectoryEntry`, `:543-:573`)

An entry has the name that its field of 24 bytes holds up to the first NUL. `kFindDirectoryEntry` compares as many
bytes as the name it looks for is long, so it finds the first entry whose name *begins* with that name.

| here | there |
| --- | --- |
| `State.nameOf` | `vcFileName` of an entry, as a C string |
| `FindRight` | a file is found by its own name and by no other |
| `Exact` | the first used entry that begins with the name, if there is one, has it |
| `FileKept` | entry, clusters and bytes of a file are as before |
-/

namespace Mint

open Bytes Machine LinkChain List Option

/-! ## Names -/

def nameIn (m : Memory) (a : Nat) : List UInt8 := (slice m a FILESYSTEM_MAXFILENAMELENGTH).takeWhile (· ≠ 0)

/-- The name of directory entry `i`. -/
def State.nameOf (s : State) (i : Nat) : List UInt8 := nameIn s.disk (s.manager.entryAddress i)

/-- A name that the file system takes: 1 to 23 characters, none of them NUL. -/
def ValidName (name : List UInt8) : Prop := badName name = false ∧ 0 ∉ name

/-- Looking for a name finds a used entry of that name, and nothing exactly when there is none. -/
def FindRight (s : State) (name : List UInt8) : Prop := ∀ stEntry,
  (∀ i, (kFindDirectoryEntry s name stEntry).1.1 = some i → Used s i ∧ s.nameOf i = name) ∧
  ((kFindDirectoryEntry s name stEntry).1.1 = none ↔ ∀ i, Used s i → s.nameOf i ≠ name)

/-- Where a used entry begins with the name, that entry or one before it has the name. -/
def Exact (s : State) (name : List UInt8) : Prop :=
  ∀ i, Used s i → name <+: s.nameOf i → ∃ j ≤ i, Used s j ∧ s.nameOf j = name

variable {s s' s'' : State} {chain : Nat → List Nat} {name : List UInt8}

theorem startsWith_iff (m : Memory) (a : Nat) (name : List UInt8) :
    startsWith m a name = true ↔ slice m a name.length = name := by
  induction name generalizing a with
  | nil => exact iff_of_true rfl rfl
  | cons b name ih => simp [startsWith, slice, ih]

variable {k i : Nat} {stEntry : Memory} {own : List Nat} {o : Option (Nat × Memory)} {mode : Char} {r : Int}

variable {n a count : Nat} {iOffset iOrigin : Int}

theorem take_slice (m : Memory) (a : Nat) (h : k ≤ n) : (slice m a n).take k = slice m a k := by
  obtain ⟨d, rfl⟩ := Nat.exists_eq_add_of_le h
  rw [slice_add, take_left' (length_slice m a k)]

theorem prefix_takeWhile_iff (hnul : (0 : UInt8) ∉ name) (bytes : List UInt8) :
    name <+: bytes.takeWhile (· ≠ 0) ↔ name <+: bytes := by
  induction name generalizing bytes with
  | nil => simp
  | cons b name ih =>
    have hb : b ≠ 0 := fun h => hnul (by rw [h]; exact .head _)
    have hrest : (0 : UInt8) ∉ name := fun h => hnul (mem_cons_of_mem b h)
    cases bytes with
    | nil => simp
    | cons c bytes =>
      by_cases hc : c = 0
      · subst hc
        simp [cons_prefix_cons, hb]
      · rw [takeWhile_cons_of_pos (by simpa using hc), cons_prefix_cons, cons_prefix_cons, ih hrest]

theorem ValidName.length_le (h : ValidName name) : name.length ≤ 23 ∧ name ≠ [] := by
  have hbad := h.1
  unfold badName FILESYSTEM_MAXFILENAMELENGTH at hbad
  rw [decide_eq_false_iff_not] at hbad
  exact ⟨by omega, fun hnil => hbad (.inr (by rw [hnil]; rfl))⟩

theorem startsWith_iff_prefix (h : ValidName name) (m : Memory) (a : Nat) :
    startsWith m a name = true ↔ name <+: nameIn m a := by
  have hlen : name.length ≤ FILESYSTEM_MAXFILENAMELENGTH := Nat.le_succ_of_le h.length_le.1
  rw [startsWith_iff, nameIn, prefix_takeWhile_iff h.2, prefix_iff_eq_take, take_slice m a hlen, eq_comm]

theorem nameIn_congr {m m' : Memory} {a' : Nat} (h : ∀ x < 24, m' (a' + x) = m (a + x)) : nameIn m' a' = nameIn m a := by
  have hslice : ∀ n ≤ 24, ∀ k, k + n ≤ 24 → slice m' (a' + k) n = slice m (a + k) n := by
    intro n hn k hk
    induction n generalizing k with
    | zero => rfl
    | succ n ih =>
      rw [slice, slice, h k (by omega), Nat.add_assoc, Nat.add_assoc, ih (by omega) (k + 1) (by omega)]
  have hall := hslice 24 le_rfl 0 le_rfl
  rw [Nat.add_zero, Nat.add_zero] at hall
  unfold nameIn FILESYSTEM_MAXFILENAMELENGTH
  rw [hall]

/-! ## Finding a name -/

/-- **`kFindDirectoryEntry`** finds the first entry whose name begins with the given one. -/
theorem kFindDirectoryEntry_first (h : Ready s) (hname : ValidName name) (stEntry : Memory) :
    (kFindDirectoryEntry s name stEntry).1.1 =
      (List.range FILESYSTEM_MAXDIRECTORYENTRYCOUNT).find? fun i => decide (name <+: s.nameOf i) := by
  have hread : ∀ i ∈ List.range FILESYSTEM_MAXDIRECTORYENTRYCOUNT,
      startsWith (copy s.buffer 0 s.disk (s.manager.clusterAddress 0) 4096) (32 * i) name =
        decide (name <+: s.nameOf i) := by
    intro i hi
    have hlt := mem_range.1 hi
    unfold FILESYSTEM_MAXDIRECTORYENTRYCOUNT at hlt
    rw [Bool.eq_iff_iff, startsWith_iff_prefix hname, decide_eq_true_iff, State.nameOf]
    rw [nameIn_congr (a := s.manager.entryAddress i) (m := s.disk) fun x hx => ?_]
    rw [copy_inside _ _ _ (Nat.zero_le _) (by omega), entryAddress_eq]
    congr 1
    omega
  unfold kFindDirectoryEntry
  rw [if_pos h.geometry.mounted, kReadCluster_spec h h.geometry.pos]
  dsimp only
  rw [← List.find?_congr hread]
  split
  · rename_i i hfound
    exact hfound.symm
  · rename_i hnone
    exact hnone.symm

theorem Sound.used_of_prefix (h : Sound s chain) (hname : ValidName name)
    (hi : i < FILESYSTEM_MAXDIRECTORYENTRYCOUNT) (hbegins : name <+: s.nameOf i) : Used s i := by
  refine ⟨hi, fun h0 => ?_⟩
  have hinitial : s.disk (s.manager.entryAddress i) = 0 := h.unnamed i hi h0
  have hempty : s.nameOf i = [] := by
    unfold State.nameOf nameIn FILESYSTEM_MAXFILENAMELENGTH
    rw [slice, takeWhile_cons_of_neg (by simp [hinitial])]
  rw [hempty, prefix_nil] at hbegins
  exact hname.length_le.2 hbegins

/-- **A name is found right exactly when it is exact.** -/
theorem findRight_iff (h : Sound s chain) (hname : ValidName name) : FindRight s name ↔ Exact s name := by
  have hfirst := fun stEntry => kFindDirectoryEntry_first h.ready hname stEntry
  unfold FindRight
  constructor
  · intro hright i hi hbegins
    obtain ⟨hsome, hnone⟩ := hright fun _ => 0
    rw [hfirst] at hsome hnone
    cases hfound : (List.range FILESYSTEM_MAXDIRECTORYENTRYCOUNT).find? fun i => decide (name <+: s.nameOf i) with
    | none =>
      have hall := List.find?_eq_none.1 hfound i (mem_range.2 hi.1)
      exact absurd (decide_eq_true hbegins) hall
    | some j =>
      obtain ⟨hused, heq⟩ := hsome j hfound
      refine ⟨j, ?_, hused, heq⟩
      obtain ⟨-, -, hbefore⟩ := List.find?_range_eq_some.1 hfound
      by_contra hlt
      have hnot := hbefore i (Nat.not_le.1 hlt)
      simp [hbegins] at hnot
  · intro hexact stEntry
    rw [hfirst]
    have hsome : ∀ i, (List.range FILESYSTEM_MAXDIRECTORYENTRYCOUNT).find? (fun i => decide (name <+: s.nameOf i)) =
        some i → Used s i ∧ s.nameOf i = name := by
      intro i hfound
      obtain ⟨hbegins, hi, hbefore⟩ := List.find?_range_eq_some.1 hfound
      have hused := h.used_of_prefix hname (mem_range.1 hi) (of_decide_eq_true hbegins)
      obtain ⟨j, hji, hj, heq⟩ := hexact i hused (of_decide_eq_true hbegins)
      -- the entry of that name begins with it, so it is not before the first that does
      rcases Nat.eq_or_lt_of_le hji with rfl | hlt
      · exact ⟨hj, heq⟩
      · have hnot := hbefore j hlt
        simp [heq] at hnot
    refine ⟨hsome, fun hnone i hi heq => ?_, fun hno => ?_⟩
    · have hall := List.find?_eq_none.1 hnone i (mem_range.2 hi.1)
      simp [heq] at hall
    · cases hfound : (List.range FILESYSTEM_MAXDIRECTORYENTRYCOUNT).find? fun i => decide (name <+: s.nameOf i) with
      | none => rfl
      | some i =>
        obtain ⟨hused, heq⟩ := hsome i hfound
        exact absurd heq (hno i hused)

/-! ## What happens to the names -/

theorem Kept.nameOf (h : Kept s s') (hi : i < FILESYSTEM_MAXDIRECTORYENTRYCOUNT) : s'.nameOf i = s.nameOf i := by
  have hlt := entry_lt s.manager hi
  have hlow : 512 * s.manager.dwDataAreaStartAddress ≤ s.manager.entryAddress i := by
    unfold Manager.entryAddress
    omega
  unfold State.nameOf
  rw [h.entryAddress]
  exact nameIn_congr fun x hx => h.directory _ (by omega) (by omega)

theorem kSetDirectoryEntryData_nameOf (h : Ready s) (hi : i < FILESYSTEM_MAXDIRECTORYENTRYCOUNT)
    (hs : kSetDirectoryEntryData s i stEntry = (true, s')) (j : Nat) :
    s'.nameOf j = if j = i then nameIn stEntry 0 else s.nameOf j := by
  obtain ⟨b, hb⟩ := kSetDirectoryEntryData_spec h hi stEntry
  rw [hb] at hs
  cases hs
  unfold State.nameOf
  split
  · rename_i hji
    subst hji
    refine nameIn_congr fun x hx => ?_
    dsimp only
    rw [copy_inside _ _ _ (by omega) (by omega)]
    congr 1
    omega
  · rename_i hji
    refine nameIn_congr fun x hx => copy_outside _ _ _ ?_
    unfold Manager.entryAddress
    dsimp only
    omega

theorem nameIn_write32 (m : Memory) (ha : 24 ≤ a) (v : Nat) : nameIn (write32 m a v) 0 = nameIn m 0 :=
  nameIn_congr fun x hx => write32_outside m (by omega) v

theorem EntryAt.nameIn (h : EntryAt s i stEntry) : Mint.nameIn stEntry 0 = s.nameOf i :=
  nameIn_congr fun x hx => by
    rw [Nat.zero_add]
    exact h x (by omega)

theorem nameIn_putName (hname : ValidName name) (stEntry : Memory) : nameIn (putName stEntry name) 0 = name := by
  have hlen := hname.length_le.1
  have hput : ∀ n ≤ name.length, ∀ k, k + n = name.length → slice (putName stEntry name) k n = name.drop k := by
    intro n hn k hk
    induction n generalizing k with
    | zero => rw [drop_eq_nil_of_le (by omega)]; rfl
    | succ n ih =>
      have hbyte : putName stEntry name k = name[k] := by
        unfold putName
        rw [List.getElem?_append_left (by omega), List.getElem?_eq_getElem (by omega)]
        rfl
      rw [slice, hbyte, ih (by omega) (k + 1) (by omega), ← drop_eq_getElem_cons]
  have hnul : putName stEntry name name.length = 0 := by
    unfold putName
    rw [List.getElem?_append_right le_rfl, Nat.sub_self]
    rfl
  have hfirst := hput name.length le_rfl 0 (Nat.zero_add _)
  rw [drop_zero] at hfirst
  obtain ⟨d, hd⟩ := Nat.exists_eq_add_of_le (show name.length + 1 ≤ 24 by omega)
  have hall : ∀ c ∈ name, (decide (c ≠ 0)) = true := fun c hc => decide_eq_true fun h => hname.2 (h ▸ hc)
  unfold nameIn FILESYSTEM_MAXFILENAMELENGTH
  rw [hd, Nat.add_assoc, slice_add, hfirst, takeWhile_append_of_pos hall, Nat.zero_add, Nat.add_comm 1 d, slice, hnul,
    takeWhile_cons_of_neg (by simp), append_nil]

/-! ## Calls that work on one file -/

/-- Entry `i` and the clusters `own` aside, the volume is as before. -/
structure OnlyFile (s s' : State) (i : Nat) (own : List Nat) : Prop where
  total : s'.manager.dwTotalClusterCount = s.manager.dwTotalClusterCount
  entry : ∀ j < FILESYSTEM_MAXDIRECTORYENTRYCOUNT, j ≠ i →
    s'.startOf j = s.startOf j ∧ s'.sizeOf j = s.sizeOf j ∧ s'.nameOf j = s.nameOf j
  links : ∀ c, InUse s c → c ∉ own → s'.link c = s.link c
  bytes : ∀ c, c ≠ 0 → s'.byte c = s.byte c

namespace OnlyFile

variable {i : Nat} {own : List Nat}

theorem refl (s : State) (i : Nat) (own : List Nat) : OnlyFile s s i own :=
  ⟨rfl, fun _ _ _ => ⟨rfl, rfl, rfl⟩, fun _ _ _ => rfl, fun _ _ => rfl⟩

variable {j : Nat}

theorem used (h : OnlyFile s s' i own) (hji : j ≠ i) : Used s' j ↔ Used s j := by
  unfold Used
  constructor <;> rintro ⟨hj, hne⟩ <;> refine ⟨hj, ?_⟩
  · rwa [(h.entry j hj hji).1] at hne
  · rwa [(h.entry j hj hji).1]

theorem inUse (h : OnlyFile s s' i own) {c : Nat} (hc : InUse s c) (hown : c ∉ own) : InUse s' c := by
  refine ⟨⟨hc.1.1, by rw [h.total]; exact hc.1.2⟩, ?_⟩
  rw [h.links c hc hown]
  exact hc.2

theorem trans (h : OnlyFile s s' i own) (h' : OnlyFile s' s'' i own) : OnlyFile s s'' i own := by
  refine ⟨h'.total.trans h.total, fun j hj hji => ?_, fun c hc hown => ?_, fun c hc => ?_⟩
  · obtain ⟨hstart, hsize, hname⟩ := h.entry j hj hji
    obtain ⟨hstart', hsize', hname'⟩ := h'.entry j hj hji
    exact ⟨hstart'.trans hstart, hsize'.trans hsize, hname'.trans hname⟩
  · rw [h'.links c (h.inUse hc hown) hown, h.links c hc hown]
  · rw [h'.bytes c hc, h.bytes c hc]

theorem setHandle (h : OnlyFile s s' i own) (k : Nat) (file : MFile) : OnlyFile s (s'.setHandle k file) i own :=
  ⟨h.total, h.entry, h.links, h.bytes⟩

theorem chained (honly : OnlyFile s s' i own) (h : Sound s chain) (hown : ∀ c ∈ own, c ∈ chain i)
    (hj : Used s j) (hji : j ≠ i) : Chain s'.link FILESYSTEM_LASTCLUSTER (s'.startOf j) (chain j) := by
  rw [(honly.entry j hj.1 hji).1]
  refine (h.owns.chained j hj).congr fun c hc => honly.links c (h.inUse_of_mem hc) fun hmem => ?_
  exact hji (h.owns.disjoint j i c hc (hown c hmem))

end OnlyFile

theorem Relinked.onlyFile {f : Nat → Nat} (h : Relinked s s' f)
    (hf : ∀ c, InUse s c → c ∉ own → f c = s.link c) (i : Nat) : OnlyFile s s' i own :=
  ⟨h.total, fun _ hj _ => ⟨h.startOf hj, h.sizeOf hj, h.toKept.nameOf hj⟩,
    fun c hc hown => (h.links c hc.1.2).trans (hf c hc hown), fun c _ => congrFun h.bytes c⟩

theorem kSetDirectoryEntryData_onlyFile (h : Ready s) (hi : i < FILESYSTEM_MAXDIRECTORYENTRYCOUNT)
    (hs : kSetDirectoryEntryData s i stEntry = (true, s')) (own : List Nat) : OnlyFile s s' i own := by
  have hentered := Entered.of_run h hi hs
  refine ⟨hentered.total, fun j _ hji => ⟨?_, ?_, ?_⟩, fun c hc _ => hentered.links c hc.1.2, hentered.bytes⟩
  · rw [hentered.startOf, Function.update_of_ne hji]
  · rw [hentered.sizeOf, Function.update_of_ne hji]
  · rw [kSetDirectoryEntryData_nameOf h hi hs, if_neg hji]

def noEntry : Nat := FILESYSTEM_MAXDIRECTORYENTRYCOUNT

theorem not_used_noEntry (s : State) : ¬Used s noEntry := fun h => absurd h.1 (Nat.lt_irrefl _)

theorem kCreateFile_onlyFile (h : Sound s chain) (hname : ValidName name)
    (hs : kCreateFile s name stEntry = (o, s')) : ∃ i, OnlyFile s s' i [] ∧ ¬Used s i ∧
      (i ≠ noEntry → s'.nameOf i = name) ∧ ∀ e ∈ o, s'.nameOf e.1 = name := by
  rcases kCreateFile_spec h.ready name stEntry with
    ⟨t, hrun, h'⟩ | ⟨a, i, t, s'', ha, hfree, hi, hunused, ht, hset, hrun⟩
  · rw [hrun] at hs
    cases hs
    exact ⟨noEntry, h'.onlyFile (fun _ _ _ => rfl) noEntry, not_used_noEntry s, fun hne => absurd rfl hne, nofun⟩
  · rw [hrun] at hs
    cases hs
    have hr := ht.ready h.ready
    have honly : OnlyFile s t i [] := by
      refine ht.onlyFile (fun c hc _ => Function.update_of_ne ?_ _ _) i
      rintro rfl
      exact hc.2 hfree
    have hnamed : s'.nameOf i = name := by
      rw [kSetDirectoryEntryData_nameOf hr hi hset, if_pos rfl, nameIn_write32 _ (by decide),
        nameIn_write32 _ (by decide), nameIn_putName hname]
    refine ⟨i, honly.trans (kSetDirectoryEntryData_onlyFile hr hi hset []), fun hu => hu.2 hunused, fun _ => hnamed, ?_⟩
    rintro e ⟨⟩
    exact hnamed

theorem truncateFile_touches (h : Sound s chain) (hi : Used s i) {e : Memory} (he : EntryAt s i e)
    {o : Option Memory} (hs : truncateFile s i e = some (o, s')) :
    OnlyFile s s' i (chain i) ∧ s'.nameOf i = s.nameOf i := by
  obtain ⟨rest, t, s'', hrest, ht, hset, hrun⟩ := truncateFile_spec h hi he
  rw [hrun] at hs
  cases hs
  have hr := ht.ready h.ready
  refine ⟨(ht.onlyFile (fun c _ hown => ?_) i).trans (kSetDirectoryEntryData_onlyFile hr hi.1 hset _), ?_⟩
  · rw [hrest, mem_cons, not_or] at hown
    rw [if_neg hown.2, Function.update_of_ne hown.1]
  · rw [kSetDirectoryEntryData_nameOf hr hi.1 hset, if_pos rfl, nameIn_write32 _ (le_refl 24), he.nameIn]

theorem onlyFile_buffer (h : Ready s) (b : Memory) (i : Nat) (own : List Nat) : OnlyFile s { s with buffer := b } i own :=
  (relinked_buffer h b).onlyFile (fun _ _ _ => rfl) i

/-- **Opening an entry** touches the file that is found, where it is truncated, or the one that is made. -/
theorem openEntry_onlyFile (h : Sound s chain) (hname : ValidName name)
    (hs : openEntry s name mode stEntry = some (o, s')) : ∃ i own,
      OnlyFile s s' i own ∧ (∀ c ∈ own, c ∈ chain i) ∧
      (Used s i → mode = 'w' ∧ (kFindDirectoryEntry s name stEntry).1.1 = some i ∧ s'.nameOf i = s.nameOf i) ∧
      (¬Used s i → i ≠ noEntry → (kFindDirectoryEntry s name stEntry).1.1 = none ∧ s'.nameOf i = name) ∧
      ∀ e ∈ o, ((kFindDirectoryEntry s name stEntry).1.1 = some e.1 ∧ s'.nameOf e.1 = s.nameOf e.1) ∨
        s'.nameOf e.1 = name := by
  obtain ⟨found, e, b, hfind, hused⟩ := h.find hname.1 hname.2 stEntry
  have h₁ := relinked_buffer h.ready b
  have hsound₁ := h.kept h₁.toKept h₁.links
  have hbuffer := onlyFile_buffer h.ready b
  unfold openEntry at hs
  rw [hfind] at hs ⊢
  cases found with
  | none =>
    dsimp only at hs
    split at hs
    · cases hs
      exact ⟨noEntry, [], hbuffer _ _, nofun, fun hu => absurd hu (not_used_noEntry s), fun _ hne => absurd rfl hne, nofun⟩
    · obtain ⟨i, honly, hunused, hnamed, hmade⟩ := kCreateFile_onlyFile hsound₁ hname (Option.some.inj hs)
      exact ⟨i, [], (hbuffer i []).trans honly, nofun, fun hu => absurd hu hunused, fun _ hne => ⟨rfl, hnamed hne⟩,
        fun e he => .inr (hmade e he)⟩
  | some i =>
    obtain ⟨hi, hat⟩ := hused i rfl
    dsimp only at hs
    split at hs
    · rename_i hmode
      obtain ⟨⟨entry, s₂⟩, htruncate, hs⟩ := map_eq_some_iff.1 hs
      cases hs
      have hi₁ : Used { s with buffer := b } i := hi
      have hat₁ : EntryAt { s with buffer := b } i e := hat
      obtain ⟨honly, hsame⟩ := truncateFile_touches hsound₁ hi₁ hat₁ htruncate
      refine ⟨i, chain i, (hbuffer i (chain i)).trans honly, fun _ hc => hc, fun _ => ⟨hmode, rfl, hsame⟩,
        fun hno => absurd hi hno, fun e he => .inl ?_⟩
      obtain ⟨_, -, rfl⟩ := map_eq_some_iff.1 he
      exact ⟨rfl, hsame⟩
    · cases hs
      refine ⟨noEntry, [], hbuffer _ _, nofun, fun hu => absurd hu (not_used_noEntry s), fun _ hne => absurd rfl hne, ?_⟩
      rintro e ⟨⟩
      exact .inl ⟨rfl, rfl⟩

/-- **Removing** touches the file that is found. -/
theorem kRemoveFile_onlyFile (h : Sound s chain) (hnul : 0 ∉ name)
    (hs : kRemoveFile s name stEntry = some (r, s')) : ∃ i own, OnlyFile s s' i own ∧ (∀ c ∈ own, c ∈ chain i) ∧
      (Used s i → badName name = false ∧ (kFindDirectoryEntry s name stEntry).1.1 = some i) ∧ ¬Used s' i := by
  rcases kRemoveFile_spec h hnul stEntry with ⟨r', t, hrun, h'⟩ | ⟨i, t, s'', hbad, hfind, hi, -, ht, hset, hrun⟩
  · rw [hrun] at hs
    cases hs
    exact ⟨noEntry, [], h'.onlyFile (fun _ _ _ => rfl) noEntry, nofun, fun hu => absurd hu (not_used_noEntry s),
      not_used_noEntry _⟩
  · rw [hrun] at hs
    cases hs
    have hr := ht.ready h.ready
    refine ⟨i, chain i, (ht.onlyFile (fun c _ hown => if_neg hown) i).trans
      (kSetDirectoryEntryData_onlyFile hr hi.1 hset _), fun _ hc => hc, fun _ => ⟨hbad, hfind⟩, fun hu => hu.2 ?_⟩
    rw [(Entered.of_run hr hi.1 hset).startOf, Function.update_self]
    decide

theorem kSeekFile_onlyFile (h : Ready s)
    (hext : ¬Extends (s.manager.pstHandlePool k).stFileHandle iOffset iOrigin)
    (hs : kSeekFile s k iOffset iOrigin = some (r, s')) : (∀ i own, OnlyFile s s' i own) ∧
      (s'.manager.pstHandlePool k).stFileHandle.iDirectoryEntryOffset =
        (s.manager.pstHandlePool k).stFileHandle.iDirectoryEntryOffset ∧
      (s'.manager.pstHandlePool k).stFileHandle.dwFileSize = (s.manager.pstHandlePool k).stFileHandle.dwFileSize := by
  cases kSeekFile_cases hs with
  | closed hclosed => exact ⟨OnlyFile.refl s, rfl, rfl⟩
  | lost _ hmove =>
    have h' := Relinked.of_moveClusters h hmove
    rw [h'.pool]
    exact ⟨fun i _ => h'.onlyFile (fun _ _ _ => rfl) i, rfl, rfl⟩
  | within p c s₁ hfile _ hmove =>
    have h₁ := Relinked.of_moveClusters h hmove
    refine ⟨fun i own => (h₁.onlyFile (fun _ _ _ => rfl) i).setHandle k _, ?_⟩
    rw [pool_setHandle]
    exact ⟨(sameFile_placeHandle _ _ _ p c).1, size_placeHandle _ _ _ p c⟩
  | beyond p c s₁ s₂ zeroed hfile hbeyond hmove hzero => exact absurd hbeyond hext

/-! ## Calls for a name -/

/-- What a call for `name` may change: one file, that has the name before the call, or after it where the call makes it;
and it makes none where there is one. -/
structure Touches (s s' : State) (chain : Nat → List Nat) (name : List UInt8) (i : Nat) (own : List Nat) : Prop where
  only : OnlyFile s s' i own
  own_subset : ∀ c ∈ own, c ∈ chain i
  before : Used s i → s.nameOf i = name
  after : Used s' i → s'.nameOf i = name
  fresh : ¬Used s i → Used s' i → ∀ j, Used s j → s.nameOf j ≠ name

theorem touches_nothing (h : OnlyFile s s' noEntry []) (chain : Nat → List Nat) (name : List UInt8) :
    Touches s s' chain name noEntry [] :=
  ⟨h, nofun, fun hi => absurd hi (not_used_noEntry s), fun hi => absurd hi (not_used_noEntry s'),
    fun _ hi => absurd hi (not_used_noEntry s')⟩

theorem kCreateFile_touches (h : Sound s chain) (hname : ValidName name)
    (hnew : ∀ j, Used s j → s.nameOf j ≠ name) (stEntry : Memory)
    (hs : kCreateFile s name stEntry = (o, s')) :
    ∃ i, Touches s s' chain name i [] ∧ ∀ e ∈ o, s'.nameOf e.1 = name := by
  obtain ⟨i, honly, hunused, hnamed, hmade⟩ := kCreateFile_onlyFile h hname hs
  have hne : Used s' i → i ≠ noEntry := fun hi heq => not_used_noEntry s' (heq ▸ hi)
  exact ⟨i, ⟨honly, nofun, fun hi => absurd hi hunused, fun hi => hnamed (hne hi), fun _ _ => hnew⟩, hmade⟩

/-- **Opening an entry by an exact name** touches the file of that name only. -/
theorem openEntry_touches (h : Sound s chain) (hname : ValidName name) (hexact : Exact s name)
    (hs : openEntry s name mode stEntry = some (o, s')) :
    (∃ i own, Touches s s' chain name i own) ∧ ∀ e ∈ o, s'.nameOf e.1 = name := by
  obtain ⟨hsome, hnone⟩ := (findRight_iff h hname).2 hexact stEntry
  obtain ⟨i, own, honly, hown, hfound, hmade, hentry⟩ := openEntry_onlyFile h hname hs
  have hne : Used s' i → i ≠ noEntry := fun hi heq => not_used_noEntry s' (heq ▸ hi)
  have hbefore : Used s i → s.nameOf i = name := fun hi => (hsome i (hfound hi).2.1).2
  refine ⟨⟨i, own, honly, hown, hbefore, fun hi' => ?_, fun hno hi' => hnone.1 (hmade hno (hne hi')).1⟩, fun e he => ?_⟩
  · by_cases hi : Used s i
    · exact (hfound hi).2.2.trans (hbefore hi)
    · exact (hmade hi (hne hi')).2
  · rcases hentry e he with ⟨hfind, hsame⟩ | hnamed
    · exact hsame.trans (hsome e.1 hfind).2
    · exact hnamed

theorem Touches.setHandle (h : Touches s s' chain name i own) (k : Nat) (file : MFile) :
    Touches s (s'.setHandle k file) chain name i own :=
  ⟨h.only.setHandle k file, h.own_subset, h.before, h.after, h.fresh⟩

theorem Touches.trans (h : Touches s s' chain name i own)
    (h' : ∀ i own, OnlyFile s' s'' i own) : Touches s s'' chain name i own := by
  have hnone := h' noEntry own
  have hused : Used s'' i ↔ Used s' i := by
    by_cases hi : i = noEntry
    · rw [hi]
      exact iff_of_false (not_used_noEntry s'') (not_used_noEntry s')
    · exact hnone.used hi
  refine ⟨h.only.trans (h' i own), h.own_subset, h.before, fun hi => ?_, fun hno hi => h.fresh hno (hused.1 hi)⟩
  have hne : i ≠ noEntry := fun heq => not_used_noEntry s'' (heq ▸ hi)
  rw [(hnone.entry i hi.1 hne).2.2]
  exact h.after (hused.1 hi)

/-- **Opening a file by an exact name** touches the file of that name only, and the handle is one of an entry of that
name. -/
theorem kOpenFile_touches (h : Sound s chain) (hnul : 0 ∉ name) (hexact : badName name = false → Exact s name)
    {r : Option Nat} (hs : kOpenFile s name mode stEntry = some (r, s')) :
    (∃ i own, Touches s s' chain name i own) ∧
    ∀ k ∈ r, s'.nameOf (s'.manager.pstHandlePool k).stFileHandle.iDirectoryEntryOffset = name := by
  cases kOpenFile_cases hs with
  | badName hbad => exact ⟨⟨noEntry, [], touches_nothing (OnlyFile.refl s _ _) chain name⟩, fun _ hk => nomatch hk⟩
  | noHandle o _ hname hopen =>
    obtain ⟨htouch, -⟩ := openEntry_touches h ⟨hname, hnul⟩ (hexact hname) hopen
    exact ⟨htouch, fun _ hk => nomatch hk⟩
  | atStart j e s₁ k hname hopen hk =>
    obtain ⟨⟨i, own, htouch⟩, hnamed⟩ := openEntry_touches h ⟨hname, hnul⟩ (hexact hname) hopen
    refine ⟨⟨i, own, htouch.setHandle k _⟩, ?_⟩
    rintro k ⟨⟩
    rw [pool_setHandle]
    exact hnamed (j, e) rfl
  | atEnd j e s₁ k m _ hname hopen hk hseek =>
    obtain ⟨o, s₁', hopen', ⟨chain₁, hsound₁, -⟩, -, hspec⟩ := openEntry_sound h hname hnul mode stEntry
    obtain ⟨⟨i, own, htouch⟩, hnamed⟩ := openEntry_touches h ⟨hname, hnul⟩ (hexact hname) hopen
    rw [hopen] at hopen'
    cases hopen'
    have hj := (hspec j e rfl).1.1
    obtain ⟨honly, hentry, -⟩ := kSeekFile_onlyFile (hsound₁.setHandle k _).ready not_extends_end hseek
    refine ⟨⟨i, own, (htouch.setHandle k _).trans honly⟩, ?_⟩
    rintro k ⟨⟩
    rw [hentry, pool_setHandle]
    exact ((honly noEntry []).entry j hj (Nat.ne_of_lt hj)).2.2.trans (hnamed (j, e) rfl)

/-- **Removing by an exact name** touches the file of that name only. -/
theorem kRemoveFile_touches (h : Sound s chain) (hnul : 0 ∉ name) (hexact : badName name = false → Exact s name)
    (hs : kRemoveFile s name stEntry = some (r, s')) :
    ∃ i own, Touches s s' chain name i own := by
  obtain ⟨i, own, honly, hown, hfound, hunused⟩ := kRemoveFile_onlyFile h hnul hs
  refine ⟨i, own, honly, hown, fun hi => ?_, fun hi => absurd hi hunused, fun _ hi => absurd hi hunused⟩
  obtain ⟨hbad, hfind⟩ := hfound hi
  exact (((findRight_iff h ⟨hbad, hnul⟩).2 (hexact hbad) stEntry).1 i hfind).2

/-! ## Calls on a handle -/

structure SameNames (s s' : State) : Prop where
  startOf : ∀ i < FILESYSTEM_MAXDIRECTORYENTRYCOUNT, s'.startOf i = s.startOf i
  nameOf : ∀ i < FILESYSTEM_MAXDIRECTORYENTRYCOUNT, s'.nameOf i = s.nameOf i

theorem SameNames.refl (s : State) : SameNames s s := ⟨fun _ _ => rfl, fun _ _ => rfl⟩

theorem SameNames.trans (h : SameNames s s') (h' : SameNames s' s'') : SameNames s s'' :=
  ⟨fun i hi => (h'.startOf i hi).trans (h.startOf i hi), fun i hi => (h'.nameOf i hi).trans (h.nameOf i hi)⟩

theorem SameNames.setHandle (h : SameNames s s') (k : Nat) (file : MFile) : SameNames s (s'.setHandle k file) :=
  ⟨h.startOf, h.nameOf⟩

theorem Kept.sameNames (h : Kept s s') : SameNames s s' := ⟨fun _ hi => h.startOf hi, fun _ hi => h.nameOf hi⟩

theorem updateSize_sameNames (h : Ready s) {fh : FileHandle}
    (hi : fh.iDirectoryEntryOffset < FILESYSTEM_MAXDIRECTORYENTRYCOUNT)
    (hstart : s.startOf fh.iDirectoryEntryOffset = fh.dwStartClusterIndex) : SameNames s (updateSize s fh).2 := by
  unfold updateSize
  split
  · obtain ⟨e, b, hget, hat⟩ := kGetDirectoryEntryData_spec h hi fun _ => 0
    obtain ⟨s₁, hset, hentered⟩ := kSetDirectoryEntryData_entered (h.withBuffer b) hi
      (write32 (write32 e 24 fh.dwCurrentOffset) 28 fh.dwStartClusterIndex)
    have hword : read32 (write32 (write32 e 24 fh.dwCurrentOffset) 28 fh.dwStartClusterIndex) 28 =
        s.startOf fh.iDirectoryEntryOffset := by
      rw [read32_write32_self _ _ (by rw [← hstart]; exact read32_lt _ _), hstart]
    unfold kUpdateDirectoryEntry
    dsimp only
    rw [hget]
    dsimp only
    rw [hset]
    refine ⟨fun j _ => ?_, fun j _ => ?_⟩
    · rw [hentered.startOf, hword, Function.update_apply]
      split
      · rename_i hji
        rw [hji]
      · rfl
    · rw [kSetDirectoryEntryData_nameOf (h.withBuffer b) hi hset]
      split
      · rename_i hji
        rw [nameIn_write32 _ (by decide), nameIn_write32 _ (le_refl 24), hat.nameIn, hji]
      · rfl
  · exact SameNames.refl s

theorem kWriteFile_sameNames (h : Sound s chain) (hh : HandlesIn s) {pv : Memory} {size : Nat}
    (hf : (s.manager.pstHandlePool k).bType = .file → u32 (size * count) ≠ 0 →
      Fresh s (s.manager.pstHandlePool k).stFileHandle)
    (hs : kWriteFile s pv size count k = some (n, s')) : SameNames s s' := by
  cases kWriteFile_cases hs with
  | closed hclosed => exact SameNames.refl s
  | stored count₁ fh₁ fh₂ s₁ s₂ hfile hloop hupdate =>
    obtain ⟨-, hused, hstart⟩ := hh k hfile
    obtain ⟨chain₁, _, _, _, hloop', h₁, hk₁, hsame₁, -⟩ := writeLoop_kept h pv (hf hfile)
    rw [hloop] at hloop'
    cases hloop'
    have hsized := updateSize_sameNames h₁.ready (by rw [hsame₁.1]; exact hused.1)
      (by rw [hsame₁.1, hsame₁.2, hk₁.startOf hused.1]; exact hstart)
    rw [hupdate] at hsized
    exact (hk₁.sameNames.trans hsized).setHandle k _

theorem writeZeros_sameNames (h : Sound s chain) (hh : HandlesIn s) {rounds : Nat} {zeroed : Bool}
    (hfile : (s.manager.pstHandlePool k).bType = .file) (hf : Fresh s (s.manager.pstHandlePool k).stFileHandle)
    (hs : writeZeros k rounds s count = some (zeroed, s')) : SameNames s s' := by
  induction rounds generalizing s chain count with
  | zero =>
    cases hs
    exact SameNames.refl _
  | succ rounds ih =>
    rw [writeZeros] at hs
    split at hs
    · cases hs
      exact SameNames.refl _
    · obtain ⟨⟨written, s₁⟩, hwrite, hs⟩ := bind_eq_some_iff.1 hs
      have hsame₁ := kWriteFile_sameNames h hh (fun _ _ => hf) hwrite
      obtain ⟨⟨chain₁, h₁⟩, hh₁, hafter⟩ := kWriteFile_sound h hh (fun _ _ => hf) hwrite
      obtain ⟨hfile₁, hf₁⟩ := hafter hfile
      dsimp only at hs
      split at hs
      · exact hsame₁.trans (ih h₁ hh₁ hfile₁ (hf₁ hf) hs)
      · cases hs
        exact hsame₁

theorem kSeekFile_sameNames (h : Sound s chain) (hh : HandlesIn s)
    (hf : (s.manager.pstHandlePool k).bType = .file →
      Extends (s.manager.pstHandlePool k).stFileHandle iOffset iOrigin → Fresh s (s.manager.pstHandlePool k).stFileHandle)
    (hs : kSeekFile s k iOffset iOrigin = some (r, s')) : SameNames s s' := by
  cases kSeekFile_cases hs with
  | closed hclosed => exact SameNames.refl s
  | lost _ hmove => exact (Relinked.of_moveClusters h.ready hmove).toKept.sameNames
  | within p c s₁ hfile hext hmove => exact (Relinked.of_moveClusters h.ready hmove).toKept.sameNames.setHandle k _
  | beyond p c s₁ s₂ zeroed hfile hext hmove hzero =>
    obtain ⟨h₁, hmoved, hfresh⟩ := h.walked hh hfile rfl hmove
    have hzeros := writeZeros_sameNames (h₁.setHandle k _) (hmoved _) (by rw [pool_setHandle])
      (by rw [pool_setHandle]; exact hfresh hext (hf hfile hext)) hzero
    have hall := ((Relinked.of_moveClusters h.ready hmove).toKept.sameNames.setHandle k _).trans hzeros
    split
    · exact hall.setHandle k _
    · exact hall

theorem kCloseFile_sameNames (s : State) (k : Nat) : SameNames s (kCloseFile s k).2 := by
  unfold kCloseFile
  split
  · exact SameNames.refl s
  · exact (SameNames.refl s).setHandle k _

/-! ## Runs -/

/-- Used entries have names that the file system takes, and no two have the same. -/
structure NamesRight (s : State) : Prop where
  valid : ∀ i, Used s i → ValidName (s.nameOf i)
  unique : ∀ i j, Used s i → Used s j → s.nameOf i = s.nameOf j → i = j

/-- Entry `j`, its clusters and their bytes are as before. -/
def FileKept (s s' : State) (j : Nat) : Prop :=
  (Used s' j ∧ s'.nameOf j = s.nameOf j ∧ s'.sizeOf j = s.sizeOf j) ∧
  ∃ l, Chain s.link FILESYSTEM_LASTCLUSTER (s.startOf j) l ∧ Chain s'.link FILESYSTEM_LASTCLUSTER (s'.startOf j) l ∧
    ∀ c ∈ l, s'.byte c = s.byte c

def OthersKept (s s' : State) (name : List UInt8) : Prop := ∀ j, Used s j → s.nameOf j ≠ name → FileKept s s' j

/-- A name that is opened or removed is exact, and what writes to a file has its place. -/
def NameSafe (s : State) (call : Call) : Prop :=
  InPlace s call ∧
  match call with
  | .kOpenFile name _ _ => badName name.chars = false → Exact s name.chars
  | .kRemoveFile name _ => badName name.chars = false → Exact s name.chars
  | _ => True

theorem Touches.othersKept (h : Sound s chain) (ht : Touches s s' chain name i own) :
    OthersKept s s' name := by
  intro j hj hne
  have hji : j ≠ i := fun heq => hne (by rw [heq]; exact ht.before (heq ▸ hj))
  obtain ⟨-, hsize, hname⟩ := ht.only.entry j hj.1 hji
  exact ⟨⟨(ht.only.used hji).2 hj, hname, hsize⟩, chain j, h.owns.chained j hj, ht.only.chained h ht.own_subset hj hji,
    fun c hc => ht.only.bytes c (h.inUse_of_mem hc).1.1⟩

theorem Touches.namesRight (ht : Touches s s' chain name i own) (hname : ValidName name)
    (h : NamesRight s) : NamesRight s' := by
  have hold : ∀ j, j ≠ i → Used s' j → Used s j ∧ s'.nameOf j = s.nameOf j := fun j hji hj =>
    ⟨(ht.only.used hji).1 hj, (ht.only.entry j hj.1 hji).2.2⟩
  -- an entry of the name is this one
  have hown : ∀ j, Used s' i → Used s' j → s'.nameOf i = s'.nameOf j → i = j := by
    intro j hi hj heq
    by_contra hne
    obtain ⟨hj₀, hsame⟩ := hold j (Ne.symm hne) hj
    rw [ht.after hi, hsame] at heq
    by_cases hi₀ : Used s i
    · exact hne (h.unique i j hi₀ hj₀ ((ht.before hi₀).trans heq))
    · exact ht.fresh hi₀ hi j hj₀ heq.symm
  refine ⟨fun j hj => ?_, fun j k hj hk heq => ?_⟩
  · by_cases hji : j = i
    · rw [hji, ht.after (hji ▸ hj)]
      exact hname
    · obtain ⟨hj₀, hsame⟩ := hold j hji hj
      rw [hsame]
      exact h.valid j hj₀
  · by_cases hji : j = i
    · subst hji
      exact hown k hj hk heq
    · by_cases hki : k = i
      · subst hki
        exact (hown j hk hj heq.symm).symm
      · obtain ⟨hj₀, hsame⟩ := hold j hji hj
        obtain ⟨hk₀, hsame'⟩ := hold k hki hk
        rw [hsame, hsame'] at heq
        exact h.unique j k hj₀ hk₀ heq

theorem SameNames.namesRight (hsame : SameNames s s') (h : NamesRight s) : NamesRight s' := by
  have hold : ∀ j, Used s' j → Used s j ∧ s'.nameOf j = s.nameOf j := fun j hj =>
    ⟨⟨hj.1, by rw [← hsame.startOf j hj.1]; exact hj.2⟩, hsame.nameOf j hj.1⟩
  refine ⟨fun j hj => ?_, fun j k hj hk heq => ?_⟩
  · obtain ⟨hj₀, heq⟩ := hold j hj
    rw [heq]
    exact h.valid j hj₀
  · obtain ⟨hj₀, hsame₁⟩ := hold j hj
    obtain ⟨hk₀, hsame₂⟩ := hold k hk
    rw [hsame₁, hsame₂] at heq
    exact h.unique j k hj₀ hk₀ heq

theorem call_namesRight (h : Intact s) (hn : NamesRight s) {call : Call} (hsafe : NameSafe s call)
    (hs : s.call call = some s') : NamesRight s' := by
  obtain ⟨⟨hpos, hplace⟩, hexact⟩ := hsafe
  obtain ⟨⟨chain, hsound⟩, hh⟩ := h.sound hpos
  cases call with
  | kOpenFile name mode stEntry =>
    obtain ⟨⟨r, s₁⟩, hopen, rfl⟩ := map_eq_some_iff.1 hs
    by_cases hbad : badName name.chars = true
    · unfold kOpenFile at hopen
      rw [if_pos hbad] at hopen
      cases hopen
      exact hn
    · obtain ⟨⟨i, own, htouch⟩, -⟩ := kOpenFile_touches hsound name.noNul hexact hopen
      exact htouch.namesRight ⟨Bool.eq_false_of_not_eq_true hbad, name.noNul⟩ hn
  | kWriteFile pvBuffer dwSize dwCount k =>
    obtain ⟨⟨r, s₁⟩, hwrite, rfl⟩ := map_eq_some_iff.1 hs
    exact (kWriteFile_sameNames hsound hh hplace hwrite).namesRight hn
  | kSeekFile k iOffset iOrigin =>
    obtain ⟨⟨r, s₁⟩, hseek, rfl⟩ := map_eq_some_iff.1 hs
    exact (kSeekFile_sameNames hsound hh hplace hseek).namesRight hn
  | kCloseFile k =>
    cases hs
    exact (kCloseFile_sameNames s k).namesRight hn
  | kRemoveFile name stEntry =>
    obtain ⟨⟨r, s₁⟩, hremove, rfl⟩ := map_eq_some_iff.1 hs
    by_cases hbad : badName name.chars = true
    · unfold kRemoveFile at hremove
      rw [if_pos hbad] at hremove
      cases hremove
      exact hn
    · obtain ⟨i, own, htouch⟩ := kRemoveFile_touches hsound name.noNul hexact hremove
      exact htouch.namesRight ⟨Bool.eq_false_of_not_eq_true hbad, name.noNul⟩ hn

theorem reach_namesRight (h : fileSystem.ReachVia NameSafe s) : Intact s ∧ NamesRight s := by
  refine h.invariant (fun s => Intact s ∧ NamesRight s) ?_ fun s call s' hi hsafe hs =>
    ⟨call_intact hi.1 hsafe.1 hs, call_namesRight hi.1 hi.2 hsafe hs⟩
  rintro s ⟨disk, buffer, T, hT, hT', rfl⟩
  obtain ⟨hstart, -, -, -⟩ := boot_empty disk buffer hT hT'
  have hunused : ∀ i, ¬Used (boot disk buffer T) i := fun i hi => hi.2 (hstart i hi.1)
  exact ⟨⟨boot_clustersOwned disk buffer hT hT', fun hpos =>
    ⟨⟨_, (boot_sound disk buffer hT hT' hpos).1⟩, (boot_sound disk buffer hT hT' hpos).2⟩⟩,
    fun i hi => absurd hi (hunused i), fun i _ hi => absurd hi (hunused i)⟩

/-- **Files and their names.** Where every name that was opened or removed was exact, no two files have the same name.
A name is found right exactly when it is exact, and then opening and removing it works on the file of that name and
keeps all others. -/
theorem names_right {s : State} (h : fileSystem.ReachVia NameSafe s) :
    NamesRight s ∧
    (0 < s.manager.dwTotalClusterCount → ∀ name, ValidName name →
      (FindRight s name ↔ Exact s name) ∧
      (Exact s name →
        (∀ mode stEntry r s', kOpenFile s name mode stEntry = some (r, s') → OthersKept s s' name ∧
          ∀ k ∈ r, s'.nameOf (s'.manager.pstHandlePool k).stFileHandle.iDirectoryEntryOffset = name) ∧
        ∀ stEntry r s', kRemoveFile s name stEntry = some (r, s') → OthersKept s s' name) ∧
      ((∀ j, Used s j → s.nameOf j ≠ name) → ∀ stEntry o s', kCreateFile s name stEntry = (o, s') →
        OthersKept s s' name ∧ ∀ e ∈ o, s'.nameOf e.1 = name)) := by
  obtain ⟨hintact, hnames⟩ := reach_namesRight h
  refine ⟨hnames, fun hpos name hname => ?_⟩
  obtain ⟨⟨chain, hsound⟩, -⟩ := hintact.sound hpos
  refine ⟨findRight_iff hsound hname, fun hexact => ⟨fun mode stEntry r s' hs => ?_, fun stEntry r s' hs => ?_⟩,
    fun hnew stEntry o s' hs => ?_⟩
  · obtain ⟨⟨i, own, htouch⟩, hhandle⟩ := kOpenFile_touches hsound hname.2 (fun _ => hexact) hs
    exact ⟨htouch.othersKept hsound, hhandle⟩
  · obtain ⟨i, own, htouch⟩ := kRemoveFile_touches hsound hname.2 (fun _ => hexact) hs
    exact htouch.othersKept hsound
  · obtain ⟨i, htouch, hnamed⟩ := kCreateFile_touches hsound hname hnew stEntry hs
    exact ⟨htouch.othersKept hsound, hnamed⟩

instance (s : State) (name : List UInt8) : Decidable (Exact s name) := decidable_of_iff
  (∀ i < FILESYSTEM_MAXDIRECTORYENTRYCOUNT, s.startOf i ≠ 0 → name <+: s.nameOf i →
    ∃ j < i + 1, s.startOf j ≠ 0 ∧ s.nameOf j = name) (by
  refine forall_congr' fun i => ⟨fun h hi hbegins => ?_, fun h hi hne hbegins => ?_⟩
  · obtain ⟨j, hj, hne, heq⟩ := h hi.1 hi.2 hbegins
    exact ⟨j, Nat.le_of_lt_succ hj, ⟨Nat.lt_of_lt_of_le hj hi.1, hne⟩, heq⟩
  · obtain ⟨j, hj, hused, heq⟩ := h ⟨hi, hne⟩ hbegins
    exact ⟨j, Nat.lt_succ_of_le hj, hused.2, heq⟩)

instance (s : State) : (call : Call) → Decidable (NameSafe s call)
  | .kOpenFile .. => inferInstanceAs (Decidable (_ ∧ (_ → Exact ..)))
  | .kRemoveFile .. => inferInstanceAs (Decidable (_ ∧ (_ → Exact ..)))
  | .kWriteFile .. => inferInstanceAs (Decidable (_ ∧ True))
  | .kSeekFile .. => inferInstanceAs (Decidable (_ ∧ True))
  | .kCloseFile .. => inferInstanceAs (Decidable (_ ∧ True))

/-- Files `a` and `ab`, and `ab` is removed. -/
theorem names_right_run : ∃ s, fileSystem.ReachVia NameSafe s ∧ NamesRight s ∧ Used s 0 ∧ s.nameOf 0 = [97] ∧
    ¬Used s 1 := by
  let start : State := boot (fun _ => 0) (fun _ => 0) 40
  let a : FileName := ⟨[97], by decide⟩
  let ab : FileName := ⟨[97, 98], by decide⟩
  let h1 : Fin FILESYSTEM_HANDLE_MAXCOUNT := ⟨1, by decide⟩
  let calls : List Call := [.kOpenFile a 'w' fun _ => 0, .kOpenFile ab 'w' fun _ => 0, .kWriteFile (fun _ => 1) 1 5 h1,
    .kCloseFile h1, .kRemoveFile ab fun _ => 0]
  have hrun : (fileSystem.exec start calls).map (fun s => decide (s.startOf 0 ≠ 0 ∧ s.nameOf 0 = [97] ∧ s.startOf 1 = 0)) =
      some true := by decide +kernel
  have hmeets : fileSystem.Meets NameSafe start calls := by decide +kernel
  obtain ⟨s, hs, hfacts⟩ := Option.map_eq_some_iff.1 hrun
  obtain ⟨hused, hname, hunused⟩ := of_decide_eq_true hfacts
  have hreach := StepSystem.reachVia_exec calls (boot_init _ _ (by decide) (by decide)) hmeets hs
  exact ⟨s, hreach, (names_right hreach).1, ⟨by decide, hused⟩, hname, fun h => h.2 hunused⟩

/-- **A name that another begins with.** There is a file `ab`, and looking for `a` finds it. -/
theorem finds_longer_name : ∃ s, fileSystem.ReachVia NameSafe s ∧ ValidName [97] ∧ ¬FindRight s [97] := by
  let start : State := boot (fun _ => 0) (fun _ => 0) 40
  let ab : FileName := ⟨[97, 98], by decide⟩
  have hrun : (fileSystem.exec start [.kOpenFile ab 'w' fun _ => 0]).map (fun s => decide
      ((kFindDirectoryEntry s [97] fun _ => 0).1.1 = some 0 ∧ s.nameOf 0 = [97, 98])) = some true := by decide +kernel
  have hmeets : fileSystem.Meets NameSafe start [.kOpenFile ab 'w' fun _ => 0] := by decide +kernel
  obtain ⟨s, hs, hfacts⟩ := Option.map_eq_some_iff.1 hrun
  obtain ⟨hfound, hname⟩ := of_decide_eq_true hfacts
  refine ⟨s, StepSystem.reachVia_exec _ (boot_init _ _ (by decide) (by decide)) hmeets hs, by unfold ValidName; decide,
    fun hright => ?_⟩
  obtain ⟨-, heq⟩ := (hright fun _ => 0).1 0 hfound
  rw [hname] at heq
  revert heq
  decide

end Mint
