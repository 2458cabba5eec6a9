import SkyOS.Vm.MappedPages

/-!
# `fMappedPageCount` over the `Map` and `Unmap` calls of a map

`Map` makes its own page present and no other page of its map, also where the page table is new: the new table is
cleared, and its page was not a table before. So each call moves the count as it moves the set of present pages. The
user part of a new map is empty, and the calls of that map keep the two equal. Calls of other maps are not among them:
their new tables come into this map uncounted.
-/

namespace PhysicalMaps

open Option

variable {s s' : State} {m m' : PhysicalMap} {memory : Memory} {page v w va pa protection : Nat} {object base size : Nat}

/-! ## Every run keeps the tables apart -/

theorem TablesApart.of_entries (ha : TablesApart s)
    (hdirs : ∀ m' ∈ s'.fPhysicalMaps, ∃ m ∈ s.fPhysicalMaps, m.fPageDirectory = m'.fPageDirectory)
    (hent : ∀ m ∈ s.fPhysicalMaps, ∀ i < 1024, s'.memory m.fPageDirectory i = s.memory m.fPageDirectory i) :
    TablesApart s' := by
  intro m' hm' i hi j hj
  obtain ⟨m, hm, hdir⟩ := hdirs m' hm'
  rw [← hdir, hent m hm i hi, hent m hm j hj]
  exact ha m hm i hi j hj

variable {queue : List Nat} {c : Call}

theorem TablesApart.installTable (ha : TablesApart s) (h : Sound s) (hq : s.fFreeQueue = queue ++ [page])
    (m : PhysicalMap) (va : Nat) : TablesApart { s with memory := installTable s m va page, fFreeQueue := queue } := by
  obtain ⟨halign, -, hdirs, -⟩ := h.fresh hq
  have hfree : page ∈ s.fFreeQueue := by simp [hq]
  intro m' hm' i hi j hj hpi hpj hij
  dsimp only at hm' hpi hpj ⊢
  have hold : ∀ i < 1024, isPresent (s.memory m'.fPageDirectory i) = true → pageOf (s.memory m'.fPageDirectory i) ≠ page :=
    fun i hi hpres he => (h.tables m' hm' i hi hpres).1 (he ▸ hfree)
  have hentry : ∀ i, _ ∨ i = dirIndex va ∧ _ := installTable_entry (s := s) (m := m) halign (hdirs m' hm')
  rcases hentry i with hi' | ⟨rfl, hi'⟩
  · rw [hi'] at hpi ⊢
    rcases hentry j with hj' | ⟨rfl, hj'⟩
    · rw [hj'] at hpj ⊢
      exact ha m' hm' i hi j hj hpi hpj hij
    · rw [hj'.2]
      exact hold i hi hpi
  · rcases hentry j with hj' | ⟨rfl, -⟩
    · rw [hj'] at hpj ⊢
      rw [hi'.2]
      exact (hold j hj hpj).symm
    · exact absurd rfl hij

variable {pgtbl : Nat}

theorem TablesApart.enterPage (ha : TablesApart s) (hdir : ∀ m ∈ s.fPhysicalMaps, m.fPageDirectory ≠ pgtbl)
    (m : PhysicalMap) (va pa protection : Nat) : TablesApart (enterPage s m pgtbl va pa protection) :=
  ha.of_entries (enterPage_dirs s m pgtbl va pa protection) fun m' hm' i _ => congrFun (write_page _ (hdir m' hm') _ _) i

theorem tablesApart_map (h : Sound s) (ha : TablesApart s) (hva : va < 2 ^ 32)
    (hs : map s object va pa protection = some s') :
    TablesApart s' := by
  obtain ⟨m, hm, ⟨hpres, rfl⟩ | ⟨-, page, queue, hq, rfl⟩⟩ := map_spec hs
  · exact ha.enterPage (fun m' hm' => ((h.tables m (find_some hm).1 _ (dirIndex_lt hva) hpres).2 m' hm').symm) m va pa
      protection
  · exact (ha.installTable h hq m va).enterPage (h.fresh hq).2.2.1 m va pa protection

theorem tablesApart_newPhysicalMap (h : Sound s) (ha : TablesApart s) (hs : newPhysicalMap s object = some s') :
    TablesApart s' := by
  obtain ⟨kernel, hk, hs⟩ := bind_eq_some_iff.1 hs
  obtain ⟨⟨page, queue⟩, halloc, hs⟩ := bind_eq_some_iff.1 hs
  cases hs
  obtain ⟨-, -, hdirs, -⟩ := h.fresh (allocPage_some halloc)
  intro m hm i hi j hj hpi hpj hij
  dsimp only at hm hpi hpj ⊢
  rcases List.mem_append.1 hm with hm | hm
  · rw [Function.update_of_ne (hdirs m hm)] at hpi hpj ⊢
    exact ha m hm i hi j hj hpi hpj hij
  · rw [List.mem_singleton.1 hm, Function.update_self] at hpi hpj ⊢
    -- the entries below 768 are 0, the others are the kernel's
    split at hpi
    · cases hpi
    · split at hpj
      · cases hpj
      · rename_i hi768 hj768
        rw [if_neg hi768, if_neg hj768]
        exact ha kernel (find_some hk).1 i hi j hj hpi hpj hij

theorem tablesApart_step (h : Sound s) (ha : TablesApart s) (hs : step s c = some s') : TablesApart s' := by
  obtain ⟨hc, hs⟩ := ite_none_right_eq_some.1 hs
  cases c with
  | newPhysicalMap object => exact tablesApart_newPhysicalMap h ha hs
  | deletePhysicalMap object =>
    obtain ⟨m, -, rfl⟩ := map_eq_some_iff.1 hs
    exact ha.of_entries (fun m hm => ⟨m, (List.mem_filter.1 hm).1, rfl⟩) fun _ _ _ _ => rfl
  | map object va pa protection => exact tablesApart_map h ha hc hs
  | unmap object base size =>
    obtain ⟨m, hm, hs⟩ := bind_eq_some_iff.1 hs
    obtain ⟨⟨memory, n⟩, hloop, hs⟩ := bind_eq_some_iff.1 hs
    cases hs
    exact ha.of_entries (dirs_map fun m' => by split <;> rfl) fun m' hm' i _ =>
      congrFun (unmapLoop_dirs h (find_some hm).1 hloop m' hm') i
  | allocPage =>
    obtain ⟨-, -, rfl⟩ := map_eq_some_iff.1 hs
    exact ha
  | freePage page =>
    cases hs
    exact ha

/-! ## What `Map` makes present -/

def userPages (s : State) (m : PhysicalMap) : Finset Nat :=
  presentPages s.memory m.fPageDirectory (kUserBase / PAGE_SIZE) ((kUserTop + 1) / PAGE_SIZE)

theorem enterPage_present (hw : Walkable s.memory m.fPageDirectory) (hva : va < 2 ^ 32)
    (hnames : Names (s.memory m.fPageDirectory (dirIndex va)) pgtbl) (hlt : w < 1024 * 1024) :
    Present (enterPage s m pgtbl va pa protection).memory m.fPageDirectory w ↔
      Present s.memory m.fPageDirectory w ∨ w = va / PAGE_SIZE := by
  obtain ⟨hpres, hpage⟩ := hnames
  have hdir : (enterPage s m pgtbl va pa protection).memory m.fPageDirectory = s.memory m.fPageDirectory :=
    write_page _ (hpage ▸ (hw.self _ (dirIndex_lt hva) hpres).symm) _ _
  have htable : tableOf (enterPage s m pgtbl va pa protection).memory m.fPageDirectory w =
      tableOf s.memory m.fPageDirectory w := by
    rw [tableOf, hdir, tableOf]
  have hlast : va / PAGE_SIZE < 1024 * 1024 := by
    unfold PAGE_SIZE
    omega
  unfold Present
  rw [htable, hdir]
  by_cases hv : w = va / PAGE_SIZE
  · subst hv
    have hown : tableOf s.memory m.fPageDirectory (va / PAGE_SIZE) = pgtbl := hpage
    have hentry : (enterPage s m pgtbl va pa protection).memory pgtbl (va / PAGE_SIZE % 1024) =
        pa ||| pageFlags va protection :=
      write_self _ _ _ _
    rw [hown, hentry]
    exact iff_of_true ⟨hpres, isPresent_pageFlags pa va protection⟩ (.inr rfl)
  · rw [or_iff_left hv]
    refine and_congr_right fun hpw => ?_
    have hne : ¬ (tableOf s.memory m.fPageDirectory w = pgtbl ∧ w % 1024 = tableIndex va) := by
      rw [← hpage]
      exact hw.entry_ne hlt hlast hpw hpres hv
    have hword : (enterPage s m pgtbl va pa protection).memory (tableOf s.memory m.fPageDirectory w) (w % 1024) =
        s.memory (tableOf s.memory m.fPageDirectory w) (w % 1024) := if_neg hne
    rw [hword]

/-- A page that is no directory is written only where it is the new table, which is cleared. -/
theorem installTable_word (hm : m ∈ s.fPhysicalMaps) {p : Nat} (hp : ∀ m ∈ s.fPhysicalMaps, m.fPageDirectory ≠ p)
    (i : Nat) :
    installTable s m va page p i = clearPage s.memory page p i := by
  unfold installTable
  split
  · rw [foldl_write, if_neg]
    rintro ⟨⟨m', hm', hdir⟩, -⟩
    exact hp m' hm' hdir
  · exact congrFun (write_page _ (hp m hm).symm _ _) i

theorem installTable_own (hm : m ∈ s.fPhysicalMaps) (hp : PAGE_SIZE ∣ page) :
    Names (installTable s m va page m.fPageDirectory (dirIndex va)) page := by
  by_cases hva : kKernelBase ≤ va
  · exact installTable_all hm hp hva
  · rw [installTable, if_neg hva, write_self]
    exact names_user hp

theorem installTable_present (h : Sound s) (hq : s.fFreeQueue = queue ++ [page]) (hm : m ∈ s.fPhysicalMaps)
    (habsent : isPresent (s.memory m.fPageDirectory (dirIndex va)) = false) (hlt : w < 1024 * 1024) :
    Present (installTable s m va page) m.fPageDirectory w ↔ Present s.memory m.fPageDirectory w := by
  obtain ⟨halign, -, hdirs, -⟩ := h.fresh hq
  have hfree : page ∈ s.fFreeQueue := by simp [hq]
  unfold Present tableOf
  by_cases hindex : w / 1024 = dirIndex va
  · have hown : Names (installTable s m va page m.fPageDirectory (dirIndex va)) page := installTable_own hm halign
    have hcleared : installTable s m va page page (w % 1024) = 0 := by
      rw [installTable_word hm hdirs, clearPage, if_pos rfl]
    rw [hindex, hown.2, hcleared, habsent]
    exact iff_of_false (fun hand => by cases hand.2) fun hand => by cases hand.1
  · rw [installTable_other halign (hdirs m hm) hindex]
    refine and_congr_right fun hpres => ?_
    obtain ⟨hnf, hnd⟩ := h.tables m hm (w / 1024) (by omega) hpres
    have hne : pageOf (s.memory m.fPageDirectory (w / 1024)) ≠ page := fun he => hnf (by rwa [he])
    rw [installTable_word hm fun m' hm' => (hnd m' hm').symm, clearPage_page _ hne]

theorem find_map {f : PhysicalMap → PhysicalMap} (hf : ∀ m, (f m).object = m.object) (memory : Memory) (queue : List Nat) :
    find ⟨memory, queue, s.fPhysicalMaps.map f⟩ object = (find s object).map f := by
  unfold find
  rw [List.find?_map]
  congr 2
  funext m
  simp [hf]

/-- What a call of `object` did to the map: `m` before, `m'` after. -/
structure Mapped (s s' : State) (object v : Nat) (m m' : PhysicalMap) : Prop where
  find : find s' object = some m'
  directory : m'.fPageDirectory = m.fPageDirectory
  present : ∀ w < 1024 * 1024, Present s'.memory m'.fPageDirectory w ↔ Present s.memory m.fPageDirectory w ∨ w = v
  count : m'.fMappedPageCount = m.fMappedPageCount + if Present s.memory m.fPageDirectory v then 0 else 1

theorem mapped_enterPage (hm : PhysicalMaps.find s object = some m) (hw : Walkable s.memory m.fPageDirectory)
    (hva : va < 2 ^ 32) (hnames : Names (s.memory m.fPageDirectory (dirIndex va)) pgtbl) :
    ∃ m', Mapped s (enterPage s m pgtbl va pa protection) object (va / PAGE_SIZE) m m' := by
  have hfind : PhysicalMaps.find (enterPage s m pgtbl va pa protection) object = (PhysicalMaps.find s object).map _ :=
    find_map (fun map => by split <;> rfl) _ _
  rw [hm, map_some] at hfind
  have hpresent : Present s.memory m.fPageDirectory (va / PAGE_SIZE) ↔ isPresent (s.memory pgtbl (tableIndex va)) =
      true := by
    refine (and_iff_right hnames.1).trans ?_
    rw [tableOf, show s.memory m.fPageDirectory (va / PAGE_SIZE / 1024) =
      s.memory m.fPageDirectory (dirIndex va) from rfl, hnames.2]
    rfl
  refine ⟨_, hfind, ?_, fun w hlt => ?_, ?_⟩
  · split <;> rfl
  · have hdir : ∀ (c : Prop) [Decidable c], (if c then { m with fMappedPageCount :=
      m.fMappedPageCount + 1 } else m).fPageDirectory =
        m.fPageDirectory := fun c _ => by split <;> rfl
    rw [hdir]
    exact enterPage_present hw hva hnames hlt
  · by_cases hp : isPresent (s.memory pgtbl (tableIndex va)) = true
    · simp [hpresent, hp]
    · simp [hpresent, hp]

/-- **`Map`** makes its page present, and counts it if it was not. -/
theorem map_mapped (h : Sound s) (ha : TablesApart s) (hm : find s object = some m) (hva : va < 2 ^ 32)
    (hs : map s object va pa protection = some s') : ∃ m', Mapped s s' object (va / PAGE_SIZE) m m' := by
  have hmem := (find_some hm).1
  obtain ⟨m₀, hm₀, ⟨hpres, rfl⟩ | ⟨habsent, page, queue, hq, rfl⟩⟩ := map_spec hs
  · rw [hm] at hm₀
    cases hm₀
    exact mapped_enterPage hm (walkable h ha hmem) hva ⟨hpres, rfl⟩
  · rw [hm] at hm₀
    cases hm₀
    have hpresent : ∀ w < 1024 * 1024, Present (installTable s m va page) m.fPageDirectory w ↔
        Present s.memory m.fPageDirectory w :=
      fun w hlt => installTable_present h hq hmem habsent hlt
    have hw := walkable (h.installTable hq m va) (ha.installTable h hq m va) hmem
    have hfound : find { s with memory := installTable s m va page, fFreeQueue := queue } object = some m := hm
    obtain ⟨m', hfind, hdir, hpw, hcount⟩ := mapped_enterPage hfound hw hva (installTable_own hmem (h.fresh hq).1)
    refine ⟨m', hfind, hdir, fun w hlt => (hpw w hlt).trans (or_congr_left (hpresent w hlt)), ?_⟩
    have hlast : va / PAGE_SIZE < 1024 * 1024 := by
      unfold PAGE_SIZE
      omega
    rw [hcount, if_congr (hpresent _ hlast) rfl rfl]

theorem enterPage_translates (hm : find s object = some m) (hdir : m.fPageDirectory ≠ pgtbl)
    (hnames : Names (s.memory m.fPageDirectory (dirIndex va)) pgtbl) :
    ∃ m', find (enterPage s m pgtbl va pa protection) object = some m' ∧
      translation (enterPage s m pgtbl va pa protection) m' va = some (pa ||| pageFlags va protection) := by
  have hfind : find (enterPage s m pgtbl va pa protection) object = (find s object).map _ :=
    find_map (fun map => by split <;> rfl) _ _
  rw [hm, map_some] at hfind
  have hnames' : Names ((enterPage s m pgtbl va pa protection).memory m.fPageDirectory (dirIndex va)) pgtbl := by
    rwa [show (enterPage s m pgtbl va pa protection).memory m.fPageDirectory =
      s.memory m.fPageDirectory from write_page _ hdir _ _]
  have hentry : (enterPage s m pgtbl va pa protection).memory pgtbl (tableIndex va) = pa ||| pageFlags va protection :=
    write_self _ _ _ _
  have htranslation : translation (enterPage s m pgtbl va pa protection) m va = some (pa ||| pageFlags va protection) := by
    rw [translation_of_names hnames', hentry, if_pos (isPresent_pageFlags pa va protection)]
  refine ⟨_, hfind, ?_⟩
  -- the map differs in its count at most
  split
  · exact htranslation
  · exact htranslation

theorem map_translates (h : Sound s) (hva : va < 2 ^ 32) (hs : map s object va pa protection = some s') :
    ∃ m', find s' object = some m' ∧ translation s' m' va = some (pa ||| pageFlags va protection) := by
  obtain ⟨m, hm, ⟨hpres, rfl⟩ | ⟨-, page, queue, hq, rfl⟩⟩ := map_spec hs
  · have hmem := (find_some hm).1
    exact enterPage_translates hm ((h.tables m hmem _ (dirIndex_lt hva) hpres).2 m hmem).symm ⟨hpres, rfl⟩
  · have hmem := (find_some hm).1
    obtain ⟨halign, -, hdirs, -⟩ := h.fresh hq
    have hfound : find { s with memory := installTable s m va page, fFreeQueue := queue } object = some m := hm
    exact enterPage_translates hfound (hdirs m hmem) (installTable_own hmem halign)

/-! ## The count -/

/-- `fMappedPageCount` is the number of present pages at user addresses. -/
def Counted (s : State) (m : PhysicalMap) : Prop := m.fMappedPageCount = (userPages s m).card
  deriving Decidable

/-- The `Map` and `Unmap` calls of one map on user addresses. -/
def UserCall (object : Nat) : Call → Prop
  | .map o va _ _ => o = object ∧ kUserBase ≤ va ∧ va ≤ kUserTop
  | .unmap o base size => o = object ∧ kUserBase ≤ base ∧ base + size ≤ kUserTop + 1
  | _ => False

instance (object : Nat) : (c : Call) → Decidable (UserCall object c)
  | .map .. | .unmap .. => inferInstanceAs (Decidable (_ ∧ _ ∧ _))
  | .newPhysicalMap _ | .deletePhysicalMap _ | .allocPage | .freePage _ => inferInstanceAs (Decidable False)

theorem user_page (hlow : kUserBase ≤ va) (hhigh : va ≤ kUserTop) :
    kUserBase / PAGE_SIZE ≤ va / PAGE_SIZE ∧ va / PAGE_SIZE < (kUserTop + 1) / PAGE_SIZE := by
  unfold kUserBase kUserTop PAGE_SIZE at *
  omega

theorem counted_map (hc : Counted s m) (hmapped : Mapped s s' object (va / PAGE_SIZE) m m') (hlow : kUserBase ≤ va)
    (hhigh : va ≤ kUserTop) : Counted s' m' := by
  have hrange := user_page hlow hhigh
  have hpages : userPages s' m' = insert (va / PAGE_SIZE) (userPages s m) := by
    ext w
    rw [Finset.mem_insert, userPages, userPages, mem_presentPages, mem_presentPages]
    by_cases hw : w < 1024 * 1024
    · rw [hmapped.present w hw]
      constructor
      · rintro ⟨hr, hp | rfl⟩
        · exact .inr ⟨hr, hp⟩
        · exact .inl rfl
      · rintro (rfl | ⟨hr, hp⟩)
        · exact ⟨hrange, .inr rfl⟩
        · exact ⟨hr, .inl hp⟩
    · have hlast : (kUserTop + 1) / PAGE_SIZE ≤ 1024 * 1024 := by decide
      omega
  unfold Counted at hc ⊢
  rw [hmapped.count, hpages, hc]
  by_cases hp : Present s.memory m.fPageDirectory (va / PAGE_SIZE)
  · have hin : va / PAGE_SIZE ∈ userPages s m := mem_presentPages.2 ⟨hrange, hp⟩
    rw [if_pos hp, Finset.insert_eq_of_mem hin, add_zero]
  · have hout : va / PAGE_SIZE ∉ userPages s m := fun hin => hp (mem_presentPages.1 hin).2
    rw [if_neg hp, Finset.card_insert_of_notMem hout]
    rfl

/-- What `Unmap` does to a map, from page `a` to page `b`. -/
structure Unmapped (s s' : State) (object a b : Nat) (m m' : PhysicalMap) : Prop where
  find : find s' object = some m'
  directory : m'.fPageDirectory = m.fPageDirectory
  cleared : ∃ n : Nat, Cleared s.memory s'.memory m.fPageDirectory a b n ∧ m'.fMappedPageCount = m.fMappedPageCount - n
  queue : s'.fFreeQueue = s.fFreeQueue
  maps : ∀ o ≠ object, PhysicalMaps.find s' o = PhysicalMaps.find s o

theorem unmap_unmapped (h : Sound s) (ha : TablesApart s) (hm : find s object = some m) (hbase : base < 2 ^ 32)
    (hend : base / PAGE_SIZE + size / PAGE_SIZE ≤ 1024 * 1024) :
    ∃ s' m', unmap s object base size = some s' ∧
      Unmapped s s' object (base / PAGE_SIZE) (base / PAGE_SIZE + size / PAGE_SIZE) m m' := by
  obtain ⟨memory, n, hunmap, hcleared⟩ := unmap_spec h ha hm hbase hend
  have hfind : ∀ o, find _ o = (find s o).map _ := fun o => find_map (s := s) (f := fun map =>
    if map.object = object then { map with fMappedPageCount := map.fMappedPageCount - n } else map)
      (fun map => by split <;> rfl) memory s.fFreeQueue
  refine ⟨_, { m with fMappedPageCount := m.fMappedPageCount - n }, hunmap, ?_, rfl, ⟨n, hcleared, rfl⟩, rfl,
    fun o ho => ?_⟩
  · rw [hfind, hm, map_some, if_pos (find_some hm).2]
  · rw [hfind]
    cases hfo : find s o with
    | none => rfl
    | some map => rw [map_some, if_neg ((find_some hfo).2 ▸ ho)]

theorem counted_unmap {a b : Nat} (h : Sound s) (ha : TablesApart s) (hm : find s object = some m) (hc : Counted s m)
    (hunmapped : Unmapped s s' object a b m m') (hlow : kUserBase / PAGE_SIZE ≤ a)
    (hhigh : b ≤ (kUserTop + 1) / PAGE_SIZE) :
    Counted s' m' := by
  obtain ⟨n, hcleared, hcount⟩ := hunmapped.cleared
  have hlast : (kUserTop + 1) / PAGE_SIZE ≤ 1024 * 1024 := by decide
  have hw := walkable h ha (find_some hm).1
  have hpages : userPages s' m' = userPages s m \ presentPages s.memory m.fPageDirectory a b := by
    ext w
    rw [Finset.mem_sdiff, userPages, userPages, mem_presentPages, mem_presentPages, mem_presentPages, hunmapped.directory]
    by_cases hlt : w < 1024 * 1024
    · rw [hcleared.present_iff hw (by omega) hlt]
      constructor
      · rintro ⟨hr, hp, hout⟩
        exact ⟨⟨hr, hp⟩, fun hin => by omega⟩
      · rintro ⟨⟨hr, hp⟩, hout⟩
        refine ⟨hr, hp, ?_⟩
        by_contra hin
        exact hout ⟨by omega, hp⟩
    · omega
  have hsub : presentPages s.memory m.fPageDirectory a b ⊆ userPages s m := fun w hin => by
    obtain ⟨hr, hp⟩ := mem_presentPages.1 hin
    exact mem_presentPages.2 ⟨by omega, hp⟩
  unfold Counted at hc ⊢
  rw [hcount, hcleared.count, hc, hpages, Finset.card_sdiff_of_subset hsub, Int.ofNat_sub (Finset.card_le_card hsub)]

/-- **Each call** of the map keeps its count equal to its present pages. -/
theorem counted_step (h : Sound s) (ha : TablesApart s) (hm : find s object = some m) (hc : Counted s m)
    (huser : UserCall object c) (hs : step s c = some s') : ∃ m', find s' object = some m' ∧ Counted s' m' := by
  obtain ⟨hlegal, hs⟩ := ite_none_right_eq_some.1 hs
  cases c with
  | map o va pa protection =>
    obtain ⟨rfl, hlow, hhigh⟩ := huser
    obtain ⟨m', hmapped⟩ := map_mapped h ha hm hlegal hs
    exact ⟨m', hmapped.find, counted_map hc hmapped hlow hhigh⟩
  | unmap o base size =>
    obtain ⟨rfl, hlow, hhigh⟩ := huser
    have hpages : kUserBase / PAGE_SIZE ≤ base / PAGE_SIZE ∧
        base / PAGE_SIZE + size / PAGE_SIZE ≤ (kUserTop + 1) / PAGE_SIZE ∧ base < 2 ^ 32 := by
      unfold kUserBase kUserTop PAGE_SIZE at *
      omega
    obtain ⟨s'', m', hunmap, hunmapped⟩ := unmap_unmapped h ha hm hpages.2.2 (Nat.le_trans hpages.2.1 (by decide))
    obtain rfl : s'' = s' := Option.some.inj (hunmap.symm.trans hs)
    exact ⟨m', hunmapped.find, counted_unmap h ha hm hc hunmapped hpages.1 hpages.2.1⟩
  | newPhysicalMap _ => cases huser
  | deletePhysicalMap _ => cases huser
  | allocPage => cases huser
  | freePage _ => cases huser

theorem counted_newPhysicalMap (hs : step s (.newPhysicalMap object) = some s') :
    ∃ m, find s' object = some m ∧ Counted s' m := by
  obtain ⟨hnew, hs⟩ := ite_none_right_eq_some.1 hs
  obtain ⟨kernel, hk, hs⟩ := bind_eq_some_iff.1 hs
  obtain ⟨⟨page, queue⟩, halloc, hs⟩ := bind_eq_some_iff.1 hs
  cases hs
  refine ⟨⟨object, page, 0⟩, ?_, ?_⟩
  · have hnew : s.fPhysicalMaps.find? (·.object = object) = none := hnew
    simp [find, List.find?_append, hnew]
  · refine (congrArg Int.ofNat (Finset.card_eq_zero.2 (Finset.eq_empty_iff_forall_notMem.2 fun w hw => ?_))).symm
    obtain ⟨⟨hlow, hhigh⟩, hpres, -⟩ := mem_presentPages.1 hw
    have hindex : w / 1024 < 768 := by
      unfold kUserTop PAGE_SIZE at hhigh
      omega
    dsimp only at hpres
    rw [Function.update_self, if_pos hindex] at hpres
    cases hpres

/-! ## `Unmap` is exact -/

theorem translation_eq (s : State) (m : PhysicalMap) (va : Nat) :
    translation s m va = if Present s.memory m.fPageDirectory (va / PAGE_SIZE) then
      some (s.memory (tableOf s.memory m.fPageDirectory (va / PAGE_SIZE)) (va / PAGE_SIZE % 1024)) else none :=
  rfl

/-- `m` and `m'` are the map before and after: the range is unmapped, the other addresses translate as before, and the
count goes down by the pages that were present. -/
structure UnmapExact (s s' : State) (object base size : Nat) (m m' : PhysicalMap) : Prop where
  find : find s' object = some m'
  gone : ∀ va, base ≤ va → va < base + size → translation s' m' va = none
  kept : ∀ va < 2 ^ 32, va < base ∨ base + size ≤ va → translation s' m' va = translation s m va
  written : Cleared s.memory s'.memory m.fPageDirectory (base / PAGE_SIZE) ((base + size) / PAGE_SIZE)
    (presentPages s.memory m.fPageDirectory (base / PAGE_SIZE) ((base + size) / PAGE_SIZE)).card
  count : m'.fMappedPageCount =
    m.fMappedPageCount - (presentPages s.memory m.fPageDirectory (base / PAGE_SIZE) ((base + size) / PAGE_SIZE)).card
  queue : s'.fFreeQueue = s.fFreeQueue
  maps : ∀ o ≠ object, PhysicalMaps.find s' o = PhysicalMaps.find s o

theorem unmap_exact (h : Sound s) (ha : TablesApart s) (hm : find s object = some m) (hbase : base < 2 ^ 32)
    (hdvd : PAGE_SIZE ∣ base) (hdvd' : PAGE_SIZE ∣ size) (hend : base + size ≤ 2 ^ 32) :
    ∃ s' m', unmap s object base size = some s' ∧ UnmapExact s s' object base size m m' := by
  obtain ⟨hsum, hlast⟩ : base / PAGE_SIZE + size / PAGE_SIZE = (base + size) / PAGE_SIZE ∧
      (base + size) / PAGE_SIZE ≤ 1024 * 1024 := by
    unfold PAGE_SIZE at *
    omega
  obtain ⟨s', m', hunmap, hunmapped⟩ := unmap_unmapped h ha hm hbase (by rw [hsum]; exact hlast)
  rw [hsum] at hunmapped
  obtain ⟨n, hcleared, hcount⟩ := hunmapped.cleared
  obtain rfl := hcleared.count
  have hw := walkable h ha (find_some hm).1
  have hpage : ∀ va < 2 ^ 32, va / PAGE_SIZE < 1024 * 1024 ∧
      ((base ≤ va ∧ va < base + size) ↔ (base / PAGE_SIZE ≤ va / PAGE_SIZE ∧
          va / PAGE_SIZE < (base + size) / PAGE_SIZE)) := by
    unfold PAGE_SIZE at *
    omega
  refine ⟨s', m', hunmap, hunmapped.find, fun va hlo hhi => ?_, fun va hva hout => ?_,
    hcleared, hcount, hunmapped.queue, hunmapped.maps⟩
  · obtain ⟨hlt, hrange⟩ := hpage va (by omega)
    rw [translation_eq, hunmapped.directory, if_neg]
    intro hpresent
    have hout := ((hcleared.present_iff hw hlast hlt).1 hpresent).2
    omega
  · obtain ⟨hlt, hrange⟩ := hpage va hva
    have hout : va / PAGE_SIZE < base / PAGE_SIZE ∨ (base + size) / PAGE_SIZE ≤ va / PAGE_SIZE := by omega
    have htable : tableOf s'.memory m.fPageDirectory (va / PAGE_SIZE) =
        tableOf s.memory m.fPageDirectory (va / PAGE_SIZE) := by
      rw [tableOf, hcleared.directory hw hlast, tableOf]
    rw [translation_eq, translation_eq, hunmapped.directory, if_congr (hcleared.present_iff hw hlast hlt) rfl rfl, htable]
    by_cases hp : Present s.memory m.fPageDirectory (va / PAGE_SIZE)
    · rw [if_pos ⟨hp, hout⟩, if_pos hp, hcleared.entry hw hlast hlt hout hp.1]
    · rw [if_neg fun hand => hp hand.1, if_neg hp]

end PhysicalMaps
