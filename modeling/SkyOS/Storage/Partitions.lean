import Mathlib.Data.Fintype.EquivFin
import Mathlib.Data.Fintype.Card
import Mathlib.Logic.Relation
import SkyOS.Lib.Bytes
import SkyOS.Lib.Machine

/-!
# Enumerating partitions (`EnumeratePartitions`, `SkyCore/FileSystem/Partition.cpp:80`)

The table of a sector is gone through, `CallBackPartition` is called for every entry in use, and an extended entry is
followed: its start is taken as a sector of the disk, and its table enumerated in the same way, one level deeper. The
path of the device is in one global buffer, which the nested call writes over.

| here | there |
| --- | --- |
| `Disk` | `ReadSectors` of one sector: an error, or its bytes |
| `Enumeration` | what a call has done: its events, `PartitionDPF` afterwards, its result |
| `none` | more calls within each other than allowed |
| `Links` | a table has an extended entry with this start |
-/

namespace Storage

open Machine Bytes List Option

/-! ## The code -/

abbrev Disk := Nat → Except UInt8 Memory

/-- What is read of a `struct _Partition` (`Partition.h:14`). -/
structure Partition where
  PartType : Nat
  PartitionBegining : Nat
deriving DecidableEq, Repr

/-- `Initialize` (:28). -/
def Partition.Initialize (m : Memory) (part : Nat) : Partition where
  PartType := readLE m (part + 4) 1
  PartitionBegining := read32 m (part + 8)

/-- The four entries of the table (:103). -/
def table (PT : Memory) : List Partition := (List.range 4).map fun i => Partition.Initialize PT (446 + i * 16)

/-- An entry in use (:104), and one to follow (:106). -/
def Partition.used (p : Partition) : Bool := p.PartType ≠ 0

def Partition.extended (p : Partition) : Bool := p.PartType = 0x5 ∨ p.PartType = 0xF

/-- What may be passed as `CallBackFunction`. -/
inductive CallBack where
  | CallBackPartition
  | other (address : Nat)
deriving DecidableEq, Repr

inductive Event where
  | ReadSectors (LBASector : Nat)
  | call (fn : CallBack) (DPF : List UInt8) (part : Partition)
deriving DecidableEq, Repr

structure Enumeration where
  events : List Event
  PartitionDPF : List UInt8
  result : UInt8

/-- A key for which `PartitionDPF` has room. -/
structure StorageKey where
  bytes : List UInt8
  fits : bytes.length + 3 ≤ 20

/-- The path (:86): the key, a backslash and the level. -/
def devicePath (key : StorageKey) (PartitionDeepth : Nat) : List UInt8 := key.bytes ++ [92, UInt8.ofNat PartitionDeepth]

/-- The loop over the entries (:101). -/
def scan (enumerate : Nat → Nat → Option Enumeration) : List Partition → Nat → Enumeration → Option Enumeration
  | [], _, e => some e
  | part :: parts, PartitionDeepth, e =>
    let e := if part.used then { e with events := e.events ++ [.call .CallBackPartition e.PartitionDPF part] } else e
    if part.extended then
      (enumerate part.PartitionBegining (u32 (PartitionDeepth + 1))).bind fun nested =>
        scan enumerate parts (u32 (PartitionDeepth + 1))
          { e with events := e.events ++ nested.events, PartitionDPF := nested.PartitionDPF }
    else scan enumerate parts PartitionDeepth e

/-- `EnumeratePartitions` (:80), with a bound for the calls within each other; `CallBackFunction` is passed on. -/
def EnumeratePartitions (disk : Disk) (key : StorageKey) (CallBackFunction : CallBack) :
    Nat → Nat → Nat → Option Enumeration
  | 0, _, _ => none
  | fuel + 1, LBASector, PartitionDeepth =>
    let e : Enumeration := ⟨[.ReadSectors LBASector], devicePath key PartitionDeepth, 0⟩
    match disk LBASector with
    | .error ReadResult => some { e with result := ReadResult }
    | .ok PT => scan (EnumeratePartitions disk key CallBackFunction fuel) (table PT) PartitionDeepth e

/-! ## What a call has done -/

namespace Enumeration

def reads (e : Enumeration) : List Nat := e.events.filterMap fun
  | .ReadSectors LBASector => some LBASector
  | .call .. => none

def calls (e : Enumeration) : List (CallBack × List UInt8 × Partition) := e.events.filterMap fun
  | .ReadSectors _ => none
  | .call fn DPF part => some (fn, DPF, part)

end Enumeration

/-- The table of sector `s` has an extended entry that starts at `t`. -/
def Links (disk : Disk) (s t : Nat) : Prop :=
  ∃ PT, disk s = .ok PT ∧ ∃ p ∈ table PT, p.extended = true ∧ p.PartitionBegining = t

/-- Following starts from sector 0 never comes back to a sector. -/
def NoCycle (disk : Disk) : Prop :=
  ∀ s, Relation.ReflTransGen (Links disk) 0 s → ¬ Relation.TransGen (Links disk) s s

/-! ## The format -/

def tableAt (disk : Disk) (s : Nat) : List Partition :=
  match disk s with
  | .ok PT => table PT
  | .error _ => []

def Signed (disk : Disk) (s : Nat) : Prop := ∃ PT, disk s = .ok PT ∧ readLE PT 510 2 = 0xAA55

/-- The extended boot records, at distances from the beginning `E` of the extended partition: a logical drive, a link to
the next record, and two entries that are empty. -/
def Records (disk : Disk) (E : Nat) : List Nat → Prop
  | [] => True
  | [r] => Signed disk (E + r) ∧ ∃ drive link x y, tableAt disk (E + r) = [drive, link, x, y] ∧
      drive.extended = false ∧ link.used = false ∧ x.used = false ∧ y.used = false
  | r :: r' :: rs => (Signed disk (E + r) ∧ ∃ drive link x y, tableAt disk (E + r) = [drive, link, x, y] ∧
      drive.extended = false ∧ (link.extended = true ∧ link.PartitionBegining = r') ∧ x.used = false ∧ y.used = false) ∧
    Records disk E (r' :: rs)

def sectors (E : Nat) (rs : List Nat) : List Nat := 0 :: rs.map fun r => E + r

/-- A partition table in sector 0 with at most one extended entry, which starts at `E`, and the records there. -/
structure ValidDisk (disk : Disk) (E : Nat) (rs : List Nat) : Prop where
  signed : Signed disk 0
  master : (rs = [] ∧ ∀ p ∈ tableAt disk 0, p.extended = false) ∨
    ∃ pre ext post rest, tableAt disk 0 = pre ++ ext :: post ∧ (ext.extended = true ∧ ext.PartitionBegining = E) ∧
      (∀ p ∈ pre ++ post, p.extended = false) ∧ rs = 0 :: rest
  records : Records disk E rs
  distinct : (sectors E rs).Nodup

def usedEntries (disk : Disk) (ss : List Nat) : List Partition :=
  ss.flatMap fun s => (tableAt disk s).filter Partition.used

/-- The sectors of the chain are read and no others, the callback is called once for each entry in use, and no path is
passed twice. -/
structure Correct (disk : Disk) (cb : CallBack) (E : Nat) (rs : List Nat) (e : Enumeration) : Prop where
  reads : ∀ s, s ∈ e.reads ↔ s ∈ sectors E rs
  calls : ((e.calls.filter fun c => c.1 = cb).map fun c => c.2.2).Perm (usedEntries disk (sectors E rs))
  paths : (e.calls.map fun c => c.2.1).Nodup

/-- When it is: the callback is the one that is called, and there is one record at most. The entries before the extended
one have the path of its own, those of the record and those after it the path of the record. -/
def Suits (disk : Disk) (cb : CallBack) (E : Nat) (rs : List Nat) : Prop :=
  (cb = .CallBackPartition ∨ ∀ p ∈ tableAt disk 0, p.used = false) ∧
    match rs with
    | [] => ((tableAt disk 0).filter Partition.used).length ≤ 1
    | [_] => ∀ pre ext post, tableAt disk 0 = pre ++ ext :: post → ext.extended = true →
        (∀ p ∈ pre, p.used = false) ∧ ((tableAt disk E ++ post).filter Partition.used).length ≤ 1
    | _ :: _ :: _ => False

def Enumerates (disk : Disk) (key : StorageKey) (cb : CallBack) (depth : Nat) : Prop :=
  ∃ rounds e, (∀ fuel ≥ rounds, EnumeratePartitions disk key cb fuel 0 depth = some e) ∧
    ∀ E rs, ValidDisk disk E rs → Correct disk cb E rs e

/-! ## When it ends -/

section
variable {disk : Disk} {key : StorageKey} {cb : CallBack}

variable {f : Nat → Nat → Option Enumeration} {fuel s depth t E : Nat} {e : Enumeration} {rs : List Nat}

theorem scan_mono {g : Nat → Nat → Option Enumeration} (h : ∀ s depth e, f s depth = some e → g s depth = some e) :
    ∀ (ps : List Partition) (depth : Nat) (e e' : Enumeration),
      scan f ps depth e = some e' → scan g ps depth e = some e'
  | [], _, _, _, hscan => hscan
  | p :: ps, depth, e, e', hscan => by
    rw [scan] at hscan ⊢
    split at hscan
    · rename_i hext
      obtain ⟨nested, hnested, hrest⟩ := bind_eq_some_iff.1 hscan
      rw [if_pos hext, h _ _ _ hnested, bind_some]
      exact scan_mono h ps _ _ _ hrest
    · rename_i hext
      rw [if_neg hext]
      exact scan_mono h ps _ _ _ hscan

theorem EnumeratePartitions_succ (fuel : Nat) : ∀ (s depth : Nat) (e : Enumeration),
    EnumeratePartitions disk key cb fuel s depth = some e →
      EnumeratePartitions disk key cb (fuel + 1) s depth = some e := by
  induction fuel with
  | zero =>
    intro s depth e h
    cases h
  | succ fuel ih =>
    intro s depth e h
    rw [EnumeratePartitions] at h ⊢
    cases hread : disk s with
    | error code =>
      rw [hread] at h
      exact h
    | ok PT =>
      rw [hread] at h
      exact scan_mono ih _ _ _ _ h

theorem EnumeratePartitions_mono {fuel' : Nat} (hle : fuel ≤ fuel')
    (h : EnumeratePartitions disk key cb fuel s depth = some e) :
    EnumeratePartitions disk key cb fuel' s depth = some e := by
  induction hle with
  | refl => exact h
  | step _ ih => exact EnumeratePartitions_succ _ s depth e ih

theorem scan_ends (ps : List Partition) (h : ∀ p ∈ ps, p.extended = true → ∀ depth,
    ∃ fuel e, EnumeratePartitions disk key cb fuel p.PartitionBegining depth = some e) :
    ∀ (depth : Nat) (e : Enumeration), ∃ fuel e', scan (EnumeratePartitions disk key cb fuel) ps depth e = some e' := by
  induction ps with
  | nil => exact fun depth e => ⟨0, e, rfl⟩
  | cons p ps ih =>
    intro depth e
    have hrest := ih fun q hq => h q (mem_cons_of_mem p hq)
    by_cases hext : p.extended = true
    · obtain ⟨fuel, nested, hnested⟩ := h p (.head _) hext (u32 (depth + 1))
      simp only [scan, hext, if_true]
      obtain ⟨fuel', e', hscan⟩ := hrest (u32 (depth + 1))
        { (if p.used = true then { e with events := e.events ++ [.call .CallBackPartition e.PartitionDPF p] }
            else e) with
          events := (if p.used = true then { e with events := e.events ++ [.call .CallBackPartition e.PartitionDPF p] }
            else e).events ++ nested.events, PartitionDPF := nested.PartitionDPF }
      refine ⟨max fuel fuel', e', ?_⟩
      rw [EnumeratePartitions_mono (Nat.le_max_left fuel fuel') hnested, bind_some]
      exact scan_mono (fun s depth e => EnumeratePartitions_mono (Nat.le_max_right fuel fuel')) _ _ _ _ hscan
    · simp only [scan, hext, Bool.false_eq_true, if_false]
      exact hrest depth _

theorem ends_of_acc {s : Nat} (hacc : Acc (fun t s => Links disk s t) s) :
    ∀ depth, ∃ fuel e, EnumeratePartitions disk key cb fuel s depth = some e := by
  induction hacc with
  | intro s _ ih =>
    intro depth
    cases hread : disk s with
    | error code => exact ⟨1, _, by rw [EnumeratePartitions, hread]⟩
    | ok PT =>
      obtain ⟨fuel, e, hscan⟩ := @scan_ends disk key cb (table PT)
        (fun p hp hext => ih p.PartitionBegining ⟨PT, hread, p, hp, hext, rfl⟩) depth
        ⟨[.ReadSectors s], devicePath key depth, 0⟩
      exact ⟨fuel + 1, e, by rw [EnumeratePartitions, hread]; exact hscan⟩

theorem scan_called : ∀ (ps : List Partition) (depth : Nat) (e e' : Enumeration),
    scan f ps depth e = some e' → ∀ p ∈ ps, p.extended = true → ∃ depth e, f p.PartitionBegining depth = some e
  | [], _, _, _, _, _, hp, _ => absurd hp not_mem_nil
  | p :: ps, depth, e, e', hscan, q, hq, hext => by
    rw [scan] at hscan
    split at hscan
    · obtain ⟨nested, hnested, hrest⟩ := bind_eq_some_iff.1 hscan
      rcases mem_cons.1 hq with rfl | hq
      · exact ⟨_, _, hnested⟩
      · exact scan_called ps _ _ _ hrest q hq hext
    · rename_i hnot
      rcases mem_cons.1 hq with rfl | hq
      · exact absurd hext hnot
      · exact scan_called ps _ _ _ hscan q hq hext

theorem acc_of_ends (fuel : Nat) : ∀ (s depth : Nat) (e : Enumeration),
    EnumeratePartitions disk key cb fuel s depth = some e → Acc (fun t s => Links disk s t) s := by
  induction fuel with
  | zero =>
    intro s depth e h
    cases h
  | succ fuel ih =>
    intro s depth e h
    constructor
    rintro t ⟨PT, hread, p, hp, hext, rfl⟩
    simp only [EnumeratePartitions, hread] at h
    obtain ⟨depth', e', hcall⟩ := scan_called _ _ _ _ h p hp hext
    exact ih _ _ _ hcall

/-! ## Cycles -/

theorem links_lt (h : Links disk s t) : t < 2 ^ 32 := by
  obtain ⟨PT, -, p, hp, -, rfl⟩ := h
  obtain ⟨i, -, rfl⟩ := List.mem_map.1 hp
  exact read32_lt PT _

/-- There are finitely many sectors that can be named, so following the links ends unless it comes back. -/
theorem acc_iff_noCycle : Acc (fun t s => Links disk s t) 0 ↔ NoCycle disk := by
  constructor
  · intro hacc s hreach
    have hs : Acc (fun t s => Links disk s t) s := by
      induction hreach with
      | refl => exact hacc
      | tail _ hstep ih => exact ih.inv hstep
    have hloop : ∀ s, Acc (Relation.TransGen fun t s => Links disk s t) s →
        ¬ Relation.TransGen (Links disk) s s := by
      intro s hacc
      induction hacc with
      | intro s _ ih =>
        intro hself
        exact ih s (Relation.transGen_swap.2 hself) hself
    exact hloop s hs.transGen
  · intro hno
    let r : {s : Nat // s < 2 ^ 32 ∧ Relation.ReflTransGen (Links disk) 0 s} →
        {s : Nat // s < 2 ^ 32 ∧ Relation.ReflTransGen (Links disk) 0 s} → Prop :=
      fun t s => Relation.TransGen (Links disk) s.1 t.1
    have hfinite : Finite {s : Nat // s < 2 ^ 32 ∧ Relation.ReflTransGen (Links disk) 0 s} :=
      Finite.of_injective (fun s => (⟨s.1, s.2.1⟩ : Fin (2 ^ 32))) fun a b h => Subtype.ext (Fin.mk.inj h)
    have hirrefl : Std.Irrefl r := ⟨fun s hself => hno s.1 s.2.2 hself⟩
    have hwf : WellFounded r := Finite.wellFounded_of_trans_of_irrefl r
    have hacc : ∀ s : {s : Nat // s < 2 ^ 32 ∧ Relation.ReflTransGen (Links disk) 0 s},
        Acc (fun t s => Links disk s t) s.1 := by
      intro s
      induction s using hwf.induction with
      | _ s ih =>
        constructor
        intro t hlink
        exact ih ⟨t, links_lt hlink, s.2.2.tail hlink⟩ (Relation.TransGen.single hlink)
    exact hacc ⟨0, by omega, Relation.ReflTransGen.refl⟩

/-! ## What it reads -/

/-- Every sector that is read is the first one, `s`, or the start of an extended entry in a table that is read. -/
structure Reached (disk : Disk) (s : Nat) (e : Enumeration) : Prop where
  first : s ∈ e.reads
  linked : ∀ t ∈ e.reads, t = s ∨ ∃ u ∈ e.reads, Links disk u t

variable {e' : Enumeration} {r : Nat} {pre post : List Partition} {ext : Partition}

theorem Reached.of_reads (h : Reached disk s e) (heq : e'.reads = e.reads) :
    Reached disk s e' := ⟨heq ▸ h.first, heq ▸ h.linked⟩

theorem Reached.nested {nested : Enumeration} (h : Reached disk s e) (hlink : Links disk s t)
    (hnested : Reached disk t nested) (heq : e'.reads = e.reads ++ nested.reads) : Reached disk s e' where
  first := heq ▸ mem_append_left _ h.first
  linked := by
    intro u hu
    rw [heq] at hu ⊢
    rcases mem_append.1 hu with hold | hnew
    · exact (h.linked u hold).imp_right fun ⟨v, hv, hvu⟩ => ⟨v, mem_append_left _ hv, hvu⟩
    · rcases hnested.linked u hnew with rfl | ⟨v, hv, hvu⟩
      · exact .inr ⟨s, mem_append_left _ h.first, hlink⟩
      · exact .inr ⟨v, mem_append_right _ hv, hvu⟩

theorem scan_reached
    (hf : ∀ t depth nested, f t depth = some nested → Reached disk t nested) : ∀ (ps : List Partition) (depth : Nat)
      (e e' : Enumeration), (∀ p ∈ ps, p.extended = true → Links disk s p.PartitionBegining) → Reached disk s e →
      scan f ps depth e = some e' → Reached disk s e'
  | [], _, _, _, _, h, hscan => by
    cases hscan
    exact h
  | p :: ps, depth, e, e', hlinks, h, hscan => by
    have hrest := fun q hq => hlinks q (mem_cons_of_mem p hq)
    rw [scan] at hscan
    have hcall : Reached disk s (if p.used = true then
        { e with events := e.events ++ [.call .CallBackPartition e.PartitionDPF p] } else e) := by
      split
      · exact h.of_reads (by simp [Enumeration.reads])
      · exact h
    split at hscan
    · rename_i hext
      obtain ⟨nested, hnested, hscan⟩ := bind_eq_some_iff.1 hscan
      refine scan_reached hf ps _ _ _ hrest ?_ hscan
      exact hcall.nested (hlinks p mem_cons_self hext) (hf _ _ _ hnested) (by simp [Enumeration.reads])
    · exact scan_reached hf ps _ _ _ hrest hcall hscan

theorem reached (fuel : Nat) : ∀ (s depth : Nat) (e : Enumeration),
    EnumeratePartitions disk key cb fuel s depth = some e → Reached disk s e := by
  induction fuel with
  | zero =>
    intro s depth e h
    cases h
  | succ fuel ih =>
    intro s depth e h
    have hfirst : ∀ DPF result, Reached disk s ⟨[.ReadSectors s], DPF, result⟩ := fun DPF result =>
      ⟨by simp [Enumeration.reads], by simp [Enumeration.reads]⟩
    rw [EnumeratePartitions] at h
    cases hread : disk s with
    | error code =>
      rw [hread] at h
      cases h
      exact hfirst _ _
    | ok PT =>
      rw [hread] at h
      exact scan_reached ih _ _ _ _ (fun p hp hext => ⟨PT, hread, p, hp, hext, rfl⟩) (hfirst _ _) h

theorem tableAt_ok {PT : Memory} (hread : disk s = .ok PT) : tableAt disk s = table PT := by
  rw [tableAt, hread]

theorem links_iff : Links disk s t ↔ ∃ p ∈ tableAt disk s, p.extended = true ∧ p.PartitionBegining = t := by
  constructor
  · rintro ⟨PT, hread, hp⟩
    rwa [tableAt_ok hread]
  · intro hp
    cases hread : disk s with
    | error code =>
      rw [tableAt, hread] at hp
      obtain ⟨p, hp, -⟩ := hp
      cases hp
    | ok PT =>
      rw [tableAt_ok hread] at hp
      exact ⟨PT, hread, hp⟩

theorem not_extended {p : Partition} (h : p.used = false) : p.extended = false := by
  simp only [Partition.used, ne_eq, decide_not, Bool.not_eq_false', decide_eq_true_eq] at h
  simp [Partition.extended, h]

theorem records_links : ∀ {rs : List Nat}, Records disk E rs → ∀ r ∈ rs, ∀ t, Links disk (E + r) t → t ∈ rs
  | [], _, r, hr, _, _ => absurd hr not_mem_nil
  | [r₀], h, r, hr, t, hlink => by
    obtain ⟨-, drive, link, x, y, htable, hdrive, hl, hx, hy⟩ := h
    obtain rfl := mem_singleton.1 hr
    obtain ⟨p, hp, hext, -⟩ := links_iff.1 hlink
    rw [htable] at hp
    have : p.extended = false := by
      simp only [mem_cons, not_mem_nil, or_false] at hp
      rcases hp with rfl | rfl | rfl | rfl
      exacts [hdrive, not_extended hl, not_extended hx, not_extended hy]
    rw [this] at hext
    cases hext
  | r₀ :: r₁ :: rs, h, r, hr, t, hlink => by
    obtain ⟨⟨-, drive, link, x, y, htable, hdrive, hl, hx, hy⟩, hrest⟩ := h
    rcases mem_cons.1 hr with rfl | hr
    · obtain ⟨p, hp, hext, rfl⟩ := links_iff.1 hlink
      rw [htable] at hp
      simp only [mem_cons, not_mem_nil, or_false] at hp
      rcases hp with rfl | rfl | rfl | rfl
      · simp [hdrive] at hext
      · simp [hl.2]
      · simp [not_extended hx] at hext
      · simp [not_extended hy] at hext
    · exact mem_cons_of_mem r₀ (records_links hrest r hr t hlink)

/-- With two records or more the last one by distance is not read: no entry has its sector as a start. -/
theorem reads_ne {r' : Nat} (hvalid : ValidDisk disk E (r :: r' :: rs))
    (he : EnumeratePartitions disk key cb fuel 0 depth = some e) :
    ¬ ∀ s, s ∈ e.reads ↔ s ∈ sectors E (r :: r' :: rs) := by
  intro hreads
  obtain ⟨pre, ext, post, rest, htable, hext, hplain, hrs⟩ : ∃ pre ext post rest, tableAt disk 0 = pre ++ ext :: post ∧
      (ext.extended = true ∧ ext.PartitionBegining = E) ∧ (∀ p ∈ pre ++ post, p.extended = false) ∧
      r :: r' :: rs = 0 :: rest := by
    rcases hvalid.master with ⟨hnil, -⟩ | h
    · cases hnil
    · exact h
  obtain ⟨rfl, rfl⟩ := List.cons.inj hrs
  have hdistinct := hvalid.distinct
  rw [sectors, nodup_cons] at hdistinct
  obtain ⟨hzero, hdistinct⟩ := hdistinct
  have hE : E ≠ 0 := by
    rintro rfl
    simp at hzero
  obtain ⟨m, hm, hmax⟩ : ∃ m ∈ 0 :: r' :: rs, ∀ q ∈ 0 :: r' :: rs, q ≤ m :=
    ⟨_, max_mem (by simp), fun q hq => le_max_of_mem hq⟩
  have hpos : m ≠ 0 := by
    have hr' : r' ≠ 0 := by
      rintro rfl
      simp at hdistinct
    have := hmax r' (by simp)
    omega
  have hin : E + m ∈ e.reads := (hreads _).2 (.tail _ (List.mem_map_of_mem hm))
  rcases (reached fuel 0 depth e he).linked _ hin with h | ⟨u, hu, hlink⟩
  · omega
  · rcases mem_cons.1 ((hreads u).1 hu) with rfl | hu
    · obtain ⟨p, hp, hpext, hbegin⟩ := links_iff.1 hlink
      rw [htable] at hp
      rcases mem_append.1 hp with hp | hp
      · simp [hplain p (mem_append_left _ hp)] at hpext
      · rcases mem_cons.1 hp with rfl | hp
        · have := hext.2
          omega
        · simp [hplain p (mem_append_right _ hp)] at hpext
    · obtain ⟨q, hq, rfl⟩ := List.mem_map.1 hu
      have := hmax _ (records_links hvalid.records q hq _ hlink)
      omega

/-! ## What it calls -/

def callsOf (DPF : List UInt8) (ps : List Partition) : List Event :=
  (ps.filter Partition.used).map fun p => .call .CallBackPartition DPF p

theorem scan_append {f : Nat → Nat → Option Enumeration} {qs : List Partition} {depth : Nat} : ∀ {ps : List Partition},
    (∀ p ∈ ps, p.extended = false) → ∀ e : Enumeration,
    scan f (ps ++ qs) depth e = scan f qs depth { e with events := e.events ++ callsOf e.PartitionDPF ps }
  | [], _, e => by simp [callsOf]
  | p :: ps, hplain, e => by
    have hp := hplain p (.head _)
    rw [cons_append, scan]
    simp only [hp, Bool.false_eq_true, if_false]
    rw [scan_append fun q hq => hplain q (mem_cons_of_mem p hq)]
    cases hused : p.used <;> simp [callsOf, hused]

theorem scan_plain {ps : List Partition}
    (hplain : ∀ p ∈ ps, p.extended = false) (e : Enumeration) :
    scan f ps depth e = some { e with events := e.events ++ callsOf e.PartitionDPF ps } := by
  have h := @scan_append f [] depth ps hplain e
  rwa [append_nil, scan] at h

theorem run_plain (hsigned : Signed disk s) (hplain : ∀ p ∈ tableAt disk s, p.extended = false)
    (fuel depth : Nat) : EnumeratePartitions disk key cb (fuel + 1) s depth =
      some ⟨.ReadSectors s :: callsOf (devicePath key depth) (tableAt disk s), devicePath key depth, 0⟩ := by
  obtain ⟨PT, hread, -⟩ := hsigned
  rw [tableAt_ok hread] at hplain ⊢
  simp only [EnumeratePartitions, hread]
  rw [scan_plain hplain]
  rfl

theorem run_extended (hsigned : Signed disk 0)
    (htable : tableAt disk 0 = pre ++ ext :: post) (hext : ext.extended = true ∧ ext.PartitionBegining = E)
    (hplain : ∀ p ∈ pre ++ post, p.extended = false) (hrecord : Signed disk E)
    (hlast : ∀ p ∈ tableAt disk E, p.extended = false) (fuel depth : Nat) :
    EnumeratePartitions disk key cb (fuel + 2) 0 depth = some
      ⟨.ReadSectors 0 :: callsOf (devicePath key depth) (pre ++ [ext]) ++
        .ReadSectors E :: callsOf (devicePath key (u32 (depth + 1))) (tableAt disk E ++ post),
        devicePath key (u32 (depth + 1)), 0⟩ := by
  obtain ⟨PT, hread, -⟩ := hsigned
  rw [tableAt_ok hread] at htable
  have hused : ext.used = true := by
    cases h : ext.used
    · simp [not_extended h] at hext
    · rfl
  rw [EnumeratePartitions]
  simp only [hread]
  rw [htable, scan_append fun p hp => hplain p (mem_append_left _ hp), scan]
  simp only [hext.1, hext.2, hused, if_true, run_plain hrecord hlast, bind_some]
  rw [scan_plain fun p hp => hplain p (mem_append_right _ hp)]
  simp [callsOf, hused]

theorem devicePath_ne (key : StorageKey) (depth : Nat) : devicePath key depth ≠ devicePath key (u32 (depth + 1)) := by
  intro h
  have h := append_cancel_left h
  simp only [List.cons.injEq, and_true, true_and] at h
  have h := congrArg UInt8.toNat h
  simp only [UInt8.toNat_ofNat', u32] at h
  omega

/-- With the calls of `A` under one path and those of `B` under another, the enumeration is right if its callback is the
one that is called, or none is, and there is one call at most under each path. -/
theorem correct_iff {a b : List UInt8} {A B : List Partition} (hab : a ≠ b)
    (hreads : ∀ s, s ∈ e.reads ↔ s ∈ sectors E rs)
    (hcalls : e.calls = (A.filter Partition.used).map (fun p => (.CallBackPartition, a, p)) ++
      (B.filter Partition.used).map fun p => (.CallBackPartition, b, p))
    (hused : (usedEntries disk (sectors E rs)).Perm ((A ++ B).filter Partition.used)) :
    Correct disk cb E rs e ↔ (cb = .CallBackPartition ∨ (A ++ B).filter Partition.used = []) ∧
      (A.filter Partition.used).length ≤ 1 ∧ (B.filter Partition.used).length ≤ 1 := by
  have hpaths : (e.calls.map fun c => c.2.1).Nodup ↔
      (A.filter Partition.used).length ≤ 1 ∧ (B.filter Partition.used).length ≤ 1 := by
    rw [hcalls, map_append, List.map_map, List.map_map, nodup_append]
    simp only [Function.comp_def, map_const', nodup_replicate, mem_replicate]
    constructor
    · exact fun h => ⟨h.1, h.2.1⟩
    · exact fun h => ⟨h.1, h.2, fun x hx y hy => hx.2 ▸ hy.2 ▸ hab⟩
  have hfilter : ((e.calls.filter fun c => c.1 = cb).map fun c => c.2.2) =
      if cb = .CallBackPartition then (A ++ B).filter Partition.used else [] := by
    rw [hcalls]
    split
    · rename_i h
      subst h
      simp [List.filter_map, Function.comp_def]
    · rename_i h
      simp [List.filter_map, Function.comp_def, Ne.symm h]
  constructor
  · rintro ⟨-, hperm, hnodup⟩
    refine ⟨?_, hpaths.1 hnodup⟩
    rw [hfilter] at hperm
    by_cases h : cb = .CallBackPartition
    · exact .inl h
    · rw [if_neg h] at hperm
      exact .inr ((hperm.trans hused).nil_eq).symm
  · rintro ⟨hcb, hlengths⟩
    refine ⟨hreads, ?_, hpaths.2 hlengths⟩
    rw [hfilter]
    by_cases h : cb = .CallBackPartition
    · rw [if_pos h]
      exact hused.symm
    · rw [if_neg h]
      rw [hcb.resolve_left h] at hused
      exact hused.symm

theorem extended_unique {pre' post' : List Partition} {ext' : Partition}
    (heq : pre ++ ext :: post = pre' ++ ext' :: post') (hplain : ∀ p ∈ pre ++ post, p.extended = false)
    (hext' : ext'.extended = true) : pre' = pre ∧ ext' = ext ∧ post' = post := by
  have hnot : ext' ∉ pre ++ post := fun h => by simp [hplain ext' h] at hext'
  rcases append_eq_append_iff.1 heq with ⟨as, rfl, has⟩ | ⟨as, rfl, has⟩
  · cases as with
    | nil => simp_all
    | cons a as =>
      obtain ⟨rfl, rfl⟩ := List.cons.inj has
      simp at hnot
  · cases as with
    | nil => simp_all
    | cons a as =>
      obtain ⟨rfl, rfl⟩ := List.cons.inj has
      simp at hnot

theorem correct_iff_suits_record (hvalid : ValidDisk disk E [r])
    (hrun : EnumeratePartitions disk key cb (fuel + 2) 0 depth = some e) :
    Correct disk cb E [r] e ↔ Suits disk cb E [r] := by
  obtain ⟨pre, ext, post, rest, htable, hext, hplain, hrs⟩ : ∃ pre ext post rest,
      tableAt disk 0 = pre ++ ext :: post ∧ (ext.extended = true ∧ ext.PartitionBegining = E) ∧
      (∀ p ∈ pre ++ post, p.extended = false) ∧ [r] = 0 :: rest := by
    rcases hvalid.master with ⟨hnil, -⟩ | h
    · cases hnil
    · exact h
  obtain ⟨rfl, rfl⟩ := List.cons.inj hrs
  have hrecord := hvalid.records
  rw [Records, Nat.add_zero] at hrecord
  obtain ⟨hsigned, drive, link, x, y, hE, hdrive, hlink, hx, hy⟩ := hrecord
  have hlast : ∀ p ∈ tableAt disk E, p.extended = false := by
    rw [hE]
    simp [hdrive, not_extended hlink, not_extended hx, not_extended hy]
  have hused : ext.used = true := by
    cases h : ext.used
    · simp [not_extended h] at hext
    · rfl
  rw [run_extended hvalid.signed htable hext hplain hsigned hlast] at hrun
  obtain rfl := Option.some.inj hrun
  rw [correct_iff (A := pre ++ [ext]) (B := tableAt disk E ++ post) (devicePath_ne key depth)]
  · have hpre : ((pre ++ [ext]).filter Partition.used).length ≤ 1 ↔ ∀ p ∈ pre, p.used = false := by
      simp [filter_append, hused, filter_eq_nil_iff]
    rw [hpre, Suits]
    constructor
    · rintro ⟨hcb, hnone, hone⟩
      refine ⟨hcb.imp_right fun h => ?_, fun pre' ext' post' heq hext' => ?_⟩
      · simp [hused] at h
      · obtain ⟨rfl, rfl, rfl⟩ := extended_unique (htable.symm.trans heq) hplain hext'
        exact ⟨hnone, hone⟩
    · rintro ⟨hcb, hpaths⟩
      refine ⟨hcb.imp_right fun h => ?_, hpaths pre ext post htable hext.1⟩
      simp [h ext (by simp [htable])] at hused
  · simp [Enumeration.reads, callsOf, sectors]
  · simp [Enumeration.calls, callsOf]
  · simp only [usedEntries, sectors, map_cons, map_nil, Nat.add_zero, flatMap_cons, flatMap_nil,
      append_nil, htable]
    rw [← filter_append]
    refine List.Perm.filter _ ?_
    simp only [append_assoc, cons_append, nil_append]
    exact (perm_append_comm.cons ext).append_left pre

theorem correct_iff_suits (hvalid : ValidDisk disk E rs)
    (he : EnumeratePartitions disk key cb fuel 0 depth = some e) : Correct disk cb E rs e ↔ Suits disk cb E rs := by
  have hrun := EnumeratePartitions_mono (Nat.le_add_right fuel 2) he
  match rs with
  | [] =>
    have hplain : ∀ p ∈ tableAt disk 0, p.extended = false := by
      rcases hvalid.master with ⟨-, h⟩ | ⟨_, _, _, _, -, -, -, h⟩
      · exact h
      · cases h
    rw [run_plain hvalid.signed hplain] at hrun
    obtain rfl := Option.some.inj hrun
    rw [correct_iff (A := tableAt disk 0) (B := []) (devicePath_ne key depth)]
    · simp [Suits]
    · simp [Enumeration.reads, callsOf, sectors]
    · simp [Enumeration.calls, callsOf]
    · simp [usedEntries, sectors]
  | [r] =>
    exact correct_iff_suits_record hvalid hrun
  | r :: r' :: rs =>
    constructor
    · exact fun h => absurd h.reads (reads_ne hvalid he)
    · exact fun h => h.2.elim

/-- **The enumeration ends, and is right on valid disks, if following the extended entries never comes back to a sector
and every valid disk suits it.** -/
theorem enumerates_iff (disk : Disk) (key : StorageKey) (cb : CallBack) (depth : Nat) :
    Enumerates disk key cb depth ↔ NoCycle disk ∧ ∀ E rs, ValidDisk disk E rs → Suits disk cb E rs := by
  constructor
  · rintro ⟨rounds, e, hends, hcorrect⟩
    have he := hends rounds le_rfl
    exact ⟨acc_iff_noCycle.1 (acc_of_ends rounds 0 depth e he),
      fun E rs hvalid => (correct_iff_suits hvalid he).1 (hcorrect E rs hvalid)⟩
  · rintro ⟨hno, hsuits⟩
    obtain ⟨rounds, e, he⟩ := @ends_of_acc disk key cb 0 (acc_iff_noCycle.2 hno) depth
    exact ⟨rounds, e, fun fuel hle => EnumeratePartitions_mono hle he,
      fun E rs hvalid => (correct_iff_suits hvalid he).2 (hsuits E rs hvalid)⟩

end

def twoPartitions : Disk := fun _ => .ok fun a =>
  if a = 450 ∨ a = 466 then 0x0C else if a = 510 then 0x55 else if a = 511 then 0xAA else 0

/-- Both are passed with the path of the table. -/
theorem twoPartitions_one_path : ¬ Enumerates twoPartitions ⟨[48], by decide⟩ .CallBackPartition 48 := by
  rintro ⟨rounds, e, hends, hcorrect⟩
  have hvalid : ValidDisk twoPartitions 0 [] :=
    ⟨⟨_, rfl, by decide⟩, .inl ⟨rfl, by decide⟩, trivial, by decide⟩
  have hone : ((tableAt twoPartitions 0).filter Partition.used).length ≤ 1 :=
    ((correct_iff_suits hvalid (hends rounds le_rfl)).1 (hcorrect 0 [] hvalid)).2
  revert hone
  decide

end Storage
