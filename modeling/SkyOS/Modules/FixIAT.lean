import SkyOS.Lib.Bytes
import SkyOS.Modules.ModuleList

/-!
# The import table of an image (`SkyCore/SkyModuleManager.cpp:278`)

`FixIAT` loads the module of each import descriptor and puts the addresses of the functions that are imported by name
into the slots at `FirstThunk`. It leaves a descriptor alone when the count of the module is above 1 then, that is when
the module was loaded already, although the slots are those of this image. (`LoadDLL_ResolveImports` fills them in any
case.)

| here | there |
| --- | --- |
| `Memory` | the bytes from the beginning of an image on |
| an offset | an address in the image |
| `Loader` | the boot loader's images, their loading, and the modules once they are loaded |
| `Failure.fuel` | a table or a string has no end |

A loaded module is not changed, and no module is loaded over the image. What is printed is left out.
-/

namespace Modules

open Machine Bytes List Nat

/-! ## Strings -/

def cstring (m : Memory) (a : Nat) : Nat → Option Name
  | 0 => none
  | fuel + 1 => if m a = 0 then some [] else (cstring m (a + 1) fuel).map (m a :: ·)

def HoldsString (m : Memory) (a : Nat) (s : Name) : Prop := Holds m a (s ++ [0]) ∧ 0 ∉ s
  deriving Decidable

/-! ## What a module exports -/

/-- What the loader leaves in a `LOAD_DLL_INFO` (`LoadDLL.h:65`), and the module's memory. -/
structure LoadedModule where
  image_base : Nat
  export_dir_rva : Nat
  bytes : Memory

namespace LoadedModule

def Base (mod : LoadedModule) : Nat := read32 mod.bytes (mod.export_dir_rva + 16)

def NumberOfFunctions (mod : LoadedModule) : Nat := read32 mod.bytes (mod.export_dir_rva + 20)

def NumberOfNames (mod : LoadedModule) : Nat := read32 mod.bytes (mod.export_dir_rva + 24)

/-- An entry of `AddressOfFunctions`. -/
def functionRva (mod : LoadedModule) (ord : Nat) : Nat :=
  read32 mod.bytes (read32 mod.bytes (mod.export_dir_rva + 28) + 4 * ord)

/-- An entry of `AddressOfNames`. -/
def nameRva (mod : LoadedModule) (i : Nat) : Nat :=
  read32 mod.bytes (read32 mod.bytes (mod.export_dir_rva + 32) + 4 * i)

/-- An entry of `AddressOfNameOrdinal`. -/
def nameOrdinal (mod : LoadedModule) (i : Nat) : Nat :=
  readLE mod.bytes (read32 mod.bytes (mod.export_dir_rva + 36) + 2 * i) 2

/-- The last lines of `MyGetProcAddress_ExportDir` (:842, :845). -/
def functionAddress (mod : LoadedModule) (ord : Nat) : Nat :=
  if ord ≥ mod.NumberOfFunctions then 0 else u32 (mod.functionRva ord + mod.image_base)

/-- `MyGetProcAddress_ExportDir` (`LoadDLL.cpp:791`) of a name at the address `func_name`. A name that is not found
leaves its address in `ord`. -/
def MyGetProcAddress_ExportDir (mod : LoadedModule) (func_name : Nat) (name : Name) : Nat :=
  if mod.export_dir_rva = 0 then 0
  else if func_name < 0x10000 then
    if func_name < mod.Base then 0 else mod.functionAddress (func_name - mod.Base)
  else
    match (List.range mod.NumberOfNames).find? fun i => Holds mod.bytes (mod.nameRva i) (name ++ [0]) with
    | some i => mod.functionAddress (mod.nameOrdinal i)
    | none => mod.functionAddress func_name

def Exports (mod : LoadedModule) (name : Name) (address : Nat) : Prop :=
  mod.export_dir_rva ≠ 0 ∧ ∃ i < mod.NumberOfNames, Holds mod.bytes (mod.nameRva i) (name ++ [0]) ∧
    mod.nameOrdinal i < mod.NumberOfFunctions ∧
    address = u32 (mod.functionRva (mod.nameOrdinal i) + mod.image_base)

/-- Ordinals are of 16 bits, a name is there once, and no function is at address 0. -/
structure Valid (mod : LoadedModule) : Prop where
  ordinals : mod.NumberOfFunctions ≤ 0x10000
  names : ∀ i < mod.NumberOfNames, ∀ j < mod.NumberOfNames, ∀ name,
    Holds mod.bytes (mod.nameRva i) (name ++ [0]) → Holds mod.bytes (mod.nameRva j) (name ++ [0]) → i = j
  addresses : ∀ name, ¬ mod.Exports name 0

end LoadedModule

structure Loader where
  image : Name → Bool
  loads : Name → Loads
  provider : Name → LoadedModule

/-! ## `FixIAT` -/

/-- `LoadModule` (:103), with the record that it returns. -/
def LoadImport (loader : Loader) (m : SkyModuleManager) (dllName : Name) :
    Except Stop (LOAD_DLL_INFO × SkyModuleManager) :=
  m.LoadModuleFromMemory (loader.image dllName) (SkyModuleManager.runLoader (loader.loads dllName)) dllName >>=
    fun (hwnd, m) =>
      match hwnd with
      | some p => m.deref p >>= fun info => .ok (info, m)
      | none => .error .halted

theorem LoadImport_LoadModule (loader : Loader) (m : SkyModuleManager) (dllName : Name) :
    (LoadImport loader m dllName).map Prod.snd =
      m.LoadModule (loader.image dllName) (SkyModuleManager.runLoader (loader.loads dllName)) dllName := by
  unfold LoadImport SkyModuleManager.LoadModule
  cases m.LoadModuleFromMemory _ _ dllName with
  | error stop => rfl
  | ok result =>
    obtain ⟨hwnd, m⟩ := result
    cases hwnd with
    | none => rfl
    | some p =>
      change Except.map Prod.snd (m.deref p >>= _) = (m.deref p >>= _)
      cases m.deref p <;> rfl

inductive Failure where
  | stop (stop : Stop)
  | fuel

/-- `"SkyOSWin32Stub.dll"` -/
def stubName : Name := [0x53, 0x6B, 0x79, 0x4F, 0x53, 0x57, 0x69, 0x6E, 0x33, 0x32, 0x53, 0x74, 0x75, 0x62, 0x2E, 0x64,
  0x6C, 0x6C]

/-- `IMAGE_ORDINAL_FLAG` is not set. -/
def byName (thunk : Nat) : Prop := thunk &&& 0x80000000 = 0
  deriving Decidable

/-- The address of a name that is imported, in an image at the address `image`. -/
def nameAddress (image thunk : Nat) : Nat := u32 (image + thunk + 2)

/-- The loop over the thunks (:359), from the `i`-th on, of the descriptor at `importDescriptor`. -/
def fixThunks (mod : LoadedModule) (image importDescriptor len : Nat) :
    Nat → Memory → Nat → Nat → Option Memory
  | 0, _, _, _ => none
  | fuel + 1, m, pthunk, i =>
    let thunk := read32 m pthunk
    if thunk = 0 then some m
    else if byName thunk then
      match cstring m (thunk + 2) len with
      | none => none
      | some name =>
        let p := mod.MyGetProcAddress_ExportDir (nameAddress image thunk) name
        fixThunks mod image importDescriptor len fuel
          (if p ≠ 0 then write32 m (read32 m (importDescriptor + 16) + 4 * i) p else m) (pthunk + 4) (i + 1)
    else fixThunks mod image importDescriptor len fuel m (pthunk + 4) (i + 1)

/-- The loop over the descriptors (:328). -/
def fixDescriptors (loader : Loader) (image len : Nat) :
    Nat → SkyModuleManager → Memory → Nat → Except Failure (SkyModuleManager × Memory)
  | 0, _, _, _ => .error .fuel
  | fuel + 1, m, bytes, importDescriptor =>
    if read32 bytes (importDescriptor + 16) = 0 then .ok (m, bytes)
    else
      match cstring bytes (read32 bytes (importDescriptor + 12)) len with
      | none => .error .fuel
      | some dllName =>
        if dllName = stubName then fixDescriptors loader image len fuel m bytes (importDescriptor + 20)
        else
          match LoadImport loader m dllName with
          | .error stop => .error (.stop stop)
          | .ok (hwnd, m) =>
            if hwnd.refCount > 1 then fixDescriptors loader image len fuel m bytes (importDescriptor + 20)
            else
              let FirstThunk := read32 bytes (importDescriptor + 16)
              let OriginalFirstThunk := read32 bytes importDescriptor
              let pthunk := if OriginalFirstThunk = 0 then FirstThunk else OriginalFirstThunk
              match fixThunks (loader.provider dllName) image importDescriptor len len bytes pthunk 0 with
              | none => .error .fuel
              | some bytes => fixDescriptors loader image len fuel m bytes (importDescriptor + 20)

/-- The checks of the headers (:286). -/
def HeadersAccepted (m : Memory) : Prop :=
  readLE m 0 2 = 0x5A4D ∧ read32 m 60 ≠ 0 ∧ read32 m (read32 m 60) = 0x4550 ∧ readLE m (read32 m 60 + 4) 2 = 0x14c ∧
    readLE m (read32 m 60 + 22) 2 &&& 0x102 ≠ 0 ∧
    ¬ (read32 m (read32 m 60 + 52) < 0x400000 ∨ read32 m (read32 m 60 + 52) > 0x80000000) ∧
    readLE m (read32 m 60 + 24) 2 = 0x10B
  deriving Decidable

/-- `VirtualAddress` of the import directory. -/
def importDir (m : Memory) : Nat := read32 m (read32 m 60 + 128)

/-- `Size` of the import directory. -/
def importDirSize (m : Memory) : Nat := read32 m (read32 m 60 + 132)

/-- `FixIAT` (:278) of an image at the address `image`; `fuel` is for the tables, `len` for their entries and the
strings. -/
def FixIAT (loader : Loader) (image len fuel : Nat) (m : SkyModuleManager) (bytes : Memory) :
    Except Failure (Bool × SkyModuleManager × Memory) :=
  if ¬ HeadersAccepted bytes then .ok (false, m, bytes)
  else if importDir bytes = 0 ∨ importDirSize bytes = 0 then .ok (false, m, bytes)
  else (fixDescriptors loader image len fuel m bytes (importDir bytes)).map fun result => (true, result)

/-! ## The table of an image

What the import directory of an image says, as lists, and where it is.
-/

structure Thunk where
  value : Nat
  name : Name
deriving DecidableEq

/-- `IMAGE_IMPORT_DESCRIPTOR` (`PEImage.h:829`), the name of the module, and the thunks. -/
structure ImportDescriptor where
  OriginalFirstThunk : Nat
  Name : Nat
  FirstThunk : Nat
  dllName : Modules.Name
  thunks : List Thunk
deriving DecidableEq

def descriptorSize : Nat := 20

def ThunksAt (m : Memory) (a : Nat) : List Thunk → Prop
  | [] => read32 m a = 0
  | t :: ts =>
    read32 m a = t.value ∧ t.value ≠ 0 ∧ (byName t.value → HoldsString m (t.value + 2) t.name) ∧
      ThunksAt m (a + 4) ts

instance decidableThunksAt (m : Memory) : (a : Nat) → (ts : List Thunk) → Decidable (ThunksAt m a ts)
  | a, [] => inferInstanceAs (Decidable (read32 m a = 0))
  | a, _ :: ts =>
    have := decidableThunksAt m (a + 4) ts
    inferInstanceAs (Decidable (_ ∧ _ ∧ (_ → _) ∧ ThunksAt m (a + 4) ts))

namespace ImportDescriptor

def lookup (d : ImportDescriptor) : Nat := if d.OriginalFirstThunk = 0 then d.FirstThunk else d.OriginalFirstThunk

def At (m : Memory) (a : Nat) (d : ImportDescriptor) : Prop :=
  (read32 m a = d.OriginalFirstThunk ∧ read32 m (a + 12) = d.Name ∧ read32 m (a + 16) = d.FirstThunk) ∧
    d.FirstThunk ≠ 0 ∧ HoldsString m d.Name d.dllName ∧ ThunksAt m d.lookup d.thunks
  deriving Decidable

def slots (d : ImportDescriptor) : List Nat := (List.range d.thunks.length).map fun i => d.FirstThunk + 4 * i

end ImportDescriptor

def TableAt (m : Memory) (a : Nat) : List ImportDescriptor → Prop
  | [] => read32 m (a + 16) = 0
  | d :: ds => d.At m a ∧ TableAt m (a + descriptorSize) ds

instance decidableTableAt (m : Memory) : (a : Nat) → (ds : List ImportDescriptor) → Decidable (TableAt m a ds)
  | a, [] => inferInstanceAs (Decidable (read32 m (a + 16) = 0))
  | a, d :: ds =>
    have := decidableTableAt m (a + descriptorSize) ds
    inferInstanceAs (Decidable (d.At m a ∧ TableAt m (a + descriptorSize) ds))

/-! What is read, as ranges: their beginnings and lengths. -/

def stringRead (a : Nat) (s : Name) : Nat × Nat := (a, s.length + 1)

def nameReads (ts : List Thunk) : List (Nat × Nat) :=
  (ts.filter (fun t => byName t.value)).map fun t => stringRead (t.value + 2) t.name

def ImportDescriptor.reads (d : ImportDescriptor) : List (Nat × Nat) :=
  stringRead d.Name d.dllName ::
    (if d.OriginalFirstThunk = 0 then (d.FirstThunk + 4 * d.thunks.length, 4)
      else (d.OriginalFirstThunk, 4 * d.thunks.length + 4)) :: nameReads d.thunks

def tableReads (a : Nat) (ds : List ImportDescriptor) : List (Nat × Nat) :=
  (a, descriptorSize * (ds.length + 1)) :: ds.flatMap ImportDescriptor.reads

def Apart (slot : Nat) (r : Nat × Nat) : Prop := slot + 4 ≤ r.1 ∨ r.1 + r.2 ≤ slot
  deriving Decidable

/-- The slots are no part of what is read, nor of each other. -/
structure SlotsApart (a : Nat) (ds : List ImportDescriptor) : Prop where
  apart : ∀ slot ∈ ds.flatMap ImportDescriptor.slots, ∀ r ∈ tableReads a ds, Apart slot r
  disjoint : (ds.flatMap ImportDescriptor.slots).Pairwise fun slot slot' => Apart slot (slot', 4)

def Placed (image : Nat) (ds : List ImportDescriptor) : Prop :=
  0x10000 ≤ image ∧ ∀ d ∈ ds, ∀ t ∈ d.thunks, byName t.value → image + t.value + 2 < 2 ^ 32

/-- The image, at the address `image`, has this import table at the offset `a`. -/
structure ValidTable (image : Nat) (m : Memory) (a : Nat) (ds : List ImportDescriptor) : Prop extends
    SlotsApart a ds where
  table : TableAt m a ds
  placed : Placed image ds

/-! ## Completeness -/

namespace ImportDescriptor

def Bound (mod : LoadedModule) (m : Memory) (d : ImportDescriptor) : Prop :=
  ∀ i t, d.thunks[i]? = some t → byName t.value → ∀ address, mod.Exports t.name address →
    read32 m (d.FirstThunk + 4 * i) = address

def InSlot (mod : LoadedModule) (d : ImportDescriptor) (x : Nat) : Prop :=
  ∃ i t, d.thunks[i]? = some t ∧ byName t.value ∧ (∃ address, mod.Exports t.name address) ∧
    d.FirstThunk + 4 * i ≤ x ∧ x < d.FirstThunk + 4 * i + 4

end ImportDescriptor

/-- The modules that are imported from are as they should be. -/
def Providers (loader : Loader) (ds : List ImportDescriptor) : Prop :=
  ∀ d ∈ ds, d.dllName ≠ stubName → (loader.provider d.dllName).Valid

/-- Every descriptor but those of the stub is bound, and nothing else is changed. -/
def Complete (loader : Loader) (ds : List ImportDescriptor) (m m' : Memory) : Prop :=
  (∀ d ∈ ds, d.dllName ≠ stubName → d.Bound (loader.provider d.dllName) m') ∧
    ∀ x, (∀ d ∈ ds, d.dllName ≠ stubName → ¬ d.InSlot (loader.provider d.dllName) x) → m' x = m x

/-! ## `FixIAT` on lists -/

/-- What is written over the slots from `slot` on. -/
def fillThunks (mod : LoadedModule) (image : Nat) (m : Memory) (slot : Nat) : List Thunk → Memory
  | [] => m
  | t :: ts =>
    let p := mod.MyGetProcAddress_ExportDir (nameAddress image t.value) t.name
    fillThunks mod image (if byName t.value ∧ p ≠ 0 then write32 m slot p else m) (slot + 4) ts

def fillTable (loader : Loader) (image : Nat) :
    SkyModuleManager → Memory → List ImportDescriptor → Except Stop (SkyModuleManager × Memory)
  | m, bytes, [] => .ok (m, bytes)
  | m, bytes, d :: ds =>
    if d.dllName = stubName then fillTable loader image m bytes ds
    else
      match LoadImport loader m d.dllName with
      | .error stop => .error stop
      | .ok (hwnd, m) =>
        fillTable loader image m (if hwnd.refCount > 1 then bytes
          else fillThunks (loader.provider d.dllName) image bytes d.FirstThunk d.thunks) ds

def skipped (loader : Loader) : SkyModuleManager → List ImportDescriptor → List ImportDescriptor
  | _, [] => []
  | m, d :: ds =>
    if d.dllName = stubName then skipped loader m ds
    else
      match LoadImport loader m d.dllName with
      | .error _ => []
      | .ok (hwnd, m) => if hwnd.refCount > 1 then d :: skipped loader m ds else skipped loader m ds

/-! ## Strings and words elsewhere are as before -/

variable {m m' bytes : Memory} {a len slot fuel i x : Nat} {r : Nat × Nat} {t : Thunk} {ts : List Thunk}
    {d : ImportDescriptor} {mod : LoadedModule}

theorem cstring_of_holds {s : Name} (h : HoldsString m a s) (hlen : s.length < len) :
    cstring m a len = some s := by
  obtain ⟨hholds, hzero⟩ := h
  induction s generalizing a len with
  | nil =>
    obtain ⟨len, rfl⟩ := exists_eq_add_one.2 hlen
    have hend : m a = 0 := (List.cons.inj hholds).1
    rw [cstring, if_pos hend]
  | cons b s ih =>
    obtain ⟨len, rfl⟩ := exists_eq_add_one.2 (zero_lt_of_lt hlen)
    obtain ⟨hhead, htail⟩ := List.cons.inj hholds
    obtain ⟨hb, hzero⟩ := not_or.1 (mt mem_cons.2 hzero)
    rw [cstring, hhead, if_neg (Ne.symm hb), ih (lt_of_succ_lt_succ hlen) htail hzero]
    rfl

theorem HoldsString.congr {s : Name} (h : HoldsString m a s)
    (heq : Set.EqOn m' m (Set.Ico a (a + (s.length + 1)))) : HoldsString m' a s := by
  refine ⟨?_, h.2⟩
  unfold Holds
  rw [length_append, length_singleton, slice_congr heq]
  have hholds := h.1
  unfold Holds at hholds
  rwa [length_append, length_singleton] at hholds

theorem eqOn_write32 (m : Memory) (h : Apart slot r) (v : Nat) :
    Set.EqOn (write32 m slot v) m (Set.Ico r.1 (r.1 + r.2)) := by
  rintro x ⟨hx, hx'⟩
  unfold Apart at h
  exact write32_outside m (by omega) v

theorem nameReads_head (ts : List Thunk) (hby : byName t.value) :
    stringRead (t.value + 2) t.name ∈ nameReads (t :: ts) := by
  unfold nameReads
  rw [filter_cons_of_pos (by simpa using hby)]
  exact .head _

theorem nameReads_tail (t : Thunk) (hr : r ∈ nameReads ts) : r ∈ nameReads (t :: ts) := by
  unfold nameReads at hr ⊢
  rw [filter_cons]
  split
  · exact .tail _ hr
  · exact hr

theorem ThunksAt.congr (h : ThunksAt m a ts)
    (hwords : ∀ k ≤ ts.length, Set.EqOn m' m (Set.Ico (a + 4 * k) (a + 4 * k + 4)))
    (hnames : ∀ r ∈ nameReads ts, Set.EqOn m' m (Set.Ico r.1 (r.1 + r.2))) : ThunksAt m' a ts := by
  induction ts generalizing a with
  | nil =>
    have hword := read32_congr (hwords 0 le_rfl)
    exact hword.trans h
  | cons t ts ih =>
    obtain ⟨hvalue, hne, hname, hrest⟩ := h
    have hword := read32_congr (hwords 0 (zero_le _))
    refine ⟨hword.trans hvalue, hne, fun hby => ?_, ih hrest (fun k hk => ?_) fun r hr => hnames r (nameReads_tail t hr)⟩
    · exact (hname hby).congr (hnames (stringRead (t.value + 2) t.name) (nameReads_head ts hby))
    · have haddr : a + 4 + 4 * k = a + 4 * (k + 1) := by omega
      rw [haddr]
      exact hwords (k + 1) (succ_le_succ hk)

/-! ## The thunks -/

section Thunks

variable {mod : LoadedModule} {image importDescriptor len first : Nat}

/-- The loop fills in the slots, of which none is a part of what it reads later. -/
theorem fixThunks_eq (hfuel : ts.length < fuel)
    (hlen : ∀ t ∈ ts, byName t.value → t.name.length < len) (h : ThunksAt m a ts)
    (hfirst : read32 m (importDescriptor + 16) = first)
    (hwords : ∀ j < ts.length, ∀ k, j < k → k ≤ ts.length → Apart (first + 4 * (i + j)) (a + 4 * k, 4))
    (hnames : ∀ j < ts.length, ∀ r ∈ nameReads ts, Apart (first + 4 * (i + j)) r)
    (hdesc : ∀ j < ts.length, Apart (first + 4 * (i + j)) (importDescriptor + 16, 4)) :
    fixThunks mod image importDescriptor len fuel m a i = some (fillThunks mod image m (first + 4 * i) ts) := by
  induction ts generalizing fuel m a i with
  | nil =>
    obtain ⟨fuel, rfl⟩ := exists_eq_add_one.2 hfuel
    rw [fixThunks, if_pos (show read32 m a = 0 from h)]
    rfl
  | cons t ts ih =>
    obtain ⟨fuel, rfl⟩ := exists_eq_add_one.2 (zero_lt_of_lt hfuel)
    obtain ⟨hvalue, hne, hname, hrest⟩ := h
    -- the rest of the loop, from a memory that agrees on what is read there
    have hnext : ∀ m' : Memory, (m' = m ∨ ∃ v, m' = write32 m (first + 4 * i) v) →
        fixThunks mod image importDescriptor len fuel m' (a + 4) (i + 1) =
          some (fillThunks mod image m' (first + 4 * i + 4) ts) := by
      intro m' hm'
      have hagree : ∀ r, Apart (first + 4 * i) r → Set.EqOn m' m (Set.Ico r.1 (r.1 + r.2)) := by
        intro r hr
        rcases hm' with rfl | ⟨v, rfl⟩
        · exact Set.eqOn_refl _ _
        · exact eqOn_write32 m hr v
      have hslot : ∀ j, first + 4 * (i + 1 + j) = first + 4 * (i + (j + 1)) := by omega
      refine ih (lt_of_succ_lt_succ hfuel) (fun t ht => hlen t (.tail _ ht)) ?_ ?_ ?_ ?_ ?_
      · refine hrest.congr (fun k hk => ?_) fun r hr => ?_
        · have haddr : a + 4 + 4 * k = a + 4 * (k + 1) := by omega
          rw [haddr]
          exact hagree _ (hwords 0 (zero_lt_succ _) (k + 1) (zero_lt_succ _) (succ_le_succ hk))
        · exact hagree r (hnames 0 (zero_lt_succ _) r (nameReads_tail t hr))
      · rw [← hfirst]
        exact read32_congr (hagree _ (hdesc 0 (zero_lt_succ _)))
      · intro j hj k hjk hk
        have haddr : a + 4 + 4 * k = a + 4 * (k + 1) := by omega
        rw [hslot, haddr]
        exact hwords (j + 1) (succ_lt_succ hj) (k + 1) (succ_lt_succ hjk) (succ_le_succ hk)
      · intro j hj r hr
        rw [hslot]
        exact hnames (j + 1) (succ_lt_succ hj) r (nameReads_tail t hr)
      · intro j hj
        rw [hslot]
        exact hdesc (j + 1) (succ_lt_succ hj)
    rw [fixThunks, hvalue, if_neg hne, fillThunks]
    by_cases hby : byName t.value
    · rw [if_pos hby, cstring_of_holds (hname hby) (hlen t mem_cons_self hby)]
      dsimp only
      rw [hfirst]
      by_cases hp : mod.MyGetProcAddress_ExportDir (nameAddress image t.value) t.name ≠ 0
      · rw [if_pos hp, if_pos ⟨hby, hp⟩]
        exact hnext _ (.inr ⟨_, rfl⟩)
      · rw [if_neg hp, if_neg fun h => hp h.2]
        exact hnext _ (.inl rfl)
    · rw [if_neg hby, if_neg fun h => hby h.1]
      exact hnext _ (.inl rfl)

end Thunks

/-! ## What is filled in -/

theorem MyGetProcAddress_ExportDir_lt (mod : LoadedModule) (func_name : Nat) (name : Name) :
    mod.MyGetProcAddress_ExportDir func_name name < 2 ^ 32 := by
  have haddress : ∀ ord, mod.functionAddress ord < 2 ^ 32 := by
    intro ord
    unfold LoadedModule.functionAddress
    split
    · exact Nat.two_pow_pos 32
    · exact u32_lt _
  unfold LoadedModule.MyGetProcAddress_ExportDir
  split
  · exact Nat.two_pow_pos 32
  · split
    · split
      · exact Nat.two_pow_pos 32
      · exact haddress _
    · split <;> exact haddress _

section Fill

variable (mod : LoadedModule) (image : Nat)

def Found (t : Thunk) : Prop :=
  byName t.value ∧ mod.MyGetProcAddress_ExportDir (nameAddress image t.value) t.name ≠ 0

theorem fillThunks_outside
    (h : ∀ i t, ts[i]? = some t → Found mod image t → x < slot + 4 * i ∨ slot + 4 * i + 4 ≤ x) :
    fillThunks mod image m slot ts x = m x := by
  induction ts generalizing m slot with
  | nil => rfl
  | cons t ts ih =>
    have hrest : ∀ i t', ts[i]? = some t' → Found mod image t' → x < slot + 4 + 4 * i ∨ slot + 4 + 4 * i + 4 ≤ x := by
      intro i t' ht' hfound
      have := h (i + 1) t' (by rwa [List.getElem?_cons_succ]) hfound
      omega
    rw [fillThunks, ih hrest]
    split
    · next hfound => exact write32_outside m (h 0 t rfl hfound) _
    · rfl

theorem fillThunks_slot (ht : ts[i]? = some t)
    (hfound : Found mod image t) : read32 (fillThunks mod image m slot ts) (slot + 4 * i) =
      mod.MyGetProcAddress_ExportDir (nameAddress image t.value) t.name := by
  induction ts generalizing m slot i with
  | nil => cases ht
  | cons t' ts ih =>
    cases i with
    | zero =>
      obtain rfl : t' = t := Option.some.inj ht
      -- the slots after it are elsewhere
      have hlater : Set.EqOn (fillThunks mod image m slot (t' :: ts)) (write32 m slot
          (mod.MyGetProcAddress_ExportDir (nameAddress image t'.value) t'.name)) (Set.Ico slot (slot + 4)) := by
        rintro x ⟨hx, hx'⟩
        rw [fillThunks, fillThunks_outside mod image fun j _ _ _ => .inl (by omega),
          if_pos ⟨hfound.1, hfound.2⟩]
      exact (read32_congr hlater).trans
        (read32_write32_self m slot (MyGetProcAddress_ExportDir_lt mod _ t'.name))
    | succ i =>
      have haddr : slot + 4 * (i + 1) = slot + 4 + 4 * i := by omega
      rw [haddr, fillThunks]
      exact ih ht

theorem fillThunks_eqOn (m : Memory)
    (h : ∀ i < ts.length, Apart (slot + 4 * i) r) :
    Set.EqOn (fillThunks mod image m slot ts) m (Set.Ico r.1 (r.1 + r.2)) := by
  rintro x ⟨hx, hx'⟩
  refine fillThunks_outside mod image fun i t ht _ => ?_
  have := h i (List.getElem?_eq_some_iff.1 ht).1
  unfold Apart at this
  omega

end Fill

/-! ## The descriptors -/

theorem mem_slots (hi : i < d.thunks.length) : d.FirstThunk + 4 * i ∈ d.slots :=
  mem_map.2 ⟨i, mem_range.2 hi, rfl⟩

theorem ImportDescriptor.At.congr (h : d.At m a)
    (hself : Set.EqOn m' m (Set.Ico a (a + descriptorSize)))
    (hreads : ∀ r ∈ d.reads, Set.EqOn m' m (Set.Ico r.1 (r.1 + r.2)))
    (hslots : ∀ slot ∈ d.slots, Set.EqOn m' m (Set.Ico slot (slot + 4))) : d.At m' a := by
  obtain ⟨⟨horiginal, hname, hfirst⟩, hne, hstring, hthunks⟩ := h
  have hfield : ∀ k ≤ 16, read32 m' (a + k) = read32 m (a + k) := by
    intro k hk
    refine read32_congr fun x hx => hself ⟨?_, ?_⟩
    · have := hx.1
      omega
    · have := hx.2
      unfold descriptorSize
      omega
  refine ⟨⟨(hfield 0 (by omega)).trans horiginal, (hfield 12 (by omega)).trans hname,
    (hfield 16 (by omega)).trans hfirst⟩, hne, hstring.congr (hreads _ (.head _)),
    hthunks.congr (fun k hk => ?_) fun r hr => hreads r (.tail _ (.tail _ hr))⟩
  have harray := hreads _ (.tail _ (.head _))
  unfold lookup
  split at harray
  · next hzero =>
    rw [if_pos hzero]
    rcases Nat.lt_or_eq_of_le hk with hk | rfl
    · exact hslots _ (mem_slots hk)
    · exact harray
  · next hzero =>
    rw [if_neg hzero]
    intro x hx
    refine harray ⟨?_, ?_⟩
    · have := hx.1
      dsimp only
      omega
    · have := hx.2
      omega

theorem TableAt.congr {ds : List ImportDescriptor} (h : TableAt m a ds)
    (hself : Set.EqOn m' m (Set.Ico a (a + descriptorSize * (ds.length + 1))))
    (hreads : ∀ r ∈ ds.flatMap ImportDescriptor.reads, Set.EqOn m' m (Set.Ico r.1 (r.1 + r.2)))
    (hslots : ∀ slot ∈ ds.flatMap ImportDescriptor.slots, Set.EqOn m' m (Set.Ico slot (slot + 4))) :
    TableAt m' a ds := by
  unfold descriptorSize at hself
  induction ds generalizing a with
  | nil =>
    refine (read32_congr fun x hx => hself ⟨?_, ?_⟩).trans h
    · have := hx.1
      omega
    · have := hx.2
      rw [length_nil]
      omega
  | cons d ds ih =>
    rw [length_cons] at hself
    rw [flatMap_cons] at hreads hslots
    refine ⟨h.1.congr (fun x hx => hself ⟨hx.1, ?_⟩) (fun r hr => hreads r (mem_append_left _ hr))
      fun slot hslot => hslots slot (mem_append_left _ hslot), ih h.2 (fun x hx => hself ⟨?_, ?_⟩)
      (fun r hr => hreads r (mem_append_right _ hr)) fun slot hslot => hslots slot (mem_append_right _ hslot)⟩
    · have := hx.2
      unfold descriptorSize at this
      omega
    · have := hx.1
      unfold descriptorSize at this
      omega
    · have := hx.2
      unfold descriptorSize at this
      omega

/-- The entries and the strings are of fewer than `len` thunks and bytes. -/
def Short (len : Nat) (ds : List ImportDescriptor) : Prop :=
  ∀ d ∈ ds, d.dllName.length < len ∧ d.thunks.length < len ∧ ∀ t ∈ d.thunks, byName t.value → t.name.length < len

section Table

variable {a : Nat} {d : ImportDescriptor} {ds : List ImportDescriptor}

theorem SlotsApart.tail (h : SlotsApart a (d :: ds)) : SlotsApart (a + descriptorSize) ds := by
  obtain ⟨hapart, hdisjoint⟩ := h
  rw [flatMap_cons] at hapart hdisjoint
  refine ⟨fun slot hslot r hr => ?_, (pairwise_append.1 hdisjoint).2.1⟩
  rcases mem_cons.1 hr with rfl | hr
  · have := hapart slot (mem_append_right _ hslot) _ (.head _)
    unfold Apart descriptorSize at *
    rw [length_cons] at this
    omega
  · refine hapart slot (mem_append_right _ hslot) r (.tail _ ?_)
    rw [flatMap_cons]
    exact mem_append_right _ hr

theorem SlotsApart.table_fillThunks (h : SlotsApart a (d :: ds)) (mod : LoadedModule) (image : Nat)
    (htable : TableAt m (a + descriptorSize) ds) :
    TableAt (fillThunks mod image m d.FirstThunk d.thunks) (a + descriptorSize) ds := by
  obtain ⟨hapart, hdisjoint⟩ := h
  rw [flatMap_cons] at hapart hdisjoint
  refine htable.congr ?_ (fun r hr => ?_) fun slot hslot => ?_
  · refine fillThunks_eqOn mod image m (r := (_, _)) fun i hi => ?_
    have := hapart _ (mem_append_left _ (mem_slots hi)) _ (.head _)
    unfold Apart descriptorSize at *
    rw [length_cons] at this
    omega
  · refine fillThunks_eqOn mod image m fun i hi => ?_
    refine hapart _ (mem_append_left _ (mem_slots hi)) r (.tail _ ?_)
    rw [flatMap_cons]
    exact mem_append_right _ hr
  · refine fillThunks_eqOn mod image m (r := (slot, 4)) fun i hi => ?_
    exact (pairwise_append.1 hdisjoint).2.2 _ (mem_slots hi) slot hslot

theorem SlotsApart.fixThunks_eq (h : SlotsApart a (d :: ds)) (mod : LoadedModule) {image : Nat}
    (hshort : Short len (d :: ds)) (hd : d.At m a) :
    fixThunks mod image a len len m d.lookup 0 = some (fillThunks mod image m d.FirstThunk d.thunks) := by
  obtain ⟨hapart, hdisjoint⟩ := h
  obtain ⟨-, hlen, hnames⟩ := hshort d (.head _)
  have hfirst : read32 m (a + 16) = d.FirstThunk := hd.1.2.2
  have hslot : ∀ j < d.thunks.length, ∀ r ∈ tableReads a (d :: ds), Apart (d.FirstThunk + 4 * (0 + j)) r := by
    intro j hj r hr
    rw [Nat.zero_add]
    refine hapart _ ?_ r hr
    rw [flatMap_cons]
    exact mem_append_left _ (mem_slots hj)
  have hown : ∀ r ∈ d.reads, r ∈ tableReads a (d :: ds) := by
    intro r hr
    refine .tail _ ?_
    rw [flatMap_cons]
    exact mem_append_left _ hr
  change _ = some (fillThunks mod image m (d.FirstThunk + 4 * 0) d.thunks)
  refine Modules.fixThunks_eq hlen hnames hd.2.2.2 hfirst (fun j hj k hjk hk => ?_) (fun j hj r hr => ?_) fun j hj => ?_
  · have harray := hslot j hj _ (hown _ (.tail _ (.head _)))
    unfold ImportDescriptor.lookup
    unfold Apart at *
    split at harray
    · next hzero =>
      rw [if_pos hzero]
      omega
    · next hzero =>
      rw [if_neg hzero]
      omega
  · exact hslot j hj r (hown r (.tail _ (.tail _ hr)))
  · have := hslot j hj _ (.head _)
    unfold Apart descriptorSize at *
    rw [length_cons] at this
    omega

end Table

/-- **FixIAT on memory** goes through the table, and does what `fillTable` does. -/
theorem fixDescriptors_eq {loader : Loader} {image : Nat} {m : SkyModuleManager}
    {ds : List ImportDescriptor} (hfuel : ds.length < fuel) (hshort : Short len ds) (hapart : SlotsApart a ds)
    (h : TableAt bytes a ds) : fixDescriptors loader image len fuel m bytes a =
      (fillTable loader image m bytes ds).mapError .stop := by
  induction ds generalizing fuel m bytes a with
  | nil =>
    obtain ⟨fuel, rfl⟩ := exists_eq_add_one.2 hfuel
    rw [fixDescriptors, if_pos (show read32 bytes (a + 16) = 0 from h)]
    rfl
  | cons d ds ih =>
    obtain ⟨fuel, rfl⟩ := exists_eq_add_one.2 (zero_lt_of_lt hfuel)
    obtain ⟨hd, hrest⟩ := h
    have horiginal : read32 bytes a = d.OriginalFirstThunk := hd.1.1
    have hname : read32 bytes (a + 12) = d.Name := hd.1.2.1
    have hfirst : read32 bytes (a + 16) = d.FirstThunk := hd.1.2.2
    have hnext : ∀ m : SkyModuleManager, ∀ bytes' : Memory, TableAt bytes' (a + descriptorSize) ds →
        fixDescriptors loader image len fuel m bytes' (a + 20) = (fillTable loader image m bytes' ds).mapError .stop :=
      fun m bytes' h' => ih (lt_of_succ_lt_succ hfuel) (fun d hd => hshort d (.tail _ hd))
        hapart.tail h'
    rw [fixDescriptors, hfirst, if_neg hd.2.1, hname, cstring_of_holds hd.2.2.1 (hshort d mem_cons_self).1, fillTable]
    dsimp only
    by_cases hstub : d.dllName = stubName
    · rw [if_pos hstub, if_pos hstub]
      exact hnext m bytes hrest
    rw [if_neg hstub, if_neg hstub]
    cases LoadImport loader m d.dllName with
    | error stop => rfl
    | ok result =>
      obtain ⟨hwnd, m⟩ := result
      dsimp only
      by_cases hcount : hwnd.refCount > 1
      · rw [if_pos hcount, if_pos hcount]
        exact hnext m bytes hrest
      · rw [if_neg hcount, if_neg hcount, horiginal]
        have hthunks : fixThunks (loader.provider d.dllName) image a len len bytes
            (if d.OriginalFirstThunk = 0 then d.FirstThunk else d.OriginalFirstThunk) 0 = _ :=
          hapart.fixThunks_eq (loader.provider d.dllName) hshort hd
        rw [hthunks]
        exact hnext m _ (hapart.table_fillThunks (loader.provider d.dllName) image hrest)

/-! ## What is exported -/

/-- The search finds what is exported, and nothing else. -/
theorem LoadedModule.Valid.exports_iff (h : mod.Valid) {func_name : Nat}
    (haddress : 0x10000 ≤ func_name) {name : Name} {address : Nat} (hne : address ≠ 0) :
    mod.Exports name address ↔ mod.MyGetProcAddress_ExportDir func_name name = address := by
  have hordinals := h.ordinals
  unfold MyGetProcAddress_ExportDir functionAddress
  constructor
  · rintro ⟨hdir, i, hi, hname, hord, rfl⟩
    rw [if_neg hdir, if_neg (by omega)]
    cases hfind : (List.range mod.NumberOfNames).find? fun i => Holds mod.bytes (mod.nameRva i) (name ++ [0]) with
    | none =>
      have hnot := List.find?_eq_none.1 hfind i (mem_range.2 hi)
      exact absurd hname (by simpa using hnot)
    | some j =>
      have hj := mem_range.1 (List.mem_of_find?_eq_some hfind)
      have hname' : Holds mod.bytes (mod.nameRva j) (name ++ [0]) := by simpa using List.find?_some hfind
      obtain rfl := h.names i hi j hj name hname hname'
      dsimp only
      rw [if_neg (by omega)]
  · intro hresult
    split at hresult
    · omega
    · next hdir =>
      rw [if_neg (by omega)] at hresult
      cases hfind : (List.range mod.NumberOfNames).find? fun i => Holds mod.bytes (mod.nameRva i) (name ++ [0]) with
      | none =>
        rw [hfind] at hresult
        dsimp only at hresult
        rw [if_pos (by omega)] at hresult
        omega
      | some i =>
        rw [hfind] at hresult
        dsimp only at hresult
        split at hresult
        · omega
        · next hord =>
          refine ⟨hdir, i, mem_range.1 (List.mem_of_find?_eq_some hfind), ?_, by omega, hresult.symm⟩
          simpa using List.find?_some hfind

theorem LoadedModule.Valid.ne_zero (h : mod.Valid) {name : Name} {address : Nat}
    (hexports : mod.Exports name address) : address ≠ 0 := by
  rintro rfl
  exact h.addresses name hexports

section Complete

variable {image : Nat} {d : ImportDescriptor} {mod : LoadedModule}

theorem le_nameAddress {thunk : Nat} (himage : 0x10000 ≤ image) (hplaced : image + thunk + 2 < 2 ^ 32) :
    0x10000 ≤ nameAddress image thunk := by
  unfold nameAddress
  rw [u32_of_lt hplaced]
  omega

section

variable (h : mod.Valid) (himage : 0x10000 ≤ image)
include h himage

theorem found_iff (hplaced : byName t.value → image + t.value + 2 < 2 ^ 32) :
    Found mod image t ↔ byName t.value ∧ ∃ address, mod.Exports t.name address := by
  refine and_congr_right fun hby => ?_
  have haddress := le_nameAddress himage (hplaced hby)
  constructor
  · intro hne
    exact ⟨_, (h.exports_iff haddress hne).2 rfl⟩
  · rintro ⟨address, hexports⟩
    rw [(h.exports_iff haddress (h.ne_zero hexports)).1 hexports]
    exact h.ne_zero hexports

theorem bound_fillThunks (hplaced : ∀ t ∈ d.thunks, byName t.value → image + t.value + 2 < 2 ^ 32) (m : Memory) :
    d.Bound mod (fillThunks mod image m d.FirstThunk d.thunks) := by
  intro i t ht hby address hexports
  have hplaced := hplaced t (List.mem_of_getElem? ht)
  have haddress := le_nameAddress himage (hplaced hby)
  rw [fillThunks_slot mod image ht ((found_iff h himage hplaced).2 ⟨hby, address, hexports⟩)]
  exact (h.exports_iff haddress (h.ne_zero hexports)).1 hexports

theorem fillThunks_notInSlot (hplaced : ∀ t ∈ d.thunks, byName t.value → image + t.value + 2 < 2 ^ 32) (m : Memory)
    (hx : ¬ d.InSlot mod x) : fillThunks mod image m d.FirstThunk d.thunks x = m x := by
  refine fillThunks_outside mod image fun i t ht hfound => ?_
  obtain ⟨hby, hexports⟩ := (found_iff h himage (hplaced t (List.mem_of_getElem? ht))).1 hfound
  by_contra hin
  exact hx ⟨i, t, ht, hby, hexports, by omega, by omega⟩

end

theorem ImportDescriptor.Bound.congr (h : d.Bound mod m)
    (hslots : ∀ slot ∈ d.slots, Set.EqOn m' m (Set.Ico slot (slot + 4))) : d.Bound mod m' := by
  intro i t ht hby address hexports
  rw [read32_congr (hslots _ (mem_slots (List.getElem?_eq_some_iff.1 ht).1))]
  exact h i t ht hby address hexports

end Complete

/-! ## Which descriptors are left alone -/

open SkyModuleManager in
theorem LoadImport_inv {loader : Loader} {m m' : SkyModuleManager} {dllName : Name} {info : LOAD_DLL_INFO}
    (h : m.Inv) (hfits : m.Fits (.fromMemory dllName (loader.image dllName) (loader.loads dllName)))
    (hrun : LoadImport loader m dllName = .ok (info, m')) : m'.Inv ∧ ∀ name, m'.balance name ≤ m.balance name +
      (Loads.load dllName (loader.image dllName) (loader.loads dllName) (.done true)).occurrences name := by
  obtain ⟨⟨himage, hacyclic, -⟩, hbound⟩ := hfits
  have hends := h.loadModuleFromMemory himage hbound
    fun m₁ hinv₁ hbound₁ => hinv₁.runLoader (loader.loads dllName) hacyclic hbound₁
  unfold LoadImport at hrun
  cases hload : m.LoadModuleFromMemory (loader.image dllName) (runLoader (loader.loads dllName)) dllName with
  | error stop =>
    rw [hload] at hrun
    cases hrun
  | ok result =>
    obtain ⟨hwnd, m₁⟩ := result
    rw [hload] at hrun hends
    obtain ⟨-, hinv, hgrows⟩ := hends
    cases hwnd with
    | none => cases hrun
    | some p =>
      change (m₁.deref p >>= _) = _ at hrun
      cases hderef : m₁.deref p with
      | error stop =>
        rw [hderef] at hrun
        cases hrun
      | ok info₁ =>
        rw [hderef] at hrun
        cases hrun
        exact ⟨hinv, fun name => (hgrows.balance name).2⟩

open SkyModuleManager in
/-- **The count of a load** is above 1 if and only if the module was loaded before. -/
theorem LoadImport_refCount {loader : Loader} {m m' : SkyModuleManager} {dllName : Name} {info : LOAD_DLL_INFO}
    (h : m.Inv) (hfits : m.Fits (.fromMemory dllName (loader.image dllName) (loader.loads dllName)))
    (hrun : LoadImport loader m dllName = .ok (info, m')) : info.refCount > 1 ↔ 0 < m.balance dllName := by
  obtain ⟨⟨himage, hacyclic, -⟩, hbound⟩ := hfits
  have hfound := h.find dllName
  unfold LoadImport SkyModuleManager.LoadModuleFromMemory at hrun
  cases hfind : m.FindLoadedModule dllName m.m_moduleList with
  | error stop =>
    rw [hfind] at hrun
    cases hrun
  | ok found =>
    rw [hfind] at hrun hfound
    cases found with
    | some p =>
      obtain ⟨hp, info₀, hinfo, rfl⟩ := hfound
      obtain ⟨_, hinfo', hbalance, hpos⟩ := h.live p hp
      rw [hinfo] at hinfo'
      cases hinfo'
      change ((m.deref p >>= _) >>= _) = _ at hrun
      rw [deref, hinfo] at hrun
      -- the record has been found and counts one more
      have hcounted : ((m.setRefCount p info₀ (toInt32 (info₀.refCount + 1))).addBalance info₀.moduleName 1).deref p =
          .ok { info₀ with refCount := toInt32 (info₀.refCount + 1) } := by
        simp only [deref, setRefCount, addBalance, Function.update_self]
      change (SkyModuleManager.deref _ p >>= _) = _ at hrun
      rw [hcounted] at hrun
      cases hrun
      have hbound := hbound info₀.moduleName
      simp only [Loads.occurrences, if_true] at hbound
      dsimp only
      rw [toInt32_of_isInt32 (by unfold IsInt32; omega)]
      omega
    | none =>
      split at hrun
      · next hthere =>
        obtain ⟨hname, hself⟩ := himage hthere
        change ((m.create dllName >>= _) >>= _) = _ at hrun
        rw [create, if_pos hname] at hrun
        let m₁ : SkyModuleManager :=
          { m with heap := Function.update m.heap m.next (some ⟨dllName, 1⟩), next := m.next + 1 }
        change ((runLoader (loader.loads dllName) m₁ >>= _) >>= _) = _ at hrun
        have hinv₁ : m₁.Inv := by
          refine h.heap_ext ?_ rfl rfl (le_succ _)
          intro p hp
          exact Function.update_of_ne (Nat.ne_of_lt (h.old p hp)) ..
        have hloaded := hinv₁.runLoader (loader.loads dllName) hacyclic
          (hbound.mono fun name => by simp only [Loads.occurrences]; omega)
        cases hload : runLoader (loader.loads dllName) m₁ with
        | error stop =>
          rw [hload] at hrun
          cases hrun
        | ok result =>
          obtain ⟨ok, m₂⟩ := result
          rw [hload] at hrun hloaded
          obtain ⟨-, -, hgrows⟩ := hloaded
          -- the loader has left the new record alone
          have hkept := (hgrows.kept m.next (lt_succ_self _) fun hp => Nat.lt_irrefl _ (h.old _ hp)).1
          have hnew : m₂.heap m.next = some ⟨dllName, 1⟩ := hkept.trans (Function.update_self ..)
          cases ok with
          | false => cases hrun
          | true =>
            change (SkyModuleManager.deref _ m.next >>= _) = _ at hrun
            have hderef : ({ m₂ with m_moduleList := m₂.m_moduleList ++ [m.next] }.addBalance dllName 1).deref m.next =
                .ok ⟨dllName, 1⟩ := by
              simp only [deref, addBalance, hnew]
            rw [hderef] at hrun
            cases hrun
            rw [hfound]
            exact iff_of_false (Int.lt_irrefl 1) (Int.lt_irrefl 0)
      · cases hrun

/-! ## Whole tables -/

section Whole

variable {loader : Loader} {image a : Nat} {ds : List ImportDescriptor}

theorem skipped_subset (loader : Loader) (m : SkyModuleManager) (ds : List ImportDescriptor) :
    ∀ d ∈ skipped loader m ds, d ∈ ds ∧ d.dllName ≠ stubName := by
  induction ds generalizing m with
  | nil => exact fun d hd => absurd hd not_mem_nil
  | cons d ds ih =>
    intro d' hd'
    have hrest : ∀ m, d' ∈ skipped loader m ds → d' ∈ d :: ds ∧ d'.dllName ≠ stubName :=
      fun m h => ⟨.tail _ (ih m d' h).1, (ih m d' h).2⟩
    unfold skipped at hd'
    split at hd'
    · exact hrest _ hd'
    · next hstub =>
      split at hd'
      · cases hd'
      · split at hd'
        · rcases mem_cons.1 hd' with rfl | hd'
          · exact ⟨.head _, hstub⟩
          · exact hrest _ hd'
        · exact hrest _ hd'

theorem ImportDescriptor.InSlot.mem_slots (h : d.InSlot mod x) :
    ∃ slot ∈ d.slots, slot ≤ x ∧ x < slot + 4 := by
  obtain ⟨i, t, ht, -, -, hx, hx'⟩ := h
  exact ⟨_, Modules.mem_slots (List.getElem?_eq_some_iff.1 ht).1, hx, hx'⟩

/-- Only slots are changed; and each descriptor is bound if and only if those that are left alone were. -/
theorem fillTable_complete (hvalid : Providers loader ds) (hapart : SlotsApart a ds) (hplaced : Placed image ds)
    {m m' : SkyModuleManager} {bytes' : Memory}
    (hrun : fillTable loader image m bytes ds = .ok (m', bytes')) :
    (∀ x, (∀ d ∈ ds, d.dllName ≠ stubName → ¬ d.InSlot (loader.provider d.dllName) x) → bytes' x = bytes x) ∧
      ((∀ d ∈ ds, d.dllName ≠ stubName → d.Bound (loader.provider d.dllName) bytes') ↔
        ∀ d ∈ skipped loader m ds, d.Bound (loader.provider d.dllName) bytes) := by
  induction ds generalizing m bytes a with
  | nil =>
    cases hrun
    exact ⟨fun x _ => rfl, fun _ d hd => absurd hd not_mem_nil, fun _ d hd => absurd hd not_mem_nil⟩
  | cons d ds ih =>
    have ih := fun (m₁ : SkyModuleManager) (bytes₁ : Memory)
        (h : fillTable loader image m₁ bytes₁ ds = .ok (m', bytes')) =>
      ih (fun d hd => hvalid d (.tail _ hd)) hapart.tail
        ⟨hplaced.1, fun d hd => hplaced.2 d (.tail _ hd)⟩ h
    -- the slots of the first descriptor are none of the others'
    have hown : ∀ (m₁ : SkyModuleManager) (bytes₁ : Memory), fillTable loader image m₁ bytes₁ ds = .ok (m', bytes') →
        ∀ slot ∈ d.slots, Set.EqOn bytes' bytes₁ (Set.Ico slot (slot + 4)) := by
      intro m₁ bytes₁ h slot hslot x hx
      refine (ih m₁ bytes₁ h).1 x fun d' hd' _ hin => ?_
      obtain ⟨slot', hslot', hle, hlt⟩ := hin.mem_slots
      have hdisjoint := hapart.disjoint
      rw [flatMap_cons, pairwise_append] at hdisjoint
      have := hdisjoint.2.2 slot hslot slot' (mem_flatMap.2 ⟨d', hd', hslot'⟩)
      have := hx.1
      have := hx.2
      unfold Apart at *
      omega
    unfold fillTable at hrun
    unfold skipped
    by_cases hstub : d.dllName = stubName
    · rw [if_pos hstub] at hrun ⊢
      obtain ⟨hothers, hiff⟩ := ih m bytes hrun
      refine ⟨fun x hx => hothers x fun d' hd' => hx d' (.tail _ hd'), ?_⟩
      rw [← hiff]
      refine ⟨fun h d' hd' => h d' (.tail _ hd'), fun h d' hd' hne => ?_⟩
      rcases mem_cons.1 hd' with rfl | hd'
      · exact absurd hstub hne
      · exact h d' hd' hne
    · rw [if_neg hstub] at hrun ⊢
      cases hload : LoadImport loader m d.dllName with
      | error stop =>
        rw [hload] at hrun
        cases hrun
      | ok result =>
        obtain ⟨hwnd, m₁⟩ := result
        rw [hload] at hrun
        dsimp only at hrun ⊢
        by_cases hcount : hwnd.refCount > 1
        · rw [if_pos hcount] at hrun ⊢
          obtain ⟨hothers, hiff⟩ := ih m₁ bytes hrun
          refine ⟨fun x hx => hothers x fun d' hd' => hx d' (.tail _ hd'), ?_⟩
          have hsame := hown m₁ bytes hrun
          rw [forall_mem_cons, forall_mem_cons, hiff]
          refine and_congr_left fun _ => ⟨fun h => (h hstub).congr fun slot hslot => (hsame slot hslot).symm,
            fun h _ => h.congr hsame⟩
        · rw [if_neg hcount] at hrun ⊢
          obtain ⟨hothers, hiff⟩ := ih m₁ _ hrun
          have hplaced' := hplaced.2 d (.head _)
          have hvalid' := hvalid d (.head _) hstub
          have hfilled : d.Bound (loader.provider d.dllName) bytes' :=
            (bound_fillThunks hvalid' hplaced.1 hplaced' bytes).congr (hown m₁ _ hrun)
          have hrest : ∀ d' ∈ skipped loader m₁ ds, ∀ slot ∈ d'.slots,
              Set.EqOn (fillThunks (loader.provider d.dllName) image bytes d.FirstThunk d.thunks) bytes
                (Set.Ico slot (slot + 4)) := by
            intro d' hd' slot hslot
            have hdisjoint := hapart.disjoint
            rw [flatMap_cons, pairwise_append] at hdisjoint
            refine fillThunks_eqOn _ image bytes (r := (slot, 4)) fun i hi => ?_
            exact hdisjoint.2.2 _ (mem_slots hi) slot
              (mem_flatMap.2 ⟨d', (skipped_subset loader m₁ ds d' hd').1, hslot⟩)
          refine ⟨fun x hx => ?_, ?_⟩
          · rw [hothers x fun d' hd' => hx d' (mem_cons_of_mem _ hd')]
            exact fillThunks_notInSlot hvalid' hplaced.1 hplaced' bytes (hx d (.head _) hstub)
          · rw [forall_mem_cons, and_iff_right fun _ => hfilled, hiff]
            exact ⟨fun h d' hd' => (h d' hd').congr fun slot hslot => (hrest d' hd' slot hslot).symm,
              fun h d' hd' => (h d' hd').congr (hrest d' hd')⟩

/-- **FixIAT on lists.** On an image that is accepted, the walk through memory ends, and does what `fillTable` does. -/
theorem FixIAT_eq {m : SkyModuleManager} (haccepted : HeadersAccepted bytes)
    (hdir : importDir bytes ≠ 0 ∧ importDirSize bytes ≠ 0) (htable : ValidTable image bytes (importDir bytes) ds)
    (hfuel : ds.length < fuel) (hshort : Short len ds) : FixIAT loader image len fuel m bytes =
      ((fillTable loader image m bytes ds).mapError .stop).map fun result => (true, result) := by
  unfold FixIAT
  rw [if_neg (not_not.2 haccepted), if_neg (not_or.2 hdir),
    fixDescriptors_eq hfuel hshort htable.toSlotsApart htable.table]

theorem FixIAT_true {m m' : SkyModuleManager} {bytes' : Memory}
    (hrun : FixIAT loader image len fuel m bytes = .ok (true, m', bytes'))
    (htable : ValidTable image bytes (importDir bytes) ds) (hfuel : ds.length < fuel) (hshort : Short len ds) :
    fillTable loader image m bytes ds = .ok (m', bytes') := by
  have haccepted : HeadersAccepted bytes ∧ importDir bytes ≠ 0 ∧ importDirSize bytes ≠ 0 := by
    unfold FixIAT at hrun
    split at hrun
    · cases hrun
    · next haccepted =>
      split at hrun
      · cases hrun
      · next hdir => exact ⟨not_not.1 haccepted, not_or.1 hdir⟩
  rw [FixIAT_eq haccepted.1 haccepted.2 htable hfuel hshort] at hrun
  cases hfill : fillTable loader image m bytes ds with
  | error stop =>
    rw [hfill] at hrun
    cases hrun
  | ok result =>
    rw [hfill] at hrun
    cases hrun
    rfl

/-- **FixIAT.** When it returns true the import table is complete if and only if the slots of the descriptors that were
left alone had the right addresses before. -/
theorem FixIAT_complete_iff (hvalid : Providers loader ds) {len fuel : Nat} {m m' : SkyModuleManager}
    {bytes bytes' : Memory} (htable : ValidTable image bytes (importDir bytes) ds)
    (hfuel : ds.length < fuel) (hshort : Short len ds)
    (hrun : FixIAT loader image len fuel m bytes = .ok (true, m', bytes')) :
    Complete loader ds bytes bytes' ↔ ∀ d ∈ skipped loader m ds, d.Bound (loader.provider d.dllName) bytes := by
  obtain ⟨hothers, hiff⟩ := fillTable_complete hvalid htable.toSlotsApart htable.placed
    (FixIAT_true hrun htable hfuel hshort)
  unfold Complete
  rw [and_iff_left hothers, hiff]

end Whole

/-! ## One import -/

def importer : Memory := fun x =>
  ([(0, 0x4D), (1, 0x5A), (60, 64), (64, 0x50), (65, 0x45), (68, 0x4C), (69, 0x01), (86, 0x02), (88, 0x0B), (89, 0x01),
    (118, 0x40), (193, 0x01), (196, 40), (256, 0x40), (257, 0x01), (268, 0x54), (269, 0x01), (272, 0x68), (273, 0x01),
    (320, 0x7C), (321, 0x01), (340, 0x61), (360, 0x7C), (361, 0x01), (382, 0x66)].lookup x).getD 0

def importerTable : List ImportDescriptor := [⟨320, 340, 360, [0x61], [⟨380, [0x66]⟩]⟩]

def exporter : LoadedModule where
  image_base := 0x500000
  export_dir_rva := 64
  bytes x := ([(84, 1), (88, 1), (92, 128), (96, 132), (100, 136), (129, 0x10), (132, 144), (144, 0x66)].lookup x).getD 0

def exporters : Loader := ⟨fun _ => true, fun _ => .done true, fun _ => exporter⟩

theorem ok_of_toOption {ε α : Type} {r : Except ε α} {a : α} (h : r.toOption = some a) : r = .ok a := by
  cases r with
  | error e => cases h
  | ok b =>
    cases h
    rfl

/-- The module `b` imports `a`. -/
def nested : Loader :=
  ⟨fun _ => true, fun name => if name = [0x62] then .load [0x61] true (.done true) (.done true) else .done true,
    fun _ => exporter⟩

open SkyModuleManager in
/-- A load of `b`, which loads `a`, and then one of `a`. -/
theorem LoadImport_refCount_nested : ∃ info m info' m', LoadImport nested start [0x62] = .ok (info, m) ∧
    LoadImport nested m [0x61] = .ok (info', m') ∧ info.refCount = 1 ∧ info'.refCount = 2 ∧
    (info.refCount > 1 ↔ 0 < start.balance [0x62]) ∧ (info'.refCount > 1 ↔ 0 < m.balance [0x61]) := by
  have hrun : (LoadImport nested start [0x62]).toOption.bind (fun r => (LoadImport nested r.2 [0x61]).toOption.map
      fun r' => (r.1.refCount, r'.1.refCount)) = some (1, 2) := by decide +kernel
  obtain ⟨⟨info, m⟩, hload, hrest⟩ := Option.bind_eq_some_iff.1 hrun
  obtain ⟨⟨info', m'⟩, hload', hcounts⟩ := Option.map_eq_some_iff.1 hrest
  obtain ⟨hcount, hcount'⟩ := Prod.mk.inj hcounts
  have hload := ok_of_toOption hload
  have hload' := ok_of_toOption hload'
  have hfits : start.Fits (.fromMemory [0x62] true (.load [0x61] true (.done true) (.done true))) := by
    refine ⟨⟨fun _ => ⟨by decide, fun _ => rfl⟩, ⟨fun _ => ⟨by decide, fun _ => rfl⟩, trivial, trivial⟩, trivial⟩,
      fun name => ?_⟩
    simp only [start, Loads.occurrences]
    split <;> split <;> omega
  obtain ⟨hinv, hgrows⟩ := LoadImport_inv inv_start hfits hload
  have hfits' : m.Fits (.fromMemory [0x61] true (.done true)) := by
    refine ⟨⟨fun _ => ⟨by decide, fun _ => rfl⟩, trivial, trivial⟩, fun name => ?_⟩
    have hbalance : m.balance name ≤
        0 + (Loads.load [0x62] true (.load [0x61] true (.done true) (.done true)) (.done true)).occurrences name :=
          hgrows name
    simp only [Loads.occurrences] at hbalance ⊢
    split at hbalance <;> split at hbalance <;> split <;> omega
  exact ⟨info, m, info', m', hload, hload', hcount, hcount', LoadImport_refCount inv_start hfits hload,
    LoadImport_refCount hinv hfits' hload'⟩

theorem exporter_valid : exporter.Valid where
  ordinals := by decide +kernel
  names := by
    intro i hi j hj _ _ _
    rw [show exporter.NumberOfNames = 1 by decide +kernel] at hi hj
    omega
  addresses := by
    rintro name ⟨-, i, hi, -, -, hzero⟩
    rw [show exporter.NumberOfNames = 1 by decide +kernel] at hi
    obtain rfl : i = 0 := by omega
    revert hzero
    decide +kernel

theorem importer_valid : ValidTable 0x400000 importer (importDir importer) importerTable where
  table := by decide +kernel
  apart := by decide +kernel
  disjoint := by decide +kernel
  placed := by
    unfold Placed
    decide +kernel

/-- When no module is loaded yet, the function's address is filled in. -/
theorem FixIAT_complete_iff_fresh : ∃ m' bytes',
    FixIAT exporters 0x400000 10 10 SkyModuleManager.start importer = .ok (true, m', bytes') ∧
      Complete exporters importerTable importer bytes' := by
  have hrun : (FixIAT exporters 0x400000 10 10 SkyModuleManager.start importer).toOption.map Prod.fst = some true := by
    decide +kernel
  obtain ⟨⟨accepted, m', bytes'⟩, hresult, rfl⟩ := Option.map_eq_some_iff.1 hrun
  have hok := ok_of_toOption hresult
  refine ⟨m', bytes', hok, (FixIAT_complete_iff (fun _ _ _ => exporter_valid) importer_valid (by decide) ?_ hok).2 ?_⟩
  · unfold Short
    decide
  · rw [show skipped exporters SkyModuleManager.start importerTable = [] by decide +kernel]
    exact fun d hd => absurd hd List.not_mem_nil

/-- When the module has been loaded before, the slot keeps what was in it. -/
theorem FixIAT_loaded_before : ∃ m, system.Reach m ∧ ∃ m' bytes',
    FixIAT exporters 0x400000 10 10 m importer = .ok (true, m', bytes') ∧
      ValidTable 0x400000 importer (importDir importer) importerTable ∧ Providers exporters importerTable ∧
      read32 bytes' 360 = 380 ∧ ¬ Complete exporters importerTable importer bytes' := by
  have hrun : (system.exec SkyModuleManager.start [.fromMemory [0x61] true (.done true)]).map (fun m =>
      (FixIAT exporters 0x400000 10 10 m importer).toOption.map fun result => (result.1, read32 result.2.2 360)) =
      some (some (true, 380)) := by decide +kernel
  obtain ⟨m, hm, hfix⟩ := Option.map_eq_some_iff.1 hrun
  obtain ⟨⟨accepted, m', bytes'⟩, hresult, hfacts⟩ := Option.map_eq_some_iff.1 hfix
  obtain ⟨rfl, hslot⟩ := Prod.mk.inj hfacts
  refine ⟨m, StepSystem.reach_exec _ (.init ⟨rfl, fun _ => rfl⟩) hm, m', bytes', ok_of_toOption hresult,
    importer_valid, fun _ _ _ => exporter_valid, hslot, fun hcomplete => ?_⟩
  have hexports : exporter.Exports [0x66] 0x501000 :=
    ⟨by decide, 0, by decide +kernel, by decide +kernel, by decide +kernel, by decide +kernel⟩
  have hbound : read32 bytes' 360 = 0x501000 :=
    hcomplete.1 _ List.mem_cons_self (by decide) 0 _ rfl (by decide) _ hexports
  rw [hslot] at hbound
  exact absurd hbound (by decide)

end Modules
