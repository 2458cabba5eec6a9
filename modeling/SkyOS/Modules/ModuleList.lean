import Mathlib.Data.List.Pairwise
import Mathlib.Tactic.Common
import SkyOS.Lib.Machine
import SkyOS.Lib.StepSystem

/-!
# The list of loaded modules (`SkyCore/SkyModuleManager.cpp`)

A module is loaded once and its record shared: a second load of its name finds the record and counts. While the
loader runs, before the record is in the list, it loads the modules that are imported (`LoadDLL.cpp:410`). The last
unload deletes the record and leaves its pointer in the list.

| here | there |
| --- | --- |
| a number | a pointer to a `LOAD_DLL_INFO`: the number of its allocation |
| `Loads` | what a loader run does: the modules it loads, and its result |
| `Stop.fault` | a deleted record is read, or `strcpy` writes past `moduleName` |
| `Stop.halted` | `HaltSystem`: an imported module cannot be loaded |

The loader's results are arbitrary, and so is whether the boot loader has an image of a name (`FindModule`) that is
valid (`ValidatePEImage`). What `LoadModule` tells a new module about the platform is left out.
-/

namespace Modules

open Machine List
open Function (update_of_ne update_self)

abbrev Name := List UInt8

/-- The part of `LOAD_DLL_INFO` (`LoadDLL.h:65`) that the list is kept by. -/
structure LOAD_DLL_INFO where
  moduleName : Name
  refCount : Int

/-- The size of `moduleName`. -/
def moduleNameSize : Nat := 256

inductive Stop where
  | halted
  | fault

/-- `m_moduleList` and the records. `balance` is not there: it counts the loads and unloads of a name. -/
structure SkyModuleManager where
  heap : Nat → Option LOAD_DLL_INFO
  next : Nat
  m_moduleList : List Nat
  balance : Name → Int

/-- The modules a loader run loads, in their order, and what it returns in the end. -/
inductive Loads where
  | done (ok : Bool)
  | load (name : Name) (image : Bool) (nested rest : Loads)

namespace SkyModuleManager

def deref (m : SkyModuleManager) (p : Nat) : Except Stop LOAD_DLL_INFO :=
  match m.heap p with
  | some info => .ok info
  | none => .error .fault

def setRefCount (m : SkyModuleManager) (p : Nat) (info : LOAD_DLL_INFO) (refCount : Int) : SkyModuleManager :=
  { m with heap := Function.update m.heap p (some { info with refCount }) }

def addBalance (m : SkyModuleManager) (name : Name) (d : Int) : SkyModuleManager :=
  { m with balance := Function.update m.balance name (m.balance name + d) }

/-- `delete p` -/
def delete (m : SkyModuleManager) (p : Nat) : SkyModuleManager := { m with heap := Function.update m.heap p none }

/-- `new LOAD_DLL_INFO`, with its name and a count of 1 (:144). -/
def create (m : SkyModuleManager) (name : Name) : Except Stop (Nat × SkyModuleManager) :=
  if name.length < moduleNameSize then
    .ok (m.next, { m with heap := Function.update m.heap m.next (some ⟨name, 1⟩), next := m.next + 1 })
  else .error .fault

/-- `FindLoadedModule` (:90), over the list from a position on. -/
def FindLoadedModule (m : SkyModuleManager) (dll_path : Name) : List Nat → Except Stop (Option Nat)
  | [] => .ok none
  | p :: rest =>
    m.deref p >>= fun info => if info.moduleName = dll_path then .ok (some p) else m.FindLoadedModule dll_path rest

/-- `p->refCount++` (:140). -/
def addRef (m : SkyModuleManager) (p : Nat) : Except Stop (Option Nat × SkyModuleManager) :=
  m.deref p >>= fun info =>
    .ok (some p, (m.setRefCount p info (toInt32 (info.refCount + 1))).addBalance info.moduleName 1)

/-- A new record, filled by the loader and put into the list, or deleted (:144, :428). -/
def loadNew (loader : SkyModuleManager → Except Stop (Bool × SkyModuleManager)) (m : SkyModuleManager) (name : Name) :
    Except Stop (Option Nat × SkyModuleManager) :=
  m.create name >>= fun (p, m) =>
    loader m >>= fun (ok, m) =>
      if ok then .ok (some p, { m with m_moduleList := m.m_moduleList ++ [p] }.addBalance name 1)
      else .ok (none, m.delete p)

/-- `LoadModuleFromFile` (:135). -/
def LoadModuleFromFile (loader : SkyModuleManager → Except Stop (Bool × SkyModuleManager)) (m : SkyModuleManager)
    (dll_path : Name) : Except Stop (Option Nat × SkyModuleManager) :=
  m.FindLoadedModule dll_path m.m_moduleList >>= fun found =>
    match found with
    | some p => m.addRef p
    | none => m.loadNew loader dll_path

/-- `LoadModuleFromMemory` (:386); `image` says whether there is a valid image. -/
def LoadModuleFromMemory (image : Bool) (loader : SkyModuleManager → Except Stop (Bool × SkyModuleManager))
    (m : SkyModuleManager) (moduleName : Name) : Except Stop (Option Nat × SkyModuleManager) :=
  m.FindLoadedModule moduleName m.m_moduleList >>= fun found =>
    match found with
    | some p => m.addRef p
    | none => if image then m.loadNew loader moduleName else .ok (none, m)

/-- `LoadModule` (:103): the system halts without the module, and else its record is read. -/
def LoadModule (image : Bool) (loader : SkyModuleManager → Except Stop (Bool × SkyModuleManager))
    (m : SkyModuleManager) (moduleName : Name) : Except Stop SkyModuleManager :=
  m.LoadModuleFromMemory image loader moduleName >>= fun (hwnd, m) =>
    match hwnd with
    | some p => m.deref p >>= fun _ => .ok m
    | none => .error .halted

/-- A run of the loader (`LoadDLL.cpp:539`), as far as the list is concerned. -/
def runLoader : Loads → SkyModuleManager → Except Stop (Bool × SkyModuleManager)
  | .done ok, m => .ok (ok, m)
  | .load name image nested rest, m => m.LoadModule image (runLoader nested) name >>= runLoader rest

/-- `UnloadModule` (:427). The pointer stays in the list. -/
def UnloadModule (m : SkyModuleManager) (handle : Nat) : Except Stop SkyModuleManager :=
  if handle ∈ m.m_moduleList then
    m.deref handle >>= fun info =>
      if info.refCount > 1 then .ok ((m.setRefCount handle info (info.refCount - 1)).addBalance info.moduleName (-1))
      else .ok ((m.delete handle).addBalance info.moduleName (-1))
  else .ok m

end SkyModuleManager

inductive Call where
  | fromMemory (moduleName : Name) (image : Bool) (loads : Loads)
  | fromFile (dll_path : Name) (loads : Loads)
  | unload (handle : Nat)

open SkyModuleManager

def Call.run (m : SkyModuleManager) : Call → Except Stop SkyModuleManager
  | fromMemory moduleName image loads => (m.LoadModuleFromMemory image (runLoader loads) moduleName).map Prod.snd
  | fromFile dll_path loads => (m.LoadModuleFromFile (runLoader loads) dll_path).map Prod.snd
  | unload handle => m.UnloadModule handle

def system : StepSystem SkyModuleManager Call where
  init m := m.m_moduleList = [] ∧ ∀ name, m.balance name = 0
  step m call := (call.run m).toOption

/-! ## The conditions -/

namespace Loads

def occurrences (name : Name) : Loads → Nat
  | done _ => 0
  | load name' _ nested rest => (if name' = name then 1 else 0) + nested.occurrences name + rest.occurrences name

def result : Loads → Bool
  | done ok => ok
  | load _ _ _ rest => rest.result

/-- A loader that succeeds has not loaded the module it is loading, and the names fit into their records. -/
def Acyclic : Loads → Prop
  | done _ => True
  | load name image nested rest =>
    (image = true → name.length < moduleNameSize ∧ (nested.result = true → nested.occurrences name = 0)) ∧
      nested.Acyclic ∧ rest.Acyclic

end Loads

namespace SkyModuleManager

structure Right (m : SkyModuleManager) : Prop where
  live : ∀ p ∈ m.m_moduleList, ∃ info, m.heap p = some info ∧ info.refCount = m.balance info.moduleName ∧
    0 < info.refCount
  single : m.m_moduleList.Pairwise fun p q => ∀ info info', m.heap p = some info → m.heap q = some info' →
    info.moduleName ≠ info'.moduleName
  loaded : ∀ name, 0 < m.balance name → ∃ p ∈ m.m_moduleList, ∃ info, m.heap p = some info ∧ info.moduleName = name

/-- The counts stay in `int`. -/
def Bounded (m : SkyModuleManager) (occurrences : Name → Nat) : Prop :=
  ∀ name, m.balance name + occurrences name < 2 ^ 31

/-- A call loads no module while it is loading that module, and unloads no module for the last time. -/
def Fits (m : SkyModuleManager) : Call → Prop
  | .fromMemory moduleName image loads =>
    (Loads.load moduleName image loads (.done true)).Acyclic ∧
      m.Bounded fun name => (Loads.load moduleName image loads (.done true)).occurrences name
  | .fromFile dll_path loads =>
    (Loads.load dll_path true loads (.done true)).Acyclic ∧
      m.Bounded fun name => (Loads.load dll_path true loads (.done true)).occurrences name
  | .unload handle => handle ∈ m.m_moduleList → ∀ info, m.heap handle = some info → 1 < info.refCount

variable {m : SkyModuleManager} {f occurrences : Name → Nat} {p : Nat} {name : Name}
    {loader : SkyModuleManager → Except Stop (Bool × SkyModuleManager)} {ok : Bool}

variable {g : Name → Nat} {α : Type} {m' : SkyModuleManager} {info : LOAD_DLL_INFO} {handle : Nat}

theorem Bounded.mono (h : m.Bounded g) (hfg : ∀ name, f name ≤ g name) :
    m.Bounded f := by
  intro name
  have h1 := h name
  have h2 := hfg name
  omega

/-! ## Results -/

/-- An operation that does not fault, and what holds if it returns. -/
def Ends {α : Type} (P : α → Prop) : Except Stop α → Prop
  | .ok a => P a
  | .error .halted => True
  | .error .fault => False

theorem Ends.bind {β : Type} {P : α → Prop} {Q : β → Prop} {r : Except Stop α} {f : α → Except Stop β}
    (h : Ends P r) (hf : ∀ a, P a → Ends Q (f a)) : Ends Q (r >>= f) := by
  cases r with
  | ok a => exact hf a h
  | error e =>
    cases e with
    | halted => trivial
    | fault => exact h

theorem Ends.mono {P Q : α → Prop} {r : Except Stop α} (h : Ends P r) (hPQ : ∀ a, P a → Q a) :
    Ends Q r := by
  cases r with
  | ok a => exact hPQ a h
  | error e =>
    cases e with
    | halted => trivial
    | fault => exact h

/-! ## The invariant -/

/-- What is right, and what keeps it so: no name is unloaded too often, and pointers are not given out again. -/
structure Inv (m : SkyModuleManager) : Prop extends Right m where
  nonneg : ∀ name, 0 ≤ m.balance name
  old : ∀ p ∈ m.m_moduleList, p < m.next

/-- What an operation that loads modules does: at most so many loads of a name, and nothing to a record that is not
in the list. -/
structure Grows (m m' : SkyModuleManager) (occurrences : Name → Nat) : Prop where
  next : m.next ≤ m'.next
  kept : ∀ p, p < m.next → p ∉ m.m_moduleList → m'.heap p = m.heap p ∧ p ∉ m'.m_moduleList
  balance : ∀ name, m.balance name ≤ m'.balance name ∧ m'.balance name ≤ m.balance name + occurrences name

theorem Grows.refl (m : SkyModuleManager) : Grows m m fun _ => 0 :=
  ⟨Nat.le_refl _, fun _ _ hp => ⟨rfl, hp⟩, fun _ => by omega⟩

theorem Grows.trans {m₁ : SkyModuleManager} {k : Name → Nat} (h : Grows m m₁ f) (h' : Grows m₁ m' g)
    (hk : ∀ name, f name + g name ≤ k name) : Grows m m' k where
  next := Nat.le_trans h.next h'.next
  kept p hp hnot := by
    obtain ⟨hheap, hnot₁⟩ := h.kept p hp hnot
    obtain ⟨hheap', hnot'⟩ := h'.kept p (Nat.lt_of_lt_of_le hp h.next) hnot₁
    exact ⟨hheap'.trans hheap, hnot'⟩
  balance name := by
    have h1 := h.balance name
    have h2 := h'.balance name
    have h3 := hk name
    omega

theorem Inv.find (h : m.Inv) (name : Name) : Ends (fun found =>
    match found with
    | some p => p ∈ m.m_moduleList ∧ ∃ info, m.heap p = some info ∧ info.moduleName = name
    | none => m.balance name = 0) (m.FindLoadedModule name m.m_moduleList) := by
  -- over a rest of the list: what has been passed is not the record
  have hrest : ∀ rest : List Nat, (∀ p ∈ rest, p ∈ m.m_moduleList) →
      (∀ p ∈ m.m_moduleList, p ∉ rest → ∀ info, m.heap p = some info → info.moduleName ≠ name) →
      Ends (fun found =>
        match found with
        | some p => p ∈ m.m_moduleList ∧ ∃ info, m.heap p = some info ∧ info.moduleName = name
        | none => m.balance name = 0) (m.FindLoadedModule name rest) := by
    intro rest
    induction rest with
    | nil =>
      intro _ hpassed
      change m.balance name = 0
      by_contra hne
      have hpos : 0 < m.balance name := by
        have := h.nonneg name
        omega
      obtain ⟨p, hp, info, hinfo, hname⟩ := h.loaded name hpos
      exact hpassed p hp not_mem_nil info hinfo hname
    | cons p rest ih =>
      intro hin hpassed
      have hp := hin p (.head _)
      obtain ⟨info, hinfo, -, -⟩ := h.live p hp
      rw [FindLoadedModule, deref, hinfo]
      by_cases hname : info.moduleName = name
      · change Ends _ (if info.moduleName = name then _ else _)
        rw [if_pos hname]
        exact ⟨hp, info, hinfo, hname⟩
      · change Ends _ (if info.moduleName = name then _ else _)
        rw [if_neg hname]
        refine ih (fun q hq => hin q (mem_cons_of_mem p hq)) ?_
        intro q hq hnot info' hinfo' hname'
        by_cases hqp : q = p
        · subst hqp
          rw [hinfo] at hinfo'
          cases hinfo'
          exact hname hname'
        · exact hpassed q hq (by simp [hqp, hnot]) info' hinfo' hname'
  exact hrest m.m_moduleList (fun _ hp => hp) fun p hp hnot => absurd hp hnot

theorem Inv.recount (h : m.Inv) (hp : p ∈ m.m_moduleList)
    (hinfo : m.heap p = some info) {refCount d : Int} (hcount : refCount = info.refCount + d) (hpos : 0 < refCount) :
    ((m.setRefCount p info refCount).addBalance info.moduleName d).Inv := by
  -- no other record of the list has the name
  have hother : ∀ q ∈ m.m_moduleList, q ≠ p → ∀ info', m.heap q = some info' → info'.moduleName ≠ info.moduleName := by
    intro q hq hne info' hinfo' hsame
    have hsymm : Std.Symm fun p q => ∀ info info', m.heap p = some info → m.heap q = some info' →
        info.moduleName ≠ info'.moduleName := ⟨fun p q hpq info info' h1 h2 h3 => hpq info' info h2 h1 h3.symm⟩
    exact h.single.forall hq hp hne info' info hinfo' hinfo hsame
  have hheap : ∀ q, q ≠ p → ((m.setRefCount p info refCount).addBalance info.moduleName d).heap q = m.heap q :=
    fun q hq => update_of_ne hq ..
  have hheap_self : ((m.setRefCount p info refCount).addBalance info.moduleName d).heap p =
      some { info with refCount } := update_self ..
  have hbalance : ∀ name, name ≠ info.moduleName →
      ((m.setRefCount p info refCount).addBalance info.moduleName d).balance name = m.balance name :=
    fun name hname => update_of_ne hname ..
  have hbalance_self : ((m.setRefCount p info refCount).addBalance info.moduleName d).balance info.moduleName =
      m.balance info.moduleName + d := update_self ..
  obtain ⟨_, hinfo₀, hbal, hpos₀⟩ := h.live p hp
  rw [hinfo] at hinfo₀
  cases hinfo₀
  refine ⟨⟨?_, ?_, ?_⟩, ?_, h.old⟩
  · intro q hq
    by_cases hqp : q = p
    · subst hqp
      refine ⟨_, hheap_self, ?_, hpos⟩
      dsimp only
      rw [hbalance_self]
      omega
    · obtain ⟨info', hinfo', hbal', hpos'⟩ := h.live q hq
      exact ⟨info', (hheap q hqp).trans hinfo', by rw [hbalance _ (hother q hq hqp info' hinfo'), hbal'], hpos'⟩
  · -- the names have stayed
    have hname : ∀ q info', ((m.setRefCount p info refCount).addBalance info.moduleName d).heap q = some info' →
        ∃ info₀, m.heap q = some info₀ ∧ info₀.moduleName = info'.moduleName := by
      intro q info' hinfo'
      by_cases hqp : q = p
      · subst hqp
        rw [hheap_self] at hinfo'
        cases hinfo'
        exact ⟨info, hinfo, rfl⟩
      · exact ⟨info', (hheap q hqp).symm.trans hinfo', rfl⟩
    refine h.single.imp ?_
    intro q r hqr info₁ info₂ h₁ h₂
    obtain ⟨info₁', h₁', hn₁⟩ := hname q info₁ h₁
    obtain ⟨info₂', h₂', hn₂⟩ := hname r info₂ h₂
    rw [← hn₁, ← hn₂]
    exact hqr info₁' info₂' h₁' h₂'
  · intro name hloaded
    by_cases hname : name = info.moduleName
    · exact ⟨p, hp, _, hheap_self, hname.symm⟩
    · rw [hbalance name hname] at hloaded
      obtain ⟨q, hq, info', hinfo', hname'⟩ := h.loaded name hloaded
      have hqp : q ≠ p := by
        rintro rfl
        rw [hinfo] at hinfo'
        cases hinfo'
        exact hname hname'.symm
      exact ⟨q, hq, info', (hheap q hqp).trans hinfo', hname'⟩
  · intro name
    by_cases hname : name = info.moduleName
    · subst hname
      rw [hbalance_self]
      omega
    · rw [hbalance name hname]
      exact h.nonneg name

theorem Inv.addRef (h : m.Inv) (hp : p ∈ m.m_moduleList)
    (hinfo : m.heap p = some info) (hbound : m.balance info.moduleName + 1 < 2 ^ 31) :
    Ends (fun r => r.1 = some p ∧ p ∈ r.2.m_moduleList ∧ r.2.Inv ∧
      Grows m r.2 fun name => if info.moduleName = name then 1 else 0) (m.addRef p) := by
  obtain ⟨_, hinfo', hbal, hpos⟩ := h.live p hp
  rw [hinfo] at hinfo'
  cases hinfo'
  have hcount : toInt32 (info.refCount + 1) = info.refCount + 1 := toInt32_of_isInt32 ⟨by omega, by omega⟩
  rw [SkyModuleManager.addRef, deref, hinfo]
  change _ ∧ _
  rw [hcount]
  refine ⟨rfl, hp, h.recount hp hinfo rfl (by omega), Nat.le_refl _, ?_, ?_⟩
  · intro q _ hq
    have hne : q ≠ p := by
      rintro rfl
      exact hq hp
    exact ⟨update_of_ne hne .., hq⟩
  · intro name
    by_cases hname : info.moduleName = name
    · subst hname
      rw [if_pos rfl]
      simp only [addBalance, setRefCount, update_self]
      omega
    · rw [if_neg hname]
      simp only [addBalance, setRefCount, update_of_ne (Ne.symm hname)]
      omega

theorem Inv.heap_ext (h : m.Inv) (hheap : ∀ p ∈ m.m_moduleList, m'.heap p = m.heap p)
    (hlist : m'.m_moduleList = m.m_moduleList) (hbalance : m'.balance = m.balance) (hnext : m.next ≤ m'.next) :
    m'.Inv := by
  refine ⟨⟨?_, ?_, ?_⟩, ?_, ?_⟩
  · rw [hlist, hbalance]
    intro p hp
    rw [hheap p hp]
    exact h.live p hp
  · rw [hlist]
    refine h.single.imp_of_mem ?_
    intro p q hp hq hpq
    rw [hheap p hp, hheap q hq]
    exact hpq
  · rw [hlist, hbalance]
    intro name hname
    obtain ⟨p, hp, hinfo⟩ := h.loaded name hname
    exact ⟨p, hp, by rwa [hheap p hp]⟩
  · rw [hbalance]
    exact h.nonneg
  · rw [hlist]
    intro p hp
    exact Nat.lt_of_lt_of_le (h.old p hp) hnext

theorem Inv.push (h : m.Inv) (hp : p < m.next)
    (hinfo : m.heap p = some ⟨name, 1⟩) (hzero : m.balance name = 0) :
    ({ m with m_moduleList := m.m_moduleList ++ [p] }.addBalance name 1).Inv := by
  have hother : ∀ q ∈ m.m_moduleList, ∀ info, m.heap q = some info → info.moduleName ≠ name := by
    rintro q hq info hinfo' rfl
    obtain ⟨_, hinfo'', hbal, hpos⟩ := h.live q hq
    rw [hinfo'] at hinfo''
    cases hinfo''
    omega
  have hbalance : ∀ name', name' ≠ name → Function.update m.balance name (m.balance name + 1) name' = m.balance name' :=
    fun name' hne => update_of_ne hne ..
  have hbalance_self : Function.update m.balance name (m.balance name + 1) name = 1 := by
    rw [update_self, hzero]
    rfl
  unfold addBalance
  refine ⟨⟨?_, ?_, ?_⟩, ?_, ?_⟩
  · intro q hq
    dsimp only at hq ⊢
    rcases mem_append.1 hq with hq | hq
    · obtain ⟨info, hinfo', hbal, hpos⟩ := h.live q hq
      exact ⟨info, hinfo', by rw [hbalance _ (hother q hq info hinfo'), hbal], hpos⟩
    · obtain rfl := mem_singleton.1 hq
      exact ⟨_, hinfo, hbalance_self.symm, Int.zero_lt_one⟩
  · dsimp only
    rw [pairwise_append]
    refine ⟨h.single, pairwise_singleton _ _, ?_⟩
    intro q hq r hr info info' hi hi'
    obtain rfl := mem_singleton.1 hr
    rw [hinfo] at hi'
    cases hi'
    exact hother q hq info hi
  · intro name' hloaded
    dsimp only at hloaded ⊢
    by_cases hname : name' = name
    · exact ⟨p, by simp, _, hinfo, hname.symm⟩
    · rw [hbalance name' hname] at hloaded
      obtain ⟨q, hq, hinfo'⟩ := h.loaded name' hloaded
      exact ⟨q, mem_append_left _ hq, hinfo'⟩
  · intro name'
    dsimp only
    by_cases hname : name' = name
    · rw [hname, hbalance_self]
      decide
    · rw [hbalance name' hname]
      exact h.nonneg name'
  · intro q hq
    rcases mem_append.1 hq with hq | hq
    · exact h.old q hq
    · rwa [mem_singleton.1 hq]

/-! ## Loading -/

def Loaded (m : SkyModuleManager) (occurrences : Name → Nat) (r : Option Nat × SkyModuleManager) : Prop :=
  (∀ p ∈ r.1, p ∈ r.2.m_moduleList) ∧ r.2.Inv ∧ Grows m r.2 occurrences

theorem Inv.loadNew (h : m.Inv) (hname : name.length < moduleNameSize)
    (hzero : m.balance name = 0) (hself : ok = true → occurrences name = 0)
    (hbound : m.Bounded occurrences)
    (hloader : ∀ m₁ : SkyModuleManager, m₁.Inv → m₁.Bounded occurrences →
      Ends (fun r => r.1 = ok ∧ r.2.Inv ∧ Grows m₁ r.2 occurrences) (loader m₁)) :
    Ends (Loaded m fun name' => (if name = name' then 1 else 0) + occurrences name') (m.loadNew loader name) := by
  let m₁ : SkyModuleManager :=
    { m with heap := Function.update m.heap m.next (some ⟨name, 1⟩), next := m.next + 1 }
  have hcreate : m.create name = .ok (m.next, m₁) := if_pos hname
  have hnew : m₁.heap m.next = some ⟨name, 1⟩ := update_self ..
  have hinv₁ : m₁.Inv := by
    refine h.heap_ext ?_ rfl rfl (Nat.le_succ _)
    intro p hp
    exact update_of_ne (Nat.ne_of_lt (h.old p hp)) ..
  have hnot : m.next ∉ m₁.m_moduleList := fun hp => Nat.lt_irrefl _ (h.old _ hp)
  rw [SkyModuleManager.loadNew, hcreate]
  change Ends _ (loader m₁ >>= _)
  refine Ends.bind (hloader m₁ hinv₁ hbound) ?_
  rintro ⟨b, m₂⟩ ⟨hok, hinv₂, hgrows⟩
  obtain ⟨hheap₂, hnot₂⟩ := hgrows.kept m.next (Nat.lt_succ_self _) hnot
  have hnext : m.next < m₂.next := Nat.lt_of_succ_le hgrows.next
  have hkept : ∀ p, p < m.next → p ∉ m.m_moduleList → m₂.heap p = m.heap p ∧ p ∉ m₂.m_moduleList := by
    intro p hp hpnot
    obtain ⟨hheap, hnot'⟩ := hgrows.kept p (Nat.lt_succ_of_lt hp) hpnot
    exact ⟨hheap.trans (update_of_ne (Nat.ne_of_lt hp) ..), hnot'⟩
  dsimp only at hok ⊢
  split
  · -- the record is put into the list
    rename_i hb
    have hocc := hself (hok.symm.trans hb)
    have hzero₂ : m₂.balance name = 0 := by
      have hgrow : m.balance name ≤ m₂.balance name ∧ m₂.balance name ≤ m.balance name + occurrences name :=
        hgrows.balance name
      omega
    refine ⟨?_, hinv₂.push hnext (hheap₂.trans hnew) hzero₂, Nat.le_of_lt hnext, ?_, ?_⟩
    · rintro p ⟨⟩
      exact mem_append_right _ (mem_singleton_self _)
    · intro p hp hpnot
      obtain ⟨hheap, hnot'⟩ := hkept p hp hpnot
      refine ⟨hheap, ?_⟩
      change p ∉ m₂.m_moduleList ++ [m.next]
      simp only [mem_append, mem_singleton, not_or]
      exact ⟨hnot', Nat.ne_of_lt hp⟩
    · intro name'
      have hgrow : m.balance name' ≤ m₂.balance name' ∧ m₂.balance name' ≤ m.balance name' + occurrences name' :=
        hgrows.balance name'
      by_cases hname' : name = name'
      · subst hname'
        rw [if_pos rfl]
        simp only [addBalance, update_self]
        omega
      · rw [if_neg hname']
        simp only [addBalance, update_of_ne (Ne.symm hname')]
        omega
  · -- the record is deleted
    refine ⟨?_, ?_, Nat.le_of_lt hnext, ?_, ?_⟩
    · rintro p ⟨⟩
    · refine hinv₂.heap_ext ?_ rfl rfl (Nat.le_refl _)
      intro p hp
      have hne : p ≠ m.next := by
        rintro rfl
        exact hnot₂ hp
      exact update_of_ne hne ..
    · intro p hp hpnot
      obtain ⟨hheap, hnot'⟩ := hkept p hp hpnot
      exact ⟨(update_of_ne (Nat.ne_of_lt hp) ..).trans hheap, hnot'⟩
    · intro name'
      have hgrow : m.balance name' ≤ m₂.balance name' ∧ m₂.balance name' ≤ m.balance name' + occurrences name' :=
        hgrows.balance name'
      change m.balance name' ≤ m₂.balance name' ∧ m₂.balance name' ≤ _
      omega

theorem Inv.loadFound (h : m.Inv)
    (hbound : m.Bounded fun name' => (if name = name' then 1 else 0) + occurrences name')
    (hp : p ∈ m.m_moduleList) (hinfo : ∃ info, m.heap p = some info ∧ info.moduleName = name) :
    Ends (Loaded m fun name' => (if name = name' then 1 else 0) + occurrences name') (m.addRef p) := by
  obtain ⟨info, hinfo, rfl⟩ := hinfo
  have hbal := hbound info.moduleName
  dsimp only at hbal
  rw [if_pos rfl] at hbal
  refine (h.addRef hp hinfo (by omega)).mono ?_
  rintro ⟨found, m'⟩ ⟨hfound, hp', hinv, hgrows⟩
  subst hfound
  refine ⟨?_, hinv, hgrows.next, hgrows.kept, ?_⟩
  · rintro q ⟨⟩
    exact hp'
  · intro name'
    have := hgrows.balance name'
    omega

theorem Inv.loadModuleFromMemory (h : m.Inv) {image : Bool}
    (himage : image = true → name.length < moduleNameSize ∧ (ok = true → occurrences name = 0))
    (hbound : m.Bounded fun name' => (if name = name' then 1 else 0) + occurrences name')
    (hloader : ∀ m₁ : SkyModuleManager, m₁.Inv → m₁.Bounded occurrences →
      Ends (fun r => r.1 = ok ∧ r.2.Inv ∧ Grows m₁ r.2 occurrences) (loader m₁)) :
    Ends (Loaded m fun name' => (if name = name' then 1 else 0) + occurrences name')
      (m.LoadModuleFromMemory image loader name) := by
  refine Ends.bind (h.find name) ?_
  rintro (_ | p) hfound
  · dsimp only
    split
    · rename_i hthere
      obtain ⟨hname, hself⟩ := himage hthere
      exact h.loadNew hname hfound hself (hbound.mono fun _ => Nat.le_add_left ..) hloader
    · refine ⟨?_, h, (Grows.refl m).trans (.refl m) fun _ => Nat.zero_le _⟩
      rintro p ⟨⟩
  · exact h.loadFound hbound hfound.1 hfound.2

theorem Inv.loadModuleFromFile (h : m.Inv)
    (hname : name.length < moduleNameSize) (hself : ok = true → occurrences name = 0)
    (hbound : m.Bounded fun name' => (if name = name' then 1 else 0) + occurrences name')
    (hloader : ∀ m₁ : SkyModuleManager, m₁.Inv → m₁.Bounded occurrences →
      Ends (fun r => r.1 = ok ∧ r.2.Inv ∧ Grows m₁ r.2 occurrences) (loader m₁)) :
    Ends (Loaded m fun name' => (if name = name' then 1 else 0) + occurrences name')
      (m.LoadModuleFromFile loader name) := by
  refine Ends.bind (h.find name) ?_
  rintro (_ | p) hfound
  · exact h.loadNew hname hfound hself (hbound.mono fun _ => Nat.le_add_left ..) hloader
  · exact h.loadFound hbound hfound.1 hfound.2

/-- **The loader**, by induction on what it loads. -/
theorem Inv.runLoader (loads : Loads) : ∀ {m : SkyModuleManager}, m.Inv → loads.Acyclic →
    m.Bounded (fun name => loads.occurrences name) →
    Ends (fun r => r.1 = loads.result ∧ r.2.Inv ∧ Grows m r.2 fun name => loads.occurrences name)
      (runLoader loads m) := by
  induction loads with
  | done ok =>
    intro m h _ _
    exact ⟨rfl, h, .refl m⟩
  | load name image nested rest ihnested ihrest =>
    intro m h hacyclic hbound
    obtain ⟨himage, hnested, hrest⟩ := hacyclic
    have hload : Ends (Loaded m fun name' => (if name = name' then 1 else 0) + nested.occurrences name')
        (m.LoadModuleFromMemory image (SkyModuleManager.runLoader nested) name) := by
      refine h.loadModuleFromMemory himage (hbound.mono ?_) fun m₁ hinv₁ hbound₁ => ihnested hinv₁ hnested hbound₁
      intro name'
      exact Nat.le_add_right ..
    rw [SkyModuleManager.runLoader]
    refine Ends.bind (P := fun m₂ => m₂.Inv ∧
      Grows m m₂ fun name' => (if name = name' then 1 else 0) + nested.occurrences name') (Ends.bind hload ?_) ?_
    · rintro ⟨hwnd, m₂⟩ ⟨hin, hinv₂, hgrows⟩
      cases hwnd with
      | none => trivial
      | some p =>
        obtain ⟨info, hinfo, -⟩ := hinv₂.live p (hin p rfl)
        change Ends _ (m₂.deref p >>= fun _ => .ok m₂)
        rw [deref, hinfo]
        exact ⟨hinv₂, hgrows⟩
    · rintro m₂ ⟨hinv₂, hgrows⟩
      refine (ihrest hinv₂ hrest ?_).mono ?_
      · intro name'
        have hgrow := hgrows.balance name'
        have hle := hbound name'
        simp only [Loads.occurrences] at hle
        dsimp only at hgrow ⊢
        omega
      · rintro ⟨ok, m'⟩ ⟨hok, hinv', hgrows'⟩
        refine ⟨hok, hinv', hgrows.trans hgrows' ?_⟩
        intro name'
        exact Nat.le_refl _

/-! ## Runs -/

theorem Inv.unload (h : m.Inv) (hfits : m.Fits (.unload handle)) :
    Ends Inv (m.UnloadModule handle) := by
  unfold UnloadModule
  split
  · rename_i hin
    obtain ⟨info, hinfo, -, -⟩ := h.live handle hin
    have hcount := hfits hin info hinfo
    rw [deref, hinfo]
    change Ends Inv (if info.refCount > 1 then _ else _)
    rw [if_pos hcount]
    exact h.recount hin hinfo rfl (by omega)
  · exact h

/-- The last unload of a module leaves a pointer to its deleted record in the list. -/
theorem unload_last (hnot : ¬ m.Fits (.unload handle)) :
    ∃ m', m.UnloadModule handle = .ok m' ∧ ¬ m'.Right := by
  have hlast : handle ∈ m.m_moduleList ∧ ∃ info, m.heap handle = some info ∧ ¬ 1 < info.refCount := by
    by_contra hcon
    refine hnot fun hin info hinfo => ?_
    by_contra hle
    exact hcon ⟨hin, info, hinfo, hle⟩
  obtain ⟨hin, info, hinfo, hle⟩ := hlast
  refine ⟨(m.delete handle).addBalance info.moduleName (-1), ?_, ?_⟩
  · rw [UnloadModule, if_pos hin, deref, hinfo]
    exact if_neg hle
  · intro hright
    obtain ⟨info', hinfo', -⟩ := hright.live handle hin
    have hnone : ((m.delete handle).addBalance info.moduleName (-1)).heap handle = none := update_self ..
    rw [hnone] at hinfo'
    cases hinfo'

theorem Ends.map_snd {r : Except Stop (Option Nat × SkyModuleManager)}
    (h : Ends (Loaded m f) r) : Ends Inv (r.map Prod.snd) := by
  cases r with
  | ok a => exact h.2.1
  | error e =>
    cases e with
    | halted => trivial
    | fault => exact h

theorem inv_of_empty (hnil : m.m_moduleList = []) (hzero : ∀ name, m.balance name = 0) : m.Inv := by
  refine ⟨⟨?_, ?_, ?_⟩, ?_, ?_⟩
  · rw [hnil]
    exact fun _ hp => absurd hp List.not_mem_nil
  · rw [hnil]
    exact .nil
  · intro name hpos
    rw [hzero] at hpos
    omega
  · intro name
    exact Int.le_of_eq (hzero name).symm
  · rw [hnil]
    exact fun _ hp => absurd hp List.not_mem_nil

/-- **One call** that fits. -/
theorem Inv.call (h : m.Inv) {call : Call} (hfits : m.Fits call) : Ends Inv (call.run m) := by
  cases call with
  | fromMemory moduleName image loads =>
    obtain ⟨⟨himage, hacyclic, -⟩, hbound⟩ := hfits
    exact (h.loadModuleFromMemory himage hbound
      fun m₁ hinv₁ hbound₁ => hinv₁.runLoader loads hacyclic hbound₁).map_snd
  | fromFile dll_path loads =>
    obtain ⟨⟨himage, hacyclic, -⟩, hbound⟩ := hfits
    obtain ⟨hname, hself⟩ := himage rfl
    exact (h.loadModuleFromFile hname hself hbound
      fun m₁ hinv₁ hbound₁ => hinv₁.runLoader loads hacyclic hbound₁).map_snd
  | unload handle => exact h.unload hfits

/-- **Every run whose calls fit** keeps one live record for each name that is loaded, with its count. From there a
call that fits does not fault, and an unload that does not fit breaks the list. -/
theorem list_right {m : SkyModuleManager} (hrun : system.ReachVia Fits m) : m.Right ∧
    (∀ call, m.Fits call → Ends Right (call.run m)) ∧
    ∀ handle, ¬ m.Fits (.unload handle) → ∃ m', system.step m (.unload handle) = some m' ∧ ¬ m'.Right := by
  have hinv : m.Inv := by
    refine hrun.invariant Inv ?_ ?_
    · rintro m ⟨hnil, hzero⟩
      exact inv_of_empty hnil hzero
    · intro m call m' h hfits hs
      have hends := h.call hfits
      have hstep : (call.run m).toOption = some m' := hs
      cases hr : call.run m with
      | error e =>
        rw [hr] at hstep
        cases hstep
      | ok m'' =>
        rw [hr] at hstep hends
        cases hstep
        exact hends
  refine ⟨hinv.toRight, fun call hfits => (hinv.call hfits).mono fun _ h => h.toRight, ?_⟩
  intro handle hnot
  obtain ⟨m', hrun', hbad⟩ := unload_last hnot
  refine ⟨m', ?_, hbad⟩
  change (m.UnloadModule handle).toOption = some m'
  rw [hrun']
  rfl

def start : SkyModuleManager := ⟨fun _ => none, 0, [], fun _ => 0⟩

theorem inv_start : start.Inv := inv_of_empty rfl fun _ => rfl

/-- A file that imports one module: there is a record for each. The record of the import, which was loaded once, is
still in the list after it has been unloaded. -/
theorem list_right_import : ∃ m, system.step start (.fromFile [97] (.load [98] true (.done true) (.done true))) = some m ∧
    m.m_moduleList = [1, 0] ∧ m.Right ∧ ∃ m', m.UnloadModule 1 = .ok m' ∧ ¬ m'.Right := by
  let call : Call := .fromFile [97] (.load [98] true (.done true) (.done true))
  have hrun : (system.step start call).map (fun m => decide (m.m_moduleList = [1, 0] ∧
      (m.heap 1).map LOAD_DLL_INFO.refCount = some 1)) = some true := by
    decide +kernel
  obtain ⟨m, hs, hfacts⟩ := Option.map_eq_some_iff.1 hrun
  obtain ⟨hlist, hcount⟩ := of_decide_eq_true hfacts
  have hfits : start.Fits call := by
    refine ⟨⟨fun _ => ⟨by decide, fun _ => rfl⟩, ⟨fun _ => ⟨by decide, fun _ => rfl⟩, trivial, trivial⟩, trivial⟩, ?_⟩
    intro name
    simp only [start, Loads.occurrences]
    split <;> split <;> omega
  obtain ⟨hright, -, hlast⟩ := list_right (.step (.init ⟨rfl, fun _ => rfl⟩) hfits hs)
  refine ⟨m, hs, hlist, hright, unload_last ?_⟩
  intro hfits
  obtain ⟨info, hinfo, hone⟩ := Option.map_eq_some_iff.1 hcount
  have hmore := hfits (by simp [hlist]) info hinfo
  omega

/-- One module is loaded and unloaded: its record is deleted and still in the list, and the next load reads it. -/
theorem unload_once : ¬ ∀ m, system.Reach m → m.Right ∧ ∀ call : Call, call.run m ≠ .error .fault := by
  intro h
  let calls : List Call := [.fromFile [97] (.done true), .unload 0]
  have hrun : (system.exec start calls).map (fun m => decide (m.m_moduleList = [0] ∧ (m.heap 0).isNone)) =
      some true := by
    decide +kernel
  obtain ⟨m, hs, hfacts⟩ := Option.map_eq_some_iff.1 hrun
  obtain ⟨hlist, hheap⟩ := of_decide_eq_true hfacts
  obtain ⟨-, hnever⟩ := h m (StepSystem.reach_exec calls (.init ⟨rfl, fun _ => rfl⟩) hs)
  refine hnever (.fromFile [98] (.done true)) ?_
  rw [Option.isNone_iff_eq_none] at hheap
  have hfind : m.FindLoadedModule [98] m.m_moduleList = .error .fault := by
    rw [hlist, FindLoadedModule, deref, hheap]
    rfl
  rw [Call.run, LoadModuleFromFile, hfind]
  rfl

end SkyModuleManager

end Modules
