import SkyOS.Cache.PageCache

/-!
# `PageCache::GetPage` (`PageCache.cpp:68`) under interleaving

`GetPage` holds the one `fCacheLock` except while it sleeps, reads from the backing store, or calls its source
cache. What a thread does between two of these points is one step (`underLock`); the calls of a thread on a chain
of caches are a stack of frames. While a frame waits, a busy page of its own stands in the slot (`StandsFor`).
No other thread finds the slot empty then, and no page is returned while it is busy, so the stand-ins are in
nobody else's hands: that is the invariant, and the rest follows from `Linked`.

| here | there |
| --- | --- |
| `Phase.lookup` | the loop at :74 |
| `Phase.reading` | `fBackingStore->Read`, :91-:95 |
| `Phase.copying` | the source's page for a private copy, :114-:116 |
| `Phase.sharing` | the source's page behind a dummy, :138-:140 |
| `Choice` | the page that `Page::Alloc` gives, the answers of `HasPage` and `Read` |
| `Call.other` | whatever happens to a page that is in no cache |
-/

namespace PageCache

open Pages (PageState)
open Function (update update_apply update_of_ne update_self)
open List Option

/-- Where a call of `GetPage` is; `none` while its source has not returned. -/
inductive Phase (P : Type) where
  | lookup
  | reading (page : P)
  | copying (page : P) (sourcePage : Option (Option P))
  | sharing (dummy : P) (sourcePage : Option (Option P))
deriving DecidableEq

/-- One call `this->GetPage(offset, privateCopy)`. -/
structure Frame (P : Type) where
  this : Cache
  offset : BitVec 32
  privateCopy : Bool
  phase : Phase P
deriving DecidableEq

structure Choice (P : Type) where
  allocated : P
  hasPage : Bool
  read : Bool

/-- How a step under the lock ends: at the loop again, at one of the three unlocked places, or with a page. -/
inductive Outcome (P : Type) where
  | again
  | wait (phase : Phase P)
  | done (page : P)

structure State (T P : Type) where
  data : CacheState P
  fSourceCache : Cache → Option Cache
  /-- The calls of a thread, innermost first. -/
  stack : T → List (Frame P)
  /-- What the last call that a thread finished has returned. -/
  returned : T → Option P

section
variable {T P : Type}

def Phase.standIn : Phase P → Option P
  | .lookup => none
  | .reading page | .copying page _ | .sharing page _ => some page

def Phase.got : Phase P → Option P
  | .lookup | .reading _ => none
  | .copying _ sourcePage | .sharing _ sourcePage => sourcePage.join

def Phase.waits : Phase P → Bool
  | .lookup | .reading _ => false
  | .copying _ sourcePage | .sharing _ sourcePage => sourcePage.isNone

def Phase.receive (page : P) : Phase P → Phase P
  | .copying own _ => .copying own (some (some page))
  | .sharing dummy _ => .sharing dummy (some (some page))
  | phase => phase

variable [DecidableEq P]

/-- The anonymous page at :145. -/
def anonymous (d : CacheState P) (f : Frame P) (ch : Choice P) : Option (CacheState P × Outcome P) :=
  (alloc d ch.allocated).map fun d =>
    (setState (insertPage d f.this f.offset ch.allocated) ch.allocated .kPageActive, .done ch.allocated)

def insertBusy (d : CacheState P) (f : Frame P) (ch : Choice P) : Option (CacheState P) :=
  (alloc d ch.allocated).map fun d =>
    insertPage (setState d ch.allocated .kPageTransition) f.this f.offset ch.allocated

/-- The source's page behind a dummy, :129. -/
def shareSource (source : Option Cache) (d : CacheState P) (f : Frame P) (ch : Choice P) :
    Option (CacheState P × Outcome P) :=
  if source.isSome then (insertBusy d f ch).map fun d => (d, .wait (.sharing ch.allocated none))
  else anonymous d f ch

/-- The private copy at :106. -/
def copySource (source : Option Cache) (d : CacheState P) (f : Frame P) (ch : Choice P) :
    Option (CacheState P × Outcome P) :=
  if f.privateCopy then (insertBusy d f ch).map fun d => (d, .wait (.copying ch.allocated none))
  else shareSource source d f ch

/-- The backing store at :86. -/
def readStore (source : Option Cache) (d : CacheState P) (f : Frame P) (ch : Choice P) :
    Option (CacheState P × Outcome P) :=
  if ch.hasPage then (insertBusy d f ch).map fun d => (d, .wait (.reading ch.allocated))
  else copySource source d f ch

/-- `RemovePage` and `Free` of a stand-in. -/
def dropPage (d : CacheState P) (f : Frame P) (page : P) : Option (CacheState P) :=
  (removePage d f.this page).map fun d => setState d page .kPageFree

/-- What `GetPage` does from one `fCacheLock.Lock()` to the next `Unlock()`. -/
def underLock (source : Option Cache) (d : CacheState P) (f : Frame P) (ch : Choice P) :
    Option (CacheState P × Outcome P) :=
  match f.phase with
  | .lookup =>
    match lookupPage d f.this f.offset with
    | some page => some (d, if d.fState page = .kPageTransition then .again else .done page)
    | none => readStore source d f ch
  | .reading page =>
    if ch.read then some (setState d page .kPageActive, .done page)
    else (dropPage d f page).bind fun d => copySource source d f ch
  | .copying _ none | .sharing _ none => none
  | .copying page (some (some _)) => some (setState d page .kPageActive, .done page)
  | .copying page (some none) => (dropPage d f page).bind fun d => shareSource source d f ch
  | .sharing dummy (some (some sourcePage)) => (dropPage d f dummy).map fun d => (d, .done sourcePage)
  | .sharing dummy (some none) => (dropPage d f dummy).bind fun d => anonymous d f ch

variable [DecidableEq T]

def State.withStack (s : State T P) (t : T) (frames : List (Frame P)) : State T P :=
  { s with stack := Function.update s.stack t frames }

/-- The page goes to the frame that called, or to the caller of the whole chain. -/
def give (s : State T P) (t : T) (page : P) : List (Frame P) → State T P
  | [] => { s.withStack t [] with returned := Function.update s.returned t (some page) }
  | f :: rest => s.withStack t ({ f with phase := f.phase.receive page } :: rest)

/-- The frame goes on in `phase`; where that waits for the source, the source is called (:115, :139). -/
def enter (s : State T P) (t : T) (f : Frame P) (phase : Phase P) (rest : List (Frame P)) : Option (State T P) :=
  let frames := { f with phase := phase } :: rest
  if phase.waits then
    (s.fSourceCache f.this).map fun source => s.withStack t (⟨source, f.offset, false, .lookup⟩ :: frames)
  else some (s.withStack t frames)

def run (s : State T P) (t : T) (ch : Choice P) : Option (State T P) :=
  match s.stack t with
  | [] => none
  | f :: rest =>
    (underLock (s.fSourceCache f.this) s.data f ch).bind fun (d, outcome) =>
      match outcome with
      | .again => some s
      | .wait phase => enter { s with data := d } t f phase rest
      | .done page => some (give { s with data := d } t page rest)

inductive Call (T P : Type) where
  | getPage (t : T) (this : Cache) (offset : BitVec 32) (privateCopy : Bool)
  | run (t : T) (choice : Choice P)
  | other (page : P) (st : PageState)

/-- A private copy is asked of a cache that has a source (`AddressSpace.cpp:229`). -/
def Call.legal (s : State T P) : Call T P → Prop
  | .getPage t this _ privateCopy =>
    s.stack t = [] ∧ (privateCopy = true → (s.fSourceCache this).isSome = true)
  | .run _ _ => True
  | .other page _ => s.data.fCache page = none

def perform (s : State T P) : Call T P → Option (State T P)
  | .getPage t this offset privateCopy => some (s.withStack t [⟨this, offset, privateCopy, .lookup⟩])
  | .run t ch => run s t ch
  | .other page st => some { s with data := setState s.data page st }

instance (s : State T P) : (c : Call T P) → Decidable (c.legal s)
  | .getPage _ _ _ _ => inferInstanceAs (Decidable (_ ∧ _))
  | .run _ _ => .isTrue trivial
  | .other _ _ => inferInstanceAs (Decidable (_ = _))

def step (s : State T P) (c : Call T P) : Option (State T P) :=
  if c.legal s then perform s c else none

end

/-- After `Bootstrap` (:210) and the construction of the caches: the caches are empty. Which cache has which
source, and what state the pages are in, is arbitrary. -/
def bootstrap (T : Type) {P : Type} (pageCount : Nat) (fState : P → PageState)
    (fSourceCache : Cache → Option Cache) : State T P where
  data :=
    { fState := fState
      fCache := fun _ => none
      fCacheOffset := fun _ => 0
      fPageHashSize := pageHashSize pageCount
      fPageHash := fun _ => []
      fResidentPages := fun _ => [] }
  fSourceCache := fSourceCache
  stack _ := []
  returned _ := none

def system (T P : Type) [DecidableEq T] [DecidableEq P] : StepSystem (State T P) (Call T P) where
  init s := ∃ pageCount fState fSourceCache, s = bootstrap T pageCount fState fSourceCache
  step := step

/-! ## What is promised -/

section
variable {T P : Type}

/-- `GetPage` has returned the page: to a caller of the chain, or to a frame that has not used it yet. -/
def Returned (s : State T P) (page : P) : Prop :=
  (∃ t, s.returned t = some page) ∨ ∃ t, ∃ f ∈ s.stack t, f.phase.got = some page

/-- The page stands in a slot for a frame that waits, as a busy page or a dummy. -/
def StandsIn (s : State T P) (page : P) : Prop := ∃ t, ∃ f ∈ s.stack t, f.phase.standIn = some page

structure CacheRight [DecidableEq T] [DecidableEq P] (s : State T P) : Prop where
  /-- One page for each cache and offset. -/
  unique : ∀ b b' p q, p ∈ s.data.fPageHash b → q ∈ s.data.fPageHash b' → s.data.fCache p = s.data.fCache q →
    s.data.fCacheOffset p = s.data.fCacheOffset q → p = q
  once : ∀ b, (s.data.fPageHash b).Nodup
  /-- A page is in the bucket of its cache and offset. -/
  bucket : ∀ b page, page ∈ s.data.fPageHash b →
    ∃ c, s.data.fCache page = some c ∧ s.data.bucket c (s.data.fCacheOffset page) = b
  resident : ∀ b page c, page ∈ s.data.fPageHash b → s.data.fCache page = some c →
    (s.data.fResidentPages c).Nodup ∧ ∀ c', page ∈ s.data.fResidentPages c' ↔ c' = c
  /-- What was returned is in a cache, and neither busy nor a stand-in. -/
  returned : ∀ page, Returned s page →
    s.data.fState page ≠ .kPageTransition ∧ ¬ StandsIn s page ∧ s.data.fCache page ≠ none
  /-- A call in progress needs no more than a page to allocate. -/
  moves : ∀ t ch, s.stack t ≠ [] → (s.data.fState ch.allocated).available = true → (run s t ch).isSome

/-! ## The invariant -/

def Stands (d : CacheState P) (f : Frame P) (page : P) : Prop :=
  d.fCache page = some f.this ∧ d.fCacheOffset page = f.offset ∧ d.fState page = .kPageTransition

def Served (d : CacheState P) (page : P) : Prop := (∃ c, d.fCache page = some c) ∧ d.fState page = .kPageActive

def standIns (frames : List (Frame P)) : List P := frames.filterMap fun f => f.phase.standIn

def Nested : List (Frame P) → Prop
  | [] => True
  | f :: rest => f.phase.waits = false ∧ ∀ g ∈ rest, g.phase.waits = true

structure Inv (s : State T P) : Prop where
  linked : Linked s.data
  stands : ∀ t, ∀ f ∈ s.stack t, ∀ page, f.phase.standIn = some page → Stands s.data f page
  served : ∀ page, Returned s page → Served s.data page
  nodup : ∀ t, (standIns (s.stack t)).Nodup
  apart : ∀ t t' page, t ≠ t' → page ∈ standIns (s.stack t) → page ∉ standIns (s.stack t')
  nested : ∀ t, Nested (s.stack t)
  copies : ∀ t, ∀ f ∈ s.stack t, f.privateCopy = true → (s.fSourceCache f.this).isSome = true

end

/-! ## Under the lock -/

section
variable {P : Type} {d d' : CacheState P} {f : Frame P} {outcome : Outcome P}

def Same (d d' : CacheState P) (page : P) : Prop :=
  d'.fCache page = d.fCache page ∧ d'.fCacheOffset page = d.fCacheOffset page ∧ d'.fState page = d.fState page

theorem Same.trans {d₁ d₂ d₃ : CacheState P} {page : P} (h : Same d₁ d₂ page) (k : Same d₂ d₃ page) :
    Same d₁ d₃ page :=
  ⟨k.1.trans h.1, k.2.1.trans h.2.1, k.2.2.trans h.2.2⟩

theorem Stands.same {page : P} (h : Stands d f page) (k : Same d d' page) : Stands d' f page :=
  ⟨k.1.trans h.1, k.2.1.trans h.2.1, k.2.2.trans h.2.2⟩

theorem Served.same {page : P} (h : Served d page) (k : Same d d' page) : Served d' page :=
  ⟨h.1.imp fun _ hc => k.1.trans hc, k.2.2.trans h.2⟩

theorem Stands.not_served {page : P} (h : Stands d f page) : ¬ Served d page := by
  rintro ⟨-, hst⟩
  rw [h.2.2] at hst
  cases hst

/-- What a step does that finds the slot empty: it fills it with a page that was in no cache. -/
structure Fills (d d' : CacheState P) (f : Frame P) (outcome : Outcome P) : Prop where
  linked : Linked d'
  kept : ∀ page, d.fCache page ≠ none → Same d d' page
  ends : match outcome with
    | .again => False
    | .wait phase => ∃ page, phase.standIn = some page ∧ phase.got = none ∧ d.fCache page = none ∧ Stands d' f page
    | .done page => Served d' page

/-- What a step under the lock does: pages in caches are untouched, but for the frame's own stand-in. -/
structure Does (d d' : CacheState P) (f : Frame P) (outcome : Outcome P) : Prop where
  linked : Linked d'
  kept : ∀ page, d.fCache page ≠ none → f.phase.standIn ≠ some page → Same d d' page
  ends : match outcome with
    | .again => d' = d
    | .wait phase => ∃ page, phase.standIn = some page ∧ phase.got = none ∧
        (d.fCache page = none ∨ f.phase.standIn = some page) ∧ Stands d' f page
    | .done page => Served d' page

theorem Fills.does (h : Fills d d' f outcome) : Does d d' f outcome := by
  refine ⟨h.linked, fun page hpage _ => h.kept page hpage, ?_⟩
  have hends := h.ends
  cases outcome with
  | again => exact absurd hends not_false
  | done p => exact hends
  | wait phase =>
    obtain ⟨new, hnew, hgot, hnone, hstands⟩ := hends
    exact ⟨new, hnew, hgot, .inl hnone, hstands⟩

variable [DecidableEq P] {ch : Choice P} {source : Option Cache}

theorem alloc_spec (hl : Linked d) {page : P} (h : alloc d page = some d') :
    d' = setState d page .kPageTransition ∧ d.fCache page = none := by
  obtain ⟨ha, h⟩ := ite_none_right_eq_some.1 h
  exact ⟨(Option.some.inj h).symm, hl.fCache_of_available ha⟩

/-- A page that is allocated and put into the empty slot, then set to `st`. -/
theorem fill_spec (st : PageState) (hl : Linked d) (hempty : Empty d f.this f.offset) {page : P}
    (hpage : d.fCache page = none) (hst : st = .kPageActive ∨ st = .kPageTransition) :
    let d' := setState (insertPage (setState d page .kPageTransition) f.this f.offset page) page st
    Linked d' ∧ (∀ q, d.fCache q ≠ none → Same d d' q) ∧ d'.fCache page = some f.this ∧
      d'.fCacheOffset page = f.offset ∧ d'.fState page = st := by
  have hbusy : Linked (setState d page .kPageTransition) := hl.setState (.inl hpage)
  have hin : Linked (insertPage (setState d page .kPageTransition) f.this f.offset page) :=
    hbusy.insertPage hpage hempty (.inr (update_self ..))
  refine ⟨hin.setState (.inr hst), ?_, update_self .., update_self .., update_self ..⟩
  intro q hq
  have hne : q ≠ page := by
    rintro rfl
    exact hq hpage
  refine ⟨update_of_ne hne _ _, update_of_ne hne _ _, ?_⟩
  exact (update_of_ne hne _ _).trans (update_of_ne hne _ _)

section

variable (hl : Linked d) (hempty : Empty d f.this f.offset)
include hl hempty

theorem insertBusy_spec (h : insertBusy d f ch = some d') :
    Linked d' ∧ (∀ q, d.fCache q ≠ none → Same d d' q) ∧ d.fCache ch.allocated = none ∧
      Stands d' f ch.allocated := by
  obtain ⟨d₁, halloc, rfl⟩ := map_eq_some_iff.1 h
  obtain ⟨rfl, hnone⟩ := alloc_spec hl halloc
  obtain ⟨hlinked, hkept, hstands⟩ := fill_spec _ hl hempty hnone (.inr rfl)
  exact ⟨hlinked, hkept, hnone, hstands⟩

theorem anonymous_spec (h : anonymous d f ch = some (d', outcome)) : Fills d d' f outcome := by
  obtain ⟨d₁, halloc, heq⟩ := map_eq_some_iff.1 h
  obtain ⟨rfl, hnone⟩ := alloc_spec hl halloc
  obtain ⟨rfl, rfl⟩ := Prod.mk.inj heq
  obtain ⟨hlinked, hkept, hcache, -, hst⟩ := fill_spec .kPageActive hl hempty hnone (.inl rfl)
  exact ⟨hlinked, hkept, ⟨_, hcache⟩, hst⟩

theorem Fills.of_insertBusy {phase : Phase P}
    (hphase : phase.standIn = some ch.allocated) (hgot : phase.got = none)
    (h : (insertBusy d f ch).map (fun d => (d, Outcome.wait phase)) = some (d', outcome)) :
    Fills d d' f outcome := by
  obtain ⟨d₁, hbusy, heq⟩ := map_eq_some_iff.1 h
  obtain ⟨rfl, rfl⟩ := Prod.mk.inj heq
  obtain ⟨hlinked, hkept, hnone, hstands⟩ := insertBusy_spec hl hempty hbusy
  exact ⟨hlinked, hkept, ch.allocated, hphase, hgot, hnone, hstands⟩

theorem shareSource_spec (h : shareSource source d f ch = some (d', outcome)) : Fills d d' f outcome := by
  unfold shareSource at h
  split at h
  · exact .of_insertBusy hl hempty rfl rfl h
  · exact anonymous_spec hl hempty h

theorem copySource_spec (h : copySource source d f ch = some (d', outcome)) : Fills d d' f outcome := by
  unfold copySource at h
  split at h
  · exact .of_insertBusy hl hempty rfl rfl h
  · exact shareSource_spec hl hempty h

theorem readStore_spec (h : readStore source d f ch = some (d', outcome)) : Fills d d' f outcome := by
  unfold readStore at h
  split at h
  · exact .of_insertBusy hl hempty rfl rfl h
  · exact copySource_spec hl hempty h

end

theorem dropPage_spec (hl : Linked d) {page : P} (hs : Stands d f page) :
    ∃ d₁, dropPage d f page = some d₁ ∧ Linked d₁ ∧ Empty d₁ f.this f.offset ∧
      (∀ q, q ≠ page → Same d d₁ q) ∧ d₁.fCache page = none ∧
      ∀ q, (d.fState q).available = true → (d₁.fState q).available = true := by
  obtain ⟨hcache, hoff, -⟩ := hs
  obtain ⟨d₂, hremove, hlinked, hfc, hfo, hst, hempty⟩ := hl.removePage hcache
  have hnone : d₂.fCache page = none := by
    rw [hfc]
    exact update_self ..
  refine ⟨setState d₂ page .kPageFree, ?_, hlinked.setState (.inl hnone), ?_, ?_, hnone, ?_⟩
  · unfold dropPage
    rw [hremove]
    rfl
  · rw [← hoff]
    exact hempty
  · intro q hq
    refine ⟨?_, congrFun hfo q, ?_⟩
    · rw [setState_fCache, hfc, update_of_ne hq]
    · rw [setState_fState, update_of_ne hq, hst]
  · intro q hq
    rw [setState_fState, update_apply]
    split
    · rfl
    · rw [hst]
      exact hq

theorem Fills.afterDrop {d₁ : CacheState P} {page : P} (h : Fills d₁ d' f outcome)
    (hown : f.phase.standIn = some page) (hsame : ∀ q, q ≠ page → Same d d₁ q) : Does d d' f outcome := by
  refine ⟨h.linked, ?_, ?_⟩
  · intro q hq hne
    have hqp : q ≠ page := by
      rintro rfl
      exact hne hown
    have hq₁ : d₁.fCache q ≠ none := by
      rw [(hsame q hqp).1]
      exact hq
    exact (hsame q hqp).trans (h.kept q hq₁)
  · have hends := h.ends
    cases outcome with
    | again => exact absurd hends not_false
    | done p => exact hends
    | wait phase =>
      obtain ⟨new, hnew, hgot, hnone, hstands⟩ := hends
      refine ⟨new, hnew, hgot, ?_, hstands⟩
      by_cases hnp : new = page
      · exact .inr (hnp ▸ hown)
      · exact .inl ((hsame new hnp).1.symm.trans hnone)

theorem Does.ready (hl : Linked d) {page : P} (hown : f.phase.standIn = some page) (hs : Stands d f page) :
    Does d (setState d page .kPageActive) f (.done page) := by
  refine ⟨hl.setState (.inr (.inl rfl)), ?_, ⟨_, hs.1⟩, update_self ..⟩
  intro q _ hne
  have hqp : q ≠ page := by
    rintro rfl
    exact hne hown
  exact ⟨rfl, rfl, update_of_ne hqp _ _⟩

theorem underLock_spec (hl : Linked d) (hs : ∀ page, f.phase.standIn = some page → Stands d f page)
    (hgot : ∀ page, f.phase.got = some page → Served d page)
    (h : underLock source d f ch = some (d', outcome)) : Does d d' f outcome := by
  unfold underLock at h
  cases hphase : f.phase with
  | lookup =>
    simp only [hphase] at h
    cases hfound : lookupPage d f.this f.offset with
    | none =>
      simp only [hfound] at h
      exact (readStore_spec hl (lookupPage_none hl hfound) h).does
    | some page =>
      simp only [hfound] at h
      obtain ⟨rfl, rfl⟩ := Prod.mk.inj (Option.some.inj h)
      refine ⟨hl, fun q _ _ => ⟨rfl, rfl, rfl⟩, ?_⟩
      split
      case h_1 => rfl
      case h_2 _ heq => split at heq <;> cases heq
      case h_3 p heq =>
        split at heq
        · cases heq
        · rename_i hbusy
          cases heq
          have hcache := (lookupPage_some hfound).1
          rcases hl.states _ _ hcache with hst | hst
          · exact ⟨⟨_, hcache⟩, hst⟩
          · exact absurd hst hbusy
  | reading page =>
    have hown : f.phase.standIn = some page := by rw [hphase]; rfl
    simp only [hphase] at h
    split at h
    · obtain ⟨rfl, rfl⟩ := Prod.mk.inj (Option.some.inj h)
      exact .ready hl hown (hs page hown)
    · obtain ⟨d₁, hdrop, h⟩ := bind_eq_some_iff.1 h
      obtain ⟨_, hdrop', hlinked, hempty, hsame, -⟩ := dropPage_spec hl (hs page hown)
      obtain rfl := Option.some.inj (hdrop'.symm.trans hdrop)
      exact (copySource_spec hlinked hempty h).afterDrop hown hsame
  | copying page sourcePage =>
    have hown : f.phase.standIn = some page := by rw [hphase]; rfl
    simp only [hphase] at h
    match sourcePage, h with
    | some (some _), h =>
      obtain ⟨rfl, rfl⟩ := Prod.mk.inj (Option.some.inj h)
      exact .ready hl hown (hs page hown)
    | some none, h =>
      obtain ⟨d₁, hdrop, h⟩ := bind_eq_some_iff.1 h
      obtain ⟨_, hdrop', hlinked, hempty, hsame, -⟩ := dropPage_spec hl (hs page hown)
      obtain rfl := Option.some.inj (hdrop'.symm.trans hdrop)
      exact (shareSource_spec hlinked hempty h).afterDrop hown hsame
  | sharing dummy sourcePage =>
    have hown : f.phase.standIn = some dummy := by rw [hphase]; rfl
    obtain ⟨d₂, hdrop', hlinked, hempty, hsame, -⟩ := dropPage_spec hl (hs dummy hown)
    simp only [hphase] at h
    match sourcePage, h with
    | some (some page), h =>
      obtain ⟨d₁, hdrop, heq⟩ := map_eq_some_iff.1 h
      obtain rfl := Option.some.inj (hdrop'.symm.trans hdrop)
      obtain ⟨rfl, rfl⟩ := Prod.mk.inj heq
      -- the page of the source can be used, so it is not the dummy
      have hserved := hgot page (by rw [hphase]; rfl)
      have hne : page ≠ dummy := by
        rintro rfl
        exact (hs page hown).not_served hserved
      refine ⟨hlinked, fun q _ hq => hsame q ?_, hserved.same (hsame page hne)⟩
      rintro rfl
      exact hq hown
    | some none, h =>
      obtain ⟨d₁, hdrop, h⟩ := bind_eq_some_iff.1 h
      obtain rfl := Option.some.inj (hdrop'.symm.trans hdrop)
      exact (anonymous_spec hlinked hempty h).afterDrop hown hsame

/-! ## Nothing goes missing under the lock -/

theorem alloc_isSome {page : P} (ha : (d.fState page).available = true) : (alloc d page).isSome = true := by
  unfold alloc
  rw [if_pos ha]
  rfl

section

variable (ha : (d.fState ch.allocated).available = true)
include ha

theorem insertBusy_isSome : (insertBusy d f ch).isSome = true := by
  unfold insertBusy
  rw [isSome_map]
  exact alloc_isSome ha

theorem anonymous_isSome : (anonymous d f ch).isSome = true := by
  unfold anonymous
  rw [isSome_map]
  exact alloc_isSome ha

theorem shareSource_isSome :
    (shareSource source d f ch).isSome = true := by
  unfold shareSource
  split
  · rw [isSome_map]
    exact insertBusy_isSome ha
  · exact anonymous_isSome ha

theorem copySource_isSome :
    (copySource source d f ch).isSome = true := by
  unfold copySource
  split
  · rw [isSome_map]
    exact insertBusy_isSome ha
  · exact shareSource_isSome ha

theorem readStore_isSome :
    (readStore source d f ch).isSome = true := by
  unfold readStore
  split
  · rw [isSome_map]
    exact insertBusy_isSome ha
  · exact copySource_isSome ha

end

/-- A frame that does not wait finds what it looks for, given a page to allocate. -/
theorem underLock_isSome (source : Option Cache) (hl : Linked d)
    (hs : ∀ page, f.phase.standIn = some page → Stands d f page)
    (hwaits : f.phase.waits = false) (ha : (d.fState ch.allocated).available = true) :
    (underLock source d f ch).isSome = true := by
  have hdrop : ∀ page, f.phase.standIn = some page →
      ∃ d₁, dropPage d f page = some d₁ ∧ (d₁.fState ch.allocated).available = true := by
    intro page hown
    obtain ⟨d₁, hd₁, -, -, -, -, havail⟩ := dropPage_spec hl (hs page hown)
    exact ⟨d₁, hd₁, havail _ ha⟩
  unfold underLock
  cases hphase : f.phase with
  | lookup =>
    cases lookupPage d f.this f.offset with
    | none => exact readStore_isSome ha
    | some page => rfl
  | reading page =>
    obtain ⟨d₁, hd₁, ha₁⟩ := hdrop page (by rw [hphase]; rfl)
    dsimp only
    split
    · rfl
    · rw [hd₁]
      exact copySource_isSome ha₁
  | copying page sourcePage =>
    obtain ⟨d₁, hd₁, ha₁⟩ := hdrop page (by rw [hphase]; rfl)
    rw [hphase] at hwaits
    match sourcePage, hwaits with
    | some (some _), _ => rfl
    | some none, _ =>
      dsimp only
      rw [hd₁]
      exact shareSource_isSome ha₁
  | sharing dummy sourcePage =>
    obtain ⟨d₁, hd₁, ha₁⟩ := hdrop dummy (by rw [hphase]; rfl)
    rw [hphase] at hwaits
    match sourcePage, hwaits with
    | some (some page), _ =>
      dsimp only
      rw [hd₁]
      rfl
    | some none, _ =>
      dsimp only
      rw [hd₁]
      exact anonymous_isSome ha₁

theorem shareSource_waits {phase : Phase P} (h : shareSource source d f ch = some (d', .wait phase)) :
    source.isSome = true := by
  unfold shareSource at h
  split at h
  · assumption
  · obtain ⟨_, -, heq⟩ := map_eq_some_iff.1 h
    cases (Prod.mk.inj heq).2

theorem copySource_waits {phase : Phase P} (hcopy : f.privateCopy = true → source.isSome = true)
    (h : copySource source d f ch = some (d', .wait phase)) : source.isSome = true := by
  unfold copySource at h
  split at h
  · exact hcopy ‹_›
  · exact shareSource_waits h

theorem underLock_waits {phase : Phase P} (hcopy : f.privateCopy = true → source.isSome = true)
    (h : underLock source d f ch = some (d', .wait phase)) (hwaits : phase.waits = true) :
    source.isSome = true := by
  unfold underLock at h
  split at h
  · split at h
    · split at h <;> cases (Prod.mk.inj (Option.some.inj h)).2
    · unfold readStore at h
      split at h
      · obtain ⟨_, -, heq⟩ := map_eq_some_iff.1 h
        obtain ⟨-, heq⟩ := Prod.mk.inj heq
        cases heq
        cases hwaits
      · exact copySource_waits hcopy h
  · split at h
    · cases (Prod.mk.inj (Option.some.inj h)).2
    · obtain ⟨_, -, h⟩ := bind_eq_some_iff.1 h
      exact copySource_waits hcopy h
  · cases h
  · cases h
  · cases (Prod.mk.inj (Option.some.inj h)).2
  · obtain ⟨_, -, h⟩ := bind_eq_some_iff.1 h
    exact shareSource_waits h
  · obtain ⟨_, -, heq⟩ := map_eq_some_iff.1 h
    cases (Prod.mk.inj heq).2
  · obtain ⟨_, -, h⟩ := bind_eq_some_iff.1 h
    obtain ⟨_, -, heq⟩ := map_eq_some_iff.1 h
    cases (Prod.mk.inj heq).2

end

/-! ## Steps of the threads -/

section
variable {T P : Type} {s s' : State T P} {t : T} {f : Frame P} {rest frames : List (Frame P)} {d' : CacheState P}

theorem mem_standIns {page : P} : page ∈ standIns frames ↔ ∃ g ∈ frames, g.phase.standIn = some page :=
  mem_filterMap

theorem standIns_cons_some {page : P} (h : f.phase.standIn = some page) :
    standIns (f :: rest) = page :: standIns rest := filterMap_cons_some h

theorem standIns_cons_none (h : f.phase.standIn = none) : standIns (f :: rest) = standIns rest :=
  filterMap_cons_none h

theorem Inv.cached (hi : Inv s) {page : P} (h : page ∈ standIns (s.stack t)) : s.data.fCache page ≠ none := by
  obtain ⟨g, hg, hpage⟩ := mem_standIns.1 h
  rw [(hi.stands t g hg page hpage).1]
  simp

section

variable (hi : Inv s) (hstack : s.stack t = f :: rest)
include hi hstack

theorem Inv.rest_nodup : (standIns rest).Nodup := by
  have hnodup := hi.nodup t
  rw [hstack] at hnodup
  cases hown : f.phase.standIn with
  | none => rwa [standIns_cons_none hown] at hnodup
  | some own =>
    rw [standIns_cons_some hown] at hnodup
    exact (nodup_cons.1 hnodup).2

theorem Inv.own_not_mem {page : P} (h : page ∈ standIns rest) :
    f.phase.standIn ≠ some page := by
  intro hown
  have hnodup := hi.nodup t
  rw [hstack, standIns_cons_some hown] at hnodup
  exact (nodup_cons.1 hnodup).1 h

theorem Inv.rest_stands (hkept : ∀ page, s.data.fCache page ≠ none → f.phase.standIn ≠ some page → Same s.data d' page)
    {g : Frame P} (hg : g ∈ rest) {page : P} (hpage : g.phase.standIn = some page) : Stands d' g page := by
  have hmem : g ∈ s.stack t := by
    rw [hstack]
    exact mem_cons_of_mem f hg
  have hstands := hi.stands t g hmem page hpage
  exact hstands.same (hkept page (by simp [hstands.1]) (hi.own_not_mem hstack (mem_standIns.2 ⟨g, hg, hpage⟩)))

theorem Inv.still_served (hkept : ∀ page, s.data.fCache page ≠ none → f.phase.standIn ≠ some page → Same s.data d' page)
    {page : P} (h : Returned s page) : Served d' page := by
  have hserved := hi.served page h
  obtain ⟨c, hc⟩ := hserved.1
  refine hserved.same (hkept page (by simp [hc]) fun hown => ?_)
  exact (hi.stands t f (by simp [hstack]) page hown).not_served hserved

end

theorem inv_bootstrap (pageCount : Nat) (fState : P → PageState) (fSourceCache : Cache → Option Cache) :
    Inv (bootstrap T pageCount fState fSourceCache) := by
  refine ⟨⟨?_, fun b => nodup_nil, ?_, fun c => nodup_nil, ?_, ?_⟩, ?_, ?_, fun t => nodup_nil,
    ?_, fun t => trivial, ?_⟩
  · intro b page
    simp [bootstrap]
  · intro c page
    simp [bootstrap]
  · intro c p q hp
    cases hp
  · intro c page hp
    cases hp
  · intro t f hf
    cases hf
  · rintro page (⟨t, hret⟩ | ⟨t, f, hf, -⟩)
    · cases hret
    · cases hf
  · intro t t' page _ hp
    cases hp
  · intro t f hf
    cases hf

theorem Inv.does [DecidableEq P] {ch : Choice P} {outcome : Outcome P} (hi : Inv s) (hstack : s.stack t = f :: rest)
    (h : underLock (s.fSourceCache f.this) s.data f ch = some (d', outcome)) : Does s.data d' f outcome := by
  have hf : f ∈ s.stack t := by
    rw [hstack]
    exact .head _
  exact underLock_spec hi.linked (hi.stands t f hf) (fun page hpage => hi.served page (.inr ⟨t, f, hf, hpage⟩)) h

variable [DecidableEq T]

theorem Inv.advance {ret : T → Option P} (hi : Inv s) (hstack : s.stack t = f :: rest) (hlinked : Linked d')
    (hkept : ∀ page, s.data.fCache page ≠ none → f.phase.standIn ≠ some page → Same s.data d' page)
    (hnew : ∀ page ∈ standIns frames,
      page ∈ standIns rest ∨ s.data.fCache page = none ∨ f.phase.standIn = some page)
    (hnodup : (standIns frames).Nodup)
    (hstands : ∀ g ∈ frames, ∀ page, g.phase.standIn = some page → Stands d' g page)
    (hserved : ∀ g ∈ frames, ∀ page, g.phase.got = some page → Served d' page)
    (hret : ∀ t' page, ret t' = some page → s.returned t' = some page ∨ Served d' page)
    (hnested : Nested frames)
    (hcopies : ∀ g ∈ frames, g.privateCopy = true → (s.fSourceCache g.this).isSome = true) :
    Inv { s with
      data := d'
      stack := update s.stack t frames
      returned := ret } := by
  have hself : update s.stack t frames t = frames := update_self ..
  have hother : ∀ t', t' ≠ t → update s.stack t frames t' = s.stack t' :=
    fun t' ht' => update_of_ne ht' ..
  have hmem : ∀ t' g, g ∈ update s.stack t frames t' →
      (t' = t ∧ g ∈ frames) ∨ (t' ≠ t ∧ g ∈ s.stack t') := by
    intro t' g hg
    rw [update_apply] at hg
    split at hg
    · exact .inl ⟨‹_›, hg⟩
    · exact .inr ⟨‹_›, hg⟩
  -- the stand-ins of the other threads are not in the hands of this one
  have hnot : ∀ t' page, t' ≠ t → page ∈ standIns (s.stack t') →
      page ∉ standIns frames ∧ f.phase.standIn ≠ some page := by
    intro t' page ht' hpage
    have hmine : page ∉ standIns (s.stack t) := hi.apart t' t page ht' hpage
    have hown : f.phase.standIn ≠ some page := by
      intro hown
      refine hmine ?_
      rw [hstack, standIns_cons_some hown]
      exact .head _
    refine ⟨fun hin => ?_, hown⟩
    rcases hnew page hin with hrest | hnone | hown'
    · refine hmine (mem_standIns.2 ?_)
      obtain ⟨g, hg, hgp⟩ := mem_standIns.1 hrest
      exact ⟨g, by rw [hstack]; exact mem_cons_of_mem f hg, hgp⟩
    · exact hi.cached hpage hnone
    · exact hown hown'
  refine ⟨hlinked, ?_, ?_, ?_, ?_, ?_, ?_⟩
  · intro t' g hg page hpage
    rcases hmem t' g hg with ⟨-, hg⟩ | ⟨ht', hg⟩
    · exact hstands g hg page hpage
    · have hold := hi.stands t' g hg page hpage
      exact hold.same (hkept page (by simp [hold.1]) (hnot t' page ht' (mem_standIns.2 ⟨g, hg, hpage⟩)).2)
  · rintro page (⟨t', ht'⟩ | ⟨t', g, hg, hgot⟩)
    · rcases hret t' page ht' with hold | hserved
      · exact hi.still_served hstack hkept (.inl ⟨t', hold⟩)
      · exact hserved
    · rcases hmem t' g hg with ⟨-, hg⟩ | ⟨-, hg⟩
      · exact hserved g hg page hgot
      · exact hi.still_served hstack hkept (.inr ⟨t', g, hg, hgot⟩)
  · intro t'
    change (standIns (update s.stack t frames t')).Nodup
    rw [update_apply]
    split
    · exact hnodup
    · exact hi.nodup t'
  · intro t₁ t₂ page hne h₁
    change page ∈ standIns (update s.stack t frames t₁) at h₁
    change page ∉ standIns (update s.stack t frames t₂)
    by_cases ht₁ : t₁ = t
    · rw [ht₁, hself] at h₁
      have ht₂ : t₂ ≠ t := fun ht₂ => hne (ht₁.trans ht₂.symm)
      rw [hother t₂ ht₂]
      exact fun h₂ => (hnot t₂ page ht₂ h₂).1 h₁
    · rw [hother t₁ ht₁] at h₁
      by_cases ht₂ : t₂ = t
      · rw [ht₂, hself]
        exact (hnot t₁ page ht₁ h₁).1
      · rw [hother t₂ ht₂]
        exact hi.apart t₁ t₂ page hne h₁
  · intro t'
    change Nested (update s.stack t frames t')
    rw [update_apply]
    split
    · exact hnested
    · exact hi.nested t'
  · intro t' g hg
    rcases hmem t' g hg with ⟨-, hg⟩ | ⟨-, hg⟩
    · exact hcopies g hg
    · exact hi.copies t' g hg

@[simp] theorem receive_standIn (page : P) (phase : Phase P) : (phase.receive page).standIn = phase.standIn := by
  cases phase <;> rfl

theorem receive_got {page : P} {phase : Phase P} (h : phase.waits = true) : (phase.receive page).got = some page := by
  cases phase with
  | lookup | reading => cases h
  | copying | sharing => rfl

theorem receive_waits {page : P} {phase : Phase P} (h : phase.waits = true) :
    (phase.receive page).waits = false := by
  cases phase with
  | lookup | reading => cases h
  | copying | sharing => rfl

theorem Inv.entered {phase : Phase P} (hi : Inv s) (hstack : s.stack t = f :: rest)
    (hdoes : Does s.data d' f (.wait phase))
    (hframes : ∀ g ∈ frames, g = { f with phase := phase } ∨ g ∈ rest ∨ (g.phase = .lookup ∧ g.privateCopy = false))
    (hins : standIns frames = standIns ({ f with phase := phase } :: rest)) (hnested : Nested frames) :
    Inv { s with
      data := d'
      stack := update s.stack t frames } := by
  obtain ⟨new, hphase, hgot, hfresh, hstands⟩ := hdoes.ends
  have hins : standIns frames = new :: standIns rest := by
    rw [hins]
    exact standIns_cons_some hphase
  have hcached : ∀ page ∈ standIns rest, s.data.fCache page ≠ none ∧ f.phase.standIn ≠ some page := by
    intro page hpage
    refine ⟨hi.cached (t := t) ?_, hi.own_not_mem hstack hpage⟩
    obtain ⟨g, hg, hgp⟩ := mem_standIns.1 hpage
    exact mem_standIns.2 ⟨g, by rw [hstack]; exact mem_cons_of_mem f hg, hgp⟩
  have hnotin : new ∉ standIns rest := by
    intro hin
    obtain ⟨hnone, hown⟩ := hcached new hin
    rcases hfresh with hfresh | hfresh
    · exact hnone hfresh
    · exact hown hfresh
  have hrest : ∀ g ∈ rest, g ∈ s.stack t := by
    intro g hg
    rw [hstack]
    exact mem_cons_of_mem f hg
  refine hi.advance hstack hdoes.linked hdoes.kept ?_ ?_ ?_ ?_ (fun t' page h => .inl h) hnested ?_
  · intro page hpage
    rw [hins] at hpage
    rcases mem_cons.1 hpage with rfl | hpage
    · exact .inr hfresh
    · exact .inl hpage
  · rw [hins]
    exact nodup_cons.2 ⟨hnotin, hi.rest_nodup hstack⟩
  · intro g hg page hpage
    rcases hframes g hg with rfl | hg | ⟨hlookup, -⟩
    · obtain rfl := Option.some.inj (hphase.symm.trans hpage)
      exact hstands
    · exact hi.rest_stands hstack hdoes.kept hg hpage
    · rw [hlookup] at hpage
      cases hpage
  · intro g hg page hpage
    rcases hframes g hg with rfl | hg | ⟨hlookup, -⟩
    · exact absurd (hgot.symm.trans hpage) (by simp)
    · exact hi.still_served hstack hdoes.kept (.inr ⟨t, g, hrest g hg, hpage⟩)
    · rw [hlookup] at hpage
      cases hpage
  · intro g hg hcopy
    rcases hframes g hg with rfl | hg | ⟨-, hno⟩
    · exact hi.copies t f (by simp [hstack]) hcopy
    · exact hi.copies t g (hrest g hg) hcopy
    · rw [hno] at hcopy
      cases hcopy

theorem Inv.gave {page : P} (hi : Inv s) (hstack : s.stack t = f :: rest) (hdoes : Does s.data d' f (.done page)) :
    Inv (give { s with data := d' } t page rest) := by
  have hserved : Served d' page := hdoes.ends
  have hnested := hi.nested t
  rw [hstack] at hnested
  cases rest with
  | nil =>
    refine hi.advance hstack hdoes.linked hdoes.kept ?_ nodup_nil ?_ ?_ ?_ trivial ?_
    · intro p hp
      cases hp
    · intro g hg
      cases hg
    · intro g hg
      cases hg
    · intro t' p hp
      rw [update_apply] at hp
      split at hp
      · cases hp
        exact .inr hserved
      · exact .inl hp
    · intro g hg
      cases hg
  | cons g rest =>
    have hwaits : g.phase.waits = true := hnested.2 g (.head _)
    -- the page changes hands, the stand-in of the caller stays
    have hins : standIns ({ g with phase := g.phase.receive page } :: rest) = standIns (g :: rest) := by
      simp only [standIns, filterMap_cons, receive_standIn]
    have hold : ∀ k ∈ g :: rest, k ∈ s.stack t := by
      intro k hk
      rw [hstack]
      exact mem_cons_of_mem f hk
    refine hi.advance hstack hdoes.linked hdoes.kept ?_ ?_ ?_ ?_ (fun t' p h => .inl h) ?_ ?_
    · intro p hp
      rw [hins] at hp
      exact .inl hp
    · rw [hins]
      exact hi.rest_nodup hstack
    · intro k hk p hp
      rcases mem_cons.1 hk with rfl | hk
      · rw [receive_standIn] at hp
        exact hi.rest_stands hstack hdoes.kept (g := g) (.head _) hp
      · exact hi.rest_stands hstack hdoes.kept (mem_cons_of_mem g hk) hp
    · intro k hk p hp
      rcases mem_cons.1 hk with rfl | hk
      · obtain rfl := Option.some.inj ((receive_got hwaits).symm.trans hp)
        exact hserved
      · exact hi.still_served hstack hdoes.kept (.inr ⟨t, k, hold k (mem_cons_of_mem g hk), hp⟩)
    · exact ⟨receive_waits hwaits, fun k hk => hnested.2 k (mem_cons_of_mem g hk)⟩
    · intro k hk hcopy
      rcases mem_cons.1 hk with rfl | hk
      · exact hi.copies t g (hold g (.head _)) hcopy
      · exact hi.copies t k (hold k (mem_cons_of_mem g hk)) hcopy

variable [DecidableEq P]

theorem Inv.run {ch : Choice P} (hi : Inv s) (h : run s t ch = some s') : Inv s' := by
  unfold PageCache.run at h
  cases hstack : s.stack t with
  | nil =>
    rw [hstack] at h
    cases h
  | cons f rest =>
    simp only [hstack] at h
    obtain ⟨⟨d', outcome⟩, hlock, h⟩ := bind_eq_some_iff.1 h
    have hdoes := hi.does hstack hlock
    have hnested := hi.nested t
    rw [hstack] at hnested
    cases outcome with
    | again =>
      cases h
      exact hi
    | done page =>
      cases h
      exact hi.gave hstack hdoes
    | wait phase =>
      dsimp only [enter] at h
      split at h
      · rename_i hwaits
        obtain ⟨source, -, rfl⟩ := map_eq_some_iff.1 h
        refine hi.entered hstack hdoes ?_ rfl ?_
        · intro g hg
          rcases mem_cons.1 hg with rfl | hg
          · exact .inr (.inr ⟨rfl, rfl⟩)
          · rcases mem_cons.1 hg with rfl | hg
            · exact .inl rfl
            · exact .inr (.inl hg)
        · refine ⟨rfl, fun g hg => ?_⟩
          rcases mem_cons.1 hg with rfl | hg
          · exact hwaits
          · exact hnested.2 g hg
      · rename_i hwaits
        cases h
        refine hi.entered hstack hdoes ?_ rfl ⟨by simpa using hwaits, hnested.2⟩
        intro g hg
        rcases mem_cons.1 hg with rfl | hg
        · exact .inl rfl
        · exact .inr (.inl hg)

theorem Inv.step {c : Call T P} (hi : Inv s) (h : step s c = some s') : Inv s' := by
  obtain ⟨hlegal, h⟩ := ite_none_right_eq_some.1 h
  cases c with
  | getPage t this offset privateCopy =>
    obtain ⟨hidle, hcopy⟩ := hlegal
    cases h
    have hmem : ∀ t' g, g ∈ update s.stack t [⟨this, offset, privateCopy, .lookup⟩] t' →
        g = ⟨this, offset, privateCopy, .lookup⟩ ∨ g ∈ s.stack t' := by
      intro t' g hg
      rw [update_apply] at hg
      split at hg
      · exact .inl (mem_singleton.1 hg)
      · exact .inr hg
    have hins : ∀ t', standIns (update s.stack t [⟨this, offset, privateCopy, .lookup⟩] t') =
        standIns (s.stack t') := by
      intro t'
      rw [update_apply]
      split
      · subst t'
        rw [hidle]
        rfl
      · rfl
    refine ⟨hi.linked, ?_, ?_, ?_, ?_, ?_, ?_⟩
    · intro t' g hg page hpage
      rcases hmem t' g hg with rfl | hg
      · cases hpage
      · exact hi.stands t' g hg page hpage
    · rintro page (hret | ⟨t', g, hg, hgot⟩)
      · exact hi.served page (.inl hret)
      · rcases hmem t' g hg with rfl | hg
        · cases hgot
        · exact hi.served page (.inr ⟨t', g, hg, hgot⟩)
    · intro t'
      change (standIns (update s.stack t _ t')).Nodup
      rw [hins t']
      exact hi.nodup t'
    · intro t₁ t₂ page hne h₁
      change page ∈ standIns (update s.stack t _ t₁) at h₁
      change page ∉ standIns (update s.stack t _ t₂)
      rw [hins t₁] at h₁
      rw [hins t₂]
      exact hi.apart t₁ t₂ page hne h₁
    · intro t'
      change Nested (update s.stack t _ t')
      rw [update_apply]
      split
      · exact ⟨rfl, fun g hg => by cases hg⟩
      · exact hi.nested t'
    · intro t' g hg
      rcases hmem t' g hg with rfl | hg
      · exact hcopy
      · exact hi.copies t' g hg
  | run t ch => exact hi.run h
  | other page st =>
    cases h
    -- a page in no cache is nobody's stand-in and was not returned
    have hnone : s.data.fCache page = none := hlegal
    have hsame : ∀ q, s.data.fCache q ≠ none → Same s.data (setState s.data page st) q := by
      intro q hq
      refine ⟨rfl, rfl, update_of_ne ?_ ..⟩
      rintro rfl
      exact hq hnone
    refine ⟨hi.linked.setState (.inl hnone), ?_, ?_, hi.nodup, hi.apart, hi.nested, hi.copies⟩
    · intro t g hg p hp
      have hold := hi.stands t g hg p hp
      exact hold.same (hsame p (by simp [hold.1]))
    · intro p hp
      have hold := hi.served p hp
      obtain ⟨c, hc⟩ := hold.1
      exact hold.same (hsame p (by simp [hc]))

theorem Inv.moves {ch : Choice P} (hi : Inv s) (hstack : s.stack t ≠ [])
    (ha : (s.data.fState ch.allocated).available = true) : (PageCache.run s t ch).isSome = true := by
  obtain ⟨f, rest, hstack⟩ := exists_cons_of_ne_nil hstack
  have hf : f ∈ s.stack t := by
    rw [hstack]
    exact .head _
  have hnested := hi.nested t
  rw [hstack] at hnested
  obtain ⟨⟨d', outcome⟩, hlock⟩ := isSome_iff_exists.1
    (underLock_isSome (s.fSourceCache f.this) hi.linked (hi.stands t f hf) hnested.1 ha)
  unfold PageCache.run
  simp only [hstack, hlock, bind_some]
  cases outcome with
  | again | done => rfl
  | wait phase =>
    dsimp only [enter]
    split
    · rename_i hwaits
      rw [isSome_map]
      exact underLock_waits (hi.copies t f hf) hlock hwaits
    · rfl

theorem Inv.right (hi : Inv s) : CacheRight s := by
  refine ⟨?_, hi.linked.hash_nodup, fun b page => (hi.linked.hash_mem b page).1, ?_, ?_,
    fun t ch hstack ha => hi.moves hstack ha⟩
  · intro b b' p q hp hq hcache hoff
    obtain ⟨c, hc, -⟩ := (hi.linked.hash_mem b p).1 hp
    exact hi.linked.slot c p q hc (hcache.symm.trans hc) hoff
  · intro b page c _ hc
    refine ⟨hi.linked.resident_nodup c, fun c' => ?_⟩
    rw [hi.linked.resident_mem c' page, hc, Option.some.injEq, eq_comm]
  · intro page hret
    have hserved := hi.served page hret
    refine ⟨by simp [hserved.2], ?_, ?_⟩
    · rintro ⟨t, f, hf, hown⟩
      exact (hi.stands t f hf page hown).not_served hserved
    · obtain ⟨c, hc⟩ := hserved.1
      simp [hc]

/-- **The page cache is unique.** Whatever the order in which threads take the lock, each cache and offset has
one page, linked where it belongs, and `GetPage` returns neither a busy page nor a dummy. -/
theorem getPage_unique {s : State T P} (h : (system T P).Reach s) : CacheRight s := by
  refine Inv.right (h.invariant Inv ?_ fun _ _ _ hi hst => hi.step hst)
  rintro _ ⟨pageCount, fState, fSourceCache, rfl⟩
  exact inv_bootstrap pageCount fState fSourceCache

theorem bootstrap_reach (pageCount : Nat) (fState : P → PageState) (fSourceCache : Cache → Option Cache) :
    (system T P).Reach (bootstrap T pageCount fState fSourceCache) := .init ⟨pageCount, fState, fSourceCache, rfl⟩

end

/-- Two threads fault on one page of a copy: one makes the private copy, behind a page that its source reads,
the other finds it busy and gets the copy in the end. -/
theorem getPage_unique_run : ∃ s, (system Bool (Fin 4)).Reach s ∧ CacheRight s ∧
    s.returned false = some 0 ∧ s.returned true = some 0 ∧
    s.data.fCache 0 = some 0x1000 ∧ s.data.fCache 1 = some 0x2000 := by
  let start : State Bool (Fin 4) :=
    bootstrap Bool 4096 (fun _ => .kPageFree) fun c => if c = 0x1000 then some 0x2000 else none
  let calls : List (Call Bool (Fin 4)) := [.getPage false 0x1000 0 true, .run false ⟨0, false, false⟩,
    .getPage true 0x1000 0 false, .run true ⟨1, false, false⟩, .run false ⟨1, true, false⟩, .other 2 .kPageWired,
    .run false ⟨3, false, true⟩, .run true ⟨3, false, false⟩, .run false ⟨3, false, false⟩,
    .run true ⟨3, false, false⟩]
  have hrun : ((system Bool (Fin 4)).exec start calls).map (fun s =>
      decide (s.returned false = some 0 ∧ s.returned true = some 0 ∧
        s.data.fCache 0 = some 0x1000 ∧ s.data.fCache 1 = some 0x2000)) = some true := by
    decide +kernel
  obtain ⟨s, hs, hfacts⟩ := Option.map_eq_some_iff.1 hrun
  have hreach : (system Bool (Fin 4)).Reach s := StepSystem.reach_exec calls (bootstrap_reach ..) hs
  exact ⟨s, hreach, getPage_unique hreach, of_decide_eq_true hfacts⟩

end PageCache
