import Mathlib.Data.List.GetD
import Mathlib.Logic.Function.Basic
import Mathlib.Tactic.Common
import SkyOS.Lib.StepSystem

/-!
# The keyboard buffer (`KeyBoard/KeyboardController.cpp`)

The interrupt handler puts characters behind each other from `buffer[1]` on, and `GetInput` moves all of them down by one,
so that the first is in `buffer[0]`, which it returns. Only the move is a critical section: that there is a character is
tested before it, and the result is read after it.

| here | there |
| --- | --- |
| `none` | an access outside `buffer`; as a step, also one that the thread is not at |
| `behind` | what is in memory behind the end of a table |
| `Pc` | where a thread is in `GetInput`: before the test has succeeded, before the section, or before the return |
| `results` | for each critical section, in order, what its call has returned |
| `arrived` | what the handler has queued, in order |
| `overrun` | a character has come while the buffer was full |
-/

namespace KeyBoard

open Option

/-! ## The source -/

def KEYBUFFSIZE : Nat := 129

def CapsLock : UInt8 := 0x04

def NumLock : UInt8 := 0x02

def ScrollLock : UInt8 := 0x01

def row (keys : List Char) : List UInt8 := keys.map Char.toUInt8

/-- `normal` (:35). -/
def normal : List UInt8 :=
  [0x00, 0x1B] ++ row ['1', '2', '3', '4', '5', '6', '7', '8', '9', '0', '-', '='] ++ [0x08, 0x09] ++
  row ['q', 'w', 'e', 'r', 't', 'y', 'u', 'i', 'o', 'p', '[', ']'] ++ [0x0D, 0x80] ++
  row ['a', 's', 'd', 'f', 'g', 'h', 'j', 'k', 'l', ';'] ++ [0x27, 0x60, 0x80, 0x5C] ++
  row ['z', 'x', 'c', 'v', 'b', 'n', 'm', ',', '.', '/'] ++ [0x80] ++ row ['*'] ++ [0x80] ++ row [' '] ++
  List.replicate 24 0x80 ++ row ['0'] ++ [0x7F]

/-- `shifted` (:46), for a shift key that is down. -/
def shifted : List UInt8 :=
  [0x00, 0x1B] ++ row ['!', '@', '#', '$', '%', '^', '&', '*', '(', ')', '_', '+'] ++ [0x08, 0x09] ++
  row ['Q', 'W', 'E', 'R', 'T', 'Y', 'U', 'I', 'O', 'P'] ++ [0x7B, 0x7D, 0x0D, 0x80] ++
  row ['A', 'S', 'D', 'F', 'G', 'H', 'J', 'K', 'L', ':'] ++ [0x22, 0x7E, 0x80] ++
  row ['|', 'Z', 'X', 'C', 'V', 'B', 'N', 'M', '<', '>', '?'] ++ [0x80] ++ row ['*'] ++ [0x80] ++ row [' '] ++
  List.replicate 13 0x80 ++ row ['7', '8', '9'] ++ [0x80] ++ row ['4', '5', '6'] ++ [0x80] ++
  row ['1', '2', '3', '0'] ++ [177]

/-- `capsNormal` (:58). -/
def capsNormal : List UInt8 :=
  [0x00, 0x1B] ++ row ['1', '2', '3', '4', '5', '6', '7', '8', '9', '0', '-', '='] ++ [0x08, 0x09] ++
  row ['Q', 'W', 'E', 'R', 'T', 'Y', 'U', 'I', 'O', 'P', '[', ']'] ++ [0x0D, 0x80] ++
  row ['A', 'S', 'D', 'F', 'G', 'H', 'J', 'K', 'L', ';'] ++ [0x27, 0x60, 0x80] ++
  row ['|', 'Z', 'X', 'C', 'V', 'B', 'N', 'M', ',', '.', '/'] ++ [0x80] ++ row ['*'] ++ [0x80] ++ row [' '] ++
  List.replicate 24 0x80 ++ row ['0'] ++ [0x7F]

/-- `capsShifted` (:71). -/
def capsShifted : List UInt8 :=
  [0x00, 0x1B] ++ row ['!', '@', '#', '$', '%', '^', '&', '*', '(', ')', '_', '+'] ++ [0x08, 0x09] ++
  row ['q', 'w', 'e', 'r', 't', 'y', 'u', 'i', 'o', 'p'] ++ [0x7B, 0x7D, 0x0D, 0x80] ++
  row ['a', 's', 'd', 'f', 'g', 'h', 'j', 'k', 'l', ':'] ++ [0x22, 0x7E, 0x80, 0x5C] ++
  row ['z', 'x', 'c', 'v', 'b', 'n', 'm', '<', '>', '?'] ++ [0x80] ++ row ['*'] ++ [0x80] ++ row [' '] ++
  List.replicate 13 0x80 ++ row ['7', '8', '9'] ++ [0x80] ++ row ['4', '5', '6'] ++ [0x80] ++
  row ['1', '2', '3', '0'] ++ [177]

structure Keys where
  shift : Bool
  ctrl : Bool
  alt : Bool
  caps : Bool
  num : Bool
  leds : UInt8
  specKeyUp : Bool

/-- `UpdateLeds` (:90), without the ports. -/
def UpdateLeds (leds led : UInt8) : UInt8 :=
  if led = 0 then 0 else if leds = leds ||| led then leds ^^^ led else leds ||| led

/-- `FKey[i].enabled`: no function is ever assigned. -/
def FKey_enabled : Bool := false

/-- `SpecialKey` (:144): whether the key is one, and the state after it. -/
def SpecialKey (k : Keys) (key : UInt8) : Bool × Keys :=
  if key = 0x36 ∨ key = 0x2A then (true, { k with shift := true })
  else if key = 0xB6 ∨ key = 0xAA then (true, { k with shift := false })
  else if key = 0x1D then (true, { k with ctrl := true })
  else if key = 0x9D then (true, { k with ctrl := false })
  else if key = 0x38 then (true, { k with alt := true })
  else if key = 0xB8 then (true, { k with alt := false })
  else if key = 0x3A then (true, if k.specKeyUp then
    { k with caps := !k.caps, leds := UpdateLeds k.leds CapsLock, specKeyUp := false } else k)
  else if key = 0x45 then (true, if k.specKeyUp then
    { k with num := !k.num, leds := UpdateLeds k.leds NumLock, specKeyUp := false } else k)
  else if key = 0x46 then (true, if k.specKeyUp then
    { k with num := !k.num, leds := UpdateLeds k.leds ScrollLock, specKeyUp := false } else k)
  else if 0x3B ≤ key ∧ key ≤ 0x44 then (true, if k.specKeyUp && FKey_enabled then { k with specKeyUp := false } else k)
  else if 0xBA ≤ key ∧ key ≤ 0xC6 then (true, { k with specKeyUp := true })
  else if key = 0xE0 then (true, k)
  else (false, k)

structure Controller where
  keys : Keys
  buffer : Vector UInt8 KEYBUFFSIZE
  buffend : Int

def Controller.start : Controller :=
  ⟨⟨false, false, false, false, false, 0, true⟩, Vector.replicate KEYBUFFSIZE 0, 0⟩

section

variable (behind : Bool → Bool → UInt8 → UInt8)

/-- The table for the state of shift and caps lock, at a scan code (:348-:369). -/
def asciiCode (k : Keys) (scanCode : UInt8) : UInt8 :=
  let table := if k.shift then (if k.caps then capsShifted else shifted) else (if k.caps then capsNormal else normal)
  table[scanCode.toNat]?.getD (behind k.shift k.caps scanCode)

/-- What the handler queues for a scan code: the character of a key that goes down, and 0x85 for the left alt key. -/
def queuedCode (k : Keys) (scanCode : UInt8) : Option UInt8 :=
  if !((SpecialKey k scanCode).1 || decide (0x80 ≤ scanCode)) then
    some (asciiCode behind (SpecialKey k scanCode).2 scanCode)
  else if scanCode = 0x38 then some 0x85
  else none

/-- One place on, unless the buffer is full, and the code there (:372-:376). -/
def Controller.put (c : Controller) (code : UInt8) : Option Controller :=
  let buffend := if c.buffend ≠ KEYBUFFSIZE - 1 then c.buffend + 1 else c.buffend
  if h : 0 ≤ buffend ∧ buffend < KEYBUFFSIZE then
    some { c with buffer := c.buffer.set buffend.toNat code (by omega), buffend := buffend }
  else none

/-- `HandleKeyboardInterrupt` (:340). -/
def HandleKeyboardInterrupt (c : Controller) (scanCode : UInt8) : Option Controller :=
  let c' := { c with keys := (SpecialKey c.keys scanCode).2 }
  match queuedCode behind c.keys scanCode with
  | some code => c'.put code
  | none => some c'

end

/-- The loop of `GetInput` (:330) from `i` on, with so many rounds to go. -/
def moveDown (buffer : Vector UInt8 KEYBUFFSIZE) (i : Nat) : Nat → Option (Vector UInt8 KEYBUFFSIZE)
  | 0 => some buffer
  | rounds + 1 =>
    if h : i + 1 < KEYBUFFSIZE then moveDown (buffer.set i buffer[i + 1] (Nat.lt_of_succ_lt h)) (i + 1) rounds else none

/-- The critical section of `GetInput` (:328-:336). -/
def Controller.takeFirst (c : Controller) : Option Controller :=
  (moveDown c.buffer 0 c.buffend.toNat).map fun buffer => { c with buffer := buffer, buffend := c.buffend - 1 }

/-- `buffer[0]` -/
def Controller.first (c : Controller) : UInt8 := c.buffer.get ⟨0, by decide⟩

/-! ## Threads and interrupts -/

inductive Pc where
  | waiting
  | ready
  | left (n : Nat)
  deriving DecidableEq

structure State (τ : Type*) where
  controller : Controller
  pc : τ → Pc
  results : List (Option UInt8)
  arrived : List UInt8
  overrun : Bool

inductive Action (τ : Type*) where
  | interrupt (scanCode : UInt8)
  | test (t : τ)
  | critical (t : τ)
  | answer (t : τ)

/-- The thread is where the step is in `GetInput`. -/
def Enabled {τ : Type*} (s : State τ) : Action τ → Prop
  | .interrupt _ => True
  | .test t => s.pc t = .waiting
  | .critical t => s.pc t = .ready
  | .answer t => ∃ n, s.pc t = .left n

section

variable {τ : Type*} [DecidableEq τ] (behind : Bool → Bool → UInt8 → UInt8)

/-- A thread that has returned calls `GetInput` again. -/
def step (s : State τ) : Action τ → Option (State τ)
  | .interrupt scanCode => (HandleKeyboardInterrupt behind s.controller scanCode).map fun c =>
    { s with
      controller := c
      arrived := s.arrived ++ (queuedCode behind s.controller.keys scanCode).toList
      overrun := s.overrun ||
        ((queuedCode behind s.controller.keys scanCode).isSome && decide (s.controller.buffend = KEYBUFFSIZE - 1)) }
  | .test t =>
    if s.pc t = .waiting then
      -- an empty buffer makes the thread sleep and test again
      some (if s.controller.buffend = 0 then s else { s with pc := Function.update s.pc t .ready })
    else none
  | .critical t =>
    if s.pc t = .ready then
      s.controller.takeFirst.map fun c =>
        { s with
          controller := c
          pc := Function.update s.pc t (.left s.results.length)
          results := s.results ++ [none] }
    else none
  | .answer t =>
    match s.pc t with
    | .left n => some
      { s with
        pc := Function.update s.pc t .waiting
        results := s.results.set n (some s.controller.first) }
    | _ => none

/-- No thread is in `GetInput` and no key has been pressed when it begins. -/
def keyboard (τ : Type*) [DecidableEq τ] : StepSystem (State τ) (Action τ) where
  init s := s = ⟨.start, fun _ => .waiting, [], [], false⟩
  step := step behind

end

/-! ## What is to hold -/

variable {τ : Type*}

/-- The bounds of `buffend`; and unless the buffer has overrun, every call that is over has returned the character whose
turn it was, and the buffer holds those that have arrived since. -/
structure Right (s : State τ) : Prop where
  low : 0 ≤ s.controller.buffend
  high : s.controller.buffend ≤ KEYBUFFSIZE - 1
  answered : s.overrun = false → ∀ (n : Nat) (c : UInt8), s.results[n]? = some (some c) → s.arrived[n]? = some c
  taken : s.overrun = false → (s.results.length : Int) + s.controller.buffend = s.arrived.length
  queued : s.overrun = false → ∀ j : Nat, (j : Int) < s.controller.buffend →
    s.controller.buffer[j + 1]? = s.arrived[s.results.length + j]?

/-- A step that a thread is at stays inside the buffer and leaves everything right. -/
def StepRight [DecidableEq τ] (behind : Bool → Bool → UInt8 → UInt8) (s : State τ) (a : Action τ) : Prop :=
  Enabled s a → ∃ s', step behind s a = some s' ∧ Right s'

/-- A section is entered only while there is a character, and the result is read while the last section is the thread's
own, or has taken the same character. -/
def Orderly (s : State τ) : Action τ → Prop
  | .critical t => s.pc t = .ready → s.controller.buffend ≠ 0
  | .answer t => ∀ n, s.pc t = .left n → s.overrun = false → s.arrived[n]? = s.arrived[s.results.length - 1]?
  | _ => True

/-- Besides, `buffer[0]` is the last character taken, and a section whose thread is to return is that thread's alone. -/
structure Inv (s : State τ) : Prop extends Right s where
  last : s.overrun = false → 0 < s.results.length → s.arrived[s.results.length - 1]? = some s.controller.first
  pending : ∀ t n, s.pc t = .left n → s.results[n]? = some none
  alone : ∀ t u n, s.pc t = .left n → s.pc u = .left n → t = u

/-! ## The two operations on the buffer -/

theorem moveDown_spec (buffer : Vector UInt8 KEYBUFFSIZE) (i rounds : Nat) (h : i + rounds < KEYBUFFSIZE) :
    ∃ buffer', moveDown buffer i rounds = some buffer' ∧
      ∀ j : Nat, buffer'[j]? = if i ≤ j ∧ j < i + rounds then buffer[j + 1]? else buffer[j]? := by
  induction rounds generalizing buffer i with
  | zero => exact ⟨buffer, rfl, fun j => by rw [if_neg (by omega)]⟩
  | succ rounds ih =>
    have hi : i + 1 < KEYBUFFSIZE := by omega
    obtain ⟨buffer', hmove, hget⟩ := ih (buffer.set i buffer[i + 1] (Nat.lt_of_succ_lt hi)) (i + 1) (by omega)
    refine ⟨buffer', by rw [moveDown, dif_pos hi, hmove], fun j => ?_⟩
    rw [hget j]
    by_cases hj : j = i
    · subst hj
      rw [if_neg (by omega), if_pos (by omega), Vector.getElem?_set_self (by omega), Vector.getElem?_eq_getElem hi]
    · by_cases hin : i ≤ j ∧ j < i + (rounds + 1)
      · rw [if_pos hin, if_pos (by omega), Vector.getElem?_set_ne (by omega) (by omega)]
      · rw [if_neg hin, if_neg (by omega), Vector.getElem?_set_ne (by omega) (by omega)]

theorem Controller.first_eq (c : Controller) : c.buffer[0]? = some c.first :=
  Vector.getElem?_eq_getElem (by decide)

theorem Controller.takeFirst_spec (c : Controller) (hhigh : c.buffend ≤ KEYBUFFSIZE - 1) :
    ∃ c', c.takeFirst = some c' ∧ c'.buffend = c.buffend - 1 ∧
      ∀ j : Nat, (j : Int) < c.buffend → c'.buffer[j]? = c.buffer[j + 1]? := by
  have hrounds : 0 + c.buffend.toNat < KEYBUFFSIZE := by
    have : 0 < KEYBUFFSIZE := by decide
    omega
  obtain ⟨buffer', hmove, hget⟩ := moveDown_spec c.buffer 0 c.buffend.toNat hrounds
  refine ⟨{ c with buffer := buffer', buffend := c.buffend - 1 }, ?_, rfl, fun j hj => ?_⟩
  · rw [Controller.takeFirst, hmove]
    rfl
  · rw [hget j, if_pos (by omega)]

theorem Controller.put_spec (c : Controller) (code : UInt8) (hlow : 0 ≤ c.buffend) (hhigh : c.buffend ≤ KEYBUFFSIZE - 1) :
    ∃ c', c.put code = some c' ∧ c'.first = c.first ∧
      (c.buffend = KEYBUFFSIZE - 1 → c'.buffend = c.buffend) ∧
      (c.buffend ≠ KEYBUFFSIZE - 1 → c'.buffend = c.buffend + 1 ∧ c'.buffer[c.buffend.toNat + 1]? = some code ∧
        ∀ j : Nat, (j : Int) ≤ c.buffend → c'.buffer[j]? = c.buffer[j]?) := by
  have hsize : KEYBUFFSIZE = 129 := rfl
  -- the place written is never `buffer[0]`
  have hplace : ∀ place : Int, 0 < place → (hin : 0 ≤ place ∧ place < KEYBUFFSIZE) →
      (c.buffer.set place.toNat code (by omega)).get ⟨0, by decide⟩ = c.buffer.get ⟨0, by decide⟩ := fun place hpos hin =>
    Vector.getElem_set_ne _ _ (by omega)
  by_cases hfull : c.buffend = KEYBUFFSIZE - 1
  · have hin : 0 ≤ c.buffend ∧ c.buffend < KEYBUFFSIZE := by omega
    refine ⟨{ c with buffer := c.buffer.set c.buffend.toNat code (by omega) }, ?_, hplace _ (by omega) hin,
      fun _ => rfl, fun hne => absurd hfull hne⟩
    simp only [Controller.put, if_neg (not_not.2 hfull), dif_pos hin]
  · have hin : 0 ≤ c.buffend + 1 ∧ c.buffend + 1 < KEYBUFFSIZE := by omega
    refine ⟨{ c with buffer := c.buffer.set (c.buffend + 1).toNat code (by omega), buffend := c.buffend + 1 }, ?_,
      hplace _ (by omega) hin, fun h => absurd h hfull, fun _ => ⟨rfl, ?_, fun j hj => ?_⟩⟩
    · simp only [Controller.put, if_pos hfull, dif_pos hin]
    · have hnat : (c.buffend + 1).toNat = c.buffend.toNat + 1 := by omega
      simp only [hnat]
      exact Vector.getElem?_set_self (by omega)
    · exact Vector.getElem?_set_ne (by omega) (by omega)

open List

/-! ## Steps -/

section

variable {s s' : State τ}

theorem Inv.length_le (h : Inv s) (hover : s.overrun = false) : s.results.length ≤ s.arrived.length := by
  have := h.taken hover
  have := h.low
  omega

theorem Inv.queue (h : Inv s) (keys : Keys) (code : UInt8) (overrun : Bool)
    (hover : overrun = false → s.overrun = false ∧ s.controller.buffend ≠ KEYBUFFSIZE - 1) :
    ∃ c', ({ s.controller with keys := keys } : Controller).put code = some c' ∧
      s.controller.buffend ≤ c'.buffend ∧
      Inv { s with controller := c', arrived := s.arrived ++ [code], overrun := overrun } := by
  obtain ⟨c', hput, hfirst, hfull, hroom⟩ :=
    Controller.put_spec ({ s.controller with keys := keys } : Controller) code h.low h.high
  have hlow := h.low
  have hhigh := h.high
  have hbounds : s.controller.buffend ≤ c'.buffend ∧ c'.buffend ≤ KEYBUFFSIZE - 1 := by
    by_cases hb : s.controller.buffend = KEYBUFFSIZE - 1
    · rw [hfull hb]
      exact ⟨Int.le_refl _, hhigh⟩
    · rw [(hroom hb).1]
      dsimp only
      omega
  refine ⟨c', hput, hbounds.1, ⟨Int.le_trans hlow hbounds.1, hbounds.2, fun ho n c hn => ?_, fun ho => ?_,
    fun ho j hj => ?_⟩, fun ho hpos => ?_, h.pending, h.alone⟩
  · -- the characters returned are among those that were there before
    have harrived := h.answered (hover ho).1 n c hn
    have hlt : n < s.arrived.length := (List.getElem?_eq_some_iff.1 harrived).1
    rw [List.getElem?_append_left hlt, harrived]
  · have htaken := h.taken (hover ho).1
    have hend := (hroom (hover ho).2).1
    simp only [length_append, length_singleton]
    dsimp only at hend
    omega
  · obtain ⟨hend, hcode, hkept⟩ := hroom (hover ho).2
    have htaken := h.taken (hover ho).1
    dsimp only at hend hcode hkept hj ⊢
    by_cases hold : (j : Int) < s.controller.buffend
    · rw [hkept (j + 1) (by omega), h.queued (hover ho).1 j hold, List.getElem?_append_left (by omega)]
    · have hj' : j = s.controller.buffend.toNat := by omega
      rw [hj', hcode, List.getElem?_append_right (by omega),
        show s.results.length + s.controller.buffend.toNat - s.arrived.length = 0 by omega]
      rfl
  · have hle := h.length_le (hover ho).1
    dsimp only at hpos ⊢
    rw [List.getElem?_append_left (by omega), h.last (hover ho).1 hpos, hfirst]
    rfl

variable [DecidableEq τ] {behind : Bool → Bool → UInt8 → UInt8} {t : τ}

variable (behind) in
theorem Inv.interrupt (h : Inv s) (scanCode : UInt8) :
    ∃ s', step behind s (.interrupt scanCode) = some s' ∧
      (s'.pc = s.pc ∧ s'.results = s.results ∧ s.controller.buffend ≤ s'.controller.buffend) ∧ Inv s' := by
  simp only [step, HandleKeyboardInterrupt]
  cases queuedCode behind s.controller.keys scanCode with
  | none =>
    refine ⟨_, rfl, ⟨rfl, rfl, Int.le_refl _⟩, ?_⟩
    simp only [toList_none, append_nil, isSome_none, Bool.false_and, Bool.or_false]
    exact ⟨⟨h.low, h.high, h.answered, h.taken, h.queued⟩, h.last, h.pending, h.alone⟩
  | some code =>
    obtain ⟨c', hput, hgrows, hinv⟩ := h.queue (SpecialKey s.controller.keys scanCode).2 code
      (s.overrun || decide (s.controller.buffend = KEYBUFFSIZE - 1)) (by simp)
    simp only [hput, map_some, toList_some, isSome_some, Bool.true_and]
    exact ⟨_, rfl, ⟨rfl, rfl, hgrows⟩, hinv⟩

theorem Inv.test (h : Inv s) (ht : s.pc t = .waiting) : ∃ s', step behind s (.test t) = some s' ∧ Inv s' := by
  simp only [step, if_pos ht]
  refine ⟨_, rfl, ?_⟩
  split
  · exact h
  · have hleft : ∀ u n, Function.update s.pc t .ready u = .left n → s.pc u = .left n := fun u n hu => by
      by_cases htu : u = t
      · subst htu
        simp at hu
      · simpa [htu] using hu
    exact ⟨⟨h.low, h.high, h.answered, h.taken, h.queued⟩, h.last, fun u n hu => h.pending u n (hleft u n hu),
      fun u v n hu hv => h.alone u v n (hleft u n hu) (hleft v n hv)⟩

theorem Inv.critical (h : Inv s) (ht : s.pc t = .ready) (hne : s.controller.buffend ≠ 0) :
    ∃ s', step behind s (.critical t) = some s' ∧ Inv s' := by
  obtain ⟨c', htake, hend, hget⟩ := s.controller.takeFirst_spec h.high
  have hlow := h.low
  have hhigh := h.high
  simp only [step, if_pos ht, htake, map_some]
  refine ⟨_, rfl, ⟨by dsimp only; omega, by dsimp only; omega, fun ho n c hn => ?_, fun ho => ?_, fun ho j hj => ?_⟩,
    fun ho _ => ?_, fun u n hu => ?_, fun u v n hu hv => ?_⟩
  · by_cases hlt : n < s.results.length
    · rw [List.getElem?_append_left hlt] at hn
      exact h.answered ho n c hn
    · rw [List.getElem?_append_right (by omega), List.getElem?_singleton] at hn
      split at hn <;> simp at hn
  · have htaken := h.taken ho
    simp only [length_append, length_singleton, hend]
    omega
  · dsimp only at hj ⊢
    rw [hget (j + 1) (by omega), length_append, length_singleton, Nat.add_assoc s.results.length,
      Nat.add_comm 1 j]
    exact h.queued ho (j + 1) (by omega)
  · have hfirst : some c'.first = s.controller.buffer[0 + 1]? := by rw [← c'.first_eq, hget 0 (by omega)]
    simp only [length_append, length_singleton, Nat.add_sub_cancel]
    rw [hfirst, h.queued ho 0 (by omega), Nat.add_zero]
  · by_cases htu : u = t
    · subst htu
      obtain rfl : s.results.length = n := by simpa using hu
      simp
    · have hu' : s.results[n]? = some none := h.pending u n (by simpa [htu] using hu)
      rw [List.getElem?_append_left (List.getElem?_eq_some_iff.1 hu').1, hu']
  · -- the section that has just run is behind all the others
    have hold : ∀ w, w ≠ t → Function.update s.pc t (.left s.results.length) w = .left n →
        s.pc w = .left n ∧ n < s.results.length := fun w hw hpc => by
      have hw' : s.pc w = .left n := by simpa [hw] using hpc
      exact ⟨hw', (List.getElem?_eq_some_iff.1 (h.pending w n hw')).1⟩
    have hnew : ∀ w, w = t → Function.update s.pc t (.left s.results.length) w = .left n → s.results.length = n :=
      fun w hw hpc => by simpa [hw] using hpc
    by_cases hut : u = t <;> by_cases hvt : v = t
    · rw [hut, hvt]
    · have := hnew u hut hu
      have := (hold v hvt hv).2
      omega
    · have := hnew v hvt hv
      have := (hold u hut hu).2
      omega
    · exact h.alone u v n (hold u hut hu).1 (hold v hvt hv).1

theorem critical_not_right (h : Inv s) (ht : s.pc t = .ready) (hzero : s.controller.buffend = 0)
    (hs : step behind s (.critical t) = some s') : ¬ Right s' := fun hright => by
  obtain ⟨c', htake, hend, -⟩ := s.controller.takeFirst_spec h.high
  simp only [step, if_pos ht, htake, map_some, Option.some.injEq] at hs
  subst hs
  have hlow := hright.low
  dsimp only at hlow
  omega

theorem Inv.answer (h : Inv s) {n : Nat} (ht : s.pc t = .left n) (hturn : Orderly s (.answer t)) :
    ∃ s', step behind s (.answer t) = some s' ∧ Inv s' := by
  have hopen : s.results[n]? = some none := h.pending t n ht
  have hlt : n < s.results.length := (List.getElem?_eq_some_iff.1 hopen).1
  have hleft : ∀ u m, Function.update s.pc t .waiting u = .left m → s.pc u = .left m ∧ u ≠ t := fun u m hu => by
    by_cases htu : u = t
    · subst htu
      simp at hu
    · exact ⟨by simpa [htu] using hu, htu⟩
  simp only [step, ht]
  refine ⟨_, rfl, ⟨h.low, h.high, fun ho m c hm => ?_, fun ho => ?_, fun ho j hj => ?_⟩, fun ho hpos => ?_,
    fun u m hu => ?_, fun u v m hu hv => ?_⟩
  · by_cases hmn : n = m
    · subst hmn
      rw [List.getElem?_set_self hlt] at hm
      rw [hturn n ht ho, h.last ho (by omega)]
      simpa using hm
    · rw [List.getElem?_set_ne hmn] at hm
      exact h.answered ho m c hm
  · simp only [length_set]
    exact h.taken ho
  · simp only [length_set]
    exact h.queued ho j hj
  · simp only [length_set] at hpos ⊢
    exact h.last ho hpos
  · obtain ⟨hu', hut⟩ := hleft u m hu
    have hnm : n ≠ m := fun e => hut (h.alone u t m hu' (e ▸ ht))
    rw [List.getElem?_set_ne hnm]
    exact h.pending u m hu'
  · exact h.alone u v m (hleft u m hu).1 (hleft v m hv).1

theorem answer_not_right (h : Inv s) (hs : step behind s (.answer t) = some s') (hright : Right s') :
    Orderly s (.answer t) := fun n ht ho => by
  have hlt : n < s.results.length := (List.getElem?_eq_some_iff.1 (h.pending t n ht)).1
  simp only [step, ht, Option.some.injEq] at hs
  subst hs
  rw [h.last ho (by omega)]
  exact hright.answered ho n _ (List.getElem?_set_self hlt)

/-! ## Runs -/

omit [DecidableEq τ] in
theorem inv_start : Inv (⟨.start, fun _ => .waiting, [], [], false⟩ : State τ) where
  low := Int.le_refl 0
  high := show (0 : Int) ≤ KEYBUFFSIZE - 1 by decide
  answered _ n c hn := by simp at hn
  taken _ := rfl
  queued _ j hj := by
    have hj' : (j : Int) < 0 := hj
    omega
  last _ hpos := absurd hpos (Nat.lt_irrefl 0)
  pending t n hn := by simp at hn
  alone t u n hn _ := by simp at hn

theorem enabled_of_step {a : Action τ} (hs : step behind s a = some s') : Enabled s a := by
  cases a with
  | interrupt scanCode => trivial
  | test t =>
    by_contra hne
    rw [step, if_neg (show ¬ s.pc t = .waiting from hne)] at hs
    cases hs
  | critical t =>
    by_contra hne
    rw [step, if_neg (show ¬ s.pc t = .ready from hne)] at hs
    cases hs
  | answer t =>
    cases hpc : s.pc t with
    | left n => exact ⟨n, hpc⟩
    | waiting => simp [step, hpc] at hs
    | ready => simp [step, hpc] at hs

variable (behind) in
theorem Inv.next (h : Inv s) {a : Action τ} (hturn : Orderly s a) (hen : Enabled s a) :
    ∃ s', step behind s a = some s' ∧ Inv s' := by
  cases a with
  | interrupt scanCode =>
    obtain ⟨s', hs, -, hinv⟩ := h.interrupt behind scanCode
    exact ⟨s', hs, hinv⟩
  | test t => exact h.test hen
  | critical t => exact h.critical hen (hturn hen)
  | answer t =>
    obtain ⟨n, ht⟩ := hen
    exact h.answer ht hturn

theorem Inv.stepRight_iff (h : Inv s) (a : Action τ) : StepRight behind s a ↔ Orderly s a := by
  refine ⟨fun hright => ?_, fun hturn hen => ?_⟩
  · cases a with
    | interrupt scanCode => trivial
    | test t => trivial
    | critical t =>
      intro ht hzero
      obtain ⟨s', hs, hr⟩ := hright ht
      exact critical_not_right h ht hzero hs hr
    | answer t =>
      intro n ht
      obtain ⟨s', hs, hr⟩ := hright ⟨n, ht⟩
      exact answer_not_right h hs hr n ht
  · obtain ⟨s', hs, hinv⟩ := h.next behind hturn hen
    exact ⟨s', hs, hinv.toRight⟩

theorem inv_of_orderly (h : (keyboard behind τ).ReachVia Orderly s) : Inv s := by
  refine h.invariant Inv (by rintro s rfl; exact inv_start) fun s a s' hinv hturn hs => ?_
  obtain ⟨s'', hs'', hinv'⟩ := hinv.next behind hturn (enabled_of_step hs)
  obtain rfl : s'' = s' := Option.some.inj (hs''.symm.trans hs)
  exact hinv'

/-- **No character is lost in an orderly run**: for any number of threads and any interleaving in which every section is
entered while there is a character and every result is read before another section has taken a different one, `buffend`
and the accesses stay inside the buffer, and the calls return what has arrived, in the order of their sections. Of the
states of such a run, a step keeps this true exactly when it is orderly. -/
theorem keyboard_right (h : (keyboard behind τ).ReachVia Orderly s) :
    Right s ∧ ∀ a, StepRight behind s a ↔ Orderly s a :=
  ⟨(inv_of_orderly h).toRight, (inv_of_orderly h).stepRight_iff⟩

/-- With one thread, a section that is to run has a character, and the last section that has run is the thread's own. -/
structure Alone (s : State τ) : Prop extends Inv s where
  ready : ∀ t, s.pc t = .ready → 0 < s.controller.buffend
  latest : ∀ t n, s.pc t = .left n → n + 1 = s.results.length

omit [DecidableEq τ] in
theorem Alone.orderly (h : Alone s) (a : Action τ) : Orderly s a := by
  cases a with
  | interrupt scanCode => trivial
  | test t => trivial
  | critical t =>
    intro ht
    have := h.ready t ht
    omega
  | answer t =>
    intro n ht _
    rw [← h.latest t n ht, Nat.add_sub_cancel]

theorem Alone.next [Subsingleton τ] (h : Alone s) {a : Action τ} (hs : step behind s a = some s') : Alone s' := by
  obtain ⟨s'', hs'', hinv⟩ := h.toInv.next behind (h.orderly a) (enabled_of_step hs)
  obtain rfl : s'' = s' := Option.some.inj (hs''.symm.trans hs)
  cases a with
  | interrupt scanCode =>
    obtain ⟨s', hs', ⟨hpc, hresults, hgrows⟩, -⟩ := h.toInv.interrupt behind scanCode
    obtain rfl : s' = s'' := Option.some.inj (hs'.symm.trans hs)
    refine ⟨hinv, fun t ht => ?_, fun t n ht => ?_⟩
    · have hpos := h.ready t (hpc ▸ ht)
      omega
    · rw [hresults]
      exact h.latest t n (hpc ▸ ht)
  | test t =>
    have ht : s.pc t = .waiting := enabled_of_step hs
    simp only [step, if_pos ht, Option.some.injEq] at hs
    split at hs
    · subst hs
      exact ⟨hinv, h.ready, h.latest⟩
    · next hne =>
      subst hs
      refine ⟨hinv, fun _ _ => ?_, fun u n hu => ?_⟩
      · have hlow := h.low
        dsimp only
        omega
      · rw [Subsingleton.elim u t] at hu
        simp at hu
  | critical t =>
    have ht : s.pc t = .ready := enabled_of_step hs
    simp only [step, if_pos ht] at hs
    obtain ⟨c', -, rfl⟩ := map_eq_some_iff.1 hs
    refine ⟨hinv, fun u hu => ?_, fun u n hu => ?_⟩
    · rw [Subsingleton.elim u t] at hu
      simp at hu
    · rw [Subsingleton.elim u t] at hu
      obtain rfl : s.results.length = n := by simpa using hu
      simp
  | answer t =>
    obtain ⟨n, ht⟩ := enabled_of_step hs
    simp only [step, ht, Option.some.injEq] at hs
    subst hs
    refine ⟨hinv, fun u hu => ?_, fun u n hu => ?_⟩
    · rw [Subsingleton.elim u t] at hu
      simp at hu
    · rw [Subsingleton.elim u t] at hu
      simp at hu

theorem one_thread_right [Subsingleton τ] (h : (keyboard behind τ).Reach s) : Right s := by
  have hstart : Alone (⟨.start, fun _ => .waiting, [], [], false⟩ : State τ) :=
    ⟨inv_start, fun _ ht => (by cases ht), fun _ _ ht => (by cases ht)⟩
  have halone : Alone s := h.invariant Alone (by rintro s rfl; exact hstart)
    fun s a s' hs hstep => hs.next hstep
  exact halone.toRight

end

theorem one_thread_right_key : ∃ s : State Unit, s.results = [some 0x61] ∧ Right s := by
  let calls : List (Action Unit) := [.test (), .interrupt 0x1E, .test (), .critical (), .interrupt 0x30, .answer ()]
  have hresults : ((keyboard (fun _ _ _ => 0) Unit).exec ⟨.start, fun _ => .waiting, [], [], false⟩ calls).map
      State.results = some [some 0x61] := by decide +kernel
  obtain ⟨s, hs, hend⟩ := Option.map_eq_some_iff.1 hresults
  exact ⟨s, hend, one_thread_right (StepSystem.reach_exec calls (.init rfl) hs)⟩

/-- Whether a step is orderly can be computed. -/
instance (s : State τ) : (a : Action τ) → Decidable (Orderly s a)
  | .interrupt _ => .isTrue trivial
  | .test _ => .isTrue trivial
  | .critical t => inferInstanceAs (Decidable (s.pc t = .ready → s.controller.buffend ≠ 0))
  | .answer t =>
    match h : s.pc t with
    | .left n =>
      decidable_of_iff (s.overrun = false → s.arrived[n]? = s.arrived[s.results.length - 1]?)
        ⟨fun hturn m hm => by rw [h] at hm; cases hm; exact hturn, fun hturn => hturn n h⟩
    | .waiting => isTrue fun n hn => by rw [h] at hn; cases hn
    | .ready => isTrue fun n hn => by rw [h] at hn; cases hn

/-- Two keys, and two threads that take one each. -/
theorem keyboard_right_twoThreads :
    ∃ s : State Bool, s.results = [some 0x61, some 0x62] ∧ Right s ∧
      ∀ a, StepRight (fun _ _ _ => 0) s a ↔ Orderly s a := by
  let calls : List (Action Bool) := [.interrupt 0x1E, .interrupt 0x30, .test false, .test true, .critical false,
    .answer false, .critical true, .answer true]
  have hresults : ((keyboard (fun _ _ _ => 0) Bool).exec ⟨.start, fun _ => .waiting, [], [], false⟩ calls).map
      State.results = some [some 0x61, some 0x62] := by decide +kernel
  obtain ⟨s, hs, hend⟩ := Option.map_eq_some_iff.1 hresults
  exact ⟨s, hend, keyboard_right (StepSystem.reachVia_exec calls (.init rfl) (by decide +kernel) hs)⟩

/-- One key, which two threads find in the buffer: the second section takes one that is not there. -/
theorem second_section_wrong :
    ∃ s : State Bool, (keyboard (fun _ _ _ => 0) Bool).Reach s ∧ s.controller.buffend = -1 ∧ ¬ Right s := by
  let calls : List (Action Bool) := [.interrupt 0x1E, .test false, .test true, .critical false, .critical true]
  have hbuffend : ((keyboard (fun _ _ _ => 0) Bool).exec ⟨.start, fun _ => .waiting, [], [], false⟩ calls).map
      (fun s => s.controller.buffend) = some (-1) := by decide +kernel
  obtain ⟨s, hs, hend⟩ := Option.map_eq_some_iff.1 hbuffend
  refine ⟨s, StepSystem.reach_exec calls (.init rfl) hs, hend, fun hright => ?_⟩
  have hlow := hright.low
  omega

end KeyBoard
