/-
# Pin numbers out of range

The methods of `GpioHw` take any `uint8_t` for a pin and shift 1 by it, which
is undefined from 32 on; `pin.cpp` hands them its own number unchecked. Here
the shift is checked (`shl`), and the frames that reach the device are
recorded (`Tapped`).

Only `pinMode` looks at the number. It lets 32 pass, and reports a success
for the ones above it. So a pin that does not exist is refused in one case,
pin 32 given to `pinMode` when it fails for another reason before the shift
(`PinCall.lawful_iff`, and along whole histories
`Board.pins_lawful_iff`).
-/
import ToolbitSdk.Gpio
import ToolbitSdk.Lib.Mealy

namespace ToolbitSdk

open Bytes Bits TbiService

/-! ### The frames that are sent -/

/-- A link with the frames it has carried. -/
structure Tapped (σ : Type*) where
  link : σ
  frames : List (List Byte)

namespace Tapped

variable {σ π : Type*} [Link σ π]

instance : Link (Tapped σ) π where
  isOpen t := Link.isOpen t.link
  openDevice t p := ((Link.openDevice t.link p).1, { t with link := (Link.openDevice t.link p).2 })
  closeDevice t := { t with link := Link.closeDevice t.link }
  transact t f := ((Link.transact t.link f).1, ⟨(Link.transact t.link f).2, t.frames ++ [f]⟩)

/-- The writes among the frames. -/
def writes (t : Tapped σ) : List (List Byte) := t.frames.filter fun f => frameOp f == OP_ATT_VALUE_SET

/-- A read is the link's, and sends no write. -/
theorem read_eq {id : AttId} (a : AttOf id) (t : Tapped σ) : (a.read t).1 = (a.read t.link).1 ∧
    (a.read t).2.1 = (a.read t.link).2.1 ∧ (a.read t).2.2.link = (a.read t.link).2.2 ∧
      (a.read t).2.2.writes = t.writes := by
  have hop : frameOp (readFrame a.att) = OP_ATT_VALUE_GET := rfl
  by_cases h : Link.isOpen t.link = true
  · have ht : Link.isOpen t = true := h
    simp only [AttOf.read, readAttribute, h, ht, ↓reduceIte, writes]
    refine ⟨rfl, rfl, rfl, ?_⟩
    show (t.frames ++ [readFrame a.att]).filter _ = _
    simp [List.filter_append, hop, OP_ATT_VALUE_GET, OP_ATT_VALUE_SET]
  · have ht : ¬ Link.isOpen t = true := h
    simp only [AttOf.read, readAttribute, h, ht]
    exact ⟨rfl, rfl, rfl, rfl⟩

end Tapped

/-! ### The checked shift -/

/-- `1 << pin` on 32 bits. -/
def shl (pin : BitVec 8) : Option (BitVec 32) := if pin.toNat < 32 then some (1#32 <<< pin.toNat) else none

namespace GpioHw

variable {σ : Type} {π : Type*} [Link σ π] {base : AttId}

def pinModeChecked (g : GpioHw base) (tdev : σ) (pin : BitVec 8) (mode : PinMode) :
    Option (Bool × GpioHw base × σ) :=
  if 32 < pin.toNat then some (false, g, tdev)
  else
    let (status, mAttGpioInoutMode, tdev) := g.mAttGpioInoutMode.read tdev
    let g := { g with mAttGpioInoutMode }
    if status then some (true, g, tdev)
    else if mode = .outputPin then do
      let bit ← shl pin
      let att := g.mAttGpioInoutMode.set (·.setValueUint32 (g.mAttGpioInoutMode.getValueUint32 &&& ~~~bit))
      let (status, tdev) := writeAttribute tdev att.att
      some (status, { g with mAttGpioInoutMode := att }, tdev)
    else
      let (status, mAttGpioPullUp, tdev) := g.mAttGpioPullUp.read tdev
      let g := { g with mAttGpioPullUp }
      if status then some (true, g, tdev)
      else if mode = .inputPulldownPin then some (true, g, tdev)
      else do
        let bit ← shl pin
        let pull := if mode = .inputPin then g.mAttGpioPullUp.getValueUint32 &&& ~~~bit
          else g.mAttGpioPullUp.getValueUint32 ||| bit
        let att := g.mAttGpioPullUp.set (·.setValueUint32 pull)
        let (status, tdev) := writeAttribute tdev att.att
        let g := { g with mAttGpioPullUp := att }
        if status then some (true, g, tdev)
        else do
          let bit ← shl pin
          let att := g.mAttGpioInoutMode.set (·.setValueUint32 (g.mAttGpioInoutMode.getValueUint32 ||| bit))
          let (status, tdev) := writeAttribute tdev att.att
          some (status, { g with mAttGpioInoutMode := att }, tdev)

def digitalWriteChecked (g : GpioHw base) (tdev : σ) (pin : BitVec 8) (val : Bool) :
    Option (Bool × GpioHw base × σ) := do
  let (_, g, tdev) := g.read tdev
  let bit ← shl pin
  some (g.write tdev (if val then g.mAttGpioRw.getValueUint32 ||| bit else g.mAttGpioRw.getValueUint32 &&& ~~~bit))

def digitalReadChecked (g : GpioHw base) (tdev : σ) (pin : BitVec 8) :
    Option (Bool × GpioHw base × σ) := do
  let (dat, g, tdev) := g.read tdev
  let bit ← shl pin
  some (dat &&& bit != 0#32, g, tdev)

section

variable (g : GpioHw base) (tdev : σ) {pin : BitVec 8}

/-- On the pins there are, the checks pass. -/
theorem pinModeChecked_eq (h : pin.toNat < 32) (mode : PinMode) :
    g.pinModeChecked tdev pin mode = some (g.pinMode tdev pin mode) := by
  have hs : shl pin = some (1#32 <<< pin.toNat) := if_pos h
  have hlt : ¬ 32 < pin.toNat := by omega
  simp only [pinModeChecked, pinMode, hs, hlt, ↓reduceIte, Option.bind_eq_bind, Option.bind_some, setBit, clearBit]
  split_ifs <;> rfl

theorem digitalWriteChecked_eq (h : pin.toNat < 32) (val : Bool) :
    g.digitalWriteChecked tdev pin val = some (g.digitalWrite tdev pin val) := by
  have hs : shl pin = some (1#32 <<< pin.toNat) := if_pos h
  simp only [digitalWriteChecked, digitalWrite, hs, Option.bind_eq_bind, Option.bind_some, setBit, clearBit]

theorem digitalReadChecked_eq (h : pin.toNat < 32) :
    g.digitalReadChecked tdev pin = some (g.digitalRead tdev pin) := by
  have hs : shl pin = some (1#32 <<< pin.toNat) := if_pos h
  simp only [digitalReadChecked, digitalRead, hs, Option.bind_eq_bind, Option.bind_some]

end

/-- A call of `pinMode` that returns its error before it shifts. -/
def Early (g : GpioHw base) (tdev : σ) (mode : PinMode) : Prop :=
  (g.mAttGpioInoutMode.read tdev).1 = true ∨ mode ≠ .outputPin ∧
    ((g.mAttGpioPullUp.read (g.mAttGpioInoutMode.read tdev).2.2).1 = true ∨ mode = .inputPulldownPin)

section

variable (g : GpioHw base) (t : Tapped σ) {pin : BitVec 8} {mode : PinMode}

theorem pinModeChecked_of_early (h : pin.toNat = 32) (he : Early g t mode) :
    g.pinModeChecked t pin mode = some (g.pinMode t pin mode) ∧ (g.pinMode t pin mode).1 = true ∧
      (g.pinMode t pin mode).2.2.writes = t.writes := by
  have hlt : ¬ 32 < pin.toNat := by omega
  obtain ⟨-, -, -, hw⟩ := Tapped.read_eq g.mAttGpioInoutMode t
  rcases hr : g.mAttGpioInoutMode.read t with ⟨status, att, t₁⟩
  rw [Early, hr] at he
  rw [hr] at hw
  by_cases hs : status = true
  · simp only [pinModeChecked, pinMode, hlt, hr, hs, ↓reduceIte, true_and]
    exact hw
  · obtain ⟨ho, he⟩ := he.resolve_left hs
    obtain ⟨-, -, -, hw₂⟩ := Tapped.read_eq g.mAttGpioPullUp t₁
    rcases hr₂ : g.mAttGpioPullUp.read t₁ with ⟨status₂, att₂, t₂⟩
    rw [hr₂] at he hw₂
    by_cases hs₂ : status₂ = true
    · simp only [pinModeChecked, pinMode, hlt, hr, hs, ho, hr₂, hs₂, ↓reduceIte, Bool.false_eq_true, true_and]
      exact hw₂.trans hw
    · have hd : mode = .inputPulldownPin := he.resolve_left hs₂
      simp only [pinModeChecked, pinMode, hlt, hr, hs, hr₂, hs₂, hd, ↓reduceIte, reduceCtorEq, Bool.false_eq_true,
        true_and]
      exact hw₂.trans hw

theorem pinModeChecked_of_not_early (h : pin.toNat = 32) (he : ¬ Early g t mode) :
    g.pinModeChecked t pin mode = none := by
  have hlt : ¬ 32 < pin.toNat := by omega
  have hs : shl pin = none := if_neg (by omega)
  rcases hr : g.mAttGpioInoutMode.read t with ⟨status, att, t₁⟩
  rw [Early, hr, not_or] at he
  obtain ⟨h1, he⟩ := he
  by_cases ho : mode = .outputPin
  · simp only [pinModeChecked, hlt, hr, h1, ho, hs, ↓reduceIte, Bool.false_eq_true]
    rfl
  · rcases hr₂ : g.mAttGpioPullUp.read t₁ with ⟨status₂, att₂, t₂⟩
    rw [hr₂, and_iff_right ho, not_or] at he
    simp only [pinModeChecked, hlt, hr, h1, ho, hr₂, he.1, he.2, hs, ↓reduceIte, Bool.false_eq_true]
    rfl

end

end GpioHw

/-! ### A board -/

/-- `Pin`; the constructor without a mode leaves `mPinMode` as it finds it. -/
structure Pin where
  mPinNum : BitVec 8
  val : Bool
  mPinMode : PinMode

namespace Pin

variable {σ π : Type*} [Link σ π] {base : AttId}

def mode (p : Pin) (gpiohw : GpioHw base) (tdev : σ) (m : PinMode) : Bool × Pin × GpioHw base × σ :=
  let p := { p with mPinMode := m }
  let (status, gpiohw, tdev) := gpiohw.pinMode tdev p.mPinNum p.mPinMode
  (status, p, gpiohw, tdev)

def value (p : Pin) (gpiohw : GpioHw base) (tdev : σ) : Bool × GpioHw base × σ :=
  gpiohw.digitalRead tdev p.mPinNum

/-- `Pin::value(bool)`. -/
def setValue (p : Pin) (gpiohw : GpioHw base) (tdev : σ) (v : Bool) : Bool × GpioHw base × σ :=
  gpiohw.digitalWrite tdev p.mPinNum v

def on (p : Pin) (gpiohw : GpioHw base) (tdev : σ) : Bool × GpioHw base × σ :=
  gpiohw.digitalWrite tdev p.mPinNum true

def off (p : Pin) (gpiohw : GpioHw base) (tdev : σ) : Bool × GpioHw base × σ :=
  gpiohw.digitalWrite tdev p.mPinNum false

end Pin

/-- A method of `GpioHw` that takes a pin. -/
inductive PinCall
  | pinMode (pin : BitVec 8) (mode : PinMode)
  | digitalWrite (pin : BitVec 8) (val : Bool)
  | digitalRead (pin : BitVec 8)

namespace PinCall

variable {base : AttId}

def pin : PinCall → BitVec 8
  | .pinMode pin _ | .digitalWrite pin _ | .digitalRead pin => pin

/-- The calls that are to change a pin. -/
def changes : PinCall → Bool
  | .pinMode .. | .digitalWrite .. => true
  | .digitalRead _ => false

def run (g : GpioHw base) (t : Tapped Bank) : PinCall → Bool × GpioHw base × Tapped Bank
  | .pinMode pin mode => g.pinMode t pin mode
  | .digitalWrite pin val => g.digitalWrite t pin val
  | .digitalRead pin => g.digitalRead t pin

def checked (g : GpioHw base) (t : Tapped Bank) :
    PinCall → Option (Bool × GpioHw base × Tapped Bank)
  | .pinMode pin mode => g.pinModeChecked t pin mode
  | .digitalWrite pin val => g.digitalWriteChecked t pin val
  | .digitalRead pin => g.digitalReadChecked t pin

/-- What a call owes: it shifts by a pin below 32 only, and on a pin out of
range it returns an error and sends no write. -/
structure Lawful (g : GpioHw base) (t : Tapped Bank) (c : PinCall) : Prop where
  shifts : (c.checked g t).isSome = true
  refused : c.changes = true → ¬ c.pin.toNat < 32 → (c.run g t).1 = true ∧ (c.run g t).2.2.writes = t.writes

/-- The pin exists; or it is pin 32, given to a `pinMode` whose reads fail or
that asks for a pull-down. -/
def Sound (d : Bank) : PinCall → Prop
  | .pinMode pin mode => pin.toNat < 32 ∨ pin.toNat = 32 ∧
      (¬ d.Takes 1 ∨ mode ≠ .outputPin ∧ (¬ d.Takes 2 ∨ mode = .inputPulldownPin))
  | .digitalWrite pin _ | .digitalRead pin => pin.toNat < 32

instance (d : Bank) : ∀ c : PinCall, Decidable (c.Sound d)
  | .pinMode pin mode => inferInstanceAs (Decidable (pin.toNat < 32 ∨ pin.toNat = 32 ∧
      (¬ d.Takes 1 ∨ mode ≠ .outputPin ∧ (¬ d.Takes 2 ∨ mode = .inputPulldownPin))))
  | .digitalWrite pin _ => inferInstanceAs (Decidable (pin.toNat < 32))
  | .digitalRead pin => inferInstanceAs (Decidable (pin.toNat < 32))

theorem early_iff (g : GpioHw base) (t : Tapped Bank) (mode : PinMode) : g.Early t mode ↔
    ¬ t.link.Takes 1 ∨ mode ≠ .outputPin ∧ (¬ t.link.Takes 2 ∨ mode = .inputPulldownPin) := by
  obtain ⟨h1, -, hl, -⟩ := Tapped.read_eq g.mAttGpioInoutMode t
  obtain ⟨h2, -, -, -⟩ := Tapped.read_eq g.mAttGpioPullUp (g.mAttGpioInoutMode.read t).2.2
  rw [GpioHw.Early, h1, h2, hl, Bank.read_failed_iff, Bank.read_failed_iff]
  by_cases h : t.link.Takes 1
  · simp only [Bank.read_taken _ h, Bank.takes_succ (k := 1), h, true_and]
  · simp only [h, not_false_eq_true, true_or]

/-- On the pins there are, every call is lawful. -/
theorem lawful_of_lt (g : GpioHw base) (t : Tapped Bank) {c : PinCall} (h : c.pin.toNat < 32) :
    c.Lawful g t := by
  refine ⟨?_, fun _ hn => absurd h hn⟩
  rcases c with ⟨pin, mode⟩ | ⟨pin, val⟩ | pin
  · have hp : pin.toNat < 32 := h
    rw [checked, g.pinModeChecked_eq t hp]
    rfl
  · have hp : pin.toNat < 32 := h
    rw [checked, g.digitalWriteChecked_eq t hp]
    rfl
  · have hp : pin.toNat < 32 := h
    rw [checked, g.digitalReadChecked_eq t hp]
    rfl

/-- Beyond 32 a `pinMode` returns its success. -/
theorem pinMode_of_lt (g : GpioHw base) (t : Tapped Bank) {pin : BitVec 8} (h : 32 < pin.toNat) (mode : PinMode) :
    g.pinMode t pin mode = (false, g, t) := by
  rw [GpioHw.pinMode, if_pos h]

theorem lawful_iff (g : GpioHw base) (t : Tapped Bank) (c : PinCall) :
    c.Lawful g t ↔ c.Sound t.link := by
  by_cases h : c.pin.toNat < 32
  · refine iff_of_true (lawful_of_lt g t h) ?_
    rcases c with ⟨pin, mode⟩ | ⟨pin, val⟩ | pin
    · exact .inl h
    · exact h
    · exact h
  have hs : shl c.pin = none := if_neg h
  rcases c with ⟨pin, mode⟩ | ⟨pin, val⟩ | pin
  · by_cases h32 : 32 < pin.toNat
    · refine iff_of_false (fun hl => ?_) fun hf => ?_
      · have he := (hl.refused rfl h).1
        rw [run, pinMode_of_lt g t h32] at he
        cases he
      · rcases hf with hf | hf <;> omega
    · have heq : pin.toNat = 32 := by
        rw [PinCall.pin] at h
        omega
      by_cases he : g.Early t mode
      · obtain ⟨hc, hr, hw⟩ := g.pinModeChecked_of_early t heq he
        refine iff_of_true ⟨?_, fun _ _ => ⟨hr, hw⟩⟩ (.inr ⟨heq, (early_iff g t mode).mp he⟩)
        rw [checked, hc]
        rfl
      · refine iff_of_false (fun hl => ?_) fun hf => ?_
        · have hc := hl.shifts
          rw [checked, g.pinModeChecked_of_not_early t heq he] at hc
          cases hc
        · exact he ((early_iff g t mode).mpr (hf.resolve_left h).2)
  · refine iff_of_false (fun hl => ?_) h
    have hc := hl.shifts
    simp only [checked, GpioHw.digitalWriteChecked, show shl pin = none from hs] at hc
    cases hc
  · refine iff_of_false (fun hl => ?_) h
    have hc := hl.shifts
    simp only [checked, GpioHw.digitalReadChecked, show shl pin = none from hs] at hc
    cases hc

end PinCall

/-- A method of `Pin`. -/
inductive PinMethod
  | mode (m : PinMode)
  | value
  | setValue (v : Bool)
  | on
  | off

/-- The call of `GpioHw` that a method of a pin comes to. -/
def PinMethod.call (p : Pin) : PinMethod → PinCall
  | .mode m => .pinMode p.mPinNum m
  | .value => .digitalRead p.mPinNum
  | .setValue v => .digitalWrite p.mPinNum v
  | .on => .digitalWrite p.mPinNum true
  | .off => .digitalWrite p.mPinNum false

/-- A `GpioHw`, the pins that share it, and the device. -/
structure Board (base : AttId) where
  gpiohw : GpioHw base
  pins : ℕ → Pin
  tdev : Tapped Bank

namespace Board

variable {base : AttId}

/-- A call, on the object or through one of its pins. -/
inductive Call
  | gpio (c : PinCall)
  | pin (k : ℕ) (m : PinMethod)

def step (s : Board base) : Call → Bool × Board base
  | .gpio c =>
    let (r, gpiohw, tdev) := c.run s.gpiohw s.tdev
    (r, { s with gpiohw, tdev })
  | .pin k (.mode m) =>
    let (r, p, gpiohw, tdev) := (s.pins k).mode s.gpiohw s.tdev m
    (r, { gpiohw, pins := Function.update s.pins k p, tdev })
  | .pin k .value =>
    let (r, gpiohw, tdev) := (s.pins k).value s.gpiohw s.tdev
    (r, { s with gpiohw, tdev })
  | .pin k (.setValue v) =>
    let (r, gpiohw, tdev) := (s.pins k).setValue s.gpiohw s.tdev v
    (r, { s with gpiohw, tdev })
  | .pin k .on =>
    let (r, gpiohw, tdev) := (s.pins k).on s.gpiohw s.tdev
    (r, { s with gpiohw, tdev })
  | .pin k .off =>
    let (r, gpiohw, tdev) := (s.pins k).off s.gpiohw s.tdev
    (r, { s with gpiohw, tdev })

/-- The call of `GpioHw` that is made. -/
def made (s : Board base) : Call → PinCall
  | .gpio c => c
  | .pin k m => m.call (s.pins k)

/-- A call through a pin does what the call it comes to does. -/
theorem step_eq (s : Board base) (c : Call) : (s.step c).1 = ((s.made c).run s.gpiohw s.tdev).1 ∧
    (s.step c).2.gpiohw = ((s.made c).run s.gpiohw s.tdev).2.1 ∧
      (s.step c).2.tdev = ((s.made c).run s.gpiohw s.tdev).2.2 := by
  rcases c with c | ⟨k, _ | _ | _ | _ | _⟩ <;> exact ⟨rfl, rfl, rfl⟩

/-- What a call on a board owes. -/
structure Lawful (s : Board base) (c : Call) : Prop where
  shifts : ((s.made c).checked s.gpiohw s.tdev).isSome = true
  refused : (s.made c).changes = true → ¬ (s.made c).pin.toNat < 32 →
    (s.step c).1 = true ∧ (s.step c).2.tdev.writes = s.tdev.writes

def Sound (s : Board base) (c : Call) : Prop := (s.made c).Sound s.tdev.link

instance (s : Board base) (c : Call) : Decidable (s.Sound c) :=
  inferInstanceAs (Decidable ((s.made c).Sound s.tdev.link))

theorem lawful_iff (s : Board base) (c : Call) : s.Lawful c ↔ s.Sound c := by
  obtain ⟨hr, -, ht⟩ := s.step_eq c
  rw [Sound, ← PinCall.lawful_iff s.gpiohw s.tdev (s.made c)]
  constructor
  · rintro ⟨hs, hf⟩
    rw [hr, ht] at hf
    exact ⟨hs, hf⟩
  · rintro ⟨hs, hf⟩
    rw [← hr, ← ht] at hf
    exact ⟨hs, hf⟩

/-- Along every history, from every state of the device and of the objects,
the calls keep the law exactly as far as they are sound. -/
theorem pins_lawful_iff (s : Board base) (cs : List Call) :
    Mealy.Along step Lawful s cs ↔ Mealy.Along step Sound s cs :=
  Mealy.along_congr lawful_iff cs

/-- A board on a device whose registers are 0, its first pin of number 33. -/
def board : Board 0x1200 :=
  ⟨GpioHw.fresh, fun _ => ⟨33, false, .outputPin⟩, ⟨Bank.holding fun _ => .word 0, []⟩⟩

/-- `pinMode(33, OUTPUT_PIN)` reports a success. -/
theorem pins_not_lawful : ¬ ∀ (s : Board 0x1200) (cs : List Call), Mealy.Along step Lawful s cs := by
  intro h
  have hl := (h board [.pin 0 (.mode .outputPin)]).1
  have hr := (hl.refused rfl (by decide)).1
  exact absurd hr (by decide)

end Board

end ToolbitSdk
