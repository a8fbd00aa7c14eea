/-
# GPIO: pins over three 32-bit registers

`gpio_hw.cpp`. The device has a register each for the direction, the
pull-ups and the port, a bit a pin, and a `GpioHw` a cached attribute for
each. `pinMode` and `digitalWrite` are chains of transactions that read a
register into its attribute, change one bit and write it back.

Against a device that accepts every transaction, `GpioHw` is a model with a
state for each pin (`GpioHw.refines_pins`). When the read of `digitalWrite`
fails, the write puts the attribute's old contents on the port: exactly then
can another pin change (`GpioHw.digitalWrite_frame_iff`,
`GpioHw.digitalWrite_clobbers`).
-/
import ToolbitSdk.Lib.Bits
import ToolbitSdk.Lib.Mealy
import ToolbitSdk.Transaction

namespace ToolbitSdk

open Bytes Bits TbiService

def ATT_GPIO_INOUT_MODE : AttId := 0x00
def ATT_GPIO_PULL_UP : AttId := 0x01
def ATT_GPIO_PULL_DOWN : AttId := 0x02
def ATT_GPIO_RW : AttId := 0x03

inductive PinMode
  | outputPin
  | inputPin
  | inputPullupPin
  | inputPulldownPin
  deriving DecidableEq

structure GpioHw (base : AttId) where
  mAttGpioInoutMode : AttOf (base + ATT_GPIO_INOUT_MODE)
  mAttGpioPullUp : AttOf (base + ATT_GPIO_PULL_UP)
  mAttGpioPullDown : AttOf (base + ATT_GPIO_PULL_DOWN)
  mAttGpioRw : AttOf (base + ATT_GPIO_RW)

namespace GpioHw

variable {σ π : Type*} [Link σ π] {base : AttId}

/-- `GpioHw::GpioHw`, each attribute on memory that holds `junk`. -/
def new (junk : List Byte) (h : junk.length = VALUE_LEN + 1) (base : AttId) : GpioHw base :=
  ⟨.new junk h _, .new junk h _, .new junk h _, .new junk h _⟩

/-! The shift of `1 << pin` by more than 31 is undefined in the source; here
it gives 0. -/

def pinMode (g : GpioHw base) (tdev : σ) (pin : BitVec 8) (mode : PinMode) :
    Bool × GpioHw base × σ :=
  if 32 < pin.toNat then (false, g, tdev)
  else
    let (status, mAttGpioInoutMode, tdev) := g.mAttGpioInoutMode.read tdev
    let g := { g with mAttGpioInoutMode }
    if status then (true, g, tdev)
    else if mode = .outputPin then
      let att := g.mAttGpioInoutMode.set (·.setValueUint32 (clearBit g.mAttGpioInoutMode.getValueUint32 pin.toNat))
      let (status, tdev) := writeAttribute tdev att.att
      (status, { g with mAttGpioInoutMode := att }, tdev)
    else
      let (status, mAttGpioPullUp, tdev) := g.mAttGpioPullUp.read tdev
      let g := { g with mAttGpioPullUp }
      if status then (true, g, tdev)
      else if mode = .inputPulldownPin then (true, g, tdev)
      else
        let pull := if mode = .inputPin then clearBit g.mAttGpioPullUp.getValueUint32 pin.toNat
          else setBit g.mAttGpioPullUp.getValueUint32 pin.toNat
        let att := g.mAttGpioPullUp.set (·.setValueUint32 pull)
        let (status, tdev) := writeAttribute tdev att.att
        let g := { g with mAttGpioPullUp := att }
        if status then (true, g, tdev)
        else
          let att := g.mAttGpioInoutMode.set (·.setValueUint32 (setBit g.mAttGpioInoutMode.getValueUint32 pin.toNat))
          let (status, tdev) := writeAttribute tdev att.att
          (status, { g with mAttGpioInoutMode := att }, tdev)

def write (g : GpioHw base) (tdev : σ) (dat : BitVec 32) : Bool × GpioHw base × σ :=
  let att := g.mAttGpioRw.set (·.setValueUint32 dat)
  let (status, tdev) := writeAttribute tdev att.att
  (status, { g with mAttGpioRw := att }, tdev)

def read (g : GpioHw base) (tdev : σ) : BitVec 32 × GpioHw base × σ :=
  let (status, mAttGpioRw, tdev) := g.mAttGpioRw.read tdev
  let g := { g with mAttGpioRw }
  if status then (0xFFFFFFFF, g, tdev) else (g.mAttGpioRw.getValueUint32, g, tdev)

def digitalWrite (g : GpioHw base) (tdev : σ) (pin : BitVec 8) (val : Bool) :
    Bool × GpioHw base × σ :=
  let (_, g, tdev) := g.read tdev
  let dat := if val then setBit g.mAttGpioRw.getValueUint32 pin.toNat
    else clearBit g.mAttGpioRw.getValueUint32 pin.toNat
  g.write tdev dat

def digitalRead (g : GpioHw base) (tdev : σ) (pin : BitVec 8) : Bool × GpioHw base × σ :=
  let (dat, g, tdev) := g.read tdev
  (dat &&& 1#32 <<< pin.toNat != 0#32, g, tdev)

/-! ### Calls -/

/-- The public methods, on the pins there are. -/
inductive Call
  | pinMode (pin : Fin 32) (mode : PinMode)
  | write (dat : BitVec 32)
  | read
  | digitalWrite (pin : Fin 32) (val : Bool)
  | digitalRead (pin : Fin 32)

/-- What a call returns: a flag, or a word by its bits. -/
inductive Ret
  | flag (b : Bool)
  | bits (f : Fin 32 → Bool)
  deriving DecidableEq

/-- The number of a pin as the methods take it. -/
def pinNo (pin : Fin 32) : BitVec 8 := BitVec.ofNat 8 pin

theorem toNat_pinNo (pin : Fin 32) : (pinNo pin).toNat = pin := by
  rw [pinNo, BitVec.toNat_ofNat]; omega

/-- A call on the object and its link. -/
def step (s : GpioHw base × σ) : Call → Ret × GpioHw base × σ
  | .pinMode pin mode => let (b, s) := s.1.pinMode s.2 (pinNo pin) mode; (.flag b, s)
  | .write dat => let (b, s) := s.1.write s.2 dat; (.flag b, s)
  | .read => let (w, s) := s.1.read s.2; (.bits fun i => w.getLsbD i, s)
  | .digitalWrite pin val => let (b, s) := s.1.digitalWrite s.2 (pinNo pin) val; (.flag b, s)
  | .digitalRead pin => let (b, s) := s.1.digitalRead s.2 (pinNo pin); (.flag b, s)

end GpioHw

/-! ### The reference model -/

/-- A pin by itself. -/
structure PinState where
  input : Bool
  pullUp : Bool
  level : Bool
  deriving DecidableEq

/-- What a call means for the pins. -/
abbrev Pins := Fin 32 → PinState

namespace Pins

/-- Change one pin. -/
def change (ps : Pins) (pin : Fin 32) (f : PinState → PinState) : Pins :=
  Function.update ps pin (f (ps pin))

theorem change_change (ps : Pins) (pin : Fin 32) (f g : PinState → PinState) :
    (ps.change pin f).change pin g = ps.change pin fun p => g (f p) := by
  rw [change, change, Function.update_idem, Function.update_self, change]

theorem change_pullUp_input (ps : Pins) (pin : Fin 32) (b : Bool) (i : Fin 32) :
    (ps.change pin (fun p => { p with pullUp := b }) i).input = (ps i).input := by
  rw [change, Function.update_apply]
  split
  · rename_i hi
    rw [hi]
  · rfl

def step (ps : Pins) : GpioHw.Call → GpioHw.Ret × Pins
  | .pinMode pin .outputPin => (.flag false, ps.change pin fun p => { p with input := false })
  | .pinMode pin .inputPin => (.flag false, ps.change pin fun p => { p with input := true, pullUp := false })
  | .pinMode pin .inputPullupPin => (.flag false, ps.change pin fun p => { p with input := true, pullUp := true })
  | .pinMode _ .inputPulldownPin => (.flag true, ps)
  | .write dat => (.flag false, fun i => { ps i with level := dat.getLsbD i })
  | .read => (.bits fun i => (ps i).level, ps)
  | .digitalWrite pin val => (.flag false, ps.change pin fun p => { p with level := val })
  | .digitalRead pin => (.flag (ps pin).level, ps)

end Pins

namespace GpioHw

variable {base : AttId}

/-- The registers of the device hold the pins. -/
structure Registers (base : AttId) (d : Bank) (ps : Pins) : Prop where
  mode : ∃ w : BitVec 32, d.vals (base + ATT_GPIO_INOUT_MODE) = .word w ∧ ∀ i, (ps i).input = w.getLsbD i
  pull : ∃ w : BitVec 32, d.vals (base + ATT_GPIO_PULL_UP) = .word w ∧ ∀ i, (ps i).pullUp = w.getLsbD i
  port : ∃ w : BitVec 32, d.vals (base + ATT_GPIO_RW) = .word w ∧ ∀ i, (ps i).level = w.getLsbD i

theorem add_base_ne {a b : AttId} (h : a ≠ b) : base + a ≠ base + b :=
  fun he => h ((BitVec.add_right_inj base).mp he)

section

variable {d : Bank} {ps : Pins} (w : BitVec 32)

theorem Registers.tick (h : Registers base d ps) : Registers base d.tick ps :=
  ⟨h.mode, h.pull, h.port⟩

theorem Registers.put_mode (h : Registers base d ps) :
    Registers base (d.put (base + ATT_GPIO_INOUT_MODE) (.word w)) fun i => { ps i with input := w.getLsbD i } where
  mode := ⟨w, d.put_vals_self _ _, fun _ => rfl⟩
  pull := by
    rw [d.put_vals_ne _ (add_base_ne (by decide))]
    exact h.pull
  port := by
    rw [d.put_vals_ne _ (add_base_ne (by decide))]
    exact h.port

theorem Registers.put_pull (h : Registers base d ps) :
    Registers base (d.put (base + ATT_GPIO_PULL_UP) (.word w)) fun i => { ps i with pullUp := w.getLsbD i } where
  mode := by
    rw [d.put_vals_ne _ (add_base_ne (by decide))]
    exact h.mode
  pull := ⟨w, d.put_vals_self _ _, fun _ => rfl⟩
  port := by
    rw [d.put_vals_ne _ (add_base_ne (by decide))]
    exact h.port

theorem Registers.put_port (h : Registers base d ps) :
    Registers base (d.put (base + ATT_GPIO_RW) (.word w)) fun i => { ps i with level := w.getLsbD i } where
  mode := by
    rw [d.put_vals_ne _ (add_base_ne (by decide))]
    exact h.mode
  pull := by
    rw [d.put_vals_ne _ (add_base_ne (by decide))]
    exact h.pull
  port := ⟨w, d.put_vals_self _ _, fun _ => rfl⟩

end

/-- A change of one bit in a field of all pins is a change of one pin. -/
theorem change_eq {ps : Pins} {w : BitVec 32} (get : PinState → Bool) (set : PinState → Bool → PinState)
    (hset : ∀ p, set p (get p) = p) (h : ∀ i, get (ps i) = w.getLsbD i) (pin : Fin 32) (b : Bool) :
    (fun i : Fin 32 => set (ps i) ((putBit w pin b).getLsbD i)) = ps.change pin (set · b) := by
  funext i
  rw [getLsbD_putBit w pin b i.isLt, Pins.change]
  by_cases hi : i = pin
  · subst hi
    rw [if_pos rfl, Function.update_self]
  · rw [if_neg (fun hv => hi (Fin.ext hv)), Function.update_of_ne hi, ← h i, hset]

section

variable {d : Bank} {ps : Pins} {w : BitVec 32} (pin : Fin 32) (b : Bool)

theorem Registers.change_mode (h : Registers base d ps) (hi : ∀ i, (ps i).input = w.getLsbD i) :
    Registers base (d.put (base + ATT_GPIO_INOUT_MODE) (.word (putBit w pin b)))
      (ps.change pin fun p => { p with input := b }) :=
  change_eq PinState.input (fun p b => { p with input := b }) (fun _ => rfl) hi pin b ▸
    h.put_mode (putBit w pin b)

theorem Registers.change_pull (h : Registers base d ps) (hi : ∀ i, (ps i).pullUp = w.getLsbD i) :
    Registers base (d.put (base + ATT_GPIO_PULL_UP) (.word (putBit w pin b)))
      (ps.change pin fun p => { p with pullUp := b }) :=
  change_eq PinState.pullUp (fun p b => { p with pullUp := b }) (fun _ => rfl) hi pin b ▸
    h.put_pull (putBit w pin b)

end

/-- A device that accepts every transaction. -/
structure Willing (d : Bank) : Prop where
  connected : d.connected = true
  accepts : ∀ n, d.accepts n = true

section

variable {d : Bank} {ps : Pins} {pin : Fin 32}

theorem Willing.tick (h : Willing d) : Willing d.tick := ⟨h.connected, h.accepts⟩

theorem Willing.put (h : Willing d) (id : AttId) (v : Value) : Willing (d.put id v) :=
  ⟨h.connected, h.accepts⟩

/-- The device is willing and holds the pins. -/
def Sim (base : AttId) (d : Bank) (ps : Pins) : Prop := Willing d ∧ Registers base d ps

theorem write_sim (g : GpioHw base) (dat : BitVec 32) (h : Sim base d ps) :
    (g.write d dat).1 = false ∧ Sim base (g.write d dat).2.2 fun i => { ps i with level := dat.getLsbD i } := by
  obtain ⟨hw, hr⟩ := h
  simp only [write, Bank.write_word _ _ hw.connected (hw.accepts _)]
  exact ⟨trivial, hw.tick.put _ _, hr.tick.put_port dat⟩

/-- `read` gives the levels, which are now in the attribute. -/
theorem read_sim (g : GpioHw base) (h : Sim base d ps) :
    (∀ i : Fin 32, (g.read d).1.getLsbD i = (ps i).level) ∧ Sim base (g.read d).2.2 ps ∧
      (g.read d).2.1.mAttGpioRw.getValueUint32 = (g.read d).1 := by
  obtain ⟨hw, hr⟩ := h
  obtain ⟨w, hv, hl⟩ := hr.port
  simp only [read, Bank.read_word _ hw.connected (hw.accepts _) hv, Bool.false_eq_true, ↓reduceIte,
    AttOf.getValueUint32_set]
  exact ⟨fun i => (hl i).symm, ⟨hw.tick, hr.tick⟩, trivial⟩

theorem pinMode_output_sim (g : GpioHw base) (h : Sim base d ps) :
    (g.pinMode d (pinNo pin) .outputPin).1 = false ∧ Sim base (g.pinMode d (pinNo pin) .outputPin).2.2
      (ps.change pin fun p => { p with input := false }) := by
  obtain ⟨hw, hr⟩ := h
  obtain ⟨w, hv, hi⟩ := hr.mode
  have hlt : ¬ 32 < (pin : ℕ) := by omega
  simp only [pinMode, toNat_pinNo, hlt, ↓reduceIte, Bank.read_word _ hw.connected (hw.accepts _) hv,
    Bool.false_eq_true, AttOf.getValueUint32_set,
    Bank.write_word _ _ hw.tick.connected (hw.tick.accepts _)]
  exact ⟨trivial, hw.tick.tick.put _ _, hr.tick.tick.change_mode pin false hi⟩

/-- The pull-up is written first, the direction after it. -/
theorem pinMode_input_sim (g : GpioHw base) {mode : PinMode} {up : Bool} (h : Sim base d ps)
    (hm : mode = .inputPin ∧ up = false ∨ mode = .inputPullupPin ∧ up = true) :
    (g.pinMode d (pinNo pin) mode).1 = false ∧ Sim base (g.pinMode d (pinNo pin) mode).2.2
      (ps.change pin fun p => { p with input := true, pullUp := up }) := by
  obtain ⟨hw, hr⟩ := h
  obtain ⟨w, hv, hi⟩ := hr.mode
  obtain ⟨u, hu, hp⟩ := hr.pull
  have hlt : ¬ 32 < (pin : ℕ) := by omega
  have hpull : (if mode = .inputPin then clearBit u pin else setBit u pin) = putBit u pin up := by
    rcases hm with ⟨rfl, rfl⟩ | ⟨rfl, rfl⟩ <;> rfl
  have hmode : mode ≠ .outputPin ∧ mode ≠ .inputPulldownPin := by
    rcases hm with ⟨rfl, -⟩ | ⟨rfl, -⟩ <;> decide
  have hw3 := hw.tick.tick.tick.put (base + ATT_GPIO_PULL_UP) (.word (putBit u pin up))
  have hr3 := hr.tick.tick.tick.change_pull pin up hp
  have hr4 := hr3.tick.change_mode pin true fun i => (ps.change_pullUp_input pin up i).trans (hi i)
  simp only [pinMode, toNat_pinNo, hlt, ↓reduceIte, Bank.read_word _ hw.connected (hw.accepts _) hv,
    Bool.false_eq_true, hmode.1, hmode.2, Bank.read_word _ hw.tick.connected (hw.tick.accepts _) hu,
    AttOf.getValueUint32_set, hpull, Bank.write_word _ _ hw.tick.tick.connected (hw.tick.tick.accepts _),
    Bank.write_word _ _ hw3.connected (hw3.accepts _)]
  rw [Pins.change_change] at hr4
  exact ⟨trivial, hw3.tick.put _ _, hr4⟩

theorem pinMode_pulldown_sim (g : GpioHw base) (h : Sim base d ps) :
    (g.pinMode d (pinNo pin) .inputPulldownPin).1 = true ∧
      Sim base (g.pinMode d (pinNo pin) .inputPulldownPin).2.2 ps := by
  obtain ⟨hw, hr⟩ := h
  obtain ⟨w, hv, -⟩ := hr.mode
  obtain ⟨u, hu, -⟩ := hr.pull
  have hlt : ¬ 32 < (pin : ℕ) := by omega
  simp only [pinMode, toNat_pinNo, hlt, ↓reduceIte, Bank.read_word _ hw.connected (hw.accepts _) hv,
    Bool.false_eq_true, reduceCtorEq, Bank.read_word _ hw.tick.connected (hw.tick.accepts _) hu]
  exact ⟨trivial, hw.tick.tick, hr.tick.tick⟩

theorem digitalWrite_sim (g : GpioHw base) (val : Bool) (h : Sim base d ps) :
    (g.digitalWrite d (pinNo pin) val).1 = false ∧ Sim base (g.digitalWrite d (pinNo pin) val).2.2
      (ps.change pin fun p => { p with level := val }) := by
  obtain ⟨hl, hs, ha⟩ := read_sim g h
  have hc := change_eq PinState.level (fun p b => { p with level := b }) (fun _ => rfl)
    (fun i => (hl i).symm) pin val
  have hw := write_sim (g.read d).2.1 (putBit (g.read d).1 pin val) hs
  rw [hc] at hw
  simp only [digitalWrite, ha, toNat_pinNo]
  exact hw

theorem digitalRead_sim (g : GpioHw base) (h : Sim base d ps) :
    (g.digitalRead d (pinNo pin)).1 = (ps pin).level ∧ Sim base (g.digitalRead d (pinNo pin)).2.2 ps := by
  obtain ⟨hl, hs, -⟩ := read_sim g h
  refine ⟨?_, hs⟩
  simp only [digitalRead, toNat_pinNo]
  rw [← hl pin, Bool.eq_iff_iff, bne_iff_ne]
  exact and_one_shiftLeft_ne_zero_iff _ pin.isLt

theorem step_sim (g : GpioHw base) (c : Call) (h : Sim base d ps) :
    (step (g, d) c).1 = (ps.step c).1 ∧ Sim base (step (g, d) c).2.2 (ps.step c).2 := by
  cases c with
  | pinMode pin mode =>
    cases mode with
    | outputPin => exact (pinMode_output_sim g h).imp (congrArg Ret.flag) id
    | inputPin => exact (pinMode_input_sim g h (.inl ⟨rfl, rfl⟩)).imp (congrArg Ret.flag) id
    | inputPullupPin => exact (pinMode_input_sim g h (.inr ⟨rfl, rfl⟩)).imp (congrArg Ret.flag) id
    | inputPulldownPin => exact (pinMode_pulldown_sim g h).imp (congrArg Ret.flag) id
  | write dat => exact (write_sim g dat h).imp (congrArg Ret.flag) id
  | read =>
    obtain ⟨hl, hs, -⟩ := read_sim g h
    exact ⟨congrArg Ret.bits (funext hl), hs⟩
  | digitalWrite pin val => exact (digitalWrite_sim g val h).imp (congrArg Ret.flag) id
  | digitalRead pin => exact (digitalRead_sim g h).imp (congrArg Ret.flag) id

end

/-- `GpioHw` refines the pins: against a device that accepts every
transaction, every sequence of calls returns what the reference model
returns, and after each the registers hold the reference model's pins. -/
theorem refines_pins (g : GpioHw base) {d : Bank} {ps : Pins} (hw : Willing d) (hr : Registers base d ps)
    (cs : List Call) :
    List.Forall₂ (fun a b => a.1 = b.1 ∧ Registers base a.2.2 b.2)
      (Mealy.trace step (g, d) cs) (Mealy.trace Pins.step ps cs) :=
  (Mealy.trace_simulate (R := fun s ps => Sim base s.2 ps) (fun s _ c h => step_sim s.1 c h) cs ⟨hw, hr⟩).imp
    fun _ _ h => ⟨h.1, h.2.2⟩

/-- The object of a fresh program and a device whose registers are 0. -/
def fresh : GpioHw 0x1200 := .new Attvalue.zeros Attvalue.length_zeros _

theorem refines_pins_pullup : List.Forall₂ (fun a b => a.1 = b.1 ∧ Registers 0x1200 a.2.2 b.2)
    (Mealy.trace step (fresh, Bank.holding fun _ => .word 0)
      [.pinMode 31 .inputPullupPin, .write 5, .digitalWrite 31 true, .digitalRead 31, .read])
    (Mealy.trace Pins.step (fun _ => ⟨false, false, false⟩)
      [.pinMode 31 .inputPullupPin, .write 5, .digitalWrite 31 true, .digitalRead 31, .read]) :=
  refines_pins fresh ⟨rfl, fun _ => rfl⟩
    ⟨⟨0, rfl, fun _ => (BitVec.getLsbD_zero).symm⟩, ⟨0, rfl, fun _ => (BitVec.getLsbD_zero).symm⟩,
      ⟨0, rfl, fun _ => (BitVec.getLsbD_zero).symm⟩⟩ _

/-! ### A read that fails -/

/-- The port after `digitalWrite`, whatever its read and its write come to. -/
theorem digitalWrite_port (g : GpioHw base) {d : Bank} {port : BitVec 32}
    (h : d.vals (base + ATT_GPIO_RW) = .word port) (pin : BitVec 8) (val : Bool) :
    (g.digitalWrite d pin val).2.2.vals (base + ATT_GPIO_RW) = .word
      (if d.connected = true ∧ d.accepts (d.n + 1) = true then
        putBit (if d.accepts d.n = true then port else g.mAttGpioRw.getValueUint32) pin.toNat val
      else port) := by
  cases hc : d.connected with
  | false => simp [digitalWrite, read, write, Bank.read_closed _ hc, Bank.write_closed _ hc, h]
  | true =>
    have hc' : d.tick.connected = true := hc
    cases hw : d.accepts (d.n + 1) with
    | false =>
      have hw' : d.tick.accepts d.tick.n = false := hw
      cases hr : d.accepts d.n with
      | false => simp [digitalWrite, read, write, Bank.read_refused _ hc hr, Bank.write_refused _ hc' hw', h]
      | true => simp [digitalWrite, read, write, Bank.read_word _ hc hr h, Bank.write_refused _ hc' hw', h]
    | true =>
      have hw' : d.tick.accepts d.tick.n = true := hw
      cases hr : d.accepts d.n with
      | false =>
        simp [digitalWrite, read, write, Bank.read_refused _ hc hr, Bank.write_word _ _ hc' hw', putBit]
      | true => simp [digitalWrite, read, write, Bank.read_word _ hc hr h, Bank.write_word _ _ hc' hw', putBit]

/-- `digitalWrite` leaves the other pins alone exactly when the handle is
closed, its write is refused, its read succeeds, or the attribute already
holds the levels of the other pins. -/
theorem digitalWrite_frame_iff (g : GpioHw base) {d : Bank} {port : BitVec 32}
    (h : d.vals (base + ATT_GPIO_RW) = .word port) (pin : Fin 32) (val : Bool) :
    (∃ port', (g.digitalWrite d (pinNo pin) val).2.2.vals (base + ATT_GPIO_RW) = .word port' ∧
        AgreeOff pin port' port) ↔
      d.connected = false ∨ d.accepts (d.n + 1) = false ∨ d.accepts d.n = true ∨
        AgreeOff pin g.mAttGpioRw.getValueUint32 port := by
  simp only [digitalWrite_port g h, toNat_pinNo, Value.word_inj, exists_eq_left']
  by_cases hw : d.connected = true ∧ d.accepts (d.n + 1) = true
  · rw [if_pos hw, agreeOff_putBit_iff]
    cases hr : d.accepts d.n with
    | true => simp only [↓reduceIte, AgreeOff.refl, true_or, or_true]
    | false => simp only [hw.1, hw.2, Bool.false_eq_true, Bool.true_eq_false, ↓reduceIte, false_or]
  · rw [if_neg hw]
    simp only [AgreeOff.refl, true_iff]
    simp only [not_and_or, Bool.not_eq_true] at hw
    rcases hw with hw | hw
    · exact .inl hw
    · exact .inr (.inl hw)

/-- Pin 0 is on and `digitalWrite` of pin 1 turns it off: its read is refused
and its write accepted. -/
def refusing : Bank := { Bank.holding fun _ => .word 1 with accepts := fun n => n == 1 }

theorem digitalWrite_frame_iff_on : (∃ port', (fresh.digitalWrite { refusing with accepts := fun _ => true }
      (pinNo 1) true).2.2.vals (0x1200 + ATT_GPIO_RW) = .word port' ∧ AgreeOff 1 port' 1) :=
  (digitalWrite_frame_iff fresh (d := { refusing with accepts := fun _ => true }) rfl 1 true).mpr
    (.inr (.inr (.inl rfl)))

theorem digitalWrite_clobbers : ¬ ∀ (g : GpioHw 0x1200) (d : Bank) (port : BitVec 32) (pin : Fin 32) (val : Bool),
    d.vals (0x1200 + ATT_GPIO_RW) = .word port →
      ∃ port', (g.digitalWrite d (pinNo pin) val).2.2.vals (0x1200 + ATT_GPIO_RW) = .word port' ∧
        AgreeOff pin port' port := by
  intro h
  obtain ⟨port', hp, ha⟩ := h fresh refusing 1 1 true rfl
  have h2 : (fresh.digitalWrite refusing (pinNo 1) true).2.2.vals (0x1200 + ATT_GPIO_RW) = .word 2 := by decide
  rw [h2, Value.word_inj] at hp
  exact absurd (hp ▸ ha) (by decide)

end GpioHw

end ToolbitSdk
