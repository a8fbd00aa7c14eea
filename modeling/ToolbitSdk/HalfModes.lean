/-
# A pinMode that fails halfway

`GpioHw::pinMode` writes the pull-up register first and the direction after
it, and returns as soon as one of its transactions fails. The outcome is
read off the number of transactions the device takes in a row
(`Bank.Takes`). For an output every failure leaves both registers alone
(`GpioHw.pinMode_output_failed`). For an input the fourth transaction is the
write of the direction: when that one is refused the pull-up stays switched,
and the caller is told that nothing was done (`GpioHw.pinMode_half`). It is
the only way a failed call leaves a trace (`GpioHw.pinMode_clean_iff`).
-/
import ToolbitSdk.Gpio

namespace ToolbitSdk

open Bytes Bits TbiService

/-! ### What pinMode comes to -/

namespace GpioHw

variable {base : AttId}

/-- The direction and the pull-up register hold `w` and `u`. -/
structure Modes (base : AttId) (d : Bank) (w u : BitVec 32) : Prop where
  direction : d.vals (base + ATT_GPIO_INOUT_MODE) = .word w
  pullUp : d.vals (base + ATT_GPIO_PULL_UP) = .word u

/-- The registers with the pin in a mode; "INPUT_PULLDOWN_PIN is not
supported yet". -/
def inMode (pin : ℕ) (w u : BitVec 32) : PinMode → Option (BitVec 32 × BitVec 32)
  | .outputPin => some (clearBit w pin, u)
  | .inputPin => some (setBit w pin, clearBit u pin)
  | .inputPullupPin => some (setBit w pin, setBit u pin)
  | .inputPulldownPin => none

/-- The pull-up bit that an input asks for. -/
def pullOf : PinMode → Option Bool
  | .inputPin => some false
  | .inputPullupPin => some true
  | .outputPin | .inputPulldownPin => none

theorem pullOf_eq_some {mode : PinMode} {up : Bool} (h : pullOf mode = some up) :
    mode ≠ .outputPin ∧ mode ≠ .inputPulldownPin ∧ ∀ (u : BitVec 32) (pin : ℕ),
      (if mode = .inputPin then clearBit u pin else setBit u pin) = putBit u pin up := by
  rcases mode with _ | _ | _ | _
  · cases h
  · cases h
    exact ⟨by decide, by decide, fun _ _ => rfl⟩
  · cases h
    exact ⟨by decide, by decide, fun _ _ => rfl⟩
  · cases h

theorem inMode_of_pullOf {mode : PinMode} {up : Bool} (h : pullOf mode = some up) (pin : ℕ) (w u : BitVec 32) :
    inMode pin w u mode = some (setBit w pin, putBit u pin up) := by
  rcases mode with _ | _ | _ | _ <;> cases h <;> rfl

/-- A call that returned `err` and left `w` and `u` in the registers. -/
def Comes (r : Bool × GpioHw base × Bank) (err : Bool) (w u : BitVec 32) : Prop :=
  r.1 = err ∧ Modes base r.2.2 w u

section

variable {d : Bank} {w u : BitVec 32}

theorem Modes.of_vals {d' : Bank} (h : Modes base d w u) (hv : d'.vals = d.vals) :
    Modes base d' w u :=
  ⟨hv ▸ h.direction, hv ▸ h.pullUp⟩

theorem Modes.tick (h : Modes base d w u) : Modes base d.tick w u := ⟨h.direction, h.pullUp⟩

theorem Modes.put_direction (h : Modes base d w u) (w' : BitVec 32) :
    Modes base (d.put (base + ATT_GPIO_INOUT_MODE) (.word w')) w' u where
  direction := d.put_vals_self _ _
  pullUp := by
    rw [d.put_vals_ne _ (add_base_ne (by decide))]
    exact h.pullUp

theorem Modes.put_pullUp (h : Modes base d w u) (u' : BitVec 32) :
    Modes base (d.put (base + ATT_GPIO_PULL_UP) (.word u')) w u' where
  direction := by
    rw [d.put_vals_ne _ (add_base_ne (by decide))]
    exact h.direction
  pullUp := d.put_vals_self _ _

theorem Modes.inj {w' u' : BitVec 32} (h : Modes base d w u) (h' : Modes base d w' u') :
    w = w' ∧ u = u' :=
  ⟨Value.word_inj.mp (h.direction.symm.trans h'.direction), Value.word_inj.mp (h.pullUp.symm.trans h'.pullUp)⟩

variable (g : GpioHw base) (pin : Fin 32)

/-- The first read fails. -/
theorem pinMode_read_failed (mode : PinMode) (h : Modes base d w u) (h0 : ¬ d.Takes 1) :
    Comes (g.pinMode d (pinNo pin) mode) true w u := by
  have hlt : ¬ 32 < (pin : ℕ) := by omega
  obtain ⟨d', hr, hv⟩ := Bank.read_not_takes g.mAttGpioInoutMode h0
  simp only [Comes, pinMode, toNat_pinNo, hlt, ↓reduceIte, hr, true_and]
  exact h.of_vals hv

/-- The second read of an input fails. -/
theorem pinMode_pull_failed {mode : PinMode} (ho : mode ≠ .outputPin) (h : Modes base d w u) (h0 : d.Takes 1)
    (h1 : ¬ d.tick.Takes 1) : Comes (g.pinMode d (pinNo pin) mode) true w u := by
  have hlt : ¬ 32 < (pin : ℕ) := by omega
  obtain ⟨d', hr, hv⟩ := Bank.read_not_takes g.mAttGpioPullUp h1
  simp only [Comes, pinMode, toNat_pinNo, hlt, ↓reduceIte, ho, Bank.read_takes _ h.direction h0,
    Bool.false_eq_true, hr, true_and]
  exact h.of_vals hv

/-- An output is a read and a write of the direction. -/
theorem pinMode_output_done (h : Modes base d w u) (ht : d.Takes 2) :
    Comes (g.pinMode d (pinNo pin) .outputPin) false (clearBit w pin) u := by
  have hlt : ¬ 32 < (pin : ℕ) := by omega
  simp only [Comes, pinMode, toNat_pinNo, hlt, ↓reduceIte, Bank.read_takes _ h.direction ht.first,
    Bool.false_eq_true, AttOf.getValueUint32_set, Bank.write_takes _ _ ht.rest, true_and]
  exact h.tick.tick.put_direction _

/-- Where one of them fails nothing changes. -/
theorem pinMode_output_failed (h : Modes base d w u) (ht : ¬ d.Takes 2) :
    Comes (g.pinMode d (pinNo pin) .outputPin) true w u := by
  have hlt : ¬ 32 < (pin : ℕ) := by omega
  by_cases h0 : d.Takes 1
  · have h1 : ¬ d.tick.Takes 1 := fun h1 => ht (h0.before h1)
    obtain ⟨d', hw, hv⟩ := Bank.write_not_takes
      ((g.mAttGpioInoutMode.set (·.setValueUint32 w)).set (·.setValueUint32 (clearBit w pin))) h1
    simp only [Comes, pinMode, toNat_pinNo, hlt, ↓reduceIte, Bank.read_takes _ h.direction h0,
      Bool.false_eq_true, AttOf.getValueUint32_set, hw, true_and]
    exact h.of_vals hv
  · exact pinMode_read_failed g pin _ h h0

/-- An input reads both registers and writes both, the pull-up first. -/
theorem pinMode_input_done {mode : PinMode} {up : Bool} (hm : pullOf mode = some up) (h : Modes base d w u)
    (ht : d.Takes 4) : Comes (g.pinMode d (pinNo pin) mode) false (setBit w pin) (putBit u pin up) := by
  have hlt : ¬ 32 < (pin : ℕ) := by omega
  obtain ⟨ho, hd, hp⟩ := pullOf_eq_some hm
  have h4 : (d.tick.tick.tick.put (base + ATT_GPIO_PULL_UP) (.word (putBit u pin up))).Takes 1 :=
    (Bank.takes_put _ _).mpr ht.rest.rest.rest
  simp only [Comes, pinMode, toNat_pinNo, hlt, ↓reduceIte, ho, hd, Bank.read_takes _ h.direction ht.first,
    Bank.read_takes _ h.tick.pullUp ht.rest.first, Bool.false_eq_true, AttOf.getValueUint32_set, hp,
    Bank.write_takes _ _ ht.rest.rest.first, Bank.write_takes _ _ h4, true_and]
  exact (h.tick.tick.tick.put_pullUp _).tick.put_direction _

/-- The write of the direction fails: the pull-up is switched already. -/
theorem pinMode_half {mode : PinMode} {up : Bool} (hm : pullOf mode = some up) (h : Modes base d w u)
    (h3 : d.Takes 3) (h4 : ¬ d.Takes 4) : Comes (g.pinMode d (pinNo pin) mode) true w (putBit u pin up) := by
  have hlt : ¬ 32 < (pin : ℕ) := by omega
  obtain ⟨ho, hd, hp⟩ := pullOf_eq_some hm
  have hn : ¬ (d.tick.tick.tick.put (base + ATT_GPIO_PULL_UP) (.word (putBit u pin up))).Takes 1 := fun h1 =>
    h4 (h3.first.before (h3.rest.first.before (h3.rest.rest.before ((Bank.takes_put _ _).mp h1))))
  obtain ⟨d', hw, hv⟩ := Bank.write_not_takes
    ((g.mAttGpioInoutMode.set (·.setValueUint32 w)).set (·.setValueUint32 (setBit w pin))) hn
  simp only [Comes, pinMode, toNat_pinNo, hlt, ↓reduceIte, ho, hd, Bank.read_takes _ h.direction h3.first,
    Bank.read_takes _ h.tick.pullUp h3.rest.first, Bool.false_eq_true, AttOf.getValueUint32_set, hp,
    Bank.write_takes _ _ h3.rest.rest, hw, true_and]
  exact (h.tick.tick.tick.put_pullUp _).of_vals hv

/-- Before that, nothing is changed. -/
theorem pinMode_input_failed {mode : PinMode} {up : Bool} (hm : pullOf mode = some up) (h : Modes base d w u)
    (ht : ¬ d.Takes 3) : Comes (g.pinMode d (pinNo pin) mode) true w u := by
  have hlt : ¬ 32 < (pin : ℕ) := by omega
  obtain ⟨ho, hd, hp⟩ := pullOf_eq_some hm
  by_cases h0 : d.Takes 1
  · by_cases h1 : d.tick.Takes 1
    · have h2 : ¬ d.tick.tick.Takes 1 := fun h2 => ht (h0.before (h1.before h2))
      obtain ⟨d', hw, hv⟩ := Bank.write_not_takes
        ((g.mAttGpioPullUp.set (·.setValueUint32 u)).set (·.setValueUint32 (putBit u pin up))) h2
      simp only [Comes, pinMode, toNat_pinNo, hlt, ↓reduceIte, ho, hd, Bank.read_takes _ h.direction h0,
        Bank.read_takes _ h.tick.pullUp h1, Bool.false_eq_true, AttOf.getValueUint32_set, hp, hw, true_and]
      exact h.of_vals hv
    · exact pinMode_pull_failed g pin ho h h0 h1
  · exact pinMode_read_failed g pin _ h h0

/-- A pull-down is refused after the reads. -/
theorem pinMode_pulldown_comes (h : Modes base d w u) :
    Comes (g.pinMode d (pinNo pin) .inputPulldownPin) true w u := by
  have hlt : ¬ 32 < (pin : ℕ) := by omega
  by_cases h0 : d.Takes 1
  · by_cases h1 : d.tick.Takes 1
    · simp only [Comes, pinMode, toNat_pinNo, hlt, ↓reduceIte, reduceCtorEq, Bank.read_takes _ h.direction h0,
        Bank.read_takes _ h.tick.pullUp h1, Bool.false_eq_true, true_and]
      exact h.tick.tick
    · exact pinMode_pull_failed g pin (by decide) h h0 h1
  · exact pinMode_read_failed g pin _ h h0

end

/-! ### A failed call changes nothing -/

/-- What a call from `w` and `u` owes its caller: on an error both registers
are as they were, on success both are in the mode asked for. -/
def Clean (r : Bool × GpioHw base × Bank) (mode : PinMode) (pin : Fin 32) (w u : BitVec 32) :
    Prop :=
  (r.1 = true → Modes base r.2.2 w u) ∧
    (r.1 = false → ∃ w' u', inMode pin w u mode = some (w', u') ∧ Modes base r.2.2 w' u')

theorem Comes.clean_of_failed {r : Bool × GpioHw base × Bank} {mode : PinMode} {pin : Fin 32} {w u : BitVec 32}
    (h : Comes r true w u) : Clean r mode pin w u := by
  refine ⟨fun _ => h.2, fun hf => ?_⟩
  rw [h.1] at hf
  cases hf

theorem Comes.clean_of_done {r : Bool × GpioHw base × Bank} {mode : PinMode} {pin : Fin 32} {w u w' u' : BitVec 32}
    (h : Comes r false w' u') (hm : inMode pin w u mode = some (w', u')) : Clean r mode pin w u := by
  refine ⟨fun hf => ?_, fun _ => ⟨w', u', hm, h.2⟩⟩
  rw [h.1] at hf
  cases hf

/-- A half-finished call is clean only if the pull-up was as asked. -/
theorem Comes.clean_half_iff {r : Bool × GpioHw base × Bank} {mode : PinMode} {pin : Fin 32} {w u : BitVec 32}
    {up : Bool} (h : Comes r true w (putBit u pin up)) : Clean r mode pin w u ↔ u.getLsbD pin = up := by
  rw [← putBit_eq_self_iff u up pin.isLt]
  constructor
  · intro hc
    exact ((hc.1 h.1).inj h.2).2.symm
  · intro hu
    rw [hu] at h
    exact h.clean_of_failed

/-- A call of `pinMode` is clean unless the device takes its first three
transactions and not the fourth, and the pull-up is to be switched. -/
theorem pinMode_clean_iff (g : GpioHw base) {d : Bank} {w u : BitVec 32} (h : Modes base d w u) (pin : Fin 32)
    (mode : PinMode) : Clean (g.pinMode d (pinNo pin) mode) mode pin w u ↔
      ¬ (d.Takes 3 ∧ ¬ d.Takes 4 ∧ pullOf mode = some (!u.getLsbD pin)) := by
  by_cases ho : mode = .outputPin
  · subst ho
    have hn : ¬ (d.Takes 3 ∧ ¬ d.Takes 4 ∧ pullOf .outputPin = some (!u.getLsbD pin)) := fun hh => nomatch hh.2.2
    by_cases ht : d.Takes 2
    · exact iff_of_true ((pinMode_output_done g pin h ht).clean_of_done rfl) hn
    · exact iff_of_true (pinMode_output_failed g pin h ht).clean_of_failed hn
  by_cases hd : mode = .inputPulldownPin
  · subst hd
    exact iff_of_true (pinMode_pulldown_comes g pin h).clean_of_failed fun hh => nomatch hh.2.2
  obtain ⟨up, hm⟩ : ∃ up, pullOf mode = some up := by
    rcases mode with _ | _ | _ | _
    · exact absurd rfl ho
    · exact ⟨false, rfl⟩
    · exact ⟨true, rfl⟩
    · exact absurd rfl hd
  by_cases h3 : d.Takes 3
  · by_cases h4 : d.Takes 4
    · exact iff_of_true ((pinMode_input_done g pin hm h h4).clean_of_done (inMode_of_pullOf hm pin w u))
        fun hh => hh.2.1 h4
    · rw [(pinMode_half g pin hm h h3 h4).clean_half_iff, hm, Option.some_inj]
      simp only [h3, h4, not_false_eq_true, true_and]
      cases u.getLsbD pin <;> cases up <;> decide
  · exact iff_of_true (pinMode_input_failed g pin hm h h3).clean_of_failed fun hh => h3 hh.1

/-- A pull-up of a fresh object, on a device that takes everything. -/
theorem pinMode_clean_iff_pullup :
    Clean (fresh.pinMode (Bank.holding fun _ => .word 0) (pinNo 7) .inputPullupPin) .inputPullupPin 7 0 0 ↔
      ¬ ((Bank.holding fun _ => .word 0).Takes 3 ∧ ¬ (Bank.holding fun _ => .word 0).Takes 4 ∧
        pullOf .inputPullupPin = some (!(0 : BitVec 32).getLsbD (7 : Fin 32))) :=
  pinMode_clean_iff fresh ⟨rfl, rfl⟩ 7 .inputPullupPin

/-- A device of words 0 that refuses its fourth transaction. -/
def refusingFourth : Bank := { Bank.holding fun _ => .word 0 with accepts := fun n => n != 3 }

theorem pinMode_not_clean : ¬ ∀ (g : GpioHw 0x1200) (d : Bank) (w u : BitVec 32) (pin : Fin 32) (mode : PinMode),
    Modes 0x1200 d w u → Clean (g.pinMode d (pinNo pin) mode) mode pin w u := by
  intro h
  have hm : Modes 0x1200 refusingFourth 0 0 := ⟨rfl, rfl⟩
  have hhalf : Comes (fresh.pinMode refusingFourth (pinNo (7 : Fin 32)) .inputPullupPin) true 0 (putBit 0 7 true) :=
    pinMode_half fresh 7 rfl hm (by decide) (by decide)
  exact absurd (hhalf.clean_half_iff.mp (h fresh refusingFourth 0 0 7 .inputPullupPin hm)) (by decide)

end GpioHw

end ToolbitSdk
