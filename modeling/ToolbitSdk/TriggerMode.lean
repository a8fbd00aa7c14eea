/-
# The trigger mode a meter thinks it is in

`setTriggerMode` sets its attribute before the write and resets it to
`TRIGGER_MODE_NONE` when the write is refused, whatever the device's mode
was. The attribute is the device's mode along a run, and with it the getters
wait exactly when the device streams and `close` stops the stream, exactly
when no `setTriggerMode` on an open device is refused while the device is in
another mode than `TRIGGER_MODE_NONE` (`Meter.mode_law_iff`).
-/
import ToolbitSdk.Lib.Mealy
import ToolbitSdk.Meter

namespace ToolbitSdk
namespace Meter

open Bytes TbiService

variable {k : Kind}

/-- The calls that have to do with the mode; `path` is what the device
manager gives and the values the device then has. -/
inductive Call
  | openPath (path : Option (Option (AttId → Value)))
  | setTriggerMode (val : BitVec 8)
  | close

def step (m : Meter k Bank) : Call → Bool × Meter k Bank
  | .openPath path => m.openPath path
  | .setTriggerMode val => m.setTriggerMode val
  | .close => m.close

/-- A device is in `TRIGGER_MODE_NONE` when it is opened. -/
def Call.StartsIdle : Call → Prop
  | .openPath (some (some vals)) => vals ATT_TRIGGER_MODE = .byte TRIGGER_MODE_NONE
  | _ => True

/-- The device's mode. -/
def deviceMode (m : Meter k Bank) : BitVec 8 := (m.link.vals ATT_TRIGGER_MODE).toNum 1

/-- On an open device: the attribute holds the device's mode, the getters
wait for averages exactly when the device streams, and a `close` whose write,
if it makes one, is accepted does not leave it streaming. -/
structure Agrees (m : Meter k Bank) : Prop where
  mirror : m.link.connected = true → m.mAttTriggerMode.getValueUint8 = m.deviceMode
  polls : m.link.connected = true → (m.polls = true ↔ m.deviceMode = TRIGGER_MODE_CONTINUOUS)
  close : m.link.connected = true → (m.polls = true → m.link.accepts m.link.n = true) →
    m.close.2.deviceMode ≠ TRIGGER_MODE_CONTINUOUS

/-- A `setTriggerMode` that the device refuses finds it in
`TRIGGER_MODE_NONE`. -/
def RefusedInNone (m : Meter k Bank) : Call → Prop
  | .setTriggerMode _ =>
    m.link.connected = true → m.link.accepts m.link.n = false → m.deviceMode = TRIGGER_MODE_NONE
  | _ => True

instance (m : Meter k Bank) : DecidablePred m.RefusedInNone := fun c => by
  cases c <;> unfold RefusedInNone <;> infer_instance

/-! ### setTriggerMode -/

section

variable {m : Meter k Bank} (v : BitVec 8)

theorem setTriggerMode_accepted (hc : m.link.connected = true) (ha : m.link.accepts m.link.n = true) :
    m.setTriggerMode v = (false, { m with
      link := m.link.tick.put ATT_TRIGGER_MODE (.byte v),
      mAttTriggerMode := m.mAttTriggerMode.set (·.setValueUint8 v) }) := by
  simp only [setTriggerMode, Bank.write_byte _ _ hc ha, Bool.false_eq_true, ↓reduceIte]

/-- The first byte of the `int` is that of `TRIGGER_MODE_NONE`. -/
theorem getValueUint8_setNone {id : AttId} (a : AttOf id) :
    (a.set (·.setValueInt32 (TRIGGER_MODE_NONE.setWidth 32))).getValueUint8 = TRIGGER_MODE_NONE := by
  show leWord 8 ((overlay (leBytes 4 0) a.att.dat).take 1) = TRIGGER_MODE_NONE
  rw [take_overlay _ (by decide)]
  decide

theorem setTriggerMode_none (m : Meter k Bank) :
    (m.setTriggerMode TRIGGER_MODE_NONE).2.mAttTriggerMode.getValueUint8 = TRIGGER_MODE_NONE := by
  rw [setTriggerMode]
  split
  split
  · exact getValueUint8_setNone _
  · exact AttOf.getValueUint8_set _ _

theorem setTriggerMode_refused (hc : m.link.connected = true) (ha : m.link.accepts m.link.n = false) :
    (m.setTriggerMode v).1 = true ∧ (m.setTriggerMode v).2.link = m.link.tick ∧
      (m.setTriggerMode v).2.mAttTriggerMode.getValueUint8 = TRIGGER_MODE_NONE := by
  simp only [setTriggerMode, Bank.write_refused _ hc ha, ↓reduceIte, getValueUint8_setNone, and_self]

theorem setTriggerMode_closed (hc : m.link.connected = false) :
    (m.setTriggerMode v).2.link = m.link ∧ (m.setTriggerMode v).2.polls = false := by
  simp only [setTriggerMode, Bank.write_closed _ hc, ↓reduceIte, polls, getValueUint8_setNone]
  decide

/-- Whatever becomes of the write, the handle stays as it is. -/
theorem setTriggerMode_connected : (m.setTriggerMode v).2.link.connected = m.link.connected := by
  cases hc : m.link.connected with
  | false => rw [(setTriggerMode_closed v hc).1, hc]
  | true =>
    cases ha : m.link.accepts m.link.n with
    | true => rw [setTriggerMode_accepted v hc ha]; exact hc
    | false => rw [(setTriggerMode_refused v hc ha).2.1]; exact hc

end

/-! ### The law -/

section

variable {m : Meter k Bank}

/-- The object that `close` has when it comes to the handle. -/
def stopped (m : Meter k Bank) : Meter k Bank :=
  if m.polls then (m.setTriggerMode TRIGGER_MODE_NONE).2 else m

theorem close_eq (m : Meter k Bank) : m.close =
    ((TbiCore.close m.stopped.link).1, { m.stopped with link := (TbiCore.close m.stopped.link).2 }) := by
  have hs : (if m.mAttTriggerMode.getValueUint8 = TRIGGER_MODE_CONTINUOUS then
      (m.setTriggerMode TRIGGER_MODE_NONE).2 else m) = m.stopped := by
    simp only [stopped, polls, beq_iff_eq]
  rw [close, hs]

theorem close_link (m : Meter k Bank) : m.close.2.link = { m.stopped.link with connected := false } := by
  rw [close_eq]
  exact Bank.close_link _

/-- After `close` the getters do not poll, whatever became of its write. -/
theorem close_polls (m : Meter k Bank) : m.close.2.polls = false := by
  have hp : m.close.2.polls = m.stopped.polls := by
    rw [close_eq]
    rfl
  rw [hp, stopped]
  split
  · rw [polls, setTriggerMode_none]
    rfl
  · rename_i h
    exact Bool.eq_false_iff.mpr h

/-- The other parts of the law follow from the first. -/
theorem agrees_iff : m.Agrees ↔
    (m.link.connected = true → m.mAttTriggerMode.getValueUint8 = m.deviceMode) := by
  refine ⟨Agrees.mirror, fun h => ⟨h, fun hc => ?_, fun hc ha => ?_⟩⟩
  · rw [polls, beq_iff_eq, h hc]
  · have hm : m.close.2.deviceMode = m.stopped.deviceMode := by
      rw [deviceMode, close_link, deviceMode]
    rw [hm, stopped]
    split
    · rename_i hp
      rw [setTriggerMode_accepted _ hc (ha hp), deviceMode, Bank.put_vals_self, Value.toNum_byte]
      decide
    · rename_i hp
      rw [← h hc]
      simpa [polls] using hp

/-- A closed meter agrees with everything. -/
theorem Agrees.of_closed (h : m.link.connected = false) : m.Agrees :=
  agrees_iff.mpr fun h' => by rw [h] at h'; cases h'

theorem setIntegratingTime_link (m : Meter k Bank) (ms : BitVec 16) :
    (m.setIntegratingTime ms).2.link = m.link ∧ (m.setIntegratingTime ms).2.polls = m.polls := by
  unfold setIntegratingTime
  split <;> exact ⟨rfl, rfl⟩

theorem readNow_connected (m : Meter k Bank) (dec : BitVec 32 → ℚ) (q : Quantity) :
    (m.readNow dec q).2.link.connected = m.link.connected ∧ (m.readNow dec q).2.polls = m.polls := by
  cases q with
  | volt => exact ⟨Bank.read_connected m.mAttVoltage m.link, rfl⟩
  | curr => exact ⟨Bank.read_connected m.mAttCurrent m.link, rfl⟩

/-- A constructed object is in `TRIGGER_MODE_NONE`. -/
theorem polls_new {σ : Type*} (core : TbiCore) (link : σ) {junk : List Byte} (h : junk.length = VALUE_LEN + 1)
    {bufs : Quantity → List ℚ} (hb : ∀ q, (bufs q).length = DATA_BUF_SIZE_MAX) :
    (Meter.new k core link junk h bufs hb).polls = false := by
  show (leWord 8 ((overlay [0] junk).take 1) == TRIGGER_MODE_CONTINUOUS) = false
  rw [take_overlay _ (by decide)]
  decide

/-- An `open` that succeeds. -/
theorem openPath_success {path : Option (Option (AttId → Value))} (h : (m.openPath path).1 = false) :
    m.link.connected = false ∧ (∃ vals, path = some (some vals)) ∧ (m.openPath path).2.link.connected = true := by
  unfold openPath at h ⊢
  rcases hp : m.core.openPath m.link path with ⟨_ | _, core, link⟩
  · obtain ⟨hc, vals, rfl, rfl⟩ := Bank.openPath_link hp
    exact ⟨hc, ⟨vals, rfl⟩, setTriggerMode_connected _⟩
  · rw [hp] at h
    cases h

/-- One that fails. -/
theorem openPath_failure {path : Option (Option (AttId → Value))} (h : (m.openPath path).1 = true) :
    (m.openPath path).2.link = m.link ∧ (m.openPath path).2.polls = m.polls := by
  unfold openPath at h ⊢
  rcases hp : m.core.openPath m.link path with ⟨_ | _, core, link⟩
  · rw [hp] at h
    cases h
  · exact ⟨Bank.openPath_failed hp, rfl⟩

theorem setTriggerMode_agrees_iff (v : BitVec 8) : (m.setTriggerMode v).2.Agrees ↔
    (m.link.connected = true → m.link.accepts m.link.n = false → m.deviceMode = TRIGGER_MODE_NONE) := by
  cases hc : m.link.connected with
  | false =>
    exact iff_of_true (.of_closed (by rw [setTriggerMode_connected, hc])) fun h' => absurd h' Bool.false_ne_true
  | true =>
    have hc' : (m.setTriggerMode v).2.link.connected = true := (setTriggerMode_connected v).trans hc
    rw [agrees_iff, forall_prop_of_true hc', forall_prop_of_true rfl]
    cases ha : m.link.accepts m.link.n with
    | true =>
      refine iff_of_true ?_ fun h' => absurd h'.symm Bool.false_ne_true
      rw [setTriggerMode_accepted v hc ha, deviceMode, Bank.put_vals_self, Value.toNum_byte]
      exact AttOf.getValueUint8_set _ v
    | false =>
      obtain ⟨-, hl, hm⟩ := setTriggerMode_refused v hc ha
      rw [forall_prop_of_true rfl, hm, deviceMode, hl]
      exact eq_comm

theorem openPath_agrees {path : Option (Option (AttId → Value))} (h : m.Agrees)
    (hc : (Call.openPath path).StartsIdle) : (m.openPath path).2.Agrees := by
  unfold openPath
  rcases hp : m.core.openPath m.link path with ⟨_ | _, core, link⟩
  · obtain ⟨-, vals, rfl, rfl⟩ := Bank.openPath_link hp
    refine (setTriggerMode_agrees_iff _).mpr fun _ _ => ?_
    have hv : vals ATT_TRIGGER_MODE = .byte TRIGGER_MODE_NONE := hc
    exact (congrArg (Value.toNum · 1) hv).trans (Value.toNum_byte _)
  · have hl := Bank.openPath_failed hp
    subst hl
    exact agrees_iff.mpr h.mirror

theorem step_agrees_iff (c : Call) (h : m.Agrees) (hc : c.StartsIdle) :
    (m.step c).2.Agrees ↔ m.RefusedInNone c := by
  cases c with
  | openPath path => exact iff_of_true (openPath_agrees h hc) trivial
  | setTriggerMode v => exact setTriggerMode_agrees_iff v
  | close => exact iff_of_true (.of_closed (by rw [step, close_link])) trivial

end

/-- On a `Dmm` or a `Choppy` that starts closed, the attribute and the device
agree at every point of a sequence of calls exactly when every
`setTriggerMode` that an open device refuses finds it in
`TRIGGER_MODE_NONE`. -/
theorem mode_law_iff (m : Meter k Bank) (h : m.link.connected = false) (cs : List Call)
    (hc : ∀ c ∈ cs, c.StartsIdle) :
    (∀ pre, pre <+: cs → (Mealy.after step m pre).Agrees) ↔ Mealy.Along step RefusedInNone m cs :=
  Mealy.forall_after_iff (fun _ c hm hok => step_agrees_iff c hm hok) cs
    (agrees_iff.mpr fun h' => absurd h' (by rw [h]; decide)) hc

/-- A closed object of a fresh program, and a device that accepts as given. -/
def fresh (k : Kind) (accepts : ℕ → Bool) : Meter k Bank :=
  .new k .blank
    { Bank.holding fun _ => .byte 0 with connected := false, accepts } Attvalue.zeros Attvalue.length_zeros
    zeros length_zeros

/-- An `open`, with a device in `TRIGGER_MODE_NONE`. -/
def Call.openIdle : Call := .openPath (some (some fun _ => .byte TRIGGER_MODE_NONE))

/-- `TRIGGER_MODE_NONE` again, another mode, which is refused, and `close`. -/
def idleCalls : List Call :=
  [.openIdle, .setTriggerMode TRIGGER_MODE_NONE, .setTriggerMode TRIGGER_MODE_NORMAL, .close]

theorem mode_law_iff_none : Mealy.Along step RefusedInNone (fresh .dmm (· != 7)) idleCalls ∧
    ∀ pre, pre <+: idleCalls → (Mealy.after step (fresh .dmm (· != 7)) pre).Agrees := by
  have hc : ∀ c ∈ idleCalls, c.StartsIdle := by
    simp [idleCalls, Call.openIdle, Call.StartsIdle]
  have ha : Mealy.Along step RefusedInNone (fresh .dmm (· != 7)) idleCalls := by decide
  exact ⟨ha, (mode_law_iff (fresh .dmm (· != 7)) rfl idleCalls hc).mpr ha⟩

/-- A device that streams refuses another mode, and streams on. -/
theorem refused_mode_disagrees : ¬ ∀ (m : Meter .dmm Bank) (cs : List Call), m.link.connected = false →
    (∀ c ∈ cs, c.StartsIdle) → ∀ pre, pre <+: cs → (Mealy.after step m pre).Agrees := by
  intro h
  have hl := h (fresh .dmm (· != 6)) [.openIdle, .setTriggerMode TRIGGER_MODE_NORMAL] rfl
    (by simp [Call.openIdle, Call.StartsIdle]) _ (List.prefix_refl _)
  exact absurd (hl.mirror (by decide)) (by decide)

end Meter

end ToolbitSdk
