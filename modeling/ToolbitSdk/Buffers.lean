/-
# The handler stays inside its buffers

`interruptHandler` with every access to `volt_buf`, `curr_buf` and the packet
checked, and the count and the divisor too: where one of them would go wrong
the checked step has no result. It has one wherever the handler's own step
has (`Measuring.run_checked`), whatever the packets hold and whenever
`setIntegratingTime` changes the limit under the handler.

That the count is below `integratingTime` divided by the interval is not
invariant, since the time may be lowered below it. That it is below
`DATA_BUF_SIZE_MAX` is (`Partitioned.room`), because the limit that a sample
is compared with is never above `DATA_BUF_SIZE_MAX` milliseconds and a sample
takes at least one.
-/
import ToolbitSdk.Measuring

namespace ToolbitSdk

open Bytes

/-! ### The checked operations -/

namespace Channel

/-- `buf[i] = x`, inside the buffer. -/
def addChecked (c : Channel) (i : ℕ) (x : ℚ) : Option Channel :=
  if i < c.buf.length then some (c.add i x) else none

/-- The average, divided by a number of samples that a buffer can hold. -/
def publishChecked (c : Channel) (n : ℕ) : Option Channel :=
  if 1 ≤ n ∧ n ≤ DATA_BUF_SIZE_MAX then some (c.publish n) else none

end Channel

namespace Meter

variable {k : Kind} {σ : Type}

/-- The body of the loop; `data_cnt++` must not wrap. -/
def sampleChecked (m : Meter k σ) (vol cur : ℚ) : Option (Meter k σ) := do
  let volt ← m.volt.addChecked m.data_cnt vol
  let curr ← m.curr.addChecked m.data_cnt cur
  let data_cnt ← if m.data_cnt + 1 < 2 ^ 16 then some (m.data_cnt + 1) else none
  if k.interval * data_cnt ≥ m.integratingTime then
    let volt ← volt.publishChecked data_cnt
    let curr ← curr.publishChecked data_cnt
    some { m with volt, curr, data_cnt := 0 }
  else some { m with volt, curr, data_cnt }

/-- The 4 bytes at an offset, inside the packet. -/
def floatAtChecked (dat : List Byte) (i : ℕ) : Option (BitVec 32) :=
  if i + 4 ≤ dat.length then some (floatAt dat i) else none

def samplesChecked (pckt : TbiPacket) : Option (List (BitVec 32 × BitVec 32)) :=
  (List.range 4).mapM fun i => do
    let vol ← floatAtChecked pckt.dat (8 * i + 2)
    let cur ← floatAtChecked pckt.dat (8 * i + 6)
    some (vol, cur)

/-- With room in the buffers no check of a sample fails. -/
theorem sampleChecked_eq {m : Meter k σ} (h : m.data_cnt < DATA_BUF_SIZE_MAX) (vol cur : ℚ) :
    m.sampleChecked vol cur = some (m.sample vol cur) := by
  have hmax : DATA_BUF_SIZE_MAX = 1000 := rfl
  have hvolt : m.volt.addChecked m.data_cnt vol = some (m.volt.add m.data_cnt vol) :=
    if_pos (by rw [m.volt.size]; exact h)
  have hcurr : m.curr.addChecked m.data_cnt cur = some (m.curr.add m.data_cnt cur) :=
    if_pos (by rw [m.curr.size]; exact h)
  have hpub : ∀ c : Channel, c.publishChecked (m.data_cnt + 1) = some (c.publish (m.data_cnt + 1)) :=
    fun c => if_pos (by omega)
  have hwrap : m.data_cnt + 1 < 2 ^ 16 := by omega
  by_cases hf : m.fills
  · have hf' : k.interval * (m.data_cnt + 1) ≥ m.integratingTime := hf
    rw [sample_of_fills hf]
    simp only [sampleChecked, hvolt, hcurr, hwrap, hf', hpub, ↓reduceIte, Option.bind_eq_bind, Option.bind_some]
    rfl
  · have hf' : ¬ k.interval * (m.data_cnt + 1) ≥ m.integratingTime := hf
    rw [sample_of_not_fills hf]
    simp only [sampleChecked, hvolt, hcurr, hwrap, hf', ↓reduceIte, Option.bind_eq_bind, Option.bind_some]
    rfl

/-- The four samples are inside every packet. -/
theorem samplesChecked_eq (pckt : TbiPacket) : samplesChecked pckt = some (samplesOf pckt) := by
  have hsz : pckt.dat.length = 65 := pckt.size
  have float : ∀ i, i + 4 ≤ 65 → floatAtChecked pckt.dat i = some (floatAt pckt.dat i) := fun i hi =>
    if_pos (by omega)
  have hr : List.range 4 = [0, 1, 2, 3] := rfl
  simp [samplesChecked, samplesOf, hr, float]

end Meter

namespace Measuring

variable {k : Kind} (dec : BitVec 32 → ℚ)

/-- The step, where it is the handler's with every access checked. -/
def stepChecked (s : Measuring k) : MeterAct → Option (Measuring k)
  | .packet pckt => if Meter.wellFormed pckt then
      (Meter.samplesChecked pckt).bind fun _ => s.step dec (.packet pckt) else s.step dec (.packet pckt)
  | .handler => match s.handler with
    | .loop (x :: _) => (s.meter.sampleChecked (dec x.1) (dec x.2)).bind fun _ => s.step dec .handler
    | _ => s.step dec .handler
  | a => s.step dec a

variable {dec}

/-- In every state with room the checked step is the step. -/
theorem stepChecked_eq {s : Measuring k} (h : s.meter.data_cnt < DATA_BUF_SIZE_MAX) (a : MeterAct) :
    s.stepChecked dec a = s.step dec a := by
  cases a with
  | packet pckt =>
    rw [stepChecked, Meter.samplesChecked_eq]
    split <;> rfl
  | handler =>
    simp only [stepChecked]
    split
    · rw [Meter.sampleChecked_eq h, Option.bind_some]
    · rfl
  | _ => rfl

/-- **No access outside a buffer, no wrap, no division by zero.** On a `Dmm`
or a `Choppy`, over every sequence of packets, samples and calls, among them
`setIntegratingTime` at any point, the checked handler does what the handler
does. -/
theorem run_checked (core : TbiCore) (link : Bank) {junk : List Byte} (h : junk.length = VALUE_LEN + 1)
    {bufs : Quantity → List ℚ} (hb : ∀ q, (bufs q).length = DATA_BUF_SIZE_MAX) (as : List MeterAct) :
    Lts.run (stepChecked dec) (new k core link junk h bufs hb) as =
      Lts.run (step dec) (new k core link junk h bufs hb) as :=
  Lts.run_eq_of_inv (I := Partitioned dec) (fun _ _ _ hp hs => hp.step (steps_of_step hs))
    (fun _ a hp => stepChecked_eq hp.room a) as (partitioned_new core link h hb)

/-- The integrating time is lowered below the samples already counted. -/
def loweredRun : List MeterAct :=
  [openIdle, .setIntegratingTime 1000, .packet fourSamples, .handler, .handler, .handler, .setIntegratingTime 1,
    .handler]

theorem run_checked_lowered : (Lts.run (stepChecked fun w => w.toNat) (fresh .choppy) loweredRun).any
    (fun s => s.blocks.length == 1) = true := by
  rw [fresh, run_checked _ _ Attvalue.length_zeros Meter.length_zeros]
  decide

end Measuring

end ToolbitSdk
