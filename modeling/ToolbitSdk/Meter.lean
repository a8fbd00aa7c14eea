/-
# Meters: Dmm and Choppy

`dmm.cpp` and `choppy.cpp`, which differ in the names of the product, the
interval of the samples and the default integrating time (`Kind`). A meter
accumulates the voltage and current samples of the interrupt packets and
stores their average when a window is as long as the integrating time; the
getters poll a flag and take the average under the mutex.

The arithmetic on samples is exact, over the rationals, and NaN is `none`;
how the 4 bytes of a float are read (`dec`) is left open.
-/
import ToolbitSdk.Transaction
import Mathlib.Data.Rat.Defs

namespace ToolbitSdk

open Bytes TbiService

def ATT_TRIGGER_MODE : AttId := 0x8000
def ATT_VOLTAGE : AttId := 0x8101
def ATT_CURRENT : AttId := 0x8102

def TRIGGER_MODE_NONE : BitVec 8 := 0x00
def TRIGGER_MODE_NORMAL : BitVec 8 := 0x01
def TRIGGER_MODE_CONTINUOUS : BitVec 8 := 0x02

def DATA_BUF_SIZE_MAX : ℕ := 1000

def DMM_MEASUREMENT_INTERVAL_MS : ℕ := 5
def DMM_DEFAULT_INTEGRATING_TIME_MS : ℕ := 20
def CHOPPY_MEASUREMENT_INTERVAL_MS : ℕ := 1
def CHOPPY_DEFAULT_INTEGRATING_TIME_MS : ℕ := 16

/-- What the two meters have of their own. -/
structure Kind where
  interval : ℕ
  defaultTime : ℕ
  pos : 0 < interval
  default_ok : interval ≤ defaultTime ∧ defaultTime ≤ DATA_BUF_SIZE_MAX

def Kind.dmm : Kind := ⟨DMM_MEASUREMENT_INTERVAL_MS, DMM_DEFAULT_INTEGRATING_TIME_MS, by decide, by decide⟩

def Kind.choppy : Kind :=
  ⟨CHOPPY_MEASUREMENT_INTERVAL_MS, CHOPPY_DEFAULT_INTEGRATING_TIME_MS, by decide, by decide⟩

inductive Quantity
  | volt
  | curr
  deriving DecidableEq

instance (P : Quantity → Prop) [DecidablePred P] : Decidable (∀ q, P q) :=
  decidable_of_iff (P .volt ∧ P .curr)
    ⟨fun h q => match q with
      | .volt => h.1
      | .curr => h.2, fun h => ⟨h .volt, h .curr⟩⟩

/-- The data of one quantity: `volt_buf`, `volt_avg`, `volt_latest` and
`volt_updated`, and the same for `curr`. -/
structure Channel where
  buf : List ℚ
  avg : ℚ
  latest : Option ℚ
  updated : Bool
  size : buf.length = DATA_BUF_SIZE_MAX

namespace Channel

/-- As constructed, the buffer on memory that holds `junk`. -/
def new (junk : List ℚ) (h : junk.length = DATA_BUF_SIZE_MAX) : Channel := ⟨junk, 0, none, false, h⟩

/-- Sample `i` of the window. -/
def add (c : Channel) (i : ℕ) (x : ℚ) : Channel :=
  { c with buf := c.buf.set i x, avg := c.avg + x, size := by rw [List.length_set, c.size] }

/-- Store the average of `n` samples and start over. -/
def publish (c : Channel) (n : ℕ) : Channel := { c with avg := 0, latest := some (c.avg / n), updated := true }

/-- A malformed packet. -/
def spoil (c : Channel) : Channel := { c with latest := none }

/-- What a getter does under the mutex. -/
def take (c : Channel) : Option ℚ × Channel := (c.latest, { c with updated := false })

end Channel

/-- `Dmm` and `Choppy`. The integrating time is always one that
`setIntegratingTime` accepts. -/
structure Meter (k : Kind) (σ : Type*) where
  core : TbiCore
  link : σ
  mAttTriggerMode : AttOf ATT_TRIGGER_MODE
  mAttVoltage : AttOf ATT_VOLTAGE
  mAttCurrent : AttOf ATT_CURRENT
  integratingTime : ℕ
  time_ok : k.interval ≤ integratingTime ∧ integratingTime ≤ DATA_BUF_SIZE_MAX
  data_cnt : ℕ
  volt : Channel
  curr : Channel

namespace Meter

variable {k : Kind} {σ π : Type*} [Link σ π]

/-- `Dmm::Dmm` and `Choppy::Choppy`, the attributes and the buffers on memory
that holds `junk` and `bufs`. -/
def new (k : Kind) (core : TbiCore) (link : σ) (junk : List Byte) (h : junk.length = VALUE_LEN + 1)
    (bufs : Quantity → List ℚ) (hb : ∀ q, (bufs q).length = DATA_BUF_SIZE_MAX) : Meter k σ where
  core
  link
  mAttTriggerMode := .new junk h _
  mAttVoltage := .new junk h _
  mAttCurrent := .new junk h _
  integratingTime := k.defaultTime
  time_ok := k.default_ok
  data_cnt := 0
  volt := .new (bufs .volt) (hb _)
  curr := .new (bufs .curr) (hb _)

/-- Buffers where nothing was written. -/
def zeros (_ : Quantity) : List ℚ := List.replicate DATA_BUF_SIZE_MAX 0

theorem length_zeros (q : Quantity) : (zeros q).length = DATA_BUF_SIZE_MAX := List.length_replicate

def channel (m : Meter k σ) : Quantity → Channel
  | .volt => m.volt
  | .curr => m.curr

/-! ### Trigger mode, open and close -/

/-- The literal `TRIGGER_MODE_NONE` of the error path is an `int`. -/
def setTriggerMode (m : Meter k σ) (val : BitVec 8) : Bool × Meter k σ :=
  let att := m.mAttTriggerMode.set (·.setValueUint8 val)
  let (err, link) := writeAttribute m.link att.att
  if err then (true, { m with link, mAttTriggerMode := att.set (·.setValueInt32 (TRIGGER_MODE_NONE.setWidth 32)) })
  else (false, { m with link, mAttTriggerMode := att })

/-- `open`; the two overloads differ in how they find the path. The result of
`setTriggerMode` is ignored. -/
def openPath (m : Meter k σ) (path : Option π) : Bool × Meter k σ :=
  match m.core.openPath m.link path with
  | (true, core, link) => (true, { m with core, link })
  | (false, core, link) => (false, (({ m with core, link } : Meter k σ).setTriggerMode TRIGGER_MODE_CONTINUOUS).2)

def close (m : Meter k σ) : Bool × Meter k σ :=
  let m := if m.mAttTriggerMode.getValueUint8 = TRIGGER_MODE_CONTINUOUS then
    (m.setTriggerMode TRIGGER_MODE_NONE).2 else m
  let (err, link) := TbiCore.close m.link
  (err, { m with link })

def setIntegratingTime (m : Meter k σ) (ms : BitVec 16) : Bool × Meter k σ :=
  if h : ms.toNat < k.interval ∨ DATA_BUF_SIZE_MAX < ms.toNat then (true, m)
  else (false, { m with integratingTime := ms.toNat, time_ok := by omega })

/-! ### Getters -/

/-- The test `getVoltage` and `getCurrent` begin with: whether they wait for
an average (`Channel.take`) or read the attribute. -/
def polls (m : Meter k σ) : Bool := m.mAttTriggerMode.getValueUint8 == TRIGGER_MODE_CONTINUOUS

/-- `getVoltage` and `getCurrent` when they do not wait. -/
def readNow (dec : BitVec 32 → ℚ) (m : Meter k σ) : Quantity → Option ℚ × Meter k σ
  | .volt =>
    let (err, mAttVoltage, link) := m.mAttVoltage.read m.link
    (if err then none else some (dec mAttVoltage.getValueFloat), { m with link, mAttVoltage })
  | .curr =>
    let (err, mAttCurrent, link) := m.mAttCurrent.read m.link
    (if err then none else some (dec mAttCurrent.getValueFloat), { m with link, mAttCurrent })

/-! ### interruptHandler -/

/-- The 4 bytes of a packet at an offset, as `volt` and `curr` take them. -/
def floatAt (dat : List Byte) (i : ℕ) : BitVec 32 := leWord 32 ((dat.drop i).take 4)

/-- The declared payload has 32 bytes. -/
def wellFormed (pckt : TbiPacket) : Bool := ((byteAt pckt.dat 0 &&& 0x3F).toNat : ℤ) - 2 == 32

/-- The samples of a packet, voltage and current. -/
def samplesOf (pckt : TbiPacket) : List (BitVec 32 × BitVec 32) :=
  (List.range 4).map fun i => (floatAt pckt.dat (8 * i + 2), floatAt pckt.dat (8 * i + 6))

/-- Take a sample into the window. -/
def add (m : Meter k σ) (vol cur : ℚ) : Meter k σ :=
  { m with volt := m.volt.add m.data_cnt vol, curr := m.curr.add m.data_cnt cur, data_cnt := m.data_cnt + 1 }

/-- Store the averages of the window and start over. -/
def publish (m : Meter k σ) : Meter k σ :=
  { m with volt := m.volt.publish m.data_cnt, curr := m.curr.publish m.data_cnt, data_cnt := 0 }

/-- The body of the loop. -/
def sample (m : Meter k σ) (vol cur : ℚ) : Meter k σ :=
  let m := m.add vol cur
  if k.interval * m.data_cnt ≥ m.integratingTime then m.publish else m

/-- `interruptHandler`, run without another thread in between. -/
def interruptHandler (dec : BitVec 32 → ℚ) (m : Meter k σ) (pckt : TbiPacket) : Meter k σ :=
  if wellFormed pckt then (samplesOf pckt).foldl (fun m s => m.sample (dec s.1) (dec s.2)) m
  else { m with volt := m.volt.spoil, curr := m.curr.spoil }

end Meter

/-! ### The two meters -/

abbrev Dmm (σ : Type*) := Meter .dmm σ

abbrev Choppy (σ : Type*) := Meter .choppy σ

section

variable {σ π : Type*} [Link σ π]

namespace Dmm

def openPath (m : Dmm σ) (path : Option π) : Bool × Dmm σ := Meter.openPath m path
def close (m : Dmm σ) : Bool × Dmm σ := Meter.close m
def setTriggerMode (m : Dmm σ) (val : BitVec 8) : Bool × Dmm σ := Meter.setTriggerMode m val
def setIntegratingTime (m : Dmm σ) (ms : BitVec 16) : Bool × Dmm σ := Meter.setIntegratingTime m ms
def interruptHandler (dec : BitVec 32 → ℚ) (m : Dmm σ) (pckt : TbiPacket) : Dmm σ :=
  Meter.interruptHandler dec m pckt

end Dmm

namespace Choppy

def openPath (m : Choppy σ) (path : Option π) : Bool × Choppy σ := Meter.openPath m path
def close (m : Choppy σ) : Bool × Choppy σ := Meter.close m
def setTriggerMode (m : Choppy σ) (val : BitVec 8) : Bool × Choppy σ := Meter.setTriggerMode m val
def setIntegratingTime (m : Choppy σ) (ms : BitVec 16) : Bool × Choppy σ :=
  Meter.setIntegratingTime m ms
def interruptHandler (dec : BitVec 32 → ℚ) (m : Choppy σ) (pckt : TbiPacket) : Choppy σ :=
  Meter.interruptHandler dec m pckt

end Choppy

end

end ToolbitSdk
