/-
# A meter while it measures

The client's calls on a meter and the interrupt handler of the worker, as
one step function. The handler's loop takes a step for each sample, which is
the granularity at which the client's calls come between; storing an average
and taking it are under the mutex, so each is one step. `close` joins the
worker, so it has no step while the handler is in a packet.

The averages are the means of the windows that the samples of the packets
are cut into where the integrating time is first reached
(`Measuring.partitioned`): the time in force is the last that a call of
`setIntegratingTime` was told is accepted, whatever the meter keeps of it.
-/
import ToolbitSdk.Lib.Lts
import ToolbitSdk.Lib.Windows
import ToolbitSdk.Meter
import Mathlib.Algebra.BigOperators.Group.List.Basic

namespace ToolbitSdk

open Bytes TbiService

/-- Where the client's call stands: `getVoltage` and `getCurrent` poll, with
`cnt` sleeps left, and then take the average. -/
inductive Client
  | idle
  | poll (q : Quantity) (cnt : ℕ)
  | take (q : Quantity)
  deriving DecidableEq

/-- Where the interrupt handler stands: at the samples left of a packet, or
between the two stores of a malformed one. -/
inductive Handler
  | loop (todo : List (BitVec 32 × BitVec 32))
  | curr
  deriving DecidableEq

/-- A sample as it was processed. -/
structure Taken where
  volt : BitVec 32
  curr : BitVec 32
  /-- the integrating time in force -/
  time : ℕ
  /-- the session its packet came in -/
  session : ℕ

/-- What a getter that polled has returned. -/
structure Returned where
  q : Quantity
  value : Option ℚ
  /-- the window published last -/
  block : Option (List Taken)
  session : ℕ
  /-- the device was open -/
  opened : Bool

structure Measuring (k : Kind) where
  meter : Meter k Bank
  client : Client
  handler : Handler
  /-- history: how often an `open` has succeeded -/
  session : ℕ
  /-- history: the session of the packet in hand -/
  arrived : ℕ
  /-- history: the integrating times that were accepted -/
  times : List ℕ
  /-- history: the interrupt packets -/
  packets : List TbiPacket
  /-- history: the samples processed -/
  taken : List Taken
  /-- history: the windows published -/
  blocks : List (List Taken)
  /-- history: the samples since the last of them -/
  window : List Taken
  /-- history: the averages stored in `volt_latest` and `curr_latest` -/
  stored : List (Option ℚ × Option ℚ)
  returned : List Returned

/-- An action, of the client or of the worker. -/
inductive MeterAct
  | openPath (path : Option (Option (AttId → Value)))
  | close
  | setTriggerMode (val : BitVec 8)
  | setIntegratingTime (ms : BitVec 16)
  | get (q : Quantity)
  | client
  | packet (pckt : TbiPacket)
  | handler

namespace Meter

variable {k : Kind} {σ : Type*}

/-- `m` with a channel changed. -/
def onChannel (m : Meter k σ) (f : Channel → Channel) : Quantity → Meter k σ
  | .volt => { m with volt := f m.volt }
  | .curr => { m with curr := f m.curr }

end Meter

namespace Measuring

variable {k : Kind} (dec : BitVec 32 → ℚ)

/-! ### The steps -/

/-- The integrating time in force when those of `times` were accepted. -/
def inForce (k : Kind) (times : List ℕ) : ℕ := times.getLast?.getD k.defaultTime

/-- A getter that polled returns `value`. -/
def ret (s : Measuring k) (q : Quantity) (value : Option ℚ) : Measuring k :=
  { s with
    client := .idle
    returned := s.returned ++ [⟨q, value, s.blocks.getLast?, s.session, s.meter.link.connected⟩] }

def doOpenPath (s : Measuring k) (path : Option (Option (AttId → Value))) : Measuring k :=
  let r := s.meter.openPath path
  { s with meter := r.2, session := if r.1 then s.session else s.session + 1 }

def doSetIntegratingTime (s : Measuring k) (ms : BitVec 16) : Measuring k :=
  let r := s.meter.setIntegratingTime ms
  { s with meter := r.2, times := if r.1 then s.times else s.times ++ [ms.toNat] }

def doGet (s : Measuring k) (q : Quantity) : Measuring k :=
  if s.meter.polls then { s with client := .poll q 10 } else { s with meter := (s.meter.readNow dec q).2 }

/-- `while (!updated && cnt != 0)`, and the test after it. -/
def doPoll (s : Measuring k) (q : Quantity) (cnt : ℕ) : Measuring k :=
  if ¬ (s.meter.channel q).updated ∧ cnt ≠ 0 then { s with client := .poll q (cnt - 1) }
  else if cnt = 0 then s.ret q none
  else { s with client := .take q }

def doTake (s : Measuring k) (q : Quantity) : Measuring k :=
  { s with meter := s.meter.onChannel (fun c => c.take.2) q }.ret q (s.meter.channel q).take.1

def doPacket (s : Measuring k) (pckt : TbiPacket) : Measuring k :=
  let s := { s with packets := s.packets ++ [pckt], arrived := s.session }
  if Meter.wellFormed pckt then { s with handler := .loop (Meter.samplesOf pckt) }
  else { s with handler := .curr, meter := s.meter.onChannel Channel.spoil .volt }

/-- One sample. It has stored averages when it leaves no sample counted. -/
def doSample (s : Measuring k) (x : BitVec 32 × BitVec 32) (todo : List (BitVec 32 × BitVec 32)) :
    Measuring k :=
  let m := s.meter.sample (dec x.1) (dec x.2)
  let t : Taken := ⟨x.1, x.2, inForce k s.times, s.arrived⟩
  let s := { s with meter := m, handler := .loop todo, taken := s.taken ++ [t] }
  if m.data_cnt = 0 then
    { s with blocks := s.blocks ++ [s.window ++ [t]], window := [],
             stored := s.stored ++ [(m.volt.latest, m.curr.latest)] }
  else { s with window := s.window ++ [t] }

def step (s : Measuring k) : MeterAct → Option (Measuring k)
  | .openPath path => if s.client = .idle then some (s.doOpenPath path) else none
  | .close =>
    if s.client = .idle ∧ (s.meter.link.connected → s.handler = .loop []) then
      some { s with meter := s.meter.close.2 } else none
  | .setTriggerMode val =>
    if s.client = .idle then some { s with meter := (s.meter.setTriggerMode val).2 } else none
  | .setIntegratingTime ms =>
    if s.client = .idle then some (s.doSetIntegratingTime ms) else none
  | .get q => if s.client = .idle then some (s.doGet dec q) else none
  | .client =>
    match s.client with
    | .idle => none
    | .poll q cnt => some (s.doPoll q cnt)
    | .take q => some (s.doTake q)
  | .packet pckt =>
    if s.meter.link.connected ∧ s.handler = .loop [] then some (s.doPacket pckt) else none
  | .handler =>
    match s.handler with
    | .loop [] => none
    | .loop (x :: todo) => some (s.doSample dec x todo)
    | .curr => some { s with handler := .loop [], meter := s.meter.onChannel Channel.spoil .curr }

end Measuring

/-! ### What a method does to the samples -/

namespace Meter

variable {k : Kind} {σ π : Type*} [Link σ π]

/-- The sums and the count are as they were; an average may be gone. -/
structure Keeps (m m' : Meter k σ) : Prop where
  data_cnt : m'.data_cnt = m.data_cnt
  avg : ∀ q, (m'.channel q).avg = (m.channel q).avg
  buf : ∀ q, (m'.channel q).buf = (m.channel q).buf
  latest : ∀ q v, (m'.channel q).latest = some v → (m.channel q).latest = some v

/-- Nothing of the samples is touched. -/
structure SameData (m m' : Meter k σ) : Prop where
  data_cnt : m'.data_cnt = m.data_cnt
  channel : ∀ q, m'.channel q = m.channel q

theorem SameData.of_eq {m m' : Meter k σ} (hd : m'.data_cnt = m.data_cnt) (hv : m'.volt = m.volt)
    (hc : m'.curr = m.curr) : m.SameData m' where
  data_cnt := hd
  channel q := by
    cases q with
    | volt => exact hv
    | curr => exact hc

theorem SameData.keeps {m m' : Meter k σ} (h : m.SameData m') : m.Keeps m' :=
  ⟨h.data_cnt, fun q => by rw [h.channel], fun q => by rw [h.channel], fun q v hl => by rwa [h.channel] at hl⟩

theorem setTriggerMode_data (m : Meter k σ) (v : BitVec 8) : m.SameData (m.setTriggerMode v).2 := by
  rw [setTriggerMode]
  split
  split <;> exact .of_eq rfl rfl rfl

theorem openPath_data (m : Meter k σ) (path : Option π) : m.SameData (m.openPath path).2 := by
  unfold openPath
  split
  · exact .of_eq rfl rfl rfl
  · rename_i core link _
    have h := setTriggerMode_data ({ m with core, link } : Meter k σ) TRIGGER_MODE_CONTINUOUS
    exact ⟨h.data_cnt, h.channel⟩

theorem close_data (m : Meter k σ) : m.SameData m.close.2 := by
  unfold close
  split
  · have h := setTriggerMode_data m TRIGGER_MODE_NONE
    exact ⟨h.data_cnt, h.channel⟩
  · exact .of_eq rfl rfl rfl

theorem setIntegratingTime_data (m : Meter k σ) (ms : BitVec 16) :
    m.SameData (m.setIntegratingTime ms).2 := by
  unfold setIntegratingTime
  split <;> exact .of_eq rfl rfl rfl

/-- A time that is accepted is stored. -/
theorem setIntegratingTime_time (m : Meter k σ) (ms : BitVec 16) :
    (m.setIntegratingTime ms).2.integratingTime =
    if (m.setIntegratingTime ms).1 then m.integratingTime else ms.toNat := by
  unfold setIntegratingTime
  split <;> rfl

theorem setTriggerMode_time (m : Meter k σ) (v : BitVec 8) :
    (m.setTriggerMode v).2.integratingTime = m.integratingTime := by
  rw [setTriggerMode]
  split
  split <;> rfl

theorem openPath_time (m : Meter k σ) (path : Option π) :
    (m.openPath path).2.integratingTime = m.integratingTime := by
  unfold openPath
  split
  · rfl
  · exact setTriggerMode_time _ _

theorem close_time (m : Meter k σ) : m.close.2.integratingTime = m.integratingTime := by
  unfold close
  split
  · exact setTriggerMode_time _ _
  · rfl

theorem readNow_time (dec : BitVec 32 → ℚ) (m : Meter k σ) (q : Quantity) :
    (m.readNow dec q).2.integratingTime = m.integratingTime := by
  cases q <;> rfl

theorem onChannel_time (m : Meter k σ) (f : Channel → Channel) (q : Quantity) :
    (m.onChannel f q).integratingTime = m.integratingTime := by
  cases q <;> rfl

theorem readNow_data (dec : BitVec 32 → ℚ) (m : Meter k σ) (q : Quantity) :
    m.SameData (m.readNow dec q).2 := by
  cases q <;> exact .of_eq rfl rfl rfl

theorem onChannel_link (m : Meter k σ) (f : Channel → Channel) (q : Quantity) :
    (m.onChannel f q).link = m.link := by
  cases q <;> rfl

theorem channel_onChannel (m : Meter k σ) (f : Channel → Channel) (q q' : Quantity) :
    (m.onChannel f q).channel q' = if q' = q then f (m.channel q') else m.channel q' := by
  cases q <;> cases q' <;> rfl

/-- The window is as long as the integrating time with one sample more. -/
def fills (m : Meter k σ) : Prop := m.integratingTime ≤ k.interval * (m.data_cnt + 1)

theorem sample_of_fills {m : Meter k σ} (h : m.fills) (vol cur : ℚ) :
    m.sample vol cur = (m.add vol cur).publish :=
  if_pos h

theorem sample_of_not_fills {m : Meter k σ} (h : ¬ m.fills) (vol cur : ℚ) :
    m.sample vol cur = m.add vol cur :=
  if_neg h

theorem channel_add (m : Meter k σ) (x : Quantity → ℚ) (q : Quantity) :
    (m.add (x .volt) (x .curr)).channel q = (m.channel q).add m.data_cnt (x q) := by
  cases q <;> rfl

theorem channel_publish (m : Meter k σ) (q : Quantity) :
    m.publish.channel q = (m.channel q).publish m.data_cnt := by
  cases q <;> rfl

/-- A sample leaves none counted when it fills the window, and only then. -/
theorem data_cnt_sample (m : Meter k σ) (vol cur : ℚ) :
    (m.sample vol cur).data_cnt = 0 ↔ m.fills := by
  by_cases h : m.fills
  · rw [sample_of_fills h]
    exact iff_of_true rfl h
  · rw [sample_of_not_fills h]
    exact iff_of_false (Nat.succ_ne_zero _) h

/-- A window that is not filled leaves room in the buffers. -/
theorem lt_max_of_not_fills {m : Meter k σ} (h : ¬ m.fills) :
    m.data_cnt + 1 < DATA_BUF_SIZE_MAX := by
  have ht := m.time_ok.2
  have hi := Nat.le_mul_of_pos_left (m.data_cnt + 1) k.pos
  unfold fills at h
  omega

/-- A channel changed in its flag or robbed of its average. -/
theorem keeps_onChannel (m : Meter k σ) {f : Channel → Channel} (ha : ∀ c, (f c).avg = c.avg)
    (hb : ∀ c, (f c).buf = c.buf) (hl : ∀ c v, (f c).latest = some v → c.latest = some v) (q : Quantity) :
    m.Keeps (m.onChannel f q) where
  data_cnt := by cases q <;> rfl
  avg q' := by
    rw [channel_onChannel]
    split
    · exact ha _
    · rfl
  buf q' := by
    rw [channel_onChannel]
    split
    · exact hb _
    · rfl
  latest q' v hv := by
    rw [channel_onChannel] at hv
    split at hv
    · exact hl _ v hv
    · exact hv

/-- What a getter does to its channel. -/
theorem keeps_take (m : Meter k σ) (q : Quantity) : m.Keeps (m.onChannel (fun c => c.take.2) q) :=
  m.keeps_onChannel (f := fun c => c.take.2) (fun _ => rfl) (fun _ => rfl) (fun _ _ hv => hv) q

/-- It clears the flag of that channel, and leaves the other as it is. -/
theorem updated_take (m : Meter k σ) (q : Quantity) :
    ((m.onChannel (fun c => c.take.2) q).channel q).updated = false := by
  rw [channel_onChannel, if_pos rfl]
  rfl

theorem channel_take_of_ne (m : Meter k σ) {q q' : Quantity} (hne : q' ≠ q) :
    (m.onChannel (fun c => c.take.2) q).channel q' = m.channel q' := by
  rw [channel_onChannel, if_neg hne]

/-- A flag that is set after it was set before it, and is the other one's. -/
theorem of_updated_take {m : Meter k σ} {q q' : Quantity}
    (hu : ((m.onChannel (fun c => c.take.2) q).channel q').updated = true) :
    q' ≠ q ∧ (m.channel q').updated = true := by
  have hne : q' ≠ q := by
    rintro rfl
    rw [updated_take] at hu
    cases hu
  rw [channel_take_of_ne m hne] at hu
  exact ⟨hne, hu⟩

theorem keeps_spoil (m : Meter k σ) (q : Quantity) : m.Keeps (m.onChannel Channel.spoil q) :=
  m.keeps_onChannel (f := Channel.spoil) (fun _ => rfl) (fun _ => rfl) (fun _ _ hv => nomatch hv) q

theorem updated_spoil (m : Meter k σ) (q q' : Quantity) :
    ((m.onChannel Channel.spoil q).channel q').updated = (m.channel q').updated := by
  rw [channel_onChannel]
  split <;> rfl

end Meter

/-! ### Every step -/

namespace Measuring

variable {k : Kind} {dec : BitVec 32 → ℚ}

/-- The sample as it is about to be taken. -/
def nextTaken (s : Measuring k) (x : BitVec 32 × BitVec 32) : Taken :=
  ⟨x.1, x.2, inForce k s.times, s.arrived⟩

/-- The packet has come. -/
def received (s : Measuring k) (pckt : TbiPacket) : Measuring k :=
  { s with packets := s.packets ++ [pckt], arrived := s.session }

/-- What a step can do, with its guard. -/
inductive Steps (dec : BitVec 32 → ℚ) (s : Measuring k) : MeterAct → Measuring k → Prop
  | openPath {path : Option (Option (AttId → Value))} (hc : s.client = .idle) :
      Steps dec s (.openPath path) (s.doOpenPath path)
  | close (hc : s.client = .idle) (hj : s.meter.link.connected = true → s.handler = .loop []) :
      Steps dec s .close { s with meter := s.meter.close.2 }
  | setTriggerMode {v : BitVec 8} (hc : s.client = .idle) :
      Steps dec s (.setTriggerMode v) { s with meter := (s.meter.setTriggerMode v).2 }
  | setIntegratingTime {ms : BitVec 16} (hc : s.client = .idle) :
      Steps dec s (.setIntegratingTime ms) (s.doSetIntegratingTime ms)
  | poll {q : Quantity} (hc : s.client = .idle) (hp : s.meter.polls = true) :
      Steps dec s (.get q) { s with client := .poll q 10 }
  | readNow {q : Quantity} (hc : s.client = .idle) (hp : s.meter.polls = false) :
      Steps dec s (.get q) { s with meter := (s.meter.readNow dec q).2 }
  | wait {q : Quantity} {cnt : ℕ} (hc : s.client = .poll q (cnt + 1))
      (hu : (s.meter.channel q).updated = false) : Steps dec s .client { s with client := .poll q cnt }
  | timeout {q : Quantity} (hc : s.client = .poll q 0) : Steps dec s .client (s.ret q none)
  | see {q : Quantity} {cnt : ℕ} (hc : s.client = .poll q (cnt + 1))
      (hu : (s.meter.channel q).updated = true) : Steps dec s .client { s with client := .take q }
  | take {q : Quantity} (hc : s.client = .take q) : Steps dec s .client (s.doTake q)
  | packet {pckt : TbiPacket} (ho : s.meter.link.connected = true) (hl : s.handler = .loop [])
      (hw : Meter.wellFormed pckt = true) :
      Steps dec s (.packet pckt) { s.received pckt with handler := .loop (Meter.samplesOf pckt) }
  | malformed {pckt : TbiPacket} (ho : s.meter.link.connected = true) (hl : s.handler = .loop [])
      (hw : Meter.wellFormed pckt = false) :
      Steps dec s (.packet pckt)
        { s.received pckt with handler := .curr, meter := s.meter.onChannel Channel.spoil .volt }
  | sample {x : BitVec 32 × BitVec 32} {todo : List (BitVec 32 × BitVec 32)}
      (hl : s.handler = .loop (x :: todo)) (hf : ¬ s.meter.fills) :
      Steps dec s .handler { s with
        meter := s.meter.add (dec x.1) (dec x.2), handler := .loop todo,
        taken := s.taken ++ [s.nextTaken x], window := s.window ++ [s.nextTaken x] }
  | publish {x : BitVec 32 × BitVec 32} {todo : List (BitVec 32 × BitVec 32)}
      (hl : s.handler = .loop (x :: todo)) (hf : s.meter.fills) :
      Steps dec s .handler { s with
        meter := (s.meter.add (dec x.1) (dec x.2)).publish, handler := .loop todo,
        taken := s.taken ++ [s.nextTaken x], blocks := s.blocks ++ [s.window ++ [s.nextTaken x]], window := [],
        stored := s.stored ++ [((s.meter.add (dec x.1) (dec x.2)).publish.volt.latest,
          (s.meter.add (dec x.1) (dec x.2)).publish.curr.latest)] }
  | spoilCurr (hl : s.handler = .curr) :
      Steps dec s .handler { s with handler := .loop [], meter := s.meter.onChannel Channel.spoil .curr }

theorem steps_poll {s : Measuring k} {q : Quantity} {cnt : ℕ} (hc : s.client = .poll q cnt) :
    Steps dec s .client (s.doPoll q cnt) := by
  unfold doPoll
  cases cnt with
  | zero =>
    rw [if_neg (fun h => h.2 rfl), if_pos rfl]
    exact .timeout hc
  | succ cnt =>
    cases hu : (s.meter.channel q).updated with
    | false =>
      rw [if_pos ⟨Bool.false_ne_true, Nat.succ_ne_zero cnt⟩]
      exact .wait hc hu
    | true =>
      rw [if_neg (fun h => h.1 rfl), if_neg (Nat.succ_ne_zero cnt)]
      exact .see hc hu

theorem steps_sample {s : Measuring k} {x : BitVec 32 × BitVec 32} {todo : List (BitVec 32 × BitVec 32)}
    (hl : s.handler = .loop (x :: todo)) : Steps dec s .handler (s.doSample dec x todo) := by
  by_cases hf : s.meter.fills
  · rw [doSample, if_pos ((Meter.data_cnt_sample _ _ _).mpr hf), Meter.sample_of_fills hf]
    exact .publish hl hf
  · rw [doSample, if_neg (hf ∘ (Meter.data_cnt_sample _ _ _).mp), Meter.sample_of_not_fills hf]
    exact .sample hl hf

theorem steps_of_step {s s' : Measuring k} {a : MeterAct} (h : s.step dec a = some s') :
    Steps dec s a s' := by
  cases a with
  | client =>
    simp only [step] at h
    split at h
    · cases h
    · cases h
      exact steps_poll ‹_›
    · cases h
      exact .take ‹_›
  | handler =>
    simp only [step] at h
    split at h
    · cases h
    · cases h
      exact steps_sample ‹_›
    · cases h
      exact .spoilCurr ‹_›
  | openPath path =>
    simp only [step, Option.ite_none_right_eq_some, Option.some.injEq] at h
    obtain ⟨hc, rfl⟩ := h
    exact .openPath hc
  | close =>
    simp only [step, Option.ite_none_right_eq_some, Option.some.injEq] at h
    obtain ⟨⟨hc, hj⟩, rfl⟩ := h
    exact .close hc hj
  | setTriggerMode v =>
    simp only [step, Option.ite_none_right_eq_some, Option.some.injEq] at h
    obtain ⟨hc, rfl⟩ := h
    exact .setTriggerMode hc
  | setIntegratingTime ms =>
    simp only [step, Option.ite_none_right_eq_some, Option.some.injEq] at h
    obtain ⟨hc, rfl⟩ := h
    exact .setIntegratingTime hc
  | get q =>
    simp only [step, Option.ite_none_right_eq_some, Option.some.injEq] at h
    obtain ⟨hc, rfl⟩ := h
    unfold doGet
    split
    · exact .poll hc ‹_›
    · rename_i hp
      exact .readNow hc (Bool.eq_false_iff.mpr hp)
  | packet pckt =>
    simp only [step, Option.ite_none_right_eq_some, Option.some.injEq] at h
    obtain ⟨⟨ho, hl⟩, rfl⟩ := h
    unfold doPacket
    split
    · exact .packet ho hl ‹_›
    · rename_i hw
      exact .malformed ho hl (Bool.eq_false_iff.mpr hw)

end Measuring

/-! ### The windows -/

namespace Taken

/-- The sample of one quantity. -/
def val (dec : BitVec 32 → ℚ) : Quantity → Taken → ℚ
  | .volt, t => dec t.volt
  | .curr, t => dec t.curr

def raw (t : Taken) : BitVec 32 × BitVec 32 := (t.volt, t.curr)

end Taken

namespace Handler

/-- The samples the handler has not processed yet. -/
def todo : Handler → List (BitVec 32 × BitVec 32)
  | .loop l => l
  | .curr => []

end Handler

namespace Measuring

variable {k : Kind} {dec : BitVec 32 → ℚ}

theorem inForce_concat (times : List ℕ) (t : ℕ) : inForce k (times ++ [t]) = t := by
  rw [inForce, List.getLast?_concat, Option.getD_some]

/-- The integrating time in force at the last sample has been reached. -/
def Full (k : Kind) (w : List Taken) : Prop := ∃ t, w.getLast? = some t ∧ t.time ≤ k.interval * w.length

theorem full_concat (w : List Taken) (t : Taken) :
    Full k (w ++ [t]) ↔ t.time ≤ k.interval * (w.length + 1) := by
  simp [Full]

def mean (dec : BitVec 32 → ℚ) (q : Quantity) (w : List Taken) : ℚ :=
  (w.map (Taken.val dec q)).sum / w.length

/-- The samples a packet brings: those of a well-formed one. -/
def streamOf (pckt : TbiPacket) : List (BitVec 32 × BitVec 32) :=
  if Meter.wellFormed pckt then Meter.samplesOf pckt else []

/-- The windows partition the samples. -/
structure Partitioned (dec : BitVec 32 → ℚ) (s : Measuring k) : Prop where
  /-- no sample of the packets is dropped or taken twice -/
  stream : s.taken.map Taken.raw ++ s.handler.todo = s.packets.flatMap streamOf
  /-- the published windows and the unfinished one are the cut of the samples
  where the integrating time is first reached -/
  cut : Windows.Cut (Full k) s.taken s.blocks s.window
  /-- what was stored are the windows' means, voltage and current -/
  stored : s.stored = s.blocks.map fun w => (some (mean dec .volt w), some (mean dec .curr w))
  /-- an average that can be read is that of the last window published -/
  latest : ∀ q v, (s.meter.channel q).latest = some v → ∃ w, s.blocks.getLast? = some w ∧ v = mean dec q w
  /-- the meter's integrating time is the last that was accepted -/
  time : s.meter.integratingTime = inForce k s.times
  /-- the count, the sums and the buffers are those of the unfinished window -/
  count : s.meter.data_cnt = s.window.length
  avg : ∀ q, (s.meter.channel q).avg = (s.window.map (Taken.val dec q)).sum
  buf : ∀ q, (s.meter.channel q).buf.take s.meter.data_cnt = s.window.map (Taken.val dec q)
  room : s.meter.data_cnt < DATA_BUF_SIZE_MAX

/-- A step that keeps the sums keeps the partition. -/
theorem Partitioned.keeps {s : Measuring k} (h : Partitioned dec s) {m : Meter k Bank} (hm : s.meter.Keeps m)
    {times : List ℕ} (ht : m.integratingTime = inForce k times) (client : Client) (session : ℕ)
    (returned : List Returned) : Partitioned dec { s with meter := m, times, client, session, returned } where
  stream := h.stream
  cut := h.cut
  stored := h.stored
  latest q v hl := h.latest q v (hm.latest q v hl)
  time := ht
  count := hm.data_cnt.trans h.count
  avg q := (hm.avg q).trans (h.avg q)
  buf q := by rw [hm.data_cnt, hm.buf]; exact h.buf q
  room := hm.data_cnt.trans_lt h.room

/-- The time of an accepted call is in force from then on. -/
theorem Partitioned.accepts {s : Measuring k} (h : Partitioned dec s) (ms : BitVec 16) :
    Partitioned dec (s.doSetIntegratingTime ms) := by
  refine h.keeps (s.meter.setIntegratingTime_data ms).keeps ?_ s.client s.session s.returned
  rw [Meter.setIntegratingTime_time]
  split
  · exact h.time
  · exact (inForce_concat s.times ms.toNat).symm

theorem take_set_succ {β : Type*} {l : List β} {i : ℕ} (h : i < l.length) (x : β) :
    (l.set i x).take (i + 1) = l.take i ++ [x] := by
  rw [List.take_add_one, List.take_set_of_le (le_refl i), List.getElem?_set_self h]
  rfl

section

variable {s : Measuring k} {x : BitVec 32 × BitVec 32} {todo : List (BitVec 32 × BitVec 32)}

/-- The channel of the window with the sample. -/
theorem add_channel (q : Quantity) : (s.meter.add (dec x.1) (dec x.2)).channel q =
    (s.meter.channel q).add s.meter.data_cnt (Taken.val dec q (s.nextTaken x)) :=
  s.meter.channel_add (fun q => Taken.val dec q (s.nextTaken x)) q

/-- The sum of the window with the sample. -/
theorem Partitioned.avg_concat (h : Partitioned dec s) (q : Quantity) :
    ((s.meter.channel q).add s.meter.data_cnt (Taken.val dec q (s.nextTaken x))).avg =
      ((s.window ++ [s.nextTaken x]).map (Taken.val dec q)).sum :=
  calc ((s.meter.channel q).add s.meter.data_cnt (Taken.val dec q (s.nextTaken x))).avg
      = (s.meter.channel q).avg + Taken.val dec q (s.nextTaken x) := rfl
    _ = (s.window.map (Taken.val dec q)).sum + Taken.val dec q (s.nextTaken x) := by rw [h.avg q]
    _ = ((s.window ++ [s.nextTaken x]).map (Taken.val dec q)).sum := by
      rw [List.map_append, List.sum_append, List.map_singleton, List.sum_singleton]

theorem Partitioned.stream_concat (h : Partitioned dec s) (hl : s.handler = .loop (x :: todo)) :
    (s.taken ++ [s.nextTaken x]).map Taken.raw ++ todo = s.packets.flatMap streamOf :=
  calc (s.taken ++ [s.nextTaken x]).map Taken.raw ++ todo
      = s.taken.map Taken.raw ++ x :: todo := by
        rw [List.map_append, List.append_assoc]
        rfl
    _ = s.taken.map Taken.raw ++ s.handler.todo := by rw [hl, Handler.todo]
    _ = s.packets.flatMap streamOf := h.stream

theorem Partitioned.stream_received (h : Partitioned dec s) (hl : s.handler = .loop []) (pckt : TbiPacket) :
    s.taken.map Taken.raw ++ streamOf pckt = (s.received pckt).packets.flatMap streamOf := by
  rw [received, List.flatMap_append, List.flatMap_singleton, ← h.stream, hl, Handler.todo, List.append_nil]

theorem Partitioned.full_iff (h : Partitioned dec s) :
    Full k (s.window ++ [s.nextTaken x]) ↔ s.meter.fills := by
  have htime : (s.nextTaken x).time = s.meter.integratingTime := h.time.symm
  rw [full_concat, htime, ← h.count]
  rfl

/-- The average stored is the mean of the window with the sample. -/
theorem Partitioned.latest_publish (h : Partitioned dec s) (q : Quantity) :
    ((s.meter.add (dec x.1) (dec x.2)).publish.channel q).latest =
      some (mean dec q (s.window ++ [s.nextTaken x])) := by
  have hlen : (s.window ++ [s.nextTaken x]).length = s.meter.data_cnt + 1 := by
    rw [List.length_append, List.length_singleton, h.count]
  rw [Meter.channel_publish, add_channel]
  calc some (((s.meter.channel q).add s.meter.data_cnt (Taken.val dec q (s.nextTaken x))).avg /
        ((s.meter.data_cnt + 1 : ℕ) : ℚ))
      = some (((s.window ++ [s.nextTaken x]).map (Taken.val dec q)).sum / (s.window ++ [s.nextTaken x]).length) := by
        rw [h.avg_concat q, hlen]
    _ = some (mean dec q (s.window ++ [s.nextTaken x])) := rfl

end

/-- A step keeps the partition: only a sample moves it, and it either fills
the window or lengthens it. -/
theorem Partitioned.step {s s' : Measuring k} {a : MeterAct} (h : Partitioned dec s)
    (hs : Steps dec s a s') : Partitioned dec s' := by
  have same : s.meter.Keeps s.meter := (Meter.SameData.of_eq rfl rfl rfl).keeps
  have time {m : Meter k Bank} (ht : m.integratingTime = s.meter.integratingTime) :
      m.integratingTime = inForce k s.times := ht.trans h.time
  cases hs with
  | @openPath path => exact h.keeps (s.meter.openPath_data path).keeps (time (s.meter.openPath_time path)) _ _ _
  | close => exact h.keeps s.meter.close_data.keeps (time s.meter.close_time) _ _ _
  | @setTriggerMode v =>
    exact h.keeps (s.meter.setTriggerMode_data v).keeps (time (s.meter.setTriggerMode_time v)) _ _ _
  | @setIntegratingTime ms => exact h.accepts ms
  | @readNow q => exact h.keeps (s.meter.readNow_data dec q).keeps (time (s.meter.readNow_time dec q)) _ _ _
  | poll | wait | timeout | see => exact h.keeps same h.time _ _ _
  | take => exact h.keeps (s.meter.keeps_take _) (time (s.meter.onChannel_time _ _)) _ _ _
  | @packet pckt _ hl hw =>
    refine { h with stream := ?_ }
    rw [← h.stream_received hl pckt, streamOf, if_pos hw]
    rfl
  | @malformed pckt _ hl hw =>
    have hk := h.keeps (s.meter.keeps_spoil .volt) (time (s.meter.onChannel_time _ _)) s.client s.session s.returned
    refine { hk with stream := ?_ }
    rw [← h.stream_received hl pckt, streamOf, hw]
    rfl
  | spoilCurr hl =>
    have hk := h.keeps (s.meter.keeps_spoil .curr) (time (s.meter.onChannel_time _ _)) s.client s.session s.returned
    refine { hk with stream := ?_ }
    rw [← h.stream, hl]
    rfl
  | @sample x todo hl hf =>
    exact {
      stream := h.stream_concat hl
      cut := h.cut.snoc_open (hf ∘ h.full_iff.mp)
      stored := h.stored
      latest := fun q v hv => h.latest q v (by rw [add_channel] at hv; exact hv)
      time := h.time
      count := by rw [List.length_append, ← h.count]; rfl
      avg := fun q => by rw [add_channel]; exact h.avg_concat q
      buf := fun q => by
        rw [add_channel, List.map_append, ← h.buf q]
        exact take_set_succ (h.room.trans_eq (s.meter.channel q).size.symm) _
      room := Meter.lt_max_of_not_fills hf }
  | @publish x todo hl hf =>
    exact {
      stream := h.stream_concat hl
      cut := h.cut.snoc_full (h.full_iff.mpr hf)
      stored := by
        rw [h.stored, List.map_append, List.map_singleton, ← h.latest_publish .volt, ← h.latest_publish .curr]
        rfl
      latest := fun q v hv =>
        ⟨_, List.getLast?_concat, (Option.some.inj ((h.latest_publish q).symm.trans hv)).symm⟩
      time := h.time
      count := rfl
      avg := fun q => by rw [Meter.channel_publish]; rfl
      buf := fun q => rfl
      room := (by decide : 0 < DATA_BUF_SIZE_MAX) }

/-- The steps of the handler on the samples left, with none of the client's
in between, are the loop of `interruptHandler`. -/
theorem run_handler : ∀ (todo : List (BitVec 32 × BitVec 32)) {s : Measuring k}, s.handler = .loop todo →
    ∃ s', Lts.run (Measuring.step dec) s (List.replicate todo.length .handler) = some s' ∧ s'.handler = .loop [] ∧
      s'.meter = todo.foldl (fun m x => m.sample (dec x.1) (dec x.2)) s.meter
  | [], s, hl => ⟨s, rfl, hl, rfl⟩
  | x :: todo, s, hl => by
    have hs : s.step dec .handler = some (s.doSample dec x todo) := by rw [Measuring.step, hl]
    have hm : (s.doSample dec x todo).meter = s.meter.sample (dec x.1) (dec x.2) := by
      simp only [doSample]
      split <;> rfl
    have hh : (s.doSample dec x todo).handler = .loop todo := by
      simp only [doSample]
      split <;> rfl
    obtain ⟨s', hr, hl', hm'⟩ := run_handler todo hh
    refine ⟨s', ?_, hl', ?_⟩
    · rw [List.length_cons, List.replicate_succ, Lts.run, hs]
      exact hr
    · rw [hm', hm, List.foldl_cons]

/-- Before the first call on a constructed object. -/
def start (m : Meter k Bank) : Measuring k where
  meter := m
  client := .idle
  handler := .loop []
  session := 0
  arrived := 0
  times := []
  packets := []
  taken := []
  blocks := []
  window := []
  stored := []
  returned := []

/-- A meter as constructed, its handle closed. -/
def new (k : Kind) (core : TbiCore) (link : Bank) (junk : List Byte) (h : junk.length = VALUE_LEN + 1)
    (bufs : Quantity → List ℚ) (hb : ∀ q, (bufs q).length = DATA_BUF_SIZE_MAX) : Measuring k :=
  start (.new k core { link with connected := false } junk h bufs hb)

/-- No step is ruled out. -/
def Any (_ : Measuring k) (_ : MeterAct) : Prop := True

theorem partitioned_new (core : TbiCore) (link : Bank) {junk : List Byte} (h : junk.length = VALUE_LEN + 1)
    {bufs : Quantity → List ℚ} (hb : ∀ q, (bufs q).length = DATA_BUF_SIZE_MAX) :
    Partitioned dec (new k core link junk h bufs hb) where
  stream := rfl
  cut := .nil
  stored := rfl
  latest q v hv := by cases q <;> cases hv
  time := rfl
  count := rfl
  avg q := by cases q <;> rfl
  buf q := rfl
  room := (by decide : 0 < DATA_BUF_SIZE_MAX)

/-- On a `Dmm` or a `Choppy`, the windows partition the samples in every state
of every run from a constructed object. -/
theorem partitioned (core : TbiCore) (link : Bank) {junk : List Byte} (h : junk.length = VALUE_LEN + 1)
    {bufs : Quantity → List ℚ} (hb : ∀ q, (bufs q).length = DATA_BUF_SIZE_MAX) {s : Measuring k}
    (hr : Lts.Reach (step dec) Any (new k core link junk h bufs hb) s) : Partitioned dec s :=
  hr.inv (partitioned_new core link h hb) fun _ _ _ hp _ hs => hp.step (steps_of_step hs)

instance (s : Measuring k) : DecidablePred s.Any := fun _ => .isTrue trivial

/-- An object of a fresh program, and a device that accepts everything. -/
def fresh (k : Kind) : Measuring k :=
  .new k .blank (.holding fun _ => .byte TRIGGER_MODE_NONE)
    Attvalue.zeros Attvalue.length_zeros Meter.zeros Meter.length_zeros

/-- A packet of four samples. -/
def fourSamples : TbiPacket := ⟨0x22 :: 0xA0 :: List.replicate 63 0x40, by decide⟩

/-- An `open`, with a device in `TRIGGER_MODE_NONE`. -/
def openIdle : MeterAct := .openPath (some (some fun _ => .byte TRIGGER_MODE_NONE))

/-- The integrating time is lowered inside a window; 0 ms are refused. -/
def loweredInside : List MeterAct :=
  [openIdle, .packet fourSamples, .handler, .setIntegratingTime 10, .handler, .setIntegratingTime 0, .handler, .handler]

theorem partitioned_window : ∃ s : Measuring .dmm, (s.times = [10] ∧ s.blocks.map List.length = [2, 2]) ∧
    Partitioned (fun w => w.toNat) s := by
  obtain ⟨s, hr, hp⟩ := Lts.exists_reach_of_run (step fun w => w.toNat) Any (fresh .dmm) loweredInside
    (fun s => s.times == [10] && s.blocks.map List.length == [2, 2]) (by decide)
  exact ⟨s, by simpa using hp, partitioned _ _ Attvalue.length_zeros Meter.length_zeros hr⟩

end Measuring

end ToolbitSdk
