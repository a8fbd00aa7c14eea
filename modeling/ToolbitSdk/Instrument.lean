/-
# From the device to the averages

A meter on its service: the worker of `TbiService` calls the meter's
`interruptHandler` with each interrupt packet and goes on when it has
returned, and the client threads, the getters and the device take their
steps in between. What is measured is put together from what was shown of
the parts: the order of the reports in the service (`Sys.Flow`, `Copy`), and
the windows of the meter (`Measuring.Partitioned`).

Whatever is opened, closed and reopened, the samples that the handler has
taken and those on their way to it are samples the device has sent, in its
order and none twice; the others waited in a handle when it was closed
(`Instrument.measured`). What is on its way arrives when the worker is left
alone (`Instrument.catches_up`).
-/
import ToolbitSdk.Decoding
import ToolbitSdk.Measuring

namespace ToolbitSdk

open Bytes
open scoped List

/-! ### The samples of a report -/

/-- The samples a report brings by itself. -/
def Report.samples (r : Report) : List (BitVec 32 × BitVec 32) :=
  if route r.dat = .interrupt then Measuring.streamOf (TbiPacket.blank.receive r) else []

theorem whole_of_not_truncated {r : Report} (h : ¬ r.Truncated) : r.Whole :=
  .inl (not_lt.mp fun hlt => h (.inr (.inl hlt)))

/-- A packet that starts with the report is the packet it is read into. -/
theorem receive_of_prefix {r : Report} {p : TbiPacket} (h : r.dat <+: p.dat) : p.receive r = p := by
  obtain ⟨tail, ht⟩ := h
  have hdat : overlay r.dat p.dat = p.dat := by
    rw [← ht, overlay, List.drop_left]
  cases p
  simp only [TbiPacket.receive, hdat]

/-- What was read of a report has its samples. -/
theorem samples_of_copy {r : Report} (h : ¬ r.Truncated) {x : Received} (hc : Sys.Copy r x) :
    r.samples = if x.isInterrupt then Measuring.streamOf x.pckt else [] := by
  have hd : declared r.dat ≤ r.dat.length := not_lt.mp fun hlt => h (.inl hlt)
  have hx : x.isInterrupt = decide (route r.dat = .interrupt) := by rw [Received.isInterrupt, hc.2]
  rw [Report.samples, hx, ← receive_of_prefix hc.1]
  by_cases hr : route r.dat = .interrupt
  · rw [if_pos hr, if_pos (decide_eq_true hr), Measuring.streamOf, Measuring.streamOf]
    have hw : Meter.wellFormed (TbiPacket.blank.receive r) = Meter.wellFormed (x.pckt.receive r) := by
      rw [Bool.eq_iff_iff, wellFormed_iff, wellFormed_iff, declared_receive, declared_receive]
    rw [hw]
    by_cases hwf : Meter.wellFormed (x.pckt.receive r) = true
    · rw [if_pos hwf, if_pos hwf]
      rw [wellFormed_iff, declared_receive] at hwf
      exact samplesOf_receive _ _ (by omega)
    · rw [if_neg hwf, if_neg hwf]
  · rw [if_neg hr, decide_eq_false hr]
    rfl

/-- Of a run of reports, the samples are those of the interrupt packets. -/
theorem flatMap_samples_of_copy {rs : List Report} {xs : List Received} (h : List.Forall₂ Sys.Copy rs xs)
    (ht : ∀ r ∈ rs, ¬ r.Truncated) :
    rs.flatMap Report.samples = ((xs.filter (·.isInterrupt)).map (·.pckt)).flatMap Measuring.streamOf := by
  induction h with
  | nil => rfl
  | @cons r x rs xs hc _ ih =>
    rw [List.flatMap_cons, ih fun r hr => ht r (List.mem_cons_of_mem _ hr),
      samples_of_copy (ht r List.mem_cons_self) hc, List.filter_cons]
    split <;> rfl

namespace Sys

/-- The packet that the step passes to the interrupt handler. -/
def delivered (s : Sys) : Act → Option TbiPacket
  | .worker _ => match s.worker with
    | some (.dispatch _ _) => if route s.rcvp.dat = .interrupt ∧ s.interruptHandler = true then some s.rcvp else none
    | _ => none
  | _ => none

theorem delivered_of_ne {s : Sys} (h : ∀ n session, s.worker ≠ some (.dispatch n session)) (a : Act) :
    s.delivered a = none := by
  cases a with
  | worker got =>
    rw [delivered]
    split
    · exact absurd ‹_› (h _ _)
    · rfl
  | _ => rfl

theorem delivered_dispatch {s : Sys} {n session : ℕ} (h : s.worker = some (.dispatch n session)) (got : Bool) :
    s.delivered (.worker got) =
      if route s.rcvp.dat = .interrupt ∧ s.interruptHandler = true then some s.rcvp else none := by
  rw [delivered, h]

/-- Each packet passed is in the history, and no other. -/
theorem handled_step {s s' : Sys} {a : Act} (hs : Steps s a s') :
    s'.handled = s.handled ++ (s.delivered a).toList := by
  cases hs with
  | @dispatch got n session hw hr =>
    rw [delivered_dispatch hw]
    split
    · rfl
    · exact (List.append_nil _).symm
  | @enqueue got n session hw hr hq =>
    rw [delivered_dispatch hw, if_neg (by rw [hr]; exact fun h => absurd h.1 (by decide))]
    exact (List.append_nil _).symm
  | workerIsOpen hw | readNothing hw _ | read hw _ _ | workerThAbort hw =>
    rw [delivered_of_ne fun n session h => by rw [hw] at h; cases h]
    exact (List.append_nil _).symm
  | _ => exact (List.append_nil _).symm

/-! ### The order of the reports while handles come and go -/

/-- The reports sent are those read, those that wait, and those that waited in
a handle that was closed. -/
structure Traced (lost : List Report) (s : Sys) : Prop where
  intact : ∀ r ∈ s.emitted, ¬ r.Truncated
  trace : ∃ front, List.Forall₂ Copy front s.received ∧ front ++ s.tdev.input <+ s.emitted ∧
    front ++ s.tdev.input ++ lost ~ s.emitted

/-- A step that moves no report. -/
theorem Traced.of_eq {lost : List Report} {s s' : Sys} (h : Traced lost s) (h1 : s'.emitted = s.emitted)
    (h2 : s'.tdev.input = s.tdev.input) (h3 : s'.received = s.received) : Traced lost s' := by
  refine ⟨by rw [h1]; exact h.intact, ?_⟩
  rw [h1, h2, h3]
  exact h.trace

/-- The reports that a step loses. -/
def drops (s s' : Sys) : List Report := if s'.tdev.isOpen then [] else s.tdev.input

theorem drops_of_isOpen {s s' : Sys} (h : s'.tdev.isOpen = true) : s.drops s' = [] := if_pos h

theorem drops_of_eq {s s' : Sys} (h : s'.tdev = s.tdev) : s.drops s' = [] := by
  rw [drops, h]
  by_cases ho : s.tdev.isOpen = true
  · rw [if_pos ho]
  · rw [if_neg ho, TbiDevice.input, Option.not_isSome_iff_eq_none.mp ho]
    rfl

theorem traced_step {lost : List Report} {s s' : Sys} {a : Act} (hs : Steps s a s') (h : Traced lost s)
    (ha : ∀ r, a = .emit r → ¬ r.Truncated) : Traced (lost ++ s.drops s') s' := by
  obtain ⟨front, hc, hsub, hperm⟩ := h.trace
  cases hs with
  | @openDone c env rest hpc hh _ =>
    have hin : s.tdev.input = [] := by rw [TbiDevice.input, hh]; rfl
    rw [drops_of_isOpen rfl, List.append_nil]
    exact h.of_eq rfl hin.symm rfl
  | @closeDevice c env hpc =>
    refine ⟨h.intact, front, hc, ?_, ?_⟩
    · exact (List.append_nil front).symm ▸ (List.sublist_append_left _ _).trans hsub
    · -- what waited goes to the end of what was lost
      calc front ++ [] ++ (lost ++ s.tdev.input)
          ~ front ++ (s.tdev.input ++ lost) := by
            rw [List.append_nil]
            exact List.perm_append_comm.append_left front
        _ = front ++ s.tdev.input ++ lost := (List.append_assoc _ _ _).symm
        _ ~ s.emitted := hperm
  | @read got n r rs hw hg hh =>
    have hin : s.tdev.input = r :: rs := by rw [TbiDevice.input, hh]; rfl
    rw [hin] at hsub hperm
    have hr : r ∈ s.emitted := hsub.subset (List.mem_append_right _ List.mem_cons_self)
    have hmove : front ++ [r] ++ rs = front ++ r :: rs := List.append_assoc front [r] rs
    rw [drops_of_isOpen rfl, List.append_nil]
    refine ⟨h.intact, front ++ [r], ?_, ?_, ?_⟩
    · exact List.rel_append hc (.cons (copy_receive (whole_of_not_truncated (h.intact r hr)) _ _ _) .nil)
    · exact hmove.symm ▸ hsub
    · exact hmove.symm ▸ hperm
  | @emit r h' hh =>
    have hin : s.tdev.input = h'.input := by rw [TbiDevice.input, hh]; rfl
    rw [hin] at hsub hperm
    have hmove : front ++ (h'.input ++ [r]) = front ++ h'.input ++ [r] := (List.append_assoc _ _ _).symm
    rw [drops_of_isOpen rfl, List.append_nil]
    refine ⟨Lts.forall_mem_concat h.intact (ha r rfl), front, hc, ?_, ?_⟩
    · exact hmove.symm ▸ hsub.append (.refl [r])
    · calc front ++ (h'.input ++ [r]) ++ lost
          = front ++ h'.input ++ ([r] ++ lost) := by rw [hmove, List.append_assoc]
        _ ~ front ++ h'.input ++ (lost ++ [r]) := List.perm_append_comm.append_left _
        _ = front ++ h'.input ++ lost ++ [r] := (List.append_assoc _ _ _).symm
        _ ~ s.emitted ++ [r] := hperm.append_right [r]
  | _ =>
    rw [drops_of_eq (by rfl), List.append_nil]
    exact h.of_eq rfl rfl rfl

/-- The interrupt packet in the worker's hands. -/
def inHand (s : Sys) : List TbiPacket := (s.held.filter (·.isInterrupt)).map (·.pckt)

/-- The samples that the worker has passed on and those that come with what
it holds and what waits. -/
def stream (s : Sys) : List (BitVec 32 × BitVec 32) :=
  (s.handled ++ s.inHand).flatMap Measuring.streamOf ++ s.tdev.input.flatMap Report.samples

/-- They are samples that the device has sent. -/
theorem Traced.samples {lost : List Report} {s : Sys} (h : Traced lost s) (hf : Flow s)
    (hi : s.interruptHandler = true) : s.stream <+ s.emitted.flatMap Report.samples ∧
      s.stream ++ lost.flatMap Report.samples ~ s.emitted.flatMap Report.samples := by
  obtain ⟨front, hc, hsub, hperm⟩ := h.trace
  have hfront : ∀ r ∈ front, ¬ r.Truncated := fun r hr =>
    h.intact r (hsub.subset (List.mem_append_left _ hr))
  have hread : front.flatMap Report.samples = (s.handled ++ s.inHand).flatMap Measuring.streamOf := by
    rw [flatMap_samples_of_copy hc hfront, hf.interrupts hi]
    rfl
  rw [stream, ← hread, ← List.flatMap_append, ← List.flatMap_append]
  exact ⟨hsub.flatMap _, hperm.flatMap_right _⟩

/-! ### The worker on its way -/

theorem stream_of_eq {s s' : Sys} (h1 : s'.handled = s.handled) (h2 : s'.inHand = s.inHand)
    (h3 : s'.tdev.input = s.tdev.input) : s'.stream = s.stream := by
  rw [stream, stream, h1, h2, h3]

theorem inHand_dispatch {s : Sys} {n session : ℕ} (h : s.worker = some (.dispatch n session)) :
    s.inHand = if route s.rcvp.dat = .interrupt then [s.rcvp] else [] := by
  rw [inHand, held_dispatch h]
  by_cases hr : route s.rcvp.dat = .interrupt
  · simp [Received.isInterrupt, hr]
  · simp [Received.isInterrupt, hr]

theorem inHand_eq_nil {s : Sys} (h : ∀ n session, s.worker ≠ some (.dispatch n session)) :
    s.inHand = [] := by
  rw [inHand, held_eq_nil h]
  rfl

/-- The worker moves samples along, and neither adds nor loses any. -/
theorem stream_worker {s s' : Sys} {got : Bool} (hs : Steps s (.worker got) s') (hi : s.interruptHandler = true)
    (ht : ∀ r ∈ s.tdev.input, ¬ r.Truncated) : s'.stream = s.stream := by
  have idle {w : WorkerPc} (hw : s.worker = some w) (hne : ∀ n session, w ≠ .dispatch n session) : s.inHand = [] :=
    inHand_eq_nil fun n session h => hne n session (Option.some.inj (hw.symm.trans h))
  cases hs with
  | workerIsOpen hw =>
    refine stream_of_eq rfl ?_ rfl
    rw [idle hw (by simp)]
    exact inHand_eq_nil fun n session h => by
      split at h <;> cases h
  | readNothing hw hr =>
    refine stream_of_eq rfl ?_ rfl
    rw [idle hw (by simp)]
    exact inHand_eq_nil (by simp)
  | @read got n r rs hw hg hh =>
    have hin : s.tdev.input = r :: rs := by rw [TbiDevice.input, hh]; rfl
    have hr : ¬ r.Truncated := ht r (by rw [hin]; exact List.mem_cons_self)
    have hc := samples_of_copy hr (copy_receive (whole_of_not_truncated hr) s.rcvp s.received.length n)
    have hhand : (inHand { s with
        tdev := ⟨some ⟨n, rs⟩⟩, rcvp := s.rcvp.receive r, worker := some (.dispatch s.received.length n)
        received := s.received ++ [⟨s.rcvp.receive r, s.received.length, n⟩] }).flatMap Measuring.streamOf =
        r.samples := by
      rw [hc, inHand_dispatch rfl]
      by_cases hint : route (s.rcvp.receive r).dat = .interrupt
      · simp [Received.isInterrupt, hint]
      · simp [Received.isInterrupt, hint]
    rw [stream, stream, List.flatMap_append, hhand, idle hw (by simp), List.append_nil, hin, List.flatMap_cons,
      List.append_assoc]
    rfl
  | @dispatch got n session hw hr =>
    have hheld := inHand_dispatch hw
    rw [stream, stream, hheld]
    by_cases hint : route s.rcvp.dat = .interrupt
    · rw [if_pos hint, if_pos ⟨hint, hi⟩, inHand_eq_nil (by simp), List.append_nil]
    · rw [if_neg hint, if_neg (fun h => hint h.1), inHand_eq_nil (by simp)]
  | @enqueue got n session hw hr hq =>
    refine stream_of_eq rfl ?_ rfl
    rw [inHand_dispatch hw, if_neg (by rw [hr]; decide)]
    exact inHand_eq_nil (by simp)
  | workerThAbort hw =>
    refine stream_of_eq rfl ?_ rfl
    rw [idle hw (by simp)]
    exact inHand_eq_nil fun n session h => by
      simp only at h
      split at h <;> cases h

/-- The worker runs on an open handle, and there is room for the replies that
come to it. -/
structure Attended (s : Sys) : Prop where
  isOpen : s.tdev.isOpen = true
  running : s.thAbort = false
  worker : ∃ w, s.worker = some w ∧ w ≠ .returned
  room : s.resque.data.length + (s.held.filter (·.isReply)).length +
    (s.tdev.input.filter fun r => route r.dat = .reply).length ≤ s.resque.capacity

/-- It has a step, on an HID layer that gives it what waits, and comes nearer
to having read all. -/
theorem Attended.works {s : Sys} (h : Attended s) (ht : ∀ r ∈ s.tdev.input, r.Whole)
    (hb : s.tdev.input ≠ [] ∨ s.held ≠ []) :
    ∃ s', s.step (.worker true) = some s' ∧ Attended s' ∧ s'.backlog < s.backlog := by
  obtain ⟨w, hw, hne⟩ := h.worker
  have hroom := h.room
  cases w with
  | returned => exact absurd rfl hne
  | isOpen =>
    have hheld : s.held = [] := held_eq_nil (by simp [hw])
    refine ⟨{ s with worker := some .read }, by simp [step, workerStep, hw, h.isOpen], ?_, ?_⟩
    · exact ⟨h.isOpen, h.running, ⟨_, rfl, by decide⟩, by rwa [hheld] at hroom⟩
    · simp [backlog, hw]
  | thAbort =>
    have hheld : s.held = [] := held_eq_nil (by simp [hw])
    refine ⟨{ s with worker := some .isOpen }, by simp [step, workerStep, hw, h.running], ?_, ?_⟩
    · exact ⟨h.isOpen, h.running, ⟨_, rfl, by decide⟩, by rwa [hheld] at hroom⟩
    · simp [backlog, hw]
  | read =>
    have hheld : s.held = [] := held_eq_nil (by simp [hw])
    obtain ⟨⟨n, input⟩, hd⟩ := Option.isSome_iff_exists.mp h.isOpen
    have hin : s.tdev.input = input := by rw [TbiDevice.input, hd]; rfl
    rw [hin] at hroom ht hb
    cases input with
    | nil => exact absurd hb (by simp [hheld])
    | cons r rs =>
      have hstep : s.step (.worker true) = some (s.doRead true) := by simp only [step, workerStep, hw]
      have hread : s.tdev.read true = some (r, ⟨n, rs⟩) := by simp only [TbiDevice.read, hd]
      simp only [doRead, hread] at hstep
      have hroute := (copy_receive (ht r List.mem_cons_self) s.rcvp s.received.length n).2
      refine ⟨_, hstep, ⟨rfl, h.running, ⟨_, rfl, by simp⟩, ?_⟩, ?_⟩
      · -- a reply that is read was counted among those that wait
        rw [hheld, List.filter_nil, List.length_nil, List.filter_cons] at hroom
        have hrest : TbiDevice.input ⟨some ⟨n, rs⟩⟩ = rs := rfl
        rw [held_dispatch rfl, hrest, List.filter_cons, Received.isReply, hroute]
        by_cases hr : route r.dat = .reply
        · simp only [hr, decide_true, if_true, List.length_cons, List.filter_nil, List.length_nil] at hroom ⊢
          omega
        · simp only [hr, decide_false, Bool.false_eq_true, if_false, List.filter_nil, List.length_nil] at hroom ⊢
          exact hroom
      · simp only [backlog, hw, hin, List.length_cons]
        have hrest : TbiDevice.input ⟨some ⟨n, rs⟩⟩ = rs := rfl
        rw [hrest]
        omega
  | dispatch n session =>
    rw [held_dispatch hw, List.filter_cons, Received.isReply] at hroom
    by_cases hr : route s.rcvp.dat = .reply
    · simp only [hr, decide_true, if_true, List.length_cons, List.filter_nil, List.length_nil] at hroom
      have hfull : s.resque.data.length ≠ s.resque.capacity := by omega
      have hstep : s.step (.worker true) = some { s with
          worker := some .thAbort
          resque := { s.resque with data := s.resque.data ++ [⟨s.rcvp, n, session⟩] } } := by
        simp [step, workerStep, hw, doDispatch, hr, LockedQueue.enqueue, hfull]
      refine ⟨_, hstep, ⟨h.isOpen, h.running, ⟨_, rfl, by decide⟩, ?_⟩, by simp [backlog, hw]⟩
      rw [held_eq_nil (by simp)]
      simp only [List.length_append, List.length_singleton, List.filter_nil, List.length_nil]
      omega
    · simp only [hr, decide_false, Bool.false_eq_true, if_false, List.filter_nil, List.length_nil] at hroom
      obtain ⟨handled, hstep⟩ : ∃ handled, s.step (.worker true) =
          some { s with worker := some .thAbort, handled } := by
        cases hroute : route s.rcvp.dat with
        | reply => exact absurd hroute hr
        | _ => exact ⟨_, by simp only [step, workerStep, hw, doDispatch, hroute]; rfl⟩
      refine ⟨_, hstep, ⟨h.isOpen, h.running, ⟨_, rfl, by decide⟩, ?_⟩, by simp [backlog, hw]⟩
      rw [held_eq_nil (by simp)]
      exact hroom

end Sys

/-! ### What a packet does to the meter -/

namespace Measuring

variable {k : Kind} {dec : BitVec 32 → ℚ}

/-- Only a packet adds to the history of the packets. -/
theorem packets_step {s s' : Measuring k} {a : MeterAct} (hs : Steps dec s a s') (ha : ∀ pckt, a ≠ .packet pckt) :
    s'.packets = s.packets := by
  cases hs with
  | packet ho hl hw | malformed ho hl hw => exact absurd rfl (ha _)
  | _ => rfl

theorem packets_doPacket (s : Measuring k) (pckt : TbiPacket) :
    (s.doPacket pckt).packets = s.packets ++ [pckt] := by
  unfold doPacket
  split <;> rfl

/-- The partition does not depend on the device behind the meter. -/
theorem Partitioned.relink {s : Measuring k} (h : Partitioned dec s) (link : Bank) :
    Partitioned dec { s with meter := { s.meter with link } } := by
  have hm : s.meter.SameData { s.meter with link } := .of_eq rfl rfl rfl
  exact h.keeps hm.keeps h.time s.client s.session s.returned

/-- A packet that comes between two others keeps the partition. -/
theorem Partitioned.doPacket {s : Measuring k} (h : Partitioned dec s) (hl : s.handler = .loop [])
    (pckt : TbiPacket) : Partitioned dec (s.doPacket pckt) := by
  have hlinked := h.relink { s.meter.link with connected := true }
  have hs : ({ s with meter := { s.meter with link := { s.meter.link with connected := true } } } :
      Measuring k).step dec (.packet pckt) = some _ := if_pos ⟨rfl, hl⟩
  have hp := (hlinked.step (steps_of_step hs)).relink s.meter.link
  unfold Measuring.doPacket at hp ⊢
  split at hp
  · rw [if_pos ‹_›]
    exact hp
  · rw [if_neg ‹_›]
    exact hp

end Measuring

/-! ### The instrument -/

/-- A meter and the service it was constructed on. The values that the
meter's own calls find on their `Bank` are not tied to what the threads of the
service exchange with the device; nothing here depends on them. -/
structure Instrument (k : Kind) where
  svc : Sys
  meas : Measuring k
  /-- history: the reports that waited in a handle when it was closed -/
  lost : List Report

inductive InstrumentAct
  | service (a : Act)
  | meter (a : MeterAct)

namespace Instrument

variable {k : Kind}

/-- The worker is inside `interruptHandler`. -/
def busy (s : Instrument k) : Act → Bool
  | .worker _ => s.meas.handler ≠ .loop []
  | _ => false

def doService (s : Instrument k) (a : Act) : Option (Instrument k) :=
  if s.busy a then none
  else (s.svc.step a).map fun svc =>
    { svc
      meas := match s.svc.delivered a with
        | none => s.meas
        | some pckt => s.meas.doPacket pckt
      lost := s.lost ++ s.svc.drops svc }

/-- The packets of the meter come from the worker only. -/
def step (dec : BitVec 32 → ℚ) (s : Instrument k) : InstrumentAct → Option (Instrument k)
  | .service a => s.doService a
  | .meter (.packet _) => none
  | .meter a => (s.meas.step dec a).map fun meas => { s with meas }

/-- No report of the device is truncated. -/
def Intact (_ : Instrument k) : InstrumentAct → Prop
  | .service (.emit r) => ¬ r.Truncated
  | _ => True

instance (s : Instrument k) : DecidablePred s.Intact
  | .service (.emit r) => inferInstanceAs (Decidable (¬ r.Truncated))
  | .service (.call _ _) | .service (.thread _ _) | .service (.worker _) | .meter _ => .isTrue trivial

/-- A meter as constructed. -/
def new (k : Kind) (rcvp : TbiPacket) (core : TbiCore) (link : Bank) (junk : List Byte)
    (h : junk.length = VALUE_LEN + 1) (bufs : Quantity → List ℚ)
    (hb : ∀ q, (bufs q).length = DATA_BUF_SIZE_MAX) : Instrument k :=
  ⟨.new rcvp true, .new k core link junk h bufs hb, []⟩

variable {dec : BitVec 32 → ℚ}

/-- What holds of the service, of the meter, and between them. -/
structure Sound (dec : BitVec 32 → ℚ) (s : Instrument k) : Prop where
  flow : s.svc.Flow
  traced : s.svc.Traced s.lost
  handler : s.svc.interruptHandler = true
  /-- the meter has the packets that the worker has passed on -/
  packets : s.meas.packets = s.svc.handled
  parts : Measuring.Partitioned dec s.meas

theorem sound_new (rcvp : TbiPacket) (core : TbiCore) (link : Bank) {junk : List Byte}
    (h : junk.length = VALUE_LEN + 1) {bufs : Quantity → List ℚ}
    (hb : ∀ q, (bufs q).length = DATA_BUF_SIZE_MAX) : Sound dec (new k rcvp core link junk h bufs hb) where
  flow := ⟨rfl, fun _ => rfl⟩
  traced := ⟨fun _ hr => absurd hr List.not_mem_nil, [], .nil, .refl _, .refl _⟩
  handler := rfl
  packets := rfl
  parts := Measuring.partitioned_new core link h hb

theorem sound_service {s s' : Instrument k} {a : Act} (h : Sound dec s) (ha : s.Intact (.service a))
    (hs : s.doService a = some s') : Sound dec s' := by
  unfold doService at hs
  split at hs
  · cases hs
  rename_i hbusy
  obtain ⟨svc, hsvc, rfl⟩ := Option.map_eq_some_iff.mp hs
  have hst := Sys.steps_of_step hsvc
  have hflow := Sys.flow_step hst h.flow
  have htraced : svc.Traced (s.lost ++ s.svc.drops svc) :=
    Sys.traced_step hst h.traced fun r he => by rw [he] at ha; exact ha
  have hhandler := (Sys.interruptHandler_step hst).trans h.handler
  have hhandled := Sys.handled_step hst
  cases hd : s.svc.delivered a with
  | none =>
    rw [hd, Option.toList_none, List.append_nil] at hhandled
    exact ⟨hflow, htraced, hhandler, h.packets.trans hhandled.symm, h.parts⟩
  | some pckt =>
    have hidle : s.meas.handler = .loop [] := by
      cases a with
      | worker got => exact not_not.mp fun hne => hbusy (decide_eq_true hne)
      | _ => cases hd
    refine ⟨hflow, htraced, hhandler, ?_, h.parts.doPacket hidle pckt⟩
    rw [hhandled, hd, ← h.packets]
    exact s.meas.packets_doPacket pckt

theorem sound_step {s s' : Instrument k} {a : InstrumentAct} (h : Sound dec s) (ha : s.Intact a)
    (hs : s.step dec a = some s') : Sound dec s' := by
  cases a with
  | service a => exact sound_service h ha hs
  | meter a =>
    have hm : (∀ pckt, a ≠ .packet pckt) ∧ ∃ meas, s.meas.step dec a = some meas ∧ s' = { s with meas } := by
      cases a with
      | packet pckt => cases hs
      | _ =>
        obtain ⟨meas, hmeas, rfl⟩ := Option.map_eq_some_iff.mp hs
        exact ⟨(by rintro _ ⟨⟩), meas, hmeas, rfl⟩
    obtain ⟨hne, meas, hmeas, rfl⟩ := hm
    have hst := Measuring.steps_of_step hmeas
    exact ⟨h.flow, h.traced, h.handler, (Measuring.packets_step hst hne).trans h.packets, h.parts.step hst⟩

/-! ### The samples of the device and those of the averages -/

/-- The samples taken into windows. -/
def processed (s : Instrument k) : List (BitVec 32 × BitVec 32) := s.meas.taken.map Taken.raw

/-- The samples on their way: in the handler, in the worker's hands, in the
handle. -/
def pending (s : Instrument k) : List (BitVec 32 × BitVec 32) :=
  s.meas.handler.todo ++ (s.svc.inHand.flatMap Measuring.streamOf ++ s.svc.tdev.input.flatMap Report.samples)

theorem Sound.samples {s : Instrument k} (h : Sound dec s) :
    s.processed ++ s.pending = s.svc.stream := by
  rw [processed, pending, Sys.stream, ← List.append_assoc, ← List.append_assoc, h.parts.stream, h.packets,
    List.flatMap_append]

/-- **From the device to the averages.** In every state of every run from a
constructed meter, with any calls of the clients, the handles opened and
closed: the samples taken and those on their way are samples of the reports,
in order and each once, the others waited in a handle that was closed, and
what was stored are the means of the windows that those taken are cut into. -/
theorem measured (rcvp : TbiPacket) (core : TbiCore) (link : Bank) {junk : List Byte}
    (hj : junk.length = VALUE_LEN + 1) {bufs : Quantity → List ℚ}
    (hb : ∀ q, (bufs q).length = DATA_BUF_SIZE_MAX) {s : Instrument k}
    (hr : Lts.Reach (step dec) Intact (new k rcvp core link junk hj bufs hb) s) :
    s.processed ++ s.pending <+ s.svc.emitted.flatMap Report.samples ∧
      s.processed ++ s.pending ++ s.lost.flatMap Report.samples ~ s.svc.emitted.flatMap Report.samples ∧
      Windows.Cut (Measuring.Full k) s.meas.taken s.meas.blocks s.meas.window ∧
      s.meas.stored = s.meas.blocks.map fun w =>
        (some (Measuring.mean dec .volt w), some (Measuring.mean dec .curr w)) := by
  have hs : Sound dec s := hr.inv (sound_new rcvp core link hj hb) fun _ _ _ h ha hst => sound_step h ha hst
  obtain ⟨hsub, hperm⟩ := hs.traced.samples hs.flow hs.handler
  rw [hs.samples]
  exact ⟨hsub, hperm, hs.parts.cut, hs.parts.stored⟩

/-- A `Dmm` of a fresh program, its device opened and its worker running, to
which a report of four samples has come. -/
def oneReport : List InstrumentAct :=
  [.service (.call 0 (.openPath (some "dev") .blank)), .service (.thread 0 .good), .service (.thread 0 .good),
    .service (.thread 0 .good), .service (.emit ⟨Measuring.fourSamples.dat, by decide, by decide⟩)]

def fresh : Instrument .dmm :=
  new .dmm .blank .blank (.holding fun _ => .byte TRIGGER_MODE_NONE) Attvalue.zeros Attvalue.length_zeros
    Meter.zeros Meter.length_zeros

theorem measured_one : ∃ s : Instrument .dmm, s.meas.blocks.length = 1 ∧
    s.processed ++ s.pending <+ s.svc.emitted.flatMap Report.samples ∧
      s.processed ++ s.pending ++ s.lost.flatMap Report.samples ~ s.svc.emitted.flatMap Report.samples ∧
      Windows.Cut (Measuring.Full .dmm) s.meas.taken s.meas.blocks s.meas.window ∧
      s.meas.stored = s.meas.blocks.map fun w =>
        (some (Measuring.mean (fun w => w.toNat) .volt w), some (Measuring.mean (fun w => w.toNat) .curr w)) := by
  obtain ⟨s, hr, hp⟩ := Lts.exists_reach_of_run (step fun w => w.toNat) Intact fresh
    (oneReport ++ [.service (.worker true), .service (.worker true), .service (.worker true), .meter .handler,
      .meter .handler, .meter .handler, .meter .handler]) (fun s => s.meas.blocks.length == 1) (by decide)
  exact ⟨s, by simpa using hp, measured _ _ _ Attvalue.length_zeros Meter.length_zeros hr⟩

/-! ### The worker left alone -/

/-- A step of the worker, on an HID layer that gives it what waits. -/
def Alone (_ : Instrument k) (a : InstrumentAct) : Prop :=
  a = .service (.worker true) ∨ a = .meter .handler

/-- The steps `interruptHandler` has left. -/
def left : Handler → ℕ
  | .loop todo => todo.length
  | .curr => 1

theorem left_doPacket (m : Measuring k) (pckt : TbiPacket) :
    left (m.doPacket pckt).handler ≤ 4 := by
  unfold Measuring.doPacket
  split
  · simp [left, Meter.samplesOf]
  · simp [left]

/-- A packet counts as five steps of the worker, which is one more than it
brings samples. -/
def distance (s : Instrument k) : ℕ := 5 * s.svc.backlog + left s.meas.handler

/-- All that was on its way has arrived. -/
def Settled (s : Instrument k) : Prop := s.meas.handler = .loop [] ∧ s.svc.tdev.input = [] ∧ s.svc.held = []

theorem Settled.pending {s : Instrument k} (h : s.Settled) : s.pending = [] := by
  rw [Instrument.pending, h.1, h.2.1, Sys.inHand, h.2.2]
  rfl

/-- A step of `interruptHandler`. -/
theorem handler_step {s : Instrument k} (h : s.meas.handler ≠ .loop []) :
    ∃ meas, s.step dec (.meter .handler) = some { s with meas } ∧ left meas.handler < left s.meas.handler := by
  cases hl : s.meas.handler with
  | curr =>
    refine ⟨{ s.meas with handler := .loop [], meter := s.meas.meter.onChannel Channel.spoil .curr },
      ?_, Nat.one_pos⟩
    simp only [step, Measuring.step, hl]
    rfl
  | loop todo =>
    cases todo with
    | nil => exact absurd hl h
    | cons x todo =>
      have hh : (s.meas.doSample dec x todo).handler = .loop todo := by
        simp only [Measuring.doSample]
        split <;> rfl
      refine ⟨s.meas.doSample dec x todo, ?_, ?_⟩
      · simp only [step, Measuring.step, hl]
        rfl
      · rw [hh]
        exact Nat.lt_succ_self _

theorem exists_alone {s : Instrument k} (h : Sound dec s) (ha : s.svc.Attended) (hn : ¬ s.Settled) :
    ∃ a s', s.Alone a ∧ s.step dec a = some s' ∧ (s'.svc.Attended ∧ s'.svc.stream = s.svc.stream ∧
      s'.svc.emitted = s.svc.emitted ∧ s'.lost = s.lost) ∧ s'.distance < s.distance := by
  by_cases hidle : s.meas.handler = .loop []
  · have hb : s.svc.tdev.input ≠ [] ∨ s.svc.held ≠ [] := by
      by_contra hb
      rw [not_or, not_not, not_not] at hb
      exact hn ⟨hidle, hb⟩
    have hintact : ∀ r ∈ s.svc.tdev.input, ¬ r.Truncated := fun r hr => by
      obtain ⟨front, -, hsub, -⟩ := h.traced.trace
      exact h.traced.intact r (hsub.subset (List.mem_append_right _ hr))
    obtain ⟨svc, hsvc, ha', hlt⟩ := ha.works (fun r hr => whole_of_not_truncated (hintact r hr)) hb
    have hst := Sys.steps_of_step hsvc
    have hbusy : ¬ s.busy (.worker true) = true := by simp [busy, hidle]
    have hstep : s.step dec (.service (.worker true)) = (s.svc.step (.worker true)).map _ := if_neg hbusy
    rw [hsvc, Option.map_some] at hstep
    refine ⟨_, _, .inl rfl, hstep, ⟨ha', ?_, ?_, ?_⟩, ?_⟩
    · exact Sys.stream_worker hst h.handler hintact
    · exact Sys.emitted_step hst (by simp)
    · exact (congrArg _ (Sys.drops_of_isOpen ha'.isOpen)).trans (List.append_nil _)
    · have hleft : left (match s.svc.delivered (.worker true) with
          | none => s.meas
          | some pckt => s.meas.doPacket pckt).handler ≤ 4 := by
        split
        · rw [hidle]
          exact Nat.zero_le 4
        · exact left_doPacket _ _
      simp only [distance]
      omega
  · obtain ⟨meas, hstep, hlt⟩ : ∃ meas, s.step dec (.meter .handler) = some { s with meas } ∧
        left meas.handler < left s.meas.handler := handler_step hidle
    exact ⟨_, _, .inr rfl, hstep, ⟨ha, rfl, rfl, rfl⟩, Nat.add_lt_add_left hlt _⟩

/-- **What is on its way arrives.** From every state of every run in which the
worker runs on an open handle with room for the replies that come to it, the
worker alone takes every sample that was on its way, in order, and nothing
else; it has then taken all the samples of the device if no handle was closed
before they were read. -/
theorem catches_up (rcvp : TbiPacket) (core : TbiCore) (link : Bank) {junk : List Byte}
    (hj : junk.length = VALUE_LEN + 1) {bufs : Quantity → List ℚ}
    (hb : ∀ q, (bufs q).length = DATA_BUF_SIZE_MAX) {s : Instrument k}
    (hr : Lts.Reach (step dec) Intact (new k rcvp core link junk hj bufs hb) s) (ha : s.svc.Attended) :
    ∃ s', Lts.Reach (step dec) Alone s s' ∧ s'.pending = [] ∧ s'.processed = s.processed ++ s.pending ∧
      (s.lost = [] → s'.processed = s.svc.emitted.flatMap Report.samples) := by
  have hs : Sound dec s := hr.inv (sound_new rcvp core link hj hb) fun _ _ _ h hi hst => sound_step h hi hst
  have hex : ∃ s', Lts.Reach (step dec) Alone s s' ∧ (Sound dec s' ∧ s'.svc.Attended ∧
      s'.svc.stream = s.svc.stream ∧ s'.svc.emitted = s.svc.emitted ∧ s'.lost = s.lost) ∧ s'.Settled := by
    refine Lts.exists_reach_of_measure distance (fun t ⟨ht, hta, hstream, hem, hlost⟩ hn => ?_)
      ⟨hs, ha, rfl, rfl, rfl⟩
    obtain ⟨a, t', hal, hst, ⟨hta', hstream', hem', hlost'⟩, hlt⟩ := exists_alone ht hta hn
    have hintact : t.Intact a := by
      rcases hal with rfl | rfl <;> trivial
    exact ⟨a, t', hal, hst, ⟨sound_step ht hintact hst, hta', hstream'.trans hstream, hem'.trans hem,
      hlost'.trans hlost⟩, hlt⟩
  obtain ⟨s', hreach, ⟨hs', -, hstream, hem, hlost⟩, hsettled⟩ := hex
  have hall : s'.processed = s.svc.stream := by
    rw [← hstream, ← hs'.samples, hsettled.pending, List.append_nil]
  refine ⟨s', hreach, hsettled.pending, hall.trans hs.samples.symm, fun hl => ?_⟩
  obtain ⟨hsub, hperm⟩ := hs.traced.samples hs.flow hs.handler
  rw [hl, List.flatMap_nil, List.append_nil] at hperm
  exact hall.trans (hsub.eq_of_length hperm.length_eq)

theorem catches_up_one : ∃ s s' : Instrument .dmm, s.pending.length = 4 ∧
    Lts.Reach (step fun w => w.toNat) Alone s s' ∧ s'.pending = [] ∧ s'.processed = s.processed ++ s.pending ∧
      (s.lost = [] → s'.processed = s.svc.emitted.flatMap Report.samples) := by
  obtain ⟨s, hr, hp⟩ := Lts.exists_reach_of_run (step fun w => w.toNat) Intact fresh oneReport
    (fun s => s.pending.length == 4 && (s.svc.tdev.isOpen && !s.svc.thAbort && s.svc.worker == some .isOpen &&
      s.svc.resque.data.length + (s.svc.held.filter (·.isReply)).length +
        (s.svc.tdev.input.filter fun r => route r.dat = .reply).length ≤ s.svc.resque.capacity)) (by decide)
  simp only [Bool.and_eq_true, beq_iff_eq, Bool.not_eq_true', decide_eq_true_eq] at hp
  obtain ⟨hlen, ⟨⟨hopen, hrun⟩, hw⟩, hroom⟩ := hp
  obtain ⟨s', h⟩ := catches_up _ _ _ Attvalue.length_zeros Meter.length_zeros hr
    ⟨hopen, hrun, ⟨_, hw, by decide⟩, hroom⟩
  exact ⟨s, s', hlen, h⟩

end Instrument

end ToolbitSdk
