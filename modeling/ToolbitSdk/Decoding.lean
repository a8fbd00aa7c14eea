/-
# What is made of a packet, and of a report that is too short

`readAttribute` takes a reply exactly when its header, operation and return
code are right and its declared length is that of a value
(`readReply_exact`). The test of the length is in `setValue`, on an `int`
narrowed to a byte: a declared length below 3 wraps to one that is refused.

The worker reads every report into one packet and looks at the number of
bytes only to see whether there were any, so a report that is shorter than
it says is filled up with what earlier reports have left. What the worker
passes on (`passed`) is settled by the report alone (`Report.alone`), in
every state of every run, exactly when the report is whole or comes to
nothing whatever is behind it, as an interrupt packet does where no handler
is set (`Sys.determined_iff`). Where the device sends
no other reports, every packet that is passed on is backed by one of them
(`Sys.settled_by_reports`).
-/
import ToolbitSdk.Causality
import ToolbitSdk.Meter

namespace ToolbitSdk

open Bytes

/-! ### Replies to a read -/

/-- The length field of a packet. -/
def declared (dat : List Byte) : ℕ := (byteAt dat 0 &&& 0x3F).toNat

/-- A reply to a read that brings a value. -/
structure Readable (dat : List Byte) : Prop where
  version : byteAt dat 0 &&& 0xC0 = 0
  op : byteAt dat 1 = OP_ATT_VALUE_GET
  rc : byteAt dat 2 = RC_OK
  low : 3 ≤ declared dat
  high : declared dat ≤ 3 + VALUE_LEN

theorem declared_le (dat : List Byte) : declared dat ≤ 63 := by
  rw [declared, BitVec.toNat_and]
  exact Nat.and_le_right

/-- The length that `readAttribute` passes on, as a byte: it wraps below 3. -/
theorem toNat_payload (dat : List Byte) : ((byteAt dat 0 &&& 0x3F) - 3).toNat =
    if 3 ≤ declared dat then declared dat - 3 else declared dat + 253 := by
  have h := declared_le dat
  rw [BitVec.toNat_sub]
  change (2 ^ 8 - 3 + declared dat) % 2 ^ 8 = _
  split <;> omega

/-- It is a length that `setValue` takes for the lengths of a value only. -/
theorem toNat_payload_le (dat : List Byte) :
    ((byteAt dat 0 &&& 0x3F) - 3).toNat ≤ VALUE_LEN ↔ 3 ≤ declared dat ∧ declared dat ≤ 3 + VALUE_LEN := by
  rw [toNat_payload, VALUE_LEN]
  split <;> omega

section

variable {p : TbiPacket} (att : Attribute)

theorem readReply_of_readable (h : Readable p.dat) : readReply p att =
    att.onValue fun v => v.setValueBytes (p.dat.drop 3) ((byteAt p.dat 0 &&& 0x3F) - 3) :=
  if_pos ⟨h.version, h.op, h.rc⟩

/-- Any other packet is refused, and nothing is stored. -/
theorem readReply_of_not_readable (h : ¬ Readable p.dat) : readReply p att = (true, att) := by
  unfold readReply
  split
  · rename_i hc
    have hl : ¬ ((byteAt p.dat 0 &&& 0x3F) - 3).toNat ≤ VALUE_LEN := fun hl =>
      h ⟨hc.1, hc.2.1, hc.2.2, ((toNat_payload_le p.dat).mp hl).1, ((toNat_payload_le p.dat).mp hl).2⟩
    simp only [Attribute.onValue, Attvalue.setValueBytes, dif_neg hl]
  · rfl

/-- What is stored of a reply that is taken. -/
theorem readReply_stored (h : Readable p.dat) : (readReply p att).1 = false ∧
    (readReply p att).2.value = (p.dat.drop 3).take (declared p.dat - 3) := by
  have hn : ((byteAt p.dat 0 &&& 0x3F) - 3).toNat = declared p.dat - 3 := by
    rw [toNat_payload, if_pos h.low]
  have hl := (toNat_payload_le p.dat).mpr ⟨h.low, h.high⟩
  have hm : ((byteAt p.dat 0 &&& 0x3F) - 3).toNat ≤ (p.dat.drop 3).length := by
    have hsz := p.size
    have hhigh := h.high
    rw [hn, List.length_drop, hsz]
    simp only [VALUE_LEN, BUF_LEN] at *
    omega
  have hs : (att.setValueBytes (p.dat.drop 3) ((byteAt p.dat 0 &&& 0x3F) - 3)).1 = false := by
    rw [Attvalue.setValueBytes, dif_pos hl]
  have hv := Attvalue.value_of_setValueBytes (Prod.ext hs rfl) hm
  rw [hn] at hv
  rw [readReply_of_readable att h]
  exact ⟨hs, hv⟩

end

/-- **Decoding is exact and atomic.** For every packet and every attribute. -/
theorem readReply_exact (p : TbiPacket) (att : Attribute) :
    ((readReply p att).1 = false ↔ Readable p.dat) ∧
    (Readable p.dat → (readReply p att).2.getValueLength.toNat = declared p.dat - 3 ∧
      (readReply p att).2.value = (p.dat.drop 3).take (declared p.dat - 3) ∧
      3 + (readReply p att).2.value.length = declared p.dat ∧ declared p.dat ≤ p.dat.length) ∧
    (¬ Readable p.dat → (readReply p att).2 = att) := by
  refine ⟨⟨fun h => ?_, fun h => (readReply_stored att h).1⟩, fun h => ?_, fun h => ?_⟩
  · by_contra hr
    rw [readReply_of_not_readable att hr] at h
    cases h
  · obtain ⟨-, hval⟩ := readReply_stored att h
    have hd := declared_le p.dat
    have hlow := h.low
    have hsz : p.dat.length = 65 := p.size
    have hlen : (readReply p att).2.value.length = declared p.dat - 3 := by
      rw [hval, List.length_take, List.length_drop]
      omega
    refine ⟨?_, hval, by omega, by omega⟩
    rw [← hlen, Attvalue.length_value]
    rfl
  · rw [readReply_of_not_readable att h]

/-! ### Reports that are too short -/

/-- The report is shorter than its length field, or than what is read of
every packet: the operation, and the return code of a reply. -/
def Report.Truncated (r : Report) : Prop :=
  r.dat.length < declared r.dat ∨ r.dat.length < 2 ∨ route r.dat = .reply ∧ r.dat.length < 3

instance : DecidablePred Report.Truncated := fun r =>
  inferInstanceAs (Decidable (r.dat.length < declared r.dat ∨ r.dat.length < 2 ∨
    route r.dat = .reply ∧ r.dat.length < 3))

/-- The report is not truncated, or comes to nothing with any bytes behind
it: it is of another version, an event, or an interrupt that no handler is
set for. -/
def Report.Sufficient (handler : Bool) (r : Report) : Prop :=
  ¬ r.Truncated ∨ byteAt r.dat 0 &&& 0xC0 ≠ PROTOCOL_VERSION ∨
    2 ≤ r.dat.length ∧
      (byteAt r.dat 1 = OP_EVT_NOTIFY ∨ byteAt r.dat 1 = OP_INTERRUPT_TRANSFER ∧ handler = false)

instance (handler : Bool) : DecidablePred (Report.Sufficient handler) := fun r =>
  inferInstanceAs (Decidable (¬ r.Truncated ∨ byteAt r.dat 0 &&& 0xC0 ≠ PROTOCOL_VERSION ∨
    2 ≤ r.dat.length ∧
      (byteAt r.dat 1 = OP_EVT_NOTIFY ∨ byteAt r.dat 1 = OP_INTERRUPT_TRANSFER ∧ handler = false)))

/-- What comes of a packet: nothing; a reply, as either call reads it; the
samples of an interrupt packet, none of a malformed one. -/
inductive Passed
  | nothing
  | reply (read : Attribute → Bool × Attribute) (write : Bool)
  | interrupt (samples : Option (List (BitVec 32 × BitVec 32)))

/-- What the worker passes on, where a handler is set or not, and what
`readAttribute`, `writeAttribute` and `interruptHandler` make of it. -/
def passed (handler : Bool) (p : TbiPacket) : Passed :=
  match route p.dat with
  | .drop => .nothing
  | .event => .nothing
  | .interrupt =>
    if handler then .interrupt (if Meter.wellFormed p then some (Meter.samplesOf p) else none) else .nothing
  | .reply => .reply (readReply p) (writeReply p)

/-- What should come of a report: nothing if it is truncated. -/
def Report.alone (handler : Bool) (r : Report) : Passed :=
  if r.Truncated then .nothing else passed handler (TbiPacket.blank.receive r)

theorem byteAt_receive (p : TbiPacket) {r : Report} {i : ℕ} (h : i < r.dat.length) :
    byteAt (p.receive r).dat i = byteAt r.dat i :=
  byteAt_overlay h

/-- A run of bytes of the report is the same in every packet it is read into. -/
theorem take_drop_receive (p : TbiPacket) {r : Report} {i n : ℕ} (h : i + n ≤ r.dat.length) :
    ((p.receive r).dat.drop i).take n = (r.dat.drop i).take n := by
  show ((overlay r.dat p.dat).drop i).take n = (r.dat.drop i).take n
  rw [overlay, List.drop_append_of_le_length (by omega), List.take_append_of_le_length]
  rw [List.length_drop]
  omega

theorem route_receive (p : TbiPacket) {r : Report} (h : 2 ≤ r.dat.length) :
    route (p.receive r).dat = route r.dat :=
  route_overlay _ h

theorem declared_receive (p : TbiPacket) (r : Report) :
    declared (p.receive r).dat = declared r.dat := by
  rw [declared, byteAt_receive p r.pos, declared]

section

variable {r : Report} (p p' : TbiPacket)

/-- A byte of the report is the same in every packet it is read into. -/
theorem byteAt_receive_congr {i : ℕ} (h : i < r.dat.length) :
    byteAt (p.receive r).dat i = byteAt (p'.receive r).dat i :=
  calc byteAt (p.receive r).dat i = byteAt r.dat i := byteAt_receive p h
    _ = byteAt (p'.receive r).dat i := (byteAt_receive p' h).symm

theorem readReply_receive (hd : declared r.dat ≤ r.dat.length) (h3 : 3 ≤ r.dat.length) :
    readReply (p.receive r) = readReply (p'.receive r) := by
  have readable (p p' : TbiPacket) (h : Readable (p.receive r).dat) : Readable (p'.receive r).dat := by
    have hb : ∀ i < 3, byteAt (p'.receive r).dat i = byteAt (p.receive r).dat i := fun i hi =>
      byteAt_receive_congr p' p (by omega)
    have hdecl : declared (p'.receive r).dat = declared (p.receive r).dat := by
      rw [declared_receive p', declared_receive p]
    exact ⟨by rw [hb 0 (by decide)]; exact h.version, (hb 1 (by decide)).trans h.op, (hb 2 (by decide)).trans h.rc,
      by rw [hdecl]; exact h.low, by rw [hdecl]; exact h.high⟩
  funext att
  by_cases h : Readable (p.receive r).dat
  · have hn : ((byteAt (p.receive r).dat 0 &&& 0x3F) - 3).toNat = declared r.dat - 3 := by
      rw [toNat_payload, if_pos h.low, declared_receive]
    have hlow := h.low
    rw [declared_receive] at hlow
    have hb : byteAt (p'.receive r).dat 0 = byteAt (p.receive r).dat 0 := byteAt_receive_congr p' p r.pos
    have hv : ∀ p : TbiPacket, ((p.receive r).dat.drop 3).take (declared r.dat - 3) =
        (r.dat.drop 3).take (declared r.dat - 3) := fun p => take_drop_receive p (by omega)
    rw [readReply_of_readable att h, readReply_of_readable att (readable p p' h), hb]
    simp only [Attribute.onValue, Attvalue.setValueBytes, hn, hv]
  · rw [readReply_of_not_readable att h, readReply_of_not_readable att fun h' => h (readable p' p h')]

theorem writeReply_receive (h3 : 3 ≤ r.dat.length) :
    writeReply (p.receive r) = writeReply (p'.receive r) := by
  have hb : ∀ i < 3, byteAt (p.receive r).dat i = byteAt (p'.receive r).dat i := fun i hi =>
    byteAt_receive_congr p p' (by omega)
  simp only [writeReply, hb 0 (by decide), hb 1 (by decide), hb 2 (by decide)]

theorem wellFormed_iff (p : TbiPacket) : Meter.wellFormed p = true ↔ declared p.dat = 34 := by
  rw [Meter.wellFormed, beq_iff_eq, declared]
  omega

theorem samplesOf_receive (h : 34 ≤ r.dat.length) :
    Meter.samplesOf (p.receive r) = Meter.samplesOf (p'.receive r) := by
  have float : ∀ i, i + 4 ≤ 34 → Meter.floatAt (p.receive r).dat i = Meter.floatAt (p'.receive r).dat i := by
    intro i hi
    rw [Meter.floatAt, Meter.floatAt, take_drop_receive p (by omega), take_drop_receive p' (by omega)]
  refine List.map_congr_left fun i hi => ?_
  have hlt := List.mem_range.mp hi
  rw [float _ (by omega), float _ (by omega)]

/-- A report that is not truncated settles what is made of it. -/
theorem passed_receive (handler : Bool) (h : ¬ r.Truncated) :
    passed handler (p.receive r) = passed handler (p'.receive r) := by
  have hd : declared r.dat ≤ r.dat.length := Nat.not_lt.mp fun hlt => h (.inl hlt)
  have h2 : 2 ≤ r.dat.length := Nat.not_lt.mp fun hlt => h (.inr (.inl hlt))
  have hr : route (p.receive r).dat = route (p'.receive r).dat := by
    rw [route_receive p h2, route_receive p' h2]
  unfold passed
  rw [hr]
  cases hroute : route (p'.receive r).dat with
  | drop => rfl
  | event => rfl
  | interrupt =>
    have hw : Meter.wellFormed (p.receive r) = Meter.wellFormed (p'.receive r) := by
      rw [Bool.eq_iff_iff, wellFormed_iff, wellFormed_iff, declared_receive, declared_receive]
    simp only [hw]
    by_cases hwf : Meter.wellFormed (p'.receive r) = true
    · rw [wellFormed_iff, declared_receive] at hwf
      rw [samplesOf_receive p p' (by omega)]
    · simp only [hwf, Bool.false_eq_true, ↓reduceIte]
  | reply =>
    have h3 : 3 ≤ r.dat.length := Nat.not_lt.mp fun hlt =>
      h (.inr (.inr ⟨(route_receive p' h2).symm.trans hroute, hlt⟩))
    simp only [readReply_receive p p' hd h3, writeReply_receive p p' h3]

end

/-! ### Which reports settle what comes of them -/

theorem route_of_version {dat : List Byte} (h : byteAt dat 0 &&& 0xC0 ≠ PROTOCOL_VERSION) :
    route dat = .drop :=
  if_neg h

theorem version_of_drop {dat : List Byte} (h : route dat = .drop) :
    byteAt dat 0 &&& 0xC0 ≠ PROTOCOL_VERSION := by
  intro hv
  rw [route, if_pos hv] at h
  split at h
  · cases h
  · split at h <;> cases h

theorem op_of_event {dat : List Byte} (h : route dat = .event) : byteAt dat 1 = OP_EVT_NOTIFY := by
  unfold route at h
  split at h
  · split at h
    · cases h
    · split at h
      · assumption
      · cases h
  · cases h

theorem op_of_interrupt {dat : List Byte} (h : route dat = .interrupt) :
    byteAt dat 1 = OP_INTERRUPT_TRANSFER := by
  unfold route at h
  split at h
  · split at h
    · assumption
    · split at h <;> cases h
  · cases h

/-- Nothing comes of an event, nor of an interrupt without a handler. -/
theorem passed_of_op {handler : Bool} {p : TbiPacket}
    (h : byteAt p.dat 1 = OP_EVT_NOTIFY ∨ byteAt p.dat 1 = OP_INTERRUPT_TRANSFER ∧ handler = false) :
    passed handler p = .nothing := by
  rcases h with h | ⟨h, rfl⟩
  · have hr : route p.dat = .drop ∨ route p.dat = .event := by
      unfold route
      rw [h]
      split
      · exact .inr rfl
      · exact .inl rfl
    rcases hr with hr | hr <;> rw [passed, hr]
  · have hr : route p.dat = .drop ∨ route p.dat = .interrupt := by
      unfold route
      rw [h]
      split
      · exact .inr rfl
      · exact .inl rfl
    rcases hr with hr | hr <;> rw [passed, hr]
    rfl

/-- Of a sufficient report comes what should, whatever is behind it. -/
theorem passed_of_sufficient {handler : Bool} {r : Report} (h : r.Sufficient handler) (p : TbiPacket) :
    passed handler (p.receive r) = r.alone handler := by
  have nothing (hn : ∀ p : TbiPacket, passed handler (p.receive r) = .nothing) :
      passed handler (p.receive r) = r.alone handler := by
    rw [Report.alone, hn, hn, ite_self]
  rcases h with h | h | ⟨h2, h⟩
  · rw [Report.alone, if_neg h]
    exact passed_receive p _ handler h
  · refine nothing fun p => ?_
    have hr : route (p.receive r).dat = .drop := route_of_version (by rwa [byteAt_receive p r.pos])
    rw [passed, hr]
  · refine nothing fun p => passed_of_op ?_
    rwa [byteAt_receive p (by omega)]

/-- An op code other than 0 is in the report, where zeros are behind it. -/
theorem two_le_of_op {r : Report} (h : byteAt (TbiPacket.blank.receive r).dat 1 ≠ 0) :
    2 ≤ r.dat.length := by
  by_contra hlt
  obtain ⟨b, hb⟩ := List.length_eq_one_iff.mp (show r.dat.length = 1 by have := r.pos; omega)
  refine h ?_
  show byteAt (overlay r.dat TbiPacket.blank.dat) 1 = 0
  rw [hb]
  rfl

/-- And of no other, where zeros are behind it. -/
theorem sufficient_of_passed {handler : Bool} {r : Report}
    (h : passed handler (TbiPacket.blank.receive r) = r.alone handler) : r.Sufficient handler := by
  by_contra hs
  have ht : r.Truncated := not_not.mp fun ht => hs (.inl ht)
  rw [Report.alone, if_pos ht, passed] at h
  split at h
  · rename_i hr
    have hv := version_of_drop hr
    rw [byteAt_receive _ r.pos] at hv
    exact hs (.inr (.inl hv))
  · rename_i hr
    have hop := op_of_event hr
    have h2 := two_le_of_op (r := r) (by rw [hop]; decide)
    rw [byteAt_receive _ (by omega)] at hop
    exact hs (.inr (.inr ⟨h2, .inl hop⟩))
  · rename_i hr
    have hop := op_of_interrupt hr
    have h2 := two_le_of_op (r := r) (by rw [hop]; decide)
    rw [byteAt_receive _ (by omega)] at hop
    cases handler with
    | true => cases h
    | false => exact hs (.inr (.inr ⟨h2, .inr ⟨hop, rfl⟩⟩))
  · cases h

namespace Sys

/-- Where the worker reads the report `r`, what should comes of it. -/
def Determined (s : Sys) (r : Report) : Prop :=
  ∀ got h, s.worker = some .read → s.tdev.read got = some (r, h) →
    passed s.interruptHandler (s.rcvp.receive r) = r.alone s.interruptHandler

/-- What the worker does with the packet it holds: it enqueues a reply,
calls the handler with an interrupt packet, and otherwise does nothing. -/
theorem dispatch_passed {s s' : Sys} {got : Bool} {n session : ℕ} (hw : s.worker = some (.dispatch n session))
    (hs : s.step (.worker got) = some s') :
    match passed s.interruptHandler s.rcvp with
    | .nothing => s'.resque = s.resque ∧ s'.handled = s.handled
    | .reply _ _ => s'.resque.data = s.resque.data ++ [⟨s.rcvp, n, session⟩] ∧ s'.handled = s.handled
    | .interrupt _ => s'.resque = s.resque ∧ s'.handled = s.handled ++ [s.rcvp] := by
  rw [step, workerStep, hw] at hs
  cases hr : route s.rcvp.dat with
  | drop | event =>
    simp only [doDispatch, hr] at hs
    cases hs
    simp only [passed, hr, and_self]
  | interrupt =>
    simp only [doDispatch, hr] at hs
    cases hs
    cases hi : s.interruptHandler <;> simp [passed, hr]
  | reply =>
    simp only [doDispatch, hr, LockedQueue.enqueue] at hs
    split at hs
    · cases hs
      simp only [passed, hr, and_self]
    · cases hs

/-- `openPath` up to its reads, on memory of zeros, and a report that the
worker is about to read. -/
def firstReport (r : Report) : List Act :=
  [.call 0 (.openPath (some "dev") .blank), .thread 0 .good, .thread 0 .good, .thread 0 .good, .emit r,
    .worker true]

/-- Whether a handler is set does not change. -/
theorem interruptHandler_reach {ok : Sys → Act → Prop} {junk : TbiPacket} {handler : Bool} {s : Sys}
    (h : Lts.Reach Sys.step ok (new junk handler) s) : s.interruptHandler = handler :=
  h.inv (I := fun s => s.interruptHandler = handler) rfl fun _ _ _ hi _ hs =>
    (interruptHandler_step (steps_of_step hs)).trans hi

/-- A report settles what comes of it, in every state of every run, exactly
when it is sufficient. -/
theorem determined_iff (junk : TbiPacket) (handler : Bool) (r : Report) :
    (∀ s, Lts.Reach Sys.step Any (new junk handler) s → s.Determined r) ↔ r.Sufficient handler := by
  constructor
  · intro h
    obtain ⟨s, hr, hw, hp, hread⟩ : ∃ s,
      Lts.run (Lts.guard Sys.step Any) (new junk handler) (firstReport r) = some s ∧ s.worker = some .read ∧
        s.rcvp = .blank ∧ s.tdev.read true = some (r, ⟨1, []⟩) := ⟨_, rfl, rfl, rfl, rfl⟩
    have hreach := Lts.reach_of_run hr
    have hd := h s hreach true _ hw hread
    rw [hp, interruptHandler_reach hreach] at hd
    exact sufficient_of_passed hd
  · intro h s hr got tdev hw hread
    rw [interruptHandler_reach hr]
    exact passed_of_sufficient h s.rcvp

/-- A reply with the value "ABCD", and the first three bytes of the next. -/
def fullReply : Report := ⟨[7, 0x13, 1, 0x41, 0x42, 0x43, 0x44], by decide, by decide⟩

def cutReply : Report := ⟨[7, 0x13, 1], by decide, by decide⟩

/-- `openPath` up to its second read, which `cutReply` is about to answer. -/
def cutRun : List Act :=
  [.call 0 (.openPath (some "dev") .blank), .thread 0 .good, .thread 0 .good, .thread 0 .good,
    .thread 0 .good, .thread 0 .good, .emit fullReply, .worker true, .worker true, .worker true, .worker true,
    .thread 0 .good, .thread 0 .good, .thread 0 .good, .emit cutReply, .worker true]

/-- The second read stores the first one's value. -/
theorem truncated_completed : ¬ ∀ r junk handler s,
    Lts.Reach Sys.step Any (new junk handler) s → s.Determined r := by
  intro hall
  obtain ⟨s, hs, hp⟩ := Lts.exists_reach_of_run Sys.step Any (new .blank false) cutRun
    (fun s => decide (s.worker = some .read) && (s.tdev.read true).any (fun x => x.1 == cutReply) &&
      decide (route (s.rcvp.receive cutReply).dat = .reply) &&
      (readReply (s.rcvp.receive cutReply) (.blank 1)).2.value == [0x41, 0x42, 0x43, 0x44]) (by decide +kernel)
  simp only [Bool.and_eq_true, decide_eq_true_eq] at hp
  obtain ⟨⟨⟨hw, hread⟩, hroute⟩, -⟩ := hp
  obtain ⟨⟨r, h⟩, hread, hr⟩ := (Option.any_eq_true _ _).mp hread
  obtain rfl : r = cutReply := eq_of_beq hr
  have hd := hall cutReply .blank false s hs true h hw hread
  have ha : cutReply.alone s.interruptHandler = .nothing := if_pos (by decide)
  rw [ha, passed, hroute] at hd
  cases hd

/-! ### Runs with sufficient reports -/

/-- The device sends sufficient reports. -/
def Sufficing (s : Sys) : Act → Prop
  | .emit r => r.Sufficient s.interruptHandler
  | _ => True

instance (s : Sys) : DecidablePred s.Sufficing
  | .emit r => inferInstanceAs (Decidable (r.Sufficient s.interruptHandler))
  | .call _ _ | .thread _ _ | .worker _ => .isTrue trivial

/-- The packet is one of a report that is not truncated, and nothing else is
made of it than of the report alone. -/
def Backed (s : Sys) (p : TbiPacket) : Prop :=
  ∃ r ∈ s.emitted, ¬ r.Truncated ∧ passed s.interruptHandler p = r.alone s.interruptHandler

/-- What the worker has read are the reports the device has sent. -/
structure Sourced (s : Sys) : Prop where
  sent : ∀ r ∈ s.emitted, r.Sufficient s.interruptHandler
  input : ∀ r ∈ s.tdev.input, r ∈ s.emitted
  received : ∀ x ∈ s.received, ∃ r ∈ s.emitted, passed s.interruptHandler x.pckt = r.alone s.interruptHandler
  flow : Flow s
  unhandled : s.interruptHandler = false → s.handled = []

theorem Sourced.step {s s' : Sys} {a : Act} (h : Sourced s) (hs : Steps s a s') (ha : Sufficing s a) :
    Sourced s' := by
  have hflow := flow_step hs h.flow
  cases hs with
  | @read got n r rs hw hg hh =>
    have hin : s.tdev.input = r :: rs := by simp [TbiDevice.input, hh]
    have hr : r ∈ s.emitted := h.input r (by rw [hin]; exact List.mem_cons_self)
    have hnew : ∃ r' ∈ s.emitted, passed s.interruptHandler (s.rcvp.receive r) = r'.alone s.interruptHandler :=
      ⟨r, hr, passed_of_sufficient (h.sent r hr) s.rcvp⟩
    exact ⟨h.sent, fun r' hr' => h.input r' (by rw [hin]; exact List.mem_cons_of_mem r hr'),
      Lts.forall_mem_concat h.received hnew, hflow, h.unhandled⟩
  | @emit r d hh =>
    have hin : s.tdev.input = d.input := by simp [TbiDevice.input, hh]
    refine ⟨Lts.forall_mem_concat h.sent ha, fun r' hr' => ?_, fun x hx => ?_, hflow, h.unhandled⟩
    · rcases List.mem_append.mp hr' with hr' | hr'
      · exact List.mem_append_left _ (h.input r' (by rw [hin]; exact hr'))
      · exact List.mem_append_right _ hr'
    · obtain ⟨r', hr', hp⟩ := h.received x hx
      exact ⟨r', List.mem_append_left _ hr', hp⟩
  | openDone | closeDevice => exact ⟨h.sent, fun _ hin => (by cases hin), h.received, hflow, h.unhandled⟩
  | dispatch =>
    refine ⟨h.sent, h.input, h.received, hflow, fun hin => ?_⟩
    have hin : s.interruptHandler = false := hin
    simp only [hin, Bool.false_eq_true, and_false, if_false]
    exact h.unhandled hin
  | _ => exact ⟨h.sent, h.input, h.received, hflow, h.unhandled⟩

/-- What is passed on is backed. -/
theorem Sourced.backed {s : Sys} (h : Sourced s) {x : Received} (hx : x ∈ s.received)
    (hr : route x.pckt.dat = .reply ∨ route x.pckt.dat = .interrupt ∧ s.interruptHandler = true) :
    s.Backed x.pckt := by
  obtain ⟨r, hr', hp⟩ := h.received x hx
  refine ⟨r, hr', fun ht => ?_, hp⟩
  rw [Report.alone, if_pos ht, passed] at hp
  rcases hr with hr | ⟨hr, hi⟩
  · rw [hr] at hp
    cases hp
  · rw [hr, hi] at hp
    cases hp

theorem sourced_new (junk : TbiPacket) (handler : Bool) : Sourced (new junk handler) where
  sent := nofun
  input := nofun
  received := nofun
  flow := ⟨rfl, fun _ => rfl⟩
  unhandled _ := rfl

theorem sourced {junk : TbiPacket} {handler : Bool} {s : Sys}
    (h : Lts.Reach Sys.step Sufficing (new junk handler) s) : Sourced s :=
  h.inv (sourced_new junk handler) fun _ _ _ hi ha hs => hi.step (steps_of_step hs) ha

/-- A packet that a call has dequeued, or will dequeue, is backed. -/
theorem Sourced.backed_of_reply {s : Sys} (h : Sourced s) {x : Received}
    (hx : x ∈ s.replies.map (·.rcv) ++ s.resque.data) : s.Backed x.pckt := by
  have hm : x ∈ s.received.filter (·.isReply) := by
    rw [h.flow.replies]
    exact List.mem_append_left _ hx
  obtain ⟨hx, hr⟩ := List.mem_filter.mp hm
  exact h.backed hx (.inl (by simpa [Received.isReply] using hr))

/-- A packet that the handler has been called with is backed. -/
theorem Sourced.backed_of_handled {s : Sys} (h : Sourced s) {p : TbiPacket} (hp : p ∈ s.handled) :
    s.Backed p := by
  cases hin : s.interruptHandler with
  | false =>
    rw [h.unhandled hin] at hp
    cases hp
  | true =>
    have hm : p ∈ (s.received.filter (·.isInterrupt)).map (·.pckt) := by
      rw [h.flow.interrupts hin]
      exact List.mem_append_left _ hp
    obtain ⟨x, hx, rfl⟩ := List.mem_map.mp hm
    obtain ⟨hx, hr⟩ := List.mem_filter.mp hx
    exact h.backed hx (.inr ⟨by simpa [Received.isInterrupt] using hr, hin⟩)

/-- **What is passed on is settled by the reports**: by each of them alone, in
every state of every run, exactly when it is sufficient; and where the device
sends only such reports, every packet a call has dequeued or will dequeue,
and every packet the handler has been called with, is backed by one that is
not truncated. -/
theorem settled_by_reports (junk : TbiPacket) (handler : Bool) :
    (∀ r, (∀ s, Lts.Reach Sys.step Any (new junk handler) s → s.Determined r) ↔ r.Sufficient handler) ∧
    ∀ s, Lts.Reach Sys.step Sufficing (new junk handler) s →
      (∀ x ∈ s.replies.map (·.rcv) ++ s.resque.data, s.Backed x.pckt) ∧ ∀ p ∈ s.handled, s.Backed p := by
  refine ⟨determined_iff junk handler, fun s h => ?_⟩
  have hs : Sourced s := sourced h
  exact ⟨fun _ hx => hs.backed_of_reply hx, fun _ hp => hs.backed_of_handled hp⟩

/-- `openPath`, whose first read is answered after an interrupt packet and an
event of two bytes. -/
def sufficientRun : List Act :=
  [.call 0 (.openPath (some "dev") .blank), .thread 0 .good, .thread 0 .good, .thread 0 .good,
    .thread 0 .good, .thread 0 .good, .emit ⟨[3, 0xA0, 0], by decide, by decide⟩,
    .emit ⟨[0x22, OP_EVT_NOTIFY], by decide, by decide⟩, .emit fullReply] ++
  .replicate 12 (.worker true) ++ [.thread 0 .good]

theorem settled_by_reports_sent : ∃ s, Lts.Reach Sys.step Sufficing (new .blank true) s ∧
    (s.replies.length = 1 ∧ s.handled.length = 1) ∧
    (∀ x ∈ s.replies.map (·.rcv) ++ s.resque.data, s.Backed x.pckt) ∧ ∀ p ∈ s.handled, s.Backed p := by
  obtain ⟨s, hs, hp⟩ := Lts.exists_reach_of_run Sys.step Sufficing (new .blank true) sufficientRun
    (fun s => s.replies.length == 1 && s.handled.length == 1) (by decide +kernel)
  exact ⟨s, hs, by simpa using hp, (settled_by_reports .blank true).2 s hs⟩

end Sys

end ToolbitSdk
