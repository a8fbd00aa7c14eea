/-
# Transactions: what one client sees of the service

A client that is alone on a service gets the reply to its own request, so
`readAttribute` and `writeAttribute` are functions of what the device answers
(`Served.outcomes_eq_of_alone` shows it of the service's steps). `Link` is the
device as such a client has it, and the drivers are written over any link.
`Bank` is the link of an attribute store (`respond`) that accepts or refuses
each transaction, with one lemma for each method and outcome.

A driver's attribute keeps its id for life (`AttOf`).
-/
import ToolbitSdk.Peer
import ToolbitSdk.Service

namespace ToolbitSdk

open Bytes

/-- A device and the handle a `TbiDevice` has on it; `π` is what can be
opened. -/
class Link (σ : Type*) (π : outParam Type*) where
  isOpen : σ → Bool
  /-- `TbiDevice::open`, which is true on an error -/
  openDevice : σ → π → Bool × σ
  closeDevice : σ → σ
  /-- the packet that answers a frame -/
  transact : σ → List Byte → TbiPacket × σ

variable {σ π : Type*} [Link σ π]

namespace TbiService

def readAttribute (tdev : σ) (att : Attribute) : Bool × Attribute × σ :=
  if Link.isOpen tdev then
    let (rcvp, tdev) := Link.transact tdev (readFrame att)
    let (err, att) := readReply rcvp att
    (err, att, tdev)
  else (true, att, tdev)

def writeAttribute (tdev : σ) (att : Attribute) : Bool × σ :=
  if Link.isOpen tdev then
    let (rcvp, tdev) := Link.transact tdev (writeFrame att)
    (writeReply rcvp, tdev)
  else (true, tdev)

end TbiService

open TbiService

theorem readReply_attid (rcvp : TbiPacket) (att : Attribute) :
    (readReply rcvp att).2.attid = att.attid := by
  unfold readReply
  split <;> rfl

theorem readAttribute_attid (tdev : σ) (att : Attribute) :
    (readAttribute tdev att).2.1.attid = att.attid := by
  unfold readAttribute
  split
  · exact readReply_attid _ _
  · rfl

section

variable {tdev tdev' : σ} {p : TbiPacket} (att : Attribute)

theorem readAttribute_of_transact (h : Link.isOpen tdev = true)
    (ht : Link.transact tdev (readFrame att) = (p, tdev')) :
    readAttribute tdev att = ((readReply p att).1, (readReply p att).2, tdev') := by
  rw [readAttribute, if_pos h, ht]

theorem writeAttribute_of_transact (h : Link.isOpen tdev = true)
    (ht : Link.transact tdev (writeFrame att) = (p, tdev')) :
    writeAttribute tdev att = (writeReply p, tdev') := by
  rw [writeAttribute, if_pos h, ht]

end

/-! ### TbiCore -/

namespace TbiCore

/-- "Read product data from device": the reads of `openPath`, their results
ignored. -/
def readProductData (c : TbiCore) (tdev : σ) : TbiCore × σ :=
  let (_, mAttVendorName, tdev) := readAttribute tdev c.mAttVendorName
  let (_, mAttProductName, tdev) := readAttribute tdev c.mAttProductName
  let (_, mAttProductRevision, tdev) := readAttribute tdev c.mAttProductRevision
  let (_, mAttProductSerial, tdev) := readAttribute tdev c.mAttProductSerial
  let (_, mAttFirmVersion, tdev) := readAttribute tdev c.mAttFirmVersion
  (⟨mAttVendorName, mAttProductName, mAttProductRevision, mAttProductSerial, mAttFirmVersion⟩, tdev)

/-- `TbiCore::openPath`; the device manager gives `path`, NULL when it finds
no device. -/
def openPath (c : TbiCore) (tdev : σ) (path : Option π) : Bool × TbiCore × σ :=
  match path with
  | none => (true, c, tdev)
  | some p =>
    if Link.isOpen tdev then (true, c, tdev)
    else
      match Link.openDevice tdev p with
      | (true, tdev) => (true, c, tdev)
      | (false, tdev) => (false, c.readProductData tdev)

/-- `TbiCore::close`. -/
def close (tdev : σ) : Bool × σ :=
  if Link.isOpen tdev then (false, Link.closeDevice tdev) else (true, tdev)

end TbiCore

/-! ### An attribute of a driver -/

/-- An attribute whose id is `id`. -/
structure AttOf (id : AttId) where
  att : Attribute
  attid : att.attid = id
  deriving DecidableEq

namespace AttOf

variable {id : AttId}

/-- `new Attribute(id, 0x00, 0x00)`, on memory that holds `junk`. -/
def new (junk : List Byte) (h : junk.length = VALUE_LEN + 1) (id : AttId) : AttOf id :=
  ⟨.new junk h id 0x00 0x00, rfl⟩

/-- A `setValue`, its result ignored. -/
def set (a : AttOf id) (f : Attvalue → Bool × Attvalue) : AttOf id := ⟨(a.att.onValue f).2, a.attid⟩

/-- `readAttribute` of the attribute. -/
def read (tdev : σ) (a : AttOf id) : Bool × AttOf id × σ :=
  ((readAttribute tdev a.att).1, ⟨(readAttribute tdev a.att).2.1, (readAttribute_attid tdev a.att).trans a.attid⟩,
    (readAttribute tdev a.att).2.2)

def getValueUint8 (a : AttOf id) : BitVec 8 := a.att.getValueUint8
def getValueUint32 (a : AttOf id) : BitVec 32 := a.att.getValueUint32
def getValueFloat (a : AttOf id) : BitVec 32 := a.att.getValueFloat

@[simp] theorem getValueUint8_set (a : AttOf id) (w : BitVec 8) :
    (a.set (·.setValueUint8 w)).getValueUint8 = w := Attvalue.getValueUint8_setValueUint8 _ w

@[simp] theorem getValueUint32_set (a : AttOf id) (w : BitVec 32) :
    (a.set (·.setValueUint32 w)).getValueUint32 = w := Attvalue.getValueUint32_setValueUint32 _ w

end AttOf

/-! ### Numbers as a device holds them -/

namespace Value

/-- A number of `n` bytes, little-endian. -/
def num (n v : ℕ) (h : n ≤ VALUE_LEN) : Value := ⟨leBytes n v, by rwa [length_leBytes]⟩

def byte (b : BitVec 8) : Value := num 1 b.toNat (by decide)

def word (w : BitVec 32) : Value := num 4 w.toNat (by decide)

/-- The number in the first `n` bytes. -/
def toNum (v : Value) (n : ℕ) : BitVec (8 * n) := leWord (8 * n) (v.bytes.take n)

theorem toNum_num {n : ℕ} (w : BitVec (8 * n)) (h : n ≤ VALUE_LEN) :
    (num n w.toNat h).toNum n = w := by
  rw [toNum, num, List.take_of_length_le (length_leBytes n _).le]
  exact leWord_leBytes w

@[simp] theorem toNum_byte (b : BitVec 8) : (byte b).toNum 1 = b := toNum_num (n := 1) b (by decide)

@[simp] theorem toNum_word (w : BitVec 32) : (word w).toNum 4 = w := toNum_num (n := 4) w (by decide)

theorem word_inj {w w' : BitVec 32} : word w = word w' ↔ w = w' :=
  ⟨fun h => by rw [← toNum_word w, h, toNum_word], fun h => h ▸ rfl⟩

end Value

namespace AttOf

variable {id : AttId}

/-- The attribute after a read that brought `v`. -/
def got (a : AttOf id) (v : Value) : AttOf id :=
  a.set (·.setValueBytes v.bytes (BitVec.ofNat 8 v.bytes.length))

/-- A word that is read is a word that is set. -/
theorem got_word (a : AttOf id) (w : BitVec 32) : a.got (.word w) = a.set (·.setValueUint32 w) := by
  have h := Attvalue.setValueBytes_leBytes a.att.toAttvalue 4 w.toNat (by decide)
  simp only [got, set, Attribute.onValue, Value.word, Value.num, h]
  rfl

@[simp] theorem toValue_set (a : AttOf id) (w : BitVec 32) :
    (a.set (·.setValueUint32 w)).att.toValue = .word w :=
  Value.ext (Attvalue.value_setNum a.att.toAttvalue 4 w.toNat (by decide))

@[simp] theorem toValue_setByte (a : AttOf id) (b : BitVec 8) :
    (a.set (·.setValueUint8 b)).att.toValue = .byte b :=
  Value.ext (Attvalue.value_setNum a.att.toAttvalue 1 b.toNat (by decide))

end AttOf

/-! ### The attribute store as a link -/

/-- An attribute store, and the client's handle on it. Transaction `n`
succeeds if `accepts n`, and `pads n` is what follows its reply in the
packet; otherwise it has no effect and its reply is a refusal. -/
structure Bank where
  connected : Bool
  vals : AttId → Value
  accepts : ℕ → Bool
  pads : ℕ → List Byte
  refusals : ℕ → List Byte → Refusal
  n : ℕ

namespace Bank

/-- After a transaction that changes no value. -/
def tick (d : Bank) : Bank := { d with n := d.n + 1 }

/-- The device takes a value. -/
def put (d : Bank) (id : AttId) (v : Value) : Bank := { d with vals := Function.update d.vals id v }

def transact (d : Bank) (frame : List Byte) : TbiPacket × Bank :=
  if d.accepts d.n then
    let a := respond d.vals frame true (d.pads d.n)
    (TbiPacket.blank.receive a.2, { d.tick with vals := a.1 })
  else (TbiPacket.blank.receive (d.refusals d.n frame).report, d.tick)

/-- Opening finds a store with the given values, or fails. -/
def openDevice (d : Bank) : Option (AttId → Value) → Bool × Bank
  | none => (true, d)
  | some vals => (false, { d with connected := true, vals })

/-- An open store of the given values that accepts every transaction. -/
def holding (vals : AttId → Value) : Bank :=
  ⟨true, vals, fun _ => true, fun _ => [], fun _ f => .fail (frameOp f), 0⟩

instance : Link Bank (Option (AttId → Value)) where
  isOpen d := d.connected
  openDevice := openDevice
  closeDevice d := { d with connected := false }
  transact := transact

section

variable (d : Bank)

@[simp] theorem tick_connected : d.tick.connected = d.connected := rfl
@[simp] theorem tick_vals : d.tick.vals = d.vals := rfl
@[simp] theorem tick_accepts : d.tick.accepts = d.accepts := rfl
@[simp] theorem tick_n : d.tick.n = d.n + 1 := rfl
@[simp] theorem put_connected (id : AttId) (v : Value) : (d.put id v).connected = d.connected := rfl
@[simp] theorem put_accepts (id : AttId) (v : Value) : (d.put id v).accepts = d.accepts := rfl
@[simp] theorem put_n (id : AttId) (v : Value) : (d.put id v).n = d.n := rfl
@[simp] theorem put_vals_self (id : AttId) (v : Value) : (d.put id v).vals id = v :=
  Function.update_self ..
theorem put_vals_ne {id id' : AttId} (v : Value) (h : id' ≠ id) :
    (d.put id v).vals id' = d.vals id' :=
  Function.update_of_ne h ..

end

/-! ### Each method and outcome -/

variable {d : Bank} {id : AttId}

theorem transact_accepted (frame : List Byte) (ha : d.accepts d.n = true) {vals : AttId → Value} {r : Report}
    (h : respond d.vals frame true (d.pads d.n) = (vals, r)) :
    Link.transact d frame = (TbiPacket.blank.receive r, { d.tick with vals }) := by
  show d.transact frame = _
  rw [transact, if_pos ha, h]

theorem transact_refused (frame : List Byte) (ha : d.accepts d.n = false) :
    Link.transact d frame = (TbiPacket.blank.receive (d.refusals d.n frame).report, d.tick) := by
  show d.transact frame = _
  rw [transact, ha, if_neg Bool.false_ne_true]

/-- The reply is where the service looks for it. -/
theorem prefix_receive {op rc : Byte} {payload : List Byte} (tail : List Byte)
    (h : payload.length ≤ VALUE_LEN) :
    replyBytes op rc payload <+: (TbiPacket.blank.receive (replyReport op rc payload tail)).dat :=
  (prefix_replyReport tail h).trans (prefix_overlay _ _)

theorem readAttribute_accepted (att : Attribute) (h : d.connected = true) (ha : d.accepts d.n = true) :
    readAttribute d att = (false, (att.onValue fun a =>
      a.setValueBytes (d.vals att.attid).bytes (BitVec.ofNat 8 (d.vals att.attid).bytes.length)).2, d.tick) := by
  have hle := (d.vals att.attid).le
  have ht := transact_accepted (readFrame att) ha (respond_read d.vals att (d.pads d.n))
  have hv := Attvalue.setValueBytes_fits att.toAttvalue hle
  rw [readAttribute_of_transact att h ht, readReply_of_ok (prefix_receive _ hle) hle]
  simp only [Attribute.onValue, hv]
  rfl

theorem readAttribute_refused (att : Attribute) (h : d.connected = true) (ha : d.accepts d.n = false) :
    readAttribute d att = (true, att, d.tick) := by
  rw [readAttribute_of_transact att h (transact_refused _ ha), Refusal.read _ _ (prefix_overlay _ _)]

/-- A read leaves the device as it was. -/
theorem readAttribute_link (att : Attribute) (h : d.connected = true) :
    (readAttribute d att).2.2 = d.tick := by
  cases ha : d.accepts d.n with
  | true => rw [readAttribute_accepted att h ha]
  | false => rw [readAttribute_refused att h ha]

theorem read_accepted (a : AttOf id) (h : d.connected = true) (ha : d.accepts d.n = true) :
    a.read d = (false, a.got (d.vals id), d.tick) := by
  obtain ⟨att, rfl⟩ := a
  simp only [AttOf.read, readAttribute_accepted att h ha]
  rfl

theorem read_refused (a : AttOf id) (h : d.connected = true) (ha : d.accepts d.n = false) :
    a.read d = (true, a, d.tick) := by
  simp only [AttOf.read, readAttribute_refused a.att h ha]

theorem write_accepted (a : AttOf id) (h : d.connected = true) (ha : d.accepts d.n = true) :
    writeAttribute d a.att = (false, d.tick.put id a.att.toValue) := by
  have ht := transact_accepted (writeFrame a.att) ha (respond_write d.vals a.att (d.pads d.n))
  rw [writeAttribute_of_transact a.att h ht, writeReply_of_ok (prefix_receive _ (Nat.zero_le _)), a.attid]
  rfl

theorem write_refused (a : AttOf id) (h : d.connected = true) (ha : d.accepts d.n = false) :
    writeAttribute d a.att = (true, d.tick) := by
  rw [writeAttribute_of_transact a.att h (transact_refused _ ha), Refusal.write _ _ (prefix_overlay _ _)]

/-- Reading a word. -/
theorem read_word (a : AttOf id) {w : BitVec 32} (h : d.connected = true) (ha : d.accepts d.n = true)
    (hv : d.vals id = .word w) : a.read d = (false, a.set (·.setValueUint32 w), d.tick) := by
  rw [read_accepted a h ha, hv, AttOf.got_word]

/-- Writing a word. -/
theorem write_word (a : AttOf id) (w : BitVec 32) (h : d.connected = true) (ha : d.accepts d.n = true) :
    writeAttribute d (a.set (·.setValueUint32 w)).att = (false, d.tick.put id (.word w)) := by
  rw [write_accepted _ h ha, AttOf.toValue_set]

/-- Writing a byte. -/
theorem write_byte (a : AttOf id) (b : BitVec 8) (h : d.connected = true) (ha : d.accepts d.n = true) :
    writeAttribute d (a.set (·.setValueUint8 b)).att = (false, d.tick.put id (.byte b)) := by
  rw [write_accepted _ h ha, AttOf.toValue_setByte]

theorem read_closed (a : AttOf id) (h : d.connected = false) : a.read d = (true, a, d) := by
  have hc : Link.isOpen d = false := h
  simp only [AttOf.read, readAttribute, hc, Bool.false_eq_true, ↓reduceIte]

theorem write_closed (att : Attribute) (h : d.connected = false) :
    writeAttribute d att = (true, d) := by
  have hc : Link.isOpen d = false := h
  simp only [writeAttribute, hc, Bool.false_eq_true, ↓reduceIte]

theorem read_connected (a : AttOf id) (d : Bank) : (a.read d).2.2.connected = d.connected := by
  cases hc : d.connected with
  | false => rw [read_closed a hc, hc]
  | true =>
    have hl : (a.read d).2.2 = d.tick := readAttribute_link a.att hc
    rw [hl, d.tick_connected, hc]

/-- Each attribute is read with the device as the reads before it have left
it. -/
theorem readProductData_eq (c : TbiCore) (h : d.connected = true) : c.readProductData d =
    (⟨(readAttribute d c.mAttVendorName).2.1, (readAttribute d.tick c.mAttProductName).2.1,
      (readAttribute d.tick.tick c.mAttProductRevision).2.1, (readAttribute d.tick.tick.tick c.mAttProductSerial).2.1,
      (readAttribute d.tick.tick.tick.tick c.mAttFirmVersion).2.1⟩, d.tick.tick.tick.tick.tick) := by
  have h1 := readAttribute_link c.mAttVendorName h
  have h2 := readAttribute_link (d := d.tick) c.mAttProductName h
  have h3 := readAttribute_link (d := d.tick.tick) c.mAttProductRevision h
  have h4 := readAttribute_link (d := d.tick.tick.tick) c.mAttProductSerial h
  have h5 := readAttribute_link (d := d.tick.tick.tick.tick) c.mAttFirmVersion h
  simp only [TbiCore.readProductData, h1, h2, h3, h4, h5]

theorem readProductData_link (c : TbiCore) (h : d.connected = true) :
    (c.readProductData d).2 = { d with n := d.n + 5 } := by
  rw [readProductData_eq c h]
  rfl

/-- An `openPath` that succeeds had the handle closed and found a device that
opens, whatever becomes of its reads. -/
theorem openPath_link {c c' : TbiCore} {d' : Bank} {path : Option (Option (AttId → Value))}
    (h : c.openPath d path = (false, c', d')) : d.connected = false ∧
      ∃ vals, path = some (some vals) ∧ d' = { d with connected := true, vals, n := d.n + 5 } := by
  rcases path with _ | vals
  · cases h
  by_cases hc : Link.isOpen d = true
  · rw [TbiCore.openPath, if_pos hc] at h
    cases h
  rw [TbiCore.openPath, if_neg hc] at h
  rcases vals with _ | vals
  · cases h
  · have hr := readProductData_link (d := { d with connected := true, vals }) c rfl
    exact ⟨Bool.eq_false_iff.mpr hc, vals, rfl, (congrArg (·.2.2) h).symm.trans hr⟩

/-- One that fails leaves the handle as it was. -/
theorem openPath_failed {c c' : TbiCore} {d' : Bank} {path : Option (Option (AttId → Value))}
    (h : c.openPath d path = (true, c', d')) : d' = d := by
  rcases path with _ | vals
  · cases h
    rfl
  by_cases hc : Link.isOpen d = true
  · rw [TbiCore.openPath, if_pos hc] at h
    cases h
    rfl
  rw [TbiCore.openPath, if_neg hc] at h
  rcases vals with _ | vals
  · cases h
    rfl
  · cases h

theorem close_link (d : Bank) : (TbiCore.close d).2 = { d with connected := false } := by
  unfold TbiCore.close
  split
  · rfl
  · rename_i hc
    rw [← show d.connected = false from Bool.eq_false_iff.mpr hc]

/-! ### Transactions in a row -/

/-- The handle is open and the next `k` transactions are accepted. -/
def Takes (d : Bank) (k : ℕ) : Prop := d.connected = true ∧ ∀ i < k, d.accepts (d.n + i) = true

instance (d : Bank) (k : ℕ) : Decidable (d.Takes k) :=
  inferInstanceAs (Decidable (d.connected = true ∧ ∀ i < k, d.accepts (d.n + i) = true))

variable {k : ℕ}

theorem takes_one : d.Takes 1 ↔ d.connected = true ∧ d.accepts d.n = true := by
  simp only [Takes, Nat.lt_one_iff, forall_eq, Nat.add_zero]

theorem takes_succ : d.Takes (k + 1) ↔ d.Takes 1 ∧ d.tick.Takes k := by
  rw [takes_one]
  constructor
  · intro h
    refine ⟨⟨h.1, h.2 0 (by omega)⟩, h.1, fun i hi => ?_⟩
    have hs := h.2 (i + 1) (by omega)
    rwa [Nat.add_left_comm, Nat.add_comm] at hs
  · rintro ⟨⟨hc, h0⟩, -, hs⟩
    refine ⟨hc, fun i hi => ?_⟩
    rcases i with _ | i
    · exact h0
    · have hi' := hs i (by omega)
      rwa [tick_accepts, tick_n, Nat.add_assoc, Nat.add_comm 1] at hi'

theorem Takes.first (h : d.Takes (k + 1)) : d.Takes 1 := (takes_succ.mp h).1

theorem Takes.rest (h : d.Takes (k + 1)) : d.tick.Takes k := (takes_succ.mp h).2

theorem Takes.before (h : d.Takes 1) (hr : d.tick.Takes k) : d.Takes (k + 1) :=
  takes_succ.mpr ⟨h, hr⟩

@[simp] theorem takes_put (id : AttId) (v : Value) : (d.put id v).Takes k ↔ d.Takes k := Iff.rfl

/-- A read of a word, when the device takes it. -/
theorem read_takes {id : AttId} (a : AttOf id) {w : BitVec 32} (hv : d.vals id = .word w) (h : d.Takes 1) :
    a.read d = (false, a.set (·.setValueUint32 w), d.tick) :=
  read_word a (takes_one.mp h).1 (takes_one.mp h).2 hv

/-- A read of any value. -/
theorem read_taken {id : AttId} (a : AttOf id) (h : d.Takes 1) :
    a.read d = (false, a.got (d.vals id), d.tick) :=
  read_accepted a (takes_one.mp h).1 (takes_one.mp h).2

theorem write_takes {id : AttId} (a : AttOf id) (w : BitVec 32) (h : d.Takes 1) :
    writeAttribute d (a.set (·.setValueUint32 w)).att = (false, d.tick.put id (.word w)) :=
  write_word a w (takes_one.mp h).1 (takes_one.mp h).2

/-- A device that does not take the next transaction is closed, or refuses
it. -/
theorem not_takes_one (h : ¬ d.Takes 1) :
    d.connected = false ∨ d.connected = true ∧ d.accepts d.n = false := by
  rw [takes_one, not_and] at h
  by_cases hc : d.connected = true
  · exact .inr ⟨hc, Bool.not_eq_true _ ▸ h hc⟩
  · exact .inl (Bool.not_eq_true _ ▸ hc)

/-- The error is returned and no value changes. -/
theorem read_not_takes {id : AttId} (a : AttOf id) (h : ¬ d.Takes 1) :
    ∃ d' : Bank, a.read d = (true, a, d') ∧ d'.vals = d.vals := by
  rcases not_takes_one h with hc | ⟨hc, ha⟩
  · exact ⟨d, read_closed a hc, rfl⟩
  · exact ⟨d.tick, read_refused a hc ha, rfl⟩

theorem read_failed_iff {id : AttId} (a : AttOf id) : (a.read d).1 = true ↔ ¬ d.Takes 1 := by
  by_cases h : d.Takes 1
  · simp only [read_taken a h, Bool.false_eq_true, h, not_true]
  · obtain ⟨d', hr, -⟩ := read_not_takes a h
    simp only [hr, h, not_false_eq_true]

theorem write_not_takes {id : AttId} (a : AttOf id) (h : ¬ d.Takes 1) :
    ∃ d' : Bank, writeAttribute d a.att = (true, d') ∧ d'.vals = d.vals := by
  rcases not_takes_one h with hc | ⟨hc, ha⟩
  · exact ⟨d, write_closed a.att hc, rfl⟩
  · exact ⟨d.tick, write_refused a hc ha, rfl⟩

end Bank

end ToolbitSdk
