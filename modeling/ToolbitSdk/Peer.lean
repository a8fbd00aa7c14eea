/-
# The device's end of the wire

What a device reads in a request (`frameOp`, `frameId`, `framePayload`) and
the bytes of a reply (`replyBytes`), and that the two ends agree: an id
survives the request (`frameId_readFrame`, `frameId_writeFrame`), as does
the value that is written (`framePayload_writeFrame`), and the service makes
of a reply what the device put in it (`readReply_of_ok`,
`readReply_of_fail`).

`respond` is the attribute store that devices of this protocol are: it
answers a read with the value of the attribute and a write by taking the
value, when it accepts the request, and refuses it without effect otherwise.
What a call makes of the answer is `Request.outcome`.
-/
import ToolbitSdk.Packet
import Mathlib.Tactic.IntervalCases
import Mathlib.Logic.Function.Basic

namespace ToolbitSdk

open Bytes

/-! ### Requests -/

def frameOp (f : List Byte) : Byte := byteAt f 1

/-- The id in bytes 2 and 3, high byte first. -/
def frameId (f : List Byte) : AttId := (byteAt f 2).setWidth 16 <<< 8 ||| (byteAt f 3).setWidth 16

/-- The bytes after the id, as many as the length says. -/
def framePayload (f : List Byte) : List Byte := (f.drop 4).take ((byteAt f 0 &&& 0x3F).toNat - 4)

theorem join_idBytes (id : AttId) :
    (((id &&& 0xFF00) >>> 8).setWidth 8).setWidth 16 <<< 8 ||| ((id &&& 0xFF).setWidth 8).setWidth 16 = id := by
  apply BitVec.eq_of_getLsbD_eq
  intro i hi
  interval_cases i <;> simp

@[simp] theorem frameOp_readFrame (att : Attribute) : frameOp (readFrame att) = OP_ATT_VALUE_GET := rfl

@[simp] theorem frameOp_writeFrame (att : Attribute) : frameOp (writeFrame att) = OP_ATT_VALUE_SET := rfl

@[simp] theorem frameId_readFrame (att : Attribute) : frameId (readFrame att) = att.attid :=
  join_idBytes att.attid

@[simp] theorem frameId_writeFrame (att : Attribute) : frameId (writeFrame att) = att.attid :=
  join_idBytes att.attid

/-- The length byte of a write does not carry into the version. -/
theorem toNat_writeLength {b : Byte} (h : b.toNat ≤ VALUE_LEN) :
    ((PROTOCOL_VERSION + 4 + b) &&& 0x3F).toNat = 4 + b.toNat := by
  have hb : b.toNat ≤ 32 := h
  have h1 : (PROTOCOL_VERSION + 4 + b).toNat = 4 + b.toNat := by
    rw [BitVec.toNat_add, show (PROTOCOL_VERSION + 4).toNat = 4 from rfl]
    omega
  rw [BitVec.toNat_and, h1]
  exact (Nat.and_two_pow_sub_one_eq_mod _ 6).trans (Nat.mod_eq_of_lt (by omega))

/-- The device finds the value in a write. -/
@[simp] theorem framePayload_writeFrame (att : Attribute) : framePayload (writeFrame att) = att.value := by
  have h := att.fits
  have hlen : (byteAt (writeFrame att) 0 &&& 0x3F).toNat - 4 = att.datlen.toNat := by
    rw [show byteAt (writeFrame att) 0 = PROTOCOL_VERSION + 4 + att.datlen from rfl, toNat_writeLength h]
    omega
  have hdrop : (writeFrame att).drop 4 = att.getValueStr.1.take att.datlen.toNat := rfl
  rw [framePayload, hlen, hdrop, List.take_take, Nat.min_self, Attvalue.getValueStr, Attvalue.value,
    List.take_set_of_le h]

/-! ### Replies -/

/-- A reply: its length, the operation it answers, a return code and a value. -/
def replyBytes (op rc : Byte) (payload : List Byte) : List Byte :=
  [PROTOCOL_VERSION + 3 + BitVec.ofNat 8 payload.length, op, rc] ++ payload

/-- A reply as a report, with whatever follows it. -/
def replyReport (op rc : Byte) (payload tail : List Byte) : Report :=
  ⟨(replyBytes op rc payload ++ tail).take BUF_LEN, by simp [replyBytes, BUF_LEN], by simp⟩

theorem prefix_replyReport {op rc : Byte} {payload : List Byte} (tail : List Byte)
    (h : payload.length ≤ VALUE_LEN) :
    replyBytes op rc payload <+: (replyReport op rc payload tail).dat := by
  have hl : (replyBytes op rc payload).length ≤ BUF_LEN := by
    simp only [replyBytes, List.length_append, List.length_cons, List.length_nil, VALUE_LEN, BUF_LEN] at *
    omega
  show _ <+: (replyBytes op rc payload ++ tail).take BUF_LEN
  rw [List.take_append, List.take_of_length_le hl]
  exact List.prefix_append _ _

theorem byteAt_of_extends {as bs : List Byte} {i : ℕ} (h : as <+: bs) (hi : i < as.length) :
    byteAt bs i = byteAt as i := by
  obtain ⟨t, rfl⟩ := h
  simp [byteAt, List.getD_eq_getElem?_getD, List.getElem?_append_left hi]

section

variable {op rc : Byte} {payload dat : List Byte}

theorem byteAt_reply_op (h : replyBytes op rc payload <+: dat) : byteAt dat 1 = op := by
  rw [byteAt_of_extends h (by simp [replyBytes])]; rfl

theorem byteAt_reply_rc (h : replyBytes op rc payload <+: dat) : byteAt dat 2 = rc := by
  rw [byteAt_of_extends h (by simp [replyBytes])]; rfl

theorem byteAt_reply_length (h : replyBytes op rc payload <+: dat) :
    byteAt dat 0 = PROTOCOL_VERSION + 3 + BitVec.ofNat 8 payload.length := by
  rw [byteAt_of_extends h (by simp [replyBytes])]; rfl

/-- The length byte of a reply leaves the version bits alone and gives the
value's length back. -/
theorem reply_header {n : ℕ} (h : n ≤ VALUE_LEN) :
    (PROTOCOL_VERSION + 3 + BitVec.ofNat 8 n) &&& 0xC0 = PROTOCOL_VERSION ∧
      ((PROTOCOL_VERSION + 3 + BitVec.ofNat 8 n) &&& 0x3F) - 3 = BitVec.ofNat 8 n := by
  have h' : n ≤ 32 := h
  interval_cases n <;> decide

/-- The worker takes a reply for one. -/
theorem route_reply (h : replyBytes op rc payload <+: dat) (hp : payload.length ≤ VALUE_LEN)
    (hop : op ≠ OP_INTERRUPT_TRANSFER ∧ op ≠ OP_EVT_NOTIFY) : route dat = .reply := by
  rw [route, byteAt_reply_length h, byteAt_reply_op h, if_pos (reply_header hp).1, if_neg hop.1, if_neg hop.2]

end

/-- `readAttribute` stores the value of a reply that is OK. -/
theorem readReply_of_ok {p : TbiPacket} {att : Attribute} {v : List Byte}
    (h : replyBytes OP_ATT_VALUE_GET RC_OK v <+: p.dat) (hv : v.length ≤ VALUE_LEN) :
    readReply p att = att.onValue fun a => a.setValueBytes v (BitVec.ofNat 8 v.length) := by
  have hn := Attvalue.toNat_length hv
  obtain ⟨h1, h2⟩ := reply_header hv
  have hdrop : (p.dat.drop 3).take v.length = v := by
    obtain ⟨t, ht⟩ := h
    rw [← ht, replyBytes]
    simp
  rw [readReply, byteAt_reply_length h, byteAt_reply_op h, byteAt_reply_rc h, if_pos ⟨h1, rfl, rfl⟩, h2]
  simp only [Attribute.onValue, Attvalue.setValueBytes, hn, hdrop, List.take_length]

/-- A refusal changes nothing. -/
theorem readReply_of_fail {p : TbiPacket} (att : Attribute) {op : Byte}
    (h : replyBytes op RC_FAIL [] <+: p.dat) : readReply p att = (true, att) := by
  rw [readReply, if_neg]
  rintro ⟨-, -, hrc⟩
  rw [byteAt_reply_rc h] at hrc
  exact absurd hrc (by decide)

theorem writeReply_of_fail {p : TbiPacket} {op : Byte} (h : replyBytes op RC_FAIL [] <+: p.dat) :
    writeReply p = true := by
  rw [writeReply, if_neg]
  rintro ⟨-, -, hrc⟩
  rw [byteAt_reply_rc h] at hrc
  exact absurd hrc (by decide)

theorem writeReply_of_ok {p : TbiPacket} (h : replyBytes OP_ATT_VALUE_SET RC_OK [] <+: p.dat) :
    writeReply p = false := by
  rw [writeReply, if_pos]
  exact ⟨byteAt_reply_length h, byteAt_reply_op h, byteAt_reply_rc h⟩

/-- A packet that no call takes for a success. -/
structure Refusal where
  report : Report
  read : ∀ p : TbiPacket, report.dat <+: p.dat → ∀ att, readReply p att = (true, att)
  write : ∀ p : TbiPacket, report.dat <+: p.dat → writeReply p = true

/-- The reply that refuses a request. -/
def Refusal.fail (op : Byte) : Refusal where
  report := replyReport op RC_FAIL [] []
  read _ h att := readReply_of_fail att ((prefix_replyReport [] (Nat.zero_le _)).trans h)
  write _ h := writeReply_of_fail ((prefix_replyReport [] (Nat.zero_le _)).trans h)

/-! ### The attribute store -/

/-- A value that fits an attribute. -/
@[ext]
structure Value where
  bytes : List Byte
  le : bytes.length ≤ VALUE_LEN
  deriving DecidableEq

/-- The device's answer to the request `f`, when it accepts it or not: its
values after it, and the reply. -/
def respond (vals : AttId → Value) (f : List Byte) (accept : Bool) (tail : List Byte) :
    (AttId → Value) × Report :=
  if accept ∧ frameOp f = OP_ATT_VALUE_GET then
    (vals, replyReport OP_ATT_VALUE_GET RC_OK (vals (frameId f)).bytes tail)
  else if accept ∧ frameOp f = OP_ATT_VALUE_SET then
    (Function.update vals (frameId f) ⟨(framePayload f).take VALUE_LEN, List.length_take_le _ _⟩,
      replyReport OP_ATT_VALUE_SET RC_OK [] tail)
  else (vals, replyReport (frameOp f) RC_FAIL [] tail)

/-- The value of an attribute, as a device stores it. -/
def Attribute.toValue (att : Attribute) : Value :=
  ⟨att.value, (List.length_take_le _ _).trans att.fits⟩

section

variable (vals : AttId → Value) (att : Attribute) (tail : List Byte)

theorem respond_read : respond vals (readFrame att) true tail =
    (vals, replyReport OP_ATT_VALUE_GET RC_OK (vals att.attid).bytes tail) := by
  rw [respond, if_pos ⟨rfl, rfl⟩, frameId_readFrame]

theorem respond_write : respond vals (writeFrame att) true tail =
    (Function.update vals att.attid att.toValue, replyReport OP_ATT_VALUE_SET RC_OK [] tail) := by
  have hv : (framePayload (writeFrame att)).take VALUE_LEN = att.value := by
    rw [framePayload_writeFrame]
    exact List.take_of_length_le att.toValue.le
  rw [respond, if_neg (by rw [frameOp_writeFrame]; decide), if_pos ⟨rfl, rfl⟩, frameId_writeFrame]
  simp only [hv]
  rfl

end

/-! ### What a request comes to -/

/-- The result of a call, and the caller's attribute after it, when the
device accepts the request or not. -/
def Request.outcome (vals : AttId → Value) (accepted : Bool) : Request → Bool × Attribute
  | .read att =>
    if accepted then att.onValue fun a =>
      a.setValueBytes (vals att.attid).bytes (BitVec.ofNat 8 (vals att.attid).bytes.length)
    else (true, att)
  | .write att => (!accepted, att)

/-- It depends on the device's report alone, whatever follows that in the
packet. -/
theorem Request.finish_eq_outcome {vals : AttId → Value} {accepted : Bool} {tail : List Byte} {p : TbiPacket}
    (r : Request) (h : (respond vals r.frame accepted tail).2.dat <+: p.dat) :
    r.finish p = r.outcome vals accepted := by
  have hnil : ([] : List Byte).length ≤ VALUE_LEN := Nat.zero_le _
  cases accepted with
  | true =>
    cases r with
    | read att =>
      have hle := (vals att.attid).le
      rw [Request.frame, respond_read] at h
      exact readReply_of_ok ((prefix_replyReport tail hle).trans h) hle
    | write att =>
      rw [Request.frame, respond_write] at h
      have hw : writeReply p = false := writeReply_of_ok ((prefix_replyReport tail hnil).trans h)
      rw [Request.finish, hw]
      rfl
  | false =>
    have hrep : replyBytes (frameOp r.frame) RC_FAIL [] <+: p.dat := (prefix_replyReport tail hnil).trans h
    cases r with
    | read att => exact readReply_of_fail att hrep
    | write att =>
      have hw : writeReply p = true := writeReply_of_fail hrep
      rw [Request.finish, hw]
      rfl

/-- Nor do the device's values depend on what follows its reply. -/
theorem respond_vals (vals : AttId → Value) (f : List Byte) (accept : Bool) (tail : List Byte) :
    (respond vals f accept tail).1 = (respond vals f accept []).1 := by
  unfold respond
  split
  · rfl
  · split <;> rfl

end ToolbitSdk
