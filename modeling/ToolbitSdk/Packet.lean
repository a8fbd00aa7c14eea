/-
# Packets: the wire format of the service

The formats of `tbi_service.h` and the encoding and decoding that
`TbiService::readAttribute`, `TbiService::writeAttribute` and
`TbiService::worker` do around their calls to the device. The first byte of
a packet is a version (bits 7-6) and a length (bits 5-0), the second an
operation code; a request then names the attribute, a reply carries a return
code. Nothing in a reply says which request it answers.
-/
import ToolbitSdk.Attribute

namespace ToolbitSdk

open Bytes

/-- The size of a packet buffer. -/
def BUF_LEN : ℕ := 65

def PROTOCOL_VERSION : Byte := 0x00

def OP_ATT_VALUE_SET : Byte := 0x12
def OP_ATT_VALUE_GET : Byte := 0x13
def OP_INTERRUPT_TRANSFER : Byte := 0xA0
def OP_EVT_NOTIFY : Byte := 0xA1

def RC_FAIL : Byte := 0x0
def RC_OK : Byte := 0x1

/-- `tbiPacket`. -/
structure TbiPacket where
  dat : List Byte
  size : dat.length = BUF_LEN
  deriving DecidableEq

/-- An input report: what one `hid_read` copies, from 1 to `BUF_LEN` bytes. -/
structure Report where
  dat : List Byte
  pos : 0 < dat.length
  le : dat.length ≤ BUF_LEN
  deriving DecidableEq

/-- Byte `i` of a buffer, 0 past its end. -/
def byteAt (dat : List Byte) (i : ℕ) : Byte := dat.getD i 0

namespace TbiPacket

/-- `hid_read` into the packet: the report's bytes, then what was there. -/
def receive (p : TbiPacket) (r : Report) : TbiPacket :=
  ⟨overlay r.dat p.dat, by rw [length_overlay (by rw [p.size]; exact r.le), p.size]⟩

end TbiPacket

theorem byteAt_overlay {src dst : List Byte} {i : ℕ} (h : i < src.length) :
    byteAt (overlay src dst) i = byteAt src i := by
  simp [byteAt, overlay, List.getD_eq_getElem?_getD, List.getElem?_append_left h]

/-! ### What the worker does with a packet -/

/-- The four branches of `TbiService::worker`. -/
inductive Route
  | drop
  | interrupt
  | event
  | reply
  deriving DecidableEq

/-- The worker's tests on the first two bytes of what it has read. -/
def route (dat : List Byte) : Route :=
  if byteAt dat 0 &&& 0xC0 = PROTOCOL_VERSION then
    if byteAt dat 1 = OP_INTERRUPT_TRANSFER then .interrupt
    else if byteAt dat 1 = OP_EVT_NOTIFY then .event
    else .reply
  else .drop

/-- The worker's branch depends on the report alone, if it brings both bytes. -/
theorem route_overlay {src : List Byte} (dst : List Byte) (h : 2 ≤ src.length) :
    route (overlay src dst) = route src := by
  simp only [route, byteAt_overlay (show 0 < src.length by omega),
    byteAt_overlay (show 1 < src.length by omega)]

/-- A packet of another version is dropped, however short. -/
theorem route_overlay_drop {src : List Byte} (dst : List Byte) (h : 0 < src.length)
    (hv : byteAt src 0 &&& 0xC0 ≠ PROTOCOL_VERSION) : route (overlay src dst) = .drop := by
  rw [route, byteAt_overlay h, if_neg hv]

/-! ### Requests -/

/-- The two bytes of an id in a request. -/
def idBytes (id : AttId) : List Byte := [((id &&& 0xFF00) >>> 8).setWidth 8, (id &&& 0xFF).setWidth 8]

/-- The bytes `readAttribute` hands to the device. -/
def readFrame (att : Attribute) : List Byte :=
  [PROTOCOL_VERSION + 4, OP_ATT_VALUE_GET] ++ idBytes att.getAttid

/-- The bytes `writeAttribute` hands to the device. -/
def writeFrame (att : Attribute) : List Byte :=
  [PROTOCOL_VERSION + 4 + att.getValueLength, OP_ATT_VALUE_SET] ++ idBytes att.getAttid ++
    att.getValueStr.1.take att.getValueLength.toNat

/-! ### Replies -/

/-- What `readAttribute` makes of the packet it dequeues: its result, and the
attribute after it. -/
def readReply (rcvp : TbiPacket) (att : Attribute) : Bool × Attribute :=
  if byteAt rcvp.dat 0 &&& 0xC0 = PROTOCOL_VERSION ∧ byteAt rcvp.dat 1 = OP_ATT_VALUE_GET ∧
      byteAt rcvp.dat 2 = RC_OK then
    att.onValue fun v => v.setValueBytes (rcvp.dat.drop 3) ((byteAt rcvp.dat 0 &&& 0x3F) - 3)
  else (true, att)

/-- What `writeAttribute` makes of the packet it dequeues. -/
def writeReply (rcvp : TbiPacket) : Bool :=
  if byteAt rcvp.dat 0 = PROTOCOL_VERSION + 3 ∧ byteAt rcvp.dat 1 = OP_ATT_VALUE_SET ∧
      byteAt rcvp.dat 2 = RC_OK then false
  else true

/-- A request of the service: its operation, and the attribute it is for. -/
inductive Request
  | read (att : Attribute)
  | write (att : Attribute)
  deriving DecidableEq

namespace Request

/-- The bytes the request hands to the device. -/
def frame : Request → List Byte
  | read att => readFrame att
  | write att => writeFrame att

/-- The result of the call, and the caller's attribute after it, when it has
dequeued `rcvp`. -/
def finish (rcvp : TbiPacket) : Request → Bool × Attribute
  | read att => readReply rcvp att
  | write att => (writeReply rcvp, att)

end Request

theorem length_readFrame (att : Attribute) : (readFrame att).length = 4 := rfl

theorem length_writeFrame (att : Attribute) : (writeFrame att).length = 4 + att.datlen.toNat := by
  have h := att.fits
  have hs := att.size
  simp only [writeFrame, idBytes, Attvalue.getValueStr, Attvalue.getValueLength, List.length_append,
    List.length_cons, List.length_nil, List.length_take, List.length_set, hs]
  omega

/-- Every request fits in a report. -/
theorem length_frame (r : Request) : r.frame.length ≤ BUF_LEN - 1 := by
  cases r with
  | read att => rw [Request.frame, length_readFrame]; decide
  | write att =>
    have h := att.fits
    rw [Request.frame, length_writeFrame]
    simp only [VALUE_LEN, BUF_LEN] at *
    omega

end ToolbitSdk
