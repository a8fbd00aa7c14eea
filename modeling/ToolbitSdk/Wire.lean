/-
# The report on the wire

`readAttribute` and `writeAttribute` fill a local packet, and
`TbiDevice::write` copies as much of it as it is told to a local buffer,
behind a report number of 0, and hands all `BUF_LEN` bytes of that buffer to
`hid_write`. Both locals start with what was on the stack, here a memory by
addresses.

What is sent is the frame, and then what the stack held
(`TbiDevice.writeOn_eq`). It is a function of the request only where nothing
is sent or the frame fills the report, which no request does; and the copy
comes before the check of its length (`WireCall.wire_lawful_iff`).
-/
import ToolbitSdk.Lib.Memory
import ToolbitSdk.Service

namespace ToolbitSdk

open Bytes Memory

/-! ### The packet -/

namespace Request

/-- The assignments to `pckt.dat`, in order. -/
def fill : Request → List (ℕ × Byte)
  | .read att =>
    [(0, PROTOCOL_VERSION + 4), (1, OP_ATT_VALUE_GET), (2, ((att.getAttid &&& 0xFF00) >>> 8).setWidth 8),
      (3, (att.getAttid &&& 0xFF).setWidth 8)]
  | .write att =>
    [(0, PROTOCOL_VERSION + 4 + att.getValueLength), (1, OP_ATT_VALUE_SET),
      (2, ((att.getAttid &&& 0xFF00) >>> 8).setWidth 8), (3, (att.getAttid &&& 0xFF).setWidth 8)] ++
      span 4 (att.getValueStr.1.take att.getValueLength.toNat)

/-- The length handed to `TbiDevice::write`. -/
def num : Request → ℕ
  | .read _ => 4
  | .write att => 4 + att.getValueLength.toNat

theorem fill_eq (r : Request) : r.fill = span 0 r.frame := by
  cases r <;> rfl

theorem num_eq (r : Request) : r.num = r.frame.length := by
  cases r with
  | read att => rfl
  | write att => exact (length_writeFrame att).symm

/-- The bytes that are handed on are the frame, on any memory. -/
theorem window_fill (r : Request) (pckt : ℕ → Byte) :
    window (poke pckt r.fill) 0 r.num = r.frame := by
  rw [fill_eq, num_eq, window_poke_span pckt 0 (le_refl _), overlay, List.drop_eq_nil_of_le (by rw [length_window]),
    List.append_nil]

/-- No frame fills a report. -/
theorem length_frame_lt (r : Request) : r.frame.length < BUF_LEN - 1 := by
  cases r with
  | read att => rw [frame, length_readFrame]; decide
  | write att =>
    have h := att.fits
    rw [frame, length_writeFrame]
    simp only [VALUE_LEN, BUF_LEN] at *
    omega

end Request

/-! ### The buffer -/

namespace TbiDevice

/-- The writes of `TbiDevice::write` around `buf`. -/
def bufWrites (sndbuf : List Byte) : List (ℕ × Byte) := (0, 0x0) :: span 1 sndbuf

/-- `TbiDevice::write(sndbuf, num)`, where `buf` is in `stack`: its result,
and what it hands to `hid_write`. -/
def writeOn (d : TbiDevice) (stack : ℕ → Byte) (sndbuf : List Byte) : Bool × Option (List Byte) :=
  let buf := poke stack (bufWrites sndbuf)
  if !d.isOpen || sndbuf.length > BUF_LEN - 1 then (true, none) else (false, some (window buf 0 BUF_LEN))

variable (d : TbiDevice) (stack : ℕ → Byte)

/-- Its result is that of the service's model. -/
theorem writeOn_fst (sndbuf : List Byte) : (d.writeOn stack sndbuf).1 = d.write sndbuf := by
  rw [writeOn, write]
  by_cases h : (!d.isOpen || decide (sndbuf.length > BUF_LEN - 1)) = true
  · rw [if_pos h]
    exact h.symm
  · rw [if_neg h]
    exact (Bool.eq_false_iff.mpr h).symm

/-- The report: the number, the frame and the stack. -/
theorem window_buf {sndbuf : List Byte} (h : sndbuf.length ≤ BUF_LEN - 1) :
    window (poke stack (bufWrites sndbuf)) 0 BUF_LEN =
      0 :: sndbuf ++ window stack (1 + sndbuf.length) (BUF_LEN - 1 - sndbuf.length) := by
  have hw : bufWrites sndbuf = span 0 (0 :: sndbuf) := rfl
  have hlen : (0 :: sndbuf).length ≤ BUF_LEN := by
    rw [List.length_cons]
    simp only [BUF_LEN] at *
    omega
  rw [hw, window_poke_span stack 0 hlen, overlay, drop_window, List.length_cons]
  congr 2
  · omega
  · omega

theorem writeOn_eq (sndbuf : List Byte) : d.writeOn stack sndbuf =
    if d.isOpen = true ∧ sndbuf.length ≤ BUF_LEN - 1 then
      (false, some (0 :: sndbuf ++ window stack (1 + sndbuf.length) (BUF_LEN - 1 - sndbuf.length)))
    else (true, none) := by
  rw [writeOn]
  by_cases ho : d.isOpen = true
  · by_cases hl : sndbuf.length ≤ BUF_LEN - 1
    · rw [if_neg (by simp [ho, hl]), if_pos ⟨ho, hl⟩, window_buf stack hl]
    · rw [if_pos (by simp [ho]; omega), if_neg fun h => hl h.2]
  · rw [if_pos (by simp [ho]), if_neg fun h => ho h.1]

/-- What is sent does not depend on the stack exactly when nothing is or the
frame fills the report. -/
theorem writeOn_const_iff (sndbuf : List Byte) :
    (∀ stack stack', d.writeOn stack sndbuf = d.writeOn stack' sndbuf) ↔
    d.isOpen = false ∨ BUF_LEN - 1 ≤ sndbuf.length := by
  by_cases hs : d.isOpen = true ∧ sndbuf.length < BUF_LEN - 1
  · refine iff_of_false (fun h => ?_) ?_
    · -- two stacks that differ right behind the frame
      have h01 := h (fun _ => 0) (fun _ => 1)
      rw [writeOn_eq, writeOn_eq, if_pos ⟨hs.1, hs.2.le⟩, if_pos ⟨hs.1, hs.2.le⟩, Prod.mk.injEq, Option.some_inj,
        List.append_cancel_left_eq] at h01
      have hpos : 0 < BUF_LEN - 1 - sndbuf.length := by omega
      have hat := congrArg (·[0]?) h01.2
      simp only [getElem?_window, hpos, ↓reduceIte, Option.some_inj] at hat
      exact absurd hat (by decide)
    · rintro (hc | hl)
      · rw [hs.1] at hc
        cases hc
      · omega
  · refine iff_of_true (fun stack stack' => ?_) ?_
    · rw [writeOn_eq, writeOn_eq]
      by_cases h : d.isOpen = true ∧ sndbuf.length ≤ BUF_LEN - 1
      · have hz : BUF_LEN - 1 - sndbuf.length = 0 := by
          by_contra hne
          exact hs ⟨h.1, by omega⟩
        rw [if_pos h, if_pos h, hz]
        rfl
      · rw [if_neg h, if_neg h]
    · by_cases ho : d.isOpen = true
      · exact .inr (by by_contra hne; exact hs ⟨ho, by omega⟩)
      · exact .inl (Bool.not_eq_true _ ▸ ho)

/-- Every write is inside the buffer exactly when the frame leaves room for
the report number. -/
theorem bufWrites_lt_iff (sndbuf : List Byte) :
    (∀ w ∈ bufWrites sndbuf, w.1 < BUF_LEN) ↔ sndbuf.length ≤ BUF_LEN - 1 := by
  rw [show bufWrites sndbuf = span 0 (0 :: sndbuf) from rfl, span_lt_iff, Nat.zero_add]
  simp only [BUF_LEN]
  omega

end TbiDevice

/-! ### What a request sends -/

/-- The report of a request, where the packet is in `pckt` and the buffer in
`stack`; none is sent unless the device is open. -/
def Request.send (r : Request) (d : TbiDevice) (pckt stack : ℕ → Byte) : Option (List Byte) :=
  if d.isOpen then (d.writeOn stack (window (poke pckt r.fill) 0 r.num)).2 else none

/-- Any two memories give the same report: the number 0, the frame, and a
tail. -/
structure Request.Determined (d : TbiDevice) (r : Request) : Prop where
  same : ∀ pckt stack pckt' stack', r.send d pckt stack = r.send d pckt' stack'
  report : ∃ tail, ∀ pckt stack, ∀ dat ∈ r.send d pckt stack, dat = 0 :: r.frame ++ tail

/-- A frame of `num` bytes for `TbiDevice::write`, `num` a `uint8_t`. -/
abbrev Sndbuf := { bs : List Byte // bs.length < 2 ^ 8 }

/-- No byte is written outside the buffer, and a frame that does not fit a
report is refused with nothing sent. -/
structure TbiDevice.Bounded (d : TbiDevice) (sndbuf : List Byte) : Prop where
  inside : ∀ w ∈ bufWrites sndbuf, w.1 < BUF_LEN
  refused : BUF_LEN - 1 < sndbuf.length → ∀ stack, d.writeOn stack sndbuf = (true, none)

/-- A request of the service, or a call of `TbiDevice::write`. -/
inductive WireCall
  | request (r : Request)
  | write (sndbuf : Sndbuf)

namespace WireCall

def Lawful (d : TbiDevice) : WireCall → Prop
  | .request r => r.Determined d
  | .write sndbuf => d.Bounded sndbuf.1

/-- The request comes to a device that is not open; the frame fits. -/
def Sound (d : TbiDevice) : WireCall → Prop
  | .request _ => d.isOpen = false
  | .write sndbuf => sndbuf.1.length ≤ BUF_LEN - 1

/-- A request on an open device sends what its frame and the stack are. -/
theorem send_open (r : Request) {d : TbiDevice} (h : d.isOpen = true) (pckt stack : ℕ → Byte) :
    r.send d pckt stack = (d.writeOn stack r.frame).2 := by
  rw [Request.send, if_pos h, r.window_fill]

theorem determined_iff (r : Request) (d : TbiDevice) : r.Determined d ↔ d.isOpen = false := by
  constructor
  · intro hd
    by_contra ho
    have ho' : d.isOpen = true := Bool.not_eq_false _ ▸ ho
    have hlt := r.length_frame_lt
    have hconst : ∀ stack stack', d.writeOn stack r.frame = d.writeOn stack' r.frame := by
      intro stack stack'
      have hs := hd.same (fun _ => 0) stack (fun _ => 0) stack'
      rw [send_open r ho', send_open r ho'] at hs
      refine Prod.ext ?_ hs
      rw [d.writeOn_fst, d.writeOn_fst]
    rcases (d.writeOn_const_iff r.frame).mp hconst with hc | hl
    · exact ho hc
    · omega
  · intro hc
    have hnone : ∀ pckt stack, r.send d pckt stack = none := by
      intro pckt stack
      rw [Request.send, hc, if_neg Bool.false_ne_true]
    refine ⟨fun pckt stack pckt' stack' => by rw [hnone, hnone], [], fun pckt stack dat hdat => ?_⟩
    rw [hnone] at hdat
    cases hdat

/-- A frame that does not fit is refused, after the copy. -/
theorem bounded_iff (d : TbiDevice) (sndbuf : List Byte) :
    d.Bounded sndbuf ↔ sndbuf.length ≤ BUF_LEN - 1 := by
  rw [← TbiDevice.bufWrites_lt_iff]
  refine ⟨fun h => h.inside, fun h => ⟨h, fun hlt stack => ?_⟩⟩
  rw [d.writeOn_eq, if_neg fun hh => by omega]

/-- **The report on the wire.** A request's report is determined by the
request exactly when none is sent, and a copy stays in the buffer, with a
frame that is too long refused, exactly when the frame fits. -/
theorem wire_lawful_iff (d : TbiDevice) (c : WireCall) : c.Lawful d ↔ c.Sound d := by
  rcases c with r | sndbuf
  · exact determined_iff r d
  · exact bounded_iff d sndbuf.1

/-- Reading an attribute of an open device. -/
theorem request_leaks : ¬ ∀ (d : TbiDevice) (c : WireCall), c.Lawful d := by
  intro h
  have hd : (Request.read (.blank 0)).Determined ⟨some ⟨0, []⟩⟩ := h ⟨some ⟨0, []⟩⟩ (.request (.read (.blank 0)))
  rw [determined_iff] at hd
  exact absurd hd (by decide)

end WireCall

end ToolbitSdk
