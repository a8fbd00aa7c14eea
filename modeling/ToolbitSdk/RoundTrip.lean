/-
# Set, write, read back

A client sets an attribute by any calls of `setValue`, writes it with
`writeAttribute` and reads it into another attribute of the same id with
`readAttribute`. On a device that accepts both, the second attribute has the
value of the first, whatever it held before, and the getter of the width
that was set returns the number that was set (`round_trip`).

The request is legal for every attribute, since no value is longer than
`VALUE_LEN`: its bytes fit a report, and its length does not carry into the
version bits (`Attribute.Framed`).
-/
import ToolbitSdk.Transaction

namespace ToolbitSdk

open Bytes TbiService

/-! ### Calls of setValue -/

/-- A call of one of the twelve overloads of `setValue`. -/
inductive SetCall
  | int8 (i : BitVec 8)
  | uint8 (i : BitVec 8)
  | uint16 (i : BitVec 16)
  | int16 (i : BitVec 16)
  | uint32 (i : BitVec 32)
  | int32 (i : BitVec 32)
  | uint64 (i : BitVec 64)
  | int64 (i : BitVec 64)
  | float (f : BitVec 32)
  | double (d : BitVec 64)
  | str (mem : List Byte)
  | bytes (mem : List Byte) (len : Byte)

namespace SetCall

def apply (a : Attvalue) : SetCall → Bool × Attvalue
  | int8 i => a.setValueInt8 i
  | uint8 i => a.setValueUint8 i
  | uint16 i => a.setValueUint16 i
  | int16 i => a.setValueInt16 i
  | uint32 i => a.setValueUint32 i
  | int32 i => a.setValueInt32 i
  | uint64 i => a.setValueUint64 i
  | int64 i => a.setValueInt64 i
  | float f => a.setValueFloat f
  | double d => a.setValueDouble d
  | str mem => a.setValueStr mem
  | bytes mem len => a.setValueBytes mem len

/-- The value is the one the call set: the getter of the same width returns
the number, the bytes are those of the string or those at the pointer. -/
def Shown (a : Attvalue) : SetCall → Prop
  | int8 i => a.getValueInt8 = i
  | uint8 i => a.getValueUint8 = i
  | uint16 i => a.getValueUint16 = i
  | int16 i => a.getValueInt16 = i
  | uint32 i => a.getValueUint32 = i
  | int32 i => a.getValueInt32 = i
  | uint64 i => a.getValueUint64 = i
  | int64 i => a.getValueInt64 = i
  | float f => a.getValueFloat = f
  | double d => a.getValueDouble = d
  | str mem => a.value = cstr mem
  | bytes mem len => len.toNat ≤ mem.length → a.value = mem.take len.toNat

end SetCall

/-- An attribute after some calls, and the last of them that it took. -/
def setAll (a : Attribute) (calls : List SetCall) : Attribute × Option SetCall :=
  calls.foldl (fun s c => ((s.1.onValue c.apply).2, if (s.1.onValue c.apply).1 then s.2 else some c)) (a, none)

/-! ### The last call shows -/

namespace Attvalue

/-- A value of the bytes of a number is that number to the getter. -/
theorem getNum_of_value {n : ℕ} {a : Attvalue} {v : BitVec (8 * n)} (h : a.value = leBytes n v.toNat) :
    a.getNum n = v := by
  have hlen : a.datlen.toNat = n := by rw [← length_value, h, length_leBytes]
  have hval : a.dat.take n = a.value := by rw [value, hlen]
  rw [getNum, hval, h]
  exact leWord_leBytes v

theorem value_setValueStr {a a' : Attvalue} {mem : List Byte} (h : a.setValueStr mem = (false, a')) :
    a'.value = cstr mem := by
  unfold setValueStr at h
  split at h
  · rename_i hlt
    have hn := toNat_length hlt.le
    cases h
    simp only [value, store_dat, store_datlen, hn]
    rw [take_overlay _ (by rw [List.length_append]; omega), List.take_left]
  · cases h

end Attvalue

namespace SetCall

/-- A call that is refused leaves the value. -/
theorem apply_refused {a : Attvalue} {c : SetCall} (h : (c.apply a).1 = true) :
    (c.apply a).2 = a := by
  cases c with
  | str mem =>
    by_cases hl : (cstr mem).length < VALUE_LEN
    · rw [apply, Attvalue.setValueStr, dif_pos hl] at h
      cases h
    · rw [apply, Attvalue.setValueStr, dif_neg hl]
  | bytes mem len =>
    by_cases hl : len.toNat ≤ VALUE_LEN
    · rw [apply, Attvalue.setValueBytes, dif_pos hl] at h
      cases h
    · rw [apply, Attvalue.setValueBytes, dif_neg hl]
  | _ => cases h

/-- A number set in `a₀` is seen in every attribute with the same value. -/
theorem getNum_of_setNum {n : ℕ} (hn : n ≤ 8) {a₀ a b : Attvalue} {v : BitVec (8 * n)}
    (h : a₀.setNum n v.toNat hn = (false, a)) (hv : b.value = a.value) : b.getNum n = v := by
  have ha : a.value = leBytes n v.toNat := by
    rw [← Attvalue.value_setNum a₀ n v.toNat hn, h]
  exact Attvalue.getNum_of_value (hv.trans ha)

/-- What a call has set shows in every attribute with the same value. -/
theorem shown_of_value {c : SetCall} {a₀ a b : Attvalue} (h : c.apply a₀ = (false, a))
    (hv : b.value = a.value) : c.Shown b := by
  cases c with
  | int8 i => exact getNum_of_setNum (n := 1) (by decide) h hv
  | uint8 i => exact getNum_of_setNum (n := 1) (by decide) h hv
  | uint16 i => exact getNum_of_setNum (n := 2) (by decide) h hv
  | int16 i => exact getNum_of_setNum (n := 2) (by decide) h hv
  | uint32 i => exact getNum_of_setNum (n := 4) (by decide) h hv
  | int32 i => exact getNum_of_setNum (n := 4) (by decide) h hv
  | uint64 i => exact getNum_of_setNum (n := 8) (by decide) h hv
  | int64 i => exact getNum_of_setNum (n := 8) (by decide) h hv
  | float f => exact getNum_of_setNum (n := 4) (by decide) h hv
  | double d => exact getNum_of_setNum (n := 8) (by decide) h hv
  | str mem => exact hv.trans (Attvalue.value_setValueStr h)
  | bytes mem len => exact fun hm => hv.trans (Attvalue.value_of_setValueBytes h hm)

end SetCall

/-- An attribute keeps its id, and holds what the last call it took has made
of it. -/
theorem setAll_spec (a : Attribute) (calls : List SetCall) : (setAll a calls).1.attid = a.attid ∧
    ∀ c, (setAll a calls).2 = some c → ∃ a₀, c.apply a₀ = (false, (setAll a calls).1.toAttvalue) := by
  unfold setAll
  refine List.foldlRecOn (motive := fun s : Attribute × Option SetCall => s.1.attid = a.attid ∧
    ∀ c, s.2 = some c → ∃ a₀, c.apply a₀ = (false, s.1.toAttvalue)) calls _ ⟨rfl, nofun⟩ ?_
  rintro ⟨b, last⟩ ⟨hid, hlast⟩ c -
  refine ⟨hid, fun c' hc' => ?_⟩
  have hval : (b.onValue c.apply).2.toAttvalue = (c.apply b.toAttvalue).2 := rfl
  cases he : (c.apply b.toAttvalue).1 with
  | true =>
    have hc' : last = some c' := by simpa [Attribute.onValue, he] using hc'
    have hsame : (b.onValue c.apply).2.toAttvalue = b.toAttvalue := hval.trans (SetCall.apply_refused he)
    obtain ⟨a₀, h0⟩ := hlast c' hc'
    exact ⟨a₀, by rw [hsame]; exact h0⟩
  | false =>
    have hc' : c = c' := by simpa [Attribute.onValue, he] using hc'
    subst hc'
    exact ⟨b.toAttvalue, Prod.ext he hval.symm⟩

/-! ### The request -/

/-- What a device reads in a report `dat` is what the attribute has: the
version, its length, its id and its value. -/
structure Attribute.Framed (a : Attribute) (dat : List Byte) : Prop where
  version : byteAt dat 0 &&& 0xC0 = PROTOCOL_VERSION
  length : (byteAt dat 0 &&& 0x3F).toNat = 4 + a.getValueLength.toNat
  op : frameOp dat = OP_ATT_VALUE_SET
  id : frameId dat = a.getAttid
  payload : framePayload dat = a.value

/-- The length byte of a write leaves the version bits alone. -/
theorem write_header {b : Byte} (h : b.toNat ≤ VALUE_LEN) :
    (PROTOCOL_VERSION + 4 + b) &&& 0xC0 = PROTOCOL_VERSION := by
  have hb : b = BitVec.ofNat 8 b.toNat := by rw [BitVec.ofNat_toNat, BitVec.setWidth_eq]
  have h' : b.toNat ≤ 32 := h
  generalize b.toNat = n at hb h'
  subst hb
  interval_cases n <;> decide

/-- So it is in every report that begins with the request, whatever the rest
of the buffer holds. -/
theorem Attribute.framed (a : Attribute) (tail : List Byte) : a.Framed (writeFrame a ++ tail) := by
  have hlen := length_writeFrame a
  have hext : writeFrame a <+: writeFrame a ++ tail := List.prefix_append _ _
  have hbyte : ∀ i < 4, byteAt (writeFrame a ++ tail) i = byteAt (writeFrame a) i := fun i hi =>
    byteAt_of_extends hext (by omega)
  have h0 := hbyte 0 (by decide)
  refine ⟨?_, ?_, ?_, ?_, ?_⟩
  · rw [h0]
    exact write_header a.fits
  · rw [h0]
    exact toNat_writeLength a.fits
  · exact hbyte 1 (by decide)
  · rw [frameId, hbyte 2 (by decide), hbyte 3 (by decide)]
    exact frameId_writeFrame a
  · have hn : (byteAt (writeFrame a) 0 &&& 0x3F).toNat - 4 = a.datlen.toNat := by
      rw [show byteAt (writeFrame a) 0 = PROTOCOL_VERSION + 4 + a.datlen from rfl, toNat_writeLength a.fits]
      omega
    have hdrop : (writeFrame a ++ tail).drop 4 = (writeFrame a).drop 4 ++ tail :=
      List.drop_append_of_le_length (by omega)
    have hle : a.datlen.toNat ≤ ((writeFrame a).drop 4).length := by
      rw [List.length_drop]
      omega
    have h := framePayload_writeFrame a
    rw [framePayload, hn] at h
    rw [framePayload, h0, hn, hdrop, List.take_append_of_le_length hle]
    exact h

/-! ### The round trip -/

/-- **What is written is read back.** -/
theorem round_trip (a₀ : Attribute) (calls : List SetCall) (b : Attribute) (hb : b.attid = a₀.attid) {d : Bank}
    (hc : d.connected = true) (hw : d.accepts d.n = true) (hr : d.accepts (d.n + 1) = true) :
    (writeFrame (setAll a₀ calls).1).length ≤ BUF_LEN - 1 ∧
    (∀ tail, (setAll a₀ calls).1.Framed (writeFrame (setAll a₀ calls).1 ++ tail)) ∧
    frameId (readFrame b) = a₀.attid ∧ ∃ d₁ b' d₂,
      writeAttribute d (setAll a₀ calls).1 = (false, d₁) ∧ readAttribute d₁ b = (false, b', d₂) ∧
        b'.getValueLength = (setAll a₀ calls).1.getValueLength ∧ b'.value = (setAll a₀ calls).1.value ∧
          ∀ c, (setAll a₀ calls).2 = some c → c.Shown b'.toAttvalue := by
  obtain ⟨hid, hlast⟩ := setAll_spec a₀ calls
  generalize hs : setAll a₀ calls = s at hid hlast
  obtain ⟨a, last⟩ := s
  have hwrite : writeAttribute d a = (false, d.tick.put a.attid a.toValue) :=
    Bank.write_accepted ⟨a, rfl⟩ hc hw
  have hread := Bank.readAttribute_accepted (d := d.tick.put a.attid a.toValue) b hc hr
  have hstored : (d.tick.put a.attid a.toValue).vals b.attid = a.toValue := by
    rw [hb, ← hid]
    exact Bank.put_vals_self ..
  rw [hstored] at hread
  have hval : (b.onValue fun v => v.setValueBytes a.toValue.bytes (BitVec.ofNat 8 a.toValue.bytes.length)).2.value =
      a.value := Attvalue.value_setValueBytes b.toAttvalue a.toValue.le
  refine ⟨length_frame (.write a), a.framed, (frameId_readFrame b).trans hb, _, _, _, hwrite, hread, ?_, hval,
    fun c hc => ?_⟩
  · have hlen := congrArg List.length hval
    rw [Attvalue.length_value, Attvalue.length_value] at hlen
    exact BitVec.eq_of_toNat_eq hlen
  · obtain ⟨v, hv⟩ := hlast c hc
    exact SetCall.shown_of_value hv hval

/-- A string, then a number, then a string that is refused; the attribute it
is read into holds a longer number. -/
theorem round_trip_number : ∃ (d₁ d₂ : Bank) (b' : Attribute),
    writeAttribute (Bank.holding fun _ => .byte 0)
      (setAll (.blank 7) [.str [0x41, 0], .uint32 0x01020304, .str (List.replicate 40 0x41)]).1 = (false, d₁) ∧
    readAttribute d₁ (setAll (.blank 7) [.uint64 0xFFFFFFFFFFFFFFFF]).1 = (false, b', d₂) ∧
    b'.getValueLength = 4 ∧ b'.getValueUint32 = 0x01020304 := by
  obtain ⟨-, -, -, d₁, b', d₂, hw, hr, hlen, -, hlast⟩ := round_trip (.blank 7)
    [.str [0x41, 0], .uint32 0x01020304, .str (List.replicate 40 0x41)]
    (setAll (.blank 7) [.uint64 0xFFFFFFFFFFFFFFFF]).1 rfl
    (d := .holding fun _ => .byte 0) rfl rfl rfl
  exact ⟨d₁, d₂, b', hw, hr, hlen.trans (by decide), hlast (.uint32 0x01020304) rfl⟩

end ToolbitSdk
