/-
# A Tbit and its board

`tbit.cpp` and `adc_hw.cpp`. A `Tbit` has three modules, the pins, the
converter and the I2C bus, each with its attributes, over one service; the
board behind it is one store of attributes (`TbitBoard`).

A driver asks only for its own attributes, so two devices that answer alike
about these are alike to it (`GpioHw.step_alike`, `I2cHw.step_alike`). That is
all that is needed of the drivers: the board is alike to a store for the pins,
and to a bus for the I2C, and each call leaves to the other modules what is
theirs. On a board that accepts every transaction the calls of the three
modules, in any order and with the inputs changing between them, return what
three models return that know nothing of each other (`Tbit.refines_modules`).
-/
import ToolbitSdk.Gpio
import ToolbitSdk.I2c

namespace ToolbitSdk

open Bytes TbiService

/-! ### Devices that are alike -/

section

variable {σ τ π π' : Type*} [Link σ π] [Link τ π']

/-- Two devices that answer alike, to reads of attributes in `reads` and
writes of attributes in `writes`, and stay related. -/
structure Alike (reads writes : AttId → Prop) (R : σ → τ → Prop) : Prop where
  read : ∀ {s t} (att : Attribute), reads att.attid → R s t →
    (readAttribute s att).1 = (readAttribute t att).1 ∧ (readAttribute s att).2.1 = (readAttribute t att).2.1 ∧
      R (readAttribute s att).2.2 (readAttribute t att).2.2
  write : ∀ {s t} (att : Attribute), writes att.attid → R s t →
    (writeAttribute s att).1 = (writeAttribute t att).1 ∧ R (writeAttribute s att).2 (writeAttribute t att).2

/-- The same result and the same object, on related devices. -/
structure Same {α β : Type*} (R : σ → τ → Prop) (x : α × β × σ) (y : α × β × τ) : Prop where
  ret : x.1 = y.1
  obj : x.2.1 = y.2.1
  dev : R x.2.2 y.2.2

variable {reads writes : AttId → Prop} {R : σ → τ → Prop} {s : σ} {t : τ}

theorem Alike.exists_read (h : Alike reads writes R) {id : AttId} (a : AttOf id) (hid : reads id) (hR : R s t) :
    ∃ status a' s' t', a.read s = (status, a', s') ∧ a.read t = (status, a', t') ∧ R s' t' := by
  obtain ⟨att, rfl⟩ := a
  obtain ⟨hret, hobj, hdev⟩ := h.read att hid hR
  refine ⟨_, _, _, _, rfl, ?_, hdev⟩
  simp only [AttOf.read, hret, hobj]

theorem Alike.exists_write (h : Alike reads writes R) {id : AttId} (a : AttOf id) (hid : writes id) (hR : R s t) :
    ∃ status s' t', writeAttribute s a.att = (status, s') ∧ writeAttribute t a.att = (status, t') ∧ R s' t' := by
  obtain ⟨hret, hdev⟩ := h.write a.att (a.attid.symm ▸ hid) hR
  exact ⟨_, _, _, rfl, Prod.ext hret.symm rfl, hdev⟩

end

namespace GpioHw

variable {σ τ π π' : Type*} [Link σ π] [Link τ π'] {base : AttId}

/-- The attributes of the pins. -/
def Owns (base id : AttId) : Prop :=
  id = base + ATT_GPIO_INOUT_MODE ∨ id = base + ATT_GPIO_PULL_UP ∨ id = base + ATT_GPIO_RW

variable {R : σ → τ → Prop} (h : Alike (Owns base) (Owns base) R) (g : GpioHw base) {s : σ} {t : τ} (hR : R s t)

include h hR

theorem pinMode_alike (pin : BitVec 8) (mode : PinMode) :
    Same R (g.pinMode s pin mode) (g.pinMode t pin mode) := by
  unfold pinMode
  split
  · exact ⟨rfl, rfl, hR⟩
  obtain ⟨status, a, s₁, t₁, hs, ht, hR₁⟩ := h.exists_read g.mAttGpioInoutMode (.inl rfl) hR
  rw [hs, ht]
  dsimp only
  split
  · exact ⟨rfl, rfl, hR₁⟩
  split
  · obtain ⟨status, s₂, t₂, hs, ht, hR₂⟩ := h.exists_write
      (a.set (·.setValueUint32 (Bits.clearBit a.getValueUint32 pin.toNat))) (.inl rfl) hR₁
    rw [hs, ht]
    exact ⟨rfl, rfl, hR₂⟩
  obtain ⟨status, u, s₂, t₂, hs, ht, hR₂⟩ := h.exists_read g.mAttGpioPullUp (.inr (.inl rfl)) hR₁
  rw [hs, ht]
  dsimp only
  split
  · exact ⟨rfl, rfl, hR₂⟩
  split
  · exact ⟨rfl, rfl, hR₂⟩
  obtain ⟨status, s₃, t₃, hs, ht, hR₃⟩ := h.exists_write
    (u.set (·.setValueUint32 (if mode = .inputPin then Bits.clearBit u.getValueUint32 pin.toNat
      else Bits.setBit u.getValueUint32 pin.toNat))) (.inr (.inl rfl)) hR₂
  rw [hs, ht]
  dsimp only
  split
  · exact ⟨rfl, rfl, hR₃⟩
  · obtain ⟨status, s₄, t₄, hs, ht, hR₄⟩ := h.exists_write
      (a.set (·.setValueUint32 (Bits.setBit a.getValueUint32 pin.toNat))) (.inl rfl) hR₃
    rw [hs, ht]
    exact ⟨rfl, rfl, hR₄⟩

theorem write_alike (dat : BitVec 32) : Same R (g.write s dat) (g.write t dat) := by
  unfold write
  dsimp only
  obtain ⟨status, s₁, t₁, hs, ht, hR₁⟩ :=
    h.exists_write (g.mAttGpioRw.set (·.setValueUint32 dat)) (.inr (.inr rfl)) hR
  rw [hs, ht]
  exact ⟨rfl, rfl, hR₁⟩

theorem read_alike : Same R (g.read s) (g.read t) := by
  unfold read
  obtain ⟨status, a, s₁, t₁, hs, ht, hR₁⟩ := h.exists_read g.mAttGpioRw (.inr (.inr rfl)) hR
  rw [hs, ht]
  dsimp only
  split
  · exact ⟨rfl, rfl, hR₁⟩
  · exact ⟨rfl, rfl, hR₁⟩

theorem digitalWrite_alike (pin : BitVec 8) (val : Bool) :
    Same R (g.digitalWrite s pin val) (g.digitalWrite t pin val) := by
  obtain ⟨-, hobj, hdev⟩ := read_alike h g hR
  unfold digitalWrite
  dsimp only
  rw [hobj]
  exact write_alike h _ hdev _

theorem digitalRead_alike (pin : BitVec 8) :
    Same R (g.digitalRead s pin) (g.digitalRead t pin) := by
  obtain ⟨hret, hobj, hdev⟩ := read_alike h g hR
  unfold digitalRead
  dsimp only
  rw [hret]
  exact ⟨rfl, hobj, hdev⟩

theorem step_alike (c : Call) : Same R (step (g, s) c) (step (g, t) c) := by
  cases c with
  | pinMode pin mode =>
    obtain ⟨hret, hobj, hdev⟩ := pinMode_alike h g hR (pinNo pin) mode
    exact ⟨congrArg Ret.flag hret, hobj, hdev⟩
  | write dat =>
    obtain ⟨hret, hobj, hdev⟩ := write_alike h g hR dat
    exact ⟨congrArg Ret.flag hret, hobj, hdev⟩
  | read =>
    obtain ⟨hret, hobj, hdev⟩ := read_alike h g hR
    exact ⟨congrArg (fun w : BitVec 32 => Ret.bits fun i => w.getLsbD i) hret, hobj, hdev⟩
  | digitalWrite pin val =>
    obtain ⟨hret, hobj, hdev⟩ := digitalWrite_alike h g hR (pinNo pin) val
    exact ⟨congrArg Ret.flag hret, hobj, hdev⟩
  | digitalRead pin =>
    obtain ⟨hret, hobj, hdev⟩ := digitalRead_alike h g hR (pinNo pin)
    exact ⟨congrArg Ret.flag hret, hobj, hdev⟩

end GpioHw

namespace I2cHw

variable {σ τ π π' : Type*} [Link σ π] [Link τ π'] {base : AttId}

/-- The attributes of the bus that are read. -/
def Reads (base id : AttId) : Prop := id = base + ATT_I2C_RW_2BYTE ∨ id = base + ATT_I2C_RW_3BYTE

/-- And those that are written. -/
def Writes (base id : AttId) : Prop :=
  id = base + ATT_I2C_DEVICE_ADDR ∨ id = base + ATT_I2C_REG_ADDR ∨ id = base + ATT_I2C_RW_2BYTE

variable {R : σ → τ → Prop} (h : Alike (Reads base) (Writes base) R) (i : I2cHw base) {s : σ} {t : τ}
  (hR : R s t)

include h hR

theorem setI2cDeviceAddr_alike (a : BitVec 8) :
    Same R (i.setI2cDeviceAddr s a) (i.setI2cDeviceAddr t a) := by
  unfold setI2cDeviceAddr
  dsimp only
  obtain ⟨status, s₁, t₁, hs, ht, hR₁⟩ :=
    h.exists_write (i.mAttI2cDeviceAddr.set (·.setValueUint8 a)) (.inl rfl) hR
  rw [hs, ht]
  exact ⟨rfl, rfl, hR₁⟩

theorem write2byte_alike (r : BitVec 8) (v : BitVec 16) :
    Same R (i.write2byte s r v) (i.write2byte t r v) := by
  unfold write2byte
  dsimp only
  obtain ⟨status, s₁, t₁, hs, ht, hR₁⟩ := h.exists_write (i.mAttI2cRegAddr.set (·.setValueUint8 r))
    (.inr (.inl rfl)) hR
  rw [hs, ht]
  dsimp only
  split
  · exact ⟨rfl, rfl, hR₁⟩
  · obtain ⟨status, s₂, t₂, hs, ht, hR₂⟩ := h.exists_write (i.mAttI2cRw2Byte.set (·.setValueUint16 v))
      (.inr (.inr rfl)) hR₁
    rw [hs, ht]
    exact ⟨rfl, rfl, hR₂⟩

theorem read2byte_alike (r : BitVec 8) : Same R (i.read2byte s r) (i.read2byte t r) := by
  unfold read2byte
  dsimp only
  obtain ⟨status, s₁, t₁, hs, ht, hR₁⟩ := h.exists_write (i.mAttI2cRegAddr.set (·.setValueUint8 r))
    (.inr (.inl rfl)) hR
  rw [hs, ht]
  dsimp only
  split
  · exact ⟨rfl, rfl, hR₁⟩
  · obtain ⟨status, a, s₂, t₂, hs, ht, hR₂⟩ := h.exists_read i.mAttI2cRw2Byte (.inl rfl) hR₁
    rw [hs, ht]
    dsimp only
    split
    · exact ⟨rfl, rfl, hR₂⟩
    · exact ⟨rfl, rfl, hR₂⟩

theorem read3byte_alike (r : BitVec 8) : Same R (i.read3byte s r) (i.read3byte t r) := by
  unfold read3byte
  dsimp only
  obtain ⟨status, s₁, t₁, hs, ht, hR₁⟩ := h.exists_write (i.mAttI2cRegAddr.set (·.setValueUint8 r))
    (.inr (.inl rfl)) hR
  rw [hs, ht]
  dsimp only
  split
  · exact ⟨rfl, rfl, hR₁⟩
  · obtain ⟨status, a, s₂, t₂, hs, ht, hR₂⟩ := h.exists_read i.mAttI2cRw3Byte (.inr rfl) hR₁
    rw [hs, ht]
    dsimp only
    split
    · exact ⟨rfl, rfl, hR₂⟩
    · exact ⟨rfl, rfl, hR₂⟩

theorem step_alike (c : Call) : Same R (step (i, s) c) (step (i, t) c) := by
  cases c with
  | setI2cDeviceAddr a =>
    obtain ⟨hret, hobj, hdev⟩ := setI2cDeviceAddr_alike h i hR a
    exact ⟨congrArg Ret.flag hret, hobj, hdev⟩
  | write2byte r v =>
    obtain ⟨hret, hobj, hdev⟩ := write2byte_alike h i hR r v
    exact ⟨congrArg Ret.flag hret, hobj, hdev⟩
  | read2byte r =>
    obtain ⟨hret, hobj, hdev⟩ := read2byte_alike h i hR r
    exact ⟨congrArg Ret.two hret, hobj, hdev⟩
  | read3byte r =>
    obtain ⟨hret, hobj, hdev⟩ := read3byte_alike h i hR r
    exact ⟨congrArg Ret.three hret, hobj, hdev⟩

end I2cHw

/-! ### The converter -/

structure AdcHw (base : AttId) where
  mAttAdcR : (i : Fin 8) → AttOf (base + BitVec.ofNat 16 i)

namespace AdcHw

variable {σ π : Type*} [Link σ π] {base : AttId}

/-- `AdcHw::AdcHw`, each attribute on memory that holds `junk`. -/
def new (junk : List Byte) (h : junk.length = VALUE_LEN + 1) (base : AttId) : AdcHw base :=
  ⟨fun _ => .new junk h _⟩

def analogRead (a : AdcHw base) (tdev : σ) (pin : BitVec 8) : BitVec 32 × AdcHw base × σ :=
  if h : 8 ≤ pin.toNat then (0xFFFFFFFF, a, tdev)
  else
    let pin : Fin 8 := ⟨pin.toNat, not_le.mp h⟩
    let (status, att, tdev) := (a.mAttAdcR pin).read tdev
    let a := { a with mAttAdcR := Function.update a.mAttAdcR pin att }
    if status then (0xFFFFFFFF, a, tdev) else ((a.mAttAdcR pin).getValueUint32, a, tdev)

end AdcHw

/-! ### The board -/

namespace Bank

/-- A read sees the value of its attribute only. -/
theorem readAttribute_congr {d : Bank} {vals : AttId → Value} (att : Attribute)
    (h : vals att.attid = d.vals att.attid) :
    (readAttribute { d with vals } att).1 = (readAttribute d att).1 ∧
      (readAttribute { d with vals } att).2.1 = (readAttribute d att).2.1 := by
  have ha := readAttribute_accepted (d := d) att
  have ha' := readAttribute_accepted (d := { d with vals }) att
  have hr := readAttribute_refused (d := d) att
  have hr' := readAttribute_refused (d := { d with vals }) att
  by_cases hc : d.connected = true
  · by_cases hn : d.accepts d.n = true
    · rw [ha hc hn, ha' hc hn]
      simp only [h, and_self]
    · rw [Bool.not_eq_true] at hn
      rw [hr hc hn, hr' hc hn]
      exact ⟨rfl, rfl⟩
  · have ho : ¬ Link.isOpen d = true := hc
    have ho' : ¬ Link.isOpen { d with vals } = true := hc
    rw [readAttribute, readAttribute, if_neg ho, if_neg ho']
    exact ⟨rfl, rfl⟩

/-- A write sees none. -/
theorem writeAttribute_congr {d : Bank} (vals : AttId → Value) (att : Attribute) :
    (writeAttribute { d with vals } att).1 = (writeAttribute d att).1 := by
  have ha := fun d' : Bank => write_accepted (d := d') (⟨att, rfl⟩ : AttOf att.attid)
  have hr := fun d' : Bank => write_refused (d := d') (⟨att, rfl⟩ : AttOf att.attid)
  have hs := fun d' : Bank => write_closed (d := d') att
  by_cases hc : d.connected = true
  · by_cases hn : d.accepts d.n = true
    · rw [ha d hc hn, ha { d with vals } hc hn]
    · rw [Bool.not_eq_true] at hn
      rw [hr d hc hn, hr { d with vals } hc hn]
  · rw [Bool.not_eq_true] at hc
    rw [hs d hc, hs { d with vals } hc]

end Bank

/-- The store of a device's attributes, those of an I2C bus at `0x1400`
among them: what is written is kept, and what goes to the bus is done. As in
an `I2cDevice`, transaction `n` succeeds if `accepts n` and has no effect
otherwise. -/
structure TbitBoard (ρ : Type) where
  dev : I2cDevice 0x1400 ρ

namespace TbitBoard

open I2cRegister

variable {ρ : Type} [I2cRegister ρ]

/-- The answers are those of an attribute store with these values. -/
def bank (b : TbitBoard ρ) : Bank := b.dev.bank

/-- An attribute is given a value. -/
def put (b : TbitBoard ρ) (id : AttId) (v : Value) : TbitBoard ρ :=
  ⟨{ b.dev with others := Function.update b.dev.others id v }⟩

/-- The board takes a value. -/
def take (b : TbitBoard ρ) (id : AttId) (v : Value) : TbitBoard ρ :=
  (⟨b.dev.take id v.bytes⟩ : TbitBoard ρ).put id v

def tick (b : TbitBoard ρ) : TbitBoard ρ := ⟨b.dev.tick⟩

/-- What a store keeps of these bytes. -/
def kept (bs : List Byte) : Value := ⟨bs.take VALUE_LEN, List.length_take_le VALUE_LEN bs⟩

theorem kept_value (att : Attribute) : kept att.value = att.toValue :=
  Value.ext (List.take_of_length_le att.toValue.le)

def transact (b : TbitBoard ρ) (frame : List Byte) : TbiPacket × TbitBoard ρ :=
  ((b.bank.transact frame).1,
    (if b.dev.accepts b.dev.n ∧ frameOp frame = OP_ATT_VALUE_SET then
      b.take (frameId frame) (kept (framePayload frame))
    else b).tick)

instance : Link (TbitBoard ρ) Unit where
  isOpen b := b.dev.connected
  openDevice b _ := (b.dev.connected, ⟨{ b.dev with connected := true }⟩)
  closeDevice b := ⟨{ b.dev with connected := false }⟩
  transact := transact

/-- Not an attribute of the bus. -/
def Outside (id : AttId) : Prop :=
  id ≠ 0x1400 + ATT_I2C_DEVICE_ADDR ∧ id ≠ 0x1400 + ATT_I2C_REG_ADDR ∧ id ≠ 0x1400 + ATT_I2C_RW_2BYTE ∧
    id ≠ 0x1400 + ATT_I2C_RW_3BYTE

section

variable (b : TbitBoard ρ) (att : Attribute)

/-- A read is the store's, and leaves the board. -/
theorem readAttribute_eq : readAttribute b att = ((readAttribute b.bank att).1, (readAttribute b.bank att).2.1,
    if b.dev.connected = true then b.tick else b) := by
  have hop : ¬ (b.dev.accepts b.dev.n = true ∧ frameOp (readFrame att) = OP_ATT_VALUE_SET) := fun hh => by
    have hget : frameOp (readFrame att) = OP_ATT_VALUE_GET := rfl
    rw [hget] at hh
    exact absurd hh.2 (by decide)
  by_cases hc : b.dev.connected = true
  · have ho : Link.isOpen b = true := hc
    have hob : Link.isOpen b.bank = true := hc
    have ht : Link.transact b (readFrame att) = ((Link.transact b.bank (readFrame att)).1, b.tick) := by
      show b.transact (readFrame att) = _
      rw [transact, if_neg hop]
      rfl
    rw [readAttribute_of_transact att ho ht, readAttribute, if_pos hob, if_pos hc]
  · have ho : ¬ Link.isOpen b = true := hc
    have hob : ¬ Link.isOpen b.bank = true := hc
    rw [readAttribute, readAttribute, if_neg ho, if_neg hob, if_neg hc]

/-- A write is the store's, and gives the board the value if it is
accepted. -/
theorem writeAttribute_eq : writeAttribute b att = ((writeAttribute b.bank att).1,
    if b.dev.connected = true then
      (if b.dev.accepts b.dev.n = true then b.take att.attid att.toValue else b).tick
    else b) := by
  have hset : frameOp (writeFrame att) = OP_ATT_VALUE_SET := frameOp_writeFrame att
  by_cases hc : b.dev.connected = true
  · have ho : Link.isOpen b = true := hc
    have hob : Link.isOpen b.bank = true := hc
    have ht : Link.transact b (writeFrame att) = ((Link.transact b.bank (writeFrame att)).1,
        (if b.dev.accepts b.dev.n = true then b.take att.attid att.toValue else b).tick) := by
      show b.transact (writeFrame att) = _
      rw [transact, hset, frameId_writeFrame, framePayload_writeFrame, kept_value]
      simp only [and_true]
      rfl
    rw [writeAttribute_of_transact att ho ht, writeAttribute, if_pos hob, if_pos hc]
  · have ho : ¬ Link.isOpen b = true := hc
    have hob : ¬ Link.isOpen b.bank = true := hc
    rw [writeAttribute, writeAttribute, if_neg ho, if_neg hob, if_neg hc]

end

/-! Only the attributes of the bus do anything but keep a value. -/

theorem take_of_outside (b : TbitBoard ρ) {id : AttId} (v : Value) (h : Outside id) :
    b.take id v = b.put id v := by
  rw [take, I2cDevice.take, if_neg h.1, if_neg h.2.1, if_neg h.2.2.1]

theorem bank_put (b : TbitBoard ρ) {id : AttId} (v : Value) (h : Outside id) :
    (b.put id v).bank = b.bank.put id v := by
  have hvals : (b.put id v).dev.vals = Function.update b.dev.vals id v := by
    funext i
    by_cases hi : i = id
    · subst hi
      rw [Function.update_self, I2cDevice.vals, if_neg h.2.2.1, if_neg h.2.2.2]
      exact Function.update_self ..
    · rw [Function.update_of_ne hi]
      show (if _ then _ else if _ then _ else Function.update b.dev.others id v i) = _
      rw [Function.update_of_ne hi]
      rfl
  rw [bank, I2cDevice.bank, hvals]
  rfl

theorem vals_of_outside (b : TbitBoard ρ) {id : AttId} (h : Outside id) :
    b.bank.vals id = b.dev.others id := by
  show b.dev.vals id = _
  rw [I2cDevice.vals, if_neg h.2.2.1, if_neg h.2.2.2]

/-- What writes of the attributes in `W` leave. -/
structure Rest (W : AttId → Prop) (b₀ b : TbitBoard ρ) : Prop where
  slave : b.dev.slave = b₀.dev.slave
  mem : b.dev.mem = b₀.dev.mem
  others : ∀ id, ¬ W id → b.dev.others id = b₀.dev.others id

/-- To a driver of attributes that are not the bus's the board is a store. -/
theorem alike_bank {W : AttId → Prop} (hW : ∀ id, W id → Outside id) (b₀ : TbitBoard ρ) :
    Alike W W fun (b : TbitBoard ρ) d => b.bank = d ∧ Rest W b₀ b where
  read := by
    rintro b d att - ⟨rfl, hrest⟩
    refine ⟨by rw [readAttribute_eq], by rw [readAttribute_eq], ?_⟩
    rw [readAttribute_eq]
    by_cases hc : b.dev.connected = true
    · rw [if_pos hc, Bank.readAttribute_link att hc]
      exact ⟨rfl, hrest.slave, hrest.mem, hrest.others⟩
    · have hob : ¬ Link.isOpen b.bank = true := hc
      rw [if_neg hc, readAttribute, if_neg hob]
      exact ⟨rfl, hrest⟩
  write := by
    rintro b d att hid ⟨rfl, hrest⟩
    refine ⟨by rw [writeAttribute_eq], ?_⟩
    rw [writeAttribute_eq]
    by_cases hc : b.dev.connected = true
    · rw [if_pos hc]
      by_cases ha : b.dev.accepts b.dev.n = true
      · rw [if_pos ha, take_of_outside b _ (hW _ hid), Bank.write_accepted (⟨att, rfl⟩ : AttOf att.attid) hc ha]
        refine ⟨congrArg Bank.tick (bank_put b _ (hW _ hid)), hrest.slave, hrest.mem, fun id hn => ?_⟩
        have hne : id ≠ att.attid := fun he => hn (he ▸ hid)
        exact (Function.update_of_ne hne _ _).trans (hrest.others id hn)
      · rw [if_neg ha, Bank.write_refused (⟨att, rfl⟩ : AttOf att.attid) hc (Bool.not_eq_true _ ▸ ha)]
        exact ⟨rfl, hrest.slave, hrest.mem, hrest.others⟩
    · rw [if_neg hc, Bank.write_closed att (Bool.not_eq_true _ ▸ hc)]
      exact ⟨rfl, hrest⟩

/-- The bus with these values beside it. -/
def beside (d : I2cDevice 0x1400 ρ) (others : AttId → Value) : I2cDevice 0x1400 ρ :=
  { d with others }

/-- The board has this bus, and the values of `b₀` elsewhere. -/
structure OnBus (b₀ b : TbitBoard ρ) (d : I2cDevice 0x1400 ρ) : Prop where
  dev : b.dev = beside d b.dev.others
  others : ∀ id, Outside id → b.dev.others id = b₀.dev.others id

omit [I2cRegister ρ] in
theorem OnBus.connected {b₀ b : TbitBoard ρ} {d : I2cDevice 0x1400 ρ} (h : OnBus b₀ b d) :
    b.dev.connected = d.connected := by
  rw [h.dev]
  rfl

theorem OnBus.bank_eq {b₀ b : TbitBoard ρ} {d : I2cDevice 0x1400 ρ} (h : OnBus b₀ b d) :
    b.bank = { d.bank with vals := b.bank.vals } := by
  rw [bank, h.dev]
  rfl

theorem not_outside_of_writes {id : AttId} (h : I2cHw.Writes 0x1400 id) : ¬ Outside id := by
  rintro ⟨h0, h1, h2, -⟩
  exact h.elim h0 fun h => h.elim h1 h2

section

variable (d : I2cDevice 0x1400 ρ) (others : AttId → Value)

/-- The other values are not seen in a read of the bus. -/
theorem vals_beside {id : AttId} (h : I2cHw.Reads 0x1400 id) :
    (beside d others).vals id = d.vals id := by
  rcases h with rfl | rfl
  · rw [I2cDevice.vals_two, I2cDevice.vals_two]
    rfl
  · rw [I2cDevice.vals_three, I2cDevice.vals_three]
    rfl

/-- Nor changed by what the bus takes. -/
theorem take_beside (id : AttId) (v : List Byte) :
    (beside d others).take id v = beside (d.take id v) others := by
  unfold I2cDevice.take
  split_ifs <;> rfl

end

/-- To the driver of the bus the board is the bus. -/
theorem alike_bus (b₀ : TbitBoard ρ) : Alike (I2cHw.Reads 0x1400) (I2cHw.Writes 0x1400) (OnBus b₀) where
  read := by
    intro b d att hid h
    have hdev := h.dev
    have hothers := h.others
    have hv : b.bank.vals att.attid = d.bank.vals att.attid := by
      rw [bank, hdev]
      exact vals_beside d b.dev.others hid
    obtain ⟨hret, hobj⟩ := Bank.readAttribute_congr (d := d.bank) att hv
    rw [readAttribute_eq, I2cDevice.readAttribute_eq, h.connected, h.bank_eq]
    refine ⟨hret, hobj, ?_⟩
    by_cases hd : d.connected = true
    · rw [if_pos hd, if_pos hd]
      exact ⟨congrArg I2cDevice.tick hdev, hothers⟩
    · rw [if_neg hd, if_neg hd]
      exact ⟨hdev, hothers⟩
  write := by
    intro b d att hid h
    have hdev := h.dev
    have hothers := h.others
    have ha : b.dev.accepts b.dev.n = d.accepts d.n := by
      rw [hdev]
      rfl
    have htake : b.dev.take att.attid att.value = beside (d.take att.attid att.value) b.dev.others := by
      rw [hdev]
      exact take_beside d b.dev.others att.attid att.value
    rw [writeAttribute_eq, I2cDevice.writeAttribute_eq, h.connected, ha, h.bank_eq]
    refine ⟨Bank.writeAttribute_congr b.bank.vals att, ?_⟩
    by_cases hd : d.connected = true
    · rw [if_pos hd, if_pos hd]
      by_cases hn : d.accepts d.n = true
      · rw [if_pos hn, if_pos hn, take, put, show att.toValue.bytes = att.value from rfl, htake]
        refine ⟨rfl, fun id ho => ?_⟩
        have hne : id ≠ att.attid := fun he => not_outside_of_writes hid (he ▸ ho)
        exact (Function.update_of_ne hne _ _).trans (hothers id ho)
      · rw [if_neg hn, if_neg hn]
        exact ⟨congrArg I2cDevice.tick hdev, hothers⟩
    · rw [if_neg hd, if_neg hd]
      exact ⟨hdev, hothers⟩

end TbitBoard

/-! ### The device -/

structure Tbit where
  gpiohw : GpioHw 0x1200
  adchw : AdcHw 0x1300
  i2chw : I2cHw 0x1400

namespace Tbit

/-- `Tbit::Tbit`, each attribute on memory that holds `junk`. -/
def new (junk : List Byte) (h : junk.length = VALUE_LEN + 1) : Tbit :=
  ⟨.new junk h _, .new junk h _, .new junk h _⟩

/-- The methods of the modules, and what happens to the board between them:
the port or an input of the converter has another value. -/
inductive Event
  | gpio (c : GpioHw.Call)
  | analogRead (pin : BitVec 8)
  | i2c (c : I2cHw.Call)
  | port (w : BitVec 32)
  | input (pin : Fin 8) (w : BitVec 32)

inductive Ret
  | gpio (x : GpioHw.Ret)
  | analogRead (w : BitVec 32)
  | i2c (x : I2cHw.Ret)
  | nothing

/-- The attribute of an input. -/
def inputId (pin : Fin 8) : AttId := 0x1300 + BitVec.ofNat 16 pin

section

variable {ρ : Type} [I2cRegister ρ]

def step (s : Tbit × TbitBoard ρ) : Event → Ret × Tbit × TbitBoard ρ
  | .gpio c => let (x, gpiohw, b) := GpioHw.step (s.1.gpiohw, s.2) c; (.gpio x, { s.1 with gpiohw }, b)
  | .analogRead pin => let (w, adchw, b) := s.1.adchw.analogRead s.2 pin; (.analogRead w, { s.1 with adchw }, b)
  | .i2c c => let (x, i2chw, b) := I2cHw.step (s.1.i2chw, s.2) c; (.i2c x, { s.1 with i2chw }, b)
  | .port w => (.nothing, s.1, s.2.put (0x1200 + ATT_GPIO_RW) (.word w))
  | .input pin w => (.nothing, s.1, s.2.put (inputId pin) (.word w))

end

end Tbit

/-! ### The reference model -/

/-- The modules by themselves: pins, inputs, and slaves with registers. -/
structure Modules (ρ : Type) where
  pins : Pins
  inputs : Fin 8 → BitVec 32
  slave : BitVec 8
  mem : BitVec 8 → BitVec 8 → ρ

namespace Modules

variable {ρ : Type} [I2cRegister ρ]

/-- The bus, with nothing refused. -/
def bus (m : Modules ρ) : I2cBus ρ := ⟨true, m.slave, m.mem, fun _ => true, 0⟩

/-- Each event is one of a module, and the others stay as they are. -/
def step (m : Modules ρ) : Tbit.Event → Tbit.Ret × Modules ρ
  | .gpio c => let (x, pins) := m.pins.step c; (.gpio x, { m with pins })
  | .analogRead pin => (.analogRead (if h : pin.toNat < 8 then m.inputs ⟨pin.toNat, h⟩ else 0xFFFFFFFF), m)
  | .i2c c => let (x, bus) := m.bus.step c; (.i2c x, { m with slave := bus.slave, mem := bus.mem })
  | .port w => (.nothing, { m with pins := fun i => { m.pins i with level := w.getLsbD i } })
  | .input pin w => (.nothing, { m with inputs := Function.update m.inputs pin w })

end Modules

/-! ### The modules share the board -/

namespace TbitBoard

variable {ρ : Type} [I2cRegister ρ]

/-- The board accepts every transaction, and has the modules' state. -/
structure Shows (b : TbitBoard ρ) (m : Modules ρ) : Prop where
  willing : GpioHw.Willing b.bank
  pins : GpioHw.Registers 0x1200 b.bank m.pins
  inputs : ∀ pin, b.dev.others (Tbit.inputId pin) = .word (m.inputs pin)
  slave : b.dev.slave = m.slave
  mem : b.dev.mem = m.mem

theorem outside_of_owns {id : AttId} (h : GpioHw.Owns 0x1200 id) : Outside id := by
  rcases h with rfl | rfl | rfl <;> unfold Outside <;> decide

theorem outside_inputId : ∀ pin, Outside (Tbit.inputId pin) := by unfold Outside; decide

theorem not_owns_inputId : ∀ pin, ¬ GpioHw.Owns 0x1200 (Tbit.inputId pin) := by unfold GpioHw.Owns; decide

theorem inputId_injective : Function.Injective Tbit.inputId := by unfold Function.Injective; decide

section

variable {b : TbitBoard ρ} {m : Modules ρ}

omit [I2cRegister ρ] in
theorem Rest.refl (W : AttId → Prop) (b : TbitBoard ρ) : Rest W b b := ⟨rfl, rfl, fun _ _ => rfl⟩

/-- The pins' calls. -/
theorem gpio_shows (h : Shows b m) (g : GpioHw 0x1200) (c : GpioHw.Call) :
    (GpioHw.step (g, b) c).1 = (m.pins.step c).1 ∧
      Shows (GpioHw.step (g, b) c).2.2 { m with pins := (m.pins.step c).2 } := by
  obtain ⟨hret, -, hbank, hrest⟩ :=
    GpioHw.step_alike (alike_bank (fun _ => outside_of_owns) b) g ⟨rfl, Rest.refl _ b⟩ c
  obtain ⟨hsim, hw, hr⟩ := GpioHw.step_sim g c ⟨h.willing, h.pins⟩
  rw [← hbank] at hw hr
  refine ⟨hret.trans hsim, hw, hr, fun pin => ?_, hrest.slave.trans h.slave, hrest.mem.trans h.mem⟩
  exact (hrest.others _ (not_owns_inputId pin)).trans (h.inputs pin)

theorem Shows.tick (h : Shows b m) : Shows b.tick m :=
  ⟨h.willing.tick, h.pins.tick, h.inputs, h.slave, h.mem⟩

theorem read_word {id : AttId} (a : AttOf id) {w : BitVec 32} (hw : GpioHw.Willing b.bank)
    (hv : b.bank.vals id = .word w) : a.read b = (false, a.set (·.setValueUint32 w), b.tick) := by
  have hc : b.dev.connected = true := hw.connected
  have hb := Bank.read_word a hw.connected (hw.accepts _) hv
  simp only [AttOf.read, Prod.mk.injEq] at hb
  simp only [AttOf.read, readAttribute_eq, hb.1, hb.2.1, hc, ↓reduceIte]

/-- A read of an input. -/
theorem analogRead_shows (h : Shows b m) (a : AdcHw 0x1300) (pin : BitVec 8) :
    (a.analogRead b pin).1 = (if hp : pin.toNat < 8 then m.inputs ⟨pin.toNat, hp⟩ else 0xFFFFFFFF) ∧
      Shows (a.analogRead b pin).2.2 m := by
  by_cases hp : pin.toNat < 8
  · have hle : ¬ 8 ≤ pin.toNat := not_le.mpr hp
    have hv : b.bank.vals (Tbit.inputId ⟨pin.toNat, hp⟩) = .word (m.inputs ⟨pin.toNat, hp⟩) :=
      (b.vals_of_outside (outside_inputId _)).trans (h.inputs _)
    have hr := read_word (a.mAttAdcR ⟨pin.toNat, hp⟩) h.willing hv
    simp only [AdcHw.analogRead, dif_neg hle, dif_pos hp, hr, Bool.false_eq_true, ↓reduceIte, Function.update_self,
      AttOf.getValueUint32_set, true_and]
    exact h.tick
  · have hle : 8 ≤ pin.toNat := not_lt.mp hp
    rw [AdcHw.analogRead, dif_pos hle, dif_neg hp]
    exact ⟨rfl, h⟩

end

end TbitBoard

namespace GpioHw

/-- The registers are the attributes of the pins. -/
theorem Registers.congr {base : AttId} {d d' : Bank} {ps : Pins} (h : Registers base d ps)
    (hv : ∀ id, Owns base id → d'.vals id = d.vals id) : Registers base d' ps where
  mode := by
    rw [hv _ (.inl rfl)]
    exact h.mode
  pull := by
    rw [hv _ (.inr (.inl rfl))]
    exact h.pull
  port := by
    rw [hv _ (.inr (.inr rfl))]
    exact h.port

end GpioHw

namespace I2cBus

variable {ρ : Type} [I2cRegister ρ]

/-- A bus that refuses nothing. -/
structure Willing (b : I2cBus ρ) : Prop where
  connected : b.connected = true
  accepts : ∀ n, b.accepts n = true

/-- It does not matter to it how many transactions there have been. -/
theorem step_willing {b b' : I2cBus ρ} (hb : Willing b) (hb' : Willing b') (hs : b.slave = b'.slave)
    (hm : b.mem = b'.mem) (c : I2cHw.Call) : (b.step c).1 = (b'.step c).1 ∧
      (b.step c).2.slave = (b'.step c).2.slave ∧ (b.step c).2.mem = (b'.step c).2.mem := by
  have ht : ∀ k, b.Takes k := fun k => ⟨hb.connected, fun i _ => hb.accepts _⟩
  have ht' : ∀ k, b'.Takes k := fun k => ⟨hb'.connected, fun i _ => hb'.accepts _⟩
  cases c with
  | setI2cDeviceAddr a => simp only [step, ht, ht', ↓reduceIte, hm, and_self]
  | write2byte r v => simp only [step, ht, ht', ↓reduceIte, spend, write, hs, hm, and_self]
  | read2byte r => simp only [step, ht, ht', ↓reduceIte, spend, hs, hm, and_self]
  | read3byte r => simp only [step, ht, ht', ↓reduceIte, spend, hs, hm, and_self]

theorem Willing.step {b : I2cBus ρ} (h : Willing b) (c : I2cHw.Call) : Willing (b.step c).2 := by
  cases c with
  | setI2cDeviceAddr a => unfold I2cBus.step; dsimp only; split <;> exact ⟨h.connected, h.accepts⟩
  | write2byte r v => unfold I2cBus.step; dsimp only; split <;> exact ⟨h.connected, h.accepts⟩
  | read2byte r => exact ⟨h.connected, h.accepts⟩
  | read3byte r => exact ⟨h.connected, h.accepts⟩

end I2cBus

namespace TbitBoard

variable {ρ : Type} [I2cRegister ρ] {b : TbitBoard ρ} {m : Modules ρ}

/-- The calls of the bus. -/
theorem i2c_shows (h : Shows b m) (i : I2cHw 0x1400) (c : I2cHw.Call) :
    (I2cHw.step (i, b) c).1 = (m.bus.step c).1 ∧ Shows (I2cHw.step (i, b) c).2.2
      { m with slave := (m.bus.step c).2.slave, mem := (m.bus.step c).2.mem } := by
  have hwilling : b.dev.bus.Willing := ⟨h.willing.connected, h.willing.accepts⟩
  have hm : m.bus.Willing := ⟨rfl, fun _ => rfl⟩
  obtain ⟨hret, -, hdev, hothers⟩ := I2cHw.step_alike (alike_bus b) i ⟨rfl, fun _ _ => rfl⟩ c
  obtain ⟨hbus, hafter⟩ := I2cHw.agrees i b.dev c
  obtain ⟨hx, hslave, hmem⟩ := I2cBus.step_willing hwilling hm h.slave h.mem c
  have hw' := hwilling.step c
  rw [← hafter] at hw' hslave hmem
  generalize hd : (I2cHw.step (i, b.dev) c).2.2 = d at hdev hw' hslave hmem
  generalize hb : (I2cHw.step (i, b) c).2.2 = b' at hdev hothers
  have hvals : ∀ id, Outside id → b'.bank.vals id = b.bank.vals id := fun id ho =>
    (b'.vals_of_outside ho).trans ((hothers id ho).trans (b.vals_of_outside ho).symm)
  have hconnected : b'.dev.connected = true := (congrArg I2cDevice.connected hdev).trans hw'.connected
  have haccepts : b'.dev.accepts = d.accepts := by
    rw [hdev]
    rfl
  refine ⟨hret.trans (hbus.trans hx), ⟨hconnected, fun n => ?_⟩, ?_, fun pin => ?_, ?_, ?_⟩
  · exact (congrFun haccepts n).trans (hw'.accepts n)
  · exact h.pins.congr fun id hid => hvals id (outside_of_owns hid)
  · exact (hothers _ (outside_inputId pin)).trans (h.inputs pin)
  · exact (congrArg I2cDevice.slave hdev).trans hslave
  · exact (congrArg I2cDevice.mem hdev).trans hmem

/-- The port of the board has other levels. -/
theorem port_shows (h : Shows b m) (w : BitVec 32) : Shows (b.put (0x1200 + ATT_GPIO_RW) (.word w))
    { m with pins := fun i => { m.pins i with level := w.getLsbD i } } := by
  have hb := b.bank_put (.word w) (outside_of_owns (.inr (.inr rfl)))
  refine ⟨?_, ?_, fun pin => ?_, h.slave, h.mem⟩
  · rw [hb]
    exact h.willing.put _ _
  · rw [hb]
    exact h.pins.put_port w
  · have hne : Tbit.inputId pin ≠ 0x1200 + ATT_GPIO_RW := fun he => not_owns_inputId pin (.inr (.inr he))
    exact (Function.update_of_ne hne _ _).trans (h.inputs pin)

/-- And an input another value. -/
theorem input_shows (h : Shows b m) (pin : Fin 8) (w : BitVec 32) :
    Shows (b.put (Tbit.inputId pin) (.word w))
    { m with inputs := Function.update m.inputs pin w } := by
  have hb := b.bank_put (.word w) (outside_inputId pin)
  refine ⟨?_, ?_, fun i => ?_, h.slave, h.mem⟩
  · rw [hb]
    exact h.willing.put _ _
  · rw [hb]
    refine h.pins.congr fun id hid => Bank.put_vals_ne _ _ fun he => ?_
    exact not_owns_inputId pin (he ▸ hid)
  · show Function.update b.dev.others (Tbit.inputId pin) (.word w) (Tbit.inputId i) =
      .word (Function.update m.inputs pin w i)
    by_cases hi : i = pin
    · subst hi
      rw [Function.update_self, Function.update_self]
    · have hne : Tbit.inputId i ≠ Tbit.inputId pin := fun he => hi (inputId_injective he)
      rw [Function.update_of_ne hne, Function.update_of_ne hi]
      exact h.inputs i

end TbitBoard

namespace Tbit

variable {ρ : Type} [I2cRegister ρ]

theorem step_shows (t : Tbit) {b : TbitBoard ρ} {m : Modules ρ} (h : b.Shows m) (e : Event) :
    (step (t, b) e).1 = (m.step e).1 ∧ (step (t, b) e).2.2.Shows (m.step e).2 := by
  cases e with
  | gpio c => exact (TbitBoard.gpio_shows h t.gpiohw c).imp (congrArg Ret.gpio) id
  | analogRead pin => exact (TbitBoard.analogRead_shows h t.adchw pin).imp (congrArg Ret.analogRead) id
  | i2c c => exact (TbitBoard.i2c_shows h t.i2chw c).imp (congrArg Ret.i2c) id
  | port w => exact ⟨rfl, TbitBoard.port_shows h w⟩
  | input pin w => exact ⟨rfl, TbitBoard.input_shows h pin w⟩

/-- **The modules share the board without seeing it.** Against a board that
accepts every transaction, every sequence of calls of the three modules, and
of changes of the port and the inputs, returns what the modules return by
themselves, and the board has their state after each. -/
theorem refines_modules (t : Tbit) {b : TbitBoard ρ} {m : Modules ρ} (h : b.Shows m) (es : List Event) :
    List.Forall₂ (fun x y => x.1 = y.1 ∧ x.2.2.Shows y.2)
      (Mealy.trace step (t, b) es) (Mealy.trace Modules.step m es) :=
  Mealy.trace_simulate (R := fun (s : Tbit × TbitBoard ρ) m => s.2.Shows m) (fun s _ e h => step_shows s.1 h e) es h

/-- A board whose values are 0, with registers of 2 bytes. -/
def blank : TbitBoard (BitVec 16) where
  dev :=
    { connected := true, slave := 0x48, pointer := 0, mem := fun _ _ => 0, others := fun _ => .word 0,
      accepts := fun _ => true, pads := fun _ => [], refusals := fun _ f => .fail (frameOp f), n := 0 }

theorem refines_modules_blank : List.Forall₂ (fun x y => x.1 = y.1 ∧ x.2.2.Shows y.2)
    (Mealy.trace step (.new Attvalue.zeros Attvalue.length_zeros, blank)
      [.gpio (.digitalWrite 5 true), .i2c (.write2byte 3 0xBEEF), .input 7 42, .analogRead 7, .port 1,
        .i2c (.read2byte 3), .gpio .read])
    (Mealy.trace Modules.step ⟨fun _ => ⟨false, false, false⟩, fun _ => 0, 0x48, fun _ _ => 0⟩
      [.gpio (.digitalWrite 5 true), .i2c (.write2byte 3 0xBEEF), .input 7 42, .analogRead 7, .port 1,
        .i2c (.read2byte 3), .gpio .read]) := by
  have hzero : ∀ i : Fin 32, false = (0 : BitVec 32).getLsbD i := fun _ => BitVec.getLsbD_zero.symm
  exact refines_modules _ (b := blank) ⟨⟨rfl, fun _ => rfl⟩, ⟨⟨0, rfl, hzero⟩, ⟨0, rfl, hzero⟩, ⟨0, rfl, hzero⟩⟩,
    fun _ => rfl, rfl, rfl⟩ _

end Tbit

end ToolbitSdk
