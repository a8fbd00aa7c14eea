/-
# I2C: registers behind a pointer

`i2c_hw.cpp`. The device has a slave address, a register pointer and the
registers of its slaves; an access to a register is two transactions, one
that sets the pointer and one that moves the bytes. Any of them may be
refused, so the pointer and the attributes of `I2cHw` may be those of an
earlier call.

None of it shows. A device with no pointer and a driver with no attributes
(`I2cBus`) give the same results and leave the same registers, along every
sequence of calls (`I2cHw.refines_bus`): each access sets the pointer first,
and goes on only when that was taken. The laws of the calls
(`I2cBus.Lawful`) and what a read after a write brings (`I2cBus.read_back`)
are those of the bus, and so of the driver (`I2cHw.registers_correct`).
-/
import ToolbitSdk.Lib.Mealy
import ToolbitSdk.Transaction

namespace ToolbitSdk

open Bytes TbiService

def ATT_I2C_DEVICE_ADDR : AttId := 0x00
def ATT_I2C_REG_ADDR : AttId := 0x01
def ATT_I2C_RW_2BYTE : AttId := 0x03
def ATT_I2C_RW_3BYTE : AttId := 0x04

/-! ### The device -/

/-- The contents of a register, with the 2 and the 3 bytes that are
transferred. -/
class I2cRegister (ρ : Type) where
  two : ρ → BitVec 16
  three : ρ → BitVec 24
  store : ρ → BitVec 16 → ρ
  two_store : ∀ c v, two (store c v) = v

open I2cRegister

/-- A register of 2 bytes. -/
instance : I2cRegister (BitVec 16) where
  two c := c
  three c := c.setWidth 24
  store _ v := v
  two_store _ _ := rfl

/-- A device of slaves with registers, and the client's handle on it. A write
of the address or the register number sets the slave or the pointer. As in a
`Bank`, transaction `n` succeeds if `accepts n` and has no effect otherwise. -/
structure I2cDevice (base : AttId) (ρ : Type) where
  connected : Bool
  slave : BitVec 8
  pointer : BitVec 8
  mem : BitVec 8 → BitVec 8 → ρ
  others : AttId → Value
  accepts : ℕ → Bool
  pads : ℕ → List Byte
  refusals : ℕ → List Byte → Refusal
  n : ℕ

namespace I2cDevice

variable {base : AttId} {ρ : Type} [I2cRegister ρ]

/-- What a read brings. -/
def vals (d : I2cDevice base ρ) (id : AttId) : Value :=
  if id = base + ATT_I2C_RW_2BYTE then .num 2 (two (d.mem d.slave d.pointer)).toNat (by decide)
  else if id = base + ATT_I2C_RW_3BYTE then .num 3 (three (d.mem d.slave d.pointer)).toNat (by decide)
  else d.others id

/-- The answers are those of an attribute store with these values. -/
def bank (d : I2cDevice base ρ) : Bank := ⟨d.connected, d.vals, d.accepts, d.pads, d.refusals, d.n⟩

/-- A register of the slave is given 2 bytes. -/
def poke (d : I2cDevice base ρ) (v : BitVec 16) : I2cDevice base ρ :=
  let regs := Function.update (d.mem d.slave) d.pointer (store (d.mem d.slave d.pointer) v)
  { d with mem := Function.update d.mem d.slave regs }

/-- The device takes a value. -/
def take (d : I2cDevice base ρ) (id : AttId) (v : List Byte) : I2cDevice base ρ :=
  if id = base + ATT_I2C_DEVICE_ADDR then { d with slave := leWord 8 v }
  else if id = base + ATT_I2C_REG_ADDR then { d with pointer := leWord 8 v }
  else if id = base + ATT_I2C_RW_2BYTE then d.poke (leWord 16 v)
  else d

def tick (d : I2cDevice base ρ) : I2cDevice base ρ := { d with n := d.n + 1 }

/-- A transaction without effect, if the handle is open. -/
def lapse (d : I2cDevice base ρ) : I2cDevice base ρ := if d.connected then d.tick else d

def transact (d : I2cDevice base ρ) (frame : List Byte) : TbiPacket × I2cDevice base ρ :=
  ((d.bank.transact frame).1,
    (if d.accepts d.n ∧ frameOp frame = OP_ATT_VALUE_SET then d.take (frameId frame) (framePayload frame)
      else d).tick)

instance : Link (I2cDevice base ρ) Unit where
  isOpen d := d.connected
  openDevice d _ := (d.connected, { d with connected := true })
  closeDevice d := { d with connected := false }
  transact := transact

section

variable (d : I2cDevice base ρ) (att : Attribute)

@[simp] theorem bank_tick : d.tick.bank = d.bank.tick := rfl

/-- A read is the store's, and leaves the registers. -/
theorem readAttribute_eq : readAttribute d att = ((readAttribute d.bank att).1, (readAttribute d.bank att).2.1,
    if d.connected = true then d.tick else d) := by
  have hop : ¬ (d.accepts d.n = true ∧ frameOp (readFrame att) = OP_ATT_VALUE_SET) := fun hh => by
    have hget : frameOp (readFrame att) = OP_ATT_VALUE_GET := rfl
    rw [hget] at hh
    exact absurd hh.2 (by decide)
  by_cases hc : d.connected = true
  · have ho : Link.isOpen d = true := hc
    have hob : Link.isOpen d.bank = true := hc
    have ht : Link.transact d (readFrame att) = ((Link.transact d.bank (readFrame att)).1, d.tick) := by
      show d.transact (readFrame att) = _
      rw [transact, if_neg hop]
      rfl
    rw [readAttribute_of_transact att ho ht, readAttribute, if_pos hob, if_pos hc]
  · have ho : ¬ Link.isOpen d = true := hc
    have hob : ¬ Link.isOpen d.bank = true := hc
    rw [readAttribute, readAttribute, if_neg ho, if_neg hob, if_neg hc]

/-- A write is the store's, and gives the device the value if it is
accepted. -/
theorem writeAttribute_eq : writeAttribute d att = ((writeAttribute d.bank att).1,
    if d.connected = true then (if d.accepts d.n = true then d.take att.attid att.value else d).tick else d) := by
  have hset : frameOp (writeFrame att) = OP_ATT_VALUE_SET := frameOp_writeFrame att
  by_cases hc : d.connected = true
  · have ho : Link.isOpen d = true := hc
    have hob : Link.isOpen d.bank = true := hc
    have ht : Link.transact d (writeFrame att) = ((Link.transact d.bank (writeFrame att)).1,
        (if d.accepts d.n = true then d.take att.attid att.value else d).tick) := by
      show d.transact (writeFrame att) = _
      rw [transact, hset, frameId_writeFrame, framePayload_writeFrame]
      simp only [and_true]
      rfl
    rw [writeAttribute_of_transact att ho ht, writeAttribute, if_pos hob, if_pos hc]
  · have ho : ¬ Link.isOpen d = true := hc
    have hob : ¬ Link.isOpen d.bank = true := hc
    rw [writeAttribute, writeAttribute, if_neg ho, if_neg hob, if_neg hc]

end

section

variable {d : I2cDevice base ρ} {id : AttId} (a : AttOf id)

theorem read_taken (h : d.bank.Takes 1) : a.read d = (false, a.got (d.vals id), d.tick) := by
  have hc : d.connected = true := h.1
  have hb : a.read d.bank = (false, a.got (d.vals id), d.bank.tick) := Bank.read_taken a h
  simp only [AttOf.read, Prod.mk.injEq] at hb
  simp only [AttOf.read, readAttribute_eq, hb.1, hb.2.1, hc, ↓reduceIte]

theorem read_not_taken (h : ¬ d.bank.Takes 1) : a.read d = (true, a, d.lapse) := by
  obtain ⟨d', hb, -⟩ := Bank.read_not_takes a h
  simp only [AttOf.read, Prod.mk.injEq] at hb
  simp only [AttOf.read, readAttribute_eq, hb.1, hb.2.1, lapse]

theorem write_taken (h : d.bank.Takes 1) :
    writeAttribute d a.att = (false, (d.take id a.att.value).tick) := by
  have hc : d.connected = true := h.1
  have ha : d.accepts d.n = true := (Bank.takes_one.mp h).2
  have hb := Bank.write_accepted (d := d.bank) a hc ha
  rw [writeAttribute_eq, hb, if_pos hc, if_pos ha, a.attid]

theorem write_not_taken (h : ¬ d.bank.Takes 1) : writeAttribute d a.att = (true, d.lapse) := by
  obtain ⟨d', hb, -⟩ := Bank.write_not_takes a h
  rw [writeAttribute_eq, hb, lapse]
  by_cases hc : d.connected = true
  · have ha : ¬ d.accepts d.n = true := fun ha => h (Bank.takes_one.mpr ⟨hc, ha⟩)
    rw [if_pos hc, if_neg ha, if_pos hc]
  · rw [if_neg hc, if_neg hc]

/-! What the values mean to the device. -/

theorem take_slave (b : BitVec 8) (a : AttOf (base + ATT_I2C_DEVICE_ADDR)) :
    d.take (base + ATT_I2C_DEVICE_ADDR) (a.set (·.setValueUint8 b)).att.value = { d with slave := b } := by
  have hv : (a.set (·.setValueUint8 b)).att.value = leBytes 1 b.toNat := Attvalue.value_setNum _ 1 _ (by decide)
  rw [take, if_pos rfl, hv]
  congr 1
  exact leWord_leBytes (n := 1) b

theorem take_pointer (b : BitVec 8) (a : AttOf (base + ATT_I2C_REG_ADDR)) :
    d.take (base + ATT_I2C_REG_ADDR) (a.set (·.setValueUint8 b)).att.value = { d with pointer := b } := by
  have hv : (a.set (·.setValueUint8 b)).att.value = leBytes 1 b.toNat := Attvalue.value_setNum _ 1 _ (by decide)
  have hne : base + ATT_I2C_REG_ADDR ≠ base + ATT_I2C_DEVICE_ADDR := fun h =>
    absurd ((BitVec.add_right_inj base).mp h) (by decide)
  rw [take, if_neg hne, if_pos rfl, hv]
  congr 1
  exact leWord_leBytes (n := 1) b

theorem take_two (v : BitVec 16) (a : AttOf (base + ATT_I2C_RW_2BYTE)) :
    d.take (base + ATT_I2C_RW_2BYTE) (a.set (·.setValueUint16 v)).att.value = d.poke v := by
  have hv : (a.set (·.setValueUint16 v)).att.value = leBytes 2 v.toNat := Attvalue.value_setNum _ 2 _ (by decide)
  have hne : base + ATT_I2C_RW_2BYTE ≠ base + ATT_I2C_DEVICE_ADDR := fun h =>
    absurd ((BitVec.add_right_inj base).mp h) (by decide)
  have hne' : base + ATT_I2C_RW_2BYTE ≠ base + ATT_I2C_REG_ADDR := fun h =>
    absurd ((BitVec.add_right_inj base).mp h) (by decide)
  rw [take, if_neg hne, if_neg hne', if_pos rfl, hv]
  congr 1
  exact leWord_leBytes (n := 2) v

theorem vals_two : d.vals (base + ATT_I2C_RW_2BYTE) = .num 2 (two (d.mem d.slave d.pointer)).toNat (by decide) :=
  if_pos rfl

theorem vals_three : d.vals (base + ATT_I2C_RW_3BYTE) = .num 3 (three (d.mem d.slave d.pointer)).toNat (by decide) := by
  have hne : base + ATT_I2C_RW_3BYTE ≠ base + ATT_I2C_RW_2BYTE := fun h =>
    absurd ((BitVec.add_right_inj base).mp h) (by decide)
  rw [vals, if_neg hne, if_pos rfl]

end

end I2cDevice

/-! ### The numbers that are read -/

namespace AttOf

variable {id : AttId}

def getValueInt16 (a : AttOf id) : BitVec 16 := a.att.getValueInt16
def getValueInt32 (a : AttOf id) : BitVec 32 := a.att.getValueInt32

/-- A number that is read is at the start of the union. -/
theorem got_num (a : AttOf id) {n : ℕ} (v : ℕ) (h : n ≤ VALUE_LEN) (h8 : n ≤ 8) :
    (a.got (.num n v h)).att.toAttvalue = (a.att.toAttvalue.setNum n v h8).2 :=
  congrArg Prod.snd (Attvalue.setValueBytes_leBytes a.att.toAttvalue n v h8)

theorem getValueInt16_got (a : AttOf id) (v : BitVec 16) :
    (a.got (.num 2 v.toNat (by decide))).getValueInt16 = v := by
  rw [getValueInt16, Attvalue.getValueInt16, a.got_num _ _ (by decide)]
  exact Attvalue.getNum_setNum (n := 2) a.att.toAttvalue v _

/-- The mask takes off the byte that a read of 3 leaves as it was. -/
theorem getValueInt32_got (a : AttOf id) (v : BitVec 24) :
    0x00FFFFFF#32 &&& (a.got (.num 3 v.toNat (by decide))).getValueInt32 = v.setWidth 32 := by
  rw [getValueInt32, Attvalue.getValueInt32, a.got_num _ _ (by decide), Attvalue.getNum, Attvalue.setNum,
    Attvalue.store_dat]
  apply BitVec.eq_of_toNat_eq
  have hlow : leNat (((overlay (leBytes 3 v.toNat) a.att.dat).take 4).take 3) = v.toNat := by
    rw [List.take_take, show min 3 4 = 3 from rfl, take_overlay _ (length_leBytes 3 v.toNat).ge,
      List.take_of_length_le (length_leBytes 3 _).le,
      leNat_leBytes]
    exact Nat.mod_eq_of_lt v.isLt
  calc (0x00FFFFFF#32 &&& leWord (8 * 4) ((overlay (leBytes 3 v.toNat) a.att.dat).take 4)).toNat
      = (2 ^ 24 - 1) &&& (leNat ((overlay (leBytes 3 v.toNat) a.att.dat).take 4) % 2 ^ 32) := rfl
    _ = leNat ((overlay (leBytes 3 v.toNat) a.att.dat).take 4) % 2 ^ 32 % 2 ^ 24 := by
        rw [Nat.and_comm, Nat.and_two_pow_sub_one_eq_mod]
    _ = leNat ((overlay (leBytes 3 v.toNat) a.att.dat).take 4) % 256 ^ 3 := by
        rw [Nat.mod_mod_of_dvd _ (by decide)]
        rfl
    _ = v.toNat := by rw [← leNat_take, hlow]
    _ = (v.setWidth 32).toNat := by
        rw [BitVec.toNat_setWidth, Nat.mod_eq_of_lt (by have := v.isLt; omega)]

end AttOf

/-! ### The driver -/

structure I2cHw (base : AttId) where
  mAttI2cDeviceAddr : AttOf (base + ATT_I2C_DEVICE_ADDR)
  mAttI2cRegAddr : AttOf (base + ATT_I2C_REG_ADDR)
  mAttI2cRw2Byte : AttOf (base + ATT_I2C_RW_2BYTE)
  mAttI2cRw3Byte : AttOf (base + ATT_I2C_RW_3BYTE)

namespace I2cHw

section

variable {σ π : Type*} [Link σ π] {base : AttId}

/-- `I2cHw::I2cHw`, each attribute on memory that holds `junk`. -/
def new (junk : List Byte) (h : junk.length = VALUE_LEN + 1) (base : AttId) : I2cHw base :=
  ⟨.new junk h _, .new junk h _, .new junk h _, .new junk h _⟩

def setI2cDeviceAddr (i : I2cHw base) (tdev : σ) (dev_addr : BitVec 8) : Bool × I2cHw base × σ :=
  let mAttI2cDeviceAddr := i.mAttI2cDeviceAddr.set (·.setValueUint8 dev_addr)
  let (status, tdev) := writeAttribute tdev mAttI2cDeviceAddr.att
  (status, { i with mAttI2cDeviceAddr }, tdev)

def write2byte (i : I2cHw base) (tdev : σ) (reg_addr : BitVec 8) (val : BitVec 16) :
    Bool × I2cHw base × σ :=
  let mAttI2cRegAddr := i.mAttI2cRegAddr.set (·.setValueUint8 reg_addr)
  let (status, tdev) := writeAttribute tdev mAttI2cRegAddr.att
  let i := { i with mAttI2cRegAddr }
  if status then (true, i, tdev)
  else
    let mAttI2cRw2Byte := i.mAttI2cRw2Byte.set (·.setValueUint16 val)
    let (status, tdev) := writeAttribute tdev mAttI2cRw2Byte.att
    (status, { i with mAttI2cRw2Byte }, tdev)

def read2byte (i : I2cHw base) (tdev : σ) (reg_addr : BitVec 8) : BitVec 16 × I2cHw base × σ :=
  let mAttI2cRegAddr := i.mAttI2cRegAddr.set (·.setValueUint8 reg_addr)
  let (status, tdev) := writeAttribute tdev mAttI2cRegAddr.att
  let i := { i with mAttI2cRegAddr }
  if status then (0, i, tdev)
  else
    let (status, mAttI2cRw2Byte, tdev) := i.mAttI2cRw2Byte.read tdev
    let i := { i with mAttI2cRw2Byte }
    if status then (0, i, tdev) else (mAttI2cRw2Byte.getValueInt16, i, tdev)

def read3byte (i : I2cHw base) (tdev : σ) (reg_addr : BitVec 8) : BitVec 32 × I2cHw base × σ :=
  let mAttI2cRegAddr := i.mAttI2cRegAddr.set (·.setValueUint8 reg_addr)
  let (status, tdev) := writeAttribute tdev mAttI2cRegAddr.att
  let i := { i with mAttI2cRegAddr }
  if status then (0, i, tdev)
  else
    let (status, mAttI2cRw3Byte, tdev) := i.mAttI2cRw3Byte.read tdev
    let i := { i with mAttI2cRw3Byte }
    if status then (0, i, tdev) else (0x00FFFFFF#32 &&& mAttI2cRw3Byte.getValueInt32, i, tdev)

/-- The public methods. -/
inductive Call
  | setI2cDeviceAddr (dev_addr : BitVec 8)
  | write2byte (reg_addr : BitVec 8) (val : BitVec 16)
  | read2byte (reg_addr : BitVec 8)
  | read3byte (reg_addr : BitVec 8)
  deriving DecidableEq

inductive Ret
  | flag (b : Bool)
  | two (w : BitVec 16)
  | three (w : BitVec 32)
  deriving DecidableEq

def step (s : I2cHw base × σ) : Call → Ret × I2cHw base × σ
  | .setI2cDeviceAddr a => let (b, s) := s.1.setI2cDeviceAddr s.2 a; (.flag b, s)
  | .write2byte r v => let (b, s) := s.1.write2byte s.2 r v; (.flag b, s)
  | .read2byte r => let (w, s) := s.1.read2byte s.2 r; (.two w, s)
  | .read3byte r => let (w, s) := s.1.read3byte s.2 r; (.three w, s)

end

end I2cHw

/-! ### The bus -/

/-- The slaves and their registers, with no pointer. -/
structure I2cBus (ρ : Type) where
  connected : Bool
  slave : BitVec 8
  mem : BitVec 8 → BitVec 8 → ρ
  accepts : ℕ → Bool
  n : ℕ

namespace I2cBus

variable {ρ : Type} [I2cRegister ρ]

/-- The handle is open and the next `k` transactions are accepted. -/
def Takes (b : I2cBus ρ) (k : ℕ) : Prop := b.connected = true ∧ ∀ i < k, b.accepts (b.n + i) = true

instance (b : I2cBus ρ) (k : ℕ) : Decidable (b.Takes k) :=
  inferInstanceAs (Decidable (b.connected = true ∧ ∀ i < k, b.accepts (b.n + i) = true))

/-- The transactions of an access: the second is made if the first is
accepted. -/
def spend (b : I2cBus ρ) : I2cBus ρ :=
  { b with n := if b.Takes 1 then b.n + 2 else if b.connected then b.n + 1 else b.n }

/-- Register `r` of the slave is given `v`. -/
def write (b : I2cBus ρ) (r : BitVec 8) (v : BitVec 16) : I2cBus ρ :=
  let regs := Function.update (b.mem b.slave) r (store (b.mem b.slave r) v)
  { b with mem := Function.update b.mem b.slave regs }

/-- An access succeeds as a whole or has no effect. -/
def step (b : I2cBus ρ) : I2cHw.Call → I2cHw.Ret × I2cBus ρ
  | .setI2cDeviceAddr a =>
    if b.Takes 1 then (.flag false, { b with slave := a, n := b.n + 1 })
    else (.flag true, { b with n := if b.connected then b.n + 1 else b.n })
  | .write2byte r v => if b.Takes 2 then (.flag false, b.spend.write r v) else (.flag true, b.spend)
  | .read2byte r => (.two (if b.Takes 2 then two (b.mem b.slave r) else 0), b.spend)
  | .read3byte r => (.three (if b.Takes 2 then (three (b.mem b.slave r)).setWidth 32 else 0), b.spend)

/-! ### The laws of the calls -/

/-- What a call owes that found `b`, returned `x` and left `b'`. A write
changes at most its register, which has the value on success, and nothing on
an error; a read changes nothing and returns the contents of its register if
it had both its transactions, and otherwise 0. -/
def Law (b : I2cBus ρ) : I2cHw.Call → I2cHw.Ret → I2cBus ρ → Prop
  | .setI2cDeviceAddr a, x, b' => b'.mem = b.mem ∧
      (x = .flag false ∧ b'.slave = a ∨ x = .flag true ∧ b'.slave = b.slave)
  | .write2byte r v, x, b' => b'.slave = b.slave ∧
      (∀ a q, ¬ (a = b.slave ∧ q = r) → b'.mem a q = b.mem a q) ∧
      (x = .flag false ∧ two (b'.mem b.slave r) = v ∨ x = .flag true ∧ b'.mem = b.mem)
  | .read2byte r, x, b' => b'.slave = b.slave ∧ b'.mem = b.mem ∧
      (b.Takes 2 → x = .two (two (b.mem b.slave r))) ∧ (¬ b.Takes 2 → x = .two 0)
  | .read3byte r, x, b' => b'.slave = b.slave ∧ b'.mem = b.mem ∧
      (b.Takes 2 → x = .three ((three (b.mem b.slave r)).setWidth 32)) ∧ (¬ b.Takes 2 → x = .three 0)

theorem mem_write_ne (b : I2cBus ρ) {r : BitVec 8} (v : BitVec 16) {a q : BitVec 8} (h : ¬ (a = b.slave ∧ q = r)) :
    (b.write r v).mem a q = b.mem a q := by
  simp only [write]
  by_cases ha : a = b.slave
  · subst ha
    rw [Function.update_self, Function.update_of_ne fun hq => h ⟨rfl, hq⟩]
  · rw [Function.update_of_ne ha]

theorem mem_write_self (b : I2cBus ρ) (r : BitVec 8) (v : BitVec 16) :
    (b.write r v).mem b.slave r = store (b.mem b.slave r) v := by
  simp only [write, Function.update_self]

theorem law_step (b : I2cBus ρ) (c : I2cHw.Call) : Law b c (b.step c).1 (b.step c).2 := by
  rcases c with a | ⟨r, v⟩ | r | r
  · by_cases h : b.Takes 1
    · simp only [step, if_pos h]
      exact ⟨rfl, .inl ⟨rfl, rfl⟩⟩
    · simp only [step, if_neg h]
      exact ⟨rfl, .inr ⟨rfl, rfl⟩⟩
  · by_cases h : b.Takes 2
    · simp only [step, if_pos h]
      refine ⟨rfl, fun a q hne => b.spend.mem_write_ne v hne, .inl ⟨rfl, ?_⟩⟩
      rw [show b.slave = b.spend.slave from rfl, mem_write_self, two_store]
    · simp only [step, if_neg h]
      exact ⟨rfl, fun _ _ _ => rfl, .inr ⟨rfl, rfl⟩⟩
  · exact ⟨rfl, rfl, fun h => by simp only [step, if_pos h], fun h => by simp only [step, if_neg h]⟩
  · exact ⟨rfl, rfl, fun h => by simp only [step, if_pos h], fun h => by simp only [step, if_neg h]⟩

/-- A call that does not write register `r` leaves it in every slave. -/
theorem mem_step (b : I2cBus ρ) {c : I2cHw.Call} {r : BitVec 8} (h : ∀ v, c ≠ .write2byte r v) (a : BitVec 8) :
    (b.step c).2.mem a r = b.mem a r := by
  have hl := b.law_step c
  rcases c with a' | ⟨q, v⟩ | q | q
  · rw [hl.1]
  · refine hl.2.1 a r ?_
    rintro ⟨-, rfl⟩
    exact h v rfl
  · rw [hl.2.1]
  · rw [hl.2.1]

theorem mem_after {r : BitVec 8} (a : BitVec 8) :
    ∀ (cs : List I2cHw.Call) (b : I2cBus ρ), (∀ c ∈ cs, ∀ v, c ≠ .write2byte r v) →
      (Mealy.after step b cs).mem a r = b.mem a r
  | [], _, _ => rfl
  | c :: cs, b, h => by
    rw [Mealy.after_cons, mem_after a cs _ fun c' hc' => h c' (List.mem_cons_of_mem c hc')]
    exact b.mem_step (h c List.mem_cons_self) a

/-- **What was written is read back.** -/
theorem read_back (b : I2cBus ρ) {r : BitVec 8} {v : BitVec 16} {cs : List I2cHw.Call}
    (hw : (b.step (.write2byte r v)).1 = .flag false) (hcs : ∀ c ∈ cs, ∀ v', c ≠ .write2byte r v')
    (hs : (Mealy.after step (b.step (.write2byte r v)).2 cs).slave = b.slave)
    (ht : (Mealy.after step (b.step (.write2byte r v)).2 cs).Takes 2) :
    ((Mealy.after step (b.step (.write2byte r v)).2 cs).step (.read2byte r)).1 = .two v := by
  have hl := law_step (Mealy.after step (b.step (.write2byte r v)).2 cs) (.read2byte r)
  obtain ⟨-, -, ⟨-, hv⟩ | ⟨hx, -⟩⟩ := b.law_step (.write2byte r v)
  · rw [hl.2.2.1 ht, hs, mem_after b.slave cs _ hcs, hv]
  · rw [hw] at hx
    cases hx

end I2cBus

namespace I2cDevice

variable {base : AttId} {ρ : Type} [I2cRegister ρ]

/-- The device without its pointer. -/
def bus (d : I2cDevice base ρ) : I2cBus ρ := ⟨d.connected, d.slave, d.mem, d.accepts, d.n⟩

theorem bus_takes (d : I2cDevice base ρ) (k : ℕ) : d.bus.Takes k ↔ d.bank.Takes k := Iff.rfl

/-- After the write of a register number. -/
def pointed (d : I2cDevice base ρ) (r : BitVec 8) : I2cDevice base ρ := tick { d with pointer := r }

section

variable {d : I2cDevice base ρ}

theorem write_pointer (a : AttOf (base + ATT_I2C_REG_ADDR)) (r : BitVec 8) (h : d.bank.Takes 1) :
    writeAttribute d (a.set (·.setValueUint8 r)).att = (false, d.pointed r) := by
  rw [write_taken _ h, take_pointer]
  rfl

/-- An access has both its transactions, or the first, or none. -/
theorem access_cases (d : I2cDevice base ρ) (r : BitVec 8) :
    (d.bank.Takes 1 ∧ (d.pointed r).bank.Takes 1 ∧ d.bus.Takes 2) ∨
      (d.bank.Takes 1 ∧ ¬ (d.pointed r).bank.Takes 1 ∧ ¬ d.bus.Takes 2) ∨
        (¬ d.bank.Takes 1 ∧ ¬ d.bus.Takes 2) := by
  by_cases h : d.bank.Takes 1
  · have htwo : (d.pointed r).bank.Takes 1 ↔ d.bus.Takes 2 := by
      rw [bus_takes, Bank.takes_succ (k := 1), and_iff_right h]
      exact Iff.rfl
    by_cases h2 : (d.pointed r).bank.Takes 1
    · exact .inl ⟨h, h2, htwo.mp h2⟩
    · exact .inr (.inl ⟨h, h2, fun hb => h2 (htwo.mpr hb)⟩)
  · exact .inr (.inr ⟨h, fun hb => h (Bank.Takes.first hb)⟩)

omit [I2cRegister ρ] in
theorem bus_lapse : d.lapse.bus = { d.bus with n := if d.connected then d.n + 1 else d.n } := by
  by_cases hc : d.connected = true
  · simp only [lapse, hc, ↓reduceIte, tick, bus]
  · simp only [lapse, hc, bus, Bool.false_eq_true, ↓reduceIte]

/-- An access that is not begun. -/
theorem bus_lapse_of_not_takes (h : ¬ d.bank.Takes 1) : d.lapse.bus = d.bus.spend := by
  have hb : ¬ d.bus.Takes 1 := h
  rw [bus_lapse, I2cBus.spend, if_neg hb]
  rfl

/-- One that is begun, and moves nothing. -/
theorem bus_pointed (r : BitVec 8) (h : d.bank.Takes 1) : (d.pointed r).tick.bus = d.bus.spend := by
  have hb : d.bus.Takes 1 := h
  rw [I2cBus.spend, if_pos hb]
  rfl

theorem bus_pointed_lapse (r : BitVec 8) (h : d.bank.Takes 1) :
    (d.pointed r).lapse.bus = d.bus.spend := by
  have hc : (d.pointed r).connected = true := h.1
  rw [lapse, if_pos hc, bus_pointed r h]

theorem bus_pointed_poke (r : BitVec 8) (v : BitVec 16) (h : d.bank.Takes 1) :
    ((d.pointed r).poke v).tick.bus = d.bus.spend.write r v := by
  have hb : d.bus.Takes 1 := h
  rw [I2cBus.spend, if_pos hb]
  rfl

end

end I2cDevice

namespace I2cHw

variable {base : AttId} {ρ : Type} [I2cRegister ρ] (i : I2cHw base) (d : I2cDevice base ρ)

/-- The results and the registers of a call are those of the bus. -/
def Agrees (c : Call) : Prop :=
  (step (i, d) c).1 = (d.bus.step c).1 ∧ (step (i, d) c).2.2.bus = (d.bus.step c).2

theorem setI2cDeviceAddr_agrees (a : BitVec 8) : Agrees i d (.setI2cDeviceAddr a) := by
  by_cases h : d.bank.Takes 1
  · have hb : d.bus.Takes 1 := h
    simp only [Agrees, step, setI2cDeviceAddr, I2cDevice.write_taken _ h, I2cDevice.take_slave, I2cBus.step, hb,
      ↓reduceIte, true_and]
    rfl
  · have hb : ¬ d.bus.Takes 1 := h
    simp only [Agrees, step, setI2cDeviceAddr, I2cDevice.write_not_taken _ h, I2cBus.step, hb, ↓reduceIte, true_and]
    exact I2cDevice.bus_lapse

theorem write2byte_agrees (r : BitVec 8) (v : BitVec 16) : Agrees i d (.write2byte r v) := by
  rcases d.access_cases r with ⟨h, h2, hb⟩ | ⟨h, h2, hb⟩ | ⟨h, hb⟩
  · simp only [Agrees, step, write2byte, I2cDevice.write_pointer _ r h, I2cDevice.write_taken _ h2,
      I2cDevice.take_two, I2cBus.step, hb, Bool.false_eq_true, ↓reduceIte, true_and]
    exact I2cDevice.bus_pointed_poke r v h
  · simp only [Agrees, step, write2byte, I2cDevice.write_pointer _ r h, I2cDevice.write_not_taken _ h2,
      I2cBus.step, hb, Bool.false_eq_true, ↓reduceIte, true_and]
    exact I2cDevice.bus_pointed_lapse r h
  · simp only [Agrees, step, write2byte, I2cDevice.write_not_taken _ h, I2cBus.step, hb, ↓reduceIte, true_and]
    exact I2cDevice.bus_lapse_of_not_takes h

theorem read2byte_agrees (r : BitVec 8) : Agrees i d (.read2byte r) := by
  rcases d.access_cases r with ⟨h, h2, hb⟩ | ⟨h, h2, hb⟩ | ⟨h, hb⟩
  · simp only [Agrees, step, read2byte, I2cDevice.write_pointer _ r h, I2cDevice.read_taken _ h2,
      I2cDevice.vals_two, AttOf.getValueInt16_got, I2cBus.step, hb, Bool.false_eq_true, ↓reduceIte]
    exact ⟨rfl, I2cDevice.bus_pointed r h⟩
  · simp only [Agrees, step, read2byte, I2cDevice.write_pointer _ r h, I2cDevice.read_not_taken _ h2,
      I2cBus.step, hb, Bool.false_eq_true, ↓reduceIte, true_and]
    exact I2cDevice.bus_pointed_lapse r h
  · simp only [Agrees, step, read2byte, I2cDevice.write_not_taken _ h, I2cBus.step, hb, ↓reduceIte, true_and]
    exact I2cDevice.bus_lapse_of_not_takes h

theorem read3byte_agrees (r : BitVec 8) : Agrees i d (.read3byte r) := by
  rcases d.access_cases r with ⟨h, h2, hb⟩ | ⟨h, h2, hb⟩ | ⟨h, hb⟩
  · simp only [Agrees, step, read3byte, I2cDevice.write_pointer _ r h, I2cDevice.read_taken _ h2,
      I2cDevice.vals_three, AttOf.getValueInt32_got, I2cBus.step, hb, Bool.false_eq_true, ↓reduceIte]
    exact ⟨rfl, I2cDevice.bus_pointed r h⟩
  · simp only [Agrees, step, read3byte, I2cDevice.write_pointer _ r h, I2cDevice.read_not_taken _ h2,
      I2cBus.step, hb, Bool.false_eq_true, ↓reduceIte, true_and]
    exact I2cDevice.bus_pointed_lapse r h
  · simp only [Agrees, step, read3byte, I2cDevice.write_not_taken _ h, I2cBus.step, hb, ↓reduceIte, true_and]
    exact I2cDevice.bus_lapse_of_not_takes h

theorem agrees : ∀ c : Call, Agrees i d c
  | .setI2cDeviceAddr a => setI2cDeviceAddr_agrees i d a
  | .write2byte r v => write2byte_agrees i d r v
  | .read2byte r => read2byte_agrees i d r
  | .read3byte r => read3byte_agrees i d r

/-- `I2cHw` refines the bus: along every sequence of calls, from every state
of the object and of the device's pointer, and for every pattern of refusals,
it returns what the bus returns and leaves the same registers. -/
theorem refines_bus (cs : List Call) : List.Forall₂ (fun x y => x.1 = y.1 ∧ x.2.2.bus = y.2)
    (Mealy.trace step (i, d) cs) (Mealy.trace I2cBus.step d.bus cs) :=
  Mealy.trace_simulate (R := fun (s : I2cHw base × I2cDevice base ρ) b => s.2.bus = b)
    (fun s _ c hb => hb ▸ agrees s.1 s.2 c) cs rfl

/-- A read of a register, after a write of it that succeeded and calls that
do not write it, returns what was written, if it finds the slave that was
written to and has both its transactions. -/
def ReadsBack (s : I2cHw base × I2cDevice base ρ) (r : BitVec 8) (v : BitVec 16) (cs : List Call) :
    Prop :=
  let s' := Mealy.after step (step s (.write2byte r v)).2 cs
  (step s (.write2byte r v)).1 = .flag false → (∀ c ∈ cs, ∀ v', c ≠ .write2byte r v') →
    s'.2.slave = s.2.slave → s'.2.bank.Takes 2 → (step s' (.read2byte r)).1 = .two v

theorem bus_after : ∀ (cs : List Call) (s : I2cHw base × I2cDevice base ρ),
    (Mealy.after step s cs).2.bus = Mealy.after I2cBus.step s.2.bus cs
  | [], _ => rfl
  | c :: cs, s => by
    rw [Mealy.after_cons, Mealy.after_cons, bus_after cs, (agrees s.1 s.2 c).2]

theorem readsBack (s : I2cHw base × I2cDevice base ρ) (r : BitVec 8) (v : BitVec 16) (cs : List Call) :
    ReadsBack s r v cs := by
  delta ReadsBack
  intro s' hw hcs hs ht
  have hbus : s'.2.bus = Mealy.after I2cBus.step (s.2.bus.step (.write2byte r v)).2 cs := by
    rw [← (agrees s.1 s.2 (.write2byte r v)).2]
    exact bus_after cs _
  have hslave : s'.2.bus.slave = s.2.bus.slave := hs
  have htakes : s'.2.bus.Takes 2 := ht
  rw [(agrees s.1 s.2 (.write2byte r v)).1] at hw
  rw [hbus] at hslave htakes
  rw [(agrees s'.1 s'.2 (.read2byte r)).1, hbus]
  exact s.2.bus.read_back hw hcs hslave htakes

theorem law_step (s : I2cHw base × I2cDevice base ρ) (c : Call) :
    s.2.bus.Law c (step s c).1 (step s c).2.2.bus := by
  obtain ⟨hr, hb⟩ := agrees s.1 s.2 c
  rw [hr, hb]
  exact s.2.bus.law_step c

/-- **Register access under refusals.** Along every sequence of calls each
keeps its law, and what was written is read back. -/
theorem registers_correct (s : I2cHw base × I2cDevice base ρ) (cs : List Call) :
    Mealy.Along step (fun s c => s.2.bus.Law c (step s c).1 (step s c).2.2.bus) s cs ∧
      ∀ r v, ReadsBack s r v cs := by
  refine ⟨?_, fun r v => readsBack s r v cs⟩
  induction cs generalizing s with
  | nil => trivial
  | cons c cs ih => exact ⟨law_step s c, ih _⟩

/-- A device that refuses its third transaction. -/
def refusing : I2cHw 0x1400 × I2cDevice 0x1400 (BitVec 16) :=
  (new Attvalue.zeros Attvalue.length_zeros 0x1400, {
    connected := true, slave := 0x48, pointer := 0, mem := fun _ _ => 0, others := fun _ => .word 0,
    accepts := fun n => n != 2, pads := fun _ => [], refusals := fun _ f => .fail (frameOp f), n := 0 })

/-- The call whose register number is refused returns 0, and the one after it
reads what was written to its own register. -/
theorem registers_correct_refusing :
    (Mealy.trace step refusing [.write2byte 3 0xBEEF, .read2byte 5, .read3byte 3]).map Prod.fst =
        [.flag false, .two 0, .three 0xBEEF] ∧
      (step (Mealy.after step (step refusing (.write2byte 3 0xBEEF)).2 [.read2byte 5]) (.read2byte 3)).1 =
        .two 0xBEEF :=
  ⟨by decide, (registers_correct refusing [.read2byte 5]).2 3 0xBEEF (by decide)
    (fun c hc v' h => by rw [List.mem_singleton.mp hc] at h; cases h) rfl (by decide)⟩

end I2cHw

end ToolbitSdk
