/-
# Attributes: a value of at most 32 bytes under a 16-bit id

`attribute.h` and `attribute.cpp`. An `Attvalue` is a union of every value
type, little-endian, and a length. The union is kept as the bytes of its
member `str`, `VALUE_LEN + 1` of them: the numbers are its first 1 to 8
bytes. Every overload of `setValue` is a copy to the start of the union
(`store`) that also sets the length, and every numeric getter reads the
first bytes whatever the length says (`getNum`).

The wide-string getter is not here: it writes outside the bytes of `str`
(see `ToolbitSdk.Storage`).
-/
import ToolbitSdk.Lib.Bytes

namespace ToolbitSdk

open Bytes

/-- The most bytes a value has. -/
def VALUE_LEN : ℕ := 32

abbrev AttId := BitVec 16

/-- The union `dat`, as the bytes of its member `str`, and the length of the
value in it, which no method takes past `VALUE_LEN`. -/
structure Attvalue where
  dat : List Byte
  datlen : Byte
  size : dat.length = VALUE_LEN + 1
  fits : datlen.toNat ≤ VALUE_LEN
  deriving DecidableEq

namespace Attvalue

/-- Copy bytes to the start of the union and set the length. -/
def store (a : Attvalue) (bs : List Byte) (len : Byte) (h : bs.length ≤ VALUE_LEN + 1)
    (hl : len.toNat ≤ VALUE_LEN) : Attvalue :=
  ⟨overlay bs a.dat, len, by rw [length_overlay (by rw [a.size]; exact h), a.size], hl⟩

/-- `Attvalue::Attvalue`, on memory that holds `junk`: it sets one byte. -/
def new (junk : List Byte) (h : junk.length = VALUE_LEN + 1) : Attvalue :=
  store ⟨junk, 0, h, by decide⟩ [0] 1 (by decide) (by decide)

/-- The memory of a union where nothing was written. -/
def zeros : List Byte := List.replicate (VALUE_LEN + 1) 0

theorem length_zeros : zeros.length = VALUE_LEN + 1 := List.length_replicate

/-! ### setValue -/

/-- Assignment to the member of the union with `n` bytes. -/
def setNum (a : Attvalue) (n v : ℕ) (h : n ≤ 8) : Bool × Attvalue :=
  (false, a.store (leBytes n v) (BitVec.ofNat 8 n) (by simp only [length_leBytes, VALUE_LEN]; omega)
    (by simp only [BitVec.toNat_ofNat, VALUE_LEN]; omega))

def setValueInt8 (a : Attvalue) (i : BitVec 8) : Bool × Attvalue := a.setNum 1 i.toNat (by decide)
def setValueUint8 (a : Attvalue) (i : BitVec 8) : Bool × Attvalue := a.setNum 1 i.toNat (by decide)
def setValueUint16 (a : Attvalue) (i : BitVec 16) : Bool × Attvalue := a.setNum 2 i.toNat (by decide)
def setValueInt16 (a : Attvalue) (i : BitVec 16) : Bool × Attvalue := a.setNum 2 i.toNat (by decide)
def setValueUint32 (a : Attvalue) (i : BitVec 32) : Bool × Attvalue := a.setNum 4 i.toNat (by decide)
def setValueInt32 (a : Attvalue) (i : BitVec 32) : Bool × Attvalue := a.setNum 4 i.toNat (by decide)
def setValueUint64 (a : Attvalue) (i : BitVec 64) : Bool × Attvalue := a.setNum 8 i.toNat (by decide)
def setValueInt64 (a : Attvalue) (i : BitVec 64) : Bool × Attvalue := a.setNum 8 i.toNat (by decide)

/-- A float is its 4 bytes. -/
def setValueFloat (a : Attvalue) (f : BitVec 32) : Bool × Attvalue := a.setNum 4 f.toNat (by decide)

/-- A double is its 8 bytes. -/
def setValueDouble (a : Attvalue) (d : BitVec 64) : Bool × Attvalue :=
  a.setNum 8 d.toNat (by decide)

/-- `setValue(char *str)`, where `str` points to `mem`: the string and its
NUL, if the string is shorter than `VALUE_LEN`. -/
def setValueStr (a : Attvalue) (mem : List Byte) : Bool × Attvalue :=
  if h : (cstr mem).length < VALUE_LEN then
    (false, a.store (cstr mem ++ [0]) (BitVec.ofNat 8 (cstr mem).length)
      (by rw [List.length_append, List.length_singleton]; omega)
      (by rw [BitVec.toNat_ofNat]; exact (Nat.mod_le _ _).trans h.le))
  else (true, a)

/-- `setValue(byte *p, uint8_t len)`, where `p` points to `mem`. -/
def setValueBytes (a : Attvalue) (mem : List Byte) (len : Byte) : Bool × Attvalue :=
  if h : len.toNat ≤ VALUE_LEN then
    (false, a.store (mem.take len.toNat) len
      (by have := List.length_take_le len.toNat mem; omega) h)
  else (true, a)

/-! ### Getters -/

/-- The member of the union with `n` bytes. -/
def getNum (a : Attvalue) (n : ℕ) : BitVec (8 * n) := leWord (8 * n) (a.dat.take n)

def getValueUint8 (a : Attvalue) : BitVec 8 := a.getNum 1
def getValueInt8 (a : Attvalue) : BitVec 8 := a.getNum 1
def getValueUint16 (a : Attvalue) : BitVec 16 := a.getNum 2
def getValueInt16 (a : Attvalue) : BitVec 16 := a.getNum 2
def getValueUint32 (a : Attvalue) : BitVec 32 := a.getNum 4
def getValueInt32 (a : Attvalue) : BitVec 32 := a.getNum 4
def getValueUint64 (a : Attvalue) : BitVec 64 := a.getNum 8
def getValueInt64 (a : Attvalue) : BitVec 64 := a.getNum 8
def getValueFloat (a : Attvalue) : BitVec 32 := a.getNum 4
def getValueDouble (a : Attvalue) : BitVec 64 := a.getNum 8
def getValueLength (a : Attvalue) : Byte := a.datlen

/-- `getValueStr`: the memory the pointer it returns points to, and the
object, in which it has set the last byte to NUL. -/
def getValueStr (a : Attvalue) : List Byte × Attvalue :=
  (a.dat.set VALUE_LEN 0, ⟨a.dat.set VALUE_LEN 0, a.datlen, by rw [List.length_set, a.size], a.fits⟩)

/-! ### What a getter sees after a set -/

@[simp] theorem store_dat (a : Attvalue) (bs : List Byte) (len : Byte) (h hl) :
    (a.store bs len h hl).dat = overlay bs a.dat := rfl

@[simp] theorem store_datlen (a : Attvalue) (bs : List Byte) (len : Byte) (h hl) :
    (a.store bs len h hl).datlen = len := rfl

/-- A number comes back through the getter of the width that was set. -/
theorem getNum_setNum {n : ℕ} (a : Attvalue) (v : BitVec (8 * n)) (h : n ≤ 8) :
    (a.setNum n v.toNat h).2.getNum n = v := by
  rw [getNum, setNum, store_dat, take_overlay _ (length_leBytes n _).ge,
    List.take_of_length_le (length_leBytes n _).le]
  exact leWord_leBytes v

@[simp] theorem getValueUint8_setValueUint8 (a : Attvalue) (i : BitVec 8) :
    (a.setValueUint8 i).2.getValueUint8 = i := getNum_setNum (n := 1) a i _

@[simp] theorem getValueUint32_setValueUint32 (a : Attvalue) (i : BitVec 32) :
    (a.setValueUint32 i).2.getValueUint32 = i := getNum_setNum (n := 4) a i _

/-- The bytes of the value: as many as the length says. -/
def value (a : Attvalue) : List Byte := a.dat.take a.datlen.toNat

theorem length_value (a : Attvalue) : a.value.length = a.datlen.toNat := by
  have h := a.fits
  have hs := a.size
  rw [value, List.length_take]
  omega

theorem value_setNum (a : Attvalue) (n v : ℕ) (h : n ≤ 8) :
    (a.setNum n v h).2.value = leBytes n v := by
  have hn : (BitVec.ofNat 8 n).toNat = n := by rw [BitVec.toNat_ofNat]; omega
  rw [value, setNum]
  simp only [store_dat, store_datlen, hn]
  rw [take_overlay _ (length_leBytes n v).ge, List.take_of_length_le (length_leBytes n v).le]

/-- The length of a value fits a byte. -/
theorem toNat_length {n : ℕ} (h : n ≤ VALUE_LEN) : (BitVec.ofNat 8 n).toNat = n := by
  have hn : n ≤ 32 := h
  rw [BitVec.toNat_ofNat]
  omega

/-- A value that fits is taken. -/
theorem setValueBytes_fits (a : Attvalue) {v : List Byte} (h : v.length ≤ VALUE_LEN) :
    (a.setValueBytes v (BitVec.ofNat 8 v.length)).1 = false := by
  rw [setValueBytes, dif_pos (by rw [toNat_length h]; exact h)]

theorem value_setValueBytes (a : Attvalue) {v : List Byte} (h : v.length ≤ VALUE_LEN) :
    (a.setValueBytes v (BitVec.ofNat 8 v.length)).2.value = v := by
  have hn := toNat_length h
  rw [setValueBytes, dif_pos (by rw [hn]; exact h)]
  simp only [value, store_dat, store_datlen, hn, List.take_length]
  rw [take_overlay _ (le_refl _), List.take_length]

/-- What a call that takes bytes has stored, where the memory has them. -/
theorem value_of_setValueBytes {a a' : Attvalue} {mem : List Byte} {len : Byte}
    (h : a.setValueBytes mem len = (false, a')) (hm : len.toNat ≤ mem.length) :
    a'.value = mem.take len.toNat := by
  unfold setValueBytes at h
  split at h
  · cases h
    have hl : (mem.take len.toNat).length = len.toNat := List.length_take_of_le hm
    simp only [value, store_dat, store_datlen]
    rw [take_overlay _ hl.ge, List.take_take, Nat.min_self]
  · cases h

/-- Storing a number's bytes is setting the number. -/
theorem setValueBytes_leBytes (a : Attvalue) (n v : ℕ) (h : n ≤ 8) :
    a.setValueBytes (leBytes n v) (BitVec.ofNat 8 (leBytes n v).length) = a.setNum n v h := by
  have hn : (BitVec.ofNat 8 n).toNat = n := by rw [BitVec.toNat_ofNat]; omega
  have ht : (leBytes n v).take n = leBytes n v := List.take_of_length_le (length_leBytes n v).le
  simp only [length_leBytes]
  rw [setValueBytes, dif_pos (by rw [hn]; simp only [VALUE_LEN]; omega)]
  simp only [hn, ht]
  rfl

end Attvalue

/-- An attribute: a value and its id. `property` and `config` are kept and
never read. -/
structure Attribute extends Attvalue where
  attid : AttId
  property : Byte
  config : Byte
  deriving DecidableEq

namespace Attribute

/-- `Attribute::Attribute`, on memory that holds `junk`. -/
def new (junk : List Byte) (h : junk.length = VALUE_LEN + 1) (id : AttId) (prop conf : Byte) :
    Attribute :=
  ⟨Attvalue.new junk h, id, prop, conf⟩

def getAttid (a : Attribute) : AttId := a.attid

/-- A method of `Attvalue` that changes the value, called on an attribute. -/
def onValue {β : Type*} (a : Attribute) (f : Attvalue → β × Attvalue) : β × Attribute :=
  ((f a.toAttvalue).1, { a with toAttvalue := (f a.toAttvalue).2 })

@[simp] theorem onValue_toAttvalue {β : Type*} (a : Attribute) (f : Attvalue → β × Attvalue) :
    (a.onValue f).2.toAttvalue = (f a.toAttvalue).2 := rfl

@[simp] theorem onValue_attid {β : Type*} (a : Attribute) (f : Attvalue → β × Attvalue) :
    (a.onValue f).2.attid = a.attid := rfl

end Attribute

end ToolbitSdk
