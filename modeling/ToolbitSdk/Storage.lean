/-
# The storage of an attribute

An `Attribute` byte by byte: the union `dat` at address 0, `datlen` after it,
and then the id, in a memory that goes on behind the object. Every method is
the writes it makes, for a `wchar_t` of 2 and of 4 bytes.

`getValueU8str` sets an element of `u8str` that the array does not have, past
the end of the union for both sizes. The storage invariant holds along a
sequence of calls exactly when that getter is not among them
(`Storage.storage_lawful_iff`), and then the object is the `Attvalue` of the
model (`Storage.refines_attvalue`).
-/
import ToolbitSdk.Lib.Mealy
import ToolbitSdk.Lib.Memory
import ToolbitSdk.RoundTrip

namespace ToolbitSdk

open Bytes Memory Attvalue

/-- The sizes of `wchar_t`. -/
inductive WChar
  | two
  | four

def WChar.size : WChar → ℕ
  | two => 2
  | four => 4

namespace Storage

/-- The union is as large as the larger of `str` and `u8str`, in steps of the
8 bytes of a double. -/
def unionSize (wc : WChar) : ℕ := (max (VALUE_LEN + 1) (wc.size * (VALUE_LEN / 2 + 1)) + 7) / 8 * 8

theorem str_le_unionSize (wc : WChar) : VALUE_LEN + 1 ≤ unionSize wc := by cases wc <;> decide

/-- Where `getValueU8str` writes is past the union. -/
theorem unionSize_le_u8str (wc : WChar) : unionSize wc ≤ wc.size * VALUE_LEN := by cases wc <;> decide

/-- What a method does: its result, the bytes it writes through a member of
`dat`, and the length it sets. -/
structure Effect where
  err : Bool
  dat : List (ℕ × Byte)
  datlen : Option Byte

/-- The memory of an object, from `dat` on. -/
def Effect.apply (wc : WChar) (m : ℕ → Byte) (e : Effect) : ℕ → Byte :=
  poke (poke m e.dat) (e.datlen.elim [] fun len => span (unionSize wc) [len])

def datlen (wc : WChar) (m : ℕ → Byte) : Byte := m (unionSize wc)

/-- `attid`, 2 bytes on the next even address. -/
def attid (wc : WChar) (m : ℕ → Byte) : List Byte := window m (unionSize wc + 2) 2

/-- `Attribute::Attribute` on memory that holds `junk`. -/
def construct (wc : WChar) (junk : ℕ → Byte) (id : AttId) (prop conf : Byte) : ℕ → Byte :=
  poke (Effect.apply wc junk ⟨false, span 0 [0], some 1⟩)
    (span (unionSize wc + 2) (leBytes 2 id.toNat ++ [prop, conf]))

/-! ### The methods -/

/-- An assignment to the member of `n` bytes. -/
def assign (n v : ℕ) : Effect := ⟨false, span 0 (leBytes n v), some (BitVec.ofNat 8 n)⟩

/-- A call of `setValue`. -/
def setEffect : SetCall → Effect
  | .int8 i | .uint8 i => assign 1 i.toNat
  | .uint16 i | .int16 i => assign 2 i.toNat
  | .uint32 i | .int32 i | .float i => assign 4 i.toNat
  | .uint64 i | .int64 i | .double i => assign 8 i.toNat
  | .str mem =>
    if (cstr mem).length < VALUE_LEN then
      ⟨false, span 0 (cstr mem ++ [0]), some (BitVec.ofNat 8 (cstr mem).length)⟩
    else ⟨true, [], none⟩
  | .bytes mem len =>
    if len.toNat ≤ VALUE_LEN then ⟨false, span 0 (mem.take len.toNat), some len⟩ else ⟨true, [], none⟩

/-- The getters of `Attvalue` but `getValueU8str`. -/
inductive Getter
  | uint8
  | int8
  | uint16
  | int16
  | uint32
  | int32
  | uint64
  | int64
  | str
  | float
  | double
  | length

inductive Call
  | set (c : SetCall)
  | get (g : Getter)
  | getAttid
  | getValueU8str

def Call.isGetter : Call → Bool
  | .set _ => false
  | .get _ | .getAttid | .getValueU8str => true

/-- What a getter returns: a number, or what a pointer points to. -/
inductive Out
  | num (n : ℕ) (v : BitVec (8 * n))
  | mem (bs : List Byte)

/-- The member of `n` bytes. -/
def member (m : ℕ → Byte) (n : ℕ) : Out := .num n (leWord (8 * n) (window m 0 n))

def Getter.out (wc : WChar) (m : ℕ → Byte) : Getter → Out
  | .uint8 | .int8 => member m 1
  | .uint16 | .int16 => member m 2
  | .uint32 | .int32 | .float => member m 4
  | .uint64 | .int64 | .double => member m 8
  | .str => .mem (window m 0 (VALUE_LEN + 1))
  | .length => .mem [datlen wc m]

def effect (wc : WChar) : Call → Effect
  | .set c => setEffect c
  | .get .str => ⟨false, span VALUE_LEN [0], none⟩
  | .get _ | .getAttid => ⟨false, [], none⟩
  | .getValueU8str => ⟨false, span (wc.size * VALUE_LEN) (List.replicate wc.size 0), none⟩

def out (wc : WChar) (m : ℕ → Byte) : Call → Option Out
  | .set _ => none
  | .get g => some (g.out wc m)
  | .getAttid => some (.mem (attid wc m))
  | .getValueU8str => some (.mem (window m 0 (wc.size * (VALUE_LEN / 2 + 1))))

def step (wc : WChar) (m : ℕ → Byte) (c : Call) : (Bool × Option Out) × (ℕ → Byte) :=
  let m' := (effect wc c).apply wc m
  (((effect wc c).err, out wc m' c), m')

/-! ### The invariant -/

/-- What each call owes the object. -/
structure Lawful (wc : WChar) (m : ℕ → Byte) (c : Call) : Prop where
  length : (datlen wc (step wc m c).2).toNat ≤ VALUE_LEN
  inside : ∀ w ∈ (effect wc c).dat, w.1 < unionSize wc
  refused : (step wc m c).1.1 = true → (step wc m c).2 = m
  getter : c.isGetter = true → datlen wc (step wc m c).2 = datlen wc m ∧
    attid wc (step wc m c).2 = attid wc m ∧ window (step wc m c).2 0 VALUE_LEN = window m 0 VALUE_LEN

/-- An effect in the bytes of `str`, with a length that a value can have; on
an error there is none. -/
structure Effect.Fits (e : Effect) : Prop where
  dat : ∃ i bs, e.dat = span i bs ∧ i + bs.length ≤ VALUE_LEN + 1
  datlen : ∀ len, e.datlen = some len → len.toNat ≤ VALUE_LEN
  refused : e.err = true → e.dat = [] ∧ e.datlen = none

section

variable {wc : WChar} {m : ℕ → Byte} {e : Effect}

theorem Effect.Fits.lt (h : e.Fits) {w : ℕ × Byte} (hw : w ∈ e.dat) : w.1 < VALUE_LEN + 1 := by
  obtain ⟨i, bs, hd, hle⟩ := h.dat
  rw [hd] at hw
  exact (fst_span hw).2.trans_le hle

theorem Effect.Fits.inside (h : e.Fits) (wc : WChar) {w : ℕ × Byte} (hw : w ∈ e.dat) :
    w.1 < unionSize wc :=
  (h.lt hw).trans_le (str_le_unionSize wc)

/-- The length is the one set, or the one it was. -/
theorem datlen_apply (h : ∀ w ∈ e.dat, w.1 < unionSize wc) :
    datlen wc (e.apply wc m) = e.datlen.getD (datlen wc m) := by
  have hd : poke m e.dat (unionSize wc) = m (unionSize wc) := poke_frame m fun w hw => (h w hw).ne
  rcases hl : e.datlen with _ | len
  · rw [datlen, Effect.apply, hl]
    exact hd
  · rw [datlen, Effect.apply, hl]
    exact Function.update_self ..

theorem attid_apply (h : ∀ w ∈ e.dat, w.1 < unionSize wc) :
    attid wc (e.apply wc m) = attid wc m := by
  have hd : window (poke m e.dat) (unionSize wc + 2) 2 = window m (unionSize wc + 2) 2 :=
    window_poke_frame m fun w hw => .inl (by have := h w hw; omega)
  rcases hl : e.datlen with _ | len
  · rw [attid, Effect.apply, hl]
    exact hd
  · rw [attid, Effect.apply, hl]
    exact (window_poke_frame _ fun w hw => .inl (by have := (fst_span hw).2; simp at this; omega)).trans hd

/-- A window in the union does not see the length. -/
theorem window_apply {n : ℕ} (h : n ≤ unionSize wc) :
    window (e.apply wc m) 0 n = window (poke m e.dat) 0 n := by
  rcases hl : e.datlen with _ | len
  · rw [Effect.apply, hl]
    rfl
  · rw [Effect.apply, hl]
    exact window_poke_frame _ fun w hw => .inr (by have := (fst_span hw).1; omega)

theorem fits_assign {n : ℕ} (v : ℕ) (h : n ≤ 8) : (assign n v).Fits where
  dat := ⟨0, _, rfl, by rw [length_leBytes]; simp only [VALUE_LEN]; omega⟩
  datlen len hl := by
    cases hl
    rw [toNat_length (by simp only [VALUE_LEN]; omega)]
    simp only [VALUE_LEN]
    omega
  refused he := by cases he

theorem fits_nothing (err : Bool) : Effect.Fits ⟨err, [], none⟩ :=
  ⟨⟨0, [], rfl, Nat.zero_le _⟩, (fun _ h => nomatch h), fun _ => ⟨rfl, rfl⟩⟩

theorem fits_setEffect (c : SetCall) : (setEffect c).Fits := by
  cases c
  case str mem =>
    rw [setEffect]
    by_cases h : (cstr mem).length < VALUE_LEN
    · rw [if_pos h]
      refine ⟨⟨0, _, rfl, by rw [List.length_append, List.length_singleton]; omega⟩, fun len hl => ?_,
        fun he => by cases he⟩
      cases hl
      rw [toNat_length h.le]
      exact h.le
    · rw [if_neg h]
      exact fits_nothing true
  case bytes mem len =>
    rw [setEffect]
    by_cases h : len.toNat ≤ VALUE_LEN
    · rw [if_pos h]
      refine ⟨⟨0, _, rfl, ?_⟩, fun l hl => ?_, fun he => by cases he⟩
      · have := List.length_take_le len.toNat mem
        omega
      · cases hl
        exact h
    · rw [if_neg h]
      exact fits_nothing true
  -- the numbers
  all_goals exact fits_assign _ (by decide)

theorem fits_get (wc : WChar) (g : Getter) : (effect wc (.get g)).Fits := by
  rcases g with _ | _ | _ | _ | _ | _ | _ | _ | _ | _ | _ | _
  case str => exact ⟨⟨VALUE_LEN, [0], rfl, le_refl _⟩, (fun _ h => nomatch h), (fun h => nomatch h)⟩
  all_goals exact fits_nothing false

/-- The bytes of the value are before the one that `getValueStr` sets. -/
theorem window_get (wc : WChar) (m : ℕ → Byte) (g : Getter) :
    window ((effect wc (.get g)).apply wc m) 0 VALUE_LEN = window m 0 VALUE_LEN := by
  rw [window_apply ((Nat.le_succ _).trans (str_le_unionSize wc))]
  rcases g with _ | _ | _ | _ | _ | _ | _ | _ | _ | _ | _ | _
  case str => exact window_poke_frame m fun w hw => .inr ((Nat.zero_add _).trans_le (fst_span hw).1)
  all_goals rfl

theorem fits_of_ne (wc : WChar) {c : Call} (h : c ≠ .getValueU8str) : (effect wc c).Fits := by
  rcases c with c | g | _ | _
  · exact fits_setEffect c
  · exact fits_get wc g
  · exact fits_nothing false
  · exact absurd rfl h

/-- A call but `getValueU8str` keeps the invariant. -/
theorem lawful_of_ne {c : Call} (h : c ≠ .getValueU8str) (hm : (datlen wc m).toNat ≤ VALUE_LEN) :
    Lawful wc m c := by
  have hf := fits_of_ne wc h
  have hin : ∀ w ∈ (effect wc c).dat, w.1 < unionSize wc := fun w hw => hf.inside wc hw
  have hlen : datlen wc (step wc m c).2 = (effect wc c).datlen.getD (datlen wc m) := datlen_apply hin
  refine ⟨?_, hin, fun he => ?_, fun hg => ⟨?_, attid_apply hin, ?_⟩⟩
  · rw [hlen]
    rcases hl : (effect wc c).datlen with _ | len
    · exact hm
    · exact hf.datlen len hl
  · obtain ⟨hd, hl⟩ := hf.refused he
    show (effect wc c).apply wc m = m
    rw [Effect.apply, hd, hl]
    rfl
  · rw [hlen]
    rcases c with c | g | _ | _
    · cases hg
    · rcases g <;> rfl
    · rfl
    · exact absurd rfl h
  · rcases c with c | g | _ | _
    · cases hg
    · exact window_get wc m g
    · rfl
    · exact absurd rfl h

/-- `getValueU8str` writes outside the union. -/
theorem not_lawful_u8str : ¬ Lawful wc m .getValueU8str := by
  intro h
  have hlt := h.inside (wc.size * VALUE_LEN, 0) (by rcases wc <;> exact List.mem_cons_self)
  have hle := unionSize_le_u8str wc
  omega

theorem lawful_iff_ne (c : Call) (hm : (datlen wc m).toNat ≤ VALUE_LEN) :
    Lawful wc m c ↔ c ≠ .getValueU8str := by
  constructor
  · rintro h rfl
    exact not_lawful_u8str h
  · exact fun h => lawful_of_ne h hm

theorem along_lawful_iff : ∀ (cs : List Call) {m : ℕ → Byte}, (datlen wc m).toNat ≤ VALUE_LEN →
    (Mealy.Along (step wc) (Lawful wc) m cs ↔ ∀ c ∈ cs, c ≠ .getValueU8str)
  | [], _, _ => iff_of_true trivial fun _ h => nomatch h
  | c :: cs, m, hm => by
    rw [Mealy.Along, List.forall_mem_cons, lawful_iff_ne c hm]
    refine and_congr_right fun hc => along_lawful_iff cs ?_
    exact (lawful_of_ne hc hm).length

/-- A new object has a value of one byte. -/
theorem datlen_construct (wc : WChar) (junk : ℕ → Byte) (id : AttId) (prop conf : Byte) :
    datlen wc (construct wc junk id prop conf) = 1 := by
  have hle := str_le_unionSize wc
  rw [datlen, construct, poke_span_frame _ _ _ (.inl (by omega))]
  exact datlen_apply fun w hw => by
    have := (fst_span hw).2
    simp at this
    omega

end

/-- **The storage invariant.** Along every sequence of calls on an attribute,
the length is at most `VALUE_LEN`, every byte is written inside the union, a
`setValue` that fails changes nothing and a getter leaves the length, the id
and the value's bytes, exactly when `getValueU8str` is not called. -/
theorem storage_lawful_iff (wc : WChar) (junk : ℕ → Byte) (id : AttId) (prop conf : Byte) (cs : List Call) :
    Mealy.Along (step wc) (Lawful wc) (construct wc junk id prop conf) cs ↔ ∀ c ∈ cs, c ≠ .getValueU8str :=
  along_lawful_iff cs (by rw [datlen_construct]; decide)

/-- The wide-string getter, with either `wchar_t`. -/
theorem u8str_outside : ¬ ∀ (wc : WChar) (junk : ℕ → Byte) (id : AttId) (prop conf : Byte) (cs : List Call),
    Mealy.Along (step wc) (Lawful wc) (construct wc junk id prop conf) cs := by
  intro h
  exact not_lawful_u8str (h .two (fun _ => 0) 0 0 0 [.getValueU8str]).1

/-! ### The object is an Attvalue -/

/-- The calls that the model of attributes has. -/
abbrev Plain := SetCall ⊕ Getter

def Plain.call : Plain → Call
  | .inl c => .set c
  | .inr g => .get g

/-- The union, as the bytes of `str`, and the length are those of `a`. -/
structure Holds (wc : WChar) (m : ℕ → Byte) (a : Attvalue) : Prop where
  dat : window m 0 (VALUE_LEN + 1) = a.dat
  datlen : datlen wc m = a.datlen

def Getter.outOf (a : Attvalue) : Getter → Out
  | .uint8 => .num 1 a.getValueUint8
  | .int8 => .num 1 a.getValueInt8
  | .uint16 => .num 2 a.getValueUint16
  | .int16 => .num 2 a.getValueInt16
  | .uint32 => .num 4 a.getValueUint32
  | .int32 => .num 4 a.getValueInt32
  | .uint64 => .num 8 a.getValueUint64
  | .int64 => .num 8 a.getValueInt64
  | .str => .mem a.getValueStr.1
  | .float => .num 4 a.getValueFloat
  | .double => .num 8 a.getValueDouble
  | .length => .mem [a.getValueLength]

def attStep (a : Attvalue) : Plain → (Bool × Option Out) × Attvalue
  | .inl c => (((c.apply a).1, none), (c.apply a).2)
  | .inr .str => ((false, some (Getter.str.outOf a)), a.getValueStr.2)
  | .inr g => ((false, some (g.outOf a)), a)

section

variable {wc : WChar} {m : ℕ → Byte} {a : Attvalue}

theorem holds_store (h : window m 0 (VALUE_LEN + 1) = a.dat) {bs : List Byte} {len : Byte}
    (hb : bs.length ≤ VALUE_LEN + 1) (hl : len.toNat ≤ VALUE_LEN) :
    Holds wc (Effect.apply wc m ⟨false, span 0 bs, some len⟩) (a.store bs len hb hl) where
  dat := by
    rw [window_apply (str_le_unionSize wc), window_poke_span m 0 hb, h]
    rfl
  datlen := datlen_apply fun w hw => by
    have hlt := (fst_span hw).2
    have hle := str_le_unionSize wc
    omega

/-- What the constructor leaves. -/
theorem holds_construct (wc : WChar) (junk : ℕ → Byte) (id : AttId) (prop conf : Byte) :
    Holds wc (construct wc junk id prop conf) (.new (window junk 0 (VALUE_LEN + 1)) (length_window _ _ _)) := by
  have hle := str_le_unionSize wc
  refine ⟨?_, datlen_construct wc junk id prop conf⟩
  have hw : window (construct wc junk id prop conf) 0 (VALUE_LEN + 1) =
      window (Effect.apply wc junk ⟨false, span 0 [0], some 1⟩) 0 (VALUE_LEN + 1) :=
    window_poke_frame _ fun w hw => .inr (by have := (fst_span hw).1; omega)
  rw [hw, window_apply hle]
  exact window_poke_span junk 0 (by decide)

theorem Holds.member (h : Holds wc m a) {n : ℕ} (hn : n ≤ VALUE_LEN + 1) :
    Storage.member m n = .num n (a.getNum n) := by
  rw [Storage.member, getNum, ← h.dat, take_window m 0 hn]

theorem Holds.setStr (h : Holds wc m a) :
    Holds wc (Effect.apply wc m ⟨false, span VALUE_LEN [0], none⟩) a.getValueStr.2 where
  dat := by
    have hw := window_update m 0 VALUE_LEN (VALUE_LEN + 1) 0
    rw [Nat.zero_add, h.dat] at hw
    exact hw
  datlen := h.datlen ▸ datlen_apply fun w hw => by
    have hlt := (fst_span hw).2
    have hle := str_le_unionSize wc
    rw [List.length_singleton] at hlt
    omega

theorem Holds.assign (h : Holds wc m a) {n : ℕ} (v : ℕ) (hn : n ≤ 8) :
    Holds wc ((Storage.assign n v).apply wc m) (a.setNum n v hn).2 :=
  holds_store h.dat (by rw [length_leBytes]; simp only [VALUE_LEN]; omega)
    (by rw [toNat_length (by simp only [VALUE_LEN]; omega)]; simp only [VALUE_LEN]; omega)

theorem Holds.set (h : Holds wc m a) (c : SetCall) :
    (setEffect c).err = (c.apply a).1 ∧ Holds wc ((setEffect c).apply wc m) (c.apply a).2 := by
  cases c
  case str mem =>
    by_cases hl : (cstr mem).length < VALUE_LEN
    · rw [setEffect, if_pos hl, SetCall.apply, setValueStr, dif_pos hl]
      refine ⟨rfl, holds_store h.dat ?_ ?_⟩
      · rw [List.length_append, List.length_singleton]
        omega
      · rw [toNat_length hl.le]
        exact hl.le
    · rw [setEffect, if_neg hl, SetCall.apply, setValueStr, dif_neg hl]
      exact ⟨rfl, h⟩
  case bytes mem len =>
    by_cases hl : len.toNat ≤ VALUE_LEN
    · rw [setEffect, if_pos hl, SetCall.apply, setValueBytes, dif_pos hl]
      have hle := List.length_take_le len.toNat mem
      exact ⟨rfl, holds_store h.dat (by omega) hl⟩
    · rw [setEffect, if_neg hl, SetCall.apply, setValueBytes, dif_neg hl]
      exact ⟨rfl, h⟩
  -- the numbers
  all_goals exact ⟨rfl, h.assign _ (by decide)⟩

/-- A call does what the method of `Attvalue` does. -/
theorem Holds.step (h : Holds wc m a) (c : Plain) :
    (Storage.step wc m c.call).1 = (attStep a c).1 ∧ Holds wc (Storage.step wc m c.call).2 (attStep a c).2 := by
  rcases c with c | g
  · obtain ⟨he, hs⟩ := h.set c
    exact ⟨congrArg (·, none) he, hs⟩
  · have num : ∀ n ≤ 8, (false, some (Storage.member m n)) = (false, some (Out.num n (a.getNum n))) := fun n hn =>
      congrArg (fun o => (false, some o)) (h.member (by simp only [VALUE_LEN]; omega))
    rcases g with _ | _ | _ | _ | _ | _ | _ | _ | _ | _ | _ | _
    · exact ⟨num 1 (by decide), h⟩
    · exact ⟨num 1 (by decide), h⟩
    · exact ⟨num 2 (by decide), h⟩
    · exact ⟨num 2 (by decide), h⟩
    · exact ⟨num 4 (by decide), h⟩
    · exact ⟨num 4 (by decide), h⟩
    · exact ⟨num 8 (by decide), h⟩
    · exact ⟨num 8 (by decide), h⟩
    · exact ⟨congrArg (fun bs => (false, some (Out.mem bs))) h.setStr.dat, h.setStr⟩
    · exact ⟨num 4 (by decide), h⟩
    · exact ⟨num 8 (by decide), h⟩
    · exact ⟨congrArg (fun len => (false, some (Out.mem [len]))) h.datlen, h⟩

end

/-- Without `getValueU8str`, a new object is an `Attvalue`: every call
returns the same, and leaves the same bytes and length. -/
theorem refines_attvalue (wc : WChar) (junk : ℕ → Byte) (id : AttId) (prop conf : Byte) (cs : List Plain) :
    List.Forall₂ (fun x y => x.1 = y.1 ∧ Holds wc x.2 y.2)
      (Mealy.trace (fun m (c : Plain) => step wc m c.call) (construct wc junk id prop conf) cs)
      (Mealy.trace attStep (.new (window junk 0 (VALUE_LEN + 1)) (length_window _ _ _)) cs) :=
  Mealy.trace_simulate (fun _ _ c h => h.step c) cs (holds_construct wc junk id prop conf)

end Storage

end ToolbitSdk
