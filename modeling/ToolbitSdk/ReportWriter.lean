/-
# Writing a report descriptor

`rd_append_byte` and `rd_write_short_item` of
`hidapi/windows/hidapi_descriptor_reconstruct.c`, which write a descriptor
item by item into a buffer of a given size. An item has the smallest number
of data bytes that holds its value, signed for the four limits; a value that
no size holds is refused and nothing is written, and the callers look at no
result. What comes after the end of the buffer is left out.

The readers of `hidapi/linux/hid.c` are another program for the same format.
Where the buffer is large enough they read back the items that were not
refused, each with its value (`readItems_writeItems`), so that what
`get_next_hid_usage` reports is settled by the items (`usages_writeItems`).
-/
import ToolbitSdk.Descriptor
import Mathlib.Tactic.IntervalCases

namespace ToolbitSdk
namespace ReportWriter

open Bytes Brackets Descriptor

/-! ### The code -/

/-- `rd_items`. -/
inductive RdItem
  | main_input
  | main_output
  | main_feature
  | main_collection
  | main_collection_end
  | global_usage_page
  | global_logical_minimum
  | global_logical_maximum
  | global_physical_minimum
  | global_physical_maximum
  | global_unit_exponent
  | global_unit
  | global_report_size
  | global_report_id
  | global_report_count
  | global_push
  | global_pop
  | local_usage
  | local_usage_minimum
  | local_usage_maximum
  | local_designator_index
  | local_designator_minimum
  | local_designator_maximum
  | local_string
  | local_string_minimum
  | local_string_maximum
  | local_delimiter
  deriving DecidableEq

def RdItem.code : RdItem → Byte
  | main_input => 0x80
  | main_output => 0x90
  | main_feature => 0xB0
  | main_collection => 0xA0
  | main_collection_end => 0xC0
  | global_usage_page => 0x04
  | global_logical_minimum => 0x14
  | global_logical_maximum => 0x24
  | global_physical_minimum => 0x34
  | global_physical_maximum => 0x44
  | global_unit_exponent => 0x54
  | global_unit => 0x64
  | global_report_size => 0x74
  | global_report_id => 0x84
  | global_report_count => 0x94
  | global_push => 0xA4
  | global_pop => 0xB4
  | local_usage => 0x08
  | local_usage_minimum => 0x18
  | local_usage_maximum => 0x28
  | local_designator_index => 0x38
  | local_designator_minimum => 0x48
  | local_designator_maximum => 0x58
  | local_string => 0x78
  | local_string_minimum => 0x88
  | local_string_maximum => 0x98
  | local_delimiter => 0xA8

/-- `struct rd_buffer`, of whose memory only what has been written matters. -/
structure RdBuffer where
  buf : List Byte
  buf_size : ℕ
  le : buf.length ≤ buf_size

def RdBuffer.empty (buf_size : ℕ) : RdBuffer := ⟨[], buf_size, Nat.zero_le _⟩

def rdAppendByte (byte : Byte) (rpt_desc : RdBuffer) : RdBuffer :=
  if h : rpt_desc.buf.length < rpt_desc.buf_size then
    { rpt_desc with buf := rpt_desc.buf ++ [byte], le := by rw [List.length_append]; exact h }
  else rpt_desc

def rdWriteShortItem (rd_item : RdItem) (data : ℤ) (rpt_desc : RdBuffer) : ℤ × RdBuffer :=
  if rd_item.code &&& 0x03 ≠ 0 then (-1, rpt_desc)
  else if rd_item = .main_collection_end then (0, rdAppendByte (rd_item.code + 0x00) rpt_desc)
  else if rd_item = .global_logical_minimum ∨ rd_item = .global_logical_maximum ∨
      rd_item = .global_physical_minimum ∨ rd_item = .global_physical_maximum then
    if -128 ≤ data ∧ data ≤ 127 then
      let localData : BitVec 8 := .ofInt 8 data
      (0, rdAppendByte (localData &&& 0xFF) (rdAppendByte (rd_item.code + 0x01) rpt_desc))
    else if -32768 ≤ data ∧ data ≤ 32767 then
      let localData : BitVec 16 := .ofInt 16 data
      (0, rdAppendByte ((localData.sshiftRight 8 &&& 0xFF).setWidth 8)
        (rdAppendByte ((localData &&& 0xFF).setWidth 8) (rdAppendByte (rd_item.code + 0x02) rpt_desc)))
    else if -2147483648 ≤ data ∧ data ≤ 2147483647 then
      let localData : BitVec 32 := .ofInt 32 data
      (0, rdAppendByte ((localData.sshiftRight 24 &&& 0xFF).setWidth 8)
        (rdAppendByte ((localData.sshiftRight 16 &&& 0xFF).setWidth 8)
          (rdAppendByte ((localData.sshiftRight 8 &&& 0xFF).setWidth 8)
            (rdAppendByte ((localData &&& 0xFF).setWidth 8) (rdAppendByte (rd_item.code + 0x03) rpt_desc)))))
    else (-1, rpt_desc)
  else if 0 ≤ data ∧ data ≤ 0xFF then
    let localData : BitVec 8 := .ofInt 8 data
    (0, rdAppendByte (localData &&& 0xFF) (rdAppendByte (rd_item.code + 0x01) rpt_desc))
  else if 0 ≤ data ∧ data ≤ 0xFFFF then
    let localData : BitVec 16 := .ofInt 16 data
    (0, rdAppendByte ((localData >>> 8 &&& 0xFF).setWidth 8)
      (rdAppendByte ((localData &&& 0xFF).setWidth 8) (rdAppendByte (rd_item.code + 0x02) rpt_desc)))
  else if 0 ≤ data ∧ data ≤ 0xFFFFFFFF then
    let localData : BitVec 32 := .ofInt 32 data
    (0, rdAppendByte ((localData >>> 24 &&& 0xFF).setWidth 8)
      (rdAppendByte ((localData >>> 16 &&& 0xFF).setWidth 8)
        (rdAppendByte ((localData >>> 8 &&& 0xFF).setWidth 8)
          (rdAppendByte ((localData &&& 0xFF).setWidth 8) (rdAppendByte (rd_item.code + 0x03) rpt_desc)))))
  else (-1, rpt_desc)

/-- A run of items, as the encoder writes them: with no look at the results. -/
def writeItems (ws : List (RdItem × ℤ)) (rpt_desc : RdBuffer) : RdBuffer :=
  ws.foldl (fun b w => (rdWriteShortItem w.1 w.2 b).2) rpt_desc

/-! ### What is written -/

/-- The limits, whose values have a sign. -/
def RdItem.signed (i : RdItem) : Bool :=
  i = .global_logical_minimum ∨ i = .global_logical_maximum ∨ i = .global_physical_minimum ∨
    i = .global_physical_maximum

/-- The values that `n` data bytes hold. -/
def holds (i : RdItem) (n : ℕ) (x : ℤ) : Prop :=
  if i.signed then -(256 ^ n / 2) ≤ x ∧ x < 256 ^ n / 2 else 0 ≤ x ∧ x < 256 ^ n

instance (i : RdItem) (n : ℕ) (x : ℤ) : Decidable (holds i n x) := by
  unfold holds
  infer_instance

/-- The number of data bytes of an item; none where it is refused. -/
def dataSize (w : RdItem × ℤ) : Option ℕ :=
  if w.1 = .main_collection_end then some 0 else [1, 2, 4].find? fun n => holds w.1 n w.2

/-- The size code of a key. -/
def sizeCode (n : ℕ) : Byte := if n = 4 then 3 else BitVec.ofNat 8 n

/-- The bytes of an item with `n` bytes of data. -/
def encoded (w : RdItem × ℤ) (n : ℕ) : List Byte :=
  (w.1.code + sizeCode n) :: leBytes n (w.2 % 256 ^ n).toNat

def itemBytes (w : RdItem × ℤ) : List Byte := ((dataSize w).map (encoded w)).getD []

/-- What room there is for. -/
def RdBuffer.append (b : RdBuffer) (bs : List Byte) : RdBuffer :=
  ⟨(b.buf ++ bs).take b.buf_size, b.buf_size, List.length_take_le _ _⟩

theorem append_nil (b : RdBuffer) : b.append [] = b := by
  cases b with
  | mk buf buf_size le =>
    simp only [RdBuffer.append, List.append_nil, List.take_of_length_le le]

theorem append_append (b : RdBuffer) (bs cs : List Byte) :
    (b.append bs).append cs = b.append (bs ++ cs) := by
  simp only [RdBuffer.append, RdBuffer.mk.injEq, and_true]
  have hright : ((b.buf ++ bs) ++ cs).take b.buf_size = _ := List.take_append
  rw [List.take_append, List.take_take, min_self, ← List.append_assoc, hright, List.length_take]
  congr 2
  omega

theorem rdAppendByte_eq (byte : Byte) (b : RdBuffer) : rdAppendByte byte b = b.append [byte] := by
  unfold rdAppendByte RdBuffer.append
  have hle := b.le
  split
  · simp only [RdBuffer.mk.injEq, and_true]
    rw [List.take_of_length_le]
    rw [List.length_append, List.length_singleton]
    omega
  · have hfull : b.buf.length = b.buf_size := by omega
    cases b with
    | mk buf buf_size le =>
      simp only [RdBuffer.mk.injEq, and_true]
      exact (List.take_left' hfull).symm

section

variable {w : ℕ} (v : BitVec w) (k : ℕ)

/-- Byte `k` of a word. -/
theorem byte_shiftRight (h : 8 * k + 8 ≤ w) :
    (v >>> (8 * k) &&& 0xFF).setWidth 8 = BitVec.ofNat 8 (v.toNat / 256 ^ k) := by
  have hff : (0xFF : BitVec w).toNat = 2 ^ 8 - 1 := by
    refine Nat.mod_eq_of_lt ?_
    calc 255 < 2 ^ 8 := by norm_num
      _ ≤ 2 ^ w := Nat.pow_le_pow_right (by norm_num) (by omega)
  apply BitVec.eq_of_toNat_eq
  rw [BitVec.toNat_setWidth, BitVec.toNat_and, hff, BitVec.toNat_ushiftRight, BitVec.toNat_ofNat,
    Nat.shiftRight_eq_div_pow, two_pow_eight_mul, Nat.and_two_pow_sub_one_eq_mod, Nat.mod_mod]

/-- The sign does not come into it. -/
theorem sshiftRight_byte (h : 8 * k + 8 ≤ w) :
    (v.sshiftRight (8 * k) &&& 0xFF).setWidth 8 = (v >>> (8 * k) &&& 0xFF).setWidth 8 := by
  ext i hi
  have hlt : 8 * k + i < w := by omega
  have hi' : i < w := by omega
  simp [BitVec.getElem_sshiftRight, hlt, hi']

end

section

variable (x : ℤ)

theorem toNat_ofInt_bytes {n w : ℕ} (h : w = 8 * n) :
    (BitVec.ofInt w x).toNat = (x % 256 ^ n).toNat := by
  subst h
  rw [BitVec.toNat_ofInt, two_pow_eight_mul]
  norm_cast

theorem bytes_one : [BitVec.ofInt 8 x &&& 0xFF] = leBytes 1 (x % 256 ^ 1).toNat := by
  have h := byte_shiftRight (BitVec.ofInt 8 x) 0 (by decide)
  rw [toNat_ofInt_bytes x (n := 1) rfl, pow_zero, Nat.div_one] at h
  have hself : (BitVec.ofInt 8 x >>> (8 * 0) &&& 0xFF).setWidth 8 = BitVec.ofInt 8 x &&& 0xFF := BitVec.setWidth_eq _
  rw [leBytes, leBytes, ← h, hself]

theorem bytes_two : [(BitVec.ofInt 16 x &&& 0xFF).setWidth 8, (BitVec.ofInt 16 x >>> 8 &&& 0xFF).setWidth 8] =
    leBytes 2 (x % 256 ^ 2).toNat := by
  have h0 := byte_shiftRight (BitVec.ofInt 16 x) 0 (by decide)
  have h1 := byte_shiftRight (BitVec.ofInt 16 x) 1 (by decide)
  rw [toNat_ofInt_bytes x (n := 2) rfl] at h0 h1
  rw [pow_zero, Nat.div_one] at h0
  rw [pow_one] at h1
  rw [leBytes, leBytes, leBytes, ← h0, ← h1]
  rfl

theorem bytes_four : [(BitVec.ofInt 32 x &&& 0xFF).setWidth 8, (BitVec.ofInt 32 x >>> 8 &&& 0xFF).setWidth 8,
    (BitVec.ofInt 32 x >>> 16 &&& 0xFF).setWidth 8, (BitVec.ofInt 32 x >>> 24 &&& 0xFF).setWidth 8] =
    leBytes 4 (x % 256 ^ 4).toNat := by
  have h0 := byte_shiftRight (BitVec.ofInt 32 x) 0 (by decide)
  have h1 := byte_shiftRight (BitVec.ofInt 32 x) 1 (by decide)
  have h2 := byte_shiftRight (BitVec.ofInt 32 x) 2 (by decide)
  have h3 := byte_shiftRight (BitVec.ofInt 32 x) 3 (by decide)
  rw [toNat_ofInt_bytes x (n := 4) rfl] at h0 h1 h2 h3
  rw [pow_zero, Nat.div_one] at h0
  rw [pow_one] at h1
  rw [show 256 ^ 2 = 256 * 256 from rfl, ← Nat.div_div_eq_div_mul] at h2
  rw [show 256 ^ 3 = 256 * 256 * 256 from rfl, ← Nat.div_div_eq_div_mul, ← Nat.div_div_eq_div_mul] at h3
  rw [leBytes, leBytes, leBytes, leBytes, leBytes, ← h0, ← h1, ← h2, ← h3]
  rfl

end

theorem code_and (i : RdItem) : i.code &&& 0x03 = 0 := by cases i <;> decide

section

variable {i : RdItem} {x : ℤ} (b : RdBuffer)

theorem dataSize_of_ne (h : i ≠ .main_collection_end) :
    dataSize (i, x) =
      if holds i 1 x then some 1 else if holds i 2 x then some 2 else if holds i 4 x then some 4 else none := by
  rw [dataSize, if_neg h]
  simp only [List.find?]
  split_ifs <;> simp [*]

theorem append_one : rdAppendByte (BitVec.ofInt 8 x &&& 0xFF) (rdAppendByte (i.code + 0x01) b) =
    b.append (encoded (i, x) 1) := by
  rw [rdAppendByte_eq, rdAppendByte_eq, append_append, bytes_one]
  rfl

theorem append_two : rdAppendByte ((BitVec.ofInt 16 x >>> 8 &&& 0xFF).setWidth 8)
      (rdAppendByte ((BitVec.ofInt 16 x &&& 0xFF).setWidth 8) (rdAppendByte (i.code + 0x02) b)) =
    b.append (encoded (i, x) 2) := by
  rw [rdAppendByte_eq, rdAppendByte_eq, rdAppendByte_eq, append_append, append_append]
  exact congrArg (fun bs => b.append (_ :: bs)) (bytes_two x)

theorem append_four : rdAppendByte ((BitVec.ofInt 32 x >>> 24 &&& 0xFF).setWidth 8)
      (rdAppendByte ((BitVec.ofInt 32 x >>> 16 &&& 0xFF).setWidth 8)
        (rdAppendByte ((BitVec.ofInt 32 x >>> 8 &&& 0xFF).setWidth 8)
          (rdAppendByte ((BitVec.ofInt 32 x &&& 0xFF).setWidth 8) (rdAppendByte (i.code + 0x03) b)))) =
    b.append (encoded (i, x) 4) := by
  rw [rdAppendByte_eq, rdAppendByte_eq, rdAppendByte_eq, rdAppendByte_eq, rdAppendByte_eq, append_append,
    append_append, append_append, append_append]
  exact congrArg (fun bs => b.append (_ :: bs)) (bytes_four x)

theorem append_two_signed : rdAppendByte (((BitVec.ofInt 16 x).sshiftRight 8 &&& 0xFF).setWidth 8)
      (rdAppendByte ((BitVec.ofInt 16 x &&& 0xFF).setWidth 8) (rdAppendByte (i.code + 0x02) b)) =
    b.append (encoded (i, x) 2) := by
  have h1 := sshiftRight_byte (BitVec.ofInt 16 x) 1 (by decide)
  rw [← append_two]
  exact congrArg₂ rdAppendByte h1 rfl

theorem append_four_signed : rdAppendByte (((BitVec.ofInt 32 x).sshiftRight 24 &&& 0xFF).setWidth 8)
      (rdAppendByte (((BitVec.ofInt 32 x).sshiftRight 16 &&& 0xFF).setWidth 8)
        (rdAppendByte (((BitVec.ofInt 32 x).sshiftRight 8 &&& 0xFF).setWidth 8)
          (rdAppendByte ((BitVec.ofInt 32 x &&& 0xFF).setWidth 8) (rdAppendByte (i.code + 0x03) b)))) =
    b.append (encoded (i, x) 4) := by
  have h1 := sshiftRight_byte (BitVec.ofInt 32 x) 1 (by decide)
  have h2 := sshiftRight_byte (BitVec.ofInt 32 x) 2 (by decide)
  have h3 := sshiftRight_byte (BitVec.ofInt 32 x) 3 (by decide)
  rw [← append_four]
  exact congrArg₂ rdAppendByte h3 (congrArg₂ rdAppendByte h2 (congrArg₂ rdAppendByte h1 rfl))

theorem holds_of_signed {n : ℕ} (h : i.signed = true) :
    holds i n x ↔ -(256 ^ n / 2) ≤ x ∧ x < 256 ^ n / 2 := by
  rw [holds, if_pos h]

theorem holds_of_not_signed {n : ℕ} (h : ¬ i.signed = true) :
    holds i n x ↔ 0 ≤ x ∧ x < 256 ^ n := by
  rw [holds, if_neg h]

/-- What the writer of an item leaves. -/
theorem rdWriteShortItem_eq : rdWriteShortItem i x b =
    ((dataSize (i, x)).map fun n => ((0 : ℤ), b.append (encoded (i, x) n))).getD (-1, b) := by
  unfold rdWriteShortItem
  rw [if_neg (not_not.mpr (code_and i))]
  by_cases hend : i = .main_collection_end
  · subst hend
    rw [if_pos rfl, rdAppendByte_eq]
    rfl
  rw [if_neg hend, dataSize_of_ne hend]
  by_cases hs : i.signed = true
  · have h1 : holds i 1 x ↔ -128 ≤ x ∧ x ≤ 127 := by rw [holds_of_signed hs]; omega
    have h2 : holds i 2 x ↔ -32768 ≤ x ∧ x ≤ 32767 := by rw [holds_of_signed hs]; omega
    have h4 : holds i 4 x ↔ -2147483648 ≤ x ∧ x ≤ 2147483647 := by rw [holds_of_signed hs]; omega
    rw [if_pos (of_decide_eq_true hs)]
    simp only [h1, h2, h4]
    split_ifs
    · exact congrArg _ (append_one b)
    · exact congrArg _ (append_two_signed b)
    · exact congrArg _ (append_four_signed b)
    · rfl
  · have h1 : holds i 1 x ↔ 0 ≤ x ∧ x ≤ 0xFF := by rw [holds_of_not_signed hs]; omega
    have h2 : holds i 2 x ↔ 0 ≤ x ∧ x ≤ 0xFFFF := by rw [holds_of_not_signed hs]; omega
    have h4 : holds i 4 x ↔ 0 ≤ x ∧ x ≤ 0xFFFFFFFF := by rw [holds_of_not_signed hs]; omega
    rw [if_neg fun h => hs (decide_eq_true h)]
    simp only [h1, h2, h4]
    split_ifs
    · exact congrArg _ (append_one b)
    · exact congrArg _ (append_two b)
    · exact congrArg _ (append_four b)
    · rfl

end

/-- Refused items write nothing. -/
theorem rdWriteShortItem_snd (w : RdItem × ℤ) (b : RdBuffer) :
    (rdWriteShortItem w.1 w.2 b).2 = b.append (itemBytes w) := by
  rw [rdWriteShortItem_eq, itemBytes]
  cases dataSize (w.1, w.2) with
  | none => exact (append_nil b).symm
  | some n => rfl

theorem writeItems_eq (ws : List (RdItem × ℤ)) (b : RdBuffer) :
    writeItems ws b = b.append (ws.flatMap itemBytes) := by
  induction ws generalizing b with
  | nil => exact (append_nil b).symm
  | cons w ws ih =>
    rw [writeItems, List.foldl_cons, rdWriteShortItem_snd, List.flatMap_cons, ← append_append]
    exact ih _

/-- The items that are not refused. -/
def accepted (ws : List (RdItem × ℤ)) : List (RdItem × ℤ) := ws.filter fun w => (dataSize w).isSome

theorem flatMap_accepted (ws : List (RdItem × ℤ)) :
    (accepted ws).flatMap itemBytes = ws.flatMap itemBytes := by
  induction ws with
  | nil => rfl
  | cons w ws ih =>
    rw [accepted, List.filter_cons, List.flatMap_cons, ← ih]
    cases h : dataSize w with
    | none => rw [itemBytes, h]; rfl
    | some n => rfl

/-- With room for all of it. -/
theorem buf_writeItems {ws : List (RdItem × ℤ)} {buf_size : ℕ} (h : (ws.flatMap itemBytes).length ≤ buf_size) :
    (writeItems ws (.empty buf_size)).buf = (accepted ws).flatMap itemBytes := by
  rw [writeItems_eq, flatMap_accepted]
  exact List.take_of_length_le h

/-! ### Keys -/

theorem size_cases {w : RdItem × ℤ} {n : ℕ} (h : dataSize w = some n) :
    n = 0 ∧ w.1 = .main_collection_end ∨
      (n = 1 ∨ n = 2 ∨ n = 4) ∧ w.1 ≠ .main_collection_end ∧ holds w.1 n w.2 := by
  unfold dataSize at h
  split at h
  · exact .inl ⟨(Option.some.inj h).symm, ‹_›⟩
  · have hmem := List.mem_of_find?_eq_some h
    simp only [List.mem_cons, List.not_mem_nil, or_false] at hmem
    have hholds := @List.find?_some ℕ (fun n => decide (holds w.1 n w.2)) n _ h
    exact .inr ⟨hmem, ‹_›, of_decide_eq_true hholds⟩

theorem size_values {w : RdItem × ℤ} {n : ℕ} (h : dataSize w = some n) :
    n = 0 ∨ n = 1 ∨ n = 2 ∨ n = 4 := by
  obtain ⟨rfl, -⟩ | ⟨hn, -⟩ := size_cases h
  · exact .inl rfl
  · exact .inr hn

section

variable {n : ℕ} (i : RdItem) (h : n = 0 ∨ n = 1 ∨ n = 2 ∨ n = 4)

include h

/-- An item and its size do not mix in the key. -/
theorem key_and : (i.code + sizeCode n) &&& 0xfc = i.code := by
  rcases h with rfl | rfl | rfl | rfl <;> cases i <;> decide

theorem dataLen_key : dataLen (i.code + sizeCode n) = n := by
  rcases h with rfl | rfl | rfl | rfl <;> cases i <;> decide

/-- No item is a long one. -/
theorem key_short : (i.code + sizeCode n) &&& 0xf0 ≠ 0xf0 := by
  rcases h with rfl | rfl | rfl | rfl <;> cases i <;> decide

end

/-- The item of the wire format that is written. -/
def wireItem (w : RdItem × ℤ) (n : ℕ) (h : dataSize w = some n) : WireItem :=
  .short (w.1.code + sizeCode n) (leBytes n (w.2 % 256 ^ n).toNat)
    ⟨key_short w.1 (size_values h), by rw [length_leBytes, dataLen_key w.1 (size_values h)]⟩

theorem itemBytes_eq {w : RdItem × ℤ} {n : ℕ} (h : dataSize w = some n) :
    itemBytes w = encoded w n := by
  rw [itemBytes, h]
  rfl

/-! ### What the readers see -/

/-- What the readers take an item for. -/
def itemToken : RdItem × ℤ → Token Item
  | (.global_usage_page, x) => .leaf (.usagePage (BitVec.ofInt 16 x))
  | (.local_usage, x) =>
    .leaf (if x ≤ 0xFFFF then .usage none (BitVec.ofInt 16 x)
      else .usage (some (BitVec.ofInt 16 (x / 0x10000))) (BitVec.ofInt 16 x))
  | (.main_collection, _) => .opens
  | (.main_collection_end, _) => .closes
  | _ => .leaf .other

theorem word_leBytes (n v : ℕ) : word n (leBytes n v) = BitVec.ofNat 16 (v % 256 ^ n) := by
  rw [word, length_leBytes, if_neg (lt_irrefl n), leWord, List.take_of_length_le (length_leBytes n v).le,
    leNat_leBytes]

theorem leBytes_four (v : ℕ) : leBytes 4 v = leBytes 2 v ++ leBytes 2 (v / 0x10000) := by
  have h : v / 256 / 256 = v / 0x10000 := Nat.div_div_eq_div_mul v 256 256
  simp only [leBytes, h, List.cons_append, List.nil_append]

theorem holds_of_dataSize {i : RdItem} {x : ℤ} {n : ℕ} (h : dataSize (i, x) = some n)
    (hi : i ≠ .main_collection_end)
    (hs : i.signed = false) : ∃ v : ℕ, x = v ∧ v < 256 ^ n := by
  obtain ⟨-, hend⟩ | ⟨-, -, hholds⟩ := size_cases h
  · exact absurd hend hi
  · obtain ⟨h0, hx⟩ := (holds_of_not_signed (by rw [hs]; decide)).mp hholds
    obtain ⟨v, rfl⟩ := Int.eq_ofNat_of_zero_le h0
    dsimp only at hx
    exact ⟨v, rfl, by exact_mod_cast hx⟩

theorem token_usage {x : ℤ} {n : ℕ} (h : dataSize (.local_usage, x) = some n) :
    (if n = 4 then
        Item.usage (some (word 2 ((leBytes n (x % 256 ^ n).toNat).drop 2))) (word 2 (leBytes n (x % 256 ^ n).toNat))
      else .usage none (word n (leBytes n (x % 256 ^ n).toNat))) =
    if x ≤ 0xFFFF then .usage none (BitVec.ofInt 16 x)
      else .usage (some (BitVec.ofInt 16 (x / 0x10000))) (BitVec.ofInt 16 x) := by
  obtain ⟨v, rfl, hv⟩ := holds_of_dataSize h (by decide) rfl
  have hmod : ((v : ℤ) % 256 ^ n).toNat = v := by
    rw [Int.emod_eq_of_lt (Int.natCast_nonneg v) (by exact_mod_cast hv), Int.toNat_natCast]
  have hsmall : n = 4 ↔ ¬ (v : ℤ) ≤ 0xFFFF := by
    simp only [dataSize_of_ne (show RdItem.local_usage ≠ .main_collection_end by decide),
      holds_of_not_signed (show ¬ RdItem.local_usage.signed = true by decide)] at h
    split_ifs at h with h1 h2 h4
    · have := Option.some.inj h
      omega
    · have := Option.some.inj h
      omega
    · have := Option.some.inj h
      omega
  rw [hmod]
  by_cases h4 : n = 4
  · subst h4
    have hdrop : (leBytes 4 v).drop 2 = leBytes 2 (v / 0x10000) := by rw [leBytes_four]; rfl
    rw [if_pos rfl, if_neg (hsmall.mp rfl), hdrop, word_leBytes, leBytes_four, word_append (length_leBytes 2 v).ge,
      word_leBytes]
    have hlow : BitVec.ofNat 16 (v % 256 ^ 2) = BitVec.ofInt 16 v := by
      rw [BitVec.ofInt_natCast]
      apply BitVec.eq_of_toNat_eq
      rw [BitVec.toNat_ofNat, BitVec.toNat_ofNat]
      omega
    have hhigh : BitVec.ofNat 16 (v / 0x10000 % 256 ^ 2) = BitVec.ofInt 16 ((v : ℤ) / 0x10000) := by
      have : (v : ℤ) / 0x10000 = ((v / 0x10000 : ℕ) : ℤ) := rfl
      rw [this, BitVec.ofInt_natCast]
      apply BitVec.eq_of_toNat_eq
      rw [BitVec.toNat_ofNat, BitVec.toNat_ofNat]
      omega
    rw [hlow, hhigh]
  · rw [if_neg h4, if_pos (not_not.mp (mt hsmall.mpr h4)), word_leBytes, Nat.mod_eq_of_lt hv, BitVec.ofInt_natCast]

theorem token_wireItem {w : RdItem × ℤ} {n : ℕ} (h : dataSize w = some n) :
    (wireItem w n h).token = itemToken w := by
  obtain ⟨i, x⟩ := w
  have hn := size_values h
  rw [wireItem, WireItem.token, token, key_and i hn, dataLen_key i hn]
  by_cases hp : i = .global_usage_page
  · subst hp
    obtain ⟨v, rfl, hv⟩ := holds_of_dataSize h (by decide) rfl
    rw [if_pos (show RdItem.global_usage_page.code = 0x4 from rfl)]
    dsimp only
    rw [word_leBytes, Int.emod_eq_of_lt (Int.natCast_nonneg v) (by exact_mod_cast hv), Int.toNat_natCast,
      Nat.mod_eq_of_lt hv, ← BitVec.ofInt_natCast]
    rfl
  by_cases hu : i = .local_usage
  · subst hu
    rw [if_neg (by decide), if_pos (show RdItem.local_usage.code = 0x8 from rfl)]
    exact congrArg Token.leaf (token_usage h)
  cases i <;> first | exact absurd rfl hp | exact absurd rfl hu | rfl

theorem items_accepted (ws : List (RdItem × ℤ)) :
    items ((accepted ws).flatMap itemBytes) = (accepted ws).map itemToken := by
  have hsize : ∀ w ∈ accepted ws, (dataSize w).isSome := fun w hw => (List.mem_filter.mp hw).2
  generalize accepted ws = us at hsize
  induction us with
  | nil => rw [List.flatMap_nil, items, List.map_nil]
  | cons w us ih =>
    obtain ⟨n, h⟩ := Option.isSome_iff_exists.mp (hsize w List.mem_cons_self)
    have hencode : encoded w n = (wireItem w n h).encode := rfl
    rw [List.flatMap_cons, itemBytes_eq h, hencode, WireItem.items_append, token_wireItem,
      ih fun w' hw' => hsize w' (List.mem_cons_of_mem _ hw'), List.map_cons]

/-- **What is written is what the readers report.** -/
theorem usages_writeItems (ws : List (RdItem × ℤ)) (buf_size : ℕ)
    (hroom : (ws.flatMap itemBytes).length ≤ buf_size)
    (usage_page usage : BitVec 16) (ps : List UsagePair) :
    usages (writeItems ws (.empty buf_size)).buf ((writeItems ws (.empty buf_size)).buf.length + 2) ⟨0, false, 0⟩
        usage_page usage = some (ps, 1) ↔
      ∃ f fs, (accepted ws).map itemToken = text f fs ∧ ps = reported (f.roots ++ fs.flatMap Forest.roots) := by
  rw [usages_accept, buf_writeItems hroom, items_accepted]

/-- A collection with a refused item and a limit in it. -/
def sample : List (RdItem × ℤ) :=
  [(.global_usage_page, 0xFF00), (.local_usage, 1), (.main_collection, 1), (.global_logical_minimum, -200),
    (.global_report_count, -1), (.main_collection_end, 0)]

theorem usages_sample : usages (writeItems sample (.empty 12)).buf ((writeItems sample (.empty 12)).buf.length + 2)
    ⟨0, false, 0⟩ 0 0 = some ([(0xFF00, 1)], 1) :=
  (usages_writeItems sample 12 (by decide) 0 0 _).mpr
    ⟨.leaf (.usagePage 0xFF00) (.leaf (.usage none 1) (.node (.leaf .other .nil) .nil)), [], by decide, by decide⟩

/-! ### Reading everything back -/

/-- The items of a descriptor, read as the loops read them: the key without
the size, the number of data bytes and the data. -/
def readItems (report_descriptor : List Byte) : ℕ → ℕ → Option (List (Byte × ℕ × BitVec 32))
  | 0, _ => none
  | fuel + 1, pos =>
    if pos < report_descriptor.length then do
      let key ← report_descriptor[pos]?
      let size ← getHidItemSize report_descriptor pos
      let data ← getHidReportBytes report_descriptor size.data_len pos
      let rest ← readItems report_descriptor fuel (pos + (size.data_len + size.key_size))
      return (key &&& 0xfc, size.data_len, data) :: rest
    else some []

/-- The value of an item; that of a limit has a sign. -/
def itemValue : Byte × ℕ × BitVec 32 → Byte × ℤ
  | (key, data_len, data) =>
    (key, if key = 0x14 ∨ key = 0x24 ∨ key = 0x34 ∨ key = 0x44 then (data.toNat : ℤ).bmod (256 ^ data_len)
      else data.toNat)

/-- What an item says: the end of a collection nothing but itself. -/
def itemMeaning (w : RdItem × ℤ) : Byte × ℤ := (w.1.code, if w.1 = .main_collection_end then 0 else w.2)

theorem getHidReportBytes_append {d data rest : List Byte} {cur : ℕ} (hd : d.drop (cur + 1) = data ++ rest)
    (h : data.length = 0 ∨ data.length = 1 ∨ data.length = 2 ∨ data.length = 4) :
    getHidReportBytes d data.length cur = some (BitVec.ofNat 32 (leNat data)) := by
  have hget (i : ℕ) : d[cur + (i + 1)]? = (data ++ rest)[i]? := by
    rw [← hd, List.getElem?_drop, Nat.add_right_comm, Nat.add_assoc]
  have hlen : data.length + rest.length = d.length - (cur + 1) := by
    rw [← List.length_append, ← hd, List.length_drop]
  unfold getHidReportBytes
  rcases h with h | h | h | h
  · rw [List.length_eq_zero_iff] at h
    subst h
    split_ifs <;> rfl
  · obtain ⟨b1, rfl⟩ := List.length_eq_one_iff.mp h
    have h1 : d[cur + 1]? = some b1 := hget 0
    rw [h] at hlen ⊢
    rw [if_neg (by omega), h1]
    simp
  · obtain ⟨b1, b2, rfl⟩ := List.length_eq_two.mp h
    have h1 : d[cur + 1]? = some b1 := hget 0
    have h2 : d[cur + 2]? = some b2 := hget 1
    rw [h] at hlen ⊢
    rw [if_neg (by omega), h1, h2]
    simp [Nat.add_comm, Nat.mul_comm]
  · obtain ⟨b1, b2, b3, b4, rfl⟩ : ∃ b1 b2 b3 b4, data = [b1, b2, b3, b4] := by
      obtain ⟨b1, data, rfl⟩ := List.exists_cons_of_length_eq_add_one h
      obtain ⟨b2, b3, b4, rfl⟩ := List.length_eq_three.mp (Nat.succ.inj h)
      exact ⟨b1, b2, b3, b4, rfl⟩
    have h1 : d[cur + 1]? = some b1 := hget 0
    have h2 : d[cur + 2]? = some b2 := hget 1
    have h3 : d[cur + 3]? = some b3 := hget 2
    have h4 : d[cur + 4]? = some b4 := hget 3
    rw [h] at hlen ⊢
    rw [if_neg (by omega), h1, h2, h3, h4]
    simp only [Option.bind_eq_bind, Option.bind_some, leNat_cons, leNat_nil]
    exact congrArg (fun v => some (BitVec.ofNat 32 v)) (by omega)

theorem signed_iff (i : RdItem) :
    i.code = 0x14 ∨ i.code = 0x24 ∨ i.code = 0x34 ∨ i.code = 0x44 ↔ i.signed = true := by
  cases i <;> decide

theorem itemValue_read {w : RdItem × ℤ} {n : ℕ} (h : dataSize w = some n) :
    itemValue (w.1.code, n, BitVec.ofNat 32 (leNat (leBytes n (w.2 % 256 ^ n).toNat))) = itemMeaning w := by
  obtain ⟨i, x⟩ := w
  obtain ⟨rfl, rfl⟩ | ⟨hn, hend, hholds⟩ := size_cases h
  · rfl
  have hpos : (0 : ℤ) < 256 ^ n := by positivity
  have hdata : ((BitVec.ofNat 32 (leNat (leBytes n (x % 256 ^ n).toNat))).toNat : ℤ) = x % 256 ^ n := by
    have h0 := Int.emod_nonneg x hpos.ne'
    have hlt := Int.emod_lt_of_pos x hpos
    obtain ⟨v, hv⟩ := Int.eq_ofNat_of_zero_le h0
    rw [hv] at hlt ⊢
    have hvlt : v < 256 ^ n := by exact_mod_cast hlt
    have hle : (256 : ℕ) ^ n ≤ 256 ^ 4 := Nat.pow_le_pow_right (by norm_num) (by omega)
    rw [Int.toNat_natCast, leNat_leBytes, Nat.mod_eq_of_lt hvlt, BitVec.toNat_ofNat,
      Nat.mod_eq_of_lt (hvlt.trans_le (hle.trans_eq (by norm_num)))]
  simp only [itemValue, itemMeaning, hdata]
  rw [if_neg hend]
  by_cases hs : i.signed = true
  · obtain ⟨hlo, hhi⟩ := (holds_of_signed hs).mp hholds
    have hcast : ((256 ^ n : ℕ) : ℤ) = 256 ^ n := by norm_cast
    have heven : (256 : ℤ) ^ n = 2 * (256 ^ n / 2) := by
      rcases hn with rfl | rfl | rfl <;> rfl
    have hle : -((256 ^ n : ℕ) : ℤ) ≤ x * 2 := by rw [hcast]; omega
    have hlt : x * 2 < ((256 ^ n : ℕ) : ℤ) := by rw [hcast]; omega
    rw [if_pos ((signed_iff i).mpr hs), ← hcast, Int.emod_bmod, Int.bmod_eq_of_le_mul_two hle hlt]
  · obtain ⟨hlo, hhi⟩ := (holds_of_not_signed hs).mp hholds
    rw [if_neg (mt (signed_iff i).mp hs), Int.emod_eq_of_lt hlo hhi]

theorem skip_of_short {key : Byte} {rest : List Byte} (h : key &&& 0xf0 ≠ 0xf0) :
    skip key rest = dataLen key := by
  cases rest with
  | nil => rfl
  | cons n rest => rw [skip, if_neg h]

theorem readItems_drop {d : List Byte} {us : List (RdItem × ℤ)} (hsize : ∀ w ∈ us, (dataSize w).isSome) :
    ∀ {fuel pos : ℕ}, d.drop pos = us.flatMap itemBytes → (us.flatMap itemBytes).length < fuel →
      ∃ read, readItems d fuel pos = some read ∧ read.map itemValue = us.map itemMeaning := by
  induction us with
  | nil =>
    intro fuel pos hd hfuel
    obtain ⟨fuel, rfl⟩ := Nat.exists_eq_add_of_lt hfuel
    have hpos : ¬ pos < d.length := fun h => by
      obtain ⟨key, rest, h'⟩ := exists_drop h
      rw [hd] at h'
      cases h'
    exact ⟨[], by rw [readItems, if_neg hpos], rfl⟩
  | cons w us ih =>
    intro fuel pos hd hfuel
    obtain ⟨n, h⟩ := Option.isSome_iff_exists.mp (hsize w List.mem_cons_self)
    have hn := size_values h
    rw [List.flatMap_cons, itemBytes_eq h, encoded, List.cons_append] at hd hfuel
    obtain ⟨fuel, rfl⟩ := Nat.exists_eq_succ_of_ne_zero (Nat.ne_of_gt (Nat.lt_of_le_of_lt (Nat.zero_le _) hfuel))
    rw [List.length_cons, List.length_append, length_leBytes] at hfuel
    have hlen := length_leBytes n (w.2 % 256 ^ n).toNat
    obtain ⟨data_len, key_size, hsz, hsum, hshort⟩ := getHidItemSize_spec hd
    obtain rfl : data_len = n := (hshort (key_short w.1 hn)).trans (dataLen_key w.1 hn)
    rw [skip_of_short (key_short w.1 hn), dataLen_key w.1 hn] at hsum
    obtain ⟨data, hdata, hvalue⟩ : ∃ data, getHidReportBytes d data_len pos = some data ∧
        itemValue (w.1.code, data_len, data) = itemMeaning w := by
      have hdata := getHidReportBytes_append (drop_succ_of_drop hd) (by rw [hlen]; exact hn)
      rw [hlen] at hdata
      exact ⟨_, hdata, itemValue_read h⟩
    have hnext : d.drop (pos + (data_len + key_size)) = us.flatMap itemBytes := by
      rw [hsum, ← Nat.add_assoc, Nat.add_right_comm, ← List.drop_drop, drop_succ_of_drop hd]
      exact List.drop_left' hlen
    have hfuel' : (us.flatMap itemBytes).length < fuel := by omega
    obtain ⟨read, hread, hmap⟩ := ih (fun w' hw' => hsize w' (List.mem_cons_of_mem _ hw')) hnext hfuel'
    refine ⟨((w.1.code + sizeCode data_len) &&& 0xfc, data_len, data) :: read, ?_, ?_⟩
    · rw [readItems, if_pos (lt_length_of_drop hd), getElem?_of_drop hd]
      simp only [Option.bind_eq_bind, Option.bind_some, hsz, hdata, hread]
      rfl
    · rw [List.map_cons, List.map_cons, hmap, key_and w.1 hn, hvalue]

/-- **Round trip.** Every item that is not refused is read back, with its value. -/
theorem readItems_writeItems (ws : List (RdItem × ℤ)) (buf_size : ℕ)
    (hroom : (ws.flatMap itemBytes).length ≤ buf_size) :
    ∃ read, readItems (writeItems ws (.empty buf_size)).buf ((writeItems ws (.empty buf_size)).buf.length + 1) 0 =
        some read ∧ read.map itemValue = (accepted ws).map itemMeaning := by
  rw [buf_writeItems hroom]
  exact readItems_drop (fun w hw => (List.mem_filter.mp hw).2) rfl (Nat.lt_succ_self _)

theorem readItems_sample : ∃ read, readItems (writeItems sample (.empty 12)).buf
    ((writeItems sample (.empty 12)).buf.length + 1) 0 = some read ∧
      read.map itemValue = [(0x04, 0xFF00), (0x08, 1), (0xA0, 1), (0x14, -200), (0xC0, 0)] :=
  readItems_writeItems sample 12 (by decide)

end ReportWriter
end ToolbitSdk
