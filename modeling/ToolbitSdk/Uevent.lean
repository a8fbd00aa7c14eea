/-
# The uevent of a device

`parse_uevent_info` and `parse_hid_vid_pid_from_uevent` of
`hidapi/linux/hid.c`: the lines `KEY=value` of a text, up to its first NUL,
with a copy of at most 1023 bytes of it, `strtok_r` and `sscanf`.

The fields of a text that fits come back (`fields_render`), the three numbers
of an id are read as their values (`scanId_idValue`), and so both functions
read what the text says (`parse_render`). One takes the first id that has all
three numbers, the other the last, with what the others before it left: they
agree on a text with one id at most (`parseHidVidPid_agrees`).
-/
import ToolbitSdk.Lib.Bytes
import Mathlib.Data.List.Basic

namespace ToolbitSdk
namespace Uevent

open Bytes

/-! ### `%x` -/

/-- The value of a hexadecimal digit. -/
def hexDigit (c : Byte) : Option ℕ :=
  if 0x30 ≤ c ∧ c ≤ 0x39 then some (c.toNat - 0x30)
  else if 0x41 ≤ c ∧ c ≤ 0x46 then some (c.toNat - 0x41 + 10)
  else if 0x61 ≤ c ∧ c ≤ 0x66 then some (c.toNat - 0x61 + 10)
  else none

def isDigit (c : Byte) : Bool := (hexDigit c).isSome

def isSpace (c : Byte) : Bool := c = 0x20 ∨ 0x9 ≤ c ∧ c ≤ 0xd

def hexVal (ds : List Byte) : ℕ := ds.foldl (fun v c => 16 * v + (hexDigit c).getD 0) 0

/-- The 64-bit value of the digits after a sign; an overflow is the largest. -/
def strtoul (minus : Bool) (v : ℕ) : ℕ :=
  if 2 ^ 64 ≤ v then 2 ^ 64 - 1 else if minus then (2 ^ 64 - v) % 2 ^ 64 else v

/-- A sign, if there is one. -/
def scanSign : List Byte → Bool × List Byte
  | c :: s => if c = 0x2d then (true, s) else if c = 0x2b then (false, s) else (false, c :: s)
  | [] => (false, [])

/-- `0x`, if it is there. -/
def scanZeroX : List Byte → Bool × List Byte
  | z :: x :: s => if z = 0x30 ∧ (x = 0x78 ∨ x = 0x58) then (true, s) else (false, z :: x :: s)
  | s => (false, s)

/-- One `%x`: white space, a sign, `0x` and digits; without a digit there is
no number, except for `0x`, whose 0 is one. -/
def scanHex (s : List Byte) : Option (ℕ × List Byte) :=
  let sign := scanSign (s.dropWhile isSpace)
  let zero := scanZeroX sign.2
  let digits := zero.2.takeWhile isDigit
  if digits = [] ∧ zero.1 = false then none
  else some (strtoul sign.1 (hexVal digits), zero.2.dropWhile isDigit)

/-- `bus_type`, `vendor_id` and `product_id`. -/
structure HidId where
  bus_type : BitVec 32
  vendor_id : BitVec 16
  product_id : BitVec 16
  deriving DecidableEq, Repr

/-- `:` of the format. -/
def scanColon : List Byte → Option (List Byte)
  | c :: s => if c = 0x3a then some s else none
  | [] => none

/-- `sscanf(value, "%x:%hx:%hx", ...)`: how many it assigns, and what is in
them then. -/
def scanId (value : List Byte) (ids : HidId) : ℕ × HidId :=
  match scanHex value with
  | none => (0, ids)
  | some (bus, s) =>
    let ids := { ids with bus_type := BitVec.ofNat 32 bus }
    match (scanColon s).bind scanHex with
    | none => (1, ids)
    | some (vid, s) =>
      let ids := { ids with vendor_id := BitVec.ofNat 16 vid }
      match (scanColon s).bind scanHex with
      | none => (2, ids)
      | some (pid, _) => (3, { ids with product_id := BitVec.ofNat 16 pid })

/-! ### The lines -/

/-- `strtok_r(tmp, "\n", &saveptr)`, as long as it returns a line. -/
def lines (tmp : List Byte) : List (List Byte) := (tmp.splitOn 0x0a).filter (· ≠ [])

/-- The line before its first `=` and after it. -/
def keyValue (line : List Byte) : Option (List Byte × List Byte) :=
  if 0x3d ∈ line then some (line.takeWhile (· ≠ 0x3d), (line.dropWhile (· ≠ 0x3d)).tail) else none

/-- What the loops look at: the lines that have a `=`, of the bytes that fit
in `tmp`; `strlen` ends the text at its first NUL. -/
def fields (uevent : List Byte) : List (List Byte × List Byte) :=
  (lines ((cstr uevent).take 1023)).filterMap keyValue

def HID_ID : List Byte := [0x48, 0x49, 0x44, 0x5f, 0x49, 0x44]
def HID_NAME : List Byte := [0x48, 0x49, 0x44, 0x5f, 0x4e, 0x41, 0x4d, 0x45]
def HID_UNIQ : List Byte := [0x48, 0x49, 0x44, 0x5f, 0x55, 0x4e, 0x49, 0x51]

/-- The loop of `parse_hid_vid_pid_from_uevent`. -/
def parseHidVidPid.loop : List (List Byte × List Byte) → HidId → Bool × HidId
  | [], ids => (false, ids)
  | (key, value) :: fields, ids =>
    if key = HID_ID then
      if (scanId value ids).1 = 3 then (true, (scanId value ids).2) else loop fields (scanId value ids).2
    else loop fields ids

def parseHidVidPid (uevent : List Byte) (ids : HidId) : Bool × HidId :=
  parseHidVidPid.loop (fields uevent) ids

/-- What `parse_uevent_info` writes, and its flags. -/
@[ext]
structure UeventInfo where
  ids : HidId
  serial_number_utf8 : Option (List Byte)
  product_name_utf8 : Option (List Byte)
  found_id : Bool
  found_serial : Bool
  found_name : Bool
  deriving DecidableEq, Repr

/-- One line of `parse_uevent_info`. -/
def UeventInfo.read (u : UeventInfo) (field : List Byte × List Byte) : UeventInfo :=
  if field.1 = HID_ID then
    { u with ids := (scanId field.2 u.ids).2, found_id := u.found_id || (scanId field.2 u.ids).1 == 3 }
  else if field.1 = HID_NAME then { u with product_name_utf8 := some field.2, found_name := true }
  else if field.1 = HID_UNIQ then { u with serial_number_utf8 := some field.2, found_serial := true }
  else u

/-- With what it finds in the variables; the text may be NULL. -/
def parseUeventInfo (uevent : Option (List Byte)) (u : UeventInfo) : Bool × UeventInfo :=
  match uevent with
  | none => (false, u)
  | some uevent =>
    let u := (fields uevent).foldl UeventInfo.read
      { u with found_id := false, found_serial := false, found_name := false }
    (u.found_id && u.found_name && u.found_serial, u)

/-! ### Numbers -/

/-- Digits of a number that is no overflow. -/
structure Numeral (ds : List Byte) : Prop where
  ne : ds ≠ []
  digits : ∀ c ∈ ds, isDigit c = true
  small : hexVal ds < 2 ^ 64

/-- What ends a number. -/
def Ends (rest : List Byte) : Prop := rest = [] ∨ ∃ s, rest = 0x3a :: s

instance : DecidablePred Numeral := fun ds =>
  decidable_of_iff (ds ≠ [] ∧ (∀ c ∈ ds, isDigit c = true) ∧ hexVal ds < 2 ^ 64)
    ⟨fun h => ⟨h.1, h.2.1, h.2.2⟩, fun h => ⟨h.ne, h.digits, h.small⟩⟩

theorem isDigit_iff (c : Byte) : isDigit c = true ↔
    0x30 ≤ c ∧ c ≤ 0x39 ∨ 0x41 ≤ c ∧ c ≤ 0x46 ∨ 0x61 ≤ c ∧ c ≤ 0x66 := by
  unfold isDigit hexDigit
  split_ifs <;> simp_all

/-- A digit is no space, no sign, no `x` and no `:`. -/
theorem ne_of_isDigit {c : Byte} (h : isDigit c = true) :
    isSpace c = false ∧ c ≠ 0x2d ∧ c ≠ 0x2b ∧ c ≠ 0x78 ∧ c ≠ 0x58 := by
  rw [isDigit_iff] at h
  have hs : isSpace c = false := by
    rw [isSpace, decide_eq_false_iff_not]
    bv_omega
  refine ⟨hs, ?_, ?_, ?_, ?_⟩ <;> bv_omega

theorem dropWhile_digits {ds rest : List Byte} (h : ∀ c ∈ ds, isDigit c = true) (hr : Ends rest) :
    (ds ++ rest).takeWhile isDigit = ds ∧ (ds ++ rest).dropWhile isDigit = rest := by
  rw [List.takeWhile_append_of_pos h, List.dropWhile_append_of_pos h]
  rcases hr with rfl | ⟨s, rfl⟩
  · simp
  · have hc : isDigit 0x3a = false := by decide
    rw [List.takeWhile_cons, List.dropWhile_cons, hc]
    simp

/-- A numeral is read as its value. -/
theorem scanHex_numeral {ds rest : List Byte} (h : Numeral ds) (hr : Ends rest) :
    scanHex (ds ++ rest) = some (hexVal ds, rest) := by
  obtain ⟨d, ds', rfl⟩ := List.exists_cons_of_ne_nil h.ne
  obtain ⟨hspace, hminus, hplus, -, -⟩ := ne_of_isDigit (h.digits d List.mem_cons_self)
  have hdrop : (d :: ds' ++ rest).dropWhile isSpace = d :: ds' ++ rest := by
    rw [List.cons_append, List.dropWhile_cons, hspace]
    rfl
  have hsign : scanSign (d :: ds' ++ rest) = (false, d :: ds' ++ rest) := by
    rw [List.cons_append, scanSign, if_neg hminus, if_neg hplus]
  have hzero : scanZeroX (d :: ds' ++ rest) = (false, d :: ds' ++ rest) := by
    cases hcons : ds' ++ rest with
    | nil => rw [List.cons_append, hcons]; rfl
    | cons x s =>
      have hx : x ≠ 0x78 ∧ x ≠ 0x58 := by
        cases ds' with
        | nil =>
          rw [List.nil_append] at hcons
          rcases hr with rfl | ⟨s', rfl⟩
          · cases hcons
          · obtain ⟨rfl, -⟩ := List.cons.inj hcons
            decide
        | cons e ds'' =>
          obtain ⟨rfl, -⟩ := List.cons.inj hcons
          exact (ne_of_isDigit (h.digits e (by simp))).2.2.2
      rw [List.cons_append, hcons, scanZeroX, if_neg fun hc => hc.2.elim hx.1 hx.2]
  obtain ⟨htake, hrest⟩ := dropWhile_digits h.digits hr
  simp only [scanHex, hdrop, hsign, hzero, htake, hrest]
  rw [if_neg fun hc => h.ne hc.1, strtoul, if_neg (by have := h.small; omega), if_neg Bool.false_ne_true]

/-- `bus:vid:pid`. -/
def idValue (bus vid pid : List Byte) : List Byte := bus ++ 0x3a :: (vid ++ 0x3a :: pid)

def idOf (bus vid pid : List Byte) : HidId :=
  ⟨BitVec.ofNat 32 (hexVal bus), BitVec.ofNat 16 (hexVal vid), BitVec.ofNat 16 (hexVal pid)⟩

theorem scanId_idValue {bus vid pid : List Byte} (hb : Numeral bus) (hv : Numeral vid) (hp : Numeral pid)
    (ids : HidId) : scanId (idValue bus vid pid) ids = (3, idOf bus vid pid) := by
  have hpid : scanHex pid = some (hexVal pid, []) := by
    simpa using scanHex_numeral hp (.inl rfl)
  rw [scanId, idValue, scanHex_numeral hb (.inr ⟨_, rfl⟩)]
  simp only [scanColon, if_true, Option.bind_some, scanHex_numeral hv (.inr ⟨_, rfl⟩), hpid]
  rfl

/-! ### The text of fields -/

/-- A key and a value that are one line of a C string together. -/
structure OneLine (field : List Byte × List Byte) : Prop where
  key : 0x3d ∉ field.1 ∧ 0x0a ∉ field.1
  value : 0x0a ∉ field.2
  noNul : 0 ∉ field.1 ∧ 0 ∉ field.2

instance : DecidablePred OneLine := fun f =>
  decidable_of_iff ((0x3d ∉ f.1 ∧ 0x0a ∉ f.1) ∧ 0x0a ∉ f.2 ∧ 0 ∉ f.1 ∧ 0 ∉ f.2)
    ⟨fun h => ⟨h.1, h.2.1, h.2.2⟩, fun h => ⟨h.key, h.value, h.noNul⟩⟩

def line (field : List Byte × List Byte) : List Byte := field.1 ++ 0x3d :: field.2

/-- The text of the fields, a line for each. -/
def render (fs : List (List Byte × List Byte)) : List Byte := fs.flatMap fun f => line f ++ [0x0a]

theorem keyValue_line {f : List Byte × List Byte} (h : OneLine f) : keyValue (line f) = some f := by
  have hpos : ∀ c ∈ f.1, decide (c ≠ (0x3d : Byte)) = true := fun c hc => by
    rw [decide_eq_true_eq]
    rintro rfl
    exact h.key.1 hc
  rw [keyValue, line, if_pos (by simp), List.takeWhile_append_of_pos hpos, List.dropWhile_append_of_pos hpos]
  simp

theorem splitOn_render {fs : List (List Byte × List Byte)} (h : ∀ f ∈ fs, OneLine f) :
    (render fs).splitOn 0x0a = fs.map line ++ [[]] := by
  induction fs with
  | nil => rfl
  | cons f fs ih =>
    obtain ⟨hf, hfs⟩ := List.forall_mem_cons.mp h
    have hne : ∀ c ∈ line f, (c == (0x0a : Byte)) = false := fun c hc => by
      rw [beq_eq_false_iff_ne]
      rintro rfl
      have := hf.key.2
      have := hf.value
      simp_all [line]
    have hsplit : render (f :: fs) = line f ++ 0x0a :: render fs := by simp [render]
    rw [hsplit, List.splitOn_eq_splitOnP, List.splitOnP_append_cons_of_forall_mem hne _ (by simp),
      ← List.splitOn_eq_splitOnP, ih hfs]
    rfl

/-- The text is a C string. -/
theorem cstr_render {fs : List (List Byte × List Byte)} (h : ∀ f ∈ fs, OneLine f) :
    cstr (render fs) = render fs := by
  refine cstr_eq_self fun h0 => ?_
  obtain ⟨f, hf, hc⟩ := List.mem_flatMap.mp h0
  obtain ⟨hkey, hvalue⟩ := (h f hf).noNul
  have hside : (0 : Byte) ∈ f.1 ∨ (0 : Byte) ∈ f.2 := by simpa [line] using hc
  exact hside.elim hkey hvalue

/-- The fields come back from their text if it fits in `tmp`. -/
theorem fields_render {fs : List (List Byte × List Byte)} (h : ∀ f ∈ fs, OneLine f)
    (hlen : (render fs).length ≤ 1023) : fields (render fs) = fs := by
  have hne : ∀ l ∈ fs.map line, decide (l ≠ []) = true := by
    intro l hl
    obtain ⟨f, -, rfl⟩ := List.mem_map.mp hl
    simp [line]
  rw [fields, cstr_render h, List.take_of_length_le hlen, lines, splitOn_render h, List.filter_append,
    List.filter_eq_self.mpr hne, List.filter_cons_of_neg (by simp), List.filter_nil, List.append_nil,
    List.filterMap_map]
  clear hlen hne
  induction fs with
  | nil => rfl
  | cons f fs ih =>
    obtain ⟨hf, hfs⟩ := List.forall_mem_cons.mp h
    rw [List.filterMap_cons_some (by exact keyValue_line hf), ih hfs]

/-! ### What is found -/

/-- The value of the last field with the key. -/
def lastValue (key : List Byte) (fs : List (List Byte × List Byte)) : Option (List Byte) :=
  (fs.filter (·.1 = key)).getLast?.map Prod.snd

/-- The values that are read as an id. -/
def idValues (fs : List (List Byte × List Byte)) : List (List Byte) :=
  (fs.filter (·.1 = HID_ID)).map Prod.snd

theorem lastValue_concat (key : List Byte) (fs : List (List Byte × List Byte)) (f : List Byte × List Byte) :
    lastValue key (fs ++ [f]) = if f.1 = key then some f.2 else lastValue key fs := by
  unfold lastValue
  rw [List.filter_append]
  by_cases h : f.1 = key
  · simp [h]
  · simp [h]

theorem idValues_concat (fs : List (List Byte × List Byte)) (f : List Byte × List Byte) :
    idValues (fs ++ [f]) = idValues fs ++ if f.1 = HID_ID then [f.2] else [] := by
  unfold idValues
  rw [List.filter_append]
  by_cases h : f.1 = HID_ID
  · simp [h]
  · simp [h]

/-- How many `sscanf` assigns does not depend on what was there. -/
theorem scanId_fst (value : List Byte) (ids ids' : HidId) :
    (scanId value ids).1 = (scanId value ids').1 := by
  unfold scanId
  cases scanHex value with
  | none => rfl
  | some r =>
    cases h : (scanColon r.2).bind scanHex with
    | none => simp [h]
    | some r' => cases h' : (scanColon r'.2).bind scanHex <;> simp [h, h']

/-- Nor does what it leaves if it assigns all. -/
theorem scanId_snd {value : List Byte} (ids ids' : HidId) (h : (scanId value ids).1 = 3) :
    (scanId value ids).2 = (scanId value ids').2 := by
  unfold scanId at *
  cases hr : scanHex value with
  | none => simp [hr] at h
  | some r =>
    cases hr' : (scanColon r.2).bind scanHex with
    | none => simp [hr, hr'] at h
    | some r' =>
      cases hr'' : (scanColon r'.2).bind scanHex with
      | none => simp [hr, hr', hr''] at h
      | some r'' => simp [hr', hr'']

/-- After the loop: the names are those of the last fields, the id is that of
the values one after the other. -/
structure UeventInfo.Read (u : UeventInfo) (fs : List (List Byte × List Byte)) (r : UeventInfo) : Prop where
  ids : r.ids = (idValues fs).foldl (fun ids v => (scanId v ids).2) u.ids
  serial : r.serial_number_utf8 = (lastValue HID_UNIQ fs).or u.serial_number_utf8
  name : r.product_name_utf8 = (lastValue HID_NAME fs).or u.product_name_utf8
  found_id : r.found_id = (u.found_id || (idValues fs).any fun v => (scanId v u.ids).1 == 3)
  found_serial : r.found_serial = (u.found_serial || (lastValue HID_UNIQ fs).isSome)
  found_name : r.found_name = (u.found_name || (lastValue HID_NAME fs).isSome)

theorem UeventInfo.read_foldl (u : UeventInfo) (fs : List (List Byte × List Byte)) :
    u.Read fs (fs.foldl UeventInfo.read u) := by
  induction fs using List.reverseRecOn with
  | nil => constructor <;> simp [idValues, lastValue]
  | append_singleton fs f ih =>
    rw [List.foldl_concat]
    generalize fs.foldl UeventInfo.read u = r at ih
    have hkeys : HID_ID ≠ HID_NAME ∧ HID_ID ≠ HID_UNIQ ∧ HID_NAME ≠ HID_UNIQ := by decide
    by_cases h1 : f.1 = HID_ID
    · have h2 : f.1 ≠ HID_NAME := h1 ▸ hkeys.1
      have h3 : f.1 ≠ HID_UNIQ := h1 ▸ hkeys.2.1
      rw [read, if_pos h1]
      exact {
        ids := by simp [idValues_concat, h1, ih.ids]
        serial := by rw [lastValue_concat, if_neg h3]; exact ih.serial
        name := by rw [lastValue_concat, if_neg h2]; exact ih.name
        found_id := by simp [idValues_concat, h1, ih.found_id, Bool.or_assoc, scanId_fst f.2 r.ids u.ids]
        found_serial := by rw [lastValue_concat, if_neg h3]; exact ih.found_serial
        found_name := by rw [lastValue_concat, if_neg h2]; exact ih.found_name }
    have hid : idValues (fs ++ [f]) = idValues fs := by rw [idValues_concat, if_neg h1, List.append_nil]
    rw [read, if_neg h1]
    by_cases h2 : f.1 = HID_NAME
    · have h3 : f.1 ≠ HID_UNIQ := h2 ▸ hkeys.2.2
      rw [if_pos h2]
      exact {
        ids := by rw [hid]; exact ih.ids
        serial := by rw [lastValue_concat, if_neg h3]; exact ih.serial
        name := by simp [lastValue_concat, h2]
        found_id := by rw [hid]; exact ih.found_id
        found_serial := by rw [lastValue_concat, if_neg h3]; exact ih.found_serial
        found_name := by simp [lastValue_concat, h2] }
    rw [if_neg h2]
    by_cases h3 : f.1 = HID_UNIQ
    · rw [if_pos h3]
      exact {
        ids := by rw [hid]; exact ih.ids
        serial := by simp [lastValue_concat, h3]
        name := by rw [lastValue_concat, if_neg h2]; exact ih.name
        found_id := by rw [hid]; exact ih.found_id
        found_serial := by simp [lastValue_concat, h3]
        found_name := by rw [lastValue_concat, if_neg h2]; exact ih.found_name }
    · rw [if_neg h3]
      exact {
        ids := by rw [hid]; exact ih.ids
        serial := by rw [lastValue_concat, if_neg h3]; exact ih.serial
        name := by rw [lastValue_concat, if_neg h2]; exact ih.name
        found_id := by rw [hid]; exact ih.found_id
        found_serial := by rw [lastValue_concat, if_neg h3]; exact ih.found_serial
        found_name := by rw [lastValue_concat, if_neg h2]; exact ih.found_name }

theorem parseHidVidPid_loop (fs : List (List Byte × List Byte)) (ids : HidId) :
    parseHidVidPid.loop fs ids = parseHidVidPid.loop ((idValues fs).map (HID_ID, ·)) ids := by
  induction fs generalizing ids with
  | nil => rfl
  | cons f fs ih =>
    obtain ⟨key, value⟩ := f
    by_cases hk : key = HID_ID
    · subst hk
      have hcons : idValues ((HID_ID, value) :: fs) = value :: idValues fs := by simp [idValues]
      rw [hcons, List.map_cons, parseHidVidPid.loop, parseHidVidPid.loop, if_pos rfl, if_pos rfl, ih]
    · have hcons : idValues ((key, value) :: fs) = idValues fs := by simp [idValues, hk]
      rw [hcons, parseHidVidPid.loop, if_neg hk, ih]

section

variable (uevent : List Byte) (u : UeventInfo)

/-- The variables after the flags are cleared. -/
def UeventInfo.fresh : UeventInfo := { u with found_id := false, found_serial := false, found_name := false }

theorem parseUeventInfo_read : u.fresh.Read (fields uevent) (parseUeventInfo (some uevent) u).2 :=
  UeventInfo.read_foldl _ _

theorem parseUeventInfo_fst : (parseUeventInfo (some uevent) u).1 =
    ((parseUeventInfo (some uevent) u).2.found_id && (parseUeventInfo (some uevent) u).2.found_name &&
      (parseUeventInfo (some uevent) u).2.found_serial) := rfl

/-- The two functions agree on a text with one id at most. -/
theorem parseHidVidPid_agrees (h : (idValues (fields uevent)).length ≤ 1) (ids : HidId) :
    (parseHidVidPid uevent ids).1 = (parseUeventInfo (some uevent) u).2.found_id ∧
      ((parseHidVidPid uevent ids).1 = true →
        (parseHidVidPid uevent ids).2 = (parseUeventInfo (some uevent) u).2.ids) := by
  have hread := parseUeventInfo_read uevent u
  rw [hread.found_id, hread.ids, parseHidVidPid, parseHidVidPid_loop]
  match idValues (fields uevent), h with
  | [], _ =>
    exact ⟨rfl, fun hn => Bool.noConfusion hn⟩
  | [v], _ =>
    rw [List.map_singleton, parseHidVidPid.loop, if_pos rfl]
    by_cases h3 : (scanId v ids).1 = 3
    · rw [if_pos h3]
      exact ⟨by simp [scanId_fst v _ ids, h3], fun _ => scanId_snd ids _ h3⟩
    · rw [if_neg h3]
      exact ⟨by simp [parseHidVidPid.loop, UeventInfo.fresh, scanId_fst v _ ids, h3], fun hn => Bool.noConfusion hn⟩

end

/-- From the text of any fields with one id, in any order and with any others
among them, both functions read the id, and the first reads the last name and
the last serial; it succeeds if both are there. -/
theorem parse_render {fs : List (List Byte × List Byte)} (h : ∀ f ∈ fs, OneLine f)
    (hlen : (render fs).length ≤ 1023) {bus vid pid : List Byte} (hb : Numeral bus) (hv : Numeral vid)
    (hp : Numeral pid) (hid : idValues fs = [idValue bus vid pid]) (u : UeventInfo) (ids : HidId) :
    parseHidVidPid (render fs) ids = (true, idOf bus vid pid) ∧
      parseUeventInfo (some (render fs)) u =
        ((lastValue HID_NAME fs).isSome && (lastValue HID_UNIQ fs).isSome,
          { ids := idOf bus vid pid
            serial_number_utf8 := (lastValue HID_UNIQ fs).or u.serial_number_utf8
            product_name_utf8 := (lastValue HID_NAME fs).or u.product_name_utf8
            found_id := true
            found_serial := (lastValue HID_UNIQ fs).isSome
            found_name := (lastValue HID_NAME fs).isSome }) := by
  have hread := parseUeventInfo_read (render fs) u
  have hfst := parseUeventInfo_fst (render fs) u
  rw [fields_render h hlen] at hread
  have hids := hread.ids
  have hfound := hread.found_id
  rw [hid] at hids hfound
  simp only [List.foldl_cons, List.foldl_nil, List.any_cons, List.any_nil, scanId_idValue hb hv hp, beq_self_eq_true,
    Bool.or_false, Bool.or_true] at hids hfound
  refine ⟨?_, Prod.ext ?_ ?_⟩
  · rw [parseHidVidPid, fields_render h hlen, parseHidVidPid_loop, hid, List.map_singleton, parseHidVidPid.loop,
      if_pos rfl, scanId_idValue hb hv hp, if_pos rfl]
  · rw [hfst, hfound, hread.found_name, hread.found_serial]
    rfl
  · exact UeventInfo.ext hids hread.serial hread.name hfound hread.found_serial hread.found_name

/-- `0003:000005AC:00008242`, the id of the source's comment. -/
def sampleBus : List Byte := [0x30, 0x30, 0x30, 0x33]
def sampleVid : List Byte := [0x30, 0x30, 0x30, 0x30, 0x30, 0x35, 0x41, 0x43]
def samplePid : List Byte := [0x30, 0x30, 0x30, 0x30, 0x38, 0x32, 0x34, 0x32]

def sampleFields : List (List Byte × List Byte) :=
  [(HID_ID, idValue sampleBus sampleVid samplePid), (HID_NAME, [0x54, 0x42]), (HID_UNIQ, [0x31])]

theorem parse_sample : parseHidVidPid (render sampleFields) ⟨0, 0, 0⟩ = (true, ⟨0x3, 0x5ac, 0x8242⟩) ∧
    parseUeventInfo (some (render sampleFields)) ⟨⟨0, 0, 0⟩, none, none, false, false, false⟩ =
      (true, ⟨⟨0x3, 0x5ac, 0x8242⟩, some [0x31], some [0x54, 0x42], true, true, true⟩) := by
  have hfields : ∀ f ∈ sampleFields, OneLine f := by decide
  have hbus : Numeral sampleBus := by decide
  have hvid : Numeral sampleVid := by decide
  have hpid : Numeral samplePid := by decide
  exact parse_render hfields (by decide) hbus hvid hpid rfl _ _

end Uevent
end ToolbitSdk
