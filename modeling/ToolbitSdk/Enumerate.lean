/-
# The list of devices

`create_device_info_for_device` and `hid_enumerate` of `hidapi/linux/hid.c`,
which make the list that the device manager searches: for each hidraw device
of udev a record for each of its usages, or one if it has none
(`hidEnumerate_eq`). What `mbstowcs` makes of bytes is a parameter.

The vendor and the product asked for are looked up in another text and by
another parser than those of the record, but the list is that of all devices,
filtered, where the texts say the same once (`hidEnumerate_filter`). Records
of one device do not differ in what the device manager compares, so its
searches see each device once, and only its count of devices depends on what
a device says in its descriptor (`lookups_by_device`).
-/
import ToolbitSdk.Descriptor
import ToolbitSdk.DeviceManager
import ToolbitSdk.Uevent

namespace ToolbitSdk
namespace Enumerate

open Bytes Descriptor Uevent TbiDeviceManager

/-! ### What udev has -/

/-- The parent of the subsystem `usb` and the type `usb_device`. -/
structure UsbDevice where
  manufacturer : Option (List Byte)
  product : Option (List Byte)
  bcdDevice : Option (List Byte)

/-- A hidraw device, with those of its parents that are there: of `hid` the
attribute `uevent`, of `usb_interface` the attribute `bInterfaceNumber`. The
descriptor is what can be read of it. -/
structure RawDevice where
  devnode : Option (List Byte)
  hid_dev : Option (Option (List Byte))
  usb_dev : Option UsbDevice
  intf_dev : Option (Option (List Byte))
  report_descriptor : Option (List Byte)

/-- An entry of the list of udev: whether it has a name, what can be read of
the file `device/uevent` there, and the device. -/
structure Entry where
  sysfs_path : Bool
  uevent : Option (List Byte)
  raw_dev : Option RawDevice

/-- `hid_bus_type`. -/
inductive BusType
  | unknown
  | usb
  | bluetooth
  | i2c
  | spi
  deriving DecidableEq, Repr

/-- `hid_device_info`, without `next`. -/
structure HidDeviceRecord (w : ℕ) extends HidDeviceInfo w where
  vendor_id : BitVec 16
  product_id : BitVec 16
  release_number : BitVec 16
  manufacturer_string : Option (WString w)
  usage_page : BitVec 16
  usage : BitVec 16
  interface_number : ℤ
  bus_type : BusType

/-- The bus types of `linux/input.h`. -/
def BUS_USB : BitVec 32 := 0x03
def BUS_BLUETOOTH : BitVec 32 := 0x05
def BUS_I2C : BitVec 32 := 0x18
def BUS_SPI : BitVec 32 := 0x1C

/-! ### The code -/

/-- `strtol(str, NULL, 16)`. -/
def strtol (str : List Byte) : ℤ :=
  let sign := scanSign (str.dropWhile isSpace)
  let v : ℤ := hexVal ((scanZeroX sign.2).2.takeWhile isDigit)
  if sign.1 then max (-v) (-2 ^ 63) else min v (2 ^ 63 - 1)

section

variable {w : ℕ} (mbstowcs : List Byte → Option (WString w))

/-- `L""`. -/
def wempty : WString w := ⟨[], fun _ h => absurd h List.not_mem_nil⟩

def utf8_to_wchar_t (utf8 : Option (List Byte)) : Option (WString w) :=
  utf8.map fun s => (mbstowcs s).getD wempty

/-- The first record, before its usage is known; `ids` is what the variables
have from the stack. -/
def createRoot (raw_dev : RawDevice) (ids : HidId) : Option (HidDeviceRecord w) :=
  raw_dev.hid_dev.bind fun uevent =>
    let result := parseUeventInfo uevent ⟨ids, none, none, false, false, false⟩
    let root : HidDeviceRecord w := {
      path := raw_dev.devnode
      vendor_id := result.2.ids.vendor_id
      product_id := result.2.ids.product_id
      serial_number := utf8_to_wchar_t mbstowcs result.2.serial_number_utf8
      release_number := 0
      interface_number := -1
      manufacturer_string := some wempty
      product_string := utf8_to_wchar_t mbstowcs result.2.product_name_utf8
      usage_page := 0
      usage := 0
      bus_type := .unknown }
    if result.1 = false then none
    else if result.2.ids.bus_type = BUS_USB then
      match raw_dev.usb_dev with
      | none => some root
      | some usb_dev => some { root with
          manufacturer_string := utf8_to_wchar_t mbstowcs usb_dev.manufacturer
          product_string := utf8_to_wchar_t mbstowcs usb_dev.product
          bus_type := .usb
          release_number := match usb_dev.bcdDevice with
            | some str => BitVec.ofInt 16 (strtol str)
            | none => 0
          interface_number := match raw_dev.intf_dev with
            | some (some str) => (BitVec.ofInt 32 (strtol str)).toInt
            | _ => -1 }
    else if result.2.ids.bus_type = BUS_BLUETOOTH then some { root with bus_type := .bluetooth }
    else if result.2.ids.bus_type = BUS_I2C then some { root with bus_type := .i2c }
    else if result.2.ids.bus_type = BUS_SPI then some { root with bus_type := .spi }
    else none

/-- The records of the additional usages, each from the one before it. -/
def createNext (dev_path : Option (List Byte)) (dev_vid dev_pid : BitVec 16) :
    HidDeviceRecord w → List UsagePair → List (HidDeviceRecord w)
  | _, [] => []
  | prev_dev, pair :: pairs =>
    let cur_dev : HidDeviceRecord w := {
      path := dev_path
      vendor_id := dev_vid
      product_id := dev_pid
      serial_number := prev_dev.serial_number
      release_number := prev_dev.release_number
      interface_number := prev_dev.interface_number
      manufacturer_string := prev_dev.manufacturer_string
      product_string := prev_dev.product_string
      usage_page := pair.1
      usage := pair.2
      bus_type := prev_dev.bus_type }
    cur_dev :: createNext dev_path dev_vid dev_pid cur_dev pairs

/-- The records of a device, if no access is outside of the descriptor. -/
def createDeviceInfoForDevice (raw_dev : RawDevice) (ids : HidId) :
    Option (List (HidDeviceRecord w)) :=
  match createRoot mbstowcs raw_dev ids, raw_dev.report_descriptor with
  | none, _ => some []
  | some root, none => some [root]
  | some root, some report_desc => do
    let first ← getNextHidUsage report_desc ⟨0, false, 0⟩ 0 0
    let root := if first.ret = 0 then { root with usage_page := first.usage_page, usage := first.usage } else root
    let next ← usages report_desc (report_desc.length + 1) first.ctx first.usage_page first.usage
    return root :: createNext raw_dev.devnode root.vendor_id root.product_id root next.1

/-- The filter of `hid_enumerate`. -/
def Entry.passes (vendor_id product_id : BitVec 16) (e : Entry) : Bool :=
  e.sysfs_path &&
    if vendor_id ≠ 0 ∨ product_id ≠ 0 then
      match e.uevent with
      | none => false
      | some file =>
        -- `read` of at most 1023 bytes, and a NUL after them
        let dev := parseHidVidPid (cstr (file.take 1023)) ⟨0, 0, 0⟩
        dev.1 && (vendor_id = 0 || vendor_id = dev.2.vendor_id) && (product_id = 0 || product_id = dev.2.product_id)
    else true

def hidEnumerate (vendor_id product_id : BitVec 16) (ids : HidId) :
    List Entry → Option (List (HidDeviceRecord w))
  | [] => some []
  | e :: devices => do
    let tmp ← match e.passes vendor_id product_id, e.raw_dev with
      | true, some raw_dev => createDeviceInfoForDevice mbstowcs raw_dev ids
      | _, _ => some []
    let rest ← hidEnumerate vendor_id product_id ids devices
    return tmp ++ rest

/-! ### What the list says -/

/-- A record for each pair, or the one there is. -/
def records (root : HidDeviceRecord w) : List UsagePair → List (HidDeviceRecord w)
  | [] => [root]
  | p :: ps => (p :: ps).map fun p => { root with usage_page := p.1, usage := p.2 }

/-- The pairs of the descriptor, if it can be read. -/
def RawDevice.pairs (raw_dev : RawDevice) : List UsagePair :=
  match raw_dev.report_descriptor with
  | none => []
  | some d => pairsOf d

/-- The first record of what an entry stands for. -/
def Entry.root (ids : HidId) (e : Entry) : Option (HidDeviceRecord w) :=
  e.raw_dev.bind fun raw_dev => createRoot mbstowcs raw_dev ids

def Entry.pairs (e : Entry) : List UsagePair :=
  match e.raw_dev with
  | none => []
  | some raw_dev => raw_dev.pairs

/-- What the entry adds to the list. -/
def Entry.records (ids : HidId) (e : Entry) : List (HidDeviceRecord w) :=
  match e.root mbstowcs ids with
  | none => []
  | some root => Enumerate.records root e.pairs

theorem createNext_eq (root : HidDeviceRecord w) (prev : HidDeviceRecord w) (ps : List UsagePair)
    (h : ∃ p : UsagePair, prev = { root with usage_page := p.1, usage := p.2 }) :
    createNext root.path root.vendor_id root.product_id prev ps =
      ps.map fun p => { root with usage_page := p.1, usage := p.2 } := by
  induction ps generalizing prev with
  | nil => rfl
  | cons p ps ih =>
    obtain ⟨q, rfl⟩ := h
    rw [createNext, List.map_cons, ih _ ⟨p, rfl⟩]

/-- A device has a record only if its uevent is read. -/
theorem createRoot_some {raw_dev : RawDevice} {ids : HidId} {root : HidDeviceRecord w}
    (h : createRoot mbstowcs raw_dev ids = some root) : root.path = raw_dev.devnode ∧
      ∃ uevent r, raw_dev.hid_dev = some (some uevent) ∧
        parseUeventInfo (some uevent) ⟨ids, none, none, false, false, false⟩ = (true, r) ∧
        root.vendor_id = r.ids.vendor_id ∧ root.product_id = r.ids.product_id := by
  obtain ⟨uevent, hdev, h⟩ := Option.bind_eq_some_iff.mp h
  cases uevent with
  | none => exact absurd h (by simp [parseUeventInfo])
  | some uevent =>
    rcases hr : parseUeventInfo (some uevent) ⟨ids, none, none, false, false, false⟩ with ⟨ret, r⟩
    rw [hr] at h
    have hroot : ret = true ∧ root.path = raw_dev.devnode ∧ root.vendor_id = r.ids.vendor_id ∧
        root.product_id = r.ids.product_id := by
      dsimp only at h
      split_ifs at h with h1 h2 h3 h4 h5
      · rw [Bool.not_eq_false] at h1
        split at h <;> cases h <;> exact ⟨h1, rfl, rfl, rfl⟩
      all_goals
        rw [Bool.not_eq_false] at h1
        cases h
        exact ⟨h1, rfl, rfl, rfl⟩
    obtain ⟨rfl, hpath, hvid, hpid⟩ := hroot
    exact ⟨hpath, uevent, r, hdev, hr, hvid, hpid⟩

/-- After the end a call reports nothing. -/
theorem usages_over {d : List Byte} (fuel : ℕ) {ctx : HidUsageIterator} (page usage : BitVec 16)
    (h : d.length ≤ ctx.pos) : usages d (fuel + 1) ctx page usage = some ([], 1) := by
  obtain ⟨r, hr, hfrom⟩ := getNextHidUsage_spec d ctx page usage
  obtain ⟨htop, hun⟩ := report_top_nil h (ctx.known false usage)
  rw [usages, hr]
  simp only [Option.bind_eq_bind, Option.bind_some]
  cases hfrom with
  | pair ret later inside _ said _ => omega
  | malformed ret past said level => exact absurd hun level
  | last ret past first said known level =>
    rw [htop] at known
    exact absurd known (by simp [HidUsageIterator.known, Known.pair])
  | finished ret past said known level => rw [ret]; rfl

/-- The first call and those after it: the pairs of the descriptor. -/
theorem first_usage (d : List Byte) : ∃ first next, getNextHidUsage d ⟨0, false, 0⟩ 0 0 = some first ∧
    usages d (d.length + 1) first.ctx first.usage_page first.usage = some next ∧
    pairsOf d = (if first.ret = 0 then (first.usage_page, first.usage) :: next.1 else next.1) ∧
    (first.ret ≠ 0 → next.1 = []) := by
  obtain ⟨first, hfirst, hfrom⟩ := getNextHidUsage_spec d ⟨0, false, 0⟩ 0 0
  have hall := usages_eq d 0 0
  rw [usages, hfirst] at hall
  simp only [Option.bind_eq_bind, Option.bind_some] at hall
  by_cases hret : first.ret = 0
  · rw [if_pos hret] at hall
    obtain ⟨next, hnext, hpairs⟩ := Option.bind_eq_some_iff.mp hall
    refine ⟨first, next, hfirst, hnext, ?_, fun h => absurd hret h⟩
    rw [if_pos hret]
    exact (Prod.mk.inj (Option.some.inj hpairs)).1.symm
  · rw [if_neg hret] at hall
    have hover : d.length ≤ first.ctx.pos := by
      cases hfrom with
      | pair ret => exact absurd ret hret
      | last ret => exact absurd ret hret
      | malformed _ past => exact past
      | finished _ past => exact past
    refine ⟨first, _, hfirst, usages_over d.length _ _ hover, ?_, fun _ => rfl⟩
    rw [if_neg hret]
    exact (Prod.mk.inj (Option.some.inj hall)).1.symm

/-- No access is outside of the descriptor, whatever its bytes are, and the
device has its records. -/
theorem createDeviceInfoForDevice_eq (raw_dev : RawDevice) (ids : HidId) :
    createDeviceInfoForDevice mbstowcs raw_dev ids =
      some (match createRoot mbstowcs raw_dev ids with
        | none => []
        | some root => records root raw_dev.pairs) := by
  unfold createDeviceInfoForDevice RawDevice.pairs
  cases hroot : createRoot mbstowcs raw_dev ids with
  | none => rfl
  | some root =>
    cases raw_dev.report_descriptor with
    | none => rfl
    | some d =>
      obtain ⟨first, next, hfirst, hnext, hpairs, hnil⟩ := first_usage d
      have hpath := (createRoot_some mbstowcs hroot).1
      simp only [hfirst, Option.bind_eq_bind, Option.bind_some, hnext, hpairs, ← hpath]
      by_cases hret : first.ret = 0
      · have hrun := createNext_eq root { root with usage_page := first.usage_page, usage := first.usage } next.1
          ⟨(first.usage_page, first.usage), rfl⟩
        rw [if_pos hret, if_pos hret, hrun]
        rfl
      · rw [if_neg hret, if_neg hret, hnil hret]
        rfl

/-- The list is that of the entries that pass, one after the other. -/
theorem hidEnumerate_eq (vendor_id product_id : BitVec 16) (ids : HidId) (es : List Entry) :
    hidEnumerate mbstowcs vendor_id product_id ids es =
      some ((es.filter (·.passes vendor_id product_id)).flatMap (·.records mbstowcs ids)) := by
  induction es with
  | nil => rfl
  | cons e es ih =>
    rw [hidEnumerate, ih]
    cases hp : e.passes vendor_id product_id with
    | false =>
      rw [List.filter_cons_of_neg (by rw [hp]; exact Bool.false_ne_true)]
      rfl
    | true =>
      rw [List.filter_cons_of_pos hp, List.flatMap_cons]
      cases hraw : e.raw_dev with
      | none =>
        have hnil : e.records mbstowcs ids = [] := by
          rw [Entry.records, Entry.root, hraw]
          rfl
        rw [hnil]
        rfl
      | some raw_dev =>
        have hrec : e.records mbstowcs ids = match createRoot mbstowcs raw_dev ids with
            | none => []
            | some root => records root raw_dev.pairs := by
          rw [Entry.records, Entry.root, hraw, Option.bind_some, Entry.pairs, hraw]
        dsimp only
        rw [createDeviceInfoForDevice_eq, hrec]
        rfl

/-! ### The filter -/

/-- What the filter is for. -/
def HidDeviceRecord.Has (vendor_id product_id : BitVec 16) (r : HidDeviceRecord w) : Prop :=
  (vendor_id = 0 ∨ vendor_id = r.vendor_id) ∧ (product_id = 0 ∨ product_id = r.product_id)

instance (vendor_id product_id : BitVec 16) :
    DecidablePred (HidDeviceRecord.Has (w := w) vendor_id product_id) :=
  fun r => inferInstanceAs (Decidable ((vendor_id = 0 ∨ vendor_id = r.vendor_id) ∧
    (product_id = 0 ∨ product_id = r.product_id)))

/-- The attribute is the content of the file: they have the same fields, and
one id at most. -/
def Entry.Consistent (e : Entry) : Prop :=
  ∀ raw_dev uevent, e.raw_dev = some raw_dev → raw_dev.hid_dev = some (some uevent) →
    ∃ file, e.uevent = some file ∧ fields (cstr (file.take 1023)) = fields uevent ∧
      (idValues (fields uevent)).length ≤ 1

theorem Entry.passes_zero (e : Entry) : e.passes 0 0 = e.sysfs_path := by simp [Entry.passes]

/-- The filter looks at the file and sees what the record will say. -/
theorem Entry.passes_of_root {e : Entry} (hc : e.Consistent) {ids : HidId} {root : HidDeviceRecord w}
    (hroot : e.root mbstowcs ids = some root) (vendor_id product_id : BitVec 16) :
    e.passes vendor_id product_id = (e.sysfs_path && decide (root.Has vendor_id product_id)) := by
  obtain ⟨raw_dev, hraw, hroot⟩ := Option.bind_eq_some_iff.mp hroot
  obtain ⟨-, uevent, r, hdev, hparse, hvid, hpid⟩ := createRoot_some mbstowcs hroot
  obtain ⟨file, hfile, hfields, hone⟩ := hc raw_dev uevent hraw hdev
  -- the two parsers agree on the fields that they share
  have hsame : parseHidVidPid (cstr (file.take 1023)) ⟨0, 0, 0⟩ = parseHidVidPid uevent ⟨0, 0, 0⟩ := by
    rw [parseHidVidPid, parseHidVidPid, hfields]
  obtain ⟨hret, hids⟩ := parseHidVidPid_agrees uevent ⟨ids, none, none, false, false, false⟩ hone ⟨0, 0, 0⟩
  have hfound := parseUeventInfo_fst uevent ⟨ids, none, none, false, false, false⟩
  rw [hparse] at hret hids hfound
  have hid : r.found_id = true := by simp_all
  rw [hid] at hret
  have hhas : decide (root.Has vendor_id product_id) =
      decide ((vendor_id = 0 ∨ vendor_id = (parseHidVidPid uevent ⟨0, 0, 0⟩).2.vendor_id) ∧
        (product_id = 0 ∨ product_id = (parseHidVidPid uevent ⟨0, 0, 0⟩).2.product_id)) := by
    rw [decide_eq_decide]
    unfold HidDeviceRecord.Has
    rw [hvid, hpid, hids hret]
  rw [hhas, Entry.passes, hfile]
  dsimp only
  rw [hsame, hret]
  by_cases h : vendor_id ≠ 0 ∨ product_id ≠ 0
  · rw [if_pos h]
    simp only [Bool.true_and, Bool.decide_and, Bool.decide_or]
  · rw [if_neg h]
    rw [not_or, not_not, not_not] at h
    simp [h.1, h.2]

theorem records_has {root : HidDeviceRecord w} {ps : List UsagePair} {r : HidDeviceRecord w}
    (h : r ∈ records root ps) (vendor_id product_id : BitVec 16) :
    r.Has vendor_id product_id ↔ root.Has vendor_id product_id := by
  cases ps with
  | nil =>
    rw [records, List.mem_singleton] at h
    rw [h]
  | cons p ps =>
    obtain ⟨q, -, rfl⟩ := List.mem_map.mp h
    exact Iff.rfl

theorem Entry.records_filter {e : Entry} (hc : e.Consistent) (ids : HidId) (vendor_id product_id : BitVec 16) :
    (if e.passes vendor_id product_id then e.records mbstowcs ids else []) =
      (if e.passes 0 0 then e.records mbstowcs ids else []).filter fun r => r.Has vendor_id product_id := by
  rw [Entry.passes_zero, Entry.records]
  cases hroot : e.root mbstowcs ids with
  | none => simp
  | some root =>
    rw [e.passes_of_root mbstowcs hc hroot]
    cases e.sysfs_path with
    | false => rfl
    | true =>
      rw [Bool.true_and, if_pos rfl]
      by_cases hhas : root.Has vendor_id product_id
      · rw [if_pos (decide_eq_true hhas), List.filter_eq_self.mpr]
        exact fun r hr => decide_eq_true ((records_has hr _ _).mpr hhas)
      · rw [if_neg (by rw [decide_eq_false hhas]; exact Bool.false_ne_true), eq_comm, List.filter_eq_nil_iff]
        intro r hr
        rw [decide_eq_true_eq, records_has hr]
        exact hhas

theorem flatMap_filter (f : Entry → List (HidDeviceRecord w)) (q : Entry → Bool) (es : List Entry) :
    (es.filter q).flatMap f = es.flatMap fun e => if q e then f e else [] := by
  induction es with
  | nil => rfl
  | cons e es ih =>
    cases h : q e with
    | false => rw [List.filter_cons_of_neg (by rw [h]; exact Bool.false_ne_true), List.flatMap_cons, ih, h]; rfl
    | true => rw [List.filter_cons_of_pos h, List.flatMap_cons, List.flatMap_cons, ih, h]; rfl

/-- To ask for a vendor and a product is to take them from the list of all. -/
theorem hidEnumerate_filter {es : List Entry} (hc : ∀ e ∈ es, e.Consistent) (vendor_id product_id : BitVec 16)
    (ids : HidId) : hidEnumerate mbstowcs vendor_id product_id ids es =
      (hidEnumerate mbstowcs 0 0 ids es).map (List.filter fun r => r.Has vendor_id product_id) := by
  rw [hidEnumerate_eq, hidEnumerate_eq, Option.map_some, flatMap_filter, flatMap_filter, List.filter_flatMap]
  congr 1
  exact List.flatMap_congr fun e he => e.records_filter mbstowcs (hc e he) ids vendor_id product_id

end

/-- The text as wide characters. -/
def widen (s : List Byte) : List (BitVec 32) := s.map (·.setWidth 32)

theorem ne_zero_of_all {l : List (BitVec 32)} (h : l.all (· != 0) = true) : ∀ c ∈ l, c ≠ 0 := by
  intro c hc
  exact bne_iff_ne.mp (List.all_eq_true.mp h c hc)

/-- ASCII text as wide characters, if it has no NUL. -/
def ascii (s : List Byte) : Option (WString 32) :=
  if h : (widen s).all (· != 0) = true then some ⟨widen s, ne_zero_of_all h⟩ else none

/-- A device with the fields `fs`, and the descriptor `d` if it has one. -/
def entryOf (fs : List (List Byte × List Byte)) (d : Option (List Byte)) : Entry where
  sysfs_path := true
  uevent := some (render fs)
  raw_dev := some ⟨some [0x64], some (some (render fs)), none, none, d⟩

/-- It is what the filter is for: one text, with one id. -/
theorem consistent_entryOf {fs : List (List Byte × List Byte)} {d : Option (List Byte)}
    (hsame : fields (cstr ((render fs).take 1023)) = fields (render fs))
    (hone : (idValues (fields (render fs))).length ≤ 1) : (entryOf fs d).Consistent := by
  rintro raw_dev uevent hraw hdev
  obtain rfl := Option.some.inj hraw
  obtain rfl := Option.some.inj (Option.some.inj hdev)
  exact ⟨_, rfl, hsame, hone⟩

/-- `0003:000004D8:0000ECD0`, a device of the product "TB". -/
def tbFields : List (List Byte × List Byte) :=
  [(HID_ID, idValue sampleBus [0x30, 0x34, 0x44, 0x38] [0x45, 0x43, 0x44, 0x30]),
    (HID_NAME, [0x54, 0x42]), (HID_UNIQ, [0x32])]

/-- Of two devices, the one that has the vendor of the source's comment. -/
theorem hidEnumerate_filter_sample :
    ((hidEnumerate ascii 0 0 ⟨0, 0, 0⟩ [entryOf sampleFields none, entryOf tbFields none]).map List.length =
        some 2 ∧
      (hidEnumerate ascii 0x5ac 0 ⟨0, 0, 0⟩ [entryOf sampleFields none, entryOf tbFields none]).map List.length =
        some 1) ∧
    hidEnumerate ascii 0x5ac 0 ⟨0, 0, 0⟩ [entryOf sampleFields none, entryOf tbFields none] =
      (hidEnumerate ascii 0 0 ⟨0, 0, 0⟩ [entryOf sampleFields none, entryOf tbFields none]).map
        (List.filter fun r => r.Has 0x5ac 0) := by
  refine ⟨by decide, hidEnumerate_filter ascii (fun e he => ?_) _ _ _⟩
  rcases List.mem_cons.mp he with rfl | he
  · exact consistent_entryOf (by decide) (by decide)
  · obtain rfl := List.mem_singleton.mp he
    exact consistent_entryOf (by decide) (by decide)

/-! ### What the device manager sees -/

section

variable {w : ℕ} (mbstowcs : List Byte → Option (WString w)) (str : CharBuf)

/-- A device as the lookups see it, and how many records it has. -/
def Entry.device (ids : HidId) (e : Entry) : Option (HidDeviceInfo w × ℕ) :=
  (e.root mbstowcs ids).map fun root => (root.toHidDeviceInfo, max 1 e.pairs.length)

def USB_VID_PIC : BitVec 16 := 0x4D8
def USB_PID_PIC : BitVec 16 := 0xECD0

/-- The devices that pass the filter. -/
def devices (ids : HidId) (es : List Entry) : List (HidDeviceInfo w × ℕ) :=
  (es.filter (·.passes USB_VID_PIC USB_PID_PIC)).filterMap (·.device mbstowcs ids)

/-- `devs[0]` after `updateDeviceList()`. -/
def updateDeviceList (ids : HidId) (es : List Entry) : Option (List (HidDeviceInfo w)) :=
  (hidEnumerate mbstowcs USB_VID_PIC USB_PID_PIC ids es).map (List.map HidDeviceRecord.toHidDeviceInfo)

theorem records_info (root : HidDeviceRecord w) (ps : List UsagePair) :
    (records root ps).map HidDeviceRecord.toHidDeviceInfo = List.replicate (max 1 ps.length) root.toHidDeviceInfo := by
  cases ps with
  | nil => rfl
  | cons p ps =>
    rw [List.length_cons, max_eq_right (by omega), List.eq_replicate_iff]
    refine ⟨by simp [records], fun d hd => ?_⟩
    obtain ⟨r, hr, rfl⟩ := List.mem_map.mp hd
    obtain ⟨q, -, rfl⟩ := List.mem_map.mp hr
    rfl

theorem updateDeviceList_eq (ids : HidId) (es : List Entry) :
    updateDeviceList mbstowcs ids es =
      some ((devices mbstowcs ids es).flatMap fun d => List.replicate d.2 d.1) := by
  rw [updateDeviceList, hidEnumerate_eq, Option.map_some, devices]
  congr 1
  induction es.filter (·.passes USB_VID_PIC USB_PID_PIC) with
  | nil => rfl
  | cons e es ih =>
    rw [List.flatMap_cons, List.map_append, ih, List.filterMap_cons, Entry.records, Entry.device]
    cases e.root mbstowcs ids with
    | none => rfl
    | some root =>
      rw [Option.map_some, List.flatMap_cons, ← records_info]

theorem one_le_of_mem_devices {ids : HidId} {es : List Entry}
    {d : HidDeviceInfo w × ℕ} (h : d ∈ devices mbstowcs ids es) : 1 ≤ d.2 := by
  obtain ⟨e, -, he⟩ := List.mem_filterMap.mp h
  obtain ⟨root, -, rfl⟩ := Option.map_eq_some_iff.mp he
  exact le_max_left _ _

theorem findPath_some (test : HidDeviceInfo w → Option Bool) (path : List Byte) (l : List (HidDeviceInfo w)) :
    findPath test l (some path) = some (some path) :=
  by cases l <;> rfl

/-- A search that has not ended with a device does not end with it again. -/
theorem findPath_replicate (test : HidDeviceInfo w → Option Bool) (d : HidDeviceInfo w)
    (rest : List (HidDeviceInfo w))
    (n : ℕ) : findPath test (List.replicate (n + 1) d ++ rest) none = findPath test (d :: rest) none := by
  induction n with
  | zero => rfl
  | succ n ih =>
    rw [List.replicate_succ, List.cons_append, findPath, findPath]
    cases htest : test d with
    | none => rfl
    | some hit =>
      simp only [Option.bind_eq_bind, Option.bind_some]
      cases hpath : (if hit = true then d.path else none) with
      | none =>
        rw [ih, findPath, htest, Option.bind_eq_bind, Option.bind_some, hpath]
      | some path => rw [findPath_some, findPath_some]

theorem findPath_devices (test : HidDeviceInfo w → Option Bool) {ds : List (HidDeviceInfo w × ℕ)}
    (h : ∀ d ∈ ds, 1 ≤ d.2) :
    findPath test (ds.flatMap fun d => List.replicate d.2 d.1) none = findPath test (ds.map Prod.fst) none := by
  induction ds with
  | nil => rfl
  | cons d ds ih =>
    obtain ⟨hd, hds⟩ := List.forall_mem_cons.mp h
    obtain ⟨n, hn⟩ := Nat.exists_eq_add_of_le' hd
    rw [List.flatMap_cons, hn, findPath_replicate, List.map_cons, findPath, findPath]
    cases test d.1 with
    | none => rfl
    | some hit =>
      simp only [Option.bind_eq_bind, Option.bind_some]
      cases (if hit = true then d.1.path else none) with
      | none => exact ih hds
      | some path => rw [findPath_some, findPath_some]

theorem foldl_count (name : List Byte) (ds : List (HidDeviceInfo w × ℕ)) (num : ℕ) :
    (ds.flatMap fun d => List.replicate d.2 d.1).foldl
        (fun num d => if name = narrow d.product_string then num + 1 else num) num =
      num + ((ds.filter fun d => Named name d.1).map Prod.snd).sum := by
  induction ds generalizing num with
  | nil => rfl
  | cons d ds ih =>
    have hrun (n num : ℕ) : (List.replicate n d.1).foldl
        (fun num d => if name = narrow d.product_string then num + 1 else num) num =
        num + if Named name d.1 then n else 0 := by
      induction n generalizing num with
      | zero => simp
      | succ n ihn =>
        rw [List.replicate_succ, List.foldl_cons, ihn]
        by_cases hn : name = narrow d.1.product_string
        · have hn' : Named name d.1 := hn
          rw [if_pos hn, if_pos hn', if_pos hn']
          omega
        · have hn' : ¬ Named name d.1 := hn
          rw [if_neg hn, if_neg hn', if_neg hn']
    rw [List.flatMap_cons, List.foldl_append, hrun, ih]
    by_cases hn : Named name d.1
    · rw [if_pos hn, List.filter_cons, if_pos (decide_eq_true hn), List.map_cons, List.sum_cons, Nat.add_assoc]
    · rw [if_neg hn, List.filter_cons, if_neg (by rwa [decide_eq_true_eq]), Nat.add_zero]

/-- The lookups see each device once, whatever its descriptor says: only the
number of devices counts its usages. -/
theorem lookups_by_device (ids : HidId) (es : List Entry) :
    ∃ devs, updateDeviceList mbstowcs ids es = some devs ∧
      (∀ name, getPathByName str devs name =
        getPathByName str ((devices mbstowcs ids es).map Prod.fst) name) ∧
      (∀ name serial, getPathByNameAndSerial str devs name serial =
        getPathByNameAndSerial str ((devices mbstowcs ids es).map Prod.fst) name serial) ∧
      ∀ name, (∀ d ∈ devices mbstowcs ids es, Short d.1.product_string) →
        getDeviceNum str devs name =
          some (((devices mbstowcs ids es).filter fun d => Named name d.1).map Prod.snd).sum := by
  have hone : ∀ d ∈ devices mbstowcs ids es, 1 ≤ d.2 := fun d hd =>
    one_le_of_mem_devices mbstowcs hd
  refine ⟨_, updateDeviceList_eq mbstowcs ids es, fun name => findPath_devices _ hone,
    fun name serial => findPath_devices _ hone, fun name hshort => ?_⟩
  have hstep : ∀ (num : ℕ), ∀ d ∈ (devices mbstowcs ids es).flatMap
      (fun d => List.replicate d.2 d.1), (do
      let product ← convertWcharToString str d.product_string
      some (if name = product then num + 1 else num)) =
        some (if name = narrow d.product_string then num + 1 else num) := by
    intro num d hd
    obtain ⟨d', hd', hr⟩ := List.mem_flatMap.mp hd
    obtain rfl := List.eq_of_mem_replicate hr
    rw [convertWcharToString_of_short str (hshort d' hd')]
    rfl
  rw [getDeviceNum, foldlM_eq_some hstep, foldl_count, Nat.zero_add]

end

/-- Two collections, a mouse and a keyboard. -/
def twoCollections : List Byte := [0x05, 0x01, 0x09, 0x02, 0xA1, 0x01, 0xC0, 0x05, 0x01, 0x09, 0x06, 0xA1, 0x01, 0xC0]

/-- One device "TB" of two collections counts as two. -/
theorem lookups_by_device_two : ∃ devs,
    updateDeviceList ascii ⟨0, 0, 0⟩ [entryOf tbFields (some twoCollections)] = some devs ∧
      getPathByName zeroBuf devs [0x54, 0x42] = some (some [0x64]) ∧
      getDeviceNum zeroBuf devs [0x54, 0x42] = some 2 := by
  obtain ⟨devs, hdevs, hpath, -, hnum⟩ :=
    lookups_by_device ascii zeroBuf ⟨0, 0, 0⟩ [entryOf tbFields (some twoCollections)]
  exact ⟨devs, hdevs, (hpath _).trans (by decide), (hnum _ (by decide)).trans (by decide +kernel)⟩

end Enumerate
end ToolbitSdk
