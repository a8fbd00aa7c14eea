/-
# Whose name is it?

`TbiCore::openPath` reads five strings of the device it has opened into the
attributes of the object, which `getVendorName` and its like return from
then on. It ignores the results of the reads, and neither it nor `close`
clears the attributes: after a read that fails, the getter returns what the
attribute held, which may be the string of a device opened before
(`Desk.wrong_device`). While the object is open every getter returns what
the device has replied in this session (`Desk.Identified`) exactly when
every `openPath` that succeeds has all five reads accepted
(`Desk.identified_iff`).
-/
import ToolbitSdk.StoredValue
import ToolbitSdk.Transaction
import ToolbitSdk.Lib.Mealy

namespace ToolbitSdk

open Bytes TbiService

def ATT_VENDOR_NAME : AttId := 0x0000
def ATT_PRODUCT_NAME : AttId := 0x0001
def ATT_PRODUCT_REVISION : AttId := 0x0002
def ATT_PRODUCT_SERIAL : AttId := 0x0003
def ATT_FIRM_VERSION : AttId := 0x0004

/-- The common attributes, in the order `openPath` reads them. -/
inductive CommonAtt
  | vendorName
  | productName
  | productRevision
  | productSerial
  | firmVersion
  deriving DecidableEq

namespace CommonAtt

def id : CommonAtt → AttId
  | vendorName => ATT_VENDOR_NAME
  | productName => ATT_PRODUCT_NAME
  | productRevision => ATT_PRODUCT_REVISION
  | productSerial => ATT_PRODUCT_SERIAL
  | firmVersion => ATT_FIRM_VERSION

/-- The number of its read. -/
def index : CommonAtt → ℕ
  | vendorName => 0
  | productName => 1
  | productRevision => 2
  | productSerial => 3
  | firmVersion => 4

end CommonAtt

namespace TbiCore

/-- `TbiCore::TbiCore`, on memory that holds `junk`. -/
def new (junk : List Byte) (h : junk.length = VALUE_LEN + 1) : TbiCore where
  mAttVendorName := .new junk h ATT_VENDOR_NAME 0x00 0x00
  mAttProductName := .new junk h ATT_PRODUCT_NAME 0x00 0x00
  mAttProductRevision := .new junk h ATT_PRODUCT_REVISION 0x00 0x00
  mAttProductSerial := .new junk h ATT_PRODUCT_SERIAL 0x00 0x00
  mAttFirmVersion := .new junk h ATT_FIRM_VERSION 0x00 0x00

def att (c : TbiCore) : CommonAtt → Attribute
  | .vendorName => c.mAttVendorName
  | .productName => c.mAttProductName
  | .productRevision => c.mAttProductRevision
  | .productSerial => c.mAttProductSerial
  | .firmVersion => c.mAttFirmVersion

/-- The string of an attribute, and the attribute after `getValueStr`. -/
def stringOf (a : Attribute) : List Byte × Attribute := a.onValue fun v => (cstr v.getValueStr.1, v.getValueStr.2)

def getVendorName (c : TbiCore) : List Byte × TbiCore :=
  ((stringOf c.mAttVendorName).1, { c with mAttVendorName := (stringOf c.mAttVendorName).2 })

def getProductName (c : TbiCore) : List Byte × TbiCore :=
  ((stringOf c.mAttProductName).1, { c with mAttProductName := (stringOf c.mAttProductName).2 })

def getProductRevision (c : TbiCore) : List Byte × TbiCore :=
  ((stringOf c.mAttProductRevision).1, { c with mAttProductRevision := (stringOf c.mAttProductRevision).2 })

def getProductSerial (c : TbiCore) : List Byte × TbiCore :=
  ((stringOf c.mAttProductSerial).1, { c with mAttProductSerial := (stringOf c.mAttProductSerial).2 })

def getFirmVersion (c : TbiCore) : List Byte × TbiCore :=
  ((stringOf c.mAttFirmVersion).1, { c with mAttFirmVersion := (stringOf c.mAttFirmVersion).2 })

/-- The getter of an attribute. -/
def get (c : TbiCore) : CommonAtt → List Byte × TbiCore
  | .vendorName => c.getVendorName
  | .productName => c.getProductName
  | .productRevision => c.getProductRevision
  | .productSerial => c.getProductSerial
  | .firmVersion => c.getFirmVersion

theorem get_fst (c : TbiCore) (q : CommonAtt) : (c.get q).1 = cstr (c.att q).getValueStr.1 := by
  cases q <;> rfl

/-- A getter changes its own attribute only. -/
theorem att_get (c : TbiCore) (q q' : CommonAtt) :
    (c.get q).2.att q' = if q' = q then (stringOf (c.att q')).2 else c.att q' := by
  cases q <;> cases q' <;> rfl

end TbiCore

/-- What a getter returns it returns again. -/
theorem stringOf_again (a : Attribute) :
    cstr (TbiCore.stringOf a).2.getValueStr.1 = cstr a.getValueStr.1 := by
  show cstr ((a.dat.set VALUE_LEN 0).set VALUE_LEN 0) = cstr (a.dat.set VALUE_LEN 0)
  rw [List.set_set]

/-! ### The object and the devices it opens -/

/-- A `TbiCore` on its device. -/
structure Desk where
  core : TbiCore
  link : Bank
  /-- history: the strings the device has replied since it was opened -/
  replied : CommonAtt → Option (List Byte)

/-- A call of a method of `TbiCore`. -/
inductive DeskCall
  | openPath (path : Option (Option (AttId → Value)))
  | close
  | isConnected
  | get (q : CommonAtt)

namespace Desk

/-- What the device replies to the reads of an `openPath`. -/
def replies (d : Bank) (n : ℕ) (q : CommonAtt) : Option (List Byte) :=
  if d.accepts (n + q.index) then some (cstr (d.vals q.id).bytes) else none

/-- The call's result and the object after it. -/
def step (s : Desk) : DeskCall → (Bool ⊕ List Byte) × Desk
  | .openPath path =>
    let r := s.core.openPath s.link path
    (.inl r.1, ⟨r.2.1, r.2.2, if r.1 then s.replied else replies r.2.2 s.link.n⟩)
  | .close =>
    let r := TbiCore.close s.link
    (.inl r.1, { s with link := r.2 })
  | .isConnected => (.inl s.link.connected, s)
  | .get q => (.inr (s.core.get q).1, { s with core := (s.core.get q).2 })

/-- While the device is open, every getter returns the string it has replied
since it was opened. -/
def Identified (s : Desk) : Prop :=
  s.link.connected = true → ∀ q, s.replied q = some (s.core.get q).1

/-- The strings that an `openPath` reads, in the reads that are accepted, are
NUL-terminated. -/
def Terminated (s : Desk) : DeskCall → Prop
  | .openPath (some (some vals)) => s.link.connected = false → ∀ q : CommonAtt,
    s.link.accepts (s.link.n + q.index) = true → (0 : Byte) ∈ (vals q.id).bytes
  | _ => True

/-- An `openPath` that succeeds has its five reads accepted. -/
def Answered (s : Desk) : DeskCall → Prop
  | .openPath (some (some _)) =>
    s.link.connected = false → ∀ q : CommonAtt, s.link.accepts (s.link.n + q.index) = true
  | _ => True

/-- The attributes have their ids. -/
def Named (s : Desk) : Prop := ∀ q, (s.core.att q).attid = q.id

end Desk

/-! ### What openPath reads -/

/-- Each attribute is read after those before it. -/
theorem Bank.readProductData_att {d : Bank} (c : TbiCore) (h : d.connected = true) (q : CommonAtt) :
    (c.readProductData d).1.att q = (readAttribute { d with n := d.n + q.index } (c.att q)).2.1 := by
  rw [readProductData_eq c h]
  cases q <;> rfl

theorem Bank.openPath_opens {d : Bank} (c : TbiCore) (h : d.connected = false) (vals : AttId → Value) :
    c.openPath d (some (some vals)) = (false, c.readProductData { d with connected := true, vals }) := by
  have hc : ¬ Link.isOpen d = true := by
    show ¬ d.connected = true
    rw [h]
    exact Bool.false_ne_true
  rw [TbiCore.openPath, if_neg hc]
  rfl

/-- A terminated string that is stored over anything is the string the getter
returns. -/
theorem Attvalue.cstr_setValueBytes (a : Attvalue) {v : List Byte} (hv : v.length ≤ VALUE_LEN)
    (h0 : (0 : Byte) ∈ v) :
    cstr (a.setValueBytes v (BitVec.ofNat 8 v.length)).2.getValueStr.1 = cstr v := by
  have hn := toNat_length hv
  have ht : v.take (BitVec.ofNat 8 v.length).toNat = v := by rw [hn, List.take_length]
  have hle : (v.take (BitVec.ofNat 8 v.length).toNat).length ≤ VALUE_LEN := by rwa [ht]
  have hl : (BitVec.ofNat 8 v.length).toNat ≤ VALUE_LEN := by rwa [hn]
  have hs := (a.cstr_store_iff (BitVec.ofNat 8 v.length) (hle.trans (Nat.le_succ _)) hl hle).mpr
    (.inl (by rwa [ht]))
  rw [setValueBytes, dif_pos hl]
  exact hs.trans (congrArg cstr ht)

namespace Desk

/-- An `openPath` that fails changes nothing. -/
theorem step_openPath_failed {s : Desk} {path : Option (Option (AttId → Value))}
    (h : ∀ vals, path = some (some vals) → s.link.connected = true) : (step s (.openPath path)).2 = s := by
  rcases path with _ | vals
  · rfl
  by_cases hc : Link.isOpen s.link = true
  · simp only [step, TbiCore.openPath, hc, ↓reduceIte]
  · rcases vals with _ | vals
    · have ho : Link.openDevice s.link (none : Option (AttId → Value)) = (true, s.link) := rfl
      simp only [step, TbiCore.openPath, hc, ho, ↓reduceIte, Bool.false_eq_true]
    · exact absurd (h vals rfl) hc

section

variable {s : Desk} {vals : AttId → Value}

/-- What an `openPath` that succeeds leaves. -/
theorem step_openPath (h : s.link.connected = false) : (step s (.openPath (some (some vals)))).2 =
    ⟨(s.core.readProductData { s.link with connected := true, vals }).1,
      { s.link with connected := true, vals, n := s.link.n + 5 },
      replies { s.link with connected := true, vals, n := s.link.n + 5 } s.link.n⟩ := by
  have hl := Bank.readProductData_link (d := { s.link with connected := true, vals }) s.core rfl
  simp only [step, Bank.openPath_opens s.core h vals, hl, ↓reduceIte, Bool.false_eq_true]

/-- A read that is accepted brings the device's string. -/
theorem get_readProductData (hn : s.Named) {q : CommonAtt} (h0 : (0 : Byte) ∈ (vals q.id).bytes)
    (ha : s.link.accepts (s.link.n + q.index) = true) :
    ((s.core.readProductData { s.link with connected := true, vals }).1.get q).1 = cstr (vals q.id).bytes := by
  rw [TbiCore.get_fst, Bank.readProductData_att s.core rfl q, Bank.readAttribute_accepted _ rfl ha]
  simp only [Attribute.onValue_toAttvalue, hn q]
  exact Attvalue.cstr_setValueBytes _ (vals q.id).le h0

theorem identified_openPath (hn : s.Named) (h : s.link.connected = false)
    (ht : ∀ q : CommonAtt, s.link.accepts (s.link.n + q.index) = true → (0 : Byte) ∈ (vals q.id).bytes) :
    (step s (.openPath (some (some vals)))).2.Identified ↔
      ∀ q : CommonAtt, s.link.accepts (s.link.n + q.index) = true := by
  rw [step_openPath h]
  constructor
  · intro hi q
    have hq := hi rfl q
    simp only [replies] at hq
    by_contra hr
    rw [if_neg hr] at hq
    cases hq
  · intro ha _ q
    simp only [replies]
    rw [if_pos (ha q), get_readProductData hn (ht q (ha q)) (ha q)]

end

/-- A getter leaves what every getter returns. -/
theorem get_get (c : TbiCore) (q q' : CommonAtt) : ((c.get q).2.get q').1 = (c.get q').1 := by
  rw [TbiCore.get_fst, TbiCore.get_fst, TbiCore.att_get]
  split
  · exact stringOf_again _
  · rfl

theorem identified_step {s : Desk} {i : DeskCall} (hn : s.Named) (hs : s.Identified) (ht : s.Terminated i) :
    (step s i).2.Identified ↔ s.Answered i := by
  cases i with
  | openPath path =>
    by_cases hc : s.link.connected = true
    · rw [step_openPath_failed fun _ _ => hc]
      refine iff_of_true hs ?_
      rcases path with _ | _ | vals
      · trivial
      · trivial
      · exact fun hf => absurd hc (by rw [hf]; exact Bool.false_ne_true)
    · rcases path with _ | _ | vals
      · exact iff_of_true hs trivial
      · rw [step_openPath_failed fun _ he => by injection he with he; cases he]
        exact iff_of_true hs trivial
      · have hf : s.link.connected = false := Bool.eq_false_iff.mpr hc
        rw [identified_openPath hn hf (ht hf)]
        exact ⟨fun h _ => h, fun h => h hf⟩
  | close =>
    refine iff_of_true (fun hc => ?_) trivial
    have hl : (step s .close).2.link.connected = false := by
      simp only [step, Bank.close_link]
    rw [hl] at hc
    cases hc
  | isConnected => exact iff_of_true hs trivial
  | get q => exact iff_of_true (fun hc q' => (hs hc q').trans (congrArg some (get_get s.core q q').symm)) trivial

theorem named_step {s : Desk} (i : DeskCall) (hn : s.Named) : (step s i).2.Named := by
  cases i with
  | openPath path =>
    rcases path with _ | _ | vals
    · exact hn
    · rw [step_openPath_failed fun _ he => by injection he with he; cases he]
      exact hn
    · by_cases hc : s.link.connected = true
      · rw [step_openPath_failed fun _ _ => hc]
        exact hn
      · rw [step_openPath (Bool.eq_false_iff.mpr hc)]
        intro q
        rw [Bank.readProductData_att s.core rfl q, readAttribute_attid]
        exact hn q
  | close => exact hn
  | isConnected => exact hn
  | get q =>
    intro q'
    simp only [step, TbiCore.att_get]
    split
    · exact hn q'
    · exact hn q'

/-- An object as constructed, its handle closed. -/
def new (junk : List Byte) (h : junk.length = VALUE_LEN + 1) (link : Bank) : Desk where
  core := .new junk h
  link := { link with connected := false }
  replied _ := none

/-- **Identity over every history.** At every point of every sequence of
calls of one constructed `TbiCore`, over any devices with any outcome of the
reads, the open device's strings are what the getters return exactly when
every `openPath` that succeeds has all its reads accepted. -/
theorem identified_iff {junk : List Byte} (h : junk.length = VALUE_LEN + 1) (link : Bank) (is : List DeskCall)
    (hok : Mealy.Along step Terminated (new junk h link) is) :
    (∀ pre, pre <+: is → (Mealy.after step (new junk h link) pre).Identified) ↔
      Mealy.Along step Answered (new junk h link) is := by
  have hnamed : (new junk h link).Named := fun q => by cases q <;> rfl
  exact Mealy.forall_after_iff_of_inv (I := Named) (fun _ i hn => named_step i hn)
    (fun _ _ hn hs ht => identified_step hn hs ht) is hnamed nofun hok

/-- A device whose five strings are all `name`. -/
def device (name : List Byte) (h : name.length ≤ VALUE_LEN) : DeskCall :=
  .openPath (some (some fun _ => ⟨name, h⟩))

/-- Two devices, "AB" and "C", one after the other. -/
def twoDevices : List DeskCall :=
  [device [0x41, 0x42, 0] (by decide), .close, device [0x43, 0] (by decide)]

theorem terminated_twoDevices (s : Desk) : Mealy.Along step Terminated s twoDevices := by
  have hname : (0 : Byte) ∈ [(0x41 : Byte), 0x42, 0] := by decide
  have hname' : (0 : Byte) ∈ [(0x43 : Byte), 0] := by decide
  exact ⟨fun _ _ _ => hname, trivial, fun _ _ _ => hname', trivial⟩

/-- Both devices answer all reads. -/
theorem identified_iff_two :
    Mealy.Along step Answered (new Attvalue.zeros Attvalue.length_zeros (.holding fun _ => .byte 0)) twoDevices ∧
      ∀ pre, pre <+: twoDevices →
        (Mealy.after step (new Attvalue.zeros Attvalue.length_zeros (.holding fun _ => .byte 0)) pre).Identified := by
  have hans : Mealy.Along step Answered (new Attvalue.zeros Attvalue.length_zeros (.holding fun _ => .byte 0))
      twoDevices := ⟨fun _ _ => rfl, trivial, fun _ _ => rfl, trivial⟩
  exact ⟨hans, (identified_iff Attvalue.length_zeros (.holding fun _ => .byte 0) twoDevices
    (terminated_twoDevices _)).mpr hans⟩

/-- The device list's object on devices that answer the first five reads only. -/
def firstOnly : Bank := { Bank.holding fun _ => .byte 0 with accepts := fun n => n < 5 }

/-- The second device has the name of the first. -/
theorem wrong_device : ¬ ∀ (link : Bank) (is : List DeskCall),
    Mealy.Along step Terminated (new Attvalue.zeros Attvalue.length_zeros link) is →
    ∀ pre, pre <+: is → (Mealy.after step (new Attvalue.zeros Attvalue.length_zeros link) pre).Identified := by
  intro hall
  have h := hall firstOnly twoDevices (terminated_twoDevices _) twoDevices (List.prefix_refl _) rfl .vendorName
  exact absurd h (by decide)

end Desk

end ToolbitSdk
