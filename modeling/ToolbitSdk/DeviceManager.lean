/-
# The device manager: names and serials

`tbi_device_manager.cpp` and `convertWcharToString`. The lookups go through
the list of `hid_enumerate` and compare not the wide strings of a device but
what a conversion to `char` makes of them, in a buffer of `VALUE_LEN` bytes
that it does not check. Here each write into the buffer is checked.

The conversion stays in the buffer exactly for strings shorter than it, and
each lookup exactly when the strings it converts are
(`TbiDeviceManager.conversion_in_bounds_iff`), so all of them exactly when
every string of the list is (`TbiDeviceManager.forall_inBounds_iff`). It keeps
the low byte of a character and ends at the first that is 0, so two devices of
different wide serials may be one to the lookups: a device is found by its
listed name and serial exactly when no other one converts to the same two
strings (`TbiDeviceManager.listed_law_iff`).
-/
import ToolbitSdk.Attribute
import ToolbitSdk.Lib.Bytes

namespace ToolbitSdk

open Bytes

/-- A NUL-terminated string of `wchar_t` of `w` bits, without its NUL. -/
structure WString (w : ℕ) where
  chars : List (BitVec w)
  no_nul : ∀ c ∈ chars, c ≠ 0

/-- What the lookups use of `hid_device_info`; a pointer may be NULL. -/
structure HidDeviceInfo (w : ℕ) where
  path : Option (List Byte)
  serial_number : Option (WString w)
  product_string : Option (WString w)

/-! ### The conversion -/

/-- The memory of `str` in `convertWcharToString`. -/
structure CharBuf where
  bytes : List Byte
  size : bytes.length = VALUE_LEN

section

variable {w : ℕ}

/-- `*dst = c`, inside the buffer. -/
def putChar (str : List Byte) (dst : ℕ) (c : Byte) : Option (List Byte) :=
  if dst < VALUE_LEN then some (str.set dst c) else none

/-- The loop, and the NUL after it. -/
def copyChars : List (BitVec w) → List Byte → ℕ → Option (List Byte)
  | [], str, dst => putChar str dst 0
  | c :: p, str, dst => (putChar str dst (c.setWidth 8)).bind fun str => copyChars p str (dst + 1)

def convertWcharToString (str : CharBuf) : Option (WString w) → Option (List Byte)
  | none => some []
  | some p => (copyChars p.chars str.bytes 0).map cstr

/-- The string has room in the buffer, with its NUL. -/
def Short : Option (WString w) → Prop
  | none => True
  | some p => p.chars.length < VALUE_LEN

instance : DecidablePred (Short (w := w)) := fun p => by cases p <;> unfold Short <;> infer_instance

/-- The low bytes, up to the first that is 0. -/
def narrow : Option (WString w) → List Byte
  | none => []
  | some p => cstr (p.chars.map (·.setWidth 8))

/-- The buffer after the loop: the low bytes and a NUL from `dst` on. -/
theorem copyChars_eq : ∀ (p : List (BitVec w)) (str : List Byte) (dst : ℕ), str.length = VALUE_LEN →
    copyChars p str dst = if dst + p.length < VALUE_LEN then
      some (str.take dst ++ p.map (·.setWidth 8) ++ 0 :: str.drop (dst + p.length + 1)) else none
  | [], str, dst, hs => by
    rw [copyChars, putChar, List.length_nil, Nat.add_zero]
    by_cases h : dst < VALUE_LEN
    · rw [if_pos h, if_pos h, List.set_eq_take_append_cons_drop, if_pos (by omega), List.map_nil, List.append_nil]
    · rw [if_neg h, if_neg h]
  | c :: p, str, dst, hs => by
    rw [copyChars, putChar, List.length_cons]
    by_cases h : dst < VALUE_LEN
    · have ih := copyChars_eq p (str.set dst (c.setWidth 8)) (dst + 1) (by rw [List.length_set, hs])
      have htake : (str.set dst (c.setWidth 8)).take (dst + 1) = str.take dst ++ [c.setWidth 8] := by
        rw [List.set_eq_take_append_cons_drop, if_pos (by omega), List.take_append,
          List.take_of_length_le (by rw [List.length_take]; omega), List.length_take, hs, Nat.min_eq_left h.le,
          Nat.add_sub_cancel_left]
        rfl
      have hdrop : (str.set dst (c.setWidth 8)).drop (dst + 1 + p.length + 1) = str.drop (dst + 1 + p.length + 1) :=
        List.drop_set_of_lt (by omega)
      rw [if_pos h, Option.bind_some, ih, htake, hdrop]
      simp only [Nat.add_assoc, Nat.add_comm 1, List.append_assoc, List.map_cons, List.cons_append, List.nil_append]
    · rw [if_neg h, if_neg (by omega)]
      rfl

/-- The conversion has a result exactly for the strings that are short, the
same one on any memory. -/
theorem convertWcharToString_eq (str : CharBuf) (p : Option (WString w)) :
    convertWcharToString str p = if Short p then some (narrow p) else none := by
  rcases p with _ | p
  · rfl
  · have hcopy := copyChars_eq p.chars str.bytes 0 str.size
    have hshort : Short (some p) ↔ p.chars.length < VALUE_LEN := Iff.rfl
    rw [convertWcharToString, hcopy, Nat.zero_add]
    by_cases h : p.chars.length < VALUE_LEN
    · rw [if_pos h, if_pos (hshort.mpr h), Option.map_some, narrow, List.take_zero, List.nil_append]
      by_cases h0 : (0 : Byte) ∈ p.chars.map (·.setWidth 8)
      · rw [cstr_append_of_mem _ h0]
      · rw [cstr_append_of_not_mem _ h0, cstr_cons, if_pos rfl, List.append_nil, cstr_eq_self h0]
    · rw [if_neg h, if_neg fun hs => h (hshort.mp hs)]
      rfl

theorem convertWcharToString_isSome (str : CharBuf) (p : Option (WString w)) :
    (convertWcharToString str p).isSome = true ↔ Short p := by
  rw [convertWcharToString_eq]
  by_cases h : Short p <;> simp [h]

theorem convertWcharToString_of_short (str : CharBuf) {p : Option (WString w)} (h : Short p) :
    convertWcharToString str p = some (narrow p) := by
  rw [convertWcharToString_eq, if_pos h]

end

/-! ### The lookups -/

namespace TbiDeviceManager

variable {w : ℕ} (str : CharBuf)

def getDeviceNum (devs : List (HidDeviceInfo w)) (name : List Byte) : Option ℕ :=
  devs.foldlM (fun num d => do
    let product ← convertWcharToString str d.product_string
    some (if name = product then num + 1 else num)) 0

def getDeviceList (devs : List (HidDeviceInfo w)) : Option (List (List Byte)) :=
  devs.foldlM (fun list d => do
    let product ← convertWcharToString str d.product_string
    some (list ++ [product])) []

def getSerialList (devs : List (HidDeviceInfo w)) (name : List Byte) : Option (List (List Byte)) :=
  devs.foldlM (fun list d => do
    let product ← convertWcharToString str d.product_string
    if name = product then do
      let serial ← convertWcharToString str d.serial_number
      some (list ++ [serial])
    else some list) []

/-- `while (cur_dev && !path)`, with the test of the loop. -/
def findPath (test : HidDeviceInfo w → Option Bool) :
    List (HidDeviceInfo w) → Option (List Byte) → Option (Option (List Byte))
  | [], path => some path
  | _ :: _, some path => some (some path)
  | d :: devs, none => do
    let hit ← test d
    findPath test devs (if hit then d.path else none)

def getPathByName (devs : List (HidDeviceInfo w)) (name : List Byte) :
    Option (Option (List Byte)) :=
  findPath (fun d => do
    let product ← convertWcharToString str d.product_string
    some (name = product)) devs none

def getPathByNameAndSerial (devs : List (HidDeviceInfo w)) (name serial : List Byte) :
    Option (Option (List Byte)) :=
  findPath (fun d => do
    let product ← convertWcharToString str d.product_string
    if name = product then do
      let number ← convertWcharToString str d.serial_number
      some (serial = number)
    else some false) devs none

/-- The methods that convert strings. -/
inductive Lookup
  | getDeviceNum (name : List Byte)
  | getDeviceList
  | getSerialList (name : List Byte)
  | getPathByName (name : List Byte)
  | getPathByNameAndSerial (name serial : List Byte)

/-- No write of the lookup is outside the buffer. -/
def Lookup.InBounds (devs : List (HidDeviceInfo w)) : Lookup → Prop
  | .getDeviceNum name => (TbiDeviceManager.getDeviceNum str devs name).isSome = true
  | .getDeviceList => (TbiDeviceManager.getDeviceList str devs).isSome = true
  | .getSerialList name => (TbiDeviceManager.getSerialList str devs name).isSome = true
  | .getPathByName name => (TbiDeviceManager.getPathByName str devs name).isSome = true
  | .getPathByNameAndSerial name serial => (TbiDeviceManager.getPathByNameAndSerial str devs name serial).isSome = true

/-- The device has the name. -/
def Named (name : List Byte) (d : HidDeviceInfo w) : Prop := name = narrow d.product_string

/-- And the serial, too. -/
def Numbered (name serial : List Byte) (d : HidDeviceInfo w) : Prop :=
  Named name d ∧ serial = narrow d.serial_number

instance (name : List Byte) : DecidablePred (Named (w := w) name) := fun d =>
  inferInstanceAs (Decidable (name = narrow d.product_string))

instance (name serial : List Byte) : DecidablePred (Numbered (w := w) name serial) := fun d =>
  inferInstanceAs (Decidable (Named name d ∧ serial = narrow d.serial_number))

/-- A search for `hit` comes to `d`: no device before it is a hit with a
path. -/
def ComesTo (hit : HidDeviceInfo w → Prop) (devs : List (HidDeviceInfo w)) (d : HidDeviceInfo w) :
    Prop :=
  ∃ pre post, devs = pre ++ d :: post ∧ ∀ x ∈ pre, hit x → x.path = none

/-- Every string that the lookup converts is short: the product of each
device it comes to, and the serial if it compares that. -/
def Lookup.Fits (devs : List (HidDeviceInfo w)) : Lookup → Prop
  | .getDeviceNum _ | .getDeviceList => ∀ d ∈ devs, Short d.product_string
  | .getSerialList name => ∀ d ∈ devs, Short d.product_string ∧ (Named name d → Short d.serial_number)
  | .getPathByName name => ∀ d, ComesTo (Named name) devs d → Short d.product_string
  | .getPathByNameAndSerial name serial => ∀ d, ComesTo (Numbered name serial) devs d →
      Short d.product_string ∧ (Named name d → Short d.serial_number)

/-- A loop over the whole list has a result exactly when each of its steps
has. -/
theorem foldlM_isSome_iff {β γ : Type} {f : β → γ → Option β} {P : γ → Prop}
    (h : ∀ b c, (f b c).isSome = true ↔ P c) :
    ∀ (cs : List γ) (b : β), (cs.foldlM f b).isSome = true ↔ ∀ c ∈ cs, P c
  | [], b => by simp
  | c :: cs, b => by
    rw [List.foldlM_cons, List.forall_mem_cons, ← h b c, Option.bind_eq_bind]
    rcases hf : f b c with _ | b'
    · simp
    · simp [foldlM_isSome_iff h cs b']

theorem foldlM_eq_some {β γ : Type} {f : β → γ → Option β} {g : β → γ → β} {cs : List γ}
    (h : ∀ b, ∀ c ∈ cs, f b c = some (g b c)) (b : β) : cs.foldlM f b = some (cs.foldl g b) := by
  induction cs generalizing b with
  | nil => rfl
  | cons c cs ih =>
    rw [List.foldlM_cons, h b c List.mem_cons_self]
    exact ih (fun b' c' hc => h b' c' (List.mem_cons_of_mem c hc)) (g b c)

theorem comesTo_cons {hit : HidDeviceInfo w → Prop} {devs : List (HidDeviceInfo w)} {x d : HidDeviceInfo w} :
    ComesTo hit (x :: devs) d ↔ x = d ∨ (hit x → x.path = none) ∧ ComesTo hit devs d := by
  constructor
  · rintro ⟨_ | ⟨y, pre⟩, post, he, hp⟩
    · rw [List.nil_append, List.cons.injEq] at he
      exact .inl he.1
    · rw [List.cons_append, List.cons.injEq] at he
      obtain ⟨rfl, rfl⟩ := he
      exact .inr ⟨hp x List.mem_cons_self, pre, post, rfl, fun z hz => hp z (List.mem_cons_of_mem x hz)⟩
  · rintro (rfl | ⟨hx, pre, post, rfl, hp⟩)
    · exact ⟨[], devs, rfl, fun _ h => nomatch h⟩
    · refine ⟨x :: pre, post, rfl, fun z hz => ?_⟩
      rcases List.mem_cons.mp hz with rfl | hz
      · exact hx
      · exact hp z hz

/-- A search has a result exactly when its test has at every device it comes
to. -/
theorem findPath_isSome_iff {test : HidDeviceInfo w → Option Bool} {hit ok : HidDeviceInfo w → Prop}
    [DecidablePred hit] (h : ∀ d, (test d).isSome = true ↔ ok d)
    (hv : ∀ d, ok d → test d = some (decide (hit d))) :
    ∀ devs : List (HidDeviceInfo w), (findPath test devs none).isSome = true ↔ ∀ d, ComesTo hit devs d → ok d
  | [] => by
    refine iff_of_true rfl ?_
    rintro d ⟨pre, post, he, -⟩
    cases pre <;> cases he
  | x :: devs => by
    simp only [comesTo_cons, or_imp, forall_and, forall_eq', findPath, Option.bind_eq_bind]
    by_cases hx : ok x
    · rw [hv x hx, Option.bind_some, and_iff_right hx]
      by_cases hh : hit x
      · rw [decide_eq_true hh, if_pos rfl]
        rcases hp : x.path with _ | path
        · rw [findPath_isSome_iff h hv devs]
          simp only [implies_true, true_and]
        · refine iff_of_true ?_ fun d hd => ?_
          · cases devs <;> rfl
          · have hno := hd.1 hh
            cases hno
      · rw [decide_eq_false hh, if_neg Bool.false_ne_true, findPath_isSome_iff h hv devs]
        simp only [hh, false_imp_iff, true_and]
    · have ht : test x = none := by
        rw [← Option.not_isSome_iff_eq_none, h x]
        exact hx
      rw [ht]
      exact iff_of_false Bool.false_ne_true fun hc => hx hc.1

/-! ### Inside the buffer -/

/-- The product, and the serial where the name is the one asked for. -/
def Converts (name : List Byte) (d : HidDeviceInfo w) : Prop :=
  Short d.product_string ∧ (Named name d → Short d.serial_number)

section

variable {d : HidDeviceInfo w} (name serial : List Byte)

/-- A step that converts the product and goes on with it. -/
theorem bind_product_isSome {β : Type} (f : List Byte → Option β) (hf : ∀ p, (f p).isSome = true) :
    ((convertWcharToString str d.product_string).bind f).isSome = true ↔ Short d.product_string := by
  by_cases h : Short d.product_string
  · rw [convertWcharToString_of_short str h, Option.bind_some]
    exact iff_of_true (hf _) h
  · rw [convertWcharToString_eq, if_neg h]
    exact iff_of_false Bool.false_ne_true h

/-- A step that goes on to the serial where the name is the one asked for. -/
theorem bind_serial_isSome {β : Type} (f : List Byte → Option β) (o : Option β) (hf : ∀ p, (f p).isSome = true)
    (ho : o.isSome = true) : ((convertWcharToString str d.product_string).bind fun product =>
      if name = product then (convertWcharToString str d.serial_number).bind f else o).isSome = true ↔
      Converts name d := by
  by_cases h : Short d.product_string
  · rw [convertWcharToString_of_short str h, Option.bind_some, Converts, and_iff_right h]
    by_cases hn : name = narrow d.product_string
    · have hn' : Named name d := hn
      rw [if_pos hn, forall_prop_of_true hn']
      by_cases hs : Short d.serial_number
      · rw [convertWcharToString_of_short str hs, Option.bind_some]
        exact iff_of_true (hf _) hs
      · rw [convertWcharToString_eq, if_neg hs]
        exact iff_of_false Bool.false_ne_true hs
    · rw [if_neg hn]
      exact iff_of_true ho fun hn' => absurd hn' hn
  · rw [convertWcharToString_eq, if_neg h]
    exact iff_of_false Bool.false_ne_true fun hc => h hc.1

end

theorem Lookup.inBounds_iff (devs : List (HidDeviceInfo w)) (l : Lookup) :
    l.InBounds str devs ↔ l.Fits devs := by
  rcases l with name | _ | name | name | ⟨name, serial⟩
  · exact foldlM_isSome_iff (fun _ d => bind_product_isSome str (d := d) _ fun _ => rfl) devs 0
  · exact foldlM_isSome_iff (fun _ d => bind_product_isSome str (d := d) _ fun _ => rfl) devs []
  · exact foldlM_isSome_iff (fun _ d => bind_serial_isSome str (d := d) name _ _ (fun _ => rfl) rfl) devs []
  · refine findPath_isSome_iff (fun d => bind_product_isSome str (d := d) _ fun _ => rfl) (fun d hd => ?_) devs
    rw [convertWcharToString_of_short str hd]
    rfl
  · refine findPath_isSome_iff (fun d => bind_serial_isSome str (d := d) name _ _ (fun _ => rfl) rfl) (fun d hd => ?_)
      devs
    rw [convertWcharToString_of_short str hd.1, Option.bind_some]
    by_cases hn : name = narrow d.product_string
    · rw [if_pos hn, convertWcharToString_of_short str (hd.2 hn)]
      simp [Numbered, Named, hn]
    · rw [if_neg hn]
      simp [Numbered, Named, hn]

/-- **Inside the buffer.** The conversion writes inside its buffer exactly
for the strings shorter than the buffer, and a lookup does exactly when every
string it converts is. -/
theorem conversion_in_bounds_iff :
    (∀ p : Option (WString w), (convertWcharToString str p).isSome = true ↔ Short p) ∧
      ∀ (devs : List (HidDeviceInfo w)) (l : Lookup), l.InBounds str devs ↔ l.Fits devs :=
  ⟨convertWcharToString_isSome str, Lookup.inBounds_iff str⟩

/-- A product string of 32 characters, and any buffer. -/
def longName : WString 16 where
  chars := List.replicate 32 0x41
  no_nul c hc := by
    rw [List.eq_of_mem_replicate hc]
    decide

def zeroBuf : CharBuf := ⟨List.replicate VALUE_LEN 0, List.length_replicate⟩

theorem conversion_overruns : ¬ ∀ str : CharBuf,
    (∀ p : Option (WString 16), (convertWcharToString str p).isSome = true) ∧
      ∀ (devs : List (HidDeviceInfo 16)) (l : Lookup), l.InBounds str devs := by
  intro h
  have hp := (h zeroBuf).1 (some longName)
  rw [convertWcharToString_isSome] at hp
  have hlt : (List.replicate 32 (0x41 : BitVec 16)).length < VALUE_LEN := hp
  rw [List.length_replicate] at hlt
  exact absurd hlt (by decide)

/-- All lookups stay inside exactly when all strings in the list are short. -/
theorem forall_inBounds_iff (devs : List (HidDeviceInfo w)) : (∀ l : Lookup, l.InBounds str devs) ↔
    ∀ d ∈ devs, Short d.product_string ∧ Short d.serial_number := by
  simp only [Lookup.inBounds_iff]
  constructor
  · intro h d hd
    have hs := h (.getSerialList (narrow d.product_string)) d hd
    exact ⟨hs.1, hs.2 rfl⟩
  · rintro h (name | _ | name | name | ⟨name, serial⟩)
    · exact fun d hd => (h d hd).1
    · exact fun d hd => (h d hd).1
    · exact fun d hd => ⟨(h d hd).1, fun _ => (h d hd).2⟩
    · rintro d ⟨pre, post, rfl, -⟩
      exact (h d (List.mem_append_right pre List.mem_cons_self)).1
    · rintro d ⟨pre, post, rfl, -⟩
      have hd := h d (List.mem_append_right pre List.mem_cons_self)
      exact ⟨hd.1, fun _ => hd.2⟩

/-! ### Found by name and serial -/

/-- Strings that are there and short, and a path. -/
structure Complete (d : HidDeviceInfo w) : Prop where
  product : ∃ p, d.product_string = some p ∧ Short (some p)
  serial : ∃ p, d.serial_number = some p ∧ Short (some p)
  path : d.path.isSome = true

/-- The lookups take the two devices for one. -/
def Alike (a b : HidDeviceInfo w) : Prop :=
  narrow a.product_string = narrow b.product_string ∧ narrow a.serial_number = narrow b.serial_number

/-- Each device in the lists of names and serials has its path returned for
its name and its serial in the lists. -/
def ListedLaw (devs : List (HidDeviceInfo w)) : Prop :=
  ∃ names, getDeviceList str devs = some names ∧ ∀ name ∈ names,
    ∃ serials, getSerialList str devs name = some serials ∧ ∀ k (hk : k < serials.length),
      ∃ d, (devs.filter fun d => Named name d)[k]? = some d ∧
        getPathByNameAndSerial str devs name (serials.get ⟨k, hk⟩) = some d.path

section

variable {devs : List (HidDeviceInfo w)}

theorem Complete.short_product {d : HidDeviceInfo w} (h : Complete d) : Short d.product_string := by
  obtain ⟨p, hp, hs⟩ := h.product
  rw [hp]
  exact hs

theorem Complete.short_serial {d : HidDeviceInfo w} (h : Complete d) : Short d.serial_number := by
  obtain ⟨p, hp, hs⟩ := h.serial
  rw [hp]
  exact hs

theorem foldl_append_map {β γ : Type} (f : γ → β) (cs : List γ) (l : List β) :
    cs.foldl (fun l c => l ++ [f c]) l = l ++ cs.map f := by
  induction cs generalizing l with
  | nil => exact (List.append_nil l).symm
  | cons c cs ih => rw [List.foldl_cons, ih, List.map_cons, List.append_assoc, List.singleton_append]

theorem foldl_append_filter {β γ : Type} (p : γ → Bool) (f : γ → β) (cs : List γ) (l : List β) :
    cs.foldl (fun l c => if p c then l ++ [f c] else l) l = l ++ (cs.filter p).map f := by
  induction cs generalizing l with
  | nil => exact (List.append_nil l).symm
  | cons c cs ih =>
    rw [List.foldl_cons, ih, List.filter_cons]
    by_cases hc : p c = true
    · rw [if_pos hc, if_pos hc, List.map_cons, List.append_assoc, List.singleton_append]
    · rw [if_neg hc, if_neg hc]

theorem getDeviceList_eq (h : ∀ d ∈ devs, Complete d) :
    getDeviceList str devs = some (devs.map fun d => narrow d.product_string) := by
  have hstep : ∀ (l : List (List Byte)), ∀ d ∈ devs, (do
      let product ← convertWcharToString str d.product_string
      some (l ++ [product])) = some (l ++ [narrow d.product_string]) := by
    intro l d hd
    rw [convertWcharToString_of_short str (h d hd).short_product]
    rfl
  rw [getDeviceList, foldlM_eq_some hstep, foldl_append_map, List.nil_append]

theorem getSerialList_eq (h : ∀ d ∈ devs, Complete d) (name : List Byte) :
    getSerialList str devs name =
    some ((devs.filter fun d => Named name d).map fun d => narrow d.serial_number) := by
  have hstep : ∀ (l : List (List Byte)), ∀ d ∈ devs, (do
      let product ← convertWcharToString str d.product_string
      if name = product then do
        let serial ← convertWcharToString str d.serial_number
        some (l ++ [serial])
      else some l) = some (if decide (Named name d) = true then l ++ [narrow d.serial_number] else l) := by
    intro l d hd
    rw [convertWcharToString_of_short str (h d hd).short_product,
      convertWcharToString_of_short str (h d hd).short_serial]
    by_cases hn : name = narrow d.product_string <;> simp [Named, hn]
  rw [getSerialList, foldlM_eq_some hstep, foldl_append_filter, List.nil_append]

/-- A search with a test that has a result gives the path of the first
device that passes it and has one. -/
theorem findPath_eq {test : HidDeviceInfo w → Option Bool} {hit : HidDeviceInfo w → Bool} :
    ∀ {devs : List (HidDeviceInfo w)}, (∀ d ∈ devs, test d = some (hit d)) →
      findPath test devs none = some (devs.findSome? fun d => if hit d then d.path else none)
  | [], _ => rfl
  | x :: devs, h => by
    rw [findPath, h x List.mem_cons_self, List.findSome?_cons, Option.bind_eq_bind, Option.bind_some]
    rcases hx : (if hit x = true then x.path else none) with _ | path
    · exact findPath_eq fun d hd => h d (List.mem_cons_of_mem x hd)
    · cases devs <;> rfl

theorem getPathByNameAndSerial_eq (h : ∀ d ∈ devs, Complete d) (name serial : List Byte) :
    getPathByNameAndSerial str devs name serial =
      some (devs.findSome? fun d => if Numbered name serial d then d.path else none) := by
  have htest : ∀ d ∈ devs, (do
      let product ← convertWcharToString str d.product_string
      if name = product then do
        let number ← convertWcharToString str d.serial_number
        some (decide (serial = number))
      else some false) = some (decide (Numbered name serial d)) := by
    intro d hd
    rw [convertWcharToString_of_short str (h d hd).short_product,
      convertWcharToString_of_short str (h d hd).short_serial]
    by_cases hn : name = narrow d.product_string <;> simp [Numbered, Named, hn]
  rw [getPathByNameAndSerial, findPath_eq htest]
  simp only [decide_eq_true_eq]

/-- The `k`-th device of a name, by its place in the list of serials. -/
theorem serial_get {name : List Byte} {k : ℕ}
    (hk : k < ((devs.filter fun d => Named name d).map fun d => narrow d.serial_number).length) :
    ∃ d, (devs.filter fun d => Named name d)[k]? = some d ∧ d ∈ devs ∧ Named name d ∧
      ((devs.filter fun d => Named name d).map fun d => narrow d.serial_number).get ⟨k, hk⟩ =
        narrow d.serial_number := by
  have hk' : k < (devs.filter fun d => Named name d).length := by rwa [List.length_map] at hk
  have hmem := List.mem_filter.mp (List.getElem_mem hk')
  refine ⟨_, List.getElem?_eq_getElem hk', hmem.1, of_decide_eq_true hmem.2, ?_⟩
  rw [List.get_eq_getElem, List.getElem_map]

/-- A device that is a hit has the path that is found, if all hits have the
same one. -/
theorem findSome_path {hit : HidDeviceInfo w → Prop} [DecidablePred hit] {d : HidDeviceInfo w} (hd : d ∈ devs)
    (hhit : hit d) (hall : ∀ a ∈ devs, hit a → a.path = d.path) :
    (devs.findSome? fun d => if hit d then d.path else none) = d.path := by
  rcases hf : devs.findSome? fun d => if hit d then d.path else none with _ | p'
  · have hno := List.findSome?_eq_none_iff.mp hf d hd
    rw [if_pos hhit] at hno
    exact hno.symm
  · obtain ⟨a, ha, hap⟩ := List.exists_of_findSome?_eq_some hf
    by_cases hh : hit a
    · rw [if_pos hh] at hap
      rw [← hap, hall a ha hh]
    · rw [if_neg hh] at hap
      cases hap

/-- Then every device is found by its own strings. -/
theorem ListedLaw.found (hl : ListedLaw str devs) (h : ∀ d ∈ devs, Complete d) {d : HidDeviceInfo w}
    (hd : d ∈ devs) :
    getPathByNameAndSerial str devs (narrow d.product_string) (narrow d.serial_number) = some d.path := by
  obtain ⟨names, hnames, hl⟩ := hl
  rw [getDeviceList_eq str h, Option.some_inj] at hnames
  obtain ⟨serials, hserials, hk⟩ := hl (narrow d.product_string) (hnames ▸ List.mem_map_of_mem hd)
  rw [getSerialList_eq str h, Option.some_inj] at hserials
  subst hserials
  obtain ⟨k, hkd⟩ := List.mem_iff_getElem?.mp (List.mem_filter.mpr ⟨hd, decide_eq_true rfl⟩ :
    d ∈ devs.filter fun x => Named (narrow d.product_string) x)
  obtain ⟨hlt, hget⟩ := List.getElem?_eq_some_iff.mp hkd
  obtain ⟨d', hd', hpath⟩ := hk k (by rwa [List.length_map])
  rw [List.get_eq_getElem, List.getElem_map, hget] at hpath
  rw [hkd, Option.some_inj] at hd'
  rw [hpath, hd']

theorem ListedLaw.path_eq (hl : ListedLaw str devs) (h : ∀ d ∈ devs, Complete d) {a b : HidDeviceInfo w}
    (ha : a ∈ devs) (hb : b ∈ devs) (hab : Alike a b) : a.path = b.path := by
  have hfa := hl.found str h ha
  rw [hab.1, hab.2, hl.found str h hb, Option.some_inj] at hfa
  exact hfa.symm

/-- **Found by its listed name and serial.** Every device is, exactly when
the devices that convert to the same name and serial have the same path. -/
theorem listed_law_iff (h : ∀ d ∈ devs, Complete d) :
    ListedLaw str devs ↔ ∀ a ∈ devs, ∀ b ∈ devs, Alike a b → a.path = b.path := by
  constructor
  · exact fun hl a ha b hb => hl.path_eq str h ha hb
  · intro hall
    refine ⟨_, getDeviceList_eq str h, fun name _ => ⟨_, getSerialList_eq str h name, fun k hk => ?_⟩⟩
    obtain ⟨d, hd, hmem, hn, hserial⟩ := serial_get hk
    refine ⟨d, hd, ?_⟩
    rw [hserial, getPathByNameAndSerial_eq str h, findSome_path hmem ⟨hn, rfl⟩]
    rintro a ha ⟨han, has⟩
    exact hall a ha d hmem ⟨han.symm.trans hn, has.symm⟩

end

/-- A string of one character. -/
def oneChar (c : BitVec 16) (h : c ≠ 0) : WString 16 := ⟨[c], fun _ hd => List.mem_singleton.mp hd ▸ h⟩

theorem short_oneChar (c : BitVec 16) (h : c ≠ 0) : Short (some (oneChar c h)) :=
  (by decide : 1 < VALUE_LEN)

/-- A device `D` of the given serial and path. -/
def device (serial : BitVec 16) (h : serial ≠ 0) (path : List Byte) : HidDeviceInfo 16 :=
  ⟨some path, some (oneChar serial h), some (oneChar 0x44 (by decide))⟩

theorem complete_device (serial : BitVec 16) (h : serial ≠ 0) (path : List Byte) :
    Complete (device serial h path) :=
  ⟨⟨_, rfl, short_oneChar _ _⟩, ⟨_, rfl, short_oneChar _ _⟩, rfl⟩

/-- Two devices, the first with the serial `A`. -/
def twoDevices (serial : BitVec 16) (h : serial ≠ 0) : List (HidDeviceInfo 16) :=
  [device 0x0041 (by decide) [1], device serial h [2]]

theorem complete_twoDevices (serial : BitVec 16) (h : serial ≠ 0) :
    ∀ d ∈ twoDevices serial h, Complete d := by
  intro d hd
  rcases List.mem_pair.mp hd with rfl | rfl
  · exact complete_device _ _ _
  · exact complete_device _ _ _

theorem listed_law_iff_two : ListedLaw zeroBuf (twoDevices 0x0042 (by decide)) ↔
    ∀ a ∈ twoDevices 0x0042 (by decide), ∀ b ∈ twoDevices 0x0042 (by decide), Alike a b → a.path = b.path :=
  listed_law_iff zeroBuf (complete_twoDevices _ _)

/-- The serial of the second device is `A` in its low byte: it is not
found. -/
theorem listed_law_alike : ¬ ∀ (str : CharBuf) (devs : List (HidDeviceInfo 16)), (∀ d ∈ devs, Complete d) →
    devs.Pairwise (fun a b => ¬ (a.product_string = b.product_string ∧ a.serial_number = b.serial_number)) →
      ListedLaw str devs := by
  intro h
  have hne : ∀ p q, oneChar 0x0041 p ≠ oneChar 0x0141 q := by
    intro p q he
    have hc : [(0x0041 : BitVec 16)] = [0x0141] := congrArg WString.chars he
    exact absurd hc (by decide)
  have hl := h zeroBuf (twoDevices 0x0141 (by decide)) (complete_twoDevices _ _)
    (List.pairwise_pair.mpr fun he => hne _ _ (Option.some_inj.mp he.2))
  have hp := hl.path_eq zeroBuf (complete_twoDevices _ _) (List.mem_cons_self)
    (List.mem_cons_of_mem _ List.mem_cons_self) ⟨rfl, by decide⟩
  exact absurd hp (by decide)

end TbiDeviceManager

end ToolbitSdk
