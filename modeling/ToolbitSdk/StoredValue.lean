/-
# What the getters show of a stored value

`setValue(byte*, uint8_t)`, which `readAttribute` calls for a reply, copies
its bytes and no more, and no getter looks at the length. After it the
getters show the value alone (`Storage.Shows`) exactly when the bytes that
earlier values left behind it are 0 where a getter reads them
(`Storage.Covers`, `Storage.shows_stored_iff`): a number up to 8 bytes, a
string up to its NUL, and a wide string up to its 0, which for a `wchar_t` of
4 bytes may be far behind the value. So a name that is read after a longer
one ends in the longer one's tail (`Storage.stale_tail_shows`).
`setValue(char*)` copies the NUL, too, and has no such condition on the
string (`Attvalue.cstr_setValueStr`).
-/
import ToolbitSdk.Peer
import ToolbitSdk.Storage

namespace ToolbitSdk

open Bytes Memory

namespace Attvalue

/-- The result of every getter but `getValueU8str` is the value `p`: its
length, its bytes up to the first NUL, and the number its bytes spell,
extended with 0 or cut to the width of the getter. -/
structure Shows (a : Attvalue) (p : List Byte) : Prop where
  length : a.getValueLength.toNat = p.length
  str : cstr a.getValueStr.1 = cstr p
  uint8 : a.getValueUint8 = leWord 8 p
  int8 : a.getValueInt8 = leWord 8 p
  uint16 : a.getValueUint16 = leWord 16 p
  int16 : a.getValueInt16 = leWord 16 p
  uint32 : a.getValueUint32 = leWord 32 p
  int32 : a.getValueInt32 = leWord 32 p
  uint64 : a.getValueUint64 = leWord 64 p
  int64 : a.getValueInt64 = leWord 64 p
  float : a.getValueFloat = leWord 32 p
  double : a.getValueDouble = leWord 64 p

/-- A value stored over `a` covers what `a` holds, as far as these read: a
number up to 8 bytes, a string up to its NUL. -/
def Covers (a : Attvalue) (p : List Byte) : Prop :=
  (∀ i, p.length ≤ i → i < 8 → byteAt a.dat i = 0) ∧
    ((0 : Byte) ∈ p ∨ p.length = VALUE_LEN ∨ byteAt a.dat p.length = 0)

/-- The string of a value stored over `a`. -/
theorem cstr_store_iff (a : Attvalue) {p : List Byte} (len : Byte) (h hl) (hp : p.length ≤ VALUE_LEN) :
    cstr (a.store p len h hl).getValueStr.1 = cstr p ↔
      (0 : Byte) ∈ p ∨ p.length = VALUE_LEN ∨ byteAt a.dat p.length = 0 := by
  have hs := a.size
  have hset : (overlay p a.dat).set VALUE_LEN 0 = overlay p (a.dat.set VALUE_LEN 0) := by
    rw [overlay, overlay, List.set_append_right _ _ hp, List.drop_set, if_neg (by omega)]
  show cstr ((overlay p a.dat).set VALUE_LEN 0) = cstr p ↔ _
  rw [hset, cstr_overlay_iff (by rw [List.length_set]; omega), byteAt]
  refine or_congr Iff.rfl ?_
  rw [List.getD_eq_getElem?_getD, List.getElem?_set, List.getD_eq_getElem?_getD]
  by_cases he : VALUE_LEN = p.length
  · have hlt : VALUE_LEN < a.dat.length := by omega
    rw [if_pos he, if_pos hlt]
    exact iff_of_true rfl (.inl he.symm)
  · rw [if_neg he, or_iff_right fun h => he h.symm]

theorem getNum_store_iff (a : Attvalue) {p : List Byte} (len : Byte) (h hl) (n : ℕ) :
    (a.store p len h hl).getNum n = leWord (8 * n) p ↔ ∀ i, p.length ≤ i → i < n → byteAt a.dat i = 0 :=
  leWord_overlay_iff n p a.dat

theorem shows_store_iff (a : Attvalue) {p : List Byte} {len : Byte} (h hl) (hp : p.length = len.toNat) :
    (a.store p len h hl).Shows p ↔ a.Covers p := by
  have hstr := a.cstr_store_iff len h hl (hp.trans_le hl)
  constructor
  · intro hs
    exact ⟨(a.getNum_store_iff len h hl 8).mp hs.uint64, hstr.mp hs.str⟩
  · rintro ⟨hz, hn⟩
    have num : ∀ n ≤ 8, (a.store p len h hl).getNum n = leWord (8 * n) p := fun n h8 =>
      (a.getNum_store_iff len h hl n).mpr fun i hi hlt => hz i hi (hlt.trans_le h8)
    have h1 := num 1 (by decide)
    have h2 := num 2 (by decide)
    have h4 := num 4 (by decide)
    have h8 := num 8 (by decide)
    exact ⟨hp.symm, hstr.mpr hn, h1, h1, h2, h2, h4, h4, h8, h8, h4, h8⟩

/-- `setValue(char*)` brings the NUL with the string, over anything. -/
theorem cstr_setValueStr (a : Attvalue) {mem : List Byte} (h : (a.setValueStr mem).1 = false) :
    cstr (a.setValueStr mem).2.getValueStr.1 = cstr mem := by
  by_cases hl : (cstr mem).length < VALUE_LEN
  · have hp : (cstr mem ++ [0]).length ≤ VALUE_LEN := by
      rw [List.length_append, List.length_singleton]
      omega
    have hs := a.cstr_store_iff (BitVec.ofNat 8 (cstr mem).length) (hp.trans (Nat.le_succ _))
      (by rw [toNat_length hl.le]; exact hl.le) hp
    rw [cstr_cstr_nul] at hs
    rw [setValueStr, dif_pos hl]
    exact hs.mpr (.inl (List.mem_append_right _ List.mem_cons_self))
  · rw [setValueStr, dif_neg hl] at h
    cases h

end Attvalue

/-! ### With the wide string -/

namespace Storage

/-- The elements of `u8str`. -/
def U8STR_LEN : ℕ := VALUE_LEN / 2 + 1

/-- Every getter's result is the value `p`. The wide string is that of the
value extended with 0. -/
structure Shows (wc : WChar) (m : ℕ → Byte) (p : List Byte) : Prop where
  plain : ∃ a, Holds wc m a ∧ a.Shows p
  u8str : ∃ mem, (step wc m .getValueU8str).1.2 = some (.mem mem) ∧
    wstr wc.size U8STR_LEN mem = wstr wc.size U8STR_LEN p

/-- A value stored over `m` covers what `m` holds, as far as a getter reads:
a number up to 8 bytes, a string up to its NUL, a wide string up to its 0. -/
structure Covers (wc : WChar) (m : ℕ → Byte) (p : List Byte) : Prop where
  num : ∀ i, p.length ≤ i → i < 8 → m i = 0
  str : (0 : Byte) ∈ p ∨ p.length = VALUE_LEN ∨ m p.length = 0
  u8str : ∀ i, p.length ≤ i → i < wc.size * ((wstr wc.size U8STR_LEN p).length + 1) → m i = 0

section

variable {wc : WChar} {m : ℕ → Byte} {p : List Byte} {len : Byte}

theorem size_pos (wc : WChar) : 0 < wc.size := by cases wc <;> decide

/-- A value leaves a unit of `u8str` free, of either size. -/
theorem add_size_le (wc : WChar) (h : p.length ≤ VALUE_LEN) :
    p.length + wc.size ≤ wc.size * U8STR_LEN := by
  have h32 : p.length ≤ 32 := h
  cases wc <;> simp only [WChar.size, U8STR_LEN, VALUE_LEN] <;> omega

theorem u8str_le_unionSize (wc : WChar) : wc.size * U8STR_LEN ≤ unionSize wc := by cases wc <;> decide

/-- The bytes of `str`, as an `Attvalue`. -/
def plainOf (m : ℕ → Byte) : Attvalue := ⟨window m 0 (VALUE_LEN + 1), 0, length_window _ _ _, Nat.zero_le VALUE_LEN⟩

theorem byteAt_window {i n : ℕ} (h : i < n) : byteAt (window m 0 n) i = m i := by
  rw [byteAt, List.getD_eq_getElem?_getD, getElem?_window, if_pos h, Nat.zero_add]
  rfl

theorem covers_plainOf_iff (h : p.length ≤ VALUE_LEN) : (plainOf m).Covers p ↔
    (∀ i, p.length ≤ i → i < 8 → m i = 0) ∧ ((0 : Byte) ∈ p ∨ p.length = VALUE_LEN ∨ m p.length = 0) := by
  have hb : ∀ i, i < VALUE_LEN + 1 → byteAt (plainOf m).dat i = m i := fun i hi => byteAt_window hi
  rw [Attvalue.Covers, hb _ (Nat.lt_succ_of_le h)]
  refine and_congr_left' (forall_congr' fun i => forall_congr' fun _ => forall_congr' fun h8 => ?_)
  rw [hb i (h8.trans (by decide))]

/-- `m` with a value stored over it. -/
def stored (wc : WChar) (m : ℕ → Byte) (p : List Byte) (len : Byte) : ℕ → Byte :=
  Effect.apply wc m ⟨false, span 0 p, some len⟩

/-- What `getValueU8str` points to is the value, and behind it what was there
before. -/
theorem u8str_stored (hp : p.length ≤ VALUE_LEN) :
    (step wc (stored wc m p len) .getValueU8str).1.2 =
    some (.mem (overlay p (window m 0 (wc.size * U8STR_LEN)))) := by
  have hu := u8str_le_unionSize wc
  have hle := add_size_le wc hp
  -- its own write is behind the array
  have hout : wc.size * U8STR_LEN ≤ wc.size * VALUE_LEN := Nat.mul_le_mul_left _ (by decide)
  have hw : window ((effect wc .getValueU8str).apply wc (stored wc m p len)) 0 (wc.size * U8STR_LEN) =
      window (stored wc m p len) 0 (wc.size * U8STR_LEN) := by
    rw [window_apply hu]
    exact window_poke_frame _ fun w hw => .inr (by have := (fst_span hw).1; omega)
  calc (step wc (stored wc m p len) .getValueU8str).1.2
      = some (.mem (window (stored wc m p len) 0 (wc.size * U8STR_LEN))) := congrArg (some ∘ Out.mem) hw
    _ = some (.mem (overlay p (window m 0 (wc.size * U8STR_LEN)))) := by
      rw [stored, window_apply hu, window_poke_span m 0 (by omega)]

theorem u8str_stored_iff (hp : p.length ≤ VALUE_LEN) :
    (∃ mem, (step wc (stored wc m p len) .getValueU8str).1.2 = some (.mem mem) ∧
      wstr wc.size U8STR_LEN mem = wstr wc.size U8STR_LEN p) ↔
    ∀ i, p.length ≤ i → i < wc.size * ((wstr wc.size U8STR_LEN p).length + 1) → m i = 0 := by
  have hroom := add_size_le wc hp
  have hlt := length_wstr_lt hroom (size_pos wc)
  rw [u8str_stored hp]
  simp only [Option.some.injEq, Out.mem.injEq, exists_eq_left']
  rw [wstr_overlay_iff hroom (size_pos wc)]
  refine forall_congr' fun i => forall_congr' fun _ => forall_congr' fun hi => ?_
  have hin : i < wc.size * U8STR_LEN := hi.trans_le (Nat.mul_le_mul_left _ hlt)
  exact (congrArg (· = 0) (byteAt_window hin)).to_iff

theorem plain_stored_iff (hp : p.length = len.toNat) (hl : len.toNat ≤ VALUE_LEN) :
    (∃ a, Holds wc (stored wc m p len) a ∧ a.Shows p) ↔ (plainOf m).Covers p := by
  have hb : p.length ≤ VALUE_LEN + 1 := by omega
  have hs : Holds wc (stored wc m p len) ((plainOf m).store p len hb hl) := holds_store rfl hb hl
  rw [← (plainOf m).shows_store_iff hb hl hp]
  constructor
  · rintro ⟨a, ha, hsh⟩
    have he : a = (plainOf m).store p len hb hl := by
      have hd := ha.dat.symm.trans hs.dat
      have hn := ha.datlen.symm.trans hs.datlen
      cases a
      cases hd
      cases hn
      rfl
    exact he ▸ hsh
  · exact fun hsh => ⟨_, hs, hsh⟩

theorem shows_stored (hp : p.length = len.toNat) (hl : len.toNat ≤ VALUE_LEN) :
    Shows wc (stored wc m p len) p ↔ Covers wc m p := by
  have hle := hp.trans_le hl
  have h1 : (∃ a, Holds wc (stored wc m p len) a ∧ a.Shows p) ↔
      (∀ i, p.length ≤ i → i < 8 → m i = 0) ∧ ((0 : Byte) ∈ p ∨ p.length = VALUE_LEN ∨ m p.length = 0) :=
    (plain_stored_iff hp hl).trans (covers_plainOf_iff hle)
  have h2 : (∃ mem, (step wc (stored wc m p len) .getValueU8str).1.2 = some (.mem mem) ∧
      wstr wc.size U8STR_LEN mem = wstr wc.size U8STR_LEN p) ↔
      ∀ i, p.length ≤ i → i < wc.size * ((wstr wc.size U8STR_LEN p).length + 1) → m i = 0 :=
    u8str_stored_iff hle
  constructor
  · intro hs
    obtain ⟨hnum, hstr⟩ := h1.mp hs.plain
    exact ⟨hnum, hstr, h2.mp hs.u8str⟩
  · intro hc
    exact ⟨h1.mpr ⟨hc.num, hc.str⟩, h2.mpr hc.u8str⟩

end

/-- After `setValue(byte*, uint8_t)` the getters show the value exactly when
it covers what was there. -/
theorem shows_stored_iff (wc : WChar) (m : ℕ → Byte) (mem : List Byte) (len : Byte) (hm : len.toNat ≤ mem.length)
    (h : (step wc m (.set (.bytes mem len))).1.1 = false) :
    Shows wc (step wc m (.set (.bytes mem len))).2 (mem.take len.toNat) ↔ Covers wc m (mem.take len.toNat) := by
  have hp : (mem.take len.toNat).length = len.toNat := List.length_take_of_le hm
  have he : (effect wc (.set (.bytes mem len))).err = false := h
  rw [effect, setEffect] at he
  by_cases hl : len.toNat ≤ VALUE_LEN
  · have hs : (step wc m (.set (.bytes mem len))).2 = stored wc m (mem.take len.toNat) len := by
      rw [step, effect, setEffect, if_pos hl]
      rfl
    rw [hs]
    exact shows_stored hp hl
  · rw [if_neg hl] at he
    cases he

/-- Over any bytes, a value with a 0 in its place for either string. -/
theorem shows_stored_iff_nul : Shows .four
    (step .four (fun _ => 0xFF) (.set (.bytes [0x58, 0x59, 0, 0, 0, 0, 0, 0] 8))).2 [0x58, 0x59, 0, 0, 0, 0, 0, 0] :=
  (shows_stored_iff .four (fun _ => 0xFF) [0x58, 0x59, 0, 0, 0, 0, 0, 0] 8 (by decide) rfl).mpr
    ⟨fun _ h8 hlt => absurd (h8.trans_lt hlt) (by decide), .inl (by decide),
      fun _ h8 hlt => absurd (h8.trans_lt hlt) (by decide)⟩

/-- An attribute that held the name "ABCDEF". -/
def named (wc : WChar) : ℕ → Byte :=
  (step wc (construct wc (fun _ => 0) 0 0 0) (.set (.bytes [0x41, 0x42, 0x43, 0x44, 0x45, 0x46] 6))).2

/-- The name "XY" that is stored next reads as "XYCDEF". -/
theorem stale_tail_shows : ¬ ∀ (wc : WChar) (m : ℕ → Byte) (mem : List Byte) (len : Byte),
    len.toNat ≤ mem.length →
    (step wc m (.set (.bytes mem len))).1.1 = false →
      Shows wc (step wc m (.set (.bytes mem len))).2 (mem.take len.toNat) := by
  intro h
  obtain ⟨a, ha, hs⟩ := (h .four (named .four) [0x58, 0x59] 2 (by decide) rfl).plain
  have hstr : cstr (a.dat.set VALUE_LEN 0) = cstr [0x58, 0x59] := hs.str
  rw [← ha.dat] at hstr
  exact absurd hstr (by decide)

/-- A read that succeeds stores the value of the reply, on the same
condition. -/
theorem shows_readReply_iff {p : TbiPacket} {att : Attribute} {v : List Byte} {wc : WChar} {m : ℕ → Byte}
    (h : replyBytes OP_ATT_VALUE_GET RC_OK v <+: p.dat) (hv : v.length ≤ VALUE_LEN)
    (hm : Holds wc m att.toAttvalue) : ∃ m', Holds wc m' (readReply p att).2.toAttvalue ∧
      m' = (step wc m (.set (.bytes v (BitVec.ofNat 8 v.length)))).2 ∧ (Shows wc m' v ↔ Covers wc m v) := by
  have hn := Attvalue.toNat_length hv
  have hfit : (BitVec.ofNat 8 v.length).toNat ≤ VALUE_LEN := hn.trans_le hv
  have hs := shows_stored_iff wc m v (BitVec.ofNat 8 v.length) hn.le (by
    rw [step, effect, setEffect, if_pos hfit])
  rw [hn, List.take_length] at hs
  refine ⟨_, ?_, rfl, hs⟩
  rw [readReply_of_ok h hv, Attribute.onValue_toAttvalue]
  exact (hm.set (.bytes v (BitVec.ofNat 8 v.length))).2

end Storage

end ToolbitSdk
