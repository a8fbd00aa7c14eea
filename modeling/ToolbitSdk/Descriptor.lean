/-
# The report descriptor

`get_hid_item_size`, `get_hid_report_bytes`, `hid_iterate_over_collection`
and `get_next_hid_usage` of `hidapi/linux/hid.c`, by which `hid_enumerate`
learns the usages of a device from the bytes the device sends. Each access to
the descriptor is checked, each loop has its turns counted, and sizes and
positions do not wrap: a descriptor has at most 4096 bytes.

What the bytes say is `items`: a text of brackets, the collections, and of
leaves, of which the calls look at two kinds. The calls read any bytes to
their end and inside their bounds, and report what stands outside the
collections (`usages_eq`), where the last one returns -1 exactly if a
collection has no end, so that what is accepted is forests, with end items
between them that end nothing (`usages_total`). The items of a descriptor
come back from its bytes (`items_encode`), and with them its pairs
(`usages_encode_iff`): a usage page inside a collection does not get out of
it, a usage outside is used up by the next collection, and the page is kept.
-/
import ToolbitSdk.Lib.Brackets
import ToolbitSdk.Lib.Bytes
import Mathlib.Tactic.Ring

namespace ToolbitSdk
namespace Descriptor

open Bytes Brackets

/-! ### The code -/

/-- What `get_hid_item_size` returns, and what it leaves in `data_len` and
`key_size`. -/
structure ItemSize where
  ret : Bool
  data_len : ℕ
  key_size : ℕ

def getHidItemSize (report_descriptor : List Byte) (pos : ℕ) : Option ItemSize := do
  let key ← report_descriptor[pos]?
  if key &&& 0xf0 = 0xf0 ∧ pos + 1 < report_descriptor.length then
    let data_len ← report_descriptor[pos + 1]?
    return ⟨true, data_len.toNat, 3⟩
  -- a long item without its length falls through
  match (key &&& 0x3).toNat with
  | 0 => return ⟨true, 0, 1⟩
  | 1 => return ⟨true, 1, 1⟩
  | 2 => return ⟨true, 2, 1⟩
  | 3 => return ⟨true, 4, 1⟩
  | _ => return ⟨false, 0, 0⟩

def getHidReportBytes (rpt : List Byte) (num_bytes cur : ℕ) : Option (BitVec 32) :=
  if rpt.length ≤ cur + num_bytes then some 0
  else match num_bytes with
  | 1 => do
    let b1 ← rpt[cur + 1]?
    return BitVec.ofNat 32 b1.toNat
  | 2 => do
    let b2 ← rpt[cur + 2]?
    let b1 ← rpt[cur + 1]?
    return BitVec.ofNat 32 (b2.toNat * 256 + b1.toNat)
  | 4 => do
    let b4 ← rpt[cur + 4]?
    let b3 ← rpt[cur + 3]?
    let b2 ← rpt[cur + 2]?
    let b1 ← rpt[cur + 1]?
    return BitVec.ofNat 32 (b4.toNat * 0x01000000 + b3.toNat * 0x00010000 + b2.toNat * 0x00000100 +
      b1.toNat * 0x00000001)
  | _ => some 0

/-- What `hid_iterate_over_collection` returns, and what it leaves in `pos`,
`data_len` and `key_size`. -/
structure Iterated where
  ret : Bool
  pos : ℕ
  data_len : ℕ
  key_size : ℕ

/-- The loop, for at most `fuel` turns. -/
def hidIterateOverCollection.loop (report_descriptor : List Byte) :
    ℕ → ℤ → ℕ → ℕ → ℕ → Option Iterated
  | 0, _, _, _, _ => none
  | fuel + 1, collection_level, pos, data_len, key_size =>
    if pos < report_descriptor.length then do
      let key ← report_descriptor[pos]?
      let size ← getHidItemSize report_descriptor pos
      if !size.ret then
        return ⟨false, pos, size.data_len, size.key_size⟩
      let collection_level :=
        if key &&& 0xfc = 0xa0 then collection_level + 1
        else if key &&& 0xfc = 0xc0 then collection_level - 1
        else collection_level
      if collection_level < 0 then
        return ⟨false, pos, size.data_len, size.key_size⟩
      if collection_level = 0 then
        return ⟨true, pos, size.data_len, size.key_size⟩
      loop report_descriptor fuel collection_level (pos + (size.data_len + size.key_size)) size.data_len
        size.key_size
    else some ⟨false, pos, data_len, key_size⟩

def hidIterateOverCollection (report_descriptor : List Byte) (pos data_len key_size : ℕ) :
    Option Iterated :=
  hidIterateOverCollection.loop report_descriptor (report_descriptor.length + 1) 0 pos data_len key_size

structure HidUsageIterator where
  pos : ℕ
  usage_page_found : Bool
  usage_page : BitVec 16

/-- What `get_next_hid_usage` returns, and what it leaves in `ctx`, in
`*usage_page` and in `*usage`. -/
structure NextUsage where
  ret : ℤ
  ctx : HidUsageIterator
  usage_page : BitVec 16
  usage : BitVec 16

/-- The loop, for at most `fuel` turns. -/
def getNextHidUsage.loop (report_descriptor : List Byte) (initial : Bool) (usage_page : BitVec 16) :
    ℕ → HidUsageIterator → Bool → BitVec 16 → Option NextUsage
  | 0, _, _, _ => none
  | fuel + 1, ctx, usage_found, usage =>
    if ctx.pos < report_descriptor.length then do
      let key ← report_descriptor[ctx.pos]?
      let size ← getHidItemSize report_descriptor ctx.pos
      if !size.ret then
        return ⟨-1, ctx, usage_page, usage⟩
      let pos := ctx.pos + (size.data_len + size.key_size)
      if key &&& 0xfc = 0x4 then
        let page ← getHidReportBytes report_descriptor size.data_len ctx.pos
        loop report_descriptor initial usage_page fuel ⟨pos, true, page.setWidth 16⟩ usage_found usage
      else if key &&& 0xfc = 0x8 then
        if size.data_len = 4 then
          let page ← getHidReportBytes report_descriptor 2 (ctx.pos + 2)
          let usage ← getHidReportBytes report_descriptor 2 ctx.pos
          loop report_descriptor initial usage_page fuel ⟨pos, true, page.setWidth 16⟩ true (usage.setWidth 16)
        else
          let usage ← getHidReportBytes report_descriptor size.data_len ctx.pos
          loop report_descriptor initial usage_page fuel { ctx with pos := pos } true (usage.setWidth 16)
      else if key &&& 0xfc = 0xa0 then
        let iter ← hidIterateOverCollection report_descriptor ctx.pos size.data_len size.key_size
        if !iter.ret then
          return ⟨-1, { ctx with pos := iter.pos }, usage_page, usage⟩
        if usage_found && ctx.usage_page_found then
          return ⟨0, { ctx with pos := iter.pos }, ctx.usage_page, usage⟩
        loop report_descriptor initial usage_page fuel
          { ctx with pos := iter.pos + (iter.data_len + iter.key_size) } usage_found usage
      else
        loop report_descriptor initial usage_page fuel { ctx with pos := pos } usage_found usage
    else if initial && usage_found && ctx.usage_page_found then
      some ⟨0, ctx, ctx.usage_page, usage⟩
    else some ⟨1, ctx, usage_page, usage⟩

def getNextHidUsage (report_descriptor : List Byte) (ctx : HidUsageIterator) (usage_page usage : BitVec 16) :
    Option NextUsage :=
  getNextHidUsage.loop report_descriptor (ctx.pos == 0) usage_page (report_descriptor.length + 1) ctx false
    usage

/-- A usage page and a usage. -/
abbrev UsagePair := BitVec 16 × BitVec 16

/-- "This function can be called repeatedly until it returns non-0": the pairs
that the calls leave, and what the last one returns. `hid_enumerate` calls
once more after a first call that was not 0; there is nothing left then
(`Enumerate.first_usage`). -/
def usages (report_descriptor : List Byte) :
    ℕ → HidUsageIterator → BitVec 16 → BitVec 16 → Option (List UsagePair × ℤ)
  | 0, _, _, _ => none
  | fuel + 1, ctx, usage_page, usage => do
    let next ← getNextHidUsage report_descriptor ctx usage_page usage
    if next.ret = 0 then
      let (pairs, ret) ← usages report_descriptor fuel next.ctx next.usage_page next.usage
      return ((next.usage_page, next.usage) :: pairs, ret)
    return ([], next.ret)

/-! ### What the bytes say -/

/-- What the loops tell apart in a leaf of the descriptor. -/
inductive Item where
  | usagePage (page : BitVec 16)
  | usage (page : Option (BitVec 16)) (usage : BitVec 16)
  | other
  deriving DecidableEq, Repr

/-- The data bytes of a short item. -/
def dataLen (key : Byte) : ℕ := if key &&& 0x3 = 0x3 then 4 else (key &&& 0x3).toNat

/-- The bytes of an item after its key, if `rest` is what follows it. -/
def skip (key : Byte) : List Byte → ℕ
  | n :: _ => if key &&& 0xf0 = 0xf0 then n.toNat + 2 else dataLen key
  | [] => dataLen key

/-- The low 16 bits of a number of `n` bytes, which is 0 if they are not all
there. -/
def word (n : ℕ) (rest : List Byte) : BitVec 16 := if rest.length < n then 0 else leWord 16 (rest.take n)

def token (key : Byte) (rest : List Byte) : Token Item :=
  if key &&& 0xfc = 0x4 then .leaf (.usagePage (word (dataLen key) rest))
  else if key &&& 0xfc = 0x8 then
    .leaf (if dataLen key = 4 then .usage (some (word 2 (rest.drop 2))) (word 2 rest)
      else .usage none (word (dataLen key) rest))
  else if key &&& 0xfc = 0xa0 then .opens
  else if key &&& 0xfc = 0xc0 then .closes
  else .leaf .other

def items : List Byte → List (Token Item)
  | [] => []
  | key :: rest => token key rest :: items (rest.drop (skip key rest))
termination_by d => d.length
decreasing_by simp

/-- What is known of the next pair. -/
structure Known where
  page : Option (BitVec 16)
  usage : Option (BitVec 16)

def Known.read (k : Known) : Item → Known
  | .usagePage page => { k with page := page }
  | .usage none usage => { k with usage := usage }
  | .usage (some page) usage => ⟨page, usage⟩
  | .other => k

def Known.pair (k : Known) : Option UsagePair := k.page.bind fun page => k.usage.map (page, ·)

/-- A pair for each collection for which one is known: the usage is used up,
the page stays. -/
def report : Known → List (Option Item) → List UsagePair × Known
  | k, [] => ([], k)
  | k, some i :: ts => report (k.read i) ts
  | k, none :: ts =>
    match k.pair with
    | some p => (p :: (report ⟨k.page, none⟩ ts).1, (report ⟨k.page, none⟩ ts).2)
    | none => report k ts

/-- The pairs of a descriptor that is read to its end: if no collection has
one, what is known there. -/
def reported (ts : List (Option Item)) : List UsagePair :=
  match report ⟨none, none⟩ ts with
  | ([], k) => k.pair.toList
  | (p :: ps, _) => p :: ps

/-! ### What the code reads -/

section

variable {d rest : List Byte} {pos : ℕ} {key : Byte}

theorem getElem?_of_drop (h : d.drop pos = key :: rest) : d[pos]? = some key := by
  have h0 : (d.drop pos)[0]? = d[pos + 0]? := List.getElem?_drop
  rw [h] at h0
  exact h0.symm

theorem drop_succ_of_drop (h : d.drop pos = key :: rest) : d.drop (pos + 1) = rest := by
  rw [← List.drop_drop, h, List.drop_one, List.tail_cons]

theorem lt_length_of_drop (h : d.drop pos = key :: rest) : pos < d.length := by
  have hl := congrArg List.length h
  simp only [List.length_drop, List.length_cons] at hl
  omega

/-- The commands that the loops look for are those of short items. -/
theorem and_ne_of_and_eq {c : Byte} (h : key &&& 0xfc = c) (hc : c &&& 0xf0 ≠ 0xf0) :
    key &&& 0xf0 ≠ 0xf0 := by
  have : key &&& 0xf0 = c &&& 0xf0 := by
    rw [← h, BitVec.and_assoc]
    rfl
  rwa [this]

/-- The size code of a short item, and the size. -/
theorem sizeCode_cases (key : Byte) :
    (key &&& 0x3).toNat = 0 ∧ dataLen key = 0 ∨ (key &&& 0x3).toNat = 1 ∧ dataLen key = 1 ∨
      (key &&& 0x3).toNat = 2 ∧ dataLen key = 2 ∨ (key &&& 0x3).toNat = 3 ∧ dataLen key = 4 := by
  have hle : (key &&& 0x3).toNat ≤ 3 := by
    rw [BitVec.toNat_and]
    exact Nat.and_le_right
  have heq : key &&& 0x3 = 0x3 ↔ (key &&& 0x3).toNat = 3 := BitVec.toNat_inj.symm
  unfold dataLen
  split
  · simp_all
  · have := mt heq.mpr ‹_›
    omega

theorem dataLen_cases (key : Byte) : dataLen key = 0 ∨ dataLen key = 1 ∨ dataLen key = 2 ∨ dataLen key = 4 := by
  have := sizeCode_cases key
  omega

/-- An item has its key at least, and its size is that of what it says. -/
theorem getHidItemSize_spec (h : d.drop pos = key :: rest) :
    ∃ data_len key_size, getHidItemSize d pos = some ⟨true, data_len, key_size⟩ ∧
      data_len + key_size = skip key rest + 1 ∧ (key &&& 0xf0 ≠ 0xf0 → data_len = dataLen key) := by
  have hrest : rest.length = d.length - (pos + 1) := by rw [← drop_succ_of_drop h, List.length_drop]
  have hpos := lt_length_of_drop h
  have hget : d[pos + 1]? = rest[0]? := by rw [← drop_succ_of_drop h, List.getElem?_drop, Nat.add_zero]
  unfold getHidItemSize
  rw [getElem?_of_drop h]
  simp only [Option.bind_eq_bind, Option.bind_some]
  by_cases hlong : key &&& 0xf0 = 0xf0 ∧ pos + 1 < d.length
  · obtain ⟨n, rest, rfl⟩ := List.exists_cons_of_length_pos (l := rest) (by omega)
    refine ⟨n.toNat, 3, ?_, ?_, fun hk => absurd hlong.1 hk⟩
    · rw [if_pos hlong, hget]
      rfl
    · rw [skip, if_pos hlong.1]
  · have hskip : skip key rest = dataLen key := by
      cases rest with
      | nil => rfl
      | cons n rest => rw [skip, if_neg fun hk => hlong ⟨hk, by rw [List.length_cons] at hrest; omega⟩]
    refine ⟨dataLen key, 1, ?_, by rw [hskip], fun _ => rfl⟩
    rw [if_neg hlong]
    obtain ⟨hc, hd⟩ | ⟨hc, hd⟩ | ⟨hc, hd⟩ | ⟨hc, hd⟩ := sizeCode_cases key <;> rw [hc, hd] <;> rfl

theorem items_of_drop (h : d.drop pos = key :: rest) :
    items (d.drop pos) = token key rest :: items (d.drop (pos + (skip key rest + 1))) := by
  rw [h, items, ← Nat.add_assoc, Nat.add_right_comm, ← List.drop_drop, drop_succ_of_drop h]

/-- The bytes are inside the descriptor, or not read. -/
theorem getHidReportBytes_spec (d : List Byte) {n : ℕ} (hn : n = 0 ∨ n = 1 ∨ n = 2 ∨ n = 4) (cur : ℕ) :
    ∃ v, getHidReportBytes d n cur = some v ∧ v.setWidth 16 = word n (d.drop (cur + 1)) := by
  have hlen : (d.drop (cur + 1)).length = d.length - (cur + 1) := List.length_drop
  have hget (i : ℕ) : d[cur + (i + 1)]? = (d.drop (cur + 1))[i]? := by
    rw [List.getElem?_drop, Nat.add_right_comm, Nat.add_assoc]
  have hlow {bs : List Byte} {v : ℕ} (h : v = leNat bs) : (BitVec.ofNat 32 v).setWidth 16 = leWord 16 bs := by
    rw [leWord, h]
    apply BitVec.eq_of_toNat_eq
    simp only [BitVec.toNat_setWidth, BitVec.toNat_ofNat]
    omega
  unfold getHidReportBytes word
  by_cases hle : d.length ≤ cur + n
  · refine ⟨0, if_pos hle, ?_⟩
    by_cases h0 : n = 0
    · subst h0
      rw [if_neg (Nat.not_lt_zero _)]
      rfl
    · rw [if_pos (by omega)]
      rfl
  · rw [if_neg hle, if_neg (by omega)]
    generalize d.drop (cur + 1) = rest at hlen hget
    rcases hn with rfl | rfl | rfl | rfl
    · exact ⟨0, rfl, rfl⟩
    · obtain ⟨b1, rest, rfl⟩ := List.exists_cons_of_length_pos (l := rest) (by omega)
      have h1 : d[cur + 1]? = some b1 := hget 0
      refine ⟨BitVec.ofNat 32 b1.toNat, by rw [h1]; rfl, hlow (by simp)⟩
    · obtain ⟨b1, rest, rfl⟩ := List.exists_cons_of_length_pos (l := rest) (by omega)
      rw [List.length_cons] at hlen
      obtain ⟨b2, rest, rfl⟩ := List.exists_cons_of_length_pos (l := rest) (by omega)
      have h1 : d[cur + 1]? = some b1 := hget 0
      have h2 : d[cur + 2]? = some b2 := hget 1
      exact ⟨_, by rw [h1, h2]; rfl, hlow (by simp; ring)⟩
    · obtain ⟨b1, rest, rfl⟩ := List.exists_cons_of_length_pos (l := rest) (by omega)
      rw [List.length_cons] at hlen
      obtain ⟨b2, rest, rfl⟩ := List.exists_cons_of_length_pos (l := rest) (by omega)
      rw [List.length_cons] at hlen
      obtain ⟨b3, rest, rfl⟩ := List.exists_cons_of_length_pos (l := rest) (by omega)
      rw [List.length_cons] at hlen
      obtain ⟨b4, rest, rfl⟩ := List.exists_cons_of_length_pos (l := rest) (by omega)
      have h1 : d[cur + 1]? = some b1 := hget 0
      have h2 : d[cur + 2]? = some b2 := hget 1
      have h3 : d[cur + 3]? = some b3 := hget 2
      have h4 : d[cur + 4]? = some b4 := hget 3
      exact ⟨_, by rw [h1, h2, h3, h4]; rfl, hlow (by simp; ring)⟩

theorem exists_drop (h : pos < d.length) : ∃ key rest, d.drop pos = key :: rest :=
  ⟨_, _, List.drop_eq_getElem_cons h⟩

end

/-! ### The end of a collection -/

/-- The brackets are the commands that the loop counts. -/
theorem token_cases (key : Byte) (rest : List Byte) :
    (key &&& 0xfc = 0xa0 ∧ token key rest = .opens) ∨ (key &&& 0xfc = 0xc0 ∧ token key rest = .closes) ∨
      (key &&& 0xfc ≠ 0xa0 ∧ key &&& 0xfc ≠ 0xc0 ∧ ∃ i, token key rest = .leaf i) := by
  unfold token
  split_ifs with h1 h2 h3 h4 h5
  · exact .inr (.inr ⟨by rw [h1]; decide, by rw [h1]; decide, _, rfl⟩)
  · exact .inr (.inr ⟨by rw [h2]; decide, by rw [h2]; decide, _, rfl⟩)
  · exact .inr (.inr ⟨by rw [h2]; decide, by rw [h2]; decide, _, rfl⟩)
  · exact .inl ⟨h4, rfl⟩
  · exact .inr (.inl ⟨h5, rfl⟩)
  · exact .inr (.inr ⟨h4, h5, _, rfl⟩)

/-- What has happened where `n` collections were open at `pos`. -/
structure Iterated.Over (d : List Byte) (n pos : ℕ) (it : Iterated) : Prop where
  /-- It stands at the end item of the outermost one. -/
  closed : it.ret = true → pos ≤ it.pos ∧ it.pos < d.length ∧
    items (d.drop it.pos) = .closes :: items (d.drop (it.pos + (it.data_len + it.key_size))) ∧
    outline n (items (d.drop pos)) = none :: outline 0 (items (d.drop it.pos)) ∧
    level n (items (d.drop pos)) = level 0 (items (d.drop it.pos))
  /-- It has none, and the descriptor is read to its end. -/
  unclosed : it.ret = false → d.length ≤ it.pos ∧ outline n (items (d.drop pos)) = [] ∧
    level n (items (d.drop pos)) ≠ 0

theorem Iterated.Over.of_step {d : List Byte} {n n' pos pos' : ℕ} {it : Iterated} (h : it.Over d n' pos')
    (hpos : pos ≤ pos') (ho : outline n (items (d.drop pos)) = outline n' (items (d.drop pos')))
    (hl : level n (items (d.drop pos)) = level n' (items (d.drop pos'))) : it.Over d n pos where
  closed hr := by
    obtain ⟨h1, h2, h3, h4, h5⟩ := h.closed hr
    exact ⟨hpos.trans h1, h2, h3, ho.trans h4, hl.trans h5⟩
  unclosed hr := by
    obtain ⟨h1, h2, h3⟩ := h.unclosed hr
    exact ⟨h1, ho.trans h2, hl ▸ h3⟩

theorem hidIterateOverCollection_loop (d : List Byte) (fuel n pos data_len key_size : ℕ)
    (hf : d.length - pos < fuel) :
    ∃ it, hidIterateOverCollection.loop d fuel (n + 1 : ℕ) pos data_len key_size = some it ∧
      it.Over d (n + 1) pos := by
  induction fuel generalizing n pos data_len key_size with
  | zero => omega
  | succ fuel ih =>
    rw [hidIterateOverCollection.loop]
    by_cases hpos : pos < d.length
    · obtain ⟨key, rest, hd⟩ := exists_drop hpos
      obtain ⟨dl, ks, hsize, hlen, -⟩ := getHidItemSize_spec hd
      have hitems := items_of_drop hd
      rw [← hlen] at hitems
      rw [if_pos hpos, getElem?_of_drop hd, hsize]
      simp only [Option.bind_eq_bind, Option.bind_some, Bool.not_true, Bool.false_eq_true, if_false]
      rcases token_cases key rest with ⟨hk, ht⟩ | ⟨hk, ht⟩ | ⟨hk, hk', i, ht⟩
      · obtain ⟨it, hit, hover⟩ := ih (n + 1) (pos + (dl + ks)) dl ks (by omega)
        refine ⟨it, ?_, hover.of_step (by omega) (by rw [hitems, ht, outline]) (by rw [hitems, ht, level])⟩
        rw [hk, if_pos rfl, if_neg (by omega), if_neg (by omega)]
        exact hit
      · cases n with
        | zero =>
          -- the end item of the outermost collection
          refine ⟨⟨true, pos, dl, ks⟩, ?_, fun _ => ⟨le_rfl, hpos, ?_, ?_, ?_⟩,
            fun hr => Bool.noConfusion hr⟩
          · rw [hk]; rfl
          · rw [hitems, ht]
          · rw [hitems, ht, outline, outline]
          · rw [hitems, ht, level, level]
        | succ n =>
          obtain ⟨it, hit, hover⟩ := ih n (pos + (dl + ks)) dl ks (by omega)
          refine ⟨it, ?_, hover.of_step (by omega) (by rw [hitems, ht, outline]) (by rw [hitems, ht, level]; rfl)⟩
          have hne : (0xc0 : Byte) ≠ 0xa0 := by decide
          have hlev : ((n + 1 + 1 : ℕ) : ℤ) - 1 = (n + 1 : ℕ) := by omega
          rw [hk, if_neg hne, if_pos rfl, hlev, if_neg (by omega), if_neg (by omega)]
          exact hit
      · obtain ⟨it, hit, hover⟩ := ih n (pos + (dl + ks)) dl ks (by omega)
        refine ⟨it, ?_, hover.of_step (by omega) (by rw [hitems, ht, outline]) (by rw [hitems, ht, level])⟩
        rw [if_neg hk, if_neg hk', if_neg (by omega), if_neg (by omega)]
        exact hit
    · rw [if_neg hpos]
      have hnil : d.drop pos = [] := List.drop_eq_nil_of_le (by omega)
      refine ⟨_, rfl, fun hr => Bool.noConfusion hr, fun _ => ⟨Nat.le_of_not_lt hpos, ?_, ?_⟩⟩
      · rw [hnil, items, outline]
      · rw [hnil, items, level]
        omega

theorem hidIterateOverCollection_spec {d rest : List Byte} {pos : ℕ} {key : Byte} (hd : d.drop pos = key :: rest)
    (hk : key &&& 0xfc = 0xa0) (data_len key_size : ℕ) :
    ∃ it, hidIterateOverCollection d pos data_len key_size = some it ∧ it.Over d 1 (pos + (skip key rest + 1)) := by
  obtain ⟨dl, ks, hsize, hlen, -⟩ := getHidItemSize_spec hd
  have hpos := lt_length_of_drop hd
  obtain ⟨it, hit, hover⟩ := hidIterateOverCollection_loop d d.length 0 (pos + (dl + ks)) dl ks (by omega)
  refine ⟨it, ?_, hlen ▸ hover⟩
  rw [hidIterateOverCollection, hidIterateOverCollection.loop, if_pos hpos, getElem?_of_drop hd, hsize]
  simp only [Option.bind_eq_bind, Option.bind_some, Bool.not_true, Bool.false_eq_true, if_false]
  rw [hk, if_pos rfl, if_neg (by omega), if_neg (by omega)]
  exact hit

/-! ### One call -/

/-- What the descriptor says outside its collections, from `pos` on. -/
def top (d : List Byte) (pos : ℕ) : List (Option Item) := outline 0 (items (d.drop pos))

/-- The collections that are open at the end, read from `pos` on. -/
def unclosed (d : List Byte) (pos : ℕ) : ℕ := level 0 (items (d.drop pos))

theorem report_none_of_pair {k : Known} {p : UsagePair} (h : k.pair = some p) (ts : List (Option Item)) :
    report k (none :: ts) = (p :: (report ⟨k.page, none⟩ ts).1, (report ⟨k.page, none⟩ ts).2) := by
  simp [report, h]

theorem report_none_of_no_pair {k : Known} (h : k.pair = none) (ts : List (Option Item)) :
    report k (none :: ts) = report k ts := by
  simp [report, h]

/-- The descriptor at a leaf, and at a collection that ends or does not. -/
theorem top_leaf {d rest : List Byte} {pos : ℕ} {key : Byte} {i : Item} (hd : d.drop pos = key :: rest)
    (ht : token key rest = .leaf i) :
    top d pos = some i :: top d (pos + (skip key rest + 1)) ∧
      unclosed d pos = unclosed d (pos + (skip key rest + 1)) := by
  unfold top unclosed
  rw [items_of_drop hd, ht, outline, level]
  exact ⟨rfl, rfl⟩

theorem top_closes {d rest : List Byte} {pos : ℕ} {key : Byte} (hd : d.drop pos = key :: rest)
    (ht : token key rest = .closes) :
    top d pos = top d (pos + (skip key rest + 1)) ∧ unclosed d pos = unclosed d (pos + (skip key rest + 1)) := by
  unfold top unclosed
  rw [items_of_drop hd, ht, outline, level]
  exact ⟨rfl, rfl⟩

theorem top_opens {d rest : List Byte} {pos : ℕ} {key : Byte} (hd : d.drop pos = key :: rest)
    (ht : token key rest = .opens) :
    top d pos = outline 1 (items (d.drop (pos + (skip key rest + 1)))) ∧
      unclosed d pos = level 1 (items (d.drop (pos + (skip key rest + 1)))) := by
  unfold top unclosed
  rw [items_of_drop hd, ht, outline, level]
  exact ⟨rfl, rfl⟩

/-- What a call has done from `pos` on, if `k` is what it knew there. -/
inductive NextUsage.From (d : List Byte) (initial : Bool) (k : Known) (pos : ℕ) (r : NextUsage) : Prop where
  /-- A collection has a pair. -/
  | pair (ret : r.ret = 0) (later : pos < r.ctx.pos) (inside : r.ctx.pos < d.length)
      (page : r.ctx.usage_page_found = true)
      (said : report k (top d pos) = ((r.usage_page, r.usage) ::
        (report ⟨r.ctx.usage_page, none⟩ (top d r.ctx.pos)).1,
        (report ⟨r.ctx.usage_page, none⟩ (top d r.ctx.pos)).2))
      (level : unclosed d pos = unclosed d r.ctx.pos)
  /-- None has, and one does not end. -/
  | malformed (ret : r.ret = -1) (past : d.length ≤ r.ctx.pos) (said : (report k (top d pos)).1 = [])
      (level : unclosed d pos ≠ 0)
  /-- None has, but it is the first call and a pair is known at the end. -/
  | last (ret : r.ret = 0) (past : d.length ≤ r.ctx.pos) (first : initial = true)
      (said : (report k (top d pos)).1 = [])
      (known : (report k (top d pos)).2.pair = some (r.usage_page, r.usage)) (level : unclosed d pos = 0)
  /-- None has. -/
  | finished (ret : r.ret = 1) (past : d.length ≤ r.ctx.pos) (said : (report k (top d pos)).1 = [])
      (known : initial = true → (report k (top d pos)).2.pair = none) (level : unclosed d pos = 0)

theorem NextUsage.From.of_step {d : List Byte} {initial : Bool} {k k' : Known} {pos pos' : ℕ} {r : NextUsage}
    (h : r.From d initial k' pos') (hpos : pos ≤ pos') (ht : report k (top d pos) = report k' (top d pos'))
    (hl : unclosed d pos = unclosed d pos') : r.From d initial k pos := by
  cases h with
  | pair ret later inside page said level =>
    exact .pair ret (hpos.trans_lt later) inside page (ht.trans said) (hl.trans level)
  | malformed ret past said level => exact .malformed ret past (ht ▸ said) (hl ▸ level)
  | last ret past first said known level =>
    exact .last ret past first (ht ▸ said) (ht ▸ known) (hl.trans level)
  | finished ret past said known level =>
    exact .finished ret past (ht ▸ said) (ht ▸ known) (hl.trans level)

/-- What the loop knows. -/
def HidUsageIterator.known (ctx : HidUsageIterator) (usage_found : Bool) (usage : BitVec 16) :
    Known :=
  ⟨if ctx.usage_page_found then some ctx.usage_page else none, if usage_found then some usage else none⟩

theorem HidUsageIterator.known_pair_of (ctx : HidUsageIterator) {usage_found : Bool} (usage : BitVec 16)
    (h : (usage_found && ctx.usage_page_found) = true) :
    (ctx.known usage_found usage).pair = some (ctx.usage_page, usage) := by
  rw [Bool.and_eq_true] at h
  simp [known, Known.pair, h.1, h.2]

theorem HidUsageIterator.known_pair_of_not (ctx : HidUsageIterator) {usage_found : Bool} (usage : BitVec 16)
    (h : ¬ (usage_found && ctx.usage_page_found) = true) : (ctx.known usage_found usage).pair = none := by
  rw [Bool.and_eq_true, not_and_or, Bool.not_eq_true, Bool.not_eq_true] at h
  rcases h with h | h <;> simp [known, Known.pair, h]

theorem report_top_nil {d : List Byte} {pos : ℕ} (h : d.length ≤ pos) (k : Known) :
    report k (top d pos) = ([], k) ∧ unclosed d pos = 0 := by
  rw [top, unclosed, List.drop_eq_nil_of_le h, items]
  exact ⟨rfl, rfl⟩

theorem getNextHidUsage_loop (d : List Byte) (initial : Bool) (usage_page : BitVec 16) (fuel : ℕ)
    (ctx : HidUsageIterator) (usage_found : Bool) (usage : BitVec 16) (hf : d.length - ctx.pos < fuel) :
    ∃ r, getNextHidUsage.loop d initial usage_page fuel ctx usage_found usage = some r ∧
      r.From d initial (ctx.known usage_found usage) ctx.pos := by
  induction fuel generalizing ctx usage_found usage with
  | zero => omega
  | succ fuel ih =>
    rw [getNextHidUsage.loop]
    by_cases hpos : ctx.pos < d.length
    · obtain ⟨key, rest, hd⟩ := exists_drop hpos
      obtain ⟨dl, ks, hsize, hlen, hdl⟩ := getHidItemSize_spec hd
      rw [if_pos hpos, getElem?_of_drop hd, hsize]
      simp only [Option.bind_eq_bind, Option.bind_some, Bool.not_true, Bool.false_eq_true, if_false]
      rw [hlen]
      -- a leaf, after which the loop knows what `k` does
      have leaf (i : Item) (ht : token key rest = .leaf i) (ctx' : HidUsageIterator) (found : Bool)
          (usage' : BitVec 16) (hp : ctx'.pos = ctx.pos + (skip key rest + 1))
          (hk : ctx'.known found usage' = (ctx.known usage_found usage).read i) :
          ∃ r, getNextHidUsage.loop d initial usage_page fuel ctx' found usage' = some r ∧
            r.From d initial (ctx.known usage_found usage) ctx.pos := by
        obtain ⟨r, hr, hfrom⟩ := ih ctx' found usage' (by omega)
        obtain ⟨htop, hun⟩ := top_leaf hd ht
        rw [← hp] at htop hun
        exact ⟨r, hr, hfrom.of_step (by omega) (by rw [htop, report, hk]) hun⟩
      by_cases h4 : key &&& 0xfc = 0x4
      · obtain ⟨v, hv, hw⟩ := getHidReportBytes_spec d (dataLen_cases key) ctx.pos
        rw [if_pos h4, hdl (and_ne_of_and_eq h4 (by decide)), hv]
        refine leaf (.usagePage (word (dataLen key) rest)) (by rw [token, if_pos h4]) _ _ _ rfl ?_
        rw [drop_succ_of_drop hd] at hw
        simp [HidUsageIterator.known, Known.read, hw]
      rw [if_neg h4]
      by_cases h8 : key &&& 0xfc = 0x8
      · rw [if_pos h8, hdl (and_ne_of_and_eq h8 (by decide))]
        have h84 : (0x8 : Byte) ≠ 0x4 := by decide
        by_cases hl : dataLen key = 4
        · obtain ⟨p, hp, hwp⟩ := getHidReportBytes_spec d (n := 2) (by omega) (ctx.pos + 2)
          obtain ⟨u, hu, hwu⟩ := getHidReportBytes_spec d (n := 2) (by omega) ctx.pos
          rw [if_pos hl, hp, hu]
          refine leaf (.usage (some (word 2 (rest.drop 2))) (word 2 rest)) ?_ _ _ _ rfl ?_
          · rw [token, if_neg h4, if_pos h8, if_pos hl]
          · rw [Nat.add_right_comm, ← List.drop_drop, drop_succ_of_drop hd] at hwp
            rw [drop_succ_of_drop hd] at hwu
            simp [HidUsageIterator.known, Known.read, hwp, hwu]
        · obtain ⟨u, hu, hwu⟩ := getHidReportBytes_spec d (dataLen_cases key) ctx.pos
          rw [if_neg hl, hu]
          refine leaf (.usage none (word (dataLen key) rest)) ?_ _ _ _ rfl ?_
          · rw [token, if_neg h4, if_pos h8, if_neg hl]
          · rw [drop_succ_of_drop hd] at hwu
            simp [HidUsageIterator.known, Known.read, hwu]
      rw [if_neg h8]
      by_cases ha : key &&& 0xfc = 0xa0
      · have ht : token key rest = .opens := by rw [token, if_neg h4, if_neg h8, if_pos ha]
        obtain ⟨htop, hun⟩ := top_opens hd ht
        obtain ⟨it, hit, hover⟩ := hidIterateOverCollection_spec hd ha dl ks
        rw [if_pos ha, hit]
        simp only [Option.bind_some]
        cases hret : it.ret with
        | false =>
          obtain ⟨hge, ho, hl⟩ := hover.unclosed hret
          rw [← htop] at ho
          rw [← hun] at hl
          exact ⟨_, rfl, .malformed rfl hge (by rw [ho, report]) hl⟩
        | true =>
          obtain ⟨hle, hlt, hend, ho, hl⟩ := hover.closed hret
          rw [← htop] at ho
          rw [← hun] at hl
          simp only [Bool.not_true, Bool.false_eq_true, if_false]
          by_cases hp : (usage_found && ctx.usage_page_found) = true
          · rw [if_pos hp]
            have hpage := ((Bool.and_eq_true _ _).mp hp).2
            refine ⟨_, rfl, .pair rfl (by dsimp only; omega) hlt hpage ?_ hl⟩
            rw [ho, report_none_of_pair (ctx.known_pair_of usage hp)]
            simp [HidUsageIterator.known, hpage, top]
          · rw [if_neg hp]
            obtain ⟨r, hr, hfrom⟩ := ih { ctx with pos := it.pos + (it.data_len + it.key_size) } usage_found usage
              (by dsimp only; omega)
            refine ⟨r, hr, hfrom.of_step (by dsimp only; omega) ?_ ?_⟩
            · rw [ho, report_none_of_no_pair (ctx.known_pair_of_not usage hp), hend, outline]
              rfl
            · rw [unclosed, unclosed] at *
              rw [hl, hend, level]
      rw [if_neg ha]
      rcases token_cases key rest with ⟨hk, -⟩ | ⟨hk, ht⟩ | ⟨-, hk, -⟩
      · exact absurd hk ha
      · obtain ⟨htop, hun⟩ := top_closes hd ht
        obtain ⟨r, hr, hfrom⟩ := ih { ctx with pos := ctx.pos + (skip key rest + 1) } usage_found usage
          (by dsimp only; omega)
        exact ⟨r, hr, hfrom.of_step (by dsimp only; omega) (by rw [htop]; rfl) hun⟩
      · exact leaf .other (by rw [token, if_neg h4, if_neg h8, if_neg ha, if_neg hk]) _ _ _ rfl rfl
    · have hge : d.length ≤ ctx.pos := Nat.le_of_not_lt hpos
      obtain ⟨hrep, hun⟩ := report_top_nil hge (ctx.known usage_found usage)
      rw [if_neg hpos]
      by_cases hp : (initial && usage_found && ctx.usage_page_found) = true
      · have hp' := hp
        rw [Bool.and_assoc, Bool.and_eq_true] at hp'
        rw [if_pos hp]
        exact ⟨_, rfl, .last rfl hge hp'.1 (by rw [hrep]) (by rw [hrep]; exact ctx.known_pair_of usage hp'.2) hun⟩
      · rw [if_neg hp]
        refine ⟨_, rfl, .finished rfl hge (by rw [hrep]) (fun hi => ?_) hun⟩
        rw [hi, Bool.true_and] at hp
        rw [hrep]
        exact ctx.known_pair_of_not usage hp

theorem getNextHidUsage_spec (d : List Byte) (ctx : HidUsageIterator) (usage_page usage : BitVec 16) :
    ∃ r, getNextHidUsage d ctx usage_page usage = some r ∧
      r.From d (ctx.pos == 0) (ctx.known false usage) ctx.pos :=
  getNextHidUsage_loop d _ usage_page _ ctx false usage (by omega)

/-! ### All calls -/

/-- After the first call only the collections report. -/
theorem usages_later (d : List Byte) (fuel : ℕ) (ctx : HidUsageIterator) (usage_page usage : BitVec 16)
    (hpos : 0 < ctx.pos) (hf : d.length - ctx.pos < fuel) :
    usages d fuel ctx usage_page usage =
      some ((report (ctx.known false usage) (top d ctx.pos)).1, if unclosed d ctx.pos = 0 then 1 else -1) := by
  induction fuel generalizing ctx usage_page usage with
  | zero => omega
  | succ fuel ih =>
    obtain ⟨r, hr, hfrom⟩ := getNextHidUsage_spec d ctx usage_page usage
    rw [beq_false_of_ne hpos.ne'] at hfrom
    rw [usages, hr]
    simp only [Option.bind_eq_bind, Option.bind_some]
    cases hfrom with
    | pair ret later inside page said level =>
      have hk : r.ctx.known false r.usage = ⟨r.ctx.usage_page, none⟩ := by
        simp [HidUsageIterator.known, page]
      rw [if_pos ret, ih r.ctx _ _ (by omega) (by omega), said, level, hk]
      rfl
    | malformed ret past said level => rw [ret, said, if_neg level]; rfl
    | last ret past first said known level => exact absurd first (by decide)
    | finished ret past said known level => rw [ret, said, if_pos level]; rfl

/-- The pairs that the calls report. -/
def pairsOf (d : List Byte) : List UsagePair :=
  if unclosed d 0 = 0 then reported (top d 0) else (report ⟨none, none⟩ (top d 0)).1

theorem pairsOf_of_report {d : List Byte} {p : UsagePair} {ps : List UsagePair}
    (h : (report ⟨none, none⟩ (top d 0)).1 = p :: ps) : pairsOf d = p :: ps := by
  unfold pairsOf reported
  split
  · split
    · simp_all
    · simp_all
  · exact h

theorem pairsOf_of_nil {d : List Byte} (h : (report ⟨none, none⟩ (top d 0)).1 = []) (hl : unclosed d 0 = 0) :
    pairsOf d = (report ⟨none, none⟩ (top d 0)).2.pair.toList := by
  rw [pairsOf, if_pos hl, reported]
  split
  · simp_all
  · simp_all

/-- On all bytes the calls stay inside the descriptor and come to an end, and
report what stands outside its collections; the last one returns -1 exactly
if a collection has no end. -/
theorem usages_eq (d : List Byte) (usage_page usage : BitVec 16) :
    usages d (d.length + 2) ⟨0, false, 0⟩ usage_page usage =
      some (pairsOf d, if unclosed d 0 = 0 then 1 else -1) := by
  obtain ⟨r, hr, hfrom⟩ := getNextHidUsage_spec d ⟨0, false, 0⟩ usage_page usage
  have hk : HidUsageIterator.known ⟨0, false, 0⟩ false usage = ⟨none, none⟩ := rfl
  rw [hk] at hfrom
  rw [usages, hr]
  simp only [Option.bind_eq_bind, Option.bind_some]
  cases hfrom with
  | pair ret later inside page said level =>
    have hk : r.ctx.known false r.usage = ⟨r.ctx.usage_page, none⟩ := by
      simp [HidUsageIterator.known, page]
    dsimp only at later level
    rw [if_pos ret, usages_later d _ r.ctx _ _ (by omega) (by omega), level, hk,
      pairsOf_of_report (by rw [said])]
    rfl
  | malformed ret past said level =>
    rw [ret, if_neg level, pairsOf, if_neg level, said]
    rfl
  | last ret past first said known level =>
    -- the call after it starts at the end of the descriptor
    have hd : 0 < d.length := by
      by_contra hd
      obtain ⟨hrep, -⟩ := @report_top_nil d 0 (by omega) ⟨none, none⟩
      rw [hrep] at known
      exact absurd known (by simp [Known.pair])
    obtain ⟨hrep, hun⟩ := report_top_nil past (r.ctx.known false r.usage)
    rw [if_pos ret, usages_later d _ r.ctx _ _ (by omega) (by omega), hrep, hun, level,
      pairsOf_of_nil said level, known]
    rfl
  | finished ret past said known level =>
    rw [ret, level, pairsOf_of_nil said level, known rfl]
    rfl

/-- The calls accept exactly the bytes whose items are forests with end items
between them that end nothing, and report the roots. -/
theorem usages_accept (d : List Byte) (usage_page usage : BitVec 16) (ps : List UsagePair) :
    usages d (d.length + 2) ⟨0, false, 0⟩ usage_page usage = some (ps, 1) ↔
      ∃ f fs, items d = text f fs ∧ ps = reported (f.roots ++ fs.flatMap Forest.roots) := by
  rw [usages_eq, unclosed, pairsOf, unclosed, top, List.drop_zero]
  by_cases hl : level 0 (items d) = 0
  · obtain ⟨f, fs, htext⟩ := (level_eq_zero_iff _).mp hl
    rw [if_pos hl, if_pos hl]
    constructor
    · intro h
      refine ⟨f, fs, htext, ?_⟩
      rw [← outline_text, ← htext]
      exact (Prod.mk.inj (Option.some.inj h)).1.symm
    · rintro ⟨g, gs, htext', rfl⟩
      rw [htext', outline_text]
  · rw [if_neg hl, if_neg hl]
    refine iff_of_false (fun h => ?_) ?_
    · exact absurd (Prod.mk.inj (Option.some.inj h)).2 (by decide)
    · rintro ⟨f, fs, htext, -⟩
      exact hl (htext ▸ level_text f fs)

/-- **All bytes are read.** The calls stay inside any descriptor and come to
an end: they report the roots of its forests, between which end items may
stand that end nothing, or return -1 where its items are no such text. -/
theorem usages_total (d : List Byte) (usage_page usage : BitVec 16) :
    (∃ f fs, items d = text f fs ∧ usages d (d.length + 2) ⟨0, false, 0⟩ usage_page usage =
        some (reported (f.roots ++ fs.flatMap Forest.roots), 1)) ∨
      (¬ ∃ f fs, items d = text f fs) ∧
        ∃ ps, usages d (d.length + 2) ⟨0, false, 0⟩ usage_page usage = some (ps, -1) := by
  by_cases h : ∃ f fs, items d = text f fs
  · obtain ⟨f, fs, htext⟩ := h
    exact .inl ⟨f, fs, htext, (usages_accept d usage_page usage _).mpr ⟨f, fs, htext, rfl⟩⟩
  · refine .inr ⟨h, pairsOf d, ?_⟩
    rw [usages_eq, unclosed, List.drop_zero, if_neg fun hl => h ((level_eq_zero_iff _).mp hl)]

/-! ### Descriptors of items -/

/-- A short item with the data that its key announces, or a long one. -/
inductive WireItem where
  | short (key : Byte) (data : List Byte) (ok : key &&& 0xf0 ≠ 0xf0 ∧ data.length = dataLen key)
  | long (key tag : Byte) (data : List Byte) (ok : key &&& 0xf0 = 0xf0 ∧ data.length < 256)

def WireItem.encode : WireItem → List Byte
  | short key data _ => key :: data
  | long key tag data _ => key :: BitVec.ofNat 8 data.length :: tag :: data

/-- What it says: a long item nothing. -/
def WireItem.token : WireItem → Token Item
  | short key data _ => Descriptor.token key data
  | long _ _ _ _ => .leaf .other

theorem word_append {n : ℕ} {data : List Byte} (h : n ≤ data.length) (rest : List Byte) :
    word n (data ++ rest) = word n data := by
  rw [word, word, if_neg (by simp; omega), if_neg (by omega), List.take_append_of_le_length h]

theorem token_append {key : Byte} {data : List Byte} (h : data.length = dataLen key) (rest : List Byte) :
    token key (data ++ rest) = token key data := by
  unfold token
  rw [word_append h.ge]
  by_cases h4 : dataLen key = 4
  · rw [if_pos h4, if_pos h4, List.drop_append_of_le_length (by omega), word_append (by simp; omega),
      word_append (by omega)]
  · rw [if_neg h4, if_neg h4]

theorem WireItem.items_append (w : WireItem) (rest : List Byte) :
    items (w.encode ++ rest) = w.token :: items rest := by
  cases w with
  | short key data ok =>
    have hskip : skip key (data ++ rest) = data.length := by
      cases hdr : data ++ rest with
      | nil => exact ok.2.symm
      | cons n l => rw [skip, if_neg ok.1, ok.2]
    rw [encode, List.cons_append, items, hskip, List.drop_left, token_append ok.2]
    rfl
  | long key tag data ok =>
    have hcmd : Descriptor.token key (BitVec.ofNat 8 data.length :: tag :: (data ++ rest)) = .leaf .other := by
      unfold Descriptor.token
      rw [if_neg fun h => and_ne_of_and_eq h (by decide) ok.1, if_neg fun h => and_ne_of_and_eq h (by decide) ok.1,
        if_neg fun h => and_ne_of_and_eq h (by decide) ok.1, if_neg fun h => and_ne_of_and_eq h (by decide) ok.1]
    have hlen : (BitVec.ofNat 8 data.length).toNat = data.length := by
      rw [BitVec.toNat_ofNat, Nat.mod_eq_of_lt ok.2]
    rw [encode, List.cons_append, List.cons_append, List.cons_append, items, hcmd, skip, if_pos ok.1, hlen,
      List.drop_succ_cons, List.drop_succ_cons, List.drop_left]
    rfl

/-- The items come back from their bytes. -/
theorem items_encode (ws : List WireItem) :
    items (ws.flatMap WireItem.encode) = ws.map WireItem.token := by
  induction ws with
  | nil => rw [List.flatMap_nil, items, List.map_nil]
  | cons w ws ih => rw [List.flatMap_cons, WireItem.items_append, ih, List.map_cons]

/-- **The pairs of a descriptor.** Written from its items, it is accepted
exactly if they are forests, with end items between them that end nothing,
and then its pairs are those of the roots. -/
theorem usages_encode_iff (ws : List WireItem) (usage_page usage : BitVec 16) (ps : List UsagePair) :
    usages (ws.flatMap WireItem.encode) ((ws.flatMap WireItem.encode).length + 2) ⟨0, false, 0⟩ usage_page
        usage = some (ps, 1) ↔
      ∃ f fs, ws.map WireItem.token = text f fs ∧ ps = reported (f.roots ++ fs.flatMap Forest.roots) := by
  rw [usages_accept, items_encode]

end Descriptor
end ToolbitSdk
