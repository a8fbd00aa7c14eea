/-
# Bytes in memory

Numbers as little-endian bytes (`leNat`, `leBytes`), the memory after a copy
to its start (`overlay`, what `memcpy` leaves), and the C string that starts
a stretch of memory (`cstr`). The laws say which of the bytes matter: the
low `n` bytes of a number are its value mod `256 ^ n` (`leNat_take`), bytes
of zero above it add nothing (`leNat_append_eq_left_iff`), and a copy
leaves the bytes past it as they were (`take_overlay_of_le`). A string of
wider units is read in the same way (`wstr`), and a copy shows as the copied
string where the bytes of its last units and of its 0 that were not copied
are 0 (`wstr_overlay_iff`).
-/
import Mathlib.Data.Nat.Digits.Lemmas
import Mathlib.Tactic.Ring
import Mathlib.Tactic.NormNum

namespace Bytes

abbrev Byte := BitVec 8

/-! ### Little-endian numbers -/

/-- The number the bytes spell, least significant byte first. -/
def leNat (bs : List Byte) : ℕ := Nat.ofDigits 256 (bs.map BitVec.toNat)

/-- The `n` low bytes of a number, least significant first. -/
def leBytes : ℕ → ℕ → List Byte
  | 0, _ => []
  | n + 1, v => BitVec.ofNat 8 v :: leBytes n (v / 256)

@[simp] theorem leNat_nil : leNat [] = 0 := rfl

@[simp] theorem leNat_cons (b : Byte) (bs : List Byte) : leNat (b :: bs) = b.toNat + 256 * leNat bs := by
  simp [leNat, Nat.ofDigits_cons]

theorem leNat_append (as bs : List Byte) :
    leNat (as ++ bs) = leNat as + 256 ^ as.length * leNat bs := by
  simp [leNat, Nat.ofDigits_append]

theorem leNat_lt (bs : List Byte) : leNat bs < 256 ^ bs.length := by
  have h : ∀ x ∈ bs.map BitVec.toNat, x < 256 := by
    intro x hx
    obtain ⟨b, -, rfl⟩ := List.mem_map.mp hx
    exact b.isLt
  simpa [leNat] using Nat.ofDigits_lt_base_pow_length (by norm_num) h

/-- `n` bytes are enough for it. -/
theorem leNat_lt_of_le {n : ℕ} {bs : List Byte} (h : bs.length ≤ n) : leNat bs < 256 ^ n :=
  calc leNat bs < 256 ^ bs.length := leNat_lt bs
    _ ≤ 256 ^ n := Nat.pow_le_pow_right (by norm_num) h

/-- A byte has 8 bits. -/
theorem two_pow_eight_mul (n : ℕ) : (2 : ℕ) ^ (8 * n) = 256 ^ n := by
  rw [pow_mul]
  norm_num

@[simp] theorem length_leBytes : ∀ n v : ℕ, (leBytes n v).length = n
  | 0, _ => rfl
  | n + 1, v => by simp [leBytes, length_leBytes n]

theorem leNat_leBytes : ∀ n v : ℕ, leNat (leBytes n v) = v % 256 ^ n
  | 0, v => by simp [leBytes, Nat.mod_one]
  | n + 1, v => by
    rw [leBytes, leNat_cons, leNat_leBytes n, pow_succ', Nat.mod_mul]
    simp

/-- The low bytes of a number are the number mod a power of 256. -/
theorem leNat_take (n : ℕ) (bs : List Byte) : leNat (bs.take n) = leNat bs % 256 ^ n := by
  rcases Nat.le_total bs.length n with h | h
  · rw [List.take_of_length_le h, Nat.mod_eq_of_lt (leNat_lt_of_le h)]
  · have hl : (bs.take n).length = n := by simp [h]
    have hsplit : leNat bs = leNat (bs.take n) + 256 ^ n * leNat (bs.drop n) :=
      calc leNat bs = leNat (bs.take n ++ bs.drop n) := by rw [List.take_append_drop]
        _ = leNat (bs.take n) + 256 ^ n * leNat (bs.drop n) := by rw [leNat_append, hl]
    rw [hsplit, Nat.add_mul_mod_self_left, Nat.mod_eq_of_lt (leNat_lt_of_le hl.le)]

theorem leNat_eq_zero_iff : ∀ bs : List Byte, leNat bs = 0 ↔ ∀ b ∈ bs, b = 0
  | [] => by simp
  | b :: bs => by
    have hb : b.toNat = 0 ↔ b = 0 := by
      rw [← BitVec.toNat_inj]; rfl
    rw [leNat_cons, List.forall_mem_cons, ← leNat_eq_zero_iff bs, ← hb]
    omega

/-- Bytes above a number add nothing to it when they are all 0, and only then. -/
theorem leNat_append_eq_left_iff (as bs : List Byte) :
    leNat (as ++ bs) = leNat as ↔ ∀ b ∈ bs, b = 0 := by
  rw [leNat_append, ← leNat_eq_zero_iff]
  have hpos : 0 < 256 ^ as.length := by positivity
  constructor
  · intro h
    have h0 : 256 ^ as.length * leNat bs = 0 := by omega
    exact (Nat.mul_eq_zero.mp h0).resolve_left hpos.ne'
  · intro h; rw [h]; simp

theorem forall_mem_eq_zero_iff (bs : List Byte) : (∀ b ∈ bs, b = 0) ↔ ∀ i, bs.getD i 0 = 0 := by
  constructor
  · intro h i
    rw [List.getD_eq_getElem?_getD]
    cases hb : bs[i]? with
    | none => rfl
    | some b => exact h b (List.mem_of_getElem? hb)
  · intro h b hb
    obtain ⟨i, hi⟩ := List.mem_iff_getElem?.mp hb
    have hz := h i
    rwa [List.getD_eq_getElem?_getD, hi] at hz

/-- The bytes from `k` to below `n` are all 0. -/
theorem forall_mem_window (bs : List Byte) (k n : ℕ) :
    (∀ b ∈ (bs.drop k).take (n - k), b = 0) ↔ ∀ i, k ≤ i → i < n → bs.getD i 0 = 0 := by
  simp only [forall_mem_eq_zero_iff, List.getD_eq_getElem?_getD, List.getElem?_take, List.getElem?_drop]
  constructor
  · intro h i hk hn
    have hz := h (i - k)
    rwa [if_pos (by omega), Nat.add_sub_cancel' hk] at hz
  · intro h i
    split
    · exact h (k + i) (by omega) (by omega)
    · rfl

/-- A word of `w` bits, read from its bytes. -/
def leWord (w : ℕ) (bs : List Byte) : BitVec w := BitVec.ofNat w (leNat bs)

/-- A word comes back from its own bytes. -/
theorem leWord_leBytes {n : ℕ} (v : BitVec (8 * n)) : leWord (8 * n) (leBytes n v.toNat) = v := by
  have hv : v.toNat < 256 ^ n := two_pow_eight_mul n ▸ v.isLt
  rw [leWord, leNat_leBytes, Nat.mod_eq_of_lt hv, BitVec.ofNat_toNat]
  simp

/-! ### Copies -/

/-- The memory `dst` after `src` has been copied to its start. -/
def overlay {β : Type*} (src dst : List β) : List β := src ++ dst.drop src.length

section

variable {β : Type*}

theorem length_overlay {src dst : List β} (h : src.length ≤ dst.length) :
    (overlay src dst).length = dst.length := by
  simp only [overlay, List.length_append, List.length_drop]
  omega

theorem prefix_overlay (src dst : List β) : src <+: overlay src dst := List.prefix_append _ _

theorem take_overlay {n : ℕ} {src : List β} (dst : List β) (h : n ≤ src.length) :
    (overlay src dst).take n = src.take n := by
  rw [overlay, List.take_append_of_le_length h]

theorem take_overlay_of_le {n : ℕ} {src : List β} (dst : List β) (h : src.length ≤ n) :
    (overlay src dst).take n = src ++ (dst.drop src.length).take (n - src.length) := by
  rw [overlay, List.take_append, List.take_of_length_le h]

end

theorem drop_overlay {β : Type*} (src dst : List β) (j : ℕ) :
    (overlay src dst).drop j = overlay (src.drop j) (dst.drop j) := by
  have h : src.length + (j - src.length) = j + (src.length - j) := by omega
  rw [overlay, overlay, List.drop_append, List.drop_drop, List.drop_drop, List.length_drop, h]

/-- A word read from memory after a copy is the word of the copied bytes
exactly when the bytes of it that were not copied over are 0. -/
theorem leWord_overlay_iff (n : ℕ) (src dst : List Byte) :
    leWord (8 * n) ((overlay src dst).take n) = leWord (8 * n) src ↔
      ∀ i, src.length ≤ i → i < n → dst.getD i 0 = 0 := by
  rcases Nat.le_total n src.length with h | h
  · refine iff_of_true ?_ fun i hi hn => by omega
    rw [take_overlay dst h, leWord, leWord, leNat_take, ← two_pow_eight_mul, ← BitVec.toNat_inj, BitVec.toNat_ofNat,
      BitVec.toNat_ofNat, Nat.mod_mod]
  · have hlt : ∀ bs : List Byte, bs.length ≤ n → leNat bs < 2 ^ (8 * n) := fun bs hb => by
      rw [two_pow_eight_mul]
      exact leNat_lt_of_le hb
    have hw : (src ++ (dst.drop src.length).take (n - src.length)).length ≤ n := by
      simp only [List.length_append, List.length_take]
      omega
    rw [take_overlay_of_le dst h, leWord, leWord, ← BitVec.toNat_inj, BitVec.toNat_ofNat, BitVec.toNat_ofNat,
      Nat.mod_eq_of_lt (hlt _ hw), Nat.mod_eq_of_lt (hlt _ h), leNat_append_eq_left_iff, forall_mem_window]

/-! ### C strings -/

/-- The string that starts a stretch of memory: up to its first NUL. -/
def cstr (mem : List Byte) : List Byte := mem.takeWhile (· ≠ 0)

theorem cstr_cons (a : Byte) (as : List Byte) :
    cstr (a :: as) = if a = 0 then [] else a :: cstr as := by
  unfold cstr
  rw [List.takeWhile_cons]
  by_cases ha : a = 0
  · rw [if_pos ha, if_neg (by simpa using ha)]
  · rw [if_neg ha, if_pos (by simpa using ha)]

theorem cstr_append_of_mem : ∀ {as : List Byte} (bs : List Byte), (0 : Byte) ∈ as →
    cstr (as ++ bs) = cstr as
  | a :: as, bs, h => by
    rw [List.cons_append, cstr_cons, cstr_cons]
    by_cases ha : a = 0
    · rw [if_pos ha, if_pos ha]
    · have h0 : (0 : Byte) ∈ as := (List.mem_cons.mp h).resolve_left fun h => ha h.symm
      rw [if_neg ha, if_neg ha, cstr_append_of_mem bs h0]

theorem cstr_append_of_not_mem : ∀ {as : List Byte} (bs : List Byte), (0 : Byte) ∉ as →
    cstr (as ++ bs) = as ++ cstr bs
  | [], _, _ => rfl
  | a :: as, bs, h => by
    rw [List.mem_cons, not_or] at h
    rw [List.cons_append, cstr_cons, if_neg fun ha => h.1 ha.symm, cstr_append_of_not_mem bs h.2]
    rfl

theorem cstr_eq_self {as : List Byte} (h : (0 : Byte) ∉ as) : cstr as = as := by
  simpa [cstr] using cstr_append_of_not_mem [] h

theorem cstr_eq_nil_iff (a : Byte) (as : List Byte) : cstr (a :: as) = [] ↔ a = 0 := by
  rw [cstr_cons]
  by_cases ha : a = 0 <;> simp only [ha, ↓reduceIte, reduceCtorEq]

/-- A string and its NUL are the string. -/
theorem cstr_cstr_nul (mem : List Byte) : cstr (cstr mem ++ [0]) = cstr mem := by
  have h0 : (0 : Byte) ∉ cstr mem := fun h => by
    have hne := List.all_eq_true.mp List.all_takeWhile 0 h
    simp at hne
  rw [cstr_append_of_not_mem [0] h0]
  exact List.append_nil _

/-- The string at the start of a copy is the copied one exactly when the copy
brings its NUL or comes before one. -/
theorem cstr_overlay_iff {src dst : List Byte} (h : src.length < dst.length) :
    cstr (overlay src dst) = cstr src ↔ (0 : Byte) ∈ src ∨ dst.getD src.length 0 = 0 := by
  by_cases h0 : (0 : Byte) ∈ src
  · exact iff_of_true (cstr_append_of_mem _ h0) (.inl h0)
  · rw [or_iff_right h0, overlay, cstr_append_of_not_mem _ h0, cstr_eq_self h0, List.append_right_eq_self,
      List.drop_eq_getElem_cons h, cstr_eq_nil_iff, List.getD_eq_getElem?_getD, List.getElem?_eq_getElem h]
    rfl

/-! ### Strings of wider units -/

/-- Unit `k` of `n` bytes; the bytes past the end are 0. -/
def leUnit (n : ℕ) (mem : List Byte) (k : ℕ) : BitVec (8 * n) :=
  leWord (8 * n) ((mem.drop (n * k)).take n)

/-- The string that starts `c` units of `n` bytes: up to its first 0, if it
has one. -/
def wstr (n c : ℕ) (mem : List Byte) : List (BitVec (8 * n)) :=
  ((List.range c).map (leUnit n mem)).takeWhile (· ≠ 0)

/-- Two lists have the same string, where one ends, when they agree up to its
end, and only then. -/
theorem takeWhile_ne_eq_iff {β : Type*} [DecidableEq β] {z : β} :
    ∀ {xs ys : List β}, xs.length = ys.length →
    (ys.takeWhile (· ≠ z)).length < ys.length → (xs.takeWhile (· ≠ z) = ys.takeWhile (· ≠ z) ↔
      ∀ k ≤ (ys.takeWhile (· ≠ z)).length, xs[k]? = ys[k]?)
  | _, [], _, h => absurd h (Nat.not_lt_zero _)
  | x :: xs, y :: ys, hl, h => by
    by_cases hy : y = z
    · subst hy
      simp [List.takeWhile_cons]
    · have hy' : (y :: ys).takeWhile (· ≠ z) = y :: ys.takeWhile (· ≠ z) := by simp [hy]
      rw [hy'] at h ⊢
      have ih := takeWhile_ne_eq_iff (z := z) (Nat.succ.inj hl) (Nat.lt_of_succ_lt_succ h)
      have hx : (x :: xs).takeWhile (· ≠ z) = y :: ys.takeWhile (· ≠ z) ↔
          x = y ∧ xs.takeWhile (· ≠ z) = ys.takeWhile (· ≠ z) := by
        by_cases hx : x = z
        · simp [hx, Ne.symm hy]
        · simp [hx]
      rw [hx, ih]
      constructor
      · rintro ⟨rfl, hk⟩ (_ | k) hle
        · rfl
        · exact hk k (Nat.le_of_succ_le_succ hle)
      · intro hk
        exact ⟨Option.some.inj (hk 0 (Nat.zero_le _)), fun k hle => hk (k + 1) (Nat.succ_le_succ hle)⟩

section

variable {n c : ℕ} {src dst : List Byte}

/-- A copy shows in a unit where its bytes that were not copied are 0. -/
theorem leUnit_overlay_iff (k : ℕ) : leUnit n (overlay src dst) k = leUnit n src k ↔
    ∀ i, src.length ≤ i → n * k ≤ i → i < n * (k + 1) → dst.getD i 0 = 0 := by
  have hw : leUnit n src k = leWord (8 * n) (src.drop (n * k)) := by
    rw [leUnit, leWord, leWord, leNat_take, ← two_pow_eight_mul, ← BitVec.toNat_inj, BitVec.toNat_ofNat,
      BitVec.toNat_ofNat, Nat.mod_mod]
  rw [hw, leUnit, drop_overlay, leWord_overlay_iff, List.length_drop, Nat.mul_succ]
  simp only [List.getD_eq_getElem?_getD, List.getElem?_drop]
  constructor
  · intro h i h1 h2 h3
    have hi := h (i - n * k) (by omega) (by omega)
    rwa [Nat.add_sub_cancel' h2] at hi
  · intro h i h1 h2
    exact h (n * k + i) (by omega) (by omega) (by omega)

/-- The bytes that do not fill the copy start with a unit of 0. -/
theorem length_wstr_lt (h : src.length + n ≤ n * c) (hn : 0 < n) : (wstr n c src).length < c := by
  rcases c with _ | c
  · omega
  · have hlast : leUnit n src c = 0 := by
      rw [leUnit, List.drop_eq_nil_of_le (by rw [Nat.mul_succ] at h; omega), List.take_nil]
      rfl
    rw [wstr, List.range_succ, List.map_append, List.map_singleton, hlast, List.takeWhile_append]
    split
    · simp
    · have hle := (List.takeWhile_prefix (l := (List.range c).map (leUnit n src)) (· ≠ 0)).length_le
      rw [List.length_map, List.length_range] at hle
      omega

/-- The string at the start of a copy is the copied one exactly when the bytes
that were not copied, to the end of its 0, are 0. -/
theorem wstr_overlay_iff (h : src.length + n ≤ n * c) (hn : 0 < n) :
    wstr n c (overlay src dst) = wstr n c src ↔
    ∀ i, src.length ≤ i → i < n * ((wstr n c src).length + 1) → dst.getD i 0 = 0 := by
  have hlt := length_wstr_lt h hn
  have hiff : wstr n c (overlay src dst) = wstr n c src ↔
      ∀ k ≤ (wstr n c src).length, ((List.range c).map (leUnit n (overlay src dst)))[k]? =
        ((List.range c).map (leUnit n src))[k]? :=
    takeWhile_ne_eq_iff (by simp) (by simpa [wstr] using hlt)
  have hunit : ∀ {k : ℕ}, k ≤ (wstr n c src).length → (((List.range c).map (leUnit n (overlay src dst)))[k]? =
      ((List.range c).map (leUnit n src))[k]? ↔ leUnit n (overlay src dst) k = leUnit n src k) := by
    intro k hk
    rw [List.getElem?_map, List.getElem?_map, List.getElem?_range (by omega)]
    exact Option.some_inj
  refine hiff.trans ⟨fun hk i h1 h2 => ?_, fun hi k hk => ?_⟩
  · have hle : i / n ≤ (wstr n c src).length := Nat.le_of_lt_succ (Nat.div_lt_of_lt_mul h2)
    exact (leUnit_overlay_iff _).mp ((hunit hle).mp (hk _ hle)) i h1 (Nat.mul_div_le i n) (Nat.lt_mul_div_succ i hn)
  · refine (hunit hk).mpr ((leUnit_overlay_iff k).mpr fun i h1 _ h3 => hi i h1 ?_)
    exact h3.trans_le (Nat.mul_le_mul_left n (Nat.succ_le_succ hk))

end

end Bytes
