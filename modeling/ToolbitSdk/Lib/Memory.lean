/-
# Memory by addresses

A memory is a function of the address. `poke` carries out a list of writes,
`span` is the writes of a run of cells from an address on, what `memcpy` and
an assignment do, and `window` is the cells from an address on. Writes
elsewhere do not show (`poke_frame`, `window_poke_frame`), and a span shows in
a window that begins with it as an `overlay` (`window_poke_span`).
-/
import ToolbitSdk.Lib.Bytes

namespace Memory

variable {β : Type*}

/-- The memory after the writes, in order. -/
def poke (m : ℕ → β) (ws : List (ℕ × β)) : ℕ → β := ws.foldl (fun m w => Function.update m w.1 w.2) m

/-- The writes of `bs` from address `i` on. -/
def span (i : ℕ) : List β → List (ℕ × β)
  | [] => []
  | b :: bs => (i, b) :: span (i + 1) bs

/-- The `n` cells from address `i` on. -/
def window (m : ℕ → β) (i n : ℕ) : List β := (List.range n).map fun k => m (i + k)

@[simp] theorem poke_nil (m : ℕ → β) : poke m [] = m := rfl

@[simp] theorem poke_cons (m : ℕ → β) (w : ℕ × β) (ws : List (ℕ × β)) :
    poke m (w :: ws) = poke (Function.update m w.1 w.2) ws := rfl

@[simp] theorem length_window (m : ℕ → β) (i n : ℕ) : (window m i n).length = n := by
  rw [window, List.length_map, List.length_range]

theorem getElem?_window (m : ℕ → β) (i n k : ℕ) :
    (window m i n)[k]? = if k < n then some (m (i + k)) else none := by
  rw [window, List.getElem?_map]
  by_cases h : k < n
  · rw [List.getElem?_range h, if_pos h]
    rfl
  · rw [List.getElem?_eq_none (by rw [List.length_range]; omega), if_neg h]
    rfl

theorem take_window (m : ℕ → β) (i : ℕ) {n k : ℕ} (h : k ≤ n) :
    (window m i n).take k = window m i k := by
  rw [window, ← List.map_take, List.take_range, Nat.min_eq_left h]
  rfl

theorem drop_window (m : ℕ → β) (i n k : ℕ) : (window m i n).drop k = window m (i + k) (n - k) := by
  refine List.ext_getElem? fun j => ?_
  rw [List.getElem?_drop, getElem?_window, getElem?_window, Nat.add_assoc]
  by_cases h : k + j < n
  · rw [if_pos h, if_pos (by omega)]
  · rw [if_neg h, if_neg (by omega)]

/-- A span writes at its own addresses. -/
theorem fst_span {i : ℕ} : ∀ {bs : List β} {w : ℕ × β}, w ∈ span i bs → i ≤ w.1 ∧ w.1 < i + bs.length
  | b :: bs, w, h => by
    rw [span, List.mem_cons] at h
    rw [List.length_cons]
    rcases h with rfl | h
    · exact ⟨le_refl i, by omega⟩
    · have hw := fst_span h
      omega

theorem mem_span {i k : ℕ} {b : β} : ∀ {bs : List β}, bs[k]? = some b → (i + k, b) ∈ span i bs := by
  intro bs
  induction bs generalizing i k with
  | nil => intro h; cases h
  | cons c bs ih =>
    intro h
    rcases k with _ | k
    · cases h
      exact List.mem_cons_self
    · have hk := ih (i := i + 1) (show bs[k]? = some b from h)
      rw [Nat.add_assoc, Nat.add_comm 1] at hk
      exact List.mem_cons_of_mem _ hk

/-- A span is below an address exactly when its end is. -/
theorem span_lt_iff (i n : ℕ) (b : β) (bs : List β) :
    (∀ w ∈ span i (b :: bs), w.1 < n) ↔ i + bs.length < n := by
  constructor
  · intro h
    have hlast : (b :: bs)[bs.length]? = some ((b :: bs).get ⟨bs.length, by simp⟩) := List.getElem?_eq_getElem _
    exact h _ (mem_span hlast)
  · intro h w hw
    have hw' := (fst_span hw).2
    rw [List.length_cons] at hw'
    omega

/-- Writes elsewhere leave a cell as it is. -/
theorem poke_frame (m : ℕ → β) {ws : List (ℕ × β)} {j : ℕ} (h : ∀ w ∈ ws, w.1 ≠ j) :
    poke m ws j = m j := by
  induction ws generalizing m with
  | nil => rfl
  | cons w ws ih =>
    rw [poke_cons, ih _ fun w' hw => h w' (List.mem_cons_of_mem w hw),
      Function.update_of_ne (h w List.mem_cons_self).symm]

theorem poke_span_frame (m : ℕ → β) (i : ℕ) (bs : List β) {j : ℕ} (h : j < i ∨ i + bs.length ≤ j) :
    poke m (span i bs) j = m j := by
  refine poke_frame m fun w hw he => ?_
  have hw' := fst_span hw
  omega

theorem window_poke_frame (m : ℕ → β) {ws : List (ℕ × β)} {i n : ℕ} (h : ∀ w ∈ ws, w.1 < i ∨ i + n ≤ w.1) :
    window (poke m ws) i n = window m i n := by
  refine List.map_congr_left fun k hk => poke_frame m fun w hw he => ?_
  have hk' := List.mem_range.mp hk
  have hw' := h w hw
  omega

/-- Each cell of a span holds what was written. -/
theorem poke_span (m : ℕ → β) : ∀ (i : ℕ) (bs : List β) (k : ℕ),
    poke m (span i bs) (i + k) = bs[k]?.getD (m (i + k))
  | _, [], _ => rfl
  | i, b :: bs, k => by
    rw [span, poke_cons]
    rcases k with _ | k
    · rw [poke_span_frame _ _ _ (.inl (by omega)), Nat.add_zero, Function.update_self]
      rfl
    · have ih := poke_span (Function.update m i b) (i + 1) bs k
      rw [Nat.add_assoc, Nat.add_comm 1] at ih
      rw [ih, Function.update_of_ne (by omega)]
      rfl

/-- One cell of a window. -/
theorem window_update (m : ℕ → β) (i k n : ℕ) (b : β) :
    window (Function.update m (i + k) b) i n = (window m i n).set k b := by
  refine List.ext_getElem? fun j => ?_
  rw [getElem?_window, List.getElem?_set, getElem?_window, length_window]
  by_cases hj : k = j
  · rw [if_pos hj, hj, Function.update_self]
  · rw [if_neg hj, Function.update_of_ne (by omega)]

/-- A span at the start of a window. -/
theorem window_poke_span (m : ℕ → β) (i : ℕ) {bs : List β} {n : ℕ} (h : bs.length ≤ n) :
    window (poke m (span i bs)) i n = Bytes.overlay bs (window m i n) := by
  refine List.ext_getElem? fun k => ?_
  rw [getElem?_window, poke_span, Bytes.overlay, List.getElem?_append]
  by_cases hk : k < bs.length
  · rw [if_pos hk, if_pos (by omega), List.getElem?_eq_getElem hk]
    rfl
  · rw [if_neg hk, List.getElem?_drop, Nat.add_sub_cancel' (by omega), getElem?_window,
      List.getElem?_eq_none (by omega)]
    rfl

end Memory
