/-
# A stream cut into windows

A stream is cut where the elements since the last cut are full for the first
time (`Cut`). An element more either fills the unfinished window
(`Cut.snoc_full`) or lengthens it (`Cut.snoc_open`).
-/
import Mathlib.Data.List.Basic

namespace Windows

variable {β : Type*} {full : List β → Prop}

/-- A window that is not full yet, and was not at any of its elements. -/
def Unfilled (full : List β → Prop) (w : List β) : Prop := ∀ v, v <+: w → v ≠ [] → ¬ full v

/-- A window that its last element fills. -/
structure Filled (full : List β → Prop) (w : List β) : Prop where
  ne : w ≠ []
  enough : full w
  first : Unfilled full w.dropLast

/-- The stream `xs` is the windows `bs` one after the other, then the
unfinished window `t`. -/
structure Cut (full : List β → Prop) (xs : List β) (bs : List (List β)) (t : List β) : Prop where
  join : bs.flatten ++ t = xs
  blocks : ∀ b ∈ bs, Filled full b
  tail : Unfilled full t

theorem Cut.nil : Cut full [] [] [] :=
  ⟨rfl, fun _ h => absurd h List.not_mem_nil, fun _ hv hne => absurd (List.prefix_nil.mp hv) hne⟩

section

variable {xs t : List β} {bs : List (List β)}

theorem Cut.snoc_full (h : Cut full xs bs t) {x : β} (hf : full (t ++ [x])) :
    Cut full (xs ++ [x]) (bs ++ [t ++ [x]]) [] where
  join := by rw [← h.join]; simp
  blocks b hb := by
    rcases List.mem_append.mp hb with hb | hb
    · exact h.blocks b hb
    · rw [List.mem_singleton.mp hb]
      exact ⟨by simp, hf, by rw [List.dropLast_concat]; exact h.tail⟩
  tail _ hv hne := absurd (List.prefix_nil.mp hv) hne

theorem Cut.snoc_open (h : Cut full xs bs t) {x : β} (hf : ¬ full (t ++ [x])) :
    Cut full (xs ++ [x]) bs (t ++ [x]) where
  join := by rw [← h.join, List.append_assoc]
  blocks := h.blocks
  tail v hv hne := by
    rcases List.prefix_concat_iff.mp hv with rfl | hv
    · exact hf
    · exact h.tail v hv hne

end

end Windows
