/-
# A text with brackets, seen from outside

A text of leaves and brackets (`Token`) read once with a counter: `outline`
keeps the leaves outside all brackets and a mark for each outermost pair, at
its closing bracket, and `level` is how many brackets stay open. A closing
bracket that nothing opened is passed over.

Inside brackets the counter passes over what is balanced, the text of a
`Forest` (`outline_tokens_append_succ`). Nothing stays open exactly if the
text is that of forests with the closing brackets that nothing opened between
them (`level_eq_zero_iff`), and then the outline is the roots of the forests
(`outline_text`).
-/
import Mathlib.Data.List.Basic

namespace Brackets

inductive Token (α : Type*) where
  | leaf (a : α)
  | opens
  | closes
  deriving DecidableEq, Repr

/-- What stands side by side: leaves, and pairs of brackets with a body. -/
inductive Forest (α : Type*) where
  | nil
  | leaf (a : α) (rest : Forest α)
  | node (body rest : Forest α)

variable {α : Type*}

def Forest.tokens : Forest α → List (Token α)
  | nil => []
  | leaf a rest => .leaf a :: rest.tokens
  | node body rest => .opens :: (body.tokens ++ .closes :: rest.tokens)

/-- The leaves that have no bracket around them, and a mark for each pair that
has none. -/
def Forest.roots : Forest α → List (Option α)
  | nil => []
  | leaf a rest => some a :: rest.roots
  | node _ rest => none :: rest.roots

/-- The outermost level of a text that is read with `n` brackets open. -/
def outline : ℕ → List (Token α) → List (Option α)
  | _, [] => []
  | 0, .leaf a :: ts => some a :: outline 0 ts
  | n + 1, .leaf _ :: ts => outline (n + 1) ts
  | n, .opens :: ts => outline (n + 1) ts
  | 0, .closes :: ts => outline 0 ts
  | 1, .closes :: ts => none :: outline 0 ts
  | n + 2, .closes :: ts => outline (n + 1) ts

/-- The brackets that are open after it. -/
def level : ℕ → List (Token α) → ℕ
  | n, [] => n
  | n, .leaf _ :: ts => level n ts
  | n, .opens :: ts => level (n + 1) ts
  | n, .closes :: ts => level (n - 1) ts

/-! ### What is balanced -/

section

variable (n : ℕ) (ts : List (Token α))

theorem outline_tokens_append_succ (f : Forest α) :
    outline (n + 1) (f.tokens ++ ts) = outline (n + 1) ts := by
  induction f generalizing n ts with
  | nil => rfl
  | leaf a rest ih => simpa only [Forest.tokens, List.cons_append, outline] using ih n ts
  | node body rest ihb ihr =>
    simp only [Forest.tokens, List.cons_append, List.append_assoc, outline]
    rw [ihb (n + 1), outline, ihr n ts]

theorem level_tokens_append (f : Forest α) : level n (f.tokens ++ ts) = level n ts := by
  induction f generalizing n ts with
  | nil => rfl
  | leaf a rest ih => simpa only [Forest.tokens, List.cons_append, level] using ih n ts
  | node body rest ihb ihr =>
    simp only [Forest.tokens, List.cons_append, List.append_assoc, level]
    rw [ihb (n + 1), level, Nat.add_sub_cancel, ihr n ts]

theorem outline_tokens_append (f : Forest α) :
    outline 0 (f.tokens ++ ts) = f.roots ++ outline 0 ts := by
  induction f generalizing ts with
  | nil => rfl
  | leaf a rest ih =>
    simpa only [Forest.tokens, Forest.roots, List.cons_append, outline, List.cons.injEq, true_and]
      using ih ts
  | node body rest _ ihr =>
    simp only [Forest.tokens, Forest.roots, List.cons_append, List.append_assoc, outline]
    rw [outline_tokens_append_succ, outline, ihr ts]

end

/-! ### What stays open -/

/-- Forests one after the other, each but the first with a closing bracket
before it that nothing opened. -/
def text (f : Forest α) (fs : List (Forest α)) : List (Token α) :=
  f.tokens ++ fs.flatMap fun g => .closes :: g.tokens

theorem outline_text (f : Forest α) (fs : List (Forest α)) :
    outline 0 (text f fs) = f.roots ++ fs.flatMap Forest.roots := by
  rw [text, outline_tokens_append]
  congr 1
  induction fs with
  | nil => rfl
  | cons g fs ih => rw [List.flatMap_cons, List.flatMap_cons, List.cons_append, outline,
      outline_tokens_append, ih]

theorem level_text (f : Forest α) (fs : List (Forest α)) : level 0 (text f fs) = 0 := by
  rw [text, level_tokens_append]
  induction fs with
  | nil => rfl
  | cons g fs ih =>
    rw [List.flatMap_cons, List.cons_append, level, level_tokens_append]
    exact ih

/-- A bracket that is closed again has a forest up to there. -/
theorem exists_tokens_closes (n : ℕ) (ts : List (Token α)) (h : level (n + 1) ts ≤ n) :
    ∃ (f : Forest α) (rest : List (Token α)), ts = f.tokens ++ .closes :: rest := by
  induction hk : ts.length using Nat.strongRecOn generalizing n ts with
  | _ k ih =>
    subst hk
    cases ts with
    | nil => exact absurd h (by simp [level])
    | cons t ts =>
      cases t with
      | leaf a =>
        obtain ⟨f, rest, rfl⟩ := ih _ (by simp) n ts h rfl
        exact ⟨.leaf a f, rest, rfl⟩
      | closes => exact ⟨.nil, ts, rfl⟩
      | opens =>
        -- the inner bracket closes first, and what follows is read one level further out
        obtain ⟨body, mid, rfl⟩ := ih _ (by simp) (n + 1) ts (by rw [level] at h; omega) rfl
        rw [level, level_tokens_append, level, Nat.add_sub_cancel] at h
        obtain ⟨f, rest, rfl⟩ := ih _ (by simp; omega) n mid h rfl
        exact ⟨.node body f, rest, by simp [Forest.tokens]⟩

theorem level_eq_zero_iff (ts : List (Token α)) :
    level 0 ts = 0 ↔ ∃ f fs, ts = text f fs := by
  refine ⟨fun h => ?_, ?_⟩
  · induction hk : ts.length using Nat.strongRecOn generalizing ts with
    | _ k ih =>
      subst hk
      cases ts with
      | nil => exact ⟨.nil, [], rfl⟩
      | cons t ts =>
        cases t with
        | leaf a =>
          obtain ⟨f, fs, rfl⟩ := ih _ (by simp) ts h rfl
          exact ⟨.leaf a f, fs, rfl⟩
        | closes =>
          obtain ⟨f, fs, rfl⟩ := ih _ (by simp) ts h rfl
          exact ⟨.nil, f :: fs, rfl⟩
        | opens =>
          rw [level] at h
          obtain ⟨body, rest, rfl⟩ := exists_tokens_closes 0 ts (by omega)
          rw [level_tokens_append, level] at h
          obtain ⟨f, fs, rfl⟩ := ih _ (by simp; omega) rest h rfl
          exact ⟨.node body f, fs, by simp [text, Forest.tokens]⟩
  · rintro ⟨f, fs, rfl⟩
    exact level_text f fs

end Brackets
