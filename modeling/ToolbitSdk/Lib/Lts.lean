/-
# Runs of a step function

A system is a step function `σ → α → Option σ`: `none` when the action is
not enabled in the state. `run` takes a list of actions, `Reach step ok s₀`
are the states reached from `s₀` by enabled actions that also meet `ok`
(what the environment promises, or the condition under which a result is
stated), and `Along step Q` holds of a list of actions whose transitions all
meet `Q`. An invariant is proved once per step (`Reach.inv`), a goal is
reached where a measure falls on the way (`exists_reach_of_measure`), and a
run that has been evaluated is a member of `Reach` (`reach_of_run`). Where a
state carries its history, that grows at its end (`forall_mem_concat`).
-/
import Mathlib.Data.List.Basic

namespace Lts

variable {σ α : Type*}

/-- The state after the actions, `none` when one of them is not enabled. -/
def run (step : σ → α → Option σ) : σ → List α → Option σ
  | s, [] => some s
  | s, a :: as => (step s a).bind fun s' => run step s' as

theorem run_concat (step : σ → α → Option σ) (a : α) :
    ∀ (s : σ) (as : List α), run step s (as ++ [a]) = (run step s as).bind fun t => step t a
  | s, [] => by
    rw [List.nil_append, run, run, Option.bind_some]
    cases step s a <;> rfl
  | s, b :: as => by
    rw [List.cons_append, run, run]
    cases step s b with
    | none => rfl
    | some t => exact run_concat step a t as

/-- The states reached from `s₀` by enabled actions that meet `ok`. -/
inductive Reach (step : σ → α → Option σ) (ok : σ → α → Prop) (s₀ : σ) : σ → Prop
  | refl : Reach step ok s₀ s₀
  | step {s s' : σ} (a : α) : Reach step ok s₀ s → ok s a → step s a = some s' → Reach step ok s₀ s'

/-- Every transition of the run of the actions, as far as they are enabled,
meets `Q`. -/
def Along (step : σ → α → Option σ) (Q : σ → α → σ → Prop) : σ → List α → Prop
  | _, [] => True
  | s, a :: as => ∀ s', step s a = some s' → Q s a s' ∧ Along step Q s' as

/-- An action that is not enabled ends the run. -/
theorem along_cons_of_none {step : σ → α → Option σ} {Q : σ → α → σ → Prop} {s : σ} {a : α} (as : List α)
    (h : step s a = none) : Along step Q s (a :: as) := by
  intro s' hs
  rw [h] at hs
  cases hs

theorem along_cons_iff {step : σ → α → Option σ} {Q : σ → α → σ → Prop} {s s' : σ} {a : α} (as : List α)
    (h : step s a = some s') : Along step Q s (a :: as) ↔ Q s a s' ∧ Along step Q s' as := by
  constructor
  · exact fun hal => hal s' h
  · intro hal t ht
    rw [h] at ht
    cases ht
    exact hal

instance decidableAlong (step : σ → α → Option σ) (Q : σ → α → σ → Prop) [∀ s a s', Decidable (Q s a s')] :
    ∀ s as, Decidable (Along step Q s as)
  | _, [] => .isTrue trivial
  | s, a :: as =>
    match h : step s a with
    | none => .isTrue (along_cons_of_none as h)
    | some s' =>
      have := decidableAlong step Q s' as
      decidable_of_iff _ (along_cons_iff as h).symm

/-- A step function that also refuses what `ok` does not allow. -/
def guard (step : σ → α → Option σ) (ok : σ → α → Prop) [∀ s a, Decidable (ok s a)] :
    σ → α → Option σ :=
  fun s a => if ok s a then step s a else none

section

variable {step : σ → α → Option σ} {ok : σ → α → Prop} {s₀ : σ}

/-- What holds at the start and is kept by every allowed step holds of every
state reached. -/
theorem Reach.inv {I : σ → Prop} (h0 : I s₀)
    (hstep : ∀ s a s', I s → ok s a → step s a = some s' → I s') {s : σ}
    (h : Reach step ok s₀ s) : I s := by
  induction h with
  | refl => exact h0
  | step a _ ha hs ih => exact hstep _ a _ ih ha hs

/-- What allows fewer steps, in the states it reaches, reaches fewer states. -/
theorem Reach.mono_of_reach {ok' : σ → α → Prop}
    (hok : ∀ s a, Reach step ok s₀ s → ok s a → ok' s a) {s : σ} (h : Reach step ok s₀ s) :
    Reach step ok' s₀ s := by
  induction h with
  | refl => exact .refl
  | step a hr ha hs ih => exact .step a ih (hok _ a hr ha) hs

theorem Reach.trans {s s' : σ} (h : Reach step ok s₀ s) (h' : Reach step ok s s') :
    Reach step ok s₀ s' := by
  induction h' with
  | refl => exact h
  | step a _ ha hs ih => exact .step a ih ha hs

/-- Where every state outside `G` has an allowed step that keeps `I` and
lowers a measure, a state of `G` is reached. -/
theorem exists_reach_of_measure {I G : σ → Prop} (μ : σ → ℕ)
    (hstep : ∀ s, I s → ¬ G s → ∃ a s', ok s a ∧ step s a = some s' ∧ I s' ∧ μ s' < μ s) {s : σ}
    (h : I s) : ∃ s', Reach step ok s s' ∧ I s' ∧ G s' := by
  induction hn : μ s using Nat.strongRecOn generalizing s with
  | _ n ih =>
    by_cases hg : G s
    · exact ⟨s, .refl, h, hg⟩
    · obtain ⟨a, s₁, ha, hs, h₁, hlt⟩ := hstep s h hg
      obtain ⟨s', hr, hi, hg'⟩ := ih (μ s₁) (hn ▸ hlt) h₁ rfl
      have hone : Reach step ok s s₁ := .step a .refl ha hs
      exact ⟨s', hone.trans hr, hi, hg'⟩

/-- Two properties of a transition that agree on every step agree along every
run. -/
theorem along_congr {Q Q' : σ → α → σ → Prop}
    (h : ∀ s a s', step s a = some s' → (Q s a s' ↔ Q' s a s')) :
    ∀ {s : σ} (as : List α), Along step Q s as ↔ Along step Q' s as
  | _, [] => Iff.rfl
  | _, a :: as => forall_congr' fun _ => forall_congr' fun hs => and_congr (h _ a _ hs) (along_congr h as)

/-- Two step functions that agree where an invariant holds have the same
runs. -/
theorem run_eq_of_inv {step' : σ → α → Option σ} {I : σ → Prop}
    (hI : ∀ s a s', I s → step s a = some s' → I s') (h : ∀ s a, I s → step' s a = step s a) :
    ∀ {s : σ} (as : List α), I s → run step' s as = run step s as
  | _, [], _ => rfl
  | s, a :: as, hs => by
    rw [run, run, h s a hs]
    cases hr : step s a with
    | none => rfl
    | some s' => exact run_eq_of_inv hI h as (hI s a s' hs hr)

/-- Where every allowed step that keeps `P` is one that meets `Q`, and no
step restores `P`, a run ends in `P` exactly when it meets `Q` all along. -/
theorem run_iff_along {I P : σ → Prop} {Q : σ → α → σ → Prop} {ok : α → Prop}
    (hI : ∀ s a s', I s → ok a → step s a = some s' → I s')
    (h : ∀ s a s', I s → ok a → step s a = some s' → (P s' ↔ P s ∧ Q s a s')) :
    ∀ {s t : σ} (as : List α), I s → (∀ a ∈ as, ok a) → run step s as = some t →
      (P t ↔ P s ∧ Along step Q s as)
  | s, t, [], _, _, hr => by
    cases hr
    exact (and_iff_left trivial).symm
  | s, t, a :: as, hi, hok, hr => by
    obtain ⟨s', hs, hr⟩ := Option.bind_eq_some_iff.mp hr
    have ha := hok a List.mem_cons_self
    have hrest := run_iff_along hI h as (hI s a s' hi ha hs) (fun b hb => hok b (List.mem_cons_of_mem a hb)) hr
    rw [hrest, h s a s' hi ha hs, and_assoc, along_cons_iff as hs]

/-- A property met along a run is met by the step that ends it. -/
theorem Along.last {Q : σ → α → σ → Prop} {a : α} {t t' : σ} (ht : step t a = some t') :
    ∀ {as : List α} {s : σ}, Along step Q s (as ++ [a]) → run step s as = some t → Q t a t'
  | [], _, h, hr => by
    cases hr
    exact (h t' ht).1
  | b :: as, s, h, hr => by
    obtain ⟨s₁, hs, hr⟩ := Option.bind_eq_some_iff.mp hr
    exact Along.last ht (h s₁ hs).2 hr

/-- A run of the guarded system reaches its last state. -/
theorem reach_of_run [∀ s a, Decidable (ok s a)] :
    ∀ {as : List α} {s : σ}, run (guard step ok) s₀ as = some s → Reach step ok s₀ s := by
  intro as
  induction as generalizing s₀ with
  | nil =>
    intro s h
    cases h
    exact .refl
  | cons a as ih =>
    intro s h
    simp only [run, Option.bind_eq_some_iff] at h
    obtain ⟨t, ht, hr⟩ := h
    unfold guard at ht
    split at ht
    · rename_i hok
      exact (Reach.step a .refl hok ht).trans (ih hr)
    · cases ht

/-- A property of the last state of an evaluated run is met by a state that
is reached. -/
theorem exists_reach_of_run (step : σ → α → Option σ) (ok : σ → α → Prop)
    [∀ s a, Decidable (ok s a)] (s₀ : σ) (as : List α) (p : σ → Bool)
    (h : (run (guard step ok) s₀ as).any p = true) : ∃ s, Reach step ok s₀ s ∧ p s = true := by
  cases hr : run (guard step ok) s₀ as with
  | none => rw [hr] at h; cases h
  | some s => rw [hr] at h; exact ⟨s, reach_of_run hr, h⟩

end

/-- What holds of every entry of a history, and of a new one, holds of every
entry after it. -/
theorem forall_mem_concat {P : α → Prop} {l : List α} {a : α} (hl : ∀ x ∈ l, P x) (ha : P a) :
    ∀ x ∈ l ++ [a], P x := by
  intro x hx
  rcases List.mem_append.mp hx with hx | hx
  · exact hl x hx
  · rw [List.mem_singleton.mp hx]
    exact ha

end Lts
