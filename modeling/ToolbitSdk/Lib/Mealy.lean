/-
# Machines with an output for each input

The runs of a deterministic step function that takes an input and gives an
output: the state after a list of inputs (`after`), the outputs and states
on the way (`trace`) and the inputs with their outputs (`log`). Where the
exact condition for a step to keep a property is known, so is that for a run
(`forall_after_iff`), and a simulation between two machines step by step is
one between their traces (`trace_simulate`).
-/
import Mathlib.Data.List.Forall2

namespace Mealy

variable {σ τ ι ο : Type*}

/-- The state after the inputs. -/
def after (step : σ → ι → ο × σ) (s : σ) (is : List ι) : σ := is.foldl (fun s i => (step s i).2) s

/-- The output and the state after each input. -/
def trace (step : σ → ι → ο × σ) : σ → List ι → List (ο × σ)
  | _, [] => []
  | s, i :: is => step s i :: trace step (step s i).2 is

/-- Each input with its output. -/
def log (step : σ → ι → ο × σ) : σ → List ι → List (ι × ο)
  | _, [] => []
  | s, i :: is => (i, (step s i).1) :: log step (step s i).2 is

/-- Every step of the run, from its state and with its input, meets `Q`. -/
def Along (step : σ → ι → ο × σ) (Q : σ → ι → Prop) : σ → List ι → Prop
  | _, [] => True
  | s, i :: is => Q s i ∧ Along step Q (step s i).2 is

instance decidableAlong (step : σ → ι → ο × σ) (Q : σ → ι → Prop) [∀ s i, Decidable (Q s i)] :
    ∀ s is, Decidable (Along step Q s is)
  | _, [] => .isTrue trivial
  | s, i :: is =>
    have := decidableAlong step Q (step s i).2 is
    inferInstanceAs (Decidable (Q s i ∧ Along step Q (step s i).2 is))

variable {step : σ → ι → ο × σ}

@[simp] theorem after_nil (s : σ) : after step s [] = s := rfl

@[simp] theorem after_cons (s : σ) (i : ι) (is : List ι) :
    after step s (i :: is) = after step (step s i).2 is := rfl

@[simp] theorem log_cons (s : σ) (i : ι) (is : List ι) :
    log step s (i :: is) = (i, (step s i).1) :: log step (step s i).2 is := rfl

/-- A fact about every prefix of a run is one about its start and one about
every prefix of the rest. -/
theorem forall_prefix_cons {P : List ι → Prop} {i : ι} {is : List ι} :
    (∀ pre, pre <+: i :: is → P pre) ↔ P [] ∧ ∀ pre, pre <+: is → P (i :: pre) := by
  constructor
  · exact fun h => ⟨h [] List.nil_prefix, fun pre hp => h (i :: pre) (List.cons_prefix_cons.mpr ⟨rfl, hp⟩)⟩
  · rintro ⟨h0, h1⟩ pre hp
    rcases List.prefix_cons_iff.mp hp with rfl | ⟨t, rfl, ht⟩
    · exact h0
    · exact h1 t ht

/-- What holds of every input holds along the run. -/
theorem along_of_forall {Q : ι → Prop} :
    ∀ {s : σ} (is : List ι), (∀ i ∈ is, Q i) → Along step (fun _ i => Q i) s is
  | _, [], _ => trivial
  | _, i :: is, h => ⟨h i List.mem_cons_self, along_of_forall is fun j hj => h j (List.mem_cons_of_mem i hj)⟩

/-- Two properties of a step that agree in every state agree along every
run. -/
theorem along_congr {Q Q' : σ → ι → Prop} (h : ∀ s i, Q s i ↔ Q' s i) :
    ∀ {s : σ} (is : List ι), Along step Q s is ↔ Along step Q' s is
  | _, [] => Iff.rfl
  | s, i :: is => and_congr (h s i) (along_congr h is)

/-- If `Q` is the exact condition for an allowed step to keep `P` where the
invariant `I` holds, then `P` holds at every point of a run of allowed steps
exactly when `Q` holds of each of them. -/
theorem forall_after_iff_of_inv {I P : σ → Prop} {Q ok : σ → ι → Prop} (hI : ∀ s i, I s → I (step s i).2)
    (h : ∀ s i, I s → P s → ok s i → (P (step s i).2 ↔ Q s i)) :
    ∀ {s : σ} (is : List ι), I s → P s → Along step ok s is →
      ((∀ pre, pre <+: is → P (after step s pre)) ↔ Along step Q s is)
  | s, [], _, hs, _ => iff_of_true (fun pre hp => by rw [List.prefix_nil.mp hp]; exact hs) trivial
  | s, i :: is, hi, hs, ⟨hoki, hok⟩ => by
    have hq := h s i hi hs hoki
    have rest := fun h0 => forall_after_iff_of_inv hI h is (hI s i hi) h0 hok
    rw [forall_prefix_cons, after_nil, and_iff_right hs, Along, ← hq]
    constructor
    · intro hr
      have h0 : P (step s i).2 := hr [] List.nil_prefix
      exact ⟨h0, (rest h0).mp hr⟩
    · rintro ⟨h0, hr⟩
      exact (rest h0).mpr hr

/-- The same without an invariant, and the steps allowed by their inputs. -/
theorem forall_after_iff {P : σ → Prop} {Q : σ → ι → Prop} {ok : ι → Prop}
    (h : ∀ s i, P s → ok i → (P (step s i).2 ↔ Q s i)) {s : σ} (is : List ι) (hs : P s)
    (hok : ∀ i ∈ is, ok i) : (∀ pre, pre <+: is → P (after step s pre)) ↔ Along step Q s is :=
  forall_after_iff_of_inv (I := fun _ => True) (fun _ _ _ => trivial) (fun s i _ => h s i) is trivial hs
    (along_of_forall is hok)

/-- Two machines that give the same outputs and stay related in each step do
so along every run. -/
theorem trace_simulate {step' : τ → ι → ο × τ} {R : σ → τ → Prop}
    (h : ∀ s t i, R s t → (step s i).1 = (step' t i).1 ∧ R (step s i).2 (step' t i).2) :
    ∀ {s : σ} {t : τ} (is : List ι), R s t →
      List.Forall₂ (fun a b => a.1 = b.1 ∧ R a.2 b.2) (trace step s is) (trace step' t is)
  | _, _, [], _ => .nil
  | s, t, i :: is, hR => .cons (h s t i hR) (trace_simulate h is (h s t i hR).2)

end Mealy
