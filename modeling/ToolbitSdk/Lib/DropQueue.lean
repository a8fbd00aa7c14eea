/-
# A queue that drops the oldest

A queue of at most `N` elements: where one comes that finds `N`, the oldest
is dropped. Over a run of what comes and what is taken (`Event`), what was
taken and then waits came in this order, each at most once
(`outputs_append_rest_sublist`), and one element is lost for each that found
the queue full (`length_outputs_add`).
-/
import Mathlib.Data.List.Basic
import Mathlib.Data.List.ReduceOption
import Mathlib.Data.List.Infix

namespace DropQueue

open scoped List

variable {α : Type*}

inductive Event (α : Type*) where
  | came (x : α)
  | taken

section

variable (N : ℕ)

def push (q : List α) (x : α) : List α := if q.length < N then q ++ [x] else (q ++ [x]).tail

/-- What each `taken` gets. -/
def outputs : List α → List (Event α) → List (Option α)
  | _, [] => []
  | q, .came x :: es => outputs (push N q x) es
  | q, .taken :: es => q.head? :: outputs q.tail es

/-- What waits in the end. -/
def rest : List α → List (Event α) → List α
  | q, [] => q
  | q, .came x :: es => rest (push N q x) es
  | q, .taken :: es => rest q.tail es

/-- How many find the queue full. -/
def overflows : List α → List (Event α) → ℕ
  | _, [] => 0
  | q, .came x :: es => (if q.length < N then 0 else 1) + overflows (push N q x) es
  | q, .taken :: es => overflows q.tail es

end

def arrivals : List (Event α) → List α
  | [] => []
  | .came x :: es => x :: arrivals es
  | .taken :: es => arrivals es

section

variable {N : ℕ} {q : List α}

theorem push_sublist (q : List α) (x : α) : push N q x <+ q ++ [x] := by
  unfold push
  split
  · exact .refl _
  · exact List.tail_sublist _

theorem length_push_le (hN : 0 < N) (h : q.length ≤ N) (x : α) : (push N q x).length ≤ N := by
  unfold push
  split
  · rw [List.length_append, List.length_singleton]
    omega
  · rw [List.length_tail, List.length_append, List.length_singleton]
    omega

/-- One is lost if the queue was full. -/
theorem length_push_add (q : List α) (x : α) :
    (push N q x).length + (if q.length < N then 0 else 1) = q.length + 1 := by
  unfold push
  split
  · simp
  · rw [List.length_tail, List.length_append, List.length_singleton]
    omega

/-- What was taken and then waits came in this order. -/
theorem outputs_append_rest_sublist (q : List α) (es : List (Event α)) :
    (outputs N q es).reduceOption ++ rest N q es <+ q ++ arrivals es := by
  induction es generalizing q with
  | nil => simp [outputs, rest, arrivals]
  | cons e es ih =>
    cases e with
    | came x =>
      have happ : q ++ arrivals (.came x :: es) = (q ++ [x]) ++ arrivals es := by simp [arrivals]
      rw [happ]
      exact (ih (push N q x)).trans ((push_sublist q x).append_right _)
    | taken =>
      cases q with
      | nil => exact ih []
      | cons a q => exact (ih q).cons_cons a

theorem length_rest_le (hN : 0 < N) (h : q.length ≤ N) (es : List (Event α)) :
    (rest N q es).length ≤ N := by
  induction es generalizing q with
  | nil => exact h
  | cons e es ih =>
    cases e with
    | came x => exact ih (length_push_le hN h x)
    | taken => exact ih (by rw [List.length_tail]; omega)

/-- Each that found the queue full has cost one. -/
theorem length_outputs_add (q : List α) (es : List (Event α)) :
    ((outputs N q es).reduceOption ++ rest N q es).length + overflows N q es = (q ++ arrivals es).length := by
  induction es generalizing q with
  | nil => simp [outputs, rest, arrivals, overflows]
  | cons e es ih =>
    cases e with
    | came x =>
      have hpush := length_push_add (N := N) q x
      have hrec := ih (push N q x)
      simp only [outputs, rest, arrivals, overflows, List.length_append, List.length_cons] at hrec ⊢
      omega
    | taken =>
      have hrec := ih q.tail
      cases q with
      | nil => exact hrec
      | cons a q =>
        simp only [outputs, rest, arrivals, overflows, List.head?_cons, List.tail_cons, List.reduceOption_cons_of_some,
          List.length_append, List.length_cons] at hrec ⊢
        omega

end

end DropQueue
