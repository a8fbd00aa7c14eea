/-
# Condition variables

A condition variable is the set of the threads that sleep on it. `calls` are
the threads in a call that waits for its condition; those of them that do not
sleep are awake, and each tests the condition before it sleeps again. The
condition is that there is a unit of something, and `k` counts the units.

`Covered c calls k` says that if some thread sleeps, as many are awake as
there are units. It is kept when one is notified for each unit that comes
(`Covered.notifyOne`), when a thread takes one and leaves (`Covered.leave`),
and whoever calls or wakes besides (`Covered.mono`). A thread goes to sleep
only where there is none (`covered_zero`). So nobody sleeps next to a unit
that no one is about to take (`Covered.exists_awake`).
-/
import Mathlib.Data.Set.Card

structure CondVar (ι : Type*) where
  asleep : Finset ι

namespace CondVar

variable {ι : Type*}

def awake (c : CondVar ι) (calls : Set ι) : Set ι := {t | t ∈ calls ∧ t ∉ c.asleep}

def Covered (c : CondVar ι) (calls : Set ι) (k : ℕ) : Prop :=
  c.asleep.Nonempty → (k : ℕ∞) ≤ (c.awake calls).encard

section

variable {c c' : CondVar ι} {calls calls' : Set ι} {k : ℕ} {t : ι}

theorem awake_mono (hc : c'.asleep ⊆ c.asleep) (h : calls ⊆ calls') :
    c.awake calls ⊆ c'.awake calls' :=
  fun _ hu => ⟨h hu.1, fun hs => hu.2 (hc hs)⟩

theorem awake_diff (c : CondVar ι) (calls : Set ι) (t : ι) :
    c.awake (calls \ {t}) = c.awake calls \ {t} :=
  Set.ext fun _ => and_right_comm

/-- More threads in calls, and fewer of them asleep. -/
theorem Covered.mono (hk : c.Covered calls k) (hc : c'.asleep ⊆ c.asleep) (h : calls ⊆ calls') :
    c'.Covered calls' k :=
  fun hne => (hk (hne.mono hc)).trans (Set.encard_le_encard (awake_mono hc h))

theorem covered_of_empty (h : c.asleep = ∅) : c.Covered calls k := fun hne => absurd h hne.ne_empty

theorem covered_zero (c : CondVar ι) (calls : Set ι) : c.Covered calls 0 := fun _ => by
  rw [Nat.cast_zero]
  exact zero_le

/-- A thread takes a unit and leaves. -/
theorem Covered.leave (hk : c.Covered calls (k + 1)) (ht : t ∈ c.awake calls) :
    c.Covered (calls \ {t}) k := by
  intro hne
  have h := hk hne
  rw [← Set.encard_sdiff_singleton_add_one ht, Nat.cast_succ] at h
  rw [awake_diff]
  exact (ENat.add_le_add_iff_right ENat.one_ne_top).mp h

/-- **No lost wake-up.** -/
theorem Covered.exists_awake (hk : c.Covered calls k) (ht : t ∈ c.asleep) (hpos : 0 < k) :
    ∃ u ≠ t, u ∈ c.awake calls := by
  have hpos' : (0 : ℕ∞) < k := by exact_mod_cast hpos
  have h : 0 < (c.awake calls).encard := hpos'.trans_le (hk ⟨t, ht⟩)
  obtain ⟨u, hu⟩ := Set.encard_pos.mp h
  exact ⟨u, fun he => hu.2 (he ▸ ht), hu⟩

end

def notifyAll (_ : CondVar ι) : CondVar ι := ⟨∅⟩

variable [DecidableEq ι]

def wait (c : CondVar ι) (t : ι) : CondVar ι := ⟨insert t c.asleep⟩

/-- Thread `t` wakes, notified or not. -/
def wake (c : CondVar ι) (t : ι) : CondVar ι := ⟨c.asleep.erase t⟩

/-- The thread that is woken is any that sleeps; `none` where there is none. -/
def notifyOne (c : CondVar ι) : Option ι → Option (CondVar ι)
  | some t => if t ∈ c.asleep then some (c.wake t) else none
  | none => if c.asleep = ∅ then some c else none

section

variable {c c' : CondVar ι} {calls : Set ι} {k : ℕ} {t : ι} {w : Option ι}

theorem exists_notifyOne (c : CondVar ι) : ∃ w c', c.notifyOne w = some c' := by
  rcases c.asleep.eq_empty_or_nonempty with h | ⟨t, ht⟩
  · exact ⟨none, c, if_pos h⟩
  · exact ⟨some t, c.wake t, if_pos ht⟩

theorem notifyOne_cases (h : c.notifyOne w = some c') :
    (c.asleep = ∅ ∧ c' = c) ∨ ∃ t ∈ c.asleep, c' = c.wake t := by
  cases w with
  | none =>
    rw [notifyOne, Option.ite_none_right_eq_some] at h
    exact .inl ⟨h.1, (Option.some.inj h.2).symm⟩
  | some t =>
    rw [notifyOne, Option.ite_none_right_eq_some] at h
    exact .inr ⟨t, h.1, (Option.some.inj h.2).symm⟩

theorem asleep_wake_subset (c : CondVar ι) (t : ι) : (c.wake t).asleep ⊆ c.asleep :=
  Finset.erase_subset t _

theorem asleep_notifyOne_subset (h : c.notifyOne w = some c') : c'.asleep ⊆ c.asleep := by
  rcases notifyOne_cases h with ⟨-, rfl⟩ | ⟨t, -, rfl⟩
  · exact Finset.Subset.refl _
  · exact c.asleep_wake_subset t

theorem awake_wake (ht : t ∈ calls) : (c.wake t).awake calls = insert t (c.awake calls) := by
  ext u
  by_cases hu : u = t
  · subst hu
    exact iff_of_true ⟨ht, Finset.notMem_erase u _⟩ (.inl rfl)
  · have hs : u ∈ (c.wake t).asleep ↔ u ∈ c.asleep := Finset.mem_erase.trans (and_iff_right hu)
    exact ⟨fun h => .inr ⟨h.1, fun hu' => h.2 (hs.mpr hu')⟩,
      fun h => ⟨(h.resolve_left hu).1, fun hu' => (h.resolve_left hu).2 (hs.mp hu')⟩⟩

/-- A unit comes, and one thread is notified of it. -/
theorem Covered.notifyOne (hk : c.Covered calls k) (hsub : ∀ u ∈ c.asleep, u ∈ calls)
    (h : c.notifyOne w = some c') : c'.Covered calls (k + 1) := by
  rcases notifyOne_cases h with ⟨hempty, rfl⟩ | ⟨t, ht, rfl⟩
  · exact covered_of_empty hempty
  · intro _
    have hnew : t ∉ c.awake calls := fun hu => hu.2 ht
    rw [awake_wake (hsub t ht), Set.encard_insert_of_notMem hnew, Nat.cast_succ]
    exact add_le_add_left (hk ⟨t, ht⟩) 1

end

end CondVar
