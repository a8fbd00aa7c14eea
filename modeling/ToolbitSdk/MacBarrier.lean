/-
# The barrier of mac/hid.c

`pthread_barrier_wait` of `src/hidapi/mac/hid.c`, which counts the threads
that have come and resets the count for the last of them. A thread looks at
the count only with the mutex, and lets go of it when it sleeps or leaves, so
what it does in between is one step; the notification comes after the mutex
has been let go of, and is a step of its own.

The count alone does not say which round it counts: a thread that waits goes
on when it finds 0, and whoever enters again before it looks hides the 0 from
it. `hid.c` uses each of its two barriers for one round, and for one round of
all the threads it is a barrier (`PthreadBarrier.barrier_correct`).
-/
import ToolbitSdk.Lib.CondVar
import ToolbitSdk.Lib.Lts
import Mathlib.Algebra.Order.BigOperators.Group.Finset
import Mathlib.Logic.Function.Basic

namespace ToolbitSdk

/-- Where a thread is: it has not entered, it waits for the count, it was the
last and has not notified the others, or it has returned. -/
inductive BarrierPhase
  | outside
  | waiting
  | tripped
  | returned (ret : Bool)
  deriving DecidableEq

def BarrierPhase.hasReturned : BarrierPhase → Bool
  | returned _ => true
  | _ => false

/-- The steps a thread has left: to enter and to return. -/
def BarrierPhase.left : BarrierPhase → ℕ
  | outside => 2
  | waiting => 1
  | tripped => 1
  | returned _ => 0

/-- `pthread_barrier_t` and the threads `ι` that use it. -/
structure PthreadBarrier (ι : Type*) where
  cond : CondVar ι
  count : ℕ
  trip_count : ℕ
  phase : ι → BarrierPhase

/-- A thread enters, notifies the others, wakes, notified or not, or looks at
the count again. -/
inductive BarrierAct
  | enter
  | broadcast
  | wake
  | test
  deriving DecidableEq

namespace PthreadBarrier

variable {ι : Type*} [DecidableEq ι]

/-- `pthread_barrier_init`. -/
def init (ι : Type*) (trip_count : ℕ) : PthreadBarrier ι := ⟨⟨∅⟩, 0, trip_count, fun _ => .outside⟩

def goto (b : PthreadBarrier ι) (t : ι) (p : BarrierPhase) : PthreadBarrier ι :=
  { b with phase := Function.update b.phase t p }

/-- `++count`, and the branch it takes. -/
def doEnter (b : PthreadBarrier ι) (t : ι) : PthreadBarrier ι :=
  if b.count + 1 ≥ b.trip_count then { b.goto t .tripped with count := 0 }
  else { b.goto t .waiting with count := b.count + 1, cond := b.cond.wait t }

/-- The test of the loop. -/
def doTest (b : PthreadBarrier ι) (t : ι) : PthreadBarrier ι :=
  if b.count ≠ 0 then { b with cond := b.cond.wait t } else b.goto t (.returned false)

def step (b : PthreadBarrier ι) : ι × BarrierAct → Option (PthreadBarrier ι)
  | (t, .enter) =>
    match b.phase t with
    | .outside => some (b.doEnter t)
    | .returned _ => some (b.doEnter t)
    | _ => none
  | (t, .broadcast) =>
    match b.phase t with
    | .tripped => some { b.goto t (.returned true) with cond := b.cond.notifyAll }
    | _ => none
  | (t, .wake) => if t ∈ b.cond.asleep then some { b with cond := b.cond.wake t } else none
  | (t, .test) =>
    match b.phase t with
    | .waiting => if t ∈ b.cond.asleep then none else some (b.doTest t)
    | _ => none

/-- Nobody enters twice. -/
def Once (b : PthreadBarrier ι) : ι × BarrierAct → Prop
  | (t, .enter) => b.phase t = .outside
  | _ => True

instance (b : PthreadBarrier ι) : DecidablePred b.Once
  | (t, .enter) => inferInstanceAs (Decidable (b.phase t = .outside))
  | (_, .broadcast) | (_, .wake) | (_, .test) => .isTrue trivial

/-- The threads inside go on, none of them wakes of itself. -/
def Inside (_ : PthreadBarrier ι) (a : ι × BarrierAct) : Prop := a.2 = .broadcast ∨ a.2 = .test

theorem goto_phase (b : PthreadBarrier ι) (t : ι) (p : BarrierPhase) : (b.goto t p).phase t = p :=
  Function.update_self _ _ _

theorem goto_phase_ne (b : PthreadBarrier ι) {t u : ι} (p : BarrierPhase) (h : u ≠ t) :
    (b.goto t p).phase u = b.phase u :=
  Function.update_of_ne h _ _

/-! ### One round -/

section

variable {ι : Type*} [Fintype ι]

def waiters (b : PthreadBarrier ι) : Finset ι := Finset.univ.filter fun t => b.phase t = .waiting

theorem mem_waiters {b : PthreadBarrier ι} {t : ι} : t ∈ b.waiters ↔ b.phase t = .waiting := by
  rw [waiters, Finset.mem_filter, and_iff_right (Finset.mem_univ t)]

/-- Some thread has not come, and the count is that of those that have. -/
structure Gathering (b : PthreadBarrier ι) : Prop where
  phases : ∀ t, b.phase t = .outside ∨ b.phase t = .waiting
  count : b.count = b.waiters.card
  few : b.count < b.trip_count
  asleep : ∀ t ∈ b.cond.asleep, b.phase t = .waiting

theorem Gathering.of_asleep {b : PthreadBarrier ι} (h : Gathering b) {cond : CondVar ι}
    (ha : ∀ t ∈ cond.asleep, b.phase t = .waiting) : Gathering { b with cond } :=
  ⟨h.phases, h.count, h.few, ha⟩

/-- A thread that waits is counted. -/
theorem Gathering.count_ne_zero {b : PthreadBarrier ι} (h : Gathering b) {t : ι} (ht : b.phase t = .waiting) :
    b.count ≠ 0 := by
  rw [h.count]
  exact Finset.card_ne_zero_of_mem (mem_waiters.mpr ht)

/-- All have come; one was the last, and who sleeps has its notification still
to come. -/
structure Released (b : PthreadBarrier ι) : Prop where
  count : b.count = 0
  inside : ∀ t, b.phase t ≠ .outside
  last : ∃ t, (b.phase t = .tripped ∨ b.phase t = .returned true) ∧
    ∀ u, u ≠ t → b.phase u = .waiting ∨ b.phase u = .returned false
  asleep : ∀ t ∈ b.cond.asleep, b.phase t = .waiting
  notified : b.cond.asleep.Nonempty → ∃ t, b.phase t = .tripped

/-- One round of all the threads. -/
structure Round (b : PthreadBarrier ι) : Prop where
  all : b.trip_count = Fintype.card ι
  stage : Gathering b ∨ Released b

theorem round_init [Nonempty ι] : Round (init ι (Fintype.card ι)) where
  all := rfl
  stage := .inl {
    phases := fun _ => .inl rfl
    count := (Finset.card_eq_zero.mpr (Finset.filter_eq_empty_iff.mpr fun _ _ h => by cases h)).symm
    few := Fintype.card_pos
    asleep := fun _ h => absurd h (Finset.notMem_empty _) }

/-- Who has returned found all the others inside. -/
theorem Round.inside {b : PthreadBarrier ι} (h : Round b) {t : ι} (ht : (b.phase t).hasReturned = true) :
    ∀ u, b.phase u ≠ .outside := by
  refine (h.stage.resolve_left fun hg => ?_).inside
  rcases hg.phases t with hp | hp <;> (rw [hp] at ht; cases ht)

/-- When none is outside the last has come. -/
theorem Round.released {b : PthreadBarrier ι} (h : Round b) (hall : ∀ u, b.phase u ≠ .outside) :
    Released b := by
  refine h.stage.resolve_left fun hg => ?_
  have hwait : b.waiters = Finset.univ :=
    Finset.eq_univ_iff_forall.mpr fun t => mem_waiters.mpr ((hg.phases t).resolve_left (hall t))
  have hfew := hg.few
  rw [hg.count, hwait, Finset.card_univ, h.all] at hfew
  exact lt_irrefl _ hfew

end

theorem Released.of_asleep {ι : Type*} {b : PthreadBarrier ι} (h : Released b) {cond : CondVar ι}
    (hc : cond.asleep ⊆ b.cond.asleep) : Released { b with cond } :=
  ⟨h.count, h.inside, h.last, fun t ht => h.asleep t (hc ht), fun hne => h.notified (hne.mono hc)⟩

/-- The last thread notifies the others. -/
theorem Released.broadcasts {b : PthreadBarrier ι} (h : Released b) {t : ι} (ht : b.phase t = .tripped) :
    Released { b.goto t (.returned true) with cond := b.cond.notifyAll } := by
  obtain ⟨l, hl, hothers⟩ := h.last
  have htl : t = l := by
    by_contra hne
    rcases hothers t hne with hw | hw <;> exact absurd (ht.symm.trans hw) (by decide)
  subst htl
  have hself := b.goto_phase t (.returned true)
  refine ⟨h.count, fun u hu => ?_, ⟨t, .inr hself, fun u hu => ?_⟩, fun u hu => absurd hu (Finset.notMem_empty u),
    fun hne => absurd hne Finset.not_nonempty_empty⟩
  · by_cases hne : u = t
    · subst hne
      exact absurd (hself.symm.trans hu) (by decide)
    · exact h.inside u ((b.goto_phase_ne _ hne).symm.trans hu)
  · show (b.goto t (.returned true)).phase u = _ ∨ (b.goto t (.returned true)).phase u = _
    rw [b.goto_phase_ne _ hu]
    exact hothers u hu

/-- A thread that looks finds 0, and leaves. -/
theorem Released.leaves {b : PthreadBarrier ι} (h : Released b) {t : ι} (ht : b.phase t = .waiting)
    (ha : t ∉ b.cond.asleep) : Released (b.goto t (.returned false)) := by
  obtain ⟨l, hl, hothers⟩ := h.last
  have hne : l ≠ t := by
    rintro rfl
    rcases hl with hl | hl <;> exact absurd (ht.symm.trans hl) (by decide)
  have hself := b.goto_phase t (.returned false)
  refine ⟨h.count, fun u hu => ?_, ⟨l, ?_, fun u hu => ?_⟩, fun u hu => ?_, fun hn => ?_⟩
  · by_cases hut : u = t
    · subst hut
      exact absurd (hself.symm.trans hu) (by decide)
    · exact h.inside u ((b.goto_phase_ne _ hut).symm.trans hu)
  · rw [b.goto_phase_ne _ hne]
    exact hl
  · by_cases hut : u = t
    · subst hut
      exact .inr hself
    · rw [b.goto_phase_ne _ hut]
      exact hothers u hu
  · have hut : u ≠ t := fun he => ha (he ▸ hu)
    exact (b.goto_phase_ne _ hut).trans (h.asleep u hu)
  · obtain ⟨u, hu⟩ := h.notified hn
    have hut : u ≠ t := by
      rintro rfl
      exact absurd (ht.symm.trans hu) (by decide)
    exact ⟨u, (b.goto_phase_ne _ hut).trans hu⟩

variable [Fintype ι]

/-- The last thread has found all the others waiting. -/
theorem Gathering.others_wait {b : PthreadBarrier ι} (h : Gathering b) (hall : b.trip_count = Fintype.card ι)
    {t : ι} (ht : b.phase t = .outside) (hlast : b.count + 1 ≥ b.trip_count) :
    ∀ u, u ≠ t → b.phase u = .waiting := by
  have hsub : b.waiters ⊆ Finset.univ.erase t := fun u hu => by
    refine Finset.mem_erase.mpr ⟨?_, Finset.mem_univ u⟩
    rintro rfl
    rw [mem_waiters, ht] at hu
    cases hu
  have hcard : (Finset.univ.erase t).card ≤ b.waiters.card := by
    rw [Finset.card_erase_of_mem (Finset.mem_univ t), Finset.card_univ, ← hall, ← h.count]
    omega
  intro u hu
  rw [← mem_waiters, Finset.eq_of_subset_of_card_le hsub hcard]
  exact Finset.mem_erase.mpr ⟨hu, Finset.mem_univ u⟩

theorem Gathering.trips {b : PthreadBarrier ι} (h : Gathering b) (hall : b.trip_count = Fintype.card ι)
    {t : ι} (ht : b.phase t = .outside) (hlast : b.count + 1 ≥ b.trip_count) :
    Released { b.goto t .tripped with count := 0 } := by
  have hothers := h.others_wait hall ht hlast
  have hphase : ∀ u, u ≠ t → (b.goto t .tripped).phase u = .waiting := fun u hu => by
    rw [b.goto_phase_ne _ hu]
    exact hothers u hu
  have hself := b.goto_phase t .tripped
  refine ⟨rfl, fun u hu => ?_, ⟨t, .inl hself, fun u hu => .inl (hphase u hu)⟩, fun u hu => ?_,
    fun _ => ⟨t, hself⟩⟩
  · by_cases hne : u = t
    · subst hne
      exact absurd (hself.symm.trans hu) (by decide)
    · exact absurd ((hphase u hne).symm.trans hu) (by decide)
  · refine hphase u ?_
    rintro rfl
    exact absurd (ht.symm.trans (h.asleep u hu)) (by decide)

theorem Gathering.waits {b : PthreadBarrier ι} (h : Gathering b) {t : ι} (ht : b.phase t = .outside)
    (hmore : ¬ b.count + 1 ≥ b.trip_count) :
    Gathering { b.goto t .waiting with count := b.count + 1, cond := b.cond.wait t } := by
  have hself := b.goto_phase t .waiting
  have hnew : t ∉ b.waiters := fun hm => absurd (ht.symm.trans (mem_waiters.mp hm)) (by decide)
  have hwaiters : (b.goto t .waiting).waiters = insert t b.waiters := by
    ext u
    rw [Finset.mem_insert, mem_waiters, mem_waiters]
    by_cases hu : u = t
    · subst hu
      exact iff_of_true hself (.inl rfl)
    · rw [b.goto_phase_ne _ hu]
      exact (or_iff_right hu).symm
  refine ⟨fun u => ?_, ?_, not_le.mp hmore, fun u hu => ?_⟩
  · by_cases hu : u = t
    · subst hu
      exact .inr hself
    · show (b.goto t .waiting).phase u = _ ∨ (b.goto t .waiting).phase u = _
      rw [b.goto_phase_ne _ hu]
      exact h.phases u
  · calc b.count + 1 = b.waiters.card + 1 := by rw [h.count]
      _ = (b.goto t .waiting).waiters.card := by rw [hwaiters, Finset.card_insert_of_notMem hnew]
  · by_cases hne : u = t
    · subst hne
      exact hself
    · have hold : u ∈ b.cond.asleep := (Finset.mem_insert.mp hu).resolve_left hne
      exact (b.goto_phase_ne _ hne).trans (h.asleep u hold)

theorem round_step {b b' : PthreadBarrier ι} {a : ι × BarrierAct} (h : Round b) (ha : b.Once a)
    (hs : b.step a = some b') : Round b' := by
  obtain ⟨t, a⟩ := a
  cases a with
  | enter =>
    have ht : b.phase t = .outside := ha
    simp only [step, ht, Option.some.injEq] at hs
    obtain rfl := hs
    have hg : Gathering b := h.stage.resolve_right fun hr => hr.inside t ht
    unfold doEnter
    split
    · exact ⟨h.all, .inr (hg.trips h.all ht ‹_›)⟩
    · exact ⟨h.all, .inl (hg.waits ht ‹_›)⟩
  | broadcast =>
    simp only [step] at hs
    split at hs
    · rename_i ht
      obtain rfl := Option.some.inj hs
      have hr : Released b := h.stage.resolve_left fun hg => by
        rcases hg.phases t with hp | hp <;> exact absurd (ht.symm.trans hp) (by decide)
      exact ⟨h.all, .inr (hr.broadcasts ht)⟩
    · cases hs
  | wake =>
    simp only [step, Option.ite_none_right_eq_some, Option.some.injEq] at hs
    obtain ⟨-, rfl⟩ := hs
    refine ⟨h.all, h.stage.imp (fun hg => ?_) fun hr => hr.of_asleep (b.cond.asleep_wake_subset t)⟩
    exact hg.of_asleep fun u hu => hg.asleep u (b.cond.asleep_wake_subset t hu)
  | test =>
    simp only [step] at hs
    split at hs
    · rename_i ht
      rw [Option.ite_none_left_eq_some] at hs
      obtain ⟨hawake, he⟩ := hs
      obtain rfl := Option.some.inj he
      rcases h.stage with hg | hr
      · rw [doTest, if_pos (hg.count_ne_zero ht)]
        refine ⟨h.all, .inl (hg.of_asleep fun u hu => ?_)⟩
        rcases Finset.mem_insert.mp hu with rfl | hu
        · exact ht
        · exact hg.asleep u hu
      · rw [doTest, if_neg (not_not.mpr hr.count)]
        exact ⟨h.all, .inr (hr.leaves ht hawake)⟩
    · cases hs

/-! ### Everybody returns -/

def toGo (b : PthreadBarrier ι) : ℕ := ∑ t, (b.phase t).left

theorem toGo_goto {b b' : PthreadBarrier ι} {t : ι} {p : BarrierPhase} (h : p.left < (b.phase t).left)
    (hb : b'.phase = (b.goto t p).phase) : b'.toGo < b.toGo := by
  have hself : (b'.phase t).left = p.left := by rw [hb, b.goto_phase]
  refine Finset.sum_lt_sum (fun u _ => ?_) ⟨t, Finset.mem_univ t, hself.trans_lt h⟩
  by_cases hu : u = t
  · subst hu
    exact (hself.trans_lt h).le
  · rw [hb, b.goto_phase_ne _ hu]

/-- A thread that enters comes nearer. -/
theorem toGo_doEnter {b : PthreadBarrier ι} {t : ι} (ht : b.phase t = .outside) :
    (b.doEnter t).toGo < b.toGo := by
  unfold doEnter
  split
  · exact toGo_goto (p := .tripped) (by rw [ht]; decide) rfl
  · exact toGo_goto (p := .waiting) (by rw [ht]; decide) rfl

/-- While not all have returned, one of them can go on. -/
theorem Released.exists_inside {b : PthreadBarrier ι} (h : Released b) (hn : ∃ t, (b.phase t).hasReturned = false) :
    ∃ t a b', b.Inside (t, a) ∧ b.step (t, a) = some b' ∧ (b.phase t).hasReturned = false ∧ Released b' ∧
      b'.toGo < b.toGo := by
  by_cases htrip : ∃ t, b.phase t = .tripped
  · obtain ⟨t, ht⟩ := htrip
    have hs : b.step (t, .broadcast) = some { b.goto t (.returned true) with cond := b.cond.notifyAll } := by
      simp only [step, ht]
    exact ⟨t, _, _, .inl rfl, hs, by rw [ht]; rfl, h.broadcasts ht, toGo_goto (by rw [ht]; decide) rfl⟩
  · -- nobody sleeps: the notification has been sent
    have hempty : ∀ t, t ∉ b.cond.asleep := fun t ht => htrip (h.notified ⟨t, ht⟩)
    obtain ⟨t, ht⟩ := hn
    have hw : b.phase t = .waiting := by
      cases hp : b.phase t with
      | outside => exact absurd hp (h.inside t)
      | waiting => rfl
      | tripped => exact absurd ⟨t, hp⟩ htrip
      | returned ret =>
        rw [hp] at ht
        cases ht
    have hs : b.step (t, .test) = some (b.goto t (.returned false)) := by
      have hd : b.doTest t = b.goto t (.returned false) := if_neg (not_not.mpr h.count)
      simp only [step, hw, if_neg (hempty t), hd]
    exact ⟨t, _, _, .inr rfl, hs, ht, h.leaves hw (hempty t), toGo_goto (by rw [hw]; decide) rfl⟩

/-- **A barrier for one round.** However many threads use it, whoever wakes
without a notification: nobody returns before all have entered, no two are
told that they were the last, and when all have entered those inside return
one after the other, just one of them as the last. -/
theorem barrier_correct [Nonempty ι] {b : PthreadBarrier ι}
    (h : Lts.Reach step Once (init ι (Fintype.card ι)) b) :
    ((∃ t, (b.phase t).hasReturned = true) → ∀ u, b.phase u ≠ .outside) ∧
    (∀ t u, b.phase t = .returned true → b.phase u = .returned true → t = u) ∧
    ((∀ u, b.phase u ≠ .outside) → ∃ b', Lts.Reach step Inside b b' ∧
      (∀ t, (b'.phase t).hasReturned = true) ∧ ∃! t, b'.phase t = .returned true) := by
  have hr : Round b := h.inv round_init fun _ _ _ hr ha hs => round_step hr ha hs
  refine ⟨fun ⟨t, ht⟩ => hr.inside ht, fun t u ht hu => ?_, fun hall => ?_⟩
  · obtain ⟨l, -, hothers⟩ := (hr.released (hr.inside (by rw [ht]; rfl))).last
    have only (v : ι) (hv : b.phase v = .returned true) : v = l := by
      by_contra hne
      rcases hothers v hne with hw | hw <;> exact absurd (hv.symm.trans hw) (by decide)
    exact (only t ht).trans (only u hu).symm
  · obtain ⟨b', hreach, hrel', hdone⟩ := Lts.exists_reach_of_measure
      (I := Released) (G := fun b : PthreadBarrier ι => ∀ t, (b.phase t).hasReturned = true)
      toGo (fun c hc hn => by
        obtain ⟨t, ht⟩ := not_forall.mp hn
        obtain ⟨u, a, c', hin, hs, -, hc', hlt⟩ := hc.exists_inside ⟨t, Bool.eq_false_iff.mpr ht⟩
        exact ⟨_, c', hin, hs, hc', hlt⟩) (hr.released hall)
    refine ⟨b', hreach, hdone, ?_⟩
    obtain ⟨l, hl, hothers⟩ := hrel'.last
    refine ⟨l, hl.resolve_left fun hp => ?_, fun u hu => ?_⟩
    · have hd := hdone l
      rw [hp] at hd
      cases hd
    · by_contra hne
      rcases hothers u hne with hw | hw <;> exact absurd (hu.symm.trans hw) (by decide)

/-- Both of two threads have entered, and one wakes before it is notified. -/
theorem barrier_correct_two : ∃ b : PthreadBarrier (Fin 2), b.count = 0 ∧
    ((∃ t, (b.phase t).hasReturned = true) → ∀ u, b.phase u ≠ .outside) ∧
    (∀ t u, b.phase t = .returned true → b.phase u = .returned true → t = u) ∧
    ((∀ u, b.phase u ≠ .outside) → ∃ b', Lts.Reach step Inside b b' ∧
      (∀ t, (b'.phase t).hasReturned = true) ∧ ∃! t, b'.phase t = .returned true) := by
  obtain ⟨b, hr, hp⟩ := Lts.exists_reach_of_run step Once (init (Fin 2) (Fintype.card (Fin 2)))
    [(0, .enter), (0, .wake), (0, .test), (1, .enter), (0, .wake)] (fun b => b.count == 0) (by decide)
  exact ⟨b, by simpa using hp, barrier_correct hr⟩

/-- In a second round the thread that was late in the first sleeps again, next
to the one that waits for it. -/
example : (Lts.run step (init (Fin 2) 2) [(0, .enter), (1, .enter), (1, .broadcast), (1, .enter), (0, .test)]).any
    (fun b => b.cond.asleep = Finset.univ) = true := by decide

end PthreadBarrier

end ToolbitSdk
