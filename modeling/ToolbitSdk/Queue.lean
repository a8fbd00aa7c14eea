/-
# LockedQueue under its mutex

The queue as any number of threads use it. A call takes the mutex, tests its
condition, and either sleeps on its condition variable, which lets go of the
mutex, or changes the queue and notifies one that waits for the other side.
What it does between its test and its notification is one step: nobody else
looks at the queue or at the condition variables without the mutex, save to
wake. A thread that was woken, for whatever reason, takes the mutex again like
a newcomer, in any order.

The mutex makes one atomic channel of it (`QueueSys.refines_channel`), which
is why `Sys` has a step for an `enqueue` and for a `dequeue`, and a channel
keeps the order (`Fifo.lawful_step`). What the channel does not show is
who sleeps: each side is covered by threads that are awake
(`QueueSys.Inv.covered`), so no wake-up is lost (`QueueSys.queue_correct`),
and whoever has the mutex can go on (`QueueSys.Inv.exists_step_of_owner`).
-/
import ToolbitSdk.Lib.CondVar
import ToolbitSdk.Lib.Lts
import ToolbitSdk.Service

namespace ToolbitSdk

inductive QueueOp (T : Type*)
  | enqueue (x : T)
  | dequeue
  deriving DecidableEq

/-! ### The channel -/

/-- A queue, with what went in and what came out. -/
structure Fifo (T : Type*) where
  q : LockedQueue T
  enqueued : List T
  dequeued : List T

namespace Fifo

variable {T : Type*}

def init (capacity : ℕ) : Fifo T := ⟨⟨[], capacity⟩, [], []⟩

/-- A call, without waiting. -/
def step (c : Fifo T) : QueueOp T → Option (Fifo T)
  | .enqueue x => (c.q.enqueue x).map fun q => { c with q, enqueued := c.enqueued ++ [x] }
  | .dequeue => c.q.dequeue.map fun (ret, q) => { c with q, dequeued := c.dequeued ++ [ret] }

/-- No more than the capacity, and in order. -/
structure Lawful (capacity : ℕ) (c : Fifo T) : Prop where
  bound : c.q.capacity = capacity
  size : c.q.data.length ≤ capacity
  fifo : c.enqueued = c.dequeued ++ c.q.data

theorem lawful_init (capacity : ℕ) : Lawful capacity (init (T := T) capacity) := ⟨rfl, Nat.zero_le _, rfl⟩

end Fifo

namespace LockedQueue

variable {T : Type*} {q q' : LockedQueue T}

theorem enqueue_eq_some {x : T} (h : q.enqueue x = some q') :
    q.data.length ≠ q.capacity ∧ q' = { q with data := q.data ++ [x] } := by
  rw [enqueue, Option.ite_none_right_eq_some] at h
  exact ⟨h.1, (Option.some.inj h.2).symm⟩

theorem enqueue_eq_none {x : T} (h : q.enqueue x = none) : q.data.length = q.capacity := by
  rw [enqueue, ite_eq_right_iff] at h
  exact not_ne_iff.mp fun hne => nomatch h hne

theorem dequeue_eq_some {ret : T} (h : q.dequeue = some (ret, q')) :
    q.data = ret :: q'.data ∧ q'.capacity = q.capacity := by
  rcases q with ⟨_ | ⟨y, ys⟩, capacity⟩
  · cases h
  · cases h
    exact ⟨rfl, rfl⟩

theorem dequeue_eq_none (h : q.dequeue = none) : q.data = [] := by
  rcases q with ⟨_ | ⟨y, ys⟩, capacity⟩
  · rfl
  · cases h

end LockedQueue

namespace Fifo

variable {T : Type*} {capacity : ℕ} {c c' : Fifo T}

theorem step_enqueue {x : T} (h : c.step (.enqueue x) = some c') : c.q.data.length ≠ c.q.capacity ∧
    c' = ⟨{ c.q with data := c.q.data ++ [x] }, c.enqueued ++ [x], c.dequeued⟩ := by
  obtain ⟨q, hq, rfl⟩ := Option.map_eq_some_iff.mp h
  obtain ⟨hne, rfl⟩ := LockedQueue.enqueue_eq_some hq
  exact ⟨hne, rfl⟩

theorem step_dequeue (h : c.step .dequeue = some c') : ∃ ret, c.q.data = ret :: c'.q.data ∧
    c'.q.capacity = c.q.capacity ∧ c'.enqueued = c.enqueued ∧ c'.dequeued = c.dequeued ++ [ret] := by
  obtain ⟨⟨ret, q⟩, hq, rfl⟩ := Option.map_eq_some_iff.mp h
  obtain ⟨hd, hc⟩ := LockedQueue.dequeue_eq_some hq
  exact ⟨ret, hd, hc, rfl, rfl⟩

theorem lawful_step {op : QueueOp T} (hl : c.Lawful capacity) (h : c.step op = some c') :
    c'.Lawful capacity := by
  cases op with
  | enqueue x =>
    obtain ⟨hne, rfl⟩ := step_enqueue h
    refine ⟨hl.bound, ?_, ?_⟩
    · -- the test is for inequality, and the size is never beyond the capacity
      have hlt : c.q.data.length < capacity := lt_of_le_of_ne hl.size (hl.bound ▸ hne)
      rw [List.length_append, List.length_singleton]
      exact hlt
    · rw [hl.fifo, List.append_assoc]
  | dequeue =>
    obtain ⟨ret, hd, hc, he, hdeq⟩ := step_dequeue h
    refine ⟨hc.trans hl.bound, ?_, ?_⟩
    · have hsize := hl.size
      rw [hd, List.length_cons] at hsize
      omega
    · rw [he, hl.fifo, hd, hdeq, List.append_assoc, List.singleton_append]

end Fifo

/-! ### The threads -/

/-- Where a thread is: it makes no call, or is in one and has not changed the
queue, or has and still holds the mutex, with what it returns. -/
inductive QueuePhase (T : Type*)
  | idle
  | calling (op : QueueOp T)
  | leaving (ret : Option T)

/-- A `LockedQueue` and the threads `ι` that use it. -/
structure QueueSys (ι T : Type*) where
  m : Option ι
  q : LockedQueue T
  c_enq : CondVar ι
  c_deq : CondVar ι
  phase : ι → QueuePhase T
  -- history
  enqueued : List T
  dequeued : List T

/-- A thread makes a call, takes the mutex, goes on with it (where it
notifies, `woken` is who is woken), lets go of it, or wakes of itself. -/
inductive QueueAct (ι T : Type*)
  | call (op : QueueOp T)
  | lock
  | go (woken : Option ι)
  | unlock
  | wake

namespace QueueSys

variable {ι T : Type*} [DecidableEq ι]

def init (ι T : Type*) (capacity : ℕ) : QueueSys ι T :=
  ⟨none, ⟨[], capacity⟩, ⟨∅⟩, ⟨∅⟩, fun _ => .idle, [], []⟩

def Asleep (s : QueueSys ι T) (t : ι) : Prop := t ∈ s.c_enq.asleep ∨ t ∈ s.c_deq.asleep

instance (s : QueueSys ι T) (t : ι) : Decidable (s.Asleep t) :=
  inferInstanceAs (Decidable (t ∈ s.c_enq.asleep ∨ t ∈ s.c_deq.asleep))

/-- `enqueue(x)` with the mutex. -/
def enqueue (s : QueueSys ι T) (t : ι) (x : T) (woken : Option ι) : Option (QueueSys ι T) :=
  match s.q.enqueue x with
  | none => some { s with m := none, c_enq := s.c_enq.wait t }
  | some q =>
    (s.c_deq.notifyOne woken).map fun c_deq =>
      { s with q, c_deq, phase := Function.update s.phase t (.leaving none), enqueued := s.enqueued ++ [x] }

/-- `dequeue()` with the mutex. -/
def dequeue (s : QueueSys ι T) (t : ι) (woken : Option ι) : Option (QueueSys ι T) :=
  match s.q.dequeue with
  | none => some { s with m := none, c_deq := s.c_deq.wait t }
  | some (ret, q) =>
    (s.c_enq.notifyOne woken).map fun c_enq =>
      { s with q, c_enq, phase := Function.update s.phase t (.leaving (some ret)), dequeued := s.dequeued ++ [ret] }

def step (s : QueueSys ι T) : ι × QueueAct ι T → Option (QueueSys ι T)
  | (t, .call op) =>
    match s.phase t with
    | .idle => some { s with phase := Function.update s.phase t (.calling op) }
    | _ => none
  | (t, .lock) =>
    match s.phase t with
    | .calling _ => if s.m = none ∧ ¬ s.Asleep t then some { s with m := some t } else none
    | _ => none
  | (t, .go woken) =>
    if s.m = some t then
      match s.phase t with
      | .calling (.enqueue x) => s.enqueue t x woken
      | .calling .dequeue => s.dequeue t woken
      | _ => none
    else none
  | (t, .unlock) =>
    match s.phase t with
    | .leaving _ => some { s with m := none, phase := Function.update s.phase t .idle }
    | _ => none
  | (t, .wake) =>
    if s.Asleep t then some { s with c_enq := s.c_enq.wake t, c_deq := s.c_deq.wake t } else none

/-- What a step of thread `t` can be. -/
inductive Move (s : QueueSys ι T) (t : ι) : QueueSys ι T → Prop
  | call (op : QueueOp T) (hp : s.phase t = .idle) :
    Move s t { s with phase := Function.update s.phase t (.calling op) }
  | lock {op : QueueOp T} (hp : s.phase t = .calling op) (hm : s.m = none) (ha : ¬ s.Asleep t) :
    Move s t { s with m := some t }
  | enqueueWaits {x : T} (hp : s.phase t = .calling (.enqueue x)) (hm : s.m = some t) (hq : s.q.enqueue x = none) :
    Move s t { s with m := none, c_enq := s.c_enq.wait t }
  | enqueues {x : T} {q : LockedQueue T} {woken : Option ι} {c_deq : CondVar ι}
    (hp : s.phase t = .calling (.enqueue x)) (hm : s.m = some t) (hq : s.q.enqueue x = some q)
    (hn : s.c_deq.notifyOne woken = some c_deq) :
    Move s t { s with q, c_deq, phase := Function.update s.phase t (.leaving none), enqueued := s.enqueued ++ [x] }
  | dequeueWaits (hp : s.phase t = .calling .dequeue) (hm : s.m = some t) (hq : s.q.dequeue = none) :
    Move s t { s with m := none, c_deq := s.c_deq.wait t }
  | dequeues {ret : T} {q : LockedQueue T} {woken : Option ι} {c_enq : CondVar ι}
    (hp : s.phase t = .calling .dequeue) (hm : s.m = some t) (hq : s.q.dequeue = some (ret, q))
    (hn : s.c_enq.notifyOne woken = some c_enq) :
    Move s t { s with
      q, c_enq, phase := Function.update s.phase t (.leaving (some ret)), dequeued := s.dequeued ++ [ret] }
  | unlock {ret : Option T} (hp : s.phase t = .leaving ret) :
    Move s t { s with m := none, phase := Function.update s.phase t .idle }
  | wake (ha : s.Asleep t) : Move s t { s with c_enq := s.c_enq.wake t, c_deq := s.c_deq.wake t }

theorem step_move {s s' : QueueSys ι T} {t : ι} {a : QueueAct ι T} (h : s.step (t, a) = some s') :
    Move s t s' := by
  cases a with
  | call op =>
    simp only [step] at h
    split at h
    next hp =>
      cases h
      exact .call op hp
    next => cases h
  | lock =>
    simp only [step] at h
    split at h
    next op hp =>
      rw [Option.ite_none_right_eq_some] at h
      obtain ⟨⟨hm, ha⟩, h⟩ := h
      cases h
      exact .lock hp hm ha
    next => cases h
  | go woken =>
    simp only [step] at h
    rw [Option.ite_none_right_eq_some] at h
    obtain ⟨hm, h⟩ := h
    split at h
    next x hp =>
      rw [enqueue] at h
      split at h
      next hq =>
        cases h
        exact .enqueueWaits hp hm hq
      next q hq =>
        obtain ⟨c_deq, hn, rfl⟩ := Option.map_eq_some_iff.mp h
        exact .enqueues hp hm hq hn
    next hp =>
      rw [dequeue] at h
      split at h
      next hq =>
        cases h
        exact .dequeueWaits hp hm hq
      next ret q hq =>
        obtain ⟨c_enq, hn, rfl⟩ := Option.map_eq_some_iff.mp h
        exact .dequeues hp hm hq hn
    next => cases h
  | unlock =>
    simp only [step] at h
    split at h
    next ret hp =>
      cases h
      exact .unlock hp
    next => cases h
  | wake =>
    simp only [step] at h
    rw [Option.ite_none_right_eq_some] at h
    obtain ⟨ha, h⟩ := h
    cases h
    exact .wake ha

/-! ### The queue is a channel -/

def channel (s : QueueSys ι T) : Fifo T := ⟨s.q, s.enqueued, s.dequeued⟩

/-- A step leaves the channel, or is a call of it. -/
theorem channel_move {s s' : QueueSys ι T} {t : ι} (h : Move s t s') :
    s'.channel = s.channel ∨ ∃ op, s.channel.step op = some s'.channel := by
  cases h with
  | call | lock | enqueueWaits | dequeueWaits | unlock | wake => exact .inl rfl
  | @enqueues x _ _ _ _ _ hq => exact .inr ⟨.enqueue x, Option.map_eq_some_iff.mpr ⟨_, hq, rfl⟩⟩
  | dequeues _ _ hq => exact .inr ⟨.dequeue, Option.map_eq_some_iff.mpr ⟨_, hq, rfl⟩⟩

/-- Whatever the threads do, the queue goes through the states of a channel. -/
theorem refines_channel {capacity : ℕ} {s : QueueSys ι T}
    (h : Lts.Reach step (fun _ _ => True) (init ι T capacity) s) :
    Lts.Reach Fifo.step (fun _ _ => True) (.init capacity) s.channel := by
  induction h with
  | refl => exact .refl
  | step a _ _ hs ih =>
    rcases channel_move (step_move hs) with heq | ⟨op, hop⟩
    · rw [heq]
      exact ih
    · exact .step op ih trivial hop

end QueueSys

/-! ### The two sides -/

inductive QueueSide
  | enq
  | deq

def QueueOp.side {T : Type*} : QueueOp T → QueueSide
  | .enqueue _ => .enq
  | .dequeue => .deq

def QueueSide.other : QueueSide → QueueSide
  | .enq => .deq
  | .deq => .enq

/-- The side whose condition the thread will test. -/
def QueuePhase.side {T : Type*} : QueuePhase T → Option QueueSide
  | .calling op => some op.side
  | .idle | .leaving _ => none

namespace QueueSys

variable {ι T : Type*}

def cv (s : QueueSys ι T) : QueueSide → CondVar ι
  | .enq => s.c_enq
  | .deq => s.c_deq

/-- What a side waits for: free slots, or elements. -/
def units (s : QueueSys ι T) : QueueSide → ℕ
  | .enq => s.q.capacity - s.q.data.length
  | .deq => s.q.data.length

/-- The threads in calls of a side. -/
def calls (phase : ι → QueuePhase T) (d : QueueSide) : Set ι := {t | (phase t).side = some d}

section

variable [DecidableEq ι] (phase : ι → QueuePhase T) {t : ι} {d : QueueSide}

/-- A thread that was not in a call of the side, and is in one or not. -/
theorem calls_subset_update (p : QueuePhase T) (h : (phase t).side ≠ some d) :
    calls phase d ⊆ calls (Function.update phase t p) d := by
  intro u hu
  have hne : u ≠ t := by
    rintro rfl
    exact h hu
  rw [calls, Set.mem_ofPred_eq, Function.update_of_ne hne]
  exact hu

/-- A thread that is in no call of the side afterwards. -/
theorem calls_update {p : QueuePhase T} (h : p.side ≠ some d) :
    calls (Function.update phase t p) d = calls phase d \ {t} := by
  ext u
  rw [calls, Set.mem_ofPred_eq, Set.mem_sdiff, Set.mem_singleton_iff]
  by_cases hu : u = t
  · subst hu
    rw [Function.update_self]
    exact iff_of_false h fun hh => hh.2 rfl
  · rw [Function.update_of_ne hu]
    exact (and_iff_left hu).symm

end

theorem side_eq_or_other (d e : QueueSide) : e = d ∨ e = d.other := by
  cases d <;> cases e <;> simp only [QueueSide.other, true_or, or_true]

theorem other_ne (d : QueueSide) : d.other ≠ d := by cases d <;> exact nofun

theorem asleep_iff (s : QueueSys ι T) (t : ι) : s.Asleep t ↔ ∃ d, t ∈ (s.cv d).asleep :=
  ⟨fun h => h.elim (fun ht => ⟨.enq, ht⟩) fun ht => ⟨.deq, ht⟩, fun ⟨d, ht⟩ => by
    cases d
    · exact .inl ht
    · exact .inr ht⟩

/-- What holds in every state reached. -/
structure Inv (capacity : ℕ) (s : QueueSys ι T) : Prop where
  channel : s.channel.Lawful capacity
  asleep_calls : ∀ d, ∀ t ∈ (s.cv d).asleep, t ∈ calls s.phase d
  owner_awake : ∀ t, s.m = some t → ¬ s.Asleep t
  owner_inside : ∀ t, s.m = some t → s.phase t ≠ .idle
  leaving_owns : ∀ t ret, s.phase t = .leaving ret → s.m = some t
  covered : ∀ d, (s.cv d).Covered (calls s.phase d) (s.units d)

theorem inv_init (ι T : Type*) (capacity : ℕ) : Inv capacity (init ι T capacity) where
  channel := Fifo.lawful_init capacity
  asleep_calls := fun d t ht => by cases d <;> exact absurd ht (Finset.notMem_empty t)
  owner_awake := nofun
  owner_inside := nofun
  leaving_owns := nofun
  covered := fun d => by cases d <;> exact CondVar.covered_of_empty rfl

section

variable {capacity : ℕ} {s s' : QueueSys ι T} {t : ι}

theorem mem_calls_deq : t ∈ calls s.phase .deq ↔ s.phase t = .calling .dequeue := by
  rw [calls, Set.mem_ofPred_eq]
  rcases s.phase t with _ | (x | _) | ret <;> simp [QueuePhase.side, QueueOp.side]

theorem mem_calls_enq : t ∈ calls s.phase .enq ↔ ∃ x, s.phase t = .calling (.enqueue x) := by
  rw [calls, Set.mem_ofPred_eq]
  rcases s.phase t with _ | (x | _) | ret <;> simp [QueuePhase.side, QueueOp.side]

theorem Inv.notMem_of_owner (hi : s.Inv capacity) (hm : s.m = some t) (d : QueueSide) :
    t ∉ (s.cv d).asleep :=
  fun ht => hi.owner_awake t hm ((s.asleep_iff t).mpr ⟨d, ht⟩)

/-- A thread that sleeps on one side is in no call of the other. -/
theorem Inv.not_asleep (hi : s.Inv capacity) {d : QueueSide} (hc : t ∈ calls s.phase d) (ht : t ∉ (s.cv d).asleep) :
    ¬ s.Asleep t := by
  intro ha
  obtain ⟨e, he⟩ := (s.asleep_iff t).mp ha
  have hside : some e = some d := (hi.asleep_calls e t he).symm.trans hc
  exact ht (Option.some.inj hside ▸ he)

/-! A step leaves each side as it was, or puts its thread to sleep on one, or
carries out a call of one. -/

structure Quiet (s s' : QueueSys ι T) : Prop where
  cv : ∀ d, (s'.cv d).asleep ⊆ (s.cv d).asleep
  calls : ∀ d, calls s.phase d ⊆ calls s'.phase d
  units : ∀ d, s'.units d = s.units d

variable [DecidableEq ι]

structure Waits (s : QueueSys ι T) (t : ι) (d : QueueSide) (s' : QueueSys ι T) : Prop where
  calling : (s.phase t).side = some d
  none : s.units d = 0
  cv : s'.cv d = (s.cv d).wait t
  cv_other : s'.cv d.other = s.cv d.other
  phase : s'.phase = s.phase
  units : s'.units = s.units

structure Done (s : QueueSys ι T) (t : ι) (d : QueueSide) (s' : QueueSys ι T) : Prop where
  owner : s.m = some t
  calling : (s.phase t).side = some d
  leaving : ∃ ret, s'.phase = Function.update s.phase t (.leaving ret)
  cv : s'.cv d = s.cv d
  notified : ∃ woken, (s.cv d.other).notifyOne woken = some (s'.cv d.other)
  taken : s.units d = s'.units d + 1
  given : s'.units d.other = s.units d.other + 1

theorem Inv.kind (hi : s.Inv capacity) (h : Move s t s') :
    Quiet s s' ∨ (∃ d, Waits s t d s') ∨ ∃ d, Done s t d s' := by
  have hside {op : QueueOp T} (hp : s.phase t = .calling op) : (s.phase t).side = some op.side :=
    congrArg QueuePhase.side hp
  have hsize : s.q.data.length ≤ s.q.capacity := hi.channel.bound ▸ hi.channel.size
  cases h with
  | call op hp =>
    have hout (d : QueueSide) : (s.phase t).side ≠ some d := by
      rw [hp]
      exact nofun
    exact .inl ⟨fun _ => Finset.Subset.refl _, fun d => calls_subset_update s.phase _ (hout d), fun _ => rfl⟩
  | lock => exact .inl ⟨fun _ => Finset.Subset.refl _, fun _ => Set.Subset.refl _, fun _ => rfl⟩
  | unlock hp =>
    have hout (d : QueueSide) : (s.phase t).side ≠ some d := by
      rw [hp]
      exact nofun
    exact .inl ⟨fun _ => Finset.Subset.refl _, fun d => calls_subset_update s.phase _ (hout d), fun _ => rfl⟩
  | wake ha =>
    refine .inl ⟨fun d => ?_, fun _ => Set.Subset.refl _, fun _ => rfl⟩
    cases d
    · exact s.c_enq.asleep_wake_subset t
    · exact s.c_deq.asleep_wake_subset t
  | enqueueWaits hp hm hq =>
    have hnone : s.units .enq = 0 := Nat.sub_eq_zero_of_le (LockedQueue.enqueue_eq_none hq).ge
    exact .inr (.inl ⟨.enq, hside hp, hnone, rfl, rfl, rfl, rfl⟩)
  | dequeueWaits hp hm hq =>
    have hnone : s.units .deq = 0 := congrArg List.length (LockedQueue.dequeue_eq_none hq)
    exact .inr (.inl ⟨.deq, hside hp, hnone, rfl, rfl, rfl, rfl⟩)
  | enqueues hp hm hq hn =>
    obtain ⟨hne, rfl⟩ := LockedQueue.enqueue_eq_some hq
    refine .inr (.inr ⟨.enq, hm, hside hp, ⟨_, rfl⟩, rfl, ⟨_, hn⟩, ?_, List.length_append⟩)
    simp only [units, List.length_append, List.length_singleton]
    omega
  | dequeues hp hm hq hn =>
    obtain ⟨hd, hc⟩ := LockedQueue.dequeue_eq_some hq
    have hlen : s.q.data.length = _ := congrArg List.length hd
    refine .inr (.inr ⟨.deq, hm, hside hp, ⟨_, rfl⟩, rfl, ⟨_, hn⟩, hlen, ?_⟩)
    rw [List.length_cons] at hlen
    simp only [units, QueueSide.other, hc]
    omega

theorem Inv.asleep_calls_step (hi : s.Inv capacity) (h : Move s t s') (e : QueueSide) :
    ∀ u ∈ (s'.cv e).asleep, u ∈ calls s'.phase e := by
  intro u hu
  rcases hi.kind h with hk | ⟨d, hk⟩ | ⟨d, hk⟩
  · exact hk.calls e (hi.asleep_calls e u (hk.cv e hu))
  · rw [hk.phase]
    rcases side_eq_or_other d e with rfl | rfl
    · rw [hk.cv] at hu
      rcases Finset.mem_insert.mp hu with rfl | hu
      · exact hk.calling
      · exact hi.asleep_calls e u hu
    · rw [hk.cv_other] at hu
      exact hi.asleep_calls d.other u hu
  · obtain ⟨ret, hret⟩ := hk.leaving
    have hslept : u ∈ (s.cv e).asleep := by
      rcases side_eq_or_other d e with rfl | rfl
      · rwa [hk.cv] at hu
      · obtain ⟨woken, hn⟩ := hk.notified
        exact CondVar.asleep_notifyOne_subset hn hu
    have hne : u ≠ t := by
      rintro rfl
      exact hi.notMem_of_owner hk.owner e hslept
    rw [hret, calls_update s.phase (p := .leaving ret) nofun]
    exact ⟨hi.asleep_calls e u hslept, hne⟩

/-- A call that is carried out takes a unit of its own side, and gives one to
the other, of which it notifies. -/
theorem Inv.covered_step (hi : s.Inv capacity) (h : Move s t s') (e : QueueSide) :
    (s'.cv e).Covered (calls s'.phase e) (s'.units e) := by
  rcases hi.kind h with hk | ⟨d, hk⟩ | ⟨d, hk⟩
  · rw [hk.units]
    exact (hi.covered e).mono (hk.cv e) (hk.calls e)
  · rw [hk.phase, hk.units]
    rcases side_eq_or_other d e with rfl | rfl
    · rw [hk.none]
      exact CondVar.covered_zero _ _
    · rw [hk.cv_other]
      exact hi.covered d.other
  · obtain ⟨ret, hret⟩ := hk.leaving
    rw [hret, calls_update s.phase (p := .leaving ret) nofun]
    rcases side_eq_or_other d e with rfl | rfl
    · have hawake : t ∈ (s.cv e).awake (calls s.phase e) := ⟨hk.calling, hi.notMem_of_owner hk.owner e⟩
      have hcov := hi.covered e
      rw [hk.taken] at hcov
      rw [hk.cv]
      exact hcov.leave hawake
    · have hnot : t ∉ calls s.phase d.other := fun ht => other_ne d (Option.some.inj (ht.symm.trans hk.calling))
      obtain ⟨woken, hn⟩ := hk.notified
      rw [Set.sdiff_singleton_eq_self hnot, hk.given]
      exact (hi.covered d.other).notifyOne (hi.asleep_calls d.other) hn

/-! The mutex. -/

theorem Inv.owner_awake_step (hi : s.Inv capacity) (h : Move s t s') (u : ι) (hm' : s'.m = some u) :
    ¬ s'.Asleep u := by
  cases h with
  | call => exact hi.owner_awake u hm'
  | lock _ _ ha =>
    cases hm'
    exact ha
  | enqueueWaits | dequeueWaits | unlock => cases hm'
  | enqueues _ _ _ hn =>
    exact fun hs => hi.owner_awake u hm' (hs.imp_right fun hd => CondVar.asleep_notifyOne_subset hn hd)
  | dequeues _ _ _ hn =>
    exact fun hs => hi.owner_awake u hm' (hs.imp_left fun he => CondVar.asleep_notifyOne_subset hn he)
  | wake =>
    exact fun hs => hi.owner_awake u hm' (hs.imp (fun he => s.c_enq.asleep_wake_subset t he) fun hd =>
      s.c_deq.asleep_wake_subset t hd)

theorem Inv.owner_inside_step (hi : s.Inv capacity) (h : Move s t s') (u : ι) (hm' : s'.m = some u) :
    s'.phase u ≠ .idle := by
  have hupdate {p : QueuePhase T} (hp : p ≠ .idle) (hm : s.m = some u) : Function.update s.phase t p u ≠ .idle := by
    by_cases hu : u = t
    · rwa [hu, Function.update_self]
    · rw [Function.update_of_ne hu]
      exact hi.owner_inside u hm
  cases h with
  | call op => exact hupdate nofun hm'
  | lock hp =>
    cases hm'
    rw [hp]
    exact nofun
  | enqueueWaits | dequeueWaits | unlock => cases hm'
  | enqueues => exact hupdate nofun hm'
  | dequeues => exact hupdate nofun hm'
  | wake => exact hi.owner_inside u hm'

theorem Inv.leaving_owns_step (hi : s.Inv capacity) (h : Move s t s') (u : ι) (ret : Option T)
    (hu : s'.phase u = .leaving ret) : s'.m = some u := by
  -- whoever is on the way out has the mutex, so it is the thread that takes the step
  have honly {op : QueueOp T} (hp : s.phase t = .calling op) (hm : s.m = some t) : s.phase u ≠ .leaving ret := by
    intro hl
    cases hm.symm.trans (hi.leaving_owns u ret hl)
    cases hp.symm.trans hl
  have hupdate {p : QueuePhase T} (h : Function.update s.phase t p u = .leaving ret) :
      (u = t ∧ p = .leaving ret) ∨ (u ≠ t ∧ s.phase u = .leaving ret) := by
    by_cases he : u = t
    · rw [he, Function.update_self] at h
      exact .inl ⟨he, h⟩
    · rw [Function.update_of_ne he] at h
      exact .inr ⟨he, h⟩
  cases h with
  | call op hp =>
    rcases hupdate hu with ⟨-, hl⟩ | ⟨-, hl⟩
    · cases hl
    · exact hi.leaving_owns u ret hl
  | lock hp hm => cases hm.symm.trans (hi.leaving_owns u ret hu)
  | enqueueWaits hp hm | dequeueWaits hp hm => exact absurd hu (honly hp hm)
  | enqueues hp hm | dequeues hp hm =>
    rcases hupdate hu with ⟨rfl, -⟩ | ⟨-, hl⟩
    · exact hm
    · exact absurd hl (honly hp hm)
  | unlock hp =>
    rcases hupdate hu with ⟨-, hl⟩ | ⟨hne, hl⟩
    · cases hl
    · exact absurd (Option.some.inj ((hi.leaving_owns u ret hl).symm.trans (hi.leaving_owns t _ hp))) hne
  | wake => exact hi.leaving_owns u ret hu

theorem inv_step (hi : s.Inv capacity) (h : Move s t s') : s'.Inv capacity where
  channel := by
    rcases channel_move h with heq | ⟨op, hop⟩
    · rw [heq]
      exact hi.channel
    · exact Fifo.lawful_step hi.channel hop
  asleep_calls := hi.asleep_calls_step h
  owner_awake := hi.owner_awake_step h
  owner_inside := hi.owner_inside_step h
  leaving_owns := hi.leaving_owns_step h
  covered := hi.covered_step h

theorem inv_of_reach (h : Lts.Reach step (fun _ _ => True) (init ι T capacity) s) :
    s.Inv capacity :=
  h.inv (inv_init ι T capacity) fun _ _ _ hi _ hs => inv_step hi (step_move hs)

/-- Nobody holds the mutex for good: whoever has it can go on. -/
theorem Inv.exists_step_of_owner (hi : s.Inv capacity) (hm : s.m = some t) :
    ∃ a s', s.step (t, a) = some s' := by
  cases hp : s.phase t with
  | idle => exact absurd hp (hi.owner_inside t hm)
  | leaving ret =>
    refine ⟨.unlock, { s with m := none, phase := Function.update s.phase t .idle }, ?_⟩
    simp only [step, hp]
  | calling op =>
    cases op with
    | enqueue x =>
      obtain ⟨woken, c_deq, hn⟩ := s.c_deq.exists_notifyOne
      have hgo : s.step (t, .go woken) = s.enqueue t x woken := by simp only [step, hp, hm, ↓reduceIte]
      rw [enqueue] at hgo
      cases hq : s.q.enqueue x with
      | none => exact ⟨_, _, by rw [hgo, hq]⟩
      | some q => exact ⟨_, _, by rw [hgo, hq]; exact Option.map_eq_some_iff.mpr ⟨c_deq, hn, rfl⟩⟩
    | dequeue =>
      obtain ⟨woken, c_enq, hn⟩ := s.c_enq.exists_notifyOne
      have hgo : s.step (t, .go woken) = s.dequeue t woken := by simp only [step, hp, hm, ↓reduceIte]
      rw [dequeue] at hgo
      cases hq : s.q.dequeue with
      | none => exact ⟨_, _, by rw [hgo, hq]⟩
      | some r => exact ⟨_, _, by rw [hgo, hq]; exact Option.map_eq_some_iff.mpr ⟨c_enq, hn, rfl⟩⟩

/-- What the queue owes. -/
structure Correct (capacity : ℕ) (s : QueueSys ι T) : Prop where
  size : s.q.data.length ≤ capacity
  order : s.dequeued <+: s.enqueued
  kept : s.enqueued = s.dequeued ++ s.q.data
  /-- Where a consumer sleeps and there is an element, another is in `dequeue` and awake. -/
  consumers : ∀ t ∈ s.c_deq.asleep, s.q.data ≠ [] → ∃ u ≠ t, s.phase u = .calling .dequeue ∧ ¬ s.Asleep u
  /-- Where a producer sleeps and there is a free slot, another is in `enqueue` and awake. -/
  producers : ∀ t ∈ s.c_enq.asleep, s.q.data.length < capacity →
    ∃ u ≠ t, ∃ x, s.phase u = .calling (.enqueue x) ∧ ¬ s.Asleep u

/-- **A FIFO channel without lost wake-ups.** -/
theorem queue_correct (h : Lts.Reach step (fun _ _ => True) (init ι T capacity) s) :
    Correct capacity s := by
  have hi := inv_of_reach h
  refine ⟨hi.channel.size, ⟨s.q.data, hi.channel.fifo.symm⟩, hi.channel.fifo, fun t ht hne => ?_,
    fun t ht hlt => ?_⟩
  · have hpos : 0 < s.units .deq := List.length_pos_of_ne_nil hne
    obtain ⟨u, hut, hc, hs⟩ := (hi.covered .deq).exists_awake ht hpos
    exact ⟨u, hut, mem_calls_deq.mp hc, hi.not_asleep hc hs⟩
  · have hcap : s.q.capacity = capacity := hi.channel.bound
    have hpos : 0 < s.units .enq := Nat.sub_pos_of_lt (hcap ▸ hlt)
    obtain ⟨u, hut, hc, hs⟩ := (hi.covered .enq).exists_awake ht hpos
    obtain ⟨x, hx⟩ := mem_calls_enq.mp hc
    exact ⟨u, hut, x, hx, hi.not_asleep hc hs⟩

end

/-- Threads 0 and 2 wait for an element, thread 1 brings one and wakes 0. -/
def served : List (ℕ × QueueAct ℕ ℕ) :=
  [(0, .call .dequeue), (0, .lock), (0, .go none), (2, .call .dequeue), (2, .lock), (2, .go none),
    (1, .call (.enqueue 7)), (1, .lock), (1, .go (some 0)), (1, .unlock)]

theorem queue_correct_served : ∃ s : QueueSys ℕ ℕ, 2 ∈ s.c_deq.asleep ∧ s.q.data = [7] ∧ Correct 1 s := by
  obtain ⟨s, hr, hp⟩ := Lts.exists_reach_of_run step (fun _ _ => True) (init ℕ ℕ 1) served
    (fun s => decide (2 ∈ s.c_deq.asleep) && decide (s.q.data = [7])) (by decide)
  rw [Bool.and_eq_true, decide_eq_true_iff, decide_eq_true_iff] at hp
  exact ⟨s, hp.1, hp.2, queue_correct hr⟩

end QueueSys

end ToolbitSdk
