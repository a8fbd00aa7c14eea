/-
# Opening and closing a device on macOS

`hid_open_path` and `hid_close` of `src/hidapi/mac/hid.c` against the
`read_thread` they start and end. `hid_open_path` goes on when the thread has
made its run-loop source and noted its run loop; `hid_close` signals the one
and wakes the other, which the thread must outlive, then lets the thread pass
`shutdown_barrier` and joins it. Each access to a shared field is a step, and
so is what a thread does in a barrier (`PthreadBarrier`).

Core Foundation is not in the source, and the steps assume this of its run
loop: the loop that `CFRunLoopRunInMode` runs performs a source that was
signaled, whether before or while it runs, and after a callback has called
`CFRunLoopStop` it returns `kCFRunLoopRunStopped`, and only then. Nothing is
assumed of what else it returns, nor of when the device is removed.
-/
import ToolbitSdk.MacBarrier

namespace ToolbitSdk

inductive MacParty
  | client
  | reader
  deriving DecidableEq

instance : Fintype MacParty where
  elems := {.client, .reader}
  complete p := by cases p <;> decide

instance : Nonempty MacParty := ⟨.client⟩

/-- Where the client is in `hid_open_path` and `hid_close`, or between them. -/
inductive MacClient
  | create
  | barrier
  | opened
  | signal
  | wakeUp
  | shutdownBarrier
  | join
  | closed
  deriving DecidableEq

/-- Where `read_thread` is. -/
inductive MacReader
  | absent
  | source
  | runLoop
  | barrier
  | test
  | run
  | wake
  | shutdownBarrier
  | returned
  deriving DecidableEq

/-- What `CFRunLoopRunInMode` returns. -/
inductive RunCode
  | finished
  | stopped
  | timedOut
  | handledSource
  | other
  deriving DecidableEq

structure MacHandle where
  client : MacClient
  reader : MacReader
  barrier : PthreadBarrier MacParty
  shutdown_barrier : PthreadBarrier MacParty
  /-- `dev->source` and `dev->run_loop` have been stored -/
  source : Bool
  run_loop : Bool
  disconnected : Bool
  shutdown_thread : Bool
  /-- the source is signaled -/
  signaled : Bool
  /-- `CFRunLoopStop` was called in the loop that runs -/
  stopping : Bool

inductive MacAct
  | client
  | reader
  | barrier (p : MacParty) (a : BarrierAct)
  | shutdownBarrier (p : MacParty) (a : BarrierAct)
  /-- `perform_signal_callback` -/
  | perform
  /-- `hid_device_removal_callback` -/
  | removal
  | runReturns (code : RunCode)

namespace MacHandle

/-- Before `pthread_create`. -/
def init : MacHandle :=
  ⟨.create, .absent, .init _ 2, .init _ 2, false, false, false, false, false, false⟩

/-- The next statement of the client. -/
def doClient (s : MacHandle) : Option MacHandle :=
  match s.client with
  | .create => some { s with client := .barrier, reader := .source }
  | .barrier => if (s.barrier.phase .client).hasReturned then some { s with client := .opened } else none
  | .opened => some { s with client := .signal, shutdown_thread := true }
  | .signal => some { s with client := .wakeUp, signaled := true }
  | .wakeUp => some { s with client := .shutdownBarrier }
  | .shutdownBarrier =>
    if (s.shutdown_barrier.phase .client).hasReturned then some { s with client := .join } else none
  | .join => if s.reader = .returned then some { s with client := .closed } else none
  | .closed => none

/-- And of the read thread. -/
def doReader (s : MacHandle) : Option MacHandle :=
  match s.reader with
  | .absent => none
  | .source => some { s with reader := .runLoop, source := true }
  | .runLoop => some { s with reader := .barrier, run_loop := true }
  | .barrier => if (s.barrier.phase .reader).hasReturned then some { s with reader := .test } else none
  | .test =>
    some (if !s.shutdown_thread && !s.disconnected then { s with reader := .run, stopping := false }
      else { s with reader := .wake })
  | .run => none
  | .wake => some { s with reader := .shutdownBarrier }
  | .shutdownBarrier =>
    if (s.shutdown_barrier.phase .reader).hasReturned then some { s with reader := .returned } else none
  | .returned => none

/-- The tests of the code that `CFRunLoopRunInMode` has returned. -/
def doReturn (s : MacHandle) (code : RunCode) : MacHandle :=
  if code = .finished ∨ code = .stopped then { s with disconnected := true, reader := .wake }
  else if code ≠ .timedOut ∧ code ≠ .handledSource then { s with shutdown_thread := true, reader := .wake }
  else { s with reader := .test }

/-- The party is in its `pthread_barrier_wait(&dev->barrier)`. -/
def InBarrier (s : MacHandle) : MacParty → Bool
  | .client => s.client = .barrier ∧ (s.barrier.phase .client).hasReturned = false
  | .reader => s.reader = .barrier ∧ (s.barrier.phase .reader).hasReturned = false

/-- The party is in its `pthread_barrier_wait(&dev->shutdown_barrier)`. -/
def InShutdownBarrier (s : MacHandle) : MacParty → Bool
  | .client => s.client = .shutdownBarrier ∧ (s.shutdown_barrier.phase .client).hasReturned = false
  | .reader => s.reader = .shutdownBarrier ∧ (s.shutdown_barrier.phase .reader).hasReturned = false

def step (s : MacHandle) : MacAct → Option MacHandle
  | .client => s.doClient
  | .reader => s.doReader
  | .barrier p a =>
    if s.InBarrier p then (s.barrier.step (p, a)).map fun barrier => { s with barrier } else none
  | .shutdownBarrier p a =>
    if s.InShutdownBarrier p then
      (s.shutdown_barrier.step (p, a)).map fun shutdown_barrier => { s with shutdown_barrier }
    else none
  | .perform =>
    if s.reader = .run ∧ s.signaled ∧ ¬ s.stopping then some { s with signaled := false, stopping := true }
    else none
  | .removal =>
    if s.reader = .run ∧ ¬ s.stopping then some { s with disconnected := true, stopping := true } else none
  | .runReturns code =>
    if s.reader = .run ∧ (s.stopping ↔ code = .stopped) then some (s.doReturn code) else none

/-- Any step. -/
def Any (_ : MacHandle) (_ : MacAct) : Prop := True

instance (s : MacHandle) : DecidablePred s.Any := fun _ => .isTrue trivial

/-- The steps of the two threads with no help from outside: nobody wakes
without a notification, the device stays, and the loop returns only when it
was stopped. -/
def Own (_ : MacHandle) : MacAct → Prop
  | .client => True
  | .reader => True
  | .barrier _ a => a ≠ .wake
  | .shutdownBarrier _ a => a ≠ .wake
  | .perform => True
  | .removal => False
  | .runReturns code => code = .stopped

/-! ### What every step keeps -/

def clientRank : MacClient → ℕ
  | .create => 0
  | .barrier => 1
  | .opened => 2
  | .signal => 3
  | .wakeUp => 4
  | .shutdownBarrier => 5
  | .join => 6
  | .closed => 7

def readerRank : MacReader → ℕ
  | .absent => 0
  | .source => 1
  | .runLoop => 2
  | .barrier => 3
  | .test => 4
  | .run => 4
  | .wake => 5
  | .shutdownBarrier => 6
  | .returned => 7

/-- A party that is before a barrier has not entered it, and one that is past
it has returned from it. -/
structure Places (b : PthreadBarrier MacParty) (p : MacParty) (here place : ℕ) : Prop where
  before : place < here → b.phase p = .outside
  past : here < place → (b.phase p).hasReturned = true

structure Inv (s : MacHandle) : Prop where
  round : s.barrier.Round
  shutdown_round : s.shutdown_barrier.Round
  client_places : Places s.barrier .client 1 (clientRank s.client)
  reader_places : Places s.barrier .reader 3 (readerRank s.reader)
  client_shutdown : Places s.shutdown_barrier .client 5 (clientRank s.client)
  reader_shutdown : Places s.shutdown_barrier .reader 6 (readerRank s.reader)
  created : s.client = .create ↔ s.reader = .absent
  source : 2 ≤ readerRank s.reader → s.source = true
  run_loop : 3 ≤ readerRank s.reader → s.run_loop = true
  shutdown : 3 ≤ clientRank s.client → s.shutdown_thread = true
  /-- a signal that was given is there, or has done its work -/
  signal : 4 ≤ clientRank s.client →
    s.signaled = true ∨ (s.reader = .run ∧ s.stopping = true) ∨ 5 ≤ readerRank s.reader
  freed : s.client = .closed → s.reader = .returned

section

variable {b b' : PthreadBarrier MacParty} {p : MacParty} {here place place' : ℕ}

theorem Places.mono (h : Places b p here place) (h1 : place' < here → place < here)
    (h2 : here < place' → here < place) :
    Places b p here place' :=
  ⟨fun hlt => h.before (h1 hlt), fun hlt => h.past (h2 hlt)⟩

/-- A party that leaves the barrier has returned from it. -/
theorem Places.leave (hr : (b.phase p).hasReturned = true) (h : here ≤ place') :
    Places b p here place' :=
  ⟨fun hlt => absurd hlt (not_lt.mpr h), fun _ => hr⟩

/-- At the barrier nothing is said of the party. -/
theorem Places.at (h : place = here) : Places b p here place :=
  ⟨fun hlt => absurd h hlt.ne, fun hlt => absurd h hlt.ne'⟩

theorem Places.of_phase (h : Places b p here place) (hp : b'.phase p = b.phase p) :
    Places b' p here place :=
  ⟨fun hlt => hp.trans (h.before hlt), fun hlt => by rw [hp]; exact h.past hlt⟩

end

theorem inv_init : Inv init where
  round := PthreadBarrier.round_init
  shutdown_round := PthreadBarrier.round_init
  client_places := ⟨fun _ => rfl, fun h => absurd h (by decide)⟩
  reader_places := ⟨fun _ => rfl, fun h => absurd h (by decide)⟩
  client_shutdown := ⟨fun _ => rfl, fun h => absurd h (by decide)⟩
  reader_shutdown := ⟨fun _ => rfl, fun h => absurd h (by decide)⟩
  created := iff_of_true rfl rfl
  source h := absurd h (by decide)
  run_loop h := absurd h (by decide)
  shutdown h := absurd h (by decide)
  signal h := absurd h (by decide)
  freed h := by cases h

/-- A statement of the client that leaves the thread where it is. -/
theorem Inv.client_moves {s : MacHandle} (h : Inv s) (hs : s.client ≠ .create) {c : MacClient} (hc : c ≠ .create)
    (h1 : Places s.barrier .client 1 (clientRank c)) (h5 : Places s.shutdown_barrier .client 5 (clientRank c))
    {shutdown_thread signaled : Bool} (hshut : 3 ≤ clientRank c → shutdown_thread = true)
    (hsig : 4 ≤ clientRank c →
      signaled = true ∨ (s.reader = .run ∧ s.stopping = true) ∨ 5 ≤ readerRank s.reader)
    (hfreed : c = .closed → s.reader = .returned) : Inv { s with client := c, shutdown_thread, signaled } where
  round := h.round
  shutdown_round := h.shutdown_round
  client_places := h1
  reader_places := h.reader_places
  client_shutdown := h5
  reader_shutdown := h.reader_shutdown
  created := iff_of_false hc fun hr => hs (h.created.mpr hr)
  source := h.source
  run_loop := h.run_loop
  shutdown := hshut
  signal := hsig
  freed := hfreed

/-- A statement of the thread. -/
theorem Inv.reader_moves {s : MacHandle} (h : Inv s) (hs : s.reader ≠ .absent) {r : MacReader} (hr : r ≠ .absent)
    (h3 : Places s.barrier .reader 3 (readerRank r)) (h6 : Places s.shutdown_barrier .reader 6 (readerRank r))
    {source run_loop disconnected shutdown_thread signaled stopping : Bool}
    (hsource : 2 ≤ readerRank r → source = true) (hrun : 3 ≤ readerRank r → run_loop = true)
    (hshut : s.shutdown_thread = true → shutdown_thread = true)
    (hsig : 4 ≤ clientRank s.client → signaled = true ∨ (r = .run ∧ stopping = true) ∨ 5 ≤ readerRank r)
    (hfreed : s.reader ≠ .returned) :
    Inv { s with reader := r, source, run_loop, disconnected, shutdown_thread, signaled, stopping } where
  round := h.round
  shutdown_round := h.shutdown_round
  client_places := h.client_places
  reader_places := h3
  client_shutdown := h.client_shutdown
  reader_shutdown := h6
  created := iff_of_false (fun hc => hs (h.created.mp hc)) hr
  source := hsource
  run_loop := hrun
  shutdown hc := hshut (h.shutdown hc)
  signal := hsig
  freed hc := absurd (h.freed hc) hfreed

/-- Before the loop the signal is still there. -/
theorem Inv.signaled_of {s : MacHandle} (h : Inv s) (hr : s.reader ≠ .run) (hlt : readerRank s.reader < 5)
    (hc : 4 ≤ clientRank s.client) : s.signaled = true :=
  (h.signal hc).resolve_right fun ho => ho.elim (fun hrun => hr hrun.1) (not_le.mpr hlt)

theorem inv_client {s s' : MacHandle} (h : Inv s) (hs : s.doClient = some s') : Inv s' := by
  have hp := h.client_places
  have hq := h.client_shutdown
  unfold doClient at hs
  cases hc : s.client with
  | create =>
    have hr := h.created.mp hc
    rw [hc] at hs hp hq
    obtain rfl := Option.some.inj hs
    have hrp := h.reader_places
    have hrq := h.reader_shutdown
    rw [hr] at hrp hrq
    have hreader : Places s.barrier .reader 3 (readerRank .source) := hrp.mono (by decide) (by decide)
    have hreader' : Places s.shutdown_barrier .reader 6 (readerRank .source) := hrq.mono (by decide) (by decide)
    have hclient' : Places s.shutdown_barrier .client 5 (clientRank .barrier) := hq.mono (by decide) (by decide)
    have early : ¬ 2 ≤ readerRank .source ∧ ¬ 3 ≤ clientRank .barrier := by decide
    exact {
      round := h.round
      shutdown_round := h.shutdown_round
      client_places := .at rfl
      reader_places := hreader
      client_shutdown := hclient'
      reader_shutdown := hreader'
      created := iff_of_false (fun hn => by cases hn) fun hn => by cases hn
      source := fun hn => absurd hn early.1
      run_loop := fun hn => absurd (Nat.le_of_succ_le hn) early.1
      shutdown := fun hn => absurd hn early.2
      signal := fun hn => absurd (Nat.le_of_succ_le hn) early.2
      freed := fun hn => by cases hn }
  | barrier =>
    rw [hc] at hs hp hq
    obtain ⟨hret, he⟩ := Option.ite_none_right_eq_some.mp hs
    obtain rfl := Option.some.inj he
    exact h.client_moves (by rw [hc]; decide) (by decide) (.leave hret (by decide)) (hq.mono (by decide) (by decide))
      (fun hn => absurd hn (by decide)) (fun hn => absurd hn (by decide)) (fun hn => by cases hn)
  | opened =>
    rw [hc] at hs hp hq
    obtain rfl := Option.some.inj hs
    exact h.client_moves (by rw [hc]; decide) (by decide) (hp.mono (by decide) (by decide))
      (hq.mono (by decide) (by decide)) (fun _ => rfl) (fun hn => absurd hn (by decide)) (fun hn => by cases hn)
  | signal =>
    rw [hc] at hs hp hq
    obtain rfl := Option.some.inj hs
    exact h.client_moves (by rw [hc]; decide) (by decide) (hp.mono (by decide) (by decide))
      (hq.mono (by decide) (by decide)) (fun _ => h.shutdown (by rw [hc]; decide)) (fun _ => .inl rfl)
      (fun hn => by cases hn)
  | wakeUp =>
    rw [hc] at hs hp hq
    obtain rfl := Option.some.inj hs
    exact h.client_moves (by rw [hc]; decide) (by decide) (hp.mono (by decide) (by decide)) (.at rfl)
      (fun _ => h.shutdown (by rw [hc]; decide)) (fun _ => h.signal (by rw [hc]; decide))
      (fun hn => by cases hn)
  | shutdownBarrier =>
    rw [hc] at hs hp hq
    obtain ⟨hret, he⟩ := Option.ite_none_right_eq_some.mp hs
    obtain rfl := Option.some.inj he
    exact h.client_moves (by rw [hc]; decide) (by decide) (hp.mono (by decide) (by decide)) (.leave hret (by decide))
      (fun _ => h.shutdown (by rw [hc]; decide)) (fun _ => h.signal (by rw [hc]; decide))
      (fun hn => by cases hn)
  | join =>
    rw [hc] at hs hp hq
    obtain ⟨hret, he⟩ := Option.ite_none_right_eq_some.mp hs
    obtain rfl := Option.some.inj he
    exact h.client_moves (by rw [hc]; decide) (by decide) (hp.mono (by decide) (by decide))
      (hq.mono (by decide) (by decide)) (fun _ => h.shutdown (by rw [hc]; decide))
      (fun _ => h.signal (by rw [hc]; decide)) (fun _ => hret)
  | closed =>
    rw [hc] at hs
    cases hs

theorem inv_reader {s s' : MacHandle} (h : Inv s) (hs : s.doReader = some s') : Inv s' := by
  have hp := h.reader_places
  have hq := h.reader_shutdown
  unfold doReader at hs
  cases hr : s.reader with
  | absent | run | returned =>
    rw [hr] at hs
    cases hs
  | source =>
    rw [hr] at hs hp hq
    obtain rfl := Option.some.inj hs
    exact h.reader_moves (by rw [hr]; decide) (by decide) (hp.mono (by decide) (by decide))
      (hq.mono (by decide) (by decide)) (fun _ => rfl) (fun hn => absurd hn (by decide)) id
      (fun hn => .inl (h.signaled_of (by rw [hr]; decide) (by rw [hr]; decide) hn)) (by rw [hr]; decide)
  | runLoop =>
    rw [hr] at hs hp hq
    obtain rfl := Option.some.inj hs
    exact h.reader_moves (by rw [hr]; decide) (by decide) (.at rfl) (hq.mono (by decide) (by decide))
      (fun _ => h.source (by rw [hr]; decide)) (fun _ => rfl) id
      (fun hn => .inl (h.signaled_of (by rw [hr]; decide) (by rw [hr]; decide) hn)) (by rw [hr]; decide)
  | barrier =>
    rw [hr] at hs hp hq
    obtain ⟨hret, he⟩ := Option.ite_none_right_eq_some.mp hs
    obtain rfl := Option.some.inj he
    exact h.reader_moves (by rw [hr]; decide) (by decide) (.leave hret (by decide)) (hq.mono (by decide) (by decide))
      (fun _ => h.source (by rw [hr]; decide)) (fun _ => h.run_loop (by rw [hr]; decide)) id
      (fun hn => .inl (h.signaled_of (by rw [hr]; decide) (by rw [hr]; decide) hn)) (by rw [hr]; decide)
  | test =>
    rw [hr] at hs hp hq
    obtain rfl := Option.some.inj hs
    split
    · exact h.reader_moves (by rw [hr]; decide) (by decide) (hp.mono (by decide) (by decide))
        (hq.mono (by decide) (by decide)) (fun _ => h.source (by rw [hr]; decide))
        (fun _ => h.run_loop (by rw [hr]; decide)) id
        (fun hn => .inl (h.signaled_of (by rw [hr]; decide) (by rw [hr]; decide) hn)) (by rw [hr]; decide)
    · exact h.reader_moves (by rw [hr]; decide) (by decide) (hp.mono (by decide) (by decide))
        (hq.mono (by decide) (by decide)) (fun _ => h.source (by rw [hr]; decide))
        (fun _ => h.run_loop (by rw [hr]; decide)) id (fun _ => .inr (.inr (by decide))) (by rw [hr]; decide)
  | wake =>
    rw [hr] at hs hp hq
    obtain rfl := Option.some.inj hs
    exact h.reader_moves (by rw [hr]; decide) (by decide) (hp.mono (by decide) (by decide)) (.at rfl)
      (fun _ => h.source (by rw [hr]; decide)) (fun _ => h.run_loop (by rw [hr]; decide)) id
      (fun _ => .inr (.inr (by decide))) (by rw [hr]; decide)
  | shutdownBarrier =>
    rw [hr] at hs hp hq
    obtain ⟨hret, he⟩ := Option.ite_none_right_eq_some.mp hs
    obtain rfl := Option.some.inj he
    exact h.reader_moves (by rw [hr]; decide) (by decide) (hp.mono (by decide) (by decide)) (.leave hret (by decide))
      (fun _ => h.source (by rw [hr]; decide)) (fun _ => h.run_loop (by rw [hr]; decide)) id
      (fun _ => .inr (.inr (by decide))) (by rw [hr]; decide)

theorem inv_perform {s s' : MacHandle} (h : Inv s) (hs : s.step .perform = some s') : Inv s' := by
  obtain ⟨⟨hr, -, -⟩, he⟩ := Option.ite_none_right_eq_some.mp hs
  obtain rfl := Option.some.inj he
  exact h.reader_moves (by rw [hr]; decide) (by rw [hr]; decide) h.reader_places h.reader_shutdown h.source h.run_loop
    id (fun _ => .inr (.inl ⟨hr, rfl⟩)) (by rw [hr]; decide)

theorem inv_removal {s s' : MacHandle} (h : Inv s) (hs : s.step .removal = some s') : Inv s' := by
  obtain ⟨⟨hr, -⟩, he⟩ := Option.ite_none_right_eq_some.mp hs
  obtain rfl := Option.some.inj he
  exact h.reader_moves (by rw [hr]; decide) (by rw [hr]; decide) h.reader_places h.reader_shutdown h.source h.run_loop
    id (fun _ => .inr (.inl ⟨hr, rfl⟩)) (by rw [hr]; decide)

/-- The loop that was stopped by the signal does not come back to the test. -/
theorem inv_runReturns {s s' : MacHandle} {code : RunCode} (h : Inv s) (hs : s.step (.runReturns code) = some s') :
    Inv s' := by
  obtain ⟨⟨hr, hstop⟩, he⟩ := Option.ite_none_right_eq_some.mp hs
  obtain rfl := Option.some.inj he
  have hp := h.reader_places
  have hq := h.reader_shutdown
  have hsource : s.source = true := h.source (by rw [hr]; decide)
  have hrun : s.run_loop = true := h.run_loop (by rw [hr]; decide)
  rw [hr] at hp hq
  unfold doReturn
  split_ifs with h1 h2
  · exact h.reader_moves (by rw [hr]; decide) (by decide) (hp.mono (by decide) (by decide))
      (hq.mono (by decide) (by decide)) (fun _ => hsource) (fun _ => hrun) id (fun _ => .inr (.inr (by decide)))
      (by rw [hr]; decide)
  · exact h.reader_moves (by rw [hr]; decide) (by decide) (hp.mono (by decide) (by decide))
      (hq.mono (by decide) (by decide)) (fun _ => hsource) (fun _ => hrun) (fun _ => rfl)
      (fun _ => .inr (.inr (by decide))) (by rw [hr]; decide)
  · refine h.reader_moves (by rw [hr]; decide) (by decide) (hp.mono (by decide) (by decide))
      (hq.mono (by decide) (by decide)) (fun _ => hsource) (fun _ => hrun) id (fun hn => .inl ?_) (by rw [hr]; decide)
    refine (h.signal hn).resolve_right fun ho => ?_
    rcases ho with ⟨-, hst⟩ | hrank
    · exact h1 (.inr (hstop.mp hst))
    · rw [hr] at hrank
      exact absurd hrank (by decide)

/-! ### The barriers -/

/-- A step of the threads of a barrier leaves the others where they are. -/
theorem phase_step_ne {b b' : PthreadBarrier MacParty} {p q : MacParty} {a : BarrierAct}
    (hs : b.step (p, a) = some b') (hne : q ≠ p) : b'.phase q = b.phase q := by
  cases a with
  | enter =>
    simp only [PthreadBarrier.step] at hs
    split at hs
    · obtain rfl := Option.some.inj hs
      unfold PthreadBarrier.doEnter
      split <;> exact b.goto_phase_ne _ hne
    · obtain rfl := Option.some.inj hs
      unfold PthreadBarrier.doEnter
      split <;> exact b.goto_phase_ne _ hne
    · cases hs
  | broadcast =>
    simp only [PthreadBarrier.step] at hs
    split at hs
    · obtain rfl := Option.some.inj hs
      exact b.goto_phase_ne _ hne
    · cases hs
  | wake =>
    obtain ⟨-, he⟩ := Option.ite_none_right_eq_some.mp hs
    obtain rfl := Option.some.inj he
    rfl
  | test =>
    simp only [PthreadBarrier.step] at hs
    split at hs
    · obtain ⟨-, he⟩ := Option.ite_none_left_eq_some.mp hs
      obtain rfl := Option.some.inj he
      unfold PthreadBarrier.doTest
      split
      · rfl
      · exact b.goto_phase_ne _ hne
    · cases hs

/-- In a barrier nobody enters twice. -/
theorem once_of_step {b b' : PthreadBarrier MacParty} {p : MacParty} {a : BarrierAct}
    (hs : b.step (p, a) = some b') (hp : (b.phase p).hasReturned = false) : b.Once (p, a) := by
  cases a with
  | enter =>
    simp only [PthreadBarrier.step] at hs
    split at hs
    · assumption
    · rename_i hret
      rw [hret] at hp
      cases hp
    · cases hs
  | _ => trivial

theorem inv_barrier {s s' : MacHandle} {p : MacParty} {a : BarrierAct} (h : Inv s)
    (hs : s.step (.barrier p a) = some s') : Inv s' := by
  obtain ⟨hin, he⟩ := Option.ite_none_right_eq_some.mp hs
  obtain ⟨b, hb, rfl⟩ := Option.map_eq_some_iff.mp he
  cases p with
  | client =>
    obtain ⟨hc, hret⟩ := of_decide_eq_true hin
    exact { h with
      round := PthreadBarrier.round_step h.round (once_of_step hb hret) hb
      client_places := .at (by rw [hc]; rfl)
      reader_places := h.reader_places.of_phase (phase_step_ne hb (by decide)) }
  | reader =>
    obtain ⟨hc, hret⟩ := of_decide_eq_true hin
    exact { h with
      round := PthreadBarrier.round_step h.round (once_of_step hb hret) hb
      client_places := h.client_places.of_phase (phase_step_ne hb (by decide))
      reader_places := .at (by rw [hc]; rfl) }

theorem inv_shutdownBarrier {s s' : MacHandle} {p : MacParty} {a : BarrierAct} (h : Inv s)
    (hs : s.step (.shutdownBarrier p a) = some s') : Inv s' := by
  obtain ⟨hin, he⟩ := Option.ite_none_right_eq_some.mp hs
  obtain ⟨b, hb, rfl⟩ := Option.map_eq_some_iff.mp he
  cases p with
  | client =>
    obtain ⟨hc, hret⟩ := of_decide_eq_true hin
    exact { h with
      shutdown_round := PthreadBarrier.round_step h.shutdown_round (once_of_step hb hret) hb
      client_shutdown := .at (by rw [hc]; rfl)
      reader_shutdown := h.reader_shutdown.of_phase (phase_step_ne hb (by decide)) }
  | reader =>
    obtain ⟨hc, hret⟩ := of_decide_eq_true hin
    exact { h with
      shutdown_round := PthreadBarrier.round_step h.shutdown_round (once_of_step hb hret) hb
      client_shutdown := h.client_shutdown.of_phase (phase_step_ne hb (by decide))
      reader_shutdown := .at (by rw [hc]; rfl) }

theorem inv_step {s s' : MacHandle} {a : MacAct} (h : Inv s) (hs : s.step a = some s') :
    Inv s' := by
  cases a with
  | client => exact inv_client h hs
  | reader => exact inv_reader h hs
  | barrier p a => exact inv_barrier h hs
  | shutdownBarrier p a => exact inv_shutdownBarrier h hs
  | perform => exact inv_perform h hs
  | removal => exact inv_removal h hs
  | runReturns code => exact inv_runReturns h hs

/-! ### Closing comes to an end -/

theorem clientRank_le (c : MacClient) : clientRank c ≤ 7 := by cases c <;> decide

theorem readerRank_le (r : MacReader) : readerRank r ≤ 7 := by cases r <;> decide

/-- The way the two threads have left, with what each has left in the
barriers. -/
def distance (s : MacHandle) : ℕ :=
  (7 - clientRank s.client) + (7 - readerRank s.reader) + s.barrier.toGo + s.shutdown_barrier.toGo +
    if s.stopping then 0 else 1

/-- A step of their own brings the threads nearer. -/
def Nearer (s : MacHandle) : Prop := ∃ a s', s.Own a ∧ s.step a = some s' ∧ s'.distance < s.distance

theorem nearer_client {s s' : MacHandle} {c c' : MacClient} (hs : s.doClient = some s')
    (hb : s'.barrier = s.barrier) (hq : s'.shutdown_barrier = s.shutdown_barrier) (hst : s'.stopping = s.stopping)
    (hr : readerRank s.reader ≤ readerRank s'.reader) (hc : s.client = c) (hc' : s'.client = c')
    (hlt : clientRank c < clientRank c') : Nearer s := by
  refine ⟨.client, s', trivial, hs, ?_⟩
  have hle := clientRank_le c'
  simp only [distance, hb, hq, hst, hc, hc']
  omega

theorem nearer_reader {s s' : MacHandle} {a : MacAct} {r r' : MacReader} (hs : s.step a = some s') (ha : s.Own a)
    (hc : s'.client = s.client) (hb : s'.barrier = s.barrier) (hq : s'.shutdown_barrier = s.shutdown_barrier)
    (hst : s'.stopping = s.stopping) (hr : s.reader = r) (hr' : s'.reader = r')
    (hlt : readerRank r < readerRank r') : Nearer s := by
  refine ⟨a, s', ha, hs, ?_⟩
  have hle := readerRank_le r'
  simp only [distance, hc, hb, hq, hst, hr, hr']
  omega

theorem nearer_barrier {s : MacHandle} {p : MacParty} {a : BarrierAct} {b : PthreadBarrier MacParty}
    (hin : s.InBarrier p = true) (ha : a ≠ .wake) (hb : s.barrier.step (p, a) = some b)
    (hlt : b.toGo < s.barrier.toGo) : Nearer s := by
  refine ⟨.barrier p a, { s with barrier := b }, ha, ?_, ?_⟩
  · rw [step, if_pos hin, hb, Option.map_some]
  · simp only [distance]
    omega

theorem nearer_shutdownBarrier {s : MacHandle} {p : MacParty} {a : BarrierAct} {b : PthreadBarrier MacParty}
    (hin : s.InShutdownBarrier p = true) (ha : a ≠ .wake) (hb : s.shutdown_barrier.step (p, a) = some b)
    (hlt : b.toGo < s.shutdown_barrier.toGo) : Nearer s := by
  refine ⟨.shutdownBarrier p a, { s with shutdown_barrier := b }, ha, ?_, ?_⟩
  · rw [step, if_pos hin, hb, Option.map_some]
  · simp only [distance]
    omega

theorem step_enter {b : PthreadBarrier MacParty} {p : MacParty} (hp : b.phase p = .outside) :
    b.step (p, .enter) = some (b.doEnter p) := by
  simp only [PthreadBarrier.step, hp]

theorem ne_wake_of_inside {b : PthreadBarrier MacParty} {p : MacParty} {a : BarrierAct} (h : b.Inside (p, a)) :
    a ≠ .wake := by
  rcases h with h | h <;> (rintro rfl; cases h)

/-- Who is inside a barrier and has not returned is at it. -/
theorem Inv.inBarrier {s : MacHandle} (h : Inv s) {p : MacParty} (hout : s.barrier.phase p ≠ .outside)
    (hret : (s.barrier.phase p).hasReturned = false) : s.InBarrier p = true := by
  cases p with
  | client =>
    have hplace : clientRank s.client = 1 := by
      by_contra hne
      rcases Nat.lt_or_gt_of_ne hne with hlt | hlt
      · exact hout (h.client_places.before hlt)
      · exact Bool.false_ne_true (hret.symm.trans (h.client_places.past hlt))
    have hc : s.client = .barrier := by cases hc : s.client <;> rw [hc] at hplace <;> first | rfl | cases hplace
    exact decide_eq_true ⟨hc, hret⟩
  | reader =>
    have hplace : readerRank s.reader = 3 := by
      by_contra hne
      rcases Nat.lt_or_gt_of_ne hne with hlt | hlt
      · exact hout (h.reader_places.before hlt)
      · exact Bool.false_ne_true (hret.symm.trans (h.reader_places.past hlt))
    have hr : s.reader = .barrier := by cases hr : s.reader <;> rw [hr] at hplace <;> first | rfl | cases hplace
    exact decide_eq_true ⟨hr, hret⟩

theorem Inv.inShutdownBarrier {s : MacHandle} (h : Inv s) {p : MacParty}
    (hout : s.shutdown_barrier.phase p ≠ .outside) (hret : (s.shutdown_barrier.phase p).hasReturned = false) :
    s.InShutdownBarrier p = true := by
  cases p with
  | client =>
    have hplace : clientRank s.client = 5 := by
      by_contra hne
      rcases Nat.lt_or_gt_of_ne hne with hlt | hlt
      · exact hout (h.client_shutdown.before hlt)
      · exact Bool.false_ne_true (hret.symm.trans (h.client_shutdown.past hlt))
    have hc : s.client = .shutdownBarrier := by
      cases hc : s.client <;> rw [hc] at hplace <;> first | rfl | cases hplace
    exact decide_eq_true ⟨hc, hret⟩
  | reader =>
    have hplace : readerRank s.reader = 6 := by
      by_contra hne
      rcases Nat.lt_or_gt_of_ne hne with hlt | hlt
      · exact hout (h.reader_shutdown.before hlt)
      · exact Bool.false_ne_true (hret.symm.trans (h.reader_shutdown.past hlt))
    have hr : s.reader = .shutdownBarrier := by
      cases hr : s.reader <;> rw [hr] at hplace <;> first | rfl | cases hplace
    exact decide_eq_true ⟨hr, hret⟩

/-- When all are inside a barrier, one that has not returned goes on. -/
theorem Inv.barrier_goes {s : MacHandle} (h : Inv s) (hall : ∀ p, s.barrier.phase p ≠ .outside)
    (hn : ∃ p, (s.barrier.phase p).hasReturned = false) : Nearer s := by
  obtain ⟨p, a, b, hin, hb, hret, -, hlt⟩ := (h.round.released hall).exists_inside hn
  exact nearer_barrier (h.inBarrier (hall p) hret) (ne_wake_of_inside hin) hb hlt

theorem Inv.shutdownBarrier_goes {s : MacHandle} (h : Inv s) (hall : ∀ p, s.shutdown_barrier.phase p ≠ .outside)
    (hn : ∃ p, (s.shutdown_barrier.phase p).hasReturned = false) : Nearer s := by
  obtain ⟨p, a, b, hin, hb, hret, -, hlt⟩ := (h.shutdown_round.released hall).exists_inside hn
  exact nearer_shutdownBarrier (h.inShutdownBarrier (hall p) hret) (ne_wake_of_inside hin) hb hlt

theorem forall_party {P : MacParty → Prop} (hc : P .client) (hr : P .reader) : ∀ p, P p
  | .client => hc
  | .reader => hr

/-- The thread comes to the first barrier. -/
theorem Inv.reader_comes {s : MacHandle} (h : Inv s) (hc : s.client ≠ .create)
    (hout : s.barrier.phase .reader = .outside) : Nearer s := by
  have late (hlt : 3 < readerRank s.reader) : Nearer s := by
    have hret := h.reader_places.past hlt
    rw [hout] at hret
    cases hret
  cases hr : s.reader with
  | absent => exact absurd (h.created.mpr hr) hc
  | source =>
    have hs : s.step .reader = some { s with reader := .runLoop, source := true } := by simp only [step, doReader, hr]
    exact nearer_reader hs trivial rfl rfl rfl rfl hr rfl (Nat.lt_succ_self _)
  | runLoop =>
    have hs : s.step .reader = some { s with reader := .barrier, run_loop := true } := by simp only [step, doReader, hr]
    exact nearer_reader hs trivial rfl rfl rfl rfl hr rfl (Nat.lt_succ_self _)
  | barrier =>
    have hin : s.InBarrier .reader = true := decide_eq_true ⟨hr, by rw [hout]; rfl⟩
    exact nearer_barrier hin (by decide) (step_enter hout) (PthreadBarrier.toGo_doEnter hout)
  | _ => exact late (by rw [hr]; decide)

/-- After the signal the thread comes to the second. -/
theorem Inv.reader_leaves {s : MacHandle} (h : Inv s) (hc : s.client = .shutdownBarrier)
    (hout : s.shutdown_barrier.phase .reader = .outside) : Nearer s := by
  have hrank : clientRank s.client = 5 := by rw [hc]; rfl
  have hclient : (s.barrier.phase .client).hasReturned = true := h.client_places.past (by omega)
  have hall := h.round.inside hclient
  have hsignal := h.signal (by omega)
  cases hr : s.reader with
  | absent | source | runLoop =>
    have hbefore := h.reader_places.before (by rw [hr]; decide)
    exact absurd hbefore (hall .reader)
  | barrier =>
    cases hret : (s.barrier.phase .reader).hasReturned with
    | false => exact h.barrier_goes hall ⟨.reader, hret⟩
    | true =>
      have hs : s.step .reader = some { s with reader := .test } := by
        simp only [step, doReader, hr, hret, if_true]
      exact nearer_reader hs trivial rfl rfl rfl rfl hr rfl (Nat.lt_succ_self _)
  | test =>
    have hshut := h.shutdown (by omega)
    have hs : s.step .reader = some { s with reader := .wake } := by
      simp only [step, doReader, hr, hshut, Bool.not_true, Bool.false_and, Bool.false_eq_true, if_false]
    exact nearer_reader hs trivial rfl rfl rfl rfl hr rfl (Nat.lt_succ_self _)
  | run =>
    cases hst : s.stopping with
    | true =>
      have hs : s.step (.runReturns .stopped) = some { s with disconnected := true, reader := .wake } := by
        simp only [step, hr, hst, doReturn, or_true, if_true, and_self]
      exact nearer_reader hs rfl rfl rfl rfl rfl hr rfl (Nat.lt_succ_self _)
    | false =>
      have hsig : s.signaled = true := hsignal.resolve_right fun ho => ho.elim
        (fun hrun => Bool.false_ne_true (hst.symm.trans hrun.2)) fun hle => by
          rw [hr] at hle
          exact absurd hle (by decide)
      refine ⟨.perform, { s with signaled := false, stopping := true }, trivial, ?_, ?_⟩
      · rw [step, if_pos ⟨hr, hsig, by rw [hst]; decide⟩]
      · simp only [distance, hst]
        exact Nat.lt_succ_self _
  | wake =>
    have hs : s.step .reader = some { s with reader := .shutdownBarrier } := by simp only [step, doReader, hr]
    exact nearer_reader hs trivial rfl rfl rfl rfl hr rfl (Nat.lt_succ_self _)
  | shutdownBarrier =>
    have hin : s.InShutdownBarrier .reader = true := decide_eq_true ⟨hr, by rw [hout]; rfl⟩
    exact nearer_shutdownBarrier hin (by decide) (step_enter hout) (PthreadBarrier.toGo_doEnter hout)
  | returned =>
    have hret := h.reader_shutdown.past (by rw [hr]; decide)
    rw [hout] at hret
    cases hret

/-- Until the device is closed, a step of the threads' own brings them nearer. -/
theorem Inv.nearer {s : MacHandle} (h : Inv s) (hn : s.client ≠ .closed) : Nearer s := by
  cases hc : s.client with
  | closed => exact absurd hc hn
  | create =>
    have hr := h.created.mp hc
    have hs : s.doClient = some { s with client := .barrier, reader := .source } := by simp only [doClient, hc]
    exact nearer_client hs rfl rfl rfl (by rw [hr]; exact Nat.zero_le _) hc rfl (Nat.lt_succ_self _)
  | barrier =>
    by_cases hout : s.barrier.phase .client = .outside
    · have hin : s.InBarrier .client = true := decide_eq_true ⟨hc, by rw [hout]; rfl⟩
      exact nearer_barrier hin (by decide) (step_enter hout) (PthreadBarrier.toGo_doEnter hout)
    cases hret : (s.barrier.phase .client).hasReturned with
    | true =>
      have hs : s.doClient = some { s with client := .opened } := by simp only [doClient, hc, hret, if_true]
      exact nearer_client hs rfl rfl rfl (le_refl _) hc rfl (Nat.lt_succ_self _)
    | false =>
      by_cases hrout : s.barrier.phase .reader = .outside
      · exact h.reader_comes (by rw [hc]; decide) hrout
      · exact h.barrier_goes (forall_party hout hrout) ⟨.client, hret⟩
  | opened =>
    have hs : s.doClient = some { s with client := .signal, shutdown_thread := true } := by simp only [doClient, hc]
    exact nearer_client hs rfl rfl rfl (le_refl _) hc rfl (Nat.lt_succ_self _)
  | signal =>
    have hs : s.doClient = some { s with client := .wakeUp, signaled := true } := by simp only [doClient, hc]
    exact nearer_client hs rfl rfl rfl (le_refl _) hc rfl (Nat.lt_succ_self _)
  | wakeUp =>
    have hs : s.doClient = some { s with client := .shutdownBarrier } := by simp only [doClient, hc]
    exact nearer_client hs rfl rfl rfl (le_refl _) hc rfl (Nat.lt_succ_self _)
  | shutdownBarrier =>
    by_cases hout : s.shutdown_barrier.phase .client = .outside
    · have hin : s.InShutdownBarrier .client = true := decide_eq_true ⟨hc, by rw [hout]; rfl⟩
      exact nearer_shutdownBarrier hin (by decide) (step_enter hout) (PthreadBarrier.toGo_doEnter hout)
    cases hret : (s.shutdown_barrier.phase .client).hasReturned with
    | true =>
      have hs : s.doClient = some { s with client := .join } := by simp only [doClient, hc, hret, if_true]
      exact nearer_client hs rfl rfl rfl (le_refl _) hc rfl (Nat.lt_succ_self _)
    | false =>
      by_cases hrout : s.shutdown_barrier.phase .reader = .outside
      · exact h.reader_leaves hc hrout
      · exact h.shutdownBarrier_goes (forall_party hout hrout) ⟨.client, hret⟩
  | join =>
    have hall := h.shutdown_round.inside (h.client_shutdown.past (by rw [hc]; decide))
    cases hret : (s.shutdown_barrier.phase .reader).hasReturned with
    | false => exact h.shutdownBarrier_goes hall ⟨.reader, hret⟩
    | true =>
      have hrank : 6 ≤ readerRank s.reader := not_lt.mp fun hlt => hall .reader (h.reader_shutdown.before hlt)
      cases hr : s.reader with
      | shutdownBarrier =>
        have hs : s.step .reader = some { s with reader := .returned } := by
          simp only [step, doReader, hr, hret, if_true]
        exact nearer_reader hs trivial rfl rfl rfl rfl hr rfl (Nat.lt_succ_self _)
      | returned =>
        have hs : s.doClient = some { s with client := .closed } := by simp only [doClient, hc, hr, if_true]
        exact nearer_client hs rfl rfl rfl (le_refl _) hc rfl (Nat.lt_succ_self _)
      | _ =>
        rw [hr] at hrank
        exact absurd hrank (by decide)

/-- **The handshake.** In every state of every run, whatever the run loop
returns, whenever the device is removed and whoever wakes: from its return
`hid_open_path` has left the source and the run loop that `hid_close` uses;
the thread is there while `hid_close` signals and wakes it; the device is
freed only after the thread has returned; and `hid_close` can always come to
its end, with no time-out of the run loop and no wake-up but the notified
ones. -/
theorem handshake {s : MacHandle} (h : Lts.Reach step Any init s) :
    (2 ≤ clientRank s.client → s.source = true ∧ s.run_loop = true) ∧
    (s.client = .signal ∨ s.client = .wakeUp → s.reader ≠ .returned) ∧
    (s.client = .closed → s.reader = .returned) ∧
    ∃ s', Lts.Reach step Own s s' ∧ s'.client = .closed := by
  have hi : Inv s := h.inv inv_init fun _ _ _ hi _ hs => inv_step hi hs
  refine ⟨fun hrank => ?_, fun hc hret => ?_, hi.freed, ?_⟩
  · have hreader := hi.round.inside (hi.client_places.past hrank) .reader
    have hplace : 3 ≤ readerRank s.reader := not_lt.mp fun hlt => hreader (hi.reader_places.before hlt)
    exact ⟨hi.source (by omega), hi.run_loop hplace⟩
  · -- the thread would have passed a barrier that the client has not reached
    have hpast := hi.reader_shutdown.past (by rw [hret]; decide)
    refine hi.shutdown_round.inside hpast .client (hi.client_shutdown.before ?_)
    rcases hc with hc | hc <;> (rw [hc]; decide)
  · obtain ⟨s', hr, -, hclosed⟩ := Lts.exists_reach_of_measure (G := fun t => t.client = .closed) distance
      (fun t (ht : Inv t) hn => by
        obtain ⟨a, t', ha, hs, hlt⟩ := ht.nearer hn
        exact ⟨a, t', ha, hs, inv_step ht hs, hlt⟩) hi
    exact ⟨s', hr, hclosed⟩

/-- The device is removed before it is closed. -/
theorem handshake_removed : ∃ s : MacHandle, s.disconnected = true ∧
    (2 ≤ clientRank s.client → s.source = true ∧ s.run_loop = true) ∧
    (s.client = .signal ∨ s.client = .wakeUp → s.reader ≠ .returned) ∧
    (s.client = .closed → s.reader = .returned) ∧ ∃ s', Lts.Reach step Own s s' ∧ s'.client = .closed := by
  obtain ⟨s, hr, hp⟩ := Lts.exists_reach_of_run step Any init
    [.client, .barrier .client .enter, .reader, .reader, .barrier .reader .enter, .barrier .reader .broadcast,
      .reader, .reader, .removal] (fun s => s.disconnected) (by decide)
  exact ⟨s, hp, handshake hr⟩

end MacHandle

end ToolbitSdk
