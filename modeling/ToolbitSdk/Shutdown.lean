/-
# Can the worker leave its loop when it is told to?

`stop` sets `thAbort` and joins the worker, which looks at `thAbort` at the
end of its loop. The only place where it waits on the way is
`resque.enqueue` (`Sys.leaves_iff`), and only a call that dequeues makes
room there. In every run where the worker reads a packet it takes for a
reply only while there is room, or while a call is on its way to `dequeue`,
the worker can leave whenever `thAbort` is set and no call is in progress
(`Sys.shutsDown_of_roomy`). Where it reads one more, a `stop` waits for ever
(`Sys.stop_waits`): nothing empties `resque` but the calls.
-/
import ToolbitSdk.Causality

namespace ToolbitSdk

/-- The call has passed its `isOpen` test, and has not dequeued. -/
def Pc.asked (p : Pc) : Bool := p.writing || p.waiting

/-- The steps from there to the end of the worker, when `thAbort` is set. -/
def WorkerPc.left : WorkerPc → ℕ
  | isOpen => 4
  | read => 3
  | dispatch _ _ => 2
  | thAbort => 1
  | returned => 0

namespace Sys

/-- No place is left in `resque`. -/
def Full (s : Sys) : Prop := s.resque.data.length = s.resque.capacity

instance (s : Sys) : Decidable s.Full := inferInstanceAs (Decidable (_ = _))

/-- The worker waits in `resque.enqueue`. -/
def Blocked (s : Sys) : Prop :=
  (∃ n session, s.worker = some (.dispatch n session)) ∧ route s.rcvp.dat = .reply ∧ s.Full

/-- No thread is inside `readAttribute` or `writeAttribute`. -/
def Quiet (s : Sys) : Prop := ∀ c, (s.threads c).current c = []

/-- A worker that has not returned can take its next step, whatever the HID
layer gives it, and is nearer to its end after it. -/
def Leaves (s : Sys) : Prop :=
  ∀ w, s.worker = some w → w ≠ .returned → ∀ got, ∃ s' w', s.step (.worker got) = some s' ∧
    s'.worker = some w' ∧ w'.left < w.left

/-- When the worker is told to stop and no call is in progress, it can. -/
def ShutsDown (s : Sys) : Prop := s.thAbort = true → s.Quiet → s.Leaves

/-- The worker reads no packet it takes for a reply while `resque` is full
and no call is on its way to `dequeue`. -/
def Roomy (s : Sys) : Act → Prop
  | .worker got => s.worker = some .read → ∀ r h, s.tdev.read got = some (r, h) →
    route (s.rcvp.receive r).dat = .reply → s.Full → ∃ c, (s.threads c).asked = true
  | _ => True

/-! ### Where the worker waits -/

/-- A worker that is told to stop can step on to its end unless it waits in
`enqueue`. -/
theorem leaves_iff {s : Sys} (h : s.thAbort = true) : s.Leaves ↔ ¬ s.Blocked := by
  constructor
  · rintro hl ⟨⟨n, session, hw⟩, hr, hf⟩
    obtain ⟨s', -, hs, -⟩ := hl _ hw nofun true
    have hq : s.resque.enqueue ⟨s.rcvp, n, session⟩ = none := if_neg (not_not.mpr hf)
    simp only [step, workerStep, hw, doDispatch, hr, hq] at hs
    cases hs
  · intro hb w hw hne got
    cases w with
    | isOpen =>
      refine ⟨_, _, by rw [step, workerStep, hw], rfl, ?_⟩
      split <;> decide
    | read =>
      have hs : s.step (.worker got) = some (s.doRead got) := by rw [step, workerStep, hw]
      unfold doRead at hs
      split at hs
      · exact ⟨_, _, hs, rfl, by decide⟩
      · exact ⟨_, _, hs, rfl, by simp only [WorkerPc.left]; omega⟩
    | dispatch n session =>
      have hs : s.step (.worker got) = s.doDispatch n session := by rw [step, workerStep, hw]
      unfold doDispatch at hs
      split at hs
      · exact ⟨_, _, hs, rfl, by simp [WorkerPc.left]⟩
      · exact ⟨_, _, hs, rfl, by simp [WorkerPc.left]⟩
      · exact ⟨_, _, hs, rfl, by simp [WorkerPc.left]⟩
      · rename_i hr
        have hq : s.resque.data.length ≠ s.resque.capacity := fun hf => hb ⟨⟨n, session, hw⟩, hr, hf⟩
        rw [LockedQueue.enqueue, if_pos hq] at hs
        exact ⟨_, _, hs, rfl, by simp [WorkerPc.left]⟩
    | thAbort =>
      refine ⟨_, _, by rw [step, workerStep, hw], rfl, ?_⟩
      rw [h]
      decide
    | returned => exact absurd rfl hne

/-! ### The invariant -/

/-- The queue is within its capacity, and a worker that waits for a place
waits for a call that will make one. -/
structure Relieved (s : Sys) : Prop where
  fits : s.resque.data.length ≤ s.resque.capacity
  relief : s.Blocked → ∃ c, (s.threads c).asked = true

/-- A thread that is not on its way to `dequeue` moves: those that are stay
so. -/
theorem asked_goto {s : Sys} {c : ℕ} {pc p : Pc} (hpc : s.threads c = pc) (hc : pc.asked = false)
    (h : ∃ c', (s.threads c').asked = true) : ∃ c', ((s.goto c p).threads c').asked = true := by
  obtain ⟨c', hc'⟩ := h
  have hne : c' ≠ c := by
    rintro rfl
    rw [hpc, hc] at hc'
    cases hc'
  exact ⟨c', by rw [goto_threads_ne s p hne]; exact hc'⟩

/-- Kept by a step of such a thread that leaves the worker and the queue. -/
theorem Relieved.goto {s s' : Sys} (h : Relieved s) {c : ℕ} {pc p : Pc} (hpc : s.threads c = pc)
    (hc : pc.asked = false) (ht : s'.threads = (s.goto c p).threads) (hw : s'.worker = s.worker)
    (hp : s'.rcvp = s.rcvp) (hq : s'.resque = s.resque) : Relieved s' where
  fits := by rw [hq]; exact h.fits
  relief hb := by
    unfold Blocked Full at hb
    rw [hw, hp, hq] at hb
    rw [ht]
    exact asked_goto hpc hc (h.relief hb)

/-- Kept by a step after which the worker holds no packet. -/
theorem Relieved.free {s' : Sys} (hf : s'.resque.data.length ≤ s'.resque.capacity)
    (hw : ∀ n session, s'.worker ≠ some (.dispatch n session)) : Relieved s' where
  fits := hf
  relief hb := by
    obtain ⟨⟨n, session, h⟩, -⟩ := hb
    exact absurd h (hw n session)

theorem Relieved.step {s s' : Sys} {a : Act} (h : Relieved s) (hs : Steps s a s') (ha : Roomy s a) :
    Relieved s' := by
  cases hs with
  | @write c env r rest hpc =>
    have hasked : ((s.doWrite c r rest env).threads c).asked = true := by
      rw [show (s.doWrite c r rest env).threads c = .dequeue r rest s.mark from goto_threads s c _]
      rfl
    exact ⟨h.fits, fun _ => ⟨c, hasked⟩⟩
  | @dequeue c env r rest mark x xs hpc hd =>
    -- there is room now
    have hlt : xs.length < s.resque.capacity := by
      have hf := h.fits
      rw [hd, List.length_cons] at hf
      exact hf
    refine ⟨hlt.le, fun hb => ?_⟩
    exact absurd hb.2.2 (Nat.ne_of_lt hlt)
  | @read got n r rs hw hg hh =>
    refine ⟨h.fits, fun hb => ?_⟩
    have hread : s.tdev.read got = some (r, ⟨n, rs⟩) := by simp only [TbiDevice.read, hh, hg]
    exact ha hw r _ hread hb.2.1 hb.2.2
  | enqueue hw hr hq =>
    have hlt : s.resque.data.length < s.resque.capacity := Nat.lt_of_le_of_ne h.fits hq
    refine .free ?_ fun _ _ hd => by cases hd
    rw [List.length_append, List.length_singleton]
    exact hlt
  | start | join | readNothing | dispatch => exact .free h.fits fun _ _ hd => by cases hd
  | workerIsOpen | workerThAbort => exact .free h.fits fun n ses => by simp only; split <;> simp
  | emit => exact ⟨h.fits, h.relief⟩
  | call hpc | opened hpc _ | notOpen hpc _ | openRefused hpc _ | openAllowed hpc _ | openFailed hpc _
  | openDone hpc _ _ | active hpc _ | closeRefused hpc _ | closeAllowed hpc _ | notActive hpc _ | stop hpc _
  | closeDevice hpc => exact h.goto hpc rfl rfl rfl rfl rfl

theorem relieved_new (junk : TbiPacket) (handler : Bool) : Relieved (new junk handler) :=
  .free (Nat.zero_le _) nofun

/-- A call on its way to `dequeue` is in progress. -/
theorem current_of_asked {p : Pc} (c : ℕ) (h : p.asked = true) : p.current c ≠ [] := by
  cases p with
  | write r rest => exact List.cons_ne_nil _ _
  | dequeue r rest m => exact List.cons_ne_nil _ _
  | _ => cases h

/-- **The worker can leave in every run with room for the replies.** -/
theorem shutsDown_of_roomy {junk : TbiPacket} {handler : Bool} {s : Sys}
    (h : Lts.Reach Sys.step Roomy (new junk handler) s) : s.ShutsDown := by
  have hi : Relieved s := h.inv (I := Relieved) (relieved_new junk handler)
    fun s a s' hi ha hs => hi.step (steps_of_step hs) ha
  intro hab hquiet
  refine (leaves_iff hab).mpr fun hb => ?_
  obtain ⟨c, hc⟩ := hi.relief hb
  exact current_of_asked c hc (hquiet c)

/-! ### One packet too many -/

/-- A worker that waits in `enqueue` while no call is in progress waits on. -/
theorem not_shutsDown {s : Sys} (hb : s.Blocked) (hab : s.thAbort = true) (hq : s.Quiet) :
    ¬ s.ShutsDown :=
  fun hs => (leaves_iff hab).mp (hs hab hq) hb

/-- **A full queue keeps the worker.** Where the worker reads a packet it
takes for a reply, with `resque` full and no call in progress, a `stop` has a
continuation in which it waits for a worker that waits for a place. -/
theorem stop_waits {s : Sys} {got : Bool} {r : Report} {h : HidDevice} (hw : s.worker = some .read)
    (hread : s.tdev.read got = some (r, h)) (hr : route (s.rcvp.receive r).dat = .reply) (hf : s.Full)
    (hquiet : s.Quiet) {c : ℕ} (hc : s.threads c = .idle) :
    ∃ s', Lts.Reach Sys.step Any s s' ∧ ¬ s'.ShutsDown := by
  -- the worker reads, and thread `c` calls `stop`
  have h1 : s.step (.worker got) = some (s.doRead got) := by rw [step, workerStep, hw]
  unfold doRead at h1
  rw [hread] at h1
  obtain ⟨s₁, h1, hth, hb, hq⟩ : ∃ s₁, s.step (.worker got) = some s₁ ∧
      s₁.threads = s.threads ∧ s₁.Blocked ∧
    s₁.thAbort = s.thAbort := ⟨_, h1, rfl, ⟨⟨_, _, rfl⟩, hr, hf⟩, rfl⟩
  have h2 : s₁.step (.call c .stop) = some (s₁.goto c (.stop false)) := by
    rw [step, hth, hc]
    rfl
  have hpc : (s₁.goto c (.stop false)).threads c = .stop false := goto_threads ..
  have hr1 : Lts.Reach Sys.step Any s (s₁.goto c (.stop false)) :=
    .step _ (.step _ .refl trivial h1) trivial h2
  have quiet {t : Sys} {p : Pc} (ht : t.threads = ((s₁.goto c (.stop false)).goto c p).threads)
      (hp : p.current c = []) : t.Quiet := by
    intro c'
    by_cases hcc : c' = c
    · subst hcc
      rw [ht, goto_threads]
      exact hp
    · rw [ht, goto_threads_ne _ _ hcc, goto_threads_ne _ _ hcc, hth]
      exact hquiet c'
  cases hab : s₁.thAbort with
  | true =>
    have h3 : (s₁.goto c (.stop false)).step (.thread c .good) =
        some ((s₁.goto c (.stop false)).goto c .idle) := by
      rw [step, threadStep, hpc]
      simp only [goto, hab, ↓reduceIte, Bool.false_eq_true]
    exact ⟨_, .step _ hr1 trivial h3, not_shutsDown hb hab (quiet rfl rfl)⟩
  | false =>
    have h3 : (s₁.goto c (.stop false)).step (.thread c .good) =
        some { (s₁.goto c (.stop false)).goto c (.join false) with thAbort := true } := by
      rw [step, threadStep, hpc]
      simp only [goto, hab, ↓reduceIte, Bool.false_eq_true]
    exact ⟨_, .step _ hr1 trivial h3, not_shutsDown hb rfl (quiet rfl rfl)⟩

/-- A report, and the worker's turn on it. -/
def turn (r : Report) : List Act := [.emit r, .worker true, .worker true, .worker true, .worker true]

/-- `openPath`, each of its five reads answered. -/
def opening : List Act :=
  [.call 0 (.openPath (some "dev") .blank), .thread 0 .good, .thread 0 .good, .thread 0 .good] ++
    (List.replicate 5 ([.thread 0 .good, .thread 0 .good] ++ turn oneByte ++ [.thread 0 .good])).flatten

/-- After it, `n` packets no request asked for and one more that the worker
has read; then `close`, up to its `join`. -/
def strays (n : ℕ) : List Act :=
  opening ++ (List.replicate n (turn oneByte)).flatten ++ [.emit oneByte, .worker true, .worker true] ++
    [.call 0 .close, .thread 0 .good, .thread 0 .good]

/-- Thread 0 alone, the worker reading only with room in `resque`. -/
def RoomyAlone (s : Sys) : Act → Prop
  | .worker _ => ¬ s.Full
  | .call c _ => c = 0
  | _ => True

instance (s : Sys) : DecidablePred (RoomyAlone s)
  | .worker _ => inferInstanceAs (Decidable (¬ s.Full))
  | .call c _ => inferInstanceAs (Decidable (c = 0))
  | .thread _ _ => inferInstanceAs (Decidable True)
  | .emit _ => inferInstanceAs (Decidable True)

theorem shutsDown_of_roomy_three : ∃ s, Lts.Reach Sys.step Roomy (new .blank false) s ∧
    s.thAbort = true ∧ s.resque.data.length = 3 ∧ s.held.length = 1 ∧ s.ShutsDown := by
  obtain ⟨s, hs, hp⟩ := Lts.exists_reach_of_run Sys.step RoomyAlone (new .blank false) (strays 3)
    (fun s => s.thAbort && s.resque.data.length == 3 && s.held.length == 1) (by decide +kernel)
  have hroomy : Lts.Reach Sys.step Roomy (new .blank false) s := hs.mono_of_reach fun s a _ ha => by
    cases a with
    | worker got => exact fun _ _ _ _ _ hf => absurd hf ha
    | _ => trivial
  simp only [Bool.and_eq_true, beq_iff_eq] at hp
  exact ⟨s, hroomy, hp.1.1, hp.1.2, hp.2, shutsDown_of_roomy hroomy⟩

/-- Thread 0 alone. -/
def Alone (_ : Sys) : Act → Prop
  | .call c _ => c = 0
  | _ => True

instance (s : Sys) : DecidablePred (Alone s)
  | .call c _ => inferInstanceAs (Decidable (c = 0))
  | .thread _ _ => inferInstanceAs (Decidable True)
  | .worker _ => inferInstanceAs (Decidable True)
  | .emit _ => inferInstanceAs (Decidable True)

/-- With a fifth packet, `close` waits for a worker that waits in `enqueue`. -/
theorem shutdown_deadlocks : ¬ ∀ s, Lts.Reach Sys.step Any (new .blank false) s → s.ShutsDown := by
  intro hall
  obtain ⟨s, hs, hp⟩ := Lts.exists_reach_of_run Sys.step Alone (new .blank false) (strays 4)
    (fun s => s.thAbort && s.held.length == 1 && decide (route s.rcvp.dat = .reply) && decide s.Full &&
      (s.threads 0).current 0 == []) (by decide +kernel)
  simp only [Bool.and_eq_true, beq_iff_eq, decide_eq_true_eq] at hp
  obtain ⟨⟨⟨⟨hab, hheld⟩, hr⟩, hf⟩, hcur⟩ := hp
  have hidle := idle_of_alone (fun _ _ _ h => h) hs
  have hquiet : s.Quiet := fun c => by
    by_cases hc : c = 0
    · subst hc
      exact hcur
    · rw [hidle c hc]
      rfl
  have hany : Lts.Reach Sys.step Any (new .blank false) s := hs.mono_of_reach fun _ _ _ _ => trivial
  have hw : ∃ n session, s.worker = some (.dispatch n session) := by
    by_contra hno
    push Not at hno
    rw [held_eq_nil hno] at hheld
    cases hheld
  exact not_shutsDown ⟨hw, hr, hf⟩ hab hquiet (hall s hany)

end Sys

end ToolbitSdk
