/-
# When a reply answers the request it is taken for

Over every run, with any threads starting, stopping, opening and closing and
any packets from the device: is the packet a call dequeues one that the
worker received after that call handed over its request, in the same session
(`Causal`)? Not in general: nothing empties `resque`, so a packet no request
asked for is the reply to the next one, and stays the reason why every later
call takes its predecessor's (`causality_fails`).

It is in every run where nothing received is still undelivered when a
request is handed over, and the handle is not closed under a waiting call
(`causal_of_clean`). Where something is undelivered, the call that hands over
its request can take it (`stale_taken`).
-/
import ToolbitSdk.Pairing

namespace ToolbitSdk

/-- The thread is about to close the handle. -/
def Pc.closing : Pc → Bool
  | .closeDevice => true
  | _ => false

namespace Sys

/-- `TbiService::TbiService` on a closed device: `junk` is what the memory
holds. -/
def new (junk : TbiPacket) (handler : Bool) : Sys :=
  { fresh with tdev := ⟨none⟩, thAbort := true, worker := none, rcvp := junk, interruptHandler := handler,
               sessions := 0 }

/-- Every packet dequeued was received after its call handed over its
request, and in the session of the handing over. -/
def Causal (s : Sys) : Prop :=
  ∀ p ∈ s.replies, p.mark.received ≤ p.rcv.n ∧ p.mark.session = some p.rcv.session

instance (s : Sys) : Decidable s.Causal :=
  inferInstanceAs (Decidable (∀ p ∈ s.replies, p.mark.received ≤ p.rcv.n ∧ p.mark.session = some p.rcv.session))

/-- Any step at all. -/
def Any (_ : Sys) (_ : Act) : Prop := True

instance (s : Sys) : DecidablePred (Any s) := fun _ => inferInstanceAs (Decidable True)

/-- The packets taken for replies and not yet dequeued. -/
def undelivered (s : Sys) : List Received := s.resque.data ++ s.held.filter (·.isReply)

/-- A request is handed over on an open device when nothing is undelivered,
and the device is not closed while a call waits. -/
def Clean (s : Sys) : Act → Prop
  | .thread c _ => ((s.threads c).writing = true → s.tdev.isOpen = true ∧ s.undelivered = []) ∧
    ((s.threads c).closing = true → ∀ c', (s.threads c').waiting = false)
  | _ => True

/-! ### What a step makes of the undelivered packets -/

/-- A packet that is undelivered after a step was so before it, or is the one
the step has received. -/
theorem undelivered_step {s s' : Sys} {a : Act} (hs : Steps s a s') {x : Received} (hx : x ∈ s'.undelivered) :
    x ∈ s.undelivered ∨ s'.received = s.received ++ [x] ∧ x.n = s.received.length ∧
      ∃ d, s.tdev.handle = some d ∧ x.session = d.session := by
  -- the worker has dealt with what it held
  have idle {w : Option WorkerPc} (hw : ∀ n session, w ≠ some (.dispatch n session))
      (hx : x ∈ undelivered { s with worker := w }) : x ∈ s.undelivered := by
    rw [undelivered, held_eq_nil hw, List.filter_nil, List.append_nil] at hx
    exact List.mem_append_left _ hx
  cases hs with
  | @dequeue c env r rest mark y ys hpc hd =>
    have hy : x ∈ y :: ys ++ s.held.filter (·.isReply) := List.mem_cons_of_mem y hx
    rw [← hd] at hy
    exact .inl hy
  | start hpc _ hw => exact .inl (idle (w := some .isOpen) nofun hx)
  | join hpc _ => exact .inl (idle (w := none) nofun hx)
  | workerIsOpen hw => exact .inl (idle (by intro n ses; split <;> simp) hx)
  | readNothing hw hr => exact .inl (idle (w := some .thAbort) nofun hx)
  | @read got n r rs hw hg hh =>
    rcases List.mem_append.mp hx with hx | hx
    · exact .inl (List.mem_append_left _ hx)
    · obtain rfl := List.mem_singleton.mp (List.mem_of_mem_filter hx)
      exact .inr ⟨rfl, rfl, _, hh, rfl⟩
  | dispatch hw hr => exact .inl (idle (w := some .thAbort) nofun hx)
  | @enqueue got n session hw hr hq =>
    have hrep : (⟨s.rcvp, n, session⟩ : Received).isReply = true := by simpa [Received.isReply] using hr
    have hheld : s.held.filter (·.isReply) = [⟨s.rcvp, n, session⟩] := by
      rw [held_dispatch hw, List.filter_cons, if_pos hrep, List.filter_nil]
    have hx : x ∈ s.resque.data ++ [⟨s.rcvp, n, session⟩] := by
      simpa only [undelivered, held, List.filter_nil, List.append_nil] using hx
    rw [← hheld] at hx
    exact .inl hx
  | workerThAbort hw => exact .inl (idle (by intro n ses; split <;> simp) hx)
  | _ => exact .inl hx

theorem received_step {s s' : Sys} {a : Act} (hs : Steps s a s') :
    s.received.length ≤ s'.received.length := by
  cases hs with
  | read hw hg hh =>
    rw [List.length_append]
    exact Nat.le_add_right _ _
  | _ => exact le_refl _

/-! ### The invariant -/

/-- What was received is undelivered for no call that waits, unless it came
after that call's request. -/
structure Marked (s : Sys) : Prop where
  causal : s.Causal
  waiting : ∀ c r rest m, s.threads c = .dequeue r rest m → m.received ≤ s.received.length ∧
    (∃ h, s.tdev.handle = some h ∧ m.session = some h.session) ∧
    ∀ x ∈ s.undelivered, m.received ≤ x.n ∧ m.session = some x.session

/-- Kept by a step that makes no call wait and keeps the session: what it
receives is numbered after the requests handed over. -/
theorem Marked.waiting_step {s s' : Sys} {a : Act} (h : Marked s) (hs : Steps s a s')
    (hw : ∀ c r rest m, s'.threads c = .dequeue r rest m → s.threads c = .dequeue r rest m)
    (hd : ∀ d, s.tdev.handle = some d → ∃ d', s'.tdev.handle = some d' ∧ d'.session = d.session) :
    ∀ c r rest m, s'.threads c = .dequeue r rest m → m.received ≤ s'.received.length ∧
      (∃ h, s'.tdev.handle = some h ∧ m.session = some h.session) ∧
      ∀ x ∈ s'.undelivered, m.received ≤ x.n ∧ m.session = some x.session := by
  intro c r rest m hc
  obtain ⟨hle, ⟨d, hh, hm⟩, hall⟩ := h.waiting c r rest m (hw c r rest m hc)
  obtain ⟨d', hh', he⟩ := hd d hh
  refine ⟨hle.trans (received_step hs), ⟨d', hh', by rw [he]; exact hm⟩, fun x hx => ?_⟩
  rcases undelivered_step hs hx with hx | ⟨-, hn, d₁, hd₁, hses⟩
  · exact hall x hx
  · rw [hh] at hd₁
    cases hd₁
    exact ⟨by omega, by rw [hses]; exact hm⟩

theorem dequeue_of_goto {s : Sys} {c : ℕ} {p : Pc} (hp : p.waiting = false) :
    ∀ c' r rest m, (s.goto c p).threads c' = .dequeue r rest m → s.threads c' = .dequeue r rest m := by
  intro c' r rest m h
  by_cases hc : c' = c
  · subst hc
    rw [goto_threads] at h
    rw [h] at hp; cases hp
  · rwa [goto_threads_ne s p hc] at h

theorem waiting_enter (rs : List Request) : (Pc.enter rs).waiting = false := by
  cases rs <;> rfl

theorem waiting_pc (m : Api) : m.pc.waiting = false := by
  cases m <;> rfl

/-- A request that is handed over while nothing is undelivered. -/
theorem Marked.write {s : Sys} (h : Marked s) (hopen : s.tdev.isOpen = true) (hnil : s.undelivered = []) (c : ℕ)
    (r : Request) (rest : List Request) (env : Env) : Marked (s.doWrite c r rest env) := by
  refine ⟨h.causal, fun c' r' rest' m hc' => ?_⟩
  have hund : (s.doWrite c r rest env).undelivered = s.undelivered := rfl
  by_cases hcc : c' = c
  · subst hcc
    have hth : (s.doWrite c' r rest env).threads c' = .dequeue r rest s.mark := by simp [doWrite, Sys.goto]
    rw [hth] at hc'
    injection hc' with _ _ hm
    subst hm
    obtain ⟨d, hd⟩ := Option.isSome_iff_exists.mp hopen
    refine ⟨le_refl _, ⟨d, hd, by simp [mark, hd]⟩, fun x hx => ?_⟩
    rw [hund, hnil] at hx
    cases hx
  · have hth : (s.doWrite c r rest env).threads c' = s.threads c' := by simp [doWrite, Sys.goto, hcc]
    rw [hth] at hc'
    exact h.waiting c' r' rest' m hc'

theorem marked_step {s s' : Sys} {a : Act} (hs : Steps s a s') (hc : Clean s a) (h : Marked s) :
    Marked s' := by
  -- no call dequeues or begins to wait, and the handle stays
  have stay (hr : s'.replies = s.replies)
      (hw : ∀ c r rest m, s'.threads c = .dequeue r rest m → s.threads c = .dequeue r rest m)
      (hd : ∀ d, s.tdev.handle = some d → ∃ d', s'.tdev.handle = some d' ∧ d'.session = d.session) :
      Marked s' := by
    refine ⟨?_, h.waiting_step hs hw hd⟩
    unfold Causal
    rw [hr]
    exact h.causal
  have same : ∀ d, s.tdev.handle = some d → ∃ d', s.tdev.handle = some d' ∧ d'.session = d.session :=
    fun d hd => ⟨d, hd, rfl⟩
  cases hs with
  | @write c env r rest hpc =>
    obtain ⟨hopen, hnil⟩ := hc.1 (by rw [hpc]; rfl)
    exact h.write hopen hnil c r rest env
  | @dequeue c env r rest mark x xs hpc hd =>
    obtain ⟨-, -, hall⟩ := h.waiting c r rest mark hpc
    have hs' : Steps s (.thread c env) (s.took c r rest mark (x, { s.resque with data := xs })) :=
      .dequeue hpc hd
    have hx : x ∈ s.undelivered := by
      rw [undelivered, hd]
      exact List.mem_append_left _ List.mem_cons_self
    exact ⟨Lts.forall_mem_concat h.causal (hall x hx),
      h.waiting_step hs' (dequeue_of_goto (waiting_enter rest)) same⟩
  | openDone hpc hh _ =>
    -- no call waits while the handle is closed
    refine ⟨h.causal, fun c' r' rest' m hc' => ?_⟩
    obtain ⟨-, ⟨d, hd, -⟩, -⟩ := h.waiting c' r' rest' m (dequeue_of_goto (by rfl) c' r' rest' m hc')
    rw [hh] at hd; cases hd
  | closeDevice hpc =>
    have hno := hc.2 (by rw [hpc]; rfl)
    refine ⟨h.causal, fun c' r' rest' m hc' => ?_⟩
    have hwait : s.threads c' = .dequeue r' rest' m := dequeue_of_goto (by rfl) c' r' rest' m hc'
    have hf := hno c'
    rw [hwait] at hf
    cases hf
  | @read got n r rs hw hg hh =>
    refine stay rfl (fun _ _ _ _ hc => hc) fun d hd => ?_
    rw [hh] at hd
    cases hd
    exact ⟨_, rfl, rfl⟩
  | @emit r d hh =>
    refine stay rfl (fun _ _ _ _ hc => hc) fun d' hd => ?_
    rw [hh] at hd
    cases hd
    exact ⟨_, rfl, rfl⟩
  | workerIsOpen | readNothing | dispatch | enqueue | workerThAbort =>
    exact stay rfl (fun _ _ _ _ hc => hc) same
  | notActive hpc _ => exact stay rfl (dequeue_of_goto (by split <;> rfl)) same
  | join hpc _ => exact stay rfl (dequeue_of_goto (by split <;> rfl)) same
  | call hpc => exact stay rfl (dequeue_of_goto (waiting_pc _)) same
  | notOpen | active | start => exact stay rfl (dequeue_of_goto (waiting_enter _)) same
  | _ => exact stay rfl (dequeue_of_goto rfl) same

/-- **Replies are causal in every clean run.** -/
theorem causal_of_clean {junk : TbiPacket} {handler : Bool} {s : Sys}
    (h : Lts.Reach Sys.step Clean (new junk handler) s) : s.Causal := by
  have h0 : Marked (new junk handler) := ⟨fun _ hp => (by cases hp), fun _ _ _ _ hc => (by cases hc)⟩
  exact (h.inv (I := Marked) h0 fun s a s' hi ha hs => marked_step (steps_of_step hs) ha hi).causal

/-- Thread 0 alone, handing over its requests when nothing is undelivered. -/
def CleanAlone (s : Sys) : Act → Prop
  | .call c _ => c = 0
  | .thread c _ => (s.threads c).writing = true → s.tdev.isOpen = true ∧ s.undelivered = []
  | _ => True

instance (s : Sys) : DecidablePred (CleanAlone s)
  | .call c _ => inferInstanceAs (Decidable (c = 0))
  | .thread c _ => inferInstanceAs
    (Decidable ((s.threads c).writing = true → s.tdev.isOpen = true ∧ s.undelivered = []))
  | .worker _ => inferInstanceAs (Decidable True)
  | .emit _ => inferInstanceAs (Decidable True)

/-- Where only thread 0 calls anything, the others stay outside. -/
theorem idle_of_alone {ok : Sys → Act → Prop} (hok : ∀ s c m, ok s (.call c m) → c = 0) {junk : TbiPacket}
    {handler : Bool} {s : Sys} (h : Lts.Reach Sys.step ok (new junk handler) s) :
    ∀ c, c ≠ 0 → s.threads c = .idle :=
  h.inv (I := fun s => ∀ c, c ≠ 0 → s.threads c = .idle) (fun _ _ => rfl)
    fun s a s' hi ha hs c hc => (steps_of_step hs).idle (hi c hc) fun m he => hc (hok s c m (by rwa [he] at ha))

theorem clean_of_alone {junk : TbiPacket} {handler : Bool} {s : Sys}
    (h : Lts.Reach Sys.step CleanAlone (new junk handler) s) :
    Lts.Reach Sys.step Clean (new junk handler) s := by
  refine h.mono_of_reach fun s a hr ha => ?_
  have hidle := idle_of_alone (fun _ _ _ h => h) hr
  cases a with
  | thread c env =>
    refine ⟨ha, fun hcl c' => ?_⟩
    by_cases hc' : c' = 0
    · by_cases hc : c = 0
      · subst hc hc'
        cases hpc : s.threads 0 with
        | closeDevice => rfl
        | _ => rw [hpc] at hcl; cases hcl
      · rw [hidle c hc] at hcl; cases hcl
    · rw [hidle c' hc']; rfl
  | _ => trivial

/-- `openPath` up to the end of its first read, of the vendor name. -/
def openRead : List Act :=
  [.call 0 (.openPath (some "dev") .blank),
    .thread 0 .good, .thread 0 .good, .thread 0 .good, .thread 0 .good, .thread 0 .good,
    .emit oneByte, .worker true, .worker true, .worker true,
    .thread 0 .good]

theorem causal_of_clean_read : ∃ s, Lts.Reach Sys.step Clean (new .blank false) s ∧
    s.replies.length = 1 ∧ s.Causal := by
  obtain ⟨s, hs, hp⟩ := Lts.exists_reach_of_run Sys.step CleanAlone (new .blank false) openRead
    (fun s => s.replies.length == 1) (by decide)
  exact ⟨s, clean_of_alone hs, by simpa using hp, causal_of_clean (clean_of_alone hs)⟩

/-! ### A packet no request asked for -/

/-- `openPath` while the device sends a packet of an unknown operation, which
the worker enqueues before the first of the five reads. -/
def strayFirst : List Act :=
  [.call 0 (.openPath (some "dev") .blank),
    .thread 0 .good, .thread 0 .good, .thread 0 .good, .emit ⟨[3, 0x55, 0], by decide, by decide⟩,
    .worker true, .worker true, .worker true, .thread 0 .good, .thread 0 .good, .thread 0 .good]

/-- The read of the vendor name takes the packet, received before it asked. -/
theorem causality_fails :
    ¬ ∀ s, Lts.Reach Sys.step Any (new .blank false) s → s.Causal := by
  intro hall
  obtain ⟨s, hs, hp⟩ := Lts.exists_reach_of_run Sys.step Any (new .blank false) strayFirst
    (fun s => !decide s.Causal) (by decide)
  exact absurd (hall s hs) (by simpa using hp)

/-- The packets read are numbered from 0. -/
def Numbered (s : Sys) : Prop := ∀ x ∈ s.undelivered, x.n < s.received.length

theorem numbered_step {s s' : Sys} {a : Act} (hs : Steps s a s') (h : Numbered s) :
    Numbered s' := by
  intro x hx
  have hle := received_step hs
  rcases undelivered_step hs hx with hx | ⟨hr, hn, -⟩
  · have hlt := h x hx
    omega
  · rw [hr, hn, List.length_append, List.length_singleton]
    exact Nat.lt_succ_self _

theorem capacity_step {s s' : Sys} {a : Act} (hs : Steps s a s') :
    s'.resque.capacity = s.resque.capacity := by
  cases hs <;> rfl

/-- A call that waits with the mark `m` takes an older packet. -/
theorem reach_took {s : Sys} {c : ℕ} {r : Request} {rest : List Request} {m : Mark} {x : Received}
    {xs : List Received} (hpc : s.threads c = .dequeue r rest m) (hd : s.resque.data = x :: xs)
    (hlt : x.n < m.received) : ∃ s', Lts.Reach Sys.step Any s s' ∧ ¬ s'.Causal := by
  have hs : Sys.step s (.thread c .good) = some (s.took c r rest m (x, { s.resque with data := xs })) := by
    simp [step, threadStep, hpc, doDequeue, LockedQueue.dequeue, hd]
  refine ⟨_, .step _ .refl trivial hs, fun hcau => ?_⟩
  have hle := (hcau ⟨c, r, m, x⟩ (List.mem_append_right _ List.mem_cons_self)).1
  exact absurd hlt (Nat.not_lt.mpr hle)

/-- The worker enqueues what it holds. -/
theorem step_enqueue {s : Sys} {n session : ℕ} (hw : s.worker = some (.dispatch n session))
    (hr : route s.rcvp.dat = .reply) (hq : s.resque.data.length ≠ s.resque.capacity) :
    ∃ s', Sys.step s (.worker true) = some s' ∧ s'.threads = s.threads ∧
      s'.resque.data = s.resque.data ++ [⟨s.rcvp, n, session⟩] := by
  have he : s.resque.enqueue ⟨s.rcvp, n, session⟩ =
      some { s.resque with data := s.resque.data ++ [⟨s.rcvp, n, session⟩] } := if_pos hq
  refine ⟨{ s with worker := some .thAbort, resque := { s.resque with data := _ } }, ?_, rfl, rfl⟩
  simp only [step, workerStep, hw, doDispatch, hr]
  exact congrArg (Option.map _) he

/-- What is undelivered and not in `resque` is in the worker's hands. -/
theorem dispatch_of_undelivered {s : Sys} (hd : s.resque.data = []) {x : Received} (hx : x ∈ s.undelivered) :
    ∃ n session, s.worker = some (.dispatch n session) ∧ x = ⟨s.rcvp, n, session⟩ ∧
      route s.rcvp.dat = .reply := by
  rw [undelivered, hd, List.nil_append] at hx
  obtain ⟨hxh, hxr⟩ := List.mem_filter.mp hx
  unfold held at hxh
  split at hxh
  · rename_i n session hw
    obtain rfl := List.mem_singleton.mp hxh
    exact ⟨n, session, hw, rfl, by simpa [Received.isReply] using hxr⟩
  · cases hxh

/-- **What is undelivered can be taken.** A call that hands over its request
while something is undelivered has a continuation in which it takes a packet
received before. -/
theorem stale_taken {junk : TbiPacket} {handler : Bool} {s : Sys} {c : ℕ} {r : Request}
    {rest : List Request} (h : Lts.Reach Sys.step Any (new junk handler) s)
    (hpc : s.threads c = .write r rest) (hx : s.undelivered ≠ []) :
    ∃ s', Lts.Reach Sys.step Any s s' ∧ ¬ s'.Causal := by
  have hnum : Numbered s := h.inv (I := Numbered) (fun _ hx => by cases hx)
    fun s a s' hi _ hs => numbered_step (steps_of_step hs) hi
  have hcap : s.resque.capacity = 4 := h.inv (I := fun s => s.resque.capacity = 4) rfl
    fun s a s' hi _ hs => (capacity_step (steps_of_step hs)).trans hi
  -- the call hands over its request
  have h1 : Sys.step s (.thread c .good) = some (s.doWrite c r rest .good) := by
    simp [step, threadStep, hpc]
  have hr1 : Lts.Reach Sys.step Any s (s.doWrite c r rest .good) := .step _ .refl trivial h1
  have ht : (s.doWrite c r rest .good).threads c = .dequeue r rest s.mark := by simp [doWrite, Sys.goto]
  -- and dequeues at once, or after the worker has enqueued what it holds
  cases hd : s.resque.data with
  | cons x xs =>
    have hmem : x ∈ s.undelivered := by
      rw [undelivered, hd]
      exact List.mem_append_left _ List.mem_cons_self
    obtain ⟨s', hr, hn⟩ := reach_took ht hd (hnum x hmem)
    exact ⟨s', hr1.trans hr, hn⟩
  | nil =>
    obtain ⟨x, hxm⟩ := List.exists_mem_of_ne_nil _ hx
    obtain ⟨n, session, hw, rfl, hroute⟩ := dispatch_of_undelivered hd hxm
    have hq : s.resque.data.length ≠ s.resque.capacity := by
      rw [hd, hcap]
      decide
    obtain ⟨t, h2, htt, hd2⟩ := step_enqueue (s := s.doWrite c r rest .good) hw hroute hq
    have hr2 : Lts.Reach Sys.step Any s t := .step _ hr1 trivial h2
    have hd1 : (s.doWrite c r rest .good).resque.data = [] := hd
    rw [hd1, List.nil_append] at hd2
    obtain ⟨s', hr, hn⟩ := reach_took (by rw [htt]; exact ht) hd2 (hnum _ hxm)
    exact ⟨s', hr2.trans hr, hn⟩

end Sys

end ToolbitSdk
