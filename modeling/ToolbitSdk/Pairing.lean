/-
# Each call takes the reply to its own request

On an open device with a running worker, where the threads only read and
write attributes and the device conforms (`Conforming`: at most one reply
per request, in request order, among any other packets), the `k`-th dequeue
takes the `k`-th reply, whoever makes it (`Linked.reply`); the packets
between are counted by `Flow` and `InOrder`. Where moreover no call hands
over its request while another waits for its reply (`Serial`), the `k`-th
request is the `k`-th dequeuing call's: `Tally` ties the threads' positions
to the requests and the dequeues.

One client thread alone is serial (`one_client_pairing`), and the worker
never waits for a place in `resque`, so that it takes whatever the device
sends (`Paired.drains`).
-/
import ToolbitSdk.Flow

namespace ToolbitSdk

open Bytes

/-- The call is between its `TbiDevice::write` and its `resque.dequeue`. -/
def Pc.waiting : Pc → Bool
  | .dequeue .. => true
  | _ => false

/-- The call is about to hand over its request. -/
def Pc.writing : Pc → Bool
  | .write .. => true
  | _ => false

/-- The thread is inside `readAttribute` or `writeAttribute`, called by
itself, or outside every method. -/
def Pc.client : Pc → Bool
  | .idle => true
  | .isOpen _ rest => rest.isEmpty
  | .write _ rest => rest.isEmpty
  | .dequeue _ rest _ => rest.isEmpty
  | _ => false

/-- The call the thread is in. -/
def Pc.current (c : ℕ) : Pc → List (ℕ × Request)
  | .isOpen r _ => [(c, r)]
  | .write r _ => [(c, r)]
  | .dequeue r _ _ => [(c, r)]
  | _ => []

/-- The call reads or writes an attribute. -/
def Api.client : Api → Bool
  | .readAttribute _ => true
  | .writeAttribute _ => true
  | _ => false

namespace Sys

/-- The replies the device has delivered. -/
def answers (s : Sys) : List Report := s.emitted.filter fun r => route r.dat = .reply

/-- Threads read and write attributes, the HID layer takes every report, and
the device delivers whole reports and no reply before its request. -/
def Conforming (s : Sys) : Act → Prop
  | .call _ m => m.client = true
  | .thread _ env => env.ok = true
  | .worker _ => True
  | .emit r => r.Whole ∧ (route r.dat = .reply → s.answers.length < s.requests.length)

instance (s : Sys) : DecidablePred (Conforming s)
  | .call _ m => inferInstanceAs (Decidable (m.client = true))
  | .thread _ env => inferInstanceAs (Decidable (env.ok = true))
  | .worker _ => inferInstanceAs (Decidable True)
  | .emit r => inferInstanceAs
    (Decidable (r.Whole ∧ (route r.dat = .reply → s.answers.length < s.requests.length)))

/-- No call hands over its request while another waits for its reply. -/
def Serial (s : Sys) : Act → Prop
  | .thread c _ => (s.threads c).writing = true → ∀ c', (s.threads c').waiting = false
  | _ => True

/-- A service whose device is open and whose worker is running, before any
call. What waits in the handle is no reply. -/
structure Ready (s : Sys) : Prop where
  isOpen : s.tdev.isOpen = true
  input : ∀ r ∈ s.tdev.input, r.Whole ∧ route r.dat ≠ .reply
  running : s.thAbort = false
  worker : s.worker = some .isOpen ∨ s.worker = some .read ∨ s.worker = some .thAbort
  resque : s.resque = ⟨[], 4⟩
  threads : ∀ c, s.threads c = .idle
  calls : s.calls = []
  requests : s.requests = []
  emitted : s.emitted = s.tdev.input
  received : s.received = []
  handled : s.handled = []
  replies : s.replies = []

/-! ### The tally of requests and dequeues -/

/-- A request is outstanding exactly while a call waits for its reply, and
one call at most waits. -/
structure Tally (s : Sys) : Prop where
  none : (∀ c, (s.threads c).waiting = false) → s.requests.length = s.replies.length
  one : ∀ c r rest m, s.threads c = .dequeue r rest m → s.requests.length = s.replies.length + 1 ∧
    m.index = s.replies.length ∧ s.requests[m.index]? = some r.frame ∧
    ∀ c', (s.threads c').waiting = true → c' = c
  matched : ∀ (k : ℕ) (p : Reply), s.replies[k]? = some p → p.mark.index = k ∧
    s.requests[k]? = some p.req.frame

/-- Kept by a step of threads that do not wait, before and after. -/
theorem Tally.of_eq {s s' : Sys} (h : Tally s) (h1 : s'.requests = s.requests)
    (h2 : s'.replies = s.replies)
    (h3 : ∀ c, s'.threads c = s.threads c ∨
      (s'.threads c).waiting = false ∧ (s.threads c).waiting = false) : Tally s' := by
  have hw : ∀ c, (s'.threads c).waiting = (s.threads c).waiting := by
    intro c
    rcases h3 c with h | ⟨h, h'⟩
    · rw [h]
    · rw [h, h']
  refine ⟨fun hn => ?_, fun c r rest m hc => ?_, ?_⟩
  · rw [h1, h2]; exact h.none fun c => by rw [← hw]; exact hn c
  · rcases h3 c with he | ⟨hf, -⟩
    · rw [he] at hc
      obtain ⟨a, b, d, e⟩ := h.one c r rest m hc
      rw [h1, h2]
      exact ⟨a, b, d, fun c' hc' => e c' (by rw [← hw]; exact hc')⟩
    · rw [hc] at hf; cases hf
  · rw [h1, h2]; exact h.matched

theorem waiting_goto {s : Sys} {c : ℕ} {p : Pc} (h : (s.threads c).waiting = false)
    (hp : p.waiting = false) (c' : ℕ) : (s.goto c p).threads c' = s.threads c' ∨
      ((s.goto c p).threads c').waiting = false ∧ (s.threads c').waiting = false := by
  by_cases hc : c' = c
  · subst hc; exact .inr ⟨by rw [goto_threads]; exact hp, h⟩
  · exact .inl (goto_threads_ne s p hc)

/-- Handing over: the report is delivered to an open device by a HID layer
that takes it, and to no other. -/
theorem requests_doWrite (s : Sys) (c : ℕ) (r : Request) (rest : List Request) (env : Env) :
    (s.doWrite c r rest env).requests = s.requests ++ [r.frame] ↔ s.tdev.isOpen = true ∧ env.ok = true := by
  have hlen := length_frame r
  have hshort : ¬ r.frame.length > BUF_LEN - 1 := Nat.not_lt.mpr hlen
  have hne : s.requests ≠ s.requests ++ [r.frame] := fun h =>
    absurd (congrArg List.length h) (by rw [List.length_append, List.length_singleton]; omega)
  unfold doWrite TbiDevice.write
  cases ho : s.tdev.isOpen <;> cases he : env.ok <;> simp [hshort]

/-- The call that hands over its request becomes the one that waits. -/
theorem Tally.write {s : Sys} (h : Tally s) {c : ℕ} {r : Request} {rest : List Request} {env : Env}
    (hopen : s.tdev.isOpen = true) (hok : env.ok = true)
    (hser : ∀ c', (s.threads c').waiting = false) : Tally (s.doWrite c r rest env) := by
  have hreq := (requests_doWrite s c r rest env).mpr ⟨hopen, hok⟩
  have hrep : (s.doWrite c r rest env).replies = s.replies := rfl
  have hth : (s.doWrite c r rest env).threads c = .dequeue r rest s.mark := by simp [doWrite, goto]
  have hne : ∀ c', c' ≠ c → (s.doWrite c r rest env).threads c' = s.threads c' := by
    intro c' hc; simp [doWrite, goto, hc]
  have hn := h.none hser
  refine ⟨fun hall => ?_, fun c' r' rest' m hc' => ?_, fun k p hk => ?_⟩
  · have hf := hall c
    rw [hth] at hf
    cases hf
  · have hcc : c' = c := by
      by_contra hc
      have hf := hser c'
      rw [hne c' hc] at hc'
      rw [hc'] at hf
      cases hf
    subst hcc
    rw [hth] at hc'
    injection hc' with e1 e2 e3
    subst e1 e3
    refine ⟨by rw [hreq, hrep]; simp [hn], by rw [hrep, mark, ← hn], ?_, fun c'' hw'' => ?_⟩
    · rw [hreq, mark]; simp
    · by_contra hc
      rw [hne c'' hc, hser c''] at hw''; cases hw''
  · rw [hrep] at hk
    obtain ⟨a, b⟩ := h.matched k p hk
    refine ⟨a, ?_⟩
    rw [hreq, List.getElem?_append_left (List.getElem?_eq_some_iff.mp b).1]
    exact b

/-- The call that dequeues was the one that waited. -/
theorem Tally.took {s : Sys} (h : Tally s) {c : ℕ} {r : Request} {rest : List Request} {m : Mark}
    {x : Received × LockedQueue Received} (hpc : s.threads c = .dequeue r rest m) :
    Tally (s.took c r rest m x) := by
  obtain ⟨h1, h2, h3, h4⟩ := h.one c r rest m hpc
  have hnone : ∀ c', ((s.took c r rest m x).threads c').waiting = false := by
    intro c'
    by_cases hc : c' = c
    · subst hc
      rw [Sys.took, enter, goto_threads]
      cases rest <;> rfl
    · rw [Sys.took, enter, goto_threads_ne _ _ hc]
      exact Bool.eq_false_of_not_eq_true fun hw => hc (h4 c' hw)
  refine ⟨fun _ => ?_, fun c' r' rest' m' hc' => ?_, fun k p hk => ?_⟩
  · simp [Sys.took, enter, goto, h1]
  · have hf := hnone c'
    rw [hc'] at hf
    cases hf
  · simp only [Sys.took, enter, goto] at hk ⊢
    rcases Nat.lt_or_ge k s.replies.length with hlt | hge
    · rw [List.getElem?_append_left hlt] at hk
      exact h.matched k p hk
    · rw [List.getElem?_append_right hge] at hk
      have hk0 : k = s.replies.length := by
        have hlt := (List.getElem?_eq_some_iff.mp hk).1
        simp only [List.length_singleton] at hlt
        omega
      subst hk0
      simp only [Nat.sub_self, List.getElem?_cons_zero, Option.some.injEq] at hk
      subst hk
      exact ⟨h2, by rw [← h2]; exact h3⟩

/-! ### The invariant -/

/-- The device is open, the worker runs and the threads read and write
attributes; every reply is accounted for, whoever takes it. -/
structure Linked (s : Sys) : Prop where
  isOpen : s.tdev.isOpen = true
  running : s.thAbort = false
  worker : ∃ w, s.worker = some w ∧ w ≠ .returned
  capacity : s.resque.capacity = 4
  clients : ∀ c, (s.threads c).client = true
  flow : Flow s
  order : InOrder s
  answered : s.answers.length ≤ s.requests.length

/-- And the calls take turns. -/
structure Paired (s : Sys) : Prop extends Linked s where
  tally : Tally s

theorem Ready.answers {s : Sys} (h : Ready s) : s.answers = [] := by
  rw [Sys.answers, h.emitted]
  exact List.filter_eq_nil_iff.mpr fun r hr => by simpa using (h.input r hr).2

theorem Ready.linked {s : Sys} (h : Ready s) : Linked s where
  isOpen := h.isOpen
  running := h.running
  worker := by rcases h.worker with h | h | h <;> exact ⟨_, h, by decide⟩
  capacity := by rw [h.resque]
  clients c := by rw [h.threads]; rfl
  flow := by
    have hheld : s.held = [] := held_eq_nil fun n ses => by rcases h.worker with h | h | h <;> simp [h]
    refine ⟨?_, fun _ => ?_⟩
    · rw [h.received, h.replies, h.resque, hheld]; rfl
    · rw [h.received, h.handled, hheld]; rfl
  order := by
    refine ⟨fun r hr => ?_, [], ?_, ?_⟩
    · rw [h.emitted] at hr; exact (h.input r hr).1
    · rw [h.emitted]; rfl
    · rw [h.received]; exact .nil
  answered := by rw [h.answers]; exact Nat.zero_le _

theorem Ready.tally {s : Sys} (h : Ready s) : Tally s := by
  refine ⟨fun _ => by rw [h.requests, h.replies]; rfl, fun c r rest m hc => ?_, fun k p hk => ?_⟩
  · rw [h.threads] at hc; cases hc
  · rw [h.replies] at hk; cases hk

theorem Ready.paired {s : Sys} (h : Ready s) : Paired s := ⟨h.linked, h.tally⟩

theorem Linked.false_of {s : Sys} (h : Linked s) {c : ℕ} {p : Pc} (hpc : s.threads c = p)
    (hp : p.client = false) : False := by
  have hf := h.clients c
  rw [hpc, hp] at hf
  cases hf

theorem clients_goto {s : Sys} (h : ∀ c, (s.threads c).client = true) {c : ℕ} {p : Pc}
    (hp : p.client = true) (c' : ℕ) : ((s.goto c p).threads c').client = true := by
  by_cases hc : c' = c
  · subst hc; rw [goto_threads]; exact hp
  · rw [goto_threads_ne s p hc]; exact h c'

theorem Api.client_pc {m : Api} (h : m.client = true) :
    m.pc.client = true ∧ m.pc.waiting = false := by
  cases m with
  | readAttribute att => exact ⟨rfl, rfl⟩
  | writeAttribute att => exact ⟨rfl, rfl⟩
  | _ => cases h

theorem linked_step {s s' : Sys} {a : Act} (hs : Steps s a s') (hc : Conforming s a) (h : Linked s) :
    Linked s' := by
  have hflow := flow_step hs h.flow
  have horder : s'.tdev.isOpen = true → InOrder s' := fun ho =>
    inOrder_step hs h.order h.isOpen ho fun _ hr => by subst hr; exact hc.1
  cases hs with
  | call hpc =>
    exact ⟨h.isOpen, h.running, h.worker, h.capacity, clients_goto h.clients (Api.client_pc hc).1,
      hflow, horder h.isOpen, h.answered⟩
  | @opened c env r rest hpc _ =>
    have hr := h.clients c
    rw [hpc] at hr
    exact ⟨h.isOpen, h.running, h.worker, h.capacity, clients_goto h.clients hr,
      hflow, horder h.isOpen, h.answered⟩
  | notOpen hpc ho => rw [h.isOpen] at ho; cases ho
  | @write c env r rest hpc =>
    have hr := h.clients c
    rw [hpc] at hr
    refine ⟨h.isOpen, h.running, h.worker, h.capacity, clients_goto h.clients hr,
      hflow, horder h.isOpen, ?_⟩
    refine h.answered.trans ?_
    simp only [doWrite]
    split
    · exact le_refl _
    · simp
  | @dequeue c env r rest mark x xs hpc hd =>
    have hr := h.clients c
    rw [hpc] at hr
    have he : (Pc.enter rest).client = true := by
      cases rest with
      | nil => rfl
      | cons _ _ => cases hr
    exact ⟨h.isOpen, h.running, h.worker, h.capacity, clients_goto h.clients he,
      hflow, horder h.isOpen, h.answered⟩
  | workerIsOpen hw =>
    exact ⟨h.isOpen, h.running, ⟨_, rfl, by split <;> decide⟩, h.capacity, h.clients,
      hflow, horder h.isOpen, h.answered⟩
  | readNothing hw hr =>
    exact ⟨h.isOpen, h.running, ⟨_, rfl, by decide⟩, h.capacity, h.clients,
      hflow, horder h.isOpen, h.answered⟩
  | read hw hg hh =>
    exact ⟨rfl, h.running, ⟨_, rfl, by simp⟩, h.capacity, h.clients,
      hflow, horder rfl, h.answered⟩
  | dispatch hw hr =>
    exact ⟨h.isOpen, h.running, ⟨_, rfl, by decide⟩, h.capacity, h.clients,
      hflow, horder h.isOpen, h.answered⟩
  | enqueue hw hr hq =>
    exact ⟨h.isOpen, h.running, ⟨_, rfl, by decide⟩, h.capacity, h.clients,
      hflow, horder h.isOpen, h.answered⟩
  | workerThAbort hw =>
    exact ⟨h.isOpen, h.running, ⟨_, rfl, by rw [h.running]; decide⟩, h.capacity, h.clients,
      hflow, horder h.isOpen, h.answered⟩
  | @emit r d hh =>
    refine ⟨rfl, h.running, h.worker, h.capacity, h.clients, hflow, horder rfl, ?_⟩
    have hlt := hc.2
    by_cases hr : route r.dat = .reply
    · have hnew := hlt hr
      simpa [answers, List.filter_append, hr, Nat.succ_le_iff] using hnew
    · simpa [answers, List.filter_append, hr] using h.answered
  | openRefused hpc _ | openAllowed hpc _ | openFailed hpc _ | openDone hpc _ _ | active hpc _
  | start hpc _ _ | closeRefused hpc _ | closeAllowed hpc _ | notActive hpc _ | stop hpc _
  | join hpc _ | closeDevice hpc => exact (h.false_of hpc rfl).elim

theorem tally_step {s s' : Sys} {a : Act} (hs : Steps s a s') (hc : Conforming s a)
    (hser : Serial s a) (hl : Linked s) (h : Tally s) : Tally s' := by
  cases hs with
  | call hpc => exact h.of_eq rfl rfl (waiting_goto (by rw [hpc]; rfl) (Api.client_pc hc).2)
  | opened hpc _ => exact h.of_eq rfl rfl (waiting_goto (by rw [hpc]; rfl) rfl)
  | notOpen hpc ho => rw [hl.isOpen] at ho; cases ho
  | write hpc => exact h.write hl.isOpen hc (hser (by rw [hpc]; rfl))
  | dequeue hpc hd => exact h.took hpc
  | openRefused hpc _ | openAllowed hpc _ | openFailed hpc _ | openDone hpc _ _ | active hpc _
  | start hpc _ _ | closeRefused hpc _ | closeAllowed hpc _ | notActive hpc _ | stop hpc _
  | join hpc _ | closeDevice hpc => exact (hl.false_of hpc rfl).elim
  | _ => exact h.of_eq rfl rfl fun _ => .inl rfl

theorem paired_step {s s' : Sys} {a : Act} (hs : Steps s a s') (hc : Conforming s a)
    (hser : Serial s a) (h : Paired s) : Paired s' :=
  ⟨linked_step hs hc h.toLinked, tally_step hs hc hser h.toLinked h.tally⟩

/-! ### What the invariant says -/

/-- The replies the device has delivered are, in order, those dequeued, those
in `resque`, that in the worker's hands and those that wait in the handle. -/
theorem Linked.answers {s : Sys} (h : Linked s) : ∃ front,
    s.answers = front ++ s.tdev.input.filter (fun r => route r.dat = .reply) ∧
      List.Forall₂ Copy front
        (s.replies.map (·.rcv) ++ s.resque.data ++ s.held.filter (·.isReply)) := by
  obtain ⟨front, h1, h2⟩ := h.order.filter .reply
  refine ⟨front, h1, ?_⟩
  rw [← h.flow.replies]
  exact h2

/-- **The `k`-th dequeue takes the `k`-th reply.** -/
theorem Linked.reply {s : Sys} (h : Linked s) {k : ℕ} {p : Reply} (hk : s.replies[k]? = some p) :
    ∃ r, s.answers[k]? = some r ∧ r.dat <+: p.rcv.pckt.dat := by
  obtain ⟨front, he, hf⟩ := h.answers
  have hget : (s.replies.map (·.rcv) ++ s.resque.data ++ s.held.filter (·.isReply))[k]? =
      some p.rcv := by
    have hlt := (List.getElem?_eq_some_iff.mp hk).1
    rw [List.append_assoc, List.getElem?_append_left (by simpa using hlt), List.getElem?_map, hk]
    rfl
  obtain ⟨hlt, hx⟩ := List.getElem?_eq_some_iff.mp hget
  have hlt' : k < front.length := by rw [hf.length_eq]; exact hlt
  have hc := hf.get hlt' hlt
  refine ⟨front[k], by rw [he, List.getElem?_append_left hlt', List.getElem?_eq_getElem hlt'], ?_⟩
  simp only [List.get_eq_getElem] at hc
  rw [hx] at hc
  exact hc.1

/-- The packets taken for replies and not yet dequeued are no more than the
calls that wait. -/
theorem Linked.undelivered {s : Sys} (h : Linked s) :
    s.replies.length + s.resque.data.length + (s.held.filter (·.isReply)).length ≤ s.requests.length := by
  obtain ⟨front, he, hf⟩ := h.answers
  have h1 := hf.length_eq
  have h2 := h.answered
  rw [he] at h2
  simp only [List.length_append, List.length_map] at h1 h2
  omega

theorem Paired.requests_le {s : Sys} (h : Paired s) : s.requests.length ≤ s.replies.length + 1 := by
  by_cases hw : ∀ c, (s.threads c).waiting = false
  · rw [h.tally.none hw]; omega
  · push Not at hw
    obtain ⟨c, hc⟩ := hw
    cases hpc : s.threads c with
    | dequeue r rest m => exact (h.tally.one c r rest m hpc).1.le
    | _ => rw [hpc] at hc; exact absurd rfl hc

/-- The worker always has a step: it never waits in `enqueue`. -/
theorem Paired.worker_enabled {s : Sys} (h : Paired s) (got : Bool) :
    (s.step (.worker got)).isSome = true := by
  obtain ⟨w, hw, hne⟩ := h.worker
  have hle := h.undelivered
  have hle' := h.requests_le
  have hcap := h.capacity
  cases w with
  | returned => exact absurd rfl hne
  | dispatch n session =>
    simp only [step, workerStep, hw, doDispatch]
    cases hr : route s.rcvp.dat with
    | reply =>
      have hheld : (s.held.filter (·.isReply)).length = 1 := by
        rw [held_dispatch hw]; simp [Received.isReply, hr]
      have hq : s.resque.data.length ≠ s.resque.capacity := by omega
      simp [LockedQueue.enqueue, hq]
    | _ => rfl
  | _ => simp [step, workerStep, hw]

/-- The worker alone, on an HID layer that gives it what waits. -/
def Working (_ : Sys) (a : Act) : Prop := a = .worker true

/-- The steps the worker is from having read all that waits, four for each
report. -/
def backlog (s : Sys) : ℕ :=
  4 * s.tdev.input.length + match s.worker with
    | some (.dispatch _ _) => 3
    | some .thAbort => 2
    | some .isOpen => 1
    | _ => 0

/-- Each step of the worker shortens the way. -/
theorem Linked.backlog_lt {s s' : Sys} (h : Linked s) (hs : Steps s (.worker true) s')
    (hb : s.tdev.input ≠ [] ∨ s.held ≠ []) : s'.backlog < s.backlog := by
  unfold backlog
  cases hs with
  | workerIsOpen hw => simp [hw, h.isOpen]
  | readNothing hw hr =>
    have hheld : s.held = [] := held_eq_nil (by simp [hw])
    have hin : s.tdev.input = [] := by
      obtain ⟨d, hd⟩ := Option.isSome_iff_exists.mp h.isOpen
      cases hi : d.input with
      | nil => simp [TbiDevice.input, hd, hi]
      | cons r rs =>
        have hd' : s.tdev.handle = some ⟨d.session, r :: rs⟩ := by rw [hd, ← hi]
        simp [TbiDevice.read, hd'] at hr
    rcases hb with hb | hb
    · exact absurd hin hb
    · exact absurd hheld hb
  | @read got n r rs hw hg hh =>
    have hin : s.tdev.input = r :: rs := by simp [TbiDevice.input, hh]
    have hin' : TbiDevice.input ⟨some ⟨n, rs⟩⟩ = rs := rfl
    simp only [hw, hin, hin', List.length_cons]
    omega
  | dispatch hw hr => simp [hw]
  | enqueue hw hr hq => simp [hw]
  | workerThAbort hw => simp [hw, h.running]

/-- The worker takes all that waits. -/
theorem Paired.drains {s : Sys} (h : Paired s) : ∃ s', Lts.Reach Sys.step Working s s' ∧
    (Paired s' ∧ s'.emitted = s.emitted ∧ s'.interruptHandler = s.interruptHandler) ∧
      s'.tdev.input = [] ∧ s'.held = [] := by
  refine Lts.exists_reach_of_measure
    (I := fun t => Paired t ∧ t.emitted = s.emitted ∧ t.interruptHandler = s.interruptHandler) backlog
    (fun t ⟨ht, hem, hin⟩ hg => ?_) ⟨h, rfl, rfl⟩
  obtain ⟨t', hs⟩ := Option.isSome_iff_exists.mp (ht.worker_enabled true)
  have hst := steps_of_step hs
  have hb : t.tdev.input ≠ [] ∨ t.held ≠ [] := by rwa [not_and_or] at hg
  have hem' := (emitted_step hst nofun).trans hem
  have hin' := (interruptHandler_step hst).trans hin
  exact ⟨_, t', rfl, hs, ⟨paired_step hst trivial trivial ht, hem', hin'⟩, ht.backlog_lt hst hb⟩

/-- The interrupt packets that have arrived: those handled, that in the
worker's hands and those that wait in the handle. -/
theorem Linked.interrupts {s : Sys} (h : Linked s) (hi : s.interruptHandler = true) :
    ∃ front, s.emitted.filter (fun r => route r.dat = .interrupt) =
        front ++ s.tdev.input.filter (fun r => route r.dat = .interrupt) ∧
      List.Forall₂ (fun r p => r.dat <+: p.dat) front
        (s.handled ++ (s.held.filter (·.isInterrupt)).map (·.pckt)) := by
  obtain ⟨front, h1, h2⟩ := h.order.filter .interrupt
  refine ⟨front, h1, ?_⟩
  rw [← h.flow.interrupts hi]
  exact List.forall₂_map_right_iff.mpr (h2.imp fun _ _ hc => hc.1)

/-- When the worker has taken all, each has been handled. -/
theorem Paired.handles {s : Sys} (h : Paired s) (hi : s.interruptHandler = true) :
    ∃ s', Lts.Reach Sys.step Working s s' ∧ List.Forall₂ (fun r p => r.dat <+: p.dat)
      (s.emitted.filter fun r => route r.dat = .interrupt) s'.handled := by
  obtain ⟨s', hr, ⟨hp, hem, hi'⟩, hin, hheld⟩ := h.drains
  obtain ⟨front, h1, h2⟩ := hp.interrupts (hi'.trans hi)
  rw [hem, hin, List.filter_nil, List.append_nil] at h1
  rw [hheld, List.filter_nil, List.map_nil, List.append_nil] at h2
  exact ⟨s', hr, h1 ▸ h2⟩

/-! ### One client thread -/

/-- Only thread `c₀` calls the service, and the device conforms. -/
def OneClient (c₀ : ℕ) (s : Sys) (a : Act) : Prop :=
  Conforming s a ∧ match a with
    | .call c _ => c = c₀
    | _ => True

instance (c₀ : ℕ) (s : Sys) : DecidablePred (OneClient c₀ s)
  | .call c m => inferInstanceAs (Decidable (Conforming s (.call c m) ∧ c = c₀))
  | .thread c env => inferInstanceAs (Decidable (Conforming s (.thread c env) ∧ True))
  | .worker got => inferInstanceAs (Decidable (Conforming s (.worker got) ∧ True))
  | .emit r => inferInstanceAs (Decidable (Conforming s (.emit r) ∧ True))

/-- One client alone is serial. -/
theorem serial_of_idle {c₀ : ℕ} {s : Sys} (h : ∀ c, c ≠ c₀ → s.threads c = .idle) (a : Act) :
    Serial s a := by
  cases a with
  | thread c env =>
    intro hw c'
    have hc : c = c₀ := by
      by_contra hne
      rw [h c hne] at hw
      cases hw
    by_cases hc' : c' = c
    · subst hc'
      cases hpc : s.threads c' with
      | write r rest => rfl
      | _ => rw [hpc] at hw; cases hw
    · rw [h c' (hc ▸ hc')]
      rfl
  | _ => trivial

/-- The other threads are outside, and the calls made are those that have
dequeued and the one in progress. -/
structure Single (c₀ : ℕ) (s : Sys) : Prop where
  others : ∀ c, c ≠ c₀ → s.threads c = .idle
  calls : s.calls = s.replies.map (fun p => (p.thread, p.req)) ++ (s.threads c₀).current c₀

theorem Single.eq_of {c₀ c : ℕ} {s : Sys} (h : Single c₀ s) (hc : s.threads c ≠ .idle) :
    c = c₀ := by
  by_contra hne
  exact hc (h.others c hne)

/-- The one client moves on, inside its call. -/
theorem calls_goto {c₀ : ℕ} {s : Sys} {p : Pc} (h : Single c₀ s) (hb : p.begins c₀ = [])
    (hcur : p.current c₀ = (s.threads c₀).current c₀) : (s.goto c₀ p).calls =
      s.replies.map (fun p => (p.thread, p.req)) ++ ((s.goto c₀ p).threads c₀).current c₀ := by
  rw [goto_threads, hcur]
  simp [goto, hb, h.calls]

theorem single_step {c₀ : ℕ} {s s' : Sys} {a : Act} (hs : Steps s a s') (hc : OneClient c₀ s a)
    (hp : Paired s) (h : Single c₀ s) : Single c₀ s' := by
  refine ⟨fun c hne => hs.idle (h.others c hne) fun m ha => hne (by subst ha; exact hc.2), ?_⟩
  have hcli := hp.clients
  cases hs with
  | @call c m hpc =>
    obtain ⟨hm, rfl⟩ : m.client = true ∧ c = c₀ := hc
    rw [goto_threads]
    have hcalls := h.calls
    rw [hpc] at hcalls
    cases m with
    | readAttribute att => simp [goto, Api.pc, Pc.begins, Pc.current, hcalls]
    | writeAttribute att => simp [goto, Api.pc, Pc.begins, Pc.current, hcalls]
    | _ => cases hm
  | @opened c env r rest hpc _ =>
    obtain rfl := h.eq_of (c := c) (by rw [hpc]; simp)
    exact calls_goto h rfl (by rw [hpc]; rfl)
  | notOpen hpc ho => rw [hp.isOpen] at ho; cases ho
  | @write c env r rest hpc =>
    obtain rfl := h.eq_of (c := c) (by rw [hpc]; simp)
    exact calls_goto (p := .dequeue r rest s.mark) h rfl (by rw [hpc]; rfl)
  | @dequeue c env r rest mark x xs hpc hd =>
    obtain rfl := h.eq_of (c := c) (by rw [hpc]; simp)
    have hrest : rest = [] := by
      have hone := hcli c
      rw [hpc] at hone
      simpa [Pc.client] using hone
    subst hrest
    have hcalls := h.calls
    rw [hpc] at hcalls
    rw [took, enter, goto_threads]
    simp [goto, Pc.enter, Pc.begins, Pc.current, hcalls]
  | openRefused hpc _ | openAllowed hpc _ | openFailed hpc _ | openDone hpc _ _ | active hpc _
  | start hpc _ _ | closeRefused hpc _ | closeAllowed hpc _ | notActive hpc _ | stop hpc _
  | join hpc _ | closeDevice hpc => exact (hp.false_of hpc rfl).elim
  | _ => exact h.calls

theorem one_client_reach {c₀ : ℕ} {s₀ s : Sys} (h₀ : Ready s₀)
    (h : Lts.Reach Sys.step (OneClient c₀) s₀ s) : Paired s ∧ Single c₀ s := by
  refine h.inv (I := fun s => Paired s ∧ Single c₀ s) ⟨h₀.paired, ?_⟩ fun s a s' hi ha hs => ?_
  · exact ⟨fun c _ => h₀.threads c, by rw [h₀.calls, h₀.replies, h₀.threads]; rfl⟩
  · have hst := steps_of_step hs
    exact ⟨paired_step hst ha.1 (serial_of_idle hi.2.others a) hi.1, single_step hst ha hi.1 hi.2⟩

/-- What one client and a conforming device leave behind. -/
structure Answered (s : Sys) : Prop where
  /-- The `k`-th dequeue is the `k`-th call's, and takes the reply to the
  `k`-th request, which is that call's. -/
  pairing : ∀ (k : ℕ) (p : Reply), s.replies[k]? = some p → s.calls[k]? = some (p.thread, p.req) ∧
    s.requests[k]? = some p.req.frame ∧ ∃ r, s.answers[k]? = some r ∧ r.dat <+: p.rcv.pckt.dat
  atMostOne : s.resque.data.length ≤ 1
  quiet : (∀ c, s.threads c = .idle) → s.resque.data = []
  unblocked : ∀ got, (s.step (.worker got)).isSome = true
  /-- The interrupt packets that have arrived are those passed to the
  handler, that in the worker's hands and those that wait in the handle. -/
  interrupts : s.interruptHandler = true →
    ∃ front, s.emitted.filter (fun r => route r.dat = .interrupt) =
        front ++ s.tdev.input.filter (fun r => route r.dat = .interrupt) ∧
      List.Forall₂ (fun r p => r.dat <+: p.dat) front
        (s.handled ++ (s.held.filter (·.isInterrupt)).map (·.pckt))
  /-- The worker, left to run, passes them all to the handler. -/
  handles : s.interruptHandler = true →
    ∃ s', Lts.Reach Sys.step Working s s' ∧ List.Forall₂ (fun r p => r.dat <+: p.dat)
      (s.emitted.filter fun r => route r.dat = .interrupt) s'.handled

/-- **Request and reply pairing with one client.** -/
theorem one_client_pairing {c₀ : ℕ} {s₀ s : Sys} (h₀ : Ready s₀)
    (h : Lts.Reach Sys.step (OneClient c₀) s₀ s) : Answered s := by
  obtain ⟨hp, hs⟩ := one_client_reach h₀ h
  have hle := hp.undelivered
  have hle' := hp.requests_le
  refine ⟨fun k p hk => ⟨?_, (hp.tally.matched k p hk).2, hp.reply hk⟩, by omega, fun hi => ?_,
    hp.worker_enabled, hp.interrupts, hp.handles⟩
  · have hlt := (List.getElem?_eq_some_iff.mp hk).1
    rw [hs.calls, List.getElem?_append_left (by simpa using hlt), List.getElem?_map, hk]
    rfl
  · have hn := hp.tally.none fun c => by rw [hi c]; rfl
    exact List.length_eq_zero_iff.mp (by omega)

theorem ready_fresh : Ready fresh :=
  ⟨rfl, nofun, rfl, .inl rfl, rfl, fun _ => rfl, rfl, rfl, rfl, rfl, rfl, rfl⟩

/-- A GET reply of one byte. -/
def oneByte : Report := ⟨[4, 0x13, 1, 7], by decide, by decide⟩

/-- One read of attribute 1, with an interrupt packet before its reply. -/
def oneRead : List Act :=
  [.call 0 (.readAttribute (.blank 1)), .thread 0 .good, .thread 0 .good,
    .emit ⟨[2, 0xA0], by decide, by decide⟩, .worker true, .worker true, .worker true, .worker true,
    .emit oneByte, .worker true, .worker true, .worker true,
    .thread 0 .good]

theorem one_client_pairing_read : ∃ s, Lts.Reach Sys.step (OneClient 0) fresh s ∧
    (s.replies.length = 1 ∧ s.handled.length = 1) ∧ Answered s := by
  obtain ⟨s, hs, hp⟩ := Lts.exists_reach_of_run Sys.step (OneClient 0) fresh oneRead
    (fun s => s.replies.length == 1 && s.handled.length == 1) (by decide)
  exact ⟨s, hs, by simpa using hp, one_client_pairing ready_fresh hs⟩

end Sys

end ToolbitSdk
