/-
# Several client threads on one service

Any number of threads read and write attributes, and the device answers
every request once and in order (`Served`): it holds a value for each
attribute, accepts or refuses each request, and its values may change by
themselves. A call that returns success should have had the answer to its
own request (`Honest`).

Nothing in the service holds the handing over of a request and the dequeue
of its reply together, so two reads in flight can take each other's reply,
and both succeed (`swapped_replies`). The `k`-th dequeue takes the device's
`k`-th answer, whoever makes it. So calls are honest that dequeue in the
order of their requests, and a call that takes the answer to another
operation fails (`honest_of_inTurn`). Calls that never overlap dequeue in
order (`inTurn_of_turns`).
-/
import ToolbitSdk.Pairing
import ToolbitSdk.Peer

namespace ToolbitSdk

open Bytes

/-! ### Whose reply a call takes -/

namespace Sys

/-- A thread at `p` that dequeues next does not take another call's reply for
its own: what it takes answers its own request, or another operation. -/
def Takes (s : Sys) : Pc → Prop
  | .dequeue r _ m => m.index = s.replies.length ∨
    ∀ f ∈ s.requests[s.replies.length]?, frameOp f ≠ frameOp r.frame
  | _ => True

instance (s : Sys) : DecidablePred s.Takes
  | .dequeue r _ m => inferInstanceAs (Decidable (m.index = s.replies.length ∨
      ∀ f ∈ s.requests[s.replies.length]?, frameOp f ≠ frameOp r.frame))
  | .idle | .isOpen .. | .write .. | .openTest .. | .openDevice .. | .start .. | .closeTest | .stop ..
  | .join .. | .closeDevice => .isTrue trivial

/-- The marks of the calls point at their requests, and each reply was taken
by the call whose request it answers, or by one that asked for another
operation. -/
structure Orderly (s : Sys) : Prop where
  waiting : ∀ c r rest m, s.threads c = .dequeue r rest m → s.requests[m.index]? = some r.frame
  marked : ∀ p ∈ s.replies, s.requests[p.mark.index]? = some p.req.frame
  taken : ∀ (k : ℕ) (p : Reply), s.replies[k]? = some p → p.mark.index = k ∨
    ∃ f, s.requests[k]? = some f ∧ frameOp f ≠ frameOp p.req.frame

theorem Ready.orderly {s : Sys} (h : Ready s) : Orderly s where
  waiting c r rest m hc := by rw [h.threads] at hc; cases hc
  marked p hp := by rw [h.replies] at hp; cases hp
  taken k p hk := by rw [h.replies] at hk; cases hk

/-- Kept by a step of threads that do not wait, before and after. -/
theorem Orderly.of_eq {s s' : Sys} (h : Orderly s) (h1 : s'.requests = s.requests)
    (h2 : s'.replies = s.replies)
    (h3 : ∀ c, s'.threads c = s.threads c ∨
      (s'.threads c).waiting = false ∧ (s.threads c).waiting = false) : Orderly s' := by
  refine ⟨fun c r rest m hc => ?_, by rw [h1, h2]; exact h.marked, by rw [h1, h2]; exact h.taken⟩
  rw [h1]
  rcases h3 c with he | ⟨hf, -⟩
  · exact h.waiting c r rest m (he ▸ hc)
  · rw [hc] at hf; cases hf

/-- The new request is where its call's mark points. -/
theorem Orderly.write {s : Sys} (h : Orderly s) {c : ℕ} {r : Request} {rest : List Request} {env : Env}
    (hopen : s.tdev.isOpen = true) (hok : env.ok = true) : Orderly (s.doWrite c r rest env) := by
  have hreq := (requests_doWrite s c r rest env).mpr ⟨hopen, hok⟩
  have hkeep : ∀ {i : ℕ} {f : List Byte}, s.requests[i]? = some f → (s.requests ++ [r.frame])[i]? = some f := by
    intro i f hi
    rw [List.getElem?_append_left (List.getElem?_eq_some_iff.mp hi).1]
    exact hi
  refine ⟨fun c' r' rest' m hc' => ?_, fun p hp => ?_, fun k p hk => ?_⟩
  · rw [hreq]
    by_cases hc : c' = c
    · subst hc
      have hth : (s.doWrite c' r rest env).threads c' = .dequeue r rest s.mark := by simp [doWrite, goto]
      rw [hth] at hc'
      injection hc' with e1 e2 e3
      subst e1 e3
      simp [mark]
    · have hth : (s.doWrite c r rest env).threads c' = s.threads c' := by simp [doWrite, goto, hc]
      exact hkeep (h.waiting c' r' rest' m (hth ▸ hc'))
  · rw [hreq]
    exact hkeep (h.marked p hp)
  · rw [hreq]
    refine (h.taken k p hk).imp_right fun hother => ?_
    obtain ⟨f, hf, hne⟩ := hother
    exact ⟨f, hkeep hf, hne⟩

/-- A dequeue that is in turn. -/
theorem Orderly.took {s : Sys} (h : Orderly s) {c : ℕ} {r : Request} {rest : List Request} {m : Mark}
    {x : Received × LockedQueue Received} (hpc : s.threads c = .dequeue r rest m)
    (hlt : s.replies.length < s.requests.length) (ht : s.Takes (.dequeue r rest m)) :
    Orderly (s.took c r rest m x) := by
  have hreq : (s.took c r rest m x).requests = s.requests := rfl
  have hrep : (s.took c r rest m x).replies = s.replies ++ [⟨c, r, m, x.1⟩] := rfl
  have hm := h.waiting c r rest m hpc
  refine ⟨fun c' r' rest' m' hc' => ?_, ?_, fun k p hk => ?_⟩
  · by_cases hc : c' = c
    · subst hc
      rw [Sys.took, enter, goto_threads] at hc'
      cases rest <;> cases hc'
    · rw [Sys.took, enter, goto_threads_ne _ _ hc] at hc'
      exact h.waiting c' r' rest' m' hc'
  · rw [hreq, hrep]
    exact Lts.forall_mem_concat h.marked hm
  · rw [hrep] at hk
    rw [hreq]
    rcases Nat.lt_or_ge k s.replies.length with hk' | hk'
    · rw [List.getElem?_append_left hk'] at hk
      exact h.taken k p hk
    · have hlast := (List.getElem?_eq_some_iff.mp hk).1
      simp only [List.length_append, List.length_singleton] at hlast
      obtain rfl : k = s.replies.length := by omega
      rw [List.getElem?_concat_length] at hk
      cases hk
      refine ht.imp_right fun hne => ?_
      exact ⟨s.requests[s.replies.length], List.getElem?_eq_getElem hlt, hne _ (List.getElem?_eq_getElem hlt)⟩

theorem orderly_step {s s' : Sys} {a : Act} (hs : Steps s a s') (hc : Conforming s a) (hl : Linked s)
    (ht : ∀ c env, a = .thread c env → s.Takes (s.threads c)) (h : Orderly s) : Orderly s' := by
  have hl' := linked_step hs hc hl
  cases hs with
  | call hpc => exact h.of_eq rfl rfl (waiting_goto (by rw [hpc]; rfl) (Api.client_pc hc).2)
  | opened hpc _ => exact h.of_eq rfl rfl (waiting_goto (by rw [hpc]; rfl) rfl)
  | notOpen hpc ho => rw [hl.isOpen] at ho; cases ho
  | write hpc => exact h.write hl.isOpen hc
  | @dequeue c env r rest m x xs hpc hd =>
    -- the packet it takes was a reply to a request of its own
    have hle := hl'.undelivered
    have hrep : (s.took c r rest m (x, { s.resque with data := xs })).replies.length = s.replies.length + 1 := by
      simp [Sys.took, enter, goto]
    have hreq : (s.took c r rest m (x, { s.resque with data := xs })).requests = s.requests := rfl
    rw [hrep, hreq] at hle
    exact h.took hpc (by omega) (hpc ▸ ht c env rfl)
  | openRefused hpc _ | openAllowed hpc _ | openFailed hpc _ | openDone hpc _ _ | active hpc _
  | start hpc _ _ | closeRefused hpc _ | closeAllowed hpc _ | notActive hpc _ | stop hpc _
  | join hpc _ | closeDevice hpc => exact (hl.false_of hpc rfl).elim
  | _ => exact h.of_eq rfl rfl fun _ => .inl rfl

end Sys

/-! ### The service and the device -/

/-- What the device made of a request. -/
structure Answer where
  frame : List Byte
  accepted : Bool
  vals : AttId → Value
  report : Report

/-- A service with a device that holds values. -/
structure Served where
  sys : Sys
  vals : AttId → Value
  /-- history: the requests answered, in order -/
  log : List Answer

inductive ServedAct
  | sys (a : Act)
  | answer (accept : Bool) (tail : List Byte)
  | change (id : AttId) (v : Value)

namespace Served

/-- The device answers its oldest unanswered request. -/
def answer (s : Served) (accept : Bool) (tail : List Byte) : Option Served :=
  match s.sys.requests[s.log.length]? with
  | none => none
  | some f =>
    let a := respond s.vals f accept tail
    (s.sys.step (.emit a.2)).map fun sys => ⟨sys, a.1, s.log ++ [⟨f, accept, s.vals, a.2⟩]⟩

def step (s : Served) : ServedAct → Option Served
  | .sys a => (s.sys.step a).map fun sys => { s with sys }
  | .answer accept tail => s.answer accept tail
  | .change id v => some { s with vals := Function.update s.vals id v }

/-- Threads read and write attributes, the HID layer takes every report, and
apart from its answers the device sends no reply. -/
def Allowed (s : Served) : ServedAct → Prop
  | .sys (.emit r) => r.Whole ∧ route r.dat ≠ .reply
  | .sys a => s.sys.Conforming a
  | _ => True

instance (s : Served) : DecidablePred s.Allowed
  | .sys (.emit r) => inferInstanceAs (Decidable (r.Whole ∧ route r.dat ≠ .reply))
  | .sys (.call c m) => inferInstanceAs (Decidable (s.sys.Conforming (.call c m)))
  | .sys (.thread c env) => inferInstanceAs (Decidable (s.sys.Conforming (.thread c env)))
  | .sys (.worker got) => inferInstanceAs (Decidable (s.sys.Conforming (.worker got)))
  | .answer _ _ => inferInstanceAs (Decidable True)
  | .change _ _ => inferInstanceAs (Decidable True)

/-- And no two calls overlap. -/
def Turns (s : Served) (a : ServedAct) : Prop :=
  s.Allowed a ∧ ∀ b, a = .sys b → s.sys.Serial b

/-- And each dequeue is in turn. -/
def InTurn (s : Served) (a : ServedAct) : Prop :=
  s.Allowed a ∧ ∀ c env, a = .sys (.thread c env) → s.sys.Takes (s.sys.threads c)

instance (s : Served) : DecidablePred s.InTurn
  | .sys (.thread c env) => decidable_of_iff (s.Allowed (.sys (.thread c env)) ∧ s.sys.Takes (s.sys.threads c))
    ⟨fun h => ⟨h.1, fun _ _ he => by cases he; exact h.2⟩, fun h => ⟨h.1, h.2 c env rfl⟩⟩
  | .sys (.emit r) => decidable_of_iff (s.Allowed (.sys (.emit r))) ⟨fun h => ⟨h, nofun⟩, And.left⟩
  | .sys (.call c m) => decidable_of_iff (s.Allowed (.sys (.call c m))) ⟨fun h => ⟨h, nofun⟩, And.left⟩
  | .sys (.worker got) => decidable_of_iff (s.Allowed (.sys (.worker got))) ⟨fun h => ⟨h, nofun⟩, And.left⟩
  | .answer accept tail => decidable_of_iff (s.Allowed (.answer accept tail)) ⟨fun h => ⟨h, nofun⟩, And.left⟩
  | .change id v => decidable_of_iff (s.Allowed (.change id v)) ⟨fun h => ⟨h, nofun⟩, And.left⟩

/-- Every call that returned success had the answer to its own request, and
the device accepted it; a read stored the value the device then had. -/
def Honest (s : Served) : Prop :=
  ∀ p ∈ s.sys.replies, (p.req.finish p.rcv.pckt).1 = false →
    ∃ a, s.log[p.mark.index]? = some a ∧ a.frame = p.req.frame ∧ a.report.dat <+: p.rcv.pckt.dat ∧
      a.accepted = true ∧
      ∀ att, p.req = .read att → (p.req.finish p.rcv.pckt).2.value = (a.vals att.attid).bytes

/-! ### The device's answers -/

/-- The log is the device's answers to the first requests. -/
structure Logged (s : Served) : Prop where
  linked : s.sys.Linked
  known : ∀ f ∈ s.sys.requests, ∃ r : Request, f = r.frame
  answers : s.sys.answers = s.log.map (·.report)
  frames : s.log.map (·.frame) <+: s.sys.requests
  responds : ∀ a ∈ s.log, ∃ tail, a.report = (respond a.vals a.frame a.accepted tail).2

theorem frameOp_frame (r : Request) : frameOp r.frame = OP_ATT_VALUE_GET ∨ frameOp r.frame = OP_ATT_VALUE_SET := by
  cases r with
  | read att => exact .inl rfl
  | write att => exact .inr rfl

/-- The device's report is a reply to the operation that was asked. -/
theorem respond_prefix (vals : AttId → Value) (r : Request) (accept : Bool) (tail : List Byte) :
    ∃ rc payload, payload.length ≤ VALUE_LEN ∧
      replyBytes (frameOp r.frame) rc payload <+: (respond vals r.frame accept tail).2.dat := by
  have hnil : ([] : List Byte).length ≤ VALUE_LEN := Nat.zero_le _
  unfold respond
  split
  · rename_i h
    rw [h.2]
    exact ⟨_, _, (vals _).le, prefix_replyReport tail (vals _).le⟩
  · split
    · rename_i h
      rw [h.2]
      exact ⟨_, _, hnil, prefix_replyReport tail hnil⟩
    · exact ⟨_, _, hnil, prefix_replyReport tail hnil⟩

theorem route_respond (vals : AttId → Value) (r : Request) (accept : Bool) (tail : List Byte) :
    route (respond vals r.frame accept tail).2.dat = .reply ∧ (respond vals r.frame accept tail).2.Whole := by
  obtain ⟨rc, payload, hle, hp⟩ := respond_prefix vals r accept tail
  refine ⟨route_reply hp hle ?_, .inl ?_⟩
  · rcases frameOp_frame r with h | h <;> rw [h] <;> decide
  · have hlen := hp.length_le
    simp only [replyBytes, List.length_append, List.length_cons, List.length_nil] at hlen
    omega

/-- A step delivers at most one request, and of a call. -/
theorem requests_step {s s' : Sys} {a : Act} (hs : Sys.Steps s a s') :
    s'.requests = s.requests ∨ ∃ r : Request, s'.requests = s.requests ++ [r.frame] := by
  cases hs with
  | @write c env r rest hpc =>
    simp only [Sys.doWrite]
    split
    · exact .inl rfl
    · exact .inr ⟨r, rfl⟩
  | _ => exact .inl rfl

/-- A step of the service itself. -/
theorem logged_sys {s : Served} {a : Act} {sys' : Sys} (h : Logged s) (hs : s.sys.step a = some sys')
    (hc : s.sys.Conforming a) (ha : sys'.answers = s.sys.answers) : Logged { s with sys := sys' } := by
  have hst := Sys.steps_of_step hs
  refine ⟨Sys.linked_step hst hc h.linked, ?_, ha.trans h.answers, ?_, h.responds⟩
  · rcases requests_step hst with he | ⟨r, he⟩
    · simp only [he]; exact h.known
    · intro f hf
      simp only [he, List.mem_append, List.mem_singleton] at hf
      rcases hf with hf | rfl
      · exact h.known f hf
      · exact ⟨r, rfl⟩
  · rcases requests_step hst with he | ⟨r, he⟩
    · simp only [he]; exact h.frames
    · simp only [he]; exact h.frames.trans (List.prefix_append _ _)

/-- An answer is a step of the service that its device may make. -/
theorem conforming_answer {s s' : Served} {accept : Bool} {tail : List Byte} (h : Logged s)
    (hs : s.answer accept tail = some s') : ∃ (r : Request) (rep : Report),
      s.sys.requests[s.log.length]? = some r.frame ∧ rep = (respond s.vals r.frame accept tail).2 ∧
      s.sys.step (.emit rep) = some s'.sys ∧ s.sys.Conforming (.emit rep) ∧ route rep.dat = .reply ∧
      s'.log = s.log ++ [⟨r.frame, accept, s.vals, rep⟩] := by
  unfold answer at hs
  split at hs
  · cases hs
  · rename_i f hf
    obtain ⟨sys', hsys, rfl⟩ := Option.map_eq_some_iff.mp hs
    obtain ⟨r, rfl⟩ := h.known f (List.mem_of_getElem? hf)
    obtain ⟨hroute, hwhole⟩ := route_respond s.vals r accept tail
    have hlt := (List.getElem?_eq_some_iff.mp hf).1
    have hlen : s.sys.answers.length = s.log.length := by rw [h.answers, List.length_map]
    exact ⟨r, _, hf, rfl, hsys, ⟨hwhole, fun _ => by omega⟩, hroute, rfl⟩

theorem logged_answer {s s' : Served} {accept : Bool} {tail : List Byte} (h : Logged s)
    (hs : s.answer accept tail = some s') : Logged s' := by
  obtain ⟨r, rep, hf, hrep, hsys, hc, hroute, hlog⟩ := conforming_answer h hs
  have hst := Sys.steps_of_step hsys
  have hreq : s'.sys.requests = s.sys.requests := by generalize s'.sys = t at hst; cases hst; rfl
  have hem : s'.sys.emitted = s.sys.emitted ++ [rep] := by generalize s'.sys = t at hst; cases hst; rfl
  refine ⟨Sys.linked_step hst hc h.linked, by rw [hreq]; exact h.known, ?_, ?_, ?_⟩
  · simp only [Sys.answers, hem, List.filter_append, hlog, List.map_append]
    rw [show s.sys.emitted.filter _ = _ from h.answers]
    simp [hroute]
  · rw [hreq, hlog]
    simp only [List.map_append, List.map_cons, List.map_nil]
    obtain ⟨t, ht⟩ := h.frames
    have hget : t[0]? = some r.frame := by
      rw [← ht, List.getElem?_append_right (by simp)] at hf
      simpa using hf
    cases t with
    | nil => cases hget
    | cons x t =>
      cases hget
      exact ⟨t, by rw [← ht, List.append_assoc]; rfl⟩
  · rw [hlog]
    exact Lts.forall_mem_concat h.responds ⟨tail, hrep⟩

theorem logged_step {s s' : Served} {a : ServedAct} (h : Logged s) (ha : s.Allowed a)
    (hs : s.step a = some s') : Logged s' := by
  cases a with
  | sys b =>
    obtain ⟨sys', hsys, rfl⟩ := Option.map_eq_some_iff.mp hs
    have hst := Sys.steps_of_step hsys
    cases b with
    | emit r =>
      refine logged_sys h hsys ⟨ha.1, fun hr => absurd hr ha.2⟩ ?_
      have hem : sys'.emitted = s.sys.emitted ++ [r] := by cases hst; rfl
      simp [Sys.answers, hem, List.filter_append, ha.2]
    | call c m => exact logged_sys h hsys ha (by rw [Sys.answers, Sys.emitted_step hst (by simp)]; rfl)
    | thread c env => exact logged_sys h hsys ha (by rw [Sys.answers, Sys.emitted_step hst (by simp)]; rfl)
    | worker got => exact logged_sys h hsys ha (by rw [Sys.answers, Sys.emitted_step hst (by simp)]; rfl)
  | answer accept tail => exact logged_answer h hs
  | change id v =>
    cases hs
    exact ⟨h.linked, h.known, h.answers, h.frames, h.responds⟩

theorem Logged.start {s : Served} (h : s.sys.Ready) (hlog : s.log = []) : Logged s where
  linked := h.linked
  known f hf := by rw [h.requests] at hf; cases hf
  answers := by rw [h.answers, hlog]; rfl
  frames := by rw [hlog]; exact List.nil_prefix
  responds a ha := by rw [hlog] at ha; cases ha

/-- **The `k`-th dequeue takes the device's `k`-th answer**, which is to the
`k`-th request. -/
theorem Logged.reply {s : Served} (h : Logged s) {k : ℕ} {p : Reply} (hk : s.sys.replies[k]? = some p) :
    ∃ a tail, s.log[k]? = some a ∧ s.sys.requests[k]? = some a.frame ∧
      a.report = (respond a.vals a.frame a.accepted tail).2 ∧ a.report.dat <+: p.rcv.pckt.dat := by
  obtain ⟨r, hr, hpre⟩ := h.linked.reply hk
  rw [h.answers, List.getElem?_map] at hr
  obtain ⟨a, ha, rfl⟩ := Option.map_eq_some_iff.mp hr
  have hreq : s.sys.requests[k]? = some a.frame := by
    obtain ⟨t, ht⟩ := h.frames
    have hmap : (s.log.map (·.frame))[k]? = some a.frame := by rw [List.getElem?_map, ha]; rfl
    rw [← ht, List.getElem?_append_left (List.getElem?_eq_some_iff.mp hmap).1]
    exact hmap
  obtain ⟨tail, htail⟩ := h.responds a (List.mem_of_getElem? ha)
  exact ⟨a, tail, ha, hreq, htail, hpre⟩

/-! ### What a call makes of an answer -/

/-- What a packet that starts with an answer's report makes of the call that
takes it. -/
theorem finish_answer {a : Answer} {p : TbiPacket} {r : Request} {tail : List Byte}
    (hf : a.frame = r.frame) (hr : a.report = (respond a.vals a.frame a.accepted tail).2)
    (hp : a.report.dat <+: p.dat) (hok : (r.finish p).1 = false) :
    a.accepted = true ∧ ∀ att, r = .read att → (r.finish p).2.value = (a.vals att.attid).bytes := by
  have ho : r.finish p = r.outcome a.vals a.accepted := by
    rw [hr, hf] at hp
    exact r.finish_eq_outcome hp
  rw [ho] at hok ⊢
  have hacc : a.accepted = true := by
    by_contra hacc
    rw [Bool.eq_false_iff.mpr hacc] at hok
    cases r <;> cases hok
  refine ⟨hacc, fun att he => ?_⟩
  subst he
  rw [hacc]
  exact Attvalue.value_setValueBytes _ (a.vals att.attid).le

/-- A call fails on a packet whose op code is not its own. -/
theorem finish_of_other {r : Request} {p : TbiPacket} (h : byteAt p.dat 1 ≠ frameOp r.frame) :
    (r.finish p).1 = true := by
  cases r with
  | read att =>
    rw [Request.finish, readReply, if_neg fun hc => h hc.2.1]
  | write att =>
    rw [Request.finish]
    exact if_neg fun hc => h hc.2.1

/-- So a call that takes the answer to another operation fails. -/
theorem finish_other {vals : AttId → Value} {r r' : Request} {accept : Bool} {tail : List Byte} {p : TbiPacket}
    (hp : (respond vals r'.frame accept tail).2.dat <+: p.dat) (hne : frameOp r'.frame ≠ frameOp r.frame) :
    (r.finish p).1 = true := by
  obtain ⟨rc, payload, -, hpre⟩ := respond_prefix vals r' accept tail
  refine finish_of_other ?_
  rw [byteAt_reply_op (hpre.trans hp)]
  exact hne

/-! ### Dequeues in turn -/

/-- A step of the served service is one of the service, or leaves it as it
is. -/
theorem sys_step {s s' : Served} {a : ServedAct} (h : Logged s) (ha : s.Allowed a)
    (hs : s.step a = some s') : s'.sys = s.sys ∨ ∃ b, Sys.Steps s.sys b s'.sys ∧ s.sys.Conforming b ∧
      ∀ c env, b = .thread c env → a = .sys b := by
  cases a with
  | sys b =>
    obtain ⟨sys', hsys, rfl⟩ := Option.map_eq_some_iff.mp hs
    refine .inr ⟨b, Sys.steps_of_step hsys, ?_, fun _ _ _ => rfl⟩
    cases b with
    | emit r => exact ⟨ha.1, fun hr => absurd hr ha.2⟩
    | _ => exact ha
  | answer accept tail =>
    obtain ⟨r, rep, -, -, hsys, hc, -⟩ := conforming_answer h hs
    exact .inr ⟨_, Sys.steps_of_step hsys, hc, nofun⟩
  | change id v =>
    cases hs
    exact .inl rfl

theorem orderly_step {s s' : Served} {a : ServedAct} (h : Logged s) (ho : s.sys.Orderly) (ha : s.InTurn a)
    (hs : s.step a = some s') : s'.sys.Orderly := by
  rcases sys_step h ha.1 hs with he | ⟨b, hst, hc, hb⟩
  · exact he ▸ ho
  · exact Sys.orderly_step hst hc h.linked (fun c env hbe => ha.2 c env (hbe ▸ hb c env hbe)) ho

/-- Where the dequeues are in turn, a call that succeeded took the answer to
its own request. -/
theorem Logged.honest {s : Served} (h : Logged s) (ho : s.sys.Orderly) : s.Honest := by
  intro p hp hok
  obtain ⟨k, hk⟩ := List.mem_iff_getElem?.mp hp
  obtain ⟨a, tail, ha, hreq, htail, hpre⟩ := h.reply hk
  obtain ⟨r, hr⟩ := h.known a.frame (List.mem_of_getElem? hreq)
  rcases ho.taken k p hk with hidx | ⟨f, hf, hne⟩
  · have hfr : a.frame = p.req.frame := by
      have hown := ho.marked p hp
      rw [hidx, hreq] at hown
      exact Option.some.inj hown
    obtain ⟨hacc, hval⟩ := finish_answer hfr htail hpre hok
    exact ⟨a, by rw [hidx]; exact ha, hfr, hpre, hacc, hval⟩
  · rw [hreq] at hf
    cases hf
    rw [htail, hr] at hpre
    rw [finish_other hpre (hr ▸ hne)] at hok
    cases hok

/-- **Calls that dequeue in turn are honest.** -/
theorem honest_of_inTurn {s₀ s : Served} (h₀ : s₀.sys.Ready) (hlog : s₀.log = [])
    (h : Lts.Reach Served.step InTurn s₀ s) : s.Honest := by
  obtain ⟨hl, ho⟩ : Logged s ∧ s.sys.Orderly :=
    h.inv (I := fun s => Logged s ∧ s.sys.Orderly) ⟨.start h₀ hlog, h₀.orderly⟩
      fun _ _ _ hi ha hs => ⟨logged_step hi.1 ha.1 hs, orderly_step hi.1 hi.2 ha hs⟩
  exact hl.honest ho

/-! ### Turns -/

theorem tally_step {s s' : Served} {a : ServedAct} (h : Logged s) (ht : s.sys.Tally) (ha : s.Turns a)
    (hs : s.step a = some s') : s'.sys.Tally := by
  rcases sys_step h ha.1 hs with he | ⟨b, hst, hc, hb⟩
  · exact he ▸ ht
  · refine Sys.tally_step hst hc ?_ h.linked ht
    cases b with
    | thread c env => exact ha.2 _ (hb c env rfl)
    | _ => trivial

/-- What holds in a run whose calls do not overlap. -/
theorem turns_reach {s₀ s : Served} (h₀ : s₀.sys.Ready) (hlog : s₀.log = [])
    (h : Lts.Reach Served.step Turns s₀ s) : Logged s ∧ s.sys.Tally :=
  h.inv (I := fun s => Logged s ∧ s.sys.Tally) ⟨.start h₀ hlog, h₀.tally⟩
    fun _ _ _ hi ha hs => ⟨logged_step hi.1 ha.1 hs, tally_step hi.1 hi.2 ha hs⟩

/-- Calls that do not overlap dequeue in turn. -/
theorem inTurn_of_turns {s₀ s : Served} (h₀ : s₀.sys.Ready) (hlog : s₀.log = [])
    (h : Lts.Reach Served.step Turns s₀ s) : Lts.Reach Served.step InTurn s₀ s := by
  refine h.mono_of_reach fun s a hr ha => ⟨ha.1, fun c env _ => ?_⟩
  obtain ⟨-, ht⟩ := turns_reach h₀ hlog hr
  cases hpc : s.sys.threads c with
  | dequeue r rest m => exact .inl (ht.one c r rest m hpc).2.1
  | _ => trivial

/-- Threads that make no call stay outside. -/
theorem idle_of_calls {P : ℕ → Prop} {ok : Served → ServedAct → Prop} {s₀ s : Served}
    (hcalls : ∀ s a c m, ok s a → a = .sys (.call c m) → P c) (h₀ : ∀ c, s₀.sys.threads c = .idle)
    (h : Lts.Reach Served.step ok s₀ s) : ∀ c, ¬ P c → s.sys.threads c = .idle := by
  refine h.inv (I := fun s => ∀ c, ¬ P c → s.sys.threads c = .idle) (fun c _ => h₀ c)
    fun s a s' hi ha hs c hc => ?_
  cases a with
  | sys b =>
    obtain ⟨sys', hsys, rfl⟩ := Option.map_eq_some_iff.mp hs
    exact (Sys.steps_of_step hsys).idle (hi c hc) fun m he => hc (hcalls s _ c m ha (by rw [he]))
  | answer accept tail =>
    change s.answer accept tail = some s' at hs
    unfold answer at hs
    split at hs
    · cases hs
    · obtain ⟨sys', hsys, rfl⟩ := Option.map_eq_some_iff.mp hs
      exact (Sys.steps_of_step hsys).idle (hi c hc) (by simp)
  | change id v => cases hs; exact hi c hc

/-! ### Two threads -/

/-- A device with value 7 for attribute 1 and value 9 for the others. -/
def twoValues : Served where
  sys := .fresh
  vals := fun id => if id = 1 then ⟨[7], by decide⟩ else ⟨[9], by decide⟩
  log := []

/-- Threads 0 and 1 read attributes 1 and 2 at once and dequeue in the order
of their requests; then thread 0 reads and thread 1 writes at once, and each
takes the other's reply. -/
def overlapping : List ServedAct := List.flatten [
  [.sys (.call 0 (.readAttribute (.blank 1))), .sys (.call 1 (.readAttribute (.blank 2))),
    .sys (.thread 0 .good), .sys (.thread 1 .good), .sys (.thread 0 .good), .sys (.thread 1 .good),
    .answer true [], .answer true []],
  .replicate 7 (.sys (.worker true)),
  [.sys (.thread 0 .good), .sys (.thread 1 .good),
    .sys (.call 0 (.readAttribute (.blank 1))), .sys (.call 1 (.writeAttribute (.blank 2))),
    .sys (.thread 0 .good), .sys (.thread 1 .good), .sys (.thread 0 .good), .sys (.thread 1 .good),
    .answer true [], .answer true []],
  .replicate 8 (.sys (.worker true)),
  [.sys (.thread 1 .good), .sys (.thread 0 .good)]]

theorem honest_of_inTurn_overlapping : ∃ s, Lts.Reach Served.step InTurn twoValues s ∧
    s.sys.replies.map (fun p => (p.req.finish p.rcv.pckt).1) = [false, false, true, true] ∧ s.Honest := by
  obtain ⟨s, hs, hp⟩ := Lts.exists_reach_of_run Served.step InTurn twoValues overlapping
    (fun s => s.sys.replies.map (fun p => (p.req.finish p.rcv.pckt).1) == [false, false, true, true])
    (by decide)
  exact ⟨s, hs, by simpa using hp, honest_of_inTurn Sys.ready_fresh rfl hs⟩

/-- Threads 0 and 1 read attributes 1 and 2 at once; thread 1 is first to
dequeue. -/
def bothAtOnce : List ServedAct :=
  [.sys (.call 0 (.readAttribute (.blank 1))), .sys (.call 1 (.readAttribute (.blank 2))),
    .sys (.thread 0 .good), .sys (.thread 1 .good), .sys (.thread 0 .good), .sys (.thread 1 .good),
    .answer true [], .answer true [], .sys (.worker true), .sys (.worker true), .sys (.worker true),
    .sys (.thread 1 .good)]

/-- Thread 1 has read 7 from attribute 2, whose value is 9. -/
theorem swapped_replies :
    ¬ ∀ s, Lts.Reach Served.step Allowed twoValues s → s.Honest := by
  intro hall
  obtain ⟨s, hs, hp⟩ := Lts.exists_reach_of_run Served.step Allowed twoValues bothAtOnce
    (fun s => s.log.all (fun a => a.vals 2 == ⟨[9], by decide⟩) && s.sys.replies.any fun p =>
      p.req == .read (.blank 2) && (p.req.finish p.rcv.pckt).1 == false &&
        (p.req.finish p.rcv.pckt).2.value == [7]) (by decide)
  simp only [Bool.and_eq_true, List.all_eq_true, List.any_eq_true, beq_iff_eq] at hp
  obtain ⟨hlog, p, hp, ⟨hreq, hok⟩, hval⟩ := hp
  obtain ⟨a, ha, -, -, -, hread⟩ := hall s hs p hp hok
  have h1 := hread _ hreq
  rw [hval] at h1
  have h2 := hlog a (List.mem_of_getElem? ha)
  rw [show (Attribute.blank 2).attid = 2 from rfl, h2] at h1
  exact absurd h1 (by decide)

end Served

end ToolbitSdk
