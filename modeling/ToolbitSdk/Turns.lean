/-
# Calls that take turns see a bank

The drivers are written over a `Link`, on which a call is one transaction.
In the service a call is several steps, with the worker, the device and
other threads between them. Where no two calls overlap and the device's
values change by writes only, the two are the same: the `k`-th call that
dequeues returns what the `k`-th transaction on a `Bank` returns, that holds
the device's first values and accepts what the device accepted
(`Served.outcomes_eq`), and so for a client that is alone
(`Served.outcomes_eq_of_alone`).
-/
import ToolbitSdk.Clients
import ToolbitSdk.Lib.Mealy
import ToolbitSdk.Transaction

namespace ToolbitSdk

open Bytes TbiService

/-! ### Transactions on a bank -/

namespace Bank

/-- One transaction: the result, and the attribute after it. -/
def serve (d : Bank) (r : Request) : (Bool × Attribute) × Bank :=
  (r.finish (d.transact r.frame).1, (d.transact r.frame).2)

theorem readAttribute_eq_serve {d : Bank} (h : d.connected = true) (att : Attribute) :
    readAttribute d att = ((d.serve (.read att)).1.1, (d.serve (.read att)).1.2, (d.serve (.read att)).2) :=
  readAttribute_of_transact att h rfl

theorem writeAttribute_eq_serve {d : Bank} (h : d.connected = true) (att : Attribute) :
    writeAttribute d att = ((d.serve (.write att)).1.1, (d.serve (.write att)).2) :=
  writeAttribute_of_transact att h rfl

/-- A bank of a device that answers a refused request with `RC_FAIL`. -/
def ofDevice (vals : AttId → Value) (accepts : ℕ → Bool) (n : ℕ) : Bank :=
  ⟨true, vals, accepts, fun _ => [], fun _ f => .fail (frameOp f), n⟩

theorem transact_ofDevice (vals : AttId → Value) (accepts : ℕ → Bool) (n : ℕ) (f : List Byte) :
    (ofDevice vals accepts n).transact f = (TbiPacket.blank.receive (respond vals f (accepts n) []).2,
      ofDevice (respond vals f (accepts n) []).1 accepts (n + 1)) := by
  by_cases ha : accepts n = true
  · rw [ha]
    exact if_pos ha
  · rw [Bool.eq_false_iff.mpr ha]
    exact if_neg ha

theorem serve_ofDevice (vals : AttId → Value) (accepts : ℕ → Bool) (n : ℕ) (r : Request) :
    (ofDevice vals accepts n).serve r = (r.outcome vals (accepts n),
      ofDevice (respond vals r.frame (accepts n) []).1 accepts (n + 1)) := by
  have hp : (respond vals r.frame (accepts n) []).2.dat <+:
      (TbiPacket.blank.receive (respond vals r.frame (accepts n) []).2).dat := prefix_overlay _ _
  rw [serve, transact_ofDevice]
  simp only [r.finish_eq_outcome hp]

end Bank

/-! ### The log of the device -/

/-- The answers `as`, one after the other, take a device from the values `v`
to the values `v'`. -/
def Chained : (AttId → Value) → List Answer → (AttId → Value) → Prop
  | v, [], v' => v' = v
  | v, a :: as, v' => a.vals = v ∧ Chained (respond v a.frame a.accepted []).1 as v'

theorem Chained.snoc {v v' : AttId → Value} {as : List Answer} {a : Answer} (h : Chained v as v')
    (ha : a.vals = v') : Chained v (as ++ [a]) (respond v' a.frame a.accepted []).1 := by
  induction as generalizing v with
  | nil =>
    subst h
    exact ⟨ha, rfl⟩
  | cons b bs ih => exact ⟨h.1, ih h.2⟩

/-- A bank gives the requests what the log says of them. -/
theorem Chained.outcomes {v v' : AttId → Value} {as : List Answer} {accepts : ℕ → Bool} {n : ℕ}
    (h : Chained v as v') (ha : ∀ i a, as[i]? = some a → accepts (n + i) = a.accepted) :
    ∀ {rs : List Request}, List.Forall₂ (fun r a => a.frame = r.frame) rs as →
      (Mealy.trace Bank.serve (.ofDevice v accepts n) rs).map (·.1) =
        List.zipWith (fun r a => r.outcome a.vals a.accepted) rs as := by
  induction as generalizing v n with
  | nil =>
    intro rs hf
    cases hf
    rfl
  | cons a as ih =>
    intro rs hf
    obtain ⟨r, rs, hfr, hrest, rfl⟩ := List.forall₂_cons_right_iff.mp hf
    obtain ⟨rfl, hc⟩ := h
    have h0 : accepts n = a.accepted := ha 0 a rfl
    have hs := Bank.serve_ofDevice a.vals accepts n r
    rw [h0, ← hfr] at hs
    have hih := ih hc (fun i b hb => by rw [← ha (i + 1) b hb, Nat.add_right_comm, Nat.add_assoc]) hrest
    simp only [Mealy.trace, hs, List.map_cons, hih, List.zipWith_cons_cons]

theorem Chained.take {v v' : AttId → Value} {as : List Answer} (h : Chained v as v') (n : ℕ) :
    ∃ v', Chained v (as.take n) v' := by
  induction as generalizing v n with
  | nil => exact ⟨v, by rw [List.take_nil]; rfl⟩
  | cons a as ih =>
    cases n with
    | zero => exact ⟨v, rfl⟩
    | succ n =>
      obtain ⟨v', hv⟩ := ih h.2 n
      exact ⟨v', h.1, hv⟩

/-- The answer is to the call's request, and the call returned what the
request came to. -/
def Settled (p : Reply) (a : Answer) : Prop :=
  a.frame = p.req.frame ∧ p.req.finish p.rcv.pckt = p.req.outcome a.vals a.accepted

theorem zip_outcomes : ∀ {ps : List Reply} {as : List Answer}, List.Forall₂ Settled ps as →
    ps.map (fun p => p.req.finish p.rcv.pckt) =
      List.zipWith (fun r a => r.outcome a.vals a.accepted) (ps.map (·.req)) as
  | _, _, .nil => rfl
  | _, _, .cons hp hps => by
    rw [List.map_cons, List.map_cons, List.zipWith_cons_cons, hp.2, zip_outcomes hps]

namespace Served

/-- No two calls overlap, and the device's values change by writes only. -/
def Undisturbed (s : Served) (a : ServedAct) : Prop := s.Turns a ∧ ∀ id v, a ≠ .change id v

theorem chained_step {s s' : Served} {v : AttId → Value} {a : ServedAct} (h : Chained v s.log s.vals)
    (ha : ∀ id v, a ≠ .change id v) (hs : s.step a = some s') : Chained v s'.log s'.vals := by
  cases a with
  | sys b =>
    obtain ⟨sys', -, rfl⟩ := Option.map_eq_some_iff.mp hs
    exact h
  | answer accept tail =>
    have hs : s.answer accept tail = some s' := hs
    unfold answer at hs
    split at hs
    · cases hs
    · obtain ⟨sys', -, rfl⟩ := Option.map_eq_some_iff.mp hs
      rw [respond_vals]
      exact h.snoc (a := ⟨_, accept, s.vals, _⟩) rfl
  | change id v => exact absurd rfl (ha id v)

/-- Whether the device accepted its `n`-th request. -/
def accepts (s : Served) (n : ℕ) : Bool := s.log[n]?.any (·.accepted)

/-- Where the calls do not overlap, each that has dequeued is matched with the
answer to its request. -/
theorem Logged.settled {s : Served} (h : Logged s) (ht : s.sys.Tally) :
    List.Forall₂ Settled s.sys.replies (s.log.take s.sys.replies.length) := by
  have hlen : s.sys.replies.length ≤ s.log.length := by
    by_contra hlt
    have hk : s.sys.replies[s.log.length]? = some s.sys.replies[s.log.length] :=
      List.getElem?_eq_getElem (by omega)
    obtain ⟨a, -, ha, -⟩ := h.reply hk
    rw [List.getElem?_eq_none (le_refl _)] at ha
    cases ha
  refine List.forall₂_iff_get.mpr ⟨by rw [List.length_take, Nat.min_eq_left hlen], fun i h₁ h₂ => ?_⟩
  obtain ⟨a, tail, ha, hreq, hrep, hpre⟩ := h.reply (List.getElem?_eq_getElem h₁)
  have hfr : a.frame = s.sys.replies[i].req.frame := by
    obtain ⟨-, hown⟩ := ht.matched i _ (List.getElem?_eq_getElem h₁)
    exact Option.some.inj (hreq.symm.trans hown)
  have hget : (s.log.take s.sys.replies.length).get ⟨i, h₂⟩ = a := by
    rw [List.get_eq_getElem, List.getElem_take]
    exact List.getElem_of_getElem? ha |>.2
  rw [hget]
  rw [hrep, hfr] at hpre
  exact ⟨hfr, Request.finish_eq_outcome _ hpre⟩

/-- **Calls that do not overlap are transactions.** -/
theorem outcomes_eq {s₀ s : Served} (h₀ : s₀.sys.Ready) (hlog : s₀.log = [])
    (h : Lts.Reach Served.step Undisturbed s₀ s) :
    s.sys.replies.map (fun p => p.req.finish p.rcv.pckt) =
      (Mealy.trace Bank.serve (.ofDevice s₀.vals s.accepts 0) (s.sys.replies.map (·.req))).map (·.1) := by
  have hinit : Chained s₀.vals s₀.log s₀.vals := by rw [hlog]; rfl
  obtain ⟨hl, ht⟩ := turns_reach h₀ hlog (h.mono_of_reach fun _ _ _ ha => ha.1)
  have hc : Chained s₀.vals s.log s.vals :=
    h.inv (I := fun s => Chained s₀.vals s.log s.vals) hinit fun _ _ _ hi ha hs => chained_step hi ha.2 hs
  obtain ⟨v', hc'⟩ := hc.take s.sys.replies.length
  have hm := hl.settled ht
  have hframes : List.Forall₂ (fun r a => a.frame = r.frame) (s.sys.replies.map (·.req))
      (s.log.take s.sys.replies.length) := List.forall₂_map_left_iff.mpr (hm.imp fun _ _ hp => hp.1)
  have haccepts : ∀ i a, (s.log.take s.sys.replies.length)[i]? = some a → s.accepts (0 + i) = a.accepted := by
    intro i a hi
    have hlog : s.log[i]? = some a := by
      rw [List.getElem?_take] at hi
      split at hi
      · exact hi
      · cases hi
    rw [Nat.zero_add, accepts, hlog]
    rfl
  rw [hc'.outcomes haccepts hframes]
  exact zip_outcomes hm

/-! ### One client -/

/-- Only thread `c₀` calls the service. -/
def Alone (c₀ : ℕ) (s : Served) (a : ServedAct) : Prop :=
  s.Allowed a ∧ (∀ c m, a = .sys (.call c m) → c = c₀) ∧ ∀ id v, a ≠ .change id v

/-- A client that is alone takes turns. -/
theorem undisturbed_of_alone {c₀ : ℕ} {s₀ s : Served} (h₀ : s₀.sys.Ready)
    (h : Lts.Reach Served.step (Alone c₀) s₀ s) : Lts.Reach Served.step Undisturbed s₀ s := by
  refine h.mono_of_reach fun s a hr ha => ?_
  have hidle : ∀ c, c ≠ c₀ → s.sys.threads c = .idle :=
    idle_of_calls (fun _ _ c m hok he => hok.2.1 c m he) h₀.threads hr
  exact ⟨⟨ha.1, fun b _ => Sys.serial_of_idle hidle b⟩, ha.2.2⟩

/-- **What a client that is alone sees of the service is a bank.** -/
theorem outcomes_eq_of_alone {c₀ : ℕ} {s₀ s : Served} (h₀ : s₀.sys.Ready) (hlog : s₀.log = [])
    (h : Lts.Reach Served.step (Alone c₀) s₀ s) :
    s.sys.replies.map (fun p => p.req.finish p.rcv.pckt) =
      (Mealy.trace Bank.serve (.ofDevice s₀.vals s.accepts 0) (s.sys.replies.map (·.req))).map (·.1) :=
  outcomes_eq h₀ hlog (undisturbed_of_alone h₀ h)

end Served

end ToolbitSdk
