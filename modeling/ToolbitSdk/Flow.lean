/-
# Where the packets go

What every run of the service keeps, whatever the device sends and whoever
starts, stops, opens and closes: each packet the worker has read is in one
place. A packet it takes for a reply is with the call that dequeued it, in
`resque` or still in its hands, in the order of arrival (`Flow.replies`);
an interrupt packet has been passed to the handler or is in its hands
(`Flow.interrupts`). While one handle stays open, what the device has
delivered is what the worker has read and what still waits in the handle
(`InOrder`).
-/
import ToolbitSdk.Service
import Mathlib.Data.List.Forall2

namespace ToolbitSdk

open Bytes

def Received.isReply (x : Received) : Bool := route x.pckt.dat = .reply

def Received.isInterrupt (x : Received) : Bool := route x.pckt.dat = .interrupt

/-- The report says by itself what the worker does with it: it brings both
bytes the worker tests, or is of another version. -/
def Report.Whole (r : Report) : Prop := 2 ≤ r.dat.length ∨ byteAt r.dat 0 &&& 0xC0 ≠ PROTOCOL_VERSION

instance : DecidablePred Report.Whole := fun r =>
  inferInstanceAs (Decidable (2 ≤ r.dat.length ∨ byteAt r.dat 0 &&& 0xC0 ≠ PROTOCOL_VERSION))

/-- The reports that wait in the handle. -/
def TbiDevice.input (d : TbiDevice) : List Report := (d.handle.map (·.input)).getD []

namespace Sys

/-- The packet in the worker's hands. -/
def held (s : Sys) : List Received :=
  match s.worker with
  | some (.dispatch n session) => [⟨s.rcvp, n, session⟩]
  | _ => []

theorem held_dispatch {s : Sys} {n session : ℕ} (h : s.worker = some (.dispatch n session)) :
    s.held = [⟨s.rcvp, n, session⟩] := by
  rw [held, h]

theorem held_eq_nil {s : Sys} (h : ∀ n session, s.worker ≠ some (.dispatch n session)) :
    s.held = [] := by
  unfold held
  split
  · exact absurd ‹_› (h _ _)
  · rfl

theorem interruptHandler_step {s s' : Sys} {a : Act} (hs : Steps s a s') :
    s'.interruptHandler = s.interruptHandler := by
  cases hs <;> rfl

/-- Each packet read is in one place, in the order of arrival. -/
structure Flow (s : Sys) : Prop where
  replies : s.received.filter (·.isReply) =
    s.replies.map (·.rcv) ++ s.resque.data ++ s.held.filter (·.isReply)
  interrupts : s.interruptHandler = true →
    (s.received.filter (·.isInterrupt)).map (·.pckt) =
      s.handled ++ (s.held.filter (·.isInterrupt)).map (·.pckt)

/-- A step that moves no packet keeps the flow. -/
theorem Flow.of_eq {s s' : Sys} (h : Flow s) (h1 : s'.received = s.received)
    (h2 : s'.replies = s.replies) (h3 : s'.resque.data = s.resque.data) (h4 : s'.held = s.held)
    (h5 : s'.handled = s.handled) (h6 : s'.interruptHandler = s.interruptHandler) : Flow s' := by
  refine ⟨?_, ?_⟩
  · rw [h1, h2, h3, h4]; exact h.replies
  · rw [h1, h4, h5, h6]; exact h.interrupts

theorem flow_step {s s' : Sys} {a : Act} (hs : Steps s a s') (h : Flow s) : Flow s' := by
  cases hs with
  | dequeue hpc hd =>
    refine ⟨?_, h.interrupts⟩
    have hr := h.replies
    rw [hd] at hr
    simpa [took, enter, goto, List.append_assoc, held] using hr
  | @read got n r rs hw hg hh =>
    have h0 : s.held = [] := held_eq_nil (by simp [hw])
    have h1 := h.replies
    have h2 := h.interrupts
    simp only [h0, List.filter_nil, List.append_nil, List.map_nil] at h1 h2
    refine ⟨?_, fun hi => ?_⟩
    · simp only [List.filter_append, h1]
      rfl
    · simp only [List.filter_append, List.map_append, h2 hi]
      rfl
  | @dispatch got n session hw hr =>
    have h0 := held_dispatch hw
    have h1 := h.replies
    have h2 := h.interrupts
    have hrep : (⟨s.rcvp, n, session⟩ : Received).isReply = false := by simpa [Received.isReply] using hr
    simp only [h0, List.filter_cons, hrep, List.filter_nil, Bool.false_eq_true, ↓reduceIte] at h1 h2
    refine ⟨?_, fun hi => ?_⟩
    · rw [h1]; rfl
    · rw [h2 hi]
      by_cases hint : route s.rcvp.dat = .interrupt
      · simp [held, hint, Received.isInterrupt, show s.interruptHandler = true from hi]
      · simp [held, hint, Received.isInterrupt]
  | @enqueue got n session hw hr hq =>
    have h0 := held_dispatch hw
    have h1 := h.replies
    have h2 := h.interrupts
    have hrep : (⟨s.rcvp, n, session⟩ : Received).isReply = true := by simpa [Received.isReply] using hr
    have hint : (⟨s.rcvp, n, session⟩ : Received).isInterrupt = false := by simp [Received.isInterrupt, hr]
    simp only [h0, List.filter_cons, hrep, hint, List.filter_nil, Bool.false_eq_true, ↓reduceIte] at h1 h2
    refine ⟨?_, fun hi => ?_⟩
    · rw [h1]; simp [held]
    · rw [h2 hi]; rfl
  | start hpc ha hw => exact h.of_eq rfl rfl rfl (by simp [held, enter, goto, hw]) rfl rfl
  | join hpc hw => exact h.of_eq rfl rfl rfl (by simp [held, hw]) rfl rfl
  | workerIsOpen hw =>
    refine h.of_eq rfl rfl rfl ?_ rfl rfl
    rw [held_eq_nil (s := s) (by simp [hw])]
    exact held_eq_nil fun n ses => by simp only; split <;> simp
  | readNothing hw hr => exact h.of_eq rfl rfl rfl (by simp [held, hw]) rfl rfl
  | workerThAbort hw =>
    refine h.of_eq rfl rfl rfl ?_ rfl rfl
    rw [held_eq_nil (s := s) (by simp [hw])]
    exact held_eq_nil fun n ses => by simp only; split <;> simp
  | _ => exact h.of_eq rfl rfl rfl rfl rfl rfl

/-! ### One open handle -/

theorem emitted_step {s s' : Sys} {a : Act} (hs : Steps s a s') (h : ∀ r, a ≠ .emit r) :
    s'.emitted = s.emitted := by
  cases hs with
  | emit hh => exact absurd rfl (h _)
  | _ => rfl

/-- What the worker has of a report: its bytes, and the branch it takes. -/
def Copy (r : Report) (x : Received) : Prop := r.dat <+: x.pckt.dat ∧ route x.pckt.dat = route r.dat

theorem copy_receive {r : Report} (h : r.Whole) (p : TbiPacket) (n session : ℕ) :
    Copy r ⟨p.receive r, n, session⟩ := by
  refine ⟨prefix_overlay _ _, ?_⟩
  rcases h with h | h
  · exact route_overlay _ h
  · have hdrop : route r.dat = .drop := by
      unfold route
      rw [if_neg h]
    rw [hdrop]
    exact route_overlay_drop _ r.pos h

/-- The reports delivered are those read, in order, and those that wait. -/
def InOrder (s : Sys) : Prop :=
  (∀ r ∈ s.emitted, r.Whole) ∧
    ∃ front, s.emitted = front ++ s.tdev.input ∧ List.Forall₂ Copy front s.received

/-- A step that neither delivers nor reads keeps the order. -/
theorem InOrder.of_eq {s s' : Sys} (h : InOrder s) (h1 : s'.emitted = s.emitted)
    (h2 : s'.tdev = s.tdev) (h3 : s'.received = s.received) : InOrder s' := by
  unfold InOrder
  rw [h1, h2, h3]
  exact h

/-- Kept by the steps that leave the handle open. -/
theorem inOrder_step {s s' : Sys} {a : Act} (hs : Steps s a s') (h : InOrder s)
    (hopen : s.tdev.isOpen = true) (hopen' : s'.tdev.isOpen = true)
    (hw : ∀ r, a = .emit r → r.Whole) : InOrder s' := by
  cases hs with
  | openDone hpc hh _ => rw [TbiDevice.isOpen, hh] at hopen; cases hopen
  | closeDevice hpc => cases hopen'
  | @read got n r rs hwk hg hh =>
    obtain ⟨hall, front, he, hf⟩ := h
    have hin : s.tdev.input = r :: rs := by simp [TbiDevice.input, hh]
    rw [hin] at he
    have hr : r.Whole := hall r (by simp [he])
    refine ⟨hall, front ++ [r], ?_, ?_⟩
    · rw [show TbiDevice.input ⟨some ⟨n, rs⟩⟩ = rs from rfl, List.append_assoc]; exact he
    · exact List.rel_append hf (.cons (copy_receive hr _ _ _) .nil)
  | @emit r h' hh =>
    obtain ⟨hall, front, he, hf⟩ := h
    have hin : s.tdev.input = h'.input := by simp [TbiDevice.input, hh]
    refine ⟨Lts.forall_mem_concat hall (hw r rfl), front, ?_, hf⟩
    simp only [he, hin]
    simp [TbiDevice.input]
  | _ => exact h.of_eq rfl rfl rfl

/-- Packet by packet, what arrived for a branch is what was read for it and
what waits for it. -/
theorem InOrder.filter {s : Sys} (h : InOrder s) (b : Route) :
    ∃ front, s.emitted.filter (fun r => route r.dat = b) =
        front ++ s.tdev.input.filter (fun r => route r.dat = b) ∧
      List.Forall₂ Copy front (s.received.filter fun x => route x.pckt.dat = b) := by
  obtain ⟨-, front, he, hf⟩ := h
  refine ⟨front.filter (fun r => route r.dat = b), by rw [he, List.filter_append], ?_⟩
  exact List.rel_filter (fun {r x} (hc : Copy r x) => by simp [hc.2]) hf

end Sys

end ToolbitSdk
