/-
# The reports on macOS

`hid_report_callback`, `return_data` and the non-blocking `hid_read_timeout`
of `hidapi/mac/hid.c`; the reads that wait for a report are not here. The
callback counts hops in the list of reports, so it keeps 32 of them
(`hidReportCallback_eq`); what is lost is said exactly
(`MacDevice.reads_in_order`).

For the system above it (`Sys.stepMac`) a lossy list makes no difference but
to what the device is said to have sent: a report that was dropped waited
until then, and the run without its arrival ends in the same state
(`Sys.run_without`). So each run on macOS is a run of the system with a list
without bound (`Sys.mac_refines`), and what holds of all its runs holds
there.
-/
import ToolbitSdk.Causality
import ToolbitSdk.Lib.DropQueue

namespace ToolbitSdk

open Bytes
open scoped List

/-! ### The list of reports -/

section

variable {α : Type*}

/-- `num_queued`, from `cur` to the end of the list. -/
def numQueued : List α → ℕ
  | _ :: rpt :: rest => numQueued (rpt :: rest) + 1
  | _ => 0

/-- `dev->input_reports` after the callback has attached `rpt`. -/
def hidReportCallback (input_reports : List α) (rpt : α) : List α :=
  match input_reports with
  | [] => [rpt]
  | cur :: rest =>
    if numQueued (cur :: rest) > 30 then (cur :: rest ++ [rpt]).tail else cur :: rest ++ [rpt]

theorem numQueued_eq : ∀ q : List α, numQueued q = q.length - 1
  | [] => rfl
  | [_] => rfl
  | _ :: b :: q => by
    rw [numQueued, numQueued_eq (b :: q)]
    simp

/-- The callback keeps 32 reports, though it counts to 30. -/
theorem hidReportCallback_eq (q : List α) (rpt : α) :
    hidReportCallback q rpt = DropQueue.push 32 q rpt := by
  cases q with
  | nil => rfl
  | cons cur rest =>
    rw [hidReportCallback, DropQueue.push, numQueued_eq, List.length_cons]
    by_cases h : rest.length + 1 < 32
    · rw [if_neg (by omega), if_pos h]
    · rw [if_pos (by omega), if_neg h]

end

/-! ### The reads -/

/-- What `hid_report_callback` and `hid_read_timeout` use of `hid_device`. -/
structure MacDevice where
  input_reports : List (List Byte)
  disconnected : Bool
  shutdown_thread : Bool

inductive ReadResult
  | error
  | nothing
  | bytes (data : List Byte)
  deriving DecidableEq, Repr

def ReadResult.data : ReadResult → Option (List Byte)
  | bytes data => some data
  | _ => none

namespace MacDevice

/-- `return_data` into a buffer of `length` bytes. -/
def returnData (length : ℕ) (rpt : List Byte) : List Byte := rpt.take length

/-- `hid_read_timeout(dev, data, length, 0)`, what `hid_read` is after
`hid_set_nonblocking(dev, 1)`. -/
def hidReadTimeout (length : ℕ) (dev : MacDevice) : ReadResult × MacDevice :=
  match dev.input_reports with
  | rpt :: next => (.bytes (returnData length rpt), { dev with input_reports := next })
  | [] =>
    if dev.disconnected then (.error, dev)
    else if dev.shutdown_thread then (.error, dev)
    else (.nothing, dev)

/-- What happens to the device: a report comes, the client reads, the device
is removed, the read thread ends by an error. -/
inductive Event
  | report (data : List Byte)
  | read
  | removal
  | shutdown

/-- The results of the reads, and the device in the end. -/
def results (length : ℕ) : MacDevice → List Event → List ReadResult × MacDevice
  | dev, [] => ([], dev)
  | dev, .report data :: es =>
    results length { dev with input_reports := hidReportCallback dev.input_reports data } es
  | dev, .read :: es =>
    let rest := results length (dev.hidReadTimeout length).2 es
    ((dev.hidReadTimeout length).1 :: rest.1, rest.2)
  | dev, .removal :: es => results length { dev with disconnected := true } es
  | dev, .shutdown :: es => results length { dev with shutdown_thread := true } es

/-- What the list of reports sees of it. -/
def Event.queued : Event → Option (DropQueue.Event (List Byte))
  | report data => some (.came data)
  | read => some .taken
  | _ => none

def reports (es : List Event) : List (List Byte) := DropQueue.arrivals (es.filterMap Event.queued)

theorem results_eq (length : ℕ) (dev : MacDevice) (es : List Event) :
    (dev.results length es).1.map ReadResult.data =
        (DropQueue.outputs 32 dev.input_reports (es.filterMap Event.queued)).map (Option.map (returnData length)) ∧
      (dev.results length es).2.input_reports =
        DropQueue.rest 32 dev.input_reports (es.filterMap Event.queued) := by
  induction es generalizing dev with
  | nil => exact ⟨rfl, rfl⟩
  | cons e es ih =>
    cases e with
    | report data =>
      have h := ih { dev with input_reports := hidReportCallback dev.input_reports data }
      rw [hidReportCallback_eq] at h
      rw [results, hidReportCallback_eq]
      exact h
    | read =>
      have h := ih (dev.hidReadTimeout length).2
      have hread : (dev.hidReadTimeout length).1.data = dev.input_reports.head?.map (returnData length) ∧
          (dev.hidReadTimeout length).2.input_reports = dev.input_reports.tail := by
        unfold hidReadTimeout
        cases hin : dev.input_reports with
        | nil =>
          dsimp only
          split_ifs <;> exact ⟨rfl, hin⟩
        | cons rpt next => exact ⟨rfl, rfl⟩
      rw [hread.2] at h
      refine ⟨?_, h.2⟩
      rw [results, List.map_cons, hread.1, h.1]
      rfl
    | removal => exact ih { dev with disconnected := true }
    | shutdown => exact ih { dev with shutdown_thread := true }

/-- The bytes of the reads that have some. -/
def reads (rs : List ReadResult) : List (List Byte) := (rs.map ReadResult.data).reduceOption

theorem reads_eq (length : ℕ) (dev : MacDevice) (es : List Event) :
    reads (dev.results length es).1 =
      (DropQueue.outputs 32 dev.input_reports (es.filterMap Event.queued)).reduceOption.map (returnData length) := by
  rw [reads, (results_eq length dev es).1, List.reduceOption_map]

/-- **Reads on macOS.** What was read and then waits came in this order, each
report at most once, and no more than 32 wait; a report is lost for each that
finds 32 waiting, and so none exactly if none does. -/
theorem reads_in_order (length : ℕ) (dev : MacDevice) (h : dev.input_reports.length ≤ 32) (es : List Event) :
    reads (dev.results length es).1 ++ (dev.results length es).2.input_reports.map (returnData length) <+
        (dev.input_reports ++ reports es).map (returnData length) ∧
      (dev.results length es).2.input_reports.length ≤ 32 ∧
      (reads (dev.results length es).1).length + (dev.results length es).2.input_reports.length +
          DropQueue.overflows 32 dev.input_reports (es.filterMap Event.queued) =
        dev.input_reports.length + (reports es).length := by
  rw [reads_eq, (results_eq length dev es).2, ← List.map_append]
  refine ⟨(DropQueue.outputs_append_rest_sublist _ _).map _, DropQueue.length_rest_le (by decide) h _, ?_⟩
  have hlen := DropQueue.length_outputs_add (N := 32) dev.input_reports (es.filterMap Event.queued)
  rw [List.length_append, List.length_append] at hlen
  rw [List.length_map]
  exact hlen

/-- One report more than the list keeps, and a read. -/
def overfull : List Event := (List.range 33).map (fun n => .report [(n : Byte)]) ++ [.read]

/-- The first of the reports is lost, and the second read. -/
theorem reads_in_order_overfull :
    reads (results 65 ⟨[], false, false⟩ overfull).1 = [[1]] ∧
      DropQueue.overflows 32 [] (overfull.filterMap Event.queued) = 1 ∧
      reads (results 65 ⟨[], false, false⟩ overfull).1 ++
          (results 65 ⟨[], false, false⟩ overfull).2.input_reports.map (returnData 65) <+
        ([] ++ reports overfull).map (returnData 65) ∧
      (results 65 ⟨[], false, false⟩ overfull).2.input_reports.length ≤ 32 ∧
      (reads (results 65 ⟨[], false, false⟩ overfull).1).length +
          (results 65 ⟨[], false, false⟩ overfull).2.input_reports.length +
          DropQueue.overflows 32 [] (overfull.filterMap Event.queued) =
        ([] : List (List Byte)).length + (reports overfull).length :=
  ⟨by decide, by decide, reads_in_order 65 ⟨[], false, false⟩ (by decide) overfull⟩

end MacDevice

namespace Sys

/-! ### The system on macOS -/

def isEmit : Act → Bool
  | .emit _ => true
  | _ => false

/-- The actions but for arrivals. -/
def acts (as : List Act) : List Act := as.filter fun a => !isEmit a

/-- The steps of the system, with the callback where a report arrives. -/
def stepMac (s : Sys) : Act → Option Sys
  | .emit r => s.tdev.handle.map fun h =>
    { s with tdev := ⟨some { h with input := hidReportCallback h.input r }⟩, emitted := s.emitted ++ [r] }
  | a => s.step a

theorem stepMac_of_ne {s : Sys} {a : Act} (he : ∀ r, a ≠ .emit r) : s.stepMac a = s.step a := by
  cases a with
  | emit r => exact absurd rfl (he r)
  | call | thread | worker => rfl

/-- Another device and another history of it. -/
def swap (s : Sys) (n : ℕ) (input emitted : List Report) : Sys :=
  { s with tdev := ⟨some ⟨n, input⟩⟩, emitted := emitted }

/-- A step but an arrival does the same to another list of reports: it closes
the handle, reads the first of the list or leaves the list alone. -/
theorem step_swap {s s' : Sys} {a : Act} {n : ℕ} {input : List Report} (hs : Steps s a s')
    (hd : s.tdev.handle = some ⟨n, input⟩)
    (hne : (∃ got, a = .worker got) → s.worker = some .read → input ≠ []) (he : ∀ r, a ≠ .emit r) :
    (s'.tdev.handle = none ∧
        ∀ input' emitted, (s.swap n input' emitted).step a = some { s' with emitted := emitted }) ∨
      (∃ r rs, input = r :: rs ∧ s'.tdev.handle = some ⟨n, rs⟩ ∧
        ∀ rs' emitted, (s.swap n (r :: rs') emitted).step a = some (s'.swap n rs' emitted)) ∨
      (s'.tdev.handle = s.tdev.handle ∧
        ∀ input' emitted, (s.swap n input' emitted).step a = some (s'.swap n input' emitted)) := by
  cases hs with
  | closeDevice hpc =>
    refine .inl ⟨rfl, fun input' emitted => ?_⟩
    simp [step, threadStep, swap, hpc, TbiDevice.close, goto]
  | openDone hpc hh _ => rw [hh] at hd; cases hd
  | emit _ => exact absurd rfl (he _)
  | @read got n' r rs hw hg hh =>
    rw [hh] at hd
    cases hd
    refine .inr (.inl ⟨r, rs, rfl, rfl, fun rs' emitted => ?_⟩)
    simp [step, workerStep, doRead, swap, hw, hg, TbiDevice.read]
  | @readNothing got hw hr =>
    have hg : got = false := by
      obtain ⟨r, rs, rfl⟩ := List.exists_cons_of_ne_nil (hne ⟨got, rfl⟩ hw)
      unfold TbiDevice.read at hr
      rw [hd] at hr
      cases got with
      | false => rfl
      | true => cases hr
    refine .inr (.inr ⟨rfl, fun input' emitted => ?_⟩)
    simp [step, workerStep, doRead, swap, hw, hg, TbiDevice.read]
  | @dispatch got n' session hw hr =>
    refine .inr (.inr ⟨rfl, fun input' emitted => ?_⟩)
    cases hroute : route s.rcvp.dat with
    | reply => exact absurd hroute hr
    | drop | interrupt | event => simp [step, workerStep, doDispatch, swap, hw, hroute]
  | enqueue hw hr hq =>
    refine .inr (.inr ⟨rfl, fun input' emitted => ?_⟩)
    simp [step, workerStep, doDispatch, swap, hw, hr, LockedQueue.enqueue, hq]
  | workerIsOpen hw | workerThAbort hw =>
    refine .inr (.inr ⟨rfl, fun input' emitted => ?_⟩)
    simp [step, workerStep, swap, TbiDevice.isOpen, hw, hd]
  | call hpc | dequeue hpc | openRefused hpc | openAllowed hpc | active hpc | start hpc | closeRefused hpc
  | closeAllowed hpc | notActive hpc | stop hpc | join hpc | opened hpc | notOpen hpc | write hpc | openFailed hpc =>
    refine .inr (.inr ⟨rfl, fun input' emitted => ?_⟩)
    simp_all [step, threadStep, swap, TbiDevice.isOpen, goto, enter, doWrite, took, doDequeue, doOpen, doStart, mark,
      TbiDevice.write, LockedQueue.dequeue, TbiDevice.openPath]

theorem swap_self {s : Sys} {n : ℕ} {input : List Report} (h : s.tdev.handle = some ⟨n, input⟩) :
    s.swap n input s.emitted = s := by
  have htdev : s.tdev = ⟨some ⟨n, input⟩⟩ := by
    cases hd : s.tdev
    rw [hd] at h
    exact congrArg TbiDevice.mk h
  rw [swap, ← htdev]

/-- Only an arrival makes a report wait. -/
theorem input_nil_step {s s' : Sys} {a : Act} (hs : Steps s a s') (he : ∀ r, a ≠ .emit r)
    (h : s.tdev.input = []) : s'.tdev.input = [] := by
  cases hs with
  | closeDevice hpc | openDone hpc hh _ => rfl
  | emit _ => exact absurd rfl (he _)
  | read hw hg hh =>
    rw [TbiDevice.input, hh] at h
    exact absurd h (by simp)
  | _ => exact h

theorem acts_concat {as as' : List Act} (h : acts as' = acts as) {a : Act} :
    acts (as' ++ [a]) = acts (as ++ [a]) := by
  unfold acts at *
  rw [List.filter_append, List.filter_append, h]

/-- A report that waits in the handle could as well not have come: without
its arrival the run ends in the same state, but that it does not wait. -/
theorem run_without {s₀ : Sys} (h₀ : s₀.tdev.input = []) (as : List Act) {s : Sys} {n : ℕ} {xs ys : List Report}
    {r : Report} (h : Lts.run step s₀ as = some s) (hd : s.tdev.handle = some ⟨n, xs ++ r :: ys⟩) :
    ∃ as' emitted, as' <+ as ∧ acts as' = acts as ∧ emitted <+ s.emitted ∧
      Lts.run step s₀ as' = some (s.swap n (xs ++ ys) emitted) := by
  induction as using List.reverseRecOn generalizing s xs ys with
  | nil =>
    cases h
    rw [TbiDevice.input, hd] at h₀
    exact absurd h₀ (by simp)
  | append_singleton as a ih =>
    rw [Lts.run_concat] at h
    obtain ⟨m, hm, hstep⟩ := Option.bind_eq_some_iff.mp h
    have hs := steps_of_step hstep
    by_cases he : ∃ r', a = .emit r'
    · obtain ⟨r', rfl⟩ := he
      cases hs with
      | @emit _ dev hh =>
        obtain ⟨hn, hinput⟩ := HidDevice.mk.inj (Option.some.inj hd)
        rcases List.eq_nil_or_concat ys with rfl | ⟨ys, y, rfl⟩
        · -- it is the last that came
          obtain ⟨rfl, -⟩ := List.append_inj' hinput rfl
          refine ⟨as, m.emitted, List.sublist_append_left _ _, by simp [acts, isEmit],
            List.sublist_append_left _ _, ?_⟩
          rw [hm, List.append_nil, ← hn, ← swap_self (s := m) hh]
          rfl
        · rw [List.concat_eq_append, ← List.cons_append, ← List.append_assoc] at hinput
          obtain ⟨hfront, hy⟩ := List.append_inj' hinput rfl
          obtain rfl := List.singleton_inj.mp hy
          obtain ⟨as', emitted, hsub, hacts, hem, hrun⟩ := @ih m xs ys hm (by rw [hh, ← hfront, ← hn])
          refine ⟨as' ++ [.emit r'], emitted ++ [r'], hsub.append_right _, acts_concat hacts,
            hem.append_right _, ?_⟩
          rw [Lts.run_concat, hrun]
          simp [step, TbiDevice.arrive, swap]
    · have hne : ∀ r', a ≠ .emit r' := fun r' hr => he ⟨r', hr⟩
      have hin : m.tdev.input ≠ [] := fun h0 => by
        have h1 := input_nil_step hs hne h0
        rw [TbiDevice.input, hd] at h1
        exact absurd h1 (by simp)
      obtain ⟨n', input, hdev⟩ : ∃ n' input, m.tdev.handle = some ⟨n', input⟩ := by
        cases hh : m.tdev.handle with
        | none => exact absurd (by rw [TbiDevice.input, hh]; rfl) hin
        | some dev => exact ⟨dev.session, dev.input, rfl⟩
      rw [TbiDevice.input, hdev] at hin
      have hem' := emitted_step hs hne
      rcases step_swap hs hdev (fun _ _ => hin) hne with
        ⟨hnone, -⟩ | ⟨r', rs, rfl, hsome, hswap⟩ | ⟨hsame, hswap⟩
      · rw [hnone] at hd
        cases hd
      · rw [hd] at hsome
        obtain ⟨rfl, rfl⟩ := HidDevice.mk.inj (Option.some.inj hsome)
        obtain ⟨as', emitted, hsub, hacts, hem, hrun⟩ := @ih m (r' :: xs) ys hm hdev
        refine ⟨as' ++ [a], emitted, hsub.append_right _, acts_concat hacts, hem' ▸ hem, ?_⟩
        rw [Lts.run_concat, hrun]
        exact hswap _ _
      · rw [hd, hdev] at hsame
        obtain ⟨rfl, rfl⟩ := HidDevice.mk.inj (Option.some.inj hsame)
        obtain ⟨as', emitted, hsub, hacts, hem, hrun⟩ := @ih m xs ys hm hdev
        refine ⟨as' ++ [a], emitted, hsub.append_right _, acts_concat hacts, hem' ▸ hem, ?_⟩
        rw [Lts.run_concat, hrun]
        exact hswap _ _

/-- With another history of the device. -/
def forget (emitted : List Report) (s : Sys) : Sys := { s with emitted := emitted }

/-- No step reads the history of the device. -/
theorem step_forget {a : Act} (he : ∀ r, a ≠ .emit r) (emitted : List Report) (s : Sys) :
    (s.forget emitted).step a = (s.step a).map (forget emitted) := by
  cases a with
  | emit r => exact absurd rfl (he r)
  | call c m =>
    unfold step forget
    dsimp only
    cases s.threads c <;> rfl
  | thread c env =>
    unfold step threadStep forget
    dsimp only
    cases s.threads c with
    | idle | closeDevice | write => rfl
    | isOpen r rest =>
      dsimp only
      split <;> rfl
    | dequeue r rest mark =>
      dsimp only [doDequeue]
      cases s.resque.dequeue <;> rfl
    | openTest path rest =>
      dsimp only
      split <;> rfl
    | openDevice rest =>
      dsimp only [doOpen]
      rcases s.tdev.openPath (s.sessions + 1) env.ok with ⟨_ | _, d⟩ <;> rfl
    | start rest =>
      dsimp only [doStart]
      split
      · rfl
      · cases s.worker <;> rfl
    | closeTest =>
      dsimp only
      split <;> rfl
    | stop closing =>
      dsimp only
      split <;> rfl
    | join closing =>
      dsimp only
      split <;> rfl
  | worker got =>
    unfold step workerStep forget
    dsimp only
    rcases s.worker with _ | w
    · rfl
    · cases w with
      | isOpen | thAbort | returned => rfl
      | read =>
        dsimp only [doRead]
        cases s.tdev.read got <;> rfl
      | dispatch n session =>
        dsimp only [doDispatch]
        cases route s.rcvp.dat with
        | reply =>
          dsimp only
          cases s.resque.enqueue ⟨s.rcvp, n, session⟩ <;> rfl
        | drop | interrupt | event => rfl

/-- **The system on macOS.** Each of its runs is a run of the system with an
unbounded list of reports, of the same actions of the threads and of a device
that sends some of the reports: up to the history of the device it ends in the
same state. -/
theorem mac_refines {s₀ : Sys} (h₀ : s₀.tdev.input = []) (as : List Act) {s : Sys}
    (h : Lts.run stepMac s₀ as = some s) :
    ∃ as' emitted, as' <+ as ∧ acts as' = acts as ∧ emitted <+ s.emitted ∧
      Lts.run step s₀ as' = some (s.forget emitted) := by
  induction as using List.reverseRecOn generalizing s with
  | nil =>
    cases h
    exact ⟨[], s₀.emitted, .refl _, rfl, .refl _, rfl⟩
  | append_singleton as a ih =>
    rw [Lts.run_concat] at h
    obtain ⟨m, hm, hstep⟩ := Option.bind_eq_some_iff.mp h
    obtain ⟨as', emitted, hsub, hacts, hem, hrun⟩ := ih hm
    by_cases he : ∃ r, a = .emit r
    · obtain ⟨r, rfl⟩ := he
      obtain ⟨dev, hdev, rfl⟩ := Option.map_eq_some_iff.mp hstep
      have hlossless : Lts.run step s₀ (as' ++ [.emit r]) =
          some (m.swap dev.session (dev.input ++ [r]) (emitted ++ [r])) := by
        rw [Lts.run_concat, hrun]
        simp [step, TbiDevice.arrive, swap, forget, hdev]
      rw [hidReportCallback_eq, DropQueue.push]
      by_cases hfull : dev.input.length < 32
      · rw [if_pos hfull]
        exact ⟨_, _, hsub.append_right _, acts_concat hacts, hem.append_right _, hlossless⟩
      · rw [if_neg hfull]
        -- the oldest report is dropped: it need not have come
        obtain ⟨r₀, rest, hcons⟩ := List.exists_cons_of_ne_nil (show dev.input ++ [r] ≠ [] by simp)
        obtain ⟨as'', emitted', hsub', hacts', hem', hrun'⟩ :=
          @run_without s₀ h₀ _ _ dev.session [] rest r₀ hlossless
          (by rw [hcons]; rfl)
        refine ⟨as'', emitted', hsub'.trans (hsub.append_right _), hacts'.trans (acts_concat hacts),
          hem'.trans (hem.append_right _), ?_⟩
        rw [hrun', hcons]
        rfl
    · have hne : ∀ r, a ≠ .emit r := fun r hr => he ⟨r, hr⟩
      rw [stepMac_of_ne hne] at hstep
      refine ⟨as' ++ [a], emitted, hsub.append_right _, acts_concat hacts, ?_, ?_⟩
      · rw [emitted_step (steps_of_step hstep) hne]
        exact hem
      · rw [Lts.run_concat, hrun, Option.bind_some, step_forget hne, hstep]
        rfl

/-- One report more than the list keeps. -/
def flood : List Act := List.replicate 33 (.emit oneByte)

theorem mac_refines_flood : ∃ s as' emitted, Lts.run stepMac fresh flood = some s ∧ as' <+ flood ∧
    acts as' = acts flood ∧ emitted <+ s.emitted ∧ Lts.run step fresh as' = some (s.forget emitted) := by
  obtain ⟨s, hs⟩ := Option.isSome_iff_exists.mp (show (Lts.run stepMac fresh flood).isSome = true by rfl)
  obtain ⟨as', emitted, h⟩ := mac_refines rfl flood hs
  exact ⟨s, as', emitted, hs, h⟩

end Sys

end ToolbitSdk
