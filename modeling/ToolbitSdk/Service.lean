/-
# The service: client threads, the worker and the device

`TbiDevice`, `LockedQueue`, `TbiService` and the `openPath` and `close` of
`TbiCore`, as one step function. The threads of the program interleave at
the granularity of their accesses to shared data: a method of `TbiDevice`
holds its mutex throughout, so it is one step, as are `enqueue` and
`dequeue` of the queue (not enabled while they would wait) and each access
to `thAbort`. An action of `Act` names who steps; what the environment
decides (whether the HID layer fails, what uninitialised memory holds, which
report arrives) is in it.

Two lifecycle methods that race on the plain pointer `th` are undefined
behaviour in the source: `start` has no step while an earlier worker has not
been joined.

The fields of `Sys` under "history" record what has happened; no step reads
them.
-/
import ToolbitSdk.Packet
import ToolbitSdk.Lib.Lts
import Mathlib.Logic.Function.Basic

namespace ToolbitSdk

open Bytes

/-! ### LockedQueue -/

/-- `LockedQueue<T>`. -/
structure LockedQueue (T : Type*) where
  data : List T
  capacity : ℕ

namespace LockedQueue

variable {T : Type*}

/-- `none` while the caller waits for `data.size() != capacity`. -/
def enqueue (q : LockedQueue T) (x : T) : Option (LockedQueue T) :=
  if q.data.length ≠ q.capacity then some { q with data := q.data ++ [x] } else none

/-- `none` while the caller waits for `!data.empty()`. -/
def dequeue (q : LockedQueue T) : Option (T × LockedQueue T) :=
  match q.data with
  | [] => none
  | x :: xs => some (x, { q with data := xs })

end LockedQueue

/-! ### TbiDevice -/

/-- An open HID handle: the reports that wait in it, and the number of the
session it was opened for. -/
structure HidDevice where
  session : ℕ
  input : List Report

structure TbiDevice where
  handle : Option HidDevice

namespace TbiDevice

def isOpen (d : TbiDevice) : Bool := d.handle.isSome

/-- `open(path)`, where `hid_open_path` succeeds if `found`. -/
def openPath (d : TbiDevice) (session : ℕ) (found : Bool) : Bool × TbiDevice :=
  match d.handle with
  | some _ => (true, d)
  | none => if found then (false, ⟨some ⟨session, []⟩⟩) else (true, d)

def close (d : TbiDevice) : Bool × TbiDevice :=
  match d.handle with
  | none => (true, d)
  | some _ => (false, ⟨none⟩)

/-- `write(sndbuf, num)`: true when it refuses, false when it has called
`hid_write`, whose result it ignores. -/
def write (d : TbiDevice) (sndbuf : List Byte) : Bool := !d.isOpen || sndbuf.length > BUF_LEN - 1

/-- `read`: the oldest report if the HID layer gives one (`got`), nothing
otherwise. -/
def read (d : TbiDevice) (got : Bool) : Option (Report × HidDevice) :=
  match d.handle, got with
  | some ⟨n, r :: rs⟩, true => some (r, ⟨n, rs⟩)
  | _, _ => none

/-- A report of the device arrives at the host. -/
def arrive (d : TbiDevice) (r : Report) : Option TbiDevice :=
  d.handle.map fun h => ⟨some { h with input := h.input ++ [r] }⟩

end TbiDevice

/-! ### The state -/

/-- A packet the worker has read: the `n`-th, in session `session`. -/
structure Received where
  pckt : TbiPacket
  n : ℕ
  session : ℕ

/-- What a call notes when it hands its request to `TbiDevice::write`: the
number of packets received before, the session, the number of requests that
reached the device before. -/
structure Mark where
  received : ℕ
  session : Option ℕ
  index : ℕ

/-- A call that has dequeued its packet. -/
structure Reply where
  thread : ℕ
  req : Request
  mark : Mark
  rcv : Received

/-- The common attributes of `TbiCore`. -/
structure TbiCore where
  mAttVendorName : Attribute
  mAttProductName : Attribute
  mAttProductRevision : Attribute
  mAttProductSerial : Attribute
  mAttFirmVersion : Attribute

/-- The reads of `TbiCore::openPath`, in order. -/
def TbiCore.reads (t : TbiCore) : List Request :=
  [.read t.mAttVendorName, .read t.mAttProductName, .read t.mAttProductRevision,
    .read t.mAttProductSerial, .read t.mAttFirmVersion]

/-- Where a client thread stands. The lists are the requests the same method
still has to make. -/
inductive Pc
  | idle
  | isOpen (r : Request) (rest : List Request)
  | write (r : Request) (rest : List Request)
  | dequeue (r : Request) (rest : List Request) (mark : Mark)
  | openTest (path : Option String) (rest : List Request)
  | openDevice (rest : List Request)
  | start (rest : List Request)
  | closeTest
  | stop (closing : Bool)
  | join (closing : Bool)
  | closeDevice

/-- At the first of the requests a method has to make, or returned. -/
def Pc.enter : List Request → Pc
  | [] => .idle
  | r :: rest => .isOpen r rest

/-- The call of `readAttribute` or `writeAttribute` that thread `c` begins
there. -/
def Pc.begins (c : ℕ) : Pc → List (ℕ × Request)
  | .isOpen r _ => [(c, r)]
  | _ => []

/-- Where the worker stands in its loop; at `dispatch` it holds the packet it
has read. -/
inductive WorkerPc
  | isOpen
  | read
  | dispatch (n session : ℕ)
  | thAbort
  | returned
  deriving DecidableEq

structure Sys where
  tdev : TbiDevice
  thAbort : Bool
  worker : Option WorkerPc
  rcvp : TbiPacket
  resque : LockedQueue Received
  interruptHandler : Bool
  threads : ℕ → Pc
  -- history
  sessions : ℕ
  calls : List (ℕ × Request)
  requests : List (List Byte)
  emitted : List Report
  received : List Received
  handled : List TbiPacket
  replies : List Reply

/-- What the environment decides in a thread's step. -/
structure Env where
  ok : Bool
  junk : TbiPacket

/-- The methods a client thread may call. -/
inductive Api
  | readAttribute (att : Attribute)
  | writeAttribute (att : Attribute)
  | start
  | stop
  | openPath (path : Option String) (core : TbiCore)
  | close

/-- Where a method starts. -/
def Api.pc : Api → Pc
  | readAttribute att => .isOpen (.read att) []
  | writeAttribute att => .isOpen (.write att) []
  | start => .start []
  | stop => .stop false
  | openPath path core => .openTest path core.reads
  | close => .closeTest

inductive Act
  | call (c : ℕ) (m : Api)
  | thread (c : ℕ) (env : Env)
  | worker (got : Bool)
  | emit (r : Report)

namespace Sys

/-! ### The steps -/

/-- Thread `c` goes to `p`. -/
def goto (s : Sys) (c : ℕ) (p : Pc) : Sys :=
  { s with threads := Function.update s.threads c p, calls := s.calls ++ p.begins c }

/-- Thread `c` makes the first of the requests, or returns to its caller. -/
def enter (s : Sys) (c : ℕ) (rs : List Request) : Sys := s.goto c (Pc.enter rs)

def mark (s : Sys) : Mark := ⟨s.received.length, s.tdev.handle.map (·.session), s.requests.length⟩

/-- `TbiDevice::write` in a call of thread `c`: its result is ignored. -/
def doWrite (s : Sys) (c : ℕ) (r : Request) (rest : List Request) (env : Env) : Sys :=
  { s.goto c (.dequeue r rest s.mark) with
    requests := if s.tdev.write r.frame || !env.ok then s.requests else s.requests ++ [r.frame] }

/-- A call of thread `c` has dequeued `x.1`, and returns. -/
def took (s : Sys) (c : ℕ) (r : Request) (rest : List Request) (mark : Mark)
    (x : Received × LockedQueue Received) : Sys :=
  ({ s with resque := x.2, replies := s.replies ++ [⟨c, r, mark, x.1⟩] } : Sys).enter c rest

/-- `resque.dequeue()` in a call of thread `c`. -/
def doDequeue (s : Sys) (c : ℕ) (r : Request) (rest : List Request) (mark : Mark) : Option Sys :=
  s.resque.dequeue.map (s.took c r rest mark)

/-- `mTbiDevice->open(path)` in `openPath`. -/
def doOpen (s : Sys) (c : ℕ) (rest : List Request) (env : Env) : Sys :=
  match s.tdev.openPath (s.sessions + 1) env.ok with
  | (true, _) => s.goto c .idle
  | (false, d) => { s.goto c (.start rest) with tdev := d, sessions := s.sessions + 1 }

/-- `TbiService::start`. -/
def doStart (s : Sys) (c : ℕ) (rest : List Request) (env : Env) : Option Sys :=
  if !s.thAbort then some (s.enter c rest)
  else match s.worker with
    | none =>
      some (({ s with thAbort := false, worker := some .isOpen, rcvp := env.junk } : Sys).enter c rest)
    | some _ => none

/-- The next access to shared data of thread `c`. -/
def threadStep (s : Sys) (c : ℕ) (env : Env) : Option Sys :=
  match s.threads c with
  | .idle => none
  | .isOpen r rest => some (if s.tdev.isOpen then s.goto c (.write r rest) else s.enter c rest)
  | .write r rest => some (s.doWrite c r rest env)
  | .dequeue r rest mark => s.doDequeue c r rest mark
  | .openTest path rest =>
    some (if s.tdev.isOpen || path.isNone then s.goto c .idle else s.goto c (.openDevice rest))
  | .openDevice rest => some (s.doOpen c rest env)
  | .start rest => s.doStart c rest env
  | .closeTest => some (if s.tdev.isOpen then s.goto c (.stop true) else s.goto c .idle)
  | .stop closing =>
    some (if s.thAbort then s.goto c (if closing then .closeDevice else .idle)
      else { s.goto c (.join closing) with thAbort := true })
  | .join closing =>
    if s.worker = some .returned then
      some { s.goto c (if closing then .closeDevice else .idle) with worker := none }
    else none
  | .closeDevice => some { s.goto c .idle with tdev := s.tdev.close.2 }

/-- `tdev->read(rcvp.dat)` in the worker. -/
def doRead (s : Sys) (got : Bool) : Sys :=
  match s.tdev.read got with
  | none => { s with worker := some .thAbort }
  | some (r, h) =>
    { s with
      tdev := ⟨some h⟩
      rcvp := s.rcvp.receive r
      worker := some (.dispatch s.received.length h.session)
      received := s.received ++ [⟨s.rcvp.receive r, s.received.length, h.session⟩] }

/-- What the worker does with the packet it has read. -/
def doDispatch (s : Sys) (n session : ℕ) : Option Sys :=
  match route s.rcvp.dat with
  | .drop => some { s with worker := some .thAbort }
  | .interrupt =>
    some { s with
      worker := some .thAbort
      handled := if s.interruptHandler then s.handled ++ [s.rcvp] else s.handled }
  | .event => some { s with worker := some .thAbort }
  | .reply => (s.resque.enqueue ⟨s.rcvp, n, session⟩).map fun q => { s with worker := some .thAbort, resque := q }

/-- The next step of `TbiService::worker`. -/
def workerStep (s : Sys) (got : Bool) : Option Sys :=
  match s.worker with
  | none => none
  | some .isOpen => some { s with worker := some (if s.tdev.isOpen then .read else .thAbort) }
  | some .read => some (s.doRead got)
  | some (.dispatch n session) => s.doDispatch n session
  | some .thAbort => some { s with worker := some (if s.thAbort then .returned else .isOpen) }
  | some .returned => none

def step (s : Sys) : Act → Option Sys
  | .call c m => match s.threads c with
    | .idle => some (s.goto c m.pc)
    | _ => none
  | .thread c env => s.threadStep c env
  | .worker got => s.workerStep got
  | .emit r => (s.tdev.arrive r).map fun d => { s with tdev := d, emitted := s.emitted ++ [r] }

/-! ### What a step can do -/

/-- The steps of the system, one case for each branch. -/
inductive Steps (s : Sys) : Act → Sys → Prop
  | call {c m} : s.threads c = .idle → Steps s (.call c m) (s.goto c m.pc)
  | opened {c env r rest} : s.threads c = .isOpen r rest → s.tdev.isOpen = true →
      Steps s (.thread c env) (s.goto c (.write r rest))
  | notOpen {c env r rest} : s.threads c = .isOpen r rest → s.tdev.isOpen = false →
      Steps s (.thread c env) (s.enter c rest)
  | write {c env r rest} : s.threads c = .write r rest → Steps s (.thread c env) (s.doWrite c r rest env)
  | dequeue {c env r rest mark x xs} : s.threads c = .dequeue r rest mark → s.resque.data = x :: xs →
      Steps s (.thread c env) (s.took c r rest mark (x, { s.resque with data := xs }))
  | openRefused {c env path rest} : s.threads c = .openTest path rest →
      (s.tdev.isOpen || path.isNone) = true → Steps s (.thread c env) (s.goto c .idle)
  | openAllowed {c env path rest} : s.threads c = .openTest path rest →
      (s.tdev.isOpen || path.isNone) = false → Steps s (.thread c env) (s.goto c (.openDevice rest))
  | openFailed {c env rest} : s.threads c = .openDevice rest →
      s.tdev.isOpen = true ∨ env.ok = false → Steps s (.thread c env) (s.goto c .idle)
  | openDone {c env rest} : s.threads c = .openDevice rest → s.tdev.handle = none → env.ok = true →
      Steps s (.thread c env)
        { s.goto c (.start rest) with tdev := ⟨some ⟨s.sessions + 1, []⟩⟩, sessions := s.sessions + 1 }
  | active {c env rest} : s.threads c = .start rest → s.thAbort = false →
      Steps s (.thread c env) (s.enter c rest)
  | start {c env rest} : s.threads c = .start rest → s.thAbort = true → s.worker = none →
      Steps s (.thread c env)
        (({ s with thAbort := false, worker := some .isOpen, rcvp := env.junk } : Sys).enter c rest)
  | closeRefused {c env} : s.threads c = .closeTest → s.tdev.isOpen = false →
      Steps s (.thread c env) (s.goto c .idle)
  | closeAllowed {c env} : s.threads c = .closeTest → s.tdev.isOpen = true →
      Steps s (.thread c env) (s.goto c (.stop true))
  | notActive {c env closing} : s.threads c = .stop closing → s.thAbort = true →
      Steps s (.thread c env) (s.goto c (if closing then .closeDevice else .idle))
  | stop {c env closing} : s.threads c = .stop closing → s.thAbort = false →
      Steps s (.thread c env) { s.goto c (.join closing) with thAbort := true }
  | join {c env closing} : s.threads c = .join closing → s.worker = some .returned →
      Steps s (.thread c env) { s.goto c (if closing then .closeDevice else .idle) with worker := none }
  | closeDevice {c env} : s.threads c = .closeDevice →
      Steps s (.thread c env) { s.goto c .idle with tdev := ⟨none⟩ }
  | workerIsOpen {got} : s.worker = some .isOpen →
      Steps s (.worker got) { s with worker := some (if s.tdev.isOpen then .read else .thAbort) }
  | readNothing {got} : s.worker = some .read → s.tdev.read got = none →
      Steps s (.worker got) { s with worker := some .thAbort }
  | read {got n r rs} : s.worker = some .read → got = true → s.tdev.handle = some ⟨n, r :: rs⟩ →
      Steps s (.worker got)
        { s with tdev := ⟨some ⟨n, rs⟩⟩, rcvp := s.rcvp.receive r
                 worker := some (.dispatch s.received.length n)
                 received := s.received ++ [⟨s.rcvp.receive r, s.received.length, n⟩] }
  | dispatch {got n session} : s.worker = some (.dispatch n session) → route s.rcvp.dat ≠ .reply →
      Steps s (.worker got)
        { s with
          worker := some .thAbort
          handled := if route s.rcvp.dat = .interrupt ∧ s.interruptHandler = true then
            s.handled ++ [s.rcvp] else s.handled }
  | enqueue {got n session} : s.worker = some (.dispatch n session) → route s.rcvp.dat = .reply →
      s.resque.data.length ≠ s.resque.capacity →
      Steps s (.worker got)
        { s with worker := some .thAbort
                 resque := { s.resque with data := s.resque.data ++ [⟨s.rcvp, n, session⟩] } }
  | workerThAbort {got} : s.worker = some .thAbort →
      Steps s (.worker got) { s with worker := some (if s.thAbort then .returned else .isOpen) }
  | emit {r h} : s.tdev.handle = some h →
      Steps s (.emit r)
        { s with tdev := ⟨some { h with input := h.input ++ [r] }⟩, emitted := s.emitted ++ [r] }

theorem steps_thread {s s' : Sys} {c : ℕ} {env : Env} (h : s.threadStep c env = some s') :
    Steps s (.thread c env) s' := by
  unfold threadStep at h
  split at h <;> rename_i hpc
  · cases h
  · split at h
    · cases h; exact .opened hpc ‹_›
    · cases h; exact .notOpen hpc (Bool.eq_false_of_not_eq_true ‹_›)
  · cases h; exact .write hpc
  · unfold doDequeue LockedQueue.dequeue at h
    split at h
    · cases h
    · cases h; exact .dequeue hpc ‹_›
  · split at h
    · cases h; exact .openRefused hpc ‹_›
    · cases h; exact .openAllowed hpc (Bool.eq_false_of_not_eq_true ‹_›)
  · cases h
    unfold doOpen TbiDevice.openPath
    cases hh : s.tdev.handle with
    | some d => exact .openFailed hpc (.inl (by simp [TbiDevice.isOpen, hh]))
    | none =>
      cases hok : env.ok with
      | true => exact .openDone hpc hh hok
      | false => exact .openFailed hpc (.inr hok)
  · unfold doStart at h
    split at h
    · cases h; exact .active hpc (by simpa using ‹(!_) = true›)
    · rename_i ha
      split at h
      · cases h; exact .start hpc (by simpa using ha) ‹_›
      · cases h
  · split at h
    · cases h; exact .closeAllowed hpc ‹_›
    · cases h; exact .closeRefused hpc (Bool.eq_false_of_not_eq_true ‹_›)
  · split at h
    · cases h; exact .notActive hpc ‹_›
    · cases h; exact .stop hpc (Bool.eq_false_of_not_eq_true ‹_›)
  · split at h
    · cases h; exact .join hpc ‹_›
    · cases h
  · cases h
    have he : s.tdev.close.2 = ⟨none⟩ := by
      unfold TbiDevice.close
      split
      · rename_i hh
        cases ht : s.tdev with
        | mk d => rw [ht] at hh; cases hh; rfl
      · rfl
    rw [he]; exact .closeDevice hpc

theorem steps_worker {s s' : Sys} {got : Bool} (h : s.workerStep got = some s') :
    Steps s (.worker got) s' := by
  unfold workerStep at h
  split at h <;> rename_i hw
  · cases h
  · cases h; exact .workerIsOpen hw
  · cases h
    unfold doRead
    split
    · exact .readNothing hw ‹_›
    · rename_i r h hr
      unfold TbiDevice.read at hr
      split at hr
      · cases hr; exact .read hw rfl ‹_›
      · cases hr
  · unfold doDispatch at h
    split at h <;> rename_i hr
    · cases h
      have hs : Steps s (.worker got) _ := .dispatch hw (by rw [hr]; decide)
      simpa [hr] using hs
    · cases h
      have hs : Steps s (.worker got) _ := .dispatch hw (by rw [hr]; decide)
      simpa [hr] using hs
    · cases h
      have hs : Steps s (.worker got) _ := .dispatch hw (by rw [hr]; decide)
      simpa [hr] using hs
    · unfold LockedQueue.enqueue at h
      split at h
      · cases h; exact .enqueue hw hr ‹_›
      · cases h
  · cases h; exact .workerThAbort hw
  · cases h

theorem steps_of_step {s s' : Sys} {a : Act} (h : s.step a = some s') : Steps s a s' := by
  cases a with
  | call c m =>
    simp only [step] at h
    split at h
    · cases h; exact .call ‹_›
    · cases h
  | thread c env => exact steps_thread h
  | worker got => exact steps_worker h
  | emit r =>
    simp only [step, TbiDevice.arrive] at h
    cases hh : s.tdev.handle with
    | none => rw [hh] at h; cases h
    | some d => rw [hh] at h; cases h; exact .emit hh

theorem goto_threads (s : Sys) (c : ℕ) (p : Pc) : (s.goto c p).threads c = p := by simp [goto]

theorem goto_threads_ne (s : Sys) {c c' : ℕ} (p : Pc) (h : c' ≠ c) :
    (s.goto c p).threads c' = s.threads c' :=
  by simp [goto, h]

/-- A thread that calls nothing stays outside. -/
theorem Steps.idle {s s' : Sys} {a : Act} (hs : Steps s a s') {c : ℕ} (h : s.threads c = .idle)
    (hc : ∀ m, a ≠ .call c m) : s'.threads c = .idle := by
  have move : ∀ {c' : ℕ} {p : Pc}, c' ≠ c → (s.goto c' p).threads c = .idle := fun hne => by
    rw [goto_threads_ne s _ hne.symm, h]
  have ne : ∀ {c' : ℕ} {p : Pc}, s.threads c' = p → p ≠ .idle → c' ≠ c := by
    intro c' p hp hne he
    rw [he, h] at hp
    exact hne hp.symm
  cases hs with
  | @call c' m hpc => exact move fun he => hc m (by rw [he])
  | opened hpc _ | notOpen hpc _ | write hpc | dequeue hpc _ | openRefused hpc _ | openAllowed hpc _
  | openFailed hpc _ | openDone hpc _ _ | active hpc _ | start hpc _ _ | closeRefused hpc _
  | closeAllowed hpc _ | notActive hpc _ | stop hpc _ | join hpc _ | closeDevice hpc =>
    exact move (ne hpc (by simp))
  | _ => exact h

end Sys

/-! ### Zeroed memory -/

def TbiPacket.blank : TbiPacket := ⟨List.replicate BUF_LEN 0, by simp⟩

/-- A new attribute on zeroed memory. -/
def Attribute.blank (id : AttId) : Attribute := .new Attvalue.zeros Attvalue.length_zeros id 0 0

/-- And the common attributes. -/
def TbiCore.blank : TbiCore := ⟨.blank 0, .blank 1, .blank 2, .blank 3, .blank 4⟩

/-- The HID layer does its work. -/
def Env.good : Env := ⟨true, .blank⟩

/-- A service with an open device and a running worker. -/
def Sys.fresh : Sys where
  tdev := ⟨some ⟨1, []⟩⟩
  thAbort := false
  worker := some .isOpen
  rcvp := .blank
  resque := ⟨[], 4⟩
  interruptHandler := true
  threads := fun _ => .idle
  sessions := 1
  calls := []
  requests := []
  emitted := []
  received := []
  handled := []
  replies := []

end ToolbitSdk
