/-
# Does a call that waits have its request sent?

`readAttribute` and `writeAttribute` test `isOpen` and then hand their
request to `TbiDevice::write`, which tests the handle again. The service
ignores its result, and it ignores that of `hid_write`: a call that has
passed the first test enters `resque.dequeue` in any case. Along any run,
every call that enters it has delivered its report, and every other call
returns an error at once (`Sys.Delivers`), exactly when the device is open
and the HID layer takes the report whenever a call hands over its request
(`Sys.delivers_iff`).
-/
import ToolbitSdk.Causality

namespace ToolbitSdk

/-- The attribute of the caller. -/
def Request.att : Request → Attribute
  | read att => att
  | write att => att

namespace Sys

/-- What a step returns from `readAttribute` or `writeAttribute`: an error
when the device is not open, else what the call makes of the packet it
dequeues. -/
def returns (s : Sys) : Act → Option (Bool × Attribute)
  | .thread c _ =>
    match s.threads c with
    | .isOpen r _ => if s.tdev.isOpen then none else some (true, r.att)
    | .dequeue r _ _ => s.resque.data.head?.map fun x => r.finish x.pckt
    | _ => none
  | _ => none

/-- Thread `c` is in the call for `r`, and has not reached `resque.dequeue`. -/
def Asks (s : Sys) (c : ℕ) (r : Request) (rest : List Request) : Prop :=
  s.threads c = .isOpen r rest ∨ s.threads c = .write r rest

/-- The call of thread `c` for `r` returns an error in this step, the queue
as it was. -/
structure Refuses (s : Sys) (a : Act) (s' : Sys) (c : ℕ) (r : Request) (rest : List Request) : Prop where
  result : s.returns a = some (true, r.att)
  back : s'.threads c = Pc.enter rest
  resque : s'.resque = s.resque
  replies : s'.replies = s.replies

/-- A call that enters `resque.dequeue` in this step has delivered its report
in it, and a call that leaves without entering it has returned an error. -/
structure Delivers (s : Sys) (a : Act) (s' : Sys) : Prop where
  sent : ∀ c r rest m, s'.threads c = .dequeue r rest m → s.threads c ≠ .dequeue r rest m →
    s'.requests = s.requests ++ [r.frame]
  refused : ∀ c r rest, s.Asks c r rest →
    s'.Asks c r rest ∨ (∃ m, s'.threads c = .dequeue r rest m) ∨ Refuses s a s' c r rest

/-- A request is handed over on an open device, to a HID layer that takes the
report. -/
def HandsOver (s : Sys) : Act → Sys → Prop
  | .thread c env, _ => (s.threads c).writing = true → s.tdev.isOpen = true ∧ env.ok = true
  | _, _ => True

theorem Asks.of_eq {s s' : Sys} {c : ℕ} {r : Request} {rest : List Request} (h : s.Asks c r rest)
    (ht : s'.threads c = s.threads c) : s'.Asks c r rest := by
  unfold Asks
  rw [ht]
  exact h

/-- A thread is in one call. -/
theorem Asks.unique {s : Sys} {c : ℕ} {r r' : Request} {rest rest' : List Request} (h : s.Asks c r rest)
    (h' : s.Asks c r' rest') : r' = r ∧ rest' = rest := by
  rcases h with h | h <;> rcases h' with h' | h' <;> rw [h] at h' <;> cases h' <;> exact ⟨rfl, rfl⟩

/-- A step that makes no call wait and leaves the calls before `dequeue`
where they are. -/
theorem Delivers.of_asks {s s' : Sys} {a : Act}
    (hw : ∀ c r rest m, s'.threads c = .dequeue r rest m → s.threads c = .dequeue r rest m)
    (ha : ∀ c r rest, s.Asks c r rest → s'.Asks c r rest) : Delivers s a s' where
  sent c r rest m hd hn := absurd (hw c r rest m hd) hn
  refused c r rest h := .inl (ha c r rest h)

/-- Thread `c` goes on outside such a call. -/
theorem Delivers.goto {s s' : Sys} {a : Act} {c : ℕ} {pc p : Pc} (hpc : s.threads c = pc)
    (hc : ∀ r rest, pc ≠ .isOpen r rest ∧ pc ≠ .write r rest) (hp : p.waiting = false)
    (ht : s'.threads = (s.goto c p).threads) : Delivers s a s' := by
  refine .of_asks (fun c' r rest m h => dequeue_of_goto hp c' r rest m (by rwa [ht] at h)) fun c' r rest h => ?_
  have hne : c' ≠ c := by
    rintro rfl
    rcases h with h | h
    · exact (hc r rest).1 (hpc.symm.trans h)
    · exact (hc r rest).2 (hpc.symm.trans h)
  exact h.of_eq (by rw [ht, goto_threads_ne s p hne])

theorem delivers_write {s : Sys} {c : ℕ} {env : Env} {r : Request} {rest : List Request}
    (hpc : s.threads c = .write r rest) :
    Delivers s (.thread c env) (s.doWrite c r rest env) ↔ s.tdev.isOpen = true ∧ env.ok = true := by
  have hth : (s.doWrite c r rest env).threads c = .dequeue r rest s.mark := goto_threads s c _
  have hne : ∀ c', c' ≠ c → (s.doWrite c r rest env).threads c' = s.threads c' := fun c' hc =>
    goto_threads_ne s _ hc
  constructor
  · intro h
    exact (requests_doWrite ..).mp (h.sent c r rest s.mark hth (by rw [hpc]; nofun))
  · intro h
    refine ⟨fun c' r' rest' m hd hn => ?_, fun c' r' rest' ha => ?_⟩
    · by_cases hc : c' = c
      · subst hc
        rw [hth] at hd
        cases hd
        exact (requests_doWrite ..).mpr h
      · rw [hne c' hc] at hd
        exact absurd hd hn
    · by_cases hc : c' = c
      · subst hc
        obtain ⟨rfl, rfl⟩ := Asks.unique (.inr hpc) ha
        exact .inr (.inl ⟨s.mark, hth⟩)
      · exact .inl (ha.of_eq (hne c' hc))

/-- A call that finds the device closed returns an error. -/
theorem delivers_notOpen {s : Sys} {c : ℕ} {env : Env} {r : Request} {rest : List Request}
    (hpc : s.threads c = .isOpen r rest) (ho : s.tdev.isOpen = false) :
    Delivers s (.thread c env) (s.enter c rest) := by
  refine ⟨fun c' r' rest' m hd hn => absurd (dequeue_of_goto (waiting_enter rest) c' r' rest' m hd) hn,
    fun c' r' rest' ha => ?_⟩
  by_cases hc : c' = c
  · subst hc
    obtain ⟨rfl, rfl⟩ := Asks.unique (.inl hpc) ha
    have hres : s.returns (.thread c' env) = some (true, r'.att) := by
      simp only [returns, hpc, ho, Bool.false_eq_true, ↓reduceIte]
    exact .inr (.inr ⟨hres, goto_threads s c' _, rfl, rfl⟩)
  · exact .inl (ha.of_eq (goto_threads_ne s _ hc))

/-- And one that finds it open goes on to hand over its request. -/
theorem delivers_opened {s : Sys} {c : ℕ} {env : Env} {r : Request} {rest : List Request}
    (hpc : s.threads c = .isOpen r rest) : Delivers s (.thread c env) (s.goto c (.write r rest)) := by
  refine .of_asks (dequeue_of_goto rfl) fun c' r' rest' ha => ?_
  by_cases hc : c' = c
  · subst hc
    obtain ⟨rfl, rfl⟩ := Asks.unique (.inl hpc) ha
    exact .inr (goto_threads s c' _)
  · exact ha.of_eq (goto_threads_ne s _ hc)

theorem delivers_step {s s' : Sys} {a : Act} (hs : Steps s a s') :
    Delivers s a s' ↔ HandsOver s a s' := by
  -- a thread that is not handing over
  have other {c : ℕ} {env : Env} {pc : Pc} (hpc : s.threads c = pc) (hw : pc.writing = false)
      (h : Delivers s (.thread c env) s') : Delivers s (.thread c env) s' ↔ HandsOver s (.thread c env) s' :=
    iff_of_true h fun hc => by rw [hpc, hw] at hc; cases hc
  cases hs with
  | @write c env r rest hpc =>
    rw [delivers_write hpc]
    exact ⟨fun h _ => h, fun h => h (by rw [hpc]; rfl)⟩
  | notOpen hpc ho => exact other hpc rfl (delivers_notOpen hpc ho)
  | opened hpc _ => exact other hpc rfl (delivers_opened hpc)
  | call hpc => exact iff_of_true (.goto hpc (fun _ _ => ⟨nofun, nofun⟩) (waiting_pc _) rfl) trivial
  | dequeue hpc _ | active hpc _ | start hpc _ _ =>
    exact other hpc rfl (.goto hpc (fun _ _ => ⟨nofun, nofun⟩) (waiting_enter _) rfl)
  | notActive hpc _ | join hpc _ =>
    exact other hpc rfl (.goto hpc (fun _ _ => ⟨nofun, nofun⟩) (by split <;> rfl) rfl)
  | openRefused hpc _ | openAllowed hpc _ | openFailed hpc _ | openDone hpc _ _ | closeRefused hpc _
  | closeAllowed hpc _ | stop hpc _ | closeDevice hpc =>
    exact other hpc rfl (.goto hpc (fun _ _ => ⟨nofun, nofun⟩) rfl rfl)
  | _ => exact iff_of_true (.of_asks (fun _ _ _ _ h => h) fun _ _ _ h => h) trivial

/-- **Along every run**, from any state and with any steps of the threads, the
worker, the device and the HID layer: a call enters `resque.dequeue` only
with its report delivered, and returns an error otherwise, exactly when
every request is handed over on an open device whose HID layer takes the
report. -/
theorem delivers_iff (s : Sys) (as : List Act) :
    Lts.Along Sys.step Delivers s as ↔ Lts.Along Sys.step HandsOver s as := by
  refine Lts.along_congr ?_ as
  intro s a s' hs
  exact delivers_step (steps_of_step hs)

/-! ### A report that is not delivered -/

/-- `openPath` up to the point where its first read hands over its request. -/
def openToWrite : List Act :=
  [.call 0 (.openPath (some "dev") .blank), .thread 0 .good, .thread 0 .good, .thread 0 .good,
    .thread 0 .good]

/-- `hid_write` returns -1. -/
def Env.lost : Env := ⟨false, .blank⟩

/-- The read of the vendor name waits for the reply to a request that was not
sent. -/
theorem delivery_fails : ¬ ∀ as, Lts.Along Sys.step Delivers (new .blank false) as := by
  intro hall
  have hp : (Lts.run Sys.step (new .blank false) openToWrite).any (fun s => (s.threads 0).writing) = true := by
    decide
  obtain ⟨s, hr, hw⟩ := (Option.any_eq_true _ _).mp hp
  cases hpc : s.threads 0 with
  | write r rest =>
    have hs : s.step (.thread 0 Env.lost) = some (s.doWrite 0 r rest Env.lost) := by
      simp only [step, threadStep, hpc]
    have hd := (hall (openToWrite ++ [.thread 0 Env.lost])).last hs hr
    exact absurd ((delivers_write hpc).mp hd).2 (by decide)
  | _ => rw [hpc] at hw; cases hw

end Sys

end ToolbitSdk
