/-
# How long a getter waits

The polling loop of `getVoltage` and `getCurrent` sleeps for 5 ms at most
ten times, whatever the integrating time. `Returns` says that a call ends in
an average under every schedule in which the handler processes at least the
nominal number of samples during each sleep.

The wait of the tenth sleep is in vain (the code after the loop takes a
counter at 0 for a timeout), so nine sleeps are to complete the window: a
call returns an average exactly when one is there, or when the samples of
nine sleeps reach the integrating time (`Measuring.readable_iff`).
`setIntegratingTime` accepts up to 1000 ms.
-/
import ToolbitSdk.Sessions

namespace ToolbitSdk
namespace Measuring

open Bytes

variable {k : Kind} (dec : BitVec 32 → ℚ)

/-! ### A call and its sleeps -/

/-- The steps of the worker, on well-formed packets. -/
def Working (_ : Measuring k) : MeterAct → Prop
  | .packet pckt => Meter.wellFormed pckt = true
  | .handler => True
  | _ => False

/-- The samples of one sleep at the nominal rate. -/
def perSleep (k : Kind) : ℕ := 5 / k.interval

/-- The worker runs, and at least `n` samples are processed. -/
def Slept (n : ℕ) (s s' : Measuring k) : Prop :=
  Lts.Reach (step dec) Working s s' ∧ s.taken.length + n ≤ s'.taken.length

/-- The call under way ends in an average, whatever the worker does while it
sleeps and before it takes. -/
inductive Returns (q : Quantity) : Measuring k → Prop
  | sleeps {s s₁ : Measuring k} {cnt : ℕ} (hs : s.step dec .client = some s₁) (hc : s₁.client = .poll q cnt)
      (h : ∀ s', Slept dec (perSleep k) s₁ s' → Returns q s') : Returns q s
  | takes {s s₁ : Measuring k} (hs : s.step dec .client = some s₁) (hc : s₁.client = .take q)
      (h : ∀ s', Slept dec 0 s₁ s' → ∃ t r v, s'.step dec .client = some t ∧
        t.returned = s'.returned ++ [r] ∧ r.value = some v) : Returns q s

/-- A call of the getter of `q`, made now, returns an average. -/
def Gives (q : Quantity) (s : Measuring k) : Prop :=
  ∃ s₁, s.step dec (.get q) = some s₁ ∧ ∀ s', Slept dec 0 s₁ s' → Returns dec q s'

/-- An average is there, and no malformed packet takes it away; or the
samples of nine sleeps fill the window. -/
def InReach (q : Quantity) (s : Measuring k) : Prop :=
  if (s.meter.channel q).updated then (s.meter.channel q).latest ≠ none ∧ (s.handler = .curr → q = .volt)
  else s.meter.integratingTime ≤ k.interval * (s.meter.data_cnt + 9 * perSleep k)

variable {dec}

/-! ### What the worker does -/

/-- An average whose flag is set is there, and stays. -/
def Kept (q : Quantity) (s : Measuring k) : Prop :=
  (s.meter.channel q).updated = true → (s.meter.channel q).latest ≠ none ∧ (s.handler = .curr → q = .volt)

/-- What the worker leaves as it was, and how the window grows while the flag
is not set. -/
structure Worked (q : Quantity) (s s' : Measuring k) : Prop where
  client : s'.client = s.client
  connected : s'.meter.link.connected = s.meter.link.connected
  time : s'.meter.integratingTime = s.meter.integratingTime
  kept : Kept q s → Kept q s'
  /-- a flag is set for good -/
  flag : (s.meter.channel q).updated = true → (s'.meter.channel q).updated = true
  /-- while it is not, every sample is counted, -/
  counted : (s'.meter.channel q).updated = false →
    s'.meter.data_cnt + s.taken.length = s.meter.data_cnt + s'.taken.length
  /-- the last of them has not filled the window, -/
  unfilled : (s'.meter.channel q).updated = false → s.taken.length < s'.taken.length →
    k.interval * s'.meter.data_cnt < s.meter.integratingTime
  more : s.taken.length ≤ s'.taken.length
  /-- and it stays so as long as the samples do not. -/
  quiet : (s.meter.channel q).updated = false →
    k.interval * (s.meter.data_cnt + (s'.taken.length - s.taken.length)) < s.meter.integratingTime →
    (s'.meter.channel q).updated = false

theorem Worked.refl (q : Quantity) (s : Measuring k) : Worked q s s where
  client := rfl
  connected := rfl
  time := rfl
  kept h := h
  flag h := h
  counted _ := rfl
  unfilled _ h := absurd h (lt_irrefl _)
  more := le_refl _
  quiet h _ := h

theorem Worked.flag_of_not {q : Quantity} {s s' : Measuring k} (h : Worked q s s')
    (hu : (s'.meter.channel q).updated = false) : (s.meter.channel q).updated = false := by
  by_contra hne
  have hset := h.flag (Bool.of_not_eq_false hne)
  rw [hu] at hset
  cases hset

theorem Worked.trans {q : Quantity} {s s' t : Measuring k} (h : Worked q s s') (h' : Worked q s' t) :
    Worked q s t where
  client := h'.client.trans h.client
  connected := h'.connected.trans h.connected
  time := h'.time.trans h.time
  kept hk := h'.kept (h.kept hk)
  flag hu := h'.flag (h.flag hu)
  counted hu := by
    have h₁ := h.counted (h'.flag_of_not hu)
    have h₂ := h'.counted hu
    omega
  unfilled hu hlt := by
    have hcount := h'.counted hu
    have hmore := h'.more
    rcases hmore.lt_or_eq with hlt' | heq
    · rw [← h.time]
      exact h'.unfilled hu hlt'
    · have hd : t.meter.data_cnt = s'.meter.data_cnt := by omega
      rw [hd]
      exact h.unfilled (h'.flag_of_not hu) (by omega)
  more := h.more.trans h'.more
  quiet hu hlt := by
    have hmore := h.more
    have hmore' := h'.more
    have hfirst : s.meter.data_cnt + (s'.taken.length - s.taken.length) ≤
        s.meter.data_cnt + (t.taken.length - s.taken.length) := by omega
    have hu' := h.quiet hu ((Nat.mul_le_mul_left k.interval hfirst).trans_lt hlt)
    have hcount := h.counted hu'
    have hsum : s'.meter.data_cnt + (t.taken.length - s'.taken.length) =
        s.meter.data_cnt + (t.taken.length - s.taken.length) := by omega
    refine h'.quiet hu' ?_
    calc k.interval * (s'.meter.data_cnt + (t.taken.length - s'.taken.length))
        = k.interval * (s.meter.data_cnt + (t.taken.length - s.taken.length)) := by rw [hsum]
      _ < s.meter.integratingTime := hlt
      _ = s'.meter.integratingTime := h.time.symm

/-- A step that processes no sample. -/
theorem Worked.same {q : Quantity} {s s' : Measuring k} (hc : s'.client = s.client)
    (ho : s'.meter.link.connected = s.meter.link.connected)
    (ht : s'.meter.integratingTime = s.meter.integratingTime) (hk : Kept q s → Kept q s')
    (hu : (s'.meter.channel q).updated = (s.meter.channel q).updated)
    (hd : s'.meter.data_cnt = s.meter.data_cnt) (hn : s'.taken = s.taken) : Worked q s s' where
  client := hc
  connected := ho
  time := ht
  kept := hk
  flag h := hu.trans h
  counted _ := by rw [hd, hn]
  unfilled _ h := by rw [hn] at h; exact absurd h (lt_irrefl _)
  more := by rw [hn]
  quiet h _ := hu.trans h

/-- What one step of the worker does: a sample either lengthens the window or
fills it. -/
theorem Worked.of_step {q : Quantity} {s s' : Measuring k} {a : MeterAct} (ha : s.Working a)
    (hs : Steps dec s a s') : Worked q s s' := by
  cases hs with
  | openPath | close | setTriggerMode | setIntegratingTime | poll | readNow | wait | timeout | see | take =>
    exact False.elim ha
  | packet ho hl hw => exact .same rfl rfl rfl (fun hk hu => ⟨(hk hu).1, nofun⟩) rfl rfl rfl
  | malformed ho hl hw =>
    rw [Working, hw] at ha
    cases ha
  | spoilCurr hl =>
    refine .same rfl rfl rfl (fun hk hu => ?_) (s.meter.updated_spoil .curr q) rfl rfl
    rw [s.meter.updated_spoil .curr q] at hu
    obtain ⟨hv, hq⟩ := hk hu
    obtain rfl : q = .volt := hq hl
    exact ⟨hv, nofun⟩
  | @sample x todo hl hf =>
    have hlen : (s.taken ++ [s.nextTaken x]).length = s.taken.length + 1 := List.length_append
    have hflag : ((s.meter.add (dec x.1) (dec x.2)).channel q).updated = (s.meter.channel q).updated := by
      rw [add_channel]
      rfl
    exact {
      client := rfl
      connected := rfl
      time := rfl
      kept := fun hk hu => by
        rw [Kept, add_channel] at *
        exact ⟨(hk hu).1, nofun⟩
      flag := hflag.trans
      counted := fun _ => by
        show s.meter.data_cnt + 1 + s.taken.length = _
        rw [hlen]
        omega
      unfilled := fun _ _ => not_le.mp hf
      more := hlen ▸ Nat.le_succ _
      quiet := fun h _ => hflag.trans h }
  | @publish x todo hl hf =>
    have hlen : (s.taken ++ [s.nextTaken x]).length = s.taken.length + 1 := List.length_append
    have hset : ((s.meter.add (dec x.1) (dec x.2)).publish.channel q).updated = true := by
      rw [Meter.channel_publish]
      rfl
    exact {
      client := rfl
      connected := rfl
      time := rfl
      kept := fun _ _ => by
        rw [Meter.channel_publish]
        exact ⟨nofun, nofun⟩
      flag := fun _ => hset
      counted := fun hu => absurd (hset.symm.trans hu) nofun
      unfilled := fun hu => absurd (hset.symm.trans hu) nofun
      more := hlen ▸ Nat.le_succ _
      quiet := fun _ hlt => by
        have hone : (s.taken ++ [s.nextTaken x]).length - s.taken.length = 1 := by omega
        rw [hone] at hlt
        exact absurd hf (not_le.mpr hlt) }

theorem Slept.worked {n : ℕ} {s s' : Measuring k} (h : Slept dec n s s') (q : Quantity) :
    Worked q s s' :=
  h.1.inv (.refl q s) fun _ _ _ hw ha hs => hw.trans (.of_step ha (steps_of_step hs))

theorem wellFormed_fourSamples : Meter.wellFormed fourSamples = true := by decide

theorem Slept.refl (s : Measuring k) : Slept dec 0 s s := ⟨.refl, le_refl _⟩

/-- How many steps of the worker are left until `n` samples are processed, at
most. -/
def stepsLeft (n : ℕ) (s : Measuring k) : ℕ :=
  3 * (n - s.taken.length) + match s.handler with
    | .curr => 2
    | .loop [] => 1
    | .loop (_ :: _) => 0

/-- On a device that is open the worker always has a step towards the next
sample. -/
theorem exists_working {s : Measuring k} (ho : s.meter.link.connected = true) {n : ℕ} (hn : s.taken.length < n) :
    ∃ a s', s.Working a ∧ s.step dec a = some s' ∧ (s'.meter.link.connected = true ∧ s'.taken.length ≤ n) ∧
      stepsLeft n s' < stepsLeft n s := by
  match hl : s.handler with
  | .curr =>
    have hs : s.step dec .handler =
        some { s with handler := .loop [], meter := s.meter.onChannel Channel.spoil .curr } := by rw [step, hl]
    refine ⟨.handler, _, trivial, hs, ⟨ho, hn.le⟩, ?_⟩
    simp only [stepsLeft, hl]
    omega
  | .loop [] =>
    have hs : s.step dec (.packet fourSamples) =
        some { s.received fourSamples with handler := .loop (Meter.samplesOf fourSamples) } := if_pos ⟨ho, hl⟩
    refine ⟨.packet fourSamples, _, wellFormed_fourSamples, hs, ⟨ho, hn.le⟩, ?_⟩
    simp only [stepsLeft, hl]
    exact Nat.lt_succ_self _
  | .loop (x :: todo) =>
    have hs : s.step dec .handler = some (s.doSample dec x todo) := by rw [step, hl]
    have hw : Worked .volt s (s.doSample dec x todo) := .of_step (a := .handler) trivial (steps_sample hl)
    have hlen : (s.doSample dec x todo).taken.length = s.taken.length + 1 := by
      simp only [doSample]
      split <;> exact List.length_append
    have hend : stepsLeft n (s.doSample dec x todo) ≤ 3 * (n - (s.taken.length + 1)) + 2 := by
      unfold stepsLeft
      rw [hlen]
      split <;> omega
    refine ⟨.handler, _, trivial, hs, ⟨hw.connected.trans ho, by omega⟩, ?_⟩
    simp only [stepsLeft, hl] at hend ⊢
    omega

/-- It can process any number of samples. -/
theorem exists_slept {s : Measuring k} (ho : s.meter.link.connected = true) (n : ℕ) :
    ∃ s', Slept dec n s s' ∧ s'.taken.length = s.taken.length + n := by
  have hex : ∃ s', Lts.Reach (step dec) Working s s' ∧
      (s'.meter.link.connected = true ∧ s'.taken.length ≤ s.taken.length + n) ∧
      s'.taken.length = s.taken.length + n :=
    Lts.exists_reach_of_measure (stepsLeft (s.taken.length + n))
      (fun t ht hne => exists_working ht.1 (lt_of_le_of_ne ht.2 hne)) ⟨ho, Nat.le_add_right _ _⟩
  obtain ⟨s', hr, -, hn⟩ := hex
  exact ⟨s', ⟨hr, hn.ge⟩, hn⟩

/-! ### Nine sleeps -/

theorem step_get {s : Measuring k} (hc : s.client = .idle) (hp : s.meter.polls = true) (q : Quantity) :
    s.step dec (.get q) = some { s with client := .poll q 10 } := by
  have hd : s.doGet dec q = { s with client := .poll q 10 } := if_pos hp
  rw [step, if_pos hc, hd]

theorem step_wait {s : Measuring k} {q : Quantity} {cnt : ℕ} (hc : s.client = .poll q (cnt + 1))
    (hu : (s.meter.channel q).updated = false) : s.step dec .client = some { s with client := .poll q cnt } := by
  have hd : s.doPoll q (cnt + 1) = { s with client := .poll q cnt } :=
    if_pos ⟨by rw [hu]; nofun, Nat.succ_ne_zero cnt⟩
  simp only [step, hc, hd]

theorem step_see {s : Measuring k} {q : Quantity} {cnt : ℕ} (hc : s.client = .poll q (cnt + 1))
    (hu : (s.meter.channel q).updated = true) : s.step dec .client = some { s with client := .take q } := by
  have hd : s.doPoll q (cnt + 1) = { s with client := .take q } := by
    rw [doPoll, if_neg (fun h => h.1 hu), if_neg (Nat.succ_ne_zero cnt)]
  simp only [step, hc, hd]

theorem step_take {s : Measuring k} {q : Quantity} (hc : s.client = .take q) :
    s.step dec .client = some (s.doTake q) := by
  simp only [step, hc]

/-- A call that has seen the flag returns the average. -/
theorem returns_of_updated {s : Measuring k} {q : Quantity} {cnt : ℕ} (hc : s.client = .poll q (cnt + 1))
    (hu : (s.meter.channel q).updated = true) (hk : Kept q s) : Returns dec q s := by
  refine .takes (step_see hc hu) rfl fun s' hs => ?_
  have hw := hs.worked q
  obtain ⟨v, hv⟩ := Option.ne_none_iff_exists'.mp (hw.kept hk (hw.flag hu)).1
  exact ⟨_, _, v, step_take hw.client, rfl, hv⟩

/-- The samples of the `cnt` sleeps that count, and there is one of these,
fill the window, if the flag is not set. -/
def Due (q : Quantity) (cnt : ℕ) (s : Measuring k) : Prop :=
  (s.meter.channel q).updated = false →
    0 < cnt ∧ s.meter.integratingTime ≤ k.interval * (s.meter.data_cnt + cnt * perSleep k)

/-- After a sleep there is one sleep less to wait for. -/
theorem Slept.due (hk : 0 < perSleep k) {q : Quantity} {cnt : ℕ} {s s' : Measuring k}
    (hs : Slept dec (perSleep k) s s') (h : Due q (cnt + 1) s) : Due q cnt s' := by
  intro hu
  have hw := hs.worked q
  have hcount := hw.counted hu
  have hmore := hs.2
  have hopen := hw.unfilled hu (by omega)
  have hlen : s.meter.data_cnt + (cnt + 1) * perSleep k ≤ s'.meter.data_cnt + cnt * perSleep k := by
    rw [Nat.succ_mul]
    omega
  have hfill : s.meter.integratingTime ≤ k.interval * (s'.meter.data_cnt + cnt * perSleep k) :=
    calc s.meter.integratingTime
        ≤ k.interval * (s.meter.data_cnt + (cnt + 1) * perSleep k) := (h (hw.flag_of_not hu)).2
      _ ≤ k.interval * (s'.meter.data_cnt + cnt * perSleep k) := Nat.mul_le_mul_left _ hlen
  rw [hw.time]
  refine ⟨Nat.pos_of_ne_zero ?_, hfill⟩
  rintro rfl
  rw [Nat.zero_mul, Nat.add_zero] at hfill
  omega

/-- The induction is on the sleeps left. -/
theorem returns_of_due (hk : 0 < perSleep k) {q : Quantity} : ∀ (cnt : ℕ) {s : Measuring k},
    s.client = .poll q (cnt + 1) → Kept q s → Due q cnt s → Returns dec q s := by
  intro cnt
  induction cnt with
  | zero =>
    intro s hc hkept hd
    cases hu : (s.meter.channel q).updated with
    | true => exact returns_of_updated hc hu hkept
    | false => exact absurd (hd hu).1 (lt_irrefl 0)
  | succ cnt ih =>
    intro s hc hkept hd
    cases hu : (s.meter.channel q).updated with
    | true => exact returns_of_updated hc hu hkept
    | false =>
      refine .sleeps (step_wait hc hu) rfl fun s' hs => ?_
      have hw := hs.worked q
      exact ih hw.client (hw.kept hkept) (hs.due hk hd)

/-! ### Fewer samples -/

/-- A call that has not seen the flag and returns an average does so after
every sleep. -/
theorem Returns.of_wait {s : Measuring k} {q : Quantity} {cnt : ℕ} (h : Returns dec q s)
    (hc : s.client = .poll q (cnt + 1)) (hu : (s.meter.channel q).updated = false) {s' : Measuring k}
    (hs : Slept dec (perSleep k) { s with client := .poll q cnt } s') : Returns dec q s' := by
  have hw : s.step dec .client = some { s with client := .poll q cnt } := step_wait hc hu
  cases h with
  | sleeps hs₁ _ h =>
    rw [hw] at hs₁
    cases hs₁
    exact h s' hs
  | takes hs₁ hc₁ _ =>
    rw [hw] at hs₁
    cases hs₁
    cases hc₁

/-- One that has seen it finds the average when it takes. -/
theorem Returns.of_see {s : Measuring k} {q : Quantity} {cnt : ℕ} (h : Returns dec q s)
    (hc : s.client = .poll q (cnt + 1)) (hu : (s.meter.channel q).updated = true) {s' : Measuring k}
    (hs : Slept dec 0 { s with client := .take q } s') : (s'.meter.channel q).latest ≠ none := by
  have hsee : s.step dec .client = some { s with client := .take q } := step_see hc hu
  cases h with
  | sleeps hs₁ hc₁ _ =>
    rw [hsee] at hs₁
    cases hs₁
    cases hc₁
  | takes hs₁ _ h =>
    rw [hsee] at hs₁
    cases hs₁
    obtain ⟨t, r, v, ht, hr, hv⟩ := h s' hs
    rw [step_take (hs.worked q).client] at ht
    cases ht
    have hr := List.append_cancel_left hr
    rw [List.singleton_inj] at hr
    rw [← hr] at hv
    show (s'.meter.channel q).latest ≠ none
    rw [show (s'.meter.channel q).latest = some v from hv]
    nofun

/-- The counter at 0 is a timeout. -/
theorem not_returns_zero {s : Measuring k} {q : Quantity} (hc : s.client = .poll q 0) :
    ¬ Returns dec q s := by
  have hs : s.step dec .client = some (s.ret q none) := by
    have hd : s.doPoll q 0 = s.ret q none := by rw [doPoll, if_neg (fun h => h.2 rfl), if_pos rfl]
    simp only [step, hc, hd]
  intro h
  cases h with
  | sleeps hs₁ hc₁ _ | takes hs₁ hc₁ _ =>
    rw [hs] at hs₁
    cases hs₁
    cases hc₁

/-- With exactly the nominal number of samples in each sleep, the flag is not
set in time. The induction is on the sleeps left. -/
theorem not_returns {q : Quantity} : ∀ (cnt : ℕ) {s : Measuring k}, s.client = .poll q (cnt + 1) →
    s.meter.link.connected = true → (s.meter.channel q).updated = false →
    k.interval * (s.meter.data_cnt + cnt * perSleep k) < s.meter.integratingTime → ¬ Returns dec q s := by
  intro cnt
  induction cnt with
  | zero =>
    intro s hc ho hu _ h
    obtain ⟨s', hs⟩ : ∃ s', Slept dec (perSleep k) { s with client := .poll q 0 } s' := by
      obtain ⟨s', hs, -⟩ := exists_slept (s := { s with client := .poll q 0 }) ho (perSleep k)
      exact ⟨s', hs⟩
    exact not_returns_zero (hs.worked q).client (h.of_wait hc hu hs)
  | succ cnt ih =>
    intro s hc ho hu hlt h
    obtain ⟨s', hs, hn⟩ : ∃ s', Slept dec (perSleep k) { s with client := .poll q (cnt + 1) } s' ∧
        s'.taken.length = s.taken.length + perSleep k := exists_slept (s := { s with client := .poll q (cnt + 1) }) ho _
    have hw := hs.worked q
    have hone : s'.taken.length - s.taken.length = perSleep k := by
      rw [hn]
      exact Nat.add_sub_cancel_left _ _
    rw [Nat.succ_mul] at hlt
    have hle : s.meter.data_cnt + perSleep k ≤ s.meter.data_cnt + (cnt * perSleep k + perSleep k) := by omega
    have hu' : (s'.meter.channel q).updated = false := by
      apply hw.quiet hu
      calc k.interval * (s.meter.data_cnt + (s'.taken.length - s.taken.length))
          = k.interval * (s.meter.data_cnt + perSleep k) := by rw [hone]
        _ ≤ k.interval * (s.meter.data_cnt + (cnt * perSleep k + perSleep k)) := Nat.mul_le_mul_left _ hle
        _ < s.meter.integratingTime := hlt
    have hcount : s'.meter.data_cnt = s.meter.data_cnt + perSleep k := by
      have hcounted : s'.meter.data_cnt + s.taken.length = s.meter.data_cnt + s'.taken.length := hw.counted hu'
      have hn' : s'.taken.length = s.taken.length + perSleep k := hn
      omega
    have hsum : s'.meter.data_cnt + cnt * perSleep k = s.meter.data_cnt + (cnt * perSleep k + perSleep k) := by omega
    apply ih hw.client (hw.connected.trans ho) hu' _ (h.of_wait hc hu hs)
    calc k.interval * (s'.meter.data_cnt + cnt * perSleep k)
        = k.interval * (s.meter.data_cnt + (cnt * perSleep k + perSleep k)) := by rw [hsum]
      _ < s.meter.integratingTime := hlt
      _ = s'.meter.integratingTime := hw.time.symm

/-- Before the average is taken, the worker can leave it erased. -/
theorem exists_erased {s : Measuring k} {q : Quantity}
    (h : ¬ ((s.meter.channel q).latest ≠ none ∧ (s.handler = .curr → q = .volt))) :
    ∃ s', Slept dec 0 s s' ∧ (s'.meter.channel q).latest = none := by
  by_cases hv : (s.meter.channel q).latest = none
  · exact ⟨s, .refl s, hv⟩
  have hcurr : s.handler = .curr ∧ q ≠ .volt := by
    by_contra hne
    exact h ⟨hv, fun hh => by_contra fun hq => hne ⟨hh, hq⟩⟩
  have hs : s.step dec .handler =
      some { s with handler := .loop [], meter := s.meter.onChannel Channel.spoil .curr } := by rw [step, hcurr.1]
  refine ⟨_, ⟨.step .handler .refl trivial hs, le_refl _⟩, ?_⟩
  cases q with
  | volt => exact absurd rfl hcurr.2
  | curr => rfl

/-! ### What a call returns -/

theorem gives_iff (hk : 0 < perSleep k) {s : Measuring k} (hc : s.client = .idle) (hp : s.meter.polls = true)
    (ho : s.meter.link.connected = true) (q : Quantity) : Gives dec q s ↔ InReach q s := by
  have hget : s.step dec (.get q) = some { s with client := .poll q 10 } := step_get hc hp q
  constructor
  · rintro ⟨s₁, hs₁, h⟩
    rw [hget] at hs₁
    cases hs₁
    have hret := h _ (.refl _)
    unfold InReach
    cases hu : (s.meter.channel q).updated with
    | true =>
      rw [if_pos rfl]
      by_contra hne
      obtain ⟨s', hs', hv⟩ : ∃ s', Slept dec 0 { s with client := .take q } s' ∧
          (s'.meter.channel q).latest = none := exists_erased hne
      exact hret.of_see rfl hu hs' hv
    | false =>
      rw [if_neg nofun]
      by_contra hne
      exact not_returns 9 (s := { s with client := .poll q 10 }) rfl ho hu (not_le.mp hne) hret
  · intro hin
    refine ⟨_, hget, fun s' hs => ?_⟩
    have hw := hs.worked q
    have hkept : Kept q s := fun hu => by
      rw [InReach, if_pos hu] at hin
      exact hin
    refine returns_of_due hk 9 hw.client (hw.kept hkept) fun hu => ⟨by decide, ?_⟩
    have hu₀ : (s.meter.channel q).updated = false := hw.flag_of_not hu
    have hcount : s'.meter.data_cnt + s.taken.length = s.meter.data_cnt + s'.taken.length := hw.counted hu
    have hmore : s.taken.length ≤ s'.taken.length := hw.more
    have hlen : s.meter.data_cnt + 9 * perSleep k ≤ s'.meter.data_cnt + 9 * perSleep k := by omega
    rw [InReach, hu₀, if_neg nofun] at hin
    calc s'.meter.integratingTime = s.meter.integratingTime := hw.time
      _ ≤ k.interval * (s.meter.data_cnt + 9 * perSleep k) := hin
      _ ≤ k.interval * (s'.meter.data_cnt + 9 * perSleep k) := Nat.mul_le_mul_left _ hlen

/-- **An average within the wait.** On a `Dmm` or a `Choppy`, in every state of
every run from a constructed object in which a getter would poll: the call
returns an average, whatever the schedule, exactly when one is there to stay
or the samples of nine sleeps reach the integrating time. -/
theorem readable_iff (hk : k.interval ≤ 5) (core : TbiCore) (link : Bank) {junk : List Byte}
    (h : junk.length = VALUE_LEN + 1) {bufs : Quantity → List ℚ} (hb : ∀ q, (bufs q).length = DATA_BUF_SIZE_MAX)
    {s : Measuring k} (hr : Lts.Reach (step dec) Any (new k core link junk h bufs hb) s) (hc : s.client = .idle)
    (hp : s.meter.polls = true) (q : Quantity) : Gives dec q s ↔ InReach q s := by
  have hg : Gated s := hr.inv (gated_new core link h hb) fun _ _ _ hg _ hs => hg.step (steps_of_step hs)
  have ho : s.meter.link.connected = true := Bool.of_not_eq_false fun hd => by
    rw [hg.silent hd] at hp
    cases hp
  exact gives_iff (Nat.div_pos hk k.pos) hc hp ho q

instance (q : Quantity) (s : Measuring k) : Decidable (InReach q s) :=
  inferInstanceAs (Decidable (if (s.meter.channel q).updated then
    (s.meter.channel q).latest ≠ none ∧ (s.handler = .curr → q = .volt)
  else s.meter.integratingTime ≤ k.interval * (s.meter.data_cnt + 9 * perSleep k)))

/-- With the default integrating time, right after `open`. -/
theorem readable_iff_default :
    ∃ s : Measuring .dmm, s.meter.integratingTime = 20 ∧ Gives (fun w => w.toNat) .volt s := by
  obtain ⟨s, hr, hp⟩ := Lts.exists_reach_of_run (step fun w => w.toNat) Any (fresh .dmm) [openIdle]
    (fun s => s.client == .idle && s.meter.polls && decide (s.meter.integratingTime = 20 ∧ InReach .volt s))
    (by decide)
  simp only [Bool.and_eq_true, beq_iff_eq, decide_eq_true_eq] at hp
  obtain ⟨⟨hc, hpolls⟩, ht, hin⟩ := hp
  exact ⟨s, ht, (readable_iff (by decide) _ _ Attvalue.length_zeros Meter.length_zeros hr hc hpolls .volt).mpr hin⟩

/-- `setIntegratingTime` accepts 100 ms. -/
def hundred : List MeterAct := [openIdle, .setIntegratingTime 100]

/-- A `Dmm` needs twenty samples for it, and waits for nine. -/
theorem hundred_unread : ¬ ∀ s : Measuring .dmm, Lts.Reach (step fun w => w.toNat) Any (fresh .dmm) s →
    s.client = .idle → s.meter.polls = true → ∀ q, Gives (fun w => w.toNat) q s := by
  intro hall
  obtain ⟨s, hr, hp⟩ := Lts.exists_reach_of_run (step fun w => w.toNat) Any (fresh .dmm) hundred
    (fun s => s.client == .idle && s.meter.polls && s.meter.link.connected && decide (¬ InReach .volt s))
    (by decide)
  simp only [Bool.and_eq_true, beq_iff_eq, decide_eq_true_eq] at hp
  obtain ⟨⟨⟨hc, hpolls⟩, ho⟩, hout⟩ := hp
  exact hout ((gives_iff (by decide) hc hpolls ho .volt).mp (hall s hr hc hpolls .volt))

end Measuring

end ToolbitSdk
