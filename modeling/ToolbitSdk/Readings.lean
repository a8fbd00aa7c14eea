/-
# What the getters return

A meter with the history of its polling getters (`Reader`): what each
evaluation of the loop condition has seen of the flag, and for each call
that has returned, its value, the average published last and the number of
averages published by then.

No average is returned twice (`Reader.fresh_readings`): a getter takes the
average published last, and the flag it has seen was set by a publication
after the one it took before. But the code after the loop decides by the
counter alone which of the two exit conditions has fired: a call whose last
evaluation sees the flag returns NaN and leaves the average. The calls time
out only when there was nothing to take exactly when no evaluation with the
counter at 0 finds the flag set (`Reader.timely_iff`).
-/
import ToolbitSdk.Sessions

namespace ToolbitSdk

open Bytes

namespace Measuring

variable {k : Kind} {dec : BitVec 32 → ℚ}

/-- The average of a quantity that was published last. -/
def average (s : Measuring k) (q : Quantity) : Option ℚ :=
  s.stored.getLast?.bind fun p => match q with
    | .volt => p.1
    | .curr => p.2

/-- An average that can be read is the one published last. -/
theorem Partitioned.average {s : Measuring k} (h : Partitioned dec s) {q : Quantity} {v : ℚ}
    (hv : (s.meter.channel q).latest = some v) : s.average q = some v := by
  obtain ⟨w, hw, rfl⟩ := h.latest q v hv
  rw [Measuring.average, h.stored, List.getLast?_map, hw]
  cases q <;> rfl

end Measuring

/-- A call that polled, when it has returned. -/
structure Reading where
  q : Quantity
  value : Option ℚ
  /-- the flag at each evaluation of the loop condition -/
  seen : List Bool
  /-- the average of `q` published last -/
  average : Option ℚ
  /-- the number of averages published -/
  published : ℕ
  /-- the flag is clear after the call -/
  cleared : Bool

/-- NaN only if no evaluation of the loop condition has seen the flag; if one
has, the published average, and the flag is cleared. -/
structure Reading.Timely (r : Reading) : Prop where
  timeout : r.value = none → ∀ b ∈ r.seen, b = false
  taken : true ∈ r.seen → r.cleared = true ∧ ∃ v, r.average = some v ∧ r.value = some v

structure Reader (k : Kind) where
  base : Measuring k
  /-- history: the evaluations of the call under way -/
  seen : List Bool
  /-- history: the calls that have returned -/
  readings : List Reading

namespace Reader

variable {k : Kind} (dec : BitVec 32 → ℚ)

/-- What a step sees of the flag in the loop condition. -/
def looks (s : Measuring k) : MeterAct → List Bool
  | .client => match s.client with
    | .poll q _ => [(s.meter.channel q).updated]
    | _ => []
  | _ => []

/-- The step leads to `b`, and has returned from a call if it has added to
what was returned. -/
def note (s : Reader k) (a : MeterAct) (b : Measuring k) : Reader k :=
  match b.returned.drop s.base.returned.length with
  | [] => ⟨b, s.seen ++ looks s.base a, s.readings⟩
  | r :: _ => ⟨b, [], s.readings ++ [⟨r.q, r.value, s.seen ++ looks s.base a, b.average r.q, b.stored.length,
      !(b.meter.channel r.q).updated⟩]⟩

def step (s : Reader k) (a : MeterAct) : Option (Reader k) := (s.base.step dec a).map (s.note a)

def new (k : Kind) (core : TbiCore) (link : Bank) (junk : List Byte) (h : junk.length = VALUE_LEN + 1)
    (bufs : Quantity → List ℚ) (hb : ∀ q, (bufs q).length = DATA_BUF_SIZE_MAX) : Reader k :=
  ⟨.new k core link junk h bufs hb, [], []⟩

/-- Each average returned is the one published last at that moment, and was
published after the one that the call before it returned; no client step
touches a channel that it does not take from. -/
structure Fresh (dec : BitVec 32 → ℚ) (s : Reader k) : Prop where
  latest : ∀ r ∈ s.readings, ∀ v, r.value = some v → r.average = some v
  once : s.readings.Pairwise fun r r' =>
    r.q = r'.q → r.value.isSome = true → r'.value.isSome = true → r.published < r'.published
  apart : ∀ s', s.step dec .client = some s' → ∀ q, s.base.client ≠ .take q →
    s'.base.meter.channel q = s.base.meter.channel q

variable {dec}

/-! ### What a step notes -/

section

variable {s : Reader k} {a : MeterAct} {b : Measuring k}

theorem note_of_eq (h : b.returned = s.base.returned) :
    s.note a b = ⟨b, s.seen ++ looks s.base a, s.readings⟩ := by
  rw [note, h, List.drop_length]

theorem note_of_append {r : Returned} (h : b.returned = s.base.returned ++ [r]) :
    s.note a b = ⟨b, [], s.readings ++ [⟨r.q, r.value, s.seen ++ looks s.base a, b.average r.q, b.stored.length,
      !(b.meter.channel r.q).updated⟩]⟩ := by
  rw [note, h, List.drop_left]

theorem looks_poll {q : Quantity} {cnt : ℕ} (hc : b.client = .poll q cnt) :
    looks b .client = [(b.meter.channel q).updated] := by
  rw [looks, hc]

end

/-! ### The call under way -/

/-- While it polls it has not seen the flag, and when it takes it has. -/
structure Looking (s : Reader k) : Prop where
  idle : s.base.client = .idle → s.seen = []
  poll : ∀ q cnt, s.base.client = .poll q cnt → ∀ b ∈ s.seen, b = false
  take : ∀ q, s.base.client = .take q → true ∈ s.seen

/-- Between two calls. -/
theorem Looking.between {s : Reader k} (hc : s.base.client = .idle) (hs : s.seen = []) :
    Looking s where
  idle _ := hs
  poll q cnt hp := by rw [hc] at hp; cases hp
  take q ht := by rw [hc] at ht; cases ht

theorem Looking.quiet {s : Reader k} {a : MeterAct} {b : Measuring k} (hb : b.returned = s.base.returned)
    (h : Looking ⟨b, s.seen ++ looks s.base a, s.readings⟩) : Looking (s.note a b) := by
  rwa [note_of_eq hb]

/-- A step that is not the client's. -/
theorem Looking.same {s : Reader k} (h : Looking s) {a : MeterAct} {b : Measuring k}
    (hb : b.returned = s.base.returned) (hc : b.client = s.base.client) (hl : looks s.base a = []) :
    Looking (s.note a b) := by
  refine .quiet hb ?_
  rw [hl, List.append_nil]
  exact ⟨fun hi => h.idle (hc.symm.trans hi), fun q cnt hp => h.poll q cnt (hc.symm.trans hp),
    fun q ht => h.take q (hc.symm.trans ht)⟩

theorem Looking.returns {s : Reader k} {a : MeterAct} {b : Measuring k} {r : Returned}
    (hb : b.returned = s.base.returned ++ [r]) (hc : b.client = .idle) : Looking (s.note a b) := by
  rw [note_of_append hb]
  exact .between hc rfl

theorem Looking.step {s : Reader k} (h : Looking s) {a : MeterAct} {b : Measuring k}
    (hs : Measuring.Steps dec s.base a b) : Looking (s.note a b) := by
  cases hs with
  | @poll q hc hp =>
    have hn : s.seen = [] := h.idle hc
    refine .quiet rfl ⟨nofun, fun _ _ _ x hx => ?_, nofun⟩
    rw [hn] at hx
    cases hx
  | @wait q cnt hc hu =>
    refine .quiet rfl ⟨nofun, fun q' cnt' _ => ?_, nofun⟩
    rw [looks_poll hc, hu]
    exact Lts.forall_mem_concat (h.poll q (cnt + 1) hc) rfl
  | @see q cnt hc hu =>
    refine .quiet rfl ⟨nofun, nofun, fun _ _ => ?_⟩
    rw [looks_poll hc, hu]
    exact List.mem_append_right _ List.mem_cons_self
  | timeout hc => exact .returns rfl rfl
  | take hc => exact .returns rfl rfl
  | openPath | close | setTriggerMode | setIntegratingTime | readNow | packet | malformed | sample | publish
  | spoilCurr => exact h.same rfl rfl rfl

/-! ### Publications and readings -/

/-- A flag that is set was set after the last average that was taken. -/
structure Ordered (s : Reader k) : Prop where
  bounded : ∀ r ∈ s.readings, r.published ≤ s.base.stored.length
  pending : ∀ q, (s.base.meter.channel q).updated = true →
    ∀ r ∈ s.readings, r.q = q → r.value.isSome = true →
    r.published < s.base.stored.length
  once : s.readings.Pairwise fun r r' =>
    r.q = r'.q → r.value.isSome = true → r'.value.isSome = true → r.published < r'.published
  latest : ∀ r ∈ s.readings, ∀ v, r.value = some v → r.average = some v

/-- A step that publishes nothing, sets no flag and returns from no call. -/
theorem Ordered.same {s : Reader k} (h : Ordered s) {a : MeterAct} {b : Measuring k}
    (hb : b.returned = s.base.returned) (hst : b.stored = s.base.stored)
    (hu : ∀ q, (b.meter.channel q).updated = true → (s.base.meter.channel q).updated = true) :
    Ordered (s.note a b) := by
  rw [note_of_eq hb]
  refine ⟨fun r hr => ?_, fun q hq r hr => ?_, h.once, h.latest⟩
  · rw [hst]
    exact h.bounded r hr
  · rw [hst]
    exact h.pending q (hu q hq) r hr

/-- A publication: whatever was taken is older. -/
theorem Ordered.publishes {s : Reader k} (h : Ordered s) {a : MeterAct} {b : Measuring k}
    {p : Option ℚ × Option ℚ} (hb : b.returned = s.base.returned) (hst : b.stored = s.base.stored ++ [p]) :
    Ordered (s.note a b) := by
  rw [note_of_eq hb]
  have hlen : b.stored.length = s.base.stored.length + 1 := by rw [hst, List.length_append, List.length_singleton]
  have hlt : ∀ r ∈ s.readings, r.published < b.stored.length := fun r hr => by
    have hle := h.bounded r hr
    omega
  exact ⟨fun r hr => (hlt r hr).le, fun _ _ r hr _ _ => hlt r hr, h.once, h.latest⟩

/-- A call returns `value`: where that is an average, the flag was set before
it, and is not after it. -/
theorem Ordered.returns {s : Reader k} (h : Ordered s) {a : MeterAct} {b : Measuring k} {r : Returned}
    (hb : b.returned = s.base.returned ++ [r]) (hst : b.stored = s.base.stored)
    (hu : ∀ q, (b.meter.channel q).updated = true → (s.base.meter.channel q).updated = true ∧
      (r.value.isSome = true → r.q ≠ q))
    (ht : r.value.isSome = true → (s.base.meter.channel r.q).updated = true)
    (hv : ∀ v, r.value = some v → b.average r.q = some v) : Ordered (s.note a b) := by
  rw [note_of_append hb]
  refine ⟨Lts.forall_mem_concat (fun r' hr => ?_) (le_refl _), fun q hq => ?_, ?_,
    Lts.forall_mem_concat h.latest hv⟩
  · rw [hst]
    exact h.bounded r' hr
  · obtain ⟨hold, hne⟩ := hu q hq
    refine Lts.forall_mem_concat (fun r' hr he hs => ?_) fun he hs => absurd he (hne hs)
    rw [hst]
    exact h.pending q hold r' hr he hs
  · refine List.pairwise_append.mpr
      ⟨h.once, List.pairwise_singleton _ _, fun r₁ h₁ r₂ h₂ he hs₁ hs₂ => ?_⟩
    rw [List.mem_singleton.mp h₂] at he hs₂ ⊢
    rw [hst]
    exact h.pending r.q (ht hs₂) r₁ h₁ he hs₁

theorem Ordered.step {s : Reader k} (h : Ordered s) (hp : Measuring.Partitioned dec s.base)
    (hg : Measuring.Gated s.base) {a : MeterAct} {b : Measuring k} (hs : Measuring.Steps dec s.base a b) :
    Ordered (s.note a b) := by
  have same {m : Meter k Bank} (hd : s.base.meter.SameData m) :
      ∀ q, (m.channel q).updated = true → (s.base.meter.channel q).updated = true := fun q hq => by
    rwa [hd.channel] at hq
  cases hs with
  | @openPath path => exact h.same rfl rfl (same (s.base.meter.openPath_data path))
  | close => exact h.same rfl rfl (same s.base.meter.close_data)
  | @setTriggerMode v => exact h.same rfl rfl (same (s.base.meter.setTriggerMode_data v))
  | @setIntegratingTime ms => exact h.same rfl rfl (same (s.base.meter.setIntegratingTime_data ms))
  | @readNow q => exact h.same rfl rfl (same (s.base.meter.readNow_data dec q))
  | poll | wait | see | packet => exact h.same rfl rfl fun _ hq => hq
  | malformed => exact h.same rfl rfl fun q hq => (s.base.meter.updated_spoil .volt q).symm.trans hq
  | spoilCurr => exact h.same rfl rfl fun q hq => (s.base.meter.updated_spoil .curr q).symm.trans hq
  | @sample x todo hl hf =>
    exact h.same rfl rfl fun q hq => by
      rw [Measuring.add_channel] at hq
      exact hq
  | publish hl hf => exact h.publishes rfl rfl
  | @timeout q hc => exact h.returns rfl rfl (fun q' hq => ⟨hq, nofun⟩) nofun nofun
  | @take q hc =>
    refine h.returns rfl rfl (fun q' hq => ?_) (fun _ => hg.taking q hc) fun v hv => hp.average hv
    obtain ⟨hne, hold⟩ := Meter.of_updated_take hq
    exact ⟨hold, fun _ he => hne he.symm⟩

/-! ### Fresh readings -/

theorem note_base (s : Reader k) (a : MeterAct) (b : Measuring k) : (s.note a b).base = b := by
  unfold note
  split <;> rfl

/-- A step of the reader is one of the meter. -/
theorem steps_of_step {s s' : Reader k} {a : MeterAct} (h : s.step dec a = some s') :
    ∃ b, Measuring.Steps dec s.base a b ∧ s' = s.note a b := by
  obtain ⟨b, hb, rfl⟩ := Option.map_eq_some_iff.mp h
  exact ⟨b, Measuring.steps_of_step hb, rfl⟩

/-- What holds in every run. -/
structure Watched (dec : BitVec 32 → ℚ) (s : Reader k) : Prop where
  partitioned : Measuring.Partitioned dec s.base
  gated : Measuring.Gated s.base
  looking : Looking s
  ordered : Ordered s

theorem Watched.step {s s' : Reader k} {a : MeterAct} (h : Watched dec s) (hs : s.step dec a = some s') :
    Watched dec s' := by
  obtain ⟨b, hb, rfl⟩ := steps_of_step hs
  refine ⟨?_, ?_, h.looking.step hb, h.ordered.step h.partitioned h.gated hb⟩
  · rw [note_base]
    exact h.partitioned.step hb
  · rw [note_base]
    exact h.gated.step hb

theorem watched_new (core : TbiCore) (link : Bank) {junk : List Byte} (h : junk.length = VALUE_LEN + 1)
    {bufs : Quantity → List ℚ} (hb : ∀ q, (bufs q).length = DATA_BUF_SIZE_MAX) :
    Watched dec (new k core link junk h bufs hb) where
  partitioned := Measuring.partitioned_new core link h hb
  gated := Measuring.gated_new core link h hb
  looking := .between rfl rfl
  ordered := ⟨nofun, fun _ _ => nofun, .nil, nofun⟩

/-- A step of the client changes the channel it takes from, and no other. -/
theorem channel_client {s : Measuring k} {b : Measuring k} (hs : Measuring.Steps dec s .client b) {q : Quantity}
    (hq : s.client ≠ .take q) : b.meter.channel q = s.meter.channel q := by
  cases hs with
  | wait | timeout | see => rfl
  | @take q' hc =>
    have hne : q ≠ q' := by
      rintro rfl
      exact hq hc
    exact s.meter.channel_take_of_ne hne

/-- No step is ruled out. -/
def Any (_ : Reader k) (_ : MeterAct) : Prop := True

/-- On a `Dmm` or a `Choppy`, in every state of every run from a constructed
object, what the polling getters have returned was fresh. -/
theorem fresh_readings (core : TbiCore) (link : Bank) {junk : List Byte} (h : junk.length = VALUE_LEN + 1)
    {bufs : Quantity → List ℚ} (hb : ∀ q, (bufs q).length = DATA_BUF_SIZE_MAX) {s : Reader k}
    (hr : Lts.Reach (step dec) Any (new k core link junk h bufs hb) s) : s.Fresh dec := by
  have hi : Watched dec s := hr.inv (watched_new core link h hb) fun _ _ _ hw _ hs => hw.step hs
  refine ⟨hi.ordered.latest, hi.ordered.once, fun s' hs q hq => ?_⟩
  obtain ⟨b, hb, rfl⟩ := steps_of_step hs
  rw [note_base]
  exact channel_client hb hq

instance (s : Reader k) : DecidablePred s.Any := fun _ => .isTrue trivial

/-- An object of a fresh program, and a device that accepts everything. -/
def fresh (k : Kind) : Reader k := ⟨.fresh k, [], []⟩

open Measuring (openIdle fourSamples)

/-- Two averages; the voltage is taken twice. -/
def twoAverages : List MeterAct :=
  [openIdle, .packet fourSamples, .handler, .handler, .handler, .handler, .get .volt, .client, .client,
    .get .volt, .client, .packet fourSamples, .handler, .handler, .handler, .handler, .client, .client]

theorem fresh_readings_two : ∃ s : Reader .dmm, s.readings.length = 2 ∧ s.Fresh fun w => w.toNat := by
  obtain ⟨s, hr, hp⟩ := Lts.exists_reach_of_run (step fun w => w.toNat) Any (fresh .dmm) twoAverages
    (fun s => s.readings.length == 2) (by decide)
  exact ⟨s, eq_of_beq hp, fresh_readings _ _ Attvalue.length_zeros Meter.length_zeros hr⟩

/-! ### Timeouts -/

/-- The packets are well-formed. -/
def WellFormed : MeterAct → Prop
  | .packet pckt => Meter.wellFormed pckt = true
  | _ => True

/-- An evaluation of the loop condition with the counter at 0 does not find
the flag set. -/
def InTime (s : Reader k) : MeterAct → Reader k → Prop
  | .client, _ => ∀ q, s.base.client = .poll q 0 → (s.base.meter.channel q).updated = false
  | _, _ => True

/-- A flag that is set has an average behind it. -/
structure Whole (s : Measuring k) : Prop where
  handler : s.handler ≠ .curr
  latest : ∀ q, (s.meter.channel q).updated = true → ∃ v, (s.meter.channel q).latest = some v

theorem Whole.same {s b : Measuring k} (h : Whole s) (hh : b.handler = s.handler)
    (hc : ∀ q, b.meter.channel q = s.meter.channel q) : Whole b where
  handler := by rw [hh]; exact h.handler
  latest q hu := by
    rw [hc] at hu ⊢
    exact h.latest q hu

theorem Whole.step {s b : Measuring k} {a : MeterAct} (h : Whole s) (ha : WellFormed a)
    (hs : Measuring.Steps dec s a b) : Whole b := by
  cases hs with
  | @openPath path => exact h.same rfl (s.meter.openPath_data path).channel
  | close => exact h.same rfl s.meter.close_data.channel
  | @setTriggerMode v => exact h.same rfl (s.meter.setTriggerMode_data v).channel
  | @setIntegratingTime ms => exact h.same rfl (s.meter.setIntegratingTime_data ms).channel
  | @readNow q => exact h.same rfl (s.meter.readNow_data dec q).channel
  | poll | wait | timeout | see => exact h.same rfl fun _ => rfl
  | @take q hc =>
    refine ⟨h.handler, fun q' hu => ?_⟩
    obtain ⟨hne, hold⟩ := Meter.of_updated_take hu
    have hch : (s.doTake q).meter.channel q' = s.meter.channel q' := s.meter.channel_take_of_ne hne
    rw [hch]
    exact h.latest q' hold
  | packet => exact ⟨nofun, h.latest⟩
  | malformed _ _ hw =>
    rw [WellFormed, hw] at ha
    cases ha
  | spoilCurr hl => exact absurd hl h.handler
  | @sample x todo hl hf =>
    refine ⟨nofun, fun q hu => ?_⟩
    rw [Measuring.add_channel] at hu ⊢
    exact h.latest q hu
  | @publish x todo hl hf =>
    refine ⟨nofun, fun q _ => ?_⟩
    rw [Meter.channel_publish]
    exact ⟨_, rfl⟩

/-- The calls that have returned timed out only when there was nothing. -/
def AllTimely (s : Reader k) : Prop := ∀ r ∈ s.readings, r.Timely

theorem allTimely_quiet {s : Reader k} {a : MeterAct} {b : Measuring k} (hb : b.returned = s.base.returned)
    (hin : s.InTime a (s.note a b)) : (s.note a b).AllTimely ↔ s.AllTimely ∧ s.InTime a (s.note a b) := by
  rw [and_iff_left hin, note_of_eq hb]
  rfl

theorem allTimely_returns {s : Reader k} {a : MeterAct} {b : Measuring k} {r : Returned}
    (hb : b.returned = s.base.returned ++ [r]) : (s.note a b).AllTimely ↔ s.AllTimely ∧
      Reading.Timely ⟨r.q, r.value, s.seen ++ looks s.base a, b.average r.q, b.stored.length,
        !(b.meter.channel r.q).updated⟩ := by
  rw [note_of_append hb]
  unfold AllTimely
  rw [List.forall_mem_append, List.forall_mem_singleton]

/-- A call that the counter ends is timely if its last look at the flag did
not find it set. -/
theorem timely_timeout {q : Quantity} {seen : List Bool} {flag : Bool} {average : Option ℚ} {published : ℕ}
    {cleared : Bool} (h : ∀ b ∈ seen, b = false) :
    Reading.Timely ⟨q, none, seen ++ [flag], average, published, cleared⟩ ↔ flag = false := by
  constructor
  · exact fun ht => ht.timeout rfl flag (List.mem_append_right _ List.mem_cons_self)
  · rintro rfl
    have hall : ∀ b ∈ seen ++ [false], b = false := Lts.forall_mem_concat h rfl
    exact ⟨fun _ => hall, fun ht => by cases hall true ht⟩

theorem allTimely_step {s : Reader k} {a : MeterAct} {b : Measuring k} (h : Watched dec s) (hw : Whole s.base)
    (hs : Measuring.Steps dec s.base a b) :
    (s.note a b).AllTimely ↔ s.AllTimely ∧ s.InTime a (s.note a b) := by
  cases hs with
  | @timeout q hc =>
    have hflag : s.InTime .client (s.note .client (s.base.ret q none)) ↔
        (s.base.meter.channel q).updated = false := by
      constructor
      · exact fun hin => hin q hc
      · intro hf q' hc'
        rw [hc] at hc'
        cases hc'
        exact hf
    have hr : (s.base.ret q none).returned = s.base.returned ++
        [⟨q, none, s.base.blocks.getLast?, s.base.session, s.base.meter.link.connected⟩] := rfl
    rw [hflag, allTimely_returns hr, looks_poll hc]
    exact and_congr_right fun _ => timely_timeout (h.looking.poll q 0 hc)
  | @take q hc =>
    obtain ⟨v, hv⟩ := hw.latest q (h.gated.taking q hc)
    have hr : (s.base.doTake q).returned = s.base.returned ++
        [⟨q, (s.base.meter.channel q).latest, s.base.blocks.getLast?, s.base.session,
          (s.base.meter.onChannel (fun c => c.take.2) q).link.connected⟩] := rfl
    have hclear : ((s.base.doTake q).meter.channel q).updated = false := s.base.meter.updated_take q
    have hin : s.InTime .client (s.note .client (s.base.doTake q)) := fun q' hc' => by
      rw [hc] at hc'
      cases hc'
    have hnone : (s.base.meter.channel q).latest ≠ none := by
      rw [hv]
      nofun
    have hcleared : (!((s.base.doTake q).meter.channel q).updated) = true := by
      rw [hclear]
      rfl
    rw [allTimely_returns hr]
    exact and_congr_right fun _ => iff_of_true
      ⟨fun hn => absurd hn hnone, fun _ => ⟨hcleared, v, h.partitioned.average hv, hv⟩⟩ hin
  | wait hc | see hc =>
    refine allTimely_quiet rfl fun q' hc' => ?_
    rw [hc] at hc'
    cases hc'
  | openPath | close | setTriggerMode | setIntegratingTime | poll | readNow | packet | malformed | sample | publish
  | spoilCurr => exact allTimely_quiet rfl trivial

/-- **A call times out only when nothing arrived.** On a `Dmm` or a `Choppy`,
over every run from a constructed object with well-formed packets: a call
that returned NaN never saw the flag, and one that saw it returned the
published average and cleared it, exactly when no evaluation of the loop
condition with the counter at 0 finds the flag set. -/
theorem timely_iff (core : TbiCore) (link : Bank) {junk : List Byte} (h : junk.length = VALUE_LEN + 1)
    {bufs : Quantity → List ℚ} (hb : ∀ q, (bufs q).length = DATA_BUF_SIZE_MAX) (as : List MeterAct)
    (hok : ∀ a ∈ as, WellFormed a) {s : Reader k}
    (hr : Lts.run (step dec) (new k core link junk h bufs hb) as = some s) :
    (∀ r ∈ s.readings, r.Timely) ↔ Lts.Along (step dec) InTime (new k core link junk h bufs hb) as := by
  have hi : ∀ (s : Reader k) (a : MeterAct) (s' : Reader k), Watched dec s ∧ Whole s.base → WellFormed a →
      s.step dec a = some s' → Watched dec s' ∧ Whole s'.base := by
    rintro s a s' ⟨hw, hv⟩ ha hs
    obtain ⟨b, hb, rfl⟩ := steps_of_step hs
    exact ⟨hw.step hs, by rw [note_base]; exact hv.step ha hb⟩
  have hstep : ∀ (s : Reader k) (a : MeterAct) (s' : Reader k), Watched dec s ∧ Whole s.base → WellFormed a →
      s.step dec a = some s' → (s'.AllTimely ↔ s.AllTimely ∧ s.InTime a s') := by
    rintro s a s' ⟨hw, hv⟩ _ hs
    obtain ⟨b, hb, rfl⟩ := steps_of_step hs
    exact allTimely_step hw hv hb
  have h0 : Whole (new k core link junk h bufs hb).base := ⟨nofun, fun q hu => by cases q <;> cases hu⟩
  have hiff := Lts.run_iff_along hi hstep as ⟨watched_new core link h hb, h0⟩ hok hr
  exact hiff.trans (and_iff_right nofun)

instance (s : Reader k) (a : MeterAct) (s' : Reader k) : Decidable (s.InTime a s') :=
  match a with
  | .client => inferInstanceAs
    (Decidable (∀ q, s.base.client = .poll q 0 → (s.base.meter.channel q).updated = false))
  | .openPath _ | .close | .setTriggerMode _ | .setIntegratingTime _ | .get _ | .packet _ | .handler =>
    inferInstanceAs (Decidable True)

instance : DecidablePred WellFormed
  | .packet pckt => inferInstanceAs (Decidable (Meter.wellFormed pckt = true))
  | .openPath _ | .close | .setTriggerMode _ | .setIntegratingTime _ | .get _ | .client | .handler =>
    inferInstanceAs (Decidable True)

/-- A call that starts with three samples of four counted, and looks at the
flag ten times; the fourth comes while it sleeps for the tenth time, or later. -/
def tenLooks (last : List MeterAct) : List MeterAct :=
  [openIdle, .packet fourSamples, .handler, .handler, .handler, .get .volt] ++ List.replicate 10 .client ++ last

theorem timely_iff_late : ∃ s : Reader .dmm,
    Lts.run (step fun w => w.toNat) (fresh .dmm) (tenLooks [.client, .handler]) = some s ∧
      s.readings.length = 1 ∧ ∀ r ∈ s.readings, r.Timely := by
  have hp : (Lts.run (step fun w => w.toNat) (fresh .dmm) (tenLooks [.client, .handler])).any
      (fun s => s.readings.length == 1) = true := by decide
  obtain ⟨s, hr, hlen⟩ := (Option.any_eq_true _ _).mp hp
  exact ⟨s, hr, eq_of_beq hlen, (timely_iff _ _ Attvalue.length_zeros Meter.length_zeros _ (by decide) hr).mpr
    (by decide)⟩

/-- The eleventh look sees the flag, and the call returns NaN. -/
theorem last_look_lost : ¬ ∀ (as : List MeterAct), (∀ a ∈ as, WellFormed a) → ∀ s : Reader .dmm,
    Lts.run (step fun w => w.toNat) (fresh .dmm) as = some s → ∀ r ∈ s.readings, r.Timely := by
  intro hall
  have hp : (Lts.run (step fun w => w.toNat) (fresh .dmm) (tenLooks [.handler, .client])).any
      (fun s => s.readings.any fun r => r.value.isNone && r.seen.contains true) = true := by decide
  obtain ⟨s, hr, hread⟩ := (Option.any_eq_true _ _).mp hp
  obtain ⟨r, hr', hv⟩ := List.any_eq_true.mp hread
  simp only [Bool.and_eq_true, Option.isNone_iff_eq_none, List.contains_iff_mem] at hv
  have ht := hall _ (by decide) s hr r hr'
  exact absurd (ht.timeout hv.1 true hv.2) (by decide)

end Reader

end ToolbitSdk
