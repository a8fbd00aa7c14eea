/-
# Measurements of the current session

Nothing that a meter has accumulated is reset by `open`, `close` or
`setTriggerMode`: not the count and the sums of the unfinished window, not
the averages, not the two flags. A window begun before a `close` goes on
after the next `open`, and an average that was not taken is returned after
it (`Measuring.stale_average`). Where every `open` that succeeds finds no
sample counted and no average to take, the getters return averages of the
current session only (`Measuring.current_of_clean`).
-/
import ToolbitSdk.Measuring
import ToolbitSdk.TriggerMode

namespace ToolbitSdk
namespace Measuring

open Bytes

variable {k : Kind} {dec : BitVec 32 → ℚ}

/-! ### What holds of every run -/

/-- Handler and getters run while the device is open, and a getter that takes
an average has seen the flag. -/
structure Gated (s : Measuring k) : Prop where
  joined : s.meter.link.connected = false → s.handler = .loop []
  silent : s.meter.link.connected = false → s.meter.polls = false
  busy : s.client ≠ .idle → s.meter.link.connected = true
  arrived : s.handler ≠ .loop [] → s.arrived = s.session
  taking : ∀ q, s.client = .take q → (s.meter.channel q).updated = true

/-- A call that does not poll. -/
theorem Gated.call {s : Measuring k} (h : Gated s) (hc : s.client = .idle) {m : Meter k Bank} {times : List ℕ}
    (hj : m.link.connected = false → s.handler = .loop []) (hp : m.link.connected = false → m.polls = false) :
    Gated { s with meter := m, times } where
  joined := hj
  silent := hp
  busy hb := absurd hc hb
  arrived := h.arrived
  taking q hq := by rw [show s.client = .take q from hq] at hc; cases hc

/-- A step of the handler, or of the client under way: the device is open. -/
theorem Gated.open {s : Measuring k} (ho : s.meter.link.connected = true)
    (ha : s.handler ≠ .loop [] → s.arrived = s.session)
    (ht : ∀ q, s.client = .take q → (s.meter.channel q).updated = true) : Gated s where
  joined hc := by rw [ho] at hc; cases hc
  silent hc := by rw [ho] at hc; cases hc
  busy _ := ho
  arrived := ha
  taking := ht

theorem Gated.step {s s' : Measuring k} {a : MeterAct} (h : Gated s) (hs : Steps dec s a s') :
    Gated s' := by
  -- a client under way, or a handler in a packet: the device is open
  have client {c : Client} (hc : s.client = c) (hne : c ≠ .idle) : s.meter.link.connected = true :=
    h.busy (by rwa [hc])
  have handler {l : Handler} (hl : s.handler = l) (hne : l ≠ .loop []) : s.meter.link.connected = true :=
    Bool.of_not_eq_false fun hc => hne (hl.symm.trans (h.joined hc))
  cases hs with
  | @openPath path hc =>
    cases he : (s.meter.openPath path).1 with
    | true =>
      obtain ⟨hl, hp⟩ := Meter.openPath_failure he
      have hs : s.doOpenPath path = { s with meter := (s.meter.openPath path).2 } := by
        simp only [doOpenPath, he, ↓reduceIte]
      rw [hs]
      exact h.call hc (fun hd => h.joined (by rwa [hl] at hd)) fun hd => hp.trans (h.silent (by rwa [hl] at hd))
    | false =>
      obtain ⟨hcl, -, ho⟩ := Meter.openPath_success he
      exact .open ho (fun hne => absurd (h.joined hcl) hne) (fun q hq => by
        rw [show s.client = .take q from hq] at hc; cases hc)
  | close hc hj =>
    refine h.call hc (fun _ => ?_) fun _ => s.meter.close_polls
    cases ho : s.meter.link.connected with
    | true => exact hj ho
    | false => exact h.joined ho
  | @setTriggerMode v hc =>
    have hcon := Meter.setTriggerMode_connected (m := s.meter) v
    exact h.call hc (fun hd => h.joined (hcon.symm.trans hd)) fun hd =>
      (Meter.setTriggerMode_closed v (hcon.symm.trans hd)).2
  | @setIntegratingTime ms hc =>
    obtain ⟨hl, hp⟩ := s.meter.setIntegratingTime_link ms
    exact h.call hc (fun hd => h.joined (by rwa [hl] at hd)) fun hd => hp.trans (h.silent (by rwa [hl] at hd))
  | @readNow q hc hp =>
    obtain ⟨hl, hp⟩ := s.meter.readNow_connected dec q
    exact h.call hc (fun hd => h.joined (hl.symm.trans hd)) fun hd => hp.trans (h.silent (hl.symm.trans hd))
  | poll hc hp =>
    exact .open (Bool.of_not_eq_false fun hd => by rw [h.silent hd] at hp; cases hp) h.arrived nofun
  | wait hc hu => exact .open (client hc nofun) h.arrived nofun
  | timeout hc => exact .open (client hc nofun) h.arrived nofun
  | @see q cnt hc hu =>
    exact .open (client hc nofun) h.arrived fun q' hq => by
      cases hq
      exact hu
  | @take q hc => exact .open ((congrArg _ (s.meter.onChannel_link _ q)).trans (client hc nofun)) h.arrived nofun
  | packet ho hl hw => exact .open ho (fun _ => rfl) h.taking
  | malformed ho hl hw =>
    exact .open ho (fun _ => rfl) fun q hq =>
      (s.meter.updated_spoil .volt q).trans (h.taking q hq)
  | spoilCurr hl =>
    exact .open (handler hl nofun) nofun fun q hq =>
      (s.meter.updated_spoil .curr q).trans (h.taking q hq)
  | @sample x todo hl hf =>
    exact .open (handler hl nofun) (fun _ => h.arrived (by rw [hl]; nofun)) fun q hq => by
      rw [add_channel]
      exact h.taking q hq
  | publish hl hf =>
    exact .open (handler hl nofun) (fun _ => h.arrived (by rw [hl]; nofun)) fun q _ => by
      rw [Meter.channel_publish]
      rfl

/-! ### Sessions -/

/-- Every average that a getter returned after polling was returned while the
device was open, and is the mean of a window of samples that all came in the
session of the latest `open`. -/
def Current (dec : BitVec 32 → ℚ) (s : Measuring k) : Prop :=
  ∀ r ∈ s.returned, ∀ v, r.value = some v → r.opened = true ∧
    ∃ w, r.block = some w ∧ v = mean dec r.q w ∧ ∀ t ∈ w, t.session = r.session

/-- An `open` that succeeds finds no sample counted, and no average behind a
flag that is set. -/
def Clean (s : Measuring k) : MeterAct → Prop
  | .openPath (some (some _)) => s.meter.link.connected = false →
    s.meter.data_cnt = 0 ∧ ∀ q, (s.meter.channel q).updated = true → (s.meter.channel q).latest = none
  | _ => True

/-- What can still be published or returned is of the current session. -/
structure Owned (dec : BitVec 32 → ℚ) (s : Measuring k) : Prop where
  window : ∀ t ∈ s.window, t.session = s.session
  last : ∀ q v, (s.meter.channel q).updated = true → (s.meter.channel q).latest = some v →
    ∀ w, s.blocks.getLast? = some w → ∀ t ∈ w, t.session = s.session
  returned : s.Current dec

/-- A step that sets no flag and stores no average. -/
theorem Owned.keeps {s : Measuring k} (h : Owned dec s) {m : Meter k Bank} (hk : s.meter.Keeps m)
    (hu : ∀ q, (m.channel q).updated = true → (s.meter.channel q).updated = true) {client : Client}
    {handler : Handler} {arrived : ℕ} {times : List ℕ} {packets : List TbiPacket} :
    Owned dec { s with meter := m, client, handler, arrived, times, packets } where
  window := h.window
  last q v hq hv := h.last q v (hu q hq) (hk.latest q v hv)
  returned := h.returned

theorem Owned.same {s : Measuring k} (h : Owned dec s) {m : Meter k Bank} {times : List ℕ}
    (hd : s.meter.SameData m) : Owned dec { s with meter := m, times } :=
  h.keeps hd.keeps (fun q hq => by rwa [hd.channel] at hq)

/-- A getter returns: an average is one of the current session. -/
theorem Current.ret {s : Measuring k} (h : s.Current dec) {q : Quantity} {value : Option ℚ}
    (hv : ∀ v, value = some v → s.meter.link.connected = true ∧ ∃ w, s.blocks.getLast? = some w ∧
      v = mean dec q w ∧ ∀ t ∈ w, t.session = s.session) : (s.ret q value).Current dec :=
  Lts.forall_mem_concat h hv

theorem Owned.opens {s : Measuring k} (h : Owned dec s) (hp : Partitioned dec s)
    {path : Option (Option (AttId → Value))} (hc : s.Clean (.openPath path)) :
    Owned dec (s.doOpenPath path) := by
  have hd := s.meter.openPath_data path
  cases he : (s.meter.openPath path).1 with
  | true =>
    have hs : s.doOpenPath path = { s with meter := (s.meter.openPath path).2 } := by
      simp only [doOpenPath, he, ↓reduceIte]
    rw [hs]
    exact h.same hd
  | false =>
    obtain ⟨hcl, ⟨vals, rfl⟩, -⟩ := Meter.openPath_success he
    obtain ⟨h0, hl⟩ := hc hcl
    have hw : s.window = [] := List.length_eq_zero_iff.mp (hp.count.symm.trans h0)
    exact {
      window := fun t ht => by
        rw [show (s.doOpenPath _).window = s.window from rfl, hw] at ht
        cases ht
      last := fun q v hu hv => by
        rw [show ((s.doOpenPath _).meter.channel q) = s.meter.channel q from hd.channel q] at hu hv
        rw [hl q hu] at hv
        cases hv
      returned := h.returned }

theorem Owned.step {s s' : Measuring k} {a : MeterAct} (h : Owned dec s) (hg : Gated s) (hp : Partitioned dec s)
    (hc : s.Clean a) (hs : Steps dec s a s') : Owned dec s' := by
  have window_concat {x : BitVec 32 × BitVec 32} {todo : List (BitVec 32 × BitVec 32)}
      (hl : s.handler = .loop (x :: todo)) : ∀ t ∈ s.window ++ [s.nextTaken x], t.session = s.session :=
    Lts.forall_mem_concat h.window (hg.arrived (by rw [hl]; nofun))
  cases hs with
  | openPath => exact h.opens hp hc
  | close => exact h.same s.meter.close_data
  | @setTriggerMode v => exact h.same (s.meter.setTriggerMode_data v)
  | @setIntegratingTime ms => exact h.same (s.meter.setIntegratingTime_data ms)
  | @readNow q => exact h.same (s.meter.readNow_data dec q)
  | poll | wait | see => exact ⟨h.window, h.last, h.returned⟩
  | timeout => exact ⟨h.window, h.last, h.returned.ret nofun⟩
  | @take q ht =>
    have hk : Owned dec { s with meter := s.meter.onChannel (fun c => c.take.2) q } :=
      h.keeps (s.meter.keeps_take q) fun _ hu => (Meter.of_updated_take hu).2
    have hr : (s.doTake q).Current dec := by
      unfold doTake
      apply Current.ret
      · exact h.returned
      intro v hv
      obtain ⟨w, hw, he⟩ := hp.latest q v hv
      have ho : s.meter.link.connected = true := hg.busy (by rw [ht]; nofun)
      exact ⟨by rw [Meter.onChannel_link]; exact ho, w, hw, he, h.last q v (hg.taking q ht) hv w hw⟩
    exact ⟨hk.window, hk.last, hr⟩
  | packet => exact ⟨h.window, h.last, h.returned⟩
  | malformed =>
    exact h.keeps (s.meter.keeps_spoil .volt) (fun q hq => (s.meter.updated_spoil .volt q).symm.trans hq)
  | spoilCurr =>
    exact h.keeps (s.meter.keeps_spoil .curr) (fun q hq => (s.meter.updated_spoil .curr q).symm.trans hq)
  | @sample x todo hl hf =>
    exact ⟨window_concat hl, fun q v hu hv => by rw [add_channel] at hu hv; exact h.last q v hu hv, h.returned⟩
  | @publish x todo hl hf =>
    refine ⟨nofun, fun q v _ _ w hw => ?_, h.returned⟩
    rw [List.getLast?_concat] at hw
    cases hw
    exact window_concat hl

theorem gated_new (core : TbiCore) (link : Bank) {junk : List Byte} (h : junk.length = VALUE_LEN + 1)
    {bufs : Quantity → List ℚ} (hb : ∀ q, (bufs q).length = DATA_BUF_SIZE_MAX) :
    Gated (new k core link junk h bufs hb) where
  joined _ := rfl
  silent _ := Meter.polls_new ..
  busy hc := absurd rfl hc
  arrived hc := absurd rfl hc
  taking _ hc := by cases hc

/-- On a `Dmm` or a `Choppy`, in every state of every run from a constructed
object in which every `open` that succeeds finds no sample counted and no
average to take, what the getters returned is of the current session. -/
theorem current_of_clean (core : TbiCore) (link : Bank) {junk : List Byte} (h : junk.length = VALUE_LEN + 1)
    {bufs : Quantity → List ℚ} (hb : ∀ q, (bufs q).length = DATA_BUF_SIZE_MAX) {s : Measuring k}
    (hr : Lts.Reach (step dec) Clean (new k core link junk h bufs hb) s) : s.Current dec := by
  have h0 : Owned dec (new k core link junk h bufs hb) := ⟨nofun, nofun, nofun⟩
  have hi : Partitioned dec s ∧ Gated s ∧ Owned dec s := by
    refine hr.inv (I := fun s => Partitioned dec s ∧ Gated s ∧ Owned dec s)
      ⟨partitioned_new core link h hb, gated_new core link h hb, h0⟩ ?_
    rintro s a s' ⟨hp, hg, ho⟩ hc hs
    have hs := steps_of_step hs
    exact ⟨hp.step hs, hg.step hs, ho.step hg hp hc hs⟩
  exact hi.2.2.returned

instance (s : Measuring k) : DecidablePred s.Clean
  | .openPath (some (some _)) => inferInstanceAs (Decidable (s.meter.link.connected = false →
    s.meter.data_cnt = 0 ∧ ∀ q, (s.meter.channel q).updated = true → (s.meter.channel q).latest = none))
  | .openPath (some none) | .openPath none | .close | .setTriggerMode _ | .setIntegratingTime _ | .get _
  | .client | .packet _ | .handler => .isTrue trivial

/-- Two sessions, and in the first both averages are taken. -/
def twoSessions : List MeterAct :=
  [openIdle, .packet fourSamples, .handler, .handler, .handler, .handler, .get .volt, .client, .client,
    .get .curr, .client, .client, .close, openIdle]

theorem current_of_clean_two : ∃ s : Measuring .dmm, s.session = 2 ∧ s.returned.length = 2 ∧
    s.Current fun w => w.toNat := by
  obtain ⟨s, hr, hp⟩ := Lts.exists_reach_of_run (step fun w => w.toNat) Clean (fresh .dmm) twoSessions
    (fun s => s.session == 2 && s.returned.length == 2) (by decide)
  have hp : s.session = 2 ∧ s.returned.length = 2 := by simpa using hp
  exact ⟨s, hp.1, hp.2, current_of_clean _ _ Attvalue.length_zeros Meter.length_zeros hr⟩

/-- An average that was published before a `close` and not taken. -/
def staleRun : List MeterAct :=
  [openIdle, .packet fourSamples, .handler, .handler, .handler, .handler, .close, openIdle, .get .volt,
    .client, .client]

/-- The next session's `getVoltage` returns it. -/
theorem stale_average : ¬ ∀ s : Measuring .dmm,
    Lts.Reach (step fun w => w.toNat) Any (fresh .dmm) s → s.Current fun w => w.toNat := by
  intro h
  obtain ⟨s, hr, hp⟩ := Lts.exists_reach_of_run (step fun w => w.toNat) Any (fresh .dmm) staleRun
    (fun s => s.returned.any fun r => r.value.isSome && r.session == 2 &&
      r.block.any fun w => w.any fun t => t.session == 1) (by decide)
  obtain ⟨r, hr', hp⟩ := List.any_eq_true.mp hp
  simp only [Bool.and_eq_true, beq_iff_eq, Option.any_eq_true, List.any_eq_true] at hp
  obtain ⟨⟨hv, h2⟩, w, hw, t, ht, h1⟩ := hp
  obtain ⟨v, hv⟩ := Option.isSome_iff_exists.mp hv
  obtain ⟨-, w', hw', -, hall⟩ := h s hr r hr' v hv
  rw [hw] at hw'
  cases hw'
  have h2' := hall t ht
  omega

end Measuring

end ToolbitSdk
