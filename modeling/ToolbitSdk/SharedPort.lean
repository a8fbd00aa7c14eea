/-
# Pins driven from several threads

Threads that share a `GpioHw`, each driving its own pin with `digitalWrite`,
at the granularity of one transaction or one access to `mAttGpioRw`. The call
is a read-modify-write of the whole port, through an attribute that the
threads share, and nothing keeps two of them apart.

As long as a call makes its read only while no other is between its read and
the end of its write, the port holds what each thread last wrote
(`SharedPort.port_of_apart`). That is also needed: once a read is made inside
another call, the two can go on so that the update of the one that read last
is lost (`SharedPort.safe_iff_apart`). One thread by itself does what
`GpioHw::digitalWrite` does (`SharedPort.run_alone`).
-/
import ToolbitSdk.Gpio
import ToolbitSdk.Lib.Lts

namespace ToolbitSdk

open Bytes Bits TbiService

/-- Where a thread is in `digitalWrite(pin, v)`. -/
inductive DrivePhase (base : AttId)
  | idle
  /-- in the call, before `read()` -/
  | entered (v : Bool)
  /-- `readAttribute` is done -/
  | refreshed (v : Bool)
  /-- `read()` has returned, its result unused -/
  | returned (v : Bool)
  /-- `getValueUint32` gave `w` -/
  | loaded (v : Bool) (w : BitVec 32)
  /-- `setValue` is done -/
  | stored (v : Bool)
  /-- `writeAttribute` has its copy of the attribute -/
  | copied (v : Bool) (att : AttOf (base + ATT_GPIO_RW))
  deriving DecidableEq

namespace DrivePhase

variable {base : AttId}

/-- The value of the call. -/
def val : DrivePhase base → Option Bool
  | .idle => none
  | .entered v | .refreshed v | .returned v | .loaded v _ | .stored v | .copied v _ => some v

/-- Between the read and the end of the write. -/
def inside : DrivePhase base → Bool
  | .idle | .entered _ => false
  | .refreshed _ | .returned _ | .loaded .. | .stored _ | .copied .. => true

end DrivePhase

/-- A thread for each pin, on one `GpioHw`; `last` is the value of the last
call that each has made. -/
structure SharedPort (base : AttId) where
  tdev : Bank
  gpiohw : GpioHw base
  phase : Fin 32 → DrivePhase base
  last : Fin 32 → Option Bool

/-- A call of a thread's `digitalWrite`, or the next step of the call it is
in. -/
inductive DriveAct
  | call (v : Bool)
  | next
  deriving DecidableEq

namespace SharedPort

variable {base : AttId}

/-- Thread `t` goes to `p`, with the attribute and the device as given. -/
def move (s : SharedPort base) (t : Fin 32) (p : DrivePhase base) (mAttGpioRw : AttOf (base + ATT_GPIO_RW))
    (tdev : Bank) : SharedPort base :=
  { s with tdev, gpiohw := { s.gpiohw with mAttGpioRw }, phase := Function.update s.phase t p }

section

variable (s : SharedPort base) (t : Fin 32) (p : DrivePhase base) (att : AttOf (base + ATT_GPIO_RW)) (tdev : Bank)

@[simp] theorem move_tdev : (s.move t p att tdev).tdev = tdev := rfl
@[simp] theorem move_last : (s.move t p att tdev).last = s.last := rfl
@[simp] theorem move_phase_self : (s.move t p att tdev).phase t = p := Function.update_self ..
theorem move_phase_ne {i : Fin 32} (h : i ≠ t) : (s.move t p att tdev).phase i = s.phase i :=
  Function.update_of_ne h ..

end

def step (s : SharedPort base) : Fin 32 × DriveAct → Option (SharedPort base)
  | (t, .call v) =>
    match s.phase t with
    | .idle =>
      some { s with phase := Function.update s.phase t (.entered v), last := Function.update s.last t (some v) }
    | _ => none
  | (t, .next) =>
    match s.phase t with
    | .idle => none
    | .entered v =>
      let (_, mAttGpioRw, tdev) := s.gpiohw.mAttGpioRw.read s.tdev
      some (s.move t (.refreshed v) mAttGpioRw tdev)
    | .refreshed v => some (s.move t (.returned v) s.gpiohw.mAttGpioRw s.tdev)
    | .returned v => some (s.move t (.loaded v s.gpiohw.mAttGpioRw.getValueUint32) s.gpiohw.mAttGpioRw s.tdev)
    | .loaded v w =>
      let dat := if v then setBit w t else clearBit w t
      some (s.move t (.stored v) (s.gpiohw.mAttGpioRw.set (·.setValueUint32 dat)) s.tdev)
    | .stored v => some (s.move t (.copied v s.gpiohw.mAttGpioRw) s.gpiohw.mAttGpioRw s.tdev)
    | .copied _ att =>
      let (_, tdev) := writeAttribute s.tdev att.att
      some (s.move t .idle s.gpiohw.mAttGpioRw tdev)

/-! ### One lemma a phase -/

section

variable {s : SharedPort base} {t : Fin 32} {v : Bool}

theorem step_refreshed (h : s.phase t = .refreshed v) :
    s.step (t, .next) = some (s.move t (.returned v) s.gpiohw.mAttGpioRw s.tdev) := by
  simp only [step, h]

theorem step_returned (h : s.phase t = .returned v) : s.step (t, .next) =
    some (s.move t (.loaded v s.gpiohw.mAttGpioRw.getValueUint32) s.gpiohw.mAttGpioRw s.tdev) := by
  simp only [step, h]

theorem step_loaded {w : BitVec 32} (h : s.phase t = .loaded v w) : s.step (t, .next) =
    some (s.move t (.stored v) (s.gpiohw.mAttGpioRw.set (·.setValueUint32 (putBit w t v))) s.tdev) := by
  simp only [step, h]
  rfl

theorem step_stored (h : s.phase t = .stored v) :
    s.step (t, .next) = some (s.move t (.copied v s.gpiohw.mAttGpioRw) s.gpiohw.mAttGpioRw s.tdev) := by
  simp only [step, h]

/-- On a device that accepts every transaction. -/
theorem step_entered {port : BitVec 32} (hw : GpioHw.Willing s.tdev)
    (hp : s.tdev.vals (base + ATT_GPIO_RW) = .word port) (h : s.phase t = .entered v) : s.step (t, .next) =
    some (s.move t (.refreshed v) (s.gpiohw.mAttGpioRw.set (·.setValueUint32 port)) s.tdev.tick) := by
  simp only [step, h, Bank.read_word _ hw.connected (hw.accepts _) hp]

theorem step_copied {att : AttOf (base + ATT_GPIO_RW)} (hw : GpioHw.Willing s.tdev) (h : s.phase t = .copied v att) :
    s.step (t, .next) = some (s.move t .idle s.gpiohw.mAttGpioRw
      (s.tdev.tick.put (base + ATT_GPIO_RW) att.att.toValue)) := by
  simp only [step, h, Bank.write_accepted att hw.connected (hw.accepts _)]

end

/-- A call by itself is `GpioHw::digitalWrite`. -/
theorem run_alone (s : SharedPort base) {t : Fin 32} (v : Bool) (h : s.phase t = .idle) :
    ∃ s', Lts.run step s ((t, .call v) :: List.replicate 6 (t, .next)) = some s' ∧
      (s'.gpiohw, s'.tdev) = (s.gpiohw.digitalWrite s.tdev (GpioHw.pinNo t) v).2 ∧ s'.phase = s.phase := by
  have hphase : Function.update s.phase t .idle = s.phase := by
    rw [← h]
    exact Function.update_eq_self t s.phase
  rcases hr : s.gpiohw.mAttGpioRw.read s.tdev with ⟨_ | _, att, tdev⟩ <;>
    simp only [List.replicate, Lts.run, step, h, hr, Option.bind_some, move, Function.update_self,
      Function.update_idem, hphase, Option.some_inj, exists_eq_left', and_true, GpioHw.digitalWrite, GpioHw.read,
      GpioHw.write, GpioHw.toNat_pinNo, Bool.false_eq_true, ↓reduceIte]

/-! ### Keeping apart -/

/-- No thread is in a call. -/
def start (tdev : Bank) (gpiohw : GpioHw base) : SharedPort base :=
  ⟨tdev, gpiohw, fun _ => .idle, fun _ => none⟩

/-- A call makes its read while no other is between its read and the end of
its write. -/
def Apart (s : SharedPort base) (a : Fin 32 × DriveAct) : Prop :=
  (∃ v, s.phase a.1 = .entered v) → ∀ i ≠ a.1, (s.phase i).inside = false

instance (s : SharedPort base) (a : Fin 32 × DriveAct) : Decidable (s.Apart a) :=
  inferInstanceAs (Decidable ((∃ v, s.phase a.1 = .entered v) → ∀ i ≠ a.1, (s.phase i).inside = false))

/-- A pin that was written holds the last value, another one its original
level. -/
def Kept (orig : BitVec 32) (s : SharedPort base) (i : Fin 32) : Prop :=
  ∃ port : BitVec 32, s.tdev.vals (base + ATT_GPIO_RW) = .word port ∧
    port.getLsbD i = (s.last i).getD (orig.getLsbD i)

/-- What a thread relies on: the attribute, its load or its copy holds the
port, from its store on with its own pin changed. -/
def Sees (port : BitVec 32) (att : AttOf (base + ATT_GPIO_RW)) (t : Fin 32) : DrivePhase base → Prop
  | .idle | .entered _ => True
  | .refreshed _ | .returned _ => att.getValueUint32 = port
  | .loaded _ w => w = port
  | .stored v => att.att.toValue = .word (putBit port t v)
  | .copied v a => a.att.toValue = .word (putBit port t v)

/-- Calls that keep apart, on a device whose port is `port`. -/
structure Ordered (orig port : BitVec 32) (s : SharedPort base) : Prop where
  willing : GpioHw.Willing s.tdev
  holds : s.tdev.vals (base + ATT_GPIO_RW) = .word port
  kept : ∀ i, s.phase i = .idle → port.getLsbD i = (s.last i).getD (orig.getLsbD i)
  value : ∀ i v, (s.phase i).val = some v → s.last i = some v
  sees : ∀ i, Sees port s.gpiohw.mAttGpioRw i (s.phase i)
  alone : ∀ i j, (s.phase i).inside = true → (s.phase j).inside = true → i = j

/-! ### Calls that keep apart -/

section

variable {s : SharedPort base} {orig port : BitVec 32} {t : Fin 32}

theorem ordered_start {tdev : Bank} (gpiohw : GpioHw base) (hw : GpioHw.Willing tdev)
    (hp : tdev.vals (base + ATT_GPIO_RW) = .word port) : Ordered port port (start tdev gpiohw) where
  willing := hw
  holds := hp
  kept _ _ := rfl
  value _ _ h := nomatch h
  sees _ := trivial
  alone _ _ h := nomatch h

theorem sees_of_outside {att : AttOf (base + ATT_GPIO_RW)} {p : DrivePhase base} (h : p.inside = false) :
    Sees port att t p := by
  rcases p with _ | _ | _ | _ | _ | _ | _
  · trivial
  · trivial
  all_goals cases h

theorem Ordered.outside (h : Ordered orig port s) (hin : (s.phase t).inside = true) :
    ∀ i ≠ t, (s.phase i).inside = false := by
  intro i hi
  by_contra hne
  exact hi (h.alone i t (Bool.not_eq_false _ ▸ hne) hin)

/-- Where every thread but `t` is outside its call, at most `t` is inside
after its step. -/
theorem alone_update {p : DrivePhase base} (hout : ∀ i ≠ t, (s.phase i).inside = false) {i j : Fin 32}
    (hi : (Function.update s.phase t p i).inside = true) (hj : (Function.update s.phase t p j).inside = true) :
    i = j := by
  have only : ∀ k, (Function.update s.phase t p k).inside = true → k = t := by
    refine (Function.forall_update_iff s.phase fun k q => q.inside = true → k = t).mpr
      ⟨fun _ => rfl, fun k hk hin => ?_⟩
    rw [hout k hk] at hin
    cases hin
  rw [only i hi, only j hj]

/-- A thread alone takes a step that leaves the port as it is. -/
theorem Ordered.move (h : Ordered orig port s) {v : Bool} {p : DrivePhase base} {att : AttOf (base + ATT_GPIO_RW)}
    {tdev : Bank} (hw : GpioHw.Willing tdev) (hp : tdev.vals = s.tdev.vals) (hv : (s.phase t).val = some v)
    (hpv : p.val = some v) (hs : Sees port att t p) (hout : ∀ i ≠ t, (s.phase i).inside = false) :
    Ordered orig port (s.move t p att tdev) where
  willing := hw
  holds := hp ▸ h.holds
  kept := by
    refine (Function.forall_update_iff s.phase fun i q =>
      q = .idle → port.getLsbD i = (s.last i).getD (orig.getLsbD i)).mpr ⟨fun hi => ?_, fun i _ => h.kept i⟩
    rw [hi] at hpv
    cases hpv
  value := by
    refine (Function.forall_update_iff s.phase fun i q => ∀ v', q.val = some v' → s.last i = some v').mpr
      ⟨fun v' hi => ?_, fun i _ => h.value i⟩
    rw [hpv] at hi
    exact h.value t v' (hv.trans hi)
  sees := (Function.forall_update_iff s.phase fun i q => Sees port att i q).mpr
    ⟨hs, fun i hit => sees_of_outside (hout i hit)⟩
  alone _ _ hi hj := alone_update hout hi hj

/-- A thread calls `digitalWrite`. -/
theorem Ordered.call (h : Ordered orig port s) (v : Bool) : Ordered orig port
    { s with phase := Function.update s.phase t (.entered v), last := Function.update s.last t (some v) } where
  willing := h.willing
  holds := h.holds
  kept i hi := by
    by_cases hit : i = t
    · subst hit
      simp only [Function.update_self, reduceCtorEq] at hi
    · simp only [Function.update_of_ne hit] at hi ⊢
      exact h.kept i hi
  value i v' hi := by
    by_cases hit : i = t
    · subst hit
      simp only [Function.update_self] at hi ⊢
      exact hi
    · simp only [Function.update_of_ne hit] at hi ⊢
      exact h.value i v' hi
  sees := (Function.forall_update_iff s.phase fun i q => Sees port s.gpiohw.mAttGpioRw i q).mpr
    ⟨trivial, fun i _ => h.sees i⟩
  alone i j hi hj := by
    have was : ∀ k, ((Function.update s.phase t (.entered v)) k).inside = true → (s.phase k).inside = true := by
      refine (Function.forall_update_iff s.phase fun k q => q.inside = true → (s.phase k).inside = true).mpr
        ⟨fun hk => ?_, fun _ _ hk => hk⟩
      cases hk
    exact h.alone i j (was i hi) (was j hj)

/-- A thread alone writes its copy: the port with its own pin changed. -/
theorem Ordered.write (h : Ordered orig port s) {v : Bool} {att : AttOf (base + ATT_GPIO_RW)}
    (hp : s.phase t = .copied v att) : Ordered orig (putBit port t v)
      (s.move t .idle s.gpiohw.mAttGpioRw (s.tdev.tick.put (base + ATT_GPIO_RW) (.word (putBit port t v)))) := by
  have hin : (s.phase t).inside = true := by rw [hp]; rfl
  have hout := h.outside hin
  have hlast : s.last t = some v := h.value t v (by rw [hp]; rfl)
  refine ⟨h.willing.tick.put _ _, Bank.put_vals_self _ _ _, fun i hi => ?_, ?_, ?_,
    fun _ _ hi hj => alone_update hout hi hj⟩
  · rw [getLsbD_putBit port t v i.isLt]
    by_cases hit : i = t
    · subst hit
      rw [if_pos rfl, move_last, hlast, Option.getD_some]
    · rw [if_neg fun hv => hit (Fin.ext hv)]
      rw [move_phase_ne _ _ _ _ _ hit] at hi
      exact h.kept i hi
  · refine (Function.forall_update_iff s.phase fun i q => ∀ v', q.val = some v' → s.last i = some v').mpr
      ⟨fun v' hi => ?_, fun i _ => h.value i⟩
    cases hi
  · exact (Function.forall_update_iff s.phase fun i q => Sees (putBit port t v) s.gpiohw.mAttGpioRw i q).mpr
      ⟨trivial, fun i hit => sees_of_outside (hout i hit)⟩

/-- A step that keeps apart keeps the order. -/
theorem Ordered.step (h : Ordered orig port s) {a : Fin 32 × DriveAct} {s' : SharedPort base} (ha : Apart s a)
    (hs : s.step a = some s') : ∃ port', Ordered orig port' s' := by
  obtain ⟨t, _ | _⟩ := a
  · rename_i v
    simp only [SharedPort.step] at hs
    split at hs
    · cases hs
      exact ⟨port, h.call v⟩
    · cases hs
  have hsees := h.sees t
  rcases hp : s.phase t with _ | v | v | v | ⟨v, w⟩ | v | ⟨v, att⟩
  · simp only [SharedPort.step, hp] at hs
    cases hs
  · have hr := Bank.read_word s.gpiohw.mAttGpioRw h.willing.connected (h.willing.accepts _) h.holds
    simp only [SharedPort.step, hp, hr] at hs
    cases hs
    exact ⟨port, h.move h.willing.tick rfl (by rw [hp]; rfl) rfl (AttOf.getValueUint32_set _ port) (ha ⟨v, hp⟩)⟩
  all_goals
    have hout := h.outside (t := t) (by rw [hp]; rfl)
    rw [hp] at hsees
    simp only [SharedPort.step, hp] at hs
  · cases hs
    exact ⟨port, h.move h.willing rfl (by rw [hp]; rfl) rfl hsees hout⟩
  · cases hs
    exact ⟨port, h.move h.willing rfl (by rw [hp]; rfl) rfl hsees hout⟩
  · cases hs
    cases hsees
    exact ⟨port, h.move h.willing rfl (by rw [hp]; rfl) rfl (AttOf.toValue_set _ _) hout⟩
  · cases hs
    exact ⟨port, h.move h.willing rfl (by rw [hp]; rfl) rfl hsees hout⟩
  · have hc : att.att.toValue = .word (putBit port t v) := hsees
    rw [Bank.write_accepted att h.willing.connected (h.willing.accepts _), hc] at hs
    cases hs
    exact ⟨putBit port t v, h.write hp⟩

end

/-- **No update is lost by calls that keep apart.** In every state reached,
once all calls have returned, the port holds on each pin the value of its
thread's last call, or its original level where none was made. -/
theorem port_of_apart {tdev : Bank} (gpiohw : GpioHw base) {orig : BitVec 32} (hw : GpioHw.Willing tdev)
    (hp : tdev.vals (base + ATT_GPIO_RW) = .word orig) {s : SharedPort base}
    (hr : Lts.Reach step Apart (start tdev gpiohw) s) (hidle : ∀ i, s.phase i = .idle) :
    ∃ port : BitVec 32, s.tdev.vals (base + ATT_GPIO_RW) = .word port ∧
      ∀ i : Fin 32, port.getLsbD i = (s.last i).getD (orig.getLsbD i) := by
  obtain ⟨port, h⟩ := hr.inv (I := fun s => ∃ port, Ordered orig port s) ⟨orig, ordered_start gpiohw hw hp⟩
    fun s a s' ⟨port, h⟩ ha hs => h.step ha hs
  exact ⟨port, h.holds, fun i => h.kept i (hidle i)⟩

/-- One after the other. -/
def inTurn : List (Fin 32 × DriveAct) :=
  (0, .call true) :: List.replicate 6 (0, .next) ++ (1, .call true) :: List.replicate 6 (1, .next)

/-- All calls have returned, and the port is `w`. -/
def Ends (w : BitVec 32) (s : SharedPort base) : Bool :=
  (List.finRange 32).all (fun i => s.phase i = .idle) && s.tdev.vals (base + ATT_GPIO_RW) = .word w &&
    s.last 0 == some true

theorem Ends.idle {w : BitVec 32} {s : SharedPort base} (h : Ends w s = true) :
    ∀ i, s.phase i = .idle := by
  simp only [Ends, Bool.and_eq_true, List.all_eq_true, List.mem_finRange, forall_const, decide_eq_true_eq] at h
  exact h.1.1

theorem port_of_apart_inTurn : ∃ (s : SharedPort 0x1200) (port : BitVec 32),
    s.tdev.vals (0x1200 + ATT_GPIO_RW) = .word port ∧ ∀ i : Fin 32, port.getLsbD i = (s.last i).getD false := by
  obtain ⟨s, hr, he⟩ := Lts.exists_reach_of_run step Apart
    (start (Bank.holding fun _ => .word 0) GpioHw.fresh) inTurn (Ends 3) (by decide)
  have hp0 : (Bank.holding fun _ => .word 0).vals (0x1200 + ATT_GPIO_RW) = .word 0 := rfl
  obtain ⟨port, hp, hk⟩ := port_of_apart GpioHw.fresh ⟨rfl, fun _ => rfl⟩ hp0 hr (Ends.idle he)
  refine ⟨s, port, hp, fun i => ?_⟩
  rw [hk i, show (0 : BitVec 32).getLsbD i = false from BitVec.getLsbD_zero]

/-- The threads of pins 0 and 1 both read; then the first one runs to its end
before the second one stores what it has loaded. -/
def overlap : List (Fin 32 × DriveAct) :=
  [(0, .call true), (1, .call true), (0, .next), (1, .next), (1, .next), (1, .next)] ++
    List.replicate 5 (0, .next) ++ List.replicate 3 (1, .next)

theorem port_of_overlap : ¬ ∀ (tdev : Bank) (gpiohw : GpioHw 0x1200) (orig : BitVec 32) (s : SharedPort 0x1200),
    GpioHw.Willing tdev → tdev.vals (0x1200 + ATT_GPIO_RW) = .word orig →
      Lts.Reach step (fun _ _ => True) (start tdev gpiohw) s → (∀ i, s.phase i = .idle) →
        ∃ port : BitVec 32, s.tdev.vals (0x1200 + ATT_GPIO_RW) = .word port ∧
          ∀ i : Fin 32, port.getLsbD i = (s.last i).getD (orig.getLsbD i) := by
  intro h
  obtain ⟨s, hr, he⟩ := Lts.exists_reach_of_run step (fun _ _ => True)
    (start (Bank.holding fun _ => .word 0) GpioHw.fresh) overlap (Ends 2) (by decide)
  obtain ⟨port, hport, hk⟩ := h _ _ 0 s ⟨rfl, fun _ => rfl⟩ rfl hr (Ends.idle he)
  simp only [Ends, Bool.and_eq_true, decide_eq_true_eq, beq_iff_eq] at he
  obtain ⟨⟨-, hp⟩, hl⟩ := he
  have h0 := hk 0
  rw [hl, ← Value.word_inj.mp (hp.symm.trans hport)] at h0
  exact absurd h0 (by decide)

/-! ### A read inside another call -/

/-- The steps that a call has left after its read. -/
def left : DrivePhase base → ℕ
  | .idle | .entered _ => 0
  | .refreshed _ => 5
  | .returned _ => 4
  | .loaded .. => 3
  | .stored _ => 2
  | .copied .. => 1

/-- What the call writes will have pin `i` as `port` has it. -/
def Stale (port : BitVec 32) (i : Fin 32) : DrivePhase base → Prop
  | .idle | .entered _ => False
  | .refreshed _ | .returned _ | .stored _ => True
  | .loaded _ w => w.getLsbD i = port.getLsbD i
  | .copied _ att => ∃ x : BitVec 32, att.att.toValue = .word x ∧ x.getLsbD i = port.getLsbD i

/-- Thread `i` has read the port while thread `t` is inside its call. -/
structure Overlapping (port : BitVec 32) (t i : Fin 32) (v : Bool) (s : SharedPort base) : Prop where
  willing : GpioHw.Willing s.tdev
  holds : s.tdev.vals (base + ATT_GPIO_RW) = .word port
  last : s.last i = some v
  reader : s.phase i = .refreshed v
  att : ∃ (a : AttOf (base + ATT_GPIO_RW)) (x : BitVec 32), s.gpiohw.mAttGpioRw = a.set (·.setValueUint32 x) ∧
    x.getLsbD i = port.getLsbD i
  stale : Stale port i (s.phase t)

theorem apart_of_inside {s : SharedPort base} {t : Fin 32} (h : (s.phase t).inside = true) :
    Apart s (t, .next) := by
  rintro ⟨v, hv⟩
  rw [show s.phase t = .entered v from hv] at h
  cases h

section

variable {s : SharedPort base} {orig port : BitVec 32} {t i : Fin 32} {v : Bool}

theorem Overlapping.inside (h : Overlapping port t i v s) : (s.phase t).inside = true := by
  have hs := h.stale
  rcases hp : s.phase t with _ | _ | _ | _ | _ | _ | _ <;> rw [hp] at hs <;> first | exact hs.elim | rfl

/-- The thread that reads last waits, and the other one goes on to its
copy. -/
theorem Overlapping.move (h : Overlapping port t i v s) (hne : i ≠ t) {p : DrivePhase base}
    {att a : AttOf (base + ATT_GPIO_RW)} {x : BitVec 32} (ha : att = a.set (·.setValueUint32 x))
    (hx : x.getLsbD i = port.getLsbD i) (hs : Stale port i p) : Overlapping port t i v (s.move t p att s.tdev) where
  willing := h.willing
  holds := h.holds
  last := h.last
  reader := by
    rw [move_phase_ne _ _ _ _ _ hne]
    exact h.reader
  att := ⟨a, x, ha, hx⟩
  stale := by
    rw [move_phase_self]
    exact hs

theorem Overlapping.next (h : Overlapping port t i v s) (hne : i ≠ t) (hc : 1 < left (s.phase t)) :
    ∃ s', s.step (t, .next) = some s' ∧ Overlapping port t i v s' ∧ left (s'.phase t) < left (s.phase t) := by
  obtain ⟨a, x, ha, hx⟩ := h.att
  have hs := h.stale
  rcases hp : s.phase t with _ | v' | v' | v' | ⟨v', w⟩ | v' | ⟨v', att⟩
  · rw [hp] at hs
    exact hs.elim
  · rw [hp] at hs
    exact hs.elim
  · refine ⟨_, step_refreshed hp, h.move hne ha hx trivial, ?_⟩
    rw [move_phase_self]
    exact Nat.lt_succ_self _
  · refine ⟨_, step_returned hp, h.move hne ha hx ?_, ?_⟩
    · show s.gpiohw.mAttGpioRw.getValueUint32.getLsbD i = _
      rw [ha, AttOf.getValueUint32_set, hx]
    · rw [move_phase_self]
      exact Nat.lt_succ_self _
  · rw [hp] at hs
    refine ⟨_, step_loaded hp, h.move hne rfl ?_ trivial, ?_⟩
    · rw [getLsbD_putBit w t v' i.isLt, if_neg fun hv => hne (Fin.ext hv)]
      exact hs
    · rw [move_phase_self]
      exact Nat.lt_succ_self _
  · refine ⟨_, step_stored hp, h.move hne ha hx ⟨x, by rw [ha, AttOf.toValue_set], hx⟩, ?_⟩
    rw [move_phase_self]
    exact Nat.lt_succ_self _
  · rw [hp] at hc
    exact absurd hc (Nat.lt_irrefl 1)

/-- It gets there. -/
theorem Overlapping.exists_copied (h : Overlapping port t i v s) (hne : i ≠ t) :
    ∃ s', Lts.Reach step Apart s s' ∧ Overlapping port t i v s' ∧ ∃ v' att, s'.phase t = .copied v' att := by
  have hm : ∃ s', Lts.Reach step Apart s s' ∧ Overlapping port t i v s' ∧ left (s'.phase t) ≤ 1 := by
    refine Lts.exists_reach_of_measure (fun s => left (s.phase t)) (fun s ho hg => ?_) h
    obtain ⟨s', hs, ho', hlt⟩ := ho.next hne (by omega)
    exact ⟨(t, .next), s', apart_of_inside ho.inside, hs, ho', hlt⟩
  obtain ⟨s', hr, ho, hl⟩ := hm
  refine ⟨s', hr, ho, ?_⟩
  have hin := ho.inside
  rcases hp : s'.phase t with _ | _ | _ | _ | _ | _ | ⟨v', att⟩
  · rw [hp] at hin
    cases hin
  · rw [hp] at hin
    cases hin
  all_goals rw [hp, left] at hl
  · omega
  · omega
  · omega
  · omega
  · exact ⟨v', att, rfl⟩

/-- A thread inside its call goes on by itself. -/
theorem exists_next (hw : GpioHw.Willing s.tdev) (hin : (s.phase i).inside = true) :
    ∃ p att tdev, s.step (i, .next) = some (s.move i p att tdev) ∧ GpioHw.Willing tdev ∧
      left p < left (s.phase i) ∧ (p.inside = true ∨ p = .idle) := by
  rcases hp : s.phase i with _ | v' | v' | v' | ⟨v', w⟩ | v' | ⟨v', att⟩
  · rw [hp] at hin
    cases hin
  · rw [hp] at hin
    cases hin
  · exact ⟨_, _, _, step_refreshed hp, hw, Nat.lt_succ_self _, .inl rfl⟩
  · exact ⟨_, _, _, step_returned hp, hw, Nat.lt_succ_self _, .inl rfl⟩
  · exact ⟨_, _, _, step_loaded hp, hw, Nat.lt_succ_self _, .inl rfl⟩
  · exact ⟨_, _, _, step_stored hp, hw, Nat.lt_succ_self _, .inl rfl⟩
  · exact ⟨_, _, _, step_copied hw hp, hw.tick.put _ _, Nat.lt_succ_self _, .inr rfl⟩

/-- And returns, the others where they were. -/
theorem exists_returned (hw : GpioHw.Willing s.tdev) (hin : (s.phase i).inside = true) :
    ∃ s', Lts.Reach step Apart s s' ∧ GpioHw.Willing s'.tdev ∧ s'.last = s.last ∧ s'.phase i = .idle ∧
      ∀ j ≠ i, s'.phase j = s.phase j := by
  have hm : ∃ s', Lts.Reach step Apart s s' ∧ (GpioHw.Willing s'.tdev ∧ s'.last = s.last ∧
      (∀ j ≠ i, s'.phase j = s.phase j) ∧ ((s'.phase i).inside = true ∨ s'.phase i = .idle)) ∧
      s'.phase i = .idle := by
    refine Lts.exists_reach_of_measure (fun s' => left (s'.phase i)) (fun s' ⟨hw', hlast, hj, hi⟩ hg => ?_)
      ⟨hw, rfl, fun _ _ => rfl, .inl hin⟩
    have hin' := hi.resolve_right hg
    obtain ⟨p, att, tdev, hs, hw'', hlt, hp⟩ := exists_next hw' hin'
    refine ⟨(i, .next), _, apart_of_inside hin', hs, ⟨hw'', hlast, fun j hji => ?_, ?_⟩, ?_⟩
    · rw [move_phase_ne _ _ _ _ _ hji]
      exact hj j hji
    · rw [move_phase_self]
      exact hp
    · rw [move_phase_self]
      exact hlt
  obtain ⟨s', hr, ⟨hw', hlast, hj, -⟩, hidle⟩ := hm
  exact ⟨s', hr, hw', hlast, hidle, hj⟩

/-- Then the copy is written, without the update of the thread that read
last. -/
theorem Overlapping.exists_lost (h : Overlapping port t i v s) (hne : i ≠ t) (hv : port.getLsbD i ≠ v) :
    ∃ s', Lts.Reach step Apart s s' ∧ s'.phase i = .idle ∧ ¬ Kept orig s' i := by
  obtain ⟨s₁, hr₁, h₁, v', att, hc⟩ := h.exists_copied hne
  obtain ⟨s₂, hr₂, hw₂, hl₂, hi₂, hj₂⟩ :=
    exists_returned h₁.willing (i := i) (by rw [h₁.reader]; rfl)
  have hc₂ : s₂.phase t = .copied v' att := (hj₂ t hne.symm).trans hc
  have hstale := h₁.stale
  rw [hc] at hstale
  obtain ⟨x, hx, hxi⟩ := hstale
  have hlast : s₂.last i = some v := by rw [hl₂, h₁.last]
  refine ⟨_, hr₁.trans
      (hr₂.trans (.step (t, .next) .refl (apart_of_inside (by rw [hc₂]; rfl)) (step_copied hw₂ hc₂))),
    ?_, ?_⟩
  · rw [move_phase_ne _ _ _ _ _ hne]
    exact hi₂
  · rintro ⟨port', hp', hk⟩
    rw [move_tdev, Bank.put_vals_self, hx, Value.word_inj] at hp'
    rw [move_last, hlast, Option.getD_some, ← hp', hxi] at hk
    exact hv hk

theorem Ordered.overlapping (h : Ordered orig port s) (hne : i ≠ t) (hi : s.phase i = .entered v)
    (hin : (s.phase t).inside = true) : Overlapping port t i v
      (s.move i (.refreshed v) (s.gpiohw.mAttGpioRw.set (·.setValueUint32 port)) s.tdev.tick) where
  willing := h.willing.tick
  holds := h.holds
  last := h.value i v (by rw [hi]; rfl)
  reader := move_phase_self ..
  att := ⟨_, port, rfl, rfl⟩
  stale := by
    have hs := h.sees t
    rw [move_phase_ne _ _ _ _ _ hne.symm]
    rcases hp : s.phase t with _ | v' | v' | v' | ⟨v', w⟩ | v' | ⟨v', att⟩
    · rw [hp] at hin
      cases hin
    · rw [hp] at hin
      cases hin
    · trivial
    · trivial
    · rw [hp] at hs
      exact congrArg (BitVec.getLsbD · i) hs
    · trivial
    · rw [hp] at hs
      refine ⟨_, hs, ?_⟩
      rw [getLsbD_putBit port t v' i.isLt, if_neg fun he => hne (Fin.ext he)]

/-- **Keeping apart is what it takes.** A call that has come to its read, and
is to change its pin, may make the read with no update lost by any way the
threads can go on, exactly when no other call is between its read and the end
of its write. -/
theorem safe_iff_apart {tdev : Bank} (gpiohw : GpioHw base) (hw : GpioHw.Willing tdev)
    (hp : tdev.vals (base + ATT_GPIO_RW) = .word orig) (hr : Lts.Reach step Apart (start tdev gpiohw) s)
    (hport : s.tdev.vals (base + ATT_GPIO_RW) = .word port) (hi : s.phase i = .entered v)
    (hv : port.getLsbD i ≠ v) {s₁ : SharedPort base} (hs : s.step (i, .next) = some s₁) :
    Apart s (i, .next) ↔
      ∀ s', Lts.Reach step Apart s₁ s' → ∀ j, s'.phase j = .idle → Kept orig s' j := by
  have inv : ∀ s', Lts.Reach step Apart (start tdev gpiohw) s' → ∃ port, Ordered orig port s' := fun s' hr' =>
    hr'.inv (I := fun s => ∃ port, Ordered orig port s) ⟨orig, ordered_start gpiohw hw hp⟩
      fun s a s' ⟨port, h⟩ ha hs => h.step ha hs
  constructor
  · intro ha s' hr' j hj
    obtain ⟨port', h⟩ := inv s' ((hr.trans (.step (i, .next) .refl ha hs)).trans hr')
    exact ⟨port', h.holds, h.kept j hj⟩
  · rintro hsafe - t hti
    by_contra hin
    obtain ⟨port', h⟩ := inv s hr
    have hpp : port' = port := Value.word_inj.mp (h.holds.symm.trans hport)
    rw [hpp] at h
    rw [step_entered h.willing h.holds hi, Option.some_inj] at hs
    have ho := h.overlapping (Ne.symm hti) hi (Bool.not_eq_false _ ▸ hin)
    have hl : ∃ s', Lts.Reach step Apart _ s' ∧ s'.phase i = .idle ∧ ¬ Kept orig s' i :=
      ho.exists_lost (Ne.symm hti) hv
    obtain ⟨s', hr', hidle, hlost⟩ := hl
    rw [hs] at hr'
    exact hlost (hsafe s' hr' i hidle)

end

end SharedPort

end ToolbitSdk
