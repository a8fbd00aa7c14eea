/-
# Chopper: a USB hub's port mask

`chopper.cpp`. The device holds a 32-bit mask of the ports that are on. A
`Chopper` reads it once, at `open`, and from then on changes one bit of its
cached attribute and writes the whole word. A write that is refused leaves
its bit in the attribute, and the next write that is accepted brings it
along (`Chopper.refused_call_leaks`). The mask is what the successful calls
say exactly when no write of one port is accepted while the calls so far,
refused or not, ask for another level of another port
(`Chopper.usbPort_law_iff`).

`getUsbPortStatus` reads the mask and returns whether that failed, so a
status that was read is 0: it is the mask when every port is off
(`Chopper.usbPortStatus_law_iff`).
-/
import ToolbitSdk.Lib.Bits
import ToolbitSdk.Lib.Mealy
import ToolbitSdk.Transaction

namespace ToolbitSdk

open Bytes Bits TbiService

def ATT_USB_PORT_CTRL : AttId := 0x8000

/-- `link` is what `mTbiDevice` and `mTbiService` reach. -/
structure Chopper (σ : Type*) where
  core : TbiCore
  link : σ
  mAttUsbPortCtrl : AttOf ATT_USB_PORT_CTRL

namespace Chopper

section

variable {σ π : Type*} [Link σ π]

/-- `Chopper::open`; the two overloads differ in how they find the path. The
result of the read is ignored. -/
def openPath (c : Chopper σ) (path : Option π) : Bool × Chopper σ :=
  match c.core.openPath c.link path with
  | (true, core, link) => (true, { c with core, link })
  | (false, core, link) =>
    let (_, mAttUsbPortCtrl, link) := c.mAttUsbPortCtrl.read link
    (false, { c with core, link, mAttUsbPortCtrl })

/-- Set the attribute and write it: how each of the four methods ends. -/
def writeUsbPortCtrl (c : Chopper σ) (val : BitVec 32) : Bool × Chopper σ :=
  let mAttUsbPortCtrl := c.mAttUsbPortCtrl.set (·.setValueUint32 val)
  let (status, link) := writeAttribute c.link mAttUsbPortCtrl.att
  (status, { c with link, mAttUsbPortCtrl })

def enableAllUsbPort (c : Chopper σ) : Bool × Chopper σ := c.writeUsbPortCtrl 0xFFFFFFFF

def enableUsbPort (c : Chopper σ) (p : BitVec 32) : Bool × Chopper σ :=
  if p = 0 ∨ 32 < p.toNat then (true, c)
  else c.writeUsbPortCtrl (setBit c.mAttUsbPortCtrl.getValueUint32 (p.toNat - 1))

def disableAllUsbPort (c : Chopper σ) : Bool × Chopper σ := c.writeUsbPortCtrl 0x00000000

def disableUsbPort (c : Chopper σ) (p : BitVec 32) : Bool × Chopper σ :=
  if p = 0 ∨ 32 < p.toNat then (true, c)
  else c.writeUsbPortCtrl (clearBit c.mAttUsbPortCtrl.getValueUint32 (p.toNat - 1))

/-- The result is `readAttribute`'s own, a flag as a number. -/
def getUsbPortStatus (c : Chopper σ) : BitVec 32 × Chopper σ :=
  let (status, mAttUsbPortCtrl, link) := c.mAttUsbPortCtrl.read c.link
  (if status then 1 else 0, { c with link, mAttUsbPortCtrl })

/-- The four calls that change ports. -/
inductive Call
  | enableAllUsbPort
  | enableUsbPort (p : BitVec 32)
  | disableAllUsbPort
  | disableUsbPort (p : BitVec 32)

def step (c : Chopper σ) : Call → Bool × Chopper σ
  | .enableAllUsbPort => c.enableAllUsbPort
  | .enableUsbPort p => c.enableUsbPort p
  | .disableAllUsbPort => c.disableAllUsbPort
  | .disableUsbPort p => c.disableUsbPort p

end

/-! ### What a call asks for -/

namespace Call

/-- The call is on all ports, or on one there is. -/
def InRange : Call → Prop
  | .enableUsbPort p | .disableUsbPort p => p ≠ 0 ∧ p.toNat ≤ 32
  | _ => True

instance : DecidablePred InRange := fun c => by cases c <;> unfold InRange <;> infer_instance

/-- The mask with the ports that the call names changed. -/
def apply (m : BitVec 32) : Call → BitVec 32
  | .enableAllUsbPort => 0xFFFFFFFF
  | .enableUsbPort p => putBit m (p.toNat - 1) true
  | .disableAllUsbPort => 0x00000000
  | .disableUsbPort p => putBit m (p.toNat - 1) false

/-- The masks agree on every port that the call does not name. -/
def AgreeOff (a b : BitVec 32) : Call → Prop
  | .enableUsbPort p | .disableUsbPort p => Bits.AgreeOff (p.toNat - 1) a b
  | _ => True

instance (a b : BitVec 32) : DecidablePred (AgreeOff a b) := fun c => by
  cases c <;> unfold AgreeOff <;> infer_instance

theorem apply_eq_iff (a b : BitVec 32) (c : Call) : c.apply a = c.apply b ↔ c.AgreeOff a b := by
  cases c with
  | enableAllUsbPort => exact iff_of_true rfl trivial
  | enableUsbPort p => exact putBit_eq_iff a b _ true
  | disableAllUsbPort => exact iff_of_true rfl trivial
  | disableUsbPort p => exact putBit_eq_iff a b _ false

end Call

/-! ### The law and its exact condition -/

/-- A call in range writes what it makes of the attribute; another one does
nothing. -/
theorem step_eq {σ π : Type*} [Link σ π] (c : Chopper σ) (call : Call) :
    c.step call = if call.InRange then c.writeUsbPortCtrl (call.apply c.mAttUsbPortCtrl.getValueUint32)
      else (true, c) := by
  have one (p : BitVec 32) (x : Bool × Chopper σ) :
      (if p = 0 ∨ 32 < p.toNat then (true, c) else x) = if p ≠ 0 ∧ p.toNat ≤ 32 then x else (true, c) := by
    by_cases h : p = 0 ∨ 32 < p.toNat
    · rw [if_pos h, if_neg (by rintro ⟨h1, h2⟩; exact h.elim h1 (by omega))]
    · rw [if_neg h, if_pos (by rw [not_or] at h; exact ⟨h.1, by omega⟩)]
  cases call with
  | enableAllUsbPort => rfl
  | enableUsbPort p => exact one p _
  | disableAllUsbPort => rfl
  | disableUsbPort p => exact one p _

/-- The calls that returned success, in order. -/
def succeeded (c : Chopper Bank) (cs : List Call) : List Call :=
  ((Mealy.log step c cs).filter (·.2 = false)).map (·.1)

/-- At every point of the calls, the device's mask is `m` with the successful
calls so far applied in order. -/
def MaskLaw (c : Chopper Bank) (m : BitVec 32) (cs : List Call) : Prop :=
  ∀ pre, pre <+: cs →
    (Mealy.after step c pre).link.vals ATT_USB_PORT_CTRL = .word ((c.succeeded pre).foldl Call.apply m)

/-- No call that the device accepts comes while the word asked for (`w`, by
every call in range so far) and the mask granted (`m`, by those the device
accepted) differ on a port that the call does not name. `n` is the number of
the next transaction. -/
def Known (accepts : ℕ → Bool) : ℕ → BitVec 32 → BitVec 32 → List Call → Prop
  | _, _, _, [] => True
  | n, w, m, c :: cs =>
    if c.InRange then
      (accepts n = true → c.AgreeOff w m) ∧
        Known accepts (n + 1) (c.apply w) (if accepts n = true then c.apply m else m) cs
    else Known accepts n w m cs

instance decidableKnown (accepts : ℕ → Bool) : ∀ (n : ℕ) (w m : BitVec 32) (cs : List Call),
    Decidable (Known accepts n w m cs)
  | _, _, _, [] => .isTrue trivial
  | n, w, m, c :: cs =>
    have := decidableKnown accepts (n + 1) (c.apply w) (if accepts n = true then c.apply m else m) cs
    have := decidableKnown accepts n w m cs
    inferInstanceAs (Decidable (if c.InRange then (accepts n = true → c.AgreeOff w m) ∧
      Known accepts (n + 1) (c.apply w) (if accepts n = true then c.apply m else m) cs
      else Known accepts n w m cs))

theorem maskLaw_cons (c : Chopper Bank) (m : BitVec 32) (call : Call) (cs : List Call) :
    c.MaskLaw m (call :: cs) ↔ c.link.vals ATT_USB_PORT_CTRL = .word m ∧
      (c.step call).2.MaskLaw (if (c.step call).1 = false then call.apply m else m) cs := by
  rw [MaskLaw, Mealy.forall_prefix_cons]
  refine and_congr Iff.rfl (forall₂_congr fun pre _ => ?_)
  cases h : (c.step call).1 <;> simp [succeeded, h]

/-- The attribute set to `val`, a transaction later. -/
def kept (c : Chopper Bank) (val : BitVec 32) : Chopper Bank :=
  { c with link := c.link.tick, mAttUsbPortCtrl := c.mAttUsbPortCtrl.set (·.setValueUint32 val) }

/-- And the device's mask, too. -/
def wrote (c : Chopper Bank) (val : BitVec 32) : Chopper Bank :=
  { c.kept val with link := c.link.tick.put ATT_USB_PORT_CTRL (.word val) }

theorem write_refused {c : Chopper Bank} (val : BitVec 32) (hc : c.link.connected = true)
    (ha : c.link.accepts c.link.n = false) : c.writeUsbPortCtrl val = (true, c.kept val) := by
  rw [writeUsbPortCtrl, Bank.write_refused _ hc ha]
  rfl

theorem write_accepted {c : Chopper Bank} (val : BitVec 32) (hc : c.link.connected = true)
    (ha : c.link.accepts c.link.n = true) : c.writeUsbPortCtrl val = (false, c.wrote val) := by
  rw [writeUsbPortCtrl, Bank.write_word _ _ hc ha]
  rfl

@[simp] theorem getValueUint32_kept (c : Chopper Bank) (val : BitVec 32) :
    (c.kept val).mAttUsbPortCtrl.getValueUint32 = val := AttOf.getValueUint32_set _ val

@[simp] theorem getValueUint32_wrote (c : Chopper Bank) (val : BitVec 32) :
    (c.wrote val).mAttUsbPortCtrl.getValueUint32 = val := AttOf.getValueUint32_set _ val

/-- The law from any state of an open object, by induction on the calls: the
attribute always holds the word asked for. -/
theorem maskLaw_iff : ∀ (cs : List Call) {c : Chopper Bank} {m : BitVec 32}, c.link.connected = true →
    c.link.vals ATT_USB_PORT_CTRL = .word m →
    (c.MaskLaw m cs ↔ Known c.link.accepts c.link.n c.mAttUsbPortCtrl.getValueUint32 m cs)
  | [], c, m, _, hm => by
    refine iff_of_true (fun pre hp => ?_) trivial
    rw [List.prefix_nil.mp hp]
    exact hm
  | call :: cs, c, m, hc, hm => by
    rw [maskLaw_cons, and_iff_right hm, Known, step_eq]
    by_cases hr : call.InRange
    · rw [if_pos hr, if_pos hr]
      set w := call.apply c.mAttUsbPortCtrl.getValueUint32 with hw
      cases ha : c.link.accepts c.link.n with
      | true =>
        have hput : (c.wrote w).link.vals ATT_USB_PORT_CTRL = .word w := Bank.put_vals_self _ _ _
        have ih := maskLaw_iff cs (c := c.wrote w) hc hput
        rw [getValueUint32_wrote] at ih
        simp only [write_accepted w hc ha, ↓reduceIte, forall_const, ← call.apply_eq_iff, ← hw]
        by_cases he : w = call.apply m
        · rw [and_iff_right he, ← he]
          exact ih
        · -- the device now has a mask that the law does not allow
          refine iff_of_false (fun hl => he ?_) (fun hk => he hk.1)
          exact Value.word_inj.mp (hput.symm.trans (hl [] List.nil_prefix))
      | false =>
        have ih := maskLaw_iff cs (c := c.kept w) hc hm
        rw [getValueUint32_kept] at ih
        simp only [write_refused w hc ha, Bool.true_eq_false, Bool.false_eq_true, ↓reduceIte, false_imp_iff,
          true_and]
        exact ih
    · rw [if_neg hr, if_neg hr]
      exact maskLaw_iff cs hc hm

/-- After an `open` that succeeds: the device's mask is in the attribute if
the last of the six reads succeeded. -/
theorem openPath_link {c₀ c : Chopper Bank} {vals : AttId → Value} {m : BitVec 32}
    (hopen : c₀.openPath (some (some vals)) = (false, c)) (hm : vals ATT_USB_PORT_CTRL = .word m) :
    c.link = { c₀.link with connected := true, vals, n := c₀.link.n + 6 } ∧
      c.mAttUsbPortCtrl.getValueUint32 =
        if c₀.link.accepts (c₀.link.n + 5) = true then m else c₀.mAttUsbPortCtrl.getValueUint32 := by
  unfold openPath at hopen
  rcases h : c₀.core.openPath c₀.link (some (some vals)) with ⟨_ | _, core, link⟩
  · obtain ⟨-, _, hv, hl⟩ := Bank.openPath_link h
    cases hv
    subst hl
    rw [h] at hopen
    cases ha : c₀.link.accepts (c₀.link.n + 5) with
    | true =>
      have hr := Bank.read_word (d := { c₀.link with connected := true, vals, n := c₀.link.n + 5 })
        c₀.mAttUsbPortCtrl rfl ha hm
      simp only [hr] at hopen
      cases hopen
      exact ⟨rfl, AttOf.getValueUint32_set _ m⟩
    | false =>
      have hr := Bank.read_refused (d := { c₀.link with connected := true, vals, n := c₀.link.n + 5 })
        c₀.mAttUsbPortCtrl rfl ha
      simp only [hr] at hopen
      cases hopen
      exact ⟨rfl, rfl⟩
  · rw [h] at hopen
    cases hopen

/-- After an `open` that succeeds, the device's mask is at every point the
one it had with the successful calls applied in order, exactly when no call
that the device accepts comes while the words asked for and granted differ
on another port than the call names. The word asked for starts at the mask
if the read of `open` succeeded, and at the attribute's old word if not. -/
theorem usbPort_law_iff (c₀ : Chopper Bank) {c : Chopper Bank} (vals : AttId → Value) {m : BitVec 32}
    (hopen : c₀.openPath (some (some vals)) = (false, c)) (hm : vals ATT_USB_PORT_CTRL = .word m)
    (cs : List Call) :
    c.MaskLaw m cs ↔ Known c₀.link.accepts (c₀.link.n + 6)
      (if c₀.link.accepts (c₀.link.n + 5) = true then m else c₀.mAttUsbPortCtrl.getValueUint32) m cs := by
  obtain ⟨hl, hw⟩ := openPath_link hopen hm
  rw [← hw, maskLaw_iff cs (by rw [hl]) (by rw [hl]; exact hm), hl]

/-- A closed object, and a device that accepts as given. -/
def fresh (accepts : ℕ → Bool) : Chopper Bank where
  core := .blank
  link := { Bank.holding fun _ => .word 0 with connected := false, accepts }
  mAttUsbPortCtrl := .new Attvalue.zeros Attvalue.length_zeros _

/-- And opened on a device whose ports are all off. -/
def opened (accepts : ℕ → Bool) : Chopper Bank := ((fresh accepts).openPath (some (some fun _ => .word 0))).2

theorem usbPort_law_iff_accepted :
    (opened fun _ => true).MaskLaw 0 [.enableUsbPort 1, .enableUsbPort 0, .disableAllUsbPort, .enableUsbPort 32] :=
  (usbPort_law_iff (fresh fun _ => true) (fun _ => .word 0) (Prod.ext (by decide) rfl) rfl _).mpr
    (by decide)

/-- Port 1 is refused and port 2 accepted: both are on. -/
theorem refused_call_leaks : ¬ ∀ (c₀ c : Chopper Bank) (vals : AttId → Value) (m : BitVec 32) (cs : List Call),
    c₀.openPath (some (some vals)) = (false, c) → vals ATT_USB_PORT_CTRL = .word m → c.MaskLaw m cs := by
  intro h
  have hl := h (fresh (· != 6)) (opened (· != 6)) (fun _ => .word 0) 0 [.enableUsbPort 1, .enableUsbPort 2]
    (Prod.ext (by decide) rfl) rfl _ (List.prefix_refl _)
  exact absurd hl (by decide)

/-! ### The port status -/

/-- What a call sets port `i + 1` to, if it concerns it. -/
def Call.level (i : ℕ) : Call → Option Bool
  | .enableAllUsbPort => some true
  | .enableUsbPort p => if p.toNat = i + 1 then some true else none
  | .disableAllUsbPort => some false
  | .disableUsbPort p => if p.toNat = i + 1 then some false else none

/-- What the last of the calls that concerned port `i + 1` set it to, or `b`
if none did. -/
def portOn (b : Bool) (i : ℕ) (cs : List Call) : Bool :=
  (cs.reverse.findSome? (Call.level i)).getD b

theorem portOn_cons (b : Bool) (i : ℕ) (c : Call) (cs : List Call) :
    portOn b i (c :: cs) = portOn ((c.level i).getD b) i cs := by
  unfold portOn
  rw [List.reverse_cons, List.findSome?_append]
  cases cs.reverse.findSome? (Call.level i) with
  | some b' => rfl
  | none => rcases h : c.level i with _ | b' <;> simp [h]

theorem Call.level_of_not_inRange {c : Call} (h : ¬ c.InRange) {i : ℕ} (hi : i < 32) :
    c.level i = none := by
  have hno (p : BitVec 32) (b : Bool) (hp : ¬ (p ≠ 0 ∧ p.toNat ≤ 32)) :
      (if p.toNat = i + 1 then some b else none) = none := by
    refine if_neg fun he => hp ⟨fun h0 => ?_, by omega⟩
    rw [h0] at he
    cases he
  rcases c with _ | p | _ | p
  · exact absurd trivial h
  · exact hno p true h
  · exact absurd trivial h
  · exact hno p false h

theorem Call.getLsbD_apply {c : Call} (h : c.InRange) (m : BitVec 32) {i : ℕ} (hi : i < 32) :
    (c.apply m).getLsbD i = (c.level i).getD (m.getLsbD i) := by
  have hone (p : BitVec 32) (b : Bool) (hp : p ≠ 0 ∧ p.toNat ≤ 32) : (putBit m (p.toNat - 1) b).getLsbD i =
      (if p.toNat = i + 1 then some b else none).getD (m.getLsbD i) := by
    have hpos : p.toNat ≠ 0 := fun h0 => hp.1 (BitVec.eq_of_toNat_eq h0)
    rw [getLsbD_putBit m _ b hi]
    by_cases he : p.toNat = i + 1
    · rw [if_pos (by omega), if_pos he, Option.getD_some]
    · rw [if_neg (by omega), if_neg he, Option.getD_none]
  rcases c with _ | p | _ | p
  · show (BitVec.allOnes 32).getLsbD i = true
    rw [BitVec.getLsbD_allOnes, decide_eq_true hi]
  · exact hone p true h
  · exact BitVec.getLsbD_zero
  · exact hone p false h

theorem portOn_of_not_inRange (b : Bool) {i : ℕ} (hi : i < 32) :
    ∀ {cs : List Call}, (∀ c ∈ cs, ¬ c.InRange) → portOn b i cs = b
  | [], _ => rfl
  | c :: cs, h => by
    have hc := Call.level_of_not_inRange (h c List.mem_cons_self) hi
    rw [portOn_cons, hc, Option.getD_none]
    exact portOn_of_not_inRange b hi fun c' hc' => h c' (List.mem_cons_of_mem c hc')

/-- Where the device takes every call in range, its mask is what they ask of
the attribute's word; with none, it is as it was. -/
theorem after_accepted : ∀ (cs : List Call) {c : Chopper Bank} {m : BitVec 32} {k : ℕ},
    c.link.Takes (cs.countP (·.InRange) + k) → c.link.vals ATT_USB_PORT_CTRL = .word m →
    (Mealy.after step c cs).link.Takes k ∧
      ∃ mask : BitVec 32, (Mealy.after step c cs).link.vals ATT_USB_PORT_CTRL = .word mask ∧
        ∀ i < 32, mask.getLsbD i = if ∃ call ∈ cs, call.InRange then
          portOn (c.mAttUsbPortCtrl.getValueUint32.getLsbD i) i cs else m.getLsbD i
  | [], c, m, k, ht, hm => by
    refine ⟨by simpa using ht, m, hm, fun i _ => ?_⟩
    rw [if_neg (by rintro ⟨c, hc, -⟩; cases hc)]
  | call :: cs, c, m, k, ht, hm => by
    rw [Mealy.after_cons, step_eq]
    by_cases hr : call.InRange
    · rw [List.countP_cons, if_pos (decide_eq_true hr), Nat.add_right_comm] at ht
      set w := call.apply c.mAttUsbPortCtrl.getValueUint32 with hw
      have hfirst := Bank.takes_one.mp ht.first
      have hput : (c.wrote w).link.vals ATT_USB_PORT_CTRL = .word w := Bank.put_vals_self _ _ _
      rw [if_pos hr, write_accepted w hfirst.1 hfirst.2]
      obtain ⟨hk, mask, hv, hb⟩ := after_accepted cs (c := c.wrote w) (m := w) (k := k) ht.rest hput
      refine ⟨hk, mask, hv, fun i hi => ?_⟩
      have hwi : w.getLsbD i = (call.level i).getD (c.mAttUsbPortCtrl.getValueUint32.getLsbD i) :=
        Call.getLsbD_apply hr _ hi
      have hmade : ∃ c' ∈ call :: cs, c'.InRange := ⟨call, List.mem_cons_self, hr⟩
      rw [hb i hi, if_pos hmade, portOn_cons, ← hwi, getValueUint32_wrote]
      by_cases hany : ∃ c' ∈ cs, c'.InRange
      · rw [if_pos hany]
      · rw [if_neg hany, portOn_of_not_inRange _ hi fun c' hc' hr' => hany ⟨c', hc', hr'⟩]
    · rw [List.countP_cons, if_neg (by simpa using hr), Nat.add_zero] at ht
      rw [if_neg hr]
      obtain ⟨hk, mask, hv, hb⟩ := after_accepted cs ht hm
      refine ⟨hk, mask, hv, fun i hi => ?_⟩
      rw [hb i hi, portOn_cons, Call.level_of_not_inRange hr hi, Option.getD_none]
      simp only [List.exists_mem_cons_iff, hr, false_or]

/-- What `getUsbPortStatus` owes after the calls: the device's mask, with
each port as the last call that concerned it left it, or as it was in `m`. -/
def StatusLaw (c : Chopper Bank) (m : BitVec 32) (cs : List Call) : Prop :=
  let c' := Mealy.after step c cs
  c'.link.vals ATT_USB_PORT_CTRL = .word c'.getUsbPortStatus.1 ∧
    ∀ i < 32, c'.getUsbPortStatus.1.getLsbD i = portOn (m.getLsbD i) i cs

/-- A status whose read succeeds is 0. -/
theorem getUsbPortStatus_of_takes {c : Chopper Bank} (h : c.link.Takes 1) :
    c.getUsbPortStatus.1 = 0 := by
  rw [getUsbPortStatus, Bank.read_taken _ h]
  rfl

/-- After an `open` that succeeds, calls that the device all accepts and a
`getUsbPortStatus` whose read it accepts, the status is the mask exactly when
every port is off: by the calls and the mask at `open`, and, if a call was
made, by the calls and the attribute's word after `open`. -/
theorem usbPortStatus_law_iff (c₀ : Chopper Bank) {c : Chopper Bank} (vals : AttId → Value) {m : BitVec 32}
    (hopen : c₀.openPath (some (some vals)) = (false, c)) (hm : vals ATT_USB_PORT_CTRL = .word m)
    (cs : List Call) (ht : c.link.Takes (cs.countP (·.InRange) + 1)) :
    c.StatusLaw m cs ↔ ∀ i < 32, portOn (m.getLsbD i) i cs = false ∧ ((∃ call ∈ cs, call.InRange) →
      portOn ((if c₀.link.accepts (c₀.link.n + 5) = true then m
        else c₀.mAttUsbPortCtrl.getValueUint32).getLsbD i) i cs = false) := by
  obtain ⟨hl, hw⟩ := openPath_link hopen hm
  have hv : c.link.vals ATT_USB_PORT_CTRL = .word m := by
    rw [hl]
    exact hm
  obtain ⟨hk, mask, hmask, hb⟩ := after_accepted cs ht hv
  rw [StatusLaw, getUsbPortStatus_of_takes hk, hmask, Value.word_inj, ← hw]
  have hzero : mask = 0 ↔ ∀ i < 32, mask.getLsbD i = false := by
    refine ⟨fun h i _ => by rw [h]; exact BitVec.getLsbD_zero, fun h => BitVec.eq_of_getLsbD_eq fun i hi => ?_⟩
    exact (h i hi).trans BitVec.getLsbD_zero.symm
  have hall : (∀ i < 32, (0 : BitVec 32).getLsbD i = portOn (m.getLsbD i) i cs) ↔
      ∀ i < 32, portOn (m.getLsbD i) i cs = false := by
    refine forall₂_congr fun i _ => ?_
    rw [show (0 : BitVec 32).getLsbD i = false from BitVec.getLsbD_zero]
    exact eq_comm
  rw [hzero, hall, ← forall₂_and]
  refine forall₂_congr fun i hi => ?_
  rw [hb i hi, and_comm]
  by_cases hany : ∃ call ∈ cs, call.InRange
  · simp only [hany, ↓reduceIte, forall_const]
  · have hno := portOn_of_not_inRange (m.getLsbD i) hi fun c' hc' hr' => hany ⟨c', hc', hr'⟩
    simp only [hany, ↓reduceIte, hno, false_imp_iff, and_true, and_self]

theorem usbPortStatus_law_iff_off : (opened fun _ => true).StatusLaw 0 [.enableUsbPort 3, .disableUsbPort 3] :=
  (usbPortStatus_law_iff (fresh fun _ => true) (fun _ => .word 0) (Prod.ext (by decide) rfl) rfl
    [.enableUsbPort 3, .disableUsbPort 3] ⟨by decide, fun _ _ => rfl⟩).mpr (by decide)

/-- Port 1 is on and the status is 0. -/
theorem usbPortStatus_zero : ¬ ∀ (c₀ c : Chopper Bank) (vals : AttId → Value) (m : BitVec 32) (cs : List Call),
    c₀.openPath (some (some vals)) = (false, c) → vals ATT_USB_PORT_CTRL = .word m →
      c.link.Takes (cs.countP (·.InRange) + 1) → c.StatusLaw m cs := by
  intro h
  have hl := (h (fresh fun _ => true) (opened fun _ => true) (fun _ => .word 0) 0 [.enableUsbPort 1]
    (Prod.ext (by decide) rfl) rfl ⟨by decide, fun _ _ => rfl⟩).2 0 (by decide)
  exact absurd hl (by decide)

end Chopper

end ToolbitSdk
