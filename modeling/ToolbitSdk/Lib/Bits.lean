/-
# One bit of a word

Setting and clearing a bit of a word as C code does it, with `1 << i`. Each
bit of the result is given (`getLsbD_putBit`), and two words are the same
after it exactly when they agree on the other bits (`putBit_eq_iff`).
-/
import Mathlib.Data.BitVec

namespace Bits

variable {w : ℕ}

def setBit (a : BitVec w) (i : ℕ) : BitVec w := a ||| 1#w <<< i

def clearBit (a : BitVec w) (i : ℕ) : BitVec w := a &&& ~~~(1#w <<< i)

/-- The words agree on every bit but `i`. -/
def AgreeOff (i : ℕ) (a b : BitVec w) : Prop := ∀ j, j < w → j ≠ i → a.getLsbD j = b.getLsbD j

instance (i : ℕ) (a b : BitVec w) : Decidable (AgreeOff i a b) :=
  inferInstanceAs (Decidable (∀ j, j < w → j ≠ i → a.getLsbD j = b.getLsbD j))

theorem getLsbD_one_shiftLeft {i j : ℕ} (h : j < w) : (1#w <<< i).getLsbD j = decide (j = i) := by
  rw [BitVec.getLsbD_shiftLeft, BitVec.getLsbD_one]
  simp only [h, decide_true, Bool.true_and]
  by_cases hji : j = i
  · subst hji; simp; omega
  · simp only [hji, decide_false, Bool.and_eq_false_imp, Bool.not_eq_true', decide_eq_false_iff_not]
    intro h1 _
    omega

theorem getLsbD_setBit (a : BitVec w) (i : ℕ) {j : ℕ} (h : j < w) :
    (setBit a i).getLsbD j = if j = i then true else a.getLsbD j := by
  rw [setBit, BitVec.getLsbD_or, getLsbD_one_shiftLeft h]
  by_cases hji : j = i <;> simp [hji]

theorem getLsbD_clearBit (a : BitVec w) (i : ℕ) {j : ℕ} (h : j < w) :
    (clearBit a i).getLsbD j = if j = i then false else a.getLsbD j := by
  rw [clearBit, BitVec.getLsbD_and, BitVec.getLsbD_not, getLsbD_one_shiftLeft h]
  by_cases hji : j = i <;> simp [hji, h]

/-- Bit `i` set or cleared. -/
def putBit (a : BitVec w) (i : ℕ) (b : Bool) : BitVec w := if b then setBit a i else clearBit a i

theorem getLsbD_putBit (a : BitVec w) (i : ℕ) (b : Bool) {j : ℕ} (h : j < w) :
    (putBit a i b).getLsbD j = if j = i then b else a.getLsbD j := by
  cases b with
  | true => exact getLsbD_setBit a i h
  | false => exact getLsbD_clearBit a i h

theorem AgreeOff.refl (i : ℕ) (a : BitVec w) : AgreeOff i a a := fun _ _ _ => rfl

theorem AgreeOff.symm {i : ℕ} {a b : BitVec w} (h : AgreeOff i a b) : AgreeOff i b a :=
  fun j hj hne => (h j hj hne).symm

theorem AgreeOff.trans {i : ℕ} {a b c : BitVec w} (h : AgreeOff i a b) (h' : AgreeOff i b c) :
    AgreeOff i a c :=
  fun j hj hne => (h j hj hne).trans (h' j hj hne)

theorem agreeOff_putBit (a : BitVec w) (i : ℕ) (b : Bool) : AgreeOff i (putBit a i b) a :=
  fun j hj hne => by rw [getLsbD_putBit a i b hj, if_neg hne]

theorem agreeOff_putBit_iff (a b : BitVec w) (i : ℕ) (v : Bool) :
    AgreeOff i (putBit a i v) b ↔ AgreeOff i a b :=
  ⟨(agreeOff_putBit a i v).symm.trans, (agreeOff_putBit a i v).trans⟩

theorem putBit_eq_iff (a b : BitVec w) (i : ℕ) (v : Bool) :
    putBit a i v = putBit b i v ↔ AgreeOff i a b := by
  refine ⟨fun h j hj hne => ?_, fun h => BitVec.eq_of_getLsbD_eq fun j hj => ?_⟩
  · have hbit := congrArg (BitVec.getLsbD · j) h
    simpa only [getLsbD_putBit _ _ _ hj, if_neg hne] using hbit
  · rw [getLsbD_putBit _ _ _ hj, getLsbD_putBit _ _ _ hj]
    split_ifs with hji
    · rfl
    · exact h j hj hji

theorem putBit_eq_self_iff (a : BitVec w) (v : Bool) {i : ℕ} (h : i < w) :
    putBit a i v = a ↔ a.getLsbD i = v := by
  constructor
  · intro he
    have hi := getLsbD_putBit a i v h
    rwa [he, if_pos rfl] at hi
  · intro hv
    refine BitVec.eq_of_getLsbD_eq fun j hj => ?_
    rw [getLsbD_putBit a i v hj]
    split_ifs with hji
    · rw [hji, hv]
    · rfl

/-- `w & 1 << i` is not 0 when bit `i` is set, and only then. -/
theorem and_one_shiftLeft_ne_zero_iff (a : BitVec w) {i : ℕ} (h : i < w) :
    (a &&& 1#w <<< i) ≠ 0#w ↔ a.getLsbD i = true := by
  constructor
  · intro hne
    by_contra hf
    apply hne
    refine BitVec.eq_of_getLsbD_eq fun j hj => ?_
    rw [BitVec.getLsbD_and, getLsbD_one_shiftLeft hj, BitVec.getLsbD_zero]
    by_cases hji : j = i
    · subst hji; simpa using hf
    · simp [hji]
  · intro hb h0
    have hbit := congrArg (BitVec.getLsbD · i) h0
    simp [getLsbD_one_shiftLeft h, hb] at hbit

end Bits
