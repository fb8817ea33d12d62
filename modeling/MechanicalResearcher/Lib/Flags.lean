import Mathlib.Algebra.Group.Int.Defs
import Mathlib.Algebra.Group.Nat.Defs
import Mathlib.Tactic.Common

/-!
# Flags of sums and differences

Carry, borrow and signed overflow of words of any width, by the sign bits of the operands and of
the result, and the order of two words by the flags of their difference.
-/

namespace MechanicalResearcher.Lib.Flags

variable {w : ℕ} {x y r : BitVec w}

/-- The numbers that a signed word of this width holds. -/
def InSigned (w : ℕ) (i : Int) : Prop := -(2 ^ (w - 1) : ℕ) ≤ i ∧ i < (2 ^ (w - 1) : ℕ)

instance (w : ℕ) (i : Int) : Decidable (InSigned w i) := inferInstanceAs (Decidable (_ ∧ _))

theorem two_pow_eq (hw : 0 < w) : 2 ^ w = 2 * 2 ^ (w - 1) := by
  obtain ⟨n, rfl⟩ : ∃ n, w = n + 1 := ⟨w - 1, by omega⟩
  rw [Nat.pow_succ, Nat.mul_comm]
  rfl

theorem msb_iff (x : BitVec w) : x.msb = true ↔ 2 ^ (w - 1) ≤ x.toNat := by
  rw [BitVec.msb_eq_decide, decide_eq_true_iff]

/-- The word of a sum. -/
def IsSum (x y r : BitVec w) : Prop := r.toNat = (x.toNat + y.toNat) % 2 ^ w

theorem isSum_add (x y : BitVec w) : IsSum x y (y + x) := by
  rw [IsSum, BitVec.toNat_add, Nat.add_comm]

theorem IsSum.split (h : IsSum x y r) :
    x.toNat + y.toNat = r.toNat ∨ x.toNat + y.toNat = r.toNat + 2 ^ w := by
  have hx := x.isLt
  have hy := y.isLt
  rw [IsSum] at h
  have hdiv := Nat.div_add_mod (x.toNat + y.toNat) (2 ^ w)
  have hlt : (x.toNat + y.toNat) / 2 ^ w < 2 := Nat.div_lt_of_lt_mul (by omega)
  generalize (x.toNat + y.toNat) / 2 ^ w = q at hdiv hlt
  obtain hq | hq : q = 0 ∨ q = 1 := by omega
  all_goals subst hq; omega

theorem IsSum.carry_iff (h : IsSum x y r) (hw : 0 < w) :
    ((x.msb = true ∧ y.msb = true) ∨ (r.msb = false ∧ (x.msb = true ∨ y.msb = true))) ↔
      2 ^ w ≤ x.toNat + y.toNat := by
  have hx := x.isLt
  have hy := y.isLt
  have hr := r.isLt
  have hpow := two_pow_eq hw
  rw [← Bool.not_eq_true, msb_iff, msb_iff, msb_iff]
  obtain hsum | hsum := h.split <;> omega

theorem IsSum.overflow_iff (h : IsSum x y r) (hw : 0 < w) :
    (x.msb = y.msb ∧ r.msb ≠ x.msb) ↔ ¬InSigned w (x.toInt + y.toInt) := by
  have hx := x.isLt
  have hy := y.isLt
  have hr := r.isLt
  have hpow := two_pow_eq hw
  have hmx := msb_iff x
  have hmy := msb_iff y
  have hmr := msb_iff r
  rw [InSigned, BitVec.toInt_eq_msb_cond, BitVec.toInt_eq_msb_cond]
  cases hsx : x.msb <;> cases hsy : y.msb <;> cases hsr : r.msb <;>
    simp only [hsx, hsy, hsr, true_iff, Bool.false_eq_true, false_iff, if_true, if_false]
      at hmx hmy hmr ⊢ <;>
    obtain hsum | hsum := h.split <;>
    simp only [ne_eq, reduceCtorEq, not_true_eq_false, not_false_eq_true, and_true, and_false,
      and_self, false_iff, true_iff, not_not] <;> omega

/-- The word of the difference `y - x`. -/
def IsDifference (x y r : BitVec w) : Prop :=
  r.toNat = (y.toNat + (2 ^ w - x.toNat)) % 2 ^ w

theorem isDifference_sub (x y : BitVec w) : IsDifference x y (y - x) := by
  rw [IsDifference, BitVec.toNat_sub, Nat.add_comm]

theorem IsDifference.split (h : IsDifference x y r) :
    y.toNat = r.toNat + x.toNat ∨ y.toNat + 2 ^ w = r.toNat + x.toNat := by
  have hx := x.isLt
  have hy := y.isLt
  rw [IsDifference] at h
  have hdiv := Nat.div_add_mod (y.toNat + (2 ^ w - x.toNat)) (2 ^ w)
  have hlt : (y.toNat + (2 ^ w - x.toNat)) / 2 ^ w < 2 := Nat.div_lt_of_lt_mul (by omega)
  generalize (y.toNat + (2 ^ w - x.toNat)) / 2 ^ w = q at hdiv hlt
  obtain hq | hq : q = 0 ∨ q = 1 := by omega
  all_goals subst hq; omega

theorem IsDifference.borrow_iff (h : IsDifference x y r) (hw : 0 < w) :
    ((y.msb = false ∧ x.msb = true) ∨ (r.msb = true ∧ (y.msb = false ∨ x.msb = true))) ↔
      y.toNat < x.toNat := by
  have hx := x.isLt
  have hy := y.isLt
  have hr := r.isLt
  have hpow := two_pow_eq hw
  rw [← Bool.not_eq_true, msb_iff, msb_iff, msb_iff]
  obtain hsum | hsum := h.split <;> omega

theorem IsDifference.overflow_iff (h : IsDifference x y r) (hw : 0 < w) :
    (x.msb ≠ y.msb ∧ r.msb = x.msb) ↔ ¬InSigned w (y.toInt - x.toInt) := by
  have hx := x.isLt
  have hy := y.isLt
  have hr := r.isLt
  have hpow := two_pow_eq hw
  have hmx := msb_iff x
  have hmy := msb_iff y
  have hmr := msb_iff r
  rw [InSigned, BitVec.toInt_eq_msb_cond, BitVec.toInt_eq_msb_cond]
  cases hsx : x.msb <;> cases hsy : y.msb <;> cases hsr : r.msb <;>
    simp only [hsx, hsy, hsr, true_iff, Bool.false_eq_true, false_iff, if_true, if_false]
      at hmx hmy hmr ⊢ <;>
    obtain hsum | hsum := h.split <;>
    simp only [ne_eq, reduceCtorEq, not_true_eq_false, not_false_eq_true, and_true, and_false,
      and_self, false_iff, true_iff, not_not] <;> omega

theorem sub_eq_zero_iff (x y : BitVec w) : y - x = 0 ↔ y = x := by
  constructor
  · intro h
    have hadd := congrArg (· + x) h
    simpa [BitVec.sub_add_cancel] using hadd
  · intro h
    rw [h]
    exact BitVec.sub_self x

theorem IsDifference.lt_iff (h : IsDifference x y r) (hw : 0 < w) :
    y.toInt < x.toInt ↔ ¬(r.msb = true ↔ ¬InSigned w (y.toInt - x.toInt)) := by
  have hover := h.overflow_iff hw
  have hx := x.isLt
  have hy := y.isLt
  have hr := r.isLt
  have hpow := two_pow_eq hw
  have hmx := msb_iff x
  have hmy := msb_iff y
  have hmr := msb_iff r
  rw [← hover, BitVec.toInt_eq_msb_cond, BitVec.toInt_eq_msb_cond]
  cases hsx : x.msb <;> cases hsy : y.msb <;> cases hsr : r.msb <;>
    simp only [hsx, hsy, hsr, true_iff, Bool.false_eq_true, false_iff, if_true, if_false]
      at hmx hmy hmr ⊢ <;>
    obtain hsum | hsum := h.split <;>
    simp only [ne_eq, reduceCtorEq, not_true_eq_false, not_false_eq_true, and_true, and_false,
      and_self, iff_true, iff_false] <;> omega

end MechanicalResearcher.Lib.Flags
