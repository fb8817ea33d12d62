import Mathlib.Logic.Function.Iterate
import Mathlib.Tactic.Common

/-!
# Shifts and rotates, one bit at a time

The closed forms of repeated shifts by one bit, for words of any width, and the bit that the last
of them moves out.
-/

namespace MechanicalResearcher.Lib.Shifts

variable {w : ℕ}

theorem getLsbD_rotateRight_mod (x : BitVec w) {n i : ℕ} (hi : i < w) :
    (x.rotateRight n).getLsbD i = x.getLsbD ((n + i) % w) := by
  have hn : n % w < w := Nat.mod_lt _ (by omega)
  have hsum : (n + i) % w = (n % w + i) % w := (Nat.mod_add_mod n w i).symm
  rw [BitVec.getLsbD_rotateRight, hsum]
  by_cases hlt : i < w - n % w
  · rw [decide_eq_true hlt, cond_true,
      Nat.mod_eq_of_lt (show n % w + i < w by omega)]
  · have hmod : (n % w + i) % w = i - (w - n % w) := by
      rw [Nat.mod_eq_sub_mod (by omega), Nat.mod_eq_of_lt (by omega)]
      omega
    rw [decide_eq_false hlt, cond_false, decide_eq_true hi, Bool.true_and, hmod]

theorem rotateRight_succ (x : BitVec w) (n : ℕ) :
    x.rotateRight (n + 1) = (x.rotateRight n).rotateRight 1 := by
  apply BitVec.eq_of_getLsbD_eq
  intro i hi
  have hmod : (1 + i) % w < w := Nat.mod_lt _ (by omega)
  rw [getLsbD_rotateRight_mod x hi, getLsbD_rotateRight_mod _ hi, getLsbD_rotateRight_mod x hmod,
    Nat.add_mod_mod, Nat.add_assoc]

theorem rotateRight_zero (x : BitVec w) : x.rotateRight 0 = x := by
  apply BitVec.eq_of_getLsbD_eq
  intro i hi
  rw [getLsbD_rotateRight_mod x hi, Nat.zero_add, Nat.mod_eq_of_lt hi]

theorem iterate_shiftLeft (x : BitVec w) (n : ℕ) : (fun y : BitVec w => y <<< 1)^[n] x =
    x <<< n := by
  induction n with
  | zero => exact (BitVec.shiftLeft_zero x).symm
  | succ n ih => rw [Function.iterate_succ_apply', ih, BitVec.shiftLeft_add]

theorem iterate_ushiftRight (x : BitVec w) (n : ℕ) : (fun y : BitVec w => y >>> 1)^[n] x =
    x >>> n := by
  induction n with
  | zero => exact (BitVec.ushiftRight_zero x).symm
  | succ n ih => rw [Function.iterate_succ_apply', ih, BitVec.shiftRight_add]

theorem iterate_sshiftRight (x : BitVec w) (n : ℕ) :
    (BitVec.sshiftRight · 1)^[n] x = x.sshiftRight n := by
  induction n with
  | zero => exact (BitVec.sshiftRight_zero ..).symm
  | succ n ih => rw [Function.iterate_succ_apply', ih, BitVec.sshiftRight_add]

theorem iterate_rotateRight (x : BitVec w) (n : ℕ) :
    (BitVec.rotateRight · 1)^[n] x = x.rotateRight n := by
  induction n with
  | zero => exact (rotateRight_zero x).symm
  | succ n ih =>
    rw [Function.iterate_succ_apply', ih]
    exact (rotateRight_succ x n).symm

theorem msb_shiftLeft_pred (x : BitVec w) (n : ℕ) :
    (x <<< n).msb = (decide (n + 1 ≤ w) && x.getLsbD (w - (n + 1))) := by
  rw [BitVec.msb_eq_getLsbD_last, BitVec.getLsbD_shiftLeft]
  by_cases h : n + 1 ≤ w
  · have hidx : w - 1 - n = w - (n + 1) := by omega
    simp [h, hidx, show w - 1 < w by omega, show ¬w - 1 < n by omega]
  · by_cases hw : w = 0
    · subst hw
      simp
    · simp [h, show w - 1 < n by omega]

theorem lsb_sshiftRight (x : BitVec w) (n : ℕ) (hw : 0 < w) :
    (x.sshiftRight n).getLsbD 0 = if n + 1 ≤ w then x.getLsbD n else x.msb := by
  rw [BitVec.getLsbD_sshiftRight]
  simp [show ¬w ≤ 0 by omega, Nat.succ_le_iff]

theorem lsb_ushiftRight (x : BitVec w) (n : ℕ) : (x >>> n).getLsbD 0 = x.getLsbD n := by
  rw [BitVec.getLsbD_ushiftRight, Nat.add_zero]

theorem lsb_rotateRight (x : BitVec w) (n : ℕ) (hw : 0 < w) :
    (x.rotateRight n).getLsbD 0 = x.getLsbD (n % w) := by
  rw [getLsbD_rotateRight_mod x hw, Nat.add_zero]

end MechanicalResearcher.Lib.Shifts
