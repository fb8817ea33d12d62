import Mathlib.Algebra.Group.Nat.Defs
import Mathlib.Data.List.Basic
import Mathlib.Tactic.Common

/-!
# Bits of words

A mask of one bit tests this bit, a mask of low bits takes a field, and a mask of high bits
extends a sign.
-/

namespace MechanicalResearcher.Lib.Bits

variable {n v w : Nat}

theorem and_twoPow_ne_zero (m : BitVec w) {i : Nat} (hi : i < w) :
    m &&& BitVec.twoPow w i ≠ 0 ↔ m.getLsbD i = true := by
  rw [BitVec.and_twoPow]
  have hne : BitVec.twoPow w i ≠ 0#w := by
    intro h
    have hbit := congrArg (fun v => v.getLsbD i) h
    simp [hi] at hbit
  by_cases hm : m.getLsbD i = true <;> simp [hm, hne]

theorem and_twoPow_eq_zero (m : BitVec w) {i : Nat} (hi : i < w) :
    m &&& BitVec.twoPow w i = 0 ↔ m.getLsbD i = false := by
  rw [← not_iff_not, ← ne_eq, and_twoPow_ne_zero m hi, Bool.not_eq_false]

/-- The mask of the low `n` bits. -/
def lowMask (w n : Nat) : BitVec w := BitVec.ofNat w (2 ^ n - 1)

theorem getLsbD_lowMask {i : Nat} (hi : i < w) : (lowMask w n).getLsbD i = decide (i < n) := by
  rw [lowMask, BitVec.getLsbD_ofNat, Nat.testBit_two_pow_sub_one]
  simp [hi]

theorem shiftRight_and_lowMask (x : BitVec v) (h : v ≤ w) (n k : Nat) :
    x.zeroExtend w >>> k &&& lowMask w n = (x.extractLsb' k n).zeroExtend w := by
  apply BitVec.eq_of_getLsbD_eq
  intro i hi
  rw [BitVec.getLsbD_and, getLsbD_lowMask hi]
  simp only [BitVec.getLsbD_ushiftRight, BitVec.truncate_eq_setWidth, BitVec.getLsbD_setWidth,
    BitVec.getLsbD_extractLsb', hi, decide_true, Bool.true_and]
  grind

theorem shiftRight_and_lowMask_self (x : BitVec w) (n k : Nat) :
    x >>> k &&& lowMask w n = (x.extractLsb' k n).zeroExtend w := by
  have hself : x.zeroExtend w = x := BitVec.setWidth_eq x
  have h := shiftRight_and_lowMask x (Nat.le_refl w) n k
  rwa [hself] at h

theorem and_not_lowMask (x : BitVec w) (k : Nat) :
    x &&& ~~~lowMask w k = (x.extractLsb' k (w - k)).zeroExtend w <<< k := by
  apply BitVec.eq_of_getLsbD_eq
  intro i hi
  rw [BitVec.getLsbD_and, BitVec.getLsbD_not, getLsbD_lowMask hi]
  simp [hi]
  grind

theorem sshiftRight_eq_signExtend (x : BitVec w) {k : Nat} (hk : k < w) :
    x.sshiftRight k = (x.extractLsb' k (w - k)).signExtend w := by
  apply BitVec.eq_of_getLsbD_eq
  intro i hi
  have hmsb : (x.extractLsb' k (w - k)).msb = x.msb := by
    simp only [BitVec.msb_eq_getLsbD_last, BitVec.getLsbD_extractLsb']
    grind
  rw [BitVec.getLsbD_sshiftRight, BitVec.getLsbD_signExtend, hmsb, BitVec.getLsbD_extractLsb']
  grind

theorem extract_field (x : BitVec n) {k : Nat} (h : k + n ≤ w) :
    (x.zeroExtend w <<< k).extractLsb' k n = x := by
  ext i hi
  simp
  grind

theorem extract_lowest (x : BitVec n) (h : n ≤ w) : (x.zeroExtend w).extractLsb' 0 n = x := by
  ext i hi
  simp
  grind

theorem extract_below (x : BitVec w) {j k : Nat} (h : j + n ≤ k) :
    (x <<< k).extractLsb' j n = 0#n := by
  ext i hi
  simp
  grind

theorem extract_above (x : BitVec v) {j k : Nat} (h : k + v ≤ j) :
    (x.zeroExtend w <<< k).extractLsb' j n = 0#n := by
  ext i hi
  simp
  grind

theorem extract_above_lowest (x : BitVec v) {j : Nat} (h : v ≤ j) :
    (x.zeroExtend w).extractLsb' j n = 0#n := by
  ext i hi
  simp
  grind

theorem extract_split (x : BitVec v) (j k n : Nat) :
    (x.extractLsb' j (k + n)).zeroExtend w =
      (x.extractLsb' (j + k) n).zeroExtend w <<< k ||| (x.extractLsb' j k).zeroExtend w := by
  apply BitVec.eq_of_getLsbD_eq
  intro i hi
  simp [hi]
  grind

theorem signExtend_extract_split (x : BitVec v) (j k : Nat) {n : Nat} (hn : 0 < n) :
    (x.extractLsb' j (k + n)).signExtend w =
      (x.extractLsb' (j + k) n).signExtend w <<< k ||| (x.extractLsb' j k).zeroExtend w := by
  apply BitVec.eq_of_getLsbD_eq
  intro i hi
  have hmsb : (x.extractLsb' j (k + n)).msb = (x.extractLsb' (j + k) n).msb := by
    simp only [BitVec.msb_eq_getLsbD_last, BitVec.getLsbD_extractLsb']
    grind
  simp only [BitVec.getLsbD_signExtend, BitVec.getLsbD_or, BitVec.getLsbD_shiftLeft, hmsb,
    BitVec.getLsbD_extractLsb', BitVec.truncate_eq_setWidth, BitVec.getLsbD_setWidth, hi,
    decide_true, Bool.true_and]
  grind

theorem signExtend_of_highMask (x : BitVec (n + 1)) (hn : n < w) :
    (if x.zeroExtend w &&& BitVec.twoPow w n ≠ 0 then x.zeroExtend w ||| ~~~lowMask w (n + 1)
      else x.zeroExtend w) = x.signExtend w := by
  apply BitVec.eq_of_getLsbD_eq
  intro i hi
  have hmsb : x.msb = x.getLsbD n := by simp [BitVec.msb_eq_getLsbD_last]
  have hz : (x.zeroExtend w).getLsbD n = x.getLsbD n := by simp [hn]
  rw [BitVec.getLsbD_signExtend]
  simp only [and_twoPow_ne_zero _ hn, hz, hmsb]
  split
  · rw [BitVec.getLsbD_or, BitVec.getLsbD_not, getLsbD_lowMask hi]
    simp [hi]
    grind
  · simp [hi]
    grind

theorem signExtend_zeroExtend (x : BitVec n) (hnv : n < v) :
    (x.zeroExtend v).signExtend w = x.zeroExtend w := by
  apply BitVec.eq_of_getLsbD_eq
  intro i hi
  rw [BitVec.getLsbD_signExtend]
  simp [BitVec.msb_eq_getLsbD_last, hi]
  grind

theorem signExtend_signExtend (x : BitVec n) (hn : 0 < n) (hnv : n ≤ v) :
    (x.signExtend v).signExtend w = x.signExtend w := by
  apply BitVec.eq_of_getLsbD_eq
  intro i hi
  have hmsb : (x.signExtend v).msb = x.msb := by
    rw [BitVec.msb_eq_getLsbD_last, BitVec.getLsbD_signExtend, BitVec.msb_eq_getLsbD_last]
    grind
  rw [BitVec.getLsbD_signExtend, BitVec.getLsbD_signExtend, BitVec.getLsbD_signExtend, hmsb]
  grind

theorem truncate_signExtend (x : BitVec n) (hvw : v ≤ w) :
    (x.signExtend w).truncate v = x.signExtend v := by
  apply BitVec.eq_of_getLsbD_eq
  intro i hi
  have hiw : i < w := Nat.lt_of_lt_of_le hi hvw
  simp only [BitVec.truncate_eq_setWidth, BitVec.getLsbD_setWidth, BitVec.getLsbD_signExtend, hi,
    hiw, decide_true, Bool.true_and]

end MechanicalResearcher.Lib.Bits
