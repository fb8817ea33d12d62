import Mathlib.Algebra.Group.Nat.Defs
import Mathlib.Data.List.TakeWhile
import Mathlib.Tactic.Common

/-!
# Counts of bits

Bits that are counted one after the other: the zeros at either end of a vector, and its ones.
-/

namespace MechanicalResearcher.Lib.BitCounts

variable {w : Nat}

/-- How many of the first `n` values are false before the first true one. -/
def zerosBefore (f : Nat → Bool) (n : Nat) : Nat := ((List.range n).takeWhile fun i => !f i).length

/-- How many of the first `n` values are true. -/
def onesIn (f : Nat → Bool) (n : Nat) : Nat := (List.range n).countP f

def leadingZeros (v : BitVec w) : Nat := zerosBefore v.getMsbD w

def trailingZeros (v : BitVec w) : Nat := zerosBefore v.getLsbD w

def ones (v : BitVec w) : Nat := onesIn v.getLsbD w

variable {f : Nat → Bool} {n : Nat}

theorem zerosBefore_succ : zerosBefore f (n + 1) =
    if f 0 then 0 else zerosBefore (fun i => f (i + 1)) n + 1 := by
  rw [zerosBefore, List.range_succ_eq_map, List.takeWhile_cons]
  cases f 0 with
  | true => rfl
  | false =>
    rw [Bool.not_false, if_pos rfl, List.length_cons, List.takeWhile_map, List.length_map]
    rfl

theorem zerosBefore_false (hf : ∀ i < n, f i = false) : zerosBefore f n = n := by
  rw [zerosBefore, List.takeWhile_eq_self_iff.2, List.length_range]
  intro i hi
  rw [hf i (List.mem_range.1 hi)]
  rfl

theorem onesIn_succ : onesIn f (n + 1) = (f 0).toNat + onesIn (fun i => f (i + 1)) n := by
  rw [onesIn, List.range_succ_eq_map, List.countP_cons, List.countP_map, Nat.add_comm]
  cases f 0 <;> rfl

theorem onesIn_le : onesIn f n ≤ n := by
  have hle := List.countP_le_length (p := f) (l := List.range n)
  rwa [List.length_range] at hle

theorem onesIn_and_pred {x : Nat} (hx : 0 < x) (hlt : x < 2 ^ n) :
    onesIn (x &&& (x - 1)).testBit n + 1 = onesIn x.testBit n := by
  induction n generalizing x with
  | zero => omega
  | succ n ih =>
    have hhalf : ∀ y : Nat, (fun i => y.testBit (i + 1)) = (y / 2).testBit := by
      intro y
      funext i
      rw [Nat.testBit_succ]
    have hand : (x &&& (x - 1)) / 2 = x / 2 &&& (x - 1) / 2 := Nat.and_div_two
    have hlow : (x &&& (x - 1)).testBit 0 = false := by
      rw [Nat.testBit_and, Nat.testBit_zero, Nat.testBit_zero]
      have hcase : x % 2 = 0 ∨ (x - 1) % 2 = 0 := by omega
      rcases hcase with h | h <;> simp [h]
    rw [onesIn_succ, onesIn_succ, hhalf, hhalf, hlow, hand]
    rcases Nat.mod_two_eq_zero_or_one x with h | h
    · -- an even number borrows from its half
      have hpred : (x - 1) / 2 = x / 2 - 1 := by omega
      have hlast : x.testBit 0 = false := by
        rw [Nat.testBit_zero, h]
        rfl
      have hrest := @ih (x / 2) (by omega) (by rw [Nat.pow_succ] at hlt; omega)
      rw [hpred, hlast, ← hrest]
      rfl
    · have hpred : (x - 1) / 2 = x / 2 := by omega
      have hlast : x.testBit 0 = true := by
        rw [Nat.testBit_zero, h]
        rfl
      rw [hpred, hlast, Nat.and_self, Bool.toNat_false, Nat.zero_add, Bool.toNat_true, Nat.add_comm]

theorem ones_and_pred {v : BitVec w} (hv : v ≠ 0#w) : ones (v &&& (v - 1#w)) + 1 = ones v := by
  have hpos : 0 < v.toNat := by
    rcases Nat.eq_zero_or_pos v.toNat with h | h
    · exact absurd (BitVec.eq_of_toNat_eq (h.trans BitVec.toNat_zero.symm)) hv
    · exact h
  have hone : (1#w).toNat = 1 := by
    rw [BitVec.toNat_ofNat]
    exact Nat.mod_eq_of_lt (Nat.lt_of_le_of_lt hpos v.isLt)
  have hsub : (v - 1#w).toNat = v.toNat - 1 := by
    rw [BitVec.toNat_sub_of_le (BitVec.le_def.2 (hone.le.trans hpos)), hone]
  have hbits := onesIn_and_pred hpos v.isLt
  rw [← hsub, ← BitVec.toNat_and] at hbits
  exact hbits

theorem ones_zero : ones 0#w = 0 := by
  rw [ones, onesIn, List.countP_eq_zero]
  simp

end MechanicalResearcher.Lib.BitCounts
