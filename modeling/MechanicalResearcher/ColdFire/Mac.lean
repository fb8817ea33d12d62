import MechanicalResearcher.ColdFire.Exceptions
import MechanicalResearcher.ColdFire.Flags
import Mathlib.Tactic.Positivity

/-!
# Multiply and accumulate

MAC and MSAC against the exact integer that they stand for.  The code computes the product, its
scaling and the sum in signed words of 64 bits: where each of the three fits, the accumulator and
its overflow flag are those of the exact integer.
-/

namespace MechanicalResearcher.ColdFire

open Lib Lib.Flags

variable {μ : Type}

theorem signExtend48_eq (v : BitVec 64) : signExtend48 v = (v.truncate 48).signExtend 64 := by
  apply BitVec.eq_of_getLsbD_eq
  intro i hi
  rw [signExtend48, BitVec.getLsbD_sshiftRight, BitVec.getLsbD_signExtend,
    BitVec.msb_eq_getLsbD_last, BitVec.msb_eq_getLsbD_last]
  simp [hi]
  grind

theorem toInt_signExtend48 (v : BitVec 64) : (signExtend48 v).toInt = v.toInt.bmod (2 ^ 48) := by
  have hlow : (v.truncate 48).toInt = Int.bmod v.toNat (2 ^ 48) := BitVec.toInt_setWidth v
  have hv := v.isLt
  rw [signExtend48_eq, BitVec.toInt_signExtend_of_le (by decide), hlow, BitVec.toInt_eq_toNat_cond,
    Int.bmod_def, Int.bmod_def]
  split_ifs <;> omega

theorem toInt_max48 : max48.toInt = 2 ^ 47 - 1 := by decide

theorem toInt_min48 : min48.toInt = -2 ^ 47 := by decide

theorem signExtend48_self {v : BitVec 64} (h : InSigned 48 v.toInt) : signExtend48 v = v := by
  obtain ⟨hlo, hhi⟩ := h
  rw [← BitVec.toInt_inj, toInt_signExtend48, Int.bmod_def]
  split_ifs <;> omega

theorem inSigned_signExtend48 (v : BitVec 64) : InSigned 48 (signExtend48 v).toInt := by
  rw [toInt_signExtend48, InSigned, Int.bmod_def]
  split_ifs <;> omega

/-- The product of the operands in the mode of MACSR. -/
def exactProduct (macsr x y : Word) : Int :=
  if macsr &&& macsrSu ≠ 0 then x.toNat * y.toNat else x.toInt * y.toInt

/-- Doubled, or halved towards minus infinity, or as it is. -/
def exactScaled (sf : BitVec 2) (p : Int) : Int :=
  if sf = 1 then 2 * p else if sf = 3 then p / 2 else p

def exactSum (acc : BitVec 64) (sub : Bool) (q : Int) : Int :=
  if sub then acc.toInt - q else acc.toInt + q

/-- What an accumulator of 48 bits keeps of an integer. -/
def confine (omc : Bool) (e : Int) : Int :=
  if InSigned 48 e then e
  else if omc then if 0 < e then 2 ^ 47 - 1 else -2 ^ 47
  else e.bmod (2 ^ 48)

theorem outgrown_iff (result : BitVec 64) :
    (max48.slt result || result.slt min48) = true ↔ ¬InSigned 48 result.toInt := by
  rw [Bool.or_eq_true, BitVec.slt_iff_toInt_lt, BitVec.slt_iff_toInt_lt, toInt_max48, toInt_min48,
    InSigned]
  omega

theorem macsrOmc_eq : macsrOmc = BitVec.twoPow 32 7 := rfl

theorem macsrPav_eq (n : BitVec 2) : macsrPav n = BitVec.twoPow 32 (12 + n.toNat) := by
  revert n
  decide

theorem or_macsrPav_omc (macsr : Word) (n : BitVec 2) :
    (macsr ||| macsrPav n) &&& macsrOmc ≠ 0 ↔ macsr &&& macsrOmc ≠ 0 := by
  have hpav : (macsrPav n).getLsbD 7 = false := by
    revert n
    decide
  rw [macsrOmc_eq, Bits.and_twoPow_ne_zero _ (by decide), Bits.and_twoPow_ne_zero _ (by decide),
    BitVec.getLsbD_or, hpav, Bool.or_false]

theorem macStore_acc_eq (s : Cpu μ) (n : BitVec 2) (result : BitVec 64) :
    (macStore s n result).acc n =
      if ¬InSigned 48 result.toInt then
        if s.macsr &&& macsrOmc ≠ 0 then if max48.slt result then max48 else min48
        else signExtend48 result
      else result := by
  have hstored : (macStore s n result).acc n =
      let overflow := max48.slt result || result.slt min48
      let macsr := if overflow then s.macsr ||| macsrPav n else s.macsr
      if overflow then
        if macsr &&& macsrOmc ≠ 0 then if max48.slt result then max48 else min48
        else signExtend48 result
      else result := Function.update_self ..
  rw [hstored]
  dsimp only
  by_cases hout : InSigned 48 result.toInt
  · rw [if_neg (by rw [outgrown_iff]; exact not_not.mpr hout), if_neg (not_not.mpr hout)]
  · rw [if_pos ((outgrown_iff result).mpr hout), if_pos hout,
      if_pos ((outgrown_iff result).mpr hout), if_congr (or_macsrPav_omc s.macsr n) rfl rfl]

theorem macStore_acc (s : Cpu μ) (n : BitVec 2) (result : BitVec 64) :
    ((macStore s n result).acc n).toInt = confine (s.macsr &&& macsrOmc ≠ 0) result.toInt := by
  rw [macStore_acc_eq, confine]
  by_cases hin : InSigned 48 result.toInt
  · rw [if_neg (not_not.mpr hin), if_pos hin]
  · rw [if_pos hin, if_neg hin]
    by_cases homc : s.macsr &&& macsrOmc ≠ 0
    · rw [if_pos homc, decide_eq_true homc, if_pos rfl]
      rw [InSigned] at hin
      by_cases hmax : max48.slt result = true
      · have hlt := BitVec.slt_iff_toInt_lt.mp hmax
        rw [toInt_max48] at hlt
        rw [if_pos hmax, if_pos (by omega), toInt_max48]
      · have hle := mt BitVec.slt_iff_toInt_lt.mpr hmax
        rw [toInt_max48] at hle
        rw [if_neg hmax, if_neg (by omega), toInt_min48]
    · rw [if_neg homc, decide_eq_false homc, if_neg (by decide), toInt_signExtend48]

theorem getLsbD_orIf (c : Prop) [Decidable c] (v flag : Word) {i : Nat}
    (hflag : flag.getLsbD i = false) : (if c then v ||| flag else v).getLsbD i = v.getLsbD i := by
  split_ifs
  · rw [BitVec.getLsbD_or, hflag, Bool.or_false]
  · rfl

theorem macStore_pav (s : Cpu μ) (n : BitVec 2) (result : BitVec 64) :
    (macStore s n result).macsr &&& macsrPav n ≠ 0 ↔
      s.macsr &&& macsrPav n ≠ 0 ∨ ¬InSigned 48 result.toInt := by
  have hlow : ∀ n : BitVec 2, macsrN.getLsbD (12 + n.toNat) = false ∧
      macsrZ.getLsbD (12 + n.toNat) = false ∧ macsrV.getLsbD (12 + n.toNat) = false ∧
      macsrEv.getLsbD (12 + n.toNat) = false ∧
      (~~~(macsrN ||| macsrZ ||| macsrV ||| macsrEv)).getLsbD (12 + n.toNat) = true := by
    decide
  obtain ⟨hN, hZ, hV, hEv, hkeep⟩ := hlow n
  have hn := n.isLt
  rw [macsrPav_eq, Bits.and_twoPow_ne_zero _ (by omega), Bits.and_twoPow_ne_zero _ (by omega)]
  unfold macStore
  dsimp only
  rw [getLsbD_orIf _ _ _ hN, getLsbD_orIf _ _ _ hZ, getLsbD_orIf _ _ _ hEv,
    getLsbD_orIf _ _ _ hV, BitVec.getLsbD_and, hkeep, Bool.and_true]
  by_cases hin : InSigned 48 result.toInt
  · rw [if_neg (by rw [outgrown_iff]; exact not_not.mpr hin)]
    exact (or_iff_left (not_not.mpr hin)).symm
  · rw [if_pos ((outgrown_iff result).mpr hin), BitVec.getLsbD_or, macsrPav_eq,
      BitVec.getLsbD_twoPow]
    refine iff_of_true ?_ (.inr hin)
    rw [decide_eq_true (by omega), decide_eq_true rfl]
    simp

theorem toInt_eq_iff {v : BitVec 64} {i : Int} (h : v.toInt = i.bmod (2 ^ 64)) :
    v.toInt = i ↔ InSigned 64 i := by
  rw [h, InSigned, Int.bmod_def]
  split_ifs <;> omega

theorem toInt_inSigned (v : BitVec 64) : InSigned 64 v.toInt :=
  ⟨BitVec.le_toInt v, BitVec.toInt_lt⟩

theorem macProduct_eq_iff (macsr x y : Word) :
    (macProduct macsr x y).toInt = exactProduct macsr x y ↔ exactProduct macsr x y < 2 ^ 63 := by
  have hx := x.isLt
  have hy := y.isLt
  have hnat : x.toNat * y.toNat < 2 ^ 64 :=
    lt_of_lt_of_le (Nat.mul_lt_mul'' hx hy) (by decide)
  have hlo : -(2 ^ 62) ≤ x.toInt * y.toInt := BitVec.le_toInt_mul_toInt
  have hhi : x.toInt * y.toInt ≤ 2 ^ 62 := BitVec.toInt_mul_toInt_le
  unfold macProduct exactProduct
  by_cases hsu : macsr &&& macsrSu ≠ 0
  · rw [if_pos hsu, if_pos hsu]
    have hprod : (x.zeroExtend 64 * y.zeroExtend 64).toNat = x.toNat * y.toNat := by
      rw [BitVec.toNat_mul, BitVec.toNat_setWidth_of_le (by decide),
        BitVec.toNat_setWidth_of_le (by decide), Nat.mod_eq_of_lt hnat]
    rw [BitVec.toInt_eq_toNat_cond, hprod, ← Int.natCast_mul]
    generalize x.toNat * y.toNat = p at hnat
    split_ifs <;> omega
  · rw [if_neg hsu, if_neg hsu]
    refine iff_of_true ?_ (by omega)
    rw [BitVec.toInt_mul, BitVec.toInt_signExtend_of_le (by decide),
      BitVec.toInt_signExtend_of_le (by decide), Int.bmod_def]
    split_ifs <;> omega

theorem macScale_eq_iff (sf : BitVec 2) (v : BitVec 64) (hv : -2 ^ 62 ≤ v.toInt) :
    (macScale sf v).toInt = exactScaled sf v.toInt ↔ exactScaled sf v.toInt < 2 ^ 63 := by
  have hlt : v.toInt < 2 ^ 63 := BitVec.toInt_lt
  unfold macScale exactScaled
  by_cases h1 : sf = 1
  · rw [if_pos h1, if_pos h1]
    have hdouble : v <<< 1 = v + v := by
      apply BitVec.eq_of_toNat_eq
      rw [BitVec.toNat_shiftLeft, BitVec.toNat_add, Nat.shiftLeft_eq]
      omega
    rw [hdouble, BitVec.toInt_add, Int.bmod_def]
    split_ifs <;> omega
  · rw [if_neg h1, if_neg h1]
    by_cases h3 : sf = 3
    · rw [if_pos h3, if_pos h3]
      refine iff_of_true ?_ (by omega)
      rw [BitVec.toInt_sshiftRight, Int.shiftRight_eq_div_pow]
      rfl
    · rw [if_neg h3, if_neg h3]
      exact iff_of_true rfl hlt

theorem macSum_eq_iff (acc v : BitVec 64) (sub : Bool) :
    (if sub then acc - v else acc + v).toInt = exactSum acc sub v.toInt ↔
      InSigned 64 (exactSum acc sub v.toInt) := by
  apply toInt_eq_iff
  unfold exactSum
  cases sub
  · exact BitVec.toInt_add ..
  · exact BitVec.toInt_sub ..

theorem le_exactProduct (macsr x y : Word) : -2 ^ 62 ≤ exactProduct macsr x y := by
  have hlo : -(2 ^ 62) ≤ x.toInt * y.toInt := BitVec.le_toInt_mul_toInt
  unfold exactProduct
  split_ifs
  · have hnat : (0 : Int) ≤ x.toNat * y.toNat := by positivity
    omega
  · exact hlo

/-- The accumulator of the opword and its extension word. -/
def macAcc (op ext : Half) : BitVec 2 := ext.extractLsb' 4 1 ++ op.extractLsb' 7 1

def macX (s : Cpu μ) (op : Half) : Word := if op.getLsbD 6 then s.a (regDx op) else s.d (regDx op)

def macY (s : Cpu μ) (op : Half) : Word := if op.getLsbD 3 then s.a (eaReg op) else s.d (eaReg op)

/-- The exact integer of the instruction: its product, that scaled, and the sum. -/
structure MacExact (sf : BitVec 2) (sub : Bool) (n : BitVec 2) (x y : Word) (s s' : Cpu μ) :
    Prop where
  stored : (s'.acc n).toInt = confine (s.macsr &&& macsrOmc ≠ 0)
    (exactSum (s.acc n) sub (exactScaled sf (exactProduct s.macsr x y)))
  pav : s'.macsr &&& macsrPav n ≠ 0 ↔ s.macsr &&& macsrPav n ≠ 0 ∨
    ¬InSigned 48 (exactSum (s.acc n) sub (exactScaled sf (exactProduct s.macsr x y)))
  product : (macProduct s.macsr x y).toInt = exactProduct s.macsr x y
  scaled : (macScale sf (macProduct s.macsr x y)).toInt =
    exactScaled sf (exactProduct s.macsr x y)
  sum :
    let product := macScale sf (macProduct s.macsr x y)
    (if sub then s.acc n - product else s.acc n + product).toInt =
      exactSum (s.acc n) sub (exactScaled sf (exactProduct s.macsr x y))

/-- The product, the scaled product and the sum are below the limits of 64 bits. -/
structure MacFits (sf : BitVec 2) (sub : Bool) (n : BitVec 2) (x y : Word) (s : Cpu μ) : Prop where
  product : exactProduct s.macsr x y < 2 ^ 63
  scaled : exactScaled sf (exactProduct s.macsr x y) < 2 ^ 63
  sum : InSigned 64 (exactSum (s.acc n) sub (exactScaled sf (exactProduct s.macsr x y)))

theorem macFits_iff (sf : BitVec 2) (sub : Bool) (n : BitVec 2) (x y : Word) (s : Cpu μ) :
    MacFits sf sub n x y s ↔
      (macProduct s.macsr x y).toInt = exactProduct s.macsr x y ∧
      (macScale sf (macProduct s.macsr x y)).toInt = exactScaled sf (exactProduct s.macsr x y) ∧
      (if sub then s.acc n - macScale sf (macProduct s.macsr x y)
        else s.acc n + macScale sf (macProduct s.macsr x y)).toInt =
          exactSum (s.acc n) sub (exactScaled sf (exactProduct s.macsr x y)) := by
  have hproduct := macProduct_eq_iff s.macsr x y
  have hlo := le_exactProduct s.macsr x y
  constructor
  · intro h
    have hp := hproduct.mpr h.product
    have hscaled := macScale_eq_iff sf (macProduct s.macsr x y) (by rw [hp]; exact hlo)
    rw [hp] at hscaled
    have hq := hscaled.mpr h.scaled
    have hsum := macSum_eq_iff (s.acc n) (macScale sf (macProduct s.macsr x y)) sub
    rw [hq] at hsum
    exact ⟨hp, hq, hsum.mpr h.sum⟩
  · rintro ⟨hp, hq, he⟩
    refine ⟨hproduct.mp hp, ?_, ?_⟩
    · rw [← hq]
      exact BitVec.toInt_lt
    · rw [← he]
      exact toInt_inSigned _

/-- MAC and MSAC are exact, without a wrapped word on the way, exactly when the product, the
scaled product and the sum fit in 64 bits. -/
theorem macInsn_exact_iff (b : Bus μ) (s : Cpu μ) (op : Half) :
    let ext := (fetch16 b s).1
    let s1 := (fetch16 b s).2
    let sf : BitVec 2 := ext.extractLsb' 9 2
    let sub := ext.getLsbD 8
    MacExact sf sub (macAcc op ext) (macX s1 op) (macY s1 op) s1 (macInsn b s op) ↔
      MacFits sf sub (macAcc op ext) (macX s1 op) (macY s1 op) s1 := by
  intro ext s1 sf sub
  rw [macFits_iff]
  constructor
  · intro h
    exact ⟨h.product, h.scaled, h.sum⟩
  · rintro ⟨hp, hq, he⟩
    refine ⟨?_, ?_, hp, hq, he⟩
    · rw [← he]
      exact macStore_acc ..
    · rw [← he]
      exact macStore_pav ..

/-- Unsigned mode with OMC: the largest product is held as a negative number and added. -/
theorem mac_unsigned_wraps :
    let s := { (cpuAt 0 0 0 rteRam).setD 0 0xFFFFFFFF with macsr := macsrSu ||| macsrOmc }
    ¬MacExact 0 false 0 0xFFFFFFFF 0xFFFFFFFF (fetch16 ram s).2 (macInsn ram s 0xA000) := by
  intro s h
  exact absurd h.stored (by decide)

end MechanicalResearcher.ColdFire
