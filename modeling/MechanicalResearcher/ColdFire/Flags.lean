import MechanicalResearcher.ColdFire.Integer
import MechanicalResearcher.Lib.Bits
import MechanicalResearcher.Lib.Flags
import Mathlib.Tactic.IntervalCases

/-!
# The condition codes

An operand is a word of its own size, and the flags are what the arithmetic of that size makes of
it: the sign bit formulas of ADD, SUB and CMP are carry, borrow and signed overflow, and the
conditions of Bcc after a CMP are the orders of the two operands.
-/

namespace MechanicalResearcher.ColdFire

open Lib Lib.Flags

variable {μ : Type}

def Size.bits : Size → Nat
  | .byte => 8
  | .word => 16
  | .long => 32

/-- An operand as a word of its size. -/
def sized (v : Word) (sz : Size) : BitVec sz.bits := v.truncate sz.bits

theorem Size.bits_pos (sz : Size) : 0 < sz.bits := by
  cases sz <;> decide

theorem Size.bits_le (sz : Size) : sz.bits ≤ 32 := by
  cases sz <;> decide

theorem sized_long (v : Word) : sized v .long = v := BitVec.setWidth_eq v

theorem sized_add (u v : Word) (sz : Size) : sized (u + v) sz = sized u sz + sized v sz :=
  BitVec.setWidth_add u v sz.bits_le

theorem sized_sub (u v : Word) (sz : Size) : sized (u - v) sz = sized u sz - sized v sz := by
  have hadd := sized_add (u - v) v sz
  rw [BitVec.sub_add_cancel] at hadd
  rw [hadd, BitVec.add_sub_cancel]

theorem getLsbD_sized (v : Word) (sz : Size) (i : Nat) :
    (sized v sz).getLsbD i = (decide (i < sz.bits) && v.getLsbD i) :=
  BitVec.getLsbD_setWidth ..

theorem sizeMsb_eq (sz : Size) : sizeMsb sz = BitVec.twoPow 32 (sz.bits - 1) := by
  cases sz <;> decide

theorem sizeMask_eq (v : Word) (sz : Size) : sizeMask v sz = (sized v sz).zeroExtend 32 := by
  cases sz with
  | byte => exact Bits.shiftRight_and_lowMask_self v 8 0
  | word => exact Bits.shiftRight_and_lowMask_self v 16 0
  | long => exact (BitVec.setWidth_eq (BitVec.setWidth 32 v)).symm

theorem sized_msb (v : Word) (sz : Size) : (sized v sz).msb = v.getLsbD (sz.bits - 1) := by
  have hpos := sz.bits_pos
  rw [BitVec.msb_eq_getLsbD_last, getLsbD_sized, decide_eq_true (by omega), Bool.true_and]

theorem and_sizeMsb_ne_zero (v : Word) (sz : Size) :
    v &&& sizeMsb sz ≠ 0 ↔ (sized v sz).msb = true := by
  have hpos := sz.bits_pos
  have hle := sz.bits_le
  rw [sizeMsb_eq, sized_msb, Bits.and_twoPow_ne_zero v (by omega)]

theorem and_sizeMsb_eq_zero (v : Word) (sz : Size) :
    v &&& sizeMsb sz = 0 ↔ (sized v sz).msb = false := by
  rw [← not_iff_not, ← ne_eq, and_sizeMsb_ne_zero, Bool.not_eq_false]

theorem and_sizeMsb_eq_iff (u v : Word) (sz : Size) :
    u &&& sizeMsb sz = v &&& sizeMsb sz ↔ (sized u sz).msb = (sized v sz).msb := by
  have hpos := sz.bits_pos
  have hle := sz.bits_le
  have hne : BitVec.twoPow 32 (sz.bits - 1) ≠ 0 := by
    cases sz <;> decide
  rw [sizeMsb_eq, sized_msb, sized_msb, BitVec.and_twoPow, BitVec.and_twoPow]
  cases u.getLsbD (sz.bits - 1) <;> cases v.getLsbD (sz.bits - 1)
  · simp
  · simpa using hne.symm
  · simpa using hne
  · simp

theorem sized_eq_zero (v : Word) (sz : Size) : sizeMask v sz = 0 ↔ sized v sz = 0 := by
  rw [sizeMask_eq]
  constructor
  · intro h
    have hback := congrArg (BitVec.setWidth sz.bits) h
    rwa [BitVec.setWidth_setWidth_of_le _ sz.bits_le, BitVec.setWidth_eq, BitVec.ofNat_eq_ofNat,
      BitVec.setWidth_zero] at hback
  · intro h
    rw [h]
    exact BitVec.setWidth_zero ..

theorem sized_sizeMask (v : Word) (sz : Size) : sized (sizeMask v sz) sz = sized v sz := by
  rw [sizeMask_eq]
  exact (BitVec.setWidth_setWidth_of_le _ sz.bits_le).trans (BitVec.setWidth_eq _)

theorem srC_eq : srC = BitVec.twoPow 32 0 := rfl
theorem srV_eq : srV = BitVec.twoPow 32 1 := rfl
theorem srZ_eq : srZ = BitVec.twoPow 32 2 := rfl
theorem srN_eq : srN = BitVec.twoPow 32 3 := rfl
theorem srX_eq : srX = BitVec.twoPow 32 4 := rfl

theorem setFlag_twoPow (s : Cpu μ) {k : Nat} (hk : k < 32) (cond : Bool) (i : Nat) :
    (setFlag s (BitVec.twoPow 32 k) cond).sr.getLsbD i =
      if i = k then cond else s.sr.getLsbD i := by
  unfold setFlag
  cases cond
  · simp
    grind
  · simp
    grind

/-- The condition codes of a status register. -/
structure Ccr where
  x : Bool
  n : Bool
  z : Bool
  v : Bool
  c : Bool
  deriving DecidableEq, Repr

def ccr (sr : Word) : Ccr :=
  ⟨sr.getLsbD 4, sr.getLsbD 3, sr.getLsbD 2, sr.getLsbD 1, sr.getLsbD 0⟩

theorem ccr_setFlag_c (s : Cpu μ) (cond : Bool) :
    ccr (setFlag s srC cond).sr = { ccr s.sr with c := cond } := by
  simp only [ccr, srC_eq, setFlag_twoPow s (show 0 < 32 by decide)]
  rfl

theorem ccr_setFlag_v (s : Cpu μ) (cond : Bool) :
    ccr (setFlag s srV cond).sr = { ccr s.sr with v := cond } := by
  simp only [ccr, srV_eq, setFlag_twoPow s (show 1 < 32 by decide)]
  rfl

theorem ccr_setFlag_z (s : Cpu μ) (cond : Bool) :
    ccr (setFlag s srZ cond).sr = { ccr s.sr with z := cond } := by
  simp only [ccr, srZ_eq, setFlag_twoPow s (show 2 < 32 by decide)]
  rfl

theorem ccr_setFlag_n (s : Cpu μ) (cond : Bool) :
    ccr (setFlag s srN cond).sr = { ccr s.sr with n := cond } := by
  simp only [ccr, srN_eq, setFlag_twoPow s (show 3 < 32 by decide)]
  rfl

theorem ccr_setFlag_x (s : Cpu μ) (cond : Bool) :
    ccr (setFlag s srX cond).sr = { ccr s.sr with x := cond } := by
  simp only [ccr, srX_eq, setFlag_twoPow s (show 4 < 32 by decide)]
  rfl

theorem and_srC_ne_zero (sr : Word) : decide (sr &&& srC ≠ 0) = (ccr sr).c := by
  rw [Bool.eq_iff_iff, decide_eq_true_iff]
  exact Bits.and_twoPow_ne_zero sr (show 0 < 32 by decide)

theorem and_srX_ne_zero (sr : Word) : decide (sr &&& srX ≠ 0) = (ccr sr).x := by
  rw [Bool.eq_iff_iff, decide_eq_true_iff]
  exact Bits.and_twoPow_ne_zero sr (show 4 < 32 by decide)

theorem ccr_setNz (s : Cpu μ) (res : Word) (sz : Size) :
    ccr (setNz s res sz).sr =
      { ccr s.sr with n := (sized res sz).msb, z := decide (sized res sz = 0) } := by
  have hn : decide (sizeMask res sz &&& sizeMsb sz ≠ 0) = (sized res sz).msb := by
    rw [Bool.eq_iff_iff, decide_eq_true_iff, and_sizeMsb_ne_zero, sized_sizeMask]
  have hz : decide (sizeMask res sz = 0) = decide (sized res sz = 0) :=
    decide_eq_decide.mpr (sized_eq_zero res sz)
  simp only [setNz, ccr_setFlag_z, ccr_setFlag_n, hn, hz]

theorem ccr_clear_vc (sr : Word) :
    ccr (sr &&& ~~~(srV ||| srC)) = { ccr sr with v := false, c := false } := by
  simp [ccr, srV, srC]

theorem ccr_setFlagsMove (s : Cpu μ) (res : Word) (sz : Size) :
    ccr (setFlagsMove s res sz).sr =
      ⟨(ccr s.sr).x, (sized res sz).msb, decide (sized res sz = 0), false, false⟩ := by
  simp only [setFlagsMove, ccr_clear_vc, ccr_setNz]

theorem ccr_setFlagsAdd (s : Cpu μ) (src dst : Word) (sz : Size) :
    ccr (setFlagsAdd s src dst (dst + src) sz).sr =
      let x := sized src sz
      let y := sized dst sz
      { x := decide (2 ^ sz.bits ≤ x.toNat + y.toNat)
        n := (y + x).msb
        z := decide (y + x = 0)
        v := decide (¬InSigned sz.bits (x.toInt + y.toInt))
        c := decide (2 ^ sz.bits ≤ x.toNat + y.toNat) } := by
  have hcarry := (isSum_add (sized src sz) (sized dst sz)).carry_iff sz.bits_pos
  have hover := (isSum_add (sized src sz) (sized dst sz)).overflow_iff sz.bits_pos
  rw [← sized_add] at hcarry hover
  simp only [setFlagsAdd, and_srC_ne_zero, ccr_setFlag_x, ccr_setFlag_c, ccr_setFlag_v, ccr_setNz,
    and_sizeMsb_eq_iff, ne_eq, and_sizeMsb_eq_zero, Bool.not_eq_false, ← sized_add,
    decide_eq_decide.mpr hcarry, decide_eq_decide.mpr hover]

theorem ccr_setFlagsCmp (s : Cpu μ) (src dst : Word) (sz : Size) :
    ccr (setFlagsCmp s src dst (dst - src) sz).sr =
      let x := sized src sz
      let y := sized dst sz
      { x := (ccr s.sr).x
        n := (y - x).msb
        z := decide (y - x = 0)
        v := decide (¬InSigned sz.bits (y.toInt - x.toInt))
        c := decide (y.toNat < x.toNat) } := by
  have hborrow := (isDifference_sub (sized src sz) (sized dst sz)).borrow_iff sz.bits_pos
  have hover := (isDifference_sub (sized src sz) (sized dst sz)).overflow_iff sz.bits_pos
  rw [← sized_sub] at hborrow hover
  simp only [setFlagsCmp, ccr_setFlag_c, ccr_setFlag_v, ccr_setNz, and_sizeMsb_eq_iff, ne_eq,
    and_sizeMsb_eq_zero, Bool.not_eq_false, ← sized_sub, decide_eq_decide.mpr hborrow,
    decide_eq_decide.mpr hover]

theorem ccr_setFlagsSub (s : Cpu μ) (src dst : Word) (sz : Size) :
    ccr (setFlagsSub s src dst (dst - src) sz).sr =
      let x := sized src sz
      let y := sized dst sz
      { x := decide (y.toNat < x.toNat)
        n := (y - x).msb
        z := decide (y - x = 0)
        v := decide (¬InSigned sz.bits (y.toInt - x.toInt))
        c := decide (y.toNat < x.toNat) } := by
  simp only [setFlagsSub, and_srC_ne_zero, ccr_setFlag_x, ccr_setFlagsCmp]

/-- What a condition says of a destination `y` that was compared with a source `x`. -/
def Compares {w : Nat} (cc : BitVec 4) (x y : BitVec w) : Prop :=
  match cc.toNat with
  | 0x0 => True
  | 0x1 => False
  | 0x2 => x.toNat < y.toNat
  | 0x3 => y.toNat ≤ x.toNat
  | 0x4 => x.toNat ≤ y.toNat
  | 0x5 => y.toNat < x.toNat
  | 0x6 => y ≠ x
  | 0x7 => y = x
  | 0x8 => InSigned w (y.toInt - x.toInt)
  | 0x9 => ¬InSigned w (y.toInt - x.toInt)
  | 0xA => (y - x).msb = false
  | 0xB => (y - x).msb = true
  | 0xC => x.toInt ≤ y.toInt
  | 0xD => y.toInt < x.toInt
  | 0xE => x.toInt < y.toInt
  | _ => y.toInt ≤ x.toInt

/-- The condition codes decide every condition. -/
def Ccr.eval (f : Ccr) (cc : BitVec 4) : Bool :=
  match cc.toNat with
  | 0x0 => true
  | 0x1 => false
  | 0x2 => !f.c && !f.z
  | 0x3 => f.c || f.z
  | 0x4 => !f.c
  | 0x5 => f.c
  | 0x6 => !f.z
  | 0x7 => f.z
  | 0x8 => !f.v
  | 0x9 => f.v
  | 0xA => !f.n
  | 0xB => f.n
  | 0xC => f.n == f.v
  | 0xD => f.n != f.v
  | 0xE => !f.z && f.n == f.v
  | _ => f.z || f.n != f.v

theorem evalCc_eq (s : Cpu μ) (cc : BitVec 4) : evalCc s cc = (ccr s.sr).eval cc := rfl

theorem eval_difference {w : Nat} (hw : 0 < w) (cc : BitVec 4) (x y : BitVec w) (ext : Bool) :
    Ccr.eval
        { x := ext
          n := (y - x).msb
          z := decide (y - x = 0)
          v := decide (¬InSigned w (y.toInt - x.toInt))
          c := decide (y.toNat < x.toNat) } cc = true ↔
      Compares cc x y := by
  have hzero := sub_eq_zero_iff x y
  have hnat : y = x ↔ y.toNat = x.toNat := BitVec.toNat_inj.symm
  have hint : y = x ↔ y.toInt = x.toInt := BitVec.toInt_inj.symm
  have hlt := (isDifference_sub x y).lt_iff hw
  have hne : ((y - x).msb != decide (¬InSigned w (y.toInt - x.toInt))) = true ↔
      y.toInt < x.toInt := by
    rw [hlt, bne_iff_ne, ne_eq, Bool.eq_iff_iff, decide_eq_true_iff]
  have heq : ((y - x).msb == decide (¬InSigned w (y.toInt - x.toInt))) = true ↔
      x.toInt ≤ y.toInt := by
    rw [beq_iff_eq, ← not_iff_not, ← ne_eq, ← bne_iff_ne, hne, Int.not_le]
  have hhi : (¬y.toNat < x.toNat ∧ ¬y = x) ↔ x.toNat < y.toNat := by
    rw [hnat]
    omega
  have hls : (y.toNat < x.toNat ∨ y = x) ↔ y.toNat ≤ x.toNat := by
    rw [hnat]
    omega
  have hgt : (¬y = x ∧ x.toInt ≤ y.toInt) ↔ x.toInt < y.toInt := by
    rw [hint]
    omega
  have hle : (y = x ∨ y.toInt < x.toInt) ↔ y.toInt ≤ x.toInt := by
    rw [hint]
    omega
  have hcc := cc.isLt
  unfold Ccr.eval Compares
  interval_cases cc.toNat
  all_goals
    simp only [Bool.and_eq_true, Bool.or_eq_true, Bool.not_eq_true', decide_eq_true_iff,
      decide_eq_false_iff_not, not_not, hzero, hne, heq, hhi, hls, hgt, hle, reduceCtorEq, ne_eq]
  -- what is left is CC
  omega

/-- Every condition after a CMP flag computation, at every size; X stays. -/
theorem evalCc_cmp (s : Cpu μ) (src dst : Word) (sz : Size) (cc : BitVec 4) :
    let s' := setFlagsCmp s src dst (dst - src) sz
    (evalCc s' cc = true ↔ Compares cc (sized src sz) (sized dst sz)) ∧
      (ccr s'.sr).x = (ccr s.sr).x := by
  dsimp only
  rw [evalCc_eq, ccr_setFlagsCmp]
  exact ⟨eval_difference sz.bits_pos cc (sized src sz) (sized dst sz) _, rfl⟩

end MechanicalResearcher.ColdFire
