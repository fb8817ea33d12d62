import Mathlib.Algebra.Group.Int.Defs
import MechanicalResearcher.Lib.BitCounts
import MechanicalResearcher.Lib.Bits
import MechanicalResearcher.Rv32.HostRuns

/-!
# Integer arithmetic

The operations of RV32I, M, Zba, Zbb and Zbs on two operands, as their specifications have them:
the value of each, and the table of its encodings.  `exec` gives that value for every encoding of
the table and rejects all others.
-/

namespace MechanicalResearcher.Rv32

open Lib.BitCounts

variable {μ : Type} {h : Host μ} {s : Cpu μ} {c : Core μ} {insn next a b : Word}

/-! ## The specification -/

/-- The operations; one that has an immediate is the one with two registers. -/
inductive Alu
  | add | sub | sll | slt | sltu | xor | srl | sra | or | and
  | mul | mulh | mulhsu | mulhu | div | divu | rem | remu
  | sh1add | sh2add | sh3add
  | andn | orn | xnor | clz | ctz | cpop | max | maxu | min | minu | sextB | sextH | zextH
  | rol | ror | orcB | rev8
  | bclr | bext | binv | bset
  deriving DecidableEq, Repr

/-- A byte of ones unless the byte is 0. -/
def orByte (x : BitVec 8) : BitVec 8 := if x = 0 then 0 else 0xff

/-- The value of an operation; a shift amount or the number of a bit is in the low five bits. -/
def Alu.value (a b : Word) : Alu → Word
  | add => a + b
  | sub => a - b
  | sll => a <<< (b.toNat % 32)
  | slt => if a.toInt < b.toInt then 1 else 0
  | sltu => if a.toNat < b.toNat then 1 else 0
  | xor => a ^^^ b
  | srl => a >>> (b.toNat % 32)
  | sra => a.sshiftRight (b.toNat % 32)
  | or => a ||| b
  | and => a &&& b
  | mul => BitVec.ofInt 32 (a.toInt * b.toInt)
  | mulh => BitVec.ofInt 32 (a.toInt * b.toInt / 2 ^ 32)
  | mulhsu => BitVec.ofInt 32 (a.toInt * b.toNat / 2 ^ 32)
  | mulhu => BitVec.ofInt 32 (a.toNat * b.toNat / 2 ^ 32)
  | div => if b = 0 then BitVec.ofInt 32 (-1) else BitVec.ofInt 32 (a.toInt.tdiv b.toInt)
  | divu => if b = 0 then BitVec.ofNat 32 (2 ^ 32 - 1) else BitVec.ofNat 32 (a.toNat / b.toNat)
  | rem => if b = 0 then a else BitVec.ofInt 32 (a.toInt.tmod b.toInt)
  | remu => if b = 0 then a else BitVec.ofNat 32 (a.toNat % b.toNat)
  | sh1add => a <<< 1 + b
  | sh2add => a <<< 2 + b
  | sh3add => a <<< 3 + b
  | andn => a &&& ~~~b
  | orn => a ||| ~~~b
  | xnor => ~~~(a ^^^ b)
  | clz => BitVec.ofNat 32 (leadingZeros a)
  | ctz => BitVec.ofNat 32 (trailingZeros a)
  | cpop => BitVec.ofNat 32 (ones a)
  | max => if a.toInt < b.toInt then b else a
  | maxu => if a.toNat < b.toNat then b else a
  | min => if a.toInt < b.toInt then a else b
  | minu => if a.toNat < b.toNat then a else b
  | sextB => (a.extractLsb' 0 8).signExtend 32
  | sextH => (a.extractLsb' 0 16).signExtend 32
  | zextH => (a.extractLsb' 0 16).zeroExtend 32
  | rol => a.rotateLeft (b.toNat % 32)
  | ror => a.rotateRight (b.toNat % 32)
  | orcB => orByte (a.extractLsb' 24 8) ++ orByte (a.extractLsb' 16 8) ++
      orByte (a.extractLsb' 8 8) ++ orByte (a.extractLsb' 0 8)
  | rev8 => a.extractLsb' 0 8 ++ a.extractLsb' 8 8 ++ a.extractLsb' 16 8 ++ a.extractLsb' 24 8
  | bclr => a &&& ~~~BitVec.twoPow 32 (b.toNat % 32)
  | bext => if a.getLsbD (b.toNat % 32) then 1 else 0
  | binv => a ^^^ BitVec.twoPow 32 (b.toNat % 32)
  | bset => a ||| BitVec.twoPow 32 (b.toNat % 32)

/-- The eight encodings of a row, by `funct3`. -/
abbrev Row := BitVec 3 → Option Alu

def rowOf (ops : List (Option Alu)) : Row := fun f3 => (ops[f3.toNat]?).join

/-- The encodings of the opcode OP, by `funct7`; that of `zext.h` has the register 0 in `rs2`. -/
def regOps (f7 : BitVec 7) (rs2 : Reg) : Row :=
  if f7 = 0x00 then
    rowOf [some .add, some .sll, some .slt, some .sltu, some .xor, some .srl, some .or,
      some .and]
  else if f7 = 0x01 then
    rowOf [some .mul, some .mulh, some .mulhsu, some .mulhu, some .div, some .divu,
      some .rem, some .remu]
  else if f7 = 0x04 then
    rowOf [none, none, none, none, if rs2 = 0 then some .zextH else none]
  else if f7 = 0x05 then
    rowOf [none, none, none, none, some .min, some .minu, some .max, some .maxu]
  else if f7 = 0x10 then
    rowOf [none, none, some .sh1add, none, some .sh2add, none, some .sh3add]
  else if f7 = 0x14 then
    rowOf [none, some .bset]
  else if f7 = 0x20 then
    rowOf [some .sub, none, none, none, some .xnor, some .sra, some .orn, some .andn]
  else if f7 = 0x24 then
    rowOf [none, some .bclr, none, none, none, some .bext]
  else if f7 = 0x30 then
    rowOf [none, some .rol, none, none, none, some .ror]
  else if f7 = 0x34 then
    rowOf [none, some .binv]
  else fun _ => none

/-- The operations on one operand have their number in the place of the shift amount. -/
def unaryOp (shamt : Reg) : Option Alu :=
  ([some .clz, some .ctz, some .cpop, none, some .sextB, some .sextH][shamt.toNat]?).join

/-- The shifts of the opcode OP-IMM, and what shares their two values of `funct3`. -/
def shiftOps (f7 : BitVec 7) (shamt : Reg) : Row :=
  if f7 = 0x00 then
    rowOf [none, some .sll, none, none, none, some .srl]
  else if f7 = 0x14 then
    rowOf [none, some .bset, none, none, none, if shamt = 7 then some .orcB else none]
  else if f7 = 0x20 then
    rowOf [none, none, none, none, none, some .sra]
  else if f7 = 0x24 then
    rowOf [none, some .bclr, none, none, none, some .bext]
  else if f7 = 0x30 then
    rowOf [none, unaryOp shamt, none, none, none, some .ror]
  else if f7 = 0x34 then
    rowOf [none, some .binv, none, none, none, if shamt = 0x18 then some .rev8 else none]
  else fun _ => none

/-- The encodings of the opcode OP-IMM. -/
def immOps (f7 : BitVec 7) (shamt : Reg) : Row := fun f3 =>
  if f3 = 1 ∨ f3 = 5 then shiftOps f7 shamt f3
  else rowOf [some .add, none, some .slt, some .sltu, some .xor, none, some .or, some .and] f3

/-- The operation of an encoding with one of the two opcodes, and none for an illegal one. -/
def aluOp (insn : Word) : Option Alu :=
  if opcode insn = opReg then regOps (funct7 insn) (rs2Of insn) (funct3 insn)
  else immOps (funct7 insn) (rs2Of insn) (funct3 insn)

/-- The second operand. -/
def operand (c : Core μ) (insn : Word) : Word :=
  if opcode insn = opReg then c.x (rs2Of insn) else immI insn

/-! ## Values -/

theorem mask31 (n : Word) : (n &&& 31).toNat = n.toNat % 32 := by
  rw [BitVec.toNat_and]
  exact Nat.and_two_pow_sub_one_eq_mod n.toNat 5

theorem amount_eq (n : Word) : amount n = n.toNat % 32 := mask31 n

theorem bext_eq (n : Nat) : a >>> n &&& 1 = if a.getLsbD n then 1 else 0 := by
  have hbit : (1 : Word) = BitVec.twoPow 32 0 := rfl
  rw [hbit, BitVec.and_twoPow, BitVec.getLsbD_ushiftRight, Nat.add_zero]
  rfl

theorem ofBool_slt : ofBool (a.slt b) = if a.toInt < b.toInt then 1 else 0 := by
  simp only [ofBool, BitVec.slt_iff_toInt_lt]

theorem ofBool_ult : ofBool (a.ult b) = if a.toNat < b.toNat then 1 else 0 := by
  simp only [ofBool, BitVec.ult_iff_toNat_lt]

theorem max_eq : (if b.slt a then a else b) = if a.toInt < b.toInt then b else a := by
  simp only [BitVec.slt_iff_toInt_lt]
  by_cases heq : a = b
  · rw [heq, ite_self]
  · have hne : a.toInt ≠ b.toInt := fun h => heq (BitVec.toInt_inj.1 h)
    split_ifs <;> first | rfl | omega

theorem maxu_eq : (if b.ult a then a else b) = if a.toNat < b.toNat then b else a := by
  simp only [BitVec.ult_iff_toNat_lt]
  by_cases heq : a = b
  · rw [heq, ite_self]
  · have hne : a.toNat ≠ b.toNat := fun h => heq (BitVec.eq_of_toNat_eq h)
    split_ifs <;> first | rfl | omega

theorem sub_amount (n : Word) : (32 - (n &&& 31)).toNat = 32 - n.toNat % 32 := by
  have hlt : n.toNat % 32 < 32 := Nat.mod_lt _ (by decide)
  rw [BitVec.toNat_sub_of_le, mask31]
  · rfl
  · rw [BitVec.le_def, mask31]
    exact hlt.le

theorem mask31_eq_zero {n : Word} (hn : n &&& 31 = 0) : n.toNat % 32 = 0 := by
  rw [← mask31, hn]
  rfl

theorem rotl32_eq (n : Word) : rotl32 a n = a.rotateLeft (n.toNat % 32) := by
  unfold rotl32
  by_cases hn : n &&& 31 = 0
  · have hzero : a.rotateLeft 0 = a := by
      simp [BitVec.rotateLeft_def, BitVec.ushiftRight_eq_zero]
    simp only [hn, mask31_eq_zero hn, hzero]
    rfl
  · simp only [ne_eq, hn, not_false_eq_true, if_true]
    rw [sub_amount n, mask31, BitVec.rotateLeft_def, Nat.mod_mod]

theorem rotr32_eq (n : Word) : rotr32 a n = a.rotateRight (n.toNat % 32) := by
  unfold rotr32
  by_cases hn : n &&& 31 = 0
  · have hzero : a.rotateRight 0 = a := by
      simp [BitVec.rotateRight_def]
    simp only [hn, mask31_eq_zero hn, hzero]
    rfl
  · simp only [ne_eq, hn, not_false_eq_true, if_true]
    rw [sub_amount n, mask31, BitVec.rotateRight_def, Nat.mod_mod]

theorem low_eq (n : Nat) (hn : n ≤ 32) : a.truncate n = a.extractLsb' 0 n :=
  BitVec.setWidth_eq_extractLsb' hn

theorem zextH_eq : a &&& 0xffff = (a.extractLsb' 0 16).zeroExtend 32 :=
  Lib.Bits.shiftRight_and_lowMask_self a 16 0

/-! ### Counts -/

theorem clzLoop_eq (fuel : Nat) (v n : Word) :
    clzLoop fuel v n = n + BitVec.ofNat 32 (zerosBefore v.getMsbD fuel) := by
  induction fuel generalizing v n with
  | zero => exact (BitVec.add_zero _).symm
  | succ fuel ih =>
    have hbit : v &&& 0x80000000 = 0 ↔ v.getMsbD 0 = false := by
      rw [BitVec.getMsbD_eq_getLsbD]
      exact Lib.Bits.and_twoPow_eq_zero v (i := 31) (by decide)
    have hnext : (fun i => v.getMsbD (i + 1)) = (v <<< 1).getMsbD := by
      funext i
      rw [BitVec.getMsbD_shiftLeft]
    rw [clzLoop, zerosBefore_succ, hnext]
    cases h0 : v.getMsbD 0 with
    | false =>
      rw [if_pos (hbit.2 h0), ih, if_neg (by decide), BitVec.add_assoc, Nat.add_comm,
        BitVec.ofNat_add]
      rfl
    | true =>
      rw [if_neg (fun h => absurd ((hbit.1 h).symm.trans h0) (by decide)), if_pos rfl]
      exact (BitVec.add_zero _).symm

theorem clz32_eq : clz32 a = BitVec.ofNat 32 (leadingZeros a) := by
  unfold clz32 leadingZeros
  by_cases h0 : a = 0
  · have hzero : ∀ i < 32, a.getMsbD i = false := by
      intro i _
      rw [h0]
      exact BitVec.getMsbD_zero
    rw [if_pos h0, zerosBefore_false hzero]
    rfl
  · rw [if_neg h0, clzLoop_eq]
    exact BitVec.zero_add _

theorem ctzLoop_eq (fuel : Nat) (v n : Word) :
    ctzLoop fuel v n = n + BitVec.ofNat 32 (zerosBefore v.getLsbD fuel) := by
  induction fuel generalizing v n with
  | zero => exact (BitVec.add_zero _).symm
  | succ fuel ih =>
    have hbit : v &&& 1 = 0 ↔ v.getLsbD 0 = false :=
      Lib.Bits.and_twoPow_eq_zero v (i := 0) (by decide)
    have hnext : (fun i => v.getLsbD (i + 1)) = (v >>> 1).getLsbD := by
      funext i
      rw [BitVec.getLsbD_ushiftRight, Nat.add_comm]
    rw [ctzLoop, zerosBefore_succ, hnext]
    cases h0 : v.getLsbD 0 with
    | false =>
      rw [if_pos (hbit.2 h0), ih, if_neg (by decide), BitVec.add_assoc, Nat.add_comm,
        BitVec.ofNat_add]
      rfl
    | true =>
      rw [if_neg (fun h => absurd ((hbit.1 h).symm.trans h0) (by decide)), if_pos rfl]
      exact (BitVec.add_zero _).symm

theorem ctz32_eq : ctz32 a = BitVec.ofNat 32 (trailingZeros a) := by
  unfold ctz32 trailingZeros
  by_cases h0 : a = 0
  · have hzero : ∀ i < 32, a.getLsbD i = false := by
      intro i _
      rw [h0]
      exact BitVec.getLsbD_zero
    rw [if_pos h0, zerosBefore_false hzero]
    rfl
  · rw [if_neg h0, ctzLoop_eq]
    exact BitVec.zero_add _

theorem cpopLoop_eq (fuel : Nat) (v n : Word) (hv : ones v ≤ fuel) :
    cpopLoop fuel v n = n + BitVec.ofNat 32 (ones v) := by
  induction fuel generalizing v n with
  | zero =>
    rw [Nat.le_zero.1 hv]
    exact (BitVec.add_zero _).symm
  | succ fuel ih =>
    rw [cpopLoop]
    by_cases h0 : v = 0
    · have hzero : ones v = 0 := by
        rw [h0]
        exact ones_zero
      rw [if_pos h0, hzero]
      exact (BitVec.add_zero _).symm
    · have hclear := ones_and_pred h0
      rw [if_neg h0, ih _ _ (by change ones (v &&& (v - 1#32)) ≤ fuel; omega), ← hclear,
        BitVec.add_assoc, Nat.add_comm, BitVec.ofNat_add]
      rfl

theorem cpop32_eq : cpop32 a = BitVec.ofNat 32 (ones a) := by
  rw [cpop32, cpopLoop_eq 32 a 0 onesIn_le]
  exact BitVec.zero_add _

/-! ### Bytes -/

theorem byte_zero {k : Nat} : a >>> k &&& 0xff ≠ 0 ↔ a.extractLsb' k 8 ≠ 0 := by
  have hbyte : a >>> k &&& 0xff = (a.extractLsb' k 8).zeroExtend 32 :=
    Lib.Bits.shiftRight_and_lowMask_self a 8 k
  rw [hbyte, not_iff_not]
  constructor
  · intro h0
    have htrunc := congrArg (BitVec.truncate 8) h0
    rwa [BitVec.truncate_eq_setWidth, BitVec.setWidth_setWidth_of_le _ (by decide),
      BitVec.setWidth_eq] at htrunc
  · intro h0
    rw [h0]
    rfl

theorem orcb32_eq : orcb32 a = orByte (a.extractLsb' 24 8) ++ orByte (a.extractLsb' 16 8) ++
    orByte (a.extractLsb' 8 8) ++ orByte (a.extractLsb' 0 8) := by
  unfold orcb32 orByte
  simp only [List.foldl_cons, List.foldl_nil, byte_zero]
  by_cases h0 : a.extractLsb' 0 8 = 0 <;> by_cases h1 : a.extractLsb' 8 8 = 0 <;>
    by_cases h2 : a.extractLsb' 16 8 = 0 <;> by_cases h3 : a.extractLsb' 24 8 = 0 <;>
    simp only [h0, h1, h2, h3, ne_eq, not_true_eq_false, not_false_eq_true, if_true, if_false] <;>
    rfl

theorem rev8_eq : rev8 a =
    a.extractLsb' 0 8 ++ a.extractLsb' 8 8 ++ a.extractLsb' 16 8 ++ a.extractLsb' 24 8 := by
  have hmid : ∀ i < 32, ((0xff00 : Nat) : Word).getLsbD i = decide (8 ≤ i ∧ i < 16) := by
    decide
  have hhigh : ∀ i < 32, ((0xff0000 : Nat) : Word).getLsbD i = decide (16 ≤ i ∧ i < 24) := by
    decide
  apply BitVec.eq_of_getLsbD_eq
  intro i hi
  rw [rev8, BitVec.getLsbD_or, BitVec.getLsbD_or, BitVec.getLsbD_or, BitVec.getLsbD_and,
    BitVec.getLsbD_and, hmid i hi, hhigh i hi, BitVec.getLsbD_ushiftRight,
    BitVec.getLsbD_ushiftRight, BitVec.getLsbD_shiftLeft, BitVec.getLsbD_shiftLeft]
  simp only [BitVec.getLsbD_append, BitVec.getLsbD_extractLsb']
  have hbyte : i < 8 ∨ 8 ≤ i ∧ i < 16 ∨ 16 ≤ i ∧ i < 24 ∨ 24 ≤ i := by omega
  rcases hbyte with h | ⟨hlo, hhi⟩ | ⟨hlo, hhi⟩ | h
  · simp [h, show ¬ 8 ≤ i by omega, show ¬ 16 ≤ i by omega, show i < 24 by omega, hi]
  · have hhere : 16 + (i - 8) = 8 + i := by omega
    simp [hhi, hlo, show ¬ i < 8 by omega, show ¬ 16 ≤ i by omega, show i < 24 by omega, hi,
      show i - 8 < 8 by omega, hhere, BitVec.getLsbD_of_ge a (24 + i) (by omega)]
  · have hhere : 8 + (i - 8 - 8) = i - 8 := by omega
    simp [hhi, hlo, show ¬ i < 8 by omega, show ¬ i < 16 by omega, hi, show ¬ i - 8 < 8 by omega,
      show i - 8 - 8 < 8 by omega, hhere, BitVec.getLsbD_of_ge a (24 + i) (by omega)]
  · have hhere : i - 8 - 8 - 8 = i - 24 := by omega
    simp [show ¬ i < 8 by omega, show ¬ i < 16 by omega, show ¬ i < 24 by omega, hi,
      show ¬ i - 8 < 8 by omega, show ¬ i - 8 - 8 < 8 by omega, show i - 24 < 8 by omega, hhere,
      BitVec.getLsbD_of_ge a (24 + i) (by omega)]

/-! ### Multiplication and division -/

theorem high_ofInt (z : Int) :
    ((BitVec.ofInt 64 z >>> 32).truncate 32 : Word) = BitVec.ofInt 32 (z / 2 ^ 32) := by
  apply BitVec.eq_of_toNat_eq
  rw [BitVec.toNat_setWidth, BitVec.toNat_ushiftRight, BitVec.toNat_ofInt, BitVec.toNat_ofInt,
    Nat.shiftRight_eq_div_pow]
  omega

theorem mulh_eq : ((a.signExtend 64 * b.signExtend 64) >>> 32).truncate 32 =
    BitVec.ofInt 32 (a.toInt * b.toInt / 2 ^ 32) := by
  rw [BitVec.signExtend, BitVec.signExtend, ← BitVec.ofInt_mul, high_ofInt]

theorem extend_eq (n : Nat) : (a.zeroExtend n) = BitVec.ofInt n a.toNat := by
  rw [BitVec.ofInt_natCast]
  exact (BitVec.ofNat_toNat n a).symm

theorem mulhsu_eq : ((a.signExtend 64 * b.zeroExtend 64) >>> 32).truncate 32 =
    BitVec.ofInt 32 (a.toInt * b.toNat / 2 ^ 32) := by
  rw [BitVec.signExtend, extend_eq, ← BitVec.ofInt_mul, high_ofInt]

theorem mulhu_eq : ((a.zeroExtend 64 * b.zeroExtend 64) >>> 32).truncate 32 =
    BitVec.ofInt 32 (a.toNat * b.toNat / 2 ^ 32) := by
  rw [extend_eq, extend_eq, ← BitVec.ofInt_mul, high_ofInt]

theorem mul_eq : a * b = BitVec.ofInt 32 (a.toInt * b.toInt) := by
  rw [BitVec.ofInt_mul, BitVec.ofInt_toInt, BitVec.ofInt_toInt]

theorem sdiv_eq : a.sdiv b = BitVec.ofInt 32 (a.toInt.tdiv b.toInt) := by
  apply BitVec.eq_of_toInt_eq
  rw [BitVec.toInt_sdiv, BitVec.toInt_ofInt]

theorem srem_eq : a.srem b = BitVec.ofInt 32 (a.toInt.tmod b.toInt) := by
  rw [← BitVec.toInt_srem, BitVec.ofInt_toInt]

theorem execMul_div : execMul 4 a b = Alu.div.value a b := by
  have hdiv : execMul 4 a b = if b = 0 then 0xffffffff
      else if a = 0x80000000 ∧ b = 0xffffffff then 0x80000000 else a.sdiv b := rfl
  rw [hdiv, Alu.value]
  split_ifs with h0 hover
  · rfl
  · rw [hover.1, hover.2]
    decide
  · exact sdiv_eq

theorem execMul_rem : execMul 6 a b = Alu.rem.value a b := by
  have hrem : execMul 6 a b = if b = 0 then a
      else if a = 0x80000000 ∧ b = 0xffffffff then 0 else a.srem b := rfl
  rw [hrem, Alu.value]
  split_ifs with h0 hover
  · rfl
  · rw [hover.1, hover.2]
    decide
  · exact srem_eq

theorem execMul_divu : execMul 5 a b = Alu.divu.value a b := by
  have hdivu : execMul 5 a b = if b = 0 then 0xffffffff else a / b := rfl
  rw [hdivu, Alu.value]
  split_ifs with h0
  · rfl
  · apply BitVec.eq_of_toNat_eq
    rw [BitVec.toNat_udiv, BitVec.toNat_ofNat, Nat.mod_eq_of_lt]
    exact Nat.lt_of_le_of_lt (Nat.div_le_self _ _) a.isLt

theorem execMul_remu : execMul 7 a b = Alu.remu.value a b := by
  have hremu : execMul 7 a b = if b = 0 then a else a % b := rfl
  rw [hremu, Alu.value]
  split_ifs with h0
  · rfl
  · apply BitVec.eq_of_toNat_eq
    have hlt : a.toNat % b.toNat < 2 ^ 32 := Nat.lt_of_le_of_lt (Nat.mod_le _ _) a.isLt
    rw [BitVec.toNat_umod, BitVec.toNat_ofNat, Nat.mod_eq_of_lt hlt]

/-! ## Encodings -/

theorem bits3 (f : BitVec 3) :
    f = 0 ∨ f = 1 ∨ f = 2 ∨ f = 3 ∨ f = 4 ∨ f = 5 ∨ f = 6 ∨ f = 7 := by
  revert f
  decide

/-- The write of an operation, or the trap of an illegal encoding. -/
def aluEffect (insn next a b : Word) (op : Option Alu) : Effect μ :=
  match op with
  | some op => putX (rdOf insn) (op.value a b) next
  | none => reject insn next

theorem aluEffect_some {op : Alu} {v : Word} (hv : v = op.value a b) :
    (putX (rdOf insn) v next : Effect μ) = aluEffect insn next a b (some op) := by
  rw [hv]
  rfl

theorem shift_eq : a <<< amount b = Alu.sll.value a b := by rw [amount_eq]; rfl

theorem ushift_eq : a >>> amount b = Alu.srl.value a b := by rw [amount_eq]; rfl

theorem sshift_eq : a.sshiftRight (amount b) = Alu.sra.value a b := by rw [amount_eq]; rfl

theorem execMul_effect (f3 : BitVec 3) (rs2 : Reg) :
    (putX (rdOf insn) (execMul f3 a b) next : Effect μ) =
      aluEffect insn next a b (regOps 0x01 rs2 f3) := by
  rcases bits3 f3 with rfl | rfl | rfl | rfl | rfl | rfl | rfl | rfl
  · exact aluEffect_some mul_eq
  · exact aluEffect_some mulh_eq
  · exact aluEffect_some mulhsu_eq
  · exact aluEffect_some mulhu_eq
  · exact aluEffect_some execMul_div
  · exact aluEffect_some execMul_divu
  · exact aluEffect_some execMul_rem
  · exact aluEffect_some execMul_remu

section Bits

variable (a b)

theorem bset_eq : a ||| (1 : Word) <<< amount b = Alu.bset.value a b := by rw [amount_eq]; rfl

theorem bclr_eq : a &&& ~~~((1 : Word) <<< amount b) = Alu.bclr.value a b := by rw [amount_eq]; rfl

theorem binv_eq : a ^^^ (1 : Word) <<< amount b = Alu.binv.value a b := by rw [amount_eq]; rfl

theorem bext_value : a >>> amount b &&& 1 = Alu.bext.value a b := by rw [bext_eq, amount_eq]; rfl

theorem rol_eq : rotl32 a (b &&& 31) = Alu.rol.value a b := by
  rw [rotl32_eq, mask31, Nat.mod_mod]
  rfl

theorem ror_eq : rotr32 a (b &&& 31) = Alu.ror.value a b := by
  rw [rotr32_eq, mask31, Nat.mod_mod]
  rfl

end Bits

/-- What the register forms of Zba, Zbb and Zbs give, with the machine that has them. -/
def zbEffect (insn next : Word) (v : Option Word) : Effect μ :=
  match v with
  | some v => putX (rdOf insn) v next
  | none => reject insn next

variable (insn next) in
theorem zbReg_eq (hb : c.bitmanip = true) : zbReg c insn next =
    zbEffect insn next (bitmanipReg insn (funct3 insn) (funct7 insn) (c.x (rs1Of insn))
      (c.x (rs2Of insn))) := by
  rw [zbReg, hb]
  unfold zbEffect
  cases bitmanipReg insn (funct3 insn) (funct7 insn) (c.x (rs1Of insn)) (c.x (rs2Of insn)) <;> rfl

variable (μ insn next a b) in
theorem bitmanipReg_effect (f3 : BitVec 3) {f7 : BitVec 7} (h0 : f7 ≠ 0x00) (h1 : f7 ≠ 0x01)
    (h20 : f7 = 0x20 → f3 ≠ 0 ∧ f3 ≠ 5) :
    (zbEffect insn next (bitmanipReg insn f3 f7 a b) : Effect μ) =
      aluEffect insn next a b (regOps f7 (rs2Of insn) f3) := by
  by_cases h04 : f7 = 0x04
  · subst h04
    rcases bits3 f3 with rfl | rfl | rfl | rfl | rfl | rfl | rfl | rfl <;> try rfl
    by_cases hrs2 : rs2Of insn = 0
    · have hreg : bitmanipReg insn 4 0x04 a b = some (a &&& 0xffff) := if_pos ⟨rfl, hrs2⟩
      rw [hreg, hrs2]
      exact aluEffect_some zextH_eq
    · have hreg : bitmanipReg insn 4 0x04 a b = none := if_neg fun h => hrs2 h.2
      have hrow : regOps 0x04 (rs2Of insn) 4 = none := by
        rw [regOps]
        simp only [hrs2]
        rfl
      rw [hreg, hrow]
      rfl
  by_cases h05 : f7 = 0x05
  · subst h05
    rcases bits3 f3 with rfl | rfl | rfl | rfl | rfl | rfl | rfl | rfl <;> try rfl
    · exact aluEffect_some (by simp only [BitVec.slt_iff_toInt_lt]; rfl)
    · exact aluEffect_some (by simp only [BitVec.ult_iff_toNat_lt]; rfl)
    · exact aluEffect_some max_eq
    · exact aluEffect_some maxu_eq
  by_cases h10 : f7 = 0x10
  · subst h10
    rcases bits3 f3 with rfl | rfl | rfl | rfl | rfl | rfl | rfl | rfl <;> rfl
  by_cases h14 : f7 = 0x14
  · subst h14
    rcases bits3 f3 with rfl | rfl | rfl | rfl | rfl | rfl | rfl | rfl <;> try rfl
    exact aluEffect_some (bset_eq a b)
  by_cases hf20 : f7 = 0x20
  · subst hf20
    obtain ⟨hadd, hshift⟩ := h20 rfl
    rcases bits3 f3 with rfl | rfl | rfl | rfl | rfl | rfl | rfl | rfl <;> try rfl
    · exact absurd rfl hadd
    · exact absurd rfl hshift
  by_cases h24 : f7 = 0x24
  · subst h24
    rcases bits3 f3 with rfl | rfl | rfl | rfl | rfl | rfl | rfl | rfl <;> try rfl
    · exact aluEffect_some (bclr_eq a b)
    · exact aluEffect_some (bext_value a b)
  by_cases h30 : f7 = 0x30
  · subst h30
    rcases bits3 f3 with rfl | rfl | rfl | rfl | rfl | rfl | rfl | rfl <;> try rfl
    · exact aluEffect_some (rol_eq a b)
    · exact aluEffect_some (ror_eq a b)
  by_cases h34 : f7 = 0x34
  · subst h34
    rcases bits3 f3 with rfl | rfl | rfl | rfl | rfl | rfl | rfl | rfl <;> try rfl
    exact aluEffect_some (binv_eq a b)
  have hnone : bitmanipReg insn f3 f7 a b = none := by
    simp only [bitmanipReg, h04, h05, h10, h14, hf20, h24, h30, h34, if_false]
  have hrow : regOps f7 (rs2Of insn) f3 = none := by
    simp only [regOps, h0, h1, h04, h05, h10, h14, hf20, h24, h30, h34, if_false]
  rw [hnone, hrow]
  rfl

theorem execReg_eq (hb : c.bitmanip = true) : (execReg c insn next : Effect μ) =
    aluEffect insn next (c.x (rs1Of insn)) (c.x (rs2Of insn))
      (regOps (funct7 insn) (rs2Of insn) (funct3 insn)) := by
  have hzb := zbReg_eq insn next hb
  rw [execReg]
  generalize c.x (rs1Of insn) = a at *
  generalize c.x (rs2Of insn) = b at *
  generalize funct3 insn = f3 at *
  generalize funct7 insn = f7 at *
  by_cases h1 : f7 = 0x01
  · subst h1
    exact execMul_effect f3 (rs2Of insn)
  by_cases h0 : f7 = 0x00
  · subst h0
    rcases bits3 f3 with rfl | rfl | rfl | rfl | rfl | rfl | rfl | rfl
    · rfl
    · exact aluEffect_some shift_eq
    · exact aluEffect_some ofBool_slt
    · exact aluEffect_some ofBool_ult
    · rfl
    · exact aluEffect_some ushift_eq
    · rfl
    · rfl
  by_cases h20 : f7 = 0x20 ∧ (f3 = 0 ∨ f3 = 5)
  · obtain ⟨rfl, rfl | rfl⟩ := h20
    · rfl
    · exact aluEffect_some sshift_eq
  -- every other encoding falls through to the extensions
  have hrow := bitmanipReg_effect μ insn next a b f3 h0 h1
    fun hf => ⟨fun h => h20 ⟨hf, .inl h⟩, fun h => h20 ⟨hf, .inr h⟩⟩
  rw [if_neg h1, ← hrow, ← hzb]
  by_cases hf : f7 = 0x20
  · have hadd : f3 ≠ 0 := fun h => h20 ⟨hf, .inl h⟩
    have hshift : f3 ≠ 5 := fun h => h20 ⟨hf, .inr h⟩
    rw [if_neg (fun h => h.2 hf), if_neg hadd, if_neg hshift, if_pos h0]
  · exact if_pos ⟨h0, hf⟩

/-! ### Immediate forms -/

theorem shamt_immI (insn : Word) : (immI insn).toNat % 32 = (rs2Of insn).toNat := by
  have hlow : (immI insn).extractLsb' 0 5 = rs2Of insn := by
    apply BitVec.eq_of_getLsbD_eq
    intro i hi
    rw [immI, rs2Of, BitVec.getLsbD_extractLsb', BitVec.getLsbD_extractLsb',
      BitVec.getLsbD_sshiftRight]
    have hin : 20 + i < 32 := by omega
    simp [hi, hin, show i < 32 by omega]
  rw [← hlow, BitVec.extractLsb'_toNat, Nat.shiftRight_zero]

theorem shamt_amount (insn : Word) : amount (immI insn) = (rs2Of insn).toNat := by
  rw [amount_eq, shamt_immI]

variable (insn next) in
theorem zbImm_eq (hb : c.bitmanip = true) : zbImm c insn next =
    zbEffect insn next (bitmanipImm insn (funct3 insn) (funct7 insn) (c.x (rs1Of insn))) := by
  rw [zbImm, hb]
  unfold zbEffect
  cases bitmanipImm insn (funct3 insn) (funct7 insn) (c.x (rs1Of insn)) <;> rfl

theorem sext8_eq : sext8 a = Alu.sextB.value a b := by
  rw [sext8, low_eq 8 (by decide)]
  rfl

theorem sext16_eq : sext16 a = Alu.sextH.value a b := by
  rw [sext16, low_eq 16 (by decide)]
  rfl

theorem unary_effect (shamt : Reg) :
    (zbEffect insn next (if shamt = 0x00 then some (clz32 a)
      else if shamt = 0x01 then some (ctz32 a)
      else if shamt = 0x02 then some (cpop32 a)
      else if shamt = 0x04 then some (sext8 a)
      else if shamt = 0x05 then some (sext16 a)
      else none) : Effect μ) = aluEffect insn next a b (unaryOp shamt) := by
  split_ifs with h0 h1 h2 h4 h5
  · subst h0
    exact aluEffect_some clz32_eq
  · subst h1
    exact aluEffect_some ctz32_eq
  · subst h2
    exact aluEffect_some cpop32_eq
  · subst h4
    exact aluEffect_some sext8_eq
  · subst h5
    exact aluEffect_some sext16_eq
  · have hnone : ∀ m : Reg, m ≠ 0 → m ≠ 1 → m ≠ 2 → m ≠ 4 → m ≠ 5 → unaryOp m = none := by
      decide
    rw [hnone shamt h0 h1 h2 h4 h5]
    rfl

variable (μ insn next a) in
theorem bitmanipImm_effect {f3 : BitVec 3} {f7 : BitVec 7} (hf3 : f3 = 1 ∨ f3 = 5)
    (h0 : f7 ≠ 0x00) (h20 : f7 = 0x20 → f3 = 1) :
    (zbEffect insn next (bitmanipImm insn f3 f7 a) : Effect μ) =
      aluEffect insn next a (immI insn) (shiftOps f7 (rs2Of insn) f3) := by
  have hbit := shamt_amount insn
  by_cases h14 : f7 = 0x14
  · subst h14
    rcases hf3 with rfl | rfl
    · rw [bitmanipImm, ← hbit]
      exact aluEffect_some (bset_eq a (immI insn))
    · by_cases hsh : rs2Of insn = 7
      · rw [hsh]
        have himm : bitmanipImm insn 5 0x14 a = some (orcb32 a) := if_pos ⟨rfl, hsh⟩
        rw [himm]
        exact aluEffect_some orcb32_eq
      · have himm : bitmanipImm insn 5 0x14 a = none := if_neg fun h => hsh h.2
        have hrow : shiftOps 0x14 (rs2Of insn) 5 = none := by
          rw [shiftOps]
          simp only [hsh]
          rfl
        rw [himm, hrow]
        rfl
  by_cases h24 : f7 = 0x24
  · subst h24
    rcases hf3 with rfl | rfl
    · rw [bitmanipImm, ← hbit]
      exact aluEffect_some (bclr_eq a (immI insn))
    · rw [bitmanipImm, ← hbit]
      exact aluEffect_some (bext_value a (immI insn))
  by_cases h30 : f7 = 0x30
  · subst h30
    rcases hf3 with rfl | rfl
    · exact unary_effect (rs2Of insn)
    · have hror : rotr32 a ((rs2Of insn).zeroExtend 32) = Alu.ror.value a (immI insn) := by
        have hlt : (rs2Of insn).toNat < 32 := (rs2Of insn).isLt
        rw [rotr32_eq, Alu.value, shamt_immI, BitVec.toNat_setWidth,
          Nat.mod_eq_of_lt (by omega : (rs2Of insn).toNat < 2 ^ 32), Nat.mod_eq_of_lt hlt]
      exact aluEffect_some hror
  by_cases h34 : f7 = 0x34
  · subst h34
    rcases hf3 with rfl | rfl
    · rw [bitmanipImm, ← hbit]
      exact aluEffect_some (binv_eq a (immI insn))
    · by_cases hsh : rs2Of insn = 0x18
      · rw [hsh]
        have himm : bitmanipImm insn 5 0x34 a = some (rev8 a) := if_pos ⟨rfl, hsh⟩
        rw [himm]
        exact aluEffect_some rev8_eq
      · have himm : bitmanipImm insn 5 0x34 a = none := if_neg fun h => hsh h.2
        have hrow : shiftOps 0x34 (rs2Of insn) 5 = none := by
          rw [shiftOps]
          simp only [hsh]
          rfl
        rw [himm, hrow]
        rfl
  have hnone : bitmanipImm insn f3 f7 a = none := by
    simp only [bitmanipImm, h14, h24, h30, h34, if_false]
  have hrow : shiftOps f7 (rs2Of insn) f3 = none := by
    by_cases hf : f7 = 0x20
    · rw [hf, h20 hf]
      rfl
    · simp only [shiftOps, h0, h14, hf, h24, h30, h34, if_false]
  rw [hnone, hrow]
  rfl

theorem execImm_eq (hb : c.bitmanip = true) : (execImm c insn next : Effect μ) =
    aluEffect insn next (c.x (rs1Of insn)) (immI insn)
      (immOps (funct7 insn) (rs2Of insn) (funct3 insn)) := by
  have hzb := zbImm_eq insn next hb
  rw [execImm]
  generalize c.x (rs1Of insn) = a at *
  generalize funct3 insn = f3 at *
  generalize funct7 insn = f7 at *
  rcases bits3 f3 with rfl | rfl | rfl | rfl | rfl | rfl | rfl | rfl
  · rfl
  · by_cases h0 : f7 = 0
    · subst h0
      exact aluEffect_some shift_eq
    · have hrow := bitmanipImm_effect μ insn next a (.inl rfl) h0 fun _ => rfl
      exact (if_pos h0).trans (hzb.trans hrow)
  · exact aluEffect_some ofBool_slt
  · exact aluEffect_some ofBool_ult
  · rfl
  · by_cases h0 : f7 = 0
    · subst h0
      exact aluEffect_some ushift_eq
    by_cases h20 : f7 = 0x20
    · subst h20
      exact aluEffect_some sshift_eq
    · have hrow := bitmanipImm_effect μ insn next a (.inr rfl) h0 fun h => absurd h h20
      exact (if_neg h0).trans ((if_neg h20).trans (hzb.trans hrow))
  · rfl
  · rfl

/-! ## Execution -/

theorem aluEffect_apply (op : Option Alu) : (aluEffect insn next a b op : Effect μ).apply s =
    match op with
    | some op => (clearX0 (s.setX (rdOf insn) (op.value a b)), next)
    | none => (raise s (illegal insn), next) := by
  cases op with
  | none => rfl
  | some op => exact putX_apply (rdOf insn) (op.value a b) next

/-- The two opcodes give the values of the specification, and reject every encoding it leaves
undefined. -/
theorem exec_alu (h : Host μ) (s : Cpu μ) (insn next : Word)
    (hop : opcode insn = opReg ∨ opcode insn = opImm) (hb : s.bitmanip = true) :
    exec h s insn next =
        (match aluOp insn with
          | some op => (clearX0 (s.setX (rdOf insn)
              (op.value (s.x (rs1Of insn)) (operand s.toCore insn))), next)
          | none => (raise s (illegal insn), next)) ∧
      ∀ v : Word, clz32 v = BitVec.ofNat 32 (leadingZeros v) ∧
        ctz32 v = BitVec.ofNat 32 (trailingZeros v) ∧ cpop32 v = BitVec.ofNat 32 (ones v) := by
  refine ⟨?_, fun v => ⟨clz32_eq, ctz32_eq, cpop32_eq⟩⟩
  rcases hop with hop | hop
  · have hexec : exec h s insn next = (execReg s.toCore insn next).apply s := by
      simp only [exec, execCore, hop]
      rfl
    have halu : aluOp insn = regOps (funct7 insn) (rs2Of insn) (funct3 insn) := if_pos hop
    have hb2 : operand s.toCore insn = s.x (rs2Of insn) := if_pos hop
    rw [hexec, execReg_eq hb, aluEffect_apply, halu, hb2]
  · have hexec : exec h s insn next = (execImm s.toCore insn next).apply s := by
      simp only [exec, execCore, hop]
      rfl
    have hreg : ¬ opcode insn = opReg := by
      rw [hop]
      decide
    have halu : aluOp insn = immOps (funct7 insn) (rs2Of insn) (funct3 insn) := if_neg hreg
    have hb2 : operand s.toCore insn = immI insn := if_neg hreg
    rw [hexec, execImm_eq hb, aluEffect_apply, halu, hb2]

/-- `div x1, x2, x3` -/
def divInsn : Word := 0x023140b3

theorem exec_alu_div_zero : exec zeroHost (rvReset (rvInit ()) 0) divInsn 4 =
    (clearX0 ((rvReset (rvInit ()) 0).setX 1 (BitVec.ofInt 32 (-1))), 4) :=
  (exec_alu zeroHost (rvReset (rvInit ()) 0) divInsn 4 (.inl (by decide)) rfl).1

end MechanicalResearcher.Rv32
