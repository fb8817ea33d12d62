import MechanicalResearcher.Lib.Bits
import MechanicalResearcher.Rv32.Decode

/-!
# The fields of an encoding

The encoders put operands together, and the fields of the encoding and its immediate give them
back.  An operand is a field of its own width here, that the source holds in a word.
-/

namespace MechanicalResearcher.Rv32

open Lib.Bits

section Encoders

variable (imm rs2 rs1 f3 rd op : Word)

theorem encI_fields : encI imm rs1 f3 rd op =
    (imm.extractLsb' 0 12).zeroExtend 32 <<< 20 ||| rs1 <<< 15 ||| f3 <<< 12 ||| rd <<< 7 |||
      op := by
  have h : imm &&& 0xfff = (imm.extractLsb' 0 12).zeroExtend 32 :=
    shiftRight_and_lowMask_self imm 12 0
  rw [encI, h]

theorem encS_fields : encS imm rs2 rs1 f3 op =
    (imm.extractLsb' 5 7).zeroExtend 32 <<< 25 ||| rs2 <<< 20 ||| rs1 <<< 15 ||| f3 <<< 12 |||
      (imm.extractLsb' 0 5).zeroExtend 32 <<< 7 ||| op := by
  have h7 : imm >>> 5 &&& 0x7f = (imm.extractLsb' 5 7).zeroExtend 32 :=
    shiftRight_and_lowMask_self imm 7 5
  have h5 : imm &&& 0x1f = (imm.extractLsb' 0 5).zeroExtend 32 :=
    shiftRight_and_lowMask_self imm 5 0
  rw [encS, h7, h5]

theorem encB_fields : encB imm rs2 rs1 f3 op =
    (imm.extractLsb' 12 1).zeroExtend 32 <<< 31 ||| (imm.extractLsb' 5 6).zeroExtend 32 <<< 25 |||
      rs2 <<< 20 ||| rs1 <<< 15 ||| f3 <<< 12 ||| (imm.extractLsb' 1 4).zeroExtend 32 <<< 8 |||
      (imm.extractLsb' 11 1).zeroExtend 32 <<< 7 ||| op := by
  have h1 : ∀ k, imm >>> k &&& 1 = (imm.extractLsb' k 1).zeroExtend 32 :=
    shiftRight_and_lowMask_self imm 1
  have h6 : imm >>> 5 &&& 0x3f = (imm.extractLsb' 5 6).zeroExtend 32 :=
    shiftRight_and_lowMask_self imm 6 5
  have h4 : imm >>> 1 &&& 0xf = (imm.extractLsb' 1 4).zeroExtend 32 :=
    shiftRight_and_lowMask_self imm 4 1
  rw [encB, h1, h1, h6, h4]

theorem encJ_fields : encJ imm rd op =
    (imm.extractLsb' 20 1).zeroExtend 32 <<< 31 ||| (imm.extractLsb' 1 10).zeroExtend 32 <<< 21 |||
      (imm.extractLsb' 11 1).zeroExtend 32 <<< 20 |||
      (imm.extractLsb' 12 8).zeroExtend 32 <<< 12 ||| rd <<< 7 ||| op := by
  have h1 : ∀ k, imm >>> k &&& 1 = (imm.extractLsb' k 1).zeroExtend 32 :=
    shiftRight_and_lowMask_self imm 1
  have h10 : imm >>> 1 &&& 0x3ff = (imm.extractLsb' 1 10).zeroExtend 32 :=
    shiftRight_and_lowMask_self imm 10 1
  have h8 : imm >>> 12 &&& 0xff = (imm.extractLsb' 12 8).zeroExtend 32 :=
    shiftRight_and_lowMask_self imm 8 12
  rw [encJ, h1, h1, h10, h8]

end Encoders

section Operands

variable (imm : Word) (f7 : BitVec 7) (rs2 rs1 : Reg) (f3 : BitVec 3) (rd : Reg) (op : BitVec 7)

def typeR : Word :=
  encR (f7.zeroExtend 32) (rs2.zeroExtend 32) (rs1.zeroExtend 32) (f3.zeroExtend 32)
    (rd.zeroExtend 32) (op.zeroExtend 32)

def typeI : Word :=
  encI imm (rs1.zeroExtend 32) (f3.zeroExtend 32) (rd.zeroExtend 32) (op.zeroExtend 32)

def typeS : Word :=
  encS imm (rs2.zeroExtend 32) (rs1.zeroExtend 32) (f3.zeroExtend 32) (op.zeroExtend 32)

def typeB : Word :=
  encB imm (rs2.zeroExtend 32) (rs1.zeroExtend 32) (f3.zeroExtend 32) (op.zeroExtend 32)

def typeJ : Word := encJ imm (rd.zeroExtend 32) (op.zeroExtend 32)

/-- The source has no encoder for this format. -/
def typeU : Word := (imm &&& 0xfffff000) ||| rd.zeroExtend 32 <<< 7 ||| op.zeroExtend 32

theorem typeU_fields : typeU imm rd op =
    (imm.extractLsb' 12 20).zeroExtend 32 <<< 12 ||| rd.zeroExtend 32 <<< 7 |||
      op.zeroExtend 32 := by
  have h : imm &&& 0xfffff000 = (imm.extractLsb' 12 20).zeroExtend 32 <<< 12 :=
    and_not_lowMask imm 12
  rw [typeU, h]

/-! ### Fields -/

attribute [local simp] BitVec.extractLsb'_or extract_field extract_lowest extract_below
  extract_above extract_above_lowest

@[simp] theorem opcode_typeR : opcode (typeR f7 rs2 rs1 f3 rd op) = op := by
  simp [opcode, typeR, encR]

@[simp] theorem rdOf_typeR : rdOf (typeR f7 rs2 rs1 f3 rd op) = rd := by
  simp [rdOf, typeR, encR]

@[simp] theorem funct3_typeR : funct3 (typeR f7 rs2 rs1 f3 rd op) = f3 := by
  simp [funct3, typeR, encR]

@[simp] theorem rs1Of_typeR : rs1Of (typeR f7 rs2 rs1 f3 rd op) = rs1 := by
  simp [rs1Of, typeR, encR]

@[simp] theorem rs2Of_typeR : rs2Of (typeR f7 rs2 rs1 f3 rd op) = rs2 := by
  simp [rs2Of, typeR, encR]

@[simp] theorem funct7_typeR : funct7 (typeR f7 rs2 rs1 f3 rd op) = f7 := by
  simp [funct7, typeR, encR]

@[simp] theorem opcode_typeI : opcode (typeI imm rs1 f3 rd op) = op := by
  simp [opcode, typeI, encI_fields]

@[simp] theorem rdOf_typeI : rdOf (typeI imm rs1 f3 rd op) = rd := by
  simp [rdOf, typeI, encI_fields]

@[simp] theorem funct3_typeI : funct3 (typeI imm rs1 f3 rd op) = f3 := by
  simp [funct3, typeI, encI_fields]

@[simp] theorem rs1Of_typeI : rs1Of (typeI imm rs1 f3 rd op) = rs1 := by
  simp [rs1Of, typeI, encI_fields]

@[simp] theorem funct7_typeI : funct7 (typeI imm rs1 f3 rd op) = imm.extractLsb' 5 7 := by
  rw [funct7, typeI, encI_fields, show (12 : Nat) = 5 + 7 from rfl, extract_split]
  simp [BitVec.shiftLeft_or_distrib, ← BitVec.shiftLeft_add]

@[simp] theorem rs2Of_typeI : rs2Of (typeI imm rs1 f3 rd op) = imm.extractLsb' 0 5 := by
  rw [rs2Of, typeI, encI_fields, show (12 : Nat) = 5 + 7 from rfl, extract_split]
  simp [BitVec.shiftLeft_or_distrib, ← BitVec.shiftLeft_add]

@[simp] theorem opcode_typeS : opcode (typeS imm rs2 rs1 f3 op) = op := by
  simp [opcode, typeS, encS_fields]

@[simp] theorem funct3_typeS : funct3 (typeS imm rs2 rs1 f3 op) = f3 := by
  simp [funct3, typeS, encS_fields]

@[simp] theorem rs1Of_typeS : rs1Of (typeS imm rs2 rs1 f3 op) = rs1 := by
  simp [rs1Of, typeS, encS_fields]

@[simp] theorem rs2Of_typeS : rs2Of (typeS imm rs2 rs1 f3 op) = rs2 := by
  simp [rs2Of, typeS, encS_fields]

@[simp] theorem opcode_typeB : opcode (typeB imm rs2 rs1 f3 op) = op := by
  simp [opcode, typeB, encB_fields]

@[simp] theorem funct3_typeB : funct3 (typeB imm rs2 rs1 f3 op) = f3 := by
  simp [funct3, typeB, encB_fields]

@[simp] theorem rs1Of_typeB : rs1Of (typeB imm rs2 rs1 f3 op) = rs1 := by
  simp [rs1Of, typeB, encB_fields]

@[simp] theorem rs2Of_typeB : rs2Of (typeB imm rs2 rs1 f3 op) = rs2 := by
  simp [rs2Of, typeB, encB_fields]

@[simp] theorem opcode_typeJ : opcode (typeJ imm rd op) = op := by
  simp [opcode, typeJ, encJ_fields]

@[simp] theorem rdOf_typeJ : rdOf (typeJ imm rd op) = rd := by
  simp [rdOf, typeJ, encJ_fields]

@[simp] theorem opcode_typeU : opcode (typeU imm rd op) = op := by
  simp [opcode, typeU_fields]

@[simp] theorem rdOf_typeU : rdOf (typeU imm rd op) = rd := by
  simp [rdOf, typeU_fields]

/-! ### Immediates -/

theorem immU_typeU : immU (typeU imm rd op) = imm &&& 0xfffff000 := by
  have h : ∀ i : Word, i &&& (0xfffff000 : Word) = (i.extractLsb' 12 20).zeroExtend 32 <<< 12 :=
    fun i => and_not_lowMask i 12
  rw [immU, h, h, typeU_fields]
  simp

theorem immI_typeI : immI (typeI imm rs1 f3 rd op) = (imm.extractLsb' 0 12).signExtend 32 := by
  rw [immI, sshiftRight_eq_signExtend _ (by omega)]
  simp [typeI, encI_fields]

theorem immS_typeS : immS (typeS imm rs2 rs1 f3 op) = (imm.extractLsb' 0 12).signExtend 32 := by
  have h5 : ∀ i : Word, i >>> 7 &&& 0x1f = (i.extractLsb' 7 5).zeroExtend 32 := fun i =>
    shiftRight_and_lowMask_self i 5 7
  rw [immS, sshiftRight_eq_signExtend _ (by omega), h5, typeS, encS_fields,
    signExtend_extract_split imm 0 5 (n := 7) (by omega)]
  simp

theorem or_last (a b c d : Word) : a ||| b ||| c ||| d = a ||| (d ||| (b ||| c)) := by
  ac_rfl

theorem or_reverse (a b c d : Word) : a ||| b ||| c ||| d = a ||| (d ||| (c ||| b)) := by
  ac_rfl

theorem even_immediate (h0 : imm.getLsbD 0 = false) {n : Nat} :
    (imm.extractLsb' 0 (1 + n)).zeroExtend 32 = (imm.extractLsb' 1 n).zeroExtend 32 <<< 1 := by
  have hlow : (imm.extractLsb' 0 1).zeroExtend 32 = 0#32 := by
    ext i hi
    cases i with
    | zero => simpa using h0
    | succ i => simp
  rw [extract_split, hlow, BitVec.or_zero]

theorem immB_typeB (h0 : imm.getLsbD 0 = false) :
    immB (typeB imm rs2 rs1 f3 op) = (imm.extractLsb' 0 13).signExtend 32 := by
  have h1 : ∀ i : Word, i >>> 7 &&& 0x01 = (i.extractLsb' 7 1).zeroExtend 32 := fun i =>
    shiftRight_and_lowMask_self i 1 7
  have h6 : ∀ i : Word, i >>> 25 &&& 0x3f = (i.extractLsb' 25 6).zeroExtend 32 := fun i =>
    shiftRight_and_lowMask_self i 6 25
  have h4 : ∀ i : Word, i >>> 8 &&& 0x0f = (i.extractLsb' 8 4).zeroExtend 32 := fun i =>
    shiftRight_and_lowMask_self i 4 8
  rw [immB, sshiftRight_eq_signExtend _ (by omega), h1, h6, h4, typeB, encB_fields,
    signExtend_extract_split imm 0 12 (n := 1) (by omega), extract_split imm 0 11 1,
    extract_split imm 0 5 6, even_immediate imm h0 (n := 4), ← or_last]
  simp

theorem immJ_typeJ (h0 : imm.getLsbD 0 = false) :
    immJ (typeJ imm rd op) = (imm.extractLsb' 0 21).signExtend 32 := by
  have h1 : ∀ i : Word, i >>> 20 &&& 0x01 = (i.extractLsb' 20 1).zeroExtend 32 := fun i =>
    shiftRight_and_lowMask_self i 1 20
  have h10 : ∀ i : Word, i >>> 21 &&& 0x3ff = (i.extractLsb' 21 10).zeroExtend 32 := fun i =>
    shiftRight_and_lowMask_self i 10 21
  have h8 : ∀ i : Word, i >>> 12 &&& 0xff = (i.extractLsb' 12 8).zeroExtend 32 := fun i =>
    shiftRight_and_lowMask_self i 8 12
  rw [immJ, sshiftRight_eq_signExtend _ (by omega), h1, h10, h8, typeJ, encJ_fields,
    signExtend_extract_split imm 0 20 (n := 1) (by omega), extract_split imm 0 12 8,
    extract_split imm 0 11 1, even_immediate imm h0 (n := 10), ← or_reverse]
  simp

end Operands

end MechanicalResearcher.Rv32
