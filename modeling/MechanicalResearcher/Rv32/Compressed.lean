import MechanicalResearcher.Rv32.Formats
import MechanicalResearcher.Rv32.Rvc
import MechanicalResearcher.Rv32.Steps

/-!
# Compressed instructions are expanded right

The expansion of a halfword is the encoding of its instruction (`expand_eq`), and `exec` does with
this encoding what the instruction says (`exec_encoding`).
-/

namespace MechanicalResearcher.Rv32

open Lib.Bits

variable {μ : Type}

/-! ## Fields of a halfword -/

section Fields

variable (c : BitVec 16) (k : Nat)

theorem and_one : c.zeroExtend 32 >>> k &&& 1 = (c.extractLsb' k 1).zeroExtend 32 :=
  shiftRight_and_lowMask c (by omega) 1 k

theorem and_three : c.zeroExtend 32 >>> k &&& 3 = (c.extractLsb' k 2).zeroExtend 32 :=
  shiftRight_and_lowMask c (by omega) 2 k

theorem and_seven : c.zeroExtend 32 >>> k &&& 7 = (c.extractLsb' k 3).zeroExtend 32 :=
  shiftRight_and_lowMask c (by omega) 3 k

theorem and_fifteen : c.zeroExtend 32 >>> k &&& 0xf = (c.extractLsb' k 4).zeroExtend 32 :=
  shiftRight_and_lowMask c (by omega) 4 k

theorem and_thirtyOne : c.zeroExtend 32 >>> k &&& 0x1f = (c.extractLsb' k 5).zeroExtend 32 :=
  shiftRight_and_lowMask c (by omega) 5 k

theorem bits_two : (c.extractLsb' k 2).zeroExtend 32 =
    (c.extractLsb' (k + 1) 1).zeroExtend 32 <<< 1 ||| (c.extractLsb' k 1).zeroExtend 32 :=
  extract_split c k 1 1

theorem bits_three : (c.extractLsb' k 3).zeroExtend 32 =
    (c.extractLsb' (k + 2) 1).zeroExtend 32 <<< 2 |||
      (c.extractLsb' (k + 1) 1).zeroExtend 32 <<< 1 ||| (c.extractLsb' k 1).zeroExtend 32 := by
  rw [show (3 : Nat) = 2 + 1 from rfl, extract_split, bits_two, BitVec.or_assoc]

theorem bits_four : (c.extractLsb' k 4).zeroExtend 32 =
    (c.extractLsb' (k + 3) 1).zeroExtend 32 <<< 3 |||
      (c.extractLsb' (k + 2) 1).zeroExtend 32 <<< 2 |||
      (c.extractLsb' (k + 1) 1).zeroExtend 32 <<< 1 ||| (c.extractLsb' k 1).zeroExtend 32 := by
  rw [show (4 : Nat) = 3 + 1 from rfl, extract_split, bits_three]
  simp only [BitVec.or_assoc]

theorem bits_five : (c.extractLsb' k 5).zeroExtend 32 =
    (c.extractLsb' (k + 4) 1).zeroExtend 32 <<< 4 |||
      (c.extractLsb' (k + 3) 1).zeroExtend 32 <<< 3 |||
      (c.extractLsb' (k + 2) 1).zeroExtend 32 <<< 2 |||
      (c.extractLsb' (k + 1) 1).zeroExtend 32 <<< 1 ||| (c.extractLsb' k 1).zeroExtend 32 := by
  rw [show (5 : Nat) = 4 + 1 from rfl, extract_split, bits_four]
  simp only [BitVec.or_assoc]

theorem zeroExtend_placed {n : Nat} (places : List Nat) (h : ∀ p ∈ places, p < n) :
    (placed c k places : BitVec n).zeroExtend 32 = placed c k places := by
  induction places generalizing k with
  | nil => simp [placed]
  | cons p places ih =>
    have hp := h p (by simp)
    have hplaced := ih (k - 1) fun q hq => h q (by simp [hq])
    have hbit : ((c.extractLsb' k 1).zeroExtend n <<< p).zeroExtend 32 =
        (c.extractLsb' k 1).zeroExtend 32 <<< p := by
      apply BitVec.eq_of_getLsbD_eq
      intro i hi
      simp [hi]
      grind
    calc (placed c k (p :: places) : BitVec n).zeroExtend 32
        = ((c.extractLsb' k 1).zeroExtend n <<< p).zeroExtend 32 |||
            (placed c (k - 1) places : BitVec n).zeroExtend 32 := BitVec.setWidth_or
      _ = placed c k (p :: places) := by rw [hbit, hplaced, placed]

end Fields

/-! ## Immediates of a halfword -/

section Immediates

variable (c : BitVec 16)

theorem placed_or {n : Nat} {j k : Nat} {ps qs : List Nat} (hp : ∀ p ∈ ps, p < n)
    (hq : ∀ p ∈ qs, p < n) : (placed c j ps ||| placed c k qs : BitVec n).zeroExtend 32 =
      placed c j ps ||| placed c k qs := by
  rw [← zeroExtend_placed c j ps hp, ← zeroExtend_placed c k qs hq]
  exact BitVec.setWidth_or

theorem cImmAddi4spn_eq : cImmAddi4spn (c.zeroExtend 32) = (uimmAddi4spn c).zeroExtend 32 := by
  rw [uimmAddi4spn, zeroExtend_placed c 12 _ (by decide), cImmAddi4spn]
  simp only [and_one, and_three, and_fifteen, bits_two, bits_four, placed,
    BitVec.shiftLeft_or_distrib, ← BitVec.shiftLeft_add, Nat.reduceAdd, Nat.reduceSub,
    BitVec.or_zero]
  grind only

theorem cImmLw_eq : cImmLw (c.zeroExtend 32) = (uimmLw c).zeroExtend 32 := by
  rw [uimmLw, placed_or c (by decide) (by decide), cImmLw]
  simp only [and_one, and_seven, bits_three, placed, BitVec.shiftLeft_or_distrib,
    ← BitVec.shiftLeft_add, Nat.reduceAdd, Nat.reduceSub, BitVec.or_zero]
  grind only

theorem cImmLwsp_eq : cImmLwsp (c.zeroExtend 32) = (uimmLwsp c).zeroExtend 32 := by
  rw [uimmLwsp, placed_or c (by decide) (by decide), cImmLwsp]
  simp only [and_one, and_three, and_seven, bits_two, bits_three, placed,
    BitVec.shiftLeft_or_distrib, ← BitVec.shiftLeft_add, Nat.reduceAdd, Nat.reduceSub,
    BitVec.or_zero]
  grind only

theorem cImmSwsp_eq : cImmSwsp (c.zeroExtend 32) = (uimmSwsp c).zeroExtend 32 := by
  rw [uimmSwsp, zeroExtend_placed c 12 _ (by decide), cImmSwsp]
  simp only [and_three, and_fifteen, bits_two, bits_four, placed, BitVec.shiftLeft_or_distrib,
    ← BitVec.shiftLeft_add, Nat.reduceAdd, Nat.reduceSub, BitVec.or_zero]
  grind only

theorem cImmByte_eq :
    (c.zeroExtend 32 >>> 6 &&& (1 : Word)) ||| (c.zeroExtend 32 >>> 5 &&& (1 : Word)) <<< 1 =
      (uimmByte c).zeroExtend 32 := by
  rw [uimmByte, zeroExtend_placed c 6 _ (by decide)]
  simp only [and_one, placed, Nat.reduceSub, BitVec.or_zero, BitVec.shiftLeft_zero]

theorem cImmHalf_eq :
    (c.zeroExtend 32 >>> 5 &&& (1 : Word)) <<< 1 = (uimmHalf c).zeroExtend 32 := by
  rw [uimmHalf, zeroExtend_placed c 5 _ (by decide)]
  simp only [and_one, placed, BitVec.or_zero]

theorem cImmAddi16sp_eq : cImmAddi16sp (c.zeroExtend 32) = (immAddi16sp c).zeroExtend 32 := by
  rw [immAddi16sp, placed_or c (by decide) (by decide), cImmAddi16sp]
  simp only [and_one, and_three, bits_two, placed, BitVec.shiftLeft_or_distrib,
    ← BitVec.shiftLeft_add, Nat.reduceAdd, Nat.reduceSub, BitVec.or_zero]
  grind only

theorem cImmLui_eq : cImmLui (c.zeroExtend 32) = (immLui c).zeroExtend 32 := by
  rw [immLui, placed_or c (by decide) (by decide), cImmLui]
  simp only [and_one, and_thirtyOne, bits_five, placed, BitVec.shiftLeft_or_distrib,
    ← BitVec.shiftLeft_add, Nat.reduceAdd, Nat.reduceSub, BitVec.or_zero]
  grind only

theorem cImmJ_eq : cImmJ (c.zeroExtend 32) = (immJump c).signExtend 32 := by
  have h : (c.zeroExtend 32 >>> 12 &&& 1) <<< 11 ||| (c.zeroExtend 32 >>> 11 &&& 1) <<< 4 |||
      (c.zeroExtend 32 >>> 9 &&& 3) <<< 8 ||| (c.zeroExtend 32 >>> 8 &&& 1) <<< 10 |||
      (c.zeroExtend 32 >>> 7 &&& 1) <<< 6 ||| (c.zeroExtend 32 >>> 6 &&& 1) <<< 7 |||
      (c.zeroExtend 32 >>> 3 &&& 7) <<< 1 ||| (c.zeroExtend 32 >>> 2 &&& 1) <<< 5 =
      (immJump c).zeroExtend 32 := by
    rw [immJump, zeroExtend_placed c 12 _ (by decide)]
    simp only [and_one, and_three, and_seven, bits_two, bits_three, placed,
      BitVec.shiftLeft_or_distrib, ← BitVec.shiftLeft_add, Nat.reduceAdd, Nat.reduceSub,
      BitVec.or_zero]
    grind only
  rw [cImmJ, h]
  exact signExtend_of_highMask (immJump c) (by omega)

theorem cImmB_eq : cImmB (c.zeroExtend 32) = (immBranch c).signExtend 32 := by
  have h : (c.zeroExtend 32 >>> 12 &&& 1) <<< 8 ||| (c.zeroExtend 32 >>> 10 &&& 3) <<< 3 |||
      (c.zeroExtend 32 >>> 5 &&& 3) <<< 6 ||| (c.zeroExtend 32 >>> 3 &&& 3) <<< 1 |||
      (c.zeroExtend 32 >>> 2 &&& 1) <<< 5 = (immBranch c).zeroExtend 32 := by
    rw [immBranch, placed_or c (by decide) (by decide)]
    simp only [and_one, and_three, bits_two, placed, BitVec.shiftLeft_or_distrib,
      ← BitVec.shiftLeft_add, Nat.reduceAdd, Nat.reduceSub, BitVec.or_zero]
    grind only
  rw [cImmB, h]
  exact signExtend_of_highMask (immBranch c) (by omega)

theorem cImm6_eq : cImm6 (c.zeroExtend 32) = (imm6 c).signExtend 32 := by
  have h : (imm6 c).zeroExtend 32 = (c.extractLsb' 12 1).zeroExtend 32 <<< 5 |||
      (c.extractLsb' 2 5).zeroExtend 32 := by
    rw [imm6, placed_or c (by decide) (by decide)]
    simp only [bits_five, placed, Nat.reduceAdd, Nat.reduceSub, BitVec.or_zero,
      BitVec.shiftLeft_zero]
    grind only
  have hsign : (imm6 c).signExtend 32 = if (imm6 c).zeroExtend 32 &&& BitVec.twoPow 32 5 ≠ 0 then
      (imm6 c).zeroExtend 32 ||| ~~~lowMask 32 6 else (imm6 c).zeroExtend 32 :=
    (signExtend_of_highMask (imm6 c) (by omega)).symm
  rw [cImm6, and_one, and_thirtyOne, hsign, h]
  generalize c.extractLsb' 2 5 = low
  obtain h0 | h1 := BitVec.eq_zero_or_eq_one (c.extractLsb' 12 1)
  · rw [h0]
    revert low
    decide
  · rw [h1]
    revert low
    decide

/-! ## Registers of a halfword -/

theorem add_eight (r : BitVec 3) : r.zeroExtend 32 + 8 = (reg3 r).zeroExtend 32 := by
  revert r
  decide

theorem crs1p_eq : crs1p (c.zeroExtend 32) = (reg3 (high3 c)).zeroExtend 32 := by
  rw [crs1p, and_seven, add_eight, high3]

theorem crs2p_eq : crs2p (c.zeroExtend 32) = (reg3 (low3 c)).zeroExtend 32 := by
  rw [crs2p, and_seven, add_eight, low3]

theorem crd_eq : crd (c.zeroExtend 32) = (high5 c).zeroExtend 32 := and_thirtyOne c 7

theorem crs2_eq : crs2 (c.zeroExtend 32) = (low5 c).zeroExtend 32 := and_thirtyOne c 2

end Immediates

/-! ## Encodings of 32 bits -/

/-- The instruction of 32 bits that does the same. -/
def RvcInsn.encoding : RvcInsn → Word
  | .addi4spn rd imm => typeI (imm.zeroExtend 32) 2 0 (reg3 rd) opImm
  | .lw rd rs1 imm => typeI (imm.zeroExtend 32) (reg3 rs1) 2 (reg3 rd) opLoad
  | .flw rd rs1 imm => typeI (imm.zeroExtend 32) (reg3 rs1) 2 (reg3 rd) opLoadFp
  | .sw rs2 rs1 imm => typeS (imm.zeroExtend 32) (reg3 rs2) (reg3 rs1) 2 opStore
  | .fsw rs2 rs1 imm => typeS (imm.zeroExtend 32) (reg3 rs2) (reg3 rs1) 2 opStoreFp
  | .addi rd imm => typeI (imm.signExtend 32) rd 0 rd opImm
  | .jal imm => typeJ (imm.signExtend 32) 1 opJal
  | .li rd imm => typeI (imm.signExtend 32) 0 0 rd opImm
  | .addi16sp imm => typeI (imm.signExtend 32) 2 0 2 opImm
  | .lui rd imm => typeU (imm.signExtend 32) rd opLui
  | .srli rd shamt => typeI (shamt.zeroExtend 32) (reg3 rd) 5 (reg3 rd) opImm
  | .srai rd shamt => typeI (shamt.zeroExtend 32 ||| 0x400) (reg3 rd) 5 (reg3 rd) opImm
  | .andi rd imm => typeI (imm.signExtend 32) (reg3 rd) 7 (reg3 rd) opImm
  | .sub rd rs2 => typeR 0x20 (reg3 rs2) (reg3 rd) 0 (reg3 rd) opReg
  | .xor rd rs2 => typeR 0 (reg3 rs2) (reg3 rd) 4 (reg3 rd) opReg
  | .or rd rs2 => typeR 0 (reg3 rs2) (reg3 rd) 6 (reg3 rd) opReg
  | .and rd rs2 => typeR 0 (reg3 rs2) (reg3 rd) 7 (reg3 rd) opReg
  | .j imm => typeJ (imm.signExtend 32) 0 opJal
  | .beqz rs1 imm => typeB (imm.signExtend 32) 0 (reg3 rs1) 0 opBranch
  | .bnez rs1 imm => typeB (imm.signExtend 32) 0 (reg3 rs1) 1 opBranch
  | .slli rd shamt => typeI (shamt.zeroExtend 32) rd 1 rd opImm
  | .lwsp rd imm => typeI (imm.zeroExtend 32) 2 2 rd opLoad
  | .flwsp rd imm => typeI (imm.zeroExtend 32) 2 2 rd opLoadFp
  | .jr rs1 => typeI 0 rs1 0 0 opJalr
  | .mv rd rs2 => typeR 0 rs2 0 0 rd opReg
  | .ebreak => typeI 1 0 0 0 opSystem
  | .jalr rs1 => typeI 0 rs1 0 1 opJalr
  | .add rd rs2 => typeR 0 rs2 rd 0 rd opReg
  | .swsp rs2 imm => typeS (imm.zeroExtend 32) rs2 2 2 opStore
  | .fswsp rs2 imm => typeS (imm.zeroExtend 32) rs2 2 2 opStoreFp
  | .lbu rd rs1 imm => typeI (imm.zeroExtend 32) (reg3 rs1) 4 (reg3 rd) opLoad
  | .lhu rd rs1 imm => typeI (imm.zeroExtend 32) (reg3 rs1) 5 (reg3 rd) opLoad
  | .lh rd rs1 imm => typeI (imm.zeroExtend 32) (reg3 rs1) 1 (reg3 rd) opLoad
  | .sb rs2 rs1 imm => typeS (imm.zeroExtend 32) (reg3 rs2) (reg3 rs1) 0 opStore
  | .sh rs2 rs1 imm => typeS (imm.zeroExtend 32) (reg3 rs2) (reg3 rs1) 1 opStore
  | .zextb rd => typeI 0xff (reg3 rd) 7 (reg3 rd) opImm
  | .sextb rd => typeI 0x604 (reg3 rd) 1 (reg3 rd) opImm
  | .zexth rd => typeR 0x04 0 (reg3 rd) 4 (reg3 rd) opReg
  | .sexth rd => typeI 0x605 (reg3 rd) 1 (reg3 rd) opImm
  | .not rd => typeI 0xfff (reg3 rd) 4 (reg3 rd) opImm
  | .mul rd rs2 => typeR 0x01 (reg3 rs2) (reg3 rd) 0 (reg3 rd) opReg

/-- The expansion of an encoding; 0 stands for none. -/
def encoded : Option RvcInsn → Word
  | none => 0
  | some i => i.encoding

theorem ite_encoded {p q : Prop} [Decidable p] [Decidable q] {a b : Word} {i j : Option RvcInsn}
    (hpq : p ↔ q) (ha : q → a = encoded i) (hb : ¬ q → b = encoded j) :
    (if p then a else b) = encoded (if q then i else j) := by
  by_cases hq : q
  · rw [if_pos (hpq.2 hq), if_pos hq, ha hq]
  · rw [if_neg (mt hpq.1 hq), if_neg hq, hb hq]

theorem field_iff {n : Nat} (x y : BitVec n) (hn : n ≤ 32) :
    x.zeroExtend 32 = y.zeroExtend 32 ↔ x = y := by
  refine ⟨fun h => ?_, congrArg _⟩
  have hx := congrArg (BitVec.extractLsb' 0 n) h
  rwa [extract_lowest x hn, extract_lowest y hn] at hx

section Expand

variable (c : BitVec 16)

theorem funct3_iff (f : BitVec 3) :
    (c.extractLsb' 13 3).zeroExtend 32 = f.zeroExtend 32 ↔ c.extractLsb' 13 3 = f :=
  field_iff _ f (by omega)

theorem bit_iff (k : Nat) (hk : k < 32) :
    c.zeroExtend 32 &&& BitVec.twoPow 32 k ≠ 0 ↔ c.getLsbD k = true := by
  rw [and_twoPow_ne_zero _ hk]
  simp [hk]

theorem bit12_iff : c.zeroExtend 32 &&& 0x1000 ≠ 0 ↔ bit12 c = true :=
  bit_iff c 12 (by omega)

theorem expandC0_eq : expandC0 (c.zeroExtend 32) (c.zeroExtend 32 >>> 13 &&& 7) =
    encoded (rvcQuadrant0 c) := by
  rw [expandC0, rvcQuadrant0, and_seven, cImmAddi4spn_eq, cImmLw_eq, crs1p_eq, crs2p_eq]
  refine ite_encoded (funct3_iff c 0) (fun _ => ?_) fun _ =>
    ite_encoded (funct3_iff c 2) (fun _ => rfl) fun _ =>
    ite_encoded (funct3_iff c 3) (fun _ => rfl) fun _ =>
    ite_encoded (funct3_iff c 6) (fun _ => rfl) fun _ =>
    ite_encoded (funct3_iff c 7) (fun _ => rfl) fun _ => rfl
  exact ite_encoded (field_iff _ 0 (by omega)) (fun _ => rfl) fun _ => rfl

theorem expandC13_eq : expandC13 (c.zeroExtend 32) = encoded (rvcStackOrUpper c) := by
  rw [expandC13, rvcStackOrUpper, crd_eq, cImmAddi16sp_eq, cImmLui_eq]
  refine ite_encoded (field_iff _ 2 (by omega))
    (fun _ => ite_encoded (field_iff _ 0 (by omega)) (fun _ => rfl) fun _ => ?_)
    fun _ => ite_encoded (field_iff _ 0 (by omega)) (fun _ => rfl) fun _ => ?_
  · exact congrArg (fun imm => typeI imm 2 0 2 opImm)
      (signExtend_of_highMask (immAddi16sp c) (by omega))
  · exact congrArg (fun imm => typeU imm (high5 c) opLui)
      (signExtend_of_highMask (immLui c) (by omega))

theorem bit10_eq : c.extractLsb' 10 1 = (c.extractLsb' 10 2).extractLsb' 0 1 := by
  ext i hi
  simp
  omega

theorem expandC14_eq : expandC14 (c.zeroExtend 32) = encoded (rvcArith c) := by
  have hf2 : ∀ f : BitVec 2, (c.extractLsb' 10 2).zeroExtend 32 = f.zeroExtend 32 ↔
      c.extractLsb' 10 2 = f := fun f => field_iff _ f (by omega)
  have hg2 : ∀ f : BitVec 2, (c.extractLsb' 5 2).zeroExtend 32 = f.zeroExtend 32 ↔
      c.extractLsb' 5 2 = f := fun f => field_iff _ f (by omega)
  rw [expandC14, rvcArith, cImm6_eq, crs1p_eq, crs2p_eq]
  simp only [and_one, and_three, and_thirtyOne]
  by_cases h0 : c.extractLsb' 10 2 = 0
  · have hlogical : ((0 : BitVec 2).extractLsb' 0 1).zeroExtend 32 = (0 : Word) := by decide
    rw [if_pos (.inl ((hf2 0).2 h0)), if_pos h0, bit10_eq, h0, hlogical, if_neg (not_not.2 rfl)]
    refine ite_encoded (bit12_iff c) (fun _ => rfl) fun _ => ?_
    exact congrArg (fun imm => typeI imm (reg3 (high3 c)) 5 (reg3 (high3 c)) opImm) BitVec.or_zero
  · rw [if_neg h0]
    by_cases h1 : c.extractLsb' 10 2 = 1
    · have harith : ((1 : BitVec 2).extractLsb' 0 1).zeroExtend 32 ≠ (0 : Word) := by decide
      rw [if_pos (.inr ((hf2 1).2 h1)), if_pos h1, bit10_eq, h1, if_pos harith]
      exact ite_encoded (bit12_iff c) (fun _ => rfl) fun _ => rfl
    · have hneither : ¬ ((c.extractLsb' 10 2).zeroExtend 32 = (0 : Word) ∨
          (c.extractLsb' 10 2).zeroExtend 32 = (1 : Word)) :=
        not_or.2 ⟨mt (hf2 0).1 h0, mt (hf2 1).1 h1⟩
      rw [if_neg h1, if_neg hneither]
      exact ite_encoded (hf2 2) (fun _ => rfl) fun _ =>
        ite_encoded (bit12_iff c) (fun _ => rfl) fun _ =>
        ite_encoded (hg2 0) (fun _ => rfl) fun _ => ite_encoded (hg2 1) (fun _ => rfl) fun _ =>
        ite_encoded (hg2 2) (fun _ => rfl) fun _ => rfl

theorem expandC1_eq : expandC1 (c.zeroExtend 32) (c.zeroExtend 32 >>> 13 &&& 7) =
    encoded (rvcQuadrant1 c) := by
  rw [expandC1, rvcQuadrant1, and_seven, expandC13_eq, expandC14_eq, cImm6_eq, cImmJ_eq, cImmB_eq,
    crs1p_eq, crd_eq]
  refine ite_encoded (funct3_iff c 0) (fun _ => rfl) fun _ =>
    ite_encoded (funct3_iff c 1) (fun _ => rfl) fun _ =>
    ite_encoded (funct3_iff c 2) (fun _ => rfl) fun _ =>
    ite_encoded (funct3_iff c 3) (fun _ => rfl) fun _ =>
    ite_encoded (funct3_iff c 4) (fun _ => rfl) fun _ =>
    ite_encoded (funct3_iff c 5) (fun _ => rfl) fun _ => ?_
  -- the source chooses between the two branches by their `funct3`
  have hf : (c.extractLsb' 13 3).zeroExtend 32 = (6 : Word) ↔ c.extractLsb' 13 3 = 6 :=
    funct3_iff c 6
  by_cases h6 : c.extractLsb' 13 3 = 6
  · rw [if_pos (hf.2 h6), if_pos h6]
    rfl
  · rw [if_neg (mt hf.1 h6), if_neg h6]
    rfl

theorem expandC24_eq : expandC24 (c.zeroExtend 32) = encoded (rvcJumpOrMove c) := by
  have h12 : c.zeroExtend 32 &&& 0x1000 = 0 ↔ ¬ bit12 c = true := by
    rw [← bit12_iff, not_not]
  have hlow : (low5 c).zeroExtend 32 = (0 : Word) ↔ low5 c = 0 := field_iff _ 0 (by omega)
  have hhigh : (high5 c).zeroExtend 32 = (0 : Word) ↔ high5 c = 0 := field_iff _ 0 (by omega)
  rw [expandC24, rvcJumpOrMove, crs2_eq, crd_eq]
  simp only [h12, hlow, hhigh, ne_eq, ite_not]
  exact ite_encoded Iff.rfl
    (fun _ => ite_encoded Iff.rfl
      (fun _ => ite_encoded Iff.rfl (fun _ => rfl) fun _ => rfl) fun _ => rfl)
    fun _ => ite_encoded Iff.rfl
      (fun _ => ite_encoded Iff.rfl (fun _ => rfl) fun _ => rfl) fun _ => rfl

theorem expandC2_eq : expandC2 (c.zeroExtend 32) (c.zeroExtend 32 >>> 13 &&& 7) =
    encoded (rvcQuadrant2 c) := by
  rw [expandC2, rvcQuadrant2, and_seven, expandC24_eq, cImmLwsp_eq, cImmSwsp_eq, crd_eq, crs2_eq]
  exact ite_encoded (funct3_iff c 0)
      (fun _ => ite_encoded (bit12_iff c) (fun _ => rfl) fun _ => rfl) fun _ =>
    ite_encoded (funct3_iff c 2)
      (fun _ => ite_encoded (field_iff _ 0 (by omega)) (fun _ => rfl) fun _ => rfl) fun _ =>
    ite_encoded (funct3_iff c 3) (fun _ => rfl) fun _ =>
    ite_encoded (funct3_iff c 4) (fun _ => rfl) fun _ =>
    ite_encoded (funct3_iff c 6) (fun _ => rfl) fun _ =>
    ite_encoded (funct3_iff c 7) (fun _ => rfl) fun _ => rfl

theorem extract_one_eq_zero (k : Nat) : c.extractLsb' k 1 = 0 ↔ c.getLsbD k = false := by
  refine ⟨fun h => ?_, fun h => ?_⟩
  · have h0 := congrArg (fun x => x.getLsbD 0) h
    simpa using h0
  · ext i hi
    obtain rfl : i = 0 := by omega
    simpa using h

theorem expandZcb0_eq : expandZcb0 (c.zeroExtend 32) = encoded (zcbMemory c) := by
  have hf2 : ∀ f : BitVec 2, (c.extractLsb' 10 2).zeroExtend 32 = f.zeroExtend 32 ↔
      c.extractLsb' 10 2 = f := fun f => field_iff _ f (by omega)
  have h6 : c.zeroExtend 32 &&& 0x40 ≠ 0 ↔ c.getLsbD 6 = true := bit_iff c 6 (by omega)
  have h6' : (c.extractLsb' 6 1).zeroExtend 32 ≠ (0 : Word) ↔ c.getLsbD 6 = true := by
    rw [ne_eq, show (0 : Word) = (0 : BitVec 1).zeroExtend 32 from rfl, field_iff _ _ (by omega),
      extract_one_eq_zero, Bool.not_eq_false]
  rw [expandZcb0, zcbMemory, cImmByte_eq, cImmHalf_eq, crs1p_eq, crs2p_eq]
  simp only [and_one, and_three]
  refine ite_encoded (bit12_iff c) (fun _ => rfl) fun _ =>
    ite_encoded (hf2 0) (fun _ => rfl) fun _ => ite_encoded (hf2 1) (fun _ => ?_) fun _ =>
    ite_encoded (hf2 2) (fun _ => rfl) fun _ => ite_encoded h6 (fun _ => rfl) fun _ => rfl
  by_cases hc : c.getLsbD 6 = true
  · rw [if_pos (h6'.2 hc), if_pos hc]
    rfl
  · rw [if_neg (mt h6'.1 hc), if_neg hc]
    rfl

theorem expandZcb1_eq : expandZcb1 (c.zeroExtend 32) =
    encoded (if low3 c = 0 then some (.zextb (high3 c))
      else if low3 c = 1 then some (.sextb (high3 c))
      else if low3 c = 2 then some (.zexth (high3 c))
      else if low3 c = 3 then some (.sexth (high3 c))
      else if low3 c = 5 then some (.not (high3 c))
      else none) := by
  have hf : ∀ f : BitVec 3, (c.extractLsb' 2 3).zeroExtend 32 = f.zeroExtend 32 ↔ low3 c = f :=
    fun f => field_iff _ f (by omega)
  rw [expandZcb1, crs1p_eq]
  simp only [and_seven]
  exact ite_encoded (hf 0) (fun _ => rfl) fun _ => ite_encoded (hf 1) (fun _ => rfl) fun _ =>
    ite_encoded (hf 2) (fun _ => rfl) fun _ => ite_encoded (hf 3) (fun _ => rfl) fun _ =>
    ite_encoded (hf 5) (fun _ => rfl) fun _ => rfl

theorem quadrant_iff (f : BitVec 2) :
    c.zeroExtend 32 &&& (3 : Word) = f.zeroExtend 32 ↔ c.extractLsb' 0 2 = f := by
  have h : c.zeroExtend 32 &&& 3 = (c.extractLsb' 0 2).zeroExtend 32 := and_three c 0
  rw [h]
  exact field_iff _ f (by omega)

theorem rvExpandZcb_eq : rvExpandZcb c = encoded (zcbDecode c) := by
  have hg2 : ∀ f : BitVec 2, (c.extractLsb' 5 2).zeroExtend 32 = f.zeroExtend 32 ↔
      c.extractLsb' 5 2 = f := fun f => field_iff _ f (by omega)
  have h7 : (c.extractLsb' 10 3).zeroExtend 32 = (7 : Word) ↔ c.extractLsb' 10 3 = 7 :=
    field_iff _ 7 (by omega)
  have hother : c.zeroExtend 32 &&& 3 ≠ 1 ∨ (c.extractLsb' 10 3).zeroExtend 32 ≠ (7 : Word) ↔
      ¬ (c.extractLsb' 0 2 = 1 ∧ c.extractLsb' 10 3 = 7) := by
    rw [ne_eq, ne_eq, h7, not_and_or]
    exact or_congr (not_congr (quadrant_iff c 1)) Iff.rfl
  rw [rvExpandZcb, zcbDecode, zcbArith]
  simp only [and_three, and_seven, expandZcb0_eq, expandZcb1_eq, crs1p_eq, crs2p_eq, hother,
    ite_not, ne_eq]
  exact ite_encoded (funct3_iff c 4)
    (fun _ => ite_encoded (quadrant_iff c 0) (fun _ => rfl) fun _ =>
      ite_encoded Iff.rfl (fun _ => ite_encoded (hg2 2) (fun _ => rfl) fun _ =>
        ite_encoded (hg2 3) (fun _ => rfl) fun _ => rfl) fun _ => rfl) fun _ => rfl

theorem rvExpandC_eq : rvExpandC c = encoded (rvcBase c) := by
  rw [rvExpandC]
  by_cases h0 : c = 0
  · subst h0
    rfl
  · simp only [if_neg h0, rvcBase, expandC0_eq, expandC1_eq, expandC2_eq]
    exact ite_encoded (quadrant_iff c 0) (fun _ => rfl) fun _ =>
      ite_encoded (quadrant_iff c 1) (fun _ => rfl) fun _ =>
      ite_encoded (quadrant_iff c 2) (fun _ => rfl) fun _ => rfl

end Expand

theorem opcode_encoding (i : RvcInsn) : opcode i.encoding ∈ [opImm, opLoad, opLoadFp, opStore,
    opStoreFp, opJal, opLui, opReg, opBranch, opJalr, opSystem] := by
  cases i <;> simp [RvcInsn.encoding]

theorem encoding_ne_zero (i : RvcInsn) : i.encoding ≠ 0 := by
  intro h0
  have hmem := opcode_encoding i
  rw [h0] at hmem
  revert hmem
  decide

theorem encoded_eq_zero {o : Option RvcInsn} : encoded o = 0 ↔ o = none := by
  cases o with
  | none => simp [encoded]
  | some i => simpa [encoded] using encoding_ne_zero i

theorem expand_eq {c : Core μ} (hz : c.zcb = true) (lo : BitVec 16) :
    expand c lo = encoded (rvcDecode lo) := by
  rw [expand, rvExpandC_eq, rvExpandZcb_eq, rvcDecode]
  simp only [encoded_eq_zero, hz, and_true]
  cases rvcBase lo with
  | none => rfl
  | some i => rfl

/-! ## Offsets and upper immediates -/

/-- The low bits that an encoding of 32 bits has no place for are clear. -/
def RvcInsn.Aligned : RvcInsn → Prop
  | .jal imm | .j imm => imm.getLsbD 0 = false
  | .beqz _ imm | .bnez _ imm => imm.getLsbD 0 = false
  | .lui _ imm => imm.extractLsb' 0 12 = 0#12
  | _ => True

theorem aligned_ite {p : Prop} [Decidable p] {a b : Option RvcInsn} (ha : ∀ i ∈ a, i.Aligned)
    (hb : ∀ i ∈ b, i.Aligned) : ∀ i ∈ (if p then a else b), i.Aligned := by
  split
  · exact ha
  · exact hb

theorem aligned_some {i : RvcInsn} (h : i.Aligned) : ∀ j ∈ some i, j.Aligned := by
  rintro j hj
  obtain rfl := Option.some.inj hj
  exact h

theorem aligned_none : ∀ i ∈ (none : Option RvcInsn), i.Aligned := by
  simp

section Aligned

variable (c : BitVec 16)

theorem immJump_even : (immJump c).getLsbD 0 = false := by
  simp [immJump, placed]

theorem immBranch_even : (immBranch c).getLsbD 0 = false := by
  simp [immBranch, placed]

theorem immLui_low : (immLui c).extractLsb' 0 12 = 0#12 := by
  simp [immLui, placed, BitVec.extractLsb'_or, extract_below]

theorem rvcQuadrant0_aligned : ∀ i ∈ rvcQuadrant0 c, i.Aligned := by
  unfold rvcQuadrant0
  repeat' first | apply aligned_ite | exact aligned_none | exact aligned_some trivial

theorem rvcStackOrUpper_aligned : ∀ i ∈ rvcStackOrUpper c, i.Aligned := by
  exact aligned_ite (aligned_ite aligned_none (aligned_some trivial))
    (aligned_ite aligned_none (aligned_some (immLui_low c)))

theorem rvcArith_aligned : ∀ i ∈ rvcArith c, i.Aligned := by
  unfold rvcArith
  repeat' first | apply aligned_ite | exact aligned_none | exact aligned_some trivial

theorem rvcQuadrant1_aligned : ∀ i ∈ rvcQuadrant1 c, i.Aligned := by
  exact aligned_ite (aligned_some trivial) (aligned_ite (aligned_some (immJump_even c))
    (aligned_ite (aligned_some trivial) (aligned_ite (rvcStackOrUpper_aligned c)
    (aligned_ite (rvcArith_aligned c) (aligned_ite (aligned_some (immJump_even c))
    (aligned_ite (aligned_some (immBranch_even c)) (aligned_some (immBranch_even c))))))))

theorem rvcQuadrant2_aligned : ∀ i ∈ rvcQuadrant2 c, i.Aligned := by
  unfold rvcQuadrant2 rvcJumpOrMove
  repeat' first | apply aligned_ite | exact aligned_none | exact aligned_some trivial

theorem zcbDecode_aligned : ∀ i ∈ zcbDecode c, i.Aligned := by
  unfold zcbDecode zcbMemory zcbArith
  repeat' first | apply aligned_ite | exact aligned_none | exact aligned_some trivial

theorem rvcBase_aligned : ∀ i ∈ rvcBase c, i.Aligned := by
  exact aligned_ite (rvcQuadrant0_aligned c) (aligned_ite (rvcQuadrant1_aligned c)
    (aligned_ite (rvcQuadrant2_aligned c) aligned_none))

theorem rvcDecode_aligned {i : RvcInsn} (h : rvcDecode c = some i) : i.Aligned := by
  rw [rvcDecode, Option.or_eq_some_iff] at h
  obtain h | ⟨-, h⟩ := h
  · exact rvcBase_aligned c i h
  · exact zcbDecode_aligned c i h

end Aligned

/-! ## Instructions by opcode -/

section Opcodes

attribute [local simp] opLoad opLoadFp opMiscMem opImm opAuipc opStore opStoreFp opAmo opReg opLui
  opMadd opMsub opNmsub opNmadd opFp opBranch opJalr opJal opSystem

variable {h : Host μ} {s : Cpu μ} {insn next : Word}

theorem exec_load (hop : opcode insn = opLoad) :
    exec h s insn next = (execLoad h s.toCore insn next).apply s := by
  simp [exec, execCore, hop]

theorem exec_loadFp (hop : opcode insn = opLoadFp) :
    exec h s insn next = (execLoadFp h s.toCore insn next).apply s := by
  simp [exec, execCore, hop]

theorem exec_store (hop : opcode insn = opStore) :
    exec h s insn next = (execStore h s.toCore insn next).apply s := by
  simp [exec, execCore, hop]

theorem exec_storeFp (hop : opcode insn = opStoreFp) :
    exec h s insn next = (execStoreFp h s.toCore insn next).apply s := by
  simp [exec, execCore, hop]

theorem exec_imm (hop : opcode insn = opImm) :
    exec h s insn next = (execImm s.toCore insn next).apply s := by
  simp [exec, execCore, hop]

theorem exec_reg (hop : opcode insn = opReg) :
    exec h s insn next = (execReg s.toCore insn next).apply s := by
  simp [exec, execCore, hop]

theorem exec_branch (hop : opcode insn = opBranch) :
    exec h s insn next = (execBranch s.toCore insn next).apply s := by
  simp [exec, execCore, hop]

theorem exec_jalr (hop : opcode insn = opJalr) :
    exec h s insn next = (execJalr s.toCore insn next).apply s := by
  simp [exec, execCore, hop]

theorem exec_jal (hop : opcode insn = opJal) :
    exec h s insn next = (putX (rdOf insn) next (s.pc + immJ insn)).apply s := by
  simp [exec, execCore, hop]

theorem exec_lui (hop : opcode insn = opLui) :
    exec h s insn next = (putX (rdOf insn) (immU insn) next).apply s := by
  simp [exec, execCore, hop]

end Opcodes

/-! ## Immediates of the expansions -/

section Immediates

theorem signExtend_low {n : Nat} (x : BitVec n) (hn : n < 12) :
    ((x.zeroExtend 32).extractLsb' 0 12).signExtend 32 = x.zeroExtend 32 := by
  have h : (x.zeroExtend 32).extractLsb' 0 12 = x.zeroExtend 12 := by
    ext i hi
    simp
    omega
  rw [h, signExtend_zeroExtend x hn]

theorem signExtend_sign {n k : Nat} (x : BitVec n) (hn : 0 < n) (hk : n ≤ k) (hk' : k ≤ 32) :
    ((x.signExtend 32).extractLsb' 0 k).signExtend 32 = x.signExtend 32 := by
  have h : (x.signExtend 32).extractLsb' 0 k = x.signExtend k := by
    rw [← truncate_signExtend x hk']
    ext i hi
    simp
  rw [h, signExtend_signExtend x hn hk]

variable (rd rs1 rs2 : Reg) (f3 : BitVec 3) (op : BitVec 7)

theorem immI_zero {n : Nat} (x : BitVec n) (hn : n < 12) :
    immI (typeI (x.zeroExtend 32) rs1 f3 rd op) = x.zeroExtend 32 := by
  rw [immI_typeI, signExtend_low x hn]

theorem immI_sign {n : Nat} (x : BitVec n) (hn : 0 < n) (hn' : n ≤ 12) :
    immI (typeI (x.signExtend 32) rs1 f3 rd op) = x.signExtend 32 := by
  rw [immI_typeI, signExtend_sign x hn hn' (by omega)]

theorem immS_zero {n : Nat} (x : BitVec n) (hn : n < 12) :
    immS (typeS (x.zeroExtend 32) rs2 rs1 f3 op) = x.zeroExtend 32 := by
  rw [immS_typeS, signExtend_low x hn]

theorem immB_sign (x : BitVec 9) (h0 : x.getLsbD 0 = false) :
    immB (typeB (x.signExtend 32) rs2 rs1 f3 op) = x.signExtend 32 := by
  have h : (x.signExtend 32).getLsbD 0 = false := by
    rw [BitVec.getLsbD_signExtend]
    simpa using h0
  rw [immB_typeB _ _ _ _ _ h, signExtend_sign x (by omega) (by omega) (by omega)]

theorem immJ_sign (x : BitVec 12) (h0 : x.getLsbD 0 = false) :
    immJ (typeJ (x.signExtend 32) rd op) = x.signExtend 32 := by
  have h : (x.signExtend 32).getLsbD 0 = false := by
    rw [BitVec.getLsbD_signExtend]
    simpa using h0
  rw [immJ_typeJ _ _ _ h, signExtend_sign x (by omega) (by omega) (by omega)]

theorem immU_sign (x : BitVec 18) (h0 : x.extractLsb' 0 12 = 0#12) :
    immU (typeU (x.signExtend 32) rd op) = x.signExtend 32 := by
  have hlow : ∀ i < 12, x.getLsbD i = false := by
    intro i hi
    have hbit := congrArg (fun y => y.getLsbD i) h0
    simpa [hi] using hbit
  rw [immU_typeU, show (0xfffff000 : Word) = ~~~lowMask 32 12 from rfl]
  apply BitVec.eq_of_getLsbD_eq
  intro i hi
  rw [BitVec.getLsbD_and, BitVec.getLsbD_not, getLsbD_lowMask hi]
  by_cases h12 : i < 12
  · have hi18 : i < 18 := by omega
    rw [BitVec.getLsbD_signExtend, if_pos hi18, hlow i h12]
    simp
  · simp [h12, hi]

end Immediates

/-! ## Effects of the expansions -/

theorem clearX0_writes (s : Cpu μ) (w : Writes μ) (v : Word) :
    clearX0 ({ w with x := some (0, v) }.apply s) = clearX0 ({ w with x := none }.apply s) := by
  simp only [clearX0, Cpu.setX, Writes.apply, writeReg, Function.update_idem]

theorem apply_putX_zero (s : Cpu μ) (v next : Word) :
    (putX 0 v next : Effect μ).apply s = (Effect.done {} next).apply s := by
  simp only [putX, Effect.apply]
  rw [clearX0_writes s {} v]

theorem apply_putX_self (s : Cpu μ) (rd : Reg) (next : Word) :
    (putX rd (s.x rd) next : Effect μ).apply s = (Effect.done {} next).apply s := by
  simp [putX, Effect.apply, Writes.apply, writeReg]

theorem truncate_zeroExtend_byte (v : Word) : (v.truncate 8).zeroExtend 32 = v &&& 0xff := by
  have h : v &&& 0xff = (v.extractLsb' 0 8).zeroExtend 32 := shiftRight_and_lowMask_self v 8 0
  rw [h]
  ext i hi
  simp

theorem truncate_zeroExtend_half (v : Word) : (v.truncate 16).zeroExtend 32 = v &&& 0xffff := by
  have h : v &&& 0xffff = (v.extractLsb' 0 16).zeroExtend 32 := shiftRight_and_lowMask_self v 16 0
  rw [h]
  ext i hi
  simp

theorem amount_shamt (shamt : BitVec 5) (w : Word) (hw : w.extractLsb' 0 5 = shamt) :
    amount w = shamt.toNat := by
  have h : w &&& 31 = (w.extractLsb' 0 5).zeroExtend 32 := shiftRight_and_lowMask_self w 5 0
  have hlt := shamt.isLt
  rw [amount, h, hw]
  simp
  omega

theorem extract_signExtend_extract (imm : Word) :
    ((imm.extractLsb' 0 12).signExtend 32).extractLsb' 0 5 = imm.extractLsb' 0 5 := by
  apply BitVec.eq_of_getLsbD_eq
  intro i hi
  have h12 : i < 12 := by omega
  have h32 : i < 32 := by omega
  simp only [BitVec.getLsbD_extractLsb', BitVec.getLsbD_signExtend, hi, h12, h32, Nat.zero_add,
    decide_true, Bool.true_and, if_true]

theorem exec_encoding {h : Host μ} {s : Cpu μ} (hx0 : s.x 0 = 0) (next : Word) (i : RvcInsn)
    (hi : i.Aligned) :
    exec h s i.encoding next = (i.operate h s.toCore next).apply s := by
  have hzero : s.x 0#5 = 0#32 := hx0
  cases i with
  | addi4spn rd imm =>
    rw [RvcInsn.encoding, exec_imm (by simp)]
    simp [execImm, RvcInsn.operate, immI_zero]
  | lw rd rs1 imm =>
    rw [RvcInsn.encoding, exec_load (by simp)]
    simp [execLoad, RvcInsn.operate, loadInto, immI_zero]
  | flw rd rs1 imm =>
    rw [RvcInsn.encoding, exec_loadFp (by simp)]
    simp [execLoadFp, RvcInsn.operate, floadInto, immI_zero]
  | sw rs2 rs1 imm =>
    rw [RvcInsn.encoding, exec_store (by simp)]
    simp [execStore, RvcInsn.operate, immS_zero]
  | fsw rs2 rs1 imm =>
    rw [RvcInsn.encoding, exec_storeFp (by simp)]
    simp [execStoreFp, RvcInsn.operate, immS_zero]
  | addi rd imm =>
    rw [RvcInsn.encoding, exec_imm (by simp)]
    simp [execImm, RvcInsn.operate, immI_sign]
  | jal imm =>
    rw [RvcInsn.encoding, exec_jal (by simp), immJ_sign _ _ _ hi, rdOf_typeJ]
    rfl
  | li rd imm =>
    rw [RvcInsn.encoding, exec_imm (by simp)]
    simp [execImm, RvcInsn.operate, immI_sign, hzero]
  | addi16sp imm =>
    rw [RvcInsn.encoding, exec_imm (by simp)]
    simp [execImm, RvcInsn.operate, immI_sign]
  | lui rd imm =>
    rw [RvcInsn.encoding, exec_lui (by simp), immU_sign _ _ _ hi, rdOf_typeU]
    rfl
  | srli rd shamt =>
    have hf7 : (shamt.zeroExtend 32).extractLsb' 5 7 = 0#7 :=
      extract_above_lowest shamt (by omega)
    have hsh : amount (shamt.zeroExtend 32) = shamt.toNat :=
      amount_shamt _ _ (extract_lowest shamt (by omega))
    rw [RvcInsn.encoding, exec_imm (by simp)]
    simp [execImm, RvcInsn.operate, immI_zero, hf7, hsh]
  | srai rd shamt =>
    have hf7 : (shamt.zeroExtend 32 ||| 0x400).extractLsb' 5 7 = 0x20#7 := by
      rw [BitVec.extractLsb'_or, extract_above_lowest shamt (by omega)]
      rfl
    have hlow : (shamt.zeroExtend 32 ||| 0x400).extractLsb' 0 5 = shamt := by
      rw [BitVec.extractLsb'_or, extract_lowest shamt (by omega)]
      exact BitVec.or_zero
    have hsh := amount_shamt shamt _ ((extract_signExtend_extract _).trans hlow)
    rw [RvcInsn.encoding, exec_imm (by simp)]
    simp only [execImm, RvcInsn.operate, immI_typeI, funct3_typeI, funct7_typeI, rs1Of_typeI,
      rdOf_typeI, hf7, hsh]
    simp
  | andi rd imm =>
    rw [RvcInsn.encoding, exec_imm (by simp)]
    simp [execImm, RvcInsn.operate, immI_sign]
  | sub rd rs2 =>
    rw [RvcInsn.encoding, exec_reg (by simp)]
    simp [execReg, RvcInsn.operate, update3]
  | xor rd rs2 =>
    rw [RvcInsn.encoding, exec_reg (by simp)]
    simp [execReg, RvcInsn.operate, update3]
  | or rd rs2 =>
    rw [RvcInsn.encoding, exec_reg (by simp)]
    simp [execReg, RvcInsn.operate, update3]
  | and rd rs2 =>
    rw [RvcInsn.encoding, exec_reg (by simp)]
    simp [execReg, RvcInsn.operate, update3]
  | j imm =>
    rw [RvcInsn.encoding, exec_jal (by simp), immJ_sign _ _ _ hi, rdOf_typeJ, apply_putX_zero]
    rfl
  | beqz rs1 imm =>
    rw [RvcInsn.encoding, exec_branch (by simp)]
    simp [execBranch, branchTaken, RvcInsn.operate, immB_sign _ _ _ _ _ hi, hzero]
  | bnez rs1 imm =>
    rw [RvcInsn.encoding, exec_branch (by simp)]
    simp [execBranch, branchTaken, RvcInsn.operate, immB_sign _ _ _ _ _ hi, hzero]
  | slli rd shamt =>
    have hf7 : (shamt.zeroExtend 32).extractLsb' 5 7 = 0#7 :=
      extract_above_lowest shamt (by omega)
    have hsh : amount (shamt.zeroExtend 32) = shamt.toNat :=
      amount_shamt _ _ (extract_lowest shamt (by omega))
    rw [RvcInsn.encoding, exec_imm (by simp)]
    simp [execImm, RvcInsn.operate, immI_zero, hf7, hsh]
  | lwsp rd imm =>
    rw [RvcInsn.encoding, exec_load (by simp)]
    simp [execLoad, RvcInsn.operate, loadInto, immI_zero]
  | flwsp rd imm =>
    rw [RvcInsn.encoding, exec_loadFp (by simp)]
    simp [execLoadFp, RvcInsn.operate, floadInto, immI_zero]
  | jr rs1 =>
    have hput := apply_putX_zero s next (s.x rs1 &&& ~~~1)
    rw [RvcInsn.encoding, exec_jalr (by simp)]
    simpa [execJalr, RvcInsn.operate, immI_typeI] using hput
  | mv rd rs2 =>
    rw [RvcInsn.encoding, exec_reg (by simp)]
    simp [execReg, RvcInsn.operate, hzero]
  | ebreak => rfl
  | jalr rs1 =>
    rw [RvcInsn.encoding, exec_jalr (by simp)]
    simp [execJalr, RvcInsn.operate, immI_typeI]
  | add rd rs2 =>
    rw [RvcInsn.encoding, exec_reg (by simp)]
    simp [execReg, RvcInsn.operate]
  | swsp rs2 imm =>
    rw [RvcInsn.encoding, exec_store (by simp)]
    simp [execStore, RvcInsn.operate, immS_zero]
  | fswsp rs2 imm =>
    rw [RvcInsn.encoding, exec_storeFp (by simp)]
    simp [execStoreFp, RvcInsn.operate, immS_zero]
  | lbu rd rs1 imm =>
    rw [RvcInsn.encoding, exec_load (by simp)]
    simp only [RvcInsn.operate, truncate_zeroExtend_byte]
    simp [execLoad, loadInto, immI_zero]
  | lhu rd rs1 imm =>
    rw [RvcInsn.encoding, exec_load (by simp)]
    simp only [RvcInsn.operate, truncate_zeroExtend_half]
    simp [execLoad, loadInto, immI_zero]
  | lh rd rs1 imm =>
    rw [RvcInsn.encoding, exec_load (by simp)]
    simp [execLoad, RvcInsn.operate, loadInto, immI_zero, sext16]
  | sb rs2 rs1 imm =>
    rw [RvcInsn.encoding, exec_store (by simp)]
    simp [execStore, RvcInsn.operate, immS_zero]
  | sh rs2 rs1 imm =>
    rw [RvcInsn.encoding, exec_store (by simp)]
    simp [execStore, RvcInsn.operate, immS_zero]
  | zextb rd =>
    have himm : immI (typeI 0xff#32 (reg3 rd) 7#3 (reg3 rd) opImm) = 0xff#32 := by
      rw [immI_typeI]
      rfl
    rw [RvcInsn.encoding, exec_imm (by simp)]
    simp only [RvcInsn.operate, truncate_zeroExtend_byte]
    simp [execImm, himm]
  | sextb rd =>
    rw [RvcInsn.encoding, exec_imm (by simp)]
    cases hb : s.bitmanip
    · simp [execImm, zbImm, bitmanipImm, RvcInsn.operate, needsBitmanip, hb, sext8, reject]
      rfl
    · simp [execImm, zbImm, bitmanipImm, RvcInsn.operate, needsBitmanip, hb, sext8]
  | zexth rd =>
    rw [RvcInsn.encoding, exec_reg (by simp)]
    simp only [RvcInsn.operate, truncate_zeroExtend_half]
    cases hb : s.bitmanip
    · simp [execReg, zbReg, bitmanipReg, needsBitmanip, hb, reject]
      rfl
    · simp [execReg, zbReg, bitmanipReg, needsBitmanip, hb]
  | sexth rd =>
    rw [RvcInsn.encoding, exec_imm (by simp)]
    cases hb : s.bitmanip
    · simp [execImm, zbImm, bitmanipImm, RvcInsn.operate, needsBitmanip, hb, sext16, reject]
      rfl
    · simp [execImm, zbImm, bitmanipImm, RvcInsn.operate, needsBitmanip, hb, sext16]
  | not rd =>
    have himm : immI (typeI 0xfff#32 (reg3 rd) 4#3 (reg3 rd) opImm) = 0xffffffff#32 := by
      rw [immI_typeI]
      rfl
    rw [RvcInsn.encoding, exec_imm (by simp)]
    have hnot : s.x (reg3 rd) ^^^ 0xffffffff#32 = ~~~s.x (reg3 rd) := BitVec.xor_allOnes
    simp [execImm, himm, hnot, RvcInsn.operate]
  | mul rd rs2 =>
    rw [RvcInsn.encoding, exec_reg (by simp)]
    simp [execReg, execMul, RvcInsn.operate, update3]

theorem operate_hint {h : Host μ} {s : Cpu μ} {next : Word} {i : RvcInsn} (hi : i.isHint = true) :
    (i.operate h s.toCore next).apply s = (Effect.done {} next).apply s := by
  cases i with
  | addi rd imm =>
    obtain rfl | rfl : rd = 0 ∨ imm = 0 := by simpa [RvcInsn.isHint] using hi
    · exact apply_putX_zero s _ next
    · have hself := apply_putX_self s rd next
      simpa [RvcInsn.operate] using hself
  | li rd imm =>
    obtain rfl : rd = 0 := by simpa [RvcInsn.isHint] using hi
    exact apply_putX_zero s _ next
  | lui rd imm =>
    obtain rfl : rd = 0 := by simpa [RvcInsn.isHint] using hi
    exact apply_putX_zero s _ next
  | mv rd rs2 =>
    obtain rfl : rd = 0 := by simpa [RvcInsn.isHint] using hi
    exact apply_putX_zero s _ next
  | add rd rs2 =>
    obtain rfl : rd = 0 := by simpa [RvcInsn.isHint] using hi
    exact apply_putX_zero s _ next
  | slli rd shamt =>
    obtain rfl | rfl : rd = 0 ∨ shamt = 0 := by simpa [RvcInsn.isHint] using hi
    · exact apply_putX_zero s _ next
    · have hself := apply_putX_self s rd next
      simpa [RvcInsn.operate] using hself
  | srli rd shamt =>
    obtain rfl : shamt = 0 := by simpa [RvcInsn.isHint] using hi
    have hself := apply_putX_self s (reg3 rd) next
    simpa [RvcInsn.operate] using hself
  | srai rd shamt =>
    obtain rfl : shamt = 0 := by simpa [RvcInsn.isHint] using hi
    have hself := apply_putX_self s (reg3 rd) next
    simpa [RvcInsn.operate] using hself
  | _ => cases hi

theorem exec_effect {h : Host μ} {s : Cpu μ} (hx0 : s.x 0 = 0) (next : Word) {i : RvcInsn}
    (hi : i.Aligned) :
    exec h s i.encoding next = (i.effect h s.toCore next).apply s := by
  rw [exec_encoding hx0 next i hi, RvcInsn.effect]
  by_cases hhint : i.isHint = true
  · rw [if_pos hhint, operate_hint hhint]
  · rw [if_neg hhint]

/-! ## Steps -/

/-- The next step of the machine executes the halfword `lo`. -/
structure Fetches (h : Host μ) (s : Cpu μ) (lo : BitVec 16) : Prop where
  running : s.halted = false
  noInterrupt : ¬ interrupted s
  aligned : s.pc &&& 1 = 0
  allowed : h.refuses s.mem s.pc 2 false = false
  half : fetchHalf h s s.pc = lo
  narrow : lo &&& 3 ≠ 3

theorem Fetches.rvStep_eq {h : Host μ} {s : Cpu μ} {lo : BitVec 16} (hf : Fetches h s lo) :
    (rvStep h s).1 = stepCompressed h s.fresh lo := by
  obtain ⟨hrun, hirq, haligned, hallowed, rfl, hnarrow⟩ := hf
  rw [rvStep_insn hrun hirq]
  exact stepInsn_narrow (s := s.fresh) haligned hallowed hnarrow

/-- What the specification of C and Zcb says about a step on the halfword `lo`. -/
def rvcStep (h : Host μ) (s : Cpu μ) (lo : BitVec 16) : Cpu μ :=
  match rvcDecode lo with
  | none => raise s (illegal (lo.zeroExtend 32))
  | some i => retire ((i.effect h s.toCore (s.pc + 2)).apply s)

/-- A step on a compressed instruction does what the specification says. -/
theorem rvStep_compressed (h : Host μ) (s : Cpu μ) (lo : BitVec 16) (hf : Fetches h s lo)
    (hx0 : s.x 0 = 0) (hzcb : s.zcb = true) (hzcmp : isZcmp lo = false) :
    (rvStep h s).1 = rvcStep h s.fresh lo := by
  have hzcb' : s.fresh.zcb = true := hzcb
  have hx0' : s.fresh.x 0 = 0 := hx0
  rw [hf.rvStep_eq, stepCompressed, if_neg (by simp [hzcmp]), expand_eq hzcb', rvcStep]
  cases hdec : rvcDecode lo with
  | none => exact if_pos rfl
  | some i =>
    have hne : encoded (some i) ≠ 0 := encoding_ne_zero i
    rw [if_neg hne]
    exact congrArg retire (exec_effect hx0' _ (rvcDecode_aligned lo hdec))

/-- A host whose memory holds `c.addi x1, 1` everywhere. -/
def incrementHost : Host Unit where
  read8 := fun _ _ => 0
  read16 := fun _ _ => 0x0085
  read32 := fun _ _ => 0
  write8 := fun _ _ _ => ()
  write16 := fun _ _ _ => ()
  write32 := fun _ _ _ => ()
  fp := trivialDoubles

theorem incrementHost_compressed :
    Fetches incrementHost (rvReset (rvInit ()) 0) 0x0085 ∧
      (rvStep incrementHost (rvReset (rvInit ()) 0)).1 =
        rvcStep incrementHost (rvReset (rvInit ()) 0).fresh 0x0085 := by
  have hf : Fetches incrementHost (rvReset (rvInit ()) 0) 0x0085 :=
    ⟨rfl, fun h => h.1 rfl, rfl, rfl, rfl, by decide⟩
  exact ⟨hf, rvStep_compressed incrementHost (rvReset (rvInit ()) 0) 0x0085 hf rfl rfl (by decide)⟩

example : rvcDecode 0x0085 = some (.addi 1 1) := by decide

example : rvcDecode 0 = none := by decide

end MechanicalResearcher.Rv32
