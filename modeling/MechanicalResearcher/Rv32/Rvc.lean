import MechanicalResearcher.Rv32.Exec

/-!
# The compressed instructions

What the C and Zcb extensions say about 16-bit encodings, for RV32 with F and without D: which
encodings there are, with the operands of each, and what an instruction does.  An encoding of 32
bits appears only as the value of the trap of a form that needs Zbb.
-/

namespace MechanicalResearcher.Rv32

variable {μ : Type}

/-- A register of three bits is one of x8 to x15. -/
def reg3 (r : BitVec 3) : Reg := 8 + r.zeroExtend 5

inductive RvcInsn
  | addi4spn (rd : BitVec 3) (imm : BitVec 10)
  | lw (rd rs1 : BitVec 3) (imm : BitVec 7)
  | flw (rd rs1 : BitVec 3) (imm : BitVec 7)
  | sw (rs2 rs1 : BitVec 3) (imm : BitVec 7)
  | fsw (rs2 rs1 : BitVec 3) (imm : BitVec 7)
  | addi (rd : Reg) (imm : BitVec 6)
  | jal (imm : BitVec 12)
  | li (rd : Reg) (imm : BitVec 6)
  | addi16sp (imm : BitVec 10)
  | lui (rd : Reg) (imm : BitVec 18)
  | srli (rd : BitVec 3) (shamt : BitVec 5)
  | srai (rd : BitVec 3) (shamt : BitVec 5)
  | andi (rd : BitVec 3) (imm : BitVec 6)
  | sub (rd rs2 : BitVec 3)
  | xor (rd rs2 : BitVec 3)
  | or (rd rs2 : BitVec 3)
  | and (rd rs2 : BitVec 3)
  | j (imm : BitVec 12)
  | beqz (rs1 : BitVec 3) (imm : BitVec 9)
  | bnez (rs1 : BitVec 3) (imm : BitVec 9)
  | slli (rd : Reg) (shamt : BitVec 5)
  | lwsp (rd : Reg) (imm : BitVec 8)
  | flwsp (rd : Reg) (imm : BitVec 8)
  | jr (rs1 : Reg)
  | mv (rd rs2 : Reg)
  | ebreak
  | jalr (rs1 : Reg)
  | add (rd rs2 : Reg)
  | swsp (rs2 : Reg) (imm : BitVec 8)
  | fswsp (rs2 : Reg) (imm : BitVec 8)
  | lbu (rd rs1 : BitVec 3) (imm : BitVec 2)
  | lhu (rd rs1 : BitVec 3) (imm : BitVec 2)
  | lh (rd rs1 : BitVec 3) (imm : BitVec 2)
  | sb (rs2 rs1 : BitVec 3) (imm : BitVec 2)
  | sh (rs2 rs1 : BitVec 3) (imm : BitVec 2)
  | zextb (rd : BitVec 3)
  | sextb (rd : BitVec 3)
  | zexth (rd : BitVec 3)
  | sexth (rd : BitVec 3)
  | not (rd : BitVec 3)
  | mul (rd rs2 : BitVec 3)
  deriving DecidableEq, Repr

/-- The bits of `c` from `k` downwards, each at its place in an immediate: the tables of the
specification list the places in this order. -/
def placed {n : Nat} (c : BitVec 16) : Nat → List Nat → BitVec n
  | _, [] => 0#n
  | k, p :: places => (c.extractLsb' k 1).zeroExtend n <<< p ||| placed c (k - 1) places

section Decode

variable (c : BitVec 16)

def uimmAddi4spn : BitVec 10 := placed c 12 [5, 4, 9, 8, 7, 6, 2, 3]
def uimmLw : BitVec 7 := placed c 12 [5, 4, 3] ||| placed c 6 [2, 6]
def imm6 : BitVec 6 := placed c 12 [5] ||| placed c 6 [4, 3, 2, 1, 0]
def immJump : BitVec 12 := placed c 12 [11, 4, 9, 8, 10, 6, 7, 3, 2, 1, 5]
def immBranch : BitVec 9 := placed c 12 [8, 4, 3] ||| placed c 6 [7, 6, 2, 1, 5]
def immAddi16sp : BitVec 10 := placed c 12 [9] ||| placed c 6 [4, 6, 8, 7, 5]
def immLui : BitVec 18 := placed c 12 [17] ||| placed c 6 [16, 15, 14, 13, 12]
def uimmLwsp : BitVec 8 := placed c 12 [5] ||| placed c 6 [4, 3, 2, 7, 6]
def uimmSwsp : BitVec 8 := placed c 12 [5, 4, 3, 2, 7, 6]
def uimmByte : BitVec 2 := placed c 6 [0, 1]
def uimmHalf : BitVec 2 := placed c 5 [1]

/-- The registers of three bits, in the bits 9 to 7 and 4 to 2. -/
def high3 : BitVec 3 := c.extractLsb' 7 3
def low3 : BitVec 3 := c.extractLsb' 2 3

/-- The registers of five bits, in the bits 11 to 7 and 6 to 2. -/
def high5 : Reg := c.extractLsb' 7 5
def low5 : Reg := c.extractLsb' 2 5

def bit12 : Bool := c.getLsbD 12

/-- Quadrant 0 of C. -/
def rvcQuadrant0 : Option RvcInsn :=
  let f3 : BitVec 3 := c.extractLsb' 13 3
  if f3 = 0 then
    if uimmAddi4spn c = 0 then none else some (.addi4spn (low3 c) (uimmAddi4spn c))
  else if f3 = 2 then some (.lw (low3 c) (high3 c) (uimmLw c))
  else if f3 = 3 then some (.flw (low3 c) (high3 c) (uimmLw c))
  else if f3 = 6 then some (.sw (low3 c) (high3 c) (uimmLw c))
  else if f3 = 7 then some (.fsw (low3 c) (high3 c) (uimmLw c))
  else none

/-- `c.addi16sp` and `c.lui` -/
def rvcStackOrUpper : Option RvcInsn :=
  if high5 c = 2 then
    if immAddi16sp c = 0 then none else some (.addi16sp (immAddi16sp c))
  else if immLui c = 0 then none
  else some (.lui (high5 c) (immLui c))

/-- The arithmetic of quadrant 1. -/
def rvcArith : Option RvcInsn :=
  let f2 : BitVec 2 := c.extractLsb' 10 2
  let g2 : BitVec 2 := c.extractLsb' 5 2
  if f2 = 0 then (if bit12 c then none else some (.srli (high3 c) (low5 c)))
  else if f2 = 1 then (if bit12 c then none else some (.srai (high3 c) (low5 c)))
  else if f2 = 2 then some (.andi (high3 c) (imm6 c))
  else if bit12 c then none
  else if g2 = 0 then some (.sub (high3 c) (low3 c))
  else if g2 = 1 then some (.xor (high3 c) (low3 c))
  else if g2 = 2 then some (.or (high3 c) (low3 c))
  else some (.and (high3 c) (low3 c))

/-- Quadrant 1 of C. -/
def rvcQuadrant1 : Option RvcInsn :=
  let f3 : BitVec 3 := c.extractLsb' 13 3
  if f3 = 0 then some (.addi (high5 c) (imm6 c))
  else if f3 = 1 then some (.jal (immJump c))
  else if f3 = 2 then some (.li (high5 c) (imm6 c))
  else if f3 = 3 then rvcStackOrUpper c
  else if f3 = 4 then rvcArith c
  else if f3 = 5 then some (.j (immJump c))
  else if f3 = 6 then some (.beqz (high3 c) (immBranch c))
  else some (.bnez (high3 c) (immBranch c))

/-- The jumps and moves of quadrant 2. -/
def rvcJumpOrMove : Option RvcInsn :=
  if bit12 c then
    if low5 c ≠ 0 then some (.add (high5 c) (low5 c))
    else if high5 c ≠ 0 then some (.jalr (high5 c))
    else some .ebreak
  else if low5 c ≠ 0 then some (.mv (high5 c) (low5 c))
  else if high5 c ≠ 0 then some (.jr (high5 c))
  else none

/-- Quadrant 2 of C. -/
def rvcQuadrant2 : Option RvcInsn :=
  let f3 : BitVec 3 := c.extractLsb' 13 3
  if f3 = 0 then (if bit12 c then none else some (.slli (high5 c) (low5 c)))
  else if f3 = 2 then (if high5 c = 0 then none else some (.lwsp (high5 c) (uimmLwsp c)))
  else if f3 = 3 then some (.flwsp (high5 c) (uimmLwsp c))
  else if f3 = 4 then rvcJumpOrMove c
  else if f3 = 6 then some (.swsp (low5 c) (uimmSwsp c))
  else if f3 = 7 then some (.fswsp (low5 c) (uimmSwsp c))
  else none

/-- The loads and stores of Zcb. -/
def zcbMemory : Option RvcInsn :=
  let f2 : BitVec 2 := c.extractLsb' 10 2
  if bit12 c then none
  else if f2 = 0 then some (.lbu (low3 c) (high3 c) (uimmByte c))
  else if f2 = 1 then
    if c.getLsbD 6 then some (.lh (low3 c) (high3 c) (uimmHalf c))
    else some (.lhu (low3 c) (high3 c) (uimmHalf c))
  else if f2 = 2 then some (.sb (low3 c) (high3 c) (uimmByte c))
  else if c.getLsbD 6 then none
  else some (.sh (low3 c) (high3 c) (uimmHalf c))

/-- The arithmetic of Zcb. -/
def zcbArith : Option RvcInsn :=
  let g2 : BitVec 2 := c.extractLsb' 5 2
  if g2 = 2 then some (.mul (high3 c) (low3 c))
  else if g2 = 3 then
    if low3 c = 0 then some (.zextb (high3 c))
    else if low3 c = 1 then some (.sextb (high3 c))
    else if low3 c = 2 then some (.zexth (high3 c))
    else if low3 c = 3 then some (.sexth (high3 c))
    else if low3 c = 5 then some (.not (high3 c))
    else none
  else none

/-- The encodings of Zcb, by the quadrant and the bits 15 to 10. -/
def zcbDecode : Option RvcInsn :=
  if c.extractLsb' 13 3 = (4 : BitVec 3) then
    if c.extractLsb' 0 2 = (0 : BitVec 2) then zcbMemory c
    else if c.extractLsb' 0 2 = (1 : BitVec 2) ∧ c.extractLsb' 10 3 = (7 : BitVec 3) then zcbArith c
    else none
  else none

def rvcBase : Option RvcInsn :=
  let quadrant : BitVec 2 := c.extractLsb' 0 2
  if quadrant = 0 then rvcQuadrant0 c
  else if quadrant = 1 then rvcQuadrant1 c
  else if quadrant = 2 then rvcQuadrant2 c
  else none

/-- The instruction of an encoding; none for the reserved ones. -/
def rvcDecode : Option RvcInsn := (rvcBase c).or (zcbDecode c)

end Decode

/-- The instructions without an effect, `c.nop` among them. -/
def RvcInsn.isHint : RvcInsn → Bool
  | .addi rd imm => rd = 0 || imm = 0
  | .li rd _ | .lui rd _ | .mv rd _ | .add rd _ => rd = 0
  | .slli rd shamt => rd = 0 || shamt = 0
  | .srli _ shamt | .srai _ shamt => shamt = 0
  | _ => false

section Effect

variable (h : Host μ) (c : Core μ) (next : Word)

def loadInto (rd : Reg) (addr : Word) (size : Nat) (extend : Word → Word) : Effect μ :=
  reading next (memRead h.toBus c addr size) fun v => putX rd (extend v) next

def floadInto (rd : Reg) (addr : Word) : Effect μ :=
  reading next (memRead h.toBus c addr 4) fun v => .done { f := some (rd, v) } next

/-- The registers of an operation on x8 to x15. -/
def update3 (rd rs2 : BitVec 3) (op : Word → Word → Word) : Effect μ :=
  putX (reg3 rd) (op (c.x (reg3 rd)) (c.x (reg3 rs2))) next

/-- An operation of Zbb, whose encoding of 32 bits is `insn`. -/
def needsBitmanip (insn : Word) (e : Effect μ) : Effect μ :=
  if c.bitmanip then e else .trap (illegal insn) next false

/-- What an instruction does that is no hint; `next` is the address behind it. -/
def RvcInsn.operate : RvcInsn → Effect μ
  | .addi4spn rd imm => putX (reg3 rd) (c.x 2 + imm.zeroExtend 32) next
  | .lw rd rs1 imm => loadInto h c next (reg3 rd) (c.x (reg3 rs1) + imm.zeroExtend 32) 4 id
  | .flw rd rs1 imm => floadInto h c next (reg3 rd) (c.x (reg3 rs1) + imm.zeroExtend 32)
  | .sw rs2 rs1 imm =>
    storing h c next (c.x (reg3 rs1) + imm.zeroExtend 32) 4 (c.x (reg3 rs2))
  | .fsw rs2 rs1 imm =>
    storing h c next (c.x (reg3 rs1) + imm.zeroExtend 32) 4 (c.f (reg3 rs2))
  | .addi rd imm => putX rd (c.x rd + imm.signExtend 32) next
  | .jal imm => putX 1 next (c.pc + imm.signExtend 32)
  | .li rd imm => putX rd (imm.signExtend 32) next
  | .addi16sp imm => putX 2 (c.x 2 + imm.signExtend 32) next
  | .lui rd imm => putX rd (imm.signExtend 32) next
  | .srli rd shamt => putX (reg3 rd) (c.x (reg3 rd) >>> shamt.toNat) next
  | .srai rd shamt => putX (reg3 rd) ((c.x (reg3 rd)).sshiftRight shamt.toNat) next
  | .andi rd imm => putX (reg3 rd) (c.x (reg3 rd) &&& imm.signExtend 32) next
  | .sub rd rs2 => update3 c next rd rs2 fun a b => a - b
  | .xor rd rs2 => update3 c next rd rs2 fun a b => a ^^^ b
  | .or rd rs2 => update3 c next rd rs2 fun a b => a ||| b
  | .and rd rs2 => update3 c next rd rs2 fun a b => a &&& b
  | .j imm => .done {} (c.pc + imm.signExtend 32)
  | .beqz rs1 imm => .done {} (if c.x (reg3 rs1) = 0 then c.pc + imm.signExtend 32 else next)
  | .bnez rs1 imm => .done {} (if c.x (reg3 rs1) = 0 then next else c.pc + imm.signExtend 32)
  | .slli rd shamt => putX rd (c.x rd <<< shamt.toNat) next
  | .lwsp rd imm => loadInto h c next rd (c.x 2 + imm.zeroExtend 32) 4 id
  | .flwsp rd imm => floadInto h c next rd (c.x 2 + imm.zeroExtend 32)
  | .jr rs1 => .done {} (c.x rs1 &&& ~~~1)
  | .mv rd rs2 => putX rd (c.x rs2) next
  | .ebreak => .trap ⟨3, 0, some (.ebreak, ebreakInsn, 0, "")⟩ next false
  | .jalr rs1 => putX 1 next (c.x rs1 &&& ~~~1)
  | .add rd rs2 => putX rd (c.x rd + c.x rs2) next
  | .swsp rs2 imm => storing h c next (c.x 2 + imm.zeroExtend 32) 4 (c.x rs2)
  | .fswsp rs2 imm => storing h c next (c.x 2 + imm.zeroExtend 32) 4 (c.f rs2)
  | .lbu rd rs1 imm =>
    loadInto h c next (reg3 rd) (c.x (reg3 rs1) + imm.zeroExtend 32) 1
      fun v => (v.truncate 8).zeroExtend 32
  | .lhu rd rs1 imm =>
    loadInto h c next (reg3 rd) (c.x (reg3 rs1) + imm.zeroExtend 32) 2
      fun v => (v.truncate 16).zeroExtend 32
  | .lh rd rs1 imm =>
    loadInto h c next (reg3 rd) (c.x (reg3 rs1) + imm.zeroExtend 32) 2
      fun v => (v.truncate 16).signExtend 32
  | .sb rs2 rs1 imm =>
    storing h c next (c.x (reg3 rs1) + imm.zeroExtend 32) 1 (c.x (reg3 rs2))
  | .sh rs2 rs1 imm =>
    storing h c next (c.x (reg3 rs1) + imm.zeroExtend 32) 2 (c.x (reg3 rs2))
  | .zextb rd => putX (reg3 rd) (((c.x (reg3 rd)).truncate 8).zeroExtend 32) next
  | .sextb rd =>
    needsBitmanip c next (encI 0x604 ((reg3 rd).zeroExtend 32) 1 ((reg3 rd).zeroExtend 32) 0x13)
      (putX (reg3 rd) (((c.x (reg3 rd)).truncate 8).signExtend 32) next)
  | .zexth rd =>
    needsBitmanip c next (encR 0x04 0 ((reg3 rd).zeroExtend 32) 4 ((reg3 rd).zeroExtend 32) 0x33)
      (putX (reg3 rd) (((c.x (reg3 rd)).truncate 16).zeroExtend 32) next)
  | .sexth rd =>
    needsBitmanip c next (encI 0x605 ((reg3 rd).zeroExtend 32) 1 ((reg3 rd).zeroExtend 32) 0x13)
      (putX (reg3 rd) (((c.x (reg3 rd)).truncate 16).signExtend 32) next)
  | .not rd => putX (reg3 rd) (~~~c.x (reg3 rd)) next
  | .mul rd rs2 => update3 c next rd rs2 fun a b => a * b

def RvcInsn.effect (i : RvcInsn) : Effect μ :=
  if i.isHint then .done {} next else i.operate h c next

end Effect

end MechanicalResearcher.Rv32
