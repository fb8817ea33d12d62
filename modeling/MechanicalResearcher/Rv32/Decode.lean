import MechanicalResearcher.Rv32.Cpu

/-!
# Encodings of the RV32 emulator

The fields of an instruction, and the expansion of a compressed instruction to one of 32 bits.
An expansion is 0 for an encoding that has none, as in the source.
-/

namespace MechanicalResearcher.Rv32

def opcode (i : Word) : BitVec 7 := i.extractLsb' 0 7
def rdOf (i : Word) : Reg := i.extractLsb' 7 5
def funct3 (i : Word) : BitVec 3 := i.extractLsb' 12 3
def rs1Of (i : Word) : Reg := i.extractLsb' 15 5
def rs2Of (i : Word) : Reg := i.extractLsb' 20 5
def rs3Of (i : Word) : Reg := i.extractLsb' 27 5
def funct7 (i : Word) : BitVec 7 := i.extractLsb' 25 7

def opLoad : BitVec 7 := 0x03
def opLoadFp : BitVec 7 := 0x07
def opMiscMem : BitVec 7 := 0x0f
def opImm : BitVec 7 := 0x13
def opAuipc : BitVec 7 := 0x17
def opStore : BitVec 7 := 0x23
def opStoreFp : BitVec 7 := 0x27
def opAmo : BitVec 7 := 0x2f
def opReg : BitVec 7 := 0x33
def opLui : BitVec 7 := 0x37
def opMadd : BitVec 7 := 0x43
def opMsub : BitVec 7 := 0x47
def opNmsub : BitVec 7 := 0x4b
def opNmadd : BitVec 7 := 0x4f
def opFp : BitVec 7 := 0x53
def opBranch : BitVec 7 := 0x63
def opJalr : BitVec 7 := 0x67
def opJal : BitVec 7 := 0x6f
def opSystem : BitVec 7 := 0x73

def immI (i : Word) : Word := i.sshiftRight 20

def immS (i : Word) : Word := i.sshiftRight 25 <<< 5 ||| (i >>> 7 &&& 0x1f)

def immB (i : Word) : Word :=
  i.sshiftRight 31 <<< 12 ||| (i >>> 25 &&& 0x3f) <<< 5 ||| (i >>> 8 &&& 0x0f) <<< 1 |||
    (i >>> 7 &&& 0x01) <<< 11

def immU (i : Word) : Word := i &&& 0xfffff000

def immJ (i : Word) : Word :=
  i.sshiftRight 31 <<< 20 ||| (i >>> 21 &&& 0x3ff) <<< 1 ||| (i >>> 20 &&& 0x01) <<< 11 |||
    (i >>> 12 &&& 0xff) <<< 12

def encI (imm rs1 f3 rd op : Word) : Word :=
  (imm &&& 0xfff) <<< 20 ||| rs1 <<< 15 ||| f3 <<< 12 ||| rd <<< 7 ||| op

def encS (imm rs2 rs1 f3 op : Word) : Word :=
  (imm >>> 5 &&& 0x7f) <<< 25 ||| rs2 <<< 20 ||| rs1 <<< 15 ||| f3 <<< 12 |||
    (imm &&& 0x1f) <<< 7 ||| op

def encB (imm rs2 rs1 f3 op : Word) : Word :=
  (imm >>> 12 &&& 1) <<< 31 ||| (imm >>> 5 &&& 0x3f) <<< 25 ||| rs2 <<< 20 ||| rs1 <<< 15 |||
    f3 <<< 12 ||| (imm >>> 1 &&& 0xf) <<< 8 ||| (imm >>> 11 &&& 1) <<< 7 ||| op

def encJ (imm rd op : Word) : Word :=
  (imm >>> 20 &&& 1) <<< 31 ||| (imm >>> 1 &&& 0x3ff) <<< 21 ||| (imm >>> 11 &&& 1) <<< 20 |||
    (imm >>> 12 &&& 0xff) <<< 12 ||| rd <<< 7 ||| op

def encR (f7 rs2 rs1 f3 rd op : Word) : Word :=
  f7 <<< 25 ||| rs2 <<< 20 ||| rs1 <<< 15 ||| f3 <<< 12 ||| rd <<< 7 ||| op

section Compressed

variable (c : Word)

def crs1p : Word := (c >>> 7 &&& 7) + 8
def crs2p : Word := (c >>> 2 &&& 7) + 8
def crd : Word := c >>> 7 &&& 0x1f
def crs2 : Word := c >>> 2 &&& 0x1f

/-- The offset of `c.lw`, `c.flw`, `c.sw` and `c.fsw`. -/
def cImmLw : Word :=
  (c >>> 10 &&& 7) <<< 3 ||| (c >>> 6 &&& 1) <<< 2 ||| (c >>> 5 &&& 1) <<< 6

/-- The immediate of `c.addi`, `c.li` and `c.andi`. -/
def cImm6 : Word := (c >>> 2 &&& 0x1f) ||| (if c >>> 12 &&& 1 ≠ 0 then 0xffffffe0 else 0)

/-- The offset of `c.jal` and `c.j`. -/
def cImmJ : Word :=
  let imm := (c >>> 12 &&& 1) <<< 11 ||| (c >>> 11 &&& 1) <<< 4 ||| (c >>> 9 &&& 3) <<< 8 |||
    (c >>> 8 &&& 1) <<< 10 ||| (c >>> 7 &&& 1) <<< 6 ||| (c >>> 6 &&& 1) <<< 7 |||
    (c >>> 3 &&& 7) <<< 1 ||| (c >>> 2 &&& 1) <<< 5
  if imm &&& 0x800 ≠ 0 then imm ||| 0xfffff000 else imm

/-- The offset of `c.beqz` and `c.bnez`. -/
def cImmB : Word :=
  let imm := (c >>> 12 &&& 1) <<< 8 ||| (c >>> 10 &&& 3) <<< 3 ||| (c >>> 5 &&& 3) <<< 6 |||
    (c >>> 3 &&& 3) <<< 1 ||| (c >>> 2 &&& 1) <<< 5
  if imm &&& 0x100 ≠ 0 then imm ||| 0xfffffe00 else imm

/-- `c.addi4spn` -/
def cImmAddi4spn : Word :=
  (c >>> 7 &&& 0x0f) <<< 6 ||| (c >>> 11 &&& 3) <<< 4 ||| (c >>> 5 &&& 1) <<< 3 |||
    (c >>> 6 &&& 1) <<< 2

/-- `c.addi16sp`, before its sign is extended. -/
def cImmAddi16sp : Word :=
  (c >>> 12 &&& 1) <<< 9 ||| (c >>> 6 &&& 1) <<< 4 ||| (c >>> 5 &&& 1) <<< 6 |||
    (c >>> 3 &&& 3) <<< 7 ||| (c >>> 2 &&& 1) <<< 5

/-- `c.lui`, before its sign is extended. -/
def cImmLui : Word := (c >>> 12 &&& 1) <<< 17 ||| (c >>> 2 &&& 0x1f) <<< 12

def cImmLwsp : Word :=
  (c >>> 12 &&& 1) <<< 5 ||| (c >>> 4 &&& 7) <<< 2 ||| (c >>> 2 &&& 3) <<< 6

def cImmSwsp : Word := (c >>> 9 &&& 0xf) <<< 2 ||| (c >>> 7 &&& 3) <<< 6

/-- The quadrant 0. -/
def expandC0 (f3 : Word) : Word :=
  if f3 = 0 then
    if cImmAddi4spn c = 0 then 0 else encI (cImmAddi4spn c) 2 0 (crs2p c) 0x13
  else if f3 = 2 then encI (cImmLw c) (crs1p c) 2 (crs2p c) 0x03
  else if f3 = 3 then encI (cImmLw c) (crs1p c) 2 (crs2p c) 0x07
  else if f3 = 6 then encS (cImmLw c) (crs2p c) (crs1p c) 2 0x23
  else if f3 = 7 then encS (cImmLw c) (crs2p c) (crs1p c) 2 0x27
  else 0

/-- The case 3 of quadrant 1: `c.addi16sp` and `c.lui`. -/
def expandC13 : Word :=
  if crd c = 2 then
    if cImmAddi16sp c = 0 then 0
    else
      let imm := cImmAddi16sp c
      encI (if imm &&& 0x200 ≠ 0 then imm ||| 0xfffffc00 else imm) 2 0 2 0x13
  else if cImmLui c = 0 then 0
  else
    let imm := cImmLui c
    let imm := if imm &&& 0x20000 ≠ 0 then imm ||| 0xfffc0000 else imm
    (imm &&& 0xfffff000) ||| crd c <<< 7 ||| 0x37

/-- The case 4 of quadrant 1. -/
def expandC14 : Word :=
  let f2 := c >>> 10 &&& 3
  if f2 = 0 ∨ f2 = 1 then
    if c &&& 0x1000 ≠ 0 then 0
    else
      encI ((c >>> 2 &&& 0x1f) ||| (if c >>> 10 &&& 1 ≠ 0 then 0x400 else 0)) (crs1p c) 5 (crs1p c)
        0x13
  else if f2 = 2 then encI (cImm6 c) (crs1p c) 7 (crs1p c) 0x13
  else if c &&& 0x1000 ≠ 0 then 0
  else if c >>> 5 &&& 3 = 0 then encR 0x20 (crs2p c) (crs1p c) 0 (crs1p c) 0x33
  else if c >>> 5 &&& 3 = 1 then encR 0x00 (crs2p c) (crs1p c) 4 (crs1p c) 0x33
  else if c >>> 5 &&& 3 = 2 then encR 0x00 (crs2p c) (crs1p c) 6 (crs1p c) 0x33
  else encR 0x00 (crs2p c) (crs1p c) 7 (crs1p c) 0x33

/-- The quadrant 1. -/
def expandC1 (f3 : Word) : Word :=
  if f3 = 0 then encI (cImm6 c) (crd c) 0 (crd c) 0x13
  else if f3 = 1 then encJ (cImmJ c) 1 0x6f
  else if f3 = 2 then encI (cImm6 c) 0 0 (crd c) 0x13
  else if f3 = 3 then expandC13 c
  else if f3 = 4 then expandC14 c
  else if f3 = 5 then encJ (cImmJ c) 0 0x6f
  else encB (cImmB c) 0 (crs1p c) (if f3 = 6 then 0 else 1) 0x63

/-- The case 4 of quadrant 2. -/
def expandC24 : Word :=
  if c &&& 0x1000 = 0 then
    if crs2 c = 0 then
      if crd c = 0 then 0 else encI 0 (crd c) 0 0 0x67
    else encR 0 (crs2 c) 0 0 (crd c) 0x33
  else if crs2 c = 0 then
    if crd c = 0 then encI 1 0 0 0 0x73 else encI 0 (crd c) 0 1 0x67
  else encR 0 (crs2 c) (crd c) 0 (crd c) 0x33

/-- The quadrant 2. -/
def expandC2 (f3 : Word) : Word :=
  if f3 = 0 then
    if c &&& 0x1000 ≠ 0 then 0 else encI (crs2 c) (crd c) 1 (crd c) 0x13
  else if f3 = 2 then
    if crd c = 0 then 0 else encI (cImmLwsp c) 2 2 (crd c) 0x03
  else if f3 = 3 then encI (cImmLwsp c) 2 2 (crd c) 0x07
  else if f3 = 4 then expandC24 c
  else if f3 = 6 then encS (cImmSwsp c) (crs2 c) 2 2 0x23
  else if f3 = 7 then encS (cImmSwsp c) (crs2 c) 2 2 0x27
  else 0

/-- The loads and stores of Zcb. -/
def expandZcb0 : Word :=
  let f2 := c >>> 10 &&& 3
  if c &&& 0x1000 ≠ 0 then 0
  else if f2 = 0 then
    encI ((c >>> 6 &&& (1 : Word)) ||| (c >>> 5 &&& (1 : Word)) <<< 1) (crs1p c) 4 (crs2p c) 0x03
  else if f2 = 1 then
    encI ((c >>> 5 &&& 1) <<< 1) (crs1p c) (if c >>> 6 &&& 1 ≠ 0 then 1 else 5) (crs2p c) 0x03
  else if f2 = 2 then
    encS ((c >>> 6 &&& (1 : Word)) ||| (c >>> 5 &&& (1 : Word)) <<< 1) (crs2p c) (crs1p c) 0 0x23
  else if c &&& 0x40 ≠ 0 then 0
  else encS ((c >>> 5 &&& 1) <<< 1) (crs2p c) (crs1p c) 1 0x23

/-- The forms of Zcb with one operand, by the bits 2 to 4. -/
def expandZcb1 : Word :=
  let f := c >>> 2 &&& 7
  if f = 0 then encI 0xff (crs1p c) 7 (crs1p c) 0x13
  else if f = 1 then encI (0x30 <<< 5 ||| 4) (crs1p c) 1 (crs1p c) 0x13
  else if f = 2 then encR 0x04 0 (crs1p c) 4 (crs1p c) 0x33
  else if f = 3 then encI (0x30 <<< 5 ||| 5) (crs1p c) 1 (crs1p c) 0x13
  else if f = 5 then encI 0xfff (crs1p c) 4 (crs1p c) 0x13
  else 0

end Compressed

def rvExpandZcb (h : BitVec 16) : Word :=
  let c := h.zeroExtend 32
  if c >>> 13 &&& 7 ≠ 4 then 0
  else if c &&& 3 = 0 then expandZcb0 c
  else if c &&& 3 ≠ 1 ∨ c >>> 10 &&& 7 ≠ 7 then 0
  else if c >>> 5 &&& 3 = 2 then encR 0x01 (crs2p c) (crs1p c) 0 (crs1p c) 0x33
  else if c >>> 5 &&& 3 ≠ 3 then 0
  else expandZcb1 c

def rvExpandC (h : BitVec 16) : Word :=
  let c := h.zeroExtend 32
  let f3 := c >>> 13 &&& 7
  if h = 0 then 0
  else if c &&& 3 = 0 then expandC0 c f3
  else if c &&& 3 = 1 then expandC1 c f3
  else if c &&& 3 = 2 then expandC2 c f3
  else 0

end MechanicalResearcher.Rv32
