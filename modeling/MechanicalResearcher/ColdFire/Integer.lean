import MechanicalResearcher.ColdFire.Cpu

/-!
# The integer instructions

The opcode groups of `coldfire.c` other than the EMAC and the FPU, one function a group.  A
group is a chain of tests in the order of the source; an instruction of more than a line has
its own definition.  `goto illegal` is the illegal-instruction exception in its place.
-/

namespace MechanicalResearcher.ColdFire

variable {μ : Type} (b : Bus μ)

/-! ## Fields of an opword -/

/-- The effective address, or the source of a MOVE. -/
def eaMode (op : Half) : Reg := op.extractLsb' 3 3
def eaReg (op : Half) : Reg := op.extractLsb' 0 3

/-- The register operand in bits 11-9. -/
def regDx (op : Half) : Reg := op.extractLsb' 9 3

/-- Bits 8-6: the direction and size of an arithmetic instruction, or the mode of the
destination of a MOVE. -/
def opmode (op : Half) : Reg := op.extractLsb' 6 3

def sizeBits (op : Half) : BitVec 2 := op.extractLsb' 6 2

def illegal (s : Cpu μ) : Cpu μ := cfException b s vecIllegal

/-- A privileged instruction. -/
def privileged (s : Cpu μ) (body : Cpu μ → Cpu μ) : Cpu μ :=
  if isSupervisor s then body s else cfException b s vecPrivilege

/-! ## Group 0: immediate and bit operations -/

/-- What a bit operation stores; BTST stores nothing. -/
def bitResult (bitOp : BitVec 2) (val bit : Word) : Option Word :=
  if bitOp = 0 then none
  else if bitOp = 1 then some (val ^^^ bit)
  else if bitOp = 2 then some (val &&& ~~~bit)
  else some (val ||| bit)

/-- Register: 32-bit, bit modulo 32. -/
def bitRegister (s : Cpu μ) (bitOp : BitVec 2) (reg : Reg) (bitnum : Word) : Cpu μ :=
  let bit : Word := 1 <<< (bitnum &&& 31).toNat
  let val := s.d reg
  let s := setFlag s srZ (val &&& bit = 0)
  match bitResult bitOp val bit with
  | none => s
  | some v => s.setD reg v

/-- Memory: 8-bit, bit modulo 8. -/
def bitMemory (s : Cpu μ) (bitOp : BitVec 2) (mode reg : Reg) (bitnum : Word) : Cpu μ :=
  let bit : Word := 1 <<< (bitnum &&& 7).toNat
  let (loc, s) := decodeEa b s mode reg .byte
  let val := readEa b s loc .byte
  let s := setFlag s srZ (val &&& bit = 0)
  match bitResult bitOp val bit with
  | none => s
  | some v => writeEa b s loc .byte v

def bitInsn (s : Cpu μ) (op : Half) (bitnum : Word) : Cpu μ :=
  if eaMode op = 0 then bitRegister s (sizeBits op) (eaReg op) bitnum
  else bitMemory b s (sizeBits op) (eaMode op) (eaReg op) bitnum

/-- The loop of FF1; a word that is not 0 ends it within 32 turns. -/
def ff1Loop : Nat → Word → Word → Word
  | 0, _, n => n
  | fuel + 1, val, n => if val.msb then n else ff1Loop fuel (val <<< 1) (n + 1)

def ff1 (s : Cpu μ) (reg : Reg) : Cpu μ :=
  s.setD reg (if s.d reg = 0 then 32 else ff1Loop 32 (s.d reg) 0)

def byterev (s : Cpu μ) (reg : Reg) : Cpu μ :=
  let val := s.d reg
  s.setD reg ((val >>> 24 &&& 0xFF) ||| (val >>> 8 &&& 0xFF00) ||| (val <<< 8 &&& 0xFF0000) |||
    (val <<< 24 &&& 0xFF000000))

def fetchImm (s : Cpu μ) : Size → Word × Cpu μ
  | .long => fetch32 b s
  | .word =>
    let (w, s) := fetch16 b s
    (w.zeroExtend 32 &&& 0xFFFF, s)
  | .byte =>
    let (w, s) := fetch16 b s
    (w.zeroExtend 32 &&& 0xFF, s)

def immediateInsn (s : Cpu μ) (op : Half) (sz : Size) : Cpu μ :=
  let (imm, s) := fetchImm b s sz
  let (loc, s) := decodeEa b s (eaMode op) (eaReg op) sz
  let dst := readEa b s loc sz
  match (regDx op).toNat with
  | 0 => setFlagsMove (writeEa b s loc sz (dst ||| imm)) (dst ||| imm) sz
  | 1 => setFlagsMove (writeEa b s loc sz (dst &&& imm)) (dst &&& imm) sz
  | 2 => setFlagsSub (writeEa b s loc sz (dst - imm)) imm dst (dst - imm) sz
  | 3 => setFlagsAdd (writeEa b s loc sz (dst + imm)) imm dst (dst + imm) sz
  | 5 => setFlagsMove (writeEa b s loc sz (dst ^^^ imm)) (dst ^^^ imm) sz
  | 6 => setFlagsCmp s imm dst (dst - imm) sz
  | _ => illegal b s

def execGroup0 (s : Cpu μ) (op : Half) : Cpu μ :=
  if (op >>> 8) &&& 0xFE = 0x08 then
    let (ext, s) := fetch16 b s
    bitInsn b s op (ext.zeroExtend 32 &&& 0xFF)
  else if op &&& 0xFFF8 = 0x04C0 then ff1 s (eaReg op)
  else if op &&& 0xFFF8 = 0x02C0 then byterev s (eaReg op)
  else
    match decodeSize (sizeBits op) with
    | none => illegal b s
    | some sz => immediateInsn b s op sz

/-- The bit number is in a register. -/
def execBitReg (s : Cpu μ) (op : Half) : Cpu μ := bitInsn b s op (s.d (regDx op))

/-! ## Groups 1 to 3: MOVE -/

def execMove (s : Cpu μ) (op : Half) (sz : Size) : Cpu μ :=
  let (val, s) := eaRead b s (eaMode op) (eaReg op) sz
  if opmode op = 1 then
    -- MOVEA: no flags change
    if sz = .byte then illegal b s else s.setA (regDx op) (signExtend val sz)
  else
    let (dst, s) := decodeEa b s (opmode op) (regDx op) sz
    setFlagsMove (writeEa b s dst sz val) val sz

/-! ## Group 4: miscellaneous -/

def tas (s : Cpu μ) (op : Half) : Cpu μ :=
  let (loc, s) := decodeEa b s (eaMode op) (eaReg op) .byte
  let val := readEa b s loc .byte
  writeEa b (setFlagsMove s val .byte) loc .byte (val ||| 0x80)

def tst (s : Cpu μ) (op : Half) : Cpu μ :=
  match decodeSize (sizeBits op) with
  | none => illegal b s
  | some sz =>
    let (val, s) := eaRead b s (eaMode op) (eaReg op) sz
    setFlagsMove s val sz

def clr (s : Cpu μ) (op : Half) : Cpu μ :=
  match decodeSize (sizeBits op) with
  | none => illegal b s
  | some sz =>
    let (loc, s) := decodeEa b s (eaMode op) (eaReg op) sz
    let s := writeEa b s loc sz 0
    { s with sr := (s.sr &&& ~~~(srN ||| srV ||| srC)) ||| srZ }

def neg (s : Cpu μ) (reg : Reg) : Cpu μ :=
  let src := s.d reg
  setFlagsSub (s.setD reg (0 - src)) src 0 (0 - src) .long

/-- The X flag as a number of 64 bits. -/
def xBit (s : Cpu μ) : BitVec 64 := if s.sr &&& srX ≠ 0 then 1 else 0

/-- Z is only cleared, never set. -/
def clearZ (s : Cpu μ) (res : Word) : Cpu μ :=
  if res ≠ 0 then { s with sr := s.sr &&& ~~~srZ } else s

def negx (s : Cpu μ) (reg : Reg) : Cpu μ :=
  let src := s.d reg
  let diff := (0 : BitVec 64) - src.zeroExtend 64 - xBit s
  let res : Word := diff.truncate 32
  let s := s.setD reg res
  let s := setFlag s srC (diff >>> 32 ≠ 0)
  let s := setFlag s srX (diff >>> 32 ≠ 0)
  let s := setFlag s srV (res &&& 0x80000000 ≠ 0 ∧ src &&& 0x80000000 ≠ 0)
  let s := setFlag s srN (res &&& 0x80000000 ≠ 0)
  clearZ s res

def notL (s : Cpu μ) (reg : Reg) : Cpu μ :=
  let res := ~~~s.d reg
  setFlagsMove (s.setD reg res) res .long

/-- Byte to word. -/
def extW (s : Cpu μ) (reg : Reg) : Cpu μ :=
  let val : Half := ((s.d reg).truncate 8).signExtend 16
  setFlagsMove (s.setD reg ((s.d reg &&& 0xFFFF0000) ||| val.zeroExtend 32)) (val.zeroExtend 32)
    .word

/-- Word or byte to long. -/
def extL (s : Cpu μ) (reg : Reg) (sz : Size) : Cpu μ :=
  let val := signExtend (s.d reg) sz
  setFlagsMove (s.setD reg val) val .long

def swap (s : Cpu μ) (reg : Reg) : Cpu μ :=
  let res := s.d reg >>> 16 ||| s.d reg <<< 16
  setFlagsMove (s.setD reg res) res .long

/-- `cpu->a[7] -= 4` and a write there. -/
def push32 (s : Cpu μ) (v : Word) : Cpu μ :=
  let s := s.setA 7 (s.a 7 - 4)
  busWrite32 b s (s.a 7) v

def pea (s : Cpu μ) (op : Half) : Cpu μ :=
  let (loc, s) := decodeEa b s (eaMode op) (eaReg op) .long
  push32 b s loc.addr

/-! ### MOVEM -/

/-- D0-D7, then A0-A7. -/
def listReg (s : Cpu μ) (i : Nat) : Word :=
  if i < 8 then s.d (BitVec.ofNat 3 i) else s.a (BitVec.ofNat 3 (i - 8))

def setListReg (s : Cpu μ) (i : Nat) (v : Word) : Cpu μ :=
  if i < 8 then s.setD (BitVec.ofNat 3 i) v else s.setA (BitVec.ofNat 3 (i - 8)) v

/-- -(An): reversed mask, write downward. -/
def movemPredec (s : Cpu μ) (reg : Reg) (mask : Half) : Cpu μ :=
  (List.range 16).foldl (fun s j =>
    if mask.getLsbD j then
      let s := s.setA reg (s.a reg - 4)
      busWrite32 b s (s.a reg) (listReg s (15 - j))
    else s) s

/-- (An)+: normal mask, read upward. -/
def movemPostinc (s : Cpu μ) (reg : Reg) (mask : Half) : Cpu μ :=
  (List.range 16).foldl (fun s i =>
    if mask.getLsbD i then
      let s := setListReg s i (busRead32 b s (s.a reg))
      s.setA reg (s.a reg + 4)
    else s) s

def movemStore (s : Cpu μ) (addr : Word) (mask : Half) : Cpu μ :=
  ((List.range 16).foldl (fun (r : Cpu μ × Word) i =>
    if mask.getLsbD i then (busWrite32 b r.1 r.2 (listReg r.1 i), r.2 + 4) else r) (s, addr)).1

def movemLoad (s : Cpu μ) (addr : Word) (mask : Half) : Cpu μ :=
  ((List.range 16).foldl (fun (r : Cpu μ × Word) i =>
    if mask.getLsbD i then (setListReg r.1 i (busRead32 b r.1 r.2), r.2 + 4) else r) (s, addr)).1

def movem (s : Cpu μ) (op : Half) : Cpu μ :=
  let toRegs := op.getLsbD 10
  if op.getLsbD 6 = false then illegal b s
  else
    let mode := eaMode op
    let (mask, s) := fetch16 b s
    if mode = 0 then illegal b s
    else if mode = 4 ∧ toRegs = false then movemPredec b s (eaReg op) mask
    else if mode = 3 ∧ toRegs = true then movemPostinc b s (eaReg op) mask
    else if mode ≠ 2 ∧ mode ≠ 5 then illegal b s
    else
      let (loc, s) := decodeEa b s mode (eaReg op) .long
      if toRegs then movemLoad b s loc.addr mask else movemStore b s loc.addr mask

/-! ### Addresses, the stack and control -/

def lea (s : Cpu μ) (op : Half) : Cpu μ :=
  let (loc, s) := decodeEa b s (eaMode op) (eaReg op) .long
  s.setA (regDx op) loc.addr

def link (s : Cpu μ) (reg : Reg) : Cpu μ :=
  let (disp, s) := fetch16 b s
  let s := s.setA 7 (s.a 7 - 4)
  let s := busWrite32 b s (s.a 7) (s.a reg)
  let s := s.setA reg (s.a 7)
  s.setA 7 (s.a 7 + disp.signExtend 32)

def unlk (s : Cpu μ) (reg : Reg) : Cpu μ :=
  let s := s.setA 7 (s.a reg)
  let s := s.setA reg (busRead32 b s (s.a 7))
  s.setA 7 (s.a 7 + 4)

def rts (s : Cpu μ) : Cpu μ :=
  let s := { s with pc := busRead32 b s (s.a 7) }
  s.setA 7 (s.a 7 + 4)

/-- The body of RTE, in supervisor mode. -/
def rte (s : Cpu μ) : Cpu μ :=
  let fmt := busRead16 b s (s.a 7)
  if fmt >>> 12 &&& 0xF ≠ 4 then cfException b s vecFormatError
  else
    let s := s.setA 7 (s.a 7 + 2)
    let newSr := busRead16 b s (s.a 7)
    let s := s.setA 7 (s.a 7 + 2)
    let newPc := busRead32 b s (s.a 7)
    let s := s.setA 7 (s.a 7 + 4)
    { updateSp s newSr with sr := newSr, pc := newPc }

def stop (s : Cpu μ) : Cpu μ :=
  let (w, s) := fetch16 b s
  { updateSp s (w.zeroExtend 32) with sr := w.zeroExtend 32, halted := true }

def jsr (s : Cpu μ) (op : Half) : Cpu μ :=
  let (loc, s) := decodeEa b s (eaMode op) (eaReg op) .long
  { push32 b s s.pc with pc := loc.addr }

def jmp (s : Cpu μ) (op : Half) : Cpu μ :=
  let (loc, s) := decodeEa b s (eaMode op) (eaReg op) .long
  { s with pc := loc.addr }

def moveFromSr (op : Half) (s : Cpu μ) : Cpu μ :=
  let (loc, s) := decodeEa b s (eaMode op) (eaReg op) .word
  writeEa b s loc .word (s.sr &&& 0xFFFF)

def moveToCcr (s : Cpu μ) (op : Half) : Cpu μ :=
  let (val, s) := eaRead b s (eaMode op) (eaReg op) .word
  { s with sr := (s.sr &&& 0xFF00) ||| (val &&& 0xFF) }

def moveToSr (op : Half) (s : Cpu μ) : Cpu μ :=
  let (val, s) := eaRead b s (eaMode op) (eaReg op) .word
  let newSr := val &&& 0xFFFF
  { updateSp s newSr with sr := newSr }

def moveUsp (op : Half) (s : Cpu μ) : Cpu μ :=
  if op.getLsbD 3 = false then { s with otherA7 := s.a (eaReg op) }
  else s.setA (eaReg op) s.otherA7

/-- The low 32 bits of a product are the same with and without sign. -/
def mulL (s : Cpu μ) (op : Half) : Cpu μ :=
  let (ext, s) := fetch16 b s
  let dstReg : Reg := ext.extractLsb' 12 3
  let (loc, s) := decodeEa b s (eaMode op) (eaReg op) .long
  let src := readEa b s loc .long
  let res := s.d dstReg * src
  setFlagsMove (s.setD dstReg res) res .long

/-- INT32_MIN / -1 only sets flags. -/
def divOverflow (s : Cpu μ) : Cpu μ :=
  { s with sr := (s.sr ||| (srV ||| srN)) &&& ~~~srZ }

/-- Quotient, or remainder and quotient when the registers differ. -/
def storeQuotient (s : Cpu μ) (quotReg remReg : Reg) (quotient remainder : Word) : Cpu μ :=
  let s := s.setD quotReg quotient
  let s := if quotReg = remReg then s else s.setD remReg remainder
  setFlagsMove s quotient .long

def divL (s : Cpu μ) (op : Half) : Cpu μ :=
  let (ext, s) := fetch16 b s
  let quotReg : Reg := ext.extractLsb' 12 3
  let remReg : Reg := ext.extractLsb' 0 3
  let (loc, s) := decodeEa b s (eaMode op) (eaReg op) .long
  let divisor := readEa b s loc .long
  if divisor = 0 then cfException b s vecZeroDivide
  else
    let dividend := s.d quotReg
    if ext.getLsbD 11 then
      if dividend = 0x80000000 ∧ divisor = 0xFFFFFFFF then divOverflow s
      else storeQuotient s quotReg remReg (dividend.sdiv divisor) (dividend.srem divisor)
    else storeQuotient s quotReg remReg (dividend / divisor) (dividend % divisor)

/-- Control register to general register; most read 0. -/
def controlReg (s : Cpu μ) (rc : BitVec 12) : Word :=
  if rc = 0x002 then s.cacr else if rc = 0x801 then s.vbr else 0

def setControlReg (s : Cpu μ) (rc : BitVec 12) (v : Word) : Cpu μ :=
  if rc = 0x002 then { s with cacr := v }
  else if rc = 0x801 then { s with vbr := v &&& 0xFFF00000 }
  else s

def movec (op : Half) (s : Cpu μ) : Cpu μ :=
  let (ext, s) := fetch16 b s
  let rn := (ext.extractLsb' 12 4).toNat
  let rc : BitVec 12 := ext.extractLsb' 0 12
  if op.getLsbD 0 = false then setListReg s rn (controlReg s rc)
  else setControlReg s rc (listReg s rn)

def execGroup4 (s : Cpu μ) (op : Half) : Cpu μ :=
  if op = 0x4AC8 then privileged b s fun s => { s with halted := true }
  else if op = 0x4AFC then illegal b s
  else if op &&& 0xFFC0 = 0x4AC0 then tas b s op
  else if op &&& 0xFF00 = 0x4A00 then tst b s op
  else if op &&& 0xFF00 = 0x4200 then clr b s op
  else if op &&& 0xFFF8 = 0x4480 then neg s (eaReg op)
  else if op &&& 0xFFF8 = 0x4080 then negx s (eaReg op)
  else if op &&& 0xFFF8 = 0x4680 then notL s (eaReg op)
  else if op &&& 0xFFF8 = 0x4880 then extW s (eaReg op)
  else if op &&& 0xFFF8 = 0x48C0 then extL s (eaReg op) .word
  else if op &&& 0xFFF8 = 0x49C0 then extL s (eaReg op) .byte
  else if op &&& 0xFFF8 = 0x4840 then swap s (eaReg op)
  else if op &&& 0xFFC0 = 0x4840 then
    if eaMode op = 0 then illegal b s else pea b s op
  else if op &&& 0xFB80 = 0x4880 then movem b s op
  else if op &&& 0xF1C0 = 0x41C0 then lea b s op
  else if op &&& 0xFFF8 = 0x4E50 then link b s (eaReg op)
  else if op &&& 0xFFF8 = 0x4E58 then unlk b s (eaReg op)
  else if op = 0x4E71 then s
  else if op = 0x4E75 then rts b s
  else if op = 0x4E73 then privileged b s (rte b)
  else if op = 0x4E72 then privileged b s (stop b)
  else if op &&& 0xFFF0 = 0x4E40 then cfException b s (vecTrap ((op &&& 0xF).zeroExtend 32))
  else if op &&& 0xFFC0 = 0x4E80 then jsr b s op
  else if op &&& 0xFFC0 = 0x4EC0 then jmp b s op
  else if op &&& 0xFFC0 = 0x40C0 then privileged b s (moveFromSr b op)
  else if op &&& 0xFFC0 = 0x44C0 then moveToCcr b s op
  else if op &&& 0xFFC0 = 0x46C0 then privileged b s (moveToSr b op)
  else if op &&& 0xFFF0 = 0x4E60 then privileged b s (moveUsp op)
  else if op &&& 0xFFC0 = 0x4C00 then mulL b s op
  else if op &&& 0xFFC0 = 0x4C40 then divL b s op
  else if op &&& 0xFFFE = 0x4E7A then privileged b s (movec b op)
  else illegal b s

/-! ## Group 5: ADDQ, SUBQ, Scc -/

/-- A count of three bits, where 0 encodes 8. -/
def quickData (op : Half) : Word := if regDx op = 0 then 8 else (regDx op).zeroExtend 32

def addqSubq (s : Cpu μ) (op : Half) (sz : Size) : Cpu μ :=
  let imm := quickData op
  let sub := op.getLsbD 8
  if eaMode op = 1 then
    s.setA (eaReg op) (if sub then s.a (eaReg op) - imm else s.a (eaReg op) + imm)
  else
    let (loc, s) := decodeEa b s (eaMode op) (eaReg op) sz
    let dst := readEa b s loc sz
    if sub then setFlagsSub (writeEa b s loc sz (dst - imm)) imm dst (dst - imm) sz
    else setFlagsAdd (writeEa b s loc sz (dst + imm)) imm dst (dst + imm) sz

def execGroup5 (s : Cpu μ) (op : Half) : Cpu μ :=
  if op &&& 0xF0C0 = 0x50C0 then
    if eaMode op = 0 then
      s.setD (eaReg op) ((s.d (eaReg op) &&& 0xFFFFFF00) |||
        if evalCc s (op.extractLsb' 8 4) then 0xFF else 0)
    else illegal b s
  else
    match decodeSize (sizeBits op) with
    | none => illegal b s
    | some sz => addqSubq b s op sz

/-! ## Group 6: Bcc, BRA, BSR -/

/-- The displacement of a branch: in the opword, or in the words behind it. -/
def fetchDisp (s : Cpu μ) (op : Half) : Word × Cpu μ :=
  let disp8 : BitVec 8 := op.truncate 8
  if disp8 = 0 then
    let (w, s) := fetch16 b s
    (w.signExtend 32, s)
  else if disp8 = 0xFF then fetch32 b s
  else (disp8.signExtend 32, s)

def execGroup6 (s : Cpu μ) (op : Half) : Cpu μ :=
  let cc : BitVec 4 := op.extractLsb' 8 4
  let basePc := s.pc
  let (disp, s) := fetchDisp b s op
  if cc = 0 then { s with pc := basePc + disp }
  else if cc = 1 then { push32 b s s.pc with pc := basePc + disp }
  else if evalCc s cc then { s with pc := basePc + disp }
  else s

/-! ## Group 7: MOVEQ, MVS, MVZ -/

def execGroup7 (s : Cpu μ) (op : Half) : Cpu μ :=
  let reg := regDx op
  if op.getLsbD 8 = false then
    let val : Word := (op.truncate 8).signExtend 32
    setFlagsMove (s.setD reg val) val .long
  else
    let sz : Size := if op.getLsbD 6 then .word else .byte
    let (src, s) := eaRead b s (eaMode op) (eaReg op) sz
    let val := if op.getLsbD 7 then sizeMask src sz else signExtend src sz
    setFlagsMove (s.setD reg val) val .long

/-! ## Arithmetic with a register: groups 8, 9, B, C, D -/

/-- An operation on source and destination, with the flags of source, destination and result. -/
structure Alu (μ : Type) where
  op : Word → Word → Word
  flags : Cpu μ → Word → Word → Word → Size → Cpu μ

def aluOr : Alu μ := ⟨fun src dst => src ||| dst, fun s _ _ res sz => setFlagsMove s res sz⟩
def aluAnd : Alu μ := ⟨fun src dst => src &&& dst, fun s _ _ res sz => setFlagsMove s res sz⟩
def aluEor : Alu μ := ⟨fun src dst => src ^^^ dst, fun s _ _ res sz => setFlagsMove s res sz⟩
def aluSub : Alu μ := ⟨fun src dst => dst - src, setFlagsSub⟩
def aluAdd : Alu μ := ⟨fun src dst => dst + src, setFlagsAdd⟩

/-- `<ea> op Dn -> Dn` -/
def aluToReg (f : Alu μ) (s : Cpu μ) (op : Half) (sz : Size) : Cpu μ :=
  let (src, s) := eaRead b s (eaMode op) (eaReg op) sz
  let dst := sizeMask (s.d (regDx op)) sz
  let res := f.op src dst
  f.flags (s.setD (regDx op) (mergeSized (s.d (regDx op)) res sz)) src dst res sz

/-- `Dn op <ea> -> <ea>` -/
def aluToEa (f : Alu μ) (s : Cpu μ) (op : Half) (sz : Size) : Cpu μ :=
  let (loc, s) := decodeEa b s (eaMode op) (eaReg op) sz
  let src := sizeMask (s.d (regDx op)) sz
  let dst := readEa b s loc sz
  let res := f.op src dst
  f.flags (writeEa b s loc sz res) src dst res sz

def aluInsn (f : Alu μ) (s : Cpu μ) (op : Half) : Cpu μ :=
  match decodeSize (sizeBits op) with
  | none => illegal b s
  | some sz => if (opmode op).getLsbD 2 then aluToEa b f s op sz else aluToReg b f s op sz

/-- The flags of ADDX and SUBX: C and X from bit 32, Z only cleared. -/
def setFlagsX (s : Cpu μ) (carry overflow : Bool) (res : Word) : Cpu μ :=
  let s := setFlag s srC carry
  let s := setFlag s srX carry
  let s := setFlag s srV overflow
  let s := setFlag s srN (res &&& 0x80000000 ≠ 0)
  clearZ s res

def subx (s : Cpu μ) (op : Half) : Cpu μ :=
  let src := s.d (eaReg op)
  let dst := s.d (regDx op)
  let diff := dst.zeroExtend 64 - src.zeroExtend 64 - xBit s
  let res : Word := diff.truncate 32
  let sm := src &&& 0x80000000
  setFlagsX (s.setD (regDx op) res) (diff >>> 32 ≠ 0)
    (sm ≠ dst &&& 0x80000000 ∧ res &&& 0x80000000 = sm) res

def addx (s : Cpu μ) (op : Half) : Cpu μ :=
  let src := s.d (eaReg op)
  let dst := s.d (regDx op)
  let sum := dst.zeroExtend 64 + src.zeroExtend 64 + xBit s
  let res : Word := sum.truncate 32
  let sm := src &&& 0x80000000
  setFlagsX (s.setD (regDx op) res) (sum >>> 32 ≠ 0)
    (sm = dst &&& 0x80000000 ∧ res &&& 0x80000000 ≠ sm) res

/-- The source of ADDA, SUBA and CMPA, which is sign-extended. -/
def eaReadAddr (s : Cpu μ) (op : Half) (sz : Size) : Word × Cpu μ :=
  let (src, s) := eaRead b s (eaMode op) (eaReg op) sz
  (signExtend src sz, s)

/-- Group 9: SUB, SUBA, SUBX. -/
def execGroup9 (s : Cpu μ) (op : Half) : Cpu μ :=
  if opmode op = 7 then
    let (src, s) := eaReadAddr b s op .long
    s.setA (regDx op) (s.a (regDx op) - src)
  else if opmode op = 3 then
    let (src, s) := eaReadAddr b s op .word
    s.setA (regDx op) (s.a (regDx op) - src)
  else if (opmode op).getLsbD 2 = true ∧ eaMode op = 0 then subx s op
  else aluInsn b aluSub s op

/-- Group D: ADD, ADDA, ADDX. -/
def execGroupD (s : Cpu μ) (op : Half) : Cpu μ :=
  if opmode op = 3 then
    let (src, s) := eaReadAddr b s op .word
    s.setA (regDx op) (s.a (regDx op) + src)
  else if opmode op = 7 then
    let (src, s) := eaReadAddr b s op .long
    s.setA (regDx op) (s.a (regDx op) + src)
  else if (opmode op).getLsbD 2 = true ∧ eaMode op = 0 then addx s op
  else aluInsn b aluAdd s op

/-- Word divide: 32/16 -> 16r:16q. -/
def storeDivW (s : Cpu μ) (reg : Reg) (quot rem : Word) : Cpu μ :=
  setFlagsMove (s.setD reg (rem <<< 16 ||| (quot &&& 0xFFFF))) (quot &&& 0xFFFF) .word

def divW (s : Cpu μ) (op : Half) : Cpu μ :=
  let (src, s) := eaRead b s (eaMode op) (eaReg op) .word
  if src &&& 0xFFFF = 0 then cfException b s vecZeroDivide
  else
    let dst := s.d (regDx op)
    if opmode op = 7 then
      let src16 : Word := signExtend src .word
      if dst = 0x80000000 ∧ src16 = 0xFFFFFFFF then divOverflow s
      else
        let q := dst.sdiv src16
        let r := dst.srem src16
        if (32767 : Word).slt q ∨ q.slt 0xFFFF8000 then { s with sr := s.sr ||| srV }
        else storeDivW s (regDx op) (q &&& 0xFFFF) (r &&& 0xFFFF)
    else storeDivW s (regDx op) (dst / (src &&& 0xFFFF)) (dst % (src &&& 0xFFFF))

/-- Group 8: OR, DIVU.W, DIVS.W. -/
def execGroup8 (s : Cpu μ) (op : Half) : Cpu μ :=
  if opmode op = 3 ∨ opmode op = 7 then divW b s op else aluInsn b aluOr s op

def cmpa (s : Cpu μ) (op : Half) (sz : Size) : Cpu μ :=
  let (src, s) := eaReadAddr b s op sz
  let dst := s.a (regDx op)
  setFlagsCmp s src dst (dst - src) .long

def cmp (s : Cpu μ) (op : Half) (sz : Size) : Cpu μ :=
  let (src, s) := eaRead b s (eaMode op) (eaReg op) sz
  let dst := sizeMask (s.d (regDx op)) sz
  setFlagsCmp s src dst (dst - src) sz

/-- Group B: CMP, CMPA, EOR. -/
def execGroupB (s : Cpu μ) (op : Half) : Cpu μ :=
  if opmode op = 3 then cmpa b s op .word
  else if opmode op = 7 then cmpa b s op .long
  else
    match decodeSize (sizeBits op) with
    | none => illegal b s
    | some sz => if (opmode op).getLsbD 2 then aluToEa b aluEor s op sz else cmp b s op sz

def muluW (s : Cpu μ) (op : Half) : Cpu μ :=
  let (src, s) := eaRead b s (eaMode op) (eaReg op) .word
  let res := (s.d (regDx op) &&& 0xFFFF) * (src &&& 0xFFFF)
  setFlagsMove (s.setD (regDx op) res) res .long

def mulsW (s : Cpu μ) (op : Half) : Cpu μ :=
  let (src, s) := eaRead b s (eaMode op) (eaReg op) .word
  let res := signExtend (s.d (regDx op)) .word * signExtend src .word
  setFlagsMove (s.setD (regDx op) res) res .long

/-- EXG, if the opword is one. -/
def exg (s : Cpu μ) (op : Half) : Option (Cpu μ) :=
  let x := regDx op
  let y := eaReg op
  if op &&& 0xF130 = 0xC100 then
    if op.extractLsb' 3 5 = (0x08 : BitVec 5) then some ((s.setD x (s.d y)).setD y (s.d x))
    else if op.extractLsb' 3 5 = (0x09 : BitVec 5) then some ((s.setA x (s.a y)).setA y (s.a x))
    else if op.extractLsb' 3 5 = (0x11 : BitVec 5) then some ((s.setD x (s.a y)).setA y (s.d x))
    else none
  else none

/-- Group C: AND, MULS.W, MULU.W, EXG. -/
def execGroupC (s : Cpu μ) (op : Half) : Cpu μ :=
  if opmode op = 3 then muluW b s op
  else if opmode op = 7 then mulsW b s op
  else
    match exg s op with
    | some s => s
    | none => aluInsn b aluAnd s op

/-! ## Group E: shifts and rotates -/

/-- The loop of a shift: `step` gives the next value and the bit that goes out. -/
def shiftLoop (step : Word → Word × Bool) : Nat → Word × Bool → Word × Bool
  | 0, r => r
  | n + 1, r => shiftLoop step n (step r.1)

def shiftCount (s : Cpu μ) (op : Half) : Nat :=
  if op.getLsbD 5 then (s.d (regDx op) &&& 63).toNat else (quickData op).toNat

/-- All ones, as wide as the operand. -/
def sizeOnes : Size → Word
  | .byte => 0xFF
  | .word => 0xFFFF
  | .long => 0xFFFFFFFF

/-- The result and the last bit shifted out; `none` is a rotate the ColdFire lacks. -/
def shiftResult (type : BitVec 2) (left : Bool) (sz : Size) (count : Nat) (val : Word) :
    Option (Word × Bool) :=
  let msb := sizeMsb sz
  if type = 0 then
    if left then
      let (res, out) := shiftLoop (fun r => (r <<< 1, r &&& msb ≠ 0)) count (val, false)
      some (res &&& sizeOnes sz, out)
    else
      let (res, out) :=
        shiftLoop (fun r => (r.sshiftRight 1, r &&& 1 ≠ 0)) count (signExtend val sz, false)
      some (res &&& sizeOnes sz, out)
  else if type = 1 then
    if left then
      let (res, out) := shiftLoop (fun r => (r <<< 1, r &&& msb ≠ 0)) count (val, false)
      some (res &&& sizeOnes sz, out)
    else some (shiftLoop (fun r => (r >>> 1, r &&& 1 ≠ 0)) count (val, false))
  else if type = 3 then
    if left then none
    else
      let (res, out) :=
        shiftLoop (fun r => (r >>> 1 ||| if r &&& 1 ≠ 0 then msb else 0, r &&& 1 ≠ 0)) count
          (val, false)
      some (res &&& sizeOnes sz, out)
  else none

/-- X follows C in a shift, and stays in a rotate. -/
def setFlagsShift (s : Cpu μ) (type : BitVec 2) (res : Word) (out : Bool) (sz : Size) : Cpu μ :=
  let s := setNz s res sz
  let s := setFlag s srC out
  let s := if type = 3 then s else setFlag s srX out
  { s with sr := s.sr &&& ~~~srV }

def shiftInsn (s : Cpu μ) (op : Half) (sz : Size) : Cpu μ :=
  let reg := eaReg op
  let type : BitVec 2 := op.extractLsb' 3 2
  let count := shiftCount s op
  let val := sizeMask (s.d reg) sz
  if count = 0 then
    let s := setNz s val sz
    let s := { s with sr := s.sr &&& ~~~(srV ||| srC) }
    s.setD reg (mergeSized (s.d reg) val sz)
  else
    match shiftResult type (op.getLsbD 8) sz count val with
    | none => illegal b s
    | some (res, out) =>
      let s := setFlagsShift s type res out sz
      s.setD reg (mergeSized (s.d reg) res sz)

def execGroupE (s : Cpu μ) (op : Half) : Cpu μ :=
  match decodeSize (sizeBits op) with
  | none => illegal b s
  | some sz => shiftInsn b s op sz

end MechanicalResearcher.ColdFire
