import MechanicalResearcher.ColdFire.Integer

/-!
# Group F: the FPU

A `double` and a `float` are their bits, and the arithmetic of the host on them is a parameter,
`Doubles`.
-/

namespace MechanicalResearcher.ColdFire

abbrev Double := BitVec 64
abbrev Single := BitVec 32

/-- The floating point arithmetic of the host. -/
structure Doubles where
  add : Double → Double → Double
  sub : Double → Double → Double
  mul : Double → Double → Double
  div : Double → Double → Double
  neg : Double → Double
  fabs : Double → Double
  sqrt : Double → Double
  rint : Double → Double
  trunc : Double → Double
  isnan : Double → Bool
  isinf : Double → Bool
  /-- `x < 0` -/
  ltZero : Double → Bool
  /-- `x == 0` -/
  eqZero : Double → Bool
  /-- `(double)i` -/
  ofInt : Word → Double
  /-- `(double)f` -/
  ofSingle : Single → Double
  /-- `(float)x` -/
  toSingle : Double → Single
  /-- `(int32_t)x`, `(int16_t)x` and `(int8_t)x` -/
  toInt32 : Double → Word
  toInt16 : Double → Half
  toInt8 : Double → BitVec 8
  negf : Single → Single
  fabsf : Single → Single
  sqrtf : Single → Single

variable {μ : Type} (b : Bus μ) (h : Doubles)

def setFp (s : Cpu μ) (i : Reg) (v : Double) : Cpu μ := { s with fp := Function.update s.fp i v }

def evalFpcc (s : Cpu μ) (cc : BitVec 4) : Bool :=
  let fn := s.fpsr.getLsbD 27
  let fz := s.fpsr.getLsbD 26
  let fnan := s.fpsr.getLsbD 24
  match cc.toNat with
  | 0x0 => false
  | 0x1 => fz
  | 0x2 => !(fnan || fz || fn)
  | 0x3 => fz || !(fnan || fn)
  | 0x4 => fn && !(fnan || fz)
  | 0x5 => fz || (fn && !fnan)
  | 0x6 => !(fnan || fz)
  | 0x7 => !fnan
  | 0x8 => fnan
  | 0x9 => fnan || fz
  | 0xA => fnan || !(fn || fz)
  | 0xB => fnan || fz || !fn
  | 0xC => fnan || (fn && !fz)
  | 0xD => fnan || fz || fn
  | 0xE => !fz
  | _ => true

def readDoubleAt (s : Cpu μ) (addr : Word) : Double :=
  busRead32 b s addr ++ busRead32 b s (addr + 4)

def writeDoubleAt (s : Cpu μ) (addr : Word) (v : Double) : Cpu μ :=
  busWrite32 b (busWrite32 b s addr (v.extractLsb' 32 32)) (addr + 4) (v.extractLsb' 0 32)

def fpuReadDouble (s : Cpu μ) (mode reg : Reg) : Double × Cpu μ :=
  if mode = 3 then (readDoubleAt b s (s.a reg), s.setA reg (s.a reg + 8))
  else
    let (loc, s) := decodeEa b s mode reg .long
    (readDoubleAt b s loc.addr, s)

/-- The source of a memory-to-register operation; `none` is a format the FPU lacks. -/
def fpuSource (s : Cpu μ) (fmt mode reg : Reg) : Option (Double × Cpu μ) :=
  match fmt.toNat with
  | 0 =>
    let (raw, s) := eaRead b s mode reg .long
    some (h.ofInt raw, s)
  | 1 =>
    let (raw, s) := eaRead b s mode reg .long
    some (h.ofSingle raw, s)
  | 4 =>
    let (raw, s) := eaRead b s mode reg .word
    some (h.ofInt (signExtend raw .word), s)
  | 5 => some (fpuReadDouble b s mode reg)
  | 6 =>
    let (raw, s) := eaRead b s mode reg .byte
    some (h.ofInt (signExtend raw .byte), s)
  | _ => none

/-- The condition byte of FPSR for a value compared with zero. -/
def fpuCondition (v : Double) (inf : Bool) : Word :=
  (if h.isnan v then 1 <<< 24 else if h.ltZero v then 1 <<< 27
    else if h.eqZero v then 1 <<< 26 else 0) ||| if inf then 1 <<< 25 else 0

def setFpcc (s : Cpu μ) (fpcc : Word) : Cpu μ :=
  { s with fpsr := (s.fpsr &&& 0x00FFFFFF) ||| fpcc }

/-- The value that an operation stores, from the destination and the source. -/
def fpuResult (opcode : BitVec 7) (dst src : Double) : Option Double :=
  match opcode.toNat with
  | 0x00 => some src
  | 0x01 => some (h.rint src)
  | 0x03 => some (h.trunc src)
  | 0x04 => some (h.sqrt src)
  | 0x18 => some (h.fabs src)
  | 0x1A => some (h.neg src)
  | 0x20 => some (h.div dst src)
  | 0x22 => some (h.add dst src)
  | 0x23 => some (h.mul dst src)
  | 0x28 => some (h.sub dst src)
  | 0x40 => some (h.ofSingle (h.toSingle src))
  | 0x41 => some (h.ofSingle (h.sqrtf (h.toSingle src)))
  | 0x58 => some (h.ofSingle (h.fabsf (h.toSingle src)))
  | 0x5A => some (h.ofSingle (h.negf (h.toSingle src)))
  | 0x60 => some (h.ofSingle (h.toSingle (h.div dst src)))
  | 0x62 => some (h.ofSingle (h.toSingle (h.add dst src)))
  | 0x63 => some (h.ofSingle (h.toSingle (h.mul dst src)))
  | 0x68 => some (h.ofSingle (h.toSingle (h.sub dst src)))
  | 0x44 => some src
  | 0x45 => some (h.sqrt src)
  | 0x5C => some (h.fabs src)
  | 0x5E => some (h.neg src)
  | 0x64 => some (h.div dst src)
  | 0x66 => some (h.add dst src)
  | 0x67 => some (h.mul dst src)
  | 0x6C => some (h.sub dst src)
  | _ => none

def fpuOperate (s : Cpu μ) (dst : Reg) (opcode : BitVec 7) (src : Double) : Cpu μ :=
  if opcode = 0x38 then
    -- FCMP
    setFpcc s (fpuCondition h (h.sub (s.fp dst) src) (h.isinf src || h.isinf (s.fp dst)))
  else if opcode = 0x3A then
    -- FTST
    setFpcc s (fpuCondition h src (h.isinf src))
  else
    match fpuResult h opcode (s.fp dst) src with
    | some v => setFp s dst v
    | none => cfException b s vecLineF

def fpuDyadic (s : Cpu μ) (op ext : Half) (fromEa : Bool) : Cpu μ :=
  let dst : Reg := ext.extractLsb' 7 3
  let opcode : BitVec 7 := ext.extractLsb' 0 7
  let fmt : Reg := ext.extractLsb' 10 3
  if fromEa = false then fpuOperate b h s dst opcode (s.fp fmt)
  else
    match fpuSource b h s fmt (eaMode op) (eaReg op) with
    | some (src, s) => fpuOperate b h s dst opcode src
    | none => cfException b s vecLineF

/-- A value of this size goes to the effective address. -/
def fpuStore (s : Cpu μ) (op : Half) (sz : Size) (v : Word) : Cpu μ :=
  let (loc, s) := decodeEa b s (eaMode op) (eaReg op) sz
  writeEa b s loc sz v

def fpuStoreDouble (s : Cpu μ) (op : Half) (v : Double) : Cpu μ :=
  if eaMode op = 4 then
    let s := s.setA (eaReg op) (s.a (eaReg op) - 8)
    writeDoubleAt b s (s.a (eaReg op)) v
  else
    let (loc, s) := decodeEa b s (eaMode op) (eaReg op) .long
    writeDoubleAt b s loc.addr v

/-- FMOVE FPn to memory. -/
def fmoveOut (s : Cpu μ) (op ext : Half) : Cpu μ :=
  let fmt : Reg := ext.extractLsb' 10 3
  let val := s.fp (ext.extractLsb' 7 3)
  match fmt.toNat with
  | 0 => fpuStore b s op .long (h.toInt32 val)
  | 1 => fpuStore b s op .long (h.toSingle val)
  | 4 => fpuStore b s op .word ((h.toInt16 val).zeroExtend 32)
  | 5 => fpuStoreDouble b s op val
  | 6 => fpuStore b s op .byte ((h.toInt8 val).zeroExtend 32)
  | _ => cfException b s vecLineF

/-- FPCR, FPSR and FPIAR, as the bits of the register selection. -/
inductive FpControl
  | fpcr | fpsr | fpiar

def fpControl (s : Cpu μ) : FpControl → Word
  | .fpcr => s.fpcr
  | .fpsr => s.fpsr
  | .fpiar => s.fpiar

def setFpControl (s : Cpu μ) (v : Word) : FpControl → Cpu μ
  | .fpcr => { s with fpcr := v }
  | .fpsr => { s with fpsr := v }
  | .fpiar => { s with fpiar := v }

/-- The registers that are selected, in order. -/
def fpControls (regsel : Reg) : List FpControl :=
  (if regsel.getLsbD 2 then [.fpcr] else []) ++ (if regsel.getLsbD 1 then [.fpsr] else []) ++
    if regsel.getLsbD 0 then [.fpiar] else []

/-- Each register from the next longword of memory, or all from one operand. -/
def fmoveControlIn (s : Cpu μ) (loc : EaLoc) (rs : List FpControl) : Cpu μ :=
  (rs.foldl (fun (r : Cpu μ × Word) c =>
    if loc.type = .memory then (setFpControl r.1 (busRead32 b r.1 r.2) c, r.2 + 4)
    else (setFpControl r.1 (readEa b r.1 loc .long) c, r.2)) (s, loc.addr)).1

def fmoveControlOut (s : Cpu μ) (loc : EaLoc) (rs : List FpControl) : Cpu μ :=
  (rs.foldl (fun (r : Cpu μ × Word) c =>
    if loc.type = .memory then (busWrite32 b r.1 r.2 (fpControl r.1 c), r.2 + 4)
    else (writeEa b r.1 loc .long (fpControl r.1 c), r.2)) (s, loc.addr)).1

def fmoveControl (s : Cpu μ) (op ext : Half) (out : Bool) : Cpu μ :=
  let (loc, s) := decodeEa b s (eaMode op) (eaReg op) .long
  let rs := fpControls (ext.extractLsb' 10 3)
  if out then fmoveControlOut b s loc rs else fmoveControlIn b s loc rs

/-- The registers of a mask, FP0 at bit 7. -/
def fmovemRegs (ext : Half) : List Reg :=
  ((List.range 8).filter fun i => ext.getLsbD (7 - i)).map fun i => BitVec.ofNat 3 i

/-- -(An): eight bytes down for each register. -/
def fmovemPredec (s : Cpu μ) (reg : Reg) (rs : List Reg) : Cpu μ :=
  rs.foldl (fun s i =>
    let s := s.setA reg (s.a reg - 8)
    writeDoubleAt b s (s.a reg) (s.fp i)) s

def fmovemLoad (s : Cpu μ) (addr : Word) (rs : List Reg) : Cpu μ :=
  (rs.foldl (fun (r : Cpu μ × Word) i =>
    (setFp r.1 i (readDoubleAt b r.1 r.2), r.2 + 8)) (s, addr)).1

def fmovemStore (s : Cpu μ) (addr : Word) (rs : List Reg) : Cpu μ :=
  (rs.foldl (fun (r : Cpu μ × Word) i =>
    (writeDoubleAt b r.1 r.2 (r.1.fp i), r.2 + 8)) (s, addr)).1

def fmovem (s : Cpu μ) (op ext : Half) (store : Bool) : Cpu μ :=
  let mode := eaMode op
  let rs := fmovemRegs ext
  if store = true ∧ mode = 4 then fmovemPredec b s (eaReg op) rs
  else if mode ≠ 2 ∧ mode ≠ 5 ∧ mode ≠ 6 then cfException b s vecLineF
  else
    let (loc, s) := decodeEa b s mode (eaReg op) .long
    if store then fmovemStore b s loc.addr rs else fmovemLoad b s loc.addr rs

def fbcc (s : Cpu μ) (op : Half) : Cpu μ :=
  let basePc := s.pc
  let (disp, s) :=
    if op.getLsbD 6 then fetch32 b s
    else
      let (w, s) := fetch16 b s
      (w.signExtend 32, s)
  if evalFpcc s (op.extractLsb' 0 4) then { s with pc := basePc + disp } else s

def fpuGeneral (s : Cpu μ) (op : Half) : Cpu μ :=
  let (ext, s) := fetch16 b s
  match (ext.extractLsb' 13 3).toNat with
  | 0 => fpuDyadic b h s op ext false
  | 2 => fpuDyadic b h s op ext true
  | 3 => fmoveOut b h s op ext
  | 4 => fmoveControl b s op ext false
  | 5 => fmoveControl b s op ext true
  | 6 => fmovem b s op ext false
  | 7 => fmovem b s op ext true
  | _ => cfException b s vecLineF

def execGroupF (s : Cpu μ) (op : Half) : Cpu μ :=
  if regDx op ≠ 1 then cfException b s vecLineF
  else if op.getLsbD 7 then fbcc b s op
  else fpuGeneral b h s op

end MechanicalResearcher.ColdFire
