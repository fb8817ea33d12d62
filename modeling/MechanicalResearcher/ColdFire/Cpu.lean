import Mathlib.Algebra.Group.Nat.Defs
import Mathlib.Logic.Function.Basic
import Mathlib.Tactic.Common

/-!
# The state of the ColdFire emulator

`coldfire-emulator/demo/coldfire.h`, and the helpers, the exceptions and the effective
addresses of `coldfire.c`.

The memory behind the bus is of any type `μ`: reads do not change it, and a write gives the
memory after it.  Flags that the source keeps in an `int` are `Bool`, and a `double` is its
bits.  `taken` is a history variable: the exceptions of the run that built a frame, newest
first.  No function reads it.
-/

namespace MechanicalResearcher.ColdFire

abbrev Word := BitVec 32
abbrev Half := BitVec 16

/-- The number of a register. -/
abbrev Reg := BitVec 3

/-- `enum cf_trace_type` -/
inductive TraceType
  | none | illegal | accessError | addressError | zeroDivide | privilege | formatError
  | lineA | lineF | trap | busRead | busWrite | doubleFault
  deriving DecidableEq, Repr

/-- `cf_trace_event_t`; the emulator itself gives no notes. -/
structure TraceEvent where
  type : TraceType
  pc : Word
  opword : Half
  addr : Word
  deriving DecidableEq, Repr

/-- `cf_trace_t`: 64 events in a ring. -/
structure Trace where
  events : BitVec 6 → TraceEvent
  head : Word
  total : Word

def cfTracePush (t : Trace) (ev : TraceEvent) : Trace where
  events := Function.update t.events (t.head.truncate 6) ev
  head := t.head + 1
  total := t.total + 1

structure Taken (μ : Type) where
  vector : Word
  /-- whether `decode_ea` raised it -/
  ea : Bool
  /-- the memory in which its vector was looked up -/
  mem : μ

/-- `cf_cpu`, without its callbacks -/
structure Cpu (μ : Type) where
  d : Reg → Word
  /-- A7 is the active stack pointer. -/
  a : Reg → Word
  pc : Word
  sr : Word
  vbr : Word
  cacr : Word
  /-- the stack pointer of the other mode -/
  otherA7 : Word
  fp : Reg → BitVec 64
  fpcr : Word
  fpsr : Word
  fpiar : Word
  /-- 48 bits, sign-extended -/
  acc : BitVec 2 → BitVec 64
  macsr : Word
  mask : Word
  halted : Bool
  cycles : BitVec 64
  fault : Bool
  faultStatus : BitVec 8
  inException : Bool
  trace : Trace
  mem : μ
  taken : List (Taken μ)

/-- The callbacks of the bus. -/
structure Bus (μ : Type) where
  read8 : μ → Word → Word
  read16 : μ → Word → Word
  read32 : μ → Word → Word
  write8 : μ → Word → Word → μ
  write16 : μ → Word → Word → μ
  write32 : μ → Word → Word → μ

variable {μ : Type}

namespace Cpu

/-- `cpu->d[i] = v` -/
def setD (s : Cpu μ) (i : Reg) (v : Word) : Cpu μ := { s with d := Function.update s.d i v }

/-- `cpu->a[i] = v` -/
def setA (s : Cpu μ) (i : Reg) (v : Word) : Cpu μ := { s with a := Function.update s.a i v }

end Cpu

def srC : Word := 0x0001
def srV : Word := 0x0002
def srZ : Word := 0x0004
def srN : Word := 0x0008
def srX : Word := 0x0010
def srS : Word := 0x2000
def srT : Word := 0x8000

def supervisorBit (sr : Word) : Bool := sr &&& srS ≠ 0

def isSupervisor (s : Cpu μ) : Bool := supervisorBit s.sr

/-- Swap A7 with the shadow stack pointer when the privilege mode changes. -/
def updateSp (s : Cpu μ) (newSr : Word) : Cpu μ :=
  if supervisorBit s.sr ≠ supervisorBit newSr then
    { s.setA 7 s.otherA7 with otherA7 := s.a 7 }
  else s

section

variable (b : Bus μ)

def busRead8 (s : Cpu μ) (addr : Word) : Word := b.read8 s.mem addr &&& 0xFF

def busRead16 (s : Cpu μ) (addr : Word) : Word := b.read16 s.mem addr &&& 0xFFFF

def busRead32 (s : Cpu μ) (addr : Word) : Word := b.read32 s.mem addr

def busWrite8 (s : Cpu μ) (addr v : Word) : Cpu μ :=
  { s with mem := b.write8 s.mem addr (v &&& 0xFF) }

def busWrite16 (s : Cpu μ) (addr v : Word) : Cpu μ :=
  { s with mem := b.write16 s.mem addr (v &&& 0xFFFF) }

def busWrite32 (s : Cpu μ) (addr v : Word) : Cpu μ :=
  { s with mem := b.write32 s.mem addr v }

/-- The next instruction word, and the state with the pc behind it. -/
def fetch16 (s : Cpu μ) : Half × Cpu μ :=
  ((busRead16 b s s.pc).truncate 16, { s with pc := s.pc + 2 })

def fetch32 (s : Cpu μ) : Word × Cpu μ :=
  let (hi, s) := fetch16 b s
  let (lo, s) := fetch16 b s
  (hi.zeroExtend 32 <<< 16 ||| lo.zeroExtend 32, s)

end

/-- `SZ_*` -/
inductive Size
  | byte | word | long
  deriving DecidableEq, Repr

def sizeBytes : Size → Word
  | .byte => 1
  | .word => 2
  | .long => 4

def sizeMask (v : Word) : Size → Word
  | .byte => v &&& 0xFF
  | .word => v &&& 0xFFFF
  | .long => v

/-- The sign bit of an operand. -/
def sizeMsb : Size → Word
  | .byte => 0x80
  | .word => 0x8000
  | .long => 0x80000000

def signExtend (v : Word) : Size → Word
  | .byte => (v.truncate 8).signExtend 32
  | .word => (v.truncate 16).signExtend 32
  | .long => v

/-- `none` is the return value 0. -/
def decodeSize (bits : BitVec 2) : Option Size :=
  if bits = 0 then some .byte
  else if bits = 1 then some .word
  else if bits = 2 then some .long
  else none

/-- The low part of a register replaced by a value of this size. -/
def mergeSized (old v : Word) : Size → Word
  | .byte => (old &&& 0xFFFFFF00) ||| (v &&& 0xFF)
  | .word => (old &&& 0xFFFF0000) ||| (v &&& 0xFFFF)
  | .long => v

def setFlag (s : Cpu μ) (flag : Word) (cond : Bool) : Cpu μ :=
  { s with sr := if cond then s.sr ||| flag else s.sr &&& ~~~flag }

def setNz (s : Cpu μ) (result : Word) (sz : Size) : Cpu μ :=
  let m := sizeMask result sz
  setFlag (setFlag s srN (m &&& sizeMsb sz ≠ 0)) srZ (m = 0)

/-- MOVE and logic operations: N, Z set; V, C cleared. -/
def setFlagsMove (s : Cpu μ) (result : Word) (sz : Size) : Cpu μ :=
  let s := setNz s result sz
  { s with sr := s.sr &&& ~~~(srV ||| srC) }

def setFlagsAdd (s : Cpu μ) (src dst res : Word) (sz : Size) : Cpu μ :=
  let sm := src &&& sizeMsb sz
  let dm := dst &&& sizeMsb sz
  let rm := res &&& sizeMsb sz
  let s := setNz s res sz
  let s := setFlag s srV (sm = dm ∧ rm ≠ sm)
  let s := setFlag s srC ((sm ≠ 0 ∧ dm ≠ 0) ∨ (rm = 0 ∧ (sm ≠ 0 ∨ dm ≠ 0)))
  setFlag s srX (s.sr &&& srC ≠ 0)

/-- CMP: as SUB, without X. -/
def setFlagsCmp (s : Cpu μ) (src dst res : Word) (sz : Size) : Cpu μ :=
  let sm := src &&& sizeMsb sz
  let dm := dst &&& sizeMsb sz
  let rm := res &&& sizeMsb sz
  let s := setNz s res sz
  let s := setFlag s srV (sm ≠ dm ∧ rm = sm)
  setFlag s srC ((dm = 0 ∧ sm ≠ 0) ∨ (rm ≠ 0 ∧ (dm = 0 ∨ sm ≠ 0)))

def setFlagsSub (s : Cpu μ) (src dst res : Word) (sz : Size) : Cpu μ :=
  let s := setFlagsCmp s src dst res sz
  setFlag s srX (s.sr &&& srC ≠ 0)

def evalCc (s : Cpu μ) (cc : BitVec 4) : Bool :=
  let n := s.sr.getLsbD 3
  let z := s.sr.getLsbD 2
  let v := s.sr.getLsbD 1
  let c := s.sr.getLsbD 0
  match cc.toNat with
  | 0x0 => true
  | 0x1 => false
  | 0x2 => !c && !z
  | 0x3 => c || z
  | 0x4 => !c
  | 0x5 => c
  | 0x6 => !z
  | 0x7 => z
  | 0x8 => !v
  | 0x9 => v
  | 0xA => !n
  | 0xB => n
  | 0xC => n == v
  | 0xD => n != v
  | 0xE => !z && n == v
  | _ => z || n != v

def vecAccessError : Word := 2
def vecAddressError : Word := 3
def vecIllegal : Word := 4
def vecZeroDivide : Word := 5
def vecPrivilege : Word := 8
def vecLineA : Word := 10
def vecLineF : Word := 11
def vecFormatError : Word := 14
def vecTrap (n : Word) : Word := 32 + n

def vecToTraceType (vector : Word) : TraceType :=
  if vector = vecAccessError then .accessError
  else if vector = vecAddressError then .addressError
  else if vector = vecIllegal then .illegal
  else if vector = vecZeroDivide then .zeroDivide
  else if vector = vecPrivilege then .privilege
  else if vector = vecLineA then .lineA
  else if vector = vecLineF then .lineF
  else if vector = vecFormatError then .formatError
  else if (32 : Word).sle vector ∧ vector.slt 48 then .trap
  else .none

/-- The status register in the handler: supervisor mode, no trace. -/
def handlerSr (sr : Word) : Word := (sr ||| srS) &&& ~~~srT

/-- The first word of the frame: format 4, the vector, and the fault status. -/
def frameFormat (s : Cpu μ) (vector : Word) : Word :=
  let fmt := 4 <<< 12 ||| (vector &&& 0xFF) <<< 2
  if vector = vecAccessError then fmt ||| (s.faultStatus.zeroExtend 32 &&& 3) <<< 10 else fmt

section

variable (b : Bus μ)

def traceException (s : Cpu μ) (vector : Word) : Cpu μ :=
  if vecToTraceType vector = .none then s
  else
    let opword := if s.pc.ult 2 then 0 else (b.read16 s.mem (s.pc - 2)).truncate 16
    { s with trace := cfTracePush s.trace ⟨vecToTraceType vector, s.pc, opword, 0⟩ }

/-- The mode change and the frame; `a[7]` points to the frame then. -/
def pushFrame (s : Cpu μ) (vector : Word) : Cpu μ :=
  let oldSr := s.sr
  let s := { updateSp s (handlerSr oldSr) with sr := handlerSr oldSr }
  let s := s.setA 7 (s.a 7 - 4)
  let s := busWrite32 b s (s.a 7) s.pc
  let s := s.setA 7 (s.a 7 - 2)
  let s := busWrite16 b s (s.a 7) (oldSr &&& 0xFFFF)
  let s := s.setA 7 (s.a 7 - 2)
  busWrite16 b s (s.a 7) (frameFormat s vector)

/-- An exception; `ea` is what the history keeps of where it was raised. -/
def raise (s : Cpu μ) (vector : Word) (ea : Bool) : Cpu μ :=
  let s := traceException b s vector
  if s.inException then
    { s with
      trace := cfTracePush s.trace ⟨.doubleFault, s.pc, 0, 0⟩
      fault := true
      halted := true
      inException := false }
  else
    let s := pushFrame b s vector
    { s with
      pc := busRead32 b s (s.vbr + vector * 4)
      halted := false
      inException := false
      taken := ⟨vector, ea, s.mem⟩ :: s.taken }

def cfException (s : Cpu μ) (vector : Word) : Cpu μ := raise b s vector false

/-- Where an operand is. -/
inductive LocType
  | dataReg | addrReg | memory | immediate
  deriving DecidableEq, Repr

/-- `ea_loc`; `memset` leaves data register 0. -/
structure EaLoc where
  type : LocType := .dataReg
  reg : Reg := 0
  addr : Word := 0
  imm : Word := 0
  deriving DecidableEq, Repr

/-- The step of (An)+ and -(An): a byte on the stack takes two. -/
def eaStep (reg : Reg) (sz : Size) : Word :=
  if reg = 7 ∧ sz = .byte then 2 else sizeBytes sz

/-- The index register of an extension word, scaled, and the displacement. -/
def indexed (s : Cpu μ) (base : Word) (ext : Half) : Word :=
  let xreg : Reg := ext.extractLsb' 12 3
  let xval := if ext.getLsbD 15 then s.a xreg else s.d xreg
  let scale := (ext.extractLsb' 9 2).toNat
  base + xval * BitVec.ofNat 32 (2 ^ scale) + (ext.truncate 8).signExtend 32

/-- Brief format only, longword index only. -/
def badExtension (ext : Half) : Bool := ext &&& 0x0100 ≠ 0 ∨ ext &&& 0x0800 = 0

def memLoc (addr : Word) : EaLoc := { type := .memory, addr := addr }

/-- The modes whose register field says which one. -/
def decodeSpecial (s : Cpu μ) (reg : Reg) (sz : Size) : EaLoc × Cpu μ :=
  match reg.toNat with
  | 0 =>
    let (w, s) := fetch16 b s
    (memLoc (w.signExtend 32), s)
  | 1 =>
    let (addr, s) := fetch32 b s
    (memLoc addr, s)
  | 2 =>
    let base := s.pc
    let (disp, s) := fetch16 b s
    (memLoc (base + disp.signExtend 32), s)
  | 3 =>
    let base := s.pc
    let (ext, s) := fetch16 b s
    (memLoc (indexed s base ext), s)
  | 4 =>
    match sz with
    | .byte =>
      let (w, s) := fetch16 b s
      ({ type := .immediate, imm := w.zeroExtend 32 &&& 0xFF }, s)
    | .word =>
      let (w, s) := fetch16 b s
      ({ type := .immediate, imm := w.zeroExtend 32 }, s)
    | .long =>
      let (v, s) := fetch32 b s
      ({ type := .immediate, imm := v }, s)
  | _ => ({}, raise b s vecIllegal true)

/-- A field that cannot be decoded raises an exception and gives the zeroed location. -/
def decodeEa (s : Cpu μ) (mode reg : Reg) (sz : Size) : EaLoc × Cpu μ :=
  match mode.toNat with
  | 0 => ({ type := .dataReg, reg := reg }, s)
  | 1 => ({ type := .addrReg, reg := reg }, s)
  | 2 => (memLoc (s.a reg), s)
  | 3 => (memLoc (s.a reg), s.setA reg (s.a reg + eaStep reg sz))
  | 4 =>
    let s := s.setA reg (s.a reg - eaStep reg sz)
    (memLoc (s.a reg), s)
  | 5 =>
    let (disp, s) := fetch16 b s
    (memLoc (s.a reg + disp.signExtend 32), s)
  | 6 =>
    let (ext, s) := fetch16 b s
    if badExtension ext then ({}, { raise b s vecAddressError true with fault := true })
    else (memLoc (indexed s (s.a reg) ext), s)
  | _ => decodeSpecial b s reg sz

def readEa (s : Cpu μ) (loc : EaLoc) (sz : Size) : Word :=
  match loc.type with
  | .dataReg => sizeMask (s.d loc.reg) sz
  | .addrReg => s.a loc.reg
  | .memory =>
    match sz with
    | .byte => busRead8 b s loc.addr
    | .word => busRead16 b s loc.addr
    | .long => busRead32 b s loc.addr
  | .immediate => sizeMask loc.imm sz

def writeEa (s : Cpu μ) (loc : EaLoc) (sz : Size) (v : Word) : Cpu μ :=
  match loc.type with
  | .dataReg => s.setD loc.reg (mergeSized (s.d loc.reg) v sz)
  | .addrReg => s.setA loc.reg v
  | .memory =>
    match sz with
    | .byte => busWrite8 b s loc.addr v
    | .word => busWrite16 b s loc.addr v
    | .long => busWrite32 b s loc.addr v
  | .immediate => s

/-- Decode and read in one step. -/
def eaRead (s : Cpu μ) (mode reg : Reg) (sz : Size) : Word × Cpu μ :=
  let (loc, s) := decodeEa b s mode reg sz
  (readEa b s loc sz, s)

end

end MechanicalResearcher.ColdFire
