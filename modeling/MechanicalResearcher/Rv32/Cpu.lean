import Mathlib.Logic.Function.Basic
import Mathlib.Tactic.Common

/-!
# The state of the RV32 emulator

`rv32-emulator/demo/rv32.h`, and the traps, interrupts and bus accesses of `rv32.c`.

The memory behind the bus is of any type `μ`: reads do not change it, and a write gives the
memory after it.  Flags that the source keeps in an `int` are `Bool`.  `Core` has the fields
that an instruction works on, and `Cpu` adds those of traps, interrupts and bookkeeping.
-/

namespace MechanicalResearcher.Rv32

abbrev Word := BitVec 32

/-- The number of a register. -/
abbrev Reg := BitVec 5

/-- `enum rv_trace_type` -/
inductive TraceType
  | none | illegal | fetchFault | loadFault | storeFault | loadMisalign | storeMisalign
  | ecall | ebreak | csr | trap | doubleFault | interrupt
  deriving DecidableEq, Repr

/-- `rv_trace_event_t`; the notes of the source are shorter than the buffer for them. -/
structure TraceEvent where
  type : TraceType
  pc : Word
  insn : Word
  addr : Word
  note : String
  deriving DecidableEq, Repr

/-- `rv_trace_t`: 64 events in a ring. -/
structure Trace where
  events : BitVec 6 → TraceEvent
  head : Word
  total : Word

def Trace.push (t : Trace) (ev : TraceEvent) : Trace where
  events := Function.update t.events (t.head.truncate 6) ev
  head := t.head + 1
  total := t.total + 1

def Trace.clear (t : Trace) : Trace := { t with head := 0, total := 0 }

structure Core (μ : Type) where
  x : Reg → Word
  pc : Word
  f : Reg → Word
  fcsr : Word
  mtvec : Word
  mscratch : Word
  mie : Word
  trapMisaligned : Bool
  zcmp : Bool
  atomics : Bool
  bitmanip : Bool
  zcb : Bool
  mem : μ

/-- `rv_cpu`, without its callbacks -/
structure Cpu (μ : Type) extends Core μ where
  mstatus : Word
  mepc : Word
  mcause : Word
  mtval : Word
  mip : Word
  mcycle : BitVec 64
  minstret : BitVec 64
  halted : Bool
  inTrap : Bool
  waiting : Bool
  resAddr : Word
  resValid : Bool
  cycles : BitVec 64
  trace : Trace

/-- The callbacks of the bus.  A probe gets the size of the access and whether it is a write, and
is true for a fault. -/
structure Bus (μ : Type) where
  read8 : μ → Word → Word
  read16 : μ → Word → Word
  read32 : μ → Word → Word
  write8 : μ → Word → Word → μ
  write16 : μ → Word → Word → μ
  write32 : μ → Word → Word → μ
  probe : Option (μ → Word → Nat → Bool → Bool) := none

variable {μ : Type}

/-- Whether the probe refuses an access. -/
def Bus.refuses (b : Bus μ) (m : μ) (addr : Word) (size : Nat) (write : Bool) : Bool :=
  match b.probe with
  | none => false
  | some p => p m addr size write

def mstatusMie : Word := 0x8
def mstatusMpie : Word := 0x80
def mstatusMpp : Word := 0x1800
def mstatusFs : Word := 0x6000

def causeInterrupt : Word := 0x80000000
def irqSoft : Word := 3
def irqTimer : Word := 7
def irqExt : Word := 11

namespace Cpu

def push (s : Cpu μ) (type : TraceType) (pc insn addr : Word) (note : String) : Cpu μ :=
  { s with trace := s.trace.push ⟨type, pc, insn, addr, note⟩ }

/-- `cpu->x[rd] = v` -/
def setX (s : Cpu μ) (rd : Reg) (v : Word) : Cpu μ := { s with x := Function.update s.x rd v }

end Cpu

/-- `mstatus` after a trap. -/
def trapStatus (m : Word) : Word :=
  let m1 := m &&& ~~~mstatusMpie
  let m2 := if m1 &&& mstatusMie ≠ 0 then m1 ||| mstatusMpie else m1
  (m2 &&& ~~~mstatusMie) ||| mstatusMpp

def isIrq (cause : Word) : Bool := cause &&& causeInterrupt ≠ 0

/-- Where a trap goes. -/
def trapVector (mtvec cause : Word) : Word :=
  let base := mtvec &&& ~~~3
  if mtvec &&& 3 = 1 ∧ isIrq cause then base + (cause &&& ~~~causeInterrupt) * 4 else base

def rvTrap (s : Cpu μ) (cause tval : Word) : Cpu μ :=
  if s.inTrap then
    { s.push .doubleFault s.pc 0 tval "double fault" with halted := true }
  else
    { s with
      mepc := s.pc
      mcause := cause
      mtval := tval
      resValid := false
      mstatus := trapStatus s.mstatus
      waiting := false
      pc := trapVector s.mtvec cause
      inTrap := true
      trace := s.trace.push ⟨if isIrq cause then .interrupt else .trap, s.pc, 0, tval, ""⟩ }

def rvSetIrq (s : Cpu μ) (cause : Word) (level : Bool) : Cpu μ :=
  let bit : Word := 1 <<< (cause &&& 31).toNat
  { s with mip := if level then s.mip ||| bit else s.mip &&& ~~~bit }

/-- The interrupt to take, or 0. -/
def rvIrqPending (s : Cpu μ) : Word :=
  let ready := s.mip &&& s.mie
  if s.mstatus &&& mstatusMie = 0 then 0
  else if ready &&& 1 <<< 11 ≠ 0 then causeInterrupt ||| irqExt
  else if ready &&& 1 <<< 3 ≠ 0 then causeInterrupt ||| irqSoft
  else if ready &&& 1 <<< 7 ≠ 0 then causeInterrupt ||| irqTimer
  else 0

/-- A trap, and the event that goes into the trace before it. -/
structure Fault where
  cause : Word
  tval : Word
  event : Option (TraceType × Word × Word × String) := none

/-- Takes the trap of a fault. -/
def raise (s : Cpu μ) (e : Fault) : Cpu μ :=
  match e.event with
  | none => rvTrap s e.cause e.tval
  | some (type, insn, addr, note) => rvTrap (s.push type s.pc insn addr note) e.cause e.tval

/-- `illegal` -/
def illegal (insn : Word) : Fault := ⟨2, insn, some (.illegal, insn, 0, "")⟩

def misaligned (addr : Word) (size : Nat) : Bool := addr &&& BitVec.ofNat 32 (size - 1) ≠ 0

def loadMisaligned (addr : Word) : Fault := ⟨4, addr, some (.loadMisalign, 0, addr, "")⟩
def loadFault (addr : Word) : Fault := ⟨5, addr, some (.loadFault, 0, addr, "")⟩
def storeMisaligned (addr : Word) : Fault := ⟨6, addr, some (.storeMisalign, 0, addr, "")⟩
def storeFault (addr : Word) : Fault := ⟨7, addr, some (.storeFault, 0, addr, "")⟩

/-- The value that the callbacks give for `size` bytes. -/
def Bus.readValue (b : Bus μ) (m : μ) (addr : Word) (size : Nat) : Word :=
  if misaligned addr size then
    (List.range size).foldl
      (fun v i => v ||| (b.read8 m (addr + BitVec.ofNat 32 i) &&& 0xff) <<< (8 * i)) 0
  else if size = 1 then b.read8 m addr &&& 0xff
  else if size = 2 then b.read16 m addr &&& 0xffff
  else b.read32 m addr

/-- The memory after the callbacks have written `size` bytes. -/
def Bus.writeValue (b : Bus μ) (m : μ) (addr : Word) (size : Nat) (val : Word) : μ :=
  if misaligned addr size then
    (List.range size).foldl
      (fun m i => b.write8 m (addr + BitVec.ofNat 32 i) (val >>> (8 * i) &&& 0xff)) m
  else if size = 1 then b.write8 m addr (val &&& 0xff)
  else if size = 2 then b.write16 m addr (val &&& 0xffff)
  else b.write32 m addr val

def memRead (b : Bus μ) (c : Core μ) (addr : Word) (size : Nat) : Except Fault Word :=
  if c.trapMisaligned && misaligned addr size then .error (loadMisaligned addr)
  else if b.refuses c.mem addr size false then .error (loadFault addr)
  else .ok (b.readValue c.mem addr size)

def memWrite (b : Bus μ) (c : Core μ) (addr : Word) (size : Nat) (val : Word) : Except Fault μ :=
  if c.trapMisaligned && misaligned addr size then .error (storeMisaligned addr)
  else if b.refuses c.mem addr size true then .error (storeFault addr)
  else .ok (b.writeValue c.mem addr size val)

/-- The machine of `rv_init`, with the memory `mem` behind its bus. -/
def rvInit (mem : μ) : Cpu μ where
  x := fun _ => 0
  pc := 0
  f := fun _ => 0
  fcsr := 0
  mtvec := 0
  mscratch := 0
  mie := 0
  trapMisaligned := false
  zcmp := true
  atomics := true
  bitmanip := true
  zcb := true
  mem := mem
  mstatus := 0
  mepc := 0
  mcause := 0
  mtval := 0
  mip := 0
  mcycle := 0
  minstret := 0
  halted := false
  inTrap := false
  waiting := false
  resAddr := 0
  resValid := false
  cycles := 0
  trace := ⟨fun _ => ⟨.none, 0, 0, 0, ""⟩, 0, 0⟩

def rvReset (s : Cpu μ) (entry : Word) : Cpu μ :=
  { s with
    x := fun _ => 0
    f := fun _ => 0
    pc := entry
    fcsr := 0
    mstatus := mstatusMpp ||| mstatusFs
    mtvec := 0
    mepc := 0
    mcause := 0
    mtval := 0
    mscratch := 0
    mie := 0
    mip := 0
    mcycle := 0
    minstret := 0
    halted := false
    inTrap := false
    waiting := false
    cycles := 0
    resValid := false
    resAddr := 0
    trace := s.trace.clear }

def rvHalt (s : Cpu μ) : Cpu μ := { s with halted := true }

def rvSetX (s : Cpu μ) (n : Int) (val : Word) : Cpu μ :=
  if n ≠ 0 then s.setX (BitVec.ofInt 5 n) val else s

def rvSetPc (s : Cpu μ) (val : Word) : Cpu μ := { s with pc := val }

def rvSetF (s : Cpu μ) (n : Int) (bits : Word) : Cpu μ :=
  { s with f := Function.update s.f (BitVec.ofInt 5 n) bits }

end MechanicalResearcher.Rv32
