import Mathlib.Logic.Function.Basic
import MechanicalResearcher.Lib.ByteMemory

/-!
# The target

The m68k instructions that `cf_emit.c` prints, and what those that do not transfer control do
to the registers and the memory.  After an instruction whose condition codes nothing reads, they
are unknown; a conditional instruction has no step where they are.
-/

namespace MechanicalResearcher.PortableCompiler

open Lib.ByteMemory

inductive Size
  | b | w | l
  deriving DecidableEq, Repr

/-- A label `.L` or `.Lmark`, with the number of the function and its own. -/
structure AsmLabel where
  mark : Bool
  function : Nat
  label : Nat
  deriving DecidableEq, Repr

inductive Operand
  /-- `%dn` -/
  | d (n : Nat)
  | a0
  | fp
  /-- `#v` -/
  | imm (v : Int)
  /-- `off(%fp)` -/
  | frame (off : Int)
  /-- `off(%sp)` -/
  | stack (off : Int)
  /-- `(%a0)` -/
  | at0
  /-- `-(%sp)` -/
  | push
  /-- `(%sp)+` -/
  | pop
  | sym (s : String)
  | label (l : AsmLabel)
  deriving DecidableEq, Repr

/-- `add.l` and the other instructions with two data registers. -/
inductive Alu
  | add | sub | muls | divs | divu | and | or | eor | lsl | asr | lsr
  deriving DecidableEq, Repr

inductive Unary
  | negB | negL | notL | extW | extL
  deriving DecidableEq, Repr

/-- `seq` and the other `scc` instructions -/
inductive Cond
  | eq | ne | lt | le | gt | ge | cs | ls | hi | cc
  deriving DecidableEq, Repr

inductive Asm
  | moveq (v : Int) (n : Nat)
  | move (sz : Size) (src dst : Operand)
  /-- `lea src, %a0` -/
  | lea (src : Operand)
  | alu (op : Alu) (s n : Nat)
  | unary (op : Unary) (n : Nat)
  /-- `cmp.l %ds, %dn` -/
  | cmp (s n : Nat)
  | scc (c : Cond) (n : Nat)
  | tst (n : Nat)
  | bra (l : AsmLabel)
  | beq (l : AsmLabel)
  | bne (l : AsmLabel)
  | label (l : AsmLabel)
  | jsr (s : String)
  /-- `jsr (%a0)` -/
  | jsrA0
  /-- `lea n(%sp), %sp` -/
  | drop (n : Int)
  /-- `link.w %fp, #n` -/
  | link (n : Int)
  | unlk
  /-- `movem.l %d2-%d7, -(%sp)` -/
  | saveRegs
  /-- `movem.l (%sp)+, %d2-%d7` -/
  | loadRegs
  | rts
  deriving DecidableEq, Repr

structure Flags where
  n : Bool
  z : Bool
  v : Bool
  c : Bool
  deriving DecidableEq, Repr

structure Mach where
  d : Nat → Word
  a0 : Word
  fp : Word
  sp : Word
  mem : Mem
  cc : Option Flags

def Mach.setD (m : Mach) (n : Nat) (v : Word) : Mach :=
  { m with d := Function.update m.d n v, cc := none }

/-- `v` with its lowest byte replaced. -/
def setLow8 (v : Word) (x : BitVec 8) : Word := v.extractLsb' 8 24 ++ x

def setLow16 (v : Word) (x : BitVec 16) : Word := v.extractLsb' 16 16 ++ x

/-- The flags of `cmp.l`: of the difference `y - x`. -/
def cmpFlags (x y : Word) : Flags where
  n := (y - x).msb
  z := y - x == 0
  v := (y.msb != x.msb) && ((y - x).msb != y.msb)
  c := y.ult x

def Cond.holds (f : Flags) : Cond → Bool
  | .eq => f.z
  | .ne => !f.z
  | .lt => f.n != f.v
  | .le => f.z || f.n != f.v
  | .gt => !f.z && f.n == f.v
  | .ge => f.n == f.v
  | .cs => f.c
  | .ls => f.c || f.z
  | .hi => !f.c && !f.z
  | .cc => !f.c

/-- What `op` leaves in its destination, which held `y`.  A division by zero traps; a signed
quotient that does not fit leaves the destination as it was. -/
def Alu.eval (op : Alu) (x y : Word) : Option Word :=
  match op with
  | .add => some (y + x)
  | .sub => some (y - x)
  | .muls => some (y * x)
  | .divs =>
    if x = 0 then none else if y = BitVec.intMin 32 ∧ x = -1 then some y else some (y.sdiv x)
  | .divu => if x = 0 then none else some (y / x)
  | .and => some (y &&& x)
  | .or => some (y ||| x)
  | .eor => some (y ^^^ x)
  | .lsl => some (y <<< (x.toNat % 64))
  | .asr => some (y.sshiftRight (x.toNat % 64))
  | .lsr => some (y >>> (x.toNat % 64))

def Unary.eval (op : Unary) (y : Word) : Word :=
  match op with
  | .negB => setLow8 y (-(y.extractLsb' 0 8))
  | .negL => -y
  | .notL => ~~~y
  | .extW => setLow16 y ((y.extractLsb' 0 8).signExtend 16)
  | .extL => (y.extractLsb' 0 16).signExtend 32

def Mach.frameAt (m : Mach) (off : Int) : Word := m.fp + BitVec.ofInt 32 off

/-- The long words that are read here; a smaller operand is read at `(%a0)` or from a register. -/
def readOperand (sym : String → Word) (m : Mach) : Operand → Option (Word × Mach)
  | .d n => some (m.d n, m)
  | .a0 => some (m.a0, m)
  | .fp => some (m.fp, m)
  | .imm v => some (BitVec.ofInt 32 v, m)
  | .frame off => some (readL m.mem (m.frameAt off), m)
  | .stack off => some (readL m.mem (m.sp + BitVec.ofInt 32 off), m)
  | .at0 => some (readL m.mem m.a0, m)
  | .push => none
  | .pop => some (readL m.mem m.sp, { m with sp := m.sp + 4 })
  | .sym s => some (readL m.mem (sym s), m)
  | .label _ => none

def writeOperand (sym : String → Word) (m : Mach) (v : Word) : Operand → Option Mach
  | .d n => some (m.setD n v)
  | .a0 => some { m with a0 := v }
  | .frame off => some { m with mem := writeL m.mem (m.frameAt off) v, cc := none }
  | .stack off => some { m with mem := writeL m.mem (m.sp + BitVec.ofInt 32 off) v, cc := none }
  | .at0 => some { m with mem := writeL m.mem m.a0 v, cc := none }
  | .push => some { m with sp := m.sp - 4, mem := writeL m.mem (m.sp - 4) v, cc := none }
  | .sym s => some { m with mem := writeL m.mem (sym s) v, cc := none }
  | .fp | .imm _ | .pop | .label _ => none

def execMove (sym : String → Word) (m : Mach) : Size → Operand → Operand → Option Mach
  | .l, src, dst => do
    let (v, m) ← readOperand sym m src
    writeOperand sym m v dst
  | .b, .at0, .d n => some (m.setD n (setLow8 (m.d n) (readB m.mem m.a0)))
  | .w, .at0, .d n => some (m.setD n (setLow16 (m.d n) (readW m.mem m.a0)))
  | .b, .d n, .at0 => some { m with mem := writeB m.mem m.a0 ((m.d n).truncate 8), cc := none }
  | .w, .d n, .at0 => some { m with mem := writeW m.mem m.a0 ((m.d n).truncate 16), cc := none }
  | _, _, _ => none

/-- An instruction that does not transfer control; the address of a code label is not known
here. -/
def exec (sym : String → Word) (m : Mach) : Asm → Option Mach
  | .moveq v n => some (m.setD n (BitVec.ofInt 32 v))
  | .move sz src dst => execMove sym m sz src dst
  | .lea (.frame off) => some { m with a0 := m.frameAt off }
  | .lea (.stack off) => some { m with a0 := m.sp + BitVec.ofInt 32 off }
  | .lea (.sym s) => some { m with a0 := sym s }
  | .alu op s n => (op.eval (m.d s) (m.d n)).map (m.setD n)
  | .unary op n => some (m.setD n (op.eval (m.d n)))
  | .cmp s n => some { m with cc := some (cmpFlags (m.d s) (m.d n)) }
  | .scc c n => m.cc.map fun f =>
    { m with d := Function.update m.d n (setLow8 (m.d n) (if c.holds f then 0xFF else 0)) }
  | .tst n => some { m with cc := some (cmpFlags 0 (m.d n)) }
  | .drop n => some { m with sp := m.sp + BitVec.ofInt 32 n }
  | .link n =>
    some { m with
      mem := writeL m.mem (m.sp - 4) m.fp
      fp := m.sp - 4
      sp := m.sp - 4 + BitVec.ofInt 32 n }
  | .unlk => some { m with fp := readL m.mem m.fp, sp := m.fp + 4 }
  | .saveRegs =>
    some { m with
      sp := m.sp - 24
      mem := (List.range 6).foldl
        (fun mem k => writeL mem (m.sp - 24 + BitVec.ofNat 32 (4 * k)) (m.d (k + 2))) m.mem }
  | .loadRegs =>
    some { m with
      sp := m.sp + 24
      d := fun n =>
        if 2 ≤ n ∧ n < 8 then readL m.mem (m.sp + BitVec.ofNat 32 (4 * (n - 2))) else m.d n }
  | _ => none

/-- A run of such instructions. -/
def runAsm (sym : String → Word) : List Asm → Mach → Option Mach
  | [], m => some m
  | i :: is, m => (exec sym m i).bind (runAsm sym is)

section Run

variable {sym : String → Word} {m m' : Mach} {is is' : List Asm} {i : Asm}

@[simp] theorem runAsm_nil : runAsm sym [] m = some m := rfl

theorem runAsm_cons : runAsm sym (i :: is) m = (exec sym m i).bind (runAsm sym is) := rfl

theorem runAsm_append :
    runAsm sym (is ++ is') m = (runAsm sym is m).bind (runAsm sym is') := by
  induction is generalizing m with
  | nil => rfl
  | cons i is ih =>
    rw [List.cons_append, runAsm_cons, runAsm_cons, Option.bind_assoc]
    congr 1
    funext m'
    exact ih

theorem runAsm_trans (h : runAsm sym is m = some m') :
    runAsm sym (is ++ is') m = runAsm sym is' m' := by
  rw [runAsm_append, h, Option.bind_some]

end Run

end MechanicalResearcher.PortableCompiler
