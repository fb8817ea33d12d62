import Mathlib.Algebra.GroupWithZero.Nat
import MechanicalResearcher.PortableCompiler.IrExec
import MechanicalResearcher.PortableCompiler.M68k

/-!
# The m68k back end

`backend/cf_emit.c`.  Each function returns the instructions that it prints, and a register is
its number: `%dn` is `n`.  `none` stands for a call of `die`, or for an element of `temp_reg`
that an operand of -1 would read.
-/

namespace MechanicalResearcher.PortableCompiler

/-- `(n + 3) & ~3` -/
def roundUp (n : Nat) : Nat := (n + 3) / 4 * 4

def localsSize (fn : Func) : Nat := ((fn.slotSize.drop fn.nparams).map roundUp).sum

def slotOffset (fn : Func) (slot : Nat) : Int :=
  if slot < fn.nparams then 8 + 4 * slot
  else -(((fn.slotSize.take (slot + 1)).drop fn.nparams).map roundUp).sum

/-- `temp_spill` is -1 where `regalloc` gave a temp no slot. -/
def spillByteOffset (fn : Func) (temp : Nat) : Int :=
  -(localsSize fn : Int) - ((fn.tempSpill temp).elim (-1) (fun o => (o : Int)) + 4)

/-- The instructions that make a temp available, and the register where it is then. -/
def rs (fn : Func) (t scratch : Nat) : List Asm × Nat :=
  match fn.tempReg t with
  | some r => ([], r)
  | none => ([.move .l (.frame (spillByteOffset fn t)) (.d scratch)], scratch)

def rd (fn : Func) (t scratch : Nat) : Nat := (fn.tempReg t).getD scratch

def wd (fn : Func) (t reg : Nat) : List Asm :=
  if (fn.tempReg t).isSome then [] else [.move .l (.d reg) (.frame (spillByteOffset fn t))]

/-- A move between two registers, unless they are the same. -/
def moveReg (s n : Nat) : List Asm := if s = n then [] else [.move .l (.d s) (.d n)]

def emitBinop (fn : Func) (a b dst : Nat) (mnem : Alu) : List Asm :=
  let (la, sa) := rs fn a 0
  let (lb, sb) := rs fn b 1
  let sd := rd fn dst 0
  let clash := sb = sd ∧ sa ≠ sd
  let sb' := if clash then 1 else sb
  la ++ lb ++ (if clash then [.move .l (.d sb) (.d 1)] else []) ++ moveReg sa sd ++
    [.alu mnem sb' sd] ++ wd fn dst sd

def emitUnop (fn : Func) (a dst : Nat) (mnem : Unary) : List Asm :=
  let (la, sa) := rs fn a 0
  let sd := rd fn dst 0
  la ++ moveReg sa sd ++ [.unary mnem sd] ++ wd fn dst sd

/-- `IR_MOV` -/
def emitMov (fn : Func) (a dst : Nat) : List Asm :=
  let (la, sa) := rs fn a 0
  let sd := rd fn dst 0
  la ++ moveReg sa sd ++ wd fn dst sd

def emitCmp (fn : Func) (a b dst : Nat) (scc : Cond) : List Asm :=
  let (la, sa) := rs fn a 0
  let (lb, sb) := rs fn b 1
  let sd := rd fn dst 0
  la ++ lb ++ [.moveq 0 sd, .cmp sb sa, .scc scc sd, .unary .negB sd] ++ wd fn dst sd

def emitLoad (fn : Func) (a dst : Nat) (sz : Size) (signExtend clearFirst : Bool) : List Asm :=
  let (la, sa) := rs fn a 0
  let sd := rd fn dst 0
  la ++ [.move .l (.d sa) .a0] ++ (if clearFirst then [.moveq 0 sd] else []) ++
    [.move sz .at0 (.d sd)] ++
    (if signExtend then (if sz = .b then [.unary .extW sd] else []) ++ [.unary .extL sd]
      else []) ++
    wd fn dst sd

def emitStore (fn : Func) (a b : Nat) (sz : Size) : List Asm :=
  let (la, sa) := rs fn a 0
  let (lb, sb) := rs fn b 1
  la ++ lb ++ [.move .l (.d sa) .a0, .move sz (.d sb) .at0]

/-- `IR_MODS` and `IR_MODU` -/
def emitMod (fn : Func) (a b dst : Nat) (divop : Alu) : List Asm :=
  let (la, sa) := rs fn a 0
  let (lb, sb) := rs fn b 1
  let sd := rd fn dst 0
  la ++ lb ++ moveReg sb 1 ++
    [.move .l (.d sa) .push, .move .l (.d sa) (.d 0), .alu divop 1 0, .alu .muls 1 0,
      .move .l .pop (.d sd), .alu .sub 0 sd] ++
    wd fn dst sd

def frameSize (fn : Func) : Nat := localsSize fn + fn.nspills * 4

def emitEpilogue : List Asm := [.loadRegs, .unlk, .rts]

/-- The result of a call goes from `%d0` to its temp. -/
def emitResult (fn : Func) (dst : Nat) : List Asm :=
  let sd := rd fn dst 0
  moveReg 0 sd ++ wd fn dst sd

/-- `args` are the temps of `arg_temps`, in their order; the last one is pushed first. -/
def emitCallFlush (fn : Func) (args : List Nat) (i : Insn) (indirect : Bool) :
    Option (List Asm) := do
  let pushes := args.reverse.flatMap fun t =>
    let (l, s) := rs fn t 0
    l ++ [.move .l (.d s) .push]
  let call ←
    if indirect then do
      let (l, s) := rs fn (← i.a) 0
      some (l ++ [.move .l (.d s) .a0, .jsrA0])
    else some [.jsr i.sym]
  some (pushes ++ call ++ (if args.length > 0 then [.drop (4 * args.length)] else []) ++
    i.dst.elim [] (emitResult fn))

/-- The mnemonic of an instruction that `emit_binop` handles. -/
def binopMnem : Op → Option Alu
  | .add => some .add
  | .sub => some .sub
  | .mul => some .muls
  | .and => some .and
  | .or => some .or
  | .xor => some .eor
  | .shl => some .lsl
  | .shrs => some .asr
  | .shru => some .lsr
  | .divs => some .divs
  | .divu => some .divu
  | _ => none

/-- The mnemonic of a comparison. -/
def cmpMnem : Op → Option Cond
  | .cmpeq => some .eq
  | .cmpne => some .ne
  | .cmplts => some .lt
  | .cmples => some .le
  | .cmpgts => some .gt
  | .cmpges => some .ge
  | .cmpltu => some .cs
  | .cmpleu => some .ls
  | .cmpgtu => some .hi
  | .cmpgeu => some .cc
  | _ => none

/-- `emit_insn`, with `label_prefix` and with `arg_temps` before and after it. -/
def emitInsn (fn : Func) (pfx : Nat) (args : List Nat) (i : Insn) :
    Option (List Asm × List Nat) :=
  let target (l : Nat) : AsmLabel := ⟨false, pfx, l⟩
  match i.op with
  | .nop | .func | .endf => some ([], args)
  | .lic => do
    let dst ← i.dst
    let sd := rd fn dst 0
    some ((if -128 ≤ i.imm ∧ i.imm ≤ 127 then [.moveq i.imm sd]
      else [.move .l (.imm i.imm) (.d sd)]) ++ wd fn dst sd, args)
  | .lea => do
    let dst ← i.dst
    let sd := rd fn dst 0
    some ([.lea (.sym i.sym), .move .l .a0 (.d sd)] ++ wd fn dst sd, args)
  | .adl => do
    let dst ← i.dst
    let slot ← i.slot
    let sd := rd fn dst 0
    some ([.lea (.frame (slotOffset fn slot)), .move .l .a0 (.d sd)] ++ wd fn dst sd, args)
  | .mov => do some (emitMov fn (← i.a) (← i.dst), args)
  | .add | .sub | .mul | .and | .or | .xor | .shl | .shrs | .shru | .divs | .divu => do
    some (emitBinop fn (← i.a) (← i.b) (← i.dst) (← binopMnem i.op), args)
  | .mods => do some (emitMod fn (← i.a) (← i.b) (← i.dst) .divs, args)
  | .modu => do some (emitMod fn (← i.a) (← i.b) (← i.dst) .divu, args)
  | .neg => do some (emitUnop fn (← i.a) (← i.dst) .negL, args)
  | .not => do some (emitUnop fn (← i.a) (← i.dst) .notL, args)
  | .lb => do some (emitLoad fn (← i.a) (← i.dst) .b false true, args)
  | .lbs => do some (emitLoad fn (← i.a) (← i.dst) .b true false, args)
  | .lh => do some (emitLoad fn (← i.a) (← i.dst) .w false true, args)
  | .lhs => do some (emitLoad fn (← i.a) (← i.dst) .w true false, args)
  | .lw => do some (emitLoad fn (← i.a) (← i.dst) .l false false, args)
  | .sb => do some (emitStore fn (← i.a) (← i.b) .b, args)
  | .sh => do some (emitStore fn (← i.a) (← i.b) .w, args)
  | .sw => do some (emitStore fn (← i.a) (← i.b) .l, args)
  | .ldl => do
    let dst ← i.dst
    let slot ← i.slot
    let sd := rd fn dst 0
    some ([.move .l (.frame (slotOffset fn slot)) (.d sd)] ++ wd fn dst sd, args)
  | .stl => do
    let (la, sa) := rs fn (← i.a) 0
    let slot ← i.slot
    some (la ++ [.move .l (.d sa) (.frame (slotOffset fn slot))], args)
  | .cmpeq | .cmpne | .cmplts | .cmples | .cmpgts | .cmpges
  | .cmpltu | .cmpleu | .cmpgtu | .cmpgeu => do
    some (emitCmp fn (← i.a) (← i.b) (← i.dst) (← cmpMnem i.op), args)
  | .jmp => do some ([.bra (target (← i.label))], args)
  | .bz => do
    let (la, sa) := rs fn (← i.a) 0
    some (la ++ [.tst sa, .beq (target (← i.label))], args)
  | .bnz => do
    let (la, sa) := rs fn (← i.a) 0
    some (la ++ [.tst sa, .bne (target (← i.label))], args)
  | .label => do some ([.label (target (← i.label))], args)
  | .arg => if args.length ≥ 16 then none else do some ([], args ++ [← i.a])
  | .call => do some (← emitCallFlush fn args i false, [])
  | .calli => do some (← emitCallFlush fn args i true, [])
  | .ret => some (emitEpilogue, args)
  | .retv => do
    let (la, sa) := rs fn (← i.a) 0
    some (la ++ moveReg sa 0 ++ emitEpilogue, args)
  | .mark => do
    let dst ← i.dst
    let slot ← i.slot
    let l ← i.label
    let off := slotOffset fn slot
    some ([.move .l .fp (.frame off), .lea (.stack 0), .move .l .a0 (.frame (off + 4)),
      .lea (.label ⟨true, pfx, l⟩), .move .l .a0 (.frame (off + 8)), .lea (.frame off),
      .move .l .a0 (.sym "__cont_mark_sp"), .moveq 0 0, .label ⟨true, pfx, l⟩] ++
      emitResult fn dst, args)
  | .capture => do
    some ([.saveRegs, .jsr "__cont_capture", .loadRegs] ++ emitResult fn (← i.dst), args)
  | .resume => do
    let (la, sa) := rs fn (← i.a) 0
    let (lb, sb) := rs fn (← i.b) 1
    some (la ++ lb ++ [.move .l (.d sb) .push, .move .l (.d sa) .push, .jsr "__cont_resume"],
      args)

end MechanicalResearcher.PortableCompiler
