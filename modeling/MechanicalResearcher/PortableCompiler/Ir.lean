import Mathlib.Tactic.Common

/-!
# The intermediate code

`portable-compiler/demo/ir/ir.h` and `ir.c`.  A field that the source sets to -1 is `none`,
and the list of instructions that hangs on `head` is a list.
-/

namespace MechanicalResearcher.PortableCompiler

/-- `IR_*` -/
inductive Op
  | nop | lic | lea | adl | mov
  | add | sub | mul | divs | divu | mods | modu
  | and | or | xor | shl | shrs | shru
  | neg | not
  | lb | lbs | lh | lhs | lw | sb | sh | sw
  | ldl | stl
  | cmpeq | cmpne | cmplts | cmples | cmpgts | cmpges
  | cmpltu | cmpleu | cmpgtu | cmpgeu
  | jmp | bz | bnz
  | arg | call | calli | ret | retv
  | func | endf | label
  | mark | capture | resume
  deriving DecidableEq, Repr

/-- `struct ir_insn`, with the defaults of `ir_emit` -/
structure Insn where
  op : Op
  dst : Option Nat := none
  a : Option Nat := none
  b : Option Nat := none
  imm : Int := 0
  sym : String := ""
  slot : Option Nat := none
  label : Option Nat := none
  nargs : Nat := 0
  deriving DecidableEq, Repr

/-- `struct ir_func`.  The fields `nspills`, `tempReg` and `tempSpill` are set by `regalloc`. -/
structure Func where
  name : String
  nparams : Nat := 0
  slotSize : List Nat := []
  ntemps : Nat := 0
  nlabels : Nat := 0
  nspills : Nat := 0
  tempReg : Nat → Option Nat := fun _ => none
  tempSpill : Nat → Option Nat := fun _ => none
  code : List Insn := []

def irNewFunc (name : String) : Func := { name := name }

def irNewTemp (fn : Func) : Func × Nat := ({ fn with ntemps := fn.ntemps + 1 }, fn.ntemps)

def irNewLabel (fn : Func) : Func × Nat := ({ fn with nlabels := fn.nlabels + 1 }, fn.nlabels)

def irEmit (fn : Func) (i : Insn) : Func := { fn with code := fn.code ++ [i] }

end MechanicalResearcher.PortableCompiler
