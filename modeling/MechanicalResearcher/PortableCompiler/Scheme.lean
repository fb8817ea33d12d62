import MechanicalResearcher.PortableCompiler.Ir

/-!
# Lowering of TinScheme

`scheme/lower.c`.  A value that the reader built is a `Datum`; an accessor on a value that
has no such field reads whatever is there, and is the fault `wild`.  The static variables of
the source are the state `Lowering`.

Each form is lowered by its own function.  `lower_call` is written out in the last case of
`lowerExpr`, where the recursion can see that its parts are parts of the form.
-/

namespace MechanicalResearcher.PortableCompiler.Scheme

/-- What the reader returns: fixnums, `#t`, `#f`, `()`, symbols, strings and pairs. -/
inductive Datum
  | fix (n : Int)
  | bool (b : Bool)
  | nil
  | sym (name : String)
  | str (text : String)
  | pair (car cdr : Datum)
  deriving DecidableEq, Repr

inductive Fault
  /-- `die` with its message -/
  | die (msg : String)
  /-- `gc_car`, `gc_cdr` or `sym_name` of a value without such a field -/
  | wild
  deriving DecidableEq, Repr

/-- `GSYM_*` -/
inductive GsymKind
  | func | var | runtime
  deriving DecidableEq, Repr

structure Gsym where
  name : String
  kind : GsymKind
  nparams : Nat
  deriving DecidableEq, Repr

structure Lsym where
  name : String
  slot : Nat
  deriving DecidableEq, Repr

/-- A lambda that waits for its function. -/
structure Lifted where
  name : String
  params : Datum
  body : Datum
  deriving DecidableEq, Repr

structure Lowering where
  fn : Func
  lsyms : List Lsym := []
  slotSizes : List Nat := []
  gsyms : List Gsym := []
  lifted : List Lifted := []
  lambdaSerial : Nat := 0

abbrev LowerM := StateT Lowering (Except Fault)

def die {α : Type} (msg : String) : LowerM α := throw (.die msg)

def wild {α : Type} : LowerM α := throw .wild

def newTemp : LowerM Nat := do
  let s ← get
  set { s with fn := (irNewTemp s.fn).1 }
  return (irNewTemp s.fn).2

def newLabel : LowerM Nat := do
  let s ← get
  set { s with fn := (irNewLabel s.fn).1 }
  return (irNewLabel s.fn).2

def emit (i : Insn) : LowerM Unit := modify fun s => { s with fn := irEmit s.fn i }

/-- The instruction `i` with a new temp as its destination. -/
def emitDst (i : Insn) : LowerM Nat := do
  let t ← newTemp
  emit { i with dst := some t }
  return t

def lowerConst (v : Int) : LowerM Nat := emitDst { op := .lic, imm := v }

def emitLabel (lab : Nat) : LowerM Unit := emit { op := .label, label := some lab }

def emitJmp (lab : Nat) : LowerM Unit := emit { op := .jmp, label := some lab }

def emitBnz (t lab : Nat) : LowerM Unit := emit { op := .bnz, a := some t, label := some lab }

def emitBin (op : Op) (ta tb : Nat) : LowerM Nat :=
  emitDst { op := op, a := some ta, b := some tb }

def emitMov (dst a : Nat) : LowerM Unit := emit { op := .mov, dst := some dst, a := some a }

def findGsym (s : Lowering) (name : String) : Option Gsym := s.gsyms.find? (·.name == name)

/-- The last symbol of the name. -/
def findLsym (s : Lowering) (name : String) : Option Lsym :=
  s.lsyms.reverse.find? (·.name == name)

def allocSlot (bytes : Nat) : LowerM Nat := do
  let s ← get
  set { s with slotSizes := s.slotSizes ++ [bytes] }
  return s.slotSizes.length

def addLsym (name : String) : LowerM Unit := do
  let slot ← allocSlot 4
  modify fun s => { s with lsyms := s.lsyms ++ [⟨name, slot⟩] }

/-! ## Forms -/

def boolFromCmp (cmpTemp : Nat) : LowerM Nat := do
  let tTwo ← lowerConst 2
  let tShifted ← emitBin .shl cmpTemp tTwo
  emitBin .or tShifted tTwo

/-- The comparison of a symbol. -/
def cmpOp (name : String) : Option Op :=
  if name = "=" then some .cmpeq
  else if name = "<" then some .cmplts
  else if name = ">" then some .cmpgts
  else if name = "<=" then some .cmples
  else if name = ">=" then some .cmpges
  else none

/-- The comparison that a test form calls. -/
def irCmp : Datum → Option Op
  | .pair (.sym head) _ => cmpOp head
  | _ => none

/-- What `lower_if` reads of its branches before it emits anything. -/
def hasBranches : Datum → Bool
  | .pair _ .nil => true
  | .pair _ (.pair _ _) => true
  | _ => false

/-- The general test: only `#f` is false. -/
def branchTrue (tTest ltrue lfalse : Nat) : LowerM Unit := do
  let tFalse ← lowerConst 2
  let tDiff ← emitBin .sub tTest tFalse
  emitBnz tDiff ltrue
  emitJmp lfalse

/-- A variable as a value. -/
def lowerSymbol (name : String) : LowerM Nat := do
  let s ← get
  match findLsym s name with
  | some ls => emitDst { op := .ldl, slot := some ls.slot }
  | none =>
    match findGsym s name with
    | none => die s!"lower: undefined '{name}'"
    | some gs =>
      let taddr ← emitDst { op := .lea, sym := name }
      if gs.kind = .func then return taddr
      else emitDst { op := .lw, a := some taddr }

/-- The call of `lower_call` once the arguments are passed, for a symbol. -/
def callSymbol (name : String) (nargs : Nat) : LowerM Nat := do
  let s ← get
  match findLsym s name with
  | some ls =>
    let tf ← emitDst { op := .ldl, slot := some ls.slot }
    emitDst { op := .calli, a := some tf, nargs := nargs }
  | none =>
    match findGsym s name with
    | none => die s!"lower: undefined '{name}'"
    | some gs =>
      if gs.kind = .var then
        let taddr ← emitDst { op := .lea, sym := name }
        let tf ← emitDst { op := .lw, a := some taddr }
        emitDst { op := .calli, a := some tf, nargs := nargs }
      else emitDst { op := .call, sym := name, nargs := nargs }

/-- The instructions that pass the arguments from number `i` on. -/
def emitArgs (i : Nat) : List Nat → LowerM Unit
  | [] => return
  | t :: args => do
    emit { op := .arg, a := some t, imm := i }
    emitArgs (i + 1) args

def lowerShift : LowerM Nat := emitDst { op := .capture }

/-- The body waits in the queue; the value is the address of its function. -/
def lowerLambda (params body : Datum) : LowerM Nat := do
  let s ← get
  let name := s!"__lambda_{s.lambdaSerial}"
  set { s with
    lambdaSerial := s.lambdaSerial + 1
    lifted := s.lifted ++ [Lifted.mk name params body] }
  emitDst { op := .lea, sym := name }

mutual

def lowerExpr : Datum → LowerM Nat
  | .fix n => lowerConst (n * 4 + 1)
  | .bool true => lowerConst 6
  | .bool false => lowerConst 2
  | .nil => lowerConst 0
  | .str _ => die "lower: unhandled expression type"
  | .sym name => lowerSymbol name
  | .pair (.sym head) rest =>
    if head = "if" then lowerIf rest
    else if head = "+" then lowerAdd rest
    else if head = "-" then lowerSub rest
    else if head = "*" then lowerMul rest
    else if head = "=" then lowerCmp .cmpeq rest
    else if head = "<" then lowerCmp .cmplts rest
    else if head = ">" then lowerCmp .cmpgts rest
    else if head = "<=" then lowerCmp .cmples rest
    else if head = ">=" then lowerCmp .cmpges rest
    else if head = "lambda" then
      match rest with
      | .pair params body => lowerLambda params body
      | _ => wild
    else if head = "begin" then do
      let t ← lowerConst 0
      lowerSeq t rest
    else if head = "quote" then die "lower: quoted expressions not yet supported in codegen"
    else if head = "reset" then lowerReset rest
    else if head = "shift" then lowerShift
    else if head = "resume" then lowerResume rest
    else do
      let args ← lowerArgs 0 rest
      emitArgs 0 args
      callSymbol head args.length
  | .pair head rest => do
    let args ← lowerArgs 0 rest
    emitArgs 0 args
    let tf ← lowerExpr head
    emitDst { op := .calli, a := some tf, nargs := args.length }

def lowerCmp (op : Op) : Datum → LowerM Nat
  | .pair x (.pair y _) => do
    let ta ← lowerExpr x
    let tb ← lowerExpr y
    let tcmp ← emitBin op ta tb
    boolFromCmp tcmp
  | .pair x _ => do
    let _ ← lowerExpr x
    wild
  | _ => wild

/-- `(if test then [else])`, with a shortcut for comparison tests -/
def lowerIf : Datum → LowerM Nat
  | .pair test rest =>
    if !hasBranches rest then wild
    else do
      let ltrue ← newLabel
      let lfalse ← newLabel
      let lend ← newLabel
      match irCmp test with
      | some op => lowerTest op ltrue lfalse test
      | none =>
        let tTest ← lowerExpr test
        branchTrue tTest ltrue lfalse
      lowerBranches ltrue lfalse lend rest
  | _ => wild

/-- The shortcut: the comparison itself decides the branch. -/
def lowerTest (op : Op) (ltrue lfalse : Nat) : Datum → LowerM Unit
  | .pair _ (.pair x (.pair y _)) => do
    let ta ← lowerExpr x
    let tb ← lowerExpr y
    let tcmp ← emitBin op ta tb
    emitBnz tcmp ltrue
    emitJmp lfalse
  | .pair _ (.pair x _) => do
    let _ ← lowerExpr x
    wild
  | _ => wild

/-- The branches of an `if`; a missing else is nil. -/
def lowerBranches (ltrue lfalse lend : Nat) : Datum → LowerM Nat
  | .pair thenForm tail => do
    let tResult ← newTemp
    emitLabel ltrue
    let tThen ← lowerExpr thenForm
    emitMov tResult tThen
    emitJmp lend
    emitLabel lfalse
    match tail with
    | .nil => emit { op := .lic, dst := some tResult, imm := 0 }
    | .pair elseForm _ => do
      let tElse ← lowerExpr elseForm
      emitMov tResult tElse
    | _ => wild
    emitLabel lend
    return tResult
  | _ => wild

def lowerAdd : Datum → LowerM Nat
  | .pair x (.pair y _) => do
    let ta ← lowerExpr x
    let tb ← lowerExpr y
    let tsum ← emitBin .add ta tb
    let tone ← lowerConst 1
    emitBin .sub tsum tone
  | .pair x _ => do
    let _ ← lowerExpr x
    wild
  | _ => wild

def lowerSub : Datum → LowerM Nat
  | .pair x .nil => do
    let ta ← lowerExpr x
    let tTwo ← lowerConst 2
    emitBin .sub tTwo ta
  | .pair x (.pair y _) => do
    let ta ← lowerExpr x
    let tb ← lowerExpr y
    let tdiff ← emitBin .sub ta tb
    let tone ← lowerConst 1
    emitBin .add tdiff tone
  | .pair x _ => do
    let _ ← lowerExpr x
    wild
  | _ => wild

def lowerMul : Datum → LowerM Nat
  | .pair x (.pair y _) => do
    let ta ← lowerExpr x
    let tb ← lowerExpr y
    let tTwo ← lowerConst 2
    let tX ← emitBin .shrs ta tTwo
    let tOne ← lowerConst 1
    let tB1 ← emitBin .sub tb tOne
    let tProd ← emitBin .mul tX tB1
    emitBin .add tProd tOne
  | .pair x _ => do
    let _ ← lowerExpr x
    wild
  | _ => wild

/-- The temps of the arguments; `nargs` were lowered before. -/
def lowerArgs (nargs : Nat) : Datum → LowerM (List Nat)
  | .nil => return []
  | .pair x rest =>
    if nargs ≥ 16 then die "lower: too many arguments"
    else do
      let t ← lowerExpr x
      let ts ← lowerArgs (nargs + 1) rest
      return t :: ts
  | _ => if nargs ≥ 16 then die "lower: too many arguments" else wild

/-- A sequence of forms; `t` is the value so far. -/
def lowerSeq (t : Nat) : Datum → LowerM Nat
  | .nil => return t
  | .pair x rest => do
    let t ← lowerExpr x
    lowerSeq t rest
  | _ => wild

def lowerReset : Datum → LowerM Nat
  | .pair body (.pair handler _) => do
    let slot ← allocSlot 12
    let lelse ← newLabel
    let lend ← newLabel
    let tresult ← newTemp
    let lmark ← newLabel
    let tbuf ← emitDst { op := .mark, slot := some slot, label := some lmark }
    emitBnz tbuf lelse
    let tbody ← lowerExpr body
    emitMov tresult tbody
    emitJmp lend
    emitLabel lelse
    let tf ← lowerExpr handler
    emit { op := .arg, a := some tbuf, imm := 0 }
    let tcall ← emitDst { op := .calli, a := some tf, nargs := 1 }
    emitMov tresult tcall
    emitLabel lend
    return tresult
  | .nil => die "lower: (reset body handler) requires two arguments"
  | .pair _ .nil => die "lower: (reset body handler) requires two arguments"
  | _ => wild

def lowerResume : Datum → LowerM Nat
  | .pair buf (.pair val _) => do
    let tbuf ← lowerExpr buf
    let tval ← lowerExpr val
    emit { op := .resume, a := some tbuf, b := some tval }
    newTemp
  | .nil => die "lower: (resume buf val) requires two arguments"
  | .pair _ .nil => die "lower: (resume buf val) requires two arguments"
  | .pair buf _ => do
    let _ ← lowerExpr buf
    wild
  | _ => wild

end

/-! ## Functions -/

/-- The parameters become the first slots. -/
def addParams (nparams : Nat) : Datum → LowerM Nat
  | .nil => return nparams
  | .pair (.sym name) rest => do
    addLsym name
    addParams (nparams + 1) rest
  | _ => wild

/-- `cur_fn` is a new function, without locals. -/
def beginFunction (name : String) : LowerM Unit :=
  modify fun s => { s with fn := irNewFunc name, lsyms := [], slotSizes := [] }

/-- `finish_slots` after the end of the function. -/
def finishFunction : LowerM Func := do
  emit { op := .endf }
  let s ← get
  return { s.fn with slotSize := s.slotSizes }

/-- The value of the last form of a body, if it has a form. -/
def lowerBody (tResult : Option Nat) : Datum → LowerM (Option Nat)
  | .nil => return tResult
  | .pair x rest => do
    let t ← lowerExpr x
    lowerBody (some t) rest
  | _ => wild

def lowerFunction (name : String) (params body : Datum) : LowerM Func := do
  beginFunction name
  let nparams ← addParams 0 params
  modify fun s => { s with fn := { s.fn with nparams := nparams } }
  emit { op := .func, sym := name, nargs := nparams }
  let tResult ← lowerBody none body
  match tResult with
  | some t => emit { op := .retv, a := some t }
  | none =>
    let z ← lowerConst 0
    emit { op := .retv, a := some z }
  finishFunction

/-! ## Programs -/

/-- The top-level forms; a name that is not a symbol faults when it is read. -/
inductive TopForm
  | defun (name params body : Datum)
  | defvar (name : Datum) (init : Datum)
  | expr (form : Datum)
  deriving DecidableEq, Repr

def classifyDefine : Datum → Except Fault TopForm
  | .pair (.sym "define") (.pair (.pair name params) body) => .ok (.defun name params body)
  | .pair (.sym "define") (.pair (.sym name) (.pair init _)) => .ok (.defvar (.sym name) init)
  | .pair (.sym "define") (.pair (.sym _) _) => .error .wild
  | .pair (.sym "define") (.pair _ _) => .error (.die "lower: malformed define")
  | .pair (.sym "define") _ => .error .wild
  | form => .ok (.expr form)

def symName : Datum → Except Fault String
  | .sym name => .ok name
  | _ => .error .wild

/-- The number of elements of a proper list. -/
def listLength : Datum → Except Fault Nat
  | .nil => .ok 0
  | .pair _ rest => do
    let n ← listLength rest
    return n + 1
  | _ => .error .wild

/-- The first pass: all global names. -/
def registerGlobals : Datum → LowerM Unit
  | .nil => return
  | .pair form rest => do
    match ← classifyDefine form with
    | .defun name params _ =>
      let np ← listLength params
      let name ← symName name
      modify fun s => { s with gsyms := s.gsyms ++ [Gsym.mk name .func np] }
    | .defvar name _ =>
      let name ← symName name
      modify fun s => { s with gsyms := s.gsyms ++ [Gsym.mk name .var 0] }
    | .expr _ => pure ()
    registerGlobals rest
  | _ => wild

/-- A routine of the runtime, unless the program has a global of the name. -/
def addRuntime (name : String) (nparams : Nat) : LowerM Unit :=
  modify fun s =>
    if (findGsym s name).isSome then s
    else { s with gsyms := s.gsyms ++ [Gsym.mk name .runtime nparams] }

/-- The second pass: the functions that the program defines. -/
def lowerDefuns : Datum → LowerM (List Func)
  | .nil => return []
  | .pair form rest => do
    match ← classifyDefine form with
    | .defun name params body =>
      let name ← symName name
      let fn ← lowerFunction name params body
      let fns ← lowerDefuns rest
      return fn :: fns
    | _ => lowerDefuns rest
  | _ => wild

/-- The third pass: the initialisers and the other forms, in order. -/
def lowerTop (tLast : Option Nat) : Datum → LowerM (Option Nat)
  | .nil => return tLast
  | .pair form rest => do
    match ← classifyDefine form with
    | .defun _ _ _ => lowerTop tLast rest
    | .defvar name init =>
      let tval ← lowerExpr init
      let name ← symName name
      let taddr ← emitDst { op := .lea, sym := name }
      emit { op := .sw, a := some taddr, b := some tval }
      lowerTop tLast rest
    | .expr form =>
      let t ← lowerExpr form
      lowerTop (some t) rest
  | _ => wild

/-- The last result, untagged, is the exit code. -/
def lowerMain (program : Datum) : LowerM Func := do
  beginFunction "main"
  emit { op := .func, sym := "main" }
  let tLast ← lowerTop none program
  match tLast with
  | some t =>
    let tTwo ← lowerConst 2
    let tUntagged ← emitBin .shrs t tTwo
    emit { op := .retv, a := some tUntagged }
  | none =>
    let z ← lowerConst 0
    emit { op := .retv, a := some z }
  finishFunction

/-- The last pass: the queue of the lambdas, which grows while it is emptied.  `none` when
`fuel` functions were not enough. -/
def lowerLifted : Nat → LowerM (Option (List Func))
  | 0 => do
    let s ← get
    return if s.lifted.isEmpty then some [] else none
  | fuel + 1 => do
    let s ← get
    match s.lifted with
    | [] => return some []
    | l :: rest =>
      set { s with lifted := rest }
      let fn ← lowerFunction l.name l.params l.body
      let fns ← lowerLifted fuel
      return fns.map (fn :: ·)

def scmLower (fuel : Nat) (program : Datum) : LowerM (Option (List Func)) := do
  registerGlobals program
  addRuntime "write" 3
  addRuntime "exit" 1
  let defuns ← lowerDefuns program
  let main ← lowerMain program
  let lambdas ← lowerLifted fuel
  return lambdas.map fun fns => defuns ++ main :: fns

end MechanicalResearcher.PortableCompiler.Scheme
