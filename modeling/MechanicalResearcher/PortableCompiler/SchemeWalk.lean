import MechanicalResearcher.Lib.Evaluation
import MechanicalResearcher.PortableCompiler.Scheme

/-!
# The forms that the lowering of TinScheme takes

`walkProgram` goes over a program in the order of the four passes, without code or symbols: it
ends early at a form that the code reports with `die`, or at one without a part that the code
reads.  The lowering follows it, so that it never reads a part that is not there exactly when no
such form comes before a reported one.
-/

namespace MechanicalResearcher.PortableCompiler.Scheme

/-- Where a walk ends early. -/
inductive Halt
  /-- a form that the code has a message for -/
  | reported
  /-- a form without a part that the code reads -/
  | malformed
  deriving DecidableEq, Repr

/-- The parameters and the body of a lambda. -/
abbrev Lambda := Datum × Datum

/-- A walk to its end gives the lambdas it has met. -/
abbrev Walk := Except Halt (List Lambda)

def Walk.followedBy (w w' : Walk) : Walk := do
  let ls ← w
  let ls' ← w'
  return ls ++ ls'

/-- The kinds of forms that `lower_expr` tells apart. -/
inductive Shape
  | cond | binary | minus | lambda | begin | quote | reset | shift | resume | call
  deriving DecidableEq, Repr

def shapeOf (head : String) : Shape :=
  if head = "if" then .cond
  else if head = "-" then .minus
  else if head ∈ ["+", "*", "=", "<", ">", "<=", ">="] then .binary
  else if head = "lambda" then .lambda
  else if head = "begin" then .begin
  else if head = "quote" then .quote
  else if head = "reset" then .reset
  else if head = "shift" then .shift
  else if head = "resume" then .resume
  else .call

section Walks

-- the names that are defined where the form is
variable (known : String → Bool)

def walkName (name : String) : Walk := if known name then .ok [] else .error .reported

def walkLambda : Datum → Walk
  | .pair params body => .ok [(params, body)]
  | _ => .error .malformed

mutual

def walkExpr : Datum → Walk
  | .fix _ | .bool _ | .nil => .ok []
  | .str _ => .error .reported
  | .sym name => walkName known name
  | .pair (.sym head) rest =>
    match shapeOf head with
    | .cond => walkIf rest
    | .binary => walkTwo rest
    | .minus => walkMinus rest
    | .lambda => walkLambda rest
    | .begin => walkSeq rest
    | .quote => .error .reported
    | .reset => walkReset rest
    | .shift => .ok []
    | .resume => walkResume rest
    | .call => (walkArgs 0 rest).followedBy (walkName known head)
  | .pair head rest => (walkArgs 0 rest).followedBy (walkExpr head)

/-- Two operands; what follows them is not read. -/
def walkTwo : Datum → Walk
  | .pair x (.pair y _) => (walkExpr x).followedBy (walkExpr y)
  | .pair x _ => (walkExpr x).followedBy (.error .malformed)
  | _ => .error .malformed

def walkMinus : Datum → Walk
  | .pair x .nil => walkExpr x
  | .pair x (.pair y _) => (walkExpr x).followedBy (walkExpr y)
  | .pair x _ => (walkExpr x).followedBy (.error .malformed)
  | _ => .error .malformed

/-- The branches are looked for before the test is lowered. -/
def walkIf : Datum → Walk
  | .pair test rest =>
    if !hasBranches rest then .error .malformed
    else (walkExpr test).followedBy (walkBranches rest)
  | _ => .error .malformed

def walkBranches : Datum → Walk
  | .pair thenForm .nil => walkExpr thenForm
  | .pair thenForm (.pair elseForm _) => (walkExpr thenForm).followedBy (walkExpr elseForm)
  | .pair thenForm _ => (walkExpr thenForm).followedBy (.error .malformed)
  | _ => .error .malformed

/-- A proper list of at most 16 arguments; `nargs` come before. -/
def walkArgs (nargs : Nat) : Datum → Walk
  | .nil => .ok []
  | .pair x rest =>
    if nargs ≥ 16 then .error .reported
    else (walkExpr x).followedBy (walkArgs (nargs + 1) rest)
  | _ => if nargs ≥ 16 then .error .reported else .error .malformed

def walkSeq : Datum → Walk
  | .nil => .ok []
  | .pair x rest => (walkExpr x).followedBy (walkSeq rest)
  | _ => .error .malformed

def walkReset : Datum → Walk
  | .pair body (.pair handler _) => (walkExpr body).followedBy (walkExpr handler)
  | .nil => .error .reported
  | .pair _ .nil => .error .reported
  | _ => .error .malformed

/-- A dotted argument is seen only behind the buffer. -/
def walkResume : Datum → Walk
  | .pair buf (.pair val _) => (walkExpr buf).followedBy (walkExpr val)
  | .nil => .error .reported
  | .pair _ .nil => .error .reported
  | .pair buf _ => (walkExpr buf).followedBy (.error .malformed)
  | _ => .error .malformed

end

end Walks

/-- The names of the parameters. -/
def walkParams : Datum → Except Halt (List String)
  | .nil => .ok []
  | .pair (.sym name) rest => do
    let names ← walkParams rest
    return name :: names
  | _ => .error .malformed

def walkFunction (globals : List String) (params body : Datum) : Walk := do
  let names ← walkParams params
  walkSeq (fun name => decide (name ∈ names) || decide (name ∈ globals)) body

def Fault.halt : Fault → Halt
  | .die _ => .reported
  | .wild => .malformed

/-- What a function of the lowering that reads only its argument does. -/
def reads {α : Type} (r : Except Fault α) : Except Halt α := r.mapError Fault.halt

/-- The first pass: the names that are defined. -/
def walkGlobals : Datum → Except Halt (List String)
  | .nil => .ok []
  | .pair form rest => do
    match ← reads (classifyDefine form) with
    | .defun name params _ =>
      let _ ← reads (listLength params)
      let name ← reads (symName name)
      let names ← walkGlobals rest
      return name :: names
    | .defvar name _ =>
      let name ← reads (symName name)
      let names ← walkGlobals rest
      return name :: names
    | .expr _ => walkGlobals rest
  | _ => .error .malformed

/-- The second pass: the functions. -/
def walkDefuns (globals : List String) : Datum → Walk
  | .nil => .ok []
  | .pair form rest => do
    match ← reads (classifyDefine form) with
    | .defun name params body =>
      let _ ← reads (symName name)
      (walkFunction globals params body).followedBy (walkDefuns globals rest)
    | _ => walkDefuns globals rest
  | _ => .error .malformed

/-- The third pass: the initialisers and the other forms. -/
def walkTop (known : String → Bool) : Datum → Walk
  | .nil => .ok []
  | .pair form rest => do
    match ← reads (classifyDefine form) with
    | .defun _ _ _ => walkTop known rest
    | .defvar name init =>
      (walkExpr known init).followedBy do
        let _ ← reads (symName name)
        walkTop known rest
    | .expr form => (walkExpr known form).followedBy (walkTop known rest)
  | _ => .error .malformed

/-- The last pass: the lambdas in the order in which they were met, `n` at most. -/
def walkLambdas (globals : List String) : Nat → List Lambda → Except Halt Unit
  | 0, _ | _, [] => .ok ()
  | n + 1, (params, body) :: rest => do
    let ls ← walkFunction globals params body
    walkLambdas globals n (rest ++ ls)

/-- The number of pairs. -/
def Datum.pairs : Datum → Nat
  | .pair a d => a.pairs + d.pairs + 1
  | _ => 0

def walkProgram (program : Datum) : Except Halt Unit := do
  let names ← walkGlobals program
  let globals := names ++ ["write", "exit"]
  let ls ← walkDefuns globals program
  let ls' ← walkTop (fun name => decide (name ∈ globals)) program
  walkLambdas globals (2 * program.pairs) (ls ++ ls')

end MechanicalResearcher.PortableCompiler.Scheme
