import MechanicalResearcher.PortableCompiler.Ir

/-!
# Lowering of TinC

`tinc/lower.c`, from the tree of the parser to the intermediate code.  The static variables of
the source are the state `Lowering`, and `die` is an exception with its message.

`lower_expr`, `lower_addr` and `lower_cond` call each other on the same node, so a node has the
three results together (`Expr.lower`), and the three functions are its components.
-/

namespace MechanicalResearcher.PortableCompiler.Tinc

/-- `T_INT` or `T_CHAR` as a base type -/
inductive Ty
  | int | char
  deriving DecidableEq, Repr

inductive UnOp
  | minus | bang | tilde | star | amp
  deriving DecidableEq, Repr

inductive BinOp
  | plus | minus | star | slash | percent
  | amp | pipe | caret | shl | shr
  | eq | ne | lt | le | gt | ge
  | andand | oror
  deriving DecidableEq, Repr

mutual

/-- The nodes of expressions, each with its line. -/
inductive Expr
  | num (line : Nat) (v : Int)
  | charlit (line : Nat) (v : Int)
  | str (line : Nat) (text : List UInt8)
  | name (line : Nat) (x : String)
  | index (line : Nat) (a b : Expr)
  | unop (line : Nat) (op : UnOp) (a : Expr)
  | binop (line : Nat) (op : BinOp) (a b : Expr)
  | assign (line : Nat) (a b : Expr)
  | call (line : Nat) (f : Expr) (args : Args)

inductive Args
  | nil
  | cons (a : Expr) (next : Args)

end

/-- A declaration of a variable; an array without a size has `arrSize = -1`. -/
structure Decl where
  name : String
  baseType : Ty
  isPtr : Bool
  arrSize : Int
  deriving DecidableEq, Repr

mutual

inductive Stmt
  | block (decls : List Decl) (body : Stmts)
  | exprStmt (a : Expr)
  | empty
  | ifThen (test : Expr) (thenPart : Stmt)
  | ifElse (test : Expr) (thenPart elsePart : Stmt)
  | loop (test : Expr) (body : Stmt)
  | brk (line : Nat)
  | cont (line : Nat)
  | ret
  | retv (a : Expr)

inductive Stmts
  | nil
  | cons (s : Stmt) (next : Stmts)

end

structure Param where
  name : String
  baseType : Ty
  isPtr : Bool
  deriving DecidableEq, Repr

structure FuncDecl where
  name : String
  params : List Param
  decls : List Decl
  body : Stmts

structure Gsym where
  name : String
  isFunc : Bool
  baseType : Ty
  isArray : Bool
  isPtr : Bool
  deriving DecidableEq, Repr

structure Lsym where
  name : String
  slot : Nat
  baseType : Ty
  isArray : Bool
  isPtr : Bool
  arrSize : Int
  deriving DecidableEq, Repr

structure Loop where
  brk : Nat
  cont : Nat
  deriving DecidableEq, Repr

/-- The string that a literal becomes, with its name. -/
structure StrGlobal where
  name : String
  bytes : List UInt8
  deriving DecidableEq, Repr

structure Lowering where
  fn : Func
  lsyms : List Lsym := []
  slotSizes : List Int := []
  gsyms : List Gsym := []
  loops : List Loop := []
  strctr : Nat := 0
  strs : List StrGlobal := []

abbrev LowerM := StateT Lowering (Except String)

def die {α : Type} (msg : String) : LowerM α := throw msg

def newTemp : LowerM Nat := do
  let s ← get
  set { s with fn := (irNewTemp s.fn).1 }
  return (irNewTemp s.fn).2

def newLabel : LowerM Nat := do
  let s ← get
  set { s with fn := (irNewLabel s.fn).1 }
  return (irNewLabel s.fn).2

def emit (i : Insn) : LowerM Unit := modify fun s => { s with fn := irEmit s.fn i }

/-- The instruction `i` with a new temp as its destination. -/
def emitDst (i : Insn) : LowerM Nat := do
  let t ← newTemp
  emit { i with dst := some t }
  return t

def findGsym (s : Lowering) (name : String) : Option Gsym := s.gsyms.find? (·.name == name)

/-- The last symbol of the name. -/
def findLsym (s : Lowering) (name : String) : Option Lsym :=
  s.lsyms.reverse.find? (·.name == name)

def allocSlot (bytes : Int) : LowerM Nat := do
  let s ← get
  set { s with slotSizes := s.slotSizes ++ [bytes] }
  return s.slotSizes.length

def addLsym (ls : Lsym) : LowerM Unit := modify fun s => { s with lsyms := s.lsyms ++ [ls] }

structure Val where
  temp : Nat
  baseType : Ty
  isPtr : Bool
  isArray : Bool
  deriving DecidableEq, Repr

def mkval (temp : Nat) (bt : Ty) (isPtr : Bool) : Val := ⟨temp, bt, isPtr, false⟩

def elemWidth (v : Val) : Int :=
  if (v.isPtr || v.isArray) && v.baseType == .char then 1 else 4

structure Addr where
  temp : Nat
  baseType : Ty
  deriving DecidableEq, Repr

def binOpForTok : BinOp → Option Op
  | .plus => some .add
  | .minus => some .sub
  | .star => some .mul
  | .slash => some .divs
  | .percent => some .mods
  | .amp => some .and
  | .pipe => some .or
  | .caret => some .xor
  | .shl => some .shl
  | .shr => some .shrs
  | .eq => some .cmpeq
  | .ne => some .cmpne
  | .lt => some .cmplts
  | .le => some .cmples
  | .gt => some .cmpgts
  | .ge => some .cmpges
  | .andand | .oror => none

def lowerConst (v : Int) : LowerM Nat := emitDst { op := .lic, imm := v }

def emitLabel (lab : Nat) : LowerM Unit := emit { op := .label, label := some lab }

def emitJmp (lab : Nat) : LowerM Unit := emit { op := .jmp, label := some lab }

def emitBnz (t lab : Nat) : LowerM Unit := emit { op := .bnz, a := some t, label := some lab }

def loadOp (bt : Ty) : Op := if bt = .char then .lb else .lw

/-! ## Expressions -/

/-- The results of `lower_expr`, `lower_addr` and `lower_cond` on one node. -/
structure Lowered where
  expr : LowerM Val
  addr : LowerM Addr
  cond : Nat → Nat → LowerM Unit

def notLvalue (line : Nat) : LowerM Addr := die s!"lower:{line}: not an lvalue"

/-- The last case of `lower_cond`. -/
def lowerTest (expr : LowerM Val) (ltrue lfalse : Nat) : LowerM Unit := do
  let v ← expr
  emitBnz v.temp ltrue
  emitJmp lfalse

/-- A node that is neither an lvalue nor a condition of its own. -/
def plain (line : Nat) (expr : LowerM Val) : Lowered := ⟨expr, notLvalue line, lowerTest expr⟩

def lowerShortcircuit (cond : Nat → Nat → LowerM Unit) : LowerM Val := do
  let ltrue ← newLabel
  let lfalse ← newLabel
  let lend ← newLabel
  cond ltrue lfalse
  emitLabel ltrue
  let t ← newTemp
  emit { op := .lic, dst := some t, imm := 1 }
  emitJmp lend
  emitLabel lfalse
  emit { op := .lic, dst := some t, imm := 0 }
  emitLabel lend
  return mkval t .int false

def lowerStr (text : List UInt8) : LowerM Val := do
  let s ← get
  let name := s!"__str_{s.strctr}"
  set { s with
    strctr := s.strctr + 1
    strs := StrGlobal.mk name (text ++ [0]) :: s.strs
    gsyms := s.gsyms ++ [Gsym.mk name false .char true false] }
  let t ← emitDst { op := .lea, sym := name }
  return mkval t .char true

def nameExpr (line : Nat) (x : String) : LowerM Val := do
  let s ← get
  match findLsym s x with
  | some ls =>
    if ls.isArray then
      let t ← emitDst { op := .adl, slot := some ls.slot }
      return ⟨t, ls.baseType, true, true⟩
    else
      let t ← emitDst { op := .ldl, slot := some ls.slot }
      return mkval t ls.baseType ls.isPtr
  | none =>
    match findGsym s x with
    | none => die s!"lower:{line}: undefined '{x}'"
    | some gs =>
      let taddr ← emitDst { op := .lea, sym := x }
      if gs.isFunc then return mkval taddr .int true
      else if gs.isArray then return ⟨taddr, gs.baseType, true, true⟩
      else
        let t ← emitDst { op := loadOp gs.baseType, a := some taddr }
        return mkval t gs.baseType gs.isPtr

def nameAddr (line : Nat) (x : String) : LowerM Addr := do
  let s ← get
  match findLsym s x with
  | some ls =>
    let t ← emitDst { op := .adl, slot := some ls.slot }
    return ⟨t, ls.baseType⟩
  | none =>
    match findGsym s x with
    | none => die s!"lower:{line}: undefined '{x}'"
    | some gs =>
      let t ← emitDst { op := .lea, sym := x }
      return ⟨t, gs.baseType⟩

/-- An index times the width of an element. -/
def scale (w : Int) (t : Nat) : LowerM Nat :=
  if w = 1 then return t
  else do
    let tmul ← lowerConst w
    emitDst { op := .mul, a := some t, b := some tmul }

def indexAddr (a b : LowerM Val) : LowerM Addr := do
  let av ← a
  let iv ← b
  let ti ← scale (elemWidth av) iv.temp
  let tadd ← emitDst { op := .add, a := some av.temp, b := some ti }
  return ⟨tadd, av.baseType⟩

def load (bt : Ty) (taddr : Nat) : LowerM Val := do
  let t ← emitDst { op := loadOp bt, a := some taddr }
  return mkval t bt false

/-- The comparison of `!` is emitted before the constant that it reads. -/
def lowerBang (a : LowerM Val) : LowerM Val := do
  let l ← a
  let t ← newTemp
  let z ← newTemp
  emit { op := .cmpeq, dst := some t, a := some l.temp, b := some z }
  emit { op := .lic, dst := some z, imm := 0 }
  return mkval t .int false

def lowerUnop (op : UnOp) (a : Lowered) : LowerM Val :=
  match op with
  | .star => do
    let l ← a.expr
    load l.baseType l.temp
  | .amp => do
    let ad ← a.addr
    return mkval ad.temp ad.baseType true
  | .minus => do
    let l ← a.expr
    let t ← emitDst { op := .neg, a := some l.temp }
    return mkval t .int false
  | .tilde => do
    let l ← a.expr
    let t ← emitDst { op := .not, a := some l.temp }
    return mkval t .int false
  | .bang => lowerBang a.expr

def starAddr (a : LowerM Val) : LowerM Addr := do
  let av ← a
  return ⟨av.temp, av.baseType⟩

def Val.pointer (v : Val) : Bool := v.isPtr || v.isArray

def BinOp.isSum (op : BinOp) : Bool := op == .plus || op == .minus

/-- The right operand of a sum with a pointer counts elements. -/
def scaleSum (op : BinOp) (l r : Val) : LowerM Nat :=
  if op.isSum && l.pointer && !r.pointer then scale (elemWidth l) r.temp else pure r.temp

def lowerBinop (line : Nat) (op : BinOp) (a b : LowerM Val) : LowerM Val := do
  let l ← a
  let r ← b
  let tr ← scaleSum op l r
  match binOpForTok op with
  | none => die s!"lower:{line}: bad binop"
  | some irOp =>
    let t ← emitDst { op := irOp, a := some l.temp, b := some tr }
    return if op.isSum && l.pointer then mkval t l.baseType true else mkval t .int false

def condAnd (a b : Nat → Nat → LowerM Unit) (ltrue lfalse : Nat) : LowerM Unit := do
  let lmid ← newLabel
  a lmid lfalse
  emitLabel lmid
  b ltrue lfalse

def condOr (a b : Nat → Nat → LowerM Unit) (ltrue lfalse : Nat) : LowerM Unit := do
  let lmid ← newLabel
  a ltrue lmid
  emitLabel lmid
  b ltrue lfalse

/-- The name of an `N_NAME`. -/
def Expr.nameOf : Expr → Option String
  | .name _ x => some x
  | _ => none

/-- Whether a store through the address of `x` is a store of a byte. -/
def isByte (s : Lowering) (x : Option String) (bt : Ty) : Bool :=
  match x with
  | none => bt == .char
  | some x =>
    match findLsym s x, findGsym s x with
    | none, some gs => if gs.isArray then bt == .char else gs.baseType == .char
    | _, _ => bt == .char

def lowerAssign (x : Option String) (a : LowerM Addr) (b : LowerM Val) : LowerM Val := do
  let r ← b
  let s ← get
  match (x.bind (findLsym s)).filter fun ls => !ls.isArray with
  | some ls =>
    emit { op := .stl, a := some r.temp, slot := some ls.slot }
    return r
  | none =>
    let ad ← a
    let s ← get
    emit { op := if isByte s x ad.baseType then .sb else .sw, a := some ad.temp, b := some r.temp }
    return r

def lowerMark : LowerM Val := do
  let slot ← allocSlot 12
  let lmark ← newLabel
  let t ← emitDst { op := .mark, slot := some slot, label := some lmark }
  return mkval t .int false

def lowerCapture : LowerM Val := do
  let t ← emitDst { op := .capture }
  return mkval t .int false

/-- The arguments from number `i` on. -/
def emitArgs (i : Nat) : List Nat → LowerM Unit
  | [] => return
  | t :: args => do
    emit { op := .arg, a := some t, imm := i }
    emitArgs (i + 1) args

/-- A call; `x` is the name of the function when it is called by name. -/
def lowerCall (x : Option String) (f : LowerM Val) (args : LowerM (List Nat)) : LowerM Val := do
  let ts ← args
  emitArgs 0 ts
  match x with
  | some name =>
    let t ← emitDst { op := .call, sym := name, nargs := ts.length }
    return mkval t .int false
  | none =>
    let fv ← f
    let t ← emitDst { op := .calli, a := some fv.temp, nargs := ts.length }
    return mkval t .int false

mutual

def Expr.lower : Expr → Lowered
  | .num line v => plain line do return mkval (← lowerConst v) .int false
  | .charlit line v => plain line do return mkval (← lowerConst v) .int false
  | .str line text => plain line (lowerStr text)
  | .name line x => { plain line (nameExpr line x) with addr := nameAddr line x }
  | .index line a b =>
    let addr := indexAddr (Expr.lower a).expr (Expr.lower b).expr
    { plain line (do let ad ← addr; load ad.baseType ad.temp) with addr := addr }
  | .unop line op a =>
    let node := plain line (lowerUnop op (Expr.lower a))
    match op with
    | .star => { node with addr := starAddr (Expr.lower a).expr }
    | .bang => { node with cond := fun ltrue lfalse => (Expr.lower a).cond lfalse ltrue }
    | _ => node
  | .binop line op a b =>
    match op with
    | .andand =>
      let cond := condAnd (Expr.lower a).cond (Expr.lower b).cond
      { plain line (lowerShortcircuit cond) with cond := cond }
    | .oror =>
      let cond := condOr (Expr.lower a).cond (Expr.lower b).cond
      { plain line (lowerShortcircuit cond) with cond := cond }
    | op => plain line (lowerBinop line op (Expr.lower a).expr (Expr.lower b).expr)
  | .assign line a b =>
    plain line (lowerAssign a.nameOf (Expr.lower a).addr (Expr.lower b).expr)
  | .call line f args =>
    plain line <|
      if f.nameOf = some "__mark" then lowerMark
      else if f.nameOf = some "__capture" then lowerCapture
      else if f.nameOf = some "__resume" then lowerResume args
      else lowerCall f.nameOf (Expr.lower f).expr (lowerArgs 0 args)

/-- The temps of the arguments; `nargs` were lowered before. -/
def lowerArgs (nargs : Nat) : Args → LowerM (List Nat)
  | .nil => return []
  | .cons a next => do
    let av ← (Expr.lower a).expr
    if nargs ≥ 16 then die "lower: too many args"
    else
      let ts ← lowerArgs (nargs + 1) next
      return av.temp :: ts

def lowerResume : Args → LowerM Val
  | .cons a (.cons b _) => do
    let buf ← (Expr.lower a).expr
    let val ← (Expr.lower b).expr
    emit { op := .resume, a := some buf.temp, b := some val.temp }
    return mkval 0 .int false
  | _ => die "__resume requires 2 args"

end

def lowerExpr (n : Expr) : LowerM Val := n.lower.expr

def lowerCond (n : Expr) (ltrue lfalse : Nat) : LowerM Unit := n.lower.cond ltrue lfalse

/-! ## Statements -/

/-- `while(1)` has no test. -/
def Expr.forever : Expr → Bool
  | .num _ v => v ≠ 0
  | _ => false

def loopTest (test : Expr) (lbrk : Nat) : LowerM Unit :=
  if test.forever then return
  else do
    let lbody ← newLabel
    lowerCond test lbody lbrk
    emitLabel lbody

/-- The body of a loop, with the loop on the stack. -/
def inLoop (l : Loop) (body : LowerM Unit) : LowerM Unit := do
  let s ← get
  if s.loops.length ≥ 64 then die "lower: nested loops too deep"
  else
    set { s with loops := l :: s.loops }
    body
    modify fun s => { s with loops := s.loops.tail }

mutual

def lowerStmt : Stmt → LowerM Unit
  | .block _ body => lowerStmts body
  | .exprStmt a => do
    let _ ← lowerExpr a
  | .empty => return
  | .ifThen test thenPart => do
    let ltrue ← newLabel
    let lfalse ← newLabel
    let _lend ← newLabel
    lowerCond test ltrue lfalse
    emitLabel ltrue
    lowerStmt thenPart
    emitLabel lfalse
  | .ifElse test thenPart elsePart => do
    let ltrue ← newLabel
    let lfalse ← newLabel
    let lend ← newLabel
    lowerCond test ltrue lfalse
    emitLabel ltrue
    lowerStmt thenPart
    emitJmp lend
    emitLabel lfalse
    lowerStmt elsePart
    emitLabel lend
  | .loop test body => do
    let ltop ← newLabel
    let lbrk ← newLabel
    emitLabel ltop
    loopTest test lbrk
    inLoop ⟨lbrk, ltop⟩ (lowerStmt body)
    emitJmp ltop
    emitLabel lbrk
  | .brk line => do
    let s ← get
    match s.loops with
    | [] => die s!"lower:{line}: break outside loop"
    | l :: _ => emitJmp l.brk
  | .cont line => do
    let s ← get
    match s.loops with
    | [] => die s!"lower:{line}: continue outside loop"
    | l :: _ => emitJmp l.cont
  | .ret => emit { op := .ret }
  | .retv a => do
    let v ← lowerExpr a
    emit { op := .retv, a := some v.temp }

def lowerStmts : Stmts → LowerM Unit
  | .nil => return
  | .cons s next => do
    lowerStmt s
    lowerStmts next

end

/-! ## Functions -/

def addParams : List Param → LowerM Unit
  | [] => return
  | p :: params => do
    let slot ← allocSlot 4
    addLsym ⟨p.name, slot, p.baseType, false, p.isPtr, 0⟩
    addParams params

def declBytes (d : Decl) : Int :=
  if d.arrSize > 0 then max 1 (d.arrSize * if d.baseType = .char then 1 else 4) else 4

/-- Only the declarations of the outermost block are collected. -/
def collectLocalDecls : List Decl → LowerM Unit
  | [] => return
  | d :: decls => do
    let slot ← allocSlot (declBytes d)
    addLsym ⟨d.name, slot, d.baseType, d.arrSize > 0, d.isPtr, d.arrSize⟩
    collectLocalDecls decls

/-- Whether the function ends in a return. -/
def endsInReturn (code : List Insn) : Bool :=
  match code.getLast? with
  | some i => i.op == .ret || i.op == .retv
  | none => false

/-- A body that does not end in a return returns 0. -/
def finish : LowerM Unit := do
  let s ← get
  if endsInReturn s.fn.code then return
  else
    let z ← lowerConst 0
    emit { op := .retv, a := some z }

def lowerFunction (f : FuncDecl) : LowerM Func := do
  modify fun s => { s with fn := irNewFunc f.name, loops := [], lsyms := [], slotSizes := [] }
  addParams f.params
  modify fun s => { s with fn := { s.fn with nparams := f.params.length } }
  collectLocalDecls f.decls
  emit { op := .func, sym := f.name, nargs := f.params.length }
  lowerStmts f.body
  finish
  emit { op := .endf }
  let s ← get
  return { s.fn with slotSize := s.slotSizes.map Int.toNat }

/-! ## Runs of the lowering -/

theorem bind_eq_ok {α β : Type} {x : LowerM α} {f : α → LowerM β} {s s' : Lowering} {r : β} :
    (x >>= f) s = .ok (r, s') ↔ ∃ a s1, x s = .ok (a, s1) ∧ f a s1 = .ok (r, s') := by
  simp only [bind, StateT.bind, Except.bind]
  cases h : x s with
  | error e => simp
  | ok p => exact ⟨fun h => ⟨p.1, p.2, rfl, h⟩, fun ⟨a, s1, ha, hf⟩ => by cases ha; exact hf⟩

theorem pure_eq_ok {α : Type} {a r : α} {s s' : Lowering} :
    (pure a : LowerM α) s = .ok (r, s') ↔ r = a ∧ s' = s := by
  show Except.ok (a, s) = Except.ok (r, s') ↔ _
  simp [eq_comm]

theorem get_bind {α : Type} {f : Lowering → LowerM α} {s : Lowering} :
    ((get : LowerM Lowering) >>= f) s = f s s := rfl

theorem set_bind {α : Type} {f : Unit → LowerM α} {s s' : Lowering} :
    ((set s' : LowerM Unit) >>= f) s = f () s' := rfl

/-- The state with `seg` emitted, `k` new temps and `l` new labels. -/
def Lowering.push (s : Lowering) (seg : List Insn) (k l : Nat) : Lowering :=
  { s with fn := { s.fn with
      code := s.fn.code ++ seg
      ntemps := s.fn.ntemps + k
      nlabels := s.fn.nlabels + l } }

@[simp] theorem push_push (s : Lowering) (seg seg' : List Insn) (k k' l l' : Nat) :
    (s.push seg k l).push seg' k' l' = s.push (seg ++ seg') (k + k') (l + l') := by
  simp [Lowering.push, Nat.add_assoc]

@[simp] theorem push_ntemps (s : Lowering) (seg : List Insn) (k l : Nat) :
    (s.push seg k l).fn.ntemps = s.fn.ntemps + k := rfl

@[simp] theorem push_nlabels (s : Lowering) (seg : List Insn) (k l : Nat) :
    (s.push seg k l).fn.nlabels = s.fn.nlabels + l := rfl

theorem newLabel_eq_ok {s s' : Lowering} {l : Nat} :
    newLabel s = .ok (l, s') ↔ l = s.fn.nlabels ∧ s' = s.push [] 0 1 := by
  rw [newLabel, get_bind, set_bind, pure_eq_ok]
  simp [Lowering.push, irNewLabel]

theorem newTemp_eq_ok {s s' : Lowering} {t : Nat} :
    newTemp s = .ok (t, s') ↔ t = s.fn.ntemps ∧ s' = s.push [] 1 0 := by
  rw [newTemp, get_bind, set_bind, pure_eq_ok]
  simp [Lowering.push, irNewTemp]

theorem emit_eq_ok {i : Insn} {s s' : Lowering} {r : Unit} :
    emit i s = .ok (r, s') ↔ s' = s.push [i] 0 0 := by
  simp [emit, modify, modifyGet, MonadStateOf.modifyGet, StateT.modifyGet, pure, Except.pure,
    Lowering.push, irEmit, eq_comm]

theorem emitDst_eq_ok {i : Insn} {s s' : Lowering} {t : Nat} :
    emitDst i s = .ok (t, s') ↔
      t = s.fn.ntemps ∧ s' = s.push [{ i with dst := some s.fn.ntemps }] 1 0 := by
  unfold emitDst
  simp only [bind_eq_ok, newTemp_eq_ok, emit_eq_ok, pure_eq_ok]
  constructor
  · rintro ⟨_, _, ⟨rfl, rfl⟩, _, _, rfl, rfl, rfl⟩
    exact ⟨rfl, by simp [Lowering.push]⟩
  · rintro ⟨rfl, rfl⟩
    exact ⟨_, _, ⟨rfl, rfl⟩, (), _, rfl, rfl, by simp [Lowering.push]⟩

/-- The code behind the condition of `lower_shortcircuit`. -/
def shortTail (ltrue lfalse lend t : Nat) : List Insn :=
  [{ op := .label, label := some ltrue }, { op := .lic, dst := some t, imm := 1 },
    { op := .jmp, label := some lend }, { op := .label, label := some lfalse },
    { op := .lic, dst := some t, imm := 0 }, { op := .label, label := some lend }]

theorem lowerShortcircuit_eq_ok {cond : Nat → Nat → LowerM Unit} {s s' : Lowering} {v : Val}
    (h : lowerShortcircuit cond s = .ok (v, s')) :
    ∃ s1, cond s.fn.nlabels (s.fn.nlabels + 1) (s.push [] 0 3) = .ok ((), s1) ∧
      v = mkval s1.fn.ntemps .int false ∧
      s' = s1.push (shortTail s.fn.nlabels (s.fn.nlabels + 1) (s.fn.nlabels + 2) s1.fn.ntemps)
        1 0 := by
  unfold lowerShortcircuit emitLabel emitJmp at h
  simp only [bind_eq_ok, newLabel_eq_ok, newTemp_eq_ok, emit_eq_ok, pure_eq_ok] at h
  obtain ⟨_, _, ⟨rfl, rfl⟩, _, _, ⟨rfl, rfl⟩, _, _, ⟨rfl, rfl⟩, _, s1, hc, _, _, rfl, _, _,
    ⟨rfl, rfl⟩, _, _, rfl, _, _, rfl, _, _, rfl, _, _, rfl, _, _, rfl, rfl, rfl⟩ := h
  refine ⟨s1, ?_, rfl, by simp [shortTail]⟩
  rw [push_push, push_push] at hc
  exact hc

end MechanicalResearcher.PortableCompiler.Tinc
