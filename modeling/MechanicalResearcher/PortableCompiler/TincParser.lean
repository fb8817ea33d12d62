import MechanicalResearcher.PortableCompiler.Tinc
import MechanicalResearcher.PortableCompiler.TincLexer

/-!
# Expressions of TinC

`tinc/parse.c`, the expressions, over the tokens of the lexer; behind them the lexer gives
`T_EOF` for ever.  The functions call each other, and the first argument bounds the depth.
-/

namespace MechanicalResearcher.PortableCompiler.Tinc

/-- What ends the parser without a tree: `die`, or the bound of the depth. -/
inductive ParseStop
  | die (line : Nat) (msg : String)
  | deep
  deriving DecidableEq, Repr

/-- The tokens from `cur` on, and the line of the end of the text. -/
structure Parser where
  toks : List Token
  eofLine : Nat
  deriving DecidableEq, Repr

abbrev ParseM (α : Type) := StateT Parser (Except ParseStop) α

def cur : ParseM Token := fun s => .ok (s.toks.headD ⟨.eof, s.eofLine⟩, s)

def advance : ParseM Unit := fun s => .ok ((), { s with toks := s.toks.tail })

def parseDie {α : Type} (line : Nat) (msg : String) : ParseM α := fun _ => .error (.die line msg)

def deep {α : Type} : ParseM α := fun _ => .error .deep

def accept (k : Tok) : ParseM Bool := do
  if (← cur).tok = k then
    advance
    return true
  else return false

def expect (k : Tok) (what : String) : ParseM Unit := do
  let t ← cur
  if t.tok ≠ k then parseDie t.line ("expected " ++ what) else advance

/-- The unary operators that have a node. -/
def unop : Tok → Option UnOp
  | .minus => some .minus
  | .bang => some .bang
  | .tilde => some .tilde
  | .star => some .star
  | .amp => some .amp
  | _ => none

def binop : Tok → Option BinOp
  | .star => some .star
  | .slash => some .slash
  | .percent => some .percent
  | .plus => some .plus
  | .minus => some .minus
  | .shl => some .shl
  | .shr => some .shr
  | .lt => some .lt
  | .le => some .le
  | .gt => some .gt
  | .ge => some .ge
  | .eq => some .eq
  | .ne => some .ne
  | .amp => some .amp
  | .caret => some .caret
  | .pipe => some .pipe
  | .andand => some .andand
  | .oror => some .oror
  | _ => none

def BinOp.prec : BinOp → Nat
  | .star | .slash | .percent => 11
  | .plus | .minus => 10
  | .shl | .shr => 9
  | .lt | .le | .gt | .ge => 8
  | .eq | .ne => 7
  | .amp => 6
  | .caret => 5
  | .pipe => 4
  | .andand => 3
  | .oror => 2

/-- `binop_prec` -/
def binopPrec (k : Tok) : Int := ((binop k).map fun op => (op.prec : Int)).getD (-1)

mutual

def parsePrimary : Nat → ParseM Expr
  | 0 => deep
  | fuel + 1 => do
    let t ← cur
    match t.tok with
    | .number v => do
      advance
      return .num t.line v
    | .charlit v => do
      advance
      return .charlit t.line v
    | .string text => do
      advance
      return .str t.line text
    | .ident x => do
      advance
      return .name t.line x
    | .lparen => do
      advance
      let n ← parseExpr fuel
      expect .rparen ")"
      return n
    | _ => parseDie t.line "unexpected token in expression"

def parsePostfix : Nat → ParseM Expr
  | 0 => deep
  | fuel + 1 => do
    let n ← parsePrimary fuel
    postfixLoop fuel n

/-- The loop of `parse_postfix`. -/
def postfixLoop : Nat → Expr → ParseM Expr
  | 0, _ => deep
  | fuel + 1, n => do
    let t ← cur
    if t.tok = .lbrack then
      advance
      let idx ← parseExpr fuel
      expect .rbrack "]"
      postfixLoop fuel (.index t.line n idx)
    else if t.tok = .lparen then
      advance
      let args ← parseArgs fuel
      expect .rparen ")"
      postfixLoop fuel (.call t.line n args)
    else return n

/-- The arguments of a call, which may be none. -/
def parseArgs : Nat → ParseM Args
  | 0 => deep
  | fuel + 1 => do
    let t ← cur
    if t.tok ≠ .rparen then argsLoop fuel else return .nil

def argsLoop : Nat → ParseM Args
  | 0 => deep
  | fuel + 1 => do
    let arg ← parseAssign fuel
    if ← accept .comma then
      let rest ← argsLoop fuel
      return .cons arg rest
    else return .cons arg .nil

def parseUnary : Nat → ParseM Expr
  | 0 => deep
  | fuel + 1 => do
    let t ← cur
    if t.tok = .plus then
      advance
      parseUnary fuel
    else
      match unop t.tok with
      | some op => do
        advance
        let n ← parseUnary fuel
        return .unop t.line op n
      | none => parsePostfix fuel

def parseBinop : Nat → Int → ParseM Expr
  | 0, _ => deep
  | fuel + 1, minPrec => do
    let lhs ← parseUnary fuel
    binopLoop fuel minPrec lhs

/-- The loop of `parse_binop`; a token without a precedence ends it. -/
def binopLoop : Nat → Int → Expr → ParseM Expr
  | 0, _, _ => deep
  | fuel + 1, minPrec, lhs => do
    let t ← cur
    let prec := binopPrec t.tok
    if prec < minPrec then return lhs
    else
      match binop t.tok with
      | none => return lhs
      | some op => do
        advance
        let rhs ← parseBinop fuel (prec + 1)
        binopLoop fuel minPrec (.binop t.line op lhs rhs)

def parseAssign : Nat → ParseM Expr
  | 0 => deep
  | fuel + 1 => do
    let lhs ← parseBinop fuel 2
    let t ← cur
    if t.tok = .assign then
      advance
      let rhs ← parseAssign fuel
      return .assign t.line lhs rhs
    else return lhs

def parseExpr : Nat → ParseM Expr
  | 0 => deep
  | fuel + 1 => parseAssign fuel

end

end MechanicalResearcher.PortableCompiler.Tinc
