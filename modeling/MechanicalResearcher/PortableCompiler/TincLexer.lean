import MechanicalResearcher.Lib.Scanner

/-!
# The TinC lexer

`tinc/lex.c`.  A message of `die` is for a line of `src_file`.  Nothing calls `lex_peek`, so that
each call of `lex_next` is one of `lex_one`.
-/

namespace MechanicalResearcher.PortableCompiler.Tinc

open Lib Lib.Scanner

/-- `enum tok`, with the `nval` or `sval` of the kinds that have one. -/
inductive Tok
  | eof
  | int | char | ifKw | elseKw | whileKw | breakKw | continueKw | returnKw
  | ident (name : String)
  | number (n : Int)
  | string (text : List UInt8)
  | charlit (n : Int)
  | lparen | rparen | lbrace | rbrace | lbrack | rbrack
  | comma | semi | assign
  | plus | minus | star | slash | percent
  | amp | pipe | caret | tilde | bang
  | andand | oror
  | eq | ne | lt | le | gt | ge
  | shl | shr
  deriving DecidableEq, Repr

structure Token where
  tok : Tok
  line : Nat
  deriving DecidableEq, Repr

def ch (c : Char) : UInt8 := c.toNat.toUInt8

def newlineChar : UInt8 := 10

def dquote : UInt8 := 34

def squote : UInt8 := 39

def backslash : UInt8 := 92

def isDigit (c : UInt8) : Bool := ch '0' ≤ c && c ≤ ch '9'

def isAlpha (c : UInt8) : Bool :=
  (ch 'a' ≤ c && c ≤ ch 'z') || (ch 'A' ≤ c && c ≤ ch 'Z')

/-- A character of an identifier behind the first. -/
def isWord (c : UInt8) : Bool := isAlpha c || isDigit c || c == ch '_'

def keywords : List (String × Tok) :=
  [("int", .int), ("char", .char), ("if", .ifKw), ("else", .elseKw), ("while", .whileKw),
    ("break", .breakKw), ("continue", .continueKw), ("return", .returnKw)]

def isBlank (c : UInt8) : Bool := c == ch ' ' || c == 9 || c == 13

/-- A character of a comment behind `//`. -/
def inLine (c : UInt8) : Bool := c != 0 && c != newlineChar

/-- A loop that only moves the pointer. -/
def skipWhile (p : UInt8 → Bool) : ScanM Unit :=
  scanWhile (fun _ c => if p c then some () else none) ()

def commentChar (c : UInt8) : ScanM (Option Unit) := do
  if c = newlineChar then newline
  skip 1
  return some ()

/-- The loop of a comment that `/*` began. -/
def commentBody : ScanM (Option Unit) := do
  let c ← peek 0
  if c = 0 then return none
  else if c = ch '*' then
    let d ← peek 1
    if d = ch '/' then return none else commentChar c
  else commentChar c

def comment : ScanM Unit := do
  loop (fun _ => commentBody) ()
  if (← peek 0) ≠ 0 then skip 2

def skipWsBody : ScanM (Option Unit) := do
  skipWhile isBlank
  let c ← peek 0
  if c = newlineChar then
    newline
    skip 1
    return some ()
  else if c = ch '/' then
    let d ← peek 1
    if d = ch '/' then
      skipWhile inLine
      return some ()
    else if d = ch '*' then
      skip 2
      comment
      return some ()
    else return none
  else return none

def skipWs : ScanM Unit := loop (fun _ => skipWsBody) ()

def hexDigit (c : UInt8) : Option UInt8 :=
  if ch '0' ≤ c ∧ c ≤ ch '9' then some (c - ch '0')
  else if ch 'a' ≤ c ∧ c ≤ ch 'f' then some (10 + (c - ch 'a'))
  else if ch 'A' ≤ c ∧ c ≤ ch 'F' then some (10 + (c - ch 'A'))
  else none

/-- The escapes of one character. -/
def escapes : List (UInt8 × UInt8) :=
  [(ch 'n', 10), (ch 't', 9), (ch 'r', 13), (ch '0', 0), (backslash, backslash),
    (squote, squote), (dquote, dquote)]

def hexEscape : ScanM UInt8 := do
  match hexDigit (← peek 0) with
  | none => Scanner.die "bad \\x escape"
  | some h1 => do
    skip 1
    match hexDigit (← peek 0) with
    | none => return h1
    | some h2 => do
      skip 1
      return h1 <<< 4 ||| h2

/-- `read_escape`, behind the backslash -/
def readEscape : ScanM UInt8 := do
  let c ← peek 0
  skip 1
  match escapes.lookup c with
  | some v => return v
  | none =>
    if c = ch 'x' then hexEscape
    else Scanner.die ("unknown escape \\" ++ String.singleton (Char.ofNat c.toNat))

def identifier : ScanM Tok := do
  let chars ← scanWhile (fun cs c => if isWord c then some (cs ++ [c]) else none) []
  let name := String.ofList (chars.map fun c => Char.ofNat c.toNat)
  return (keywords.lookup name).getD (.ident name)

/-- `long` arithmetic; an overflow wraps. -/
def hexStep (n : BitVec 64) (c : UInt8) : Option (BitVec 64) :=
  (hexDigit c).map fun d => n <<< 4 ||| BitVec.ofNat 64 d.toNat

def decStep (n : BitVec 64) (c : UInt8) : Option (BitVec 64) :=
  if isDigit c then some (n * 10 + BitVec.ofNat 64 (c - ch '0').toNat) else none

/-- `p[0] == '0' && (p[1] == 'x' || p[1] == 'X')` -/
def hexPrefix : ScanM Bool := do
  if (← peek 0) = ch '0' then
    let d ← peek 1
    return d == ch 'x' || d == ch 'X'
  else return false

def number : ScanM Tok := do
  if ← hexPrefix then
    skip 2
    match hexDigit (← peek 0) with
    | none => Scanner.die "bad hex literal"
    | some _ => do
      let n ← scanWhile hexStep 0
      return .number n.toInt
  else
    let n ← scanWhile decStep 0
    return .number n.toInt

def charValue : ScanM UInt8 := do
  let c ← peek 0
  if c = backslash then
    skip 1
    readEscape
  else
    skip 1
    return c

def charLiteral : ScanM Tok := do
  skip 1
  let n ← charValue
  if (← peek 0) ≠ squote then Scanner.die "unterminated char literal"
  else
    skip 1
    return .charlit n.toNat

def stringBody (buf : List UInt8) : ScanM (Option (List UInt8)) := do
  let c ← peek 0
  if c = 0 ∨ c = dquote then return none
  else if c = backslash then
    skip 1
    let v ← readEscape
    return some (buf ++ [v])
  else if c = newlineChar then Scanner.die "newline in string"
  else
    skip 1
    return some (buf ++ [c])

def stringLiteral : ScanM Tok := do
  skip 1
  let text ← loop stringBody []
  if (← peek 0) ≠ dquote then Scanner.die "unterminated string"
  else
    skip 1
    return .string text

/-- The tokens that begin with a character: what may follow it, and the token of it alone. -/
def operators : List (UInt8 × List (UInt8 × Tok) × Tok) :=
  [(ch '(', [], .lparen), (ch ')', [], .rparen), (ch '{', [], .lbrace), (ch '}', [], .rbrace),
    (ch '[', [], .lbrack), (ch ']', [], .rbrack), (ch ',', [], .comma), (ch ';', [], .semi),
    (ch '~', [], .tilde), (ch '*', [], .star), (ch '/', [], .slash), (ch '%', [], .percent),
    (ch '^', [], .caret),
    (ch '=', [(ch '=', .eq)], .assign),
    (ch '!', [(ch '=', .ne)], .bang),
    (ch '<', [(ch '=', .le), (ch '<', .shl)], .lt),
    (ch '>', [(ch '=', .ge), (ch '>', .shr)], .gt),
    (ch '&', [(ch '&', .andand)], .amp),
    (ch '|', [(ch '|', .oror)], .pipe),
    (ch '+', [], .plus), (ch '-', [], .minus)]

/-- `%02x` -/
def hexByte (c : UInt8) : String :=
  String.ofList [Nat.digitChar (c.toNat / 16), Nat.digitChar (c.toNat % 16)]

def operator (c : UInt8) : ScanM Tok :=
  match operators.lookup c with
  | none => Scanner.die ("unexpected character 0x" ++ hexByte c)
  | some (next, tok) => do
    skip 1
    if next = [] then return tok
    else
      match next.lookup (← peek 0) with
      | none => return tok
      | some tok' => do
        skip 1
        return tok'

/-- `lex_one` behind the white space -/
def lexToken : ScanM Tok := do
  let c ← peek 0
  if c = 0 then return .eof
  else if isAlpha c ∨ c = ch '_' then identifier
  else if isDigit c then number
  else if c = squote then charLiteral
  else if c = dquote then stringLiteral
  else operator c

def lexOne : ScanM Token := do
  skipWs
  let tok ← lexToken
  return ⟨tok, (← get).line⟩

def lexInit (src : List UInt8) : Cursor := ⟨src, 1⟩

end MechanicalResearcher.PortableCompiler.Tinc
