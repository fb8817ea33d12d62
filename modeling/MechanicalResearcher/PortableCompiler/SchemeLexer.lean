import MechanicalResearcher.PortableCompiler.Reader
import MechanicalResearcher.PortableCompiler.TincLexer

/-!
# The lexer of TinScheme

`scheme/lex.c`.  What `tinc/lex.c` has in the same form is taken from there.
-/

namespace MechanicalResearcher.PortableCompiler.SchemeText

open Lib Lib.Scanner Gc
open Tinc (ch newlineChar dquote squote backslash isDigit isAlpha isBlank inLine skipWhile hexDigit
  hexStep decStep hexPrefix hexByte)

def skipWsBody : ScanM (Option Unit) := do
  skipWhile isBlank
  let c ← peek 0
  if c = newlineChar then
    newline
    skip 1
    return some ()
  else if c = ch ';' then
    skipWhile inLine
    return some ()
  else return none

def skipWs : ScanM Unit := loop (fun _ => skipWsBody) ()

def symChars : List UInt8 :=
  ['!', '$', '%', '&', '*', '+', '-', '.', '/', ':', '<', '=', '>', '?', '_', '~', '^'].map ch

def isSymChar (c : UInt8) : Bool := isAlpha c || isDigit c || symChars.contains c

/-- A literal that `#` begins. -/
def hashLiteral : ScanM Kind := do
  skip 1
  let c ← peek 0
  if c = ch 't' ∨ c = ch 'f' then
    skip 1
    if isSymChar (← peek 0) then Scanner.die "bad # literal"
    else return if c = ch 't' then .true else .false
  else Scanner.die "unknown # literal"

def escapes : List (UInt8 × UInt8) :=
  [(ch 'n', 10), (ch 't', 9), (ch 'r', 13), (backslash, backslash), (dquote, dquote), (ch '0', 0)]

def stringBody (buf : List UInt8) : ScanM (Option (List UInt8)) := do
  let c ← peek 0
  if c = 0 ∨ c = dquote then return none
  else if c = backslash then
    skip 1
    let e ← peek 0
    match escapes.lookup e with
    | none => Scanner.die ("unknown escape \\" ++ String.singleton (Char.ofNat e.toNat))
    | some v => do
      skip 1
      return some (buf ++ [v])
  else if c = newlineChar then Scanner.die "newline in string"
  else
    skip 1
    return some (buf ++ [c])

def stringLiteral : ScanM Kind := do
  skip 1
  let data ← loop stringBody []
  if (← peek 0) ≠ dquote then Scanner.die "unterminated string"
  else
    skip 1
    return .str data

/-- The digits of a number; an overflow of the `long` wraps. -/
def magnitude : ScanM (BitVec 64) := do
  if ← hexPrefix then
    skip 2
    match hexDigit (← peek 0) with
    | none => Scanner.die "bad hex literal"
    | some _ => scanWhile hexStep 0
  else scanWhile decStep 0

def isSign (c : UInt8) : Bool := c == ch '-' || c == ch '+'

def number (c : UInt8) : ScanM Kind := do
  if isSign c then skip 1
  let n ← magnitude
  return .num (if c = ch '-' then -n else n).toInt

def symbolName : ScanM Kind := do
  let name ← scanWhile (fun cs c => if isSymChar c then some (cs ++ [c]) else none) []
  return .sym name

/-- `lex_one` behind the white space -/
def lexKind : ScanM Kind := do
  let c ← peek 0
  if c = 0 then return .eof
  else if c = ch '(' then
    skip 1
    return .lparen
  else if c = ch ')' then
    skip 1
    return .rparen
  else if c = squote then
    skip 1
    return .quote
  else if c = ch '#' then hashLiteral
  else if c = dquote then stringLiteral
  else if isDigit c then number c
  else
    let d ← peek 1
    if isSign c && isDigit d then number c
    else if c = ch '.' ∧ !isSymChar d then
      skip 1
      return .dot
    else if isSymChar c then symbolName
    else Scanner.die ("unexpected character 0x" ++ hexByte c)

def lexOne : ScanM Token := do
  skipWs
  let kind ← lexKind
  return ⟨kind, (← get).line⟩

/-- What `lex_one` gives, one call after another, up to the end of the text or a message; the
last argument is the line of the end. -/
inductive Lexes (file : String) : Cursor → List Token → Nat → Prop
  | eof {s s' : Cursor} {line : Nat} (h : lexOne s = .ok (⟨.eof, line⟩, s')) :
      Lexes file s [] line
  | bad {s : Cursor} {line : Nat} {msg : String} (h : lexOne s = .error (.die line msg)) :
      Lexes file s [⟨.bad s!"{file}:{line}: {msg}", line⟩] line
  | token {s s' : Cursor} {t : Token} {toks : List Token} {eofLine : Nat}
      (h : lexOne s = .ok (t, s')) (hkind : t.kind ≠ .eof) (hrest : Lexes file s' toks eofLine) :
      Lexes file s (t :: toks) eofLine

end MechanicalResearcher.PortableCompiler.SchemeText
