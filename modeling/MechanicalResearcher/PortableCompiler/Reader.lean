import MechanicalResearcher.PortableCompiler.Collect

/-!
# The reader

`scheme/parse.c` over the tokens of the lexer.  The local variables that the source registers
are cells of the root stack; `elem`, `form` and `cell` are registered before they are assigned.

`steps` records each allocation with the heap that `gc_alloc` sees and the number of lists that
are open and have no cell yet.
-/

namespace MechanicalResearcher.PortableCompiler.Gc

/-- `TOK_*`; `bad` is a text on which the lexer stops with a message. -/
inductive Kind
  | eof | lparen | rparen | dot | quote
  | num (n : Int)
  | str (data : List UInt8)
  | sym (data : List UInt8)
  | true | false
  | bad (msg : String)
  deriving DecidableEq, Repr

structure Token where
  kind : Kind
  line : Nat
  deriving DecidableEq, Repr

/-- An allocation. -/
structure Step where
  heap : Heap
  waiting : Nat

structure Reader where
  heap : Heap
  toks : List Token
  eofLine : Nat := 0
  waiting : Nat := 0
  steps : List Step := []

abbrev ReadM := ExceptT Stop (StateM Reader)

def die {α : Type} (line : Nat) (msg : String) : ReadM α :=
  throw (.exit s!"<input>:{line}: {msg}")

def lexPeek : ReadM Token := do
  let r ← get
  match r.toks with
  | [] => return ⟨.eof, r.eofLine⟩
  | t :: _ =>
    match t.kind with
    | .bad msg => throw (.exit msg)
    | _ => return t

def lexNext : ReadM Token := do
  let t ← lexPeek
  modify fun r => { r with toks := r.toks.tail }
  return t

def pushCell (c : Option Val) : ReadM Unit := do
  let r ← get
  match gcPush c r.heap with
  | .ok h => set { r with heap := h }
  | .error e => throw e

def popCells (n : Nat) : ReadM Unit := modify fun r => { r with heap := gcPop r.heap n }

/-- The variable that was registered `i` variables before the last one. -/
def getCell (i : Nat) : ReadM Val := do
  let r ← get
  match r.heap.roots[i]? with
  | some (some v) => return v
  | _ => throw .undefined

def setCell (i : Nat) (v : Val) : ReadM Unit :=
  modify fun r => { r with heap := { r.heap with roots := r.heap.roots.set i (some v) } }

def setCdr (v x : Val) : ReadM Unit := do
  let r ← get
  match gcSetCdr v x r.heap with
  | .ok h => set { r with heap := h }
  | .error e => throw e

section Read

variable (malloc : Nat → Bool)

/-- An allocation that registers `vs`; the collector needs no more fuel than there are objects. -/
def allocate (vs : List Val) (op : Nat → Heap → Except Stop (Val × Heap)) : ReadM Val := do
  let r ← get
  let h := { r.heap with roots := vs.reverse.map some ++ r.heap.roots }
  let r := { r with steps := r.steps ++ [Step.mk h r.waiting] }
  set r
  match op (r.heap.fresh + 1) r.heap with
  | .ok (v, h) =>
    set { r with heap := h }
    return v
  | .error e => throw e

def cons (car cdr : Val) : ReadM Val :=
  allocate [car, cdr] fun fuel => gcCons malloc fuel car cdr

def string (data : List UInt8) : ReadM Val := allocate [] fun fuel => gcString malloc fuel data

def symbol (data : List UInt8) : ReadM Val := allocate [] fun fuel => gcSymbol malloc fuel data

/-! ## Lists

The cells of a list are `cell` (0), `elem` or `form` (1), `tail` (2) and `head` (3). -/

def openList : ReadM Unit := do
  pushCell (some .nil)
  pushCell (some .nil)
  pushCell none
  pushCell none
  modify fun r => { r with waiting := r.waiting + 1 }

/-- The list has its first cell, or ends without one. -/
def started : ReadM Unit := modify fun r => { r with waiting := r.waiting - 1 }

def closeList : ReadM Val := do
  let head ← getCell 3
  if head = .nil then started else pure ()
  popCells 4
  return head

/-- An element and its cell at the end of the list. -/
def addElement (datum : ReadM Val) : ReadM Unit := do
  let elem ← datum
  setCell 1 elem
  let cell ← cons malloc elem .nil
  setCell 0 cell
  let head ← getCell 3
  if head = .nil then
    setCell 3 cell
    started
  else
    let tail ← getCell 2
    setCdr tail cell
  setCell 2 cell

/-- What follows a dot. -/
def dottedCdr (datum : ReadM Val) (line : Nat) : ReadM Unit := do
  let head ← getCell 3
  if head = .nil then die line "dot at start of list"
  else
    let elem ← datum
    setCell 1 elem
    let t ← lexNext
    if t.kind = .rparen then
      let tail ← getCell 2
      setCdr tail elem
    else die t.line "expected ')' after dotted cdr"

/-- The loop of `read_list`. -/
def listBody (datum : ReadM Val) : Nat → ReadM Unit
  | 0 => throw .fuel
  | fuel + 1 => do
    let t ← lexPeek
    match t.kind with
    | .eof => die t.line "unterminated list"
    | .rparen => do
      let _ ← lexNext
    | .dot => do
      let _ ← lexNext
      dottedCdr datum t.line
    | _ => do
      addElement malloc datum
      listBody datum fuel

def readList (datum : ReadM Val) (fuel : Nat) : ReadM Val := do
  openList
  listBody malloc datum fuel
  closeList

/-- The name `quote`. -/
def quoteName : List UInt8 := [113, 117, 111, 116, 101]

/-- `'datum` -/
def readQuoted (datum : ReadM Val) : ReadM Val := do
  pushCell (some .nil)
  let quoted ← datum
  let v ← cons malloc quoted .nil
  setCell 0 v
  let s ← symbol malloc quoteName
  let v ← getCell 0
  let v ← cons malloc s v
  setCell 0 v
  popCells 1
  return v

def readDatum : Nat → ReadM Val
  | 0 => throw .fuel
  | fuel + 1 => do
    let t ← lexNext
    match t.kind with
    | .num n => return .fix (n.bmod 4294967296)
    | .str data => string malloc data
    | .sym data => symbol malloc data
    | .true => return .bool true
    | .false => return .bool false
    | .lparen => readList malloc (readDatum fuel) fuel
    | .quote => readQuoted malloc (readDatum fuel)
    | .rparen => die t.line "unexpected ')'"
    | .dot => die t.line "unexpected '.'"
    | .eof => die t.line "unexpected end of input"
    | .bad msg => throw (.exit msg)

/-- The loop of `scm_read_all`. -/
def formsBody (datum : ReadM Val) : Nat → ReadM Unit
  | 0 => throw .fuel
  | fuel + 1 => do
    let t ← lexPeek
    if t.kind = .eof then return
    else
      addElement malloc datum
      formsBody datum fuel

def scmReadAll (fuel : Nat) : ReadM Val := do
  openList
  formsBody malloc (readDatum malloc fuel) fuel
  closeList

end Read

end MechanicalResearcher.PortableCompiler.Gc
