import Mathlib.Data.List.Nodup
import MechanicalResearcher.Lib.Marking

/-!
# The collector

`scheme/gc.c`.  A pointer is the identity of the object that `malloc` returned, so a pointer to
a freed object never points to another one.  Reading through such a pointer, or from a root cell
that was never assigned, is `Stop.undefined`; `exit(1)` is `Stop.exit` with its message.

The roots are the contents of the registered cells, the last registered first.
-/

namespace MechanicalResearcher.PortableCompiler.Gc

/-- `val_t`, by its tag -/
inductive Val
  | nil
  | fix (n : Int)
  | bool (b : Bool)
  | ptr (a : Nat)
  deriving DecidableEq, Repr

/-- `OBJ_*` with the fields of the structure -/
inductive Obj
  | pair (car cdr : Val)
  | string (data : List UInt8)
  | symbol (data : List UInt8)
  | closure (funcId : Int) (free : List Val)
  deriving DecidableEq, Repr

/-- `struct gc_obj` -/
structure GcObj where
  obj : Obj
  mark : Bool
  next : Option Nat
  deriving DecidableEq, Repr

inductive Stop
  | exit (msg : String)
  | undefined
  | fuel
  deriving DecidableEq, Repr

/-- `struct gc_heap`, with the objects that `malloc` gave out.  `fresh` is the identity of the
next one, `mallocs` counts the calls of `malloc`, and `freed` is what was passed to `free`. -/
structure Heap where
  mem : Nat → Option GcObj := fun _ => none
  all : Option Nat := none
  count : Int := 0
  threshold : Int := 64
  roots : List (Option Val) := []
  fresh : Nat := 0
  mallocs : Nat := 0
  freed : List Nat := []

def Heap.put (h : Heap) (a : Nat) (o : GcObj) : Heap :=
  { h with mem := Function.update h.mem a (some o) }

/-- The values that `mark_val` follows. -/
def Obj.fields : Obj → List Val
  | .pair car cdr => [car, cdr]
  | .closure _ free => free
  | .string _ | .symbol _ => []

mutual

def markVal : Nat → Val → Heap → Except Stop Heap
  | 0, _, _ => .error .fuel
  | fuel + 1, .ptr a, h =>
    match h.mem a with
    | none => .error .undefined
    | some o =>
      if o.mark then .ok h
      else markVals fuel o.obj.fields (h.put a { o with mark := true })
  | _ + 1, _, h => .ok h

/-- `mark_val` on one value after another. -/
def markVals (fuel : Nat) : List Val → Heap → Except Stop Heap
  | [], h => .ok h
  | v :: vs, h =>
    match markVal fuel v h with
    | .error e => .error e
    | .ok h => markVals fuel vs h

end

/-- The root cells must have been assigned. -/
def readRoots : List (Option Val) → Except Stop (List Val)
  | [] => .ok []
  | none :: _ => .error .undefined
  | some v :: cells =>
    match readRoots cells with
    | .error e => .error e
    | .ok vs => .ok (v :: vs)

/-- What `pp` points to: `h->all` or the `next` field of an object. -/
inductive Link
  | all
  | next (a : Nat)
  deriving DecidableEq, Repr

def Heap.follow (h : Heap) : Link → Except Stop (Option Nat)
  | .all => .ok h.all
  | .next a =>
    match h.mem a with
    | none => .error .undefined
    | some o => .ok o.next

def Heap.setLink (h : Heap) (pp : Link) (p : Option Nat) : Heap :=
  match pp with
  | .all => { h with all := p }
  | .next a =>
    { h with mem := Function.update h.mem a ((h.mem a).map fun o => { o with next := p }) }

def Heap.free (h : Heap) (a : Nat) : Heap :=
  { h with mem := Function.update h.mem a none, freed := h.freed ++ [a] }

def sweep : Nat → Link → Heap → Except Stop Heap
  | 0, _, _ => .error .fuel
  | fuel + 1, pp, h =>
    match h.follow pp with
    | .error e => .error e
    | .ok none => .ok h
    | .ok (some a) =>
      match h.mem a with
      | none => .error .undefined
      | some o =>
        if o.mark then sweep fuel (.next a) (h.put a { o with mark := false })
        else
          let h := (h.setLink pp o.next).free a
          sweep fuel pp { h with count := h.count - 1 }

def adjustThreshold (h : Heap) : Heap :=
  let t := if h.threshold < h.count * 2 then h.count * 2 else h.threshold
  { h with threshold := if t < 64 then 64 else t }

def gcCollect (fuel : Nat) (h : Heap) : Except Stop Heap := do
  let vs ← readRoots h.roots.reverse
  let h ← markVals fuel vs h
  let h ← sweep fuel .all h
  return adjustThreshold h

section Alloc

-- whether the `k`-th call of `malloc` succeeds
variable (malloc : Nat → Bool) (fuel : Nat)

def gcMalloc (h : Heap) : Option Nat × Heap :=
  if malloc h.mallocs then (some h.fresh, { h with fresh := h.fresh + 1, mallocs := h.mallocs + 1 })
  else (none, { h with mallocs := h.mallocs + 1 })

/-- A new object at the head of the list; the caller fills in its fields. -/
def Heap.push (h : Heap) (a : Nat) (obj : Obj) : Heap :=
  { h with
    mem := Function.update h.mem a (some ⟨obj, false, h.all⟩)
    all := some a
    count := h.count + 1 }

def gcAlloc (obj : Obj) (h : Heap) : Except Stop (Nat × Heap) := do
  let h ← (if h.count ≥ h.threshold then gcCollect fuel h else pure h)
  match gcMalloc malloc h with
  | (some a, h) => return (a, h.push a obj)
  | (none, h) =>
    let h ← gcCollect fuel h
    match gcMalloc malloc h with
    | (some a, h) => return (a, h.push a obj)
    | (none, _) => .error (.exit "gc: out of memory")

/-- Whether `gc_alloc` collects. -/
def Heap.collects (h : Heap) : Bool := h.count ≥ h.threshold || !malloc h.mallocs

def gcPush (v : Option Val) (h : Heap) : Except Stop Heap :=
  if h.roots.length ≥ 256 then .error (.exit "gc: root stack overflow")
  else return { h with roots := v :: h.roots }

def gcPushAll : List Val → Heap → Except Stop Heap
  | [], h => return h
  | v :: vs, h => do
    let h ← gcPush (some v) h
    gcPushAll vs h

def gcPop (h : Heap) (n : Nat) : Heap := { h with roots := h.roots.drop n }

def gcCons (car cdr : Val) (h : Heap) : Except Stop (Val × Heap) := do
  let h ← gcPush (some car) h
  let h ← gcPush (some cdr) h
  let (a, h) ← gcAlloc malloc fuel (.pair car cdr) h
  return (.ptr a, gcPop h 2)

def gcString (data : List UInt8) (h : Heap) : Except Stop (Val × Heap) := do
  let (a, h) ← gcAlloc malloc fuel (.string data) h
  return (.ptr a, h)

def gcSymbol (data : List UInt8) (h : Heap) : Except Stop (Val × Heap) := do
  let (a, h) ← gcAlloc malloc fuel (.symbol data) h
  return (.ptr a, h)

def gcClosure (funcId : Int) (captured : List Val) (h : Heap) : Except Stop (Val × Heap) := do
  let h ← gcPushAll captured h
  let (a, h) ← gcAlloc malloc fuel (.closure funcId captured) h
  return (.ptr a, gcPop h captured.length)

end Alloc

/-- `gc_set_cdr` -/
def gcSetCdr (v x : Val) (h : Heap) : Except Stop Heap :=
  match v with
  | .ptr a =>
    match h.mem a with
    | some o =>
      match o.obj with
      | .pair car _ => .ok (h.put a { o with obj := .pair car x })
      | _ => .error .undefined
    | none => .error .undefined
  | _ => .error .undefined

end MechanicalResearcher.PortableCompiler.Gc
