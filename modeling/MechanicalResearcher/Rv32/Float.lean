import MechanicalResearcher.Rv32.Cpu

/-!
# Single precision in the RV32 emulator

The floating point support of `rv32.c`.  The doubles of the host are a parameter, `Doubles`: the
source uses their basic operations, their bits and their conversions, and nothing of the host's
rounding mode.  A function that sets flags in `fcsr` returns them beside its result.
-/

namespace MechanicalResearcher.Rv32

/-- The `double` of the host. -/
structure Doubles where
  D : Type
  /-- `(double)f32_val(bits)` -/
  val : Word → D
  /-- `f32_bits((float)x)` -/
  narrow : D → Word
  /-- The conversion of an integer. -/
  ofInt : Int → D
  /-- The conversion to an integer, toward zero. -/
  toInt : D → Int
  bits : D → BitVec 64
  ofBits : BitVec 64 → D
  add : D → D → D
  sub : D → D → D
  mul : D → D → D
  div : D → D → D
  neg : D → D
  abs : D → D
  sqrt : D → D
  eq : D → D → Bool
  lt : D → D → Bool
  le : D → D → Bool

def flagNx : Word := 1
def flagUf : Word := 2
def flagOf : Word := 4
def flagDz : Word := 8
def flagNv : Word := 16

/-- `fflags_set` -/
def fflagsSet (fcsr flags : Word) : Word := fcsr ||| (flags &&& 0x1f)

def f32CanonNan : Word := 0x7fc00000

def f32IsNan (b : Word) : Bool := b &&& 0x7f800000 = 0x7f800000 && b &&& 0x007fffff ≠ 0

def f32IsSnan (b : Word) : Bool := f32IsNan b && b &&& 0x00400000 = 0

def f32IsInf (b : Word) : Bool := b &&& 0x7fffffff = 0x7f800000

def f32IsZero (b : Word) : Bool := b &&& 0x7fffffff = 0

def f32Sign (b : Word) : Bool := b >>> 31 ≠ 0

/-- A rounding mode, 0 to 4. -/
inductive Rm
  | rne | rtz | rdn | rup | rmm
  deriving DecidableEq, Repr

/-- The field 7 stands for `frm`. -/
def resolveRm (fcsr rm : Word) : Option Rm :=
  let rm := if rm = 7 then fcsr >>> 5 &&& 7 else rm
  if rm = 0 then some .rne
  else if rm = 1 then some .rtz
  else if rm = 2 then some .rdn
  else if rm = 3 then some .rup
  else if rm = 4 then some .rmm
  else none

def signedInf (sign : Bool) : Word := if sign then 0xff800000 else 0x7f800000
def signedMax (sign : Bool) : Word := if sign then 0xff7fffff else 0x7f7fffff
def signedZero (sign : Bool) : Word := if sign then 0x80000000 else 0

section

variable (h : Doubles)

def dIsInf (x : h.D) : Bool := h.bits x &&& 0x7fffffffffffffff = 0x7ff0000000000000

def dFloor (x : h.D) : h.D :=
  if h.le (h.ofInt 4503599627370496) (h.abs x) then x
  else
    let t := h.ofInt (h.toInt x)
    if h.lt x t then h.sub t (h.ofInt 1) else t

def dCeil (x : h.D) : h.D :=
  if h.le (h.ofInt 4503599627370496) (h.abs x) then x
  else
    let t := h.ofInt (h.toInt x)
    if h.lt t x then h.add t (h.ofInt 1) else t

def dIsOdd (x : h.D) : Bool :=
  if h.le (h.ofInt 9007199254740992) (h.abs x) then false else h.toInt x % 2 ≠ 0

/-- The exponent field. -/
def dExp (b : BitVec 64) : Int := ((b >>> 52 &&& 0x7ff).toNat : Int)

/-- A fraction from a half to one, and an exponent. -/
def dFrexp (x : h.D) : h.D × Int :=
  let b := h.bits x
  let fraction (b : BitVec 64) := h.ofBits (b &&& 0x800fffffffffffff ||| 1022 <<< 52)
  if h.eq x (h.ofInt 0) || dExp b = 0x7ff then (x, 0)
  else if dExp b = 0 then
    let b := h.bits (h.mul x (h.ofInt 18014398509481984))
    (fraction b, -54 + (dExp b - 1022))
  else (fraction b, dExp b - 1022)

/-- The double with the exponent field `1023 + n`. -/
def dPow (n : Int) : h.D := h.ofBits (BitVec.ofInt 64 (1023 + n) <<< 52)

/-- The first loop of `d_ldexp`. -/
def dLdexpUp (x : h.D) (n : Int) : h.D × Int :=
  if n > 1000 then dLdexpUp (h.mul x (dPow h 1000)) (n - 1000) else (x, n)
termination_by n.toNat
decreasing_by omega

/-- The second loop. -/
def dLdexpDown (x : h.D) (n : Int) : h.D × Int :=
  if n < -1000 then dLdexpDown (h.mul x (dPow h (-1000))) (n + 1000) else (x, n)
termination_by (-n).toNat
decreasing_by omega

def dLdexp (x : h.D) (n : Int) : h.D :=
  let (x, n) := dLdexpUp h x n
  let (x, n) := dLdexpDown h x n
  h.mul x (dPow h n)

/-- The product and its error. -/
def twoProduct (x y : h.D) : h.D × h.D :=
  let splitter := h.ofInt 134217729
  let p := h.mul x y
  let cx := h.mul splitter x
  let cy := h.mul splitter y
  let xh := h.sub cx (h.sub cx x)
  let xl := h.sub x xh
  let yh := h.sub cy (h.sub cy y)
  let yl := h.sub y yh
  (p, h.add (h.add (h.add (h.sub (h.mul xh yh) p) (h.mul xh yl)) (h.mul xl yh)) (h.mul xl yl))

def remainderExact (a x y : h.D) : h.D :=
  let (p, err) := twoProduct h x y
  h.sub (h.sub a p) err

/-- The sum and its error. -/
def twoSum (x y : h.D) : h.D × h.D :=
  let s := h.add x y
  let bv := h.sub s x
  (s, h.add (h.sub x (h.sub s bv)) (h.sub y bv))

/-- `enum frac_pos` -/
inductive FracPos
  | zero | belowHalf | half | aboveHalf
  deriving DecidableEq, Repr

/-- Where the exact value is between the integral part `ip` and the next one, with `ip` put right
when the residual is below it. -/
def fracPos (ip fr loMag : h.D) : h.D × FracPos :=
  let zero := h.ofInt 0
  let half := h.ofBits 0x3fe0000000000000
  if h.eq fr zero then
    if h.eq loMag zero then (ip, .zero)
    else if h.lt zero loMag then (ip, .belowHalf)
    else (h.sub ip (h.ofInt 1), .aboveHalf)
  else if h.lt fr half then (ip, .belowHalf)
  else if h.lt half fr then (ip, .aboveHalf)
  else if h.lt zero loMag then (ip, .aboveHalf)
  else if h.lt loMag zero then (ip, .belowHalf)
  else (ip, .half)

/-- Whether the magnitude is rounded up. -/
def roundsUp (rm : Rm) (sign : Bool) (frac : FracPos) (odd : Bool) : Bool :=
  match rm with
  | .rne => frac = .aboveHalf || (frac = .half && odd)
  | .rtz => false
  | .rdn => sign && frac ≠ .zero
  | .rup => !sign && frac ≠ .zero
  | .rmm => frac = .aboveHalf || frac = .half

/-- The result of an overflow. -/
def overflowed (rm : Rm) (sign : Bool) : Word :=
  match rm with
  | .rtz => signedMax sign
  | .rdn => if sign then signedInf true else signedMax false
  | .rup => if sign then signedMax true else signedInf false
  | _ => signedInf sign

/-- The end of `f32_round`, for the magnitude `a` with the residual `loMag`. -/
def roundMag (a loMag : h.D) (sign : Bool) (rm : Rm) : Word × Word :=
  let (m, e) := dFrexp h a
  let e := if h.eq m (h.ofBits 0x3fe0000000000000) && h.lt loMag (h.ofInt 0) then e - 1 else e
  let p := if e < -125 then 24 + (e + 125) else 24
  let (p, e) := if p ≤ 0 then (0, -149) else (p, e)
  let scaled := dLdexp h a (p - e)
  let ip := dFloor h scaled
  let fr := h.sub scaled ip
  let (ip, frac) := fracPos h ip fr loMag
  let ip := if roundsUp rm sign frac (dIsOdd h ip) then h.add ip (h.ofInt 1) else ip
  let mag := dLdexp h ip (e - p)
  if h.le (dLdexp h (h.ofInt 1) 128) mag then (overflowed rm sign, flagOf ||| flagNx)
  else
    let flags :=
      if frac = .zero then 0
      else if h.lt mag (dLdexp h (h.ofInt 1) (-126)) then flagNx ||| flagUf
      else flagNx
    if h.eq mag (h.ofInt 0) then (signedZero sign, flags)
    else (h.narrow (if sign then h.neg mag else mag), flags)

/-- Rounds `hi + lo`. -/
def f32Round (hi lo : h.D) (rm : Rm) (signOfZero : Bool) : Word × Word :=
  let zero := h.ofInt 0
  if !h.eq hi hi then (f32CanonNan, 0)
  else if h.eq hi zero && h.eq lo zero then (signedZero signOfZero, 0)
  else
    let (hi, lo) := if h.eq hi zero then (lo, zero) else (hi, lo)
    let sign := h.lt hi zero
    let a := if sign then h.neg hi else hi
    let loMag := if sign then h.neg lo else lo
    if dIsInf h a then (signedInf sign, 0) else roundMag h a loMag sign rm

/-- The flag for a signalling operand. -/
def snanFlag (ops : List Word) : Word := if ops.any f32IsSnan then flagNv else 0

/-- Adds the flags of an earlier step. -/
def withFlags (flags : Word) (r : Word × Word) : Word × Word := (r.1, flags ||| r.2)

def fpAdd (a b : Word) (rm : Rm) : Word × Word :=
  withFlags (snanFlag [a, b]) <|
    if f32IsNan a || f32IsNan b then (f32CanonNan, 0)
    else if f32IsInf a || f32IsInf b then
      if f32IsInf a && f32IsInf b && f32Sign a ≠ f32Sign b then (f32CanonNan, flagNv)
      else (if f32IsInf a then a else b, 0)
    else if f32IsZero a && f32IsZero b then
      (if f32Sign a = f32Sign b then a else signedZero (rm = .rdn), 0)
    else
      let (hi, lo) := twoSum h (h.val a) (h.val b)
      f32Round h hi lo rm (rm = .rdn)

def fpMul (a b : Word) (rm : Rm) : Word × Word :=
  withFlags (snanFlag [a, b]) <|
    let sign := f32Sign a ^^ f32Sign b
    if f32IsNan a || f32IsNan b then (f32CanonNan, 0)
    else if f32IsInf a || f32IsInf b then
      if f32IsZero a || f32IsZero b then (f32CanonNan, flagNv) else (signedInf sign, 0)
    else if f32IsZero a || f32IsZero b then (signedZero sign, 0)
    else f32Round h (h.mul (h.val a) (h.val b)) (h.ofInt 0) rm sign

def fpDiv (a b : Word) (rm : Rm) : Word × Word :=
  withFlags (snanFlag [a, b]) <|
    let sign := f32Sign a ^^ f32Sign b
    if f32IsNan a || f32IsNan b then (f32CanonNan, 0)
    else if f32IsInf a && f32IsInf b then (f32CanonNan, flagNv)
    else if f32IsZero a && f32IsZero b then (f32CanonNan, flagNv)
    else if f32IsInf a then (signedInf sign, 0)
    else if f32IsInf b || f32IsZero a then (signedZero sign, 0)
    else if f32IsZero b then (signedInf sign, flagDz)
    else
      let da := h.val a
      let db := h.val b
      let q := h.div da db
      let r := remainderExact h da q db
      let lo := if h.eq r (h.ofInt 0) then h.ofInt 0 else if h.lt db (h.ofInt 0) then h.neg r else r
      f32Round h q lo rm sign

def fpSqrt (a : Word) (rm : Rm) : Word × Word :=
  withFlags (snanFlag [a]) <|
    if f32IsNan a then (f32CanonNan, 0)
    else if f32IsZero a then (a, 0)
    else if f32Sign a then (f32CanonNan, flagNv)
    else if f32IsInf a then (a, 0)
    else
      let da := h.val a
      let q := h.sqrt da
      f32Round h q (remainderExact h da q q) rm false

def fpFma (a b c : Word) (rm : Rm) : Word × Word :=
  withFlags (snanFlag [a, b, c]) <|
    let psign := f32Sign a ^^ f32Sign b
    if (f32IsInf a && f32IsZero b) || (f32IsZero a && f32IsInf b) then (f32CanonNan, flagNv)
    else if f32IsNan a || f32IsNan b || f32IsNan c then (f32CanonNan, 0)
    else if f32IsInf a || f32IsInf b then
      if f32IsInf c && f32Sign c ≠ psign then (f32CanonNan, flagNv) else (signedInf psign, 0)
    else if f32IsInf c then (c, 0)
    else
      let p := h.mul (h.val a) (h.val b)
      if h.eq p (h.ofInt 0) && f32IsZero c then
        (if psign = f32Sign c then signedZero psign else signedZero (rm = .rdn), 0)
      else
        let (hi, lo) := twoSum h p (h.val c)
        f32Round h hi lo rm (rm = .rdn)

def fpMinmax (a b : Word) (isMax : Bool) : Word × Word :=
  withFlags (snanFlag [a, b]) <|
    if f32IsNan a && f32IsNan b then (f32CanonNan, 0)
    else if f32IsNan a then (b, 0)
    else if f32IsNan b then (a, 0)
    else if f32IsZero a && f32IsZero b then
      (if isMax then (if f32Sign a then b else a) else (if f32Sign a then a else b), 0)
    else if isMax then (if h.lt (h.val b) (h.val a) then a else b, 0)
    else (if h.lt (h.val a) (h.val b) then a else b, 0)

def roundIntegral (d : h.D) (rm : Rm) : h.D :=
  let f := dFloor h d
  let diff := h.sub d f
  let half := h.ofBits 0x3fe0000000000000
  let up := h.add f (h.ofInt 1)
  match rm with
  | .rtz => if h.lt d (h.ofInt 0) then dCeil h d else f
  | .rdn => f
  | .rup => dCeil h d
  | .rmm =>
    if h.lt half diff then up
    else if h.lt diff half then f
    else if h.lt d (h.ofInt 0) then f else up
  | .rne =>
    if h.lt half diff then up
    else if h.lt diff half then f
    else if dIsOdd h f then up else f

def intMax (isUnsigned : Bool) : Word := if isUnsigned then 0xffffffff else 0x7fffffff
def intMin (isUnsigned : Bool) : Word := if isUnsigned then 0 else 0x80000000

def fpToInt (a : Word) (isUnsigned : Bool) (rm : Rm) : Word × Word :=
  if f32IsNan a then (intMax isUnsigned, flagNv)
  else if f32IsInf a then (if f32Sign a then intMin isUnsigned else intMax isUnsigned, flagNv)
  else
    let d := h.val a
    let r := roundIntegral h d rm
    let limLo := h.ofInt (if isUnsigned then 0 else -2147483648)
    let limHi := h.ofInt (if isUnsigned then 4294967295 else 2147483647)
    if h.lt r limLo then (intMin isUnsigned, flagNv)
    else if h.lt limHi r then (intMax isUnsigned, flagNv)
    else (BitVec.ofInt 32 (h.toInt r), if h.eq r d then 0 else flagNx)

def fpClass (a : Word) : Word :=
  let sign := f32Sign a
  let exp := a >>> 23 &&& 0xff
  let man := a &&& 0x7fffff
  if exp = 0xff then
    if man = 0 then (if sign then 1 <<< 0 else 1 <<< 7)
    else if man &&& 0x400000 ≠ 0 then 1 <<< 9 else 1 <<< 8
  else if exp = 0 then
    if man = 0 then (if sign then 1 <<< 3 else 1 <<< 4)
    else if sign then 1 <<< 2 else 1 <<< 5
  else if sign then 1 <<< 1 else 1 <<< 6

end

/-- Doubles that are all alike, for a machine that uses none. -/
def trivialDoubles : Doubles where
  D := Unit
  val := fun _ => ()
  narrow := fun _ => 0
  ofInt := fun _ => ()
  toInt := fun _ => 0
  bits := fun _ => 0
  ofBits := fun _ => ()
  add := fun _ _ => ()
  sub := fun _ _ => ()
  mul := fun _ _ => ()
  div := fun _ _ => ()
  neg := fun _ => ()
  abs := fun _ => ()
  sqrt := fun _ => ()
  eq := fun _ _ => true
  lt := fun _ _ => false
  le := fun _ _ => true

end MechanicalResearcher.Rv32
