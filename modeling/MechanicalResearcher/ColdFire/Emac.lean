import MechanicalResearcher.ColdFire.Integer

/-!
# Group A: MOV3Q, hypercalls and the EMAC

The accumulators are 48 bits wide and held in 64, sign-extended from bit 47.
-/

namespace MechanicalResearcher.ColdFire

variable {μ : Type} (b : Bus μ)

/-- The host's handler of line-A opwords: the state it leaves and what it returns. -/
abbrev Hypercall (μ : Type) := Option (Cpu μ → Half → Cpu μ × Int)

def signExtend48 (v : BitVec 64) : BitVec 64 := (v <<< 16).sshiftRight 16

def signExtend40 (v : BitVec 64) : BitVec 64 := (v <<< 24).sshiftRight 24

def macsrPav0 : Word := 1 <<< 12
def macsrOmc : Word := 1 <<< 7
def macsrSu : Word := 1 <<< 6
def macsrFi : Word := 1 <<< 5
def macsrN : Word := 1 <<< 3
def macsrZ : Word := 1 <<< 2
def macsrV : Word := 1 <<< 1
def macsrEv : Word := 1

/-- The overflow flag of accumulator `n`. -/
def macsrPav (n : BitVec 2) : Word := macsrPav0 <<< n.toNat

def setAcc (s : Cpu μ) (n : BitVec 2) (v : BitVec 64) : Cpu μ :=
  { s with acc := Function.update s.acc n v }

/-- Bits 47-32 of two accumulators, the lower-numbered one in the low half. -/
def accExtPair (s : Cpu μ) (n : BitVec 2) : Word :=
  let ext (v : BitVec 64) : Word := (v.sshiftRight 32 &&& 0xFFFF).truncate 32
  ext (s.acc (n + 1)) <<< 16 ||| ext (s.acc n)

def setAccExtPair (s : Cpu μ) (n : BitVec 2) (v : Word) : Cpu μ :=
  let withExt (ext : Word) (acc : BitVec 64) : BitVec 64 :=
    signExtend48 (ext.zeroExtend 64 <<< 32 ||| (acc &&& 0xFFFFFFFF))
  let s := setAcc s n (withExt (v &&& 0xFFFF) (s.acc n))
  setAcc s (n + 1) (withExt (v >>> 16) (s.acc (n + 1)))

/-- Three bits of data, where 0 encodes -1; A registers leave the flags alone. -/
def mov3q (s : Cpu μ) (op : Half) : Cpu μ :=
  let val : Word := if regDx op = 0 then 0xFFFFFFFF else (regDx op).zeroExtend 32
  if eaMode op = 0 then setFlagsMove (s.setD (eaReg op) val) val .long
  else if eaMode op = 1 then s.setA (eaReg op) val
  else
    let (loc, s) := decodeEa b s (eaMode op) (eaReg op) .long
    setFlagsMove (writeEa b s loc .long val) val .long

def emacRead (s : Cpu μ) (r : Reg) : Word :=
  match r.toNat with
  | 4 => s.macsr
  | 5 => accExtPair s 0
  | 6 => s.mask
  | 7 => accExtPair s 2
  | _ => (s.acc (r.truncate 2)).truncate 32

/-- MOVCLR.L also clears the accumulator and its overflow flag. -/
def emacMoveFrom (s : Cpu μ) (r rn : Reg) (special : Bool) : Cpu μ :=
  let s := s.setD rn (emacRead s r)
  if special = true ∧ r.toNat ≤ 3 then
    let s := setAcc s (r.truncate 2) 0
    { s with macsr := s.macsr &&& ~~~macsrPav (r.truncate 2) }
  else s

/-- The extension that loading an accumulator sets, from the mode. -/
def loadExt (macsr v : Word) : BitVec 64 :=
  if macsr &&& macsrFi ≠ 0 then if v.msb then 0xFF00 else 0
  else if macsr &&& macsrSu ≠ 0 then 0
  else if v.msb then 0xFFFF else 0

def loadAcc (s : Cpu μ) (n : BitVec 2) (v : Word) : Cpu μ :=
  let acc := signExtend48 (loadExt s.macsr v <<< 32 ||| v.zeroExtend 64)
  let macsr := s.macsr &&& ~~~(macsrN ||| macsrZ ||| macsrV ||| macsrEv ||| macsrPav n)
  let macsr := if acc = 0 then macsr ||| macsrZ else macsr
  let macsr := if acc.msb then macsr ||| macsrN else macsr
  { setAcc s n acc with macsr := macsr }

def emacMoveTo (s : Cpu μ) (r rn : Reg) : Cpu μ :=
  let v := s.d rn
  match r.toNat with
  | 4 => { s with macsr := v }
  | 5 => setAccExtPair s 0 v
  | 6 => { s with mask := v }
  | 7 => setAccExtPair s 2 v
  | _ => loadAcc s (r.truncate 2) v

def emacMove (s : Cpu μ) (op : Half) : Cpu μ :=
  let r := regDx op
  let special := op.getLsbD 6
  if special = true ∧ r = 4 ∧ op.getLsbD 7 = true then
    -- MOVE MACSR,CCR: N, Z, V; C cleared
    { s with sr := (s.sr &&& ~~~0x0F) ||| (s.macsr &&& (macsrN ||| macsrZ ||| macsrV)) }
  else if op.getLsbD 7 then emacMoveFrom s r (eaReg op) special
  else emacMoveTo s r (eaReg op)

def max48 : BitVec 64 := (1 <<< 47) - 1
def min48 : BitVec 64 := -(1 <<< 47)

/-- The product of the operands; S/U is 1 for unsigned. -/
def macProduct (macsr x y : Word) : BitVec 64 :=
  if macsr &&& macsrSu ≠ 0 then x.zeroExtend 64 * y.zeroExtend 64
  else x.signExtend 64 * y.signExtend 64

def macScale (sf : BitVec 2) (product : BitVec 64) : BitVec 64 :=
  if sf = 1 then product <<< 1 else if sf = 3 then product.sshiftRight 1 else product

/-- Whether the value has outgrown what ACCn shows of it. -/
def macExtends (macsr : Word) (result : BitVec 64) : Bool :=
  if macsr &&& macsrFi ≠ 0 then result ≠ signExtend40 result
  else if macsr &&& macsrSu ≠ 0 then (0xFFFFFFFF : BitVec 64).ult result
  else result ≠ (result.truncate 32).signExtend 64

/-- Confine the result to 48 bits, store it and set the flags. -/
def macStore (s : Cpu μ) (n : BitVec 2) (result : BitVec 64) : Cpu μ :=
  let overflow := max48.slt result || result.slt min48
  let macsr := if overflow then s.macsr ||| macsrPav n else s.macsr
  let result :=
    if overflow then
      if macsr &&& macsrOmc ≠ 0 then if max48.slt result then max48 else min48
      else signExtend48 result
    else result
  let ev := macExtends macsr result
  let macsr := macsr &&& ~~~(macsrN ||| macsrZ ||| macsrV ||| macsrEv)
  let macsr := if macsr &&& macsrPav n ≠ 0 then macsr ||| macsrV else macsr
  let macsr := if ev then macsr ||| macsrEv else macsr
  let macsr := if result = 0 then macsr ||| macsrZ else macsr
  let macsr := if result.msb then macsr ||| macsrN else macsr
  { setAcc s n result with macsr := macsr }

def macInsn (s : Cpu μ) (op : Half) : Cpu μ :=
  let (ext, s) := fetch16 b s
  let n : BitVec 2 := ext.extractLsb' 4 1 ++ op.extractLsb' 7 1
  let x := if op.getLsbD 6 then s.a (regDx op) else s.d (regDx op)
  let y := if op.getLsbD 3 then s.a (eaReg op) else s.d (eaReg op)
  let product := macScale (ext.extractLsb' 9 2) (macProduct s.macsr x y)
  macStore s n (if ext.getLsbD 8 then s.acc n - product else s.acc n + product)

def emacInsn (s : Cpu μ) (op : Half) : Cpu μ :=
  if op &&& 0x0100 ≠ 0 then emacMove s op else macInsn b s op

def execGroupA (hypercall : Hypercall μ) (s : Cpu μ) (op : Half) : Cpu μ :=
  if opmode op = 5 then mov3q b s op
  else
    match hypercall with
    | none => emacInsn b s op
    | some f =>
      let (s, r) := f s op
      if r = 0 then s else emacInsn b s op

end MechanicalResearcher.ColdFire
