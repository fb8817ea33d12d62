import MechanicalResearcher.ColdFire.Emac
import MechanicalResearcher.ColdFire.Fpu

/-!
# The main decoder

`cf_step` and `cf_reset`.  `Machine` is what the host gives the emulator: the bus,
its floating point arithmetic, and a handler of hypercalls if one is installed.
-/

namespace MechanicalResearcher.ColdFire

variable {μ : Type}

structure Machine (μ : Type) where
  bus : Bus μ
  doubles : Doubles
  hypercall : Hypercall μ := none

variable (m : Machine μ)

def execGroup (s : Cpu μ) (op : Half) : Cpu μ :=
  match (op.extractLsb' 12 4).toNat with
  | 0x0 => if op &&& 0x0100 ≠ 0 then execBitReg m.bus s op else execGroup0 m.bus s op
  | 0x1 => execMove m.bus s op .byte
  | 0x2 => execMove m.bus s op .long
  | 0x3 => execMove m.bus s op .word
  | 0x4 => execGroup4 m.bus s op
  | 0x5 => execGroup5 m.bus s op
  | 0x6 => execGroup6 m.bus s op
  | 0x7 => execGroup7 m.bus s op
  | 0x8 => execGroup8 m.bus s op
  | 0x9 => execGroup9 m.bus s op
  | 0xA => execGroupA m.bus m.hypercall s op
  | 0xB => execGroupB m.bus s op
  | 0xC => execGroupC m.bus s op
  | 0xD => execGroupD m.bus s op
  | 0xE => execGroupE m.bus s op
  | _ => execGroupF m.bus m.doubles s op

/-- Fetch an opword and execute it. -/
def execNext (s : Cpu μ) : Cpu μ :=
  let (op, s) := fetch16 m.bus s
  execGroup m s op

/-- The state after the step, and whether it went on (return value 0). -/
def cfStep (s : Cpu μ) : Cpu μ × Bool :=
  if s.halted || s.fault then (s, false)
  else
    let s := execNext m s
    let s := { s with cycles := s.cycles + 1 }
    (s, !(s.halted || s.fault))

def cfReset (s : Cpu μ) : Cpu μ :=
  let s := { s with sr := srS ||| (7 <<< 8) }
  let s := s.setA 7 (busRead32 m.bus s (s.vbr + 0))
  { s with
    pc := busRead32 m.bus s (s.vbr + 4)
    halted := false
    fault := false
    inException := false
    cycles := 0
    fp := fun _ => 0
    fpcr := 0
    fpsr := 0
    fpiar := 0
    acc := fun _ => 0
    macsr := 0
    mask := 0xFFFFFFFF }

end MechanicalResearcher.ColdFire
