import MechanicalResearcher.Rv32.Decode
import MechanicalResearcher.Rv32.Float

/-!
# Execution in the RV32 emulator

`exec`, `exec_zcmp` and `rv_step` of `rv32.c`.  A case of `exec` that reads registers and memory
gives what it does as an `Effect`: the writes of an instruction that completes, or a trap.  The
effect is then carried out on the machine (`Effect.apply`); the last case, `OP_SYSTEM`, works on
the machine itself.
-/

namespace MechanicalResearcher.Rv32

variable {μ : Type}

/-- The callbacks and the doubles of the host.  The callback for `ecall` gives the machine after it
and whether it has handled the call. -/
structure Host (μ : Type) extends Bus μ where
  ecall : Option (Cpu μ → Cpu μ × Bool) := none
  fp : Doubles

/-! ## Effects -/

/-- What an instruction writes.  The flags go into `fcsr`; a reservation is made (`some (some a)`)
or given up (`some none`). -/
structure Writes (μ : Type) where
  x : Option (Reg × Word) := none
  f : Option (Reg × Word) := none
  flags : Word := 0
  mem : Option μ := none
  res : Option (Option Word) := none

/-- A trap that is met on a path with `cpu->x[0] = 0` behind it has `clear`. -/
inductive Effect (μ : Type)
  | done (w : Writes μ) (next : Word)
  | trap (e : Fault) (next : Word) (clear : Bool)

def writeReg (r : Reg → Word) : Option (Reg × Word) → Reg → Word
  | none => r
  | some (rd, v) => Function.update r rd v

def Writes.apply (w : Writes μ) (s : Cpu μ) : Cpu μ :=
  { s with
    x := writeReg s.x w.x
    f := writeReg s.f w.f
    fcsr := fflagsSet s.fcsr w.flags
    mem := w.mem.getD s.mem
    resAddr := (w.res.getD none).getD s.resAddr
    resValid := (w.res.map Option.isSome).getD s.resValid }

/-- `cpu->x[0] = 0` -/
def clearX0 (s : Cpu μ) : Cpu μ := s.setX 0 0

def Effect.apply (s : Cpu μ) : Effect μ → Cpu μ × Word
  | .done w next => (clearX0 (w.apply s), next)
  | .trap e next clear => (if clear then clearX0 (raise s e) else raise s e, next)

/-- `cpu->x[rd] = v` -/
def putX (rd : Reg) (v next : Word) : Effect μ := .done { x := some (rd, v) } next

/-- `cpu->f[rd] = r` for a result with its flags -/
def putF (rd : Reg) (r : Word × Word) (next : Word) : Effect μ :=
  .done { f := some (rd, r.1), flags := r.2 } next

/-- `illegal(cpu, insn); return next;` -/
def reject (insn next : Word) : Effect μ := .trap (illegal insn) next false

/-- Goes on with what was read, or takes the trap. -/
def reading (next : Word) (r : Except Fault Word) (k : Word → Effect μ) : Effect μ :=
  match r with
  | .error e => .trap e next false
  | .ok v => k v

/-! ## Bit manipulation -/

def ofBool (p : Bool) : Word := if p then 1 else 0

/-- A shift amount. -/
def amount (w : Word) : Nat := (w &&& 31).toNat

def rotr32 (v n : Word) : Word :=
  let n := n &&& 31
  if n ≠ 0 then v >>> n.toNat ||| v <<< (32 - n).toNat else v

def rotl32 (v n : Word) : Word :=
  let n := n &&& 31
  if n ≠ 0 then v <<< n.toNat ||| v >>> (32 - n).toNat else v

/-- The loop of the portable `clz32`, for at most `fuel` steps. -/
def clzLoop : Nat → Word → Word → Word
  | 0, _, n => n
  | fuel + 1, v, n => if v &&& 0x80000000 = 0 then clzLoop fuel (v <<< 1) (n + 1) else n

def clz32 (v : Word) : Word := if v = 0 then 32 else clzLoop 32 v 0

def ctzLoop : Nat → Word → Word → Word
  | 0, _, n => n
  | fuel + 1, v, n => if v &&& 1 = 0 then ctzLoop fuel (v >>> 1) (n + 1) else n

def ctz32 (v : Word) : Word := if v = 0 then 32 else ctzLoop 32 v 0

def cpopLoop : Nat → Word → Word → Word
  | 0, _, n => n
  | fuel + 1, v, n => if v = 0 then n else cpopLoop fuel (v &&& (v - 1)) (n + 1)

def cpop32 (v : Word) : Word := cpopLoop 32 v 0

def orcb32 (v : Word) : Word :=
  [0, 8, 16, 24].foldl
    (fun (out : Word) (i : Nat) => if v >>> i &&& 0xff ≠ 0 then out ||| 0xff <<< i else out) 0

def rev8 (v : Word) : Word :=
  v >>> 24 ||| (v >>> 8 &&& 0xff00) ||| (v <<< 8 &&& 0xff0000) ||| v <<< 24

def sext8 (v : Word) : Word := (v.truncate 8).signExtend 32

def sext16 (v : Word) : Word := (v.truncate 16).signExtend 32

def bitmanipReg (insn : Word) (f3 : BitVec 3) (f7 : BitVec 7) (a b : Word) : Option Word :=
  let bit : Word := 1 <<< amount b
  if f7 = 0x04 then
    if f3 = 4 ∧ rs2Of insn = 0 then some (a &&& 0xffff) else none
  else if f7 = 0x05 then
    if f3 = 4 then some (if a.slt b then a else b)
    else if f3 = 5 then some (if a.ult b then a else b)
    else if f3 = 6 then some (if b.slt a then a else b)
    else if f3 = 7 then some (if b.ult a then a else b)
    else none
  else if f7 = 0x10 then
    if f3 = 2 then some (a <<< 1 + b)
    else if f3 = 4 then some (a <<< 2 + b)
    else if f3 = 6 then some (a <<< 3 + b)
    else none
  else if f7 = 0x14 then
    if f3 = 1 then some (a ||| bit) else none
  else if f7 = 0x20 then
    if f3 = 4 then some (~~~(a ^^^ b))
    else if f3 = 6 then some (a ||| ~~~b)
    else if f3 = 7 then some (a &&& ~~~b)
    else none
  else if f7 = 0x24 then
    if f3 = 1 then some (a &&& ~~~bit)
    else if f3 = 5 then some (a >>> amount b &&& 1)
    else none
  else if f7 = 0x30 then
    if f3 = 1 then some (rotl32 a (b &&& 31))
    else if f3 = 5 then some (rotr32 a (b &&& 31))
    else none
  else if f7 = 0x34 then
    if f3 = 1 then some (a ^^^ bit) else none
  else none

def bitmanipImm (insn : Word) (f3 : BitVec 3) (f7 : BitVec 7) (a : Word) : Option Word :=
  let shamt := rs2Of insn
  let bit : Word := 1 <<< shamt.toNat
  if f7 = 0x14 then
    if f3 = 1 then some (a ||| bit)
    else if f3 = 5 ∧ shamt = 0x07 then some (orcb32 a)
    else none
  else if f7 = 0x24 then
    if f3 = 1 then some (a &&& ~~~bit)
    else if f3 = 5 then some (a >>> shamt.toNat &&& 1)
    else none
  else if f7 = 0x30 then
    if f3 = 5 then some (rotr32 a (shamt.zeroExtend 32))
    else if f3 = 1 then
      if shamt = 0x00 then some (clz32 a)
      else if shamt = 0x01 then some (ctz32 a)
      else if shamt = 0x02 then some (cpop32 a)
      else if shamt = 0x04 then some (sext8 a)
      else if shamt = 0x05 then some (sext16 a)
      else none
    else none
  else if f7 = 0x34 then
    if f3 = 1 then some (a ^^^ bit)
    else if f3 = 5 ∧ shamt = 0x18 then some (rev8 a)
    else none
  else none

/-! ## The cases of `exec` -/

section Cases

variable (h : Host μ) (c : Core μ) (insn next : Word)

def zbReg : Effect μ :=
  match c.bitmanip, bitmanipReg insn (funct3 insn) (funct7 insn) (c.x (rs1Of insn))
      (c.x (rs2Of insn)) with
  | true, some v => putX (rdOf insn) v next
  | _, _ => reject insn next

def zbImm : Effect μ :=
  match c.bitmanip, bitmanipImm insn (funct3 insn) (funct7 insn) (c.x (rs1Of insn)) with
  | true, some v => putX (rdOf insn) v next
  | _, _ => reject insn next

def execJalr : Effect μ :=
  if funct3 insn ≠ 0 then reject insn next
  else putX (rdOf insn) next ((c.x (rs1Of insn) + immI insn) &&& ~~~1)

/-- Whether a branch is taken. -/
def branchTaken (f3 : BitVec 3) (a b : Word) : Option Bool :=
  if f3 = 0 then some (a == b)
  else if f3 = 1 then some (a != b)
  else if f3 = 4 then some (a.slt b)
  else if f3 = 5 then some (!a.slt b)
  else if f3 = 6 then some (a.ult b)
  else if f3 = 7 then some (!a.ult b)
  else none

def execBranch : Effect μ :=
  match branchTaken (funct3 insn) (c.x (rs1Of insn)) (c.x (rs2Of insn)) with
  | none => reject insn next
  | some taken => .done {} (if taken then c.pc + immB insn else next)

def execLoad : Effect μ :=
  let addr := c.x (rs1Of insn) + immI insn
  let rd := rdOf insn
  let f3 := funct3 insn
  if f3 = 0 then reading next (memRead h.toBus c addr 1) fun v => putX rd (sext8 v) next
  else if f3 = 1 then reading next (memRead h.toBus c addr 2) fun v => putX rd (sext16 v) next
  else if f3 = 2 then reading next (memRead h.toBus c addr 4) fun v => putX rd v next
  else if f3 = 4 then reading next (memRead h.toBus c addr 1) fun v => putX rd (v &&& 0xff) next
  else if f3 = 5 then reading next (memRead h.toBus c addr 2) fun v => putX rd (v &&& 0xffff) next
  else reject insn next

/-- A store that falls through to the end of the function, also after a trap. -/
def storing (addr : Word) (size : Nat) (v : Word) : Effect μ :=
  match memWrite h.toBus c addr size v with
  | .error e => .trap e next true
  | .ok m => .done { mem := some m } next

def execStore : Effect μ :=
  let addr := c.x (rs1Of insn) + immS insn
  let b := c.x (rs2Of insn)
  let f3 := funct3 insn
  if f3 = 0 then storing h c next addr 1 b
  else if f3 = 1 then storing h c next addr 2 b
  else if f3 = 2 then storing h c next addr 4 b
  else reject insn next

def execImm : Effect μ :=
  let a := c.x (rs1Of insn)
  let imm := immI insn
  let rd := rdOf insn
  let f3 := funct3 insn
  let f7 := funct7 insn
  if f3 = 0 then putX rd (a + imm) next
  else if f3 = 2 then putX rd (ofBool (a.slt imm)) next
  else if f3 = 3 then putX rd (ofBool (a.ult imm)) next
  else if f3 = 4 then putX rd (a ^^^ imm) next
  else if f3 = 6 then putX rd (a ||| imm) next
  else if f3 = 7 then putX rd (a &&& imm) next
  else if f3 = 1 then
    if f7 ≠ 0 then zbImm c insn next else putX rd (a <<< amount imm) next
  else if f7 = 0 then putX rd (a >>> amount imm) next
  else if f7 = 0x20 then putX rd (a.sshiftRight (amount imm)) next
  else zbImm c insn next

/-- The M extension. -/
def execMul (f3 : BitVec 3) (a b : Word) : Word :=
  if f3 = 0 then a * b
  else if f3 = 1 then ((a.signExtend 64 * b.signExtend 64) >>> 32).truncate 32
  else if f3 = 2 then ((a.signExtend 64 * b.zeroExtend 64) >>> 32).truncate 32
  else if f3 = 3 then ((a.zeroExtend 64 * b.zeroExtend 64) >>> 32).truncate 32
  else if f3 = 4 then
    if b = 0 then 0xffffffff
    else if a = 0x80000000 ∧ b = 0xffffffff then 0x80000000
    else a.sdiv b
  else if f3 = 5 then (if b = 0 then 0xffffffff else a / b)
  else if f3 = 6 then
    if b = 0 then a
    else if a = 0x80000000 ∧ b = 0xffffffff then 0
    else a.srem b
  else if b = 0 then a else a % b

def execReg : Effect μ :=
  let a := c.x (rs1Of insn)
  let b := c.x (rs2Of insn)
  let rd := rdOf insn
  let f3 := funct3 insn
  let f7 := funct7 insn
  if f7 = 0x01 then putX rd (execMul f3 a b) next
  else if f7 ≠ 0 ∧ f7 ≠ 0x20 then zbReg c insn next
  else if f3 = 0 then putX rd (if f7 = 0x20 then a - b else a + b) next
  else if f3 = 5 then
    putX rd (if f7 = 0 then a >>> amount b else a.sshiftRight (amount b)) next
  else if f7 ≠ 0 then zbReg c insn next
  else if f3 = 1 then putX rd (a <<< amount b) next
  else if f3 = 2 then putX rd (ofBool (a.slt b)) next
  else if f3 = 3 then putX rd (ofBool (a.ult b)) next
  else if f3 = 4 then putX rd (a ^^^ b) next
  else if f3 = 6 then putX rd (a ||| b) next
  else putX rd (a &&& b) next

def execMiscMem : Effect μ :=
  if funct3 insn ≠ 0 ∧ funct3 insn ≠ 1 then .trap (illegal insn) next true else .done {} next

def execLoadFp : Effect μ :=
  if funct3 insn ≠ 2 then reject insn next
  else
    reading next (memRead h.toBus c (c.x (rs1Of insn) + immI insn) 4) fun v =>
      .done { f := some (rdOf insn, v) } next

def execStoreFp : Effect μ :=
  if funct3 insn ≠ 2 then reject insn next
  else storing h c next (c.x (rs1Of insn) + immS insn) 4 (c.f (rs2Of insn))

def signBit : Word := 0x80000000

def execFma : Effect μ :=
  let fa := c.f (rs1Of insn)
  let fb := c.f (rs2Of insn)
  let fc := c.f (rs3Of insn)
  if insn >>> 25 &&& 3 ≠ 0 then reject insn next
  else
    match resolveRm c.fcsr ((funct3 insn).zeroExtend 32) with
    | none => reject insn next
    | some rm =>
      let op := opcode insn
      let r :=
        if op = opMadd then fpFma h.fp fa fb fc rm
        else if op = opMsub then fpFma h.fp fa fb (fc ^^^ signBit) rm
        else if op = opNmsub then fpFma h.fp (fa ^^^ signBit) fb fc rm
        else fpFma h.fp (fa ^^^ signBit) fb (fc ^^^ signBit) rm
      putF (rdOf insn) r next

/-- An operation that rounds. -/
def rounding (k : Rm → Effect μ) : Effect μ :=
  match resolveRm c.fcsr ((funct3 insn).zeroExtend 32) with
  | none => reject insn next
  | some rm => k rm

/-- `feq.s`, `flt.s` and `fle.s`: the result and the flags. -/
def fpCompare (f3 : BitVec 3) (fa fb : Word) : Word × Word :=
  if f3 = 2 then
    (ofBool (!f32IsNan fa && !f32IsNan fb && h.fp.eq (h.fp.val fa) (h.fp.val fb)),
      if f32IsSnan fa || f32IsSnan fb then flagNv else 0)
  else if f32IsNan fa || f32IsNan fb then (0, flagNv)
  else if f3 = 1 then (ofBool (h.fp.lt (h.fp.val fa) (h.fp.val fb)), 0)
  else (ofBool (h.fp.le (h.fp.val fa) (h.fp.val fb)), 0)

/-- The cases of `OP_FP` by the upper bits of `funct7`, on the operands `fa`, `fb` and `a`. -/
def fpCases (fa fb a : Word) (rd rs2 : Reg) (f3 : BitVec 3) (f5 : BitVec 7) : Effect μ :=
  if f5 = 0x00 then rounding c insn next fun rm => putF rd (fpAdd h.fp fa fb rm) next
  else if f5 = 0x01 then
    rounding c insn next fun rm => putF rd (fpAdd h.fp fa (fb ^^^ signBit) rm) next
  else if f5 = 0x02 then rounding c insn next fun rm => putF rd (fpMul h.fp fa fb rm) next
  else if f5 = 0x03 then rounding c insn next fun rm => putF rd (fpDiv h.fp fa fb rm) next
  else if f5 = 0x0b then
    if rs2 ≠ 0 then reject insn next
    else rounding c insn next fun rm => putF rd (fpSqrt h.fp fa rm) next
  else if f5 = 0x04 then
    if f3 = 0 then putF rd ((fa &&& 0x7fffffff) ||| (fb &&& signBit), 0) next
    else if f3 = 1 then putF rd ((fa &&& 0x7fffffff) ||| (~~~fb &&& signBit), 0) next
    else if f3 = 2 then putF rd (fa ^^^ (fb &&& signBit), 0) next
    else reject insn next
  else if f5 = 0x05 then
    if f3 = 0 then putF rd (fpMinmax h.fp fa fb false) next
    else if f3 = 1 then putF rd (fpMinmax h.fp fa fb true) next
    else reject insn next
  else if f5 = 0x14 then
    if f3 = 0 ∨ f3 = 1 ∨ f3 = 2 then
      .done { x := some (rd, (fpCompare h f3 fa fb).1), flags := (fpCompare h f3 fa fb).2 } next
    else reject insn next
  else if f5 = 0x18 then
    if rs2 ≠ 0 ∧ rs2 ≠ 1 then reject insn next
    else rounding c insn next fun rm =>
      .done { x := some (rd, (fpToInt h.fp fa (rs2 = 1) rm).1)
              flags := (fpToInt h.fp fa (rs2 = 1) rm).2 } next
  else if f5 = 0x1a then
    if rs2 ≠ 0 ∧ rs2 ≠ 1 then reject insn next
    else rounding c insn next fun rm =>
      putF rd (if rs2 = 0 then f32Round h.fp (h.fp.ofInt a.toInt) (h.fp.ofInt 0) rm (a.slt 0)
        else f32Round h.fp (h.fp.ofInt a.toNat) (h.fp.ofInt 0) rm false) next
  else if f5 = 0x1c then
    if rs2 ≠ 0 then reject insn next
    else if f3 = 0 then putX rd fa next
    else if f3 = 1 then putX rd (fpClass fa) next
    else reject insn next
  else if f5 = 0x1e then
    if rs2 ≠ 0 ∨ f3 ≠ 0 then reject insn next else putF rd (a, 0) next
  else reject insn next

def execFp : Effect μ :=
  if funct7 insn &&& 3 ≠ 0 then reject insn next
  else
    fpCases h c insn next (c.f (rs1Of insn)) (c.f (rs2Of insn)) (c.x (rs1Of insn)) (rdOf insn)
      (rs2Of insn) (funct3 insn) (funct7 insn >>> 2)

end Cases

/-! ## Atomics -/

def funct5 (insn : Word) : BitVec 5 := insn.extractLsb' 27 5

/-- The value that an AMO stores. -/
def amoValue (f5 : BitVec 5) (old b : Word) : Option Word :=
  if f5 = 0x00 then some (old + b)
  else if f5 = 0x01 then some b
  else if f5 = 0x04 then some (old ^^^ b)
  else if f5 = 0x08 then some (old ||| b)
  else if f5 = 0x0c then some (old &&& b)
  else if f5 = 0x10 then some (if old.slt b then old else b)
  else if f5 = 0x14 then some (if b.slt old then old else b)
  else if f5 = 0x18 then some (if old.ult b then old else b)
  else if f5 = 0x1c then some (if b.ult old then old else b)
  else none

def unalignedAtomic (insn addr : Word) : Fault :=
  if funct5 insn = 0x02 then ⟨4, addr, some (.loadMisalign, insn, addr, "unaligned atomic")⟩
  else ⟨6, addr, some (.storeMisalign, insn, addr, "unaligned atomic")⟩

/-- The reservation is `some a` when it is valid for the address `a`. -/
def execAmo (h : Host μ) (c : Core μ) (reservation : Option Word) (insn next : Word) : Effect μ :=
  let addr := c.x (rs1Of insn)
  let b := c.x (rs2Of insn)
  let rd := rdOf insn
  let f5 := funct5 insn
  if c.atomics = false ∨ funct3 insn ≠ 2 then reject insn next
  else if addr &&& 3 ≠ 0 then .trap (unalignedAtomic insn addr) next false
  else if f5 = 0x02 then
    if rs2Of insn ≠ 0 then reject insn next
    else
      reading next (memRead h.toBus c addr 4) fun old =>
        .done { x := some (rd, old), res := some (some addr) } next
  else if f5 = 0x03 then
    if reservation = some addr then
      match memWrite h.toBus c addr 4 b with
      | .error e => .trap e next false
      | .ok m => .done { x := some (rd, 0), mem := some m, res := some none } next
    else .done { x := some (rd, 1), res := some none } next
  else
    reading next (memRead h.toBus c addr 4) fun old =>
      match amoValue f5 old b with
      | none => reject insn next
      | some v =>
        match memWrite h.toBus c addr 4 v with
        | .error e => .trap e next false
        | .ok m => .done { x := some (rd, old), mem := some m } next

/-! ## Control and status registers -/

def csrRead (s : Cpu μ) (csr : BitVec 12) : Option Word :=
  if csr = 0x001 then some (s.fcsr &&& 0x1f)
  else if csr = 0x002 then some (s.fcsr >>> 5 &&& 7)
  else if csr = 0x003 then some (s.fcsr &&& 0xff)
  else if csr = 0xC00 ∨ csr = 0xB00 ∨ csr = 0xC01 then some (s.mcycle.truncate 32)
  else if csr = 0xC80 ∨ csr = 0xB80 ∨ csr = 0xC81 then some ((s.mcycle >>> 32).truncate 32)
  else if csr = 0xC02 ∨ csr = 0xB02 then some (s.minstret.truncate 32)
  else if csr = 0xC82 ∨ csr = 0xB82 then some ((s.minstret >>> 32).truncate 32)
  else if csr = 0x300 then some s.mstatus
  else if csr = 0x301 then
    some (1 <<< 30 ||| 1 <<< 8 ||| 1 <<< 12 ||| 1 <<< 5 ||| 1 <<< 2 |||
      (if s.atomics then 1 <<< 0 else 0) ||| (if s.bitmanip then 1 <<< 1 else 0))
  else if csr = 0x304 then some s.mie
  else if csr = 0x305 then some s.mtvec
  else if csr = 0x340 then some s.mscratch
  else if csr = 0x341 then some s.mepc
  else if csr = 0x342 then some s.mcause
  else if csr = 0x343 then some s.mtval
  else if csr = 0x344 then some s.mip
  else if csr = 0xF11 ∨ csr = 0xF12 ∨ csr = 0xF13 ∨ csr = 0xF14 then some 0
  else none

def csrWrite (s : Cpu μ) (csr : BitVec 12) (val : Word) : Option (Cpu μ) :=
  if csr = 0x001 then some { s with fcsr := s.fcsr &&& ~~~(0x1f : Word) ||| (val &&& 0x1f) }
  else if csr = 0x002 then some { s with fcsr := s.fcsr &&& ~~~(0xe0 : Word) ||| (val &&& 7) <<< 5 }
  else if csr = 0x003 then some { s with fcsr := val &&& 0xff }
  else if csr = 0x300 then some { s with mstatus := val }
  else if csr = 0x304 then some { s with mie := val }
  else if csr = 0x305 then some { s with mtvec := val }
  else if csr = 0x340 then some { s with mscratch := val }
  else if csr = 0x341 then some { s with mepc := val &&& ~~~1 }
  else if csr = 0x342 then some { s with mcause := val }
  else if csr = 0x343 then some { s with mtval := val }
  else if csr = 0x344 then some { s with mip := val }
  else if csr = 0xB00 then
    some { s with mcycle := (s.mcycle &&& 0xffffffff00000000) ||| val.zeroExtend 64 }
  else if csr = 0xB80 then
    some { s with mcycle := (s.mcycle &&& 0xffffffff) ||| val.zeroExtend 64 <<< 32 }
  else if csr = 0xB02 then
    some { s with minstret := (s.minstret &&& 0xffffffff00000000) ||| val.zeroExtend 64 }
  else if csr = 0xB82 then
    some { s with minstret := (s.minstret &&& 0xffffffff) ||| val.zeroExtend 64 <<< 32 }
  else if csr = 0x301 then some s
  else none

def csrOf (insn : Word) : BitVec 12 := insn.extractLsb' 20 12

/-- The low bits of `funct3` choose between writing, setting and clearing. -/
def csrValue (f3 : BitVec 3) (old val : Word) : Word :=
  if f3 &&& 3 = 1 then val
  else if f3 &&& 3 = 2 then old ||| val
  else old &&& ~~~val

def ecallInsn : Word := 0x00000073
def ebreakInsn : Word := 0x00100073
def mretInsn : Word := 0x30200073
def wfiInsn : Word := 0x10500073

def execCsr (s : Cpu μ) (insn next : Word) : Cpu μ × Word :=
  let rd := rdOf insn
  let rs1 := rs1Of insn
  let f3 := funct3 insn
  let csr := csrOf insn
  let val := if f3 &&& 4 ≠ 0 then rs1.zeroExtend 32 else s.x rs1
  if f3 = 4 then (raise s (illegal insn), next)
  else
    match if f3 &&& 3 = 1 ∧ rd = 0 then some 0 else csrRead s csr with
    | none => (raise s (illegal insn), next)
    | some old =>
      if f3 &&& 3 ≠ 1 ∧ rs1 = 0 then (clearX0 (s.setX rd old), next)
      else
        match csrWrite s csr (csrValue f3 old val) with
        | none => (raise s (illegal insn), next)
        | some s' => (clearX0 ((s'.setX rd old).push .csr s.pc insn (csr.zeroExtend 32) ""), next)

/-- The machine in which `ecall` is met by the callback. -/
def ecallEntry (s : Cpu μ) (insn : Word) : Cpu μ := s.push .ecall s.pc insn (s.x 17) ""

def execEcall (h : Host μ) (s : Cpu μ) (insn next : Word) : Cpu μ × Word :=
  let s := ecallEntry s insn
  match h.ecall with
  | none => (rvTrap s 11 0, next)
  | some call =>
    let (s, handled) := call s
    if handled then (clearX0 s, next) else (rvTrap s 11 0, next)

/-- `mstatus` after `mret`. -/
def mretStatus (m : Word) : Word :=
  let m1 := m ||| mstatusMie
  let m2 := if m1 &&& mstatusMpie = 0 then m1 &&& ~~~mstatusMie else m1
  m2 ||| mstatusMpie

def execSystem (h : Host μ) (s : Cpu μ) (insn next : Word) : Cpu μ × Word :=
  if funct3 insn = 0 then
    if insn = ecallInsn then execEcall h s insn next
    else if insn = ebreakInsn then
      (raise s ⟨3, 0, some (.ebreak, insn, 0, "")⟩, next)
    else if insn = mretInsn then ({ s with mstatus := mretStatus s.mstatus }, s.mepc)
    else if insn = wfiInsn then (clearX0 { s with waiting := true }, next)
    else (raise s (illegal insn), next)
  else execCsr s insn next

/-! ## `exec` -/

/-- The cases that work on registers and memory. -/
def execCore (h : Host μ) (c : Core μ) (insn next : Word) : Effect μ :=
  let op := opcode insn
  if op = opLui then putX (rdOf insn) (immU insn) next
  else if op = opAuipc then putX (rdOf insn) (c.pc + immU insn) next
  else if op = opJal then putX (rdOf insn) next (c.pc + immJ insn)
  else if op = opJalr then execJalr c insn next
  else if op = opBranch then execBranch c insn next
  else if op = opLoad then execLoad h c insn next
  else if op = opStore then execStore h c insn next
  else if op = opImm then execImm c insn next
  else if op = opReg then execReg c insn next
  else if op = opMiscMem then execMiscMem insn next
  else if op = opLoadFp then execLoadFp h c insn next
  else if op = opStoreFp then execStoreFp h c insn next
  else if op = opMadd ∨ op = opMsub ∨ op = opNmsub ∨ op = opNmadd then execFma h c insn next
  else if op = opFp then execFp h c insn next
  else reject insn next

def Cpu.reservation (s : Cpu μ) : Option Word := if s.resValid then some s.resAddr else none

def exec (h : Host μ) (s : Cpu μ) (insn next : Word) : Cpu μ × Word :=
  if opcode insn = opSystem then execSystem h s insn next
  else if opcode insn = opAmo then (execAmo h s.toCore s.reservation insn next).apply s
  else (execCore h s.toCore insn next).apply s

/-! ## Zcmp -/

/-- `zcmp_sreg` -/
def zcmpSreg : List Reg := [8, 9, 18, 19, 20, 21, 22, 23, 24, 25, 26, 27]

/-- The registers that a list names; none for the reserved ones. -/
def zcmpRegs (rlist : BitVec 4) : List Reg :=
  if rlist < 4 then []
  else 1 :: zcmpSreg.take (if rlist = 15 then 12 else rlist.toNat - 4)

def zcmpStackAdj (rlist : BitVec 4) (spimm : BitVec 2) : Word :=
  let base : Word :=
    if rlist ≤ 7 then 16 else if rlist ≤ 11 then 32 else if rlist ≤ 14 then 48 else 64
  base + spimm.zeroExtend 32 * 16

/-- The loop of `cm.push`, from the address `addr` on.  It ends at the first fault. -/
def pushLoop (h : Host μ) (s : Cpu μ) (addr : Word) : List Reg → Except (Cpu μ) (Cpu μ)
  | [] => .ok s
  | r :: regs =>
    match memWrite h.toBus s.toCore addr 4 (s.x r) with
    | .error e => .error (raise s e)
    | .ok m => pushLoop h { s with mem := m } (addr + 4) regs

/-- The loop of `cm.pop`. -/
def popLoop (h : Host μ) (s : Cpu μ) (addr : Word) : List Reg → Except (Cpu μ) (Cpu μ)
  | [] => .ok s
  | r :: regs =>
    match memRead h.toBus s.toCore addr 4 with
    | .error e => .error (raise s e)
    | .ok v => popLoop h (s.setX r v) (addr + 4) regs

def zcmpFunct5 (insn : BitVec 16) : BitVec 5 := insn.extractLsb' 8 5
def zcmpRlist (insn : BitVec 16) : BitVec 4 := insn.extractLsb' 4 4
def zcmpSpimm (insn : BitVec 16) : BitVec 2 := insn.extractLsb' 2 2

/-- The register in a three-bit field. -/
def zcmpSregOf (r : BitVec 3) : Reg := zcmpSreg.getD r.toNat 0

/-- `cm.mvsa01` and `cm.mva01s` -/
def execZcmpMove (s : Cpu μ) (insn : BitVec 16) : Option (Cpu μ) :=
  let r1 : BitVec 3 := insn.extractLsb' 7 3
  let r2 : BitVec 3 := insn.extractLsb' 2 3
  let f : BitVec 2 := insn.extractLsb' 5 2
  if r1 = r2 then none
  else if f = 1 then
    let s1 := s.setX (zcmpSregOf r1) (s.x 10)
    some (s1.setX (zcmpSregOf r2) (s1.x 11))
  else if f = 3 then
    let s1 := s.setX 10 (s.x (zcmpSregOf r1))
    some (s1.setX 11 (s1.x (zcmpSregOf r2)))
  else none

def cmPush (h : Host μ) (s : Cpu μ) (rlist : BitVec 4) (spimm : BitVec 2) : Cpu μ :=
  let regs := zcmpRegs rlist
  match pushLoop h s (s.x 2 - BitVec.ofNat 32 regs.length * 4) regs with
  | .error s => s
  | .ok s => s.setX 2 (s.x 2 - zcmpStackAdj rlist spimm)

/-- The three forms of pop, with the address of the next instruction. -/
def cmPop (h : Host μ) (s : Cpu μ) (f5 : BitVec 5) (rlist : BitVec 4) (spimm : BitVec 2)
    (next : Word) : Cpu μ × Word :=
  let regs := zcmpRegs rlist
  let adj := zcmpStackAdj rlist spimm
  match popLoop h s (s.x 2 + adj - BitVec.ofNat 32 regs.length * 4) regs with
  | .error s => (s, next)
  | .ok s =>
    let s := s.setX 2 (s.x 2 + adj)
    let s := if f5 = 0x1c then s.setX 10 0 else s
    (s, if f5 ≠ 0x1a then s.x 1 else next)

/-- The machine and the address of the next instruction, or none for an invalid encoding. -/
def execZcmp (h : Host μ) (s : Cpu μ) (insn : BitVec 16) (next : Word) : Option (Cpu μ × Word) :=
  if insn.extractLsb' 10 3 = 3 then (execZcmpMove s insn).map fun s => (s, next)
  else
    let f5 := zcmpFunct5 insn
    let rlist := zcmpRlist insn
    let spimm := zcmpSpimm insn
    if zcmpRegs rlist = [] then none
    else if f5 = 0x18 then some (cmPush h s rlist spimm, next)
    else if f5 = 0x1a ∨ f5 = 0x1c ∨ f5 = 0x1e then some (cmPop h s f5 rlist spimm next)
    else none

def isZcmp (insn : BitVec 16) : Bool :=
  insn &&& 0xe003 = 0xa002 && (insn.extractLsb' 10 3 = 3 || insn.extractLsb' 11 2 = 3)

/-! ## `rv_step` -/

/-- Counts the instruction, and goes on at `next` unless a trap was taken. -/
def retire (r : Cpu μ × Word) : Cpu μ :=
  { r.1 with
    pc := if r.1.inTrap then r.1.pc else r.2
    cycles := r.1.cycles + 1
    mcycle := r.1.mcycle + 1
    minstret := r.1.minstret + 1 }

/-- The encoding for `exec` of a compressed instruction. -/
def expand (c : Core μ) (lo : BitVec 16) : Word :=
  let insn := rvExpandC lo
  if insn = 0 ∧ c.zcb = true then rvExpandZcb lo else insn

def stepCompressed (h : Host μ) (s : Cpu μ) (lo : BitVec 16) : Cpu μ :=
  let next := s.pc + 2
  if s.zcmp && isZcmp lo then
    match execZcmp h s lo next with
    | none => raise s (illegal (lo.zeroExtend 32))
    | some r => retire (clearX0 r.1, r.2)
  else if expand s.toCore lo = 0 then raise s (illegal (lo.zeroExtend 32))
  else retire (exec h s (expand s.toCore lo) next)

def fetchFault (addr : Word) : Fault := ⟨1, addr, some (.fetchFault, 0, addr, "")⟩

/-- The halfword that the bus gives for a fetch. -/
def fetchHalf (h : Host μ) (s : Cpu μ) (addr : Word) : BitVec 16 :=
  (h.read16 s.mem addr).truncate 16

/-- The step when no interrupt is taken. -/
def stepInsn (h : Host μ) (s : Cpu μ) : Cpu μ :=
  if s.pc &&& 1 ≠ 0 then raise s ⟨0, s.pc, none⟩
  else if h.refuses s.mem s.pc 2 false then raise s (fetchFault s.pc)
  else
    let lo := fetchHalf h s s.pc
    if lo &&& 3 ≠ 3 then stepCompressed h s lo
    else if h.refuses s.mem (s.pc + 2) 2 false then raise s (fetchFault (s.pc + 2))
    else retire (exec h s (fetchHalf h s (s.pc + 2) ++ lo) (s.pc + 4))

/-- The machine after a step of one that is not halted. -/
def stepRunning (h : Host μ) (s : Cpu μ) : Cpu μ :=
  if s.mip &&& s.mie ≠ 0 ∧ rvIrqPending s ≠ 0 then rvTrap s (rvIrqPending s) 0 else stepInsn h s

def rvStep (h : Host μ) (s : Cpu μ) : Cpu μ × Int :=
  if s.halted then (s, -1)
  else
    let s := stepRunning h { s with inTrap := false }
    (s, if s.halted then -1 else 0)

end MechanicalResearcher.Rv32
