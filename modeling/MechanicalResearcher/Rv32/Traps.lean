import MechanicalResearcher.Lib.Bits
import MechanicalResearcher.Rv32.AmoFaults
import MechanicalResearcher.Rv32.Steps

/-!
# Traps are precise

An instruction that takes an exception leaves the registers and the memory as they were, and the
trap names it and its fault.  The faults are those of the fetch, and then those of the one
encoding that is executed (`InsnFault`).  Only atomics have traps with the name of another fault.
-/

namespace MechanicalResearcher.Rv32

open Lib.Bits

variable {v addr : Word} {size : Nat} {e : Fault} {csr : BitVec 12} {lo : BitVec 16}

variable {μ : Type}

/-! ## Encodings -/

/-- The register-register encodings of Zba, Zbb and Zbs. -/
def definedZbReg (f3 : BitVec 3) (f7 : BitVec 7) (rs2 : Reg) : Prop :=
  f7 = 0x04 ∧ f3 = 4 ∧ rs2 = 0 ∨
  f7 = 0x05 ∧ (f3 = 4 ∨ f3 = 5 ∨ f3 = 6 ∨ f3 = 7) ∨
  f7 = 0x10 ∧ (f3 = 2 ∨ f3 = 4 ∨ f3 = 6) ∨
  f7 = 0x14 ∧ f3 = 1 ∨
  f7 = 0x20 ∧ (f3 = 4 ∨ f3 = 6 ∨ f3 = 7) ∨
  f7 = 0x24 ∧ (f3 = 1 ∨ f3 = 5) ∨
  f7 = 0x30 ∧ (f3 = 1 ∨ f3 = 5) ∨
  f7 = 0x34 ∧ f3 = 1

def definedReg (c : Core μ) (f3 : BitVec 3) (f7 : BitVec 7) (rs2 : Reg) : Prop :=
  f7 = 0x00 ∨ f7 = 0x01 ∨ f7 = 0x20 ∧ (f3 = 0 ∨ f3 = 5) ∨
    c.bitmanip = true ∧ definedZbReg f3 f7 rs2

/-- The register-immediate encodings of Zbb and Zbs. -/
def definedZbImm (f3 : BitVec 3) (f7 : BitVec 7) (shamt : Reg) : Prop :=
  f7 = 0x14 ∧ (f3 = 1 ∨ f3 = 5 ∧ shamt = 7) ∨
  f7 = 0x24 ∧ (f3 = 1 ∨ f3 = 5) ∨
  f7 = 0x30 ∧ (f3 = 5 ∨ f3 = 1 ∧ (shamt = 0 ∨ shamt = 1 ∨ shamt = 2 ∨ shamt = 4 ∨ shamt = 5)) ∨
  f7 = 0x34 ∧ (f3 = 1 ∨ f3 = 5 ∧ shamt = 0x18)

def definedImm (c : Core μ) (f3 : BitVec 3) (f7 : BitVec 7) (shamt : Reg) : Prop :=
  f3 ≠ 1 ∧ f3 ≠ 5 ∨ f7 = 0x00 ∨ f7 = 0x20 ∧ f3 = 5 ∨
    c.bitmanip = true ∧ definedZbImm f3 f7 shamt

/-- A field that names a rounding mode. -/
def roundable (c : Core μ) (f3 : BitVec 3) : Prop :=
  resolveRm c.fcsr (f3.zeroExtend 32) ≠ none

/-- The encodings of `OP_FP`, by the upper bits of `funct7`. -/
def definedFp (c : Core μ) (f3 : BitVec 3) (f5 : BitVec 7) (rs2 : Reg) : Prop :=
  (f5 = 0x00 ∨ f5 = 0x01 ∨ f5 = 0x02 ∨ f5 = 0x03) ∧ roundable c f3 ∨
  f5 = 0x0b ∧ rs2 = 0 ∧ roundable c f3 ∨
  f5 = 0x04 ∧ (f3 = 0 ∨ f3 = 1 ∨ f3 = 2) ∨
  f5 = 0x05 ∧ (f3 = 0 ∨ f3 = 1) ∨
  f5 = 0x14 ∧ (f3 = 0 ∨ f3 = 1 ∨ f3 = 2) ∨
  (f5 = 0x18 ∨ f5 = 0x1a) ∧ (rs2 = 0 ∨ rs2 = 1) ∧ roundable c f3 ∨
  f5 = 0x1c ∧ rs2 = 0 ∧ (f3 = 0 ∨ f3 = 1) ∨
  f5 = 0x1e ∧ rs2 = 0 ∧ f3 = 0

def definedAmo (f5 : BitVec 5) (rs2 : Reg) : Prop :=
  f5 = 0x02 ∧ rs2 = 0 ∨
  f5 ∈ [0x03, 0x00, 0x01, 0x04, 0x08, 0x0c, 0x10, 0x14, 0x18, (0x1c : BitVec 5)]

def csrWritable : List (BitVec 12) :=
  [0x001, 0x002, 0x003, 0x300, 0x301, 0x304, 0x305, 0x340, 0x341, 0x342, 0x343, 0x344,
    0xB00, 0xB80, 0xB02, 0xB82]

def csrReadable : List (BitVec 12) :=
  csrWritable ++ [0xC00, 0xC01, 0xC02, 0xC80, 0xC81, 0xC82, 0xF11, 0xF12, 0xF13, 0xF14]

/-- A `csrrw` to x0 does not read, and a set or a clear of nothing does not write. -/
def definedCsr (f3 : BitVec 3) (rd rs1 : Reg) (csr : BitVec 12) : Prop :=
  f3 ≠ 4 ∧ (f3 &&& 3 = 1 ∧ rd = 0 ∨ csr ∈ csrReadable) ∧
    (f3 &&& 3 ≠ 1 ∧ rs1 = 0 ∨ csr ∈ csrWritable)

/-- The encodings of the machine. -/
def Defined (c : Core μ) (insn : Word) : Prop :=
  let op := opcode insn
  let f3 := funct3 insn
  let f7 := funct7 insn
  let rs2 := rs2Of insn
  if op = opLui ∨ op = opAuipc ∨ op = opJal then True
  else if op = opJalr then f3 = 0
  else if op = opBranch then f3 ≠ 2 ∧ f3 ≠ 3
  else if op = opLoad then f3 = 0 ∨ f3 = 1 ∨ f3 = 2 ∨ f3 = 4 ∨ f3 = 5
  else if op = opStore then f3 = 0 ∨ f3 = 1 ∨ f3 = 2
  else if op = opImm then definedImm c f3 f7 rs2
  else if op = opReg then definedReg c f3 f7 rs2
  else if op = opAmo then c.atomics = true ∧ f3 = 2 ∧ definedAmo (funct5 insn) rs2
  else if op = opMiscMem then f3 = 0 ∨ f3 = 1
  else if op = opLoadFp ∨ op = opStoreFp then f3 = 2
  else if op = opMadd ∨ op = opMsub ∨ op = opNmsub ∨ op = opNmadd then
    insn >>> 25 &&& 3 = 0 ∧ roundable c f3
  else if op = opFp then f7 &&& 3 = 0 ∧ definedFp c f3 (f7 >>> 2) rs2
  else if op = opSystem then
    if f3 = 0 then insn = ecallInsn ∨ insn = ebreakInsn ∨ insn = mretInsn ∨ insn = wfiInsn
    else definedCsr f3 (rdOf insn) (rs1Of insn) (csrOf insn)
  else False

attribute [local simp] opLoad opLoadFp opMiscMem opImm opAuipc opStore opStoreFp opAmo opReg opLui
  opMadd opMsub opNmsub opNmadd opFp opBranch opJalr opJal opSystem

/-! ## Faults -/

/-- The address and the size of what an instruction loads; of the atomics only `lr.w` is a load. -/
def loads (c : Core μ) (insn : Word) : Option (Word × Nat) :=
  let f3 := funct3 insn
  if opcode insn = opLoad then
    some (c.x (rs1Of insn) + immI insn, if f3 = 0 ∨ f3 = 4 then 1 else if f3 = 2 then 4 else 2)
  else if opcode insn = opLoadFp then some (c.x (rs1Of insn) + immI insn, 4)
  else if opcode insn = opAmo ∧ funct5 insn = 0x02 then some (c.x (rs1Of insn), 4)
  else none

/-- The address and the size of what an instruction stores. -/
def stores (c : Core μ) (insn : Word) : Option (Word × Nat) :=
  let f3 := funct3 insn
  if opcode insn = opStore then
    some (c.x (rs1Of insn) + immS insn, if f3 = 0 then 1 else if f3 = 1 then 2 else 4)
  else if opcode insn = opStoreFp then some (c.x (rs1Of insn) + immS insn, 4)
  else if opcode insn = opAmo ∧ funct5 insn ≠ 0x02 then some (c.x (rs1Of insn), 4)
  else none

/-- An atomic that reads the word which it stores. -/
def modifies (insn : Word) : Prop :=
  opcode insn = opAmo ∧ funct5 insn ≠ 0x02 ∧ funct5 insn ≠ 0x03

/-- An access that must be aligned and is not. -/
def Unaligned (c : Core μ) (insn addr : Word) (size : Nat) : Prop :=
  (c.trapMisaligned = true ∨ opcode insn = opAmo) ∧ misaligned addr size = true

/-- The fault of an encoding on the machine, as the cause and the value of its trap.  An encoding
that is not defined has no other fault. -/
inductive InsnFault (h : Host μ) (c : Core μ) (insn : Word) : Word → Word → Prop
  | illegal (undefined : ¬ Defined c insn) : InsnFault h c insn 2 insn
  | breakpoint (eq : insn = ebreakInsn) : InsnFault h c insn 3 0
  | ecall (eq : insn = ecallInsn) : InsnFault h c insn 11 0
  | loadMisaligned {addr : Word} {size : Nat} (defined : Defined c insn)
      (access : loads c insn = some (addr, size)) (bad : Unaligned c insn addr size) :
      InsnFault h c insn 4 addr
  | loadRefused {addr : Word} {size : Nat} (defined : Defined c insn)
      (access : loads c insn = some (addr, size)) (aligned : ¬ Unaligned c insn addr size)
      (bad : h.refuses c.mem addr size false = true) : InsnFault h c insn 5 addr
  | storeMisaligned {addr : Word} {size : Nat} (defined : Defined c insn)
      (access : stores c insn = some (addr, size)) (bad : Unaligned c insn addr size) :
      InsnFault h c insn 6 addr
  | storeRefused {addr : Word} {size : Nat} (defined : Defined c insn)
      (access : stores c insn = some (addr, size)) (aligned : ¬ Unaligned c insn addr size)
      (bad : h.refuses c.mem addr size true = true ∨
        modifies insn ∧ h.refuses c.mem addr size false = true) : InsnFault h c insn 7 addr

/-- An atomic that is not defined and whose address is not aligned, or whose load is refused: the
access is made before the operation is decoded, and the load names the cause. -/
def Misreported (h : Host μ) (c : Core μ) (insn : Word) : Prop :=
  let addr := c.x (rs1Of insn)
  opcode insn = opAmo ∧ c.atomics = true ∧ funct3 insn = 2 ∧
    (addr &&& 3 ≠ 0 ∧ ¬ definedAmo (funct5 insn) (rs2Of insn) ∨
      addr &&& 3 = 0 ∧ funct5 insn ≠ 0x02 ∧ funct5 insn ≠ 0x03 ∧
        h.refuses c.mem addr 4 false = true)

/-- The trap of an effect, if any, names a fault. -/
def Effect.Explained (h : Host μ) (c : Core μ) (insn : Word) : Effect μ → Prop
  | .done _ _ => True
  | .trap e _ _ => InsnFault h c insn e.cause e.tval

section Explained

variable {h : Host μ} {c : Core μ} {insn next : Word} {rs2 : Reg} {f5 : BitVec 7}

theorem reject_explained (hun : ¬ Defined c insn) :
    (reject insn next : Effect μ).Explained h c insn := .illegal hun

theorem putX_explained {rd : Reg} {n : Word} :
    (putX rd v n : Effect μ).Explained h c insn := trivial

theorem putF_explained {rd : Reg} {r : Word × Word} {n : Word} :
    (putF rd r n : Effect μ).Explained h c insn := trivial

theorem memRead_error (hdef : Defined c insn) (hload : loads c insn = some (addr, size))
    (hal : opcode insn = opAmo → misaligned addr size = false)
    (herr : memRead h.toBus c addr size = .error e) : InsnFault h c insn e.cause e.tval := by
  unfold memRead at herr
  split_ifs at herr with hmis href
  · cases herr
    obtain ⟨htrap, hmis⟩ := Bool.and_eq_true_iff.1 hmis
    exact .loadMisaligned hdef hload ⟨.inl htrap, hmis⟩
  · cases herr
    refine .loadRefused hdef hload (fun hbad => ?_) href
    rcases hbad with ⟨htrap | hamo, hbad⟩
    · exact hmis (Bool.and_eq_true_iff.2 ⟨htrap, hbad⟩)
    · exact absurd (hbad.symm.trans (hal hamo)) (by decide)

theorem memWrite_error (hdef : Defined c insn) (hstore : stores c insn = some (addr, size))
    (hal : opcode insn = opAmo → misaligned addr size = false)
    (herr : memWrite h.toBus c addr size v = .error e) : InsnFault h c insn e.cause e.tval := by
  unfold memWrite at herr
  split_ifs at herr with hmis href
  · cases herr
    obtain ⟨htrap, hmis⟩ := Bool.and_eq_true_iff.1 hmis
    exact .storeMisaligned hdef hstore ⟨.inl htrap, hmis⟩
  · cases herr
    refine .storeRefused hdef hstore (fun hbad => ?_) (.inl href)
    rcases hbad with ⟨htrap | hamo, hbad⟩
    · exact hmis (Bool.and_eq_true_iff.2 ⟨htrap, hbad⟩)
    · exact absurd (hbad.symm.trans (hal hamo)) (by decide)

theorem reading_explained {k : Word → Effect μ} (hdef : Defined c insn)
    (hload : loads c insn = some (addr, size))
    (hal : opcode insn = opAmo → misaligned addr size = false) (hk : ∀ v, (k v).Explained h c insn)
    :
    (reading next (memRead h.toBus c addr size) k).Explained h c insn := by
  unfold reading
  split
  · exact memRead_error hdef hload hal (by assumption)
  · exact hk _

theorem storing_explained (hdef : Defined c insn) (hstore : stores c insn = some (addr, size))
    (hal : opcode insn = opAmo → misaligned addr size = false) :
    (storing h c next addr size v).Explained h c insn := by
  unfold storing
  split
  · exact memWrite_error hdef hstore hal (by assumption)
  · trivial

theorem rounding_explained {k : Rm → Effect μ}
    (hun : ¬ roundable c (funct3 insn) → ¬ Defined c insn)
    (hk : ∀ rm, (k rm).Explained h c insn) : (rounding c insn next k).Explained h c insn := by
  unfold rounding
  split
  · exact reject_explained (hun (by simp [roundable, *]))
  · exact hk _

theorem bitmanipReg_eq_none {f3 : BitVec 3} {f7 : BitVec 7} {a b : Word}
    (hb : bitmanipReg insn f3 f7 a b = none) : ¬ definedZbReg f3 f7 (rs2Of insn) := by
  rintro (⟨rfl, rfl, h0⟩ | ⟨rfl, rfl | rfl | rfl | rfl⟩ | ⟨rfl, rfl | rfl | rfl⟩ | ⟨rfl, rfl⟩ |
    ⟨rfl, rfl | rfl | rfl⟩ | ⟨rfl, rfl | rfl⟩ | ⟨rfl, rfl | rfl⟩ | ⟨rfl, rfl⟩) <;>
    simp_all [bitmanipReg]

theorem bitmanipImm_eq_none {f3 : BitVec 3} {f7 : BitVec 7} {a : Word}
    (hb : bitmanipImm insn f3 f7 a = none) : ¬ definedZbImm f3 f7 (rs2Of insn) := by
  rintro (⟨rfl, rfl | ⟨rfl, h0⟩⟩ | ⟨rfl, rfl | rfl⟩ | ⟨rfl, rfl | ⟨rfl, h0 | h0 | h0 | h0 | h0⟩⟩ |
    ⟨rfl, rfl | ⟨rfl, h0⟩⟩) <;>
    simp_all [bitmanipImm]

theorem zbReg_explained (hop : opcode insn = opReg) (h0 : funct7 insn ≠ 0) (h1 : funct7 insn ≠ 1)
    (h20 : ¬ (funct7 insn = 0x20 ∧ (funct3 insn = 0 ∨ funct3 insn = 5))) :
    (zbReg c insn next).Explained h c insn := by
  unfold zbReg
  split
  · exact putX_explained
  · rename_i hnone
    refine reject_explained fun hdef => ?_
    have hreg : definedReg c (funct3 insn) (funct7 insn) (rs2Of insn) := by
      simpa [Defined, hop] using hdef
    obtain hdef | hdef | hdef | ⟨hb, hdef⟩ := hreg
    · exact h0 hdef
    · exact h1 hdef
    · exact h20 hdef
    · cases hv : bitmanipReg insn (funct3 insn) (funct7 insn) (c.x (rs1Of insn))
          (c.x (rs2Of insn)) with
      | none => exact bitmanipReg_eq_none hv hdef
      | some v => exact hnone v hb hv

theorem zbImm_explained (hop : opcode insn = opImm) (h15 : funct3 insn = 1 ∨ funct3 insn = 5)
    (h0 : funct7 insn ≠ 0) (h20 : ¬ (funct7 insn = 0x20 ∧ funct3 insn = 5)) :
    (zbImm c insn next).Explained h c insn := by
  unfold zbImm
  split
  · exact putX_explained
  · rename_i hnone
    refine reject_explained fun hdef => ?_
    have himm : definedImm c (funct3 insn) (funct7 insn) (rs2Of insn) := by
      simpa [Defined, hop] using hdef
    obtain hdef | hdef | hdef | ⟨hb, hdef⟩ := himm
    · exact h15.elim hdef.1 hdef.2
    · exact h0 hdef
    · exact h20 hdef
    · cases hv : bitmanipImm insn (funct3 insn) (funct7 insn) (c.x (rs1Of insn)) with
      | none => exact bitmanipImm_eq_none hv hdef
      | some v => exact hnone v hb hv

theorem execJalr_explained (hop : opcode insn = opJalr) :
    (execJalr c insn next).Explained h c insn := by
  unfold execJalr
  split_ifs with h0
  · exact reject_explained (by simpa [Defined, hop] using h0)
  · exact putX_explained

theorem execBranch_explained (hop : opcode insn = opBranch) :
    (execBranch c insn next).Explained h c insn := by
  unfold execBranch
  split
  · rename_i hnone
    refine reject_explained fun hdef => ?_
    have hf3 : funct3 insn ≠ 2 ∧ funct3 insn ≠ 3 := by simpa [Defined, hop] using hdef
    unfold branchTaken at hnone
    split_ifs at hnone
    revert hf3
    generalize funct3 insn = f3 at *
    revert f3
    decide
  · trivial

theorem execLoad_explained (hop : opcode insn = opLoad) :
    (execLoad h c insn next).Explained h c insn := by
  have hread {size : Nat} {k : Word → Word} (hdef : Defined c insn)
      (hload : loads c insn = some (c.x (rs1Of insn) + immI insn, size)) :
      (reading next (memRead h.toBus c (c.x (rs1Of insn) + immI insn) size)
        fun v => putX (rdOf insn) (k v) next).Explained h c insn :=
    reading_explained hdef hload (fun hamo => by simp [hop] at hamo) fun _ => putX_explained
  unfold execLoad
  simp only
  split_ifs with h0 h1 h2 h4 h5
  · exact hread (by simp [Defined, hop, h0]) (by simp [loads, hop, h0])
  · exact hread (by simp [Defined, hop, h1]) (by simp [loads, hop, h1])
  · exact hread (by simp [Defined, hop, h2]) (by simp [loads, hop, h2])
  · exact hread (by simp [Defined, hop, h4]) (by simp [loads, hop, h4])
  · exact hread (by simp [Defined, hop, h5]) (by simp [loads, hop, h5])
  · refine reject_explained fun hdef => ?_
    obtain hf3 | hf3 | hf3 | hf3 | hf3 : funct3 insn = 0 ∨ funct3 insn = 1 ∨ funct3 insn = 2 ∨
        funct3 insn = 4 ∨ funct3 insn = 5 := by simpa [Defined, hop] using hdef
    · exact h0 hf3
    · exact h1 hf3
    · exact h2 hf3
    · exact h4 hf3
    · exact h5 hf3

theorem execStore_explained (hop : opcode insn = opStore) :
    (execStore h c insn next).Explained h c insn := by
  have hstore {size : Nat} (hdef : Defined c insn)
      (hacc : stores c insn = some (c.x (rs1Of insn) + immS insn, size)) :
      (storing h c next (c.x (rs1Of insn) + immS insn) size (c.x (rs2Of insn))).Explained h c insn :=
    storing_explained hdef hacc fun hamo => by simp [hop] at hamo
  unfold execStore
  simp only
  split_ifs with h0 h1 h2
  · exact hstore (by simp [Defined, hop, h0]) (by simp [stores, hop, h0])
  · exact hstore (by simp [Defined, hop, h1]) (by simp [stores, hop, h1])
  · exact hstore (by simp [Defined, hop, h2]) (by simp [stores, hop, h2])
  · refine reject_explained fun hdef => ?_
    obtain hf3 | hf3 | hf3 : funct3 insn = 0 ∨ funct3 insn = 1 ∨ funct3 insn = 2 := by
      simpa [Defined, hop] using hdef
    · exact h0 hf3
    · exact h1 hf3
    · exact h2 hf3

theorem ite_explained {p : Prop} [Decidable p] {e e' : Effect μ}
    (ht : p → e.Explained h c insn) (hf : ¬ p → e'.Explained h c insn) :
    (if p then e else e').Explained h c insn := by
  split
  · exact ht (by assumption)
  · exact hf (by assumption)

theorem execImm_explained (hop : opcode insn = opImm) :
    (execImm c insn next).Explained h c insn := by
  unfold execImm
  refine ite_explained (fun _ => putX_explained) fun h0 => ite_explained (fun _ => putX_explained)
    fun h2 => ite_explained (fun _ => putX_explained) fun h3 => ite_explained
    (fun _ => putX_explained) fun h4 => ite_explained (fun _ => putX_explained) fun h6 =>
    ite_explained (fun _ => putX_explained) fun h7 => ite_explained (fun h1 => ?_) fun h1 =>
    ite_explained (fun _ => putX_explained) fun hz => ite_explained (fun _ => putX_explained)
    fun hz' => ?_
  · refine ite_explained (fun hf7 => ?_) fun _ => putX_explained
    exact zbImm_explained hop (.inl h1) hf7 fun h => absurd (h1.symm.trans h.2) (by decide)
  · have h5 : funct3 insn = 5 := by
      generalize funct3 insn = f3 at *
      bv_omega
    exact zbImm_explained hop (.inr h5) hz fun h => hz' h.1

theorem execReg_explained (hop : opcode insn = opReg) :
    (execReg c insn next).Explained h c insn := by
  unfold execReg
  refine ite_explained (fun _ => putX_explained) fun h1 => ite_explained (fun hz => ?_) fun _ =>
    ite_explained (fun _ => putX_explained) fun h0 => ite_explained (fun _ => putX_explained)
    fun h5 => ite_explained (fun hf7 => ?_) fun _ => ?_
  · exact zbReg_explained hop hz.1 h1 fun h => hz.2 h.1
  · exact zbReg_explained hop hf7 h1 fun h => h.2.elim h0 h5
  · exact ite_explained (fun _ => putX_explained) fun _ => ite_explained
      (fun _ => putX_explained) fun _ => ite_explained (fun _ => putX_explained) fun _ =>
      ite_explained (fun _ => putX_explained) fun _ => ite_explained (fun _ => putX_explained)
      fun _ => putX_explained

theorem execMiscMem_explained (hop : opcode insn = opMiscMem) :
    (execMiscMem insn next : Effect μ).Explained h c insn := by
  unfold execMiscMem
  split_ifs with hf3
  · exact .illegal (by simpa [Defined, hop, not_or] using hf3)
  · trivial

theorem execLoadFp_explained (hop : opcode insn = opLoadFp) :
    (execLoadFp h c insn next).Explained h c insn := by
  unfold execLoadFp
  split_ifs with hf3
  · exact reject_explained (by simpa [Defined, hop] using hf3)
  · exact reading_explained (by simpa [Defined, hop] using hf3) (by simp [loads, hop])
      (by simp [hop]) fun _ => trivial

theorem execStoreFp_explained (hop : opcode insn = opStoreFp) :
    (execStoreFp h c insn next).Explained h c insn := by
  unfold execStoreFp
  split_ifs with hf3
  · exact reject_explained (by simpa [Defined, hop] using hf3)
  · exact storing_explained (by simpa [Defined, hop] using hf3) (by simp [stores, hop])
      (by simp [hop])

theorem execFma_explained
    (hop : opcode insn = opMadd ∨ opcode insn = opMsub ∨ opcode insn = opNmsub ∨
      opcode insn = opNmadd) : (execFma h c insn next).Explained h c insn := by
  have hdef : Defined c insn → insn >>> 25 &&& 3 = 0 ∧ roundable c (funct3 insn) := by
    intro hdef
    obtain hop | hop | hop | hop := hop <;> simpa [Defined, hop] using hdef
  unfold execFma
  split
  · rename_i hfmt
    exact reject_explained fun hd => hfmt (hdef hd).1
  · split
    · rename_i hrm
      exact reject_explained fun hd => (hdef hd).2 hrm
    · exact putF_explained

section Rows

variable {f3 : BitVec 3} {f5 : BitVec 7} {rs2 : Reg}

theorem definedFp_arith (hf5 : f5 = 0 ∨ f5 = 1 ∨ f5 = 2 ∨ f5 = 3) :
    definedFp c f3 f5 rs2 ↔ roundable c f3 := by
  obtain rfl | rfl | rfl | rfl := hf5 <;> simp [definedFp]

theorem definedFp_sqrt : definedFp c f3 0x0b rs2 ↔ rs2 = 0 ∧ roundable c f3 := by
  simp [definedFp]

theorem definedFp_sign : definedFp c f3 0x04 rs2 ↔ f3 = 0 ∨ f3 = 1 ∨ f3 = 2 := by
  simp [definedFp]

theorem definedFp_minmax : definedFp c f3 0x05 rs2 ↔ f3 = 0 ∨ f3 = 1 := by simp [definedFp]

theorem definedFp_compare : definedFp c f3 0x14 rs2 ↔ f3 = 0 ∨ f3 = 1 ∨ f3 = 2 := by
  simp [definedFp]

theorem definedFp_convert (hf5 : f5 = 0x18 ∨ f5 = 0x1a) :
    definedFp c f3 f5 rs2 ↔ (rs2 = 0 ∨ rs2 = 1) ∧ roundable c f3 := by
  obtain rfl | rfl := hf5 <;> simp [definedFp]

theorem definedFp_class : definedFp c f3 0x1c rs2 ↔ rs2 = 0 ∧ (f3 = 0 ∨ f3 = 1) := by
  simp [definedFp]

theorem definedFp_move : definedFp c f3 0x1e rs2 ↔ rs2 = 0 ∧ f3 = 0 := by simp [definedFp]

end Rows

theorem fpCases_explained (hun : ¬ definedFp c (funct3 insn) f5 rs2 → ¬ Defined c insn)
    (fa fb a : Word) (rd : Reg) :
    (fpCases h c insn next fa fb a rd rs2 (funct3 insn) f5).Explained h c insn := by
  have hround : ∀ k : Rm → Effect μ, (∀ rm, (k rm).Explained h c insn) →
      (¬ roundable c (funct3 insn) → ¬ definedFp c (funct3 insn) f5 rs2) →
      (rounding c insn next k).Explained h c insn :=
    fun k hk hno => rounding_explained (fun hr => hun (hno hr)) hk
  have hrej : ¬ definedFp c (funct3 insn) f5 rs2 →
      (reject insn next : Effect μ).Explained h c insn := fun hno => reject_explained (hun hno)
  unfold fpCases
  refine ite_explained (fun h0 => ?_) fun h0 => ite_explained (fun h1 => ?_) fun h1 =>
    ite_explained (fun h2 => ?_) fun h2 => ite_explained (fun h3 => ?_) fun h3 =>
    ite_explained (fun hb => ?_) fun hb => ite_explained (fun h4 => ?_) fun h4 =>
    ite_explained (fun h5 => ?_) fun h5 => ite_explained (fun h14 => ?_) fun h14 =>
    ite_explained (fun h18 => ?_) fun h18 => ite_explained (fun h1a => ?_) fun h1a =>
    ite_explained (fun h1c => ?_) fun h1c => ite_explained (fun h1e => ?_) fun h1e => ?_
  · exact hround _ (fun _ => putF_explained) (mt (definedFp_arith (.inl h0)).1)
  · exact hround _ (fun _ => putF_explained) (mt (definedFp_arith (.inr (.inl h1))).1)
  · exact hround _ (fun _ => putF_explained) (mt (definedFp_arith (.inr (.inr (.inl h2)))).1)
  · exact hround _ (fun _ => putF_explained) (mt (definedFp_arith (.inr (.inr (.inr h3)))).1)
  · rw [hb, definedFp_sqrt] at hround hrej
    refine ite_explained (fun hr => hrej fun h => hr h.1) fun hr => ?_
    exact hround _ (fun _ => putF_explained) fun hno h => hno h.2
  · refine ite_explained (fun _ => putF_explained) fun f0 => ite_explained
      (fun _ => putF_explained) fun f1 => ite_explained (fun _ => putF_explained) fun f2 => hrej ?_
    rw [h4, definedFp_sign]
    exact fun h => h.elim f0 fun h => h.elim f1 f2
  · refine ite_explained (fun _ => putF_explained) fun f0 => ite_explained
      (fun _ => putF_explained) fun f1 => hrej ?_
    rw [h5, definedFp_minmax]
    exact fun h => h.elim f0 f1
  · refine ite_explained (fun _ => trivial) fun f0 => hrej ?_
    rw [h14, definedFp_compare]
    exact f0
  · rw [h18, definedFp_convert (.inl rfl)] at hround hrej
    refine ite_explained (fun hr => hrej fun h => h.1.elim hr.1 hr.2) fun hr => ?_
    exact hround _ (fun _ => trivial) fun hno h => hno h.2
  · rw [h1a, definedFp_convert (.inr rfl)] at hround hrej
    refine ite_explained (fun hr => hrej fun h => h.1.elim hr.1 hr.2) fun hr => ?_
    exact hround _ (fun _ => putF_explained) fun hno h => hno h.2
  · rw [h1c, definedFp_class] at hrej
    refine ite_explained (fun hr => hrej fun h => hr h.1) fun hr => ite_explained
      (fun _ => putX_explained) fun f0 => ite_explained (fun _ => putX_explained) fun f1 => hrej ?_
    exact fun h => h.2.elim f0 f1
  · refine ite_explained (fun hr => hrej ?_) fun hr => putF_explained
    rw [h1e, definedFp_move]
    exact fun h => hr.elim (fun hr => hr h.1) fun hr => hr h.2
  · refine hrej ?_
    rintro (⟨h | h | h | h, -⟩ | ⟨h, -⟩ | ⟨h, -⟩ | ⟨h, -⟩ | ⟨h, -⟩ | ⟨h | h, -⟩ | ⟨h, -⟩ | ⟨h, -⟩)
    exacts [h0 h, h1 h, h2 h, h3 h, hb h, h4 h, h5 h, h14 h, h18 h, h1a h, h1c h, h1e h]

theorem execFp_explained (hop : opcode insn = opFp) :
    (execFp h c insn next).Explained h c insn := by
  have hdef : Defined c insn → funct7 insn &&& 3 = 0 ∧
      definedFp c (funct3 insn) (funct7 insn >>> 2) (rs2Of insn) := by
    intro hdef
    simpa [Defined, hop] using hdef
  unfold execFp
  split
  · rename_i hfmt
    exact reject_explained fun hd => hfmt (hdef hd).1
  · exact fpCases_explained (fun hno hd => hno (hdef hd).2) _ _ _ _

theorem defined_amo (hop : opcode insn = opAmo) : Defined c insn ↔
    c.atomics = true ∧ funct3 insn = 2 ∧ definedAmo (funct5 insn) (rs2Of insn) := by
  simp [Defined, hop]

theorem execAmo_explained (hop : opcode insn = opAmo) (hok : ¬ Misreported h c insn)
    (reservation : Option Word) : (execAmo h c reservation insn next).Explained h c insn := by
  have hstores : funct5 insn ≠ 0x02 → stores c insn = some (c.x (rs1Of insn), 4) := by
    intro hlr
    simpa [stores, hop] using hlr
  unfold execAmo
  refine ite_explained (fun hbad => ?_) fun hon => ?_
  · refine reject_explained fun hd => ?_
    obtain ⟨hat, hf3, -⟩ := (defined_amo hop).1 hd
    exact hbad.elim (fun h => by simp [hat] at h) fun h => h hf3
  simp only [not_or, Bool.not_eq_false, not_not] at hon
  have hdef (hrow : definedAmo (funct5 insn) (rs2Of insn)) : Defined c insn :=
    (defined_amo hop).2 ⟨hon.1, hon.2, hrow⟩
  refine ite_explained (fun haddr => ?_) fun haddr => ?_
  · -- what is not defined is misreported here
    have hrow : definedAmo (funct5 insn) (rs2Of insn) := by
      by_contra hrow
      exact hok ⟨hop, hon.1, hon.2, .inl ⟨haddr, hrow⟩⟩
    have hbad : Unaligned c insn (c.x (rs1Of insn)) 4 := ⟨.inr hop, decide_eq_true haddr⟩
    unfold unalignedAtomic
    by_cases hlr : funct5 insn = 0x02
    · rw [if_pos hlr]
      exact .loadMisaligned (hdef hrow) (by simp [loads, hop, hlr]) hbad
    · rw [if_neg hlr]
      exact .storeMisaligned (hdef hrow) (hstores hlr) hbad
  rw [not_not] at haddr
  have hal : opcode insn = opAmo → misaligned (c.x (rs1Of insn)) 4 = false :=
    fun _ => aligned_word haddr
  refine ite_explained (fun hlr => ?_) fun hlr => ite_explained (fun hsc => ?_) fun hsc => ?_
  · refine ite_explained (fun hrs2 => reject_explained fun hd => ?_) fun hrs2 => ?_
    · obtain ⟨-, -, hrow | hrow⟩ := (defined_amo hop).1 hd
      · exact hrs2 hrow.2
      · simp [hlr] at hrow
    · exact reading_explained (hdef (.inl ⟨hlr, not_not.1 hrs2⟩)) (by simp [loads, hop, hlr]) hal
        fun _ => trivial
  · refine ite_explained (fun _ => ?_) fun _ => trivial
    have hrow : definedAmo (funct5 insn) (rs2Of insn) := .inr (by simp [hsc])
    split
    · exact memWrite_error (hdef hrow) (hstores hlr) hal (by assumption)
    · trivial
  · have hread : ¬ h.refuses c.mem (c.x (rs1Of insn)) 4 false = true := fun hbad =>
      hok ⟨hop, hon.1, hon.2, .inr ⟨haddr, hlr, hsc, hbad⟩⟩
    rw [memRead_aligned (aligned_word haddr), if_neg hread, reading]
    by_cases hrow : AmoOp (funct5 insn)
    · obtain ⟨v, hv⟩ := amoValue_isSome hrow hsc (h.readValue c.mem (c.x (rs1Of insn)) 4)
        (c.x (rs2Of insn))
      simp only [hv]
      split
      · exact memWrite_error (hdef (.inr hrow)) (hstores hlr) hal (by assumption)
      · trivial
    · simp only [amoValue_eq_none hrow]
      refine reject_explained fun hd => ?_
      obtain ⟨-, -, hdef | hdef⟩ := (defined_amo hop).1 hd
      · exact hlr hdef.1
      · exact hrow hdef

theorem InsnFault.defined {cause tval : Word} (hf : InsnFault h c insn cause tval)
    (hcause : cause ∉ [2, 3, 11]) :
    Defined c insn ∧ (cause = 5 → ∃ access, loads c insn = some access) := by
  cases hf with
  | illegal => exact absurd (by decide) hcause
  | breakpoint => exact absurd (by decide) hcause
  | ecall => exact absurd (by decide) hcause
  | loadMisaligned hdef => exact ⟨hdef, fun h => absurd h (by decide)⟩
  | loadRefused hdef access => exact ⟨hdef, fun _ => ⟨_, access⟩⟩
  | storeMisaligned hdef => exact ⟨hdef, fun h => absurd h (by decide)⟩
  | storeRefused hdef => exact ⟨hdef, fun h => absurd h (by decide)⟩

theorem execAmo_misreported (hbad : Misreported h c insn) (reservation : Option Word)
    (next : Word) :
    ∃ e, execAmo h c reservation insn next = .trap e next false ∧ isIrq e.cause = false ∧
      ∀ tval, ¬ InsnFault h c insn e.cause tval := by
  obtain ⟨hop, hat, hf3, hbad⟩ := hbad
  have hon : ¬ (c.atomics = false ∨ funct3 insn ≠ 2) := by simp [hat, hf3]
  rcases hbad with ⟨haddr, hrow⟩ | ⟨haddr, hlr, hsc, hbad⟩
  · have hun : ¬ Defined c insn := fun hd => hrow ((defined_amo hop).1 hd).2.2
    refine ⟨_, by unfold execAmo; exact (if_neg hon).trans (if_pos haddr), ?_⟩
    unfold unalignedAtomic
    split
    · refine ⟨show isIrq 4 = false by decide, fun tval hf => ?_⟩
      exact hun (hf.defined (show (4 : Word) ∉ _ by decide)).1
    · refine ⟨show isIrq 6 = false by decide, fun tval hf => ?_⟩
      exact hun (hf.defined (show (6 : Word) ∉ _ by decide)).1
  · have hnone : loads c insn = none := by simpa [loads, hop] using hlr
    refine ⟨_, execAmo_refused hon hlr hsc haddr hbad, show isIrq 5 = false by decide,
      fun tval hf => ?_⟩
    obtain ⟨_, hload⟩ := (hf.defined (show (5 : Word) ∉ _ by decide)).2 rfl
    cases hnone.symm.trans hload

theorem execCore_explained (hsys : opcode insn ≠ opSystem) (hamo : opcode insn ≠ opAmo) :
    (execCore h c insn next).Explained h c insn := by
  unfold execCore
  refine ite_explained (fun _ => putX_explained) fun h1 => ite_explained (fun _ => putX_explained)
    fun h2 => ite_explained (fun _ => putX_explained) fun h3 =>
    ite_explained execJalr_explained fun h4 => ite_explained execBranch_explained fun h5 =>
    ite_explained execLoad_explained fun h6 => ite_explained execStore_explained fun h7 =>
    ite_explained execImm_explained fun h8 => ite_explained execReg_explained fun h9 =>
    ite_explained execMiscMem_explained fun h10 => ite_explained execLoadFp_explained fun h11 =>
    ite_explained execStoreFp_explained fun h12 => ite_explained execFma_explained fun h13 =>
    ite_explained execFp_explained fun h14 => reject_explained fun hdef => ?_
  rw [not_or, not_or, not_or] at h13
  simp only [Defined, h1, h2, h3, h4, h5, h6, h7, h8, h9, h10, h11, h12, h13.1, h13.2.1, h13.2.2.1,
    h13.2.2.2, h14, hsys, hamo, or_self, if_false] at hdef

end Explained

/-! ## The machine after a trap -/

/-- The machine `s'` after an exception on `s`.  The emulator may write the 0 of x0 again. -/
structure Trapped (s s' : Cpu μ) (cause tval : Word) : Prop where
  x : ∀ r, r ≠ 0 → s'.x r = s.x r
  x0 : s.x 0 = 0 → s'.x 0 = 0
  f : s'.f = s.f
  fcsr : s'.fcsr = s.fcsr
  mtvec : s'.mtvec = s.mtvec
  mscratch : s'.mscratch = s.mscratch
  mie : s'.mie = s.mie
  mip : s'.mip = s.mip
  mem : s'.mem = s.mem
  mepc : s'.mepc = s.pc
  mcause : s'.mcause = cause
  mtval : s'.mtval = tval
  mpie : (s'.mstatus &&& mstatusMpie ≠ 0) ↔ (s.mstatus &&& mstatusMie ≠ 0)
  mieBit : s'.mstatus &&& mstatusMie = 0
  pc : s'.pc = s.mtvec &&& ~~~3
  inTrap : s'.inTrap = true

theorem mstatusMie_eq : mstatusMie = BitVec.twoPow 32 3 := by decide

theorem mstatusMpie_eq : mstatusMpie = BitVec.twoPow 32 7 := by decide

theorem mstatusMpp_eq : mstatusMpp = BitVec.twoPow 32 11 ||| BitVec.twoPow 32 12 := by decide

theorem trapStatus_bit (m : Word) {i : Nat} (hi : i < 32) : (trapStatus m).getLsbD i =
    if i = 3 then false else if i = 7 then m.getLsbD 3 else if i = 11 ∨ i = 12 then true
    else m.getLsbD i := by
  have h3 : (m &&& ~~~mstatusMpie) &&& mstatusMie ≠ 0 ↔ m.getLsbD 3 = true := by
    rw [mstatusMie_eq, and_twoPow_ne_zero _ (by omega)]
    simp [mstatusMpie]
  unfold trapStatus
  simp only [h3]
  rw [mstatusMie_eq, mstatusMpie_eq, mstatusMpp_eq]
  clear h3
  cases hm : m.getLsbD 3 <;> simp [hi] <;> grind

theorem rvTrap_trapped {s : Cpu μ} (hs : s.inTrap = false) {cause : Word}
    (hcause : isIrq cause = false) (tval : Word) : Trapped s (rvTrap s cause tval) cause tval := by
  have hmpie : (trapStatus s.mstatus &&& mstatusMpie ≠ 0) ↔ (s.mstatus &&& mstatusMie ≠ 0) := by
    rw [mstatusMpie_eq, mstatusMie_eq, and_twoPow_ne_zero _ (by omega),
      and_twoPow_ne_zero _ (by omega), trapStatus_bit _ (by omega)]
    simp
  have hmie : trapStatus s.mstatus &&& mstatusMie = 0 := by
    rw [mstatusMie_eq, and_twoPow_eq_zero _ (by omega), trapStatus_bit _ (by omega)]
    simp
  have hpc : trapVector s.mtvec cause = s.mtvec &&& ~~~3 := by simp [trapVector, hcause]
  unfold rvTrap
  rw [if_neg (by simp [hs])]
  exact ⟨fun _ _ => rfl, id, rfl, rfl, rfl, rfl, rfl, rfl, rfl, rfl, rfl, rfl, hmpie, hmie, hpc,
    rfl⟩

theorem raise_trapped {s : Cpu μ} (hs : s.inTrap = false) (hcause : isIrq e.cause = false) :
    Trapped s (raise s e) e.cause e.tval := by
  unfold raise
  split
  · exact rvTrap_trapped hs hcause _
  · -- the event in the trace changes nothing else
    obtain ⟨hx, hx0, hf, hfcsr, htvec, hscr, hmie, hmip, hmem, hepc, hcau, hval, hmpie, hbit, hpc,
      htrap⟩ := rvTrap_trapped (s := s.push _ s.pc _ _ _) hs hcause e.tval
    exact ⟨hx, hx0, hf, hfcsr, htvec, hscr, hmie, hmip, hmem, hepc, hcau, hval, hmpie, hbit, hpc,
      htrap⟩

namespace Trapped

variable {s s' : Cpu μ} {cause tval : Word}

theorem clear (h : Trapped s s' cause tval) : Trapped s (clearX0 s') cause tval := by
  refine { h with x := fun r hr => ?_, x0 := fun _ => ?_ }
  · rw [← h.x r hr]
    exact Function.update_of_ne hr _ _
  · exact Function.update_self (0 : Reg) (0 : Word) s'.x

theorem retired (h : Trapped s s' cause tval) (next : Word) :
    Trapped s (retire (s', next)) cause tval := by
  refine { h with pc := ?_ }
  simp only [retire, h.inTrap, if_true]
  exact h.pc

end Trapped

/-! ## Instructions -/

theorem InsnFault.not_irq {h : Host μ} {c : Core μ} {insn cause tval : Word}
    (hf : InsnFault h c insn cause tval) : isIrq cause = false := by
  cases hf <;> rfl

theorem apply_trapped {h : Host μ} {s : Cpu μ} (hs : s.inTrap = false) {insn : Word}
    {e : Effect μ} (he : e.Explained h s.toCore insn) (ht : (e.apply s).1.inTrap = true) :
    ∃ cause tval, InsnFault h s.toCore insn cause tval ∧ Trapped s (e.apply s).1 cause tval := by
  cases e with
  | done w next =>
    rw [show ((Effect.done w next).apply s).1.inTrap = s.inTrap from rfl, hs] at ht
    cases ht
  | trap e next clear =>
    have htrap := raise_trapped hs (InsnFault.not_irq he)
    refine ⟨e.cause, e.tval, he, ?_⟩
    cases clear with
    | true => exact htrap.clear
    | false => exact htrap

theorem of_ite_eq_some {α : Type} {p : Prop} [Decidable p] {a b : α} {o : Option α} {Q : Prop}
    (h : (if p then some a else o) = some b) (ha : a = b → Q) (ho : o = some b → Q) : Q := by
  split at h
  · exact ha (Option.some.inj h)
  · exact ho h

theorem csrWrite_eq_some {s s' : Cpu μ} (h : csrWrite s csr v = some s') :
    s' = { s with
      fcsr := s'.fcsr, mtvec := s'.mtvec, mscratch := s'.mscratch, mie := s'.mie
      mstatus := s'.mstatus, mepc := s'.mepc, mcause := s'.mcause, mtval := s'.mtval
      mip := s'.mip, mcycle := s'.mcycle, minstret := s'.minstret } := by
  -- one refinement for each register
  iterate 16 refine of_ite_eq_some h (by rintro rfl; rfl) fun h => ?_
  cases h

theorem csrWrite_eq_none {s : Cpu μ} (h : csrWrite s csr v = none) : csr ∉ csrWritable := by
  intro hmem
  simp only [csrWritable, List.mem_cons, List.not_mem_nil, or_false] at hmem
  unfold csrWrite at h
  obtain hc | hc | hc | hc | hc | hc | hc | hc | hc | hc | hc | hc | hc | hc | hc | hc := hmem <;>
    simp [hc] at h

theorem csrRead_eq_none {s : Cpu μ} (h : csrRead s csr = none) :
    csr ∉ csrReadable := by
  intro hmem
  simp only [csrReadable, csrWritable, List.cons_append, List.nil_append, List.mem_cons,
    List.not_mem_nil, or_false] at hmem
  unfold csrRead at h
  obtain hc | hc | hc | hc | hc | hc | hc | hc | hc | hc | hc | hc | hc | hc | hc | hc | hc | hc |
    hc | hc | hc | hc | hc | hc | hc | hc := hmem <;> simp [hc] at h

theorem fault_trapped {h : Host μ} {s : Cpu μ} (hs : s.inTrap = false) {insn : Word}
    (hf : InsnFault h s.toCore insn e.cause e.tval) :
    ∃ cause tval, InsnFault h s.toCore insn cause tval ∧ Trapped s (raise s e) cause tval :=
  ⟨e.cause, e.tval, hf, raise_trapped hs hf.not_irq⟩

theorem execCsr_trapped {h : Host μ} {s : Cpu μ} (hs : s.inTrap = false) {insn next : Word}
    (hop : opcode insn = opSystem) (hf3 : funct3 insn ≠ 0)
    (ht : (execCsr s insn next).1.inTrap = true) :
    ∃ cause tval, InsnFault h s.toCore insn cause tval ∧
      Trapped s (execCsr s insn next).1 cause tval := by
  have hill : ¬ definedCsr (funct3 insn) (rdOf insn) (rs1Of insn) (csrOf insn) →
      ∃ cause tval, InsnFault h s.toCore insn cause tval ∧
        Trapped s (raise s (illegal insn)) cause tval := by
    intro hno
    have hf3' : ¬ funct3 insn = 0#3 := hf3
    refine fault_trapped hs (e := illegal insn) (.illegal fun hdef => hno ?_)
    simpa [Defined, hop, hf3'] using hdef
  unfold execCsr at ht ⊢
  by_cases h4 : funct3 insn = 4
  · rw [if_pos h4]
    exact hill fun hdef => hdef.1 h4
  · rw [if_neg h4] at ht ⊢
    cases hread : if funct3 insn &&& 3 = 1 ∧ rdOf insn = 0 then some 0
        else csrRead s (csrOf insn) with
    | none =>
      simp only
      refine hill fun hdef => ?_
      obtain ⟨-, hr, -⟩ := hdef
      split at hread
      · cases hread
      · rename_i hno
        exact hr.elim hno (csrRead_eq_none hread)
    | some old =>
      simp only [hread] at ht ⊢
      by_cases hw : funct3 insn &&& 3 ≠ 1 ∧ rs1Of insn = 0
      · rw [if_pos hw] at ht
        change s.inTrap = true at ht
        rw [hs] at ht
        cases ht
      · rw [if_neg hw] at ht ⊢
        cases hwrite : csrWrite s (csrOf insn) (csrValue (funct3 insn) old
            (if funct3 insn &&& 4 ≠ 0 then (rs1Of insn).zeroExtend 32 else s.x (rs1Of insn))) with
        | none =>
          simp only
          refine hill fun hdef => ?_
          obtain ⟨-, -, hdw⟩ := hdef
          exact hdw.elim hw (csrWrite_eq_none hwrite)
        | some s' =>
          simp only [hwrite] at ht
          have hkept : s'.inTrap = s.inTrap := by rw [csrWrite_eq_some hwrite]
          change s'.inTrap = true at ht
          rw [hkept, hs] at ht
          cases ht

theorem execSystem_trapped {h : Host μ} {s : Cpu μ} (hs : s.inTrap = false) {insn next : Word}
    (hop : opcode insn = opSystem) (hecall : h.ecall = none ∨ insn ≠ ecallInsn)
    (ht : (execSystem h s insn next).1.inTrap = true) :
    ∃ cause tval, InsnFault h s.toCore insn cause tval ∧
      Trapped s (execSystem h s insn next).1 cause tval := by
  unfold execSystem at ht ⊢
  by_cases hf3 : funct3 insn = 0
  · rw [if_pos hf3] at ht ⊢
    by_cases hec : insn = ecallInsn
    · rw [if_pos hec]
      have hnone : h.ecall = none := hecall.resolve_right fun hne => hne hec
      simp only [execEcall, hnone]
      exact fault_trapped hs (e := ⟨11, 0, some (.ecall, insn, s.x 17, "")⟩) (.ecall hec)
    · rw [if_neg hec] at ht ⊢
      by_cases heb : insn = ebreakInsn
      · rw [if_pos heb]
        exact fault_trapped hs (e := ⟨3, 0, some (.ebreak, insn, 0, "")⟩) (.breakpoint heb)
      · rw [if_neg heb] at ht ⊢
        by_cases hmret : insn = mretInsn
        · rw [if_pos hmret] at ht
          change s.inTrap = true at ht
          rw [hs] at ht
          cases ht
        · rw [if_neg hmret] at ht ⊢
          by_cases hwfi : insn = wfiInsn
          · rw [if_pos hwfi] at ht
            change s.inTrap = true at ht
            rw [hs] at ht
            cases ht
          · rw [if_neg hwfi]
            refine fault_trapped hs (e := illegal insn) (.illegal fun hdef => ?_)
            have hrow : insn = ecallInsn ∨ insn = ebreakInsn ∨ insn = mretInsn ∨
                insn = wfiInsn := by
              simpa [Defined, hop, hf3] using hdef
            exact hrow.elim hec fun h => h.elim heb fun h => h.elim hmret hwfi
  · rw [if_neg hf3] at ht ⊢
    exact execCsr_trapped hs hop hf3 ht

theorem exec_trapped {h : Host μ} {s : Cpu μ} (hs : s.inTrap = false) {insn next : Word}
    (hok : ¬ Misreported h s.toCore insn) (hecall : h.ecall = none ∨ insn ≠ ecallInsn)
    (ht : (exec h s insn next).1.inTrap = true) :
    ∃ cause tval, InsnFault h s.toCore insn cause tval ∧
      Trapped s (exec h s insn next).1 cause tval := by
  unfold exec at ht ⊢
  by_cases hsys : opcode insn = opSystem
  · rw [if_pos hsys] at ht ⊢
    exact execSystem_trapped hs hsys hecall ht
  · rw [if_neg hsys] at ht ⊢
    by_cases hamo : opcode insn = opAmo
    · rw [if_pos hamo] at ht ⊢
      exact apply_trapped hs (execAmo_explained hamo hok _) ht
    · rw [if_neg hamo] at ht ⊢
      exact apply_trapped hs (execCore_explained hsys hamo) ht

/-! ## Steps -/

/-- The encodings of Zcmp that access the memory. -/
def multiAccess (lo : BitVec 16) : Prop :=
  lo.extractLsb' 10 3 ≠ (3 : BitVec 3) ∧ zcmpRegs (zcmpRlist lo) ≠ [] ∧
    (zcmpFunct5 lo = 0x18 ∨ zcmpFunct5 lo = 0x1a ∨ zcmpFunct5 lo = 0x1c ∨ zcmpFunct5 lo = 0x1e)

/-- `cm.mvsa01` and `cm.mva01s` -/
def pairMove (lo : BitVec 16) : Prop :=
  lo.extractLsb' 10 3 = (3 : BitVec 3) ∧
    lo.extractLsb' 7 3 ≠ (lo.extractLsb' 2 3 : BitVec 3) ∧
    (lo.extractLsb' 5 2 = (1 : BitVec 2) ∨ lo.extractLsb' 5 2 = (3 : BitVec 2))

/-- The encodings of 16 bits. -/
def defined16 (c : Core μ) (lo : BitVec 16) : Prop :=
  if (c.zcmp && isZcmp lo) = true then multiAccess lo ∨ pairMove lo else expand c lo ≠ 0

/-- The encoding that `exec` gets from the halfword at `pc` and the one behind it. -/
def executed (h : Host μ) (s : Cpu μ) : Word :=
  let lo := fetchHalf h s s.pc
  if lo &&& 3 ≠ 3 then expand s.toCore lo else fetchHalf h s (s.pc + 2) ++ lo

/-- The halfword at `pc` is fetched. -/
def FetchesLow (h : Host μ) (s : Cpu μ) : Prop :=
  s.pc &&& 1 = 0 ∧ h.refuses s.mem s.pc 2 false = false

/-- The step gets as far as `exec`. -/
def ReachesExec (h : Host μ) (s : Cpu μ) : Prop :=
  let lo := fetchHalf h s s.pc
  FetchesLow h s ∧
    if lo &&& 3 ≠ 3 then ¬ (s.zcmp && isZcmp lo) = true ∧ expand s.toCore lo ≠ 0
    else ¬ h.refuses s.mem (s.pc + 2) 2 false = true

/-- The fault of a step. -/
inductive StepFault (h : Host μ) (s : Cpu μ) : Word → Word → Prop
  | pcMisaligned (bad : s.pc &&& 1 ≠ 0) : StepFault h s 0 s.pc
  | fetchLow (aligned : s.pc &&& 1 = 0) (bad : h.refuses s.mem s.pc 2 false = true) :
      StepFault h s 1 s.pc
  | fetchHigh (low : FetchesLow h s) (wide : fetchHalf h s s.pc &&& 3 = 3)
      (bad : h.refuses s.mem (s.pc + 2) 2 false = true) : StepFault h s 1 (s.pc + 2)
  | undefined16 (low : FetchesLow h s) (narrow : fetchHalf h s s.pc &&& 3 ≠ 3)
      (bad : ¬ defined16 s.toCore (fetchHalf h s s.pc)) :
      StepFault h s 2 ((fetchHalf h s s.pc).zeroExtend 32)
  | insn {cause tval : Word} (reaches : ReachesExec h s)
      (fault : InsnFault h s.toCore (executed h s) cause tval) : StepFault h s cause tval

/-- What a step has done when it was an exception. -/
def Precise (h : Host μ) (s s' : Cpu μ) : Prop :=
  ∃ cause tval, StepFault h s cause tval ∧ Trapped s s' cause tval

theorem precise_of_raise {h : Host μ} {s : Cpu μ} (hs : s.inTrap = false)
    (hcause : isIrq e.cause = false) (hf : StepFault h s e.cause e.tval) :
    Precise h s (raise s e) :=
  ⟨e.cause, e.tval, hf, raise_trapped hs hcause⟩

theorem retire_exec_precise {h : Host μ} {s : Cpu μ} (hs : s.inTrap = false) {next : Word}
    (hreach : ReachesExec h s) (hok : ¬ Misreported h s.toCore (executed h s))
    (hecall : h.ecall = none ∨ executed h s ≠ ecallInsn)
    (ht : (retire (exec h s (executed h s) next)).inTrap = true) :
    Precise h s (retire (exec h s (executed h s) next)) := by
  obtain ⟨cause, tval, hf, htrap⟩ := exec_trapped hs hok hecall ht
  exact ⟨cause, tval, .insn hreach hf, htrap.retired _⟩

theorem execZcmpMove_eq_none {s : Cpu μ} (h : execZcmpMove s lo = none) :
    ¬ pairMove lo := by
  rintro ⟨-, hne, hf⟩
  unfold execZcmpMove at h
  rw [if_neg hne] at h
  obtain hf | hf := hf <;> simp [hf] at h

theorem execZcmpMove_inTrap {s s' : Cpu μ} (h : execZcmpMove s lo = some s') :
    s'.inTrap = s.inTrap := by
  unfold execZcmpMove at h
  simp only at h
  split_ifs at h <;> cases h <;> rfl

theorem execZcmp_of_not_multi {h : Host μ} {s : Cpu μ} (hno : ¬ multiAccess lo) (next : Word) :
    (∃ s', execZcmp h s lo next = some (s', next) ∧ s'.inTrap = s.inTrap) ∨
      execZcmp h s lo next = none ∧ ¬ pairMove lo := by
  unfold execZcmp
  by_cases h3 : lo.extractLsb' 10 3 = (3 : BitVec 3)
  · rw [if_pos h3]
    cases hmove : execZcmpMove s lo with
    | none => exact .inr ⟨rfl, execZcmpMove_eq_none hmove⟩
    | some s' => exact .inl ⟨s', rfl, execZcmpMove_inTrap hmove⟩
  · rw [if_neg h3]
    refine .inr ⟨?_, fun hp => h3 hp.1⟩
    by_cases hregs : zcmpRegs (zcmpRlist lo) = []
    · exact if_pos hregs
    · have hf5 : ¬ (zcmpFunct5 lo = 0x18 ∨ zcmpFunct5 lo = 0x1a ∨ zcmpFunct5 lo = 0x1c ∨
          zcmpFunct5 lo = 0x1e) := fun hf => hno ⟨h3, hregs, hf⟩
      rw [not_or] at hf5
      simp only [hregs, hf5.1, hf5.2, if_false]

theorem stepCompressed_precise {h : Host μ} {s : Cpu μ} (hs : s.inTrap = false)
    (low : FetchesLow h s) (narrow : fetchHalf h s s.pc &&& 3 ≠ 3)
    (hok : ReachesExec h s → ¬ Misreported h s.toCore (executed h s))
    (hmulti : s.zcmp = true → isZcmp (fetchHalf h s s.pc) = true →
      ¬ multiAccess (fetchHalf h s s.pc))
    (hecall : h.ecall = none ∨ executed h s ≠ ecallInsn)
    (ht : (stepCompressed h s (fetchHalf h s s.pc)).inTrap = true) :
    Precise h s (stepCompressed h s (fetchHalf h s s.pc)) := by
  have hexec : executed h s = expand s.toCore (fetchHalf h s s.pc) := if_pos narrow
  have hill : ¬ defined16 s.toCore (fetchHalf h s s.pc) →
      Precise h s (raise s (illegal ((fetchHalf h s s.pc).zeroExtend 32))) := fun hno =>
    precise_of_raise hs (show isIrq 2 = false by decide) (.undefined16 low narrow hno)
  unfold stepCompressed at ht ⊢
  by_cases hz : (s.zcmp && isZcmp (fetchHalf h s s.pc)) = true
  · rw [if_pos hz] at ht ⊢
    obtain ⟨hz1, hz2⟩ := Bool.and_eq_true_iff.1 hz
    have hno := hmulti hz1 hz2
    have hmove : (∃ s', execZcmp h s (fetchHalf h s s.pc) (s.pc + 2) = some (s', s.pc + 2) ∧
        s'.inTrap = s.inTrap) ∨ execZcmp h s (fetchHalf h s s.pc) (s.pc + 2) = none ∧
          ¬ pairMove (fetchHalf h s s.pc) := execZcmp_of_not_multi hno _
    obtain ⟨s', hsome, hkept⟩ | ⟨hnone, hpair⟩ := hmove
    · simp only [hsome] at ht
      change s'.inTrap = true at ht
      rw [hkept, hs] at ht
      cases ht
    · simp only [hnone]
      refine hill fun hdef => ?_
      rw [defined16, if_pos hz] at hdef
      exact hdef.elim hno hpair
  · rw [if_neg hz] at ht ⊢
    by_cases h0 : expand s.toCore (fetchHalf h s s.pc) = 0
    · rw [if_pos h0]
      refine hill fun hdef => ?_
      rw [defined16, if_neg hz] at hdef
      exact hdef h0
    · have hreach : ReachesExec h s := ⟨low, by rw [if_pos narrow]; exact ⟨hz, h0⟩⟩
      rw [if_neg h0, ← hexec] at ht ⊢
      exact retire_exec_precise hs hreach (hok hreach) hecall ht

theorem stepInsn_precise {h : Host μ} {s : Cpu μ} (hs : s.inTrap = false)
    (hok : ReachesExec h s → ¬ Misreported h s.toCore (executed h s))
    (hmulti : fetchHalf h s s.pc &&& 3 ≠ 3 → s.zcmp = true →
      isZcmp (fetchHalf h s s.pc) = true → ¬ multiAccess (fetchHalf h s s.pc))
    (hecall : h.ecall = none ∨ executed h s ≠ ecallInsn) (ht : (stepInsn h s).inTrap = true) :
    Precise h s (stepInsn h s) := by
  unfold stepInsn at ht ⊢
  by_cases hpc : s.pc &&& 1 ≠ 0
  · rw [if_pos hpc]
    exact precise_of_raise hs (show isIrq 0 = false by decide) (.pcMisaligned hpc)
  · rw [if_neg hpc] at ht ⊢
    by_cases hlow : h.refuses s.mem s.pc 2 false = true
    · rw [if_pos hlow]
      exact precise_of_raise hs (show isIrq 1 = false by decide) (.fetchLow (not_not.1 hpc) hlow)
    · have low : FetchesLow h s := ⟨not_not.1 hpc, Bool.not_eq_true _ ▸ hlow⟩
      rw [if_neg hlow] at ht ⊢
      by_cases hnar : fetchHalf h s s.pc &&& 3 ≠ 3
      · simp only [if_pos hnar] at ht ⊢
        exact stepCompressed_precise hs low hnar hok (hmulti hnar) hecall ht
      · simp only [if_neg hnar] at ht ⊢
        by_cases hhigh : h.refuses s.mem (s.pc + 2) 2 false = true
        · rw [if_pos hhigh]
          exact precise_of_raise hs (show isIrq 1 = false by decide)
            (.fetchHigh low (not_not.1 hnar) hhigh)
        · have hexec : executed h s = fetchHalf h s (s.pc + 2) ++ fetchHalf h s s.pc := if_neg hnar
          have hreach : ReachesExec h s := ⟨low, by rw [if_neg hnar]; exact hhigh⟩
          rw [if_neg hhigh, ← hexec] at ht ⊢
          exact retire_exec_precise hs hreach (hok hreach) hecall ht

theorem stepInsn_reaches {h : Host μ} {s : Cpu μ} (hreach : ReachesExec h s) :
    ∃ next, stepInsn h s = retire (exec h s (executed h s) next) := by
  obtain ⟨⟨hpc, hlow⟩, hrest⟩ := hreach
  by_cases hnar : fetchHalf h s s.pc &&& 3 ≠ 3
  · rw [if_pos hnar] at hrest
    refine ⟨s.pc + 2, (stepInsn_narrow hpc hlow hnar).trans ?_⟩
    rw [stepCompressed, if_neg hrest.1, if_neg hrest.2, executed, if_pos hnar]
  · rw [if_neg hnar, Bool.not_eq_true] at hrest
    refine ⟨s.pc + 4, (stepInsn_wide hpc hlow (not_not.1 hnar) hrest).trans ?_⟩
    rw [executed, if_neg hnar]

theorem StepFault.of_reaches {h : Host μ} {s : Cpu μ} {cause tval : Word}
    (hreach : ReachesExec h s) (hf : StepFault h s cause tval) :
    InsnFault h s.toCore (executed h s) cause tval := by
  obtain ⟨⟨hpc, hlow⟩, hrest⟩ := hreach
  cases hf with
  | pcMisaligned bad => exact absurd hpc bad
  | fetchLow aligned bad => exact absurd (hlow.symm.trans bad) (by decide)
  | fetchHigh low wide bad =>
    rw [if_neg (not_not.2 wide)] at hrest
    exact absurd bad hrest
  | undefined16 low narrow bad =>
    rw [if_pos narrow] at hrest
    rw [defined16, if_neg hrest.1] at bad
    exact absurd hrest.2 bad
  | insn _ fault => exact fault

theorem stepInsn_not_precise {h : Host μ} {s : Cpu μ} (hs : s.inTrap = false)
    (hreach : ReachesExec h s) (hbad : Misreported h s.toCore (executed h s)) :
    ¬ Precise h s (stepInsn h s) := by
  rintro ⟨cause, tval, hf, htrap⟩
  obtain ⟨next, hstep⟩ := stepInsn_reaches hreach
  obtain ⟨e, hexec, hirq, hno⟩ := execAmo_misreported hbad s.reservation next
  have hamo : exec h s (executed h s) next = (raise s e, next) := by
    have hsys : opcode (executed h s) ≠ opSystem := by
      rw [hbad.1]
      decide
    rw [exec, if_neg hsys, if_pos hbad.1, hexec]
    rfl
  have hcause := ((raise_trapped hs hirq).retired next).mcause
  rw [hstep, hamo] at htrap
  obtain rfl : cause = e.cause := htrap.mcause.symm.trans hcause
  exact hno tval (hf.of_reaches hreach)

theorem isIrq_pending {s : Cpu μ} (h : rvIrqPending s ≠ 0) : isIrq (rvIrqPending s) = true := by
  unfold rvIrqPending at h ⊢
  simp only at h ⊢
  split_ifs at h ⊢ <;> first | rfl | exact absurd rfl h

theorem Precise.fresh {h : Host μ} {s s' : Cpu μ} : Precise h s.fresh s' ↔ Precise h s s' := by
  constructor
  · rintro ⟨cause, tval, hf, ht⟩
    refine ⟨cause, tval, ?_, { ht with }⟩
    cases hf with
    | pcMisaligned bad => exact .pcMisaligned bad
    | fetchLow aligned bad => exact .fetchLow aligned bad
    | fetchHigh low wide bad => exact .fetchHigh low wide bad
    | undefined16 low narrow bad => exact .undefined16 low narrow bad
    | insn reaches fault => exact .insn reaches fault
  · rintro ⟨cause, tval, hf, ht⟩
    refine ⟨cause, tval, ?_, { ht with }⟩
    cases hf with
    | pcMisaligned bad => exact .pcMisaligned (s := s.fresh) bad
    | fetchLow aligned bad => exact .fetchLow (s := s.fresh) aligned bad
    | fetchHigh low wide bad => exact .fetchHigh (s := s.fresh) low wide bad
    | undefined16 low narrow bad => exact .undefined16 (s := s.fresh) low narrow bad
    | insn reaches fault => exact .insn (s := s.fresh) reaches fault

/-- A step that takes an exception leaves the registers and the memory alone, and its trap names
the instruction and the fault, unless it executes an atomic that is misreported. -/
theorem rvStep_precise_iff (h : Host μ) (s : Cpu μ) (hrun : s.halted = false)
    (hmulti : fetchHalf h s s.pc &&& 3 ≠ 3 → s.zcmp = true →
      isZcmp (fetchHalf h s s.pc) = true → ¬ multiAccess (fetchHalf h s s.pc))
    (hecall : h.ecall = none ∨ executed h s ≠ ecallInsn)
    (htrap : (rvStep h s).1.inTrap = true) (hexc : isIrq (rvStep h s).1.mcause = false) :
    Precise h s (rvStep h s).1 ↔
      ¬ (ReachesExec h s ∧ Misreported h s.toCore (executed h s)) := by
  by_cases hirq : interrupted s
  · -- an interrupt is no exception
    have hmc : (rvTrap s.fresh (rvIrqPending s) 0).mcause = rvIrqPending s := rfl
    rw [rvStep_interrupt hrun hirq, hmc, isIrq_pending hirq.2] at hexc
    cases hexc
  · rw [rvStep_insn hrun hirq] at htrap ⊢
    rw [← Precise.fresh]
    constructor
    · rintro hprec ⟨hreach, hbad⟩
      exact stepInsn_not_precise (s := s.fresh) rfl hreach hbad hprec
    · intro hok
      exact stepInsn_precise (s := s.fresh) rfl (fun hreach hbad => hok ⟨hreach, hbad⟩) hmulti
        hecall htrap

/-- A host with `lw x5, 0(x0)` at 0 and a probe that refuses every access of four bytes. -/
def loadHost : Host Unit where
  read8 := fun _ _ => 0
  read16 := fun _ addr => if addr = 0 then 0x2283 else 0
  read32 := fun _ _ => 0
  write8 := fun _ _ _ => ()
  write16 := fun _ _ _ => ()
  write32 := fun _ _ _ => ()
  probe := some fun _ _ size _ => size == 4
  fp := trivialDoubles

theorem loadHost_precise :
    Precise loadHost (rvReset (rvInit ()) 0) (rvStep loadHost (rvReset (rvInit ()) 0)).1 := by
  have hwide : fetchHalf loadHost (rvReset (rvInit ()) 0) (rvReset (rvInit ()) 0).pc &&& 3 = 3 := by
    decide
  exact (rvStep_precise_iff loadHost (rvReset (rvInit ()) 0) rfl (fun h => absurd hwide h) (.inl
    rfl)
    (by decide) (by decide)).mpr fun hbad => absurd hbad.2.1 (by decide)

/-- The same host with `amoadd.w x0, x0, (x0)` at 0. -/
def amoHost : Host Unit :=
  { loadHost with read16 := fun _ addr => if addr = 0 then 0x202f else 0 }

/-- The refused load of an operation that stores is reported as the fault of a load. -/
theorem amoHost_not_precise :
    (rvStep amoHost (rvReset (rvInit ()) 0)).1.inTrap = true ∧
      (rvStep amoHost (rvReset (rvInit ()) 0)).1.mcause = 5 ∧
      ¬ Precise amoHost (rvReset (rvInit ()) 0) (rvStep amoHost (rvReset (rvInit ()) 0)).1 := by
  refine ⟨by decide, by decide, ?_⟩
  rw [rvStep_insn rfl (fun hirq => absurd rfl hirq.1), ← Precise.fresh]
  exact stepInsn_not_precise rfl ⟨⟨by decide, rfl⟩, by decide⟩
    ⟨by decide, rfl, by decide, .inr ⟨by decide, by decide, by decide, by decide⟩⟩

end MechanicalResearcher.Rv32
