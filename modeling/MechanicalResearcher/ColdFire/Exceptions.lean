import MechanicalResearcher.ColdFire.Step
import Mathlib.Data.Set.Lattice
import Mathlib.Order.CompletePartialOrder

/-!
# Exceptions and the return from them

What an exception makes of the state, in one equation: the frame lies below the supervisor stack
pointer, and the stack pointers change places if the cpu was in user mode.  RTE takes the frame
off again, and the state before the exception is back.
-/

namespace MechanicalResearcher.ColdFire

variable {μ : Type} {b : Bus μ}

/-! ## The frame -/

/-- The supervisor stack pointer. -/
def supervisorSp (s : Cpu μ) : Word := if isSupervisor s then s.a 7 else s.otherA7

/-- The user stack pointer, which the handler finds as the other one. -/
def userSp (s : Cpu μ) : Word := if isSupervisor s then s.otherA7 else s.a 7

/-- Memory with the frame on the supervisor stack. -/
def frameMem (b : Bus μ) (s : Cpu μ) (vector : Word) : μ :=
  let sp := supervisorSp s
  b.write16
    (b.write16 (b.write32 s.mem (sp - 4) s.pc) (sp - 6) (s.sr &&& 0xFFFF &&& 0xFFFF))
    (sp - 8) (frameFormat s vector &&& 0xFFFF)

theorem supervisorBit_handlerSr (sr : Word) : supervisorBit (handlerSr sr) = true := by
  have hbit : (handlerSr sr).getLsbD 13 = true := by
    simp [handlerSr, srS, srT]
  rw [supervisorBit, decide_eq_true_iff]
  intro hzero
  have hclear : (handlerSr sr &&& srS).getLsbD 13 = false := by
    rw [hzero]
    decide
  rw [BitVec.getLsbD_and, hbit] at hclear
  exact absurd hclear (by decide)

theorem updateSp_eq (s : Cpu μ) (newSr : Word) :
    updateSp s newSr =
      { s with
        a := Function.update s.a 7 (if supervisorBit newSr then supervisorSp s else userSp s)
        otherA7 := if supervisorBit newSr then userSp s else supervisorSp s } := by
  unfold updateSp supervisorSp userSp isSupervisor
  cases hold : supervisorBit s.sr <;> cases hnew : supervisorBit newSr
  · simp
  · simp [Cpu.setA]
  · simp [Cpu.setA]
  · simp

theorem pushFrame_eq (s : Cpu μ) (vector : Word) :
    pushFrame b s vector =
      { s with
        a := Function.update s.a 7 (supervisorSp s - 8)
        otherA7 := userSp s
        sr := handlerSr s.sr
        mem := frameMem b s vector } := by
  have h6 : supervisorSp s - 4 - 2 = supervisorSp s - 6 := by bv_omega
  have h8 : supervisorSp s - 6 - 2 = supervisorSp s - 8 := by bv_omega
  simp only [pushFrame, updateSp_eq, supervisorBit_handlerSr, if_true, Cpu.setA, busWrite32,
    busWrite16, Function.update_self, Function.update_idem, h6, h8]
  rfl

theorem traceException_eq (s : Cpu μ) (vector : Word) :
    ∃ trace, traceException b s vector = { s with trace := trace } := by
  unfold traceException
  split
  · exact ⟨s.trace, rfl⟩
  · exact ⟨_, rfl⟩

theorem raise_eq {s : Cpu μ} (hin : s.inException = false) (vector : Word) (ea : Bool) :
    ∃ trace, raise b s vector ea =
      { s with
        a := Function.update s.a 7 (supervisorSp s - 8)
        otherA7 := userSp s
        sr := handlerSr s.sr
        mem := frameMem b s vector
        pc := b.read32 (frameMem b s vector) (s.vbr + vector * 4)
        halted := false
        inException := false
        trace := trace
        taken := ⟨vector, ea, frameMem b s vector⟩ :: s.taken } := by
  obtain ⟨trace, htrace⟩ := traceException_eq (b := b) s vector
  refine ⟨trace, ?_⟩
  rw [raise, htrace]
  dsimp only
  rw [hin, pushFrame_eq]
  rfl

theorem raise_double {s : Cpu μ} (hin : s.inException = true) (vector : Word) (ea : Bool) :
    ∃ trace, raise b s vector ea =
      { s with trace := trace, fault := true, halted := true, inException := false } := by
  obtain ⟨trace, htrace⟩ := traceException_eq (b := b) s vector
  rw [raise, htrace]
  dsimp only
  rw [hin]
  exact ⟨_, rfl⟩

/-! ## Plain memory -/

/-- The bytes of an access. -/
def bytes (addr : Word) (n : Nat) : Set Word := { x | ∃ i < n, x = addr + BitVec.ofNat 32 i }

theorem bytes_subset (addr : Word) {k n m : Nat} (h : k + n ≤ m) :
    bytes (addr + BitVec.ofNat 32 k) n ⊆ bytes addr m := by
  rintro x ⟨i, hi, rfl⟩
  refine ⟨k + i, by omega, ?_⟩
  rw [BitVec.add_assoc, BitVec.ofNat_add]

theorem bytes_disjoint (addr : Word) {j k n n' : Nat} (h : j + n ≤ k) (hk : k + n' ≤ 2 ^ 32) :
    Disjoint (bytes (addr + BitVec.ofNat 32 j) n) (bytes (addr + BitVec.ofNat 32 k) n') := by
  rw [Set.disjoint_left]
  rintro x ⟨i, hi, rfl⟩ ⟨i', hi', heq⟩
  rw [BitVec.add_assoc, BitVec.add_assoc, ← BitVec.ofNat_add, ← BitVec.ofNat_add] at heq
  have hsame := congrArg BitVec.toNat ((BitVec.add_right_inj addr).mp heq)
  simp only [BitVec.toNat_ofNat] at hsame
  omega

/-- Words written to `r` are read back, and nothing else changes with them. -/
structure PlainMemory (b : Bus μ) (r : Set Word) : Prop where
  same16 : ∀ m a v, bytes a 2 ⊆ r → b.read16 (b.write16 m a v) a &&& 0xFFFF = v &&& 0xFFFF
  same32 : ∀ m a v, bytes a 4 ⊆ r → b.read32 (b.write32 m a v) a = v
  read16_write16 : ∀ m a a' v, bytes a 2 ⊆ r → Disjoint (bytes a 2) (bytes a' 2) →
    b.read16 (b.write16 m a v) a' = b.read16 m a'
  read16_write32 : ∀ m a a' v, bytes a 4 ⊆ r → Disjoint (bytes a 4) (bytes a' 2) →
    b.read16 (b.write32 m a v) a' = b.read16 m a'
  read32_write16 : ∀ m a a' v, bytes a 2 ⊆ r → Disjoint (bytes a 2) (bytes a' 4) →
    b.read32 (b.write16 m a v) a' = b.read32 m a'
  read32_write32 : ∀ m a a' v, bytes a 4 ⊆ r → Disjoint (bytes a 4) (bytes a' 4) →
    b.read32 (b.write32 m a v) a' = b.read32 m a'

/-! ## The frame in plain memory -/

/-- The eight bytes below the supervisor stack pointer. -/
def frameArea (s : Cpu μ) : Set Word := bytes (supervisorSp s - 8) 8

theorem frameMem_eq (s : Cpu μ) (vector : Word) :
    frameMem b s vector =
      b.write16
        (b.write16 (b.write32 s.mem (supervisorSp s - 8 + BitVec.ofNat 32 4) s.pc)
          (supervisorSp s - 8 + BitVec.ofNat 32 2) (s.sr &&& 0xFFFF))
        (supervisorSp s - 8 + BitVec.ofNat 32 0) (frameFormat s vector &&& 0xFFFF) := by
  have h4 : supervisorSp s - 8 + BitVec.ofNat 32 4 = supervisorSp s - 4 := by bv_omega
  have h6 : supervisorSp s - 8 + BitVec.ofNat 32 2 = supervisorSp s - 6 := by bv_omega
  have h8 : supervisorSp s - 8 + BitVec.ofNat 32 0 = supervisorSp s - 8 := by bv_omega
  rw [h4, h6, h8, frameMem, BitVec.and_assoc, BitVec.and_self]

theorem frameMem_read16 {s : Cpu μ} (hplain : PlainMemory b (frameArea s)) (vector : Word)
    {addr : Word} (haddr : Disjoint (frameArea s) (bytes addr 2)) :
    b.read16 (frameMem b s vector) addr = b.read16 s.mem addr := by
  have h0 := bytes_subset (supervisorSp s - 8) (show 0 + 2 ≤ 8 by omega)
  have h2 := bytes_subset (supervisorSp s - 8) (show 2 + 2 ≤ 8 by omega)
  have h4 := bytes_subset (supervisorSp s - 8) (show 4 + 4 ≤ 8 by omega)
  rw [frameMem_eq, hplain.read16_write16 _ _ _ _ h0 (haddr.mono_left h0),
    hplain.read16_write16 _ _ _ _ h2 (haddr.mono_left h2),
    hplain.read16_write32 _ _ _ _ h4 (haddr.mono_left h4)]

theorem frameMem_read32 {s : Cpu μ} (hplain : PlainMemory b (frameArea s)) (vector : Word)
    {addr : Word} (haddr : Disjoint (frameArea s) (bytes addr 4)) :
    b.read32 (frameMem b s vector) addr = b.read32 s.mem addr := by
  have h0 := bytes_subset (supervisorSp s - 8) (show 0 + 2 ≤ 8 by omega)
  have h2 := bytes_subset (supervisorSp s - 8) (show 2 + 2 ≤ 8 by omega)
  have h4 := bytes_subset (supervisorSp s - 8) (show 4 + 4 ≤ 8 by omega)
  rw [frameMem_eq, hplain.read32_write16 _ _ _ _ h0 (haddr.mono_left h0),
    hplain.read32_write16 _ _ _ _ h2 (haddr.mono_left h2),
    hplain.read32_write32 _ _ _ _ h4 (haddr.mono_left h4)]

theorem frameMem_format {s : Cpu μ} (hplain : PlainMemory b (frameArea s)) (vector : Word) :
    b.read16 (frameMem b s vector) (supervisorSp s - 8) &&& 0xFFFF =
      frameFormat s vector &&& 0xFFFF := by
  have h0 := bytes_subset (supervisorSp s - 8) (show 0 + 2 ≤ 8 by omega)
  have hread := hplain.same16
    (b.write16 (b.write32 s.mem (supervisorSp s - 8 + BitVec.ofNat 32 4) s.pc)
      (supervisorSp s - 8 + BitVec.ofNat 32 2) (s.sr &&& 0xFFFF)) _
    (frameFormat s vector &&& 0xFFFF) h0
  rw [← frameMem_eq] at hread
  rw [BitVec.and_assoc, BitVec.and_self] at hread
  simpa using hread

theorem frameMem_sr {s : Cpu μ} (hplain : PlainMemory b (frameArea s)) (vector : Word) :
    b.read16 (frameMem b s vector) (supervisorSp s - 6) &&& 0xFFFF = s.sr &&& 0xFFFF := by
  have h0 := bytes_subset (supervisorSp s - 8) (show 0 + 2 ≤ 8 by omega)
  have h2 := bytes_subset (supervisorSp s - 8) (show 2 + 2 ≤ 8 by omega)
  have hdisj := bytes_disjoint (supervisorSp s - 8) (show 0 + 2 ≤ 2 by omega)
    (show 2 + 2 ≤ 2 ^ 32 by omega)
  have haddr : supervisorSp s - 6 = supervisorSp s - 8 + BitVec.ofNat 32 2 := by bv_omega
  rw [haddr, frameMem_eq, hplain.read16_write16 _ _ _ _ h0 hdisj, hplain.same16 _ _ _ h2,
    BitVec.and_assoc, BitVec.and_self]

theorem frameMem_pc {s : Cpu μ} (hplain : PlainMemory b (frameArea s)) (vector : Word) :
    b.read32 (frameMem b s vector) (supervisorSp s - 4) = s.pc := by
  have h0 := bytes_subset (supervisorSp s - 8) (show 0 + 2 ≤ 8 by omega)
  have h2 := bytes_subset (supervisorSp s - 8) (show 2 + 2 ≤ 8 by omega)
  have h4 := bytes_subset (supervisorSp s - 8) (show 4 + 4 ≤ 8 by omega)
  have hdisj0 := bytes_disjoint (supervisorSp s - 8) (show 0 + 2 ≤ 4 by omega)
    (show 4 + 4 ≤ 2 ^ 32 by omega)
  have hdisj2 := bytes_disjoint (supervisorSp s - 8) (show 2 + 2 ≤ 4 by omega)
    (show 4 + 4 ≤ 2 ^ 32 by omega)
  have haddr : supervisorSp s - 4 = supervisorSp s - 8 + BitVec.ofNat 32 4 := by bv_omega
  rw [haddr, frameMem_eq, hplain.read32_write16 _ _ _ _ h0 hdisj0,
    hplain.read32_write16 _ _ _ _ h2 hdisj2, hplain.same32 _ _ _ h4]

theorem field_shift (v : Word) {mask : Word} {k : Nat} (h : mask.toNat * 2 ^ k < 2 ^ 12) :
    (v &&& mask) <<< k >>> 12 = 0 := by
  apply BitVec.eq_of_toNat_eq
  have hle : (v &&& mask).toNat ≤ mask.toNat := by
    rw [BitVec.toNat_and]
    exact Nat.and_le_right
  have hmul : (v &&& mask).toNat * 2 ^ k < 2 ^ 12 :=
    lt_of_le_of_lt (Nat.mul_le_mul_right _ hle) h
  rw [BitVec.toNat_ushiftRight, BitVec.toNat_shiftLeft, Nat.shiftLeft_eq,
    Nat.mod_eq_of_lt (by omega), Nat.shiftRight_eq_div_pow, Nat.div_eq_of_lt hmul]
  rfl

theorem frameFormat_format (s : Cpu μ) (vector : Word) :
    (frameFormat s vector &&& 0xFFFF) >>> 12 &&& 0xF = 4 := by
  have hvector := field_shift vector (show (0xFF : Word).toNat * 2 ^ 2 < 2 ^ 12 by decide)
  have hstatus := field_shift (s.faultStatus.zeroExtend 32)
    (show (3 : Word).toNat * 2 ^ 10 < 2 ^ 12 by decide)
  have hshift : frameFormat s vector >>> 12 = 4 := by
    unfold frameFormat
    dsimp only
    split_ifs
    · rw [BitVec.ushiftRight_or_distrib, BitVec.ushiftRight_or_distrib, hvector, hstatus]
      decide
    · rw [BitVec.ushiftRight_or_distrib, hvector]
      decide
  rw [BitVec.ushiftRight_and_distrib, hshift]
  decide

/-! ## RTE -/

theorem execNext_rte {m : Machine μ} {s : Cpu μ} (hop : (fetch16 m.bus s).1 = 0x4E73)
    (hsup : isSupervisor s = true) : execNext m s = rte m.bus (fetch16 m.bus s).2 := by
  have hsup' : isSupervisor (fetch16 m.bus s).2 = true := hsup
  show execGroup m (fetch16 m.bus s).2 (fetch16 m.bus s).1 = _
  rw [hop]
  show privileged m.bus (fetch16 m.bus s).2 (rte m.bus) = _
  rw [privileged, hsup', if_pos rfl]

theorem rte_eq {s : Cpu μ} (hfmt : busRead16 b s (s.a 7) >>> 12 &&& 0xF = 4) :
    rte b s =
      { updateSp (s.setA 7 (s.a 7 + 8)) (busRead16 b s (s.a 7 + 2)) with
        sr := busRead16 b s (s.a 7 + 2)
        pc := busRead32 b s (s.a 7 + 4) } := by
  have h4 : s.a 7 + 2 + 2 = s.a 7 + 4 := by bv_omega
  have h8 : s.a 7 + 4 + 4 = s.a 7 + 8 := by bv_omega
  simp only [rte, hfmt, ne_eq, not_true_eq_false, if_false, Cpu.setA, Function.update_self,
    Function.update_idem, h4, h8]
  rfl

theorem rte_handler {s : Cpu μ} (sp usp sr pc : Word) (hsup : isSupervisor s = true)
    (hsp : s.a 7 = sp - 8) (husp : s.otherA7 = usp)
    (hfmt : busRead16 b s (sp - 8) >>> 12 &&& 0xF = 4) (hsr : busRead16 b s (sp - 6) = sr)
    (hpc : busRead32 b s (sp - 4) = pc) :
    rte b s =
      { s with
        a := Function.update s.a 7 (if supervisorBit sr then sp else usp)
        otherA7 := if supervisorBit sr then usp else sp
        sr := sr
        pc := pc } := by
  have h2 : sp - 8 + 2 = sp - 6 := by bv_omega
  have h4 : sp - 8 + 4 = sp - 4 := by bv_omega
  have h8 : sp - 8 + 8 = sp := by bv_omega
  have hsup' : isSupervisor (s.setA 7 sp) = true := hsup
  have hsp' : supervisorSp (s.setA 7 sp) = sp := by
    rw [supervisorSp, hsup']
    exact Function.update_self 7 sp s.a
  have husp' : userSp (s.setA 7 sp) = usp := by
    rw [userSp, hsup']
    exact husp
  rw [rte_eq (by rw [hsp]; exact hfmt), hsp, h2, h4, h8, hsr, hpc, updateSp_eq, hsp', husp']
  simp only [Cpu.setA, Function.update_idem]

/-- An exception and then RTE: the cpu is where it was. -/
theorem rte_cfException {m : Machine μ} {s : Cpu μ} {vector : Word} (hsr : s.sr.toNat < 2 ^ 16)
    (hin : s.inException = false) (hplain : PlainMemory m.bus (frameArea s))
    (hslot : Disjoint (frameArea s) (bytes (s.vbr + vector * 4) 4))
    (hhandler : Disjoint (frameArea s) (bytes (m.bus.read32 s.mem (s.vbr + vector * 4)) 2))
    (hrte : (m.bus.read16 s.mem (m.bus.read32 s.mem (s.vbr + vector * 4)) &&& 0xFFFF).truncate 16 =
      (0x4E73 : Half)) :
    let s' := execNext m (cfException m.bus s vector)
    s'.pc = s.pc ∧ s'.sr = s.sr ∧ s'.a = s.a ∧ s'.otherA7 = s.otherA7 ∧ s'.d = s.d := by
  obtain ⟨trace, hraise⟩ := raise_eq (b := m.bus) hin vector false
  have hsr' : s.sr &&& 0xFFFF = s.sr := by
    apply BitVec.eq_of_toNat_eq
    rw [BitVec.toNat_and, show (0xFFFF : Word).toNat = 2 ^ 16 - 1 from rfl,
      Nat.and_two_pow_sub_one_eq_mod, Nat.mod_eq_of_lt hsr]
  have hfetch : (fetch16 m.bus (cfException m.bus s vector)).1 = 0x4E73 := by
    rw [cfException, hraise]
    show (m.bus.read16 (frameMem m.bus s vector)
      (m.bus.read32 (frameMem m.bus s vector) (s.vbr + vector * 4)) &&& 0xFFFF).truncate 16 = _
    rw [frameMem_read32 hplain vector hslot, frameMem_read16 hplain vector hhandler, hrte]
  have hsup : isSupervisor (cfException m.bus s vector) = true := by
    rw [cfException, hraise]
    exact supervisorBit_handlerSr s.sr
  have hfmt := frameFormat_format s vector
  rw [← frameMem_format hplain vector] at hfmt
  have hret := rte_handler (b := m.bus) (s := (fetch16 m.bus (cfException m.bus s vector)).2)
    (supervisorSp s) (userSp s) s.sr s.pc hsup
    (by rw [cfException, hraise]; exact Function.update_self (7 : Reg) (supervisorSp s - 8) s.a)
    (by rw [cfException, hraise]; rfl)
    (by rw [cfException, hraise]; exact hfmt)
    (by rw [cfException, hraise]; exact (frameMem_sr hplain vector).trans hsr')
    (by rw [cfException, hraise]; exact frameMem_pc hplain vector)
  dsimp only
  rw [execNext_rte hfetch hsup, hret, cfException, hraise]
  refine ⟨rfl, rfl, ?_, ?_, rfl⟩
  · -- A7 is the stack pointer of the mode that was interrupted
    show Function.update (Function.update s.a 7 _) 7 _ = s.a
    rw [Function.update_idem, supervisorSp, userSp, isSupervisor]
    cases supervisorBit s.sr <;> exact Function.update_eq_self 7 s.a
  · show (if supervisorBit s.sr = true then userSp s else supervisorSp s) = s.otherA7
    rw [supervisorSp, userSp, isSupervisor]
    cases supervisorBit s.sr <;> rfl

/-! ## A machine with memory only -/

/-- Big-endian byte memory. -/
def ram : Bus (Word → BitVec 8) where
  read8 m a := (m a).zeroExtend 32
  read16 m a := (m a ++ m (a + 1)).zeroExtend 32
  read32 m a := m a ++ m (a + 1) ++ m (a + 2) ++ m (a + 3)
  write8 m a v := Function.update m a (v.truncate 8)
  write16 m a v :=
    Function.update (Function.update m a (v.extractLsb' 8 8)) (a + 1) (v.extractLsb' 0 8)
  write32 m a v :=
    Function.update
      (Function.update
        (Function.update (Function.update m a (v.extractLsb' 24 8)) (a + 1) (v.extractLsb' 16 8))
        (a + 2) (v.extractLsb' 8 8))
      (a + 3) (v.extractLsb' 0 8)

theorem ne_add (a : Word) {j : Word} (h : j ≠ 0) : a ≠ a + j := by
  intro heq
  apply h
  bv_omega

theorem add_ne_add (a : Word) {i j : Word} (h : i ≠ j) : a + i ≠ a + j :=
  fun heq => h ((BitVec.add_right_inj a).mp heq)

theorem ne_of_notMem {x a : Word} {i n : Nat} (h : x ∉ bytes a n) (hi : i < n) :
    x ≠ a + BitVec.ofNat 32 i := fun heq => h ⟨i, hi, heq⟩

theorem ram_write16_other {m : Word → BitVec 8} {a v x : Word} (h : x ∉ bytes a 2) :
    ram.write16 m a v x = m x := by
  have h0 : x ≠ a := by simpa using ne_of_notMem h (i := 0) (by omega)
  have h1 : x ≠ a + 1 := ne_of_notMem h (i := 1) (by omega)
  exact (Function.update_of_ne h1 ..).trans (Function.update_of_ne h0 ..)

theorem ram_write32_other {m : Word → BitVec 8} {a v x : Word} (h : x ∉ bytes a 4) :
    ram.write32 m a v x = m x := by
  have h0 : x ≠ a := by simpa using ne_of_notMem h (i := 0) (by omega)
  have h1 : x ≠ a + 1 := ne_of_notMem h (i := 1) (by omega)
  have h2 : x ≠ a + 2 := ne_of_notMem h (i := 2) (by omega)
  have h3 : x ≠ a + 3 := ne_of_notMem h (i := 3) (by omega)
  refine (Function.update_of_ne h3 ..).trans ?_
  refine (Function.update_of_ne h2 ..).trans ?_
  exact (Function.update_of_ne h1 ..).trans (Function.update_of_ne h0 ..)

theorem ram_read16_congr {m m' : Word → BitVec 8} {a : Word} (h : ∀ x ∈ bytes a 2, m x = m' x) :
    ram.read16 m a = ram.read16 m' a := by
  have h0 : m a = m' a := h a ⟨0, by omega, by simp⟩
  have h1 : m (a + 1) = m' (a + 1) := h (a + 1) ⟨1, by omega, rfl⟩
  simp only [ram, h0, h1]

theorem ram_read32_congr {m m' : Word → BitVec 8} {a : Word} (h : ∀ x ∈ bytes a 4, m x = m' x) :
    ram.read32 m a = ram.read32 m' a := by
  have h0 : m a = m' a := h a ⟨0, by omega, by simp⟩
  have h1 : m (a + 1) = m' (a + 1) := h (a + 1) ⟨1, by omega, rfl⟩
  have h2 : m (a + 2) = m' (a + 2) := h (a + 2) ⟨2, by omega, rfl⟩
  have h3 : m (a + 3) = m' (a + 3) := h (a + 3) ⟨3, by omega, rfl⟩
  simp only [ram, h0, h1, h2, h3]

theorem ram_same16 (m : Word → BitVec 8) (a v : Word) :
    ram.read16 (ram.write16 m a v) a &&& 0xFFFF = v &&& 0xFFFF := by
  have hhi : ram.write16 m a v a = v.extractLsb' 8 8 :=
    (Function.update_of_ne (ne_add a (by decide)) ..).trans (Function.update_self ..)
  have hlo : ram.write16 m a v (a + 1) = v.extractLsb' 0 8 := Function.update_self ..
  show (ram.write16 m a v a ++ ram.write16 m a v (a + 1)).zeroExtend 32 &&& 0xFFFF = _
  have hword : v.extractLsb' 8 8 ++ v.extractLsb' 0 8 = v.extractLsb' 0 16 :=
    BitVec.extractLsb'_append_extractLsb'_eq_extractLsb' rfl
  rw [hhi, hlo, hword]
  ext i hi
  by_cases hlt : i < 16
  · simp [hlt, BitVec.getLsbD_eq_getElem hi]
  · have hmask : (0xFFFF : Word)[i] = false := by
      show (0xFFFF : Nat).testBit i = false
      apply Nat.testBit_lt_two_pow
      exact lt_of_lt_of_le (show 0xFFFF < 2 ^ 16 by decide)
        (Nat.pow_le_pow_right (by decide) (by omega))
    rw [BitVec.getElem_and, BitVec.getElem_and, hmask, Bool.and_false, Bool.and_false]

theorem ram_same32 (m : Word → BitVec 8) (a v : Word) :
    ram.read32 (ram.write32 m a v) a = v := by
  have h3 : ram.write32 m a v (a + 3) = v.extractLsb' 0 8 := Function.update_self ..
  have h2 : ram.write32 m a v (a + 2) = v.extractLsb' 8 8 :=
    (Function.update_of_ne (add_ne_add a (by decide)) ..).trans (Function.update_self ..)
  have h1 : ram.write32 m a v (a + 1) = v.extractLsb' 16 8 :=
    (Function.update_of_ne (add_ne_add a (by decide)) ..).trans
      ((Function.update_of_ne (add_ne_add a (by decide)) ..).trans (Function.update_self ..))
  have h0 : ram.write32 m a v a = v.extractLsb' 24 8 :=
    (Function.update_of_ne (ne_add a (by decide)) ..).trans
      ((Function.update_of_ne (ne_add a (by decide)) ..).trans
        ((Function.update_of_ne (ne_add a (by decide)) ..).trans (Function.update_self ..)))
  show ram.write32 m a v a ++ ram.write32 m a v (a + 1) ++ ram.write32 m a v (a + 2) ++
    ram.write32 m a v (a + 3) = v
  have h16 : v.extractLsb' 24 8 ++ v.extractLsb' 16 8 = v.extractLsb' 16 16 :=
    BitVec.extractLsb'_append_extractLsb'_eq_extractLsb' rfl
  have h24 : v.extractLsb' 16 16 ++ v.extractLsb' 8 8 = v.extractLsb' 8 24 :=
    BitVec.extractLsb'_append_extractLsb'_eq_extractLsb' rfl
  have h32 : v.extractLsb' 8 24 ++ v.extractLsb' 0 8 = v.extractLsb' 0 32 :=
    BitVec.extractLsb'_append_extractLsb'_eq_extractLsb' rfl
  rw [h0, h1, h2, h3, h16, h24, h32]
  exact BitVec.extractLsb'_eq_self

theorem ram_plain (r : Set Word) : PlainMemory ram r where
  same16 m a v _ := ram_same16 m a v
  same32 m a v _ := ram_same32 m a v
  read16_write16 _ _ _ _ _ h :=
    ram_read16_congr fun _ hx => ram_write16_other fun hx' => Set.disjoint_left.mp h hx' hx
  read16_write32 _ _ _ _ _ h :=
    ram_read16_congr fun _ hx => ram_write32_other fun hx' => Set.disjoint_left.mp h hx' hx
  read32_write16 _ _ _ _ _ h :=
    ram_read32_congr fun _ hx => ram_write16_other fun hx' => Set.disjoint_left.mp h hx' hx
  read32_write32 _ _ _ _ _ h :=
    ram_read32_congr fun _ hx => ram_write32_other fun hx' => Set.disjoint_left.mp h hx' hx

theorem bytes_disjoint_of_le {a a' : Word} {n n' : Nat} (h : a.toNat + n ≤ a'.toNat)
    (h' : a'.toNat + n' ≤ 2 ^ 32) : Disjoint (bytes a n) (bytes a' n') := by
  rw [Set.disjoint_left]
  rintro x ⟨i, hi, rfl⟩ ⟨i', hi', heq⟩
  have hsame := congrArg BitVec.toNat heq
  simp only [BitVec.toNat_add, BitVec.toNat_ofNat] at hsame
  omega

/-- No arithmetic. -/
def noDoubles : Doubles where
  add x _ := x
  sub x _ := x
  mul x _ := x
  div x _ := x
  neg x := x
  fabs x := x
  sqrt x := x
  rint x := x
  trunc x := x
  isnan _ := false
  isinf _ := false
  ltZero _ := false
  eqZero _ := false
  ofInt _ := 0
  ofSingle _ := 0
  toSingle _ := 0
  toInt32 _ := 0
  toInt16 _ := 0
  toInt8 _ := 0
  negf x := x
  fabsf x := x
  sqrtf x := x

def ramMachine : Machine (Word → BitVec 8) := { bus := ram, doubles := noDoubles }

/-- A cpu at `pc` with all registers zero but the stack pointers. -/
def cpuAt (pc sp : Word) (sr : Word) (mem : Word → BitVec 8) : Cpu (Word → BitVec 8) where
  d _ := 0
  a := Function.update (fun _ => 0) 7 sp
  pc := pc
  sr := sr
  vbr := 0
  cacr := 0
  otherA7 := 0x9000
  fp _ := 0
  fpcr := 0
  fpsr := 0
  fpiar := 0
  acc _ := 0
  macsr := 0
  mask := 0
  halted := false
  cycles := 0
  fault := false
  faultStatus := 0
  inException := false
  trace := ⟨fun _ => ⟨.none, 0, 0, 0⟩, 0, 0⟩
  mem := mem
  taken := []

/-- Vector 32 leads to an RTE at `0x2000`. -/
def rteRam : Word → BitVec 8 := fun a =>
  if a = 0x82 then 0x20 else if a = 0x2000 then 0x4E else if a = 0x2001 then 0x73 else 0

/-- TRAP #0 from user mode. -/
theorem rte_trap :
    let s := cpuAt 0x1000 0x8000 0 rteRam
    let s' := execNext ramMachine (cfException ram s 32)
    s'.pc = s.pc ∧ s'.sr = s.sr ∧ s'.a = s.a ∧ s'.otherA7 = s.otherA7 ∧ s'.d = s.d :=
  @rte_cfException _ ramMachine (cpuAt 0x1000 0x8000 0 rteRam) 32 (by decide) rfl (ram_plain _)
    (bytes_disjoint_of_le (a := 0x80) (n := 4) (by decide) (by decide)).symm
    (bytes_disjoint_of_le (a := 0x2000) (n := 2) (by decide) (by decide)).symm
    (by decide)

end MechanicalResearcher.ColdFire
