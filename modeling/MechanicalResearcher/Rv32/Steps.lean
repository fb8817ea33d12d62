import MechanicalResearcher.Rv32.Exec

/-!
# Steps of the RV32 emulator

A step of a machine that is not halted takes an interrupt, or fetches and executes an instruction
of 16 or of 32 bits.
-/

namespace MechanicalResearcher.Rv32

variable {μ : Type} {h : Host μ} {s : Cpu μ}

/-- The machine at the start of a step: `cpu->in_trap = 0`. -/
def Cpu.fresh (s : Cpu μ) : Cpu μ := { s with inTrap := false }

/-- The next step takes an interrupt. -/
def interrupted (s : Cpu μ) : Prop := s.mip &&& s.mie ≠ 0 ∧ rvIrqPending s ≠ 0

theorem rvStep_halted (hrun : s.halted = true) : (rvStep h s).1 = s := by
  rw [rvStep, if_pos hrun]

theorem rvStep_interrupt (hrun : s.halted = false) (hirq : interrupted s) :
    (rvStep h s).1 = rvTrap s.fresh (rvIrqPending s) 0 := by
  rw [rvStep, if_neg (by simp [hrun])]
  exact if_pos hirq

theorem rvStep_insn (hrun : s.halted = false) (hirq : ¬ interrupted s) :
    (rvStep h s).1 = stepInsn h s.fresh := by
  rw [rvStep, if_neg (by simp [hrun])]
  exact if_neg hirq

theorem stepInsn_narrow (haligned : s.pc &&& 1 = 0) (hlow : h.refuses s.mem s.pc 2 false = false)
    (hnarrow : fetchHalf h s s.pc &&& 3 ≠ 3) :
    stepInsn h s = stepCompressed h s (fetchHalf h s s.pc) := by
  rw [stepInsn, if_neg (not_not.2 haligned), if_neg (by simp [hlow])]
  exact if_pos hnarrow

theorem stepInsn_wide (haligned : s.pc &&& 1 = 0) (hlow : h.refuses s.mem s.pc 2 false = false)
    (hwide : fetchHalf h s s.pc &&& 3 = 3) (hhigh : h.refuses s.mem (s.pc + 2) 2 false = false) :
    stepInsn h s =
      retire (exec h s (fetchHalf h s (s.pc + 2) ++ fetchHalf h s s.pc) (s.pc + 4)) := by
  rw [stepInsn, if_neg (not_not.2 haligned), if_neg (by simp [hlow])]
  simp only [hwide, ne_eq, not_true_eq_false, if_false]
  exact if_neg (by rw [hhigh]; decide)

theorem putX_apply (rd : Reg) (v next : Word) :
    (putX rd v next : Effect μ).apply s = (clearX0 (s.setX rd v), next) := by
  have hflags : fflagsSet s.fcsr 0 = s.fcsr := BitVec.or_zero
  rw [putX, Effect.apply, Writes.apply]
  simp only [hflags]
  rfl

theorem rvTrap_inTrap (cause tval : Word) : (rvTrap s cause tval).inTrap = true := by
  unfold rvTrap
  split
  · assumption
  · rfl

theorem raise_inTrap (e : Fault) : (raise s e).inTrap = true := by
  unfold raise
  split
  · exact rvTrap_inTrap _ _
  · exact rvTrap_inTrap _ _

theorem pushLoop_ok {regs : List Reg} {addr : Word} {s' : Cpu μ}
    (hp : pushLoop h s addr regs = .ok s') : s' = { s with mem := s'.mem } := by
  induction regs generalizing s addr with
  | nil =>
    cases hp
    rfl
  | cons r regs ih =>
    rw [pushLoop] at hp
    split at hp
    · cases hp
    · have hrest := ih hp
      rw [hrest]

theorem pushLoop_error {regs : List Reg} {addr : Word} {s' : Cpu μ}
    (hp : pushLoop h s addr regs = .error s') : ∃ m e, s' = raise { s with mem := m } e := by
  induction regs generalizing s addr with
  | nil => cases hp
  | cons r regs ih =>
    rw [pushLoop] at hp
    split at hp
    · cases hp
      exact ⟨s.mem, _, rfl⟩
    · obtain ⟨m, e, hs'⟩ := ih hp
      exact ⟨m, e, hs'⟩

theorem popLoop_ok {regs : List Reg} {addr : Word} {s' : Cpu μ}
    (hp : popLoop h s addr regs = .ok s') : s' = { s with x := s'.x } := by
  induction regs generalizing s addr with
  | nil =>
    cases hp
    rfl
  | cons r regs ih =>
    rw [popLoop] at hp
    split at hp
    · cases hp
    · have hrest := ih hp
      rw [hrest]
      rfl

theorem popLoop_error {regs : List Reg} {addr : Word} {s' : Cpu μ}
    (hp : popLoop h s addr regs = .error s') : ∃ x e, s' = raise { s with x := x } e := by
  induction regs generalizing s addr with
  | nil => cases hp
  | cons r regs ih =>
    rw [popLoop] at hp
    split at hp
    · cases hp
      exact ⟨s.x, _, rfl⟩
    · obtain ⟨x, e, hs'⟩ := ih hp
      exact ⟨x, e, hs'⟩

/-- The machine `s'` is `s` with other registers and another memory, or has then taken a trap. -/
inductive Ends (s : Cpu μ) : Cpu μ → Prop
  | done (c : Core μ) : Ends s { s with toCore := c }
  | trap (c : Core μ) (e : Fault) : Ends s (raise { s with toCore := c } e)

theorem cmPush_ends (rlist : BitVec 4) (spimm : BitVec 2) : Ends s (cmPush h s rlist spimm) := by
  unfold cmPush
  simp only
  cases hp : pushLoop h s (s.x 2 - BitVec.ofNat 32 (zcmpRegs rlist).length * 4)
      (zcmpRegs rlist) with
  | error s' =>
    obtain ⟨m, e, rfl⟩ := pushLoop_error hp
    exact .trap { s.toCore with mem := m } e
  | ok s' =>
    rw [pushLoop_ok hp]
    exact .done _

theorem cmPop_ends (f5 : BitVec 5) (rlist : BitVec 4) (spimm : BitVec 2) (next : Word) :
    Ends s (cmPop h s f5 rlist spimm next).1 := by
  unfold cmPop
  simp only
  cases hp : popLoop h s (s.x 2 + zcmpStackAdj rlist spimm -
      BitVec.ofNat 32 (zcmpRegs rlist).length * 4) (zcmpRegs rlist) with
  | error s' =>
    obtain ⟨x, e, rfl⟩ := popLoop_error hp
    exact .trap { s.toCore with x := x } e
  | ok s' =>
    rw [popLoop_ok hp]
    simp only
    split
    · exact .done _
    · exact .done _

theorem execZcmp_ends {lo : BitVec 16} {next : Word} {r : Cpu μ × Word}
    (hz : execZcmp h s lo next = some r) : Ends s r.1 := by
  unfold execZcmp at hz
  split at hz
  · rw [Option.map_eq_some_iff] at hz
    obtain ⟨s', hmove, rfl⟩ := hz
    unfold execZcmpMove at hmove
    simp only at hmove
    split_ifs at hmove <;> cases hmove <;> exact .done _
  · simp only at hz
    split_ifs at hz
    · cases hz
      exact cmPush_ends _ _
    · cases hz
      exact cmPop_ends _ _ _ _

end MechanicalResearcher.Rv32
