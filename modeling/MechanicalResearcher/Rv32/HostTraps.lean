import MechanicalResearcher.Rv32.HostRuns
import MechanicalResearcher.Rv32.Retired

/-!
# Traps that the host raises

Between two steps the host may raise a trap itself (`rv_trap`).  This works unless a trap was taken
since the last step began, for then `in_trap` is still set and the call counts as a double fault.
-/

namespace MechanicalResearcher.Rv32

variable {μ : Type}

/-- The machine `s'` after a trap that is taken on `s`. -/
structure Redirected (s s' : Cpu μ) (cause tval : Word) : Prop where
  mepc : s'.mepc = s.pc
  mcause : s'.mcause = cause
  mtval : s'.mtval = tval
  pc : s'.pc = trapVector s.mtvec cause
  running : s'.halted = false

theorem rvTrap_redirected_iff {s : Cpu μ} (hrun : s.halted = false) :
    (∀ cause tval, Redirected s (rvTrap s cause tval) cause tval) ↔ s.inTrap = false := by
  refine ⟨fun hall => ?_, fun htrap cause tval => ?_⟩
  · cases htrap : s.inTrap with
    | false => rfl
    | true =>
      have hhalt := (hall 0 0).running
      rw [rvTrap, if_pos htrap] at hhalt
      cases hhalt
  · rw [rvTrap, if_neg (by simp [htrap])]
    exact ⟨rfl, rfl, rfl, rfl, hrun⟩

/-- The step takes an interrupt, or its instruction an exception. -/
def stepTraps (h : Host μ) (s : Cpu μ) : Prop :=
  interrupted s ∨ FaultsEarly h s.fresh ∨ FaultsLate h s.fresh

instance (s : Cpu μ) : Decidable (interrupted s) := inferInstanceAs (Decidable (_ ∧ _))

theorem stepInsn_traps_iff {h : Host μ} {s : Cpu μ} :
    interrupted s ∨ (stepInsn h s.fresh).inTrap = true ↔ stepTraps h s :=
  or_congr_right (stepInsn_stops (s := s.fresh) rfl).inTrap

instance (h : Host μ) (s : Cpu μ) : Decidable (stepTraps h s) :=
  decidable_of_iff _ stepInsn_traps_iff

/-- Whether a trap was taken since the last step began, after one more call. -/
def trapOpen (h : Host μ) (s : Cpu μ) (before : Prop) : HostCall μ → Prop
  | .step => if s.halted then before else stepTraps h s
  | .trap _ _ => True
  | .reset _ => False
  | _ => before

/-- Whether a run leaves the machine with a trap taken since the last step began. -/
def runTrapOpen (h : Host μ) : Cpu μ → Prop → List (HostCall μ) → Prop
  | _, before, [] => before
  | s, before, call :: calls => runTrapOpen h (hostCall h s call) (trapOpen h s before call) calls

theorem rvStep_traps_iff {h : Host μ} {s : Cpu μ} (hrun : s.halted = false) :
    (rvStep h s).1.inTrap = true ↔ stepTraps h s := by
  by_cases hirq : interrupted s
  · rw [rvStep_interrupt hrun hirq]
    exact iff_of_true rfl (.inl hirq)
  · rw [rvStep_insn hrun hirq, ← stepInsn_traps_iff]
    exact ⟨.inr, fun h => h.resolve_left hirq⟩

theorem hostCall_inTrap {h : Host μ} {s : Cpu μ} {before : Prop}
    (hs : s.inTrap = true ↔ before) (call : HostCall μ) :
    (hostCall h s call).inTrap = true ↔ trapOpen h s before call := by
  cases call with
  | step =>
    cases hhalt : s.halted with
    | true =>
      rw [hostCall, rvStep_halted hhalt, trapOpen, if_pos hhalt]
      exact hs
    | false =>
      rw [hostCall, trapOpen, if_neg (by simp [hhalt])]
      exact rvStep_traps_iff hhalt
  | trap cause tval =>
    refine iff_of_true ?_ trivial
    rw [hostCall, rvTrap]
    split
    · assumption
    · rfl
  | setX n val =>
    rw [hostCall, rvSetX]
    split <;> exact hs
  | reset entry => exact iff_of_false (fun h => by cases h) id
  | setIrq cause level => exact hs
  | setPc val => exact hs
  | setF n bits => exact hs
  | poke mem => exact hs
  | halt => exact hs

theorem hostRun_inTrap {h : Host μ} {s : Cpu μ} {before : Prop} (hs : s.inTrap = true ↔ before)
    (calls : List (HostCall μ)) :
    (hostRun h s calls).inTrap = true ↔ runTrapOpen h s before calls := by
  induction calls generalizing s before with
  | nil => exact hs
  | cons call calls ih => exact ih (hostCall_inTrap hs call)

/-- After any run from a reset that leaves the machine running, the host can raise a trap exactly
when none was taken since the last step began. -/
theorem hostTrap_redirected_iff (h : Host μ) (s : Cpu μ) (entry : Word)
    (calls : List (HostCall μ)) (hrun : (hostRun h (rvReset s entry) calls).halted = false) :
    (∀ cause tval, Redirected (hostRun h (rvReset s entry) calls)
      (rvTrap (hostRun h (rvReset s entry) calls) cause tval) cause tval) ↔
      ¬ runTrapOpen h (rvReset s entry) False calls := by
  rw [rvTrap_redirected_iff hrun, ← hostRun_inTrap (iff_of_false (fun h => by cases h) id),
    Bool.not_eq_true]

/-- An external interrupt is raised by the host, its handler starts with `addi`, and the host raises
another one. -/
theorem addiHost_redirected :
    let s := hostRun addiHost (rvReset (rvInit ()) 0)
      [.trap (causeInterrupt ||| irqExt) 0, .step]
    s.pc = 4 ∧ Redirected s (rvTrap s (causeInterrupt ||| irqExt) 7)
      (causeInterrupt ||| irqExt) 7 := by
  refine ⟨by decide, (hostTrap_redirected_iff addiHost (rvInit ()) 0
    [.trap (causeInterrupt ||| irqExt) 0, .step] (by decide)).mpr ?_ _ _⟩
  change ¬ stepTraps addiHost (rvTrap (rvReset (rvInit ()) 0) (causeInterrupt ||| irqExt) 0)
  decide

/-- An external interrupt that the host raises after an illegal instruction halts the machine. -/
theorem zeroHost_doubleFault :
    (hostRun zeroHost (rvReset (rvInit ()) 0) [.step]).halted = false ∧
      ¬ Redirected (hostRun zeroHost (rvReset (rvInit ()) 0) [.step])
        (rvTrap (hostRun zeroHost (rvReset (rvInit ()) 0) [.step]) (causeInterrupt ||| irqExt) 0)
        (causeInterrupt ||| irqExt) 0 := by
  have hhalt : (rvTrap (hostRun zeroHost (rvReset (rvInit ()) 0) [.step])
      (causeInterrupt ||| irqExt) 0).halted = true := by decide
  refine ⟨by decide, fun hr => ?_⟩
  rw [hr.running] at hhalt
  cases hhalt

end MechanicalResearcher.Rv32
