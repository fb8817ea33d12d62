import MechanicalResearcher.Rv32.Steps

/-!
# Runs of a host

The host calls the functions of `rv32.h` in any order, from a reset on.  x0 reads as 0 in every
such run.
-/

namespace MechanicalResearcher.Rv32

variable {μ : Type}

/-- What the host does with the machine; `poke` is a change of the memory behind the bus. -/
inductive HostCall (μ : Type)
  | step
  | trap (cause tval : Word)
  | setIrq (cause : Word) (level : Bool)
  | setX (n : Int) (val : Word)
  | setPc (val : Word)
  | setF (n : Int) (bits : Word)
  | poke (mem : μ)
  | halt
  | reset (entry : Word)

def hostCall (h : Host μ) (s : Cpu μ) : HostCall μ → Cpu μ
  | .step => (rvStep h s).1
  | .trap cause tval => rvTrap s cause tval
  | .setIrq cause level => rvSetIrq s cause level
  | .setX n val => rvSetX s n val
  | .setPc val => rvSetPc s val
  | .setF n bits => rvSetF s n bits
  | .poke mem => { s with mem := mem }
  | .halt => rvHalt s
  | .reset entry => rvReset s entry

def hostRun (h : Host μ) (s : Cpu μ) (calls : List (HostCall μ)) : Cpu μ :=
  calls.foldl (hostCall h) s

section Zero

variable {h : Host μ} {s : Cpu μ} {insn next : Word}

theorem rvTrap_x (s : Cpu μ) (cause tval : Word) : (rvTrap s cause tval).x = s.x := by
  unfold rvTrap
  split <;> rfl

theorem raise_x (s : Cpu μ) (e : Fault) : (raise s e).x = s.x := by
  unfold raise
  split
  · exact rvTrap_x s _ _
  · exact rvTrap_x (s.push _ s.pc _ _ _) _ _

theorem clearX0_x0 (s : Cpu μ) : (clearX0 s).x 0 = 0 := by
  change Function.update s.x 0 0 0 = 0
  exact Function.update_self 0 0 s.x

theorem raise_x0 (hs : s.x 0 = 0) (e : Fault) : (raise s e).x 0 = 0 := by
  rw [raise_x]
  exact hs

theorem apply_x0 (hs : s.x 0 = 0) (e : Effect μ) : (e.apply s).1.x 0 = 0 := by
  cases e with
  | done w next => exact clearX0_x0 _
  | trap e next clear =>
    cases clear with
    | true => exact clearX0_x0 _
    | false => exact raise_x0 hs e

/-- The callback of `ecall` does not write x0. -/
def Host.EcallKeepsX0 (h : Host μ) : Prop :=
  ∀ call, h.ecall = some call → ∀ s, (call s).1.x 0 = s.x 0

theorem execEcall_x0 (hcall : h.EcallKeepsX0) (hs : s.x 0 = 0) :
    (execEcall h s insn next).1.x 0 = 0 := by
  unfold execEcall
  cases hec : h.ecall with
  | none =>
    change (rvTrap (ecallEntry s insn) 11 0).x 0 = 0
    rw [rvTrap_x]
    exact hs
  | some call =>
    have hkept := hcall call hec (ecallEntry s insn)
    simp only
    split
    · exact clearX0_x0 _
    · rw [rvTrap_x, hkept]
      exact hs

theorem execCsr_x0 (hs : s.x 0 = 0) : (execCsr s insn next).1.x 0 = 0 := by
  unfold execCsr
  simp only
  split
  · exact raise_x0 hs _
  · split
    · exact raise_x0 hs _
    · split
      · exact clearX0_x0 _
      · split
        · exact raise_x0 hs _
        · exact clearX0_x0 _

theorem execSystem_x0 (hcall : h.EcallKeepsX0) (hs : s.x 0 = 0) :
    (execSystem h s insn next).1.x 0 = 0 := by
  unfold execSystem
  split
  · split
    · exact execEcall_x0 hcall hs
    · split
      · exact raise_x0 hs _
      · split
        · exact hs
        · split
          · exact clearX0_x0 _
          · exact raise_x0 hs _
  · exact execCsr_x0 hs

theorem exec_x0 (hcall : h.EcallKeepsX0) (hs : s.x 0 = 0) : (exec h s insn next).1.x 0 = 0 := by
  unfold exec
  split
  · exact execSystem_x0 hcall hs
  · split
    · exact apply_x0 hs _
    · exact apply_x0 hs _

theorem stepCompressed_x0 (hcall : h.EcallKeepsX0) (hs : s.x 0 = 0) (lo : BitVec 16) :
    (stepCompressed h s lo).x 0 = 0 := by
  unfold stepCompressed
  simp only
  split
  · split
    · exact raise_x0 hs _
    · rename_i r _
      exact clearX0_x0 r.1
  · split
    · exact raise_x0 hs _
    · exact exec_x0 hcall hs

theorem stepInsn_x0 (hcall : h.EcallKeepsX0) (hs : s.x 0 = 0) : (stepInsn h s).x 0 = 0 := by
  unfold stepInsn
  split
  · exact raise_x0 hs _
  · split
    · exact raise_x0 hs _
    · simp only
      split
      · exact stepCompressed_x0 hcall hs _
      · split
        · exact raise_x0 hs _
        · exact exec_x0 hcall hs

theorem rvStep_x0 (hcall : h.EcallKeepsX0) (hs : s.x 0 = 0) : (rvStep h s).1.x 0 = 0 := by
  cases hrun : s.halted with
  | true =>
    rw [rvStep_halted hrun]
    exact hs
  | false =>
    by_cases hirq : interrupted s
    · rw [rvStep_interrupt hrun hirq, rvTrap_x]
      exact hs
    · rw [rvStep_insn hrun hirq]
      exact stepInsn_x0 hcall hs

/-- The host does not write x0 itself: `rv_set_x` takes the number of a register modulo 32. -/
def HostCall.KeepsX0 : HostCall μ → Prop
  | .setX n _ => n = 0 ∨ BitVec.ofInt 5 n ≠ 0
  | _ => True

theorem hostCall_x0 (hcall : h.EcallKeepsX0) (hs : s.x 0 = 0) {call : HostCall μ}
    (hkeep : call.KeepsX0) : (hostCall h s call).x 0 = 0 := by
  cases call with
  | step => exact rvStep_x0 hcall hs
  | trap cause tval =>
    rw [hostCall, rvTrap_x]
    exact hs
  | setX n val =>
    rw [hostCall, rvSetX]
    split
    · rename_i hn
      have hne : (0 : Reg) ≠ BitVec.ofInt 5 n := fun h0 => hkeep.resolve_left hn h0.symm
      exact (Function.update_of_ne hne val s.x).trans hs
    · exact hs
  | reset entry => rfl
  | setIrq cause level => exact hs
  | setPc val => exact hs
  | setF n bits => exact hs
  | poke mem => exact hs
  | halt => exact hs

end Zero

/-- After any run from a reset x0 is 0, so that it reads as 0 in the next step. -/
theorem hostRun_x0 (h : Host μ) (hcall : h.EcallKeepsX0) (s : Cpu μ) (entry : Word)
    (calls : List (HostCall μ)) (hkeep : ∀ call ∈ calls, call.KeepsX0) :
    (hostRun h (rvReset s entry) calls).x 0 = 0 := by
  have hrun : ∀ t : Cpu μ, t.x 0 = 0 → (hostRun h t calls).x 0 = 0 := by
    induction calls with
    | nil => exact fun t ht => ht
    | cons call calls ih =>
      intro t ht
      exact ih (fun c hc => hkeep c (List.mem_cons_of_mem _ hc)) _
        (hostCall_x0 hcall ht (hkeep call (by simp)))
  exact hrun _ rfl

/-- A host whose memory is all zero, which is no instruction. -/
def zeroHost : Host Unit where
  read8 := fun _ _ => 0
  read16 := fun _ _ => 0
  read32 := fun _ _ => 0
  write8 := fun _ _ _ => ()
  write16 := fun _ _ _ => ()
  write32 := fun _ _ _ => ()
  fp := trivialDoubles

/-- A host with `addi x0, x0, 5` at 0 and `ecall` at 4, whose callback returns 7 in a0. -/
def addiHost : Host Unit :=
  { zeroHost with
    read16 := fun _ addr => if addr = 0 then 0x0013 else if addr = 2 then 0x0050
      else if addr = 4 then 0x0073 else 0
    ecall := some fun s => (s.setX 10 7, true) }

theorem addiHost_x0 :
    let s := hostRun addiHost (rvReset (rvInit ()) 0) [.setX 5 9, .step, .step]
    s.x 0 = 0 ∧ s.pc = 8 ∧ s.x 5 = 9 ∧ s.x 10 = 7 := by
  refine ⟨hostRun_x0 addiHost (fun call hcall s => ?_) (rvInit ()) 0 _ fun call hmem => ?_,
    by decide, by decide, by decide⟩
  · cases hcall
    rfl
  · simp only [List.mem_cons, List.not_mem_nil, or_false] at hmem
    rcases hmem with rfl | rfl | rfl
    · exact .inr (by decide)
    · trivial
    · trivial

end MechanicalResearcher.Rv32
