import MechanicalResearcher.Rv32.Compressed
import MechanicalResearcher.Rv32.HostTraps

/-!
# Reservations

A store conditional succeeds exactly when the last event that counts was a load reserved of the
same address.  The events are the `lr.w` and `sc.w` that complete, traps and resets; the
reservation of the machine is what the last of them left (`Cpu.reservation`).
-/

namespace MechanicalResearcher.Rv32

variable {μ : Type}

/-! ## Instructions other than the atomic ones -/

/-- What an effect does to the reservation, unless it is a trap: `none` leaves it alone. -/
def Effect.Reserves (r : Option (Option Word)) : Effect μ → Prop
  | .done w _ => w.res = r
  | .trap _ _ _ => True

section Reserves

variable {h : Host μ} {c : Core μ} {insn next : Word}

theorem ite_reserves {p : Prop} [Decidable p] {e e' : Effect μ} {r : Option (Option Word)}
    (ht : e.Reserves r) (hf : e'.Reserves r) : (if p then e else e').Reserves r := by
  split
  · exact ht
  · exact hf

theorem reading_reserves {read : Except Fault Word} {k : Word → Effect μ}
    {r : Option (Option Word)} (hk : ∀ v, (k v).Reserves r) :
    (reading next read k).Reserves r := by
  unfold reading
  split
  · trivial
  · exact hk _

theorem storing_reserves {addr : Word} {size : Nat} {v : Word} :
    (storing h c next addr size v).Reserves none := by
  unfold storing
  split
  · trivial
  · rfl

theorem rounding_reserves {k : Rm → Effect μ} (hk : ∀ rm, (k rm).Reserves none) :
    (rounding c insn next k).Reserves none := by
  unfold rounding
  split
  · trivial
  · exact hk _

theorem zbReg_reserves : (zbReg c insn next).Reserves none := by
  unfold zbReg
  split
  · rfl
  · trivial

theorem zbImm_reserves : (zbImm c insn next).Reserves none := by
  unfold zbImm
  split
  · rfl
  · trivial

theorem execBranch_reserves : (execBranch c insn next).Reserves none := by
  unfold execBranch
  split
  · trivial
  · rfl

theorem execLoad_reserves : (execLoad h c insn next).Reserves none := by
  unfold execLoad
  repeat' apply ite_reserves
  all_goals first | trivial | exact reading_reserves fun _ => rfl

theorem execStore_reserves : (execStore h c insn next).Reserves none := by
  unfold execStore
  repeat' apply ite_reserves
  all_goals first | trivial | exact storing_reserves

theorem execImm_reserves : (execImm c insn next).Reserves none := by
  unfold execImm
  repeat' apply ite_reserves
  all_goals first | rfl | exact zbImm_reserves

theorem execReg_reserves : (execReg c insn next).Reserves none := by
  unfold execReg
  repeat' apply ite_reserves
  all_goals first | rfl | exact zbReg_reserves

theorem execFma_reserves : (execFma h c insn next).Reserves none := by
  unfold execFma
  refine ite_reserves trivial ?_
  split
  · trivial
  · rfl

theorem fpCases_reserves {fa fb a : Word} {rd rs2 : Reg} {f3 : BitVec 3} {f5 : BitVec 7} :
    (fpCases h c insn next fa fb a rd rs2 f3 f5).Reserves none := by
  unfold fpCases
  repeat' apply ite_reserves
  all_goals first | rfl | trivial | exact rounding_reserves fun _ => rfl

theorem execCore_reserves : (execCore h c insn next).Reserves none := by
  unfold execCore
  refine ite_reserves rfl (ite_reserves rfl (ite_reserves rfl (ite_reserves ?_
    (ite_reserves execBranch_reserves (ite_reserves execLoad_reserves
    (ite_reserves execStore_reserves (ite_reserves execImm_reserves
    (ite_reserves execReg_reserves (ite_reserves ?_ (ite_reserves ?_ (ite_reserves ?_
    (ite_reserves execFma_reserves (ite_reserves ?_ trivial)))))))))))))
  · exact ite_reserves trivial rfl
  · exact ite_reserves trivial rfl
  · exact ite_reserves trivial (reading_reserves fun _ => rfl)
  · exact ite_reserves trivial storing_reserves
  · exact ite_reserves trivial fpCases_reserves

theorem execAmo_reserves {reservation : Option Word} :
    (execAmo h c reservation insn next).Reserves
      (if funct5 insn = 0x02 then some (some (c.x (rs1Of insn)))
        else if funct5 insn = 0x03 then some none else none) := by
  unfold execAmo
  refine ite_reserves trivial (ite_reserves trivial ?_)
  by_cases hlr : funct5 insn = 0x02
  · rw [if_pos hlr, if_pos hlr]
    exact ite_reserves trivial (reading_reserves fun _ => rfl)
  · rw [if_neg hlr, if_neg hlr]
    by_cases hsc : funct5 insn = 0x03
    · rw [if_pos hsc, if_pos hsc]
      refine ite_reserves ?_ rfl
      split
      · trivial
      · rfl
    · rw [if_neg hsc, if_neg hsc]
      refine reading_reserves fun old => ?_
      split
      · trivial
      · split
        · trivial
        · rfl

end Reserves

/-! ## The reservation after an instruction -/

/-- The reservation after an instruction that does not trap is `r`; a trap gives it up. -/
def LeavesReserved (r : Option Word) (s : Cpu μ) : Prop :=
  s.reservation = if s.inTrap then none else r

section Leaves

variable {h : Host μ} {s : Cpu μ} {insn next : Word} {r : Option Word}

theorem rvTrap_leaves (hs : s.inTrap = false) (cause tval : Word) :
    LeavesReserved r (rvTrap s cause tval) := by
  rw [rvTrap, if_neg (by simp [hs])]
  rfl

theorem raise_leaves (hs : s.inTrap = false) (e : Fault) : LeavesReserved r (raise s e) := by
  unfold raise
  split
  · exact rvTrap_leaves hs _ _
  · exact rvTrap_leaves (s := s.push _ s.pc _ _ _) hs _ _

theorem of_inTrap_eq_false (hs : s.inTrap = false) : LeavesReserved s.reservation s := by
  simp [LeavesReserved, hs]

theorem apply_leaves (hs : s.inTrap = false) {e : Effect μ} {res : Option (Option Word)}
    (he : e.Reserves res) : LeavesReserved (res.getD s.reservation) (e.apply s).1 := by
  cases e with
  | done w next =>
    obtain rfl : w.res = res := he
    have htrap : ((Effect.done w next).apply s).1.inTrap = false := hs
    rw [LeavesReserved, htrap, if_neg (by simp)]
    change (if (w.res.map Option.isSome).getD s.resValid then
      some ((w.res.getD none).getD s.resAddr) else none) = _
    cases w.res with
    | none => rfl
    | some r => cases r <;> rfl
  | trap e next clear =>
    have hraise : LeavesReserved (res.getD s.reservation) (raise s e) := raise_leaves hs e
    cases clear with
    | true => exact hraise
    | false => exact hraise

theorem ends_leaves (hs : s.inTrap = false) {s' : Cpu μ} (he : Ends s s') :
    LeavesReserved s.reservation s' := by
  cases he with
  | done c => exact of_inTrap_eq_false (s := { s with toCore := c }) hs
  | trap c e => exact raise_leaves (s := { s with toCore := c }) hs e

/-- The callback of `ecall` does not touch traps and reservations. -/
def Host.EcallApart (h : Host μ) : Prop :=
  ∀ call, h.ecall = some call → ∀ s, (call s).1.inTrap = s.inTrap ∧
    (call s).1.resValid = s.resValid ∧ (call s).1.resAddr = s.resAddr

theorem execEcall_leaves (hcall : h.EcallApart) (hs : s.inTrap = false) :
    LeavesReserved s.reservation (execEcall h s insn next).1 := by
  unfold execEcall
  cases hec : h.ecall with
  | none => exact rvTrap_leaves (s := ecallEntry s insn) hs _ _
  | some call =>
    obtain ⟨htrap, hvalid, haddr⟩ := hcall call hec (ecallEntry s insn)
    simp only
    by_cases hh : (call (ecallEntry s insn)).2 = true
    · rw [if_pos hh]
      have hres : (call (ecallEntry s insn)).1.reservation = s.reservation := by
        rw [Cpu.reservation, hvalid, haddr]
        rfl
      have hleaves := of_inTrap_eq_false (htrap.trans hs)
      rwa [hres] at hleaves
    · rw [if_neg hh]
      exact rvTrap_leaves (htrap.trans hs) _ _

theorem execCsr_leaves (hs : s.inTrap = false) :
    LeavesReserved s.reservation (execCsr s insn next).1 := by
  unfold execCsr
  simp only
  split
  · exact raise_leaves hs _
  · split
    · exact raise_leaves hs _
    · split
      · exact of_inTrap_eq_false (s := s) hs
      · split
        · exact raise_leaves hs _
        · rename_i s' hw
          rw [csrWrite_eq_some hw]
          exact of_inTrap_eq_false (s := s) hs

theorem execSystem_leaves (hcall : h.EcallApart) (hs : s.inTrap = false) :
    LeavesReserved s.reservation (execSystem h s insn next).1 := by
  unfold execSystem
  split
  · split
    · exact execEcall_leaves hcall hs
    · split
      · exact raise_leaves hs _
      · split
        · exact of_inTrap_eq_false (s := s) hs
        · split
          · exact of_inTrap_eq_false (s := s) hs
          · exact raise_leaves hs _
  · exact execCsr_leaves hs

/-- The reservation that the atomic instruction `insn` leaves when it completes. -/
def amoLeaves (s : Cpu μ) (insn : Word) : Option Word :=
  if opcode insn = opAmo then
    if funct5 insn = 0x02 then some (s.x (rs1Of insn))
    else if funct5 insn = 0x03 then none
    else s.reservation
  else s.reservation

theorem exec_leaves (hcall : h.EcallApart) (hs : s.inTrap = false) :
    LeavesReserved (amoLeaves s insn) (exec h s insn next).1 := by
  unfold exec amoLeaves
  by_cases hsys : opcode insn = opSystem
  · rw [if_pos hsys, if_neg (by rw [hsys]; decide)]
    exact execSystem_leaves hcall hs
  · rw [if_neg hsys]
    by_cases hamo : opcode insn = opAmo
    · rw [if_pos hamo, if_pos hamo]
      have hres : (execAmo h s.toCore s.reservation insn next).Reserves
          (if funct5 insn = 0x02 then some (some (s.x (rs1Of insn)))
            else if funct5 insn = 0x03 then some none else none) := execAmo_reserves
      have hleaves := apply_leaves hs hres
      convert hleaves using 1
      split
      · rfl
      · split <;> rfl
    · rw [if_neg hamo, if_neg hamo]
      exact apply_leaves hs execCore_reserves

theorem retire_leaves {p : Cpu μ × Word} (hp : LeavesReserved r p.1) :
    LeavesReserved r (retire p) := hp

theorem opcode_expand_ne_amo (c : Core μ) (lo : BitVec 16) : opcode (expand c lo) ≠ opAmo := by
  have hencoded : ∀ o : Option RvcInsn, opcode (encoded o) ≠ opAmo := by
    intro o
    cases o with
    | none => decide
    | some i =>
      intro hop
      have hmem := opcode_encoding i
      rw [encoded] at hop
      rw [hop] at hmem
      revert hmem
      decide
  unfold expand
  simp only
  split
  · rw [rvExpandZcb_eq]
    exact hencoded _
  · rw [rvExpandC_eq]
    exact hencoded _

theorem stepCompressed_leaves (hcall : h.EcallApart) (hs : s.inTrap = false) (lo : BitVec 16) :
    LeavesReserved s.reservation (stepCompressed h s lo) := by
  unfold stepCompressed
  simp only
  split
  · cases hz : execZcmp h s lo (s.pc + 2) with
    | none => exact raise_leaves hs _
    | some p =>
      have hends := ends_leaves hs (execZcmp_ends hz)
      exact retire_leaves (p := (clearX0 p.1, p.2)) hends
  · split
    · exact raise_leaves hs _
    · have hleaves : LeavesReserved (amoLeaves s (expand s.toCore lo))
          (exec h s (expand s.toCore lo) (s.pc + 2)).1 := exec_leaves hcall hs
      rw [amoLeaves, if_neg (opcode_expand_ne_amo _ _)] at hleaves
      exact retire_leaves hleaves

/-- The 32 bits at `pc`. -/
def wideInsn (h : Host μ) (s : Cpu μ) : Word := fetchHalf h s (s.pc + 2) ++ fetchHalf h s s.pc

/-- The reservation after the instruction at `pc`, when it completes. -/
def insnLeaves (h : Host μ) (s : Cpu μ) : Option Word :=
  if fetchHalf h s s.pc &&& 3 = 3 then amoLeaves s (wideInsn h s) else s.reservation

theorem stepInsn_leaves (hcall : h.EcallApart) (hs : s.inTrap = false) :
    LeavesReserved (insnLeaves h s) (stepInsn h s) := by
  unfold stepInsn
  split
  · exact raise_leaves hs _
  · split
    · exact raise_leaves hs _
    · simp only
      unfold insnLeaves
      by_cases hwide : fetchHalf h s s.pc &&& 3 = 3
      · rw [if_neg (not_not.2 hwide), if_pos hwide]
        split
        · exact raise_leaves hs _
        · exact retire_leaves (exec_leaves hcall hs)
      · rw [if_pos hwide, if_neg hwide]
        exact stepCompressed_leaves hcall hs _

end Leaves

/-! ## Events -/

/-- What counts for a reservation; the `lr.w` and `sc.w` are completed. -/
inductive ResEvent
  | lr (addr : Word)
  | sc
  | trap
  | reset
  deriving DecidableEq, Repr

/-- The address that is reserved after an event. -/
def ResEvent.reserved : ResEvent → Option Word
  | .lr addr => some addr
  | .sc | .trap | .reset => none

/-- The event of the instruction at `pc`, when it completes. -/
def insnEvent (h : Host μ) (s : Cpu μ) : Option ResEvent :=
  let insn := wideInsn h s
  if fetchHalf h s s.pc &&& 3 = 3 ∧ opcode insn = opAmo then
    if funct5 insn = 0x02 then some (.lr (s.x (rs1Of insn)))
    else if funct5 insn = 0x03 then some .sc
    else none
  else none

/-- The event of a call; a double fault takes no trap. -/
def callEvent (h : Host μ) (s : Cpu μ) : HostCall μ → Option ResEvent
  | .step =>
    if s.halted then none else if stepTraps h s then some .trap else insnEvent h s
  | .trap _ _ => if s.inTrap then none else some .trap
  | .reset _ => some .reset
  | _ => none

/-- The last event of a run, where `last` is the one before it. -/
def lastEvent (h : Host μ) : Cpu μ → ResEvent → List (HostCall μ) → ResEvent
  | _, last, [] => last
  | s, last, call :: calls =>
    lastEvent h (hostCall h s call) ((callEvent h s call).getD last) calls

section Events

variable {h : Host μ} {s : Cpu μ} {last : ResEvent}

theorem insnLeaves_eq (hs : s.reservation = last.reserved) :
    insnLeaves h s = ((insnEvent h s).getD last).reserved := by
  unfold insnLeaves insnEvent amoLeaves
  by_cases hwide : fetchHalf h s s.pc &&& 3 = 3
  · by_cases hamo : opcode (wideInsn h s) = opAmo
    · simp only [hwide, hamo, and_self, if_true]
      by_cases hlr : funct5 (wideInsn h s) = 0x02
      · rw [if_pos hlr, if_pos hlr]
        rfl
      · rw [if_neg hlr, if_neg hlr]
        by_cases hsc : funct5 (wideInsn h s) = 0x03
        · rw [if_pos hsc, if_pos hsc]
          rfl
        · rw [if_neg hsc, if_neg hsc]
          exact hs
    · simp only [hwide, hamo, and_false, if_true, if_false]
      exact hs
  · simp only [hwide, false_and, if_false]
    exact hs

theorem rvStep_reservation (hcall : h.EcallApart) (hrun : s.halted = false)
    (hs : s.reservation = last.reserved) : (rvStep h s).1.reservation =
      ((if stepTraps h s then some .trap else insnEvent h s).getD last).reserved := by
  by_cases hirq : interrupted s
  · rw [rvStep_interrupt hrun hirq, if_pos (show stepTraps h s from .inl hirq)]
    exact rvTrap_leaves (s := s.fresh) (r := none) rfl _ _
  · have hleaves := stepInsn_leaves (s := s.fresh) hcall rfl
    rw [LeavesReserved] at hleaves
    rw [rvStep_insn hrun hirq, hleaves]
    by_cases htrap : (stepInsn h s.fresh).inTrap = true
    · rw [if_pos htrap, if_pos (stepInsn_traps_iff.1 (.inr htrap))]
      rfl
    · rw [if_neg htrap, if_neg (mt stepInsn_traps_iff.2 (not_or.2 ⟨hirq, htrap⟩))]
      exact insnLeaves_eq (s := s.fresh) hs

theorem hostCall_reservation (hcall : h.EcallApart) (hs : s.reservation = last.reserved)
    (call : HostCall μ) : (hostCall h s call).reservation =
      ((callEvent h s call).getD last).reserved := by
  cases call with
  | step =>
    cases hhalt : s.halted with
    | true =>
      rw [hostCall, rvStep_halted hhalt, callEvent, if_pos hhalt]
      exact hs
    | false =>
      rw [hostCall, callEvent, if_neg (by simp [hhalt])]
      exact rvStep_reservation hcall hhalt hs
  | trap cause tval =>
    rw [hostCall, callEvent, rvTrap]
    split
    · exact hs
    · rfl
  | setX n val =>
    rw [hostCall, rvSetX]
    split <;> exact hs
  | reset entry => rfl
  | setIrq cause level => exact hs
  | setPc val => exact hs
  | setF n bits => exact hs
  | poke mem => exact hs
  | halt => exact hs

theorem hostRun_reservation (hcall : h.EcallApart) (hs : s.reservation = last.reserved)
    (calls : List (HostCall μ)) :
    (hostRun h s calls).reservation = (lastEvent h s last calls).reserved := by
  induction calls generalizing s last with
  | nil => exact hs
  | cons call calls ih => exact ih (hostCall_reservation hcall hs call)

end Events

/-! ## Store conditional -/

/-- The next instruction is an `sc.w`. -/
structure AtSc (h : Host μ) (s : Cpu μ) : Prop where
  running : s.halted = false
  wide : fetchHalf h s s.pc &&& 3 = 3
  amo : opcode (wideInsn h s) = opAmo
  sc : funct5 (wideInsn h s) = 0x03

/-- The registers after a write of `v` to `rd`; x0 stays 0. -/
def written (x : Reg → Word) (rd : Reg) (v : Word) : Reg → Word :=
  Function.update (Function.update x rd v) 0 0

theorem stepInsn_of_wide {h : Host μ} {s : Cpu μ} (hwide : fetchHalf h s s.pc &&& 3 = 3)
    (hok : (stepInsn h s).inTrap = false) :
    stepInsn h s = retire (exec h s (wideInsn h s) (s.pc + 4)) := by
  have hno : ∀ e, stepInsn h s ≠ raise s e := by
    intro e he
    rw [he, raise_inTrap e] at hok
    cases hok
  have hpc : s.pc &&& 1 = 0 := by
    by_contra hodd
    exact hno _ (if_pos hodd)
  have hlow : h.refuses s.mem s.pc 2 false = false := by
    by_contra hbad
    refine hno (fetchFault s.pc) ?_
    rw [stepInsn, if_neg (not_not.2 hpc), if_pos (by simpa using hbad)]
  have hhigh : h.refuses s.mem (s.pc + 2) 2 false = false := by
    by_contra hbad
    refine hno (fetchFault (s.pc + 2)) ?_
    rw [stepInsn, if_neg (not_not.2 hpc), if_neg (by simp [hlow])]
    simp only [hwide, ne_eq, not_true_eq_false, if_false]
    exact if_pos (by simpa using hbad)
  exact stepInsn_wide hpc hlow hwide hhigh

theorem execAmo_sc {h : Host μ} {s : Cpu μ} {insn next : Word}
    (hsc : funct5 insn = 0x03)
    (hok : ((execAmo h s.toCore s.reservation insn next).apply s).1.inTrap = false) :
    ((execAmo h s.toCore s.reservation insn next).apply s).1.mem =
        (if s.reservation = some (s.x (rs1Of insn)) then
          h.writeValue s.mem (s.x (rs1Of insn)) 4 (s.x (rs2Of insn)) else s.mem) ∧
      ((execAmo h s.toCore s.reservation insn next).apply s).1.x =
        written s.x (rdOf insn) (if s.reservation = some (s.x (rs1Of insn)) then 0 else 1) := by
  have hno : ∀ e clear, execAmo h s.toCore s.reservation insn next ≠ .trap e next clear := by
    intro e clear he
    have htrap : ((Effect.trap e next clear).apply s).1.inTrap = true := by
      cases clear <;> exact raise_inTrap e
    rw [he, htrap] at hok
    cases hok
  have hlr : ¬ funct5 insn = 0x02 := by
    rw [hsc]
    decide
  have hdefined : ¬ (s.atomics = false ∨ funct3 insn ≠ 2) := fun hbad => hno _ _ (if_pos hbad)
  have haligned : ¬ (s.x (rs1Of insn) &&& 3 ≠ 0) := by
    intro hbad
    refine hno (unalignedAtomic insn (s.x (rs1Of insn))) false ?_
    rw [execAmo, if_neg hdefined, if_pos hbad]
  generalize he : execAmo h s.toCore s.reservation insn next = e at hno hok ⊢
  rw [execAmo, if_neg hdefined, if_neg haligned, if_neg hlr, if_pos hsc] at he
  by_cases hres : s.reservation = some (s.x (rs1Of insn))
  · rw [if_pos hres] at he
    rw [if_pos hres, if_pos hres]
    cases hw : memWrite h.toBus s.toCore (s.x (rs1Of insn)) 4 (s.x (rs2Of insn)) with
    | error e' =>
      simp only [hw] at he
      exact absurd he.symm (hno e' false)
    | ok m =>
      simp only [hw] at he
      subst he
      unfold memWrite at hw
      split_ifs at hw
      cases hw
      exact ⟨rfl, rfl⟩
  · rw [if_neg hres] at he
    rw [if_neg hres, if_neg hres]
    subst he
    exact ⟨rfl, rfl⟩

/-- After any run from a reset, an `sc.w` that does not trap stores and writes 0 to `rd` when the
last event was an `lr.w` of its address; else it stores nothing and writes 1. -/
theorem sc_after_run (h : Host μ) (hcall : h.EcallApart) (s : Cpu μ) (entry : Word)
    (calls : List (HostCall μ)) (hsc : AtSc h (hostRun h (rvReset s entry) calls))
    (hok : (rvStep h (hostRun h (rvReset s entry) calls)).1.inTrap = false) :
    let t := hostRun h (rvReset s entry) calls
    let t' := (rvStep h t).1
    let insn := wideInsn h t
    let last := lastEvent h (rvReset s entry) .reset calls
    t'.mem = (if last = .lr (t.x (rs1Of insn)) then
        h.writeValue t.mem (t.x (rs1Of insn)) 4 (t.x (rs2Of insn)) else t.mem) ∧
      t'.x = written t.x (rdOf insn) (if last = .lr (t.x (rs1Of insn)) then 0 else 1) := by
  intro t t' insn last
  have hres : t.reservation = last.reserved := hostRun_reservation hcall rfl calls
  have hiff : t.reservation = some (t.x (rs1Of insn)) ↔ last = .lr (t.x (rs1Of insn)) := by
    rw [hres]
    cases last <;> simp [ResEvent.reserved]
  have hirq : ¬ interrupted t := by
    intro hirq
    have htrap := rvStep_interrupt (h := h) hsc.running hirq
    rw [htrap] at hok
    cases hok
  have hstep : t' = stepInsn h t.fresh := rvStep_insn hsc.running hirq
  have hok' : (stepInsn h t.fresh).inTrap = false := hstep ▸ hok
  have hwide : stepInsn h t.fresh = retire (exec h t.fresh insn (t.pc + 4)) :=
    stepInsn_of_wide (s := t.fresh) hsc.wide hok'
  have hexec : exec h t.fresh insn (t.pc + 4) =
      (execAmo h t.fresh.toCore t.fresh.reservation insn (t.pc + 4)).apply t.fresh := by
    rw [exec, if_neg (by rw [hsc.amo]; decide), if_pos hsc.amo]
  rw [hwide, hexec] at hok'
  have hamo := execAmo_sc (s := t.fresh) hsc.sc hok'
  simp only [← hiff]
  rw [hstep, hwide, hexec]
  exact hamo

/-- A host with `lr.w x5, (x0)` at 0 and `sc.w x6, x7, (x0)` at 4.  Its memory is one word. -/
def scHost : Host Word where
  read8 := fun _ _ => 0
  read16 := fun _ addr =>
    if addr = 0 then 0x22af else if addr = 2 then 0x1000 else if addr = 4 then 0x232f else 0x1870
  read32 := fun mem _ => mem
  write8 := fun mem _ _ => mem
  write16 := fun mem _ _ => mem
  write32 := fun _ _ val => val
  fp := trivialDoubles

theorem scHost_stores :
    AtSc scHost (hostRun scHost (rvReset (rvInit 9) 0) [.step]) ∧
      (rvStep scHost (hostRun scHost (rvReset (rvInit 9) 0) [.step])).1.mem =
        (if lastEvent scHost (rvReset (rvInit 9) 0) .reset [.step] = .lr 0 then 0 else 9) := by
  have hsc : AtSc scHost (hostRun scHost (rvReset (rvInit 9) 0) [.step]) :=
    ⟨by decide, by decide, by decide, by decide⟩
  exact ⟨hsc, (sc_after_run scHost (fun _ h => by cases h) (rvInit 9) 0 [.step] hsc
    (by decide)).1⟩

end MechanicalResearcher.Rv32
