import MechanicalResearcher.Rv32.Traps

/-!
# The counter of retired instructions

`minstret` is to count the instructions that complete without an exception.  `rv_step` leaves it
alone when the fetch or the expansion of a compressed instruction fails, but it counts every
instruction that gets as far as `exec` or `exec_zcmp`, also one that takes its trap there.
-/

namespace MechanicalResearcher.Rv32

variable {csr : BitVec 12} {v insn next : Word}

variable {μ : Type} {h : Host μ} {s : Cpu μ}

/-! ## Exceptions of an instruction -/

/-- The effect is a trap. -/
def Effect.Faults : Effect μ → Prop
  | .done _ _ => False
  | .trap _ _ _ => True

/-- The environment call is not handled by the callback, or the callback raises a trap itself. -/
def Unhandled (h : Host μ) (s : Cpu μ) : Prop :=
  ∀ call, h.ecall = some call →
    (call (ecallEntry s ecallInsn)).2 = false ∨ (call (ecallEntry s ecallInsn)).1.inTrap = true

def SystemFaults (h : Host μ) (s : Cpu μ) (insn : Word) : Prop :=
  if funct3 insn = 0 then
    insn = ecallInsn ∧ Unhandled h s ∨ insn = ebreakInsn ∨
      insn ∉ [ecallInsn, ebreakInsn, mretInsn, wfiInsn]
  else ¬ definedCsr (funct3 insn) (rdOf insn) (rs1Of insn) (csrOf insn)

/-- The instruction takes an exception in `exec`. -/
def ExecFaults (h : Host μ) (s : Cpu μ) (insn next : Word) : Prop :=
  if opcode insn = opSystem then SystemFaults h s insn
  else if opcode insn = opAmo then (execAmo h s.toCore s.reservation insn next).Faults
  else (execCore h s.toCore insn next).Faults

/-- A load or a store of the frame faults. -/
def FrameFaults (h : Host μ) (s : Cpu μ) (lo : BitVec 16) : Prop :=
  let regs := zcmpRegs (zcmpRlist lo)
  let size := BitVec.ofNat 32 regs.length * 4
  multiAccess lo ∧
    if zcmpFunct5 lo = 0x18 then ∃ s', pushLoop h s (s.x 2 - size) regs = .error s'
    else ∃ s',
      popLoop h s (s.x 2 + zcmpStackAdj (zcmpRlist lo) (zcmpSpimm lo) - size) regs = .error s'

/-- The instruction at `pc` is not fetched, or its halfword is not defined. -/
def FaultsEarly (h : Host μ) (s : Cpu μ) : Prop :=
  let lo := fetchHalf h s s.pc
  s.pc &&& 1 ≠ 0 ∨ h.refuses s.mem s.pc 2 false = true ∨
    if lo &&& 3 ≠ 3 then ¬ defined16 s.toCore lo else h.refuses s.mem (s.pc + 2) 2 false = true

/-- The instruction at `pc` is fetched and expanded, and takes its exception after that. -/
def FaultsLate (h : Host μ) (s : Cpu μ) : Prop :=
  let lo := fetchHalf h s s.pc
  s.pc &&& 1 = 0 ∧ h.refuses s.mem s.pc 2 false = false ∧
    if lo &&& 3 ≠ 3 then
      if s.zcmp && isZcmp lo then FrameFaults h s lo
      else expand s.toCore lo ≠ 0 ∧ ExecFaults h s (expand s.toCore lo) (s.pc + 2)
    else
      h.refuses s.mem (s.pc + 2) 2 false = false ∧
        ExecFaults h s (fetchHalf h s (s.pc + 2) ++ lo) (s.pc + 4)

/-! ## The counter -/

/-- The callback for `ecall` works on the registers and the memory. -/
def Host.KeepsCounter (h : Host μ) : Prop :=
  ∀ call, h.ecall = some call → ∀ s, (call s).1.minstret = s.minstret

/-- A CSR instruction that writes a half of `minstret`. -/
def WritesCounter (insn : Word) : Prop :=
  opcode insn = opSystem ∧ funct3 insn ≠ 0 ∧ (csrOf insn = 0xB02 ∨ csrOf insn = 0xB82) ∧
    ¬ (funct3 insn &&& 3 ≠ 1 ∧ rs1Of insn = 0)

/-- The step completes an instruction. -/
def Retires (h : Host μ) (s : Cpu μ) : Prop :=
  s.halted = false ∧ (rvStep h s).1.inTrap = false

/-- The step counts its instruction exactly if it completes. -/
def CountsRetired (h : Host μ) (s : Cpu μ) : Prop :=
  (Retires h s → (rvStep h s).1.minstret = s.minstret + 1) ∧
    (¬ Retires h s → (rvStep h s).1.minstret = s.minstret)

theorem rvTrap_minstret (cause tval : Word) : (rvTrap s cause tval).minstret = s.minstret := by
  unfold rvTrap
  split <;> rfl

theorem raise_minstret (e : Fault) : (raise s e).minstret = s.minstret := by
  unfold raise
  split
  · exact rvTrap_minstret _ _
  · exact rvTrap_minstret _ _

/-- What the execution of an instruction does to the counter, if nothing writes it, and to
`in_trap`. -/
structure Executes (s : Cpu μ) (kept faults : Prop) (s' : Cpu μ) : Prop where
  minstret : kept → s'.minstret = s.minstret
  inTrap : s'.inTrap = true ↔ faults

variable {kept : Prop}

theorem Executes.of_raise {faults : Prop} {s' : Cpu μ} {e : Fault} (hf : faults)
    (hraise : s' = raise s e) : Executes s kept faults s' := by
  rw [hraise]
  exact ⟨fun _ => raise_minstret e, iff_of_true (raise_inTrap e) hf⟩

theorem Effect.apply_executes (hs : s.inTrap = false) (e : Effect μ) :
    Executes s kept e.Faults (e.apply s).1 := by
  cases e with
  | done w next => exact ⟨fun _ => rfl, iff_of_false (fun h => by cases hs.symm.trans h) id⟩
  | trap e next clear =>
    have hraise : Executes s kept True (raise s e) := .of_raise trivial rfl
    cases clear with
    | true => exact ⟨hraise.minstret, hraise.inTrap⟩
    | false => exact hraise

theorem csrRead_isSome (hread : csrRead s csr = some v) :
    csr ∈ csrReadable := by
  by_contra hmem
  simp only [csrReadable, csrWritable, List.cons_append, List.nil_append, List.mem_cons,
    List.not_mem_nil, or_false, not_or] at hmem
  simp only [csrRead, hmem, if_false, or_self] at hread
  cases hread

theorem csrWrite_isSome {s' : Cpu μ} (hwrite : csrWrite s csr v = some s') : csr ∈ csrWritable := by
  by_contra hmem
  simp only [csrWritable, List.mem_cons, List.not_mem_nil, or_false, not_or] at hmem
  simp only [csrWrite, hmem, if_false] at hwrite
  cases hwrite

theorem csrWrite_minstret {s' : Cpu μ} (hwrite : csrWrite s csr v = some s') (hlow : csr ≠ 0xB02)
    (hhigh : csr ≠ 0xB82) :
    s'.minstret = s.minstret := by
  unfold csrWrite at hwrite
  -- the registers before the counter in the order of the source, and `misa` behind it
  iterate 13 refine of_ite_eq_some hwrite (by rintro rfl; rfl) fun hwrite => ?_
  rw [if_neg hlow, if_neg hhigh] at hwrite
  refine of_ite_eq_some hwrite (by rintro rfl; rfl) fun hwrite => ?_
  cases hwrite

theorem execCsr_executes (hs : s.inTrap = false) (hop : opcode insn = opSystem)
    (hf3 : funct3 insn ≠ 0) (next : Word) :
    Executes s (¬ WritesCounter insn)
      (¬ definedCsr (funct3 insn) (rdOf insn) (rs1Of insn) (csrOf insn))
      (execCsr s insn next).1 := by
  have hno : ¬ s.inTrap = true := by simp [hs]
  unfold execCsr
  by_cases h4 : funct3 insn = 4
  · rw [if_pos h4]
    exact .of_raise (e := illegal insn) (fun hdef => hdef.1 h4) rfl
  · rw [if_neg h4]
    cases hread : if funct3 insn &&& 3 = 1 ∧ rdOf insn = 0 then some 0
        else csrRead s (csrOf insn) with
    | none =>
      refine .of_raise (e := illegal insn) (fun hdef => ?_) rfl
      split at hread
      · cases hread
      · rename_i hskip
        exact hdef.2.1.elim hskip (csrRead_eq_none hread)
    | some old =>
      have hreads : funct3 insn &&& 3 = 1 ∧ rdOf insn = 0 ∨ csrOf insn ∈ csrReadable := by
        split at hread
        · rename_i hskip
          exact .inl hskip
        · exact .inr (csrRead_isSome hread)
      simp only
      by_cases hquiet : funct3 insn &&& 3 ≠ 1 ∧ rs1Of insn = 0
      · rw [if_pos hquiet]
        exact ⟨fun _ => rfl, iff_of_false hno (not_not.2 ⟨h4, hreads, .inl hquiet⟩)⟩
      · rw [if_neg hquiet]
        cases hwrite : csrWrite s (csrOf insn) (csrValue (funct3 insn) old
            (if funct3 insn &&& 4 ≠ 0 then (rs1Of insn).zeroExtend 32 else s.x (rs1Of insn))) with
        | none =>
          refine .of_raise (e := illegal insn) (fun hdef => ?_) rfl
          exact hdef.2.2.elim hquiet (csrWrite_eq_none hwrite)
        | some s' =>
          have hkept : s'.inTrap = s.inTrap := by rw [csrWrite_eq_some hwrite]
          refine ⟨fun hw => ?_, iff_of_false (hkept ▸ hno) (not_not.2 ⟨h4, hreads, .inr ?_⟩)⟩
          · show s'.minstret = s.minstret
            exact csrWrite_minstret hwrite (fun hlow => hw ⟨hop, hf3, .inl hlow, hquiet⟩)
              fun hhigh => hw ⟨hop, hf3, .inr hhigh, hquiet⟩
          · exact csrWrite_isSome hwrite

theorem execEcall_executes (next : Word) :
    Executes s h.KeepsCounter (Unhandled h s) (execEcall h s ecallInsn next).1 := by
  unfold execEcall
  cases hecall : h.ecall with
  | none =>
    refine ⟨fun _ => rvTrap_minstret _ _, iff_of_true (rvTrap_inTrap _ _) fun call hc => ?_⟩
    rw [hecall] at hc
    cases hc
  | some call =>
    have hun : Unhandled h s ↔ (call (ecallEntry s ecallInsn)).2 = false ∨
        (call (ecallEntry s ecallInsn)).1.inTrap = true := by
      refine ⟨fun hun => hun call hecall, fun hun call' hc => ?_⟩
      obtain rfl : call = call' := Option.some.inj (hecall.symm.trans hc)
      exact hun
    rw [hun]
    simp only
    cases hres : (call (ecallEntry s ecallInsn)).2 with
    | true =>
      rw [if_pos rfl]
      exact ⟨fun hkeep => hkeep call hecall _, ⟨.inr, fun ht => ht.resolve_left (by decide)⟩⟩
    | false =>
      rw [if_neg (by decide)]
      exact ⟨fun hkeep => (rvTrap_minstret _ _).trans (hkeep call hecall _),
        iff_of_true (rvTrap_inTrap _ _) (.inl rfl)⟩

theorem execSystem_executes (hs : s.inTrap = false) (hop : opcode insn = opSystem) :
    Executes s (h.KeepsCounter ∧ ¬ WritesCounter insn) (SystemFaults h s insn)
      (execSystem h s insn next).1 := by
  have hno : ¬ s.inTrap = true := by simp [hs]
  unfold execSystem SystemFaults
  by_cases hf3 : funct3 insn = 0
  · rw [if_pos hf3, if_pos hf3]
    by_cases hec : insn = ecallInsn
    · subst hec
      rw [if_pos rfl]
      have hexec := execEcall_executes (h := h) (s := s) next
      refine ⟨fun hkeep => hexec.minstret hkeep.1,
        hexec.inTrap.trans ⟨fun hun => .inl ⟨rfl, hun⟩, ?_⟩⟩
      rintro (⟨-, hun⟩ | heb | hun)
      · exact hun
      · exact absurd heb (by decide)
      · exact absurd List.mem_cons_self hun
    · rw [if_neg hec]
      by_cases heb : insn = ebreakInsn
      · rw [if_pos heb]
        exact .of_raise (e := ⟨3, 0, some (.ebreak, insn, 0, "")⟩) (.inr (.inl heb)) rfl
      · rw [if_neg heb]
        by_cases hret : insn = mretInsn ∨ insn = wfiInsn
        · have hdef : ¬ (insn = ecallInsn ∧ Unhandled h s ∨ insn = ebreakInsn ∨
              insn ∉ [ecallInsn, ebreakInsn, mretInsn, wfiInsn]) := by
            rintro (⟨hec', -⟩ | heb' | hun)
            · exact hec hec'
            · exact heb heb'
            · exact hun (by simp only [List.mem_cons]; tauto)
          split
          · exact ⟨fun _ => rfl, iff_of_false hno hdef⟩
          · rw [if_pos (hret.resolve_left (by assumption))]
            exact ⟨fun _ => rfl, iff_of_false hno hdef⟩
        · obtain ⟨hmret, hwfi⟩ := not_or.1 hret
          rw [if_neg hmret, if_neg hwfi]
          exact .of_raise (e := illegal insn) (.inr (.inr (by simp [hec, heb, hmret, hwfi]))) rfl
  · rw [if_neg hf3, if_neg hf3]
    have hexec := execCsr_executes hs hop hf3 next
    exact ⟨fun hkeep => hexec.minstret hkeep.2, hexec.inTrap⟩

theorem exec_executes (hs : s.inTrap = false) (insn next : Word) :
    Executes s (h.KeepsCounter ∧ ¬ WritesCounter insn) (ExecFaults h s insn next)
      (exec h s insn next).1 := by
  unfold exec ExecFaults
  by_cases hsys : opcode insn = opSystem
  · rw [if_pos hsys, if_pos hsys]
    exact execSystem_executes hs hsys
  · rw [if_neg hsys, if_neg hsys]
    by_cases hamo : opcode insn = opAmo
    · rw [if_pos hamo, if_pos hamo]
      exact Effect.apply_executes hs _
    · rw [if_neg hamo, if_neg hamo]
      exact Effect.apply_executes hs _

theorem Ends.minstret {s' : Cpu μ} (hends : Ends s s') : s'.minstret = s.minstret := by
  cases hends with
  | done c => rfl
  | trap c e => exact raise_minstret e

theorem pushLoop_faults (hs : s.inTrap = false) (rlist : BitVec 4) (spimm : BitVec 2) :
    (cmPush h s rlist spimm).inTrap = true ↔
      ∃ s', pushLoop h s (s.x 2 - BitVec.ofNat 32 (zcmpRegs rlist).length * 4) (zcmpRegs rlist) =
        .error s' := by
  unfold cmPush
  simp only
  cases hp : pushLoop h s (s.x 2 - BitVec.ofNat 32 (zcmpRegs rlist).length * 4)
      (zcmpRegs rlist) with
  | error s' =>
    obtain ⟨m, e, rfl⟩ := pushLoop_error hp
    exact iff_of_true (raise_inTrap e) ⟨_, rfl⟩
  | ok s' =>
    have hkept : s'.inTrap = s.inTrap := by rw [pushLoop_ok hp]
    refine iff_of_false (fun ht => ?_) fun herr => ?_
    · exact absurd ((hkept.symm.trans ht).symm.trans hs) (by decide)
    · obtain ⟨_, herr⟩ := herr
      cases herr

theorem popLoop_faults (hs : s.inTrap = false) (f5 : BitVec 5) (rlist : BitVec 4)
    (spimm : BitVec 2) (next : Word) :
    (cmPop h s f5 rlist spimm next).1.inTrap = true ↔
      ∃ s', popLoop h s (s.x 2 + zcmpStackAdj rlist spimm -
        BitVec.ofNat 32 (zcmpRegs rlist).length * 4) (zcmpRegs rlist) = .error s' := by
  unfold cmPop
  simp only
  cases hp : popLoop h s (s.x 2 + zcmpStackAdj rlist spimm -
      BitVec.ofNat 32 (zcmpRegs rlist).length * 4) (zcmpRegs rlist) with
  | error s' =>
    obtain ⟨x, e, rfl⟩ := popLoop_error hp
    exact iff_of_true (raise_inTrap e) ⟨_, rfl⟩
  | ok s' =>
    have hkept : s'.inTrap = s.inTrap := by rw [popLoop_ok hp]
    refine iff_of_false (fun ht => ?_) fun herr => ?_
    · have ht' : s'.inTrap = true := by
        simp only at ht
        split at ht <;> exact ht
      exact absurd ((hkept.symm.trans ht').symm.trans hs) (by decide)
    · obtain ⟨_, herr⟩ := herr
      cases herr

theorem execZcmp_executes (hs : s.inTrap = false) {lo : BitVec 16} {r : Cpu μ × Word}
    (hz : execZcmp h s lo next = some r) :
    Executes s kept (FrameFaults h s lo) r.1 := by
  refine ⟨fun _ => (execZcmp_ends hz).minstret, ?_⟩
  unfold execZcmp at hz
  split at hz
  · rename_i hpair
    rw [Option.map_eq_some_iff] at hz
    obtain ⟨s', hmove, rfl⟩ := hz
    refine iff_of_false (fun ht => ?_) fun hframe => hframe.1.1 hpair
    exact absurd ((execZcmpMove_inTrap hmove).symm.trans ht) (hs ▸ Bool.false_ne_true)
  · rename_i hmulti
    simp only at hz
    split_ifs at hz with hregs hpush hpop
    · cases hz
      refine (pushLoop_faults hs _ _).trans ⟨fun herr => ⟨⟨hmulti, hregs, .inl hpush⟩, ?_⟩, ?_⟩
      · rw [if_pos hpush]
        exact herr
      · rintro ⟨-, herr⟩
        rw [if_pos hpush] at herr
        exact herr
    · cases hz
      refine (popLoop_faults hs _ _ _ _).trans ⟨fun herr => ⟨⟨hmulti, hregs, .inr hpop⟩, ?_⟩, ?_⟩
      · rw [if_neg hpush]
        exact herr
      · rintro ⟨-, herr⟩
        rw [if_neg hpush] at herr
        exact herr

/-! ## Steps -/

/-- A step that ends before the instruction is executed, or behind it. -/
inductive Stops (s : Cpu μ) (kept early late : Prop) : Cpu μ → Prop
  | early {s' : Cpu μ} (hearly : early) (hlate : ¬ late) (htrap : s'.inTrap = true)
      (hcount : s'.minstret = s.minstret) : Stops s kept early late s'
  | late {r : Cpu μ × Word} (hearly : ¬ early) (hexec : Executes s kept late r.1) :
      Stops s kept early late (retire r)

section Stops

variable {early late : Prop}

theorem Stops.of_raise (hearly : early) (hlate : ¬ late) (e : Fault) :
    Stops s kept early late (raise s e) :=
  .early hearly hlate (raise_inTrap e) (raise_minstret e)

theorem Stops.congr {early' late' : Prop} {s' : Cpu μ} (hstop : Stops s kept early late s')
    (hearly : early ↔ early') (hlate : late ↔ late') : Stops s kept early' late' s' := by
  cases hstop with
  | early he hl htrap hcount => exact .early (hearly.1 he) (mt hlate.2 hl) htrap hcount
  | late he hexec =>
    exact .late (mt hearly.2 he) ⟨hexec.minstret, hexec.inTrap.trans hlate⟩

theorem Stops.inTrap {s' : Cpu μ} (hstop : Stops s kept early late s') :
    s'.inTrap = true ↔ early ∨ late := by
  cases hstop with
  | early he _ htrap _ => exact iff_of_true htrap (.inl he)
  | late he hexec => exact hexec.inTrap.trans ⟨.inr, fun h => h.resolve_left he⟩

end Stops

theorem execZcmp_defined {lo : BitVec 16} {r : Cpu μ × Word} (hz : execZcmp h s lo next = some r) :
    multiAccess lo ∨ pairMove lo := by
  unfold execZcmp at hz
  split at hz
  · rename_i hpair
    obtain ⟨s', hmove, -⟩ := Option.map_eq_some_iff.1 hz
    unfold execZcmpMove at hmove
    simp only at hmove
    split_ifs at hmove with hne h1 h3
    · exact .inr ⟨hpair, hne, .inl h1⟩
    · exact .inr ⟨hpair, hne, .inr h3⟩
  · rename_i hmulti
    simp only at hz
    split_ifs at hz with hregs hpush hpop
    · exact .inl ⟨hmulti, hregs, .inl hpush⟩
    · exact .inl ⟨hmulti, hregs, .inr hpop⟩

theorem stepCompressed_stops (hs : s.inTrap = false) (lo : BitVec 16) :
    Stops s (h.KeepsCounter ∧ ¬ WritesCounter (expand s.toCore lo)) (¬ defined16 s.toCore lo)
      (if s.zcmp && isZcmp lo then FrameFaults h s lo
      else expand s.toCore lo ≠ 0 ∧ ExecFaults h s (expand s.toCore lo) (s.pc + 2))
      (stepCompressed h s lo) := by
  unfold stepCompressed defined16
  simp only
  by_cases hz : (s.zcmp && isZcmp lo) = true
  · rw [if_pos hz, if_pos hz, if_pos hz]
    cases hexec : execZcmp h s lo (s.pc + 2) with
    | none =>
      have hno : ¬ multiAccess lo := by
        -- an encoding with a frame is one that `exec_zcmp` knows
        rintro ⟨hmulti, hregs, hf5⟩
        rw [execZcmp, if_neg hmulti] at hexec
        simp only [if_neg hregs] at hexec
        split_ifs at hexec with hpush hpop
        exact hf5.elim hpush hpop
      refine .of_raise (fun hdef => ?_) (fun hframe => hno hframe.1) _
      rcases execZcmp_of_not_multi (h := h) (s := s) hno (s.pc + 2) with
        ⟨s', hsome, -⟩ | ⟨-, hpair⟩
      · cases hexec.symm.trans hsome
      · exact hdef.elim hno hpair
    | some r =>
      have hrun : Executes s (h.KeepsCounter ∧ ¬ WritesCounter (expand s.toCore lo))
        (FrameFaults h s lo) r.1 := execZcmp_executes hs hexec
      exact .late (r := (clearX0 r.1, r.2)) (not_not.2 (execZcmp_defined hexec))
        ⟨hrun.minstret, hrun.inTrap⟩
  · rw [if_neg hz, if_neg hz, if_neg hz]
    by_cases h0 : expand s.toCore lo = 0
    · rw [if_pos h0]
      exact .of_raise (not_not.2 h0) (fun hlate => hlate.1 h0) _
    · rw [if_neg h0]
      have hrun := exec_executes (h := h) hs (expand s.toCore lo) (s.pc + 2)
      exact .late (not_not.2 h0)
        ⟨hrun.minstret, hrun.inTrap.trans ⟨fun hf => ⟨h0, hf⟩, fun hf => hf.2⟩⟩

theorem stepInsn_stops (hs : s.inTrap = false) :
    Stops s (h.KeepsCounter ∧ ¬ WritesCounter (executed h s)) (FaultsEarly h s) (FaultsLate h s)
      (stepInsn h s) := by
  unfold stepInsn
  by_cases hpc : s.pc &&& 1 = 0
  · rw [if_neg (not_not.2 hpc)]
    cases hlow : h.refuses s.mem s.pc 2 false with
    | true =>
      rw [if_pos rfl]
      exact .of_raise (.inr (.inl hlow))
        (fun hlate => absurd (hlow.symm.trans hlate.2.1) (by decide)) _
    | false =>
      rw [if_neg (by decide)]
      simp only
      by_cases hnarrow : fetchHalf h s s.pc &&& 3 ≠ 3
      · rw [executed, if_pos hnarrow, if_pos hnarrow]
        refine (stepCompressed_stops hs _).congr ?_ ?_
        · simp only [FaultsEarly, hpc, hlow, if_pos hnarrow, ne_eq, not_true_eq_false,
            Bool.false_eq_true, false_or]
        · simp only [FaultsLate, hpc, hlow, if_pos hnarrow, true_and]
      · rw [executed, if_neg hnarrow, if_neg hnarrow]
        cases hhigh : h.refuses s.mem (s.pc + 2) 2 false with
        | true =>
          rw [if_pos rfl]
          have hearly : FaultsEarly h s :=
            .inr (.inr ((if_neg hnarrow).symm ▸ hhigh))
          refine .of_raise hearly (fun hlate => ?_) _
          have hrest := hlate.2.2
          rw [if_neg hnarrow] at hrest
          exact absurd (hhigh.symm.trans hrest.1) (by decide)
        | false =>
          rw [if_neg (by decide)]
          have hearly : ¬ FaultsEarly h s := by
            simp only [FaultsEarly, hpc, hlow, hhigh, if_neg hnarrow, ne_eq,
              not_true_eq_false, Bool.false_eq_true, or_self, not_false_eq_true]
          refine (Stops.late hearly (exec_executes hs _ _)).congr Iff.rfl ?_
          simp only [FaultsLate, hpc, hlow, hhigh, if_neg hnarrow, true_and]
  · rw [if_pos hpc]
    exact .of_raise (.inl hpc) (fun hlate => hpc hlate.1) _

/-- A step counts its instruction exactly if it completes, unless the instruction was fetched and
expanded and took its exception after that. -/
theorem countsRetired_iff (hcall : h.KeepsCounter) (hw : ¬ WritesCounter (executed h s)) :
    CountsRetired h s ↔
      ¬ (s.halted = false ∧ ¬ interrupted s ∧ FaultsLate h s.fresh) := by
  cases hrun : s.halted with
  | true =>
    have hkept : (rvStep h s).1 = s := rvStep_halted hrun
    refine iff_of_true ⟨fun hret => ?_, fun _ => by rw [hkept]⟩ fun hlate => ?_
    · exact absurd (hrun.symm.trans hret.1) (by decide)
    · exact absurd hlate.1 (by decide)
  | false =>
    by_cases hirq : interrupted s
    · have hstep := rvStep_interrupt (h := h) hrun hirq
      refine iff_of_true ⟨fun hret => ?_, fun _ => ?_⟩ fun hlate => hlate.2.1 hirq
      · have htrap := hret.2
        rw [hstep, rvTrap_inTrap] at htrap
        cases htrap
      · rw [hstep]
        exact rvTrap_minstret _ _
    · have hstop := stepInsn_stops (h := h) (s := s.fresh) rfl
      rw [← rvStep_insn hrun hirq] at hstop
      simp only [hirq, not_false_eq_true, true_and]
      rw [CountsRetired, Retires]
      simp only [hrun, true_and, Bool.not_eq_false]
      generalize (rvStep h s).1 = s' at hstop ⊢
      have hne (n : BitVec 64) : n + 1 ≠ n := by
        intro heq
        exact absurd (BitVec.add_right_eq_self.1 heq) (by decide)
      cases hstop with
      | early _ hlate htrap hcount =>
        refine iff_of_true ⟨fun hno => ?_, fun _ => hcount⟩ hlate
        exact absurd (htrap.symm.trans hno) (by decide)
      | @late r _ hexec =>
        have hcount : (retire r).minstret = s.minstret + 1 := by
          rw [retire, hexec.minstret ⟨hcall, hw⟩]
          rfl
        have htrap : (retire r).inTrap = true ↔ FaultsLate h s.fresh := hexec.inTrap
        rw [hcount]
        refine ⟨fun hprop hlate => hne _ (hprop.2 (htrap.2 hlate)), fun hlate => ?_⟩
        exact ⟨fun _ => rfl, fun ht => absurd (htrap.1 ht) hlate⟩

/-- A host with `ebreak` at 0. -/
def ebreakHost : Host Unit where
  read8 := fun _ _ => 0
  read16 := fun _ addr => if addr = 0 then 0x0073 else 0x0010
  read32 := fun _ _ => 0
  write8 := fun _ _ _ => ()
  write16 := fun _ _ _ => ()
  write32 := fun _ _ _ => ()
  fp := trivialDoubles

theorem countsRetired_iff_ebreak :
    CountsRetired ebreakHost (rvReset (rvInit ()) 0) ↔
      ¬ ((rvReset (rvInit ()) 0).halted = false ∧ ¬ interrupted (rvReset (rvInit ()) 0) ∧
        FaultsLate ebreakHost (rvReset (rvInit ()) 0).fresh) :=
  countsRetired_iff (fun call hc => by cases hc) fun hw => hw.2.1 (by decide)

/-- The exception of `ebreak` is taken in `exec`, and the step counts the instruction. -/
theorem ebreak_counted :
    (rvStep ebreakHost (rvReset (rvInit ()) 0)).1.inTrap = true ∧
      (rvStep ebreakHost (rvReset (rvInit ()) 0)).1.minstret = 1 ∧
      ¬ CountsRetired ebreakHost (rvReset (rvInit ()) 0) := by
  have hstep : (rvStep ebreakHost (rvReset (rvInit ()) 0)).1.inTrap = true ∧
      (rvStep ebreakHost (rvReset (rvInit ()) 0)).1.minstret = 1 := by decide
  refine ⟨hstep.1, hstep.2, fun hprop => ?_⟩
  have hkept := hprop.2 fun hret => absurd (hstep.1.symm.trans hret.2) (by decide)
  exact absurd (hstep.2.symm.trans hkept) (by decide)

end MechanicalResearcher.Rv32
