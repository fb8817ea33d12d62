import MechanicalResearcher.Rv32.Exec

/-!
# Faults of atomics

An AMO is made of the helpers for loads and stores, which name the cause of a fault themselves, and
its operation is decoded between the two accesses.
-/

namespace MechanicalResearcher.Rv32

variable {μ : Type} {h : Host μ} {c : Core μ} {reservation : Option Word} {insn next : Word}

/-- A call of one of the callbacks that read and write. -/
inductive BusCall
  | read (addr : Word) (size : Nat)
  | write (addr : Word) (size : Nat) (val : Word)
  deriving DecidableEq, Repr

/-- What `mem_read` reads; the word of an atomic is one call. -/
def memReadCalls (b : Bus μ) (c : Core μ) (addr : Word) (size : Nat) : List BusCall :=
  if c.trapMisaligned && misaligned addr size then []
  else if b.refuses c.mem addr size false then []
  else [.read addr size]

def memWriteCalls (b : Bus μ) (c : Core μ) (addr : Word) (size : Nat) (val : Word) :
    List BusCall :=
  if c.trapMisaligned && misaligned addr size then []
  else if b.refuses c.mem addr size true then []
  else [.write addr size val]

/-- The accesses of `execAmo`. -/
def amoCalls (h : Host μ) (c : Core μ) (reservation : Option Word) (insn : Word) : List BusCall :=
  let addr := c.x (rs1Of insn)
  let b := c.x (rs2Of insn)
  let f5 := funct5 insn
  if c.atomics = false ∨ funct3 insn ≠ 2 then []
  else if addr &&& 3 ≠ 0 then []
  else if f5 = 0x02 then (if rs2Of insn ≠ 0 then [] else memReadCalls h.toBus c addr 4)
  else if f5 = 0x03 then
    (if reservation = some addr then memWriteCalls h.toBus c addr 4 b else [])
  else
    memReadCalls h.toBus c addr 4 ++
      match memRead h.toBus c addr 4 with
      | .error _ => []
      | .ok old =>
        match amoValue f5 old b with
        | none => []
        | some v => memWriteCalls h.toBus c addr 4 v

/-- Two buses do the same in a call. -/
def SameCall (b b' : Bus μ) (m : μ) : BusCall → Prop
  | .read addr size => b'.readValue m addr size = b.readValue m addr size
  | .write addr size val => b'.writeValue m addr size val = b.writeValue m addr size val

section Calls

variable {b b' : Bus μ} (hprobe : b'.probe = b.probe)

include hprobe

theorem memRead_sameCall {addr : Word} {size : Nat}
    (hcalls : ∀ call ∈ memReadCalls b c addr size, SameCall b b' c.mem call) :
    memRead b' c addr size = memRead b c addr size := by
  have hrefuses : b'.refuses = b.refuses := by
    unfold Bus.refuses
    rw [hprobe]
  unfold memRead memReadCalls at *
  rw [hrefuses]
  split_ifs at hcalls ⊢
  · rfl
  · rfl
  · exact congrArg Except.ok (hcalls _ (.head _))

theorem memWrite_sameCall {addr val : Word} {size : Nat}
    (hcalls : ∀ call ∈ memWriteCalls b c addr size val, SameCall b b' c.mem call) :
    memWrite b' c addr size val = memWrite b c addr size val := by
  have hrefuses : b'.refuses = b.refuses := by
    unfold Bus.refuses
    rw [hprobe]
  unfold memWrite memWriteCalls at *
  rw [hrefuses]
  split_ifs at hcalls ⊢
  · rfl
  · rfl
  · exact congrArg Except.ok (hcalls _ (.head _))

end Calls

theorem execAmo_sameCall {h' : Host μ} (hprobe : h'.probe = h.probe)
    (hcalls : ∀ call ∈ amoCalls h c reservation insn, SameCall h.toBus h'.toBus c.mem call) :
    execAmo h' c reservation insn next = execAmo h c reservation insn next := by
  unfold amoCalls at hcalls
  unfold execAmo
  dsimp only at hcalls ⊢
  split_ifs at hcalls ⊢ with hon ha hlr hrs hsc hres
  · rfl
  · rfl
  · rfl
  · rw [memRead_sameCall hprobe hcalls]
  · rw [memWrite_sameCall hprobe hcalls]
  · rfl
  · rw [List.forall_mem_append] at hcalls
    rw [memRead_sameCall hprobe hcalls.1]
    have hwrite := hcalls.2
    cases hread : memRead h.toBus c (c.x (rs1Of insn)) 4 with
    | error e => rfl
    | ok old =>
      rw [hread] at hwrite
      simp only [reading]
      cases hval : amoValue (funct5 insn) old (c.x (rs2Of insn)) with
      | none => rfl
      | some v =>
        simp only [hval] at hwrite
        simp only [memWrite_sameCall hprobe hwrite]

/-- `sc.w` and the nine read-modify-write operations. -/
def AmoOp (f5 : BitVec 5) : Prop :=
  f5 ∈ [0x03, 0x00, 0x01, 0x04, 0x08, 0x0c, 0x10, 0x14, 0x18, (0x1c : BitVec 5)]

instance (f5 : BitVec 5) : Decidable (AmoOp f5) := inferInstanceAs (Decidable (_ ∈ _))

/-- A fault of an operation is one of a store, and an encoding without an operation is illegal
before anything is read or written. -/
def AmoFaultsRight (h : Host μ) (c : Core μ) (reservation : Option Word) (insn next : Word) :
    Prop :=
  (AmoOp (funct5 insn) → ∀ e n clear, execAmo h c reservation insn next = .trap e n clear →
    e.cause = 6 ∨ e.cause = 7 ∨ e = illegal insn ∧ (c.atomics = false ∨ funct3 insn ≠ 2)) ∧
  (¬ AmoOp (funct5 insn) →
    execAmo h c reservation insn next = reject insn next ∧ amoCalls h c reservation insn = [])

theorem amoValue_isSome {f5 : BitVec 5} (hop : AmoOp f5) (hsc : f5 ≠ 0x03) (old b : Word) :
    ∃ v, amoValue f5 old b = some v := by
  unfold AmoOp at hop
  simp only [List.mem_cons, List.not_mem_nil, or_false, hsc, false_or] at hop
  rcases hop with rfl | rfl | rfl | rfl | rfl | rfl | rfl | rfl | rfl <;> exact ⟨_, rfl⟩

theorem amoValue_eq_none {f5 : BitVec 5} (hop : ¬ AmoOp f5) (old b : Word) :
    amoValue f5 old b = none := by
  unfold AmoOp at hop
  simp only [List.mem_cons, List.not_mem_nil, or_false, not_or] at hop
  simp only [amoValue, hop, if_false]

theorem aligned_word {addr : Word} (ha : addr &&& 3 = 0) : misaligned addr 4 = false := by
  rw [misaligned]
  exact decide_eq_false (not_not.2 ha)

theorem memRead_aligned (hal : misaligned (c.x (rs1Of insn)) 4 = false) :
    memRead h.toBus c (c.x (rs1Of insn)) 4 =
      if h.refuses c.mem (c.x (rs1Of insn)) 4 false then .error (loadFault (c.x (rs1Of insn)))
      else .ok (h.readValue c.mem (c.x (rs1Of insn)) 4) := by
  rw [memRead, hal, Bool.and_false]
  rfl

theorem memWrite_error_aligned {addr v : Word} {e : Fault} (hal : misaligned addr 4 = false)
    (herr : memWrite h.toBus c addr 4 v = .error e) : e.cause = 7 := by
  rw [memWrite, hal, Bool.and_false, if_neg (by decide)] at herr
  split at herr
  · cases herr
    rfl
  · cases herr

section Cases

variable (hon : ¬ (c.atomics = false ∨ funct3 insn ≠ 2))

theorem execAmo_off (hoff : c.atomics = false ∨ funct3 insn ≠ 2) :
    execAmo h c reservation insn next = reject insn next ∧
      amoCalls h c reservation insn = [] :=
  ⟨if_pos hoff, if_pos hoff⟩

include hon

theorem execAmo_unaligned (hlr : funct5 insn ≠ 0x02) (ha : c.x (rs1Of insn) &&& 3 ≠ 0) :
    ∃ event, execAmo h c reservation insn next =
      .trap ⟨6, c.x (rs1Of insn), event⟩ next false := by
  refine ⟨some (.storeMisalign, insn, c.x (rs1Of insn), "unaligned atomic"), ?_⟩
  unfold execAmo
  simp only
  rw [if_neg hon, if_pos ha, unalignedAtomic, if_neg hlr]

theorem execAmo_sc_trap (hsc : funct5 insn = 0x03) (ha : c.x (rs1Of insn) &&& 3 = 0) {e : Fault}
    {n : Word} {clear : Bool} (htrap : execAmo h c reservation insn next = .trap e n clear) :
    e.cause = 7 := by
  have hlr : ¬ (0x03 : BitVec 5) = 0x02 := by decide
  unfold execAmo at htrap
  simp only at htrap
  rw [if_neg hon, if_neg (not_not.2 ha), hsc, if_neg hlr, if_pos rfl] at htrap
  split at htrap
  · split at htrap
    · rename_i e' herr
      cases htrap
      exact memWrite_error_aligned (aligned_word ha) herr
    · cases htrap
  · cases htrap

variable (hlr : funct5 insn ≠ 0x02) (hsc : funct5 insn ≠ 0x03)
  (ha : c.x (rs1Of insn) &&& 3 = 0)

include hlr hsc ha

theorem execAmo_refused (hbad : h.refuses c.mem (c.x (rs1Of insn)) 4 false = true) :
    execAmo h c reservation insn next = .trap (loadFault (c.x (rs1Of insn))) next false := by
  unfold execAmo
  simp only
  rw [if_neg hon, if_neg (not_not.2 ha), if_neg hlr, if_neg hsc, memRead_aligned (aligned_word ha),
    if_pos hbad, reading]

theorem execAmo_undefined (hok : h.refuses c.mem (c.x (rs1Of insn)) 4 false = false)
    (hop : ¬ AmoOp (funct5 insn)) :
    execAmo h c reservation insn next = reject insn next ∧
      amoCalls h c reservation insn = [.read (c.x (rs1Of insn)) 4] := by
  have hread := memRead_aligned (h := h) (aligned_word ha)
  rw [hok, if_neg (by decide)] at hread
  constructor
  · unfold execAmo
    simp only
    rw [if_neg hon, if_neg (not_not.2 ha), if_neg hlr, if_neg hsc, hread, reading]
    simp only [amoValue_eq_none hop]
  · unfold amoCalls
    simp only
    rw [if_neg hon, if_neg (not_not.2 ha), if_neg hlr, if_neg hsc, hread]
    simp only [amoValue_eq_none hop, List.append_nil]
    rw [memReadCalls, aligned_word ha, hok, Bool.and_false]
    rfl

theorem execAmo_op (hok : h.refuses c.mem (c.x (rs1Of insn)) 4 false = false)
    (hop : AmoOp (funct5 insn)) {e : Fault} {n : Word} {clear : Bool}
    (htrap : execAmo h c reservation insn next = .trap e n clear) : e.cause = 7 := by
  have hread := memRead_aligned (h := h) (aligned_word ha)
  rw [hok, if_neg (by decide)] at hread
  unfold execAmo at htrap
  simp only at htrap
  rw [if_neg hon, if_neg (not_not.2 ha), if_neg hlr, if_neg hsc, hread, reading] at htrap
  obtain ⟨v, hv⟩ := amoValue_isSome hop hsc (h.readValue c.mem (c.x (rs1Of insn)) 4)
    (c.x (rs2Of insn))
  simp only [hv] at htrap
  split at htrap
  · rename_i e' herr
    cases htrap
    exact memWrite_error_aligned (aligned_word ha) herr
  · cases htrap

end Cases

/-- The faults of an atomic other than `lr.w` have the right cause exactly if it is rejected at
once, or is an operation whose address is not aligned or whose load the probe allows. -/
theorem amoFaultsRight_iff (hlr : funct5 insn ≠ 0x02) :
    AmoFaultsRight h c reservation insn next ↔
      (c.atomics = false ∨ funct3 insn ≠ 2) ∨
        AmoOp (funct5 insn) ∧ (c.x (rs1Of insn) &&& 3 ≠ 0 ∨ funct5 insn = 0x03 ∨
          h.refuses c.mem (c.x (rs1Of insn)) 4 false = false) := by
  by_cases hon : c.atomics = false ∨ funct3 insn ≠ 2
  · obtain ⟨hexec, hcalls⟩ := @execAmo_off μ h c reservation insn next hon
    refine iff_of_true ⟨fun _ e n clear htrap => ?_, fun _ => ⟨hexec, hcalls⟩⟩ (.inl hon)
    rw [hexec] at htrap
    cases htrap
    exact .inr (.inr ⟨rfl, hon⟩)
  rw [or_iff_right hon]
  by_cases ha : c.x (rs1Of insn) &&& 3 = 0
  · by_cases hsc : funct5 insn = 0x03
    · have hop : AmoOp (funct5 insn) := by
        rw [hsc]
        decide
      refine iff_of_true ⟨fun _ e n clear htrap => ?_, fun hno => absurd hop hno⟩
        ⟨hop, .inr (.inl hsc)⟩
      exact .inr (.inl (execAmo_sc_trap hon hsc ha htrap))
    cases hok : h.refuses c.mem (c.x (rs1Of insn)) 4 false with
    | true =>
      have hexec := @execAmo_refused μ h c reservation insn next hon hlr hsc ha hok
      refine iff_of_false (fun hprop => ?_) fun hcond => ?_
      · by_cases hop : AmoOp (funct5 insn)
        · rcases hprop.1 hop _ _ _ hexec with hcause | hcause | ⟨hcause, -⟩
          · exact absurd hcause (show (5 : Word) ≠ 6 by decide)
          · exact absurd hcause (show (5 : Word) ≠ 7 by decide)
          · exact absurd (congrArg Fault.cause hcause) (show (5 : Word) ≠ 2 by decide)
        · have hrej := hexec.symm.trans (hprop.2 hop).1
          injection hrej with hcause
          exact absurd (congrArg Fault.cause hcause) (show (5 : Word) ≠ 2 by decide)
      · rcases hcond.2 with hbad | hbad | hbad
        · exact hbad ha
        · exact hsc hbad
        · cases hbad
    | false =>
      by_cases hop : AmoOp (funct5 insn)
      · refine iff_of_true ⟨fun _ e n clear htrap => ?_, fun hno => absurd hop hno⟩
          ⟨hop, .inr (.inr rfl)⟩
        exact .inr (.inl (execAmo_op hon hlr hsc ha hok hop htrap))
      · obtain ⟨-, hcalls⟩ := @execAmo_undefined μ h c reservation insn next hon hlr hsc ha hok hop
        refine iff_of_false (fun hprop => ?_) fun hcond => hop hcond.1
        have hnil := hcalls.symm.trans (hprop.2 hop).2
        cases hnil
  · obtain ⟨event, hexec⟩ := @execAmo_unaligned μ h c reservation insn next hon hlr ha
    by_cases hop : AmoOp (funct5 insn)
    · refine iff_of_true ⟨fun _ e n clear htrap => ?_, fun hno => absurd hop hno⟩ ⟨hop, .inl ha⟩
      rw [hexec] at htrap
      cases htrap
      exact .inl rfl
    · refine iff_of_false (fun hprop => ?_) fun hcond => hop hcond.1
      have hrej := hexec.symm.trans (hprop.2 hop).1
      injection hrej with hcause
      exact absurd (congrArg Fault.cause hcause) (show (6 : Word) ≠ 2 by decide)

/-- A host whose probe allows no access of four bytes. -/
def closedHost : Host Unit where
  read8 := fun _ _ => 0
  read16 := fun _ _ => 0
  read32 := fun _ _ => 0
  write8 := fun _ _ _ => ()
  write16 := fun _ _ _ => ()
  write32 := fun _ _ _ => ()
  probe := some fun _ _ size _ => size == 4
  fp := trivialDoubles

/-- `amoadd.w x0, x0, (x0)` -/
def amoaddInsn : Word := 0x0000202f

/-- The encoding of an atomic with `funct5` 0x1f. -/
def amoUndefined : Word := 0xf800202f

theorem amoFaultsRight_iff_amoadd :
    AmoFaultsRight closedHost (rvReset (rvInit ()) 0).toCore none amoaddInsn 4 ↔
      ((rvReset (rvInit ()) 0).atomics = false ∨ funct3 amoaddInsn ≠ 2) ∨
        AmoOp (funct5 amoaddInsn) ∧ ((0 : Word) &&& 3 ≠ 0 ∨ funct5 amoaddInsn = 0x03 ∨
          closedHost.refuses () 0 4 false = false) :=
  amoFaultsRight_iff (by decide)

/-- The refused load of `amoadd.w` is reported as one, and so is that of an encoding that is no
atomic, whose word is read when the probe allows it. -/
theorem amo_load_fault :
    execAmo closedHost (rvReset (rvInit ()) 0).toCore none amoaddInsn 4 =
        .trap (loadFault 0) 4 false ∧
      execAmo closedHost (rvReset (rvInit ()) 0).toCore none amoUndefined 4 =
        .trap (loadFault 0) 4 false ∧
      amoCalls { closedHost with probe := none } (rvReset (rvInit ()) 0).toCore none amoUndefined =
        [.read 0 4] ∧
      ¬ AmoFaultsRight closedHost (rvReset (rvInit ()) 0).toCore none amoaddInsn 4 := by
  refine ⟨rfl, rfl, rfl, fun hprop => ?_⟩
  rcases hprop.1 (by decide) (loadFault 0) 4 false rfl with hcause | hcause | ⟨hcause, -⟩
  · exact absurd hcause (by decide)
  · exact absurd hcause (by decide)
  · exact absurd (congrArg Fault.cause hcause) (by decide)

end MechanicalResearcher.Rv32
