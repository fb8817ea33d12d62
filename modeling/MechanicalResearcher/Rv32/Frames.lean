import MechanicalResearcher.Rv32.Steps

/-!
# Returns with a frame

`cm.popret` and `cm.popretz` are to do what `cm.pop` and `c.jr ra` do one after the other.  Both
take the return address from the frame; `c.jr` clears its bit 0, and the fused forms do not.
-/

namespace MechanicalResearcher.Rv32

variable {μ : Type} {h : Host μ} {s s' : Cpu μ} {addr : Word} {regs : List Reg}

theorem memRead_congr {b : Bus μ} {c c' : Core μ} (hmem : c.mem = c'.mem)
    (htrap : c.trapMisaligned = c'.trapMisaligned) (addr : Word) (size : Nat) :
    memRead b c addr size = memRead b c' addr size := by
  unfold memRead
  rw [hmem, htrap]

/-- The loads of a frame of `n` words from `addr` on do not fault. -/
def FrameReadable (h : Host μ) (c : Core μ) (addr : Word) (n : Nat) : Prop :=
  ∀ i < n, ∃ v, memRead h.toBus c (addr + BitVec.ofNat 32 (4 * i)) 4 = .ok v

theorem popLoop_readable (hread : FrameReadable h s.toCore addr regs.length) :
    ∃ s', popLoop h s addr regs = .ok s' := by
  induction regs generalizing s addr with
  | nil => exact ⟨s, rfl⟩
  | cons r regs ih =>
    obtain ⟨v, hv⟩ := hread 0 (Nat.succ_pos _)
    rw [Nat.mul_zero, BitVec.add_zero] at hv
    rw [popLoop, hv]
    refine ih fun i hi => ?_
    obtain ⟨w, hw⟩ := hread (i + 1) (Nat.succ_lt_succ hi)
    refine ⟨w, Eq.trans ?_ hw⟩
    have haddr : addr + 4 + BitVec.ofNat 32 (4 * i) = addr + BitVec.ofNat 32 (4 * (i + 1)) := by
      rw [Nat.mul_succ, Nat.add_comm (4 * i), BitVec.ofNat_add, ← BitVec.add_assoc]
      rfl
    rw [haddr]
    exact memRead_congr rfl rfl _ _

theorem popLoop_skip (hpop : popLoop h s addr regs = .ok s') {r : Reg} (hr : r ∉ regs) :
    s'.x r = s.x r := by
  induction regs generalizing s addr with
  | nil =>
    cases hpop
    rfl
  | cons r' regs ih =>
    rw [popLoop] at hpop
    split at hpop
    · cases hpop
    · rw [ih hpop (List.not_mem_of_not_mem_cons hr)]
      exact Function.update_of_ne (List.ne_of_not_mem_cons hr) _ _

theorem popLoop_head {r : Reg} (hpop : popLoop h s addr (r :: regs) = .ok s') (hr : r ∉ regs) :
    s'.x r = h.readValue s.mem addr 4 := by
  rw [popLoop] at hpop
  split at hpop
  · cases hpop
  · rename_i v hv
    rw [popLoop_skip hpop hr]
    unfold memRead at hv
    split_ifs at hv
    cases hv
    exact Function.update_self _ _ _

/-- `cm.pop` with the fields of `lo`. -/
def cmPopOf (lo : BitVec 16) : BitVec 16 := lo &&& 0xe0ff ||| 0x1a00

/-- `c.jr ra` -/
def cJrRa : BitVec 16 := 0x8082

/-- `cm.popretz` -/
def clearsA0 (lo : BitVec 16) : Prop := zcmpFunct5 lo = 0x1c

instance (lo : BitVec 16) : Decidable (clearsA0 lo) := inferInstanceAs (Decidable (_ = _))

/-- The sequence that `cm.popret` or `cm.popretz` stands for. -/
def returnSequence (h : Host μ) (s : Cpu μ) (lo : BitVec 16) : Cpu μ :=
  let s1 := stepCompressed h s (cmPopOf lo)
  let s2 := if clearsA0 lo then s1.setX 10 0 else s1
  stepCompressed h s2 cJrRa

/-- Where the frame of `lo` starts. -/
def frameStart (c : Core μ) (lo : BitVec 16) : Word :=
  c.x 2 + zcmpStackAdj (zcmpRlist lo) (zcmpSpimm lo) -
    BitVec.ofNat 32 (zcmpRegs (zcmpRlist lo)).length * 4

theorem zcmpRegs_eq {rlist : BitVec 4} (hr : ¬ rlist < 4) :
    ∃ regs, zcmpRegs rlist = 1 :: regs ∧ 1 ∉ regs ∧ 2 ∉ regs := by
  refine ⟨_, if_neg hr, ?_, ?_⟩
  · exact fun hmem => absurd (List.mem_of_mem_take hmem) (by decide)
  · exact fun hmem => absurd (List.mem_of_mem_take hmem) (by decide)

section Fields

variable (lo : BitVec 16)

theorem cmPopOf_rlist : zcmpRlist (cmPopOf lo) = zcmpRlist lo := by
  rw [zcmpRlist, cmPopOf, BitVec.extractLsb'_or, BitVec.extractLsb'_and]
  exact (BitVec.or_zero).trans (BitVec.and_allOnes)

theorem cmPopOf_spimm : zcmpSpimm (cmPopOf lo) = zcmpSpimm lo := by
  rw [zcmpSpimm, cmPopOf, BitVec.extractLsb'_or, BitVec.extractLsb'_and]
  exact (BitVec.or_zero).trans (BitVec.and_allOnes)

theorem cmPopOf_funct5 : zcmpFunct5 (cmPopOf lo) = 0x1a := by
  rw [zcmpFunct5, cmPopOf, BitVec.extractLsb'_or, BitVec.extractLsb'_and]
  have hmask : (0xe0ff : BitVec 16).extractLsb' 8 5 = 0#5 := by decide
  rw [hmask, BitVec.and_zero, BitVec.zero_or]
  decide

theorem cmPopOf_multi : (cmPopOf lo).extractLsb' 10 3 = (6 : BitVec 3) := by
  rw [cmPopOf, BitVec.extractLsb'_or, BitVec.extractLsb'_and]
  have hmask : (0xe0ff : BitVec 16).extractLsb' 10 3 = 0#3 := by decide
  rw [hmask, BitVec.and_zero, BitVec.zero_or]
  decide

theorem cmPopOf_isZcmp (hlo : isZcmp lo = true) : isZcmp (cmPopOf lo) = true := by
  rw [isZcmp, Bool.and_eq_true] at hlo
  have hcode : cmPopOf lo &&& 0xe003 = 0xa002 := by
    rw [cmPopOf, BitVec.and_or_distrib_right, BitVec.and_assoc]
    exact (BitVec.or_zero).trans (of_decide_eq_true hlo.1)
  have hhigh : (cmPopOf lo).extractLsb' 11 2 = (3 : BitVec 2) := by
    rw [cmPopOf, BitVec.extractLsb'_or, BitVec.extractLsb'_and]
    have hmask : (0xe0ff : BitVec 16).extractLsb' 11 2 = 0#2 := by decide
    rw [hmask, BitVec.and_zero, BitVec.zero_or]
    decide
  rw [isZcmp, hcode, hhigh]
  simp

end Fields

/-- The loads of the frame of `lo`, and the registers after them. -/
structure Popped (h : Host μ) (s : Cpu μ) (lo : BitVec 16) (s' : Cpu μ) : Prop where
  loop : popLoop h s (frameStart s.toCore lo) (zcmpRegs (zcmpRlist lo)) = .ok s'
  rest : s' = { s with x := s'.x }
  ra : s'.x 1 = h.readValue s.mem (frameStart s.toCore lo) 4
  sp : s'.x 2 = s.x 2

theorem frame_popped {lo : BitVec 16} (hr : ¬ zcmpRlist lo < 4)
    (hread : FrameReadable h s.toCore (frameStart s.toCore lo) (zcmpRegs (zcmpRlist lo)).length) :
    ∃ s', Popped h s lo s' := by
  obtain ⟨s', hloop⟩ := popLoop_readable hread
  obtain ⟨regs, hregs, h1, h2⟩ := zcmpRegs_eq hr
  refine ⟨s', hloop, popLoop_ok hloop, ?_, ?_⟩
  · rw [hregs] at hloop
    exact popLoop_head hloop h1
  · refine popLoop_skip hloop ?_
    rw [hregs, List.mem_cons, not_or]
    exact ⟨by decide, h2⟩

/-- The registers when the frame is given up. -/
def popX (s s' : Cpu μ) (lo : BitVec 16) : Reg → Word :=
  Function.update s'.x 2 (s.x 2 + zcmpStackAdj (zcmpRlist lo) (zcmpSpimm lo))

theorem cmPop_popped {lo : BitVec 16} (hp : Popped h s lo s') (f5 : BitVec 5) (next : Word) :
    cmPop h s f5 (zcmpRlist lo) (zcmpSpimm lo) next =
      ({ s with x := if f5 = 0x1c then Function.update (popX s s' lo) 10 0 else popX s s' lo },
        if f5 ≠ 0x1a then h.readValue s.mem (frameStart s.toCore lo) 4 else next) := by
  have hloop := hp.loop
  have hx : popX s s' lo 1 = h.readValue s.mem (frameStart s.toCore lo) 4 :=
    (Function.update_of_ne (by decide) _ _).trans hp.ra
  have hset : s'.setX 2 (s'.x 2 + zcmpStackAdj (zcmpRlist lo) (zcmpSpimm lo)) =
      { s with x := popX s s' lo } := by
    rw [hp.sp]
    conv_lhs => rw [hp.rest]
    rfl
  unfold frameStart at hloop
  unfold cmPop
  simp only [hloop, hset]
  by_cases hz : f5 = 0x1c
  · rw [if_pos hz, if_pos hz]
    have hne : f5 ≠ 0x1a := by
      rw [hz]
      decide
    rw [if_pos hne, if_pos hne, ← hx]
    refine Prod.ext rfl ?_
    show Function.update (popX s s' lo) 10 0 1 = popX s s' lo 1
    exact Function.update_of_ne (by decide) _ _
  · rw [if_neg hz, if_neg hz, ← hx]

/-- The registers and the memory behind a pop that goes on at `pc`. -/
def frameLeft (s s' : Cpu μ) (lo : BitVec 16) (pc : Word) : Core μ :=
  { s.toCore with
    x := Function.update
      (if clearsA0 lo then Function.update (popX s s' lo) 10 0 else popX s s' lo) 0 0
    pc := pc }

theorem stepCompressed_pop {lo : BitVec 16} (hs : s.inTrap = false) (hzcmp : s.zcmp = true)
    (hlo : isZcmp lo = true) (hmulti : lo.extractLsb' 10 3 ≠ (3 : BitVec 3))
    (hr : ¬ zcmpRlist lo < 4)
    (hpop : zcmpFunct5 lo = 0x1a ∨ zcmpFunct5 lo = 0x1c ∨ zcmpFunct5 lo = 0x1e)
    (hp : Popped h s lo s') :
    (stepCompressed h s lo).toCore =
        frameLeft s s' lo (if zcmpFunct5 lo ≠ 0x1a then
          h.readValue s.mem (frameStart s.toCore lo) 4 else s.pc + 2) ∧
      (stepCompressed h s lo).inTrap = false := by
  have hregs : zcmpRegs (zcmpRlist lo) ≠ [] := by
    obtain ⟨regs, hregs, -⟩ := zcmpRegs_eq hr
    rw [hregs]
    exact List.cons_ne_nil _ _
  have hpush : zcmpFunct5 lo ≠ 0x18 := by
    rintro heq
    rw [heq] at hpop
    revert hpop
    decide
  have hexec : execZcmp h s lo (s.pc + 2) =
      some (cmPop h s (zcmpFunct5 lo) (zcmpRlist lo) (zcmpSpimm lo) (s.pc + 2)) := by
    rw [execZcmp, if_neg hmulti]
    simp only
    rw [if_neg hregs, if_neg hpush, if_pos hpop]
  have hcond : (s.zcmp && isZcmp lo) = true := by
    rw [hzcmp, hlo]
    rfl
  rw [stepCompressed, if_pos hcond, hexec, cmPop_popped hp]
  refine ⟨?_, hs⟩
  simp only [retire, clearX0, Cpu.setX, hs]
  rfl

theorem stepCompressed_jr (hs : s.inTrap = false) :
    (stepCompressed h s cJrRa).toCore =
      { s.toCore with x := Function.update (Function.update s.x 0 (s.pc + 2)) 0 0
                      pc := s.x 1 &&& ~~~1 } := by
  have hz : isZcmp cJrRa = false := by decide
  have hexpand : expand s.toCore cJrRa = 0x00008067 := by
    have hinsn : rvExpandC cJrRa = 0x00008067 := by decide
    rw [expand]
    simp only [hinsn]
    exact if_neg fun h => absurd h.1 (by decide)
  rw [stepCompressed]
  simp only [hz, hexpand, Bool.and_false]
  rw [if_neg (by decide), if_neg (by decide)]
  have hexec : exec h s 0x00008067 (s.pc + 2) =
      (clearX0 (s.setX 0 (s.pc + 2)), s.x 1 &&& ~~~1) := by
    have hcore : execCore h s.toCore 0x00008067 (s.pc + 2) =
        putX 0 (s.pc + 2) ((s.x 1 + 0#32) &&& ~~~1) := rfl
    rw [exec, if_neg (by decide), if_neg (by decide), hcore, BitVec.add_zero, putX_apply]
  rw [hexec, retire]
  simp only [clearX0, Cpu.setX, hs]
  rfl

/-- The fused return gives what its sequence gives, and goes on at `ra` without its bit 0. -/
def ReturnsAsSequence (h : Host μ) (s : Cpu μ) (lo : BitVec 16) : Prop :=
  (stepCompressed h s lo).toCore = (returnSequence h s lo).toCore ∧
    (stepCompressed h s lo).pc = h.readValue s.mem (frameStart s.toCore lo) 4 &&& ~~~1

theorem isZcmp_multi {lo : BitVec 16} (hret : zcmpFunct5 lo = 0x1c ∨ zcmpFunct5 lo = 0x1e) :
    lo.extractLsb' 10 3 ≠ (3 : BitVec 3) := by
  have hsub : lo.extractLsb' 10 3 = (zcmpFunct5 lo).extractLsb' 2 3 := by
    ext i hi
    have hi' : 2 + i < 5 := by omega
    simp [zcmpFunct5, hi', ← Nat.add_assoc]
  rw [hsub]
  rcases hret with hret | hret
  · rw [hret]
    decide
  · rw [hret]
    decide

section Sequence

variable {lo : BitVec 16} (hs : s.inTrap = false) (hzcmp : s.zcmp = true)
  (hlo : isZcmp lo = true) (hr : ¬ zcmpRlist lo < 4) (hp : Popped h s lo s')

include hs hzcmp hlo hr hp

theorem fusedReturn_toCore (hret : zcmpFunct5 lo = 0x1c ∨ zcmpFunct5 lo = 0x1e) :
    (stepCompressed h s lo).toCore =
      frameLeft s s' lo (h.readValue s.mem (frameStart s.toCore lo) 4) := by
  have hne : zcmpFunct5 lo ≠ 0x1a := by
    rintro heq
    rw [heq] at hret
    revert hret
    decide
  have hstep := (stepCompressed_pop hs hzcmp hlo (isZcmp_multi hret) hr (.inr hret) hp).1
  rwa [if_pos hne] at hstep

theorem returnSequence_toCore :
    (returnSequence h s lo).toCore =
      frameLeft s s' lo (h.readValue s.mem (frameStart s.toCore lo) 4 &&& ~~~1) := by
  have hstart : frameStart s.toCore (cmPopOf lo) = frameStart s.toCore lo := by
    rw [frameStart, cmPopOf_rlist, cmPopOf_spimm, frameStart]
  -- the loads of `cm.pop` are those of the fused form
  have hp' : Popped h s (cmPopOf lo) s' := by
    refine ⟨?_, hp.rest, ?_, hp.sp⟩
    · rw [hstart, cmPopOf_rlist]
      exact hp.loop
    · rw [hstart]
      exact hp.ra
  have hpopX : popX s s' (cmPopOf lo) = popX s s' lo := by
    rw [popX, cmPopOf_rlist, cmPopOf_spimm, popX]
  have hclear : ¬ clearsA0 (cmPopOf lo) := by
    rw [clearsA0, cmPopOf_funct5]
    decide
  obtain ⟨hcore, htrap⟩ := stepCompressed_pop hs hzcmp (cmPopOf_isZcmp lo hlo)
    (by rw [cmPopOf_multi]; decide) (by rw [cmPopOf_rlist]; exact hr) (.inl (cmPopOf_funct5 lo)) hp'
  rw [frameLeft, if_neg hclear, hpopX] at hcore
  have hra : popX s s' lo 1 = h.readValue s.mem (frameStart s.toCore lo) 4 :=
    (Function.update_of_ne (by decide) _ _).trans hp.ra
  rw [returnSequence, frameLeft, ← hra]
  generalize stepCompressed h s (cmPopOf lo) = s1 at hcore htrap
  have hx : s1.x = Function.update (popX s s' lo) 0 0 := congrArg Core.x hcore
  split
  · have hjr := stepCompressed_jr (h := h) (s := s1.setX 10 0) htrap
    rw [hjr, Cpu.setX, hx, hcore, Function.update_comm (by decide : (0 : Reg) ≠ 10)]
    simp only [Function.update_idem]
    rfl
  · rw [stepCompressed_jr htrap, hx, hcore]
    simp only [Function.update_idem]
    rfl

end Sequence

/-- The fused return is its sequence exactly if the return address in the frame is even. -/
theorem returnsAsSequence_iff {lo : BitVec 16} (hs : s.inTrap = false) (hzcmp : s.zcmp = true)
    (hlo : isZcmp lo = true) (hret : zcmpFunct5 lo = 0x1c ∨ zcmpFunct5 lo = 0x1e)
    (hr : ¬ zcmpRlist lo < 4)
    (hread : FrameReadable h s.toCore (frameStart s.toCore lo) (zcmpRegs (zcmpRlist lo)).length) :
    ReturnsAsSequence h s lo ↔ h.readValue s.mem (frameStart s.toCore lo) 4 &&& 1 = 0 := by
  obtain ⟨s', hp⟩ := frame_popped hr hread
  have hfused := fusedReturn_toCore hs hzcmp hlo hr hp hret
  have hseq := returnSequence_toCore hs hzcmp hlo hr hp
  rw [ReturnsAsSequence, hfused, hseq]
  simp only [frameLeft]
  generalize h.readValue s.mem (frameStart s.toCore lo) 4 = ra
  constructor
  · rintro ⟨-, hmask⟩
    rw [hmask, BitVec.and_assoc]
    exact BitVec.and_zero
  · intro heven
    have hmask : ra = ra &&& ~~~1 := by
      calc
        ra = ra &&& (1 ||| ~~~1) := BitVec.and_allOnes.symm
        _ = (ra &&& 1) ||| (ra &&& ~~~1) := BitVec.and_or_distrib_left
        _ = ra &&& ~~~1 := by rw [heven]; exact BitVec.zero_or
    refine ⟨?_, hmask⟩
    rw [← hmask]

/-- Every word of the memory is the address 0x1001, and `cm.popret {ra}, 16` is at 0. -/
def oddHost : Host Unit where
  read8 := fun _ _ => 0
  read16 := fun _ _ => 0xbe42
  read32 := fun _ _ => 0x1001
  write8 := fun _ _ _ => ()
  write16 := fun _ _ _ => ()
  write32 := fun _ _ _ => ()
  fp := trivialDoubles

theorem returnsAsSequence_iff_odd :
    ReturnsAsSequence oddHost (rvReset (rvInit ()) 0) 0xbe42 ↔
      oddHost.readValue () (frameStart (rvReset (rvInit ()) 0).toCore 0xbe42) 4 &&& 1 = 0 :=
  returnsAsSequence_iff rfl rfl (by decide) (.inr (by decide)) (by decide) fun i hi => by
    obtain rfl : i = 0 := Nat.lt_one_iff.1 hi
    exact ⟨0x1001, rfl⟩

/-- An odd return address goes into `pc`, and the next step is an exception. -/
theorem popret_keeps_bit :
    (rvStep oddHost (rvReset (rvInit ()) 0)).1.pc = 0x1001 ∧
      (rvStep oddHost (rvStep oddHost (rvReset (rvInit ()) 0)).1).1.inTrap = true ∧
      ¬ ReturnsAsSequence oddHost (rvReset (rvInit ()) 0) 0xbe42 := by
  have hstep : (rvStep oddHost (rvReset (rvInit ()) 0)).1.pc = 0x1001 ∧
      (rvStep oddHost (rvStep oddHost (rvReset (rvInit ()) 0)).1).1.inTrap = true := by decide
  refine ⟨hstep.1, hstep.2, fun hseq => ?_⟩
  have hpc : (stepCompressed oddHost (rvReset (rvInit ()) 0) 0xbe42).pc = 0x1001 := by decide
  have hmask := hpc.symm.trans hseq.2
  exact absurd hmask (by decide)

end MechanicalResearcher.Rv32
