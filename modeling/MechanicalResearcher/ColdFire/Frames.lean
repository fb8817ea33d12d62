import MechanicalResearcher.ColdFire.Exceptions

/-!
# What an instruction leaves alone

The registers beside the one that is set, and the accumulators: no instruction but those of
group A writes them.
-/

namespace MechanicalResearcher.ColdFire

variable {μ : Type} {b : Bus μ}

/-! ## Setting one register -/

section

variable (s : Cpu μ)

@[simp] theorem d_setD (i : Reg) (v : Word) : (s.setD i v).d i = v := Function.update_self ..
@[simp] theorem a_setA (i : Reg) (v : Word) : (s.setA i v).a i = v := Function.update_self ..

theorem d_setD_of_ne {i j : Reg} (h : j ≠ i) (v : Word) : (s.setD i v).d j = s.d j :=
  Function.update_of_ne h ..

theorem a_setA_of_ne {i j : Reg} (h : j ≠ i) (v : Word) : (s.setA i v).a j = s.a j :=
  Function.update_of_ne h ..

end

/-! ## The accumulators -/

section

variable (s : Cpu μ)

@[simp] theorem acc_setD (i : Reg) (v : Word) : (s.setD i v).acc = s.acc := rfl
@[simp] theorem acc_setA (i : Reg) (v : Word) : (s.setA i v).acc = s.acc := rfl
@[simp] theorem acc_setFlag (f : Word) (c : Bool) : (setFlag s f c).acc = s.acc := rfl
@[simp] theorem acc_setNz (r : Word) (sz : Size) : (setNz s r sz).acc = s.acc := rfl
@[simp] theorem acc_setFlagsMove (r : Word) (sz : Size) : (setFlagsMove s r sz).acc = s.acc := rfl
@[simp] theorem acc_setFlagsAdd (x y r : Word) (sz : Size) :
    (setFlagsAdd s x y r sz).acc = s.acc := by
  simp only [setFlagsAdd, acc_setFlag, acc_setNz]
@[simp] theorem acc_setFlagsCmp (x y r : Word) (sz : Size) :
    (setFlagsCmp s x y r sz).acc = s.acc := by
  simp only [setFlagsCmp, acc_setFlag, acc_setNz]
@[simp] theorem acc_setFlagsSub (x y r : Word) (sz : Size) :
    (setFlagsSub s x y r sz).acc = s.acc := by
  simp only [setFlagsSub, acc_setFlag, acc_setFlagsCmp]
@[simp] theorem acc_busWrite32 (a v : Word) : (busWrite32 b s a v).acc = s.acc := rfl
@[simp] theorem acc_fetch16 : (fetch16 b s).2.acc = s.acc := rfl
@[simp] theorem acc_push32 (v : Word) : (push32 b s v).acc = s.acc := rfl

@[simp] theorem acc_updateSp (sr : Word) : (updateSp s sr).acc = s.acc := by
  rw [updateSp_eq]

@[simp] theorem acc_clearZ (r : Word) : (clearZ s r).acc = s.acc := by
  unfold clearZ
  split_ifs <;> rfl

@[simp] theorem acc_raise (v : Word) (ea : Bool) : (raise b s v ea).acc = s.acc := by
  cases hin : s.inException with
  | false =>
    obtain ⟨trace, heq⟩ := raise_eq (b := b) hin v ea
    rw [heq]
  | true =>
    obtain ⟨trace, heq⟩ := raise_double (b := b) hin v ea
    rw [heq]

@[simp] theorem acc_cfException (v : Word) : (cfException b s v).acc = s.acc :=
  acc_raise s v false

@[simp] theorem acc_illegal : (illegal b s).acc = s.acc := acc_raise s vecIllegal false

@[simp] theorem acc_decodeSpecial (r : Reg) (sz : Size) : (decodeSpecial b s r sz).2.acc =
    s.acc := by
  unfold decodeSpecial
  split
  case h_5 => cases sz <;> rfl
  all_goals first | rfl | exact acc_raise ..

@[simp] theorem acc_decodeEa (mode r : Reg) (sz : Size) : (decodeEa b s mode r sz).2.acc =
    s.acc := by
  unfold decodeEa
  split
  case h_7 =>
      dsimp only
      split_ifs
      · exact acc_raise ..
      · rfl
  all_goals first | rfl | exact acc_decodeSpecial ..

@[simp] theorem acc_writeEa (loc : EaLoc) (sz : Size) (v : Word) :
    (writeEa b s loc sz v).acc = s.acc := by
  unfold writeEa
  cases loc.type <;> cases sz <;> rfl

@[simp] theorem acc_eaRead (mode r : Reg) (sz : Size) : (eaRead b s mode r sz).2.acc = s.acc :=
  acc_decodeEa s mode r sz

theorem acc_foldl {α : Type} (f : Cpu μ → α → Cpu μ) (h : ∀ s x, (f s x).acc = s.acc)
    (l : List α) : (l.foldl f s).acc = s.acc := by
  induction l generalizing s with
  | nil => rfl
  | cons x l ih => exact (ih (f s x)).trans (h s x)

theorem acc_foldl_fst {α β : Type} (f : Cpu μ × β → α → Cpu μ × β)
    (h : ∀ r x, (f r x).1.acc = r.1.acc) (l : List α) (r : Cpu μ × β) :
    (l.foldl f r).1.acc = r.1.acc := by
  induction l generalizing r with
  | nil => rfl
  | cons x l ih => exact (ih (f r x)).trans (h r x)

theorem acc_privileged {body : Cpu μ → Cpu μ} (h : (body s).acc = s.acc) :
    (privileged b s body).acc = s.acc := by
  unfold privileged
  split_ifs
  · exact h
  · exact acc_cfException ..

end

/-! ## The groups -/

section

variable (s : Cpu μ) (op : Half)

@[simp] theorem acc_bitInsn (bitnum : Word) : (bitInsn b s op bitnum).acc = s.acc := by
  unfold bitInsn bitRegister bitMemory
  split_ifs
  · dsimp only
    split <;> rfl
  · dsimp only
    split <;> simp

@[simp] theorem acc_immediateInsn (sz : Size) : (immediateInsn b s op sz).acc = s.acc := by
  have himm : (fetchImm b s sz).2.acc = s.acc := by cases sz <;> rfl
  unfold immediateInsn
  dsimp only
  split <;> simp [himm]

theorem acc_execGroup0 : (execGroup0 b s op).acc = s.acc := by
  unfold execGroup0
  split_ifs
  · exact acc_bitInsn ..
  · rfl
  · rfl
  · split <;> simp

theorem acc_execBitReg : (execBitReg b s op).acc = s.acc := acc_bitInsn ..

theorem acc_execMove (sz : Size) : (execMove b s op sz).acc = s.acc := by
  unfold execMove
  dsimp only
  split_ifs <;> simp

@[simp] theorem acc_setListReg (i : Nat) (v : Word) : (setListReg s i v).acc = s.acc := by
  unfold setListReg
  split_ifs <;> rfl

theorem acc_ite {p : Prop} [Decidable p] {s x y : Cpu μ} (hx : x.acc = s.acc)
    (hy : y.acc = s.acc) : (if p then x else y).acc = s.acc := by
  split
  · exact hx
  · exact hy

theorem acc_movem : (movem b s op).acc = s.acc := by
  have hfetch : (fetch16 b s).2.acc = s.acc := acc_fetch16 s
  have hillegal : (illegal b (fetch16 b s).2).acc = s.acc :=
    (acc_illegal _).trans hfetch
  unfold movem movemPredec movemPostinc movemStore movemLoad
  refine acc_ite (acc_illegal s) (acc_ite hillegal (acc_ite ?_ (acc_ite ?_ (acc_ite hillegal
    (acc_ite ?_ ?_)))))
  · refine (acc_foldl _ _ (fun s j => ?_) _).trans hfetch
    exact acc_ite ((acc_busWrite32 ..).trans (acc_setA ..)) rfl
  · refine (acc_foldl _ _ (fun s i => ?_) _).trans hfetch
    exact acc_ite ((acc_setA ..).trans (acc_setListReg ..)) rfl
  · refine (acc_foldl_fst _ (fun r i => ?_) _ _).trans ((acc_decodeEa ..).trans hfetch)
    split
    · exact acc_setListReg ..
    · rfl
  · refine (acc_foldl_fst _ (fun r i => ?_) _ _).trans ((acc_decodeEa ..).trans hfetch)
    split
    · exact acc_busWrite32 ..
    · rfl

theorem acc_divL : (divL b s op).acc = s.acc := by
  unfold divL storeQuotient divOverflow
  dsimp only
  split_ifs <;> simp

theorem acc_rte : (rte b s).acc = s.acc := by
  unfold rte
  dsimp only
  split_ifs <;> simp

theorem acc_movec : (movec b op s).acc = s.acc := by
  unfold movec setControlReg
  dsimp only
  split_ifs <;> simp

@[simp] theorem acc_tas : (tas b s op).acc = s.acc := by
  simp [tas]

@[simp] theorem acc_tst : (tst b s op).acc = s.acc := by
  unfold tst
  split <;> simp

@[simp] theorem acc_clr : (clr b s op).acc = s.acc := by
  unfold clr
  split <;> simp

@[simp] theorem acc_negx (r : Reg) : (negx s r).acc = s.acc := by
  simp [negx]

@[simp] theorem acc_neg (r : Reg) : (neg s r).acc = s.acc := rfl
@[simp] theorem acc_notL (r : Reg) : (notL s r).acc = s.acc := rfl
@[simp] theorem acc_extW (r : Reg) : (extW s r).acc = s.acc := rfl
@[simp] theorem acc_extL (r : Reg) (sz : Size) : (extL s r sz).acc = s.acc := rfl
@[simp] theorem acc_swap (r : Reg) : (swap s r).acc = s.acc := rfl
@[simp] theorem acc_link (r : Reg) : (link b s r).acc = s.acc := rfl
@[simp] theorem acc_unlk (r : Reg) : (unlk b s r).acc = s.acc := rfl
@[simp] theorem acc_rts : (rts b s).acc = s.acc := rfl
@[simp] theorem acc_pea : (pea b s op).acc = s.acc := by simp [pea]
@[simp] theorem acc_lea : (lea b s op).acc = s.acc := by simp [lea]
@[simp] theorem acc_jsr : (jsr b s op).acc = s.acc := by simp [jsr]
@[simp] theorem acc_jmp : (jmp b s op).acc = s.acc := by simp [jmp]
@[simp] theorem acc_mulL : (mulL b s op).acc = s.acc := by simp [mulL]
@[simp] theorem acc_stop : (stop b s).acc = s.acc := by simp [stop]
@[simp] theorem acc_moveFromSr : (moveFromSr b op s).acc = s.acc := by simp [moveFromSr]
@[simp] theorem acc_moveToCcr : (moveToCcr b s op).acc = s.acc := by simp [moveToCcr]
@[simp] theorem acc_moveToSr : (moveToSr b op s).acc = s.acc := by simp [moveToSr]

@[simp] theorem acc_moveUsp : (moveUsp op s).acc = s.acc := by
  unfold moveUsp
  split_ifs <;> rfl

theorem acc_execGroup4 : (execGroup4 b s op).acc = s.acc := by
  have hhalt : (privileged b s fun s => { s with halted := true }).acc = s.acc :=
    acc_privileged s rfl
  simp only [execGroup4, apply_ite Cpu.acc, hhalt, acc_privileged, acc_illegal, acc_tas, acc_tst,
    acc_clr, acc_neg, acc_negx, acc_notL, acc_extW, acc_extL, acc_swap, acc_pea, acc_movem,
    acc_lea, acc_link, acc_unlk, acc_rts, acc_rte, acc_stop, acc_cfException, acc_jsr, acc_jmp,
    acc_moveFromSr, acc_moveToCcr, acc_moveToSr, acc_moveUsp, acc_mulL, acc_divL, acc_movec,
    ite_self]

theorem acc_execGroup5 : (execGroup5 b s op).acc = s.acc := by
  have hquick (sz : Size) : (addqSubq b s op sz).acc = s.acc := by
    unfold addqSubq
    dsimp only
    split_ifs <;> simp
  unfold execGroup5
  split
  · split
    · rfl
    · exact acc_illegal s
  · split
    · exact acc_illegal s
    · exact hquick _

theorem acc_execGroup6 : (execGroup6 b s op).acc = s.acc := by
  have hdisp : (fetchDisp b s op).2.acc = s.acc := by
    unfold fetchDisp
    dsimp only
    split_ifs <;> rfl
  unfold execGroup6
  dsimp only
  split_ifs <;> simp [hdisp]

theorem acc_execGroup7 : (execGroup7 b s op).acc = s.acc := by
  unfold execGroup7
  dsimp only
  split_ifs <;> simp

/-! ## Arithmetic with a register -/

theorem acc_aluInsn {f : Alu μ} (hf : ∀ s x y r sz, (f.flags s x y r sz).acc = s.acc) :
    (aluInsn b f s op).acc = s.acc := by
  unfold aluInsn aluToEa aluToReg
  split
  · exact acc_illegal s
  · split_ifs <;> simp [hf]

@[simp] theorem acc_setFlagsX (c o : Bool) (r : Word) : (setFlagsX s c o r).acc = s.acc := by
  simp [setFlagsX]

theorem acc_subx : (subx s op).acc = s.acc := by simp [subx]
theorem acc_addx : (addx s op).acc = s.acc := by simp [addx]

@[simp] theorem acc_eaReadAddr (sz : Size) : (eaReadAddr b s op sz).2.acc = s.acc :=
  acc_decodeEa ..

theorem acc_execGroup9 : (execGroup9 b s op).acc = s.acc := by
  unfold execGroup9
  split_ifs
  · simp
  · simp
  · exact acc_subx s op
  · exact acc_aluInsn s op acc_setFlagsSub

theorem acc_execGroupD : (execGroupD b s op).acc = s.acc := by
  unfold execGroupD
  split_ifs
  · simp
  · simp
  · exact acc_addx s op
  · exact acc_aluInsn s op acc_setFlagsAdd

theorem acc_divW : (divW b s op).acc = s.acc := by
  unfold divW storeDivW divOverflow
  dsimp only
  split_ifs <;> simp

theorem acc_execGroup8 : (execGroup8 b s op).acc = s.acc := by
  unfold execGroup8
  split_ifs
  · exact acc_divW s op
  · exact acc_aluInsn s op fun s _ _ r sz => acc_setFlagsMove s r sz

theorem acc_execGroupB : (execGroupB b s op).acc = s.acc := by
  unfold execGroupB
  split
  · simp [cmpa]
  · split
    · simp [cmpa]
    · split
      · exact acc_illegal s
      · split
        · simp [aluToEa, aluEor]
        · simp [cmp]

theorem acc_exg {s s' : Cpu μ} (h : exg s op = some s') : s'.acc = s.acc := by
  unfold exg at h
  dsimp only at h
  split_ifs at h <;> cases h <;> rfl

theorem acc_execGroupC : (execGroupC b s op).acc = s.acc := by
  unfold execGroupC muluW mulsW
  split_ifs
  · simp
  · simp
  · split
    case h_1 s' h => exact acc_exg op h
    case h_2 => exact acc_aluInsn s op fun s _ _ r sz => acc_setFlagsMove s r sz

@[simp] theorem acc_setFlagsShift (type : BitVec 2) (r : Word) (out : Bool) (sz : Size) :
    (setFlagsShift s type r out sz).acc = s.acc := by
  unfold setFlagsShift
  dsimp only
  split_ifs <;> rfl

theorem acc_execGroupE : (execGroupE b s op).acc = s.acc := by
  unfold execGroupE shiftInsn
  split
  · exact acc_illegal s
  · dsimp only
    split
    · rfl
    · split
      · exact acc_illegal s
      · simp

/-! ## The FPU -/

variable (h : Doubles)

@[simp] theorem acc_fpuReadDouble (mode reg : Reg) : (fpuReadDouble b s mode reg).2.acc =
    s.acc := by
  unfold fpuReadDouble
  split_ifs <;> simp

theorem acc_fpuSource (fmt mode reg : Reg) :
    ∀ r ∈ fpuSource b h s fmt mode reg, r.2.acc = s.acc := by
  intro r hr
  unfold fpuSource at hr
  dsimp only at hr
  split at hr
  case h_6 => contradiction
  all_goals
    rw [← Option.mem_some.mp hr]
    first | exact acc_eaRead .. | exact acc_fpuReadDouble ..

@[simp] theorem acc_fpuOperate (dst : Reg) (opcode : BitVec 7) (v : Double) :
    (fpuOperate b h s dst opcode v).acc = s.acc := by
  unfold fpuOperate
  split_ifs
  · rfl
  · rfl
  · split
    · rfl
    · exact acc_cfException ..

theorem acc_fpuDyadic (ext : Half) (fromEa : Bool) :
    (fpuDyadic b h s op ext fromEa).acc = s.acc := by
  unfold fpuDyadic
  dsimp only
  split_ifs
  · simp
  · split
    case h_1 hsrc => exact (acc_fpuOperate ..).trans (acc_fpuSource s h _ _ _ _ hsrc)
    case h_2 => exact acc_cfException ..

theorem acc_fmoveOut (ext : Half) : (fmoveOut b h s op ext).acc = s.acc := by
  unfold fmoveOut fpuStore fpuStoreDouble writeDoubleAt
  dsimp only
  split
  case h_4 => split_ifs <;> simp
  all_goals simp

theorem acc_setFpControl (v : Word) (c : FpControl) : (setFpControl s v c).acc = s.acc := by
  cases c <;> rfl

theorem acc_fmoveControl (ext : Half) (out : Bool) :
    (fmoveControl b s op ext out).acc = s.acc := by
  unfold fmoveControl fmoveControlIn fmoveControlOut
  dsimp only
  split
  · rw [acc_foldl_fst]
    · simp
    · intro r c
      split <;> simp
  · rw [acc_foldl_fst]
    · simp
    · intro r c
      split <;> exact acc_setFpControl ..

theorem acc_fmovem (ext : Half) (store : Bool) : (fmovem b s op ext store).acc = s.acc := by
  unfold fmovem fmovemPredec fmovemStore fmovemLoad
  dsimp only
  split_ifs
  · rw [acc_foldl]
    intro s i
    rfl
  · exact acc_cfException ..
  · rw [acc_foldl_fst]
    · simp
    · intro r i
      rfl
  · rw [acc_foldl_fst]
    · simp
    · intro r i
      rfl

theorem acc_execGroupF : (execGroupF b h s op).acc = s.acc := by
  have hfbcc : (fbcc b s op).acc = s.acc := by
    unfold fbcc
    dsimp only
    split_ifs <;> rfl
  unfold execGroupF
  split_ifs
  · exact acc_cfException ..
  · exact hfbcc
  · unfold fpuGeneral
    dsimp only
    split
    · exact acc_fpuDyadic ..
    · exact acc_fpuDyadic ..
    · exact acc_fmoveOut ..
    · exact acc_fmoveControl ..
    · exact acc_fmoveControl ..
    · exact acc_fmovem ..
    · exact acc_fmovem ..
    · exact acc_cfException ..

end

theorem acc_execGroup {m : Machine μ} {s : Cpu μ} {op : Half}
    (hop : (op.extractLsb' 12 4).toNat ≠ 0xA) : (execGroup m s op).acc = s.acc := by
  unfold execGroup
  split
  · split_ifs
    · exact acc_execBitReg s op
    · exact acc_execGroup0 s op
  · exact acc_execMove s op .byte
  · exact acc_execMove s op .long
  · exact acc_execMove s op .word
  · exact acc_execGroup4 s op
  · exact acc_execGroup5 s op
  · exact acc_execGroup6 s op
  · exact acc_execGroup7 s op
  · exact acc_execGroup8 s op
  · exact acc_execGroup9 s op
  · contradiction
  · exact acc_execGroupB s op
  · exact acc_execGroupC s op
  · exact acc_execGroupD s op
  · exact acc_execGroupE s op
  · exact acc_execGroupF s op m.doubles

end MechanicalResearcher.ColdFire
