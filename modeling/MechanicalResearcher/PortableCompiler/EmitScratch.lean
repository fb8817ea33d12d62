import MechanicalResearcher.PortableCompiler.EmitData

/-!
# Comparisons and remainders

`emit_cmp` and the code of `IR_MODS` and `IR_MODU` use `%d0` for more than one purpose: for a
first operand that is spilled, for the destination if it is, and a remainder for the product as
well.
-/

namespace MechanicalResearcher.PortableCompiler

open Lib.ByteMemory

variable {op : Op} {c : Cond} {x y w : Word} {t : Nat} {m : Mach} {mnem : Alu}

/-! ## Condition codes -/

theorem cmpFlags_slt (x y : Word) : ((cmpFlags x y).n != (cmpFlags x y).v) = y.slt x := by
  have hx : x.toNat < 4294967296 := x.isLt
  have hy : y.toNat < 4294967296 := y.isLt
  have hsub : (y - x).toNat = (4294967296 - x.toNat + y.toNat) % 4294967296 := BitVec.toNat_sub y x
  have hmsb (v : Word) : v.msb = decide (2147483648 ≤ v.toNat) := BitVec.msb_eq_decide v
  have hint (v : Word) : v.toInt = if v.toNat < 2147483648 then (v.toNat : Int)
      else v.toNat - 4294967296 := by
    rw [BitVec.toInt_eq_toNat_cond]
    split_ifs <;> omega
  simp only [cmpFlags, BitVec.slt_eq_decide, hmsb, hint, hsub]
  by_cases hsign : 2147483648 ≤ x.toNat <;> by_cases hsign' : 2147483648 ≤ y.toNat <;>
    by_cases hdiff : 2147483648 ≤ (4294967296 - x.toNat + y.toNat) % 4294967296 <;>
    simp [hsign, hsign', hdiff] <;> omega

theorem cmpFlags_z (x y : Word) : (cmpFlags x y).z = (y == x) := by
  have hiff : y - x = 0 ↔ y = x := by bv_omega
  rw [Bool.eq_iff_iff]
  simp only [cmpFlags, beq_iff_eq, hiff]

theorem cond_holds {p : Bool} (hc : cmpMnem op = some c) (hp : cmpHolds op x y = some p) :
    c.holds (cmpFlags y x) = p := by
  have hslt := cmpFlags_slt y x
  have hz := cmpFlags_z y x
  have hult : (cmpFlags y x).c = x.ult y := rfl
  have hsle : (x.slt y || x == y) = x.sle y := BitVec.sle_eq_slt_or_eq.symm
  have hule : (x.ult y || x == y) = x.ule y := by
    rw [Bool.eq_iff_iff, Bool.or_eq_true, beq_iff_eq, BitVec.ult_iff_toNat_lt,
      BitVec.ule_iff_toNat_le, ← BitVec.toNat_inj]
    omega
  have hnot (a b : Word) : b.slt a = !a.sle b := by rw [BitVec.sle_eq_not_slt, Bool.not_not]
  have hnot' (a b : Word) : b.ult a = !a.ule b := by rw [BitVec.ule_eq_not_ult, Bool.not_not]
  cases op
  case cmpeq =>
      obtain rfl := Option.some.inj hc
      obtain rfl := Option.some.inj hp
      exact hz
  case cmpne =>
      obtain rfl := Option.some.inj hc
      obtain rfl := Option.some.inj hp
      rw [Cond.holds, hz]
      rfl
  case cmplts =>
      obtain rfl := Option.some.inj hc
      obtain rfl := Option.some.inj hp
      exact hslt
  case cmples =>
      obtain rfl := Option.some.inj hc
      obtain rfl := Option.some.inj hp
      rw [Cond.holds, hslt, hz, Bool.or_comm, hsle]
  case cmpgts =>
      obtain rfl := Option.some.inj hc
      obtain rfl := Option.some.inj hp
      rw [Cond.holds, hz, hnot x y, ← hsle, ← hslt, Bool.not_or, Bool.and_comm, bne, Bool.not_not]
  case cmpges =>
      obtain rfl := Option.some.inj hc
      obtain rfl := Option.some.inj hp
      rw [Cond.holds, BitVec.sle_eq_not_slt, ← hslt, bne, Bool.not_not]
  case cmpltu =>
      obtain rfl := Option.some.inj hc
      obtain rfl := Option.some.inj hp
      exact hult
  case cmpleu =>
      obtain rfl := Option.some.inj hc
      obtain rfl := Option.some.inj hp
      rw [Cond.holds, hult, hz, hule]
  case cmpgtu =>
      obtain rfl := Option.some.inj hc
      obtain rfl := Option.some.inj hp
      rw [Cond.holds, hult, hz, hnot' x y, ← hule, Bool.not_or]
  case cmpgeu =>
      obtain rfl := Option.some.inj hc
      obtain rfl := Option.some.inj hp
      rw [Cond.holds, hult, BitVec.ule_eq_not_ult]
  all_goals exact absurd hc (Option.some_ne_none _).symm

/-! ## Comparisons -/

section Cmp

variable {fn : Func} {a b dst : Nat} {i : Insn} {pc : Nat}

theorem rs_ne_rd {k : Nat} (hk : k < 2) (ht : fn.Located t) (hdst : fn.Located dst)
    (hne : ¬fn.SameLoc dst t) (hspill : k = 0 → fn.tempReg t ≠ none ∨ fn.tempReg dst ≠ none) :
    (rs fn t k).2 ≠ rd fn dst 0 := by
  rcases ht with ⟨r, hreg, hr, -, hslot⟩ | ⟨hreg, -⟩
  · rcases hdst with ⟨r', hreg', -, -, hslot'⟩ | ⟨hreg', -⟩
    · intro heq
      have hrr : r = r' := by simpa [rs, rd, hreg, hreg'] using heq
      exact hne ⟨by rw [hreg, hreg', hrr], by rw [hslot, hslot']⟩
    · simp only [rs, rd, hreg, hreg', Option.getD_none]
      omega
  · rcases hdst with ⟨r', hreg', hr', -⟩ | ⟨hreg', -⟩
    · simp only [rs, rd, hreg, hreg', Option.getD_some]
      omega
    · have hk1 : k ≠ 0 := by
        intro hk0
        rcases hspill hk0 with h | h
        · exact h hreg
        · exact h hreg'
      simpa [rs, rd, hreg, hreg'] using hk1

theorem scc_run (sym : String → Word) (m : Mach) (sa sb sd : Nat) (hzero : m.d sd = 0)
    (c : Cond) :
    runAsm sym [.cmp sb sa, .scc c sd, .unary .negB sd] m =
      some (m.setD sd (ofBool (c.holds (cmpFlags (m.d sb) (m.d sa))))) := by
  simp only [runAsm, exec, Option.bind_some, Option.map_some, Function.update_self, Mach.setD,
    Function.update_idem, hzero]
  cases c.holds (cmpFlags (m.d sb) (m.d sa))
  · rfl
  · rfl

theorem emitCmp_run (sym : String → Word) (m : Mach) (ha : fn.Located a) (hb : fn.Located b)
    (hne : (rs fn b 1).2 ≠ rd fn dst 0) (c : Cond) :
    ∃ m', runAsm sym (emitCmp fn a b dst c) m = some m' ∧
      Effect fn dst (ofBool (c.holds (cmpFlags (fn.tempVal m b)
        (if (rs fn a 0).2 = rd fn dst 0 then 0 else fn.tempVal m a)))) m m' := by
  obtain ⟨m1, hrun, hva, hvb, hkept⟩ := rs_pair_run sym m ha hb
  have hx : (m1.setD (rd fn dst 0) 0).d (rs fn a 0).2 =
      if (rs fn a 0).2 = rd fn dst 0 then 0 else fn.tempVal m a := by
    by_cases hsame : (rs fn a 0).2 = rd fn dst 0
    · rw [if_pos hsame, hsame, setD_self]
    · rw [if_neg hsame, ← hva]
      exact Function.update_of_ne hsame _ _
  have hy : (m1.setD (rd fn dst 0) 0).d (rs fn b 1).2 = fn.tempVal m b := by
    rw [← hvb]
    exact Function.update_of_ne hne _ _
  have hcode : runAsm sym ((rs fn a 0).1 ++ (rs fn b 1).1 ++ [.moveq 0 (rd fn dst 0),
      .cmp (rs fn b 1).2 (rs fn a 0).2, .scc c (rd fn dst 0), .unary .negB (rd fn dst 0)]) m =
        some (m1.setD (rd fn dst 0) (ofBool (c.holds (cmpFlags (fn.tempVal m b)
          (if (rs fn a 0).2 = rd fn dst 0 then 0 else fn.tempVal m a))))) := by
    have hscc := scc_run sym (m1.setD (rd fn dst 0) 0) (rs fn a 0).2 (rs fn b 1).2 _
      (setD_self m1 _ 0) c
    rw [hx, hy, setD_setD] at hscc
    exact (runAsm_trans hrun).trans hscc
  exact result_run hcode (hkept.ready _)

theorem emitInsn_cmp (hc : cmpMnem i.op = some c) (pfx : Nat) (args : List Nat) :
    emitInsn fn pfx args i = (do some (emitCmp fn (← i.a) (← i.b) (← i.dst) c, args)) := by
  unfold emitInsn
  cases hi : i.op <;> rw [hi] at hc <;>
    first
    | exact absurd hc (Option.some_ne_none _).symm
    | (obtain rfl := Option.some.inj hc; rfl)

theorem value_cmp (hc : cmpMnem i.op = some c) (L : Layout) (σ : Vm) :
    i.value L σ = (do binop i.op (σ.temp (← i.a)) (σ.temp (← i.b))) := by
  unfold Insn.value
  cases hi : i.op <;> rw [hi] at hc <;> exact absurd hc (Option.some_ne_none _).symm

theorem binop_cmp (hc : cmpMnem op = some c) (x y : Word) :
    ∃ p, cmpHolds op x y = some p ∧ binop op x y = some (ofBool p) := by
  cases op <;> first | exact ⟨_, rfl, rfl⟩ | exact absurd hc (Option.some_ne_none _).symm

theorem sets_of_cmp (hc : cmpMnem i.op = some c) : i.sets = i.dst := by
  rw [Insn.sets]
  cases hi : i.op <;> rw [hi] at hc <;> first | rfl | exact absurd hc (Option.some_ne_none _).symm

theorem computes_of_cmp (hc : cmpMnem op = some c) : op.computes = true := by
  cases op <;> first | rfl | exact absurd hc (Option.some_ne_none _).symm

/-- The location of a temp is set. -/
def setTemp (fn : Func) (t : Nat) (v : Word) (m : Mach) : Mach :=
  match fn.tempReg t with
  | some r => m.setD r v
  | none => { m with mem := writeL m.mem (m.frameAt (spillByteOffset fn t)) v }

theorem setTemp_effect (fn : Func) (t : Nat) (v : Word) (m : Mach) :
    Effect fn t v m (setTemp fn t v m) := by
  rw [setTemp]
  rcases hreg : fn.tempReg t with _ | r
  · constructor
    case d => simp [hreg]
    case mem => simp [hreg]
    case fp => rfl
    case sp => rfl
  · constructor
    case d =>
        intro n _
        by_cases heq : r = n
        · rw [hreg, if_pos (congrArg some heq), ← heq]
          exact setD_self m r v
        · rw [hreg, if_neg (fun hsome => heq (Option.some.inj hsome))]
          exact Function.update_of_ne (Ne.symm heq) _ _
    case mem => simp [hreg]
    case fp => rfl
    case sp => rfl

theorem tempVal_sameLoc {u : Nat} (h : fn.SameLoc t u) :
    fn.tempVal m t = fn.tempVal m u := by
  simp only [Func.tempVal, spillByteOffset, h.1, h.2]

theorem exists_values (hfits : fn.Fits) (ha : fn.Located a) (hb : fn.Located b)
    (hxy : fn.SameLoc b a → x = y) (sp : Word) :
    ∃ m : Mach, m.sp = sp ∧ m.fp = 0 ∧ fn.tempVal m a = x ∧ fn.tempVal m b = y := by
  have hy := setTemp_effect fn b y ⟨fun _ => 0, 0, 0, sp, fun _ => 0, none⟩
  have hx := setTemp_effect fn a x (setTemp fn b y ⟨fun _ => 0, 0, 0, sp, fun _ => 0, none⟩)
  have hvalue := hx.value ha
  refine ⟨_, hx.sp.trans hy.sp, hx.fp.trans hy.fp, hvalue, ?_⟩
  by_cases hsame : fn.SameLoc b a
  · rw [tempVal_sameLoc hsame, hvalue, hxy hsame]
  · rw [hx.temp_other hfits ha hb hsame, hy.value hb]

theorem ofBool_injective {p p' : Bool} (h : ofBool p = ofBool p') : p = p' := by
  revert h
  cases p <;> cases p' <;> decide

/-- Operands for which a comparison comes out differently when the first one is taken for 0;
equal ones, unless the comparison holds, or fails, of 0 whatever the other is. -/
theorem exists_misjudged (hc : cmpMnem op = some c) :
    ∃ x y : Word, cmpHolds op 0 y ≠ cmpHolds op x y ∧
      (x = y ∨ op = .cmpleu ∨ op = .cmpgtu) := by
  cases op
  case cmpeq | cmpne | cmplts | cmpges | cmpltu | cmpgeu => exact ⟨1, 1, by decide, Or.inl rfl⟩
  case cmples | cmpgts => exact ⟨-1, -1, by decide, Or.inl rfl⟩
  case cmpleu => exact ⟨2, 1, by decide, Or.inr (Or.inl rfl)⟩
  case cmpgtu => exact ⟨2, 1, by decide, Or.inr (Or.inr rfl)⟩
  all_goals exact absurd hc (Option.some_ne_none _).symm

theorem cmpHolds_zero (hop : op = .cmpleu ∨ op = .cmpgtu) (y : Word) :
    cmpHolds op 0 y = cmpHolds op y y := by
  rcases hop with rfl | rfl
  · simp [cmpHolds, BitVec.ule]
  · simp [cmpHolds, BitVec.ult]

/-- The code of a comparison, from one state: it simulates the comparison if that comes out
alike when the first operand is 0, where the destination has its register. -/
theorem cmp_simulates_iff (hlocs : ∀ t, i.Names t → fn.Located t) (hfits : fn.Fits)
    (hi : fn.code[pc]? = some i) (hc : cmpMnem i.op = some c) (ha : i.a = some a)
    (hb : i.b = some b) (hd : i.dst = some dst) (hdb : ¬fn.SameLoc dst b) (sym : String → Word)
    (pfx : Nat) (args : List Nat) (m : Mach) :
    CodeSimulates fn sym pfx args i pc ∅ m ↔
      cmpHolds i.op (if (rs fn a 0).2 = rd fn dst 0 then 0 else fn.tempVal m a)
        (fn.tempVal m b) = cmpHolds i.op (fn.tempVal m a) (fn.tempVal m b) := by
  have hla := hlocs a (Or.inr (Or.inl ha))
  have hlb := hlocs b (Or.inr (Or.inr hb))
  have hld := hlocs dst (Or.inl hd)
  have hne : (rs fn b 1).2 ≠ rd fn dst 0 :=
    rs_ne_rd (by decide) hlb hld hdb (fun h => absurd h (by decide))
  obtain ⟨m', hrun, heffect⟩ := emitCmp_run sym m hla hlb hne c
  obtain ⟨p, hp, hbin⟩ := binop_cmp hc (fn.tempVal m a) (fn.tempVal m b)
  obtain ⟨p', hp', -⟩ := binop_cmp hc
    (if (rs fn a 0).2 = rd fn dst 0 then 0 else fn.tempVal m a) (fn.tempVal m b)
  rw [cond_holds hc hp'] at heffect
  have hout : emitInsn fn pfx args i = some (emitCmp fn a b dst c, args) := by
    rw [emitInsn_cmp hc, ha, hb, hd]
    rfl
  have hvalue : i.value (fn.layout sym m) (fn.view m pc) = some (ofBool p) := by
    rw [value_cmp hc, ha, hb]
    exact hbin
  rw [hp, hp', Option.some.injEq]
  constructor
  · intro hsim
    have hstep : irStep (fn.layout sym m) fn.code (fn.view m pc) =
        some ⟨pc + 1, Function.update (fn.tempVal m) dst (ofBool p), m.mem⟩ := by
      rw [irStep_computes hi (computes_of_cmp hc), hvalue, hd]
      rfl
    obtain ⟨out, m'', hout', hrun', hsim⟩ := hsim _ hstep
    rw [hout] at hout'
    obtain ⟨rfl, -⟩ := Prod.mk.inj (Option.some.inj hout')
    rw [hrun] at hrun'
    obtain rfl := Option.some.inj hrun'
    have hresult := hsim.result dst ((sets_of_cmp hc).trans hd)
    rw [heffect.value hld] at hresult
    exact ofBool_injective (hresult.trans (Function.update_self ..))
  · rintro rfl σ' hstep
    obtain ⟨w, d, hw, hd', rfl⟩ := irStep_value hi (computes_of_cmp hc) hstep
    obtain rfl := Option.some.inj (hd.symm.trans hd')
    obtain rfl := Option.some.inj (hvalue.symm.trans hw)
    rw [sets_of_cmp hc, hd]
    exact ⟨_, m', hout, hrun, heffect.simulates hfits hld⟩

end Cmp

/-- The code of a comparison is right in every state exactly if its first operand and its
destination are not both spilled, or the comparison is of a temp with itself and one that holds,
or fails, of 0 whatever the other operand is. -/
theorem cmp_code_right_iff (q : Qsort) {fn : Func} {i : Insn} {pc a b d : Nat}
    (hi : fn.code[pc]? = some i) (hop : (cmpMnem i.op).isSome = true) (ha : i.a = some a)
    (hb : i.b = some b) (hd : i.dst = some d)
    (hdef : ∀ t, i.Names t → t < fn.ntemps ∧ ∃ j ∈ fn.code, j.dst = some t)
    (hfits : (regalloc q fn).Fits) (hda : ¬(regalloc q fn).SameLoc d a)
    (hdb : ¬(regalloc q fn).SameLoc d b) (sym : String → Word) (pfx : Nat) (args : List Nat) :
    (∀ m, CodeSimulates (regalloc q fn) sym pfx args i pc ∅ m) ↔
      ¬((regalloc q fn).tempReg a = none ∧ (regalloc q fn).tempReg d = none) ∨
        (regalloc q fn).SameLoc b a ∧ (i.op = .cmpleu ∨ i.op = .cmpgtu) := by
  obtain ⟨c, hc⟩ := Option.isSome_iff_exists.mp hop
  have hlocs : ∀ t, i.Names t → (regalloc q fn).Located t := fun t ht =>
    regalloc_located q (hdef t ht).1 (hdef t ht).2
  have hla := hlocs a (Or.inr (Or.inl ha))
  have hlb := hlocs b (Or.inr (Or.inr hb))
  have hld := hlocs d (Or.inl hd)
  have hiff := cmp_simulates_iff hlocs hfits hi hc ha hb hd hdb sym pfx args
  constructor
  · intro hall
    by_contra hbad
    obtain ⟨hspill, hnot⟩ := not_or.mp hbad
    obtain ⟨hspilla, hspilld⟩ := not_not.mp hspill
    obtain ⟨x, y, hjudged, hxy⟩ := exists_misjudged hc
    obtain ⟨m, -, -, hx, hy⟩ := exists_values hfits hla hlb (x := x) (y := y) (fun hsame =>
      hxy.resolve_right fun hop => hnot ⟨hsame, hop⟩) 0
    have hsame : (rs (regalloc q fn) a 0).2 = rd (regalloc q fn) d 0 := by
      simp [rs, rd, hspilla, hspilld]
    have hall := (hiff m).mp (hall m)
    rw [if_pos hsame, hx, hy] at hall
    exact hjudged hall
  · intro hgood m
    rw [hiff m]
    rcases hgood with hspill | ⟨hsame, hop⟩
    · have hspill' : (regalloc q fn).tempReg a ≠ none ∨ (regalloc q fn).tempReg d ≠ none := by
        tauto
      rw [if_neg (rs_ne_rd (by decide) hla hld hda fun _ => hspill')]
    · rw [tempVal_sameLoc hsame]
      split_ifs
      · exact cmpHolds_zero hop _
      · rfl

/-- Eight temps that are all read at the end. -/
def pressure : Func where
  name := "f"
  slotSize := [4]
  ntemps := 8
  code := (List.range 7).map (fun t => { op := .lic, dst := some t }) ++
    [{ op := .cmpeq, dst := some 7, a := some 6, b := some 0 }] ++
    (List.range 8).map fun t => { op := .stl, slot := some 0, a := some t }

/-- Both operands are 1, and `t6` and `t7` are spilled. -/
def pressureMach : Mach :=
  ⟨fun _ => 1, 0, 0x1000, 0xF00, fun x => if x = 0xFFB then 1 else 0, none⟩

theorem pressure_names (t : Nat)
    (ht : Insn.Names { op := .cmpeq, dst := some 7, a := some 6, b := some 0 } t) :
    t < pressure.ntemps ∧ ∃ j ∈ pressure.code, j.dst = some t := by
  have hcases : t = 7 ∨ t = 6 ∨ t = 0 := by
    rcases ht with h | h | h
    · exact Or.inl (Option.some.inj h).symm
    · exact Or.inr (Or.inl (Option.some.inj h).symm)
    · exact Or.inr (Or.inr (Option.some.inj h).symm)
  rcases hcases with rfl | rfl | rfl
  all_goals decide

/-- The operand `t6` is compared after the destination `t7` has cleared its register. -/
theorem spilled_cmp_goes_wrong :
    ¬CodeSimulates (regalloc .insertion pressure) (fun _ => 0) 1 []
      { op := .cmpeq, dst := some 7, a := some 6, b := some 0 } 7 ∅ pressureMach := by
  have hlocs : ∀ t, Insn.Names { op := .cmpeq, dst := some 7, a := some 6, b := some 0 } t →
      (regalloc .insertion pressure).Located t := fun t ht =>
    regalloc_located .insertion (pressure_names t ht).1 (pressure_names t ht).2
  rw [cmp_simulates_iff hlocs (by unfold Func.Fits; decide) (by decide) rfl rfl
    rfl rfl (by unfold Func.SameLoc; decide)]
  decide

theorem cmp_code_right_iff_pressure :
    (∀ m, CodeSimulates (regalloc .insertion pressure) (fun _ => 0) 1 []
      { op := .cmpeq, dst := some 7, a := some 6, b := some 0 } 7 ∅ m) ↔
      ¬((regalloc .insertion pressure).tempReg 6 = none ∧
          (regalloc .insertion pressure).tempReg 7 = none) ∨
        (regalloc .insertion pressure).SameLoc 0 6 ∧
          (Op.cmpeq = .cmpleu ∨ Op.cmpeq = .cmpgtu) :=
  cmp_code_right_iff .insertion (by decide) rfl rfl rfl rfl pressure_names
    (by unfold Func.Fits; decide) (by unfold Func.SameLoc; decide)
    (by unfold Func.SameLoc; decide) _ _ _

/-! ## Remainders -/

/-- Where the prologue leaves the stack pointer: under the frame and six saved registers. -/
def InFrame (fn : Func) (m : Mach) : Prop := m.sp = m.frameAt (-(frameSize fn : Int) - 24)

/-- The word under the stack pointer. -/
def pushedBytes (m : Mach) : Set Word := {x | ∃ j < 4, x = m.sp - 4 + BitVec.ofNat 32 j}

section Mod

variable {fn : Func} {a b dst : Nat} {i : Insn} {pc : Nat}

theorem InFrame.push (h : InFrame fn m) :
    m.sp - 4 = m.frameAt (-(frameSize fn : Int) - 28) := by
  have hoff : -(frameSize fn : Int) - 28 = -(frameSize fn : Int) - 24 + -4 := by omega
  have hneg : BitVec.ofInt 32 (-4) = -(4 : Word) := by decide
  rw [h, hoff, Mach.frameAt, Mach.frameAt, BitVec.ofInt_add, ← BitVec.add_assoc, hneg]
  exact BitVec.sub_eq_add_neg _ _

theorem InFrame.pushedBytes (h : InFrame fn m) :
    pushedBytes m = m.frameBytes (-(frameSize fn : Int) - 28) := by
  simp only [PortableCompiler.pushedBytes, Mach.frameBytes, h.push, frameAt_add]

theorem InFrame.apart (h : InFrame fn m) (hfits : fn.Fits) {off : Int}
    (hlo : -(frameSize fn : Int) ≤ off) (hhi : off < 8 + 4 * fn.nparams) (hx : x = m.frameAt off) :
    x ∉ PortableCompiler.pushedBytes m := by
  rw [Func.Fits] at hfits
  rw [h.pushedBytes, hx]
  rintro ⟨j, hj, heq⟩
  exact frameAt_ne (by omega) (by omega) (by omega) heq

theorem InFrame.spill_apart (h : InFrame fn m) (hfits : fn.Fits) (ht : fn.Located t)
    (hx : x ∈ fn.spillBytes m t) :
    x ∉ PortableCompiler.pushedBytes m := by
  rcases ht with ⟨r, hreg, -⟩ | ⟨hreg, o, hspill, ⟨c, hc⟩, ho⟩
  · rw [spillBytes_reg hreg] at hx
    exact absurd hx (Set.notMem_empty x)
  · rw [spillBytes_spilled hreg] at hx
    obtain ⟨j, hj, hx⟩ := hx
    have hoff := spillByteOffset_eq hspill
    have hframe : frameSize fn = localsSize fn + fn.nspills * 4 := rfl
    exact h.apart hfits (by omega) (by omega) hx

theorem InFrame.slot_apart (h : InFrame fn m) (hfits : fn.Fits) {k : Nat}
    (hx : x ∈ fn.slotBytes m k) : x ∉ PortableCompiler.pushedBytes m := by
  obtain ⟨j, hj, hx⟩ := hx
  have hlower := slotOffset_lower fn k
  have hupper : slotOffset fn k + j < 8 + 4 * fn.nparams := by
    split_ifs at hj with hk
    · rw [slotOffset, if_pos hk]
      omega
    · have hneg := slotOffset_upper hk hj
      omega
  have hframe : frameSize fn = localsSize fn + fn.nspills * 4 := rfl
  exact h.apart hfits (by omega) hupper hx

theorem emitMod_run (sym : String → Word) (m : Mach) (ha : fn.Located a) (hb : fn.Located b)
    (hdst : fn.Located dst) {quot : Word}
    (hquot : mnem.eval (fn.tempVal m b) (fn.tempVal m a) = some quot) :
    ∃ m', runAsm sym (emitMod fn a b dst mnem) m = some m' ∧
      Effect fn dst (if fn.tempReg dst = none then 0 else fn.tempVal m a - quot * fn.tempVal m b)
        { m with mem := writeL m.mem (m.sp - 4) (fn.tempVal m a) } m' := by
  obtain ⟨m1, hrun, hva, hvb, hkept⟩ := rs_pair_run sym m ha hb
  have hsa : (rs fn a 0).2 ≠ 1 := by
    rcases rs_reg (k := 0) ha with ⟨hr, -⟩ | ⟨hr, -⟩
    · omega
    · omega
  have hsd : rd fn dst 0 ≠ 1 := by
    have hrd := rd_reg hdst
    omega
  -- the divisor in `%d1`
  obtain ⟨m2, hmove, hva2, hvb2, hkept2⟩ : ∃ m2, runAsm sym (moveReg (rs fn b 1).2 1) m1 = some m2 ∧
      m2.d (rs fn a 0).2 = fn.tempVal m a ∧ m2.d 1 = fn.tempVal m b ∧ Kept m m2 := by
    refine ⟨_, moveReg_run sym m1 (rs fn b 1).2 1, ?_⟩
    by_cases hone : (rs fn b 1).2 = 1
    · rw [if_pos hone]
      exact ⟨hva, hone ▸ hvb, hkept⟩
    · rw [if_neg hone, hvb]
      refine ⟨?_, setD_self .., hkept.setD (by decide) _⟩
      rw [← hva]
      exact Function.update_of_ne hsa _ _
  have hbody : ∃ m3, runAsm sym [.move .l (.d (rs fn a 0).2) .push,
      .move .l (.d (rs fn a 0).2) (.d 0), .alu mnem 1 0, .alu .muls 1 0,
      .move .l .pop (.d (rd fn dst 0)), .alu .sub 0 (rd fn dst 0)] m2 = some m3 ∧
      Ready fn dst (if fn.tempReg dst = none then 0 else fn.tempVal m a - quot * fn.tempVal m b)
        { m with mem := writeL m.mem (m.sp - 4) (fn.tempVal m a) } m3 := by
    have hmuls (x y : Word) : Alu.muls.eval x y = some (y * x) := rfl
    have hsub (x y : Word) : Alu.sub.eval x y = some (y - x) := rfl
    have hsp := hkept2.sp
    have hmem := hkept2.mem
    rcases hdst with ⟨r, hreg, hr, -⟩ | ⟨hreg, -⟩
    · have hrd : rd fn dst 0 = r := by rw [rd, hreg, Option.getD_some]
      have hr0 : (0 : Nat) ≠ r := by omega
      refine ⟨{ m2 with
        d := Function.update (Function.update m2.d 0 (quot * fn.tempVal m b)) r
          (fn.tempVal m a - quot * fn.tempVal m b)
        sp := m.sp, mem := writeL m.mem (m.sp - 4) (fn.tempVal m a), cc := none }, ?_, ?_⟩
      · simp [runAsm, exec, execMove, readOperand, writeOperand, Mach.setD, hmuls, hsub, hrd, hsp,
          hmem, hva2, hvb2, hquot, readL_writeL, hr0, Function.update_of_ne, BitVec.sub_add_cancel]
      · constructor
        case value =>
            rw [hrd, hreg, if_neg (Option.some_ne_none r)]
            exact Function.update_self ..
        case d =>
            intro n hn hne
            have hn0 : n ≠ 0 := by omega
            rw [hrd] at hne
            exact (Function.update_of_ne hne _ _).trans
              ((Function.update_of_ne hn0 _ _).trans (hkept2.d n hn))
        case fp => exact hkept2.fp
        case sp => rfl
        case mem => rfl
    · have hrd : rd fn dst 0 = 0 := by rw [rd, hreg, Option.getD_none]
      refine ⟨{ m2 with
        d := Function.update m2.d 0 0
        sp := m.sp, mem := writeL m.mem (m.sp - 4) (fn.tempVal m a), cc := none }, ?_, ?_⟩
      · simp [runAsm, exec, execMove, readOperand, writeOperand, Mach.setD, hmuls, hsub, hrd, hsp,
          hmem, hva2, hvb2, hquot, Function.update_of_ne, BitVec.sub_add_cancel]
      · constructor
        case value =>
            rw [hrd, hreg, if_pos rfl]
            exact Function.update_self 0 (0 : Word) m2.d
        case d =>
            intro n hn hne
            rw [hrd] at hne
            exact (Function.update_of_ne hne _ _).trans (hkept2.d n hn)
        case fp => exact hkept2.fp
        case sp => rfl
        case mem => rfl
  obtain ⟨m3, hrun3, hready⟩ := hbody
  exact result_run ((runAsm_trans ((runAsm_trans hrun).trans hmove)).trans hrun3) hready

/-- The mnemonic of a remainder. -/
def modMnem : Op → Option Alu
  | .mods => some .divs
  | .modu => some .divu
  | _ => none

theorem emitInsn_mod (hmnem : modMnem i.op = some mnem) (pfx : Nat) (args : List Nat) :
    emitInsn fn pfx args i = (do some (emitMod fn (← i.a) (← i.b) (← i.dst) mnem, args)) := by
  unfold emitInsn
  cases hi : i.op <;> rw [hi] at hmnem <;>
    first
    | exact absurd hmnem (Option.some_ne_none _).symm
    | (obtain rfl := Option.some.inj hmnem; rfl)

theorem value_mod (hmnem : modMnem i.op = some mnem) (L : Layout) (σ : Vm) :
    i.value L σ = (do binop i.op (σ.temp (← i.a)) (σ.temp (← i.b))) := by
  unfold Insn.value
  cases hi : i.op <;> rw [hi] at hmnem <;> exact absurd hmnem (Option.some_ne_none _).symm

theorem sets_of_mod (hmnem : modMnem i.op = some mnem) : i.sets = i.dst := by
  rw [Insn.sets]
  cases hi : i.op <;> rw [hi] at hmnem <;>
    first | rfl | exact absurd hmnem (Option.some_ne_none _).symm

theorem computes_of_mod (hmnem : modMnem op = some mnem) :
    op.computes = true := by
  cases op <;> first | rfl | exact absurd hmnem (Option.some_ne_none _).symm

theorem modMnem_eval (hmnem : modMnem op = some mnem) (hw : binop op x y = some w) :
    ∃ quot, mnem.eval y x = some quot ∧ w = x - quot * y := by
  cases op
  case mods =>
      obtain rfl := Option.some.inj hmnem
      simp only [binop, Option.ite_none_left_eq_some] at hw
      have hdiv : binop .divs x y = some (x.sdiv y) := by simp only [binop, if_neg hw.1]
      exact ⟨x.sdiv y, binopMnem_eval rfl hdiv, (Option.some.inj hw.2).symm⟩
  case modu =>
      obtain rfl := Option.some.inj hmnem
      simp only [binop, Option.ite_none_left_eq_some] at hw
      have hdiv : binop .divu x y = some (x / y) := by simp only [binop, if_neg hw.1]
      exact ⟨x / y, binopMnem_eval rfl hdiv, (Option.some.inj hw.2).symm⟩
  all_goals exact absurd hmnem (Option.some_ne_none _).symm

theorem Effect.simulates_pushed {m' : Mach} {v : Word} (hframe : InFrame fn m) (hfits : fn.Fits)
    (hdst : fn.Located dst) (h : Effect fn dst w { m with mem := writeL m.mem (m.sp - 4) v } m') :
    Simulates fn (some dst) (pushedBytes m)
      ⟨pc, Function.update (fn.tempVal m) dst w, m.mem⟩ m m' := by
  have hpushed {x : Word} (hx : x ∉ pushedBytes m) : writeL m.mem (m.sp - 4) v x = m.mem x := by
    rw [hframe.pushedBytes] at hx
    rw [hframe.push]
    exact writeL_other hx
  have hmem {x : Word} (hx : x ∉ pushedBytes m) (hx' : x ∉ fn.spillBytes m dst) :
      m'.mem x = m.mem x := (h.mem_other hx').trans (hpushed hx)
  constructor
  case result =>
      intro d hd
      obtain rfl := Option.some.inj hd
      exact (h.value hdst).trans (Function.update_self dst w (fn.tempVal m)).symm
  case temps =>
      intro t ht hne _
      have hne := hne dst rfl
      have htd : t ≠ dst := by
        rintro rfl
        exact hne ⟨rfl, rfl⟩
      have hbase : fn.tempVal { m with mem := writeL m.mem (m.sp - 4) v } t = fn.tempVal m t := by
        rcases id ht with ⟨r, hreg, -⟩ | ⟨hreg, -⟩
        · simp only [Func.tempVal, hreg]
        · simp only [Func.tempVal, hreg]
          apply readL_frame_congr
          intro x hx
          rw [← spillBytes_spilled hreg] at hx
          exact hpushed (hframe.spill_apart hfits ht hx)
      exact ((h.temp_other hfits hdst ht hne).trans hbase).trans
        (Function.update_of_ne htd ..).symm
  case mem => exact fun x hx hx' => hmem hx (hx' dst rfl)
  case slots => exact fun k x hx => hmem (hframe.slot_apart hfits hx) (slotBytes_apart hfits hdst
    hx)
  case fp => exact h.fp
  case sp => exact h.sp

theorem mod_simulates_iff (hlocs : ∀ t, i.Names t → fn.Located t) (hfits : fn.Fits)
    (hi : fn.code[pc]? = some i) (hmnem : modMnem i.op = some mnem) (ha : i.a = some a)
    (hb : i.b = some b) (hd : i.dst = some dst) (sym : String → Word) (pfx : Nat) (args : List Nat)
    (hframe : InFrame fn m) :
    CodeSimulates fn sym pfx args i pc (pushedBytes m) m ↔
      ∀ w, binop i.op (fn.tempVal m a) (fn.tempVal m b) = some w → fn.tempReg dst = none →
        w = 0 := by
  have hla := hlocs a (Or.inr (Or.inl ha))
  have hlb := hlocs b (Or.inr (Or.inr hb))
  have hld := hlocs dst (Or.inl hd)
  have hout : emitInsn fn pfx args i = some (emitMod fn a b dst mnem, args) := by
    rw [emitInsn_mod hmnem, ha, hb, hd]
    rfl
  have hvalue : i.value (fn.layout sym m) (fn.view m pc) =
      binop i.op (fn.tempVal m a) (fn.tempVal m b) := by
    rw [value_mod hmnem, ha, hb]
    rfl
  constructor
  · intro hsim w hw hspill
    obtain ⟨quot, hquot, -⟩ := modMnem_eval hmnem hw
    obtain ⟨m', hrun, heffect⟩ := emitMod_run sym m hla hlb hld hquot
    rw [if_pos hspill] at heffect
    have hstep : irStep (fn.layout sym m) fn.code (fn.view m pc) =
        some ⟨pc + 1, Function.update (fn.tempVal m) dst w, m.mem⟩ := by
      rw [irStep_computes hi (computes_of_mod hmnem), hvalue, hw, hd]
      rfl
    obtain ⟨out, m'', hout', hrun', hsim⟩ := hsim _ hstep
    rw [hout] at hout'
    obtain ⟨rfl, -⟩ := Prod.mk.inj (Option.some.inj hout')
    rw [hrun] at hrun'
    obtain rfl := Option.some.inj hrun'
    have hresult := hsim.result dst ((sets_of_mod hmnem).trans hd)
    rw [heffect.value hld] at hresult
    exact (hresult.trans (Function.update_self dst w (fn.tempVal m))).symm
  · intro hzero σ' hstep
    obtain ⟨w, d, hw, hd', rfl⟩ := irStep_value hi (computes_of_mod hmnem) hstep
    obtain rfl := Option.some.inj (hd.symm.trans hd')
    rw [hvalue] at hw
    obtain ⟨quot, hquot, hrem⟩ := modMnem_eval hmnem hw
    obtain ⟨m', hrun, heffect⟩ := emitMod_run sym m hla hlb hld hquot
    have hresult : (if fn.tempReg dst = none then 0
        else fn.tempVal m a - quot * fn.tempVal m b) = w := by
      split
      next hspill => exact (hzero w hw hspill).symm
      next => exact hrem.symm
    rw [hresult] at heffect
    rw [sets_of_mod hmnem, hd]
    exact ⟨_, m', hout, hrun, heffect.simulates_pushed hframe hfits hld⟩

theorem mod_self (hmnem : modMnem op = some mnem) (hw : binop op x x = some w) : w = 0 := by
  cases op
  case mods =>
      simp only [binop, Option.ite_none_left_eq_some] at hw
      obtain ⟨hx, hw⟩ := hw
      have hx : x ≠ 0#32 := hx
      rw [BitVec.sdiv_self] at hw
      simpa [hx] using hw.symm
  case modu =>
      simp only [binop, Option.ite_none_left_eq_some] at hw
      obtain ⟨hx, hw⟩ := hw
      have hx : x ≠ 0#32 := hx
      rw [BitVec.udiv_self] at hw
      simpa [hx] using hw.symm
  all_goals exact absurd hmnem (Option.some_ne_none _).symm

end Mod

/-- The code of a remainder is right in every state of the frame exactly if the destination is
in a register, or the operands are one. -/
theorem mod_code_right_iff (q : Qsort) {fn : Func} {i : Insn} {pc a b d : Nat}
    (hi : fn.code[pc]? = some i) (hop : i.op = .mods ∨ i.op = .modu) (ha : i.a = some a)
    (hb : i.b = some b) (hd : i.dst = some d)
    (hdef : ∀ t, i.Names t → t < fn.ntemps ∧ ∃ j ∈ fn.code, j.dst = some t)
    (hfits : (regalloc q fn).Fits) (sym : String → Word) (pfx : Nat) (args : List Nat) :
    (∀ m, InFrame (regalloc q fn) m →
      CodeSimulates (regalloc q fn) sym pfx args i pc (pushedBytes m) m) ↔
      (regalloc q fn).tempReg d ≠ none ∨ (regalloc q fn).SameLoc b a := by
  obtain ⟨mnem, hmnem⟩ : ∃ mnem, modMnem i.op = some mnem := by
    rcases hop with hop | hop
    · exact ⟨.divs, by rw [hop]; rfl⟩
    · exact ⟨.divu, by rw [hop]; rfl⟩
  have hlocs : ∀ t, i.Names t → (regalloc q fn).Located t := fun t ht =>
    regalloc_located q (hdef t ht).1 (hdef t ht).2
  have hla := hlocs a (Or.inr (Or.inl ha))
  have hlb := hlocs b (Or.inr (Or.inr hb))
  constructor
  · intro hall
    by_contra hbad
    obtain ⟨hspill, hdiff⟩ := not_or.mp hbad
    obtain ⟨m, hsp, hfp, hx, hy⟩ := exists_values hfits hla hlb (x := 1) (y := 2)
      (fun hsame => absurd hsame hdiff) (BitVec.ofInt 32 (-(frameSize (regalloc q fn) : Int) - 24))
    have hframe : InFrame (regalloc q fn) m := by
      rw [InFrame, Mach.frameAt, hsp, hfp]
      exact (BitVec.zero_add _).symm
    have hzero := (mod_simulates_iff hlocs hfits hi hmnem ha hb hd sym pfx args hframe).mp
      (hall m hframe) 1
    rw [hx, hy] at hzero
    have hrem : binop i.op 1 2 = some 1 := by
      rcases hop with hop | hop
      · rw [hop]
        decide
      · rw [hop]
        decide
    exact absurd (hzero hrem (not_not.mp hspill)) (by decide)
  · intro hgood m hframe
    rw [mod_simulates_iff hlocs hfits hi hmnem ha hb hd sym pfx args hframe]
    intro w hw hspill
    have hsame := hgood.resolve_left fun h => h hspill
    rw [tempVal_sameLoc hsame] at hw
    exact mod_self hmnem hw

/-- `t7 = t6 % t0` under the same pressure -/
def modPressure : Func where
  name := "f"
  slotSize := [4]
  ntemps := 8
  code := (List.range 7).map (fun t => { op := .lic, dst := some t }) ++
    [{ op := .modu, dst := some 7, a := some 6, b := some 0 }] ++
    (List.range 8).map fun t => { op := .stl, slot := some 0, a := some t }

/-- The dividend in `t6` is 1 and the divisor in `t0` is 2. -/
def modMach : Mach :=
  ⟨fun _ => 2, 0, 0x1000, 0xFDC, fun x => if x = 0xFFB then 1 else 0, none⟩

theorem modPressure_names (t : Nat)
    (ht : Insn.Names { op := .modu, dst := some 7, a := some 6, b := some 0 } t) :
    t < modPressure.ntemps ∧ ∃ j ∈ modPressure.code, j.dst = some t := by
  have hcases : t = 7 ∨ t = 6 ∨ t = 0 := by
    rcases ht with h | h | h
    · exact Or.inl (Option.some.inj h).symm
    · exact Or.inr (Or.inl (Option.some.inj h).symm)
    · exact Or.inr (Or.inr (Option.some.inj h).symm)
  rcases hcases with rfl | rfl | rfl
  all_goals decide

/-- The remainder of 1 by 2 comes out as 0: the dividend is popped into the register that holds
the product. -/
theorem spilled_mod_goes_wrong :
    InFrame (regalloc .insertion modPressure) modMach ∧
      ¬CodeSimulates (regalloc .insertion modPressure) (fun _ => 0) 1 []
        { op := .modu, dst := some 7, a := some 6, b := some 0 } 7 (pushedBytes modMach)
        modMach := by
  have hlocs : ∀ t, Insn.Names { op := .modu, dst := some 7, a := some 6, b := some 0 } t →
      (regalloc .insertion modPressure).Located t := fun t ht =>
    regalloc_located .insertion (modPressure_names t ht).1 (modPressure_names t ht).2
  have hframe : InFrame (regalloc .insertion modPressure) modMach := by
    unfold InFrame
    decide +kernel
  refine ⟨hframe, fun hsim => ?_⟩
  have hzero := (mod_simulates_iff hlocs (by unfold Func.Fits; decide)
    (by decide) rfl rfl rfl rfl _ _ _ hframe).mp hsim 1 (by decide)
    (by decide)
  exact absurd hzero (by decide)

theorem mod_code_right_iff_pressure :
    (∀ m, InFrame (regalloc .insertion modPressure) m →
      CodeSimulates (regalloc .insertion modPressure) (fun _ => 0) 1 []
        { op := .modu, dst := some 7, a := some 6, b := some 0 } 7 (pushedBytes m) m) ↔
      (regalloc .insertion modPressure).tempReg 7 ≠ none ∨
        (regalloc .insertion modPressure).SameLoc 0 6 :=
  mod_code_right_iff .insertion (by decide) (Or.inr rfl) rfl rfl rfl modPressure_names
    (by unfold Func.Fits; decide) _ _ _

end MechanicalResearcher.PortableCompiler
