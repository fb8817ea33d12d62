import Mathlib.Tactic.IntervalCases
import MechanicalResearcher.ColdFire.Operands

/-!
# The memory operands of the instructions

Which operands in memory an instruction has, from its opword and the word behind it, and that it
leaves the address registers where the accesses to these operands do, but for the registers that
it loads.
-/

namespace MechanicalResearcher.ColdFire

variable {μ : Type} {b : Bus μ}

/-! ## Which operands an instruction has -/

/-- The operands in the order of their accesses, and the address registers that the instruction
writes besides. -/
structure Uses where
  operands : List Operand
  loads : Reg → Bool := fun _ => false

section

variable (op ext : Half)

/-- One operand, at the effective address of the opword. -/
def useEa (f : Format) (loads : Reg → Bool := fun _ => false) : Option Uses :=
  some ⟨[⟨eaMode op, eaReg op, f⟩], loads⟩

def useSized : Option Uses :=
  match decodeSize (sizeBits op) with
  | none => none
  | some sz => useEa op (.int sz)

def useBit : Option Uses := if eaMode op = 0 then none else useEa op (.int .byte)

def uses0 : Option Uses :=
  if (op >>> 8) &&& 0xFE = 0x08 then useBit op
  else if op &&& 0xFFF8 = 0x04C0 then none
  else if op &&& 0xFFF8 = 0x02C0 then none
  else useSized op

def usesMove (sz : Size) : Option Uses :=
  let src : Operand := ⟨eaMode op, eaReg op, .int sz⟩
  if opmode op = 1 then some ⟨[src], fun i => i = regDx op⟩
  else some ⟨[src, ⟨opmode op, regDx op, .int sz⟩], fun _ => false⟩

/-- MOVEM loads the listed registers beside `An`. -/
def usesMovem : Option Uses :=
  let toRegs := op.getLsbD 10
  if op.getLsbD 6 = false then none
  else if eaMode op = 0 then none
  else if eaMode op = 4 ∧ toRegs = false then useEa op (.push 4 (listed ext.reverse).length)
  else if eaMode op = 3 ∧ toRegs = true then
    useEa op (.load ext) fun i => i ≠ eaReg op ∧ 8 + i.toNat ∈ listed ext
  else none

/-- LEA, PEA, JSR and JMP have an address, but no operand in memory.  In user mode a privileged
instruction has none either; MOVE to SR may change the stack pointer. -/
def uses4 (supervisor : Bool) : Option Uses :=
  if op = 0x4AC8 then none
  else if op = 0x4AFC then none
  else if op &&& 0xFFC0 = 0x4AC0 then useEa op (.int .byte)
  else if op &&& 0xFF00 = 0x4A00 then useSized op
  else if op &&& 0xFF00 = 0x4200 then useSized op
  else if op &&& 0xFFF8 = 0x4480 then none
  else if op &&& 0xFFF8 = 0x4080 then none
  else if op &&& 0xFFF8 = 0x4680 then none
  else if op &&& 0xFFF8 = 0x4880 then none
  else if op &&& 0xFFF8 = 0x48C0 then none
  else if op &&& 0xFFF8 = 0x49C0 then none
  else if op &&& 0xFFF8 = 0x4840 then none
  else if op &&& 0xFFC0 = 0x4840 then none
  else if op &&& 0xFB80 = 0x4880 then usesMovem op ext
  else if op &&& 0xF1C0 = 0x41C0 then none
  else if op &&& 0xFFF8 = 0x4E50 then none
  else if op &&& 0xFFF8 = 0x4E58 then none
  else if op = 0x4E71 then none
  else if op = 0x4E75 then none
  else if op = 0x4E73 then none
  else if op = 0x4E72 then none
  else if op &&& 0xFFF0 = 0x4E40 then none
  else if op &&& 0xFFC0 = 0x4E80 then none
  else if op &&& 0xFFC0 = 0x4EC0 then none
  else if op &&& 0xFFC0 = 0x40C0 then if supervisor then useEa op (.int .word) else none
  else if op &&& 0xFFC0 = 0x44C0 then useEa op (.int .word)
  else if op &&& 0xFFC0 = 0x46C0 then
    if supervisor then useEa op (.int .word) fun i => i = 7 else none
  else if op &&& 0xFFF0 = 0x4E60 then none
  else if op &&& 0xFFC0 = 0x4C00 then useEa op (.int .long)
  else if op &&& 0xFFC0 = 0x4C40 then useEa op (.int .long)
  else none

def uses5 : Option Uses :=
  if op &&& 0xF0C0 = 0x50C0 then none else if eaMode op = 1 then none else useSized op

def uses7 : Option Uses :=
  if op.getLsbD 8 = false then none
  else useEa op (.int (if op.getLsbD 6 then .word else .byte))

def uses8 : Option Uses :=
  if opmode op = 3 ∨ opmode op = 7 then useEa op (.int .word) else useSized op

/-- SUBA and ADDA write an address register. -/
def uses9D : Option Uses :=
  if opmode op = 7 then useEa op (.int .long) fun i => i = regDx op
  else if opmode op = 3 then useEa op (.int .word) fun i => i = regDx op
  else if (opmode op).getLsbD 2 = true ∧ eaMode op = 0 then none
  else useSized op

def usesA : Option Uses :=
  if opmode op = 5 then
    if eaMode op = 0 then none else if eaMode op = 1 then none else useEa op (.int .long)
  else none

def usesB : Option Uses :=
  if opmode op = 3 then useEa op (.int .word)
  else if opmode op = 7 then useEa op (.int .long)
  else useSized op

/-- EXG has the modes 0 and 1. -/
def usesC : Option Uses :=
  if opmode op = 3 then useEa op (.int .word)
  else if opmode op = 7 then useEa op (.int .word)
  else if eaMode op = 0 ∨ eaMode op = 1 then none
  else useSized op

/-- The format of a floating-point move. -/
def fpFormat (store : Bool) : Option Format :=
  match (ext.extractLsb' 10 3).toNat with
  | 0 => some (.int .long)
  | 1 => some (.int .long)
  | 4 => some (.int .word)
  | 5 => some (.double store)
  | 6 => some (.int .byte)
  | _ => none

def usesF : Option Uses :=
  if regDx op ≠ 1 then none
  else if op.getLsbD 7 then none
  else
    match (ext.extractLsb' 13 3).toNat with
    | 2 => (fpFormat ext false).bind fun f => useEa op f
    | 3 => (fpFormat ext true).bind fun f => useEa op f
    | 4 => useEa op (.controls (ext.extractLsb' 10 3))
    | 5 => useEa op (.controls (ext.extractLsb' 10 3))
    | 7 => if eaMode op = 4 then useEa op (.push 8 (fmovemRegs ext).length) else none
    | _ => none

/-- The operands in memory of an instruction, if it has any. -/
def uses (supervisor : Bool) : Option Uses :=
  match (op.extractLsb' 12 4).toNat with
  | 0x0 => if op &&& 0x0100 ≠ 0 then useBit op else uses0 op
  | 0x1 => usesMove op .byte
  | 0x2 => usesMove op .long
  | 0x3 => usesMove op .word
  | 0x4 => uses4 op ext supervisor
  | 0x5 => uses5 op
  | 0x6 => none
  | 0x7 => uses7 op
  | 0x8 => uses8 op
  | 0x9 => uses9D op
  | 0xA => usesA op
  | 0xB => usesB op
  | 0xC => usesC op
  | 0xD => uses9D op
  | 0xE => none
  | _ => usesF op ext

end

/-! ## What is left of the accesses -/

/-- The states of the operands, one access after the other. -/
def accessAll (b : Bus μ) (s : Cpu μ) (os : List Operand) : Cpu μ :=
  os.foldl (fun s o => (access b s o).state) s

/-- The address registers are where the accesses left them, but for those that the instruction
loads, and the stack pointer when it takes an exception. -/
structure Keeps (loads : Reg → Bool) (u s : Cpu μ) : Prop where
  kept : ∀ i, loads i = false → (i = 7 → s.taken = u.taken) → s.a i = u.a i

/-- What the accesses to operands act on. -/
def view (s : Cpu μ) : (Reg → Word) × List (Taken μ) := (s.a, s.taken)

section

variable {loads : Reg → Bool} {s s' u : Cpu μ}

theorem Keeps.of_view (h : view s' = view u) : Keeps loads u s' where
  kept i _ _ := congrFun (congrArg Prod.fst h) i

theorem keeps_raise (h : view s' = view u) (vector : Word) (ea : Bool) :
    Keeps loads u (raise b s' vector ea) := by
  constructor
  intro i _ h7
  have ha : s'.a = u.a := congrArg Prod.fst h
  have htaken : s'.taken = u.taken := congrArg Prod.snd h
  cases hin : s'.inException with
  | false =>
    obtain ⟨trace, heq⟩ := raise_eq (b := b) hin vector ea
    rw [heq] at h7 ⊢
    have hne : i ≠ 7 := by
      intro hi
      have hlen := congrArg List.length (h7 hi)
      rw [htaken] at hlen
      exact absurd hlen (Nat.succ_ne_self _)
    rw [← ha]
    exact Function.update_of_ne hne ..
  | true =>
    obtain ⟨trace, heq⟩ := raise_double (b := b) hin vector ea
    rw [heq, ← ha]

variable (s)

@[simp] theorem view_setFp (i : Reg) (v : Double) : view (setFp s i v) = view s := rfl
@[simp] theorem view_setFpcc (v : Word) : view (setFpcc s v) = view s := rfl
@[simp] theorem view_setFlag (f : Word) (c : Bool) : view (setFlag s f c) = view s := rfl
@[simp] theorem view_setNz (r : Word) (sz : Size) : view (setNz s r sz) = view s := by
  simp only [setNz, view_setFlag]
@[simp] theorem view_setFlagsMove (r : Word) (sz : Size) :
    view (setFlagsMove s r sz) = view s := view_setNz s r sz
@[simp] theorem view_setFlagsAdd (x y r : Word) (sz : Size) :
    view (setFlagsAdd s x y r sz) = view s := by
  simp only [setFlagsAdd, view_setFlag, view_setNz]
@[simp] theorem view_setFlagsCmp (x y r : Word) (sz : Size) :
    view (setFlagsCmp s x y r sz) = view s := by
  simp only [setFlagsCmp, view_setFlag, view_setNz]
@[simp] theorem view_setFlagsSub (x y r : Word) (sz : Size) :
    view (setFlagsSub s x y r sz) = view s := by
  simp only [setFlagsSub, view_setFlag, view_setFlagsCmp]
@[simp] theorem view_fetch16 : view (fetch16 b s).2 = view s := rfl

variable {s}

theorem view_writeEa {loc : EaLoc} (h : loc.type ≠ .addrReg) (sz : Size) (v : Word) :
    view (writeEa b s loc sz v) = view s := by
  unfold writeEa
  cases htype : loc.type with
  | addrReg => exact absurd htype h
  | dataReg => rfl
  | immediate => rfl
  | memory => cases sz <;> rfl

end

/-! ## The instructions -/

/-- An instruction with the operands of `t`, if one of these is (An)+ or -(An). -/
def Follows (b : Bus μ) (s : Cpu μ) (t : Option Uses) (s' : Cpu μ) : Prop :=
  ∀ u ∈ t, (∃ o ∈ u.operands, o.Auto) → Keeps u.loads (accessAll b s u.operands) s'

section

variable {s s' s'' : Cpu μ} {op ext : Half}

theorem Follows.none : Follows b s none s' := fun _ hu => nomatch hu

theorem Follows.ite {c : Prop} [Decidable c] {t t' : Option Uses} (h : c → Follows b s t s')
    (h' : ¬c → Follows b s t' s'') : Follows b s (if c then t else t') (if c then s' else s'') := by
  by_cases hc : c
  · rw [if_pos hc, if_pos hc]
    exact h hc
  · rw [if_neg hc, if_neg hc]
    exact h' hc

theorem Follows.ea {f : Format} {loads : Reg → Bool}
    (h : eaMode op = 3 ∨ eaMode op = 4 →
      Keeps loads (access b s ⟨eaMode op, eaReg op, f⟩).state s') :
    Follows b s (useEa op f loads) s' := by
  rintro u hu ⟨o, ho, hauto⟩
  cases hu
  obtain rfl := List.mem_singleton.mp ho
  exact h hauto

theorem Follows.sized {k : Size → Cpu μ}
    (h : ∀ sz, eaMode op = 3 ∨ eaMode op = 4 →
      Keeps (fun _ => false) (access b s ⟨eaMode op, eaReg op, .int sz⟩).state (k sz)) :
    Follows b s (useSized op)
      (match decodeSize (sizeBits op) with
        | .none => illegal b s
        | .some sz => k sz) := by
  unfold useSized
  cases decodeSize (sizeBits op) with
  | none => exact .none
  | some sz => exact .ea (h sz)

/-! ### The operand -/

variable {mode reg : Reg} (hauto : mode = 3 ∨ mode = 4) (sz : Size)

include hauto

theorem decodeEa_memory : (decodeEa b s mode reg sz).1.type ≠ .addrReg := by
  rcases hauto with rfl | rfl <;> exact fun h => nomatch h

theorem view_decodeEa (h : view s' = view s) :
    view (decodeEa b s' mode reg sz).2 = view (decodeEa b s mode reg sz).2 := by
  obtain ⟨ha, htaken⟩ := Prod.mk.inj h
  rcases hauto with rfl | rfl
  · change (Function.update s'.a reg (s'.a reg + eaStep reg sz), s'.taken) = _
    rw [ha, htaken]
    rfl
  · change (Function.update s'.a reg (s'.a reg - eaStep reg sz), s'.taken) = _
    rw [ha, htaken]
    rfl

theorem view_writeOperand (h : view s' = view s) (s'' : Cpu μ) (v : Word)
    (hs'' : view s'' = view (decodeEa b s' mode reg sz).2) :
    view (writeEa b s'' (decodeEa b s' mode reg sz).1 sz v) =
      view (decodeEa b s mode reg sz).2 := by
  rw [view_writeEa (decodeEa_memory hauto sz), hs'', view_decodeEa hauto sz h]

omit hauto

end

section

variable {s s' : Cpu μ} {op ext : Half} (hauto : eaMode op = 3 ∨ eaMode op = 4)
  {loads : Reg → Bool} {sz : Size}

include hauto

theorem keeps_bitMemory (h : view s' = view s) (bitOp : BitVec 2) (bitnum : Word) :
    Keeps loads (access b s ⟨eaMode op, eaReg op, .int .byte⟩).state
      (bitMemory b s' bitOp (eaMode op) (eaReg op) bitnum) := by
  refine .of_view ?_
  unfold bitMemory
  dsimp only
  split
  · exact view_decodeEa hauto .byte h
  · exact view_writeOperand hauto .byte h _ _ rfl

theorem keeps_bitInsn (h : view s' = view s) (bitnum : Word) :
    Keeps loads (access b s ⟨eaMode op, eaReg op, .int .byte⟩).state
      (bitInsn b s' op bitnum) := by
  have hmode : eaMode op ≠ 0 := by
    rcases hauto with h3 | h4
    · rw [h3]
      decide
    · rw [h4]
      decide
  rw [bitInsn, if_neg hmode]
  exact keeps_bitMemory hauto h _ _

theorem keeps_immediateInsn (sz : Size) :
    Keeps loads (access b s ⟨eaMode op, eaReg op, .int sz⟩).state (immediateInsn b s op sz) := by
  have himm : view (fetchImm b s sz).2 = view s := by cases sz <;> rfl
  have hwrite (v : Word) := view_writeOperand (b := b) hauto sz himm
    (decodeEa b (fetchImm b s sz).2 (eaMode op) (eaReg op) sz).2 v rfl
  have hdecode := @view_decodeEa _ b _ _ _ (eaReg op) hauto sz himm
  unfold immediateInsn
  dsimp only
  split
  · exact .of_view ((view_setFlagsMove ..).trans (hwrite _))
  · exact .of_view ((view_setFlagsMove ..).trans (hwrite _))
  · exact .of_view ((view_setFlagsSub ..).trans (hwrite _))
  · exact .of_view ((view_setFlagsAdd ..).trans (hwrite _))
  · exact .of_view ((view_setFlagsMove ..).trans (hwrite _))
  · exact .of_view ((view_setFlagsCmp ..).trans hdecode)
  · exact keeps_raise hdecode _ _

theorem keeps_tas :
    Keeps loads (access b s ⟨eaMode op, eaReg op, .int .byte⟩).state (tas b s op) :=
  .of_view (view_writeOperand hauto .byte rfl _ _ (view_setFlagsMove ..))

theorem keeps_clr (sz : Size) :
    let s' := writeEa b (decodeEa b s (eaMode op) (eaReg op) sz).2
      (decodeEa b s (eaMode op) (eaReg op) sz).1 sz 0
    Keeps loads (access b s ⟨eaMode op, eaReg op, .int sz⟩).state
      { s' with sr := (s'.sr &&& ~~~(srN ||| srV ||| srC)) ||| srZ } := by
  have hwrite := view_writeOperand (b := b) hauto sz (rfl : view s = view s)
    (decodeEa b s (eaMode op) (eaReg op) sz).2 0 rfl
  exact .of_view hwrite

theorem keeps_moveFromSr :
    Keeps loads (access b s ⟨eaMode op, eaReg op, .int .word⟩).state (moveFromSr b op s) :=
  .of_view (view_writeOperand hauto .word rfl _ _ rfl)

theorem view_decodeExt (sz : Size) :
    view (decodeEa b (fetch16 b s).2 (eaMode op) (eaReg op) sz).2 =
      view (decodeEa b s (eaMode op) (eaReg op) sz).2 :=
  view_decodeEa hauto sz (view_fetch16 s)

theorem keeps_mulL :
    Keeps loads (access b s ⟨eaMode op, eaReg op, .int .long⟩).state (mulL b s op) := by
  have hdecode := view_decodeExt (b := b) (s := s) hauto .long
  exact .of_view ((view_setFlagsMove ..).trans hdecode)

theorem keeps_divL :
    Keeps loads (access b s ⟨eaMode op, eaReg op, .int .long⟩).state (divL b s op) := by
  have hdecode := view_decodeExt (b := b) (s := s) hauto .long
  have hstore (x y : Reg) (v w : Word) : view (storeQuotient
      (decodeEa b (fetch16 b s).2 (eaMode op) (eaReg op) .long).2 x y v w) =
      view (decodeEa b (fetch16 b s).2 (eaMode op) (eaReg op) .long).2 := by
    unfold storeQuotient
    dsimp only
    split_ifs <;> rfl
  unfold divL
  dsimp only
  split_ifs
  · exact keeps_raise hdecode _ _
  · exact .of_view hdecode
  · exact .of_view ((hstore ..).trans hdecode)
  · exact .of_view ((hstore ..).trans hdecode)

theorem keeps_aluToEa {f : Alu μ} (hf : ∀ s x y r sz, view (f.flags s x y r sz) = view s)
    (sz : Size) :
    Keeps loads (access b s ⟨eaMode op, eaReg op, .int sz⟩).state (aluToEa b f s op sz) :=
  .of_view ((hf ..).trans (view_writeOperand hauto sz rfl _ _ rfl))

theorem keeps_addqSubq (sz : Size) :
    Keeps loads (access b s ⟨eaMode op, eaReg op, .int sz⟩).state (addqSubq b s op sz) := by
  have hmode : eaMode op ≠ 1 := by
    rcases hauto with h3 | h4
    · rw [h3]
      decide
    · rw [h4]
      decide
  have hwrite (v : Word) := view_writeOperand (b := b) hauto sz (rfl : view s = view s)
    (decodeEa b s (eaMode op) (eaReg op) sz).2 v rfl
  unfold addqSubq
  dsimp only
  rw [if_neg hmode]
  split_ifs
  · exact .of_view ((view_setFlagsSub ..).trans (hwrite _))
  · exact .of_view ((view_setFlagsAdd ..).trans (hwrite _))

theorem keeps_mov3q :
    Keeps loads (access b s ⟨eaMode op, eaReg op, .int .long⟩).state (mov3q b s op) := by
  have hmode : eaMode op ≠ 0 ∧ eaMode op ≠ 1 := by
    rcases hauto with h3 | h4
    · rw [h3]
      decide
    · rw [h4]
      decide
  have hwrite (v : Word) := view_writeOperand (b := b) hauto .long (rfl : view s = view s)
    (decodeEa b s (eaMode op) (eaReg op) .long).2 v rfl
  unfold mov3q
  dsimp only
  rw [if_neg hmode.1, if_neg hmode.2]
  exact .of_view ((view_setFlagsMove ..).trans (hwrite _))

omit hauto

theorem Keeps.of_setA {i : Reg} {v : Word} {u : Cpu μ} (hloads : loads i = true) :
    Keeps loads u (u.setA i v) := by
  constructor
  intro k hk _
  refine a_setA_of_ne u ?_ v
  rintro rfl
  rw [hloads] at hk
  cases hk

theorem keeps_moveToSr :
    Keeps (fun i => i = 7) (access b s ⟨eaMode op, eaReg op, .int .word⟩).state
      (moveToSr b op s) := by
  constructor
  intro i hi _
  have hne : i ≠ 7 := by simpa using hi
  unfold moveToSr
  dsimp only
  rw [updateSp_eq]
  exact Function.update_of_ne hne ..

theorem keeps_divW :
    Keeps loads (access b s ⟨eaMode op, eaReg op, .int .word⟩).state (divW b s op) := by
  unfold divW
  dsimp only
  split_ifs
  · exact keeps_raise rfl _ _
  · exact .of_view rfl
  · exact .of_view rfl
  · exact .of_view (view_setFlagsMove ..)
  · exact .of_view (view_setFlagsMove ..)

theorem decodeSpecial_type (s : Cpu μ) (reg : Reg) (sz : Size) :
    (decodeSpecial b s reg sz).1.type ≠ .addrReg := by
  unfold decodeSpecial
  split
  case h_5 => cases sz <;> exact fun h => nomatch h
  all_goals exact fun h => nomatch h

theorem decodeEa_type (s : Cpu μ) {mode reg : Reg} {sz : Size} (hmode : mode ≠ 1) :
    (decodeEa b s mode reg sz).1.type ≠ .addrReg := by
  unfold decodeEa
  split
  case h_2 h1 => exact absurd (BitVec.eq_of_toNat_eq h1) hmode
  case h_7 =>
      dsimp only
      split_ifs <;> exact fun h => nomatch h
  case h_8 => exact decodeSpecial_type s reg sz
  all_goals exact fun h => nomatch h

theorem follows_execMove (sz : Size) : Follows b s (usesMove op sz) (execMove b s op sz) := by
  unfold usesMove execMove
  dsimp only
  split_ifs with hmode hsz
  · rintro u hu _
    cases hu
    exact keeps_raise rfl _ _
  · rintro u hu _
    cases hu
    exact .of_setA (decide_eq_true rfl)
  · rintro u hu _
    cases hu
    exact .of_view ((view_setFlagsMove ..).trans (view_writeEa (decodeEa_type _ hmode) _ _))

theorem follows_aluInsn {f : Alu μ} (hf : ∀ s x y r sz, view (f.flags s x y r sz) = view s) :
    Follows b s (useSized op) (aluInsn b f s op) := by
  refine .sized fun sz hauto => ?_
  split_ifs
  · exact keeps_aluToEa hauto hf sz
  · exact .of_view (hf ..)

theorem follows_bit {s' : Cpu μ} (h : view s' = view s) (bitnum : Word) :
    Follows b s (useBit op) (bitInsn b s' op bitnum) := by
  unfold useBit
  split_ifs
  · exact .none
  · exact .ea fun hauto => keeps_bitInsn hauto h bitnum

theorem follows_execGroup0 : Follows b s (uses0 op) (execGroup0 b s op) := by
  refine .ite (fun _ => ?_) fun _ => ?_
  · have hfetch : view (fetch16 b s).2 = view s := view_fetch16 s
    exact follows_bit hfetch _
  refine .ite (fun _ => .none) fun _ => .ite (fun _ => .none) fun _ => ?_
  exact .sized fun sz hauto => keeps_immediateInsn hauto sz

/-! ### Lists of registers -/

theorem a_pushRegs {reg : Reg} (regs : List Nat) :
    view (regs.foldl (pushReg b reg) s) =
      view (s.setA reg (s.a reg - BitVec.ofNat 32 (4 * regs.length))) := by
  induction regs generalizing s with
  | nil =>
    rw [List.length_nil, Nat.mul_zero, BitVec.sub_zero]
    exact Prod.ext (Function.update_eq_self ..).symm rfl
  | cons r regs ih =>
    have hstack : (pushReg b reg s r).a reg = s.a reg - 4 := a_setA ..
    rw [List.foldl_cons, ih, hstack, BitVec.sub_sub, ← ofNat_longs]
    exact Prod.ext (Function.update_idem ..) rfl

theorem keeps_movemPredec (mask : Half) {s' : Cpu μ} (h : view s' = view s) :
    Keeps loads (access b s ⟨eaMode op, eaReg op, .push 4 (listed mask.reverse).length⟩).state
      (movemPredec b s' (eaReg op) mask) := by
  obtain ⟨ha, htaken⟩ := Prod.mk.inj h
  refine .of_view ?_
  have hpush := movemPredec_eq (b := b) s' (eaReg op) mask.reverse
  rw [BitVec.reverse_reverse_eq] at hpush
  rw [hpush, a_pushRegs, List.length_reverse, ha]
  exact Prod.ext (congrArg (fun a => Function.update a _ _) ha) htaken

theorem popRegs_pc {reg : Reg} (pc : Word) (regs : List Nat) :
    regs.foldl (popReg b reg) { s with pc } = { regs.foldl (popReg b reg) s with pc } := by
  induction regs generalizing s with
  | nil => rfl
  | cons r regs ih =>
    have hpop : popReg b reg { s with pc } r = { popReg b reg s r with pc } := by
      unfold popReg setListReg
      split_ifs <;> rfl
    rw [List.foldl_cons, hpop, ih, List.foldl_cons]

theorem a_popRegs_of_ne {reg i : Reg} {regs : List Nat} (hi : i ≠ reg)
    (hregs : ∀ r ∈ regs, r < 16) (hnot : 8 + i.toNat ∉ regs) :
    (regs.foldl (popReg b reg) s).a i = s.a i := by
  induction regs generalizing s with
  | nil => rfl
  | cons r regs ih =>
    rw [List.mem_cons, not_or] at hnot
    have hstep : (popReg b reg s r).a i = s.a i := by
      rw [popReg, a_setA_of_ne _ hi, a_setListReg s _ (hregs r List.mem_cons_self) (Ne.symm hnot.1)]
    rw [List.foldl_cons, ih (fun r hr => hregs r (List.mem_cons_of_mem _ hr)) hnot.2, hstep]

theorem keeps_movemPostinc (list : Half) :
    Keeps (fun i => i ≠ eaReg op ∧ 8 + i.toNat ∈ listed list)
      (access b s ⟨3, eaReg op, .load list⟩).state
      (movemPostinc b (fetch16 b s).2 (eaReg op) list) := by
  have hpop : movemPostinc b (fetch16 b s).2 (eaReg op) list =
      { (listed list).foldl (popReg b (eaReg op)) s with pc := s.pc + 2 } :=
    (movemPostinc_eq (b := b) _ _ _).trans (popRegs_pc (s.pc + 2) (listed list))
  constructor
  intro i hi _
  rw [hpop]
  change ((listed list).foldl (popReg b (eaReg op)) s).a i =
    (s.setA (eaReg op) (((listed list).foldl (popReg b (eaReg op)) s).a (eaReg op))).a i
  by_cases hown : i = eaReg op
  · rw [hown, a_setA]
  · have hnot : 8 + i.toNat ∉ listed list := fun hmem =>
      Bool.false_ne_true (hi.symm.trans (decide_eq_true ⟨hown, hmem⟩))
    rw [a_setA_of_ne s hown, a_popRegs_of_ne hown listed_lt hnot]

theorem follows_movem : Follows b s (usesMovem op (fetch16 b s).1) (movem b s op) := by
  unfold usesMovem movem
  dsimp only
  refine .ite (fun _ => .none) fun _ => .ite (fun _ => .none) fun _ => ?_
  refine .ite (fun hpush => ?_) fun _ => ?_
  · refine .ea fun _ => ?_
    exact keeps_movemPredec (fetch16 b s).1 (view_fetch16 s)
  by_cases hload : eaMode op = 3 ∧ op.getLsbD 10 = true
  · rw [if_pos hload, if_pos hload]
    refine .ea fun _ => ?_
    rw [hload.1]
    exact keeps_movemPostinc (fetch16 b s).1
  · rw [if_neg hload]
    exact .none

/-! ### The groups -/

theorem follows_privileged {f : Format} {body : Cpu μ → Cpu μ}
    (h : eaMode op = 3 ∨ eaMode op = 4 →
      Keeps loads (access b s ⟨eaMode op, eaReg op, f⟩).state (body s)) :
    Follows b s (if isSupervisor s then useEa op f loads else none) (privileged b s body) :=
  .ite (fun _ => .ea h) fun _ => .none

theorem follows_execGroup4 :
    Follows b s (uses4 op (fetch16 b s).1 (isSupervisor s)) (execGroup4 b s op) := by
  refine .ite (fun _ => .none) fun _ => .ite (fun _ => .none) fun _ => ?_
  refine .ite (fun _ => .ea fun hauto => keeps_tas hauto) fun _ => ?_
  refine .ite (fun _ => .sized fun sz _ => .of_view (view_setFlagsMove ..)) fun _ => ?_
  refine .ite (fun _ => .sized fun sz hauto => keeps_clr hauto sz) fun _ => ?_
  refine .ite (fun _ => .none) fun _ => .ite (fun _ => .none) fun _ => ?_
  refine .ite (fun _ => .none) fun _ => .ite (fun _ => .none) fun _ => ?_
  refine .ite (fun _ => .none) fun _ => .ite (fun _ => .none) fun _ => ?_
  refine .ite (fun _ => .none) fun _ => .ite (fun _ => .none) fun _ => ?_
  refine .ite (fun _ => follows_movem) fun _ => ?_
  refine .ite (fun _ => .none) fun _ => .ite (fun _ => .none) fun _ => ?_
  refine .ite (fun _ => .none) fun _ => .ite (fun _ => .none) fun _ => ?_
  refine .ite (fun _ => .none) fun _ => .ite (fun _ => .none) fun _ => ?_
  refine .ite (fun _ => .none) fun _ => .ite (fun _ => .none) fun _ => ?_
  refine .ite (fun _ => .none) fun _ => .ite (fun _ => .none) fun _ => ?_
  refine .ite (fun _ => follows_privileged fun hauto => keeps_moveFromSr hauto) fun _ => ?_
  refine .ite (fun _ => .ea fun _ => .of_view rfl) fun _ => ?_
  refine .ite (fun _ => follows_privileged fun _ => keeps_moveToSr) fun _ => ?_
  refine .ite (fun _ => .none) fun _ => ?_
  refine .ite (fun _ => .ea fun hauto => keeps_mulL hauto) fun _ => ?_
  refine .ite (fun _ => .ea fun hauto => keeps_divL hauto) fun _ => .none

theorem follows_execGroup5 : Follows b s (uses5 op) (execGroup5 b s op) := by
  refine .ite (fun _ => .none) fun _ => ?_
  split_ifs
  · exact .none
  · exact .sized fun sz hauto => keeps_addqSubq hauto sz

theorem follows_execGroup7 : Follows b s (uses7 op) (execGroup7 b s op) :=
  .ite (fun _ => .none) fun _ => .ea fun _ => .of_view (view_setFlagsMove ..)

theorem follows_execGroup8 : Follows b s (uses8 op) (execGroup8 b s op) :=
  .ite (fun _ => .ea fun _ => keeps_divW) fun _ => follows_aluInsn fun _ _ _ _ _ => rfl

theorem follows_addr (sz : Size) (f : Word → Word → Word) :
    Follows b s (useEa op (.int sz) fun i => i = regDx op)
      ((eaReadAddr b s op sz).2.setA (regDx op)
        (f ((eaReadAddr b s op sz).2.a (regDx op)) (eaReadAddr b s op sz).1)) :=
  .ea fun _ => .of_setA (decide_eq_true rfl)

theorem follows_execGroup9 : Follows b s (uses9D op) (execGroup9 b s op) := by
  refine .ite (fun _ => follows_addr .long (· - ·)) fun _ => ?_
  refine .ite (fun _ => follows_addr .word (· - ·)) fun _ => ?_
  exact .ite (fun _ => .none) fun _ => follows_aluInsn view_setFlagsSub

theorem follows_execGroupD : Follows b s (uses9D op) (execGroupD b s op) := by
  unfold uses9D execGroupD
  by_cases h3 : opmode op = 3
  · rw [if_neg (by rw [h3]; decide), if_pos h3, if_pos h3]
    exact follows_addr .word (· + ·)
  · rw [if_neg h3, if_neg h3]
    refine .ite (fun _ => follows_addr .long (· + ·)) fun _ => ?_
    exact .ite (fun _ => .none) fun _ => follows_aluInsn view_setFlagsAdd

theorem follows_execGroupA (hypercall : Hypercall μ) :
    Follows b s (usesA op) (execGroupA b hypercall s op) := by
  refine .ite (fun _ => ?_) fun _ => .none
  split_ifs
  · exact .none
  · exact .none
  · exact .ea fun hauto => keeps_mov3q hauto

theorem follows_execGroupB : Follows b s (usesB op) (execGroupB b s op) := by
  refine .ite (fun _ => .ea fun _ => .of_view (view_setFlagsCmp ..)) fun _ => ?_
  refine .ite (fun _ => .ea fun _ => .of_view (view_setFlagsCmp ..)) fun _ => ?_
  refine .sized fun sz hauto => ?_
  split_ifs
  · exact keeps_aluToEa hauto (fun _ _ _ _ _ => rfl) sz
  · exact .of_view (view_setFlagsCmp ..)

theorem exg_eq_none (hdata : eaMode op ≠ 0) (haddr : eaMode op ≠ 1) : exg s op = none := by
  have hlow : eaMode op = (op.extractLsb' 3 5).extractLsb' 0 3 := by
    ext i hi
    simp [eaMode, Nat.lt_of_lt_of_le hi]
  have hopm (m : BitVec 5) (h0 : m.extractLsb' 0 3 = (0 : Reg) ∨ m.extractLsb' 0 3 = (1 : Reg)) :
      op.extractLsb' 3 5 ≠ m := by
    rintro rfl
    rw [← hlow] at h0
    exact h0.elim hdata haddr
  unfold exg
  dsimp only
  rw [if_neg (hopm 0x08 (.inl (by decide))), if_neg (hopm 0x09 (.inr (by decide))),
    if_neg (hopm 0x11 (.inr (by decide)))]
  exact ite_self none

theorem follows_execGroupC : Follows b s (usesC op) (execGroupC b s op) := by
  refine .ite (fun _ => .ea fun _ => .of_view (view_setFlagsMove ..)) fun _ => ?_
  refine .ite (fun _ => .ea fun _ => .of_view (view_setFlagsMove ..)) fun _ => ?_
  split_ifs with hmode
  · exact .none
  · rw [not_or] at hmode
    rw [exg_eq_none hmode.1 hmode.2]
    exact follows_aluInsn fun _ _ _ _ _ => rfl

/-! ### The FPU -/

variable {h : Doubles} {s' u : Cpu μ}

theorem keeps_fpuOperate (hs : view s' = view u) (dst : Reg) (opcode : BitVec 7) (src : Double) :
    Keeps loads u (fpuOperate b h s' dst opcode src) := by
  unfold fpuOperate
  split_ifs
  · exact .of_view ((view_setFpcc ..).trans hs)
  · exact .of_view ((view_setFpcc ..).trans hs)
  · split
    · exact .of_view ((view_setFp ..).trans hs)
    · exact keeps_raise hs _ _

theorem view_setA_add (hs : view s' = view s) (reg : Reg) (f : Word → Word) :
    view (s'.setA reg (f (s'.a reg))) = view (s.setA reg (f (s.a reg))) := by
  obtain ⟨ha, htaken⟩ := Prod.mk.inj hs
  have hset : Function.update s'.a reg (f (s'.a reg)) = Function.update s.a reg (f (s.a reg)) := by
    rw [ha]
  exact Prod.ext hset htaken

theorem view_fpuReadDouble (hs : view s' = view s) (hauto : eaMode op = 3 ∨ eaMode op = 4) :
    view (fpuReadDouble b s' (eaMode op) (eaReg op)).2 =
      view (access b s ⟨eaMode op, eaReg op, .double false⟩).state := by
  unfold fpuReadDouble access
  dsimp only
  split_ifs
  · exact view_setA_add hs (eaReg op) (· + 8)
  · exact view_decodeEa hauto .long hs

theorem follows_fpuDyadic (ext : Half) (hs : view s' = view s) :
    Follows b s ((fpFormat ext false).bind fun f => useEa op f) (fpuDyadic b h s' op ext true) := by
  have hint (sz : Size) (v : Double) (hauto : eaMode op = 3 ∨ eaMode op = 4) :
      Keeps (fun _ => false) (access b s ⟨eaMode op, eaReg op, .int sz⟩).state
        (fpuOperate b h (eaRead b s' (eaMode op) (eaReg op) sz).2 (ext.extractLsb' 7 3)
          (ext.extractLsb' 0 7) v) :=
    keeps_fpuOperate (view_decodeEa hauto sz hs) _ _ _
  unfold fpFormat fpuDyadic fpuSource
  dsimp only
  rw [if_neg (by decide)]
  generalize (ext.extractLsb' 10 3).toNat = fmt
  match fmt with
  | 0 => exact .ea fun hauto => hint .long _ hauto
  | 1 => exact .ea fun hauto => hint .long _ hauto
  | 4 => exact .ea fun hauto => hint .word _ hauto
  | 5 => exact .ea fun hauto => keeps_fpuOperate (view_fpuReadDouble hs hauto) _ _ _
  | 6 => exact .ea fun hauto => hint .byte _ hauto
  | 2 | 3 | _ + 7 => exact .none

theorem keeps_fpuStore (hs : view s' = view s) (hauto : eaMode op = 3 ∨ eaMode op = 4) (sz : Size)
    (v : Word) :
    Keeps loads (access b s ⟨eaMode op, eaReg op, .int sz⟩).state (fpuStore b s' op sz v) :=
  .of_view (view_writeOperand hauto sz hs _ _ rfl)

theorem view_writeDoubleAt (addr : Word) (v : Double) :
    view (writeDoubleAt b s addr v) = view s :=
  rfl

theorem keeps_fpuStoreDouble (hs : view s' = view s) (hauto : eaMode op = 3 ∨ eaMode op = 4)
    (v : Double) :
    Keeps loads (access b s ⟨eaMode op, eaReg op, .double true⟩).state
      (fpuStoreDouble b s' op v) := by
  refine .of_view ?_
  unfold fpuStoreDouble access
  dsimp only
  split_ifs
  · rw [view_writeDoubleAt]
    exact view_setA_add hs (eaReg op) (· - 8)
  · rw [view_writeDoubleAt]
    exact view_decodeEa hauto .long hs

theorem follows_fmoveOut (ext : Half) (hs : view s' = view s) :
    Follows b s ((fpFormat ext true).bind fun f => useEa op f) (fmoveOut b h s' op ext) := by
  unfold fpFormat fmoveOut
  dsimp only
  generalize (ext.extractLsb' 10 3).toNat = fmt
  match fmt with
  | 0 => exact .ea fun hauto => keeps_fpuStore hs hauto .long _
  | 1 => exact .ea fun hauto => keeps_fpuStore hs hauto .long _
  | 4 => exact .ea fun hauto => keeps_fpuStore hs hauto .word _
  | 5 => exact .ea fun hauto => keeps_fpuStoreDouble hs hauto _
  | 6 => exact .ea fun hauto => keeps_fpuStore hs hauto .byte _
  | 2 | 3 | _ + 7 => exact .none

theorem view_foldl_fst {α β : Type} (f : Cpu μ × β → α → Cpu μ × β)
    (hf : ∀ r x, view (f r x).1 = view r.1) (l : List α) (r : Cpu μ × β) :
    view (l.foldl f r).1 = view r.1 := by
  induction l generalizing r with
  | nil => rfl
  | cons x l ih => exact (ih (f r x)).trans (hf r x)

theorem view_setFpControl (s : Cpu μ) (v : Word) (c : FpControl) :
    view (setFpControl s v c) = view s := by
  cases c <;> rfl

theorem view_fmoveControlIn (s : Cpu μ) (loc : EaLoc) (rs : List FpControl) :
    view (fmoveControlIn b s loc rs) = view s := by
  refine view_foldl_fst _ ?_ rs (s, loc.addr)
  intro r c
  split_ifs
  · exact view_setFpControl ..
  · exact view_setFpControl ..

theorem view_fmoveControlOut (s : Cpu μ) {loc : EaLoc} (htype : loc.type ≠ .addrReg)
    (rs : List FpControl) : view (fmoveControlOut b s loc rs) = view s := by
  refine view_foldl_fst _ ?_ rs (s, loc.addr)
  intro r c
  split_ifs
  · rfl
  · exact view_writeEa htype _ _

theorem keeps_fmoveControl (ext : Half) (hs : view s' = view s)
    (hauto : eaMode op = 3 ∨ eaMode op = 4) (out : Bool) :
    Keeps loads (access b s ⟨eaMode op, eaReg op, .controls (ext.extractLsb' 10 3)⟩).state
      (fmoveControl b s' op ext out) := by
  refine .of_view ?_
  have hdecode := @view_decodeEa _ b _ _ _ (eaReg op) hauto .long hs
  have htype := @decodeEa_memory _ b s' _ (eaReg op) hauto .long
  cases out
  · exact (view_fmoveControlIn ..).trans hdecode
  · exact (view_fmoveControlOut _ htype _).trans hdecode

theorem keeps_fmovemPredec (rs : List Reg) (hs : view s' = view s) (reg : Reg) :
    Keeps loads (access b s ⟨4, reg, .push 8 rs.length⟩).state (fmovemPredec b s' reg rs) := by
  have hpushed := fpPushed (b := b) s' reg rs
  have ha : s'.a = s.a := congrArg Prod.fst hs
  constructor
  intro i _ _
  change _ = (s.setA reg (s.a reg - BitVec.ofNat 32 (8 * rs.length))).a i
  by_cases hi : i = reg
  · rw [hi, hpushed.stack, a_setA, ha]
  · rw [hpushed.others i hi, a_setA_of_ne s hi, ha]

theorem follows_execGroupF :
    Follows b s (usesF op (fetch16 b s).1) (execGroupF b h s op) := by
  have hs : view (fetch16 b s).2 = view s := view_fetch16 s
  refine .ite (fun _ => .none) fun _ => .ite (fun _ => .none) fun _ => ?_
  unfold fpuGeneral
  dsimp only
  split
  case h_1 hclass =>
      rw [hclass]
      exact follows_fpuDyadic _ hs
  case h_2 hclass =>
      rw [hclass]
      exact follows_fmoveOut _ hs
  case h_3 hclass =>
      rw [hclass]
      exact .ea fun hauto => keeps_fmoveControl _ hs hauto false
  case h_4 hclass =>
      rw [hclass]
      exact .ea fun hauto => keeps_fmoveControl _ hs hauto true
  case h_5 hclass =>
      rw [hclass]
      split_ifs with h4
      · refine .ea fun _ => ?_
        change Keeps _ _ (fmovem b (fetch16 b s).2 op (fetch16 b s).1 true)
        rw [fmovem, h4, if_pos ⟨rfl, rfl⟩]
        exact keeps_fmovemPredec _ hs (eaReg op)
      · exact .none
  case h_6 => exact .none

theorem follows_execGroup (m : Machine μ) (s : Cpu μ) (op : Half) :
    Follows m.bus s (uses op (fetch16 m.bus s).1 (isSupervisor s)) (execGroup m s op) := by
  have hgroup : (op.extractLsb' 12 4).toNat < 16 := (op.extractLsb' 12 4).isLt
  unfold uses execGroup
  generalize (op.extractLsb' 12 4).toNat = group at hgroup
  interval_cases group
  · refine .ite (fun _ => ?_) fun _ => follows_execGroup0
    exact follows_bit rfl _
  · exact follows_execMove .byte
  · exact follows_execMove .long
  · exact follows_execMove .word
  · exact follows_execGroup4
  · exact follows_execGroup5
  · exact .none
  · exact follows_execGroup7
  · exact follows_execGroup8
  · exact follows_execGroup9
  · exact follows_execGroupA m.hypercall
  · exact follows_execGroupB
  · exact follows_execGroupC
  · exact follows_execGroupD
  · exact .none
  · exact follows_execGroupF

end

/-! ## The law for every instruction -/

section

variable {op ext : Half} {supervisor : Bool} {t t' : Option Uses} {u : Uses}

/-- Lists of registers are stored downward and loaded upward. -/
def Uses.Proper (u : Uses) : Prop := ∀ o ∈ u.operands, o.Proper

theorem proper_useEa {f : Format} {loads : Reg → Bool}
    (h : Operand.Proper ⟨eaMode op, eaReg op, f⟩) : ∀ u ∈ useEa op f loads, u.Proper := by
  rintro u hu o ho
  cases hu
  rw [List.mem_singleton.mp ho]
  exact h

theorem proper_ite {c : Prop} [Decidable c] (h : c → ∀ u ∈ t, u.Proper)
    (h' : ¬c → ∀ u ∈ t', u.Proper) : ∀ u ∈ (if c then t else t'), u.Proper := by
  split_ifs with hc
  · exact h hc
  · exact h' hc

theorem proper_none : ∀ u ∈ (none : Option Uses), u.Proper := fun _ hu => nomatch hu

theorem proper_useSized : ∀ u ∈ useSized op, u.Proper := by
  unfold useSized
  split
  · exact proper_none
  · exact proper_useEa trivial

theorem proper_useBit : ∀ u ∈ useBit op, u.Proper :=
  proper_ite (fun _ => proper_none) fun _ => proper_useEa trivial

theorem proper_usesMove {sz : Size} : ∀ u ∈ usesMove op sz, u.Proper := by
  refine proper_ite (fun _ => ?_) fun _ => ?_
  · rintro u hu o ho
    cases hu
    rw [List.mem_singleton.mp ho]
    trivial
  · rintro u hu o ho
    cases hu
    rcases List.mem_pair.mp ho with rfl | rfl
    · trivial
    · trivial

theorem proper_usesMovem : ∀ u ∈ usesMovem op ext, u.Proper := by
  refine proper_ite (fun _ => proper_none) fun _ => proper_ite (fun _ => proper_none) fun _ => ?_
  refine proper_ite (fun hpush => proper_useEa hpush.1) fun _ => ?_
  exact proper_ite (fun hload => proper_useEa hload.1) fun _ => proper_none

theorem proper_uses4 : ∀ u ∈ uses4 op ext supervisor, u.Proper := by
  have hea {f : Format} {loads : Reg → Bool} (h : Operand.Proper ⟨eaMode op, eaReg op, f⟩) :
      ∀ u ∈ (if supervisor then useEa op f loads else none), u.Proper :=
    proper_ite (fun _ => proper_useEa h) fun _ => proper_none
  refine proper_ite (fun _ => proper_none) fun _ => proper_ite (fun _ => proper_none) fun _ => ?_
  refine proper_ite (fun _ => proper_useEa trivial) fun _ => ?_
  refine proper_ite (fun _ => proper_useSized) fun _ => ?_
  refine proper_ite (fun _ => proper_useSized) fun _ => ?_
  refine proper_ite (fun _ => proper_none) fun _ => proper_ite (fun _ => proper_none) fun _ => ?_
  refine proper_ite (fun _ => proper_none) fun _ => proper_ite (fun _ => proper_none) fun _ => ?_
  refine proper_ite (fun _ => proper_none) fun _ => proper_ite (fun _ => proper_none) fun _ => ?_
  refine proper_ite (fun _ => proper_none) fun _ => proper_ite (fun _ => proper_none) fun _ => ?_
  refine proper_ite (fun _ => proper_usesMovem) fun _ => ?_
  refine proper_ite (fun _ => proper_none) fun _ => proper_ite (fun _ => proper_none) fun _ => ?_
  refine proper_ite (fun _ => proper_none) fun _ => proper_ite (fun _ => proper_none) fun _ => ?_
  refine proper_ite (fun _ => proper_none) fun _ => proper_ite (fun _ => proper_none) fun _ => ?_
  refine proper_ite (fun _ => proper_none) fun _ => proper_ite (fun _ => proper_none) fun _ => ?_
  refine proper_ite (fun _ => proper_none) fun _ => proper_ite (fun _ => proper_none) fun _ => ?_
  refine proper_ite (fun _ => hea trivial) fun _ => ?_
  refine proper_ite (fun _ => proper_useEa trivial) fun _ => ?_
  refine proper_ite (fun _ => hea trivial) fun _ => ?_
  refine proper_ite (fun _ => proper_none) fun _ => ?_
  refine proper_ite (fun _ => proper_useEa trivial) fun _ => ?_
  exact proper_ite (fun _ => proper_useEa trivial) fun _ => proper_none

theorem proper_uses9D : ∀ u ∈ uses9D op, u.Proper := by
  refine proper_ite (fun _ => proper_useEa trivial) fun _ => ?_
  refine proper_ite (fun _ => proper_useEa trivial) fun _ => ?_
  exact proper_ite (fun _ => proper_none) fun _ => proper_useSized

theorem proper_fpFormat {store : Bool} :
    ∀ u ∈ (fpFormat ext store).bind fun f => useEa op f, u.Proper := by
  unfold fpFormat
  split
  case h_6 => exact proper_none
  all_goals exact proper_useEa trivial

theorem proper_usesF : ∀ u ∈ usesF op ext, u.Proper := by
  refine proper_ite (fun _ => proper_none) fun _ => proper_ite (fun _ => proper_none) fun _ => ?_
  split
  · exact proper_fpFormat
  · exact proper_fpFormat
  · exact proper_useEa trivial
  · exact proper_useEa trivial
  · exact proper_ite (fun h4 => proper_useEa h4) fun _ => proper_none
  · exact proper_none

theorem proper_uses : ∀ u ∈ uses op ext supervisor, u.Proper := by
  unfold uses
  split
  · refine proper_ite (fun _ => proper_useBit) fun _ => ?_
    refine proper_ite (fun _ => proper_useBit) fun _ => ?_
    refine proper_ite (fun _ => proper_none) fun _ => ?_
    exact proper_ite (fun _ => proper_none) fun _ => proper_useSized
  · exact proper_usesMove
  · exact proper_usesMove
  · exact proper_usesMove
  · exact proper_uses4
  · refine proper_ite (fun _ => proper_none) fun _ => ?_
    exact proper_ite (fun _ => proper_none) fun _ => proper_useSized
  · exact proper_none
  · exact proper_ite (fun _ => proper_none) fun _ => proper_useEa trivial
  · exact proper_ite (fun _ => proper_useEa trivial) fun _ => proper_useSized
  · exact proper_uses9D
  · refine proper_ite (fun _ => ?_) fun _ => proper_none
    refine proper_ite (fun _ => proper_none) fun _ => ?_
    exact proper_ite (fun _ => proper_none) fun _ => proper_useEa trivial
  · refine proper_ite (fun _ => proper_useEa trivial) fun _ => ?_
    exact proper_ite (fun _ => proper_useEa trivial) fun _ => proper_useSized
  · refine proper_ite (fun _ => proper_useEa trivial) fun _ => ?_
    refine proper_ite (fun _ => proper_useEa trivial) fun _ => ?_
    exact proper_ite (fun _ => proper_none) fun _ => proper_useSized
  · exact proper_uses9D
  · exact proper_none
  · exact proper_usesF

end

/-- Every operand in memory follows the law, at the state that the accesses before it left. -/
def LawHolds (b : Bus μ) (s : Cpu μ) (u : Uses) : Prop :=
  ∀ pre o post, u.operands = pre ++ o :: post → o.Auto →
    Stepped o (accessAll b s pre) (access b (accessAll b s pre) o)

/-- Every operand in memory is stepped by its size, at that state. -/
def AllSized (b : Bus μ) (s : Cpu μ) (u : Uses) : Prop :=
  ∀ pre o post, u.operands = pre ++ o :: post → o.Auto → o.Sized b (accessAll b s pre)

/-- An instruction leaves the address registers as the accesses to its operands do, and these
follow the law of (An)+ and -(An) just if their steps are their sizes. -/
theorem autoincrement_iff (m : Machine μ) (s : Cpu μ) (op : Half) {u : Uses}
    (hu : u ∈ uses op (fetch16 m.bus s).1 (isSupervisor s)) (hauto : ∃ o ∈ u.operands, o.Auto) :
    Keeps u.loads (accessAll m.bus s u.operands) (execGroup m s op) ∧
      (LawHolds m.bus s u ↔ AllSized m.bus s u) := by
  refine ⟨follows_execGroup m s op u hu hauto, ?_⟩
  have hproper := proper_uses u hu
  have hiff (pre : List Operand) (o : Operand) (post : List Operand)
      (hsplit : u.operands = pre ++ o :: post) (ho : o.Auto) :
      Stepped o (accessAll m.bus s pre) (access m.bus (accessAll m.bus s pre) o) ↔
        o.Sized m.bus (accessAll m.bus s pre) := by
    refine access_stepped_iff _ o ho (hproper o ?_)
    rw [hsplit]
    exact List.mem_append_right pre List.mem_cons_self
  constructor
  · intro h pre o post hsplit ho
    exact (hiff pre o post hsplit ho).mp (h pre o post hsplit ho)
  · intro h pre o post hsplit ho
    exact (hiff pre o post hsplit ho).mpr (h pre o post hsplit ho)

/-- A word of an extension in memory. -/
def extCode (hi : BitVec 8) : Cpu (Word → BitVec 8) :=
  cpuAt 0x1000 0x8000 0 fun a => if a = 0x1000 then hi else 0

/-- MOVE.B (A7)+,D0. -/
theorem autoincrement_byte :
    ∃ u, Keeps u.loads (accessAll ram (extCode 0) u.operands)
        (execGroup ramMachine (extCode 0) 0x101F) ∧
      (LawHolds ram (extCode 0) u ↔ AllSized ram (extCode 0) u) :=
  ⟨_, autoincrement_iff ramMachine (extCode 0) 0x101F rfl
    ⟨⟨3, 7, .int .byte⟩, List.mem_cons_self, .inl rfl⟩⟩

/-- FMOVE.D FP0,(A0)+ steps A0 by 4. -/
theorem fmove_postinc_fails :
    ∃ u ∈ uses 0xF218 (fetch16 ram (extCode 0x74)).1 (isSupervisor (extCode 0x74)),
      u.operands = [⟨3, 0, .double true⟩] ∧ u.loads 0 = false ∧
        (execGroup ramMachine (extCode 0x74) 0xF218).a 0 ≠
          (extCode 0x74).a 0 + BitVec.ofNat 32 (Operand.step ⟨3, 0, .double true⟩) :=
  ⟨_, rfl, rfl, rfl, by decide⟩

end MechanicalResearcher.ColdFire
