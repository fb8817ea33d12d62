import MechanicalResearcher.ColdFire.Flags
import MechanicalResearcher.ColdFire.Exceptions
import MechanicalResearcher.Lib.Limbs

/-!
# Arithmetic on numbers of several longwords

ADD.L and then ADDX on the limbs above it, or SUB.L and SUBX: X carries from limb to limb, Z is
cleared by any limb that is not zero, and the flags after the last instruction are those of the
whole numbers.
-/

namespace MechanicalResearcher.ColdFire

open Lib Lib.Flags Lib.Limbs

variable {μ : Type} {m : Machine μ} {xs ys rs : List Word} {sr : Word}

/-! ## Instructions on two data registers -/

/-- An instruction `Dy,Dx` of a group, with its operation mode. -/
structure OnRegisters (group : BitVec 4) (mode : Reg) (op : Half) : Prop where
  group : op.extractLsb' 12 4 = group
  mode : opmode op = mode
  ea : eaMode op = 0

theorem sizeBits_eq (op : Half) : sizeBits op = (opmode op).truncate 2 := by
  apply BitVec.eq_of_getLsbD_eq
  intro i hi
  simp [sizeBits, opmode, hi]
  omega

theorem aluInsn_long (b : Bus μ) (f : Alu μ) (s : Cpu μ) {op : Half} (hmode : opmode op = 2)
    (hea : eaMode op = 0) :
    aluInsn b f s op =
      let src := s.d (eaReg op)
      let dst := s.d (regDx op)
      f.flags (s.setD (regDx op) (f.op src dst)) src dst (f.op src dst) .long := by
  unfold aluInsn
  rw [sizeBits_eq, hmode]
  show aluToReg b f s op .long = _
  unfold aluToReg eaRead decodeEa
  rw [hea]
  rfl

theorem not_extend {op : Half} (hmode : opmode op = 2) :
    ¬((opmode op).getLsbD 2 = true ∧ eaMode op = 0) := by
  rintro ⟨hbit, -⟩
  rw [hmode] at hbit
  exact absurd hbit (by decide)

theorem execGroup_add (s : Cpu μ) {op : Half} (hop : OnRegisters 0xD 2 op) :
    execGroup m s op =
      let src := s.d (eaReg op)
      let dst := s.d (regDx op)
      setFlagsAdd (s.setD (regDx op) (dst + src)) src dst (dst + src) .long := by
  unfold execGroup
  rw [hop.group]
  show execGroupD m.bus s op = _
  rw [execGroupD, if_neg (by rw [hop.mode]; decide), if_neg (by rw [hop.mode]; decide),
    if_neg (not_extend hop.mode), aluInsn_long _ _ _ hop.mode hop.ea]
  rfl

theorem execGroup_sub (s : Cpu μ) {op : Half} (hop : OnRegisters 9 2 op) :
    execGroup m s op =
      let src := s.d (eaReg op)
      let dst := s.d (regDx op)
      setFlagsSub (s.setD (regDx op) (dst - src)) src dst (dst - src) .long := by
  unfold execGroup
  rw [hop.group]
  show execGroup9 m.bus s op = _
  rw [execGroup9, if_neg (by rw [hop.mode]; decide), if_neg (by rw [hop.mode]; decide),
    if_neg (not_extend hop.mode), aluInsn_long _ _ _ hop.mode hop.ea]
  rfl

theorem extend {op : Half} (hmode : opmode op = 6) (hea : eaMode op = 0) :
    (opmode op).getLsbD 2 = true ∧ eaMode op = 0 := by
  rw [hmode]
  exact ⟨by decide, hea⟩

theorem execGroup_addx (s : Cpu μ) {op : Half} (hop : OnRegisters 0xD 6 op) :
    execGroup m s op = addx s op := by
  unfold execGroup
  rw [hop.group]
  show execGroupD m.bus s op = _
  rw [execGroupD, if_neg (by rw [hop.mode]; decide), if_neg (by rw [hop.mode]; decide),
    if_pos (extend hop.mode hop.ea)]

theorem execGroup_subx (s : Cpu μ) {op : Half} (hop : OnRegisters 9 6 op) :
    execGroup m s op = subx s op := by
  unfold execGroup
  rw [hop.group]
  show execGroup9 m.bus s op = _
  rw [execGroup9, if_neg (by rw [hop.mode]; decide), if_neg (by rw [hop.mode]; decide),
    if_pos (extend hop.mode hop.ea)]

/-! ## The extend flag as a number -/

/-- The carry or borrow that X holds. -/
def extendIn (sr : Word) : Nat := (ccr sr).x.toNat

theorem extendIn_le (sr : Word) : extendIn sr ≤ 1 := Bool.toNat_le _

theorem xBit_toNat (s : Cpu μ) : (xBit s).toNat = extendIn s.sr := by
  have hx := and_srX_ne_zero s.sr
  unfold xBit extendIn
  rw [← hx]
  by_cases h : s.sr &&& srX ≠ 0
  · rw [if_pos h, decide_eq_true h]
    rfl
  · rw [if_neg h, decide_eq_false h]
    rfl

theorem ccr_clearZ (s : Cpu μ) (res : Word) :
    ccr (clearZ s res).sr = { ccr s.sr with z := (ccr s.sr).z && decide (res = 0) } := by
  unfold clearZ
  by_cases h : res = 0
  · rw [if_neg (not_not.mpr h), decide_eq_true h, Bool.and_true]
  · rw [if_pos h, decide_eq_false h, Bool.and_false]
    simp [ccr, srZ]

theorem ccr_setFlagsX (s : Cpu μ) (carry overflow : Bool) (res : Word) :
    ccr (setFlagsX s carry overflow res).sr =
      ⟨carry, res.msb, (ccr s.sr).z && decide (res = 0), overflow, carry⟩ := by
  have hn : decide (res &&& 0x80000000 ≠ 0) = res.msb := by
    have h := and_sizeMsb_ne_zero res .long
    rw [sized_long] at h
    rw [Bool.eq_iff_iff, decide_eq_true_iff]
    exact h
  simp only [setFlagsX, ccr_clearZ, ccr_setFlag_n, ccr_setFlag_v, ccr_setFlag_x, ccr_setFlag_c, hn]

theorem and_sign_eq_iff (u v : Word) :
    u &&& 0x80000000 = v &&& 0x80000000 ↔ u.msb = v.msb := by
  have h := and_sizeMsb_eq_iff u v .long
  rwa [sized_long, sized_long] at h

/-! ## ADDX and SUBX -/

theorem toNat_sum64 (x y : Word) {k : BitVec 64} (hk : k.toNat ≤ 1) :
    (y.zeroExtend 64 + x.zeroExtend 64 + k).toNat = x.toNat + y.toNat + k.toNat := by
  have hx := x.isLt
  have hy := y.isLt
  simp only [BitVec.toNat_add, BitVec.truncate_eq_setWidth, BitVec.toNat_setWidth]
  omega

theorem toNat_diff64 (x y : Word) {k : BitVec 64} (hk : k.toNat ≤ 1) :
    (y.zeroExtend 64 - x.zeroExtend 64 - k).toNat =
      if y.toNat < x.toNat + k.toNat then 2 ^ 64 + y.toNat - x.toNat - k.toNat
      else y.toNat - x.toNat - k.toNat := by
  have hx := x.isLt
  have hy := y.isLt
  simp only [BitVec.toNat_sub, BitVec.truncate_eq_setWidth, BitVec.toNat_setWidth]
  split_ifs <;> omega

theorem shiftRight_ne_zero (v : BitVec 64) : v >>> 32 ≠ 0 ↔ 2 ^ 32 ≤ v.toNat := by
  rw [ne_eq, ← BitVec.toNat_inj, BitVec.toNat_ushiftRight, Nat.shiftRight_eq_div_pow]
  simp only [BitVec.ofNat_eq_ofNat, BitVec.toNat_ofNat, Nat.zero_mod]
  omega

theorem setFlagsX_d (s : Cpu μ) (carry overflow : Bool) (res : Word) :
    (setFlagsX s carry overflow res).d = s.d := by
  simp only [setFlagsX, clearZ]
  split_ifs <;> rfl

theorem addx_eq (s : Cpu μ) (op : Half) :
    let x := s.d (eaReg op)
    let y := s.d (regDx op)
    let r := (addx s op).d (regDx op)
    let carry := decide (2 ^ 32 ≤ x.toNat + y.toNat + extendIn s.sr)
    x.toNat + y.toNat + extendIn s.sr = r.toNat + 2 ^ 32 * carry.toNat ∧
      ccr (addx s op).sr = ⟨carry, r.msb, (ccr s.sr).z && decide (r = 0),
        decide (x.msb = y.msb ∧ r.msb ≠ x.msb), carry⟩ := by
  have hk := extendIn_le s.sr
  rw [← xBit_toNat] at hk ⊢
  have hsum := toNat_sum64 (s.d (eaReg op)) (s.d (regDx op)) hk
  have hhigh := shiftRight_ne_zero
    ((s.d (regDx op)).zeroExtend 64 + (s.d (eaReg op)).zeroExtend 64 + xBit s)
  rw [hsum] at hhigh
  dsimp only
  generalize hr : (addx s op).d (regDx op) = r
  simp only [addx, setFlagsX_d, Cpu.setD, Function.update_self] at hr
  constructor
  · rw [← hr, BitVec.truncate_eq_setWidth, BitVec.toNat_setWidth, hsum]
    have hx := (s.d (eaReg op)).isLt
    have hy := (s.d (regDx op)).isLt
    by_cases hcarry : 2 ^ 32 ≤ (s.d (eaReg op)).toNat + (s.d (regDx op)).toNat + (xBit s).toNat
    · rw [decide_eq_true hcarry, Bool.toNat_true]
      omega
    · rw [decide_eq_false hcarry, Bool.toNat_false]
      omega
  · simp only [addx, hr, ccr_setFlagsX, decide_eq_decide.mpr hhigh, and_sign_eq_iff, ne_eq]
    rfl

theorem subx_eq (s : Cpu μ) (op : Half) :
    let x := s.d (eaReg op)
    let y := s.d (regDx op)
    let r := (subx s op).d (regDx op)
    let borrow := decide (y.toNat < x.toNat + extendIn s.sr)
    y.toNat + 2 ^ 32 * borrow.toNat = r.toNat + x.toNat + extendIn s.sr ∧
      ccr (subx s op).sr = ⟨borrow, r.msb, (ccr s.sr).z && decide (r = 0),
        decide (x.msb ≠ y.msb ∧ r.msb = x.msb), borrow⟩ := by
  have hk := extendIn_le s.sr
  rw [← xBit_toNat] at hk ⊢
  have hx := (s.d (eaReg op)).isLt
  have hy := (s.d (regDx op)).isLt
  have hdiff := toNat_diff64 (s.d (eaReg op)) (s.d (regDx op)) hk
  have hhigh := shiftRight_ne_zero
    ((s.d (regDx op)).zeroExtend 64 - (s.d (eaReg op)).zeroExtend 64 - xBit s)
  have hborrow : _ ↔ (s.d (regDx op)).toNat < (s.d (eaReg op)).toNat + (xBit s).toNat :=
    hhigh.trans (by rw [hdiff]; split_ifs <;> omega)
  dsimp only
  generalize hr : (subx s op).d (regDx op) = r
  simp only [subx, setFlagsX_d, Cpu.setD, Function.update_self] at hr
  constructor
  · rw [← hr, BitVec.truncate_eq_setWidth, BitVec.toNat_setWidth, hdiff]
    by_cases hlt : (s.d (regDx op)).toNat < (s.d (eaReg op)).toNat + (xBit s).toNat
    · rw [decide_eq_true hlt, if_pos hlt, Bool.toNat_true]
      omega
    · rw [decide_eq_false hlt, if_neg hlt, Bool.toNat_false]
      omega
  · simp only [subx, hr, ccr_setFlagsX, decide_eq_decide.mpr hborrow, and_sign_eq_iff, ne_eq]
    rfl

/-! ## The first limb -/

theorem add_eq (s : Cpu μ) {op : Half} (hop : OnRegisters 0xD 2 op) :
    let x := s.d (eaReg op)
    let y := s.d (regDx op)
    let r := (execGroup m s op).d (regDx op)
    let carry := decide (2 ^ 32 ≤ x.toNat + y.toNat)
    x.toNat + y.toNat = r.toNat + 2 ^ 32 * carry.toNat ∧
      ccr (execGroup m s op).sr =
        ⟨carry, r.msb, decide (r = 0), decide (x.msb = y.msb ∧ r.msb ≠ x.msb), carry⟩ := by
  have hover := (isSum_add (s.d (eaReg op)) (s.d (regDx op))).overflow_iff (by decide)
  have hd : (execGroup m s op).d (regDx op) = s.d (regDx op) + s.d (eaReg op) := by
    rw [execGroup_add s hop]
    exact Function.update_self ..
  dsimp only
  rw [hd]
  constructor
  · have hx := (s.d (eaReg op)).isLt
    have hy := (s.d (regDx op)).isLt
    rw [BitVec.toNat_add]
    by_cases hcarry : 2 ^ 32 ≤ (s.d (eaReg op)).toNat + (s.d (regDx op)).toNat
    · rw [decide_eq_true hcarry, Bool.toNat_true]
      omega
    · rw [decide_eq_false hcarry, Bool.toNat_false]
      omega
  · rw [execGroup_add s hop, decide_eq_decide.mpr hover]
    have hflags := ccr_setFlagsAdd (s.setD (regDx op) (s.d (regDx op) + s.d (eaReg op)))
      (s.d (eaReg op)) (s.d (regDx op)) .long
    simp only [sized_long] at hflags
    exact hflags

theorem sub_eq (s : Cpu μ) {op : Half} (hop : OnRegisters 9 2 op) :
    let x := s.d (eaReg op)
    let y := s.d (regDx op)
    let r := (execGroup m s op).d (regDx op)
    let borrow := decide (y.toNat < x.toNat)
    y.toNat + 2 ^ 32 * borrow.toNat = r.toNat + x.toNat ∧
      ccr (execGroup m s op).sr =
        ⟨borrow, r.msb, decide (r = 0), decide (x.msb ≠ y.msb ∧ r.msb = x.msb), borrow⟩ := by
  have hover := (isDifference_sub (s.d (eaReg op)) (s.d (regDx op))).overflow_iff (by decide)
  have hd : (execGroup m s op).d (regDx op) = s.d (regDx op) - s.d (eaReg op) := by
    rw [execGroup_sub s hop]
    exact Function.update_self ..
  dsimp only
  rw [hd]
  constructor
  · have hx := (s.d (eaReg op)).isLt
    have hy := (s.d (regDx op)).isLt
    rw [BitVec.toNat_sub]
    by_cases hborrow : (s.d (regDx op)).toNat < (s.d (eaReg op)).toNat
    · rw [decide_eq_true hborrow, Bool.toNat_true]
      omega
    · rw [decide_eq_false hborrow, Bool.toNat_false]
      omega
  · rw [execGroup_sub s hop, decide_eq_decide.mpr hover]
    have hflags := ccr_setFlagsSub (s.setD (regDx op) (s.d (regDx op) - s.d (eaReg op)))
      (s.d (eaReg op)) (s.d (regDx op)) .long
    simp only [sized_long] at hflags
    exact hflags

/-! ## Chains -/

/-- The limbs of the sources and of the destinations of a chain of instructions, the limbs it
leaves, and the status register then.  No carry comes into the first one; between two of them the
registers may change, but not the flags. -/
inductive LimbRun (m : Machine μ) (group : BitVec 4) :
    List Word → List Word → List Word → Word → Prop
  | first (s : Cpu μ) (op : Half) (hop : OnRegisters group 2 op) :
      LimbRun m group [s.d (eaReg op)] [s.d (regDx op)] [(execGroup m s op).d (regDx op)]
        (execGroup m s op).sr
  | next {xs ys rs : List Word} (s : Cpu μ) (op : Half) (hop : OnRegisters group 6 op)
      (run : LimbRun m group xs ys rs s.sr) :
      LimbRun m group (xs ++ [s.d (eaReg op)]) (ys ++ [s.d (regDx op)])
        (rs ++ [(execGroup m s op).d (regDx op)]) (execGroup m s op).sr

/-- What the flags say of the whole numbers, but for carry and overflow. -/
structure WholeFlags (n : Nat) (rs : List Word) (f : Ccr) : Prop where
  carry : f.c = f.x
  negative : f.n = (whole n rs).msb
  zero : f.z = decide (value rs = 0)

theorem WholeFlags.first (f : Ccr) (r : Word) (hc : f.c = f.x) (hn : f.n = r.msb)
    (hz : f.z = decide (r = 0)) : WholeFlags 1 [r] f where
  carry := hc
  negative := hn.trans (msb_whole_singleton (by decide) r).symm
  zero := by
    rw [hz, decide_eq_decide, value_singleton, ← BitVec.toNat_inj]
    rfl

theorem WholeFlags.next {n : Nat} {f f' : Ccr} (h : WholeFlags n rs f) (hlen : rs.length = n)
    (r : Word) (hc : f'.c = f'.x) (hn : f'.n = r.msb) (hz : f'.z = (f.z && decide (r = 0))) :
    WholeFlags (n + 1) (rs ++ [r]) f' where
  carry := hc
  negative := hn.trans (msb_whole_append (by decide) hlen r).symm
  zero := by
    rw [hz, h.zero, ← Bool.decide_and, decide_eq_decide]
    exact (value_append_eq_zero rs r).symm

theorem adds (run : LimbRun m 0xD xs ys rs sr) :
    ∃ n, Adds xs ys rs (extendIn sr) n ∧ WholeFlags n rs (ccr sr) ∧
      (ccr sr).v = decide ((whole n xs).msb = (whole n ys).msb ∧
        (whole n rs).msb ≠ (whole n xs).msb) := by
  induction run with
  | first s op hop =>
    obtain ⟨hsum, hflags⟩ := add_eq (m := m) s hop
    refine ⟨1, .first ?_, .first _ _ ?_ ?_ ?_, ?_⟩
    · rw [extendIn, hflags]
      exact hsum
    · rw [hflags]
    · rw [hflags]
    · rw [hflags]
    · rw [hflags, msb_whole_singleton (by decide), msb_whole_singleton (by decide),
        msb_whole_singleton (by decide)]
  | next s op hop run ih =>
    obtain ⟨n, hprefix, hwhole, -⟩ := ih
    obtain ⟨hsum, hflags⟩ := addx_eq s op
    rw [execGroup_addx s hop]
    refine ⟨n + 1, hprefix.next ?_, hwhole.next hprefix.rs_length _ ?_ ?_ ?_, ?_⟩
    · rw [extendIn, extendIn, hflags]
      exact hsum
    · rw [hflags]
    · rw [hflags]
    · rw [hflags]
    · rw [hflags, msb_whole_append (by decide) hprefix.xs_length,
        msb_whole_append (by decide) hprefix.ys_length,
        msb_whole_append (by decide) hprefix.rs_length]

theorem subs (run : LimbRun m 9 xs ys rs sr) :
    ∃ n, Subtracts xs ys rs (extendIn sr) n ∧ WholeFlags n rs (ccr sr) ∧
      (ccr sr).v = decide ((whole n xs).msb ≠ (whole n ys).msb ∧
        (whole n rs).msb = (whole n xs).msb) := by
  induction run with
  | first s op hop =>
    obtain ⟨hdiff, hflags⟩ := sub_eq (m := m) s hop
    refine ⟨1, .first ?_, .first _ _ ?_ ?_ ?_, ?_⟩
    · rw [extendIn, hflags]
      exact hdiff
    · rw [hflags]
    · rw [hflags]
    · rw [hflags]
    · rw [hflags, msb_whole_singleton (by decide), msb_whole_singleton (by decide),
        msb_whole_singleton (by decide)]
  | next s op hop run ih =>
    obtain ⟨n, hprefix, hwhole, -⟩ := ih
    obtain ⟨hdiff, hflags⟩ := subx_eq s op
    rw [execGroup_subx s hop]
    refine ⟨n + 1, hprefix.next ?_, hwhole.next hprefix.rs_length _ ?_ ?_ ?_, ?_⟩
    · rw [extendIn, extendIn, hflags]
      exact hdiff
    · rw [hflags]
    · rw [hflags]
    · rw [hflags]
    · rw [hflags, msb_whole_append (by decide) hprefix.xs_length,
        msb_whole_append (by decide) hprefix.ys_length,
        msb_whole_append (by decide) hprefix.rs_length]

theorem exists_limbRun (m : Machine μ) (s : Cpu μ) {group : BitVec 4} {op opx : Half}
    (hop : OnRegisters group 2 op) (hopx : OnRegisters group 6 opx)
    (hregs : eaReg op = 0 ∧ regDx op = 1 ∧ eaReg opx = 0 ∧ regDx opx = 1)
    (pairs : List (Word × Word)) (hne : pairs ≠ []) :
    ∃ rs sr, LimbRun m group (pairs.map Prod.fst) (pairs.map Prod.snd) rs sr := by
  obtain ⟨hsrc, hdst, hsrcx, hdstx⟩ := hregs
  induction pairs using List.reverseRecOn with
  | nil => exact absurd rfl hne
  | append_singleton pairs p ih =>
    rw [List.map_append, List.map_append]
    let loaded (sr : Word) : Cpu μ :=
      { (s.setD 0 p.1).setD 1 p.2 with sr := sr }
    by_cases hpairs : pairs = []
    · subst hpairs
      have run := LimbRun.first (m := m) (loaded 0) op hop
      rw [hsrc, hdst] at run
      exact ⟨_, _, run⟩
    · obtain ⟨rs, sr, run⟩ := ih hpairs
      have run' := LimbRun.next (loaded sr) opx hopx run
      rw [hsrcx, hdstx] at run'
      exact ⟨_, _, run'⟩

/-! ## Whole numbers -/

/-- The limbs and the flags of a sum of numbers of `n` longwords. -/
structure IsWideSum (n : Nat) (xs ys rs : List Word) (f : Ccr) : Prop where
  length : rs.length = n
  limbs : value rs = (value xs + value ys) % 2 ^ (32 * n)
  carry : f.c = decide (2 ^ (32 * n) ≤ value xs + value ys)
  extend : f.x = f.c
  negative : f.n = (whole n rs).msb
  overflow : f.v = decide (¬InSigned (32 * n) ((whole n xs).toInt + (whole n ys).toInt))
  zero : f.z = decide (value rs = 0)

/-- The limbs and the flags of the difference `ys - xs`. -/
structure IsWideDifference (n : Nat) (xs ys rs : List Word) (f : Ccr) : Prop where
  length : rs.length = n
  limbs : value rs = (value ys + (2 ^ (32 * n) - value xs)) % 2 ^ (32 * n)
  borrow : f.c = decide (value ys < value xs)
  extend : f.x = f.c
  negative : f.n = (whole n rs).msb
  overflow : f.v = decide (¬InSigned (32 * n) ((whole n ys).toInt - (whole n xs).toInt))
  zero : f.z = decide (value rs = 0)

theorem isWideSum {n : Nat} (run : LimbRun m 0xD xs ys rs sr) (hlen : xs.length = n)
    (hpos : 0 < n) : IsWideSum n xs ys rs (ccr sr) := by
  obtain ⟨k, hsum, hwhole, hover⟩ := adds run
  obtain rfl : k = n := hsum.xs_length.symm.trans hlen
  have hrs := value_lt (show 0 < 32 by decide) rs
  have hval := hsum.value_eq
  rw [hsum.rs_length] at hrs
  refine ⟨hsum.rs_length, ?_, ?_, hwhole.carry.symm, hwhole.negative, ?_, hwhole.zero⟩
  · rw [hval, Nat.add_mul_mod_self_left, Nat.mod_eq_of_lt hrs]
  · rw [hwhole.carry, hval, extendIn]
    cases (ccr sr).x with
    | false => simpa using hrs
    | true => simp
  · rw [hover]
    exact decide_eq_decide.mpr ((hsum.isSum (by decide)).overflow_iff (by omega))

theorem isWideDifference {n : Nat} (run : LimbRun m 9 xs ys rs sr) (hlen : xs.length = n)
    (hpos : 0 < n) : IsWideDifference n xs ys rs (ccr sr) := by
  obtain ⟨k, hdiff, hwhole, hover⟩ := subs run
  obtain rfl : k = n := hdiff.xs_length.symm.trans hlen
  have hxs := value_lt (show 0 < 32 by decide) xs
  have hrs := value_lt (show 0 < 32 by decide) rs
  have hys := value_lt (show 0 < 32 by decide) ys
  have hval := hdiff.value_eq
  have hisDiff := hdiff.isDifference (by decide)
  rw [hdiff.xs_length] at hxs
  rw [hdiff.rs_length] at hrs
  rw [hdiff.ys_length] at hys
  refine ⟨hdiff.rs_length, ?_, ?_, hwhole.carry.symm, hwhole.negative, ?_, hwhole.zero⟩
  · have hword := hisDiff
    rwa [IsDifference, toNat_whole (by decide) hdiff.xs_length,
      toNat_whole (by decide) hdiff.ys_length, toNat_whole (by decide) hdiff.rs_length] at hword
  · rw [hwhole.carry]
    rw [extendIn] at hval
    cases hx : (ccr sr).x with
    | false =>
      rw [hx, Bool.toNat_false, Nat.mul_zero] at hval
      rw [eq_comm, decide_eq_false_iff_not]
      omega
    | true =>
      rw [hx, Bool.toNat_true, Nat.mul_one] at hval
      rw [eq_comm, decide_eq_true_iff]
      omega
  · rw [hover]
    exact decide_eq_decide.mpr (hisDiff.overflow_iff (by omega))

/-- ADD.L with ADDX, and SUB.L with SUBX, on every list of pairs of limbs. -/
theorem limbRun_whole (m : Machine μ) (s : Cpu μ) (pairs : List (Word × Word))
    (hne : pairs ≠ []) :
    let xs := pairs.map Prod.fst
    let ys := pairs.map Prod.snd
    ((∃ rs sr, LimbRun m 0xD xs ys rs sr) ∧
      ∀ rs sr, LimbRun m 0xD xs ys rs sr → IsWideSum pairs.length xs ys rs (ccr sr)) ∧
    ((∃ rs sr, LimbRun m 9 xs ys rs sr) ∧
      ∀ rs sr, LimbRun m 9 xs ys rs sr → IsWideDifference pairs.length xs ys rs (ccr sr)) := by
  have hpos : 0 < pairs.length := List.length_pos_iff.mpr hne
  have hlen : (pairs.map Prod.fst).length = pairs.length := List.length_map ..
  refine ⟨⟨?_, fun rs sr run => isWideSum run hlen hpos⟩,
    ⟨?_, fun rs sr run => isWideDifference run hlen hpos⟩⟩
  · have hadd : OnRegisters 0xD 2 0xD280 := ⟨rfl, rfl, rfl⟩
    have haddx : OnRegisters 0xD 6 0xD380 := ⟨rfl, rfl, rfl⟩
    exact exists_limbRun m s hadd haddx ⟨rfl, rfl, rfl, rfl⟩ pairs hne
  · have hsub : OnRegisters 9 2 0x9280 := ⟨rfl, rfl, rfl⟩
    have hsubx : OnRegisters 9 6 0x9380 := ⟨rfl, rfl, rfl⟩
    exact exists_limbRun m s hsub hsubx ⟨rfl, rfl, rfl, rfl⟩ pairs hne

/-- A carry that runs through the first of two limbs. -/
theorem limbRun_whole_two :
    ((∃ rs sr, LimbRun ramMachine 0xD [0xFFFFFFFF, 1] [1, 2] rs sr) ∧
      ∀ rs sr, LimbRun ramMachine 0xD [0xFFFFFFFF, 1] [1, 2] rs sr →
        IsWideSum 2 [0xFFFFFFFF, 1] [1, 2] rs (ccr sr)) ∧
    ((∃ rs sr, LimbRun ramMachine 9 [0xFFFFFFFF, 1] [1, 2] rs sr) ∧
      ∀ rs sr, LimbRun ramMachine 9 [0xFFFFFFFF, 1] [1, 2] rs sr →
        IsWideDifference 2 [0xFFFFFFFF, 1] [1, 2] rs (ccr sr)) :=
  limbRun_whole ramMachine (cpuAt 0 0 0 rteRam) [(0xFFFFFFFF, 1), (1, 2)] (by decide)

end MechanicalResearcher.ColdFire
