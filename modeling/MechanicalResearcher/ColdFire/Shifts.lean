import MechanicalResearcher.ColdFire.Flags
import MechanicalResearcher.ColdFire.Exceptions
import MechanicalResearcher.Lib.Shifts

/-!
# Shifts and rotates

The loops of group E move one bit at a time in a register of 32 bits.  On the operand they are the
shifts and the rotate of its own size, for every count.
-/

namespace MechanicalResearcher.ColdFire

open Lib Lib.Shifts

variable {μ : Type}

inductive ShiftKind
  | asl | asr | lsl | lsr | ror
  deriving DecidableEq, Repr

namespace ShiftKind

/-- Bits 4 and 3 of the opword. -/
def type : ShiftKind → BitVec 2
  | asl | asr => 0
  | lsl | lsr => 1
  | ror => 3

/-- Bit 8 of the opword. -/
def left : ShiftKind → Bool
  | asl | lsl => true
  | asr | lsr | ror => false

variable {w : Nat}

def result (k : ShiftKind) (v : BitVec w) (n : Nat) : BitVec w :=
  match k with
  | asl | lsl => v <<< n
  | asr => v.sshiftRight n
  | lsr => v >>> n
  | ror => v.rotateRight n

/-- The last of `n` bits that go out. -/
def lastOut (k : ShiftKind) (v : BitVec w) (n : Nat) : Bool :=
  match n with
  | 0 => false
  | n + 1 =>
    match k with
    | asl | lsl => decide (n + 1 ≤ w) && v.getLsbD (w - (n + 1))
    | asr => if n + 1 ≤ w then v.getLsbD n else v.msb
    | lsr => v.getLsbD n
    | ror => v.getLsbD (n % w)

/-- One turn of the loop, on the operand. -/
def one (k : ShiftKind) (v : BitVec w) : BitVec w :=
  match k with
  | asl | lsl => v <<< 1
  | asr => v.sshiftRight 1
  | lsr => v >>> 1
  | ror => v.rotateRight 1

/-- The bit that one turn moves out. -/
def out (k : ShiftKind) (v : BitVec w) : Bool :=
  match k with
  | asl | lsl => v.msb
  | asr | lsr | ror => v.getLsbD 0

theorem iterate_one (k : ShiftKind) (v : BitVec w) (n : Nat) : (one k)^[n] v = k.result v n := by
  cases k with
  | asl => exact iterate_shiftLeft v n
  | asr => exact iterate_sshiftRight v n
  | lsl => exact iterate_shiftLeft v n
  | lsr => exact iterate_ushiftRight v n
  | ror => exact iterate_rotateRight v n

theorem out_result (k : ShiftKind) (v : BitVec w) (n : Nat) (hw : 0 < w) :
    k.out (k.result v n) = k.lastOut v (n + 1) := by
  cases k with
  | asl => exact msb_shiftLeft_pred v n
  | asr => exact lsb_sshiftRight v n hw
  | lsl => exact msb_shiftLeft_pred v n
  | lsr => exact lsb_ushiftRight v n
  | ror => exact lsb_rotateRight v n hw

end ShiftKind

/-- One turn of the loop of an operation, in the register. -/
def shiftStep (k : ShiftKind) (sz : Size) (r : Word) : Word × Bool :=
  match k with
  | .asl | .lsl => (r <<< 1, r &&& sizeMsb sz ≠ 0)
  | .asr => (r.sshiftRight 1, r &&& 1 ≠ 0)
  | .lsr => (r >>> 1, r &&& 1 ≠ 0)
  | .ror => (r >>> 1 ||| if r &&& 1 ≠ 0 then sizeMsb sz else 0, r &&& 1 ≠ 0)

/-- How the register holds the operand while the loop runs. -/
def Holds (k : ShiftKind) (sz : Size) (r : Word) (v : BitVec sz.bits) : Prop :=
  match k with
  | .asl | .lsl => sized r sz = v
  | .asr => r = v.signExtend 32
  | .lsr | .ror => r = v.zeroExtend 32

theorem and_one_ne_zero (r : Word) : decide (r &&& 1 ≠ 0) = r.getLsbD 0 := by
  rw [Bool.eq_iff_iff, decide_eq_true_iff]
  exact Bits.and_twoPow_ne_zero r (show 0 < 32 by decide)

theorem getLsbD_zeroExtend {sz : Size} (v : BitVec sz.bits) (i : Nat) :
    (v.zeroExtend 32).getLsbD i = v.getLsbD i := by
  have hle := sz.bits_le
  have hset : (v.zeroExtend 32).getLsbD i = (decide (i < 32) && v.getLsbD i) :=
    BitVec.getLsbD_setWidth ..
  rw [hset]
  by_cases h : i < 32
  · rw [decide_eq_true h, Bool.true_and]
  · rw [decide_eq_false h, Bool.false_and, BitVec.getLsbD_of_ge v i (by omega)]

theorem sshiftRight_signExtend {sz : Size} (v : BitVec sz.bits) :
    (v.signExtend 32).sshiftRight 1 = (v.sshiftRight 1).signExtend 32 := by
  have hpos := sz.bits_pos
  have hle := sz.bits_le
  have hmsb : (v.signExtend 32).msb = v.msb := by
    rw [BitVec.msb_eq_getLsbD_last, BitVec.getLsbD_signExtend, BitVec.msb_eq_getLsbD_last]
    grind
  apply BitVec.eq_of_getLsbD_eq
  intro i hi
  rw [BitVec.getLsbD_sshiftRight, BitVec.getLsbD_signExtend, BitVec.getLsbD_signExtend, hmsb,
    BitVec.getLsbD_sshiftRight, BitVec.msb_sshiftRight]
  grind

theorem rotate_zeroExtend {sz : Size} (v : BitVec sz.bits) :
    ((v.zeroExtend 32) >>> 1 ||| if v.getLsbD 0 = true then sizeMsb sz else 0) =
      (v.rotateRight 1).zeroExtend 32 := by
  have hpos := sz.bits_pos
  have hle := sz.bits_le
  apply BitVec.eq_of_getLsbD_eq
  intro i hi
  rw [BitVec.getLsbD_or, BitVec.getLsbD_ushiftRight, getLsbD_zeroExtend, getLsbD_zeroExtend,
    sizeMsb_eq]
  have hin : (if v.getLsbD 0 = true then BitVec.twoPow 32 (sz.bits - 1) else 0).getLsbD i =
      (v.getLsbD 0 && decide (i = sz.bits - 1)) := by
    cases v.getLsbD 0
    · simp
    · rw [if_pos rfl, BitVec.getLsbD_twoPow, decide_eq_true (by omega), Bool.true_and,
        Bool.true_and, decide_eq_decide]
      exact eq_comm
  rw [hin]
  by_cases hlt : i < sz.bits
  · rw [getLsbD_rotateRight_mod v hlt]
    by_cases hlast : i = sz.bits - 1
    · have hmod : (1 + i) % sz.bits = 0 := by
        rw [show 1 + i = sz.bits by omega, Nat.mod_self]
      rw [hmod, decide_eq_true hlast, Bool.and_true, BitVec.getLsbD_of_ge v _ (by omega),
        Bool.false_or]
    · rw [decide_eq_false hlast, Bool.and_false, Bool.or_false,
        Nat.mod_eq_of_lt (show 1 + i < sz.bits by omega)]
  · rw [BitVec.getLsbD_of_ge v _ (by omega), BitVec.getLsbD_of_ge (v.rotateRight 1) _ (by omega),
      decide_eq_false (by omega), Bool.and_false, Bool.or_false]

theorem holds_step (k : ShiftKind) (sz : Size) (r : Word) (v : BitVec sz.bits)
    (h : Holds k sz r v) :
    Holds k sz (shiftStep k sz r).1 (k.one v) ∧ (shiftStep k sz r).2 = k.out v := by
  have hpos := sz.bits_pos
  have hmsb : decide (r &&& sizeMsb sz ≠ 0) = (sized r sz).msb := by
    rw [Bool.eq_iff_iff, decide_eq_true_iff]
    exact and_sizeMsb_ne_zero r sz
  have hleft : sized (r <<< 1) sz = sized r sz <<< 1 :=
    BitVec.setWidth_shiftLeft_of_le sz.bits_le
  cases k with
  | asl =>
    subst h
    exact ⟨hleft, hmsb⟩
  | lsl =>
    subst h
    exact ⟨hleft, hmsb⟩
  | asr =>
    subst h
    refine ⟨sshiftRight_signExtend v, ?_⟩
    rw [shiftStep, and_one_ne_zero, BitVec.getLsbD_signExtend]
    simp [hpos, ShiftKind.out]
  | lsr =>
    subst h
    refine ⟨?_, ?_⟩
    · apply BitVec.eq_of_getLsbD_eq
      intro i hi
      show ((v.zeroExtend 32) >>> 1).getLsbD i = ((v >>> 1).zeroExtend 32).getLsbD i
      rw [BitVec.getLsbD_ushiftRight, getLsbD_zeroExtend, getLsbD_zeroExtend,
        BitVec.getLsbD_ushiftRight]
    · rw [shiftStep, and_one_ne_zero, getLsbD_zeroExtend]
      rfl
  | ror =>
    subst h
    have hbit := and_one_ne_zero (v.zeroExtend 32)
    rw [getLsbD_zeroExtend] at hbit
    refine ⟨?_, hbit⟩
    have hiff : (v.zeroExtend 32 &&& 1 ≠ 0) ↔ v.getLsbD 0 = true := by
      rw [← hbit, decide_eq_true_iff]
    show (v.zeroExtend 32 >>> 1 ||| if v.zeroExtend 32 &&& 1 ≠ 0 then sizeMsb sz else 0) = _
    rw [if_congr hiff rfl rfl]
    exact rotate_zeroExtend v

theorem shiftLoop_succ (step : Word → Word × Bool) (n : Nat) (r : Word × Bool) :
    shiftLoop step (n + 1) r = step (shiftLoop step n r).1 := by
  induction n generalizing r with
  | zero => rfl
  | succ n ih => exact ih (step r.1)

theorem holds_shiftLoop {k : ShiftKind} {sz : Size} {r : Word} {v : BitVec sz.bits}
    (h : Holds k sz r v) (n : Nat) :
    Holds k sz (shiftLoop (shiftStep k sz) n (r, false)).1 (k.result v n) ∧
      (shiftLoop (shiftStep k sz) n (r, false)).2 = k.lastOut v n := by
  have hvalue : ∀ n, Holds k sz (shiftLoop (shiftStep k sz) n (r, false)).1 (k.result v n) := by
    intro n
    rw [← ShiftKind.iterate_one]
    induction n with
    | zero => exact h
    | succ n ih =>
      rw [shiftLoop_succ, Function.iterate_succ_apply']
      exact (holds_step k sz _ _ ih).1
  refine ⟨hvalue n, ?_⟩
  cases n with
  | zero => rfl
  | succ n =>
    rw [shiftLoop_succ, (holds_step k sz _ _ (hvalue n)).2]
    exact ShiftKind.out_result k v n sz.bits_pos

theorem signExtend_eq (v : Word) (sz : Size) :
    signExtend v sz = (sized v sz).signExtend 32 := by
  cases sz with
  | byte => rfl
  | word => rfl
  | long => exact ((BitVec.signExtend_eq _).trans (sized_long v)).symm

theorem sized_zeroExtend {sz : Size} (v : BitVec sz.bits) : sized (v.zeroExtend 32) sz = v :=
  (BitVec.setWidth_setWidth_of_le _ sz.bits_le).trans (BitVec.setWidth_eq v)

theorem sized_signExtend {sz : Size} (v : BitVec sz.bits) : sized (v.signExtend 32) sz = v :=
  (Bits.truncate_signExtend v sz.bits_le).trans (BitVec.signExtend_eq v)

theorem sized_and_sizeOnes (v : Word) (sz : Size) : sized (v &&& sizeOnes sz) sz = sized v sz := by
  cases sz with
  | byte => exact sized_sizeMask v .byte
  | word => exact sized_sizeMask v .word
  | long =>
    have hones : v &&& 0xFFFFFFFF = v := BitVec.and_allOnes
    exact congrArg (sized · .long) hones

theorem Holds.sized_eq {k : ShiftKind} {sz : Size} {r : Word} {v : BitVec sz.bits}
    (h : Holds k sz r v) : sized r sz = v := by
  cases k with
  | asl | lsl => exact h
  | asr => exact (congrArg (sized · sz) h).trans (sized_signExtend v)
  | lsr | ror => exact (congrArg (sized · sz) h).trans (sized_zeroExtend v)

theorem shiftResult_eq (k : ShiftKind) (sz : Size) (n : Nat) (v : BitVec sz.bits) :
    ∃ res, shiftResult k.type k.left sz n (v.zeroExtend 32) = some (res, k.lastOut v n) ∧
      sized res sz = k.result v n := by
  have hsized : sized (v.zeroExtend 32) sz = v := sized_zeroExtend v
  cases k with
  | asl =>
    obtain ⟨hvalue, hout⟩ := holds_shiftLoop (show Holds .asl sz (v.zeroExtend 32) v from hsized) n
    refine ⟨_, congrArg (fun o => some (_, o)) hout, ?_⟩
    rw [sized_and_sizeOnes]
    exact hvalue.sized_eq
  | lsl =>
    obtain ⟨hvalue, hout⟩ := holds_shiftLoop (show Holds .lsl sz (v.zeroExtend 32) v from hsized) n
    refine ⟨_, congrArg (fun o => some (_, o)) hout, ?_⟩
    rw [sized_and_sizeOnes]
    exact hvalue.sized_eq
  | asr =>
    have hstart : signExtend (v.zeroExtend 32) sz = v.signExtend 32 := by
      rw [signExtend_eq, hsized]
    obtain ⟨hvalue, hout⟩ := holds_shiftLoop
      (show Holds .asr sz (signExtend (v.zeroExtend 32) sz) v from hstart) n
    refine ⟨_, congrArg (fun o => some (_, o)) hout, ?_⟩
    rw [sized_and_sizeOnes]
    exact hvalue.sized_eq
  | lsr =>
    obtain ⟨hvalue, hout⟩ := holds_shiftLoop (show Holds .lsr sz (v.zeroExtend 32) v from rfl) n
    refine ⟨_, congrArg (fun o => some (_, o)) hout, ?_⟩
    exact hvalue.sized_eq
  | ror =>
    obtain ⟨hvalue, hout⟩ := holds_shiftLoop (show Holds .ror sz (v.zeroExtend 32) v from rfl) n
    refine ⟨_, congrArg (fun o => some (_, o)) hout, ?_⟩
    rw [sized_and_sizeOnes]
    exact hvalue.sized_eq

theorem getLsbD_merge (n : Nat) (old v : Word) {i : Nat} (hi : i < 32) :
    ((old &&& ~~~Bits.lowMask 32 n) ||| (v &&& Bits.lowMask 32 n)).getLsbD i =
      if i < n then v.getLsbD i else old.getLsbD i := by
  rw [BitVec.getLsbD_or, BitVec.getLsbD_and, BitVec.getLsbD_and, BitVec.getLsbD_not,
    Bits.getLsbD_lowMask hi, decide_eq_true hi]
  by_cases h : i < n
  · simp [h]
  · simp [h]

theorem getLsbD_mergeSized (old v : Word) (sz : Size) {i : Nat} (hi : i < 32) :
    (mergeSized old v sz).getLsbD i = if i < sz.bits then v.getLsbD i else old.getLsbD i := by
  cases sz with
  | byte => exact getLsbD_merge 8 old v hi
  | word => exact getLsbD_merge 16 old v hi
  | long => exact (if_pos hi).symm

theorem sized_mergeSized (old v : Word) (sz : Size) :
    sized (mergeSized old v sz) sz = sized v sz := by
  have hle := sz.bits_le
  apply BitVec.eq_of_getLsbD_eq
  intro i hi
  rw [getLsbD_sized, getLsbD_sized, getLsbD_mergeSized old v sz (by omega), if_pos hi]

/-- A shift of the operand in a data register by `n` bits. -/
structure Shifted (k : ShiftKind) (sz : Size) (n : Nat) (reg : Reg) (s s' : Cpu μ) : Prop where
  result : sized (s'.d reg) sz = k.result (sized (s.d reg) sz) n
  above : ∀ i, sz.bits ≤ i → (s'.d reg).getLsbD i = (s.d reg).getLsbD i
  others : ∀ r, r ≠ reg → s'.d r = s.d r
  carry : (ccr s'.sr).c = k.lastOut (sized (s.d reg) sz) n
  extend : (ccr s'.sr).x =
    if n = 0 ∨ k = .ror then (ccr s.sr).x else k.lastOut (sized (s.d reg) sz) n
  negative : (ccr s'.sr).n = (k.result (sized (s.d reg) sz) n).msb
  zero : (ccr s'.sr).z = decide (k.result (sized (s.d reg) sz) n = 0)
  overflow : (ccr s'.sr).v = false

theorem shifted_store {k : ShiftKind} {sz : Size} {n : Nat} {reg : Reg} {s : Cpu μ} {res sr : Word}
    (hres : sized res sz = k.result (sized (s.d reg) sz) n)
    (hccr : ccr sr =
      { x := if n = 0 ∨ k = .ror then (ccr s.sr).x else k.lastOut (sized (s.d reg) sz) n
        n := (sized res sz).msb
        z := decide (sized res sz = 0)
        v := false
        c := k.lastOut (sized (s.d reg) sz) n }) :
    Shifted k sz n reg s ({ s with sr := sr }.setD reg (mergeSized (s.d reg) res sz)) := by
  have hd : ({ s with sr := sr }.setD reg (mergeSized (s.d reg) res sz)).d reg =
      mergeSized (s.d reg) res sz := Function.update_self ..
  refine ⟨?_, ?_, ?_, ?_, ?_, ?_, ?_, ?_⟩
  · rw [hd, sized_mergeSized, hres]
  · intro i hi
    rw [hd]
    by_cases hlt : i < 32
    · rw [getLsbD_mergeSized _ _ _ hlt, if_neg (by omega)]
    · rw [BitVec.getLsbD_of_ge _ _ (by omega), BitVec.getLsbD_of_ge _ _ (by omega)]
  · intro r hr
    exact Function.update_of_ne hr ..
  all_goals
    show _ = _
    simp only [Cpu.setD, hccr, hres]

theorem ccr_clear_v (sr : Word) : ccr (sr &&& ~~~srV) = { ccr sr with v := false } := by
  simp [ccr, srV]

theorem ccr_setFlagsShift (s : Cpu μ) (type : BitVec 2) (res : Word) (out : Bool) (sz : Size) :
    ccr (setFlagsShift s type res out sz).sr =
      { x := if type = 3 then (ccr s.sr).x else out
        n := (sized res sz).msb
        z := decide (sized res sz = 0)
        v := false
        c := out } := by
  unfold setFlagsShift
  dsimp only
  by_cases h : type = 3
  · rw [if_pos h, if_pos h, ccr_clear_v, ccr_setFlag_c, ccr_setNz]
  · rw [if_neg h, if_neg h, ccr_clear_v, ccr_setFlag_x, ccr_setFlag_c, ccr_setNz]

theorem setFlagsShift_eq (s : Cpu μ) (type : BitVec 2) (res : Word) (out : Bool) (sz : Size) :
    setFlagsShift s type res out sz = { s with sr := (setFlagsShift s type res out sz).sr } := by
  have hset {s' : Cpu μ} (flag : Word) (cond : Bool) (h : ∃ w, s' = { s with sr := w }) :
      ∃ w, setFlag s' flag cond = { s with sr := w } := by
    obtain ⟨w, rfl⟩ := h
    exact ⟨_, rfl⟩
  have hnz : ∃ w, setNz s res sz = { s with sr := w } := hset _ _ (hset _ _ ⟨s.sr, rfl⟩)
  obtain ⟨w, hw⟩ : ∃ w, setFlagsShift s type res out sz = { s with sr := w } := by
    unfold setFlagsShift
    dsimp only
    split
    · obtain ⟨w, hw⟩ := hset srC out hnz
      exact ⟨_, by rw [hw]⟩
    · obtain ⟨w, hw⟩ := hset srX out (hset srC out hnz)
      exact ⟨_, by rw [hw]⟩
  rw [hw]

theorem shiftInsn_shifted (b : Bus μ) (s : Cpu μ) {op : Half} {k : ShiftKind} (sz : Size)
    (htype : op.extractLsb' 3 2 = k.type) (hleft : op.getLsbD 8 = k.left) :
    Shifted k sz (shiftCount s op) (eaReg op) s (shiftInsn b s op sz) := by
  unfold shiftInsn
  dsimp only
  rw [htype, hleft, sizeMask_eq]
  by_cases hzero : shiftCount s op = 0
  · -- no loop: the operand itself, and X stays
    rw [if_pos hzero, hzero]
    have hres : sized ((sized (s.d (eaReg op)) sz).zeroExtend 32) sz =
        k.result (sized (s.d (eaReg op)) sz) 0 :=
      (sized_zeroExtend _).trans (k.iterate_one _ 0)
    refine shifted_store hres ?_
    rw [ccr_clear_vc, ccr_setNz, if_pos (.inl rfl)]
    rfl
  · rw [if_neg hzero]
    obtain ⟨res, heq, hres⟩ := shiftResult_eq k sz (shiftCount s op) (sized (s.d (eaReg op)) sz)
    rw [heq]
    dsimp only
    rw [setFlagsShift_eq]
    refine shifted_store hres ?_
    rw [ccr_setFlagsShift]
    congr 1
    cases k <;> simp [ShiftKind.type, hzero]

theorem shiftCount_le (s : Cpu μ) (op : Half) : shiftCount s op ≤ 63 := by
  unfold shiftCount quickData
  split_ifs
  · rw [BitVec.toNat_and]
    exact Nat.and_le_right
  · decide
  · have hlt := (regDx op).isLt
    have hset : ((regDx op).zeroExtend 32).toNat = (regDx op).toNat :=
      BitVec.toNat_setWidth_of_le (by decide)
    rw [hset]
    omega

/-- Every shift and rotate of the ColdFire, at every size and count, immediate or in a register,
is the closed form of its operation. -/
theorem execGroupE_shifted (b : Bus μ) (s : Cpu μ) (op : Half) (k : ShiftKind) (sz : Size)
    (hsz : decodeSize (sizeBits op) = some sz) (htype : op.extractLsb' 3 2 = k.type)
    (hleft : op.getLsbD 8 = k.left) :
    shiftCount s op ≤ 63 ∧ Shifted k sz (shiftCount s op) (eaReg op) s (execGroupE b s op) := by
  refine ⟨shiftCount_le s op, ?_⟩
  unfold execGroupE
  rw [hsz]
  exact shiftInsn_shifted b s sz htype hleft

/-- ROR.W #8,D0 -/
theorem execGroupE_ror :
    let s := (cpuAt 0 0 0 rteRam).setD 0 0x12345678
    shiftCount s 0xE058 ≤ 63 ∧
      Shifted .ror .word (shiftCount s 0xE058) 0 s (execGroupE ram s 0xE058) :=
  execGroupE_shifted ram ((cpuAt 0 0 0 rteRam).setD 0 0x12345678) 0xE058 .ror .word rfl rfl rfl

end MechanicalResearcher.ColdFire
