import MechanicalResearcher.ColdFire.Flags
import MechanicalResearcher.ColdFire.Exceptions

/-!
# Word division

DIVU.W and DIVS.W divide a longword by a word into a word of quotient and a word of remainder.
DIVS.W keeps the dividend and sets V when the quotient does not fit; DIVU.W has no such test.
-/

namespace MechanicalResearcher.ColdFire

open Lib Lib.Flags

variable {μ : Type}

/-- A word as the number that the signed or the unsigned instruction takes it for. -/
def number {w : Nat} (signed : Bool) (v : BitVec w) : Int := if signed then v.toInt else v.toNat

/-- The numbers that a word of this width holds. -/
def Fits (w : Nat) (signed : Bool) (i : Int) : Prop :=
  if signed then InSigned w i else 0 ≤ i ∧ i < (2 ^ w : Nat)

instance (w : Nat) (signed : Bool) (i : Int) : Decidable (Fits w signed i) := by
  unfold Fits
  infer_instance

/-- The operands of the division that the host executes, where the code comes to one. -/
def hostDivision (signed : Bool) (dividend : Word) (divisor : Half) : Option (Int × Int) :=
  if divisor = 0 then none
  else if signed then
    if dividend = 0x80000000 ∧ divisor = 0xFFFF then none
    else some (dividend.toInt, divisor.toInt)
  else some (dividend.toNat, divisor.toNat)

/-- The division of `dividend` in `Dn` by `divisor`, from the state after the operand was read to
the state after the instruction. -/
structure WordDivision (signed : Bool) (divisor : Half) (reg : Reg) (s s' : Cpu μ) : Prop where
  quotient : Fits 16 signed ((number signed (s.d reg)).tdiv (number signed divisor)) →
    ∃ q r : Half, s'.d reg = r ++ q ∧ (ccr s'.sr).v = false ∧
      number signed (s.d reg) = number signed q * number signed divisor + number signed r ∧
      (number signed r).natAbs < (number signed divisor).natAbs ∧
      (number signed r = 0 ∨ (number signed r).sign = (number signed (s.d reg)).sign)
  overflow : ¬Fits 16 signed ((number signed (s.d reg)).tdiv (number signed divisor)) →
    (ccr s'.sr).v = true ∧ s'.d reg = s.d reg
  host : ∀ a c, hostDivision signed (s.d reg) divisor = some (a, c) →
    c ≠ 0 ∧ Fits 32 signed (a.tdiv c)

/-- The low word of a register. -/
abbrev lowWord (v : Word) : Half := v.truncate 16

theorem and_lowWord (v : Word) : v &&& 0xFFFF = (lowWord v).zeroExtend 32 := sizeMask_eq v .word

theorem lowWord_and (v : Word) : lowWord (v &&& 0xFFFF) = lowWord v := sized_sizeMask v .word

theorem append_lowWord (r q : Word) : r <<< 16 ||| (q &&& 0xFFFF) = lowWord r ++ lowWord q := by
  rw [and_lowWord]
  apply BitVec.eq_of_getLsbD_eq
  intro i hi
  rw [BitVec.getLsbD_or, BitVec.getLsbD_shiftLeft, BitVec.getLsbD_append]
  simp only [lowWord, BitVec.truncate_eq_setWidth, BitVec.getLsbD_setWidth, hi, decide_true,
    Bool.true_and]
  grind

theorem storeDivW_d (s : Cpu μ) (reg : Reg) (quot rem : Word) :
    (storeDivW s reg quot rem).d reg = lowWord rem ++ lowWord quot := by
  have hd : (storeDivW s reg quot rem).d reg = rem <<< 16 ||| (quot &&& 0xFFFF) :=
    Function.update_self ..
  rw [hd, append_lowWord]

theorem storeDivW_v (s : Cpu μ) (reg : Reg) (quot rem : Word) :
    (ccr (storeDivW s reg quot rem).sr).v = false := by
  rw [storeDivW, ccr_setFlagsMove]

theorem toNat_lowWord {v : Word} (h : v.toNat < 2 ^ 16) : (lowWord v).toNat = v.toNat :=
  (BitVec.toNat_setWidth 16 v).trans (Nat.mod_eq_of_lt h)

theorem toInt_lowWord {v : Word} (h : InSigned 16 v.toInt) : (lowWord v).toInt = v.toInt := by
  obtain ⟨hlo, hhi⟩ := h
  have hv := v.isLt
  have hlow : (lowWord v).toInt = Int.bmod v.toNat (2 ^ 16) := BitVec.toInt_setWidth v
  rw [hlow, Int.bmod_def]
  rw [BitVec.toInt_eq_toNat_cond] at hlo hhi ⊢
  split_ifs at * <;> omega

theorem tdiv_tmod {a c : Int} (hc : c ≠ 0) :
    a = a.tdiv c * c + a.tmod c ∧ (a.tmod c).natAbs < c.natAbs ∧
      (a.tmod c = 0 ∨ (a.tmod c).sign = a.sign) := by
  refine ⟨(Int.tdiv_mul_add_tmod a c).symm, ?_, ?_⟩
  · rw [Int.natAbs_tmod]
    exact Nat.mod_lt _ (Int.natAbs_pos.mpr hc)
  · by_cases hdvd : c ∣ a
    · exact .inl (Int.tmod_eq_zero_of_dvd hdvd)
    · right
      rw [Int.sign_tmod, if_neg hdvd]

theorem signExtend_word (v : Word) : signExtend v .word = (lowWord v).signExtend 32 := rfl

theorem toInt_signExtend_word (v : Word) : (signExtend v .word).toInt = (lowWord v).toInt := by
  rw [signExtend_word, BitVec.toInt_signExtend_of_le (by decide)]

theorem signExtend_word_eq_neg_one (v : Word) :
    signExtend v .word = 0xFFFFFFFF ↔ lowWord v = 0xFFFF := by
  rw [← BitVec.toInt_inj, toInt_signExtend_word, ← BitVec.toInt_inj]
  rfl

theorem divOverflow_v (s : Cpu μ) : (ccr (divOverflow s).sr).v = true := by
  simp [divOverflow, ccr, srV, srN, srZ]

theorem setV_v (s : Cpu μ) : (ccr (s.sr ||| srV)).v = true := by
  simp [ccr, srV]

theorem hostDivision_fits {signed : Bool} {dividend : Word} {divisor : Half} {a c : Int}
    (h : hostDivision signed dividend divisor = some (a, c)) :
    c ≠ 0 ∧ Fits 32 signed (a.tdiv c) := by
  unfold hostDivision at h
  split_ifs at h with hzero hsigned hmin
  · cases h
    have hc : divisor.toInt ≠ 0 := by
      rw [ne_eq, ← BitVec.toInt_zero, BitVec.toInt_inj]
      exact hzero
    have hor : dividend ≠ BitVec.intMin 32 ∨ divisor.signExtend 32 ≠ -1#32 := by
      by_contra hboth
      push Not at hboth
      refine hmin ⟨hboth.1, ?_⟩
      rw [← BitVec.toInt_inj, ← BitVec.toInt_signExtend_of_le (show 16 ≤ 32 by decide), hboth.2]
      rfl
    have hq := BitVec.toInt_sdiv_of_ne_or_ne _ _ hor
    rw [BitVec.toInt_signExtend_of_le (by decide)] at hq
    rw [hsigned, ← hq]
    exact ⟨hc, BitVec.le_toInt _, BitVec.toInt_lt⟩
  · cases h
    have hd := dividend.isLt
    have hquot := Nat.div_le_self dividend.toNat divisor.toNat
    have hc : divisor.toNat ≠ 0 := by
      rw [ne_eq, ← BitVec.toNat_zero, BitVec.toNat_inj]
      exact hzero
    rw [Bool.not_eq_true] at hsigned
    rw [hsigned, ← Int.ofNat_tdiv]
    refine ⟨by omega, ?_⟩
    generalize dividend.toNat / divisor.toNat = k at hquot
    exact ⟨Int.natCast_nonneg k, by omega⟩

theorem wordDivision_store {signed : Bool} {divisor : Half} {reg : Reg} {s : Cpu μ} {q r : Word}
    (hc : number signed divisor ≠ 0)
    (hfits : Fits 16 signed ((number signed (s.d reg)).tdiv (number signed divisor)))
    (hq : number signed (lowWord q) = (number signed (s.d reg)).tdiv (number signed divisor))
    (hr : number signed (lowWord r) = (number signed (s.d reg)).tmod (number signed divisor)) :
    WordDivision signed divisor reg s (storeDivW s reg q r) where
  quotient _ := by
    obtain ⟨heq, hlt, hsign⟩ := tdiv_tmod (a := number signed (s.d reg)) hc
    refine ⟨lowWord q, lowWord r, storeDivW_d s reg q r, storeDivW_v s reg q r, ?_⟩
    rw [hq, hr]
    exact ⟨heq, hlt, hsign⟩
  overflow hnot := absurd hfits hnot
  host _ _ := hostDivision_fits

theorem wordDivision_signed (s : Cpu μ) (reg : Reg) (src : Word) (hne : lowWord src ≠ 0) :
    WordDivision true (lowWord src) reg s
      (let src16 : Word := signExtend src .word
      if s.d reg = 0x80000000 ∧ src16 = 0xFFFFFFFF then divOverflow s
      else
        let q := (s.d reg).sdiv src16
        let r := (s.d reg).srem src16
        if (32767 : Word).slt q ∨ q.slt 0xFFFF8000 then { s with sr := s.sr ||| srV }
        else storeDivW s reg (q &&& 0xFFFF) (r &&& 0xFFFF)) := by
  have hc : (lowWord src).toInt ≠ 0 := by
    rw [ne_eq, ← BitVec.toInt_zero, BitVec.toInt_inj]
    exact hne
  by_cases hguard : s.d reg = 0x80000000 ∧ signExtend src .word = 0xFFFFFFFF
  · -- the one quotient that has no 32 bits
    have hlow := (signExtend_word_eq_neg_one src).mp hguard.2
    have hnot : ¬Fits 16 true ((number true (s.d reg)).tdiv (number true (lowWord src))) := by
      rw [hguard.1, hlow]
      decide
    dsimp only
    rw [if_pos hguard]
    exact ⟨fun h => absurd h hnot, fun _ => ⟨divOverflow_v s, rfl⟩, fun _ _ => hostDivision_fits⟩
  · have hor : s.d reg ≠ BitVec.intMin 32 ∨ signExtend src .word ≠ -1#32 := by
      by_contra hboth
      push Not at hboth
      exact hguard hboth
    have hq : ((s.d reg).sdiv (signExtend src .word)).toInt =
        (s.d reg).toInt.tdiv (lowWord src).toInt := by
      rw [BitVec.toInt_sdiv_of_ne_or_ne _ _ hor, toInt_signExtend_word]
    have hr : ((s.d reg).srem (signExtend src .word)).toInt =
        (s.d reg).toInt.tmod (lowWord src).toInt := by
      rw [BitVec.toInt_srem, toInt_signExtend_word]
    dsimp only
    rw [if_neg hguard]
    have hcond : ((32767 : Word).slt ((s.d reg).sdiv (signExtend src .word)) = true ∨
        ((s.d reg).sdiv (signExtend src .word)).slt 0xFFFF8000 = true) ↔
        ¬Fits 16 true ((number true (s.d reg)).tdiv (number true (lowWord src))) := by
      have hmax : (32767 : Word).toInt = 32767 := rfl
      have hmin : (0xFFFF8000 : Word).toInt = -32768 := rfl
      rw [BitVec.slt_iff_toInt_lt, BitVec.slt_iff_toInt_lt, hq, hmax, hmin]
      show _ ↔ ¬(_ ∧ _)
      show _ ↔ ¬(-32768 ≤ (s.d reg).toInt.tdiv (lowWord src).toInt ∧
        (s.d reg).toInt.tdiv (lowWord src).toInt < 32768)
      omega
    by_cases hout : Fits 16 true ((number true (s.d reg)).tdiv (number true (lowWord src)))
    · rw [if_neg (by rw [hcond]; exact not_not.mpr hout)]
      have hrlt := (tdiv_tmod (a := (s.d reg).toInt) hc).2.1
      have hlo := (lowWord src).le_toInt
      have hhi := (lowWord src).toInt_lt
      refine wordDivision_store hc hout ?_ ?_
      · show (lowWord _).toInt = _
        rw [lowWord_and, toInt_lowWord (by rw [hq]; exact hout), hq]
        rfl
      · show (lowWord _).toInt = _
        rw [lowWord_and, toInt_lowWord (by rw [hr, InSigned]; omega), hr]
        rfl
    · rw [if_pos (hcond.mpr hout)]
      exact ⟨fun h => absurd h hout, fun _ => ⟨setV_v s, rfl⟩, fun _ _ => hostDivision_fits⟩

theorem wordDivision_unsigned_iff (s : Cpu μ) (reg : Reg) (src : Word) (hne : lowWord src ≠ 0) :
    WordDivision false (lowWord src) reg s
        (storeDivW s reg (s.d reg / (src &&& 0xFFFF)) (s.d reg % (src &&& 0xFFFF))) ↔
      (s.d reg).toNat / (lowWord src).toNat < 2 ^ 16 := by
  have hc : (lowWord src).toNat ≠ 0 := by
    rw [ne_eq, ← BitVec.toNat_zero, BitVec.toNat_inj]
    exact hne
  have hdivisor : (src &&& 0xFFFF).toNat = (lowWord src).toNat := by
    rw [and_lowWord]
    exact BitVec.toNat_setWidth_of_le (by decide)
  have hfits : Fits 16 false ((number false (s.d reg)).tdiv (number false (lowWord src))) ↔
      (s.d reg).toNat / (lowWord src).toNat < 2 ^ 16 := by
    show (_ ∧ _) ↔ _
    show 0 ≤ ((s.d reg).toNat : Int).tdiv ((lowWord src).toNat : Int) ∧
      ((s.d reg).toNat : Int).tdiv ((lowWord src).toNat : Int) < _ ↔ _
    rw [← Int.ofNat_tdiv]
    generalize (s.d reg).toNat / (lowWord src).toNat = k
    exact ⟨fun h => by omega, fun h => ⟨Int.natCast_nonneg k, by omega⟩⟩
  rw [← hfits]
  constructor
  · intro h
    by_contra hout
    have hv := (h.overflow hout).1
    rw [storeDivW_v] at hv
    exact absurd hv (by decide)
  · intro hin
    have hq : (s.d reg / (src &&& 0xFFFF)).toNat = (s.d reg).toNat / (lowWord src).toNat := by
      rw [BitVec.toNat_udiv, hdivisor]
    have hr : (s.d reg % (src &&& 0xFFFF)).toNat = (s.d reg).toNat % (lowWord src).toNat := by
      rw [BitVec.toNat_umod, hdivisor]
    have hrlt := Nat.mod_lt (s.d reg).toNat (Nat.pos_of_ne_zero hc)
    have hlow := (lowWord src).isLt
    refine wordDivision_store (Int.natCast_ne_zero.mpr hc) hin ?_ ?_
    · show ((lowWord _).toNat : Int) = _
      rw [toNat_lowWord (by rw [hq]; exact hfits.mp hin), hq]
      exact Int.ofNat_tdiv ..
    · show ((lowWord _).toNat : Int) = _
      rw [toNat_lowWord (by rw [hr]; omega), hr]
      exact Int.ofNat_tmod ..

theorem execGroup8_div (b : Bus μ) (s : Cpu μ) {op : Half}
    (hmode : opmode op = 3 ∨ opmode op = 7)
    (hne : lowWord (eaRead b s (eaMode op) (eaReg op) .word).1 ≠ 0) :
    execGroup8 b s op =
      let (src, s) := eaRead b s (eaMode op) (eaReg op) .word
      let dst := s.d (regDx op)
      if opmode op = 7 then
        let src16 : Word := signExtend src .word
        if dst = 0x80000000 ∧ src16 = 0xFFFFFFFF then divOverflow s
        else
          let q := dst.sdiv src16
          let r := dst.srem src16
          if (32767 : Word).slt q ∨ q.slt 0xFFFF8000 then { s with sr := s.sr ||| srV }
          else storeDivW s (regDx op) (q &&& 0xFFFF) (r &&& 0xFFFF)
      else storeDivW s (regDx op) (dst / (src &&& 0xFFFF)) (dst % (src &&& 0xFFFF)) := by
  have hmask : (eaRead b s (eaMode op) (eaReg op) .word).1 &&& 0xFFFF ≠ 0 := by
    rw [and_lowWord]
    intro hzero
    apply hne
    apply BitVec.eq_of_toNat_eq
    have hnat := congrArg BitVec.toNat hzero
    exact (BitVec.toNat_setWidth_of_le (by decide)).symm.trans hnat
  rw [execGroup8, if_pos hmode, divW]
  dsimp only
  rw [if_neg hmask]

/-- The quotient and the remainder of the code are those of the host's division, and the host
divides nothing exactly behind the guard of DIVS.W. -/
theorem hostDivision_executed (signed : Bool) (dst : Word) {src : Word} (hne : lowWord src ≠ 0) :
    match hostDivision signed dst (lowWord src) with
    | none => signed = true ∧ dst = 0x80000000 ∧ signExtend src .word = 0xFFFFFFFF
    | some (a, c) =>
      if signed then
        (dst.sdiv (signExtend src .word)).toInt = a.tdiv c ∧
          (dst.srem (signExtend src .word)).toInt = a.tmod c
      else
        ((dst / (src &&& 0xFFFF)).toNat : Int) = a.tdiv c ∧
          ((dst % (src &&& 0xFFFF)).toNat : Int) = a.tmod c := by
  unfold hostDivision
  rw [if_neg hne]
  cases signed with
  | true =>
    simp only [if_true]
    by_cases hguard : dst = 0x80000000 ∧ lowWord src = 0xFFFF
    · rw [if_pos hguard]
      exact ⟨trivial, hguard.1, (signExtend_word_eq_neg_one src).2 hguard.2⟩
    · rw [if_neg hguard]
      have hor : dst ≠ BitVec.intMin 32 ∨ signExtend src .word ≠ -1#32 := by
        by_contra hboth
        push Not at hboth
        exact hguard ⟨hboth.1, (signExtend_word_eq_neg_one src).1 hboth.2⟩
      rw [← toInt_signExtend_word]
      exact ⟨BitVec.toInt_sdiv_of_ne_or_ne _ _ hor, BitVec.toInt_srem _ _⟩
  | false =>
    have hdivisor : (src &&& 0xFFFF).toNat = (lowWord src).toNat := by
      rw [and_lowWord]
      exact BitVec.toNat_setWidth_of_le (by decide)
    rw [← hdivisor]
    exact ⟨Int.ofNat_tdiv .., Int.ofNat_tmod ..⟩

/-- Word division, of every dividend by every divisor that is not zero: it is right in DIVS.W,
and in DIVU.W exactly when the quotient fits. -/
theorem execGroup8_wordDivision_iff (b : Bus μ) (s : Cpu μ) (op : Half)
    (hmode : opmode op = 3 ∨ opmode op = 7)
    (hne : lowWord (eaRead b s (eaMode op) (eaReg op) .word).1 ≠ 0) :
    let divisor := lowWord (eaRead b s (eaMode op) (eaReg op) .word).1
    let s1 := (eaRead b s (eaMode op) (eaReg op) .word).2
    WordDivision (decide (opmode op = 7)) divisor (regDx op) s1 (execGroup8 b s op) ↔
      opmode op = 7 ∨ (s1.d (regDx op)).toNat / divisor.toNat < 2 ^ 16 := by
  dsimp only
  rw [execGroup8_div b s hmode hne]
  dsimp only
  by_cases hsigned : opmode op = 7
  · rw [if_pos hsigned, decide_eq_true hsigned]
    exact iff_of_true (wordDivision_signed _ _ _ hne) (.inl hsigned)
  · rw [if_neg hsigned, decide_eq_false hsigned, wordDivision_unsigned_iff _ _ _ hne]
    exact (or_iff_right hsigned).symm

/-- DIVS.W D0,D1 by -1 of the most negative dividend. -/
theorem execGroup8_wordDivision_min :
    let s := ((cpuAt 0 0 0 rteRam).setD 0 0xFFFF).setD 1 0x80000000
    WordDivision true 0xFFFF 1 s (execGroup8 ram s 0x83C0) ↔
      (7 : Reg) = 7 ∨ (0x80000000 : Word).toNat / (0xFFFF : Half).toNat < 2 ^ 16 :=
  execGroup8_wordDivision_iff ram (((cpuAt 0 0 0 rteRam).setD 0 0xFFFF).setD 1 0x80000000) 0x83C0
    (.inr rfl) (by decide)

/-- DIVU.W D0,D1 of `0x10000` by 1 stores 0 for the quotient and clears V. -/
theorem divu_truncates :
    let s := ((cpuAt 0 0 0 rteRam).setD 0 1).setD 1 0x10000
    ¬WordDivision false 1 1 s (execGroup8 ram s 0x82C0) := by
  intro s h
  have hout := (h.overflow (by decide)).1
  exact absurd hout (by decide)

end MechanicalResearcher.ColdFire
