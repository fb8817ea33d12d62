import MechanicalResearcher.ColdFire.Frames
import MechanicalResearcher.ColdFire.Mac

/-!
# The accumulators stay 48 bits wide

Five instructions of group A write them, and a handler of hypercalls leaves them alone.  What a
context switch reads out is then enough to load them again.
-/

namespace MechanicalResearcher.ColdFire

open Lib Lib.Flags

variable {μ : Type}

/-! ## The invariant -/

/-- Every accumulator is its own sign extension from bit 47. -/
structure Acc48 (s : Cpu μ) : Prop where
  extended : ∀ n, signExtend48 (s.acc n) = s.acc n

theorem Acc48.of_acc {s s' : Cpu μ} (h : Acc48 s) (hacc : s'.acc = s.acc) : Acc48 s' where
  extended n := by
    rw [hacc]
    exact h.extended n

theorem Acc48.setAcc {s : Cpu μ} (h : Acc48 s) (n : BitVec 2) {v : BitVec 64}
    (hv : signExtend48 v = v) : Acc48 (setAcc s n v) where
  extended k := by
    change signExtend48 (Function.update s.acc n v k) = Function.update s.acc n v k
    rcases eq_or_ne k n with rfl | hk
    · rw [Function.update_self]
      exact hv
    · rw [Function.update_of_ne hk]
      exact h.extended k

theorem signExtend48_idem (v : BitVec 64) : signExtend48 (signExtend48 v) = signExtend48 v :=
  signExtend48_self (inSigned_signExtend48 v)

variable {s : Cpu μ} (h : Acc48 s)

include h

theorem Acc48.setAccExtPair (n : BitVec 2) (v : Word) : Acc48 (setAccExtPair s n v) :=
  (h.setAcc n (signExtend48_idem _)).setAcc (n + 1) (signExtend48_idem _)

theorem Acc48.loadAcc (n : BitVec 2) (v : Word) : Acc48 (loadAcc s n v) :=
  (h.setAcc n (signExtend48_idem _)).of_acc rfl

theorem Acc48.emacMoveTo (r rn : Reg) : Acc48 (emacMoveTo s r rn) := by
  unfold ColdFire.emacMoveTo
  dsimp only
  split
  · exact h.of_acc rfl
  · exact h.setAccExtPair 0 _
  · exact h.of_acc rfl
  · exact h.setAccExtPair 2 _
  · exact h.loadAcc _ _

theorem Acc48.emacMoveFrom (r rn : Reg) (special : Bool) :
    Acc48 (emacMoveFrom s r rn special) := by
  have hread : Acc48 (s.setD rn (emacRead s r)) := h.of_acc rfl
  unfold ColdFire.emacMoveFrom
  dsimp only
  split_ifs
  · exact (hread.setAcc _ (by decide)).of_acc rfl
  · exact hread

theorem Acc48.macStore (n : BitVec 2) (result : BitVec 64) : Acc48 (macStore s n result) where
  extended k := by
    rcases eq_or_ne k n with rfl | hk
    · rw [macStore_acc_eq]
      by_cases hin : InSigned 48 result.toInt
      · rw [if_neg (not_not.mpr hin)]
        exact signExtend48_self hin
      · rw [if_pos hin]
        split
        · split <;> decide
        · exact signExtend48_idem _
    · have hkeep : (ColdFire.macStore s n result).acc k = s.acc k := Function.update_of_ne hk ..
      rw [hkeep]
      exact h.extended k

theorem Acc48.emacInsn (b : Bus μ) (op : Half) : Acc48 (emacInsn b s op) := by
  have hfetch : Acc48 (fetch16 b s).2 := h.of_acc rfl
  unfold ColdFire.emacInsn
  split
  · unfold ColdFire.emacMove
    dsimp only
    split_ifs
    · exact h.of_acc rfl
    · exact h.emacMoveFrom _ _ _
    · exact h.emacMoveTo _ _
  · exact hfetch.macStore _ _

omit h

/-! ## Reachable states -/

/-- The handler works on registers and memory. -/
def LeavesAccumulators (m : Machine μ) : Prop :=
  ∀ f ∈ m.hypercall, ∀ (s : Cpu μ) (op : Half), (f s op).1.acc = s.acc

theorem Acc48.execGroupA {b : Bus μ} {hypercall : Hypercall μ}
    (hcall : ∀ f ∈ hypercall, ∀ (s : Cpu μ) (op : Half), (f s op).1.acc = s.acc)
    (h : Acc48 s) (op : Half) : Acc48 (execGroupA b hypercall s op) := by
  unfold ColdFire.execGroupA
  split
  · refine h.of_acc ?_
    unfold mov3q
    dsimp only
    split_ifs <;> simp
  · cases hypercall with
    | none => exact h.emacInsn b op
    | some f =>
      have hhost : Acc48 (f s op).1 := h.of_acc (hcall f rfl s op)
      dsimp only
      split_ifs
      · exact hhost
      · exact hhost.emacInsn b op

theorem execGroup_groupA (m : Machine μ) (s : Cpu μ) {op : Half}
    (hop : (op.extractLsb' 12 4).toNat = 0xA) :
    ColdFire.execGroup m s op = ColdFire.execGroupA m.bus m.hypercall s op := by
  simp only [ColdFire.execGroup, hop]

theorem Acc48.execGroup {m : Machine μ} (hm : LeavesAccumulators m) (h : Acc48 s) (op : Half) :
    Acc48 (execGroup m s op) := by
  by_cases hA : (op.extractLsb' 12 4).toNat = 0xA
  · rw [execGroup_groupA m s hA]
    exact h.execGroupA hm op
  · exact h.of_acc (acc_execGroup hA)

theorem Acc48.cfStep {m : Machine μ} (hm : LeavesAccumulators m) (h : Acc48 s) :
    Acc48 (cfStep m s).1 := by
  unfold ColdFire.cfStep
  split_ifs
  · exact h
  · have hfetch : Acc48 (fetch16 m.bus s).2 := h.of_acc rfl
    exact (hfetch.execGroup hm (fetch16 m.bus s).1).of_acc rfl

/-- From a reset, by instructions and by what the host does between them. -/
inductive Reachable (m : Machine μ) : Cpu μ → Prop
  | reset (s : Cpu μ) : Reachable m (cfReset m s)
  | step {s : Cpu μ} (run : Reachable m s) : Reachable m (cfStep m s).1
  | host {s s' : Cpu μ} (run : Reachable m s) (hacc : s'.acc = s.acc) : Reachable m s'

theorem Reachable.acc48 {m : Machine μ} (hm : LeavesAccumulators m) {s : Cpu μ}
    (run : Reachable m s) : Acc48 s := by
  induction run with
  | reset s =>
    constructor
    intro n
    exact (by decide : signExtend48 0 = 0)
  | step run ih => exact ih.cfStep hm
  | host run hacc ih => exact ih.of_acc hacc

/-! ## Reading out -/

/-- ACCn, and the extension word that holds its bits 47-32. -/
def accReg (n : BitVec 2) : Reg := n.zeroExtend 3

def extReg (n : BitVec 2) : Reg := if n.getLsbD 1 then 7 else 5

/-- The half of a longword that is the extension of accumulator `n`. -/
def extHalf (n : BitVec 2) (v : Word) : Word := if n.getLsbD 0 then v >>> 16 else v &&& 0xFFFF

theorem emacRead_accReg (s : Cpu μ) (n : BitVec 2) :
    emacRead s (accReg n) = (s.acc n).truncate 32 := by
  have hn : n = 0 ∨ n = 1 ∨ n = 2 ∨ n = 3 := by
    revert n
    decide
  rcases hn with rfl | rfl | rfl | rfl <;> rfl

theorem mask16_eq (w : Nat) : (0xFFFF : BitVec w) = Bits.lowMask w 16 := rfl

theorem mask32_eq : (0xFFFFFFFF : BitVec 64) = Bits.lowMask 64 32 := rfl

/-- Bits 47-32. -/
def extension (v : BitVec 64) : Word := (v.sshiftRight 32 &&& 0xFFFF).truncate 32

theorem getLsbD_extension (v : BitVec 64) (i : Nat) :
    (extension v).getLsbD i = (decide (i < 16) && v.getLsbD (32 + i)) := by
  by_cases hi : i < 64
  · rw [extension, mask16_eq, BitVec.getLsbD_setWidth, BitVec.getLsbD_and,
      Bits.getLsbD_lowMask hi, BitVec.getLsbD_sshiftRight]
    grind
  · rw [BitVec.getLsbD_of_ge _ _ (by omega), decide_eq_false (by omega), Bool.false_and]

theorem extHalf_pair (x y : BitVec 64) :
    extHalf 0 (extension x <<< 16 ||| extension y) = extension y ∧
      extHalf 1 (extension x <<< 16 ||| extension y) = extension x := by
  constructor
  · apply BitVec.eq_of_getLsbD_eq
    intro i hi
    rw [extHalf, if_neg (by decide), mask16_eq, BitVec.getLsbD_and, Bits.getLsbD_lowMask hi,
      BitVec.getLsbD_or, BitVec.getLsbD_shiftLeft, getLsbD_extension, getLsbD_extension]
    grind
  · apply BitVec.eq_of_getLsbD_eq
    intro i hi
    rw [extHalf, if_pos (by decide), BitVec.getLsbD_ushiftRight, BitVec.getLsbD_or,
      BitVec.getLsbD_shiftLeft, getLsbD_extension, getLsbD_extension, getLsbD_extension]
    grind

theorem extHalf_emacRead (s : Cpu μ) (n : BitVec 2) :
    extHalf n (emacRead s (extReg n)) = extension (s.acc n) := by
  have hn : n = 0 ∨ n = 1 ∨ n = 2 ∨ n = 3 := by
    revert n
    decide
  rcases hn with rfl | rfl | rfl | rfl
  · exact (extHalf_pair ..).1
  · exact (extHalf_pair ..).2
  · exact (extHalf_pair ..).1
  · exact (extHalf_pair ..).2

/-! ## Loading again -/

theorem getLsbD_signExtend48 (v : BitVec 64) {i : Nat} (hi : i < 48) :
    (signExtend48 v).getLsbD i = v.getLsbD i := by
  rw [signExtend48_eq, BitVec.getLsbD_signExtend, BitVec.getLsbD_setWidth]
  simp only [hi, if_true, decide_true, Bool.true_and, Bool.and_eq_right_iff_imp]
  intro _
  rw [decide_eq_true_eq]
  omega

/-- An accumulator from its extension and its low longword. -/
def withExt (ext : Word) (acc : BitVec 64) : BitVec 64 :=
  signExtend48 (ext.zeroExtend 64 <<< 32 ||| (acc &&& 0xFFFFFFFF))

theorem getLsbD_withExt (ext : Word) (acc : BitVec 64) {i : Nat} (hi : i < 48) :
    (withExt ext acc).getLsbD i = if i < 32 then acc.getLsbD i else ext.getLsbD (i - 32) := by
  rw [withExt, getLsbD_signExtend48 _ hi, mask32_eq, BitVec.getLsbD_or, BitVec.getLsbD_shiftLeft,
    BitVec.getLsbD_and, Bits.getLsbD_lowMask (by omega), BitVec.getLsbD_setWidth]
  grind

theorem withExt_low (ext : Word) (acc : BitVec 64) :
    (withExt ext acc).truncate 32 = acc.truncate 32 := by
  apply BitVec.eq_of_getLsbD_eq
  intro i hi
  rw [BitVec.getLsbD_setWidth, BitVec.getLsbD_setWidth, getLsbD_withExt ext acc (by omega),
    if_pos hi]

theorem signExtend48_congr {v w : BitVec 64} (h : ∀ i < 48, v.getLsbD i = w.getLsbD i) :
    signExtend48 v = signExtend48 w := by
  rw [signExtend48_eq, signExtend48_eq]
  congr 1
  apply BitVec.eq_of_getLsbD_eq
  intro i hi
  rw [BitVec.getLsbD_setWidth, BitVec.getLsbD_setWidth, h i hi]

theorem withExt_self {v acc : BitVec 64} (hv : signExtend48 v = v)
    (hlow : acc.truncate 32 = v.truncate 32) : withExt (extension v) acc = v := by
  have hacc {i : Nat} (hi : i < 32) : acc.getLsbD i = v.getLsbD i := by
    have hbit := congrArg (fun x => x.getLsbD i) hlow
    simpa [hi] using hbit
  calc withExt (extension v) acc
      = signExtend48 (withExt (extension v) acc) := (signExtend48_idem _).symm
    _ = signExtend48 v := by
        apply signExtend48_congr
        intro i hi
        rw [getLsbD_withExt _ _ hi, getLsbD_extension]
        split_ifs with hlt
        · exact hacc hlt
        · rw [decide_eq_true (by omega), Bool.true_and, Nat.add_sub_cancel' (by omega)]
    _ = v := hv

/-! ### One move -/

theorem acc_emacMoveTo_ext (s : Cpu μ) (n : BitVec 2) (rn : Reg) :
    (emacMoveTo s (extReg n) rn).acc n = withExt (extHalf n (s.d rn)) (s.acc n) := by
  have hn : n = 0 ∨ n = 1 ∨ n = 2 ∨ n = 3 := by
    revert n
    decide
  rcases hn with rfl | rfl | rfl | rfl <;> rfl

theorem acc_emacMoveTo_low (s : Cpu μ) (n : BitVec 2) (rn : Reg) :
    ((emacMoveTo s (accReg n) rn).acc n).truncate 32 = s.d rn := by
  have hload : (emacMoveTo s (accReg n) rn).acc n =
      signExtend48 (loadExt s.macsr (s.d rn) <<< 32 ||| (s.d rn).zeroExtend 64) := by
    have hn : n = 0 ∨ n = 1 ∨ n = 2 ∨ n = 3 := by
      revert n
      decide
    rcases hn with rfl | rfl | rfl | rfl <;> rfl
  rw [hload]
  apply BitVec.eq_of_getLsbD_eq
  intro i hi
  rw [BitVec.getLsbD_setWidth, getLsbD_signExtend48 _ (by omega), BitVec.getLsbD_or,
    BitVec.getLsbD_shiftLeft, BitVec.getLsbD_setWidth]
  have hi64 : i < 64 := by omega
  simp [hi, hi64]

theorem acc_setAccExtPair_other (s : Cpu μ) (v : Word) {n k : BitVec 2} (hn : k ≠ n)
    (hsucc : k ≠ n + 1) : (setAccExtPair s n v).acc k = s.acc k := by
  unfold setAccExtPair setAcc
  dsimp only
  rw [Function.update_of_ne hsucc, Function.update_of_ne hn]

theorem acc_emacMoveTo_other (s : Cpu μ) {n : BitVec 2} {r : Reg} (rn : Reg)
    (hacc : r ≠ accReg n) (hext : r ≠ extReg n) : (emacMoveTo s r rn).acc n = s.acc n := by
  have hload : r.toNat ≠ 4 → r.toNat ≠ 5 → r.toNat ≠ 6 → r.toNat ≠ 7 → n ≠ r.truncate 2 := by
    revert r n
    decide
  have hpair : (r.toNat = 5 → n ≠ 0 ∧ n ≠ 0 + 1) ∧ (r.toNat = 7 → n ≠ 2 ∧ n ≠ 2 + 1) := by
    clear hload
    revert r n
    decide
  unfold emacMoveTo
  dsimp only
  split
  case h_1 => rfl
  case h_2 h5 => exact acc_setAccExtPair_other s _ (hpair.1 h5).1 (hpair.1 h5).2
  case h_3 => rfl
  case h_4 h7 => exact acc_setAccExtPair_other s _ (hpair.2 h7).1 (hpair.2 h7).2
  case h_5 h4 h5 h6 h7 => exact Function.update_of_ne (hload h4 h5 h6 h7) ..

/-! ### A context switch -/

/-- MOVE.L ACCr,Dn, or MOVE.L Dn,ACCr. -/
structure IsEmacMove (op : Half) (out : Bool) (r rn : Reg) : Prop where
  group : op.extractLsb' 12 4 = 0xA
  move : op.getLsbD 8 = true
  direction : op.getLsbD 7 = out
  plain : op.getLsbD 6 = false
  emacReg : regDx op = r
  dataReg : eaReg op = rn

/-- The instruction is executed: a handler, which is asked first, declines it. -/
structure EmacMove (m : Machine μ) (out : Bool) (r rn : Reg) (op : Half) (s s' : Cpu μ) : Prop where
  form : IsEmacMove op out r rn
  declined : ∀ f ∈ m.hypercall, ∃ k ≠ 0, f s op = (s, k)
  result : s' = execGroup m s op

theorem EmacMove.eq_emacMove {m : Machine μ} {out : Bool} {r rn : Reg} {op : Half} {s s' : Cpu μ}
    (hmove : EmacMove m out r rn op s s') :
    s' = if out then emacMoveFrom s r rn false else emacMoveTo s r rn := by
  obtain ⟨hgroup, hbit, hdir, hplain, rfl, rfl⟩ := hmove.form
  have hnotMov3q : opmode op ≠ 5 := by
    intro h5
    have hbit0 : (opmode op).getLsbD 0 = op.getLsbD 6 := by
      rw [opmode, BitVec.getLsbD_extractLsb']
      rfl
    rw [h5, hplain] at hbit0
    exact absurd hbit0 (by decide)
  have hemac : emacInsn m.bus s op =
      if out then emacMoveFrom s (regDx op) (eaReg op) false
      else emacMoveTo s (regDx op) (eaReg op) := by
    have hand : op &&& 0x0100 ≠ 0 := (Bits.and_twoPow_ne_zero op (by decide : 8 < 16)).mpr hbit
    rw [emacInsn, if_pos hand, emacMove, hdir, hplain]
    simp
  rw [hmove.result, execGroup_groupA m s (congrArg BitVec.toNat hgroup), ← hemac]
  unfold execGroupA
  rw [if_neg hnotMov3q]
  cases hcall : m.hypercall with
  | none => rfl
  | some f =>
    obtain ⟨k, hk, hf⟩ := hmove.declined f hcall
    dsimp only
    rw [hf]
    exact if_neg hk

/-- The value that a register of the EMAC is read out with, while the accumulators stay. -/
def ReadOut (m : Machine μ) (s : Cpu μ) (r : Reg) (v : Word) : Prop :=
  ∃ (t t' : Cpu μ) (rn : Reg) (op : Half),
    t.acc = s.acc ∧ EmacMove m true r rn op t t' ∧ t'.d rn = v

/-- Registers of the EMAC are loaded one after the other with the values `v`, in any modes; other
instructions between the moves leave the accumulators alone. -/
inductive Reloads (m : Machine μ) (v : Reg → Word) : List Reg → Cpu μ → Cpu μ → Prop
  | done {t t' : Cpu μ} (hacc : t'.acc = t.acc) : Reloads m v [] t t'
  | move {r rn : Reg} {rs : List Reg} {op : Half} {t u u' t' : Cpu μ} (hacc : u.acc = t.acc)
      (hval : u.d rn = v r) (hmove : EmacMove m false r rn op u u') (rest : Reloads m v rs u' t') :
      Reloads m v (r :: rs) t t'

/-- Each extension after its accumulator. -/
def ExtensionsLast (rs : List Reg) : Prop :=
  ∀ n, ∃ before after, rs = before ++ extReg n :: after ∧ accReg n ∈ before ∧ accReg n ∉ after

section

variable {m : Machine μ} {s t t' : Cpu μ} {v : Reg → Word} {rs rs' : List Reg} {n : BitVec 2}

theorem d_emacMoveFrom (t : Cpu μ) (r rn : Reg) :
    (emacMoveFrom t r rn false).d rn = emacRead t r := d_setD t rn (emacRead t r)

theorem ReadOut.acc {w : Word} (hread : ReadOut m s (accReg n) w) :
    w = (s.acc n).truncate 32 := by
  obtain ⟨t, t', rn, op, hacc, hmove, rfl⟩ := hread
  rw [hmove.eq_emacMove, if_pos rfl, d_emacMoveFrom, emacRead_accReg, hacc]

theorem ReadOut.ext {w : Word} (hread : ReadOut m s (extReg n) w) :
    extHalf n w = extension (s.acc n) := by
  obtain ⟨t, t', rn, op, hacc, hmove, rfl⟩ := hread
  rw [hmove.eq_emacMove, if_pos rfl, d_emacMoveFrom, extHalf_emacRead, hacc]

theorem Reloads.append (hrun : Reloads m v (rs ++ rs') t t') :
    ∃ u, Reloads m v rs t u ∧ Reloads m v rs' u t' := by
  induction rs generalizing t with
  | nil => exact ⟨t, .done rfl, hrun⟩
  | cons r rs ih =>
    cases hrun with
    | move hacc hval hmove rest =>
      obtain ⟨u, hleft, hright⟩ := ih rest
      exact ⟨u, .move hacc hval hmove hleft, hright⟩

theorem acc_of_ext (hext : extHalf n (v (extReg n)) = extension (s.acc n)) (hs : Acc48 s)
    {r rn : Reg} {op : Half} {u u' : Cpu μ} (hr : r = extReg n) (hval : u.d rn = v r)
    (hmove : EmacMove m false r rn op u u')
    (hlowu : (u.acc n).truncate 32 = (s.acc n).truncate 32) : u'.acc n = s.acc n := by
  subst hr
  rw [hmove.eq_emacMove, if_neg (by decide), acc_emacMoveTo_ext, hval, hext]
  exact withExt_self (hs.extended n) hlowu

theorem Reloads.low (hlow : v (accReg n) = (s.acc n).truncate 32) (hrun : Reloads m v rs t t')
    (hin : accReg n ∈ rs ∨ (t.acc n).truncate 32 = (s.acc n).truncate 32) :
    (t'.acc n).truncate 32 = (s.acc n).truncate 32 := by
  induction hrun with
  | done hacc =>
    rw [hacc]
    exact hin.resolve_left List.not_mem_nil
  | @move r rn rs op t u u' t' hacc hval hmove rest ih =>
    apply ih
    have hmoved := hmove.eq_emacMove
    rw [if_neg (by decide)] at hmoved
    rcases eq_or_ne r (accReg n) with rfl | hr
    · right
      rw [hmoved, acc_emacMoveTo_low, hval, hlow]
    · rcases hin with hin | hin
      · exact .inl ((List.mem_cons.mp hin).resolve_left hr.symm)
      · right
        rw [← hin, ← hacc, hmoved]
        rcases eq_or_ne r (extReg n) with rfl | hext
        · rw [acc_emacMoveTo_ext, withExt_low]
        · rw [acc_emacMoveTo_other u rn hr hext]

variable (hext : extHalf n (v (extReg n)) = extension (s.acc n)) (hs : Acc48 s)

include hext hs

theorem Reloads.whole (hrun : Reloads m v rs t t') (hnot : accReg n ∉ rs)
    (hin : t.acc n = s.acc n) : t'.acc n = s.acc n := by
  induction hrun with
  | done hacc =>
    rw [hacc]
    exact hin
  | @move r rn rs op t u u' t' hacc hval hmove rest ih =>
    rw [List.mem_cons, not_or] at hnot
    apply ih hnot.2
    have hu : u.acc n = s.acc n := by rw [hacc, hin]
    rcases eq_or_ne r (extReg n) with hr | hr
    · exact acc_of_ext hext hs hr hval hmove (by rw [hu])
    · rw [hmove.eq_emacMove, if_neg (by decide),
        acc_emacMoveTo_other u rn (Ne.symm hnot.1) hr, hu]

theorem Reloads.restores (hlow : v (accReg n) = (s.acc n).truncate 32)
    (hrun : Reloads m v rs t t') (horder : ExtensionsLast rs) :
    t'.acc n = s.acc n := by
  obtain ⟨before, after, rfl, hbefore, hafter⟩ := horder n
  obtain ⟨u, hleft, hright⟩ := hrun.append
  have hlowu := hleft.low hlow (.inl hbefore)
  cases hright with
  | move hacc hval hmove rest =>
    refine rest.whole hext hs hafter ?_
    exact acc_of_ext hext hs rfl hval hmove (by rw [hacc, hlowu])

end

/-- The opword of a move with D0. -/
def emacMoveOp (out : Bool) (r : Reg) : Half :=
  (0xA : BitVec 4) ++ r ++ (1 : BitVec 1) ++ BitVec.ofBool out ++ (0 : BitVec 7)

theorem isEmacMove_emacMoveOp (out : Bool) (r : Reg) : IsEmacMove (emacMoveOp out r) out r 0 := by
  constructor <;> revert out r <;> decide

theorem emacMove_emacMoveOp {m : Machine μ} (hm : m.hypercall = none) (out : Bool) (r : Reg)
    (s : Cpu μ) : EmacMove m out r 0 (emacMoveOp out r) s (execGroup m s (emacMoveOp out r)) where
  form := isEmacMove_emacMoveOp out r
  declined := by simp [hm]
  result := rfl

theorem exists_reloads {m : Machine μ} (hm : m.hypercall = none) (v : Reg → Word) (rs : List Reg)
    (t : Cpu μ) : ∃ t', Reloads m v rs t t' := by
  induction rs generalizing t with
  | nil => exact ⟨t, .done rfl⟩
  | cons r rs ih =>
    have hmove := emacMove_emacMoveOp hm false r (t.setD 0 (v r))
    obtain ⟨t', hrest⟩ := ih (execGroup m (t.setD 0 (v r)) (emacMoveOp false r))
    exact ⟨t', .move (u := t.setD 0 (v r)) rfl (d_setD t 0 (v r)) hmove hrest⟩

theorem readOut_emacRead {m : Machine μ} (hm : m.hypercall = none) (s : Cpu μ) (r : Reg) :
    ReadOut m s r (emacRead s r) := by
  have hmove := emacMove_emacMoveOp hm true r s
  refine ⟨s, _, 0, _, rfl, hmove, ?_⟩
  rw [hmove.eq_emacMove, if_pos rfl, d_emacMoveFrom]

theorem extensionsLast_ascending : ExtensionsLast [0, 1, 2, 3, 5, 7] := by
  intro n
  cases hn : n.getLsbD 1 with
  | false =>
    refine ⟨[0, 1, 2, 3], [7], ?_⟩
    revert n
    decide
  | true =>
    refine ⟨[0, 1, 2, 3, 5], [], ?_⟩
    revert n
    decide

/-- The accumulators keep to 48 bits, and what is read out of them, moved back with the
extensions after the accumulators, gives all four. -/
theorem reachable_restores {m : Machine μ} (hm : LeavesAccumulators m) {s : Cpu μ}
    (run : Reachable m s) :
    Acc48 s ∧ ∀ (v : Reg → Word) (rs : List Reg) (t t' : Cpu μ),
      (∀ n, ReadOut m s (accReg n) (v (accReg n)) ∧ ReadOut m s (extReg n) (v (extReg n))) →
      ExtensionsLast rs → Reloads m v rs t t' → t'.acc = s.acc := by
  have hs := run.acc48 hm
  refine ⟨hs, ?_⟩
  intro v rs t t' hread horder hrun
  ext1 n
  exact hrun.restores (hread n).2.ext hs (hread n).1.acc horder

/-- MOVE.L D0,ACC1, of a negative D0. -/
def accCode : Cpu (Word → BitVec 8) :=
  (cpuAt 0x1000 0x8000 srS fun a => if a = 0x1000 then 0xA3 else 0).setD 0 0x80000000

theorem reachable_restores_negative :
    ∃ s t' : Cpu (Word → BitVec 8), (s.acc 1).toInt = -2 ^ 31 ∧
      Reloads ramMachine (emacRead s) [0, 1, 2, 3, 5, 7] (cfReset ramMachine s) t' ∧
      t'.acc = s.acc := by
  have run : Reachable ramMachine (cfStep ramMachine accCode).1 :=
    .step (.host (.reset accCode) rfl)
  obtain ⟨t', hrun⟩ := exists_reloads (m := ramMachine) rfl
    (emacRead (cfStep ramMachine accCode).1) [0, 1, 2, 3, 5, 7]
    (cfReset ramMachine (cfStep ramMachine accCode).1)
  have hall := reachable_restores (m := ramMachine) (fun f hf => by cases hf) run
  refine ⟨_, t', by decide, hrun, hall.2 _ _ _ _ ?_ extensionsLast_ascending hrun⟩
  intro n
  exact ⟨readOut_emacRead rfl _ _, readOut_emacRead rfl _ _⟩

end MechanicalResearcher.ColdFire
