import Mathlib.Algebra.Order.BigOperators.Group.List
import Mathlib.Data.List.GetD
import Mathlib.Data.List.Sort
import Mathlib.Data.Set.Basic
import MechanicalResearcher.PortableCompiler.Emit
import MechanicalResearcher.PortableCompiler.Regalloc

/-!
# The code of the data instructions

A temp lives in a register `%d2` to `%d7` or in a spill slot of the frame, and the emitted code
computes in `%d0`, `%d1` and `%a0`.  `Simulates` says that a run of the code of an instruction
does to the locations of the temps and to the memory what the instruction does to the temps and
the memory of the intermediate code.
-/

namespace MechanicalResearcher.PortableCompiler

open Lib.ByteMemory

variable {x : Word} {mem : Mem} {mnem : Alu} {op : Op} {sz : Size} {signExtend clearFirst : Bool}

/-! ## Locations -/

/-- A temp is in a register or in a spill slot, as the allocator leaves it. -/
def Func.Located (fn : Func) (t : Nat) : Prop :=
  (∃ r, fn.tempReg t = some r ∧ 2 ≤ r ∧ r ≤ 7 ∧ fn.tempSpill t = none) ∨
    (fn.tempReg t = none ∧ ∃ o, fn.tempSpill t = some o ∧ 4 ∣ o ∧ o < 4 * fn.nspills)

def Func.SameLoc (fn : Func) (t u : Nat) : Prop :=
  fn.tempReg t = fn.tempReg u ∧ fn.tempSpill t = fn.tempSpill u

/-- What the location of a temp holds. -/
def Func.tempVal (fn : Func) (m : Mach) (t : Nat) : Word :=
  match fn.tempReg t with
  | some r => m.d r
  | none => readL m.mem (m.frameAt (spillByteOffset fn t))

/-- The four bytes at an offset in the frame. -/
def Mach.frameBytes (m : Mach) (off : Int) : Set Word :=
  {x | ∃ j < 4, x = m.frameAt (off + (j : Nat))}

/-- The bytes of the spill slot of a temp. -/
def Func.spillBytes (fn : Func) (m : Mach) (t : Nat) : Set Word :=
  if (fn.tempReg t).isSome then ∅ else m.frameBytes (spillByteOffset fn t)

/-- The bytes of a parameter or of a local. -/
def Func.slotBytes (fn : Func) (m : Mach) (k : Nat) : Set Word :=
  {x | ∃ j < if k < fn.nparams then 4 else roundUp (fn.slotSize.getD k 0),
    x = m.frameAt (slotOffset fn k + (j : Nat))}

/-- The frame, the parameters over it and the saved registers and a pushed word under it lie in
the address space. -/
def Func.Fits (fn : Func) : Prop := frameSize fn + 4 * fn.nparams + 36 ≤ 2 ^ 32

theorem regalloc_located (q : Qsort) {fn : Func} {t : Nat} (ht : t < fn.ntemps)
    (hdef : ∃ i ∈ fn.code, i.dst = some t) : (regalloc q fn).Located t :=
  regalloc_location q fn ht hdef

/-! ## Addresses in the frame -/

section Frame

variable {fn : Func} {m : Mach}

theorem frameAt_add (off : Int) (j : Nat) :
    m.frameAt off + BitVec.ofNat 32 j = m.frameAt (off + j) := by
  rw [Mach.frameAt, Mach.frameAt, BitVec.add_assoc, BitVec.ofInt_add, BitVec.ofInt_natCast]

theorem frameAt_ne {p p' : Int} (hne : p ≠ p') (hlo : p - p' < 2 ^ 32) (hhi : p' - p < 2 ^ 32) :
    m.frameAt p ≠ m.frameAt p' := by
  intro heq
  have hint : BitVec.ofInt 32 p = BitVec.ofInt 32 p' := (BitVec.add_right_inj m.fp).mp heq
  have hnat := congrArg BitVec.toNat hint
  rw [BitVec.toNat_ofInt, BitVec.toNat_ofInt] at hnat
  omega

theorem spillBytes_reg {t r : Nat} (h : fn.tempReg t = some r) : fn.spillBytes m t = ∅ := by
  rw [Func.spillBytes, h, Option.isSome_some, if_pos rfl]

theorem spillBytes_spilled {t : Nat} (h : fn.tempReg t = none) :
    fn.spillBytes m t = m.frameBytes (spillByteOffset fn t) := by
  rw [Func.spillBytes, h, Option.isSome_none, if_neg Bool.false_ne_true]

theorem spillByteOffset_eq {t o : Nat} (h : fn.tempSpill t = some o) :
    spillByteOffset fn t = -(localsSize fn : Int) - (o + 4) := by
  rw [spillByteOffset, h, Option.elim_some]

theorem slotOffset_lower (fn : Func) (k : Nat) : -(localsSize fn : Int) ≤ slotOffset fn k := by
  rw [slotOffset]
  split
  · omega
  · rw [List.drop_take, List.map_take, localsSize]
    have hsum := List.sum_take_add_sum_drop
      ((fn.slotSize.drop fn.nparams).map roundUp) (k + 1 - fn.nparams)
    omega

theorem slotOffset_upper {k j : Nat} (hk : ¬k < fn.nparams)
    (hj : j < roundUp (fn.slotSize.getD k 0)) : slotOffset fn k + j < 0 := by
  have hlt : k < fn.slotSize.length := by
    by_contra hout
    rw [List.getD_eq_default _ _ (Nat.not_lt.mp hout)] at hj
    have hzero : roundUp 0 = 0 := rfl
    omega
  have hget : ((fn.slotSize.drop fn.nparams).map roundUp)[k - fn.nparams]? =
      some (roundUp (fn.slotSize.getD k 0)) := by
    have hat : fn.nparams + (k - fn.nparams) = k := by omega
    rw [List.getElem?_map, List.getElem?_drop, hat, List.getElem?_eq_getElem hlt, Option.map_some,
      List.getD_eq_getElem _ _ hlt]
  have hlast : k + 1 - fn.nparams = (k - fn.nparams) + 1 := by omega
  rw [slotOffset, if_neg hk, List.drop_take, List.map_take, hlast, List.take_add_one, hget]
  simp only [Option.toList_some, List.sum_append, List.sum_cons, List.sum_nil]
  omega

theorem slotBytes_apart (hfits : fn.Fits) {t k : Nat} (ht : fn.Located t)
    (hx : x ∈ fn.slotBytes m k) : x ∉ fn.spillBytes m t := by
  obtain ⟨j, hj, rfl⟩ := hx
  rw [Func.Fits, frameSize] at hfits
  rcases ht with ⟨r, hreg, -⟩ | ⟨hreg, o, hspill, hdvd, ho⟩
  · rw [spillBytes_reg hreg]
    exact Set.notMem_empty _
  · rw [spillBytes_spilled hreg]
    rintro ⟨l, hl, heq⟩
    have hlower := slotOffset_lower fn k
    have hupper : slotOffset fn k + j < 8 + 4 * fn.nparams := by
      split_ifs at hj with hk
      · rw [slotOffset, if_pos hk]
        omega
      · have hneg := slotOffset_upper hk hj
        omega
    have hoff := spillByteOffset_eq hspill
    obtain ⟨c, rfl⟩ := hdvd
    exact frameAt_ne (by omega) (by omega) (by omega) heq

theorem spillBytes_apart (hfits : fn.Fits) {t u : Nat} (ht : fn.Located t) (hu : fn.Located u)
    (hne : ¬fn.SameLoc t u) (hx : x ∈ fn.spillBytes m t) : x ∉ fn.spillBytes m u := by
  rw [Func.Fits, frameSize] at hfits
  rcases ht with ⟨r, hreg, -⟩ | ⟨hreg, o, hspill, ⟨c, hc⟩, ho⟩
  · rw [spillBytes_reg hreg] at hx
    exact absurd hx (Set.notMem_empty x)
  rcases hu with ⟨r', hreg', -⟩ | ⟨hreg', o', hspill', ⟨c', hc'⟩, ho'⟩
  · rw [spillBytes_reg hreg']
    exact Set.notMem_empty x
  rw [spillBytes_spilled hreg] at hx
  rw [spillBytes_spilled hreg']
  obtain ⟨j, hj, rfl⟩ := hx
  rintro ⟨l, hl, heq⟩
  have hoo : o ≠ o' := by
    intro hoo
    exact hne ⟨hreg.trans hreg'.symm, by rw [hspill, hspill', hoo]⟩
  have hoff := spillByteOffset_eq hspill
  have hoff' := spillByteOffset_eq hspill'
  exact frameAt_ne (by omega) (by omega) (by omega) heq

theorem writeL_other {off : Int} {v : Word} (hx : x ∉ m.frameBytes off) :
    writeL mem (m.frameAt off) v x = mem x := by
  have hne (j : Nat) (hj : j < 4) : x ≠ m.frameAt off + BitVec.ofNat 32 j := by
    intro heq
    exact hx ⟨j, hj, by rw [heq, frameAt_add]⟩
  have h0 : x ≠ m.frameAt off := by
    intro heq
    exact hne 0 (by decide) (by rw [heq]; simp)
  have h1 : x ≠ m.frameAt off + 1 := hne 1 (by decide)
  have h2 : x ≠ m.frameAt off + 2 := hne 2 (by decide)
  have h3 : x ≠ m.frameAt off + 3 := hne 3 (by decide)
  rw [writeL_apply, if_neg h3, if_neg h2, if_neg h1, if_neg h0]

theorem readL_frame_congr {m : Mach} {mem' : Mem} {off : Int}
    (h : ∀ x ∈ m.frameBytes off, mem' x = mem x) :
    readL mem' (m.frameAt off) = readL mem (m.frameAt off) := by
  have hbyte (j : Nat) (hj : j < 4) : mem' (m.frameAt off + BitVec.ofNat 32 j) =
      mem (m.frameAt off + BitVec.ofNat 32 j) := by
    apply h
    exact ⟨j, hj, frameAt_add off j⟩
  have h0 := hbyte 0 (by decide)
  rw [frameAt_add, Int.natCast_zero, Int.add_zero] at h0
  exact SameL.readL ⟨h0, hbyte 1 (by decide), hbyte 2 (by decide), hbyte 3 (by decide)⟩

end Frame

/-! ## Scratch registers -/

/-- Only the scratch registers and the condition codes differ. -/
structure Kept (m m' : Mach) : Prop where
  d : ∀ r, 2 ≤ r → m'.d r = m.d r
  fp : m'.fp = m.fp
  sp : m'.sp = m.sp
  mem : m'.mem = m.mem

section Scratch

variable {fn : Func} {sym : String → Word} {m m' m'' : Mach} {t k : Nat} {v : Word}

theorem Kept.refl (m : Mach) : Kept m m := ⟨fun _ _ => rfl, rfl, rfl, rfl⟩

theorem Kept.trans (h : Kept m m') (h' : Kept m' m'') : Kept m m'' where
  d r hr := (h'.d r hr).trans (h.d r hr)
  fp := h'.fp.trans h.fp
  sp := h'.sp.trans h.sp
  mem := h'.mem.trans h.mem

theorem Kept.setD (h : Kept m m') (hk : k < 2) (v : Word) : Kept m (m'.setD k v) where
  d r hr := by
    have hne : r ≠ k := by omega
    exact (Function.update_of_ne hne v m'.d).trans (h.d r hr)
  fp := h.fp
  sp := h.sp
  mem := h.mem

theorem Kept.tempVal (h : Kept m m') (ht : fn.Located t) : fn.tempVal m' t = fn.tempVal m t := by
  rcases ht with ⟨r, hreg, hr, -⟩ | ⟨hreg, -⟩
  · simp only [Func.tempVal, hreg]
    exact h.d r hr
  · simp only [Func.tempVal, hreg, Mach.frameAt, h.fp, h.mem]

theorem rs_reg (ht : fn.Located t) :
    (2 ≤ (rs fn t k).2 ∧ fn.tempReg t = some (rs fn t k).2) ∨
      ((rs fn t k).2 = k ∧ fn.tempReg t = none) := by
  rcases ht with ⟨r, hreg, hr, -⟩ | ⟨hreg, -⟩
  · exact Or.inl (by simp [rs, hreg, hr])
  · exact Or.inr (by simp [rs, hreg])

theorem rs_run (sym : String → Word) (m : Mach) (ht : fn.Located t) (hk : k < 2) :
    ∃ m', runAsm sym (rs fn t k).1 m = some m' ∧ m'.d (rs fn t k).2 = fn.tempVal m t ∧
      Kept m m' ∧ ∀ r, r ≠ k → m'.d r = m.d r := by
  rcases ht with ⟨r, hreg, -⟩ | ⟨hreg, -⟩
  · refine ⟨m, ?_, ?_, Kept.refl m, fun _ _ => rfl⟩
    · simp [rs, hreg]
    · simp [rs, hreg, Func.tempVal]
  · refine ⟨m.setD k (fn.tempVal m t), ?_, ?_, (Kept.refl m).setD hk _, ?_⟩
    · simp [rs, hreg, Func.tempVal, runAsm, exec, execMove, readOperand, writeOperand]
    · simp [rs, hreg, Mach.setD]
    · intro r hr
      exact Function.update_of_ne hr _ m.d

theorem rs_pair_run (sym : String → Word) (m : Mach) {a b : Nat} (ha : fn.Located a)
    (hb : fn.Located b) :
    ∃ m', runAsm sym ((rs fn a 0).1 ++ (rs fn b 1).1) m = some m' ∧
      m'.d (rs fn a 0).2 = fn.tempVal m a ∧ m'.d (rs fn b 1).2 = fn.tempVal m b ∧ Kept m m' := by
  obtain ⟨m1, hrun1, hval1, hkept1, -⟩ := rs_run sym m ha (show 0 < 2 by decide)
  obtain ⟨m2, hrun2, hval2, hkept2, hother⟩ := rs_run sym m1 hb (show 1 < 2 by decide)
  have hne : (rs fn a 0).2 ≠ 1 := by
    rcases rs_reg (k := 0) ha with ⟨hr, -⟩ | ⟨hr, -⟩
    · omega
    · omega
  refine ⟨m2, ?_, ?_, ?_, hkept1.trans hkept2⟩
  · rw [runAsm_trans hrun1, hrun2]
  · rw [hother _ hne, hval1]
  · rw [hval2, hkept1.tempVal hb]

end Scratch

/-! ## The result of an instruction -/

/-- The location of `dst` holds `w`, and the other registers and the rest of the memory are as
before. -/
structure Effect (fn : Func) (dst : Nat) (w : Word) (m m' : Mach) : Prop where
  d : ∀ r, 2 ≤ r → m'.d r = if fn.tempReg dst = some r then w else m.d r
  mem : m'.mem = if (fn.tempReg dst).isSome then m.mem
    else writeL m.mem (m.frameAt (spillByteOffset fn dst)) w
  fp : m'.fp = m.fp
  sp : m'.sp = m.sp

/-- The state when the result is computed, before `wd`. -/
structure Ready (fn : Func) (dst : Nat) (w : Word) (m m' : Mach) : Prop where
  value : m'.d (rd fn dst 0) = w
  d : ∀ r, 2 ≤ r → r ≠ rd fn dst 0 → m'.d r = m.d r
  fp : m'.fp = m.fp
  sp : m'.sp = m.sp
  mem : m'.mem = m.mem

section Result

variable {fn : Func} {sym : String → Word} {m m' : Mach} {a b dst : Nat} {w : Word}

theorem Kept.ready (h : Kept m m') (w : Word) : Ready fn dst w m (m'.setD (rd fn dst 0) w) where
  value := Function.update_self ..
  d r hr hne := (Function.update_of_ne hne ..).trans (h.d r hr)
  fp := h.fp
  sp := h.sp
  mem := h.mem

theorem Ready.again {m'' : Mach} {v : Word} (h : Ready fn dst v m m')
    (hm'' : m'' = m'.setD (rd fn dst 0) w) : Ready fn dst w m m'' := by
  subst hm''
  exact ⟨Function.update_self .., fun r hr hne => (Function.update_of_ne hne ..).trans (h.d r hr
    hne),
    h.fp, h.sp, h.mem⟩

theorem wd_run (sym : String → Word) (h : Ready fn dst w m m') :
    ∃ m'', runAsm sym (wd fn dst (rd fn dst 0)) m' = some m'' ∧ Effect fn dst w m m'' := by
  rcases hreg : fn.tempReg dst with _ | r
  · have hrd : rd fn dst 0 = 0 := by rw [rd, hreg, Option.getD_none]
    have hvalue := h.value
    rw [hrd] at hvalue
    refine ⟨{ m' with mem := writeL m'.mem (m'.frameAt (spillByteOffset fn dst)) w, cc := none },
      ?_, ?_⟩
    · simp [wd, hreg, hrd, runAsm, exec, execMove, readOperand, writeOperand, hvalue]
    · constructor
      case d =>
          intro r hr
          rw [hreg, if_neg (Option.some_ne_none r).symm]
          exact h.d r hr (by omega)
      case mem => simp [hreg, h.mem, Mach.frameAt, h.fp]
      case fp => exact h.fp
      case sp => exact h.sp
  · have hrd : rd fn dst 0 = r := by rw [rd, hreg, Option.getD_some]
    refine ⟨m', ?_, ?_⟩
    · simp [wd, hreg]
    · constructor
      case d =>
          intro n hn
          by_cases heq : r = n
          · rw [hreg, if_pos (congrArg some heq), ← heq, ← hrd]
            exact h.value
          · rw [hreg, if_neg (fun hsome => heq (Option.some.inj hsome))]
            exact h.d n hn (by omega)
      case mem => rw [hreg, Option.isSome_some, if_pos rfl, h.mem]
      case fp => exact h.fp
      case sp => exact h.sp

theorem result_run {m0 : Mach} {code : List Asm} (hrun : runAsm sym code m = some m')
    (h : Ready fn dst w m0 m') :
    ∃ m'', runAsm sym (code ++ wd fn dst (rd fn dst 0)) m = some m'' ∧ Effect fn dst w m0 m'' := by
  obtain ⟨m'', hrun', heffect⟩ := wd_run sym h
  exact ⟨m'', by rw [runAsm_trans hrun, hrun'], heffect⟩

theorem moveReg_run (sym : String → Word) (m : Mach) (s n : Nat) :
    runAsm sym (moveReg s n) m = some (if s = n then m else m.setD n (m.d s)) := by
  rw [moveReg]
  split
  · rfl
  · rfl

theorem rd_reg (hdst : fn.Located dst) : 2 ≤ rd fn dst 0 ∨ rd fn dst 0 = 0 := by
  rcases hdst with ⟨r, hreg, hr, -⟩ | ⟨hreg, -⟩
  · exact Or.inl (by simp [rd, hreg, hr])
  · exact Or.inr (by simp [rd, hreg])

/-! ## The groups -/

theorem emitBinop_run (sym : String → Word) (m : Mach) (ha : fn.Located a) (hb : fn.Located b)
    (hdst : fn.Located dst) (hw : mnem.eval (fn.tempVal m b) (fn.tempVal m a) = some w) :
    ∃ m', runAsm sym (emitBinop fn a b dst mnem) m = some m' ∧ Effect fn dst w m m' := by
  obtain ⟨m1, hrun, hva, hvb, hkept⟩ := rs_pair_run sym m ha hb
  have hrd := rd_reg hdst
  have hsa : (rs fn a 0).2 ≠ 1 := by
    rcases rs_reg (k := 0) ha with ⟨hr, -⟩ | ⟨hr, -⟩
    · omega
    · omega
  have hsd : rd fn dst 0 ≠ 1 := by omega
  by_cases hclash : (rs fn b 1).2 = rd fn dst 0 ∧ (rs fn a 0).2 ≠ rd fn dst 0
  · -- the second operand moves out of the way of the destination
    have hready : Ready fn dst (fn.tempVal m a) m _ :=
      (hkept.setD (show 1 < 2 by decide) (fn.tempVal m b)).ready _
    have hcode : runAsm sym ((rs fn a 0).1 ++ (rs fn b 1).1 ++
        ([.move .l (.d (rs fn b 1).2) (.d 1)] : List Asm) ++
        moveReg (rs fn a 0).2 (rd fn dst 0) ++ ([.alu mnem 1 (rd fn dst 0)] : List Asm)) m =
          some (((m1.setD 1 (fn.tempVal m b)).setD (rd fn dst 0) (fn.tempVal m a)).setD
            (rd fn dst 0) w) := by
      rw [List.append_assoc, List.append_assoc, runAsm_trans hrun]
      simp [moveReg, hclash.2, runAsm, exec, execMove, readOperand, writeOperand, hva, hvb, hsa,
        hw, Mach.setD, Function.update_of_ne, hsd.symm]
    rw [emitBinop]
    simp only [if_pos hclash]
    exact result_run hcode (hready.again rfl)
  · by_cases hsame : (rs fn a 0).2 = rd fn dst 0
    · have hcode : runAsm sym ((rs fn a 0).1 ++ (rs fn b 1).1 ++ ([] : List Asm) ++
          moveReg (rs fn a 0).2 (rd fn dst 0) ++
          ([.alu mnem (rs fn b 1).2 (rd fn dst 0)] : List Asm)) m =
            some (m1.setD (rd fn dst 0) w) := by
        rw [List.append_assoc, List.append_assoc, runAsm_trans hrun, moveReg, if_pos hsame,
          ← hsame]
        simp [runAsm, exec, hva, hvb, hw]
      rw [emitBinop]
      simp only [if_neg hclash]
      exact result_run hcode (hkept.ready w)
    · have hother : (rs fn b 1).2 ≠ rd fn dst 0 := fun h => hclash ⟨h, hsame⟩
      have hcode : runAsm sym ((rs fn a 0).1 ++ (rs fn b 1).1 ++ ([] : List Asm) ++
          moveReg (rs fn a 0).2 (rd fn dst 0) ++
          ([.alu mnem (rs fn b 1).2 (rd fn dst 0)] : List Asm)) m =
            some ((m1.setD (rd fn dst 0) (fn.tempVal m a)).setD (rd fn dst 0) w) := by
        rw [List.append_assoc, List.append_assoc, runAsm_trans hrun]
        simp [moveReg, hsame, runAsm, exec, execMove, readOperand, writeOperand, hva, hvb, hw,
          Mach.setD, Function.update_of_ne, hother]
      rw [emitBinop]
      simp only [if_neg hclash]
      exact result_run hcode ((hkept.ready (fn.tempVal m a)).again rfl)

theorem moveReg_ready (hkept : Kept m m') {s : Nat} {v : Word} (hs : m'.d s = v) :
    ∃ m'', runAsm sym (moveReg s (rd fn dst 0)) m' = some m'' ∧ Ready fn dst v m m'' := by
  refine ⟨_, moveReg_run sym m' s (rd fn dst 0), ?_⟩
  by_cases hsame : s = rd fn dst 0
  · rw [if_pos hsame]
    exact ⟨hsame ▸ hs, fun r hr _ => hkept.d r hr, hkept.fp, hkept.sp, hkept.mem⟩
  · rw [if_neg hsame, hs]
    exact hkept.ready v

theorem emitMov_run (sym : String → Word) (m : Mach) (ha : fn.Located a) :
    ∃ m', runAsm sym (emitMov fn a dst) m = some m' ∧ Effect fn dst (fn.tempVal m a) m m' := by
  obtain ⟨m1, hrun, hva, hkept, -⟩ := rs_run sym m ha (show 0 < 2 by decide)
  obtain ⟨m2, hmove, hready⟩ := moveReg_ready hkept hva
  exact result_run ((runAsm_trans hrun).trans hmove) hready

theorem emitUnop_run (sym : String → Word) (m : Mach) (ha : fn.Located a) (mnem : Unary) :
    ∃ m', runAsm sym (emitUnop fn a dst mnem) m = some m' ∧
      Effect fn dst (mnem.eval (fn.tempVal m a)) m m' := by
  obtain ⟨m1, hrun, hva, hkept, -⟩ := rs_run sym m ha (show 0 < 2 by decide)
  obtain ⟨m2, hmove, hready⟩ := moveReg_ready hkept hva
  have hcode : runAsm sym ((rs fn a 0).1 ++ moveReg (rs fn a 0).2 (rd fn dst 0) ++
      ([.unary mnem (rd fn dst 0)] : List Asm)) m =
        some (m2.setD (rd fn dst 0) (mnem.eval (fn.tempVal m a))) := by
    rw [List.append_assoc, runAsm_trans hrun, runAsm_trans hmove, ← hready.value]
    rfl
  exact result_run hcode (hready.again rfl)

/-! Loads widen a byte or a half in the destination register. -/

theorem getLsbD_setLow8 (v : Word) (x : BitVec 8) (i : Nat) :
    (setLow8 v x).getLsbD i = if i < 8 then x.getLsbD i else (v.extractLsb' 8 24).getLsbD (i - 8) :=
  BitVec.getLsbD_append

theorem getLsbD_setLow16 (v : Word) (x : BitVec 16) (i : Nat) :
    (setLow16 v x).getLsbD i =
      if i < 16 then x.getLsbD i else (v.extractLsb' 16 16).getLsbD (i - 16) :=
  BitVec.getLsbD_append

theorem setLow8_zero (x : BitVec 8) : setLow8 0 x = x.zeroExtend 32 := by
  apply BitVec.eq_of_getLsbD_eq
  intro i hi
  rw [getLsbD_setLow8]
  by_cases hlow : i < 8
  · simp [hlow, hi]
  · simp [hlow, BitVec.getLsbD_of_ge x i (Nat.not_lt.mp hlow)]

theorem setLow16_zero (x : BitVec 16) : setLow16 0 x = x.zeroExtend 32 := by
  apply BitVec.eq_of_getLsbD_eq
  intro i hi
  rw [getLsbD_setLow16]
  by_cases hlow : i < 16
  · simp [hlow, hi]
  · simp [hlow, BitVec.getLsbD_of_ge x i (Nat.not_lt.mp hlow)]

theorem extract_setLow8 (v : Word) (x : BitVec 8) : (setLow8 v x).extractLsb' 0 8 = x := by
  ext i hi
  rw [BitVec.getElem_extractLsb', Nat.zero_add, getLsbD_setLow8, if_pos hi,
    BitVec.getLsbD_eq_getElem]

theorem extract_setLow16 (v : Word) (x : BitVec 16) : (setLow16 v x).extractLsb' 0 16 = x := by
  ext i hi
  rw [BitVec.getElem_extractLsb', Nat.zero_add, getLsbD_setLow16, if_pos hi,
    BitVec.getLsbD_eq_getElem]

theorem extL_setLow16 (v : Word) (x : BitVec 16) :
    Unary.extL.eval (setLow16 v x) = x.signExtend 32 := by
  rw [Unary.eval, extract_setLow16]

theorem extL_extW_setLow8 (v : Word) (x : BitVec 8) :
    Unary.extL.eval (Unary.extW.eval (setLow8 v x)) = x.signExtend 32 := by
  rw [Unary.eval, Unary.eval, extract_setLow16, extract_setLow8]
  apply BitVec.eq_of_toInt_eq
  rw [BitVec.toInt_signExtend_of_le (by decide), BitVec.toInt_signExtend_of_le (by decide),
    BitVec.toInt_signExtend_of_le (by decide)]

/-- The size and the two flags of a load. -/
def loadShape : Op → Option (Size × Bool × Bool)
  | .lb => some (.b, false, true)
  | .lbs => some (.b, true, false)
  | .lh => some (.w, false, true)
  | .lhs => some (.w, true, false)
  | .lw => some (.l, false, false)
  | _ => none

@[simp] theorem setD_self (m : Mach) (k : Nat) (v : Word) : (m.setD k v).d k = v :=
  Function.update_self ..

@[simp] theorem setD_setD (m : Mach) (k : Nat) (v w : Word) :
    (m.setD k v).setD k w = m.setD k w := by
  simp [Mach.setD]

@[simp] theorem setD_mem (m : Mach) (k : Nat) (v : Word) : (m.setD k v).mem = m.mem := rfl

@[simp] theorem setD_a0 (m : Mach) (k : Nat) (v : Word) : (m.setD k v).a0 = m.a0 := rfl

theorem loadAt_run (sym : String → Word) (m : Mach) (n : Nat)
    (hop : loadShape op = some (sz, signExtend, clearFirst)) (hw : load m.mem m.a0 op = some w) :
    runAsm sym ((if clearFirst then ([.moveq 0 n] : List Asm) else []) ++
      ([.move sz .at0 (.d n)] : List Asm) ++ (if signExtend then
        (if sz = .b then ([.unary .extW n] : List Asm) else []) ++ ([.unary .extL n] : List Asm)
        else [])) m = some (m.setD n w) := by
  cases op
  case lb =>
      simp only [loadShape, Option.some.injEq, Prod.mk.injEq] at hop
      obtain ⟨rfl, rfl, rfl⟩ := hop
      obtain rfl := Option.some.inj hw
      simp only [runAsm, exec, execMove, if_true, List.cons_append, List.nil_append,
        Option.bind_some, setD_self, setD_setD, setD_mem, setD_a0]
      exact congrArg (fun v => some (m.setD n v)) (setLow8_zero _)
  case lbs =>
      simp only [loadShape, Option.some.injEq, Prod.mk.injEq] at hop
      obtain ⟨rfl, rfl, rfl⟩ := hop
      obtain rfl := Option.some.inj hw
      simp [runAsm, exec, execMove, extL_extW_setLow8]
  case lh =>
      simp only [loadShape, Option.some.injEq, Prod.mk.injEq] at hop
      obtain ⟨rfl, rfl, rfl⟩ := hop
      obtain rfl := Option.some.inj hw
      simp only [runAsm, exec, execMove, if_true, List.cons_append, List.nil_append,
        Option.bind_some, setD_self, setD_setD, setD_mem, setD_a0]
      exact congrArg (fun v => some (m.setD n v)) (setLow16_zero _)
  case lhs =>
      simp only [loadShape, Option.some.injEq, Prod.mk.injEq] at hop
      obtain ⟨rfl, rfl, rfl⟩ := hop
      obtain rfl := Option.some.inj hw
      simp [runAsm, exec, execMove, extL_setLow16]
  case lw =>
      simp only [loadShape, Option.some.injEq, Prod.mk.injEq] at hop
      obtain ⟨rfl, rfl, rfl⟩ := hop
      obtain rfl := Option.some.inj hw
      simp [runAsm, exec, execMove, readOperand, writeOperand]
  all_goals simp [loadShape] at hop

theorem emitLoad_run (sym : String → Word) (m : Mach) (ha : fn.Located a)
    (hop : loadShape op = some (sz, signExtend, clearFirst))
    (hw : load m.mem (fn.tempVal m a) op = some w) :
    ∃ m', runAsm sym (emitLoad fn a dst sz signExtend clearFirst) m = some m' ∧
      Effect fn dst w m m' := by
  obtain ⟨m1, hrun, hva, hkept, -⟩ := rs_run sym m ha (show 0 < 2 by decide)
  have hkept' : Kept m { m1 with a0 := fn.tempVal m a } :=
    ⟨hkept.d, hkept.fp, hkept.sp, hkept.mem⟩
  have haddr : runAsm sym ((rs fn a 0).1 ++ [.move .l (.d (rs fn a 0).2) .a0]) m =
      some { m1 with a0 := fn.tempVal m a } := by
    rw [runAsm_trans hrun, ← hva]
    rfl
  rw [← hkept.mem] at hw
  have hload := loadAt_run sym { m1 with a0 := fn.tempVal m a } (rd fn dst 0) hop hw
  have hcode := (runAsm_trans haddr).trans hload
  rw [← List.append_assoc, ← List.append_assoc] at hcode
  exact result_run hcode (hkept'.ready w)

theorem emitStore_run (sym : String → Word) (m : Mach) (ha : fn.Located a) (hb : fn.Located b)
    (hop : (op = .sb ∧ sz = .b) ∨ (op = .sh ∧ sz = .w) ∨ (op = .sw ∧ sz = .l))
    (hstore : store m.mem (fn.tempVal m a) (fn.tempVal m b) op = some mem) :
    ∃ m', runAsm sym (emitStore fn a b sz) m = some m' ∧ m'.mem = mem ∧
      Kept m { m' with mem := m.mem } := by
  obtain ⟨m1, hrun, hva, hvb, hkept⟩ := rs_pair_run sym m ha hb
  have hstep (rest : List Asm) :
      runAsm sym ((rs fn a 0).1 ++ (rs fn b 1).1 ++ .move .l (.d (rs fn a 0).2) .a0 :: rest) m =
        runAsm sym rest { m1 with a0 := fn.tempVal m a } := by
    rw [runAsm_trans hrun, ← hva]
    rfl
  have hcode : runAsm sym (emitStore fn a b sz) m =
      runAsm sym [.move sz (.d (rs fn b 1).2) .at0] { m1 with a0 := fn.tempVal m a } := hstep _
  rw [← hkept.mem] at hstore
  refine ⟨{ m1 with a0 := fn.tempVal m a, mem := mem, cc := none }, ?_, rfl,
    ⟨hkept.d, hkept.fp, hkept.sp, rfl⟩⟩
  rw [hcode]
  rcases hop with ⟨rfl, rfl⟩ | ⟨rfl, rfl⟩ | ⟨rfl, rfl⟩
  all_goals
    obtain rfl := Option.some.inj hstore
    simp [runAsm, exec, execMove, readOperand, writeOperand, hvb]

end Result

/-! ## Simulation -/

/-- The registers, the frame and the memory, as the intermediate code sees them. -/
def Func.view (fn : Func) (m : Mach) (pc : Nat) : Vm := ⟨pc, fn.tempVal m, m.mem⟩

def Func.layout (fn : Func) (sym : String → Word) (m : Mach) : Layout :=
  ⟨sym, fun k => m.frameAt (slotOffset fn k)⟩

/-- A run from `m` to `m'` did what an instruction with the destination `dst` does on its way to
`σ'`: the location of `dst` holds its value, and all else is as it was, but for what the
instruction stores and the bytes `below` the stack pointer. -/
structure Simulates (fn : Func) (dst : Option Nat) (below : Set Word) (σ' : Vm) (m m' : Mach) :
    Prop where
  result : ∀ d, dst = some d → fn.tempVal m' d = σ'.temp d
  temps : ∀ t, fn.Located t → (∀ d, dst = some d → ¬fn.SameLoc t d) →
    (∀ x ∈ fn.spillBytes m t, σ'.mem x = m.mem x) → fn.tempVal m' t = σ'.temp t
  mem : ∀ x, x ∉ below → (∀ d, dst = some d → x ∉ fn.spillBytes m d) → m'.mem x = σ'.mem x
  slots : ∀ k, ∀ x ∈ fn.slotBytes m k, m'.mem x = σ'.mem x
  fp : m'.fp = m.fp
  sp : m'.sp = m.sp

section Simulation

variable {fn : Func} {m m' : Mach} {dst pc : Nat} {w : Word}

theorem Effect.value (h : Effect fn dst w m m') (hdst : fn.Located dst) :
    fn.tempVal m' dst = w := by
  rcases hdst with ⟨r, hreg, hr, -⟩ | ⟨hreg, -⟩
  · simp only [Func.tempVal, hreg]
    rw [h.d r hr, if_pos hreg]
  · simp only [Func.tempVal, hreg, Mach.frameAt, h.fp]
    rw [h.mem, hreg, Option.isSome_none, if_neg Bool.false_ne_true]
    exact readL_writeL m.mem _ w

theorem Effect.mem_other (h : Effect fn dst w m m') (hx : x ∉ fn.spillBytes m dst) :
    m'.mem x = m.mem x := by
  rw [h.mem]
  rcases hreg : fn.tempReg dst with _ | r
  · rw [Option.isSome_none, if_neg Bool.false_ne_true]
    rw [spillBytes_spilled hreg] at hx
    exact writeL_other hx
  · rw [Option.isSome_some, if_pos rfl]

theorem Effect.temp_other (h : Effect fn dst w m m') (hfits : fn.Fits) (hdst : fn.Located dst)
    {t : Nat} (ht : fn.Located t) (hne : ¬fn.SameLoc t dst) : fn.tempVal m' t = fn.tempVal m t := by
  rcases id ht with ⟨r, hreg, hr, hr7, hspill⟩ | ⟨hreg, -⟩
  · simp only [Func.tempVal, hreg]
    have hother : fn.tempReg dst ≠ some r := by
      intro hsame
      rcases hdst with ⟨r', hreg', -, -, hspill'⟩ | ⟨hreg', -⟩
      · exact hne ⟨hreg.trans hsame.symm, hspill.trans hspill'.symm⟩
      · rw [hsame] at hreg'
        exact Option.some_ne_none r hreg'
    rw [h.d r hr, if_neg hother]
  · simp only [Func.tempVal, hreg, Mach.frameAt, h.fp]
    apply readL_frame_congr
    intro x hx
    rw [← spillBytes_spilled hreg] at hx
    exact h.mem_other (spillBytes_apart hfits ht hdst hne hx)

theorem Effect.simulates (h : Effect fn dst w m m') (hfits : fn.Fits) (hdst : fn.Located dst) :
    Simulates fn (some dst) ∅
      ⟨pc, Function.update (fn.tempVal m) dst w, m.mem⟩ m m' where
  result d hd := by
    obtain rfl := Option.some.inj hd
    exact (h.value hdst).trans (Function.update_self dst w (fn.tempVal m)).symm
  temps t ht hne _ := by
    have hne := hne dst rfl
    have htd : t ≠ dst := by
      rintro rfl
      exact hne ⟨rfl, rfl⟩
    exact (h.temp_other hfits hdst ht hne).trans (Function.update_of_ne htd ..).symm
  mem x _ hx := h.mem_other (hx dst rfl)
  slots k x hx := h.mem_other (slotBytes_apart hfits hdst hx)
  fp := h.fp
  sp := h.sp

theorem store_simulates (hmem : m'.mem = mem) (hkept : Kept m { m' with mem := m.mem }) :
    Simulates fn none ∅ ⟨pc, fn.tempVal m, mem⟩ m m' where
  result d hd := absurd hd (Option.some_ne_none d).symm
  temps t ht _ hbytes := by
    rcases id ht with ⟨r, hreg, hr, -⟩ | ⟨hreg, -⟩
    · simp only [Func.tempVal, hreg]
      exact hkept.d r hr
    · have hfp : m'.fp = m.fp := hkept.fp
      simp only [Func.tempVal, hreg, Mach.frameAt, hfp, hmem]
      apply readL_frame_congr
      intro x hx
      rw [← spillBytes_spilled hreg] at hx
      exact hbytes x hx
  mem x _ _ := by rw [hmem]
  slots k x _ := by rw [hmem]
  fp := hkept.fp
  sp := hkept.sp

end Simulation

/-! ## Every data instruction -/

/-- The instructions with a destination, but for the comparisons and the remainders. -/
def valueOp : Op → Bool
  | .lic | .lea | .adl | .mov | .add | .sub | .mul | .and | .or | .xor | .shl | .shrs | .shru
  | .divs | .divu | .neg | .not | .lb | .lbs | .lh | .lhs | .lw | .ldl => true
  | _ => false

def storeOp : Op → Bool
  | .sb | .sh | .sw | .stl => true
  | _ => false

/-- The temp that an instruction sets. -/
def Insn.sets (i : Insn) : Option Nat := if storeOp i.op then none else i.dst

section Insns

variable {fn : Func} {i : Insn} {m : Mach} {w : Word} {d pc : Nat} {code : List Insn}

theorem binopMnem_eval {y : Word} (hmnem : binopMnem op = some mnem) (hw : binop op x y = some w) :
    mnem.eval y x = some w := by
  cases op
  case divs =>
      obtain rfl := Option.some.inj hmnem
      simp only [binop, Option.ite_none_left_eq_some] at hw
      rw [Alu.eval, if_neg hw.1, ← hw.2]
      split_ifs with hover
      · obtain ⟨rfl, rfl⟩ := hover
        decide
      · rfl
  case divu =>
      obtain rfl := Option.some.inj hmnem
      simp only [binop, Option.ite_none_left_eq_some] at hw
      rw [Alu.eval, if_neg hw.1, hw.2]
  all_goals
    first
    | (obtain rfl := Option.some.inj hmnem; exact hw)
    | exact absurd hmnem (Option.some_ne_none _).symm

theorem emitInsn_binop (hmnem : binopMnem i.op = some mnem) (pfx : Nat) (args : List Nat) :
    emitInsn fn pfx args i = (do some (emitBinop fn (← i.a) (← i.b) (← i.dst) mnem, args)) := by
  unfold emitInsn
  cases hi : i.op <;> rw [hi] at hmnem <;>
    first
    | exact absurd hmnem (Option.some_ne_none _).symm
    | (obtain rfl := Option.some.inj hmnem; rfl)

theorem value_binop (hmnem : binopMnem i.op = some mnem) (L : Layout) (σ : Vm) :
    i.value L σ = (do binop i.op (σ.temp (← i.a)) (σ.temp (← i.b))) := by
  unfold Insn.value
  cases hi : i.op <;> rw [hi] at hmnem <;> exact absurd hmnem (Option.some_ne_none _).symm

theorem emitInsn_load (hop : loadShape i.op = some (sz, signExtend, clearFirst)) (pfx : Nat)
    (args : List Nat) :
    emitInsn fn pfx args i =
      (do some (emitLoad fn (← i.a) (← i.dst) sz signExtend clearFirst, args)) := by
  unfold emitInsn
  cases hi : i.op <;> rw [hi] at hop <;>
    first
    | exact absurd hop (Option.some_ne_none _).symm
    | (obtain ⟨rfl, rfl, rfl⟩ := Prod.mk.injEq .. ▸ Option.some.inj hop; rfl)

theorem value_load (hop : loadShape i.op = some (sz, signExtend, clearFirst)) (L : Layout) (σ : Vm)
    :
    i.value L σ = (do load σ.mem (σ.temp (← i.a)) i.op) := by
  unfold Insn.value
  cases hi : i.op <;> rw [hi] at hop <;> exact absurd hop (Option.some_ne_none _).symm

theorem emitInsn_value (hnames : ∀ t, i.Names t → fn.Located t) (hop : valueOp i.op = true)
    (sym : String → Word) (pfx : Nat) (args : List Nat) (m : Mach) (hd : i.dst = some d)
    (hw : i.value (fn.layout sym m) (fn.view m pc) = some w) :
    ∃ out m', emitInsn fn pfx args i = some (out, args) ∧ runAsm sym out m = some m' ∧
      Effect fn d w m m' := by
  have hlocd : fn.Located d := hnames d (Or.inl hd)
  rcases hmnem : binopMnem i.op with _ | mnem
  case some =>
      rw [value_binop hmnem] at hw
      rcases ha : i.a with _ | a
      · simp [ha] at hw
      rcases hb : i.b with _ | b
      · simp [ha, hb] at hw
      rw [ha, hb] at hw
      obtain ⟨m', hrun, heffect⟩ := emitBinop_run sym m (hnames a (Or.inr (Or.inl ha)))
        (hnames b (Or.inr (Or.inr hb))) hlocd (binopMnem_eval hmnem hw)
      exact ⟨_, m', by rw [emitInsn_binop hmnem, ha, hb, hd]; rfl, hrun, heffect⟩
  rcases hshape : loadShape i.op with _ | ⟨sz, signExtend, clearFirst⟩
  case some =>
      rw [value_load hshape] at hw
      rcases ha : i.a with _ | a
      · simp [ha] at hw
      rw [ha] at hw
      obtain ⟨m', hrun, heffect⟩ := emitLoad_run sym m (hnames a (Or.inr (Or.inl ha))) hshape hw
      exact ⟨_, m', by rw [emitInsn_load hshape, ha, hd]; rfl, hrun, heffect⟩
  have hready (v : Word) : Ready fn d v m _ := (Kept.refl m).ready v
  have hready' (x v : Word) : Ready fn d v m ({ m with a0 := x }.setD (rd fn d 0) v) :=
    have hkept : Kept m { m with a0 := x } := ⟨fun _ _ => rfl, rfl, rfl, rfl⟩
    hkept.ready v
  cases hi : i.op
  case lic =>
      obtain rfl : BitVec.ofInt 32 i.imm = w := by simpa [Insn.value, hi] using hw
      have hcode : runAsm sym (if -128 ≤ i.imm ∧ i.imm ≤ 127 then [.moveq i.imm (rd fn d 0)]
          else [.move .l (.imm i.imm) (.d (rd fn d 0))]) m =
            some (m.setD (rd fn d 0) (BitVec.ofInt 32 i.imm)) := by
        split
        · rfl
        · rfl
      obtain ⟨m', hrun, heffect⟩ := result_run hcode (hready _)
      exact ⟨_, m', by simp only [emitInsn, hi, hd]; rfl, hrun, heffect⟩
  case lea =>
      obtain rfl : sym i.sym = w := by simpa [Insn.value, hi, Func.layout] using hw
      have hcode : runAsm sym [.lea (.sym i.sym), .move .l .a0 (.d (rd fn d 0))] m =
          some ({ m with a0 := sym i.sym }.setD (rd fn d 0) (sym i.sym)) := rfl
      obtain ⟨m', hrun, heffect⟩ := result_run hcode (hready' _ _)
      exact ⟨_, m', by simp only [emitInsn, hi, hd]; rfl, hrun, heffect⟩
  case adl =>
      rcases hs : i.slot with _ | k
      · simp [Insn.value, hi, hs] at hw
      obtain rfl : m.frameAt (slotOffset fn k) = w := by
        simpa [Insn.value, hi, hs, Func.layout] using hw
      have hcode : runAsm sym [.lea (.frame (slotOffset fn k)), .move .l .a0 (.d (rd fn d 0))] m =
          some ({ m with a0 := m.frameAt (slotOffset fn k) }.setD (rd fn d 0)
            (m.frameAt (slotOffset fn k))) := rfl
      obtain ⟨m', hrun, heffect⟩ := result_run hcode (hready' _ _)
      exact ⟨_, m', by simp only [emitInsn, hi, hd, hs]; rfl, hrun, heffect⟩
  case ldl =>
      rcases hs : i.slot with _ | k
      · simp [Insn.value, hi, hs] at hw
      obtain rfl : readL m.mem (m.frameAt (slotOffset fn k)) = w := by
        simpa [Insn.value, hi, hs, Func.layout, Func.view] using hw
      have hcode : runAsm sym [.move .l (.frame (slotOffset fn k)) (.d (rd fn d 0))] m =
          some (m.setD (rd fn d 0) (readL m.mem (m.frameAt (slotOffset fn k)))) := rfl
      obtain ⟨m', hrun, heffect⟩ := result_run hcode (hready _)
      exact ⟨_, m', by simp only [emitInsn, hi, hd, hs]; rfl, hrun, heffect⟩
  case mov =>
      rcases ha : i.a with _ | a
      · simp [Insn.value, hi, ha] at hw
      obtain rfl : fn.tempVal m a = w := by
        simpa [Insn.value, hi, ha, unop, Func.view] using hw
      obtain ⟨m', hrun, heffect⟩ := emitMov_run sym m (hnames a (Or.inr (Or.inl ha)))
      exact ⟨_, m', by simp only [emitInsn, hi, hd, ha]; rfl, hrun, heffect⟩
  case neg =>
      rcases ha : i.a with _ | a
      · simp [Insn.value, hi, ha] at hw
      obtain rfl : -fn.tempVal m a = w := by
        simpa [Insn.value, hi, ha, unop, Func.view] using hw
      obtain ⟨m', hrun, heffect⟩ := emitUnop_run sym m (hnames a (Or.inr (Or.inl ha))) .negL
      exact ⟨_, m', by simp only [emitInsn, hi, hd, ha]; rfl, hrun, heffect⟩
  case not =>
      rcases ha : i.a with _ | a
      · simp [Insn.value, hi, ha] at hw
      obtain rfl : ~~~fn.tempVal m a = w := by
        simpa [Insn.value, hi, ha, unop, Func.view] using hw
      obtain ⟨m', hrun, heffect⟩ := emitUnop_run sym m (hnames a (Or.inr (Or.inl ha))) .notL
      exact ⟨_, m', by simp only [emitInsn, hi, hd, ha]; rfl, hrun, heffect⟩
  all_goals
    rw [hi] at hop hmnem hshape
    first
    | exact absurd hop Bool.false_ne_true
    | exact absurd hmnem (Option.some_ne_none _)
    | exact absurd hshape (Option.some_ne_none _)

theorem computes_of_valueOp (h : valueOp op = true) : op.computes = true := by
  cases op <;> first | rfl | exact absurd h Bool.false_ne_true

theorem emitInsn_store (hnames : ∀ t, i.Names t → fn.Located t) (hop : storeOp i.op = true)
    (sym : String → Word) (pfx : Nat) (args : List Nat) (m : Mach) (hi : code[pc]? = some i)
    {σ' : Vm} (hstep : irStep (fn.layout sym m) code (fn.view m pc) = some σ') :
    ∃ out m' mem, emitInsn fn pfx args i = some (out, args) ∧ runAsm sym out m = some m' ∧
      m'.mem = mem ∧ Kept m { m' with mem := m.mem } ∧ σ' = ⟨pc + 1, fn.tempVal m, mem⟩ := by
  have hi' : code[(fn.view m pc).pc]? = some i := hi
  have hlocated {t : Nat} (ha : i.a = some t) : fn.Located t := hnames t (Or.inr (Or.inl ha))
  have hlocated' {t : Nat} (hb : i.b = some t) : fn.Located t := hnames t (Or.inr (Or.inr hb))
  by_cases hstl : i.op = .stl
  · obtain ⟨k, a, hk, ha, rfl⟩ := irStep_stl hi' hstl hstep
    obtain ⟨m1, hrun, hva, hkept, -⟩ := rs_run sym m (hlocated ha) (show 0 < 2 by decide)
    refine ⟨_, { m1 with
      mem := writeL m1.mem (m1.frameAt (slotOffset fn k)) (fn.tempVal m a), cc := none }, _,
      by simp only [emitInsn, hstl, hk, ha]; rfl, ?_, rfl,
      ⟨hkept.d, hkept.fp, hkept.sp, rfl⟩, ?_⟩
    · rw [runAsm_trans hrun, ← hva]
      rfl
    · rw [hkept.mem, Mach.frameAt, hkept.fp]
      rfl
  · have hsize : i.op = .sb ∨ i.op = .sh ∨ i.op = .sw := by
      cases hop' : i.op <;> rw [hop'] at hop hstl <;>
        first
        | exact absurd hop Bool.false_ne_true
        | exact absurd rfl hstl
        | simp
    obtain ⟨a, b, mem, ha, hb, hmem, rfl⟩ := irStep_store hi' hsize hstep
    have hstore (sz : Size) (hsz : (i.op = .sb ∧ sz = .b) ∨ (i.op = .sh ∧ sz = .w) ∨
        (i.op = .sw ∧ sz = .l)) :=
      emitStore_run sym m (hlocated ha) (hlocated' hb) hsz hmem
    rcases hsize with hop' | hop' | hop'
    · obtain ⟨m', hrun, hm', hkept⟩ := hstore .b (Or.inl ⟨hop', rfl⟩)
      exact ⟨_, m', mem, by simp only [emitInsn, hop', ha, hb]; rfl, hrun, hm', hkept, rfl⟩
    · obtain ⟨m', hrun, hm', hkept⟩ := hstore .w (Or.inr (Or.inl ⟨hop', rfl⟩))
      exact ⟨_, m', mem, by simp only [emitInsn, hop', ha, hb]; rfl, hrun, hm', hkept, rfl⟩
    · obtain ⟨m', hrun, hm', hkept⟩ := hstore .l (Or.inr (Or.inr ⟨hop', rfl⟩))
      exact ⟨_, m', mem, by simp only [emitInsn, hop', ha, hb]; rfl, hrun, hm', hkept, rfl⟩

theorem emitInsn_simulates (hnames : ∀ t, i.Names t → fn.Located t) (hfits : fn.Fits)
    (hop : valueOp i.op = true ∨ storeOp i.op = true) (sym : String → Word) (pfx : Nat)
    (args : List Nat) (m : Mach) (hi : code[pc]? = some i) {σ' : Vm}
    (hstep : irStep (fn.layout sym m) code (fn.view m pc) = some σ') :
    ∃ out m', emitInsn fn pfx args i = some (out, args) ∧ runAsm sym out m = some m' ∧
      Simulates fn i.sets ∅ σ' m m' := by
  rcases hop with hop | hop
  · obtain ⟨w, d, hw, hd, rfl⟩ := irStep_value hi (computes_of_valueOp hop) hstep
    obtain ⟨out, m', hout, hrun, heffect⟩ := emitInsn_value hnames hop sym pfx args m hd hw
    have hsets : i.sets = some d := by
      rw [Insn.sets, ← hd]
      cases hi : i.op <;> rw [hi] at hop <;>
        first | rfl | exact absurd hop Bool.false_ne_true
    rw [hsets]
    exact ⟨out, m', hout, hrun, heffect.simulates hfits (hnames d (Or.inl hd))⟩
  · obtain ⟨out, m', mem, hout, hrun, hmem, hkept, rfl⟩ :=
      emitInsn_store hnames hop sym pfx args m hi hstep
    have hsets : i.sets = none := by rw [Insn.sets, if_pos hop]
    rw [hsets]
    exact ⟨out, m', hout, hrun, store_simulates hmem hkept⟩

end Insns

/-- From `m` the code of an instruction does what the instruction does, if that has a step. -/
def CodeSimulates (fn : Func) (sym : String → Word) (pfx : Nat) (args : List Nat) (i : Insn)
    (pc : Nat) (below : Set Word) (m : Mach) : Prop :=
  ∀ σ', irStep (fn.layout sym m) fn.code (fn.view m pc) = some σ' →
    ∃ out m', emitInsn fn pfx args i = some (out, args) ∧ runAsm sym out m = some m' ∧
      Simulates fn i.sets below σ' m m'

/-- The code of every data instruction of an allocated function simulates it. -/
theorem data_insn_simulated (q : Qsort) {fn : Func} {i : Insn} {pc : Nat}
    (hi : fn.code[pc]? = some i) (hop : valueOp i.op = true ∨ storeOp i.op = true)
    (hdef : ∀ t, i.Names t → t < fn.ntemps ∧ ∃ j ∈ fn.code, j.dst = some t)
    (hfits : (regalloc q fn).Fits) (sym : String → Word) (pfx : Nat) (args : List Nat)
    (m : Mach) : CodeSimulates (regalloc q fn) sym pfx args i pc ∅ m := by
  have hnames : ∀ t, i.Names t → (regalloc q fn).Located t := fun t ht =>
    regalloc_located q (hdef t ht).1 (hdef t ht).2
  intro σ' hstep
  exact emitInsn_simulates hnames hfits hop sym pfx args m hi hstep

/-- A sort that `qsort` may be. -/
def Qsort.insertion : Qsort where
  sort l := l.insertionSort fun a b => sortByStart a b ≤ 0
  perm l := List.perm_insertionSort _ l
  sorted l := by
    have htotal : Std.Total fun a b => sortByStart a b ≤ 0 := ⟨fun a b => by
      simp only [sortByStart]
      split_ifs <;> omega⟩
    have htrans : IsTrans Interval fun a b => sortByStart a b ≤ 0 := ⟨fun a b c hab hbc => by
      simp only [sortByStart] at hab hbc ⊢
      split_ifs at hab hbc ⊢ <;> omega⟩
    exact List.pairwise_insertionSort _ l

/-- `t1 = t0 - t1` -/
def subtraction : Func where
  name := "f"
  ntemps := 2
  code := [{ op := .lic, dst := some 0, imm := 7 }, { op := .lic, dst := some 1, imm := 2 },
    { op := .sub, dst := some 1, a := some 0, b := some 1 }]

/-- The destination is the second operand. -/
theorem data_insn_simulated_subtraction :
    CodeSimulates (regalloc .insertion subtraction) (fun _ => 0) 1 []
      { op := .sub, dst := some 1, a := some 0, b := some 1 } 2 ∅
      ⟨fun n => BitVec.ofNat 32 n, 0, 0x1000, 0xF00, fun _ => 0, none⟩ := by
  refine data_insn_simulated .insertion rfl (Or.inl rfl) ?_ (by unfold Func.Fits; decide) _ _ _ _
  intro t ht
  have hcases : t = 1 ∨ t = 0 ∨ t = 1 := by
    rcases ht with h | h | h
    · exact Or.inl (Option.some.inj h).symm
    · exact Or.inr (Or.inl (Option.some.inj h).symm)
    · exact Or.inr (Or.inr (Option.some.inj h).symm)
  rcases hcases with rfl | rfl | rfl
  all_goals decide

end MechanicalResearcher.PortableCompiler
