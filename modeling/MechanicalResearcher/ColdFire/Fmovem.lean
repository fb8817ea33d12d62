import MechanicalResearcher.ColdFire.Movem

/-!
# FMOVEM on a stack

Both directions take the registers of the mask from FP0 on.  The predecrement form stores them
at descending addresses, so that a load upward from `An` meets them in the opposite order.
-/

namespace MechanicalResearcher.ColdFire

open Lib Lib.Writes

variable {μ : Type} {b : Bus μ}

def writeDouble (b : Bus μ) (mem : μ) (addr : Word) (v : Double) : μ :=
  b.write32 (b.write32 mem addr (v.extractLsb' 32 32)) (addr + 4) (v.extractLsb' 0 32)

def readDouble (b : Bus μ) (mem : μ) (addr : Word) : Double :=
  b.read32 mem addr ++ b.read32 mem (addr + 4)

/-- Double `k` upward from `base`. -/
def doubleAt (base : Word) (k : Nat) : Word := base + BitVec.ofNat 32 (8 * k)

def doubles (base : Word) (vs : List Double) : List (Word × Double) := slots (doubleAt base) vs

/-- The `n` doubles upward from `base`. -/
def doubleImage (b : Bus μ) (mem : μ) (base : Word) : Nat → List Double
  | 0 => []
  | n + 1 => readDouble b mem base :: doubleImage b mem (base + 8) n

theorem ofNat_doubles (n : Nat) : BitVec.ofNat 32 (8 * (n + 1)) = 8 + BitVec.ofNat 32 (8 * n) := by
  rw [Nat.mul_succ, Nat.add_comm, BitVec.ofNat_add]
  rfl

theorem doubleAt_zero (base : Word) : doubleAt base 0 = base := BitVec.add_zero base

theorem doubleAt_succ (base : Word) (k : Nat) :
    doubleAt base (k + 1) = doubleAt (base + 8) k := by
  rw [doubleAt, doubleAt, ofNat_doubles, BitVec.add_assoc]

theorem doubles_cons (base : Word) (v : Double) (vs : List Double) :
    doubles base (v :: vs) = (base, v) :: doubles (base + 8) vs := by
  rw [doubles, slots, doubleAt_zero, doubles]
  congr 2
  funext k
  exact doubleAt_succ base k

theorem cells_doubles {base : Word} {vs : List Double} (hlen : vs.length ≤ 8)
    (hplain : PlainMemory b (bytes base (8 * vs.length))) :
    Cells (writeDouble b) (readDouble b) ((doubles base vs).map Prod.fst) := by
  have hsub {i : Nat} (hi : i + 4 ≤ 8 * vs.length) :
      bytes (base + BitVec.ofNat 32 i) 4 ⊆ bytes base (8 * vs.length) := bytes_subset base hi
  have hother {i j : Nat} (hi : i + 4 ≤ 8 * vs.length) (hj : j + 4 ≤ 8 * vs.length)
      (hij : i + 4 ≤ j ∨ j + 4 ≤ i) (mem : μ) (v : Word) :
      b.read32 (b.write32 mem (base + BitVec.ofNat 32 i) v) (base + BitVec.ofNat 32 j) =
        b.read32 mem (base + BitVec.ofNat 32 j) := by
    refine hplain.read32_write32 mem _ _ v (hsub hi) ?_
    rcases hij with hlt | hlt
    · exact bytes_disjoint base hlt (by omega)
    · exact (bytes_disjoint base hlt (by omega)).symm
  have hhigh (k : Nat) : doubleAt base k + 4 = base + BitVec.ofNat 32 (8 * k + 4) := by
    rw [doubleAt, BitVec.add_assoc, BitVec.ofNat_add]
    rfl
  refine cells_slots ?_ ?_ vs rfl
  · intro k hk mem v
    rw [readDouble, writeDouble, hhigh, doubleAt, hplain.same32 _ _ _ (hsub (by omega)),
      hother (by omega) (by omega) (by omega), hplain.same32 _ _ _ (hsub (by omega))]
    exact (BitVec.extractLsb'_append_extractLsb'_eq_extractLsb' rfl).trans
      BitVec.extractLsb'_eq_self
  · intro j hj k hk hne mem v
    rw [readDouble, readDouble, writeDouble, hhigh, hhigh, doubleAt, doubleAt,
      hother (by omega) (by omega) (by omega), hother (by omega) (by omega) (by omega),
      hother (by omega) (by omega) (by omega), hother (by omega) (by omega) (by omega)]

theorem doubleImage_eq_iff {mem : μ} {base : Word} {vs : List Double} :
    doubleImage b mem base vs.length = vs ↔ ∀ w ∈ doubles base vs, readDouble b mem w.1 = w.2 := by
  induction vs generalizing base with
  | nil => exact iff_of_true rfl (fun _ hw => absurd hw List.not_mem_nil)
  | cons v vs ih =>
    rw [List.length_cons, doubleImage, List.cons.injEq, ih, doubles_cons, List.forall_mem_cons]

/-- The doubles of registers stored downward from `An`, the first one at the top. -/
structure FpPushed (b : Bus μ) (reg : Reg) (rs : List Reg) (s s' : Cpu μ) : Prop where
  stack : s'.a reg = s.a reg - BitVec.ofNat 32 (8 * rs.length)
  others : ∀ i ≠ reg, s'.a i = s.a i
  fp : s'.fp = s.fp
  mem : s'.mem = writes (writeDouble b) s.mem (doubles (s'.a reg) (rs.map s.fp).reverse).reverse

theorem fpPushed (s : Cpu μ) (reg : Reg) (rs : List Reg) :
    FpPushed b reg rs s (fmovemPredec b s reg rs) := by
  induction rs using List.reverseRecOn with
  | nil => exact ⟨(BitVec.sub_zero _).symm, fun _ _ => rfl, rfl, rfl⟩
  | append_singleton rs r ih =>
    have hlast : fmovemPredec b s reg (rs ++ [r]) =
        fmovemPredec b (fmovemPredec b s reg rs) reg [r] := List.foldl_append ..
    rw [hlast]
    generalize fmovemPredec b s reg rs = t at ih
    have hstack : (fmovemPredec b t reg [r]).a reg = t.a reg - 8 := a_setA ..
    constructor
    · rw [hstack, ih.stack, List.length_append, List.length_singleton, ofNat_doubles,
        BitVec.sub_sub, BitVec.add_comm]
    · intro i hi
      rw [← ih.others i hi]
      exact a_setA_of_ne t hi _
    · exact ih.fp
    · have hmem : (fmovemPredec b t reg [r]).mem =
          writeDouble b t.mem (t.a reg - 8) (s.fp r) := by
        rw [← ih.fp]
        exact congrArg (fun a => writeDouble b t.mem a _) (a_setA t reg _)
      rw [hmem, hstack, List.map_append, List.reverse_append, List.map_singleton,
        List.reverse_singleton, List.singleton_append, doubles_cons, List.reverse_cons,
        writes_append, BitVec.sub_add_cancel, ← ih.mem]
      rfl

theorem fmovemStore_mem (s : Cpu μ) (addr : Word) (rs : List Reg) :
    (fmovemStore b s addr rs).mem =
      writes (writeDouble b) s.mem (doubles addr (rs.map s.fp)) := by
  induction rs generalizing s addr with
  | nil => rfl
  | cons r rs ih =>
    rw [List.map_cons, doubles_cons, writes_cons]
    exact ih (writeDoubleAt b s addr (s.fp r)) (addr + 8)

theorem fmovemLoad_fp_of_notMem (s : Cpu μ) (addr : Word) {rs : List Reg} {r : Reg}
    (hr : r ∉ rs) : (fmovemLoad b s addr rs).fp r = s.fp r := by
  induction rs generalizing s addr with
  | nil => rfl
  | cons r' rs ih =>
    rw [List.mem_cons, not_or] at hr
    have hstep := ih (setFp s r' (readDoubleAt b s addr)) (addr + 8) hr.2
    exact hstep.trans (Function.update_of_ne hr.1 ..)

theorem fmovemLoad_fp (s : Cpu μ) (addr : Word) {rs : List Reg} (hnodup : rs.Nodup) :
    rs.map (fmovemLoad b s addr rs).fp = doubleImage b s.mem addr rs.length := by
  induction rs generalizing s addr with
  | nil => rfl
  | cons r rs ih =>
    obtain ⟨hnot, hnodup⟩ := List.nodup_cons.mp hnodup
    have hstep : fmovemLoad b s addr (r :: rs) =
        fmovemLoad b (setFp s r (readDoubleAt b s addr)) (addr + 8) rs := rfl
    have hfirst : (fmovemLoad b s addr (r :: rs)).fp r = readDouble b s.mem addr := by
      rw [hstep, fmovemLoad_fp_of_notMem _ _ hnot]
      exact Function.update_self ..
    rw [List.map_cons, hfirst, hstep, ih _ _ hnodup, List.length_cons, doubleImage]
    rfl

/-- The registers of a mask, FP0 at bit 7. -/
def fpListed (list : BitVec 8) : List Reg :=
  ((List.range 8).filter fun i => list.getLsbD (7 - i)).map fun i => BitVec.ofNat 3 i

/-- FMOVEM list,-(An). -/
def fmovemToPredec (reg : Reg) : Half := 0xF220 ||| reg.zeroExtend 16

/-- FMOVEM with (An), in the direction of the extension word. -/
def fmovemMem (reg : Reg) : Half := 0xF210 ||| reg.zeroExtend 16

/-- The extension word. -/
def fmovemExt (store : Bool) (list : BitVec 8) : Half :=
  (if store then 0xE0 else 0xC0 : BitVec 8) ++ list

theorem fmovemRegs_fmovemExt (store : Bool) (list : BitVec 8) :
    fmovemRegs (fmovemExt store list) = fpListed list := by
  unfold fmovemRegs fpListed
  congr 1
  apply List.filter_congr
  intro i hi
  rw [fmovemExt, BitVec.getLsbD_append, if_pos (by omega)]

theorem fpListed_sublist (list : BitVec 8) :
    (fpListed list).Sublist ((List.range 8).map (BitVec.ofNat 3)) :=
  List.filter_sublist.map _

theorem nodup_fpListed (list : BitVec 8) : (fpListed list).Nodup :=
  (fpListed_sublist list).nodup (by decide)

theorem length_fpListed (list : BitVec 8) : (fpListed list).length ≤ 8 :=
  (fpListed_sublist list).length_le

theorem opclass_fmovemExt (store : Bool) (list : BitVec 8) :
    ((fmovemExt store list).extractLsb' 13 3).toNat = if store then 7 else 6 := by
  revert store list
  decide

section

variable (m : Machine μ) (s : Cpu μ) (reg : Reg) {list : BitVec 8}

theorem execGroup_fmovemToPredec (hext : (fetch16 m.bus s).1 = fmovemExt true list) :
    execGroup m s (fmovemToPredec reg) =
      fmovemPredec m.bus (fetch16 m.bus s).2 reg (fpListed list) := by
  have hfields : eaMode (fmovemToPredec reg) = 4 ∧ eaReg (fmovemToPredec reg) = reg := by
    revert reg
    decide
  have hgeneral : execGroup m s (fmovemToPredec reg) =
      fpuGeneral m.bus m.doubles s (fmovemToPredec reg) := by
    rcases eq_of_reg reg with rfl | rfl | rfl | rfl | rfl | rfl | rfl | rfl <;> rfl
  rw [hgeneral, fpuGeneral]
  simp only [hext, opclass_fmovemExt, fmovem, hfields.1, hfields.2, fmovemRegs_fmovemExt]
  rfl

theorem execGroup_fmovemMem (store : Bool) (hext : (fetch16 m.bus s).1 = fmovemExt store list) :
    execGroup m s (fmovemMem reg) =
      if store then fmovemStore m.bus (fetch16 m.bus s).2 (s.a reg) (fpListed list)
      else fmovemLoad m.bus (fetch16 m.bus s).2 (s.a reg) (fpListed list) := by
  have hfields : eaMode (fmovemMem reg) = 2 ∧ eaReg (fmovemMem reg) = reg := by
    revert reg
    decide
  have hgeneral : execGroup m s (fmovemMem reg) =
      fpuGeneral m.bus m.doubles s (fmovemMem reg) := by
    rcases eq_of_reg reg with rfl | rfl | rfl | rfl | rfl | rfl | rfl | rfl <;> rfl
  rw [hgeneral, fpuGeneral]
  simp only [hext, opclass_fmovemExt]
  cases store
  · simp only [fmovem, hfields.1, hfields.2, fmovemRegs_fmovemExt]
    rfl
  · simp only [fmovem, hfields.1, hfields.2, fmovemRegs_fmovemExt]
    rfl

end

/-- The values come back in the opposite order, and the memory is that of a store upward only if
they read the same in both. -/
theorem fmovem_stack (m : Machine μ) (s : Cpu μ) (reg : Reg) (list : BitVec 8)
    (hext : (fetch16 m.bus s).1 = fmovemExt true list) :
    let s' := execGroup m s (fmovemToPredec reg)
    let rs := fpListed list
    let vs := rs.map s.fp
    FpPushed m.bus reg rs s s' ∧
      (PlainMemory m.bus (bytes (s'.a reg) (8 * rs.length)) →
        doubleImage m.bus s'.mem (s'.a reg) rs.length = vs.reverse ∧
        (∀ t : Cpu μ, t.a reg = s'.a reg → (∀ r ∈ rs, t.fp r = s.fp r) →
          (fetch16 m.bus t).1 = fmovemExt true list →
          let image := doubleImage m.bus (execGroup m t (fmovemMem reg)).mem (s'.a reg) rs.length
          image = vs ∧ (doubleImage m.bus s'.mem (s'.a reg) rs.length = image ↔ vs.reverse = vs)) ∧
        (∀ t : Cpu μ, t.a reg = s'.a reg →
          doubleImage m.bus t.mem (s'.a reg) rs.length =
            doubleImage m.bus s'.mem (s'.a reg) rs.length →
          (fetch16 m.bus t).1 = fmovemExt false list →
          let loaded := (execGroup m t (fmovemMem reg)).fp
          rs.map loaded = vs.reverse ∧ ((∀ r ∈ rs, loaded r = s.fp r) ↔ vs.reverse = vs))) := by
  intro s' rs vs
  have hpush : FpPushed m.bus reg rs s s' := by
    have hfetched := fpPushed (b := m.bus) (fetch16 m.bus s).2 reg rs
    rw [← execGroup_fmovemToPredec m s reg hext] at hfetched
    exact ⟨hfetched.stack, hfetched.others, hfetched.fp, hfetched.mem⟩
  refine ⟨hpush, fun hplain => ?_⟩
  have hlen : vs.length = rs.length := List.length_map ..
  have hcells {ws : List Double} (hws : ws.length = rs.length) :
      Cells (writeDouble m.bus) (readDouble m.bus) ((doubles (s'.a reg) ws).map Prod.fst) := by
    rw [← hws] at hplain
    exact cells_doubles (by rw [hws]; exact length_fpListed list) hplain
  have himage : doubleImage m.bus s'.mem (s'.a reg) rs.length = vs.reverse := by
    have hrev : vs.reverse.length = rs.length := by rw [List.length_reverse, hlen]
    rw [← hrev, doubleImage_eq_iff]
    intro w hw
    have hdown := (hcells hrev).reverse
    rw [← List.map_reverse] at hdown
    rw [hpush.mem]
    exact read_writes hdown (List.mem_reverse.mpr hw) s.mem
  refine ⟨himage, ?_, ?_⟩
  · intro t hstack hsame hfetch image
    have hup : image = vs := by
      change doubleImage m.bus _ _ rs.length = vs
      rw [← hlen, doubleImage_eq_iff]
      intro w hw
      have hvals : rs.map (fetch16 m.bus t).2.fp = vs := List.map_congr_left hsame
      rw [execGroup_fmovemMem m t reg true hfetch, if_pos rfl, fmovemStore_mem, hvals, hstack]
      exact read_writes (hcells hlen) hw _
    refine ⟨hup, ?_⟩
    rw [himage, hup]
  · intro t hstack hkept hfetch loaded
    have hload : rs.map loaded = vs.reverse := by
      have hfp := fmovemLoad_fp (b := m.bus) (fetch16 m.bus t).2 (t.a reg) (nodup_fpListed list)
      rw [← himage, ← hkept, ← hstack]
      change rs.map (execGroup m t (fmovemMem reg)).fp = _
      rw [execGroup_fmovemMem m t reg false hfetch]
      exact hfp
    refine ⟨hload, ?_⟩
    rw [← hload]
    exact List.map_inj_left.symm

/-- FP0 and FP1, with the extension words of a store and of a load in memory. -/
def fmovemCode (fp : Reg → Double) : Cpu (Word → BitVec 8) :=
  { cpuAt 0x1000 0x8000 0 fun a =>
      if a = 0x1000 then 0xE0 else if a = 0x1002 then 0xC0
      else if a = 0x1001 ∨ a = 0x1003 then 0xC0 else 0 with fp := fp }

theorem fmovem_stack_two :
    let s := fmovemCode fun _ => 0x3FF8000000000000
    let s' := execGroup ramMachine s (fmovemToPredec 7)
    let t := { s' with fp := fun _ => 0 }
    ∀ r ∈ fpListed 0xC0, (execGroup ramMachine t (fmovemMem 7)).fp r = s.fp r := by
  intro s s' t
  have hstack := fmovem_stack ramMachine s 7 0xC0 (by decide)
  exact ((hstack.2 (ram_plain _)).2.2 t rfl rfl (by decide)).2.mpr (by decide)

/-- Different values change places, and a store upward leaves another image. -/
theorem fmovem_predec_reversed :
    let s := fmovemCode fun r => if r = 0 then 0x3FF8000000000000 else 0x4004000000000000
    let s' := execGroup ramMachine s (fmovemToPredec 7)
    let t := { s' with fp := fun _ => 0 }
    let u := execGroup ramMachine { s' with pc := 0x1000 } (fmovemMem 7)
    ¬(∀ r ∈ fpListed 0xC0, (execGroup ramMachine t (fmovemMem 7)).fp r = s.fp r) ∧
      doubleImage ram s'.mem (s'.a 7) 2 ≠ doubleImage ram u.mem (s'.a 7) 2 := by
  decide

end MechanicalResearcher.ColdFire
