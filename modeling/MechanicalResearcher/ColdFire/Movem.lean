import MechanicalResearcher.ColdFire.Frames
import MechanicalResearcher.Lib.Writes

/-!
# MOVEM on a stack

The predecrement form takes a reversed mask and stores downward, the postincrement form takes a
normal mask and loads upward.
-/

namespace MechanicalResearcher.ColdFire

open Lib Lib.Writes

variable {μ : Type} {b : Bus μ}

theorem ofNat_eq_reg {reg : Reg} {i : Nat} (hi : i < 8) : BitVec.ofNat 3 i = reg ↔
    i = reg.toNat := by
  rw [← BitVec.toNat_inj, BitVec.toNat_ofNat, Nat.mod_eq_of_lt (by simpa using hi)]

section

variable (s : Cpu μ) {reg : Reg} {i j : Nat} (v : Word)

theorem listReg_setA (hi : i < 16) (hne : i ≠ 8 + reg.toNat) :
    listReg (s.setA reg v) i = listReg s i := by
  unfold listReg
  split_ifs with h8
  · rfl
  · refine a_setA_of_ne s ?_ v
    rw [Ne, ofNat_eq_reg (by omega)]
    omega

theorem a_setListReg (hi : i < 16) (hne : i ≠ 8 + reg.toNat) :
    (setListReg s i v).a reg = s.a reg := by
  unfold setListReg
  split_ifs with h8
  · rfl
  · refine a_setA_of_ne s (Ne.symm ?_) v
    rw [Ne, ofNat_eq_reg (by omega)]
    omega

theorem listReg_setListReg : listReg (setListReg s i v) i = v := by
  unfold listReg setListReg
  split_ifs with h8
  · exact d_setD ..
  · exact a_setA ..

theorem listReg_setListReg_of_ne (hi : i < 16) (hj : j < 16) (hne : j ≠ i) :
    listReg (setListReg s i v) j = listReg s j := by
  unfold setListReg
  split_ifs with h8
  · unfold listReg
    split_ifs with hj8
    · refine d_setD_of_ne s ?_ v
      rw [Ne, ofNat_eq_reg hj8, BitVec.toNat_ofNat, Nat.mod_eq_of_lt (by simpa using h8)]
      exact hne
    · rfl
  · have hnum : (BitVec.ofNat 3 (i - 8)).toNat = i - 8 := by
      rw [BitVec.toNat_ofNat, Nat.mod_eq_of_lt (by omega)]
    exact listReg_setA s v hj (by omega)

@[simp] theorem mem_setListReg : (setListReg s i v).mem = s.mem := by
  unfold setListReg
  split_ifs <;> rfl

end

/-- The registers of a mask, in ascending order. -/
def listed (list : Half) : List Nat := (List.range 16).filter fun i => list.getLsbD i

theorem mem_listed {list : Half} {i : Nat} : i ∈ listed list ↔ i < 16 ∧ list.getLsbD i = true := by
  simp [listed]

theorem length_listed (list : Half) : (listed list).length ≤ 16 :=
  (List.length_filter_le ..).trans_eq List.length_range

def pushReg (b : Bus μ) (reg : Reg) (s : Cpu μ) (r : Nat) : Cpu μ :=
  let s := s.setA reg (s.a reg - 4)
  busWrite32 b s (s.a reg) (listReg s r)

def popReg (b : Bus μ) (reg : Reg) (s : Cpu μ) (r : Nat) : Cpu μ :=
  let s := setListReg s r (busRead32 b s (s.a reg))
  s.setA reg (s.a reg + 4)

def storeReg (b : Bus μ) (p : Cpu μ × Word) (r : Nat) : Cpu μ × Word :=
  (busWrite32 b p.1 p.2 (listReg p.1 r), p.2 + 4)

theorem movemPredec_eq (s : Cpu μ) (reg : Reg) (list : Half) :
    movemPredec b s reg list.reverse = (listed list).reverse.foldl (pushReg b reg) s := by
  have hdown : (List.range 16).reverse = (List.range 16).map fun j => 15 - j := by decide
  rw [listed, ← List.filter_reverse, hdown, List.foldl_filter, List.foldl_map]
  refine List.foldl_ext _ _ _ ?_
  intro s j hj
  have hbit : list.reverse.getLsbD j = list.getLsbD (15 - j) := by
    have hlt := List.mem_range.mp hj
    rw [BitVec.getLsbD_reverse, BitVec.getMsbD_eq_getLsbD, decide_eq_true hlt, Bool.true_and]
  rw [hbit]
  rfl

theorem movemPostinc_eq (s : Cpu μ) (reg : Reg) (list : Half) :
    movemPostinc b s reg list = (listed list).foldl (popReg b reg) s := by
  rw [listed, List.foldl_filter]
  rfl

theorem movemStore_eq (s : Cpu μ) (addr : Word) (list : Half) :
    movemStore b s addr list = ((listed list).foldl (storeReg b) (s, addr)).1 := by
  rw [listed, List.foldl_filter]
  rfl

/-- Longword `k` upward from `base`. -/
def longAt (base : Word) (k : Nat) : Word := base + BitVec.ofNat 32 (4 * k)

/-- Values in ascending order upward from `base`. -/
def longs (base : Word) (vs : List Word) : List (Word × Word) := slots (longAt base) vs

theorem longAt_zero (base : Word) : longAt base 0 = base := BitVec.add_zero base

theorem ofNat_longs (n : Nat) : BitVec.ofNat 32 (4 * (n + 1)) = 4 + BitVec.ofNat 32 (4 * n) := by
  rw [Nat.mul_succ, Nat.add_comm, BitVec.ofNat_add]
  rfl

theorem longAt_succ (base : Word) (k : Nat) : longAt base (k + 1) = longAt (base + 4) k := by
  rw [longAt, longAt, ofNat_longs, BitVec.add_assoc]

theorem longs_cons (base v : Word) (vs : List Word) :
    longs base (v :: vs) = (base, v) :: longs (base + 4) vs := by
  rw [longs, slots, longAt_zero, longs]
  congr 2
  funext k
  exact longAt_succ base k

theorem cells_longs {base : Word} {vs : List Word} (hlen : vs.length ≤ 16)
    (hplain : PlainMemory b (bytes base (4 * vs.length))) :
    Cells b.write32 b.read32 ((longs base vs).map Prod.fst) := by
  have hsub {k : Nat} (hk : k < vs.length) :
      bytes (longAt base k) 4 ⊆ bytes base (4 * vs.length) :=
    bytes_subset base (by omega)
  refine cells_slots ?_ ?_ vs rfl
  · intro k hk m v
    exact hplain.same32 m _ v (hsub hk)
  · intro j hj k hk hne m v
    refine hplain.read32_write32 m _ _ v (hsub hj) ?_
    rcases Nat.lt_or_gt_of_ne hne with hlt | hlt
    · exact bytes_disjoint base (by omega) (by omega)
    · exact (bytes_disjoint base (by omega) (by omega)).symm

/-- The list of registers is stored below `An`. -/
structure Pushed (b : Bus μ) (reg : Reg) (regs : List Nat) (s s' : Cpu μ) : Prop where
  stack : s'.a reg = s.a reg - BitVec.ofNat 32 (4 * regs.length)
  data : s'.d = s.d
  others : ∀ i ≠ reg, s'.a i = s.a i
  mem : s'.mem = writes b.write32 s.mem (longs (s'.a reg) (regs.map (listReg s))).reverse

theorem Pushed.listReg {reg : Reg} {regs : List Nat} {s s' : Cpu μ} (h : Pushed b reg regs s s')
    {i : Nat} (hi : i < 16) (hne : i ≠ 8 + reg.toNat) : listReg s' i = listReg s i := by
  unfold ColdFire.listReg
  split_ifs with h8
  · rw [h.data]
  · refine h.others _ ?_
    rw [Ne, ofNat_eq_reg (by omega)]
    omega

theorem pushed {reg : Reg} {regs : List Nat} (s : Cpu μ)
    (hregs : ∀ r ∈ regs, r < 16 ∧ r ≠ 8 + reg.toNat) :
    Pushed b reg regs s (regs.reverse.foldl (pushReg b reg) s) := by
  induction regs with
  | nil => exact ⟨(BitVec.sub_zero _).symm, rfl, fun _ _ => rfl, rfl⟩
  | cons r regs ih =>
    have ih := ih fun r hr => hregs r (List.mem_cons_of_mem _ hr)
    obtain ⟨hr, hne⟩ := hregs r List.mem_cons_self
    rw [List.reverse_cons, List.foldl_append, List.foldl_cons, List.foldl_nil]
    generalize regs.reverse.foldl (pushReg b reg) s = t at ih
    have hstack : (pushReg b reg t r).a reg = t.a reg - 4 := a_setA ..
    have hval : ColdFire.listReg (t.setA reg (t.a reg - 4)) r = ColdFire.listReg s r := by
      rw [listReg_setA t _ hr hne, ih.listReg hr hne]
    constructor
    · rw [hstack, ih.stack, List.length_cons]
      rw [ofNat_longs, BitVec.sub_sub, BitVec.add_comm]
    · exact ih.data
    · intro i hi
      rw [← ih.others i hi]
      exact a_setA_of_ne t hi _
    · have hmem : (pushReg b reg t r).mem =
          b.write32 t.mem (t.a reg - 4) (ColdFire.listReg s r) := by
        rw [← hval]
        exact congrArg (fun a => b.write32 t.mem a _) (a_setA t reg _)
      rw [hmem, hstack, List.map_cons, longs_cons, List.reverse_cons, writes_append,
        BitVec.sub_add_cancel, ← ih.mem]
      rfl

theorem storeRegs (s : Cpu μ) (addr : Word) (regs : List Nat) :
    (regs.foldl (storeReg b) (s, addr)).1.mem =
      writes b.write32 s.mem (longs addr (regs.map (listReg s))) := by
  induction regs generalizing s addr with
  | nil => rfl
  | cons r regs ih =>
    rw [List.foldl_cons, storeReg, ih, List.map_cons, longs_cons, writes_cons]
    rfl

/-- The list of registers is loaded upward from `An`. -/
structure Popped (reg : Reg) (regs : List Nat) (v : Nat → Word) (s s' : Cpu μ) : Prop where
  stack : s'.a reg = s.a reg + BitVec.ofNat 32 (4 * regs.length)
  listed : ∀ r ∈ regs, listReg s' r = v r
  others : ∀ i < 16, i ≠ 8 + reg.toNat → i ∉ regs → listReg s' i = listReg s i
  mem : s'.mem = s.mem

theorem popped {reg : Reg} {regs : List Nat} {v : Nat → Word} (s : Cpu μ)
    (hregs : ∀ r ∈ regs, r < 16 ∧ r ≠ 8 + reg.toNat)
    (hmem : ∀ w ∈ longs (s.a reg) (regs.map v), b.read32 s.mem w.1 = w.2) :
    Popped reg regs v s (regs.foldl (popReg b reg) s) := by
  induction regs generalizing s with
  | nil => exact ⟨(BitVec.add_zero _).symm, by simp, fun _ _ _ _ => rfl, rfl⟩
  | cons r regs ih =>
    obtain ⟨hr, hne⟩ := hregs r List.mem_cons_self
    rw [List.map_cons, longs_cons] at hmem
    have hval : busRead32 b s (s.a reg) = v r := hmem (s.a reg, v r) List.mem_cons_self
    have hstack : (popReg b reg s r).a reg = s.a reg + 4 := by
      rw [popReg, a_setA, a_setListReg s _ hr hne]
    have hreg {i : Nat} (hi : i < 16) (hin : i ≠ 8 + reg.toNat) :
        listReg (popReg b reg s r) i = if i = r then v r else listReg s i := by
      rw [popReg, listReg_setA _ _ hi hin]
      split_ifs with heq
      · rw [heq, listReg_setListReg, hval]
      · exact listReg_setListReg_of_ne s _ hr hi heq
    have hkeep : (popReg b reg s r).mem = s.mem := mem_setListReg ..
    have ih := ih (popReg b reg s r) (fun r hr => hregs r (List.mem_cons_of_mem _ hr)) (by
      intro w hw
      rw [hkeep]
      rw [hstack] at hw
      exact hmem w (List.mem_cons_of_mem _ hw))
    rw [List.foldl_cons]
    constructor
    · rw [ih.stack, hstack, List.length_cons, ofNat_longs, BitVec.add_assoc]
    · intro i hi
      by_cases hin : i ∈ regs
      · exact ih.listed i hin
      · obtain rfl := (List.mem_cons.mp hi).resolve_right hin
        rw [ih.others i hr hne hin, hreg hr hne, if_pos rfl]
    · intro i hi hne' hnot
      rw [List.mem_cons, not_or] at hnot
      rw [ih.others i hi hne' hnot.2, hreg hi hne', if_neg hnot.1]
    · rw [ih.mem, hkeep]

/-- MOVEM.L list,-(An). -/
def movemToPredec (reg : Reg) : Half := 0x48E0 ||| reg.zeroExtend 16

/-- MOVEM.L list,(An). -/
def movemToMem (reg : Reg) : Half := 0x48D0 ||| reg.zeroExtend 16

/-- MOVEM.L (An)+,list. -/
def movemFromPostinc (reg : Reg) : Half := 0x4CD8 ||| reg.zeroExtend 16

theorem eq_of_reg (reg : Reg) :
    reg = 0 ∨ reg = 1 ∨ reg = 2 ∨ reg = 3 ∨ reg = 4 ∨ reg = 5 ∨ reg = 6 ∨ reg = 7 := by
  revert reg
  decide

theorem execGroup_toPredec (m : Machine μ) (s : Cpu μ) (reg : Reg) :
    execGroup m s (movemToPredec reg) =
      movemPredec m.bus (fetch16 m.bus s).2 reg (fetch16 m.bus s).1 := by
  rcases eq_of_reg reg with rfl | rfl | rfl | rfl | rfl | rfl | rfl | rfl <;> rfl

theorem execGroup_toMem (m : Machine μ) (s : Cpu μ) (reg : Reg) :
    execGroup m s (movemToMem reg) =
      movemStore m.bus (fetch16 m.bus s).2 (s.a reg) (fetch16 m.bus s).1 := by
  rcases eq_of_reg reg with rfl | rfl | rfl | rfl | rfl | rfl | rfl | rfl <;> rfl

theorem execGroup_fromPostinc (m : Machine μ) (s : Cpu μ) (reg : Reg) :
    execGroup m s (movemFromPostinc reg) =
      movemPostinc m.bus (fetch16 m.bus s).2 reg (fetch16 m.bus s).1 := by
  rcases eq_of_reg reg with rfl | rfl | rfl | rfl | rfl | rfl | rfl | rfl <;> rfl

/-- What is stored below `An` can be read there, and is loaded again into any registers. -/
theorem movem_stack (m : Machine μ) (s : Cpu μ) (reg : Reg) (list : Half)
    (hnot : list.getLsbD (8 + reg.toNat) = false) (hmask : (fetch16 m.bus s).1 = list.reverse) :
    let s' := execGroup m s (movemToPredec reg)
    let regs := listed list
    let stored := longs (s'.a reg) (regs.map (listReg s))
    Pushed m.bus reg regs s s' ∧
      (∀ w ∈ stored, bytes w.1 4 ⊆
        bytes (s.a reg - BitVec.ofNat 32 (4 * regs.length)) (4 * regs.length)) ∧
      (∀ t : Cpu μ, t.a reg = s'.a reg → (∀ r ∈ regs, listReg t r = listReg s r) →
        (fetch16 m.bus t).1 = list →
        (execGroup m t (movemToMem reg)).mem = writes m.bus.write32 t.mem stored ∧
        (PlainMemory m.bus (bytes (s'.a reg) (4 * regs.length)) → ∀ w ∈ stored,
          m.bus.read32 (execGroup m t (movemToMem reg)).mem w.1 = m.bus.read32 s'.mem w.1)) ∧
      (PlainMemory m.bus (bytes (s'.a reg) (4 * regs.length)) →
        ∀ t : Cpu μ, t.a reg = s'.a reg →
        (∀ w ∈ stored, m.bus.read32 t.mem w.1 = m.bus.read32 s'.mem w.1) →
        (fetch16 m.bus t).1 = list →
        Popped reg regs (listReg s) t (execGroup m t (movemFromPostinc reg)) ∧
        (execGroup m t (movemFromPostinc reg)).a reg = s.a reg) := by
  intro s' regs stored
  have hregs : ∀ r ∈ regs, r < 16 ∧ r ≠ 8 + reg.toNat := by
    intro r hr
    obtain ⟨hlt, hbit⟩ := mem_listed.mp hr
    refine ⟨hlt, ?_⟩
    rintro rfl
    rw [hnot] at hbit
    cases hbit
  have hpush : Pushed m.bus reg regs s s' := by
    have heq : s' = regs.reverse.foldl (pushReg m.bus reg) (fetch16 m.bus s).2 := by
      rw [← movemPredec_eq, ← hmask]
      exact execGroup_toPredec m s reg
    have hfetched := pushed (b := m.bus) (fetch16 m.bus s).2 hregs
    rw [← heq] at hfetched
    exact ⟨hfetched.stack, hfetched.data, hfetched.others, hfetched.mem⟩
  have hlen : (regs.map (listReg s)).length = regs.length := List.length_map ..
  have hcells (hplain : PlainMemory m.bus (bytes (s'.a reg) (4 * regs.length))) :
      Cells m.bus.write32 m.bus.read32 (stored.map Prod.fst) := by
    rw [← hlen] at hplain
    exact cells_longs (by rw [hlen]; exact length_listed list) hplain
  have hread (hplain : PlainMemory m.bus (bytes (s'.a reg) (4 * regs.length))) {w : Word × Word}
      (hw : w ∈ stored) : m.bus.read32 s'.mem w.1 = w.2 := by
    have hrev := (hcells hplain).reverse
    rw [← List.map_reverse] at hrev
    rw [hpush.mem]
    exact read_writes hrev (List.mem_reverse.mpr hw) s.mem
  refine ⟨hpush, ?_, ?_, ?_⟩
  · intro w hw
    obtain ⟨k, hk, rfl⟩ := (mem_slots ..).mp hw
    rw [hlen] at hk
    rw [← hpush.stack]
    exact bytes_subset _ (by omega)
  · intro t hstack hsame hlist
    have hmem : (execGroup m t (movemToMem reg)).mem = writes m.bus.write32 t.mem stored := by
      rw [execGroup_toMem, movemStore_eq, hlist, storeRegs, hstack]
      have hvals : regs.map (listReg (fetch16 m.bus t).2) = regs.map (listReg s) :=
        List.map_congr_left hsame
      rw [hvals]
      rfl
    refine ⟨hmem, fun hplain w hw => ?_⟩
    rw [hread hplain hw, hmem]
    exact read_writes (hcells hplain) hw t.mem
  · intro hplain t hstack hkept hlist
    have hpop : Popped reg regs (listReg s) t (execGroup m t (movemFromPostinc reg)) := by
      have hmem : ∀ w ∈ longs (t.a reg) (regs.map (listReg s)), m.bus.read32 t.mem w.1 = w.2 := by
        intro w hw
        rw [hstack] at hw
        rw [hkept w hw, hread hplain hw]
      rw [execGroup_fromPostinc, hlist, movemPostinc_eq]
      have hfetched := popped (b := m.bus) (fetch16 m.bus t).2 hregs hmem
      exact ⟨hfetched.stack, hfetched.listed, hfetched.others, hfetched.mem⟩
    refine ⟨hpop, ?_⟩
    rw [hpop.stack, hstack, hpush.stack, BitVec.sub_add_cancel]

/-- D0, D1 and A0 on the stack, with the words of both masks in memory. -/
def movemCode : Cpu (Word → BitVec 8) :=
  ((cpuAt 0x1000 0x8000 0 fun a =>
      if a = 0x1000 then 0xC0 else if a = 0x1001 then 0x80
      else if a = 0x1002 then 0x01 else if a = 0x1003 then 0x03 else 0).setD 0 0x11111111).setD 1
    0x22222222

theorem movem_stack_three :
    let s' := execGroup ramMachine movemCode (movemToPredec 7)
    let t := { s' with d := fun _ => 0xFFFFFFFF }
    ∀ r ∈ [0, 1, 8], listReg (execGroup ramMachine t (movemFromPostinc 7)) r =
      listReg movemCode r := by
  intro s' t
  have hstack := movem_stack ramMachine movemCode 7 0x0103 (by decide) (by decide)
  obtain ⟨hpop, _⟩ := hstack.2.2.2 (ram_plain _) t rfl (fun _ _ => rfl) (by decide)
  exact hpop.listed

end MechanicalResearcher.ColdFire
