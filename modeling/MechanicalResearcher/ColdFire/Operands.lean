import Mathlib.Data.List.Nodup
import MechanicalResearcher.ColdFire.Fmovem

/-!
# Memory operands

How the code gets at an operand in memory, format by format: the bytes that it touches, and the
state with the address register stepped.
-/

namespace MechanicalResearcher.ColdFire

variable {μ : Type} (b : Bus μ)

inductive Format
  /-- through `decode_ea`, also a single -/
  | int (sz : Size)
  /-- a double that is loaded, or stored -/
  | double (store : Bool)
  /-- control registers of the FPU, as many longwords as the selection has bits -/
  | controls (regsel : Reg)
  /-- `n` registers of `unit` bytes that are stored downward -/
  | push (unit n : Nat)
  /-- integer registers that are loaded upward -/
  | load (list : Half)

/-- The bytes of an operand. -/
def Format.bytes : Format → Nat
  | .int .byte => 1
  | .int .word => 2
  | .int .long => 4
  | .double _ => 8
  | .controls regsel => 4 * (fpControls regsel).length
  | .push unit n => unit * n
  | .load list => 4 * (listed list).length

structure Operand where
  mode : Reg
  reg : Reg
  format : Format

/-- (An)+ or -(An). -/
def Operand.Auto (o : Operand) : Prop := o.mode = 3 ∨ o.mode = 4

/-- What (An)+ and -(An) are to change the address register by. -/
def Operand.step (o : Operand) : Nat :=
  match o.format with
  | .int .byte => if o.reg = 7 then 2 else 1
  | f => f.bytes

/-- The accesses to memory, an address and a number of bytes each, and the state after them. -/
structure Access (μ : Type) where
  touched : List (Word × Nat)
  state : Cpu μ

/-- `n` accesses of `unit` bytes upward from `base`. -/
def upward (base : Word) (unit n : Nat) : List (Word × Nat) :=
  (List.range n).map fun k => (base + BitVec.ofNat 32 (unit * k), unit)

def decodeAccess (s : Cpu μ) (o : Operand) (sz : Size) (unit n : Nat) : Access μ :=
  let (loc, s) := decodeEa b s o.mode o.reg sz
  ⟨upward loc.addr unit n, s⟩

/-- The addresses that (An)+ loads a list of registers from. -/
def popAddrs (reg : Reg) (s : Cpu μ) : List Nat → List Word
  | [] => []
  | r :: rs => s.a reg :: popAddrs reg (popReg b reg s r) rs

/-- FMOVE of a double and the lists of registers have steps of their own; all else is stepped by
`decode_ea`. -/
def access (s : Cpu μ) (o : Operand) : Access μ :=
  match o.format with
  | .int sz => decodeAccess b s o sz (sizeBytes sz).toNat 1
  | .double false =>
    if o.mode = 3 then ⟨upward (s.a o.reg) 4 2, s.setA o.reg (s.a o.reg + 8)⟩
    else decodeAccess b s o .long 4 2
  | .double true =>
    if o.mode = 4 then ⟨upward (s.a o.reg - 8) 4 2, s.setA o.reg (s.a o.reg - 8)⟩
    else decodeAccess b s o .long 4 2
  | .controls regsel => decodeAccess b s o .long 4 (fpControls regsel).length
  | .push unit n =>
    let base := s.a o.reg - BitVec.ofNat 32 (unit * n)
    ⟨upward base unit n, s.setA o.reg base⟩
  | .load list =>
    ⟨(popAddrs b o.reg s (listed list)).map fun a => (a, 4),
      s.setA o.reg (((listed list).foldl (popReg b o.reg) s).a o.reg)⟩

def touchedBytes (ts : List (Word × Nat)) : Set Word := { x | ∃ t ∈ ts, x ∈ bytes t.1 t.2 }

/-- The law of (An)+ and -(An). -/
structure Stepped (o : Operand) (s : Cpu μ) (r : Access μ) : Prop where
  postinc : o.mode = 3 → r.state.a o.reg = s.a o.reg + BitVec.ofNat 32 o.step ∧
    touchedBytes r.touched = bytes (s.a o.reg) o.format.bytes
  predec : o.mode = 4 → r.state.a o.reg = s.a o.reg - BitVec.ofNat 32 o.step ∧
    touchedBytes r.touched = bytes (r.state.a o.reg) o.format.bytes
  others : ∀ i ≠ o.reg, r.state.a i = s.a i

/-- The address that a list loads `An` itself from, when it is stepped before by 4 each time. -/
def ownSlot (s : Cpu μ) (reg : Reg) (list : Half) : Word :=
  longAt (s.a reg) ((listed list).idxOf (8 + reg.toNat))

/-- Lists of registers are stored downward and loaded upward. -/
def Operand.Proper (o : Operand) : Prop :=
  match o.format with
  | .push _ _ => o.mode = 4
  | .load _ => o.mode = 3
  | _ => True

/-- The operands that the code steps by their size.  A list that loads `An` itself is one if the
longword for it in memory is its own address. -/
def Operand.Sized (o : Operand) (s : Cpu μ) : Prop :=
  match o.format with
  | .double false => o.mode = 3
  | .double true => o.mode = 4
  | .controls regsel => (fpControls regsel).length = 1
  | .load list => 8 + o.reg.toNat ∈ listed list →
      b.read32 s.mem (ownSlot s o.reg list) = ownSlot s o.reg list
  | _ => True

section

variable {b} (s : Cpu μ) (o : Operand)

theorem touchedBytes_upward (base : Word) (unit n : Nat) :
    touchedBytes (upward base unit n) = bytes base (unit * n) := by
  ext x
  constructor
  · rintro ⟨t, ht, i, hi, rfl⟩
    obtain ⟨k, hk, rfl⟩ := List.mem_map.mp ht
    have hlt : unit * (k + 1) ≤ unit * n := Nat.mul_le_mul_left unit (List.mem_range.mp hk)
    rw [Nat.mul_succ] at hlt
    refine ⟨unit * k + i, Nat.lt_of_lt_of_le (Nat.add_lt_add_left hi _) hlt, ?_⟩
    rw [BitVec.add_assoc, BitVec.ofNat_add]
  · rintro ⟨j, hj, rfl⟩
    have hunit : 0 < unit := Nat.pos_of_ne_zero fun h => by simp [h] at hj
    have hk : j / unit < n := Nat.div_lt_of_lt_mul hj
    refine ⟨_, List.mem_map.mpr ⟨j / unit, List.mem_range.mpr hk, rfl⟩,
      j % unit, Nat.mod_lt j hunit, ?_⟩
    rw [BitVec.add_assoc, ← BitVec.ofNat_add, Nat.div_add_mod]

theorem decodeAccess_postinc (hmode : o.mode = 3) (sz : Size) (unit n : Nat) :
    decodeAccess b s o sz unit n =
      ⟨upward (s.a o.reg) unit n, s.setA o.reg (s.a o.reg + eaStep o.reg sz)⟩ := by
  rw [decodeAccess, hmode]
  rfl

theorem decodeAccess_predec (hmode : o.mode = 4) (sz : Size) (unit n : Nat) :
    decodeAccess b s o sz unit n =
      ⟨upward (s.a o.reg - eaStep o.reg sz) unit n,
        s.setA o.reg (s.a o.reg - eaStep o.reg sz)⟩ := by
  rw [decodeAccess, hmode]
  exact congrArg (fun a => (⟨upward a unit n, _⟩ : Access μ)) (a_setA s o.reg _)

theorem Operand.mode_ne {o : Operand} (h : o.mode = 3) : o.mode ≠ 4 := by
  rw [h]
  decide

theorem stepped_iff {r : Access μ} {k : Word} {unit n : Nat} (hauto : o.Auto)
    (hbytes : unit * n = o.format.bytes)
    (hpost : o.mode = 3 → r = ⟨upward (s.a o.reg) unit n, s.setA o.reg (s.a o.reg + k)⟩)
    (hpre : o.mode = 4 → r = ⟨upward (s.a o.reg - k) unit n, s.setA o.reg (s.a o.reg - k)⟩) :
    Stepped o s r ↔ k = BitVec.ofNat 32 o.step := by
  rcases hauto with hmode | hmode
  · rw [hpost hmode]
    constructor
    · intro h
      have hchange := (h.postinc hmode).1
      rw [a_setA] at hchange
      exact (BitVec.add_right_inj (s.a o.reg)).mp hchange
    · rintro rfl
      refine ⟨fun _ => ⟨a_setA .., ?_⟩, fun h4 => absurd h4 (Operand.mode_ne hmode),
        fun i hi => a_setA_of_ne s hi _⟩
      rw [touchedBytes_upward, hbytes]
  · rw [hpre hmode]
    constructor
    · intro h
      have hchange := (h.predec hmode).1
      rw [a_setA] at hchange
      exact (BitVec.sub_right_inj (s.a o.reg)).mp hchange
    · rintro rfl
      refine ⟨fun h3 => absurd hmode (Operand.mode_ne h3), fun _ => ⟨a_setA .., ?_⟩,
        fun i hi => a_setA_of_ne s hi _⟩
      rw [touchedBytes_upward, hbytes, a_setA]

theorem decodeAccess_stepped_iff (hauto : o.Auto) (sz : Size) {unit n : Nat}
    (hbytes : unit * n = o.format.bytes) :
    Stepped o s (decodeAccess b s o sz unit n) ↔ eaStep o.reg sz = BitVec.ofNat 32 o.step :=
  stepped_iff s o hauto hbytes (fun hmode => decodeAccess_postinc s o hmode sz _ _)
    fun hmode => decodeAccess_predec s o hmode sz _ _

theorem eaStep_eq (mode reg : Reg) (sz : Size) :
    eaStep reg sz = BitVec.ofNat 32 (Operand.step ⟨mode, reg, .int sz⟩) := by
  cases sz
  · unfold eaStep Operand.step
    dsimp only
    by_cases h7 : reg = 7
    · rw [if_pos ⟨h7, rfl⟩, if_pos h7]
      rfl
    · rw [if_neg fun h => h7 h.1, if_neg h7]
      rfl
  · exact if_neg fun h => nomatch h.2
  · exact if_neg fun h => nomatch h.2

theorem eaStep_long_double (mode reg : Reg) (store : Bool) :
    eaStep reg .long ≠ BitVec.ofNat 32 (Operand.step ⟨mode, reg, .double store⟩) := by
  have hlong : eaStep reg .long = 4 := if_neg fun h => nomatch h.2
  have hdouble : BitVec.ofNat 32 (Operand.step ⟨mode, reg, .double store⟩) = 8 := rfl
  rw [hlong, hdouble]
  decide

theorem length_fpControls (regsel : Reg) : (fpControls regsel).length ≤ 3 := by
  revert regsel
  decide

theorem eaStep_long_controls (mode reg regsel : Reg) :
    eaStep reg .long = BitVec.ofNat 32 (Operand.step ⟨mode, reg, .controls regsel⟩) ↔
      (fpControls regsel).length = 1 := by
  have hlong : eaStep reg .long = BitVec.ofNat 32 4 := if_neg fun h => nomatch h.2
  have hstep : Operand.step ⟨mode, reg, .controls regsel⟩ = 4 * (fpControls regsel).length := rfl
  have hle := length_fpControls regsel
  rw [hlong, hstep, ← BitVec.toNat_inj, BitVec.toNat_ofNat, BitVec.toNat_ofNat]
  omega

/-! ### Lists that are loaded -/

section

variable {reg : Reg} {r : Nat} {rs : List Nat}

theorem a_popReg (hr : r < 16) :
    (popReg b reg s r).a reg =
      (if r = 8 + reg.toNat then b.read32 s.mem (s.a reg) else s.a reg) + 4 := by
  rw [popReg, a_setA]
  split_ifs with hown
  · subst hown
    have hreg : setListReg s (8 + reg.toNat) (busRead32 b s (s.a reg)) =
        s.setA reg (b.read32 s.mem (s.a reg)) := by
      rw [setListReg, if_neg (by omega), Nat.add_sub_cancel_left, BitVec.ofNat_toNat,
        BitVec.setWidth_eq]
      rfl
    rw [hreg, a_setA]
  · rw [a_setListReg s _ hr hown]

@[simp] theorem mem_popReg : (popReg b reg s r).mem = s.mem := mem_setListReg ..

theorem popRegs_a (hrs : ∀ r ∈ rs, r < 16)
    (hown : ∀ l l', rs = l ++ (8 + reg.toNat) :: l' →
      b.read32 s.mem (longAt (s.a reg) l.length) = longAt (s.a reg) l.length) :
    (rs.foldl (popReg b reg) s).a reg = longAt (s.a reg) rs.length ∧
      popAddrs b reg s rs = (List.range rs.length).map (longAt (s.a reg)) := by
  induction rs generalizing s with
  | nil => exact ⟨(longAt_zero _).symm, rfl⟩
  | cons r rs ih =>
    have hstep : (popReg b reg s r).a reg = s.a reg + 4 := by
      rw [a_popReg s (hrs r List.mem_cons_self)]
      split_ifs with hr
      · have hfirst := hown [] rs (by rw [hr]; rfl)
        rw [List.length_nil, longAt_zero] at hfirst
        rw [hfirst]
      · rfl
    obtain ⟨hlast, haddrs⟩ := ih (popReg b reg s r)
      (fun r' hr' => hrs r' (List.mem_cons_of_mem r hr')) (by
        intro l l' hsplit
        have hlater := hown (r :: l) l' (by rw [hsplit, List.cons_append])
        rwa [List.length_cons, longAt_succ, ← hstep, ← mem_popReg (b := b) s] at hlater)
    constructor
    · rw [List.foldl_cons, hlast, hstep, List.length_cons, longAt_succ]
    · rw [popAddrs, haddrs, hstep, List.length_cons, List.range_succ_eq_map, List.map_cons,
        longAt_zero, List.map_map]
      congr 2
      funext k
      exact (longAt_succ (s.a reg) k).symm

theorem mem_popRegs : (rs.foldl (popReg b reg) s).mem = s.mem := by
  induction rs generalizing s with
  | nil => rfl
  | cons r rs ih => rw [List.foldl_cons, ih, mem_popReg]

theorem nodup_listed (list : Half) : (listed list).Nodup := List.Nodup.filter _ List.nodup_range

theorem popRegs_own (hrs : ∀ r ∈ rs, r < 16) (hnodup : rs.Nodup) {l l' : List Nat}
    (hsplit : rs = l ++ (8 + reg.toNat) :: l') :
    (rs.foldl (popReg b reg) s).a reg =
      longAt (b.read32 s.mem (longAt (s.a reg) l.length)) (l'.length + 1) := by
  subst hsplit
  have hl := (List.nodup_cons.mp (List.nodup_middle.mp hnodup)).1
  rw [List.mem_append, not_or] at hl
  have hbefore := (@popRegs_a _ b s _ l
    (fun r hr => hrs r (List.mem_append_left _ hr)) fun k k' hk => by
      rw [hk] at hl
      exact absurd (List.mem_append_right k List.mem_cons_self) hl.1).1
  rw [List.foldl_append, List.foldl_cons]
  have hafter := (@popRegs_a _ b (popReg b reg (l.foldl (popReg b reg) s) (8 + reg.toNat))
    _ l' (fun r hr => hrs r (List.mem_append_right _ (List.mem_cons_of_mem _ hr)))
    fun k k' hk => by
      rw [hk] at hl
      exact absurd (List.mem_append_right k List.mem_cons_self) hl.2).1
  rw [hafter, a_popReg _ (hrs _ (List.mem_append_right _ List.mem_cons_self)), if_pos rfl,
    mem_popRegs, hbefore, longAt_succ]

theorem listed_lt {list : Half} : ∀ r ∈ listed list, r < 16 := fun _ hr => (mem_listed.mp hr).1

theorem longAt_eq_iff {x y : Word} (n : Nat) : longAt x n = longAt y n ↔ x = y :=
  BitVec.add_left_inj _

theorem listed_split {list : Half} {l l' : List Nat}
    (hsplit : listed list = l ++ (8 + reg.toNat) :: l') :
    (listed list).idxOf (8 + reg.toNat) = l.length := by
  have hnodup := nodup_listed list
  rw [hsplit, List.nodup_middle, List.nodup_cons, List.mem_append, not_or] at hnodup
  rw [hsplit, List.idxOf_append_of_notMem hnodup.1.1, List.idxOf_cons_self, Nat.add_zero]

theorem touchedBytes_longs (base : Word) (n : Nat) :
    touchedBytes (((List.range n).map (longAt base)).map fun a => (a, 4)) = bytes base (4 * n) := by
  rw [List.map_map, ← touchedBytes_upward base 4 n]
  rfl

theorem load_stepped_iff {list : Half} (hmode : o.mode = 3) (hformat : o.format = .load list) :
    Stepped o s (access b s o) ↔ o.Sized b s := by
  obtain ⟨mode, reg, format⟩ := o
  dsimp only at hmode hformat
  subst hmode hformat
  have hstep : longAt (s.a reg) (listed list).length =
      s.a reg + BitVec.ofNat 32 (Operand.step ⟨3, reg, .load list⟩) := rfl
  constructor
  · intro h hmem
    obtain ⟨l, l', hsplit⟩ := List.append_of_mem hmem
    have hchange := (h.postinc rfl).1
    have hfinal : (access b s ⟨3, reg, .load list⟩).state.a reg =
        ((listed list).foldl (popReg b reg) s).a reg := a_setA ..
    have hlen : (listed list).length = l.length + (l'.length + 1) := by
      rw [hsplit, List.length_append, List.length_cons]
    have hsum : longAt (s.a reg) (listed list).length =
        longAt (longAt (s.a reg) l.length) (l'.length + 1) := by
      rw [hlen, longAt, longAt, longAt, Nat.mul_add, BitVec.ofNat_add, BitVec.add_assoc]
    rw [hfinal, popRegs_own s listed_lt (nodup_listed list) hsplit, ← hstep, hsum,
      longAt_eq_iff] at hchange
    change b.read32 s.mem (ownSlot s reg list) = ownSlot s reg list
    rw [ownSlot, listed_split hsplit]
    exact hchange
  · intro hown
    obtain ⟨hlast, haddrs⟩ := @popRegs_a _ b s reg (listed list) listed_lt
      fun l l' hsplit => by
        have hslot := hown (by rw [hsplit]; exact List.mem_append_right l List.mem_cons_self)
        change b.read32 s.mem (ownSlot s reg list) = ownSlot s reg list at hslot
        rwa [ownSlot, listed_split hsplit] at hslot
    refine ⟨fun _ => ⟨?_, ?_⟩, fun h4 => absurd h4 (Operand.mode_ne rfl),
      fun i hi => a_setA_of_ne s hi _⟩
    · rw [← hstep, ← hlast]
      exact a_setA ..
    · change touchedBytes ((popAddrs b reg s (listed list)).map fun a => (a, 4)) = _
      rw [haddrs, touchedBytes_longs]
      rfl

end

theorem access_stepped_iff (hauto : o.Auto) (hproper : o.Proper) :
    Stepped o s (access b s o) ↔ o.Sized b s := by
  obtain ⟨mode, reg, format⟩ := o
  cases format with
  | int sz =>
    have hbytes : (sizeBytes sz).toNat * 1 = (Format.int sz).bytes := by cases sz <;> rfl
    refine iff_of_true ?_ trivial
    exact (decodeAccess_stepped_iff s _ hauto sz hbytes).mpr (eaStep_eq mode reg sz)
  | double store =>
    have hdecode : ¬Stepped ⟨mode, reg, .double store⟩ s
        (decodeAccess b s ⟨mode, reg, .double store⟩ .long 4 2) := by
      intro h
      exact eaStep_long_double mode reg store
        ((decodeAccess_stepped_iff s _ hauto .long rfl).mp h)
    have hstep : (8 : Word) = BitVec.ofNat 32 (Operand.step ⟨mode, reg, .double store⟩) := rfl
    cases store
    · by_cases h3 : mode = 3
      · refine iff_of_true ?_ h3
        refine (stepped_iff s _ hauto (by rfl : 4 * 2 = 8) (fun _ => ?_) fun h4 => ?_).mpr hstep
        · exact if_pos h3
        · exact absurd (h3.symm.trans h4) (by decide)
      · refine iff_of_false ?_ h3
        rw [show access b s ⟨mode, reg, .double false⟩ = _ from if_neg h3]
        exact hdecode
    · by_cases h4 : mode = 4
      · refine iff_of_true ?_ h4
        refine (stepped_iff s _ hauto (by rfl : 4 * 2 = 8) (fun h3 => ?_) fun _ => ?_).mpr hstep
        · exact absurd (h3.symm.trans h4) (by decide)
        · exact if_pos h4
      · refine iff_of_false ?_ h4
        rw [show access b s ⟨mode, reg, .double true⟩ = _ from if_neg h4]
        exact hdecode
  | controls regsel =>
    exact (decodeAccess_stepped_iff s _ hauto .long rfl).trans
      (eaStep_long_controls mode reg regsel)
  | push unit n =>
    refine iff_of_true ?_ trivial
    refine (stepped_iff s _ hauto rfl (fun h3 => ?_) fun _ => rfl).mpr rfl
    exact absurd (h3.symm.trans hproper) (by decide)
  | load list => exact load_stepped_iff s _ hproper rfl

end

end MechanicalResearcher.ColdFire
