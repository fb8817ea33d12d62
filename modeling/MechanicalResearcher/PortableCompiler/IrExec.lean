import Mathlib.Logic.Relation
import Mathlib.Logic.Function.Basic
import MechanicalResearcher.Lib.ByteMemory
import MechanicalResearcher.PortableCompiler.Ir

/-!
# What the intermediate code computes

The instructions of one function between two calls, over 32-bit temps and a byte memory.
Arithmetic wraps, and a shift count counts modulo 64, as on the target.  An instruction that
leaves the function (a call, a return, a mark, a capture, a resume) has no step here.

`Leads` is the rule for a piece of code wherever it stands: from a position and a valuation of
the temps the code runs to a position and a valuation of which something holds.
-/

namespace MechanicalResearcher.PortableCompiler

open Lib.ByteMemory

abbrev Temps := Nat → Word

/-- Where the symbols and the slots of the frame are. -/
structure Layout where
  symAddr : String → Word
  slotAddr : Nat → Word

structure Vm where
  pc : Nat
  temp : Temps
  mem : Mem

def ofBool (p : Bool) : Word := if p then 1 else 0

/-- The comparisons, signed and unsigned. -/
def cmpHolds : Op → Word → Word → Option Bool
  | .cmpeq, x, y => some (x == y)
  | .cmpne, x, y => some (x != y)
  | .cmplts, x, y => some (x.slt y)
  | .cmples, x, y => some (x.sle y)
  | .cmpgts, x, y => some (y.slt x)
  | .cmpges, x, y => some (y.sle x)
  | .cmpltu, x, y => some (x.ult y)
  | .cmpleu, x, y => some (x.ule y)
  | .cmpgtu, x, y => some (y.ult x)
  | .cmpgeu, x, y => some (y.ule x)
  | _, _, _ => none

/-- The quotient of the least number by -1 wraps. -/
def binop : Op → Word → Word → Option Word
  | .add, x, y => some (x + y)
  | .sub, x, y => some (x - y)
  | .mul, x, y => some (x * y)
  | .divs, x, y => if y = 0 then none else some (x.sdiv y)
  | .divu, x, y => if y = 0 then none else some (x / y)
  | .mods, x, y => if y = 0 then none else some (x - x.sdiv y * y)
  | .modu, x, y => if y = 0 then none else some (x - x / y * y)
  | .and, x, y => some (x &&& y)
  | .or, x, y => some (x ||| y)
  | .xor, x, y => some (x ^^^ y)
  | .shl, x, y => some (x <<< (y.toNat % 64))
  | .shrs, x, y => some (x.sshiftRight (y.toNat % 64))
  | .shru, x, y => some (x >>> (y.toNat % 64))
  | op, x, y => (cmpHolds op x y).map ofBool

def unop : Op → Word → Option Word
  | .mov, x => some x
  | .neg, x => some (-x)
  | .not, x => some (~~~x)
  | _, _ => none

def load (m : Mem) (x : Word) : Op → Option Word
  | .lb => some ((readB m x).zeroExtend 32)
  | .lbs => some ((readB m x).signExtend 32)
  | .lh => some ((readW m x).zeroExtend 32)
  | .lhs => some ((readW m x).signExtend 32)
  | .lw => some (readL m x)
  | _ => none

def store (m : Mem) (x y : Word) : Op → Option Mem
  | .sb => some (writeB m x (y.truncate 8))
  | .sh => some (writeW m x (y.truncate 16))
  | .sw => some (writeL m x y)
  | _ => none

def isLabel (l : Nat) (i : Insn) : Prop := i.op = .label ∧ i.label = some l

instance (l : Nat) (i : Insn) : Decidable (isLabel l i) := inferInstanceAs (Decidable (_ ∧ _))

/-- The position of a label. -/
def findLabel (l : Nat) : List Insn → Option Nat
  | [] => none
  | i :: is => if isLabel l i then some 0 else (findLabel l is).map (· + 1)

/-- The word that an instruction puts in its destination. -/
def Insn.value (L : Layout) (σ : Vm) (i : Insn) : Option Word :=
  match i.op with
  | .lic => some (BitVec.ofInt 32 i.imm)
  | .lea => some (L.symAddr i.sym)
  | .adl => i.slot.map L.slotAddr
  | .ldl => i.slot.map fun k => readL σ.mem (L.slotAddr k)
  | .mov | .neg | .not => do unop i.op (σ.temp (← i.a))
  | .lb | .lbs | .lh | .lhs | .lw => do load σ.mem (σ.temp (← i.a)) i.op
  | op => do binop op (σ.temp (← i.a)) (σ.temp (← i.b))

/-- One instruction. -/
def irStep (L : Layout) (code : List Insn) (σ : Vm) : Option Vm := do
  let i ← code[σ.pc]?
  match i.op with
  | .nop | .label | .func => some { σ with pc := σ.pc + 1 }
  | .jmp => do
    let q ← findLabel (← i.label) code
    some { σ with pc := q }
  | .bz | .bnz => do
    let q ← findLabel (← i.label) code
    let x := σ.temp (← i.a)
    some { σ with pc := if (x = 0) = (i.op = .bz) then q else σ.pc + 1 }
  | .stl => do
    let k ← i.slot
    let t ← i.a
    some { σ with pc := σ.pc + 1, mem := writeL σ.mem (L.slotAddr k) (σ.temp t) }
  | .sb | .sh | .sw => do
    let m ← store σ.mem (σ.temp (← i.a)) (σ.temp (← i.b)) i.op
    some { σ with pc := σ.pc + 1, mem := m }
  | .arg | .call | .calli | .ret | .retv | .endf | .mark | .capture | .resume => none
  | _ => do
    let w ← i.value L σ
    let d ← i.dst
    some { σ with pc := σ.pc + 1, temp := Function.update σ.temp d w }

def Runs (L : Layout) (code : List Insn) : Vm → Vm → Prop :=
  Relation.ReflTransGen fun σ σ' => irStep L code σ = some σ'

/-- The instructions that put a value in their destination. -/
def Op.computes : Op → Bool
  | .nop | .label | .func | .jmp | .bz | .bnz | .stl | .sb | .sh | .sw | .arg | .call | .calli
  | .ret | .retv | .endf | .mark | .capture | .resume => false
  | _ => true

theorem irStep_computes {L : Layout} {code : List Insn} {i : Insn} {σ : Vm}
    (hi : code[σ.pc]? = some i) (hop : i.op.computes = true) :
    irStep L code σ = (do
      let w ← i.value L σ
      let d ← i.dst
      some { σ with pc := σ.pc + 1, temp := Function.update σ.temp d w }) := by
  rw [irStep, hi, Option.bind_eq_bind, Option.bind_some]
  cases hop' : i.op <;> rw [hop'] at hop <;> exact absurd hop Bool.false_ne_true

theorem irStep_value {L : Layout} {code : List Insn} {i : Insn} {σ σ' : Vm}
    (hi : code[σ.pc]? = some i) (hop : i.op.computes = true) (h : irStep L code σ = some σ') :
    ∃ w d, i.value L σ = some w ∧ i.dst = some d ∧
      σ' = ⟨σ.pc + 1, Function.update σ.temp d w, σ.mem⟩ := by
  rw [irStep_computes hi hop] at h
  rcases hw : i.value L σ with _ | w
  · simp [hw] at h
  rcases hd : i.dst with _ | d
  · simp [hw, hd] at h
  rw [hw, hd] at h
  exact ⟨w, d, rfl, rfl, (Option.some.inj h).symm⟩

theorem irStep_store {L : Layout} {code : List Insn} {i : Insn} {σ σ' : Vm}
    (hi : code[σ.pc]? = some i) (hop : i.op = .sb ∨ i.op = .sh ∨ i.op = .sw)
    (h : irStep L code σ = some σ') :
    ∃ a b m, i.a = some a ∧ i.b = some b ∧ store σ.mem (σ.temp a) (σ.temp b) i.op = some m ∧
      σ' = ⟨σ.pc + 1, σ.temp, m⟩ := by
  rcases hop with hop | hop | hop
  all_goals
    simp only [irStep, hi, hop, Option.bind_eq_bind, Option.bind_some,
      Option.bind_eq_some_iff] at h
    obtain ⟨a, ha, b, hb, m, hm, hσ⟩ := h
    exact ⟨a, b, m, ha, hb, hop ▸ hm, (Option.some.inj hσ).symm⟩

theorem irStep_stl {L : Layout} {code : List Insn} {i : Insn} {σ σ' : Vm}
    (hi : code[σ.pc]? = some i) (hop : i.op = .stl) (h : irStep L code σ = some σ') :
    ∃ k a, i.slot = some k ∧ i.a = some a ∧
      σ' = ⟨σ.pc + 1, σ.temp, writeL σ.mem (L.slotAddr k) (σ.temp a)⟩ := by
  simp only [irStep, hi, hop, Option.bind_eq_bind, Option.bind_some,
    Option.bind_eq_some_iff] at h
  obtain ⟨k, hk, a, ha, hσ⟩ := h
  exact ⟨k, a, hk, ha, (Option.some.inj hσ).symm⟩

def Insn.labelled (i : Insn) : Option Nat := if i.op = .label then i.label else none

/-- The labels that a piece of code defines. -/
def labels (seg : List Insn) : List Nat := seg.filterMap Insn.labelled

@[simp] theorem labels_nil : labels [] = [] := rfl

@[simp] theorem labels_append (seg seg' : List Insn) :
    labels (seg ++ seg') = labels seg ++ labels seg' :=
  List.filterMap_append

@[simp] theorem labels_cons (i : Insn) (seg : List Insn) :
    labels (i :: seg) = (Insn.labelled i).toList ++ labels seg := by
  cases h : Insn.labelled i <;> simp [labels, h]

theorem labelled_eq_some {i : Insn} {l : Nat} : i.labelled = some l ↔ isLabel l i := by
  unfold Insn.labelled isLabel
  split <;> simp_all

theorem findLabel_append {l : Nat} {pre : List Insn} (h : l ∉ labels pre) (seg : List Insn) :
    findLabel l (pre ++ seg) = (findLabel l seg).map (· + pre.length) := by
  induction pre with
  | nil => simp
  | cons i pre ih =>
    rw [labels_cons, List.mem_append, not_or] at h
    have hi : ¬ isLabel l i := by
      intro hl
      exact h.1 (by simp [labelled_eq_some.2 hl])
    rw [List.cons_append, findLabel, if_neg hi, ih h.2, Option.map_map]
    congr 1

/-- `seg` stands in `code` from position `p` on, and its labels are found there. -/
structure At (code : List Insn) (p : Nat) (seg : List Insn) : Prop where
  get : ∀ (k : Nat) i, seg[k]? = some i → code[p + k]? = some i
  label : ∀ (k : Nat) i l, seg[k]? = some i → isLabel l i → findLabel l code = some (p + k)

namespace At

variable {code pre seg seg' : List Insn} {p : Nat} {i : Insn}

theorem append_iff : At code p (seg ++ seg') ↔ At code p seg ∧ At code (p + seg.length) seg' := by
  have hleft : ∀ (k : Nat) i, seg[k]? = some i → (seg ++ seg')[k]? = some i := by
    intro k i hk
    rw [List.getElem?_append_left (List.getElem?_eq_some_iff.1 hk).1, hk]
  have hright : ∀ (k : Nat) i, seg'[k]? = some i → (seg ++ seg')[seg.length + k]? = some i := by
    intro k i hk
    rw [List.getElem?_append_right (Nat.le_add_right _ _), Nat.add_sub_cancel_left, hk]
  constructor
  · intro h
    refine ⟨⟨fun k i hk => h.get k i (hleft k i hk),
      fun k i l hk hl => h.label k i l (hleft k i hk) hl⟩, fun k i hk => ?_, fun k i l hk hl => ?_⟩
    · rw [Nat.add_assoc]
      exact h.get _ i (hright k i hk)
    · rw [Nat.add_assoc]
      exact h.label _ i l (hright k i hk) hl
  · rintro ⟨h, h'⟩
    -- an index of the whole is one of the left part or one of the right part
    have hsplit : ∀ (k : Nat) i, (seg ++ seg')[k]? = some i →
        seg[k]? = some i ∨ ∃ j, k = seg.length + j ∧ seg'[j]? = some i := by
      intro k i hk
      by_cases hlt : k < seg.length
      · rw [List.getElem?_append_left hlt] at hk
        exact .inl hk
      · rw [List.getElem?_append_right (by omega)] at hk
        exact .inr ⟨k - seg.length, by omega, hk⟩
    constructor
    · intro k i hk
      obtain hk | ⟨j, rfl, hj⟩ := hsplit k i hk
      · exact h.get k i hk
      · rw [← Nat.add_assoc]
        exact h'.get j i hj
    · intro k i l hk hl
      obtain hk | ⟨j, rfl, hj⟩ := hsplit k i hk
      · exact h.label k i l hk hl
      · rw [← Nat.add_assoc]
        exact h'.label j i l hj hl

theorem left (h : At code p (seg ++ seg')) : At code p seg := (append_iff.1 h).1

theorem right (h : At code p (seg ++ seg')) : At code (p + seg.length) seg' := (append_iff.1 h).2

theorem head (h : At code p (i :: seg)) : code[p]? = some i := h.get 0 i rfl

theorem tail (h : At code p (i :: seg)) : At code (p + 1) seg :=
  (append_iff.1 (show At code p ([i] ++ seg) from h)).2

theorem of_append (hpre : ∀ l ∈ labels seg, l ∉ labels pre) (hseg : (labels seg).Nodup)
    (post : List Insn) : At (pre ++ seg ++ post) pre.length seg := by
  constructor
  · intro k i hk
    rw [List.append_assoc, List.getElem?_append_right (Nat.le_add_right _ _),
      Nat.add_sub_cancel_left, List.getElem?_append_left (List.getElem?_eq_some_iff.1 hk).1, hk]
  · intro k i l hk hl
    obtain ⟨hlt, rfl⟩ := List.getElem?_eq_some_iff.1 hk
    have hsplit : seg = seg.take k ++ seg[k] :: seg.drop (k + 1) := by simp
    have hlab : labels seg = labels (seg.take k) ++ l :: labels (seg.drop (k + 1)) := by
      conv_lhs => rw [hsplit]
      rw [labels_append, labels_cons, labelled_eq_some.2 hl]
      rfl
    have hmem : l ∈ labels seg := by simp [hlab]
    have htake : l ∉ labels (seg.take k) := by
      rw [hlab] at hseg
      exact fun h => (List.nodup_append.1 hseg).2.2 l h l (by simp) rfl
    have hat : findLabel l (seg ++ post) = some k := by
      conv_lhs => rw [hsplit]
      rw [List.append_assoc, findLabel_append htake, List.cons_append, findLabel, if_pos hl]
      simp [Nat.min_eq_left (Nat.le_of_lt hlt)]
    rw [List.append_assoc, findLabel_append (hpre l hmem), hat]
    simp [Nat.add_comm]

end At

/-- From position `p` with the temps `a` the code runs to where `Q` holds, and the memory is
as before. -/
def Leads (L : Layout) (code : List Insn) (p : Nat) (a : Temps) (Q : Nat → Temps → Prop) : Prop :=
  ∀ m, ∃ q b, Runs L code ⟨p, a, m⟩ ⟨q, b, m⟩ ∧ Q q b

namespace Leads

variable {L : Layout} {code : List Insn} {p q : Nat} {a b : Temps} {Q R : Nat → Temps → Prop}
  {i : Insn}

theorem done (h : Q p a) : Leads L code p a Q := fun _ => ⟨p, a, .refl, h⟩

theorem next (hstep : ∀ m, irStep L code ⟨p, a, m⟩ = some ⟨q, b, m⟩) (h : Leads L code q b Q) :
    Leads L code p a Q := by
  intro m
  obtain ⟨r, c, hrun, hQ⟩ := h m
  exact ⟨r, c, .head (hstep m) hrun, hQ⟩

theorem bind (h : Leads L code p a R) (hR : ∀ q b, R q b → Leads L code q b Q) :
    Leads L code p a Q := by
  intro m
  obtain ⟨q, b, hrun, hq⟩ := h m
  obtain ⟨r, c, hrun', hQ⟩ := hR q b hq m
  exact ⟨r, c, hrun.trans hrun', hQ⟩

theorem lic {d : Nat} {v : Int} (hi : code[p]? = some { op := .lic, dst := some d, imm := v })
    (h : Leads L code (p + 1) (Function.update a d (BitVec.ofInt 32 v)) Q) : Leads L code p a Q :=
  next (fun m => by simp [irStep, hi, Insn.value]) h

theorem mov {d t : Nat} (hi : code[p]? = some { op := .mov, dst := some d, a := some t })
    (h : Leads L code (p + 1) (Function.update a d (a t)) Q) : Leads L code p a Q :=
  next (fun m => by simp [irStep, hi, Insn.value, unop]) h

theorem bin {op : Op} {d t u : Nat} {w : Word}
    (hi : code[p]? = some { op := op, dst := some d, a := some t, b := some u })
    (hw : binop op (a t) (a u) = some w)
    (h : Leads L code (p + 1) (Function.update a d w) Q) : Leads L code p a Q := by
  refine next (fun m => ?_) h
  have hvalue : Insn.value L ⟨p, a, m⟩ { op := op, dst := some d, a := some t, b := some u } =
      some w := by
    rw [← hw]
    cases op
    all_goals first
      | rfl
      | exact absurd hw.symm (Option.some_ne_none w)
  have hcomputes : op.computes = true := by
    cases op
    all_goals first
      | rfl
      | exact absurd hw.symm (Option.some_ne_none w)
  rw [irStep_computes hi hcomputes, hvalue]
  rfl

theorem label {l : Nat} (hi : code[p]? = some { op := .label, label := some l })
    (h : Leads L code (p + 1) a Q) : Leads L code p a Q :=
  next (fun m => by simp [irStep, hi]) h

theorem jmp {l : Nat} (hi : code[p]? = some { op := .jmp, label := some l })
    (hl : findLabel l code = some q) (h : Leads L code q a Q) : Leads L code p a Q :=
  next (fun m => by simp [irStep, hi, hl]) h

theorem bnz {t l : Nat} (hi : code[p]? = some { op := .bnz, a := some t, label := some l })
    (hl : findLabel l code = some q)
    (h : Leads L code (if a t = 0 then p + 1 else q) a Q) : Leads L code p a Q := by
  refine next (fun m => ?_) h
  by_cases h0 : a t = 0 <;> simp [irStep, hi, hl, h0]

end Leads

end MechanicalResearcher.PortableCompiler
