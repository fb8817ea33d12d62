import MechanicalResearcher.Lib.Behaviour
import MechanicalResearcher.PortableCompiler.Flow

/-!
# Runs of intermediate code with calls

The steps of `irStep` and, beside them, the instructions that come back with a value from outside
the function: a call, a mark and a capture.  What these do is the parameter `calls`, any relation
between the state before and the events, the value and the memory after; an argument is passed
without a trace.  A return has no step, and a resume does not come back.
-/

namespace MechanicalResearcher.PortableCompiler

open Lib.ByteMemory Lib.Behaviour

/-- The temps and the memory. -/
abbrev Cells := Temps × Mem

def vm (p : Nat) (d : Cells) : Vm := ⟨p, d.1, d.2⟩

def Insn.Returns (i : Insn) : Prop := i.op = .ret ∨ i.op = .retv

variable {E : Type}

abbrev Calls (E : Type) := Insn → Vm → List E → Word → Mem → Prop

inductive CallStep (L : Layout) (calls : Calls E) (code : List Insn) : Vm → List E → Vm → Prop
  | insn {σ σ' : Vm} : irStep L code σ = some σ' → CallStep L calls code σ [] σ'
  | arg {σ : Vm} {i : Insn} : code[σ.pc]? = some i → i.op = .arg →
      CallStep L calls code σ [] { σ with pc := σ.pc + 1 }
  | call {σ : Vm} {i : Insn} {t : Nat} {es : List E} {w : Word} {m : Mem} :
      code[σ.pc]? = some i → i.op.calls = true → i.dst = some t → calls i σ es w m →
      CallStep L calls code σ es ⟨σ.pc + 1, Function.update σ.temp t w, m⟩

/-- The positions from `lo` up to `hi`, where the function does not return. -/
def Inside (code : List Insn) (lo hi : Nat) (σ : Vm) : Prop :=
  lo ≤ σ.pc ∧ σ.pc < hi ∧ ∀ i, code[σ.pc]? = some i → ¬ i.Returns

variable {L : Layout} {calls : Calls E} {code seg : List Insn} {σ σ' : Vm} {es : List E}
  {i : Insn} {lo hi p q l t k : Nat} {d : Cells} {R : List E → Vm → Prop} {P : List E → Prop}

theorem Inside.mono {lo' hi' : Nat} (hlo : lo' ≤ lo) (hhi : hi ≤ hi') (h : Inside code lo hi σ) :
    Inside code lo' hi' σ :=
  ⟨hlo.trans h.1, Nat.lt_of_lt_of_le h.2.1 hhi, h.2.2⟩

theorem inside_of_op (hi : code[p]? = some i) (hret : ¬ i.Returns) (hlo : lo ≤ p) {hi' : Nat}
    (hlt : p < hi') (d : Cells) : Inside code lo hi' (vm p d) := by
  refine ⟨hlo, hlt, fun j hj => ?_⟩
  have hj : code[p]? = some j := hj
  rw [hi] at hj
  rwa [← Option.some.inj hj]

theorem falls_of_computes (h : i.op.computes = true) : i.falls = true := by
  unfold Insn.falls
  cases hop : i.op <;> rw [hop] at h <;> first | rfl | cases h

theorem irStep_edge (h : irStep L code σ = some σ') : Edge code σ.pc σ'.pc := by
  rcases hi : code[σ.pc]? with _ | i
  · simp [irStep, hi] at h
  by_cases hc : i.op.computes = true
  · obtain ⟨w, t, -, -, rfl⟩ := irStep_value hi hc h
    exact ⟨i, hi, .inl ⟨falls_of_computes hc, rfl⟩⟩
  simp only [irStep, hi, Option.bind_eq_bind, Option.bind_some] at h
  -- what is left are jumps, stores and what does nothing
  rcases hop : i.op <;> simp only [hop, Op.computes, not_true_eq_false] at hc <;>
    simp only [hop, reduceCtorEq, Option.bind_eq_some_iff, Option.some.injEq] at h
  case nop | label | func =>
      rw [← h]
      exact ⟨i, hi, .inl ⟨by simp [Insn.falls, hop], rfl⟩⟩
  case stl =>
      obtain ⟨_, -, _, -, rfl⟩ := h
      exact ⟨i, hi, .inl ⟨by simp [Insn.falls, hop], rfl⟩⟩
  case sb | sh | sw =>
      obtain ⟨_, -, _, -, _, -, rfl⟩ := h
      exact ⟨i, hi, .inl ⟨by simp [Insn.falls, hop], rfl⟩⟩
  case jmp =>
      obtain ⟨l, hl, q, hq, rfl⟩ := h
      exact ⟨i, hi, .inr ⟨l, by simp [Insn.target, hop, hl], hq⟩⟩
  case bz | bnz =>
      obtain ⟨l, hl, q, hq, t, -, rfl⟩ := h
      refine ⟨i, hi, ?_⟩
      dsimp only
      split
      · exact .inr ⟨l, by simp [Insn.target, hop, hl], hq⟩
      · exact .inl ⟨by simp [Insn.falls, hop], rfl⟩

theorem CallStep.edge (h : CallStep L calls code σ es σ') : Edge code σ.pc σ'.pc := by
  cases h with
  | insn h => exact irStep_edge h
  | arg hi hop => exact ⟨_, hi, .inl ⟨by simp [Insn.falls, hop], rfl⟩⟩
  | call hi hop _ _ =>
    exact ⟨_, hi, .inl ⟨(Insn.falls_of_calls _ hop).1, rfl⟩⟩

/-- The jumps go to labels of the piece or to those of `J`, and a return is in it only if `K`. -/
structure Contained (J : Nat → Prop) (K : Prop) (seg : List Insn) : Prop where
  targets : ∀ i ∈ seg, ∀ l, i.target = some l → l ∈ labels seg ∨ J l
  returns : ∀ i ∈ seg, i.Returns → K

theorem findLabel_append_left {pre : List Insn} (h : l ∈ labels pre) (post : List Insn) :
    ∃ q, findLabel l (pre ++ post) = some q ∧ q < pre.length := by
  induction pre with
  | nil => simp at h
  | cons i pre ih =>
    by_cases hl : isLabel l i
    · exact ⟨0, by rw [List.cons_append, findLabel, if_pos hl], by simp⟩
    · have hmem : l ∈ labels pre := by
        rw [labels_cons, List.mem_append] at h
        refine h.resolve_left fun hi => hl (labelled_eq_some.1 ?_)
        simpa using hi
      obtain ⟨q, hq, hlt⟩ := ih hmem
      refine ⟨q + 1, ?_, by simpa using hlt⟩
      rw [List.cons_append, findLabel, if_neg hl, hq]
      rfl

theorem findLabel_within {pre : List Insn} (hpre : l ∉ labels pre) (hseg : l ∈ labels seg)
    (post : List Insn) :
    ∃ q, findLabel l (pre ++ seg ++ post) = some q ∧ pre.length ≤ q ∧
      q < pre.length + seg.length := by
  obtain ⟨q, hq, hlt⟩ := findLabel_append_left hseg post
  refine ⟨q + pre.length, ?_, by omega, by omega⟩
  rw [List.append_assoc, findLabel_append hpre, hq]
  rfl

theorem Contained.leaves_end {pre post : List Insn} (hseg : Contained (fun _ => False) False seg)
    (hfresh : ∀ l ∈ labels seg, l ∉ labels pre) {n : Nat}
    (hrun : Path (CallStep L calls (pre ++ seg ++ post))
      (Inside (pre ++ seg ++ post) pre.length (pre.length + seg.length)) n σ es σ')
    (hout : ¬ Inside (pre ++ seg ++ post) pre.length (pre.length + seg.length) σ')
    (hlo : pre.length ≤ σ.pc) (hhi : σ.pc ≤ pre.length + seg.length) :
    σ'.pc = pre.length + seg.length := by
  have hget (p : Nat) (i : Insn) (hi : (pre ++ seg ++ post)[p]? = some i) (hlo : pre.length ≤ p)
      (hlt : p < pre.length + seg.length) : i ∈ seg := by
    rw [List.append_assoc, List.getElem?_append_right hlo,
      List.getElem?_append_left (by omega)] at hi
    exact List.mem_of_getElem? hi
  induction hrun with
  | @nil σ =>
    by_contra hne
    have hlt : σ.pc < pre.length + seg.length := by omega
    exact hout ⟨hlo, hlt, fun i hi hret => hseg.returns i (hget _ i hi hlo hlt) hret⟩
  | @next n σ σ1 σ' es es' hin hstep _ ih =>
    obtain ⟨i, hi, ⟨-, hnext⟩ | ⟨l, hl, hq⟩⟩ := hstep.edge
    · exact ih hout (by omega) (by have := hin.2.1; omega)
    · have hmem : l ∈ labels seg :=
        (hseg.targets i (hget _ i hi hin.1 hin.2.1) l hl).resolve_right id
      obtain ⟨q, hq', hge, hlt⟩ := findLabel_within (hfresh l hmem) hmem post
      rw [hq'] at hq
      have hpc : q = σ1.pc := Option.some.inj hq
      exact ih hout (by omega) (by omega)

theorem callStep_iff (hstep : irStep L code σ = some σ') :
    ∀ es u, CallStep L calls code σ es u ↔ es = [] ∧ u = σ' := by
  intro es u
  constructor
  · rintro (h | ⟨hi, hop⟩ | ⟨hi, hop, -, -⟩)
    · rw [hstep] at h
      exact ⟨rfl, (Option.some.inj h).symm⟩
    · simp [irStep, hi, hop] at hstep
    · exfalso
      rename_i j _ _ _
      have hnone : irStep L code σ = none := by
        cases hop' : j.op <;> simp [hop', Op.calls] at hop <;> simp [irStep, hi, hop']
      rw [hnone] at hstep
      cases hstep
  · rintro ⟨rfl, rfl⟩
    exact .insn hstep

section Rules

variable {hi' : Nat}

theorem behaves_step (hin : Inside code lo hi' (vm p d)) {q : Nat} {d' : Cells}
    (hstep : irStep L code (vm p d) = some (vm q d'))
    (h : Behaves (CallStep L calls code) (Inside code lo hi') k (vm q d') R P) :
    Behaves (CallStep L calls code) (Inside code lo hi') (k + 1) (vm p d) R
      fun es => es = [] ∨ P es :=
  .silent hin (callStep_iff hstep) h

theorem behaves_label (hi : code[p]? = some { op := .label, label := some l }) (hlo : lo ≤ p)
    (hlt : p < hi')
    (h : Behaves (CallStep L calls code) (Inside code lo hi') k (vm (p + 1) d) R P) :
    Behaves (CallStep L calls code) (Inside code lo hi') (k + 1) (vm p d) R
      fun es => es = [] ∨ P es :=
  behaves_step (inside_of_op hi (by simp [Insn.Returns]) hlo hlt d) (by simp [irStep, vm, hi]) h

theorem behaves_lic {v : Int} (hi : code[p]? = some { op := .lic, dst := some t, imm := v })
    (hlo : lo ≤ p) (hlt : p < hi')
    (h : Behaves (CallStep L calls code) (Inside code lo hi') k
      (vm (p + 1) (Function.update d.1 t (BitVec.ofInt 32 v), d.2)) R P) :
    Behaves (CallStep L calls code) (Inside code lo hi') (k + 1) (vm p d) R
      fun es => es = [] ∨ P es :=
  behaves_step (inside_of_op hi (by simp [Insn.Returns]) hlo hlt d)
    (by simp [irStep, vm, hi, Insn.value]) h

theorem behaves_jmp (hi : code[p]? = some { op := .jmp, label := some l }) (hlo : lo ≤ p)
    (hlt : p < hi') (hq : findLabel l code = some q)
    (h : Behaves (CallStep L calls code) (Inside code lo hi') k (vm q d) R P) :
    Behaves (CallStep L calls code) (Inside code lo hi') (k + 1) (vm p d) R
      fun es => es = [] ∨ P es :=
  behaves_step (inside_of_op hi (by simp [Insn.Returns]) hlo hlt d) (by simp [irStep, vm, hi, hq]) h

theorem behaves_jmp_iff (hi : code[p]? = some { op := .jmp, label := some l }) (hlo : lo ≤ p)
    (hlt : p < hi') :
    Behaves (CallStep L calls code) (Inside code lo hi') 0 (vm p d)
      (fun es u => es = [] ∧ ∃ q, findLabel l code = some q ∧ u = vm q d) fun es => es = [] := by
  rcases hq : findLabel l code with _ | q
  · refine .stuck (inside_of_op hi (by simp [Insn.Returns]) hlo hlt d) ?_ (by simp)
    rintro es u (h | ⟨hi', hop⟩ | ⟨hi', hop, -, -⟩)
    · simp [irStep, vm, hi, hq] at h
    · rw [show (vm p d).pc = p from rfl, hi] at hi'
      cases hi'
      cases hop
    · rw [show (vm p d).pc = p from rfl, hi] at hi'
      cases hi'
      cases hop
  · refine ((behaves_jmp hi hlo hlt hq (.here _)).weaken (Nat.zero_le _)).congr
      (fun es u => by simp) (fun es hes => ?_) fun es hes => ?_
    · exact hes.resolve_right id
    · exact .inl (.inl hes)

theorem behaves_bnz (hi : code[p]? = some { op := .bnz, a := some t, label := some l })
    (hlo : lo ≤ p) (hlt : p < hi') (hq : findLabel l code = some q)
    (h : Behaves (CallStep L calls code) (Inside code lo hi') k
      (vm (if d.1 t = 0 then p + 1 else q) d) R P) :
    Behaves (CallStep L calls code) (Inside code lo hi') (k + 1) (vm p d) R
      fun es => es = [] ∨ P es := by
  refine behaves_step (inside_of_op hi (by simp [Insn.Returns]) hlo hlt d) ?_ h
  by_cases h0 : d.1 t = 0 <;> simp [irStep, vm, hi, hq, h0]

end Rules

end MechanicalResearcher.PortableCompiler
