import MechanicalResearcher.Lib.Structured
import MechanicalResearcher.PortableCompiler.TincLabels

/-!
# Conditions of TinC

The code of a condition does what the rules of `!`, `&&` and `||` say of its operands.  An operand
is the code that `lower_expr` emitted for it, and what that code does is what the machine does
between its two ends.
-/

namespace MechanicalResearcher.PortableCompiler.Tinc

open Lib.Behaviour Lib.Structured

/-! ## Positions -/

abbrev Lowering.len (s : Lowering) : Nat := s.fn.code.length

theorem push_code (s : Lowering) (seg : List Insn) (n m : Nat) :
    (s.push seg n m).fn.code = s.fn.code ++ seg := rfl

theorem push_len (s : Lowering) (seg : List Insn) (n m : Nat) :
    (s.push seg n m).len = s.len + seg.length := List.length_append

/-- The labels in the code are among those that were asked for. -/
def Fresh (s : Lowering) : Prop := ∀ l ∈ labels s.fn.code, l < s.fn.nlabels

section Positions

variable {k l q n m : Nat} {J : Nat → Prop} {K : Prop} {s s' : Lowering} {i : Insn}
  {seg code : List Insn}

theorem Emits.pre (h : Emits k J K s s' seg) : s.fn.code <+: s'.fn.code := ⟨seg, h.code.symm⟩

theorem Emits.len (h : Emits k J K s s' seg) : s'.len = s.len + seg.length := by
  rw [Lowering.len, h.code, List.length_append]

theorem Emits.fresh (h : Emits k J K s s' seg) (hs : Fresh s) : Fresh s' := by
  intro l hl
  rw [h.code, labels_append, List.mem_append] at hl
  rcases hl with hl | hl
  · exact Nat.lt_of_lt_of_le (hs l hl) h.nlabels
  · exact (h.placed l hl).2

theorem Emits.unplaced (h : Emits k J K s s' seg) (hlk : l < k) (hl : l ∉ labels s.fn.code) :
    l ∉ labels s'.fn.code := by
  rw [h.code, labels_append, List.mem_append]
  rintro (hmem | hmem)
  · exact hl hmem
  · have := (h.placed l hmem).1
    omega

theorem Fresh.unplaced (hs : Fresh s) (hl : s.fn.nlabels ≤ l) : l ∉ labels s.fn.code := by
  intro hmem
  have := hs l hmem
  omega

theorem Fresh.push_nil (hs : Fresh s) (n m : Nat) : Fresh (s.push [] n m) := by
  intro l hl
  rw [push_code, List.append_nil] at hl
  exact Nat.lt_of_lt_of_le (hs l hl) (Nat.le_add_right _ _)

theorem getElem?_of_prefix {pre : List Insn} {p : Nat} (h : pre <+: code) (hp : pre[p]? = some i) :
    code[p]? = some i := by
  obtain ⟨post, rfl⟩ := h
  exact List.getElem?_append_left (List.getElem?_eq_some_iff.1 hp).1 ▸ hp

theorem insn_in (h : (s.push seg n m).fn.code <+: code) (hk : seg[k]? = some i) :
    code[s.len + k]? = some i := by
  refine getElem?_of_prefix h ?_
  change (s.fn.code ++ seg)[s.fn.code.length + k]? = some i
  rw [List.getElem?_append_right (Nat.le_add_right _ _), Nat.add_sub_cancel_left, hk]

theorem findLabel_of_prefix {pre : List Insn} (hpre : pre <+: code) (h : findLabel l pre = some q) :
    findLabel l code = some q := by
  obtain ⟨post, rfl⟩ := hpre
  induction pre generalizing q with
  | nil => cases h
  | cons i pre ih =>
    rw [List.cons_append, findLabel]
    rw [findLabel] at h
    split
    · rwa [if_pos ‹_›] at h
    · rw [if_neg ‹_›] at h
      obtain ⟨j, hj, rfl⟩ := Option.map_eq_some_iff.1 h
      rw [ih hj, Option.map_some]

theorem label_in (h : (s.push seg n m).fn.code <+: code) (hl : l ∉ labels s.fn.code)
    (hk : findLabel l seg = some k) : findLabel l code = some (s.len + k) := by
  refine findLabel_of_prefix h ?_
  change findLabel l (s.fn.code ++ seg) = some (s.fn.code.length + k)
  rw [findLabel_append hl, hk, Option.map_some, Nat.add_comm]

theorem insn_at (h : (s.push [i] n m).fn.code <+: code) : code[s.len]? = some i :=
  insn_in (k := 0) h rfl

theorem label_at (h : (s.push [{ op := .label, label := some l }] n m).fn.code <+: code)
    (hl : l ∉ labels s.fn.code) : findLabel l code = some s.len :=
  label_in (k := 0) h hl (by rw [findLabel, if_pos ⟨rfl, rfl⟩])

theorem Emits.outside (h : Emits k J K s s' seg) (hlk : l < k) (hcode : s'.fn.code <+: code)
    (hq : findLabel l code = some q) : ¬ (s.len ≤ q ∧ q < s'.len) := by
  rintro ⟨hlo, hhi⟩
  obtain ⟨i, hi, hlab⟩ := isLabel_of_findLabel hq
  obtain ⟨post, rfl⟩ := hcode
  rw [List.getElem?_append_left hhi, h.code, List.getElem?_append_right hlo] at hi
  have hmem : l ∈ labels seg :=
    List.mem_filterMap.2 ⟨i, List.mem_of_getElem? hi, labelled_eq_some.2 hlab⟩
  have := (h.placed l hmem).1
  omega

end Positions

/-! ## Operands -/

/-- An operand: where its code starts, the code, and the temp that has its value. -/
structure Leaf where
  expr : Expr
  start : Nat
  code : List Insn
  temp : Nat

namespace Leaf

def finish (x : Leaf) : Nat := x.start + x.code.length

/-- `lower_expr` emitted the code of the operand, and it is in that of `s'`. -/
def LoweredIn (x : Leaf) (s' : Lowering) : Prop :=
  ∃ s1 v s2, lowerExpr x.expr s1 = .ok (v, s2) ∧ s2.fn.code = s1.fn.code ++ x.code ∧
    x.start = s1.len ∧ x.temp = v.temp ∧ s2.fn.code <+: s'.fn.code

variable {E : Type} (L : Layout) (calls : Calls E) (code : List Insn)

/-- The machine runs the code of the operand from its start to its end. -/
def Runs (x : Leaf) (d : Cells) (es : List E) (d' : Cells) : Prop :=
  Leaves (CallStep L calls code) (Inside code x.start x.finish) (vm x.start d) es (vm x.finish d')

/-- The events of a run that is still in the code of the operand. -/
def Begins (x : Leaf) (d : Cells) (es : List E) : Prop :=
  Traces (CallStep L calls code) (Inside code x.start x.finish) (vm x.start d) es

def truth (x : Leaf) (d : Cells) : Bool := d.1 x.temp ≠ 0

variable {L calls code} {x : Leaf} {d d' : Cells} {es : List E} {s s' : Lowering}

theorem begins_nil (x : Leaf) (d : Cells) : x.Begins L calls code d [] := .nil _

theorem Runs.begins (h : x.Runs L calls code d es d') : x.Begins L calls code d es := h.traces

theorem LoweredIn.mono {s1 s2 : Lowering} (h : x.LoweredIn s1) (hpre : s1.fn.code <+: s2.fn.code) :
    x.LoweredIn s2 := by
  obtain ⟨s, v, s', hlower, hcode, hstart, htemp, hin⟩ := h
  exact ⟨s, v, s', hlower, hcode, hstart, htemp, hin.trans hpre⟩

end Leaf

/-- The operand that was lowered from `s` to `s1`. -/
def leafOf (e : Expr) (s s1 : Lowering) (v : Val) : Leaf :=
  ⟨e, s.len, s1.fn.code.drop s.len, v.temp⟩

section Operands

variable {E : Type} {L : Layout} {calls : Calls E} {code : List Insn} {lo hi : Nat} {d : Cells}
  {e : Expr} {v : Val} {s s1 : Lowering}

theorem lowerExpr_emits (h : lowerExpr e s = .ok (v, s1)) :
    Emits s.fn.nlabels Nowhere False s s1 (leafOf e s s1 v).code := by
  obtain ⟨seg, hseg⟩ := e.confined.expr s v s1 h
  have hcode : (leafOf e s s1 v).code = seg := by
    rw [leafOf, hseg.code, List.drop_left]
  rw [hcode]
  exact hseg

theorem leafOf_finish (h : lowerExpr e s = .ok (v, s1)) : (leafOf e s s1 v).finish = s1.len :=
  (lowerExpr_emits h).len.symm

theorem leafOf_loweredIn (h : lowerExpr e s = .ok (v, s1)) : (leafOf e s s1 v).LoweredIn s1 :=
  ⟨s, v, s1, h, (lowerExpr_emits h).code, rfl, rfl, List.prefix_rfl⟩

theorem leaf_behaves (h : lowerExpr e s = .ok (v, s1)) (hs : Fresh s) (hcode : s1.fn.code <+: code)
    (hlo : lo ≤ s.len) (hhi : s1.len ≤ hi) :
    Behaves (CallStep L calls code) (Inside code lo hi) 0 (vm s.len d)
      (fun es u => ∃ d', (leafOf e s s1 v).Runs L calls code d es d' ∧ u = vm s1.len d')
      ((leafOf e s s1 v).Begins L calls code d) := by
  have hemits := lowerExpr_emits h
  have hfinish := leafOf_finish h
  set x := leafOf e s s1 v with hx
  have hstart : x.start = s.len := rfl
  refine (Behaves.region (A := Inside code x.start x.finish)
    (fun σ hσ => hσ.mono (hstart ▸ hlo) (hfinish ▸ hhi)) (vm s.len d)).congr ?_ (fun es hes => hes)
    fun es hes => .inl hes
  intro es u
  constructor
  · rintro ⟨n, hrun, hout⟩
    -- the operand only jumps inside itself, so its end is where it is left
    obtain ⟨post, rfl⟩ := hcode
    have hlen : x.finish = s.fn.code.length + x.code.length := rfl
    have hpc : u.pc = x.finish := by
      rw [hlen]
      rw [hlen, hemits.code] at hrun hout
      refine hemits.contained.leaves_end (fun l hl => ?_) hrun hout (Nat.le_refl _) ?_
      · exact hs.unplaced (hemits.placed l hl).1
      · exact Nat.le_add_right _ _
    have hend : vm x.finish (u.temp, u.mem) = u := by
      rw [← hpc]
      rfl
    refine ⟨(u.temp, u.mem), ?_, by rw [← hfinish, hend]⟩
    rw [Leaf.Runs, hend]
    exact ⟨n, hrun, hout⟩
  · rintro ⟨d', hruns, rfl⟩
    rw [← hfinish]
    exact hruns

end Operands

/-! ## Conditions -/

section Conditions

variable {E : Type} (L : Layout) (calls : Calls E) (code : List Insn) (lo hi : Nat)

/-- From `p` the machine evaluates the condition and goes on at `qt` if it holds, else at `qf`. -/
def CondAt (p : Nat) (c : Guard Leaf) (qt qf : Nat) : Prop :=
  ∀ d, Behaves (CallStep L calls code) (Inside code lo hi) 0 (vm p d)
    (fun es u => ∃ tr v d', c.Eval (Leaf.Runs L calls code) Leaf.truth d tr v d' ∧
      es = Guard.events tr ∧ u = vm (if v then qt else qf) d')
    (c.Begun (Leaf.Runs L calls code) (Leaf.Begins L calls code) Leaf.truth d)

variable {L calls code lo hi} {p qm qt qf k l : Nat} {a b c : Guard Leaf}

theorem CondAt.branch {Rt Rf : Cells → List E → Vm → Prop} {Pt Pf : Cells → List E → Prop}
    (hc : CondAt L calls code lo hi p c qt qf)
    (ht : ∀ d, Behaves (CallStep L calls code) (Inside code lo hi) k (vm qt d) (Rt d) (Pt d))
    (hf : ∀ d, Behaves (CallStep L calls code) (Inside code lo hi) k (vm qf d) (Rf d) (Pf d))
    (d : Cells) :
    Behaves (CallStep L calls code) (Inside code lo hi) k (vm p d)
      (fun es u =>
        (∃ tr d' es', c.Eval (Leaf.Runs L calls code) Leaf.truth d tr true d' ∧ Rt d' es' u ∧
          es = Guard.events tr ++ es') ∨
        ∃ tr d' es', c.Eval (Leaf.Runs L calls code) Leaf.truth d tr false d' ∧ Rf d' es' u ∧
          es = Guard.events tr ++ es')
      fun es => c.Begun (Leaf.Runs L calls code) (Leaf.Begins L calls code) Leaf.truth d es ∨
        (∃ tr d' es', c.Eval (Leaf.Runs L calls code) Leaf.truth d tr true d' ∧ Pt d' es' ∧
          es = Guard.events tr ++ es') ∨
        ∃ tr d' es', c.Eval (Leaf.Runs L calls code) Leaf.truth d tr false d' ∧ Pf d' es' ∧
          es = Guard.events tr ++ es' := by
  have hfirst : Behaves (CallStep L calls code) (Inside code lo hi) 0 (vm p d)
      (fun es u => ∃ v d', (∃ tr, c.Eval (Leaf.Runs L calls code) Leaf.truth d tr v d' ∧
        es = Guard.events tr) ∧ u = vm (if v then qt else qf) d')
      (c.Begun (Leaf.Runs L calls code) (Leaf.Begins L calls code) Leaf.truth d) := by
    refine (hc d).congr (fun es u => ?_) (fun es hes => hes) fun es hes => .inl hes
    constructor
    · rintro ⟨tr, v, d', heval, hes, hu⟩
      exact ⟨v, d', ⟨tr, heval, hes⟩, hu⟩
    · rintro ⟨v, d', ⟨tr, heval, hes⟩, hu⟩
      exact ⟨tr, v, d', heval, hes, hu⟩
  refine (hfirst.branch ht hf).congr (fun es u => ?_) (fun es hes => ?_) fun es hes => ?_
  · constructor
    · rintro (⟨d', _, es', ⟨tr, heval, rfl⟩, hu⟩ | ⟨d', _, es', ⟨tr, heval, rfl⟩, hu⟩)
      · exact .inl ⟨tr, d', es', heval, hu⟩
      · exact .inr ⟨tr, d', es', heval, hu⟩
    · rintro (⟨tr, d', es', heval, hu⟩ | ⟨tr, d', es', heval, hu⟩)
      · exact .inl ⟨d', _, es', ⟨tr, heval, rfl⟩, hu⟩
      · exact .inr ⟨d', _, es', ⟨tr, heval, rfl⟩, hu⟩
  · rcases hes with hes | ⟨d', _, es', ⟨tr, heval, rfl⟩, hu⟩ | ⟨d', _, es', ⟨tr, heval, rfl⟩, hu⟩
    · exact .inl hes
    · exact .inr (.inl ⟨tr, d', es', heval, hu⟩)
    · exact .inr (.inr ⟨tr, d', es', heval, hu⟩)
  · rcases hes with hes | ⟨tr, d', es', heval, hu⟩ | ⟨tr, d', es', heval, hu⟩
    · exact .inl (.inl hes)
    · exact .inl (.inr (.inl ⟨d', _, es', ⟨tr, heval, rfl⟩, hu⟩))
    · exact .inl (.inr (.inr ⟨d', _, es', ⟨tr, heval, rfl⟩, hu⟩))

theorem CondAt.not (ha : CondAt L calls code lo hi p a qf qt) :
    CondAt L calls code lo hi p (.not a) qt qf := by
  intro d
  refine (ha d).congr (fun es u => ?_) (fun es hes => .not hes) fun es hes => ?_
  · constructor
    · rintro ⟨tr, v, d', heval, rfl, rfl⟩
      refine ⟨tr, !v, d', .not heval, rfl, ?_⟩
      cases v <;> rfl
    · rintro ⟨tr, v, d', heval, rfl, rfl⟩
      cases heval with
      | @not _ _ _ _ w ha =>
        refine ⟨tr, w, d', ha, rfl, ?_⟩
        cases w <;> rfl
  · cases hes with
    | not ha => exact .inl ha

theorem CondAt.and (ha : CondAt L calls code lo hi p a qm qf)
    (hlab : code[qm]? = some { op := .label, label := some l }) (hlo : lo ≤ qm) (hhi : qm < hi)
    (hb : CondAt L calls code lo hi (qm + 1) b qt qf) :
    CondAt L calls code lo hi p (.and a b) qt qf := by
  intro d
  refine (ha.branch (fun d => (behaves_label hlab hlo hhi (hb d)).weaken (Nat.zero_le _))
    (fun d => .here (vm qf d)) d).congr (fun es u => ?_) (fun es hes => ?_) fun es hes => ?_
  · constructor
    · rintro (⟨tr, d', _, heval, ⟨tr', v, d'', heval', rfl, rfl⟩, rfl⟩ |
        ⟨tr, d', _, heval, ⟨rfl, rfl⟩, rfl⟩)
      · exact ⟨tr ++ tr', v, d'', .andTrue heval heval', by rw [Guard.events_append], rfl⟩
      · exact ⟨tr, false, d', .andFalse heval, by rw [List.append_nil], rfl⟩
    · rintro ⟨tr, v, d', heval, rfl, rfl⟩
      cases heval with
      | andFalse heval => exact .inr ⟨tr, d', [], heval, ⟨rfl, rfl⟩, by rw [List.append_nil]⟩
      | @andTrue _ _ _ d1 _ tr tr' _ heval heval' =>
        exact .inl ⟨tr, d1, _, heval, ⟨tr', v, d', heval', rfl, rfl⟩, Guard.events_append _ _⟩
  · rcases hes with hes | ⟨tr, d', es', heval, rfl | hes', rfl⟩ | ⟨_, _, _, _, hes', _⟩
    · exact .and hes
    · exact .andTrue heval (.nil (fun x d => x.begins_nil d) b d')
    · exact .andTrue heval hes'
    · exact hes'.elim
  · cases hes with
    | and hes => exact .inl (.inl hes)
    | @andTrue _ _ _ d' tr es' heval hes' =>
      exact .inl (.inr (.inl ⟨tr, d', es', heval, .inr hes', rfl⟩))

theorem CondAt.or (ha : CondAt L calls code lo hi p a qt qm)
    (hlab : code[qm]? = some { op := .label, label := some l }) (hlo : lo ≤ qm) (hhi : qm < hi)
    (hb : CondAt L calls code lo hi (qm + 1) b qt qf) :
    CondAt L calls code lo hi p (.or a b) qt qf := by
  intro d
  refine (ha.branch (fun d => .here (vm qt d)) (fun d => (behaves_label hlab hlo hhi (hb d)).weaken
    (Nat.zero_le _)) d).congr (fun es u => ?_) (fun es hes => ?_) fun es hes => ?_
  · constructor
    · rintro (⟨tr, d', _, heval, ⟨rfl, rfl⟩, rfl⟩ |
        ⟨tr, d', _, heval, ⟨tr', v, d'', heval', rfl, rfl⟩, rfl⟩)
      · exact ⟨tr, true, d', .orTrue heval, by rw [List.append_nil], rfl⟩
      · exact ⟨tr ++ tr', v, d'', .orFalse heval heval', by rw [Guard.events_append], rfl⟩
    · rintro ⟨tr, v, d', heval, rfl, rfl⟩
      cases heval with
      | orTrue heval => exact .inl ⟨tr, d', [], heval, ⟨rfl, rfl⟩, by rw [List.append_nil]⟩
      | @orFalse _ _ _ d1 _ tr tr' _ heval heval' =>
        exact .inr ⟨tr, d1, _, heval, ⟨tr', v, d', heval', rfl, rfl⟩, Guard.events_append _ _⟩
  · rcases hes with hes | ⟨_, _, _, _, hes', _⟩ | ⟨tr, d', es', heval, rfl | hes', rfl⟩
    · exact .or hes
    · exact hes'.elim
    · exact .orFalse heval (.nil (fun x d => x.begins_nil d) b d')
    · exact .orFalse heval hes'
  · cases hes with
    | or hes => exact .inl (.inl hes)
    | @orFalse _ _ _ d' tr es' heval hes' =>
      exact .inl (.inr (.inr ⟨tr, d', es', heval, .inr hes', rfl⟩))

end Conditions

/-! ## Lowered conditions -/

/-- The condition that `lower_cond` takes an expression for. -/
def Expr.cond : Expr → Guard Expr
  | .unop line op a =>
    match op with
    | .bang => .not (Expr.cond a)
    | op => .leaf (.unop line op a)
  | .binop line op a b =>
    match op with
    | .andand => .and (Expr.cond a) (Expr.cond b)
    | .oror => .or (Expr.cond a) (Expr.cond b)
    | op => .leaf (.binop line op a b)
  | e => .leaf e

section

attribute [local simp] Expr.cond

theorem Expr.cond_eq_leaf {e x : Expr} (h : e.cond = .leaf x) :
    x = e ∧ ∀ ltrue lfalse, lowerCond e ltrue lfalse = lowerTest (lowerExpr e) ltrue lfalse := by
  cases e with
  | unop line op a =>
    cases op <;> simp only [Expr.cond, reduceCtorEq, Guard.leaf.injEq] at h <;>
      exact ⟨h.symm, fun _ _ => rfl⟩
  | binop line op a b =>
    cases op <;> simp only [Expr.cond, reduceCtorEq, Guard.leaf.injEq] at h <;>
      exact ⟨h.symm, fun _ _ => rfl⟩
  | num | charlit | str | name | index | assign | call =>
    simp only [Expr.cond, Guard.leaf.injEq] at h
    exact ⟨h.symm, fun _ _ => rfl⟩

theorem Expr.cond_eq_not {e : Expr} {c : Guard Expr} (h : e.cond = .not c) :
    ∃ line a, e = .unop line .bang a ∧ a.cond = c := by
  cases e with
  | unop line op a =>
    cases op <;> simp only [Expr.cond, reduceCtorEq, Guard.not.injEq] at h
    exact ⟨line, a, rfl, h⟩
  | binop line op a b => cases op <;> simp only [Expr.cond, reduceCtorEq] at h
  | num | charlit | str | name | index | assign | call => simp only [Expr.cond, reduceCtorEq] at h

theorem Expr.cond_eq_and {e : Expr} {c1 c2 : Guard Expr} (h : e.cond = .and c1 c2) :
    ∃ line a b, e = .binop line .andand a b ∧ a.cond = c1 ∧ b.cond = c2 := by
  cases e with
  | unop line op a => cases op <;> simp only [Expr.cond, reduceCtorEq] at h
  | binop line op a b =>
    cases op <;> simp only [Expr.cond, reduceCtorEq, Guard.and.injEq] at h
    exact ⟨line, a, b, rfl, h⟩
  | num | charlit | str | name | index | assign | call => simp only [Expr.cond, reduceCtorEq] at h

theorem Expr.cond_eq_or {e : Expr} {c1 c2 : Guard Expr} (h : e.cond = .or c1 c2) :
    ∃ line a b, e = .binop line .oror a b ∧ a.cond = c1 ∧ b.cond = c2 := by
  cases e with
  | unop line op a => cases op <;> simp only [Expr.cond, reduceCtorEq] at h
  | binop line op a b =>
    cases op <;> simp only [Expr.cond, reduceCtorEq, Guard.or.injEq] at h
    exact ⟨line, a, b, rfl, h⟩
  | num | charlit | str | name | index | assign | call => simp only [Expr.cond, reduceCtorEq] at h

end

/-- The condition over the operands that the code from `s` to `s'` evaluates. -/
structure CondLowered (e : Expr) (ltrue lfalse : Nat) (s s' : Lowering) (c : Guard Leaf) :
    Prop where
  expr : c.map Leaf.expr = e.cond
  lowered : ∀ x ∈ c.leaves, x.LoweredIn s'
  runs : ∀ {E : Type} (L : Layout) (calls : Calls E) (code : List Insn) (lo hi qt qf : Nat),
    s'.fn.code <+: code → lo ≤ s.len → s'.len ≤ hi → findLabel ltrue code = some qt →
    findLabel lfalse code = some qf → CondAt L calls code lo hi s.len c qt qf

section Lowered

variable {s s' : Lowering} {e : Expr} {ltrue lfalse : Nat}

theorem lowerCond_emits (h : lowerCond e ltrue lfalse s = .ok ((), s')) :
    ∃ seg, Emits s.fn.nlabels (Either ltrue lfalse) False s s' seg :=
  e.confined.cond ltrue lfalse s () s' h

theorem lowerTest_lowered (h : lowerTest (lowerExpr e) ltrue lfalse s = .ok ((), s'))
    (hs : Fresh s) (he : e.cond = .leaf e) :
    ∃ c, CondLowered e ltrue lfalse s s' c := by
  simp only [lowerTest, emitBnz, emitJmp, bind_eq_ok, emit_eq_ok] at h
  obtain ⟨v, s1, h1, _, _, rfl, rfl⟩ := h
  rw [push_push]
  refine ⟨.leaf (leafOf e s s1 v), he.symm, ?_, ?_⟩
  · intro x hx
    rw [List.mem_singleton.1 hx]
    exact (leafOf_loweredIn h1).mono (List.prefix_append _ _)
  · intro E L calls code lo hi qt qf hcode hlo hhi hqt hqf d
    have hlen : (s1.push ([{ op := .bnz, a := some v.temp, label := some ltrue }] ++
      [{ op := .jmp, label := some lfalse }]) (0 + 0) (0 + 0)).len = s1.len + 2 :=
      List.length_append
    rw [hlen] at hhi
    have hle : s.len ≤ s1.len := by
      rw [(lowerExpr_emits h1).len]
      exact Nat.le_add_right _ _
    have hbnz : code[s1.len]? = some { op := .bnz, a := some v.temp, label := some ltrue } :=
      insn_in (k := 0) hcode rfl
    have hjmp : code[s1.len + 1]? = some { op := .jmp, label := some lfalse } :=
      insn_in (k := 1) hcode rfl
    have hpre : s1.fn.code <+: code := (List.prefix_append _ _).trans hcode
    have hlo' : lo ≤ s1.len := by omega
    have hhi' : s1.len < hi := by omega
    -- the jump to `lfalse` is behind the branch
    have hnext (d' : Cells) : Behaves (CallStep L calls code) (Inside code lo hi) 0 (vm s1.len d')
        (fun es u => es = [] ∧ u = vm (if (leafOf e s s1 v).truth d' then qt else qf) d')
        fun es => es = [] := by
      have htruth : (leafOf e s s1 v).truth d' = decide (d'.1 v.temp ≠ 0) := rfl
      by_cases h0 : d'.1 v.temp = 0
      · have hstop : Behaves (CallStep L calls code) (Inside code lo hi) 0 (vm qf d') _ _ :=
          .here (vm qf d')
        have hfalse := behaves_jmp hjmp (by omega) (by omega) hqf hstop
        have htrue := behaves_bnz hbnz hlo' hhi' hqt (by rw [if_pos h0]; exact hfalse)
        rw [htruth, if_neg (by rw [decide_eq_true_eq]; exact not_not.2 h0)]
        exact htrue.quiet (by simp)
      · have hstop : Behaves (CallStep L calls code) (Inside code lo hi) 0 (vm qt d') _ _ :=
          .here (vm qt d')
        have htrue := behaves_bnz hbnz hlo' hhi' hqt (by rw [if_neg h0]; exact hstop)
        rw [htruth, if_pos (decide_eq_true h0)]
        exact htrue.quiet (by simp)
    have hall := (leaf_behaves (d := d) h1 hs hpre hlo (show s1.len ≤ hi by omega)).follow hnext
    refine hall.congr (fun es u => ?_) (fun es hes => ?_) fun es hes => ?_
    · constructor
      · rintro ⟨d', es', _, hruns, ⟨rfl, rfl⟩, rfl⟩
        refine ⟨_, _, d', .leaf hruns, ?_, rfl⟩
        rw [Guard.events, List.flatMap_singleton, List.append_nil]
      · rintro ⟨tr, w, d', heval, rfl, rfl⟩
        cases heval with
        | leaf hruns =>
          refine ⟨d', _, [], hruns, ⟨rfl, rfl⟩, ?_⟩
          rw [Guard.events, List.flatMap_singleton, List.append_nil]
    · rcases hes with hes | ⟨d', es', _, hruns, rfl, rfl⟩
      · exact .leaf hes
      · rw [List.append_nil]
        exact .leaf hruns.begins
    · cases hes with
      | leaf hes => exact .inl (.inl hes)

theorem condMid_eq_ok {x : Nat → LowerM Unit} {y : LowerM Unit}
    (h : (do let lmid ← newLabel; x lmid; emitLabel lmid; y) s = .ok ((), s')) :
    ∃ s1, x s.fn.nlabels (s.push [] 0 1) = .ok ((), s1) ∧
      y (s1.push [{ op := .label, label := some s.fn.nlabels }] 0 0) = .ok ((), s') := by
  simp only [emitLabel, bind_eq_ok, newLabel_eq_ok, emit_eq_ok] at h
  obtain ⟨_, _, ⟨rfl, rfl⟩, _, s1, hx, _, _, rfl, hy⟩ := h
  exact ⟨s1, hx, hy⟩

/-- A label of its own between two parts of a piece of code. -/
structure Mid (s s1 s' : Lowering) : Prop where
  fresh : Fresh (s.push [] 0 1)
  fresh' : Fresh (s1.push [{ op := .label, label := some s.fn.nlabels }] 0 0)
  nlabels : s.fn.nlabels < s1.fn.nlabels
  pre : s1.fn.code <+: s'.fn.code
  le : s.len ≤ s1.len
  lt : s1.len < s'.len
  label : ∀ code, s'.fn.code <+: code → findLabel s.fn.nlabels code = some s1.len
  insn : ∀ code, s'.fn.code <+: code →
    code[s1.len]? = some { op := .label, label := some s.fn.nlabels }

theorem mid_of_emits {s1 : Lowering} {J J' : Nat → Prop} {K K' : Prop} {seg seg' : List Insn}
    (hs : Fresh s) (h : Emits (s.fn.nlabels + 1) J K (s.push [] 0 1) s1 seg)
    (h' : Emits s1.fn.nlabels J' K' (s1.push [{ op := .label, label := some s.fn.nlabels }] 0 0) s'
      seg') : Mid s s1 s' := by
  have hfresh : Fresh (s.push [] 0 1) := hs.push_nil 0 1
  have hle : s.fn.nlabels + 1 ≤ s1.fn.nlabels := h.nlabels
  have hunplaced : s.fn.nlabels ∉ labels s1.fn.code := by
    refine h.unplaced (Nat.lt_succ_self _) ?_
    rw [push_code, List.append_nil]
    exact hs.unplaced (Nat.le_refl _)
  have hlabel : Emits s.fn.nlabels Nowhere False s1 _ _ := .label (Nat.le_refl _) hle
  have hlen := h.len
  have hlen' := h'.len
  rw [push_len] at hlen hlen'
  simp only [List.length_nil, List.length_singleton, Nat.add_zero] at hlen hlen'
  refine ⟨hfresh, hlabel.fresh (h.fresh hfresh), hle, hlabel.pre.trans h'.pre, by omega, by omega,
    fun code hcode => ?_, fun code hcode => ?_⟩
  · exact label_at (h'.pre.trans hcode) hunplaced
  · exact insn_at (h'.pre.trans hcode)

theorem CondLowered.and {a b : Expr} {c1 c2 : Guard Leaf} {s1 : Lowering} (line : Nat)
    (ha : CondLowered a s.fn.nlabels lfalse (s.push [] 0 1) s1 c1)
    (hb : CondLowered b ltrue lfalse
      (s1.push [{ op := .label, label := some s.fn.nlabels }] 0 0) s' c2) (hmid : Mid s s1 s') :
    CondLowered (.binop line .andand a b) ltrue lfalse s s' (.and c1 c2) where
  expr := congrArg₂ Guard.and ha.expr hb.expr
  lowered x hx := (List.mem_append.1 hx).elim (fun hx => (ha.lowered x hx).mono hmid.pre)
    (hb.lowered x)
  runs L calls code lo hi qt qf hcode hlo hhi hqt hqf := by
    have hlt := hmid.lt
    have hle := hmid.le
    have hfirst := ha.runs L calls code lo hi s1.len qf (hmid.pre.trans hcode)
      (by rw [push_len]; exact hlo) (by omega) (hmid.label code hcode) hqf
    have hnext := hb.runs L calls code lo hi qt qf hcode (by rw [push_len]; omega) hhi hqt hqf
    rw [push_len] at hfirst hnext
    exact hfirst.and (hmid.insn code hcode) (by omega) (by omega) hnext

theorem CondLowered.or {a b : Expr} {c1 c2 : Guard Leaf} {s1 : Lowering} (line : Nat)
    (ha : CondLowered a ltrue s.fn.nlabels (s.push [] 0 1) s1 c1)
    (hb : CondLowered b ltrue lfalse
      (s1.push [{ op := .label, label := some s.fn.nlabels }] 0 0) s' c2) (hmid : Mid s s1 s') :
    CondLowered (.binop line .oror a b) ltrue lfalse s s' (.or c1 c2) where
  expr := congrArg₂ Guard.or ha.expr hb.expr
  lowered x hx := (List.mem_append.1 hx).elim (fun hx => (ha.lowered x hx).mono hmid.pre)
    (hb.lowered x)
  runs L calls code lo hi qt qf hcode hlo hhi hqt hqf := by
    have hlt := hmid.lt
    have hle := hmid.le
    have hfirst := ha.runs L calls code lo hi qt s1.len (hmid.pre.trans hcode)
      (by rw [push_len]; exact hlo) (by omega) hqt (hmid.label code hcode)
    have hnext := hb.runs L calls code lo hi qt qf hcode (by rw [push_len]; omega) hhi hqt hqf
    rw [push_len] at hfirst hnext
    exact hfirst.or (hmid.insn code hcode) (by omega) (by omega) hnext

theorem CondLowered.not {a : Expr} {c : Guard Leaf} (line : Nat)
    (h : CondLowered a lfalse ltrue s s' c) :
    CondLowered (.unop line .bang a) ltrue lfalse s s' (.not c) where
  expr := congrArg Guard.not h.expr
  lowered := h.lowered
  runs L calls code lo hi qt qf hcode hlo hhi hqt hqf :=
    (h.runs L calls code lo hi qf qt hcode hlo hhi hqf hqt).not

theorem lowerCond_lowered (c : Guard Expr) {e : Expr} {ltrue lfalse : Nat} {s s' : Lowering}
    (he : e.cond = c) (h : lowerCond e ltrue lfalse s = .ok ((), s')) (hs : Fresh s)
    (htrue : ltrue < s.fn.nlabels) (hfalse : lfalse < s.fn.nlabels) :
    ∃ c, CondLowered e ltrue lfalse s s' c := by
  induction c generalizing e ltrue lfalse s s' with
  | leaf x =>
    obtain ⟨rfl, hlower⟩ := Expr.cond_eq_leaf he
    rw [hlower] at h
    exact lowerTest_lowered h hs he
  | not c ih =>
    obtain ⟨line, a, rfl, ha⟩ := Expr.cond_eq_not he
    obtain ⟨c, hc⟩ := ih ha h hs hfalse htrue
    exact ⟨.not c, hc.not line⟩
  | and c1 c2 ih1 ih2 =>
    obtain ⟨line, a, b, rfl, ha, hb⟩ := Expr.cond_eq_and he
    obtain ⟨s1, h1, h2⟩ := condMid_eq_ok h
    obtain ⟨seg, hseg⟩ := lowerCond_emits h1
    obtain ⟨seg', hseg'⟩ := lowerCond_emits h2
    have hmid := mid_of_emits hs hseg hseg'
    have hlt := hmid.nlabels
    obtain ⟨c1, hc1⟩ := ih1 ha h1 hmid.fresh (Nat.lt_succ_self _) (Nat.lt_succ_of_lt hfalse)
    obtain ⟨c2, hc2⟩ := ih2 hb h2 hmid.fresh' (htrue.trans hlt) (hfalse.trans hlt)
    exact ⟨.and c1 c2, hc1.and line hc2 hmid⟩
  | or c1 c2 ih1 ih2 =>
    obtain ⟨line, a, b, rfl, ha, hb⟩ := Expr.cond_eq_or he
    obtain ⟨s1, h1, h2⟩ := condMid_eq_ok h
    obtain ⟨seg, hseg⟩ := lowerCond_emits h1
    obtain ⟨seg', hseg'⟩ := lowerCond_emits h2
    have hmid := mid_of_emits hs hseg hseg'
    have hlt := hmid.nlabels
    obtain ⟨c1, hc1⟩ := ih1 ha h1 hmid.fresh (Nat.lt_succ_of_lt htrue) (Nat.lt_succ_self _)
    obtain ⟨c2, hc2⟩ := ih2 hb h2 hmid.fresh' (htrue.trans hlt) (hfalse.trans hlt)
    exact ⟨.or c1 c2, hc1.or line hc2 hmid⟩

/-- `lower_shortcircuit` leaves 1 in its temp if the condition holds, else 0. -/
structure ShortLowered (e : Expr) (v : Val) (s s' : Lowering) (c : Guard Leaf) : Prop where
  expr : c.map Leaf.expr = e.cond
  lowered : ∀ x ∈ c.leaves, x.LoweredIn s'
  runs : ∀ {E : Type} (L : Layout) (calls : Calls E) (code : List Insn) (lo hi : Nat),
    s'.fn.code <+: code → lo ≤ s.len → s'.len ≤ hi → ∀ d,
    Behaves (CallStep L calls code) (Inside code lo hi) 0 (vm s.len d)
      (fun es u => ∃ tr w d', c.Eval (Leaf.Runs L calls code) Leaf.truth d tr w d' ∧
        es = Guard.events tr ∧
        u = vm s'.len (Function.update d'.1 v.temp (if w then 1 else 0), d'.2))
      (c.Begun (Leaf.Runs L calls code) (Leaf.Begins L calls code) Leaf.truth d)

theorem lowerShortcircuit_lowered {v : Val} (h : lowerShortcircuit (lowerCond e) s = .ok (v, s'))
    (hs : Fresh s) : ∃ c, ShortLowered e v s s' c := by
  obtain ⟨s1, h1, rfl, rfl⟩ := lowerShortcircuit_eq_ok h
  obtain ⟨seg, hseg⟩ := lowerCond_emits h1
  obtain ⟨c, hc⟩ := lowerCond_lowered _ rfl h1 (hs.push_nil 0 3) (by simp) (by simp)
  refine ⟨c, hc.expr, fun x hx => (hc.lowered x hx).mono (List.prefix_append _ _), ?_⟩
  intro E L calls code lo hi hcode hlo hhi d
  have hpre : s1.fn.code <+: code := (List.prefix_append _ _).trans hcode
  have hlen : s.len ≤ s1.len := by
    rw [hseg.len, push_len]
    omega
  rw [push_len] at hhi
  simp only [shortTail, List.length_cons, List.length_nil] at hhi
  have hunplaced (k : Nat) (hk : k < 3) : s.fn.nlabels + k ∉ labels s1.fn.code := by
    refine hseg.unplaced (by simp; omega) ?_
    rw [push_code, List.append_nil]
    exact hs.unplaced (Nat.le_add_right _ _)
  have hfind (k j : Nat) (hk : k < 3) (hj : findLabel (s.fn.nlabels + k) (shortTail s.fn.nlabels
      (s.fn.nlabels + 1) (s.fn.nlabels + 2) s1.fn.ntemps) = some j) :
      findLabel (s.fn.nlabels + k) code = some (s1.len + j) :=
    label_in hcode (hunplaced k hk) hj
  have hqt := hfind 0 0 (by omega) (by simp [shortTail, findLabel, isLabel])
  have hqf := hfind 1 3 (by omega) (by simp [shortTail, findLabel, isLabel])
  have hqe := hfind 2 5 (by omega) (by simp [shortTail, findLabel, isLabel])
  have hins (k : Nat) (i : Insn) (hi : (shortTail s.fn.nlabels (s.fn.nlabels + 1)
      (s.fn.nlabels + 2) s1.fn.ntemps)[k]? = some i) : code[s1.len + k]? = some i :=
    insn_in hcode hi
  set t := s1.fn.ntemps with ht
  have htrue (d' : Cells) : Behaves (CallStep L calls code) (Inside code lo hi) 0
      (vm (s1.len + 0) d') (fun es u => es = [] ∧
        u = vm (s1.len + 6) (Function.update d'.1 t (BitVec.ofInt 32 1), d'.2)) fun es => es = [] :=
    (behaves_label (hins 0 _ rfl) (by omega) (by omega) (behaves_lic (hins 1 _ rfl) (by omega)
      (by omega) (behaves_jmp (hins 2 _ rfl) (by omega) (by omega) hqe (behaves_label
        (hins 5 _ rfl) (by omega) (by omega) (.here _))))).quiet (by simp)
  have hfalse (d' : Cells) : Behaves (CallStep L calls code) (Inside code lo hi) 0
      (vm (s1.len + 3) d') (fun es u => es = [] ∧
        u = vm (s1.len + 6) (Function.update d'.1 t (BitVec.ofInt 32 0), d'.2)) fun es => es = [] :=
    (behaves_label (hins 3 _ rfl) (by omega) (by omega) (behaves_lic (hins 4 _ rfl) (by omega)
      (by omega) (behaves_label (hins 5 _ rfl) (by omega) (by omega) (.here _)))).quiet (by simp)
  have hbegun := fun (x : Leaf) (d : Cells) (es : List E) (d' : Cells)
    (h : x.Runs L calls code d es d') => h.begins
  have hcond := hc.runs L calls code lo hi _ _ hpre (by rw [push_len]; exact hlo) (by omega) hqt hqf
  rw [push_len] at hcond
  refine (hcond.branch htrue hfalse d).congr (fun es u => ?_) (fun es hes => ?_)
    fun es hes => .inl (.inl hes)
  · rw [push_len]
    constructor
    · rintro (⟨tr, d', _, heval, ⟨rfl, rfl⟩, rfl⟩ | ⟨tr, d', _, heval, ⟨rfl, rfl⟩, rfl⟩)
      · exact ⟨tr, true, d', heval, List.append_nil _, rfl⟩
      · exact ⟨tr, false, d', heval, List.append_nil _, rfl⟩
    · rintro ⟨tr, _ | _, d', heval, rfl, rfl⟩
      · exact .inr ⟨tr, d', [], heval, ⟨rfl, rfl⟩, (List.append_nil _).symm⟩
      · exact .inl ⟨tr, d', [], heval, ⟨rfl, rfl⟩, (List.append_nil _).symm⟩
  · rcases hes with hes | ⟨tr, d', _, heval, rfl, rfl⟩ | ⟨tr, d', _, heval, rfl, rfl⟩
    · exact hes
    · rw [List.append_nil]
      exact heval.begun hbegun
    · rw [List.append_nil]
      exact heval.begun hbegun

end Lowered

end MechanicalResearcher.PortableCompiler.Tinc
