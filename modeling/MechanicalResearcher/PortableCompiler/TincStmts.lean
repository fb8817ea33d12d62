import MechanicalResearcher.PortableCompiler.TincConds
import MechanicalResearcher.PortableCompiler.TincFlow

/-!
# Statements of TinC

The code of a statement does what C says of its conditions, its expressions and its loops.
-/

namespace MechanicalResearcher.PortableCompiler.Tinc

open Lib.Behaviour Lib.Structured

variable {lp : Loop} {e test : Expr}

mutual

/-- The statement over its expressions; the test of `while(1)` has no code. -/
def Stmt.prog : Stmt → Prog Expr Unit
  | .block _ body => Stmts.prog body
  | .exprStmt a => .expr a
  | .empty => .skip
  | .ifThen test thenPart => .ifThen test.cond (Stmt.prog thenPart)
  | .ifElse test thenPart elsePart => .ifElse test.cond (Stmt.prog thenPart) (Stmt.prog elsePart)
  | .loop test body => .loop (if test.forever then none else some test.cond) (Stmt.prog body)
  | .brk _ => .brk
  | .cont _ => .cont
  | .ret => .ret () none
  | .retv a => .ret () (some a)

def Stmts.prog : Stmts → Prog Expr Unit
  | .nil => .skip
  | .cons s next => .seq (Stmt.prog s) (Stmts.prog next)

end

/-! ## Where a statement ends -/

/-- Where the machine is after a statement whose code ends at `q`, in the loop `l`: a `break` and a
`continue` are at the label of the loop, and a return is at its own instruction. -/
def Lands (code : List Insn) (q : Nat) (l : Option Loop) : Prog.Exit Leaf Nat → Cells → Vm → Prop
  | .normal, d, u => u = vm q d
  | .brk, d, u => ∃ lp, l = some lp ∧ ∃ p, findLabel lp.brk code = some p ∧ u = vm p d
  | .cont, d, u => ∃ lp, l = some lp ∧ ∃ p, findLabel lp.cont code = some p ∧ u = vm p d
  | .ret p none, d, u => code[p]? = some { op := .ret } ∧ u = vm p d
  | .ret p (some x), d, u => code[p]? = some { op := .retv, a := some x.temp } ∧ u = vm p d

section Statements

variable {E : Type} (L : Layout) (calls : Calls E) (code : List Insn) (lo hi : Nat)

/-- From `p` the machine runs the statement `a`, whose code ends at `q`. -/
def ProgAt (p q : Nat) (l : Option Loop) (a : Prog Leaf Nat) : Prop :=
  ∀ d, Behaves (CallStep L calls code) (Inside code lo hi) 0 (vm p d)
    (fun es u => ∃ o d', a.Run (Leaf.Runs L calls code) Leaf.truth d es o d' ∧
      Lands code q l o d' u)
    (a.Begun (Leaf.Runs L calls code) (Leaf.Begins L calls code) Leaf.truth d)

/-- From `p` the machine goes to `q` without an event. -/
def Goes (p q : Nat) : Prop :=
  ∀ d, Behaves (CallStep L calls code) (Inside code lo hi) 0 (vm p d)
    (fun es u => es = [] ∧ u = vm q d) fun es => es = []

variable {L calls code lo hi} {p m q qt qf qb k : Nat} {l : Option Loop} {a b : Prog Leaf Nat}
  {c : Guard Leaf}

theorem lands_of_ne {o : Prog.Exit Leaf Nat} {d : Cells} {u : Vm} (ho : o ≠ .normal) :
    Lands code m l o d u ↔ Lands code q l o d u := by
  cases o with
  | normal => exact absurd rfl ho
  | brk | cont => exact Iff.rfl
  | ret r x => cases x <;> exact Iff.rfl

theorem lands_ret {l l' : Option Loop} {r : Nat} {x : Option Leaf} {d : Cells} {u : Vm} :
    Lands code m l (.ret r x) d u ↔ Lands code q l' (.ret r x) d u := by
  cases x <;> exact Iff.rfl

theorem Goes.refl (p : Nat) : Goes L calls code lo hi p p := fun d =>
  (Behaves.here (vm p d)).quiet fun _ h => h.elim

theorem Goes.label {l : Nat} (h : code[p]? = some { op := .label, label := some l }) (hlo : lo ≤ p)
    (hhi : p < hi) : Goes L calls code lo hi p (p + 1) := fun d =>
  (behaves_label h hlo hhi (.here (vm (p + 1) d))).quiet (by simp)

theorem Goes.jmp {l : Nat} (h : code[p]? = some { op := .jmp, label := some l }) (hlo : lo ≤ p)
    (hhi : p < hi) (hq : findLabel l code = some q) : Goes L calls code lo hi p q := fun d =>
  (behaves_jmp h hlo hhi hq (.here (vm q d))).quiet (by simp)

theorem Goes.trans (h : Goes L calls code lo hi p m) (h' : Goes L calls code lo hi m q) :
    Goes L calls code lo hi p q := by
  intro d
  have hfirst : Behaves (CallStep L calls code) (Inside code lo hi) 0 (vm p d)
      (fun es u => ∃ _ : Unit, es = [] ∧ u = vm m d) fun es => es = [] :=
    (h d).congr (fun es u => by simp) (fun es hes => hes) fun es hes => .inl hes
  refine (hfirst.follow fun _ => h' d).congr (fun es u => ?_) (fun es hes => ?_)
    fun es hes => .inl (.inl hes)
  · constructor
    · rintro ⟨-, _, _, rfl, ⟨rfl, hu⟩, rfl⟩
      exact ⟨rfl, hu⟩
    · rintro ⟨rfl, hu⟩
      exact ⟨(), [], [], rfl, ⟨rfl, hu⟩, rfl⟩
  · rcases hes with hes | ⟨-, _, _, rfl, rfl, rfl⟩
    · exact hes
    · rfl

theorem Goes.before (h : Goes L calls code lo hi p m) {R : Cells → List E → Vm → Prop}
    {P : Cells → List E → Prop} (hP : ∀ d, P d [])
    (hm : ∀ d, Behaves (CallStep L calls code) (Inside code lo hi) k (vm m d) (R d) (P d))
    (d : Cells) : Behaves (CallStep L calls code) (Inside code lo hi) k (vm p d) (R d) (P d) := by
  have hfirst : Behaves (CallStep L calls code) (Inside code lo hi) 0 (vm p d)
      (fun es u => ∃ _ : Unit, es = [] ∧ u = vm m d) fun es => es = [] :=
    (h d).congr (fun es u => by simp) (fun es hes => hes) fun es hes => .inl hes
  refine (hfirst.follow fun _ => hm d).congr (fun es u => ?_) (fun es hes => ?_)
    fun es hes => .inl (.inr ⟨(), [], es, rfl, hes, rfl⟩)
  · constructor
    · rintro ⟨-, _, es', rfl, hu, rfl⟩
      exact hu
    · intro hu
      exact ⟨(), [], es, rfl, hu, rfl⟩
  · rcases hes with rfl | ⟨-, _, es', rfl, hes, rfl⟩
    · exact hP d
    · exact hes

theorem ProgAt.before (h : Goes L calls code lo hi p m) (ha : ProgAt L calls code lo hi m q l a) :
    ProgAt L calls code lo hi p q l a :=
  h.before (fun _ => .start) ha

theorem ProgAt.next (ha : ProgAt L calls code lo hi p m l a) {R : Cells → List E → Vm → Prop}
    {P : Cells → List E → Prop}
    (hm : ∀ d, Behaves (CallStep L calls code) (Inside code lo hi) 0 (vm m d) (R d) (P d))
    (d : Cells) :
    Behaves (CallStep L calls code) (Inside code lo hi) 0 (vm p d)
      (fun es u =>
        (∃ d' es1 es2, a.Run (Leaf.Runs L calls code) Leaf.truth d es1 .normal d' ∧ R d' es2 u ∧
          es = es1 ++ es2) ∨
        ∃ o d', o ≠ .normal ∧ a.Run (Leaf.Runs L calls code) Leaf.truth d es o d' ∧
          Lands code m l o d' u)
      fun es => a.Begun (Leaf.Runs L calls code) (Leaf.Begins L calls code) Leaf.truth d es ∨
        ∃ d' es1 es2, a.Run (Leaf.Runs L calls code) Leaf.truth d es1 .normal d' ∧ P d' es2 ∧
          es = es1 ++ es2 := by
  let T (i : Prog.Exit Leaf Nat × Cells) (es : List E) (u : Vm) : Prop :=
    a.Run (Leaf.Runs L calls code) Leaf.truth d es i.1 i.2 ∧ Lands code m l i.1 i.2 u
  let Q (i : Prog.Exit Leaf Nat × Cells) (u : Vm) (es : List E) (t : Vm) : Prop :=
    (i.1 = .normal ∧ R i.2 es t) ∨ (i.1 ≠ .normal ∧ es = [] ∧ t = u)
  let P' (i : Prog.Exit Leaf Nat × Cells) (_ : Vm) (es : List E) : Prop := i.1 = .normal ∧ P i.2 es
  have hfirst : Behaves (CallStep L calls code) (Inside code lo hi) 0 (vm p d)
      (fun es u => ∃ i, T i es u)
      (a.Begun (Leaf.Runs L calls code) (Leaf.Begins L calls code) Leaf.truth d) := by
    refine (ha d).congr (fun es u => ?_) (fun es hes => hes) fun es hes => .inl hes
    constructor
    · rintro ⟨o, d', h⟩
      exact ⟨(o, d'), h⟩
    · rintro ⟨⟨o, d'⟩, h⟩
      exact ⟨o, d', h⟩
  have hnext (i : Prog.Exit Leaf Nat × Cells) (es : List E) (u : Vm) (hu : T i es u) :
      Behaves (CallStep L calls code) (Inside code lo hi) 0 u (Q i u) (P' i u) := by
    obtain ⟨o, d'⟩ := i
    by_cases ho : o = .normal
    · subst ho
      rw [hu.2]
      exact (hm d').congr (fun es t => by simp [Q]) (fun es hes => ⟨rfl, hes⟩)
        fun es hes => .inl hes.2
    · exact (Behaves.here u).congr (fun es t => by simp [Q, ho]) (fun es hes => hes.elim)
        fun es hes => absurd hes.1 ho
  refine (hfirst.bind hnext).congr (fun es u => ?_) (fun es hes => ?_) fun es hes => ?_
  · constructor
    · rintro ⟨⟨o, d'⟩, es1, es2, u', ⟨hrun, hland⟩, ⟨ho, hu⟩ | ⟨ho, rfl, rfl⟩, rfl⟩
      · obtain rfl : o = .normal := ho
        exact .inl ⟨d', es1, es2, hrun, hu, rfl⟩
      · rw [List.append_nil]
        exact .inr ⟨o, d', ho, hrun, hland⟩
    · rintro (⟨d', es1, es2, hrun, hu, rfl⟩ | ⟨o, d', ho, hrun, hland⟩)
      · exact ⟨(.normal, d'), es1, es2, _, ⟨hrun, rfl⟩, .inl ⟨rfl, hu⟩, rfl⟩
      · exact ⟨(o, d'), es, [], u, ⟨hrun, hland⟩, .inr ⟨ho, rfl, rfl⟩, (List.append_nil es).symm⟩
  · rcases hes with hes | ⟨⟨o, d'⟩, es1, es2, u, ⟨hrun, -⟩, ⟨ho, hes⟩, rfl⟩
    · exact .inl hes
    · obtain rfl : o = .normal := ho
      exact .inr ⟨d', es1, es2, hrun, hes, rfl⟩
  · rcases hes with hes | ⟨d', es1, es2, hrun, hes, rfl⟩
    · exact .inl (.inl hes)
    · exact .inl (.inr ⟨(.normal, d'), es1, es2, _, ⟨hrun, rfl⟩, ⟨rfl, hes⟩, rfl⟩)

theorem ProgAt.after (ha : ProgAt L calls code lo hi p m l a) (h : Goes L calls code lo hi m q) :
    ProgAt L calls code lo hi p q l a := by
  intro d
  refine (ha.next h d).congr (fun es u => ?_) (fun es hes => ?_) fun es hes => .inl (.inl hes)
  · constructor
    · rintro (⟨d', es1, _, hrun, ⟨rfl, rfl⟩, rfl⟩ | ⟨o, d', ho, hrun, hland⟩)
      · rw [List.append_nil]
        exact ⟨.normal, d', hrun, rfl⟩
      · exact ⟨o, d', hrun, (lands_of_ne ho).1 hland⟩
    · rintro ⟨o, d', hrun, hland⟩
      by_cases ho : o = .normal
      · subst ho
        exact .inl ⟨d', es, [], hrun, ⟨rfl, hland⟩, (List.append_nil es).symm⟩
      · exact .inr ⟨o, d', ho, hrun, (lands_of_ne ho).1 hland⟩
  · rcases hes with hes | ⟨d', es1, _, hrun, rfl, rfl⟩
    · exact hes
    · rw [List.append_nil]
      exact hrun.begun fun _ _ _ _ h => h.begins

theorem ProgAt.skip (p : Nat) : ProgAt L calls code lo hi p p l .skip := by
  intro d
  refine (Goes.refl p d).congr (fun es u => ?_) (fun es hes => ?_) fun es hes => ?_
  · constructor
    · rintro ⟨rfl, rfl⟩
      exact ⟨.normal, d, .skip, rfl⟩
    · rintro ⟨o, d', hrun, hland⟩
      cases hrun with
      | skip => exact ⟨rfl, hland⟩
  · rw [hes]
    exact .start
  · cases hes with
    | start => exact .inl rfl

theorem ProgAt.seq (ha : ProgAt L calls code lo hi p m l a)
    (hb : ProgAt L calls code lo hi m q l b) :
    ProgAt L calls code lo hi p q l (.seq a b) := by
  intro d
  refine (ha.next hb d).congr (fun es u => ?_) (fun es hes => ?_) fun es hes => ?_
  · constructor
    · rintro (⟨d', es1, es2, hrun, ⟨o, d'', hrun', hland⟩, rfl⟩ | ⟨o, d', ho, hrun, hland⟩)
      · exact ⟨o, d'', .seq hrun hrun', hland⟩
      · exact ⟨o, d', .seqExit hrun ho, (lands_of_ne ho).1 hland⟩
    · rintro ⟨o, d', hrun, hland⟩
      cases hrun with
      | @seq _ _ _ d1 _ es1 es2 _ hrun hrun' =>
        exact .inl ⟨d1, es1, es2, hrun, ⟨o, d', hrun', hland⟩, rfl⟩
      | seqExit hrun ho => exact .inr ⟨o, d', ho, hrun, (lands_of_ne ho).1 hland⟩
  · rcases hes with hes | ⟨d', es1, es2, hrun, hes, rfl⟩
    · exact .seq hes
    · exact .seqNext hrun hes
  · cases hes with
    | start => exact .inl (.inl .start)
    | seq hes => exact .inl (.inl hes)
    | @seqNext _ _ _ d' es1 es2 hrun hes => exact .inl (.inr ⟨d', es1, es2, hrun, hes, rfl⟩)

theorem ProgAt.ifThen (hc : CondAt L calls code lo hi p c qt qf)
    (ha : ProgAt L calls code lo hi qt q l a) (hf : Goes L calls code lo hi qf q) :
    ProgAt L calls code lo hi p q l (.ifThen c a) := by
  intro d
  refine (hc.branch ha hf d).congr (fun es u => ?_) (fun es hes => ?_) fun es hes => ?_
  · constructor
    · rintro (⟨tr, d', es', heval, ⟨o, d'', hrun, hland⟩, rfl⟩ |
        ⟨tr, d', _, heval, ⟨rfl, rfl⟩, rfl⟩)
      · exact ⟨o, d'', .thenTrue heval hrun, hland⟩
      · rw [List.append_nil]
        exact ⟨.normal, d', .thenFalse heval, rfl⟩
    · rintro ⟨o, d', hrun, hland⟩
      cases hrun with
      | @thenTrue _ _ _ d1 _ tr es' _ heval hrun =>
        exact .inl ⟨tr, d1, es', heval, ⟨o, d', hrun, hland⟩, rfl⟩
      | @thenFalse _ _ _ _ tr heval =>
        exact .inr ⟨tr, d', [], heval, ⟨rfl, hland⟩, (List.append_nil _).symm⟩
  · rcases hes with hes | ⟨tr, d', es', heval, hes, rfl⟩ | ⟨tr, d', _, heval, rfl, rfl⟩
    · exact .ifThen hes
    · exact .thenTrue heval hes
    · rw [List.append_nil]
      exact .ifThen (heval.begun fun _ _ _ _ h => h.begins)
  · cases hes with
    | start => exact .inl (.inl (.nil (fun x d => x.begins_nil d) c d))
    | ifThen hes => exact .inl (.inl hes)
    | @thenTrue _ _ _ d' tr es' heval hes =>
      exact .inl (.inr (.inl ⟨tr, d', es', heval, hes, rfl⟩))

theorem ProgAt.ifElse (hc : CondAt L calls code lo hi p c qt qf)
    (ha : ProgAt L calls code lo hi qt q l a) (hb : ProgAt L calls code lo hi qf q l b) :
    ProgAt L calls code lo hi p q l (.ifElse c a b) := by
  intro d
  refine (hc.branch ha hb d).congr (fun es u => ?_) (fun es hes => ?_) fun es hes => ?_
  · constructor
    · rintro (⟨tr, d', es', heval, ⟨o, d'', hrun, hland⟩, rfl⟩ |
        ⟨tr, d', es', heval, ⟨o, d'', hrun, hland⟩, rfl⟩)
      · exact ⟨o, d'', .elseTrue heval hrun, hland⟩
      · exact ⟨o, d'', .elseFalse heval hrun, hland⟩
    · rintro ⟨o, d', hrun, hland⟩
      cases hrun with
      | @elseTrue _ _ _ _ d1 _ tr es' _ heval hrun =>
        exact .inl ⟨tr, d1, es', heval, ⟨o, d', hrun, hland⟩, rfl⟩
      | @elseFalse _ _ _ _ d1 _ tr es' _ heval hrun =>
        exact .inr ⟨tr, d1, es', heval, ⟨o, d', hrun, hland⟩, rfl⟩
  · rcases hes with hes | ⟨tr, d', es', heval, hes, rfl⟩ | ⟨tr, d', es', heval, hes, rfl⟩
    · exact .ifElse hes
    · exact .elseTrue heval hes
    · exact .elseFalse heval hes
  · cases hes with
    | start => exact .inl (.inl (.nil (fun x d => x.begins_nil d) c d))
    | ifElse hes => exact .inl (.inl hes)
    | @elseTrue _ _ _ _ d' tr es' heval hes =>
      exact .inl (.inr (.inl ⟨tr, d', es', heval, hes, rfl⟩))
    | @elseFalse _ _ _ _ d' tr es' heval hes =>
      exact .inl (.inr (.inr ⟨tr, d', es', heval, hes, rfl⟩))

theorem ProgAt.expr {x : Leaf} (h : ∀ d, Behaves (CallStep L calls code) (Inside code lo hi) 0
    (vm p d) (fun es u => ∃ d', x.Runs L calls code d es d' ∧ u = vm q d')
    (x.Begins L calls code d)) : ProgAt L calls code lo hi p q l (.expr x) := by
  intro d
  refine (h d).congr (fun es u => ?_) (fun es hes => .expr hes) fun es hes => ?_
  · constructor
    · rintro ⟨d', hrun, rfl⟩
      exact ⟨.normal, d', .expr hrun, rfl⟩
    · rintro ⟨o, d', hrun, hland⟩
      cases hrun with
      | expr hrun => exact ⟨d', hrun, hland⟩
  · cases hes with
    | start => exact .inl (x.begins_nil d)
    | expr hes => exact .inl hes

theorem ProgAt.ret (hret : code[p]? = some { op := .ret }) :
    ProgAt L calls code lo hi p q l (.ret p none) := by
  intro d
  refine (Goes.refl p d).congr (fun es u => ?_) (fun es hes => ?_) fun es hes => ?_
  · constructor
    · rintro ⟨rfl, rfl⟩
      exact ⟨.ret p none, d, .ret, hret, rfl⟩
    · rintro ⟨o, d', hrun, hland⟩
      cases hrun with
      | ret => exact ⟨rfl, hland.2⟩
  · rw [hes]
    exact .start
  · cases hes with
    | start => exact .inl rfl

theorem ProgAt.retv {x : Leaf} (h : ∀ d, Behaves (CallStep L calls code) (Inside code lo hi) 0
    (vm p d) (fun es u => ∃ d', x.Runs L calls code d es d' ∧ u = vm m d')
    (x.Begins L calls code d)) (hret : code[m]? = some { op := .retv, a := some x.temp }) :
    ProgAt L calls code lo hi p q l (.ret m (some x)) := by
  intro d
  refine (h d).congr (fun es u => ?_) (fun es hes => .retv hes) fun es hes => ?_
  · constructor
    · rintro ⟨d', hrun, rfl⟩
      exact ⟨.ret m (some x), d', .retv hrun, hret, rfl⟩
    · rintro ⟨o, d', hrun, hland⟩
      cases hrun with
      | retv hrun => exact ⟨d', hrun, hland.2⟩
  · cases hes with
    | start => exact .inl (x.begins_nil d)
    | retv hes => exact .inl hes

theorem ProgAt.brk (hjmp : code[p]? = some { op := .jmp, label := some lp.brk }) (hlo : lo ≤ p)
    (hhi : p < hi) : ProgAt L calls code lo hi p q (some lp) .brk := by
  intro d
  refine (behaves_jmp_iff hjmp hlo hhi).congr (fun es u => ?_) (fun es hes => ?_) fun es hes => ?_
  · constructor
    · rintro ⟨rfl, hu⟩
      exact ⟨.brk, d, .brk, lp, rfl, hu⟩
    · rintro ⟨o, d', hrun, hland⟩
      cases hrun with
      | brk =>
        obtain ⟨_, hlp, hu⟩ := hland
        obtain rfl := Option.some.inj hlp
        exact ⟨rfl, hu⟩
  · rw [hes]
    exact .start
  · cases hes with
    | start => exact .inl rfl

theorem ProgAt.cont (hjmp : code[p]? = some { op := .jmp, label := some lp.cont }) (hlo : lo ≤ p)
    (hhi : p < hi) : ProgAt L calls code lo hi p q (some lp) .cont := by
  intro d
  refine (behaves_jmp_iff hjmp hlo hhi).congr (fun es u => ?_) (fun es hes => ?_) fun es hes => ?_
  · constructor
    · rintro ⟨rfl, hu⟩
      exact ⟨.cont, d, .cont, lp, rfl, hu⟩
    · rintro ⟨o, d', hrun, hland⟩
      cases hrun with
      | cont =>
        obtain ⟨_, hlp, hu⟩ := hland
        obtain rfl := Option.some.inj hlp
        exact ⟨rfl, hu⟩
  · rw [hes]
    exact .start
  · cases hes with
    | start => exact .inl rfl

/-! ### Loops -/

/-- From `p` the machine runs the test of a loop. -/
def TestAt (L : Layout) (calls : Calls E) (code : List Insn) (lo hi p : Nat)
    (c : Option (Guard Leaf)) (qt qf : Nat) : Prop :=
  ∀ d, Behaves (CallStep L calls code) (Inside code lo hi) 0 (vm p d)
    (fun es u => ∃ v d', Prog.Test (Leaf.Runs L calls code) Leaf.truth c d es v d' ∧
      u = vm (if v then qt else qf) d')
    (Prog.TestBegun (Leaf.Runs L calls code) (Leaf.Begins L calls code) Leaf.truth c d)

theorem TestAt.none (p qf : Nat) : TestAt L calls code lo hi p none p qf := by
  intro d
  refine (Goes.refl p d).congr (fun es u => ?_) (fun es hes => hes) fun es hes => .inl hes
  constructor
  · rintro ⟨rfl, rfl⟩
    exact ⟨true, d, .always, rfl⟩
  · rintro ⟨v, d', htest, rfl⟩
    cases htest
    exact ⟨rfl, rfl⟩

theorem CondAt.testAt (hc : CondAt L calls code lo hi p c qt qf) :
    TestAt L calls code lo hi p (some c) qt qf := by
  intro d
  refine (hc d).congr (fun es u => ?_) (fun es hes => hes) fun es hes => .inl hes
  constructor
  · rintro ⟨tr, v, d', heval, rfl, rfl⟩
    exact ⟨v, d', .cond heval, rfl⟩
  · rintro ⟨v, d', htest, rfl⟩
    cases htest with
    | cond heval => exact ⟨_, v, d', heval, rfl, rfl⟩

theorem ProgAt.body (ha : ProgAt L calls code lo hi qt p (some lp) a)
    (hcont : findLabel lp.cont code = some p) (hbrk : findLabel lp.brk code = some qb)
    (hq : Goes L calls code lo hi qb q) (d : Cells) :
    Behaves (CallStep L calls code) (Inside code lo hi) 0 (vm qt d)
      (fun es u =>
        (∃ o d', (o = .normal ∨ o = .cont) ∧
          a.Run (Leaf.Runs L calls code) Leaf.truth d es o d' ∧ u = vm p d') ∨
        (∃ d', a.Run (Leaf.Runs L calls code) Leaf.truth d es .brk d' ∧ u = vm q d') ∨
        ∃ r x d', a.Run (Leaf.Runs L calls code) Leaf.truth d es (.ret r x) d' ∧
          Lands code q l (.ret r x) d' u)
      (a.Begun (Leaf.Runs L calls code) (Leaf.Begins L calls code) Leaf.truth d) := by
  let T (i : Prog.Exit Leaf Nat × Cells) (es : List E) (u : Vm) : Prop :=
    a.Run (Leaf.Runs L calls code) Leaf.truth d es i.1 i.2 ∧ Lands code p (some lp) i.1 i.2 u
  let Q (i : Prog.Exit Leaf Nat × Cells) (u : Vm) (es : List E) (t : Vm) : Prop :=
    es = [] ∧ ((i.1 = .brk ∧ t = vm q i.2) ∨ (i.1 ≠ .brk ∧ t = u))
  have hfirst : Behaves (CallStep L calls code) (Inside code lo hi) 0 (vm qt d)
      (fun es u => ∃ i, T i es u)
      (a.Begun (Leaf.Runs L calls code) (Leaf.Begins L calls code) Leaf.truth d) := by
    refine (ha d).congr (fun es u => ?_) (fun es hes => hes) fun es hes => .inl hes
    constructor
    · rintro ⟨o, d', h⟩
      exact ⟨(o, d'), h⟩
    · rintro ⟨⟨o, d'⟩, h⟩
      exact ⟨o, d', h⟩
  -- only a `break` still has a way to go
  have hnext (i : Prog.Exit Leaf Nat × Cells) (es : List E) (u : Vm) (hu : T i es u) :
      Behaves (CallStep L calls code) (Inside code lo hi) 0 u (Q i u) fun es => es = [] := by
    obtain ⟨o, d'⟩ := i
    by_cases ho : o = .brk
    · subst ho
      obtain ⟨-, _, hlp, p', hp', rfl⟩ := hu
      obtain rfl := Option.some.inj hlp
      rw [hbrk] at hp'
      obtain rfl := Option.some.inj hp'
      exact (hq d').congr (fun es t => by simp [Q]) (fun es hes => hes) fun es hes => .inl hes
    · exact ((Behaves.here u).quiet fun _ h => h.elim).congr (fun es t => by simp [Q, ho])
        (fun es hes => hes) fun es hes => .inl hes
  refine (hfirst.bind hnext).congr (fun es u => ?_) (fun es hes => ?_) fun es hes => .inl (.inl hes)
  · constructor
    · rintro ⟨⟨o, d'⟩, es1, _, u', ⟨hrun, hland⟩, ⟨rfl, ⟨ho, rfl⟩ | ⟨ho, rfl⟩⟩, rfl⟩
      · obtain rfl : o = .brk := ho
        rw [List.append_nil]
        exact .inr (.inl ⟨d', hrun, rfl⟩)
      · rw [List.append_nil]
        cases o with
        | normal => exact .inl ⟨.normal, d', .inl rfl, hrun, hland⟩
        | brk => exact absurd rfl ho
        | cont =>
          obtain ⟨_, hlp, p', hp', rfl⟩ := hland
          obtain rfl := Option.some.inj hlp
          rw [hcont] at hp'
          obtain rfl := Option.some.inj hp'
          exact .inl ⟨.cont, d', .inr rfl, hrun, rfl⟩
        | ret r x => exact .inr (.inr ⟨r, x, d', hrun, lands_ret.1 hland⟩)
    · rintro (⟨o, d', rfl | rfl, hrun, rfl⟩ | ⟨d', hrun, rfl⟩ | ⟨r, x, d', hrun, hland⟩)
      · exact ⟨(.normal, d'), es, [], _, ⟨hrun, rfl⟩, ⟨rfl, .inr ⟨by simp, rfl⟩⟩,
          (List.append_nil es).symm⟩
      · exact ⟨(.cont, d'), es, [], _, ⟨hrun, lp, rfl, p, hcont, rfl⟩,
          ⟨rfl, .inr ⟨by simp, rfl⟩⟩, (List.append_nil es).symm⟩
      · exact ⟨(.brk, d'), es, [], vm qb d', ⟨hrun, lp, rfl, qb, hbrk, rfl⟩,
          ⟨rfl, .inl ⟨rfl, rfl⟩⟩, (List.append_nil es).symm⟩
      · exact ⟨(.ret r x, d'), es, [], u, ⟨hrun, lands_ret.1 hland⟩,
          ⟨rfl, .inr ⟨by simp, rfl⟩⟩, (List.append_nil es).symm⟩
  · rcases hes with hes | ⟨⟨o, d'⟩, es1, _, u, ⟨hrun, -⟩, rfl, rfl⟩
    · exact hes
    · rw [List.append_nil]
      exact hrun.begun fun _ _ _ _ h => h.begins

theorem ProgAt.loop {c : Option (Guard Leaf)}
    (hlab : code[p]? = some { op := .label, label := some lp.cont }) (hlo : lo ≤ p) (hhi : p < hi)
    (hcont : findLabel lp.cont code = some p) (hbrk : findLabel lp.brk code = some qb)
    (ht : TestAt L calls code lo hi (p + 1) c qt qb)
    (ha : ProgAt L calls code lo hi qt p (some lp) a) (hq : Goes L calls code lo hi qb q) :
    ProgAt L calls code lo hi p q l (.loop c a) := by
  have hturn (d : Cells) : Behaves (CallStep L calls code) (Inside code lo hi) 1 (vm p d)
      (fun es u => (∃ d', Prog.Again (Leaf.Runs L calls code) Leaf.truth c a d es d' ∧
        u = vm p d') ∨
        ∃ i, Prog.Leave (Leaf.Runs L calls code) Leaf.truth c a d es i ∧
          Lands code q l i.1 i.2 u)
      (Prog.InTurn (Leaf.Runs L calls code) (Leaf.Begins L calls code) Leaf.truth c a d) := by
    have hlabel := behaves_label hlab hlo hhi ((ht d).branch (ha.body (l := l) hcont hbrk hq) hq)
    refine hlabel.congr (fun es u => ?_) (fun es hes => ?_) fun es hes => ?_
    · constructor
      · rintro (⟨d1, es1, es2, htest, ⟨o, d', ho, hrun, rfl⟩ | ⟨d', hrun, rfl⟩ |
          ⟨r, x, d', hrun, hland⟩, rfl⟩ | ⟨d', es1, _, htest, ⟨rfl, rfl⟩, rfl⟩)
        · exact .inl ⟨d', ⟨d1, es1, es2, o, htest, hrun, ho, rfl⟩, rfl⟩
        · exact .inr ⟨(.normal, d'), .inr ⟨d1, es1, es2, htest, rfl, .inl ⟨hrun, rfl⟩⟩, rfl⟩
        · exact .inr ⟨(.ret r x, d'), .inr ⟨d1, es1, es2, htest, rfl, .inr ⟨r, x, hrun, rfl⟩⟩,
            hland⟩
        · rw [List.append_nil]
          exact .inr ⟨(.normal, d'), .inl ⟨htest, rfl⟩, rfl⟩
      · rintro (⟨d', ⟨d1, es1, es2, o, htest, hrun, ho, rfl⟩, rfl⟩ |
          ⟨⟨o, d'⟩, ⟨htest, ho⟩ | ⟨d1, es1, es2, htest, rfl, ⟨hrun, ho⟩ | ⟨r, x, hrun, ho⟩⟩,
            hland⟩)
        · exact .inl ⟨d1, es1, es2, htest, .inl ⟨o, d', ho, hrun, rfl⟩, rfl⟩
        · obtain rfl : o = .normal := ho
          exact .inr ⟨d', es, [], htest, ⟨rfl, hland⟩, (List.append_nil es).symm⟩
        · obtain rfl : o = .normal := ho
          exact .inl ⟨d1, es1, es2, htest, .inr (.inl ⟨d', hrun, hland⟩), rfl⟩
        · obtain rfl : o = .ret r x := ho
          exact .inl ⟨d1, es1, es2, htest, .inr (.inr ⟨r, x, d', hrun, hland⟩), rfl⟩
    · rcases hes with rfl | htest | ⟨d1, es1, es2, htest, hes, rfl⟩ | ⟨d', es1, _, htest, rfl, rfl⟩
      · exact .inl (Prog.TestBegun.nil (fun x d => x.begins_nil d) c d)
      · exact .inl htest
      · exact .inr ⟨d1, es1, es2, htest, hes, rfl⟩
      · rw [List.append_nil]
        exact .inl (htest.begun fun _ _ _ _ h => h.begins)
    · rcases hes with htest | ⟨d1, es1, es2, htest, hes, rfl⟩
      · exact .inl (.inr (.inl htest))
      · exact .inl (.inr (.inr (.inl ⟨d1, es1, es2, htest, hes, rfl⟩)))
  intro d
  refine (Behaves.loop hturn d).congr (fun es u => ?_) (fun es hes => ?_) fun es hes => ?_
  · rw [loop_exists_iff]
    constructor
    · rintro ⟨⟨o, d'⟩, hloop, hland⟩
      exact ⟨o, d', Prog.run_loop_iff.2 hloop, hland⟩
    · rintro ⟨o, d', hrun, hland⟩
      exact ⟨(o, d'), Prog.run_loop_iff.1 hrun, hland⟩
  · exact (Prog.begun_loop_iff fun x d => x.begins_nil d).2 hes
  · exact .inl ((Prog.begun_loop_iff fun x d => x.begins_nil d).1 hes)

end Statements

/-! ## Lowered statements -/

/-- The statement over the operands that the code from `s` to `s'` runs. -/
structure StmtLowered (n : Prog Expr Unit) (s s' : Lowering) (a : Prog Leaf Nat) : Prop where
  prog : a.map Leaf.expr (fun _ => ()) = n
  lowered : ∀ x ∈ a.leaves, x.LoweredIn s'
  runs : ∀ {E : Type} (L : Layout) (calls : Calls E) (code : List Insn) (lo hi : Nat),
    s'.fn.code <+: code → lo ≤ s.len → s'.len ≤ hi →
    ProgAt L calls code lo hi s.len s'.len s.loops.head? a

/-- Code was emitted from `s` to `s'`, with no label in it that is older than `k`. -/
abbrev Grows (k : Nat) (s s' : Lowering) : Prop := ∃ seg, Emits k Anywhere True s s' seg

section Lowered

variable {k l n m : Nat} {s s1 s' : Lowering} {seg : List Insn}

attribute [local simp] lowerStmt

theorem Grows.pre (h : Grows k s s') : s.fn.code <+: s'.fn.code := h.choose_spec.pre

theorem Grows.len (h : Grows k s s') : s.len ≤ s'.len := h.pre.length_le

theorem Grows.nlabels (h : Grows k s s') : s.fn.nlabels ≤ s'.fn.nlabels := h.choose_spec.nlabels

theorem Grows.loops (h : Grows k s s') : s'.loops = s.loops := h.choose_spec.loops

theorem Grows.fresh (h : Grows k s s') (hs : Fresh s) : Fresh s' := h.choose_spec.fresh hs

theorem Grows.unplaced (h : Grows k s s') (hlk : l < k) (hl : l ∉ labels s.fn.code) :
    l ∉ labels s'.fn.code :=
  h.choose_spec.unplaced hlk hl

theorem grows_cond {ltrue lfalse : Nat} (h : lowerCond e ltrue lfalse s = .ok ((), s')) :
    Grows s.fn.nlabels s s' :=
  (e.confined.cond ltrue lfalse).own s () s' h

theorem grows_stmt {x : Stmt} (h : lowerStmt x s = .ok ((), s')) : Grows s.fn.nlabels s s' :=
  lowerStmt_ownLabels x s () s' h

theorem grows_stmts {x : Stmts} (h : lowerStmts x s = .ok ((), s')) : Grows s.fn.nlabels s s' :=
  lowerStmts_ownLabels x s () s' h

theorem fresh_push (hs : Fresh s) (hseg : ∀ l ∈ labels seg, l < s.fn.nlabels + m) :
    Fresh (s.push seg n m) := by
  intro l hl
  rw [push_code, labels_append, List.mem_append] at hl
  rcases hl with hl | hl
  · exact Nat.lt_of_lt_of_le (hs l hl) (Nat.le_add_right _ _)
  · exact hseg l hl

theorem unplaced_push (hl : l ∉ labels s.fn.code) (hseg : l ∉ labels seg) :
    l ∉ labels (s.push seg n m).fn.code := by
  rw [push_code, labels_append, List.mem_append]
  exact not_or.2 ⟨hl, hseg⟩

theorem pre_push (s : Lowering) (seg : List Insn) (n m : Nat) :
    s.fn.code <+: (s.push seg n m).fn.code :=
  List.prefix_append _ _

theorem ifThen_lowered {x : Stmt} (h : lowerStmt (.ifThen test x) s = .ok ((), s')) (hs : Fresh s)
    (ih : ∀ s s', lowerStmt x s = .ok ((), s') → Fresh s → ∃ a, StmtLowered x.prog s s' a) :
    ∃ a, StmtLowered (Stmt.ifThen test x).prog s s' a := by
  simp only [lowerStmt, emitLabel, bind_eq_ok, newLabel_eq_ok, emit_eq_ok] at h
  obtain ⟨_, _, ⟨rfl, rfl⟩, _, _, ⟨rfl, rfl⟩, _, _, ⟨rfl, rfl⟩, _, s1, h1, _, _, rfl, _, s2, h2,
    rfl⟩ := h
  simp only [push_push, push_nlabels, List.append_nil, Nat.add_zero] at h1 h2 ⊢
  have hc := grows_cond h1
  have hx := grows_stmt h2
  have hle := hc.nlabels
  simp only [push_nlabels] at hle
  have hs0 : Fresh (s.push [] 0 3) := hs.push_nil 0 3
  have hnew (j : Nat) (hj : j < 3) : s.fn.nlabels + j ∉ labels s1.fn.code := by
    refine hc.unplaced (by simp; omega) ?_
    exact unplaced_push (hs.unplaced (Nat.le_add_right _ _)) (by simp)
  obtain ⟨c, hc'⟩ := lowerCond_lowered _ rfl h1 hs0 (by simp) (by simp)
  obtain ⟨a, ha⟩ := ih _ _ h2 (fresh_push (hc.fresh hs0) (by simp [Insn.labelled]; omega))
  have hlen := hc.len
  have hlen' := hx.len
  rw [push_len] at hlen hlen'
  simp only [List.length_nil, List.length_singleton, Nat.add_zero] at hlen hlen'
  refine ⟨.ifThen c a, ?_, ?_, ?_⟩
  · rw [Prog.map, hc'.expr, ha.prog, Stmt.prog]
  · intro y hy
    rcases List.mem_append.1 hy with hy | hy
    · exact (hc'.lowered y hy).mono ((pre_push _ _ _ _).trans (hx.pre.trans (pre_push _ _ _ _)))
    · exact (ha.lowered y hy).mono (pre_push _ _ _ _)
  · intro E L calls code lo hi hcode hlo hhi
    rw [push_len] at hhi ⊢
    simp only [List.length_singleton] at hhi ⊢
    have hmid := (pre_push s2 _ 0 0).trans hcode
    have hfirst := hx.pre.trans hmid
    have hltrue := label_at hfirst (hnew 0 (by omega))
    have hlfalse := label_at hcode (hx.unplaced (by simp; omega)
      (unplaced_push (hnew 1 (by omega)) (by simp [Insn.labelled])))
    have hcond := hc'.runs L calls code lo hi _ _ ((pre_push _ _ _ _).trans hfirst)
      (by rw [push_len]; exact hlo) (by omega) hltrue hlfalse
    have hbody := ha.runs L calls code lo hi hmid (by rw [push_len]; omega) (by omega)
    rw [push_len] at hcond hbody
    rw [show (s1.push [{ op := .label, label := some s.fn.nlabels }] 0 0).loops = s.loops from
      hc.loops] at hbody
    have hin : Goes L calls code lo hi s1.len (s1.len + 1) :=
      .label (insn_at hfirst) (by omega) (by omega)
    have hend : Goes L calls code lo hi s2.len (s2.len + 1) :=
      .label (insn_at hcode) (by omega) (by omega)
    exact .ifThen hcond (.before hin (hbody.after hend)) hend

theorem ifElse_lowered {x y : Stmt} (h : lowerStmt (.ifElse test x y) s = .ok ((), s'))
    (hs : Fresh s)
    (ihx : ∀ s s', lowerStmt x s = .ok ((), s') → Fresh s → ∃ a, StmtLowered x.prog s s' a)
    (ihy : ∀ s s', lowerStmt y s = .ok ((), s') → Fresh s → ∃ a, StmtLowered y.prog s s' a) :
    ∃ a, StmtLowered (Stmt.ifElse test x y).prog s s' a := by
  simp only [lowerStmt, emitLabel, emitJmp, bind_eq_ok, newLabel_eq_ok, emit_eq_ok] at h
  obtain ⟨_, _, ⟨rfl, rfl⟩, _, _, ⟨rfl, rfl⟩, _, _, ⟨rfl, rfl⟩, _, s1, h1, _, _, rfl, _, s2, h2,
    _, _, rfl, _, _, rfl, _, s3, h3, rfl⟩ := h
  simp only [push_push, push_nlabels, List.append_nil, Nat.add_zero,
    Nat.reduceAdd] at h1 h2 h3 ⊢
  have hc := grows_cond h1
  have hx := grows_stmt h2
  have hy := grows_stmt h3
  have hle := hc.nlabels
  have hle' := hx.nlabels
  simp only [push_nlabels] at hle hle'
  have hs0 : Fresh (s.push [] 0 3) := hs.push_nil 0 3
  have hnew (j : Nat) (hj : j < 3) : s.fn.nlabels + j ∉ labels s1.fn.code := by
    refine hc.unplaced (by simp; omega) ?_
    exact unplaced_push (hs.unplaced (Nat.le_add_right _ _)) (by simp)
  have hnew' (j : Nat) (hj : 0 < j) (hj' : j < 3) : s.fn.nlabels + j ∉ labels s2.fn.code := by
    refine hx.unplaced (by simp; omega) (unplaced_push (hnew j hj') ?_)
    simp [Insn.labelled]
    omega
  obtain ⟨c, hc'⟩ := lowerCond_lowered _ rfl h1 hs0 (by simp) (by simp)
  have hs1 : Fresh (s1.push [{ op := .label, label := some s.fn.nlabels }] 0 0) :=
    fresh_push (hc.fresh hs0) (by simp [Insn.labelled]; omega)
  obtain ⟨a, ha⟩ := ihx _ _ h2 hs1
  obtain ⟨b, hb⟩ := ihy _ _ h3 (fresh_push (hx.fresh hs1) (by simp [Insn.labelled]; omega))
  have hlen := hc.len
  have hlen' := hx.len
  have hlen'' := hy.len
  rw [push_len] at hlen hlen' hlen''
  simp only [List.length_nil, List.length_singleton, List.length_append, Nat.add_zero,
    Nat.reduceAdd] at hlen hlen' hlen''
  refine ⟨.ifElse c a b, ?_, ?_, ?_⟩
  · rw [Prog.map, hc'.expr, ha.prog, hb.prog, Stmt.prog]
  · intro z hz
    have hpre := (pre_push s2 _ 0 0).trans hy.pre
    rcases List.mem_append.1 hz with hz | hz
    · rcases List.mem_append.1 hz with hz | hz
      · exact (hc'.lowered z hz).mono
          ((pre_push _ _ _ _).trans (hx.pre.trans (hpre.trans (pre_push _ _ _ _))))
      · exact (ha.lowered z hz).mono (hpre.trans (pre_push _ _ _ _))
    · exact (hb.lowered z hz).mono (pre_push _ _ _ _)
  · intro E L calls code lo hi hcode hlo hhi
    rw [push_len] at hhi ⊢
    simp only [List.length_singleton] at hhi ⊢
    have hthird := (pre_push s3 _ 0 0).trans hcode
    have hsecond := hy.pre.trans hthird
    have hfirst := hx.pre.trans ((pre_push s2 _ 0 0).trans hsecond)
    have hltrue := label_at hfirst (hnew 0 (by omega))
    have hlfalse := label_in (k := 1) hsecond (hnew' 1 (by omega) (by omega))
      (by simp [findLabel, isLabel])
    have hlend := label_at hcode (hy.unplaced (by simp; omega)
      (unplaced_push (hnew' 2 (by omega) (by omega)) (by simp [Insn.labelled])))
    have hcond := hc'.runs L calls code lo hi _ _ ((pre_push _ _ _ _).trans hfirst)
      (by rw [push_len]; exact hlo) (by omega) hltrue hlfalse
    have hthen := ha.runs L calls code lo hi ((pre_push _ _ _ _).trans hsecond)
      (by rw [push_len]; omega) (by omega)
    have helse := hb.runs L calls code lo hi hthird (by rw [push_len]; omega) (by omega)
    rw [push_len] at hcond hthen helse
    rw [show (s1.push [{ op := .label, label := some s.fn.nlabels }] 0 0).loops = s.loops from
      hc.loops] at hthen
    rw [show (s2.push ([{ op := .jmp, label := some (s.fn.nlabels + 2) }] ++
      [{ op := .label, label := some (s.fn.nlabels + 1) }]) 0 0).loops = s.loops from
      hx.loops.trans hc.loops] at helse
    have hin : Goes L calls code lo hi s1.len (s1.len + 1) :=
      .label (insn_at hfirst) (by omega) (by omega)
    have hin' : Goes L calls code lo hi (s2.len + 1) (s2.len + 2) :=
      .label (insn_in (k := 1) hsecond rfl) (by omega) (by omega)
    have hend : Goes L calls code lo hi s3.len (s3.len + 1) :=
      .label (insn_at hcode) (by omega) (by omega)
    have hjmp : Goes L calls code lo hi s2.len s3.len :=
      .jmp (insn_in (k := 0) hsecond rfl) (by omega) (by omega) hlend
    exact .ifElse hcond (.before hin (hthen.after (hjmp.trans hend)))
      (.before hin' (helse.after hend))

theorem loopTest_lowered {lbrk : Nat} (h : loopTest test lbrk s = .ok ((), s')) (hs : Fresh s)
    (hlbrk : lbrk < s.fn.nlabels) :
    ∃ c : Option (Guard Leaf),
      c.map (Guard.map Leaf.expr) = (if test.forever then none else some test.cond) ∧
      (∀ x ∈ c.elim [] Guard.leaves, x.LoweredIn s') ∧
      ∀ {E : Type} (L : Layout) (calls : Calls E) (code : List Insn) (lo hi qb : Nat),
        s'.fn.code <+: code → lo ≤ s.len → s'.len ≤ hi → findLabel lbrk code = some qb →
        ∃ qt, TestAt L calls code lo hi s.len c qt qb ∧ Goes L calls code lo hi qt s'.len := by
  unfold loopTest at h
  by_cases hforever : test.forever = true
  · rw [if_pos hforever] at h
    obtain ⟨-, rfl⟩ := pure_eq_ok.1 h
    refine ⟨none, by rw [if_pos hforever]; rfl, by simp, ?_⟩
    intro E L calls code lo hi qb _ _ _ _
    exact ⟨_, .none _ _, .refl _⟩
  · rw [if_neg hforever] at h
    simp only [emitLabel, bind_eq_ok, newLabel_eq_ok, emit_eq_ok] at h
    obtain ⟨_, _, ⟨rfl, rfl⟩, _, s1, h1, rfl⟩ := h
    have hc := grows_cond h1
    have hs0 : Fresh (s.push [] 0 1) := hs.push_nil 0 1
    have hle := hc.nlabels
    have hlen := hc.len
    rw [push_nlabels] at hle
    rw [push_len] at hlen
    obtain ⟨c, hc'⟩ := lowerCond_lowered _ rfl h1 hs0 (by simp) (by simp; omega)
    refine ⟨some c, ?_, fun x hx => (hc'.lowered x hx).mono (pre_push _ _ _ _), ?_⟩
    · rw [if_neg hforever, Option.map_some, hc'.expr]
    · intro E L calls code lo hi qb hcode hlo hhi hqb
      rw [push_len] at hhi ⊢
      simp only [List.length_singleton] at hhi ⊢
      have hunplaced : s.fn.nlabels ∉ labels s1.fn.code :=
        hc.unplaced (by simp) (unplaced_push (hs.unplaced (Nat.le_refl _)) (by simp))
      have hcond := hc'.runs L calls code lo hi _ _ ((pre_push _ _ _ _).trans hcode)
        (by rw [push_len]; exact hlo) (by omega) (label_at hcode hunplaced) hqb
      rw [push_len] at hcond
      simp only [List.length_nil, Nat.add_zero] at hlen
      exact ⟨s1.len, hcond.testAt, .label (insn_at hcode) (by omega) (by omega)⟩

theorem inLoop_eq_ok {x : LowerM Unit} (h : inLoop lp x s = .ok ((), s')) :
    ∃ s1, x { s with loops := lp :: s.loops } = .ok ((), s1) ∧
      s' = { s1 with loops := s1.loops.tail } := by
  unfold inLoop at h
  rw [get_bind] at h
  split at h
  · cases h
  · rw [set_bind] at h
    obtain ⟨_, s1, h1, h2⟩ := bind_eq_ok.1 h
    cases h2
    exact ⟨s1, h1, rfl⟩

theorem loop_lowered {x : Stmt} (h : lowerStmt (.loop test x) s = .ok ((), s')) (hs : Fresh s)
    (ih : ∀ s s', lowerStmt x s = .ok ((), s') → Fresh s → ∃ a, StmtLowered x.prog s s' a) :
    ∃ a, StmtLowered (Stmt.loop test x).prog s s' a := by
  simp only [lowerStmt, emitLabel, emitJmp, bind_eq_ok, newLabel_eq_ok, emit_eq_ok] at h
  obtain ⟨_, _, ⟨rfl, rfl⟩, _, _, ⟨rfl, rfl⟩, _, _, rfl, _, s1, h1, _, s2, h2, _, _, rfl,
    rfl⟩ := h
  simp only [push_push, push_nlabels, List.nil_append, Nat.add_zero, Nat.reduceAdd] at h1 h2 ⊢
  obtain ⟨s3, h3, rfl⟩ := inLoop_eq_ok h2
  have hs0 : Fresh (s.push [{ op := .label, label := some s.fn.nlabels }] 0 2) :=
    fresh_push hs (by simp [Insn.labelled])
  have hc : Grows _ _ s1 := loopTest_ownLabels test.confined _ _ _ _ h1
  have hx := grows_stmt h3
  have hle := hc.nlabels
  have hlen := hc.len
  have hlen' := hx.len
  simp only [push_nlabels] at hle
  rw [push_len, List.length_singleton] at hlen
  change s1.len ≤ s3.len at hlen'
  obtain ⟨c, hprog, hleaves, hc'⟩ := loopTest_lowered h1 hs0 (by simp)
  obtain ⟨a, ha⟩ := ih _ _ h3 (hc.fresh hs0)
  have hpre : s1.fn.code <+: s3.fn.code := hx.pre
  refine ⟨.loop c a, ?_, ?_, ?_⟩
  · rw [Prog.map, hprog, ha.prog, Stmt.prog]
  · intro y hy
    rcases List.mem_append.1 hy with hy | hy
    · exact (hleaves y hy).mono (hpre.trans (List.prefix_append _ _))
    · exact (ha.lowered y hy).mono (List.prefix_append _ _)
  · intro E L calls code lo hi hcode hlo hhi
    rw [push_len] at hhi ⊢
    simp only [List.length_append, List.length_singleton, Nat.reduceAdd] at hhi ⊢
    change s3.len + 2 ≤ hi at hhi
    have hthird : s3.fn.code <+: code := (List.prefix_append _ _).trans hcode
    have hsecond := hpre.trans hthird
    have hfirst := hc.pre.trans hsecond
    have hltop := label_at hfirst (hs.unplaced (Nat.le_refl _))
    have hnew : s.fn.nlabels + 1 ∉ labels s3.fn.code := by
      refine hx.unplaced (show s.fn.nlabels + 1 < s1.fn.nlabels by omega)
        (hc.unplaced (by simp) ?_)
      exact unplaced_push (hs.unplaced (Nat.le_succ _)) (by simp [Insn.labelled])
    have hlbrk := label_in (k := 1) hcode hnew (by simp [findLabel, isLabel])
    obtain ⟨qt, htest, hin⟩ := hc' L calls code lo hi _ hsecond (by rw [push_len]; omega) (by omega)
      hlbrk
    have hbody := ha.runs L calls code lo hi hthird (show lo ≤ s1.len by omega)
      (show s3.len ≤ hi by omega)
    rw [push_len] at htest
    have hjmp : Goes L calls code lo hi s3.len s.len :=
      .jmp (insn_in (k := 0) hcode rfl) (by omega) (by omega) hltop
    have hend : Goes L calls code lo hi (s3.len + 1) (s3.len + 2) :=
      .label (insn_in (k := 1) hcode rfl) (by omega) (by omega)
    have htop : code[s.len]? =
        some { op := .label, label := some (Loop.mk (s.fn.nlabels + 1) s.fn.nlabels).cont } :=
      insn_at hfirst
    exact .loop htop (by omega) (by omega) hltop hlbrk htest (.before hin (hbody.after hjmp)) hend

theorem skip_lowered (s : Lowering) : StmtLowered .skip s s .skip where
  prog := rfl
  lowered _ hx := absurd hx List.not_mem_nil
  runs _ _ _ _ _ _ _ _ := .skip _

theorem exprStmt_lowered (h : lowerStmt (.exprStmt e) s = .ok ((), s')) (hs : Fresh s) :
    ∃ a, StmtLowered (Stmt.exprStmt e).prog s s' a := by
  simp only [lowerStmt, bind_eq_ok, pure_eq_ok] at h
  obtain ⟨v, _, h, -, rfl⟩ := h
  refine ⟨.expr (leafOf e s s' v), rfl, fun x hx => ?_, fun L calls code lo hi hcode hlo hhi => ?_⟩
  · rw [List.mem_singleton.1 hx]
    exact leafOf_loweredIn h
  · exact .expr fun d => leaf_behaves h hs hcode hlo hhi

theorem retv_lowered (h : lowerStmt (.retv e) s = .ok ((), s')) (hs : Fresh s) :
    ∃ a, StmtLowered (Stmt.retv e).prog s s' a := by
  simp only [lowerStmt, bind_eq_ok, emit_eq_ok] at h
  obtain ⟨v, s1, h, rfl⟩ := h
  refine ⟨.ret s1.len (some (leafOf e s s1 v)), rfl, fun x hx => ?_,
    fun L calls code lo hi hcode hlo hhi => ?_⟩
  · rw [List.mem_singleton.1 hx]
    exact (leafOf_loweredIn h).mono (pre_push _ _ _ _)
  · rw [push_len] at hhi
    exact .retv (fun d => leaf_behaves h hs ((pre_push _ _ _ _).trans hcode) hlo
      ((Nat.le_add_right _ _).trans hhi)) (insn_at hcode)

theorem ret_lowered (h : lowerStmt .ret s = .ok ((), s')) :
    ∃ a, StmtLowered Stmt.ret.prog s s' a := by
  simp only [lowerStmt, emit_eq_ok] at h
  subst h
  refine ⟨.ret s.len none, rfl, fun x hx => absurd hx List.not_mem_nil,
    fun L calls code lo hi hcode _ _ => .ret (insn_at hcode)⟩

theorem brk_lowered {line : Nat} (h : lowerStmt (.brk line) s = .ok ((), s')) :
    ∃ a, StmtLowered (Stmt.brk line).prog s s' a := by
  rw [lowerStmt, get_bind] at h
  cases hloops : s.loops with
  | nil =>
    rw [hloops] at h
    cases h
  | cons lp loops =>
    rw [hloops] at h
    obtain rfl := emit_eq_ok.1 h
    refine ⟨.brk, rfl, fun x hx => absurd hx List.not_mem_nil, ?_⟩
    intro E L calls code lo hi hcode hlo hhi
    rw [push_len] at hhi
    rw [hloops]
    exact .brk (insn_at hcode) hlo (Nat.lt_of_lt_of_le (Nat.lt_succ_self _) hhi)

theorem cont_lowered {line : Nat} (h : lowerStmt (.cont line) s = .ok ((), s')) :
    ∃ a, StmtLowered (Stmt.cont line).prog s s' a := by
  rw [lowerStmt, get_bind] at h
  cases hloops : s.loops with
  | nil =>
    rw [hloops] at h
    cases h
  | cons lp loops =>
    rw [hloops] at h
    obtain rfl := emit_eq_ok.1 h
    refine ⟨.cont, rfl, fun x hx => absurd hx List.not_mem_nil, ?_⟩
    intro E L calls code lo hi hcode hlo hhi
    rw [push_len] at hhi
    rw [hloops]
    exact .cont (insn_at hcode) hlo (Nat.lt_of_lt_of_le (Nat.lt_succ_self _) hhi)

theorem StmtLowered.seq {p p' : Prog Expr Unit} {a b : Prog Leaf Nat}
    (ha : StmtLowered p s s1 a) (hb : StmtLowered p' s1 s' b) (h : Grows k s s1)
    (h' : Grows l s1 s') : StmtLowered (.seq p p') s s' (.seq a b) where
  prog := by rw [Prog.map, ha.prog, hb.prog]
  lowered x hx := (List.mem_append.1 hx).elim (fun hx => (ha.lowered x hx).mono h'.pre)
    (hb.lowered x)
  runs L calls code lo hi hcode hlo hhi := by
    have hlen := h.len
    have hlen' := h'.len
    have hfirst := ha.runs L calls code lo hi (h'.pre.trans hcode) hlo (by omega)
    have hnext := hb.runs L calls code lo hi hcode (by omega) hhi
    rw [h.loops] at hnext
    exact hfirst.seq hnext

mutual

theorem lowerStmt_lowered : (n : Stmt) → ∀ s s', lowerStmt n s = .ok ((), s') → Fresh s →
    ∃ a, StmtLowered n.prog s s' a
  | .block _ body, s, s', h, hs => lowerStmts_lowered body s s' h hs
  | .exprStmt _, _, _, h, hs => exprStmt_lowered h hs
  | .empty, s, s', h, _ => by
    obtain ⟨-, rfl⟩ := pure_eq_ok.1 h
    exact ⟨.skip, skip_lowered _⟩
  | .ifThen _ x, _, _, h, hs => ifThen_lowered h hs (lowerStmt_lowered x)
  | .ifElse _ x y, _, _, h, hs => ifElse_lowered h hs (lowerStmt_lowered x) (lowerStmt_lowered y)
  | .loop _ x, _, _, h, hs => loop_lowered h hs (lowerStmt_lowered x)
  | .brk _, _, _, h, _ => brk_lowered h
  | .cont _, _, _, h, _ => cont_lowered h
  | .ret, _, _, h, _ => ret_lowered h
  | .retv _, _, _, h, hs => retv_lowered h hs

theorem lowerStmts_lowered : (n : Stmts) → ∀ s s', lowerStmts n s = .ok ((), s') → Fresh s →
    ∃ a, StmtLowered n.prog s s' a
  | .nil, s, s', h, _ => by
    obtain ⟨-, rfl⟩ := pure_eq_ok.1 h
    exact ⟨.skip, skip_lowered _⟩
  | .cons x next, s, s', h, hs => by
    obtain ⟨_, s1, h1, h2⟩ := bind_eq_ok.1 h
    have hx := grows_stmt h1
    obtain ⟨a, ha⟩ := lowerStmt_lowered x s s1 h1 hs
    obtain ⟨b, hb⟩ := lowerStmts_lowered next s1 s' h2 (hx.fresh hs)
    exact ⟨.seq a b, ha.seq hb hx (grows_stmts h2)⟩

end

/-! ## From outside -/

/-- A state in the middle of a function: all labels were asked for before they were used. -/
structure Ready (s : Lowering) : Prop where
  fresh : Fresh s
  loops : ∀ lp, s.loops.head? = some lp → lp.brk < s.fn.nlabels ∧ lp.cont < s.fn.nlabels

theorem finish_ownLabels : OwnLabels finish := by
  refine .get fun s => ?_
  split
  · exact .pure _
  · exact .bind (lowerConst_confined 0) fun _ =>
      .emit (fun _ _ => trivial) (fun _ => trivial) rfl

theorem lowerFunction_ready {f : FuncDecl} {fn : Func} (h : lowerFunction f s = .ok (fn, s')) :
    ∃ s0 s1, Ready s0 ∧ lowerStmt (.block f.decls f.body) s0 = .ok ((), s1) ∧
      s1.fn.code <+: fn.code := by
  obtain ⟨s1, s2, s3, hfn, hloops, hbody, hfinish, hcode, -⟩ := lowerFunction_eq_ok h
  obtain ⟨seg, hseg⟩ := finish_ownLabels _ _ _ hfinish
  refine ⟨_, s2, ⟨fun l hl => ?_, fun lp hlp => ?_⟩, hbody, ?_⟩
  · rw [push_code, hfn] at hl
    simp [irNewFunc, Insn.labelled] at hl
  · have hnone : none = some lp := (congrArg List.head? hloops).symm.trans hlp
    cases hnone
  · rw [hcode]
    exact hseg.pre.trans (List.prefix_append _ _)

variable {E : Type} {L : Layout} {calls : Calls E} {code : List Insn} {a : Prog Leaf Nat}
  {o : Prog.Exit Leaf Nat} {d : Cells} {u : Vm}

theorem Lands.outside (h : Lands code s'.len s.loops.head? o d u) (hs : Ready s)
    (hg : Grows s.fn.nlabels s s') (hcode : s'.fn.code <+: code) :
    ¬ Inside code s.len s'.len u := by
  obtain ⟨seg, hseg⟩ := hg
  rintro ⟨hlo, hhi, hret⟩
  cases o with
  | normal =>
    obtain rfl : u = _ := h
    exact absurd hhi (Nat.lt_irrefl _)
  | brk =>
    obtain ⟨lp, hlp, p, hp, rfl⟩ := h
    exact hseg.outside (hs.loops lp hlp).1 hcode hp ⟨hlo, hhi⟩
  | cont =>
    obtain ⟨lp, hlp, p, hp, rfl⟩ := h
    exact hseg.outside (hs.loops lp hlp).2 hcode hp ⟨hlo, hhi⟩
  | ret p x =>
    cases x with
    | none =>
      obtain ⟨hp, rfl⟩ := h
      exact hret _ hp (.inl rfl)
    | some x =>
      obtain ⟨hp, rfl⟩ := h
      exact hret _ hp (.inr rfl)

/-- Lowered conditions and statements run as C says, with the operands from left to right and each
at most once; and so does what has not ended.  The body of every function is lowered as one such
statement. -/
theorem lowered_runs_as_c :
    (∀ (e : Expr) (ltrue lfalse : Nat) (s s' : Lowering), Fresh s → ltrue < s.fn.nlabels →
      lfalse < s.fn.nlabels → lowerCond e ltrue lfalse s = .ok ((), s') →
      ∃ c : Guard Leaf, c.map Leaf.expr = e.cond ∧ (∀ x ∈ c.leaves, x.LoweredIn s') ∧
        ∀ {E : Type} (L : Layout) (calls : Calls E) (code : List Insn) (qt qf : Nat) (d : Cells),
          s'.fn.code <+: code → findLabel ltrue code = some qt → findLabel lfalse code = some qf →
          (∀ es u, Leaves (CallStep L calls code) (Inside code s.len s'.len) (vm s.len d) es u ↔
            ∃ tr v d', c.Eval (Leaf.Runs L calls code) Leaf.truth d tr v d' ∧
              (tr.map Prod.fst).Sublist c.leaves ∧ es = Guard.events tr ∧
              u = vm (if v then qt else qf) d') ∧
          ∀ es, Traces (CallStep L calls code) (Inside code s.len s'.len) (vm s.len d) es ↔
            c.Begun (Leaf.Runs L calls code) (Leaf.Begins L calls code) Leaf.truth d es) ∧
    (∀ (e : Expr) (v : Val) (s s' : Lowering), Fresh s →
      lowerShortcircuit (lowerCond e) s = .ok (v, s') →
      ∃ c : Guard Leaf, c.map Leaf.expr = e.cond ∧ (∀ x ∈ c.leaves, x.LoweredIn s') ∧
        ∀ {E : Type} (L : Layout) (calls : Calls E) (code : List Insn) (d : Cells),
          s'.fn.code <+: code →
          (∀ es u, Leaves (CallStep L calls code) (Inside code s.len s'.len) (vm s.len d) es u ↔
            ∃ tr w d', c.Eval (Leaf.Runs L calls code) Leaf.truth d tr w d' ∧
              (tr.map Prod.fst).Sublist c.leaves ∧ es = Guard.events tr ∧
              u = vm s'.len (Function.update d'.1 v.temp (if w then 1 else 0), d'.2)) ∧
          ∀ es, Traces (CallStep L calls code) (Inside code s.len s'.len) (vm s.len d) es ↔
            c.Begun (Leaf.Runs L calls code) (Leaf.Begins L calls code) Leaf.truth d es) ∧
    (∀ (n : Stmt) (s s' : Lowering), Ready s → lowerStmt n s = .ok ((), s') →
      ∃ a : Prog Leaf Nat, a.map Leaf.expr (fun _ => ()) = n.prog ∧
        (∀ x ∈ a.leaves, x.LoweredIn s') ∧
        ∀ {E : Type} (L : Layout) (calls : Calls E) (code : List Insn) (d : Cells),
          s'.fn.code <+: code →
          (∀ es u, Leaves (CallStep L calls code) (Inside code s.len s'.len) (vm s.len d) es u ↔
            ∃ o d', a.Run (Leaf.Runs L calls code) Leaf.truth d es o d' ∧
              Lands code s'.len s.loops.head? o d' u) ∧
          ∀ es, Traces (CallStep L calls code) (Inside code s.len s'.len) (vm s.len d) es ↔
            a.Begun (Leaf.Runs L calls code) (Leaf.Begins L calls code) Leaf.truth d es) ∧
    ∀ (f : FuncDecl) (fn : Func) (s s' : Lowering), lowerFunction f s = .ok (fn, s') →
      ∃ s0 s1, Ready s0 ∧ lowerStmt (.block f.decls f.body) s0 = .ok ((), s1) ∧
        s1.fn.code <+: fn.code := by
  refine ⟨?_, ?_, ?_, fun f fn s s' h => lowerFunction_ready h⟩
  · intro e ltrue lfalse s s' hs htrue hfalse h
    obtain ⟨c, hc⟩ := lowerCond_lowered _ rfl h hs htrue hfalse
    obtain ⟨seg, hseg⟩ := lowerCond_emits h
    refine ⟨c, hc.expr, hc.lowered, fun {E} L calls code qt qf d hcode hqt hqf => ?_⟩
    have hruns := hc.runs L calls code s.len s'.len qt qf hcode (Nat.le_refl _) (Nat.le_refl _) hqt
      hqf d
    -- both labels are older than the code
    have hout (v : Bool) (d' : Cells) :
        ¬ Inside code s.len s'.len (vm (if v then qt else qf) d') := by
      cases v with
      | false => exact fun hin => hseg.outside hfalse hcode hqf ⟨hin.1, hin.2.1⟩
      | true => exact fun hin => hseg.outside htrue hcode hqt ⟨hin.1, hin.2.1⟩
    refine ⟨fun es u => (hruns.leaves_iff ?_).trans ?_, fun es => hruns.traces_iff ?_ ?_⟩
    · rintro _ _ ⟨tr, v, d', -, -, rfl⟩
      exact hout v d'
    · constructor
      · rintro ⟨tr, v, d', heval, hes, hu⟩
        exact ⟨tr, v, d', heval, heval.sublist, hes, hu⟩
      · rintro ⟨tr, v, d', heval, -, hes, hu⟩
        exact ⟨tr, v, d', heval, hes, hu⟩
    · rintro _ _ ⟨tr, v, d', -, -, rfl⟩
      exact hout v d'
    · rintro _ _ ⟨tr, v, d', heval, rfl, -⟩
      exact heval.begun fun _ _ _ _ h => h.begins
  · intro e v s s' hs h
    obtain ⟨c, hc⟩ := lowerShortcircuit_lowered h hs
    refine ⟨c, hc.expr, hc.lowered, fun {E} L calls code d hcode => ?_⟩
    have hruns := hc.runs L calls code s.len s'.len hcode (Nat.le_refl _) (Nat.le_refl _) d
    have hout (d' : Cells) : ¬ Inside code s.len s'.len (vm s'.len d') := fun hin =>
      absurd hin.2.1 (Nat.lt_irrefl _)
    refine ⟨fun es u => (hruns.leaves_iff ?_).trans ?_, fun es => hruns.traces_iff ?_ ?_⟩
    · rintro _ _ ⟨tr, w, d', -, -, rfl⟩
      exact hout _
    · constructor
      · rintro ⟨tr, w, d', heval, hes, hu⟩
        exact ⟨tr, w, d', heval, heval.sublist, hes, hu⟩
      · rintro ⟨tr, w, d', heval, -, hes, hu⟩
        exact ⟨tr, w, d', heval, hes, hu⟩
    · rintro _ _ ⟨tr, w, d', -, -, rfl⟩
      exact hout _
    · rintro _ _ ⟨tr, w, d', heval, rfl, -⟩
      exact heval.begun fun _ _ _ _ h => h.begins
  · intro n s s' hs h
    obtain ⟨a, ha⟩ := lowerStmt_lowered n s s' h hs.fresh
    refine ⟨a, ha.prog, ha.lowered, fun {E} L calls code d hcode => ?_⟩
    have hruns := ha.runs L calls code s.len s'.len hcode (Nat.le_refl _) (Nat.le_refl _) d
    refine ⟨fun es u => hruns.leaves_iff ?_, fun es => hruns.traces_iff ?_ ?_⟩
    · rintro _ _ ⟨o, d', -, hland⟩
      exact hland.outside hs (grows_stmt h) hcode
    · rintro _ _ ⟨o, d', -, hland⟩
      exact hland.outside hs (grows_stmt h) hcode
    · rintro _ _ ⟨o, d', hrun, -⟩
      exact hrun.begun fun _ _ _ _ h => h.begins

end Lowered

end MechanicalResearcher.PortableCompiler.Tinc
