import Mathlib.Data.List.Basic
import MechanicalResearcher.Lib.Behaviour

/-!
# Structured programs over opaque pieces

Conditions and statements as C has them, over pieces (the operands of a condition, the
expressions of a statement) of which only `run` and `begun` are known: `run x d es d'` evaluates
the piece `x` on the data `d` with the events `es`, and `begun x d es` is an evaluation that may
still go on.  `truth x d'` is whether the value that `x` left is not 0.
-/

namespace MechanicalResearcher.Lib.Structured

open Lib.Behaviour

variable {α β ρ σ D E : Type}

inductive Guard (α : Type)
  | leaf (x : α)
  | not (a : Guard α)
  | and (a b : Guard α)
  | or (a b : Guard α)

namespace Guard

/-- The operands from left to right. -/
def leaves : Guard α → List α
  | .leaf x => [x]
  | .not a => a.leaves
  | .and a b => a.leaves ++ b.leaves
  | .or a b => a.leaves ++ b.leaves

def map (f : α → β) : Guard α → Guard β
  | .leaf x => .leaf (f x)
  | .not a => .not (a.map f)
  | .and a b => .and (a.map f) (b.map f)
  | .or a b => .or (a.map f) (b.map f)

/-- The rules of `!`, `&&` and `||`: which operands are evaluated, in which order and with which
events, and whether the condition holds. -/
inductive Eval (run : α → D → List E → D → Prop) (truth : α → D → Bool) :
    Guard α → D → List (α × List E) → Bool → D → Prop
  | leaf {x : α} {d d' : D} {es : List E} : run x d es d' →
      Eval run truth (.leaf x) d [(x, es)] (truth x d') d'
  | not {a : Guard α} {d d' : D} {tr : List (α × List E)} {v : Bool} :
      Eval run truth a d tr v d' → Eval run truth (.not a) d tr (!v) d'
  | andFalse {a b : Guard α} {d d' : D} {tr : List (α × List E)} :
      Eval run truth a d tr false d' → Eval run truth (.and a b) d tr false d'
  | andTrue {a b : Guard α} {d d' d'' : D} {tr tr' : List (α × List E)} {v : Bool} :
      Eval run truth a d tr true d' → Eval run truth b d' tr' v d'' →
      Eval run truth (.and a b) d (tr ++ tr') v d''
  | orTrue {a b : Guard α} {d d' : D} {tr : List (α × List E)} :
      Eval run truth a d tr true d' → Eval run truth (.or a b) d tr true d'
  | orFalse {a b : Guard α} {d d' d'' : D} {tr tr' : List (α × List E)} {v : Bool} :
      Eval run truth a d tr false d' → Eval run truth b d' tr' v d'' →
      Eval run truth (.or a b) d (tr ++ tr') v d''

/-- The events of the operands, one operand after the other. -/
def events (tr : List (α × List E)) : List E := tr.flatMap Prod.snd

/-- The events of an evaluation that may still go on. -/
inductive Begun (run : α → D → List E → D → Prop) (begun : α → D → List E → Prop)
    (truth : α → D → Bool) : Guard α → D → List E → Prop
  | leaf {x : α} {d : D} {es : List E} : begun x d es → Begun run begun truth (.leaf x) d es
  | not {a : Guard α} {d : D} {es : List E} :
      Begun run begun truth a d es → Begun run begun truth (.not a) d es
  | and {a b : Guard α} {d : D} {es : List E} :
      Begun run begun truth a d es → Begun run begun truth (.and a b) d es
  | andTrue {a b : Guard α} {d d' : D} {tr : List (α × List E)} {es : List E} :
      Eval run truth a d tr true d' → Begun run begun truth b d' es →
      Begun run begun truth (.and a b) d (events tr ++ es)
  | or {a b : Guard α} {d : D} {es : List E} :
      Begun run begun truth a d es → Begun run begun truth (.or a b) d es
  | orFalse {a b : Guard α} {d d' : D} {tr : List (α × List E)} {es : List E} :
      Eval run truth a d tr false d' → Begun run begun truth b d' es →
      Begun run begun truth (.or a b) d (events tr ++ es)

theorem events_append (tr tr' : List (α × List E)) :
    events (tr ++ tr') = events tr ++ events tr' :=
  List.flatMap_append

theorem Eval.sublist {run : α → D → List E → D → Prop} {truth : α → D → Bool} {c : Guard α}
    {d d' : D} {tr : List (α × List E)} {v : Bool} (h : Eval run truth c d tr v d') :
    (tr.map Prod.fst).Sublist c.leaves := by
  induction h with
  | leaf _ => exact List.Sublist.refl _
  | not _ ih => exact ih
  | andFalse _ ih => exact ih.trans (List.sublist_append_left _ _)
  | andTrue _ _ iha ihb =>
    rw [List.map_append]
    exact iha.append ihb
  | orTrue _ ih => exact ih.trans (List.sublist_append_left _ _)
  | orFalse _ _ iha ihb =>
    rw [List.map_append]
    exact iha.append ihb

section Begun

variable {run : α → D → List E → D → Prop} {part : α → D → List E → Prop} {truth : α → D → Bool}

theorem Begun.nil (hnil : ∀ x d, part x d []) (c : Guard α) (d : D) :
    Begun run part truth c d [] := by
  induction c with
  | leaf x => exact .leaf (hnil x d)
  | not a ih => exact .not ih
  | and a b iha _ => exact .and iha
  | or a b iha _ => exact .or iha

theorem Eval.begun (hrun : ∀ x d es d', run x d es d' → part x d es) {c : Guard α} {d d' : D}
    {tr : List (α × List E)} {v : Bool} (h : Eval run truth c d tr v d') :
    Begun run part truth c d (events tr) := by
  induction h with
  | leaf h =>
    rw [events, List.flatMap_singleton]
    exact .leaf (hrun _ _ _ _ h)
  | not _ ih => exact .not ih
  | andFalse _ ih => exact .and ih
  | andTrue ha _ _ ihb =>
    rw [events_append]
    exact .andTrue ha ihb
  | orTrue _ ih => exact .or ih
  | orFalse ha _ _ ihb =>
    rw [events_append]
    exact .orFalse ha ihb

end Begun

end Guard

/-- A loop without a test is `none`; `r` tells the returns apart. -/
inductive Prog (α ρ : Type)
  | skip
  | expr (x : α)
  | seq (a b : Prog α ρ)
  | ifThen (c : Guard α) (a : Prog α ρ)
  | ifElse (c : Guard α) (a b : Prog α ρ)
  | loop (c : Option (Guard α)) (a : Prog α ρ)
  | brk
  | cont
  | ret (r : ρ) (x : Option α)

namespace Prog

def leaves : Prog α ρ → List α
  | .skip => []
  | .expr x => [x]
  | .seq a b => a.leaves ++ b.leaves
  | .ifThen c a => c.leaves ++ a.leaves
  | .ifElse c a b => c.leaves ++ a.leaves ++ b.leaves
  | .loop c a => (c.elim [] Guard.leaves) ++ a.leaves
  | .brk => []
  | .cont => []
  | .ret _ x => x.toList

def map (f : α → β) (g : ρ → σ) : Prog α ρ → Prog β σ
  | .skip => .skip
  | .expr x => .expr (f x)
  | .seq a b => .seq (a.map f g) (b.map f g)
  | .ifThen c a => .ifThen (c.map f) (a.map f g)
  | .ifElse c a b => .ifElse (c.map f) (a.map f g) (b.map f g)
  | .loop c a => .loop (c.map (Guard.map f)) (a.map f g)
  | .brk => .brk
  | .cont => .cont
  | .ret r x => .ret (g r) (x.map f)

/-- How a statement ends. -/
inductive Exit (α ρ : Type)
  | normal | brk | cont
  | ret (r : ρ) (x : Option α)

/-- The test of a loop. -/
inductive Test (run : α → D → List E → D → Prop) (truth : α → D → Bool) :
    Option (Guard α) → D → List E → Bool → D → Prop
  | always {d : D} : Test run truth none d [] true d
  | cond {c : Guard α} {d d' : D} {tr : List (α × List E)} {v : Bool} :
      c.Eval run truth d tr v d' → Test run truth (some c) d (Guard.events tr) v d'

inductive Run (run : α → D → List E → D → Prop) (truth : α → D → Bool) :
    Prog α ρ → D → List E → Exit α ρ → D → Prop
  | skip {d : D} : Run run truth .skip d [] .normal d
  | expr {x : α} {d d' : D} {es : List E} : run x d es d' →
      Run run truth (.expr x) d es .normal d'
  | seq {a b : Prog α ρ} {d d' d'' : D} {es es' : List E} {o : Exit α ρ} :
      Run run truth a d es .normal d' → Run run truth b d' es' o d'' →
      Run run truth (.seq a b) d (es ++ es') o d''
  | seqExit {a b : Prog α ρ} {d d' : D} {es : List E} {o : Exit α ρ} :
      Run run truth a d es o d' → o ≠ .normal → Run run truth (.seq a b) d es o d'
  | thenTrue {c : Guard α} {a : Prog α ρ} {d d' d'' : D} {tr : List (α × List E)} {es : List E}
      {o : Exit α ρ} : c.Eval run truth d tr true d' → Run run truth a d' es o d'' →
      Run run truth (.ifThen c a) d (Guard.events tr ++ es) o d''
  | thenFalse {c : Guard α} {a : Prog α ρ} {d d' : D} {tr : List (α × List E)} :
      c.Eval run truth d tr false d' → Run run truth (.ifThen c a) d (Guard.events tr) .normal d'
  | elseTrue {c : Guard α} {a b : Prog α ρ} {d d' d'' : D} {tr : List (α × List E)} {es : List E}
      {o : Exit α ρ} : c.Eval run truth d tr true d' → Run run truth a d' es o d'' →
      Run run truth (.ifElse c a b) d (Guard.events tr ++ es) o d''
  | elseFalse {c : Guard α} {a b : Prog α ρ} {d d' d'' : D} {tr : List (α × List E)} {es : List E}
      {o : Exit α ρ} : c.Eval run truth d tr false d' → Run run truth b d' es o d'' →
      Run run truth (.ifElse c a b) d (Guard.events tr ++ es) o d''
  | loopStop {c : Option (Guard α)} {a : Prog α ρ} {d d' : D} {es : List E} :
      Test run truth c d es false d' → Run run truth (.loop c a) d es .normal d'
  | loopBrk {c : Option (Guard α)} {a : Prog α ρ} {d d' d'' : D} {es es' : List E} :
      Test run truth c d es true d' → Run run truth a d' es' .brk d'' →
      Run run truth (.loop c a) d (es ++ es') .normal d''
  | loopRet {c : Option (Guard α)} {a : Prog α ρ} {d d' d'' : D} {es es' : List E} {r : ρ}
      {x : Option α} :
      Test run truth c d es true d' → Run run truth a d' es' (.ret r x) d'' →
      Run run truth (.loop c a) d (es ++ es') (.ret r x) d''
  | loopAgain {c : Option (Guard α)} {a : Prog α ρ} {d d1 d2 d' : D} {es1 es2 es3 : List E}
      {o o' : Exit α ρ} : Test run truth c d es1 true d1 → Run run truth a d1 es2 o d2 →
      o = .normal ∨ o = .cont → Run run truth (.loop c a) d2 es3 o' d' →
      Run run truth (.loop c a) d (es1 ++ es2 ++ es3) o' d'
  | brk {d : D} : Run run truth .brk d [] .brk d
  | cont {d : D} : Run run truth .cont d [] .cont d
  | ret {r : ρ} {d : D} : Run run truth (.ret r none) d [] (.ret r none) d
  | retv {r : ρ} {x : α} {d d' : D} {es : List E} : run x d es d' →
      Run run truth (.ret r (some x)) d es (.ret r (some x)) d'

/-- The events of a test that may still go on. -/
def TestBegun (run : α → D → List E → D → Prop) (begun : α → D → List E → Prop)
    (truth : α → D → Bool) : Option (Guard α) → D → List E → Prop
  | none, _, es => es = []
  | some c, d, es => c.Begun run begun truth d es

/-- The events of a run that may still go on. -/
inductive Begun (run : α → D → List E → D → Prop) (begun : α → D → List E → Prop)
    (truth : α → D → Bool) : Prog α ρ → D → List E → Prop
  | start {p : Prog α ρ} {d : D} : Begun run begun truth p d []
  | expr {x : α} {d : D} {es : List E} : begun x d es → Begun run begun truth (.expr x) d es
  | seq {a b : Prog α ρ} {d : D} {es : List E} :
      Begun run begun truth a d es → Begun run begun truth (.seq a b) d es
  | seqNext {a b : Prog α ρ} {d d' : D} {es es' : List E} : Run run truth a d es .normal d' →
      Begun run begun truth b d' es' → Begun run begun truth (.seq a b) d (es ++ es')
  | ifThen {c : Guard α} {a : Prog α ρ} {d : D} {es : List E} :
      c.Begun run begun truth d es → Begun run begun truth (.ifThen c a) d es
  | thenTrue {c : Guard α} {a : Prog α ρ} {d d' : D} {tr : List (α × List E)} {es : List E} :
      c.Eval run truth d tr true d' → Begun run begun truth a d' es →
      Begun run begun truth (.ifThen c a) d (Guard.events tr ++ es)
  | ifElse {c : Guard α} {a b : Prog α ρ} {d : D} {es : List E} :
      c.Begun run begun truth d es → Begun run begun truth (.ifElse c a b) d es
  | elseTrue {c : Guard α} {a b : Prog α ρ} {d d' : D} {tr : List (α × List E)} {es : List E} :
      c.Eval run truth d tr true d' → Begun run begun truth a d' es →
      Begun run begun truth (.ifElse c a b) d (Guard.events tr ++ es)
  | elseFalse {c : Guard α} {a b : Prog α ρ} {d d' : D} {tr : List (α × List E)} {es : List E} :
      c.Eval run truth d tr false d' → Begun run begun truth b d' es →
      Begun run begun truth (.ifElse c a b) d (Guard.events tr ++ es)
  | loop {c : Option (Guard α)} {a : Prog α ρ} {d : D} {es : List E} :
      TestBegun run begun truth c d es → Begun run begun truth (.loop c a) d es
  | loopBody {c : Option (Guard α)} {a : Prog α ρ} {d d' : D} {es es' : List E} :
      Test run truth c d es true d' → Begun run begun truth a d' es' →
      Begun run begun truth (.loop c a) d (es ++ es')
  | loopAgain {c : Option (Guard α)} {a : Prog α ρ} {d d1 d2 : D} {es1 es2 es3 : List E}
      {o : Exit α ρ} : Test run truth c d es1 true d1 → Run run truth a d1 es2 o d2 →
      o = .normal ∨ o = .cont → Begun run begun truth (.loop c a) d2 es3 →
      Begun run begun truth (.loop c a) d (es1 ++ es2 ++ es3)
  | retv {r : ρ} {x : α} {d : D} {es : List E} : begun x d es →
      Begun run begun truth (.ret r (some x)) d es

section Begun

variable {run : α → D → List E → D → Prop} {part : α → D → List E → Prop} {truth : α → D → Bool}
  {c : Option (Guard α)} {p : Prog α ρ} {d d' : D} {es : List E} {v : Bool} {o : Exit α ρ}

theorem TestBegun.nil (hnil : ∀ x d, part x d []) (c : Option (Guard α)) (d : D) :
    TestBegun run part truth c d [] := by
  cases c with
  | none => rfl
  | some c => exact Guard.Begun.nil hnil c d

theorem Test.begun (hrun : ∀ x d es d', run x d es d' → part x d es)
    (h : Test run truth c d es v d') : TestBegun run part truth c d es := by
  cases h with
  | always => rfl
  | cond h => exact h.begun hrun

theorem Run.begun (hrun : ∀ x d es d', run x d es d' → part x d es)
    (h : Run run truth p d es o d') : Begun run part truth p d es := by
  induction h with
  | skip | brk | cont | ret => exact .start
  | expr h => exact .expr (hrun _ _ _ _ h)
  | seq ha _ _ ihb => exact .seqNext ha ihb
  | seqExit _ _ ih => exact .seq ih
  | thenTrue hc _ ih => exact .thenTrue hc ih
  | thenFalse hc => exact .ifThen (hc.begun hrun)
  | elseTrue hc _ ih => exact .elseTrue hc ih
  | elseFalse hc _ ih => exact .elseFalse hc ih
  | loopStop ht => exact .loop (ht.begun hrun)
  | loopBrk ht _ ih => exact .loopBody ht ih
  | loopRet ht _ ih => exact .loopBody ht ih
  | loopAgain ht ha ho _ _ ih => exact .loopAgain ht ha ho ih
  | retv h => exact .retv (hrun _ _ _ _ h)

end Begun

/-! ### Loops, turn by turn -/

section Turns

variable (run : α → D → List E → D → Prop) (part : α → D → List E → Prop) (truth : α → D → Bool)
  (c : Option (Guard α)) (a : Prog α ρ)

/-- A turn that comes back to the test. -/
def Again (d : D) (es : List E) (d' : D) : Prop :=
  ∃ d1 es1 es2 o, Test run truth c d es1 true d1 ∧ Run run truth a d1 es2 o d' ∧
    (o = .normal ∨ o = .cont) ∧ es = es1 ++ es2

/-- A turn that ends the loop, and how the loop ends then. -/
def Leave (d : D) (es : List E) (i : Exit α ρ × D) : Prop :=
  (Test run truth c d es false i.2 ∧ i.1 = .normal) ∨
  ∃ d1 es1 es2, Test run truth c d es1 true d1 ∧ es = es1 ++ es2 ∧
    ((Run run truth a d1 es2 .brk i.2 ∧ i.1 = .normal) ∨
      ∃ r x, Run run truth a d1 es2 (.ret r x) i.2 ∧ i.1 = .ret r x)

/-- A turn that may still go on. -/
def InTurn (d : D) (es : List E) : Prop :=
  TestBegun run part truth c d es ∨ ∃ d1 es1 es2, Test run truth c d es1 true d1 ∧
    Begun run part truth a d1 es2 ∧ es = es1 ++ es2

variable {run part truth c a} {d d' : D} {es : List E} {o : Exit α ρ}

theorem run_loop_iff : Run run truth (.loop c a) d es o d' ↔
    Loop (Again run truth c a) (Leave run truth c a) d es (o, d') := by
  constructor
  · intro h
    generalize hp : Prog.loop c a = p at h
    induction h with
    | loopStop ht =>
      cases hp
      exact .stop (.inl ⟨ht, rfl⟩)
    | loopBrk ht ha _ =>
      cases hp
      exact .stop (.inr ⟨_, _, _, ht, rfl, .inl ⟨ha, rfl⟩⟩)
    | loopRet ht ha _ =>
      cases hp
      exact .stop (.inr ⟨_, _, _, ht, rfl, .inr ⟨_, _, ha, rfl⟩⟩)
    | loopAgain ht ha ho _ _ ih =>
      cases hp
      exact .turn ⟨_, _, _, _, ht, ha, ho, rfl⟩ (ih rfl)
    | skip | expr | seq | seqExit | thenTrue | thenFalse | elseTrue | elseFalse | brk | cont | ret
      | retv => cases hp
  · intro h
    generalize hi : (o, d') = i at h
    induction h with
    | stop h =>
      subst hi
      rcases h with ⟨ht, ho⟩ | ⟨d1, es1, es2, ht, rfl, ⟨ha, ho⟩ | ⟨r, x, ha, ho⟩⟩
      · obtain rfl : o = .normal := ho
        exact .loopStop ht
      · obtain rfl : o = .normal := ho
        exact .loopBrk ht ha
      · obtain rfl : o = .ret r x := ho
        exact .loopRet ht ha
    | turn hagain _ ih =>
      obtain ⟨d1, es1, es2, o', ht, ha, ho, rfl⟩ := hagain
      exact .loopAgain ht ha ho (ih hi)

theorem begun_loop_iff (hnil : ∀ x d, part x d []) : Begun run part truth (.loop c a) d es ↔
    Turning (Again run truth c a) (InTurn run part truth c a) d es := by
  constructor
  · intro h
    generalize hp : Prog.loop c a = p at h
    induction h with
    | start => exact .part (.inl (.nil hnil c _))
    | loop ht =>
      cases hp
      exact .part (.inl ht)
    | loopBody ht ha _ =>
      cases hp
      exact .part (.inr ⟨_, _, _, ht, ha, rfl⟩)
    | loopAgain ht ha ho _ ih =>
      cases hp
      exact .turn ⟨_, _, _, _, ht, ha, ho, rfl⟩ (ih rfl)
    | expr | seq | seqNext | ifThen | thenTrue | ifElse | elseTrue | elseFalse | retv => cases hp
  · intro h
    induction h with
    | part h =>
      rcases h with ht | ⟨d1, es1, es2, ht, ha, rfl⟩
      · exact .loop ht
      · exact .loopBody ht ha
    | turn hagain _ ih =>
      obtain ⟨d1, es1, es2, o, ht, ha, ho, rfl⟩ := hagain
      exact .loopAgain ht ha ho ih

end Turns

end Prog

end MechanicalResearcher.Lib.Structured
