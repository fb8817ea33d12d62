import Mathlib.Algebra.GroupWithZero.Nat
import MechanicalResearcher.PortableCompiler.SchemeWalk

/-!
# Totality of the lowering of TinScheme

The lowering follows the walk: it ends with its code where the walk comes to its end, with a
message where the walk meets a reported form, and with a read of a part that is not there where
the walk meets a malformed one.
-/

namespace MechanicalResearcher.PortableCompiler.Scheme

open Lib

variable {s' : Lowering} {globals : List String} {n : Nat}

variable {κ κ' α β γ δ : Type} {keep : Lowering → κ} {m : LowerM α} {f : α → LowerM β} {w w' : Walk}
  {s : Lowering} {k : String → Bool} {x y d : Datum}

/-- The lambdas that wait. -/
def queued (s : Lowering) : List Lambda := s.lifted.map fun l => (l.params, l.body)

/-- What a form leaves as it is. -/
def names (s : Lowering) : List Lsym × List Gsym := (s.lsyms, s.gsyms)

def known (s : Lowering) (name : String) : Bool :=
  (findLsym s name).isSome || (findGsym s name).isSome

theorem known_congr {s : Lowering} (h : names s' = names s) : known s' = known s := by
  have hlsyms : s'.lsyms = s.lsyms := congrArg Prod.fst h
  have hgsyms : s'.gsyms = s.gsyms := congrArg Prod.snd h
  funext name
  simp only [known, findLsym, findGsym, hlsyms, hgsyms]

/-! ## Following a walk -/

/-- The program ends as the walk does: with a result, of which `Q` holds, with a message, or with
a read of what is not there. -/
def Ends (m : LowerM α) (w : Except Halt γ) (s : Lowering) (Q : γ → α → Lowering → Prop) : Prop :=
  match w with
  | .ok c => ∃ a s', m s = .ok (a, s') ∧ Q c a s'
  | .error .reported => ∃ msg, m s = .error (.die msg)
  | .error .malformed => m s = .error .wild

/-- The program keeps `keep`, and lifts the lambdas of the walk. -/
def Follows (keep : Lowering → κ) (m : LowerM α) (w : Walk) (s : Lowering) : Prop :=
  Ends m w s fun ls _ s' => keep s' = keep s ∧ queued s' = queued s ++ ls

theorem bind_error {e : Fault} (h : m s = .error e) : (m >>= f) s = .error e := by
  rw [Evaluation.bind_apply, h]

namespace Ends

variable {v : Except Halt γ} {Q : γ → α → Lowering → Prop} {R : δ → β → Lowering → Prop}

theorem bind {g : γ → Except Halt δ} (hm : Ends m v s Q)
    (hf : ∀ c a s', Q c a s' → Ends (f a) (g c) s' R) : Ends (m >>= f) (v >>= g) s R := by
  cases v with
  | error h =>
    cases h with
    | reported =>
      obtain ⟨msg, hm⟩ := hm
      exact ⟨msg, bind_error hm⟩
    | malformed => exact bind_error hm
  | ok c =>
    obtain ⟨a, s', hm, hQ⟩ := hm
    have hrun : (m >>= f) s = f a s' := Evaluation.bind_ok f hm
    have hnext := hf c a s' hQ
    unfold Ends at hnext ⊢
    rw [hrun]
    exact hnext

theorem pure {c : γ} {a : α} (h : Q c a s) : Ends (Pure.pure a : LowerM α) (.ok c) s Q :=
  ⟨a, s, rfl, h⟩

theorem mono {Q' : γ → α → Lowering → Prop} (hm : Ends m v s Q)
    (hQ : ∀ c a s', Q c a s' → Q' c a s') : Ends m v s Q' := by
  cases v with
  | error h => cases h <;> exact hm
  | ok c =>
    obtain ⟨a, s', hm, h⟩ := hm
    exact ⟨a, s', hm, hQ c a s' h⟩

theorem result (hm : Ends m v s Q) : Ends m v s fun c a s' => v = .ok c ∧ Q c a s' := by
  cases v with
  | error h => cases h <;> exact hm
  | ok c =>
    obtain ⟨a, s', hm, h⟩ := hm
    exact ⟨a, s', hm, rfl, h⟩

theorem step {R : γ → β → Lowering → Prop} {a : α} (hm : m s = .ok (a, s')) (hf : Ends (f a) v s' R)
    : Ends (m >>= f) v s R := by
  unfold Ends at hf ⊢
  rw [Evaluation.bind_ok f hm]
  exact hf

theorem map {R : δ → α → Lowering → Prop} {g : γ → δ} (hm : Ends m v s Q)
    (hR : ∀ c a s', Q c a s' → R (g c) a s') : Ends m (v >>= fun c => Pure.pure (g c)) s R := by
  cases v with
  | error h => cases h <;> exact hm
  | ok c =>
    obtain ⟨a, s', hm, h⟩ := hm
    exact ⟨a, s', hm, hR c a s' h⟩

theorem last {R : γ → β → Lowering → Prop} (hm : Ends m v s Q)
    (hf : ∀ c a s', Q c a s' → ∃ b s'', f a s' = .ok (b, s'') ∧ R c b s'') :
    Ends (m >>= f) v s R := by
  cases v with
  | error h =>
    cases h with
    | reported =>
      obtain ⟨msg, hm⟩ := hm
      exact ⟨msg, bind_error hm⟩
    | malformed => exact bind_error hm
  | ok c =>
    obtain ⟨a, s', hm, hQ⟩ := hm
    obtain ⟨b, s'', hrun, hR⟩ := hf c a s' hQ
    exact ⟨b, s'', (Evaluation.bind_ok f hm).trans hrun, hR⟩

theorem reads {r : Except Fault α} {g : α → Except Halt δ}
    (hf : ∀ a, r = .ok a → Ends (f a) (g a) s R) :
    Ends ((liftM r : LowerM α) >>= f) (Scheme.reads r >>= g) s R := by
  cases hr : r with
  | error e =>
    cases e with
    | die msg => exact ⟨msg, bind_error rfl⟩
    | wild => exact bind_error rfl
  | ok a => exact step (m := liftM (Except.ok a : Except Fault α)) rfl (hf a hr)

end Ends

theorem Follows.bind (hm : Follows keep m w s)
    (hf : ∀ a s', keep s' = keep s → Follows keep (f a) w' s') :
    Follows keep (m >>= f) (w.followedBy w') s := by
  refine Ends.bind hm fun ls a s' hs' => ?_
  refine Ends.map (hf a s' hs'.1) fun ls' b s'' hs'' => ⟨hs''.1.trans hs'.1, ?_⟩
  rw [hs''.2, hs'.2, List.append_assoc]

theorem followedBy_nil_left (w : Walk) : Walk.followedBy (.ok []) w = w := by
  cases w <;> rfl

theorem followedBy_nil_right (w : Walk) : w.followedBy (.ok []) = w := by
  cases w with
  | error h => rfl
  | ok ls => exact congrArg Except.ok (List.append_nil ls)

/-- For each state that knows the names of `k`. -/
def Tracks (k : String → Bool) (m : LowerM α) (w : Walk) : Prop :=
  ∀ s, known s = k → Follows names m w s

/-- A step that only emits. -/
def Plain (m : LowerM α) : Prop := ∀ s, Follows names m (.ok []) s

namespace Tracks

theorem bind (hm : Tracks k m w) (hf : ∀ a, Tracks k (f a) w') :
    Tracks k (m >>= f) (w.followedBy w') := fun s hs =>
  (hm s hs).bind fun a s' hnames => hf a s' ((known_congr hnames).trans hs)

theorem plain (hm : Plain m) : Tracks k m (.ok []) := fun s _ => hm s

theorem before (hm : Plain m) (hf : ∀ a, Tracks k (f a) w) : Tracks k (m >>= f) w := by
  have h := bind (k := k) (plain hm) hf
  rwa [followedBy_nil_left] at h

theorem behind (hm : Tracks k m w) (hf : ∀ a, Plain (f a)) : Tracks k (m >>= f) w := by
  have h := hm.bind fun a => plain (hf a)
  rwa [followedBy_nil_right] at h

theorem wild : Tracks k (Scheme.wild : LowerM α) (.error .malformed) := fun _ _ => rfl

theorem die (msg : String) : Tracks k (Scheme.die msg : LowerM α) (.error .reported) :=
  fun _ _ => ⟨msg, rfl⟩

end Tracks

namespace Plain

theorem pure (a : α) : Plain (Pure.pure a : LowerM α) := fun s =>
  ⟨a, s, rfl, rfl, (List.append_nil _).symm⟩

theorem bind (hm : Plain m) (hf : ∀ a, Plain (f a)) : Plain (m >>= f) := fun s =>
  (hm s).bind fun a s' _ => hf a s'

theorem of_fn {a : Lowering → α} {g : Lowering → Lowering}
    (h : ∀ s, m s = .ok (a s, g s)) (hnames : ∀ s, names (g s) = names s)
    (hqueued : ∀ s, queued (g s) = queued s) : Plain m := fun s =>
  ⟨a s, g s, h s, hnames s, (hqueued s).trans (List.append_nil _).symm⟩

theorem newTemp : Plain Scheme.newTemp :=
  of_fn (fun _ => rfl) (fun _ => rfl) fun _ => rfl

theorem newLabel : Plain Scheme.newLabel :=
  of_fn (fun _ => rfl) (fun _ => rfl) fun _ => rfl

theorem emit (i : Insn) : Plain (Scheme.emit i) :=
  of_fn (fun _ => rfl) (fun _ => rfl) fun _ => rfl

theorem allocSlot (bytes : Nat) : Plain (Scheme.allocSlot bytes) :=
  of_fn (fun _ => rfl) (fun _ => rfl) fun _ => rfl

theorem emitDst (i : Insn) : Plain (Scheme.emitDst i) :=
  newTemp.bind fun _ => (emit _).bind fun _ => pure _

theorem lowerConst (v : Int) : Plain (Scheme.lowerConst v) := emitDst _

theorem emitBin (op : Op) (ta tb : Nat) : Plain (Scheme.emitBin op ta tb) := emitDst _

theorem boolFromCmp (t : Nat) : Plain (Scheme.boolFromCmp t) :=
  (lowerConst 2).bind fun _ => (emitBin _ _ _).bind fun _ => emitBin _ _ _

theorem branchTrue (t ltrue lfalse : Nat) : Plain (Scheme.branchTrue t ltrue lfalse) :=
  (lowerConst 2).bind fun _ => (emitBin _ _ _).bind fun _ => (emit _).bind fun _ => emit _

theorem emitArgs (i : Nat) (args : List Nat) : Plain (Scheme.emitArgs i args) := by
  induction args generalizing i with
  | nil => exact pure ()
  | cons t args ih => exact (emit _).bind fun _ => ih (i + 1)

end Plain

/-! ## Names and lambdas -/

theorem tracks_name {name : String} {onLocal : Lsym → LowerM α} {onGlobal : Gsym → LowerM α}
    (hlocal : ∀ ls, Plain (onLocal ls)) (hglobal : ∀ gs, Plain (onGlobal gs)) :
    Tracks k (do
      let s ← get
      match findLsym s name with
      | some ls => onLocal ls
      | none =>
        match findGsym s name with
        | none => die s!"lower: undefined '{name}'"
        | some gs => onGlobal gs) (walkName k name) := by
  intro s hs
  have hget : (get : LowerM Lowering) s = .ok (s, s) := rfl
  refine Ends.step hget ?_
  rw [walkName, ← hs, known]
  cases hl : findLsym s name with
  | some ls => exact hlocal ls s
  | none =>
    cases hg : findGsym s name with
    | some gs => exact hglobal gs s
    | none => exact ⟨_, rfl⟩

theorem lowerSymbol_tracks (name : String) : Tracks k (lowerSymbol name) (walkName k name) := by
  refine tracks_name (fun _ => .emitDst _) fun gs => (Plain.emitDst _).bind fun _ => ?_
  split_ifs
  · exact .pure _
  · exact .emitDst _

theorem callSymbol_tracks (name : String) (nargs : Nat) :
    Tracks k (callSymbol name nargs) (walkName k name) := by
  refine tracks_name (fun _ => (Plain.emitDst _).bind fun _ => .emitDst _) fun gs => ?_
  split_ifs
  · exact (Plain.emitDst _).bind fun _ => (Plain.emitDst _).bind fun _ => .emitDst _
  · exact .emitDst _

theorem lowerLambda_tracks (params body : Datum) :
    Tracks k (lowerLambda params body) (.ok [(params, body)]) := by
  intro s _
  refine ⟨s.fn.ntemps, _, rfl, rfl, ?_⟩
  exact List.map_append

/-! ## Forms -/

theorem call_tracks (name : String) {args : LowerM (List Nat)} (hargs : Tracks k args w) :
    Tracks k (do
      let args ← args
      emitArgs 0 args
      callSymbol name args.length) (w.followedBy (walkName k name)) :=
  hargs.bind fun _ => .before (.emitArgs 0 _) fun _ => callSymbol_tracks name _

theorem callExpr_tracks {args : LowerM (List Nat)} {head : LowerM Nat} (hargs : Tracks k args w)
    (hhead : Tracks k head w') :
    Tracks k (do
      let args ← args
      emitArgs 0 args
      let tf ← head
      emitDst { op := .calli, a := some tf, nargs := args.length }) (w.followedBy w') :=
  hargs.bind fun _ => .before (.emitArgs 0 _) fun _ => hhead.behind fun _ => .emitDst _

theorem two_tracks {mx my : LowerM Nat} {code : Nat → Nat → LowerM α} (hx : Tracks k mx w)
    (hy : Tracks k my w') (hcode : ∀ ta tb, Plain (code ta tb)) :
    Tracks k (do
      let ta ← mx
      let tb ← my
      code ta tb) (w.followedBy w') :=
  hx.bind fun _ => hy.behind fun _ => hcode _ _

theorem one_tracks {mx : LowerM Nat} (hx : Tracks k mx w) :
    Tracks k (do
      let _ ← mx
      (wild : LowerM α)) (w.followedBy (.error .malformed)) :=
  hx.bind fun _ => .wild

theorem sum_plain (op op' : Op) (ta tb : Nat) : Plain (do
    let t ← emitBin op ta tb
    let tone ← lowerConst 1
    emitBin op' t tone) :=
  (Plain.emitBin _ _ _).bind fun _ => (Plain.lowerConst 1).bind fun _ => .emitBin _ _ _

theorem product_plain (ta tb : Nat) : Plain (do
    let tTwo ← lowerConst 2
    let tX ← emitBin .shrs ta tTwo
    let tOne ← lowerConst 1
    let tB1 ← emitBin .sub tb tOne
    let tProd ← emitBin .mul tX tB1
    emitBin .add tProd tOne) :=
  (Plain.lowerConst 2).bind fun _ => (Plain.emitBin _ _ _).bind fun _ =>
    (Plain.lowerConst 1).bind fun _ => (Plain.emitBin _ _ _).bind fun _ =>
      (Plain.emitBin _ _ _).bind fun _ => .emitBin _ _ _

theorem cmp_plain (op : Op) (ta tb : Nat) : Plain (do
    let tcmp ← emitBin op ta tb
    boolFromCmp tcmp) :=
  (Plain.emitBin _ _ _).bind fun _ => .boolFromCmp _

theorem test_plain (op : Op) (ltrue lfalse ta tb : Nat) : Plain (do
    let tcmp ← emitBin op ta tb
    emitBnz tcmp ltrue
    emitJmp lfalse) :=
  (Plain.emitBin _ _ _).bind fun _ => (Plain.emit _).bind fun _ => .emit _

theorem shapeOf_cmp {head : String} {op : Op} (h : cmpOp head = some op) :
    shapeOf head = .binary := by
  unfold cmpOp at h
  split_ifs at h with heq hlt hgt hle hge
  · subst heq
    decide
  · subst hlt
    decide
  · subst hgt
    decide
  · subst hle
    decide
  · subst hge
    decide

theorem walkExpr_cmp {head : String} {op : Op} (h : cmpOp head = some op) (args : Datum) :
    walkExpr k (.pair (.sym head) args) = walkTwo k args := by
  rw [walkExpr, shapeOf_cmp h]

mutual

theorem lowerExpr_tracks (k : String → Bool) : ∀ d, Tracks k (lowerExpr d) (walkExpr k d)
  | .fix n => .plain (.lowerConst _)
  | .bool true => .plain (.lowerConst _)
  | .bool false => .plain (.lowerConst _)
  | .nil => .plain (.lowerConst _)
  | .str _ => .die _
  | .sym name => lowerSymbol_tracks name
  | .pair (.sym head) rest => by
    rw [lowerExpr.eq_def, walkExpr.eq_def]
    dsimp only
    by_cases hif : head = "if"
    · subst hif
      exact lowerIf_tracks k rest
    by_cases hadd : head = "+"
    · subst hadd
      exact lowerAdd_tracks k rest
    by_cases hsub : head = "-"
    · subst hsub
      exact lowerSub_tracks k rest
    by_cases hmul : head = "*"
    · subst hmul
      exact lowerMul_tracks k rest
    by_cases heq : head = "="
    · subst heq
      exact lowerCmp_tracks k .cmpeq rest
    by_cases hlt : head = "<"
    · subst hlt
      exact lowerCmp_tracks k .cmplts rest
    by_cases hgt : head = ">"
    · subst hgt
      exact lowerCmp_tracks k .cmpgts rest
    by_cases hle : head = "<="
    · subst hle
      exact lowerCmp_tracks k .cmples rest
    by_cases hge : head = ">="
    · subst hge
      exact lowerCmp_tracks k .cmpges rest
    by_cases hlambda : head = "lambda"
    · subst hlambda
      cases rest with
      | pair params body => exact lowerLambda_tracks params body
      | fix _ | bool _ | nil | sym _ | str _ => exact .wild
    by_cases hbegin : head = "begin"
    · subst hbegin
      exact .before (.lowerConst 0) fun t => lowerSeq_tracks k t rest
    by_cases hquote : head = "quote"
    · subst hquote
      exact .die _
    by_cases hreset : head = "reset"
    · subst hreset
      exact lowerReset_tracks k rest
    by_cases hshift : head = "shift"
    · subst hshift
      exact .plain (.emitDst _)
    by_cases hresume : head = "resume"
    · subst hresume
      exact lowerResume_tracks k rest
    have hcall : shapeOf head = .call := by
      simp [shapeOf, hif, hadd, hsub, hmul, heq, hlt, hgt, hle, hge, hlambda, hbegin, hquote,
        hreset, hshift, hresume]
    simp only [hif, hadd, hsub, hmul, heq, hlt, hgt, hle, hge, hlambda, hbegin, hquote, hreset,
      hshift, hresume, if_false, hcall]
    exact call_tracks head (lowerArgs_tracks k 0 rest)
  | .pair (.fix n) rest => callExpr_tracks (lowerArgs_tracks k 0 rest) (lowerExpr_tracks k (.fix n))
  | .pair (.bool b) rest =>
    callExpr_tracks (lowerArgs_tracks k 0 rest) (lowerExpr_tracks k (.bool b))
  | .pair .nil rest => callExpr_tracks (lowerArgs_tracks k 0 rest) (lowerExpr_tracks k .nil)
  | .pair (.str t) rest => callExpr_tracks (lowerArgs_tracks k 0 rest) (lowerExpr_tracks k (.str t))
  | .pair (.pair a b) rest =>
    callExpr_tracks (lowerArgs_tracks k 0 rest) (lowerExpr_tracks k (.pair a b))

theorem lowerIf_tracks (k : String → Bool) : ∀ d, Tracks k (lowerIf d) (walkIf k d)
  | .pair test rest => by
    rw [lowerIf, walkIf]
    split_ifs
    · exact .wild
    refine .before .newLabel fun ltrue => .before .newLabel fun lfalse =>
      .before .newLabel fun lend => ?_
    cases hcmp : irCmp test with
    | some op =>
      exact (lowerTest_tracks k op ltrue lfalse test hcmp).bind fun _ =>
        lowerBranches_tracks k ltrue lfalse lend rest
    | none =>
      exact (lowerExpr_tracks k test).bind fun _ => .before (.branchTrue _ _ _) fun _ =>
        lowerBranches_tracks k ltrue lfalse lend rest
  | .fix _ | .bool _ | .nil | .sym _ | .str _ => .wild

theorem lowerTest_tracks (k : String → Bool) (op : Op) (ltrue lfalse : Nat) :
    ∀ d, irCmp d = some op → Tracks k (lowerTest op ltrue lfalse d) (walkExpr k d)
  | .pair (.sym head) (.pair x (.pair y _)), h => by
    rw [walkExpr_cmp h]
    exact two_tracks (lowerExpr_tracks k x) (lowerExpr_tracks k y) (test_plain op ltrue lfalse)
  | .pair (.sym head) (.pair x (.fix _)), h | .pair (.sym head) (.pair x (.bool _)), h
  | .pair (.sym head) (.pair x .nil), h | .pair (.sym head) (.pair x (.sym _)), h
  | .pair (.sym head) (.pair x (.str _)), h => by
    rw [walkExpr_cmp h]
    exact one_tracks (lowerExpr_tracks k x)
  | .pair (.sym head) (.fix _), h | .pair (.sym head) (.bool _), h | .pair (.sym head) .nil, h
  | .pair (.sym head) (.sym _), h | .pair (.sym head) (.str _), h => by
    rw [walkExpr_cmp h]
    exact .wild

theorem lowerBranches_tracks (k : String → Bool) (ltrue lfalse lend : Nat) :
    ∀ d, Tracks k (lowerBranches ltrue lfalse lend d) (walkBranches k d)
  | .pair thenForm .nil =>
    .before .newTemp fun _ => .before (.emit _) fun _ =>
      (lowerExpr_tracks k thenForm).behind fun _ => (Plain.emit _).bind fun _ =>
        (Plain.emit _).bind fun _ => (Plain.emit _).bind fun _ => (Plain.emit _).bind fun _ =>
          (Plain.emit _).bind fun _ => .pure _
  | .pair thenForm (.pair elseForm _) =>
    .before .newTemp fun _ => .before (.emit _) fun _ =>
      (lowerExpr_tracks k thenForm).bind fun _ => .before (.emit _) fun _ =>
        .before (.emit _) fun _ => .before (.emit _) fun _ =>
          (lowerExpr_tracks k elseForm).behind fun _ => (Plain.emit _).bind fun _ =>
            (Plain.emit _).bind fun _ => .pure _
  | .pair thenForm (.fix _) | .pair thenForm (.bool _) | .pair thenForm (.sym _)
  | .pair thenForm (.str _) =>
    .before .newTemp fun _ => .before (.emit _) fun _ =>
      (lowerExpr_tracks k thenForm).bind fun _ => .before (.emit _) fun _ =>
        .before (.emit _) fun _ => .before (.emit _) fun _ => .wild
  | .fix _ | .bool _ | .nil | .sym _ | .str _ => .wild

theorem lowerCmp_tracks (k : String → Bool) (op : Op) :
    ∀ d, Tracks k (lowerCmp op d) (walkTwo k d)
  | .pair x (.pair y _) =>
    two_tracks (lowerExpr_tracks k x) (lowerExpr_tracks k y) (cmp_plain op)
  | .pair x (.fix _) | .pair x (.bool _) | .pair x .nil | .pair x (.sym _) | .pair x (.str _) =>
    one_tracks (lowerExpr_tracks k x)
  | .fix _ | .bool _ | .nil | .sym _ | .str _ => .wild

theorem lowerAdd_tracks (k : String → Bool) : ∀ d, Tracks k (lowerAdd d) (walkTwo k d)
  | .pair x (.pair y _) =>
    two_tracks (lowerExpr_tracks k x) (lowerExpr_tracks k y) (sum_plain .add .sub)
  | .pair x (.fix _) | .pair x (.bool _) | .pair x .nil | .pair x (.sym _) | .pair x (.str _) =>
    one_tracks (lowerExpr_tracks k x)
  | .fix _ | .bool _ | .nil | .sym _ | .str _ => .wild

theorem lowerMul_tracks (k : String → Bool) : ∀ d, Tracks k (lowerMul d) (walkTwo k d)
  | .pair x (.pair y _) =>
    two_tracks (lowerExpr_tracks k x) (lowerExpr_tracks k y) product_plain
  | .pair x (.fix _) | .pair x (.bool _) | .pair x .nil | .pair x (.sym _) | .pair x (.str _) =>
    one_tracks (lowerExpr_tracks k x)
  | .fix _ | .bool _ | .nil | .sym _ | .str _ => .wild

theorem lowerSub_tracks (k : String → Bool) : ∀ d, Tracks k (lowerSub d) (walkMinus k d)
  | .pair x .nil => (lowerExpr_tracks k x).behind fun _ =>
    (Plain.lowerConst 2).bind fun _ => .emitBin _ _ _
  | .pair x (.pair y _) =>
    two_tracks (lowerExpr_tracks k x) (lowerExpr_tracks k y) (sum_plain .sub .add)
  | .pair x (.fix _) | .pair x (.bool _) | .pair x (.sym _) | .pair x (.str _) =>
    one_tracks (lowerExpr_tracks k x)
  | .fix _ | .bool _ | .nil | .sym _ | .str _ => .wild

theorem lowerArgs_tracks (k : String → Bool) :
    ∀ nargs d, Tracks k (lowerArgs nargs d) (walkArgs k nargs d)
  | nargs, .nil => .plain (.pure [])
  | nargs, .pair x rest => by
    rw [lowerArgs, walkArgs]
    split_ifs
    · exact .die _
    · exact (lowerExpr_tracks k x).bind fun t =>
        (lowerArgs_tracks k (nargs + 1) rest).behind fun _ => .pure _
  | nargs, .fix _ | nargs, .bool _ | nargs, .sym _ | nargs, .str _ => by
    simp only [lowerArgs, walkArgs]
    split_ifs
    · exact .die _
    · exact .wild

theorem lowerSeq_tracks (k : String → Bool) :
    ∀ t d, Tracks k (lowerSeq t d) (walkSeq k d)
  | t, .nil => .plain (.pure t)
  | _, .pair x rest => (lowerExpr_tracks k x).bind fun t => lowerSeq_tracks k t rest
  | _, .fix _ | _, .bool _ | _, .sym _ | _, .str _ => .wild

theorem lowerReset_tracks (k : String → Bool) : ∀ d, Tracks k (lowerReset d) (walkReset k d)
  | .pair body (.pair handler _) =>
    .before (.allocSlot 12) fun _ => .before .newLabel fun _ => .before .newLabel fun _ =>
      .before .newTemp fun _ => .before .newLabel fun _ => .before (.emitDst _) fun _ =>
        .before (.emit _) fun _ => (lowerExpr_tracks k body).bind fun _ =>
          .before (.emit _) fun _ => .before (.emit _) fun _ => .before (.emit _) fun _ =>
            (lowerExpr_tracks k handler).behind fun _ => (Plain.emit _).bind fun _ =>
              (Plain.emitDst _).bind fun _ => (Plain.emit _).bind fun _ =>
                (Plain.emit _).bind fun _ => .pure _
  | .nil | .pair _ .nil => .die _
  | .pair _ (.fix _) | .pair _ (.bool _) | .pair _ (.sym _) | .pair _ (.str _) => .wild
  | .fix _ | .bool _ | .sym _ | .str _ => .wild

theorem lowerResume_tracks (k : String → Bool) : ∀ d, Tracks k (lowerResume d) (walkResume k d)
  | .pair buf (.pair val _) =>
    two_tracks (lowerExpr_tracks k buf) (lowerExpr_tracks k val) fun _ _ =>
      (Plain.emit _).bind fun _ => .newTemp
  | .nil | .pair _ .nil => .die _
  | .pair buf (.fix _) | .pair buf (.bool _) | .pair buf (.sym _) | .pair buf (.str _) =>
    one_tracks (lowerExpr_tracks k buf)
  | .fix _ | .bool _ | .sym _ | .str _ => .wild

end

/-! ## Functions -/

theorem known_eq (s : Lowering) (name : String) :
    known s name = (decide (name ∈ s.lsyms.map Lsym.name) ||
      decide (name ∈ s.gsyms.map Gsym.name)) := by
  have hlocal : (findLsym s name).isSome = decide (name ∈ s.lsyms.map Lsym.name) := by
    rw [findLsym, Bool.eq_iff_iff, List.find?_isSome, decide_eq_true_iff, List.mem_map]
    simp only [List.mem_reverse, beq_iff_eq]
  have hglobal : (findGsym s name).isSome = decide (name ∈ s.gsyms.map Gsym.name) := by
    rw [findGsym, Bool.eq_iff_iff, List.find?_isSome, decide_eq_true_iff, List.mem_map]
    simp only [beq_iff_eq]
  rw [known, hlocal, hglobal]

theorem addParams_ends (d : Datum) (n : Nat) (s : Lowering) :
    Ends (addParams n d) (walkParams d) s fun ps _ s' => s'.gsyms = s.gsyms ∧
      queued s' = queued s ∧ s'.lsyms.map Lsym.name = s.lsyms.map Lsym.name ++ ps := by
  induction d generalizing n s with
  | nil => exact .pure ⟨rfl, rfl, (List.append_nil _).symm⟩
  | fix _ | bool _ | sym _ | str _ => exact rfl
  | pair car cdr _ ih =>
    cases car with
    | sym name =>
      obtain ⟨s1, hadd, hgsyms, hqueued, hlsyms⟩ : ∃ s1, addLsym name s = .ok ((), s1) ∧
          s1.gsyms = s.gsyms ∧ queued s1 = queued s ∧
          s1.lsyms.map Lsym.name = s.lsyms.map Lsym.name ++ [name] :=
        ⟨_, rfl, rfl, rfl, List.map_append⟩
      rw [addParams, walkParams]
      refine .step hadd ((ih (n + 1) s1).map fun ps _ s' hs' => ?_)
      obtain ⟨hgsyms', hqueued', hlsyms'⟩ := hs'
      refine ⟨hgsyms'.trans hgsyms, hqueued'.trans hqueued, ?_⟩
      rw [hlsyms', hlsyms, List.append_assoc]
      rfl
    | fix _ | bool _ | nil | str _ | pair _ _ => exact rfl

theorem lowerBody_tracks (k : String → Bool) (t : Option Nat) (d : Datum) :
    Tracks k (lowerBody t d) (walkSeq k d) := by
  induction d generalizing t with
  | nil => exact .plain (.pure t)
  | fix _ | bool _ | sym _ | str _ => exact .wild
  | pair x rest _ ih => exact (lowerExpr_tracks k x).bind fun t => ih (some t)

theorem Follows.mono {g : κ → κ'} (h : Follows keep m w s) :
    Follows (fun s => g (keep s)) m w s :=
  Ends.mono h fun _ _ _ hs' => ⟨congrArg g hs'.1, hs'.2⟩

theorem Follows.step {a : α} (hm : m s = .ok (a, s')) (hkeep : keep s' = keep s)
    (hqueued : queued s' = queued s) (hf : Follows keep (f a) w s') :
    Follows keep (m >>= f) w s := by
  refine Ends.step hm (Ends.mono hf fun ls b s'' hs'' => ?_)
  rw [hs''.1, hs''.2, hkeep, hqueued]
  exact ⟨rfl, rfl⟩

/-- The global names of the walk are those of the lowering. -/
def SameGlobals (globals : List String) (s : Lowering) : Prop :=
  ∀ name, name ∈ globals ↔ name ∈ s.gsyms.map Gsym.name

theorem beginFunction_run (name : String) (s : Lowering) :
    ∃ s1, beginFunction name s = .ok ((), s1) ∧ s1.lsyms = [] ∧ s1.gsyms = s.gsyms ∧
      queued s1 = queued s := ⟨_, rfl, rfl, rfl, rfl⟩

theorem finish_plain : Plain finishFunction := fun _ =>
  ⟨_, _, rfl, rfl, (List.append_nil _).symm⟩

theorem ret_plain (t : Option Nat) : Plain (do
    match t with
    | some t => emit { op := .retv, a := some t }
    | none =>
      let z ← lowerConst 0
      emit { op := .retv, a := some z }
    finishFunction) := by
  cases t with
  | some t => exact (Plain.emit _).bind fun _ => finish_plain
  | none => exact (Plain.lowerConst 0).bind fun _ => (Plain.emit _).bind fun _ => finish_plain

theorem lowerFunction_follows (hglobals : SameGlobals globals s) (name : String)
    (params body : Datum) :
    Follows Lowering.gsyms (lowerFunction name params body)
      (walkFunction globals params body) s := by
  unfold lowerFunction walkFunction
  obtain ⟨s1, hbegin, hlsyms1, hgsyms1, hqueued1⟩ := beginFunction_run name s
  refine .step hbegin hgsyms1 hqueued1 ?_
  refine Ends.bind (addParams_ends params 0 s1) fun ps n s2 hs2 => ?_
  obtain ⟨hgsyms, hqueued, hlsyms⟩ := hs2
  have hknown : ∀ s3 : Lowering, names s3 = names s2 →
      known s3 = fun name => decide (name ∈ ps) || decide (name ∈ globals) := by
    intro s3 hnames
    rw [known_congr hnames]
    funext name
    have hin : name ∈ globals ↔ name ∈ s2.gsyms.map Gsym.name := by
      rw [hgsyms, hgsyms1]
      exact hglobals name
    rw [known_eq, hlsyms, hlsyms1, decide_eq_decide.2 hin]
    rfl
  have hbody := (lowerBody_tracks
    (fun name => decide (name ∈ ps) || decide (name ∈ globals)) none body).behind ret_plain
  rw [← hgsyms, ← hqueued]
  change Follows Lowering.gsyms _ _ s2
  refine .step (a := ()) rfl rfl rfl (.step (a := ()) rfl rfl rfl ?_)
  change Follows (fun s => (names s).2) _ (walkSeq _ body) _
  apply Follows.mono (g := Prod.snd)
  exact hbody _ (hknown _ rfl)

/-! ## Passes -/

theorem Follows.reads {r : Except Fault α} {g : α → Walk}
    (hf : ∀ a, r = .ok a → Follows keep (f a) (g a) s) :
    Follows keep ((liftM r : LowerM α) >>= f) (Scheme.reads r >>= g) s :=
  Ends.reads hf

theorem Follows.pure (a : α) : Follows keep (Pure.pure a : LowerM α) (.ok []) s :=
  ⟨a, s, rfl, rfl, (List.append_nil _).symm⟩

theorem SameGlobals.congr (h : SameGlobals globals s) (hgsyms : s'.gsyms = s.gsyms) :
    SameGlobals globals s' := fun name => by
  rw [hgsyms]
  exact h name

theorem lowerDefuns_follows (program : Datum) (hglobals : SameGlobals globals s) :
    Follows Lowering.gsyms (lowerDefuns program) (walkDefuns globals program) s := by
  induction program generalizing s with
  | nil => exact .pure []
  | fix _ | bool _ | sym _ | str _ => exact rfl
  | pair form rest _ ih =>
    rw [lowerDefuns, walkDefuns]
    refine .reads fun top _ => ?_
    cases top with
    | defun name params body =>
      refine .reads fun name _ => ?_
      refine (lowerFunction_follows hglobals name params body).bind fun fn s' hs' => ?_
      have hrest := (ih (hglobals.congr hs')).bind (f := fun fns => pure (fn :: fns))
        fun fns s'' _ => .pure (fn :: fns)
      rwa [followedBy_nil_right] at hrest
    | defvar _ _ => exact ih hglobals
    | expr _ => exact ih hglobals

theorem Tracks.reads {r : Except Fault α} {g : α → Walk}
    (hf : ∀ a, Tracks k (f a) (g a)) :
    Tracks k ((liftM r : LowerM α) >>= f) (Scheme.reads r >>= g) := fun s hs =>
  .reads fun a _ => hf a s hs

theorem lowerTop_tracks (k : String → Bool) (t : Option Nat) (program : Datum) :
    Tracks k (lowerTop t program) (walkTop k program) := by
  induction program generalizing t with
  | nil => exact .plain (.pure t)
  | fix _ | bool _ | sym _ | str _ => exact .wild
  | pair form rest _ ih =>
    rw [lowerTop, walkTop]
    refine .reads fun top => ?_
    cases top with
    | defun _ _ _ => exact ih t
    | defvar name init =>
      refine (lowerExpr_tracks k init).bind fun tval => .reads fun name => ?_
      exact .before (.emitDst _) fun taddr => .before (.emit _) fun _ => ih t
    | expr form => exact (lowerExpr_tracks k form).bind fun t => ih (some t)

theorem exit_plain (t : Option Nat) : Plain (do
    match t with
    | some t =>
      let tTwo ← lowerConst 2
      let tUntagged ← emitBin .shrs t tTwo
      emit { op := .retv, a := some tUntagged }
    | none =>
      let z ← lowerConst 0
      emit { op := .retv, a := some z }
    finishFunction) := by
  cases t with
  | some t =>
    exact (Plain.lowerConst 2).bind fun _ => (Plain.emitBin _ _ _).bind fun _ =>
      (Plain.emit _).bind fun _ => finish_plain
  | none => exact (Plain.lowerConst 0).bind fun _ => (Plain.emit _).bind fun _ => finish_plain

theorem lowerMain_follows (program : Datum) (hglobals : SameGlobals globals s) :
    Follows Lowering.gsyms (lowerMain program)
      (walkTop (fun name => decide (name ∈ globals)) program) s := by
  unfold lowerMain
  obtain ⟨s1, hbegin, hlsyms, hgsyms, hqueued⟩ := beginFunction_run "main" s
  refine .step hbegin hgsyms hqueued (.step (a := ()) rfl rfl rfl ?_)
  have hknown : ∀ s2 : Lowering, names s2 = names s1 →
      known s2 = fun name => decide (name ∈ globals) := by
    intro s2 hnames
    rw [known_congr hnames]
    funext name
    rw [known_eq, hlsyms, hgsyms, decide_eq_decide.2 (hglobals name)]
    rfl
  have htop := (lowerTop_tracks (fun name => decide (name ∈ globals)) none program).behind
    exit_plain
  change Follows (fun s => (names s).2) _ _ _
  apply Follows.mono (g := Prod.snd)
  exact htop _ (hknown _ rfl)

/-! ### Global names -/

theorem registerGlobals_ends (program : Datum) (s : Lowering) :
    Ends (registerGlobals program) (walkGlobals program) s fun ns _ s' =>
      s'.gsyms.map Gsym.name = s.gsyms.map Gsym.name ++ ns ∧ queued s' = queued s := by
  induction program generalizing s with
  | nil => exact .pure ⟨(List.append_nil _).symm, rfl⟩
  | fix _ | bool _ | sym _ | str _ => exact rfl
  | pair form rest _ ih =>
    have hadd : ∀ (name : String) (kind : GsymKind) (n : Nat), Ends (do
        modify fun s => { s with gsyms := s.gsyms ++ [Gsym.mk name kind n] }
        registerGlobals rest : LowerM Unit) (do
        let names ← walkGlobals rest
        return name :: names) s fun ns _ s' =>
        s'.gsyms.map Gsym.name = s.gsyms.map Gsym.name ++ ns ∧ queued s' = queued s := by
      intro name kind n
      refine .step (a := ()) rfl ((ih _).map fun ns _ s' hs' => ⟨?_, hs'.2⟩)
      rw [hs'.1, List.map_append, List.append_assoc]
      rfl
    rw [registerGlobals, walkGlobals]
    refine .reads fun top _ => ?_
    cases top with
    | defun name params body => exact .reads fun np _ => .reads fun name _ => hadd name .func np
    | defvar name init => exact .reads fun name _ => hadd name .var 0
    | expr form => exact ih s

theorem addRuntime_run (name : String) (n : Nat) (s : Lowering) :
    ∃ s', addRuntime name n s = .ok ((), s') ∧ queued s' = queued s ∧
      ∀ x, x ∈ s'.gsyms.map Gsym.name ↔ x ∈ s.gsyms.map Gsym.name ∨ x = name := by
  by_cases hfound : (findGsym s name).isSome = true
  · refine ⟨s, congrArg (fun s' => Except.ok ((), s')) (if_pos hfound), rfl, fun x => ?_⟩
    have hin : name ∈ s.gsyms.map Gsym.name := by
      obtain ⟨gs, hgs⟩ := Option.isSome_iff_exists.1 hfound
      have hname : gs.name = name := by simpa using List.find?_some hgs
      rw [← hname]
      exact List.mem_map_of_mem (List.mem_of_find?_eq_some hgs)
    constructor
    · exact .inl
    · rintro (h | rfl)
      · exact h
      · exact hin
  · refine ⟨_, congrArg (fun s' => Except.ok ((), s')) (if_neg hfound), rfl, fun x => ?_⟩
    simp only [List.map_append, List.mem_append, List.map_cons, List.map_nil, List.mem_singleton]

/-! ### Lambdas -/

/-- What the lambdas of a queue cost at most: their number, and the pairs of their bodies. -/
def weight (ls : List Lambda) : Nat := (ls.map fun l => l.2.pairs + 1).sum

theorem weight_append (ls ls' : List Lambda) : weight (ls ++ ls') = weight ls + weight ls' := by
  rw [weight, List.map_append, List.sum_append]
  rfl

/-- The lambdas of a walk have no more weight than `n`. -/
def Bounded (w : Walk) (n : Nat) : Prop := ∀ ls, w = .ok ls → weight ls ≤ n

namespace Bounded

theorem nil {n : Nat} : Bounded (.ok []) n := by
  rintro ls ⟨⟩
  exact Nat.zero_le n

theorem error {h : Halt} : Bounded (.error h) n := nofun

theorem mono {n' : Nat} (hw : Bounded w n) (h : n ≤ n') : Bounded w n' :=
  fun ls hls => Nat.le_trans (hw ls hls) h

theorem followedBy {n n' : Nat} (hw : Bounded w n) (hw' : Bounded w' n') :
    Bounded (w.followedBy w') (n + n') := by
  intro ls hls
  cases w with
  | error h => cases hls
  | ok ls1 =>
    cases w' with
    | error h => cases hls
    | ok ls2 =>
      cases hls
      rw [weight_append]
      exact Nat.add_le_add (hw ls1 rfl) (hw' ls2 rfl)

theorem name (name : String) {n : Nat} : Bounded (walkName k name) n := by
  unfold walkName
  split_ifs
  · exact nil
  · exact error

theorem lambda (d : Datum) : Bounded (walkLambda d) d.pairs := by
  cases d with
  | pair params body =>
    rintro ls ⟨⟩
    simp only [weight, Datum.pairs, List.map_cons, List.map_nil, List.sum_cons, List.sum_nil]
    omega
  | fix _ | bool _ | nil | sym _ | str _ => exact error

end Bounded

theorem bounded_two {n' p : Nat} (hw : Bounded w n) (hw' : Bounded w' n') (h : n + n' ≤ p) :
    Bounded (w.followedBy w') p :=
  (hw.followedBy hw').mono h

mutual

theorem walkExpr_bounded (k : String → Bool) : ∀ d, Bounded (walkExpr k d) d.pairs
  | .fix _ | .bool _ | .nil => .nil
  | .str _ => .error
  | .sym name => .name name
  | .pair (.sym head) rest => by
    rw [walkExpr]
    have hle : rest.pairs ≤ (Datum.pair (.sym head) rest).pairs := by
      simp only [Datum.pairs]
      omega
    cases shapeOf head with
    | cond => exact (walkIf_bounded k rest).mono hle
    | binary => exact (walkTwo_bounded k rest).mono hle
    | minus => exact (walkMinus_bounded k rest).mono hle
    | lambda => exact (Bounded.lambda rest).mono hle
    | begin => exact (walkSeq_bounded k rest).mono hle
    | quote => exact .error
    | reset => exact (walkReset_bounded k rest).mono hle
    | shift => exact .nil
    | resume => exact (walkResume_bounded k rest).mono hle
    | call => exact bounded_two (walkArgs_bounded k 0 rest) (Bounded.name (n := 0) head) hle
  | .pair (.fix n) rest =>
    bounded_two (walkArgs_bounded k 0 rest) (walkExpr_bounded k (.fix n)) (by
      simp only [Datum.pairs]; omega)
  | .pair (.bool b) rest =>
    bounded_two (walkArgs_bounded k 0 rest) (walkExpr_bounded k (.bool b)) (by
      simp only [Datum.pairs]; omega)
  | .pair .nil rest =>
    bounded_two (walkArgs_bounded k 0 rest) (walkExpr_bounded k .nil) (by
      simp only [Datum.pairs]; omega)
  | .pair (.str text) rest =>
    bounded_two (walkArgs_bounded k 0 rest) (walkExpr_bounded k (.str text)) (by
      simp only [Datum.pairs]; omega)
  | .pair (.pair a b) rest =>
    bounded_two (walkArgs_bounded k 0 rest) (walkExpr_bounded k (.pair a b)) (by
      simp only [Datum.pairs]; omega)

theorem walkTwo_bounded (k : String → Bool) : ∀ d, Bounded (walkTwo k d) d.pairs
  | .pair x (.pair y _) => bounded_two (walkExpr_bounded k x) (walkExpr_bounded k y) (by
      simp only [Datum.pairs]; omega)
  | .pair x (.fix _) | .pair x (.bool _) | .pair x .nil | .pair x (.sym _) | .pair x (.str _) =>
    bounded_two (walkExpr_bounded k x) (Bounded.error (n := 0)) (by simp only [Datum.pairs]; omega)
  | .fix _ | .bool _ | .nil | .sym _ | .str _ => .error

theorem walkMinus_bounded (k : String → Bool) : ∀ d, Bounded (walkMinus k d) d.pairs
  | .pair x .nil => (walkExpr_bounded k x).mono (by simp only [Datum.pairs]; omega)
  | .pair x (.pair y _) => bounded_two (walkExpr_bounded k x) (walkExpr_bounded k y) (by
      simp only [Datum.pairs]; omega)
  | .pair x (.fix _) | .pair x (.bool _) | .pair x (.sym _) | .pair x (.str _) =>
    bounded_two (walkExpr_bounded k x) (Bounded.error (n := 0)) (by simp only [Datum.pairs]; omega)
  | .fix _ | .bool _ | .nil | .sym _ | .str _ => .error

theorem walkIf_bounded (k : String → Bool) : ∀ d, Bounded (walkIf k d) d.pairs
  | .pair test rest => by
    rw [walkIf]
    split_ifs
    · exact .error
    · exact bounded_two (walkExpr_bounded k test) (walkBranches_bounded k rest) (by
        simp only [Datum.pairs]; omega)
  | .fix _ | .bool _ | .nil | .sym _ | .str _ => .error

theorem walkBranches_bounded (k : String → Bool) : ∀ d, Bounded (walkBranches k d) d.pairs
  | .pair x .nil => (walkExpr_bounded k x).mono (by simp only [Datum.pairs]; omega)
  | .pair x (.pair y _) => bounded_two (walkExpr_bounded k x) (walkExpr_bounded k y) (by
      simp only [Datum.pairs]; omega)
  | .pair x (.fix _) | .pair x (.bool _) | .pair x (.sym _) | .pair x (.str _) =>
    bounded_two (walkExpr_bounded k x) (Bounded.error (n := 0)) (by simp only [Datum.pairs]; omega)
  | .fix _ | .bool _ | .nil | .sym _ | .str _ => .error

theorem walkArgs_bounded (k : String → Bool) : ∀ nargs d, Bounded (walkArgs k nargs d) d.pairs
  | _, .nil => .nil
  | nargs, .pair x rest => by
    rw [walkArgs]
    split_ifs
    · exact .error
    · exact bounded_two (walkExpr_bounded k x) (walkArgs_bounded k (nargs + 1) rest) (by
        simp only [Datum.pairs]; omega)
  | nargs, .fix _ | nargs, .bool _ | nargs, .sym _ | nargs, .str _ => by
    simp only [walkArgs]
    split_ifs
    · exact .error
    · exact .error

theorem walkSeq_bounded (k : String → Bool) : ∀ d, Bounded (walkSeq k d) d.pairs
  | .nil => .nil
  | .pair x rest => bounded_two (walkExpr_bounded k x) (walkSeq_bounded k rest) (by
      simp only [Datum.pairs]; omega)
  | .fix _ | .bool _ | .sym _ | .str _ => .error

theorem walkReset_bounded (k : String → Bool) : ∀ d, Bounded (walkReset k d) d.pairs
  | .pair x (.pair y _) => bounded_two (walkExpr_bounded k x) (walkExpr_bounded k y) (by
      simp only [Datum.pairs]; omega)
  | .nil | .pair _ .nil => .error
  | .pair _ (.fix _) | .pair _ (.bool _) | .pair _ (.sym _) | .pair _ (.str _) => .error
  | .fix _ | .bool _ | .sym _ | .str _ => .error

theorem walkResume_bounded (k : String → Bool) : ∀ d, Bounded (walkResume k d) d.pairs
  | .pair x (.pair y _) => bounded_two (walkExpr_bounded k x) (walkExpr_bounded k y) (by
      simp only [Datum.pairs]; omega)
  | .nil | .pair _ .nil => .error
  | .pair x (.fix _) | .pair x (.bool _) | .pair x (.sym _) | .pair x (.str _) =>
    bounded_two (walkExpr_bounded k x) (Bounded.error (n := 0)) (by simp only [Datum.pairs]; omega)
  | .fix _ | .bool _ | .sym _ | .str _ => .error

end

theorem Bounded.bind {r : Except Halt α} {g : α → Walk} (h : ∀ a, r = .ok a → Bounded (g a) n) :
    Bounded (r >>= g) n := by
  cases r with
  | error e => exact .error
  | ok a => exact h a rfl

theorem reads_ok {r : Except Fault α} {a : α} (h : reads r = .ok a) : r = .ok a := by
  cases r with
  | error e => cases h
  | ok b =>
    cases h
    rfl

theorem walkFunction_bounded (globals : List String) (params body : Datum) :
    Bounded (walkFunction globals params body) body.pairs :=
  .bind fun _ _ => walkSeq_bounded _ body

theorem classifyDefine_pairs {form : Datum} {top : TopForm} (h : classifyDefine form = .ok top) :
    match top with
    | .defun _ _ body => body.pairs ≤ form.pairs
    | .defvar _ init => init.pairs ≤ form.pairs
    | .expr e => e.pairs ≤ form.pairs := by
  unfold classifyDefine at h
  split at h
  · cases h
    simp only [Datum.pairs]
    omega
  · cases h
    simp only [Datum.pairs]
    omega
  · cases h
  · cases h
  · cases h
  · cases h
    exact Nat.le_refl _

theorem walkDefuns_bounded (globals : List String) (program : Datum) :
    Bounded (walkDefuns globals program) program.pairs := by
  induction program with
  | nil => exact .nil
  | fix _ | bool _ | sym _ | str _ => exact .error
  | pair form rest _ ih =>
    rw [walkDefuns]
    refine .bind fun top htop => ?_
    have hparts := classifyDefine_pairs (reads_ok htop)
    have hrest : rest.pairs ≤ (Datum.pair form rest).pairs := by
      simp only [Datum.pairs]
      omega
    cases top with
    | defun name params body =>
      refine .bind fun name _ => bounded_two (walkFunction_bounded _ _ _) ih ?_
      simp only [Datum.pairs] at hparts ⊢
      omega
    | defvar _ _ => exact ih.mono hrest
    | expr _ => exact ih.mono hrest

theorem walkTop_bounded (k : String → Bool) (program : Datum) :
    Bounded (walkTop k program) program.pairs := by
  induction program with
  | nil => exact .nil
  | fix _ | bool _ | sym _ | str _ => exact .error
  | pair form rest _ ih =>
    rw [walkTop]
    refine .bind fun top htop => ?_
    have hparts := classifyDefine_pairs (reads_ok htop)
    cases top with
    | defun _ _ _ =>
      refine ih.mono ?_
      simp only [Datum.pairs]
      omega
    | defvar name init =>
      refine bounded_two (walkExpr_bounded k init) (.bind fun _ _ => ih) ?_
      simp only [Datum.pairs] at hparts ⊢
      omega
    | expr e =>
      refine bounded_two (walkExpr_bounded k e) ih ?_
      simp only [Datum.pairs] at hparts ⊢
      omega

/-! ### The queue and the program -/

theorem queued_cons {l : Lifted} {rest : List Lifted} (h : s.lifted = l :: rest) :
    queued s = (l.params, l.body) :: rest.map fun l => (l.params, l.body) := by
  rw [queued, h]
  rfl

theorem lowerLifted_ends (fuel n : Nat) (s : Lowering) (hfuel : weight (queued s) ≤ fuel)
    (hn : weight (queued s) ≤ n) (hglobals : SameGlobals globals s) :
    Ends (lowerLifted fuel) (walkLambdas globals n (queued s)) s
      fun _ fns _ => fns.isSome = true := by
  induction fuel generalizing n s with
  | zero =>
    cases hl : s.lifted with
    | nil =>
      have hq : queued s = [] := by rw [queued, hl]; rfl
      have hw : walkLambdas globals n [] = .ok () := by cases n <;> rfl
      rw [hq, hw]
      refine ⟨some [], s, ?_, rfl⟩
      have hget : (get : LowerM Lowering) s = .ok (s, s) := rfl
      rw [lowerLifted, Evaluation.bind_ok _ hget, hl]
      rfl
    | cons l rest =>
      rw [queued_cons hl] at hfuel
      exact absurd hfuel (by simp [weight])
  | succ fuel ih =>
    have hget : (get : LowerM Lowering) s = .ok (s, s) := rfl
    cases hl : s.lifted with
    | nil =>
      have hq : queued s = [] := by rw [queued, hl]; rfl
      have hw : walkLambdas globals n [] = .ok () := by cases n <;> rfl
      rw [hq, hw]
      refine ⟨some [], s, ?_, rfl⟩
      rw [lowerLifted, Evaluation.bind_ok _ hget, hl]
      rfl
    | cons l rest =>
      have hq := queued_cons hl
      rw [hq] at hfuel hn ⊢
      have hcost : weight ((l.params, l.body) :: rest.map fun l => (l.params, l.body)) =
          l.body.pairs + 1 + weight (rest.map fun l => (l.params, l.body)) := by
        rw [weight, List.map_cons, List.sum_cons]
        rfl
      rw [hcost] at hfuel hn
      obtain ⟨n, rfl⟩ : ∃ k, n = k + 1 := ⟨n - 1, by omega⟩
      rw [lowerLifted, walkLambdas]
      refine .step hget ?_
      rw [hl]
      refine .step (a := ()) rfl ?_
      have hfun := lowerFunction_follows (s := { s with lifted := rest })
        hglobals l.name l.params l.body
      cases hwalk : walkFunction globals l.params l.body with
      | error h =>
        rw [hwalk] at hfun
        cases h with
        | reported =>
          obtain ⟨msg, hrun⟩ := hfun
          exact ⟨msg, bind_error hrun⟩
        | malformed => exact bind_error hfun
      | ok ls =>
        rw [hwalk] at hfun
        obtain ⟨fn, s', hrun, hgsyms, hqueued⟩ := hfun
        have hbound := walkFunction_bounded globals l.params l.body ls hwalk
        have hq' : queued s' = (rest.map fun l => (l.params, l.body)) ++ ls := hqueued
        have hw : weight (queued s') =
            weight (rest.map fun l => (l.params, l.body)) + weight ls := by
          rw [hq', weight_append]
        refine .step hrun ?_
        have hrest := ih n s' (by omega) (by omega) (hglobals.congr hgsyms)
        rw [hq'] at hrest
        exact Ends.last hrest fun c fns s'' hsome =>
          ⟨fns.map (fn :: ·), s'', rfl, Option.isSome_map.trans hsome⟩

theorem walkProgram_eq (program : Datum) :
    walkProgram program = walkGlobals program >>= fun names =>
      walkDefuns (names ++ ["write", "exit"]) program >>= fun ls =>
        walkTop (fun name => decide (name ∈ names ++ ["write", "exit"])) program >>= fun ls' =>
          walkLambdas (names ++ ["write", "exit"]) (2 * program.pairs) (ls ++ ls') := rfl

theorem scmLower_ends (fuel : Nat) (program : Datum) (fn : Func)
    (hfuel : 2 * program.pairs ≤ fuel) :
    Ends (scmLower fuel program) (walkProgram program) { fn := fn }
      fun _ fns _ => fns.isSome = true := by
  rw [walkProgram_eq]
  refine (registerGlobals_ends program _).bind fun ns _ s1 hs1 => ?_
  obtain ⟨s2, hwrite, hqueued2, hnames2⟩ := addRuntime_run "write" 3 s1
  obtain ⟨s3, hexit, hqueued3, hnames3⟩ := addRuntime_run "exit" 1 s2
  have hglobals : SameGlobals (ns ++ ["write", "exit"]) s3 := by
    intro name
    rw [hnames3, hnames2, hs1.1]
    simp [or_assoc]
  have hqueue : queued s3 = [] := by
    rw [hqueued3, hqueued2, hs1.2]
    rfl
  refine .step hwrite (.step hexit ?_)
  refine (lowerDefuns_follows program hglobals).result.bind fun ls defuns s4 hs4 => ?_
  obtain ⟨hls, hgsyms4, hqueued4⟩ := hs4
  refine (lowerMain_follows program (hglobals.congr hgsyms4)).result.bind
    fun ls' main s5 hs5 => ?_
  obtain ⟨hls', hgsyms5, hqueued5⟩ := hs5
  have hlambdas : queued s5 = ls ++ ls' := by
    rw [hqueued5, hqueued4, hqueue]
    rfl
  have hweight : weight (queued s5) ≤ 2 * program.pairs := by
    have hle := walkDefuns_bounded _ program ls hls
    have hle' := walkTop_bounded _ program ls' hls'
    rw [hlambdas, weight_append]
    omega
  have hlast := lowerLifted_ends fuel (2 * program.pairs) s5 (hweight.trans hfuel) hweight
    ((hglobals.congr hgsyms4).congr hgsyms5)
  rw [hlambdas] at hlast
  exact hlast.last fun _ fns s6 hsome =>
    ⟨fns.map fun fns => defuns ++ main :: fns, s6, rfl, Option.isSome_map.trans hsome⟩

/-- From some fuel on the program is lowered to its functions, or a message is reported. -/
def LowersOrReports (program : Datum) : Prop :=
  ∀ fn, ∃ n, ∀ fuel, n ≤ fuel →
    (∃ fns s, scmLower fuel program { fn := fn } = .ok (some fns, s)) ∨
      ∃ msg, scmLower fuel program { fn := fn } = .error (.die msg)

theorem not_lowers_of_malformed {program : Datum}
    (hwalk : walkProgram program = .error .malformed) : ¬ LowersOrReports program := by
  intro h
  obtain ⟨n, hn⟩ := h (irNewFunc "main")
  have hends := scmLower_ends (max n (2 * program.pairs)) program (irNewFunc "main")
    (le_max_right _ _)
  rw [hwalk] at hends
  have hrun : scmLower (max n (2 * program.pairs)) program { fn := irNewFunc "main" } =
      .error .wild := hends
  cases hn _ (le_max_left _ _) with
  | inl hok =>
    obtain ⟨fns, s, hok⟩ := hok
    rw [hrun] at hok
    cases hok
  | inr hdie =>
    obtain ⟨msg, hdie⟩ := hdie
    rw [hrun] at hdie
    cases hdie

/-- No part of a form is read that is not there, exactly when no malformed form comes first. -/
theorem lowersOrReports_iff (program : Datum) :
    LowersOrReports program ↔ walkProgram program ≠ .error .malformed := by
  constructor
  · intro h hwalk
    exact not_lowers_of_malformed hwalk h
  · intro hwalk fn
    refine ⟨2 * program.pairs, fun fuel hfuel => ?_⟩
    have hends := scmLower_ends fuel program fn hfuel
    cases hw : walkProgram program with
    | error h =>
      rw [hw] at hends
      cases h with
      | reported => exact .inr hends
      | malformed => exact absurd hw hwalk
    | ok _ =>
      rw [hw] at hends
      obtain ⟨fns, s, hrun, hsome⟩ := hends
      obtain ⟨fns, rfl⟩ := Option.isSome_iff_exists.1 hsome
      exact .inl ⟨fns, s, hrun⟩

/-- The program `(+ 1)`: `lower_add` takes its second operand from the empty list. -/
theorem plus_one_operand :
    ¬ LowersOrReports (.pair (.pair (.sym "+") (.pair (.fix 1) .nil)) .nil) :=
  not_lowers_of_malformed (by rfl)

end MechanicalResearcher.PortableCompiler.Scheme
