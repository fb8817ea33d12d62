import Mathlib.Init

/-!
# Guarded runs of a transition function

`Reach init ok step s`: some run of `step` leads from an initial state to `s`,
and every action of the run met the guard `ok` in the state it was taken in.
-/

namespace MechanicalResearcher.Lib.Runs

variable {S A : Type} {init : S → Prop} {ok ok' : S → A → Prop} {step : S → A → S}

inductive Reach (init : S → Prop) (ok : S → A → Prop) (step : S → A → S) : S → Prop
  | start {s : S} : init s → Reach init ok step s
  | next {s : S} {a : A} : Reach init ok step s → ok s a → Reach init ok step (step s a)

/-- The actions of a list meet the guard, one after the other. -/
def Guarded (ok : S → A → Prop) (step : S → A → S) : S → List A → Prop
  | _, [] => True
  | s, a :: as => ok s a ∧ Guarded ok step (step s a) as

instance Guarded.decidable [∀ s a, Decidable (ok s a)] :
    (s : S) → (as : List A) → Decidable (Guarded ok step s as)
  | _, [] => isTrue trivial
  | s, a :: as =>
    haveI := Guarded.decidable (step s a) as
    inferInstanceAs (Decidable (_ ∧ _))

theorem Guarded.and {s : S} {as : List A} (h : Guarded ok step s as)
    (h' : Guarded ok' step s as) : Guarded (fun s a => ok s a ∧ ok' s a) step s as := by
  induction as generalizing s with
  | nil => trivial
  | cons a as ih => exact ⟨⟨h.1, h'.1⟩, ih h.2 h'.2⟩

namespace Reach

theorem invariant {P : S → Prop} (hinit : ∀ s, init s → P s)
    (hstep : ∀ s a, P s → ok s a → P (step s a)) {s : S} (h : Reach init ok step s) : P s := by
  induction h with
  | start h => exact hinit _ h
  | next _ hok ih => exact hstep _ _ ih hok

theorem mono (hok : ∀ s a, ok s a → ok' s a) {s : S} (h : Reach init ok step s) :
    Reach init ok' step s := by
  induction h with
  | start h => exact .start h
  | next _ ha ih => exact ih.next (hok _ _ ha)

theorem run {s : S} (h : Reach init ok step s) (as : List A) (hg : Guarded ok step s as) :
    Reach init ok step (as.foldl step s) := by
  induction as generalizing s with
  | nil => exact h
  | cons a as ih => exact ih (h.next hg.1) hg.2

end Reach

theorem foldlM_invariant {f : S → A → Option S} {P : S → Prop}
    (hstep : ∀ s a s', P s → f s a = some s' → P s') {as : List A} {s s' : S} (hs : P s)
    (h : as.foldlM f s = some s') : P s' := by
  induction as generalizing s with
  | nil =>
    cases h
    exact hs
  | cons a as ih =>
    rw [List.foldlM_cons] at h
    obtain ⟨s1, ha, has⟩ := Option.bind_eq_some_iff.mp h
    exact ih (hstep s a s1 hs ha) has

end MechanicalResearcher.Lib.Runs
