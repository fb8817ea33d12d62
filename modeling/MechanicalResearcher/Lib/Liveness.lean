import Mathlib.Data.List.Basic

/-!
# Liveness along paths

A program as a graph of positions.  Each position defines some variables, and `live` assigns to
it the variables whose values are still wanted there.  When nothing is live at the start and an
edge only makes live what its source has or defines, every live variable was defined before on
every path, and it is live at each position from its last definition on.

A path may also come to a position otherwise than by an edge, if nothing but what the position
defines is wanted behind it.
-/

namespace MechanicalResearcher.Lib.Liveness

variable {T : Type} {edge : Nat → Nat → Prop} {fresh : Nat → Prop} {defs live : Nat → T → Prop}
  {start : Nat} {path : List Nat}

/-- The positions of a path in the order in which they are executed. -/
structure Path (edge : Nat → Nat → Prop) (fresh : Nat → Prop) (start : Nat) (path : List Nat) :
    Prop where
  head : path.head? = some start
  next : ∀ k p q, path[k]? = some p → path[k + 1]? = some q → edge p q ∨ fresh q

structure Sound (edge : Nat → Nat → Prop) (fresh : Nat → Prop) (defs live : Nat → T → Prop)
    (start : Nat) : Prop where
  start : ∀ t, ¬ live start t
  kept : ∀ p q t, edge p q → live q t → live p t ∨ defs p t
  made : ∀ p q t, fresh p → edge p q → live q t → defs p t

/-- The step to position `j` of the path is an edge. -/
def Entered (edge : Nat → Nat → Prop) (path : List Nat) (j : Nat) : Prop :=
  ∀ k p q, k + 1 = j → path[k]? = some p → path[j]? = some q → edge p q

theorem Sound.exists_last_def (h : Sound edge fresh defs live start)
    (hpath : Path edge fresh start path) {j p : Nat} {t : T} (hj : path[j]? = some p)
    (hlive : live p t) (hentered : Entered edge path j) :
    ∃ i q, i < j ∧ path[i]? = some q ∧ defs q t ∧ ∀ k r, i < k → k ≤ j → path[k]? = some r →
      live r t ∧ (k < j → ¬ defs r t) := by
  induction j generalizing p with
  | zero =>
    have hstart := hpath.head
    rw [List.head?_eq_getElem?, hj] at hstart
    cases hstart
    exact absurd hlive (h.start t)
  | succ j ih =>
    obtain ⟨hlt, -⟩ := List.getElem?_eq_some_iff.1 hj
    have hprev : path[j]? = some path[j] := List.getElem?_eq_getElem (by omega)
    have hedge := hentered j _ _ rfl hprev hj
    by_cases hdef : defs path[j] t
    · refine ⟨j, path[j], Nat.lt_succ_self j, hprev, hdef, ?_⟩
      intro k r hk hkj hr
      obtain rfl : k = j + 1 := by omega
      rw [hj] at hr
      cases hr
      exact ⟨hlive, fun hlt => absurd hlt (Nat.lt_irrefl _)⟩
    · have hlive' : live path[j] t := (h.kept _ _ t hedge hlive).resolve_right hdef
      have hentered' : Entered edge path j := fun k q r hk hq hr => by
        subst hk
        rw [hprev] at hr
        cases hr
        exact (hpath.next k q _ hq hprev).resolve_right fun hfresh =>
          hdef (h.made _ _ t hfresh hedge hlive)
      obtain ⟨i, q, hi, hq, hqdef, hbetween⟩ := ih hprev hlive' hentered'
      refine ⟨i, q, Nat.lt_succ_of_lt hi, hq, hqdef, ?_⟩
      intro k r hk hkj hr
      by_cases hkj' : k ≤ j
      · obtain ⟨hr', hndef⟩ := hbetween k r hk hkj' hr
        refine ⟨hr', fun _ => ?_⟩
        by_cases hlt : k < j
        · exact hndef hlt
        · obtain rfl : k = j := by omega
          rw [hprev] at hr
          cases hr
          exact hdef
      · obtain rfl : k = j + 1 := by omega
        rw [hj] at hr
        cases hr
        exact ⟨hlive, fun hlt => absurd hlt (Nat.lt_irrefl _)⟩

end MechanicalResearcher.Lib.Liveness
