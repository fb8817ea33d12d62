import Mathlib.Data.Nat.Notation
import Mathlib.Tactic.SplitIfs

/-!
# Accesses that are in range

A function that takes elements of arrays is modelled beside the list of its accesses.
`Safe P as` says that each access of the list satisfies `P`; its rules follow the
branches of such a list.
-/

namespace MechanicalResearcher.Lib

variable {α β : Type} {P : α → Prop} {as as' : List α}

/-- Every access of a list is in range. -/
abbrev Safe (P : α → Prop) (as : List α) : Prop := ∀ a ∈ as, P a

namespace Safe

theorem nil : Safe P [] := nofun

theorem cons {a : α} (ha : P a) (h : Safe P as) : Safe P (a :: as) := by
  intro b hb
  rcases List.mem_cons.mp hb with rfl | hb
  · exact ha
  · exact h b hb

theorem append (h : Safe P as) (h' : Safe P as') : Safe P (as ++ as') := by
  intro a ha
  rcases List.mem_append.mp ha with ha | ha
  · exact h a ha
  · exact h' a ha

theorem ite {c : Prop} [Decidable c] (h : c → Safe P as) (h' : ¬c → Safe P as') :
    Safe P (if c then as else as') := by
  split_ifs with hc
  · exact h hc
  · exact h' hc

theorem append_iff : Safe P (as ++ as') ↔ Safe P as ∧ Safe P as' := List.forall_mem_append

theorem elim {o : Option β} {f : β → List α} (h : ∀ b, o = some b → Safe P (f b)) :
    Safe P (o.elim [] f) := by
  cases o with
  | none => exact nil
  | some b => exact h b rfl

end Safe

section

variable {σ ι : Type}

/-- The accesses of a fold, turn after turn. -/
def runAccesses (step : σ → ι → σ) (accesses : σ → ι → List α) (s : σ) : List ι → List α
  | [] => []
  | i :: is => accesses s i ++ runAccesses step accesses (step s i) is

theorem safe_runAccesses_iff {step : σ → ι → σ} {accesses : σ → ι → List α} (s : σ)
    (is : List ι) : Safe P (runAccesses step accesses s is) ↔
      ∀ k, ∀ hk : k < is.length, Safe P (accesses ((is.take k).foldl step s) is[k]) := by
  induction is generalizing s with
  | nil => exact iff_of_true Safe.nil fun k hk => absurd hk (Nat.not_lt_zero k)
  | cons i is ih =>
    rw [runAccesses, Safe.append_iff, ih]
    constructor
    · rintro ⟨hfirst, hrest⟩ k hk
      cases k with
      | zero => exact hfirst
      | succ k => exact hrest k (Nat.lt_of_succ_lt_succ hk)
    · intro h
      exact ⟨h 0 (Nat.zero_lt_succ _), fun k hk => h (k + 1) (Nat.succ_lt_succ hk)⟩

end

end MechanicalResearcher.Lib
