import Mathlib.Dynamics.PeriodicPts.Lemmas
import Mathlib.Data.Nat.Find

/-!
# Searching an orbit

A loop that draws from a generator until a draw is accepted walks along the orbit of the
generator's state.  On a finite type an injective step only has cycles, so the walk either
meets an accepted state within one turn of the cycle or never does, and every accepted
state is the one found from some other.
-/

namespace MechanicalResearcher.Lib.Orbits

open Function

variable {α : Type} (f : α → α) (P : α → Prop) [DecidablePred P]

/-- The first of the next `n` states that is accepted. -/
def search : Nat → α → Option α
  | 0, _ => none
  | n + 1, a => if P (f a) then some (f a) else search n (f a)

/-- The walk from `a` meets an accepted state. -/
def Meets (a : α) : Prop := ∃ k, P (f^[k + 1] a)

variable {f P}

theorem search_of_first {k : Nat} {a : α} (hk : P (f^[k + 1] a))
    (hfirst : ∀ j < k, ¬ P (f^[j + 1] a)) {n : Nat} (hn : k < n) :
    search f P n a = some (f^[k + 1] a) := by
  induction n generalizing a k with
  | zero => omega
  | succ n ih =>
    rw [search]
    cases k with
    | zero =>
      rw [if_pos (by simpa using hk)]
      rfl
    | succ k =>
      have hstep : ¬ P (f a) := by simpa using hfirst 0 (by omega)
      rw [if_neg hstep]
      exact ih hk (fun j hj => hfirst (j + 1) (by omega)) (by omega)

theorem exists_first {a : α} {m : Nat} (h : P (f^[m + 1] a)) :
    ∃ k ≤ m, P (f^[k + 1] a) ∧ ∀ j < k, ¬ P (f^[j + 1] a) := by
  have hex : ∃ k, P (f^[k + 1] a) := ⟨m, h⟩
  exact ⟨Nat.find hex, Nat.find_min' hex h, Nat.find_spec hex, fun j hj => Nat.find_min hex hj⟩

theorem search_some {n : Nat} {a b : α} (h : search f P n a = some b) :
    ∃ k < n, b = f^[k + 1] a ∧ P b := by
  induction n generalizing a with
  | zero => exact absurd h (by simp [search])
  | succ n ih =>
    rw [search] at h
    by_cases hacc : P (f a)
    · rw [if_pos hacc, Option.some.injEq] at h
      exact ⟨0, by omega, h.symm, h ▸ hacc⟩
    · rw [if_neg hacc] at h
      obtain ⟨k, hk, hb, hP⟩ := ih h
      exact ⟨k + 1, by omega, hb, hP⟩

section Cycle

variable [Fintype α] (hf : Injective f)

include hf

theorem exists_period (a : α) : ∃ n, 0 < n ∧ n ≤ Fintype.card α ∧ f^[n] a = a := by
  have hmem : a ∈ periodicPts f := hf.mem_periodicPts a
  exact ⟨minimalPeriod f a, minimalPeriod_pos_of_mem_periodicPts hmem,
    minimalPeriod_le_card, iterate_minimalPeriod⟩

omit [DecidablePred P] in
theorem Meets.bounded {a : α} (h : Meets f P a) : ∃ k < Fintype.card α, P (f^[k + 1] a) := by
  obtain ⟨k, hk⟩ := h
  obtain ⟨n, hpos, hcard, hper⟩ := exists_period hf a
  have hper' : IsPeriodicPt f n (f a) := IsPeriodicPt.apply_iterate hper 1
  refine ⟨k % n, lt_of_lt_of_le (Nat.mod_lt k hpos) hcard, ?_⟩
  rw [iterate_succ_apply, hper'.iterate_mod_apply k, ← iterate_succ_apply]
  exact hk

theorem Meets.search {a : α} (h : Meets f P a) :
    ∃ k, search f P (Fintype.card α) a = some (f^[k + 1] a) ∧ P (f^[k + 1] a) := by
  obtain ⟨m, hm, hP⟩ := h.bounded hf
  obtain ⟨k, hk, hacc, hfirst⟩ := exists_first hP
  exact ⟨k, search_of_first hacc hfirst (by omega), hacc⟩

omit [DecidablePred P] in
theorem Meets.step {a : α} (h : Meets f P a) : Meets f P (f a) := by
  obtain ⟨k, hk⟩ := h
  obtain ⟨n, hpos, -, hper⟩ := exists_period hf a
  -- one turn further on, past the state after `a`
  refine ⟨n + k - 1, ?_⟩
  have hcount : n + k - 1 + 1 + 1 = (k + 1) + n := by omega
  rw [← iterate_succ_apply, Nat.succ_eq_add_one, hcount, iterate_add_apply, hper]
  exact hk

omit [DecidablePred P] in
theorem Meets.iterate {a : α} (h : Meets f P a) (n : Nat) : Meets f P (f^[n] a) := by
  induction n with
  | zero => exact h
  | succ n ih =>
    rw [iterate_succ_apply']
    exact ih.step hf

omit [DecidablePred P] in
theorem meets_of_accepted {a : α} (h : P a) : Meets f P a := by
  obtain ⟨n, hpos, -, hper⟩ := exists_period hf a
  refine ⟨n - 1, ?_⟩
  rw [Nat.sub_add_cancel hpos, hper]
  exact h

theorem exists_previous {c : α} (h : P c) :
    ∃ a, P a ∧ Orbits.search f P (Fintype.card α) a = some c := by
  obtain ⟨n, hpos, hcard, hper⟩ := exists_period hf c
  -- the last accepted state before the cycle closes
  let k := Nat.findGreatest (fun k => P (f^[k] c)) (n - 1)
  have hk : P (f^[k] c) := Nat.findGreatest_spec (P := fun k => P (f^[k] c)) (Nat.zero_le _) h
  have hle : k ≤ n - 1 := Nat.findGreatest_le _
  have hlast : ∀ j, k < j → j ≤ n - 1 → ¬ P (f^[j] c) := fun j hj hjn =>
    Nat.findGreatest_is_greatest hj hjn
  have hclose : f^[n - 1 - k + 1] (f^[k] c) = c := by
    rw [← iterate_add_apply, show n - 1 - k + 1 + k = n by omega, hper]
  refine ⟨f^[k] c, hk, ?_⟩
  rw [search_of_first (k := n - 1 - k) (by rw [hclose]; exact h) (fun j hj => ?_) (by omega),
    hclose]
  rw [← iterate_add_apply]
  exact hlast (j + 1 + k) (by omega) (by omega)

end Cycle

end MechanicalResearcher.Lib.Orbits
