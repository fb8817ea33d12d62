import Mathlib.Order.Filter.AtTopBot.Basic

/-!
# Programs with a state and exceptions

Equations for the steps of such a program, and `Gives` for a recursive program that has a bound on
the depth of its calls: every bound that is large enough gives the result.
-/

namespace MechanicalResearcher.Lib.Evaluation

variable {σ ε α β : Type} {s s' s'' : σ} {a : α} {b : β}

theorem bind_apply (m : StateT σ (Except ε) α) (f : α → StateT σ (Except ε) β) (s : σ) :
    (m >>= f) s =
      match m s with
      | .ok (a, s') => f a s'
      | .error e => .error e := by
  cases hm : m s with
  | error e => simp only [bind, StateT.bind, hm, Except.bind]
  | ok p => simp only [bind, StateT.bind, hm, Except.bind]

theorem bind_ok {m : StateT σ (Except ε) α} (f : α → StateT σ (Except ε) β)
    (hm : m s = .ok (a, s')) : (m >>= f) s = f a s' := by
  rw [bind_apply, hm]

@[simp] theorem pure_apply : (pure a : StateT σ (Except ε) α) s = .ok (a, s) := rfl

/-- From some bound on, the program gives the result `a` and the state `s'`. -/
def Gives (m : Nat → StateT σ (Except ε) α) (s : σ) (a : α) (s' : σ) : Prop :=
  ∀ᶠ fuel in Filter.atTop, m fuel s = .ok (a, s')

namespace Gives

variable {m : Nat → StateT σ (Except ε) α} {f : Nat → α → StateT σ (Except ε) β}

theorem of_forall (h : ∀ fuel, m fuel s = .ok (a, s')) : Gives m s a s' :=
  Filter.Eventually.of_forall h

theorem of_eq {m : StateT σ (Except ε) α} (h : m s = .ok (a, s')) : Gives (fun _ => m) s a s' :=
  of_forall fun _ => h

theorem pure : Gives (fun _ => (Pure.pure a : StateT σ (Except ε) α)) s a s := of_eq rfl

theorem bind (hm : Gives m s a s') (hf : Gives (fun fuel => f fuel a) s' b s'') :
    Gives (fun fuel => m fuel >>= f fuel) s b s'' := by
  filter_upwards [hm, hf] with fuel hm hf
  rw [bind_ok _ hm]
  exact hf

theorem succ (h : Gives (fun fuel => m (fuel + 1)) s a s') : Gives m s a s' := by
  obtain ⟨n, hn⟩ := Filter.eventually_atTop.1 h
  refine Filter.eventually_atTop.2 ⟨n + 1, fun fuel hfuel => ?_⟩
  obtain ⟨fuel, rfl⟩ : ∃ k, fuel = k + 1 := ⟨fuel - 1, by omega⟩
  exact hn fuel (Nat.le_of_succ_le_succ hfuel)

theorem exists_bound (h : Gives m s a s') : ∃ n, ∀ fuel, n ≤ fuel → m fuel s = .ok (a, s') :=
  Filter.eventually_atTop.1 h

end Gives

end MechanicalResearcher.Lib.Evaluation
