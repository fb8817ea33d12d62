import Mathlib.Data.Set.Basic
import Mathlib.Logic.Equiv.Basic

/-!
# Items that only move

A fixed set of items is spread over locations, at most one item at each.  The
set is conserved when every item sits at exactly one location.  An operation
that takes an item from one place and puts it into an empty one exchanges the
contents of two locations, and that keeps the set conserved.
-/

namespace MechanicalResearcher.Lib.Ownership

variable {L β : Type}

/-- The items of `S` are each at exactly one location of `f`, and nothing else is. -/
structure Conserved (S : Set β) (f : L → Option β) : Prop where
  mem : ∀ l b, f l = some b → b ∈ S
  unique : ∀ b ∈ S, ∃! l, f l = some b

namespace Conserved

variable {S : Set β} {f g : L → Option β}

theorem inj (h : Conserved S f) {l l' : L} {b : β} (hl : f l = some b) (hl' : f l' = some b) :
    l = l' :=
  (h.unique b (h.mem l b hl)).unique hl hl'

theorem swap (h : Conserved S f) (l1 l2 : L) (h1 : g l1 = f l2) (h2 : g l2 = f l1)
    (hrest : ∀ l, l ≠ l1 → l ≠ l2 → g l = f l) : Conserved S g := by
  classical
  have hg : ∀ l, g l = f (Equiv.swap l1 l2 l) := by
    intro l
    by_cases e1 : l = l1
    · rw [e1, Equiv.swap_apply_left, h1]
    by_cases e2 : l = l2
    · rw [e2, Equiv.swap_apply_right, h2]
    · rw [Equiv.swap_apply_of_ne_of_ne e1 e2, hrest l e1 e2]
  refine ⟨fun l b hl => h.mem _ b ((hg l).symm.trans hl), fun b hb => ?_⟩
  obtain ⟨l, hl, huniq⟩ := h.unique b hb
  refine ⟨Equiv.swap l1 l2 l, ?_, fun l' hl' => ?_⟩
  · simp only [hg, Equiv.swap_apply_self]
    exact hl
  · rw [← huniq _ ((hg l').symm.trans hl'), Equiv.swap_apply_self]

end Conserved

end MechanicalResearcher.Lib.Ownership
