import Mathlib.Logic.Relation
import Mathlib.Data.Set.Insert

/-!
# Marking a graph

A depth-first marker starts from a set of marked nodes and visits nodes one after another.  What
a visit does to the marks is `Marked`: it adds only reachable nodes, and what it adds is closed
under the edges.  Visits compose, and from no marks at all the marks are the reachable nodes.
-/

namespace MechanicalResearcher.Lib.Marking

open Relation

variable {α : Type} {edge : α → α → Prop} {starts starts' M M' M'' : Set α} {a : α}

/-- The marks `M'` that a visit of `starts` makes of the marks `M`. -/
structure Marked (edge : α → α → Prop) (starts M M' : Set α) : Prop where
  mono : M ⊆ M'
  start : starts ⊆ M'
  closed : ∀ a ∈ M', a ∉ M → ∀ b, edge a b → b ∈ M'
  reached : ∀ a ∈ M', a ∈ M ∨ ∃ r ∈ starts, ReflTransGen edge r a

namespace Marked

theorem refl (h : starts ⊆ M) : Marked edge starts M M where
  mono _ ha := ha
  start := h
  closed _ ha hna := absurd ha hna
  reached _ ha := .inl ha

theorem trans (h : Marked edge starts M M') (h' : Marked edge starts' M' M'') :
    Marked edge (starts ∪ starts') M M'' where
  mono a ha := h'.mono (h.mono ha)
  start := by
    rintro a (ha | ha)
    · exact h'.mono (h.start ha)
    · exact h'.start ha
  closed a ha hna b hab := by
    by_cases hmid : a ∈ M'
    · exact h'.mono (h.closed a hmid hna b hab)
    · exact h'.closed a ha hmid b hab
  reached a ha := by
    obtain hmid | ⟨r, hr, hra⟩ := h'.reached a ha
    · obtain hold | ⟨r, hr, hra⟩ := h.reached a hmid
      · exact .inl hold
      · exact .inr ⟨r, .inl hr, hra⟩
    · exact .inr ⟨r, .inr hr, hra⟩

theorem node (h : Marked edge {b | edge a b} (insert a M) M') : Marked edge {a} M M' where
  mono b hb := h.mono (.inr hb)
  start := by
    rintro b rfl
    exact h.mono (.inl rfl)
  closed b hb hnb c hbc := by
    by_cases hba : b = a
    · subst hba
      exact h.start hbc
    · refine h.closed b hb ?_ c hbc
      rintro (heq | hold)
      · exact hba heq
      · exact hnb hold
  reached b hb := by
    obtain (rfl | hold) | ⟨r, har, hrb⟩ := h.reached b hb
    · exact .inr ⟨b, rfl, .refl⟩
    · exact .inl hold
    · exact .inr ⟨a, rfl, .head har hrb⟩

theorem mem_iff (h : Marked edge starts ∅ M') :
    a ∈ M' ↔ ∃ r ∈ starts, ReflTransGen edge r a := by
  constructor
  · intro ha
    exact (h.reached a ha).resolve_left (Set.notMem_empty a)
  · rintro ⟨r, hr, hra⟩
    induction hra with
    | refl => exact h.start hr
    | tail _ hbc ih => exact h.closed _ ih (Set.notMem_empty _) _ hbc

end Marked

end MechanicalResearcher.Lib.Marking
