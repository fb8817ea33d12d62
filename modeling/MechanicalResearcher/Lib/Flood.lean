import Mathlib.Data.Set.Card
import Mathlib.Logic.Relation

/-!
# Flooding a graph with a stack

A flood takes a node off its stack, pushes those of its successors that it has not seen, and
ends when the stack is empty.  `Flooded` is what holds between two turns, for a flood that
starts among the nodes outside of a set `S`: the nodes `done` were taken off the stack and the
nodes `pending` lie on it.  Each node is pushed once, which bounds the stack and the turns; and
where the nodes of `S` cannot be reached, what is left at the end is the region of the start.
-/

namespace MechanicalResearcher.Lib.Flood

open Relation

variable {α : Type} {edge : α → α → Prop} {start a b cur : α} {S : Set α}
  {done pending : List α}

/-- The nodes that can be reached from `start`. -/
def region (edge : α → α → Prop) (start : α) : Set α := {a | ReflTransGen edge start a}

theorem mem_region_self : a ∈ region edge a := ReflTransGen.refl

theorem mem_region_symm (hsymm : ∀ a b, edge a b → edge b a) (h : b ∈ region edge a) :
    a ∈ region edge b := by
  induction h with
  | refl => exact mem_region_self
  | tail _ hab ih => exact ReflTransGen.head (hsymm _ _ hab) ih

theorem region_eq (hsymm : ∀ a b, edge a b → edge b a) (h : b ∈ region edge a) :
    region edge b = region edge a := by
  ext c
  constructor
  · intro hc
    exact ReflTransGen.trans h hc
  · intro hc
    exact ReflTransGen.trans (mem_region_symm hsymm h) hc

theorem region_outside (hsymm : ∀ a b, edge a b → edge b a)
    (hclosed : ∀ a ∈ S, ∀ b, edge a b → b ∈ S) (hstart : start ∉ S)
    (h : a ∈ region edge start) : a ∉ S := by
  induction h with
  | refl => exact hstart
  | tail _ hab ih => exact fun hb => ih (hclosed _ hb _ (hsymm _ _ hab))

structure Flooded (edge : α → α → Prop) (start : α) (S : Set α) (done pending : List α) :
    Prop where
  nodup : (done ++ pending).Nodup
  fresh : ∀ a ∈ done ++ pending, a ∉ S
  reached : ∀ a ∈ done ++ pending, a ∈ region edge start
  started : start ∈ done ++ pending
  closed : ∀ a ∈ done, ∀ b, edge a b → b ∈ S ∨ b ∈ done ++ pending

namespace Flooded

theorem init (h : start ∉ S) : Flooded edge start S [] [start] where
  nodup := List.nodup_singleton start
  fresh a ha := by
    rw [List.mem_singleton.mp ha]
    exact h
  reached a ha := by
    rw [List.mem_singleton.mp ha]
    exact mem_region_self
  started := List.mem_singleton.mpr rfl
  closed a ha := absurd ha List.not_mem_nil

theorem push (h : Flooded edge start S done (cur :: pending)) (hedge : edge cur b)
    (hS : b ∉ S) (hnew : b ∉ done ++ cur :: pending) :
    Flooded edge start S done (cur :: b :: pending) := by
  have hperm : (done ++ cur :: b :: pending).Perm (b :: (done ++ cur :: pending)) := by
    rw [List.append_cons, List.append_cons done cur pending]
    exact List.perm_middle
  have hcur : cur ∈ region edge start :=
    h.reached cur (List.mem_append_right _ List.mem_cons_self)
  constructor
  case nodup => exact hperm.nodup_iff.mpr (List.nodup_cons.mpr ⟨hnew, h.nodup⟩)
  case fresh =>
      intro a ha
      rcases List.mem_cons.mp (hperm.mem_iff.mp ha) with rfl | hold
      · exact hS
      · exact h.fresh a hold
  case reached =>
      intro a ha
      rcases List.mem_cons.mp (hperm.mem_iff.mp ha) with rfl | hold
      · exact ReflTransGen.tail hcur hedge
      · exact h.reached a hold
  case started => exact hperm.mem_iff.mpr (List.mem_cons_of_mem _ h.started)
  case closed =>
      intro a ha c hac
      rcases h.closed a ha c hac with hc | hc
      · exact Or.inl hc
      · exact Or.inr (hperm.mem_iff.mpr (List.mem_cons_of_mem _ hc))

theorem pop (h : Flooded edge start S done (cur :: pending))
    (hall : ∀ b, edge cur b → b ∈ S ∨ b ∈ done ++ cur :: pending) :
    Flooded edge start S (cur :: done) pending := by
  have hperm : (cur :: done ++ pending).Perm (done ++ cur :: pending) := List.perm_middle.symm
  constructor
  case nodup => exact hperm.nodup_iff.mpr h.nodup
  case fresh => exact fun a ha => h.fresh a (hperm.mem_iff.mp ha)
  case reached => exact fun a ha => h.reached a (hperm.mem_iff.mp ha)
  case started => exact hperm.mem_iff.mpr h.started
  case closed =>
      intro a ha b hab
      rw [hperm.mem_iff]
      rcases List.mem_cons.mp ha with rfl | ha
      · exact hall b hab
      · exact h.closed a ha b hab

theorem length_le (h : Flooded edge start S done pending) (nodes : Finset α)
    (hnodes : ∀ a ∈ region edge start, a ∈ nodes) :
    done.length + pending.length ≤ nodes.card := by
  classical
  rw [← List.length_append, ← List.toFinset_card_of_nodup h.nodup]
  apply Finset.card_le_card
  intro a ha
  exact hnodes a (h.reached a (List.mem_toFinset.mp ha))

theorem mem_done_iff (h : Flooded edge start S done [])
    (hS : ∀ a ∈ region edge start, a ∉ S) : a ∈ done ↔ a ∈ region edge start := by
  constructor
  · intro ha
    exact h.reached a (List.mem_append_left _ ha)
  · intro ha
    induction ha with
    | refl => simpa using h.started
    | tail hreach hab ih =>
      rcases h.closed _ ih _ hab with hb | hb
      · exact absurd hb (hS _ (ReflTransGen.tail hreach hab))
      · simpa using hb

theorem ncard_region (h : Flooded edge start S done [])
    (hS : ∀ a ∈ region edge start, a ∉ S) : (region edge start).ncard = done.length := by
  classical
  have hset : region edge start = (done.toFinset : Set α) := by
    ext a
    rw [← h.mem_done_iff hS, Finset.mem_coe, List.mem_toFinset]
  have hnodup : done.Nodup := by simpa using h.nodup
  rw [hset, Set.ncard_coe_finset, List.toFinset_card_of_nodup hnodup]

end Flooded

end MechanicalResearcher.Lib.Flood
