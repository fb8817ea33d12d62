import Mathlib.Logic.Function.Basic

/-!
# Two endpoints and the packets between them

A packet stays in flight until it is dropped, so a delivered packet can be
delivered again, packets can overtake each other, and one that is never
delivered is lost.  `Net.step_keeps` is the case analysis every joint invariant
of a link goes through: the calls of the two sides, the packets of the two
directions, and loss.
-/

namespace MechanicalResearcher.Lib.Network

variable {C A E P : Type}

/-- A kind of endpoint: a call changes it and sends packets, a packet is heard. -/
structure Endpoint (C A E P : Type) where
  call : C → A → C × List P
  hear : C → E → P → C

structure Net (C P : Type) where
  conn : Bool → C
  /-- the packets each side has sent -/
  flight : Bool → List P

inductive Move (A E : Type)
  | call (side : Bool) (a : A)
  /-- packet `n` of those sent by `side` reaches the other side -/
  | deliver (side : Bool) (n : Nat) (e : E)
  | drop (side : Bool) (n : Nat)

namespace Net

variable (ep : Endpoint C A E P)

def step (net : Net C P) : Move A E → Net C P
  | .call side a =>
    ⟨Function.update net.conn side (ep.call (net.conn side) a).1,
      Function.update net.flight side (net.flight side ++ (ep.call (net.conn side) a).2)⟩
  | .deliver side n e =>
    match (net.flight side)[n]? with
    | none => net
    | some p => ⟨Function.update net.conn (!side) (ep.hear (net.conn !side) e p), net.flight⟩
  | .drop side n => ⟨net.conn, Function.update net.flight side ((net.flight side).eraseIdx n)⟩

def run (net : Net C P) (ms : List (Move A E)) : Net C P := ms.foldl (step ep) net

/-- A relation between the endpoint `a`, the other one and their packets. -/
def Rel (a : Bool) (I : C → C → List P → List P → Prop) (net : Net C P) : Prop :=
  I (net.conn a) (net.conn !a) (net.flight a) (net.flight !a)

theorem step_keeps (a : Bool) {I : C → C → List P → List P → Prop} {net : Net C P}
    (h : net.Rel a I) (m : Move A E)
    (hcall : ∀ x, m = .call a x → I (ep.call (net.conn a) x).1 (net.conn !a)
      (net.flight a ++ (ep.call (net.conn a) x).2) (net.flight !a))
    (hcall' : ∀ x, m = .call (!a) x → I (net.conn a) (ep.call (net.conn !a) x).1
      (net.flight a) (net.flight (!a) ++ (ep.call (net.conn !a) x).2))
    (hhear : ∀ n e p, m = .deliver (!a) n e → (net.flight !a)[n]? = some p →
      I (ep.hear (net.conn a) e p) (net.conn !a) (net.flight a) (net.flight !a))
    (hhear' : ∀ n e p, m = .deliver a n e → (net.flight a)[n]? = some p →
      I (net.conn a) (ep.hear (net.conn !a) e p) (net.flight a) (net.flight !a))
    (hdrop : ∀ f f', f ⊆ net.flight a → f' ⊆ net.flight (!a) →
      I (net.conn a) (net.conn !a) f f') :
    (net.step ep m).Rel a I := by
  have hne : a ≠ !a := by cases a <;> decide
  have hside : ∀ s : Bool, s = a ∨ s = !a := by
    intro s
    cases s <;> cases a <;> simp
  cases m with
  | call side x =>
    rcases hside side with rfl | rfl
    · simpa [Rel, step, hne.symm] using hcall x rfl
    · simpa [Rel, step, hne] using hcall' x rfl
  | deliver side n e =>
    simp only [step]
    cases hp : (net.flight side)[n]? with
    | none => exact h
    | some p =>
      rcases hside side with rfl | rfl
      · simpa [Rel, hne] using hhear' n e p rfl hp
      · simpa [Rel, hne.symm] using hhear n e p rfl hp
  | drop side n =>
    have hsub := List.eraseIdx_subset (l := net.flight side) (k := n)
    rcases hside side with rfl | rfl
    · simpa [Rel, step, hne.symm] using hdrop _ _ hsub (List.Subset.refl _)
    · simpa [Rel, step, hne] using hdrop _ _ (List.Subset.refl _) hsub

end Net

end MechanicalResearcher.Lib.Network
