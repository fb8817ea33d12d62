import Mathlib.Data.BitVec

/-!
# Sliding replay windows

A window of width `w` remembers the highest number accepted so far and, in a
mask, which of the `w` numbers up to it were accepted: bit `i` of the mask
stands for the number `top - i`.  Numbers start at one.

`accept_isSome_iff` says which numbers are let through; by `seen_of_accept` and
`Seen.accept` no run of `accept` lets a number through twice.  `Holds` says that the mask is
the recent part of a history, and `Holds.accept_isSome` puts the decision in terms of it.
-/

namespace MechanicalResearcher.Lib.ReplayWindow

structure Window (w : Nat) where
  top : Nat
  mask : BitVec w

namespace Window

variable {w : Nat}

/-- The number is one the window will not let through again. -/
def Seen (s : Window w) (n : Nat) : Prop :=
  n ≤ s.top ∧ (w ≤ s.top - n ∨ s.mask.getLsbD (s.top - n) = true)

instance (s : Window w) (n : Nat) : Decidable (s.Seen n) :=
  inferInstanceAs (Decidable (_ ∧ _))

def accept (s : Window w) (n : Nat) : Option (Window w) :=
  if n = 0 then none
  else if s.top < n then some ⟨n, s.mask <<< (n - s.top) ||| 1#w⟩
  else if w ≤ s.top - n then none
  else if s.mask.getLsbD (s.top - n) then none
  else some ⟨s.top, s.mask ||| BitVec.twoPow w (s.top - n)⟩

theorem accept_isSome_iff (s : Window w) (n : Nat) :
    (s.accept n).isSome ↔ n ≠ 0 ∧ ¬s.Seen n := by
  unfold accept Seen
  split
  · next hzero => simp [hzero]
  · next hpos =>
    split
    · next hnew =>
      have hgt : ¬n ≤ s.top := by omega
      simp [hpos, hgt]
    · next hle =>
      have hle' : n ≤ s.top := by omega
      split
      · next hold => simp [hold, hle']
      · next hin =>
        split
        · next hbit => simp [hbit, hle']
        · next hbit => simp [hbit, hpos]; omega

theorem Seen.accept {s s' : Window w} {n m : Nat} (h : s.Seen m) (ha : s.accept n = some s') :
    s'.Seen m := by
  obtain ⟨hle, hbit⟩ := h
  unfold Window.accept at ha
  split at ha
  · cases ha
  · split at ha
    · next hlt =>
      cases ha
      refine ⟨by simp only; omega, ?_⟩
      rcases Nat.lt_or_ge (n - m) w with hw | hw
      · right
        have hm : s.mask.getLsbD (s.top - m) = true := by
          rcases hbit with hold | hbit
          · omega
          · exact hbit
        have hi : n - m - (n - s.top) = s.top - m := by omega
        simp [hw, hi, hm]
        omega
      · exact .inl hw
    · split at ha
      · cases ha
      · split at ha
        · cases ha
        · cases ha
          refine ⟨hle, ?_⟩
          rcases hbit with hold | hbit
          · exact .inl hold
          · exact .inr (by simp [hbit])

theorem seen_of_accept {s s' : Window w} {n : Nat} (hw : 0 < w) (ha : s.accept n = some s') :
    s'.Seen n := by
  unfold accept at ha
  split at ha
  · cases ha
  · split at ha
    · cases ha
      exact ⟨Nat.le_refl _, .inr (by simp [hw])⟩
    · split at ha
      · cases ha
      · split at ha
        · cases ha
        · cases ha
          exact ⟨by simp only; omega, .inr (by simp; omega)⟩

/-- The window shows the history `ns` of the numbers that were let through. -/
structure Holds (s : Window w) (ns : List Nat) : Prop where
  pos : ∀ n ∈ ns, n ≠ 0
  le : ∀ n ∈ ns, n ≤ s.top
  top : s.top ≠ 0 → s.top ∈ ns
  bit : ∀ i < w, i < s.top → (s.mask.getLsbD i = true ↔ s.top - i ∈ ns)

theorem Holds.zero (w : Nat) : Holds (⟨0, 0⟩ : Window w) [] :=
  ⟨nofun, nofun, fun h => absurd rfl h, fun i _ hi => absurd hi (Nat.not_lt_zero i)⟩

variable {s s' : Window w} {ns : List Nat} {n : Nat}

theorem Holds.accept_isSome (h : s.Holds ns) :
    (s.accept n).isSome ↔ n ≠ 0 ∧ n ∉ ns ∧ (s.top < n ∨ s.top - n < w) := by
  rw [accept_isSome_iff]
  apply and_congr_right
  intro hpos
  unfold Seen
  constructor
  · intro hnew
    have hin : n ≤ s.top → s.top - n < w ∧ ¬s.mask.getLsbD (s.top - n) = true := by
      intro hle
      rw [not_and, not_or] at hnew
      obtain ⟨hlt, hbit⟩ := hnew hle
      exact ⟨Nat.not_le.mp hlt, hbit⟩
    refine ⟨fun hmem => ?_, ?_⟩
    · have hle := h.le n hmem
      obtain ⟨hlt, hbit⟩ := hin hle
      apply hbit
      rw [h.bit _ hlt (by omega), Nat.sub_sub_self hle]
      exact hmem
    · by_cases hle : n ≤ s.top
      · exact .inr (hin hle).1
      · exact .inl (Nat.not_le.mp hle)
  · rintro ⟨hmem, hnew⟩ ⟨hle, hold | hbit⟩
    · omega
    · have hlt : s.top - n < w := by omega
      rw [h.bit _ hlt (by omega), Nat.sub_sub_self hle] at hbit
      exact hmem hbit

theorem Holds.jump (h : s.Holds ns) (hlt : s.top < n) :
    Holds ⟨n, s.mask <<< (n - s.top) ||| 1#w⟩ (n :: ns) where
  pos := List.forall_mem_cons.mpr ⟨by omega, h.pos⟩
  le := List.forall_mem_cons.mpr ⟨le_rfl, fun m hm => (h.le m hm).trans hlt.le⟩
  top := fun _ => List.mem_cons_self
  bit := by
    intro i hw hi
    simp only at hi ⊢
    rw [BitVec.getLsbD_or, BitVec.getLsbD_shiftLeft, BitVec.getLsbD_one]
    by_cases hzero : i = 0
    · subst hzero
      simp [hw]
    · have hne : n - i ≠ n := by omega
      by_cases hshift : i < n - s.top
      · -- a number that was jumped over
        have hno : n - i ∉ ns := fun hmem => by
          have hle := h.le _ hmem
          omega
        simp [hzero, hshift, hne, hno]
      · have heq : s.top - (i - (n - s.top)) = n - i := by omega
        have hbit := h.bit (i - (n - s.top)) (by omega) (by omega)
        rw [heq] at hbit
        simp [hw, hzero, hshift, hne, hbit]

theorem Holds.mark (h : s.Holds ns) (hpos : n ≠ 0) (hle : n ≤ s.top) (hlt : s.top - n < w) :
    Holds ⟨s.top, s.mask ||| BitVec.twoPow w (s.top - n)⟩ (n :: ns) where
  pos := List.forall_mem_cons.mpr ⟨hpos, h.pos⟩
  le := List.forall_mem_cons.mpr ⟨hle, h.le⟩
  top := fun hne => List.mem_cons_of_mem n (h.top hne)
  bit := by
    intro i hw hi
    simp only at hi ⊢
    rw [BitVec.getLsbD_or, BitVec.getLsbD_twoPow, Bool.or_eq_true, h.bit i hw hi,
      List.mem_cons, Bool.and_eq_true, decide_eq_true_eq, decide_eq_true_eq, or_comm]
    apply or_congr_left
    constructor
    · rintro ⟨-, heq⟩
      omega
    · intro heq
      exact ⟨hlt, by omega⟩

theorem Holds.accept (h : s.Holds ns) (ha : s.accept n = some s') : s'.Holds (n :: ns) := by
  unfold Window.accept at ha
  split at ha
  · cases ha
  · next hpos =>
    split at ha
    · next hlt =>
      cases ha
      exact h.jump hlt
    · next hle =>
      split at ha
      · cases ha
      · next hold =>
        split at ha
        · cases ha
        · cases ha
          exact h.mark hpos (Nat.not_lt.mp hle) (Nat.not_le.mp hold)

theorem Holds.top_eq (h : s.Holds ns) : s.top = ns.foldr max 0 := by
  apply Nat.le_antisymm
  · by_cases hzero : s.top = 0
    · omega
    · have hmem := h.top hzero
      generalize s.top = t at hmem
      clear h hzero
      induction ns with
      | nil => exact absurd hmem List.not_mem_nil
      | cons m ns ih =>
        rw [List.foldr_cons]
        rcases List.mem_cons.mp hmem with heq | hmem
        · omega
        · have hle := ih hmem
          omega
  · have hle := h.le
    clear h
    induction ns with
    | nil => exact Nat.zero_le _
    | cons m ns ih =>
      rw [List.foldr_cons]
      obtain ⟨hm, hns⟩ := List.forall_mem_cons.mp hle
      have hrest := ih hns
      omega

end Window

end MechanicalResearcher.Lib.ReplayWindow
