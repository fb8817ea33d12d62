import Mathlib.Data.Nat.ModEq
import Mathlib.Tactic.Ring

/-!
# Serial numbers of sixteen bits

A protocol that numbers its messages `0, 1, 2, …` but puts only sixteen bits
on the wire compares the wire numbers by the sign of their wrapped difference.
The lemmas here lift such comparisons back to the unwrapped indices, for
indices that are less than half the number space apart.
-/

namespace MechanicalResearcher.Lib.Serial

/-- The value of `(int16_t)d` for a wrapped difference `d`. -/
def int16 (d : UInt16) : Int :=
  if d.toNat < 2 ^ 15 then (d.toNat : Int) else (d.toNat : Int) - 2 ^ 16

theorem toNat_ofNat_sub (i j : Nat) :
    (UInt16.ofNat i - UInt16.ofNat j).toNat = (i + (2 ^ 16 - j % 2 ^ 16)) % 2 ^ 16 := by
  simp only [UInt16.toNat_sub, UInt16.toNat_ofNat']
  omega

theorem ofNat_eq_iff (i j : Nat) :
    UInt16.ofNat i = UInt16.ofNat j ↔ i % 2 ^ 16 = j % 2 ^ 16 := by
  rw [← UInt16.toNat_inj, UInt16.toNat_ofNat', UInt16.toNat_ofNat']

theorem eq_of_ofNat_eq {i j : Nat} (h : UInt16.ofNat i = UInt16.ofNat j)
    (hlo : i < j + 2 ^ 16) (hhi : j < i + 2 ^ 16) : i = j := by
  rw [ofNat_eq_iff] at h
  omega

theorem int16_ofNat_sub {i j : Nat} (hlo : j ≤ i + 2 ^ 15) (hhi : i < j + 2 ^ 15) :
    int16 (UInt16.ofNat i - UInt16.ofNat j) = (i : Int) - j := by
  unfold int16
  rw [toNat_ofNat_sub]
  split <;> omega

theorem ahead_of_int16 {i j w : Nat} (hlo : j + w ≤ i + 2 ^ 16) (hhi : i < j + 2 ^ 15)
    (hpos : 0 < int16 (UInt16.ofNat i - UInt16.ofNat j))
    (hlt : int16 (UInt16.ofNat i - UInt16.ofNat j) < w) : j < i ∧ i < j + w := by
  unfold int16 at hpos hlt
  rw [toNat_ofNat_sub] at hpos hlt
  split at hpos <;> omega

theorem exists_of_int16 {m n : UInt16} {w : Nat} (hlo : 0 ≤ int16 (m - n))
    (hhi : int16 (m - n) < w) : ∃ x < w, m = UInt16.ofNat (n.toNat + x) := by
  have hm := m.toNat_lt
  have hn := n.toNat_lt
  have hsub : (m - n).toNat = (2 ^ 16 - n.toNat + m.toNat) % 2 ^ 16 := UInt16.toNat_sub m n
  refine ⟨(m - n).toNat, ?_, ?_⟩
  · unfold int16 at hlo hhi
    split_ifs at hlo hhi <;> omega
  · rw [← UInt16.toNat_inj, UInt16.toNat_ofNat', hsub]
    omega

@[simp] theorem ofNat_add_one (i : Nat) :
    UInt16.ofNat i + 1 = UInt16.ofNat (i + 1) := by
  rw [← UInt16.toNat_inj, UInt16.toNat_add, UInt16.toNat_ofNat', UInt16.toNat_ofNat']
  simp

end MechanicalResearcher.Lib.Serial
