import Mathlib.Algebra.Group.Nat.Defs
import Mathlib.Data.Set.Insert
import Mathlib.Tactic.Common

/-!
# Periods on a clock that wraps

A period of a 32-bit clock began at `base`; at the time `now` it has run for `now - base`.
While it is not over, `left` is what remains of it, and no wrap of the clock ends it sooner.
`Least b S n` is what a scan of such times computes that starts with a negative number.
-/

namespace MechanicalResearcher.Lib.Countdown

/-- What is left of a period that is not over. -/
def left (period base now : UInt32) : Nat := (period - (now - base)).toNat

theorem toNat_after (now : UInt32) {n : Nat} (h : n < 2 ^ 32) :
    (now + UInt32.ofNat n - now).toNat = n := by
  have hn := now.toNat_lt
  simp only [UInt32.toNat_sub, UInt32.toNat_add, UInt32.toNat_ofNat']
  omega

section Left

variable {period base now t : UInt32}

theorem left_eq (h : now - base < period) :
    left period base now = period.toNat - (now - base).toNat := by
  have hle : now - base ≤ period := by
    rw [UInt32.lt_iff_toNat_lt] at h
    rw [UInt32.le_iff_toNat_le]
    omega
  rw [left, UInt32.toNat_sub_of_le period (now - base) hle]

theorem left_lt (period base now : UInt32) : left period base now < 2 ^ 32 :=
  (period - (now - base)).toNat_lt

theorem left_le (h : now - base < period) : left period base now ≤ period.toNat := by
  rw [left_eq h]
  exact Nat.sub_le _ _

theorem toNat_sub_add (h : (now - base).toNat + (t - now).toNat < 2 ^ 32) :
    (t - base).toNat = (now - base).toNat + (t - now).toNat := by
  have heq : t - base = (now - base) + (t - now) := by
    apply UInt32.toNat_inj.mp
    simp only [UInt32.toNat_sub, UInt32.toNat_add]
    have hn := now.toNat_lt
    have hb := base.toNat_lt
    have ht := t.toNat_lt
    omega
  rw [heq, UInt32.toNat_add, Nat.mod_eq_of_lt h]

theorem left_le_of_over (h : now - base < period) (hover : period ≤ t - base) :
    left period base now ≤ (t - now).toNat := by
  by_contra hlt
  rw [left_eq h] at hlt
  rw [UInt32.lt_iff_toNat_lt] at h
  rw [UInt32.le_iff_toNat_le] at hover
  have hp := period.toNat_lt
  have hsum : (t - base).toNat = (now - base).toNat + (t - now).toNat :=
    toNat_sub_add (by omega)
  omega

theorem over_of_left (h : now - base < period) :
    period ≤ now + UInt32.ofNat (left period base now) - base := by
  have hpos := left_eq h
  rw [UInt32.lt_iff_toNat_lt] at h
  have hp := period.toNat_lt
  have hshift := toNat_after now (n := left period base now) (by omega)
  have hsum : (now + UInt32.ofNat (left period base now) - base).toNat =
      (now - base).toNat + (now + UInt32.ofNat (left period base now) - now).toNat :=
    toNat_sub_add (by omega)
  rw [UInt32.le_iff_toNat_le]
  omega

end Left

/-- `n` is the least of the times `S`, or `b` where there is none. -/
def Least (b : Int) (S : Set Nat) (n : Int) : Prop :=
  (n = b ∧ ∀ x, x ∉ S) ∨ ∃ x ∈ S, n = (x : Int) ∧ ∀ y ∈ S, x ≤ y

section Least

variable {b n : Int} {S T : Set Nat}

theorem Least.congr (h : Least b S n) (hST : ∀ x, x ∈ T ↔ x ∈ S) : Least b T n := by
  rwa [Set.ext hST]

theorem Least.insert (hb : b < 0) (h : Least b S n) (x : Nat) :
    Least b (insert x S) (if n < 0 ∨ (x : Int) < n then (x : Int) else n) := by
  rcases h with ⟨rfl, hnone⟩ | ⟨y, hy, rfl, hmin⟩
  · rw [if_pos (Or.inl hb)]
    refine Or.inr ⟨x, Set.mem_insert x S, rfl, fun z hz => ?_⟩
    rcases Set.mem_insert_iff.mp hz with rfl | hz
    · exact le_rfl
    · exact absurd hz (hnone z)
  · split_ifs with hlt
    · have hxy : x < y := by omega
      refine Or.inr ⟨x, Set.mem_insert x S, rfl, fun z hz => ?_⟩
      rcases Set.mem_insert_iff.mp hz with rfl | hz
      · exact le_rfl
      · exact hxy.le.trans (hmin z hz)
    · refine Or.inr ⟨y, Set.mem_insert_of_mem x hy, rfl, fun z hz => ?_⟩
      rcases Set.mem_insert_iff.mp hz with rfl | hz
      · omega
      · exact hmin z hz

theorem Least.le (h : Least b S n) (hb : b < 0) (hn : 0 ≤ n) {x : Nat} (hx : x ∈ S) :
    n ≤ (x : Int) := by
  rcases h with ⟨rfl, -⟩ | ⟨y, -, rfl, hmin⟩
  · omega
  · exact Int.ofNat_le.mpr (hmin x hx)

theorem Least.mem (h : Least b S n) (hb : b < 0) (hn : 0 ≤ n) : ∃ x ∈ S, n = (x : Int) := by
  rcases h with ⟨rfl, -⟩ | ⟨y, hy, hn, -⟩
  · omega
  · exact ⟨y, hy, hn⟩

theorem Least.none (h : Least b S n) (hn : n < 0) : n = b ∧ ∀ x, x ∉ S := by
  rcases h with h | ⟨y, -, rfl, -⟩
  · exact h
  · omega

theorem Least.nonneg (h : Least b S n) {x : Nat} (hx : x ∈ S) : 0 ≤ n := by
  rcases h with ⟨-, hnone⟩ | ⟨y, -, rfl, -⟩
  · exact absurd hx (hnone x)
  · exact Int.natCast_nonneg y

end Least

end MechanicalResearcher.Lib.Countdown
