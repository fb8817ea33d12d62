import Mathlib.Data.Nat.Digits.Defs
import Mathlib.Data.Nat.Digits.Lemmas
import MechanicalResearcher.Lib.Flags

/-!
# Numbers of several words

Limbs of one width, the least significant first, and the sums and differences of such numbers:
what the words of a sum and the carries between them make of the whole.
-/

namespace MechanicalResearcher.Lib.Limbs

open Flags

variable {w n c c' : ℕ} {xs ys rs : List (BitVec w)} {x y r : BitVec w}

/-- The number that the limbs stand for. -/
def value (xs : List (BitVec w)) : ℕ := Nat.ofDigits (2 ^ w) (xs.map BitVec.toNat)

/-- The limbs as one wide word. -/
def whole (n : ℕ) (xs : List (BitVec w)) : BitVec (w * n) := BitVec.ofNat _ (value xs)

@[simp] theorem value_singleton (x : BitVec w) : value [x] = x.toNat := by
  simp [value]

theorem value_append (xs : List (BitVec w)) (x : BitVec w) :
    value (xs ++ [x]) = value xs + 2 ^ (w * xs.length) * x.toNat := by
  rw [value, List.map_append, Nat.ofDigits_append, List.length_map, ← Nat.pow_mul]
  simp [value]

theorem value_lt (hw : 0 < w) (xs : List (BitVec w)) : value xs < 2 ^ (w * xs.length) := by
  have hbase : 1 < 2 ^ w := Nat.one_lt_two_pow (by omega)
  have hdigit : ∀ d ∈ xs.map BitVec.toNat, d < 2 ^ w := by
    intro d hd
    obtain ⟨x, -, rfl⟩ := List.mem_map.mp hd
    exact x.isLt
  have hlt := Nat.ofDigits_lt_base_pow_length hbase hdigit
  rwa [List.length_map, ← Nat.pow_mul] at hlt

theorem value_append_eq_zero (xs : List (BitVec w)) (x : BitVec w) :
    value (xs ++ [x]) = 0 ↔ value xs = 0 ∧ x = 0 := by
  have hpow : 0 < 2 ^ (w * xs.length) := Nat.two_pow_pos _
  rw [value_append, Nat.add_eq_zero_iff, Nat.mul_eq_zero, ← BitVec.toNat_inj]
  simp

theorem toNat_whole (hw : 0 < w) (hn : xs.length = n) : (whole n xs).toNat = value xs := by
  have hlt := value_lt hw xs
  rw [hn] at hlt
  rw [whole, BitVec.toNat_ofNat, Nat.mod_eq_of_lt hlt]

theorem msb_whole_append (hw : 0 < w) (hn : xs.length = n) (x : BitVec w) :
    (whole (n + 1) (xs ++ [x])).msb = x.msb := by
  have hlen : (xs ++ [x]).length = n + 1 := by simp [hn]
  have hlt := value_lt hw xs
  have hpow : 2 ^ (w * (n + 1) - 1) = 2 ^ (w * n) * 2 ^ (w - 1) := by
    rw [← Nat.pow_add, Nat.mul_succ]
    congr 1
    omega
  rw [hn] at hlt
  rw [Bool.eq_iff_iff, msb_iff, msb_iff, toNat_whole hw hlen, value_append, hn, hpow]
  constructor
  · intro h
    by_contra hx
    have hmul : 2 ^ (w * n) * (x.toNat + 1) ≤ 2 ^ (w * n) * 2 ^ (w - 1) :=
      Nat.mul_le_mul_left _ (by omega)
    rw [Nat.mul_succ] at hmul
    omega
  · intro h
    have hmul := Nat.mul_le_mul_left (2 ^ (w * n)) h
    omega

theorem msb_whole_singleton (hw : 0 < w) (x : BitVec w) : (whole 1 [x]).msb = x.msb :=
  @msb_whole_append w 0 [] hw rfl x

/-- The limbs `rs` and the carry `c` are the sum of `xs` and `ys`. -/
structure Adds (xs ys rs : List (BitVec w)) (c n : ℕ) : Prop where
  xs_length : xs.length = n
  ys_length : ys.length = n
  rs_length : rs.length = n
  value_eq : value xs + value ys = value rs + 2 ^ (w * n) * c

theorem Adds.first (h : x.toNat + y.toNat = r.toNat + 2 ^ w * c) : Adds [x] [y] [r] c 1 where
  xs_length := rfl
  ys_length := rfl
  rs_length := rfl
  value_eq := by simpa using h

theorem Adds.next (h : Adds xs ys rs c n) (hr : x.toNat + y.toNat + c = r.toNat + 2 ^ w * c') :
    Adds (xs ++ [x]) (ys ++ [y]) (rs ++ [r]) c' (n + 1) where
  xs_length := by simp [h.xs_length]
  ys_length := by simp [h.ys_length]
  rs_length := by simp [h.rs_length]
  value_eq := by
    have hmul := congrArg (2 ^ (w * n) * ·) hr
    simp only [Nat.mul_add, ← Nat.mul_assoc, ← Nat.pow_add] at hmul
    rw [value_append, value_append, value_append, h.xs_length, h.ys_length, h.rs_length,
      Nat.mul_succ]
    have hval := h.value_eq
    omega

theorem Adds.isSum (h : Adds xs ys rs c n) (hw : 0 < w) :
    IsSum (whole n xs) (whole n ys) (whole n rs) := by
  have hlt := value_lt hw rs
  rw [h.rs_length] at hlt
  rw [IsSum, toNat_whole hw h.xs_length, toNat_whole hw h.ys_length, toNat_whole hw h.rs_length,
    h.value_eq, Nat.add_mul_mod_self_left, Nat.mod_eq_of_lt hlt]

/-- The limbs `rs` and the borrow `c` are the difference of `ys` and `xs`. -/
structure Subtracts (xs ys rs : List (BitVec w)) (c n : ℕ) : Prop where
  xs_length : xs.length = n
  ys_length : ys.length = n
  rs_length : rs.length = n
  value_eq : value ys + 2 ^ (w * n) * c = value rs + value xs

theorem Subtracts.first (h : y.toNat + 2 ^ w * c = r.toNat + x.toNat) :
    Subtracts [x] [y] [r] c 1 where
  xs_length := rfl
  ys_length := rfl
  rs_length := rfl
  value_eq := by simpa using h

theorem Subtracts.next (h : Subtracts xs ys rs c n)
    (hr : y.toNat + 2 ^ w * c' = r.toNat + x.toNat + c) :
    Subtracts (xs ++ [x]) (ys ++ [y]) (rs ++ [r]) c' (n + 1) where
  xs_length := by simp [h.xs_length]
  ys_length := by simp [h.ys_length]
  rs_length := by simp [h.rs_length]
  value_eq := by
    have hmul := congrArg (2 ^ (w * n) * ·) hr
    simp only [Nat.mul_add, ← Nat.mul_assoc, ← Nat.pow_add] at hmul
    rw [value_append, value_append, value_append, h.xs_length, h.ys_length, h.rs_length,
      Nat.mul_succ]
    have hval := h.value_eq
    omega

theorem Subtracts.isDifference (h : Subtracts xs ys rs c n) (hw : 0 < w) :
    IsDifference (whole n xs) (whole n ys) (whole n rs) := by
  have hrs := value_lt hw rs
  have hxs := value_lt hw xs
  rw [h.rs_length] at hrs
  rw [h.xs_length] at hxs
  have hval := h.value_eq
  have hsum : value ys + (2 ^ (w * n) - value xs) + 2 ^ (w * n) * c =
      value rs + 2 ^ (w * n) := by omega
  rw [IsDifference, toNat_whole hw h.xs_length, toNat_whole hw h.ys_length,
    toNat_whole hw h.rs_length, ← Nat.add_mul_mod_self_left _ _ c, hsum,
      Nat.add_mod_right, Nat.mod_eq_of_lt hrs]

end MechanicalResearcher.Lib.Limbs
