import Mathlib.Algebra.Group.Nat.Defs
import Mathlib.Logic.Function.Basic
import Mathlib.Tactic.Common

/-!
# Little-endian accesses to a byte memory

`load` and `store` move the low `n` bytes of a value of `k` bits between it and `n` addresses that
may wrap.
-/

namespace MechanicalResearcher.Lib.LittleEndian

variable {w k : Nat}

/-- The value of the `n` bytes from `a` on. -/
def load (k : Nat) (m : BitVec w → BitVec 8) (a : BitVec w) (n : Nat) : BitVec k :=
  (List.range n).foldl
    (fun v i => v ||| (m (a + BitVec.ofNat w i)).zeroExtend k <<< (8 * i)) 0

/-- The memory with the low `n` bytes of `v` from `a` on. -/
def store (m : BitVec w → BitVec 8) (a : BitVec w) (n : Nat) (v : BitVec k) :
    BitVec w → BitVec 8 :=
  fun x => if (x - a).toNat < n then v.extractLsb' (8 * (x - a).toNat) 8 else m x

variable {m m' : BitVec w → BitVec 8} {a a' x : BitVec w} {n : Nat} {v : BitVec k}

theorem load_succ : load k m a (n + 1) =
    load k m a n ||| (m (a + BitVec.ofNat w n)).zeroExtend k <<< (8 * n) := by
  rw [load, List.range_succ, List.foldl_append]
  rfl

theorem getLsbD_load (j : Nat) (hj : j < k) : (load k m a n).getLsbD j =
    (decide (j < 8 * n) && (m (a + BitVec.ofNat w (j / 8))).getLsbD (j % 8)) := by
  induction n with
  | zero => simp [load]
  | succ n ih =>
    rw [load_succ, BitVec.getLsbD_or, ih, BitVec.getLsbD_shiftLeft, BitVec.getLsbD_setWidth]
    by_cases hlow : j < 8 * n
    · have hnext : j < 8 * (n + 1) := by omega
      simp [hlow, hnext]
    · by_cases hhere : j < 8 * (n + 1)
      · have hdiv : j / 8 = n := by omega
        have hmod : j - 8 * n = j % 8 := by omega
        have hlt : j % 8 < k := by omega
        simp [hlow, hhere, hdiv, hmod, hj, hlt]
      · have hbeyond : 8 ≤ j - 8 * n := by omega
        simp [hlow, hhere, hj, BitVec.getLsbD_of_ge _ _ hbeyond]

theorem load_congr (hbytes : ∀ i < n, m (a + BitVec.ofNat w i) = m' (a' + BitVec.ofNat w i)) :
    load k m a n = load k m' a' n := by
  induction n with
  | zero => rfl
  | succ n ih =>
    rw [load_succ, load_succ, ih fun i hi => hbytes i (Nat.lt_succ_of_lt hi),
      hbytes n (Nat.lt_succ_self n)]

theorem eq_of_load (hn : 8 * n ≤ k) (h : load k m a n = load k m' a' n) {i : Nat} (hi : i < n) :
    m (a + BitVec.ofNat w i) = m' (a' + BitVec.ofNat w i) := by
  apply BitVec.eq_of_getLsbD_eq
  intro j hj
  have hbit := congrArg (fun v => v.getLsbD (8 * i + j)) h
  have hdiv : (8 * i + j) / 8 = i := by omega
  have hmod : (8 * i + j) % 8 = j := by omega
  have hlt : 8 * i + j < 8 * n := by omega
  have hlt' : 8 * i + j < k := by omega
  simpa [getLsbD_load _ hlt', hlt, hdiv, hmod] using hbit

theorem sub_add_ofNat {i : Nat} (hi : i < 2 ^ w) : (a + BitVec.ofNat w i - a).toNat = i := by
  rw [BitVec.add_comm, BitVec.add_sub_cancel, BitVec.toNat_ofNat, Nat.mod_eq_of_lt hi]

theorem store_here (hn : n ≤ 2 ^ w) {i : Nat} (hi : i < n) :
    store m a n v (a + BitVec.ofNat w i) = v.extractLsb' (8 * i) 8 := by
  rw [store, sub_add_ofNat (Nat.lt_of_lt_of_le hi hn), if_pos hi]

theorem store_else (hx : n ≤ (x - a).toNat) : store m a n v x = m x :=
  if_neg (Nat.not_lt.2 hx)

theorem load_store (hn : n ≤ 2 ^ w) :
    load k (store m a n v) a n = (v.truncate (8 * n)).zeroExtend k := by
  apply BitVec.eq_of_getLsbD_eq
  intro j hj
  rw [getLsbD_load j hj, BitVec.getLsbD_setWidth, BitVec.getLsbD_setWidth]
  by_cases hlow : j < 8 * n
  · have hi : j / 8 < n := by omega
    rw [store_here hn hi, BitVec.getLsbD_extractLsb', Nat.div_add_mod]
    simp [hlow, hj, Nat.mod_lt]
  · simp [hlow]

theorem store_succ (hn : n < 2 ^ w) : store m a (n + 1) v =
    Function.update (store m a n v) (a + BitVec.ofNat w n) (v.extractLsb' (8 * n) 8) := by
  funext x
  by_cases hx : x = a + BitVec.ofNat w n
  · rw [hx, Function.update_self, store, sub_add_ofNat hn, if_pos (Nat.lt_succ_self n)]
  · rw [Function.update_of_ne hx, store, store]
    have hne : (x - a).toNat ≠ n := by
      intro heq
      apply hx
      rw [← heq, BitVec.ofNat_toNat, BitVec.setWidth_eq, BitVec.add_comm, BitVec.sub_add_cancel]
    by_cases hlt : (x - a).toNat < n
    · rw [if_pos hlt, if_pos (Nat.lt_succ_of_lt hlt)]
    · rw [if_neg hlt, if_neg (by omega)]

theorem store_zero : store m a 0 v = m := rfl

end MechanicalResearcher.Lib.LittleEndian
