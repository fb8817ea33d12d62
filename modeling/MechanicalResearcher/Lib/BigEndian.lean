import Mathlib.Algebra.Group.Nat.Defs
import Mathlib.Data.List.Basic

/-!
# Big-endian words in byte lists

Writers and readers for words of sixteen, thirty-two and sixty-four bits.  A reader looks at
the head of its list, so a field at offset `n` of a packet is read with
`List.drop n`.
-/

namespace MechanicalResearcher.Lib.BigEndian

def wr16 (v : UInt16) : List UInt8 :=
  [UInt8.ofNat (v.toNat / 2 ^ 8), UInt8.ofNat v.toNat]

def wr32 (v : UInt32) : List UInt8 :=
  [UInt8.ofNat (v.toNat / 2 ^ 24), UInt8.ofNat (v.toNat / 2 ^ 16),
    UInt8.ofNat (v.toNat / 2 ^ 8), UInt8.ofNat v.toNat]

def wr64 (v : UInt64) : List UInt8 :=
  [UInt8.ofNat (v.toNat / 2 ^ 56), UInt8.ofNat (v.toNat / 2 ^ 48),
    UInt8.ofNat (v.toNat / 2 ^ 40), UInt8.ofNat (v.toNat / 2 ^ 32),
    UInt8.ofNat (v.toNat / 2 ^ 24), UInt8.ofNat (v.toNat / 2 ^ 16),
    UInt8.ofNat (v.toNat / 2 ^ 8), UInt8.ofNat v.toNat]

def rd16 (p : List UInt8) : UInt16 :=
  UInt16.ofNat ((p.getD 0 0).toNat * 2 ^ 8 + (p.getD 1 0).toNat)

def rd32 (p : List UInt8) : UInt32 :=
  UInt32.ofNat ((p.getD 0 0).toNat * 2 ^ 24 + (p.getD 1 0).toNat * 2 ^ 16 +
    (p.getD 2 0).toNat * 2 ^ 8 + (p.getD 3 0).toNat)

def rd64 (p : List UInt8) : UInt64 :=
  (List.range 8).foldl (fun v i => v <<< 8 ||| (p.getD i 0).toUInt64) 0

@[simp] theorem length_wr16 (v : UInt16) : (wr16 v).length = 2 := rfl

@[simp] theorem length_wr32 (v : UInt32) : (wr32 v).length = 4 := rfl

@[simp] theorem length_wr64 (v : UInt64) : (wr64 v).length = 8 := rfl

@[simp] theorem drop_wr16_append (v : UInt16) (rest : List UInt8) (n : Nat) :
    (wr16 v ++ rest).drop (n + 2) = rest.drop n := rfl

@[simp] theorem drop_wr32_append (v : UInt32) (rest : List UInt8) (n : Nat) :
    (wr32 v ++ rest).drop (n + 4) = rest.drop n := rfl

@[simp] theorem getElem?_wr16_append (v : UInt16) (rest : List UInt8) (n : Nat) :
    (wr16 v ++ rest)[n + 2]? = rest[n]? := rfl

@[simp] theorem getElem?_wr32_append (v : UInt32) (rest : List UInt8) (n : Nat) :
    (wr32 v ++ rest)[n + 4]? = rest[n]? := rfl

theorem lt_of_lt_wr16_append {v : UInt16} {rest : List UInt8} {n : Nat}
    (h : n + 2 < (wr16 v ++ rest).length) : n < rest.length :=
  Nat.lt_of_add_lt_add_right h

theorem lt_of_lt_wr32_append {v : UInt32} {rest : List UInt8} {n : Nat}
    (h : n + 4 < (wr32 v ++ rest).length) : n < rest.length :=
  Nat.lt_of_add_lt_add_right h

@[simp] theorem getElem_wr16_append (v : UInt16) (rest : List UInt8) (n : Nat)
    (h : n + 2 < (wr16 v ++ rest).length) :
    getElem (wr16 v ++ rest) (n + 2) h = getElem rest n (lt_of_lt_wr16_append h) := rfl

@[simp] theorem getElem_wr32_append (v : UInt32) (rest : List UInt8) (n : Nat)
    (h : n + 4 < (wr32 v ++ rest).length) :
    getElem (wr32 v ++ rest) (n + 4) h = getElem rest n (lt_of_lt_wr32_append h) := rfl

@[simp] theorem rd16_wr16_append (v : UInt16) (rest : List UInt8) :
    rd16 (wr16 v ++ rest) = v := by
  have hv := v.toNat_lt
  rw [← UInt16.toNat_inj]
  simp only [rd16, wr16, List.cons_append, List.nil_append, List.getD_cons_zero,
    List.getD_cons_succ, UInt8.toNat_ofNat', UInt16.toNat_ofNat']
  omega

@[simp] theorem rd32_wr32_append (v : UInt32) (rest : List UInt8) :
    rd32 (wr32 v ++ rest) = v := by
  have hv := v.toNat_lt
  rw [← UInt32.toNat_inj]
  simp only [rd32, wr32, List.cons_append, List.nil_append, List.getD_cons_zero,
    List.getD_cons_succ, UInt8.toNat_ofNat', UInt32.toNat_ofNat']
  omega

theorem rd64_congr {p q : List UInt8} (h : ∀ i < 8, p.getD i 0 = q.getD i 0) :
    rd64 p = rd64 q := by
  simp only [rd64, List.range, List.range.loop, List.foldl_cons, List.foldl_nil, h 0, h 1, h 2,
    h 3, h 4, h 5, h 6, h 7, Nat.reduceLT]

theorem toNat_rd64_round {acc : UInt64} {x : Nat} (hacc : acc.toNat = x / 2 ^ 8)
    (hx : x < 2 ^ 64) : (acc <<< 8 ||| (UInt8.ofNat x).toUInt64).toNat = x := by
  have hb : x % 2 ^ 8 < 2 ^ 8 := Nat.mod_lt _ (by decide)
  have hshift : (acc <<< 8).toNat = acc.toNat <<< 8 := by
    have hlt : acc.toNat <<< 8 < 2 ^ 64 := by
      rw [Nat.shiftLeft_eq]
      omega
    rw [UInt64.toNat_shiftLeft]
    exact Nat.mod_eq_of_lt hlt
  rw [UInt64.toNat_or, hshift, UInt8.toNat_toUInt64, UInt8.toNat_ofNat',
    ← Nat.shiftLeft_add_eq_or_of_lt hb, Nat.shiftLeft_eq]
  omega

@[simp] theorem rd64_wr64_append (v : UInt64) (rest : List UInt8) :
    rd64 (wr64 v ++ rest) = v := by
  have hv := v.toNat_lt
  have h0 : (0 : UInt64).toNat = v.toNat / 2 ^ 56 / 2 ^ 8 := by simp; omega
  have h1 := toNat_rd64_round h0 (by omega)
  have h2 := toNat_rd64_round (x := v.toNat / 2 ^ 48) (h1.trans (by omega)) (by omega)
  have h3 := toNat_rd64_round (x := v.toNat / 2 ^ 40) (h2.trans (by omega)) (by omega)
  have h4 := toNat_rd64_round (x := v.toNat / 2 ^ 32) (h3.trans (by omega)) (by omega)
  have h5 := toNat_rd64_round (x := v.toNat / 2 ^ 24) (h4.trans (by omega)) (by omega)
  have h6 := toNat_rd64_round (x := v.toNat / 2 ^ 16) (h5.trans (by omega)) (by omega)
  have h7 := toNat_rd64_round (x := v.toNat / 2 ^ 8) (h6.trans (by omega)) (by omega)
  have h8 := toNat_rd64_round (x := v.toNat) h7 hv
  rw [← UInt64.toNat_inj]
  exact h8

end MechanicalResearcher.Lib.BigEndian
