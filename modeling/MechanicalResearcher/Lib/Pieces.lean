import MechanicalResearcher.Lib.Memory
import Mathlib.Tactic.Ring

/-!
# A byte string cut into pieces

`piece size d t` is the `t`-th piece of `d` when it is cut every `size` bytes.
A memory that holds every piece at its place holds the byte string.
-/

namespace MechanicalResearcher.Lib.Pieces

open Memory

variable {size n t : Nat} {d : List UInt8}

def piece (size : Nat) (d : List UInt8) (t : Nat) : List UInt8 := (d.drop (t * size)).take size

/-- `d` is cut into `n` pieces, none of them empty. -/
structure Cut (size n : Nat) (d : List UInt8) : Prop where
  pos : 0 < n
  lo : (n - 1) * size < d.length
  hi : d.length ≤ n * size

theorem length_piece (size : Nat) (d : List UInt8) (t : Nat) :
    (piece size d t).length = min size (d.length - t * size) := by
  simp [piece]

namespace Cut

theorem start_lt (h : Cut size n d) (ht : t < n) : t * size < d.length :=
  lt_of_le_of_lt (Nat.mul_le_mul_right size (by omega)) h.lo

theorem length_inner (h : Cut size n d) (ht : t + 1 < n) : (piece size d t).length = size := by
  have hlt := h.start_lt ht
  rw [length_piece]
  rw [Nat.succ_mul] at hlt
  omega

theorem length_last (h : Cut size n d) :
    (n - 1) * size + (piece size d (n - 1)).length = d.length := by
  have hlo := h.lo
  have hhi := h.hi
  obtain ⟨m, rfl⟩ : ∃ m, n = m + 1 := ⟨n - 1, by have := h.pos; omega⟩
  rw [length_piece]
  simp only [Nat.add_sub_cancel, Nat.succ_mul] at hlo hhi ⊢
  omega

theorem end_le (h : Cut size n d) (ht : t < n) :
    t * size + (piece size d t).length ≤ d.length := by
  have := h.start_lt ht
  rw [length_piece]
  omega

theorem sum_length (h : Cut size n d) :
    ((List.range n).map fun t => (piece size d t).length).sum = d.length := by
  have hinner : ∀ m < n, ((List.range m).map fun t => (piece size d t).length).sum = m * size := by
    intro m hm
    induction m with
    | zero => simp
    | succ m ih =>
      rw [List.range_succ, List.map_append, List.sum_append, ih (by omega), List.map_singleton,
        List.sum_singleton, h.length_inner hm, Nat.succ_mul]
  obtain ⟨m, rfl⟩ : ∃ m, n = m + 1 := ⟨n - 1, by have := h.pos; omega⟩
  rw [List.range_succ, List.map_append, List.sum_append, hinner m (by omega), List.map_singleton,
    List.sum_singleton]
  exact h.length_last

theorem read_eq (h : Cut size n d) {m : Mem} {base : Nat}
    (hm : ∀ t < n, read m (base + t * size) (piece size d t).length = piece size d t) :
    read m base d.length = d := by
  apply List.ext_getElem
  · simp
  · intro x hx hx'
    have hsize : 0 < size := by
      rcases Nat.eq_zero_or_pos size with rfl | hpos
      · have := h.hi
        omega
      · exact hpos
    have hmod := Nat.mod_lt x hsize
    have hdiv : x / size * size + x % size = x := Nat.div_add_mod' x size
    have ht : x / size < n := Nat.div_lt_of_lt_mul (by have := h.hi; rw [Nat.mul_comm]; omega)
    have hlen : x % size < (piece size d (x / size)).length := by
      rw [length_piece]
      omega
    -- byte `x` is byte `x % size` of piece `x / size`
    have hbyte := congrArg (fun l => l[x % size]?) (hm (x / size) ht)
    simp only [Memory.read, List.getElem?_map, List.getElem?_range hlen, Option.map_some] at hbyte
    simp only [piece, List.getElem?_take_of_lt hmod, List.getElem?_drop] at hbyte
    rw [Nat.add_assoc, hdiv, List.getElem?_eq_getElem hx', Option.some.injEq] at hbyte
    simpa [Memory.read] using hbyte

end Cut

end MechanicalResearcher.Lib.Pieces
