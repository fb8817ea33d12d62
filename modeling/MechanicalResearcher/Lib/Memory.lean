import Mathlib.Data.List.Basic

/-!
# A flat byte memory

Copying into, moving within and reading from a memory that is a function from
addresses to bytes, and what a write leaves alone.
-/

namespace MechanicalResearcher.Lib.Memory

abbrev Mem := Nat → UInt8

def write (m : Mem) (dst : Nat) (data : List UInt8) : Mem := fun a =>
  if dst ≤ a ∧ a < dst + data.length then data.getD (a - dst) 0 else m a

/-- The bytes are read before any is written, so the two ranges may overlap. -/
def move (m : Mem) (dst src n : Nat) : Mem := fun a =>
  if dst ≤ a ∧ a < dst + n then m (src + (a - dst)) else m a

def read (m : Mem) (src n : Nat) : List UInt8 :=
  (List.range n).map fun i => m (src + i)

@[simp] theorem length_read (m : Mem) (src n : Nat) : (read m src n).length = n := by
  simp [read]

@[simp] theorem write_nil (m : Mem) (dst : Nat) : write m dst [] = m := by
  funext a
  simp only [write, List.length_nil, Nat.add_zero]
  rw [if_neg (by omega)]

theorem write_apply_of_lt {m : Mem} {dst : Nat} {data : List UInt8} {a : Nat} (h : a < dst) :
    write m dst data a = m a :=
  if_neg (by omega)

theorem write_apply_of_ge {m : Mem} {dst : Nat} {data : List UInt8} {a : Nat}
    (h : dst + data.length ≤ a) : write m dst data a = m a :=
  if_neg (by omega)

theorem move_apply_of_lt {m : Mem} {dst src n a : Nat} (h : a < dst) : move m dst src n a = m a :=
  if_neg (by omega)

theorem move_apply_of_ge {m : Mem} {dst src n a : Nat} (h : dst + n ≤ a) :
    move m dst src n a = m a :=
  if_neg (by omega)

theorem read_congr {m m' : Mem} {src n : Nat} (h : ∀ i < n, m (src + i) = m' (src + i)) :
    read m src n = read m' src n := by
  apply List.map_congr_left
  intro i hi
  exact h i (List.mem_range.1 hi)

theorem read_write_self (m : Mem) (dst : Nat) (data : List UInt8) :
    read (write m dst data) dst data.length = data := by
  apply List.ext_getElem
  · simp
  · intro i hi hi'
    have hin : dst ≤ dst + i ∧ dst + i < dst + data.length := by omega
    simp [read, write, hi']

theorem take_drop_read (m : Mem) (src len off n : Nat) :
    ((read m src len).drop off).take n = read m (src + off) (min (len - off) n) := by
  refine List.ext_getElem (by simp [Nat.min_comm]) fun i hi hi' => ?_
  simp [read, Nat.add_assoc]

end MechanicalResearcher.Lib.Memory
