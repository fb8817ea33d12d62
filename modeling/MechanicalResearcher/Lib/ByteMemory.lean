import Mathlib.Data.List.Basic
import Mathlib.Tactic.Common

/-!
# A byte memory with 32-bit addresses

Words and halves are big-endian, and an address wraps.
-/

namespace MechanicalResearcher.Lib.ByteMemory

abbrev Word := BitVec 32

abbrev Mem := Word → BitVec 8

def readB (m : Mem) (a : Word) : BitVec 8 := m a

def readW (m : Mem) (a : Word) : BitVec 16 := m a ++ m (a + 1)

def readL (m : Mem) (a : Word) : Word := m a ++ m (a + 1) ++ m (a + 2) ++ m (a + 3)

def writeB (m : Mem) (a : Word) (v : BitVec 8) : Mem := fun x => if x = a then v else m x

def writeW (m : Mem) (a : Word) (v : BitVec 16) : Mem :=
  writeB (writeB m a (v.extractLsb' 8 8)) (a + 1) (v.extractLsb' 0 8)

def writeL (m : Mem) (a v : Word) : Mem :=
  writeW (writeW m a (v.extractLsb' 16 16)) (a + 2) (v.extractLsb' 0 16)

theorem extract_extract (v : Word) (i j n k : Nat) (h : j + k ≤ n) :
    (v.extractLsb' i n).extractLsb' j k = v.extractLsb' (i + j) k := by
  ext l hl
  have hlt : j + l < n := by omega
  simp only [BitVec.getElem_extractLsb', BitVec.getLsbD_extractLsb', hlt, decide_true,
    Bool.true_and, Nat.add_assoc]

theorem concat_bytes (v : Word) :
    v.extractLsb' 24 8 ++ v.extractLsb' 16 8 ++ v.extractLsb' 8 8 ++ v.extractLsb' 0 8 = v := by
  ext i hi
  simp only [BitVec.getElem_append, BitVec.getElem_extractLsb']
  grind

theorem writeL_apply (m : Mem) (a v x : Word) : writeL m a v x =
    if x = a + 3 then v.extractLsb' 0 8
    else if x = a + 2 then v.extractLsb' 8 8
    else if x = a + 1 then v.extractLsb' 16 8
    else if x = a then v.extractLsb' 24 8
    else m x := by
  have h : a + 2 + 1 = a + 3 := by
    rw [BitVec.add_assoc]
    rfl
  simp only [writeL, writeW, writeB, h]
  rw [extract_extract _ _ _ _ _ (by omega), extract_extract _ _ _ _ _ (by omega),
    extract_extract _ _ _ _ _ (by omega), extract_extract _ _ _ _ _ (by omega)]

theorem readL_writeL (m : Mem) (a v : Word) : readL (writeL m a v) a = v := by
  simp only [readL, writeL_apply]
  simp [concat_bytes]

/-- The same four bytes at `a`. -/
structure SameL (m m' : Mem) (a : Word) : Prop where
  byte0 : m' a = m a
  byte1 : m' (a + 1) = m (a + 1)
  byte2 : m' (a + 2) = m (a + 2)
  byte3 : m' (a + 3) = m (a + 3)

theorem SameL.readL {m m' : Mem} {a : Word} (h : SameL m m' a) : readL m' a = readL m a := by
  rw [ByteMemory.readL, ByteMemory.readL, h.byte0, h.byte1, h.byte2, h.byte3]

end MechanicalResearcher.Lib.ByteMemory
