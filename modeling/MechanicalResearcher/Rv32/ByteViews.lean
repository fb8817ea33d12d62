import MechanicalResearcher.Lib.Bits
import MechanicalResearcher.Lib.LittleEndian
import MechanicalResearcher.Rv32.Cpu

/-!
# Memory accesses over one byte memory

When the callbacks of the bus are views of one little-endian byte memory, `mem_read` and
`mem_write` move bytes of it at any address.  The callbacks are called for aligned addresses, and
other accesses are made of bytes.
-/

namespace MechanicalResearcher.Rv32

open Lib.LittleEndian

variable {μ : Type}

/-- The memory behind the bus has the bytes `bytes`, and the callbacks work on them.  A callback may
leave anything above the bits that it reads. -/
structure ByteView (b : Bus μ) (bytes : μ → Word → BitVec 8) : Prop where
  read8 : ∀ m a, (b.read8 m a).truncate 8 = bytes m a
  read16 : ∀ m a, misaligned a 2 = false →
    (b.read16 m a).truncate 16 = bytes m (a + 1) ++ bytes m a
  read32 : ∀ m a, misaligned a 4 = false →
    b.read32 m a = bytes m (a + 3) ++ bytes m (a + 2) ++ bytes m (a + 1) ++ bytes m a
  write8 : ∀ m a (v : BitVec 8),
    bytes (b.write8 m a (v.zeroExtend 32)) = Function.update (bytes m) a v
  write16 : ∀ m a (v : BitVec 16), misaligned a 2 = false →
    bytes (b.write16 m a (v.zeroExtend 32)) =
      Function.update (Function.update (bytes m) a (v.extractLsb' 0 8)) (a + 1) (v.extractLsb' 8 8)
  write32 : ∀ m a v, misaligned a 4 = false →
    bytes (b.write32 m a v) =
      Function.update (Function.update (Function.update (Function.update (bytes m)
        a (v.extractLsb' 0 8)) (a + 1) (v.extractLsb' 8 8)) (a + 2) (v.extractLsb' 16 8)) (a + 3)
        (v.extractLsb' 24 8)

/-- The sizes of the accesses. -/
def AccessSize (size : Nat) : Prop := size = 1 ∨ size = 2 ∨ size = 4

variable {b : Bus μ} {bytes : μ → Word → BitVec 8} {m : μ} {a v : Word} {size : Nat}

theorem and_mask (v : Word) (n : Nat) : v &&& Lib.Bits.lowMask 32 n =
    (v.truncate n).zeroExtend 32 := by
  apply BitVec.eq_of_getLsbD_eq
  intro i hi
  rw [BitVec.getLsbD_and, Lib.Bits.getLsbD_lowMask hi, BitVec.getLsbD_setWidth,
    BitVec.getLsbD_setWidth]
  simp [hi, Bool.and_comm]

theorem and_mask8 (v : Word) : v &&& 0xff = (v.truncate 8).zeroExtend 32 := and_mask v 8

theorem and_mask16 (v : Word) : v &&& 0xffff = (v.truncate 16).zeroExtend 32 := and_mask v 16

section Loads

variable (f : Word → BitVec 8) (a : Word)

theorem load_one : load 32 f a 1 = (f a).zeroExtend 32 := by
  rw [load_succ, Nat.mul_zero, BitVec.shiftLeft_zero, BitVec.add_zero]
  exact BitVec.zero_or

theorem load_two : load 32 f a 2 = (f (a + 1) ++ f a).zeroExtend 32 := by
  rw [load_succ, load_one]
  ext i hi
  simp only [BitVec.getElem_or, BitVec.getElem_setWidth, BitVec.getLsbD_append]
  by_cases hlow : i < 8
  · simp [hlow]
  · simp [hlow, BitVec.getLsbD_of_ge (f a) i (by omega)]

theorem load_four :
    load 32 f a 4 = f (a + 3) ++ f (a + 2) ++ f (a + 1) ++ f a := by
  apply BitVec.eq_of_getLsbD_eq
  intro i hi
  rw [getLsbD_load i hi, BitVec.getLsbD_append, BitVec.getLsbD_append, BitVec.getLsbD_append]
  have hbyte : i / 8 = 0 ∧ i < 8 ∨ i / 8 = 1 ∧ ¬ i < 8 ∧ i - 8 < 8 ∨
      i / 8 = 2 ∧ ¬ i < 8 ∧ ¬ i - 8 < 8 ∧ i - 8 - 8 < 8 ∨
      i / 8 = 3 ∧ ¬ i < 8 ∧ ¬ i - 8 < 8 ∧ ¬ i - 8 - 8 < 8 := by omega
  rcases hbyte with ⟨hdiv, h0⟩ | ⟨hdiv, h0, h1⟩ | ⟨hdiv, h0, h1, h2⟩ | ⟨hdiv, h0, h1, h2⟩
  · have hmod : i % 8 = i := by omega
    simp [hdiv, hmod, h0, hi]
  · have hmod : i % 8 = i - 8 := by omega
    simp [hdiv, hmod, h0, h1, hi]
  · have hmod : i % 8 = i - 8 - 8 := by omega
    simp [hdiv, hmod, h0, h1, h2, hi]
  · have hmod : i % 8 = i - 8 - 8 - 8 := by omega
    simp [hdiv, hmod, h0, h1, h2, hi]

end Loads

namespace ByteView

variable (hb : ByteView b bytes)

include hb

theorem readBytes (n : Nat) : (List.range n).foldl
    (fun v i => v ||| (b.read8 m (a + BitVec.ofNat 32 i) &&& 0xff) <<< (8 * i)) 0 =
      load 32 (bytes m) a n := by
  simp only [load, and_mask8, hb.read8]

theorem readValue (hsize : AccessSize size) : b.readValue m a size = load 32 (bytes m) a size := by
  unfold Bus.readValue
  cases hal : misaligned a size with
  | true =>
    rw [if_pos rfl]
    exact hb.readBytes size
  | false =>
    rw [if_neg (by decide)]
    rcases hsize with rfl | rfl | rfl
    · rw [if_pos rfl, and_mask8, hb.read8, load_one]
    · rw [if_neg (by decide), if_pos rfl, and_mask16, hb.read16 m a hal, load_two]
    · rw [if_neg (by decide), if_neg (by decide), hb.read32 m a hal, load_four]

end ByteView

theorem AccessSize.le (hsize : AccessSize size) : size ≤ 4 := by
  rcases hsize with rfl | rfl | rfl <;> decide

section Stores

variable (f : Word → BitVec 8) (a v : Word)

theorem store_one : store f a 1 v = Function.update f a (v.extractLsb' 0 8) := by
  rw [store_succ (by decide), store_zero, Nat.mul_zero, BitVec.add_zero]

theorem store_two : store f a 2 v =
    Function.update (Function.update f a (v.extractLsb' 0 8)) (a + 1) (v.extractLsb' 8 8) := by
  rw [store_succ (by decide), store_one]
  rfl

theorem store_four : store f a 4 v =
    Function.update (Function.update (Function.update (Function.update f
      a (v.extractLsb' 0 8)) (a + 1) (v.extractLsb' 8 8)) (a + 2) (v.extractLsb' 16 8)) (a + 3)
      (v.extractLsb' 24 8) := by
  rw [store_succ (by decide), store_succ (by decide), store_two]
  rfl

end Stores

theorem extract_truncate (v : Word) {n i : Nat} (hn : i + 8 ≤ n) :
    (v.truncate n).extractLsb' i 8 = v.extractLsb' i 8 := by
  ext j hj
  have hlt : i + j < n := by omega
  simp [hlt]

namespace ByteView

variable (hb : ByteView b bytes)

include hb

theorem bytes_write8 (v : Word) :
    bytes (b.write8 m a (v &&& 0xff)) = Function.update (bytes m) a (v.extractLsb' 0 8) := by
  rw [and_mask8, hb.write8]
  rfl

theorem writeBytes (n : Nat) (hn : n ≤ 4) :
    bytes ((List.range n).foldl
      (fun m i => b.write8 m (a + BitVec.ofNat 32 i) (v >>> (8 * i) &&& 0xff)) m) =
      store (bytes m) a n v := by
  induction n with
  | zero => rfl
  | succ n ih =>
    have hbyte : (v >>> (8 * n)).extractLsb' 0 8 = v.extractLsb' (8 * n) 8 := by
      ext i hi
      simp [Nat.add_comm]
    rw [List.range_succ, List.foldl_append, List.foldl_cons, List.foldl_nil, hb.bytes_write8,
      ih (Nat.le_of_succ_le hn), store_succ (by omega), hbyte]

theorem writeValue (hsize : AccessSize size) :
    bytes (b.writeValue m a size v) = store (bytes m) a size v := by
  unfold Bus.writeValue
  cases hal : misaligned a size with
  | true =>
    rw [if_pos rfl]
    exact hb.writeBytes size hsize.le
  | false =>
    rw [if_neg (by decide)]
    rcases hsize with rfl | rfl | rfl
    · rw [if_pos rfl, hb.bytes_write8, store_one]
    · rw [if_neg (by decide), if_pos rfl, and_mask16, hb.write16 m a _ hal, store_two,
        extract_truncate v (by decide), extract_truncate v (by decide)]
    · rw [if_neg (by decide), if_neg (by decide), hb.write32 m a v hal, store_four]

end ByteView

/-- What a write leaves behind: its bytes, and all others as before. -/
structure Written (f f' : Word → BitVec 8) (addr : Word) (size : Nat) (val : Word) : Prop where
  here : ∀ i < size, f' (addr + BitVec.ofNat 32 i) = val.extractLsb' (8 * i) 8
  others : ∀ x, size ≤ (x - addr).toNat → f' x = f x

/-- The value of an access of `size` bytes. -/
def sizedValue (size : Nat) (val : Word) : Word := (val.truncate (8 * size)).zeroExtend 32

/-- A write changes its bytes and is read back, a read at any address has the bytes that are there,
and the path for other addresses gives what the one for aligned addresses gives. -/
theorem memWrite_memRead (hb : ByteView b bytes) {c : Core μ} (htrap : c.trapMisaligned = false)
    {addr : Word} (val : Word) (hsize : AccessSize size)
    (hwrite : b.refuses c.mem addr size true = false) :
    ∃ m', memWrite b c addr size val = .ok m' ∧
      Written (bytes c.mem) (bytes m') addr size val ∧
      (b.refuses m' addr size false = false →
        memRead b { c with mem := m' } addr size = .ok (sizedValue size val)) ∧
      (∀ addr' size', AccessSize size' → b.refuses m' addr' size' false = false →
        memRead b { c with mem := m' } addr' size' = .ok (load 32 (bytes m') addr' size')) ∧
      (∀ m1 addr1, (∀ i < size, bytes m1 (addr1 + BitVec.ofNat 32 i) =
          bytes m' (addr + BitVec.ofNat 32 i)) →
        b.readValue m1 addr1 size = b.readValue m' addr size) ∧
      ∀ m1 addr1, ∀ i < size,
        bytes (b.writeValue m1 addr1 size val) (addr1 + BitVec.ofNat 32 i) =
          bytes m' (addr + BitVec.ofNat 32 i) := by
  have hlt : size ≤ 2 ^ 32 := Nat.le_trans hsize.le (by decide)
  have hbytes := hb.writeValue (m := c.mem) (a := addr) (v := val) hsize
  have hread : ∀ {m' : μ} {addr' : Word} {size' : Nat}, AccessSize size' →
      b.refuses m' addr' size' false = false →
      memRead b { c with mem := m' } addr' size' = .ok (load 32 (bytes m') addr' size') := by
    intro m' addr' size' hsize' hok
    rw [memRead, htrap, Bool.false_and, if_neg (by decide), hok, if_neg (by decide),
      hb.readValue hsize']
  refine ⟨b.writeValue c.mem addr size val, ?_, ⟨?_, ?_⟩, ?_, fun _ _ => hread, ?_, ?_⟩
  · rw [memWrite, htrap, Bool.false_and, if_neg (by decide), hwrite, if_neg (by decide)]
  · intro i hi
    rw [hbytes, store_here hlt hi]
  · intro x hx
    rw [hbytes, store_else hx]
  · intro hok
    rw [hread hsize hok, hbytes, load_store hlt, sizedValue]
  · intro m1 addr1 hsame
    rw [hb.readValue hsize, hb.readValue hsize]
    exact load_congr hsame
  · intro m1 addr1 i hi
    rw [hb.writeValue hsize, hbytes, store_here hlt hi, store_here hlt hi]

/-- Callbacks over a function from addresses to bytes. -/
def byteBus : Bus (Word → BitVec 8) where
  read8 := fun m a => load 32 m a 1
  read16 := fun m a => load 32 m a 2
  read32 := fun m a => load 32 m a 4
  write8 := fun m a v => store m a 1 v
  write16 := fun m a v => store m a 2 v
  write32 := fun m a v => store m a 4 v

theorem truncate_extend {n : Nat} (v : BitVec n) (hn : n ≤ 32) :
    (v.zeroExtend 32).truncate n = v := by
  ext i hi
  have hlt : i < 32 := by omega
  simp [hlt, BitVec.getLsbD_eq_getElem hi]

theorem extract_extend {n i : Nat} (v : BitVec n) (hi : i + 8 ≤ 32) :
    (v.zeroExtend 32).extractLsb' i 8 = v.extractLsb' i 8 := by
  ext j hj
  have hlt : i + j < 32 := by omega
  simp [hlt]

theorem byteBus_view : ByteView byteBus fun m => m where
  read8 m a := by
    show (load 32 m a 1).truncate 8 = _
    rw [load_one]
    exact truncate_extend _ (by decide)
  read16 m a _ := by
    show (load 32 m a 2).truncate 16 = _
    rw [load_two]
    exact truncate_extend _ (by decide)
  read32 m a _ := load_four m a
  write8 m a v := by
    rw [byteBus]
    simp only [store_one]
    rw [extract_extend v (by decide)]
    exact congrArg _ BitVec.extractLsb'_eq_self
  write16 m a v _ := by
    rw [byteBus]
    simp only [store_two]
    rw [extract_extend v (by decide), extract_extend v (by decide)]
  write32 m a v _ := store_four m a v

/-- A machine after `rv_init` whose memory is all zero. -/
def blankCpu : Cpu (Word → BitVec 8) := rvInit fun _ => 0

/-- A word that wraps around the end of the memory. -/
theorem memWrite_memRead_wrap :
    ∃ m' : Word → BitVec 8,
      memWrite byteBus blankCpu.toCore 0xfffffffe 4 0x12345678 = .ok m' ∧
      m' 1 = 0x12 ∧ memRead byteBus { blankCpu.toCore with mem := m' } 0xfffffffe 4 =
        .ok 0x12345678 := by
  have hopen : byteBus.refuses blankCpu.mem 0xfffffffe 4 true = false := rfl
  obtain ⟨m', hm', hwritten, hback, -⟩ := memWrite_memRead byteBus_view
    (c := blankCpu.toCore) rfl 0x12345678 (.inr (.inr rfl)) hopen
  exact ⟨m', hm', hwritten.here 3 (by decide), hback rfl⟩

end MechanicalResearcher.Rv32
