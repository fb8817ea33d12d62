import Mathlib.Tactic.IntervalCases
import MechanicalResearcher.Lib.Sha1

/-!
# SHA-1 of the handshake

`sha1` in `programmable-display-protocols/demo/quaoar-server.c`.  One loop over the 64 bytes of a
block feeds the message, the set bit, zeros and the length, as `tail` and `length` say where it
is.
-/

namespace MechanicalResearcher.Quaoar

open Lib.BigEndian Lib.Sha1

/-! ## The code -/

/-- The variables of the outer loop, `data` as the bytes that are left of it. -/
structure Sha1State where
  data : List UInt8
  cnt : UInt64 := 0
  tail : Bool := false
  length : Bool := false
  done : Bool := false

/-- A turn of the inner loop, with `len` bytes left before the block: the byte `d`. -/
def sha1Byte (len i : Nat) (s : Sha1State) : Sha1State × UInt8 :=
  if i < len then ({ s with data := s.data.tail, cnt := s.cnt + 8 }, s.data.headD 0)
  else if s.tail = false ∧ i = len then ({ s with tail := true }, 0x80)
  else if s.tail = true ∧ 56 ≤ i then
    let s := if i = 56 then { s with length := true } else s
    if s.length then
      (if i = 63 then { s with done := true } else s,
        (s.cnt >>> UInt64.ofNat (64 - (i - 56 + 1) * 8)).toUInt8)
    else (s, 0)
  else (s, 0)

/-- The byte goes into its quarter of a word. -/
def setQuarter (n : UInt32) (i : Nat) (byte : UInt8) : UInt32 :=
  let d : UInt32 := byte.toUInt32
  match i % 4 with
  | 0 => (n &&& (0x00ffffff : UInt32)) ||| (d <<< 24)
  | 1 => (n &&& (0xff00ffff : UInt32)) ||| (d <<< 16)
  | 2 => (n &&& (0xffff00ff : UInt32)) ||| (d <<< 8)
  | _ => (n &&& (0xffffff00 : UInt32)) ||| d

/-- The inner loop; the bytes in their order are kept beside `w[0]` to `w[15]`. -/
def sha1Fill (len : Nat) : List Nat → Sha1State × List UInt32 →
    (Sha1State × List UInt32) × List UInt8
  | [], r => (r, [])
  | i :: is, (s, w) =>
    let (s, d) := sha1Byte len i s
    let (r, block) := sha1Fill len is (s, w.set (i / 4) (setQuarter (w.getD (i / 4) 0) i d))
    (r, d :: block)

/-- The outer loop, with the blocks that were handed to the compression; `w` starts with whatever
is on the stack. -/
def sha1Loop : Nat → Nat → Sha1State × List UInt32 → Chain → Option (List (List UInt8) × Chain)
  | 0, _, _, _ => none
  | fuel + 1, len, r, h =>
    let ((s, w), block) := sha1Fill len (List.range 64) r
    let h := compress h w
    if s.done then some ([block], h)
    else
      (sha1Loop fuel (if 64 < len then len - 64 else 0) (s, w) h).map fun r => (block :: r.1, r.2)

/-- The digest, with the blocks. -/
def sha1 (fuel : Nat) (w : List UInt32) (data : List UInt8) :
    Option (List (List UInt8) × List UInt8) :=
  (sha1Loop fuel data.length ({ data := data }, w) initial).map fun r => (r.1, r.2.bytes)

/-! ## The words of a block -/

theorem quarters_toBitVec (n : UInt32) (b0 b1 b2 b3 : UInt8) (k : Nat) :
    (setQuarter (setQuarter (setQuarter (setQuarter n (4 * k) b0) (4 * k + 1) b1) (4 * k + 2) b2)
      (4 * k + 3) b3).toBitVec =
        (b0.toBitVec ++ b1.toBitVec ++ b2.toBitVec ++ b3.toBitVec).setWidth 32 := by
  have h0 : 4 * k % 4 = 0 := Nat.mul_mod_right 4 k
  have h1 : (4 * k + 1) % 4 = 1 := by omega
  have h2 : (4 * k + 2) % 4 = 2 := by omega
  have h3 : (4 * k + 3) % 4 = 3 := by omega
  simp only [setQuarter, h0, h1, h2, h3]
  refine BitVec.eq_of_getLsbD_eq fun i hi => ?_
  rw [BitVec.getLsbD_setWidth]
  simp only [BitVec.getLsbD_append]
  interval_cases i <;> simp

theorem quarters (n : UInt32) (b0 b1 b2 b3 : UInt8) (k : Nat) (rest : List UInt8) :
    setQuarter (setQuarter (setQuarter (setQuarter n (4 * k) b0) (4 * k + 1) b1) (4 * k + 2) b2)
      (4 * k + 3) b3 = rd32 (b0 :: b1 :: b2 :: b3 :: rest) := by
  have h0 := b0.toNat_lt
  have h1 := b1.toNat_lt
  have h2 := b2.toNat_lt
  have h3 := b3.toNat_lt
  have hvalue : (b0.toBitVec ++ b1.toBitVec ++ b2.toBitVec ++ b3.toBitVec).toNat =
      b0.toNat * 2 ^ 24 + b1.toNat * 2 ^ 16 + b2.toNat * 2 ^ 8 + b3.toNat := by
    rw [BitVec.toNat_append, BitVec.toNat_append, BitVec.toNat_append]
    change ((b0.toNat <<< 8 ||| b1.toNat) <<< 8 ||| b2.toNat) <<< 8 ||| b3.toNat = _
    rw [← Nat.shiftLeft_add_eq_or_of_lt h1, ← Nat.shiftLeft_add_eq_or_of_lt h2,
      ← Nat.shiftLeft_add_eq_or_of_lt h3, Nat.shiftLeft_eq, Nat.shiftLeft_eq, Nat.shiftLeft_eq]
    omega
  refine UInt32.toNat_inj.mp ?_
  change (setQuarter (setQuarter (setQuarter (setQuarter n (4 * k) b0) (4 * k + 1) b1)
    (4 * k + 2) b2) (4 * k + 3) b3).toBitVec.toNat = _
  rw [quarters_toBitVec, BitVec.toNat_setWidth_of_le (by decide), hvalue]
  symm
  refine UInt32.toNat_ofNat_of_lt' ?_
  change b0.toNat * 2 ^ 24 + b1.toNat * 2 ^ 16 + b2.toNat * 2 ^ 8 + b3.toNat < 2 ^ 32
  omega

/-- What the bytes of a block do to the words. -/
def putBytes (ps : List (Nat × UInt8)) (w : List UInt32) : List UInt32 :=
  ps.foldl (fun w p => w.set (p.1 / 4) (setQuarter (w.getD (p.1 / 4) 0) p.1 p.2)) w

theorem putBytes_word {k : Nat} {w : List UInt32} (hk : k < w.length) (b0 b1 b2 b3 : UInt8)
    (rest : List UInt8) :
    putBytes [(4 * k, b0), (4 * k + 1, b1), (4 * k + 2, b2), (4 * k + 3, b3)] w =
      w.set k (rd32 (b0 :: b1 :: b2 :: b3 :: rest)) := by
  have h0 : 4 * k / 4 = k := by omega
  have h1 : (4 * k + 1) / 4 = k := by omega
  have h2 : (4 * k + 2) / 4 = k := by omega
  have h3 : (4 * k + 3) / 4 = k := by omega
  have hget (v : UInt32) : (w.set k v).getD k 0 = v := by
    rw [List.getD_eq_getElem?_getD, List.getElem?_set_self hk, Option.getD_some]
  rw [← quarters (w.getD k 0) b0 b1 b2 b3 k rest]
  simp only [putBytes, List.foldl_cons, List.foldl_nil, h0, h1, h2, h3, List.set_set, hget]

theorem foldl_set_range (f : Nat → UInt32) (w : List UInt32) (n : Nat) (hn : n ≤ w.length) :
    (List.range n).foldl (fun w k => w.set k (f k)) w = (List.range n).map f ++ w.drop n := by
  induction n with
  | zero => rfl
  | succ n ih =>
    rw [List.range_succ, List.foldl_append, ih (Nat.le_of_succ_le hn), List.foldl_cons,
      List.foldl_nil, List.map_append]
    have hlen : ((List.range n).map f).length = n := by rw [List.length_map, List.length_range]
    rw [List.set_append_right _ _ hlen.le, hlen, Nat.sub_self, List.drop_eq_getElem_cons hn,
      List.set_cons_zero, List.append_assoc]
    rfl

theorem putBytes_block {block : List UInt8} (hblock : block.length = 64) {w : List UInt32}
    (hw : w.length = 16) : putBytes ((List.range 64).zip block) w = blockWords block := by
  have hquads (n : Nat) (hn : n ≤ 16) (w : List UInt32) (hw : w.length = 16) :
      putBytes ((List.range (4 * n)).zip block) w =
        (List.range n).foldl (fun w k => w.set k (rd32 (block.drop (4 * k)))) w := by
    induction n with
    | zero => rfl
    | succ n ih =>
      have hdrop : (block.drop (4 * n)).length = 64 - 4 * n := by rw [List.length_drop, hblock]
      obtain ⟨b0, b1, b2, b3, rest, hrest⟩ : ∃ b0 b1 b2 b3 rest,
          block.drop (4 * n) = b0 :: b1 :: b2 :: b3 :: rest := by
        match hlist : block.drop (4 * n) with
        | b0 :: b1 :: b2 :: b3 :: rest => exact ⟨b0, b1, b2, b3, rest, rfl⟩
        | [] | [_] | [_, _] | [_, _, _] =>
          rw [hlist] at hdrop
          simp only [List.length_cons, List.length_nil] at hdrop
          omega
      have hrange : List.range (4 * (n + 1)) =
          List.range (4 * n) ++ [4 * n, 4 * n + 1, 4 * n + 2, 4 * n + 3] := by
        rw [Nat.mul_succ, List.range_add]
        rfl
      have hzip : (List.range (4 * (n + 1))).zip block = (List.range (4 * n)).zip block ++
          [(4 * n, b0), (4 * n + 1, b1), (4 * n + 2, b2), (4 * n + 3, b3)] := by
        have hlen : (List.range (4 * n)).length = (block.take (4 * n)).length := by
          rw [List.length_range, List.length_take, hblock]
          omega
        have hsplit := List.take_append_drop (4 * n) block
        have hfirst : (List.range (4 * n) ++ []).zip (block.take (4 * n) ++ block.drop (4 * n)) =
            (List.range (4 * n)).zip (block.take (4 * n)) ++ [].zip (block.drop (4 * n)) :=
          List.zip_append hlen
        rw [List.append_nil, hsplit, List.zip_nil_left, List.append_nil] at hfirst
        rw [hrange, hfirst]
        conv_lhs => rw [← hsplit, List.zip_append hlen, hrest]
        rfl
      have hset : ((List.range n).foldl (fun w k => w.set k (rd32 (block.drop (4 * k)))) w).length
          = 16 := by
        rw [foldl_set_range _ w n (by omega), List.length_append, List.length_map,
          List.length_range, List.length_drop, hw]
        omega
      rw [hzip, putBytes, List.foldl_append, ← putBytes, ← putBytes, ih (by omega),
        putBytes_word (by omega) b0 b1 b2 b3 rest, ← hrest, List.range_succ, List.foldl_append]
      rfl
  have hwords := hquads 16 (Nat.le_refl 16) w hw
  rw [foldl_set_range _ w 16 hw.ge, List.drop_of_length_le hw.le, List.append_nil] at hwords
  exact hwords

/-! ## The bytes of a block -/

def sha1Feed (len : Nat) : List Nat → Sha1State → Sha1State × List UInt8
  | [], s => (s, [])
  | i :: is, s =>
    ((sha1Feed len is (sha1Byte len i s).1).1,
      (sha1Byte len i s).2 :: (sha1Feed len is (sha1Byte len i s).1).2)

theorem sha1Fill_eq (len : Nat) (is : List Nat) (s : Sha1State) (w : List UInt32) :
    sha1Fill len is (s, w) =
      (((sha1Feed len is s).1, putBytes (is.zip (sha1Feed len is s).2) w),
        (sha1Feed len is s).2) := by
  induction is generalizing s w with
  | nil => rfl
  | cons i is ih =>
    rw [sha1Fill]
    dsimp only
    rw [ih]
    rfl

theorem sha1Feed_append (len : Nat) (is js : List Nat) (s : Sha1State) :
    sha1Feed len (is ++ js) s =
      ((sha1Feed len js (sha1Feed len is s).1).1,
        (sha1Feed len is s).2 ++ (sha1Feed len js (sha1Feed len is s).1).2) := by
  induction is generalizing s with
  | nil => rfl
  | cons i is ih =>
    rw [List.cons_append, sha1Feed, ih]
    rfl

section

variable {len : Nat} {s : Sha1State}

theorem sha1Feed_data {i n : Nat} (hin : i + n ≤ len) (hdata : n ≤ s.data.length) :
    sha1Feed len (List.range' i n) s =
      ({ s with data := s.data.drop n, cnt := s.cnt + UInt64.ofNat (8 * n) }, s.data.take n) := by
  induction n generalizing i s with
  | zero =>
    rw [Nat.mul_zero]
    change (s, _) = _
    have hcnt : s.cnt + UInt64.ofNat 0 = s.cnt := UInt64.add_zero s.cnt
    rw [hcnt, List.drop_zero, List.take_zero]
  | succ n ih =>
    obtain ⟨b, data, hcons⟩ := List.exists_cons_of_length_pos (Nat.zero_lt_of_lt hdata)
    have hbyte : sha1Byte len i s = ({ s with data := data, cnt := s.cnt + 8 }, b) := by
      rw [sha1Byte, if_pos (by omega), hcons]
      rfl
    rw [hcons, List.length_cons] at hdata
    have hcnt : s.cnt + 8 + UInt64.ofNat (8 * n) = s.cnt + UInt64.ofNat (8 * (n + 1)) := by
      rw [UInt64.add_assoc, Nat.mul_succ, Nat.add_comm (8 * n), UInt64.ofNat_add]
      rfl
    rw [List.range'_succ, sha1Feed, hbyte, ih (by omega) (by exact Nat.le_of_succ_le_succ hdata)]
    dsimp only
    rw [hcnt, hcons]
    rfl

theorem sha1Feed_zeros {i n : Nat} (hi : len ≤ i) (htail : s.tail = true)
    (hzero : i + n ≤ 56 ∨ s.length = false ∧ 57 ≤ i) :
    sha1Feed len (List.range' i n) s = (s, List.replicate n 0) := by
  induction n generalizing i with
  | zero => rfl
  | succ n ih =>
    have hbyte : sha1Byte len i s = (s, 0) := by
      rw [sha1Byte, if_neg (by omega), if_neg fun h => by rw [htail] at h; cases h.1]
      rcases hzero with hearly | ⟨hlength, hlate⟩
      · rw [if_neg fun h => by omega]
      · have hi56 : i ≠ 56 := by omega
        rw [if_pos ⟨htail, by omega⟩]
        dsimp only
        rw [if_neg hi56, hlength]
        rfl
    have hrest : i + 1 + n ≤ 56 ∨ s.length = false ∧ 57 ≤ i + 1 := by
      rcases hzero with hearly | ⟨hlength, hlate⟩
      · exact .inl (by omega)
      · exact .inr ⟨hlength, by omega⟩
    rw [List.range'_succ, sha1Feed, hbyte, ih (by omega) hrest]
    rfl

theorem sha1Byte_bit (htail : s.tail = false) :
    sha1Byte len len s = ({ s with tail := true }, 0x80) := by
  rw [sha1Byte, if_neg (Nat.lt_irrefl len), if_pos ⟨htail, rfl⟩]

theorem sha1Byte_length {i : Nat} (hi : len ≤ i) (hlo : 56 < i) (hhi : i < 63)
    (htail : s.tail = true) (hlength : s.length = true) :
    sha1Byte len i s = (s, (s.cnt >>> UInt64.ofNat (64 - (i - 56 + 1) * 8)).toUInt8) := by
  have hi56 : i ≠ 56 := by omega
  have hi63 : i ≠ 63 := by omega
  have hbit : ¬(s.tail = false ∧ i = len) := fun h => by rw [htail] at h; cases h.1
  rw [sha1Byte, if_neg (by omega), if_neg hbit, if_pos ⟨htail, by omega⟩]
  dsimp only
  rw [if_neg hi56, if_pos hlength, if_neg hi63]

theorem sha1Feed_length (hlen : len ≤ 56) (htail : s.tail = true) :
    sha1Feed len (List.range' 56 8) s =
      ({ s with length := true, done := true }, wr64 s.cnt) := by
  have hbit (i : Nat) : ¬(s.tail = false ∧ i = len) := fun h => by rw [htail] at h; cases h.1
  have hfirst : sha1Byte len 56 s = ({ s with length := true }, (s.cnt >>> 56).toUInt8) := by
    rw [sha1Byte, if_neg (by omega), if_neg (hbit 56), if_pos ⟨htail, Nat.le_refl 56⟩]
    rfl
  have hlast : sha1Byte len 63 { s with length := true } =
      ({ s with length := true, done := true }, (s.cnt >>> 0).toUInt8) := by
    rw [sha1Byte, if_neg (by omega), if_neg (hbit 63), if_pos ⟨htail, by decide⟩]
    rfl
  have hmid (i : Nat) (hlo : 56 < i) (hhi : i < 63) :
      sha1Byte len i { s with length := true } = ({ s with length := true },
        (s.cnt >>> UInt64.ofNat (64 - (i - 56 + 1) * 8)).toUInt8) :=
    sha1Byte_length (by omega) hlo hhi htail rfl
  have hrange : List.range' 56 8 = [56, 57, 58, 59, 60, 61, 62, 63] := rfl
  rw [hrange]
  simp only [sha1Feed, hfirst, hlast, hmid, Nat.reduceLT]
  refine Prod.ext rfl ?_
  simp only [wr64, List.cons.injEq, and_true]
  refine ⟨?_, ?_, ?_, ?_, ?_, ?_, ?_, ?_⟩ <;> refine UInt8.toNat_inj.mp ?_ <;>
    simp [Nat.shiftRight_eq_div_pow]

end

theorem length_sha1Feed (len : Nat) (is : List Nat) (s : Sha1State) :
    (sha1Feed len is s).2.length = is.length := by
  induction is generalizing s with
  | nil => rfl
  | cons i is ih => rw [sha1Feed, List.length_cons, List.length_cons, ih]

theorem range'_zero_append (n m : Nat) :
    List.range' 0 n ++ List.range' n m = List.range' 0 (n + m) := by
  have hjoin : List.range' 0 n ++ List.range' (0 + n) m = List.range' 0 (n + m) :=
    List.range'_append_1
  rw [Nat.zero_add] at hjoin
  exact hjoin

/-! ## The blocks -/

section

variable {data : List UInt8} (cnt : UInt64)

theorem dataBlock (hlen : 64 ≤ data.length) :
    sha1Feed data.length (List.range 64) { data := data, cnt := cnt } =
      ({ data := data.drop 64, cnt := cnt + UInt64.ofNat (8 * 64) }, data.take 64) := by
  rw [List.range_eq_range']
  exact sha1Feed_data (by omega) hlen

theorem sha1Feed_bit :
    sha1Feed data.length (List.range' 0 (data.length + 1)) { data := data, cnt := cnt } =
      ({ data := [], cnt := cnt + UInt64.ofNat (8 * data.length), tail := true },
        data ++ [0x80]) := by
  have hdata : sha1Feed data.length (List.range' 0 data.length) { data := data, cnt := cnt } =
      ({ data := data.drop data.length, cnt := cnt + UInt64.ofNat (8 * data.length) },
        data.take data.length) :=
    sha1Feed_data (by omega) (Nat.le_refl _)
  rw [List.drop_length, List.take_length] at hdata
  rw [List.range'_concat, Nat.one_mul, Nat.zero_add, sha1Feed_append, hdata, sha1Feed,
    sha1Byte_bit rfl, sha1Feed]

theorem bitBlock (hlen : data.length < 64) (hroom : 56 ≤ data.length) :
    sha1Feed data.length (List.range 64) { data := data, cnt := cnt } =
      ({ data := [], cnt := cnt + UInt64.ofNat (8 * data.length), tail := true },
        data ++ [0x80] ++ List.replicate (63 - data.length) 0) := by
  have hrange : List.range 64 = List.range' 0 (data.length + 1) ++
      List.range' (data.length + 1) (63 - data.length) := by
    rw [range'_zero_append, List.range_eq_range']
    congr 1
    omega
  rw [hrange, sha1Feed_append, sha1Feed_bit,
    sha1Feed_zeros (Nat.le_succ _) rfl (.inr ⟨rfl, by omega⟩)]

theorem endBlock (hroom : data.length < 56) :
    sha1Feed data.length (List.range 64) { data := data, cnt := cnt } =
      ({ data := [], cnt := cnt + UInt64.ofNat (8 * data.length), tail := true, length := true,
         done := true },
        data ++ [0x80] ++ List.replicate (55 - data.length) 0 ++
          wr64 (cnt + UInt64.ofNat (8 * data.length))) := by
  have hrange : List.range 64 = List.range' 0 (data.length + 1) ++
      List.range' (data.length + 1) (55 - data.length) ++ List.range' 56 8 := by
    have hzeros : List.range' 0 (data.length + 1) ++
        List.range' (data.length + 1) (55 - data.length) = List.range' 0 56 := by
      rw [range'_zero_append]
      congr 1
      omega
    rw [hzeros]
    rfl
  rw [hrange, sha1Feed_append, sha1Feed_append, sha1Feed_bit,
    sha1Feed_zeros (Nat.le_succ _) rfl (.inl (by omega)), sha1Feed_length (by omega) rfl]

theorem lengthBlock :
    sha1Feed 0 (List.range 64) { data := [], cnt := cnt, tail := true } =
      ({ data := [], cnt := cnt, tail := true, length := true, done := true },
        List.replicate 56 0 ++ wr64 cnt) := by
  have hrange : List.range 64 = List.range' 0 56 ++ List.range' 56 8 := rfl
  rw [hrange, sha1Feed_append, sha1Feed_zeros (Nat.le_refl 0) rfl (.inl (Nat.le_refl 56)),
    sha1Feed_length (Nat.zero_le 56) rfl]

end

theorem sha1Loop_succ {len : Nat} {s s' : Sha1State} {block : List UInt8}
    (hfeed : sha1Feed len (List.range 64) s = (s', block)) {w : List UInt32} (hw : w.length = 16)
    (fuel : Nat) (h : Chain) : block.length = 64 ∧
    sha1Loop (fuel + 1) len (s, w) h =
      if s'.done then some ([block], compress h (blockWords block))
      else (sha1Loop fuel (len - 64) (s', blockWords block) (compress h (blockWords block))).map
        fun r => (block :: r.1, r.2) := by
  have hblock : block.length = 64 := by
    have hlength := length_sha1Feed len (List.range 64) s
    rw [hfeed, List.length_range] at hlength
    exact hlength
  have hleft : (if 64 < len then len - 64 else 0) = len - 64 := by
    split
    · rfl
    · omega
  refine ⟨hblock, ?_⟩
  rw [sha1Loop, sha1Fill_eq, hfeed]
  dsimp only
  rw [putBytes_block hblock hw, hleft]

theorem length_blockWords (block : List UInt8) : (blockWords block).length = 16 := by
  rw [blockWords, List.length_map, List.length_range]

theorem bitAppend (data zeros length : List UInt8) :
    data ++ [0x80] ++ zeros ++ length = data ++ 0x80 :: (zeros ++ length) := by
  rw [List.append_assoc, List.append_assoc, List.singleton_append]

theorem sha1Loop_last {data : List UInt8} (hlen : data.length < 64) (cnt : UInt64)
    {w : List UInt32} (hw : w.length = 16) {fuel : Nat} (hfuel : 2 ≤ fuel) (h : Chain) :
    ∃ blocks, sha1Loop fuel data.length ({ data := data, cnt := cnt }, w) h =
        some (blocks, chain h blocks) ∧
      Blocks blocks (data ++ 0x80 :: (List.replicate (zeros data.length) 0 ++
        wr64 (cnt + UInt64.ofNat (8 * data.length)))) := by
  obtain ⟨fuel, rfl⟩ := Nat.exists_eq_add_of_le' hfuel
  by_cases hroom : data.length < 56
  · have hzeros : zeros data.length = 55 - data.length := by
      rw [zeros]
      omega
    have hfeed := endBlock cnt hroom
    obtain ⟨hblock, hturn⟩ := sha1Loop_succ hfeed hw (fuel + 1) h
    have hbytes := bitAppend data (List.replicate (55 - data.length) 0)
      (wr64 (cnt + UInt64.ofNat (8 * data.length)))
    have hblocks := Blocks.nil.cons hblock
    rw [List.append_nil, hbytes] at hblocks
    dsimp only at hturn
    rw [if_pos rfl, hbytes] at hturn
    rw [hzeros]
    exact ⟨_, hturn, hblocks⟩
  · have hzeros : zeros data.length = 63 - data.length + 56 := by
      rw [zeros]
      omega
    have hfeed := bitBlock cnt hlen (Nat.le_of_not_lt hroom)
    obtain ⟨hblock, hturn⟩ := sha1Loop_succ hfeed hw (fuel + 1) h
    have hleft : data.length - 64 = 0 := by omega
    obtain ⟨hblock', hturn'⟩ := sha1Loop_succ
      (lengthBlock (cnt + UInt64.ofNat (8 * data.length))) (length_blockWords _) fuel
      (compress h (blockWords _))
    have hblocks := (Blocks.nil.cons hblock').cons hblock
    rw [List.append_nil, bitAppend] at hblocks
    dsimp only at hturn hturn'
    rw [if_neg Bool.false_ne_true, hleft, hturn', if_pos rfl] at hturn
    rw [hzeros, List.replicate_add, List.append_assoc]
    exact ⟨_, hturn, hblocks⟩

theorem sha1Loop_blocks {data : List UInt8} (cnt : UInt64) {w : List UInt32}
    (hw : w.length = 16) {fuel : Nat} (hfuel : data.length / 64 + 2 ≤ fuel) (h : Chain) :
    ∃ blocks, sha1Loop fuel data.length ({ data := data, cnt := cnt }, w) h =
        some (blocks, chain h blocks) ∧
      Blocks blocks (data ++ 0x80 :: (List.replicate (zeros data.length) 0 ++
        wr64 (cnt + UInt64.ofNat (8 * data.length)))) := by
  induction fuel generalizing data cnt w h with
  | zero => omega
  | succ fuel ih =>
    rcases Nat.lt_or_ge data.length 64 with hlen | hlen
    · exact sha1Loop_last hlen cnt hw (by omega) h
    · have hdrop : (data.drop 64).length = data.length - 64 := List.length_drop
      obtain ⟨hblock, hturn⟩ := sha1Loop_succ (dataBlock cnt hlen) hw fuel h
      obtain ⟨blocks, hrest, hblocks⟩ := @ih (data.drop 64) (cnt + UInt64.ofNat (8 * 64))
        (blockWords (data.take 64)) (length_blockWords _) (by omega)
        (compress h (blockWords (data.take 64)))
      rw [hdrop] at hrest hblocks
      refine ⟨data.take 64 :: blocks, ?_, ?_⟩
      · rw [hturn, hrest]
        rfl
      · have hzeros : zeros (data.length - 64) = zeros data.length := by
          rw [zeros, zeros, ← Nat.mod_eq_sub_mod hlen]
        have hcnt : cnt + UInt64.ofNat (8 * 64) + UInt64.ofNat (8 * (data.length - 64)) =
            cnt + UInt64.ofNat (8 * data.length) := by
          rw [UInt64.add_assoc, ← UInt64.ofNat_add]
          congr 2
          omega
        rw [hzeros, hcnt] at hblocks
        have hall := hblocks.cons hblock
        rw [← List.append_assoc, List.take_append_drop] at hall
        exact hall

/-! ## The padding -/

/-- The blocks that are compressed are those of the padded message, and the digest is the chained
state in big-endian order, whatever is on the stack to begin with. -/
theorem sha1_blocks (msg : List UInt8) (hlen : msg.length < 2 ^ 61) (w : List UInt32)
    (hw : w.length = 16) (fuel : Nat) (hfuel : msg.length / 64 + 2 ≤ fuel) :
    ∃ blocks, sha1 fuel w msg = some (blocks, (chain initial blocks).bytes) ∧
      Blocks blocks (pad msg) ∧ (UInt64.ofNat (8 * msg.length)).toNat = 8 * msg.length := by
  obtain ⟨blocks, hloop, hblocks⟩ := sha1Loop_blocks 0 hw hfuel initial
  rw [UInt64.zero_add] at hblocks
  refine ⟨blocks, ?_, hblocks, UInt64.toNat_ofNat_of_lt' ?_⟩
  · rw [sha1, hloop]
    rfl
  · change 8 * msg.length < 2 ^ 64
    omega

theorem sha1_blocks_abc : [0x61, 0x62, 0x63].length < 2 ^ 61 ∧
    ∃ blocks, sha1 2 (List.replicate 16 0xdeadbeef) [0x61, 0x62, 0x63] =
        some (blocks, (chain initial blocks).bytes) ∧
      Blocks blocks (pad [0x61, 0x62, 0x63]) ∧ (UInt64.ofNat (8 * 3)).toNat = 8 * 3 :=
  ⟨by decide, sha1_blocks [0x61, 0x62, 0x63] (by decide) (List.replicate 16 0xdeadbeef) rfl 2
    (by decide)⟩

end MechanicalResearcher.Quaoar
