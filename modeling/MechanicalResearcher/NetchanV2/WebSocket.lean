import MechanicalResearcher.Lib.BigEndian
import MechanicalResearcher.Lib.Framing

/-!
# WebSocket frames

`nc_ws_frame_parse` and `nc_ws_frame_build` of `netchan-v2/demo/nc_ws.c`.  A buffer is the list of
its bytes, and the parser is `none` when it accesses an index behind it.  Sizes are 64-bit words:
the sum of the header and a length field from the wire can wrap, and the parser then works on
bytes that it does not have.
-/

namespace MechanicalResearcher.NetchanV2

open Lib.BigEndian Lib.Framing

/-! ## The parser -/

/-- `struct nc_ws_frame`; the payload is named by its offset in the buffer. -/
structure WsFrame where
  opcode : UInt8
  fin : Bool
  payload : Nat
  payloadLen : Nat
  deriving DecidableEq, Repr

/-- A read of `n` bytes at `i`. -/
def readBytes (buf : List UInt8) (i n : Nat) : Option (List UInt8) :=
  if i + n ≤ buf.length then some ((buf.drop i).take n) else none

/-- The payload length and the size of the header without the mask, or `some none` when the length
field has not fully arrived. -/
def lengthField (buf : List UInt8) (short : UInt8) : Option (Option (UInt64 × UInt64)) :=
  if short = 126 then
    if buf.length < 4 then some none
    else (readBytes buf 2 2).map fun p => some ((rd16 p).toUInt64, 4)
  else if short = 127 then
    if buf.length < 10 then some none
    else (readBytes buf 2 8).map fun p => some (rd64 p, 10)
  else some (some (short.toUInt64, 2))

/-- `payload[i] ^= mk[i & 3]` for `n` bytes from `i` on. -/
def unmask (hdr : Nat) : Nat → Nat → List UInt8 → Option (List UInt8)
  | _, 0, buf => some buf
  | i, n + 1, buf =>
    match buf[hdr + i]?, buf[hdr - 4 + i % 4]? with
    | some b, some k => unmask hdr (i + 1) n (buf.set (hdr + i) (b ^^^ k))
    | _, _ => none

/-- The conversion of a `size_t` to `long`. -/
def toLong (n : UInt64) : Int := n.toBitVec.toInt

/-- What is left to do once the header is known: the result, the buffer and the frame when it was
filled in. -/
def takeFrame (buf : List UInt8) (b0 : UInt8) (masked : Prop) [Decidable masked]
    (plen hdr : UInt64) : Option (Int × List UInt8 × Option WsFrame) :=
  if buf.length < (hdr + plen).toNat then some (0, buf, none)
  else
    let frame : WsFrame :=
      { opcode := b0 &&& 0x0f, fin := b0 &&& 0x80 ≠ 0, payload := hdr.toNat,
        payloadLen := plen.toNat }
    (if masked then unmask hdr.toNat 0 plen.toNat buf else some buf).map fun buf' =>
      (toLong (hdr + plen), buf', some frame)

def ncWsFrameParse (buf : List UInt8) : Option (Int × List UInt8 × Option WsFrame) :=
  if buf.length < 2 then some (0, buf, none)
  else
    match buf[0]?, buf[1]? with
    | some b0, some b1 =>
      match lengthField buf (b1 &&& 0x7f) with
      | none => none
      | some none => some (0, buf, none)
      | some (some (plen, hdr)) =>
        takeFrame buf b0 (b1 &&& 0x80 ≠ 0) plen (if b1 &&& 0x80 ≠ 0 then hdr + 4 else hdr)
    | _, _ => none

/-! ### Unmasking -/

/-- The byte of the mask for byte `i` of the payload behind a header of `hdr` bytes. -/
def maskByte (buf : List UInt8) (hdr i : Nat) : UInt8 := (buf[hdr - 4 + i % 4]?).getD 0

theorem maskByte_set {hdr k : Nat} (hhdr : 4 ≤ hdr) (hk : hdr ≤ k) (buf : List UInt8) (v : UInt8)
    (i : Nat) : maskByte (buf.set k v) hdr i = maskByte buf hdr i := by
  unfold maskByte
  rw [List.getElem?_set_ne (by omega)]

theorem unmask_eq_some {hdr : Nat} (hhdr : 4 ≤ hdr) (n i : Nat) (buf : List UInt8)
    (hn : hdr + i + n ≤ buf.length) :
    ∃ buf', unmask hdr i n buf = some buf' ∧ buf'.length = buf.length ∧ ∀ j, buf'[j]? =
      if hdr + i ≤ j ∧ j < hdr + i + n then buf[j]?.map (· ^^^ maskByte buf hdr (j - hdr))
      else buf[j]? := by
  induction n generalizing i buf with
  | zero =>
    refine ⟨buf, rfl, rfl, fun j => ?_⟩
    rw [if_neg (by omega)]
  | succ n ih =>
    obtain ⟨b, hb⟩ : ∃ b, buf[hdr + i]? = some b := ⟨_, List.getElem?_eq_getElem (by omega)⟩
    obtain ⟨k, hk⟩ : ∃ k, buf[hdr - 4 + i % 4]? = some k :=
      ⟨_, List.getElem?_eq_getElem (by omega)⟩
    obtain ⟨buf', hrun, hlen, hget⟩ := ih (i + 1) (buf.set (hdr + i) (b ^^^ k))
      (by rw [List.length_set]; omega)
    refine ⟨buf', ?_, by rw [hlen, List.length_set], fun j => ?_⟩
    · rw [unmask, hb, hk]
      exact hrun
    · rw [hget, maskByte_set hhdr (by omega)]
      by_cases hj : j = hdr + i
      · subst hj
        have hmask : maskByte buf hdr (hdr + i - hdr) = k := by
          rw [Nat.add_sub_cancel_left, maskByte, hk, Option.getD_some]
        rw [if_neg (by omega), if_pos (by omega), List.getElem?_set_self (by omega), hmask, hb]
        rfl
      · rw [List.getElem?_set_ne (by omega)]
        by_cases hin : hdr + (i + 1) ≤ j ∧ j < hdr + (i + 1) + n
        · rw [if_pos hin, if_pos (by omega)]
        · rw [if_neg hin, if_neg (by omega)]

theorem unmask_eq_none {hdr n i : Nat} {buf : List UInt8} (hpos : 0 < n)
    (hn : buf.length < hdr + i + n) : unmask hdr i n buf = none := by
  induction n generalizing i buf with
  | zero => omega
  | succ n ih =>
    rw [unmask]
    split
    · rename_i b k hb hk
      have hlt : hdr + i < buf.length := (List.getElem?_eq_some_iff.1 hb).1
      exact ih (by omega) (by rw [List.length_set]; omega)
    · rfl

/-! ### The result -/

/-- A frame is taken: its payload ends the `n` bytes that are used, and only these bytes are
changed, by the mask. -/
structure Taken (buf buf' : List UInt8) (n : Int) (f : WsFrame) : Prop where
  low : 2 ≤ n
  high : n ≤ buf.length
  ends : ((f.payload + f.payloadLen : Nat) : Int) = n
  length : buf'.length = buf.length
  bytes : ∀ j, buf'[j]? =
    if f.payload ≤ j ∧ j < f.payload + f.payloadLen ∧ buf.getD 1 0 &&& 0x80 ≠ 0 then
      buf[j]?.map (· ^^^ maskByte buf f.payload (j - f.payload))
    else buf[j]?

/-- The parser accesses no byte behind the buffer, and takes nothing or a frame inside it. -/
def Contained (buf : List UInt8) : Prop :=
  ∃ n buf' f, ncWsFrameParse buf = some (n, buf', f) ∧
    (n = 0 ∧ buf' = buf ∨ ∃ frame, f = some frame ∧ Taken buf buf' n frame)

/-- The size of a header with a length of 64 bits. -/
def longHeader (buf : List UInt8) : Nat := if buf.getD 1 0 &&& 0x80 ≠ 0 then 14 else 10

/-- The length of 64 bits on the wire. -/
def longLength (buf : List UInt8) : Nat := (rd64 ((buf.drop 2).take 8)).toNat

/-- The sum of the header and the length wraps, the test on it passes, and something is done: a
header without a mask and a sum of exactly `2 ^ 64` gives 0. -/
structure Wraps (buf : List UInt8) : Prop where
  long : buf.getD 1 0 &&& 0x7f = 127
  arrived : 10 ≤ buf.length
  wraps : 2 ^ 64 ≤ longHeader buf + longLength buf
  passes : longHeader buf + longLength buf - 2 ^ 64 ≤ buf.length
  seen : buf.getD 1 0 &&& 0x80 ≠ 0 ∨ longHeader buf + longLength buf ≠ 2 ^ 64

/-- What the length field can be. -/
inductive LengthField (buf : List UInt8) (short : UInt8) : Option (UInt64 × UInt64) → Prop
  | more (long : short = 127 → buf.length < 10) : LengthField buf short none
  | short {plen hdr : UInt64} (ne : short ≠ 127) (header : hdr = 2 ∨ hdr = 4)
      (length : plen.toNat < 2 ^ 16) : LengthField buf short (some (plen, hdr))
  | long (eq : short = 127) (arrived : 10 ≤ buf.length) :
      LengthField buf short (some (rd64 ((buf.drop 2).take 8), 10))

theorem lengthField_cases (buf : List UInt8) (short : UInt8) :
    ∃ r, lengthField buf short = some r ∧ LengthField buf short r := by
  unfold lengthField
  by_cases h126 : short = 126
  · rw [if_pos h126]
    have hne : short ≠ 127 := by
      rw [h126]
      decide
    split_ifs with hlen
    · exact ⟨none, rfl, .more fun h => absurd h hne⟩
    · rw [readBytes, if_pos (by omega)]
      exact ⟨_, rfl, .short hne (.inr rfl) (by simpa using UInt16.toNat_lt _)⟩
  · rw [if_neg h126]
    by_cases h127 : short = 127
    · rw [if_pos h127]
      split_ifs with hlen
      · exact ⟨none, rfl, .more fun _ => hlen⟩
      · rw [readBytes, if_pos (by omega)]
        exact ⟨_, rfl, .long h127 (by omega)⟩
    · rw [if_neg h127]
      have hlt : short.toNat < 2 ^ 8 := short.toNat_lt
      exact ⟨_, rfl, .short h127 (.inl rfl) (by rw [UInt8.toNat_toUInt64]; omega)⟩

section Parse

variable {buf : List UInt8} {b0 b1 : UInt8}

theorem ncWsFrameParse_of_more (h0 : buf[0]? = some b0) (h1 : buf[1]? = some b1)
    (hfield : lengthField buf (b1 &&& 0x7f) = some none) :
    ncWsFrameParse buf = some (0, buf, none) := by
  have hlen : 1 < buf.length := (List.getElem?_eq_some_iff.1 h1).1
  rw [ncWsFrameParse, if_neg (by omega), h0, h1]
  simp only [hfield]

theorem ncWsFrameParse_of_field (h0 : buf[0]? = some b0) (h1 : buf[1]? = some b1)
    {plen hdr : UInt64} (hfield : lengthField buf (b1 &&& 0x7f) = some (some (plen, hdr))) :
    ncWsFrameParse buf =
      takeFrame buf b0 (b1 &&& 0x80 ≠ 0) plen (if b1 &&& 0x80 ≠ 0 then hdr + 4 else hdr) := by
  have hlen : 1 < buf.length := (List.getElem?_eq_some_iff.1 h1).1
  rw [ncWsFrameParse, if_neg (by omega), h0, h1]
  simp only [hfield]

end Parse

theorem toLong_eq {n : UInt64} (h : n.toNat < 2 ^ 63) : toLong n = n.toNat := by
  rw [toLong, BitVec.toInt_eq_toNat_of_lt]
  · rfl
  · rw [UInt64.toNat_toBitVec]
    omega

section TakeFrame

variable {buf : List UInt8} {b0 : UInt8} {masked : Prop} [Decidable masked] {plen hdr : UInt64}

theorem takeFrame_taken (hlen : buf.length < 2 ^ 63) (hmasked : masked ↔ buf.getD 1 0 &&& 0x80 ≠ 0)
    (hhdr : 2 ≤ hdr.toNat) (hhdr4 : masked → 4 ≤ hdr.toNat)
    (hsum : hdr.toNat + plen.toNat < 2 ^ 64) :
    ∃ n buf' f, takeFrame buf b0 masked plen hdr = some (n, buf', f) ∧
      (n = 0 ∧ buf' = buf ∨ ∃ frame, f = some frame ∧ Taken buf buf' n frame) := by
  have hadd : (hdr + plen).toNat = hdr.toNat + plen.toNat := by
    rw [UInt64.toNat_add, Nat.mod_eq_of_lt hsum]
  unfold takeFrame
  split_ifs with hless hm
  · exact ⟨0, buf, none, rfl, .inl ⟨rfl, rfl⟩⟩
  all_goals
    have hle : hdr.toNat + plen.toNat ≤ buf.length := by
      rw [hadd] at hless
      omega
    have hn : toLong (hdr + plen) = ((hdr.toNat + plen.toNat : Nat) : Int) := by
      rw [toLong_eq (by omega), hadd]
  · obtain ⟨buf', hrun, hsame, hget⟩ := unmask_eq_some (hhdr4 hm) plen.toNat 0 buf (by omega)
    rw [hrun]
    refine ⟨_, buf', _, rfl, .inr ⟨_, rfl, ?_, ?_, hn.symm, hsame, fun j => ?_⟩⟩
    · omega
    · omega
    · rw [hget]
      simp only [Nat.add_zero, ← hmasked, hm, and_true]
  · refine ⟨_, buf, _, rfl, .inr ⟨_, rfl, ?_, ?_, hn.symm, rfl, fun j => ?_⟩⟩
    · omega
    · omega
    · simp only [← hmasked, hm, and_false, if_false]

theorem takeFrame_wraps (hlen : buf.length < 2 ^ 63) (hhdr : hdr.toNat ≤ 14)
    (hsum : 2 ^ 64 ≤ hdr.toNat + plen.toNat) :
    (∃ n buf' f, takeFrame buf b0 masked plen hdr = some (n, buf', f) ∧
      (n = 0 ∧ buf' = buf ∨ ∃ frame, f = some frame ∧ Taken buf buf' n frame)) ↔
      ¬ (hdr.toNat + plen.toNat - 2 ^ 64 ≤ buf.length ∧
        (masked ∨ hdr.toNat + plen.toNat ≠ 2 ^ 64)) := by
  have hplen : plen.toNat < 2 ^ 64 := plen.toNat_lt
  have hadd : (hdr + plen).toNat = hdr.toNat + plen.toNat - 2 ^ 64 := by
    rw [UInt64.toNat_add]
    omega
  have hless : buf.length < (hdr + plen).toNat ↔
      ¬ hdr.toNat + plen.toNat - 2 ^ 64 ≤ buf.length := by
    rw [hadd]
    omega
  have hn : toLong (hdr + plen) = ((hdr.toNat + plen.toNat - 2 ^ 64 : Nat) : Int) := by
    rw [toLong_eq (by omega), hadd]
  unfold takeFrame
  by_cases hpass : hdr.toNat + plen.toNat - 2 ^ 64 ≤ buf.length
  · rw [if_neg (fun h => hless.1 h hpass)]
    simp only [hpass, true_and]
    by_cases hm : masked
    · -- the mask goes over more bytes than there are
      rw [if_pos hm, unmask_eq_none (by omega) (by omega)]
      simp [hm]
    · rw [if_neg hm]
      simp only [hm, false_or, not_not, Option.map_some, Option.some.injEq, Prod.mk.injEq]
      constructor
      · rintro ⟨n, buf', f, ⟨rfl, rfl, rfl⟩, ⟨h0, -⟩ | ⟨frame, hf, htaken⟩⟩
        · rw [hn] at h0
          omega
        · cases hf
          have hends := htaken.ends
          rw [hn] at hends
          simp only at hends
          omega
      · intro h0
        refine ⟨_, _, _, ⟨rfl, rfl, rfl⟩, .inl ⟨?_, rfl⟩⟩
        rw [hn, h0]
        rfl
  · rw [if_pos (hless.2 hpass)]
    simp only [hpass, false_and, not_false_eq_true, iff_true]
    exact ⟨0, buf, none, rfl, .inl ⟨rfl, rfl⟩⟩

end TakeFrame

/-- The parser stays inside its buffer exactly when no length field of 64 bits wraps. -/
theorem ncWsFrameParse_contained_iff (buf : List UInt8) (hlen : buf.length < 2 ^ 63) :
    Contained buf ↔ ¬ Wraps buf := by
  have hnone : ncWsFrameParse buf = some (0, buf, none) → Contained buf := fun h =>
    ⟨0, buf, none, h, .inl ⟨rfl, rfl⟩⟩
  by_cases h2 : buf.length < 2
  · refine iff_of_true (hnone (if_pos h2)) fun hw => ?_
    have harrived := hw.arrived
    omega
  obtain ⟨b0, h0⟩ : ∃ b, buf[0]? = some b := ⟨_, List.getElem?_eq_getElem (by omega)⟩
  obtain ⟨b1, h1⟩ : ∃ b, buf[1]? = some b := ⟨_, List.getElem?_eq_getElem (by omega)⟩
  have hb1 : buf.getD 1 0 = b1 := by rw [List.getD_eq_getElem?_getD, h1, Option.getD_some]
  obtain ⟨r, hfield, hr⟩ := lengthField_cases buf (b1 &&& 0x7f)
  have hmask : b1 &&& 0x80 ≠ 0 ↔ buf.getD 1 0 &&& 0x80 ≠ 0 := by rw [hb1]
  cases hr with
  | more hlong =>
    refine iff_of_true (hnone (ncWsFrameParse_of_more h0 h1 hfield)) fun hw => ?_
    have hless := hlong (hb1 ▸ hw.long)
    have harrived := hw.arrived
    omega
  | @short plen hdr hne hheader hplen =>
    refine iff_of_true ?_ fun hw => hne (hb1 ▸ hw.long)
    unfold Contained
    rw [ncWsFrameParse_of_field h0 h1 hfield]
    have hhdr : (if b1 &&& 0x80 ≠ 0 then hdr + 4 else hdr).toNat =
        hdr.toNat + if b1 &&& 0x80 ≠ 0 then 4 else 0 := by
      obtain rfl | rfl := hheader <;> split <;> rfl
    have hsmall : hdr.toNat = 2 ∨ hdr.toNat = 4 := by
      obtain rfl | rfl := hheader
      · exact .inl rfl
      · exact .inr rfl
    refine takeFrame_taken hlen hmask ?_ (fun hm => ?_) ?_
    · omega
    · rw [hhdr, if_pos hm]
      omega
    · rw [hhdr]
      split <;> omega
  | long heq harrived =>
    unfold Contained
    rw [ncWsFrameParse_of_field h0 h1 hfield]
    have hhdr : (if b1 &&& 0x80 ≠ 0 then (10 : UInt64) + 4 else 10).toNat = longHeader buf := by
      rw [longHeader, hb1]
      split <;> rfl
    have hle : longHeader buf ≤ 14 := by
      unfold longHeader
      split <;> omega
    by_cases hsum : 2 ^ 64 ≤ longHeader buf + longLength buf
    · rw [takeFrame_wraps hlen (by omega) (by rw [hhdr]; exact hsum), not_iff_not, hhdr, hmask]
      exact ⟨fun h => ⟨by rw [hb1, heq], harrived, hsum, h.1, h.2⟩, fun h => ⟨h.passes, h.seen⟩⟩
    · refine iff_of_true ?_ fun hw => hsum hw.wraps
      refine takeFrame_taken hlen hmask ?_ (fun hm => ?_) ?_
      · rw [hhdr, longHeader]
        split <;> omega
      · rw [hhdr, longHeader, if_pos (hmask.1 hm)]
        omega
      · rw [hhdr]
        exact Nat.lt_of_not_le hsum

/-- A frame of one masked byte. -/
theorem maskedByte_contained : Contained [0x82, 0x81, 1, 2, 3, 4, 0x60] := by
  refine (ncWsFrameParse_contained_iff [0x82, 0x81, 1, 2, 3, 4, 0x60] (by decide)).2 fun hw => ?_
  exact absurd hw.long (by decide)

/-- A length of `2 ^ 64 - 1` with a mask, in a buffer of 14 bytes. -/
theorem topLength_not_contained :
    ¬ Contained ([0x82, 0xff] ++ List.replicate 8 0xff ++ [1, 2, 3, 4]) := by
  have hnone : ncWsFrameParse ([0x82, 0xff] ++ List.replicate 8 0xff ++ [1, 2, 3, 4]) = none := by
    have hfield : lengthField ([0x82, 0xff] ++ List.replicate 8 0xff ++ [1, 2, 3, 4])
        ((0xff : UInt8) &&& 0x7f) = some (some (0xffffffffffffffff, 10)) := by decide
    rw [ncWsFrameParse_of_field rfl rfl hfield]
    rw [takeFrame, if_neg (by decide), if_pos (by decide), unmask_eq_none (by decide) (by decide)]
    rfl
  rintro ⟨n, buf', f, hparse, -⟩
  rw [hnone] at hparse
  cases hparse

/-! ## The builder -/

/-- The bytes from the second one to the mask. -/
def sizeField (mbit : UInt8) (len : UInt64) : List UInt8 :=
  if 0xffff < len then (mbit ||| 127) :: wr64 len
  else if 126 ≤ len then (mbit ||| 126) :: wr16 len.toUInt16
  else [mbit ||| len.toUInt8]

/-- The size of the header. -/
def wsHeaderSize (len : UInt64) (masked : Bool) : UInt64 :=
  2 + (if 0xffff < len then 8 else if 126 ≤ len then 2 else 0) + (if masked then 4 else 0)

/-- The four bytes of a mask. -/
structure Mask4 where
  k0 : UInt8
  k1 : UInt8
  k2 : UInt8
  k3 : UInt8
  deriving DecidableEq, Repr

def Mask4.bytes (k : Mask4) : List UInt8 := [k.k0, k.k1, k.k2, k.k3]

/-- The arguments of a call of the builder. -/
structure BuildCall where
  cap : Nat
  opcode : Nat
  payload : List UInt8
  mask4 : Option Mask4
  deriving DecidableEq, Repr

/-- The bytes that are written, or none when `cap` is too small and the result is 0. -/
def ncWsFrameBuild (c : BuildCall) : Option (List UInt8) :=
  let len := UInt64.ofNat c.payload.length
  if c.cap < (wsHeaderSize len c.mask4.isSome + len).toNat then none
  else
    let first : UInt8 := 0x80 ||| (UInt8.ofNat c.opcode &&& 0x0f)
    match c.mask4 with
    | none => some (first :: sizeField 0 len ++ c.payload)
    | some k =>
      some (first :: sizeField 0x80 len ++ k.bytes ++
        c.payload.mapIdx fun i b => b ^^^ k.bytes.getD (i % 4) 0)

/-! ## Round trip -/

theorem low7_of_lt {b : UInt8} (hb : b.toNat < 128) :
    (0 ||| b) &&& 0x7f = b ∧ (0x80 ||| b) &&& 0x7f = b := by
  have hall : ∀ n < 128, (0 ||| UInt8.ofNat n) &&& 0x7f = UInt8.ofNat n ∧
      (0x80 ||| UInt8.ofNat n) &&& 0x7f = UInt8.ofNat n := by decide
  simpa using hall b.toNat hb

theorem bit7_of_lt {b : UInt8} (hb : b.toNat < 128) :
    (0 ||| b) &&& 0x80 = 0 ∧ (0x80 ||| b) &&& 0x80 ≠ 0 := by
  have hall : ∀ n < 128, (0 ||| UInt8.ofNat n) &&& 0x80 = 0 ∧
      (0x80 ||| UInt8.ofNat n) &&& 0x80 ≠ 0 := by decide
  simpa using hall b.toNat hb

theorem sizeField_eq (len : UInt64) : ∃ (low : UInt8) (tail : List UInt8) (short : UInt64),
    (∀ mbit, sizeField mbit len = (mbit ||| low) :: tail) ∧ low.toNat < 128 ∧
      tail.length + 2 = short.toNat ∧ short.toNat ≤ 10 ∧
      ∀ b0 b1 rest, lengthField (b0 :: b1 :: (tail ++ rest)) low = some (some (len, short)) := by
  unfold sizeField
  by_cases hbig : 0xffff < len
  · simp only [if_pos hbig]
    refine ⟨127, wr64 len, 10, fun _ => rfl, by decide, rfl, by decide, fun b0 b1 rest => ?_⟩
    have hread : readBytes (b0 :: b1 :: (wr64 len ++ rest)) 2 8 = some (wr64 len) := rfl
    have hlen : ¬ (b0 :: b1 :: (wr64 len ++ rest)).length < 10 := by simp
    have hrd : rd64 (wr64 len) = len := by simpa using rd64_wr64_append len []
    rw [lengthField, if_neg (by decide), if_pos rfl, if_neg hlen, hread, Option.map_some, hrd]
  · simp only [if_neg hbig]
    have hsmall : len.toNat ≤ 0xffff := by
      rw [UInt64.lt_iff_toNat_lt] at hbig
      simpa using hbig
    by_cases hmid : 126 ≤ len
    · simp only [if_pos hmid]
      refine ⟨126, wr16 len.toUInt16, 4, fun _ => rfl, by decide, rfl, by decide,
        fun b0 b1 rest => ?_⟩
      have hread : readBytes (b0 :: b1 :: (wr16 len.toUInt16 ++ rest)) 2 2 =
          some (wr16 len.toUInt16) := by
        rw [readBytes, if_pos (by simp)]
        rfl
      have hlen : ¬ (b0 :: b1 :: (wr16 len.toUInt16 ++ rest)).length < 4 := by simp
      have hrd : rd16 (wr16 len.toUInt16) = len.toUInt16 := by
        simpa using rd16_wr16_append len.toUInt16 []
      have hback : len.toUInt16.toUInt64 = len := by
        rw [← UInt64.toNat_inj]
        simp only [UInt16.toNat_toUInt64, UInt64.toNat_toUInt16]
        omega
      rw [lengthField, if_pos rfl, if_neg hlen, hread, Option.map_some, hrd, hback]
    · simp only [if_neg hmid]
      have hlow : len.toNat < 126 := by
        rw [UInt64.le_iff_toNat_le] at hmid
        simpa using hmid
      have hnat : len.toUInt8.toNat = len.toNat := by
        rw [UInt64.toNat_toUInt8]
        omega
      have hback : len.toUInt8.toUInt64 = len := by
        rw [← UInt64.toNat_inj, UInt8.toNat_toUInt64, hnat]
      refine ⟨len.toUInt8, [], 2, fun _ => rfl, by omega, rfl, by decide, fun b0 b1 rest => ?_⟩
      have hne : ∀ k : UInt8, 126 ≤ k.toNat → len.toUInt8 ≠ k := by
        rintro k hk rfl
        omega
      rw [lengthField, if_neg (hne _ (by decide)), if_neg (hne _ (by decide)), hback]

theorem lengthField_part (p q : List UInt8) (short : UInt8) :
    lengthField p short = some none ∨ lengthField p short = lengthField (p ++ q) short := by
  have hread : ∀ i n, i + n ≤ p.length → readBytes (p ++ q) i n = readBytes p i n := by
    intro i n hle
    rw [readBytes, if_pos (by rw [List.length_append]; omega), readBytes, if_pos hle,
      List.drop_append_of_le_length (by omega),
      List.take_append_of_le_length (by rw [List.length_drop]; omega)]
  unfold lengthField
  by_cases h126 : short = 126
  · simp only [if_pos h126]
    by_cases hlen : p.length < 4
    · exact .inl (if_pos hlen)
    · rw [if_neg hlen, if_neg (by rw [List.length_append]; omega), hread 2 2 (by omega)]
      exact .inr rfl
  · simp only [if_neg h126]
    by_cases h127 : short = 127
    · simp only [if_pos h127]
      by_cases hlen : p.length < 10
      · exact .inl (if_pos hlen)
      · rw [if_neg hlen, if_neg (by rw [List.length_append]; omega), hread 2 8 (by omega)]
        exact .inr rfl
    · rw [if_neg h127, if_neg h127]
      exact .inr rfl

namespace BuildCall

/-- A call that the builder can serve. -/
structure Ok (c : BuildCall) : Prop where
  opcode : c.opcode < 16
  length : c.payload.length < 2 ^ 62
  cap : (wsHeaderSize (UInt64.ofNat c.payload.length) c.mask4.isSome +
    UInt64.ofNat c.payload.length).toNat ≤ c.cap

def first (c : BuildCall) : UInt8 := 0x80 ||| (UInt8.ofNat c.opcode &&& 0x0f)

def mbit (c : BuildCall) : UInt8 := if c.mask4.isSome then 0x80 else 0

/-- The mask and the payload as they go over the wire. -/
def body (c : BuildCall) : List UInt8 :=
  match c.mask4 with
  | none => c.payload
  | some k => k.bytes ++ c.payload.mapIdx fun i b => b ^^^ k.bytes.getD (i % 4) 0

/-- The bytes of the frame. -/
def bytes (c : BuildCall) : List UInt8 := (ncWsFrameBuild c).getD []

variable {c : BuildCall}

theorem first_opcode (hc : c.Ok) : c.first &&& 0x0f = UInt8.ofNat c.opcode := by
  have hall : ∀ n < 16, (0x80 ||| (UInt8.ofNat n &&& 0x0f)) &&& 0x0f = UInt8.ofNat n := by decide
  exact hall c.opcode hc.opcode

theorem first_fin (hc : c.Ok) : c.first &&& 0x80 ≠ 0 := by
  have hall : ∀ n < 16, (0x80 ||| (UInt8.ofNat n &&& 0x0f)) &&& 0x80 ≠ 0 := by decide
  exact hall c.opcode hc.opcode

theorem mbit_low7 {low : UInt8} (hlow : low.toNat < 128) : (c.mbit ||| low) &&& 0x7f = low := by
  unfold mbit
  split
  · exact (low7_of_lt hlow).2
  · exact (low7_of_lt hlow).1

theorem mbit_bit7 {low : UInt8} (hlow : low.toNat < 128) :
    (c.mbit ||| low) &&& 0x80 ≠ 0 ↔ c.mask4.isSome = true := by
  unfold mbit
  split
  · rename_i hm
    exact iff_of_true (bit7_of_lt hlow).2 hm
  · rename_i hm
    exact iff_of_false (not_not.2 (bit7_of_lt hlow).1) hm

theorem length_body : c.body.length = c.payload.length + if c.mask4.isSome then 4 else 0 := by
  unfold body
  cases c.mask4 with
  | none => rfl
  | some k =>
    rw [List.length_append, List.length_mapIdx, Nat.add_comm]
    rfl

theorem toNat_length (hc : c.Ok) : (UInt64.ofNat c.payload.length).toNat = c.payload.length := by
  have hlen := hc.length
  rw [UInt64.toNat_ofNat', Nat.mod_eq_of_lt (by omega)]

/-- The parts of a frame that the parser finds: the first two bytes, the extended length, and the
mask and the payload. -/
structure Parts (c : BuildCall) (low : UInt8) (tail : List UInt8) (short : UInt64) : Prop where
  build : ncWsFrameBuild c = some (c.first :: (c.mbit ||| low) :: (tail ++ c.body))
  low7 : low.toNat < 128
  header : tail.length + 2 = short.toNat
  small : short.toNat ≤ 10
  field : ∀ b0 b1 rest, lengthField (b0 :: b1 :: (tail ++ rest)) low =
    some (some (UInt64.ofNat c.payload.length, short))

theorem exists_parts (hc : c.Ok) : ∃ low tail short, Parts c low tail short := by
  obtain ⟨low, tail, short, hsize, hlow, hheader, hsmall, hfield⟩ :=
    sizeField_eq (UInt64.ofNat c.payload.length)
  refine ⟨low, tail, short, ?_, hlow, hheader, hsmall, hfield⟩
  unfold ncWsFrameBuild
  rw [if_neg (Nat.not_lt.2 hc.cap)]
  unfold first mbit body
  cases c.mask4 with
  | none => simp [hsize]
  | some k => simp [hsize]

/-- The size of the header with the mask. -/
def hdr (c : BuildCall) (short : UInt64) : UInt64 := if c.mask4.isSome then short + 4 else short

theorem toNat_hdr {short : UInt64} (hsmall : short.toNat ≤ 10) :
    (c.hdr short).toNat = short.toNat + if c.mask4.isSome then 4 else 0 := by
  unfold hdr
  split
  · rw [UInt64.toNat_add]
    exact Nat.mod_eq_of_lt (Nat.lt_of_le_of_lt (Nat.add_le_add_right hsmall _) (by decide))
  · rfl

namespace Parts

variable {low : UInt8} {tail : List UInt8} {short : UInt64}

theorem bytes_eq (hp : Parts c low tail short) :
    c.bytes = c.first :: (c.mbit ||| low) :: (tail ++ c.body) := by
  rw [bytes, hp.build, Option.getD_some]

theorem length_bytes (hp : Parts c low tail short) :
    c.bytes.length = (c.hdr short).toNat + c.payload.length := by
  have hheader := hp.header
  rw [hp.bytes_eq, toNat_hdr hp.small, List.length_cons, List.length_cons, List.length_append,
    length_body]
  omega

theorem toNat_sum (hc : c.Ok) (hp : Parts c low tail short) :
    (c.hdr short + UInt64.ofNat c.payload.length).toNat = c.bytes.length := by
  have hlen := hc.length
  have hsmall := hp.small
  have hhdr : (c.hdr short).toNat ≤ 14 := by
    rw [toNat_hdr hsmall]
    split <;> omega
  rw [UInt64.toNat_add, toNat_length hc, hp.length_bytes, Nat.mod_eq_of_lt (by omega)]

theorem parse_eq (hp : Parts c low tail short) (rest : List UInt8) :
    ncWsFrameParse (c.bytes ++ rest) =
      takeFrame (c.bytes ++ rest) c.first (c.mask4.isSome = true)
        (UInt64.ofNat c.payload.length) (c.hdr short) := by
  have hfield : lengthField (c.bytes ++ rest) ((c.mbit ||| low) &&& 0x7f) =
      some (some (UInt64.ofNat c.payload.length, short)) := by
    rw [mbit_low7 hp.low7, hp.bytes_eq, List.cons_append, List.cons_append, List.append_assoc]
    exact hp.field _ _ _
  have h0 : (c.bytes ++ rest)[0]? = some c.first := by rw [hp.bytes_eq]; rfl
  have h1 : (c.bytes ++ rest)[1]? = some (c.mbit ||| low) := by rw [hp.bytes_eq]; rfl
  rw [ncWsFrameParse_of_field h0 h1 hfield]
  simp only [mbit_bit7 hp.low7, hdr]

theorem drop_bytes (hp : Parts c low tail short) (rest : List UInt8) :
    (c.bytes ++ rest).drop short.toNat = c.body ++ rest := by
  have hcat : c.bytes ++ rest = (c.first :: (c.mbit ||| low) :: tail) ++ (c.body ++ rest) := by
    rw [hp.bytes_eq, List.cons_append, List.cons_append, List.append_assoc]
    rfl
  rw [hcat, List.drop_left' (by simpa using hp.header)]

theorem getElem?_bytes (hp : Parts c low tail short) (rest : List UInt8) (i : Nat) :
    (c.bytes ++ rest)[short.toNat + i]? = (c.body ++ rest)[i]? := by
  rw [← hp.drop_bytes rest, List.getElem?_drop]

theorem unmask_bytes (hp : Parts c low tail short) {k : Mask4} (hk : c.mask4 = some k)
    (rest : List UInt8) :
    ∃ buf', unmask (c.hdr short).toNat 0 c.payload.length (c.bytes ++ rest) = some buf' ∧
      (buf'.drop (c.hdr short).toNat).take c.payload.length = c.payload ∧
      buf'.drop c.bytes.length = rest := by
  have hhdr : (c.hdr short).toNat = short.toNat + 4 := by rw [toNat_hdr hp.small, hk]; rfl
  have hlen : c.bytes.length = short.toNat + 4 + c.payload.length := by
    rw [hp.length_bytes, hhdr]
  have hbody : c.body = k.bytes ++ c.payload.mapIdx fun i b => b ^^^ k.bytes.getD (i % 4) 0 := by
    rw [body, hk]
  have hkey : ∀ i, maskByte (c.bytes ++ rest) (short.toNat + 4) i = k.bytes.getD (i % 4) 0 := by
    intro i
    have hlt : i % 4 < k.bytes.length := Nat.mod_lt i (by decide)
    rw [maskByte, Nat.add_sub_cancel, hp.getElem?_bytes, hbody, List.append_assoc,
      List.getElem?_append_left hlt, List.getD_eq_getElem?_getD]
  have hwire : ∀ i < c.payload.length, (c.bytes ++ rest)[short.toNat + 4 + i]? =
      c.payload[i]?.map (· ^^^ k.bytes.getD (i % 4) 0) := by
    intro i hi
    have hnext :
        (k.bytes ++ (c.payload.mapIdx (fun i b => b ^^^ k.bytes.getD (i % 4) 0) ++ rest))[4 + i]? =
          (c.payload.mapIdx (fun i b => b ^^^ k.bytes.getD (i % 4) 0) ++ rest)[i]? := by
      rw [List.getElem?_append_right (Nat.le_add_right 4 i)]
      exact congrArg (getElem? _) (Nat.add_sub_cancel_left 4 i)
    rw [Nat.add_assoc, hp.getElem?_bytes, hbody, List.append_assoc, hnext,
      List.getElem?_append_left (by simpa using hi), List.getElem?_mapIdx]
  rw [hhdr]
  obtain ⟨buf', hrun, hsame, hget⟩ := unmask_eq_some (show 4 ≤ short.toNat + 4 by omega)
    c.payload.length 0 (c.bytes ++ rest) (by rw [List.length_append]; omega)
  refine ⟨buf', hrun, ?_, ?_⟩
  · apply List.ext_getElem?
    intro i
    by_cases hi : i < c.payload.length
    · rw [List.getElem?_take_of_lt hi, List.getElem?_drop, hget, if_pos (by omega),
        Nat.add_sub_cancel_left, hkey, hwire i hi, Option.map_map]
      have hid : ((· ^^^ k.bytes.getD (i % 4) 0) ∘ (· ^^^ k.bytes.getD (i % 4) 0)) = id := by
        funext b
        change b ^^^ k.bytes.getD (i % 4) 0 ^^^ k.bytes.getD (i % 4) 0 = b
        rw [UInt8.xor_assoc, UInt8.xor_self, UInt8.xor_zero]
      rw [hid, Option.map_id, id]
    · rw [List.getElem?_eq_none (by rw [List.length_take]; omega),
        List.getElem?_eq_none (by omega)]
  · apply List.ext_getElem?
    intro i
    rw [List.getElem?_drop, hget, if_neg (by omega), List.getElem?_append_right (by omega),
      Nat.add_sub_cancel_left]

end Parts

theorem parse_bytes (hc : c.Ok) (rest : List UInt8) :
    ∃ buf' f, ncWsFrameParse (c.bytes ++ rest) = some ((c.bytes.length : Int), buf', some f) ∧
      f.opcode = UInt8.ofNat c.opcode ∧ f.fin = true ∧
      (buf'.drop f.payload).take f.payloadLen = c.payload ∧ buf'.drop c.bytes.length = rest := by
  obtain ⟨low, tail, short, hp⟩ := exists_parts hc
  have hsum := hp.toNat_sum hc
  have hlen := hc.length
  have hbytes := hp.length_bytes
  have hlong : toLong (c.hdr short + UInt64.ofNat c.payload.length) = (c.bytes.length : Int) := by
    have hsmall := hp.small
    have hhdr : (c.hdr short).toNat ≤ 14 := by
      rw [toNat_hdr hsmall]
      split <;> omega
    rw [toLong_eq (by omega), hsum]
  rw [hp.parse_eq, takeFrame, if_neg (by rw [hsum, List.length_append]; omega), hlong,
    toNat_length hc]
  cases hk : c.mask4 with
  | none =>
    have hhdr : (c.hdr short).toNat = short.toNat := by rw [toNat_hdr hp.small, hk]; rfl
    refine ⟨_, _, rfl, first_opcode hc, decide_eq_true (first_fin hc), ?_, List.drop_left⟩
    have hbody : c.body = c.payload := by rw [body, hk]
    rw [hhdr, hp.drop_bytes, hbody, List.take_left]
  | some k =>
    obtain ⟨buf', hrun, hpayload, hrest⟩ := hp.unmask_bytes hk rest
    simp only [Option.isSome_some, if_true, hrun]
    exact ⟨buf', _, rfl, first_opcode hc, decide_eq_true (first_fin hc), hpayload, hrest⟩

theorem parse_part (hc : c.Ok) {p q : List UInt8} (hpq : p ++ q = c.bytes) (hq : q ≠ []) :
    ncWsFrameParse p = some (0, p, none) := by
  obtain ⟨low, tail, short, hp⟩ := exists_parts hc
  have hqpos : 0 < q.length := List.length_pos_iff.2 hq
  have hlen : p.length < c.bytes.length := by
    rw [← hpq, List.length_append]
    omega
  by_cases h2 : p.length < 2
  · exact if_pos h2
  have hsame : ∀ i < p.length, p[i]? = c.bytes[i]? := fun i hi => by
    rw [← hpq, List.getElem?_append_left hi]
  have h0 : p[0]? = some c.first := by rw [hsame 0 (by omega), hp.bytes_eq]; rfl
  have h1 : p[1]? = some (c.mbit ||| low) := by rw [hsame 1 (by omega), hp.bytes_eq]; rfl
  have hwhole : lengthField c.bytes ((c.mbit ||| low) &&& 0x7f) =
      some (some (UInt64.ofNat c.payload.length, short)) := by
    have hfield := hp.field c.first (c.mbit ||| low) c.body
    rwa [← hp.bytes_eq, ← mbit_low7 (c := c) hp.low7] at hfield
  obtain hmore | hfield := lengthField_part p q ((c.mbit ||| low) &&& 0x7f)
  · exact ncWsFrameParse_of_more h0 h1 hmore
  · rw [hpq, hwhole] at hfield
    rw [ncWsFrameParse_of_field h0 h1 hfield]
    simp only [mbit_bit7 hp.low7]
    exact if_pos (by rw [← hdr, hp.toNat_sum hc]; exact hlen)

end BuildCall

/-- What a program that uses the parser gets: the opcode, the flag and the payload of a frame, and
how many bytes it takes. -/
def wsDecode (buf : List UInt8) : Option ((UInt8 × Bool × List UInt8) × Nat) :=
  match ncWsFrameParse buf with
  | some (n, buf', some f) =>
    some ((f.opcode, f.fin, (buf'.drop f.payload).take f.payloadLen), n.toNat)
  | _ => none

/-- The opcode, the flag and the payload that a call sends. -/
def BuildCall.sent (c : BuildCall) : UInt8 × Bool × List UInt8 :=
  (UInt8.ofNat c.opcode, true, c.payload)

theorem framed_wsDecode : Framed wsDecode BuildCall.bytes BuildCall.sent BuildCall.Ok where
  empty := rfl
  whole := fun c hc rest => by
    obtain ⟨buf', f, hparse, hop, hfin, hpayload, -⟩ := BuildCall.parse_bytes hc rest
    simp only [wsDecode, hparse, hop, hfin, hpayload, Int.toNat_natCast, BuildCall.sent]
  part := fun c hc p q hpq hq => by
    simp only [wsDecode, BuildCall.parse_part hc hpq hq]
  ne_nil := fun c hc => by
    obtain ⟨low, tail, short, hp⟩ := BuildCall.exists_parts hc
    rw [hp.bytes_eq]
    exact List.cons_ne_nil _ _

/-- Frames that are built and sent one after the other: the parser takes each off whatever follows
it and leaves a proper part of it alone, and a receiver gets them all, however the stream is
split. -/
theorem ncWsFrame_stream (cs : List BuildCall) (hok : ∀ c ∈ cs, c.Ok) :
    (∀ c ∈ cs, ncWsFrameBuild c = some c.bytes ∧
      (∀ rest, ∃ buf' f,
        ncWsFrameParse (c.bytes ++ rest) = some ((c.bytes.length : Int), buf', some f) ∧
          f.opcode = UInt8.ofNat c.opcode ∧ f.fin = true ∧
          (buf'.drop f.payload).take f.payloadLen = c.payload ∧
          buf'.drop c.bytes.length = rest) ∧
      ∀ p q, p ++ q = c.bytes → q ≠ [] → ncWsFrameParse p = some (0, p, none)) ∧
    ∀ reads, reads.flatten = cs.flatMap BuildCall.bytes →
      Lib.Framing.receive wsDecode [] reads = (cs.map BuildCall.sent, []) := by
  refine ⟨fun c hc => ⟨?_, fun rest => BuildCall.parse_bytes (hok c hc) rest,
    fun p q hpq hq => BuildCall.parse_part (hok c hc) hpq hq⟩,
    fun reads hreads => receive_flatMap framed_wsDecode hok hreads⟩
  obtain ⟨low, tail, short, hp⟩ := BuildCall.exists_parts (hok c hc)
  rw [hp.bytes_eq, hp.build]

/-- Two frames, one with a mask, in reads that cut the second one. -/
theorem twoFrames_stream :
    Lib.Framing.receive wsDecode [] [[0x82, 1, 9, 0x81], [0x81, 1, 2, 3, 4], [0x62]] =
      ([(2, true, [9]), (1, true, [0x63])], []) := by
  have hok : ∀ c ∈ [BuildCall.mk 3 2 [9] none, BuildCall.mk 7 1 [0x63] (some ⟨1, 2, 3, 4⟩)],
      c.Ok := by
    intro c hc
    rw [List.mem_pair] at hc
    obtain rfl | rfl := hc
    · exact ⟨by decide, by decide, by decide⟩
    · exact ⟨by decide, by decide, by decide⟩
  exact (ncWsFrame_stream _ hok).2 _ (by decide)

end MechanicalResearcher.NetchanV2
