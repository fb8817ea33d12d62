import Mathlib.Algebra.Order.BigOperators.Group.List
import Mathlib.Data.Nat.Bitwise
import MechanicalResearcher.Lib.BigEndian
import MechanicalResearcher.Quaoar.Netstring

/-!
# WebSocket frames of the server

`read_all`, `ws_read`, `ws_write` and `ws_pong` of
`programmable-display-protocols/demo/quaoar-server.c`.  A connection is the list of the bytes that
arrive before it ends; `read_all` waits for as many as it wants, so that it does not matter how
they are cut.
-/

namespace MechanicalResearcher.Quaoar

open Lib.BigEndian

/-! ## The code -/

/-- `n` bytes and the bytes behind them, or none for -1. -/
def readAll (n : Nat) (stream : List UInt8) : Option (List UInt8 × List UInt8) :=
  if n ≤ stream.length then some (stream.take n, stream.drop n) else none

/-- The length of the payload, for the low bits of the second byte. -/
def readLength (short : UInt8) (stream : List UInt8) : Option (UInt64 × List UInt8) :=
  if short = 126 then (readAll 2 stream).map fun r => ((rd16 r.1).toUInt64, r.2)
  else if short = 127 then (readAll 8 stream).map fun r => (rd64 r.1, r.2)
  else some (short.toUInt64, stream)

/-- `payload[i] ^= mask[i % 4]`, from `i` on. -/
def xorMask (mask : List UInt8) : Nat → List UInt8 → List UInt8
  | _, [] => []
  | i, b :: payload => (b ^^^ mask.getD (i % 4) 0) :: xorMask mask (i + 1) payload

def readMask (masked : Prop) [Decidable masked] (stream : List UInt8) :
    Option (List UInt8 × List UInt8) :=
  if masked then readAll 4 stream else some ([0, 0, 0, 0], stream)

/-- The opcode, the payload and the bytes behind the frame, or none for -1. -/
def wsRead (max : Nat) (stream : List UInt8) : Option (UInt8 × List UInt8 × List UInt8) :=
  (readAll 2 stream).bind fun hdr =>
    let second := hdr.1.getD 1 0
    (readLength (second &&& 0x7f) hdr.2).bind fun len =>
      if UInt64.ofNat max < len.1 then none
      else
        (readMask (second &&& 0x80 ≠ 0) len.2).bind fun mask =>
          (readAll len.1.toNat mask.2).map fun payload =>
            (hdr.1.getD 0 0 &&& 0x0f,
              if second &&& 0x80 ≠ 0 then xorMask mask.1 0 payload.1 else payload.1, payload.2)

/-- The bytes that are written for a text. -/
def wsWrite (payload : List UInt8) : List UInt8 :=
  let len := payload.length
  (0x81 :: if len < 126 then [UInt8.ofNat len]
    else if len < 65536 then 126 :: wr16 (UInt16.ofNat len)
    else 127 :: wr64 (UInt64.ofNat len)) ++ payload

/-- The bytes that are written for a ping. -/
def wsPong (data : List UInt8) : List UInt8 :=
  [0x8A, UInt8.ofNat data.length] ++ if 0 < data.length then data else []

/-! ## Frames -/

/-- The three ways to give a length, the later two with the bytes behind the header. -/
inductive LengthField where
  | short (n : Nat) (h : n ≤ 125)
  | ext16 (ext : List UInt8) (h : ext.length = 2)
  | ext64 (ext : List UInt8) (h : ext.length = 8)

namespace LengthField

def code : LengthField → Nat
  | short n _ => n
  | ext16 _ _ => 126
  | ext64 _ _ => 127

def ext : LengthField → List UInt8
  | short _ _ => []
  | ext16 ext _ => ext
  | ext64 ext _ => ext

def value : LengthField → Nat
  | short n _ => n
  | ext16 ext _ => (rd16 ext).toNat
  | ext64 ext _ => (rd64 ext).toNat

theorem code_lt (l : LengthField) : l.code < 128 := by
  cases l with
  | short n h => exact Nat.lt_of_le_of_lt h (by decide)
  | ext16 ext h => exact (by decide : 126 < 128)
  | ext64 ext h => exact (by decide : 127 < 128)

theorem value_lt (l : LengthField) : l.value < 2 ^ 64 := by
  cases l with
  | short n h => exact Nat.lt_of_le_of_lt h (by decide)
  | ext16 ext h => exact Nat.lt_trans (rd16 ext).toNat_lt (by decide)
  | ext64 ext h => exact (rd64 ext).toNat_lt

/-- The shortest way. -/
def least (n : Nat) : Nat := if n ≤ 125 then 0 else if n < 65536 then 2 else 8

theorem least_le (l : LengthField) : least l.value ≤ l.ext.length := by
  cases l with
  | short n h => exact (if_pos h).le
  | ext16 ext h =>
    change least (rd16 ext).toNat ≤ ext.length
    rw [h, least]
    split
    · decide
    · rw [if_pos (rd16 ext).toNat_lt]
  | ext64 ext h =>
    change least (rd64 ext).toNat ≤ ext.length
    rw [h, least]
    split
    · decide
    · split <;> decide

end LengthField

/-- A frame as it is on the wire; the payload is the one before it is masked. -/
structure WsFrame where
  first : UInt8
  len : LengthField
  mask : Option { mask : List UInt8 // mask.length = 4 }
  payload : List UInt8
  length_payload : payload.length = len.value

namespace WsFrame

def opcode (f : WsFrame) : UInt8 := f.first &&& 0x0f

def second (f : WsFrame) : UInt8 :=
  UInt8.ofNat (if f.mask.isSome then 128 + f.len.code else f.len.code)

def maskBytes (f : WsFrame) : List UInt8 := f.mask.elim [] Subtype.val

def wire (f : WsFrame) : List UInt8 :=
  f.mask.elim f.payload fun mask => xorMask mask.val 0 f.payload

def bytes (f : WsFrame) : List UInt8 :=
  [f.first, f.second] ++ (f.len.ext ++ (f.maskBytes ++ f.wire))

end WsFrame

theorem length_xorMask (mask : List UInt8) (i : Nat) (payload : List UInt8) :
    (xorMask mask i payload).length = payload.length := by
  induction payload generalizing i with
  | nil => rfl
  | cons b payload ih => rw [xorMask, List.length_cons, List.length_cons, ih]

theorem xorMask_xorMask (mask : List UInt8) (i : Nat) (payload : List UInt8) :
    xorMask mask i (xorMask mask i payload) = payload := by
  induction payload generalizing i with
  | nil => rfl
  | cons b payload ih => rw [xorMask, xorMask, ih, UInt8.xor_assoc, UInt8.xor_self, UInt8.xor_zero]

theorem readAll_append {n : Nat} {xs : List UInt8} (hn : xs.length = n) (rest : List UInt8) :
    readAll n (xs ++ rest) = some (xs, rest) := by
  rw [readAll, if_pos (by rw [List.length_append, hn]; exact Nat.le_add_right ..),
    List.take_left' hn, List.drop_left' hn]

theorem readAll_eq_some {n : Nat} {stream xs rest : List UInt8}
    (h : readAll n stream = some (xs, rest)) : stream = xs ++ rest ∧ xs.length = n := by
  rw [readAll] at h
  split at h
  · rename_i hle
    obtain ⟨rfl, rfl⟩ := Prod.mk.inj (Option.some.inj h)
    exact ⟨(List.take_append_drop n stream).symm, List.length_take_of_le hle⟩
  · cases h

/-! ### The second byte -/

theorem toNat_low_bits (b : UInt8) : (b &&& 0x7f).toNat = b.toNat % 128 := by
  rw [UInt8.toNat_and]
  exact Nat.and_two_pow_sub_one_eq_mod b.toNat 7

theorem high_bit_iff (b : UInt8) : b &&& 0x80 ≠ 0 ↔ 128 ≤ b.toNat := by
  have hb := b.toNat_lt
  have hand : (b &&& 0x80).toNat = b.toNat / 128 * 128 := by
    rw [UInt8.toNat_and]
    have hpow := Nat.and_two_pow b.toNat 7
    have hbit : (b.toNat.testBit 7).toNat = b.toNat / 128 := by
      have hone : b.toNat / 2 ^ 7 % 2 = b.toNat / 128 := Nat.mod_eq_of_lt (by omega)
      rw [Nat.testBit_eq_decide_div_mod_eq, hone]
      rcases Nat.lt_or_ge (b.toNat / 128) 1 with h | h
      · have h0 : b.toNat / 128 = 0 := by omega
        rw [h0]
        rfl
      · have h1 : b.toNat / 128 = 1 := by omega
        rw [h1]
        rfl
    rw [hbit] at hpow
    exact hpow
  rw [Ne, ← UInt8.toNat_inj, hand]
  change ¬(b.toNat / 128 * 128 = 0) ↔ _
  omega

theorem WsFrame.toNat_second (f : WsFrame) :
    f.second.toNat = if f.mask.isSome then 128 + f.len.code else f.len.code := by
  have hcode := f.len.code_lt
  refine UInt8.toNat_ofNat_of_lt' ?_
  change _ < 2 ^ 8
  split <;> omega

theorem WsFrame.second_high (f : WsFrame) : f.second &&& 0x80 ≠ 0 ↔ f.mask.isSome := by
  have hcode := f.len.code_lt
  rw [high_bit_iff, f.toNat_second]
  split
  · rename_i h
    exact iff_of_true (by omega) h
  · rename_i h
    exact iff_of_false (by omega) h

theorem WsFrame.second_low (f : WsFrame) : f.second &&& 0x7f = UInt8.ofNat f.len.code := by
  have hcode := f.len.code_lt
  have hlow : (f.second &&& 0x7f).toNat = f.len.code := by
    rw [toNat_low_bits, f.toNat_second]
    split <;> omega
  rw [← hlow, UInt8.ofNat_toNat]

/-! ### Reading -/

theorem readLength_ext (l : LengthField) (rest : List UInt8) :
    readLength (UInt8.ofNat l.code) (l.ext ++ rest) = some (UInt64.ofNat l.value, rest) := by
  cases l with
  | short n h =>
    have hn : (UInt8.ofNat n).toNat = n :=
      UInt8.toNat_ofNat_of_lt' (Nat.lt_of_le_of_lt h (by decide))
    have hne (m : UInt8) (hm : 125 < m.toNat) : UInt8.ofNat n ≠ m := by
      rintro rfl
      omega
    change readLength (UInt8.ofNat n) rest = some (UInt64.ofNat n, rest)
    rw [readLength, if_neg (hne 126 (by decide)), if_neg (hne 127 (by decide))]
    have hvalue : (UInt8.ofNat n).toUInt64 = UInt64.ofNat n := by
      rw [← UInt64.toNat_inj, UInt8.toNat_toUInt64, hn]
      exact (UInt64.toNat_ofNat_of_lt' (Nat.lt_of_le_of_lt h (by decide))).symm
    rw [hvalue]
  | ext16 ext h =>
    change readLength 126 (ext ++ rest) = some (UInt64.ofNat (rd16 ext).toNat, rest)
    rw [readLength, if_pos rfl, readAll_append h]
    have hvalue : (rd16 ext).toUInt64 = UInt64.ofNat (rd16 ext).toNat := by
      rw [← UInt64.toNat_inj, UInt16.toNat_toUInt64]
      exact (UInt64.toNat_ofNat_of_lt' (Nat.lt_trans (rd16 ext).toNat_lt (by decide))).symm
    change some ((rd16 ext).toUInt64, rest) = _
    rw [hvalue]
  | ext64 ext h =>
    change readLength 127 (ext ++ rest) = some (UInt64.ofNat (rd64 ext).toNat, rest)
    rw [readLength, if_neg (by decide), if_pos rfl, readAll_append h, UInt64.ofNat_toNat]
    rfl

theorem readMask_maskBytes (f : WsFrame) (rest : List UInt8) :
    ∃ mask, readMask (f.second &&& 0x80 ≠ 0) (f.maskBytes ++ rest) = some (mask, rest) ∧
      (if f.second &&& 0x80 ≠ 0 then xorMask mask 0 f.wire else f.wire) = f.payload := by
  have hhigh := f.second_high
  cases hmask : f.mask with
  | none =>
    have hbytes : f.maskBytes = [] := by rw [WsFrame.maskBytes, hmask]; rfl
    have hwire : f.wire = f.payload := by rw [WsFrame.wire, hmask]; rfl
    rw [hmask] at hhigh
    have hplain : ¬(f.second &&& 0x80 ≠ 0) := fun h => Bool.false_ne_true (hhigh.mp h)
    rw [hbytes, hwire, readMask, if_neg hplain]
    exact ⟨_, rfl, if_neg hplain⟩
  | some mask =>
    have hbytes : f.maskBytes = mask.val := by rw [WsFrame.maskBytes, hmask]; rfl
    have hwire : f.wire = xorMask mask.val 0 f.payload := by rw [WsFrame.wire, hmask]; rfl
    rw [hmask] at hhigh
    have hmasked := hhigh.mpr rfl
    rw [hbytes, hwire, readMask, if_pos hmasked, readAll_append mask.property]
    exact ⟨mask.val, rfl, by rw [if_pos hmasked, xorMask_xorMask]⟩

theorem WsFrame.length_wire (f : WsFrame) : f.wire.length = f.len.value := by
  rw [← f.length_payload, WsFrame.wire]
  cases f.mask with
  | none => rfl
  | some mask => exact length_xorMask mask.val 0 f.payload

theorem wsRead_bytes (f : WsFrame) {max : Nat} (hmax : max < 2 ^ 64)
    (h : f.payload.length ≤ max) (rest : List UInt8) :
    wsRead max (f.bytes ++ rest) = some (f.opcode, f.payload, rest) := by
  have hvalue : (UInt64.ofNat f.len.value).toNat = f.len.value :=
    UInt64.toNat_ofNat_of_lt' f.len.value_lt
  have hroom : ¬UInt64.ofNat max < UInt64.ofNat f.len.value := by
    rw [UInt64.lt_iff_toNat_lt, hvalue, UInt64.toNat_ofNat_of_lt' hmax, ← f.length_payload]
    omega
  obtain ⟨mask, hmask, hpayload⟩ := readMask_maskBytes f (f.wire ++ rest)
  have hhdr : readAll 2 (f.bytes ++ rest) =
      some ([f.first, f.second], f.len.ext ++ (f.maskBytes ++ (f.wire ++ rest))) := by
    rw [WsFrame.bytes, List.append_assoc, List.append_assoc, List.append_assoc]
    exact @readAll_append 2 [f.first, f.second] rfl _
  rw [wsRead, hhdr, Option.bind_some]
  change (readLength (f.second &&& 0x7f) _).bind _ = _
  rw [f.second_low, readLength_ext, Option.bind_some, if_neg hroom]
  change (readMask (f.second &&& 0x80 ≠ 0) _).bind _ = _
  rw [hmask, Option.bind_some, hvalue, readAll_append f.length_wire, Option.map_some]
  change some (f.opcode, if f.second &&& 0x80 ≠ 0 then _ else _, rest) = _
  rw [hpayload]

theorem readLength_eq_some {short : UInt8} (hshort : short.toNat < 128) {stream rest : List UInt8}
    {len : UInt64} (h : readLength short stream = some (len, rest)) :
    ∃ l : LengthField, l.code = short.toNat ∧ stream = l.ext ++ rest ∧ l.value = len.toNat := by
  rw [readLength] at h
  split at h
  · rename_i h126
    obtain ⟨⟨ext, rest'⟩, hread, hr⟩ := Option.map_eq_some_iff.mp h
    obtain ⟨rfl, rfl⟩ := Prod.mk.inj hr
    obtain ⟨rfl, hext⟩ := readAll_eq_some hread
    exact ⟨.ext16 ext hext, by rw [h126]; rfl, rfl, (UInt16.toNat_toUInt64 _).symm⟩
  · split at h
    · rename_i h127
      obtain ⟨⟨ext, rest'⟩, hread, hr⟩ := Option.map_eq_some_iff.mp h
      obtain ⟨rfl, rfl⟩ := Prod.mk.inj hr
      obtain ⟨rfl, hext⟩ := readAll_eq_some hread
      exact ⟨.ext64 ext hext, by rw [h127]; rfl, rfl, rfl⟩
    · rename_i h126 h127
      obtain ⟨rfl, rfl⟩ := Prod.mk.inj (Option.some.inj h)
      have hne (m : UInt8) (hm : short ≠ m) : short.toNat ≠ m.toNat := fun heq =>
        hm (UInt8.toNat_inj.mp heq)
      have h126 : short.toNat ≠ 126 := hne 126 h126
      have h127 : short.toNat ≠ 127 := hne 127 h127
      exact ⟨.short short.toNat (by omega), rfl, rfl, (UInt8.toNat_toUInt64 _).symm⟩

theorem wsRead_eq_some {max : Nat} (hmax : max < 2 ^ 64) {stream payload rest : List UInt8}
    {opcode : UInt8} (h : wsRead max stream = some (opcode, payload, rest)) :
    ∃ f : WsFrame, stream = f.bytes ++ rest ∧ f.opcode = opcode ∧ f.payload = payload ∧
      payload.length ≤ max := by
  rw [wsRead] at h
  obtain ⟨⟨hdr, afterHdr⟩, hhdr, h1⟩ := Option.bind_eq_some_iff.mp h
  obtain ⟨⟨len, afterLen⟩, hlen, h2⟩ := Option.bind_eq_some_iff.mp h1
  split at h2
  · cases h2
  rename_i hroom
  obtain ⟨⟨mask, afterMask⟩, hmask, h3⟩ := Option.bind_eq_some_iff.mp h2
  obtain ⟨⟨wire, rest'⟩, hwire, h4⟩ := Option.map_eq_some_iff.mp h3
  obtain ⟨hop, h5⟩ := Prod.mk.inj h4
  obtain ⟨hpayload, hrest⟩ := Prod.mk.inj h5
  obtain ⟨hstream, hhdrlen⟩ := readAll_eq_some hhdr
  obtain ⟨first, second, rfl⟩ := List.length_eq_two.mp hhdrlen
  change readLength (second &&& 0x7f) afterHdr = _ at hlen
  change readMask (second &&& 0x80 ≠ 0) afterLen = _ at hmask
  change (if second &&& 0x80 ≠ 0 then xorMask mask 0 wire else wire) = payload at hpayload
  obtain ⟨l, hcode, hext, hvalue⟩ := readLength_eq_some
    (by rw [toNat_low_bits]; exact Nat.mod_lt _ (by decide)) hlen
  obtain ⟨hafter, hwirelen⟩ := readAll_eq_some hwire
  rw [toNat_low_bits] at hcode
  rw [UInt64.lt_iff_toNat_lt, UInt64.toNat_ofNat_of_lt' hmax, ← hvalue] at hroom
  rw [← hvalue] at hwirelen
  dsimp only at hrest hafter
  subst hrest hafter hext hstream
  have hbyte := second.toNat_lt
  have hhigh := high_bit_iff second
  rw [readMask] at hmask
  split at hmask
  · rename_i hmasked
    obtain ⟨rfl, hmasklen⟩ := readAll_eq_some hmask
    rw [if_pos hmasked] at hpayload
    subst hpayload
    have hlength : (xorMask mask 0 wire).length = l.value := by rw [length_xorMask, hwirelen]
    have hbit : 128 ≤ second.toNat := hhigh.mp hmasked
    have hsecond : UInt8.ofNat (128 + l.code) = second := by
      rw [← second.ofNat_toNat]
      congr 1
      omega
    refine ⟨⟨first, l, some ⟨mask, hmasklen⟩, xorMask mask 0 wire, hlength⟩, ?_, hop, rfl,
      by omega⟩
    change _ = [first, UInt8.ofNat (128 + l.code)] ++ (l.ext ++ (mask ++ xorMask mask 0
      (xorMask mask 0 wire))) ++ _
    rw [hsecond, xorMask_xorMask]
    simp only [List.append_assoc]
  · rename_i hplain
    obtain ⟨rfl, rfl⟩ := Prod.mk.inj (Option.some.inj hmask)
    rw [if_neg hplain] at hpayload
    subst hpayload
    have hsecond : UInt8.ofNat l.code = second := by
      rw [← second.ofNat_toNat]
      congr 1
      have hbit : ¬128 ≤ second.toNat := fun h => hplain (hhigh.mpr h)
      omega
    refine ⟨⟨first, l, none, wire, hwirelen⟩, ?_, hop, rfl, by omega⟩
    change _ = [first, UInt8.ofNat l.code] ++ (l.ext ++ ([] ++ wire)) ++ _
    rw [hsecond]
    simp only [List.append_assoc, List.nil_append]

/-! ## Messages of the server -/

/-- A message that the server sends: a text, or the answer to a ping that it read. -/
inductive Sent where
  | text (payload : List UInt8) (h : payload.length ≤ maxMsg)
  | pong (payload stream rest : List UInt8)
    (h : wsRead maxMsg stream = some (0x9, payload, rest))

namespace Sent

def payload : Sent → List UInt8
  | text payload _ => payload
  | pong payload _ _ _ => payload

def opcode : Sent → UInt8
  | text _ _ => 0x1
  | pong _ _ _ _ => 0xA

def bytes : Sent → List UInt8
  | text payload _ => wsWrite payload
  | pong payload _ _ _ => wsPong payload

theorem length_payload (m : Sent) : m.payload.length ≤ maxMsg := by
  cases m with
  | text payload h => exact h
  | pong payload stream rest h =>
    obtain ⟨f, hf⟩ := wsRead_eq_some (by decide) h
    exact hf.2.2.2

/-- An unmasked frame in one piece, with the length in the shortest way; control frames have at
most 125 bytes. -/
structure WellFormed (opcode : UInt8) (payload bytes : List UInt8) : Prop where
  frame : ∃ f : WsFrame, f.bytes = bytes ∧ f.first = 0x80 ||| opcode ∧ f.mask = none ∧
    f.payload = payload ∧ f.len.ext.length = LengthField.least payload.length
  control : 0x8 ≤ opcode → payload.length ≤ 125

/-- The bytes of a message are one frame that is read back, whatever comes behind it. -/
structure Carried (m : Sent) : Prop where
  wellFormed : WellFormed m.opcode m.payload m.bytes
  decodes : ∀ rest, wsRead maxMsg (m.bytes ++ rest) = some (m.opcode, m.payload, rest)

end Sent

theorem WsFrame.length_bytes (f : WsFrame) :
    2 + LengthField.least f.payload.length + f.payload.length ≤ f.bytes.length := by
  have hleast := f.len.least_le
  rw [← f.length_payload] at hleast
  rw [WsFrame.bytes, List.length_append, List.length_append, List.length_append, f.length_wire,
    ← f.length_payload]
  change _ ≤ 2 + _
  omega

theorem length_of_wsRead {stream payload rest : List UInt8} {opcode : UInt8}
    (h : wsRead maxMsg stream = some (opcode, payload, rest)) :
    2 + LengthField.least payload.length + payload.length + rest.length ≤ stream.length := by
  obtain ⟨f, rfl, -, rfl, -⟩ := wsRead_eq_some (by decide) h
  have hlength := f.length_bytes
  rw [List.length_append]
  omega

theorem wellFormed_short {first : UInt8} {payload : List UInt8} (h : payload.length ≤ 125) :
    ∃ f : WsFrame, f.bytes = [first, UInt8.ofNat payload.length] ++ payload ∧ f.first = first ∧
      f.mask = none ∧ f.payload = payload ∧
      f.len.ext.length = LengthField.least payload.length :=
  ⟨⟨first, .short payload.length h, none, payload, rfl⟩, rfl, rfl, rfl, rfl, (if_pos h).symm⟩

theorem wellFormed_wsWrite {payload : List UInt8} (h : payload.length ≤ maxMsg) :
    Sent.WellFormed 0x1 payload (wsWrite payload) := by
  refine ⟨?_, fun h => absurd h (by decide)⟩
  rw [wsWrite]
  split
  · exact wellFormed_short (by omega)
  · rename_i hlong
    have hlong : ¬payload.length ≤ 125 := by omega
    split
    · rename_i h16
      have hvalue : (rd16 (wr16 (UInt16.ofNat payload.length))).toNat = payload.length := by
        rw [← List.append_nil (wr16 _), rd16_wr16_append]
        exact UInt16.toNat_ofNat_of_lt' h16
      exact ⟨⟨0x81, .ext16 (wr16 (UInt16.ofNat payload.length)) rfl, none, payload, hvalue.symm⟩,
        rfl, rfl, rfl, rfl, by rw [LengthField.least, if_neg hlong, if_pos h16]; rfl⟩
    · rename_i h64
      have hvalue : (rd64 (wr64 (UInt64.ofNat payload.length))).toNat = payload.length := by
        rw [← List.append_nil (wr64 _), rd64_wr64_append]
        exact UInt64.toNat_ofNat_of_lt' (Nat.lt_of_le_of_lt h (by decide))
      exact ⟨⟨0x81, .ext64 (wr64 (UInt64.ofNat payload.length)) rfl, none, payload, hvalue.symm⟩,
        rfl, rfl, rfl, rfl, by rw [LengthField.least, if_neg hlong, if_neg h64]; rfl⟩

theorem wsPong_eq (payload : List UInt8) :
    wsPong payload = [0x8A, UInt8.ofNat payload.length] ++ payload := by
  rw [wsPong]
  split
  · rfl
  · rename_i h
    rw [List.length_eq_zero_iff.mp (Nat.eq_zero_of_not_pos h)]

namespace Sent

theorem WellFormed.wsRead {opcode : UInt8} (hopcode : (0x80 ||| opcode) &&& 0x0f = opcode)
    {payload bytes : List UInt8} (h : WellFormed opcode payload bytes)
    (hlen : payload.length ≤ maxMsg) (rest : List UInt8) :
    Quaoar.wsRead maxMsg (bytes ++ rest) = some (opcode, payload, rest) := by
  obtain ⟨f, rfl, hfirst, -, rfl, -⟩ := h.frame
  have hread := wsRead_bytes f (by decide) hlen rest
  rw [WsFrame.opcode, hfirst, hopcode] at hread
  exact hread

/-- What the code gets right. -/
def Fits : Sent → Prop
  | text _ _ => True
  | pong payload _ _ _ => payload.length ≤ 125

theorem Fits.carried {m : Sent} (h : m.Fits) : m.Carried := by
  have hwell : WellFormed m.opcode m.payload m.bytes := by
    cases m with
    | text payload hlen => exact wellFormed_wsWrite hlen
    | pong payload stream rest hping =>
      change WellFormed 0xA payload (wsPong payload)
      rw [wsPong_eq]
      exact ⟨wellFormed_short h, fun _ => h⟩
  have hopcode : (0x80 ||| m.opcode) &&& 0x0f = m.opcode := by
    cases m with
    | text payload hlen => exact (by decide : (0x80 ||| 0x1 : UInt8) &&& 0x0f = 0x1)
    | pong payload stream rest hping => exact (by decide : (0x80 ||| 0xA : UInt8) &&& 0x0f = 0xA)
  exact ⟨hwell, hwell.wsRead hopcode m.length_payload⟩

/-- What a message takes at least. -/
def least (m : Sent) : Nat := 2 + LengthField.least m.payload.length + m.payload.length

theorem length_bytes_le (m : Sent) : m.bytes.length ≤ m.least := by
  cases m with
  | text payload h =>
    obtain ⟨f, hbytes, -, hmask, hpayload, hext⟩ := (wellFormed_wsWrite h).frame
    change (wsWrite payload).length ≤ 2 + LengthField.least payload.length + payload.length
    have hwire : f.wire.length = payload.length := by
      rw [f.length_wire, ← f.length_payload, hpayload]
    rw [← hbytes, WsFrame.bytes, WsFrame.maskBytes, hmask, List.length_append,
      List.length_append, hext]
    change 2 + (_ + f.wire.length) ≤ _
    omega
  | pong payload stream rest h =>
    change (wsPong payload).length ≤ 2 + LengthField.least payload.length + payload.length
    rw [wsPong_eq, List.length_append]
    change 2 + _ ≤ _
    omega

theorem length_bytes_lt {m : Sent} (h : ¬m.Fits) : m.bytes.length < m.least := by
  cases m with
  | text payload hlen => exact absurd trivial h
  | pong payload stream rest hping =>
    change ¬payload.length ≤ 125 at h
    have hleast : 0 < LengthField.least payload.length := by
      rw [LengthField.least, if_neg h]
      split <;> decide
    change (wsPong payload).length < 2 + LengthField.least payload.length + payload.length
    rw [wsPong_eq, List.length_append]
    change 2 + _ < _
    omega

end Sent

/-- `n` frames off a stream. -/
def readFrames : Nat → List UInt8 → Option (List (UInt8 × List UInt8) × List UInt8)
  | 0, stream => some ([], stream)
  | n + 1, stream =>
    (wsRead maxMsg stream).bind fun r =>
      (readFrames n r.2.2).map fun t => ((r.1, r.2.1) :: t.1, t.2)

namespace Sent

/-- What a reader gets of a message. -/
def seen (m : Sent) : UInt8 × List UInt8 := (m.opcode, m.payload)

theorem readFrames_carried {ms : List Sent} (h : ∀ m ∈ ms, m.Carried) (rest : List UInt8) :
    readFrames ms.length (ms.flatMap bytes ++ rest) = some (ms.map seen, rest) := by
  induction ms with
  | nil => rfl
  | cons m ms ih =>
    rw [List.flatMap_cons, List.append_assoc, List.length_cons, readFrames,
      (h m List.mem_cons_self).decodes, Option.bind_some,
      ih fun x hx => h x (List.mem_cons_of_mem m hx)]
    rfl

theorem least_of_readFrames (ms : List Sent) {stream rest : List UInt8}
    (h : readFrames ms.length stream = some (ms.map seen, rest)) :
    (ms.map least).sum + rest.length ≤ stream.length := by
  induction ms generalizing stream with
  | nil =>
    obtain ⟨-, rfl⟩ := Prod.mk.inj (Option.some.inj h)
    rw [List.map_nil, List.sum_nil, Nat.zero_add]
  | cons m ms ih =>
    obtain ⟨⟨opcode, payload, rest'⟩, hread, hmore⟩ := Option.bind_eq_some_iff.mp h
    obtain ⟨⟨seen', rest''⟩, hrest, heq⟩ := Option.map_eq_some_iff.mp hmore
    obtain ⟨hcons, rfl⟩ := Prod.mk.inj heq
    obtain ⟨hhead, rfl⟩ := List.cons.inj hcons
    obtain ⟨-, rfl⟩ := Prod.mk.inj hhead
    have hfirst := length_of_wsRead hread
    have hlater := ih hrest
    dsimp only at hlater ⊢
    rw [List.map_cons, List.sum_cons, least]
    omega

theorem sum_lengths_lt {ms : List Sent} {m : Sent} (hm : m ∈ ms) (h : ¬m.Fits) :
    (ms.flatMap bytes).length < (ms.map least).sum := by
  rw [List.length_flatMap]
  exact List.sum_lt_sum _ _ (fun x _ => x.length_bytes_le) ⟨m, hm, length_bytes_lt h⟩

/-- Each message of a run is one well-formed frame with its payload, and a reader stays in sync
through the whole run, when the run answers no ping of more than 125 bytes, and only then. -/
theorem carried_iff (ms : List Sent) :
    ((∀ m ∈ ms, m.Carried) ∧
      readFrames ms.length (ms.flatMap bytes) = some (ms.map seen, [])) ↔ ∀ m ∈ ms, m.Fits := by
  constructor
  · rintro ⟨-, hrun⟩ m hm
    by_contra hfits
    have hleast := least_of_readFrames ms hrun
    have hshort := sum_lengths_lt hm hfits
    omega
  · intro h
    have hall : ∀ m ∈ ms, m.Carried := fun m hm => (h m hm).carried
    have hrun := readFrames_carried hall []
    rw [List.append_nil] at hrun
    exact ⟨hall, hrun⟩

end Sent

/-! ## A ping of 126 bytes -/

def longPing : List UInt8 := [0x89, 0xFE, 0, 126, 0, 0, 0, 0] ++ List.replicate 126 0x41

theorem wsRead_longPing :
    wsRead maxMsg longPing = some (0x9, List.replicate 126 0x41, []) := by
  decide +kernel

/-- The answer says that sixteen bits of length follow, and the payload is taken for them. -/
theorem longPing_answer : ¬∀ m : Sent, m.Carried := by
  intro h
  have hdecodes := (h (.pong _ longPing [] wsRead_longPing)).decodes []
  have hnone : wsRead maxMsg (wsPong (List.replicate 126 0x41) ++ []) = none := by
    decide +kernel
  exact absurd (hdecodes.symm.trans hnone) nofun

end MechanicalResearcher.Quaoar
