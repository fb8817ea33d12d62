import MechanicalResearcher.NetchanV2.Upgrade
import MechanicalResearcher.Quaoar.Browser

/-!
# The accept value

`sha1_update` and `sha1_final` of `netchan-v2/demo/nc_ws.c` take a message in any pieces, and
the answer that `nc_ws_accept` makes of a key is the one of `ws_handshake` in
`programmable-display-protocols/demo/quaoar-server.c`.
-/

namespace MechanicalResearcher.NetchanV2

open Lib Lib.HeaderLines Lib.Sha1 Lib.BigEndian

/-- `s` has read `msg`: whole blocks went into the chain, and `buf` holds what is left. -/
structure Sha1.Reads (s : Sha1) (msg : List UInt8) : Prop where
  short : s.buf.length < 64
  chained : ∃ blocks bytes, Blocks blocks bytes ∧ bytes ++ s.buf = msg ∧ s.h = chain initial blocks

theorem Sha1.Reads.length_buf {s : Sha1} {msg : List UInt8} (h : s.Reads msg) :
    s.buf.length = msg.length % 64 := by
  obtain ⟨blocks, bytes, hblocks, rfl, -⟩ := h.chained
  have hshort := h.short
  have hmod := hblocks.length_mod
  rw [List.length_append]
  omega

theorem sha1Absorb_reads {fuel : Nat} {s : Sha1} {msg data : List UInt8} (h : s.Reads msg)
    (hfuel : data.length ≤ fuel) : (sha1Absorb fuel s data).Reads (msg ++ data) := by
  induction fuel generalizing s msg data with
  | zero =>
    rw [List.eq_nil_of_length_eq_zero (Nat.le_zero.mp hfuel), List.append_nil]
    exact h
  | succ fuel ih =>
    rw [sha1Absorb]
    split
    case isTrue hnil =>
        rw [hnil, List.append_nil]
        exact h
    case isFalse hcons =>
        have hpos := List.length_pos_iff.mpr hcons
        have hshort := h.short
        generalize htake : min (64 - s.buf.length) data.length = take
        rw [← List.take_append_drop take data, ← List.append_assoc, List.take_append_drop]
        have hlen : (s.buf ++ data.take take).length = s.buf.length + take := by
          rw [List.length_append, List.length_take]
          omega
        refine ih ?_ (by rw [List.length_drop]; omega)
        obtain ⟨blocks, bytes, hblocks, rfl, hh⟩ := h.chained
        split
        case isTrue hfull =>
            refine ⟨Nat.zero_lt_succ 63, blocks ++ [s.buf ++ data.take take],
              bytes ++ (s.buf ++ data.take take), hblocks.snoc hfull, ?_, ?_⟩
            · rw [List.append_nil, List.append_assoc]
            · rw [hh, chain, chain, List.foldl_append]
              rfl
        case isFalse hpart =>
            refine ⟨?_, blocks, bytes, hblocks, ?_, hh⟩
            · change (s.buf ++ data.take take).length < 64
              omega
            · rw [List.append_assoc]

@[simp] theorem sha1Absorb_len (fuel : Nat) (s : Sha1) (data : List UInt8) :
    (sha1Absorb fuel s data).len = s.len := by
  induction fuel generalizing s data with
  | zero => rfl
  | succ fuel ih =>
    rw [sha1Absorb]
    split
    · rfl
    · rw [ih]
      split <;> rfl

theorem sha1Update_reads {s : Sha1} {msg : List UInt8} (h : s.Reads msg) (data : List UInt8) :
    (sha1Update s data).Reads (msg ++ data) :=
  sha1Absorb_reads ⟨h.short, h.chained⟩ (Nat.le_refl _)

theorem sha1Zeros_reads {fuel k : Nat} {s : Sha1} {msg : List UInt8} (h : s.Reads msg)
    (hk : (msg.length + k) % 64 = 56) (hlt : k < 64) (hfuel : k ≤ fuel) :
    (sha1Zeros fuel s).Reads (msg ++ List.replicate k 0) := by
  induction fuel generalizing s msg k with
  | zero =>
    rw [Nat.le_zero.mp hfuel, List.replicate_zero, List.append_nil]
    exact h
  | succ fuel ih =>
    have hbuf := h.length_buf
    rw [sha1Zeros]
    cases k with
    | zero =>
      rw [if_pos (by omega), List.replicate_zero, List.append_nil]
      exact h
    | succ k =>
      rw [if_neg (by omega), List.replicate_succ, List.append_cons]
      exact ih (sha1Update_reads h [0]) (by rw [List.length_append, List.length_singleton]; omega)
        (by omega) (by omega)

theorem sha1Final_digest {s : Sha1} {msg : List UInt8} (h : s.Reads msg)
    (hlen : s.len = UInt64.ofNat msg.length) : IsDigest msg (sha1Final s) := by
  have hlt : zeros msg.length < 64 := Nat.mod_lt _ (by decide)
  have hbits : s.len * 8 = UInt64.ofNat (8 * msg.length) := by
    rw [hlen, Nat.mul_comm, UInt64.ofNat_mul]
    rfl
  have hend := sha1Update_reads (sha1Zeros_reads (sha1Update_reads h [0x80])
    (by rw [List.length_append, List.length_singleton, zeros]; omega) hlt hlt.le)
    (wr64 (s.len * 8))
  rw [hbits, List.append_assoc, List.append_assoc, List.singleton_append] at hend
  change (sha1Update _ _).Reads (pad msg) at hend
  have hwhole : (pad msg).length % 64 = 0 := by
    rw [pad, padding, List.length_append, List.length_cons, List.length_append,
      List.length_replicate, length_wr64, zeros]
    omega
  have hempty := List.eq_nil_of_length_eq_zero (hend.length_buf.trans hwhole)
  obtain ⟨blocks, bytes, hblocks, hbytes, hh⟩ := hend.chained
  rw [hempty, List.append_nil] at hbytes
  refine ⟨blocks, hbytes ▸ hblocks, ?_⟩
  rw [← hh, ← hbits]
  rfl

theorem foldl_sha1Update {s : Sha1} {msg : List UInt8} (h : s.Reads msg)
    (hlen : s.len = UInt64.ofNat msg.length) (chunks : List (List UInt8)) :
    (chunks.foldl sha1Update s).Reads (msg ++ chunks.flatten) ∧
      (chunks.foldl sha1Update s).len = UInt64.ofNat (msg ++ chunks.flatten).length := by
  induction chunks generalizing s msg with
  | nil =>
    rw [List.flatten_nil, List.append_nil]
    exact ⟨h, hlen⟩
  | cons data chunks ih =>
    rw [List.flatten_cons, ← List.append_assoc]
    refine ih (sha1Update_reads h data) ?_
    rw [sha1Update, sha1Absorb_len, hlen, List.length_append, UInt64.ofNat_add]

theorem sha1Init_reads : sha1Init.Reads [] := ⟨by decide, [], [], Blocks.nil, rfl, rfl⟩

/-- The pieces in which a message comes make no difference to its digest. -/
theorem sha1_stream (chunks : List (List UInt8)) :
    IsDigest chunks.flatten (sha1Final (chunks.foldl sha1Update sha1Init)) := by
  obtain ⟨h, hlen⟩ := foldl_sha1Update sha1Init_reads rfl chunks
  exact sha1Final_digest h hlen

theorem b64At_toUInt32 {i : UInt8} {v : UInt32} (h : i.toNat = v.toNat % 64) :
    Quaoar.b64At i = b64At v := by
  rw [Quaoar.b64At, b64At, UInt32.toNat_and, h]
  exact congrArg (Quaoar.b64.getD · 0) (Nat.and_two_pow_sub_one_eq_mod v.toNat 6).symm

theorem toNat_group (a b c : UInt8) :
    (a.toUInt32 <<< 16 ||| b.toUInt32 <<< 8 ||| c.toUInt32).toNat =
      a.toNat * 2 ^ 16 + b.toNat * 2 ^ 8 + c.toNat := by
  have ha := a.toNat_lt
  have hb := b.toNat_lt
  have hc := c.toNat_lt
  have hab : (a.toNat <<< 8 ||| b.toNat) <<< 8 = a.toNat <<< 16 ||| b.toNat <<< 8 := by
    rw [Nat.shiftLeft_or_distrib, ← Nat.shiftLeft_add]
  rw [UInt32.toNat_or, UInt32.toNat_or, UInt32.toNat_shiftLeft, UInt32.toNat_shiftLeft,
    UInt8.toNat_toUInt32, UInt8.toNat_toUInt32, UInt8.toNat_toUInt32]
  change a.toNat <<< 16 % 2 ^ 32 ||| b.toNat <<< 8 % 2 ^ 32 ||| c.toNat = _
  rw [Nat.mod_eq_of_lt (by rw [Nat.shiftLeft_eq]; omega),
    Nat.mod_eq_of_lt (by rw [Nat.shiftLeft_eq]; omega), ← hab,
    ← Nat.shiftLeft_add_eq_or_of_lt hc, ← Nat.shiftLeft_add_eq_or_of_lt hb, Nat.shiftLeft_eq,
    Nat.shiftLeft_eq]
  omega

theorem b64At_group {a b c : UInt8} {v : UInt32}
    (hv : v.toNat = a.toNat * 2 ^ 16 + b.toNat * 2 ^ 8 + c.toNat) :
    Quaoar.b64At (a >>> 2) = b64At (v >>> 18) ∧
      Quaoar.b64At ((a &&& 3) <<< 4 ||| b >>> 4) = b64At (v >>> 12) ∧
      Quaoar.b64At ((b &&& 0xf) <<< 2 ||| c >>> 6) = b64At (v >>> 6) ∧
      Quaoar.b64At (c &&& 0x3f) = b64At v := by
  have ha := a.toNat_lt
  have hb := b.toNat_lt
  have hc := c.toNat_lt
  have hmask (x k : Nat) : x &&& (2 ^ k - 1) = x % 2 ^ k := Nat.and_two_pow_sub_one_eq_mod x k
  have hjoin (x i y : Nat) (hx : x <<< i < 2 ^ 8) (hy : y < 2 ^ i) :
      x <<< i % 2 ^ 8 ||| y = x * 2 ^ i + y := by
    rw [Nat.mod_eq_of_lt hx, ← Nat.shiftLeft_add_eq_or_of_lt hy, Nat.shiftLeft_eq]
  refine ⟨b64At_toUInt32 ?_, b64At_toUInt32 ?_, b64At_toUInt32 ?_, b64At_toUInt32 ?_⟩
  · change a.toNat >>> 2 = v.toNat >>> 18 % 64
    rw [Nat.shiftRight_eq_div_pow, Nat.shiftRight_eq_div_pow]
    omega
  · rw [UInt8.toNat_or]
    change (a.toNat &&& (2 ^ 2 - 1)) <<< 4 % 2 ^ 8 ||| b.toNat >>> 4 = v.toNat >>> 12 % 64
    rw [hmask, Nat.shiftRight_eq_div_pow, Nat.shiftRight_eq_div_pow,
      hjoin _ _ _ (by rw [Nat.shiftLeft_eq]; omega) (by omega)]
    omega
  · rw [UInt8.toNat_or]
    change (b.toNat &&& (2 ^ 4 - 1)) <<< 2 % 2 ^ 8 ||| c.toNat >>> 6 = v.toNat >>> 6 % 64
    rw [hmask, Nat.shiftRight_eq_div_pow, Nat.shiftRight_eq_div_pow,
      hjoin _ _ _ (by rw [Nat.shiftLeft_eq]; omega) (by omega)]
    omega
  · change c.toNat &&& (2 ^ 6 - 1) = v.toNat % 64
    rw [hmask]
    omega

theorem toUInt32_zero : (0 : UInt8).toUInt32 = 0 := rfl

theorem base64Encode_eq : ∀ data, Quaoar.base64Encode data = base64 data
  | a :: b :: c :: rest => by
    obtain ⟨h1, h2, h3, h4⟩ := b64At_group (toNat_group a b c)
    rw [Quaoar.base64Encode, base64, h1, h2, h3, h4, base64Encode_eq rest]
  | [a] => by
    obtain ⟨h1, h2, -⟩ := b64At_group (toNat_group a 0 0)
    simp only [toUInt32_zero, UInt32.zero_shiftLeft, UInt32.or_zero, UInt8.zero_shiftRight,
      UInt8.or_zero] at h1 h2
    rw [Quaoar.base64Encode, base64, h1, h2]
  | [a, b] => by
    obtain ⟨h1, h2, h3, -⟩ := b64At_group (toNat_group a b 0)
    simp only [toUInt32_zero, UInt32.or_zero, UInt8.zero_shiftRight, UInt8.or_zero]
      at h1 h2 h3
    rw [Quaoar.base64Encode, base64, h1, h2, h3]
  | [] => rfl

/-- The two servers give the same answer to every key that fits in `combined`. -/
theorem servers_agree (stack : List UInt8) {w : List UInt32} (hw : w.length = 16)
    {key : List UInt8} (hkey : key.length ≤ 91) :
    (Quaoar.respond stack w key).2 = responseText (acceptKey key) := by
  have hlen : (key ++ wsGuid).length ≤ 127 := by
    rw [List.length_append]
    exact Nat.add_le_add_right hkey 36
  obtain ⟨blocks, hloop, hblocks⟩ := Quaoar.sha1Loop_blocks 0 hw
    (Nat.le_refl ((key ++ wsGuid).length / 64 + 2)) initial
  rw [UInt64.zero_add] at hblocks
  have hdigest : (chain initial blocks).bytes =
      sha1Final (sha1Update (sha1Update sha1Init key) wsGuid) := by
    obtain ⟨hreads, hbytes⟩ := foldl_sha1Update sha1Init_reads rfl [key, wsGuid]
    have hpieces := sha1Final_digest hreads hbytes
    rw [List.nil_append, List.flatten_cons, List.flatten_singleton] at hpieces
    exact IsDigest.unique ⟨blocks, hblocks, rfl⟩ hpieces
  rw [Quaoar.respond]
  dsimp only
  rw [show Quaoar.wsGuid = wsGuid from rfl, List.take_of_length_le hlen, List.take_left,
    Quaoar.sha1, hloop, Option.map_some, Option.elim_some, hdigest, base64Encode_eq]
  have hstatus : ascii "HTTP/1.1 101 Switching Protocols\r\nUpgrade: websocket\r\n" =
      ascii "HTTP/1.1 101 Switching Protocols\r\n" ++ ascii "Upgrade: websocket\r\n" := by
    decide +kernel
  have haccept : ascii "Connection: Upgrade\r\nSec-WebSocket-Accept: " =
      ascii "Connection: Upgrade\r\n" ++ ascii "Sec-WebSocket-Accept: " := by decide +kernel
  rw [hstatus, haccept, responseText, acceptKey]
  simp only [List.append_assoc]
  rfl

theorem servers_agree_sample :
    (Quaoar.respond [] (List.replicate 16 7) (ascii "c2FtcGxl")).2 =
      responseText (acceptKey (ascii "c2FtcGxl")) :=
  servers_agree [] rfl (by decide)

end MechanicalResearcher.NetchanV2
