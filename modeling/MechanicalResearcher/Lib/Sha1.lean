import MechanicalResearcher.Lib.BigEndian

/-!
# SHA-1

The compression of a block, the padding of a message, and the digest as the chain over the
blocks of the padded message.
-/

namespace MechanicalResearcher.Lib.Sha1

open BigEndian

def rol32 (v : UInt32) (b : UInt32) : UInt32 := v <<< b ||| v >>> (32 - b)

/-- The five words that are chained. -/
structure Chain where
  a : UInt32
  b : UInt32
  c : UInt32
  d : UInt32
  e : UInt32
  deriving DecidableEq

def Chain.add (h v : Chain) : Chain := ⟨h.a + v.a, h.b + v.b, h.c + v.c, h.d + v.d, h.e + v.e⟩

def initial : Chain := ⟨0x67452301, 0xefcdab89, 0x98badcfe, 0x10325476, 0xc3d2e1f0⟩

/-- The eighty words of the schedule, from the sixteen of the block. -/
def schedule (w : List UInt32) : List UInt32 :=
  (List.range' 16 64).foldl
    (fun w i => w ++ [rol32 (w.getD (i - 3) 0 ^^^ w.getD (i - 8) 0 ^^^ w.getD (i - 14) 0 ^^^
      w.getD (i - 16) 0) 1]) w

def round (w : List UInt32) (v : Chain) (i : Nat) : Chain :=
  let (f, k) :=
    if i < 20 then ((v.b &&& v.c) ||| (~~~v.b &&& v.d), 0x5a827999)
    else if i < 40 then (v.b ^^^ v.c ^^^ v.d, 0x6ed9eba1)
    else if i < 60 then ((v.b &&& v.c) ||| (v.b &&& v.d) ||| (v.c &&& v.d), 0x8f1bbcdc)
    else (v.b ^^^ v.c ^^^ v.d, 0xca62c1d6)
  ⟨rol32 v.a 5 + f + v.e + k + w.getD i 0, v.a, rol32 v.b 30, v.c, v.d⟩

def compress (h : Chain) (w : List UInt32) : Chain :=
  h.add ((List.range 80).foldl (round (schedule w)) h)

/-- The words of a block of 64 bytes. -/
def blockWords (block : List UInt8) : List UInt32 :=
  (List.range 16).map fun k => rd32 (block.drop (4 * k))

def Chain.bytes (h : Chain) : List UInt8 := wr32 h.a ++ wr32 h.b ++ wr32 h.c ++ wr32 h.d ++ wr32 h.e

/-- The chain over blocks. -/
def chain (h : Chain) (blocks : List (List UInt8)) : Chain :=
  blocks.foldl (fun h block => compress h (blockWords block)) h

/-- As many zeros as fill the last block. -/
def zeros (len : Nat) : Nat := (119 - len % 64) % 64

/-- A set bit, zeros, and the number of bits. -/
def padding (len : Nat) : List UInt8 :=
  0x80 :: (List.replicate (zeros len) 0 ++ wr64 (UInt64.ofNat (8 * len)))

def pad (msg : List UInt8) : List UInt8 := msg ++ padding msg.length

/-- The blocks that a byte string is split into. -/
structure Blocks (blocks : List (List UInt8)) (bytes : List UInt8) : Prop where
  flatten : blocks.flatten = bytes
  length : ∀ block ∈ blocks, block.length = 64

theorem Blocks.nil : Blocks [] [] := ⟨rfl, fun _ h => absurd h List.not_mem_nil⟩

theorem Blocks.cons {block bytes : List UInt8} {blocks : List (List UInt8)}
    (hblock : block.length = 64) (h : Blocks blocks bytes) :
    Blocks (block :: blocks) (block ++ bytes) := by
  constructor
  · rw [List.flatten_cons, h.flatten]
  · intro b hb
    rcases List.mem_cons.mp hb with rfl | hb
    · exact hblock
    · exact h.length b hb

theorem Blocks.snoc {block bytes : List UInt8} {blocks : List (List UInt8)}
    (h : Blocks blocks bytes) (hblock : block.length = 64) :
    Blocks (blocks ++ [block]) (bytes ++ block) := by
  constructor
  · rw [List.flatten_append, h.flatten, List.flatten_singleton]
  · intro b hb
    rcases List.mem_append.mp hb with hb | hb
    · exact h.length b hb
    · rw [List.mem_singleton.mp hb, hblock]

theorem Blocks.length_mod {bytes : List UInt8} {blocks : List (List UInt8)}
    (h : Blocks blocks bytes) : bytes.length % 64 = 0 := by
  rw [← h.flatten]
  have hlen := h.length
  clear h
  induction blocks with
  | nil => rfl
  | cons b bs ih =>
    have hb := hlen b List.mem_cons_self
    have hbs := ih fun x hx => hlen x (List.mem_cons_of_mem b hx)
    rw [List.flatten_cons, List.length_append]
    omega

theorem Blocks.unique {blocks blocks' : List (List UInt8)} {bytes : List UInt8}
    (h : Blocks blocks bytes) (h' : Blocks blocks' bytes) : blocks = blocks' := by
  induction blocks generalizing blocks' bytes with
  | nil =>
    cases blocks' with
    | nil => rfl
    | cons b bs =>
      have hflat := h.flatten.trans h'.flatten.symm
      have hlen := h'.length b List.mem_cons_self
      rw [List.flatten_nil, List.flatten_cons] at hflat
      rw [(List.append_eq_nil_iff.mp hflat.symm).1] at hlen
      exact absurd hlen (by decide)
  | cons b bs ih =>
    have hlen := h.length b List.mem_cons_self
    cases blocks' with
    | nil =>
      have hflat := h.flatten.trans h'.flatten.symm
      rw [List.flatten_nil, List.flatten_cons] at hflat
      rw [(List.append_eq_nil_iff.mp hflat).1] at hlen
      exact absurd hlen (by decide)
    | cons b' bs' =>
      have hflat := h.flatten.trans h'.flatten.symm
      rw [List.flatten_cons, List.flatten_cons] at hflat
      obtain ⟨hb, hbs⟩ := List.append_inj hflat
        (hlen.trans (h'.length b' List.mem_cons_self).symm)
      rw [hb, ih ⟨hbs, fun x hx => h.length x (List.mem_cons_of_mem b hx)⟩
        ⟨rfl, fun x hx => h'.length x (List.mem_cons_of_mem b' hx)⟩]

/-- `d` is the digest of `msg`. -/
def IsDigest (msg d : List UInt8) : Prop :=
  ∃ blocks, Blocks blocks (pad msg) ∧ d = (chain initial blocks).bytes

theorem IsDigest.unique {msg d d' : List UInt8} (h : IsDigest msg d) (h' : IsDigest msg d') :
    d = d' := by
  obtain ⟨blocks, hblocks, rfl⟩ := h
  obtain ⟨blocks', hblocks', rfl⟩ := h'
  rw [hblocks.unique hblocks']

end MechanicalResearcher.Lib.Sha1
