import MechanicalResearcher.Lib.BigEndian
import MechanicalResearcher.Lib.ReplayWindow

/-!
# The encrypted transport decorator

`netchan-auth/demo/nc_crypto.c`: the X25519 handshake, the key derivation, the
sealing and opening of datagrams and the replay window.

The functions of Monocypher are the fields of `Monocypher`; a fixed array is a
`Vector`, so its size is part of its type.  A return value of -1 is `none`.
-/

namespace MechanicalResearcher.NetchanAuth

open Lib.BigEndian

abbrev Bytes := List UInt8
abbrev Key := Vector UInt8 32
abbrev Nonce := Vector UInt8 24
abbrev Mac := Vector UInt8 16

/-- The primitives `nc_crypto.c` and `nc_auth.c` call.  `aeadLock` gives the MAC
and the ciphertext, `aeadUnlock` the plaintext of an authentic ciphertext. -/
structure Monocypher where
  x25519 : Key → Key → Key
  x25519PublicKey : Key → Key
  blake2b : Bytes → Key
  aeadLock : Key → Nonce → Bytes → Mac × Bytes
  aeadUnlock : Key → Nonce → Mac → Bytes → Option Bytes
  eddsaSign : Vector UInt8 64 → Bytes → Vector UInt8 64
  /-- `crypto_eddsa_check` returned 0 -/
  eddsaCheck : Vector UInt8 64 → Key → Bytes → Bool

def zero32 : Key := Vector.replicate 32 0

/-- The first `n` bytes of a buffer. -/
def rdVector (n : Nat) (p : Bytes) : Vector UInt8 n := Vector.ofFn fun i => p.getD i 0

def ncCryptoHello : UInt8 := 0x01
def ncCryptoData : UInt8 := 0x02
abbrev ncCryptoHelloLen : Nat := 65
abbrev ncCryptoOverhead : Nat := 25

def labelSid : UInt8 := 0
def labelI2r : UInt8 := 1
def labelR2i : UInt8 := 2

/-- `role`: 0 is the connecting side, 1 the accepting side. -/
inductive CryptoRole
  | initiator | responder
  deriving DecidableEq, Repr

/-- `verify_peer` with its context: the return value for a key or for `NULL`. -/
abbrev VerifyCb := Option Key → Int

structure Crypto where
  role : CryptoRole
  haveKey : Bool
  failed : Bool
  ephSk : Key
  ephPk : Key
  haveStatic : Bool
  staticSk : Key
  staticPk : Key
  peerHasStatic : Bool
  peerStaticPk : Key
  txKey : Key
  rxKey : Key
  psk : Key
  sid : Key
  txCounter : UInt64
  rxMax : UInt64
  rxWindow : UInt64
  requirePeerStatic : Bool
  verifyPeer : Option VerifyCb

structure CryptoCfg where
  ephSkSeed : Option Key
  psk : Option Key
  staticSk : Option Key
  requirePeerStatic : Bool
  verifyPeer : Option VerifyCb

variable (M : Monocypher)

/-- After `memset`, with the role and our ephemeral key set. -/
def Crypto.blank (role : CryptoRole) (ephSk : Key) : Crypto where
  role := role
  haveKey := false
  failed := false
  ephSk := ephSk
  ephPk := M.x25519PublicKey ephSk
  haveStatic := false
  staticSk := zero32
  staticPk := zero32
  peerHasStatic := false
  peerStaticPk := zero32
  txKey := zero32
  rxKey := zero32
  psk := zero32
  sid := zero32
  txCounter := 0
  rxMax := 0
  rxWindow := 0
  requirePeerStatic := false
  verifyPeer := none

def isZero32 (p : Key) : Bool := p == zero32

/-- What `derive_out` hashes before the label. -/
def transcript (dhEe dhIs dhSi ephLo ephHi sInit sResp psk : Key) : Bytes :=
  dhEe.toList ++ dhIs.toList ++ dhSi.toList ++ ephLo.toList ++ ephHi.toList ++
    sInit.toList ++ sResp.toList ++ psk.toList

def deriveOut (script : Bytes) (label : UInt8) : Key := M.blake2b (script ++ [label])

/-- `memcmp(a, b, 32) > 0` -/
def memcmpGt (a b : Key) : Bool := decide (b.toList < a.toList)

/-- The three Diffie-Hellman results, `(dh_ee, dh_is, dh_si)`. -/
def sharedSecrets (c : Crypto) (peerEph : Key) : Key × Key × Key :=
  let dhEe := M.x25519 c.ephSk peerEph
  match c.role with
  | .initiator =>
    (dhEe,
      if c.peerHasStatic then M.x25519 c.ephSk c.peerStaticPk else zero32,
      if c.haveStatic then M.x25519 c.staticSk peerEph else zero32)
  | .responder =>
    (dhEe,
      if c.haveStatic then M.x25519 c.staticSk peerEph else zero32,
      if c.peerHasStatic then M.x25519 c.ephSk c.peerStaticPk else zero32)

/-- The bytes `derive_session` feeds to every `derive_out`. -/
def sessionScript (c : Crypto) (peerEph : Key) : Bytes :=
  let (dhEe, dhIs, dhSi) := sharedSecrets M c peerEph
  let (ephLo, ephHi) :=
    if memcmpGt c.ephPk peerEph then (peerEph, c.ephPk) else (c.ephPk, peerEph)
  let sInit := if c.role = .initiator then c.staticPk else c.peerStaticPk
  let sResp := if c.role = .initiator then c.peerStaticPk else c.staticPk
  transcript dhEe dhIs dhSi ephLo ephHi sInit sResp c.psk

def deriveSession (c : Crypto) (peerEph : Key) : Option Crypto :=
  if isZero32 (sharedSecrets M c peerEph).1 then none
  else
    let script := sessionScript M c peerEph
    let kI2r := deriveOut M script labelI2r
    let kR2i := deriveOut M script labelR2i
    let c := { c with sid := deriveOut M script labelSid, haveKey := true }
    match c.role with
    | .initiator => some { c with txKey := kI2r, rxKey := kR2i }
    | .responder => some { c with txKey := kR2i, rxKey := kI2r }

/-- `random` is what `fill_random` delivers, `none` when the OS source fails. -/
def ncCryptoInit (role : CryptoRole) (cfg : Option CryptoCfg) (random : Option Key) :
    Option Crypto :=
  match (cfg.bind (·.ephSkSeed)).or random with
  | none => none
  | some ephSk =>
    let c := Crypto.blank M role ephSk
    match cfg with
    | none => some c
    | some cfg =>
      let c := match cfg.psk with
        | none => c
        | some psk => { c with psk := psk }
      let c := match cfg.staticSk with
        | none => c
        | some sk =>
          { c with staticSk := sk, staticPk := M.x25519PublicKey sk, haveStatic := true }
      some { c with requirePeerStatic := cfg.requirePeerStatic, verifyPeer := cfg.verifyPeer }

/-- The empty packet is the return value 0. -/
def ncCryptoHandshakePacket (c : Crypto) (cap : Nat) : Bytes :=
  if cap < ncCryptoHelloLen then []
  else
    ncCryptoHello :: c.ephPk.toList ++ (if c.haveStatic then c.staticPk else zero32).toList

def ncCryptoReady (c : Crypto) : Bool := c.haveKey

def ncCryptoFailed (c : Crypto) : Bool := c.failed

def ncCryptoSessionId (c : Crypto) : Option Key := if c.haveKey then some c.sid else none

/-- The counter in the first eight bytes, zeros behind it. -/
def nonceOf (counter : UInt64) : Nonce := rdVector 24 (wr64 counter)

/-- The datagram of one `crypto_aead_lock`. -/
def sealedPacket (key : Key) (counter : UInt64) (plain : Bytes) : Bytes :=
  let (mac, ct) := M.aeadLock key (nonceOf counter) plain
  ncCryptoData :: wr64 counter ++ mac.toList ++ ct

def ncCryptoSeal (c : Crypto) (plain : Bytes) (cap : Nat) : Crypto × Option Bytes :=
  if c.haveKey = false then (c, none)
  else if cap < plain.length + ncCryptoOverhead then (c, none)
  else if c.txCounter = UInt64.ofNat (2 ^ 64 - 1) then (c, none)
  else
    let counter := c.txCounter + 1
    ({ c with txCounter := counter }, some (sealedPacket M c.txKey counter plain))

def replayCheckAndUpdate (c : Crypto) (counter : UInt64) : Option Crypto :=
  if counter = 0 then none
  else if counter > c.rxMax then
    let shift := counter - c.rxMax
    let window := if 64 ≤ shift then 0 else c.rxWindow <<< shift
    some { c with rxWindow := window ||| 1, rxMax := counter }
  else
    let diff := c.rxMax - counter
    if 64 ≤ diff then none
    else
      let bit := (1 : UInt64) <<< diff
      if c.rxWindow &&& bit ≠ 0 then none
      else some { c with rxWindow := c.rxWindow ||| bit }

/-- `verify_peer` is not set or returned 0. -/
def peerAccepted (c : Crypto) : Bool :=
  match c.verifyPeer with
  | none => true
  | some verify => verify (if c.peerHasStatic then some c.peerStaticPk else none) == 0

/-- The first lines of `consume_hello`: the identity goes into the session before it
is judged. -/
def recordStatic (c : Crypto) (peerStatic : Key) : Crypto :=
  { c with
    peerHasStatic := !isZero32 peerStatic
    peerStaticPk := if isZero32 peerStatic then c.peerStaticPk else peerStatic }

def consumeHello (c : Crypto) (body : Bytes) : Crypto :=
  let c := recordStatic c (rdVector 32 (body.drop 32))
  if c.requirePeerStatic = true ∧ c.peerHasStatic = false then { c with failed := true }
  else if peerAccepted c = false then { c with failed := true }
  else
    match deriveSession M c (rdVector 32 body) with
    | none => { c with failed := true }
    | some c => c

/-- A DATA packet: authenticate first, then move the replay window. -/
def openData (c : Crypto) (pkt : Bytes) : Crypto × Option Bytes :=
  let counter := rd64 (pkt.drop 1)
  match M.aeadUnlock c.rxKey (nonceOf counter) (rdVector 16 (pkt.drop 9))
      (pkt.drop ncCryptoOverhead) with
  | none => (c, none)
  | some plain =>
    match replayCheckAndUpdate c counter with
    | none => (c, none)
    | some c => (c, some plain)

/-- `some p`: the return value is the length of `p`, which is in `out`.  A HELLO
delivers nothing. -/
def ncCryptoOpen (c : Crypto) (pkt : Bytes) (cap : Nat) : Crypto × Option Bytes :=
  if pkt.length < 1 ∨ c.failed then (c, none)
  else if pkt.headD 0 = ncCryptoHello then
    if pkt.length ≠ ncCryptoHelloLen then (c, none)
    else if c.haveKey then (c, some [])
    else (consumeHello M c (pkt.drop 1), some [])
  else if pkt.headD 0 = ncCryptoData then
    if c.haveKey = false ∨ pkt.length < ncCryptoOverhead then (c, none)
    else if cap < pkt.length - ncCryptoOverhead then (c, none)
    else openData M c pkt
  else (c, none)

/-! ## A handshake with known values

`Monocypher.sample` is Monocypher on the values of one handshake, between an initiator
without an identity and a responder with one, and of the first datagram after it.
Elsewhere it is some function with the same algebra. -/

/-- A key written as a little-endian number. -/
def keyOf (n : Nat) : Key := Vector.ofFn fun i => UInt8.ofNat (n / 2 ^ (8 * i.val))

namespace Sample

/-- the ephemeral secrets of the two sides and the identity of the responder -/
def skA : Key := keyOf 0x2a2cb91da5fb77b12a99c0eb872f4cdf4566b25172c1163c7da518730a6d0777
def skB : Key := keyOf 0xebe088ff278b2f1cfdb6182629b13b6fe60e80838b7fe1794b8a4a627e08ab5d
def skS : Key := keyOf 0x201f1e1d1c1b1a191817161514131211100f0e0d0c0b0a090807060504030201

def pkA : Key := keyOf 0x6a4e9baa8ea9a4ebf41a38260d3abf0d5af73eb4dc7d8b7454a7308909f02085
def pkB : Key := keyOf 0x4f2b886f147efcad4d67785bc843833f3735e4ecc2615bd3b4c17d7b7ddb9ede
def pkS : Key := keyOf 0x7c1c6db8b2c0df0bed53a86ad14a3726b46ce8101bdc55b7c8932014bc7ca307

def dhAB : Key := keyOf 0x4217161e3c9bf076339ed147c9217ee0250f3580f43b8e72e12dcea45b9d5d4a
def dhAS : Key := keyOf 0x1a2bf504011b8ae33d1b5ce15d6a45e7b326e17a1a6d81a06c7b21d9099f7503
def dhBS : Key := keyOf 0x3171044dd0158924190251bc5ebcf54d2958f90cc8b4f306d7097b1bb53e4ed1

def script : Bytes := transcript dhAB dhAS zero32 pkA pkB zero32 pkS zero32
def sid : Key := keyOf 0x893ce692d389e3f1272b50a4b95398adf9e55196c0eabe8e0d95bb5109c43fe6
def kI2r : Key := keyOf 0x8a2d8d78d37d8502e38de5e9eb2d39606b2db955f89650f4580203ab13a39e0d
def kR2i : Key := keyOf 0x5e3d5939ff04c46a886fac08e5f12f13836accdd925346b3435acd002071df40

/-- the plaintext "hi", its MAC and its ciphertext under `kI2r` and counter 1 -/
def plain : Bytes := [0x68, 0x69]
def mac : Mac := Vector.ofFn fun i =>
  UInt8.ofNat (0xa74f171e4957ec2a46d8a96504df6b69 / 2 ^ (8 * i.val))
def cipher : Bytes := [141, 255]

/-- A stand-in for the public key of every other secret.  No public key has the top bit set. -/
def mark (sk : Key) : Key := sk.set 31 0xff

def mix (p q : Key) : Key := Vector.zipWith (· &&& ·) p q

def dh (a b : Key) : Key :=
  if a = skA ∧ b = skB ∨ a = skB ∧ b = skA then dhAB
  else if a = skA ∧ b = skS ∨ a = skS ∧ b = skA then dhAS
  else if a = skB ∧ b = skS ∨ a = skS ∧ b = skB then dhBS
  else mix (mark a) (mark b)

def publicKey (sk : Key) : Key :=
  if sk = skA then pkA else if sk = skB then pkB else if sk = skS then pkS else mark sk

def secretOf (p : Key) : Option Key :=
  if p = pkA then some skA else if p = pkB then some skB else if p = pkS then some skS else none

end Sample

open Sample in
def Monocypher.sample : Monocypher where
  x25519 a p :=
    match secretOf p with
    | some b => dh a b
    | none => mix (mark a) p
  x25519PublicKey := publicKey
  blake2b msg :=
    if msg = script ++ [labelSid] then sid
    else if msg = script ++ [labelI2r] then kI2r
    else if msg = script ++ [labelR2i] then kR2i
    else zero32
  aeadLock key nonce p :=
    if key = kI2r ∧ nonce = nonceOf 1 ∧ p = plain then (mac, cipher)
    else (Vector.replicate 16 0, p)
  aeadUnlock key nonce m ct :=
    if key = kI2r ∧ nonce = nonceOf 1 ∧ m = mac ∧ ct = cipher then some plain
    else if m = Vector.replicate 16 0 ∧ ¬(key = kI2r ∧ nonce = nonceOf 1 ∧ ct = plain) then some ct
    else none
  eddsaSign _ _ := Vector.replicate 64 0
  eddsaCheck _ _ _ := false

end MechanicalResearcher.NetchanAuth
