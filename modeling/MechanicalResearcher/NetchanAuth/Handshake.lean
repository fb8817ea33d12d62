import MechanicalResearcher.NetchanAuth.Crypto

/-!
# Key establishment

One HELLO decides a session: it sets the keys or it ends the session, and
nothing that arrives later changes either outcome.  `key_gate` says this of
every sequence of calls, `handshake_agrees` that the two ends of a handshake
derive the same keys.
-/

namespace MechanicalResearcher.NetchanAuth

open Lib.BigEndian

variable (M : Monocypher)

/-! ## Calls -/

/-- The calls on a session after `nc_crypto_init`. -/
inductive CryptoOp
  | openPkt (pkt : Bytes) (cap : Nat)
  | sealPkt (plain : Bytes) (cap : Nat)
  | handshakePacket (cap : Nat)
  deriving DecidableEq, Repr

def Crypto.step (c : Crypto) : CryptoOp → Crypto
  | .openPkt pkt cap => (ncCryptoOpen M c pkt cap).1
  | .sealPkt plain cap => (ncCryptoSeal M c plain cap).1
  | .handshakePacket _ => c

def Crypto.run (c : Crypto) (ops : List CryptoOp) : Crypto := ops.foldl (Crypto.step M) c

/-- A packet that reaches `consume_hello` in a session without keys. -/
def IsHello (pkt : Bytes) : Prop := pkt.headD 0 = ncCryptoHello ∧ pkt.length = ncCryptoHelloLen

/-- The identity a HELLO carries. -/
def helloStatic (pkt : Bytes) : Key := rdVector 32 (pkt.drop 33)

/-- `c'` is `c` but for the counters of the datagrams. -/
def Crypto.SameKeys (c c' : Crypto) : Prop :=
  ∃ tx rx win, c' = { c with txCounter := tx, rxMax := rx, rxWindow := win }

theorem Crypto.SameKeys.refl (c : Crypto) : c.SameKeys c := ⟨_, _, _, rfl⟩

variable {M}

theorem replayCheckAndUpdate_sameKeys {c c' : Crypto} {counter : UInt64}
    (h : replayCheckAndUpdate c counter = some c') : c.SameKeys c' := by
  unfold replayCheckAndUpdate at h
  split at h
  · cases h
  · split at h
    · cases h
      exact ⟨_, _, _, rfl⟩
    · dsimp only at h
      split at h
      · cases h
      · split at h
        · cases h
        · cases h
          exact ⟨_, _, _, rfl⟩

/-- A DATA packet that is let through. -/
structure Opens (M : Monocypher) (c : Crypto) (pkt plain : Bytes) (c' : Crypto) : Prop where
  head : pkt.headD 0 = ncCryptoData
  haveKey : c.haveKey = true
  unlock : M.aeadUnlock c.rxKey (nonceOf (rd64 (pkt.drop 1))) (rdVector 16 (pkt.drop 9))
    (pkt.drop ncCryptoOverhead) = some plain
  replay : replayCheckAndUpdate c (rd64 (pkt.drop 1)) = some c'

theorem openData_cases (c : Crypto) (pkt : Bytes) (hhead : pkt.headD 0 = ncCryptoData)
    (hkey : c.haveKey = true) :
    openData M c pkt = (c, none) ∨
      ∃ plain c', Opens M c pkt plain c' ∧ openData M c pkt = (c', some plain) := by
  unfold openData
  dsimp only
  split
  · exact .inl rfl
  · next plain hunlock =>
    split
    · exact .inl rfl
    · next c' hreplay => exact .inr ⟨plain, c', ⟨hhead, hkey, hunlock, hreplay⟩, rfl⟩

theorem ncCryptoOpen_cases (c : Crypto) (pkt : Bytes) (cap : Nat) :
    ncCryptoOpen M c pkt cap = (c, none) ∨
    (IsHello pkt ∧ c.haveKey = true ∧ ncCryptoOpen M c pkt cap = (c, some [])) ∨
    (IsHello pkt ∧ c.haveKey = false ∧ c.failed = false ∧
      ncCryptoOpen M c pkt cap = (consumeHello M c (pkt.drop 1), some [])) ∨
    ∃ plain c', Opens M c pkt plain c' ∧ ncCryptoOpen M c pkt cap = (c', some plain) := by
  unfold ncCryptoOpen
  split
  · exact .inl rfl
  · next hok =>
    split
    · next hhello =>
      split
      · exact .inl rfl
      · next hlen =>
        have hpkt : IsHello pkt := ⟨hhello, not_not.1 hlen⟩
        split
        · next hkey => exact .inr (.inl ⟨hpkt, hkey, rfl⟩)
        · next hkey =>
          refine .inr (.inr (.inl ⟨hpkt, by simpa using hkey, ?_, rfl⟩))
          exact Bool.eq_false_iff.2 fun hf => hok (.inr hf)
    · split
      · next hdata =>
        split
        · exact .inl rfl
        · next hshort =>
          have hkey : c.haveKey = true := by
            cases hk : c.haveKey with
            | true => rfl
            | false => exact absurd (.inl hk) hshort
          split
          · exact .inl rfl
          · rcases openData_cases (M := M) c pkt hdata hkey with h | h
            · exact .inl h
            · exact .inr (.inr (.inr h))
      · exact .inl rfl

theorem ncCryptoSeal_cases (c : Crypto) (plain : Bytes) (cap : Nat) :
    ncCryptoSeal M c plain cap = (c, none) ∨
    (c.haveKey = true ∧ c.txCounter ≠ UInt64.ofNat (2 ^ 64 - 1) ∧
      ncCryptoSeal M c plain cap =
        ({ c with txCounter := c.txCounter + 1 },
          some (sealedPacket M c.txKey (c.txCounter + 1) plain))) := by
  unfold ncCryptoSeal
  split
  · exact .inl rfl
  · next hkey =>
    split
    · exact .inl rfl
    · split
      · exact .inl rfl
      · next hmax => exact .inr ⟨by simpa using hkey, hmax, rfl⟩

theorem Crypto.step_cases (c : Crypto) (op : CryptoOp) :
    (c.SameKeys (c.step M op) ∧ (c.haveKey = false → c.step M op = c)) ∨
    ∃ pkt cap, op = .openPkt pkt cap ∧ IsHello pkt ∧ c.haveKey = false ∧ c.failed = false ∧
      c.step M op = consumeHello M c (pkt.drop 1) := by
  cases op with
  | openPkt pkt cap =>
    simp only [Crypto.step]
    rcases ncCryptoOpen_cases (M := M) c pkt cap with
      h | ⟨-, -, h⟩ | ⟨hhello, hkey, hfailed, h⟩ | ⟨plain, c', hopens, h⟩
    · rw [h]
      exact .inl ⟨.refl c, fun _ => rfl⟩
    · rw [h]
      exact .inl ⟨.refl c, fun _ => rfl⟩
    · exact .inr ⟨pkt, cap, rfl, hhello, hkey, hfailed, by rw [h]⟩
    · rw [h]
      refine .inl ⟨replayCheckAndUpdate_sameKeys hopens.replay, fun hno => ?_⟩
      rw [hopens.haveKey] at hno
      cases hno
  | sealPkt plain cap =>
    simp only [Crypto.step]
    rcases ncCryptoSeal_cases (M := M) c plain cap with h | ⟨hkey, -, h⟩
    · rw [h]
      exact .inl ⟨.refl c, fun _ => rfl⟩
    · rw [h]
      refine .inl ⟨⟨_, _, _, rfl⟩, fun hno => ?_⟩
      rw [hkey] at hno
      cases hno
  | handshakePacket cap => exact .inl ⟨.refl c, fun _ => rfl⟩

/-! ## The gate -/

/-- The session is settled by the HELLO `pkt`: its identity passed the checks of `c0`
and is the one recorded in `c`. -/
structure Admits (c0 c : Crypto) (pkt : Bytes) : Prop where
  hello : IsHello pkt
  required : c0.requirePeerStatic = true → helloStatic pkt ≠ zero32
  verified : ∀ verify, c0.verifyPeer = some verify →
    verify (if c.peerHasStatic then some c.peerStaticPk else none) = 0
  present : c.peerHasStatic = true ↔ helloStatic pkt ≠ zero32
  identity : c.peerStaticPk = helloStatic pkt

theorem isZero32_iff (p : Key) : isZero32 p = true ↔ p = zero32 := by
  simp [isZero32]

theorem deriveSession_some {c c' : Crypto} {peerEph : Key}
    (h : deriveSession M c peerEph = some c') :
    c'.haveKey = true ∧ c'.failed = c.failed ∧ c'.peerHasStatic = c.peerHasStatic ∧
      c'.peerStaticPk = c.peerStaticPk ∧ c'.verifyPeer = c.verifyPeer ∧
      c'.requirePeerStatic = c.requirePeerStatic := by
  unfold deriveSession at h
  split at h
  · cases h
  · dsimp only at h
    split at h <;> cases h <;> simp

@[simp] theorem recordStatic_haveKey (c : Crypto) (p : Key) :
    (recordStatic c p).haveKey = c.haveKey := rfl

@[simp] theorem recordStatic_failed (c : Crypto) (p : Key) :
    (recordStatic c p).failed = c.failed := rfl

@[simp] theorem recordStatic_verifyPeer (c : Crypto) (p : Key) :
    (recordStatic c p).verifyPeer = c.verifyPeer := rfl

@[simp] theorem recordStatic_requirePeerStatic (c : Crypto) (p : Key) :
    (recordStatic c p).requirePeerStatic = c.requirePeerStatic := rfl

theorem recordStatic_peerStaticPk {c : Crypto} (hblank : c.peerStaticPk = zero32)
    (p : Key) : (recordStatic c p).peerStaticPk = p := by
  by_cases hz : isZero32 p = true
  · simp only [recordStatic, hz, if_true, hblank]
    exact ((isZero32_iff p).1 hz).symm
  · simp only [recordStatic, hz, if_false, Bool.false_eq_true]

theorem recordStatic_peerHasStatic (c : Crypto) (p : Key) :
    (recordStatic c p).peerHasStatic = true ↔ p ≠ zero32 := by
  rw [ne_eq, ← isZero32_iff]
  simp [recordStatic]

theorem consumeHello_spec {c c' : Crypto} {pkt : Bytes} (hhello : IsHello pkt)
    (hkey : c.haveKey = false) (hfailed : c.failed = false) (hblank : c.peerStaticPk = zero32)
    (h : consumeHello M c (pkt.drop 1) = c') :
    (c'.haveKey = true ∧ c'.failed = false ∧ Admits c c' pkt) ∨
      (c'.haveKey = false ∧ c'.failed = true) := by
  have hstatic : rdVector 32 ((pkt.drop 1).drop 32) = helloStatic pkt := by
    rw [List.drop_drop]
    rfl
  unfold consumeHello at h
  rw [hstatic] at h
  dsimp only at h
  have hhas := recordStatic_peerHasStatic c (helloStatic pkt)
  have hpk := recordStatic_peerStaticPk hblank (helloStatic pkt)
  split at h
  · right
    simp [← h, hkey]
  · next hreq =>
    split at h
    · right
      simp [← h, hkey]
    · next hver =>
      split at h
      · right
        simp [← h, hkey]
      · next d hd =>
        subst h
        obtain ⟨hk, hf, hhas', hpk', -, -⟩ := deriveSession_some hd
        rw [recordStatic_failed] at hf
        refine .inl ⟨hk, hf.trans hfailed, hhello, ?_, ?_, ?_, hpk'.trans hpk⟩
        · intro hr hz
          exact hreq ⟨by simpa using hr, Bool.eq_false_iff.2 fun ht => hhas.1 ht hz⟩
        · intro verify hv
          rw [hhas', hpk']
          simpa [peerAccepted, hv] using hver
        · rw [hhas']
          exact hhas

/-- What a session started at `c0` looks like after the calls `ops`. -/
structure Gate (M : Monocypher) (c0 : Crypto) (ops : List CryptoOp) (c : Crypto) : Prop where
  excl : ¬(c.failed = true ∧ c.haveKey = true)
  waiting : c.failed = false → c.haveKey = false → c = c0
  admitted : c.haveKey = true → ∃ pre pkt cap post, ops = pre ++ .openPkt pkt cap :: post ∧
    (Crypto.run M c0 pre).haveKey = false ∧
    (Crypto.run M c0 (pre ++ [.openPkt pkt cap])).haveKey = true ∧ Admits c0 c pkt

theorem Admits.sameKeys {c0 c c' : Crypto} {pkt : Bytes} (h : Admits c0 c pkt)
    (hs : c.SameKeys c') : Admits c0 c' pkt := by
  obtain ⟨tx, rx, win, rfl⟩ := hs
  exact ⟨h.hello, h.required, h.verified, h.present, h.identity⟩

theorem Crypto.run_snoc (c : Crypto) (ops : List CryptoOp) (op : CryptoOp) :
    c.run M (ops ++ [op]) = (c.run M ops).step M op := by
  simp [Crypto.run, List.foldl_append]

theorem Gate.step {c0 : Crypto} {ops : List CryptoOp} (hblank : c0.peerStaticPk = zero32)
    (h : Gate M c0 ops (c0.run M ops)) (op : CryptoOp) :
    Gate M c0 (ops ++ [op]) (c0.run M (ops ++ [op])) := by
  rw [Crypto.run_snoc]
  rcases Crypto.step_cases (M := M) (c0.run M ops) op with
    ⟨hsame, hidle⟩ | ⟨pkt, cap, rfl, hhello, hkey, hfailed, hstep⟩
  · have hkeep := hsame
    obtain ⟨tx, rx, win, heq⟩ := hsame
    have hkey : ((c0.run M ops).step M op).haveKey = (c0.run M ops).haveKey := by rw [heq]
    have hfail : ((c0.run M ops).step M op).failed = (c0.run M ops).failed := by rw [heq]
    refine ⟨?_, ?_, ?_⟩
    · rw [hkey, hfail]
      exact h.excl
    · rw [hkey, hfail]
      intro hf hk
      rw [hidle hk]
      exact h.waiting hf hk
    · rw [hkey]
      intro hk
      obtain ⟨pre, pkt, cap, post, rfl, hbefore, hafter, hadm⟩ := h.admitted hk
      exact ⟨pre, pkt, cap, post ++ [op], by simp, hbefore, hafter, hadm.sameKeys hkeep⟩
  · have hc0 := h.waiting hfailed hkey
    have hrun := (Crypto.run_snoc (M := M) c0 ops (.openPkt pkt cap)).trans hstep
    rw [hc0] at hkey hfailed hrun
    rw [hstep, hc0]
    rcases consumeHello_spec hhello hkey hfailed hblank (rfl : consumeHello M c0 _ = _) with
      ⟨hk, hf, hadm⟩ | ⟨hk, hf⟩
    · refine ⟨fun hboth => ?_, fun _ hno => ?_, fun _ => ?_⟩
      · rw [hf] at hboth
        cases hboth.1
      · rw [hk] at hno
        cases hno
      · exact ⟨ops, pkt, cap, [], rfl, by rw [hc0]; exact hkey, by rw [hrun]; exact hk, hadm⟩
    · refine ⟨fun hboth => ?_, fun hno => ?_, fun hyes => ?_⟩
      · rw [hk] at hboth
        cases hboth.2
      · rw [hf] at hno
        cases hno
      · rw [hk] at hyes
        cases hyes

/-! ## What `nc_crypto_init` sets -/

/-- A session before the first HELLO. -/
structure Crypto.Fresh (M : Monocypher) (role : CryptoRole) (c : Crypto) : Prop where
  role : c.role = role
  haveKey : c.haveKey = false
  failed : c.failed = false
  peerStaticPk : c.peerStaticPk = zero32
  ephPk : c.ephPk = M.x25519PublicKey c.ephSk
  staticPk : c.haveStatic = true → c.staticPk = M.x25519PublicKey c.staticSk
  noStatic : c.haveStatic = false → c.staticPk = zero32

theorem ncCryptoInit_fresh {role : CryptoRole} {cfg : Option CryptoCfg} {random : Option Key}
    {c : Crypto} (h : ncCryptoInit M role cfg random = some c) : c.Fresh M role := by
  unfold ncCryptoInit at h
  split at h
  · cases h
  · dsimp only at h
    split at h
    · cases h
      constructor <;> simp [Crypto.blank]
    · next cfg _ =>
      cases h
      rcases hpsk : cfg.psk with - | psk <;> rcases hsk : cfg.staticSk with - | sk <;>
        constructor <;> simp [Crypto.blank]

theorem Gate.run {c0 : Crypto} {role : CryptoRole} (hfresh : c0.Fresh M role)
    (ops : List CryptoOp) : Gate M c0 ops (c0.run M ops) := by
  induction ops using List.reverseRecOn with
  | nil =>
    refine ⟨fun h => ?_, fun _ _ => rfl, fun h => ?_⟩
    · exact Bool.noConfusion (hfresh.haveKey.symm.trans h.2)
    · exact Bool.noConfusion (hfresh.haveKey.symm.trans h)
  | append_singleton ops op ih => exact ih.step hfresh.peerStaticPk op

theorem Crypto.SameKeys.trans {a b c : Crypto} (hab : a.SameKeys b) (hbc : b.SameKeys c) :
    a.SameKeys c := by
  obtain ⟨_, _, _, rfl⟩ := hab
  obtain ⟨_, _, _, rfl⟩ := hbc
  exact ⟨_, _, _, rfl⟩

theorem Crypto.run_sameKeys {c : Crypto} (hkey : c.haveKey = true) (ops : List CryptoOp) :
    c.SameKeys (c.run M ops) := by
  induction ops generalizing c with
  | nil => exact .refl c
  | cons op ops ih =>
    rcases Crypto.step_cases (M := M) c op with ⟨hsame, -⟩ | ⟨-, -, -, -, hno, -, -⟩
    · refine hsame.trans (ih ?_)
      obtain ⟨_, _, _, heq⟩ := hsame
      rw [heq]
      exact hkey
    · rw [hkey] at hno
      cases hno

theorem Crypto.run_failed {c : Crypto} (hfailed : c.failed = true) (hkey : c.haveKey = false)
    (ops : List CryptoOp) : c.run M ops = c := by
  induction ops with
  | nil => rfl
  | cons op ops ih =>
    rcases Crypto.step_cases (M := M) c op with ⟨-, hidle⟩ | ⟨-, -, -, -, -, hno, -⟩
    · change (c.step M op).run M ops = c
      rw [hidle hkey]
      exact ih
    · rw [hfailed] at hno
      cases hno

/-- The keys, the session id and the identity of the peer. -/
def Crypto.keys (c : Crypto) : Key × Key × Key × Key := (c.txKey, c.rxKey, c.sid, c.peerStaticPk)

theorem key_gate (role : CryptoRole) (cfg : Option CryptoCfg) (random : Option Key) (c0 : Crypto)
    (hinit : ncCryptoInit M role cfg random = some c0) (ops : List CryptoOp) :
    ((c0.run M ops).haveKey = true → ∃ pre pkt cap post, ops = pre ++ .openPkt pkt cap :: post ∧
      (c0.run M pre).haveKey = false ∧ (c0.run M (pre ++ [.openPkt pkt cap])).haveKey = true ∧
      Admits c0 (c0.run M ops) pkt) ∧
    ((c0.run M ops).haveKey = true → ∀ more, (c0.run M (ops ++ more)).haveKey = true ∧
      (c0.run M (ops ++ more)).keys = (c0.run M ops).keys) ∧
    ¬((c0.run M ops).failed = true ∧ (c0.run M ops).haveKey = true) ∧
    ((c0.run M ops).failed = true → ∀ more,
      (∀ pkt cap, (ncCryptoOpen M (c0.run M (ops ++ more)) pkt cap).2 = none) ∧
      ∀ plain cap, (ncCryptoSeal M (c0.run M (ops ++ more)) plain cap).2 = none) := by
  have hgate := Gate.run (ncCryptoInit_fresh hinit) ops
  have happ : ∀ more, c0.run M (ops ++ more) = (c0.run M ops).run M more := by
    intro more
    simp [Crypto.run, List.foldl_append]
  refine ⟨hgate.admitted, fun hkey more => ?_, hgate.excl, fun hfailed more => ?_⟩
  · obtain ⟨_, _, _, heq⟩ := Crypto.run_sameKeys (M := M) hkey more
    rw [happ, heq]
    exact ⟨hkey, rfl⟩
  · have hkey : (c0.run M ops).haveKey = false :=
      Bool.eq_false_iff.2 fun hk => hgate.excl ⟨hfailed, hk⟩
    rw [happ, Crypto.run_failed hfailed hkey]
    refine ⟨fun pkt cap => ?_, fun plain cap => ?_⟩
    · simp [ncCryptoOpen, hfailed]
    · simp [ncCryptoSeal, hkey]

/-! ## Agreement -/

theorem rdVector_append {n : Nat} (v : Vector UInt8 n) (rest : Bytes) :
    rdVector n (v.toList ++ rest) = v := by
  apply Vector.ext
  intro i hi
  have hlen : i < v.toList.length := by simpa using hi
  simp [rdVector, List.getD_eq_getElem?_getD, List.getElem?_append_left hlen, hi]

theorem Crypto.Fresh.hello {role : CryptoRole} {c : Crypto} (h : c.Fresh M role) {cap : Nat}
    (hcap : ncCryptoHelloLen ≤ cap) :
    ncCryptoHandshakePacket c cap = ncCryptoHello :: c.ephPk.toList ++ c.staticPk.toList := by
  have hstatic : (if c.haveStatic then c.staticPk else zero32) = c.staticPk := by
    cases hs : c.haveStatic with
    | true => rfl
    | false => rw [h.noStatic hs]; rfl
  unfold ncCryptoHandshakePacket
  rw [if_neg (Nat.not_lt.2 hcap), hstatic]

theorem sorted_comm (a b : Key) :
    (if memcmpGt a b then (b, a) else (a, b)) = if memcmpGt b a then (a, b) else (b, a) := by
  unfold memcmpGt
  by_cases hab : a.toList < b.toList
  · have hba := List.lt_asymm hab
    simp [hab, hba]
  · by_cases hba : b.toList < a.toList
    · simp [hab, hba]
    · have heq : a.toList = b.toList :=
        List.le_antisymm (List.not_lt.1 hba) (List.not_lt.1 hab)
      rw [Vector.toList_inj.1 heq]

/-- The session of `c` once the HELLO of `d` is recorded. -/
def Crypto.met (c d : Crypto) : Crypto := recordStatic c d.staticPk

theorem Crypto.Fresh.met_peerHasStatic {c d : Crypto} {role : CryptoRole} (h : d.Fresh M role)
    (hpub : ∀ sk, M.x25519PublicKey sk ≠ zero32) : (c.met d).peerHasStatic = d.haveStatic := by
  have hiff := recordStatic_peerHasStatic c d.staticPk
  cases hs : d.haveStatic with
  | true => exact hiff.2 (by rw [h.staticPk hs]; exact hpub _)
  | false =>
    rw [Bool.eq_false_iff]
    exact fun ht => hiff.1 ht (h.noStatic hs)

section Agreement

variable {A B : Crypto} (hA : A.Fresh M .initiator) (hB : B.Fresh M .responder)
  (hcomm : ∀ a b, M.x25519 a (M.x25519PublicKey b) = M.x25519 b (M.x25519PublicKey a))
  (hpub : ∀ sk, M.x25519PublicKey sk ≠ zero32)

include hA hB hcomm hpub in
theorem sharedSecrets_agree :
    sharedSecrets M (A.met B) B.ephPk = sharedSecrets M (B.met A) A.ephPk := by
  have hrA : (A.met B).role = .initiator := hA.role
  have hrB : (B.met A).role = .responder := hB.role
  have hpA : (A.met B).peerStaticPk = B.staticPk :=
    recordStatic_peerStaticPk hA.peerStaticPk _
  have hpB : (B.met A).peerStaticPk = A.staticPk :=
    recordStatic_peerStaticPk hB.peerStaticPk _
  have hee : M.x25519 A.ephSk B.ephPk = M.x25519 B.ephSk A.ephPk := by
    rw [hA.ephPk, hB.ephPk, hcomm]
  -- each static secret meets the ephemeral secret of the other side
  have his : (if B.haveStatic then M.x25519 A.ephSk B.staticPk else zero32) =
      if B.haveStatic then M.x25519 B.staticSk A.ephPk else zero32 := by
    cases hs : B.haveStatic with
    | true => simp only [if_true, hB.staticPk hs, hA.ephPk, hcomm A.ephSk]
    | false => rfl
  have hsi : (if A.haveStatic then M.x25519 A.staticSk B.ephPk else zero32) =
      if A.haveStatic then M.x25519 B.ephSk A.staticPk else zero32 := by
    cases hs : A.haveStatic with
    | true => simp only [if_true, hA.staticPk hs, hB.ephPk, hcomm A.staticSk]
    | false => rfl
  simp only [sharedSecrets, hrA, hrB, hpA, hpB, hB.met_peerHasStatic hpub,
    hA.met_peerHasStatic hpub]
  exact Prod.ext hee (Prod.ext his hsi)

include hA hB hcomm hpub in
theorem sessionScript_agree (hpsk : A.psk = B.psk) :
    sessionScript M (A.met B) B.ephPk = sessionScript M (B.met A) A.ephPk := by
  have hrA : (A.met B).role = .initiator := hA.role
  have hrB : (B.met A).role = .responder := hB.role
  have hpA : (A.met B).peerStaticPk = B.staticPk :=
    recordStatic_peerStaticPk hA.peerStaticPk _
  have hpB : (B.met A).peerStaticPk = A.staticPk :=
    recordStatic_peerStaticPk hB.peerStaticPk _
  have hsort := sorted_comm A.ephPk B.ephPk
  have hsA : (A.met B).staticPk = A.staticPk := rfl
  have hsB : (B.met A).staticPk = B.staticPk := rfl
  have heA : (A.met B).ephPk = A.ephPk := rfl
  have heB : (B.met A).ephPk = B.ephPk := rfl
  have hkA : (A.met B).psk = A.psk := rfl
  have hkB : (B.met A).psk = B.psk := rfl
  simp only [sessionScript, sharedSecrets_agree hA hB hcomm hpub, hrA, hrB, hpA, hpB, hsA, hsB,
    heA, heB, hkA, hkB, hsort, hpsk, if_true, reduceCtorEq, if_false]

end Agreement

theorem Crypto.Fresh.opens {c d : Crypto} {role role' : CryptoRole} (hc : c.Fresh M role)
    (hd : d.Fresh M role') (hpub : ∀ sk, M.x25519PublicKey sk ≠ zero32)
    (hee : M.x25519 c.ephSk d.ephPk ≠ zero32)
    (hverify : ∀ verify, c.verifyPeer = some verify →
      verify (if d.haveStatic then some d.staticPk else none) = 0)
    (hrequire : c.requirePeerStatic = true → d.haveStatic = true) (cap cap' : Nat)
    (hcap : ncCryptoHelloLen ≤ cap) :
    ∃ c', deriveSession M (c.met d) d.ephPk = some c' ∧
      ncCryptoOpen M c (ncCryptoHandshakePacket d cap) cap' = (c', some []) := by
  obtain ⟨c', hc'⟩ : ∃ c', deriveSession M (c.met d) d.ephPk = some c' := by
    have hnz : isZero32 (sharedSecrets M (c.met d) d.ephPk).1 = false := by
      have hfst : (sharedSecrets M (c.met d) d.ephPk).1 = M.x25519 c.ephSk d.ephPk := by
        unfold sharedSecrets
        split <;> rfl
      rw [Bool.eq_false_iff, hfst]
      exact fun hz => hee ((isZero32_iff _).1 hz)
    unfold deriveSession
    rw [if_neg (by rw [hnz]; decide)]
    dsimp only
    split <;> exact ⟨_, rfl⟩
  refine ⟨c', hc', ?_⟩
  have hreq : ¬((c.met d).requirePeerStatic = true ∧ (c.met d).peerHasStatic = false) := by
    rintro ⟨hr, hno⟩
    rw [hd.met_peerHasStatic hpub, hrequire hr] at hno
    cases hno
  have hver : ¬peerAccepted (c.met d) = false := by
    have hsame : (c.met d).verifyPeer = c.verifyPeer := rfl
    unfold peerAccepted
    rw [hsame]
    cases hv : c.verifyPeer with
    | none => simp
    | some verify =>
      rw [hd.met_peerHasStatic hpub]
      simpa [Crypto.met, recordStatic_peerStaticPk hc.peerStaticPk] using hverify verify hv
  have hhello : consumeHello M c (d.ephPk.toList ++ d.staticPk.toList) = c' := by
    have hstatic : rdVector 32 ((d.ephPk.toList ++ d.staticPk.toList).drop 32) = d.staticPk := by
      rw [List.drop_left' d.ephPk.length_toList]
      simpa using rdVector_append d.staticPk []
    unfold consumeHello
    rw [hstatic, rdVector_append]
    change (if (c.met d).requirePeerStatic = true ∧ (c.met d).peerHasStatic = false then _
      else if peerAccepted (c.met d) = false then _ else _) = c'
    rw [if_neg hreq, if_neg hver]
    have hderive : deriveSession M (c.met d) d.ephPk = some c' := hc'
    simp only [Crypto.met] at hderive ⊢
    rw [hderive]
  rw [hd.hello hcap]
  unfold ncCryptoOpen
  simp [hc.failed, hc.haveKey, hhello]

theorem deriveSession_script {c c' : Crypto} {peerEph : Key}
    (h : deriveSession M c peerEph = some c') :
    sessionScript M c' peerEph = sessionScript M c peerEph ∧
      c'.sid = deriveOut M (sessionScript M c peerEph) labelSid ∧
      (c.role = .initiator →
        c'.txKey = deriveOut M (sessionScript M c peerEph) labelI2r ∧
        c'.rxKey = deriveOut M (sessionScript M c peerEph) labelR2i) ∧
      (c.role = .responder →
        c'.txKey = deriveOut M (sessionScript M c peerEph) labelR2i ∧
        c'.rxKey = deriveOut M (sessionScript M c peerEph) labelI2r) := by
  unfold deriveSession at h
  split at h
  · cases h
  · dsimp only at h
    split at h
    · next hr =>
      cases h
      refine ⟨rfl, rfl, fun _ => ⟨rfl, rfl⟩, fun hno => ?_⟩
      rw [hr] at hno
      cases hno
    · next hr =>
      cases h
      refine ⟨rfl, rfl, fun hno => ?_, fun _ => ⟨rfl, rfl⟩⟩
      rw [hr] at hno
      cases hno

/-- After each side opened the HELLO of the other they hold the same session, unless one
of them requires an identity the other does not have. -/
theorem handshake_agrees
    (hcomm : ∀ a b, M.x25519 a (M.x25519PublicKey b) = M.x25519 b (M.x25519PublicKey a))
    (hpub : ∀ sk, M.x25519PublicKey sk ≠ zero32)
    (cfgA cfgB : Option CryptoCfg) (randomA randomB : Option Key) (A B : Crypto)
    (hA : ncCryptoInit M .initiator cfgA randomA = some A)
    (hB : ncCryptoInit M .responder cfgB randomB = some B)
    (hpsk : A.psk = B.psk) (hee : M.x25519 A.ephSk B.ephPk ≠ zero32)
    (hverifyA : ∀ verify, A.verifyPeer = some verify →
      verify (if B.haveStatic then some B.staticPk else none) = 0)
    (hverifyB : ∀ verify, B.verifyPeer = some verify →
      verify (if A.haveStatic then some A.staticPk else none) = 0)
    (hrequireA : A.requirePeerStatic = true → B.haveStatic = true)
    (hrequireB : B.requirePeerStatic = true → A.haveStatic = true)
    (cap cap' : Nat) (hcap : ncCryptoHelloLen ≤ cap) :
    let A' := (ncCryptoOpen M A (ncCryptoHandshakePacket B cap) cap').1
    let B' := (ncCryptoOpen M B (ncCryptoHandshakePacket A cap) cap').1
    ncCryptoReady A' = true ∧ ncCryptoReady B' = true ∧ A'.sid = B'.sid ∧
      A'.txKey = B'.rxKey ∧ A'.rxKey = B'.txKey ∧
      sessionScript M A' B.ephPk = sessionScript M B' A.ephPk := by
  have hfA := ncCryptoInit_fresh hA
  have hfB := ncCryptoInit_fresh hB
  have hee' : M.x25519 B.ephSk A.ephPk ≠ zero32 := by
    rw [hfA.ephPk, hcomm, ← hfB.ephPk]
    exact hee
  obtain ⟨A', hdA, hoA⟩ := hfA.opens hfB hpub hee hverifyA hrequireA cap cap' hcap
  obtain ⟨B', hdB, hoB⟩ := hfB.opens hfA hpub hee' hverifyB hrequireB cap cap' hcap
  obtain ⟨hscriptA, hsidA, hkeysA, -⟩ := deriveSession_script hdA
  obtain ⟨hscriptB, hsidB, -, hkeysB⟩ := deriveSession_script hdB
  obtain ⟨htxA, hrxA⟩ := hkeysA hfA.role
  obtain ⟨htxB, hrxB⟩ := hkeysB hfB.role
  have hscript := sessionScript_agree hfA hfB hcomm hpub hpsk
  dsimp only
  rw [hoA, hoB]
  refine ⟨(deriveSession_some hdA).1, (deriveSession_some hdB).1, ?_, ?_, ?_, ?_⟩
  · rw [hsidA, hsidB, hscript]
  · rw [htxA, hrxB, hscript]
  · rw [hrxA, htxB, hscript]
  · rw [hscriptA, hscriptB, hscript]

/-! ## The sample handshake -/

namespace Sample

theorem dh_comm (a b : Key) : dh a b = dh b a := by
  have hmix : mix (mark a) (mark b) = mix (mark b) (mark a) := by
    apply Vector.ext
    intro i hi
    simp [mix, UInt8.and_comm]
  simp only [dh, hmix, and_comm, or_comm]

theorem mark_ne (sk p : Key) (hp : p.toList[31]? ≠ some 0xff) : mark sk ≠ p := by
  intro h
  apply hp
  rw [← h]
  simp [mark]

theorem publicKey_cases (sk : Key) :
    secretOf (publicKey sk) = some sk ∨
      publicKey sk = mark sk ∧ secretOf (mark sk) = none ∧ ∀ a,
      dh a sk = mix (mark a) (mark sk) := by
  unfold publicKey
  split
  · next h =>
    rw [h]
    exact .inl (by decide)
  · next hA =>
    split
    · next h =>
      rw [h]
      exact .inl (by decide)
    · next hB =>
      split
      · next h =>
        rw [h]
        exact .inl (by decide)
      · next hS =>
        refine .inr ⟨rfl, ?_, fun a => ?_⟩
        · unfold secretOf
          rw [if_neg (mark_ne sk _ (by decide)), if_neg (mark_ne sk _ (by decide)),
            if_neg (mark_ne sk _ (by decide))]
        · simp only [dh, hA, hB, hS, and_false, or_false, if_false]

theorem x25519_publicKey (a b : Key) :
    Monocypher.sample.x25519 a (Monocypher.sample.x25519PublicKey b) = dh a b := by
  simp only [Monocypher.sample]
  rcases publicKey_cases b with h | ⟨hpk, hnone, hdh⟩
  · rw [h]
  · rw [hpk, hnone, hdh]

theorem publicKey_ne_zero (sk : Key) : publicKey sk ≠ zero32 := by
  intro h
  rcases publicKey_cases sk with hs | ⟨hpk, -, -⟩
  · rw [h] at hs
    have hnone : secretOf zero32 = none := by decide
    rw [hnone] at hs
    cases hs
  · exact mark_ne sk zero32 (by decide) (hpk.symm.trans h)

def cfgA : CryptoCfg where
  ephSkSeed := some skA
  psk := none
  staticSk := none
  requirePeerStatic := true
  verifyPeer := some fun pk => if pk = some pkS then 0 else -1

def cfgB : CryptoCfg where
  ephSkSeed := some skB
  psk := none
  staticSk := some skS
  requirePeerStatic := false
  verifyPeer := none

def initA : Crypto :=
  { Crypto.blank .sample .initiator skA with
    requirePeerStatic := true
    verifyPeer := cfgA.verifyPeer }

def initB : Crypto :=
  { Crypto.blank .sample .responder skB with
    staticSk := skS
    staticPk := pkS
    haveStatic := true }

theorem initB_eq : ncCryptoInit .sample .responder (some cfgB) none = some initB := by
  have hpk : Monocypher.sample.x25519PublicKey skS = pkS := by decide
  simp only [ncCryptoInit, cfgB, Option.bind_some, Option.some_or, hpk, initB, Crypto.blank]

end Sample

open Sample in
theorem handshake_agrees_sample :
    let A' := (ncCryptoOpen .sample initA (ncCryptoHandshakePacket initB 65) 2048).1
    let B' := (ncCryptoOpen .sample initB (ncCryptoHandshakePacket initA 65) 2048).1
    ncCryptoReady A' = true ∧ ncCryptoReady B' = true ∧ A'.sid = B'.sid ∧
      A'.txKey = B'.rxKey ∧ A'.rxKey = B'.txKey ∧
      sessionScript .sample A' initB.ephPk = sessionScript .sample B' initA.ephPk := by
  refine handshake_agrees ?_ publicKey_ne_zero (some cfgA) (some cfgB) none none initA initB
    rfl initB_eq rfl (by decide +kernel) ?_ (fun _ h => by cases h) (fun _ => rfl)
    (fun h => by cases h) 65 2048 (Nat.le_refl _)
  · intro a b
    rw [x25519_publicKey, x25519_publicKey, dh_comm]
  · intro verify h
    cases h
    decide +kernel

open Sample in
/-- A side that requires an identity does not get ready with a peer that has none, also
where every `verify_peer` accepts. -/
theorem anonymous_peer_refused :
    let A := { initA with verifyPeer := none }
    let B := Crypto.blank .sample .responder skB
    ncCryptoInit .sample .initiator (some { cfgA with verifyPeer := none }) none = some A ∧
      ncCryptoInit .sample .responder none (some skB) = some B ∧ A.psk = B.psk ∧
      Monocypher.sample.x25519 A.ephSk B.ephPk ≠ zero32 ∧
      A.verifyPeer = none ∧ B.verifyPeer = none ∧
      ncCryptoReady (ncCryptoOpen .sample A (ncCryptoHandshakePacket B 65) 2048).1 = false :=
  ⟨rfl, rfl, rfl, by decide +kernel, rfl, rfl, by decide +kernel⟩

open Sample in
theorem key_gate_sample :
    let ops := [CryptoOp.openPkt (ncCryptoHandshakePacket initB 65) 2048]
    (initA.run .sample ops).haveKey = true ∧
      ∃ pre pkt cap post, ops = pre ++ .openPkt pkt cap :: post ∧
        (initA.run .sample pre).haveKey = false ∧
        (initA.run .sample (pre ++ [.openPkt pkt cap])).haveKey = true ∧
        Admits initA (initA.run .sample ops) pkt := by
  have hkey : (initA.run .sample
      [CryptoOp.openPkt (ncCryptoHandshakePacket initB 65) 2048]).haveKey = true := by
    decide +kernel
  exact ⟨hkey, (key_gate .initiator (some cfgA) none initA rfl _).1 hkey⟩

end MechanicalResearcher.NetchanAuth
