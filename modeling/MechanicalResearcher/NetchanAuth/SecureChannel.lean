import MechanicalResearcher.NetchanAuth.Handshake

/-!
# The secure channel

`replay_check_and_update` is the sliding window of `Lib.ReplayWindow` at sixty-four
bits.  With the AEAD this makes the datagrams of one direction a channel that
reuses no nonce, delivers nothing twice and changes nothing when it refuses.
-/

namespace MechanicalResearcher.NetchanAuth

open Lib.BigEndian Lib.ReplayWindow

variable {M : Monocypher}

/-- One successful `nc_crypto_seal`. -/
structure Sealed where
  counter : UInt64
  plain : Bytes
  pkt : Bytes

def Crypto.window (c : Crypto) : Window 64 := ⟨c.rxMax.toNat, c.rxWindow.toBitVec⟩

theorem toBitVec_shift (x s : UInt64) (hs : s.toNat < 64) :
    (x <<< s).toBitVec = x.toBitVec <<< s.toNat := by
  have hmod : (s.toBitVec % 64#64).toNat = s.toNat := by
    rw [BitVec.toNat_umod]
    exact Nat.mod_eq_of_lt hs
  rw [UInt64.toBitVec_shiftLeft]
  change x.toBitVec <<< (s.toBitVec % 64#64).toNat = _
  rw [hmod]

theorem and_bit_ne_zero (x s : UInt64) (hs : s.toNat < 64) :
    (x &&& 1 <<< s ≠ 0) ↔ x.toBitVec.getLsbD s.toNat = true := by
  have hone : ((1 : UInt64) <<< s).toBitVec = BitVec.twoPow 64 s.toNat := by
    rw [toBitVec_shift _ _ hs, BitVec.twoPow_eq]
    rfl
  rw [ne_eq, ← UInt64.toBitVec_inj, UInt64.toBitVec_and, hone, BitVec.and_twoPow]
  cases hbit : x.toBitVec.getLsbD s.toNat with
  | false => simp
  | true =>
    have hne : BitVec.twoPow 64 s.toNat ≠ 0#64 := by
      intro hzero
      have hget := congrArg (fun b => b.getLsbD s.toNat) hzero
      simp [hs] at hget
    simpa using hne

theorem replayCheckAndUpdate_window (c : Crypto) (n : UInt64) :
    (replayCheckAndUpdate c n).map Crypto.window = c.window.accept n.toNat := by
  unfold replayCheckAndUpdate Window.accept
  by_cases hzero : n = 0
  · simp [hzero]
  · have hpos : n.toNat ≠ 0 := by
      intro h
      exact hzero (UInt64.toNat_inj.1 h)
    rw [if_neg hzero, if_neg hpos]
    by_cases hgt : n > c.rxMax
    · have hgt' : c.rxMax.toNat < n.toNat := UInt64.lt_iff_toNat_lt.1 hgt
      have hsub : (n - c.rxMax).toNat = n.toNat - c.rxMax.toNat :=
        UInt64.toNat_sub_of_le _ _ (UInt64.le_iff_toNat_le.2 hgt'.le)
      rw [if_pos hgt, if_pos (show c.window.top < n.toNat from hgt')]
      simp only [Option.map_some, Option.some.injEq, Crypto.window, Window.mk.injEq, true_and,
        UInt64.toBitVec_or]
      congr 1
      by_cases hbig : 64 ≤ n - c.rxMax
      · have hbig' : 64 ≤ n.toNat - c.rxMax.toNat := by
          rw [← hsub]
          exact UInt64.le_iff_toNat_le.1 hbig
        rw [if_pos hbig, BitVec.shiftLeft_eq_zero hbig']
        rfl
      · have hsmall : (n - c.rxMax).toNat < 64 := by
          rw [UInt64.le_iff_toNat_le] at hbig
          exact Nat.not_le.1 hbig
        rw [if_neg hbig, toBitVec_shift _ _ hsmall, hsub]
    · have hle : n.toNat ≤ c.rxMax.toNat := Nat.not_lt.1 fun h => hgt (UInt64.lt_iff_toNat_lt.2 h)
      have hsub : (c.rxMax - n).toNat = c.rxMax.toNat - n.toNat :=
        UInt64.toNat_sub_of_le _ _ (UInt64.le_iff_toNat_le.2 hle)
      have htop : c.window.top - n.toNat = (c.rxMax - n).toNat := hsub.symm
      rw [if_neg hgt, if_neg (show ¬c.window.top < n.toNat from Nat.not_lt.2 hle), htop]
      by_cases hold : 64 ≤ c.rxMax - n
      · rw [if_pos (show 64 ≤ (c.rxMax - n).toNat from UInt64.le_iff_toNat_le.1 hold)]
        simp only [if_pos hold, Option.map_none]
      · have hin : (c.rxMax - n).toNat < 64 := by
          rw [UInt64.le_iff_toNat_le] at hold
          exact Nat.not_le.1 hold
        have hbit := and_bit_ne_zero c.rxWindow (c.rxMax - n) hin
        rw [if_neg (Nat.not_le.2 hin)]
        simp only [if_neg hold]
        by_cases hset : c.rxWindow.toBitVec.getLsbD (c.rxMax - n).toNat = true
        · rw [if_pos (hbit.2 hset), if_pos (show c.window.mask.getLsbD _ = true from hset)]
          rfl
        · rw [if_neg (fun h => hset (hbit.1 h)), if_neg (show ¬c.window.mask.getLsbD _ =
          true from hset)]
          simp only [Option.map_some, Crypto.window, UInt64.toBitVec_or, toBitVec_shift _ _ hin,
            BitVec.twoPow_eq]
          rfl

/-- The session after a call of `replay_check_and_update`, and the counters it accepted so far,
newest first. -/
def replayStep (s : Crypto × List UInt64) (n : UInt64) : Crypto × List UInt64 :=
  match replayCheckAndUpdate s.1 n with
  | none => s
  | some c => (c, n :: s.2)

def replayAll (c : Crypto) (ns : List UInt64) : Crypto × List UInt64 :=
  ns.foldl replayStep (c, [])

/-- The window of the session shows what was accepted. -/
def ShowsAccepted (s : Crypto × List UInt64) : Prop := s.1.window.Holds (s.2.map UInt64.toNat)

theorem ShowsAccepted.step {s : Crypto × List UInt64} (h : ShowsAccepted s) (n : UInt64) :
    ShowsAccepted (replayStep s n) := by
  have hwindow := replayCheckAndUpdate_window s.1 n
  unfold replayStep
  cases hcheck : replayCheckAndUpdate s.1 n with
  | none => exact h
  | some c =>
    rw [hcheck] at hwindow
    exact h.accept hwindow.symm

theorem ShowsAccepted.run {s : Crypto × List UInt64} (h : ShowsAccepted s) (ns : List UInt64) :
    ShowsAccepted (ns.foldl replayStep s) := by
  induction ns generalizing s with
  | nil => exact h
  | cons n ns ih => exact ih (h.step n)

theorem mem_map_toNat {n : UInt64} {ns : List UInt64} : n.toNat ∈ ns.map UInt64.toNat ↔ n ∈ ns := by
  rw [List.mem_map]
  constructor
  · rintro ⟨m, hm, heq⟩
    exact UInt64.toNat_inj.mp heq ▸ hm
  · exact fun h => ⟨n, h, rfl⟩

/-- The largest of the counters, 0 if there is none. -/
def largest (ns : List UInt64) : Nat := (ns.map UInt64.toNat).foldr max 0

/-- From a zeroed window on, a counter is accepted exactly when it is not 0, was not accepted
before and is above the largest one or less than 64 below it; `rx_max` is the largest one and
`rx_window` shows which of the 64 counters up to it were accepted. -/
theorem replay_window_exact {c : Crypto} (hmax : c.rxMax = 0) (hwindow : c.rxWindow = 0)
    (ns : List UInt64) :
    (∀ n, (replayCheckAndUpdate (replayAll c ns).1 n).isSome ↔
      n ≠ 0 ∧ n ∉ (replayAll c ns).2 ∧
        (largest (replayAll c ns).2 < n.toNat ∨ largest (replayAll c ns).2 - n.toNat < 64)) ∧
    (replayAll c ns).1.rxMax.toNat = largest (replayAll c ns).2 ∧
    ∀ i < 64, i < (replayAll c ns).1.rxMax.toNat →
      ((replayAll c ns).1.rxWindow.toBitVec.getLsbD i = true ↔
        (replayAll c ns).1.rxMax - UInt64.ofNat i ∈ (replayAll c ns).2) := by
  have hzero : ShowsAccepted (c, []) := by
    have hblank : c.window = ⟨0, 0⟩ := by rw [Crypto.window, hmax, hwindow]; rfl
    rw [ShowsAccepted, hblank]
    exact Window.Holds.zero 64
  have hshows : ShowsAccepted (replayAll c ns) := hzero.run ns
  generalize replayAll c ns = s at hshows
  have htop : s.1.rxMax.toNat = largest s.2 := hshows.top_eq
  refine ⟨fun n => ?_, htop, fun i hi hlt => ?_⟩
  · have hisSome : (replayCheckAndUpdate s.1 n).isSome = (s.1.window.accept n.toNat).isSome := by
      rw [← replayCheckAndUpdate_window, Option.isSome_map]
    have hpos : n.toNat ≠ 0 ↔ n ≠ 0 := not_congr (UInt64.toNat_inj (b := 0))
    rw [hisSome, hshows.accept_isSome, mem_map_toNat, hpos, ← htop]
    rfl
  · have hval : s.1.rxMax.toNat - i = (s.1.rxMax - UInt64.ofNat i).toNat := by
      have hof : (UInt64.ofNat i).toNat = i := by
        rw [UInt64.toNat_ofNat']
        omega
      rw [UInt64.toNat_sub_of_le, hof]
      rw [UInt64.le_iff_toNat_le, hof]
      exact hlt.le
    have hbit := hshows.bit i hi hlt
    rw [show s.1.window.top - i = (s.1.rxMax - UInt64.ofNat i).toNat from hval,
      mem_map_toNat] at hbit
    exact hbit

/-- Jumps of 63, of 64 and to the end of the counters. -/
theorem replay_window_exact_jumps :
    let s := replayAll (Crypto.blank .sample .initiator zero32)
      [1, 64, 1, 2, 128, 64, 65, UInt64.ofNat (2 ^ 64 - 1), 128, UInt64.ofNat (2 ^ 64 - 64)]
    s.2 = [UInt64.ofNat (2 ^ 64 - 64), UInt64.ofNat (2 ^ 64 - 1), 65, 128, 2, 64, 1] ∧
      s.1.rxMax.toNat = largest s.2 :=
  ⟨by decide +kernel, (replay_window_exact rfl rfl _).2.1⟩

theorem nonceOf_injective {n m : UInt64} (h : nonceOf n = nonceOf m) : n = m := by
  have hbyte : ∀ i < 8, (wr64 n).getD i 0 = (wr64 m).getD i 0 := by
    intro i hi
    have hget := congrArg (fun v : Nonce => v.toList.getD i 0) h
    have hi' : i < 24 := by omega
    simpa [nonceOf, rdVector, hi', List.getD_eq_getElem?_getD] using hget
  have hread : rd64 (wr64 n ++ []) = rd64 (wr64 m ++ []) := by
    rw [List.append_nil, List.append_nil]
    exact rd64_congr hbyte
  rw [rd64_wr64_append, rd64_wr64_append] at hread
  exact hread

variable (M) in
/-- The datagrams of a sequence of calls of `nc_crypto_seal`, each with a capacity. -/
def sealAll (c : Crypto) : List (Bytes × Nat) → List Sealed
  | [] => []
  | (plain, cap) :: calls =>
    match ncCryptoSeal M c plain cap with
    | (c, none) => sealAll c calls
    | (c, some pkt) => ⟨c.txCounter, plain, pkt⟩ :: sealAll c calls

theorem sealAll_spec (c : Crypto) (calls : List (Bytes × Nat)) :
    (∀ s ∈ sealAll M c calls, c.txCounter < s.counter ∧
      s.pkt = sealedPacket M c.txKey s.counter s.plain) ∧
    ((sealAll M c calls).map Sealed.counter).Nodup := by
  induction calls generalizing c with
  | nil => simp [sealAll]
  | cons call calls ih =>
    obtain ⟨plain, cap⟩ := call
    rcases ncCryptoSeal_cases (M := M) c plain cap with h | ⟨-, hmax, h⟩
    · simp only [sealAll, h]
      exact ih c
    · obtain ⟨hall, hnodup⟩ := ih { c with txCounter := c.txCounter + 1 }
      have hlt : c.txCounter < c.txCounter + 1 := by
        have hbound := c.txCounter.toNat_lt
        have hne : c.txCounter.toNat ≠ 2 ^ 64 - 1 := by
          intro heq
          apply hmax
          rw [← heq]
          exact (UInt64.ofNat_toNat).symm
        rw [UInt64.lt_iff_toNat_lt, UInt64.toNat_add]
        change c.txCounter.toNat < (c.txCounter.toNat + 1) % 2 ^ 64
        omega
      simp only [sealAll, h, List.forall_mem_cons, List.map_cons, List.nodup_cons]
      refine ⟨⟨⟨hlt, trivial⟩, fun s hs => ?_⟩, ?_, hnodup⟩
      · exact ⟨UInt64.lt_trans hlt (hall s hs).1, (hall s hs).2⟩
      · intro hmem
        obtain ⟨s, hs, heq⟩ := List.mem_map.1 hmem
        have hcontra := (hall s hs).1
        rw [heq] at hcontra
        exact UInt64.lt_irrefl _ hcontra

variable (M) in
/-- The session after a sequence of calls of `nc_crypto_open`. -/
def openAll (c : Crypto) (calls : List (Bytes × Nat)) : Crypto :=
  calls.foldl (fun c call => (ncCryptoOpen M c call.1 call.2).1) c

theorem ncCryptoOpen_refused {c : Crypto} {pkt : Bytes} {cap : Nat}
    (h : (ncCryptoOpen M c pkt cap).2 = none) : (ncCryptoOpen M c pkt cap).1 = c := by
  rcases ncCryptoOpen_cases (M := M) c pkt cap with
    ho | ⟨-, -, ho⟩ | ⟨-, -, -, ho⟩ | ⟨_, _, -, ho⟩ <;> rw [ho] at h ⊢ <;> cases h

theorem Opens.window {c c' : Crypto} {pkt plain : Bytes} (h : Opens M c pkt plain c') :
    c.window.accept (rd64 (pkt.drop 1)).toNat = some c'.window := by
  rw [← replayCheckAndUpdate_window, h.replay]
  rfl

theorem ncCryptoOpen_seen {c : Crypto} {n : Nat} (hkey : c.haveKey = true)
    (hseen : c.window.Seen n) (pkt : Bytes) (cap : Nat) :
    (ncCryptoOpen M c pkt cap).1.window.Seen n := by
  rcases ncCryptoOpen_cases (M := M) c pkt cap with
    ho | ⟨-, -, ho⟩ | ⟨-, hno, -, ho⟩ | ⟨plain, c', hopens, ho⟩
  · rw [ho]
    exact hseen
  · rw [ho]
    exact hseen
  · rw [hkey] at hno
    cases hno
  · rw [ho]
    exact hseen.accept hopens.window

theorem ncCryptoOpen_keys {c : Crypto} (hkey : c.haveKey = true) (pkt : Bytes) (cap : Nat) :
    (ncCryptoOpen M c pkt cap).1.haveKey = true ∧
      (ncCryptoOpen M c pkt cap).1.rxKey = c.rxKey := by
  obtain ⟨_, _, _, heq⟩ := Crypto.run_sameKeys (M := M) hkey [.openPkt pkt cap]
  change (ncCryptoOpen M c pkt cap).1 = _ at heq
  rw [heq]
  exact ⟨hkey, rfl⟩

theorem ncCryptoOpen_data {c : Crypto} {pkt plain : Bytes} {cap : Nat}
    (hhead : pkt.headD 0 = ncCryptoData) (h : (ncCryptoOpen M c pkt cap).2 = some plain) :
    ∃ c', Opens M c pkt plain c' ∧ (ncCryptoOpen M c pkt cap).1 = c' := by
  have hno : ¬IsHello pkt := by
    rintro ⟨hello, -⟩
    rw [hhead] at hello
    cases hello
  rcases ncCryptoOpen_cases (M := M) c pkt cap with
    ho | ⟨hello, -, -⟩ | ⟨hello, -, -, -⟩ | ⟨p, c', hopens, ho⟩
  · rw [ho] at h
    cases h
  · exact absurd hello hno
  · exact absurd hello hno
  · rw [ho] at h ⊢
    cases h
    exact ⟨c', hopens, rfl⟩

theorem openAll_append (c : Crypto) (calls more : List (Bytes × Nat)) :
    openAll M c (calls ++ more) = openAll M (openAll M c calls) more :=
  List.foldl_append

theorem openAll_keeps {c : Crypto} (hkey : c.haveKey = true) (calls : List (Bytes × Nat)) :
    (openAll M c calls).haveKey = true ∧ (openAll M c calls).rxKey = c.rxKey ∧
      ∀ n, c.window.Seen n → (openAll M c calls).window.Seen n := by
  induction calls generalizing c with
  | nil => exact ⟨hkey, rfl, fun _ h => h⟩
  | cons call calls ih =>
    obtain ⟨hk, hrx⟩ := ncCryptoOpen_keys (M := M) hkey call.1 call.2
    obtain ⟨hkey', hrx', hseen'⟩ := ih hk
    exact ⟨hkey', hrx'.trans hrx,
      fun n hn => hseen' n (ncCryptoOpen_seen hkey hn call.1 call.2)⟩

theorem openAll_take_succ {c : Crypto} {calls : List (Bytes × Nat)} {i : Nat} {pkt : Bytes}
    {cap : Nat} (h : calls[i]? = some (pkt, cap)) :
    openAll M c (calls.take (i + 1)) = (ncCryptoOpen M (openAll M c (calls.take i)) pkt cap).1 := by
  rw [List.take_add_one, h, openAll_append]
  rfl

theorem sealedPacket_fields (key : Key) (n : UInt64) (plain : Bytes) :
    (sealedPacket M key n plain).headD 0 = ncCryptoData ∧
      rd64 ((sealedPacket M key n plain).drop 1) = n ∧
      rdVector 16 ((sealedPacket M key n plain).drop 9) = (M.aeadLock key (nonceOf n) plain).1 ∧
      (sealedPacket M key n plain).drop ncCryptoOverhead =
        (M.aeadLock key (nonceOf n) plain).2 := by
  rcases hlock : M.aeadLock key (nonceOf n) plain with ⟨mac, ct⟩
  have hpkt : sealedPacket M key n plain =
      ncCryptoData :: (wr64 n ++ (mac.toList ++ ct)) := by
    simp [sealedPacket, hlock]
  have htail : (wr64 n ++ (mac.toList ++ ct)).drop 8 = mac.toList ++ ct :=
    List.drop_left' (length_wr64 n)
  rw [hpkt]
  refine ⟨rfl, ?_, ?_, ?_⟩
  · rw [List.drop_succ_cons, List.drop_zero, rd64_wr64_append]
  · rw [List.drop_succ_cons, htail, rdVector_append]
  · have hlen : (wr64 n ++ mac.toList).length = 24 := by simp
    rw [List.drop_succ_cons, ← List.append_assoc, List.drop_left' hlen]

/-- Datagrams sealed at `A` and given to `B` in any order, any number of times and among
any other packets. -/
theorem secure_channel
    (haead : ∀ key nonce mac ct plain, M.aeadUnlock key nonce mac ct = some plain ↔
      M.aeadLock key nonce plain = (mac, ct))
    (A B : Crypto) (hB : B.haveKey = true) (hkeys : A.txKey = B.rxKey)
    (seals opens : List (Bytes × Nat)) :
    ((sealAll M A seals).map fun s => nonceOf s.counter).Nodup ∧
    (∀ s ∈ sealAll M A seals, s.pkt = sealedPacket M A.txKey s.counter s.plain ∧
      ∀ i cap plain, opens[i]? = some (s.pkt, cap) →
        (ncCryptoOpen M (openAll M B (opens.take i)) s.pkt cap).2 = some plain →
        plain = s.plain ∧ ∀ j cap', i < j → opens[j]? = some (s.pkt, cap') →
          (ncCryptoOpen M (openAll M B (opens.take j)) s.pkt cap').2 = none) ∧
    ∀ i pkt cap, opens[i]? = some (pkt, cap) →
      (ncCryptoOpen M (openAll M B (opens.take i)) pkt cap).2 = none →
      openAll M B (opens.take (i + 1)) = openAll M B (opens.take i) := by
  obtain ⟨hsealed, hnodup⟩ := sealAll_spec (M := M) A seals
  refine ⟨?_, fun s hs => ⟨(hsealed s hs).2, ?_⟩, ?_⟩
  · have hmap := hnodup.map fun _ _ => nonceOf_injective
    rwa [List.map_map] at hmap
  · intro i cap plain hi hopen
    obtain ⟨hhead, hctr, hmac, hct⟩ := sealedPacket_fields (M := M) A.txKey s.counter s.plain
    rw [← (hsealed s hs).2] at hhead hctr hmac hct
    obtain ⟨c', hopens, hstate⟩ := ncCryptoOpen_data hhead hopen
    obtain ⟨hkey, hrx, -⟩ := openAll_keeps (M := M) hB (opens.take i)
    constructor
    · have hunlock := hopens.unlock
      rw [hctr, hmac, hct, hrx, ← hkeys,
        (haead _ _ _ _ s.plain).2 rfl] at hunlock
      exact (Option.some.inj hunlock).symm
    · intro j cap' hij hj
      -- the window remembers the counter from call `i` on
      have hseen : (openAll M B (opens.take (i + 1))).window.Seen s.counter.toNat := by
        rw [openAll_take_succ hi, hstate, ← hctr]
        exact Window.seen_of_accept (by decide) hopens.window
      have hkey' := (openAll_keeps (M := M) hB (opens.take (i + 1))).1
      have hsplit : openAll M B (opens.take j) =
          openAll M (openAll M B (opens.take (i + 1))) ((opens.take j).drop (i + 1)) := by
        rw [← openAll_append]
        congr 1
        rw [show opens.take (i + 1) = (opens.take j).take (i + 1) by
          rw [List.take_take, Nat.min_eq_left hij], List.take_append_drop]
      have hseen' := (openAll_keeps (M := M) hkey' ((opens.take j).drop (i + 1))).2.2 _ hseen
      rw [← hsplit] at hseen'
      cases hres : (ncCryptoOpen M (openAll M B (opens.take j)) s.pkt cap').2 with
      | none => rfl
      | some p =>
        obtain ⟨d, hopens', -⟩ := ncCryptoOpen_data hhead hres
        have haccept := hopens'.window
        rw [hctr] at haccept
        have hsome : ((openAll M B (opens.take j)).window.accept s.counter.toNat).isSome := by
          rw [haccept]
          rfl
        exact absurd hseen' ((Window.accept_isSome_iff _ _).1 hsome).2
  · intro i pkt cap hi hnone
    rw [openAll_take_succ hi]
    exact ncCryptoOpen_refused hnone

namespace Sample

theorem unlock_iff (key : Key) (nonce : Nonce) (m : Mac) (ct p : Bytes) :
    Monocypher.sample.aeadUnlock key nonce m ct = some p ↔
      Monocypher.sample.aeadLock key nonce p = (m, ct) := by
  have hmac : Vector.replicate 16 0 ≠ mac := by decide
  simp only [Monocypher.sample]
  by_cases hkey : key = kI2r ∧ nonce = nonceOf 1
  · obtain ⟨hk, hn⟩ := hkey
    by_cases hm : m = mac
    · by_cases hct : ct = cipher <;> by_cases hp : p = plain <;>
        simp [hk, hn, hm, hct, hp, hmac.symm, eq_comm]
    · by_cases hct : ct = plain <;> by_cases hp : p = plain <;> simp [hk, hn, hm, hct, hp, eq_comm]
  · have hlock : ¬(key = kI2r ∧ nonce = nonceOf 1 ∧ p = plain) := fun h => hkey ⟨h.1, h.2.1⟩
    have hopen : ¬(key = kI2r ∧ nonce = nonceOf 1 ∧ m = mac ∧ ct = cipher) :=
      fun h => hkey ⟨h.1, h.2.1⟩
    have hplain : ¬(key = kI2r ∧ nonce = nonceOf 1 ∧ ct = plain) := fun h => hkey ⟨h.1, h.2.1⟩
    rw [if_neg hlock, if_neg hopen]
    by_cases hm : m = Vector.replicate 16 0 <;> simp [hm, hplain, eq_comm]

/-- The two sides after the handshake. -/
def readyA : Crypto := (ncCryptoOpen .sample initA (ncCryptoHandshakePacket initB 65) 2048).1
def readyB : Crypto := (ncCryptoOpen .sample initB (ncCryptoHandshakePacket initA 65) 2048).1

def datagram : Bytes := ncCryptoData :: wr64 1 ++ mac.toList ++ cipher

end Sample

open Sample in
theorem secure_channel_sample :
    (ncCryptoOpen .sample readyB datagram 2048).2 = some plain ∧
      (ncCryptoOpen .sample (ncCryptoOpen .sample readyB datagram 2048).1 datagram 2048).2 =
        none := by
  have hrun : readyB.haveKey = true ∧ readyA.txKey = readyB.rxKey ∧
      (sealAll .sample readyA [(plain, 2048)]).map Sealed.pkt = [datagram] ∧
      (ncCryptoOpen .sample readyB datagram 2048).2 = some plain := by
    decide +kernel
  obtain ⟨hkey, hkeys, hsent, hopen⟩ := hrun
  obtain ⟨s, hs, hpkt⟩ : ∃ s ∈ sealAll .sample readyA [(plain, 2048)], s.pkt = datagram := by
    have hmem : datagram ∈ (sealAll .sample readyA [(plain, 2048)]).map Sealed.pkt := by
      rw [hsent]
      exact List.mem_singleton.2 rfl
    simpa using hmem
  have hchannel := (secure_channel unlock_iff readyA readyB hkey hkeys [(plain, 2048)]
    [(datagram, 2048), (datagram, 2048)]).2.1 s hs
  rw [hpkt] at hchannel
  exact ⟨hopen, (hchannel.2 0 2048 plain rfl hopen).2 1 2048 Nat.zero_lt_one rfl⟩

end MechanicalResearcher.NetchanAuth
