import MechanicalResearcher.Lib.Runs
import MechanicalResearcher.NetchanAuth.Auth

/-!
# The client of the login

`clientTryNext` is the only place that clears a credential request and ends the
conversation together.  A message that ends the conversation by itself leaves the
request standing, and `ended_needs_nothing` says that this is the only way in which a
client can be asked for a credential after the end.
-/

namespace MechanicalResearcher.NetchanAuth

open Lib.Runs

variable (M : Monocypher)

/-! ## Calls -/

inductive ClientOp
  | feed (msg : Bytes)
  | supplyKey (sk : Option (Vector UInt8 64)) (pk : Option Key)
  | supplyPassword (password : Option Bytes)

/-- A client has no callbacks. -/
def AuthServerCb.unset : AuthServerCb := ⟨none, none, none⟩

def Auth.clientCall (a : Auth) : ClientOp → Auth × List Bytes
  | .feed msg => ((ncAuthFeed M .unset a msg).auth, (ncAuthFeed M .unset a msg).sent)
  | .supplyKey sk pk => ncAuthSupplyKey M a sk pk
  | .supplyPassword password => ncAuthSupplyPassword a password

def Auth.clientStep (a : Auth) (op : ClientOp) : Auth := (a.clientCall M op).1

variable {M}

/-! ## What each call does -/

theorem clientTryNext_cases {a : Auth} (h : a.state = .pending) :
    ((clientTryNext a).state = .pending ∧ (clientTryNext a).need ≠ .nothing) ∨
      ((clientTryNext a).state = .denied ∧ (clientTryNext a).need = .nothing) := by
  unfold clientTryNext
  rw [if_neg (by simp [h])]
  split
  · exact .inl ⟨h, Need.noConfusion⟩
  · split
    · exact .inl ⟨h, Need.noConfusion⟩
    · exact .inr ⟨rfl, rfl⟩

theorem clientTryNext_server (a : Auth) : (clientTryNext a).server = a.server := by
  unfold clientTryNext
  repeat' split
  all_goals rfl

theorem ncAuthSupplyKey_quiet {a : Auth} (h : a.need = .nothing) (sk : Option (Vector UInt8 64))
    (pk : Option Key) : ncAuthSupplyKey M a sk pk = (a, []) := by
  unfold ncAuthSupplyKey
  rw [if_pos (.inr (by rw [h]; exact Need.noConfusion))]

theorem ncAuthSupplyPassword_quiet {a : Auth} (h : a.need = .nothing) (password : Option Bytes) :
    ncAuthSupplyPassword a password = (a, []) := by
  unfold ncAuthSupplyPassword
  rw [if_pos (.inr (by rw [h]; exact Need.noConfusion))]

/-- A message that ends the conversation without a look at what the client waits for:
OK, METHODS with no method, and everything malformed. -/
def Ends (msg : Bytes) : Prop :=
  msg.headD 0 = msgOk ∨
    (msg.headD 0 = msgMethods ∧ (msg.length = 2 → msg.getD 1 0 = 0)) ∨
    (msg.headD 0 = msgFail ∧ msg.length ≠ 2) ∨
    (msg.headD 0 ≠ msgOk ∧ msg.headD 0 ≠ msgMethods ∧ msg.headD 0 ≠ msgFail)

/-- `nc_auth_feed` looks at the message. -/
def Fits (msg : Bytes) : Prop := 1 ≤ msg.length ∧ msg.length ≤ ncAuthMaxMsg

instance (msg : Bytes) : Decidable (Fits msg) := inferInstanceAs (Decidable (_ ∧ _))

theorem toUInt32_eq_zero (b : UInt8) : b.toUInt32 = 0 ↔ b = 0 := by
  rw [← UInt32.toNat_inj, ← UInt8.toNat_inj, UInt8.toNat_toUInt32]
  rfl

theorem ncAuthFeed_client {a : Auth} (hclient : a.server = false) (hpending : a.state = .pending)
    {msg : Bytes} (hfits : Fits msg) (cb : AuthServerCb) :
    ncAuthFeed M cb a msg = match clientFeed a msg with
      | none => ⟨{ a with state := .denied }, [], false⟩
      | some a' => ⟨a', [], true⟩ := by
  have hguard : ¬(msg.length < 1 ∨ msg.length > ncAuthMaxMsg ∨ a.state ≠ .pending) := by
    rintro (h | h | h)
    · exact absurd hfits.1 (Nat.not_le.2 h)
    · exact absurd hfits.2 (Nat.not_le.2 h)
    · exact h hpending
  unfold ncAuthFeed
  rw [if_neg hguard]
  cases hfeed : clientFeed a msg <;> simp [hclient]

theorem clientFeed_cases (a : Auth) (msg : Bytes) :
    (Ends msg ∧ (clientFeed a msg = none ∨ ∃ avail st, st ≠ .pending ∧
      clientFeed a msg = some { a with avail := avail, state := st })) ∨
    (¬Ends msg ∧ ∃ avail, clientFeed a msg = some (clientTryNext { a with avail := avail })) := by
  unfold clientFeed
  by_cases hm : msg.headD 0 = msgMethods
  · rw [if_pos hm]
    by_cases hlen : msg.length = 2
    · rw [if_neg (not_not.2 hlen)]
      dsimp only
      by_cases hzero : msg.getD 1 0 = 0
      · rw [if_pos ((toUInt32_eq_zero _).2 hzero)]
        exact .inl ⟨.inr (.inl ⟨hm, fun _ => hzero⟩), .inr ⟨_, _, AuthState.noConfusion, rfl⟩⟩
      · rw [if_neg fun h => hzero ((toUInt32_eq_zero _).1 h)]
        refine .inr ⟨?_, _, rfl⟩
        rintro (h | ⟨-, h⟩ | ⟨h, -⟩ | ⟨-, h, -⟩)
        · rw [hm] at h
          cases h
        · exact hzero (h hlen)
        · rw [hm] at h
          cases h
        · exact h hm
    · rw [if_pos hlen]
      exact .inl ⟨.inr (.inl ⟨hm, fun h => absurd h hlen⟩), .inl rfl⟩
  · rw [if_neg hm]
    by_cases hok : msg.headD 0 = msgOk
    · rw [if_pos hok]
      exact .inl ⟨.inl hok, .inr ⟨_, _, AuthState.noConfusion, rfl⟩⟩
    · rw [if_neg hok]
      by_cases hfail : msg.headD 0 = msgFail
      · rw [if_pos hfail]
        by_cases hlen : msg.length = 2
        · rw [if_neg (not_not.2 hlen)]
          refine .inr ⟨?_, _, rfl⟩
          rintro (h | ⟨h, -⟩ | ⟨-, h⟩ | ⟨-, -, h⟩)
          · exact hok h
          · exact hm h
          · exact h hlen
          · exact h hfail
        · rw [if_pos hlen]
          exact .inl ⟨.inr (.inr (.inl ⟨hfail, hlen⟩)), .inl rfl⟩
      · rw [if_neg hfail]
        exact .inl ⟨.inr (.inr (.inr ⟨hok, hm, hfail⟩)), .inl rfl⟩

theorem ncAuthFeed_ends {a : Auth} (hclient : a.server = false) (hpending : a.state = .pending)
    {msg : Bytes} (hfits : Fits msg) (hends : Ends msg) :
    (ncAuthFeed M .unset a msg).auth.server = false ∧
      (ncAuthFeed M .unset a msg).auth.state ≠ .pending ∧
      (ncAuthFeed M .unset a msg).auth.need = a.need := by
  rw [ncAuthFeed_client hclient hpending hfits]
  rcases clientFeed_cases a msg with ⟨-, h | ⟨avail, st, hst, h⟩⟩ | ⟨hno, -⟩
  · rw [h]
    exact ⟨hclient, AuthState.noConfusion, rfl⟩
  · rw [h]
    exact ⟨hclient, hst, rfl⟩
  · exact absurd hends hno

theorem ncAuthFeed_ignored {a : Auth} {msg : Bytes} {cb : AuthServerCb}
    (h : ¬(a.state = .pending ∧ Fits msg)) : ncAuthFeed M cb a msg = ⟨a, [], false⟩ := by
  unfold ncAuthFeed
  rw [if_pos]
  by_contra hno
  apply h
  simp only [not_or, not_not] at hno
  exact ⟨hno.2.2, Nat.not_lt.1 hno.1, Nat.not_lt.1 hno.2.1⟩

/-! ## Runs -/

/-- A message that ends the conversation finds the client waiting for nothing. -/
def EndsIdle (a : Auth) : ClientOp → Prop
  | .feed msg => a.state = .pending → Fits msg → Ends msg → a.need = .nothing
  | _ => True

/-- After the end nothing is asked for. -/
def Auth.Settled (a : Auth) : Prop :=
  a.server = false ∧ (a.state ≠ .pending → a.need = .nothing)

theorem settled_tryNext {a : Auth} (hclient : a.server = false) (h : a.state = .pending) :
    (clientTryNext a).Settled := by
  refine ⟨(clientTryNext_server a).trans hclient, fun hno => ?_⟩
  rcases clientTryNext_cases h with ⟨hp, -⟩ | ⟨-, hn⟩
  · exact absurd hp hno
  · exact hn

theorem Auth.Settled.feed {a : Auth} (h : a.Settled) {msg : Bytes}
    (hok : EndsIdle a (.feed msg)) : (ncAuthFeed M .unset a msg).auth.Settled := by
  by_cases hlook : a.state = .pending ∧ Fits msg
  · obtain ⟨hpending, hfits⟩ := hlook
    rcases clientFeed_cases a msg with ⟨hends, -⟩ | ⟨-, avail, heq⟩
    · obtain ⟨hserver, -, hneed⟩ := ncAuthFeed_ends (M := M) h.1 hpending hfits hends
      exact ⟨hserver, fun _ => hneed.trans (hok hpending hfits hends)⟩
    · rw [ncAuthFeed_client h.1 hpending hfits, heq]
      exact settled_tryNext h.1 hpending
  · rw [ncAuthFeed_ignored hlook]
    exact h

theorem Auth.Settled.answered {a : Auth} (h : a.Settled) (hneed : a.need ≠ .nothing) :
    ({ a with need := .nothing } : Auth).Settled ∧
      (clientTryNext { a with need := .nothing }).Settled := by
  have hpending : a.state = .pending := by
    by_contra hno
    exact hneed (h.2 hno)
  exact ⟨⟨h.1, fun _ => rfl⟩, settled_tryNext h.1 hpending⟩

theorem Auth.Settled.supplyKey {a : Auth} (h : a.Settled) (sk : Option (Vector UInt8 64))
    (pk : Option Key) : (ncAuthSupplyKey M a sk pk).1.Settled := by
  unfold ncAuthSupplyKey
  split
  · exact h
  · next hask =>
    have hneed : a.need ≠ .nothing := fun hno => hask (.inr (by rw [hno]; exact Need.noConfusion))
    dsimp only
    split
    · exact (h.answered hneed).1
    · exact (h.answered hneed).2

theorem Auth.Settled.supplyPassword {a : Auth} (h : a.Settled) (password : Option Bytes) :
    (ncAuthSupplyPassword a password).1.Settled := by
  unfold ncAuthSupplyPassword
  split
  · exact h
  · next hask =>
    have hneed : a.need ≠ .nothing := fun hno => hask (.inr (by rw [hno]; exact Need.noConfusion))
    dsimp only
    split
    · exact (h.answered hneed).2
    · split
      · exact (h.answered hneed).2
      · exact (h.answered hneed).1

theorem Auth.Settled.step {a : Auth} (h : a.Settled) (op : ClientOp) (hok : EndsIdle a op) :
    (a.clientStep M op).Settled := by
  cases op with
  | feed msg => exact h.feed hok
  | supplyKey sk pk => exact h.supplyKey sk pk
  | supplyPassword password => exact h.supplyPassword password

theorem Auth.Settled.run {a : Auth} (h : a.Settled) (ops : List ClientOp)
    (hok : Guarded EndsIdle (Auth.clientStep M) a ops) :
    (ops.foldl (Auth.clientStep M) a).Settled := by
  induction ops generalizing a with
  | nil => exact h
  | cons op ops ih => exact ih (h.step op hok.1) hok.2

/-- A client that waited for nothing at the end is asked for nothing and sends nothing
afterwards.  Where it did wait, the request survives the end. -/
theorem ended_needs_nothing (sid : Key) (user : Option Bytes) (ops : List ClientOp)
    (hok : Guarded EndsIdle (Auth.clientStep M) (ncAuthClientInit sid user) ops) :
    let a := ops.foldl (Auth.clientStep M) (ncAuthClientInit sid user)
    (a.state ≠ .pending → ncAuthNeeds a = .nothing ∧
      (∀ sk pk, (ncAuthSupplyKey M a sk pk).2 = []) ∧
      ∀ password, (ncAuthSupplyPassword a password).2 = []) ∧
    ∀ msg, ¬EndsIdle a (.feed msg) →
      (ncAuthFeed M .unset a msg).auth.state ≠ .pending ∧
        ncAuthNeeds (ncAuthFeed M .unset a msg).auth ≠ .nothing := by
  have hinit : (ncAuthClientInit sid user).Settled := ⟨rfl, fun h => absurd rfl h⟩
  have hset := hinit.run ops hok
  refine ⟨fun hend => ?_, fun msg hbad => ?_⟩
  · have hneed := hset.2 hend
    refine ⟨hneed, fun sk pk => ?_, fun password => ?_⟩
    · rw [ncAuthSupplyKey_quiet hneed]
    · rw [ncAuthSupplyPassword_quiet hneed]
  · simp only [EndsIdle, Classical.not_imp] at hbad
    obtain ⟨hpending, hfits, hends, hneed⟩ := hbad
    obtain ⟨-, hstate, hsame⟩ := ncAuthFeed_ends (M := M) hset.1 hpending hfits hends
    exact ⟨hstate, fun h => hneed (hsame.symm.trans h)⟩

/-- The password is asked for, sent and refused. -/
theorem ended_needs_nothing_refused :
    let a := [ClientOp.feed [msgMethods, 2], .supplyPassword (some [0x70]),
      .feed [msgFail, 0]].foldl (Auth.clientStep .sample) (ncAuthClientInit zero32 none)
    a.state = .denied ∧ ncAuthNeeds a = .nothing := by
  refine ⟨by decide +kernel, ((ended_needs_nothing zero32 none _ ?_).1 (by decide +kernel)).1⟩
  exact ⟨fun _ _ _ => rfl, trivial, fun _ _ _ => by decide +kernel, trivial⟩

/-- A server that says OK while the password is asked for is sent the password. -/
theorem request_outlives_ok :
    let a := [ClientOp.feed [msgMethods, 2], .feed [msgOk]].foldl (Auth.clientStep .sample)
      (ncAuthClientInit zero32 none)
    a.state = .ok ∧ ncAuthNeeds a = .password ∧
      (ncAuthSupplyPassword a (some [0x70])).2 = [[msgPassword, 1, 0x70]] := by
  decide +kernel

/-! ## Each method once -/

/-- A client and the messages it has sent. -/
structure Talk where
  auth : Auth
  sent : List Bytes

variable (M) in
def Talk.step (t : Talk) (op : ClientOp) : Talk :=
  ⟨(t.auth.clientCall M op).1, t.sent ++ (t.auth.clientCall M op).2⟩

/-- How many messages of a type were sent. -/
def sentCount (type : UInt8) (sent : List Bytes) : Nat := sent.countP fun m => m.headD 0 = type

/-- A METHODS message offers nothing that the client has already sent. -/
def OffersNew (t : Talk) : ClientOp → Prop
  | .feed msg => t.auth.state = .pending → msg.headD 0 = msgMethods → msg.length = 2 →
    ((msg.getD 1 0).toUInt32 &&& ncAuthMPubkey ≠ 0 → sentCount msgPubkey t.sent = 0) ∧
      ((msg.getD 1 0).toUInt32 &&& ncAuthMPassword ≠ 0 → sentCount msgPassword t.sent = 0)
  | _ => True

/-- A method that was sent `n` times: it is asked for before it is sent, and while it is asked
for and after it was sent it is not available. -/
structure Auth.Once (bit : UInt32) (need : Need) (n : Nat) (a : Auth) : Prop where
  count : n ≤ 1
  asked : a.need = need → n = 0
  spent : a.need = need ∨ n ≠ 0 → a.avail &&& bit = 0

structure Talk.Once (t : Talk) : Prop where
  client : t.auth.server = false
  pubkey : t.auth.Once ncAuthMPubkey .key (sentCount msgPubkey t.sent)
  password : t.auth.Once ncAuthMPassword .password (sentCount msgPassword t.sent)

section Once

variable {a : Auth} {bit : UInt32} {need : Need} {n : Nat}

theorem and_clear (x b : UInt32) : x &&& ~~~b &&& b = 0 := by
  rw [UInt32.and_assoc, UInt32.not_and_self, UInt32.and_zero]

theorem and_keeps {x b : UInt32} (h : x &&& b = 0) (y : UInt32) : x &&& y &&& b = 0 := by
  rw [UInt32.and_assoc, UInt32.and_comm y b, ← UInt32.and_assoc, h, UInt32.zero_and]

theorem Auth.Once.shrink (h : a.Once bit need n) {a' : Auth}
    (hneed : a'.need = a.need ∨ a'.need ≠ need)
    (havail : a.avail &&& bit = 0 → a'.avail &&& bit = 0) : a'.Once bit need n := by
  have hback : a'.need = need → a.need = need := by
    intro h'
    rcases hneed with heq | hne
    · exact heq ▸ h'
    · exact absurd h' hne
  exact ⟨h.count, fun h' => h.asked (hback h'), fun h' => havail (h.spent (h'.imp_left hback))⟩

theorem tryNext_pubkey (hpending : a.state = .pending) (hn : n ≤ 1)
    (hspent : n ≠ 0 → a.avail &&& ncAuthMPubkey = 0) :
    (clientTryNext a).Once ncAuthMPubkey .key n := by
  unfold clientTryNext
  rw [if_neg (not_not.2 hpending)]
  split_ifs with hkey hpass
  · have hzero : n = 0 := by
      by_contra hno
      exact hkey (hspent hno)
    exact ⟨hn, fun _ => hzero, fun _ => and_clear _ _⟩
  · have hgone : a.avail &&& ncAuthMPubkey = 0 := not_not.1 hkey
    exact ⟨hn, fun h => Need.noConfusion h, fun _ => and_keeps hgone _⟩
  · exact ⟨hn, fun h => Need.noConfusion h, fun _ => not_not.1 hkey⟩

theorem tryNext_password (hpending : a.state = .pending) (hn : n ≤ 1)
    (hspent : n ≠ 0 → a.avail &&& ncAuthMPassword = 0) :
    (clientTryNext a).Once ncAuthMPassword .password n := by
  unfold clientTryNext
  rw [if_neg (not_not.2 hpending)]
  split_ifs with hkey hpass
  · refine ⟨hn, fun h => Need.noConfusion h, fun h => ?_⟩
    rcases h with h | h
    · exact Need.noConfusion h
    · exact and_keeps (hspent h) _
  · have hzero : n = 0 := by
      by_contra hno
      exact hpass (hspent hno)
    exact ⟨hn, fun _ => hzero, fun _ => and_clear _ _⟩
  · exact ⟨hn, fun h => Need.noConfusion h, fun _ => not_not.1 hpass⟩

end Once

section Talk

variable {t : Talk}

theorem Talk.Once.tryNext (h : t.Once) {a : Auth} (hclient : a.server = false)
    (hpending : a.state = .pending)
    (hkey : sentCount msgPubkey t.sent ≠ 0 → a.avail &&& ncAuthMPubkey = 0)
    (hpass : sentCount msgPassword t.sent ≠ 0 → a.avail &&& ncAuthMPassword = 0) :
    Talk.Once ⟨clientTryNext a, t.sent⟩ where
  client := (clientTryNext_server a).trans hclient
  pubkey := tryNext_pubkey hpending h.pubkey.count hkey
  password := tryNext_password hpending h.password.count hpass

theorem Talk.Once.skip (h : t.Once) :
    Talk.Once ⟨clientTryNext { t.auth with need := .nothing }, t.sent⟩ := by
  by_cases hpending : t.auth.state = .pending
  · exact h.tryNext h.client hpending (fun hn => h.pubkey.spent (Or.inr hn))
      fun hn => h.password.spent (Or.inr hn)
  · have hsame : clientTryNext { t.auth with need := .nothing } =
        { t.auth with need := .nothing } := if_pos hpending
    rw [hsame]
    exact ⟨h.client, h.pubkey.shrink (Or.inr Need.noConfusion) id,
      h.password.shrink (Or.inr Need.noConfusion) id⟩

theorem sentCount_snoc (type x : UInt8) (sent : List Bytes) (m : Bytes) :
    sentCount type (sent ++ [x :: m]) = sentCount type sent + if x = type then 1 else 0 := by
  unfold sentCount
  rw [List.countP_append]
  by_cases hx : x = type <;> simp [hx]

theorem Auth.Once.send {a : Auth} {bit : UInt32} {need : Need} {n : Nat} (h : a.Once bit need n)
    (hneed : a.need = need) (hask : need ≠ .nothing) :
    ({ a with need := .nothing } : Auth).Once bit need (n + 1) where
  count := by rw [h.asked hneed]
  asked := fun h' => absurd h'.symm hask
  spent := fun _ => h.spent (Or.inl hneed)

theorem Talk.Once.supplyKey (h : t.Once) (sk : Option (Vector UInt8 64)) (pk : Option Key) :
    (t.step M (.supplyKey sk pk)).Once := by
  change Talk.Once ⟨(ncAuthSupplyKey M t.auth sk pk).1,
    t.sent ++ (ncAuthSupplyKey M t.auth sk pk).2⟩
  unfold ncAuthSupplyKey
  split_ifs with hno
  · rw [List.append_nil]
    exact h
  · have hneed : t.auth.need = .key := by
      by_contra hne
      exact hno (Or.inr hne)
    dsimp only
    split
    · rw [List.cons_append]
      refine ⟨h.client, ?_, ?_⟩
      · rw [sentCount_snoc, if_pos rfl]
        exact h.pubkey.send hneed Need.noConfusion
      · rw [sentCount_snoc, if_neg (by decide), Nat.add_zero]
        exact h.password.shrink (Or.inr Need.noConfusion) id
    · rw [List.append_nil]
      exact h.skip

theorem Talk.Once.supplyPassword (h : t.Once) (password : Option Bytes) :
    (t.step M (.supplyPassword password)).Once := by
  change Talk.Once ⟨(ncAuthSupplyPassword t.auth password).1,
    t.sent ++ (ncAuthSupplyPassword t.auth password).2⟩
  unfold ncAuthSupplyPassword
  split_ifs with hno
  · rw [List.append_nil]
    exact h
  · have hneed : t.auth.need = .password := by
      by_contra hne
      exact hno (Or.inr hne)
    dsimp only
    split
    · rw [List.append_nil]
      exact h.skip
    · split_ifs
      · rw [List.append_nil]
        exact h.skip
      · refine ⟨h.client, ?_, ?_⟩
        · rw [sentCount_snoc, if_neg (by decide), Nat.add_zero]
          exact h.pubkey.shrink (Or.inr Need.noConfusion) id
        · rw [sentCount_snoc, if_pos rfl]
          exact h.password.send hneed Need.noConfusion

theorem Talk.Once.finish (h : t.Once) {a : Auth} (hclient : a.server = false)
    (hneed : a.need = t.auth.need) (havail : a.avail = t.auth.avail ∨ a.avail = 0) :
    Talk.Once ⟨a, t.sent⟩ := by
  have hless : ∀ {bit : UInt32}, t.auth.avail &&& bit = 0 → a.avail &&& bit = 0 := by
    intro bit hbit
    rcases havail with heq | hzero
    · rw [heq]
      exact hbit
    · rw [hzero, UInt32.zero_and]
  exact ⟨hclient, h.pubkey.shrink (Or.inl hneed) hless, h.password.shrink (Or.inl hneed) hless⟩

theorem Talk.Once.clientFeed (h : t.Once) (hpending : t.auth.state = .pending) {msg : Bytes}
    (hnew : OffersNew t (.feed msg)) :
    match clientFeed t.auth msg with
      | none => True
      | some a => Talk.Once ⟨a, t.sent⟩ := by
  unfold NetchanAuth.clientFeed
  by_cases hm : msg.headD 0 = msgMethods
  · rw [if_pos hm]
    by_cases hlen : msg.length = 2
    · rw [if_neg (not_not.2 hlen)]
      dsimp only
      obtain ⟨hkey, hpass⟩ := hnew hpending hm hlen
      split_ifs with hzero
      · exact h.finish h.client rfl (Or.inr hzero)
      · refine h.tryNext h.client hpending (fun hn => ?_) fun hn => ?_
        · by_contra hbit
          exact hn (hkey hbit)
        · by_contra hbit
          exact hn (hpass hbit)
    · rw [if_pos hlen]
      trivial
  · rw [if_neg hm]
    split_ifs
    · exact h.finish h.client rfl (Or.inl rfl)
    · trivial
    · exact h.tryNext h.client hpending (fun hn => and_keeps (h.pubkey.spent (Or.inr hn)) _)
        fun hn => and_keeps (h.password.spent (Or.inr hn)) _
    · trivial

theorem Talk.Once.feed (h : t.Once) {msg : Bytes} (hnew : OffersNew t (.feed msg)) :
    (t.step M (.feed msg)).Once := by
  change Talk.Once ⟨(ncAuthFeed M .unset t.auth msg).auth,
    t.sent ++ (ncAuthFeed M .unset t.auth msg).sent⟩
  by_cases hlook : t.auth.state = .pending ∧ Fits msg
  · have hfed := h.clientFeed hlook.1 hnew
    rw [ncAuthFeed_client h.client hlook.1 hlook.2]
    cases heq : NetchanAuth.clientFeed t.auth msg with
    | none =>
      dsimp only
      rw [List.append_nil]
      exact h.finish h.client rfl (Or.inl rfl)
    | some a =>
      rw [heq] at hfed
      dsimp only
      rw [List.append_nil]
      exact hfed
  · rw [ncAuthFeed_ignored hlook, List.append_nil]
    exact h

theorem Talk.Once.step (h : t.Once) {op : ClientOp} (hnew : OffersNew t op) :
    (t.step M op).Once := by
  cases op with
  | feed msg => exact h.feed hnew
  | supplyKey sk pk => exact h.supplyKey sk pk
  | supplyPassword password => exact h.supplyPassword password

theorem Talk.Once.run (h : t.Once) (ops : List ClientOp)
    (hnew : Guarded OffersNew (Talk.step M) t ops) : (ops.foldl (Talk.step M) t).Once := by
  induction ops generalizing t with
  | nil => exact h
  | cons op ops ih => exact ih (h.step hnew.1) hnew.2

end Talk

/-- A server that offers no method again sees each credential at most once. -/
theorem methods_once (sid : Key) (user : Option Bytes) (ops : List ClientOp)
    (hnew : Guarded OffersNew (Talk.step M) ⟨ncAuthClientInit sid user, []⟩ ops) :
    let t := ops.foldl (Talk.step M) ⟨ncAuthClientInit sid user, []⟩
    sentCount msgPubkey t.sent ≤ 1 ∧ sentCount msgPassword t.sent ≤ 1 := by
  have hinit : Talk.Once ⟨ncAuthClientInit sid user, []⟩ := by
    exact ⟨rfl, ⟨Nat.zero_le _, fun _ => rfl, fun _ => UInt32.zero_and⟩,
      ⟨Nat.zero_le _, fun _ => rfl, fun _ => UInt32.zero_and⟩⟩
  have honce := hinit.run ops hnew
  exact ⟨honce.pubkey.count, honce.password.count⟩

instance (t : Talk) (op : ClientOp) : Decidable (OffersNew t op) :=
  match op with
  | .feed _ => inferInstanceAs (Decidable (_ → _ → _ → _ ∧ _))
  | .supplyKey _ _ | .supplyPassword _ => inferInstanceAs (Decidable True)

/-- A second METHODS message that offers only the key. -/
theorem methods_once_refused :
    let t := [ClientOp.feed [msgMethods, 2], .supplyPassword (some [0x70]),
      .feed [msgMethods, 1], .supplyKey none none].foldl (Talk.step .sample)
        ⟨ncAuthClientInit zero32 none, []⟩
    t.sent = [[msgPassword, 1, 0x70]] ∧ sentCount msgPassword t.sent ≤ 1 := by
  exact ⟨by decide +kernel, (methods_once zero32 none _ (by decide +kernel)).2⟩

/-- A server that repeats its METHODS message is sent the password again. -/
theorem password_repeated :
    let t := [ClientOp.feed [msgMethods, 2], .supplyPassword (some [0x70]),
      .feed [msgMethods, 2], .supplyPassword (some [0x70])].foldl (Talk.step .sample)
        ⟨ncAuthClientInit zero32 none, []⟩
    t.sent = [[msgPassword, 1, 0x70], [msgPassword, 1, 0x70]] ∧
      ¬sentCount msgPassword t.sent ≤ 1 := by
  decide +kernel

end MechanicalResearcher.NetchanAuth
