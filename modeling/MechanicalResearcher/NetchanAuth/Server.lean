import MechanicalResearcher.NetchanAuth.Client

/-!
# The server of the login

`ServerCase` lists everything a message can do to a server.  From it come the facts
about whole conversations: who gets in, that the end is final, and how many credentials
are looked at (`server_safety`).
-/

namespace MechanicalResearcher.NetchanAuth

variable (M : Monocypher)

/-! ## Methods -/

inductive Method
  | pubkey | password
  deriving DecidableEq, Repr

def Method.bit : Method → UInt32
  | .pubkey => ncAuthMPubkey
  | .password => ncAuthMPassword

def Method.type : Method → UInt8
  | .pubkey => msgPubkey
  | .password => msgPassword

/-- The length test of the message. -/
def Method.wellFormed (msg : Bytes) : Method → Prop
  | .pubkey => msg.length = 1 + 32 + 64
  | .password => 2 ≤ msg.length ∧ (msg.getD 1 0).toNat ≤ ncAuthMaxPass - 1 ∧
      msg.length = 2 + (msg.getD 1 0).toNat

/-- The credential of the message is good for `user` in the session `sid`. -/
def Method.verified (cb : AuthServerCb) (sid : Key) (user msg : Bytes) : Method → Prop
  | .pubkey =>
    M.eddsaCheck (rdVector 64 (msg.drop 33)) (rdVector 32 (msg.drop 1))
        (ncAuthSignedDigest M sid user (rdVector 32 (msg.drop 1))).toList = true ∧
      ∃ checkKey, cb.checkKey = some checkKey ∧ checkKey user (rdVector 32 (msg.drop 1)) = true
  | .password => ∃ checkPassword, cb.checkPassword = some checkPassword ∧
      checkPassword user (cString (msg.drop 2)) = true

/-- The name in a HELLO. -/
def helloName (msg : Bytes) : Bytes := cString (msg.drop 2)

/-- A server after a HELLO. -/
def greet (cb : AuthServerCb) (a : Auth) (msg : Bytes) : Auth :=
  { a with
    user := helloName msg
    greeted := true
    avail := offered cb (helloName msg)
    state := if offered cb (helloName msg) = 0 then .denied else a.state }

/-! ## What one message does -/

inductive ServerCase (cb : AuthServerCb) (a : Auth) (msg : Bytes) : FedAuth → Prop
  | ignored : ¬(a.state = .pending ∧ Fits msg) → ServerCase cb a msg ⟨a, [], false⟩
  | malformed : a.state = .pending → ServerCase cb a msg ⟨{ a with state := .denied }, [], false⟩
  | hello : a.state = .pending → msg.headD 0 = msgHello → a.greeted = false →
      ServerCase cb a msg
        ⟨greet cb a msg, [serverReply msgMethods (offered cb (helloName msg)) true], true⟩
  | refused (m : Method) : a.state = .pending → a.greeted = true → msg.headD 0 = m.type →
      a.avail &&& m.bit = 0 →
      ServerCase cb a msg ⟨(serverDeny a 0).1, (serverDeny a 0).2, true⟩
  | failed (m : Method) : a.state = .pending → a.greeted = true → msg.headD 0 = m.type →
      a.avail &&& m.bit ≠ 0 →
      ServerCase cb a msg ⟨(serverDeny a m.bit).1, (serverDeny a m.bit).2, true⟩
  | accepted (m : Method) : a.state = .pending → a.greeted = true → msg.headD 0 = m.type →
      m.wellFormed msg → a.avail &&& m.bit ≠ 0 → m.verified M cb a.sid a.user msg →
      ServerCase cb a msg ⟨{ a with state := .ok }, [serverReply msgOk 0 false], true⟩

variable {M}

theorem serverHello_some {cb : AuthServerCb} {a : Auth} {msg : Bytes} {r : Auth × List Bytes}
    (h : serverHello cb a msg = some r) :
    a.greeted = false ∧
      r = (greet cb a msg, [serverReply msgMethods (offered cb (helloName msg)) true]) := by
  unfold serverHello at h
  split at h
  · cases h
  · next hno =>
    dsimp only at h
    split at h
    · cases h
    · cases h
      refine ⟨by simpa using (not_or.1 hno).1, ?_⟩
      by_cases hnone : offered cb (helloName msg) = 0
      · have hnone' : offered cb (cString (msg.drop 2)) = 0 := hnone
        simp only [greet, helloName, hnone', if_true]
      · have hsome : offered cb (cString (msg.drop 2)) ≠ 0 := hnone
        simp only [greet, helloName, hsome, if_false]

theorem serverPubkey_some {cb : AuthServerCb} {a : Auth} {msg : Bytes} {r : Auth × List Bytes}
    (hpending : a.state = .pending) (htype : msg.headD 0 = msgPubkey)
    (h : serverPubkey M cb a msg = some r) : ServerCase M cb a msg ⟨r.1, r.2, true⟩ := by
  unfold serverPubkey at h
  split at h
  · cases h
  · next hno =>
    obtain ⟨hgreeted, hlen⟩ := not_or.1 hno
    have hgreeted' : a.greeted = true := by simpa using hgreeted
    split at h
    · next hbit =>
      cases h
      exact .refused .pubkey hpending hgreeted' htype hbit
    · next hbit =>
      split at h
      · next hok =>
        cases h
        refine .accepted .pubkey hpending hgreeted' htype (not_not.1 hlen) hbit ?_
        simp only [keyAccepted, Bool.and_eq_true] at hok
        refine ⟨hok.1, ?_⟩
        cases hcheck : cb.checkKey with
        | none => simp [hcheck] at hok
        | some checkKey => exact ⟨checkKey, rfl, by simpa [hcheck] using hok.2⟩
      · cases h
        exact .failed .pubkey hpending hgreeted' htype hbit

theorem serverPassword_some {cb : AuthServerCb} {a : Auth} {msg : Bytes} {r : Auth × List Bytes}
    (hpending : a.state = .pending) (htype : msg.headD 0 = msgPassword)
    (h : serverPassword cb a msg = some r) : ServerCase M cb a msg ⟨r.1, r.2, true⟩ := by
  unfold serverPassword at h
  split at h
  · cases h
  · next hno =>
    obtain ⟨hgreeted, hshort⟩ := not_or.1 hno
    have hgreeted' : a.greeted = true := by simpa using hgreeted
    dsimp only at h
    split at h
    · cases h
    · next hlen =>
      obtain ⟨hplen, hlen'⟩ := not_or.1 hlen
      split at h
      · next hbit =>
        cases h
        exact .refused .password hpending hgreeted' htype hbit
      · next hbit =>
        split at h
        · next hok =>
          cases h
          refine .accepted .password hpending hgreeted' htype
            ⟨Nat.not_lt.1 hshort, Nat.not_lt.1 hplen, not_not.1 hlen'⟩ hbit ?_
          unfold passwordAccepted at hok
          cases hcheck : cb.checkPassword with
          | none => simp [hcheck] at hok
          | some checkPassword => exact ⟨checkPassword, hcheck, by simpa [hcheck] using hok⟩
        · cases h
          exact .failed .password hpending hgreeted' htype hbit

theorem ncAuthFeed_server {a : Auth} (hserver : a.server = true) (cb : AuthServerCb)
    (msg : Bytes) : ServerCase M cb a msg (ncAuthFeed M cb a msg) := by
  by_cases hlook : a.state = .pending ∧ Fits msg
  · obtain ⟨hpending, hfits⟩ := hlook
    have hguard : ¬(msg.length < 1 ∨ msg.length > ncAuthMaxMsg ∨ a.state ≠ .pending) := by
      rintro (h | h | h)
      · exact absurd hfits.1 (Nat.not_le.2 h)
      · exact absurd hfits.2 (Nat.not_le.2 h)
      · exact h hpending
    unfold ncAuthFeed
    rw [if_neg hguard]
    dsimp only
    rw [if_pos hserver]
    cases hfeed : serverFeed M cb a msg with
    | none =>
      exact .malformed hpending
    | some r =>
      dsimp only
      unfold serverFeed at hfeed
      split at hfeed
      · next htype =>
        obtain ⟨hgreeted, rfl⟩ := serverHello_some hfeed
        exact .hello hpending htype hgreeted
      · split at hfeed
        · next htype => exact serverPubkey_some hpending htype hfeed
        · split at hfeed
          · next htype => exact serverPassword_some hpending htype hfeed
          · cases hfeed
  · rw [ncAuthFeed_ignored hlook]
    exact .ignored hlook

/-! ## Conversations -/

variable (M) in
/-- A server that was fed a list of messages, each with what the callbacks answer to it. -/
def Auth.serve (a : Auth) (inputs : List (AuthServerCb × Bytes)) : Auth :=
  inputs.foldl (fun a input => (ncAuthFeed M input.1 a input.2).auth) a

theorem Auth.serve_take_succ (a : Auth) {inputs : List (AuthServerCb × Bytes)} {i : Nat}
    {cb : AuthServerCb} {msg : Bytes} (h : inputs[i]? = some (cb, msg)) :
    a.serve M (inputs.take (i + 1)) = (ncAuthFeed M cb (a.serve M (inputs.take i)) msg).auth := by
  rw [List.take_add_one, h]
  simp [Auth.serve]

theorem serverDeny_keeps (a : Auth) (spent : UInt32) :
    (serverDeny a spent).1.server = a.server ∧ (serverDeny a spent).1.greeted = a.greeted ∧
      (serverDeny a spent).1.sid = a.sid ∧ (serverDeny a spent).1.user = a.user := by
  unfold serverDeny
  dsimp only
  split <;> exact ⟨rfl, rfl, rfl, rfl⟩

theorem ServerCase.keeps {cb : AuthServerCb} {a : Auth} {msg : Bytes} {r : FedAuth}
    (h : ServerCase M cb a msg r) : r.auth.server = a.server ∧ r.auth.sid = a.sid := by
  cases h with
  | ignored | malformed | hello | accepted => exact ⟨rfl, rfl⟩
  | refused m => exact ⟨(serverDeny_keeps a 0).1, (serverDeny_keeps a 0).2.2.1⟩
  | failed m => exact ⟨(serverDeny_keeps a m.bit).1, (serverDeny_keeps a m.bit).2.2.1⟩

theorem Auth.serve_server {a : Auth} (h : a.server = true)
    (inputs : List (AuthServerCb × Bytes)) :
    (a.serve M inputs).server = true ∧ (a.serve M inputs).sid = a.sid := by
  induction inputs generalizing a with
  | nil => exact ⟨h, rfl⟩
  | cons input inputs ih =>
    obtain ⟨hserver, hsid⟩ := (ncAuthFeed_server (M := M) h input.1 input.2).keeps
    obtain ⟨h1, h2⟩ := ih (hserver.trans h)
    exact ⟨h1, h2.trans hsid⟩

theorem Auth.serve_ended {a : Auth} (h : a.state ≠ .pending)
    (inputs : List (AuthServerCb × Bytes)) : a.serve M inputs = a := by
  induction inputs with
  | nil => rfl
  | cons input inputs ih =>
    change ((ncAuthFeed M input.1 a input.2).auth).serve M inputs = a
    rw [ncAuthFeed_ignored fun hno => h hno.1]
    exact ih

section History

variable (M) (a0 : Auth) (inputs : List (AuthServerCb × Bytes))

/-- Message `h` is a HELLO that was accepted. -/
def HelloAt (h : Nat) : Prop :=
  (a0.serve M (inputs.take h)).greeted = false ∧
    (a0.serve M (inputs.take (h + 1))).greeted = true

/-- Message `j` was a credential of method `m`, looked at and not accepted. -/
def FailedAt (m : Method) (j : Nat) : Prop :=
  ∃ cb msg, inputs[j]? = some (cb, msg) ∧ Fits msg ∧ msg.headD 0 = m.type ∧
    (a0.serve M (inputs.take j)).state = .pending ∧
    (a0.serve M (inputs.take j)).avail &&& m.bit ≠ 0 ∧
    (a0.serve M (inputs.take (j + 1))).state ≠ .ok

end History

/-! ## The server before and after its HELLO -/

/-- What a server knows after the messages before `i`: nothing, or the name of its one
HELLO and the methods `methods` offered for it that no failure has spent. -/
structure Known (M : Monocypher) (a0 : Auth) (inputs : List (AuthServerCb × Bytes)) (i : Nat)
    (a : Auth) : Prop where
  silent : a.greeted = false → a.avail = 0 ∧ (∀ h < i, ¬HelloAt M a0 inputs h) ∧
    ∀ m, ∀ j < i, ¬FailedAt M a0 inputs m j
  named : a.greeted = true → ∃ h cb msg, h < i ∧ inputs[h]? = some (cb, msg) ∧
    msg.headD 0 = msgHello ∧ HelloAt M a0 inputs h ∧
    (∀ h' < i, HelloAt M a0 inputs h' → h' = h) ∧ a.user = helloName msg ∧
    (a.state = .pending → ∀ m : Method, a.avail &&& m.bit ≠ 0 →
      offered cb (helloName msg) &&& m.bit ≠ 0 ∧ ∀ j < i, ¬FailedAt M a0 inputs m j)

theorem and_not_and (x s b : UInt32) (h : x &&& ~~~s &&& b ≠ 0) : x &&& b ≠ 0 := by
  intro hzero
  apply h
  rw [UInt32.and_assoc, UInt32.and_comm (~~~s), ← UInt32.and_assoc, hzero, UInt32.zero_and]

theorem and_not_self_and (x b : UInt32) : x &&& ~~~b &&& b = 0 := by
  rw [UInt32.and_assoc, UInt32.and_comm (~~~b), UInt32.and_not_self, UInt32.and_zero]

theorem serverDeny_avail {a : Auth} {spent b : UInt32}
    (h : (serverDeny a spent).1.avail &&& b ≠ 0) : a.avail &&& b ≠ 0 ∧ b ≠ spent := by
  unfold serverDeny at h
  dsimp only at h
  split at h
  · exact absurd UInt32.zero_and h
  · refine ⟨and_not_and _ spent _ h, ?_⟩
    rintro rfl
    exact h (and_not_self_and _ _)

theorem serverDeny_state {a : Auth} (h : a.state = .pending) (spent : UInt32) :
    (serverDeny a spent).1.state ≠ .ok := by
  unfold serverDeny
  dsimp only
  split
  · exact AuthState.noConfusion
  · rw [h]
    exact AuthState.noConfusion

theorem Method.type_injective {m m' : Method} (h : m.type = m'.type) : m = m' := by
  cases m <;> cases m' <;> first | rfl | cases h

theorem Method.type_ne_hello (m : Method) : m.type ≠ msgHello := by
  cases m <;> decide

section Step

variable {a0 : Auth} {inputs : List (AuthServerCb × Bytes)} {i : Nat} {cb : AuthServerCb}
  {msg : Bytes}

theorem Known.deny (h : Known M a0 inputs i (a0.serve M (inputs.take i)))
    (hi : inputs[i]? = some (cb, msg)) {m : Method}
    (hpending : (a0.serve M (inputs.take i)).state = .pending)
    (hgreeted : (a0.serve M (inputs.take i)).greeted = true) (htype : msg.headD 0 = m.type)
    {spent : UInt32}
    (hspent : (a0.serve M (inputs.take i)).avail &&& m.bit = 0 ∨ spent = m.bit) :
    Known M a0 inputs (i + 1) (serverDeny (a0.serve M (inputs.take i)) spent).1 := by
  obtain ⟨-, hkeep, -, huser⟩ := serverDeny_keeps (a0.serve M (inputs.take i)) spent
  refine ⟨fun hno => ?_, fun _ => ?_⟩
  · rw [hkeep, hgreeted] at hno
    cases hno
  · obtain ⟨h0, cb0, msg0, hlt, hget, hhello, hat, huniq, hname, hopen⟩ := h.named hgreeted
    refine ⟨h0, cb0, msg0, by omega, hget, hhello, hat, fun h' hh' hat' => ?_, huser.trans hname,
      fun _ m' hbit => ?_⟩
    · rcases Nat.lt_succ_iff_lt_or_eq.1 hh' with hlt' | rfl
      · exact huniq h' hlt' hat'
      · rw [hat'.1] at hgreeted
        cases hgreeted
    · obtain ⟨hbit', hne⟩ := serverDeny_avail hbit
      obtain ⟨hoff, hfail⟩ := hopen hpending m' hbit'
      refine ⟨hoff, fun j hj hfailed => ?_⟩
      rcases Nat.lt_succ_iff_lt_or_eq.1 hj with hlt' | rfl
      · exact hfail j hlt' hfailed
      · obtain ⟨cb', msg', hget', -, htype', -⟩ := hfailed
        rw [hi] at hget'
        cases hget'
        have hm : m = m' := Method.type_injective (htype.symm.trans htype')
        subst hm
        rcases hspent with hzero | heq
        · exact hbit' hzero
        · exact hne heq.symm

theorem Known.idle (h : Known M a0 inputs i (a0.serve M (inputs.take i)))
    (hi : inputs[i]? = some (cb, msg)) {st : AuthState}
    (hnext : a0.serve M (inputs.take (i + 1)) = { a0.serve M (inputs.take i) with state := st })
    (hwhy : st ≠ .pending ∨ (a0.serve M (inputs.take i)).state = st ∧ ¬Fits msg) :
    Known M a0 inputs (i + 1) { a0.serve M (inputs.take i) with state := st } := by
  have hnot : ¬HelloAt M a0 inputs i := by
    rintro ⟨hno, hyes⟩
    rw [hnext] at hyes
    rw [hno] at hyes
    cases hyes
  refine ⟨fun hno => ?_, fun hyes => ?_⟩
  · obtain ⟨havail, hhello, hfail⟩ := h.silent hno
    refine ⟨havail, fun h' hh' hat => ?_, fun m j hj hfailed => ?_⟩
    · rcases Nat.lt_succ_iff_lt_or_eq.1 hh' with hlt | rfl
      · exact hhello h' hlt hat
      · exact hnot hat
    · rcases Nat.lt_succ_iff_lt_or_eq.1 hj with hlt | rfl
      · exact hfail m j hlt hfailed
      · obtain ⟨_, _, -, -, -, -, hbit, -⟩ := hfailed
        rw [havail] at hbit
        exact hbit UInt32.zero_and
  · obtain ⟨h0, cb0, msg0, hlt, hget, hhello, hat, huniq, hname, hopen⟩ := h.named hyes
    refine ⟨h0, cb0, msg0, by omega, hget, hhello, hat, fun h' hh' hat' => ?_, hname,
      fun hp m hbit => ?_⟩
    · rcases Nat.lt_succ_iff_lt_or_eq.1 hh' with hlt' | rfl
      · exact huniq h' hlt' hat'
      · exact absurd hat' hnot
    · obtain ⟨hst, hlong⟩ := hwhy.resolve_left (not_not.2 hp)
      obtain ⟨hoff, hfail⟩ := hopen (hst.trans hp) m hbit
      refine ⟨hoff, fun j hj hfailed => ?_⟩
      rcases Nat.lt_succ_iff_lt_or_eq.1 hj with hlt' | rfl
      · exact hfail j hlt' hfailed
      · obtain ⟨cb', msg', hget', hfits, -⟩ := hfailed
        rw [hi] at hget'
        cases hget'
        exact hlong hfits

theorem Known.hello (h : Known M a0 inputs i (a0.serve M (inputs.take i)))
    (hi : inputs[i]? = some (cb, msg)) (htype : msg.headD 0 = msgHello)
    (hgreeted : (a0.serve M (inputs.take i)).greeted = false)
    (hnext : a0.serve M (inputs.take (i + 1)) = greet cb (a0.serve M (inputs.take i)) msg) :
    Known M a0 inputs (i + 1) (greet cb (a0.serve M (inputs.take i)) msg) := by
  obtain ⟨-, hhello, hfail⟩ := h.silent hgreeted
  refine ⟨fun hno => Bool.noConfusion hno, fun _ => ?_⟩
  refine ⟨i, cb, msg, Nat.lt_succ_self i, hi, htype, ⟨hgreeted, by rw [hnext]; rfl⟩,
    fun h' hh' hat => ?_, rfl, fun _ m hbit => ⟨hbit, fun j hj hfailed => ?_⟩⟩
  · rcases Nat.lt_succ_iff_lt_or_eq.1 hh' with hlt | rfl
    · exact absurd hat (hhello h' hlt)
    · rfl
  · rcases Nat.lt_succ_iff_lt_or_eq.1 hj with hlt | rfl
    · exact hfail m j hlt hfailed
    · obtain ⟨cb', msg', hget', -, htype', -⟩ := hfailed
      rw [hi] at hget'
      cases hget'
      exact m.type_ne_hello (htype'.symm.trans htype)

theorem Known.step (hserver : a0.server = true)
    (h : Known M a0 inputs i (a0.serve M (inputs.take i))) (hi : inputs[i]? = some (cb, msg)) :
    Known M a0 inputs (i + 1) (a0.serve M (inputs.take (i + 1))) := by
  have hnext := a0.serve_take_succ (M := M) hi
  have hcase := ncAuthFeed_server (M := M) (a0.serve_server (M := M) hserver (inputs.take i)).1 cb
    msg
  generalize hr : ncAuthFeed M cb (a0.serve M (inputs.take i)) msg = r at hcase hnext
  cases hcase with
  | ignored hno =>
    rw [hnext]
    refine h.idle hi hnext ?_
    by_cases hp : (a0.serve M (inputs.take i)).state = .pending
    · exact .inr ⟨rfl, fun hfits => hno ⟨hp, hfits⟩⟩
    · exact .inl hp
  | malformed hp =>
    rw [hnext]
    exact h.idle hi hnext (.inl AuthState.noConfusion)
  | hello hp htype hgreeted =>
    rw [hnext]
    exact h.hello hi htype hgreeted hnext
  | refused m hp hgreeted htype hbit =>
    rw [hnext]
    exact h.deny hi hp hgreeted htype (.inl hbit)
  | failed m hp hgreeted htype hbit =>
    rw [hnext]
    exact h.deny hi hp hgreeted htype (.inr rfl)
  | accepted m hp hgreeted htype hform hbit hver =>
    rw [hnext]
    exact h.idle hi hnext (.inl AuthState.noConfusion)

theorem Known.run (hserver : a0.server = true) (hgreeted : a0.greeted = false)
    (havail : a0.avail = 0) (hi : i ≤ inputs.length) :
    Known M a0 inputs i (a0.serve M (inputs.take i)) := by
  induction i with
  | zero =>
    refine ⟨fun _ => ⟨havail, fun h hh => absurd hh (Nat.not_lt_zero h),
      fun m j hj => absurd hj (Nat.not_lt_zero j)⟩, fun hyes => ?_⟩
    exact Bool.noConfusion (hgreeted.symm.trans hyes)
  | succ i ih =>
    have hlt : i < inputs.length := hi
    exact (ih (Nat.le_of_lt hlt)).step hserver (List.getElem?_eq_getElem hlt)

theorem ServerCase.ok {a : Auth} {r : FedAuth} (h : ServerCase M cb a msg r)
    (hbefore : a.state ≠ .ok) (hafter : r.auth.state = .ok) :
    ∃ m : Method, a.state = .pending ∧ a.greeted = true ∧ msg.headD 0 = m.type ∧
      m.wellFormed msg ∧ a.avail &&& m.bit ≠ 0 ∧ m.verified M cb a.sid a.user msg := by
  cases h with
  | ignored => exact absurd hafter hbefore
  | malformed => cases hafter
  | hello hp htype hgreeted =>
    simp only [greet] at hafter
    split at hafter
    · cases hafter
    · exact absurd hafter hbefore
  | refused m hp => exact absurd hafter (serverDeny_state hp 0)
  | failed m hp => exact absurd hafter (serverDeny_state hp m.bit)
  | accepted m hp hgreeted htype hform hbit hver =>
    exact ⟨m, hp, hgreeted, htype, hform, hbit, hver⟩

end Step

/-! ## Tries -/

/-- A credential message of either method. -/
def IsCredential (msg : Bytes) : Prop := msg.headD 0 = msgPubkey ∨ msg.headD 0 = msgPassword

instance (msg : Bytes) : Decidable (IsCredential msg) := inferInstanceAs (Decidable (_ ∨ _))

variable (M) in
/-- The number of credential messages that reach a server before the end. -/
def credentials (a : Auth) : List (AuthServerCb × Bytes) → Nat
  | [] => 0
  | (cb, msg) :: inputs =>
    (if a.state = .pending ∧ Fits msg ∧ IsCredential msg then 1 else 0) +
      credentials (ncAuthFeed M cb a msg).auth inputs

theorem credentials_ended {a : Auth} (h : a.state ≠ .pending)
    (inputs : List (AuthServerCb × Bytes)) : credentials M a inputs = 0 := by
  induction inputs with
  | nil => rfl
  | cons input inputs ih =>
    obtain ⟨cb, msg⟩ := input
    rw [credentials, if_neg fun hno => h hno.1, ncAuthFeed_ignored fun hno => h hno.1, ih]

theorem serverDeny_tries (a : Auth) (spent : UInt32) :
    (serverDeny a spent).1.tries = a.tries + 1 ∧
      ((serverDeny a spent).1.state = .pending → a.tries + 1 < ncAuthMaxTries) := by
  unfold serverDeny
  dsimp only
  split
  · exact ⟨rfl, fun h => AuthState.noConfusion h⟩
  · next hmore => exact ⟨rfl, fun _ => Nat.not_le.1 (not_or.1 hmore).1⟩

theorem credentials_le {a : Auth} (hserver : a.server = true) (hpending : a.state = .pending)
    (htries : a.tries < ncAuthMaxTries) (inputs : List (AuthServerCb × Bytes)) :
    credentials M a inputs + a.tries ≤ ncAuthMaxTries := by
  induction inputs generalizing a with
  | nil =>
    rw [credentials, Nat.zero_add]
    exact htries.le
  | cons input inputs ih =>
    obtain ⟨cb, msg⟩ := input
    have hone : (if a.state = .pending ∧ Fits msg ∧ IsCredential msg then 1 else 0) ≤ 1 := by
      split <;> decide
    have hdenied : ∀ spent, credentials M (serverDeny a spent).1 inputs + (a.tries + 1) ≤
        ncAuthMaxTries := by
      intro spent
      obtain ⟨hcount, hmore⟩ := serverDeny_tries a spent
      by_cases hp : (serverDeny a spent).1.state = .pending
      · rw [← hcount]
        refine ih ((serverDeny_keeps a spent).1.trans hserver) hp ?_
        rw [hcount]
        exact hmore hp
      · rw [credentials_ended hp, Nat.zero_add]
        exact htries
    have hcase := ncAuthFeed_server (M := M) hserver cb msg
    rw [credentials]
    generalize ncAuthFeed M cb a msg = r at hcase
    cases hcase with
    | ignored hno =>
      rw [if_neg fun hyes => hno ⟨hyes.1, hyes.2.1⟩, Nat.zero_add]
      exact ih hserver hpending htries
    | malformed =>
      rw [credentials_ended AuthState.noConfusion]
      omega
    | hello hp htype hgreeted =>
      have hnot : ¬IsCredential msg := by
        rintro (h | h) <;> rw [htype] at h <;> cases h
      rw [if_neg fun hyes => hnot hyes.2.2, Nat.zero_add]
      by_cases hp' : (greet cb a msg).state = .pending
      · exact ih hserver hp' htries
      · rw [credentials_ended hp', Nat.zero_add]
        exact htries.le
    | refused m =>
      have hbound := hdenied 0
      dsimp only
      omega
    | failed m =>
      have hbound := hdenied m.bit
      dsimp only
      omega
    | accepted =>
      rw [credentials_ended AuthState.noConfusion]
      omega

/-- For every list of messages: who gets in, that both ends are final, and how many
credentials are looked at. -/
theorem server_safety (sid : Key) (inputs : List (AuthServerCb × Bytes)) :
    (∀ i cb msg, inputs[i]? = some (cb, msg) →
      ((ncAuthServerInit sid).serve M (inputs.take i)).state ≠ .ok →
      ((ncAuthServerInit sid).serve M (inputs.take (i + 1))).state = .ok →
      ∃ h cb0 hello, h < i ∧ inputs[h]? = some (cb0, hello) ∧ hello.headD 0 = msgHello ∧
        HelloAt M (ncAuthServerInit sid) inputs h ∧
        (∀ h' < i, HelloAt M (ncAuthServerInit sid) inputs h' → h' = h) ∧
        ∃ m : Method, msg.headD 0 = m.type ∧ m.wellFormed msg ∧
          m.verified M cb sid (helloName hello) msg ∧
          offered cb0 (helloName hello) &&& m.bit ≠ 0 ∧
          ∀ j < i, ¬FailedAt M (ncAuthServerInit sid) inputs m j) ∧
    (∀ i, ((ncAuthServerInit sid).serve M (inputs.take i)).state ≠ .pending → ∀ j, i ≤ j →
      ((ncAuthServerInit sid).serve M (inputs.take j)).state =
        ((ncAuthServerInit sid).serve M (inputs.take i)).state) ∧
    credentials M (ncAuthServerInit sid) inputs ≤ ncAuthMaxTries := by
  refine ⟨fun i cb msg hi hbefore hafter => ?_, fun i hend j hij => ?_, ?_⟩
  · have hlen : i < inputs.length := (List.getElem?_eq_some_iff.1 hi).1
    have hknown : Known M (ncAuthServerInit sid) inputs i _ :=
      Known.run rfl rfl rfl hlen.le
    obtain ⟨hserver, hsid⟩ := Auth.serve_server (M := M) (a := ncAuthServerInit sid) rfl
      (inputs.take i)
    rw [Auth.serve_take_succ _ hi] at hafter
    obtain ⟨m, hp, hgreeted, htype, hform, hbit, hver⟩ :=
      (ncAuthFeed_server hserver cb msg).ok hbefore hafter
    obtain ⟨h, cb0, hello, hlt, hget, hhello, hat, huniq, hname, hopen⟩ := hknown.named hgreeted
    obtain ⟨hoff, hfail⟩ := hopen hp m hbit
    rw [hsid, hname] at hver
    exact ⟨h, cb0, hello, hlt, hget, hhello, hat, huniq, m, htype, hform, hver, hoff, hfail⟩
  · have hsplit : inputs.take j = inputs.take i ++ (inputs.take j).drop i := by
      rw [show inputs.take i = (inputs.take j).take i by
        rw [List.take_take, Nat.min_eq_left hij], List.take_append_drop]
    have hrest : (ncAuthServerInit sid).serve M (inputs.take j) =
        ((ncAuthServerInit sid).serve M (inputs.take i)).serve M ((inputs.take j).drop i) := by
      conv_lhs => rw [hsplit]
      simp only [Auth.serve, List.foldl_append]
    rw [hrest, Auth.serve_ended hend]
  · exact credentials_le (M := M) (a := ncAuthServerInit sid) rfl rfl (Nat.zero_lt_succ 5) inputs

/-- A store with one password, for every name. -/
def passwordCb : AuthServerCb := ⟨some fun _ => ncAuthMPassword, none, some fun _ p => p == [0x70]⟩

/-- The name `b`, then its password. -/
def passwordLogin : List (AuthServerCb × Bytes) :=
  [(passwordCb, [msgHello, 1, 0x62]), (passwordCb, [msgPassword, 1, 0x70])]

theorem server_safety_password :
    ((ncAuthServerInit zero32).serve .sample passwordLogin).state = .ok ∧
      ∃ h cb0 hello, h < 1 ∧ passwordLogin[h]? = some (cb0, hello) ∧ hello.headD 0 = msgHello ∧
        HelloAt .sample (ncAuthServerInit zero32) passwordLogin h ∧
        (∀ h' < 1, HelloAt .sample (ncAuthServerInit zero32) passwordLogin h' → h' = h) ∧
        ∃ m : Method, [msgPassword, 1, 0x70].headD 0 = m.type ∧
          m.wellFormed [msgPassword, 1, 0x70] ∧
          m.verified .sample passwordCb zero32 (helloName hello) [msgPassword, 1, 0x70] ∧
          offered cb0 (helloName hello) &&& m.bit ≠ 0 ∧
          ∀ j < 1, ¬FailedAt .sample (ncAuthServerInit zero32) passwordLogin m j :=
  ⟨by decide +kernel, (server_safety zero32 passwordLogin).1 1 passwordCb _ rfl (by decide +kernel)
    (by decide +kernel)⟩

end MechanicalResearcher.NetchanAuth
