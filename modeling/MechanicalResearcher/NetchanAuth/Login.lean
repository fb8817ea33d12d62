import MechanicalResearcher.NetchanAuth.Server

/-!
# One login, both sides

A client and a server exchange their messages over two queues.  At most one message is
under way at any time, and `Phase` says what the two sides know while it is: the joint
invariant every interleaving keeps.
-/

namespace MechanicalResearcher.NetchanAuth

variable (M : Monocypher)

/-! ## The joint run -/

structure Login where
  client : Auth
  server : Auth
  toServer : List Bytes
  toClient : List Bytes
  /-- no `nc_auth_feed` has returned -1 -/
  clean : Bool

inductive LoginMove
  | supplyKey (sk : Option (Vector UInt8 64)) (pk : Option Key)
  | supplyPassword (password : Option Bytes)
  /-- the server is fed the first message for it, and its callbacks answer `cb` -/
  | feedServer (cb : AuthServerCb)
  | feedClient

def Login.start (sidC sidS : Key) (user : Option Bytes) : Login where
  client := ncAuthClientInit sidC user
  server := ncAuthServerInit sidS
  toServer := ncAuthStart (ncAuthClientInit sidC user)
  toClient := []
  clean := true

def Login.step (l : Login) : LoginMove → Login
  | .supplyKey sk pk =>
    let (client, sent) := ncAuthSupplyKey M l.client sk pk
    { l with client := client, toServer := l.toServer ++ sent }
  | .supplyPassword password =>
    let (client, sent) := ncAuthSupplyPassword l.client password
    { l with client := client, toServer := l.toServer ++ sent }
  | .feedServer cb =>
    match l.toServer with
    | [] => l
    | msg :: rest =>
      let fed := ncAuthFeed M cb l.server msg
      { l with
        server := fed.auth
        toServer := rest
        toClient := l.toClient ++ fed.sent
        clean := l.clean && fed.rc }
  | .feedClient =>
    match l.toClient with
    | [] => l
    | msg :: rest =>
      let fed := ncAuthFeed M .unset l.client msg
      { l with
        client := fed.auth
        toClient := rest
        toServer := l.toServer ++ fed.sent
        clean := l.clean && fed.rc }

def Login.run (l : Login) (moves : List LoginMove) : Login := moves.foldl (Login.step M) l

variable {M}

/-! ## Messages under way -/

/-- A message the server answers. -/
def Asks (s : Auth) (msg : Bytes) : Prop :=
  Fits msg ∧
    ((s.greeted = false ∧ msg.headD 0 = msgHello ∧ 2 ≤ msg.length ∧
        (msg.getD 1 0).toNat ≤ ncAuthMaxUser ∧ msg.length = 2 + (msg.getD 1 0).toNat) ∨
      (s.greeted = true ∧ ∃ m : Method, msg.headD 0 = m.type ∧ m.wellFormed msg))

/-- The reply of a server that is now in state `s`. -/
def Answers (s : Auth) (msg : Bytes) : Prop :=
  (msg = [msgOk] ∧ s.state = .ok) ∨
    ∃ type, (type = msgMethods ∨ type = msgFail) ∧ msg = [type, s.avail.toUInt8] ∧
      (s.state = .pending ∨ s.state = .denied ∧ s.avail = 0)

theorem serverFeed_isSome {s : Auth} {msg : Bytes} (h : Asks s msg) (cb : AuthServerCb) :
    (serverFeed M cb s msg).isSome = true := by
  obtain ⟨-, ⟨hgreeted, htype, hlen, hulen, hmsg⟩ | ⟨hgreeted, m, htype, hform⟩⟩ := h
  · have h1 : ¬(s.greeted = true ∨ msg.length < 2) := by
      rintro (h | h)
      · rw [hgreeted] at h
        cases h
      · omega
    have h2 : ¬((msg.getD 1 0).toNat > ncAuthMaxUser ∨ msg.length ≠ 2 + (msg.getD 1 0).toNat) := by
      rintro (h | h)
      · omega
      · exact h hmsg
    unfold serverFeed serverHello
    dsimp only
    rw [if_pos htype, if_neg h1, if_neg h2]
    rfl
  · cases m with
    | pubkey =>
      change msg.headD 0 = msgPubkey at htype
      have h1 : ¬(s.greeted = false ∨ msg.length ≠ 1 + 32 + 64) := by
        rintro (h | h)
        · rw [hgreeted] at h
          cases h
        · exact h hform
      have hno : msg.headD 0 ≠ msgHello := by
        rw [htype]
        decide
      unfold serverFeed serverPubkey
      rw [if_neg hno, if_pos htype, if_neg h1]
      split
      · rfl
      · split <;> rfl
    | password =>
      obtain ⟨hlen, hplen, hmsg⟩ := hform
      change msg.headD 0 = msgPassword at htype
      have h1 : ¬(s.greeted = false ∨ msg.length < 2) := by
        rintro (h | h)
        · rw [hgreeted] at h
          cases h
        · omega
      have h2 : ¬((msg.getD 1 0).toNat > ncAuthMaxPass - 1 ∨
          msg.length ≠ 2 + (msg.getD 1 0).toNat) := by
        rintro (h | h)
        · omega
        · exact h hmsg
      have hno : msg.headD 0 ≠ msgHello := by
        rw [htype]
        decide
      have hno' : msg.headD 0 ≠ msgPubkey := by
        rw [htype]
        decide
      unfold serverFeed serverPassword
      dsimp only
      rw [if_neg hno, if_neg hno', if_pos htype, if_neg h1, if_neg h2]
      split
      · rfl
      · split <;> rfl

theorem ncAuthFeed_asked {s : Auth} (hserver : s.server = true) (hpending : s.state = .pending)
    {msg : Bytes} (h : Asks s msg) (cb : AuthServerCb) :
    ∃ reply, (ncAuthFeed M cb s msg).sent = [reply] ∧ (ncAuthFeed M cb s msg).rc = true ∧
      (ncAuthFeed M cb s msg).auth.server = true ∧
      (ncAuthFeed M cb s msg).auth.greeted = true ∧
      Answers (ncAuthFeed M cb s msg).auth reply := by
  have hrc : (ncAuthFeed M cb s msg).rc = true := by
    have hguard : ¬(msg.length < 1 ∨ msg.length > ncAuthMaxMsg ∨ s.state ≠ .pending) := by
      rintro (hno | hno | hno)
      · exact absurd h.1.1 (Nat.not_le.2 hno)
      · exact absurd h.1.2 (Nat.not_le.2 hno)
      · exact hno hpending
    obtain ⟨r, hr⟩ := Option.isSome_iff_exists.1 (serverFeed_isSome (M := M) h cb)
    unfold ncAuthFeed
    rw [if_neg hguard]
    dsimp only
    rw [if_pos hserver, hr]
  have hdeny : ∀ spent, Answers (serverDeny s spent).1 (serverReply msgFail
      (serverDeny s spent).1.avail true) := by
    intro spent
    refine .inr ⟨msgFail, .inr rfl, rfl, ?_⟩
    unfold serverDeny
    dsimp only
    split
    · exact .inr ⟨rfl, rfl⟩
    · exact .inl hpending
  have hcase := ncAuthFeed_server (M := M) hserver cb msg
  generalize ncAuthFeed M cb s msg = r at hcase hrc
  cases hcase with
  | ignored => cases hrc
  | malformed => cases hrc
  | hello hp htype hgreeted =>
    refine ⟨_, rfl, rfl, hserver, rfl, .inr ⟨msgMethods, .inl rfl, rfl, ?_⟩⟩
    simp only [greet]
    split
    · next hzero => exact .inr ⟨rfl, hzero⟩
    · exact .inl hpending
  | refused m hp hgreeted =>
    obtain ⟨h1, h2, -, -⟩ := serverDeny_keeps s 0
    exact ⟨_, rfl, rfl, h1.trans hserver, h2.trans hgreeted, hdeny 0⟩
  | failed m hp hgreeted =>
    obtain ⟨h1, h2, -, -⟩ := serverDeny_keeps s m.bit
    exact ⟨_, rfl, rfl, h1.trans hserver, h2.trans hgreeted, hdeny m.bit⟩
  | accepted m hp hgreeted => exact ⟨_, rfl, rfl, hserver, hgreeted, .inl ⟨rfl, rfl⟩⟩

theorem clientTryNext_of_zero {c : Auth} (h : c.state = .pending) (havail : c.avail = 0) :
    (clientTryNext c).state = .denied := by
  unfold clientTryNext
  rw [if_neg (by simp [h]), havail, if_neg (by simp), if_neg (by simp)]

theorem clientFeed_methods (c : Auth) (b : UInt8) : clientFeed c [msgMethods, b] =
    some (if b.toUInt32 = 0 then { c with avail := b.toUInt32, state := .denied }
      else clientTryNext { c with avail := b.toUInt32 }) := by
  by_cases hb : b.toUInt32 = 0 <;> simp [clientFeed, hb]

theorem clientFeed_fail (c : Auth) (b : UInt8) : clientFeed c [msgFail, b] =
    some (clientTryNext { c with avail := c.avail &&& b.toUInt32 }) := by
  have h1 : msgFail ≠ msgMethods := by decide
  have h2 : msgFail ≠ msgOk := by decide
  simp [clientFeed, h1, h2]

/-- A waiting client takes the reply of the server.  It asks for a credential only while
the server still listens, and it ends as the server did. -/
theorem ncAuthFeed_answered {c s : Auth} (hclient : c.server = false)
    (hpending : c.state = .pending) {msg : Bytes} (h : Answers s msg) :
    (ncAuthFeed M .unset c msg).sent = [] ∧ (ncAuthFeed M .unset c msg).rc = true ∧
      (ncAuthFeed M .unset c msg).auth.server = false ∧
      (((ncAuthFeed M .unset c msg).auth.state = .pending ∧
          (ncAuthFeed M .unset c msg).auth.need ≠ .nothing ∧ s.state = .pending) ∨
        ((ncAuthFeed M .unset c msg).auth.state = .denied ∧ s.state ≠ .ok) ∨
        ((ncAuthFeed M .unset c msg).auth.state = .ok ∧ s.state = .ok)) := by
  -- the next method, from the mask the server sent
  have htry : ∀ avail, (s.avail = 0 → avail = 0) →
      (s.state = .pending ∨ s.state = .denied ∧ s.avail = 0) →
      (((clientTryNext { c with avail := avail }).state = .pending ∧
          (clientTryNext { c with avail := avail }).need ≠ .nothing ∧ s.state = .pending) ∨
        ((clientTryNext { c with avail := avail }).state = .denied ∧ s.state ≠ .ok)) := by
    intro avail hzero hs
    rcases hs with hs | ⟨hs, hnone⟩
    · rcases clientTryNext_cases (a := { c with avail := avail }) hpending with
        ⟨hp, hneed⟩ | ⟨hd, -⟩
      · exact .inl ⟨hp, hneed, hs⟩
      · exact .inr ⟨hd, by rw [hs]; exact AuthState.noConfusion⟩
    · refine .inr ⟨clientTryNext_of_zero hpending (hzero hnone), ?_⟩
      rw [hs]
      exact AuthState.noConfusion
  rcases h with ⟨rfl, hs⟩ | ⟨type, htype, rfl, hs⟩
  · rw [ncAuthFeed_client hclient hpending (by decide)]
    exact ⟨rfl, rfl, hclient, .inr (.inr ⟨rfl, hs⟩)⟩
  · have hfits : Fits [type, s.avail.toUInt8] := ⟨Nat.le_add_left 1 1, Nat.le_add_left 2 254⟩
    rw [ncAuthFeed_client hclient hpending hfits]
    have hbyte : s.avail = 0 → s.avail.toUInt8.toUInt32 = 0 := by
      intro hz
      rw [hz]
      rfl
    have hnok : s.state ≠ .ok := by
      rcases hs with hs | ⟨hs, -⟩ <;> rw [hs] <;> exact AuthState.noConfusion
    rcases htype with rfl | rfl
    · rw [clientFeed_methods]
      by_cases hzero : s.avail.toUInt8.toUInt32 = 0
      · rw [if_pos hzero]
        exact ⟨rfl, rfl, hclient, .inr (.inl ⟨rfl, hnok⟩)⟩
      · rw [if_neg hzero]
        refine ⟨rfl, rfl, (clientTryNext_server _).trans hclient, ?_⟩
        rcases htry _ hbyte hs with hnext | hend
        · exact .inl hnext
        · exact .inr (.inl hend)
    · rw [clientFeed_fail]
      refine ⟨rfl, rfl, (clientTryNext_server _).trans hclient, ?_⟩
      have hmask : s.avail = 0 → c.avail &&& s.avail.toUInt8.toUInt32 = 0 := by
        intro hz
        rw [hbyte hz, UInt32.and_zero]
      rcases htry _ hmask hs with hnext | hend
      · exact .inl hnext
      · exact .inr (.inl hend)

/-! ## The joint invariant -/

/-- A client with nothing to answer. -/
structure Waiting (c : Auth) : Prop where
  client : c.server = false
  pending : c.state = .pending
  need : c.need = .nothing

inductive Phase : Login → Prop
  /-- the HELLO or a credential is on its way -/
  | asking {l : Login} (msg : Bytes) : l.toServer = [msg] → l.toClient = [] → Waiting l.client →
      l.server.server = true → l.server.state = .pending → Asks l.server msg → Phase l
  /-- the reply is on its way -/
  | answering {l : Login} (msg : Bytes) : l.toServer = [] → l.toClient = [msg] →
      Waiting l.client → l.server.server = true → l.server.greeted = true →
      Answers l.server msg → Phase l
  /-- the application is asked for a credential -/
  | needing {l : Login} : l.toServer = [] → l.toClient = [] → l.client.server = false →
      l.client.state = .pending → l.client.need ≠ .nothing → l.server.server = true →
      l.server.greeted = true → l.server.state = .pending → Phase l
  | ended {l : Login} : l.toServer = [] → l.toClient = [] → l.client.need = .nothing →
      (l.client.state = .denied ∧ l.server.state ≠ .ok ∨
        l.client.state = .ok ∧ l.server.state = .ok) → Phase l

/-- A client that was asked for a credential and got an answer. -/
inductive Answered (c : Auth) : Auth × List Bytes → Prop
  | other : Answered c (c, [])
  | sent (m : Method) (msg : Bytes) : msg.headD 0 = m.type → m.wellFormed msg → Fits msg →
      Answered c ({ c with need := .nothing }, [msg])
  | next : Answered c (clientTryNext { c with need := .nothing }, [])

theorem ncAuthSupplyKey_answered (c : Auth) (sk : Option (Vector UInt8 64)) (pk : Option Key) :
    Answered c (ncAuthSupplyKey M c sk pk) := by
  unfold ncAuthSupplyKey
  split
  · exact .other
  · dsimp only
    split
    · next sk pk =>
      have hlen : (msgPubkey :: pk.toList ++ (M.eddsaSign sk
          (ncAuthSignedDigest M c.sid c.user pk).toList).toList).length = 1 + 32 + 64 := by
        simp
      refine .sent .pubkey _ rfl hlen ⟨?_, ?_⟩
      · rw [hlen]
        decide
      · rw [hlen]
        decide
    · exact .next

theorem ncAuthSupplyPassword_answered (c : Auth) (password : Option Bytes) :
    Answered c (ncAuthSupplyPassword c password) := by
  unfold ncAuthSupplyPassword
  split
  · exact .other
  · dsimp only
    split
    · exact .next
    · next password =>
      split
      · exact .next
      · next hshort =>
        have hlen : (cString password).length ≤ 127 := Nat.not_lt.1 hshort
        have hbyte : (UInt8.ofNat (cString password).length).toNat = (cString password).length := by
          rw [UInt8.toNat_ofNat']
          exact Nat.mod_eq_of_lt (by omega)
        refine .sent .password _ rfl ⟨by simp, ?_, ?_⟩ ⟨by simp, ?_⟩
        · simpa [hbyte] using hlen
        · simp only [List.length_cons, List.getD_cons_succ, List.getD_cons_zero, hbyte]
          omega
        · simp only [List.length_cons]
          change _ ≤ 256
          omega

theorem Phase.supply {l : Login} (h : Phase l) {r : Auth × List Bytes}
    (hquiet : l.client.need = .nothing → r = (l.client, [])) (hr : Answered l.client r) :
    Phase { l with client := r.1, toServer := l.toServer ++ r.2 } := by
  cases h with
  | asking msg hs hc hw hserver hpending hasks =>
    rw [hquiet hw.need, List.append_nil]
    exact .asking msg hs hc hw hserver hpending hasks
  | answering msg hs hc hw hserver hgreeted hans =>
    rw [hquiet hw.need, List.append_nil]
    exact .answering msg hs hc hw hserver hgreeted hans
  | ended hs hc hneed hend =>
    rw [hquiet hneed, List.append_nil]
    exact .ended hs hc hneed hend
  | needing hs hc hclient hpending hneed hserver hgreeted hlisten =>
    cases hr with
    | other =>
      rw [List.append_nil]
      exact .needing hs hc hclient hpending hneed hserver hgreeted hlisten
    | sent m msg htype hform hfits =>
      refine .asking msg ?_ hc ⟨hclient, hpending, rfl⟩ hserver hlisten
        ⟨hfits, .inr ⟨hgreeted, m, htype, hform⟩⟩
      rw [hs]
      rfl
    | next =>
      rw [List.append_nil]
      rcases clientTryNext_cases (a := { l.client with need := .nothing }) hpending with
        ⟨hp, hn⟩ | ⟨hd, hn⟩
      · exact .needing hs hc ((clientTryNext_server _).trans hclient) hp hn hserver hgreeted
          hlisten
      · exact .ended hs hc hn (.inl ⟨hd, by rw [hlisten]; exact AuthState.noConfusion⟩)

theorem Phase.feedServer {l : Login} (h : Phase l) (cb : AuthServerCb) :
    Phase (l.step M (.feedServer cb)) ∧
      (l.step M (.feedServer cb)).clean = l.clean := by
  cases h with
  | asking msg hs hc hw hserver hpending hasks =>
    obtain ⟨reply, hsent, hrc, hserver', hgreeted, hans⟩ :=
      ncAuthFeed_asked (M := M) hserver hpending hasks cb
    simp only [Login.step, hs]
    refine ⟨.answering reply rfl ?_ hw hserver' hgreeted hans, by rw [hrc, Bool.and_true]⟩
    rw [hc, hsent]
    rfl
  | answering msg hs hc hw hserver hgreeted hans =>
    simp only [Login.step, hs]
    exact ⟨.answering msg hs hc hw hserver hgreeted hans, trivial⟩
  | needing hs hc hclient hpending hneed hserver hgreeted hlisten =>
    simp only [Login.step, hs]
    exact ⟨.needing hs hc hclient hpending hneed hserver hgreeted hlisten, trivial⟩
  | ended hs hc hneed hend =>
    simp only [Login.step, hs]
    exact ⟨.ended hs hc hneed hend, trivial⟩

theorem Phase.feedClient {l : Login} (h : Phase l) :
    Phase (l.step M .feedClient) ∧ (l.step M .feedClient).clean = l.clean := by
  cases h with
  | asking msg hs hc hw hserver hpending hasks =>
    simp only [Login.step, hc]
    exact ⟨.asking msg hs hc hw hserver hpending hasks, trivial⟩
  | answering msg hs hc hw hserver hgreeted hans =>
    obtain ⟨hsent, hrc, hclient, hcases⟩ :=
      ncAuthFeed_answered (M := M) hw.client hw.pending hans
    have hset : (ncAuthFeed M .unset l.client msg).auth.Settled :=
      Auth.Settled.feed ⟨hw.client, fun _ => hw.need⟩ fun _ _ _ => hw.need
    simp only [Login.step, hc]
    refine ⟨?_, by rw [hrc, Bool.and_true]⟩
    rw [hsent, List.append_nil]
    rcases hcases with ⟨hp, hneed, hlisten⟩ | ⟨hd, hs'⟩ | ⟨hok, hs'⟩
    · exact .needing hs rfl hclient hp hneed hserver hgreeted hlisten
    · exact .ended hs rfl (hset.2 (by rw [hd]; exact AuthState.noConfusion)) (.inl ⟨hd, hs'⟩)
    · exact .ended hs rfl (hset.2 (by rw [hok]; exact AuthState.noConfusion)) (.inr ⟨hok, hs'⟩)
  | needing hs hc hclient hpending hneed hserver hgreeted hlisten =>
    simp only [Login.step, hc]
    exact ⟨.needing hs hc hclient hpending hneed hserver hgreeted hlisten, trivial⟩
  | ended hs hc hneed hend =>
    simp only [Login.step, hc]
    exact ⟨.ended hs hc hneed hend, trivial⟩

theorem Phase.step {l : Login} (h : Phase l) (move : LoginMove) :
    Phase (l.step M move) ∧ (l.step M move).clean = l.clean := by
  cases move with
  | supplyKey sk pk =>
    exact ⟨h.supply (fun hneed => ncAuthSupplyKey_quiet hneed sk pk)
      (ncAuthSupplyKey_answered l.client sk pk), rfl⟩
  | supplyPassword password =>
    exact ⟨h.supply (fun hneed => ncAuthSupplyPassword_quiet hneed password)
      (ncAuthSupplyPassword_answered l.client password), rfl⟩
  | feedServer cb => exact h.feedServer cb
  | feedClient => exact h.feedClient

theorem Phase.start (sidC sidS : Key) (user : Option Bytes) :
    Phase (Login.start sidC sidS user) := by
  have hlen : ((cString (user.getD [])).take ncAuthMaxUser).length ≤ 64 := List.length_take_le _ _
  generalize hname : (cString (user.getD [])).take ncAuthMaxUser = name at hlen
  have hbyte : (UInt8.ofNat name.length).toNat = name.length := by
    rw [UInt8.toNat_ofNat']
    exact Nat.mod_eq_of_lt (by omega)
  have hsent : ncAuthStart (ncAuthClientInit sidC user) =
      [msgHello :: UInt8.ofNat name.length :: name] := by
    simp [ncAuthStart, ncAuthClientInit, hname]
  refine .asking _ hsent rfl ⟨rfl, rfl, rfl⟩ rfl rfl
    ⟨⟨by simp, ?_⟩, .inl ⟨rfl, rfl, by simp, ?_, ?_⟩⟩
  · simp only [List.length_cons]
    change _ ≤ 256
    omega
  · simp only [List.getD_cons_succ, List.getD_cons_zero, hbyte]
    exact hlen
  · simp only [List.length_cons, List.getD_cons_succ, List.getD_cons_zero, hbyte]
    omega

theorem Phase.run {l : Login} (h : Phase l) (moves : List LoginMove) :
    Phase (l.run M moves) ∧ (l.run M moves).clean = l.clean := by
  induction moves generalizing l with
  | nil => exact ⟨h, rfl⟩
  | cons move moves ih =>
    obtain ⟨hstep, hclean⟩ := h.step (M := M) move
    obtain ⟨hrun, hclean'⟩ := ih hstep
    exact ⟨hrun, hclean'.trans hclean⟩

/-- The two sides of a login never disagree, whatever the callbacks of the server answer
and in whatever order the messages and the credentials arrive. -/
theorem login_agrees (sidC sidS : Key) (user : Option Bytes) (moves : List LoginMove) :
    let l := (Login.start sidC sidS user).run M moves
    l.clean = true ∧ (l.client.state = .ok → l.server.state = .ok) ∧
      (l.server.state = .ok → l.client.state ≠ .denied) ∧
      (l.server.state = .denied → l.client.state ≠ .ok) := by
  obtain ⟨hphase, hclean⟩ := (Phase.start sidC sidS user).run (M := M) moves
  dsimp only
  generalize (Login.start sidC sidS user).run M moves = l at hphase hclean
  refine ⟨hclean, ?_⟩
  cases hphase with
  | asking msg hs hc hw hserver hpending hasks => simp [hw.pending]
  | answering msg hs hc hw hserver hgreeted hans => simp [hw.pending]
  | needing hs hc hclient hpending => simp [hpending]
  | ended hs hc hneed hend => rcases hend with ⟨hcl, hsv⟩ | ⟨hcl, hsv⟩ <;> simp [hcl, hsv]

end MechanicalResearcher.NetchanAuth
