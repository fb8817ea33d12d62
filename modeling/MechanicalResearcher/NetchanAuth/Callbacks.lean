import MechanicalResearcher.NetchanAuth.AuthLink
import MechanicalResearcher.NetchanAuth.Login
import MechanicalResearcher.NetchanAuth.Handshake
import MechanicalResearcher.NetchanV2.Wire

/-!
# The callbacks of a link

`Protocol` is what an application may rely on.  The flags `up` and `down` stand for it:
a callback fires only while they say so, and they are set before it does.  The one
exception is `deliver`, which looks at `up` alone, so application data that waits in the
channel when the connection goes down is still reported.
-/

namespace MechanicalResearcher.NetchanAuth

open NetchanV2 Lib.Runs

/-! ## What an application sees -/

namespace Fired

def isUp (f : Fired) : Bool :=
  match f.cb with
  | .up => true
  | _ => false

def isDown (f : Fired) : Bool :=
  match f.cb with
  | .down _ => true
  | _ => false

def isData (f : Fired) : Bool :=
  match f.cb with
  | .data _ => true
  | _ => false

end Fired

/-- The callbacks of a link, in the order in which they fired. -/
structure Protocol (fired : List Fired) : Prop where
  upOnce : fired.countP Fired.isUp ≤ 1
  downOnce : fired.countP Fired.isDown ≤ 1
  downLast : ∀ pre f post, fired = pre ++ f :: post → f.isDown = true → post = []
  dataUp : ∀ pre f post, fired = pre ++ f :: post → f.isData = true →
    (∃ g ∈ pre, g.isUp = true) ∧ f.auth = .ok

theorem snoc_split {l pre post : List Fired} {f g : Fired} (h : l ++ [g] = pre ++ f :: post) :
    (l = pre ∧ g = f ∧ post = []) ∨ ∃ post', post = post' ++ [g] ∧ l = pre ++ f :: post' := by
  rcases List.eq_nil_or_concat post with rfl | ⟨post', g', rfl⟩
  · obtain ⟨rfl, hg⟩ := List.append_inj' h rfl
    cases hg
    exact Or.inl ⟨rfl, rfl, rfl⟩
  · rw [List.concat_eq_append, ← List.cons_append, ← List.append_assoc] at h
    obtain ⟨rfl, hg⟩ := List.append_inj' h rfl
    cases hg
    exact Or.inr ⟨post', List.concat_eq_append, rfl⟩

/-! ## The transport below the login -/

/-- What the callbacks depend on is as it was. -/
structure SameLogin (al al' : AuthLink) : Prop where
  server : al'.server = al.server
  authStarted : al'.authStarted = al.authStarted
  needFired : al'.needFired = al.needFired
  up : al'.up = al.up
  down : al'.down = al.down
  auth : al'.auth = al.auth
  fired : al'.fired = al.fired

namespace SameLogin

variable {M : Monocypher} {bound : Nat} {al al' al'' : AuthLink}

theorem refl (al : AuthLink) : SameLogin al al := ⟨rfl, rfl, rfl, rfl, rfl, rfl, rfl⟩

theorem trans (h : SameLogin al al') (h' : SameLogin al' al'') : SameLogin al al'' :=
  ⟨h'.server.trans h.server, h'.authStarted.trans h.authStarted, h'.needFired.trans h.needFired,
    h'.up.trans h.up, h'.down.trans h.down, h'.auth.trans h.auth, h'.fired.trans h.fired⟩

theorem sendHello (al : AuthLink) : SameLogin al (sendHello al) := by
  simp only [NetchanAuth.sendHello]
  split_ifs <;> exact ⟨rfl, rfl, rfl, rfl, rfl, rfl, rfl⟩

theorem flushPacket (al : AuthLink) (pkt : Bytes) (dst : Addr) :
    SameLogin al (flushPacket M al pkt dst) := by
  unfold NetchanAuth.flushPacket
  split
  · exact ⟨rfl, rfl, rfl, rfl, rfl, rfl, rfl⟩
  · dsimp only
    split_ifs <;> exact ⟨rfl, rfl, rfl, rfl, rfl, rfl, rfl⟩

theorem flushLoop (n : Nat) (al : AuthLink) : SameLogin al (flushLoop M n al) := by
  induction n generalizing al with
  | zero => exact refl al
  | succ n ih =>
    unfold NetchanAuth.flushLoop
    split
    · exact ⟨rfl, rfl, rfl, rfl, rfl, rfl, rfl⟩
    · rename_i conn pkt dst _
      have hset : SameLogin al { al with conn := conn }.tickEnv :=
        ⟨rfl, rfl, rfl, rfl, rfl, rfl, rfl⟩
      exact (hset.trans (flushPacket _ pkt dst)).trans (ih _)

theorem flushOut (al : AuthLink) : SameLogin al (flushOut M bound al) := flushLoop bound al

theorem chanSendLoop (k : Nat) (msg : Bytes) (spins : Nat) (al : AuthLink) :
    SameLogin al (chanSendLoop M bound k msg spins al).1 := by
  induction spins generalizing al with
  | zero => exact refl al
  | succ spins ih =>
    unfold NetchanAuth.chanSendLoop
    rcases netchanChanWrite al.conn k msg with ⟨conn, e | w⟩
    · dsimp only
      split_ifs
      · exact ⟨rfl, rfl, rfl, rfl, rfl, rfl, rfl⟩
      · refine SameLogin.trans ?_ (ih _)
        refine SameLogin.trans ?_ (flushOut _)
        exact ⟨rfl, rfl, rfl, rfl, rfl, rfl, rfl⟩
    · dsimp only
      refine SameLogin.trans ?_ (flushOut _)
      exact ⟨rfl, rfl, rfl, rfl, rfl, rfl, rfl⟩

theorem chanSend (al : AuthLink) (tag : UInt8) (data : Bytes) :
    SameLogin al (chanSend M bound al tag data).1 := by
  unfold NetchanAuth.chanSend
  split
  · exact refl al
  · split_ifs
    · exact refl al
    · exact chanSendLoop _ _ _ al

theorem authOut (al : AuthLink) (msgs : List Bytes) : SameLogin al (authOut M bound al msgs) := by
  induction msgs generalizing al with
  | nil => exact refl al
  | cons msg msgs ih => exact (chanSend al tagAuth msg).trans (ih _)

theorem advanceConn (al : AuthLink) : SameLogin al (advanceConn al) := by
  simp only [NetchanAuth.advanceConn]
  split_ifs
  all_goals (try split)
  all_goals exact ⟨rfl, rfl, rfl, rfl, rfl, rfl, rfl⟩

theorem pinPeer (al : AuthLink) (source : Addr) : SameLogin al (pinPeer al source) := by
  unfold NetchanAuth.pinPeer
  split_ifs <;> exact ⟨rfl, rfl, rfl, rfl, rfl, rfl, rfl⟩

theorem answerHello (al : AuthLink) (buf : Bytes) : SameLogin al (answerHello al buf) := by
  unfold NetchanAuth.answerHello
  split_ifs
  · exact sendHello al
  · exact refl al

theorem feedPlain (al : AuthLink) (plain : Option Bytes) (source : Addr) :
    SameLogin al (feedPlain al plain source) := by
  unfold NetchanAuth.feedPlain
  split
  · exact refl al
  · exact refl al
  · dsimp only
    split_ifs <;> exact ⟨rfl, rfl, rfl, rfl, rfl, rfl, rfl⟩

theorem receiveOne (al : AuthLink) (buf : Bytes) (source : Addr) :
    SameLogin al (receiveOne M al buf source).1 := by
  refine (pinPeer al source).trans ?_
  unfold NetchanAuth.receiveOne
  generalize NetchanAuth.pinPeer al source = pinned
  dsimp only
  have hset : SameLogin pinned
      { pinned with crypto := (ncCryptoOpen M pinned.crypto buf 2048).1 } :=
    ⟨rfl, rfl, rfl, rfl, rfl, rfl, rfl⟩
  split_ifs
  · exact hset
  · exact (hset.trans (answerHello _ buf)).trans (feedPlain _ _ source)

theorem receiveLoop (ds : List Datagram) (al : AuthLink) :
    SameLogin al (receiveLoop M ds al) := by
  induction ds generalizing al with
  | nil => exact refl al
  | cons d ds ih =>
    unfold NetchanAuth.receiveLoop
    dsimp only
    split_ifs
    · exact refl al
    · split
      · exact ih al
      · rename_i source _
        have hone := receiveOne (M := M) al (d.bytes.take 2048) source
        split
        · rename_i h
          rw [h] at hone
          exact hone
        · rename_i h
          rw [h] at hone
          exact hone.trans (ih _)

theorem tickConn (al : AuthLink) : SameLogin al (tickConn al) := by
  have hhello : SameLogin al
      (if al.server = false ∧ ncCryptoReady al.crypto = false then NetchanAuth.sendHello al
        else al) := by
    split_ifs
    · exact sendHello al
    · exact refl al
  exact hhello.trans ⟨rfl, rfl, rfl, rfl, rfl, rfl, rfl⟩

end SameLogin

/-! ## The login and the flags -/

/-- The flags say which callbacks fired, and the link is up only with a login behind it. -/
structure Consistent (al : AuthLink) : Prop where
  protocol : Protocol al.fired
  ups : al.up = al.fired.any Fired.isUp
  downs : al.down = al.fired.any Fired.isDown
  started : al.up = true → al.authStarted = true
  login : al.up = true → al.auth.state = .ok
  unasked : al.authStarted = false → al.needFired = .nothing
  role : al.authStarted = true → al.server = false → al.auth.server = false

/-- What a finished login found is reported, and so is what it asks for. -/
structure Settled (al : AuthLink) : Prop extends Consistent al where
  open_ : al.up = false → al.down = false → al.auth.state ≠ .ok
  asked : al.authStarted = true → al.server = false → al.up = false → al.down = false →
    al.needFired = al.auth.need

/-- `settle_auth` may run.  A login that just succeeded has no request that was not
reported, so `on_need` cannot run between it and `on_up`. -/
structure Ripe (al : AuthLink) : Prop extends Consistent al where
  begun : al.authStarted = false → al.up = false → al.down = false → al.auth.state ≠ .ok
  asked : al.auth.state = .ok → al.server = false → al.up = false → al.down = false →
    al.needFired = al.auth.need

theorem Protocol.nil : Protocol [] where
  upOnce := Nat.zero_le _
  downOnce := Nat.zero_le _
  downLast := by
    intro pre f post h
    simp at h
  dataUp := by
    intro pre f post h
    simp at h

theorem Protocol.snoc {l : List Fired} {g : Fired} (h : Protocol l)
    (hdown : l.any Fired.isDown = false) (hup : g.isUp = true → l.any Fired.isUp = false)
    (hdata : g.isData = true → l.any Fired.isUp = true ∧ g.auth = .ok) :
    Protocol (l ++ [g]) where
  upOnce := by
    rw [List.countP_append, List.countP_singleton]
    by_cases hg : g.isUp = true
    · have hnone : l.countP Fired.isUp = 0 := by
        rw [List.countP_eq_zero]
        simpa using hup hg
      rw [hnone, if_pos hg]
    · rw [if_neg hg]
      exact h.upOnce
  downOnce := by
    have hnone : l.countP Fired.isDown = 0 := by
      rw [List.countP_eq_zero]
      simpa using hdown
    rw [List.countP_append, List.countP_singleton, hnone]
    split_ifs <;> omega
  downLast := by
    intro pre f post hsplit hf
    rcases snoc_split hsplit with ⟨-, -, hpost⟩ | ⟨post', -, rfl⟩
    · exact hpost
    · simp [hf] at hdown
  dataUp := by
    intro pre f post hsplit hf
    rcases snoc_split hsplit with ⟨rfl, rfl, -⟩ | ⟨post', -, hold⟩
    · obtain ⟨hany, hok⟩ := hdata hf
      exact ⟨List.any_eq_true.1 hany, hok⟩
    · exact h.dataUp pre f post' hold hf

section Same

variable {al al' : AuthLink}

theorem Consistent.same (h : Consistent al) (hs : SameLogin al al') : Consistent al' where
  protocol := hs.fired ▸ h.protocol
  ups := by rw [hs.up, hs.fired, h.ups]
  downs := by rw [hs.down, hs.fired, h.downs]
  started := by rw [hs.up, hs.authStarted]; exact h.started
  login := by rw [hs.up, hs.auth]; exact h.login
  unasked := by rw [hs.authStarted, hs.needFired]; exact h.unasked
  role := by rw [hs.authStarted, hs.server, hs.auth]; exact h.role

theorem Settled.same (h : Settled al) (hs : SameLogin al al') : Settled al' where
  toConsistent := h.toConsistent.same hs
  open_ := by rw [hs.up, hs.down, hs.auth]; exact h.open_
  asked := by
    rw [hs.authStarted, hs.server, hs.up, hs.down, hs.needFired, hs.auth]
    exact h.asked

theorem Ripe.same (h : Ripe al) (hs : SameLogin al al') : Ripe al' where
  toConsistent := h.toConsistent.same hs
  begun := by rw [hs.authStarted, hs.up, hs.down, hs.auth]; exact h.begun
  asked := by
    rw [hs.auth, hs.server, hs.up, hs.down, hs.needFired]
    exact h.asked

end Same

theorem Settled.ripe {al : AuthLink} (h : Settled al) : Ripe al where
  toConsistent := h.toConsistent
  begun _ := h.open_
  asked hok _ hup hdown := absurd hok (h.open_ hup hdown)

theorem Ripe.begun_of_ok {al : AuthLink} (h : Ripe al) (hok : al.auth.state = .ok)
    (hup : al.up = false) (hdown : al.down = false) : al.authStarted = true := by
  by_contra hno
  exact h.begun (Bool.eq_false_iff.2 hno) hup hdown hok

theorem Consistent.settled {al : AuthLink} (h : Consistent al)
    (hend : al.up = true ∨ al.down = true) : Settled al where
  toConsistent := h
  open_ hup hdown := by
    rcases hend with hend | hend
    · rw [hup] at hend
      cases hend
    · rw [hdown] at hend
      cases hend
  asked _ _ hup hdown := by
    rcases hend with hend | hend
    · rw [hup] at hend
      cases hend
    · rw [hdown] at hend
      cases hend

/-! ## The calls of a callback

A callback runs on a settled link and leaves one.  It cannot make a login succeed, and
once the link was reported up or down no call changes that. -/

structure Later (al al' : AuthLink) : Prop where
  settled : Settled al'
  refused : al.auth.state ≠ .ok → al'.auth.state ≠ .ok
  flags : al.up = true ∨ al.down = true → al'.up = al.up ∧ al'.down = al.down

namespace Later

variable {al al' al'' : AuthLink}

theorem refl (h : Settled al) : Later al al := ⟨h, id, fun _ => ⟨rfl, rfl⟩⟩

theorem trans (h : Later al al') (h' : Later al' al'') : Later al al'' where
  settled := h'.settled
  refused hno := h'.refused (h.refused hno)
  flags hend := by
    obtain ⟨hup, hdown⟩ := h.flags hend
    obtain ⟨hup', hdown'⟩ := h'.flags (by rwa [hup, hdown])
    exact ⟨hup'.trans hup, hdown'.trans hdown⟩

theorem same (h : Later al al') (hs : SameLogin al' al'') : Later al al'' where
  settled := h.settled.same hs
  refused hno := by
    rw [hs.auth]
    exact h.refused hno
  flags hend := by
    rw [hs.up, hs.down]
    exact h.flags hend

theorem after (hs : SameLogin al al') (h : Later al' al'') : Later al al'' where
  settled := h.settled
  refused hno := h.refused (by rwa [hs.auth])
  flags hend := by
    rw [← hs.up, ← hs.down]
    exact h.flags (by rwa [hs.up, hs.down])

theorem not_both (h : Later al al') (hs : Settled al) (hone : ¬(al.up = true ∧ al.down = true)) :
    ¬(al'.up = true ∧ al'.down = true) := by
  by_cases hend : al.up = true ∨ al.down = true
  · obtain ⟨hup, hdown⟩ := h.flags hend
    rwa [hup, hdown]
  · simp only [not_or, Bool.not_eq_true] at hend
    rintro ⟨hup, -⟩
    exact h.refused (hs.open_ hend.1 hend.2) (h.settled.login hup)

end Later

def ReOk (re : AuthLink → List Call → AuthLink) : Prop :=
  ∀ al calls, Settled al → Later al (re al calls)

section Fire

variable (app : App) {re : AuthLink → List Call → AuthLink} {al : AuthLink}

theorem fireDown_later (hre : ReOk re) (h : Consistent al) (reason : DownReason) :
    Later { al with down := true } (fireDown app re al reason) := by
  unfold fireDown
  by_cases hdown : al.down = true
  · rw [if_pos hdown]
    have hal : { al with down := true } = al := by rw [← hdown]
    rw [hal]
    exact Later.refl (h.settled (Or.inr hdown))
  · rw [if_neg hdown]
    have hquiet : al.fired.any Fired.isDown = false := by
      rw [← h.downs]
      exact Bool.eq_false_iff.2 hdown
    have hcons : Consistent { al with
        down := true, fired := al.fired ++ [⟨.down reason, al.auth.state⟩] } :=
      { protocol := h.protocol.snoc hquiet nofun nofun
        ups := by simpa [Fired.isUp] using h.ups
        downs := by simp [Fired.isDown]
        started := h.started
        login := h.login
        unasked := h.unasked
        role := h.role }
    have hlater := hre _ (app (al.fired ++ [⟨.down reason, al.auth.state⟩]))
      (hcons.settled (Or.inr rfl))
    exact ⟨hlater.settled, hlater.refused, hlater.flags⟩

theorem settleNeed_ok (h : Ripe al) (hok : al.auth.state = .ok) : settleNeed app re al = al := by
  unfold settleNeed
  dsimp only
  split_ifs with hskip hsame
  · rfl
  · rfl
  · simp only [not_or, Bool.not_eq_true, Bool.not_eq_false] at hskip
    exact absurd (h.asked hok hskip.2.1 hskip.2.2.1 hskip.2.2.2).symm hsame
  · simp only [not_or, Bool.not_eq_true, Bool.not_eq_false] at hskip
    exact absurd (h.asked hok hskip.2.1 hskip.2.2.1 hskip.2.2.2).symm hsame

theorem settleNeed_later (hre : ReOk re) (h : Consistent al) (hup : al.up = false)
    (hdown : al.down = false) (hstarted : al.authStarted = true) (hno : al.auth.state ≠ .ok) :
    Later al (settleNeed app re al) := by
  unfold settleNeed
  dsimp only
  split_ifs with hskip hsame hneed
  · have hserver : al.server = true := by
      simpa [hup, hdown, hstarted] using hskip
    refine Later.refl ⟨h, fun _ _ => hno, fun _ hclient => ?_⟩
    rw [hserver] at hclient
    cases hclient
  · exact Later.refl ⟨h, fun _ _ => hno, fun _ _ _ _ => hsame.symm⟩
  · have hcons : Consistent { al with
        needFired := ncAuthNeeds al.auth
        fired := al.fired ++ [⟨.need (ncAuthNeeds al.auth), al.auth.state⟩] } :=
      { protocol := h.protocol.snoc (by rw [← h.downs, hdown]) nofun nofun
        ups := by simpa [Fired.isUp] using h.ups
        downs := by simpa [Fired.isDown] using h.downs
        started := h.started
        login := h.login
        unasked := by
          intro hnone
          rw [hstarted] at hnone
          cases hnone
        role := h.role }
    have hlater := hre _ (app (al.fired ++ [⟨.need (ncAuthNeeds al.auth), al.auth.state⟩]))
      ⟨hcons, fun _ _ => hno, fun _ _ _ _ => rfl⟩
    exact ⟨hlater.settled, hlater.refused, hlater.flags⟩
  · have hcons : Consistent { al with needFired := ncAuthNeeds al.auth } :=
      { protocol := h.protocol
        ups := h.ups
        downs := h.downs
        started := h.started
        login := h.login
        unasked := by
          intro hnone
          rw [hstarted] at hnone
          cases hnone
        role := h.role }
    exact ⟨⟨hcons, fun _ _ => hno, fun _ _ _ _ => rfl⟩, id, fun _ => ⟨rfl, rfl⟩⟩

theorem fireUp_later (hre : ReOk re) (h : Ripe al) (hup : al.up = false)
    (hdown : al.down = false) (hok : al.auth.state = .ok) (user : Bytes) :
    Later { al with up := true } (fire app re { al with user := user, up := true } .up) := by
  have hstarted : al.authStarted = true := h.begun_of_ok hok hup hdown
  have hcons : Consistent { al with
      user := user, up := true, fired := al.fired ++ [⟨.up, al.auth.state⟩] } :=
    { protocol := h.protocol.snoc (by rw [← h.downs, hdown]) (fun _ => by rw [← h.ups, hup]) nofun
      ups := by simp [Fired.isUp]
      downs := by simpa [Fired.isDown] using h.downs
      started := fun _ => hstarted
      login := fun _ => hok
      unasked := h.unasked
      role := h.role }
  have hlater := hre _ (app (al.fired ++ [⟨.up, al.auth.state⟩])) (hcons.settled (Or.inl rfl))
  exact ⟨hlater.settled, hlater.refused, hlater.flags⟩

theorem fireData_later (hre : ReOk re) (h : Settled al) (hup : al.up = true)
    (hdown : al.down = false) (bytes : Bytes) : Later al (fire app re al (.data bytes)) := by
  have hcons : Consistent { al with fired := al.fired ++ [⟨.data bytes, al.auth.state⟩] } :=
    { protocol := h.protocol.snoc (by rw [← h.downs, hdown]) nofun
        fun _ => ⟨by rw [← h.ups, hup], h.login hup⟩
      ups := by simpa [Fired.isUp] using h.ups
      downs := by simpa [Fired.isDown] using h.downs
      started := h.started
      login := h.login
      unasked := h.unasked
      role := h.role }
  have hlater := hre _ (app (al.fired ++ [⟨.data bytes, al.auth.state⟩]))
    (hcons.settled (Or.inl hup))
  exact ⟨hlater.settled, hlater.refused, hlater.flags⟩

theorem settleAuth_ok (h : Ripe al) (hok : al.auth.state = .ok) (hup : al.up = false)
    (hdown : al.down = false) :
    settleAuth app re al =
      fire app re { al with user := al.auth.user.take ncAuthMaxUser, up := true } .up := by
  have hstarted : al.authStarted = true := h.begun_of_ok hok hup hdown
  unfold settleAuth
  rw [if_neg (by simp [hstarted, hup, hdown])]
  dsimp only
  rw [settleNeed_ok app h hok, if_pos hok]

theorem settleAuth_later (hre : ReOk re) (h : Ripe al) : Later al (settleAuth app re al) := by
  by_cases hend : al.up = true ∨ al.down = true
  · have hskip : settleAuth app re al = al := if_pos (Or.inr hend)
    rw [hskip]
    exact Later.refl (h.toConsistent.settled hend)
  have hno := hend
  rw [not_or, Bool.not_eq_true, Bool.not_eq_true] at hno
  obtain ⟨hup, hdown⟩ := hno
  by_cases hstate : al.auth.state = .ok
  · rw [settleAuth_ok app h hstate hup hdown]
    have hfired := fireUp_later app hre h hup hdown hstate
      (al.auth.user.take ncAuthMaxUser)
    exact ⟨hfired.settled, fun hno => absurd hstate hno, fun hflag => absurd hflag hend⟩
  unfold settleAuth
  split_ifs with hskip
  · refine Later.refl ⟨h.toConsistent, fun _ _ => hstate, fun hstarted _ _ _ => ?_⟩
    simp [hup, hdown, hstarted] at hskip
  · have hstarted : al.authStarted = true := by
      simpa [hup, hdown] using hskip
    -- `on_need` may answer the request, which can end the login but not with success
    have hneed := settleNeed_later app hre h.toConsistent hup hdown hstarted hstate
    dsimp only
    rw [if_neg (hneed.refused hstate)]
    split_ifs
    · have hfired := fireDown_later app hre hneed.settled.toConsistent .auth
      exact ⟨hfired.settled, fun _ => hfired.refused (hneed.refused hstate),
        fun hflag => absurd hflag hend⟩
    · exact hneed

theorem settleAuth_not_both (hre : ReOk re) (h : Ripe al)
    (hone : ¬(al.up = true ∧ al.down = true)) :
    ¬((settleAuth app re al).up = true ∧ (settleAuth app re al).down = true) := by
  have hlater := settleAuth_later app hre h
  by_cases hend : al.up = true ∨ al.down = true
  · obtain ⟨hup, hdown⟩ := hlater.flags hend
    rwa [hup, hdown]
  · rw [not_or, Bool.not_eq_true, Bool.not_eq_true] at hend
    obtain ⟨hup, hdown⟩ := hend
    by_cases hstate : al.auth.state = .ok
    · have hfired := fireUp_later app hre h hup hdown hstate
        (al.auth.user.take ncAuthMaxUser)
      rw [settleAuth_ok app h hstate hup hdown, (hfired.flags (Or.inl rfl)).2]
      simp [hdown]
    · rintro ⟨hup', -⟩
      exact hlater.refused hstate (hlater.settled.login hup')

end Fire

theorem Answered.keeps {c : Auth} {r : Auth × List Bytes} (h : Answered c r) :
    r.1.server = c.server ∧ (r.1.state = .ok ↔ c.state = .ok) := by
  cases h with
  | other => exact ⟨rfl, Iff.rfl⟩
  | sent m msg => exact ⟨rfl, Iff.rfl⟩
  | next =>
    refine ⟨clientTryNext_server _, ?_⟩
    by_cases hpending : c.state = .pending
    · have hno : (clientTryNext { c with need := .nothing }).state ≠ .ok := by
        rcases clientTryNext_cases (a := { c with need := .nothing }) hpending with h | h
        · rw [h.1]
          exact AuthState.noConfusion
        · rw [h.1]
          exact AuthState.noConfusion
      refine ⟨fun h => absurd h hno, fun hok => ?_⟩
      rw [hpending] at hok
      cases hok
    · unfold clientTryNext
      rw [if_pos hpending]

section Calls

variable {M : Monocypher} (app : App) {bound : Nat} {re : AuthLink → List Call → AuthLink}
  {al : AuthLink}

theorem supplied_later (hre : ReOk re) (h : Settled al) {r : Auth × List Bytes}
    (hr : Answered al.auth r) : Later al (supplied M app bound re al r) := by
  obtain ⟨hserver, hstate⟩ := hr.keeps
  have hout : SameLogin { al with auth := r.1 } (authOut M bound { al with auth := r.1 } r.2) :=
    SameLogin.authOut _ _
  unfold supplied
  generalize authOut M bound { al with auth := r.1 } r.2 = sent at hout
  have hsame : SameLogin { al with auth := r.1, needFired := .nothing }
      { sent with needFired := .nothing } :=
    ⟨hout.server, hout.authStarted, rfl, hout.up, hout.down, hout.auth, hout.fired⟩
  have hripe : Ripe { al with auth := r.1, needFired := .nothing } :=
    { protocol := h.protocol
      ups := h.ups
      downs := h.downs
      started := h.started
      login := fun hup => hstate.2 (h.login hup)
      unasked := fun _ => rfl
      role := fun hs hclient => hserver.trans (h.role hs hclient)
      begun := fun _ hup hdown hok => h.open_ hup hdown (hstate.1 hok)
      asked := fun hok _ hup hdown => absurd (hstate.1 hok) (h.open_ hup hdown) }
  have hsettled := (settleAuth_later app hre (hripe.same hsame)).after hsame
  refine Later.same ⟨hsettled.settled, fun hno => ?_, hsettled.flags⟩ (SameLogin.flushOut _)
  exact hsettled.refused fun hok => hno (hstate.1 hok)

theorem call_later (hre : ReOk re) (h : Settled al) (c : Call) :
    Later al (al.call M app bound re c) := by
  cases c with
  | supplyKey sk pk =>
    unfold AuthLink.call authLinkSupplyKey
    split_ifs
    · exact Later.refl h
    · exact supplied_later app hre h (ncAuthSupplyKey_answered _ sk pk)
  | supplyPassword password =>
    unfold AuthLink.call authLinkSupplyPassword
    split_ifs
    · exact Later.refl h
    · exact supplied_later app hre h (ncAuthSupplyPassword_answered _ password)
  | send data =>
    unfold AuthLink.call authLinkSend
    split_ifs
    · exact Later.refl h
    · exact (Later.refl h).same (SameLogin.chanSend _ _ _)

theorem calls_later (hre : ReOk re) (calls : List Call) (h : Settled al) :
    Later al (calls.foldl (AuthLink.call M app bound re) al) := by
  induction calls generalizing al with
  | nil => exact Later.refl h
  | cons c calls ih =>
    have hcall : Later al (al.call M app bound re c) := call_later app hre h c
    exact hcall.trans (ih hcall.settled)

theorem nested_ok (n : Nat) : ReOk (nested M app bound n) := by
  induction n with
  | zero => exact fun al calls h => Later.refl h
  | succ n ih => exact fun al calls h => calls_later app ih calls h

end Calls

/-! ## The stack -/

theorem ncAuthFeed_asks {M : Monocypher} {a : Auth} (hclient : a.server = false)
    (cb : AuthServerCb) (msg : Bytes) :
    (ncAuthFeed M cb a msg).auth.server = false ∧
      ((ncAuthFeed M cb a msg).auth.state = .ok → (ncAuthFeed M cb a msg).auth.need = a.need) := by
  by_cases hlooks : a.state = .pending ∧ Fits msg
  · rw [ncAuthFeed_client hclient hlooks.1 hlooks.2]
    rcases clientFeed_cases a msg with ⟨-, h | ⟨avail, st, -, h⟩⟩ | ⟨-, avail, h⟩
    · rw [h]
      exact ⟨hclient, fun _ => rfl⟩
    · rw [h]
      exact ⟨hclient, fun _ => rfl⟩
    · rw [h]
      refine ⟨(clientTryNext_server _).trans hclient, fun hok => ?_⟩
      rcases clientTryNext_cases (a := { a with avail := avail }) hlooks.1 with hnext | hnext
      · rw [hnext.1] at hok
        cases hok
      · rw [hnext.1] at hok
        cases hok
  · rw [ncAuthFeed_ignored hlooks]
    exact ⟨hclient, fun _ => rfl⟩

section Stack

variable {M : Monocypher} {app : App} {bound : Nat} {re : AuthLink → List Call → AuthLink}
  {al : AuthLink}

theorem Settled.begin (h : Settled al) (hno : al.authStarted = false) {auth : Auth}
    (hpending : auth.state = .pending) (hrole : al.server = false → auth.server = false) :
    Ripe { al with auth := auth, authStarted := true } where
  protocol := h.protocol
  ups := h.ups
  downs := h.downs
  started _ := rfl
  login hup := by
    have hstarted := h.started hup
    rw [hno] at hstarted
    cases hstarted
  unasked := nofun
  role _ hclient := hrole hclient
  begun := nofun
  asked hok := by
    rw [hpending] at hok
    cases hok

theorem startAuth_ripe (h : Settled al) : Ripe (startAuth M bound al) := by
  unfold startAuth
  by_cases hstart : al.tx.isSome = true ∧ al.authStarted = false
  · rw [if_pos hstart]
    split
    · exact h.ripe
    · rename_i sid _
      by_cases hserver : al.server = true
      · dsimp only
        rw [if_pos hserver, if_pos hserver]
        refine h.begin hstart.2 rfl fun hclient => ?_
        rw [hserver] at hclient
        cases hclient
      · dsimp only
        rw [if_neg hserver, if_neg hserver]
        refine Ripe.same ?_ (SameLogin.authOut _ _)
        exact h.begin hstart.2 rfl fun _ => rfl
  · rw [if_neg hstart]
    exact h.ripe

theorem advance_settled (hre : ReOk re) (h : Settled al) :
    Settled (advance M app bound re al) := by
  unfold advance
  split_ifs
  · exact (fireDown_later app hre h.toConsistent .hostkey).settled
  · have hconn := h.same (SameLogin.advanceConn al)
    exact (settleAuth_later app hre (startAuth_ripe hconn)).settled

theorem feedAuth_ripe (h : Settled al) (hstarted : al.authStarted = true) (msg : Bytes) :
    Ripe (feedAuth M bound al msg) := by
  unfold feedAuth
  refine Ripe.same ?_ (SameLogin.authOut _ _)
  refine
    { protocol := h.protocol
      ups := h.ups
      downs := h.downs
      started := h.started
      login := fun hup => ?_
      unasked := h.unasked
      role := fun _ hclient => (ncAuthFeed_asks (h.role hstarted hclient) _ msg).1
      begun := fun hno => ?_
      asked := fun hok hclient hup hdown => ?_ }
  · -- a login that is over is not fed
    have hok := h.login hup
    have hover : ¬(al.auth.state = .pending ∧ Fits msg) := by simp [hok]
    dsimp only [AuthLink.tickEnv]
    rw [ncAuthFeed_ignored hover]
    exact hok
  · rw [show al.authStarted = false from hno] at hstarted
    cases hstarted
  · have hneed := (ncAuthFeed_asks (h.role hstarted hclient) al.env.scb msg).2 hok
    exact (h.asked hstarted hclient hup hdown).trans hneed.symm

theorem feedAuth_flags (M : Monocypher) (bound : Nat) (al : AuthLink) (msg : Bytes) :
    (feedAuth M bound al msg).up = al.up ∧ (feedAuth M bound al msg).down = al.down := by
  unfold feedAuth
  generalize ncAuthFeed M al.env.scb al.auth msg = fed
  have hout : SameLogin { al with auth := fed.auth }.tickEnv
      (authOut M bound { al with auth := fed.auth }.tickEnv fed.sent) := SameLogin.authOut _ _
  exact ⟨hout.up, hout.down⟩

theorem deliver_settled (M : Monocypher) (app : App) (bound : Nat) (hre : ReOk re)
    (h : Settled al) (hone : ¬(al.up = true ∧ al.down = true)) (msg : Bytes) :
    Settled (deliver M app bound re al msg) ∧
      ¬((deliver M app bound re al msg).up = true ∧
        (deliver M app bound re al msg).down = true) := by
  unfold deliver
  split_ifs with hlen hauth hstarted happ
  · exact ⟨h, hone⟩
  · have hripe : Ripe (feedAuth M bound al (msg.drop 1)) := feedAuth_ripe h hstarted _
    have hflags := feedAuth_flags M bound al (msg.drop 1)
    refine ⟨(settleAuth_later app hre hripe).settled, settleAuth_not_both app hre hripe ?_⟩
    rwa [hflags.1, hflags.2]
  · exact ⟨(settleAuth_later app hre h.ripe).settled, settleAuth_not_both app hre h.ripe hone⟩
  · have hdown : al.down = false := by
      by_contra hdown
      exact hone ⟨happ.2, Bool.not_eq_false _ ▸ hdown⟩
    have hfired := fireData_later app hre h happ.2 hdown (msg.drop 1)
    exact ⟨hfired.settled, hfired.not_both h hone⟩
  · exact ⟨h, hone⟩

theorem deliver_late (M : Monocypher) (app : App) (bound : Nat)
    (re : AuthLink → List Call → AuthLink) (h : Settled al) (hup : al.up = true) {msg : Bytes}
    (hmsg : msg.headD 0 ≠ tagApp) :
    SameLogin al (deliver M app bound re al msg) ∧
      (deliver M app bound re al msg).conn = al.conn := by
  unfold deliver
  split_ifs with hlen hauth hstarted happ
  · exact ⟨SameLogin.refl al, rfl⟩
  · have hover : ¬(al.auth.state = .pending ∧ Fits (msg.drop 1)) := by simp [h.login hup]
    have hfed : feedAuth M bound al (msg.drop 1) = al.tickEnv := by
      unfold feedAuth
      rw [ncAuthFeed_ignored hover]
      rfl
    have hskip : settleAuth app re al.tickEnv = al.tickEnv := if_pos (Or.inr (Or.inl hup))
    rw [hfed, hskip]
    exact ⟨⟨rfl, rfl, rfl, rfl, rfl, rfl, rfl⟩, rfl⟩
  · exact absurd (h.started hup) hstarted
  · exact absurd happ.1 hmsg
  · exact ⟨SameLogin.refl al, rfl⟩

theorem onEvent_settled (app : App) (hre : ReOk re) (h : Settled al) (ev : Event) :
    Settled (onEvent app re al ev) ∧ (onEvent app re al ev).up = al.up := by
  have hrx : Settled (if ev.ch.isSome then { al with rx := ev.ch } else al) ∧
      (if ev.ch.isSome then { al with rx := ev.ch } else al).up = al.up := by
    split_ifs
    · exact ⟨h.same ⟨rfl, rfl, rfl, rfl, rfl, rfl, rfl⟩, rfl⟩
    · exact ⟨h, rfl⟩
  unfold onEvent
  split
  · exact hrx
  · exact hrx
  · have hfired := fireDown_later app hre h.toConsistent .peer
    exact ⟨hfired.settled, (hfired.flags (Or.inr rfl)).1⟩
  · exact ⟨h, rfl⟩

theorem pollLoop_settled (app : App) (hre : ReOk re) (n : Nat) (h : Settled al) :
    Settled (pollLoop app re n al) ∧ (pollLoop app re n al).up = al.up := by
  induction n generalizing al with
  | zero => exact ⟨h, rfl⟩
  | succ n ih =>
    unfold pollLoop
    split
    · exact ⟨h.same ⟨rfl, rfl, rfl, rfl, rfl, rfl, rfl⟩, rfl⟩
    · rename_i conn ev _
      have hset : Settled { al with conn := conn } := h.same ⟨rfl, rfl, rfl, rfl, rfl, rfl, rfl⟩
      obtain ⟨hev, hup⟩ := onEvent_settled app hre hset ev
      obtain ⟨hloop, hup'⟩ := ih hev
      exact ⟨hloop, hup'.trans hup⟩

end Stack

/-! ## Late data -/

/-- The messages that the read loop of `pump_events` takes from a channel. -/
def waiting (k : Nat) : Nat → Conn → List Bytes
  | 0, _ => []
  | n + 1, conn =>
    match netchanChanRead conn k 2048 with
    | (conn, .ok (b :: msg)) => (b :: msg) :: waiting k n conn
    | _ => []

/-- The link is up and down and application data waits in the peer's channel. -/
def lateData (bound : Nat) (al : AuthLink) : Bool :=
  al.up && al.down &&
    match al.rx with
    | none => false
    | some k => (waiting k bound al.conn).any fun msg => msg.headD 0 == tagApp

section Pump

variable {M : Monocypher} {app : App} {bound : Nat} {re : AuthLink → List Call → AuthLink}
  {al : AuthLink}

theorem pumpRead_settled (hre : ReOk re) (k n : Nat) (h : Settled al)
    (hlate : al.up = true → al.down = true → ∀ msg ∈ waiting k n al.conn, msg.headD 0 ≠ tagApp) :
    Settled (pumpRead M app bound re k n al) := by
  induction n generalizing al with
  | zero => exact h
  | succ n ih =>
    unfold pumpRead
    unfold waiting at hlate
    split
    · rename_i conn b msg hread
      simp only [hread] at hlate
      have hset : Settled { al with conn := conn } := h.same ⟨rfl, rfl, rfl, rfl, rfl, rfl, rfl⟩
      by_cases hboth : al.up = true ∧ al.down = true
      · have hquiet := hlate hboth.1 hboth.2
        obtain ⟨hsame, hconn⟩ := deliver_late M app bound re hset hboth.1
          (hquiet _ List.mem_cons_self)
        refine ih (hset.same hsame) fun _ _ m hm => hquiet m (List.mem_cons_of_mem _ ?_)
        rwa [hconn] at hm
      · obtain ⟨hnext, hone⟩ := deliver_settled M app bound hre hset hboth (b :: msg)
        exact ih hnext fun hup hdown => absurd ⟨hup, hdown⟩ hone
    · exact h.same ⟨rfl, rfl, rfl, rfl, rfl, rfl, rfl⟩

theorem pumpEvents_settled (hre : ReOk re) (h : Settled al)
    (hlate : lateData bound (pollLoop app re bound al) = false) :
    Settled (pumpEvents M app bound re al) := by
  unfold pumpEvents
  have hpoll := (pollLoop_settled app hre bound h).1
  generalize pollLoop app re bound al = polled at hlate hpoll
  dsimp only
  split
  · exact hpoll
  · rename_i k hk
    refine pumpRead_settled hre k bound hpoll fun hup hdown msg hmsg => ?_
    unfold lateData at hlate
    simp only [hup, hdown, hk, Bool.true_and, List.any_eq_false, beq_iff_eq] at hlate
    exact hlate msg hmsg

end Pump

/-! ## The life of a link -/

section Life

variable {M : Monocypher} {app : App} {bound : Nat} {al : AuthLink}

/-- When `pump_events` comes to read the peer's channel, no application data waits there on a
link that is up and down. -/
def NoLateData (M : Monocypher) (app : App) (bound : Nat) (al : AuthLink) : LinkEvent → Prop
  | .readable ds =>
    lateData bound (pollLoop app (reenter M app bound) bound (receiveLoop M ds al)) = false
  | .tick => lateData bound (pollLoop app (reenter M app bound) bound (tickConn al)) = false
  | .call _ => True

instance (M : Monocypher) (app : App) (bound : Nat) (al : AuthLink) (e : LinkEvent) :
    Decidable (NoLateData M app bound al e) :=
  match e with
  | .readable _ => inferInstanceAs (Decidable (_ = _))
  | .tick => inferInstanceAs (Decidable (_ = _))
  | .call _ => inferInstanceAs (Decidable True)

theorem onTick_settled (h : Settled al)
    (hlate : lateData bound (pollLoop app (reenter M app bound) bound (tickConn al)) = false) :
    Settled (onTick M app bound al) := by
  have hre : ReOk (reenter M app bound) := nested_ok app bound
  have hpump := pumpEvents_settled (M := M) hre (h.same (SameLogin.tickConn al)) hlate
  exact (advance_settled hre hpump).same (SameLogin.flushOut _)

theorem step_settled (h : Settled al) {e : LinkEvent} (hlate : NoLateData M app bound al e) :
    Settled (al.step M app bound e) := by
  have hre : ReOk (reenter M app bound) := nested_ok app bound
  cases e with
  | readable ds =>
    have hpump := pumpEvents_settled (M := M) hre (h.same (SameLogin.receiveLoop ds al)) hlate
    exact (advance_settled hre hpump).same (SameLogin.flushOut _)
  | tick => exact onTick_settled h hlate
  | call c => exact (call_later app hre h c).settled

theorem blank_settled (cfg : LinkCfg) (crypto : Crypto) (envs : Nat → LinkEnv) :
    Settled (AuthLink.blank cfg crypto envs) where
  protocol := Protocol.nil
  ups := rfl
  downs := rfl
  started := nofun
  login := nofun
  unasked _ := rfl
  role := nofun
  open_ _ _ := AuthState.noConfusion
  asked := nofun

theorem authLinkOpen_settled {cfg : LinkCfg} {random : Option Key} {envs : Nat → LinkEnv}
    (hopen : authLinkOpen M app bound cfg random envs = some al) : Settled al := by
  unfold authLinkOpen at hopen
  by_cases hpeer : cfg.server = false ∧ cfg.peer = none
  · rw [if_pos hpeer] at hopen
    cases hopen
  rw [if_neg hpeer] at hopen
  split at hopen
  · cases hopen
  · rename_i crypto _
    cases hopen
    have hblank := blank_settled cfg crypto envs
    have hre : ReOk (reenter M app bound) := nested_ok app bound
    refine onTick_settled hblank ?_
    obtain ⟨-, hup⟩ := pollLoop_settled app hre bound (hblank.same (SameLogin.tickConn _))
    rw [(SameLogin.tickConn _).up] at hup
    unfold lateData
    rw [hup]
    rfl

end Life

theorem callbacks_ordered (M : Monocypher) (app : App) (bound : Nat) (cfg : LinkCfg)
    (random : Option Key) (envs : Nat → LinkEnv) {al0 al : AuthLink}
    (hopen : authLinkOpen M app bound cfg random envs = some al0)
    (hrun : Reach (· = al0) (NoLateData M app bound) (AuthLink.step M app bound) al) :
    Protocol al.fired := by
  have hsettled : Settled al := by
    refine hrun.invariant ?_ fun s e hs hlate => step_settled hs hlate
    rintro s rfl
    exact authLinkOpen_settled hopen
  exact hsettled.protocol

/-! ## A server with a client that says goodbye

The client of the sample handshake logs in with a password, sends "hi" and disconnects.
`boxes` holds the values of `crypto_aead_lock` for the datagrams of both directions. -/

namespace Sample

structure Box where
  key : Key
  counter : UInt64
  plain : Bytes
  mac : Nat
  cipher : Bytes

def Box.tag (b : Box) : Mac := Vector.ofFn fun i => UInt8.ofNat (b.mac / 2 ^ (8 * i.val))

/-- CONNECT_INIT of client 5; the server answers as 7. -/
def connectPacket : Bytes := [0x01, 0, 0, 0, 5, 0x01, 0, 0, 0, 5, 0x01]

/-- The client opens its channel, gives credit for the server's and logs in as `b`. -/
def loginPacket : Bytes :=
  [0x02, 0, 0, 0, 7, 0, 0] ++ (Frame.channelOpen 0 0 0 [0x61, 0x75, 0x74, 0x68]).encode ++
    (Frame.windowUpdate 1 65536).encode ++
    (Frame.data 0 0 0 1 [tagAuth, msgHello, 1, 0x62]).encode ++
    (Frame.data 0 1 0 1 [tagAuth, msgPassword, 1, 0x70]).encode

def newsPacket : Bytes :=
  [0x02, 0, 0, 0, 7, 0, 1] ++ (Frame.data 0 2 0 1 [tagApp, 0x68, 0x69]).encode

def byePacket : Bytes := [0x02, 0, 0, 0, 7, 0, 2] ++ (Frame.disconnect 0).encode

def boxes : List Box :=
  [⟨kI2r, 1, connectPacket, 0x2c02f565e51536ad949aca9dbf4f7760,
      [228, 150, 96, 12, 119, 197, 189, 158, 143, 133, 114]⟩,
    ⟨kI2r, 2, loginPacket, 0xacf7e826df8b6ec8340683867f48f58a,
      [103, 157, 216, 3, 248, 82, 238, 86, 92, 235, 96, 10, 246, 38, 58, 124, 100, 211, 66, 220,
       127, 64, 101, 97, 150, 124, 102, 8, 8, 141, 152, 170, 136, 172, 240, 177, 89, 113, 65,
       173, 212, 199, 158, 210, 170, 167]⟩,
    ⟨kI2r, 3, newsPacket, 0x1c86c4fae4a58f984b5929aff1a6ea93,
      [4, 203, 160, 40, 115, 28, 49, 189, 148, 23, 104, 156, 146, 245, 70, 74, 63, 219]⟩,
    ⟨kI2r, 4, byePacket, 0xd5a4f1ea813e1ee9e94f0f025ff67919,
      [224, 88, 198, 146, 199, 219, 188, 109, 248, 78]⟩,
    ⟨kR2i, 1,
      [2, 0, 0, 0, 5, 0, 0, 2, 0, 0, 0, 7, 1, 0, 0, 117, 48, 7, 1, 0, 0, 4, 97, 117, 116, 104],
      0xe5eb626e5e588762aa03912aeaaff152,
      [53, 51, 176, 8, 90, 234, 23, 114, 211, 86, 23, 162, 169, 155, 231, 193, 135, 211, 115, 4,
       61, 13, 220, 114, 235, 50]⟩,
    ⟨kR2i, 2,
      [2, 0, 0, 0, 5, 0, 1, 11, 0, 0, 1, 0, 0, 10, 0, 0, 1, 11, 0, 0, 0, 255, 252, 9, 1, 0, 0,
       0, 3, 0, 1, 160, 17, 2],
      0xf0d258c7d62d363e4d83a612d9659811,
      [124, 102, 254, 8, 51, 81, 228, 41, 229, 81, 206, 214, 55, 72, 48, 61, 255, 255, 82, 255,
       210, 3, 95, 238, 199, 104, 149, 40, 123, 229, 43, 215, 191, 136]⟩,
    ⟨kR2i, 3,
      [2, 0, 0, 0, 5, 0, 2, 11, 0, 0, 1, 0, 0, 9, 1, 0, 1, 0, 2, 0, 1, 160, 20],
      0x1b61ccbc86c5a997291f338f4ec72e46,
      [117, 11, 92, 253, 175, 200, 227, 246, 204, 29, 150, 218, 130, 106, 133, 127, 94, 157,
       226, 147, 96, 138, 121]⟩,
    ⟨kR2i, 4,
      [2, 0, 0, 0, 5, 0, 3, 10, 0, 0, 2, 11, 0, 0, 1, 0, 0],
      0x21e97d87e8b9e4feb5b3129805a821ed,
      [81, 129, 132, 11, 206, 192, 234, 192, 170, 46, 218, 168, 74, 95, 191, 110, 5]⟩]

/-- Monocypher on the values of this conversation. -/
def session : Monocypher where
  x25519 := Monocypher.sample.x25519
  x25519PublicKey := Monocypher.sample.x25519PublicKey
  blake2b := Monocypher.sample.blake2b
  aeadLock key nonce p :=
    match boxes.find? fun b => b.plain == p && nonceOf b.counter == nonce && b.key == key with
    | some b => (b.tag, b.cipher)
    | none => (Vector.replicate 16 0, p)
  aeadUnlock key nonce m ct :=
    (boxes.find? fun b =>
      b.cipher == ct && b.tag == m && nonceOf b.counter == nonce && b.key == key).map Box.plain
  eddsaSign := Monocypher.sample.eddsaSign
  eddsaCheck := Monocypher.sample.eddsaCheck

def clientAddr : Addr := ⟨7, [4, 127, 0, 0, 1, 0x30, 0x39]⟩

def sealedAs (counter : UInt64) (plain : Bytes) : Datagram :=
  ⟨sealedPacket session kI2r counter plain, some clientAddr⟩

/-- The server's application makes no calls. -/
def idleApp : App := fun _ => []

def serverEnvs : Nat → LinkEnv := fun _ => ⟨⟨fun _ => 0, 7⟩, 0, passwordCb⟩

def openedLink : Option AuthLink :=
  authLinkOpen session idleApp 16 ⟨true, none, cfgB, none⟩ none serverEnvs

def serverLink : AuthLink := openedLink.get (by decide +kernel)

theorem openedLink_eq : openedLink = some serverLink := (Option.some_get _).symm

/-- Hello, connect and login. -/
def loggedIn : List LinkEvent :=
  [.readable [⟨ncCryptoHandshakePacket initA 65, some clientAddr⟩],
    .readable [sealedAs 1 connectPacket], .readable [sealedAs 2 loginPacket]]

/-- The last two datagrams wake the link twice. -/
def partedRun : List LinkEvent :=
  loggedIn ++ [.readable [sealedAs 3 newsPacket], .readable [sealedAs 4 byePacket]]

/-- The last two datagrams wake the link once. -/
def joinedRun : List LinkEvent :=
  loggedIn ++ [.readable [sealedAs 3 newsPacket, sealedAs 4 byePacket]]

theorem runs_eval :
    Guarded (NoLateData session idleApp 16) (AuthLink.step session idleApp 16) serverLink
        partedRun ∧
      (partedRun.foldl (AuthLink.step session idleApp 16) serverLink).fired =
        [⟨.up, .ok⟩, ⟨.data [0x68, 0x69], .ok⟩, ⟨.down .peer, .ok⟩] ∧
      (joinedRun.foldl (AuthLink.step session idleApp 16) serverLink).fired =
        [⟨.up, .ok⟩, ⟨.down .peer, .ok⟩, ⟨.data [0x68, 0x69], .ok⟩] := by
  decide +kernel

end Sample

open Sample in
theorem callbacks_ordered_parted :
    (partedRun.foldl (AuthLink.step session idleApp 16) serverLink).fired =
        [⟨.up, .ok⟩, ⟨.data [0x68, 0x69], .ok⟩, ⟨.down .peer, .ok⟩] ∧
      Protocol (partedRun.foldl (AuthLink.step session idleApp 16) serverLink).fired := by
  have hstart : Reach (· = serverLink) (NoLateData session idleApp 16)
      (AuthLink.step session idleApp 16) serverLink := .start rfl
  refine ⟨runs_eval.2.1, ?_⟩
  exact callbacks_ordered session idleApp 16 _ none serverEnvs openedLink_eq
    (hstart.run partedRun runs_eval.1)

open Sample in
/-- Data and DISCONNECT arrive together: `on_data` fires after `on_down`. -/
theorem data_after_down :
    openedLink = some serverLink ∧
      Reach (· = serverLink) (fun _ _ => True) (AuthLink.step session idleApp 16)
        (joinedRun.foldl (AuthLink.step session idleApp 16) serverLink) ∧
      (joinedRun.foldl (AuthLink.step session idleApp 16) serverLink).fired =
        [⟨.up, .ok⟩, ⟨.down .peer, .ok⟩, ⟨.data [0x68, 0x69], .ok⟩] ∧
      ¬Protocol (joinedRun.foldl (AuthLink.step session idleApp 16) serverLink).fired := by
  have hguard : Guarded (fun _ _ => True) (AuthLink.step session idleApp 16) serverLink
      joinedRun := ⟨trivial, trivial, trivial, trivial, trivial⟩
  obtain ⟨-, -, hfired⟩ := runs_eval
  have hstart : Reach (· = serverLink) (fun _ _ => True)
      (AuthLink.step session idleApp 16) serverLink := .start rfl
  refine ⟨openedLink_eq, hstart.run joinedRun hguard, hfired, fun h => ?_⟩
  rw [hfired] at h
  have hlast := h.downLast [⟨.up, .ok⟩] ⟨.down .peer, .ok⟩ [⟨.data [0x68, 0x69], .ok⟩] rfl rfl
  cases hlast

end MechanicalResearcher.NetchanAuth
