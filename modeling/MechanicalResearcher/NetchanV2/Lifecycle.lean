import MechanicalResearcher.NetchanV2.Calls

/-!
# The life of a connection

What the calls do to `state`, `local_id` and the event queue: who may change
the state of a connection, what a packet of another connection can do, and in
which runs a closed connection stays closed.
-/

namespace MechanicalResearcher.NetchanV2

open Lib.BigEndian Lib.Runs

/-- How many CONNECTED events were pushed so far. -/
def Conn.connects (c : Conn) : Nat := c.evLog.count .connected

/-- `c'` is in the state of `c`, has its id, and no CONNECTED event was pushed between them. -/
structure Calm (c c' : Conn) : Prop where
  state : c'.state = c.state
  localId : c'.localId = c.localId
  connects : c'.connects = c.connects

/-- `c'` comes from `c` by changes that touch neither the state nor the ids, and by events
that are neither CONNECTED nor DISCONNECTED. -/
inductive Passive : Conn → Conn → Prop
  | same {c c' : Conn} : c'.state = c.state → c'.localId = c.localId → c'.events = c.events →
      c'.evHead = c.evHead → c'.evTail = c.evTail → c'.evLog = c.evLog →
      c'.nextChanId = c.nextChanId → Passive c c'
  | event (c : Conn) (e : Event) : e.type ≠ .connected → e.type ≠ .disconnected →
      Passive c (evStore c e)
  | trans {c c' c'' : Conn} : Passive c c' → Passive c' c'' → Passive c c''

namespace Passive

variable {c c' c'' : Conn}

theorem refl (c : Conn) : Passive c c := .same rfl rfl rfl rfl rfl rfl rfl

theorem evPush (c : Conn) {t : EvType} (ht : t ≠ .connected) (ht' : t ≠ .disconnected)
    (ch : Option Nat) : Passive c (evPush c t ch) :=
  .event c _ ht ht'

theorem ctrlReserve (c : Conn) (frame : List UInt8) : Passive c (ctrlReserve c frame) := by
  unfold NetchanV2.ctrlReserve
  split_ifs <;> exact .same rfl rfl rfl rfl rfl rfl rfl

theorem ctrlConnectInit (c : Conn) : Passive c (ctrlConnectInit c) := ctrlReserve c _

theorem ctrlConnectAccept (c : Conn) : Passive c (ctrlConnectAccept c) := ctrlReserve c _

theorem ctrlPing (c : Conn) (opaqueId : UInt32) : Passive c (ctrlPing c opaqueId) :=
  ctrlReserve c _

theorem ctrlWindowUpdate (c : Conn) (id : UInt8) (window : UInt32) :
    Passive c (ctrlWindowUpdate c id window) :=
  ctrlReserve c _

theorem lift (c : Conn) (f : Core → Core) : Passive c (c.lift f) :=
  .same rfl rfl rfl rfl rfl rfl rfl

theorem core (c : Conn) (s : Core) : Passive c { c with toCore := s } :=
  .same rfl rfl rfl rfl rfl rfl rfl

end Passive

namespace Calm

variable {c c' c'' : Conn}

theorem refl (c : Conn) : Calm c c := ⟨rfl, rfl, rfl⟩

theorem trans (h : Calm c c') (h' : Calm c' c'') : Calm c c'' :=
  ⟨h'.state.trans h.state, h'.localId.trans h.localId, h'.connects.trans h.connects⟩

theorem evStore (c : Conn) {e : Event} (he : e.type ≠ .connected) : Calm c (evStore c e) := by
  simp only [NetchanV2.evStore]
  split_ifs
  · exact refl c
  · exact ⟨rfl, rfl, by simp [Conn.connects, he]⟩

theorem evPush (c : Conn) {t : EvType} (ht : t ≠ .connected) (ch : Option Nat) :
    Calm c (evPush c t ch) :=
  evStore c ht

end Calm

theorem Passive.calm {c c' : Conn} (h : Passive c c') : Calm c c' := by
  induction h with
  | same hstate hid hev hhead htail hlog hnext =>
    exact ⟨hstate, hid, by rw [Conn.connects, hlog]; rfl⟩
  | event c e he he' => exact Calm.evStore c he
  | trans h h' ih ih' => exact ih.trans ih'

theorem Passive.nextChanId {c c' : Conn} (h : Passive c c') : c'.nextChanId = c.nextChanId := by
  induction h with
  | same hstate hid hev hhead htail hlog hnext => exact hnext
  | event c e he he' =>
    simp only [evStore]
    split_ifs <;> rfl
  | trans h h' ih ih' => exact ih'.trans ih

theorem deliverOne_passive (c : Conn) (k : Nat) : Passive c (deliverOne c k) := by
  simp only [deliverOne]
  exact (((Passive.lift c _).trans (Passive.evPush _ (by decide) (by decide) _)).trans
    (Passive.lift _ _)).trans (Passive.lift _ _)

theorem deliverLoop_passive (fuel : Nat) (c : Conn) (k : Nat) :
    Passive c (deliverLoop fuel c k) :=
  deliverLoop_rule (fun d _ h => h.trans (deliverOne_passive d k)) fuel (Passive.refl c)

theorem deliverReliable_passive (c : Conn) (k : Nat) (seq : UInt16) (data : List UInt8) :
    Passive c (deliverReliable c k seq data) := by
  simp only [deliverReliable]
  split_ifs
  · exact (((Passive.lift c _).trans (Passive.evPush _ (by decide) (by decide) _)).trans
      (Passive.lift _ _)).trans (deliverLoop_passive _ _ k)
  · exact Passive.lift c _
  · exact Passive.refl c

theorem acceptData_passive (c : Conn) (id : UInt8) (seq : UInt16) (fragIdx fragTotal : Nat)
    (payload : List UInt8) : Passive c (acceptData c id seq fragIdx fragTotal payload) := by
  unfold acceptData
  split
  · exact Passive.refl c
  · split_ifs
    · exact Passive.refl c
    · unfold acceptDataUnreliable
      split_ifs
      · exact (Passive.lift c _).trans (Passive.evPush _ (by decide) (by decide) _)
      · split
        · exact Passive.core c _
        · exact ((Passive.core c _).trans (Passive.evPush _ (by decide) (by decide) _)).trans
            (Passive.lift _ _)
    · simp only [acceptDataReliable]
      split_ifs
      · exact (deliverReliable_passive c _ _ _).trans (Passive.lift _ _)
      · split
        · exact (Passive.core c _).trans (Passive.lift _ _)
        · exact (((Passive.core c _).trans (deliverReliable_passive _ _ _ _)).trans
            (Passive.lift _ _)).trans (Passive.lift _ _)

/-- The frames that do not touch the state of the connection. -/
def Frame.calm : Frame → Bool
  | connectInit _ _ | connectAccept _ _ _ | disconnect _ => false
  | _ => true

theorem Frame.apply_passive (env : Env) (now : UInt32) (c : Conn) {f : Frame}
    (hf : f.calm = true) : Passive c (f.apply env now c) := by
  cases f with
  | connectInit clientId version => cases hf
  | connectAccept serverId version idle => cases hf
  | disconnect reason => cases hf
  | connectRedirect newId addr => exact Passive.event c _ (by simp) (by simp)
  | ping opaqueId => exact Passive.ctrlReserve c _
  | pong opaqueId =>
    simp only [apply, acceptPong]
    split_ifs <;> exact .same rfl rfl rfl rfl rfl rfl rfl
  | channelOpen id type dir ct =>
    simp only [apply, acceptChannelOpen]
    split
    · exact Passive.ctrlReserve c _
    · split
      · exact Passive.ctrlReserve c _
      · refine Passive.trans ?_ (Passive.evPush _ (by decide) (by decide) _)
        split
        · exact (Passive.core c _).trans (Passive.ctrlReserve _ _)
        · exact Passive.core c _
  | channelClose id error =>
    simp only [apply, acceptChannelClose]
    split
    · exact Passive.refl c
    · exact (Passive.lift c _).trans (Passive.evPush _ (by decide) (by decide) _)
  | data id seq fragIdx fragTotal payload => exact acceptData_passive c id seq _ _ payload
  | ack id seq =>
    simp only [apply, acceptAck]
    split
    · exact Passive.refl c
    · split_ifs
      · exact Passive.refl c
      · exact Passive.lift c _
  | windowUpdate id window =>
    simp only [apply, acceptWindowUpdate]
    split
    · exact Passive.refl c
    · split_ifs
      · exact Passive.lift c _
      · exact Passive.refl c

theorem Frame.apply_localId (env : Env) (now : UInt32) {c : Conn} (hc : c.state ≠ .new)
    (f : Frame) :
    (f.apply env now c).localId = c.localId ∧ (f.apply env now c).state ≠ .new := by
  by_cases hf : f.calm = true
  · have h := (Frame.apply_passive env now c hf).calm
    exact ⟨h.localId, by rw [h.state]; exact hc⟩
  · cases f with
    | connectInit clientId version => simp [apply, acceptConnectInit, hc]
    | connectAccept serverId version idle =>
      simp only [apply, acceptConnectAccept, evPush, evStore]
      split_ifs <;> simp
    | disconnect reason =>
      simp only [apply, evPush, evStore]
      split_ifs <;> simp
    | _ => simp [calm] at hf

/-- A packet that carries the long header with another connection's id is refused and
changes nothing; no packet changes the id of a connection that has one. -/
theorem feed_foreign_id {c : Conn} (hstate : c.state = .connected) (env : Env)
    (pkt : List UInt8) (src : Option Addr) (hid : rd32 (pkt.drop 1) ≠ c.localId) :
    (pkt.headD 0 &&& ncPktFlagInit = 0 → netchanFeed env c pkt src = (c, .error .proto)) ∧
      (netchanFeed env c pkt src).1.localId = c.localId := by
  constructor
  · intro hinit
    simp only [netchanFeed, hinit, hid, ne_eq, not_true_eq_false, not_false_eq_true, true_and,
      if_true, ite_self]
  · have h := netchanFeed_induct env c pkt src
      (P := fun c' => c'.localId = c.localId ∧ c'.state ≠ .new) id
      (fun c' fn _ hc' => ?_) ⟨rfl, by rw [hstate]; decide⟩
    · exact h.1
    · obtain ⟨h1, h2⟩ := fn.1.apply_localId env (env.nowMs fn.2) hc'.2
      exact ⟨h1.trans hc'.1, h2⟩

/-- A server after the CONNECT_INIT of client 5 and `netchan_accept`. -/
def acceptedServer : Conn :=
  (netchanOpen true netchanCfgDefault).run
    [.feed quietEnv [0x01, 0, 0, 0, 5, 0x01, 0, 0, 0, 5, 0x01] none, .accept]

theorem feed_foreign_id_accepted :
    acceptedServer.state = .connected ∧
      netchanFeed quietEnv acceptedServer [0x02, 0, 0, 0, 0, 0, 0, 0x04, 0, 0] none =
        (acceptedServer, .error .proto) :=
  ⟨by decide, (feed_foreign_id (by decide) quietEnv _ none (by decide)).1 (by decide)⟩

/-- A DISCONNECT behind an INIT header closes a connection whatever id the header carries. -/
theorem init_header_closes :
    acceptedServer.state = .connected ∧
      rd32 (List.drop 1 [0x01, 0, 0, 0, 0, 0x04, 0, 0]) ≠ acceptedServer.localId ∧
      (netchanFeed quietEnv acceptedServer [0x01, 0, 0, 0, 0, 0x04, 0, 0] none).1.state =
        .closed := by
  decide

def Frame.isAccept : Frame → Bool
  | connectAccept _ _ _ => true
  | _ => false

/-- A packet that is fed has no CONNECT_ACCEPT frame that `parse_frames` would reach. -/
def NoAcceptFed (c : Conn) : Act → Prop
  | .feed _ pkt _ => ∀ fn ∈ fedFrames c pkt, fn.1.isAccept = false
  | _ => True

/-- Closed, with `n` CONNECTED events pushed so far. -/
def ClosedWith (n : Nat) (c : Conn) : Prop := c.state = .closed ∧ c.connects = n

theorem ClosedWith.of_calm {n : Nat} {c c' : Conn} (h : ClosedWith n c) (hc : Calm c c') :
    ClosedWith n c' :=
  ⟨hc.state.trans h.1, hc.connects.trans h.2⟩

theorem ClosedWith.of_passive {n : Nat} {c c' : Conn} (h : ClosedWith n c) (hc : Passive c c') :
    ClosedWith n c' :=
  h.of_calm hc.calm

theorem Frame.apply_closed {n : Nat} (env : Env) (now : UInt32) {c : Conn} (h : ClosedWith n c)
    {f : Frame} (hf : f.isAccept = false) :
    ClosedWith n (f.apply env now c) := by
  by_cases hcalm : f.calm = true
  · exact h.of_passive (Frame.apply_passive env now c hcalm)
  · cases f with
    | connectInit clientId version =>
      have hne : c.state ≠ .new := by rw [h.1]; decide
      simpa [apply, acceptConnectInit, hne, ClosedWith, Conn.connects] using h
    | connectAccept serverId version idle => cases hf
    | disconnect reason =>
      have hclosed : ClosedWith n { c with state := .closed } := ⟨rfl, h.2⟩
      exact hclosed.of_calm (Calm.evPush _ (by decide) _)
    | _ => simp [calm] at hcalm

theorem flushAck_passive (mtu : Nat) (c : Conn) (k : Nat) (out : List UInt8) :
    Passive c (flushAck mtu c k out).1 := by
  rw [flushAck_eq]
  split_ifs
  · exact Passive.lift c _
  · exact Passive.refl c

theorem flushWindow_passive (mtu : Nat) (c : Conn) (k : Nat) (out : List UInt8) :
    Passive c (flushWindow mtu c k out).1 := by
  rw [flushWindow_eq]
  split_ifs
  · exact Passive.lift c _
  · exact Passive.refl c

theorem flushAcks_passive (mtu : Nat) (is : List Nat) (c : Conn) (out : List UInt8) :
    Passive c (flushAcks mtu is c out).1 :=
  flushAcks_rule (P := fun d _ => Passive c d) (fun d k _ out _ h =>
    (h.trans (flushAck_passive mtu d k out)).trans (flushWindow_passive mtu _ k _)) is
    (Passive.refl c)

theorem sendData_passive (env : Env) (mtu : Nat) (is : List Nat) (c : Conn) (out : List UInt8) :
    Passive c (sendData env mtu is c out).1 :=
  sendData_rule (P := fun d _ => Passive c d)
    (fun d _ _ _ _ _ _ _ _ _ h => h.trans (Passive.lift d _)) is (Passive.refl c)

theorem netchanSendNext_passive (env : Env) (c : Conn) (buflen : Nat) :
    Passive c (netchanSendNext env c buflen).1 := by
  rw [netchanSendNext_eq]
  split_ifs
  · exact Passive.refl c
  · generalize min c.cfg.mtu.toNat buflen = mtu
    have hctrl : Passive c (packetCtrl mtu c).1 := by
      simp only [packetCtrl, flushCtrl, sendHeader]
      split_ifs <;> exact .same rfl rfl rfl rfl rfl rfl rfl
    have hall : Passive c (packetData env mtu c).1 :=
      (hctrl.trans (flushAcks_passive mtu _ _ _)).trans (sendData_passive env mtu _ _ _)
    exact hall.trans (.same rfl rfl rfl rfl rfl rfl rfl)

theorem serviceSlots_passive (now : UInt32) (k : Nat) (js : List Nat) (c : Conn) (nextMs : Int) :
    Passive c (serviceSlots now k js c nextMs).1 :=
  serviceSlots_rule
    (fun d h => h.trans ((Passive.lift d _).trans (Passive.evPush _ (by decide) (by decide) _)))
    (fun d _ _ _ h => h.trans (Passive.lift d _)) (Passive.refl c) nextMs

theorem serviceChannels_passive (now : UInt32) (is : List Nat) (c : Conn) (nextMs : Int) :
    Passive c (serviceChannels now is c nextMs).1 :=
  serviceChannels_rule (fun d k _ ms _ h => h.trans (serviceSlots_passive now k _ d ms)) is
    (Passive.refl c) nextMs

theorem netchanService_closed (env : Env) {c : Conn} (hc : c.state = .closed) (now : UInt32) :
    Passive c (netchanService env c now).1 := by
  have h1 : serviceHandshake c now = (c, some (-1)) := by simp [serviceHandshake, hc]
  have h2 : serviceIdle c now (-1) = (c, some (-1)) := by simp [serviceIdle, hc]
  have h3 : servicePing env c now (-1) = (c, -1) := by simp [servicePing, hc]
  simp only [netchanService, h1, h2, h3]
  exact serviceChannels_passive now _ c _

theorem netchanChanClose_passive (c : Conn) (k : Nat) : Passive c (netchanChanClose c k) := by
  unfold netchanChanClose
  split_ifs
  · exact Passive.refl c
  · exact (Passive.ctrlReserve c _).trans (Passive.lift _ _)

theorem Conn.step_closed {n : Nat} {c : Conn} (h : ClosedWith n c) {a : Act}
    (ha : NoAcceptFed c a) : ClosedWith n (c.step a) := by
  cases a with
  | connect env addr => simpa [step, netchanConnect, h.1] using h
  | accept => simpa [step, netchanAccept, h.1] using h
  | feed env pkt src =>
    exact netchanFeed_induct env c pkt src (P := ClosedWith n) (fun hc => ⟨hc.1, hc.2⟩)
      (fun c' fn hfn hc' => Frame.apply_closed env _ hc' (ha fn hfn)) h
  | sendNext env buflen => exact h.of_passive (netchanSendNext_passive env c buflen)
  | service env now => exact h.of_passive (netchanService_closed env h.1 now)
  | chanOpen type dir contentType => simpa [step, netchanChanOpen, h.1] using h
  | chanClose k =>
    simp only [step]
    split_ifs
    · exact h.of_passive (netchanChanClose_passive c k)
    · exact h
  | chanWrite k data =>
    simp only [step]
    split_ifs
    · exact h.of_passive (Passive.core c _)
    · exact h
  | chanRead k buflen =>
    simp only [step]
    split_ifs
    · exact h.of_passive (Passive.core c _)
    · exact h
  | poll =>
    simp only [step, netchanPoll]
    split_ifs <;> exact h

/-- A closed connection stays closed in every run that feeds it no CONNECT_ACCEPT frame. -/
theorem closed_absorbing {c c' : Conn} (hclosed : c.state = .closed)
    (h : Reach (fun s => s = c) NoAcceptFed Conn.step c') :
    c'.state = .closed ∧ c'.connects = c.connects := by
  refine Reach.invariant (P := ClosedWith c.connects) ?_ (fun s a hs ha => s.step_closed hs ha) h
  rintro s rfl
  exact ⟨hclosed, rfl⟩

/-- A client whose connection attempts all timed out. -/
def givenUpClient : Conn :=
  (netchanOpen false netchanCfgDefault).run
    [.connect quietEnv Addr.unset, .service quietEnv 500, .service quietEnv 1000,
      .service quietEnv 1500, .service quietEnv 2000, .service quietEnv 2500]

theorem closed_absorbing_disconnect :
    givenUpClient.state = .closed ∧
      (givenUpClient.step (.feed quietEnv [0x02, 0, 0, 0, 7, 0, 0, 0x04, 0, 0] none)).state =
        .closed :=
  ⟨by decide, (closed_absorbing (c := givenUpClient) (by decide)
    (Reach.next (.start rfl) (by unfold NoAcceptFed; decide))).1⟩

/-- The answer to an earlier attempt reopens the connection. -/
theorem late_accept_reopens :
    givenUpClient.Reachable ∧ givenUpClient.state = .closed ∧
      (givenUpClient.step (.feed quietEnv
        [0x02, 0, 0, 0, 7, 0, 0, 0x02, 0, 0, 0, 9, 0x01, 0, 0, 0, 0] none)).state =
          .connected ∧
      (givenUpClient.step (.feed quietEnv
        [0x02, 0, 0, 0, 7, 0, 0, 0x02, 0, 0, 0, 9, 0x01, 0, 0, 0, 0] none)).connects =
          givenUpClient.connects + 1 :=
  ⟨(reachable_open _ _).run _, by decide, by decide, by decide⟩

end MechanicalResearcher.NetchanV2
