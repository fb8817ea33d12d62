import MechanicalResearcher.Lib.Ring
import MechanicalResearcher.NetchanV2.Lifecycle

/-!
# The event queue

The ring of a connection holds 15 events and a push into a full one is lost
without a trace.  `Conn.pending` is the queue the ring stands for, and a drain
returns it.  The account kept here is for the DISCONNECTED events: those that were
polled and those that a drain still returns, against the transitions into the
closed state.
-/

namespace MechanicalResearcher.NetchanV2

open Lib Lib.BigEndian Lib.Runs

/-! ## The queue of a ring -/

/-- The events `netchan_poll` will return, the oldest first. -/
def Conn.pending (c : Conn) : List Event :=
  Ring.contents ncEventQueue c.events c.evHead c.evTail

/-- The indices are those of cells. -/
structure Conn.EvOk (c : Conn) : Prop where
  head : c.evHead < ncEventQueue
  tail : c.evTail < ncEventQueue

/-- One more event fits. -/
def Conn.EvRoom (c : Conn) : Prop := (c.evTail + 1) % ncEventQueue ≠ c.evHead

instance (c : Conn) : Decidable c.EvRoom := inferInstanceAs (Decidable (_ ≠ _))

def Event.isDisconnected (e : Event) : Bool := e.type == .disconnected

/-- The DISCONNECTED events among those pending. -/
def Conn.disconnects (c : Conn) : Nat := c.pending.countP Event.isDisconnected

theorem evStore_full {c : Conn} (h : ¬c.EvRoom) (e : Event) : evStore c e = c := by
  simp only [evStore]
  exact if_pos (not_not.1 h)

theorem evStore_room {c : Conn} (h : c.EvRoom) (e : Event) :
    evStore c e =
      { c with
        events := Function.update c.events c.evTail e
        evTail := (c.evTail + 1) % ncEventQueue
        evLog := c.evLog ++ [e.type] } := by
  simp only [evStore]
  exact if_neg h

theorem Conn.EvOk.evStore {c : Conn} (h : c.EvOk) (e : Event) : (evStore c e).EvOk := by
  by_cases hroom : c.EvRoom
  · rw [evStore_room hroom]
    exact ⟨h.head, Ring.next_lt h.tail⟩
  · rw [evStore_full hroom]
    exact h

theorem evStore_pending {c : Conn} (h : c.EvOk) (hroom : c.EvRoom) (e : Event) :
    (evStore c e).pending = c.pending ++ [e] := by
  have hsame : ∀ i < Ring.len ncEventQueue c.evHead c.evTail,
      Function.update c.events c.evTail e ((c.evHead + i) % ncEventQueue) =
        c.events ((c.evHead + i) % ncEventQueue) := fun i hi =>
    Function.update_of_ne (Ring.cell_ne_tail h.head h.tail hi) _ _
  have hpush := Ring.contents_push h.head h.tail hroom hsame
  rw [Function.update_self] at hpush
  rw [evStore_room hroom]
  exact hpush

theorem evStore_disconnects {c : Conn} (h : c.EvOk) (hroom : c.EvRoom) (e : Event) :
    (evStore c e).disconnects = c.disconnects + if e.isDisconnected then 1 else 0 := by
  unfold Conn.disconnects
  rw [evStore_pending h hroom, List.countP_append, List.countP_singleton]

theorem pending_empty {c : Conn} (h : c.EvOk) (hempty : c.evHead = c.evTail) :
    c.pending = [] := by
  unfold Conn.pending Ring.contents
  rw [hempty, Ring.len_self h.tail]
  rfl

theorem netchanPoll_pending {c : Conn} (h : c.EvOk) :
    c.pending = (netchanPoll c).2.toList ++ (netchanPoll c).1.pending ∧
      (netchanPoll c).1.EvOk := by
  unfold netchanPoll
  split_ifs with hempty
  · exact ⟨rfl, h⟩
  · exact ⟨Ring.contents_cons c.events h.head h.tail hempty, Ring.next_lt h.head, h.tail⟩

/-! ## Draining -/

/-- Poll until there is nothing left, and what the polls returned. -/
def drainLoop : Nat → Conn → Conn × List Event
  | 0, c => (c, [])
  | fuel + 1, c =>
    match netchanPoll c with
    | (c, none) => (c, [])
    | (c, some e) => ((drainLoop fuel c).1, e :: (drainLoop fuel c).2)

/-- The ring has fewer events than cells. -/
def drain (c : Conn) : Conn × List Event := drainLoop ncEventQueue c

theorem drainLoop_spec (fuel : Nat) {c : Conn} (h : c.EvOk) (hlen : c.pending.length ≤ fuel) :
    (drainLoop fuel c).2 = c.pending ∧ (drainLoop fuel c).1.pending = [] := by
  induction fuel generalizing c with
  | zero =>
    have hnil := List.eq_nil_of_length_eq_zero (Nat.le_zero.1 hlen)
    exact ⟨hnil.symm, hnil⟩
  | succ fuel ih =>
    obtain ⟨hp, hok⟩ := netchanPoll_pending h
    unfold drainLoop
    rcases hpoll : netchanPoll c with ⟨c', _ | e⟩
    · rw [hpoll] at hp hok
      have hempty : c.evHead = c.evTail := by
        by_contra hne
        simp [netchanPoll, hne] at hpoll
      have hnil := pending_empty h hempty
      rw [hnil] at hp
      exact ⟨hnil.symm, by simpa using hp.symm⟩
    · rw [hpoll] at hp hok
      dsimp only at hp hok ⊢
      have hlen' : c'.pending.length ≤ fuel := by
        rw [hp] at hlen
        simpa using hlen
      obtain ⟨h1, h2⟩ := ih hok hlen'
      rw [h1, h2, hp]
      exact ⟨rfl, rfl⟩

theorem drain_spec {c : Conn} (h : c.EvOk) :
    (drain c).2 = c.pending ∧ (drain c).1.pending = [] := by
  refine drainLoop_spec _ h ?_
  unfold Conn.pending
  rw [Ring.length_contents]
  exact (Ring.len_lt h.head h.tail).le

/-! ## The account of a step -/

/-- The step from `c` to `c'` is a transition into the closed state. -/
def closes (c c' : Conn) : Nat := if c.state ≠ .closed ∧ c'.state = .closed then 1 else 0

theorem closes_eq_zero {c c' : Conn} (h : c'.state = .closed → c.state = .closed) :
    closes c c' = 0 :=
  if_neg fun hc => hc.1 (h hc.2)

/-- The ring stays in order and has `n` more DISCONNECTED events. -/
structure Reports (n : Nat) (c c' : Conn) : Prop where
  ok : c'.EvOk
  count : c'.disconnects = c.disconnects + n

namespace Reports

variable {n m : Nat} {c c' c'' : Conn}

theorem trans (h : Reports n c c') (h' : Reports m c' c'') : Reports (n + m) c c'' :=
  ⟨h'.ok, by rw [h'.count, h.count, Nat.add_assoc]⟩

theorem quiet (h : Reports n c c') (h' : Reports 0 c' c'') : Reports n c c'' := h.trans h'

theorem of_eq (hc : c.EvOk) (hev : c'.events = c.events) (hhead : c'.evHead = c.evHead)
    (htail : c'.evTail = c.evTail) : Reports 0 c c' := by
  refine ⟨⟨hhead ▸ hc.head, htail ▸ hc.tail⟩, ?_⟩
  unfold Conn.disconnects Conn.pending
  rw [hev, hhead, htail, Nat.add_zero]

theorem evStore_other (hc : c.EvOk) {e : Event} (he : e.type ≠ .disconnected) :
    Reports 0 c (evStore c e) := by
  refine ⟨hc.evStore e, ?_⟩
  by_cases hroom : c.EvRoom
  · rw [evStore_disconnects hc hroom, if_neg]
    simpa [Event.isDisconnected] using he
  · rw [evStore_full hroom, Nat.add_zero]

theorem close (hc : c.EvOk) (hroom : c.EvRoom) :
    Reports 1 c (evPush { c with state := .closed } .disconnected none) := by
  have hc' : Conn.EvOk { c with state := .closed } := ⟨hc.head, hc.tail⟩
  refine ⟨hc'.evStore _, ?_⟩
  exact evStore_disconnects hc' hroom _

end Reports

theorem evPush_state (c : Conn) (t : EvType) (ch : Option Nat) :
    (evPush c t ch).state = c.state := by
  simp only [evPush, evStore]
  split_ifs <;> rfl

theorem Passive.reports {c c' : Conn} (h : Passive c c') (hc : c.EvOk) : Reports 0 c c' := by
  induction h with
  | same hstate hid hev hhead htail hlog hnext => exact Reports.of_eq hc hev hhead htail
  | event c e he he' => exact Reports.evStore_other hc he'
  | trans h h' ih ih' => exact (ih hc).quiet (ih' (ih hc).ok)

/-- The transition is counted and its event is there. -/
def Accounted (c c' : Conn) : Prop := Reports (closes c c') c c'

theorem Accounted.of_reports {c c' : Conn} (h : Reports 0 c c')
    (hstate : c'.state = .closed → c.state = .closed) : Accounted c c' := by
  unfold Accounted
  rw [closes_eq_zero hstate]
  exact h

theorem Passive.accounted {c c' : Conn} (h : Passive c c') (hc : c.EvOk) : Accounted c c' :=
  .of_reports (h.reports hc) fun hs => h.calm.state ▸ hs

theorem Accounted.close {c : Conn} (hc : c.EvOk) (hroom : c.EvRoom) (hstate : c.state ≠ .closed) :
    Accounted c (evPush { c with state := .closed } .disconnected none) := by
  have hcloses : closes c (evPush { c with state := .closed } .disconnected none) = 1 :=
    if_pos ⟨hstate, evPush_state _ _ _⟩
  unfold Accounted
  rw [hcloses]
  exact Reports.close hc hroom

theorem Accounted.connect {c c' : Conn} (h : Reports 0 c c') (hstate : c'.state = .connected) :
    Accounted c (evPush c' .connected none) := by
  have hev : Reports 0 c' (evPush c' .connected none) := Reports.evStore_other h.ok (by simp)
  refine .of_reports (h.quiet hev) fun hs => ?_
  rw [evPush_state, hstate] at hs
  cases hs

/-! ## Frames -/

def Frame.isDisconnect : Frame → Bool
  | disconnect _ => true
  | _ => false

/-- A DISCONNECT frame finds a connection that is not closed yet and room for its event. -/
def DisconnectFits (c : Conn) (f : Frame) : Prop :=
  f.isDisconnect = true → c.state ≠ .closed ∧ c.EvRoom

instance (c : Conn) (f : Frame) : Decidable (DisconnectFits c f) :=
  inferInstanceAs (Decidable (_ → _))

theorem Frame.apply_accounted (env : Env) (now : UInt32) {c : Conn} (hc : c.EvOk) {f : Frame}
    (hf : DisconnectFits c f) : Accounted c (f.apply env now c) := by
  by_cases hcalm : f.calm = true
  · exact (f.apply_passive env now c hcalm).accounted hc
  · cases f with
    | connectInit clientId version =>
      simp only [apply, acceptConnectInit]
      split_ifs
      · exact .of_reports (Reports.of_eq hc rfl rfl rfl) (by simp)
      · exact .of_reports (Reports.of_eq hc rfl rfl rfl) id
    | connectAccept serverId version idle =>
      exact Accounted.connect (Reports.of_eq hc rfl rfl rfl) rfl
    | disconnect reason =>
      obtain ⟨hstate, hroom⟩ := hf rfl
      exact Accounted.close hc hroom hstate
    | _ => simp [calm] at hcalm

/-- The transitions while the frames of a packet are applied. -/
def frameClosings (env : Env) : Conn → List (Frame × Nat) → Nat
  | _, [] => 0
  | c, fn :: fs =>
    closes c (fn.1.apply env (env.nowMs fn.2) c) +
      frameClosings env (fn.1.apply env (env.nowMs fn.2) c) fs

theorem applyFrames_reports (env : Env) {fs : List (Frame × Nat)} {c : Conn} (hc : c.EvOk)
    (hfs : FramesOk DisconnectFits env c fs) :
    Reports (frameClosings env c fs) c (applyFrames env c fs) := by
  induction fs generalizing c with
  | nil => exact Reports.of_eq hc rfl rfl rfl
  | cons fn fs ih =>
    have h := fn.1.apply_accounted env (env.nowMs fn.2) hc hfs.1
    exact Reports.trans h (ih h.ok hfs.2)

/-! ## Calls -/

/-- `netchan_service` gives the connection up: the last connection attempt was not answered,
or nothing came for the idle time. -/
def Conn.TimesOut (c : Conn) (now : UInt32) : Prop :=
  (c.state = .connecting ∧ c.server = false ∧ ncConnectRetryMs ≤ now - c.connectSentMs ∧
      ncConnectRetries ≤ c.connectAttempts) ∨
    (c.state = .connected ∧ 0 < c.lastRecvMs ∧ c.cfg.idleTimeoutMs ≤ now - c.lastRecvMs)

instance (c : Conn) (now : UInt32) : Decidable (c.TimesOut now) :=
  inferInstanceAs (Decidable (_ ∨ _))

/-- Whatever closes the connection finds it open and finds room in the event queue. -/
def RoomToReport (c : Conn) : Act → Prop
  | .feed env pkt src => FedOk DisconnectFits c (env, src) pkt
  | .service _ now => c.TimesOut now → c.EvRoom
  | _ => True

instance (c : Conn) : (a : Act) → Decidable (RoomToReport c a)
  | .feed _ _ _ => inferInstanceAs (Decidable (FramesOk _ _ _ _))
  | .service _ now => inferInstanceAs (Decidable (c.TimesOut now → c.EvRoom))
  | .connect _ _ | .accept | .sendNext _ _ | .chanOpen _ _ _ | .chanClose _ | .chanWrite _ _
  | .chanRead _ _ | .poll => isTrue trivial

/-- The transitions into the closed state during one call. -/
def Conn.closings (c : Conn) : Act → Nat
  | .feed env pkt src => frameClosings env (c.heard env pkt src) (fedFrames c pkt)
  | a => closes c (c.step a)

/-- What a call returns to the application of the event queue. -/
def Conn.polled (c : Conn) : Act → List Event
  | .poll => (netchanPoll c).2.toList
  | _ => []

theorem netchanChanOpen_passive (c : Conn) (type dir : Nat) (ct : Option (List UInt8)) :
    (netchanChanOpen c type dir ct).1 = c ∨
      Passive { c with nextChanId := c.nextChanId + 2 } (netchanChanOpen c type dir ct).1 := by
  simp only [netchanChanOpen]
  generalize (if dir = netchanDirSend then Role.sender else Role.receiver) = role
  split
  · exact Or.inl rfl
  · split
    · exact Or.inl rfl
    · refine Or.inr ?_
      split
      · exact Passive.refl _
      · rename_i s k _
        have hopen : Passive { c with nextChanId := c.nextChanId + 2 } (ctrlChannelOpen
            { c with toCore := s, nextChanId := c.nextChanId + 2 } (s.chanPool k)) :=
          (Passive.core _ s).trans (Passive.ctrlReserve _ _)
        split_ifs
        · dsimp only
          exact (hopen.trans (Passive.ctrlWindowUpdate _ _ _)).trans (Passive.lift _ _)
        · exact hopen

theorem netchanChanOpen_accounted {c : Conn} (hc : c.EvOk) (type dir : Nat)
    (ct : Option (List UInt8)) : Accounted c (netchanChanOpen c type dir ct).1 := by
  rcases netchanChanOpen_passive c type dir ct with heq | h
  · rw [heq]
    exact (Passive.refl c).accounted hc
  · have hset : Reports 0 c { c with nextChanId := c.nextChanId + 2 } :=
      Reports.of_eq hc rfl rfl rfl
    exact .of_reports (hset.quiet (h.reports hset.ok)) fun hs => h.calm.state.symm.trans hs

theorem netchanFeed_reports (env : Env) {c : Conn} (hc : c.EvOk) (pkt : List UInt8)
    (src : Option Addr) (hok : RoomToReport c (.feed env pkt src)) :
    Reports (c.closings (.feed env pkt src)) c (netchanFeed env c pkt src).1 := by
  have hheard : Reports 0 c (c.heard env pkt src) := Reports.of_eq hc rfl rfl rfl
  have h := hheard.trans (applyFrames_reports env hheard.ok hok)
  rw [Nat.zero_add] at h
  have hclosings : c.closings (.feed env pkt src) =
      frameClosings env (c.heard env pkt src) (fedFrames c pkt) := rfl
  rw [netchanFeed_eq, hclosings]
  unfold fedFrames at h ⊢
  split_ifs with hhead
  · rw [if_pos hhead] at h
    exact h
  · exact Reports.of_eq hc rfl rfl rfl

theorem serviceHandshake_quiet {c : Conn} {now : UInt32} (hto : ¬c.TimesOut now) :
    ∃ c' ms, serviceHandshake c now = (c', some ms) ∧ Passive c c' ∧
      (c.state = .connected → c' = c) := by
  unfold serviceHandshake
  dsimp only
  split_ifs with hst helapsed hretry
  · exact absurd (Or.inl ⟨hst.1, hst.2, helapsed, hretry⟩) hto
  · refine ⟨_, _, rfl, (Passive.ctrlConnectInit c).trans ?_, fun hs => ?_⟩
    · exact .same rfl rfl rfl rfl rfl rfl rfl
    · rw [hst.1] at hs
      cases hs
  · exact ⟨_, _, rfl, Passive.refl c, fun _ => rfl⟩
  · exact ⟨_, _, rfl, Passive.refl c, fun _ => rfl⟩

theorem serviceIdle_quiet {c : Conn} {now : UInt32} (hto : ¬c.TimesOut now ∨ c.state ≠ .connected)
    (ms : Int) : ∃ ms', serviceIdle c now ms = (c, some ms') := by
  unfold serviceIdle
  dsimp only
  split_ifs with hst hidle
  · rcases hto with hto | hne
    · exact absurd (Or.inr ⟨hst.1, hst.2, hidle⟩) hto
    · exact absurd hst.1 hne
  · exact ⟨_, rfl⟩
  · exact ⟨_, rfl⟩

theorem servicePing_passive (env : Env) (c : Conn) (now : UInt32) (ms : Int) :
    Passive c (servicePing env c now ms).1 := by
  unfold servicePing
  dsimp only
  split_ifs
  · have hset : Passive c { c with pingOpaque := ncRandomId env } :=
      .same rfl rfl rfl rfl rfl rfl rfl
    exact (hset.trans (Passive.ctrlPing _ _)).trans (.same rfl rfl rfl rfl rfl rfl rfl)
  · exact Passive.refl c
  · exact Passive.refl c
  · exact Passive.refl c

theorem netchanService_passive (env : Env) {c : Conn} {now : UInt32} (hto : ¬c.TimesOut now) :
    Passive c (netchanService env c now).1 := by
  obtain ⟨c1, ms, hhand, hpass, hsame⟩ := serviceHandshake_quiet hto
  have hidle : ¬c1.TimesOut now ∨ c1.state ≠ .connected := by
    by_cases hs : c.state = .connected
    · exact Or.inl (hsame hs ▸ hto)
    · exact Or.inr (hpass.calm.state ▸ hs)
  obtain ⟨ms', hquiet⟩ := serviceIdle_quiet hidle ms
  simp only [netchanService, hhand, hquiet]
  exact (hpass.trans (servicePing_passive env c1 now ms')).trans (serviceChannels_passive now _ _ _)

theorem netchanService_timesOut (env : Env) {c : Conn} {now : UInt32} (hto : c.TimesOut now) :
    c.state ≠ .closed ∧
      (netchanService env c now).1 = evPush { c with state := .closed } .disconnected none := by
  rcases hto with ⟨hst, hserver, helapsed, hretry⟩ | ⟨hst, hrecv, hidle⟩
  · refine ⟨by simp [hst], ?_⟩
    simp [netchanService, serviceHandshake, hst, hserver, helapsed, hretry]
  · refine ⟨by simp [hst], ?_⟩
    simp [netchanService, serviceHandshake, serviceIdle, hst, hrecv, hidle]

theorem netchanService_accounted (env : Env) {c : Conn} (hc : c.EvOk) {now : UInt32}
    (hok : c.TimesOut now → c.EvRoom) : Accounted c (netchanService env c now).1 := by
  by_cases hto : c.TimesOut now
  · obtain ⟨hst, heq⟩ := netchanService_timesOut env hto
    rw [heq]
    exact Accounted.close hc (hok hto) hst
  · exact (netchanService_passive env hto).accounted hc

theorem Conn.step_reports {c : Conn} (hc : c.EvOk) {a : Act} (ha : RoomToReport c a)
    (hpoll : a ≠ .poll) : Reports (c.closings a) c (c.step a) := by
  cases a with
  | connect env addr =>
    show Accounted c (netchanConnect env c addr).1
    simp only [netchanConnect]
    split_ifs
    · exact (Passive.refl c).accounted hc
    · exact (Passive.refl c).accounted hc
    · have hset : Reports 0 c { c with
          localId := ncRandomId env, peerAddr := addr, state := .connecting } :=
        Reports.of_eq hc rfl rfl rfl
      have hinit := Passive.ctrlConnectInit { c with
          localId := ncRandomId env, peerAddr := addr, state := .connecting }
      have hall := hset.quiet (hinit.reports hset.ok)
      refine .of_reports (hall.quiet ?_) fun hs => ?_
      · exact Reports.of_eq hall.ok rfl rfl rfl
      have hstate := hinit.calm.state.symm.trans hs
      cases hstate
  | accept =>
    show Accounted c (netchanAccept c).1
    simp only [netchanAccept]
    split_ifs
    · exact (Passive.refl c).accounted hc
    · exact (Passive.refl c).accounted hc
    · have hctrl := Passive.ctrlConnectAccept c
      have hset : Reports 0 (ctrlConnectAccept c)
          { ctrlConnectAccept c with state := .connected } :=
        Reports.of_eq (hctrl.reports hc).ok rfl rfl rfl
      exact Accounted.connect ((hctrl.reports hc).quiet hset) rfl
  | feed env pkt src => exact netchanFeed_reports env hc pkt src ha
  | sendNext env buflen => exact (netchanSendNext_passive env c buflen).accounted hc
  | service env now => exact netchanService_accounted env hc ha
  | chanOpen type dir contentType =>
    exact netchanChanOpen_accounted hc type dir contentType
  | chanClose k =>
    refine Passive.accounted ?_ hc
    simp only [step]
    split_ifs
    · exact netchanChanClose_passive c k
    · exact Passive.refl c
  | chanWrite k data =>
    refine Passive.accounted ?_ hc
    simp only [step]
    split_ifs
    · exact Passive.core c _
    · exact Passive.refl c
  | chanRead k buflen =>
    refine Passive.accounted ?_ hc
    simp only [step]
    split_ifs
    · exact Passive.core c _
    · exact Passive.refl c
  | poll => exact absurd rfl hpoll

theorem Conn.step_evOk {c : Conn} (hc : c.EvOk) {a : Act} (ha : RoomToReport c a) :
    (c.step a).EvOk ∧
      (c.polled a).countP Event.isDisconnected + (c.step a).disconnects =
        c.disconnects + c.closings a := by
  by_cases hpoll : a = .poll
  · subst hpoll
    obtain ⟨hp, hok⟩ := netchanPoll_pending hc
    have hcloses : c.closings .poll = 0 := by
      refine closes_eq_zero fun hs => ?_
      simp only [step, netchanPoll] at hs
      split_ifs at hs <;> exact hs
    refine ⟨hok, ?_⟩
    rw [hcloses, Nat.add_zero]
    unfold Conn.disconnects
    rw [hp, List.countP_append]
    rfl
  · have h := c.step_reports hc ha hpoll
    have hnone : c.polled a = [] := by
      cases a with
      | poll => exact absurd rfl hpoll
      | _ => rfl
    refine ⟨h.ok, ?_⟩
    rw [hnone, List.countP_nil, Nat.zero_add]
    exact h.count

/-! ## Runs -/

/-- What the polls of a run return. -/
def Conn.polledIn : Conn → List Act → List Event
  | _, [] => []
  | c, a :: as => c.polled a ++ (c.step a).polledIn as

/-- The transitions into the closed state during a run. -/
def Conn.closingsIn : Conn → List Act → Nat
  | _, [] => 0
  | c, a :: as => c.closings a + (c.step a).closingsIn as

theorem Conn.run_accounted {c : Conn} (hc : c.EvOk) {acts : List Act}
    (hroom : Guarded RoomToReport Conn.step c acts) :
    (c.run acts).EvOk ∧
      (c.polledIn acts).countP Event.isDisconnected + (c.run acts).disconnects =
        c.disconnects + c.closingsIn acts := by
  induction acts generalizing c with
  | nil => exact ⟨hc, by simp [polledIn, closingsIn, run]⟩
  | cons a acts ih =>
    obtain ⟨hok, hstep⟩ := c.step_evOk hc hroom.1
    obtain ⟨hok', hrun⟩ := ih hok hroom.2
    refine ⟨hok', ?_⟩
    simp only [polledIn, closingsIn, List.countP_append]
    change _ + ((c.step a).run acts).disconnects = _
    omega

/-- In a run in which whatever closes the connection finds it open and finds room in the
event queue, the polls made so far and a drain return one DISCONNECTED event for each
transition into the closed state. -/
theorem closings_reported (server : Bool) (cfg : Cfg) (acts : List Act)
    (hroom : Guarded RoomToReport Conn.step (netchanOpen server cfg) acts) :
    ((netchanOpen server cfg).polledIn acts ++
        (drain ((netchanOpen server cfg).run acts)).2).countP Event.isDisconnected =
      (netchanOpen server cfg).closingsIn acts := by
  have hopen : (netchanOpen server cfg).EvOk :=
    ⟨show 0 < 16 by decide, show 0 < 16 by decide⟩
  obtain ⟨hok, h⟩ := Conn.run_accounted hopen hroom
  have hnone : (netchanOpen server cfg).disconnects = 0 := by
    unfold Conn.disconnects
    rw [pending_empty hopen rfl, List.countP_nil]
  rw [List.countP_append, (drain_spec hok).1]
  rw [hnone, Nat.zero_add] at h
  exact h

/-- The packets that open a server: CONNECT_INIT of client 5, then `netchan_accept`. -/
def serverUp : List Act :=
  [.feed quietEnv [0x01, 0, 0, 0, 5, 0x01, 0, 0, 0, 5, 0x01] none, .accept]

def disconnectPacket : List UInt8 := [0x02, 0, 0, 0, 7, 0, 0, 0x04, 0, 0]

/-- The peer disconnects, and the event is the second one polled. -/
theorem closings_reported_disconnect :
    Guarded RoomToReport Conn.step (netchanOpen true netchanCfgDefault)
        (serverUp ++ [.feed quietEnv disconnectPacket none, .poll]) ∧
      ((netchanOpen true netchanCfgDefault).polledIn
          (serverUp ++ [.feed quietEnv disconnectPacket none, .poll]) ++
        (drain ((netchanOpen true netchanCfgDefault).run
          (serverUp ++ [.feed quietEnv disconnectPacket none, .poll]))).2).countP
            Event.isDisconnected = 1 :=
  ⟨by decide +kernel, closings_reported true netchanCfgDefault _ (by decide +kernel)⟩

/-- A packet of the client that opens 14 channels and disconnects. -/
def crowdedDisconnect : List UInt8 :=
  [0x02, 0, 0, 0, 7, 0, 0] ++
    (List.range 14).flatMap (fun i => [0x07, UInt8.ofNat (2 * i), 0, 0, 0]) ++ [0x04, 0, 0]

/-- The CONNECTED event and 14 CHAN_OPEN events fill the queue, and the DISCONNECTED event
is lost. -/
theorem closing_unreported :
    (netchanOpen true netchanCfgDefault).closingsIn
        (serverUp ++ [.feed quietEnv crowdedDisconnect none]) = 1 ∧
      ((netchanOpen true netchanCfgDefault).polledIn
          (serverUp ++ [.feed quietEnv crowdedDisconnect none]) ++
        (drain ((netchanOpen true netchanCfgDefault).run
          (serverUp ++ [.feed quietEnv crowdedDisconnect none]))).2).countP
            Event.isDisconnected = 0 := by
  decide +kernel

end MechanicalResearcher.NetchanV2
