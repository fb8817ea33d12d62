import MechanicalResearcher.Lib.Runs
import MechanicalResearcher.NetchanV2.GameServer

/-!
# Which input the server keeps

`game_set_input` overwrites, and nothing else in the server or the game writes an input byte:
the byte stored for a player is that of the message taken last.  The sequence number of the
message is not looked at, so it is the newest one only where the messages come in order.
-/

namespace MechanicalResearcher.NetchanV2

open Game Lib.Runs Lib.BigEndian

variable {msg : PlayerInput} {s s' : Server} {i n : Nat} {t : Turn} {game game' : GameState}
    {ch : Option Nat} {pkt : List UInt8}

/-! ## Histories -/

def Arrival.collect (k : Nat) (msgs : List PlayerInput) : Arrival → List PlayerInput
  | .joined _ player => if player = k then [] else msgs
  | .taken _ player msg => if player = k then msgs ++ [msg] else msgs

/-- The messages taken for player `k` since it joined. -/
def delivered (k : Nat) (log : List Arrival) : List PlayerInput :=
  log.foldl (Arrival.collect k) []

theorem delivered_append (k : Nat) (log : List Arrival) (a : Arrival) :
    delivered k (log ++ [a]) = a.collect k (delivered k log) := by
  rw [delivered, List.foldl_append]
  rfl

/-- The newest input wins: the byte stored for player `k` is that of the message with the
highest sequence number. -/
def NewestStored (s : Server) (k : Nat) : Prop :=
  ∀ msg ∈ delivered k s.log, (∀ msg' ∈ delivered k s.log, msg'.seq ≤ msg.seq) →
    (s.game.world.players k).input = msg.input

/-- Every message is newer than all before it, or has the byte of the one before it. -/
def InOrder (msgs : List PlayerInput) : Prop :=
  ∀ earlier msg later, msgs = earlier ++ msg :: later →
    (∀ msg' ∈ earlier, msg'.seq < msg.seq) ∨
      ∃ last, earlier.getLast? = some last ∧ last.input = msg.input

theorem InOrder.of_append {msgs : List PlayerInput} (h : InOrder (msgs ++ [msg])) :
    InOrder msgs := by
  intro earlier msg' later hmsgs
  apply h earlier msg' (later ++ [msg])
  rw [hmsgs, List.append_assoc, List.cons_append]

theorem inOrder_of_increasing {msgs : List PlayerInput}
    (h : msgs.Pairwise fun msg msg' => msg.seq < msg'.seq) : InOrder msgs := by
  intro earlier msg later hmsgs
  rw [hmsgs, List.pairwise_append] at h
  exact .inl fun msg' hmsg' => h.2.2 msg' hmsg' msg List.mem_cons_self

theorem InOrder.newest {msgs : List PlayerInput} (h : InOrder msgs) {last msg : PlayerInput}
    (hlast : msgs.getLast? = some last) (hmem : msg ∈ msgs)
    (hmax : ∀ msg' ∈ msgs, msg'.seq ≤ msg.seq) : last.input = msg.input := by
  induction msgs using List.reverseRecOn generalizing last with
  | nil => cases hlast
  | append_singleton msgs x ih =>
    rw [List.getLast?_concat, Option.some.injEq] at hlast
    subst hlast
    rcases List.mem_append.mp hmem with hearlier | hx
    · rcases h msgs x [] rfl with hnewer | ⟨before, hbefore, hbyte⟩
      · -- the last one is newer than `msg`, which is the newest
        have hlt := hnewer msg hearlier
        have hle := hmax x (by simp)
        exact absurd (UInt32.lt_of_lt_of_le hlt hle) (UInt32.lt_irrefl _)
      · rw [← hbyte]
        exact ih h.of_append hbefore hearlier fun msg' hmsg' => hmax msg' (by simp [hmsg'])
    · rw [List.mem_singleton.mp hx]

/-! ## The byte of the last message -/

/-- The byte stored for every player is that of the message taken last. -/
def LastStored (s : Server) : Prop :=
  ∀ k last, (delivered k s.log).getLast? = some last →
    k < maxPlayers → (s.game.world.players k).input = last.input

theorem LastStored.of_same (h : LastStored s) (hgame : SameInputs s.game s'.game)
    (hlog : s'.log = s.log) : LastStored s' := by
  intro k last hlast hk
  rw [hlog] at hlast
  rw [hgame k]
  exact h k last hlast hk

theorem gameAddPlayer_inputs {g g' : GameState} {player : Int} (h : gameAddPlayer g = some (g',
    player))
    {k : Nat} (hk : player ≠ k) : (g'.world.players k).input = (g.world.players k).input := by
  unfold gameAddPlayer at h
  split at h
  · cases h
    rfl
  · next i _ =>
      obtain ⟨⟨rng, spot⟩, -, hspot⟩ := Option.bind_eq_some_iff.mp h
      cases spot with
      | none =>
        cases hspot
        rfl
      | some p =>
        cases hspot
        have hki : k ≠ i := by
          rintro rfl
          exact hk rfl
        simp [World.setPlayer, hki]

theorem onConnected_lastStored {p p' : Peer} (hs : LastStored s)
    (h : onConnected s i p = some (s', p')) : LastStored s' := by
  obtain ⟨⟨game, player⟩, hadd, hrest⟩ := Option.bind_eq_some_iff.mp h
  cases hrest
  intro k last hlast hk
  rw [delivered_append] at hlast
  by_cases hplayer : player = k
  · simp [Arrival.collect, hplayer] at hlast
  · simp only [Arrival.collect, hplayer, if_false] at hlast
    exact (gameAddPlayer_inputs hadd hplayer).trans (hs k last hlast hk)

theorem setInput_lastStored (hs : LastStored s) (i : Nat) (player : Int) (msg : PlayerInput) :
    LastStored (setInput s i player msg) := by
  intro k last hlast hk
  rw [setInput, delivered_append] at hlast
  by_cases hplayer : player = k
  · simp only [Arrival.collect, hplayer, if_true, List.getLast?_concat, Option.some.injEq] at hlast
    subst hlast
    have hrange : 0 ≤ (k : Int) ∧ (k : Int) < maxPlayers := by omega
    show ((gameSetInput s.game.world player msg.input).players k).input = msg.input
    rw [gameSetInput, hplayer, if_pos hrange]
    simp [World.setPlayer]
  · simp only [Arrival.collect, hplayer, if_false] at hlast
    have hsame : ((gameSetInput s.game.world player msg.input).players k).input =
        (s.game.world.players k).input := by
      unfold gameSetInput
      split_ifs with hrange
      · have hne : k ≠ player.toNat := by omega
        simp [World.setPlayer, hne]
      · rfl
    exact hsame.trans (hs k last hlast hk)

theorem onData_lastStored (hs : LastStored s) (i : Nat) (p : Peer) (ch : Option Nat) :
    LastStored (onData s i p ch).1 := by
  unfold onData
  split
  · exact hs
  · split_ifs
    · unfold onInput
      split
      · exact hs
      · split
        · split_ifs
          · exact setInput_lastStored hs i _ _
          · exact hs
        · exact hs
    · exact hs

theorem pollLoop_lastStored {p p' : Peer} {dead : Bool} (hs : LastStored s)
    (h : pollLoop i n s p = some (s', p', dead)) : LastStored s' := by
  induction n generalizing s p with
  | zero =>
    cases h
    exact hs
  | succ n ih =>
    unfold pollLoop at h
    split at h
    · cases h
      exact hs
    · split at h
      · obtain ⟨⟨s1, p1⟩, hconn, hrest⟩ := Option.bind_eq_some_iff.mp h
        exact ih (onConnected_lastStored hs hconn) hrest
      · exact ih hs h
      · exact ih (onData_lastStored hs i _ _) h
      · cases h
        exact hs
      · exact ih hs h

theorem releaseSlot_inputs (g : GameState) (player : Int) :
    SameInputs g (releaseSlot g player) := by
  unfold releaseSlot
  split_ifs
  · exact setPlayer_input rfl
  · exact .refl g

theorem servicePeer_lastStored (hs : LastStored s) (h : servicePeer t s i = some s') :
    LastStored s' := by
  unfold servicePeer at h
  split at h
  · cases h
    exact hs
  · obtain ⟨⟨s1, p1, dead⟩, hloop, hrest⟩ := Option.bind_eq_some_iff.mp h
    have hs1 := pollLoop_lastStored hs hloop
    cases dead with
    | true =>
      cases hrest
      exact hs1.of_same (releaseSlot_inputs s1.game p1.player) rfl
    | false =>
      cases hrest
      exact hs1.of_same (.refl _) rfl

/-! ## The rest of a turn -/

theorem receive_lastStored (hs : LastStored s) (h : receive t s = some s') : LastStored s' := by
  unfold receive at h
  split at h
  · cases h
    exact hs
  · dsimp only at h
    split at h
    · cases h
      exact hs
    · split at h
      · cases h
        unfold feedPeer
        split
        · exact hs
        · exact hs.of_same (.refl _) rfl
      · split at h
        · obtain ⟨c, -, hopen⟩ := Option.bind_eq_some_iff.mp h
          cases hopen
          exact hs.of_same (.refl _) rfl
        · cases h
          exact hs

theorem sendSnapshot_same (buf : List UInt8) (s : Server) (i : Nat) :
    (sendSnapshot buf s i).game = s.game ∧ (sendSnapshot buf s i).log = s.log := by
  unfold sendSnapshot
  split
  · exact ⟨rfl, rfl⟩
  · split <;> exact ⟨rfl, rfl⟩

theorem broadcast_same (s : Server) : (broadcast s).game = s.game ∧ (broadcast s).log = s.log := by
  unfold broadcast
  split
  · exact ⟨rfl, rfl⟩
  · next buf _ =>
      have hall : ∀ (is : List Nat) s,
          (is.foldl (sendSnapshot buf) s).game = s.game ∧
            (is.foldl (sendSnapshot buf) s).log = s.log := by
        intro is
        induction is with
        | nil => exact fun s => ⟨rfl, rfl⟩
        | cons i is ih =>
          intro s
          obtain ⟨hgame, hlog⟩ := ih (sendSnapshot buf s i)
          obtain ⟨hgame', hlog'⟩ := sendSnapshot_same buf s i
          exact ⟨hgame.trans hgame', hlog.trans hlog'⟩
      exact hall _ s

theorem tick_lastStored (hs : LastStored s) (h : tick t s = some s') : LastStored s' := by
  unfold tick at h
  split_ifs at h
  · obtain ⟨game, hgame, hrest⟩ := Option.bind_eq_some_iff.mp h
    cases hrest
    obtain ⟨hsame, hlog⟩ := broadcast_same { s with lastTick := s.lastTick + tickMs, game := game }
    refine hs.of_same ?_ hlog
    rw [hsame]
    exact gameTick_inputs hgame
  · cases h
    exact hs

theorem flushPeer_lastStored (hs : LastStored s) (h : flushPeer t s i = some s') :
    LastStored s' := by
  unfold flushPeer at h
  split at h
  · cases h
    exact hs
  · obtain ⟨c, -, hrest⟩ := Option.bind_eq_some_iff.mp h
    cases hrest
    exact hs.of_same (.refl _) rfl

/-! ## Runs -/

theorem turn_lastStored (hs : LastStored s) (h : s.turn t = some s') : LastStored s' := by
  obtain ⟨s1, hreceive, h⟩ := Option.bind_eq_some_iff.mp h
  obtain ⟨s2, hservice, h⟩ := Option.bind_eq_some_iff.mp h
  obtain ⟨s3, htick, hflush⟩ := Option.bind_eq_some_iff.mp h
  have hs2 : LastStored s2 := foldlM_invariant (fun _ _ _ hs h => servicePeer_lastStored hs h)
    (receive_lastStored hs hreceive) hservice
  exact foldlM_invariant (fun _ _ _ hs h => flushPeer_lastStored hs h)
    (tick_lastStored hs2 htick) hflush

theorem run_lastStored {seed : UInt16} {now : UInt32} {turns : List Turn}
    (h : gameServerRun (gameServerStart game seed now) turns = some s) :
    LastStored s := by
  refine foldlM_invariant (fun _ _ _ hs h => turn_lastStored hs h) ?_ h
  intro k last hlast
  cases hlast

/-- After every run in which the messages of a player come in order, the server has stored
the newest one. -/
theorem newestStored_of_inOrder {game : GameState} {seed : UInt16} {now : UInt32} 
    {turns : List Turn}
    {s : Server} (h : gameServerRun (gameServerStart game seed now) turns = some s) {k : Nat}
    (hk : k < maxPlayers) (horder : InOrder (delivered k s.log)) : NewestStored s k := by
  intro msg hmem hmax
  obtain ⟨last, hlast⟩ : ∃ last, (delivered k s.log).getLast? = some last :=
    ⟨_, List.getLast?_eq_some_getLast (List.ne_nil_of_mem hmem)⟩
  rw [run_lastStored h k last hlast hk]
  exact horder.newest hlast hmem hmax

/-! ## A client that joins and plays

One client on the first record.  The game is any game in which it finds a place; every call of
the netchan is evaluated. -/

def serverClock : Env := ⟨fun _ => 1000, 7⟩

def hostAddr : Addr := ⟨7, List.replicate ncAddrMax 1⟩

def hostTurn (pkt : List UInt8) : Turn where
  packet := some (pkt, hostAddr)
  feedEnv := serverClock
  acceptEnvs := [serverClock, serverClock]
  serviceEnv := fun _ => serverClock
  serviceMs := fun _ => 1000
  tickMs := 1000
  flushEnvs := fun _ => [serverClock, serverClock]

def connectPkt : List UInt8 :=
  ncPktFlagInit :: wr32 77 ++ (ncFrameConnectInit :: wr32 77 ++ [ncVersion])

def chanOpenPkt : List UInt8 :=
  ncPktFlagPktnum :: wr32 7 ++ wr16 0 ++
    ([ncFrameChannelOpen, 0, 1, 0, 5] ++ "input".toUTF8.toList)

/-- The DATA frame of message `seq` of the input channel, in packet `num`. -/
def inputPkt (num seq : UInt16) (msg : PlayerInput) : List UInt8 :=
  ncPktFlagPktnum :: wr32 7 ++ wr16 num ++
    (ncFrameData :: 0 :: wr16 seq ++ wr16 9 ++ [0, 1] ++ playerInputBytes msg)

/-- The server with one client. -/
def lobby (game : GameState) (log : List Arrival) (p : Peer) : Server :=
  (⟨fun _ => none, game, 0x1234, 1000, log⟩ : Server).setPeer 0 (some p)

theorem lobby_zero (game : GameState) (log : List Arrival) (p : Peer) :
    (lobby game log p).peers 0 = some p := by
  simp [lobby, Server.setPeer]

theorem lobby_setPeer (game : GameState) (log : List Arrival) (p p' : Peer) :
    (lobby game log p).setPeer 0 (some p') = lobby game log p' := by
  simp [lobby, Server.setPeer]

theorem lobby_succ (game : GameState) (log : List Arrival) (p : Peer) (i : Nat) :
    (lobby game log p).peers (i + 1) = none := by
  simp [lobby, Server.setPeer]

theorem foldlM_lobby {f : Server → Nat → Option Server} {log : List Arrival} {p : Peer}
    (hfirst : f s 0 = some (lobby game log p))
    (hrest : ∀ i, f (lobby game log p) (i + 1) = some (lobby game log p)) :
    (List.range maxPeers).foldlM f s = some (lobby game log p) := by
  have hrange : List.range maxPeers = [0, 0 + 1, 1 + 1, 2 + 1] := rfl
  simp only [hrange, List.foldlM_cons, hfirst, hrest, List.foldlM_nil, Option.bind_eq_bind,
    Option.bind_some, Option.pure_def]

/-! ### Its record -/

def Peer.polled (p : Peer) : Peer := { p with conn := (netchanPoll p.conn).1 }

def Peer.served (p : Peer) : Peer :=
  { p with conn := (netchanService serverClock p.conn 1000).1 }

def Peer.fed (p : Peer) (pkt : List UInt8) : Peer :=
  { p with conn := (netchanFeed serverClock p.conn pkt (some hostAddr)).1 }

def Peer.event (p : Peer) : Option (EvType × Option Nat) :=
  (netchanPoll p.conn).2.map fun ev => (ev.type, ev.ch)

/-- The end of a turn: the events are handled, the welcome goes out. -/
def Peer.settled (p : Peer) : Peer :=
  let p := sendWelcome 0x1234 p.polled
  { p with conn := (flush [serverClock, serverClock] p.conn).getD p.conn }

def Peer.Settles (p : Peer) : Prop :=
  p.event = none ∧
    (flush [serverClock, serverClock] (sendWelcome 0x1234 p.polled).conn).isSome = true

instance (p : Peer) : Decidable p.Settles := inferInstanceAs (Decidable (_ ∧ _))

theorem pollLoop_none {p : Peer} (h : p.event = none) :
    pollLoop i (n + 1) s p = some (s, p.polled, false) := by
  have hpoll : netchanPoll p.conn = ((netchanPoll p.conn).1, none) := by
    rw [← Option.map_eq_none_iff.mp h]
  rw [pollLoop, hpoll]
  rfl

theorem netchanPoll_of_event {p : Peer} {type : EvType} (h : p.event = some (type, ch)) :
    ∃ ev, netchanPoll p.conn = (p.polled.conn, some ev) ∧ ev.type = type ∧ ev.ch = ch := by
  obtain ⟨ev, hev, hpair⟩ := Option.map_eq_some_iff.mp h
  cases hpair
  exact ⟨ev, by rw [← hev]; rfl, rfl, rfl⟩

theorem pollLoop_connected {p : Peer} {player : Int} (h : p.event = some (.connected, ch))
    (hadd : gameAddPlayer s.game = some (game, player)) :
    pollLoop i (n + 1) s p =
      pollLoop i n { s with game := game, log := s.log ++ [.joined i player] }
        (openChannels p.polled player) := by
  obtain ⟨ev, hpoll, htype, -⟩ := netchanPoll_of_event h
  rw [pollLoop, hpoll]
  dsimp only
  rw [htype]
  dsimp only
  rw [onConnected, hadd]
  rfl

theorem pollLoop_chanOpen {p : Peer} (h : p.event = some (.chanOpen, ch)) :
    pollLoop i (n + 1) s p = pollLoop i n s { p.polled with inCh := ch } := by
  obtain ⟨ev, hpoll, htype, hch⟩ := netchanPoll_of_event h
  rw [pollLoop, hpoll]
  dsimp only
  rw [htype, hch]
  rfl

theorem pollLoop_data {p : Peer} (h : p.event = some (.data, ch)) :
    pollLoop i (n + 1) s p =
      pollLoop i n (onData s i p.polled ch).1 (onData s i p.polled ch).2 := by
  obtain ⟨ev, hpoll, htype, hch⟩ := netchanPoll_of_event h
  rw [pollLoop, hpoll]
  dsimp only
  rw [htype, hch]
  rfl

/-! ### Its turns -/

theorem turn_lobby {log log' : List Arrival} {p p' : Peer}
    (hreceive : receive (hostTurn pkt) s = some (lobby game log p))
    (hpoll : pollLoop 0 16 (lobby game log p) p.served = pollLoop 0 15 (lobby game' log' p) p')
    (hsettles : p'.Settles) :
    s.turn (hostTurn pkt) = some (lobby game' log' p'.settled) := by
  obtain ⟨hdone, hflush⟩ := hsettles
  obtain ⟨c, hc⟩ := Option.isSome_iff_exists.mp hflush
  have hservice : (List.range maxPeers).foldlM (servicePeer (hostTurn pkt)) (lobby game log p) =
      some (lobby game' log' (sendWelcome 0x1234 p'.polled)) := by
    apply foldlM_lobby
    · rw [servicePeer, lobby_zero]
      show (pollLoop 0 16 (lobby game log p) p.served).bind _ = _
      rw [hpoll, pollLoop_none hdone]
      show some ((lobby game' log' p).setPeer 0 (some (sendWelcome 0x1234 p'.polled))) = _
      rw [lobby_setPeer]
    · intro i
      rw [servicePeer, lobby_succ]
  have htick : tick (hostTurn pkt) (lobby game' log' (sendWelcome 0x1234 p'.polled)) =
      some (lobby game' log' (sendWelcome 0x1234 p'.polled)) := by
    rw [tick, if_neg]
    show ¬(1000 : UInt32) - 1000 ≥ tickMs
    decide
  have hsent : (List.range maxPeers).foldlM (flushPeer (hostTurn pkt))
      (lobby game' log' (sendWelcome 0x1234 p'.polled)) = some (lobby game' log' p'.settled) := by
    apply foldlM_lobby
    · rw [flushPeer, lobby_zero]
      show (flush [serverClock, serverClock] (sendWelcome 0x1234 p'.polled).conn).bind _ = _
      rw [Peer.settled, hc]
      show some ((lobby game' log' (sendWelcome 0x1234 p'.polled)).setPeer 0 _) = _
      rw [lobby_setPeer]
      rfl
    · intro i
      rw [flushPeer, lobby_succ]
  rw [Server.turn, hreceive, Option.bind_eq_bind, Option.bind_some, hservice, Option.bind_some,
    htick, Option.bind_some, hsent]

theorem receive_lobby {log : List Arrival} {p : Peer} (hid : p.conn.localId = netchanPeekId pkt)
    (hlen : 0 < pkt.length ∧ pkt.length ≤ recvMax) :
    receive (hostTurn pkt) (lobby game log p) = some (lobby game log (p.fed pkt)) := by
  have htake : pkt.take recvMax = pkt := List.take_of_length_le hlen.2
  have hne : pkt ≠ [] := List.length_pos_iff.mp hlen.1
  have hfind : findPeer (lobby game log p) (netchanPeekId pkt) = some 0 := by
    have hrange : List.range maxPeers = 0 :: [1, 2, 3] := rfl
    rw [findPeer, hrange, List.find?_cons, lobby_zero]
    simp [hid]
  rw [receive]
  show (if pkt.take recvMax = [] then _ else _) = _
  rw [htake, if_neg hne, hfind]
  show some (feedPeer (hostTurn pkt) (lobby game log p) 0 pkt hostAddr) = _
  rw [feedPeer, lobby_zero]
  show some ((lobby game log p).setPeer 0 _) = _
  rw [lobby_setPeer]
  rfl

def accepted : Conn :=
  (netchanAccept (netchanFeed serverClock (netchanOpen true netchanCfgDefault) connectPkt
    (some hostAddr)).1).1

/-- The record of the client before its connection is serviced. -/
def newcomer : Peer :=
  ⟨(flush [serverClock, serverClock] accepted).getD accepted, none, none, none, -1, false⟩

def joinedPeer : Peer := (openChannels newcomer.served.polled 0).settled

def playingPeer : Peer :=
  { (joinedPeer.fed chanOpenPkt).served.polled with inCh := some 2 }.settled

theorem newcomer_serves :
    (flush [serverClock, serverClock] accepted).isSome = true ∧
      (newcomer.served.event = some (.connected, none) ∧
        (openChannels newcomer.served.polled 0).Settles) ∧
      (joinedPeer.conn.localId = netchanPeekId chanOpenPkt ∧
        0 < chanOpenPkt.length ∧ chanOpenPkt.length ≤ recvMax) ∧
      (joinedPeer.fed chanOpenPkt).served.event = some (.chanOpen, some 2) ∧
      { (joinedPeer.fed chanOpenPkt).served.polled with inCh := some 2 : Peer }.Settles := by
  decide +kernel

theorem receive_newcomer (game : GameState) :
    receive (hostTurn connectPkt) (gameServerStart game 0x1234 1000) =
      some (lobby game [] newcomer) := by
  obtain ⟨c, hc⟩ := Option.isSome_iff_exists.mp newcomer_serves.1
  show openPeer (hostTurn connectPkt) (gameServerStart game 0x1234 1000) 0 connectPkt hostAddr = _
  rw [openPeer]
  show (flush [serverClock, serverClock] accepted).bind _ = _
  rw [newcomer, hc]
  rfl

theorem turn_join (hadd : gameAddPlayer game = some (game', 0)) :
    (gameServerStart game 0x1234 1000).turn (hostTurn connectPkt) =
      some (lobby game' [.joined 0 0] joinedPeer) := by
  obtain ⟨-, ⟨hevent, hsettles⟩, -⟩ := newcomer_serves
  exact turn_lobby (receive_newcomer game) (pollLoop_connected hevent hadd) hsettles

theorem turn_open (game : GameState) (log : List Arrival) :
    (lobby game log joinedPeer).turn (hostTurn chanOpenPkt) =
      some (lobby game log playingPeer) := by
  obtain ⟨-, -, ⟨hid, hlen⟩, hevent, hsettles⟩ := newcomer_serves
  exact turn_lobby (receive_lobby hid hlen) (pollLoop_chanOpen hevent) hsettles

/-! ### Its messages -/

def Peer.read (p : Peer) : Peer := { p with conn := (netchanChanRead p.conn 2 64).1 }

def Peer.heard (p : Peer) (pkt : List UInt8) : Peer := (p.fed pkt).served.polled.read.settled

/-- The packet brings `msg` on the input channel. -/
def Hears (p : Peer) (pkt : List UInt8) (msg : PlayerInput) : Prop :=
  p.conn.localId = netchanPeekId pkt ∧ (0 < pkt.length ∧ pkt.length ≤ recvMax) ∧
    p.inCh = some 2 ∧ p.player = 0 ∧ (p.fed pkt).served.event = some (.data, some 2) ∧
    (netchanChanRead (p.fed pkt).served.polled.conn 2 64).2.toOption =
      some (playerInputBytes msg) ∧
    (p.fed pkt).served.polled.read.Settles

instance (p : Peer) (pkt : List UInt8) (msg : PlayerInput) : Decidable (Hears p pkt msg) :=
  inferInstanceAs (Decidable (_ ∧ _ ∧ _ ∧ _ ∧ _ ∧ _ ∧ _))

theorem turn_input {p : Peer} (h : Hears p pkt msg) (game : GameState) (log : List Arrival) :
    ∃ game', (lobby game log p).turn (hostTurn pkt) =
      some (lobby game' (log ++ [.taken 0 0 msg]) (p.heard pkt)) := by
  obtain ⟨hid, hlen, hin, hplayer, hevent, hbytes, hsettles⟩ := h
  refine ⟨{ game with world := gameSetInput game.world 0 msg.input }, ?_⟩
  refine turn_lobby (receive_lobby hid hlen) ?_ hsettles
  rw [pollLoop_data hevent]
  have hread : netchanChanRead (p.fed pkt).served.polled.conn 2 64 =
      ((p.fed pkt).served.polled.read.conn, .ok (playerInputBytes msg)) := by
    revert hbytes
    cases hres : (netchanChanRead (p.fed pkt).served.polled.conn 2 64).2 with
    | error e => intro hbytes; cases hbytes
    | ok buf =>
      intro hbytes
      cases hbytes
      rw [← hres]
      rfl
  have hdecode : playerInputDecode (playerInputBytes msg) = some msg := by
    have := playerInputDecode_bytes msg []
    rwa [List.append_nil] at this
  have hdata : onData (lobby game log (p.fed pkt)) 0 (p.fed pkt).served.polled (some 2) =
      (setInput (lobby game log (p.fed pkt)) 0 0 msg, (p.fed pkt).served.polled.read) := by
    rw [onData, if_pos (show (p.fed pkt).served.polled.inCh = some 2 from hin), onInput, hread]
    dsimp only
    rw [hdecode]
    dsimp only
    have hholds : (p.fed pkt).served.polled.player = 0 := hplayer
    rw [if_pos (by rw [hholds])]
    refine Prod.ext ?_ rfl
    show setInput _ 0 (p.fed pkt).served.polled.player msg = _
    rw [hholds]
  rw [hdata]
  rfl

/-- The client's two messages: the player turns from one direction to another. -/
def firstInput : PlayerInput := ⟨1, 0xF2⟩
def secondInput : PlayerInput := ⟨2, 0xF4⟩

def firstPkt : List UInt8 := inputPkt 1 0 firstInput
def secondPkt : List UInt8 := inputPkt 2 1 secondInput

theorem run_two_inputs (hadd : gameAddPlayer game = some (game', 0)) {pkt' : List UInt8}
    {msg' : PlayerInput} (h : Hears playingPeer pkt msg)
    (h' : Hears (playingPeer.heard pkt) pkt' msg') :
    ∃ s, gameServerRun (gameServerStart game 0x1234 1000)
        (([connectPkt, chanOpenPkt, pkt, pkt'] : List (List UInt8)).map hostTurn) = some s ∧
      s.log = [.joined 0 0, .taken 0 0 msg, .taken 0 0 msg'] := by
  obtain ⟨game1, h1⟩ := turn_input h game' [.joined 0 0]
  obtain ⟨game2, h2⟩ := turn_input h' game1 ([.joined 0 0] ++ [.taken 0 0 msg])
  refine ⟨lobby game2 [.joined 0 0, .taken 0 0 msg, .taken 0 0 msg']
    ((playingPeer.heard pkt).heard pkt'), ?_, rfl⟩
  simp only [gameServerRun, List.map_cons, List.map_nil, List.foldlM_cons, List.foldlM_nil,
    turn_join hadd, turn_open, h1, h2, Option.bind_eq_bind, Option.bind_some, Option.pure_def]
  rfl

theorem hears_inputs :
    (Hears playingPeer firstPkt firstInput ∧
        Hears (playingPeer.heard firstPkt) secondPkt secondInput) ∧
      Hears playingPeer secondPkt secondInput ∧
        Hears (playingPeer.heard secondPkt) firstPkt firstInput := by
  decide +kernel

/-- A game in which a client finds a place at once. -/
def openCave : GameState :=
  ⟨{ World.zero with tiles := fun _ => tFloor }, fun _ => 0, fun _ => 0, Rng.zero⟩

theorem openCave_joins : ∃ game, gameAddPlayer openCave = some (game, 0) := by
  have hplayer : (gameAddPlayer openCave).map (·.2) = some 0 := by decide
  obtain ⟨⟨game, player⟩, hadd, hzero⟩ := Option.map_eq_some_iff.mp hplayer
  cases hzero
  exact ⟨game, hadd⟩

theorem newestStored_of_two_inputs : ∃ s,
    gameServerRun (gameServerStart openCave 0x1234 1000)
      (([connectPkt, chanOpenPkt, firstPkt, secondPkt] : List (List UInt8)).map hostTurn) =
        some s ∧
    InOrder (delivered 0 s.log) ∧ delivered 0 s.log = [firstInput, secondInput] ∧
    NewestStored s 0 := by
  obtain ⟨game, hadd⟩ := openCave_joins
  obtain ⟨s, hrun, hlog⟩ := run_two_inputs hadd hears_inputs.1.1 hears_inputs.1.2
  have hdelivered : delivered 0 s.log = [firstInput, secondInput] := by
    rw [hlog]
    rfl
  have horder : InOrder (delivered 0 s.log) := by
    apply inOrder_of_increasing
    rw [hdelivered]
    decide
  exact ⟨s, hrun, horder, hdelivered, newestStored_of_inOrder hrun (by decide) horder⟩

/-- In every game in which the client finds a place: its second message overtakes the first,
and the first is what the server keeps. -/
theorem older_input_stored :
    (∀ game game', gameAddPlayer game = some (game', 0) →
      ∃ s, gameServerRun (gameServerStart game 0x1234 1000)
          (([connectPkt, chanOpenPkt, secondPkt, firstPkt] : List (List UInt8)).map hostTurn) =
            some s ∧
        delivered 0 s.log = [secondInput, firstInput] ∧ ¬NewestStored s 0) ∧
      ∃ game, gameAddPlayer openCave = some (game, 0) := by
  refine ⟨fun game game' hadd => ?_, openCave_joins⟩
  obtain ⟨s, hrun, hlog⟩ := run_two_inputs hadd hears_inputs.2.1 hears_inputs.2.2
  have hdelivered : delivered 0 s.log = [secondInput, firstInput] := by
    rw [hlog]
    rfl
  refine ⟨s, hrun, hdelivered, fun hnewest => ?_⟩
  have hstored := run_lastStored hrun 0 firstInput (by rw [hdelivered]; rfl) (by decide)
  have hsecond := hnewest secondInput (by simp [hdelivered]) (by
    rw [hdelivered]
    decide)
  rw [hstored] at hsecond
  exact absurd hsecond (by decide)

end MechanicalResearcher.NetchanV2
