import MechanicalResearcher.Game.Slots
import MechanicalResearcher.NetchanV2.Api
import MechanicalResearcher.NetchanV2.GameWire

/-!
# The game server

The loop of `netchan-v2/demo/game/game_server.c`.  A record of `peers` that is not active is
`none`, and a channel pointer is the index of its record.  `Turn` is what one turn of the loop
gets from outside: a packet, if one came, the readings of the clock, and the surroundings of
each netchan call.

`log` is a history variable: who joined and which input was taken, in order.  No function
reads it.
-/

namespace MechanicalResearcher.NetchanV2

open Game Lib.BigEndian

abbrev maxPeers : Nat := maxPlayers
def tickMs : UInt32 := 200

structure Peer where
  conn : Conn
  /-- client's input channel (we receive) -/
  inCh : Option Nat
  /-- our snapshot channel (we send) -/
  snapCh : Option Nat
  /-- our reliable welcome channel -/
  welCh : Option Nat
  /-- game slot, or -1 -/
  player : Int
  welcomed : Bool

inductive Arrival
  /-- the client of record `i` connected and was given `player` -/
  | joined (i : Nat) (player : Int)
  /-- a message of the client of record `i`, which holds `player`, was taken -/
  | taken (i : Nat) (player : Int) (msg : PlayerInput)
  deriving DecidableEq, Repr

structure Server where
  peers : Nat → Option Peer
  game : GameState
  seed : UInt16
  lastTick : UInt32
  log : List Arrival

structure Turn where
  packet : Option (List UInt8 × Addr)
  feedEnv : Env
  acceptEnvs : List Env
  serviceEnv : Nat → Env
  serviceMs : Nat → UInt32
  tickMs : UInt32
  flushEnvs : Nat → List Env

/-- `sizeof(pkt)`: the socket gives no more of a packet than that. -/
def recvMax : Nat := 2048

/-- Sends until nothing is left; `none` when the turn has too few readings for that. -/
def flush : List Env → Conn → Option Conn
  | [], _ => none
  | env :: envs, c =>
    match netchanSendNext env c 2048 with
    | (c, none) => some c
    | (c, some _) => flush envs c

def netchanPeekId (pkt : List UInt8) : UInt32 :=
  if pkt.length < ncHdrInitSize then 0 else rd32 (pkt.drop 1)

def Server.setPeer (s : Server) (i : Nat) (p : Option Peer) : Server :=
  { s with peers := Function.update s.peers i p }

def findPeer (s : Server) (id : UInt32) : Option Nat :=
  (List.range maxPeers).find? fun i => (s.peers i).any fun p => p.conn.localId = id

def freePeer (s : Server) : Option Nat :=
  (List.range maxPeers).find? fun i => (s.peers i).isNone

def feedPeer (t : Turn) (s : Server) (i : Nat) (pkt : List UInt8) (src : Addr) : Server :=
  match s.peers i with
  | none => s
  | some p =>
    s.setPeer i (some { p with conn := (netchanFeed t.feedEnv p.conn pkt (some src)).1 })

def openPeer (t : Turn) (s : Server) (i : Nat) (pkt : List UInt8) (src : Addr) :
    Option Server := do
  let c := (netchanFeed t.feedEnv (netchanOpen true netchanCfgDefault) pkt (some src)).1
  let c ← flush t.acceptEnvs (netchanAccept c).1
  some (s.setPeer i (some ⟨c, none, none, none, -1, false⟩))

def receive (t : Turn) (s : Server) : Option Server :=
  match t.packet with
  | none => some s
  | some (pkt, src) =>
    let pkt := pkt.take recvMax
    if pkt = [] then some s
    else
      match findPeer s (netchanPeekId pkt) with
      | some i => some (feedPeer t s i pkt src)
      | none =>
        match freePeer s with
        | some i => openPeer t s i pkt src
        | none => some s

def openChannels (p : Peer) (player : Int) : Peer :=
  let (c, welCh) := netchanChanOpen p.conn netchanReliable netchanDirSend
    (some "welcome".toUTF8.toList)
  let (c, snapCh) := netchanChanOpen c netchanUnreliable netchanDirSend
    (some "snap".toUTF8.toList)
  { p with conn := c, player := player, welCh := welCh, snapCh := snapCh }

def onConnected (s : Server) (i : Nat) (p : Peer) : Option (Server × Peer) := do
  let (game, player) ← gameAddPlayer s.game
  some ({ s with game := game, log := s.log ++ [.joined i player] }, openChannels p player)

def setInput (s : Server) (i : Nat) (player : Int) (pi : PlayerInput) : Server :=
  { s with
    game := { s.game with world := gameSetInput s.game.world player pi.input }
    log := s.log ++ [.taken i player pi] }

/-- A message on the input channel: `netchan_chan_read` into 64 bytes, decode, store. -/
def onInput (s : Server) (i : Nat) (p : Peer) (k : Nat) : Server × Peer :=
  match netchanChanRead p.conn k 64 with
  | (c, .error _) => (s, { p with conn := c })
  | (c, .ok buf) =>
    match playerInputDecode buf with
    | some pi => (if p.player ≥ 0 then setInput s i p.player pi else s, { p with conn := c })
    | none => (s, { p with conn := c })

def onData (s : Server) (i : Nat) (p : Peer) (ch : Option Nat) : Server × Peer :=
  match ch with
  | none => (s, p)
  | some k => if p.inCh = some k then onInput s i p k else (s, p)

/-- The poll loop of record `i`, and whether it found the connection dead.  A handler pushes
no event, so as many turns are enough as the queue holds. -/
def pollLoop (i : Nat) : Nat → Server → Peer → Option (Server × Peer × Bool)
  | 0, s, p => some (s, p, false)
  | n + 1, s, p =>
    match netchanPoll p.conn with
    | (c, none) => some (s, { p with conn := c }, false)
    | (c, some ev) =>
      let p := { p with conn := c }
      match ev.type with
      | .connected => do
        let (s, p) ← onConnected s i p
        pollLoop i n s p
      | .chanOpen => pollLoop i n s { p with inCh := ev.ch }
      | .data =>
        let (s, p) := onData s i p ev.ch
        pollLoop i n s p
      | .disconnected => some (s, p, true)
      | _ => pollLoop i n s p

/-- The player of a client that is gone; the slot is released. -/
def releaseSlot (g : GameState) (player : Int) : GameState :=
  if player ≥ 0 then
    { g with
      world := g.world.setPlayer player.toNat
        { g.world.players player.toNat with alive := 0, hp := 0 } }
  else g

def chanOpened (c : Conn) (ch : Option Nat) : Option Nat :=
  ch.filter fun k => (c.chanPool k).state = .opened

/-- The welcome, once the reliable channel is open. -/
def sendWelcome (seed : UInt16) (p : Peer) : Peer :=
  match chanOpened p.conn p.welCh with
  | none => p
  | some k =>
    if p.welcomed = false ∧ p.player ≥ 0 then
      match welcomeEncode ⟨UInt16.ofNat p.player.toNat, seed⟩ 32 with
      | none => p
      | some buf =>
        match netchanChanWrite p.conn k buf with
        | (c, r) =>
          { p with
            conn := c
            welcomed := match r with
              | .ok n => n = buf.length
              | .error _ => false }
    else p

def servicePeer (t : Turn) (s : Server) (i : Nat) : Option Server :=
  match s.peers i with
  | none => some s
  | some p => do
    let p := { p with conn := (netchanService (t.serviceEnv i) p.conn (t.serviceMs i)).1 }
    let (s, p, dead) ← pollLoop i ncEventQueue s p
    some (if dead then
        { s.setPeer i none with game := releaseSlot s.game p.player }
      else s.setPeer i (some (sendWelcome s.seed p)))

def sendSnapshot (buf : List UInt8) (s : Server) (i : Nat) : Server :=
  match s.peers i with
  | none => s
  | some p =>
    match chanOpened p.conn p.snapCh with
    | none => s
    | some k => s.setPeer i (some { p with conn := (netchanChanWrite p.conn k buf).1 })

def broadcast (s : Server) : Server :=
  match snapshotEncode ⟨s.game.world.tick.toUInt32, gwPack s.game.world⟩ 512 with
  | none => s
  | some buf => (List.range maxPeers).foldl (sendSnapshot buf) s

def tick (t : Turn) (s : Server) : Option Server :=
  if t.tickMs - s.lastTick ≥ tickMs then do
    let game ← gameTick s.game
    some (broadcast { s with lastTick := s.lastTick + tickMs, game := game })
  else some s

def flushPeer (t : Turn) (s : Server) (i : Nat) : Option Server :=
  match s.peers i with
  | none => some s
  | some p => do
    let c ← flush (t.flushEnvs i) p.conn
    some (s.setPeer i (some { p with conn := c }))

/-- One turn of the loop, where every call of it returns. -/
def Server.turn (s : Server) (t : Turn) : Option Server := do
  let s ← receive t s
  let s ← (List.range maxPeers).foldlM (servicePeer t) s
  let s ← tick t s
  (List.range maxPeers).foldlM (flushPeer t) s

def gameServerRun (s : Server) (turns : List Turn) : Option Server := turns.foldlM Server.turn s

/-- The server when it enters the loop. -/
def gameServerStart (game : GameState) (seed : UInt16) (now : UInt32) : Server :=
  ⟨fun _ => none, game, seed, now, []⟩

end MechanicalResearcher.NetchanV2
