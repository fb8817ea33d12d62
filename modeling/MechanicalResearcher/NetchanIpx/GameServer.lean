import MechanicalResearcher.Game.World
import MechanicalResearcher.NetchanIpx.Netchan

/-!
# The game server

The server half of `netchan-ipx/demo/game_net.c`.  A record of `conn` that is not in use is
`none`: every function looks at `used` before it reads another field.  The two callbacks
that the host may install do nothing to the state and are left out.

`log` is a history variable: every connect, disconnect and tick, with what was so when it
happened.  No function reads it.
-/

namespace MechanicalResearcher.NetchanIpx

open Game Lib.BigEndian

abbrev mapChunk : Nat := 512
abbrev chatMax : Nat := 40
def gameTickMs : UInt32 := 125

def gmWelcome : UInt8 := 1
def gmMap : UInt8 := 2
def gmMapend : UInt8 := 3
def gmChat : UInt8 := 4
def gmInput : UInt8 := 5
def gmState : UInt8 := 6

structure GConn where
  nc : Netchan
  addr : Addr
  rel : Option Nat
  unr : Option Nat
  /-- player index, or -1 -/
  player : Int
  /-- bytes of map streamed so far -/
  mapOff : Nat
  /-- map transfer finished -/
  mapped : Bool

inductive Moment
  /-- the client of record `i` connected: which record held which player, the game, and the
  index that the client was given -/
  | joined (i : Nat) (holders : Nat → Option Int) (game : GameState) (given : Int)
  /-- the client of record `i` disconnected, who held `player` -/
  | left (i : Nat) (player : Int)
  /-- who held what, and the game, as a tick began -/
  | ticked (holders : Nat → Option Int) (game : GameState)

structure GServer where
  conn : Nat → Option GConn
  game : GameState
  lastTickMs : UInt32
  log : List Moment

def GServer.setConn (s : GServer) (i : Nat) (gc : GConn) : GServer :=
  { s with conn := Function.update s.conn i (some gc) }

/-- The player of each record in use. -/
def GServer.holders (s : GServer) (i : Nat) : Option Int := (s.conn i).map GConn.player

def chanRead (c : Netchan) (ch : Option Nat) (buflen : Nat) : Netchan × Except Err Bytes :=
  match ch with
  | none => (c, .ok [])
  | some k => ncRead c k buflen

def chanWrite (c : Netchan) (ch : Option Nat) (data : Bytes) : Netchan × Except Err Nat :=
  match ch with
  | none => (c, .error .err)
  | some k => ncWrite c k data

def ncPeekId (pkt : Bytes) : UInt32 := if pkt.length < ncHdr then 0 else rd32 pkt

def addrEq (a b : Addr) : Bool := a.len = b.len ∧ a.a.take a.len.toNat = b.a.take a.len.toNat

def serializePlayer (p : Player) : Bytes :=
  [p.alive, p.x, p.y, p.facing, p.hp] ++ wr16 p.score

/-- The creatures or shots that are alive, behind a byte with their number. -/
def serializeAlive (items : List Bytes) : Bytes :=
  UInt8.ofNat items.length :: items.flatten

def serializeState (w : World) : Bytes :=
  [gmState] ++ wr16 w.tick ++
    (List.range maxPlayers).flatMap (fun i => serializePlayer (w.players i)) ++
    serializeAlive (((List.range maxCreatures).map w.creatures).filterMap fun c =>
      if c.alive = 0 then none else some [c.x, c.y, c.kind]) ++
    serializeAlive (((List.range maxShots).map w.shots).filterMap fun s =>
      if s.alive = 0 then none else some [s.x, s.y, s.dir])

def gserverInit (g : GameState) (seed : UInt16) : Option GServer :=
  (gameInit g seed).map fun game =>
    { conn := fun _ => none, game := game, lastTickMs := 0, log := [] }

def findByAddr (s : GServer) (a : Addr) : Option Nat :=
  (List.range maxPlayers).find? fun i => (s.conn i).any fun gc => addrEq gc.addr a

def findById (s : GServer) (id : UInt32) : Option Nat :=
  (List.range maxPlayers).find? fun i => (s.conn i).any fun gc => gc.nc.localId = id

/-- A fresh connection with its two channels; `r` and `r'` are what `rand` returns. -/
def newConn (source : Addr) (r r' : UInt32) : GConn :=
  let (nc, rel) := ncChanOpen (ncOpen true r r') .reliable
  let (nc, unr) := ncChanOpen nc .unreliable
  { nc := nc, addr := source, rel := rel, unr := unr, player := -1, mapOff := 0, mapped := false }

def acceptConn (s : GServer) (source : Addr) (r r' : UInt32) : GServer × Option Nat :=
  match (List.range maxPlayers).find? fun i => (s.conn i).isNone with
  | none => (s, none)
  | some i => (s.setConn i (newConn source r r'), some i)

/-- The packet goes to the netchan of record `i`. -/
def feedConn (s : GServer) (i : Nat) (pkt : Bytes) (source : Addr) : GServer :=
  match s.conn i with
  | none => s
  | some gc => s.setConn i { gc with nc := (ncFeed gc.nc pkt (some source)).1 }

def gserverFeed (s : GServer) (pkt : Bytes) (source : Addr) (r r' : UInt32) : GServer :=
  let id := ncPeekId pkt
  match if id ≠ 0 then findById s id else findByAddr s source with
  | some i => feedConn s i pkt source
  | none =>
    if id = 0 then
      match acceptConn s source r r' with
      | (s, some i) => feedConn s i pkt source
      | (s, none) => s
    else s

/-- The loop of `stream_map`: it resumes at the next service when the window is full.  The
map is over after so many turns, since each sends a chunk. -/
def streamMap (tiles : Tiles) : Nat → GConn → GConn
  | 0, gc => gc
  | n + 1, gc =>
    if gc.mapOff < mapTiles then
      let chunk := min (mapTiles - gc.mapOff) mapChunk
      let buf := [gmMap] ++ wr16 (UInt16.ofNat gc.mapOff) ++ wr16 (UInt16.ofNat chunk) ++
        (List.range chunk).map fun k => tiles (gc.mapOff + k)
      match chanWrite gc.nc gc.rel buf with
      | (nc, .error .again) => { gc with nc := nc }
      | (nc, _) => streamMap tiles n { gc with nc := nc, mapOff := gc.mapOff + chunk }
    else
      match chanWrite gc.nc gc.rel [gmMapend] with
      | (nc, .error .again) => { gc with nc := nc }
      | (nc, _) => { gc with nc := nc, mapped := true }

/-- `data` on a channel of record `i`. -/
def writeConn (ch : GConn → Option Nat) (data : Bytes) (s : GServer) (i : Nat) : GServer :=
  match s.conn i with
  | none => s
  | some gc => s.setConn i { gc with nc := (chanWrite gc.nc (ch gc) data).1 }

/-- A line of chat to every client that plays. -/
def tellAll (s : GServer) (data : Bytes) : GServer :=
  (List.range maxPlayers).foldl (fun s i =>
    if (s.conn i).any fun gc => decide (gc.player ≥ 0) then writeConn GConn.rel data s i else s) s

/-- Chat is stamped with its real sender and relayed. -/
def relayChat (s : GServer) (who : Int) (msg : Bytes) : GServer :=
  if msg.getD 0 0 = gmChat ∧ msg.length ≥ 3 then tellAll s (msg.set 1 (toByte who)) else s

def takeInput (s : GServer) (player : Int) (msg : Bytes) : GServer :=
  if msg.getD 0 0 = gmInput ∧ msg.length ≥ 2 ∧ player ≥ 0 then
    { s with game := { s.game with world := gameSetInput s.game.world player (msg.getD 1 0) } }
  else s

/-- Reads one channel of record `i` until it is empty, or holds an empty message. -/
def drainLoop (ch : GConn → Option Nat) (handle : GServer → Int → Bytes → GServer) (i : Nat) :
    Nat → GServer → GServer
  | 0, s => s
  | n + 1, s =>
    match s.conn i with
    | none => s
    | some gc =>
      match chanRead gc.nc (ch gc) ncMtu with
      | (nc, .ok msg) =>
        let s := s.setConn i { gc with nc := nc }
        if msg = [] then s else drainLoop ch handle i n (handle s gc.player msg)
      | (nc, .error _) => s.setConn i { gc with nc := nc }

/-- A channel holds at most `NC_RECVQ` messages. -/
def serverDrain (s : GServer) (i : Nat) : GServer :=
  drainLoop GConn.unr takeInput i (ncRecvq + 1)
    (drainLoop GConn.rel relayChat i (ncRecvq + 1) s)

/-- The player of a client that is gone. -/
def dropPlayer (g : GameState) (player : Int) : GameState :=
  if player ≥ 0 then
    { g with
      world := g.world.setPlayer player.toNat { g.world.players player.toNat with alive := 0 } }
  else g

def onConnected (s : GServer) (i : Nat) (gc : GConn) : Option GServer := do
  let (game, player) ← gameAddPlayer s.game
  let nc := (chanWrite gc.nc gc.rel [gmWelcome, toByte player]).1
  some { s.setConn i { gc with nc := nc, player := player, mapOff := 0, mapped := false } with
    game := game
    log := s.log ++ [.joined i s.holders s.game player] }

def onDisconnected (s : GServer) (i : Nat) (gc : GConn) : GServer :=
  { s with
    game := dropPlayer s.game gc.player
    conn := Function.update s.conn i none
    log := s.log ++ [.left i gc.player] }

/-- The events of record `i`; `nc_poll` of a connection that was closed finds none. -/
def pollLoop (i : Nat) : Nat → GServer → Option GServer
  | 0, s => some s
  | n + 1, s =>
    match s.conn i with
    | none => some s
    | some gc =>
      match ncPoll gc.nc with
      | (_, none) => some s
      | (nc, some ev) =>
        let gc := { gc with nc := nc }
        let s := s.setConn i gc
        match ev.type with
        | .connected => do pollLoop i n (← onConnected s i gc)
        | .disconnected => pollLoop i n (onDisconnected s i gc)
        | _ => pollLoop i n s

/-- What record `i` still has to do once its events are handled. -/
def tendConn (s : GServer) (i : Nat) : GServer :=
  let s := serverDrain s i
  match s.conn i with
  | none => s
  | some gc =>
    if gc.player ≥ 0 ∧ gc.mapped = false then
      s.setConn i (streamMap s.game.world.tiles (mapTiles + 1) gc)
    else s

def serviceConn (nowMs : UInt32) (s : GServer) (i : Nat) : Option GServer :=
  match s.conn i with
  | none => some s
  | some gc => do
    let nc := (ncService gc.nc nowMs).1
    let s ← pollLoop i nc.evCount (s.setConn i { gc with nc := nc })
    some (if (s.conn i).isNone then s else tendConn s i)

/-- The state goes to every client that has the whole map. -/
def broadcast (s : GServer) (state : Bytes) : GServer :=
  (List.range maxPlayers).foldl (fun s i =>
    if (s.conn i).any fun gc => decide (gc.player ≥ 0) && gc.mapped then
      writeConn GConn.unr state s i
    else s) s

def serverTick (s : GServer) (nowMs : UInt32) : Option GServer := do
  let game ← gameTick s.game
  some (broadcast
    { s with lastTickMs := nowMs, game := game, log := s.log ++ [.ticked s.holders s.game] }
    (serializeState game.world))

def gserverService (s : GServer) (nowMs : UInt32) : Option GServer := do
  let s ← (List.range maxPlayers).foldlM (serviceConn nowMs) s
  if nowMs - s.lastTickMs ≥ gameTickMs then serverTick s nowMs else some s

def gserverSay (s : GServer) (who : Int) (text : Bytes) : GServer :=
  let text := text.take chatMax
  tellAll s ([gmChat, toByte who, UInt8.ofNat text.length] ++ text)

/-- The first record that has something to send. -/
def pullLoop (buflen : Nat) : List Nat → GServer → GServer × Option (Bytes × Addr)
  | [], s => (s, none)
  | i :: is, s =>
    match s.conn i with
    | none => pullLoop buflen is s
    | some gc =>
      match ncSendNext gc.nc buflen with
      | (nc, some sent) => (s.setConn i { gc with nc := nc }, some sent)
      | (nc, none) => pullLoop buflen is (s.setConn i { gc with nc := nc })

def gserverPull (s : GServer) (buflen : Nat) : GServer × Option (Bytes × Addr) :=
  pullLoop buflen (List.range maxPlayers) s

inductive Call
  | feed (pkt : Bytes) (source : Addr) (r r' : UInt32)
  | service (nowMs : UInt32)
  | pull (buflen : Nat)
  | say (who : Int) (text : Bytes)

def GServer.call (s : GServer) : Call → Option GServer
  | .feed pkt source r r' => some (gserverFeed s pkt source r r')
  | .service nowMs => gserverService s nowMs
  | .pull buflen => some (gserverPull s buflen).1
  | .say who text => some (gserverSay s who text)

/-- The server after some calls, where they all return. -/
def serverRun (s : GServer) (calls : List Call) : Option GServer := calls.foldlM GServer.call s

end MechanicalResearcher.NetchanIpx
