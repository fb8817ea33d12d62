import MechanicalResearcher.NetchanAuth.Auth
import MechanicalResearcher.NetchanV2.Api

/-!
# The authenticated link

`netchan-auth/demo/auth_link.c`: the session that stacks the login on a netchan
connection and the connection on the crypto session, driven by the event loop.  The
`netchan.c` of this program is the one of netchan-v2.

A callback may call the link again.  The application is a function of the callbacks
that fired so far: it answers with the calls that the callback now running makes.  A
callback that is not set is one that makes none.  `bound` limits how often a loop of
the source turns and how deep callbacks nest; the results hold for every bound.

What the link reads of its surroundings comes from `envs`, one reading for each place
that takes one.  `sent` and `fired` are histories: the datagrams handed to `sendto`
and the callbacks, each with the state of the login at that moment.
-/

namespace MechanicalResearcher.NetchanAuth

open NetchanV2

def tagAuth : UInt8 := 0xa0
def tagApp : UInt8 := 0xa1

/-- `AL_DOWN_*` -/
inductive DownReason
  | peer | auth | hostkey
  deriving DecidableEq, Repr

inductive Callback
  | up
  | data (bytes : Bytes)
  | down (reason : DownReason)
  | need (what : Need)
  deriving DecidableEq, Repr

structure Fired where
  cb : Callback
  auth : AuthState
  deriving DecidableEq, Repr

/-- What one call of a library function sees: the clock and the random numbers of netchan,
`now_ms()`, and the answers of the credential store. -/
structure LinkEnv where
  env : Env
  now : UInt32
  scb : AuthServerCb

/-- A call of the application. -/
inductive Call
  | supplyKey (sk : Option (Vector UInt8 64)) (pk : Option Key)
  | supplyPassword (password : Option Bytes)
  | send (data : Bytes)

abbrev App := List Fired → List Call

structure AuthLink where
  conn : Conn
  /-- our reliable send channel -/
  tx : Option Nat
  /-- the peer's channel, learned on open -/
  rx : Option Nat
  server : Bool
  havePeer : Bool
  connectSent : Bool
  accepted : Bool
  authStarted : Bool
  needFired : Need
  up : Bool
  down : Bool
  peer : Addr
  crypto : Crypto
  auth : Auth
  user : Bytes
  envs : Nat → LinkEnv
  used : Nat
  sent : List (Bytes × Addr)
  fired : List Fired

/-- The next reading of the surroundings. -/
def AuthLink.env (al : AuthLink) : LinkEnv := al.envs al.used

def AuthLink.tickEnv (al : AuthLink) : AuthLink := { al with used := al.used + 1 }

/-- `nc_udp_to_sockaddr` knows the address. -/
def sockaddrOk (a : Addr) : Bool :=
  a.len == 7 && a.a.headD 0 == 4 || a.len == 19 && a.a.headD 0 == 6

section Link

variable (M : Monocypher) (app : App) (bound : Nat)

def sendHello (al : AuthLink) : AuthLink :=
  if al.havePeer = false then al
  else
    let hp := ncCryptoHandshakePacket al.crypto ncCryptoHelloLen
    if hp.length = 0 ∨ sockaddrOk al.peer = false then al
    else { al with sent := al.sent ++ [(hp, al.peer)] }

/-- One turn of the loop of `flush_out`, with a packet that netchan wrote. -/
def flushPacket (al : AuthLink) (pkt : Bytes) (dst : Addr) : AuthLink :=
  match ncCryptoSeal M al.crypto pkt (2048 + ncCryptoOverhead) with
  | (crypto, none) => { al with crypto := crypto }
  | (crypto, some sealed) =>
    let al := { al with crypto := crypto }
    if sockaddrOk dst = false then al else { al with sent := al.sent ++ [(sealed, dst)] }

def flushLoop : Nat → AuthLink → AuthLink
  | 0, al => al
  | n + 1, al =>
    match netchanSendNext al.env.env al.conn 2048 with
    | (conn, none) => { al with conn := conn }.tickEnv
    | (conn, some (pkt, dst)) =>
      flushLoop n (flushPacket M { al with conn := conn }.tickEnv pkt dst)

def flushOut (al : AuthLink) : AuthLink := flushLoop M bound al

/-- The loop of `chan_send`; the result is the return value 0. -/
def chanSendLoop (k : Nat) (msg : Bytes) : Nat → AuthLink → AuthLink × Bool
  | 0, al => (al, false)
  | spins + 1, al =>
    match netchanChanWrite al.conn k msg with
    | (conn, .ok _) => (flushOut M bound { al with conn := conn }, true)
    | (conn, .error e) =>
      let al := { al with conn := conn }
      if e ≠ .flow ∧ e ≠ .again then (al, false)
      else
        let al := { al with conn := (netchanService al.env.env al.conn al.env.now).1 }.tickEnv
        chanSendLoop k msg spins (flushOut M bound al)

def chanSend (al : AuthLink) (tag : UInt8) (data : Bytes) : AuthLink × Bool :=
  match al.tx with
  | none => (al, false)
  | some k =>
    if data.length + 1 > 2048 then (al, false)
    else chanSendLoop M bound k (tag :: data) 64 al

/-- The messages that nc_auth hands to its send callback. -/
def authOut (al : AuthLink) (msgs : List Bytes) : AuthLink :=
  msgs.foldl (fun al msg => (chanSend M bound al tagAuth msg).1) al

/-! ## Callbacks

`re` runs the calls that a callback makes. -/

variable (re : AuthLink → List Call → AuthLink)

def fire (al : AuthLink) (cb : Callback) : AuthLink :=
  let al := { al with fired := al.fired ++ [⟨cb, al.auth.state⟩] }
  re al (app al.fired)

def fireDown (al : AuthLink) (reason : DownReason) : AuthLink :=
  if al.down then al else fire app re { al with down := true } (.down reason)

def settleNeed (al : AuthLink) : AuthLink :=
  if al.authStarted = false ∨ al.server = true ∨ al.up = true ∨ al.down = true then al
  else
    let need := ncAuthNeeds al.auth
    if need = al.needFired then al
    else
      let al := { al with needFired := need }
      if need ≠ .nothing then fire app re al (.need need) else al

def settleAuth (al : AuthLink) : AuthLink :=
  if al.authStarted = false ∨ al.up = true ∨ al.down = true then al
  else
    let al := settleNeed app re al
    if al.auth.state = .ok then
      fire app re { al with user := al.auth.user.take ncAuthMaxUser, up := true } .up
    else if al.auth.state = .denied then fireDown app re al .auth
    else al

/-- What the two `auth_link_supply_*` functions do behind the answer of nc_auth. -/
def supplied (al : AuthLink) (r : Auth × List Bytes) : AuthLink :=
  let al := authOut M bound { al with auth := r.1 } r.2
  flushOut M bound (settleAuth app re { al with needFired := .nothing })

def authLinkSupplyKey (al : AuthLink) (sk : Option (Vector UInt8 64)) (pk : Option Key) :
    AuthLink :=
  if al.authStarted = false ∨ al.server = true then al
  else supplied M app bound re al (ncAuthSupplyKey M al.auth sk pk)

def authLinkSupplyPassword (al : AuthLink) (password : Option Bytes) : AuthLink :=
  if al.authStarted = false ∨ al.server = true then al
  else supplied M app bound re al (ncAuthSupplyPassword al.auth password)

def authLinkSend (al : AuthLink) (data : Bytes) : AuthLink × Bool :=
  if al.up = false then (al, false) else chanSend M bound al tagApp data

def AuthLink.call (al : AuthLink) : Call → AuthLink
  | .supplyKey sk pk => authLinkSupplyKey M app bound re al sk pk
  | .supplyPassword password => authLinkSupplyPassword M app bound re al password
  | .send data => (authLinkSend M bound al data).1

/-- The calls that a callback makes, with at most `n` callbacks inside each other. -/
def nested : Nat → AuthLink → List Call → AuthLink
  | 0, al, _ => al
  | n + 1, al, calls => calls.foldl (AuthLink.call M app bound (nested n)) al

/-- netchan connects and the channel opens once the layer below is up. -/
def advanceConn (al : AuthLink) : AuthLink :=
  let al :=
    if al.server = false ∧ al.connectSent = false ∧ ncCryptoReady al.crypto = true then
      match netchanConnect al.env.env al.conn al.peer with
      | (conn, .ok ()) => { al with conn := conn, connectSent := true }.tickEnv
      | (conn, .error _) => { al with conn := conn }.tickEnv
    else al
  if al.tx = none ∧ al.conn.state = .connected then
    let (conn, ch) := netchanChanOpen al.conn netchanReliable netchanDirSend
      (some [0x61, 0x75, 0x74, 0x68])
    { al with conn := conn, tx := ch }
  else al

/-- The login starts once there is a channel to carry it. -/
def startAuth (al : AuthLink) : AuthLink :=
  if al.tx.isSome = true ∧ al.authStarted = false then
    match ncCryptoSessionId al.crypto with
    | none => al
    | some sid =>
      let auth := if al.server then ncAuthServerInit sid else ncAuthClientInit sid (some al.user)
      let al := { al with auth := auth, authStarted := true }
      if al.server then al else authOut M bound al (ncAuthStart al.auth)
  else al

def advance (al : AuthLink) : AuthLink :=
  if ncCryptoFailed al.crypto then fireDown app re al .hostkey
  else settleAuth app re (startAuth M bound (advanceConn al))

/-- nc_auth is fed, and what it sends goes out. -/
def feedAuth (al : AuthLink) (msg : Bytes) : AuthLink :=
  let fed := ncAuthFeed M al.env.scb al.auth msg
  authOut M bound { al with auth := fed.auth }.tickEnv fed.sent

def deliver (al : AuthLink) (msg : Bytes) : AuthLink :=
  if msg.length < 1 then al
  else if msg.headD 0 = tagAuth then
    settleAuth app re (if al.authStarted then feedAuth M bound al (msg.drop 1) else al)
  else if msg.headD 0 = tagApp ∧ al.up = true then fire app re al (.data (msg.drop 1))
  else al

/-- What one event of netchan does. -/
def onEvent (al : AuthLink) (ev : Event) : AuthLink :=
  match ev.type with
  | .chanOpen | .data => if ev.ch.isSome then { al with rx := ev.ch } else al
  | .disconnected => fireDown app re al .peer
  | _ => al

def pollLoop : Nat → AuthLink → AuthLink
  | 0, al => al
  | n + 1, al =>
    match netchanPoll al.conn with
    | (conn, none) => { al with conn := conn }
    | (conn, some ev) => pollLoop n (onEvent app re { al with conn := conn } ev)

def pumpRead (k : Nat) : Nat → AuthLink → AuthLink
  | 0, al => al
  | n + 1, al =>
    match netchanChanRead al.conn k 2048 with
    | (conn, .ok (b :: msg)) =>
      pumpRead k n (deliver M app bound re { al with conn := conn } (b :: msg))
    | (conn, _) => { al with conn := conn }

def pumpEvents (al : AuthLink) : AuthLink :=
  let al := pollLoop app re bound al
  match al.rx with
  | none => al
  | some k => pumpRead M app bound re k bound al

end Link

structure Datagram where
  bytes : Bytes
  /-- `none` is an address `nc_udp_from_sockaddr` does not know -/
  source : Option Addr

section Loop

variable (M : Monocypher)

/-- The server takes the first sender for its peer. -/
def pinPeer (al : AuthLink) (source : Addr) : AuthLink :=
  if al.server = true ∧ al.havePeer = false then { al with peer := source, havePeer := true }
  else al

def answerHello (al : AuthLink) (buf : Bytes) : AuthLink :=
  if buf.headD 0 = ncCryptoHello ∧ al.server = true then sendHello al else al

/-- netchan gets what was in the datagram. -/
def feedPlain (al : AuthLink) (plain : Option Bytes) (source : Addr) : AuthLink :=
  match plain with
  | none | some [] => al
  | some pkt =>
    let conn := (netchanFeed al.env.env al.conn pkt (some source)).1
    if al.server = true ∧ al.accepted = false then
      { al with conn := (netchanAccept conn).1, accepted := true }.tickEnv
    else { al with conn := conn }.tickEnv

/-- One datagram.  The second component is the `break` after a refused identity. -/
def receiveOne (al : AuthLink) (buf : Bytes) (source : Addr) : AuthLink × Bool :=
  let al := pinPeer al source
  let (crypto, plain) := ncCryptoOpen M al.crypto buf 2048
  let al := { al with crypto := crypto }
  if ncCryptoFailed al.crypto then (al, true)
  else (feedPlain (answerHello al buf) plain source, false)

/-- The loop over the datagrams of one wakeup.  An empty one ends it too. -/
def receiveLoop : List Datagram → AuthLink → AuthLink
  | [], al => al
  | d :: ds, al =>
    let buf := d.bytes.take 2048
    if buf.length = 0 then al
    else
      match d.source with
      | none => receiveLoop ds al
      | some source =>
        match receiveOne M al buf source with
        | (al, true) => al
        | (al, false) => receiveLoop ds al

variable (app : App) (bound : Nat)

/-- The calls of a callback that runs from the loop. -/
def reenter : AuthLink → List Call → AuthLink := nested M app bound bound

def onReadable (al : AuthLink) (ds : List Datagram) : AuthLink :=
  let al := pumpEvents M app bound (reenter M app bound) (receiveLoop M ds al)
  flushOut M bound (advance M app bound (reenter M app bound) al)

/-- The part of `on_tick` before the events are drained. -/
def tickConn (al : AuthLink) : AuthLink :=
  let al := if al.server = false ∧ ncCryptoReady al.crypto = false then sendHello al else al
  { al with conn := (netchanService al.env.env al.conn al.env.now).1 }.tickEnv

def onTick (al : AuthLink) : AuthLink :=
  let al := pumpEvents M app bound (reenter M app bound) (tickConn al)
  flushOut M bound (advance M app bound (reenter M app bound) al)

/-- The configuration of `auth_link_open`; the credential store is in `envs`. -/
structure LinkCfg where
  server : Bool
  peer : Option Addr
  crypto : CryptoCfg
  user : Option Bytes

/-- `calloc` and the fields that the configuration sets. -/
def AuthLink.blank (cfg : LinkCfg) (crypto : Crypto) (envs : Nat → LinkEnv) : AuthLink where
  conn := netchanOpen cfg.server netchanCfgDefault
  tx := none
  rx := none
  server := cfg.server
  havePeer := cfg.peer.isSome
  connectSent := false
  accepted := false
  authStarted := false
  needFired := .nothing
  up := false
  down := false
  peer := cfg.peer.getD Addr.unset
  crypto := crypto
  auth := ⟨false, .pending, .nothing, false, 0, 0, zero32, []⟩
  user := (cString (cfg.user.getD [])).take ncAuthMaxUser
  envs := envs
  used := 0
  sent := []
  fired := []

/-- The first tick runs at once. -/
def authLinkOpen (cfg : LinkCfg) (random : Option Key) (envs : Nat → LinkEnv) :
    Option AuthLink :=
  if cfg.server = false ∧ cfg.peer = none then none
  else
    match ncCryptoInit M (if cfg.server then .responder else .initiator) (some cfg.crypto)
        random with
    | none => none
    | some crypto => some (onTick M app bound (AuthLink.blank cfg crypto envs))

/-- What happens to an open link: datagrams arrive, the timer fires, the application calls. -/
inductive LinkEvent
  | readable (ds : List Datagram)
  | tick
  | call (c : Call)

def AuthLink.step (al : AuthLink) : LinkEvent → AuthLink
  | .readable ds => onReadable M app bound al ds
  | .tick => onTick M app bound al
  | .call c => al.call M app bound (reenter M app bound) c

end Loop

end MechanicalResearcher.NetchanAuth
