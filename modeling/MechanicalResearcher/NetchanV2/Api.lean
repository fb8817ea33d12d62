import MechanicalResearcher.NetchanV2.Receive

/-!
# The public interface

Connection lifecycle, packet output, timers and the channel calls.  `Act` lists
the calls an application can make on an open connection and `Conn.step` runs
one; the theorems of this development are about every sequence of them.
-/

namespace MechanicalResearcher.NetchanV2

open Lib.Serial Lib.BigEndian

def netchanCfgDefault : Cfg where
  mtu := 1200
  chanWindow := 65536
  idleTimeoutMs := 30000
  retransmitMs := 100

/-- `calloc`, `pool_init` and the defaults; `netchan_config` replaces `cfg`. -/
def netchanOpen (server : Bool) (cfg : Cfg) : Conn where
  cfg := cfg
  channels := fun _ => none
  chanPool := fun _ => Chan.zero
  chanUsed := fun _ => false
  poolFree := fun i => i
  poolFreeTop := ncPoolBufs
  poolStore := fun _ => 0
  log := []
  localId := 0
  remoteId := 0
  server := server
  state := .new
  peerAddr := Addr.unset
  nextPktNum := 0
  lastRecvMs := 0
  lastSendMs := 0
  connectSentMs := 0
  connectAttempts := 0
  pingSentMs := 0
  pingOpaque := 0
  rttMs := 100
  rttMinMs := 0
  pktsSent := 0
  pktsRecv := 0
  nextChanId := if server then 1 else 0
  events := fun _ => Event.zero
  evHead := 0
  evTail := 0
  ctrlBuf := []
  evLog := []

def netchanConnect (env : Env) (c : Conn) (addr : Addr) : Conn × Except Err Unit :=
  if c.server then (c, .error .err)
  else if c.state ≠ .new then (c, .error .err)
  else
    let c := { c with localId := ncRandomId env, peerAddr := addr, state := .connecting }
    let c := ctrlConnectInit c
    ({ c with connectSentMs := env.nowMs 0, connectAttempts := 1 }, .ok ())

def netchanAccept (c : Conn) : Conn × Except Err Unit :=
  if !c.server then (c, .error .err)
  else if c.state ≠ .connecting then (c, .error .err)
  else
    let c := ctrlConnectAccept c
    (evPush { c with state := .connected } .connected none, .ok ())

/-- The scan of `chan_next_sendable` from slot `idx` on. -/
def sendableFrom (ch : Chan) : Nat → Nat → Option Nat
  | 0, _ => none
  | fuel + 1, idx =>
    if idx = ch.outTail then none
    else if (ch.outgoing idx).active = true ∧
        (ch.outgoing idx).fragSent < (ch.outgoing idx).fragTotal then some idx
    else sendableFrom ch fuel ((idx + 1) % ncOutgoingSlots)

def chanNextSendable (ch : Chan) : Option Nat :=
  sendableFrom ch ncOutgoingSlots ch.outHead

def chanHasData (ch : Chan) : Bool :=
  (ch.role == .sender && ch.state == .opened && (chanNextSendable ch).isSome) ||
    ch.needAck || ch.needWindowUpdate

def hasData (c : Conn) : Bool :=
  !c.ctrlBuf.isEmpty ||
    (List.range ncMaxChannels).any fun i =>
      match c.channels (UInt8.ofNat i) with
      | none => false
      | some k => chanHasData (c.chanPool k)

/-- `mtu - pos` in `size_t` -/
def sizeSub (a b : Nat) : Nat := (a + 2 ^ 64 - b) % 2 ^ 64

/-- Put as much of the control queue into the packet as there is room for. -/
def flushCtrl (mtu : Nat) (c : Conn) (out : List UInt8) : Conn × List UInt8 :=
  let n := min c.ctrlBuf.length (sizeSub mtu out.length)
  ({ c with ctrlBuf := c.ctrlBuf.drop n }, out ++ c.ctrlBuf.take n)

def flushAck (mtu : Nat) (c : Conn) (k : Nat) (out : List UInt8) : Conn × List UInt8 :=
  let ch := c.chanPool k
  if ch.needAck = true ∧ out.length + 4 ≤ mtu then
    (c.lift fun s =>
        (s.modChan k fun ch => { ch with needAck := false }).mark (.ack k ch.ackSeq),
      out ++ ncFrameAck :: ch.id :: wr16 ch.ackSeq)
  else (c, out)

def flushWindow (mtu : Nat) (c : Conn) (k : Nat) (out : List UInt8) : Conn × List UInt8 :=
  let ch := c.chanPool k
  if ch.needWindowUpdate = true ∧ out.length + 6 ≤ mtu then
    let window := if ch.recvWindow > ch.recvBuffered then ch.recvWindow - ch.recvBuffered else 0
    (c.lift fun s => s.modChan k fun ch => { ch with needWindowUpdate := false },
      out ++ ncFrameWindowUpdate :: ch.id :: wr32 window)
  else (c, out)

def flushAcks (mtu : Nat) : List Nat → Conn → List UInt8 → Conn × List UInt8
  | [], c, out => (c, out)
  | i :: is, c, out =>
    if out.length + 6 ≤ mtu then
      match c.channels (UInt8.ofNat i) with
      | none => flushAcks mtu is c out
      | some k =>
        let (c, out) := flushAck mtu c k out
        let (c, out) := flushWindow mtu c k out
        flushAcks mtu is c out
    else (c, out)

/-- The bytes of the fragment of `o` that is sent next. -/
def fragLen (cfg : Cfg) (o : Outgoing) : Nat :=
  min (sizeSub o.len (o.fragSent * maxFragPayload cfg)) (maxFragPayload cfg)

def dataFrame (s : Core) (k j : Nat) : List UInt8 :=
  let ch := s.chanPool k
  let o := ch.outgoing j
  let dlen := fragLen s.cfg o
  ncFrameData :: ch.id :: wr16 o.seq ++ wr16 (UInt16.ofNat dlen) ++
    [UInt8.ofNat o.fragSent, UInt8.ofNat o.fragTotal] ++
    s.bytes (poolPtr o.buf + o.fragSent * maxFragPayload s.cfg) dlen

/-- Count the fragment as sent; an unreliable message is freed after its last one. -/
def sentFragment (now : UInt32) (s : Core) (k j : Nat) : Core :=
  let s := s.modChan k fun ch =>
    let o := ch.outgoing j
    { ch with
      outgoing := Function.update ch.outgoing j
        { o with
          fragSent := o.fragSent + 1
          sentMs := now
          attempts := if o.attempts = 0 then 1 else o.attempts } }
  let o := (s.chanPool k).outgoing j
  if o.fragTotal ≤ o.fragSent ∧ (s.chanPool k).type = netchanUnreliable then
    let s := (poolPut s o.buf).modChan k fun ch =>
      { ch with outgoing := Function.update ch.outgoing j { o with buf := none, active := false } }
    advanceHead s k
  else s

def sendData (env : Env) (mtu : Nat) : List Nat → Conn → List UInt8 → Conn × List UInt8
  | [], c, out => (c, out)
  | i :: is, c, out =>
    if out.length + 9 ≤ mtu then
      match c.channels (UInt8.ofNat i) with
      | none => sendData env mtu is c out
      | some k =>
        if (c.chanPool k).role = .sender ∧ (c.chanPool k).state = .opened then
          match chanNextSendable (c.chanPool k) with
          | none => sendData env mtu is c out
          | some j =>
            -- a fragment that does not fit ends the whole loop
            if fragLen c.cfg ((c.chanPool k).outgoing j) > mtu - out.length - 8 then (c, out)
            else
              sendData env mtu is (c.lift fun s => sentFragment (env.nowMs i) s k j)
                (out ++ dataFrame c.toCore k j)
        else sendData env mtu is c out
    else (c, out)

def sendHeader (c : Conn) : Conn × List UInt8 :=
  if c.state = .connecting ∧ c.server = false then
    (c, ncPktFlagInit :: wr32 c.localId)
  else
    ({ c with nextPktNum := c.nextPktNum + 1 },
      ncPktFlagPktnum :: wr32 c.remoteId ++ wr16 c.nextPktNum)

def headerSize (c : Conn) : Nat :=
  if c.state = .connecting ∧ c.server = false then ncHdrInitSize else ncHdrFullSize

/-- The packet and its destination; `none` is the return value 0. -/
def netchanSendNext (env : Env) (c : Conn) (buflen : Nat) :
    Conn × Option (List UInt8 × Addr) :=
  if hasData c = false then (c, none)
  else if buflen < headerSize c then (c, none)
  else
    let mtu := min c.cfg.mtu.toNat buflen
    let (c, out) := sendHeader c
    let (c, out) := flushCtrl mtu c out
    let (c, out) := flushAcks mtu (List.range ncMaxChannels) c out
    let (c, out) := sendData env mtu (List.range ncMaxChannels) c out
    ({ c with lastSendMs := env.nowMs ncMaxChannels, pktsSent := c.pktsSent + 1 },
      some (out, c.peerAddr))

/-- The value of an `unsigned` assigned to an `int`. -/
def int32 (d : UInt32) : Int :=
  if d.toNat < 2 ^ 31 then (d.toNat : Int) else (d.toNat : Int) - 2 ^ 32

def sooner (nextMs remain : Int) : Int :=
  if nextMs < 0 ∨ remain < nextMs then remain else nextMs

/-- The retransmit scan over the outgoing slots of one channel. -/
def serviceSlots (now : UInt32) (k : Nat) : List Nat → Conn → Int → Conn × Int
  | [], c, nextMs => (c, nextMs)
  | j :: js, c, nextMs =>
    let o := (c.chanPool k).outgoing j
    if o.active = false ∨ o.sentMs = 0 then serviceSlots now k js c nextMs
    else
      let timeout := min (c.cfg.retransmitMs <<< UInt32.ofNat (o.attempts - 1)) ncMaxRtMs
      let elapsed := now - o.sentMs
      if timeout ≤ elapsed then
        if ncMaxRtAttempts ≤ o.attempts then
          (evPush (c.lift fun s => s.modChan k fun ch => { ch with state := .closed })
            .chanClose (some k), nextMs)
        else
          let c := c.lift fun s => s.modChan k fun ch =>
            { ch with
              outgoing := Function.update ch.outgoing j
                { o with fragSent := 0, sentMs := now, attempts := o.attempts + 1 }
              retransmissions := ch.retransmissions + 1 }
          serviceSlots now k js c nextMs
      else serviceSlots now k js c (sooner nextMs (int32 (timeout - elapsed)))

def serviceChannels (now : UInt32) : List Nat → Conn → Int → Conn × Int
  | [], c, nextMs => (c, nextMs)
  | i :: is, c, nextMs =>
    match c.channels (UInt8.ofNat i) with
    | none => serviceChannels now is c nextMs
    | some k =>
      if (c.chanPool k).role = .sender ∧ (c.chanPool k).type = netchanReliable then
        let (c, nextMs) := serviceSlots now k (List.range ncOutgoingSlots) c nextMs
        serviceChannels now is c nextMs
      else serviceChannels now is c nextMs

/-- Handshake retry.  `none` for the time is the early return with -1. -/
def serviceHandshake (c : Conn) (now : UInt32) : Conn × Option Int :=
  if c.state = .connecting ∧ c.server = false then
    let elapsed := now - c.connectSentMs
    let remain := max (int32 (ncConnectRetryMs - elapsed)) 0
    if ncConnectRetryMs ≤ elapsed then
      if ncConnectRetries ≤ c.connectAttempts then
        (evPush { c with state := .closed } .disconnected none, none)
      else
        let c := ctrlConnectInit c
        ({ c with connectSentMs := now, connectAttempts := c.connectAttempts + 1 }, some remain)
    else (c, some remain)
  else (c, some (-1))

def serviceIdle (c : Conn) (now : UInt32) (nextMs : Int) : Conn × Option Int :=
  if c.state = .connected ∧ 0 < c.lastRecvMs then
    let idle := now - c.lastRecvMs
    if c.cfg.idleTimeoutMs ≤ idle then
      (evPush { c with state := .closed } .disconnected none, none)
    else (c, some (sooner nextMs (int32 (c.cfg.idleTimeoutMs - idle))))
  else (c, some nextMs)

def servicePing (env : Env) (c : Conn) (now : UInt32) (nextMs : Int) : Conn × Int :=
  if c.state = .connected ∧ 0 < c.lastSendMs then
    let sinceSend := now - c.lastSendMs
    if ncPingIntervalMs ≤ sinceSend then
      if c.pingSentMs = 0 then
        let c := ctrlPing { c with pingOpaque := ncRandomId env } (ncRandomId env)
        ({ c with pingSentMs := now }, nextMs)
      else (c, nextMs)
    else (c, sooner nextMs (int32 (ncPingIntervalMs - sinceSend)))
  else (c, nextMs)

def netchanService (env : Env) (c : Conn) (now : UInt32) : Conn × Int :=
  match serviceHandshake c now with
  | (c, none) => (c, -1)
  | (c, some nextMs) =>
    match serviceIdle c now nextMs with
    | (c, none) => (c, -1)
    | (c, some nextMs) =>
      let (c, nextMs) := servicePing env c now nextMs
      serviceChannels now (List.range ncMaxChannels) c nextMs

def netchanChanOpen (c : Conn) (type dir : Nat) (contentType : Option (List UInt8)) :
    Conn × Option Nat :=
  if c.state ≠ .connected then (c, none)
  else if (c.channels c.nextChanId).isSome then (c, none)
  else
    let id := c.nextChanId
    let c := { c with nextChanId := c.nextChanId + 2 }
    let role : Role := if dir = netchanDirSend then .sender else .receiver
    match chanNew c.toCore id type dir role contentType with
    | (_, none) => (c, none)
    | (s, some k) =>
      let c := ctrlChannelOpen { c with toCore := s } (s.chanPool k)
      if role = .receiver then
        let c := ctrlWindowUpdate c id (c.chanPool k).recvWindow
        (c.lift fun s => s.modChan k fun ch => { ch with state := .opened }, some k)
      else (c, some k)

def netchanChanClose (c : Conn) (k : Nat) : Conn :=
  if (c.chanPool k).state = .closing ∨ (c.chanPool k).state = .closed then c
  else
    (ctrlChannelClose c (c.chanPool k).id 0).lift fun s =>
      s.modChan k fun ch => { ch with state := .closing }

/-- The 8-bit fragment count of a message of `len` bytes. -/
def fragCount (cfg : Cfg) (len : Nat) : Nat :=
  let n := (len + maxFragPayload cfg - 1) / maxFragPayload cfg % 256
  if n = 0 then 1 else n

def chanWrite (s : Core) (k : Nat) (data : List UInt8) : Core × Except Err Nat :=
  let ch := s.chanPool k
  if ch.role ≠ .sender then (s, .error .err)
  else if ch.state = .closed then (s, .error .closed)
  else if data.length = 0 then (s, .ok 0)
  else if data.length > ncMaxMsg then (s, .error .toobig)
  else if ch.type = netchanReliable ∧ ch.state = .opened ∧
      ch.bytesInFlight.toNat + data.length > ch.sendWindow.toNat then (s, .error .flow)
  else
    let next := (ch.outTail + 1) % ncOutgoingSlots
    if next = ch.outHead then (s, .error .again)
    else
      match poolGet s with
      | (s, none) => (s, .error .nomem)
      | (s, some b) =>
        let s := s.memcpy (poolPtr (some b)) data
        let fragTotal := fragCount s.cfg data.length
        if fragTotal > ncMaxFrags then
          -- the sequence number stays used
          ((poolPut s (some b)).modChan k fun ch =>
            { ch with
              sendSeq := ch.sendSeq + 1
              outgoing := Function.update ch.outgoing ch.outTail Outgoing.zero },
            .error .toobig)
        else
          let s := s.modChan k fun ch =>
            { ch with
              sendSeq := ch.sendSeq + 1
              outgoing := Function.update ch.outgoing ch.outTail
                ⟨ch.sendSeq, some b, data.length, 0, 0, 0, fragTotal, true⟩
              bytesInFlight :=
                if ch.type = netchanReliable then
                  ch.bytesInFlight + UInt32.ofNat data.length
                else ch.bytesInFlight
              msgsSent := ch.msgsSent + 1
              outTail := next }
          (s.mark (.write k data), .ok data.length)

def netchanChanWrite (c : Conn) (k : Nat) (data : List UInt8) : Conn × Except Err Nat :=
  let (s, r) := chanWrite c.toCore k data
  ({ c with toCore := s }, r)

def chanRead (s : Core) (k : Nat) (buflen : Nat) : Core × Except Err (List UInt8) :=
  let ch := s.chanPool k
  if ch.role ≠ .receiver then (s, .error .err)
  else if ch.rqHead = ch.rqTail then (s, .ok [])
  else
    let e := ch.recvQueue ch.rqHead
    let n := min e.len buflen
    let data := s.bytes (poolPtr e.buf) n
    let s := (poolPut s e.buf).modChan k fun ch =>
      { ch with
        recvQueue := Function.update ch.recvQueue ch.rqHead ⟨none, 0⟩
        rqHead := (ch.rqHead + 1) % ncRecvQueue
        recvBuffered := ch.recvBuffered - UInt32.ofNat n
        needWindowUpdate := true }
    (s.mark (.read k data), .ok data)

def netchanChanRead (c : Conn) (k : Nat) (buflen : Nat) : Conn × Except Err (List UInt8) :=
  let (s, r) := chanRead c.toCore k buflen
  ({ c with toCore := s }, r)

def netchanPoll (c : Conn) : Conn × Option Event :=
  if c.evHead = c.evTail then (c, none)
  else
    ({ c with evHead := (c.evHead + 1) % ncEventQueue }, some (c.events c.evHead))

/-- One call on an open connection.  A channel argument is the record that the
pointer points to; an application only holds pointers to records in use. -/
inductive Act
  | connect (env : Env) (addr : Addr)
  | accept
  | feed (env : Env) (pkt : List UInt8) (src : Option Addr)
  | sendNext (env : Env) (buflen : Nat)
  | service (env : Env) (now : UInt32)
  | chanOpen (type dir : Nat) (contentType : Option (List UInt8))
  | chanClose (k : Nat)
  | chanWrite (k : Nat) (data : List UInt8)
  | chanRead (k : Nat) (buflen : Nat)
  | poll

def Conn.step (c : Conn) : Act → Conn
  | .connect env addr => (netchanConnect env c addr).1
  | .accept => (netchanAccept c).1
  | .feed env pkt src => (netchanFeed env c pkt src).1
  | .sendNext env buflen => (netchanSendNext env c buflen).1
  | .service env now => (netchanService env c now).1
  | .chanOpen type dir contentType => (netchanChanOpen c type dir contentType).1
  | .chanClose k => if c.chanUsed k then netchanChanClose c k else c
  | .chanWrite k data => if c.chanUsed k then (netchanChanWrite c k data).1 else c
  | .chanRead k buflen => if c.chanUsed k then (netchanChanRead c k buflen).1 else c
  | .poll => (netchanPoll c).1

/-- The calls of a run, in order. -/
def Conn.run (c : Conn) (acts : List Act) : Conn := acts.foldl Conn.step c

end MechanicalResearcher.NetchanV2
