import MechanicalResearcher.Lib.Serial
import MechanicalResearcher.Lib.BigEndian

/-!
# The IPX netchan

`netchan-ipx/demo/netchan.c` with its default tunables.  A fixed array is a function
from its index, a channel pointer is the index of its record in `chan`, and a stored
message is the bytes that its `len` covers.  What a function writes to the buffer of its
caller is the list it returns.

`log` is a history variable: what was written, acknowledged, taken and read, in order.
No function reads it.
-/

namespace MechanicalResearcher.NetchanIpx

open Lib.Serial Lib.BigEndian

abbrev Bytes := List UInt8

/-! ## Constants -/

abbrev ncMtu : Nat := 546
abbrev ncWindow : Nat := 8
abbrev ncMaxChan : Nat := 2
abbrev ncRecvq : Nat := 8
abbrev ncUnrelTxq : Nat := 4
abbrev ncHdr : Nat := 8
abbrev ncRec : Nat := 6
abbrev ncMaxmsg : Nat := 532
abbrev ncEventq : Nat := 8

def pktSyn : UInt8 := 1
def pktSynack : UInt8 := 2
def pktAck : UInt8 := 3
def pktData : UInt8 := 4
def pktFin : UInt8 := 5

def mtUnrel : UInt8 := 0
def mtRel : UInt8 := 1

def rtMs : UInt32 := 120
def rtMaxMs : UInt32 := 1000
def rtAttempts : UInt16 := 12
def connectRetryMs : UInt32 := 250
def connectRetries : UInt16 := 240
def keepaliveMs : UInt32 := 1000
def idleMs : UInt32 := 10000

/-! ## Records -/

/-- `NC_RELIABLE` and `NC_UNRELIABLE` -/
inductive ChanType
  | reliable | unreliable
  deriving DecidableEq, Repr

/-- `NC_STATE_*` -/
inductive ConnState
  | closed | connecting | connected | closing
  deriving DecidableEq, Repr

/-- `NC_EV_*` -/
inductive EvType
  | none | connected | disconnected | data | redirect
  deriving DecidableEq, Repr

/-- `NC_ERR_*` -/
inductive Err
  | err | nomem | again | closed | toobig | proto
  deriving DecidableEq, Repr

structure Addr where
  len : UInt8
  a : List UInt8
  deriving DecidableEq, Repr

def Addr.unset : Addr := ⟨0, List.replicate 12 0⟩

/-- The core pushes no redirect, so an event is its type and its channel. -/
structure Event where
  type : EvType
  ch : Option Nat
  deriving DecidableEq, Repr

structure Chan where
  used : Bool
  type : ChanType
  id : UInt8
  rxq : Nat → Bytes
  rxHead : Nat
  rxCount : Nat

structure TxSlot where
  seq : UInt16
  chan : UInt8
  data : Bytes

inductive Mark
  /-- `nc_write` put a message of channel `k` into the window -/
  | wrote (k : Nat) (data : Bytes)
  /-- `nc_write` queued a datagram of the unreliable channel `k` -/
  | loose (k : Nat) (data : Bytes)
  /-- `tx_base` moved on -/
  | acked
  /-- `rx_next` moved on -/
  | took
  /-- `nc_read` returned a message of channel `k` -/
  | read (k : Nat) (data : Bytes)
  deriving DecidableEq, Repr

structure Netchan where
  isServer : Bool
  state : ConnState
  localId : UInt32
  remoteId : UInt32
  peer : Addr
  now : UInt32
  lastRecv : UInt32
  lastSend : UInt32
  sendSyn : Bool
  sendSynack : Bool
  sendAck : Bool
  connectTimer : UInt32
  connectAttempts : UInt16
  txw : Nat → TxSlot
  /-- oldest unacked seq -/
  txBase : UInt16
  /-- next seq to assign -/
  txNext : UInt16
  /-- next seq not yet put on the wire -/
  txUnsent : UInt16
  txTimer : UInt32
  txAttempts : UInt16
  rxNext : UInt16
  ackPending : Bool
  txu : Nat → Bytes
  txuChan : Nat → UInt8
  txuHead : Nat
  txuCount : Nat
  chan : Nat → Chan
  evq : Nat → Event
  evHead : Nat
  evCount : Nat
  log : List Mark

def Netchan.mark (c : Netchan) (m : Mark) : Netchan := { c with log := c.log ++ [m] }

def seqAfter (a b : UInt16) : Bool := decide (0 < int16 (a - b))

/-! ## Event queue -/

def evPush (c : Netchan) (type : EvType) (ch : Option Nat) : Netchan :=
  if c.evCount ≥ ncEventq then c
  else
    { c with
      evq := Function.update c.evq ((c.evHead + c.evCount) % ncEventq) ⟨type, ch⟩
      evCount := c.evCount + 1 }

def ncPoll (c : Netchan) : Netchan × Option Event :=
  if c.evCount = 0 then (c, none)
  else
    ({ c with evHead := (c.evHead + 1) % ncEventq, evCount := c.evCount - 1 },
      some (c.evq c.evHead))

/-! ## Connection lifecycle -/

/-- The two arguments are what `rand` returns. -/
def genId (r r' : UInt32) : UInt32 :=
  let id := r ^^^ (r' <<< 16)
  if id = 0 then 1 else id

/-- A record that `memset` or `calloc` cleared. -/
def Chan.zero : Chan where
  used := false
  type := .reliable
  id := 0
  rxq := fun _ => []
  rxHead := 0
  rxCount := 0

def ncOpen (isServer : Bool) (r r' : UInt32) : Netchan where
  isServer := isServer
  state := .closed
  localId := genId r r'
  remoteId := 0
  peer := Addr.unset
  now := 0
  lastRecv := 0
  lastSend := 0
  sendSyn := false
  sendSynack := false
  sendAck := false
  connectTimer := 0
  connectAttempts := 0
  txw := fun _ => ⟨0, 0, []⟩
  txBase := 0
  txNext := 0
  txUnsent := 0
  txTimer := 0
  txAttempts := 0
  rxNext := 0
  ackPending := false
  txu := fun _ => []
  txuChan := fun _ => 0
  txuHead := 0
  txuCount := 0
  chan := fun _ => Chan.zero
  evq := fun _ => ⟨.none, none⟩
  evHead := 0
  evCount := 0
  log := []

def ncConnect (c : Netchan) (addr : Option Addr) : Netchan × Except Err Unit :=
  match addr with
  | none => (c, .error .err)
  | some addr =>
    ({ c with
        peer := addr
        state := .connecting
        sendSyn := true
        connectTimer := c.now + connectRetryMs
        connectAttempts := 0 },
      .ok ())

/-! ## Channels -/

def ncChanOpen (c : Netchan) (type : ChanType) : Netchan × Option Nat :=
  match (List.range ncMaxChan).find? fun i => !(c.chan i).used with
  | none => (c, none)
  | some i =>
    ({ c with
        chan := Function.update c.chan i
          { Chan.zero with used := true, type := type, id := UInt8.ofNat i } },
      some i)

def ncChanClose (c : Netchan) (k : Nat) : Netchan :=
  { c with chan := Function.update c.chan k { c.chan k with used := false } }

def rxqPush (ch : Chan) (data : Bytes) : Chan :=
  if ch.rxCount ≥ ncRecvq then ch
  else
    { ch with
      rxq := Function.update ch.rxq ((ch.rxHead + ch.rxCount) % ncRecvq) (data.take ncMaxmsg)
      rxCount := ch.rxCount + 1 }

def rxqFull (ch : Chan) : Bool := decide (ch.rxCount ≥ ncRecvq)

/-- The empty list is the return value 0, for no message and for an empty one. -/
def ncRead (c : Netchan) (k : Nat) (buflen : Nat) : Netchan × Except Err Bytes :=
  let ch := c.chan k
  if ch.rxCount = 0 then (c, .ok [])
  else
    let m := ch.rxq ch.rxHead
    if m.length > buflen then (c, .error .toobig)
    else
      let ch := { ch with rxHead := (ch.rxHead + 1) % ncRecvq, rxCount := ch.rxCount - 1 }
      ({ c with chan := Function.update c.chan k ch }.mark (.read k m), .ok m)

/-- The reliable half of `nc_write`. -/
def writeRel (c : Netchan) (k : Nat) (data : Bytes) : Netchan × Except Err Nat :=
  if (c.txNext - c.txBase).toNat ≥ ncWindow then (c, .error .again)
  else
    ({ c with
        txw := Function.update c.txw (c.txNext.toNat % ncWindow) ⟨c.txNext, (c.chan k).id, data⟩
        txNext := c.txNext + 1 }.mark (.wrote k data),
      .ok data.length)

/-- A full ring loses its oldest datagram. -/
def txuRoom (c : Netchan) : Netchan :=
  if c.txuCount ≥ ncUnrelTxq then
    { c with txuHead := (c.txuHead + 1) % ncUnrelTxq, txuCount := c.txuCount - 1 }
  else c

def writeUnrel (c : Netchan) (k : Nat) (data : Bytes) : Netchan × Except Err Nat :=
  let c := txuRoom c
  let i := (c.txuHead + c.txuCount) % ncUnrelTxq
  ({ c with
      txu := Function.update c.txu i data
      txuChan := Function.update c.txuChan i (c.chan k).id
      txuCount := c.txuCount + 1 }.mark (.loose k data),
    .ok data.length)

def ncWrite (c : Netchan) (k : Nat) (data : Bytes) : Netchan × Except Err Nat :=
  if (c.chan k).used = false then (c, .error .err)
  else if c.state ≠ .connected then (c, .error .closed)
  else if data.length > ncMaxmsg then (c, .error .toobig)
  else
    match (c.chan k).type with
    | .reliable => writeRel c k data
    | .unreliable => writeUnrel c k data

/-! ## Receive path -/

def chanById (c : Netchan) (id : UInt8) : Option Nat :=
  if id.toNat < ncMaxChan ∧ (c.chan id.toNat).used = true then some id.toNat else none

/-- The loop of `process_ack`.  It ends at `tx_next`, so the distance bounds its turns. -/
def ackLoop (ack : UInt16) : Nat → Netchan → Netchan
  | 0, c => c
  | n + 1, c =>
    if c.txBase ≠ c.txNext ∧ seqAfter ack c.txBase = true then
      ackLoop ack n ({ c with txBase := c.txBase + 1 }.mark .acked)
    else c

def ackUnsent (c : Netchan) : Netchan :=
  if seqAfter c.txBase c.txUnsent then { c with txUnsent := c.txBase } else c

def processAck (c : Netchan) (ack : UInt16) : Netchan :=
  let c' := ackUnsent (ackLoop ack (c.txNext - c.txBase).toNat c)
  if c'.txBase ≠ c.txBase then
    { c' with
      txAttempts := 0
      txTimer := if c'.txBase = c'.txNext then 0 else c'.now + rtMs }
  else c'

/-- A datagram goes into the ring of channel `k`. -/
def pushData (c : Netchan) (k : Nat) (data : Bytes) : Netchan :=
  evPush { c with chan := Function.update c.chan k (rxqPush (c.chan k) data) } .data (some k)

/-- A record with the sequence number that is due. -/
def deliverDue (c : Netchan) (chan : UInt8) (data : Bytes) : Netchan :=
  match chanById c chan with
  | none => { c with rxNext := c.rxNext + 1 }.mark .took
  | some k =>
    if rxqFull (c.chan k) then c
    else { pushData c k data with rxNext := c.rxNext + 1 }.mark .took

def deliver (c : Netchan) (chan mt : UInt8) (seq : UInt16) (data : Bytes) : Netchan :=
  if mt = mtRel then
    let c := if seq = c.rxNext then deliverDue c chan data else c
    { c with ackPending := true }
  else
    match chanById c chan with
    | none => c
    | some k => pushData c k data

/-- The loop over the records of a DATA packet; a record is at least six bytes. -/
def recordLoop : Nat → Netchan → Bytes → Netchan
  | 0, c, _ => c
  | n + 1, c, q =>
    if q.length < ncRec then c
    else
      let dlen := (rd16 (q.drop 4)).toNat
      let body := q.drop ncRec
      if body.length < dlen then c
      else
        recordLoop n (deliver c (q.getD 0 0) (q.getD 1 0) (rd16 (q.drop 2)) (body.take dlen))
          (body.drop dlen)

def up (c : Netchan) : Netchan := evPush { c with state := .connected } .connected none

/-- The peer is up unless it already was, or the connection is over. -/
def upIfConnecting (c : Netchan) : Netchan := if c.state = .connecting then up c else c

/-- The peer's own address; a SYN may have gone to a broadcast. -/
def lockPeer (c : Netchan) (pkt : Bytes) (source : Option Addr) : Netchan :=
  { c with peer := source.getD c.peer, remoteId := rd32 (pkt.drop ncHdr) }

/-- A closed server takes the sender of a SYN for its peer. -/
def acceptSyn (c : Netchan) (pkt : Bytes) (source : Option Addr) : Netchan :=
  if c.state = .closed then
    { lockPeer c pkt source with
      state := .connecting
      connectTimer := c.now + connectRetryMs
      connectAttempts := 0 }
  else c

/-- The accept is sent, and sent again until the peer is up. -/
def askSynack (c : Netchan) : Netchan :=
  if c.state = .connecting then { c with sendSynack := true } else c

def feedSyn (c : Netchan) (pkt : Bytes) (source : Option Addr) : Netchan × Except Err Unit :=
  if c.isServer = false then (c, .error .proto)
  else if pkt.length < ncHdr + 4 then (c, .error .proto)
  else (askSynack (acceptSyn c pkt source), .ok ())

def feedSynack (c : Netchan) (pkt : Bytes) (source : Option Addr) : Netchan × Except Err Unit :=
  if c.isServer = true ∨ rd32 pkt ≠ c.localId then (c, .error .proto)
  else if pkt.length < ncHdr + 4 then (c, .error .proto)
  else
    ({ upIfConnecting (lockPeer c pkt source) with sendAck := true }, .ok ())

def feedAck (c : Netchan) (pkt : Bytes) : Netchan × Except Err Unit :=
  if c.isServer = false ∨ rd32 pkt ≠ c.localId then (c, .error .proto)
  else (upIfConnecting c, .ok ())

def feedData (c : Netchan) (pkt : Bytes) : Netchan × Except Err Unit :=
  if rd32 pkt ≠ c.localId then (c, .error .proto)
  else
    -- the handshake ACK was lost; data implies that the peer is up
    let c := if c.isServer = true ∧ c.state = .connecting then up c else c
    if c.state ≠ .connected then (c, .ok ())
    else
      (recordLoop pkt.length (processAck c (rd16 (pkt.drop 6))) (pkt.drop ncHdr), .ok ())

def feedFin (c : Netchan) (pkt : Bytes) : Netchan × Except Err Unit :=
  if rd32 pkt ≠ c.localId then (c, .error .proto)
  else
    (if c.state ≠ .closed then evPush { c with state := .closed } .disconnected none else c,
      .ok ())

def ncFeed (c : Netchan) (pkt : Bytes) (source : Option Addr) : Netchan × Except Err Unit :=
  if pkt.length < ncHdr then (c, .error .proto)
  else
    let type := pkt.getD 4 0
    let c := { c with lastRecv := c.now }
    if type = pktSyn then feedSyn c pkt source
    else if type = pktSynack then feedSynack c pkt source
    else if type = pktAck then feedAck c pkt
    else if type = pktData then feedData c pkt
    else if type = pktFin then feedFin c pkt
    else (c, .error .proto)

@[elab_as_elim]
theorem ncFeed_elim {P : Netchan × Except Err Unit → Prop} (c : Netchan) (pkt : Bytes)
    (source : Option Addr) (short : P (c, .error .proto))
    (syn : P (feedSyn { c with lastRecv := c.now } pkt source))
    (synack : P (feedSynack { c with lastRecv := c.now } pkt source))
    (ack : P (feedAck { c with lastRecv := c.now } pkt))
    (data : pkt.getD 4 0 = pktData → P (feedData { c with lastRecv := c.now } pkt))
    (fin : P (feedFin { c with lastRecv := c.now } pkt))
    (other : P ({ c with lastRecv := c.now }, .error .proto)) : P (ncFeed c pkt source) := by
  unfold ncFeed
  by_cases hshort : pkt.length < ncHdr
  · rw [if_pos hshort]
    exact short
  rw [if_neg hshort]
  dsimp only
  generalize pkt.getD 4 0 = type at data
  split_ifs with h1 h2 h3 h4 h5
  · exact syn
  · exact synack
  · exact ack
  · exact data h4
  · exact fin
  · exact other

/-! ## Transmit path -/

def header (remoteId : UInt32) (type : UInt8) (ack : UInt16) : Bytes :=
  wr32 remoteId ++ [type, 0] ++ wr16 ack

def record (chan mt : UInt8) (seq : UInt16) (data : Bytes) : Bytes :=
  [chan, mt] ++ wr16 seq ++ wr16 (UInt16.ofNat data.length) ++ data

/-- The reliable records; `w` is what stands behind the header. -/
def sendRelLoop (cap : Nat) : Nat → Netchan → Bytes → Netchan × Bytes
  | 0, c, w => (c, w)
  | n + 1, c, w =>
    if c.txUnsent = c.txNext then (c, w)
    else
      let s := c.txw (c.txUnsent.toNat % ncWindow)
      if ncHdr + w.length + (ncRec + s.data.length) > cap then (c, w)
      else
        sendRelLoop cap n { c with txUnsent := c.txUnsent + 1 }
          (w ++ record s.chan mtRel s.seq s.data)

def sendUnrelLoop (cap : Nat) : Nat → Netchan → Bytes → Netchan × Bytes
  | 0, c, w => (c, w)
  | n + 1, c, w =>
    if c.txuCount = 0 then (c, w)
    else
      let m := c.txu c.txuHead
      if ncHdr + w.length + (ncRec + m.length) > cap then (c, w)
      else
        sendUnrelLoop cap n
          { c with txuHead := (c.txuHead + 1) % ncUnrelTxq, txuCount := c.txuCount - 1 }
          (w ++ record (c.txuChan c.txuHead) mtUnrel 0 m)

def armTimer (c : Netchan) : Netchan :=
  if c.txBase ≠ c.txNext ∧ c.txTimer = 0 then { c with txTimer := c.now + rtMs } else c

/-- A DATA packet; each loop turns at most once for each message it can send. -/
def sendData (c : Netchan) (cap : Nat) : Netchan × Bytes :=
  let (c, w) := sendRelLoop cap (c.txNext - c.txUnsent).toNat c []
  let c := armTimer c
  let (c, w) := sendUnrelLoop cap c.txuCount c w
  ({ c with ackPending := false, lastSend := c.now }, header c.remoteId pktData c.rxNext ++ w)

/-- `none` is the return value 0. -/
def ncSendNext (c : Netchan) (buflen : Nat) : Netchan × Option (Bytes × Addr) :=
  if buflen < ncHdr then (c, none)
  else if c.sendSynack then
    ({ c with sendSynack := false, lastSend := c.now },
      some (header c.remoteId pktSynack 0 ++ wr32 c.localId, c.peer))
  else if c.sendAck then
    ({ c with sendAck := false, lastSend := c.now }, some (header c.remoteId pktAck 0, c.peer))
  else if c.sendSyn then
    ({ c with sendSyn := false, lastSend := c.now },
      some (header 0 pktSyn 0 ++ wr32 c.localId, c.peer))
  else if c.state ≠ .connected then (c, none)
  else if c.txUnsent = c.txNext ∧ c.txuCount = 0 ∧ c.ackPending = false then (c, none)
  else
    let (c', pkt) := sendData c (min buflen ncMtu)
    (c', some (pkt, c.peer))

@[elab_as_elim]
theorem ncSendNext_elim {P : Netchan × Option (Bytes × Addr) → Prop} (c : Netchan) (buflen : Nat)
    (none : P (c, none))
    (synack : P ({ c with sendSynack := false, lastSend := c.now },
      some (header c.remoteId pktSynack 0 ++ wr32 c.localId, c.peer)))
    (ack : P ({ c with sendAck := false, lastSend := c.now },
      some (header c.remoteId pktAck 0, c.peer)))
    (syn : P ({ c with sendSyn := false, lastSend := c.now },
      some (header 0 pktSyn 0 ++ wr32 c.localId, c.peer)))
    (data : c.sendSynack = false → c.sendAck = false → c.sendSyn = false → c.state = .connected →
      P ((sendData c (min buflen ncMtu)).1, some ((sendData c (min buflen ncMtu)).2, c.peer))) :
    P (ncSendNext c buflen) := by
  unfold ncSendNext
  split_ifs with hshort hsynack hack hsyn hstate hidle
  · exact none
  · exact synack
  · exact ack
  · exact syn
  · exact none
  · exact none
  · exact data (by simpa using hsynack) (by simpa using hack) (by simpa using hsyn)
      (not_not.mp hstate)

/-! ## Timers -/

def down (c : Netchan) : Netchan := evPush { c with state := .closed } .disconnected none

def serviceConnecting (c : Netchan) (nowMs : UInt32) : Netchan × Int :=
  if nowMs ≥ c.connectTimer then
    let c := { c with connectAttempts := c.connectAttempts + 1 }
    if c.connectAttempts > connectRetries then (down c, -1)
    else
      let c := if c.isServer then { c with sendSynack := true } else { c with sendSyn := true }
      ({ c with connectTimer := nowMs + connectRetryMs }, 250)
  else (c, 250)

def backoff (attempts : UInt16) : UInt32 :=
  let b := rtMs <<< (if attempts < 4 then attempts.toUInt32 else 3)
  if b > rtMaxMs then rtMaxMs else b

def keepalive (c : Netchan) (nowMs : UInt32) : Netchan × Int :=
  (if nowMs - c.lastSend > keepaliveMs then { c with ackPending := true } else c, 120)

def serviceConnected (c : Netchan) (nowMs : UInt32) : Netchan × Int :=
  if nowMs - c.lastRecv > idleMs then (down c, -1)
  else if c.txBase ≠ c.txNext ∧ c.txTimer ≠ 0 ∧ nowMs ≥ c.txTimer then
    let c := { c with txAttempts := c.txAttempts + 1 }
    if c.txAttempts > rtAttempts then (down c, -1)
    else
      keepalive { c with
        txUnsent := c.txBase
        txTimer := nowMs + backoff c.txAttempts } nowMs
  else keepalive c nowMs

def ncService (c : Netchan) (nowMs : UInt32) : Netchan × Int :=
  let c := { c with now := nowMs }
  match c.state with
  | .connecting => serviceConnecting c nowMs
  | .connected => serviceConnected c nowMs
  | _ => (c, -1)

/-! ## Calls -/

inductive Act
  | connect (addr : Option Addr)
  | chanOpen (type : ChanType)
  | chanClose (k : Nat)
  | write (k : Nat) (data : Bytes)
  | read (k : Nat) (buflen : Nat)
  | poll
  | feed (pkt : Bytes) (source : Option Addr)
  | sendNext (buflen : Nat)
  | service (nowMs : UInt32)

def Netchan.step (c : Netchan) : Act → Netchan
  | .connect addr => (ncConnect c addr).1
  | .chanOpen type => (ncChanOpen c type).1
  | .chanClose k => ncChanClose c k
  | .write k data => (ncWrite c k data).1
  | .read k buflen => (ncRead c k buflen).1
  | .poll => (ncPoll c).1
  | .feed pkt source => (ncFeed c pkt source).1
  | .sendNext buflen => (ncSendNext c buflen).1
  | .service nowMs => (ncService c nowMs).1

end MechanicalResearcher.NetchanIpx
