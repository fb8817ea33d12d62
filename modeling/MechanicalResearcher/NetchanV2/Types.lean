import MechanicalResearcher.Lib.Serial
import MechanicalResearcher.Lib.BigEndian

/-!
# The connection object

The records of `netchan-v2/demo/netchan.c`, field for field.  A fixed array is
a function from its index, `NC_NOBUF` is `none`, a channel pointer is the index
of its record in `chan_pool`, and `ctrl_buf[0 .. ctrl_len)` is a list.

`pool_store` is one flat memory: buffer `b` is the range
`[b * NC_MAX_MSG, (b + 1) * NC_MAX_MSG)` and the addresses from
`NC_POOL_BUFS * NC_MAX_MSG` on are whatever lies behind the array.  The fields
declared behind it keep their own types here, so a write past the array does
not reach them in the model; that such a write happens is what the log says.

Two history variables, `log` and `evLog`, record what a run did.  No function
reads them.
-/

namespace MechanicalResearcher.NetchanV2

open Lib.Serial Lib.BigEndian

def ncVersion : UInt8 := 0x01
def ncPktFlagInit : UInt8 := 0x01
def ncPktFlagPktnum : UInt8 := 0x02
def ncHdrInitSize : Nat := 5
def ncHdrFullSize : Nat := 7

def ncFramePadding : UInt8 := 0x00
def ncFrameConnectInit : UInt8 := 0x01
def ncFrameConnectAccept : UInt8 := 0x02
def ncFrameConnectRedirect : UInt8 := 0x03
def ncFrameDisconnect : UInt8 := 0x04
def ncFramePing : UInt8 := 0x05
def ncFramePong : UInt8 := 0x06
def ncFrameChannelOpen : UInt8 := 0x07
def ncFrameChannelClose : UInt8 := 0x08
def ncFrameData : UInt8 := 0x09
def ncFrameAck : UInt8 := 0x0A
def ncFrameWindowUpdate : UInt8 := 0x0B

abbrev ncMaxChannels : Nat := 256
abbrev ncEventQueue : Nat := 16
abbrev ncCtrlBufSize : Nat := 1024
abbrev ncOutgoingSlots : Nat := 64
abbrev ncRecvQueue : Nat := 64
abbrev ncReorderSlots : Nat := 64
abbrev ncFragSlots : Nat := 4
abbrev ncMaxFrags : Nat := 32
abbrev ncMaxChan : Nat := 16
def ncMaxMsg : Nat := 2048
def ncPoolBufs : Nat := 64
abbrev ncAddrMax : Nat := 20

def ncMaxRtMs : UInt32 := 1000
def ncMaxRtAttempts : Nat := 5
def ncConnectRetryMs : UInt32 := 500
def ncConnectRetries : Nat := 5
def ncPingIntervalMs : UInt32 := 5000

/-- Channel types, as the numbers the wire carries. -/
abbrev netchanReliable : Nat := 0
abbrev netchanUnreliable : Nat := 1

/-- Channel directions, as the numbers the wire carries. -/
abbrev netchanDirSend : Nat := 0

/-- `NETCHAN_STATE_*` -/
inductive ConnState
  | new | connecting | connected | closing | closed
  deriving DecidableEq, Repr

/-- `NETCHAN_EV_*` -/
inductive EvType
  | none | connected | disconnected | redirect | chanOpen | chanClose | data
  deriving DecidableEq, Repr

/-- `NETCHAN_ERR_*` -/
inductive Err
  | err | nomem | again | closed | flow | proto | toobig
  deriving DecidableEq, Repr

/-- `role`: 0 is the sender, 1 the receiver. -/
inductive Role
  | sender | receiver
  deriving DecidableEq, Repr

/-- The `state` of a channel: 0 opening, 1 open, 2 closing, 3 closed or dead. -/
inductive ChanState
  | opening | opened | closing | closed
  deriving DecidableEq, Repr

structure Addr where
  len : UInt8
  a : List UInt8
  deriving DecidableEq, Repr

def Addr.unset : Addr := ⟨0, List.replicate ncAddrMax 0⟩

structure Cfg where
  mtu : UInt32
  chanWindow : UInt32
  idleTimeoutMs : UInt32
  retransmitMs : UInt32
  deriving DecidableEq, Repr

structure Event where
  type : EvType
  ch : Option Nat
  redirectAddr : Addr
  redirectConnId : UInt32
  deriving DecidableEq, Repr

def Event.zero : Event := ⟨.none, none, Addr.unset, 0⟩

structure Outgoing where
  seq : UInt16
  buf : Option Nat
  len : Nat
  sentMs : UInt32
  attempts : Nat
  fragSent : Nat
  fragTotal : Nat
  active : Bool

structure RecvEntry where
  buf : Option Nat
  len : Nat

structure Reorder where
  seq : UInt16
  buf : Option Nat
  len : Nat
  valid : Bool

/-- `have` is a Lean keyword, so the count of stored fragments is `haveN`. -/
structure FragAsm where
  seq : UInt16
  total : Nat
  haveN : Nat
  bitmask : Nat
  buf : Option Nat
  offsets : Nat → Nat
  active : Bool

structure Chan where
  id : UInt8
  type : Nat
  dir : Nat
  role : Role
  state : ChanState
  contentType : List UInt8
  sendSeq : UInt16
  sendWindow : UInt32
  bytesInFlight : UInt32
  outgoing : Nat → Outgoing
  outHead : Nat
  outTail : Nat
  recvSeq : UInt16
  recvWindow : UInt32
  recvBuffered : UInt32
  recvQueue : Nat → RecvEntry
  rqHead : Nat
  rqTail : Nat
  reorder : Nat → Reorder
  frags : Nat → FragAsm
  needAck : Bool
  ackSeq : UInt16
  needWindowUpdate : Bool
  msgsSent : UInt32
  msgsAcked : UInt32
  retransmissions : UInt32
  msgsRecv : UInt32

/-- What a run did to the channel record `k`. -/
inductive Mark
  /-- `netchan_chan_write` accepted `msg` -/
  | write (k : Nat) (msg : List UInt8)
  /-- `netchan_chan_read` returned `msg` -/
  | read (k : Nat) (msg : List UInt8)
  /-- `chan_recv_enqueue` was called with `data` and put it in `recv_queue`, or not -/
  | enqueue (k : Nat) (data : List UInt8) (ok : Bool)
  /-- `recv_seq` was incremented -/
  | advance (k : Nat)
  /-- an ACK frame with number `seq` was put in a packet -/
  | ack (k : Nat) (seq : UInt16)
  /-- `process_data` wrote `[addr, addr + len)` for a fragment slot that owns `buf` -/
  | fragWrite (k : Nat) (buf : Option Nat) (addr len : Nat)
  deriving DecidableEq, Repr

/-- The channel table, the channel pool and the message-buffer pool. -/
structure Core where
  cfg : Cfg
  channels : UInt8 → Option Nat
  chanPool : Nat → Chan
  chanUsed : Nat → Bool
  poolFree : Nat → Nat
  poolFreeTop : Nat
  poolStore : Nat → UInt8
  log : List Mark

structure Conn extends Core where
  localId : UInt32
  remoteId : UInt32
  server : Bool
  state : ConnState
  peerAddr : Addr
  nextPktNum : UInt16
  lastRecvMs : UInt32
  lastSendMs : UInt32
  connectSentMs : UInt32
  connectAttempts : Nat
  pingSentMs : UInt32
  pingOpaque : UInt32
  rttMs : UInt32
  rttMinMs : UInt32
  pktsSent : UInt32
  pktsRecv : UInt32
  nextChanId : UInt8
  events : Nat → Event
  evHead : Nat
  evTail : Nat
  ctrlBuf : List UInt8
  evLog : List EvType

/-- What one API call sees of its surroundings: the readings of `nc_now_ms`,
one for each place of the call that takes one, and a random word. -/
structure Env where
  nowMs : Nat → UInt32
  random : UInt32

/-- `nc_random_id` never returns 0. -/
def ncRandomId (env : Env) : UInt32 :=
  if env.random = 0 then 1 else env.random

/-- Run a function of the tables inside the connection. -/
def Conn.lift (c : Conn) (f : Core → Core) : Conn :=
  { c with toCore := f c.toCore }

@[simp] theorem Conn.lift_toCore (c : Conn) (f : Core → Core) :
    (c.lift f).toCore = f c.toCore := rfl

/-- Change the record a channel pointer points to. -/
def Core.modChan (s : Core) (k : Nat) (f : Chan → Chan) : Core :=
  { s with chanPool := Function.update s.chanPool k (f (s.chanPool k)) }

def Core.mark (s : Core) (m : Mark) : Core :=
  { s with log := s.log ++ [m] }

end MechanicalResearcher.NetchanV2
