import MechanicalResearcher.NetchanV2.Buffers

/-!
# Frame processing and packet parsing

The `process_*` handlers, `parse_frames`, `validate_migration` and
`netchan_feed`.  A handler gets the bytes of the packet from its frame on and
returns how many it consumed; every handler checks before it changes anything,
so a refused frame leaves the connection as the frames before it left it.
-/

namespace MechanicalResearcher.NetchanV2

open Lib.Serial Lib.BigEndian

def acceptConnectInit (env : Env) (c : Conn) (clientId : UInt32) : Conn :=
  let c := { c with remoteId := clientId }
  if c.state = .new then { c with localId := ncRandomId env, state := .connecting } else c

def processConnectInit (env : Env) (c : Conn) (p : List UInt8) : Except Err (Conn × Nat) :=
  if p.length < 6 then .error .proto
  else if !c.server then .error .proto
  else if p.getD 5 0 ≠ ncVersion then .error .proto
  else .ok (acceptConnectInit env c (rd32 (p.drop 1)), 6)

def acceptConnectAccept (c : Conn) (serverId : UInt32) : Conn :=
  evPush { c with remoteId := serverId, state := .connected } .connected none

/-- The version and the idle timeout of the frame are read and ignored. -/
def processConnectAccept (c : Conn) (p : List UInt8) : Except Err (Conn × Nat) :=
  if p.length < 10 then .error .proto
  else if c.server then .error .proto
  else .ok (acceptConnectAccept c (rd32 (p.drop 1)), 10)

/-- The wire form of an address is its packing in `a[]`, zero-filled. -/
def redirectAddr (p : List UInt8) (len : Nat) : Addr :=
  ⟨UInt8.ofNat len, (p.drop 5).take len ++ List.replicate (ncAddrMax - len) 0⟩

def processConnectRedirect (c : Conn) (p : List UInt8) : Except Err (Conn × Nat) :=
  if p.length < 12 then .error .proto
  else if p.getD 5 0 = 4 then
    .ok (evPushRedirect c (redirectAddr p 7) (rd32 (p.drop 1)), 12)
  else if p.getD 5 0 = 6 then
    if p.length < 24 then .error .proto
    else .ok (evPushRedirect c (redirectAddr p 19) (rd32 (p.drop 1)), 24)
  else .error .proto

def processDisconnect (c : Conn) (p : List UInt8) : Except Err (Conn × Nat) :=
  if p.length < 3 then .error .proto
  else .ok (evPush { c with state := .closed } .disconnected none, 3)

def processPing (c : Conn) (p : List UInt8) : Except Err (Conn × Nat) :=
  if p.length < 5 then .error .proto
  else .ok (ctrlPong c (rd32 (p.drop 1)), 5)

def acceptPong (c : Conn) (opaqueId now : UInt32) : Conn :=
  if opaqueId = c.pingOpaque ∧ c.pingSentMs ≠ 0 then
    let rtt := now - c.pingSentMs
    { c with
      rttMs := rtt
      rttMinMs := if c.rttMinMs = 0 ∨ rtt < c.rttMinMs then rtt else c.rttMinMs
      pingSentMs := 0 }
  else c

def processPong (env : Env) (c : Conn) (p : List UInt8) : Except Err (Conn × Nat) :=
  if p.length < 5 then .error .proto
  else .ok (acceptPong c (rd32 (p.drop 1)) (env.nowMs p.length), 5)

def acceptChannelOpen (c : Conn) (chanId : UInt8) (type dir : Nat) (ct : List UInt8) : Conn :=
  if (c.channels chanId).isSome then ctrlChannelClose c chanId 1
  else
    -- the remote's direction is flipped for us: they send, we receive
    let role : Role := if dir = netchanDirSend then .receiver else .sender
    match chanNew c.toCore chanId type dir role (some (ct.take 63)) with
    | (_, none) => ctrlChannelClose c chanId 1
    | (s, some k) =>
      let c := { c with toCore := s.modChan k fun ch => { ch with state := .opened } }
      let c :=
        if role = .receiver then ctrlWindowUpdate c chanId (c.chanPool k).recvWindow else c
      evPush c .chanOpen (some k)

def processChannelOpen (c : Conn) (p : List UInt8) : Except Err (Conn × Nat) :=
  if p.length < 5 then .error .proto
  else
    let ctLen := (p.getD 4 0).toNat
    if p.length < 5 + ctLen then .error .proto
    else
      .ok (acceptChannelOpen c (p.getD 1 0) (p.getD 2 0).toNat (p.getD 3 0).toNat
        ((p.drop 5).take ctLen), 5 + ctLen)

def acceptChannelClose (c : Conn) (chanId : UInt8) : Conn :=
  match c.channels chanId with
  | none => c
  | some k =>
    evPush (c.lift fun s => s.modChan k fun ch => { ch with state := .closed })
      .chanClose (some k)

def processChannelClose (c : Conn) (p : List UInt8) : Except Err (Conn × Nat) :=
  if p.length < 4 then .error .proto
  else .ok (acceptChannelClose c (p.getD 1 0), 4)

/-- Keep a message that came early in its reorder slot, if a buffer is left. -/
def reorderStore (s : Core) (k : Nat) (seq : UInt16) (data : List UInt8) : Core :=
  match poolGet s with
  | (s, none) => s
  | (s, some b) =>
    (s.memcpy (poolPtr (some b)) data).modChan k fun ch =>
      { ch with
        reorder := Function.update ch.reorder (seq.toNat % ncReorderSlots)
          ⟨seq, some b, data.length, true⟩ }

/-- What `process_data` does with a whole message of a reliable channel. -/
def deliverReliable (c : Conn) (k : Nat) (seq : UInt16) (data : List UInt8) : Conn :=
  let ch := c.chanPool k
  if seq = ch.recvSeq then
    let c := c.lift fun s => (chanRecvEnqueue s k data).1
    let c := evPush c .data (some k)
    let c := c.lift fun s => bumpRecvSeq s k
    chanDeliverReordered c k
  else
    let diff := int16 (seq - ch.recvSeq)
    if 0 < diff ∧ diff < ncReorderSlots ∧
        (ch.reorder (seq.toNat % ncReorderSlots)).valid = false ∧ data.length ≤ ncMaxMsg then
      c.lift fun s => reorderStore s k seq data
    else c

def setNeedAck (s : Core) (k : Nat) : Core :=
  s.modChan k fun ch =>
    { ch with
      needAck := true
      ackSeq := if 0 < ch.recvSeq then ch.recvSeq - 1 else 0 }

def acceptDataUnreliable (c : Conn) (k : Nat) (seq : UInt16) (fragIdx fragTotal : Nat)
    (payload : List UInt8) : Conn :=
  if fragTotal ≤ 1 then
    evPush (c.lift fun s => (chanRecvEnqueue s k payload).1) .data (some k)
  else
    match fragReceive c.toCore k seq fragIdx fragTotal payload with
    | (s, none) => { c with toCore := s }
    | (s, some (i, pos)) =>
      let data := s.bytes (poolPtr ((s.chanPool k).frags i).buf) pos
      let c := { c with toCore := (chanRecvEnqueue s k data).1 }
      (evPush c .data (some k)).lift fun s => fragFree s k i

def acceptDataReliable (c : Conn) (k : Nat) (seq : UInt16) (fragIdx fragTotal : Nat)
    (payload : List UInt8) : Conn :=
  let c :=
    if fragTotal ≤ 1 then deliverReliable c k seq payload
    else
      match fragReceive c.toCore k seq fragIdx fragTotal payload with
      | (s, none) => { c with toCore := s }
      | (s, some (i, pos)) =>
        let data := s.bytes (poolPtr ((s.chanPool k).frags i).buf) pos
        (deliverReliable { c with toCore := s } k seq data).lift fun s => fragFree s k i
  c.lift fun s => setNeedAck s k

def acceptData (c : Conn) (chanId : UInt8) (seq : UInt16) (fragIdx fragTotal : Nat)
    (payload : List UInt8) : Conn :=
  match c.channels chanId with
  | none => c
  | some k =>
    if (c.chanPool k).role ≠ .receiver then c
    else if (c.chanPool k).type = netchanUnreliable then
      acceptDataUnreliable c k seq fragIdx fragTotal payload
    else acceptDataReliable c k seq fragIdx fragTotal payload

def processData (c : Conn) (p : List UInt8) : Except Err (Conn × Nat) :=
  if p.length < 8 then .error .proto
  else
    let dataLen := (rd16 (p.drop 4)).toNat
    if p.length < 8 + dataLen then .error .proto
    else
      .ok (acceptData c (p.getD 1 0) (rd16 (p.drop 2)) (p.getD 6 0).toNat (p.getD 7 0).toNat
        ((p.drop 8).take dataLen), 8 + dataLen)

/-- The loop body of `process_ack` for outgoing slot `i`. -/
def ackSlot (k : Nat) (ackedSeq : UInt16) (s : Core) (i : Nat) : Core :=
  let o := (s.chanPool k).outgoing i
  if o.active = true ∧ int16 (o.seq - ackedSeq) ≤ 0 then
    (poolPut s o.buf).modChan k fun ch =>
      { ch with
        bytesInFlight := ch.bytesInFlight - UInt32.ofNat o.len
        msgsAcked := ch.msgsAcked + 1
        outgoing := Function.update ch.outgoing i { o with buf := none, active := false } }
  else s

/-- `while (out_head != out_tail && !outgoing[out_head].active)` -/
def advanceHeadLoop : Nat → Chan → Chan
  | 0, ch => ch
  | fuel + 1, ch =>
    if ch.outHead ≠ ch.outTail ∧ (ch.outgoing ch.outHead).active = false then
      advanceHeadLoop fuel { ch with outHead := (ch.outHead + 1) % ncOutgoingSlots }
    else ch

def advanceHead (s : Core) (k : Nat) : Core :=
  s.modChan k (advanceHeadLoop ncOutgoingSlots)

def acceptAck (c : Conn) (chanId : UInt8) (ackedSeq : UInt16) : Conn :=
  match c.channels chanId with
  | none => c
  | some k =>
    if (c.chanPool k).role ≠ .sender then c
    else
      c.lift fun s =>
        advanceHead ((List.range ncOutgoingSlots).foldl (ackSlot k ackedSeq) s) k

def processAck (c : Conn) (p : List UInt8) : Except Err (Conn × Nat) :=
  if p.length < 4 then .error .proto
  else .ok (acceptAck c (p.getD 1 0) (rd16 (p.drop 2)), 4)

/-- The first window update accepts an opening channel. -/
def acceptWindowUpdate (c : Conn) (chanId : UInt8) (window : UInt32) : Conn :=
  match c.channels chanId with
  | none => c
  | some k =>
    if (c.chanPool k).role = .sender then
      c.lift fun s => s.modChan k fun ch =>
        { ch with
          sendWindow := window
          state := if ch.state = .opening then .opened else ch.state }
    else c

def processWindowUpdate (c : Conn) (p : List UInt8) : Except Err (Conn × Nat) :=
  if p.length < 6 then .error .proto
  else .ok (acceptWindowUpdate c (p.getD 1 0) (rd32 (p.drop 2)), 6)

/-- The `switch` of `parse_frames`, for a frame that is not padding. -/
def processFrame (env : Env) (c : Conn) (p : List UInt8) : Except Err (Conn × Nat) :=
  match (p.headD 0).toNat with
  | 0x01 => processConnectInit env c p
  | 0x02 => processConnectAccept c p
  | 0x03 => processConnectRedirect c p
  | 0x04 => processDisconnect c p
  | 0x05 => processPing c p
  | 0x06 => processPong env c p
  | 0x07 => processChannelOpen c p
  | 0x08 => processChannelClose c p
  | 0x09 => processData c p
  | 0x0A => processAck c p
  | 0x0B => processWindowUpdate c p
  | _ => .error .proto

/-- The loop of `parse_frames` over the bytes that are left. -/
def parseLoop (env : Env) : Nat → Conn → List UInt8 → Conn × Except Err Unit
  | 0, c, _ => (c, .ok ())
  | fuel + 1, c, data =>
    match data with
    | [] => (c, .ok ())
    | b :: rest =>
      if b = ncFramePadding then parseLoop env fuel c rest
      else
        match processFrame env c (b :: rest) with
        | .error e => (c, .error e)
        | .ok (c, consumed) => parseLoop env fuel c ((b :: rest).drop consumed)

/-- Every round consumes a byte, so the length of the packet is enough fuel. -/
def parseFrames (env : Env) (c : Conn) (data : List UInt8) : Conn × Except Err Unit :=
  parseLoop env data.length c data

/-- Only the first frame is looked at: the loop of the source ends with `break`. -/
def validateMigration (c : Conn) (frames : List UInt8) : Bool :=
  let ftype := frames.headD 0
  let known := (c.channels (frames.getD 1 0)).isSome
  (ftype == ncFrameData && decide (4 ≤ frames.length) && known) ||
    (ftype == ncFrameAck && decide (2 ≤ frames.length) && known)

def Addr.same (a b : Addr) : Bool :=
  a.len == b.len && a.a.take a.len.toNat == b.a.take a.len.toNat

/-- Migration, then the address of the first packet of a server. -/
def feedAddr (c : Conn) (frames : List UInt8) (src : Option Addr) : Addr :=
  match src with
  | none => c.peerAddr
  | some a =>
    let peer :=
      if 0 < a.len ∧ 0 < c.peerAddr.len ∧ c.state = .connected ∧
          a.same c.peerAddr = false ∧ validateMigration c frames = true then a
      else c.peerAddr
    if peer.len = 0 ∧ 0 < a.len then a else peer

def netchanFeed (env : Env) (c : Conn) (pkt : List UInt8) (src : Option Addr) :
    Conn × Except Err Unit :=
  if pkt.length < ncHdrInitSize then (c, .error .proto)
  else
    let init := pkt.headD 0 &&& ncPktFlagInit ≠ 0
    let connId := rd32 (pkt.drop 1)
    if ¬init ∧ pkt.length < ncHdrFullSize then (c, .error .proto)
    else if ¬init ∧ connId ≠ c.localId then (c, .error .proto)
    else
      let frames := pkt.drop (if init then ncHdrInitSize else ncHdrFullSize)
      let c := { c with
        peerAddr := feedAddr c frames src
        lastRecvMs := env.nowMs pkt.length
        pktsRecv := c.pktsRecv + 1 }
      parseFrames env c frames

end MechanicalResearcher.NetchanV2
