import MechanicalResearcher.Lib.Memory
import MechanicalResearcher.NetchanV2.Types

/-!
# Pools, queues and slots

The lower half of `netchan.c`: the message-buffer pool, the event queue, the
control-frame queue, the channel helpers and fragment reassembly.
-/

namespace MechanicalResearcher.NetchanV2

open Lib Lib.Serial Lib.BigEndian

def poolGet (s : Core) : Core × Option Nat :=
  if s.poolFreeTop = 0 then (s, none)
  else
    ({ s with poolFreeTop := s.poolFreeTop - 1 }, some (s.poolFree (s.poolFreeTop - 1)))

def poolPut (s : Core) (idx : Option Nat) : Core :=
  match idx with
  | none => s
  | some b =>
    { s with
      poolFree := Function.update s.poolFree s.poolFreeTop b
      poolFreeTop := s.poolFreeTop + 1 }

/-- The address `pool_ptr` computes.  It is never asked for `NC_NOBUF`. -/
def poolPtr (idx : Option Nat) : Nat := idx.getD 0 * ncMaxMsg

def Core.memcpy (s : Core) (dst : Nat) (data : List UInt8) : Core :=
  { s with poolStore := Memory.write s.poolStore dst data }

def Core.memmove (s : Core) (dst src n : Nat) : Core :=
  { s with poolStore := Memory.move s.poolStore dst src n }

/-- The `n` bytes at address `src`. -/
def Core.bytes (s : Core) (src n : Nat) : List UInt8 := Memory.read s.poolStore src n

def evStore (c : Conn) (e : Event) : Conn :=
  let next := (c.evTail + 1) % ncEventQueue
  if next = c.evHead then c
  else
    { c with
      events := Function.update c.events c.evTail e
      evTail := next
      evLog := c.evLog ++ [e.type] }

def evPush (c : Conn) (type : EvType) (ch : Option Nat) : Conn :=
  evStore c { Event.zero with type := type, ch := ch }

def evPushRedirect (c : Conn) (addr : Addr) (connId : UInt32) : Conn :=
  evStore c { Event.zero with type := .redirect, redirectAddr := addr, redirectConnId := connId }

/-- `ctrl_reserve` and the stores its caller makes into the reserved bytes: the
frame is queued whole or not at all. -/
def ctrlReserve (c : Conn) (frame : List UInt8) : Conn :=
  if c.ctrlBuf.length + frame.length > ncCtrlBufSize then c
  else { c with ctrlBuf := c.ctrlBuf ++ frame }

def ctrlConnectInit (c : Conn) : Conn :=
  ctrlReserve c (ncFrameConnectInit :: wr32 c.localId ++ [ncVersion])

def ctrlConnectAccept (c : Conn) : Conn :=
  ctrlReserve c
    (ncFrameConnectAccept :: wr32 c.localId ++ ncVersion :: wr32 c.cfg.idleTimeoutMs)

def ctrlPing (c : Conn) (opaqueId : UInt32) : Conn :=
  ctrlReserve c (ncFramePing :: wr32 opaqueId)

def ctrlPong (c : Conn) (opaqueId : UInt32) : Conn :=
  ctrlReserve c (ncFramePong :: wr32 opaqueId)

def ctrlChannelOpen (c : Conn) (ch : Chan) : Conn :=
  let ct := ch.contentType.take 63
  ctrlReserve c
    ([ncFrameChannelOpen, ch.id, UInt8.ofNat ch.type, UInt8.ofNat ch.dir,
      UInt8.ofNat ct.length] ++ ct)

def ctrlChannelClose (c : Conn) (chanId : UInt8) (error : UInt16) : Conn :=
  ctrlReserve c (ncFrameChannelClose :: chanId :: wr16 error)

def ctrlWindowUpdate (c : Conn) (chanId : UInt8) (window : UInt32) : Conn :=
  ctrlReserve c (ncFrameWindowUpdate :: chanId :: wr32 window)

/-- Unsigned arithmetic: an MTU below the two headers wraps. -/
def maxFragPayload (cfg : Cfg) : Nat := (cfg.mtu - 7 - 8).toNat

def Outgoing.zero : Outgoing := ⟨0, none, 0, 0, 0, 0, 0, false⟩

def FragAsm.zero : FragAsm := ⟨0, 0, 0, 0, none, fun _ => 0, false⟩

/-- A record after `memset` and `chan_reset_bufs`. -/
def Chan.zero : Chan where
  id := 0
  type := 0
  dir := 0
  role := .sender
  state := .opening
  contentType := []
  sendSeq := 0
  sendWindow := 0
  bytesInFlight := 0
  outgoing := fun _ => Outgoing.zero
  outHead := 0
  outTail := 0
  recvSeq := 0
  recvWindow := 0
  recvBuffered := 0
  recvQueue := fun _ => ⟨none, 0⟩
  rqHead := 0
  rqTail := 0
  reorder := fun _ => ⟨0, none, 0, false⟩
  frags := fun _ => FragAsm.zero
  needAck := false
  ackSeq := 0
  needWindowUpdate := false
  msgsSent := 0
  msgsAcked := 0
  retransmissions := 0
  msgsRecv := 0

/-- `snprintf(content_type, 64, "%s", text)` -/
def contentTypeOf (text : List UInt8) : List UInt8 :=
  (text.takeWhile (· ≠ 0)).take 63

def chanNew (s : Core) (id : UInt8) (type dir : Nat) (role : Role)
    (contentType : Option (List UInt8)) : Core × Option Nat :=
  match (List.range ncMaxChan).find? fun i => !s.chanUsed i with
  | none => (s, none)
  | some slot =>
    ({ s with
        chanPool := Function.update s.chanPool slot
          { Chan.zero with
            id := id
            type := type
            dir := dir
            role := role
            contentType := contentTypeOf (contentType.getD [])
            recvWindow := s.cfg.chanWindow }
        chanUsed := Function.update s.chanUsed slot true
        channels := Function.update s.channels id (some slot) },
      some slot)

def chanRecvEnqueue (s : Core) (k : Nat) (data : List UInt8) : Core × Except Err Unit :=
  let ch := s.chanPool k
  let next := (ch.rqTail + 1) % ncRecvQueue
  if next = ch.rqHead then (s.mark (.enqueue k data false), .error .err)
  else if data.length > ncMaxMsg then (s.mark (.enqueue k data false), .error .toobig)
  else
    match poolGet s with
    | (s, none) => (s.mark (.enqueue k data false), .error .nomem)
    | (s, some b) =>
      let s := s.memcpy (poolPtr (some b)) data
      let s := s.modChan k fun ch =>
        { ch with
          recvQueue := Function.update ch.recvQueue ch.rqTail ⟨some b, data.length⟩
          rqTail := next
          recvBuffered := ch.recvBuffered + UInt32.ofNat data.length
          msgsRecv := ch.msgsRecv + 1 }
      (s.mark (.enqueue k data true), .ok ())

/-- `ch->recv_seq++` -/
def bumpRecvSeq (s : Core) (k : Nat) : Core :=
  (s.modChan k fun ch => { ch with recvSeq := ch.recvSeq + 1 }).mark (.advance k)

/-- The test at the head of the loop of `chan_deliver_reordered`. -/
def deliverable (ch : Chan) : Bool :=
  let r := ch.reorder (ch.recvSeq.toNat % ncReorderSlots)
  r.valid && r.seq == ch.recvSeq

/-- `pool_put(r->buf); r->buf = NC_NOBUF; r->valid = 0` -/
def reorderRelease (s : Core) (k slot : Nat) : Core :=
  let r := (s.chanPool k).reorder slot
  (poolPut s r.buf).modChan k fun ch =>
    { ch with
      reorder := Function.update ch.reorder slot { r with buf := none, valid := false } }

/-- The body of the loop of `chan_deliver_reordered`. -/
def deliverOne (c : Conn) (k : Nat) : Conn :=
  let slot := (c.chanPool k).recvSeq.toNat % ncReorderSlots
  let r := (c.chanPool k).reorder slot
  let c := c.lift fun s => (chanRecvEnqueue s k (s.bytes (poolPtr r.buf) r.len)).1
  let c := evPush c .data (some k)
  let c := c.lift fun s => reorderRelease s k slot
  c.lift fun s => bumpRecvSeq s k

def deliverLoop : Nat → Conn → Nat → Conn
  | 0, c, _ => c
  | fuel + 1, c, k =>
    if deliverable (c.chanPool k) then deliverLoop fuel (deliverOne c k) k else c

theorem deliverLoop_rule {P : Conn → Prop} {k : Nat}
    (hround : ∀ c, deliverable (c.chanPool k) = true → P c → P (deliverOne c k)) (fuel : Nat)
    {c : Conn} (h : P c) : P (deliverLoop fuel c k) := by
  induction fuel generalizing c with
  | zero => exact h
  | succ fuel ih =>
    unfold deliverLoop
    split_ifs with hd
    · exact ih (hround c hd h)
    · exact h

/-- Every round of the loop clears a slot, so `NC_REORDER_SLOTS` rounds are enough. -/
def chanDeliverReordered (c : Conn) (k : Nat) : Conn :=
  deliverLoop ncReorderSlots c k

def fragFind (ch : Chan) (seq : UInt16) : Option Nat :=
  (List.range ncFragSlots).find? fun i => (ch.frags i).active && (ch.frags i).seq == seq

def fragAlloc (s : Core) (k : Nat) (seq : UInt16) (total : Nat) : Core × Option Nat :=
  if total > ncMaxFrags then (s, none)
  else
    match (List.range ncFragSlots).find? fun i => !((s.chanPool k).frags i).active with
    | none => (s, none)
    | some i =>
      match poolGet s with
      | (s, none) => (s, none)
      | (s, some b) =>
        (s.modChan k fun ch =>
          { ch with
            frags := Function.update ch.frags i
              { FragAsm.zero with seq := seq, total := total, active := true, buf := some b } },
          some i)

def fragFree (s : Core) (k i : Nat) : Core :=
  (poolPut s ((s.chanPool k).frags i).buf).modChan k fun ch =>
    { ch with frags := Function.update ch.frags i FragAsm.zero }

/-- Copy one fragment to its place in the scratch buffer of slot `i` and record it. -/
def fragStore (s : Core) (k i fragIdx : Nat) (payload : List UInt8) : Core :=
  let f := (s.chanPool k).frags i
  let dst := poolPtr f.buf + fragIdx * maxFragPayload s.cfg
  let s := (s.memcpy dst payload).mark (.fragWrite k f.buf dst payload.length)
  s.modChan k fun ch =>
    { ch with
      frags := Function.update ch.frags i
        { f with
          offsets := Function.update f.offsets fragIdx payload.length
          bitmask := f.bitmask ||| 1 <<< fragIdx
          haveN := f.haveN + 1 } }

/-- The loop that moves the fragments `is` together, from position `pos` on. -/
def compactLoop (k : Nat) (f : FragAsm) (fp : Nat) : List Nat → Core → Nat → Core × Nat
  | [], s, pos => (s, pos)
  | i :: is, s, pos =>
    let base := poolPtr f.buf
    let s :=
      if pos ≠ i * fp then
        (s.memmove (base + pos) (base + i * fp) (f.offsets i)).mark
          (.fragWrite k f.buf (base + pos) (f.offsets i))
      else s
    compactLoop k f fp is s (pos + f.offsets i)

/-- The slot a fragment goes to: the one of its message, or a newly claimed one. -/
def fragSlot (s : Core) (k : Nat) (seq : UInt16) (fragTotal : Nat) : Core × Option Nat :=
  match fragFind (s.chanPool k) seq with
  | some i => (s, some i)
  | none => fragAlloc s k seq fragTotal

/-- The fragment is one the slot does not have yet, and it fits in the buffer. -/
def FragAsm.accepts (f : FragAsm) (cfg : Cfg) (fragIdx len : Nat) : Prop :=
  fragIdx < f.total ∧ f.bitmask.testBit fragIdx = false ∧
    fragIdx * maxFragPayload cfg + len ≤ ncMaxMsg

instance (f : FragAsm) (cfg : Cfg) (fragIdx len : Nat) :
    Decidable (f.accepts cfg fragIdx len) :=
  inferInstanceAs (Decidable (_ ∧ _ ∧ _))

/-- The part of `process_data` that both channel types share.  The result is the slot and the
length of a completed message. -/
def fragReceive (s : Core) (k : Nat) (seq : UInt16) (fragIdx fragTotal : Nat)
    (payload : List UInt8) : Core × Option (Nat × Nat) :=
  match fragSlot s k seq fragTotal with
  | (s, none) => (s, none)
  | (s, some i) =>
    if ((s.chanPool k).frags i).accepts s.cfg fragIdx payload.length then
      let s := fragStore s k i fragIdx payload
      let f := (s.chanPool k).frags i
      if f.haveN = f.total then
        let (s, pos) := compactLoop k f (maxFragPayload s.cfg) (List.range f.total) s 0
        (s, some (i, pos))
      else (s, none)
    else (s, none)

end MechanicalResearcher.NetchanV2
