import MechanicalResearcher.Lib.Accesses
import MechanicalResearcher.NetchanV2.Calls

/-!
# What the parser touches

`netchan_feed` takes bytes of the packet, and elements of the tables of the connection by
indices that come from the packet.  `feedAccesses` lists them in the order of the code;
`pos` is the place in the packet of the bytes that a function is given.
-/

namespace MechanicalResearcher.NetchanV2

open Lib Lib.Serial Lib.BigEndian

variable {n : Nat} {data payload : List UInt8}

inductive Access
  /-- the bytes `[off, off + n)` of the packet -/
  | packet (off n : Nat)
  /-- `channels[id]` -/
  | channel (id : Nat)
  /-- `frags[i]` -/
  | frag (i : Nat)
  /-- `1u << i` -/
  | shift (i : Nat)
  /-- `offsets[i]` -/
  | offset (i : Nat)
  /-- `reorder[i]` -/
  | reorder (i : Nat)
  deriving DecidableEq, Repr

def Access.InRange (len : Nat) : Access → Prop
  | .packet off n => off + n ≤ len
  | .channel id => id < ncMaxChannels
  | .frag i => i < ncFragSlots
  | .shift i => i < 32
  | .offset i => i < ncMaxFrags
  | .reorder i => i < ncReorderSlots

/-! ## Handshake and connection frames -/

def connectInitAccesses (c : Conn) (pos : Nat) (p : List UInt8) : List Access :=
  if p.length < 6 then []
  else if !c.server then []
  else [.packet (pos + 1) 4, .packet (pos + 5) 1]

def connectAcceptAccesses (c : Conn) (pos : Nat) (p : List UInt8) : List Access :=
  if p.length < 10 then []
  else if c.server then []
  else [.packet (pos + 1) 4, .packet (pos + 5) 1, .packet (pos + 6) 4]

def connectRedirectAccesses (pos : Nat) (p : List UInt8) : List Access :=
  if p.length < 12 then []
  else
    .packet (pos + 1) 4 :: .packet (pos + 5) 1 ::
      if p.getD 5 0 = 4 then [.packet (pos + 6) 4, .packet (pos + 10) 2]
      else if p.getD 5 0 = 6 then
        if p.length < 24 then [] else [.packet (pos + 6) 16, .packet (pos + 22) 2]
      else []

/-- `process_ping` and `process_pong` read the number behind the type. -/
def pingAccesses (pos : Nat) (p : List UInt8) : List Access :=
  if p.length < 5 then [] else [.packet (pos + 1) 4]

/-! ## Channel frames -/

def acceptChannelOpenAccesses (c : Conn) (pos : Nat) (chanId : UInt8) (type dir : Nat)
    (ct : List UInt8) : List Access :=
  .channel chanId.toNat ::
    if (c.channels chanId).isSome then []
    else
      (if 0 < ct.length then [.packet (pos + 5) (min ct.length 63)] else []) ++
        (chanNew c.toCore chanId type dir (if dir = netchanDirSend then .receiver else .sender)
          (some (ct.take 63))).2.elim [] fun _ => [.channel chanId.toNat]

def channelOpenAccesses (c : Conn) (pos : Nat) (p : List UInt8) : List Access :=
  if p.length < 5 then []
  else
    .packet (pos + 1) 1 :: .packet (pos + 2) 1 :: .packet (pos + 3) 1 :: .packet (pos + 4) 1 ::
      if p.length < 5 + (p.getD 4 0).toNat then []
      else
        acceptChannelOpenAccesses c pos (p.getD 1 0) (p.getD 2 0).toNat (p.getD 3 0).toNat
          ((p.drop 5).take (p.getD 4 0).toNat)

def channelCloseAccesses (pos : Nat) (p : List UInt8) : List Access :=
  if p.length < 4 then [] else [.packet (pos + 1) 1, .channel (p.getD 1 0).toNat]

/-! ## Data -/

/-- `chan_recv_enqueue` copies the message if it takes it. -/
def enqueueAccesses (s : Core) (k : Nat) (data : List UInt8) (copy : List Access) :
    List Access :=
  match (chanRecvEnqueue s k data).2 with
  | .ok () => copy
  | .error _ => []

def deliverAccesses : Nat → Conn → Nat → List Access
  | 0, _, _ => []
  | fuel + 1, c, k =>
    .reorder ((c.chanPool k).recvSeq.toNat % ncReorderSlots) ::
      if deliverable (c.chanPool k) then deliverAccesses fuel (deliverOne c k) k else []

/-- `copy` is what the copy of the message reads: nothing of the packet when the message
comes from a fragment slot. -/
def deliverReliableAccesses (c : Conn) (k : Nat) (seq : UInt16) (data : List UInt8)
    (copy : List Access) : List Access :=
  let ch := c.chanPool k
  let diff := int16 (seq - ch.recvSeq)
  let slot := seq.toNat % ncReorderSlots
  if seq = ch.recvSeq then
    let c' := evPush (c.lift fun s => (chanRecvEnqueue s k data).1) .data (some k)
    enqueueAccesses c.toCore k data copy ++
      deliverAccesses (ncReorderSlots + 1) (c'.lift fun s => bumpRecvSeq s k) k
  else if 0 < diff ∧ diff < ncReorderSlots then
    .reorder slot ::
      if (ch.reorder slot).valid = false ∧ data.length ≤ ncMaxMsg then
        (poolGet c.toCore).2.elim [] fun _ => copy ++ [.reorder slot]
      else []
  else []

/-- The slots a scan of `frags` looks at, up to the one it stops at. -/
def scanAccesses (stop : Nat → Bool) : List Nat → List Access
  | [] => []
  | i :: is => .frag i :: if stop i then [] else scanAccesses stop is

def fragSlotAccesses (s : Core) (k : Nat) (seq : UInt16) (fragTotal : Nat) : List Access :=
  let frags := (s.chanPool k).frags
  scanAccesses (fun i => (frags i).active && (frags i).seq == seq) (List.range ncFragSlots) ++
    if (fragFind (s.chanPool k) seq).isSome ∨ fragTotal > ncMaxFrags then []
    else scanAccesses (fun i => !(frags i).active) (List.range ncFragSlots)

/-- A fragment that slot `i` accepts is copied and recorded; with the last one the lengths
of all are read to move them together. -/
def fragStoreAccesses (s : Core) (k i fragIdx : Nat) (payload : List UInt8) (pos : Nat) :
    List Access :=
  let f := ((fragStore s k i fragIdx payload).chanPool k).frags i
  .packet (pos + 8) payload.length :: .offset fragIdx :: .shift fragIdx ::
    if f.haveN = f.total then (List.range f.total).map .offset else []

def fragReceiveAccesses (s : Core) (k : Nat) (seq : UInt16) (fragIdx fragTotal : Nat)
    (payload : List UInt8) (pos : Nat) : List Access :=
  let s' := (fragSlot s k seq fragTotal).1
  fragSlotAccesses s k seq fragTotal ++
    (fragSlot s k seq fragTotal).2.elim [] fun i =>
      .frag i ::
        if fragIdx < ((s'.chanPool k).frags i).total then
          .shift fragIdx ::
            if ((s'.chanPool k).frags i).accepts s'.cfg fragIdx payload.length then
              fragStoreAccesses s' k i fragIdx payload pos
            else []
        else []

def acceptDataUnreliableAccesses (c : Conn) (k : Nat) (seq : UInt16) (fragIdx fragTotal : Nat)
    (payload : List UInt8) (pos : Nat) : List Access :=
  if fragTotal ≤ 1 then enqueueAccesses c.toCore k payload [.packet (pos + 8) payload.length]
  else
    fragReceiveAccesses c.toCore k seq fragIdx fragTotal payload pos ++
      (fragReceive c.toCore k seq fragIdx fragTotal payload).2.elim [] fun done =>
        [.frag done.1]

def acceptDataReliableAccesses (c : Conn) (k : Nat) (seq : UInt16) (fragIdx fragTotal : Nat)
    (payload : List UInt8) (pos : Nat) : List Access :=
  if fragTotal ≤ 1 then
    deliverReliableAccesses c k seq payload [.packet (pos + 8) payload.length]
  else
    let s := (fragReceive c.toCore k seq fragIdx fragTotal payload).1
    fragReceiveAccesses c.toCore k seq fragIdx fragTotal payload pos ++
      (fragReceive c.toCore k seq fragIdx fragTotal payload).2.elim [] fun done =>
        deliverReliableAccesses { c with toCore := s } k seq
            (s.bytes (poolPtr ((s.chanPool k).frags done.1).buf) done.2) [] ++
          [.frag done.1]

def acceptDataAccesses (c : Conn) (chanId : UInt8) (seq : UInt16) (fragIdx fragTotal : Nat)
    (payload : List UInt8) (pos : Nat) : List Access :=
  .channel chanId.toNat ::
    (c.channels chanId).elim [] fun k =>
      if (c.chanPool k).role ≠ .receiver then []
      else if (c.chanPool k).type = netchanUnreliable then
        acceptDataUnreliableAccesses c k seq fragIdx fragTotal payload pos
      else acceptDataReliableAccesses c k seq fragIdx fragTotal payload pos

def dataAccesses (c : Conn) (pos : Nat) (p : List UInt8) : List Access :=
  if p.length < 8 then []
  else
    .packet (pos + 1) 1 :: .packet (pos + 2) 2 :: .packet (pos + 4) 2 :: .packet (pos + 6) 1 ::
      .packet (pos + 7) 1 ::
        if p.length < 8 + (rd16 (p.drop 4)).toNat then []
        else
          acceptDataAccesses c (p.getD 1 0) (rd16 (p.drop 2)) (p.getD 6 0).toNat
            (p.getD 7 0).toNat ((p.drop 8).take (rd16 (p.drop 4)).toNat) pos

/-! ## Acknowledgements and windows -/

def ackAccesses (pos : Nat) (p : List UInt8) : List Access :=
  if p.length < 4 then []
  else [.packet (pos + 1) 1, .packet (pos + 2) 2, .channel (p.getD 1 0).toNat]

def windowUpdateAccesses (pos : Nat) (p : List UInt8) : List Access :=
  if p.length < 6 then []
  else [.packet (pos + 1) 1, .packet (pos + 2) 4, .channel (p.getD 1 0).toNat]

/-! ## Packets -/

def frameAccesses (c : Conn) (pos : Nat) (p : List UInt8) : List Access :=
  match (p.headD 0).toNat with
  | 0x01 => connectInitAccesses c pos p
  | 0x02 => connectAcceptAccesses c pos p
  | 0x03 => connectRedirectAccesses pos p
  | 0x05 => pingAccesses pos p
  | 0x06 => pingAccesses pos p
  | 0x07 => channelOpenAccesses c pos p
  | 0x08 => channelCloseAccesses pos p
  | 0x09 => dataAccesses c pos p
  | 0x0A => ackAccesses pos p
  | 0x0B => windowUpdateAccesses pos p
  | _ => []

/-- One turn of the loop of `parse_frames` at `pos`: it stops, or goes on further right. -/
def parseTurn (env : Env) (c : Conn) (data : List UInt8) (pos : Nat) : Except Err (Conn × Nat) :=
  if data.getD pos 0 = ncFramePadding then .ok (c, pos + 1)
  else
    match processFrame env c (data.drop pos) with
    | .error e => .error e
    | .ok (c, consumed) => .ok (c, pos + consumed)

/-- The type byte is read twice, by the test for padding and by the `switch`. -/
def turnAccesses (c : Conn) (data : List UInt8) (base pos : Nat) : List Access :=
  .packet (base + pos) 1 ::
    if data.getD pos 0 = ncFramePadding then []
    else .packet (base + pos) 1 :: frameAccesses c (base + pos) (data.drop pos)

/-- The loop of `parse_frames` from `pos` on: where it ends, and with what result. -/
inductive ParseEnds (env : Env) (data : List UInt8) :
    Conn → Nat → Conn → Nat → Except Err Unit → Prop
  | done {c : Conn} {pos : Nat} (h : ¬pos < data.length) :
      ParseEnds env data c pos c pos (.ok ())
  | fail {c : Conn} {pos : Nat} {e : Err} (h : pos < data.length)
      (hturn : parseTurn env c data pos = .error e) : ParseEnds env data c pos c pos (.error e)
  | next {c c' d : Conn} {pos pos' last : Nat} {r : Except Err Unit} (h : pos < data.length)
      (hturn : parseTurn env c data pos = .ok (c', pos'))
      (hrest : ParseEnds env data c' pos' d last r) : ParseEnds env data c pos d last r

/-- At most one turn for each byte. -/
def parseAccesses (env : Env) (data : List UInt8) (base : Nat) : Nat → Conn → Nat → List Access
  | 0, _, _ => []
  | turns + 1, c, pos =>
    if pos < data.length then
      turnAccesses c data base pos ++
        match parseTurn env c data pos with
        | .error _ => []
        | .ok (c, pos) => parseAccesses env data base turns c pos
    else []

def validateMigrationAccesses (frames : List UInt8) (base : Nat) : List Access :=
  if frames.length = 0 then []
  else
    .packet base 1 ::
      ((if frames.headD 0 = ncFrameData ∧ 4 ≤ frames.length then
          [.packet (base + 1) 1, .channel (frames.getD 1 0).toNat]
        else []) ++
        if frames.headD 0 = ncFrameAck ∧ 2 ≤ frames.length then
          [.packet (base + 1) 1, .channel (frames.getD 1 0).toNat]
        else [])

/-- The address of the packet is compared with that of the peer, and the first frame is
looked at if they differ. -/
def migrationAccesses (c : Conn) (frames : List UInt8) (base : Nat) (src : Option Addr) :
    List Access :=
  src.elim [] fun a =>
    if 0 < a.len ∧ 0 < c.peerAddr.len ∧ c.state = .connected ∧ a.same c.peerAddr = false then
      validateMigrationAccesses frames base
    else []

def feedAccesses (env : Env) (c : Conn) (pkt : List UInt8) (src : Option Addr) : List Access :=
  if pkt.length < ncHdrInitSize then []
  else
    let init := pkt.headD 0 &&& ncPktFlagInit ≠ 0
    let base := if init then ncHdrInitSize else ncHdrFullSize
    let frames := pkt.drop base
    .packet 0 1 :: .packet 1 4 ::
      if ¬init ∧ pkt.length < ncHdrFullSize then []
      else if ¬init ∧ rd32 (pkt.drop 1) ≠ c.localId then []
      else
        migrationAccesses c frames base src ++
          parseAccesses env frames base frames.length
            { c with
              peerAddr := feedAddr c frames src
              lastRecvMs := env.nowMs pkt.length
              pktsRecv := c.pktsRecv + 1 } 0

/-! ## The loop of `parse_frames` -/

theorem Frame.decode_le {p : List UInt8} {f : Frame} (h : decode p = some (f, n)) :
    n ≤ p.length := by
  unfold decode at h
  split at h <;> (try split_ifs at h) <;> grind

theorem processFrame_consumes {env : Env} {c c' : Conn} {p : List UInt8}
    (h : processFrame env c p = .ok (c', n)) :
    (0 < n ∧ n ≤ p.length) ∧ ∃ f : Frame, c' = f.apply env (env.nowMs p.length) c := by
  rw [processFrame_eq] at h
  cases hdec : Frame.decode p with
  | none =>
    rw [hdec] at h
    cases h
  | some fn =>
    obtain ⟨f, m⟩ := fn
    simp only [hdec] at h
    split_ifs at h
    cases h
    exact ⟨⟨Frame.decode_pos hdec, Frame.decode_le hdec⟩, f, rfl⟩

theorem parseTurn_ok {env : Env} {c c' : Conn} {pos pos' : Nat} (hpos : pos < data.length)
    (h : parseTurn env c data pos = .ok (c', pos')) :
    (pos < pos' ∧ pos' ≤ data.length) ∧ (c.toCore.Good → c'.toCore.Good) := by
  unfold parseTurn at h
  split_ifs at h with hpad
  · cases h
    exact ⟨by omega, id⟩
  · cases hframe : processFrame env c (data.drop pos) with
    | error e =>
      rw [hframe] at h
      cases h
    | ok r =>
      obtain ⟨d, n⟩ := r
      rw [hframe] at h
      cases h
      obtain ⟨hn, f, rfl⟩ := processFrame_consumes hframe
      rw [List.length_drop] at hn
      exact ⟨by omega, fun hgood => f.apply_good env _ hgood⟩

theorem parseLoop_turn (env : Env) (turns : Nat) (c : Conn) {pos : Nat} (hpos : pos < data.length) :
    parseLoop env (turns + 1) c (data.drop pos) =
      match parseTurn env c data pos with
      | .error e => (c, .error e)
      | .ok (c', pos') => parseLoop env turns c' (data.drop pos') := by
  have hcons := List.drop_eq_getElem_cons hpos
  have hget : data.getD pos 0 = data[pos] := by simp [hpos]
  rw [parseTurn, hget, hcons, parseLoop]
  split_ifs with hpad
  · rfl
  · rw [← hcons]
    cases processFrame env c (data.drop pos) with
    | error e => rfl
    | ok r => simp only [List.drop_drop]

theorem parseLoop_ends (env : Env) (data : List UInt8) {turns : Nat} (c : Conn) {pos : Nat}
    (hpos : pos ≤ data.length) (hturns : data.length - pos ≤ turns) :
    ∃ last,
      ParseEnds env data c pos (parseLoop env turns c (data.drop pos)).1 last
        (parseLoop env turns c (data.drop pos)).2 ∧
      ((parseLoop env turns c (data.drop pos)).2 = .ok () → last = data.length) := by
  induction turns generalizing c pos with
  | zero => exact ⟨pos, .done (by omega), fun _ => by omega⟩
  | succ turns ih =>
    by_cases hlt : pos < data.length
    · rw [parseLoop_turn env turns c hlt]
      cases hturn : parseTurn env c data pos with
      | error e => exact ⟨pos, .fail hlt hturn, nofun⟩
      | ok r =>
        obtain ⟨c', pos'⟩ := r
        obtain ⟨hnext, -⟩ := parseTurn_ok hlt hturn
        obtain ⟨last, hends, hlast⟩ := ih c' hnext.2 (by omega)
        exact ⟨last, .next hlt hturn hends, hlast⟩
    · rw [List.drop_eq_nil_of_le (by omega)]
      exact ⟨pos, .done hlt, fun _ => by omega⟩

/-! ## Every access is in range -/

section handlers

variable {c : Conn} {len pos : Nat} {p : List UInt8}

theorem safe_packet {off : Nat} {as : List Access} (h : off + n ≤ len)
    (has : Safe (Access.InRange len) as) : Safe (Access.InRange len) (.packet off n :: as) :=
  .cons h has

theorem safe_channel (id : UInt8) {as : List Access} (has : Safe (Access.InRange len) as) :
    Safe (Access.InRange len) (.channel id.toNat :: as) :=
  .cons id.toNat_lt has

theorem connectInitAccesses_safe (h : pos + p.length ≤ len) :
    Safe (Access.InRange len) (connectInitAccesses c pos p) := by
  refine .ite (fun _ => .nil) fun _ => .ite (fun _ => .nil) fun _ => ?_
  exact safe_packet (by omega) (safe_packet (by omega) .nil)

theorem connectAcceptAccesses_safe (h : pos + p.length ≤ len) :
    Safe (Access.InRange len) (connectAcceptAccesses c pos p) := by
  refine .ite (fun _ => .nil) fun _ => .ite (fun _ => .nil) fun _ => ?_
  exact safe_packet (by omega) (safe_packet (by omega) (safe_packet (by omega) .nil))

theorem connectRedirectAccesses_safe (h : pos + p.length ≤ len) :
    Safe (Access.InRange len) (connectRedirectAccesses pos p) := by
  refine .ite (fun _ => .nil) fun _ => safe_packet (by omega) (safe_packet (by omega) ?_)
  refine .ite (fun _ => safe_packet (by omega) (safe_packet (by omega) .nil)) fun _ => ?_
  refine .ite (fun _ => .ite (fun _ => .nil) fun _ => ?_) fun _ => .nil
  exact safe_packet (by omega) (safe_packet (by omega) .nil)

theorem pingAccesses_safe (h : pos + p.length ≤ len) :
    Safe (Access.InRange len) (pingAccesses pos p) :=
  .ite (fun _ => .nil) fun _ => safe_packet (by omega) .nil

theorem acceptChannelOpenAccesses_safe {ct : List UInt8} (h : pos + (5 + ct.length) ≤ len)
    (id : UInt8) (type dir : Nat) :
    Safe (Access.InRange len) (acceptChannelOpenAccesses c pos id type dir ct) := by
  refine safe_channel id (.ite (fun _ => .nil) fun _ => .append ?_ ?_)
  · exact .ite (fun _ => safe_packet (by omega) .nil) fun _ => .nil
  · exact .elim fun _ _ => safe_channel id .nil

theorem channelOpenAccesses_safe (h : pos + p.length ≤ len) :
    Safe (Access.InRange len) (channelOpenAccesses c pos p) := by
  refine .ite (fun _ => .nil) fun _ => ?_
  refine safe_packet (by omega) (safe_packet (by omega) (safe_packet (by omega)
    (safe_packet (by omega) (.ite (fun _ => .nil) fun hct => ?_))))
  refine acceptChannelOpenAccesses_safe ?_ _ _ _
  rw [List.length_take, List.length_drop]
  omega

theorem channelCloseAccesses_safe (h : pos + p.length ≤ len) :
    Safe (Access.InRange len) (channelCloseAccesses pos p) :=
  .ite (fun _ => .nil) fun _ => safe_packet (by omega) (safe_channel _ .nil)

theorem ackAccesses_safe (h : pos + p.length ≤ len) :
    Safe (Access.InRange len) (ackAccesses pos p) :=
  .ite (fun _ => .nil) fun _ => safe_packet (by omega) (safe_packet (by omega) (safe_channel _
  .nil))

theorem windowUpdateAccesses_safe (h : pos + p.length ≤ len) :
    Safe (Access.InRange len) (windowUpdateAccesses pos p) :=
  .ite (fun _ => .nil) fun _ => safe_packet (by omega) (safe_packet (by omega) (safe_channel _
  .nil))

end handlers

section data

variable {len k : Nat} {copy : List Access}

theorem enqueueAccesses_safe (s : Core) (k : Nat) (data : List UInt8)
    (h : Safe (Access.InRange len) copy) :
    Safe (Access.InRange len) (enqueueAccesses s k data copy) := by
  unfold enqueueAccesses
  split
  · exact h
  · exact .nil

theorem reorder_inRange (n : Nat) : (Access.reorder (n % ncReorderSlots)).InRange len :=
  Nat.mod_lt n (by decide)

theorem deliverAccesses_safe (fuel : Nat) (c : Conn) (k : Nat) :
    Safe (Access.InRange len) (deliverAccesses fuel c k) := by
  induction fuel generalizing c with
  | zero => exact .nil
  | succ fuel ih =>
    exact .cons (reorder_inRange _) (.ite (fun _ => ih _) fun _ => .nil)

theorem deliverReliableAccesses_safe (c : Conn) (k : Nat) (seq : UInt16) (data : List UInt8)
    (h : Safe (Access.InRange len) copy) :
    Safe (Access.InRange len) (deliverReliableAccesses c k seq data copy) := by
  refine .ite (fun _ => .append (enqueueAccesses_safe _ _ _ h) (deliverAccesses_safe _ _ _))
    fun _ => .ite (fun _ => .cons (reorder_inRange _) ?_) fun _ => .nil
  refine .ite (fun _ => .elim fun _ _ => h.append ?_) fun _ => .nil
  exact .cons (reorder_inRange _) .nil

theorem scanAccesses_safe (stop : Nat → Bool) {is : List Nat} (h : ∀ i ∈ is, i < ncFragSlots) :
    Safe (Access.InRange len) (scanAccesses stop is) := by
  induction is with
  | nil => exact .nil
  | cons i is ih =>
    refine .cons (h i List.mem_cons_self) (.ite (fun _ => .nil) fun _ => ?_)
    exact ih fun j hj => h j (List.mem_cons_of_mem i hj)

theorem fragSlotAccesses_safe (s : Core) (k : Nat) (seq : UInt16) (total : Nat) :
    Safe (Access.InRange len) (fragSlotAccesses s k seq total) := by
  have hrange : ∀ i ∈ List.range ncFragSlots, i < ncFragSlots := fun i => List.mem_range.mp
  exact .append (scanAccesses_safe _ hrange) (.ite (fun _ => .nil) fun _ =>
    scanAccesses_safe _ hrange)

theorem fragStoreAccesses_safe {s : Core} {i fragIdx pos : Nat}
    (htotal : ((s.chanPool k).frags i).total ≤ ncMaxFrags)
    (hidx : fragIdx < ((s.chanPool k).frags i).total) (h : pos + 8 + payload.length ≤ len) :
    Safe (Access.InRange len) (fragStoreAccesses s k i fragIdx payload pos) := by
  have hkeeps : (((fragStore s k i fragIdx payload).chanPool k).frags i).total =
      ((s.chanPool k).frags i).total := by
    simp [fragStore_eq, Core.modChan, Chan.refragged, FragAsm.stored]
  have hlt : fragIdx < 32 := hidx.trans_le htotal
  refine safe_packet h (.cons hlt (.cons hlt (.ite (fun _ a ha => ?_) fun _ => .nil)))
  obtain ⟨j, hj, rfl⟩ := List.mem_map.mp ha
  rw [hkeeps, List.mem_range] at hj
  exact hj.trans_le htotal

theorem fragReceiveAccesses_safe {s : Core} (h : s.Inv) (hk : s.chanUsed k = true) (seq : UInt16)
    {fragIdx fragTotal pos : Nat} (htotal : 1 < fragTotal) (hlen : pos + 8 + payload.length ≤ len) :
    Safe (Access.InRange len) (fragReceiveAccesses s k seq fragIdx fragTotal payload pos) := by
  obtain ⟨hinv, htouch, hslot⟩ := fragSlot_spec h hk seq htotal
  refine .append (fragSlotAccesses_safe s k seq fragTotal) (.elim fun i hi => ?_)
  obtain ⟨hi4, hactive, -⟩ := hslot i hi
  have hfrag := (hinv.chans k (htouch.used hk)).frag i hi4 hactive
  refine .cons hi4 (.ite (fun hidx => .cons (hidx.trans_le hfrag.total_le) ?_) fun _ => .nil)
  exact .ite (fun _ => fragStoreAccesses_safe hfrag.total_le hidx hlen) fun _ => .nil

theorem acceptDataAccesses_safe {c : Conn} (h : c.toCore.Good) (id : UInt8) (seq : UInt16)
    (fragIdx fragTotal : Nat) {pos : Nat} (hlen : pos + 8 + payload.length ≤ len) :
    Safe (Access.InRange len) (acceptDataAccesses c id seq fragIdx fragTotal payload pos) := by
  refine safe_channel id (.elim fun k hid => ?_)
  have hk := (h.inv.table id k hid).2.1
  have hcopy : Safe (Access.InRange len) [.packet (pos + 8) payload.length] :=
    safe_packet hlen .nil
  -- the slot that a completed message is taken from is freed
  have hfree (htotal : 1 < fragTotal) (done : Nat × Nat)
      (hdone : (fragReceive c.toCore k seq fragIdx fragTotal payload).2 = some done) :
      Safe (Access.InRange len) [.frag done.1] := by
    have hslot := (fragReceive_spec h.inv hk seq fragIdx htotal payload).2.2 done.1 done.2 hdone
    exact .cons hslot.1 .nil
  refine .ite (fun _ => .nil) fun _ => .ite (fun _ => ?_) fun _ => ?_
  · refine .ite (fun _ => enqueueAccesses_safe _ _ _ hcopy) fun htotal => ?_
    exact .append (fragReceiveAccesses_safe h.inv hk seq (by omega) hlen)
      (.elim fun done hdone => hfree (by omega) done hdone)
  · refine .ite (fun _ => deliverReliableAccesses_safe _ _ _ _ hcopy) fun htotal => ?_
    refine .append (fragReceiveAccesses_safe h.inv hk seq (by omega) hlen) (.elim fun done hdone =>
      ?_)
    exact (deliverReliableAccesses_safe _ _ _ _ .nil).append (hfree (by omega) done hdone)

end data

variable {c : Conn} {len : Nat}

theorem dataAccesses_safe (hgood : c.toCore.Good) {pos : Nat} {p : List UInt8}
    (h : pos + p.length ≤ len) : Safe (Access.InRange len) (dataAccesses c pos p) := by
  refine .ite (fun _ => .nil) fun _ => ?_
  refine safe_packet (by omega) (safe_packet (by omega) (safe_packet (by omega)
    (safe_packet (by omega) (safe_packet (by omega) (.ite (fun _ => .nil) fun hdata => ?_)))))
  refine acceptDataAccesses_safe hgood _ _ _ _ ?_
  rw [List.length_take, List.length_drop]
  omega

theorem frameAccesses_safe (hgood : c.toCore.Good) {pos : Nat} {p : List UInt8}
    (h : pos + p.length ≤ len) : Safe (Access.InRange len) (frameAccesses c pos p) := by
  unfold frameAccesses
  split
  · exact connectInitAccesses_safe h
  · exact connectAcceptAccesses_safe h
  · exact connectRedirectAccesses_safe h
  · exact pingAccesses_safe h
  · exact pingAccesses_safe h
  · exact channelOpenAccesses_safe h
  · exact channelCloseAccesses_safe h
  · exact dataAccesses_safe hgood h
  · exact ackAccesses_safe h
  · exact windowUpdateAccesses_safe h
  · exact .nil

theorem parseAccesses_safe (env : Env) {base : Nat} (hlen : base + data.length ≤ len) (turns : Nat)
    (hgood : c.toCore.Good) (pos : Nat) :
    Safe (Access.InRange len) (parseAccesses env data base turns c pos) := by
  induction turns generalizing c pos with
  | zero => exact .nil
  | succ turns ih =>
    refine .ite (fun hpos => .append ?_ ?_) fun _ => .nil
    · refine safe_packet (by omega) (.ite (fun _ => .nil) fun _ => safe_packet (by omega) ?_)
      refine frameAccesses_safe hgood ?_
      rw [List.length_drop]
      omega
    · cases hturn : parseTurn env c data pos with
      | error e => exact .nil
      | ok r => exact ih ((parseTurn_ok hpos hturn).2 hgood) r.2

theorem validateMigrationAccesses_safe {frames : List UInt8} {base : Nat}
    (hlen : base + frames.length ≤ len) :
    Safe (Access.InRange len) (validateMigrationAccesses frames base) := by
  refine .ite (fun _ => .nil) fun hne => safe_packet (by omega) (.append ?_ ?_)
  · exact .ite (fun hframe => safe_packet (by omega) (safe_channel _ .nil)) fun _ => .nil
  · exact .ite (fun hframe => safe_packet (by omega) (safe_channel _ .nil)) fun _ => .nil

theorem feedAccesses_safe (env : Env) (hgood : c.toCore.Good) (pkt : List UInt8)
    (src : Option Addr) : Safe (Access.InRange pkt.length) (feedAccesses env c pkt src) := by
  have h5 : ncHdrInitSize = 5 := rfl
  have h7 : ncHdrFullSize = 7 := rfl
  refine .ite (fun _ => .nil) fun hlen => safe_packet (by omega) (safe_packet (by omega) ?_)
  refine .ite (fun _ => .nil) fun hshort => .ite (fun _ => .nil) fun _ => ?_
  -- the header that was checked for lies in the packet
  have hbase : (if pkt.headD 0 &&& ncPktFlagInit ≠ 0 then ncHdrInitSize else ncHdrFullSize) ≤
      pkt.length := by
    split_ifs with hinit
    · omega
    · simp only [hinit, not_false_eq_true, true_and] at hshort
      omega
  have hframes : ∀ base ≤ pkt.length, base + (pkt.drop base).length ≤ pkt.length := by
    intro base hbase
    rw [List.length_drop]
    omega
  refine .append (.elim fun a _ => .ite (fun _ => ?_) fun _ => .nil) ?_
  · exact validateMigrationAccesses_safe (hframes _ hbase)
  · refine parseAccesses_safe env (hframes _ hbase) _ ?_ 0
    exact hgood

/-- Whatever bytes a connection is fed, the parser stays within the packet and the tables;
every turn of its loop consumes a byte at least and no more than are left, and the loop
ends, at the end of the packet unless a frame is refused. -/
theorem parser_safe (h : c.Reachable) (env : Env) :
    (∀ pkt src, ∀ a ∈ feedAccesses env c pkt src, a.InRange pkt.length) ∧
    (∀ (d d' : Conn) (data : List UInt8) (pos pos' : Nat), pos < data.length →
      parseTurn env d data pos = .ok (d', pos') → pos < pos' ∧ pos' ≤ data.length) ∧
    ∀ (d : Conn) (data : List UInt8), ∃ last,
      ParseEnds env data d 0 (parseFrames env d data).1 last (parseFrames env d data).2 ∧
        ((parseFrames env d data).2 = .ok () → last = data.length) := by
  refine ⟨fun pkt src => feedAccesses_safe env h.good pkt src, ?_, fun d data => ?_⟩
  · intro d d' data pos pos' hpos hturn
    exact (parseTurn_ok hpos hturn).1
  · exact parseLoop_ends env data d (Nat.zero_le _) le_rfl

/-- A server takes a connect frame and a padding byte. -/
theorem parser_safe_connect :
    (netchanOpen true netchanCfgDefault).Reachable ∧
      ∀ a ∈ feedAccesses quietEnv (netchanOpen true netchanCfgDefault)
        [1, 0, 0, 0, 0, 1, 0, 0, 0, 7, 1, 0] none, a.InRange 12 :=
  ⟨reachable_open true netchanCfgDefault,
    (parser_safe (reachable_open true netchanCfgDefault) quietEnv).1
      [1, 0, 0, 0, 0, 1, 0, 0, 0, 7, 1, 0] none⟩

example : feedAccesses quietEnv (netchanOpen true netchanCfgDefault)
    [1, 0, 0, 0, 0, 1, 0, 0, 0, 7, 1, 0] none =
      [.packet 0 1, .packet 1 4, .packet 5 1, .packet 5 1, .packet 6 4, .packet 10 1,
        .packet 11 1] := by decide +kernel

end MechanicalResearcher.NetchanV2
