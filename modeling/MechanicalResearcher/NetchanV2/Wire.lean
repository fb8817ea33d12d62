import MechanicalResearcher.NetchanV2.Receive

/-!
# Frames

The frames of a packet as data.  Which frames `parse_frames` reaches, and where
it stops, depends on the bytes and on the side of the connection only, never on
its state (`frames`); what it does is to apply these frames one after the other
(`parseFrames_eq`).  Everything said about a fed packet starts from there.
-/

namespace MechanicalResearcher.NetchanV2

open Lib.Serial Lib.BigEndian

inductive Frame
  | connectInit (clientId : UInt32) (version : UInt8)
  | connectAccept (serverId : UInt32) (version : UInt8) (idle : UInt32)
  | connectRedirect (newId : UInt32) (addr : Addr)
  | disconnect (reason : UInt16)
  | ping (opaqueId : UInt32)
  | pong (opaqueId : UInt32)
  | channelOpen (id type dir : UInt8) (ct : List UInt8)
  | channelClose (id : UInt8) (error : UInt16)
  | data (id : UInt8) (seq : UInt16) (fragIdx fragTotal : UInt8) (payload : List UInt8)
  | ack (id : UInt8) (seq : UInt16)
  | windowUpdate (id : UInt8) (window : UInt32)
  deriving DecidableEq, Repr

namespace Frame

/-- The frame at the head of `p` and its length. -/
def decode (p : List UInt8) : Option (Frame × Nat) :=
  match (p.headD 0).toNat with
  | 0x01 => if p.length < 6 then none else some (connectInit (rd32 (p.drop 1)) (p.getD 5 0), 6)
  | 0x02 =>
    if p.length < 10 then none
    else some (connectAccept (rd32 (p.drop 1)) (p.getD 5 0) (rd32 (p.drop 6)), 10)
  | 0x03 =>
    if p.length < 12 then none
    else if p.getD 5 0 = 4 then some (connectRedirect (rd32 (p.drop 1)) (redirectAddr p 7), 12)
    else if p.getD 5 0 = 6 then
      if p.length < 24 then none
      else some (connectRedirect (rd32 (p.drop 1)) (redirectAddr p 19), 24)
    else none
  | 0x04 => if p.length < 3 then none else some (disconnect (rd16 (p.drop 1)), 3)
  | 0x05 => if p.length < 5 then none else some (ping (rd32 (p.drop 1)), 5)
  | 0x06 => if p.length < 5 then none else some (pong (rd32 (p.drop 1)), 5)
  | 0x07 =>
    if p.length < 5 then none
    else
      let ctLen := (p.getD 4 0).toNat
      if p.length < 5 + ctLen then none
      else
        some (channelOpen (p.getD 1 0) (p.getD 2 0) (p.getD 3 0) ((p.drop 5).take ctLen),
          5 + ctLen)
  | 0x08 => if p.length < 4 then none else some (channelClose (p.getD 1 0) (rd16 (p.drop 2)), 4)
  | 0x09 =>
    if p.length < 8 then none
    else
      let dataLen := (rd16 (p.drop 4)).toNat
      if p.length < 8 + dataLen then none
      else
        some (data (p.getD 1 0) (rd16 (p.drop 2)) (p.getD 6 0) (p.getD 7 0)
          ((p.drop 8).take dataLen), 8 + dataLen)
  | 0x0A => if p.length < 4 then none else some (ack (p.getD 1 0) (rd16 (p.drop 2)), 4)
  | 0x0B => if p.length < 6 then none else some (windowUpdate (p.getD 1 0) (rd32 (p.drop 2)), 6)
  | _ => none

/-- The frames the handlers refuse by the side of the connection or by version. -/
def allowed (server : Bool) : Frame → Bool
  | connectInit _ version => server && version == ncVersion
  | connectAccept _ _ _ => !server
  | _ => true

/-- What the handler of an allowed frame does. -/
def apply (env : Env) (now : UInt32) (c : Conn) : Frame → Conn
  | connectInit clientId _ => acceptConnectInit env c clientId
  | connectAccept serverId _ _ => acceptConnectAccept c serverId
  | connectRedirect newId addr => evPushRedirect c addr newId
  | disconnect _ => evPush { c with state := .closed } .disconnected none
  | ping opaqueId => ctrlPong c opaqueId
  | pong opaqueId => acceptPong c opaqueId now
  | channelOpen id type dir ct => acceptChannelOpen c id type.toNat dir.toNat ct
  | channelClose id _ => acceptChannelClose c id
  | data id seq fragIdx fragTotal payload =>
    acceptData c id seq fragIdx.toNat fragTotal.toNat payload
  | ack id seq => acceptAck c id seq
  | windowUpdate id window => acceptWindowUpdate c id window

end Frame

theorem processFrame_eq (env : Env) (c : Conn) (p : List UInt8) :
    processFrame env c p =
      match Frame.decode p with
      | none => .error .proto
      | some (f, n) =>
        if f.allowed c.server then .ok (f.apply env (env.nowMs p.length) c, n)
        else .error .proto := by
  unfold processFrame Frame.decode
  generalize (p.headD 0).toNat = ty
  split
  · simp only [processConnectInit]
    split_ifs <;> simp_all [Frame.allowed, Frame.apply]
  · simp only [processConnectAccept]
    split_ifs <;> simp_all [Frame.allowed, Frame.apply]
  · simp only [processConnectRedirect]
    split_ifs <;> simp_all [Frame.allowed, Frame.apply]
  · simp only [processDisconnect]
    split_ifs <;> simp_all [Frame.allowed, Frame.apply]
  · simp only [processPing]
    split_ifs <;> simp_all [Frame.allowed, Frame.apply]
  · simp only [processPong]
    split_ifs <;> simp_all [Frame.allowed, Frame.apply]
  · simp only [processChannelOpen]
    split_ifs <;> simp_all [Frame.allowed, Frame.apply]
  · simp only [processChannelClose]
    split_ifs <;> simp_all [Frame.allowed, Frame.apply]
  · simp only [processData]
    split_ifs <;> simp_all [Frame.allowed, Frame.apply]
  · simp only [processAck]
    split_ifs <;> simp_all [Frame.allowed, Frame.apply]
  · simp only [processWindowUpdate]
    split_ifs <;> simp_all [Frame.allowed, Frame.apply]
  · simp_all

/-! ## The side of the connection never changes -/

@[simp] theorem evStore_server (c : Conn) (e : Event) : (evStore c e).server = c.server := by
  simp only [evStore]
  split_ifs <;> rfl

@[simp] theorem evPush_server (c : Conn) (t : EvType) (ch : Option Nat) :
    (evPush c t ch).server = c.server := evStore_server _ _

@[simp] theorem ctrlReserve_server (c : Conn) (frame : List UInt8) :
    (ctrlReserve c frame).server = c.server := by
  unfold ctrlReserve
  split_ifs <;> rfl

@[simp] theorem lift_server (c : Conn) (f : Core → Core) : (c.lift f).server = c.server := rfl

@[simp] theorem deliverOne_server (c : Conn) (k : Nat) : (deliverOne c k).server = c.server := by
  simp [deliverOne]

@[simp] theorem deliverLoop_server (fuel : Nat) (c : Conn) (k : Nat) :
    (deliverLoop fuel c k).server = c.server :=
  deliverLoop_rule (P := fun d => d.server = c.server)
    (fun d _ h => (deliverOne_server d k).trans h) fuel rfl

@[simp] theorem deliverReliable_server (c : Conn) (k : Nat) (seq : UInt16) (data : List UInt8) :
    (deliverReliable c k seq data).server = c.server := by
  simp only [deliverReliable]
  split_ifs <;> simp [chanDeliverReordered]

theorem acceptData_server (c : Conn) (id : UInt8) (seq : UInt16) (fragIdx fragTotal : Nat)
    (payload : List UInt8) :
    (acceptData c id seq fragIdx fragTotal payload).server = c.server := by
  unfold acceptData
  split
  · rfl
  · split_ifs
    · rfl
    · unfold acceptDataUnreliable
      split_ifs
      · simp
      · split <;> simp
    · unfold acceptDataReliable
      split_ifs
      · simp
      · split <;> simp

@[simp] theorem Frame.apply_server (env : Env) (now : UInt32) (c : Conn) (f : Frame) :
    (f.apply env now c).server = c.server := by
  cases f with
  | connectInit clientId version =>
    simp only [apply, acceptConnectInit]
    split_ifs <;> rfl
  | connectAccept serverId version idle => simp [apply, acceptConnectAccept]
  | connectRedirect newId addr => simp [apply, evPushRedirect]
  | disconnect reason => simp [apply]
  | ping opaqueId => simp [apply, ctrlPong]
  | pong opaqueId =>
    simp only [apply, acceptPong]
    split_ifs <;> rfl
  | channelOpen id type dir ct =>
    simp only [apply, acceptChannelOpen]
    split
    · simp [ctrlChannelClose]
    · split
      · simp [ctrlChannelClose]
      · split <;> simp [ctrlWindowUpdate]
  | channelClose id error =>
    simp only [apply, acceptChannelClose]
    split <;> simp
  | data id seq fragIdx fragTotal payload => simp only [apply, acceptData_server]
  | ack id seq =>
    simp only [apply, acceptAck]
    split
    · rfl
    · split_ifs <;> simp
  | windowUpdate id window =>
    simp only [apply, acceptWindowUpdate]
    split
    · rfl
    · split_ifs <;> rfl

/-! ## The frames of a packet -/

/-- The frames `parse_frames` reaches, each with the number of bytes from it to the end. -/
def framesLoop (server : Bool) : Nat → List UInt8 → List (Frame × Nat)
  | 0, _ => []
  | _ + 1, [] => []
  | fuel + 1, b :: rest =>
    if b = ncFramePadding then framesLoop server fuel rest
    else
      match Frame.decode (b :: rest) with
      | none => []
      | some (f, n) =>
        if f.allowed server then
          (f, (b :: rest).length) :: framesLoop server fuel ((b :: rest).drop n)
        else []

def frames (server : Bool) (data : List UInt8) : List (Frame × Nat) :=
  framesLoop server data.length data

theorem framesLoop_allowed {server : Bool} {fuel : Nat} {data : List UInt8} {fn : Frame × Nat}
    (h : fn ∈ framesLoop server fuel data) : fn.1.allowed server = true := by
  induction fuel generalizing data with
  | zero => cases h
  | succ fuel ih =>
    cases data with
    | nil => cases h
    | cons b rest =>
      simp only [framesLoop] at h
      split_ifs at h
      · exact ih h
      · cases hd : Frame.decode (b :: rest) with
        | none => simp [hd] at h
        | some fn' =>
          simp only [hd] at h
          split_ifs at h with hok
          · rcases List.mem_cons.1 h with rfl | h
            · exact hok
            · exact ih h
          · cases h

theorem frames_allowed {server : Bool} {data : List UInt8} {fn : Frame × Nat}
    (h : fn ∈ frames server data) : fn.1.allowed server = true :=
  framesLoop_allowed h

/-- Apply the frames of a packet in order. -/
def applyFrames (env : Env) (c : Conn) (fs : List (Frame × Nat)) : Conn :=
  fs.foldl (fun c fn => fn.1.apply env (env.nowMs fn.2) c) c

@[simp] theorem applyFrames_nil (env : Env) (c : Conn) : applyFrames env c [] = c := rfl

@[simp] theorem applyFrames_cons (env : Env) (c : Conn) (fn : Frame × Nat)
    (fs : List (Frame × Nat)) :
    applyFrames env c (fn :: fs) =
      applyFrames env (fn.1.apply env (env.nowMs fn.2) c) fs := rfl

theorem parseLoop_eq (env : Env) (fuel : Nat) (c : Conn) (data : List UInt8) :
    (parseLoop env fuel c data).1 = applyFrames env c (framesLoop c.server fuel data) := by
  induction fuel generalizing c data with
  | zero => rfl
  | succ fuel ih =>
    cases data with
    | nil => rfl
    | cons b rest =>
      simp only [parseLoop, framesLoop]
      split_ifs with hpad
      · exact ih c rest
      · rw [processFrame_eq]
        cases hd : Frame.decode (b :: rest) with
        | none => rfl
        | some fn =>
          obtain ⟨f, n⟩ := fn
          by_cases hok : f.allowed c.server
          · simp only [hok, if_true, applyFrames_cons]
            rw [ih, Frame.apply_server]
          · simp [hok]

theorem parseFrames_eq (env : Env) (c : Conn) (data : List UInt8) :
    (parseFrames env c data).1 = applyFrames env c (frames c.server data) :=
  parseLoop_eq env data.length c data

theorem applyFrames_induct {P : Conn → Prop} (env : Env) (fs : List (Frame × Nat))
    (hstep : ∀ c, ∀ fn ∈ fs, P c → P (fn.1.apply env (env.nowMs fn.2) c)) (c : Conn)
    (h : P c) : P (applyFrames env c fs) := by
  induction fs generalizing c with
  | nil => exact h
  | cons fn fs ih =>
    rw [applyFrames_cons]
    apply ih
    · intro c fn' hfn'
      exact hstep c fn' (List.mem_cons_of_mem _ hfn')
    · exact hstep c fn List.mem_cons_self h

/-! ## The bytes of a frame -/

namespace Frame

def encode : Frame → List UInt8
  | connectInit clientId version => ncFrameConnectInit :: wr32 clientId ++ [version]
  | connectAccept serverId version idle =>
    ncFrameConnectAccept :: wr32 serverId ++ version :: wr32 idle
  | connectRedirect newId addr =>
    ncFrameConnectRedirect :: wr32 newId ++ addr.a.take addr.len.toNat
  | disconnect reason => ncFrameDisconnect :: wr16 reason
  | ping opaqueId => ncFramePing :: wr32 opaqueId
  | pong opaqueId => ncFramePong :: wr32 opaqueId
  | channelOpen id type dir ct =>
    [ncFrameChannelOpen, id, type, dir, UInt8.ofNat ct.length] ++ ct
  | channelClose id error => ncFrameChannelClose :: id :: wr16 error
  | data id seq fragIdx fragTotal payload =>
    ncFrameData :: id :: wr16 seq ++ wr16 (UInt16.ofNat payload.length) ++
      [fragIdx, fragTotal] ++ payload
  | ack id seq => ncFrameAck :: id :: wr16 seq
  | windowUpdate id window => ncFrameWindowUpdate :: id :: wr32 window

/-- The frames this side sends, with lengths that fit their length fields. -/
def Sendable : Frame → Prop
  | connectRedirect _ _ => False
  | channelOpen _ _ _ ct => ct.length < 2 ^ 8
  | data _ _ _ _ payload => payload.length < 2 ^ 16
  | _ => True

theorem decode_encode {f : Frame} (hf : f.Sendable) (rest : List UInt8) :
    decode (f.encode ++ rest) = some (f, f.encode.length) := by
  cases f with
  | connectRedirect newId addr => exact hf.elim
  | channelOpen id type dir ct =>
    have hlen : (UInt8.ofNat ct.length).toNat = ct.length := by
      rw [UInt8.toNat_ofNat', Nat.mod_eq_of_lt hf]
    simp [decode, encode, ncFrameChannelOpen, hlen, Nat.add_comm]
    omega
  | data id seq fragIdx fragTotal payload =>
    have hlen : (UInt16.ofNat payload.length).toNat = payload.length := by
      rw [UInt16.toNat_ofNat', Nat.mod_eq_of_lt hf]
    simp [decode, encode, ncFrameData, hlen]
    omega
  | connectInit clientId version =>
    simp [decode, encode, ncFrameConnectInit]
    omega
  | connectAccept serverId version idle =>
    simp [decode, encode, ncFrameConnectAccept]
    omega
  | disconnect reason =>
    simp [decode, encode, ncFrameDisconnect]
  | ping opaqueId =>
    simp [decode, encode, ncFramePing]
  | pong opaqueId =>
    simp [decode, encode, ncFramePong]
  | channelClose id error =>
    simp [decode, encode, ncFrameChannelClose]
  | ack id seq =>
    simp [decode, encode, ncFrameAck]
  | windowUpdate id window =>
    simp [decode, encode, ncFrameWindowUpdate]

theorem encode_cons (f : Frame) :
    ∃ b tail, f.encode = b :: tail ∧ b ≠ ncFramePadding := by
  cases f <;> exact ⟨_, _, rfl, by decide⟩

theorem decode_pos {p : List UInt8} {f : Frame} {n : Nat} (h : decode p = some (f, n)) :
    0 < n := by
  unfold decode at h
  split at h <;> (try split_ifs at h) <;> grind

end Frame

theorem framesLoop_fuel (server : Bool) (fuel fuel' : Nat) (data : List UInt8)
    (h : data.length ≤ fuel) (h' : data.length ≤ fuel') :
    framesLoop server fuel data = framesLoop server fuel' data := by
  induction fuel generalizing fuel' data with
  | zero =>
    have hnil : data = [] := List.eq_nil_of_length_eq_zero (by omega)
    subst hnil
    cases fuel' <;> rfl
  | succ fuel ih =>
    cases data with
    | nil => cases fuel' <;> rfl
    | cons b rest =>
      obtain ⟨fuel', rfl⟩ : ∃ n, fuel' = n + 1 :=
        ⟨fuel' - 1, by simp only [List.length_cons] at h'; omega⟩
      simp only [List.length_cons, Nat.add_le_add_iff_right] at h h'
      simp only [framesLoop]
      split_ifs with hpad
      · exact ih fuel' rest h h'
      · cases hd : Frame.decode (b :: rest) with
        | none => rfl
        | some fn =>
          have hpos := Frame.decode_pos hd
          have hlen : ((b :: rest).drop fn.2).length ≤ rest.length := by
            rw [List.length_drop, List.length_cons]
            omega
          dsimp only
          rw [ih fuel' _ (hlen.trans h) (hlen.trans h')]

theorem frames_encode_append (server : Bool) {f : Frame} (hf : f.Sendable) (rest : List UInt8) :
    frames server (f.encode ++ rest) =
      if f.allowed server then (f, (f.encode ++ rest).length) :: frames server rest else [] := by
  obtain ⟨b, tail, hcons, hpad⟩ := f.encode_cons
  have hdec := Frame.decode_encode hf rest
  have hdrop : (f.encode ++ rest).drop f.encode.length = rest := List.drop_left
  rw [hcons, List.cons_append] at hdec hdrop ⊢
  unfold frames
  rw [List.length_cons, framesLoop, if_neg hpad, hdec]
  dsimp only
  rw [hdrop, framesLoop_fuel server _ rest.length rest (by simp) le_rfl]
  rfl

theorem frames_encode (server : Bool) (fs : List Frame) (hfs : ∀ f ∈ fs, f.Sendable) :
    (frames server (fs.flatMap Frame.encode)).map Prod.fst =
      fs.takeWhile (Frame.allowed server) := by
  induction fs with
  | nil => rfl
  | cons f fs ih =>
    rw [List.flatMap_cons, frames_encode_append server (hfs f List.mem_cons_self)]
    by_cases hok : f.allowed server
    · rw [if_pos hok, List.map_cons, ih fun g hg => hfs g (List.mem_cons_of_mem _ hg),
        List.takeWhile_cons_of_pos hok]
    · rw [if_neg hok, List.takeWhile_cons_of_neg hok, List.map_nil]

/-! ## Fed packets -/

/-- The long header carries the id of the receiving side; the INIT header is not checked. -/
def headerOk (localId : UInt32) (pkt : List UInt8) : Prop :=
  ncHdrInitSize ≤ pkt.length ∧
    (pkt.headD 0 &&& ncPktFlagInit ≠ 0 ∨
      ncHdrFullSize ≤ pkt.length ∧ rd32 (pkt.drop 1) = localId)

instance (localId : UInt32) (pkt : List UInt8) : Decidable (headerOk localId pkt) :=
  inferInstanceAs (Decidable (_ ∧ _))

/-- The bytes behind the header. -/
def packetFrames (pkt : List UInt8) : List UInt8 :=
  pkt.drop (if pkt.headD 0 &&& ncPktFlagInit ≠ 0 then ncHdrInitSize else ncHdrFullSize)

/-- The connection after the header of a packet was accepted. -/
def Conn.heard (c : Conn) (env : Env) (pkt : List UInt8) (src : Option Addr) : Conn :=
  { c with
    peerAddr := feedAddr c (packetFrames pkt) src
    lastRecvMs := env.nowMs pkt.length
    pktsRecv := c.pktsRecv + 1 }

/-- The frames of a packet that `netchan_feed` applies. -/
def fedFrames (c : Conn) (pkt : List UInt8) : List (Frame × Nat) :=
  if headerOk c.localId pkt then frames c.server (packetFrames pkt) else []

theorem netchanFeed_eq (env : Env) (c : Conn) (pkt : List UInt8) (src : Option Addr) :
    (netchanFeed env c pkt src).1 =
      if headerOk c.localId pkt then
        applyFrames env (c.heard env pkt src) (frames c.server (packetFrames pkt))
      else c := by
  by_cases hlen : pkt.length < ncHdrInitSize
  · have hbad : ¬headerOk c.localId pkt := fun h => absurd h.1 (Nat.not_le.2 hlen)
    rw [if_neg hbad]
    simp [netchanFeed, hlen]
  by_cases hinit : pkt.headD 0 &&& ncPktFlagInit ≠ 0
  · have hok : headerOk c.localId pkt := ⟨Nat.not_lt.1 hlen, Or.inl hinit⟩
    rw [if_pos hok]
    simp only [netchanFeed, packetFrames, Conn.heard, hlen, hinit, not_true_eq_false, false_and,
      if_false, if_true, ne_eq, not_false_eq_true]
    exact parseFrames_eq env _ _
  · by_cases hfull : pkt.length < ncHdrFullSize
    · have hbad : ¬headerOk c.localId pkt := by
        rintro ⟨-, h | ⟨h, -⟩⟩
        · exact hinit h
        · omega
      rw [if_neg hbad]
      simp only [netchanFeed, hlen, hinit, hfull, not_false_eq_true, and_self, if_true, if_false]
    · by_cases hid : rd32 (pkt.drop 1) = c.localId
      · have hok : headerOk c.localId pkt :=
          ⟨Nat.not_lt.1 hlen, Or.inr ⟨Nat.not_lt.1 hfull, hid⟩⟩
        rw [if_pos hok]
        simp only [netchanFeed, packetFrames, Conn.heard, hlen, hinit, hfull, hid,
          not_true_eq_false, and_false, if_false, ne_eq]
        exact parseFrames_eq env _ _
      · have hbad : ¬headerOk c.localId pkt := by
          rintro ⟨-, h | ⟨-, h⟩⟩
          · exact hinit h
          · exact hid h
        rw [if_neg hbad]
        simp only [netchanFeed, hlen, hinit, hfull, hid, not_false_eq_true, ne_eq, and_self,
          and_false, if_true, if_false]

theorem netchanFeed_induct {P : Conn → Prop} (env : Env) (c : Conn) (pkt : List UInt8)
    (src : Option Addr) (hheard : P c → P (c.heard env pkt src))
    (hstep : ∀ c', ∀ fn ∈ fedFrames c pkt, P c' → P (fn.1.apply env (env.nowMs fn.2) c'))
    (h : P c) : P (netchanFeed env c pkt src).1 := by
  rw [netchanFeed_eq]
  unfold fedFrames at hstep
  split_ifs with hok
  · rw [if_pos hok] at hstep
    exact applyFrames_induct env _ hstep _ (hheard h)
  · exact h

/-! ## Guarded frames -/

/-- The guard holds of every frame, in the state the frames before it lead to. -/
def FramesOk (G : Conn → Frame → Prop) (env : Env) : Conn → List (Frame × Nat) → Prop
  | _, [] => True
  | c, fn :: fs => G c fn.1 ∧ FramesOk G env (fn.1.apply env (env.nowMs fn.2) c) fs

instance FramesOk.decidable (G : Conn → Frame → Prop) [∀ c f, Decidable (G c f)] (env : Env) :
    (c : Conn) → (fs : List (Frame × Nat)) → Decidable (FramesOk G env c fs)
  | _, [] => isTrue trivial
  | c, fn :: fs =>
    haveI := FramesOk.decidable G env (fn.1.apply env (env.nowMs fn.2) c) fs
    inferInstanceAs (Decidable (_ ∧ _))

theorem applyFrames_guarded {P : Conn → Prop} {G : Conn → Frame → Prop} {env : Env}
    {fs : List (Frame × Nat)} {c : Conn} (hok : FramesOk G env c fs)
    (hstep : ∀ c, ∀ fn ∈ fs, G c fn.1 → P c → P (fn.1.apply env (env.nowMs fn.2) c))
    (h : P c) : P (applyFrames env c fs) := by
  induction fs generalizing c with
  | nil => exact h
  | cons fn fs ih =>
    rw [applyFrames_cons]
    exact ih hok.2 (fun c fn' hfn' => hstep c fn' (List.mem_cons_of_mem _ hfn'))
      (hstep c fn List.mem_cons_self hok.1 h)

/-- The frames of a fed packet meet the guard. -/
def FedOk (G : Conn → Frame → Prop) (c : Conn) (e : Env × Option Addr) (pkt : List UInt8) :
    Prop :=
  FramesOk G e.1 (c.heard e.1 pkt e.2) (fedFrames c pkt)

theorem netchanFeed_guarded {P : Conn → Prop} {G : Conn → Frame → Prop} {c : Conn}
    {e : Env × Option Addr} {pkt : List UInt8} (hok : FedOk G c e pkt)
    (hheard : P c → P (c.heard e.1 pkt e.2))
    (hstep : ∀ c', ∀ fn ∈ fedFrames c pkt, G c' fn.1 → P c' →
      P (fn.1.apply e.1 (e.1.nowMs fn.2) c'))
    (h : P c) : P (netchanFeed e.1 c pkt e.2).1 := by
  rw [netchanFeed_eq]
  unfold FedOk at hok
  unfold fedFrames at hok hstep
  split_ifs with hhead
  · rw [if_pos hhead] at hok hstep
    exact applyFrames_guarded hok hstep (hheard h)
  · exact h

end MechanicalResearcher.NetchanV2
