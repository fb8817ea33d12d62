import MechanicalResearcher.NetchanV2.Packets

/-!
# What a call does to a channel record

`Chan.Moves` lists the changes of a channel record that is in use, each with the
test the code makes before it.  A fed packet, a sent packet and the timers only
make such changes, and so does every other call but a write, a read and the
opening of a channel; an invariant of the queues of a channel is a case split
over them.
-/

namespace MechanicalResearcher.NetchanV2

open Lib Lib.Serial

variable {w : UInt32 → Prop}

/-- The receive ring and its byte count. -/
def Chan.inbox (ch : Chan) : (Nat → RecvEntry) × Nat × Nat × UInt32 :=
  (ch.recvQueue, ch.rqHead, ch.rqTail, ch.recvBuffered)

/-- The send ring, its numbers, its byte count and its window. -/
def Chan.outbox (ch : Chan) : (Nat → Outgoing) × Nat × Nat × UInt16 × UInt32 × UInt32 :=
  (ch.outgoing, ch.outHead, ch.outTail, ch.sendSeq, ch.bytesInFlight, ch.sendWindow)

/-- The record after slot `j` was acknowledged. -/
def Chan.acked (ch : Chan) (j : Nat) : Chan :=
  { ch with
    bytesInFlight := ch.bytesInFlight - UInt32.ofNat (ch.outgoing j).len
    msgsAcked := ch.msgsAcked + 1
    outgoing := Function.update ch.outgoing j (ch.outgoing j).freed }

/-- The record after a window update. -/
def Chan.granted (ch : Chan) (v : UInt32) : Chan :=
  { ch with
    sendWindow := v
    state := if ch.state = .opening then .opened else ch.state }

inductive Chan.Moves (w : UInt32 → Prop) : Chan → Chan → Prop
  /-- Neither queue changes, and a closed channel stays closed. -/
  | other {ch ch' : Chan} : ch'.ident = ch.ident → ch'.inbox = ch.inbox →
      ch'.outbox = ch.outbox → (ch.state = .closed → ch'.state = .closed) → Moves w ch ch'
  /-- `chan_recv_enqueue` took a message. -/
  | enqueue (ch : Chan) (b : Nat) {len : Nat} : (ch.rqTail + 1) % ncRecvQueue ≠ ch.rqHead →
      len ≤ ncMaxMsg → Moves w ch (ch.enqueued b len)
  /-- A fragment was sent, or the message is to be sent again. -/
  | progress (ch : Chan) {j : Nat} {o : Outgoing} : o.msg = (ch.outgoing j).msg →
      Moves w ch { ch with outgoing := Function.update ch.outgoing j o }
  /-- The last fragment of an unreliable message was sent. -/
  | release (ch : Chan) (j : Nat) : ch.type = netchanUnreliable →
      Moves w ch { ch with outgoing := Function.update ch.outgoing j (ch.outgoing j).freed }
  | ack (ch : Chan) {j : Nat} : j < ncOutgoingSlots → (ch.outgoing j).active = true →
      Moves w ch (ch.acked j)
  /-- The head of the send ring moves over an idle slot. -/
  | pop (ch : Chan) : ch.outHead ≠ ch.outTail → (ch.outgoing ch.outHead).active = false →
      Moves w ch { ch with outHead := (ch.outHead + 1) % ncOutgoingSlots }
  /-- A window that `w` allows was granted, and an opening channel is open. -/
  | window (ch : Chan) {v : UInt32} : w v → Moves w ch (ch.granted v)
  | trans {ch ch' ch'' : Chan} : Moves w ch ch' → Moves w ch' ch'' → Moves w ch ch''

theorem Chan.Moves.closed {ch ch' : Chan} (h : Chan.Moves w ch ch') (hclosed : ch.state = .closed) :
    ch'.state = .closed := by
  induction h with
  | other hident hin hout hstate => exact hstate hclosed
  | window ch hw => simp [Chan.granted, hclosed]
  | trans h h' ih ih' => exact ih' (ih hclosed)
  | _ => exact hclosed

/-- Every channel record came from `s` to `s'` by such changes. -/
structure Core.Moves (w : UInt32 → Prop) (s s' : Core) : Prop where
  used : s'.chanUsed = s.chanUsed
  cfg : s'.cfg = s.cfg
  move : ∀ k, Chan.Moves w (s.chanPool k) (s'.chanPool k)

namespace Core.Moves

variable {s s' s'' : Core} {k : Nat}

theorem refl (s : Core) : Moves w s s := ⟨rfl, rfl, fun _ => .other rfl rfl rfl id⟩

theorem of_eq (h : s' = s) : Moves w s s' := by
  rw [h]
  exact refl s

theorem trans (h : Moves w s s') (h' : Moves w s' s'') : Moves w s s'' :=
  ⟨h'.used.trans h.used, h'.cfg.trans h.cfg, fun k => (h.move k).trans (h'.move k)⟩

theorem of_touch (ht : Core.Touch k s s') (hm : Chan.Moves w (s.chanPool k) (s'.chanPool k)) :
    Moves w s s' := by
  refine ⟨ht.chanUsed, ht.cfg, fun j => ?_⟩
  by_cases hj : j = k
  · rw [hj]
    exact hm
  · rw [ht.other j hj]
    exact .other rfl rfl rfl id

theorem modChan {f : Chan → Chan} (ht : Core.Touch k s (s.modChan k f))
    (hin : (f (s.chanPool k)).inbox = (s.chanPool k).inbox)
    (hout : (f (s.chanPool k)).outbox = (s.chanPool k).outbox)
    (hstate : (s.chanPool k).state = .closed → (f (s.chanPool k)).state = .closed) :
    Moves w s (s.modChan k f) := by
  have hchan : (s.modChan k f).chanPool k = f (s.chanPool k) := Function.update_self ..
  have hident := ht.ident
  refine of_touch ht ?_
  rw [hchan] at hident ⊢
  exact .other hident hin hout hstate

theorem poolPut (s : Core) (b : Option Nat) : Moves w s (poolPut s b) := by
  refine of_touch (Core.Touch.poolPut 0 s b) ?_
  rw [poolPut_chanPool]
  exact .other rfl rfl rfl id

theorem mark (s : Core) (m : Mark) : Moves w s (s.mark m) :=
  ⟨rfl, rfl, fun _ => .other rfl rfl rfl id⟩

theorem setOut (s : Core) (k j : Nat) {o : Outgoing}
    (ho : o.msg = ((s.chanPool k).outgoing j).msg) : Moves w s (s.setOut k j o) := by
  refine of_touch (setOut_touch s k j o) ?_
  rw [setOut_chan]
  exact .progress _ ho

end Core.Moves

/-! ## Data -/

theorem chanRecvEnqueue_moves (s : Core) (k : Nat) (data : List UInt8) :
    Core.Moves w s (chanRecvEnqueue s k data).1 := by
  refine .of_touch (chanRecvEnqueue_touch s k data) ?_
  rw [chanRecvEnqueue_chan]
  split_ifs with hcan
  · exact .enqueue _ _ hcan.1 hcan.2.1
  · exact .other rfl rfl rfl id

theorem bumpRecvSeq_moves (s : Core) (k : Nat) : Core.Moves w s (bumpRecvSeq s k) :=
  (Core.Moves.modChan (Core.Touch.modChan s k ⟨rfl, rfl, rfl, rfl, rfl⟩) rfl rfl id).trans
    (Core.Moves.mark _ _)

theorem reorderRelease_moves (s : Core) (k slot : Nat) :
    Core.Moves w s (reorderRelease s k slot) := by
  rw [reorderRelease_eq]
  exact (Core.Moves.poolPut s _).trans
    (Core.Moves.modChan (Core.Touch.modChan _ k ⟨rfl, rfl, rfl, rfl, rfl⟩) rfl rfl id)

theorem reorderStore_moves (s : Core) (k : Nat) (seq : UInt16) (data : List UInt8) :
    Core.Moves w s (reorderStore s k seq data) := by
  refine .of_touch (reorderStore_touch s k seq data) ?_
  rw [reorderStore_eq]
  split_ifs
  · simp only [Core.takeInto, Function.update_self]
    exact .other rfl rfl rfl id
  · exact .other rfl rfl rfl id

theorem deliverCore_moves (s : Core) (k : Nat) : Core.Moves w s (deliverCore s k) := by
  simp only [deliverCore]
  exact ((chanRecvEnqueue_moves s k _).trans (reorderRelease_moves _ k _)).trans
    (bumpRecvSeq_moves _ k)

theorem deliverLoop_moves (fuel : Nat) (c : Conn) (k : Nat) :
    Core.Moves w c.toCore (deliverLoop fuel c k).toCore := by
  refine deliverLoop_rule (P := fun d => Core.Moves w c.toCore d.toCore) (fun d _ h => ?_) fuel
    (Core.Moves.refl _)
  rw [deliverOne_toCore]
  exact h.trans (deliverCore_moves d.toCore k)

theorem deliverReliable_moves (c : Conn) (k : Nat) (seq : UInt16) (data : List UInt8) :
    Core.Moves w c.toCore (deliverReliable c k seq data).toCore := by
  simp only [deliverReliable]
  split_ifs
  · have hfirst : Core.Moves w c.toCore (bumpRecvSeq (chanRecvEnqueue c.toCore k data).1 k) :=
      (chanRecvEnqueue_moves c.toCore k data).trans (bumpRecvSeq_moves _ k)
    have hrest := deliverLoop_moves (w := w) ncReorderSlots (Conn.lift (evPush
      (c.lift fun s => (chanRecvEnqueue s k data).1) .data (some k)) fun s => bumpRecvSeq s k) k
    rw [Conn.lift_toCore, evPush_toCore, Conn.lift_toCore] at hrest
    exact hfirst.trans hrest
  · exact reorderStore_moves _ _ _ _
  · exact Core.Moves.refl _

theorem fragReceive_moves {s : Core} {k : Nat} (h : s.Inv) (hk : s.chanUsed k = true)
    (seq : UInt16) (fragIdx : Nat) {fragTotal : Nat} (htotal : 1 < fragTotal)
    (payload : List UInt8) :
    Core.Moves w s (fragReceive s k seq fragIdx fragTotal payload).1 := by
  refine .of_touch (fragReceive_spec h hk seq fragIdx htotal payload).2.1 ?_
  obtain ⟨frags, hfrags⟩ := fragReceive_chan s k seq fragIdx fragTotal payload
  rw [hfrags]
  exact .other rfl rfl rfl id

theorem fragFree_moves (s : Core) (k i : Nat) : Core.Moves w s (fragFree s k i) := by
  refine .of_touch (fragFree_touch s k i) ?_
  rw [fragFree_chan]
  exact .other rfl rfl rfl id

theorem setNeedAck_moves (s : Core) (k : Nat) : Core.Moves w s (setNeedAck s k) :=
  Core.Moves.modChan (setNeedAck_touch s k) rfl rfl id

theorem acceptData_moves {c : Conn} (h : c.toCore.Good) (id : UInt8) (seq : UInt16)
    (fragIdx fragTotal : Nat) (payload : List UInt8) :
    Core.Moves w c.toCore (acceptData c id seq fragIdx fragTotal payload).toCore := by
  unfold acceptData
  cases hid : c.channels id with
  | none => exact Core.Moves.refl _
  | some k =>
    obtain ⟨-, hk, -⟩ := h.inv.table id k hid
    dsimp only
    split_ifs
    · exact Core.Moves.refl _
    · unfold acceptDataUnreliable
      split_ifs with htotal
      · rw [evPush_toCore, Conn.lift_toCore]
        exact chanRecvEnqueue_moves _ _ _
      · have hfrag : Core.Moves w c.toCore _ :=
          fragReceive_moves h.inv hk seq fragIdx (Nat.not_le.1 htotal) payload
        generalize fragReceive c.toCore k seq fragIdx fragTotal payload = res at hfrag
        obtain ⟨s, _ | ⟨i, pos⟩⟩ := res
        · exact hfrag
        · rw [Conn.lift_toCore, evPush_toCore]
          exact (hfrag.trans (chanRecvEnqueue_moves _ _ _)).trans (fragFree_moves _ _ _)
    · simp only [acceptDataReliable, Conn.lift_toCore]
      split_ifs with htotal
      · exact (deliverReliable_moves c k seq payload).trans (setNeedAck_moves _ k)
      · have hfrag : Core.Moves w c.toCore _ :=
          fragReceive_moves h.inv hk seq fragIdx (Nat.not_le.1 htotal) payload
        generalize fragReceive c.toCore k seq fragIdx fragTotal payload = res at hfrag
        obtain ⟨s, _ | ⟨i, pos⟩⟩ := res
        · exact hfrag.trans (setNeedAck_moves _ k)
        · rw [Conn.lift_toCore]
          exact ((hfrag.trans (deliverReliable_moves { c with toCore := s } k seq _)).trans
            (fragFree_moves _ _ _)).trans (setNeedAck_moves _ k)

/-! ## Acknowledgements -/

theorem ackSlot_moves (k : Nat) (ackedSeq : UInt16) (s : Core) {i : Nat}
    (hi : i < ncOutgoingSlots) : Core.Moves w s (ackSlot k ackedSeq s i) := by
  refine .of_touch (ackSlot_op ackedSeq i).touch ?_
  simp only [ackSlot]
  split_ifs with hcond
  · simp only [Core.modChan, poolPut_chanPool, Function.update_self]
    exact .ack _ hi hcond.1
  · exact .other rfl rfl rfl id

theorem foldl_ackSlot_moves (k : Nat) (ackedSeq : UInt16) (is : List Nat)
    (his : ∀ i ∈ is, i < ncOutgoingSlots) (s : Core) :
    Core.Moves w s (is.foldl (ackSlot k ackedSeq) s) := by
  induction is generalizing s with
  | nil => exact Core.Moves.refl s
  | cons i is ih =>
    exact (ackSlot_moves k ackedSeq s (his i List.mem_cons_self)).trans
      (ih (fun j hj => his j (List.mem_cons_of_mem _ hj)) _)

theorem advanceHeadLoop_moves (fuel : Nat) (ch : Chan) :
    Chan.Moves w ch (advanceHeadLoop fuel ch) := by
  induction fuel generalizing ch with
  | zero => exact .other rfl rfl rfl id
  | succ fuel ih =>
    unfold advanceHeadLoop
    split_ifs with hcond
    · exact (Chan.Moves.pop ch hcond.1 hcond.2).trans (ih _)
    · exact .other rfl rfl rfl id

theorem advanceHead_moves (s : Core) (k : Nat) : Core.Moves w s (advanceHead s k) := by
  obtain ⟨head, heq⟩ := advanceHeadLoop_head ncOutgoingSlots (s.chanPool k)
  refine .of_touch (Core.Touch.modChan s k ?_) ?_
  · rw [heq]
    exact ⟨rfl, rfl, rfl, rfl, rfl⟩
  · simp only [advanceHead, Core.modChan, Function.update_self]
    exact advanceHeadLoop_moves _ _

theorem acceptAck_moves (c : Conn) (id : UInt8) (ackedSeq : UInt16) :
    Core.Moves w c.toCore (acceptAck c id ackedSeq).toCore := by
  unfold acceptAck
  cases c.channels id with
  | none => exact Core.Moves.refl _
  | some k =>
    dsimp only
    split_ifs
    · exact Core.Moves.refl _
    · exact (foldl_ackSlot_moves k ackedSeq _ (fun i hi => List.mem_range.1 hi) _).trans
        (advanceHead_moves _ k)

/-! ## Frames -/

theorem acceptWindowUpdate_moves (c : Conn) (id : UInt8) {window : UInt32} (hw : w window) :
    Core.Moves w c.toCore (acceptWindowUpdate c id window).toCore := by
  unfold acceptWindowUpdate
  cases c.channels id with
  | none => exact Core.Moves.refl _
  | some k =>
    dsimp only
    split_ifs
    · have ht := Core.Touch.modChan c.toCore k (f := fun ch => ch.granted window)
        ⟨rfl, rfl, rfl, rfl, rfl⟩
      have hchan : (c.modChan k fun ch => ch.granted window).chanPool k =
          (c.chanPool k).granted window := Function.update_self ..
      exact Core.Moves.of_touch ht (hchan ▸ .window _ hw)
    · exact Core.Moves.refl _

theorem Frame.apply_moves (env : Env) (now : UInt32) {c : Conn} (h : c.toCore.Good)
    (f : Frame) (hw : ∀ id window, f = .windowUpdate id window → w window) :
    Core.Moves w c.toCore (f.apply env now c).toCore ∨
      Core.Opens c.toCore (f.apply env now c).toCore := by
  cases f with
  | channelOpen id type dir ct =>
    rcases acceptChannelOpen_opens c id type.toNat dir.toNat ct with heq | hopen
    · exact Or.inl (Core.Moves.of_eq heq)
    · exact Or.inr hopen
  | connectInit clientId version =>
    simp only [apply, acceptConnectInit]
    split_ifs <;> exact Or.inl (Core.Moves.refl _)
  | connectAccept serverId version idle =>
    exact Or.inl (Core.Moves.of_eq (by simp [apply, acceptConnectAccept]))
  | connectRedirect newId addr =>
    exact Or.inl (Core.Moves.of_eq (by simp [apply, evPushRedirect]))
  | disconnect reason => exact Or.inl (Core.Moves.of_eq (by simp [apply]))
  | ping opaqueId => exact Or.inl (Core.Moves.of_eq (by simp [apply, ctrlPong]))
  | pong opaqueId =>
    simp only [apply, acceptPong]
    split_ifs <;> exact Or.inl (Core.Moves.refl _)
  | channelClose id error =>
    simp only [apply, acceptChannelClose]
    cases c.channels id with
    | none => exact Or.inl (Core.Moves.refl _)
    | some k =>
      simp only [evPush_toCore, Conn.lift_toCore]
      exact Or.inl (Core.Moves.modChan
        (Core.Touch.modChan _ k ⟨rfl, rfl, rfl, rfl, rfl⟩) rfl rfl fun _ => rfl)
  | data id seq fragIdx fragTotal payload => exact Or.inl (acceptData_moves h id seq _ _ payload)
  | ack id seq => exact Or.inl (acceptAck_moves c id seq)
  | windowUpdate id window => exact Or.inl (acceptWindowUpdate_moves c id (hw id window rfl))

/-! ## Packet output -/

theorem flushAck_moves (mtu : Nat) (c : Conn) (k : Nat) (out : List UInt8) :
    Core.Moves w c.toCore (flushAck mtu c k out).1.toCore := by
  rw [flushAck_eq]
  split_ifs
  · have ht := Core.Touch.modChan c.toCore k (f := fun ch => { ch with needAck := false })
      ⟨rfl, rfl, rfl, rfl, rfl⟩
    exact (Core.Moves.modChan ht rfl rfl id).trans (Core.Moves.mark _ _)
  · exact Core.Moves.refl _

theorem flushWindow_moves (mtu : Nat) (c : Conn) (k : Nat) (out : List UInt8) :
    Core.Moves w c.toCore (flushWindow mtu c k out).1.toCore := by
  rw [flushWindow_eq]
  split_ifs
  · have ht := Core.Touch.modChan c.toCore k
      (f := fun ch => { ch with needWindowUpdate := false }) ⟨rfl, rfl, rfl, rfl, rfl⟩
    exact Core.Moves.modChan ht rfl rfl id
  · exact Core.Moves.refl _

theorem flushAcks_moves (mtu : Nat) (is : List Nat) (c : Conn) (out : List UInt8) :
    Core.Moves w c.toCore (flushAcks mtu is c out).1.toCore :=
  flushAcks_rule (P := fun d _ => Core.Moves w c.toCore d.toCore) (fun d k _ out _ h =>
    (h.trans (flushAck_moves mtu d k out)).trans (flushWindow_moves mtu _ k _)) is
    (Core.Moves.refl _)

theorem sentFragment_moves (now : UInt32) (s : Core) (k j : Nat) :
    Core.Moves w s (sentFragment now s k j) := by
  have hset : Core.Moves w s (s.setOut k j (((s.chanPool k).outgoing j).sent now)) :=
    Core.Moves.setOut s k j rfl
  rw [sentFragment_eq]
  split_ifs with hlast
  · refine hset.trans (Core.Moves.trans ?_ (advanceHead_moves _ k))
    have hslot : ((s.setOut k j (((s.chanPool k).outgoing j).sent now)).chanPool k).outgoing j =
        ((s.chanPool k).outgoing j).sent now := by
      simp [setOut_chan]
    have htype : ((s.setOut k j (((s.chanPool k).outgoing j).sent now)).chanPool k).type =
        netchanUnreliable := by
      rw [setOut_chan]
      exact hlast.2
    generalize s.setOut k j (((s.chanPool k).outgoing j).sent now) = s1 at hslot htype ⊢
    refine (Core.Moves.poolPut s1 _).trans (.of_touch (setOut_touch _ k j _) ?_)
    rw [setOut_chan, poolPut_chanPool, ← hslot]
    exact .release _ j htype
  · exact hset

theorem sendData_moves (env : Env) (mtu : Nat) (is : List Nat) (c : Conn) (out : List UInt8) :
    Core.Moves w c.toCore (sendData env mtu is c out).1.toCore :=
  sendData_rule (P := fun d _ => Core.Moves w c.toCore d.toCore)
    (fun d k _ j now _ _ _ _ _ h => h.trans (sentFragment_moves now d.toCore k j)) is
    (Core.Moves.refl _)

theorem netchanSendNext_moves (env : Env) (c : Conn) (buflen : Nat) :
    Core.Moves w c.toCore (netchanSendNext env c buflen).1.toCore := by
  rw [netchanSendNext_eq]
  split_ifs
  · exact Core.Moves.refl _
  · generalize min c.cfg.mtu.toNat buflen = mtu
    have hacks := flushAcks_moves (w := w) mtu (List.range ncMaxChannels) (packetCtrl mtu c).1
      (packetCtrl mtu c).2
    rw [packetCtrl_toCore] at hacks
    exact hacks.trans (sendData_moves env mtu (List.range ncMaxChannels) (packetAcks mtu c).1
      (packetAcks mtu c).2)

/-! ## Timers -/

theorem requeue_moves (s : Core) (k j : Nat) (now : UInt32) :
    Core.Moves w s (s.requeue k j now) := by
  have hset : Core.Moves w s (s.setOut k j (((s.chanPool k).outgoing j).requeued now)) :=
    Core.Moves.setOut s k j rfl
  exact hset.trans
    (Core.Moves.modChan (Core.Touch.modChan _ k ⟨rfl, rfl, rfl, rfl, rfl⟩) rfl rfl id)

theorem serviceSlots_moves (now : UInt32) (k : Nat) (js : List Nat) (c : Conn) (nextMs : Int) :
    Core.Moves w c.toCore (serviceSlots now k js c nextMs).1.toCore := by
  refine serviceSlots_rule (P := fun d => Core.Moves w c.toCore d.toCore) (fun d h => ?_)
    (fun d j _ _ h => h.trans (requeue_moves d.toCore k j now)) (Core.Moves.refl _) nextMs
  rw [evPush_toCore, Conn.lift_toCore]
  exact h.trans (Core.Moves.modChan (Core.Touch.modChan _ k ⟨rfl, rfl, rfl, rfl, rfl⟩) rfl rfl
    fun _ => rfl)

theorem serviceChannels_moves (now : UInt32) (is : List Nat) (c : Conn) (nextMs : Int) :
    Core.Moves w c.toCore (serviceChannels now is c nextMs).1.toCore :=
  serviceChannels_rule (P := fun d => Core.Moves w c.toCore d.toCore) (fun d k _ ms _ h =>
    h.trans (serviceSlots_moves now k _ d ms)) is (Core.Moves.refl _) nextMs

theorem netchanService_moves (env : Env) (c : Conn) (now : UInt32) :
    Core.Moves w c.toCore (netchanService env c now).1.toCore := by
  rcases netchanService_cases env c now with heq | ⟨c', nextMs, hcore, heq⟩
  · exact Core.Moves.of_eq heq
  · rw [heq, ← hcore]
    exact serviceChannels_moves now _ c' nextMs

/-! ## Calls -/

theorem netchanChanClose_moves (c : Conn) (k : Nat) :
    Core.Moves w c.toCore (netchanChanClose c k).toCore := by
  unfold netchanChanClose
  split_ifs with hstate
  · exact Core.Moves.refl _
  · rw [Conn.lift_toCore, ctrlChannelClose, ctrlReserve_toCore]
    exact Core.Moves.modChan (Core.Touch.modChan _ k ⟨rfl, rfl, rfl, rfl, rfl⟩) rfl rfl
      fun hclosed => absurd (Or.inr hclosed) hstate

def Act.isUser : Act → Bool
  | .chanWrite _ _ | .chanRead _ _ => true
  | _ => false

theorem Conn.step_moves (c : Conn) {a : Act} (hfeed : a.isFeed = false)
    (huser : a.isUser = false) :
    Core.Moves w c.toCore (c.step a).toCore ∨ Core.Opens c.toCore (c.step a).toCore := by
  cases a with
  | connect env addr =>
    simp only [step, netchanConnect]
    split_ifs <;> exact Or.inl (Core.Moves.of_eq (by simp [ctrlConnectInit]))
  | accept =>
    simp only [step, netchanAccept]
    split_ifs <;> exact Or.inl (Core.Moves.of_eq (by simp [ctrlConnectAccept]))
  | feed env pkt src => cases hfeed
  | sendNext env buflen => exact Or.inl (netchanSendNext_moves env c buflen)
  | service env now => exact Or.inl (netchanService_moves env c now)
  | chanOpen type dir contentType =>
    rcases netchanChanOpen_opens c type dir contentType with heq | hopen
    · exact Or.inl (Core.Moves.of_eq heq)
    · exact Or.inr hopen
  | chanClose k =>
    simp only [step]
    split_ifs
    · exact Or.inl (netchanChanClose_moves c k)
    · exact Or.inl (Core.Moves.refl _)
  | chanWrite k data => cases huser
  | chanRead k buflen => cases huser
  | poll =>
    simp only [step, netchanPoll]
    split_ifs <;> exact Or.inl (Core.Moves.refl _)

/-! ## Invariants of the channels in use -/

def Core.AllChans (I : Cfg → Chan → Prop) (s : Core) : Prop :=
  ∀ k, s.chanUsed k = true → I s.cfg (s.chanPool k)

theorem Core.AllChans.step {I : Cfg → Chan → Prop}
    (hblank : ∀ cfg window ch, ch.Blank window → I cfg ch)
    (hmove : ∀ cfg ch ch', Chan.Moves w ch ch' → I cfg ch → I cfg ch') {s s' : Core}
    (h : s.AllChans I) (hs : Core.Moves w s s' ∨ Core.Opens s s') : s'.AllChans I := by
  intro k hk
  rcases hs with hm | ⟨k₀, ch, hfree, -, hb, rfl⟩
  · rw [hm.cfg]
    exact hmove _ _ _ (hm.move k) (h k (hm.used ▸ hk))
  · by_cases hkk : k = k₀
    · rw [hkk]
      simpa [Core.addChan] using hblank s.cfg _ ch hb
    · simp only [Core.addChan, Function.update_of_ne hkk] at hk ⊢
      exact h k hk

theorem Core.AllChans.user {I : Cfg → Chan → Prop} {c : Conn} (h : c.toCore.AllChans I) {a : Act}
    (huser : a.isUser = true)
    (hwrite : ∀ k data, a = .chanWrite k data → c.chanUsed k = true →
      I c.cfg ((chanWrite c.toCore k data).1.chanPool k))
    (hread : ∀ k buflen, a = .chanRead k buflen → c.chanUsed k = true →
      I c.cfg ((chanRead c.toCore k buflen).1.chanPool k)) : (c.step a).toCore.AllChans I := by
  have htouch : ∀ {k s'}, Core.Touch k c.toCore s' → I c.cfg (s'.chanPool k) → s'.AllChans I := by
    intro k s' ht hk j hj
    rw [ht.cfg]
    by_cases hjk : j = k
    · rw [hjk]
      exact hk
    · rw [ht.other j hjk]
      exact h j (ht.chanUsed ▸ hj)
  cases a with
  | chanWrite k data =>
    simp only [Conn.step]
    split_ifs with hk
    · exact htouch (chanWrite_touch c.toCore k data) (hwrite k data rfl hk)
    · exact h
  | chanRead k buflen =>
    simp only [Conn.step]
    split_ifs with hk
    · exact htouch (chanRead_touch c.toCore k buflen) (hread k buflen rfl hk)
    · exact h
  | _ => cases huser

theorem chanRead_outbox (s : Core) (k buflen : Nat) :
    ((chanRead s k buflen).1.chanPool k).ident = (s.chanPool k).ident ∧
      ((chanRead s k buflen).1.chanPool k).outbox = (s.chanPool k).outbox := by
  rcases chanRead_cases s k buflen with ⟨r, heq⟩ | ⟨-, -, e, data, -, -, heq⟩
  · rw [heq]
    exact ⟨rfl, rfl⟩
  · simp only [heq, Core.mark, Core.modChan, poolPut_chanPool, Function.update_self]
    exact ⟨rfl, rfl⟩

section Invariants

variable {I : Cfg → Chan → Prop} (hblank : ∀ cfg window ch, ch.Blank window → I cfg ch)
  (hmove : ∀ cfg ch ch', Chan.Moves (fun _ => True) ch ch' → I cfg ch → I cfg ch')

include hblank hmove

theorem Core.AllChans.feed {c : Conn} (h : c.toCore.AllChans I) (hgood : c.toCore.Good)
    (env : Env) (pkt : List UInt8) (src : Option Addr) :
    (netchanFeed env c pkt src).1.toCore.AllChans I := by
  have hboth := netchanFeed_induct env c pkt src
    (P := fun c => c.toCore.Good ∧ c.toCore.AllChans I) id
    (fun c' fn _ hc => ⟨fn.1.apply_good env _ hc.1, Core.AllChans.step hblank hmove hc.2
      (fn.1.apply_moves env _ hc.1 fun _ _ _ => trivial)⟩) ⟨hgood, h⟩
  exact hboth.2

theorem Core.AllChans.call {c : Conn} (h : c.toCore.AllChans I) (hgood : c.toCore.Good)
    {a : Act} (huser : a.isUser = false) : (c.step a).toCore.AllChans I := by
  cases hfeed : a.isFeed with
  | false => exact Core.AllChans.step hblank hmove h (c.step_moves hfeed huser)
  | true =>
    cases a with
    | feed env pkt src => exact Core.AllChans.feed hblank hmove h hgood env pkt src
    | _ => cases hfeed

end Invariants

end MechanicalResearcher.NetchanV2
