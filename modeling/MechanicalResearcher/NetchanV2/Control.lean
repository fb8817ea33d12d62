import MechanicalResearcher.NetchanV2.Halves
import MechanicalResearcher.NetchanV2.Lifecycle

/-!
# The control queue

Control frames wait in `ctrl_buf` as bytes.  The calls of a connection only
append whole frames to it (`Conn.Queues`), and `netchan_send_next` takes bytes
from its front, so as long as it stops between two frames the queue is a
sequence of frames.
-/

namespace MechanicalResearcher.NetchanV2

open Lib.BigEndian

/-- A frame that is queued as bytes, in contrast to DATA and ACK frames. -/
def Frame.isCtrl : Frame → Bool
  | data _ _ _ _ _ | ack _ _ => false
  | _ => true

/-- A window that the frame grants is at most `w`. -/
def Frame.Offers (w : UInt32) : Frame → Prop
  | windowUpdate _ window => window ≤ w
  | _ => True

/-- The control frames that wait in `ctrl_buf`. -/
def CtrlFrames (buf : List UInt8) (gs : List Frame) : Prop :=
  buf = gs.flatMap Frame.encode ∧ ∀ g ∈ gs, g.Sendable ∧ g.isCtrl = true

/-- From `c` to `c'` some control frames were queued, all with the property `Q`. -/
def Conn.Queues (Q : Frame → Prop) (c c' : Conn) : Prop :=
  ∃ gs bytes, CtrlFrames bytes gs ∧ (∀ g ∈ gs, Q g) ∧ c'.ctrlBuf = c.ctrlBuf ++ bytes

theorem CtrlFrames.append {b b' : List UInt8} {gs gs' : List Frame} (h : CtrlFrames b gs)
    (h' : CtrlFrames b' gs') : CtrlFrames (b ++ b') (gs ++ gs') := by
  refine ⟨by rw [h.1, h'.1, List.flatMap_append], fun g hg => ?_⟩
  rcases List.mem_append.1 hg with hg | hg
  · exact h.2 g hg
  · exact h'.2 g hg

namespace Conn.Queues

variable {Q Q' : Frame → Prop} {c c' c'' : Conn}

theorem of_eq (h : c'.ctrlBuf = c.ctrlBuf) : Queues Q c c' :=
  ⟨[], [], ⟨rfl, by simp⟩, by simp, by rw [h, List.append_nil]⟩

theorem refl (Q : Frame → Prop) (c : Conn) : Queues Q c c := of_eq rfl

theorem trans (h : Queues Q c c') (h' : Queues Q c' c'') : Queues Q c c'' := by
  obtain ⟨gs, b, hgs, hQ, hb⟩ := h
  obtain ⟨gs', b', hgs', hQ', hb'⟩ := h'
  refine ⟨gs ++ gs', b ++ b', hgs.append hgs', fun g hg => ?_, by
    rw [hb', hb, List.append_assoc]⟩
  rcases List.mem_append.1 hg with hg | hg
  · exact hQ g hg
  · exact hQ' g hg

theorem reserve (c : Conn) {g : Frame} (hQ : Q g) (hg : g.Sendable) (hctrl : g.isCtrl = true) :
    Queues Q c (ctrlReserve c g.encode) := by
  unfold ctrlReserve
  split_ifs
  · exact refl Q c
  · exact ⟨[g], g.encode, ⟨by simp, by simp [hg, hctrl]⟩, by simp [hQ], rfl⟩

theorem mono (h : Queues Q c c') (hQ : ∀ g, Q g → Q' g) : Queues Q' c c' := by
  obtain ⟨gs, b, hgs, hgsQ, hb⟩ := h
  exact ⟨gs, b, hgs, fun g hg => hQ g (hgsQ g hg), hb⟩

theorem frames (h : Queues Q c c') {gs : List Frame} (hc : CtrlFrames c.ctrlBuf gs)
    (hQ : ∀ g ∈ gs, Q g) : ∃ gs', CtrlFrames c'.ctrlBuf gs' ∧ ∀ g ∈ gs', Q g := by
  obtain ⟨gs', b, hgs', hQ', hb⟩ := h
  refine ⟨gs ++ gs', hb ▸ hc.append hgs', fun g hg => ?_⟩
  rcases List.mem_append.1 hg with hg | hg
  · exact hQ g hg
  · exact hQ' g hg

end Conn.Queues

section Reserve

variable {Q : Frame → Prop}

theorem ctrlConnectInit_queues (c : Conn) (hQ : Q (.connectInit c.localId ncVersion)) :
    Conn.Queues Q c (ctrlConnectInit c) :=
  Conn.Queues.reserve c hQ trivial rfl

theorem ctrlConnectAccept_queues (c : Conn)
    (hQ : Q (.connectAccept c.localId ncVersion c.cfg.idleTimeoutMs)) :
    Conn.Queues Q c (ctrlConnectAccept c) :=
  Conn.Queues.reserve c hQ trivial rfl

theorem ctrlPing_queues (c : Conn) (opaqueId : UInt32) (hQ : Q (.ping opaqueId)) :
    Conn.Queues Q c (ctrlPing c opaqueId) :=
  Conn.Queues.reserve c hQ trivial rfl

theorem ctrlPong_queues (c : Conn) (opaqueId : UInt32) (hQ : Q (.pong opaqueId)) :
    Conn.Queues Q c (ctrlPong c opaqueId) :=
  Conn.Queues.reserve c hQ trivial rfl

theorem ctrlChannelOpen_queues (c : Conn) (ch : Chan)
    (hQ : Q (.channelOpen ch.id (UInt8.ofNat ch.type) (UInt8.ofNat ch.dir)
      (ch.contentType.take 63))) : Conn.Queues Q c (ctrlChannelOpen c ch) := by
  refine Conn.Queues.reserve c hQ ?_ rfl
  have hlen := List.length_take_le 63 ch.contentType
  exact lt_of_le_of_lt hlen (by decide)

theorem ctrlChannelClose_queues (c : Conn) (id : UInt8) (error : UInt16)
    (hQ : Q (.channelClose id error)) : Conn.Queues Q c (ctrlChannelClose c id error) :=
  Conn.Queues.reserve c hQ trivial rfl

theorem ctrlWindowUpdate_queues (c : Conn) (id : UInt8) (window : UInt32)
    (hQ : Q (.windowUpdate id window)) : Conn.Queues Q c (ctrlWindowUpdate c id window) :=
  Conn.Queues.reserve c hQ trivial rfl

end Reserve

@[simp] theorem evStore_ctrlBuf (c : Conn) (e : Event) : (evStore c e).ctrlBuf = c.ctrlBuf := by
  simp only [evStore]
  split_ifs <;> rfl

@[simp] theorem evPush_ctrlBuf (c : Conn) (t : EvType) (ch : Option Nat) :
    (evPush c t ch).ctrlBuf = c.ctrlBuf := evStore_ctrlBuf _ _

@[simp] theorem lift_ctrlBuf (c : Conn) (f : Core → Core) : (c.lift f).ctrlBuf = c.ctrlBuf := rfl

@[simp] theorem deliverOne_ctrlBuf (c : Conn) (k : Nat) :
    (deliverOne c k).ctrlBuf = c.ctrlBuf := by
  simp [deliverOne]

@[simp] theorem deliverLoop_ctrlBuf (fuel : Nat) (c : Conn) (k : Nat) :
    (deliverLoop fuel c k).ctrlBuf = c.ctrlBuf :=
  deliverLoop_rule (P := fun d => d.ctrlBuf = c.ctrlBuf)
    (fun d _ h => (deliverOne_ctrlBuf d k).trans h) fuel rfl

@[simp] theorem deliverReliable_ctrlBuf (c : Conn) (k : Nat) (seq : UInt16) (data : List UInt8) :
    (deliverReliable c k seq data).ctrlBuf = c.ctrlBuf := by
  simp only [deliverReliable]
  split_ifs <;> simp [chanDeliverReordered]

theorem acceptData_ctrlBuf (c : Conn) (id : UInt8) (seq : UInt16) (fragIdx fragTotal : Nat)
    (payload : List UInt8) :
    (acceptData c id seq fragIdx fragTotal payload).ctrlBuf = c.ctrlBuf := by
  unfold acceptData
  split
  · rfl
  · split_ifs
    · rfl
    · unfold acceptDataUnreliable
      split_ifs
      · simp
      · split <;> simp
    · unfold acceptDataReliable
      split_ifs
      · simp
      · split <;> simp

theorem serviceSlots_ctrlBuf (now : UInt32) (k : Nat) (js : List Nat) (c : Conn) (nextMs : Int) :
    (serviceSlots now k js c nextMs).1.ctrlBuf = c.ctrlBuf :=
  serviceSlots_rule (P := fun d => d.ctrlBuf = c.ctrlBuf)
    (fun d h => by rw [evPush_ctrlBuf, lift_ctrlBuf, h])
    (fun d _ _ _ h => by rw [lift_ctrlBuf, h]) rfl nextMs

theorem serviceChannels_ctrlBuf (now : UInt32) (is : List Nat) (c : Conn) (nextMs : Int) :
    (serviceChannels now is c nextMs).1.ctrlBuf = c.ctrlBuf :=
  serviceChannels_rule (P := fun d => d.ctrlBuf = c.ctrlBuf)
    (fun _ _ _ _ _ h => by rw [serviceSlots_ctrlBuf, h]) is rfl nextMs

theorem chanNew_window {s s' : Core} {k : Nat} {id : UInt8} {type dir : Nat} {role : Role}
    {ct : Option (List UInt8)} (h : chanNew s id type dir role ct = (s', some k)) :
    (s'.chanPool k).recvWindow = s.cfg.chanWindow := by
  rcases chanNew_cases s id type dir role ct with heq | ⟨k', -, -, heq⟩
  · rw [heq] at h
    simp at h
  · rw [heq] at h
    simp only [Prod.mk.injEq, Option.some.injEq] at h
    obtain ⟨rfl, rfl⟩ := h
    simp [Core.addChan, Chan.fresh]

/-- Frames are answered by other frames than CONNECT_ACCEPT, and no frame grants a window
beyond that of the configuration. -/
theorem Frame.apply_queues (env : Env) (now : UInt32) (c : Conn) (f : Frame) :
    Conn.Queues (fun g => g.isAccept = false ∧ g.Offers c.cfg.chanWindow) c
      (f.apply env now c) := by
  cases f with
  | connectInit clientId version =>
    simp only [apply, acceptConnectInit]
    split_ifs <;> exact Conn.Queues.of_eq rfl
  | connectAccept serverId version idle =>
    exact Conn.Queues.of_eq (by simp [apply, acceptConnectAccept])
  | connectRedirect newId addr => exact Conn.Queues.of_eq (by simp [apply, evPushRedirect])
  | disconnect reason => exact Conn.Queues.of_eq (by simp [apply])
  | ping opaqueId => exact ctrlPong_queues c opaqueId ⟨rfl, trivial⟩
  | pong opaqueId =>
    simp only [apply, acceptPong]
    split_ifs <;> exact Conn.Queues.of_eq rfl
  | channelOpen id type dir ct =>
    simp only [apply, acceptChannelOpen]
    generalize (if dir.toNat = netchanDirSend then Role.receiver else Role.sender) = role
    split
    · exact ctrlChannelClose_queues c id 1 ⟨rfl, trivial⟩
    · split
      · exact ctrlChannelClose_queues c id 1 ⟨rfl, trivial⟩
      · rename_i s k hnew
        split_ifs
        · refine Conn.Queues.trans ?_ (Conn.Queues.of_eq (evPush_ctrlBuf _ _ _))
          have hwindow :
              ((s.modChan k fun ch => { ch with state := .opened }).chanPool k).recvWindow =
                c.cfg.chanWindow := by
            simpa [Core.modChan] using chanNew_window hnew
          exact ctrlWindowUpdate_queues
            (Q := fun g => g.isAccept = false ∧ g.Offers c.cfg.chanWindow)
            { c with toCore := s.modChan k fun ch => { ch with state := .opened } } id _
            ⟨rfl, UInt32.le_of_eq hwindow⟩
        · exact Conn.Queues.of_eq (evPush_ctrlBuf _ _ _)
  | channelClose id error =>
    simp only [apply, acceptChannelClose]
    split
    · exact Conn.Queues.refl _ c
    · exact Conn.Queues.of_eq (by simp)
  | data id seq fragIdx fragTotal payload =>
    exact Conn.Queues.of_eq (acceptData_ctrlBuf c id seq _ _ payload)
  | ack id seq =>
    simp only [apply, acceptAck]
    split
    · exact Conn.Queues.refl _ c
    · split_ifs
      · exact Conn.Queues.refl _ c
      · exact Conn.Queues.of_eq (lift_ctrlBuf _ _)
  | windowUpdate id window =>
    simp only [apply, acceptWindowUpdate]
    split
    · exact Conn.Queues.refl _ c
    · split_ifs <;> exact Conn.Queues.of_eq rfl

section Service

variable {w : UInt32}

theorem serviceHandshake_queues (c : Conn) (now : UInt32) :
    Conn.Queues (Frame.Offers w) c (serviceHandshake c now).1 := by
  simp only [serviceHandshake]
  split_ifs
  · exact Conn.Queues.of_eq (by simp)
  · exact (ctrlConnectInit_queues c trivial).trans (Conn.Queues.of_eq rfl)
  · exact Conn.Queues.refl _ c
  · exact Conn.Queues.refl _ c

theorem serviceIdle_queues (c : Conn) (now : UInt32) (nextMs : Int) :
    Conn.Queues (Frame.Offers w) c (serviceIdle c now nextMs).1 := by
  simp only [serviceIdle]
  split_ifs <;> exact Conn.Queues.of_eq (by simp)

theorem servicePing_queues (env : Env) (c : Conn) (now : UInt32) (nextMs : Int) :
    Conn.Queues (Frame.Offers w) c (servicePing env c now nextMs).1 := by
  simp only [servicePing]
  split_ifs
  · exact (ctrlPing_queues { c with pingOpaque := ncRandomId env } _ trivial).trans
      (Conn.Queues.of_eq rfl)
  all_goals exact Conn.Queues.refl _ c

theorem netchanService_queues (env : Env) (c : Conn) (now : UInt32) :
    Conn.Queues (Frame.Offers w) c (netchanService env c now).1 := by
  have h1 := serviceHandshake_queues (w := w) c now
  unfold netchanService
  rcases hshake : serviceHandshake c now with ⟨c1, _ | n1⟩
  · rw [hshake] at h1
    exact h1
  · rw [hshake] at h1
    have h2 := serviceIdle_queues (w := w) c1 now n1
    dsimp only
    rcases hidle : serviceIdle c1 now n1 with ⟨c2, _ | n2⟩
    · rw [hidle] at h2
      exact h1.trans h2
    · rw [hidle] at h2
      exact (h1.trans h2).trans ((servicePing_queues env c2 now n2).trans
        (Conn.Queues.of_eq (serviceChannels_ctrlBuf _ _ _ _)))

end Service

theorem netchanChanOpen_queues (c : Conn) (type dir : Nat) (ct : Option (List UInt8)) :
    Conn.Queues (Frame.Offers c.cfg.chanWindow) c (netchanChanOpen c type dir ct).1 := by
  simp only [netchanChanOpen]
  generalize (if dir = netchanDirSend then Role.sender else Role.receiver) = role
  split
  · exact Conn.Queues.refl _ c
  · split
    · exact Conn.Queues.refl _ c
    · split
      · exact Conn.Queues.of_eq rfl
      · rename_i s k hnew
        have hopen : Conn.Queues (Frame.Offers c.cfg.chanWindow) c (ctrlChannelOpen
            { c with toCore := s, nextChanId := c.nextChanId + 2 } (s.chanPool k)) :=
          ctrlChannelOpen_queues { c with toCore := s, nextChanId := c.nextChanId + 2 }
            (s.chanPool k) trivial
        split_ifs
        · have hcore : (ctrlChannelOpen { c with toCore := s, nextChanId := c.nextChanId + 2 }
              (s.chanPool k)).toCore = s := by simp [ctrlChannelOpen]
          generalize ctrlChannelOpen _ _ = c' at hcore hopen ⊢
          refine (hopen.trans (ctrlWindowUpdate_queues _ _ _ ?_)).trans (Conn.Queues.of_eq rfl)
          rw [hcore]
          exact UInt32.le_of_eq (chanNew_window hnew)
        · exact hopen

theorem Conn.step_queues (c : Conn) {a : Act} (hfeed : a.isFeed = false)
    (hsend : ∀ env buflen, a ≠ .sendNext env buflen) :
    Conn.Queues (Frame.Offers c.cfg.chanWindow) c (c.step a) := by
  cases a with
  | connect env addr =>
    simp only [step, netchanConnect]
    split_ifs
    · exact Queues.refl _ c
    · exact Queues.refl _ c
    · exact (ctrlConnectInit_queues
        { c with localId := ncRandomId env, peerAddr := addr, state := .connecting }
        trivial).trans
        (Queues.of_eq rfl)
  | accept =>
    simp only [step, netchanAccept]
    split_ifs
    · exact Queues.refl _ c
    · exact Queues.refl _ c
    · exact (ctrlConnectAccept_queues c trivial).trans (Queues.of_eq (by simp))
  | feed env pkt src => cases hfeed
  | sendNext env buflen => exact absurd rfl (hsend env buflen)
  | service env now => exact netchanService_queues env c now
  | chanOpen type dir contentType => exact netchanChanOpen_queues c type dir contentType
  | chanClose k =>
    simp only [step, netchanChanClose]
    split_ifs
    · exact Queues.refl _ c
    · exact (ctrlChannelClose_queues c (c.chanPool k).id 0 trivial).trans (Queues.of_eq rfl)
    · exact Queues.refl _ c
  | chanWrite k data =>
    simp only [step]
    split_ifs <;> exact Queues.of_eq rfl
  | chanRead k buflen =>
    simp only [step]
    split_ifs <;> exact Queues.of_eq rfl
  | poll =>
    simp only [step, netchanPoll]
    split_ifs <;> exact Queues.of_eq rfl

theorem flatMap_encode_split {fs gs : List Frame} {rest : List UInt8}
    (hfs : ∀ f ∈ fs, f.Sendable) (hgs : ∀ g ∈ gs, g.Sendable)
    (h : fs.flatMap Frame.encode ++ rest = gs.flatMap Frame.encode) :
    ∃ gs', gs = fs ++ gs' ∧ rest = gs'.flatMap Frame.encode := by
  induction fs generalizing gs with
  | nil => exact ⟨gs, rfl, h⟩
  | cons f fs ih =>
    rw [List.flatMap_cons, List.append_assoc] at h
    have hdec := Frame.decode_encode (hfs f List.mem_cons_self)
      (fs.flatMap Frame.encode ++ rest)
    rw [h] at hdec
    cases gs with
    | nil =>
      obtain ⟨b, tail, hcons, -⟩ := f.encode_cons
      rw [hcons] at h
      cases h
    | cons g gs =>
      have hdec' := Frame.decode_encode (hgs g List.mem_cons_self) (gs.flatMap Frame.encode)
      rw [List.flatMap_cons, hdec'] at hdec
      simp only [Option.some.injEq, Prod.mk.injEq] at hdec
      obtain ⟨rfl, -⟩ := hdec
      rw [List.flatMap_cons] at h
      obtain ⟨gs', hgs', hrest⟩ := ih (fun f' hf' => hfs f' (List.mem_cons_of_mem _ hf'))
        (fun g' hg' => hgs g' (List.mem_cons_of_mem _ hg')) (List.append_cancel_left h)
      exact ⟨gs', by rw [hgs', List.cons_append], hrest⟩

/-- The bytes of the control queue that go into the next packet. -/
def ctrlTaken (c : Conn) (buflen : Nat) : List UInt8 :=
  c.ctrlBuf.take (sizeSub (min c.cfg.mtu.toNat buflen) (headerSize c))

/-- The packet ends between two control frames. -/
def CtrlWhole (c : Conn) (buflen : Nat) : Prop :=
  ∃ fs : List Frame, (∀ f ∈ fs, f.Sendable) ∧ ctrlTaken c buflen = fs.flatMap Frame.encode

theorem CtrlWhole.split {c : Conn} {buflen : Nat} (h : CtrlWhole c buflen) {gs : List Frame}
    (hgs : CtrlFrames c.ctrlBuf gs) :
    ∃ fs gs', gs = fs ++ gs' ∧ CtrlFrames (ctrlTaken c buflen) fs ∧
      CtrlFrames (c.ctrlBuf.drop (sizeSub (min c.cfg.mtu.toNat buflen) (headerSize c))) gs' := by
  obtain ⟨fs, hfs, htake⟩ := h
  have hsplit : ctrlTaken c buflen ++
      c.ctrlBuf.drop (sizeSub (min c.cfg.mtu.toNat buflen) (headerSize c)) = c.ctrlBuf :=
    List.take_append_drop _ _
  rw [htake, hgs.1] at hsplit
  obtain ⟨gs', rfl, hrest⟩ := flatMap_encode_split hfs (fun g hg => (hgs.2 g hg).1) hsplit
  rw [← hgs.1] at hrest
  refine ⟨fs, gs', rfl, ⟨htake, fun f hf => ?_⟩, hrest, fun g hg => ?_⟩
  · exact hgs.2 f (List.mem_append_left _ hf)
  · exact hgs.2 g (List.mem_append_right _ hg)

end MechanicalResearcher.NetchanV2
