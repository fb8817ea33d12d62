import MechanicalResearcher.NetchanV2.Events
import MechanicalResearcher.NetchanV2.Joint

/-!
# Packets of whole frames

Control frames are queued as bytes and `netchan_send_next` takes as many bytes as
the packet has room for, so a packet can end inside a frame, and the next one
begins with the rest of it.  Where every packet ends between two control frames
(`CtrlWhole`), every packet is a header and whole frames, and the control frames of
successive packets are those that were queued.
-/

namespace MechanicalResearcher.NetchanV2

open Lib Lib.Serial Lib.BigEndian Lib.Runs

variable {a : Act} {buflen : Nat} {fs : List Frame} {env : Env}

/-! ## Fed data leaves the send rings alone -/

/-- The send rings are as they were. -/
def Core.SameOut (s s' : Core) : Prop :=
  ∀ j, (s'.chanPool j).outgoing = (s.chanPool j).outgoing

namespace Core.SameOut

variable {s s' s'' : Core} {k : Nat}

theorem refl (s : Core) : SameOut s s := fun _ => rfl

theorem trans (h : SameOut s s') (h' : SameOut s' s'') : SameOut s s'' :=
  fun j => (h' j).trans (h j)

theorem of_eq (h : s'.chanPool = s.chanPool) : SameOut s s' := fun j => by rw [h]

theorem modChan (s : Core) (k : Nat) {f : Chan → Chan}
    (hf : (f (s.chanPool k)).outgoing = (s.chanPool k).outgoing) : SameOut s (s.modChan k f) := by
  intro j
  by_cases hj : j = k
  · subst hj
    simpa [Core.modChan] using hf
  · simp [Core.modChan, hj]

theorem mark (s : Core) (m : Mark) : SameOut s (s.mark m) := refl s

theorem memcpy (s : Core) (dst : Nat) (data : List UInt8) : SameOut s (s.memcpy dst data) := refl s

theorem poolPut (s : Core) (b : Option Nat) : SameOut s (poolPut s b) :=
  of_eq (poolPut_chanPool s b)

theorem poolGet (s : Core) : SameOut s (poolGet s).1 := by
  unfold NetchanV2.poolGet
  split_ifs <;> exact refl s

theorem bumpRecvSeq (s : Core) (k : Nat) : SameOut s (bumpRecvSeq s k) :=
  (modChan s k rfl).trans (mark _ _)

theorem reorderRelease (s : Core) (k slot : Nat) : SameOut s (reorderRelease s k slot) := by
  unfold NetchanV2.reorderRelease
  dsimp only
  refine (poolPut s _).trans (modChan _ k ?_)
  rfl

theorem chanRecvEnqueue (s : Core) (k : Nat) (data : List UInt8) :
    SameOut s (chanRecvEnqueue s k data).1 := by
  simp only [NetchanV2.chanRecvEnqueue]
  split_ifs
  · exact refl s
  · exact refl s
  · have hget := poolGet s
    rcases hg : NetchanV2.poolGet s with ⟨s', _ | b⟩
    · rw [hg] at hget
      exact hget
    · rw [hg] at hget
      dsimp only
      refine SameOut.trans ?_ (mark _ _)
      exact (hget.trans (memcpy _ _ data)).trans (modChan _ k rfl)

theorem reorderStore (s : Core) (k : Nat) (seq : UInt16) (data : List UInt8) :
    SameOut s (reorderStore s k seq data) := by
  have hget := poolGet s
  unfold NetchanV2.reorderStore
  rcases hg : NetchanV2.poolGet s with ⟨s', _ | b⟩
  · rw [hg] at hget
    exact hget
  · rw [hg] at hget
    exact (hget.trans (memcpy _ _ data)).trans (modChan _ k rfl)

theorem fragFree (s : Core) (k i : Nat) : SameOut s (fragFree s k i) :=
  (poolPut s _).trans (modChan _ k rfl)

theorem fragSlot (s : Core) (k : Nat) (seq : UInt16) (total : Nat) :
    SameOut s (fragSlot s k seq total).1 := by
  unfold NetchanV2.fragSlot
  split
  · exact refl s
  · unfold fragAlloc
    split_ifs
    · exact refl s
    · split
      · exact refl s
      · have hget := poolGet s
        rcases hg : NetchanV2.poolGet s with ⟨s', _ | b⟩
        · rw [hg] at hget
          exact hget
        · rw [hg] at hget
          dsimp only
          exact hget.trans (modChan _ k rfl)

theorem fragStore (s : Core) (k i fragIdx : Nat) (payload : List UInt8) :
    SameOut s (fragStore s k i fragIdx payload) := by
  simp only [NetchanV2.fragStore]
  exact ((memcpy s _ payload).trans (mark _ _)).trans (modChan _ k rfl)

theorem compactLoop (k : Nat) (f : FragAsm) (fp : Nat) (is : List Nat) (s : Core) (pos : Nat) :
    SameOut s (compactLoop k f fp is s pos).1 := by
  induction is generalizing s pos with
  | nil => exact refl s
  | cons i is ih =>
    unfold NetchanV2.compactLoop
    dsimp only
    refine SameOut.trans ?_ (ih _ _)
    split_ifs <;> exact refl s

theorem fragReceive (s : Core) (k : Nat) (seq : UInt16) (fragIdx fragTotal : Nat)
    (payload : List UInt8) : SameOut s (fragReceive s k seq fragIdx fragTotal payload).1 := by
  have hslot := fragSlot s k seq fragTotal
  unfold NetchanV2.fragReceive
  rcases hfs : NetchanV2.fragSlot s k seq fragTotal with ⟨s', _ | i⟩
  · rw [hfs] at hslot
    exact hslot
  · rw [hfs] at hslot
    dsimp only
    split_ifs
    · exact (hslot.trans (fragStore s' k i fragIdx payload)).trans (compactLoop _ _ _ _ _ _)
    · exact hslot.trans (fragStore s' k i fragIdx payload)
    · exact hslot

end Core.SameOut

theorem deliverOne_sameOut (c : Conn) (k : Nat) :
    Core.SameOut c.toCore (deliverOne c k).toCore := by
  simp only [deliverOne, Conn.lift_toCore, evPush_toCore]
  exact ((Core.SameOut.chanRecvEnqueue c.toCore k _).trans
    (Core.SameOut.reorderRelease _ k _)).trans (Core.SameOut.bumpRecvSeq _ k)

theorem deliverLoop_sameOut (fuel : Nat) (c : Conn) (k : Nat) :
    Core.SameOut c.toCore (deliverLoop fuel c k).toCore :=
  deliverLoop_rule (P := fun d => Core.SameOut c.toCore d.toCore)
    (fun d _ h => h.trans (deliverOne_sameOut d k)) fuel (Core.SameOut.refl _)

theorem deliverReliable_sameOut (c : Conn) (k : Nat) (seq : UInt16) (data : List UInt8) :
    Core.SameOut c.toCore (deliverReliable c k seq data).toCore := by
  simp only [deliverReliable]
  split_ifs
  · refine Core.SameOut.trans ?_ (deliverLoop_sameOut _ _ k)
    simp only [Conn.lift_toCore, evPush_toCore]
    exact (Core.SameOut.chanRecvEnqueue c.toCore k data).trans (Core.SameOut.bumpRecvSeq _ k)
  · exact Core.SameOut.reorderStore c.toCore k seq data
  · exact Core.SameOut.refl _

theorem acceptData_sameOut (c : Conn) (id : UInt8) (seq : UInt16) (fragIdx fragTotal : Nat)
    (payload : List UInt8) :
    Core.SameOut c.toCore (acceptData c id seq fragIdx fragTotal payload).toCore := by
  unfold acceptData
  split
  · exact Core.SameOut.refl _
  · rename_i k _
    have hrecv := Core.SameOut.fragReceive c.toCore k seq fragIdx fragTotal payload
    split_ifs
    · exact Core.SameOut.refl _
    · unfold acceptDataUnreliable
      split_ifs
      · rw [evPush_toCore]
        exact Core.SameOut.chanRecvEnqueue c.toCore k payload
      · rcases hfr : fragReceive c.toCore k seq fragIdx fragTotal payload with ⟨s, _ | ⟨i, pos⟩⟩
        · rw [hfr] at hrecv
          exact hrecv
        · rw [hfr] at hrecv
          simp only [Conn.lift_toCore, evPush_toCore]
          exact (hrecv.trans (Core.SameOut.chanRecvEnqueue s k _)).trans
            (Core.SameOut.fragFree _ k i)
    · unfold acceptDataReliable
      dsimp only
      rw [Conn.lift_toCore]
      refine Core.SameOut.trans ?_ (Core.SameOut.modChan _ k rfl)
      split_ifs
      · exact deliverReliable_sameOut c k seq payload
      · rcases hfr : fragReceive c.toCore k seq fragIdx fragTotal payload with ⟨s, _ | ⟨i, pos⟩⟩
        · rw [hfr] at hrecv
          exact hrecv
        · rw [hfr] at hrecv
          dsimp only
          rw [Conn.lift_toCore]
          exact (hrecv.trans (deliverReliable_sameOut { c with toCore := s } k seq _)).trans
            (Core.SameOut.fragFree _ k i)

/-! ## Queued messages stay cut right -/

theorem Core.Sliced.sameOut {s s' : Core} (h : s.Sliced) (hout : Core.SameOut s s')
    (hs : Core.Steady s s') : s'.Sliced := by
  intro k hk
  rw [hs.chanUsed] at hk
  rw [hs.cfg]
  exact (h k hk).congr fun p _ => by rw [hout k]

theorem acceptAck_sliced {c : Conn} (h : c.toCore.Good) (hs : c.toCore.Sliced) (id : UInt8)
    (seq : UInt16) : (acceptAck c id seq).toCore.Sliced := by
  rcases acceptAck_op h id seq with heq | ⟨k, hid, hop⟩
  · rwa [heq]
  · refine hs.touch hop.touch ?_
    refine (hs k (h.inv.table id k hid).2.1).congr fun p hact => ?_
    revert hact
    simp only [acceptAck, hid]
    split_ifs
    · exact fun _ => rfl
    · rw [Conn.lift_toCore, advanceHead_outgoing, foldl_ackSlot_outgoing]
      split_ifs
      · exact fun hact => by cases hact
      · exact fun _ => rfl

theorem Frame.apply_sliced (env : Env) (now : UInt32) {c : Conn} (h : c.toCore.Good)
    (hs : c.toCore.Sliced) (f : Frame) : (f.apply env now c).toCore.Sliced := by
  rcases f.apply_table env now h with hst | ho
  · cases hdata : f.toData? with
    | some d =>
      cases f with
      | data id seq fragIdx fragTotal payload =>
        exact hs.sameOut (acceptData_sameOut c id seq _ _ payload) hst
      | _ => cases hdata
    | none =>
      cases hack : f.isAck with
      | true =>
        cases f with
        | ack id seq => exact acceptAck_sliced h hs id seq
        | _ => cases hack
      | false => exact hs.kept hst fun k hk => (f.apply_kept env now hk hdata hack).2
  · exact hs.opens ho

theorem netchanSendNext_sliced (env : Env) {c : Conn} (h : c.toCore.Good) (hs : c.toCore.Sliced)
    (buflen : Nat) : (netchanSendNext env c buflen).1.toCore.Sliced := by
  rw [netchanSendNext_eq]
  split_ifs
  · exact hs
  · obtain ⟨hs1, -⟩ := packetAcks_sliced h hs (min c.cfg.mtu.toNat buflen)
    exact sendData_sliced env _ (List.range ncMaxChannels) (packetAcks_good h _) hs1 _

theorem Conn.step_sliced {c : Conn} (h : c.toCore.Good) (hs : c.toCore.Sliced)
    (hfp : 9 ≤ maxFragPayload c.cfg) (hfeed : a.isFeed = false) :
    (c.step a).toCore.Sliced := by
  rcases Conn.step_table h hfeed with hst | ho
  · by_cases hsend : ∃ env buflen, a = .sendNext env buflen
    · obtain ⟨env, buflen, rfl⟩ := hsend
      exact netchanSendNext_sliced env h hs buflen
    by_cases hwrite : ∃ k data, a = .chanWrite k data
    · obtain ⟨k, data, rfl⟩ := hwrite
      simp only [step]
      split_ifs with hk
      · exact hs.touch (chanWrite_touch c.toCore k data) (chanWrite_sliced (hs k hk) hfp data)
      · exact hs
    · refine hs.kept hst fun k hk => Conn.step_sendKept h hk hfeed ?_ ?_
      · exact fun data e => hwrite ⟨k, data, e⟩
      · exact fun env buflen e => absurd ⟨env, buflen, e⟩ hsend
  · exact hs.opens ho

/-! ## The size of a packet -/

section Size

variable {mtu : Nat} {out : List UInt8}

theorem flushAck_length (c : Conn) (k : Nat) (h : out.length ≤ mtu) :
    (flushAck mtu c k out).2.length ≤ mtu := by
  simp only [flushAck]
  split_ifs with hfit
  · simpa using hfit.2
  · exact h

theorem flushWindow_length (c : Conn) (k : Nat) (h : out.length ≤ mtu) :
    (flushWindow mtu c k out).2.length ≤ mtu := by
  simp only [flushWindow]
  generalize (if (c.chanPool k).recvWindow > (c.chanPool k).recvBuffered then
    (c.chanPool k).recvWindow - (c.chanPool k).recvBuffered else 0) = window
  split_ifs with hfit
  · simpa using hfit.2
  · exact h

theorem flushAcks_length (is : List Nat) (c : Conn) (h : out.length ≤ mtu) :
    (flushAcks mtu is c out).2.length ≤ mtu :=
  flushAcks_rule (P := fun _ out => out.length ≤ mtu)
    (fun c k _ _ _ h => flushWindow_length _ k (flushAck_length c k h)) is h

theorem length_dataFrame (s : Core) (k j : Nat) :
    (dataFrame s k j).length = 8 + fragLen s.cfg ((s.chanPool k).outgoing j) := by
  simp only [dataFrame]
  generalize fragLen s.cfg ((s.chanPool k).outgoing j) = n
  simp only [List.length_append, List.length_cons, List.length_nil, length_wr16, Core.bytes,
    Memory.length_read]

theorem sendData_length (env : Env) (is : List Nat) (c : Conn) (h : out.length ≤ mtu) :
    (sendData env mtu is c out).2.length ≤ mtu := by
  refine sendData_rule (P := fun _ out => out.length ≤ mtu)
    (fun c k id j now out _ _ _ hfits _ => ?_) is h
  rw [List.length_append, length_dataFrame]
  omega

theorem flushAcks_full (is : List Nat) (c : Conn) (h : out.length = mtu) :
    (flushAcks mtu is c out).2 = out := by
  cases is with
  | nil => rfl
  | cons i is =>
    unfold flushAcks
    rw [if_neg (by omega)]

theorem sendData_full (env : Env) (is : List Nat) (c : Conn) (h : out.length = mtu) :
    (sendData env mtu is c out).2 = out := by
  cases is with
  | nil => rfl
  | cons i is =>
    unfold sendData
    rw [if_neg (by omega)]

end Size

theorem headerSize_le (c : Conn) : headerSize c ≤ ncHdrFullSize := by
  unfold headerSize
  split_ifs <;> decide

theorem sizeSub_header {c : Conn} (hmtu : 64 ≤ c.cfg.mtu.toNat) (hbuf : 64 ≤ buflen) :
    sizeSub (min c.cfg.mtu.toNat buflen) (headerSize c) =
      min c.cfg.mtu.toNat buflen - headerSize c := by
  have hhead : headerSize c ≤ 7 := headerSize_le c
  have hlt : c.cfg.mtu.toNat < 2 ^ 32 := c.cfg.mtu.toNat_lt
  unfold sizeSub
  omega

theorem maxFragPayload_eq {cfg : Cfg} (h : 15 ≤ cfg.mtu.toNat) :
    maxFragPayload cfg = cfg.mtu.toNat - 15 := by
  have h7 : (7 : UInt32) ≤ cfg.mtu := UInt32.le_iff_toNat_le.2 (show 7 ≤ cfg.mtu.toNat by omega)
  have hsub : (cfg.mtu - 7).toNat = cfg.mtu.toNat - 7 := UInt32.toNat_sub_of_le _ _ h7
  have h8 : (8 : UInt32) ≤ cfg.mtu - 7 := by
    rw [UInt32.le_iff_toNat_le, hsub]
    change 8 ≤ _
    omega
  unfold maxFragPayload
  rw [UInt32.toNat_sub_of_le _ _ h8, hsub]
  change _ - 8 = _
  omega

/-! ## Reading frames back -/

/-- The frames at the front of `p`. -/
def readLoop : Nat → List UInt8 → List Frame
  | 0, _ => []
  | fuel + 1, p =>
    match Frame.decode p with
    | none => []
    | some (f, n) => f :: readLoop fuel (p.drop n)

def readFrames (p : List UInt8) : List Frame := readLoop p.length p

theorem readLoop_encode (hfs : ∀ f ∈ fs, f.Sendable) {fuel : Nat}
    (hfuel : (fs.flatMap Frame.encode).length ≤ fuel) :
    readLoop fuel (fs.flatMap Frame.encode) = fs := by
  induction fs generalizing fuel with
  | nil => cases fuel <;> rfl
  | cons f fs ih =>
    obtain ⟨b, tail, hcons, -⟩ := f.encode_cons
    rw [List.flatMap_cons, List.length_append, hcons, List.length_cons] at hfuel
    obtain ⟨fuel, rfl⟩ : ∃ n, fuel = n + 1 := ⟨fuel - 1, by omega⟩
    rw [List.flatMap_cons, readLoop, Frame.decode_encode (hfs f List.mem_cons_self)]
    dsimp only
    rw [List.drop_left, ih (fun g hg => hfs g (List.mem_cons_of_mem _ hg)) (by omega)]

theorem readFrames_encode (hfs : ∀ f ∈ fs, f.Sendable) :
    readFrames (fs.flatMap Frame.encode) = fs :=
  readLoop_encode hfs le_rfl

theorem CtrlFrames.read {bytes : List UInt8} {gs : List Frame} (h : CtrlFrames bytes gs) :
    readFrames bytes = gs := by
  rw [h.1]
  exact readFrames_encode fun g hg => (h.2 g hg).1

theorem parseLoop_encode (env : Env) (hfs : ∀ f ∈ fs, f.Sendable) {p : Conn}
    (hok : ∀ f ∈ fs, f.allowed p.server = true) {fuel : Nat}
    (hfuel : (fs.flatMap Frame.encode).length ≤ fuel) :
    (parseLoop env fuel p (fs.flatMap Frame.encode)).2 = .ok () := by
  induction fs generalizing fuel p with
  | nil => cases fuel <;> rfl
  | cons f fs ih =>
    obtain ⟨b, tail, hcons, hpad⟩ := f.encode_cons
    have hproc := processFrame_eq env p (f.encode ++ fs.flatMap Frame.encode)
    have hdrop : (f.encode ++ fs.flatMap Frame.encode).drop f.encode.length =
        fs.flatMap Frame.encode := List.drop_left
    rw [Frame.decode_encode (hfs f List.mem_cons_self)] at hproc
    dsimp only at hproc
    rw [if_pos (hok f List.mem_cons_self)] at hproc
    rw [List.flatMap_cons, List.length_append, hcons, List.length_cons] at hfuel
    obtain ⟨fuel, rfl⟩ : ∃ n, fuel = n + 1 := ⟨fuel - 1, by omega⟩
    rw [List.flatMap_cons]
    rw [hcons, List.cons_append] at hproc hdrop ⊢
    rw [parseLoop, if_neg hpad, hproc]
    dsimp only
    rw [hdrop]
    refine ih (fun g hg => hfs g (List.mem_cons_of_mem _ hg)) (fun g hg => ?_) (by omega)
    rw [Frame.apply_server]
    exact hok g (List.mem_cons_of_mem _ hg)

/-! ## The packet of a state -/

/-- The packet fits the buffer and is a header, the control frames that were at the front
of the queue and other whole frames; a peer that takes these frames reads it to its end. -/
def WellFramed (c : Conn) (buflen : Nat) (pkt : List UInt8) : Prop :=
  pkt.length ≤ buflen ∧
    ∃ rest : List Frame,
      (∀ f ∈ readFrames (ctrlTaken c buflen) ++ rest, f.Sendable) ∧
      pkt = (sendHeader c).2 ++
        (readFrames (ctrlTaken c buflen) ++ rest).flatMap Frame.encode ∧
      ∀ env (p : Conn),
        (∀ f ∈ readFrames (ctrlTaken c buflen) ++ rest, f.allowed p.server = true) →
          (parseFrames env p (packetFrames pkt)).2 = .ok ()

/-- What the bytes of a connection need, whatever was fed to it. -/
structure Conn.Framed (c : Conn) : Prop where
  good : c.toCore.Good
  sliced : c.toCore.Sliced
  ctrl : ∃ gs, CtrlFrames c.ctrlBuf gs

theorem netchanSendNext_some {c : Conn} {pkt : List UInt8} {addr : Addr}
    (h : (netchanSendNext env c buflen).2 = some (pkt, addr)) :
    pkt = (packetData env (min c.cfg.mtu.toNat buflen) c).2 := by
  rw [netchanSendNext_eq] at h
  split_ifs at h
  simp only [Option.some.injEq, Prod.mk.injEq] at h
  exact h.1.symm

theorem packetCtrl_length {c : Conn} (hmtu : 64 ≤ c.cfg.mtu.toNat) (hbuf : 64 ≤ buflen) :
    (packetCtrl (min c.cfg.mtu.toNat buflen) c).2.length ≤ min c.cfg.mtu.toNat buflen := by
  have hhead : headerSize c ≤ 7 := headerSize_le c
  rw [(packetCtrl_eq c buflen).1, List.length_append, (sendHeader_snd c).1, ctrlTaken,
    sizeSub_header hmtu hbuf, List.length_take]
  omega

theorem packet_length {c : Conn} (hmtu : 64 ≤ c.cfg.mtu.toNat) (hbuf : 64 ≤ buflen) :
    (packetData env (min c.cfg.mtu.toNat buflen) c).2.length ≤ buflen :=
  (sendData_length env _ _ (flushAcks_length _ _ (packetCtrl_length hmtu hbuf))).trans
    (Nat.min_le_right _ _)

theorem packetData_extends (env : Env) {c : Conn} (h : c.Framed) (mtu : Nat) :
    Extends Frame.Sendable (packetCtrl mtu c).2 (packetData env mtu c).2 := by
  have hcore := packetCtrl_toCore mtu c
  have hacks := flushAcks_extends mtu (List.range ncMaxChannels) (c := (packetCtrl mtu c).1)
    (hcore ▸ h.good) (packetCtrl mtu c).2
  have hdata := sendData_extends env mtu (List.range ncMaxChannels) (packetAcks_good h.good mtu)
    (packetAcks_sliced h.good h.sliced mtu).1 (packetAcks mtu c).2
  exact (hacks.mono fun f hf => hf.sendable).trans (hdata.mono fun f hf => hf.sends.1)

theorem wellFramed_of_whole {c : Conn} (h : c.Framed) (hmtu : 64 ≤ c.cfg.mtu.toNat)
    (hbuf : 64 ≤ buflen) (hwhole : CtrlWhole c buflen) :
    WellFramed c buflen (packetData env (min c.cfg.mtu.toNat buflen) c).2 := by
  obtain ⟨gs, hgs⟩ := h.ctrl
  obtain ⟨fs, -, -, hfs, -⟩ := hwhole.split hgs
  obtain ⟨rest, hrest, hsend⟩ := packetData_extends env h (min c.cfg.mtu.toNat buflen)
  rw [(packetCtrl_eq c buflen).1, hfs.1, List.append_assoc, ← List.flatMap_append] at hrest
  have hall : ∀ f ∈ fs ++ rest, f.Sendable := by
    intro f hf
    rcases List.mem_append.1 hf with hf | hf
    · exact (hfs.2 f hf).1
    · exact hsend f hf
  refine ⟨packet_length hmtu hbuf, rest, ?_⟩
  rw [hfs.read]
  refine ⟨hall, hrest, fun env' p hok => ?_⟩
  rw [hrest, (sendHeader_snd c).2]
  exact parseLoop_encode env' hall hok le_rfl

theorem whole_of_wellFramed {c : Conn} (h : c.Framed) (hmtu : 64 ≤ c.cfg.mtu.toNat)
    (hbuf : 64 ≤ buflen)
    (hw : WellFramed c buflen (packetData env (min c.cfg.mtu.toNat buflen) c).2) :
    CtrlWhole c buflen := by
  obtain ⟨gs, hgs⟩ := h.ctrl
  obtain ⟨-, rest, hsend, hpkt, -⟩ := hw
  by_cases hfits : c.ctrlBuf.length ≤ sizeSub (min c.cfg.mtu.toNat buflen) (headerSize c)
  · refine ⟨gs, fun g hg => (hgs.2 g hg).1, ?_⟩
    rw [ctrlTaken, List.take_of_length_le hfits]
    exact hgs.1
  · have hhead : headerSize c ≤ 7 := headerSize_le c
    have hout := (packetCtrl_eq c buflen).1
    have hfull : (packetCtrl (min c.cfg.mtu.toNat buflen) c).2.length =
        min c.cfg.mtu.toNat buflen := by
      rw [hout, List.length_append, (sendHeader_snd c).1, ctrlTaken, List.length_take,
        Nat.min_eq_left (Nat.not_le.1 hfits).le, sizeSub_header hmtu hbuf]
      omega
    have hacks : (packetAcks (min c.cfg.mtu.toNat buflen) c).2 =
        (packetCtrl (min c.cfg.mtu.toNat buflen) c).2 := flushAcks_full _ _ hfull
    have hdata : (packetData env (min c.cfg.mtu.toNat buflen) c).2 =
        (sendHeader c).2 ++ ctrlTaken c buflen := by
      refine (sendData_full env _ _ ?_).trans (hacks.trans hout)
      rw [hacks, hfull]
    rw [hdata] at hpkt
    exact ⟨_, hsend, List.append_cancel_left hpkt⟩

/-! ## Runs -/

/-- The packets of a run end between two control frames. -/
def FlushesWhole (c : Conn) : Act → Prop
  | .sendNext _ buflen => CtrlWhole c buflen
  | _ => True

/-- The control frames a call queues. -/
def Conn.queued (c : Conn) : Act → List Frame
  | .sendNext _ _ => []
  | a => readFrames ((c.step a).ctrlBuf.drop c.ctrlBuf.length)

/-- The queued control frames that go into the packet of a call. -/
def Conn.flushed (c : Conn) : Act → List Frame
  | .sendNext env buflen =>
    if (netchanSendNext env c buflen).2.isSome then readFrames (ctrlTaken c buflen) else []
  | _ => []

def Conn.queuedIn : Conn → List Act → List Frame
  | _, [] => []
  | c, a :: as => c.queued a ++ (c.step a).queuedIn as

def Conn.flushedIn : Conn → List Act → List Frame
  | _, [] => []
  | c, a :: as => c.flushed a ++ (c.step a).flushedIn as

theorem Conn.step_appends (c : Conn) (ha : ∀ env buflen, a ≠ .sendNext env buflen) :
    Conn.Queues (fun _ => True) c (c.step a) := by
  cases hfeed : a.isFeed with
  | true =>
    cases a with
    | feed env pkt src =>
      obtain ⟨gs, bytes, hgs, -, hbuf⟩ := netchanFeed_queues env c pkt src
      exact ⟨gs, bytes, hgs, fun _ _ => trivial, hbuf⟩
    | _ => cases hfeed
  | false => exact (c.step_queues hfeed ha).mono fun _ _ => trivial

theorem Conn.step_ctrl {c : Conn} {gs : List Frame} (hgs : CtrlFrames c.ctrlBuf gs)
    (ha : FlushesWhole c a) :
    ∃ gs', CtrlFrames (c.step a).ctrlBuf gs' ∧ gs ++ c.queued a = c.flushed a ++ gs' := by
  by_cases hsend : ∃ env buflen, a = .sendNext env buflen
  · obtain ⟨env, buflen, rfl⟩ := hsend
    have hqueued : c.queued (.sendNext env buflen) = [] := rfl
    have hflushed : c.flushed (.sendNext env buflen) =
        if (netchanSendNext env c buflen).2.isSome then readFrames (ctrlTaken c buflen) else [] :=
      rfl
    rw [hqueued, hflushed, List.append_nil]
    obtain ⟨fs, gs', rfl, hfs, hgs'⟩ := CtrlWhole.split ha hgs
    rw [hfs.read, step, netchanSendNext_eq]
    split_ifs with hnone hsome
    · cases hsome
    · exact ⟨fs ++ gs', hgs, rfl⟩
    · refine ⟨gs', ?_, rfl⟩
      have hrest : (packetData env (min c.cfg.mtu.toNat buflen) c).1.ctrlBuf =
          (packetCtrl (min c.cfg.mtu.toNat buflen) c).1.ctrlBuf :=
        (sendData_ctrlBuf env _ _ _ _).trans (flushAcks_ctrlBuf _ _ _ _)
      change CtrlFrames (packetData env (min c.cfg.mtu.toNat buflen) c).1.ctrlBuf gs'
      rw [hrest, (packetCtrl_eq c buflen).2]
      exact hgs'
    · exact absurd rfl ‹_›
  · have hne : ∀ env buflen, a ≠ .sendNext env buflen := fun env buflen e => hsend ⟨env, buflen, e⟩
    obtain ⟨gs', bytes, hgs', -, hbuf⟩ := c.step_appends hne
    have hqueued : c.queued a = readFrames ((c.step a).ctrlBuf.drop c.ctrlBuf.length) := by
      cases a with
      | sendNext env buflen => exact absurd rfl (hne env buflen)
      | _ => rfl
    have hflushed : c.flushed a = [] := by
      cases a with
      | sendNext env buflen => exact absurd rfl (hne env buflen)
      | _ => rfl
    rw [hqueued, hflushed, hbuf, List.drop_left, hgs'.read]
    exact ⟨gs ++ gs', hgs.append hgs', rfl⟩

theorem Conn.Framed.step {c : Conn} (h : c.Framed) (hfp : 9 ≤ maxFragPayload c.cfg) {a : Act}
    (ha : FlushesWhole c a) : (c.step a).Framed := by
  obtain ⟨gs, hgs⟩ := h.ctrl
  obtain ⟨gs', hgs', -⟩ := Conn.step_ctrl hgs ha
  refine ⟨c.step_good h.good a, ?_, gs', hgs'⟩
  cases hfeed : a.isFeed with
  | true =>
    cases a with
    | feed env pkt src =>
      have hall := netchanFeed_induct env c pkt src
        (P := fun c => c.toCore.Good ∧ c.toCore.Sliced) id
        (fun c' fn _ hc => ⟨fn.1.apply_good env _ hc.1, fn.1.apply_sliced env _ hc.1 hc.2⟩)
        ⟨h.good, h.sliced⟩
      exact hall.2
    | _ => cases hfeed
  | false => exact Conn.step_sliced h.good h.sliced hfp hfeed

theorem Conn.run_framed {c : Conn} (h : c.Framed) (hfp : 9 ≤ maxFragPayload c.cfg)
    {acts : List Act} (hwhole : Guarded FlushesWhole Conn.step c acts) :
    (c.run acts).Framed ∧ (c.run acts).cfg = c.cfg ∧
      readFrames c.ctrlBuf ++ c.queuedIn acts =
        c.flushedIn acts ++ readFrames (c.run acts).ctrlBuf := by
  induction acts generalizing c with
  | nil => exact ⟨h, rfl, by simp [queuedIn, flushedIn, run]⟩
  | cons a acts ih =>
    obtain ⟨gs, hgs⟩ := h.ctrl
    obtain ⟨gs', hgs', hstep⟩ := Conn.step_ctrl hgs hwhole.1
    have hcfg := (Conn.step_grows h.good a).cfg
    obtain ⟨hframed, hcfg', hrun⟩ := ih (h.step hfp hwhole.1) (by rw [hcfg]; exact hfp) hwhole.2
    refine ⟨hframed, hcfg'.trans hcfg, ?_⟩
    rw [hgs'.read] at hrun
    rw [hgs.read, queuedIn, flushedIn, ← List.append_assoc, hstep, List.append_assoc, hrun,
      ← List.append_assoc]
    rfl

/-- In a run whose packets end between two control frames, the control frames of the packets
are those that were queued, in order, and the next packet is well framed exactly if it ends
between two control frames too. -/
theorem packets_framed (server : Bool) (cfg : Cfg) (hmtu : 64 ≤ cfg.mtu) (acts : List Act)
    (hwhole : Guarded FlushesWhole Conn.step (netchanOpen server cfg) acts) :
    (netchanOpen server cfg).queuedIn acts =
        (netchanOpen server cfg).flushedIn acts ++
          readFrames ((netchanOpen server cfg).run acts).ctrlBuf ∧
      ∀ env buflen pkt addr, 64 ≤ buflen →
        (netchanSendNext env ((netchanOpen server cfg).run acts) buflen).2 = some (pkt, addr) →
          (WellFramed ((netchanOpen server cfg).run acts) buflen pkt ↔
            CtrlWhole ((netchanOpen server cfg).run acts) buflen) := by
  have hopen : (netchanOpen server cfg).Framed :=
    ⟨netchanOpen_good server cfg, fun k hk => (by cases hk), [], rfl, by simp⟩
  have hmtu' : 64 ≤ cfg.mtu.toNat := hmtu
  have hfp : 9 ≤ maxFragPayload cfg := by
    rw [maxFragPayload_eq (by omega)]
    omega
  obtain ⟨hframed, hcfg, hqueue⟩ := Conn.run_framed hopen hfp hwhole
  refine ⟨hqueue, fun env buflen pkt addr hbuf hsend => ?_⟩
  have hmtu1 : 64 ≤ ((netchanOpen server cfg).run acts).cfg.mtu.toNat := by
    rw [hcfg]
    exact hmtu'
  rw [netchanSendNext_some hsend]
  exact ⟨whole_of_wellFramed hframed hmtu1 hbuf, wellFramed_of_whole hframed hmtu1 hbuf⟩

/-- The CONNECT_ACCEPT of a server fills one small packet. -/
theorem packets_framed_accept :
    (64 : UInt32) ≤ netchanCfgDefault.mtu ∧
      WellFramed ((netchanOpen true netchanCfgDefault).run serverUp) 64
        [0x02, 0, 0, 0, 5, 0, 0, 0x02, 0, 0, 0, 7, 0x01, 0, 0, 0x75, 0x30] :=
  ⟨by decide,
    ((packets_framed true netchanCfgDefault (by decide) serverUp
      ⟨trivial, trivial, trivial⟩).2 quietEnv 64 _ Addr.unset (by decide) (by decide +kernel)).2
        ⟨[.connectAccept 7 1 30000], by simp [Frame.Sendable], by decide +kernel⟩⟩

/-- A packet with 12 PING frames. -/
def pings : List UInt8 :=
  [0x02, 0, 0, 0, 7, 0, 0] ++ (List.replicate 12 [0x05, 0, 0, 0, 1]).flatten

/-- A client that waits for the answer to its CONNECT_INIT. -/
def waitingClient : Conn :=
  (netchanOpen false netchanCfgDefault).run [.connect quietEnv Addr.unset]

/-- CONNECT_ACCEPT and 12 PONG frames wait in the queue and a client takes them all, but the
packet ends 2 bytes into the tenth PONG frame and the client refuses it. -/
theorem pong_cut :
    ((netchanOpen true netchanCfgDefault).run
        (serverUp ++ [.feed quietEnv pings none])).Reachable ∧
      (parseFrames quietEnv waitingClient ((netchanOpen true netchanCfgDefault).run
        (serverUp ++ [.feed quietEnv pings none])).ctrlBuf).2 = .ok () ∧
      ∃ pkt, (netchanSendNext quietEnv ((netchanOpen true netchanCfgDefault).run
          (serverUp ++ [.feed quietEnv pings none])) 64).2 = some (pkt, Addr.unset) ∧
        (parseFrames quietEnv waitingClient (packetFrames pkt)).2 = .error .proto :=
  ⟨(reachable_open _ _).run _, by decide +kernel, _, rfl, by decide +kernel⟩

end MechanicalResearcher.NetchanV2
