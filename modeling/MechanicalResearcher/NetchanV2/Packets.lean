import MechanicalResearcher.NetchanV2.Control
import MechanicalResearcher.NetchanV2.Outbox
import MechanicalResearcher.NetchanV2.Tally

/-!
# What a packet says

A packet is a header and a sequence of frames.  `Conn.Sends c f` says what a
frame `f` of a packet means in the state `c` the packet was built in: a DATA
frame carries a fragment of a message in the send ring, an ACK frame the number
the receiving half asked to acknowledge.
-/

namespace MechanicalResearcher.NetchanV2

open Lib Lib.Serial Lib.BigEndian Lib.Pieces

/-! ## Fragment sizes -/

/-- The queued messages have as many fragments as their length needs. -/
def Chan.Sliced (fp : Nat) (ch : Chan) : Prop :=
  ∀ p, (ch.outgoing p).active = true →
    ((ch.outgoing p).fragTotal - 1) * fp < (ch.outgoing p).len ∧
    (ch.outgoing p).len ≤ ncMaxMsg ∧ (ch.outgoing p).fragTotal ≤ ncMaxFrags

theorem Chan.Sliced.congr {fp : Nat} {ch ch' : Chan} (h : ch.Sliced fp)
    (hout : ∀ p, (ch'.outgoing p).active = true →
      (ch'.outgoing p).msg = (ch.outgoing p).msg) : ch'.Sliced fp := by
  intro p hact
  have hmsg := hout p hact
  simp only [Outgoing.msg, OutMsg.mk.injEq] at hmsg
  obtain ⟨-, -, hlen, htotal, hact'⟩ := hmsg
  rw [hlen, htotal]
  exact h p (hact' ▸ hact)

def Core.Sliced (s : Core) : Prop :=
  ∀ k, s.chanUsed k = true → (s.chanPool k).Sliced (maxFragPayload s.cfg)

theorem SendKept.sliced {k : Nat} {s s' : Core} {fp : Nat} (h : SendKept k s s')
    (hs : (s.chanPool k).Sliced fp) : (s'.chanPool k).Sliced fp := by
  have hhalf := h.half
  simp only [Chan.sendHalf, SendHalf.mk.injEq] at hhalf
  exact hs.congr fun p _ => congrFun hhalf.2.2.2 p

theorem Core.Sliced.kept {s s' : Core} (h : s.Sliced) (hs : Core.Steady s s')
    (hkept : ∀ k, s.chanUsed k = true → SendKept k s s') : s'.Sliced := by
  intro k hk
  rw [hs.chanUsed] at hk
  rw [hs.cfg]
  exact (hkept k hk).sliced (h k hk)

theorem Core.Sliced.opens {s s' : Core} (h : s.Sliced) (ho : Core.Opens s s') : s'.Sliced := by
  obtain ⟨k, ch, -, -, ⟨id, type, dir, role, ct, state, rfl⟩, rfl⟩ := ho
  intro j hj
  by_cases hjk : j = k
  · subst hjk
    intro p hact
    simp [Core.addChan, Chan.fresh, Chan.zero, Outgoing.zero] at hact
  · simp only [Core.addChan, Function.update_of_ne hjk] at hj ⊢
    exact h j hj

theorem Core.Sliced.touch {s s' : Core} {k : Nat} (h : s.Sliced) (ht : Core.Touch k s s')
    (hk : (s'.chanPool k).Sliced (maxFragPayload s.cfg)) : s'.Sliced := by
  intro j hj
  rw [ht.chanUsed] at hj
  rw [ht.cfg]
  by_cases hjk : j = k
  · rw [hjk]
    exact hk
  · rw [ht.other j hjk]
    exact h j hj

theorem advanceHeadLoop_head (fuel : Nat) (ch : Chan) :
    ∃ head, advanceHeadLoop fuel ch = { ch with outHead := head } := by
  induction fuel generalizing ch with
  | zero => exact ⟨ch.outHead, rfl⟩
  | succ fuel ih =>
    unfold advanceHeadLoop
    split_ifs
    · exact ih _
    · exact ⟨ch.outHead, rfl⟩

theorem advanceHead_chan (s : Core) (k : Nat) :
    ∃ head, (advanceHead s k).chanPool k = { s.chanPool k with outHead := head } := by
  obtain ⟨head, hloop⟩ := advanceHeadLoop_head ncOutgoingSlots (s.chanPool k)
  exact ⟨head, by simp [advanceHead, Core.modChan, hloop]⟩

theorem advanceHead_outgoing (s : Core) (k : Nat) :
    ((advanceHead s k).chanPool k).outgoing = (s.chanPool k).outgoing := by
  obtain ⟨head, hchan⟩ := advanceHead_chan s k
  rw [hchan]

theorem sentFragment_sliced {s : Core} {k j : Nat} {fp : Nat} (h : (s.chanPool k).Sliced fp)
    (now : UInt32) : ((sentFragment now s k j).chanPool k).Sliced fp := by
  refine h.congr fun p hact => ?_
  rw [sentFragment_eq] at hact ⊢
  by_cases hpj : p = j
  · subst hpj
    split_ifs at hact ⊢
    · rw [advanceHead_outgoing, setOut_chan] at hact
      simp [Outgoing.freed] at hact
    · rw [setOut_chan]
      simp only [Function.update_self]
      rfl
  · split_ifs
    · rw [advanceHead_outgoing, setOut_chan, poolPut_chanPool, setOut_chan]
      simp [Function.update_of_ne hpj]
    · rw [setOut_chan]
      simp [Function.update_of_ne hpj]

theorem chanWrite_sliced {s : Core} {k : Nat} (h : (s.chanPool k).Sliced (maxFragPayload s.cfg))
    (hfp : 9 ≤ maxFragPayload s.cfg) (data : List UInt8) :
    ((chanWrite s k data).1.chanPool k).Sliced (maxFragPayload s.cfg) := by
  rcases chanWrite_cases s k data with ⟨r, heq⟩ | ⟨-, -, heq⟩ | ⟨hcan, hfew, heq⟩
  · rwa [heq]
  · rw [heq]
    intro p hact
    simp only [Function.update_self, Chan.spoiled] at hact ⊢
    by_cases hp : p = (s.chanPool k).outTail
    · subst hp
      simp [Outgoing.zero] at hact
    · rw [Function.update_of_ne hp] at hact ⊢
      exact h p hact
  · obtain ⟨-, -, hpos, hlen, -⟩ := hcan
    have hcut := fragCount_cut hfp hpos hlen
    rw [heq]
    intro p hact
    simp only [Core.mark, Core.takeInto, Function.update_self, Chan.queued] at hact ⊢
    by_cases hp : p = (s.chanPool k).outTail
    · subst hp
      simp only [Function.update_self]
      exact ⟨hcut.lo, hlen, hfew⟩
    · rw [Function.update_of_ne hp] at hact ⊢
      exact h p hact

/-! ## Frames -/

/-- The fragment that `chan_next_sendable` found. -/
structure Slice (s : Core) (k p : Nat) (seq : UInt16) (fragIdx fragTotal : UInt8)
    (payload : List UInt8) : Prop where
  slot : p < ncOutgoingSlots
  active : ((s.chanPool k).outgoing p).active = true
  seq : seq = ((s.chanPool k).outgoing p).seq
  few : ((s.chanPool k).outgoing p).fragTotal ≤ ncMaxFrags
  idx : fragIdx.toNat < ((s.chanPool k).outgoing p).fragTotal
  total : fragTotal.toNat = ((s.chanPool k).outgoing p).fragTotal
  payload : payload = s.bytes
    (poolPtr ((s.chanPool k).outgoing p).buf + fragIdx.toNat * maxFragPayload s.cfg)
    (min (((s.chanPool k).outgoing p).len - fragIdx.toNat * maxFragPayload s.cfg)
      (maxFragPayload s.cfg))

/-- What the frames of a packet mean in the state the packet was built in. -/
def Conn.Sends (c : Conn) : Frame → Prop
  | .data id seq fragIdx fragTotal payload =>
    payload.length ≤ maxFragPayload c.cfg ∧
      ∃ k, c.channels id = some k ∧ (c.chanPool k).role = .sender ∧
        ((c.chanPool k).type = netchanReliable →
          ∃ p, Slice c.toCore k p seq fragIdx fragTotal payload)
  | .ack id seq =>
    ∃ k, c.channels id = some k ∧ (c.chanPool k).needAck = true ∧ seq = (c.chanPool k).ackSeq
  | .windowUpdate _ window => window ≤ c.cfg.chanWindow
  | _ => True

/-- The frames of the acknowledgement part of a packet. -/
def Conn.Acks (c : Conn) : Frame → Prop
  | .ack id seq =>
    ∃ k, c.channels id = some k ∧ (c.chanPool k).needAck = true ∧ seq = (c.chanPool k).ackSeq
  | .windowUpdate _ window => ∃ k, c.chanUsed k = true ∧ window ≤ (c.chanPool k).recvWindow
  | _ => False

theorem Conn.Acks.sendable {c : Conn} {f : Frame} (h : c.Acks f) : f.Sendable := by
  cases f with
  | ack id seq => trivial
  | windowUpdate id window => trivial
  | _ => exact h.elim

theorem Conn.Acks.sends {c : Conn} {f : Frame} (h : c.Acks f)
    (hwindow : ∀ k, c.chanUsed k = true → (c.chanPool k).recvWindow = c.cfg.chanWindow) :
    c.Sends f := by
  cases f with
  | ack id seq => exact h
  | windowUpdate id window =>
    obtain ⟨k, hk, hle⟩ := h
    rw [hwindow k hk] at hle
    exact hle
  | _ => exact h.elim

/-- A list of bytes was extended by frames that satisfy `Q`. -/
def Extends (Q : Frame → Prop) (out out' : List UInt8) : Prop :=
  ∃ fs : List Frame, out' = out ++ fs.flatMap Frame.encode ∧ ∀ f ∈ fs, Q f

namespace Extends

variable {Q Q' : Frame → Prop} {out out' out'' : List UInt8}

theorem refl (Q : Frame → Prop) (out : List UInt8) : Extends Q out out := ⟨[], by simp, by simp⟩

theorem single {f : Frame} (hf : Q f) (out : List UInt8) : Extends Q out (out ++ f.encode) :=
  ⟨[f], by simp, by simpa using hf⟩

theorem trans (h : Extends Q out out') (h' : Extends Q out' out'') : Extends Q out out'' := by
  obtain ⟨fs, hfs, hQ⟩ := h
  obtain ⟨fs', hfs', hQ'⟩ := h'
  refine ⟨fs ++ fs', by rw [hfs', hfs, List.flatMap_append, List.append_assoc], fun f hf => ?_⟩
  rcases List.mem_append.1 hf with hf | hf
  · exact hQ f hf
  · exact hQ' f hf

theorem mono (h : Extends Q out out') (hQ : ∀ f, Q f → Q' f) : Extends Q' out out' := by
  obtain ⟨fs, hfs, hfsQ⟩ := h
  exact ⟨fs, hfs, fun f hf => hQ f (hfsQ f hf)⟩

end Extends

theorem flushAck_extends {c : Conn} {k : Nat} (hid : c.channels (c.chanPool k).id = some k)
    (mtu : Nat) (out : List UInt8) : Extends c.Acks out (flushAck mtu c k out).2 := by
  simp only [flushAck]
  split_ifs with hneed
  · exact Extends.single (f := .ack (c.chanPool k).id (c.chanPool k).ackSeq)
      ⟨k, hid, hneed.1, rfl⟩ out
  · exact Extends.refl _ out

theorem flushWindow_extends {c : Conn} (mtu : Nat) {k : Nat} (hk : c.chanUsed k = true)
    (out : List UInt8) : Extends c.Acks out (flushWindow mtu c k out).2 := by
  have hle : (if (c.chanPool k).recvWindow > (c.chanPool k).recvBuffered then
      (c.chanPool k).recvWindow - (c.chanPool k).recvBuffered else 0) ≤
      (c.chanPool k).recvWindow := by
    rw [UInt32.le_iff_toNat_le]
    split_ifs with hlt
    · rw [UInt32.toNat_sub_of_le _ _ (UInt32.le_of_lt hlt)]
      exact Nat.sub_le _ _
    · exact Nat.zero_le _
  simp only [flushWindow]
  generalize (if (c.chanPool k).recvWindow > (c.chanPool k).recvBuffered then
    (c.chanPool k).recvWindow - (c.chanPool k).recvBuffered else 0) = window at hle ⊢
  split_ifs
  · exact Extends.single (f := .windowUpdate (c.chanPool k).id window) ⟨k, hk, hle⟩ out
  · exact Extends.refl _ out

theorem Conn.Acks.back {c d : Conn} (hs : Core.Steady c.toCore d.toCore)
    (hkeep : ∀ k, ((d.chanPool k).needAck = true → (c.chanPool k).needAck = true) ∧
      (d.chanPool k).ackSeq = (c.chanPool k).ackSeq) {f : Frame} (hf : d.Acks f) : c.Acks f := by
  cases f with
  | ack id seq =>
    obtain ⟨k, hk, hneed, hseq⟩ := hf
    rw [hs.channels] at hk
    exact ⟨k, hk, (hkeep k).1 hneed, by rw [hseq, (hkeep k).2]⟩
  | windowUpdate id window =>
    obtain ⟨k, hk, hle⟩ := hf
    have hident := hs.ident k
    simp only [Chan.ident, ChanIdent.mk.injEq] at hident
    exact ⟨k, hs.chanUsed ▸ hk, hident.2.2.2 ▸ hle⟩
  | _ => exact hf.elim

theorem flushAcks_extends (mtu : Nat) (is : List Nat) {c : Conn} (h : c.toCore.Good)
    (out : List UInt8) : Extends c.Acks out (flushAcks mtu is c out).2 := by
  refine (flushAcks_rule (P := fun d out' => d.toCore.Good ∧ Extends c.Acks out out' ∧
    ∀ f, d.Acks f → c.Acks f) (fun d k id out' hid ⟨h, hext, hback⟩ => ?_) is
    ⟨h, Extends.refl _ out, fun _ hf => hf⟩).2.1
  obtain ⟨-, hk, hchid⟩ := h.inv.table _ k hid
  obtain ⟨-, ht1⟩ := flushAck_good h hk mtu out'
  obtain ⟨h2, ht2⟩ := flush_good h hk mtu out'
  have hack := (flushAck_extends (by rw [hchid, hid]) mtu out').mono hback
  have hwin := (flushWindow_extends mtu (ht1.used hk) (flushAck mtu d k out').2).mono fun f hf =>
    hback f (hf.back (Core.Steady.of_touch ht1 hk) fun j => flushAck_ackSeq mtu d k out' j)
  -- what is acknowledged later was asked for before
  exact ⟨h2, (hext.trans hack).trans hwin, fun f hf => hback f
    (hf.back (Core.Steady.of_touch ht2 hk) (flush_ackSeq mtu d k out' (flushAck mtu d k out').2))⟩

/-- The frames of the data part of a packet. -/
def Conn.SendsData (c : Conn) : Frame → Prop
  | f@(.data _ _ _ _ _) => f.Sendable ∧ c.Sends f
  | _ => False

theorem Conn.SendsData.sends {c : Conn} {f : Frame} (h : c.SendsData f) :
    f.Sendable ∧ c.Sends f := by
  cases f with
  | data id seq fragIdx fragTotal payload => exact h
  | _ => exact h.elim

theorem fragLen_eq {cfg : Cfg} {o : Outgoing} (hlen : o.len ≤ ncMaxMsg)
    (hidx : o.fragSent * maxFragPayload cfg < o.len) :
    fragLen cfg o = min (o.len - o.fragSent * maxFragPayload cfg) (maxFragPayload cfg) := by
  have hmax : ncMaxMsg < 2 ^ 64 := by decide
  unfold fragLen sizeSub
  congr 1
  omega

theorem dataFrame_slice {c : Conn} {k j : Nat} {id : UInt8} (hid : c.channels id = some k)
    (hchid : (c.chanPool k).id = id) (hrole : (c.chanPool k).role = .sender)
    (hs : (c.chanPool k).Sliced (maxFragPayload c.cfg)) (hj : j < 64)
    (hact : ((c.chanPool k).outgoing j).active = true)
    (hsent : ((c.chanPool k).outgoing j).fragSent < ((c.chanPool k).outgoing j).fragTotal) :
    ∃ f, c.SendsData f ∧ dataFrame c.toCore k j = f.encode := by
  obtain ⟨hlo, hlen, hfew⟩ := hs j hact
  generalize ho : (c.chanPool k).outgoing j = o at *
  have hidx : o.fragSent * maxFragPayload c.cfg < o.len :=
    lt_of_le_of_lt (Nat.mul_le_mul_right _ (by omega)) hlo
  have hflen := fragLen_eq hlen hidx
  have hmax : ncMaxMsg < 2 ^ 16 := by decide
  simp only [ncMaxFrags] at hfew
  have hsmall : (UInt8.ofNat o.fragSent).toNat = o.fragSent := by
    rw [UInt8.toNat_ofNat', Nat.mod_eq_of_lt (by omega)]
  have htotal : (UInt8.ofNat o.fragTotal).toNat = o.fragTotal := by
    rw [UInt8.toNat_ofNat', Nat.mod_eq_of_lt (by omega)]
  have hsize : (c.bytes (poolPtr o.buf + o.fragSent * maxFragPayload c.cfg)
      (fragLen c.cfg o)).length = fragLen c.cfg o := by simp [Core.bytes]
  refine ⟨.data id o.seq (UInt8.ofNat o.fragSent) (UInt8.ofNat o.fragTotal)
    (c.bytes (poolPtr o.buf + o.fragSent * maxFragPayload c.cfg) (fragLen c.cfg o)), ⟨?_, ?_⟩, ?_⟩
  · simp only [Frame.Sendable, hsize]
    omega
  · refine ⟨by rw [hsize, hflen]; exact Nat.min_le_right _ _, k, hid, hrole, fun _ => ⟨j, ?_⟩⟩
    refine ⟨hj, by rw [ho]; exact hact, by rw [ho], by rw [ho]; exact hfew,
      by rw [ho, hsmall]; exact hsent, by rw [ho, htotal], by rw [ho, hsmall, hflen]⟩
  · simp only [dataFrame, Frame.encode, ho, hsize, hchid]

theorem Slice.of_kept {s s' : Core} {k p : Nat} {seq : UInt16} {fragIdx fragTotal : UInt8}
    {payload : List UInt8} (h : Slice s' k p seq fragIdx fragTotal payload)
    (hinv : s.Inv) (hk : s.chanUsed k = true) (hcfg : s'.cfg = s.cfg) (hkept : SendKept k s s') :
    Slice s k p seq fragIdx fragTotal payload := by
  have hhalf := hkept.half
  simp only [Chan.sendHalf, SendHalf.mk.injEq] at hhalf
  have hmsg := congrFun hhalf.2.2.2 p
  simp only [Outgoing.msg, OutMsg.mk.injEq] at hmsg
  obtain ⟨hseq, hbuf, hlen, htotal, hactive⟩ := hmsg
  have hact : ((s.chanPool k).outgoing p).active = true := hactive ▸ h.active
  obtain ⟨⟨b, hb⟩, hle⟩ := (hinv.chans k hk).out.busy p h.slot hact
  have hslot : s.bufAt (.slot k (.outgoing p)) = some b := by
    have hp := h.slot
    simp only [ncOutgoingSlots] at hp
    simp [Core.bufAt, Chan.bufAt, hk, hact, hb, hp]
  refine ⟨h.slot, hact, hseq ▸ h.seq, htotal ▸ h.few, htotal ▸ h.idx, htotal ▸ h.total, ?_⟩
  rw [h.payload, hbuf, hlen, hcfg, hb]
  simp only [Core.bytes, poolPtr, Option.getD_some]
  apply Memory.read_congr
  intro x hx
  rw [Nat.add_assoc]
  exact hkept.keeps.store k (.outgoing p) b ⟨rfl, rfl⟩ hslot _ (by omega)

theorem Conn.SendsData.of_kept {c c' : Conn} {f : Frame} (h : c'.SendsData f)
    (hgood : c.toCore.Good) (hsteady : Core.Steady c.toCore c'.toCore)
    (hkept : ∀ k, c.chanUsed k = true → (c.chanPool k).type = netchanReliable →
      SendKept k c.toCore c'.toCore) : c.SendsData f := by
  cases f with
  | data id seq fragIdx fragTotal payload =>
    obtain ⟨hsend, hlen, k, hid, hrole, hslice⟩ := h
    rw [hsteady.channels] at hid
    have hident := hsteady.ident k
    simp only [Chan.ident, ChanIdent.mk.injEq] at hident
    obtain ⟨-, htype, hrole', -⟩ := hident
    have hk := (hgood.inv.table id k hid).2.1
    refine ⟨hsend, hsteady.cfg ▸ hlen, k, hid, hrole' ▸ hrole, fun hrel => ?_⟩
    obtain ⟨p, hp⟩ := hslice (htype.trans hrel)
    exact ⟨p, hp.of_kept hgood.inv hk hsteady.cfg (hkept k hk hrel)⟩
  | _ => exact h.elim

theorem sendData_extends (env : Env) (mtu : Nat) (is : List Nat) {c : Conn} (h : c.toCore.Good)
    (hs : c.toCore.Sliced) (out : List UInt8) :
    Extends c.SendsData out (sendData env mtu is c out).2 := by
  refine (sendData_good_rule (P := fun d out' => d.toCore.Sliced ∧ Extends c.SendsData out out' ∧
    ∀ f, d.SendsData f → c.SendsData f) (fun d k j now out' hdue ⟨hs, hext, hback⟩ => ?_) is h
    ⟨hs, Extends.refl _ out, fun _ hf => hf⟩).2.2.1
  obtain ⟨-, ht⟩ := sentFragment_good hdue.good hdue.used hdue.lt hdue.active now
  obtain ⟨f, hf, henc⟩ := dataFrame_slice hdue.id rfl hdue.role (hs k hdue.used) hdue.lt
    hdue.active hdue.left
  refine ⟨hs.touch ht (sentFragment_sliced (hs k hdue.used) _), ?_, fun g hg => hback g ?_⟩
  · rw [henc]
    exact hext.trans (Extends.single (hback f hf) out')
  · exact hg.of_kept hdue.good (Core.Steady.of_touch ht hdue.used) fun k' hk' hrel =>
      sentFragment_sendKept hdue.good hdue.used hdue.lt hdue.active hk' hrel now

theorem sendData_sliced (env : Env) (mtu : Nat) (is : List Nat) {c : Conn} (h : c.toCore.Good)
    (hs : c.toCore.Sliced) (out : List UInt8) :
    (sendData env mtu is c out).1.toCore.Sliced :=
  (sendData_good_rule (P := fun d _ => d.toCore.Sliced) (fun _ k _ now _ hdue hs =>
    hs.touch (sentFragment_good hdue.good hdue.used hdue.lt hdue.active now).2
      (sentFragment_sliced (hs k hdue.used) now)) is h hs).2

/-! ## The packet -/

theorem sendHeader_snd (c : Conn) :
    (sendHeader c).2.length = headerSize c ∧
      ∀ rest, packetFrames ((sendHeader c).2 ++ rest) = rest := by
  have hinit : ncPktFlagInit &&& ncPktFlagInit ≠ 0 := by decide
  have hfull : ¬ncPktFlagPktnum &&& ncPktFlagInit ≠ 0 := by decide
  simp only [sendHeader, headerSize]
  split_ifs
  · refine ⟨rfl, fun rest => ?_⟩
    unfold packetFrames
    rw [if_pos (by exact hinit)]
    rfl
  · refine ⟨rfl, fun rest => ?_⟩
    unfold packetFrames
    rw [if_neg (by exact hfull)]
    rfl

theorem sendHeader_ctrlBuf (c : Conn) : (sendHeader c).1.ctrlBuf = c.ctrlBuf := by
  simp only [sendHeader]
  split_ifs <;> rfl

theorem packetCtrl_eq (c : Conn) (buflen : Nat) :
    (packetCtrl (min c.cfg.mtu.toNat buflen) c).2 = (sendHeader c).2 ++ ctrlTaken c buflen ∧
      (packetCtrl (min c.cfg.mtu.toNat buflen) c).1.ctrlBuf =
        c.ctrlBuf.drop (sizeSub (min c.cfg.mtu.toNat buflen) (headerSize c)) := by
  simp only [packetCtrl, flushCtrl, sendHeader_ctrlBuf, (sendHeader_snd c).1, ctrlTaken]
  constructor
  · rw [Nat.min_comm, ← List.take_eq_take_min]
  · rcases Nat.le_total c.ctrlBuf.length (sizeSub (min c.cfg.mtu.toNat buflen) (headerSize c))
      with hle | hle
    · rw [Nat.min_eq_left hle, List.drop_eq_nil_of_le hle, List.drop_length]
    · rw [Nat.min_eq_right hle]

theorem flushAcks_ctrlBuf (mtu : Nat) (is : List Nat) (c : Conn) (out : List UInt8) :
    (flushAcks mtu is c out).1.ctrlBuf = c.ctrlBuf := by
  refine flushAcks_rule (P := fun d _ => d.ctrlBuf = c.ctrlBuf) (fun d k _ out _ h => ?_) is rfl
  have hack : (flushAck mtu d k out).1.ctrlBuf = d.ctrlBuf := by
    rw [flushAck_eq]
    split_ifs <;> rfl
  have hwin : ∀ c' out', (flushWindow mtu c' k out').1.ctrlBuf = c'.ctrlBuf := by
    intro c' out'
    rw [flushWindow_eq]
    split_ifs <;> rfl
  exact ((hwin _ _).trans hack).trans h

theorem sendData_ctrlBuf (env : Env) (mtu : Nat) (is : List Nat) (c : Conn) (out : List UInt8) :
    (sendData env mtu is c out).1.ctrlBuf = c.ctrlBuf :=
  sendData_rule (P := fun d _ => d.ctrlBuf = c.ctrlBuf) (fun _ _ _ _ _ _ _ _ _ _ h => h) is rfl

theorem packetAcks_sliced {c : Conn} (h : c.toCore.Good) (hs : c.toCore.Sliced) (mtu : Nat) :
    (packetAcks mtu c).1.toCore.Sliced ∧ Core.Steady c.toCore (packetAcks mtu c).1.toCore ∧
      ∀ k, c.chanUsed k = true → SendKept k c.toCore (packetAcks mtu c).1.toCore := by
  have hcore := packetCtrl_toCore mtu c
  have hsteady : Core.Steady c.toCore (packetAcks mtu c).1.toCore := by
    have hst := flushAcks_steady mtu (List.range ncMaxChannels) (c := (packetCtrl mtu c).1)
      (hcore ▸ h) (packetCtrl mtu c).2
    rwa [hcore] at hst
  have hkept : ∀ k, c.chanUsed k = true → SendKept k c.toCore (packetAcks mtu c).1.toCore := by
    intro k hk
    have hkp := (flushAcks_kept mtu (List.range ncMaxChannels) (c := (packetCtrl mtu c).1)
      (k := k) (by rw [hcore]; exact hk) (packetCtrl mtu c).2).2
    rwa [hcore] at hkp
  exact ⟨hs.kept hsteady hkept, hsteady, hkept⟩

/-- A packet is a header and frames that mean what the sender's state says; the control
queue keeps the frames that did not fit. -/
theorem netchanSendNext_packet (env : Env) {c : Conn} (h : c.toCore.Good) (hs : c.toCore.Sliced)
    (hwindow : ∀ k, c.chanUsed k = true → (c.chanPool k).recvWindow = c.cfg.chanWindow)
    {buflen : Nat} (hwhole : CtrlWhole c buflen) {gs : List Frame}
    (hgs : CtrlFrames c.ctrlBuf gs) (hoffers : ∀ g ∈ gs, g.Offers c.cfg.chanWindow) :
    (netchanSendNext env c buflen).1.toCore.Sliced ∧
    (∃ gs', CtrlFrames (netchanSendNext env c buflen).1.ctrlBuf gs' ∧
      ∀ g ∈ gs', g.Offers c.cfg.chanWindow) ∧
    ∀ pkt addr, (netchanSendNext env c buflen).2 = some (pkt, addr) →
      ∃ fs : List Frame, packetFrames pkt = fs.flatMap Frame.encode ∧
        ∀ f ∈ fs, f.Sendable ∧ c.Sends f := by
  rw [netchanSendNext_eq]
  split_ifs
  · exact ⟨hs, ⟨gs, hgs, hoffers⟩, fun pkt addr hpkt => by cases hpkt⟩
  obtain ⟨fs, gs', rfl, hfs, hgs'⟩ := hwhole.split hgs
  obtain ⟨hout, hbuf⟩ := packetCtrl_eq c buflen
  generalize hmtu : min c.cfg.mtu.toNat buflen = mtu at *
  have hcore := packetCtrl_toCore mtu c
  -- the acknowledgements
  have hacks : Extends c.Acks (packetCtrl mtu c).2 (packetAcks mtu c).2 := by
    refine (flushAcks_extends mtu (List.range ncMaxChannels) (c := (packetCtrl mtu c).1)
      (hcore ▸ h) (packetCtrl mtu c).2).mono fun f hf => ?_
    exact hf.back (Core.Steady.of_eq hcore) fun k => by
      rw [hcore]
      exact ⟨id, rfl⟩
  obtain ⟨hs1, hsteady, hkept⟩ := packetAcks_sliced h hs mtu
  have hgood1 := packetAcks_good h mtu
  -- the data
  have hdata := (sendData_extends env mtu (List.range ncMaxChannels) hgood1 hs1
    (packetAcks mtu c).2).mono fun f hf => hf.of_kept h hsteady fun k hk _ => hkept k hk
  refine ⟨?_, ⟨gs', ?_, fun g hg => hoffers g (List.mem_append_right _ hg)⟩,
    fun pkt addr hpkt => ?_⟩
  · exact sendData_sliced env mtu (List.range ncMaxChannels) hgood1 hs1 (packetAcks mtu c).2
  · have hrest : (packetData env mtu c).1.ctrlBuf = (packetCtrl mtu c).1.ctrlBuf :=
      (sendData_ctrlBuf env mtu _ _ _).trans (flushAcks_ctrlBuf mtu _ _ _)
    change CtrlFrames (packetData env mtu c).1.ctrlBuf gs'
    rw [hrest, hbuf]
    exact hgs'
  · simp only [Option.some.injEq, Prod.mk.injEq] at hpkt
    obtain ⟨fs1, hfs1, hq1⟩ := hacks
    obtain ⟨fs2, hfs2, hq2⟩ := hdata
    refine ⟨fs ++ fs1 ++ fs2, ?_, fun f hf => ?_⟩
    · rw [← hpkt.1]
      have hall : (packetData env mtu c).2 =
          (sendHeader c).2 ++ (fs ++ fs1 ++ fs2).flatMap Frame.encode := by
        change (sendData env mtu (List.range ncMaxChannels) (packetAcks mtu c).1
          (packetAcks mtu c).2).2 = _
        rw [hfs2, hfs1, hout, hfs.1]
        simp only [List.flatMap_append, List.append_assoc]
      rw [hall, (sendHeader_snd c).2]
    · rcases List.mem_append.1 hf with hf | hf
      · rcases List.mem_append.1 hf with hf | hf
        · obtain ⟨hsend, hctrl⟩ := hfs.2 f hf
          refine ⟨hsend, ?_⟩
          cases f with
          | data id seq fragIdx fragTotal payload => cases hctrl
          | ack id seq => cases hctrl
          | windowUpdate id window => exact hoffers _ (List.mem_append_left _ hf)
          | _ => trivial
        · exact ⟨(hq1 f hf).sendable, (hq1 f hf).sends hwindow⟩
      · exact (hq2 f hf).sends

end MechanicalResearcher.NetchanV2
