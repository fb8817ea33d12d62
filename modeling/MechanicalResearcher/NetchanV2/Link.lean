import MechanicalResearcher.NetchanV2.Ends
import MechanicalResearcher.NetchanV2.Moves

/-!
# A reliable channel between two sides

The joint invariant of one channel: the two ends, and what the packets in flight
say about it.  DATA frames of the sending side are fragments of its messages, ACK
frames of the receiving side name a message it has counted, and no window it grants
is larger than its own.  A run keeps it under the guard `LinkOk`; what a theorem asks
of its runs beyond that is in the `Terms`.
-/

namespace MechanicalResearcher.NetchanV2

open Lib Lib.Serial Lib.Pieces Lib.Runs Lib.Network

variable {n k : Nat} {W : List (List UInt8)} {f : Frame} {s : Core} {cfg : Bool → Cfg}

/-! ## Packets in flight -/

/-- The packet is a sequence of frames that satisfy `Q`. -/
def Flight.Says (Q : Frame → Prop) (p : Flight) : Prop :=
  ∃ fs : List Frame, packetFrames p.pkt = fs.flatMap Frame.encode ∧ ∀ f ∈ fs, f.Sendable ∧ Q f

theorem Flight.Says.mono {Q Q' : Frame → Prop} {p : Flight} (h : p.Says Q)
    (hQ : ∀ f, Q f → Q' f) : p.Says Q' := by
  obtain ⟨fs, hfs, hall⟩ := h
  exact ⟨fs, hfs, fun f hf => ⟨(hall f hf).1, hQ f (hall f hf).2⟩⟩

theorem Flight.Says.fed {Q : Frame → Prop} {p : Flight} (h : p.Says Q) {c : Conn}
    {fn : Frame × Nat} (hfn : fn ∈ fedFrames c p.pkt) : Q fn.1 := by
  obtain ⟨fs, hfs, hall⟩ := h
  unfold fedFrames at hfn
  split_ifs at hfn
  · rw [hfs] at hfn
    have hmem : fn.1 ∈ (frames c.server (fs.flatMap Frame.encode)).map Prod.fst :=
      List.mem_map_of_mem hfn
    rw [frames_encode c.server fs fun f hf => (hall f hf).1] at hmem
    exact (hall fn.1 (List.takeWhile_subset _ hmem)).2
  · cases hfn

/-- A frame of the sending side, built when it had written `n` of the messages `W`. -/
def DataSaid (fp : Nat) (id : UInt8) (W : List (List UInt8)) (n : Nat) (f : Frame) : Prop :=
  ∀ d, f.toData? = some d →
    d.payload.length ≤ fp ∧ (d.id = id → ∃ j msg, Fragment fp W n d j msg)

theorem DataSaid.mono {fp : Nat} {id : UInt8} {W' : List (List UInt8)} (hW : W <+: W')
    (h : DataSaid fp id W n f) : DataSaid fp id W' n f := by
  intro d hd
  refine ⟨(h d hd).1, fun he => ?_⟩
  obtain ⟨j, msg, hf⟩ := (h d hd).2 he
  obtain ⟨rest, rfl⟩ := hW
  refine ⟨j, msg, ⟨?_, hf.num.lt, hf.num.recent, hf.num.seq⟩, hf.idx, hf.cut, hf.len_le,
    hf.payload⟩
  rw [List.getElem?_append_left (List.getElem?_eq_some_iff.1 hf.num.msg).1]
  exact hf.num.msg

/-- A frame of the receiving side, built when it had counted `g` messages; now it has
counted `n`, and no window it grants is larger than `w`. -/
def AckSaid (fp : Nat) (id : UInt8) (w : UInt32) (n g : Nat) (P : Nat → Prop) (f : Frame) : Prop :=
  (∀ d, f.toData? = some d → d.payload.length ≤ fp) ∧ f.Offers w ∧
    ∀ seq, f = .ack id seq → ∃ a, seq = UInt16.ofNat a ∧ g ≤ a + 1 ∧ a ≤ g ∧ g ≤ n ∧ P (a + 1)

theorem AckSaid.mono {fp n' g : Nat} {id : UInt8} {w : UInt32} {P P' : Nat → Prop} (hn : n ≤ n')
    (hP : ∀ b, P b → P' b) (h : AckSaid fp id w n g P f) : AckSaid fp id w n' g P' f := by
  refine ⟨h.1, h.2.1, fun seq hseq => ?_⟩
  obtain ⟨a, h1, h2, h3, h4, h5⟩ := h.2.2 seq hseq
  exact ⟨a, h1, h2, h3, h4.trans hn, hP _ h5⟩

/-! ## What an acknowledgement goes back to -/

/-- When `b` messages had been handed over, every one that was queued was read: what the
queue holds now are later messages. -/
def Passed (k : Nat) (log : List Mark) (b : Nat) : Prop :=
  b ≤ (handed k log).length ∧
    msgBytes (taken k log) ≤ msgBytes (reads k log) + msgBytes ((handed k log).drop b)

theorem Passed.zero (k : Nat) (log : List Mark) : Passed k log 0 :=
  ⟨Nat.zero_le _, (msgBytes_sublist (taken_sublist_handed k log)).trans (Nat.le_add_left _ _)⟩

theorem Passed.append {log : List Mark} {b : Nat} (h : Passed k log b) (ms : List Mark) :
    Passed k (log ++ ms) b := by
  obtain ⟨hb, hle⟩ := h
  have hms := msgBytes_sublist (taken_sublist_handed k ms)
  rw [Passed, handed_append, taken_append, reads_append, List.drop_append_of_le_length hb,
    List.length_append]
  simp only [msgBytes_append]
  omega

/-- Before its first `b` messages were acknowledged, the receiving side had counted them,
or had read what was queued of them. -/
def Core.Acked (s : Core) (T : Terms) (id : UInt8) (b : Nat) : Prop :=
  (T.acks → b ≤ s.gotOn id) ∧
    (T.drained → b = 0 ∨ ∃ k, s.channels id = some k ∧ Passed k s.log b)

namespace Core.Acked

variable {T : Terms} {id : UInt8} {b : Nat}

theorem zero (s : Core) (T : Terms) (id : UInt8) : s.Acked T id 0 :=
  ⟨fun _ => Nat.zero_le _, fun _ => Or.inl rfl⟩

theorem grows {s' : Core} (h : s.Acked T id b) (hg : Core.Grows s s') : s'.Acked T id b := by
  refine ⟨fun ht => (h.1 ht).trans (hg.gotOn_le id), fun ht => (h.2 ht).imp_right ?_⟩
  rintro ⟨k, hid, hpass⟩
  obtain ⟨ms, hlog⟩ := hg.log
  exact ⟨k, (hg.chan id k hid).1, hlog ▸ hpass.append ms⟩

theorem passed (h : s.Acked T id b) (ht : T.drained) (hid : s.channels id = some k) :
    Passed k s.log b := by
  rcases h.2 ht with rfl | ⟨k', hid', hpass⟩
  · exact Passed.zero k s.log
  · obtain rfl : k' = k := Option.some.inj (hid'.symm.trans hid)
    exact hpass

end Core.Acked

/-! ## What is sent -/

theorem inRing_slot {h t p : Nat} (hh : h < 64) (hp : p < 64) (hin : InRing h t p) :
    ∃ i < Ring.len 64 h t, (h + i) % 64 = p := by
  refine ⟨(p + 64 - h) % 64, hin, ?_⟩
  omega

theorem sends_fragment {P : Nat → Prop} {fp : Nat} {c : Conn} (hon : c.Honest fp)
    (hend : SendEnd n P c.toCore k) (hk : c.chanUsed k = true)
    (hrel : (c.chanPool k).type = netchanReliable) {d : DataFrame} (hid : c.channels d.id = some k)
    (hs : c.Sends d.frame) :
    ∃ j msg, Fragment fp (writes k c.log) (writes k c.log).length d j msg := by
  obtain ⟨-, k', hid', -, hslice⟩ := hs
  obtain rfl : k' = k := Option.some.inj (hid'.symm.trans hid)
  obtain ⟨p, hp⟩ := hslice hrel
  obtain ⟨base, bound, hout, -⟩ := hend
  have hring := (hon.good.inv.chans k' hk).out
  have hin : InRing (c.chanPool k').outHead (c.chanPool k').outTail p := by
    by_contra hno
    have hidle := hring.idle p hp.slot hno
    rw [hp.active] at hidle
    cases hidle
  obtain ⟨t, ht, rfl⟩ := inRing_slot hring.head_lt hp.slot hin
  obtain ⟨msg, hc⟩ := hout.held t ht hp.active
  have hcount := hout.count
  have hlt : outLen (c.chanPool k') < 64 := Ring.len_lt hring.head_lt hring.tail_lt
  have ht' : t < outLen (c.chanPool k') := ht
  refine ⟨base + t, msg, ⟨hc.msg, by omega, by omega, hp.seq.trans hc.seq⟩, ?_, ?_, hc.len_le, ?_⟩
  · rw [hp.total]
    exact hp.idx
  · rw [hp.total, ← hon.size]
    exact hc.cut
  · rw [hp.payload, hon.size, piece, ← hc.bytes, Memory.take_drop_read]
    rfl

theorem sends_ack {fp : Nat} {c : Conn} (hon : c.Honest fp) {id : UInt8}
    (hid : c.channels id = some k) {seq : UInt16} (hs : c.Sends (.ack id seq)) :
    (c.chanPool k).needAck = true ∧
    ∃ a, seq = UInt16.ofNat a ∧ advances k c.log ≤ a + 1 ∧ a ≤ advances k c.log ∧
      ((c.chanPool k).recvSeq ≠ 0 → a + 1 = advances k c.log) := by
  obtain ⟨k', hid', hneed, hseq⟩ := hs
  obtain rfl : k' = k := Option.some.inj (hid'.symm.trans hid)
  have hk := (hon.good.inv.table id k' hid).2.1
  have hrecv := hon.tally.seq k' hk
  obtain ⟨-, hack⟩ := (hon.good.settled k' hk).ack hneed
  rw [hack] at hseq
  refine ⟨hneed, ?_⟩
  split_ifs at hseq with hpos
  · -- `recv_seq` is positive, so something was counted
    obtain ⟨m, hm⟩ : ∃ m, advances k' c.log = m + 1 := by
      refine ⟨advances k' c.log - 1, ?_⟩
      have hne : advances k' c.log ≠ 0 := by
        intro h0
        rw [hrecv, h0] at hpos
        exact absurd hpos (by decide)
      omega
    refine ⟨m, ?_, by omega, by omega, fun _ => hm.symm⟩
    rw [hseq, hrecv, hm, ← ofNat_add_one, UInt16.add_sub_cancel]
  · have hzero : (c.chanPool k').recvSeq = 0 := by
      simpa [UInt16.lt_iff_toNat_lt, ← UInt16.toNat_inj] using hpos
    refine ⟨advances k' c.log, ?_, by omega, le_rfl, fun hne => absurd hzero hne⟩
    rw [hseq, ← hrecv, hzero]

/-! ## The invariant -/

/-- Where it is open, channel `id` is a reliable channel from `A` to `B`. -/
structure Kinds (id : UInt8) (A B : Core) : Prop where
  sender : ∀ k, A.channels id = some k →
    (A.chanPool k).role = .sender ∧ (A.chanPool k).type = netchanReliable
  receiver : ∀ k, B.channels id = some k →
    (B.chanPool k).role = .receiver ∧ (B.chanPool k).type = netchanReliable

theorem Kinds.back {id : UInt8} {A A' B B' : Core} (h : Kinds id A' B') (hA : Core.Grows A A')
    (hB : Core.Grows B B') : Kinds id A B := by
  refine ⟨fun k hk => ?_, fun k hk => ?_⟩
  · obtain ⟨hk', hident⟩ := hA.chan id k hk
    simp only [Chan.ident, ChanIdent.mk.injEq] at hident
    rw [← hident.2.1, ← hident.2.2.1]
    exact h.sender k hk'
  · obtain ⟨hk', hident⟩ := hB.chan id k hk
    simp only [Chan.ident, ChanIdent.mk.injEq] at hident
    rw [← hident.2.1, ← hident.2.2.1]
    exact h.receiver k hk'

structure Link (T : Terms) (fp : Nat) (id : UInt8) (A B : Conn) (fA fB : List Flight) :
    Prop where
  sender : A.Honest fp
  receiver : B.Honest fp
  data : ∀ p ∈ fA, p.Says (DataSaid fp id (A.sentOn id) (p.sent id))
  acks : ∀ p ∈ fB,
    p.Says (AckSaid fp id B.cfg.chanWindow (B.gotOn id) (p.got id) (B.toCore.Acked T id))
  send : ∀ k, A.channels id = some k → SendEnd (B.gotOn id) (B.toCore.Acked T id) A.toCore k
  recv : ∀ k, B.channels id = some k → RecvEnd T (A.sentOn id) B.toCore k
  window : A.toCore.AllChans fun _ ch => ch.sendWindow ≤ B.cfg.chanWindow

theorem gotOn_eq {id : UInt8} (hid : s.channels id = some k) :
    s.gotOn id = advances k s.log := by
  simp [Core.gotOn, hid]

theorem sentOn_eq {id : UInt8} (hid : s.channels id = some k) :
    s.sentOn id = writes k s.log := by
  simp [Core.sentOn, hid]

namespace Link

variable {T : Terms} {fp : Nat} {id : UInt8} {A B : Conn} {fA fB : List Flight}

theorem got_le (h : Link T fp id A B fA fB) : B.gotOn id ≤ (A.sentOn id).length := by
  cases hid : B.channels id with
  | none => simp [Core.gotOn, hid]
  | some k =>
    rw [gotOn_eq hid]
    exact (h.recv k hid).advances_le

theorem sent_le (h : Link T fp id A B fA fB) : (A.sentOn id).length ≤ B.gotOn id + 64 := by
  cases hid : A.channels id with
  | none => simp [Core.sentOn, hid]
  | some k =>
    rw [sentOn_eq hid]
    exact (h.send k hid).length_le h.sender.good.inv (h.sender.good.inv.table id k hid).2.1

theorem setSender (h : Link T fp id A B fA fB) {A' : Conn} (hon : A'.Honest fp)
    (hgrow : Core.Grows A.toCore A'.toCore)
    (hsend : ∀ k, A'.channels id = some k →
      SendEnd (B.gotOn id) (B.toCore.Acked T id) A'.toCore k)
    (hwindow : A'.toCore.AllChans fun _ ch => ch.sendWindow ≤ B.cfg.chanWindow) :
    Link T fp id A' B fA fB := by
  have hW := hgrow.sentOn_isPrefix id
  exact ⟨hon, h.receiver, fun p hp => (h.data p hp).mono fun f => DataSaid.mono hW, h.acks, hsend,
    fun k hk => (h.recv k hk).mono hW, hwindow⟩

theorem setReceiver (h : Link T fp id A B fA fB) {B' : Conn} (hon : B'.Honest fp)
    (hgrow : Core.Grows B.toCore B'.toCore)
    (hrecv : ∀ k, B'.channels id = some k → RecvEnd T (A.sentOn id) B'.toCore k) :
    Link T fp id A B' fA fB := by
  have hn := hgrow.gotOn_le id
  have hP : ∀ b, B.toCore.Acked T id b → B'.toCore.Acked T id b := fun b hb => hb.grows hgrow
  refine ⟨h.sender, hon, h.data, fun p hp => ?_, fun k hk => (h.send k hk).mono hn hP, hrecv, ?_⟩
  · rw [hgrow.cfg]
    exact (h.acks p hp).mono fun f => AckSaid.mono hn hP
  · rw [hgrow.cfg]
    exact h.window

theorem addData (h : Link T fp id A B fA fB) {ps : List Flight}
    (hps : ∀ p ∈ ps, p.Says (DataSaid fp id (A.sentOn id) (p.sent id))) :
    Link T fp id A B (fA ++ ps) fB := by
  refine ⟨h.sender, h.receiver, fun p hp => ?_, h.acks, h.send, h.recv, h.window⟩
  rcases List.mem_append.1 hp with hp | hp
  · exact h.data p hp
  · exact hps p hp

theorem addAcks (h : Link T fp id A B fA fB) {ps : List Flight}
    (hps : ∀ p ∈ ps,
      p.Says (AckSaid fp id B.cfg.chanWindow (B.gotOn id) (p.got id) (B.toCore.Acked T id))) :
    Link T fp id A B fA (fB ++ ps) := by
  refine ⟨h.sender, h.receiver, h.data, fun p hp => ?_, h.send, h.recv, h.window⟩
  rcases List.mem_append.1 hp with hp | hp
  · exact h.acks p hp
  · exact hps p hp

theorem drop (h : Link T fp id A B fA fB) {f f' : List Flight} (hf : f ⊆ fA) (hf' : f' ⊆ fB) :
    Link T fp id A B f f' :=
  ⟨h.sender, h.receiver, fun p hp => h.data p (hf hp), fun p hp => h.acks p (hf' hp), h.send,
    h.recv, h.window⟩

end Link

/-! ## Calls -/

/-- What the record of a channel is held to when its ACK frame is sent. -/
def Chan.AckOk (T : Terms) (ch : Chan) : Prop :=
  (T.acks → ch.recvSeq ≠ 0) ∧ (T.drained → ch.recvSeq ≠ 0 ∧ ch.recvBuffered = 0)

/-- What a call is held to. -/
def Conn.CallOk (T : Terms) (id : UInt8) (c : Conn) : Act → Prop
  | .feed _ _ _ => False
  | .sendNext _ buflen =>
    CtrlWhole c buflen ∧
      ∀ k, c.channels id = some k → (c.chanPool k).needAck = true → (c.chanPool k).AckOk T
  | .chanRead k buflen =>
    T.whole → c.channels id = some k →
      ((c.chanPool k).recvQueue (c.chanPool k).rqHead).len ≤ buflen
  | _ => True

section Calls

variable {T : Terms} {fp : Nat} {id : UInt8} {c : Conn} {a : Act}

theorem Conn.CallOk.notFeed (h : c.CallOk T id a) : a.isFeed = false := by
  cases a with
  | feed env pkt src => exact h.elim
  | _ => rfl

theorem Conn.CallOk.whole (h : c.CallOk T id a) (env : Env) (buflen : Nat)
    (ha : a = .sendNext env buflen) : CtrlWhole c buflen := by
  subst ha
  exact h.1

theorem emits_says (hon : c.Honest fp) (hok : c.CallOk T id a) {p : Flight}
    (hp : p ∈ c.emits a) :
    p.Says c.Sends ∧ p.sent id = (c.sentOn id).length ∧ p.got id = c.gotOn id ∧
      ∀ k, c.channels id = some k → (c.chanPool k).needAck = true → (c.chanPool k).AckOk T := by
  cases a with
  | sendNext env buflen =>
    obtain ⟨gs, hgs, hoffers⟩ := hon.ctrl
    obtain ⟨-, -, hpkt⟩ := netchanSendNext_packet env hon.good hon.sliced hon.window hok.1 hgs
      hoffers
    simp only [Conn.emits] at hp
    split at hp
    · cases hp
    · rename_i pkt addr heq
      obtain rfl := List.mem_singleton.1 hp
      exact ⟨hpkt pkt addr heq, rfl, rfl, hok.2⟩
  | _ => cases hp

theorem sendEnd_opens {P : Nat → Prop} (hP : P 0) (hon : c.Honest fp)
    (hsend : ∀ k, c.channels id = some k → SendEnd n P c.toCore k) (ho : Core.Opens c.toCore s)
    (k : Nat) (hid : s.channels id = some k) : SendEnd n P s k := by
  rcases ho.chan hid with ⟨hold, k₀, ch, hfree, heq⟩ | ⟨-, hfree, hblank, hlog⟩
  · have hk := (hon.good.inv.table id k hold).2.1
    rw [heq]
    exact (hsend k hold).sendKept hon.good.inv hk rfl (HalfKept.addChan hfree hk)
  · exact ⟨0, 0, Outbox.fresh hon.tally hfree hlog hblank 0, Nat.zero_le _, hP⟩

theorem recvEnd_opens (hon : c.Honest fp)
    (hrecv : ∀ k, c.channels id = some k → RecvEnd T W c.toCore k) (ho : Core.Opens c.toCore s)
    (k : Nat) (hid : s.channels id = some k) : RecvEnd T W s k := by
  rcases ho.chan hid with ⟨hold, k₀, ch, hfree, heq⟩ | ⟨-, hfree, hblank, hlog⟩
  · have hk := (hon.good.inv.table id k hold).2.1
    rw [heq]
    exact (hrecv k hold).recvKept hon.good.inv hk (HalfKept.addChan hfree hk)
  · exact RecvEnd.fresh hon.tally hfree hlog hblank

theorem sendEnd_call {P : Nat → Prop} (hP : P 0) (hon : c.Honest fp) (hfp : 64 ≤ fp)
    (hkind : ∀ k, c.channels id = some k → (c.chanPool k).type = netchanReliable)
    (hsend : ∀ k, c.channels id = some k → SendEnd n P c.toCore k) (hfeed : a.isFeed = false)
    (k : Nat) (hid : (c.step a).channels id = some k) :
    SendEnd n P (c.step a).toCore k := by
  have hcfg := (Conn.step_grows hon.good a).cfg
  rcases Conn.step_table hon.good hfeed with hs | ho
  · rw [hs.channels] at hid
    have hk := (hon.good.inv.table id k hid).2.1
    by_cases hwrite : ∃ data, a = .chanWrite k data
    · obtain ⟨data, rfl⟩ := hwrite
      simp only [Conn.step, hk, if_true]
      exact (hsend k hid).write hon.good hk (by rw [hon.size]; exact hfp) data
    · exact (hsend k hid).sendKept hon.good.inv hk hcfg (Conn.step_sendKept hon.good hk hfeed
        (fun data e => hwrite ⟨data, e⟩) fun _ _ _ => hkind k hid)
  · exact sendEnd_opens hP hon hsend ho k hid

theorem recvEnd_call (hon : c.Honest fp)
    (hrecv : ∀ k, c.channels id = some k → RecvEnd T W c.toCore k) (hok : c.CallOk T id a) (k : Nat)
    (hid : (c.step a).channels id = some k) : RecvEnd T W (c.step a).toCore k := by
  rcases Conn.step_table hon.good hok.notFeed with hs | ho
  · rw [hs.channels] at hid
    have hk := (hon.good.inv.table id k hid).2.1
    by_cases hread : ∃ buflen, a = .chanRead k buflen
    · obtain ⟨buflen, rfl⟩ := hread
      simp only [Conn.step, hk, if_true]
      exact (hrecv k hid).read hon.good.inv hk fun ht => hok ht hid
    · exact (hrecv k hid).recvKept hon.good.inv hk (Conn.step_recvKept hon.good hk hok.notFeed
        fun buflen e => hread ⟨buflen, e⟩)
  · exact recvEnd_opens hon hrecv ho k hid

theorem granted_step {w : UInt32} {s s' : Core} (h : s.AllChans fun _ ch => ch.sendWindow ≤ w)
    (hs : Core.Moves (· ≤ w) s s' ∨ Core.Opens s s') :
    s'.AllChans fun _ ch => ch.sendWindow ≤ w := by
  refine Core.AllChans.step (fun _ _ ch hb => ?_) (fun _ ch ch' hm hle => ?_) h hs
  · obtain ⟨id, type, dir, role, ct, state, rfl⟩ := hb
    exact UInt32.zero_le
  · induction hm with
    | other hident hin hout hstate =>
      simp only [Chan.outbox, Prod.mk.injEq] at hout
      rw [hout.2.2.2.2.2]
      exact hle
    | window ch hv => exact hv
    | trans hm hm' ih ih' => exact ih' (ih hle)
    | _ => exact hle

theorem chanWrite_sendWindow (s : Core) (k : Nat) (data : List UInt8) :
    ((chanWrite s k data).1.chanPool k).sendWindow = (s.chanPool k).sendWindow := by
  rcases chanWrite_cases s k data with ⟨r, heq⟩ | ⟨-, -, heq⟩ | ⟨-, -, heq⟩
  · rw [heq]
  · simp only [heq, Function.update_self]
    rfl
  · simp only [heq, Core.mark, Core.takeInto, Function.update_self]
    rfl

theorem granted_call {w : UInt32} (h : c.toCore.AllChans fun _ ch => ch.sendWindow ≤ w)
    (hfeed : a.isFeed = false) : (c.step a).toCore.AllChans fun _ ch => ch.sendWindow ≤ w := by
  cases huser : a.isUser with
  | false => exact granted_step h (c.step_moves hfeed huser)
  | true =>
    refine h.user huser (fun k data _ hk => ?_) fun k buflen _ hk => ?_
    · rw [chanWrite_sendWindow]
      exact h k hk
    · have hout := (chanRead_outbox c.toCore k buflen).2
      simp only [Chan.outbox, Prod.mk.injEq] at hout
      rw [hout.2.2.2.2.2]
      exact h k hk

end Calls

namespace Link

variable {T : Terms} {fp : Nat} {id : UInt8} {A B : Conn} {fA fB : List Flight} {a : Act}

theorem callSender (h : Link T fp id A B fA fB) (hfp : 64 ≤ fp) (hkind : Kinds id A.toCore B.toCore)
    (hok : A.CallOk T id a) : Link T fp id (A.step a) B (fA ++ A.emits a) fB := by
  refine (h.addData fun p hp => ?_).setSender (h.sender.call hfp hok.notFeed hok.whole)
    (Conn.step_grows h.sender.good a)
    (sendEnd_call (Core.Acked.zero _ T id) h.sender hfp (fun k hk => (hkind.sender k hk).2) h.send
      hok.notFeed) (granted_call h.window hok.notFeed)
  obtain ⟨hsaid, hsent, -, -⟩ := emits_says h.sender hok hp
  refine hsaid.mono fun f hf d hd => ?_
  obtain rfl : f = d.frame := by
    cases f with
    | data i seq fragIdx fragTotal payload => cases hd; rfl
    | _ => cases hd
  refine ⟨h.sender.size ▸ hf.1, fun he => ?_⟩
  have hsent' := hf
  obtain ⟨-, k, hid, -⟩ := hsent'
  have hid' : A.channels id = some k := he ▸ hid
  have hk := (h.sender.good.inv.table id k hid').2.1
  rw [hsent, sentOn_eq hid']
  exact sends_fragment h.sender (h.send k hid') hk (hkind.sender k hid').2 hid hf

theorem acked_now (h : Link T fp id A B fA fB) {k m : Nat} (hid : B.channels id = some k)
    (hok : (B.chanPool k).AckOk T) (hm : (B.chanPool k).recvSeq ≠ 0 → m = advances k B.log) :
    B.toCore.Acked T id m := by
  refine ⟨fun ht => ?_, fun ht => Or.inr ⟨k, hid, ?_⟩⟩
  · rw [gotOn_eq hid, hm (hok.1 ht)]
  · obtain ⟨hne, hempty⟩ := hok.2 ht
    have hrecv := h.recv k hid
    have hbox := hrecv.inbox (T.whole_of_drained ht)
    have hqueue : msgBytes (queueMsgs B.toCore k) = 0 := by
      rw [← hbox.buffered, hempty]
      rfl
    have hsum : msgBytes (reads k B.log) + msgBytes (queueMsgs B.toCore k) =
        msgBytes (taken k B.log) := by
      rw [← msgBytes_append, hbox.fifo]
    rw [hm hne]
    exact ⟨hrecv.delivered.length.ge, by omega⟩

theorem callReceiver (h : Link T fp id A B fA fB) (hfp : 64 ≤ fp) (hok : B.CallOk T id a) :
    Link T fp id A (B.step a) fA (fB ++ B.emits a) := by
  refine (h.addAcks fun p hp => ?_).setReceiver (h.receiver.call hfp hok.notFeed hok.whole)
    (Conn.step_grows h.receiver.good a) (recvEnd_call h.receiver h.recv hok)
  obtain ⟨hsaid, -, hgot, hacks⟩ := emits_says h.receiver hok hp
  refine hsaid.mono fun f hf => ⟨fun d hd => ?_, ?_, fun seq hseq => ?_⟩
  · cases f with
    | data i seq fragIdx fragTotal payload =>
      cases hd
      exact h.receiver.size ▸ hf.1
    | _ => cases hd
  · cases f with
    | windowUpdate i window => exact hf
    | _ => trivial
  · subst hseq
    have hack := hf
    obtain ⟨k, hid, -⟩ := hack
    obtain ⟨hneed, a, h1, h2, h3, h4⟩ := sends_ack h.receiver hid hf
    rw [hgot, gotOn_eq hid]
    exact ⟨a, h1, h2, h3, le_rfl, h.acked_now hid (hacks k hid hneed) h4⟩

end Link

/-! ## Frames -/

/-- What a frame of packet `p` is held to: the packet is fresh, the fragment slot it
completes is not mixed, and a message that is due finds room. -/
structure FrameOk (T : Terms) (id : UInt8) (W : List (List UInt8)) (p : Flight) (c : Conn)
    (f : Frame) : Prop where
  data : ∀ d k, f.toData? = some d → d.id = id → c.channels id = some k →
    advances k c.log < p.sent id + 2 ^ 15 ∧
    (T.intact → SlotPure W (p.sent id) c.toCore k d) ∧
    (T.room → DueFits c.toCore k d)
  ack : ∀ seq, f = .ack id seq → (c.sentOn id).length < p.got id + 2 ^ 15

theorem Conn.Honest.heard {fp : Nat} {c : Conn} (h : c.Honest fp) (env : Env)
    (pkt : List UInt8) (src : Option Addr) : (c.heard env pkt src).Honest fp :=
  ⟨h.good, h.tally, h.size, h.sliced, h.small, h.window, h.ctrl⟩

namespace Link

variable {T : Terms} {fp : Nat} {id : UInt8} {A B : Conn} {fA fB : List Flight}

theorem frameReceiver (h : Link T fp id A B fA fB) (hkind : Kinds id A.toCore B.toCore) {p : Flight}
    (hsaid : DataSaid fp id (A.sentOn id) (p.sent id) f) (hok : FrameOk T id (A.sentOn id) p B f)
    (env : Env) (now : UInt32) :
    Link T fp id A (f.apply env now B) fA fB := by
  have hgood := h.receiver.good
  refine h.setReceiver (h.receiver.frame env now fun d hd => (hsaid d hd).1)
    (f.apply_grows env now hgood) fun k hid => ?_
  rcases f.apply_table env now hgood with hs | ho
  · rw [hs.channels] at hid
    have hk := (hgood.inv.table id k hid).2.1
    rcases f.sort with ⟨d, rfl⟩ | ⟨i, seq, rfl⟩ | ⟨hd, hack⟩
    · by_cases hdid : d.id = id
      · obtain ⟨j, msg, hfrag⟩ := (hsaid d rfl).2 hdid
        obtain ⟨hfresh, hpure, hroom⟩ := hok.data d k rfl hdid hid
        obtain ⟨hrole, htype⟩ := hkind.receiver k hid
        have heq : d.frame.apply env now B =
            acceptDataReliable B k d.seq d.fragIdx.toNat d.fragTotal.toNat d.payload := by
          simp [DataFrame.frame, Frame.apply, acceptData, hdid, hid, hrole, htype]
        have hL := h.sent_le
        rw [gotOn_eq hid] at hL
        rw [heq]
        exact (h.recv k hid).data h.receiver hk hfrag hL hfresh hpure hroom
      · refine (h.recv k hid).recvKept hgood.inv hk ?_
        rcases data_op hgood (h.receiver.dataFits (hsaid d rfl).1) with heq | ⟨k₀, hid0, hop⟩
        · have hcore : (d.frame.apply env now B).toCore = B.toCore := heq
          rw [hcore]
          exact HalfKept.refl hk
        · refine hop.kept_other hk ?_
          rintro rfl
          -- one record is in the table under one number only
          exact hdid ((hgood.inv.table d.id k hid0).2.2.symm.trans
            (hgood.inv.table id k hid).2.2)
    · exact (h.recv k hid).recvKept hgood.inv hk (acceptAck_recvKept hgood hk i seq)
    · exact (h.recv k hid).recvKept hgood.inv hk (Frame.apply_kept env now hk hd hack).1
  · exact recvEnd_opens h.receiver h.recv ho k hid

theorem frameSender (h : Link T fp id A B fA fB) (hkind : Kinds id A.toCore B.toCore) {p : Flight}
    (hsaid : AckSaid fp id B.cfg.chanWindow (B.gotOn id) (p.got id) (B.toCore.Acked T id) f)
    (hok : FrameOk T id W p A f) (env : Env) (now : UInt32) :
    Link T fp id (f.apply env now A) B fA fB := by
  have hgood := h.sender.good
  have hgrow := f.apply_grows env now hgood
  have hwindow := granted_step h.window (f.apply_moves env now hgood fun i window hf => by
    have hoffers := hsaid.2.1
    rw [hf] at hoffers
    exact hoffers)
  refine h.setSender (h.sender.frame env now hsaid.1) hgrow (fun k hid => ?_) hwindow
  rcases f.apply_table env now hgood with hs | ho
  · rw [hs.channels] at hid
    have hk := (hgood.inv.table id k hid).2.1
    rcases f.sort with ⟨d, rfl⟩ | ⟨i, seq, rfl⟩ | ⟨hd, hack⟩
    · refine (h.send k hid).sendKept hgood.inv hk hgrow.cfg ?_
      rcases data_op hgood (h.sender.dataFits (hsaid.1 d rfl)) with heq | ⟨k₀, -, hop⟩
      · have hcore : (d.frame.apply env now A).toCore = A.toCore := heq
        rw [hcore]
        exact HalfKept.refl hk
      · exact hop.kept hk
    · by_cases hi : i = id
      · subst hi
        obtain ⟨a, rfl, hga, hag, hgn, hP⟩ := hsaid.2.2 seq rfl
        have heq : (Frame.apply env now A (.ack i (UInt16.ofNat a))).toCore = advanceHead
            ((List.range ncOutgoingSlots).foldl (ackSlot k (UInt16.ofNat a)) A.toCore) k := by
          simp [Frame.apply, acceptAck, hid, (hkind.sender k hid).1]
        have hcons := h.got_le
        have hfresh := hok.ack _ rfl
        rw [sentOn_eq hid] at hcons hfresh
        rw [heq]
        exact (h.send k hid).ack hgood hk hcons hga hag hgn hP hfresh
      · refine (h.send k hid).sendKept hgood.inv hk hgrow.cfg ?_
        rcases acceptAck_op hgood i seq with heq | ⟨k₀, hid0, hop⟩
        · have hcore : (Frame.apply env now A (.ack i seq)).toCore = A.toCore := heq
          rw [hcore]
          exact HalfKept.refl hk
        · refine hop.kept_other hk ?_
          rintro rfl
          exact hi ((hgood.inv.table i k hid0).2.2.symm.trans (hgood.inv.table id k hid).2.2)
    · exact (h.send k hid).sendKept hgood.inv hk hgrow.cfg
        (Frame.apply_kept env now hk hd hack).2
  · exact sendEnd_opens (Core.Acked.zero _ T id) h.sender h.send ho k hid

end Link

/-! ## Runs -/

section Runs

variable (T : Terms) (a : Bool) (id : UInt8)

/-- The guard of a run, for channel `id` with side `a` as the sending side. -/
def LinkOk (net : Joint) : Move Act (Env × Option Addr) → Prop
  | .call side x => (net.conn side).CallOk T id x
  | .deliver side n e =>
    ∀ p, (net.flight side)[n]? = some p →
      FedOk (FrameOk T id ((net.conn a).sentOn id) p) (net.conn !side) e p.pkt
  | .drop _ _ => True

/-- The joint states of the runs that meet the guard. -/
def LinkRun (cfg : Bool → Cfg) : Joint → Prop :=
  Reach (fun net => net = Joint.start cfg) (LinkOk T a id) (Net.step netchan)

end Runs

theorem LinkRun.reachable {T : Terms} {a : Bool} {id : UInt8} {net : Joint}
    (h : LinkRun T a id cfg net) : net.Reachable := by
  refine Reach.invariant (P := Joint.Reachable) (fun net h => .start ⟨cfg, h⟩) ?_ h
  intro net m hreach hok
  refine Reach.next hreach ?_
  cases m with
  | call side x => exact hok.notFeed
  | deliver side n e => trivial
  | drop side n => trivial

section Deliver

variable {T : Terms} {fp : Nat} {id : UInt8} {A B : Conn} {fA fB : List Flight}

theorem Link.feedReceiver (h : Link T fp id A B fA fB) {p : Flight} (hp : p ∈ fA)
    {e : Env × Option Addr} (hok : FedOk (FrameOk T id (A.sentOn id) p) B e p.pkt)
    (hkind : Kinds id A.toCore (netchanFeed e.1 B p.pkt e.2).1.toCore) :
    Link T fp id A (netchanFeed e.1 B p.pkt e.2).1 fA fB := by
  have hall : (netchanFeed e.1 B p.pkt e.2).1.toCore.Good ∧
      (Kinds id A.toCore (netchanFeed e.1 B p.pkt e.2).1.toCore →
        Link T fp id A (netchanFeed e.1 B p.pkt e.2).1 fA fB) := by
    refine netchanFeed_guarded
      (P := fun c => c.toCore.Good ∧ (Kinds id A.toCore c.toCore → Link T fp id A c fA fB)) hok
      (fun hc => ⟨hc.1, fun hk => ?_⟩) (fun c fn hfn hframe hc => ?_)
      ⟨h.receiver.good, fun _ => h⟩
    · exact (hc.2 hk).setReceiver ((hc.2 hk).receiver.heard _ _ _) (Core.Grows.refl _)
        (hc.2 hk).recv
    · refine ⟨fn.1.apply_good e.1 _ hc.1, fun hk => ?_⟩
      have hk' := hk.back (Core.Grows.refl _) (fn.1.apply_grows e.1 _ hc.1)
      exact (hc.2 hk').frameReceiver hk' ((h.data p hp).fed hfn) hframe e.1 _
  exact hall.2 hkind

theorem Link.feedSender (h : Link T fp id A B fA fB) {p : Flight} (hp : p ∈ fB)
    {e : Env × Option Addr} (hok : FedOk (FrameOk T id W p) A e p.pkt)
    (hkind : Kinds id (netchanFeed e.1 A p.pkt e.2).1.toCore B.toCore) :
    Link T fp id (netchanFeed e.1 A p.pkt e.2).1 B fA fB := by
  have hall : (netchanFeed e.1 A p.pkt e.2).1.toCore.Good ∧
      (Kinds id (netchanFeed e.1 A p.pkt e.2).1.toCore B.toCore →
        Link T fp id (netchanFeed e.1 A p.pkt e.2).1 B fA fB) := by
    refine netchanFeed_guarded
      (P := fun c => c.toCore.Good ∧ (Kinds id c.toCore B.toCore → Link T fp id c B fA fB)) hok
      (fun hc => ⟨hc.1, fun hk => ?_⟩) (fun c fn hfn hframe hc => ?_)
      ⟨h.sender.good, fun _ => h⟩
    · exact (hc.2 hk).setSender ((hc.2 hk).sender.heard _ _ _) (Core.Grows.refl _) (hc.2 hk).send
        (hc.2 hk).window
    · refine ⟨fn.1.apply_good e.1 _ hc.1, fun hk => ?_⟩
      have hk' := hk.back (fn.1.apply_grows e.1 _ hc.1) (Core.Grows.refl _)
      exact (hc.2 hk').frameSender hk' ((h.acks p hp).fed hfn) hframe e.1 _
  exact hall.2 hkind

end Deliver

theorem Link.start {T : Terms} {id : UInt8} {a : Bool} (hmtu : (cfg !a).mtu = (cfg a).mtu) :
    Link T (maxFragPayload (cfg a)) id (netchanOpen a (cfg a)) (netchanOpen (!a) (cfg !a)) []
      [] := by
  have hsize : maxFragPayload (cfg !a) = maxFragPayload (cfg a) := by
    simp only [maxFragPayload, hmtu]
  refine ⟨Conn.Honest.start a (cfg a), hsize ▸ Conn.Honest.start (!a) (cfg !a), by simp, by simp,
    fun k hk => ?_, fun k hk => ?_, fun k hk => ?_⟩
  · cases hk
  · cases hk
  · cases hk

/-- In every joint state that a run under the guard reaches, a channel that is reliable and
goes from side `a` to the other side is linked. -/
theorem LinkRun.link {T : Terms} {a : Bool} {id : UInt8} (hfp : 64 ≤ maxFragPayload (cfg a))
    (hmtu : (cfg !a).mtu = (cfg a).mtu) {net : Joint} (h : LinkRun T a id cfg net)
    (hkind : Kinds id (net.conn a).toCore (net.conn !a).toCore) :
    Link T (maxFragPayload (cfg a)) id (net.conn a) (net.conn !a) (net.flight a)
      (net.flight !a) := by
  have hinv : net.Rel a fun A B fA fB => A.toCore.Good ∧ B.toCore.Good ∧
      (Kinds id A.toCore B.toCore → Link T (maxFragPayload (cfg a)) id A B fA fB) := by
    refine Reach.invariant (P := fun net : Joint => net.Rel a _) ?_ ?_ h
    · rintro net rfl
      exact ⟨netchanOpen_good _ _, netchanOpen_good _ _, fun _ => Link.start hmtu⟩
    · intro net m ih hok
      have ⟨hA, hB, hlink⟩ := ih
      refine Net.step_keeps netchan a ih m ?_ ?_ ?_ ?_ ?_
      · rintro x rfl
        refine ⟨Conn.step_good hA x, hB, fun hk => ?_⟩
        have hk' := hk.back (Conn.step_grows hA x) (Core.Grows.refl _)
        exact (hlink hk').callSender hfp hk' hok
      · rintro x rfl
        refine ⟨hA, Conn.step_good hB x, fun hk => ?_⟩
        have hk' := hk.back (Core.Grows.refl _) (Conn.step_grows hB x)
        exact (hlink hk').callReceiver hfp hok
      · rintro n e p rfl hp
        refine ⟨Conn.step_good hA _, hB, fun hk => ?_⟩
        have hk' := hk.back (Conn.step_grows hA (.feed e.1 p.pkt e.2)) (Core.Grows.refl _)
        have hok' := hok p hp
        rw [Bool.not_not] at hok'
        exact (hlink hk').feedSender (List.mem_of_getElem? hp) hok' hk
      · rintro n e p rfl hp
        refine ⟨hA, Conn.step_good hB _, fun hk => ?_⟩
        have hk' := hk.back (Core.Grows.refl _) (Conn.step_grows hB (.feed e.1 p.pkt e.2))
        exact (hlink hk').feedReceiver (List.mem_of_getElem? hp) (hok p hp) hk
      · intro f f' hf hf'
        exact ⟨hA, hB, fun hk => (hlink hk).drop hf hf'⟩
  exact hinv.2.2 hkind

end MechanicalResearcher.NetchanV2
