import MechanicalResearcher.NetchanV2.Delivery
import MechanicalResearcher.NetchanV2.SendRing

/-!
# Flow control

A sender never has more bytes in flight than the receiver granted, where the code
looks at the window.  If a receiver acknowledges nothing before it is read, the
queued messages are still in flight, so the receive queue is within the window too.
-/

namespace MechanicalResearcher.NetchanV2

open Lib Lib.Serial Lib.Runs Lib.Network

variable {id : UInt8} {a : Bool} {net : Joint} {k w : Nat}

namespace OutRing

variable {W : List (List UInt8)} {store : Nat → UInt8} {fp base bound : Nat} {ch : Chan}

theorem drop_load (h : OutRing W store fp ch base bound) (n t : Nat) (hn : n + t = outLen ch)
    (ht : bound ≤ base + t) :
    msgBytes (W.drop (base + t)) = ∑ i ∈ Finset.range n, (outSlot ch (t + i)).load := by
  induction n generalizing t with
  | zero =>
    have hcount := h.count
    rw [List.drop_eq_nil_of_le (by omega)]
    rfl
  | succ n ih =>
    have hlt : t < outLen ch := by omega
    have hact : (outSlot ch t).active = true := by
      by_contra hidle
      have hfreed := h.freed t hlt (by simpa using hidle)
      omega
    obtain ⟨d, hd⟩ := h.held t hlt hact
    obtain ⟨hj, hget⟩ := List.getElem?_eq_some_iff.1 hd.msg
    have hload : (outSlot ch (t + 0)).load = d.length := by
      rw [Nat.add_zero, Outgoing.load, if_pos hact, hd.len]
    have hrest := ih (t + 1) (by omega) (by omega)
    have hshift : ∑ i ∈ Finset.range n, (outSlot ch (t + (i + 1))).load =
        ∑ i ∈ Finset.range n, (outSlot ch (t + 1 + i)).load :=
      Finset.sum_congr rfl fun i _ => by rw [Nat.add_right_comm, Nat.add_assoc]
    rw [List.drop_eq_getElem_cons hj, hget, Finset.sum_range_succ', hshift, hload]
    simp only [msgBytes, List.map_cons, List.sum_cons] at hrest ⊢
    rw [Nat.add_assoc, hrest, Nat.add_comm]

theorem drop_le_active (h : OutRing W store fp ch base bound) (hlen : outLen ch ≤ 64) :
    msgBytes (W.drop bound) ≤ ch.activeBytes := by
  have hcount := h.count
  rcases Nat.lt_or_ge W.length bound with hlt | hge
  · rw [List.drop_eq_nil_of_le hlt.le]
    exact Nat.zero_le _
  · obtain ⟨t, rfl⟩ := Nat.exists_eq_add_of_le h.base_le
    obtain ⟨n, hn⟩ := Nat.exists_eq_add_of_le (show t ≤ outLen ch by omega)
    rw [h.drop_load n t (by omega) le_rfl]
    have hinj : ∀ i ∈ Finset.range n, ∀ j ∈ Finset.range n,
        (ch.outHead + (t + i)) % ncOutgoingSlots = (ch.outHead + (t + j)) % ncOutgoingSlots →
          i = j := by
      intro i hi j hj heq
      have hi' := Finset.mem_range.1 hi
      have hj' := Finset.mem_range.1 hj
      simp only [ncOutgoingSlots] at heq
      omega
    have himage := Finset.sum_image (f := fun p => (ch.outgoing p).load) hinj
    have hsub : (Finset.range n).image (fun i => (ch.outHead + (t + i)) % ncOutgoingSlots) ⊆
        Finset.range ncOutgoingSlots := by
      intro p hp
      obtain ⟨i, -, rfl⟩ := Finset.mem_image.1 hp
      exact Finset.mem_range.2 (Nat.mod_lt _ (by decide))
    exact himage.symm.le.trans (Finset.sum_le_sum_of_subset hsub)

end OutRing

/-- The send ring is in order, and a reliable channel `id` has at most `w` bytes in flight. -/
structure Chan.InCredit (id : UInt8) (w : Nat) (ch : Chan) : Prop where
  ring : ch.SendRing
  flight : ch.id = id → ch.type = netchanReliable → ch.bytesInFlight.toNat ≤ w

namespace Chan.InCredit

variable {ch ch' : Chan} {v : UInt32 → Prop}

theorem congr (h : ch.InCredit id w) (hident : ch'.ident = ch.ident)
    (hout : ch'.outbox = ch.outbox) : ch'.InCredit id w := by
  refine ⟨h.ring.congr hident hout, fun hid htype => ?_⟩
  simp only [Chan.ident, ChanIdent.mk.injEq] at hident
  simp only [Chan.outbox, Prod.mk.injEq] at hout
  rw [hout.2.2.2.2.1]
  exact h.flight (hident.1.symm.trans hid) (hident.2.1.symm.trans htype)

theorem acked {j : Nat} (h : ch.InCredit id w) (hj : j < ncOutgoingSlots)
    (hact : (ch.outgoing j).active = true) : (ch.acked j).InCredit id w := by
  have hring := h.ring.acked hj hact
  refine ⟨hring, fun hid htype => ?_⟩
  have hsum := sum_load_update ch.outgoing hj (ch.outgoing j).freed
  have hzero : (ch.outgoing j).freed.load = 0 := rfl
  have hold := h.ring.flight htype
  have hle := h.flight hid htype
  rw [hring.flight htype]
  simp only [Chan.activeBytes, Chan.acked] at hold ⊢
  omega

theorem moves (hm : Chan.Moves v ch ch') (h : ch.InCredit id w) : ch'.InCredit id w := by
  induction hm with
  | other hident hin hout hstate => exact h.congr hident hout
  | enqueue ch b hroom hlen => exact h.congr rfl rfl
  | progress ch ho => exact ⟨h.ring.progress ho, h.flight⟩
  | release ch j htype => exact ⟨h.ring.moves (.release (w := v) ch j htype), h.flight⟩
  | ack ch hj hact => exact h.acked hj hact
  | pop ch hne hidle => exact ⟨h.ring.pop hne hidle, h.flight⟩
  | window ch hv => exact ⟨h.ring.moves (.window ch hv), h.flight⟩
  | trans hm hm' ih ih' => exact ih' (ih h)

theorem blank {window : UInt32} (hb : ch.Blank window) : ch.InCredit id w := by
  refine ⟨Chan.SendRing.blank hb, fun _ _ => ?_⟩
  obtain ⟨id, type, dir, role, ct, state, rfl⟩ := hb
  exact Nat.zero_le _

end Chan.InCredit

theorem chanWrite_inCredit {s : Core} (h : (s.chanPool k).InCredit id w)
    (hfp : 64 ≤ maxFragPayload s.cfg) (hw : w < 2 ^ 32) (data : List UInt8)
    (hwrite : CanWrite s k data → (s.chanPool k).id = id → (s.chanPool k).type = netchanReliable →
      (s.chanPool k).bytesInFlight.toNat + data.length ≤ w) :
    ((chanWrite s k data).1.chanPool k).InCredit id w := by
  refine ⟨chanWrite_sendRing h.ring hfp data, ?_⟩
  rcases chanWrite_cases s k data with ⟨r, heq⟩ | ⟨-, -, heq⟩ | ⟨hcan, -, heq⟩
  · rw [heq]
    exact h.flight
  · simp only [heq, Function.update_self]
    exact h.flight
  · simp only [heq, Core.mark, Core.takeInto, Function.update_self, Chan.queued]
    intro hid htype
    have hle := hwrite hcan hid htype
    rw [if_pos htype, UInt32.toNat_add, UInt32.toNat_ofNat']
    omega

/-- A message that is accepted while the channel is not open, when the code does not look
at the window, fits into the window of the other side. -/
def WriteOk (a : Bool) (id : UInt8) (net : Joint) : Move Act (Env × Option Addr) → Prop
  | .call side (.chanWrite k data) =>
    side = a → (net.conn a).channels id = some k → ((net.conn a).chanPool k).state ≠ .opened →
      CanWrite (net.conn a).toCore k data →
        ((net.conn a).chanPool k).bytesInFlight.toNat + data.length ≤
          (net.conn !a).cfg.chanWindow.toNat
  | _ => True

/-- Messages are put together from their own fragments and read whole, and a message is read
before an ACK frame is sent. -/
def Terms.flow : Terms := ⟨False, True, True, False, True, fun _ => trivial⟩

/-- The joint states of the runs that acknowledge nothing that is not read, and overrun no
window of a channel that is not open. -/
def FlowRun (a : Bool) (id : UInt8) (cfg : Bool → Cfg) : Joint → Prop :=
  Reach (fun net => net = Joint.start cfg)
    (fun net m => LinkOk Terms.flow a id net m ∧ WriteOk a id net m) (Net.step netchan)

theorem Link.write_le {T : Terms} {fp : Nat} {A B : Conn} {fA fB : List Flight}
    (h : Link T fp id A B fA fB) (hk : A.chanUsed k = true) {data : List UInt8}
    (hcan : CanWrite A.toCore k data) (htype : (A.chanPool k).type = netchanReliable)
    (hopen : (A.chanPool k).state = .opened) :
    (A.chanPool k).bytesInFlight.toNat + data.length ≤ B.cfg.chanWindow.toNat := by
  obtain ⟨-, -, -, -, hflow, -⟩ := hcan
  have hwindow := UInt32.le_iff_toNat_le.1 (h.window k hk)
  have hroom : ¬ (A.chanPool k).sendWindow.toNat <
      (A.chanPool k).bytesInFlight.toNat + data.length := fun hgt => hflow ⟨htype, hopen, hgt⟩
  omega

namespace FlowRun

variable {cfg : Bool → Cfg}

theorem linkRun (h : FlowRun a id cfg net) : LinkRun Terms.flow a id cfg net :=
  Reach.mono (fun _ _ hok => hok.1) h

theorem inCredit (hfp : 64 ≤ maxFragPayload (cfg a)) (hmtu : (cfg !a).mtu = (cfg a).mtu)
    (h : FlowRun a id cfg net) (hkind : Kinds id (net.conn a).toCore (net.conn !a).toCore) :
    (net.conn a).toCore.AllChans fun _ ch => ch.InCredit id (net.conn !a).cfg.chanWindow.toNat := by
  have hrel : net.Rel a fun A B _ _ => Kinds id A.toCore B.toCore →
      A.toCore.AllChans fun _ ch => ch.InCredit id B.cfg.chanWindow.toNat := by
    clear hkind
    induction h with
    | start h =>
      subst h
      exact fun _ k hk => by cases hk
    | @next net m hrun hok ih =>
      have hlink := LinkRun.link hfp hmtu (linkRun hrun)
      have hreach := (linkRun hrun).reachable
      have hA := (hreach.side a).good
      have hB := (hreach.side !a).good
      refine Net.step_keeps netchan a ih m ?_ ?_ ?_ ?_ ?_
      · rintro x rfl hk
        have hk' := hk.back (Conn.step_grows hA x) (Core.Grows.refl _)
        have hlink := hlink hk'
        cases huser : x.isUser with
        | false =>
          exact Core.AllChans.call (fun _ _ _ => Chan.InCredit.blank)
            (fun _ _ _ => Chan.InCredit.moves) (ih hk') hA huser
        | true =>
          refine (ih hk').user huser (fun k data hx hused => ?_) fun k buflen _ hused => ?_
          · refine chanWrite_inCredit (ih hk' k hused) (by rw [hlink.sender.size]; exact hfp)
              (UInt32.toNat_lt _) data fun hcan hid htype => ?_
            by_cases hopen : ((net.conn a).chanPool k).state = .opened
            · exact hlink.write_le hused hcan htype hopen
            · have hwrite := hok.2
              rw [hx] at hwrite
              exact hwrite rfl (hid ▸ (hA.inv.used k hused).2) hopen hcan
          · obtain ⟨hident, hout⟩ := chanRead_outbox (net.conn a).toCore k buflen
            exact (ih hk' k hused).congr hident hout
      · rintro x rfl hk
        have hgrow := Conn.step_grows hB x
        have hcfg : ((net.conn !a).step x).cfg = (net.conn !a).cfg := hgrow.cfg
        exact hcfg ▸ ih (hk.back (Core.Grows.refl _) hgrow)
      · rintro n e p rfl hp hk
        have hk' := hk.back (Conn.step_grows hA (.feed e.1 p.pkt e.2)) (Core.Grows.refl _)
        exact Core.AllChans.feed (fun _ _ _ => Chan.InCredit.blank)
          (fun _ _ _ => Chan.InCredit.moves) (ih hk') hA e.1 p.pkt e.2
      · rintro n e p rfl hp hk
        have hgrow := Conn.step_grows hB (.feed e.1 p.pkt e.2)
        have hcfg : ((net.conn !a).step (.feed e.1 p.pkt e.2)).cfg = (net.conn !a).cfg := hgrow.cfg
        exact hcfg ▸ ih (hk.back (Core.Grows.refl _) hgrow)
      · exact fun _ _ _ _ => ih
  exact hrel hkind

end FlowRun

theorem Link.buffered_le_drop {T : Terms} {fp : Nat} {A B : Conn} {fA fB : List Flight}
    (h : Link T fp id A B fA fB) (hdrained : T.drained) (hint : T.intact)
    (hid : B.channels id = some k) {bound : Nat} (hpass : Passed k B.log bound) :
    (B.chanPool k).recvBuffered.toNat ≤ msgBytes ((A.sentOn id).drop bound) := by
  have hrecv := h.recv k hid
  have hbox := hrecv.inbox (T.whole_of_drained hdrained)
  have hsum : msgBytes (reads k B.log) + msgBytes (queueMsgs B.toCore k) =
      msgBytes (taken k B.log) := by
    rw [← msgBytes_append, hbox.fifo]
  have hdrop := msgBytes_sublist ((hrecv.handed_isPrefix hint).drop bound).sublist
  have hbuf := hbox.buffered
  have hle := hpass.2
  omega

/-- In a run that acknowledges no message before it is read, and in which no message written
before the channel is open overruns the window, the receive queue never holds more than the
window. -/
theorem buffered_le_window {a : Bool} {id : UInt8} {cfg : Bool → Cfg}
    (hfp : 64 ≤ maxFragPayload (cfg a)) (hmtu : (cfg !a).mtu = (cfg a).mtu) {net : Joint}
    (h : FlowRun a id cfg net)
    (hkind : Kinds id (net.conn a).toCore (net.conn !a).toCore) {k : Nat}
    (hk : (net.conn !a).channels id = some k) :
    ((net.conn !a).chanPool k).recvBuffered.toNat ≤
      ((net.conn !a).chanPool k).recvWindow.toNat := by
  have hlink := h.linkRun.link hfp hmtu hkind
  have hused := (hlink.receiver.good.inv.table id k hk).2.1
  rw [hlink.receiver.window k hused]
  cases hid : (net.conn a).channels id with
  | none =>
    have hle := hlink.buffered_le_drop trivial trivial hk (Passed.zero k _)
    simp [Core.sentOn, hid, msgBytes] at hle
    omega
  | some j =>
    obtain ⟨base, bound, hout, -, hacked⟩ := hlink.send j hid
    obtain ⟨-, hj, hjid⟩ := hlink.sender.good.inv.table id j hid
    have hcredit := h.inCredit hfp hmtu hkind j hj
    have htype := (hkind.sender j hid).2
    have hring := (hlink.sender.good.inv.chans j hj).out
    calc ((net.conn !a).chanPool k).recvBuffered.toNat
        ≤ msgBytes (((net.conn a).sentOn id).drop bound) :=
          hlink.buffered_le_drop trivial trivial hk (hacked.passed trivial hk)
      _ ≤ ((net.conn a).chanPool j).activeBytes := by
          rw [sentOn_eq hid]
          exact OutRing.drop_le_active hout (Ring.len_lt hring.head_lt hring.tail_lt).le
      _ = ((net.conn a).chanPool j).bytesInFlight.toNat := (hcredit.ring.flight htype).symm
      _ ≤ (net.conn !a).cfg.chanWindow.toNat := hcredit.flight hjid htype

theorem hello_writeOk :
    Guarded (WriteOk true 1) (Net.step netchan) (Joint.start fun _ => netchanCfgDefault)
      helloMoves := by
  have hopen : ∀ {net : Joint} {data : List UInt8}, ((net.conn true).channels 1).all
      (fun k => ((net.conn true).chanPool k).state == .opened) = true →
        WriteOk true 1 net (.call true (.chanWrite 0 data)) := by
    intro net data hstate _ hid hne
    rw [hid] at hstate
    exact absurd (by simpa using hstate) hne
  exact ⟨trivial, trivial, trivial, trivial, trivial, trivial, trivial, trivial, trivial,
    hopen (by decide +kernel), hopen (by decide +kernel), trivial, trivial, trivial, trivial, trivial, trivial,
    trivial, trivial, trivial, hopen (by decide +kernel), trivial, trivial, trivial⟩

/-- The third message is held by the client, and the window is not overrun. -/
theorem buffered_le_window_hello :
    ((helloNet.conn false).chanPool 0).recvBuffered = 1 ∧
      ((helloNet.conn false).chanPool 0).recvBuffered.toNat ≤
        ((helloNet.conn false).chanPool 0).recvWindow.toNat := by
  have hstart : FlowRun true 1 (fun _ => netchanCfgDefault)
      (Joint.start fun _ => netchanCfgDefault) := .start rfl
  have hrun : FlowRun true 1 (fun _ => netchanCfgDefault) helloNet :=
    hstart.run helloMoves ((hello_guarded _).and hello_writeOk)
  have hid : (helloNet.conn !true).channels 1 = some 0 := by
    rw [Bool.not_true]
    exact helloNet_ends.1.2.1
  have hle := buffered_le_window (by decide) rfl hrun helloNet_kinds hid
  rw [Bool.not_true] at hle
  exact ⟨by decide +kernel, hle⟩

/-- Two messages as long as the window are written, the second one after the first was
acknowledged and before it was read. -/
def flowMoves : List (Move Act (Env × Option Addr)) :=
  openMoves ++
    ([.call true (.chanWrite 0 (List.replicate 10 7)), .call true (.sendNext quietEnv 1200),
      .deliver true 1 (quietEnv, none), .call false (.sendNext quietEnv 1200),
      .deliver false 2 (quietEnv, none), .call true (.chanWrite 0 (List.replicate 10 7)),
      .call true (.sendNext quietEnv 1200), .deliver true 2 (quietEnv, none)] :
        List (Move Act (Env × Option Addr)))

def flowNet : Joint :=
  Net.run netchan (Joint.start fun _ => { netchanCfgDefault with chanWindow := 10 }) flowMoves

theorem acked_bytes_overrun_window :
    flowNet.Reachable ∧ Kinds 1 (flowNet.conn true).toCore (flowNet.conn false).toCore ∧
      ((flowNet.conn false).chanPool 0).recvWindow = 10 ∧
      ((flowNet.conn false).chanPool 0).recvBuffered = 20 := by
  have hrun : (((flowNet.conn true).channels 1 = some 0 ∧
        ((flowNet.conn true).chanPool 0).role = .sender ∧
        ((flowNet.conn true).chanPool 0).type = netchanReliable) ∧
      (flowNet.conn false).channels 1 = some 0 ∧
        ((flowNet.conn false).chanPool 0).role = .receiver ∧
        ((flowNet.conn false).chanPool 0).type = netchanReliable) ∧
      ((flowNet.conn false).chanPool 0).recvWindow = 10 ∧
      ((flowNet.conn false).chanPool 0).recvBuffered = 20 := by
    decide +kernel
  obtain ⟨⟨⟨hA, hsend⟩, hB, hrecv⟩, hrest⟩ := hrun
  exact ⟨Joint.reachable_run _ flowMoves rfl, Kinds.of_records 0 0 hA hsend hB hrecv,
    hrest⟩

end MechanicalResearcher.NetchanV2
