import MechanicalResearcher.Lib.Clock
import MechanicalResearcher.Lib.Runs
import MechanicalResearcher.NetchanIpx.TransmitWindow

/-!
# The timers of `nc_service`

A deadline is stored as a 32-bit time, 0 stands for none, and `nc_service` compares it with
the time it is given.  Along a run two history variables say when messages were last put on the
wire and when the last attempt to connect began; the calls come some time after that.
-/

namespace MechanicalResearcher.NetchanIpx

open Lib Lib.Runs Lib.Clock Lib.BigEndian

/-! ## Retransmission -/

/-- Messages wait for an acknowledgement, and the timer was set at `t` for `d` later. -/
structure Netchan.Armed (t d : Nat) (lastRecv : UInt32) (c : Netchan) : Prop where
  state : c.state = .connected
  unacked : c.txBase ≠ c.txNext
  timer : c.txTimer = UInt32.ofNat (t + d)
  heard : c.lastRecv = lastRecv

theorem backoff_last {attempts : UInt16} (h : attempts + 1 > rtAttempts) :
    backoff (attempts + 1) = backoff attempts := by
  have hnext : 12 < (attempts + 1).toNat := h
  have hmany : 12 ≤ attempts.toNat := by
    rw [UInt16.toNat_add, UInt16.toNat_one] at hnext
    omega
  have hnext' : ¬attempts + 1 < 4 := fun hlt => by
    have hnat : (attempts + 1).toNat < 4 := hlt
    omega
  have hmany' : ¬attempts < 4 := fun hlt => by
    have hnat : attempts.toNat < 4 := hlt
    omega
  unfold backoff
  rw [if_neg hnext', if_neg hmany']

/-- The retransmission state is as it was. -/
structure Waits (c c' : Netchan) : Prop where
  state : c'.state = c.state
  lastRecv : c'.lastRecv = c.lastRecv
  txBase : c'.txBase = c.txBase
  txNext : c'.txNext = c.txNext
  txUnsent : c'.txUnsent = c.txUnsent
  txTimer : c'.txTimer = c.txTimer
  txAttempts : c'.txAttempts = c.txAttempts

theorem add_one_ne (x : UInt16) : x + 1 ≠ x := by
  intro h
  have hnat := congrArg UInt16.toNat h
  rw [UInt16.toNat_add] at hnat
  have hone : (1 : UInt16).toNat = 1 := rfl
  have hlt := x.toNat_lt
  omega

/-- The connection is given up because nothing was heard for `IDLE_MS`. -/
def silent (lastRecv : UInt32) (t : Nat) (e : Nat) : Bool :=
  decide (UInt32.ofNat (t + e) - lastRecv > idleMs)

section Retransmission

variable {t d e : Nat} {lastRecv nowMs : UInt32} {c : Netchan}

theorem Netchan.Armed.waits {c' : Netchan} (h : c.Armed t d lastRecv) (hw : Waits c c') :
    c'.Armed t d lastRecv where
  state := hw.state.trans h.state
  unacked := by
    rw [hw.txBase, hw.txNext]
    exact h.unacked
  timer := hw.txTimer.trans h.timer
  heard := hw.lastRecv.trans h.heard

end Retransmission

/-! ## Connecting -/

/-- The retry timer was set at `t`. -/
structure Netchan.Dialing (t : Nat) (c : Netchan) : Prop where
  state : c.state = .connecting
  timer : c.connectTimer = UInt32.ofNat (t + connectRetryMs.toNat)

structure Holds (c c' : Netchan) : Prop where
  state : c'.state = c.state
  connectTimer : c'.connectTimer = c.connectTimer
  connectAttempts : c'.connectAttempts = c.connectAttempts
  sendSyn : c'.sendSyn = c.sendSyn
  sendSynack : c'.sendSynack = c.sendSynack

section Dialing

variable {t e : Nat} {c : Netchan} {nowMs : UInt32}

theorem Netchan.Dialing.holds {c' : Netchan} (h : c.Dialing t) (hw : Holds c c') :
    c'.Dialing t :=
  ⟨hw.state.trans h.state, hw.connectTimer.trans h.timer⟩

end Dialing

/-! ## Runs -/

/-- Messages of the window are on the wire. -/
abbrev Netchan.OnWire (c : Netchan) : Prop := c.txUnsent ≠ c.txBase

structure Timed where
  c : Netchan
  /-- the clock when messages of the window were last put on the wire -/
  sentAt : UInt32
  /-- the clock when an attempt to connect was last begun or repeated -/
  dialedAt : UInt32

/-- The packet of this call has messages of the window. -/
def Netchan.sends (c : Netchan) : Act → Bool
  | .sendNext buflen => (ncSendNext c buflen).1.txUnsent ≠ c.txUnsent
  | _ => false

/-- An attempt to connect is begun or repeated. -/
def Netchan.dials (c : Netchan) : Act → Bool
  | .connect addr => addr.isSome
  | .feed pkt source => c.state ≠ .connecting ∧ (ncFeed c pkt source).1.state = .connecting
  | .service nowMs => (ncService c nowMs).1.connectAttempts ≠ c.connectAttempts
  | _ => false

def Timed.step (s : Timed) (a : Act) : Timed where
  c := s.c.step a
  sentAt := if s.c.sends a then s.c.now else s.sentAt
  dialedAt := if s.c.dials a then (s.c.step a).now else s.dialedAt

/-- The next message that is not on the wire fits into the packet that is due. -/
abbrev Netchan.Puts (c : Netchan) (buflen : Nat) : Prop :=
  c.sendSynack = false ∧ c.sendAck = false ∧ c.sendSyn = false ∧ c.state = .connected ∧
    c.txUnsent ≠ c.txNext ∧
    ncHdr + ncRec + (c.txw (c.txUnsent.toNat % ncWindow)).data.length ≤ min buflen ncMtu

/-- The acknowledgement is one of some of the messages that wait, and not of all. -/
abbrev AcksPart (c : Netchan) (ack : UInt16) : Prop :=
  seqAfter ack c.txBase = true ∧
    ∃ i < (c.txNext - c.txBase).toNat, seqAfter ack (c.txBase + UInt16.ofNat i) = false

/-- The timer runs from the clock at which the window was last put on the wire: a packet with
messages finds it not set, or set at the same clock, a part of the window is acknowledged at this
clock, and no deadline has come out as 0. -/
def Timed.InStep (s : Timed) : Act → Prop
  | .sendNext buflen =>
    (s.c.OnWire → s.c.txTimer ≠ 0) ∧
      (s.c.Puts buflen → s.c.txTimer = 0 ∧ s.c.txAttempts = 0 ∨
        s.c.txTimer ≠ 0 ∧ s.c.txTimer = s.c.now + backoff s.c.txAttempts)
  | .feed pkt _ =>
    pkt.getD 4 0 = pktData → AcksPart s.c (rd16 (pkt.drop 6)) → s.c.now = s.sentAt
  | _ => True

instance (s : Timed) : (a : Act) → Decidable (s.InStep a)
  | .sendNext _ => inferInstanceAs (Decidable (_ ∧ _))
  | .feed _ _ => inferInstanceAs (Decidable (_ → _))
  | .connect _ | .chanOpen _ | .chanClose _ | .write _ _ | .read _ _ | .poll | .service _ =>
    inferInstanceAs (Decidable True)

/-- The deadlines are those of the history. -/
structure Timed.InTime (s : Timed) : Prop where
  windowed : s.c.Windowed
  sent : s.c.OnWire → s.c.txTimer = s.sentAt + backoff s.c.txAttempts
  dialed : s.c.state = .connecting → s.c.connectTimer = s.dialedAt + connectRetryMs

/-! ### What a call does to the timers -/

/-- The clock and the timers are as they were. -/
structure SameTimers (c c' : Netchan) : Prop where
  state : c'.state = c.state
  now : c'.now = c.now
  txTimer : c'.txTimer = c.txTimer
  txAttempts : c'.txAttempts = c.txAttempts
  connectTimer : c'.connectTimer = c.connectTimer

section Calls

variable {c c' c'' : Netchan}

theorem SameTimers.refl (c : Netchan) : SameTimers c c := ⟨rfl, rfl, rfl, rfl, rfl⟩

theorem SameTimers.trans (h : SameTimers c c') (h' : SameTimers c' c'') : SameTimers c c'' :=
  ⟨h'.state.trans h.state, h'.now.trans h.now, h'.txTimer.trans h.txTimer,
    h'.txAttempts.trans h.txAttempts, h'.connectTimer.trans h.connectTimer⟩

theorem pushData_sameTimers (c : Netchan) (k : Nat) (data : Bytes) :
    SameTimers c (pushData c k data) := by
  unfold pushData evPush
  split_ifs <;> exact ⟨rfl, rfl, rfl, rfl, rfl⟩

theorem deliver_sameTimers (c : Netchan) (chan mt : UInt8) (seq : UInt16) (data : Bytes) :
    SameTimers c (deliver c chan mt seq data) := by
  have hdue : SameTimers c (deliverDue c chan data) := by
    unfold deliverDue
    split
    · exact ⟨rfl, rfl, rfl, rfl, rfl⟩
    · next k _ =>
        have hpush := pushData_sameTimers c k data
        split_ifs
        · exact .refl c
        · exact ⟨hpush.state, hpush.now, hpush.txTimer, hpush.txAttempts, hpush.connectTimer⟩
  unfold deliver
  split_ifs
  · exact ⟨hdue.state, hdue.now, hdue.txTimer, hdue.txAttempts, hdue.connectTimer⟩
  · exact ⟨rfl, rfl, rfl, rfl, rfl⟩
  · split
    · exact .refl c
    · exact pushData_sameTimers c _ data

theorem recordLoop_sameTimers (n : Nat) (c : Netchan) (q : Bytes) :
    SameTimers c (recordLoop n c q) := by
  induction n generalizing c q with
  | zero => exact .refl c
  | succ n ih =>
    unfold recordLoop
    dsimp only
    split_ifs
    · exact .refl c
    · exact .refl c
    · exact (deliver_sameTimers c _ _ _ _).trans (ih _ _)

theorem sendUnrelLoop_sameTimers (cap n : Nat) (c : Netchan) (w : Bytes) :
    SameTimers c (sendUnrelLoop cap n c w).1 := by
  induction n generalizing c w with
  | zero => exact .refl c
  | succ n ih =>
    unfold sendUnrelLoop
    dsimp only
    split_ifs
    · exact .refl c
    · exact .refl c
    · have hpop : SameTimers c { c with
          txuHead := (c.txuHead + 1) % ncUnrelTxq
          txuCount := c.txuCount - 1 } := ⟨rfl, rfl, rfl, rfl, rfl⟩
      exact hpop.trans (ih _ _)

theorem ncWrite_sameTimers (c : Netchan) (k : Nat) (data : Bytes) :
    SameTimers c (ncWrite c k data).1 := by
  unfold ncWrite writeRel writeUnrel txuRoom
  dsimp only
  repeat' split
  all_goals exact ⟨rfl, rfl, rfl, rfl, rfl⟩

theorem processAck_timers (h : c.Windowed) (ack : UInt16) :
    (processAck c ack).state = c.state ∧
      ((processAck c ack).OnWire →
        c.OnWire ∧ (processAck c ack).txTimer = c.txTimer ∧
            (processAck c ack).txAttempts = c.txAttempts ∨
          AcksPart c ack ∧ (processAck c ack).txTimer = c.now + rtMs ∧
            (processAck c ack).txAttempts = 0) := by
  have hwindowed := (processAck_slides h ack).windowed h
  have hstops : ¬(ackLoop ack (c.txNext - c.txBase).toNat c).ackGoes ack := ackLoop_stops le_rfl
  obtain ⟨j, log, hj, heq⟩ := ackLoop_shape ack (c.txNext - c.txBase).toNat c
  unfold processAck at hwindowed ⊢
  dsimp only at hwindowed ⊢
  rw [heq] at hstops hwindowed ⊢
  have hunsent : ackUnsent { c with txBase := c.txBase + UInt16.ofNat j, log := log } =
      { c with
        txBase := c.txBase + UInt16.ofNat j, log := log
        txUnsent := if seqAfter (c.txBase + UInt16.ofNat j) c.txUnsent then
          c.txBase + UInt16.ofNat j else c.txUnsent } := by
    unfold ackUnsent
    dsimp only
    split_ifs <;> rfl
  rw [hunsent] at hwindowed ⊢
  dsimp only at hstops hwindowed ⊢
  by_cases hsame : c.txBase + UInt16.ofNat j = c.txBase
  · rw [if_neg (not_not.2 hsame)]
    refine ⟨rfl, fun hwire => .inl ⟨?_, rfl, rfl⟩⟩
    dsimp only [Netchan.OnWire] at hwire
    split_ifs at hwire with hgo
    · exact absurd rfl hwire
    · rwa [hsame] at hwire
  · rw [if_pos hsame] at hwindowed ⊢
    refine ⟨rfl, fun hwire => .inr ?_⟩
    have hgoes : seqAfter ack c.txBase = true := by
      by_contra hno
      have hdone : ackLoop ack (c.txNext - c.txBase).toNat c = c :=
        ackLoop_done fun hgo => hno hgo.2
      exact hsame (congrArg Netchan.txBase (heq.symm.trans hdone))
    by_cases hall : c.txBase + UInt16.ofNat j = c.txNext
    · -- nothing waits any more
      have hle := hwindowed.unsent
      dsimp only at hle hwire
      rw [← hall, UInt16.sub_self] at hle
      exact absurd (dist_pos (Ne.symm hwire)) (Nat.not_lt.mpr hle)
    · have hlt : j < (c.txNext - c.txBase).toNat := by
        refine Nat.lt_of_le_of_ne hj fun hjeq => hall ?_
        rw [hjeq, UInt16.ofNat_toNat, UInt16.add_comm, UInt16.sub_add_cancel]
      rw [if_neg hall]
      have hpart : seqAfter ack (c.txBase + UInt16.ofNat j) = false := by
        by_contra hgo
        exact hstops ⟨hall, by simpa using hgo⟩
      exact ⟨⟨hgoes, j, hlt, hpart⟩, rfl, rfl⟩

/-- A packet is heard that acknowledges nothing; a SYN may begin an attempt. -/
structure Hears (c c' : Netchan) : Prop where
  window : SameWindow c c'
  now : c'.now = c.now
  txTimer : c'.txTimer = c.txTimer
  txAttempts : c'.txAttempts = c.txAttempts
  dialed : c'.state = .connecting → c.state = .connecting ∧ c'.connectTimer = c.connectTimer ∨
    c.state ≠ .connecting ∧ c'.connectTimer = c.now + connectRetryMs

theorem Hears.refl (c : Netchan) : Hears c c :=
  ⟨.refl c, rfl, rfl, rfl, fun h => .inl ⟨h, rfl⟩⟩

theorem Hears.of_peer {peer : Addr} {remoteId lastRecv : UInt32}
    (h : Hears { c with peer := peer, remoteId := remoteId, lastRecv := lastRecv } c') :
    Hears c c' :=
  ⟨⟨h.window.txw, h.window.base, h.window.next, h.window.unsent⟩, h.now, h.txTimer,
    h.txAttempts, h.dialed⟩

theorem Hears.of_state {state : ConnState} {evq : Nat → Event} {evCount : Nat}
    (hstate : state ≠ .connecting) :
    Hears c { c with state := state, evq := evq, evCount := evCount } :=
  ⟨⟨rfl, rfl, rfl, rfl⟩, rfl, rfl, rfl, fun h => absurd h hstate⟩

theorem evPush_hears {state : ConnState} (hstate : state ≠ .connecting) (type : EvType) :
    Hears c (evPush { c with state := state } type none) := by
  unfold evPush
  split_ifs
  · exact .of_state hstate
  · exact .of_state hstate

theorem upIfConnecting_hears (c : Netchan) : Hears c (upIfConnecting c) := by
  unfold upIfConnecting
  split_ifs
  · exact evPush_hears ConnState.noConfusion _
  · exact .refl c

theorem feedSyn_hears (c : Netchan) (pkt : Bytes) (source : Option Addr) :
    Hears c (feedSyn c pkt source).1 := by
  unfold feedSyn askSynack acceptSyn lockPeer
  by_cases hclosed : c.state = .closed
  · have hnot : c.state ≠ .connecting := fun h => ConnState.noConfusion (hclosed.symm.trans h)
    simp only [if_pos hclosed]
    split_ifs
    · exact .refl c
    · exact .refl c
    · exact ⟨⟨rfl, rfl, rfl, rfl⟩, rfl, rfl, rfl, fun _ => .inr ⟨hnot, rfl⟩⟩
  · simp only [if_neg hclosed]
    split_ifs
    · exact .refl c
    · exact .refl c
    · exact ⟨⟨rfl, rfl, rfl, rfl⟩, rfl, rfl, rfl, fun h => .inl ⟨h, rfl⟩⟩
    · exact .refl c

theorem feedSynack_hears (c : Netchan) (pkt : Bytes) (source : Option Addr) :
    Hears c (feedSynack c pkt source).1 := by
  have hup : Hears c (upIfConnecting (lockPeer c pkt source)) :=
    .of_peer (upIfConnecting_hears (lockPeer c pkt source))
  unfold feedSynack
  generalize upIfConnecting (lockPeer c pkt source) = d at hup
  split_ifs
  · exact .refl c
  · exact .refl c
  · exact ⟨⟨hup.window.txw, hup.window.base, hup.window.next, hup.window.unsent⟩, hup.now,
      hup.txTimer, hup.txAttempts, hup.dialed⟩

theorem feedData_hears (c : Netchan) (pkt : Bytes) :
    Hears c (feedData c pkt).1 ∨ ∃ d, Hears c d ∧ d.state = .connected ∧ (feedData c pkt).1 =
      recordLoop pkt.length (processAck d (rd16 (pkt.drop 6))) (pkt.drop ncHdr) := by
  have hup : Hears c (if c.isServer = true ∧ c.state = .connecting then up c else c) := by
    split_ifs
    · exact evPush_hears ConnState.noConfusion _
    · exact .refl c
  unfold feedData
  generalize (if c.isServer = true ∧ c.state = .connecting then up c else c) = d at hup
  dsimp only
  split_ifs with hid hstate
  · exact .inl (.refl c)
  · exact .inl hup
  · exact .inr ⟨d, hup, not_not.mp hstate, rfl⟩

theorem ncFeed_hears (c : Netchan) (pkt : Bytes) (source : Option Addr) :
    Hears c (ncFeed c pkt source).1 ∨
      ∃ d, Hears c d ∧ d.state = .connected ∧ pkt.getD 4 0 = pktData ∧ (ncFeed c pkt source).1 =
        recordLoop pkt.length (processAck d (rd16 (pkt.drop 6))) (pkt.drop ncHdr) := by
  have hset {c' : Netchan} (h : Hears { c with lastRecv := c.now } c') : Hears c c' := h.of_peer
  refine ncFeed_elim c pkt source ?_ ?_ ?_ ?_ (fun hdata => ?_) ?_ ?_
  · exact .inl (.refl c)
  · exact .inl (hset (feedSyn_hears _ pkt source))
  · exact .inl (hset (feedSynack_hears _ pkt source))
  · refine .inl (hset ?_)
    unfold feedAck
    split_ifs
    · exact .refl _
    · exact upIfConnecting_hears _
  · rcases feedData_hears { c with lastRecv := c.now } pkt with h | ⟨d, h, hstate, heq⟩
    · exact .inl (hset h)
    · exact .inr ⟨d, hset h, hstate, hdata, heq⟩
  · refine .inl (hset ?_)
    unfold feedFin
    split_ifs
    · exact .refl _
    · exact evPush_hears ConnState.noConfusion _
    · exact .refl _
  · exact .inl (hset (.refl _))

/-- What a packet that goes out leaves alone, and what it does to the timer. -/
structure SendsOut (c : Netchan) (buflen : Nat) (c' : Netchan) : Prop where
  state : c'.state = c.state
  base : c'.txBase = c.txBase
  txAttempts : c'.txAttempts = c.txAttempts
  connectTimer : c'.connectTimer = c.connectTimer
  runs : c.txTimer ≠ 0 → c'.txTimer = c.txTimer
  puts : c'.txUnsent ≠ c.txUnsent → c.Puts buflen ∧ (c.txTimer = 0 → c'.txTimer = c.now + rtMs)

theorem ncSendNext_sendsOut (h : c.Windowed) (buflen : Nat) :
    SendsOut c buflen (ncSendNext c buflen).1 := by
  refine ncSendNext_elim c buflen ?_ ?_ ?_ ?_ fun hsynack hack hsyn hstate => ?_
  · exact ⟨rfl, rfl, rfl, rfl, fun _ => rfl, fun hne => absurd rfl hne⟩
  · exact ⟨rfl, rfl, rfl, rfl, fun _ => rfl, fun hne => absurd rfl hne⟩
  · exact ⟨rfl, rfl, rfl, rfl, fun _ => rfl, fun hne => absurd rfl hne⟩
  · exact ⟨rfl, rfl, rfl, rfl, fun _ => rfl, fun hne => absurd rfl hne⟩
  · obtain ⟨j, w, hj, hloop⟩ :=
      sendRelLoop_shape (min buflen ncMtu) (c.txNext - c.txUnsent).toNat c []
    have hputs : c.txUnsent + UInt16.ofNat j ≠ c.txUnsent → c.Puts buflen := by
      intro hmoved
      have hopen : c.txUnsent ≠ c.txNext := by
        intro hdone
        rw [hdone, UInt16.sub_self] at hj
        rw [Nat.le_zero.mp hj, add_ofNat_zero] at hmoved
        exact hmoved rfl
      refine ⟨hsynack, hack, hsyn, hstate, hopen, ?_⟩
      by_contra hfull
      obtain ⟨n, hn⟩ := Nat.exists_eq_succ_of_ne_zero (dist_pos hopen).ne'
      have hcap : ncHdr + ([] : Bytes).length +
          (ncRec + (c.txw (c.txUnsent.toNat % ncWindow)).data.length) > min buflen ncMtu := by
        rw [List.length_nil]
        omega
      rw [hn, sendRelLoop, if_neg hopen] at hloop
      dsimp only at hloop
      rw [if_pos hcap] at hloop
      exact hmoved (congrArg (fun r => r.1.txUnsent) hloop).symm
    have hbase : c.txUnsent + UInt16.ofNat j ≠ c.txUnsent → c.txBase ≠ c.txNext := by
      intro hmoved heq
      have hle := h.unsent
      rw [heq, UInt16.sub_self] at hle
      exact absurd (dist_pos (hputs hmoved).2.2.2.2.1.symm) (Nat.not_lt.mpr hle)
    unfold sendData
    rw [hloop]
    dsimp only
    generalize hd : armTimer { c with txUnsent := c.txUnsent + UInt16.ofNat j } = d
    have hunrel := sendUnrelLoop_sameTimers (min buflen ncMtu) d.txuCount d w
    have hwindow := sendUnrelLoop_sameWindow (min buflen ncMtu) d.txuCount d w
    generalize (sendUnrelLoop (min buflen ncMtu) d.txuCount d w).1 = e at hunrel hwindow ⊢
    unfold armTimer at hd
    dsimp only at hd
    by_cases harm : c.txBase ≠ c.txNext ∧ c.txTimer = 0
    · rw [if_pos harm] at hd
      subst hd
      refine ⟨hunrel.state, hwindow.base, hunrel.txAttempts, hunrel.connectTimer,
        fun hset => absurd harm.2 hset, fun hmoved => ⟨hputs fun heq => ?_, fun _ => ?_⟩⟩
      · exact hmoved (hwindow.unsent.trans heq)
      · exact hunrel.txTimer
    · rw [if_neg harm] at hd
      subst hd
      refine ⟨hunrel.state, hwindow.base, hunrel.txAttempts, hunrel.connectTimer,
        fun _ => hunrel.txTimer, fun hmoved => ?_⟩
      have hmoved' : c.txUnsent + UInt16.ofNat j ≠ c.txUnsent := fun heq =>
        hmoved (hwindow.unsent.trans heq)
      exact ⟨hputs hmoved', fun hunset => absurd ⟨hbase hmoved', hunset⟩ harm⟩

/-- The state after an `nc_service`: nothing is sent again, or what waits is to be sent again and is
not on the wire; an attempt to connect is repeated, or is not. -/
structure Serves (c : Netchan) (nowMs : UInt32) (c' : Netchan) : Prop where
  now : c'.now = nowMs
  sent : c'.OnWire → c.OnWire ∧ c'.txTimer = c.txTimer ∧
    backoff c'.txAttempts = backoff c.txAttempts
  dialed : c'.state = .connecting → c.state = .connecting ∧
    (c'.connectAttempts = c.connectAttempts ∧ c'.connectTimer = c.connectTimer ∨
      c'.connectAttempts ≠ c.connectAttempts ∧ c'.connectTimer = nowMs + connectRetryMs)

theorem down_serves {nowMs : UInt32} {txAttempts connectAttempts : UInt16}
    (hattempts : backoff txAttempts = backoff c.txAttempts) :
    Serves c nowMs (down { c with
      now := nowMs, txAttempts := txAttempts, connectAttempts := connectAttempts }) := by
  unfold down evPush
  split_ifs
  · exact ⟨rfl, fun h => ⟨h, rfl, hattempts⟩, fun h => ConnState.noConfusion h⟩
  · exact ⟨rfl, fun h => ⟨h, rfl, hattempts⟩, fun h => ConnState.noConfusion h⟩

theorem serviceConnecting_serves (hstate : c.state = .connecting) (nowMs : UInt32) :
    Serves c nowMs (serviceConnecting { c with now := nowMs } nowMs).1 := by
  have hnew : c.connectAttempts + 1 ≠ c.connectAttempts := add_one_ne _
  unfold serviceConnecting
  dsimp only
  split_ifs
  · exact down_serves rfl
  · exact ⟨rfl, fun h => ⟨h, rfl, rfl⟩, fun _ => ⟨hstate, .inr ⟨hnew, rfl⟩⟩⟩
  · exact ⟨rfl, fun h => ⟨h, rfl, rfl⟩, fun _ => ⟨hstate, .inr ⟨hnew, rfl⟩⟩⟩
  · exact ⟨rfl, fun h => ⟨h, rfl, rfl⟩, fun _ => ⟨hstate, .inl ⟨rfl, rfl⟩⟩⟩

theorem serviceConnected_serves (hstate : c.state = .connected) (nowMs : UInt32) :
    Serves c nowMs (serviceConnected { c with now := nowMs } nowMs).1 := by
  have hopen : c.state ≠ .connecting := fun h => ConnState.noConfusion (hstate.symm.trans h)
  unfold serviceConnected keepalive
  dsimp only
  split_ifs with hsilent hdue hgive
  · exact down_serves rfl
  · exact down_serves (backoff_last hgive)
  · exact ⟨rfl, fun h => absurd rfl h, fun h => absurd h hopen⟩
  · exact ⟨rfl, fun h => absurd rfl h, fun h => absurd h hopen⟩
  · exact ⟨rfl, fun h => ⟨h, rfl, rfl⟩, fun h => absurd h hopen⟩
  · exact ⟨rfl, fun h => ⟨h, rfl, rfl⟩, fun h => absurd h hopen⟩

theorem ncService_serves (c : Netchan) (nowMs : UInt32) :
    Serves c nowMs (ncService c nowMs).1 := by
  unfold ncService
  dsimp only
  split
  · next hstate => exact serviceConnecting_serves hstate nowMs
  · next hstate => exact serviceConnected_serves hstate nowMs
  · next hno _ => exact ⟨rfl, fun h => ⟨h, rfl, rfl⟩, fun h => absurd h hno⟩

end Calls

/-! ### Every run -/

section Run

variable {s : Timed}

theorem Timed.step_windowed (s : Timed) (h : s.c.Windowed) (a : Act) : (s.step a).c.Windowed := by
  rcases step_window h a with ⟨_, _, hfill⟩ | ⟨_, hslide⟩
  · exact hfill.windowed h
  · exact hslide.windowed h

theorem Timed.InTime.quiet (h : s.InTime) {a : Act} (hsends : s.c.sends a = false)
    (hdials : s.c.dials a = false) (ht : SameTimers s.c (s.c.step a))
    (hbase : (s.c.step a).txBase = s.c.txBase) (hunsent : (s.c.step a).txUnsent = s.c.txUnsent) :
    (s.step a).InTime := by
  refine ⟨s.step_windowed h.windowed a, fun hwire => ?_, fun hstate => ?_⟩
  · change (s.c.step a).OnWire at hwire
    rw [Netchan.OnWire, hbase, hunsent] at hwire
    change (s.c.step a).txTimer = (if s.c.sends a then s.c.now else s.sentAt) +
      backoff (s.c.step a).txAttempts
    rw [hsends, ht.txTimer, ht.txAttempts]
    exact h.sent hwire
  · change (s.c.step a).connectTimer =
      (if s.c.dials a then (s.c.step a).now else s.dialedAt) + connectRetryMs
    rw [hdials, ht.connectTimer]
    exact h.dialed (ht.state.symm.trans hstate)

theorem Timed.InTime.feed (h : s.InTime) {pkt : Bytes} {source : Option Addr}
    (hok : s.InStep (.feed pkt source)) : (s.step (.feed pkt source)).InTime := by
  refine ⟨s.step_windowed h.windowed _, fun hwire => ?_, fun hstate => ?_⟩
  · change (ncFeed s.c pkt source).1.txTimer = s.sentAt +
      backoff (ncFeed s.c pkt source).1.txAttempts
    change (ncFeed s.c pkt source).1.OnWire at hwire
    rcases ncFeed_hears s.c pkt source with hh | ⟨d, hh, -, hdata, heq⟩
    · rw [Netchan.OnWire, hh.window.base, hh.window.unsent] at hwire
      rw [hh.txTimer, hh.txAttempts]
      exact h.sent hwire
    · have hloop := recordLoop_sameTimers pkt.length (processAck d (rd16 (pkt.drop 6)))
        (pkt.drop ncHdr)
      have hwindow := recordLoop_sameWindow pkt.length (processAck d (rd16 (pkt.drop 6)))
        (pkt.drop ncHdr)
      rw [heq, Netchan.OnWire, hwindow.base, hwindow.unsent] at hwire
      rw [heq, hloop.txTimer, hloop.txAttempts]
      rcases (processAck_timers (h.windowed.same hh.window) _).2 hwire with
        ⟨hwire, ht, ha⟩ | ⟨hpart, ht, ha⟩
      · rw [Netchan.OnWire, hh.window.base, hh.window.unsent] at hwire
        rw [ht, ha, hh.txTimer, hh.txAttempts]
        exact h.sent hwire
      · rw [AcksPart, hh.window.base, hh.window.next] at hpart
        rw [ht, ha, hh.now, hok hdata hpart]
        rfl
  · change (ncFeed s.c pkt source).1.connectTimer = (if s.c.dials (.feed pkt source) then
      (ncFeed s.c pkt source).1.now else s.dialedAt) + connectRetryMs
    change (ncFeed s.c pkt source).1.state = .connecting at hstate
    rcases ncFeed_hears s.c pkt source with hh | ⟨d, hh, hopen, hdata, heq⟩
    · rcases hh.dialed hstate with ⟨hbefore, ht⟩ | ⟨hbefore, ht⟩
      · rw [Netchan.dials, if_neg (by simp [hbefore]), ht]
        exact h.dialed hbefore
      · rw [Netchan.dials, if_pos (by simp [hbefore, hstate]), ht, hh.now]
    · rw [heq, (recordLoop_sameTimers _ _ _).state,
        (processAck_timers (h.windowed.same hh.window) _).1, hopen] at hstate
      cases hstate

theorem Timed.InTime.sendNext (h : s.InTime) {buflen : Nat} (hok : s.InStep (.sendNext buflen)) :
    (s.step (.sendNext buflen)).InTime := by
  have hs := ncSendNext_sendsOut h.windowed buflen
  refine ⟨s.step_windowed h.windowed _, fun hwire => ?_, fun hstate => ?_⟩
  · change (ncSendNext s.c buflen).1.OnWire at hwire
    change (ncSendNext s.c buflen).1.txTimer = (if s.c.sends (.sendNext buflen) then s.c.now
      else s.sentAt) + backoff (ncSendNext s.c buflen).1.txAttempts
    rw [hs.txAttempts]
    by_cases hmoved : (ncSendNext s.c buflen).1.txUnsent = s.c.txUnsent
    · rw [Netchan.OnWire, hmoved, hs.base] at hwire
      rw [Netchan.sends, if_neg (by simp [hmoved]), hs.runs (hok.1 hwire)]
      exact h.sent hwire
    · obtain ⟨hputs, hset⟩ := hs.puts hmoved
      rw [Netchan.sends, if_pos (by simp [hmoved])]
      rcases hok.2 hputs with ⟨hunset, hfirst⟩ | ⟨hrunning, htimer⟩
      · rw [hset hunset, hfirst]
        rfl
      · rw [hs.runs hrunning, htimer]
  · change (ncSendNext s.c buflen).1.connectTimer = s.dialedAt + connectRetryMs
    rw [hs.connectTimer]
    exact h.dialed (hs.state.symm.trans hstate)

theorem Timed.InTime.service (h : s.InTime) (nowMs : UInt32) :
    (s.step (.service nowMs)).InTime := by
  have hs := ncService_serves s.c nowMs
  refine ⟨s.step_windowed h.windowed _, fun hwire => ?_, fun hstate => ?_⟩
  · obtain ⟨hwire, ht, ha⟩ := hs.sent hwire
    change (ncService s.c nowMs).1.txTimer = s.sentAt + backoff (ncService s.c nowMs).1.txAttempts
    rw [ht, ha]
    exact h.sent hwire
  · change (ncService s.c nowMs).1.connectTimer = (if s.c.dials (.service nowMs) then
      (ncService s.c nowMs).1.now else s.dialedAt) + connectRetryMs
    obtain ⟨hbefore, ⟨ha, ht⟩ | ⟨ha, ht⟩⟩ := hs.dialed hstate
    · rw [Netchan.dials, if_neg (by simp [ha]), ht]
      exact h.dialed hbefore
    · rw [Netchan.dials, if_pos (by simp [ha]), ht, hs.now]

theorem Timed.InTime.step (h : s.InTime) {a : Act} (hok : s.InStep a) : (s.step a).InTime := by
  cases a with
  | connect addr =>
    cases addr with
    | none => exact h.quiet rfl rfl (.refl _) rfl rfl
    | some addr => exact ⟨s.step_windowed h.windowed _, h.sent, fun _ => rfl⟩
  | chanOpen type =>
    have hw := ncChanOpen_sameWindow s.c type
    refine h.quiet rfl rfl ?_ hw.base hw.unsent
    change SameTimers s.c (ncChanOpen s.c type).1
    unfold ncChanOpen
    split <;> exact ⟨rfl, rfl, rfl, rfl, rfl⟩
  | chanClose k => exact h.quiet rfl rfl ⟨rfl, rfl, rfl, rfl, rfl⟩ rfl rfl
  | write k data =>
    have ht := ncWrite_sameTimers s.c k data
    rcases ncWrite_window s.c k data with ⟨_, _, hfill⟩ | ⟨_, hw⟩
    · exact h.quiet rfl rfl ht hfill.base hfill.unsent
    · exact h.quiet rfl rfl ht hw.base hw.unsent
  | read k buflen =>
    have hw := ncRead_sameWindow s.c k buflen
    refine h.quiet rfl rfl ?_ hw.base hw.unsent
    change SameTimers s.c (ncRead s.c k buflen).1
    unfold ncRead
    dsimp only
    split_ifs <;> exact ⟨rfl, rfl, rfl, rfl, rfl⟩
  | poll =>
    have hpoll : SameTimers s.c (ncPoll s.c).1 ∧ SameWindow s.c (ncPoll s.c).1 := by
      unfold ncPoll
      split_ifs <;> exact ⟨⟨rfl, rfl, rfl, rfl, rfl⟩, rfl, rfl, rfl, rfl⟩
    exact h.quiet rfl rfl hpoll.1 hpoll.2.base hpoll.2.unsent
  | feed pkt source => exact h.feed hok
  | sendNext buflen => exact h.sendNext hok
  | service nowMs => exact h.service nowMs

/-- `nc_open`, before anything is sent. -/
def Timed.Opened (s : Timed) : Prop := ∃ isServer r r', s = ⟨ncOpen isServer r r', 0, 0⟩

theorem Timed.inTime (h : Reach Timed.Opened Timed.InStep Timed.step s) : s.InTime := by
  refine h.invariant ?_ fun s a hs hok => hs.step hok
  rintro _ ⟨isServer, r, r', rfl⟩
  exact ⟨⟨le_rfl, show ((0 : UInt16) - 0).toNat ≤ 8 by decide⟩, fun hwire => absurd rfl hwire,
    fun h => ConnState.noConfusion h⟩

end Run

end MechanicalResearcher.NetchanIpx
