import MechanicalResearcher.NetchanIpx.GoBackN

/-!
# A second session on one netchan

A server that went back to `CLOSED` accepts the SYN of the next client, and keeps the
sequence counters, the window and the rings of the session before.  `Rested` is the state
in which nothing of them matters; a session that starts there is a first session.
-/

namespace MechanicalResearcher.NetchanIpx

open Lib Lib.Serial Lib.BigEndian Lib.Runs Lib.Network

section HeadsIn

variable {c c' : Netchan}

theorem Netchan.HeadsIn.congr (h : c.HeadsIn) (htxu : c'.txuHead = c.txuHead)
    (hchan : c'.chan = c.chan) : c'.HeadsIn :=
  ⟨htxu ▸ h.txu, hchan ▸ h.rx⟩

theorem Netchan.HeadsIn.idle (h : c.HeadsIn) (hi : Idle c c') : c'.HeadsIn :=
  h.congr hi.txuHead hi.chan

theorem Netchan.HeadsIn.update (h : c.HeadsIn) (k : Nat) {ch : Chan} (hhead : ch.rxHead < ncRecvq)
    (htxu : c'.txuHead = c.txuHead) (hchan : c'.chan = Function.update c.chan k ch) :
    c'.HeadsIn := by
  refine ⟨htxu ▸ h.txu, fun j => ?_⟩
  rw [hchan]
  by_cases hj : j = k
  · rw [hj, Function.update_self]
    exact hhead
  · rw [Function.update_of_ne hj]
    exact h.rx j

theorem Netchan.HeadsIn.turn (h : c.HeadsIn)
    (htxu : c'.txuHead = (c.txuHead + 1) % ncUnrelTxq) (hchan : c'.chan = c.chan) :
    c'.HeadsIn := by
  refine ⟨?_, hchan ▸ h.rx⟩
  rw [htxu]
  exact Nat.mod_lt _ (by decide)

theorem ncChanOpen_headsIn (h : c.HeadsIn) (type : ChanType) : (ncChanOpen c type).1.HeadsIn := by
  unfold ncChanOpen
  split
  · exact h
  · exact h.update _ (show 0 < 8 by decide) rfl rfl

theorem ncWrite_headsIn (h : c.HeadsIn) (k : Nat) (data : Bytes) :
    (ncWrite c k data).1.HeadsIn := by
  unfold ncWrite
  split_ifs
  · exact h
  · exact h
  · exact h
  · split
    · unfold writeRel
      split_ifs
      · exact h
      · exact h.congr rfl rfl
    · have hroom : (txuRoom c).HeadsIn := by
        unfold txuRoom
        split_ifs
        · exact h.turn rfl rfl
        · exact h
      exact hroom.congr rfl rfl

theorem ncRead_headsIn (h : c.HeadsIn) (k buflen : Nat) : (ncRead c k buflen).1.HeadsIn := by
  unfold ncRead
  dsimp only
  split_ifs
  · exact h
  · exact h
  · exact h.update k (Nat.mod_lt _ (by decide)) rfl rfl

theorem ackLoop_headsIn (ack : UInt16) (n : Nat) (h : c.HeadsIn) : (ackLoop ack n c).HeadsIn := by
  induction n generalizing c with
  | zero => exact h
  | succ n ih =>
    unfold ackLoop
    split_ifs
    · exact ih (h.congr rfl rfl)
    · exact h

theorem processAck_headsIn (h : c.HeadsIn) (ack : UInt16) : (processAck c ack).HeadsIn := by
  have hloop := ackLoop_headsIn ack (c.txNext - c.txBase).toNat h
  have hunsent : (ackUnsent (ackLoop ack (c.txNext - c.txBase).toNat c)).HeadsIn := by
    unfold ackUnsent
    split_ifs
    · exact hloop.congr rfl rfl
    · exact hloop
  unfold processAck
  dsimp only
  split_ifs
  · exact hunsent.congr rfl rfl
  · exact hunsent.congr rfl rfl
  · exact hunsent

theorem pushData_headsIn (h : c.HeadsIn) (k : Nat) (data : Bytes) :
    (pushData c k data).HeadsIn := by
  obtain ⟨-, -, -, hhead⟩ := rxqPush_keeps (c.chan k) data
  have hset : { c with chan := Function.update c.chan k (rxqPush (c.chan k) data) }.HeadsIn :=
    h.update k (hhead ▸ h.rx k) rfl rfl
  exact hset.idle (pushData_idle c k data)

theorem deliver_headsIn (h : c.HeadsIn) (chan mt : UInt8) (seq : UInt16) (data : Bytes) :
    (deliver c chan mt seq data).HeadsIn := by
  have hdue : (deliverDue c chan data).HeadsIn := by
    unfold deliverDue
    split
    · exact h.congr rfl rfl
    · split_ifs
      · exact h
      · exact (pushData_headsIn h _ data).congr rfl rfl
  unfold deliver
  split_ifs
  · exact hdue.congr rfl rfl
  · exact h.congr rfl rfl
  · split
    · exact h
    · exact pushData_headsIn h _ data

theorem recordLoop_headsIn (n : Nat) (h : c.HeadsIn) (q : Bytes) : (recordLoop n c q).HeadsIn := by
  induction n generalizing c q with
  | zero => exact h
  | succ n ih =>
    unfold recordLoop
    dsimp only
    split_ifs
    · exact h
    · exact h
    · exact ih (deliver_headsIn h _ _ _ _) _

theorem sendRelLoop_headsIn (cap n : Nat) (h : c.HeadsIn) (w : Bytes) :
    (sendRelLoop cap n c w).1.HeadsIn := by
  induction n generalizing c w with
  | zero => exact h
  | succ n ih =>
    unfold sendRelLoop
    dsimp only
    split_ifs
    · exact h
    · exact h
    · refine ih ?_ _
      exact h.congr rfl rfl

theorem sendUnrelLoop_headsIn (cap n : Nat) (h : c.HeadsIn) (w : Bytes) :
    (sendUnrelLoop cap n c w).1.HeadsIn := by
  induction n generalizing c w with
  | zero => exact h
  | succ n ih =>
    unfold sendUnrelLoop
    dsimp only
    split_ifs
    · exact h
    · exact h
    · refine ih ?_ _
      exact h.turn rfl rfl

theorem ncSendNext_headsIn (h : c.HeadsIn) (buflen : Nat) : (ncSendNext c buflen).1.HeadsIn := by
  have hdata : ∀ cap, (sendData c cap).1.HeadsIn := by
    intro cap
    have hrel := sendRelLoop_headsIn cap (c.txNext - c.txUnsent).toNat h []
    have harm : (armTimer (sendRelLoop cap (c.txNext - c.txUnsent).toNat c []).1).HeadsIn := by
      unfold armTimer
      split_ifs
      · exact hrel.congr rfl rfl
      · exact hrel
    unfold sendData
    generalize sendRelLoop cap (c.txNext - c.txUnsent).toNat c [] = r at harm ⊢
    exact (sendUnrelLoop_headsIn cap (armTimer r.1).txuCount harm r.2).congr rfl rfl
  refine ncSendNext_elim c buflen ?_ ?_ ?_ ?_ fun _ _ _ _ => ?_
  · exact h
  · exact h.congr rfl rfl
  · exact h.congr rfl rfl
  · exact h.congr rfl rfl
  · exact hdata _

theorem ncService_headsIn (h : c.HeadsIn) (nowMs : UInt32) : (ncService c nowMs).1.HeadsIn := by
  have hset : Idle c { c with now := nowMs } := Idle.set
  unfold ncService
  dsimp only
  split
  · exact (h.idle hset).idle (serviceConnecting_idle _ nowMs)
  · rcases serviceConnected_idle { c with now := nowMs } nowMs with hi | hi
    · exact (h.idle hset).idle hi
    · exact h.congr hi.txuHead hi.chan
  · exact h.idle hset

theorem ncFeed_headsIn (h : c.HeadsIn) (pkt : Bytes) (source : Option Addr) :
    (ncFeed c pkt source).1.HeadsIn := by
  rcases ncFeed_cases c pkt source with hi | ⟨d, hi, -, heq⟩
  · exact h.idle hi
  · rw [heq]
    exact recordLoop_headsIn _ (processAck_headsIn (h.idle hi) _) _

theorem Netchan.HeadsIn.step (h : c.HeadsIn) (a : Act) : (c.step a).HeadsIn := by
  cases a with
  | connect addr =>
    cases addr with
    | none => exact h
    | some addr => exact h.congr rfl rfl
  | chanOpen type => exact ncChanOpen_headsIn h type
  | chanClose k =>
    have hhead : { c.chan k with used := false }.rxHead < ncRecvq := h.rx k
    exact h.update k hhead rfl rfl
  | write k data => exact ncWrite_headsIn h k data
  | read k buflen => exact ncRead_headsIn h k buflen
  | poll =>
    change (ncPoll c).1.HeadsIn
    unfold ncPoll
    split_ifs
    · exact h
    · exact h.congr rfl rfl
  | feed pkt source => exact ncFeed_headsIn h pkt source
  | sendNext buflen => exact ncSendNext_headsIn h buflen
  | service nowMs => exact ncService_headsIn h nowMs

theorem reach_headsIn {isServer : Bool} {r r' : UInt32}
    (hrun : Reach (· = ncOpen isServer r r') (fun _ _ => True) Netchan.step c) : c.HeadsIn := by
  refine hrun.invariant ?_ fun s a hs _ => hs.step a
  rintro s rfl
  exact ⟨show 0 < 4 by decide, fun _ => show 0 < 8 by decide⟩

end HeadsIn

/-- The record of the message that is due, as its sender builds it, is taken if there is room. -/
def TakesDue (A B : Netchan) : Prop :=
  ∀ k data, (wrote A.log)[took B.log]? = some (k, data) → rxqFull (B.chan k) = false →
    took (deliver B (A.txw (took B.log % ncWindow)).chan mtRel
      (A.txw (took B.log % ncWindow)).seq (A.txw (took B.log % ncWindow)).data).log =
        took B.log + 1

/-- What `B` has of the messages of `A`, whose histories are those of one session. -/
structure Session (A B : Netchan) : Prop where
  reliable : ∀ k, (A.chan k).used = true → (A.chan k).type = .reliable → Delivers A B k
  unreliable : ∀ k, (A.chan k).used = true → (A.chan k).type = .unreliable →
    reads k B.log ++ (B.chan k).queue ⊆ loose k A.log
  due : TakesDue A B

theorem Flow.takesDue {T : Layout} {A B : Netchan} {fA fB : List Flight}
    (h : Flow T A B fA fB) : TakesDue A B := by
  intro k data hget hroom
  have hmem : (k, data) ∈ wrote A.log := List.mem_of_getElem? hget
  obtain ⟨hk, hlen⟩ := h.sender.sends.typed (k, data) hmem
  rw [h.sender.sends.slot _ k data h.acked_le hget]
  have hdue : deliver B (UInt8.ofNat k) mtRel (UInt16.ofNat (took B.log)) data =
      { deliverDue B (UInt8.ofNat k) data with ackPending := true } := by
    unfold deliver
    rw [if_pos rfl, if_pos h.receiver.takes.next.symm]
  obtain ⟨-, htook⟩ := deliverDue_inbox h.receiver h.inbox hk hlen hget
  rw [hdue]
  rw [hroom] at htook
  exact htook

theorem Flow.session {T : Layout} {A B : Netchan} {fA fB : List Flight}
    (h : Flow T A B fA fB) : Session A B := by
  refine ⟨fun k hused hrel => ?_, fun k hused hunrel => ?_, h.takesDue⟩
  · have hk := (h.sender.laid.of_used hused).1
    rw [hrel] at hk
    exact h.delivers hk
  · have hk := (h.sender.laid.of_used hused).1
    rw [hunrel] at hk
    exact h.inbox.loose k hk

/-- A client that was just opened, and a server as its last session left it.  The histories
start again, and no packet is in flight. -/
def Joint.again (types : List ChanType) (s : Netchan) (r r' : UInt32) : Joint :=
  ⟨fun side => if side then { s with log := [] } else openChans types (ncOpen false r r'),
    fun _ => []⟩

/-- A server that is rested serves the next client as it served the first one. -/
theorem session_fresh (types : List ChanType) {r r' q q' : UInt32} {s : Netchan}
    (hserver : Reach (· = ncOpen true r r') (fun _ _ => True) Netchan.step s)
    (hlaid : s.Laid (layoutOf types)) (hrested : s.Rested)
    {net : Joint} (hrun : Reach (· = Joint.again types s q q') Joint.Fresh (Net.step netchan) net)
    (a : Bool) : Session (net.conn a) (net.conn !a) := by
  obtain ⟨hrestC, hheadsC, hlaidC, hlogC⟩ := openChans_rested types false q q'
  have hrestS : { s with log := [] }.Rested := ⟨hrested.txBase, hrested.txNext, hrested.txUnsent,
    hrested.rxNext, hrested.txuCount, hrested.rings⟩
  have hgoodC := hrestC.good hheadsC hlaidC hlogC
  have hgoodS : { s with log := [] }.Good (layoutOf types) :=
    hrestS.good ((reach_headsIn hserver).congr rfl rfl) (hlaid.congr rfl) rfl
  have hflow : net.Rel a (Flow (layoutOf types)) := by
    refine hrun.invariant ?_ fun s m hs hm => Joint.step_flow a hs hm
    rintro net rfl
    cases a with
    | false => exact Flow.start hgoodC hgoodS hlogC rfl hrestS
    | true => exact Flow.start hgoodS hgoodC rfl hlogC hrestC
  exact hflow.session

/-- Everything but a change of the channels. -/
def Act.serves : Act → Bool
  | .chanOpen _ | .chanClose _ => false
  | _ => true

theorem Netchan.Good.serve {T : Layout} {c : Netchan} (h : c.Good T) {a : Act}
    (ha : a.serves = true) : (c.step a).Good T := by
  cases a with
  | feed pkt source => exact (ncFeed_good h pkt source).1
  | chanOpen type => cases ha
  | chanClose k => cases ha
  | _ => exact (h.call rfl).1

/-- A server that opened its channels and then served. -/
def served (types : List ChanType) (r r' : UInt32) (acts : List Act) : Netchan :=
  acts.foldl Netchan.step (openChans types (ncOpen true r r'))

theorem served_good (types : List ChanType) (r r' : UInt32) {acts : List Act}
    (hacts : ∀ a ∈ acts, a.serves = true) : (served types r r' acts).Good (layoutOf types) := by
  obtain ⟨hrest, hheads, hlaid, hlog⟩ := openChans_rested types true r r'
  have hgood := hrest.good hheads hlaid hlog
  unfold served
  generalize openChans types (ncOpen true r r') = c at hgood
  clear hrest hheads hlaid hlog
  induction acts generalizing c with
  | nil => exact hgood
  | cons a acts ih =>
    exact ih (fun b hb => hacts b (List.mem_cons_of_mem _ hb)) _
      (hgood.serve (hacts a List.mem_cons_self))

theorem openChans_eq_run (types : List ChanType) (c : Netchan) :
    openChans types c = (types.map Act.chanOpen).foldl Netchan.step c := by
  unfold openChans
  rw [List.foldl_map]
  rfl

theorem served_reach (types : List ChanType) (r r' : UInt32) (acts : List Act) :
    Reach (· = ncOpen true r r') (fun _ _ => True) Netchan.step (served types r r' acts) := by
  have hfree : ∀ (as : List Act) (c : Netchan),
      Guarded (fun _ _ => True) Netchan.step c as := by
    intro as
    induction as with
    | nil => exact fun _ => trivial
    | cons a as ih => exact fun c => ⟨trivial, ih _⟩
  have hstart : Reach (· = ncOpen true r r') (fun _ _ => True) Netchan.step (ncOpen true r r') :=
    .start rfl
  have hopen := hstart.run (types.map Act.chanOpen) (hfree _ _)
  rw [← openChans_eq_run] at hopen
  exact hopen.run acts (hfree _ _)

theorem Netchan.Laid.rings {types : List ChanType} {c : Netchan} (h : c.Laid (layoutOf types))
    (h0 : (c.chan 0).rxCount = 0) (h1 : (c.chan 1).rxCount = 0) :
    ∀ k, (c.chan k).used = true → (c.chan k).rxCount = 0 := by
  intro k hused
  obtain ⟨hlt, -⟩ := h.opened k _ (h.of_used hused).1
  have hlt' : k < 2 := hlt
  obtain rfl | rfl : k = 0 ∨ k = 1 := by omega
  · exact h0
  · exact h1

instance (A B : Netchan) (k : Nat) : Decidable (Delivers A B k) :=
  inferInstanceAs (Decidable (_ ∧ _))

/-- A client connects, sends what is given and goes silent. -/
def firstSession (rest : List Act) : List Act :=
  ([.feed (header 0 pktSyn 0 ++ wr32 9) (some peerAddr), .sendNext 546,
    .feed (header 7 pktAck 0) none] : List Act) ++ rest ++ ([.service 10001] : List Act)

/-- The second client says one thing, and the answer arrives. -/
def secondSession : List (Move Act (Option Addr)) :=
  handshake ++ ([.call false (.write 0 [1]), .call false (.sendNext 546), .deliver false 2 none,
    .call true (.sendNext 546), .deliver true 1 none] : List (Move Act (Option Addr)))

def secondNet (s : Netchan) : Joint :=
  Net.run netchan (Joint.again [.reliable] s 11 0) secondSession

/-- The first client said nothing. -/
def quietServer : Netchan := served [.reliable] 7 0 (firstSession [])

theorem session_fresh_quiet :
    quietServer.state = .closed ∧
      (((secondNet quietServer).conn true).chan 0).queue = [[1]] ∧
      Session ((secondNet quietServer).conn false) ((secondNet quietServer).conn true) := by
  have hlaid : quietServer.Laid (layoutOf [.reliable]) :=
    (served_good [.reliable] 7 0 (by decide)).laid
  have hrun : Guarded Joint.Fresh (Net.step netchan) (Joint.again [.reliable] quietServer 11 0)
      secondSession ∧ quietServer.state = .closed ∧
      (((secondNet quietServer).conn true).chan 0).queue = [[1]] ∧
      (quietServer.txBase = 0 ∧ quietServer.txNext = 0 ∧ quietServer.txUnsent = 0 ∧
        quietServer.rxNext = 0 ∧ quietServer.txuCount = 0) ∧
      (quietServer.chan 0).rxCount = 0 ∧ (quietServer.chan 1).rxCount = 0 := by
    decide +kernel
  obtain ⟨hguard, hclosed, hqueue, ⟨hbase, hnext, hunsent, hrx, htxu⟩, h0, h1⟩ := hrun
  have hrested : quietServer.Rested :=
    ⟨hbase, hnext, hunsent, hrx, htxu, hlaid.rings h0 h1⟩
  have hstart : Reach (· = Joint.again [.reliable] quietServer 11 0) Joint.Fresh
      (Net.step netchan) (Joint.again [.reliable] quietServer 11 0) := .start rfl
  exact ⟨hclosed, hqueue, session_fresh [.reliable] (served_reach [.reliable] 7 0 _) hlaid hrested
    (hstart.run secondSession hguard) false⟩

/-- The first client sent one message. -/
def staleServer : Netchan :=
  served [.reliable] 7 0 (firstSession
    [.feed (header 7 pktData 0 ++ record 0 mtRel 0 [5]) none, .read 0 532])

/-- The server acknowledges the message of the second client and does not take it. -/
theorem session_stale :
    Reach (· = ncOpen true 7 0) (fun _ _ => True) Netchan.step staleServer ∧
      staleServer.state = .closed ∧ staleServer.Laid (layoutOf [.reliable]) ∧
      Reach (· = Joint.again [.reliable] staleServer 11 0) Joint.Fresh (Net.step netchan)
        (secondNet staleServer) ∧
      (∀ side, ((secondNet staleServer).conn side).state = .connected) ∧
      wrote ((secondNet staleServer).conn false).log = [(0, [1])] ∧
      acked ((secondNet staleServer).conn false).log = 1 ∧
      took ((secondNet staleServer).conn true).log = 0 ∧
      ¬Session ((secondNet staleServer).conn false) ((secondNet staleServer).conn true) := by
  have hrun : Guarded Joint.Fresh (Net.step netchan) (Joint.again [.reliable] staleServer 11 0)
      secondSession ∧ staleServer.state = .closed ∧
      (∀ side, ((secondNet staleServer).conn side).state = .connected) ∧
      wrote ((secondNet staleServer).conn false).log = [(0, [1])] ∧
      acked ((secondNet staleServer).conn false).log = 1 ∧
      took ((secondNet staleServer).conn true).log = 0 ∧
      (((secondNet staleServer).conn false).chan 0).used = true ∧
      (((secondNet staleServer).conn false).chan 0).type = .reliable ∧
      ¬Delivers ((secondNet staleServer).conn false) ((secondNet staleServer).conn true) 0 := by
    decide +kernel
  obtain ⟨hguard, hclosed, hup, hwrote, hacked, htook, hused, htype, hlost⟩ := hrun
  have hstart : Reach (· = Joint.again [.reliable] staleServer 11 0) Joint.Fresh
      (Net.step netchan) (Joint.again [.reliable] staleServer 11 0) := .start rfl
  exact ⟨served_reach [.reliable] 7 0 _, hclosed, (served_good [.reliable] 7 0 (by decide)).laid,
    hstart.run secondSession hguard, hup, hwrote, hacked, htook,
    fun h => hlost (h.reliable 0 hused htype)⟩

end MechanicalResearcher.NetchanIpx
