import MechanicalResearcher.NetchanV2.Link

/-!
# Delivery and acknowledgement

What the joint invariant says about whole runs of a client and a server that use
one reliable channel: which messages the reading application sees, and what a sent
ACK frame means for the send ring of the other side.
-/

namespace MechanicalResearcher.NetchanV2

open Lib Lib.Serial Lib.Pieces Lib.Runs Lib.Network

variable {id : UInt8} {c : Conn} {a : Bool} {net : Joint} {B : Core} {k : Nat}

/-! ## Marks and return values -/

theorem chanWrite_returns (s : Core) (k : Nat) (data : List UInt8) :
    ((chanWrite s k data).2 = .ok data.length ∧ 0 < data.length ∧
        (chanWrite s k data).1.log = s.log ++ [.write k data]) ∨
      ((chanWrite s k data).2 = .ok 0 ∨ ∃ e, (chanWrite s k data).2 = .error e) ∧
        (chanWrite s k data).1.log = s.log := by
  by_cases hcan : CanWrite s k data
  · rcases chanWrite_taken hcan with ⟨-, heq⟩ | ⟨-, heq⟩
    · rw [heq]
      exact .inr ⟨.inr ⟨_, rfl⟩, rfl⟩
    · rw [heq]
      exact .inl ⟨rfl, hcan.2.2.1, rfl⟩
  · obtain ⟨r, heq, hr⟩ := chanWrite_refused hcan
    rw [heq]
    exact .inr ⟨hr, rfl⟩

theorem chanRead_returns (s : Core) (k buflen : Nat) :
    (∃ data, (chanRead s k buflen).2 = .ok data ∧
        (chanRead s k buflen).1.log = s.log ++ [.read k data]) ∨
      ((chanRead s k buflen).2 = .ok [] ∨ ∃ e, (chanRead s k buflen).2 = .error e) ∧
        (chanRead s k buflen).1 = s := by
  unfold chanRead
  dsimp only
  split_ifs
  · exact .inr ⟨.inr ⟨_, rfl⟩, rfl⟩
  · exact .inr ⟨.inl rfl, rfl⟩
  · exact .inl ⟨_, rfl, by simp [Core.mark, Core.modChan, poolPut_log]⟩

/-! ## The messages handed over -/

section Handed

variable {T : Terms} {W : List (List UInt8)} {s : Core} {k : Nat}

theorem RecvEnd.handed_isPrefix (h : RecvEnd T W s k) (ht : T.intact) : handed k s.log <+: W := by
  have hlen := h.delivered.length
  rw [List.prefix_iff_eq_take]
  refine List.ext_getElem? fun i => ?_
  rw [List.getElem?_take]
  split_ifs with hi
  · have hget : (handed k s.log)[i]? = some ((handed k s.log).get ⟨i, hi⟩) :=
      List.getElem?_eq_getElem hi
    rw [hget]
    exact ((h.delivered.handed i _ hget).2 ht).symm
  · exact List.getElem?_eq_none (by omega)

theorem RecvEnd.reads_isPrefix (h : RecvEnd T W s k) (hint : T.intact) (hwhole : T.whole)
    (hroom : T.room) : reads k s.log <+: W := by
  have hfifo := (h.inbox hwhole).fifo
  have htaken : NetchanV2.taken k s.log = handed k s.log := h.taken hroom
  have hreads : reads k s.log <+: handed k s.log := ⟨_, hfifo.trans htaken⟩
  exact hreads.trans (h.handed_isPrefix hint)

end Handed

/-! ## A run -/

/-- The server opens a reliable channel to the client. -/
def openMoves : List (Move Act (Env × Option Addr)) :=
  [.call false (.connect quietEnv Addr.unset), .call false (.sendNext quietEnv 1200),
    .deliver false 0 (quietEnv, none), .call true .accept,
    .call true (.chanOpen netchanReliable netchanDirSend none),
    .call true (.sendNext quietEnv 1200), .deliver true 0 (quietEnv, none),
    .call false (.sendNext quietEnv 1200), .deliver false 1 (quietEnv, none)]

/-- Two messages are written.  The second one arrives first, the first one arrives twice;
both are read and acknowledged.  A third message arrives. -/
def helloMoves : List (Move Act (Env × Option Addr)) :=
  openMoves ++ ([.call true (.chanWrite 0 [5]), .call true (.chanWrite 0 [6]),
    .call true (.sendNext quietEnv 1200), .call true (.sendNext quietEnv 1200),
    .deliver true 2 (quietEnv, none), .deliver true 1 (quietEnv, none),
    .deliver true 1 (quietEnv, none), .call false (.chanRead 0 2048),
    .call false (.chanRead 0 2048), .call false (.sendNext quietEnv 1200),
    .deliver false 2 (quietEnv, none), .call true (.chanWrite 0 [7]),
    .call true (.sendNext quietEnv 1200), .deliver true 3 (quietEnv, none)] :
      List (Move Act (Env × Option Addr)))

def helloNet : Joint := Net.run netchan (Joint.start fun _ => netchanCfgDefault) helloMoves

theorem CallOk.sendNext {T : Terms} (env : Env) {buflen : Nat} (fs : List Frame)
    (hfs : ∀ f ∈ fs, f.Sendable) (h : ctrlTaken c buflen = fs.flatMap Frame.encode ∧
      (c.channels id).all (fun k => !(c.chanPool k).needAck ||
        (c.chanPool k).recvSeq != 0 && (c.chanPool k).recvBuffered == 0) = true) :
    c.CallOk T id (.sendNext env buflen) := by
  obtain ⟨htake, hack⟩ := h
  refine ⟨⟨fs, hfs, htake⟩, fun k hk hneed => ?_⟩
  have hread : (c.chanPool k).recvSeq ≠ 0 ∧ (c.chanPool k).recvBuffered = 0 := by
    simpa [hk, hneed] using hack
  exact ⟨fun _ => hread.1, fun _ => hread⟩

theorem LinkOk.quiet {T : Terms} {side : Bool} {n : Nat} {e : Env × Option Addr} (pkt : List UInt8)
    (h : (net.flight side)[n]?.map Flight.pkt = some pkt ∧
      ∀ fn ∈ fedFrames (net.conn !side) pkt, fn.1.toData?.isNone = true ∧ fn.1.isAck = false) :
    LinkOk T a id net (.deliver side n e) := by
  obtain ⟨hpkt, hq⟩ := h
  intro p hp
  rw [hp] at hpkt
  obtain rfl : p.pkt = pkt := Option.some.inj hpkt
  have hall : ∀ (fs : List (Frame × Nat)) (c : Conn),
      (∀ fn ∈ fs, fn.1.toData?.isNone = true ∧ fn.1.isAck = false) →
      FramesOk (FrameOk T id ((net.conn a).sentOn id) p) e.1 c fs := by
    intro fs
    induction fs with
    | nil => exact fun _ _ => trivial
    | cons fn fs ih =>
      intro c hfs
      obtain ⟨hdata, hack⟩ := hfs fn List.mem_cons_self
      refine ⟨⟨fun d k hd => ?_, fun seq hseq => ?_⟩,
        ih _ fun fn' hfn' => hfs fn' (List.mem_cons_of_mem _ hfn')⟩
      · rw [hd] at hdata
        cases hdata
      · rw [hseq] at hack
        cases hack
  exact hall _ _ hq

theorem LinkOk.message {T : Terms} {side : Bool} {n : Nat} {e : Env × Option Addr}
    (pkt : List UInt8) (d : DataFrame) (len k : Nat)
    (h : (net.flight side)[n]?.map Flight.pkt = some pkt ∧
      fedFrames (net.conn !side) pkt = [(d.frame, len)] ∧
      (net.conn !side).channels id = some k ∧ advances k (net.conn !side).log < 2 ^ 15 ∧
      fragFind ((net.conn !side).chanPool k) d.seq = none ∧
      RoomFor (net.conn !side).toCore k) : LinkOk T a id net (.deliver side n e) := by
  obtain ⟨hpkt, hfed, hid, hfresh, hfind, hroom⟩ := h
  intro p hp
  rw [hp] at hpkt
  obtain rfl : p.pkt = pkt := Option.some.inj hpkt
  unfold FedOk
  rw [hfed]
  refine ⟨⟨fun d' k' hd hdid hk' => ?_, fun seq hseq => by cases hseq⟩, trivial⟩
  obtain rfl : d = d' := Option.some.inj hd
  obtain rfl : k = k' := Option.some.inj (hid.symm.trans hk')
  refine ⟨Nat.lt_of_lt_of_le hfresh (Nat.le_add_left _ _), fun _ i hi => ?_, fun _ _ _ => hroom⟩
  have hnone : some i = none := hi.1.symm.trans hfind
  cases hnone

theorem LinkOk.acknowledgement {T : Terms} {side : Bool} {n : Nat} {e : Env × Option Addr}
    (pkt : List UInt8) (seq : UInt16) (window : UInt32) (len len' : Nat)
    (h : (net.flight side)[n]?.map Flight.pkt = some pkt ∧
      fedFrames (net.conn !side) pkt = [(.ack id seq, len), (.windowUpdate id window, len')] ∧
      ((net.conn !side).sentOn id).length < 2 ^ 15) :
    LinkOk T a id net (.deliver side n e) := by
  obtain ⟨hpkt, hfed, hsent⟩ := h
  intro p hp
  rw [hp] at hpkt
  obtain rfl : p.pkt = pkt := Option.some.inj hpkt
  unfold FedOk
  rw [hfed]
  refine ⟨⟨fun d k hd => (by cases hd), fun _ _ => ?_⟩,
    ⟨fun d k hd => (by cases hd), fun _ hseq => by cases hseq⟩, trivial⟩
  exact Nat.lt_of_lt_of_le hsent (Nat.le_add_left _ _)

instance (s : Core) (k : Nat) : Decidable (RoomFor s k) := by
  unfold RoomFor
  infer_instance

theorem hello_guarded (T : Terms) :
    Guarded (LinkOk T true 1) (Net.step netchan) (Joint.start fun _ => netchanCfgDefault)
      helloMoves := by
  refine ⟨trivial, ?_, ?_, trivial, trivial, ?_, ?_, ?_, ?_, trivial, trivial, ?_, ?_, ?_, ?_, ?_,
    fun _ _ => ?_, fun _ _ => ?_, ?_, ?_, trivial, ?_, ?_, trivial⟩
  · exact CallOk.sendNext quietEnv [.connectInit 7 1] (by simp [Frame.Sendable]) (by decide +kernel)
  · exact LinkOk.quiet [1, 0, 0, 0, 7, 1, 0, 0, 0, 7, 1] (by decide +kernel)
  · exact CallOk.sendNext quietEnv [.connectAccept 7 1 30000, .channelOpen 1 0 0 []]
      (by simp [Frame.Sendable]) (by decide +kernel)
  · exact LinkOk.quiet
      [2, 0, 0, 0, 7, 0, 0, 2, 0, 0, 0, 7, 1, 0, 0, 0x75, 0x30, 7, 1, 0, 0, 0] (by decide +kernel)
  · exact CallOk.sendNext quietEnv [.windowUpdate 1 65536] (by simp [Frame.Sendable])
      (by decide +kernel)
  · exact LinkOk.quiet [2, 0, 0, 0, 7, 0, 0, 11, 1, 0, 1, 0, 0] (by decide +kernel)
  · exact CallOk.sendNext quietEnv [] (by simp) (by decide +kernel)
  · exact CallOk.sendNext quietEnv [] (by simp) (by decide +kernel)
  · exact LinkOk.message [2, 0, 0, 0, 7, 0, 2, 9, 1, 0, 1, 0, 1, 0, 1, 6] ⟨1, 1, 0, 1, [6]⟩ 9 0
      (by decide +kernel)
  · exact LinkOk.message [2, 0, 0, 0, 7, 0, 1, 9, 1, 0, 0, 0, 1, 0, 1, 5] ⟨1, 0, 0, 1, [5]⟩ 9 0
      (by decide +kernel)
  · exact LinkOk.message [2, 0, 0, 0, 7, 0, 1, 9, 1, 0, 0, 0, 1, 0, 1, 5] ⟨1, 0, 0, 1, [5]⟩ 9 0
      (by decide +kernel)
  · decide +kernel
  · decide +kernel
  · exact CallOk.sendNext quietEnv [] (by simp) (by decide +kernel)
  · exact LinkOk.acknowledgement [2, 0, 0, 0, 7, 0, 1, 10, 1, 0, 1, 11, 1, 0, 1, 0, 0] 1 65536 10 6
      (by decide +kernel)
  · exact CallOk.sendNext quietEnv [] (by simp) (by decide +kernel)
  · exact LinkOk.message [2, 0, 0, 0, 7, 0, 3, 9, 1, 0, 2, 0, 1, 0, 1, 7] ⟨1, 2, 0, 1, [7]⟩ 9 0
      (by decide +kernel)

theorem helloNet_linkRun (T : Terms) :
    LinkRun T true 1 (fun _ => netchanCfgDefault) helloNet := by
  have hstart : LinkRun T true 1 (fun _ => netchanCfgDefault)
      (Joint.start fun _ => netchanCfgDefault) := .start rfl
  exact hstart.run helloMoves (hello_guarded T)

theorem Kinds.of_records {A : Core} (k k' : Nat) (hA : A.channels id = some k)
    (hsend : (A.chanPool k).role = .sender ∧ (A.chanPool k).type = netchanReliable)
    (hB : B.channels id = some k')
    (hrecv : (B.chanPool k').role = .receiver ∧ (B.chanPool k').type = netchanReliable) :
    Kinds id A B := by
  refine ⟨fun j hj => ?_, fun j hj => ?_⟩
  · obtain rfl : k = j := Option.some.inj (hA.symm.trans hj)
    exact hsend
  · obtain rfl : k' = j := Option.some.inj (hB.symm.trans hj)
    exact hrecv

theorem helloNet_ends :
    (((helloNet.conn true).channels 1 = some 0 ∧
        ((helloNet.conn true).chanPool 0).role = .sender ∧
        ((helloNet.conn true).chanPool 0).type = netchanReliable) ∧
      (helloNet.conn false).channels 1 = some 0 ∧
        ((helloNet.conn false).chanPool 0).role = .receiver ∧
        ((helloNet.conn false).chanPool 0).type = netchanReliable) ∧
      (helloNet.conn false).readOn 1 = [[5], [6]] ∧ (helloNet.conn true).sentOn 1 = [[5], [6], [7]] ∧
      .ack 0 1 ∈ (helloNet.conn false).log ∧ ∀ p < ncOutgoingSlots,
        (((helloNet.conn true).chanPool 0).outgoing p).active = true →
          (((helloNet.conn true).chanPool 0).outgoing p).seq = 2 := by
  decide +kernel

theorem helloNet_kinds : Kinds 1 (helloNet.conn true).toCore (helloNet.conn !true).toCore := by
  obtain ⟨⟨⟨hA, hsend⟩, hB, hrecv⟩, -⟩ := helloNet_ends
  rw [Bool.not_true]
  exact Kinds.of_records 0 0 hA hsend hB hrecv

/-! ## Reliable delivery -/

/-- Messages are put together from their own fragments, read whole, and find room. -/
def Terms.delivery : Terms := ⟨False, True, True, True, False, False.elim⟩

/-- The messages that are read are a beginning of the messages that were written, and
`recv_seq` counts the messages that were put in the receive queue. -/
theorem reads_prefix_of_writes {a : Bool} {id : UInt8} {cfg : Bool → Cfg}
    (hfp : 64 ≤ maxFragPayload (cfg a)) (hmtu : (cfg !a).mtu = (cfg a).mtu) {net : Joint}
    (h : LinkRun Terms.delivery a id cfg net)
    (hkind : Kinds id (net.conn a).toCore (net.conn !a).toCore) :
    (net.conn !a).readOn id <+: (net.conn a).sentOn id ∧
      ∀ k, (net.conn !a).channels id = some k →
        advances k (net.conn !a).log = (taken k (net.conn !a).log).length := by
  have hlink := h.link hfp hmtu hkind
  refine ⟨?_, fun k hid => ?_⟩
  · cases hid : (net.conn !a).channels id with
    | none => simp [Core.readOn, hid]
    | some k =>
      simp only [Core.readOn, hid]
      exact (hlink.recv k hid).reads_isPrefix trivial trivial trivial
  · have hrecv := hlink.recv k hid
    have htaken : taken k (net.conn !a).log = handed k (net.conn !a).log := hrecv.taken trivial
    rw [htaken]
    exact hrecv.delivered.length.symm

theorem reads_prefix_of_writes_hello :
    (helloNet.conn false).readOn 1 <+: (helloNet.conn true).sentOn 1 ∧
      (helloNet.conn false).readOn 1 = [[5], [6]] := by
  have hpre := (reads_prefix_of_writes (by decide) rfl (helloNet_linkRun _) helloNet_kinds).1
  rw [Bool.not_true] at hpre
  exact ⟨hpre, helloNet_ends.2.1⟩

/-- The client's own messages take its whole buffer pool when the first message of the server
arrives.  Later two of its buffers are acknowledged, and the second message is delivered. -/
def lossMoves : List (Move Act (Env × Option Addr)) :=
  openMoves ++
    ([.call false (.chanOpen netchanReliable netchanDirSend none),
      .call false (.chanOpen netchanReliable netchanDirSend none)] :
        List (Move Act (Env × Option Addr))) ++
    (List.replicate 63 (.call false (.chanWrite 1 [1])) : List (Move Act (Env × Option Addr))) ++
    ([.call false (.chanWrite 2 [1]), .call true (.chanWrite 0 [5]),
      .call true (.sendNext quietEnv 1200), .deliver true 1 (quietEnv, none),
      .call false (.sendNext quietEnv 1200), .deliver false 2 (quietEnv, none),
      .call true (.sendNext quietEnv 1200), .deliver true 2 (quietEnv, none),
      .call false (.sendNext quietEnv 1200), .deliver false 3 (quietEnv, none),
      .call true (.sendNext quietEnv 1200), .deliver true 3 (quietEnv, none),
      .call true (.chanWrite 0 [6]), .call true (.sendNext quietEnv 1200),
      .deliver true 4 (quietEnv, none), .call false (.chanRead 0 2048)] :
        List (Move Act (Env × Option Addr)))

def lossNet : Joint := Net.run netchan (Joint.start fun _ => netchanCfgDefault) lossMoves

theorem full_pool_loses_message :
    lossNet.Reachable ∧ Kinds 1 (lossNet.conn true).toCore (lossNet.conn false).toCore ∧
      (lossNet.conn true).sentOn 1 = [[5], [6]] ∧ (lossNet.conn false).readOn 1 = [[6]] ∧
      ¬(lossNet.conn false).readOn 1 <+: (lossNet.conn true).sentOn 1 ∧
      advances 0 (lossNet.conn false).log = 2 ∧ taken 0 (lossNet.conn false).log = [[6]] := by
  have hrun : (((lossNet.conn true).channels 1 = some 0 ∧
        ((lossNet.conn true).chanPool 0).role = .sender ∧
        ((lossNet.conn true).chanPool 0).type = netchanReliable) ∧
      (lossNet.conn false).channels 1 = some 0 ∧
        ((lossNet.conn false).chanPool 0).role = .receiver ∧
        ((lossNet.conn false).chanPool 0).type = netchanReliable) ∧
      (lossNet.conn true).sentOn 1 = [[5], [6]] ∧ (lossNet.conn false).readOn 1 = [[6]] ∧
      advances 0 (lossNet.conn false).log = 2 ∧ taken 0 (lossNet.conn false).log = [[6]] := by
    decide +kernel
  obtain ⟨⟨⟨hA, hsend⟩, hB, hrecv⟩, hsent, hread, hadv, htaken⟩ := hrun
  refine ⟨Joint.reachable_run _ lossMoves rfl, Kinds.of_records 0 0 hA hsend hB hrecv,
    hsent, hread, ?_, hadv, htaken⟩
  rw [hsent, hread]
  decide

/-! ## Acknowledgements -/

/-- For every message handed to the receive queue, whether it was put in. -/
def kept (k : Nat) (log : List Mark) : List Bool :=
  log.filterMap fun
    | .enqueue j _ ok => if j = k then some ok else none
    | _ => none

/-- The message that was due as number `j` was put in the receive queue. -/
def Consumed (k : Nat) (log : List Mark) (j : Nat) : Prop := (kept k log)[j]? = some true

instance (k : Nat) (log : List Mark) (j : Nat) : Decidable (Consumed k log j) :=
  inferInstanceAs (Decidable (_ = _))

/-- The message that the number `seq` means in serial order is consumed, and so is every
message before it. -/
def AckSound (k : Nat) (log : List Mark) (seq : UInt16) : Prop :=
  ∃ i < advances k log, UInt16.ofNat i = seq ∧ advances k log ≤ i + 2 ^ 15 ∧
    ∀ j ≤ i, Consumed k log j

/-- `netchan_send_next` puts an ACK frame for record `k` in its packet. -/
def Conn.SendsAck (c : Conn) (env : Env) (buflen k : Nat) (seq : UInt16) : Prop :=
  ∃ ms, (netchanSendNext env c buflen).1.log = c.log ++ ms ∧ .ack k seq ∈ ms

theorem kept_counts (k : Nat) (log : List Mark) :
    (handed k log).length = (kept k log).length ∧
      (taken k log).length = (kept k log).count true := by
  induction log with
  | nil => exact ⟨rfl, rfl⟩
  | cons m log ih =>
    obtain ⟨hhand, htaken⟩ := ih
    cases m with
    | enqueue j data ok =>
      by_cases hj : j = k
      · cases ok with
        | true =>
          exact ⟨by simpa [handed, kept, hj] using hhand, by simpa [taken, kept, hj] using htaken⟩
        | false =>
          exact ⟨by simpa [handed, kept, hj] using hhand, by simpa [taken, kept, hj] using htaken⟩
      · exact ⟨by simpa [handed, kept, hj] using hhand, by simpa [taken, kept, hj] using htaken⟩
    | _ => exact ⟨hhand, htaken⟩

theorem allTaken_iff (s : Core) (k : Nat) :
    AllTaken s k ↔ ∀ j < (handed k s.log).length, Consumed k s.log j := by
  obtain ⟨hhand, htaken⟩ := kept_counts k s.log
  have hall : AllTaken s k ↔ ∀ ok ∈ kept k s.log, true = ok := by
    rw [← List.count_eq_length, ← htaken, ← hhand]
    refine ⟨fun h => congrArg List.length h, fun h => ?_⟩
    exact (taken_sublist_handed k s.log).eq_of_length h
  rw [hall, hhand]
  refine ⟨fun h j hj => ?_, fun h ok hok => ?_⟩
  · rw [Consumed, List.getElem?_eq_getElem hj, ← h _ (List.getElem_mem hj)]
  · obtain ⟨j, hj, rfl⟩ := List.mem_iff_getElem.1 hok
    have hget := h j hj
    rw [Consumed, List.getElem?_eq_getElem hj] at hget
    exact (Option.some.inj hget).symm

theorem ackSound_iff {s : Core} (hlen : (handed k s.log).length = advances k s.log) :
    AckSound k s.log (if 0 < UInt16.ofNat (advances k s.log) then
      UInt16.ofNat (advances k s.log) - 1 else 0) ↔
        UInt16.ofNat (advances k s.log) ≠ 0 ∧ AllTaken s k := by
  rw [allTaken_iff, hlen, ← UInt16.pos_iff_ne_zero]
  generalize hn : advances k s.log = n
  have hzero : UInt16.ofNat n = 0 ↔ n % 2 ^ 16 = 0 := by
    rw [← UInt16.toNat_inj, UInt16.toNat_ofNat']
    rfl
  constructor
  · rintro ⟨i, hi, hseq, hnear, hall⟩
    rw [hn] at hi hnear
    have hpos : 0 < UInt16.ofNat n := by
      by_contra hpos
      rw [if_neg hpos] at hseq
      -- the number 0 then means message `n` itself
      have hn0 : n % 2 ^ 16 = 0 := hzero.1 (by simpa [UInt16.pos_iff_ne_zero] using hpos)
      have hi0 : i % 2 ^ 16 = 0 := by
        rw [← UInt16.toNat_inj, UInt16.toNat_ofNat'] at hseq
        exact hseq
      omega
    obtain ⟨m, rfl⟩ : ∃ m, n = m + 1 := ⟨n - 1, by omega⟩
    rw [if_pos hpos, ← ofNat_add_one, UInt16.add_sub_cancel] at hseq
    obtain rfl := eq_of_ofNat_eq hseq (by omega) (by omega)
    exact ⟨hpos, fun j hj => hall j (Nat.le_of_lt_succ hj)⟩
  · rintro ⟨hpos, hall⟩
    have hn0 : n % 2 ^ 16 ≠ 0 := fun e => (UInt16.pos_iff_ne_zero.1 hpos) (hzero.2 e)
    obtain ⟨i, rfl⟩ : ∃ i, n = i + 1 := ⟨n - 1, by omega⟩
    rw [if_pos hpos]
    refine ⟨i, by omega, ?_, by omega, fun j hj => hall j (Nat.lt_succ_of_le hj)⟩
    rw [← ofNat_add_one, UInt16.add_sub_cancel]

theorem Conn.SendsAck.sound_iff {env : Env} {buflen : Nat} {seq : UInt16}
    (hs : c.SendsAck env buflen k seq) (h : c.Reachable)
    (htype : (c.chanPool k).type = netchanReliable) :
    (c.chanPool k).needAck = true ∧
      (AckSound k c.log seq ↔ (c.chanPool k).recvSeq ≠ 0 ∧ AllTaken c.toCore k) := by
  obtain ⟨ms, hms, hack⟩ := hs
  obtain ⟨ms', hlog, hsent⟩ := netchanSendNext_log env c buflen
  obtain ⟨ms'', hlog'', hused⟩ := (netchanSendNext_steady env h.good buflen).log
  obtain rfl : ms = ms' := List.append_cancel_left (hms.symm.trans hlog)
  obtain rfl : ms = ms'' := List.append_cancel_left (hms.symm.trans hlog'')
  have hk : c.chanUsed k = true := hused _ hack
  obtain ⟨j, hj, hneed⟩ := hsent _ hack
  simp only [Mark.ack.injEq] at hj
  obtain ⟨rfl, rfl⟩ := hj
  obtain ⟨-, hseq⟩ := (h.good.settled k hk).ack hneed
  refine ⟨hneed, ?_⟩
  rw [hseq, h.tally.seq k hk]
  exact ackSound_iff (h.tally.handed k hk htype)

/-- ACK frames are only sent while `recv_seq` is not 0, and messages that are due find room. -/
def Terms.acknowledged : Terms := ⟨True, False, False, True, False, False.elim⟩

/-- An ACK frame that is sent names a consumed message exactly if `recv_seq` is not 0 and no
message was dropped.  In a run in which this holds of every ACK frame sent, every message is
consumed by the receiving side or still held by the sending side. -/
theorem acks_release_consumed (a : Bool) (id : UInt8) (cfg : Bool → Cfg) :
    (∀ c : Conn, c.Reachable → ∀ env buflen k seq, (c.chanPool k).type = netchanReliable →
      c.SendsAck env buflen k seq →
        (AckSound k c.log seq ↔ (c.chanPool k).recvSeq ≠ 0 ∧ AllTaken c.toCore k)) ∧
    (64 ≤ maxFragPayload (cfg a) → (cfg !a).mtu = (cfg a).mtu →
      ∀ net : Joint, LinkRun Terms.acknowledged a id cfg net →
      Kinds id (net.conn a).toCore (net.conn !a).toCore →
      (∀ env buflen k seq, (net.conn !a).CallOk Terms.acknowledged id (.sendNext env buflen) →
        (net.conn !a).channels id = some k → (net.conn !a).SendsAck env buflen k seq →
          AckSound k (net.conn !a).log seq) ∧
      ∀ i < ((net.conn a).sentOn id).length,
        (∃ k, (net.conn !a).channels id = some k ∧ Consumed k (net.conn !a).log i) ∨
        ∃ k, ∃ p < ncOutgoingSlots, (net.conn a).channels id = some k ∧
          (((net.conn a).chanPool k).outgoing p).active = true ∧
          (((net.conn a).chanPool k).outgoing p).seq = UInt16.ofNat i) := by
  refine ⟨fun c h env buflen k seq htype hs => (hs.sound_iff h htype).2, ?_⟩
  intro hfp hmtu net h hkind
  have hlink := h.link hfp hmtu hkind
  refine ⟨fun env buflen k seq hok hid hs => ?_, fun i hi => ?_⟩
  · obtain ⟨hneed, hiff⟩ := hs.sound_iff (h.reachable.side !a) (hkind.receiver k hid).2
    exact hiff.2 ⟨(hok.2 k hid hneed).1 trivial, (hlink.recv k hid).taken trivial⟩
  · have hcounted : i < (net.conn !a).gotOn id →
        ∃ k, (net.conn !a).channels id = some k ∧ Consumed k (net.conn !a).log i := by
      intro hlt
      cases hid : (net.conn !a).channels id with
      | none => simp [Core.gotOn, hid] at hlt
      | some k =>
        rw [gotOn_eq hid] at hlt
        have hrecv := hlink.recv k hid
        exact ⟨k, rfl, (allTaken_iff _ k).1 (hrecv.taken trivial) i
          (by rw [hrecv.delivered.length]; exact hlt)⟩
    cases hid : (net.conn a).channels id with
    | none => simp [Core.sentOn, hid] at hi
    | some k =>
      rw [sentOn_eq hid] at hi
      obtain ⟨base, bound, hout, -, hacked⟩ := hlink.send k hid
      have hbound := hacked.1 trivial
      have hbase := hout.base_le
      have hcount := hout.count
      rcases Nat.lt_or_ge i base with hlt | hge
      · exact Or.inl (hcounted (by omega))
      · obtain ⟨t, rfl⟩ := Nat.exists_eq_add_of_le hge
        cases hact : (outSlot ((net.conn a).chanPool k) t).active with
        | false =>
          have hfreed := hout.freed t (by omega) hact
          exact Or.inl (hcounted (by omega))
        | true =>
          obtain ⟨d, hd⟩ := hout.held t (by omega) hact
          exact Or.inr ⟨k, _, Nat.mod_lt _ (by decide), rfl, hact, hd.seq⟩

/-- The ACK frame of the client releases two messages of the server, which are consumed. -/
theorem acks_release_consumed_hello :
    .ack 0 1 ∈ (helloNet.conn false).log ∧
      (∀ p < ncOutgoingSlots, (((helloNet.conn true).chanPool 0).outgoing p).active = true →
        (((helloNet.conn true).chanPool 0).outgoing p).seq = 2) ∧
      ∀ i < 2, Consumed 0 (helloNet.conn false).log i := by
  obtain ⟨⟨⟨hA, -⟩, hB, -⟩, -, hsent, hack, hheld⟩ := helloNet_ends
  refine ⟨hack, hheld, fun i hi => ?_⟩
  have hrun := (acks_release_consumed true 1 _).2 (by decide) rfl helloNet (helloNet_linkRun _)
    helloNet_kinds
  rw [Bool.not_true] at hrun
  have hlt : i < ((helloNet.conn true).sentOn 1).length := by
    rw [hsent]
    exact Nat.lt_trans hi (by decide)
  rcases hrun.2 i hlt with ⟨k, hk, hcons⟩ | ⟨k, p, hp, hk, hact, hseq⟩
  · obtain rfl : 0 = k := Option.some.inj (hB.symm.trans hk)
    exact hcons
  · obtain rfl : 0 = k := Option.some.inj (hA.symm.trans hk)
    have heq : i = 2 := eq_of_ofNat_eq (hseq.symm.trans (hheld p hp hact)) (by omega) (by omega)
    omega

/-- The packet with the first message is lost, the second message arrives. -/
def ackMoves : List (Move Act (Env × Option Addr)) :=
  openMoves ++
    ([.call true (.chanWrite 0 [5]), .call true (.chanWrite 0 [6]),
      .call true (.sendNext quietEnv 1200), .call true (.sendNext quietEnv 1200),
      .deliver true 2 (quietEnv, none), .call false (.sendNext quietEnv 1200),
      .deliver false 2 (quietEnv, none)] : List (Move Act (Env × Option Addr)))

def ackNet : Joint := Net.run netchan (Joint.start fun _ => netchanCfgDefault) ackMoves

theorem early_ack_releases_lost_message :
    ackNet.Reachable ∧ Kinds 1 (ackNet.conn true).toCore (ackNet.conn false).toCore ∧
      .ack 0 0 ∈ (ackNet.conn false).log ∧ ¬AckSound 0 (ackNet.conn false).log 0 ∧
      ¬Consumed 0 (ackNet.conn false).log 0 ∧ (ackNet.conn true).sentOn 1 = [[5], [6]] ∧
      (((ackNet.conn true).chanPool 0).outgoing 0).seq = 0 ∧
      (((ackNet.conn true).chanPool 0).outgoing 0).active = false := by
  have hrun : (((ackNet.conn true).channels 1 = some 0 ∧
        ((ackNet.conn true).chanPool 0).role = .sender ∧
        ((ackNet.conn true).chanPool 0).type = netchanReliable) ∧
      (ackNet.conn false).channels 1 = some 0 ∧
        ((ackNet.conn false).chanPool 0).role = .receiver ∧
        ((ackNet.conn false).chanPool 0).type = netchanReliable) ∧
      (.ack 0 0 ∈ (ackNet.conn false).log ∧ advances 0 (ackNet.conn false).log = 0) ∧
      ¬Consumed 0 (ackNet.conn false).log 0 ∧ (ackNet.conn true).sentOn 1 = [[5], [6]] ∧
      (((ackNet.conn true).chanPool 0).outgoing 0).seq = 0 ∧
      (((ackNet.conn true).chanPool 0).outgoing 0).active = false := by
    decide +kernel
  obtain ⟨⟨⟨hA, hsend⟩, hB, hrecv⟩, ⟨hack, hadv⟩, hrest⟩ := hrun
  refine ⟨Joint.reachable_run _ ackMoves rfl, Kinds.of_records 0 0 hA hsend hB hrecv,
    hack, ?_, hrest⟩
  rintro ⟨i, hi, -⟩
  rw [hadv] at hi
  exact absurd hi (Nat.not_lt_zero i)

end MechanicalResearcher.NetchanV2
