import MechanicalResearcher.Lib.Ring
import MechanicalResearcher.NetchanIpx.Netchan

/-!
# One end of a connection

What a netchan keeps through every call and every packet, also a packet that no peer
sent: the send window holds the messages that were written and not acknowledged, the
sequence numbers are the lengths of the history, and each ring stays a ring.
-/

namespace MechanicalResearcher.NetchanIpx

open Lib Lib.Serial Lib.BigEndian

/-! ## Histories -/

/-- The reliable messages, in the order of their sequence numbers. -/
def wrote (log : List Mark) : List (Nat × Bytes) :=
  log.filterMap fun m => match m with
    | .wrote k data => some (k, data)
    | _ => none

/-- The datagrams that `nc_write` queued for the unreliable channel `k`. -/
def loose (k : Nat) (log : List Mark) : List Bytes :=
  log.filterMap fun m => match m with
    | .loose k' data => if k' = k then some data else none
    | _ => none

/-- How many sequence numbers were acknowledged. -/
def acked (log : List Mark) : Nat := log.count .acked

/-- How many sequence numbers of the peer were taken. -/
def took (log : List Mark) : Nat := log.count .took

/-- The messages that `nc_read` returned for channel `k`. -/
def reads (k : Nat) (log : List Mark) : List Bytes :=
  log.filterMap fun m => match m with
    | .read k' data => if k' = k then some data else none
    | _ => none

/-- The messages of one channel. -/
def onChan (k : Nat) (ms : List (Nat × Bytes)) : List Bytes :=
  ms.filterMap fun m => if m.1 = k then some m.2 else none

/-- The messages that `nc_write` accepted on channel `k`. -/
def writes (k : Nat) (log : List Mark) : List Bytes := onChan k (wrote log)

/-- The messages in the ring of a channel. -/
def Chan.queue (ch : Chan) : List Bytes := Ring.queued ncRecvq ch.rxq ch.rxHead ch.rxCount

/-- The unreliable datagrams that wait, each with the id of its channel. -/
def Netchan.unsentUnrel (c : Netchan) : List (UInt8 × Bytes) :=
  Ring.queued ncUnrelTxq (fun i => (c.txuChan i, c.txu i)) c.txuHead c.txuCount

/-! ## The invariant -/

/-- The open channels and their types. -/
abbrev Layout := Nat → Option ChanType

/-- The channels of a netchan are those of the layout. -/
structure Netchan.Laid (T : Layout) (c : Netchan) : Prop where
  opened : ∀ k t, T k = some t →
    k < ncMaxChan ∧ (c.chan k).used = true ∧ (c.chan k).type = t ∧ (c.chan k).id = UInt8.ofNat k
  others : ∀ k, T k = none → (c.chan k).used = false

/-- The send window. -/
structure Netchan.Sends (T : Layout) (c : Netchan) : Prop where
  base : c.txBase = UInt16.ofNat (acked c.log)
  next : c.txNext = UInt16.ofNat (wrote c.log).length
  unsent : ∃ u, c.txUnsent = UInt16.ofNat u ∧ acked c.log ≤ u ∧ u ≤ (wrote c.log).length
  acked_le : acked c.log ≤ (wrote c.log).length
  room : (wrote c.log).length ≤ acked c.log + ncWindow
  slot : ∀ i k data, acked c.log ≤ i → (wrote c.log)[i]? = some (k, data) →
    c.txw (i % ncWindow) = ⟨UInt16.ofNat i, UInt8.ofNat k, data⟩
  typed : ∀ m ∈ wrote c.log, T m.1 = some .reliable ∧ m.2.length ≤ ncMaxmsg

/-- The unreliable ring. -/
structure Netchan.SendsUnrel (T : Layout) (c : Netchan) : Prop where
  head_lt : c.txuHead < ncUnrelTxq
  count_le : c.txuCount ≤ ncUnrelTxq
  typed : ∀ m ∈ c.unsentUnrel, m.2.length ≤ ncMaxmsg ∧
    ∃ k, T k = some .unreliable ∧ m.1 = UInt8.ofNat k ∧ m.2 ∈ loose k c.log

structure Netchan.Takes (c : Netchan) : Prop where
  next : c.rxNext = UInt16.ofNat (took c.log)
  head_lt : ∀ k, (c.chan k).rxHead < ncRecvq

structure Netchan.Good (T : Layout) (c : Netchan) : Prop where
  laid : c.Laid T
  sends : c.Sends T
  unrel : c.SendsUnrel T
  takes : c.Takes

/-- What the invariant looks at is as it was. -/
structure Idle (c c' : Netchan) : Prop where
  txw : c'.txw = c.txw
  txBase : c'.txBase = c.txBase
  txNext : c'.txNext = c.txNext
  txUnsent : c'.txUnsent = c.txUnsent
  rxNext : c'.rxNext = c.rxNext
  txu : c'.txu = c.txu
  txuChan : c'.txuChan = c.txuChan
  txuHead : c'.txuHead = c.txuHead
  txuCount : c'.txuCount = c.txuCount
  chan : c'.chan = c.chan
  log : c'.log = c.log

section Idle

variable {T : Layout} {c c' c'' : Netchan}

theorem Idle.set {isServer : Bool} {state : ConnState} {localId remoteId : UInt32} {peer : Addr}
    {now lastRecv lastSend : UInt32} {sendSyn sendSynack sendAck : Bool} {connectTimer : UInt32}
    {connectAttempts : UInt16} {txTimer : UInt32} {txAttempts : UInt16} {ackPending : Bool}
    {evq : Nat → Event} {evHead evCount : Nat} :
    Idle c { c with
      isServer := isServer, state := state, localId := localId, remoteId := remoteId, peer := peer
      now := now, lastRecv := lastRecv, lastSend := lastSend
      sendSyn := sendSyn, sendSynack := sendSynack, sendAck := sendAck
      connectTimer := connectTimer, connectAttempts := connectAttempts
      txTimer := txTimer, txAttempts := txAttempts, ackPending := ackPending
      evq := evq, evHead := evHead, evCount := evCount } :=
  ⟨rfl, rfl, rfl, rfl, rfl, rfl, rfl, rfl, rfl, rfl, rfl⟩

theorem Idle.refl (c : Netchan) : Idle c c := Idle.set

theorem Idle.trans (h : Idle c c') (h' : Idle c' c'') : Idle c c'' where
  txw := h'.txw.trans h.txw
  txBase := h'.txBase.trans h.txBase
  txNext := h'.txNext.trans h.txNext
  txUnsent := h'.txUnsent.trans h.txUnsent
  rxNext := h'.rxNext.trans h.rxNext
  txu := h'.txu.trans h.txu
  txuChan := h'.txuChan.trans h.txuChan
  txuHead := h'.txuHead.trans h.txuHead
  txuCount := h'.txuCount.trans h.txuCount
  chan := h'.chan.trans h.chan
  log := h'.log.trans h.log

theorem Netchan.Laid.congr (h : c.Laid T) (hchan : c'.chan = c.chan) : c'.Laid T :=
  ⟨by rw [hchan]; exact h.opened, by rw [hchan]; exact h.others⟩

theorem log_extends {log log' : List Mark} (h : log' = log) : log <+: log' := h ▸ List.prefix_rfl

theorem loose_subset {log log' : List Mark} (h : log <+: log') (k : Nat) :
    loose k log ⊆ loose k log' := (h.filterMap _).subset

theorem Netchan.SendsUnrel.congr (h : c.SendsUnrel T) (htxu : c'.txu = c.txu)
    (hchan : c'.txuChan = c.txuChan) (hhead : c'.txuHead = c.txuHead)
    (hcount : c'.txuCount = c.txuCount) (hlog : c.log <+: c'.log) : c'.SendsUnrel T := by
  refine ⟨hhead ▸ h.head_lt, hcount ▸ h.count_le, fun m hm => ?_⟩
  unfold Netchan.unsentUnrel at hm
  rw [htxu, hchan, hhead, hcount] at hm
  obtain ⟨hlen, k, hk, hid, hmem⟩ := h.typed m hm
  exact ⟨hlen, k, hk, hid, loose_subset hlog k hmem⟩

theorem Netchan.Sends.congr (h : c.Sends T) (htxw : c'.txw = c.txw) (hbase : c'.txBase = c.txBase)
    (hnext : c'.txNext = c.txNext) (hunsent : c'.txUnsent = c.txUnsent)
    (hwrote : wrote c'.log = wrote c.log) (hacked : acked c'.log = acked c.log) :
    c'.Sends T := by
  refine ⟨?_, ?_, ?_, ?_, ?_, ?_, ?_⟩
  · rw [hbase, hacked]
    exact h.base
  · rw [hnext, hwrote]
    exact h.next
  · rw [hunsent, hacked, hwrote]
    exact h.unsent
  · rw [hacked, hwrote]
    exact h.acked_le
  · rw [hacked, hwrote]
    exact h.room
  · rw [hacked, hwrote, htxw]
    exact h.slot
  · rw [hwrote]
    exact h.typed

theorem Netchan.Takes.congr (h : c.Takes) (hnext : c'.rxNext = c.rxNext)
    (hchan : c'.chan = c.chan) (htook : took c'.log = took c.log) : c'.Takes := by
  refine ⟨?_, ?_⟩
  · rw [hnext, htook]
    exact h.next
  · rw [hchan]
    exact h.head_lt

theorem Netchan.Good.idle (h : c.Good T) (hi : Idle c c') : c'.Good T where
  laid := h.laid.congr hi.chan
  sends := h.sends.congr hi.txw hi.txBase hi.txNext hi.txUnsent (by rw [hi.log]) (by rw [hi.log])
  unrel := h.unrel.congr hi.txu hi.txuChan hi.txuHead hi.txuCount (log_extends hi.log)
  takes := h.takes.congr hi.rxNext hi.chan (by rw [hi.log])

theorem evPush_idle (c : Netchan) (type : EvType) (ch : Option Nat) :
    Idle c (evPush c type ch) := by
  unfold evPush
  split_ifs <;> exact Idle.set

theorem up_idle (c : Netchan) : Idle c (up c) := by
  have hset : Idle c { c with state := .connected } :=
    Idle.set
  exact hset.trans (evPush_idle _ _ _)

theorem down_idle (c : Netchan) : Idle c (down c) := by
  have hset : Idle c { c with state := .closed } :=
    Idle.set
  exact hset.trans (evPush_idle _ _ _)

theorem Idle.down (h : Idle c c') : Idle c (down c') := h.trans (down_idle c')

end Idle

/-! ## Histories grow -/

section Mark

@[simp] theorem wrote_snoc (log : List Mark) (k : Nat) (data : Bytes) :
    wrote (log ++ [.wrote k data]) = wrote log ++ [(k, data)] := by
  simp [wrote]

@[simp] theorem wrote_snoc_took (log : List Mark) : wrote (log ++ [.took]) = wrote log := by
  simp [wrote]

@[simp] theorem wrote_snoc_read (log : List Mark) (k : Nat) (data : Bytes) :
    wrote (log ++ [.read k data]) = wrote log := by
  simp [wrote]

@[simp] theorem acked_snoc_wrote (log : List Mark) (k : Nat) (data : Bytes) :
    acked (log ++ [.wrote k data]) = acked log := by
  simp [acked]

@[simp] theorem wrote_snoc_loose (log : List Mark) (k : Nat) (data : Bytes) :
    wrote (log ++ [.loose k data]) = wrote log := by
  simp [wrote]

@[simp] theorem loose_snoc (log : List Mark) (k : Nat) (data : Bytes) :
    loose k (log ++ [.loose k data]) = loose k log ++ [data] := by
  simp [loose]

@[simp] theorem acked_snoc_loose (log : List Mark) (k : Nat) (data : Bytes) :
    acked (log ++ [.loose k data]) = acked log := by
  simp [acked]

@[simp] theorem acked_snoc_took (log : List Mark) : acked (log ++ [.took]) = acked log := by
  simp [acked]

@[simp] theorem acked_snoc_read (log : List Mark) (k : Nat) (data : Bytes) :
    acked (log ++ [.read k data]) = acked log := by
  simp [acked]

@[simp] theorem took_snoc_took (log : List Mark) : took (log ++ [.took]) = took log + 1 := by
  simp [took]

@[simp] theorem took_snoc_wrote (log : List Mark) (k : Nat) (data : Bytes) :
    took (log ++ [.wrote k data]) = took log := by
  simp [took]

@[simp] theorem took_snoc_loose (log : List Mark) (k : Nat) (data : Bytes) :
    took (log ++ [.loose k data]) = took log := by
  simp [took]

@[simp] theorem took_snoc_read (log : List Mark) (k : Nat) (data : Bytes) :
    took (log ++ [.read k data]) = took log := by
  simp [took]

@[simp] theorem reads_snoc_read (k k' : Nat) (log : List Mark) (data : Bytes) :
    reads k (log ++ [.read k' data]) = reads k log ++ if k' = k then [data] else [] := by
  by_cases hk : k' = k <;> simp [reads, hk]

@[simp] theorem reads_snoc_wrote (k k' : Nat) (log : List Mark) (data : Bytes) :
    reads k (log ++ [.wrote k' data]) = reads k log := by
  simp [reads]

@[simp] theorem reads_snoc_loose (k k' : Nat) (log : List Mark) (data : Bytes) :
    reads k (log ++ [.loose k' data]) = reads k log := by
  simp [reads]

@[simp] theorem reads_snoc_took (k : Nat) (log : List Mark) :
    reads k (log ++ [.took]) = reads k log := by
  simp [reads]

theorem onChan_snoc (k k' : Nat) (ms : List (Nat × Bytes)) (data : Bytes) :
    onChan k (ms ++ [(k', data)]) = onChan k ms ++ if k' = k then [data] else [] := by
  by_cases hk : k' = k <;> simp [onChan, hk]

end Mark

/-! ## Calls -/

/-- What a call other than `nc_feed` does to the histories: it may write a message, and it
may move one from a ring to the reader. -/
structure Called (c c' : Netchan) : Prop where
  log : c.log <+: c'.log
  acked : acked c'.log = acked c.log
  took : took c'.log = took c.log
  inbox : ∀ k, reads k c'.log ++ (c'.chan k).queue = reads k c.log ++ (c.chan k).queue

theorem wrote_isPrefix {log log' : List Mark} (h : log <+: log') : wrote log <+: wrote log' :=
  h.filterMap _

theorem Called.of_same {c c' : Netchan} (hlog : c'.log = c.log) (hchan : c'.chan = c.chan) :
    Called c c' := by
  refine ⟨log_extends hlog, ?_, ?_, fun k => ?_⟩
  · rw [hlog]
  · rw [hlog]
  · rw [hlog, hchan]

section Calls

variable {T : Layout} {c : Netchan} {k : Nat} {data : Bytes}

theorem Netchan.Laid.of_used (h : c.Laid T) (hused : (c.chan k).used = true) :
    T k = some (c.chan k).type ∧ (c.chan k).id = UInt8.ofNat k := by
  cases ht : T k with
  | none =>
    rw [h.others k ht] at hused
    cases hused
  | some t =>
    obtain ⟨-, -, htype, hid⟩ := h.opened k t ht
    exact ⟨by rw [htype], hid⟩

theorem window_dist {a n : Nat} (hle : a ≤ n) (hroom : n ≤ a + 8) :
    (UInt16.ofNat n - UInt16.ofNat a).toNat = n - a := by
  rw [toNat_ofNat_sub]
  omega

theorem toNat_ofNat_mod_window (i : Nat) : (UInt16.ofNat i).toNat % 8 = i % 8 := by
  rw [UInt16.toNat_ofNat']
  omega

theorem Netchan.Sends.write (h : c.Sends T) (hk : T k = some .reliable)
    (hlen : data.length ≤ ncMaxmsg) (hroom : (wrote c.log).length < acked c.log + 8)
    {c' : Netchan}
    (htxw : c'.txw = Function.update c.txw (c.txNext.toNat % 8)
      ⟨c.txNext, UInt8.ofNat k, data⟩)
    (hbase : c'.txBase = c.txBase) (hnext : c'.txNext = c.txNext + 1)
    (hunsent : c'.txUnsent = c.txUnsent) (hlog : c'.log = c.log ++ [.wrote k data]) :
    c'.Sends T := by
  have hle := h.acked_le
  have hacked : acked c'.log = acked c.log := by rw [hlog, acked_snoc_wrote]
  have hwrote : wrote c'.log = wrote c.log ++ [(k, data)] := by rw [hlog, wrote_snoc]
  have hcount : (wrote c'.log).length = (wrote c.log).length + 1 := by
    rw [hwrote, List.length_append, List.length_singleton]
  refine ⟨?_, ?_, ?_, ?_, ?_, fun i k' data' hi hget => ?_, fun m hm => ?_⟩
  · rw [hbase, hacked]
    exact h.base
  · rw [hnext, hcount, h.next, ofNat_add_one]
  · obtain ⟨u, hu, hlo, hhi⟩ := h.unsent
    exact ⟨u, by rw [hunsent, hu], by omega, by omega⟩
  · omega
  · change _ ≤ _ + 8
    omega
  · -- the new message takes a slot of its own: the window has room
    rw [hacked] at hi
    rw [hwrote] at hget
    rw [htxw, h.next, toNat_ofNat_mod_window]
    by_cases hnew : i = (wrote c.log).length
    · rw [hnew, List.getElem?_concat_length] at hget
      cases hget
      rw [hnew]
      exact Function.update_self ..
    · have hlt : i < (wrote c.log).length := by
        have hi' := (List.getElem?_eq_some_iff.1 hget).1
        rw [List.length_append, List.length_singleton] at hi'
        omega
      rw [List.getElem?_append_left hlt] at hget
      have hne : i % 8 ≠ (wrote c.log).length % 8 := by omega
      exact (Function.update_of_ne hne ..).trans (h.slot i k' data' hi hget)
  · rw [hwrote, List.mem_append, List.mem_singleton] at hm
    rcases hm with hm | rfl
    · exact h.typed m hm
    · exact ⟨hk, hlen⟩

theorem writeRel_good (h : c.Good T) (hk : T k = some .reliable)
    (hid : (c.chan k).id = UInt8.ofNat k) (hlen : data.length ≤ ncMaxmsg) :
    (writeRel c k data).1.Good T ∧ Called c (writeRel c k data).1 := by
  have hdist : (c.txNext - c.txBase).toNat = (wrote c.log).length - acked c.log := by
    rw [h.sends.next, h.sends.base, window_dist h.sends.acked_le h.sends.room]
  unfold writeRel
  rw [hdist, hid]
  split_ifs with hfull
  · exact ⟨h, Called.of_same rfl rfl⟩
  · have hroom : (wrote c.log).length < acked c.log + 8 := by
      have hlt : ¬(wrote c.log).length - acked c.log ≥ 8 := hfull
      omega
    refine ⟨⟨h.laid.congr rfl, h.sends.write hk hlen hroom rfl rfl rfl rfl rfl,
      h.unrel.congr rfl rfl rfl rfl (List.prefix_append _ _), ?_, h.takes.head_lt⟩, ?_⟩
    · exact h.takes.next.trans (congrArg _ (took_snoc_wrote _ _ _).symm)
    · refine ⟨List.prefix_append _ _, acked_snoc_wrote _ _ _, took_snoc_wrote _ _ _, fun j => ?_⟩
      rw [Netchan.mark, reads_snoc_wrote]

theorem Netchan.SendsUnrel.pop (h : c.SendsUnrel T) {n : Nat} (hn : c.txuCount = n + 1)
    {c' : Netchan} (htxu : c'.txu = c.txu) (hchan : c'.txuChan = c.txuChan)
    (hhead : c'.txuHead = (c.txuHead + 1) % ncUnrelTxq) (hcount : c'.txuCount = n)
    (hlog : c'.log = c.log) : c'.SendsUnrel T := by
  refine ⟨?_, ?_, fun m hm => hlog ▸ h.typed m ?_⟩
  · rw [hhead]
    exact Nat.mod_lt _ (by decide)
  · have hle := h.count_le
    rw [hn] at hle
    rw [hcount]
    exact Nat.le_of_succ_le hle
  · unfold Netchan.unsentUnrel at hm ⊢
    rw [hn, Ring.queued_pop _ h.head_lt]
    rw [htxu, hchan, hhead, hcount] at hm
    exact List.mem_cons_of_mem _ hm

theorem txuRoom_good (h : c.Good T) :
    (txuRoom c).Good T ∧ Called c (txuRoom c) ∧ (txuRoom c).txuCount < 4 ∧
      (txuRoom c).chan = c.chan := by
  have hcount : c.txuCount ≤ 4 := h.unrel.count_le
  unfold txuRoom
  by_cases hfull : c.txuCount ≥ 4
  · rw [if_pos hfull]
    have hn : c.txuCount = 3 + 1 := by omega
    refine ⟨⟨h.laid.congr rfl, h.sends.congr rfl rfl rfl rfl rfl rfl,
      h.unrel.pop hn rfl rfl rfl (by rw [hn]) rfl, h.takes.congr rfl rfl rfl⟩,
      Called.of_same rfl rfl, ?_, rfl⟩
    change c.txuCount - 1 < 4
    omega
  · rw [if_neg hfull]
    exact ⟨h, Called.of_same rfl rfl, Nat.not_le.1 hfull, rfl⟩

theorem writeUnrel_good (h : c.Good T) (hk : T k = some .unreliable)
    (hid : (c.chan k).id = UInt8.ofNat k) (hlen : data.length ≤ ncMaxmsg) :
    (writeUnrel c k data).1.Good T ∧ Called c (writeUnrel c k data).1 := by
  obtain ⟨hgood, hcalled, hroom, hchan⟩ := txuRoom_good h
  unfold writeUnrel
  generalize txuRoom c = d at *
  have hpair : ∀ i, (fun j => (Function.update d.txuChan i (d.chan k).id j,
      Function.update d.txu i data j)) =
      Function.update (fun j => (d.txuChan j, d.txu j)) i ((d.chan k).id, data) := by
    intro i
    funext j
    by_cases hj : j = i
    · rw [hj]
      simp
    · simp [hj]
  refine ⟨⟨hgood.laid.congr rfl,
    hgood.sends.congr rfl rfl rfl rfl (wrote_snoc_loose _ _ _) (acked_snoc_loose _ _ _),
    ⟨hgood.unrel.head_lt, hroom, fun m hm => ?_⟩,
    hgood.takes.congr rfl rfl (took_snoc_loose _ _ _)⟩,
    ⟨hcalled.log.trans (List.prefix_append _ _), (acked_snoc_loose _ _ _).trans hcalled.acked,
      (took_snoc_loose _ _ _).trans hcalled.took, fun j => ?_⟩⟩
  · unfold Netchan.unsentUnrel Netchan.mark at hm
    dsimp only at hm
    rw [hpair, Ring.queued_push _ _ hroom] at hm
    rcases List.mem_append.1 hm with hm | hm
    · obtain ⟨hlen', k', hk', hid', hmem⟩ := hgood.unrel.typed m hm
      exact ⟨hlen', k', hk', hid', loose_subset (List.prefix_append _ _) k' hmem⟩
    · obtain rfl := List.mem_singleton.1 hm
      refine ⟨hlen, k, hk, by rw [hchan]; exact hid, ?_⟩
      change data ∈ loose k (d.log ++ [.loose k data])
      rw [loose_snoc]
      exact List.mem_append_right _ (List.mem_singleton.2 rfl)
  · change reads j (d.log ++ [.loose k data]) ++ _ = _
    rw [reads_snoc_loose]
    exact hcalled.inbox j

theorem ncWrite_good (h : c.Good T) (k : Nat) (data : Bytes) :
    (ncWrite c k data).1.Good T ∧ Called c (ncWrite c k data).1 := by
  unfold ncWrite
  split_ifs with hused hstate hlen
  · exact ⟨h, Called.of_same rfl rfl⟩
  · exact ⟨h, Called.of_same rfl rfl⟩
  · exact ⟨h, Called.of_same rfl rfl⟩
  · obtain ⟨hk, hid⟩ := h.laid.of_used (Bool.not_eq_false _ ▸ hused)
    split
    · rename_i htype
      exact writeRel_good h (by rw [hk, htype]) hid (Nat.not_lt.1 hlen)
    · rename_i htype
      exact writeUnrel_good h (by rw [hk, htype]) hid (Nat.not_lt.1 hlen)

theorem Netchan.Laid.update (h : c.Laid T) {c' : Netchan} {ch : Chan}
    (hc' : c'.chan = Function.update c.chan k ch) (hused : ch.used = (c.chan k).used)
    (htype : ch.type = (c.chan k).type) (hid : ch.id = (c.chan k).id) : c'.Laid T := by
  have hsame : ∀ j, (c'.chan j).used = (c.chan j).used ∧ (c'.chan j).type = (c.chan j).type ∧
      (c'.chan j).id = (c.chan j).id := by
    intro j
    rw [hc']
    by_cases hj : j = k
    · rw [hj, Function.update_self]
      exact ⟨hused, htype, hid⟩
    · rw [Function.update_of_ne hj]
      exact ⟨rfl, rfl, rfl⟩
  refine ⟨fun j t ht => ?_, fun j ht => ?_⟩
  · obtain ⟨h1, h2, h3⟩ := hsame j
    rw [h1, h2, h3]
    exact h.opened j t ht
  · rw [(hsame j).1]
    exact h.others j ht

theorem ncRead_good (h : c.Good T) (k buflen : Nat) :
    (ncRead c k buflen).1.Good T ∧ Called c (ncRead c k buflen).1 := by
  unfold ncRead
  dsimp only
  split_ifs with hempty hbig
  · exact ⟨h, Called.of_same rfl rfl⟩
  · exact ⟨h, Called.of_same rfl rfl⟩
  · obtain ⟨n, hn⟩ : ∃ n, (c.chan k).rxCount = n + 1 := ⟨(c.chan k).rxCount - 1, by omega⟩
    refine ⟨⟨h.laid.update rfl rfl rfl rfl,
      h.sends.congr rfl rfl rfl rfl (wrote_snoc_read _ _ _) (acked_snoc_read _ _ _),
      h.unrel.congr rfl rfl rfl rfl (List.prefix_append _ _), ?_, fun j => ?_⟩,
      List.prefix_append _ _, acked_snoc_read _ _ _, took_snoc_read _ _ _, fun j => ?_⟩
    · exact h.takes.next.trans (congrArg _ (took_snoc_read _ _ _).symm)
    · change (Function.update c.chan k _ j).rxHead < ncRecvq
      by_cases hj : j = k
      · rw [hj, Function.update_self]
        exact Nat.mod_lt _ (by decide)
      · rw [Function.update_of_ne hj]
        exact h.takes.head_lt j
    · rw [Netchan.mark, reads_snoc_read]
      change _ ++ (Function.update c.chan k _ j).queue = _
      by_cases hj : j = k
      · subst hj
        rw [Function.update_self, if_pos rfl]
        unfold Chan.queue
        rw [hn, Ring.queued_pop _ (h.takes.head_lt j), List.append_assoc]
        rfl
      · rw [Function.update_of_ne hj, if_neg (Ne.symm hj), List.append_nil]

end Calls

/-! ## Acknowledgements -/

section Ack

variable {T : Layout} {c : Netchan}

theorem seqAfter_iff {i j : Nat} (hlo : j ≤ i + 2 ^ 15) (hhi : i < j + 2 ^ 15) :
    seqAfter (UInt16.ofNat i) (UInt16.ofNat j) = true ↔ j < i := by
  unfold seqAfter
  rw [int16_ofNat_sub hlo hhi, decide_eq_true_iff]
  omega

theorem acked_replicate (log : List Mark) (j : Nat) :
    acked (log ++ List.replicate j .acked) = acked log + j := by
  simp [acked]

theorem wrote_replicate (log : List Mark) (j : Nat) :
    wrote (log ++ List.replicate j .acked) = wrote log := by
  simp [wrote]

theorem took_replicate (log : List Mark) (j : Nat) :
    took (log ++ List.replicate j .acked) = took log := by
  simp [took, List.count_replicate]

theorem reads_replicate (k : Nat) (log : List Mark) (j : Nat) :
    reads k (log ++ List.replicate j .acked) = reads k log := by
  simp [reads]

theorem ackLoop_eq (ack : UInt16) (m : Nat) {a n : Nat} (hbase : c.txBase = UInt16.ofNat a)
    (hnext : c.txNext = UInt16.ofNat n) (hle : a ≤ n) (hroom : n ≤ a + 8) :
    ∃ j, a + j ≤ n ∧
      ackLoop ack m c = { c with
        txBase := UInt16.ofNat (a + j)
        log := c.log ++ List.replicate j .acked } ∧
      ∀ i < j, seqAfter ack (UInt16.ofNat (a + i)) = true := by
  induction m generalizing c a with
  | zero =>
    refine ⟨0, hle, ?_, nofun⟩
    rw [Nat.add_zero, ← hbase, List.replicate_zero, List.append_nil]
    rfl
  | succ m ih =>
    unfold ackLoop
    split_ifs with hgo
    · have hlt : a < n := by
        refine lt_of_le_of_ne hle fun heq => hgo.1 ?_
        rw [hbase, hnext, heq]
      obtain ⟨j, hj, heq, hnewer⟩ := ih (c := { c with txBase := c.txBase + 1 }.mark .acked)
        (a := a + 1) (by rw [← ofNat_add_one, ← hbase]; rfl) hnext hlt (by omega)
      refine ⟨j + 1, by omega, ?_, fun i hi => ?_⟩
      · rw [heq, Nat.add_right_comm a 1 j, ← Nat.add_assoc]
        simp [Netchan.mark, List.replicate_succ]
      · cases i with
        | zero =>
          rw [Nat.add_zero, ← hbase]
          exact hgo.2
        | succ i =>
          rw [← Nat.add_assoc, Nat.add_right_comm]
          exact hnewer i (by omega)
    · refine ⟨0, hle, ?_, nofun⟩
      rw [Nat.add_zero, ← hbase, List.replicate_zero, List.append_nil]

theorem Netchan.Sends.advance (h : c.Sends T) {j : Nat}
    (hj : acked c.log + j ≤ (wrote c.log).length) {c' : Netchan} (htxw : c'.txw = c.txw)
    (hbase : c'.txBase = UInt16.ofNat (acked c.log + j)) (hnext : c'.txNext = c.txNext)
    (hunsent : c'.txUnsent = if seqAfter c'.txBase c.txUnsent then c'.txBase else c.txUnsent)
    (hlog : c'.log = c.log ++ List.replicate j .acked) : c'.Sends T := by
  have hroom : (wrote c.log).length ≤ acked c.log + 8 := h.room
  have hacked : acked c'.log = acked c.log + j := by rw [hlog, acked_replicate]
  have hwrote : wrote c'.log = wrote c.log := by rw [hlog, wrote_replicate]
  refine ⟨?_, ?_, ?_, ?_, ?_, fun i k data hi hget => ?_, ?_⟩
  · rw [hbase, hacked]
  · rw [hnext, hwrote]
    exact h.next
  · obtain ⟨u, hu, hlo, hhi⟩ := h.unsent
    have hafter := seqAfter_iff (i := acked c.log + j) (j := u) (by omega) (by omega)
    rw [hbase, hu] at hunsent
    rw [hunsent, hacked, hwrote]
    split_ifs with hgo
    · exact ⟨_, rfl, le_rfl, hj⟩
    · exact ⟨u, rfl, Nat.not_lt.1 fun hlt => hgo (hafter.2 hlt), hhi⟩
  · rw [hacked, hwrote]
    exact hj
  · rw [hacked, hwrote]
    change _ ≤ _ + 8
    omega
  · rw [hacked] at hi
    rw [hwrote] at hget
    rw [htxw]
    exact h.slot i k data (by omega) hget
  · rw [hwrote]
    exact h.typed

/-- What `process_ack` does to the histories.  An acknowledgement that is not too old moves
`tx_base` no further than it says. -/
structure AckTaken (c : Netchan) (ack : UInt16) (c' : Netchan) : Prop where
  log : c.log <+: c'.log
  wrote : wrote c'.log = wrote c.log
  took : took c'.log = took c.log
  reads : ∀ k, reads k c'.log = reads k c.log
  rxNext : c'.rxNext = c.rxNext
  chan : c'.chan = c.chan
  acked : ∀ g, ack = UInt16.ofNat g → acked c.log ≤ g + 2 ^ 15 →
    g ≤ (NetchanIpx.wrote c.log).length → acked c'.log ≤ max (acked c.log) g

theorem processAck_good (h : c.Good T) (ack : UInt16) :
    (processAck c ack).Good T ∧ AckTaken c ack (processAck c ack) := by
  have hroom : (wrote c.log).length ≤ acked c.log + 8 := h.sends.room
  obtain ⟨j, hj, heq, hnewer⟩ := ackLoop_eq ack (c.txNext - c.txBase).toNat h.sends.base
    h.sends.next h.sends.acked_le h.sends.room
  -- the timers aside, this is the new state
  have hshape : ∃ timer attempts, processAck c ack = { c with
      txBase := UInt16.ofNat (acked c.log + j)
      txUnsent := if seqAfter (UInt16.ofNat (acked c.log + j)) c.txUnsent
        then UInt16.ofNat (acked c.log + j) else c.txUnsent
      log := c.log ++ List.replicate j .acked
      txTimer := timer
      txAttempts := attempts } := by
    unfold processAck ackUnsent
    rw [heq]
    dsimp only
    split_ifs
    all_goals exact ⟨_, _, rfl⟩
  obtain ⟨timer, attempts, hshape⟩ := hshape
  rw [hshape]
  refine ⟨⟨h.laid.congr rfl, h.sends.advance hj rfl rfl rfl rfl rfl,
    h.unrel.congr rfl rfl rfl rfl (List.prefix_append _ _),
    h.takes.congr rfl rfl (took_replicate _ _)⟩,
    List.prefix_append _ _, wrote_replicate _ _, took_replicate _ _,
    fun k => reads_replicate k _ _, rfl, rfl,
    fun g hg hold hnew => ?_⟩
  change acked (c.log ++ List.replicate j .acked) ≤ _
  rw [acked_replicate]
  by_cases h0 : j = 0
  · omega
  · have hfirst := hnewer 0 (by omega)
    rw [hg, Nat.add_zero, seqAfter_iff hold (by omega)] at hfirst
    have hlast := hnewer (j - 1) (by omega)
    rw [hg, seqAfter_iff (by omega) (by omega)] at hlast
    omega

end Ack

/-! ## Records -/

section Deliver

variable {T : Layout} {c : Netchan}

theorem rxqPush_keeps (ch : Chan) (data : Bytes) :
    (rxqPush ch data).used = ch.used ∧ (rxqPush ch data).type = ch.type ∧
      (rxqPush ch data).id = ch.id ∧ (rxqPush ch data).rxHead = ch.rxHead := by
  unfold rxqPush
  split_ifs <;> exact ⟨rfl, rfl, rfl, rfl⟩

theorem rxqPush_queue {ch : Chan} (hroom : rxqFull ch = false) {data : Bytes}
    (hlen : data.length ≤ ncMaxmsg) : (rxqPush ch data).queue = ch.queue ++ [data] := by
  have hlt : ¬ch.rxCount ≥ ncRecvq := by simpa [rxqFull] using hroom
  unfold rxqPush
  rw [if_neg hlt, List.take_of_length_le hlen]
  exact Ring.queued_push _ _ (Nat.not_le.1 hlt)

theorem pushData_idle (c : Netchan) (k : Nat) (data : Bytes) :
    Idle { c with chan := Function.update c.chan k (rxqPush (c.chan k) data) }
      (pushData c k data) :=
  evPush_idle _ _ _

theorem pushData_good (h : c.Good T) (k : Nat) (data : Bytes) : (pushData c k data).Good T := by
  obtain ⟨hused, htype, hid, hhead⟩ := rxqPush_keeps (c.chan k) data
  have hset : { c with chan := Function.update c.chan k (rxqPush (c.chan k) data) }.Good T := by
    refine ⟨h.laid.update rfl hused htype hid, h.sends.congr rfl rfl rfl rfl rfl rfl,
      h.unrel.congr rfl rfl rfl rfl List.prefix_rfl, h.takes.next, fun j => ?_⟩
    change (Function.update c.chan k _ j).rxHead < ncRecvq
    by_cases hj : j = k
    · rw [hj, Function.update_self, hhead]
      exact h.takes.head_lt k
    · rw [Function.update_of_ne hj]
      exact h.takes.head_lt j
  exact hset.idle (pushData_idle c k data)

theorem Netchan.Good.take (h : c.Good T) {c' : Netchan} (hg : c'.Good T)
    (hlog : c'.log = c.log) :
    ({ c' with rxNext := c.rxNext + 1 }.mark .took).Good T := by
  refine ⟨hg.laid.congr rfl, hg.sends.congr rfl rfl rfl rfl (wrote_snoc_took _) (acked_snoc_took _),
    hg.unrel.congr rfl rfl rfl rfl (List.prefix_append _ _), ?_, hg.takes.head_lt⟩
  change c.rxNext + 1 = UInt16.ofNat (took (c'.log ++ [.took]))
  rw [took_snoc_took, hlog, h.takes.next, ofNat_add_one]

/-- A record neither writes nor acknowledges. -/
structure Received (c c' : Netchan) : Prop where
  log : c.log <+: c'.log
  wrote : wrote c'.log = wrote c.log
  acked : acked c'.log = acked c.log

theorem Received.of_log {c c' : Netchan} (hlog : c'.log = c.log) : Received c c' :=
  ⟨log_extends hlog, by rw [hlog], by rw [hlog]⟩

theorem deliverDue_good (h : c.Good T) (chan : UInt8) (data : Bytes) :
    (deliverDue c chan data).Good T ∧ Received c (deliverDue c chan data) := by
  unfold deliverDue
  split
  · exact ⟨h.take h rfl, List.prefix_append _ _, wrote_snoc_took _, acked_snoc_took _⟩
  · rename_i k _
    split_ifs
    · exact ⟨h, Received.of_log rfl⟩
    · have hidle := pushData_idle c k data
      have hlog : (pushData c k data).log = c.log := hidle.log
      refine ⟨h.take (pushData_good h k data) hlog, ?_, ?_, ?_⟩
      · change c.log <+: (pushData c k data).log ++ [.took]
        rw [hlog]
        exact List.prefix_append _ _
      · change wrote ((pushData c k data).log ++ [.took]) = _
        rw [wrote_snoc_took, hlog]
      · change acked ((pushData c k data).log ++ [.took]) = _
        rw [acked_snoc_took, hlog]

theorem deliver_good (h : c.Good T) (chan mt : UInt8) (seq : UInt16) (data : Bytes) :
    (deliver c chan mt seq data).Good T ∧ Received c (deliver c chan mt seq data) := by
  unfold deliver
  split_ifs with hmt hdue
  · obtain ⟨hgood, hrec⟩ := deliverDue_good h chan data
    exact ⟨hgood.idle Idle.set, hrec.log, hrec.wrote, hrec.acked⟩
  · exact ⟨h.idle Idle.set, Received.of_log rfl⟩
  · split
    · exact ⟨h, Received.of_log rfl⟩
    · rename_i k _
      exact ⟨pushData_good h k data, Received.of_log (pushData_idle c k data).log⟩

end Deliver

/-- A record of a DATA packet. -/
structure Rec where
  chan : UInt8
  mt : UInt8
  seq : UInt16
  data : Bytes
  deriving DecidableEq

def Rec.encode (r : Rec) : Bytes := record r.chan r.mt r.seq r.data

/-- Message `i` of its sender, one of the last eight of the first `n`. -/
def Rec.Numbered (log : List Mark) (n : Nat) (r : Rec) : Prop :=
  r.mt = mtRel ∧ ∃ i k, i < n ∧ n ≤ i + ncWindow ∧ r.seq = UInt16.ofNat i ∧
    r.chan = UInt8.ofNat k ∧ (wrote log)[i]? = some (k, r.data)

/-- A datagram of an unreliable channel. -/
def Rec.Loose (T : Layout) (log : List Mark) (r : Rec) : Prop :=
  r.mt = mtUnrel ∧ ∃ k, T k = some .unreliable ∧ r.chan = UInt8.ofNat k ∧ r.data ∈ loose k log

/-- A record that was sent when `n` messages were written, by a netchan with this history. -/
def Rec.Said (T : Layout) (log : List Mark) (n : Nat) (r : Rec) : Prop :=
  r.data.length ≤ ncMaxmsg ∧ (r.Numbered log n ∨ r.Loose T log)

theorem Rec.Said.mono {T : Layout} {log log' : List Mark} {n : Nat} {r : Rec}
    (h : r.Said T log n) (hlog : log <+: log') : r.Said T log' n := by
  obtain ⟨hlen, ⟨hmt, i, k, hlt, hle, hseq, hchan, hget⟩ | ⟨hmt, k, hk, hchan, hmem⟩⟩ := h
  · obtain ⟨rest, hrest⟩ := wrote_isPrefix hlog
    refine ⟨hlen, Or.inl ⟨hmt, i, k, hlt, hle, hseq, hchan, ?_⟩⟩
    rw [← hrest, List.getElem?_append_left (List.getElem?_eq_some_iff.1 hget).1]
    exact hget
  · exact ⟨hlen, Or.inr ⟨hmt, k, hk, hchan, loose_subset hlog k hmem⟩⟩

theorem recordLoop_cons (n : Nat) (c : Netchan) {r : Rec} (hlen : r.data.length ≤ ncMaxmsg)
    (rest : Bytes) :
    recordLoop (n + 1) c (r.encode ++ rest) =
      recordLoop n (deliver c r.chan r.mt r.seq r.data) rest := by
  have hsize : (UInt16.ofNat r.data.length).toNat = r.data.length := by
    rw [UInt16.toNat_ofNat']
    exact Nat.mod_eq_of_lt (Nat.lt_of_le_of_lt hlen (by decide))
  have hbytes : r.encode ++ rest =
      r.chan :: r.mt ::
        (wr16 r.seq ++ (wr16 (UInt16.ofNat r.data.length) ++ (r.data ++ rest))) := by
    simp [Rec.encode, record]
  rw [hbytes]
  conv_lhs => unfold recordLoop
  simp only [List.length_cons, List.length_append, length_wr16, List.drop_succ_cons,
    List.drop_zero, drop_wr16_append, rd16_wr16_append, hsize, List.getD_cons_zero,
    List.getD_cons_succ, List.take_left', List.drop_left']
  rw [if_neg (by change ¬_ < 6; omega), if_neg (by omega)]

theorem recordLoop_encode (rs : List Rec) (hrs : ∀ r ∈ rs, r.data.length ≤ ncMaxmsg) (n : Nat)
    (hn : rs.length ≤ n) (c : Netchan) :
    recordLoop n c (rs.flatMap Rec.encode) =
      rs.foldl (fun c r => deliver c r.chan r.mt r.seq r.data) c := by
  induction rs generalizing n c with
  | nil => cases n <;> rfl
  | cons r rs ih =>
    obtain ⟨m, rfl⟩ : ∃ m, n = m + 1 := ⟨n - 1, by simp at hn; omega⟩
    rw [List.flatMap_cons, recordLoop_cons m c (hrs r List.mem_cons_self), List.foldl_cons]
    exact ih (fun r' hr' => hrs r' (List.mem_cons_of_mem _ hr')) m (by simpa using hn) _

/-! ## Packets that are sent -/

section Send

variable {T : Layout} {c : Netchan}

theorem Netchan.Good.setUnsent (h : c.Good T) {u : Nat} (hlo : acked c.log ≤ u)
    (hhi : u ≤ (wrote c.log).length) : { c with txUnsent := UInt16.ofNat u }.Good T where
  laid := h.laid.congr rfl
  sends := ⟨h.sends.base, h.sends.next, ⟨u, rfl, hlo, hhi⟩, h.sends.acked_le, h.sends.room,
    h.sends.slot, h.sends.typed⟩
  unrel := h.unrel.congr rfl rfl rfl rfl List.prefix_rfl
  takes := h.takes.congr rfl rfl rfl

theorem Netchan.Good.rewind (h : c.Good T) : { c with txUnsent := c.txBase }.Good T where
  laid := h.laid.congr rfl
  sends := ⟨h.sends.base, h.sends.next, ⟨acked c.log, h.sends.base, le_rfl, h.sends.acked_le⟩,
    h.sends.acked_le, h.sends.room, h.sends.slot, h.sends.typed⟩
  unrel := h.unrel.congr rfl rfl rfl rfl List.prefix_rfl
  takes := h.takes.congr rfl rfl rfl

theorem sendRelLoop_spec (cap n : Nat) (h : c.Good T) (w : Bytes) :
    ∃ (x : UInt16) (rs : List Rec), sendRelLoop cap n c w =
        ({ c with txUnsent := x }, w ++ rs.flatMap Rec.encode) ∧
      { c with txUnsent := x }.Good T ∧
      ∀ r ∈ rs, r.Said T c.log (wrote c.log).length := by
  induction n generalizing c w with
  | zero => exact ⟨c.txUnsent, [], by simp [sendRelLoop], h, nofun⟩
  | succ n ih =>
    have hstop : ∃ (x : UInt16) (rs : List Rec),
        (c, w) = ({ c with txUnsent := x }, w ++ rs.flatMap Rec.encode) ∧
        { c with txUnsent := x }.Good T ∧
        ∀ r ∈ rs, r.Said T c.log (wrote c.log).length :=
      ⟨c.txUnsent, [], by simp, h, nofun⟩
    unfold sendRelLoop
    dsimp only
    split_ifs with hdone hfull
    · exact hstop
    · exact hstop
    · -- the slot at the mark holds message `u`
      obtain ⟨u, hu, hlo, hhi⟩ := h.sends.unsent
      have hlt : u < (wrote c.log).length := by
        refine lt_of_le_of_ne hhi fun heq => hdone ?_
        rw [hu, h.sends.next, heq]
      obtain ⟨⟨k, data⟩, hget⟩ : ∃ m, (wrote c.log)[u]? = some m :=
        ⟨_, List.getElem?_eq_getElem hlt⟩
      have hslot : c.txw (c.txUnsent.toNat % ncWindow) = ⟨UInt16.ofNat u, UInt8.ofNat k, data⟩ := by
        rw [hu]
        exact (congrArg c.txw (toNat_ofNat_mod_window u)).trans (h.sends.slot u k data hlo hget)
      have htyped := h.sends.typed (k, data) (List.mem_of_getElem? hget)
      have hnext : { c with txUnsent := c.txUnsent + 1 }.Good T := by
        rw [hu, ofNat_add_one]
        exact h.setUnsent (by omega) (by omega)
      obtain ⟨x, rs, heq, hgood, hsaid⟩ := ih hnext
        (w ++ record (UInt8.ofNat k) mtRel (UInt16.ofNat u) data)
      refine ⟨x, ⟨UInt8.ofNat k, mtRel, UInt16.ofNat u, data⟩ :: rs, ?_, hgood, ?_⟩
      · rw [hslot, heq, List.flatMap_cons, ← List.append_assoc]
        rfl
      · intro r hr
        rcases List.mem_cons.1 hr with rfl | hr
        · refine ⟨htyped.2, Or.inl ⟨rfl, u, k, hlt, ?_, rfl, rfl, hget⟩⟩
          have hroom := h.sends.room
          exact hroom.trans (Nat.add_le_add_right hlo _)
        · exact hsaid r hr

theorem sendUnrelLoop_spec (cap n : Nat) (h : c.Good T) (w : Bytes) :
    ∃ (hd m : Nat) (rs : List Rec), sendUnrelLoop cap n c w =
        ({ c with txuHead := hd, txuCount := m }, w ++ rs.flatMap Rec.encode) ∧
      { c with txuHead := hd, txuCount := m }.Good T ∧
      ∀ r ∈ rs, r.Said T c.log (wrote c.log).length := by
  induction n generalizing c w with
  | zero => exact ⟨c.txuHead, c.txuCount, [], by simp [sendUnrelLoop], h, nofun⟩
  | succ n ih =>
    have hstop : ∃ (hd m : Nat) (rs : List Rec),
        (c, w) = ({ c with txuHead := hd, txuCount := m }, w ++ rs.flatMap Rec.encode) ∧
        { c with txuHead := hd, txuCount := m }.Good T ∧
        ∀ r ∈ rs, r.Said T c.log (wrote c.log).length :=
      ⟨c.txuHead, c.txuCount, [], by simp, h, nofun⟩
    unfold sendUnrelLoop
    dsimp only
    split_ifs with hempty hfull
    · exact hstop
    · exact hstop
    · obtain ⟨m, hm⟩ : ∃ m, c.txuCount = m + 1 := ⟨c.txuCount - 1, by omega⟩
      have htyped := h.unrel.typed (c.txuChan c.txuHead, c.txu c.txuHead) (by
        unfold Netchan.unsentUnrel
        rw [hm, Ring.queued_pop _ h.unrel.head_lt]
        exact List.mem_cons_self)
      have hnext : { c with
          txuHead := (c.txuHead + 1) % ncUnrelTxq
          txuCount := c.txuCount - 1 }.Good T :=
        ⟨h.laid.congr rfl, h.sends.congr rfl rfl rfl rfl rfl rfl,
          h.unrel.pop hm rfl rfl rfl (by rw [hm]; rfl) rfl, h.takes.congr rfl rfl rfl⟩
      obtain ⟨hd, m', rs, heq, hgood, hsaid⟩ := ih hnext
        (w ++ record (c.txuChan c.txuHead) mtUnrel 0 (c.txu c.txuHead))
      refine ⟨hd, m', ⟨c.txuChan c.txuHead, mtUnrel, 0, c.txu c.txuHead⟩ :: rs, ?_, hgood, ?_⟩
      · rw [heq, List.flatMap_cons, ← List.append_assoc]
        rfl
      · intro r hr
        rcases List.mem_cons.1 hr with rfl | hr
        · exact ⟨htyped.1, Or.inr ⟨rfl, htyped.2⟩⟩
        · exact hsaid r hr

theorem armTimer_idle (c : Netchan) : Idle c (armTimer c) := by
  unfold armTimer
  split_ifs <;> exact Idle.set

theorem sendData_spec (h : c.Good T) (cap : Nat) :
    (sendData c cap).1.Good T ∧ (sendData c cap).1.log = c.log ∧
      (sendData c cap).1.chan = c.chan ∧
      ∃ (rid : UInt32) (rs : List Rec),
        (sendData c cap).2 = header rid pktData c.rxNext ++ rs.flatMap Rec.encode ∧
        ∀ r ∈ rs, r.Said T c.log (wrote c.log).length := by
  obtain ⟨x, rs, heq, hgood, hsaid⟩ := sendRelLoop_spec cap (c.txNext - c.txUnsent).toNat h []
  unfold sendData
  rw [heq]
  dsimp only
  have harm := armTimer_idle { c with txUnsent := x }
  generalize armTimer { c with txUnsent := x } = d at harm
  obtain ⟨hd, m, rs', heq', hgood', hsaid'⟩ :=
    sendUnrelLoop_spec cap d.txuCount (hgood.idle harm) ([] ++ rs.flatMap Rec.encode)
  rw [heq']
  refine ⟨hgood'.idle Idle.set, harm.log, harm.chan,
    d.remoteId, rs ++ rs', ?_, fun r hr => ?_⟩
  · rw [List.flatMap_append, List.nil_append]
    exact congrArg (fun ack => header d.remoteId pktData ack ++ _) harm.rxNext
  · rcases List.mem_append.1 hr with hr | hr
    · exact hsaid r hr
    · have hr' := hsaid' r hr
      rw [harm.log] at hr'
      exact hr'

/-- What a packet of this netchan says: it is one of the handshake, or the acknowledgement
and the records are those of its sender. -/
def PacketSaid (T : Layout) (log : List Mark) (n g : Nat) (pkt : Bytes) : Prop :=
  pkt.getD 4 0 = pktData → ∃ (rid : UInt32) (rs : List Rec),
    pkt = header rid pktData (UInt16.ofNat g) ++ rs.flatMap Rec.encode ∧ ∀ r ∈ rs, r.Said T log n

theorem ncSendNext_spec (h : c.Good T) (buflen : Nat) :
    (ncSendNext c buflen).1.Good T ∧ Called c (ncSendNext c buflen).1 ∧
      ∀ pkt addr, (ncSendNext c buflen).2 = some (pkt, addr) →
        PacketSaid T c.log (wrote c.log).length (took c.log) pkt := by
  have hctrl : ∀ (rid : UInt32) (type : UInt8) (rest : Bytes), type ≠ pktData →
      PacketSaid T c.log (wrote c.log).length (took c.log) (header rid type 0 ++ rest) :=
    fun rid type rest htype hdata => absurd hdata htype
  refine ncSendNext_elim c buflen ?_ ?_ ?_ ?_ fun _ _ _ _ => ?_
  · exact ⟨h, Called.of_same rfl rfl, nofun⟩
  · refine ⟨h.idle Idle.set, Called.of_same rfl rfl, ?_⟩
    rintro pkt addr ⟨⟩
    exact hctrl _ _ _ (by decide)
  · refine ⟨h.idle Idle.set, Called.of_same rfl rfl, ?_⟩
    rintro pkt addr ⟨⟩
    exact (List.append_nil (header c.remoteId pktAck 0)) ▸ hctrl _ _ [] (by decide)
  · refine ⟨h.idle Idle.set, Called.of_same rfl rfl, ?_⟩
    rintro pkt addr ⟨⟩
    exact hctrl _ _ _ (by decide)
  · obtain ⟨hgood, hlog, hchan, rid, rs, hpkt, hsaid⟩ := sendData_spec h (min buflen ncMtu)
    rw [h.takes.next] at hpkt
    refine ⟨hgood, Called.of_same hlog hchan, ?_⟩
    rintro pkt addr ⟨⟩
    exact fun _ => ⟨rid, rs, hpkt, hsaid⟩

end Send

/-! ## Steps -/

section Steps

variable {T : Layout} {c : Netchan}

theorem keepalive_idle (c : Netchan) (nowMs : UInt32) : Idle c (keepalive c nowMs).1 := by
  unfold keepalive
  dsimp only
  split_ifs <;> exact Idle.set

theorem serviceConnecting_idle (c : Netchan) (nowMs : UInt32) :
    Idle c (serviceConnecting c nowMs).1 := by
  unfold serviceConnecting
  dsimp only
  split_ifs
  · exact Idle.down Idle.set
  all_goals exact Idle.set

theorem serviceConnected_idle (c : Netchan) (nowMs : UInt32) :
    Idle c (serviceConnected c nowMs).1 ∨
      Idle { c with txUnsent := c.txBase } (serviceConnected c nowMs).1 := by
  unfold serviceConnected
  dsimp only
  split_ifs
  · exact Or.inl (down_idle c)
  · exact Or.inl (Idle.down Idle.set)
  · refine Or.inr (Idle.trans ?_ (keepalive_idle _ nowMs))
    exact Idle.set
  · exact Or.inl (keepalive_idle c nowMs)

theorem ncService_good (h : c.Good T) (nowMs : UInt32) :
    (ncService c nowMs).1.Good T ∧ Called c (ncService c nowMs).1 := by
  have hset : Idle c { c with now := nowMs } :=
    Idle.set
  have hidle : ∀ {c' : Netchan}, Idle { c with now := nowMs } c' → c'.Good T ∧ Called c c' :=
    fun hi => ⟨h.idle (hset.trans hi), Called.of_same (hset.trans hi).log (hset.trans hi).chan⟩
  unfold ncService
  dsimp only
  split
  · exact hidle (serviceConnecting_idle _ nowMs)
  · rcases serviceConnected_idle { c with now := nowMs } nowMs with hi | hi
    · exact hidle hi
    · have hrewind := (h.idle hset).rewind
      exact ⟨hrewind.idle hi, Called.of_same hi.log hi.chan⟩
  · exact hidle (Idle.refl _)

theorem lockPeer_idle (c : Netchan) (pkt : Bytes) (source : Option Addr) :
    Idle c (lockPeer c pkt source) := Idle.set

theorem acceptSyn_idle (c : Netchan) (pkt : Bytes) (source : Option Addr) :
    Idle c (acceptSyn c pkt source) := by
  unfold acceptSyn
  split_ifs
  · exact (lockPeer_idle c pkt source).trans Idle.set
  · exact Idle.refl c

theorem feedSyn_idle (c : Netchan) (pkt : Bytes) (source : Option Addr) :
    Idle c (feedSyn c pkt source).1 := by
  have haccept := acceptSyn_idle c pkt source
  unfold feedSyn
  generalize acceptSyn c pkt source = d at haccept
  split_ifs
  · exact Idle.refl c
  · exact Idle.refl c
  · unfold askSynack
    split_ifs
    · exact haccept.trans Idle.set
    · exact haccept

theorem upIfConnecting_idle (c : Netchan) : Idle c (upIfConnecting c) := by
  unfold upIfConnecting
  split_ifs
  · exact up_idle c
  · exact Idle.refl c

theorem feedSynack_idle (c : Netchan) (pkt : Bytes) (source : Option Addr) :
    Idle c (feedSynack c pkt source).1 := by
  have hup := (lockPeer_idle c pkt source).trans (upIfConnecting_idle _)
  unfold feedSynack
  generalize upIfConnecting (lockPeer c pkt source) = d at hup
  split_ifs
  · exact Idle.refl c
  · exact Idle.refl c
  · exact hup.trans Idle.set

theorem feedAck_idle (c : Netchan) (pkt : Bytes) : Idle c (feedAck c pkt).1 := by
  unfold feedAck
  split_ifs
  · exact Idle.refl c
  · exact upIfConnecting_idle c

theorem feedFin_idle (c : Netchan) (pkt : Bytes) : Idle c (feedFin c pkt).1 := by
  unfold feedFin
  split_ifs
  · exact Idle.refl c
  · exact down_idle c
  · exact Idle.refl c

theorem feedData_cases (c : Netchan) (pkt : Bytes) :
    Idle c (feedData c pkt).1 ∨ ∃ d, Idle c d ∧ (feedData c pkt).1 =
      recordLoop pkt.length (processAck d (rd16 (pkt.drop 6))) (pkt.drop ncHdr) := by
  have hup : Idle c (if c.isServer = true ∧ c.state = .connecting then up c else c) := by
    split_ifs
    · exact up_idle c
    · exact Idle.refl c
  unfold feedData
  generalize (if c.isServer = true ∧ c.state = .connecting then up c else c) = d at hup
  dsimp only
  split_ifs
  · exact Or.inl (Idle.refl c)
  · exact Or.inl hup
  · exact Or.inr ⟨d, hup, rfl⟩

theorem ncFeed_cases (c : Netchan) (pkt : Bytes) (source : Option Addr) :
    Idle c (ncFeed c pkt source).1 ∨
      ∃ d, Idle c d ∧ pkt.getD 4 0 = pktData ∧ (ncFeed c pkt source).1 =
        recordLoop pkt.length (processAck d (rd16 (pkt.drop 6))) (pkt.drop ncHdr) := by
  have hset : Idle c { c with lastRecv := c.now } :=
    Idle.set
  refine ncFeed_elim c pkt source ?_ ?_ ?_ ?_ (fun hdata => ?_) ?_ ?_
  · exact Or.inl (Idle.refl c)
  · exact Or.inl (hset.trans (feedSyn_idle _ pkt source))
  · exact Or.inl (hset.trans (feedSynack_idle _ pkt source))
  · exact Or.inl (hset.trans (feedAck_idle _ pkt))
  · rcases feedData_cases { c with lastRecv := c.now } pkt with hi | ⟨d, hi, heq⟩
    · exact Or.inl (hset.trans hi)
    · exact Or.inr ⟨d, hset.trans hi, hdata, heq⟩
  · exact Or.inl (hset.trans (feedFin_idle _ pkt))
  · exact Or.inl hset

theorem recordLoop_good (n : Nat) (h : c.Good T) (q : Bytes) :
    (recordLoop n c q).Good T ∧ Received c (recordLoop n c q) := by
  induction n generalizing c q with
  | zero => exact ⟨h, Received.of_log rfl⟩
  | succ n ih =>
    unfold recordLoop
    dsimp only
    split_ifs
    · exact ⟨h, Received.of_log rfl⟩
    · exact ⟨h, Received.of_log rfl⟩
    · obtain ⟨hgood, hrec⟩ := deliver_good h (q.getD 0 0) (q.getD 1 0) (rd16 (q.drop 2))
        ((q.drop ncRec).take (rd16 (q.drop 4)).toNat)
      obtain ⟨hgood', hrec'⟩ := ih hgood ((q.drop ncRec).drop (rd16 (q.drop 4)).toNat)
      exact ⟨hgood', hrec.log.trans hrec'.log, hrec'.wrote.trans hrec.wrote,
        hrec'.acked.trans hrec.acked⟩

theorem ncFeed_good (h : c.Good T) (pkt : Bytes) (source : Option Addr) :
    (ncFeed c pkt source).1.Good T ∧ c.log <+: (ncFeed c pkt source).1.log ∧
      wrote (ncFeed c pkt source).1.log = wrote c.log := by
  rcases ncFeed_cases c pkt source with hi | ⟨d, hi, -, heq⟩
  · exact ⟨h.idle hi, log_extends hi.log, by rw [hi.log]⟩
  · obtain ⟨hack, htaken⟩ := processAck_good (h.idle hi) (rd16 (pkt.drop 6))
    obtain ⟨hgood, hrec⟩ := recordLoop_good pkt.length hack (pkt.drop ncHdr)
    rw [heq]
    refine ⟨hgood, ?_, hrec.wrote.trans (htaken.wrote.trans (by rw [hi.log]))⟩
    rw [← hi.log]
    exact htaken.log.trans hrec.log

/-- A call on a connection whose channels stay open. -/
def Act.isCall : Act → Bool
  | .feed _ _ | .chanOpen _ | .chanClose _ => false
  | _ => true

theorem Netchan.Good.call (h : c.Good T) {a : Act} (ha : a.isCall = true) :
    (c.step a).Good T ∧ Called c (c.step a) := by
  cases a with
  | connect addr =>
    have hi : Idle c (ncConnect c addr).1 := by
      cases addr <;> exact Idle.set
    exact ⟨h.idle hi, Called.of_same hi.log hi.chan⟩
  | chanOpen type => cases ha
  | chanClose k => cases ha
  | write k data => exact ncWrite_good h k data
  | read k buflen => exact ncRead_good h k buflen
  | poll =>
    have hi : Idle c (ncPoll c).1 := by
      unfold ncPoll
      split_ifs <;> exact Idle.set
    exact ⟨h.idle hi, Called.of_same hi.log hi.chan⟩
  | feed pkt source => cases ha
  | sendNext buflen =>
    obtain ⟨hgood, hcalled, -⟩ := ncSendNext_spec h buflen
    exact ⟨hgood, hcalled⟩
  | service nowMs => exact ncService_good h nowMs

end Steps

end MechanicalResearcher.NetchanIpx
