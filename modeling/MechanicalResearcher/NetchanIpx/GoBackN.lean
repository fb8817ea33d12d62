import MechanicalResearcher.Lib.Network
import MechanicalResearcher.Lib.Runs
import MechanicalResearcher.NetchanIpx.Window

/-!
# Go-back-N between a client and a server

Two netchans and the packets between them, which are lost, duplicated and reordered at
will.  `Flow` is the joint invariant of one direction: what the receiver took is a
beginning of what the sender wrote, the sender forgets a message only after it was taken,
and every packet in flight says what its sender knew when it was built.
-/

namespace MechanicalResearcher.NetchanIpx

open Lib Lib.Serial Lib.BigEndian Lib.Runs Lib.Network

/-! ## Marks and return values -/

theorem ncWrite_returns (c : Netchan) (k : Nat) (data : Bytes) :
    ((ncWrite c k data).2 = .ok data.length ∧
        ((ncWrite c k data).1.log = c.log ++ [.wrote k data] ∨
          (ncWrite c k data).1.log = c.log ++ [.loose k data])) ∨
      (∃ e, (ncWrite c k data).2 = .error e) ∧ (ncWrite c k data).1 = c := by
  unfold ncWrite
  split_ifs
  · exact .inr ⟨⟨_, rfl⟩, rfl⟩
  · exact .inr ⟨⟨_, rfl⟩, rfl⟩
  · exact .inr ⟨⟨_, rfl⟩, rfl⟩
  · split
    · unfold writeRel
      split_ifs
      · exact .inr ⟨⟨_, rfl⟩, rfl⟩
      · exact .inl ⟨rfl, .inl rfl⟩
    · have hroom : (txuRoom c).log = c.log := by
        unfold txuRoom
        split_ifs <;> rfl
      exact .inl ⟨rfl, .inr (congrArg (· ++ [Mark.loose k data]) hroom)⟩

theorem ncRead_returns (c : Netchan) (k buflen : Nat) :
    (∃ data, (ncRead c k buflen).2 = .ok data ∧
        (ncRead c k buflen).1.log = c.log ++ [.read k data]) ∨
      ((ncRead c k buflen).2 = .ok [] ∨ ∃ e, (ncRead c k buflen).2 = .error e) ∧
        (ncRead c k buflen).1 = c := by
  unfold ncRead
  dsimp only
  split_ifs
  · exact .inr ⟨.inl rfl, rfl⟩
  · exact .inr ⟨.inr ⟨_, rfl⟩, rfl⟩
  · exact .inl ⟨_, rfl, rfl⟩

/-! ## The system -/

/-- A packet in flight.  `sent` and `got` are history: how many messages its sender had
written and taken when the packet was built. -/
structure Flight where
  pkt : Bytes
  sent : Nat
  got : Nat

/-- The packets a call sends. -/
def Netchan.emits (c : Netchan) : Act → List Flight
  | .sendNext buflen =>
    match (ncSendNext c buflen).2 with
    | none => []
    | some (pkt, _) => [⟨pkt, (wrote c.log).length, took c.log⟩]
  | _ => []

def netchan : Endpoint Netchan Act (Option Addr) Flight where
  call c a := (c.step a, c.emits a)
  hear c source p := c.step (.feed p.pkt source)

abbrev Joint := Net Netchan Flight

/-- Calls leave the channels open and bring a buffer for a whole packet.  No sequence number of
a delivered packet is more than `2 ^ 15` behind the one its receiver has come to. -/
def Joint.Fresh (net : Joint) : Move Act (Option Addr) → Prop
  | .call _ (.sendNext buflen) => ncMtu ≤ buflen
  | .call _ a => a.isCall = true
  | .deliver side n _ =>
    match (net.flight side)[n]? with
    | none => True
    | some p => took (net.conn !side).log ≤ p.sent + 2 ^ 15 ∧
        acked (net.conn !side).log ≤ p.got + 2 ^ 15
  | .drop _ _ => True

/-! ## What a record does -/

/-- What the receiver has of the messages of a sender with this history. -/
structure Inbox (T : Layout) (log : List Mark) (c : Netchan) : Prop where
  took_le : took c.log ≤ (wrote log).length
  fifo : ∀ k, T k = some .reliable →
    reads k c.log ++ (c.chan k).queue = onChan k ((wrote log).take (took c.log))
  loose : ∀ k, T k = some .unreliable → reads k c.log ++ (c.chan k).queue ⊆ loose k log

section Records

variable {T : Layout} {log : List Mark} {c : Netchan} {n : Nat} {r : Rec}

theorem Inbox.congr (h : Inbox T log c) {c' : Netchan} (htook : took c'.log = took c.log)
    (hinbox : ∀ k, reads k c'.log ++ (c'.chan k).queue = reads k c.log ++ (c.chan k).queue) :
    Inbox T log c' := by
  refine ⟨by rw [htook]; exact h.took_le, fun k hk => ?_, fun k hk => ?_⟩
  · rw [hinbox, htook]
    exact h.fifo k hk
  · rw [hinbox]
    exact h.loose k hk

theorem Inbox.mono (h : Inbox T log c) {log' : List Mark} (hlog : log <+: log') :
    Inbox T log' c := by
  have hwrote := wrote_isPrefix hlog
  refine ⟨h.took_le.trans hwrote.length_le, fun k hk => ?_, fun k hk => ?_⟩
  · obtain ⟨rest, hrest⟩ := hwrote
    rw [← hrest, List.take_append_of_le_length h.took_le]
    exact h.fifo k hk
  · exact List.Subset.trans (h.loose k hk) (loose_subset hlog k)

theorem chanById_ofNat (h : c.Good T) {k : Nat} {t : ChanType} (hk : T k = some t) :
    chanById c (UInt8.ofNat k) = some k := by
  obtain ⟨hlt, hused, -⟩ := h.laid.opened k t hk
  have htoNat : (UInt8.ofNat k).toNat = k := by
    rw [UInt8.toNat_ofNat']
    exact Nat.mod_eq_of_lt (Nat.lt_of_lt_of_le hlt (by decide))
  unfold chanById
  rw [htoNat, if_pos ⟨hlt, hused⟩]

theorem rxqPush_subset (ch : Chan) {data : Bytes} (hlen : data.length ≤ ncMaxmsg) :
    (rxqPush ch data).queue ⊆ ch.queue ++ [data] := by
  by_cases hfull : rxqFull ch = true
  · have hskip : rxqPush ch data = ch := if_pos (by simpa [rxqFull] using hfull)
    rw [hskip]
    exact List.subset_append_left _ _
  · rw [rxqPush_queue (Bool.eq_false_iff.2 hfull) hlen]
    exact List.Subset.refl _

theorem deliver_loose (h : c.Good T) (hin : Inbox T log c) (hlen : r.data.length ≤ ncMaxmsg)
    (hr : r.Loose T log) :
    Inbox T log (deliver c r.chan r.mt r.seq r.data) ∧
      took (deliver c r.chan r.mt r.seq r.data).log = took c.log := by
  obtain ⟨hmt, k, hk, hchan, hmem⟩ := hr
  have hdeliver : deliver c r.chan r.mt r.seq r.data = pushData c k r.data := by
    unfold deliver
    rw [hmt, if_neg (by decide), hchan, chanById_ofNat h hk]
  have hidle := pushData_idle c k r.data
  have hlog : (pushData c k r.data).log = c.log := hidle.log
  have hothers : ∀ j, j ≠ k → (pushData c k r.data).chan j = c.chan j := by
    intro j hj
    rw [hidle.chan]
    exact Function.update_of_ne hj ..
  rw [hdeliver]
  refine ⟨⟨by rw [hlog]; exact hin.took_le, fun j hj => ?_, fun j hj => ?_⟩, by rw [hlog]⟩
  · have hne : j ≠ k := by
      rintro rfl
      rw [hk] at hj
      cases hj
    rw [hlog, hothers j hne]
    exact hin.fifo j hj
  · by_cases hjk : j = k
    · subst hjk
      have hch : (pushData c j r.data).chan j = rxqPush (c.chan j) r.data := by
        rw [hidle.chan]
        exact Function.update_self ..
      rw [hlog, hch]
      intro m hm
      rcases List.mem_append.1 hm with hm | hm
      · exact hin.loose j hj (List.mem_append_left _ hm)
      · rcases List.mem_append.1 (rxqPush_subset _ hlen hm) with hm | hm
        · exact hin.loose j hj (List.mem_append_right _ hm)
        · rw [List.mem_singleton.1 hm]
          exact hmem
    · rw [hlog, hothers j hjk]
      exact hin.loose j hj

theorem deliverDue_inbox (h : c.Good T) (hin : Inbox T log c) {k : Nat} {data : Bytes}
    (hk : T k = some .reliable) (hlen : data.length ≤ ncMaxmsg)
    (hget : (wrote log)[took c.log]? = some (k, data)) :
    Inbox T log (deliverDue c (UInt8.ofNat k) data) ∧
      took (deliverDue c (UInt8.ofNat k) data).log =
        took c.log + if rxqFull (c.chan k) then 0 else 1 := by
  unfold deliverDue
  rw [chanById_ofNat h hk]
  dsimp only
  by_cases hfull : rxqFull (c.chan k) = true
  · rw [if_pos hfull, if_pos hfull]
    exact ⟨hin, rfl⟩
  · rw [if_neg hfull, if_neg hfull]
    have hidle := pushData_idle c k data
    have hlog : ({ pushData c k data with rxNext := c.rxNext + 1 }.mark .took).log =
        c.log ++ [.took] := by
      change (pushData c k data).log ++ [.took] = _
      rw [hidle.log]
    have htook : took ({ pushData c k data with rxNext := c.rxNext + 1 }.mark .took).log =
        took c.log + 1 := by
      rw [hlog, took_snoc_took]
    have hlt : took c.log < (wrote log).length := (List.getElem?_eq_some_iff.1 hget).1
    have hchan : ∀ j, ({ pushData c k data with rxNext := c.rxNext + 1 }.mark .took).chan j =
        Function.update c.chan k (rxqPush (c.chan k) data) j := by
      intro j
      change (pushData c k data).chan j = _
      rw [hidle.chan]
    refine ⟨⟨by rw [htook]; exact hlt, fun j hj => ?_, fun j hj => ?_⟩, htook⟩
    · rw [htook, hlog, reads_snoc_took, List.take_add_one, hget, Option.toList_some, onChan_snoc,
        ← hin.fifo j hj, hchan]
      by_cases hjk : k = j
      · rw [if_pos hjk, ← hjk, Function.update_self,
          rxqPush_queue (Bool.eq_false_iff.2 hfull) hlen, List.append_assoc]
      · rw [if_neg hjk, Function.update_of_ne (Ne.symm hjk), List.append_nil]
    · have hne : j ≠ k := by
        rintro rfl
        rw [hk] at hj
        cases hj
      rw [hlog, reads_snoc_took, hchan, Function.update_of_ne hne]
      exact hin.loose j hj

theorem deliver_inbox (h : c.Good T) (hin : Inbox T log c) (hr : r.Said T log n)
    (htyped : ∀ m ∈ wrote log, T m.1 = some .reliable)
    (hwindow : (wrote log).length ≤ took c.log + 8) (hfresh : took c.log ≤ n + 2 ^ 15) :
    Inbox T log (deliver c r.chan r.mt r.seq r.data) ∧
      took c.log ≤ took (deliver c r.chan r.mt r.seq r.data).log ∧
      took (deliver c r.chan r.mt r.seq r.data).log ≤ n + 2 ^ 15 := by
  obtain ⟨hlen, ⟨hmt, i, k, hlt, hle, hseq, hchan, hget⟩ | hloose⟩ := hr
  · have hle' : n ≤ i + 8 := hle
    have hi : i < (wrote log).length := (List.getElem?_eq_some_iff.1 hget).1
    unfold deliver
    rw [if_pos hmt]
    dsimp only
    by_cases hdue : r.seq = c.rxNext
    · rw [if_pos hdue]
      -- the window and the age of the packet leave one message with this number
      have hi' : i = took c.log := by
        rw [hseq, h.takes.next] at hdue
        exact eq_of_ofNat_eq hdue (by omega) (by omega)
      have hk : T k = some .reliable := htyped (k, r.data) (List.mem_of_getElem? hget)
      rw [hi'] at hget
      obtain ⟨hin', htook⟩ := deliverDue_inbox h hin hk hlen hget
      rw [hchan]
      refine ⟨hin'.congr rfl fun _ => rfl, ?_, ?_⟩
      · rw [htook]
        exact Nat.le_add_right _ _
      · rw [htook]
        split_ifs <;> omega
    · rw [if_neg hdue]
      exact ⟨hin.congr rfl fun _ => rfl, le_rfl, hfresh⟩
  · obtain ⟨hin', htook⟩ := deliver_loose h hin hlen hloose
    exact ⟨hin', by rw [htook], by rw [htook]; exact hfresh⟩

theorem deliver_all (h : c.Good T) (hin : Inbox T log c) (rs : List Rec)
    (hrs : ∀ r ∈ rs, r.Said T log n) (htyped : ∀ m ∈ wrote log, T m.1 = some .reliable)
    (hwindow : (wrote log).length ≤ took c.log + 8) (hfresh : took c.log ≤ n + 2 ^ 15) :
    Inbox T log (rs.foldl (fun c r => deliver c r.chan r.mt r.seq r.data) c) ∧
      took c.log ≤ took (rs.foldl (fun c r => deliver c r.chan r.mt r.seq r.data) c).log := by
  induction rs generalizing c with
  | nil => exact ⟨hin, le_rfl⟩
  | cons r rs ih =>
    obtain ⟨hin', hle, hfresh'⟩ :=
      deliver_inbox h hin (hrs r List.mem_cons_self) htyped hwindow hfresh
    obtain ⟨hgood, -⟩ := deliver_good h r.chan r.mt r.seq r.data
    obtain ⟨hin'', hle'⟩ := ih hgood hin' (fun r' hr' => hrs r' (List.mem_cons_of_mem _ hr'))
      (by omega) hfresh'
    exact ⟨hin'', hle.trans hle'⟩

end Records

/-! ## One direction -/

/-- Messages flow from `A` to `B`. -/
structure Flow (T : Layout) (A B : Netchan) (fA fB : List Flight) : Prop where
  sender : A.Good T
  receiver : B.Good T
  said : ∀ p ∈ fA, PacketSaid T A.log p.sent p.got p.pkt
  acks : ∀ p ∈ fB, PacketSaid T B.log p.sent p.got p.pkt ∧ p.got ≤ took B.log
  acked_le : acked A.log ≤ took B.log
  inbox : Inbox T A.log B

theorem PacketSaid.mono {T : Layout} {log log' : List Mark} {n g : Nat} {pkt : Bytes}
    (h : PacketSaid T log n g pkt) (hlog : log <+: log') : PacketSaid T log' n g pkt := by
  intro hdata
  obtain ⟨rid, rs, hpkt, hrs⟩ := h hdata
  exact ⟨rid, rs, hpkt, fun r hr => (hrs r hr).mono hlog⟩

theorem PacketSaid.read {T : Layout} {log : List Mark} {n g : Nat} {pkt : Bytes}
    (h : PacketSaid T log n g pkt) (hdata : pkt.getD 4 0 = pktData) (c : Netchan) :
    ∃ rs : List Rec, rd16 (pkt.drop 6) = UInt16.ofNat g ∧ (∀ r ∈ rs, r.Said T log n) ∧
      recordLoop pkt.length c (pkt.drop ncHdr) =
        rs.foldl (fun c r => deliver c r.chan r.mt r.seq r.data) c := by
  obtain ⟨rid, rs, hpkt, hrs⟩ := h hdata
  have hack : pkt.drop 6 = wr16 (UInt16.ofNat g) ++ rs.flatMap Rec.encode := by
    rw [hpkt]
    rfl
  have hbody : pkt.drop ncHdr = rs.flatMap Rec.encode := by
    rw [hpkt]
    rfl
  have hfuel : rs.length ≤ pkt.length := by
    have hle : ∀ l : List Rec, l.length ≤ (l.flatMap Rec.encode).length := by
      intro l
      induction l with
      | nil => exact Nat.zero_le _
      | cons r l ih =>
        rw [List.flatMap_cons, List.length_append, List.length_cons]
        have hpos : 1 ≤ r.encode.length := by simp [Rec.encode, record]
        omega
    have hdrop : (rs.flatMap Rec.encode).length ≤ pkt.length := by
      rw [← hbody, List.length_drop]
      exact Nat.sub_le _ _
    exact (hle rs).trans hdrop
  refine ⟨rs, by rw [hack, rd16_wr16_append], hrs, ?_⟩
  rw [hbody]
  exact recordLoop_encode rs (fun r hr => (hrs r hr).1) _ hfuel c

theorem emits_said {T : Layout} {c : Netchan} (h : c.Good T) {a : Act} {p : Flight}
    (hp : p ∈ c.emits a) :
    PacketSaid T c.log p.sent p.got p.pkt ∧ p.got = took c.log := by
  cases a with
  | sendNext buflen =>
    obtain ⟨-, -, hpkt⟩ := ncSendNext_spec h buflen
    simp only [Netchan.emits] at hp
    split at hp
    · cases hp
    · rename_i pkt addr heq
      obtain rfl := List.mem_singleton.1 hp
      exact ⟨hpkt pkt addr heq, rfl⟩
  | _ => cases hp

namespace Flow

variable {T : Layout} {A B : Netchan} {fA fB : List Flight}

theorem callSender (h : Flow T A B fA fB) {a : Act} (ha : a.isCall = true) :
    Flow T (A.step a) B (fA ++ A.emits a) fB := by
  obtain ⟨hgood, hcalled⟩ := h.sender.call ha
  refine ⟨hgood, h.receiver, fun p hp => ?_, h.acks, ?_, h.inbox.mono hcalled.log⟩
  · rcases List.mem_append.1 hp with hp | hp
    · exact (h.said p hp).mono hcalled.log
    · exact (emits_said h.sender hp).1.mono hcalled.log
  · rw [hcalled.acked]
    exact h.acked_le

theorem callReceiver (h : Flow T A B fA fB) {a : Act} (ha : a.isCall = true) :
    Flow T A (B.step a) fA (fB ++ B.emits a) := by
  obtain ⟨hgood, hcalled⟩ := h.receiver.call ha
  refine ⟨h.sender, hgood, h.said, fun p hp => ?_, ?_, h.inbox.congr hcalled.took hcalled.inbox⟩
  · rw [hcalled.took]
    rcases List.mem_append.1 hp with hp | hp
    · exact ⟨(h.acks p hp).1.mono hcalled.log, (h.acks p hp).2⟩
    · obtain ⟨hsaid, hgot⟩ := emits_said h.receiver hp
      exact ⟨hsaid.mono hcalled.log, hgot.le⟩
  · rw [hcalled.took]
    exact h.acked_le

theorem drop (h : Flow T A B fA fB) {f f' : List Flight} (hf : f ⊆ fA) (hf' : f' ⊆ fB) :
    Flow T A B f f' :=
  ⟨h.sender, h.receiver, fun p hp => h.said p (hf hp), fun p hp => h.acks p (hf' hp), h.acked_le,
    h.inbox⟩

theorem hearReceiver (h : Flow T A B fA fB) {p : Flight} (hp : p ∈ fA) (source : Option Addr)
    (hfresh : took B.log ≤ p.sent + 2 ^ 15) : Flow T A (B.step (.feed p.pkt source)) fA fB := by
  obtain ⟨hgood, hgrow, -⟩ := ncFeed_good h.receiver p.pkt source
  have hkeep : Inbox T A.log (B.step (.feed p.pkt source)) ∧
      took B.log ≤ took (B.step (.feed p.pkt source)).log := by
    rcases ncFeed_cases B p.pkt source with hi | ⟨d, hi, hdata, heq⟩
    · have hlog : (B.step (.feed p.pkt source)).log = B.log := hi.log
      have hchan : (B.step (.feed p.pkt source)).chan = B.chan := hi.chan
      exact ⟨h.inbox.congr (by rw [hlog]) fun _ => by rw [hlog, hchan], by rw [hlog]⟩
    · -- the acknowledgement concerns the other direction
      obtain ⟨hack, htaken⟩ := processAck_good (h.receiver.idle hi) (rd16 (p.pkt.drop 6))
      have htook : took (processAck d (rd16 (p.pkt.drop 6))).log = took B.log := by
        rw [htaken.took, hi.log]
      have hin : Inbox T A.log (processAck d (rd16 (p.pkt.drop 6))) :=
        h.inbox.congr htook fun k => by rw [htaken.reads, hi.log, htaken.chan, hi.chan]
      obtain ⟨rs, -, hrs, hloop⟩ :=
        (h.said p hp).read hdata (processAck d (rd16 (p.pkt.drop 6)))
      have hroom : (wrote A.log).length ≤ acked A.log + 8 := h.sender.sends.room
      have hacked := h.acked_le
      obtain ⟨hin', hle⟩ := deliver_all hack hin rs hrs
        (fun m hm => (h.sender.sends.typed m hm).1) (by omega) (by omega)
      have hstep : B.step (.feed p.pkt source) = _ := heq.trans hloop
      rw [hstep]
      exact ⟨hin', htook ▸ hle⟩
  refine ⟨h.sender, hgood, h.said, fun q hq => ?_, h.acked_le.trans hkeep.2, hkeep.1⟩
  obtain ⟨hsaid, hgot⟩ := h.acks q hq
  exact ⟨hsaid.mono hgrow, hgot.trans hkeep.2⟩

theorem hearSender (h : Flow T A B fA fB) {p : Flight} (hp : p ∈ fB) (source : Option Addr)
    (hfresh : acked A.log ≤ p.got + 2 ^ 15) : Flow T (A.step (.feed p.pkt source)) B fA fB := by
  obtain ⟨hgood, hgrow, -⟩ := ncFeed_good h.sender p.pkt source
  obtain ⟨hsaid, hgot⟩ := h.acks p hp
  have hacked : acked (A.step (.feed p.pkt source)).log ≤ took B.log := by
    rcases ncFeed_cases A p.pkt source with hi | ⟨d, hi, hdata, heq⟩
    · have hlog : (A.step (.feed p.pkt source)).log = A.log := hi.log
      rw [hlog]
      exact h.acked_le
    · obtain ⟨hack, htaken⟩ := processAck_good (h.sender.idle hi) (rd16 (p.pkt.drop 6))
      obtain ⟨rs, hnum, -, -⟩ := hsaid.read hdata A
      obtain ⟨-, hrec⟩ := recordLoop_good p.pkt.length hack (p.pkt.drop ncHdr)
      have hle := htaken.acked p.got hnum (by rw [hi.log]; exact hfresh)
        (by rw [hi.log]; exact hgot.trans h.inbox.took_le)
      have hstep : A.step (.feed p.pkt source) = _ := heq
      rw [hstep, hrec.acked]
      rw [hi.log] at hle
      exact hle.trans (max_le h.acked_le hgot)
  exact ⟨hgood, h.receiver, fun q hq => (h.said q hq).mono hgrow, h.acks, hacked,
    h.inbox.mono hgrow⟩

end Flow

theorem Joint.step_flow {T : Layout} {net : Joint} (a : Bool) (h : net.Rel a (Flow T))
    {m : Move Act (Option Addr)} (hm : net.Fresh m) : (net.step netchan m).Rel a (Flow T) := by
  have hcall : ∀ {side : Bool} {x : Act}, m = .call side x → x.isCall = true := by
    rintro side x rfl
    cases x with
    | sendNext buflen => rfl
    | _ => exact hm
  refine net.step_keeps netchan a h m (fun x hx => ?_) (fun x hx => ?_) (fun n e p hx hp => ?_)
    (fun n e p hx hp => ?_) (fun f f' hf hf' => h.drop hf hf')
  · exact h.callSender (hcall hx)
  · exact h.callReceiver (hcall hx)
  · subst hx
    simp only [Fresh, hp, Bool.not_not] at hm
    exact h.hearSender (List.mem_of_getElem? hp) e hm.2
  · subst hx
    simp only [Fresh, hp] at hm
    exact h.hearReceiver (List.mem_of_getElem? hp) e hm.1

/-! ## Sessions -/

/-- The heads of the rings are in range. -/
structure Netchan.HeadsIn (c : Netchan) : Prop where
  txu : c.txuHead < ncUnrelTxq
  rx : ∀ k, (c.chan k).rxHead < ncRecvq

/-- Nothing of an earlier session is left. -/
structure Netchan.Rested (c : Netchan) : Prop where
  txBase : c.txBase = 0
  txNext : c.txNext = 0
  txUnsent : c.txUnsent = 0
  rxNext : c.rxNext = 0
  txuCount : c.txuCount = 0
  rings : ∀ k, (c.chan k).used = true → (c.chan k).rxCount = 0

theorem Netchan.Rested.good {T : Layout} {c : Netchan} (h : c.Rested) (hheads : c.HeadsIn)
    (hlaid : c.Laid T) (hlog : c.log = []) : c.Good T where
  laid := hlaid
  sends := by
    refine ⟨?_, ?_, ⟨0, h.txUnsent, ?_, ?_⟩, ?_, ?_, ?_, ?_⟩
    · rw [h.txBase, hlog]
      rfl
    · rw [h.txNext, hlog]
      rfl
    all_goals
      rw [hlog]
      simp [acked, wrote]
  unrel := by
    refine ⟨hheads.txu, by rw [h.txuCount]; exact Nat.zero_le _, ?_⟩
    unfold Netchan.unsentUnrel
    rw [h.txuCount, Ring.queued_zero]
    exact fun m hm => absurd hm List.not_mem_nil
  takes := by
    refine ⟨?_, hheads.rx⟩
    rw [h.rxNext, hlog]
    rfl

theorem Flow.start {T : Layout} {A B : Netchan} (hA : A.Good T) (hB : B.Good T)
    (hlogA : A.log = []) (hlogB : B.log = []) (hrested : B.Rested) : Flow T A B [] [] := by
  have hqueue : ∀ {k t}, T k = some t → (B.chan k).queue = [] := by
    intro k t hk
    unfold Chan.queue
    rw [hrested.rings k (hB.laid.opened k t hk).2.1, Ring.queued_zero]
  refine ⟨hA, hB, nofun, nofun, ?_, ?_, fun k hk => ?_, fun k hk => ?_⟩
  · rw [hlogA, hlogB]
    simp [acked, took]
  · rw [hlogB]
    simp [took]
  all_goals
    rw [hlogA, hlogB, hqueue hk]
    simp [reads, wrote, onChan]

/-- The channels of a connection, opened in order. -/
def openChans (types : List ChanType) (c : Netchan) : Netchan :=
  types.foldl (fun c type => (ncChanOpen c type).1) c

def layoutOf (types : List ChanType) : Layout := fun k =>
  if k < ncMaxChan then types[k]? else none

/-- A client and a server with the same channels, before the first call. -/
def Joint.start (types : List ChanType) (r r' : Bool → UInt32) : Joint :=
  ⟨fun side => openChans types (ncOpen side (r side) (r' side)), fun _ => []⟩

theorem openChans_full {c : Netchan} (h0 : (c.chan 0).used = true) (h1 : (c.chan 1).used = true)
    (types : List ChanType) : openChans types c = c := by
  induction types with
  | nil => rfl
  | cons type types ih =>
    have hfind : (List.range ncMaxChan).find? (fun i => !(c.chan i).used) = none := by
      rw [List.find?_eq_none]
      intro i hi
      obtain rfl | rfl : i = 0 ∨ i = 1 := by
        have hlt : i < 2 := List.mem_range.1 hi
        omega
      · simp [h0]
      · simp [h1]
    have hstep : ncChanOpen c type = (c, none) := by
      unfold ncChanOpen
      rw [hfind]
    change openChans types (ncChanOpen c type).1 = c
    rw [hstep]
    exact ih

/-- The record of a channel that was just opened. -/
def Chan.opened (type : ChanType) (i : Nat) : Chan :=
  { Chan.zero with used := true, type := type, id := UInt8.ofNat i }

theorem openChans_spec (types : List ChanType) (isServer : Bool) (r r' : UInt32) :
    ∃ chan, openChans types (ncOpen isServer r r') = { ncOpen isServer r r' with chan := chan } ∧
      ∀ k, chan k = match layoutOf types k with
        | none => Chan.zero
        | some type => Chan.opened type k := by
  match types with
  | [] =>
    refine ⟨_, rfl, fun k => ?_⟩
    simp [layoutOf]
  | [type] =>
    refine ⟨Function.update (fun _ => Chan.zero) 0 (Chan.opened type 0), rfl, fun k => ?_⟩
    match k with
    | 0 => rfl
    | 1 => rfl
    | k + 2 => rfl
  | type :: type' :: types =>
    refine ⟨Function.update (Function.update (fun _ => Chan.zero) 0 (Chan.opened type 0)) 1
      (Chan.opened type' 1), ?_, fun k => ?_⟩
    · exact openChans_full rfl rfl types
    · match k with
      | 0 => rfl
      | 1 => rfl
      | k + 2 =>
        have hnone : layoutOf (type :: type' :: types) (k + 2) = none :=
          if_neg (by simp)
        rw [hnone]
        rfl

theorem openChans_rested (types : List ChanType) (isServer : Bool) (r r' : UInt32) :
    (openChans types (ncOpen isServer r r')).Rested ∧
      (openChans types (ncOpen isServer r r')).HeadsIn ∧
      (openChans types (ncOpen isServer r r')).Laid (layoutOf types) ∧
      (openChans types (ncOpen isServer r r')).log = [] := by
  obtain ⟨chan, heq, hchan⟩ := openChans_spec types isServer r r'
  have hempty : ∀ k, (chan k).rxHead = 0 ∧ (chan k).rxCount = 0 := by
    intro k
    rw [hchan k]
    split
    · exact ⟨rfl, rfl⟩
    · exact ⟨rfl, rfl⟩
  rw [heq]
  refine ⟨⟨rfl, rfl, rfl, rfl, rfl, fun k _ => (hempty k).2⟩, ⟨show 0 < 4 by decide, fun k => ?_⟩,
    ⟨fun k t ht => ?_, fun k ht => ?_⟩, rfl⟩
  · change (chan k).rxHead < 8
    rw [(hempty k).1]
    decide
  · have hlt : k < ncMaxChan := by
      by_contra hno
      rw [layoutOf, if_neg hno] at ht
      cases ht
    change k < ncMaxChan ∧ (chan k).used = true ∧ (chan k).type = t ∧ (chan k).id = UInt8.ofNat k
    rw [hchan k, ht]
    exact ⟨hlt, rfl, rfl, rfl⟩
  · change (chan k).used = false
    rw [hchan k, ht]
    rfl

/-! ## Delivery -/

/-- What a receiver has of a reliable channel: it read a beginning of what was written, and
every message that the sender forgot was read or waits in the ring. -/
def Delivers (A B : Netchan) (k : Nat) : Prop :=
  reads k B.log <+: writes k A.log ∧
    onChan k ((wrote A.log).take (acked A.log)) <+: reads k B.log ++ (B.chan k).queue

theorem onChan_isPrefix {W W' : List (Nat × Bytes)} (h : W <+: W') (k : Nat) :
    onChan k W <+: onChan k W' := h.filterMap _

theorem Flow.delivers {T : Layout} {A B : Netchan} {fA fB : List Flight} (h : Flow T A B fA fB)
    {k : Nat} (hk : T k = some .reliable) : Delivers A B k := by
  have hfifo := h.inbox.fifo k hk
  refine ⟨?_, ?_⟩
  · have hreads : reads k B.log <+: onChan k ((wrote A.log).take (took B.log)) :=
      ⟨_, hfifo⟩
    exact hreads.trans (onChan_isPrefix (List.take_prefix _ _) k)
  · rw [hfifo]
    exact onChan_isPrefix (List.take_prefix_take_left h.acked_le) k

/-- For every run of a client and a server with the same channels: each reliable channel hands
over what was written, in order. -/
theorem reliable_in_order (types : List ChanType) (r r' : Bool → UInt32) {net : Joint}
    (hrun : Reach (· = Joint.start types r r') Joint.Fresh (Net.step netchan) net) (a : Bool)
    (k : Nat) (hused : ((net.conn a).chan k).used = true)
    (hrel : ((net.conn a).chan k).type = .reliable) : Delivers (net.conn a) (net.conn !a) k := by
  have hflow : net.Rel a (Flow (layoutOf types)) := by
    refine hrun.invariant ?_ fun s m hs hm => Joint.step_flow a hs hm
    rintro s rfl
    obtain ⟨hrestA, hheadsA, hlaidA, hlogA⟩ := openChans_rested types a (r a) (r' a)
    obtain ⟨hrestB, hheadsB, hlaidB, hlogB⟩ := openChans_rested types (!a) (r !a) (r' !a)
    exact Flow.start (hrestA.good hheadsA hlaidA hlogA) (hrestB.good hheadsB hlaidB hlogB) hlogA
      hlogB hrestB
  have hk := (hflow.sender.laid.of_used hused).1
  rw [hrel] at hk
  exact hflow.delivers hk

instance (net : Joint) (m : Move Act (Option Addr)) : Decidable (net.Fresh m) :=
  match m with
  | .call _ (.sendNext _) => inferInstanceAs (Decidable (_ ≤ _))
  | .call _ (.connect _) | .call _ (.chanOpen _) | .call _ (.chanClose _) | .call _ (.write _ _)
  | .call _ (.read _ _) | .call _ .poll | .call _ (.feed _ _) | .call _ (.service _) =>
    inferInstanceAs (Decidable (_ = true))
  | .deliver side n _ =>
    match h : (net.flight side)[n]? with
    | none => isTrue (by simp [Joint.Fresh, h])
    | some p => decidable_of_iff (took (net.conn !side).log ≤ p.sent + 2 ^ 15 ∧
        acked (net.conn !side).log ≤ p.got + 2 ^ 15) (by simp [Joint.Fresh, h])
  | .drop _ _ => inferInstanceAs (Decidable True)

def peerAddr : Addr := ⟨6, [127, 0, 0, 1, 0x30, 0x39, 0, 0, 0, 0, 0, 0]⟩

/-- The handshake of a client. -/
def handshake : List (Move Act (Option Addr)) :=
  [.call false (.connect (some peerAddr)), .call false (.sendNext 546),
    .deliver false 0 (some peerAddr), .call true (.sendNext 546), .deliver true 0 none,
    .call false (.sendNext 546), .deliver false 1 none]

/-- The client writes two messages; the packet arrives twice, and one message is read. -/
def twoMessages : List (Move Act (Option Addr)) :=
  handshake ++ ([.call false (.write 0 [1]), .call false (.write 0 [2]),
    .call false (.sendNext 546), .deliver false 2 none, .deliver false 2 none,
    .call true (.read 0 532)] : List (Move Act (Option Addr)))

def twoMessagesNet : Joint :=
  Net.run netchan (Joint.start [.reliable] (fun _ => 7) fun _ => 0) twoMessages

theorem reliable_in_order_twice :
    reads 0 (twoMessagesNet.conn true).log = [[1]] ∧
      writes 0 (twoMessagesNet.conn false).log = [[1], [2]] ∧
      Delivers (twoMessagesNet.conn false) (twoMessagesNet.conn true) 0 := by
  have hrun : Guarded Joint.Fresh (Net.step netchan)
      (Joint.start [.reliable] (fun _ => 7) fun _ => 0) twoMessages ∧
      reads 0 (twoMessagesNet.conn true).log = [[1]] ∧
      writes 0 (twoMessagesNet.conn false).log = [[1], [2]] ∧
      ((twoMessagesNet.conn false).chan 0).used = true ∧
      ((twoMessagesNet.conn false).chan 0).type = .reliable := by
    decide +kernel
  obtain ⟨hguard, hreads, hwrites, hused, hrel⟩ := hrun
  have hstart : Reach (· = Joint.start [.reliable] (fun _ => 7) fun _ => 0) Joint.Fresh
      (Net.step netchan) (Joint.start [.reliable] (fun _ => 7) fun _ => 0) := .start rfl
  exact ⟨hreads, hwrites, reliable_in_order [.reliable] (fun _ => 7) (fun _ => 0)
    (hstart.run twoMessages hguard) false 0 hused hrel⟩

end MechanicalResearcher.NetchanIpx
