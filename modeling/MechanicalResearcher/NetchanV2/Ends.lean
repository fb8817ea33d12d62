import MechanicalResearcher.NetchanV2.Honest

/-!
# The two ends of a reliable channel

What holds of the sending end while the other end has counted `n` messages
(`SendEnd`), and of the receiving end while the messages `W` were written to the
other one (`RecvEnd`).  A DATA frame is a `Fragment` of one of the last 64
messages of its sender.
-/

namespace MechanicalResearcher.NetchanV2

open Lib Lib.Serial Lib.Pieces

/-- What the calls and packets of a run are held to. -/
structure Terms where
  /-- an ACK frame is only sent while `recv_seq` is not 0 -/
  acks : Prop
  /-- messages are put together from their own fragments -/
  intact : Prop
  /-- messages are read whole -/
  whole : Prop
  /-- a message that is due finds room in the receive queue -/
  room : Prop
  /-- an ACK frame is only sent while `recv_seq` is not 0 and every queued message is read -/
  drained : Prop
  whole_of_drained : drained → whole

theorem Core.Opens.chan {s s' : Core} (h : Core.Opens s s') {id : UInt8} {k : Nat}
    (hid : s'.channels id = some k) :
    (s.channels id = some k ∧ ∃ k₀ ch, s.chanUsed k₀ = false ∧ s' = s.addChan k₀ ch) ∨
      (s.channels id = none ∧ s.chanUsed k = false ∧
        (s'.chanPool k).Blank s.cfg.chanWindow ∧ s'.log = s.log) := by
  obtain ⟨k₀, ch, hfree, hnone, hblank, rfl⟩ := h
  by_cases he : id = ch.id
  · subst he
    obtain rfl : k₀ = k := by simpa [Core.addChan] using hid
    exact Or.inr ⟨hnone, hfree, by simpa [Core.addChan] using hblank, rfl⟩
  · left
    simp only [Core.addChan, Function.update_of_ne he] at hid
    exact ⟨hid, k₀, ch, hfree, rfl⟩

section Fresh

variable {s s' : Core} {k : Nat} {window : UInt32}

theorem Outbox.fresh (ht : s.Tally) (hk : s.chanUsed k = false) (hlog : s'.log = s.log)
    (hb : (s'.chanPool k).Blank window) (bound : Nat) : Outbox s' k 0 bound := by
  have hwrites : writes k s'.log = [] := hlog ▸ writes_of_other (ht.unused k hk)
  obtain ⟨id, type, dir, role, ct, state, hch⟩ := hb
  unfold Outbox
  rw [hwrites, hch]
  have hlen : outLen { Chan.fresh id type dir role ct window with state := state } = 0 :=
    show Ring.len 64 0 0 = 0 by decide
  refine ⟨rfl, by rw [hlen]; rfl, Nat.zero_le _, ?_, ?_⟩
  · rw [hlen]
    exact fun t ht => absurd ht (Nat.not_lt_zero t)
  · rw [hlen]
    exact fun t ht => absurd ht (Nat.not_lt_zero t)

theorem Delivered.fresh (ht : s.Tally) (hk : s.chanUsed k = false) (hlog : s'.log = s.log)
    (hb : (s'.chanPool k).Blank window) (P : Nat → List UInt8 → Prop) :
    Delivered P s' k (NetchanV2.advances k s'.log) := by
  have hadv : NetchanV2.advances k s'.log = 0 := hlog ▸ advances_of_other (ht.unused k hk)
  have hhand : NetchanV2.handed k s'.log = [] := hlog ▸ handed_of_other (ht.unused k hk)
  obtain ⟨id, type, dir, role, ct, state, hch⟩ := hb
  rw [hadv]
  refine ⟨⟨by rw [hch]; rfl, fun i _ hv => ?_⟩, hadv, by rw [hhand]; rfl, ?_⟩
  · rw [hch] at hv
    cases hv
  · simp [hhand]

theorem queue_fresh (ht : s.Tally) (hk : s.chanUsed k = false) (hlog : s'.log = s.log) :
    taken k s'.log = [] ∧ reads k s'.log = [] ∧ handed k s'.log = [] := by
  have hother := ht.unused k hk
  have hhand : handed k s'.log = [] := hlog ▸ handed_of_other hother
  refine ⟨?_, ?_, hhand⟩
  · exact List.eq_nil_of_sublist_nil (hhand ▸ taken_sublist_handed k s'.log)
  · rw [hlog]
    simp only [reads, List.filterMap_eq_nil_iff]
    intro m hm
    cases m with
    | read j data => exact if_neg (hother _ hm)
    | _ => rfl

theorem Inbox.fresh (ht : s.Tally) (hk : s.chanUsed k = false) (hlog : s'.log = s.log)
    (hb : (s'.chanPool k).Blank window) : Inbox s' k := by
  obtain ⟨htaken, hreads, -⟩ := queue_fresh ht hk hlog
  obtain ⟨id, type, dir, role, ct, state, hch⟩ := hb
  have hhead : (s'.chanPool k).rqHead = 0 := by rw [hch]; rfl
  have htail : (s'.chanPool k).rqTail = 0 := by rw [hch]; rfl
  have hmsgs : queueMsgs s' k = [] := by
    simp [queueMsgs, hhead, htail, Ring.contents, Ring.len]
  refine ⟨by rw [htaken, hreads, hmsgs]; rfl, ?_⟩
  rw [hmsgs, hch]
  rfl

end Fresh

/-- The other end has counted `n` messages; the slots of messages before `bound` may be
released, where `P` says what the other end did before it acknowledged them. -/
def SendEnd (n : Nat) (P : Nat → Prop) (s : Core) (k : Nat) : Prop :=
  ∃ base bound, Outbox s k base bound ∧ bound ≤ n + 1 ∧ P bound

namespace SendEnd

variable {n : Nat} {P P' : Nat → Prop} {s s' : Core} {k : Nat}

theorem mono (h : SendEnd n P s k) {n' : Nat} (hn : n ≤ n') (hP : ∀ b, P b → P' b) :
    SendEnd n' P' s k := by
  obtain ⟨base, bound, hout, hb, hbound⟩ := h
  exact ⟨base, bound, hout, by omega, hP bound hbound⟩

theorem sendKept (h : SendEnd n P s k) (hinv : s.Inv) (hk : s.chanUsed k = true)
    (hcfg : s'.cfg = s.cfg) (hkept : SendKept k s s') : SendEnd n P s' k := by
  obtain ⟨base, bound, hout, hb⟩ := h
  exact ⟨base, bound, hout.sendKept hinv hk hcfg hkept, hb⟩

theorem write (h : SendEnd n P s k) (hgood : s.Good) (hk : s.chanUsed k = true)
    (hfp : 64 ≤ maxFragPayload s.cfg) (data : List UInt8) :
    SendEnd n P (chanWrite s k data).1 k := by
  obtain ⟨base, bound, hout, hb⟩ := h
  exact ⟨base, bound, hout.write hgood hk hfp data, hb⟩

theorem length_le (h : SendEnd n P s k) (hinv : s.Inv) (hk : s.chanUsed k = true) :
    (writes k s.log).length ≤ n + 64 := by
  obtain ⟨base, bound, hout, hb, -⟩ := h
  have hcount := hout.count
  have hbase := hout.base_le
  have hring := (hinv.chans k hk).out
  have hlen : outLen (s.chanPool k) < 64 := Ring.len_lt hring.head_lt hring.tail_lt
  omega

theorem ack (h : SendEnd n P s k) (hgood : s.Good) (hk : s.chanUsed k = true) {a g : Nat}
    (hcons : n ≤ (writes k s.log).length) (hga : g ≤ a + 1) (hag : a ≤ g) (hgn : g ≤ n)
    (hP : P (a + 1)) (hfresh : (writes k s.log).length < g + 2 ^ 15) :
    SendEnd n P
      (advanceHead ((List.range ncOutgoingSlots).foldl (ackSlot k (UInt16.ofNat a)) s) k) k := by
  obtain ⟨base, bound, hout, hb, hbound⟩ := h
  have hcount := hout.count
  have hring := (hgood.inv.chans k hk).out
  have hlen : outLen (s.chanPool k) < 64 := Ring.len_lt hring.head_lt hring.tail_lt
  have hout' : Outbox s k base (max bound (a + 1)) := OutRing.mono hout (Nat.le_max_left _ _)
  obtain ⟨base', -, hack⟩ := hout'.ack hgood hk (a := a) (by omega) (by omega) (by omega)
  refine ⟨base', _, hack, by omega, ?_⟩
  rcases Nat.le_total bound (a + 1) with hle | hle
  · rwa [Nat.max_eq_right hle]
  · rwa [Nat.max_eq_left hle]

end SendEnd

/-- Message `j` of `W` has number `seq` and is one of the last 64 of the first `n`. -/
structure Numbered (W : List (List UInt8)) (n : Nat) (seq : UInt16) (j : Nat)
    (msg : List UInt8) : Prop where
  msg : W[j]? = some msg
  lt : j < n
  recent : n ≤ j + 64
  seq : seq = UInt16.ofNat j

theorem Numbered.unique {W : List (List UInt8)} {n j j' : Nat} {seq : UInt16}
    {msg msg' : List UInt8} (h : Numbered W n seq j msg) (h' : Numbered W n seq j' msg') :
    msg' = msg := by
  obtain ⟨hmsg, hlt, hrec, hseq⟩ := h
  obtain ⟨hmsg', hlt', hrec', hseq'⟩ := h'
  obtain rfl : j' = j := eq_of_ofNat_eq (hseq'.symm.trans hseq) (by omega) (by omega)
  rw [hmsg] at hmsg'
  exact (Option.some.inj hmsg').symm

/-- A DATA frame with a fragment of message `j`. -/
structure Fragment (fp : Nat) (W : List (List UInt8)) (n : Nat) (d : DataFrame) (j : Nat)
    (msg : List UInt8) : Prop where
  num : Numbered W n d.seq j msg
  idx : d.fragIdx.toNat < d.fragTotal.toNat
  cut : Cut fp d.fragTotal.toNat msg
  len_le : msg.length ≤ ncMaxMsg
  payload : d.payload = piece fp msg d.fragIdx.toNat

/-- The slot that the frame completes holds fragments of the frame's own message. -/
def SlotPure (W : List (List UInt8)) (n : Nat) (s : Core) (k : Nat) (d : DataFrame) : Prop :=
  ∀ i, Completes s k d.seq d.fragIdx.toNat d.payload.length i →
    ∃ j msg, Numbered W n d.seq j msg ∧ Holds s ((s.chanPool k).frags i) msg

/-- A message that is due when the frame arrives finds room. -/
def DueFits (s : Core) (k : Nat) (d : DataFrame) : Prop :=
  Brings s k d.seq d.fragIdx.toNat d.fragTotal.toNat d.payload.length →
    d.seq = (s.chanPool k).recvSeq → RoomFor s k

/-- `data` is what was written as message `j`, or, where messages may get mixed up, there is
a message `j`. -/
def Sent (T : Terms) (W : List (List UInt8)) (j : Nat) (data : List UInt8) : Prop :=
  j < W.length ∧ (T.intact → W[j]? = some data)

/-- The messages `W` were written to the other end. -/
structure RecvEnd (T : Terms) (W : List (List UInt8)) (s : Core) (k : Nat) : Prop where
  delivered : Delivered (Sent T W) s k (advances k s.log)
  inbox : T.whole → Inbox s k
  taken : T.room → AllTaken s k

namespace RecvEnd

variable {T : Terms} {W : List (List UInt8)} {s s' : Core} {k : Nat}

theorem fresh (ht : s.Tally) (hk : s.chanUsed k = false) (hlog : s'.log = s.log)
    {window : UInt32} (hb : (s'.chanPool k).Blank window) : RecvEnd T W s' k := by
  obtain ⟨htaken, -, hhand⟩ := queue_fresh ht hk hlog
  exact ⟨Delivered.fresh ht hk hlog hb _, fun _ => Inbox.fresh ht hk hlog hb,
    fun _ => htaken.trans hhand.symm⟩

theorem mono (h : RecvEnd T W s k) {W' : List (List UInt8)} (hW : W <+: W') :
    RecvEnd T W' s k := by
  refine ⟨h.delivered.mono fun j d hd => ?_, h.inbox, h.taken⟩
  obtain ⟨rest, rfl⟩ := hW
  refine ⟨by rw [List.length_append]; exact Nat.lt_add_right _ hd.1, fun ht => ?_⟩
  rw [List.getElem?_append_left hd.1]
  exact hd.2 ht

theorem recvKept (h : RecvEnd T W s k) (hinv : s.Inv) (hk : s.chanUsed k = true)
    (hkept : RecvKept k s s') : RecvEnd T W s' k := by
  obtain ⟨ms, hlog, hadv, hhand⟩ := hkept.log_eq
  obtain ⟨ms', hlog', htaken, -⟩ := hkept.queue_log
  obtain rfl : ms = ms' := List.append_cancel_left (hlog.symm.trans hlog')
  have hdel := h.delivered.recvKept hinv hk hkept
  refine ⟨hdel.advances.symm ▸ hdel, fun ht => (h.inbox ht).recvKept hinv hk hkept, fun ht => ?_⟩
  exact (h.taken ht).keep hlog (htaken.trans hhand.symm)

theorem read (h : RecvEnd T W s k) (hinv : s.Inv) (hk : s.chanUsed k = true) {buflen : Nat}
    (hlen : T.whole → ((s.chanPool k).recvQueue (s.chanPool k).rqHead).len ≤ buflen) :
    RecvEnd T W (chanRead s k buflen).1 k := by
  have hdel := h.delivered.read hinv hk buflen
  refine ⟨hdel.advances.symm ▸ hdel, fun ht => (h.inbox ht).read hinv hk (hlen ht), fun ht => ?_⟩
  rcases chanRead_cases s k buflen with ⟨r, heq⟩ | ⟨-, -, e, data, -, -, heq⟩
  · rw [heq]
    exact h.taken ht
  · rw [heq]
    have hlog : (((poolPut s e.buf).modChan k fun ch => ch.dequeued (min e.len buflen)).mark
        (.read k data)).log = s.log ++ [.read k data] := by
      cases e.buf <;> rfl
    exact (h.taken ht).keep hlog rfl

theorem advances_le (h : RecvEnd T W s k) : advances k s.log ≤ W.length := by
  rcases Nat.eq_zero_or_pos (advances k s.log) with h0 | hpos
  · rw [h0]
    exact Nat.zero_le _
  · have hlen := h.delivered.length
    have hlast : (handed k s.log)[advances k s.log - 1]? =
        some ((handed k s.log).get ⟨advances k s.log - 1, by omega⟩) :=
      List.getElem?_eq_getElem _
    have hlt := (h.delivered.handed _ _ hlast).1
    omega

theorem data {c : Conn} (h : RecvEnd T W c.toCore k) {fp : Nat} (hon : c.Honest fp)
    (hk : c.chanUsed k = true) {d : DataFrame} {n j : Nat} {msg : List UInt8}
    (hf : Fragment fp W n d j msg) (hL : W.length ≤ advances k c.log + 64)
    (hfresh : advances k c.log < n + 2 ^ 15)
    (hpure : T.intact → SlotPure W n c.toCore k d) (hroom : T.room → DueFits c.toCore k d) :
    RecvEnd T W
      (acceptDataReliable c k d.seq d.fragIdx.toNat d.fragTotal.toNat d.payload).toCore k := by
  obtain ⟨hmsg, hlt, hrec, hseq⟩ := hf.num
  have hjW : j < W.length := (List.getElem?_eq_some_iff.1 hmsg).1
  have hplen : d.payload.length ≤ fp := by
    rw [hf.payload, length_piece]
    exact Nat.min_le_left _ _
  have hfits : 1 < d.fragTotal.toNat →
      FragFits c.toCore k d.seq d.fragIdx.toNat d.payload.length := by
    intro _
    refine fragFits_of_small hon.good.inv hk ?_ _ _ ?_
    · rw [hon.size]
      exact hon.small k hk
    · rw [hon.size]
      exact hplen
  have hcompleted : T.intact → ∀ data, completed c.toCore k d.seq d.fragIdx.toNat
      d.fragTotal.toNat d.payload = some data → data = msg := by
    intro ht data hdata
    rcases Nat.lt_or_ge 1 d.fragTotal.toNat with hmany | hone
    · refine completed_eq hon.good.inv hk hmany (fun i hi => ?_) (hon.size ▸ hf.payload) hdata
      obtain ⟨j', msg', hnum, hholds⟩ := hpure ht i hi
      rwa [hf.num.unique hnum] at hholds
    · have hidx := hf.idx
      have htotal : d.fragTotal.toNat = 1 := by omega
      have hzero : d.fragIdx.toNat = 0 := by omega
      have hhi := hf.cut.hi
      simp only [completed, hone, if_true, Option.some.injEq] at hdata
      rw [← hdata, hf.payload, hzero, piece, Nat.zero_mul, List.drop_zero]
      rw [htotal, Nat.one_mul] at hhi
      exact List.take_of_length_le hhi
  have hdel : ∃ n', advances k c.log ≤ n' ∧ Delivered (Sent T W) (acceptDataReliable c k d.seq
      d.fragIdx.toNat d.fragTotal.toNat d.payload).toCore k n' := by
    rw [hseq] at hfits hcompleted ⊢
    refine acceptDataReliable_message h.delivered hon.good hk _ _ _ (fun data hdata => ?_)
      (by omega) (by omega) hfits
    exact ⟨hjW, fun ht => by rw [hcompleted ht data hdata]; exact hmsg⟩
  obtain ⟨n', -, hdel⟩ := hdel
  refine ⟨hdel.advances.symm ▸ hdel, fun ht => ?_, fun ht => ?_⟩
  · exact acceptDataReliable_inbox (h.inbox ht) hon.good hk _ _ _ _ hfits
  · refine acceptDataReliable_allTaken (h.taken ht) hon.good hk _ _ _ _ (fun data hdata => ?_)
      (hroom ht)
    rcases Nat.lt_or_ge 1 d.fragTotal.toNat with hmany | hone
    · exact completed_length hmany (hfits hmany) hdata
    · obtain rfl : d.payload = data := by simpa [completed, hone] using hdata
      rw [hf.payload, length_piece]
      have hmsg := hf.len_le
      omega

end RecvEnd

end MechanicalResearcher.NetchanV2
