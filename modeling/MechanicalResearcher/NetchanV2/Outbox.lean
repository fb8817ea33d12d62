import MechanicalResearcher.NetchanV2.Fragments

/-!
# The outgoing ring

The send ring of a reliable channel holds the last messages that were written,
in order.  `OutRing W store fp ch base bound` says that the ring of `ch` holds
message `base` and the following ones of `W`, except for messages below `bound`
that were already released.  Writing appends a message; an ACK frame for index
`a < bound` releases messages up to `a`.
-/

namespace MechanicalResearcher.NetchanV2

open Lib Lib.Serial Lib.Pieces

/-- The messages `netchan_chan_write` accepted for channel record `k`. -/
def writes (k : Nat) (log : List Mark) : List (List UInt8) :=
  log.filterMap fun
    | .write j data => if j = k then some data else none
    | _ => none

@[simp] theorem writes_append (k : Nat) (l l' : List Mark) :
    writes k (l ++ l') = writes k l ++ writes k l' := by
  simp [writes]

theorem writes_of_other {k : Nat} {l : List Mark} (h : ∀ m ∈ l, m.chan ≠ k) :
    writes k l = [] := by
  simp only [writes, List.filterMap_eq_nil_iff]
  intro m hm
  cases m with
  | write j data => exact if_neg (h _ hm)
  | _ => rfl

theorem SendKept.writes_eq {k : Nat} {s s' : Core} (h : SendKept k s s') :
    writes k s'.log = writes k s.log := by
  obtain ⟨ms, hlog, hms⟩ := h.log
  have hnone : writes k ms = [] := by
    simp only [writes, List.filterMap_eq_nil_iff]
    intro m hm
    cases m with
    | write j data => exact if_neg (hms _ hm rfl)
    | _ => rfl
  rw [hlog, writes_append, hnone, List.append_nil]

theorem fragCount_cut {cfg : Cfg} (hfp : 9 ≤ maxFragPayload cfg) {data : List UInt8}
    (hpos : 0 < data.length) (hlen : data.length ≤ ncMaxMsg) :
    Cut (maxFragPayload cfg) (fragCount cfg data.length) data := by
  generalize hsize : maxFragPayload cfg = size at hfp
  generalize hq : (data.length + size - 1) / size = q
  have hmax : ncMaxMsg = 2048 := rfl
  have hlo : q * size ≤ data.length + size - 1 := hq ▸ Nat.div_mul_le_self _ _
  have hhi : data.length + size - 1 < (q + 1) * size := by
    have hdiv := Nat.lt_mul_div_succ (data.length + size - 1) (show 0 < size by omega)
    rwa [hq, Nat.mul_comm] at hdiv
  have hq1 : 0 < q := by
    rw [← hq]
    exact Nat.div_pos (by omega) (by omega)
  have hq256 : q < 256 := by
    rw [← hq, Nat.div_lt_iff_lt_mul (by omega)]
    omega
  have hcount : fragCount cfg data.length = q := by
    simp only [fragCount, hsize, hq]
    rw [Nat.mod_eq_of_lt hq256, if_neg (by omega)]
  rw [hcount]
  refine ⟨hq1, ?_, ?_⟩
  · obtain ⟨p, rfl⟩ : ∃ p, q = p + 1 := ⟨q - 1, by omega⟩
    rw [Nat.succ_mul] at hlo
    simp only [Nat.add_sub_cancel]
    omega
  · rw [Nat.succ_mul] at hhi
    omega

theorem fragCount_le {cfg : Cfg} (hfp : 64 ≤ maxFragPayload cfg) {data : List UInt8}
    (hpos : 0 < data.length) (hlen : data.length ≤ ncMaxMsg) :
    fragCount cfg data.length ≤ ncMaxFrags := by
  have hlo := (fragCount_cut (show 9 ≤ maxFragPayload cfg by omega) hpos hlen).lo
  have hmax : ncMaxMsg = 2048 := rfl
  by_contra hmany
  have h32 : 32 * 64 ≤ (fragCount cfg data.length - 1) * maxFragPayload cfg := by
    apply Nat.mul_le_mul
    · simp only [ncMaxFrags] at hmany
      omega
    · exact hfp
  omega

/-- The slot carries message `j` of `W`. -/
structure Carries (W : List (List UInt8)) (store : Nat → UInt8) (fp : Nat) (o : Outgoing)
    (j : Nat) (d : List UInt8) : Prop where
  msg : W[j]? = some d
  seq : o.seq = UInt16.ofNat j
  len : o.len = d.length
  len_le : d.length ≤ ncMaxMsg
  cut : Cut fp o.fragTotal d
  few : o.fragTotal ≤ ncMaxFrags
  bytes : Memory.read store (poolPtr o.buf) o.len = d

/-- The number of messages in the ring, released or not. -/
def outLen (ch : Chan) : Nat := Ring.len ncOutgoingSlots ch.outHead ch.outTail

/-- The `t`-th slot of the ring. -/
def outSlot (ch : Chan) (t : Nat) : Outgoing := ch.outgoing ((ch.outHead + t) % ncOutgoingSlots)

structure OutRing (W : List (List UInt8)) (store : Nat → UInt8) (fp : Nat) (ch : Chan)
    (base bound : Nat) : Prop where
  seq : ch.sendSeq = UInt16.ofNat W.length
  count : base + outLen ch = W.length
  base_le : base ≤ bound
  held : ∀ t < outLen ch, (outSlot ch t).active = true →
    ∃ d, Carries W store fp (outSlot ch t) (base + t) d
  freed : ∀ t < outLen ch, (outSlot ch t).active = false → base + t < bound

namespace OutRing

variable {W : List (List UInt8)} {store : Nat → UInt8} {fp base bound : Nat} {ch : Chan}

theorem mono (h : OutRing W store fp ch base bound) {bound' : Nat} (hb : bound ≤ bound') :
    OutRing W store fp ch base bound' :=
  ⟨h.seq, h.count, h.base_le.trans hb, h.held, fun t ht hf => (h.freed t ht hf).trans_le hb⟩

theorem pop (h : OutRing W store fp ch base bound) (hinv : OutInv ch.outgoing ch.outHead ch.outTail)
    (hne : ch.outHead ≠ ch.outTail) (hidle : (ch.outgoing ch.outHead).active = false) :
    OutRing W store fp { ch with outHead := (ch.outHead + 1) % ncOutgoingSlots } (base + 1)
      bound := by
  have hlen := Ring.len_pop hinv.head_lt hinv.tail_lt hne
  have hcount := h.count
  have hfirst := h.freed 0 (by unfold outLen; simp only [ncOutgoingSlots]; omega) (by
    rw [outSlot, Nat.add_zero, Nat.mod_eq_of_lt hinv.head_lt]
    exact hidle)
  have hslot : ∀ t, outSlot { ch with outHead := (ch.outHead + 1) % ncOutgoingSlots } t =
      outSlot ch (t + 1) := by
    intro t
    simp only [outSlot, Ring.cell_next]
  have hlt : ∀ t, t < outLen { ch with outHead := (ch.outHead + 1) % ncOutgoingSlots } →
      t + 1 < outLen ch := by
    intro t ht
    simp only [outLen, ncOutgoingSlots] at ht ⊢
    omega
  refine ⟨h.seq, ?_, by omega, fun t ht hact => ?_, fun t ht hfree => ?_⟩
  · simp only [outLen, ncOutgoingSlots] at hcount ⊢
    omega
  · rw [hslot] at hact ⊢
    rw [Nat.add_right_comm, Nat.add_assoc]
    exact h.held (t + 1) (hlt t ht) hact
  · rw [hslot] at hfree
    have := h.freed (t + 1) (hlt t ht) hfree
    omega

theorem advance (fuel : Nat) (h : OutRing W store fp ch base bound)
    (hinv : OutInv ch.outgoing ch.outHead ch.outTail) :
    ∃ base', base ≤ base' ∧ OutRing W store fp (advanceHeadLoop fuel ch) base' bound := by
  induction fuel generalizing ch base with
  | zero => exact ⟨base, le_rfl, h⟩
  | succ fuel ih =>
    unfold advanceHeadLoop
    split_ifs with hcond
    · obtain ⟨base', hle, h'⟩ := ih (h.pop hinv hcond.1 hcond.2) (hinv.pop hcond.1 hcond.2)
      exact ⟨base', by omega, h'⟩
    · exact ⟨base, le_rfl, h⟩

theorem push (h : OutRing W store fp ch base bound) 
    (hinv : OutInv ch.outgoing ch.outHead ch.outTail)
    (hroom : (ch.outTail + 1) % ncOutgoingSlots ≠ ch.outHead) {data : List UInt8}
    (hlen : data.length ≤ ncMaxMsg) {n : Nat} (hcut : Cut fp n data) (hfew : n ≤ ncMaxFrags)
    {b : Nat} {store' : Nat → UInt8}
    (hstore : ∀ i < 64, (ch.outgoing i).active = true →
      Memory.read store' (poolPtr (ch.outgoing i).buf) (ch.outgoing i).len =
        Memory.read store (poolPtr (ch.outgoing i).buf) (ch.outgoing i).len)
    (hnew : Memory.read store' (poolPtr (some b)) data.length = data) :
    OutRing (W ++ [data]) store' fp (ch.queued b data.length n) base bound := by
  have hlen' : outLen (ch.queued b data.length n) = outLen ch + 1 :=
    Ring.len_push hinv.head_lt hinv.tail_lt hroom
  have hcount := h.count
  have hold : ∀ t < outLen ch, outSlot (ch.queued b data.length n) t = outSlot ch t := by
    intro t ht
    have hcell := Ring.cell_ne_tail hinv.head_lt hinv.tail_lt ht
    simp only [outSlot, Chan.queued, ncOutgoingSlots, Function.update_of_ne hcell]
  have hlast : outSlot (ch.queued b data.length n) (outLen ch) =
      ⟨ch.sendSeq, some b, data.length, 0, 0, 0, n, true⟩ := by
    have hcell := Ring.add_len hinv.head_lt hinv.tail_lt
    simp only [outSlot, Chan.queued, outLen, ncOutgoingSlots, hcell, Function.update_self]
  refine ⟨?_, ?_, h.base_le, fun t ht hact => ?_, fun t ht hfree => ?_⟩
  · simp only [Chan.queued, h.seq, ofNat_add_one, List.length_append, List.length_singleton]
  · rw [hlen', List.length_append, List.length_singleton]
    omega
  · rcases Nat.lt_or_ge t (outLen ch) with hlt | hge
    · rw [hold t hlt] at hact ⊢
      obtain ⟨d, hd⟩ := h.held t hlt hact
      refine ⟨d, ?_, hd.seq, hd.len, hd.len_le, hd.cut, hd.few, ?_⟩
      · rw [List.getElem?_append_left (List.getElem?_eq_some_iff.1 hd.msg).1]
        exact hd.msg
      · exact (hstore _ (Nat.mod_lt _ (by decide)) hact).trans hd.bytes
    · have htop : t = outLen ch := by omega
      subst htop
      rw [hlast]
      refine ⟨data, ?_, ?_, rfl, hlen, hcut, hfew, hnew⟩
      · rw [hcount, List.getElem?_concat_length]
      · rw [h.seq, hcount]
  · rcases Nat.lt_or_ge t (outLen ch) with hlt | hge
    · rw [hold t hlt] at hfree
      exact h.freed t hlt hfree
    · have htop : t = outLen ch := by omega
      subst htop
      rw [hlast] at hfree
      cases hfree

theorem release (h : OutRing W store fp ch base bound) {ch' : Chan}
    (hseq : ch'.sendSeq = ch.sendSeq) (hhead : ch'.outHead = ch.outHead)
    (htail : ch'.outTail = ch.outTail)
    (hslots : ∀ t < outLen ch, outSlot ch' t = outSlot ch t ∨
      (outSlot ch' t).active = false ∧ base + t < bound) :
    OutRing W store fp ch' base bound := by
  have hlen : outLen ch' = outLen ch := by unfold outLen; rw [hhead, htail]
  refine ⟨hseq.trans h.seq, hlen ▸ h.count, h.base_le, ?_, ?_⟩
  · rw [hlen]
    intro t ht hact
    rcases hslots t ht with heq | ⟨hfree, -⟩
    · rw [heq] at hact ⊢
      exact h.held t ht hact
    · rw [hfree] at hact
      cases hact
  · rw [hlen]
    intro t ht hfree
    rcases hslots t ht with heq | ⟨-, hlt⟩
    · rw [heq] at hfree
      exact h.freed t ht hfree
    · exact hlt

end OutRing

/-- `process_ack` releases the slot. -/
def Outgoing.ackedBy (o : Outgoing) (ackedSeq : UInt16) : Prop :=
  o.active = true ∧ int16 (o.seq - ackedSeq) ≤ 0

instance (o : Outgoing) (ackedSeq : UInt16) : Decidable (o.ackedBy ackedSeq) :=
  inferInstanceAs (Decidable (_ ∧ _))

theorem ackSlot_outgoing (k : Nat) (ackedSeq : UInt16) (s : Core) (i p : Nat) :
    ((ackSlot k ackedSeq s i).chanPool k).outgoing p =
      if p = i ∧ ((s.chanPool k).outgoing p).ackedBy ackedSeq then
        ((s.chanPool k).outgoing p).freed
      else (s.chanPool k).outgoing p := by
  have hcond : (((s.chanPool k).outgoing i).active = true ∧
      int16 (((s.chanPool k).outgoing i).seq - ackedSeq) ≤ 0) ↔
      ((s.chanPool k).outgoing i).ackedBy ackedSeq := Iff.rfl
  simp only [ackSlot, hcond]
  by_cases hack : ((s.chanPool k).outgoing i).ackedBy ackedSeq
  · rw [if_pos hack]
    by_cases hpi : p = i
    · subst hpi
      rw [if_pos ⟨rfl, hack⟩]
      simp [Core.modChan, Outgoing.freed]
    · rw [if_neg fun e => hpi e.1]
      simp [Core.modChan, poolPut_chanPool, Function.update_of_ne hpi]
  · rw [if_neg hack, if_neg]
    rintro ⟨rfl, h⟩
    exact hack h

theorem ackSlot_frame (k : Nat) (ackedSeq : UInt16) (s : Core) (i : Nat) :
    ((ackSlot k ackedSeq s i).chanPool k).sendSeq = (s.chanPool k).sendSeq ∧
      ((ackSlot k ackedSeq s i).chanPool k).outHead = (s.chanPool k).outHead ∧
      ((ackSlot k ackedSeq s i).chanPool k).outTail = (s.chanPool k).outTail ∧
      (ackSlot k ackedSeq s i).poolStore = s.poolStore ∧
      (ackSlot k ackedSeq s i).log = s.log := by
  simp only [ackSlot]
  split_ifs
  · cases ((s.chanPool k).outgoing i).buf <;> simp [Core.modChan, poolPut]
  · exact ⟨rfl, rfl, rfl, rfl, rfl⟩

theorem foldl_ackSlot_frame (k : Nat) (ackedSeq : UInt16) (is : List Nat) (s : Core) :
    ((is.foldl (ackSlot k ackedSeq) s).chanPool k).sendSeq = (s.chanPool k).sendSeq ∧
      ((is.foldl (ackSlot k ackedSeq) s).chanPool k).outHead = (s.chanPool k).outHead ∧
      ((is.foldl (ackSlot k ackedSeq) s).chanPool k).outTail = (s.chanPool k).outTail ∧
      (is.foldl (ackSlot k ackedSeq) s).poolStore = s.poolStore ∧
      (is.foldl (ackSlot k ackedSeq) s).log = s.log := by
  induction is generalizing s with
  | nil => exact ⟨rfl, rfl, rfl, rfl, rfl⟩
  | cons i is ih =>
    obtain ⟨h1, h2, h3, h4, h5⟩ := ackSlot_frame k ackedSeq s i
    obtain ⟨g1, g2, g3, g4, g5⟩ := ih (ackSlot k ackedSeq s i)
    exact ⟨g1.trans h1, g2.trans h2, g3.trans h3, g4.trans h4, g5.trans h5⟩

theorem foldl_ackSlot_outgoing (k : Nat) (ackedSeq : UInt16) (is : List Nat) (s : Core) (p : Nat) :
    ((is.foldl (ackSlot k ackedSeq) s).chanPool k).outgoing p =
      if p ∈ is ∧ ((s.chanPool k).outgoing p).ackedBy ackedSeq then
        ((s.chanPool k).outgoing p).freed
      else (s.chanPool k).outgoing p := by
  induction is generalizing s with
  | nil => simp
  | cons i is ih =>
    rw [List.foldl_cons, ih, ackSlot_outgoing]
    by_cases hack : ((s.chanPool k).outgoing p).ackedBy ackedSeq
    · by_cases hpi : p = i
      · have hfree : ¬((s.chanPool k).outgoing p).freed.ackedBy ackedSeq := by
          simp [Outgoing.ackedBy, Outgoing.freed]
        simp [hpi ▸ hack, hpi, hpi ▸ hfree]
      · simp [hack, hpi]
    · simp [hack]

/-- The ring of channel record `k`. -/
def Outbox (s : Core) (k base bound : Nat) : Prop :=
  OutRing (writes k s.log) s.poolStore (maxFragPayload s.cfg) (s.chanPool k) base bound

namespace Outbox

variable {s s' : Core} {k base bound : Nat}

theorem sendKept (h : Outbox s k base bound) (hinv : s.Inv) (hk : s.chanUsed k = true)
    (hcfg : s'.cfg = s.cfg) (hkept : SendKept k s s') : Outbox s' k base bound := by
  have hhalf := hkept.half
  simp only [Chan.sendHalf, SendHalf.mk.injEq] at hhalf
  obtain ⟨hseq, hhead, htail, hout⟩ := hhalf
  have hlen : outLen (s'.chanPool k) = outLen (s.chanPool k) := by
    unfold outLen
    rw [hhead, htail]
  have hmsg : ∀ t, (outSlot (s'.chanPool k) t).msg = (outSlot (s.chanPool k) t).msg := by
    intro t
    unfold outSlot
    rw [hhead]
    exact congrFun hout _
  have hactive : ∀ t, (outSlot (s'.chanPool k) t).active = (outSlot (s.chanPool k) t).active :=
    fun t => congrArg OutMsg.active (hmsg t)
  unfold Outbox
  rw [hkept.writes_eq, hcfg]
  refine ⟨hseq.trans h.seq, by rw [hlen]; exact h.count, h.base_le, ?_, ?_⟩
  · rw [hlen]
    intro t ht hact
    rw [hactive] at hact
    obtain ⟨d, hd⟩ := h.held t ht hact
    have hm := hmsg t
    simp only [Outgoing.msg, OutMsg.mk.injEq] at hm
    obtain ⟨m1, m2, m3, m4, -⟩ := hm
    refine ⟨d, hd.msg, m1.trans hd.seq, m3.trans hd.len, hd.len_le, m4 ▸ hd.cut, m4 ▸ hd.few, ?_⟩
    rw [m2, m3, ← hd.bytes]
    -- the buffer of the slot was not written to
    have hslot : (((s.chanPool k).outHead + t) % ncOutgoingSlots) < 64 := Nat.mod_lt _ (by decide)
    obtain ⟨⟨b, hb⟩, hle⟩ := (hinv.chans k hk).out.busy _ hslot hact
    have hbuf : s.bufAt (.slot k (.outgoing (((s.chanPool k).outHead + t) % ncOutgoingSlots))) =
        some b := by
      simp only [outSlot] at hact
      simp [Core.bufAt, Chan.bufAt, hk, hact, hb, hslot]
    have hbytes := hkept.keeps.bytes (x := .outgoing (((s.chanPool k).outHead + t) %
      ncOutgoingSlots)) ⟨rfl, rfl⟩ hbuf hle
    rw [show (outSlot (s.chanPool k) t).buf = some b from hb]
    exact hbytes
  · rw [hlen]
    intro t ht hfree
    rw [hactive] at hfree
    exact h.freed t ht hfree

theorem write (h : Outbox s k base bound) (hgood : s.Good) (hk : s.chanUsed k = true)
    (hfp : 64 ≤ maxFragPayload s.cfg) (data : List UInt8) :
    Outbox (chanWrite s k data).1 k base bound := by
  have hinv := hgood.inv
  have hout := (hinv.chans k hk).out
  have hkeep := chanWrite_keeps hinv hk data
  rcases chanWrite_cases s k data with ⟨r, heq⟩ | ⟨hcan, htoo, -⟩ | ⟨hcan, -, heq⟩
  · rwa [heq]
  · obtain ⟨-, -, hpos, hlen, -⟩ := hcan
    exact absurd (fragCount_le hfp hpos hlen) (Nat.not_le.2 htoo)
  · obtain ⟨-, -, hpos, hlen, -, hroom, htop⟩ := hcan
    have hfew := fragCount_le hfp hpos hlen
    have hcut := fragCount_cut (show 9 ≤ maxFragPayload s.cfg by omega) hpos hlen
    rw [heq] at hkeep ⊢
    unfold Outbox
    have hwrites : writes k ((s.takeInto k data fun b ch =>
        ch.queued b data.length (fragCount s.cfg data.length)).mark (.write k data)).log =
        writes k s.log ++ [data] := by
      simp [Core.mark, Core.takeInto, writes]
    have hchan : ((s.takeInto k data fun b ch =>
        ch.queued b data.length (fragCount s.cfg data.length)).mark (.write k data)).chanPool k =
        (s.chanPool k).queued (s.poolFree (s.poolFreeTop - 1)) data.length
          (fragCount s.cfg data.length) := by
      simp [Core.mark, Core.takeInto]
    rw [hwrites, hchan]
    refine OutRing.push h hout hroom hlen hcut hfew (fun i hi hact => ?_) ?_
    · obtain ⟨⟨b, hb⟩, hle⟩ := hout.busy i hi hact
      have hbuf : s.bufAt (.slot k (.outgoing i)) = some b := by
        simp [Core.bufAt, Chan.bufAt, hk, hact, hb, hi]
      have hne : i ≠ (s.chanPool k).outTail := by
        rintro rfl
        rw [hout.idle _ hi not_inRing_tail] at hact
        cases hact
      rw [hb]
      exact hkeep.bytes (x := .outgoing i) (by simpa [Off] using hne) hbuf hle
    · exact takeInto_bytes s k data fun b ch =>
        ch.queued b data.length (fragCount s.cfg data.length)

theorem ack (h : Outbox s k base bound) (hgood : s.Good) (hk : s.chanUsed k = true) {a : Nat}
    (ha : a < bound) (hlo : a < base + 2 ^ 15) (hhi : (writes k s.log).length ≤ a + 2 ^ 15) :
    ∃ base', base ≤ base' ∧ Outbox
      (advanceHead ((List.range ncOutgoingSlots).foldl (ackSlot k (UInt16.ofNat a)) s) k)
      k base' bound := by
  obtain ⟨hseq, hhead, htail, hstore, hlog⟩ :=
    foldl_ackSlot_frame k (UInt16.ofNat a) (List.range ncOutgoingSlots) s
  have hslot := foldl_ackSlot_outgoing k (UInt16.ofNat a) (List.range ncOutgoingSlots) s
  obtain ⟨hgood', ht'⟩ := foldl_ackSlot_spec (UInt16.ofNat a) (List.range ncOutgoingSlots)
    (fun i hi => List.mem_range.1 hi) hgood hk
  generalize (List.range ncOutgoingSlots).foldl (ackSlot k (UInt16.ofNat a)) s = s1 at *
  have hring : OutRing (writes k s.log) s.poolStore (maxFragPayload s.cfg) (s1.chanPool k) base
      bound := by
    refine OutRing.release h hseq hhead htail fun t ht => ?_
    have hslot' := hslot (((s.chanPool k).outHead + t) % ncOutgoingSlots)
    have hin : ((s.chanPool k).outHead + t) % ncOutgoingSlots ∈ List.range ncOutgoingSlots :=
      List.mem_range.2 (Nat.mod_lt _ (by decide))
    simp only [outSlot, hhead, hslot', hin, true_and]
    split_ifs with hack
    · refine Or.inr ⟨rfl, ?_⟩
      -- the released message is not behind the acknowledged one
      obtain ⟨d, hd⟩ := h.held t ht hack.1
      have hcount := h.count
      have hdiff := hack.2
      have hoseq : ((s.chanPool k).outgoing (((s.chanPool k).outHead + t) %
          ncOutgoingSlots)).seq = UInt16.ofNat (base + t) := hd.seq
      rw [hoseq, int16_ofNat_sub (by omega) (by omega)] at hdiff
      omega
    · exact Or.inl rfl
  obtain ⟨base', hle, hring'⟩ := hring.advance ncOutgoingSlots
    (hgood'.inv.chans k (ht'.used hk)).out
  refine ⟨base', hle, ?_⟩
  unfold Outbox
  have hadv : (advanceHead s1 k).log = s1.log ∧ (advanceHead s1 k).poolStore = s1.poolStore ∧
      (advanceHead s1 k).cfg = s1.cfg ∧
      (advanceHead s1 k).chanPool k = advanceHeadLoop ncOutgoingSlots (s1.chanPool k) := by
    simp [advanceHead, Core.modChan]
  rw [hadv.1, hadv.2.1, hadv.2.2.1, hadv.2.2.2, hlog, hstore, ht'.cfg]
  exact hring'

end Outbox

end MechanicalResearcher.NetchanV2
