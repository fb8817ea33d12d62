import MechanicalResearcher.NetchanV2.Slots
import MechanicalResearcher.NetchanV2.Wire

/-!
# Every call keeps the invariant

The invariant of the tables together with what holds between two frames: the
reorder table is drained and a pending acknowledgement is up to date.  Each
handler and each call of the interface keeps it, for any bytes and any peer.
-/

namespace MechanicalResearcher.NetchanV2

open Lib.Serial Lib.Ownership

variable {k : Nat} {c : Conn}

/-- Between two frames nothing waits to be drained. -/
structure ChanSettled (ch : Chan) : Prop where
  drained : deliverable ch = false
  ack : AckInv ch

structure Core.Good (s : Core) : Prop where
  inv : s.Inv
  settled : ∀ k, s.chanUsed k = true → ChanSettled (s.chanPool k)

theorem Core.Good.of_touch {s s' : Core} (h : s.Good) (ht : Core.Touch k s s') (hinv : s'.Inv)
    (hk : ChanSettled (s'.chanPool k)) : s'.Good := by
  refine ⟨hinv, fun j hj => ?_⟩
  by_cases hjk : j = k
  · exact hjk ▸ hk
  · rw [ht.other j hjk]
    exact h.settled j (ht.chanUsed ▸ hj)

theorem Core.Good.modChan {s : Core} (h : s.Good) (hk : s.chanUsed k = true) {f : Chan → Chan}
    (ht : Core.Touch k s (s.modChan k f)) (hbuf : (f (s.chanPool k)).bufAt = (s.chanPool k).bufAt)
    (hinv : ChanInv (maxFragPayload s.cfg) (f (s.chanPool k)))
    (hset : ChanSettled (f (s.chanPool k))) : (s.modChan k f).Good := by
  have hid : (f (s.chanPool k)).id = (s.chanPool k).id := by
    simpa [Core.modChan] using ht.fixed.1
  refine h.of_touch ht (h.inv.keep hk _ hid hbuf hinv s.poolStore s.log) ?_
  simpa [Core.modChan] using hset

theorem ChanSettled.congr {ch ch' : Chan} (h : ChanSettled ch)
    (hreorder : ch'.reorder = ch.reorder) (hseq : ch'.recvSeq = ch.recvSeq)
    (hneed : ch'.needAck = true → ch.needAck = true) (hack : ch'.ackSeq = ch.ackSeq)
    (hrole : ch'.role = ch.role) : ChanSettled ch' := by
  refine ⟨?_, fun hn => ?_⟩
  · have hd := h.drained
    simp only [deliverable] at hd ⊢
    rw [hreorder, hseq]
    exact hd
  · obtain ⟨h1, h2⟩ := h.ack (hneed hn)
    exact ⟨hrole.trans h1, by rw [hack, hseq, h2]⟩

/-! ## Draining -/

theorem chanRecvEnqueue_chan (s : Core) (k : Nat) (data : List UInt8) :
    (chanRecvEnqueue s k data).1.chanPool k =
      if CanEnqueue s k data then
        (s.chanPool k).enqueued (s.poolFree (s.poolFreeTop - 1)) data.length
      else s.chanPool k := by
  rw [chanRecvEnqueue_fst]
  split_ifs <;> simp [Core.takeInto, Core.mark]

theorem poolPut_chanPool (s : Core) (b : Option Nat) : (poolPut s b).chanPool = s.chanPool := by
  cases b <;> rfl

theorem deliverCore_reorder (s : Core) (k : Nat) :
    ((deliverCore s k).chanPool k).recvSeq = (s.chanPool k).recvSeq + 1 ∧
    ((deliverCore s k).chanPool k).reorder =
      Function.update (s.chanPool k).reorder ((s.chanPool k).recvSeq.toNat % ncReorderSlots)
        { (s.chanPool k).reorder ((s.chanPool k).recvSeq.toNat % ncReorderSlots) with
          buf := none, valid := false } := by
  simp only [deliverCore]
  generalize hdata : s.bytes (poolPtr ((s.chanPool k).reorder
    ((s.chanPool k).recvSeq.toNat % ncReorderSlots)).buf) ((s.chanPool k).reorder
    ((s.chanPool k).recvSeq.toNat % ncReorderSlots)).len = data
  obtain ⟨hseq, hreo, -⟩ := chanRecvEnqueue_recvSeq s k data
  rw [reorderRelease_eq]
  simp [bumpRecvSeq, Core.modChan, Core.mark, poolPut_chanPool, Chan.reordered, hseq, hreo]

/-- The number of occupied reorder slots. -/
def validCount (ch : Chan) : Nat :=
  ((Finset.range ncReorderSlots).filter fun i => (ch.reorder i).valid = true).card

theorem validCount_deliver {s : Core} (hd : deliverable (s.chanPool k) = true) :
    validCount ((deliverCore s k).chanPool k) + 1 = validCount (s.chanPool k) := by
  simp only [deliverable, Bool.and_eq_true, beq_iff_eq] at hd
  have hslot : (s.chanPool k).recvSeq.toNat % ncReorderSlots < ncReorderSlots :=
    Nat.mod_lt _ (by decide)
  unfold validCount
  rw [(deliverCore_reorder s k).2]
  generalize (s.chanPool k).recvSeq.toNat % ncReorderSlots = i at hd hslot ⊢
  have herase : ((Finset.range ncReorderSlots).filter fun j =>
      (Function.update (s.chanPool k).reorder i
        { (s.chanPool k).reorder i with buf := none, valid := false } j).valid = true) =
      ((Finset.range ncReorderSlots).filter fun j =>
        ((s.chanPool k).reorder j).valid = true).erase i := by
    ext j
    by_cases hj : j = i
    · subst hj
      simp
    · simp [hj]
  rw [herase, Finset.card_erase_add_one]
  simp [hd.1, hslot]

theorem deliverLoop_drained (fuel : Nat) (c : Conn) (k : Nat)
    (h : validCount (c.chanPool k) ≤ fuel) :
    deliverable ((deliverLoop fuel c k).chanPool k) = false := by
  induction fuel generalizing c with
  | zero =>
    have hslot : (c.chanPool k).recvSeq.toNat % ncReorderSlots < ncReorderSlots :=
      Nat.mod_lt _ (by decide)
    have hzero : validCount (c.chanPool k) = 0 := by omega
    simp only [validCount, Finset.card_eq_zero, Finset.filter_eq_empty_iff,
      Finset.mem_range, Bool.not_eq_true] at hzero
    simp [deliverLoop, deliverable, hzero hslot]
  | succ fuel ih =>
    unfold deliverLoop
    split_ifs with hd
    · apply ih
      have hcount := validCount_deliver hd
      rw [deliverOne_toCore]
      omega
    · simpa using hd

theorem validCount_le (ch : Chan) : validCount ch ≤ ncReorderSlots := by
  unfold validCount
  exact (Finset.card_filter_le _ _).trans (by simp)

theorem chanDeliverReordered_spec (h : c.toCore.Inv) (hk : c.chanUsed k = true) :
    (chanDeliverReordered c k).toCore.Inv ∧
      Core.Touch k c.toCore (chanDeliverReordered c k).toCore ∧
      deliverable ((chanDeliverReordered c k).chanPool k) = false := by
  obtain ⟨h1, ht⟩ := deliverLoop_inv ncReorderSlots h hk
  exact ⟨h1, ht, deliverLoop_drained _ c k (validCount_le _)⟩

/-! ## Data frames -/

theorem bumpRecvSeq_enqueue_inv {s : Core} (h : s.Inv) (hk : s.chanUsed k = true)
    (hd : deliverable (s.chanPool k) = false) (data : List UInt8) :
    (bumpRecvSeq (chanRecvEnqueue s k data).1 k).Inv := by
  obtain ⟨hrs, hreo, -⟩ := chanRecvEnqueue_recvSeq s k data
  refine bumpRecvSeq_inv (chanRecvEnqueue_inv h hk data)
    ((chanRecvEnqueue_touch s k data).used hk) fun i hi hv hwait => ?_
  rw [hreo] at hv hwait
  rw [hrs] at hwait
  have hslot := (h.chans k hk).reorder.slot_of_seq hi hv hwait
  simp [deliverable, ← hslot, hv, hwait] at hd

theorem deliverReliable_spec (h : c.toCore.Inv) (hk : c.chanUsed k = true)
    (hd : deliverable (c.chanPool k) = false) (seq : UInt16) (data : List UInt8) :
    (deliverReliable c k seq data).toCore.Inv ∧
      Core.Touch k c.toCore (deliverReliable c k seq data).toCore ∧
      deliverable ((deliverReliable c k seq data).chanPool k) = false := by
  simp only [deliverReliable]
  split_ifs with hseq hcond
  · -- in order: enqueue, count, drain
    have ht1 := chanRecvEnqueue_touch c.toCore k data
    have h2 := bumpRecvSeq_enqueue_inv h hk hd data
    have ht2 := ht1.trans (bumpRecvSeq_touch _ k)
    have hcore : (Conn.lift (evPush (c.lift fun s => (chanRecvEnqueue s k data).1) .data (some k))
        fun s => bumpRecvSeq s k).toCore =
        bumpRecvSeq (chanRecvEnqueue c.toCore k data).1 k := by simp
    obtain ⟨h3, ht3, hdr⟩ := chanDeliverReordered_spec (k := k) (hcore ▸ h2)
      (by rw [hcore]; exact ht2.used hk)
    exact ⟨h3, ht2.trans (hcore ▸ ht3), hdr⟩
  · -- early: kept in the table
    obtain ⟨hlo, hhi, hfree, hlen⟩ := hcond
    refine ⟨reorderStore_inv h hk hlen hlo hhi hfree, reorderStore_touch _ _ _ _, ?_⟩
    rw [Conn.lift_toCore, reorderStore_eq]
    split_ifs
    · simp only [deliverable, Core.takeInto, Function.update_self, Chan.reordered]
      by_cases hslot : (c.chanPool k).recvSeq.toNat % ncReorderSlots =
          seq.toNat % ncReorderSlots
      · rw [hslot, Function.update_self]
        simpa using hseq
      · rw [Function.update_of_ne hslot]
        exact hd
    · exact hd
  · exact ⟨h, Core.Touch.refl k _, hd⟩

theorem fragReceive_chan (s : Core) (k : Nat) (seq : UInt16) (fragIdx fragTotal : Nat)
    (payload : List UInt8) :
    ∃ frags, (fragReceive s k seq fragIdx fragTotal payload).1.chanPool k =
      { s.chanPool k with frags := frags } := by
  have hslot : ∃ frags, (fragSlot s k seq fragTotal).1.chanPool k =
      { s.chanPool k with frags := frags } := by
    unfold fragSlot
    split
    · exact ⟨(s.chanPool k).frags, rfl⟩
    · rcases fragAlloc_cases s k seq fragTotal with heq | ⟨i, -, -, -, -, heq⟩
      · exact ⟨(s.chanPool k).frags, by rw [heq]⟩
      · exact ⟨_, by rw [heq]; simp only [Core.takeInto, Function.update_self]; rfl⟩
  obtain ⟨frags, hfrags⟩ := hslot
  rcases fragReceive_cases s k seq fragIdx fragTotal payload with heq | ⟨i, -, -, heq⟩
  · exact ⟨frags, by rw [heq]; exact hfrags⟩
  · rw [heq]
    have hstore : ∃ frags, (fragStore (fragSlot s k seq fragTotal).1 k i fragIdx payload).chanPool
        k = { s.chanPool k with frags := frags } := by
      rw [fragStore_eq]
      simp only [Core.modChan, Function.update_self]
      exact ⟨_, by
        simp only [Core.mark, Core.memcpy, hfrags, Chan.refragged]; rfl⟩
    simp only [fragTail]
    split_ifs
    · obtain ⟨store, log, hcomp, -⟩ := compactLoop_chanPool k
        (((fragStore (fragSlot s k seq fragTotal).1 k i fragIdx payload).chanPool k).frags i)
        (maxFragPayload (fragStore (fragSlot s k seq fragTotal).1 k i fragIdx payload).cfg)
        (List.range (((fragStore (fragSlot s k seq fragTotal).1 k i fragIdx
          payload).chanPool k).frags i).total)
        (fragStore (fragSlot s k seq fragTotal).1 k i fragIdx payload) 0
      rw [hcomp]
      exact hstore
    · exact hstore

theorem chanRecvEnqueue_settled {s : Core} (h : ChanSettled (s.chanPool k)) (data : List UInt8) :
    ChanSettled ((chanRecvEnqueue s k data).1.chanPool k) := by
  rw [chanRecvEnqueue_chan]
  split_ifs
  · exact h.congr rfl rfl id rfl rfl
  · exact h

theorem fragReceive_settled {s : Core} (h : ChanSettled (s.chanPool k)) (seq : UInt16)
    (fragIdx fragTotal : Nat) (payload : List UInt8) :
    ChanSettled ((fragReceive s k seq fragIdx fragTotal payload).1.chanPool k) := by
  obtain ⟨frags, hfrags⟩ := fragReceive_chan s k seq fragIdx fragTotal payload
  rw [hfrags]
  exact h.congr rfl rfl id rfl rfl

theorem fragFree_chan (s : Core) (k i : Nat) :
    (fragFree s k i).chanPool k = (s.chanPool k).refragged i FragAsm.zero := by
  simp [fragFree_eq, Core.modChan, poolPut_chanPool]

theorem setNeedAck_inv {s : Core} (h : s.Inv) (hk : s.chanUsed k = true) :
    (setNeedAck s k).Inv := by
  have hch := h.chans k hk
  refine h.keep hk { s.chanPool k with
    needAck := true
    ackSeq := if 0 < (s.chanPool k).recvSeq then (s.chanPool k).recvSeq - 1 else 0 } rfl ?_
    ⟨hch.out, hch.queue, hch.reorder, hch.frag⟩ s.poolStore s.log
  funext x
  cases x <;> rfl

theorem setNeedAck_touch (s : Core) (k : Nat) : Core.Touch k s (setNeedAck s k) :=
  Core.Touch.modChan s k ⟨rfl, rfl, rfl, rfl, rfl⟩

theorem setNeedAck_settled {s : Core} (hd : deliverable (s.chanPool k) = false)
    (hrole : (s.chanPool k).role = .receiver) : ChanSettled ((setNeedAck s k).chanPool k) := by
  simp only [setNeedAck, Core.modChan, Function.update_self]
  exact ⟨hd, fun _ => ⟨hrole, rfl⟩⟩

theorem acceptDataUnreliable_spec (h : c.toCore.Good) (hk : c.chanUsed k = true) (seq : UInt16)
    (fragIdx fragTotal : Nat) (payload : List UInt8) :
    (acceptDataUnreliable c k seq fragIdx fragTotal payload).toCore.Good ∧
      Core.Touch k c.toCore
        (acceptDataUnreliable c k seq fragIdx fragTotal payload).toCore := by
  have hs := h.settled k hk
  unfold acceptDataUnreliable
  split_ifs with htotal
  · have ht := chanRecvEnqueue_touch c.toCore k payload
    rw [evPush_toCore, Conn.lift_toCore]
    exact ⟨h.of_touch ht (chanRecvEnqueue_inv h.inv hk payload)
      (chanRecvEnqueue_settled hs payload), ht⟩
  · obtain ⟨h1, ht1, hsome⟩ :=
      fragReceive_spec h.inv hk seq fragIdx (Nat.not_le.1 htotal) payload
    have hs1 := fragReceive_settled hs seq fragIdx fragTotal payload
    generalize fragReceive c.toCore k seq fragIdx fragTotal payload = res at *
    obtain ⟨s, _ | ⟨i, pos⟩⟩ := res
    · exact ⟨h.of_touch ht1 h1 hs1, ht1⟩
    · obtain ⟨hi, hact⟩ := hsome i pos rfl
      dsimp only at h1 ht1 hs1 hact ⊢
      rw [Conn.lift_toCore, evPush_toCore]
      dsimp only
      generalize s.bytes (poolPtr ((s.chanPool k).frags i).buf) pos = data
      have ht2 := chanRecvEnqueue_touch s k data
      have hact2 : (((chanRecvEnqueue s k data).1.chanPool k).frags i).active = true := by
        rw [(chanRecvEnqueue_recvSeq s k data).2.2, hact]
      have ht3 := (ht1.trans ht2).trans (fragFree_touch _ k i)
      refine ⟨h.of_touch ht3 ?_ ?_, ht3⟩
      · exact fragFree_inv (chanRecvEnqueue_inv h1 (ht1.used hk) data)
          ((ht1.trans ht2).used hk) hi hact2
      · rw [fragFree_chan]
        exact (chanRecvEnqueue_settled hs1 data).congr rfl rfl id rfl rfl

/-! Delivery leaves the fragment slots alone. -/

theorem deliverCore_frags (s : Core) (k : Nat) :
    ((deliverCore s k).chanPool k).frags = (s.chanPool k).frags := by
  simp only [deliverCore, reorderRelease_eq]
  simp [bumpRecvSeq, Core.modChan, Core.mark, poolPut_chanPool, Chan.reordered,
    chanRecvEnqueue_recvSeq]

theorem deliverLoop_frags (fuel : Nat) (c : Conn) (k : Nat) :
    ((deliverLoop fuel c k).chanPool k).frags = (c.chanPool k).frags := by
  refine deliverLoop_rule (P := fun d => (d.chanPool k).frags = (c.chanPool k).frags)
    (fun d _ h => ?_) fuel rfl
  rw [deliverOne_toCore, deliverCore_frags, h]

theorem deliverReliable_frags (c : Conn) (k : Nat) (seq : UInt16) (data : List UInt8) :
    ((deliverReliable c k seq data).chanPool k).frags = (c.chanPool k).frags := by
  simp only [deliverReliable]
  split_ifs
  · rw [chanDeliverReordered, deliverLoop_frags]
    simp [bumpRecvSeq, Core.modChan, Core.mark, chanRecvEnqueue_recvSeq]
  · rw [Conn.lift_toCore, reorderStore_eq]
    split_ifs <;> simp [Core.takeInto, Chan.reordered]
  · rfl

theorem acceptDataReliable_spec (h : c.toCore.Good) (hk : c.chanUsed k = true)
    (hrole : (c.chanPool k).role = .receiver) (seq : UInt16) (fragIdx fragTotal : Nat)
    (payload : List UInt8) :
    (acceptDataReliable c k seq fragIdx fragTotal payload).toCore.Good ∧
      Core.Touch k c.toCore (acceptDataReliable c k seq fragIdx fragTotal payload).toCore := by
  have hs := h.settled k hk
  -- whatever was delivered, the acknowledgement is brought up to date
  have finish : ∀ s, s.Inv → Core.Touch k c.toCore s → deliverable (s.chanPool k) = false →
      (setNeedAck s k).Good ∧ Core.Touch k c.toCore (setNeedAck s k) := by
    intro s hinv ht hd
    have ht' := ht.trans (setNeedAck_touch s k)
    refine ⟨h.of_touch ht' (setNeedAck_inv hinv (ht.used hk)) (setNeedAck_settled hd ?_), ht'⟩
    rw [ht.fixed.2.1, hrole]
  simp only [acceptDataReliable, Conn.lift_toCore]
  split_ifs with htotal
  · obtain ⟨h1, ht1, hd1⟩ := deliverReliable_spec h.inv hk hs.drained seq payload
    exact finish _ h1 ht1 hd1
  · obtain ⟨h1, ht1, hsome⟩ :=
      fragReceive_spec h.inv hk seq fragIdx (Nat.not_le.1 htotal) payload
    have hs1 := fragReceive_settled hs seq fragIdx fragTotal payload
    generalize fragReceive c.toCore k seq fragIdx fragTotal payload = res at *
    obtain ⟨s, _ | ⟨i, pos⟩⟩ := res
    · exact finish _ h1 ht1 hs1.drained
    · obtain ⟨hi, hact⟩ := hsome i pos rfl
      dsimp only at h1 ht1 hs1 hact ⊢
      generalize s.bytes (poolPtr ((s.chanPool k).frags i).buf) pos = data
      obtain ⟨h2, ht2, hd2⟩ := deliverReliable_spec (c := { c with toCore := s }) h1
        (ht1.used hk) hs1.drained seq data
      have hfr := deliverReliable_frags { c with toCore := s } k seq data
      rw [Conn.lift_toCore]
      refine finish _ (fragFree_inv h2 ((ht1.trans ht2).used hk) hi ?_)
        ((ht1.trans ht2).trans (fragFree_touch _ k i)) ?_
      · rw [hfr, hact]
      · rw [fragFree_chan]
        exact hd2

theorem acceptData_good (h : c.toCore.Good) (id : UInt8) (seq : UInt16) (fragIdx fragTotal : Nat)
    (payload : List UInt8) :
    (acceptData c id seq fragIdx fragTotal payload).toCore.Good := by
  unfold acceptData
  cases hid : c.channels id with
  | none => exact h
  | some k =>
    obtain ⟨-, hk, -⟩ := h.inv.table id k hid
    dsimp only
    split_ifs with hrole
    · exact h
    · exact (acceptDataUnreliable_spec h hk seq fragIdx fragTotal payload).1
    · exact (acceptDataReliable_spec h hk (not_not.1 hrole) seq fragIdx fragTotal payload).1

/-! ## Acknowledgements -/

theorem bufAt_outgoing {ch ch' : Chan} {i : Nat} (o : Outgoing) (hi : i < 64)
    (hout : ch'.outgoing = Function.update ch.outgoing i o)
    (hrest : ch'.recvQueue = ch.recvQueue ∧ ch'.reorder = ch.reorder ∧ ch'.frags = ch.frags) :
    ch'.bufAt =
      Function.update ch.bufAt (.outgoing i) (if o.active = true then o.buf else none) := by
  obtain ⟨hq, hr, hf⟩ := hrest
  funext x
  by_cases hx : x = .outgoing i
  · subst hx
    simp [Chan.bufAt, hout, hi]
  · rw [Function.update_of_ne hx]
    cases x with
    | outgoing j =>
      have hj : j ≠ i := fun e => hx (e ▸ rfl)
      simp [Chan.bufAt, hout, Function.update_of_ne hj]
    | recvQueue j => simp [Chan.bufAt, hq]
    | reorder j => simp [Chan.bufAt, hr]
    | frag j => simp [Chan.bufAt, hf]

theorem ackSlot_spec {s : Core} {i : Nat} (h : s.Good) (hk : s.chanUsed k = true) (hi : i < 64)
    (ackedSeq : UInt16) :
    (ackSlot k ackedSeq s i).Good ∧ Core.Touch k s (ackSlot k ackedSeq s i) := by
  simp only [ackSlot]
  split_ifs with hcond
  · have hch := h.inv.chans k hk
    have hbuf : ((s.chanPool k).outgoing i).buf = (s.chanPool k).bufAt (.outgoing i) := by
      simp [Chan.bufAt, hi, hcond.1]
    have ht := (Core.Touch.poolPut k s ((s.chanPool k).outgoing i).buf).trans
      (Core.Touch.modChan _ k (f := fun ch =>
        { ch with
          bytesInFlight := ch.bytesInFlight - UInt32.ofNat ((s.chanPool k).outgoing i).len
          msgsAcked := ch.msgsAcked + 1
          outgoing := Function.update ch.outgoing i
            { (s.chanPool k).outgoing i with buf := none, active := false } })
        ⟨rfl, rfl, rfl, rfl, rfl⟩)
    refine ⟨h.of_touch ht ?_ ?_, ht⟩
    · rw [hbuf]
      refine h.inv.release hk (.outgoing i) rfl ?_ ?_
      · exact bufAt_outgoing { (s.chanPool k).outgoing i with buf := none, active := false } hi
          rfl ⟨rfl, rfl, rfl⟩
      · exact ⟨hch.out.update (by simp) (by simp), hch.queue, hch.reorder, hch.frag⟩
    · simp only [Core.modChan, poolPut_chanPool, Function.update_self]
      exact (h.settled k hk).congr rfl rfl id rfl rfl
  · exact ⟨h, Core.Touch.refl k s⟩

theorem foldl_ackSlot_spec (ackedSeq : UInt16) (is : List Nat) (his : ∀ i ∈ is, i < 64) {s : Core}
    (h : s.Good) (hk : s.chanUsed k = true) :
    (is.foldl (ackSlot k ackedSeq) s).Good ∧
      Core.Touch k s (is.foldl (ackSlot k ackedSeq) s) := by
  induction is generalizing s with
  | nil => exact ⟨h, Core.Touch.refl k s⟩
  | cons i is ih =>
    obtain ⟨h1, ht1⟩ := ackSlot_spec h hk (his i List.mem_cons_self) ackedSeq
    obtain ⟨h2, ht2⟩ := ih (fun j hj => his j (List.mem_cons_of_mem _ hj)) h1 (ht1.used hk)
    exact ⟨h2, ht1.trans ht2⟩

theorem advanceHeadLoop_spec (fuel : Nat) (ch : Chan)
    (h : OutInv ch.outgoing ch.outHead ch.outTail) :
    ∃ head, advanceHeadLoop fuel ch = { ch with outHead := head } ∧
      OutInv ch.outgoing head ch.outTail := by
  induction fuel generalizing ch with
  | zero => exact ⟨ch.outHead, rfl, h⟩
  | succ fuel ih =>
    unfold advanceHeadLoop
    split_ifs with hcond
    · obtain ⟨head, heq, hout⟩ := ih { ch with outHead := (ch.outHead + 1) % ncOutgoingSlots }
        (h.pop hcond.1 hcond.2)
      exact ⟨head, heq, hout⟩
    · exact ⟨ch.outHead, rfl, h⟩

theorem advanceHead_spec {s : Core} (h : s.Good) (hk : s.chanUsed k = true) :
    (advanceHead s k).Good ∧ Core.Touch k s (advanceHead s k) := by
  have hch := h.inv.chans k hk
  obtain ⟨head, heq, hout⟩ := advanceHeadLoop_spec ncOutgoingSlots (s.chanPool k) hch.out
  have ht : Core.Touch k s (advanceHead s k) :=
    Core.Touch.modChan s k (by rw [heq]; exact ⟨rfl, rfl, rfl, rfl, rfl⟩)
  refine ⟨h.of_touch ht ?_ ?_, ht⟩
  · simp only [advanceHead, Core.modChan, heq]
    exact h.inv.keep hk { s.chanPool k with outHead := head } rfl
      (by funext x; cases x <;> rfl) ⟨hout, hch.queue, hch.reorder, hch.frag⟩ s.poolStore s.log
  · simp only [advanceHead, Core.modChan, heq, Function.update_self]
    exact (h.settled k hk).congr rfl rfl id rfl rfl

theorem acceptAck_good (h : c.toCore.Good) (id : UInt8) (ackedSeq : UInt16) :
    (acceptAck c id ackedSeq).toCore.Good := by
  unfold acceptAck
  cases hid : c.channels id with
  | none => exact h
  | some k =>
    obtain ⟨-, hk, -⟩ := h.inv.table id k hid
    dsimp only
    split_ifs
    · exact h
    · obtain ⟨h1, ht1⟩ := foldl_ackSlot_spec ackedSeq (List.range ncOutgoingSlots)
        (fun i hi => List.mem_range.1 hi) h hk
      exact (advanceHead_spec h1 (ht1.used hk)).1

/-! ## Channel frames -/

/-- A record as `chan_new` leaves it. -/
def Chan.fresh (id : UInt8) (type dir : Nat) (role : Role) (ct : List UInt8) (window : UInt32) :
    Chan :=
  { Chan.zero with
    id := id
    type := type
    dir := dir
    role := role
    contentType := contentTypeOf ct
    recvWindow := window }

/-- A record enters the channel pool and the channel table. -/
def Core.addChan (s : Core) (k : Nat) (ch : Chan) : Core :=
  { s with
    chanPool := Function.update s.chanPool k ch
    chanUsed := Function.update s.chanUsed k true
    channels := Function.update s.channels ch.id (some k) }

theorem chanNew_cases (s : Core) (id : UInt8) (type dir : Nat) (role : Role)
    (ct : Option (List UInt8)) :
    chanNew s id type dir role ct = (s, none) ∨
      ∃ k < 16, s.chanUsed k = false ∧
        chanNew s id type dir role ct =
          (s.addChan k (Chan.fresh id type dir role (ct.getD []) s.cfg.chanWindow), some k) := by
  unfold chanNew
  cases hfind : (List.range ncMaxChan).find? fun i => !s.chanUsed i with
  | none => exact Or.inl rfl
  | some k =>
    have hmem := List.mem_of_find?_eq_some hfind
    have hp := List.find?_some hfind
    simp only [List.mem_range, Bool.not_eq_true'] at hmem hp
    exact Or.inr ⟨k, hmem, hp, rfl⟩

theorem fresh_bufAt (id : UInt8) (type dir : Nat) (role : Role) (ct : List UInt8)
    (window : UInt32) (x : Slot) : (Chan.fresh id type dir role ct window).bufAt x = none := by
  cases x <;> simp [Chan.bufAt, Chan.fresh, Chan.zero, Outgoing.zero, FragAsm.zero]

theorem fresh_inv (fp : Nat) (id : UInt8) (type dir : Nat) (role : Role) (ct : List UInt8)
    (window : UInt32) : ChanInv fp (Chan.fresh id type dir role ct window) := by
  refine ⟨⟨?_, ?_, ?_, ?_⟩, ⟨?_, ?_, ?_, ?_⟩, ⟨?_, ?_, ?_⟩, ?_⟩ <;>
    simp [Chan.fresh, Chan.zero, Outgoing.zero, FragAsm.zero, InRing]

theorem fresh_settled (id : UInt8) (type dir : Nat) (role : Role) (ct : List UInt8)
    (window : UInt32) : ChanSettled (Chan.fresh id type dir role ct window) := by
  refine ⟨?_, ?_⟩ <;> simp [Chan.fresh, Chan.zero, deliverable, AckInv]

theorem Core.Good.addChan {s : Core} (h : s.Good) (hk16 : k < 16) (hk : s.chanUsed k = false)
    {ch : Chan} (hid : s.channels ch.id = none) (hbuf : ∀ x, ch.bufAt x = none)
    (hinv : ChanInv (maxFragPayload s.cfg) ch) (hset : ChanSettled ch) : (s.addChan k ch).Good := by
  have hother : ∀ j, s.chanUsed j = true → j ≠ k := by
    rintro j hj rfl
    simp [hk] at hj
  refine ⟨⟨fun id j hj => ?_, fun j hj => ?_, ?_, fun j hj => ?_⟩, fun j hj => ?_⟩
  · by_cases hi : id = ch.id
    · subst hi
      simp only [Core.addChan, Function.update_self, Option.some.injEq] at hj
      subst hj
      simp [Core.addChan, hk16]
    · simp only [Core.addChan, Function.update_of_ne hi] at hj
      obtain ⟨h1, h2, h3⟩ := h.inv.table id j hj
      simp [Core.addChan, Function.update_of_ne (hother j h2), h1, h2, h3]
  · by_cases hjk : j = k
    · subst hjk
      simp [Core.addChan, hk16]
    · simp only [Core.addChan, Function.update_of_ne hjk] at hj ⊢
      obtain ⟨h1, h2⟩ := h.inv.used j hj
      refine ⟨h1, ?_⟩
      rw [Function.update_of_ne, h2]
      intro e
      rw [e, hid] at h2
      cases h2
  · -- the record was not in use before and owns nothing now
    convert h.inv.pool using 1
    funext l
    cases l with
    | free i => rfl
    | slot j x =>
      by_cases hjk : j = k
      · subst hjk
        simp [Core.bufAt, Core.addChan, hk, hbuf]
      · simp [Core.bufAt, Core.addChan, Function.update_of_ne hjk]
  · by_cases hjk : j = k
    · subst hjk
      simpa [Core.addChan] using hinv
    · simp only [Core.addChan, Function.update_of_ne hjk] at hj ⊢
      exact h.inv.chans j hj
  · by_cases hjk : j = k
    · subst hjk
      simpa [Core.addChan] using hset
    · simp only [Core.addChan, Function.update_of_ne hjk] at hj ⊢
      exact h.settled j hj

theorem Core.Good.setState {s : Core} (h : s.Good) (hk : s.chanUsed k = true) (f : Chan → ChanState)
    : (s.modChan k fun ch => { ch with state := f ch }).Good := by
  have hch := h.inv.chans k hk
  refine h.modChan hk (Core.Touch.modChan s k ⟨rfl, rfl, rfl, rfl, rfl⟩) ?_
    ⟨hch.out, hch.queue, hch.reorder, hch.frag⟩ ((h.settled k hk).congr rfl rfl id rfl rfl)
  funext x
  cases x <;> rfl

theorem chanNew_good {s : Core} (h : s.Good) {id : UInt8} (hid : s.channels id = none)
    (type dir : Nat) (role : Role) (ct : Option (List UInt8)) :
    (chanNew s id type dir role ct).1.Good ∧
      ∀ k, (chanNew s id type dir role ct).2 = some k →
        (chanNew s id type dir role ct).1.chanUsed k = true := by
  rcases chanNew_cases s id type dir role ct with heq | ⟨k, hk16, hk, heq⟩
  · rw [heq]
    exact ⟨h, fun k hk => by cases hk⟩
  · rw [heq]
    refine ⟨h.addChan hk16 hk hid (fresh_bufAt _ _ _ _ _ _) (fresh_inv _ _ _ _ _ _ _)
      (fresh_settled _ _ _ _ _ _), fun j hj => ?_⟩
    cases hj
    simp [Core.addChan]

theorem acceptChannelOpen_good (h : c.toCore.Good) (id : UInt8) (type dir : Nat) (ct : List UInt8) :
    (acceptChannelOpen c id type dir ct).toCore.Good := by
  simp only [acceptChannelOpen]
  split_ifs with hsome
  · simpa [ctrlChannelClose] using h
  all_goals
    have hid : c.channels id = none := by simpa using hsome
    rcases hnew : chanNew c.toCore id type dir _ (some (ct.take 63)) with ⟨s, _ | k⟩
    · simpa [ctrlChannelClose] using h
    · obtain ⟨h1, hused⟩ := hnew ▸ chanNew_good h hid type dir _ (some (ct.take 63))
      simp [ctrlWindowUpdate]
      exact h1.setState (hused k rfl) _

theorem acceptChannelClose_good (h : c.toCore.Good) (id : UInt8) :
    (acceptChannelClose c id).toCore.Good := by
  unfold acceptChannelClose
  cases hid : c.channels id with
  | none => exact h
  | some k =>
    obtain ⟨-, hk, -⟩ := h.inv.table id k hid
    dsimp only
    rw [evPush_toCore, Conn.lift_toCore]
    exact h.setState hk _

theorem acceptWindowUpdate_good (h : c.toCore.Good) (id : UInt8) (window : UInt32) :
    (acceptWindowUpdate c id window).toCore.Good := by
  unfold acceptWindowUpdate
  cases hid : c.channels id with
  | none => exact h
  | some k =>
    obtain ⟨-, hk, -⟩ := h.inv.table id k hid
    have hch := h.inv.chans k hk
    dsimp only
    split_ifs
    · rw [Conn.lift_toCore]
      refine h.modChan hk (Core.Touch.modChan _ k ⟨rfl, rfl, rfl, rfl, rfl⟩) ?_
        ⟨hch.out, hch.queue, hch.reorder, hch.frag⟩
        ((h.settled k hk).congr rfl rfl (fun hn => hn) rfl rfl)
      funext x
      cases x <;> rfl
    · exact h

/-! ## Packets -/

theorem Frame.apply_good (env : Env) (now : UInt32) (h : c.toCore.Good) (f : Frame) :
    (f.apply env now c).toCore.Good := by
  cases f with
  | connectInit clientId version =>
    simp only [apply, acceptConnectInit]
    split_ifs <;> exact h
  | connectAccept serverId version idle =>
    rw [apply, acceptConnectAccept, evPush_toCore]
    exact h
  | connectRedirect newId addr =>
    rw [apply, evPushRedirect, evStore_toCore]
    exact h
  | disconnect reason =>
    rw [apply, evPush_toCore]
    exact h
  | ping opaqueId =>
    rw [apply, ctrlPong, ctrlReserve_toCore]
    exact h
  | pong opaqueId =>
    simp only [apply, acceptPong]
    split_ifs <;> exact h
  | channelOpen id type dir ct => exact acceptChannelOpen_good h id _ _ ct
  | channelClose id error => exact acceptChannelClose_good h id
  | data id seq fragIdx fragTotal payload => exact acceptData_good h id seq _ _ payload
  | ack id seq => exact acceptAck_good h id seq
  | windowUpdate id window => exact acceptWindowUpdate_good h id window

theorem netchanFeed_good (env : Env) (h : c.toCore.Good) (pkt : List UInt8) (src : Option Addr) :
    (netchanFeed env c pkt src).1.toCore.Good :=
  netchanFeed_induct env c pkt src (P := fun c => c.toCore.Good) id
    (fun _ fn _ hc => fn.1.apply_good env _ hc) h

end MechanicalResearcher.NetchanV2
