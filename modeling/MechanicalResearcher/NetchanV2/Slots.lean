import MechanicalResearcher.NetchanV2.Invariant

/-!
# What the slot operations do

One lemma for each operation on the slots of a channel record: the shape of its
result, that it keeps the invariant of the tables, and that it touches nothing
of another channel (`Touch`).
-/

namespace MechanicalResearcher.NetchanV2

open Lib.Serial Lib.Ownership

/-! ## Operations on one channel record -/

def Mark.chan : Mark → Nat
  | write k _ | read k _ | enqueue k _ _ | advance k | ack k _ | fragWrite k _ _ _ => k

/-- From `s` to `s'` only the channel record `k`, the pool and the log changed, and
what identifies the channel did not. -/
structure Core.Touch (k : Nat) (s s' : Core) : Prop where
  cfg : s'.cfg = s.cfg
  channels : s'.channels = s.channels
  chanUsed : s'.chanUsed = s.chanUsed
  other : ∀ j, j ≠ k → s'.chanPool j = s.chanPool j
  fixed : (s'.chanPool k).id = (s.chanPool k).id ∧ (s'.chanPool k).role = (s.chanPool k).role ∧
    (s'.chanPool k).type = (s.chanPool k).type ∧ (s'.chanPool k).dir = (s.chanPool k).dir ∧
    (s'.chanPool k).recvWindow = (s.chanPool k).recvWindow
  log : ∃ ms, s'.log = s.log ++ ms ∧ ∀ m ∈ ms, m.chan = k

namespace Core.Touch

variable {k : Nat} {s s' s'' : Core}

theorem refl (k : Nat) (s : Core) : Touch k s s :=
  ⟨rfl, rfl, rfl, fun _ _ => rfl, ⟨rfl, rfl, rfl, rfl, rfl⟩, [], by simp, by simp⟩

theorem trans (h : Touch k s s') (h' : Touch k s' s'') : Touch k s s'' := by
  obtain ⟨ms, hlog, hms⟩ := h.log
  obtain ⟨ms', hlog', hms'⟩ := h'.log
  obtain ⟨a1, a2, a3, a4, a5⟩ := h.fixed
  obtain ⟨b1, b2, b3, b4, b5⟩ := h'.fixed
  refine ⟨h'.cfg.trans h.cfg, h'.channels.trans h.channels, h'.chanUsed.trans h.chanUsed,
    fun j hj => (h'.other j hj).trans (h.other j hj),
    ⟨b1.trans a1, b2.trans a2, b3.trans a3, b4.trans a4, b5.trans a5⟩,
    ms ++ ms', by rw [hlog', hlog, List.append_assoc], fun m hm => ?_⟩
  rcases List.mem_append.1 hm with hm | hm
  · exact hms m hm
  · exact hms' m hm

theorem used (h : Touch k s s') (hk : s.chanUsed k = true) : s'.chanUsed k = true := by
  rw [h.chanUsed, hk]

theorem modChan (s : Core) (k : Nat) {f : Chan → Chan}
    (hf : (f (s.chanPool k)).id = (s.chanPool k).id ∧
      (f (s.chanPool k)).role = (s.chanPool k).role ∧
      (f (s.chanPool k)).type = (s.chanPool k).type ∧
      (f (s.chanPool k)).dir = (s.chanPool k).dir ∧
      (f (s.chanPool k)).recvWindow = (s.chanPool k).recvWindow) :
    Touch k s (s.modChan k f) :=
  ⟨rfl, rfl, rfl, fun _ hj => Function.update_of_ne hj _ _, by
    simpa only [Core.modChan, Function.update_self] using hf, [], by simp [Core.modChan], by simp⟩

theorem mark (s : Core) {m : Mark} (hm : m.chan = k) : Touch k s (s.mark m) :=
  ⟨rfl, rfl, rfl, fun _ _ => rfl, ⟨rfl, rfl, rfl, rfl, rfl⟩, [m], rfl, by simpa using hm⟩

theorem poolPut (k : Nat) (s : Core) (b : Option Nat) : Touch k s (poolPut s b) := by
  cases b <;>
    exact ⟨rfl, rfl, rfl, fun _ _ => rfl, ⟨rfl, rfl, rfl, rfl, rfl⟩, [],
      by simp [NetchanV2.poolPut],
      by simp⟩

theorem pool (k : Nat) (s : Core) (top : Nat) (store : Nat → UInt8) :
    Touch k s { s with poolFreeTop := top, poolStore := store } :=
  ⟨rfl, rfl, rfl, fun _ _ => rfl, ⟨rfl, rfl, rfl, rfl, rfl⟩, [], by simp, by simp⟩

end Core.Touch

/-! ## Taking a buffer -/

/-- `pool_get`, the copy of `data` into the buffer and the change `f` of the record. -/
def Core.takeInto (s : Core) (k : Nat) (data : List UInt8) (f : Nat → Chan → Chan) : Core :=
  let b := s.poolFree (s.poolFreeTop - 1)
  { s with
    chanPool := Function.update s.chanPool k (f b (s.chanPool k))
    poolFreeTop := s.poolFreeTop - 1
    poolStore := (s.memcpy (b * ncMaxMsg) data).poolStore }

theorem Core.Inv.takeInto {s : Core} {k : Nat} (h : s.Inv) (hk : s.chanUsed k = true)
    (htop : 0 < s.poolFreeTop) (data : List UInt8) {f : Nat → Chan → Chan} (x : Slot)
    (hid : ∀ b, (f b (s.chanPool k)).id = (s.chanPool k).id)
    (hempty : (s.chanPool k).bufAt x = none)
    (hbuf : ∀ b, (f b (s.chanPool k)).bufAt =
      Function.update (s.chanPool k).bufAt x (some b))
    (hch : ∀ b, ChanInv (maxFragPayload s.cfg) (f b (s.chanPool k))) :
    (s.takeInto k data f).Inv :=
  h.take hk htop x (hid _) hempty (hbuf _) (hch _) _ s.log

theorem Core.Touch.takeInto (s : Core) (k : Nat) (data : List UInt8) {f : Nat → Chan → Chan}
    (hf : ∀ b, (f b (s.chanPool k)).id = (s.chanPool k).id ∧
      (f b (s.chanPool k)).role = (s.chanPool k).role ∧
      (f b (s.chanPool k)).type = (s.chanPool k).type ∧
      (f b (s.chanPool k)).dir = (s.chanPool k).dir ∧
      (f b (s.chanPool k)).recvWindow = (s.chanPool k).recvWindow) :
    Core.Touch k s (s.takeInto k data f) :=
  (Core.Touch.modChan s k (hf _)).trans (Core.Touch.pool k _ _ _)

/-! ## The receive queue -/

/-- `chan_recv_enqueue` will find a place, a buffer, and a message that fits. -/
def CanEnqueue (s : Core) (k : Nat) (data : List UInt8) : Prop :=
  ((s.chanPool k).rqTail + 1) % ncRecvQueue ≠ (s.chanPool k).rqHead ∧
    data.length ≤ ncMaxMsg ∧ 0 < s.poolFreeTop

instance (s : Core) (k : Nat) (data : List UInt8) : Decidable (CanEnqueue s k data) :=
  inferInstanceAs (Decidable (_ ∧ _ ∧ _))

/-- The record after a message was put at the tail of the receive ring. -/
def Chan.enqueued (ch : Chan) (b len : Nat) : Chan :=
  { ch with
    recvQueue := Function.update ch.recvQueue ch.rqTail ⟨some b, len⟩
    rqTail := (ch.rqTail + 1) % ncRecvQueue
    recvBuffered := ch.recvBuffered + UInt32.ofNat len
    msgsRecv := ch.msgsRecv + 1 }

theorem chanRecvEnqueue_fst (s : Core) (k : Nat) (data : List UInt8) :
    (chanRecvEnqueue s k data).1 =
      if CanEnqueue s k data then
        (s.takeInto k data fun b ch => ch.enqueued b data.length).mark (.enqueue k data true)
      else s.mark (.enqueue k data false) := by
  unfold CanEnqueue
  simp only [chanRecvEnqueue, poolGet]
  by_cases hroom : ((s.chanPool k).rqTail + 1) % ncRecvQueue = (s.chanPool k).rqHead
  · simp [hroom]
  by_cases hlen : ncMaxMsg < data.length
  · simp [hroom, hlen, Nat.not_le.2 hlen]
  · by_cases htop : s.poolFreeTop = 0
    · simp [hroom, htop, hlen]
    · simp [hroom, htop, hlen, Nat.not_lt.1 hlen, Nat.pos_of_ne_zero htop]
      rfl

theorem bufAt_enqueued (ch : Chan) (b len : Nat) (ht : ch.rqTail < 64) :
    (ch.enqueued b len).bufAt = Function.update ch.bufAt (.recvQueue ch.rqTail) (some b) := by
  funext x
  by_cases hx : x = .recvQueue ch.rqTail
  · subst hx
    simp [Chan.bufAt, Chan.enqueued, ht]
  · rw [Function.update_of_ne hx]
    cases x with
    | recvQueue i =>
      have hi : i ≠ ch.rqTail := fun e => hx (e ▸ rfl)
      simp [Chan.bufAt, Chan.enqueued, Function.update_of_ne hi]
    | outgoing i => rfl
    | reorder i => rfl
    | frag i => rfl

theorem ChanInv.enqueued {fp : Nat} {ch : Chan} (h : ChanInv fp ch) (b : Nat) {len : Nat}
    (hroom : (ch.rqTail + 1) % ncRecvQueue ≠ ch.rqHead) (hlen : len ≤ ncMaxMsg) :
    ChanInv fp (ch.enqueued b len) :=
  ⟨h.out, h.queue.push hroom ⟨⟨b, rfl⟩, hlen⟩, h.reorder, h.frag⟩

theorem chanRecvEnqueue_inv {s : Core} {k : Nat} (h : s.Inv) (hk : s.chanUsed k = true)
    (data : List UInt8) : (chanRecvEnqueue s k data).1.Inv := by
  rw [chanRecvEnqueue_fst]
  split_ifs with hcan
  · obtain ⟨hroom, hlen, htop⟩ := hcan
    have hch := h.chans k hk
    refine (h.takeInto hk htop data (.recvQueue (s.chanPool k).rqTail) (fun _ => rfl) ?_
      (fun b => bufAt_enqueued _ b _ hch.queue.tail_lt)
      (fun b => hch.enqueued b hroom hlen)).mark _
    simp [Chan.bufAt, hch.queue.idle _ hch.queue.tail_lt not_inRing_tail]
  · exact h.mark _

theorem chanRecvEnqueue_touch (s : Core) (k : Nat) (data : List UInt8) :
    Core.Touch k s (chanRecvEnqueue s k data).1 := by
  rw [chanRecvEnqueue_fst]
  split_ifs
  · exact (Core.Touch.takeInto s k data fun _ => ⟨rfl, rfl, rfl, rfl, rfl⟩).trans
      (Core.Touch.mark _ rfl)
  · exact Core.Touch.mark _ rfl

theorem chanRecvEnqueue_recvSeq (s : Core) (k : Nat) (data : List UInt8) :
    ((chanRecvEnqueue s k data).1.chanPool k).recvSeq = (s.chanPool k).recvSeq ∧
    ((chanRecvEnqueue s k data).1.chanPool k).reorder = (s.chanPool k).reorder ∧
    ((chanRecvEnqueue s k data).1.chanPool k).frags = (s.chanPool k).frags := by
  rw [chanRecvEnqueue_fst]
  split_ifs <;> simp [Core.takeInto, Core.mark, Chan.enqueued]

/-! ## The reorder table -/

/-- The record after an early message was kept in slot `i`. -/
def Chan.reordered (ch : Chan) (i : Nat) (e : Reorder) : Chan :=
  { ch with reorder := Function.update ch.reorder i e }

theorem reorderStore_eq (s : Core) (k : Nat) (seq : UInt16) (data : List UInt8) :
    reorderStore s k seq data =
      if 0 < s.poolFreeTop then
        s.takeInto k data fun b ch =>
          ch.reordered (seq.toNat % ncReorderSlots) ⟨seq, some b, data.length, true⟩
      else s := by
  simp only [reorderStore, poolGet]
  by_cases htop : s.poolFreeTop = 0
  · simp [htop]
  · simp [htop, Nat.pos_of_ne_zero htop]
    rfl

theorem bufAt_reordered (ch : Chan) (i : Nat) (e : Reorder) (hi : i < 64) :
    (ch.reordered i e).bufAt =
      Function.update ch.bufAt (.reorder i) (if e.valid = true then e.buf else none) := by
  funext x
  by_cases hx : x = .reorder i
  · subst hx
    simp [Chan.bufAt, Chan.reordered, hi]
  · rw [Function.update_of_ne hx]
    cases x with
    | reorder j =>
      have hj : j ≠ i := fun e => hx (e ▸ rfl)
      simp [Chan.bufAt, Chan.reordered, Function.update_of_ne hj]
    | outgoing j => rfl
    | recvQueue j => rfl
    | frag j => rfl

theorem reorderStore_inv {s : Core} {k : Nat} (h : s.Inv) (hk : s.chanUsed k = true)
    {seq : UInt16} {data : List UInt8} (hlen : data.length ≤ ncMaxMsg)
    (hlo : 0 < int16 (seq - (s.chanPool k).recvSeq))
    (hhi : int16 (seq - (s.chanPool k).recvSeq) < 64)
    (hfree : ((s.chanPool k).reorder (seq.toNat % ncReorderSlots)).valid = false) :
    (reorderStore s k seq data).Inv := by
  rw [reorderStore_eq]
  split_ifs with htop
  · have hch := h.chans k hk
    have hi : seq.toNat % 64 < 64 := Nat.mod_lt _ (by decide)
    refine h.takeInto hk htop data (.reorder (seq.toNat % 64)) (fun _ => rfl) ?_
      (fun b => by rw [bufAt_reordered _ _ _ hi]; rfl)
      (fun b => ⟨hch.out, hch.queue, ?_, hch.frag⟩)
    · simp [Chan.bufAt, hfree]
    · exact hch.reorder.update (fun _ => ⟨⟨b, rfl⟩, hlen⟩) (fun _ => rfl)
        (fun _ => ⟨hlo.le, hhi⟩)
  · exact h

theorem reorderStore_touch (s : Core) (k : Nat) (seq : UInt16) (data : List UInt8) :
    Core.Touch k s (reorderStore s k seq data) := by
  rw [reorderStore_eq]
  split_ifs
  · exact Core.Touch.takeInto s k data fun _ => ⟨rfl, rfl, rfl, rfl, rfl⟩
  · exact Core.Touch.refl k s

theorem reorderRelease_eq (s : Core) (k slot : Nat) :
    reorderRelease s k slot =
      (poolPut s ((s.chanPool k).reorder slot).buf).modChan k fun ch =>
        ch.reordered slot { (s.chanPool k).reorder slot with buf := none, valid := false } := rfl

theorem reorderRelease_inv {s : Core} {k slot : Nat} (h : s.Inv) (hk : s.chanUsed k = true)
    (hslot : slot < 64) (hvalid : ((s.chanPool k).reorder slot).valid = true) :
    (reorderRelease s k slot).Inv := by
  have hch := h.chans k hk
  have hbuf : ((s.chanPool k).reorder slot).buf = (s.chanPool k).bufAt (.reorder slot) := by
    simp [Chan.bufAt, hslot, hvalid]
  rw [reorderRelease_eq, hbuf]
  refine h.release hk (.reorder slot) rfl ?_ ?_
  · rw [bufAt_reordered _ _ _ hslot]
    rfl
  · refine ⟨hch.out, hch.queue, hch.reorder.update ?_ ?_ ?_, hch.frag⟩ <;> simp

theorem reorderRelease_touch (s : Core) (k slot : Nat) :
    Core.Touch k s (reorderRelease s k slot) := by
  rw [reorderRelease_eq]
  exact (Core.Touch.poolPut k s _).trans (Core.Touch.modChan _ k ⟨rfl, rfl, rfl, rfl, rfl⟩)

theorem bumpRecvSeq_inv {s : Core} {k : Nat} (h : s.Inv) (hk : s.chanUsed k = true)
    (hnone : ∀ i < 64, ((s.chanPool k).reorder i).valid = true →
      ((s.chanPool k).reorder i).seq ≠ (s.chanPool k).recvSeq) :
    (bumpRecvSeq s k).Inv := by
  have hch := h.chans k hk
  exact (h.keep hk { s.chanPool k with recvSeq := (s.chanPool k).recvSeq + 1 } rfl
    (by funext x; cases x <;> rfl) ⟨hch.out, hch.queue, hch.reorder.bump hnone, hch.frag⟩
    s.poolStore s.log).mark _

theorem bumpRecvSeq_touch (s : Core) (k : Nat) : Core.Touch k s (bumpRecvSeq s k) :=
  (Core.Touch.modChan s k ⟨rfl, rfl, rfl, rfl, rfl⟩).trans (Core.Touch.mark _ rfl)

/-! ## Draining the reorder table -/

@[simp] theorem evStore_toCore (c : Conn) (e : Event) : (evStore c e).toCore = c.toCore := by
  simp only [evStore]
  split_ifs <;> rfl

@[simp] theorem evPush_toCore (c : Conn) (t : EvType) (ch : Option Nat) :
    (evPush c t ch).toCore = c.toCore := evStore_toCore _ _

@[simp] theorem ctrlReserve_toCore (c : Conn) (frame : List UInt8) :
    (ctrlReserve c frame).toCore = c.toCore := by
  unfold ctrlReserve
  split_ifs <;> rfl

/-- The tables after one round of `chan_deliver_reordered`. -/
def deliverCore (s : Core) (k : Nat) : Core :=
  let slot := (s.chanPool k).recvSeq.toNat % ncReorderSlots
  let r := (s.chanPool k).reorder slot
  bumpRecvSeq (reorderRelease (chanRecvEnqueue s k (s.bytes (poolPtr r.buf) r.len)).1 k slot) k

@[simp] theorem deliverOne_toCore (c : Conn) (k : Nat) :
    (deliverOne c k).toCore = deliverCore c.toCore k := by
  simp [deliverOne, deliverCore]

theorem ReorderInv.slot_of_seq {r : Nat → Reorder} {recvSeq : UInt16}
    (hr : ReorderInv r recvSeq) {i : Nat} (hi : i < 64) (hv : (r i).valid = true)
    (hseq : (r i).seq = recvSeq) : i = recvSeq.toNat % 64 := by
  rw [← hr.place i hi hv, hseq]

theorem deliverCore_inv {s : Core} {k : Nat} (h : s.Inv) (hk : s.chanUsed k = true)
    (hd : deliverable (s.chanPool k) = true) : (deliverCore s k).Inv := by
  simp only [deliverable, Bool.and_eq_true, beq_iff_eq] at hd
  have hslot : (s.chanPool k).recvSeq.toNat % 64 < 64 := Nat.mod_lt _ (by decide)
  simp only [deliverCore]
  generalize hdata : s.bytes (poolPtr ((s.chanPool k).reorder
    ((s.chanPool k).recvSeq.toNat % ncReorderSlots)).buf) ((s.chanPool k).reorder
    ((s.chanPool k).recvSeq.toNat % ncReorderSlots)).len = data
  obtain ⟨hseq, hreo, -⟩ := chanRecvEnqueue_recvSeq s k data
  have h1 := chanRecvEnqueue_inv h hk data
  have hk1 := (chanRecvEnqueue_touch s k data).used hk
  have h2 := reorderRelease_inv h1 hk1 hslot (by rw [hreo]; exact hd.1)
  refine bumpRecvSeq_inv h2 ((reorderRelease_touch _ k _).used hk1) ?_
  -- the only slot that waited for the expected number has just been cleared
  intro i hi hv hwait
  have hne : i ≠ (s.chanPool k).recvSeq.toNat % 64 := by
    rintro rfl
    simp [reorderRelease, Core.modChan] at hv
  have hold : (((chanRecvEnqueue s k data).1.chanPool k).reorder i).valid = true ∧
      (((chanRecvEnqueue s k data).1.chanPool k).reorder i).seq =
        (s.chanPool k).recvSeq := by
    have hpool : ∀ b, (poolPut (chanRecvEnqueue s k data).1 b).chanPool =
        (chanRecvEnqueue s k data).1.chanPool := by
      intro b
      cases b <;> rfl
    simpa [reorderRelease, Core.modChan, Function.update_of_ne hne, hpool, hseq] using
      And.intro hv hwait
  rw [hreo] at hold
  exact hne ((h.chans k hk).reorder.slot_of_seq hi hold.1 hold.2)

theorem deliverCore_touch (s : Core) (k : Nat) : Core.Touch k s (deliverCore s k) :=
  ((chanRecvEnqueue_touch s k _).trans (reorderRelease_touch _ k _)).trans
    (bumpRecvSeq_touch _ k)

theorem deliverLoop_inv (fuel : Nat) {c : Conn} {k : Nat} (h : c.toCore.Inv)
    (hk : c.chanUsed k = true) :
    (deliverLoop fuel c k).toCore.Inv ∧ Core.Touch k c.toCore (deliverLoop fuel c k).toCore := by
  refine deliverLoop_rule (P := fun d => d.toCore.Inv ∧ Core.Touch k c.toCore d.toCore)
    (fun d hd ⟨h, ht⟩ => ?_) fuel ⟨h, Core.Touch.refl k _⟩
  rw [deliverOne_toCore]
  exact ⟨deliverCore_inv h (ht.used hk) hd, ht.trans (deliverCore_touch _ k)⟩

theorem deliverLoop_tables {P : Core → Prop} {k : Nat}
    (hround : ∀ s : Core, s.Inv → s.chanUsed k = true → deliverable (s.chanPool k) = true → P s →
      P (deliverCore s k)) (fuel : Nat) {c : Conn} (h : c.toCore.Inv) (hk : c.chanUsed k = true)
    (hP : P c.toCore) : P (deliverLoop fuel c k).toCore := by
  refine (deliverLoop_rule (P := fun d => d.toCore.Inv ∧ d.chanUsed k = true ∧ P d.toCore)
    (fun d hd ⟨h, hk, hP⟩ => ?_) fuel ⟨h, hk, hP⟩).2.2
  rw [deliverOne_toCore]
  exact ⟨deliverCore_inv h hk hd, (deliverCore_touch _ k).used hk, hround d.toCore h hk hd hP⟩

/-! ## Fragment slots -/

/-- The record after fragment slot `i` changed. -/
def Chan.refragged (ch : Chan) (i : Nat) (f : FragAsm) : Chan :=
  { ch with frags := Function.update ch.frags i f }

theorem bufAt_refragged (ch : Chan) (i : Nat) (f : FragAsm) (hi : i < 4) :
    (ch.refragged i f).bufAt =
      Function.update ch.bufAt (.frag i) (if f.active = true then f.buf else none) := by
  funext x
  by_cases hx : x = .frag i
  · subst hx
    simp [Chan.bufAt, Chan.refragged, hi]
  · rw [Function.update_of_ne hx]
    cases x with
    | frag j =>
      have hj : j ≠ i := fun e => hx (e ▸ rfl)
      simp [Chan.bufAt, Chan.refragged, Function.update_of_ne hj]
    | outgoing j => rfl
    | recvQueue j => rfl
    | reorder j => rfl

theorem ChanInv.refragged {fp : Nat} {ch : Chan} (h : ChanInv fp ch) (i : Nat) {f : FragAsm}
    (hf : f.active = true → FragInv fp f) : ChanInv fp (ch.refragged i f) := by
  refine ⟨h.out, h.queue, h.reorder, fun j hj hact => ?_⟩
  by_cases hji : j = i
  · subst hji
    simp only [Chan.refragged, Function.update_self] at hact ⊢
    exact hf hact
  · simp only [Chan.refragged, Function.update_of_ne hji] at hact ⊢
    exact h.frag j hj hact

theorem fragFind_some {ch : Chan} {seq : UInt16} {i : Nat} (h : fragFind ch seq = some i) :
    i < 4 ∧ (ch.frags i).active = true ∧ (ch.frags i).seq = seq := by
  unfold fragFind at h
  have hmem := List.mem_of_find?_eq_some h
  have hp := List.find?_some h
  simp only [List.mem_range, Bool.and_eq_true, beq_iff_eq] at hmem hp
  exact ⟨hmem, hp.1, hp.2⟩

/-- A slot that `frag_alloc` has just claimed. -/
def FragAsm.claimed (seq : UInt16) (total b : Nat) : FragAsm :=
  { FragAsm.zero with seq := seq, total := total, active := true, buf := some b }

theorem fragAlloc_cases (s : Core) (k : Nat) (seq : UInt16) (total : Nat) :
    fragAlloc s k seq total = (s, none) ∨
      ∃ i < 4, ((s.chanPool k).frags i).active = false ∧ total ≤ ncMaxFrags ∧
        0 < s.poolFreeTop ∧
        fragAlloc s k seq total =
          (s.takeInto k [] fun b ch => ch.refragged i (FragAsm.claimed seq total b), some i) := by
  simp only [fragAlloc, poolGet]
  by_cases htotal : ncMaxFrags < total
  · simp [htotal]
  · simp only [gt_iff_lt, htotal, if_false]
    cases hfind : (List.range ncFragSlots).find? fun i => !((s.chanPool k).frags i).active with
    | none => exact Or.inl rfl
    | some i =>
      by_cases htop : s.poolFreeTop = 0
      · simp [htop]
      · right
        have hmem := List.mem_of_find?_eq_some hfind
        have hp := List.find?_some hfind
        simp only [List.mem_range, Bool.not_eq_true'] at hmem hp
        refine ⟨i, hmem, hp, Nat.not_lt.1 htotal, Nat.pos_of_ne_zero htop, ?_⟩
        have hstore : (s.memcpy (s.poolFree (s.poolFreeTop - 1) * ncMaxMsg) []).poolStore =
            s.poolStore := by
          funext a
          simp [Core.memcpy]
        simp [htop, Core.takeInto, hstore, Core.modChan, Chan.refragged, FragAsm.claimed]

theorem fragAlloc_inv {s : Core} {k : Nat} (h : s.Inv) (hk : s.chanUsed k = true)
    (seq : UInt16) {total : Nat} (htotal : 1 < total) :
    (fragAlloc s k seq total).1.Inv ∧ Core.Touch k s (fragAlloc s k seq total).1 := by
  rcases fragAlloc_cases s k seq total with heq | ⟨i, hi, hidle, hle, htop, heq⟩
  · rw [heq]
    exact ⟨h, Core.Touch.refl k s⟩
  · rw [heq]
    dsimp only
    have hch := h.chans k hk
    refine ⟨h.takeInto hk htop [] (.frag i) (fun _ => rfl) ?_ (fun b => ?_) (fun b => ?_), ?_⟩
    · simp [Chan.bufAt, hidle]
    · rw [bufAt_refragged _ _ _ hi]
      rfl
    · exact hch.refragged i fun _ => FragInv.alloc _ seq b htotal hle
    · exact Core.Touch.takeInto s k [] fun _ => ⟨rfl, rfl, rfl, rfl, rfl⟩

/-- The slot after one more fragment. -/
def FragAsm.stored (f : FragAsm) (i len : Nat) : FragAsm :=
  { f with
    offsets := Function.update f.offsets i len
    bitmask := f.bitmask ||| 1 <<< i
    haveN := f.haveN + 1 }

theorem fragStore_eq (s : Core) (k i fragIdx : Nat) (payload : List UInt8) :
    fragStore s k i fragIdx payload =
      ((s.memcpy (poolPtr ((s.chanPool k).frags i).buf + fragIdx * maxFragPayload s.cfg)
          payload).mark
        (.fragWrite k ((s.chanPool k).frags i).buf
          (poolPtr ((s.chanPool k).frags i).buf + fragIdx * maxFragPayload s.cfg)
          payload.length)).modChan k fun ch =>
        ch.refragged i (((s.chanPool k).frags i).stored fragIdx payload.length) := rfl

theorem fragStore_inv {s : Core} {k i fragIdx : Nat} {payload : List UInt8} (h : s.Inv)
    (hk : s.chanUsed k = true) (hi : i < 4) (hact : ((s.chanPool k).frags i).active = true)
    (hidx : fragIdx < ((s.chanPool k).frags i).total)
    (hnew : ((s.chanPool k).frags i).bitmask.testBit fragIdx = false)
    (hfits : fragIdx * maxFragPayload s.cfg + payload.length ≤ ncMaxMsg) :
    (fragStore s k i fragIdx payload).Inv := by
  have hch := h.chans k hk
  have hf := hch.frag i hi hact
  rw [fragStore_eq]
  refine h.keep hk ((s.chanPool k).refragged i
    (((s.chanPool k).frags i).stored fragIdx payload.length)) rfl ?_
    (hch.refragged i fun _ => hf.store hidx hnew hfits) _ _
  rw [bufAt_refragged _ _ _ hi]
  apply Function.update_eq_self_iff.2
  simp [Chan.bufAt, FragAsm.stored, hi, hact]

theorem fragStore_touch (s : Core) (k i fragIdx : Nat) (payload : List UInt8) :
    Core.Touch k s (fragStore s k i fragIdx payload) := by
  rw [fragStore_eq]
  exact ((Core.Touch.pool k s _ _).trans (Core.Touch.mark _ rfl)).trans
    (Core.Touch.modChan _ k ⟨rfl, rfl, rfl, rfl, rfl⟩)

theorem compactLoop_chanPool (k : Nat) (f : FragAsm) (fp : Nat) (is : List Nat) (s : Core)
    (pos : Nat) :
    ∃ store log, (compactLoop k f fp is s pos).1 = { s with poolStore := store, log := log } ∧
      ∃ ms, log = s.log ++ ms ∧ ∀ m ∈ ms, ∃ buf addr len, m = .fragWrite k buf addr len := by
  induction is generalizing s pos with
  | nil => exact ⟨s.poolStore, s.log, rfl, [], by simp, by simp⟩
  | cons i is ih =>
    simp only [compactLoop]
    split_ifs
    · obtain ⟨store, log, heq, ms, hlog, hms⟩ := ih ((s.memmove (poolPtr f.buf + pos)
        (poolPtr f.buf + i * fp) (f.offsets i)).mark
        (.fragWrite k f.buf (poolPtr f.buf + pos) (f.offsets i))) (pos + f.offsets i)
      refine ⟨store, log, heq, _ :: ms, by rw [hlog, Core.mark, List.append_assoc]; rfl, ?_⟩
      intro m hm
      rcases List.mem_cons.1 hm with rfl | hm
      · exact ⟨_, _, _, rfl⟩
      · exact hms m hm
    · exact ih s (pos + f.offsets i)

theorem fragFree_eq (s : Core) (k i : Nat) :
    fragFree s k i =
      (poolPut s ((s.chanPool k).frags i).buf).modChan k fun ch =>
        ch.refragged i FragAsm.zero := rfl

theorem fragFree_inv {s : Core} {k i : Nat} (h : s.Inv) (hk : s.chanUsed k = true)
    (hi : i < 4) (hact : ((s.chanPool k).frags i).active = true) : (fragFree s k i).Inv := by
  have hbuf : ((s.chanPool k).frags i).buf = (s.chanPool k).bufAt (.frag i) := by
    simp [Chan.bufAt, hi, hact]
  rw [fragFree_eq, hbuf]
  refine h.release hk (.frag i) rfl ?_ ((h.chans k hk).refragged i ?_)
  · rw [bufAt_refragged _ _ _ hi]
    rfl
  · simp [FragAsm.zero]

theorem fragFree_touch (s : Core) (k i : Nat) : Core.Touch k s (fragFree s k i) := by
  rw [fragFree_eq]
  exact (Core.Touch.poolPut k s _).trans (Core.Touch.modChan _ k ⟨rfl, rfl, rfl, rfl, rfl⟩)

/-! ## Receiving a fragment -/

theorem fragSlot_spec {s : Core} {k : Nat} (h : s.Inv) (hk : s.chanUsed k = true)
    (seq : UInt16) {total : Nat} (htotal : 1 < total) :
    (fragSlot s k seq total).1.Inv ∧ Core.Touch k s (fragSlot s k seq total).1 ∧
      ∀ i, (fragSlot s k seq total).2 = some i →
        i < 4 ∧ (((fragSlot s k seq total).1.chanPool k).frags i).active = true ∧
          (((fragSlot s k seq total).1.chanPool k).frags i).seq = seq := by
  unfold fragSlot
  cases hfind : fragFind (s.chanPool k) seq with
  | some i =>
    refine ⟨h, Core.Touch.refl k s, fun j hj => ?_⟩
    cases hj
    exact fragFind_some hfind
  | none =>
    obtain ⟨h1, ht⟩ := fragAlloc_inv h hk seq htotal
    refine ⟨h1, ht, fun j hj => ?_⟩
    rcases fragAlloc_cases s k seq total with heq | ⟨i, hi, -, -, -, heq⟩
    · dsimp only at hj
      rw [heq] at hj
      cases hj
    · dsimp only at hj ⊢
      rw [heq] at hj ⊢
      cases hj
      simp [hi, Core.takeInto, Chan.refragged, FragAsm.claimed]

/-- The tables after a fragment that its slot accepts was stored, and compacted if it
was the last one. -/
def fragTail (s : Core) (k i fragIdx : Nat) (payload : List UInt8) : Core × Option (Nat × Nat) :=
  let s := fragStore s k i fragIdx payload
  let f := (s.chanPool k).frags i
  if f.haveN = f.total then
    ((compactLoop k f (maxFragPayload s.cfg) (List.range f.total) s 0).1,
      some (i, (compactLoop k f (maxFragPayload s.cfg) (List.range f.total) s 0).2))
  else (s, none)

theorem fragReceive_cases (s : Core) (k : Nat) (seq : UInt16) (fragIdx fragTotal : Nat)
    (payload : List UInt8) :
    fragReceive s k seq fragIdx fragTotal payload = ((fragSlot s k seq fragTotal).1, none) ∨
      ∃ i, (fragSlot s k seq fragTotal).2 = some i ∧
        (((fragSlot s k seq fragTotal).1.chanPool k).frags i).accepts
          (fragSlot s k seq fragTotal).1.cfg fragIdx payload.length ∧
        fragReceive s k seq fragIdx fragTotal payload =
          fragTail (fragSlot s k seq fragTotal).1 k i fragIdx payload := by
  simp only [fragReceive, fragTail]
  rcases hslot : fragSlot s k seq fragTotal with ⟨s1, _ | i⟩
  · exact Or.inl rfl
  · by_cases hacc : ((s1.chanPool k).frags i).accepts s1.cfg fragIdx payload.length
    · exact Or.inr ⟨i, rfl, hacc, by simp [hacc]⟩
    · exact Or.inl (by simp [hacc])

theorem fragTail_spec {s : Core} {k i fragIdx : Nat} {payload : List UInt8} (h : s.Inv)
    (hk : s.chanUsed k = true) (hi : i < 4) (hact : ((s.chanPool k).frags i).active = true)
    (hacc : ((s.chanPool k).frags i).accepts s.cfg fragIdx payload.length) :
    (fragTail s k i fragIdx payload).1.Inv ∧
      Core.Touch k s (fragTail s k i fragIdx payload).1 ∧
      (fragTail s k i fragIdx payload).1.chanPool =
        (fragStore s k i fragIdx payload).chanPool := by
  have h1 := fragStore_inv h hk hi hact hacc.1 hacc.2.1 hacc.2.2
  have ht := fragStore_touch s k i fragIdx payload
  simp only [fragTail]
  split_ifs
  · obtain ⟨store, log, heq, ms, hlog, hms⟩ := compactLoop_chanPool k
      (((fragStore s k i fragIdx payload).chanPool k).frags i)
      (maxFragPayload (fragStore s k i fragIdx payload).cfg)
      (List.range (((fragStore s k i fragIdx payload).chanPool k).frags i).total)
      (fragStore s k i fragIdx payload) 0
    simp only [heq]
    refine ⟨⟨h1.table, h1.used, h1.pool, h1.chans⟩, ht.trans ?_, trivial⟩
    refine ⟨rfl, rfl, rfl, fun _ _ => rfl, ⟨rfl, rfl, rfl, rfl, rfl⟩, ms, hlog, fun m hm => ?_⟩
    obtain ⟨buf, addr, len, rfl⟩ := hms m hm
    rfl
  · exact ⟨h1, ht, rfl⟩

theorem fragReceive_spec {s : Core} {k : Nat} (h : s.Inv) (hk : s.chanUsed k = true)
    (seq : UInt16) (fragIdx : Nat) {fragTotal : Nat} (htotal : 1 < fragTotal)
    (payload : List UInt8) :
    (fragReceive s k seq fragIdx fragTotal payload).1.Inv ∧
      Core.Touch k s (fragReceive s k seq fragIdx fragTotal payload).1 ∧
      ∀ i pos, (fragReceive s k seq fragIdx fragTotal payload).2 = some (i, pos) →
        i < 4 ∧
          (((fragReceive s k seq fragIdx fragTotal payload).1.chanPool k).frags i).active =
            true := by
  obtain ⟨h1, ht, hsome⟩ := fragSlot_spec h hk seq htotal
  rcases fragReceive_cases s k seq fragIdx fragTotal payload with heq | ⟨i, hi, hacc, heq⟩
  · rw [heq]
    exact ⟨h1, ht, fun _ _ hc => by cases hc⟩
  · rw [heq]
    obtain ⟨hi4, hact, -⟩ := hsome i hi
    obtain ⟨h2, ht2, hpool⟩ := fragTail_spec h1 (ht.used hk) hi4 hact hacc
    refine ⟨h2, ht.trans ht2, fun j pos hj => ?_⟩
    have hji : j = i := by
      simp only [fragTail] at hj
      split_ifs at hj
      simp only [Option.some.injEq, Prod.mk.injEq] at hj
      exact hj.1.symm
    subst hji
    refine ⟨hi4, ?_⟩
    rw [hpool, fragStore_eq]
    simpa [Core.modChan, Chan.refragged, FragAsm.stored] using hact

end MechanicalResearcher.NetchanV2
