import Mathlib.Algebra.Group.Action.Defs
import Mathlib.Algebra.Order.BigOperators.Group.List
import MechanicalResearcher.Lib.Ring
import MechanicalResearcher.NetchanV2.Reorder

/-!
# The receive queue

The receive ring of a channel as a queue of messages: what was put into it is
what `netchan_chan_read` returned and then what is still there (`Inbox`).  A
reliable channel drops a message when the ring or the buffer pool is full at the
moment the message is due; `RoomFor` says when an arriving message and all that
waited for it find room.
-/

namespace MechanicalResearcher.NetchanV2

open Lib Lib.Serial Lib.Ownership

variable {i : Nat} {K : Nat → Slot → Prop} {ms : List Mark} {data : List UInt8} {c : Conn}

/-! ## History -/

/-- The messages `chan_recv_enqueue` put in `recv_queue` of channel record `k`. -/
def taken (k : Nat) (log : List Mark) : List (List UInt8) :=
  log.filterMap fun
    | .enqueue j data ok => if j = k ∧ ok = true then some data else none
    | _ => none

/-- The messages `netchan_chan_read` returned for channel record `k`. -/
def reads (k : Nat) (log : List Mark) : List (List UInt8) :=
  log.filterMap fun
    | .read j data => if j = k then some data else none
    | _ => none

@[simp] theorem taken_append (k : Nat) (l l' : List Mark) :
    taken k (l ++ l') = taken k l ++ taken k l' := by
  simp [taken]

@[simp] theorem reads_append (k : Nat) (l l' : List Mark) :
    reads k (l ++ l') = reads k l ++ reads k l' := by
  simp [reads]

theorem taken_sublist_handed (k : Nat) (log : List Mark) :
    (taken k log).Sublist (handed k log) := by
  induction log with
  | nil => exact List.Sublist.refl _
  | cons m log ih =>
    cases m with
    | enqueue j data ok =>
      by_cases hj : j = k
      · cases ok with
        | true => simpa [taken, handed, hj] using ih
        | false => simpa [taken, handed, hj] using ih.cons data
      · simpa [taken, handed, hj] using ih
    | _ => simpa [taken, handed] using ih

theorem RecvKept.queue_log {k : Nat} {s s' : Core} (h : RecvKept k s s') :
    ∃ ms, s'.log = s.log ++ ms ∧ taken k ms = [] ∧ reads k ms = [] := by
  obtain ⟨ms, hlog, hms⟩ := h.log
  refine ⟨ms, hlog, ?_, ?_⟩
  · simp only [taken, List.filterMap_eq_nil_iff]
    intro m hm
    cases m with
    | enqueue j data ok => exact if_neg fun e => hms _ hm rfl e.1
    | _ => rfl
  · simp only [reads, List.filterMap_eq_nil_iff]
    intro m hm
    cases m with
    | read j data => exact if_neg (hms _ hm rfl)
    | _ => rfl

/-! ## The queue -/

/-- The message of entry `i`. -/
def queueMsg (s : Core) (k i : Nat) : List UInt8 :=
  s.bytes (poolPtr ((s.chanPool k).recvQueue i).buf) ((s.chanPool k).recvQueue i).len

def queueMsgs (s : Core) (k : Nat) : List (List UInt8) :=
  Ring.contents ncRecvQueue (queueMsg s k) (s.chanPool k).rqHead (s.chanPool k).rqTail

def queueLen (ch : Chan) : Nat := Ring.len ncRecvQueue ch.rqHead ch.rqTail

theorem inRing_cell {h t : Nat} (hh : h < 64) (hi : i < Ring.len 64 h t) :
    InRing h t ((h + i) % 64) := by
  unfold InRing
  unfold Ring.len at hi
  omega

theorem queueMsg_keep {s s' : Core} {k : Nat} (h : s.Inv) (hk : s.chanUsed k = true)
    (hkeep : Core.Keeps K s s') (hi : i < 64)
    (hring : InRing (s.chanPool k).rqHead (s.chanPool k).rqTail i) (hK : K k (.recvQueue i))
    (hentry : (s'.chanPool k).recvQueue i = (s.chanPool k).recvQueue i) :
    queueMsg s' k i = queueMsg s k i := by
  obtain ⟨⟨b, hb⟩, hlen⟩ := (h.chans k hk).queue.busy i hi hring
  have hslot : s.bufAt (.slot k (.recvQueue i)) = some b := by
    simp [Core.bufAt, Chan.bufAt, hk, hi, hb]
  unfold queueMsg
  rw [hentry, hb]
  exact hkeep.bytes hK hslot hlen

theorem queueMsgs_keep {s s' : Core} {k : Nat} (h : s.Inv) (hk : s.chanUsed k = true)
    (hkeep : Core.Keeps K s s')
    (hK : ∀ i, InRing (s.chanPool k).rqHead (s.chanPool k).rqTail i → K k (.recvQueue i))
    (hq : (s'.chanPool k).recvQueue = (s.chanPool k).recvQueue)
    (hhead : (s'.chanPool k).rqHead = (s.chanPool k).rqHead)
    (htail : (s'.chanPool k).rqTail = (s.chanPool k).rqTail) :
    queueMsgs s' k = queueMsgs s k := by
  unfold queueMsgs
  rw [hhead, htail]
  apply Ring.contents_congr
  intro i hi
  have hring := inRing_cell (h.chans k hk).queue.head_lt hi
  exact queueMsg_keep h hk hkeep (Nat.mod_lt _ (by decide)) hring (hK _ hring) (by rw [hq])

/-- The bytes of a list of messages. -/
def msgBytes (ms : List (List UInt8)) : Nat := (ms.map List.length).sum

@[simp] theorem msgBytes_append (ms ms' : List (List UInt8)) :
    msgBytes (ms ++ ms') = msgBytes ms + msgBytes ms' := by
  simp [msgBytes]

theorem msgBytes_sublist {ms ms' : List (List UInt8)} (h : ms.Sublist ms') :
    msgBytes ms ≤ msgBytes ms' :=
  (h.map _).sum_le_sum fun _ _ => Nat.zero_le _

theorem queueMsgs_bytes_le {s : Core} {k : Nat} (h : s.Inv) (hk : s.chanUsed k = true) :
    msgBytes (queueMsgs s k) ≤ 63 * ncMaxMsg := by
  have hq := (h.chans k hk).queue
  have hlen := Ring.len_lt hq.head_lt hq.tail_lt
  have hall : ∀ n ∈ (queueMsgs s k).map List.length, n ≤ ncMaxMsg := by
    intro n hn
    obtain ⟨msg, hmsg, rfl⟩ := List.mem_map.1 hn
    obtain ⟨i, hi, rfl⟩ := List.mem_map.1 hmsg
    have hring := inRing_cell hq.head_lt (List.mem_range.1 hi)
    simpa [queueMsg, Core.bytes] using (hq.busy _ (Nat.mod_lt _ (by decide)) hring).2
  have hsum := List.sum_le_card_nsmul _ _ hall
  simp only [List.length_map, queueMsgs, Ring.length_contents, smul_eq_mul] at hsum
  calc msgBytes (queueMsgs s k) ≤ Ring.len 64 (s.chanPool k).rqHead (s.chanPool k).rqTail *
        ncMaxMsg := hsum
    _ ≤ 63 * ncMaxMsg := Nat.mul_le_mul_right _ (by omega)

/-- What was put in the queue was returned or is still there, and `recv_buffered` counts
what is still there. -/
structure Inbox (s : Core) (k : Nat) : Prop where
  fifo : reads k s.log ++ queueMsgs s k = taken k s.log
  buffered : (s.chanPool k).recvBuffered.toNat = msgBytes (queueMsgs s k)

namespace Inbox

variable {s s' : Core} {k : Nat}

theorem keep (h : Inbox s k) (hlog : s'.log = s.log ++ ms) (htaken : taken k ms = [])
    (hreads : reads k ms = []) (hmsgs : queueMsgs s' k = queueMsgs s k)
    (hbuf : (s'.chanPool k).recvBuffered = (s.chanPool k).recvBuffered) : Inbox s' k := by
  refine ⟨?_, by rw [hbuf, hmsgs, h.buffered]⟩
  rw [hlog, reads_append, taken_append, htaken, hreads, List.append_nil, List.append_nil, hmsgs]
  exact h.fifo

theorem recvKept (h : Inbox s k) (hinv : s.Inv) (hk : s.chanUsed k = true)
    (hkept : RecvKept k s s') : Inbox s' k := by
  obtain ⟨ms, hlog, htaken, hreads⟩ := hkept.queue_log
  have hhalf := hkept.half
  simp only [Chan.recvHalf, RecvHalf.mk.injEq] at hhalf
  obtain ⟨-, hbuf, hq, hhead, htail, -, -⟩ := hhalf
  exact h.keep hlog htaken hreads
    (queueMsgs_keep hinv hk hkept.keeps (fun _ _ => ⟨rfl, rfl⟩) hq hhead htail) hbuf

theorem off_rqTail (hring : InRing (s.chanPool k).rqHead (s.chanPool k).rqTail i) :
    Off k (.recvQueue (s.chanPool k).rqTail) k (.recvQueue i) := by
  rintro ⟨-, e⟩
  simp only [Slot.recvQueue.injEq] at e
  exact not_inRing_tail (e ▸ hring)

theorem enqueue (h : Inbox s k) (hinv : s.Inv) (hk : s.chanUsed k = true) (data : List UInt8) :
    Inbox (chanRecvEnqueue s k data).1 k := by
  have hq := (hinv.chans k hk).queue
  have hkeep := chanRecvEnqueue_keeps hinv hk data
  rw [chanRecvEnqueue_fst] at hkeep ⊢
  split_ifs at hkeep ⊢ with hcan
  · obtain ⟨hroom, hlen, htop⟩ := hcan
    have hchan : (((s.takeInto k data fun b ch => ch.enqueued b data.length).mark
        (.enqueue k data true)).chanPool k) =
        (s.chanPool k).enqueued (s.poolFree (s.poolFreeTop - 1)) data.length := by
      simp [Core.takeInto, Core.mark]
    generalize hs' : (s.takeInto k data fun b ch => ch.enqueued b data.length).mark
      (.enqueue k data true) = s' at hkeep hchan ⊢
    have hnew : queueMsg s' k (s.chanPool k).rqTail = data := by
      unfold queueMsg
      rw [hchan]
      simp only [Chan.enqueued, Function.update_self]
      rw [← hs']
      exact takeInto_bytes s k data fun b ch => ch.enqueued b data.length
    have hmsgs : queueMsgs s' k = queueMsgs s k ++ [data] := by
      unfold queueMsgs
      rw [hchan]
      simp only [Chan.enqueued]
      rw [Ring.contents_push hq.head_lt hq.tail_lt hroom, hnew]
      intro i hi
      have hring := inRing_cell hq.head_lt hi
      refine queueMsg_keep hinv hk hkeep (Nat.mod_lt _ (by decide)) hring
        (off_rqTail hring) ?_
      rw [hchan]
      simp only [Chan.enqueued, Function.update_of_ne (Ring.cell_ne_tail hq.head_lt hq.tail_lt hi)]
    have hlog : s'.log = s.log ++ [.enqueue k data true] := by
      rw [← hs']
      simp [Core.takeInto, Core.mark]
    refine ⟨?_, ?_⟩
    · rw [hlog, hmsgs, reads_append, taken_append, ← h.fifo]
      simp [reads, taken]
    · have hle := queueMsgs_bytes_le hinv hk
      have hmax : 64 * ncMaxMsg < 2 ^ 32 := by decide
      rw [hchan, hmsgs, msgBytes_append]
      simp only [Chan.enqueued, UInt32.toNat_add, UInt32.toNat_ofNat', h.buffered, msgBytes,
        List.map_cons, List.map_nil, List.sum_singleton] at hle ⊢
      omega
  · exact h.keep rfl (by simp [taken]) (by simp [reads]) rfl rfl

theorem read (h : Inbox s k) (hinv : s.Inv) (hk : s.chanUsed k = true) {buflen : Nat}
    (hlen : ((s.chanPool k).recvQueue (s.chanPool k).rqHead).len ≤ buflen) :
    Inbox (chanRead s k buflen).1 k := by
  have hq := (hinv.chans k hk).queue
  have hkeep := chanRead_keeps s k buflen
  rcases chanRead_cases s k buflen with ⟨r, heq⟩ | ⟨-, hne, e, data, rfl, hdata, heq⟩
  · rwa [heq]
  · rw [heq] at hkeep ⊢
    rw [Nat.min_eq_left hlen] at hdata hkeep ⊢
    have hfirst : data = queueMsg s k (s.chanPool k).rqHead := hdata
    have hold : queueMsgs s k = data :: Ring.contents 64 (queueMsg s k)
        (((s.chanPool k).rqHead + 1) % 64) (s.chanPool k).rqTail := by
      rw [hfirst]
      exact Ring.contents_cons (queueMsg s k) hq.head_lt hq.tail_lt hne
    generalize hs' : ((poolPut s ((s.chanPool k).recvQueue (s.chanPool k).rqHead).buf).modChan k
      fun ch => ch.dequeued ((s.chanPool k).recvQueue (s.chanPool k).rqHead).len).mark
      (.read k data) = s' at hkeep ⊢
    have hchan : s'.chanPool k =
        (s.chanPool k).dequeued ((s.chanPool k).recvQueue (s.chanPool k).rqHead).len := by
      rw [← hs']
      simp [Core.modChan, Core.mark, poolPut_chanPool]
    have hrest : queueMsgs s' k = Ring.contents 64 (queueMsg s k)
        (((s.chanPool k).rqHead + 1) % 64) (s.chanPool k).rqTail := by
      unfold queueMsgs
      rw [hchan]
      simp only [Chan.dequeued]
      apply Ring.contents_congr
      intro i hi
      have hpop := Ring.len_pop hq.head_lt hq.tail_lt hne
      have hi' : i + 1 < Ring.len 64 (s.chanPool k).rqHead (s.chanPool k).rqTail := by
        simp only [ncRecvQueue] at hi
        omega
      simp only [ncRecvQueue, Ring.cell_next]
      have hcell := Ring.cell_ne_head hq.head_lt hq.tail_lt (Nat.succ_pos i) hi'
      refine queueMsg_keep hinv hk hkeep (Nat.mod_lt _ (by decide))
        (inRing_cell hq.head_lt hi') ?_ ?_
      · rintro ⟨-, e⟩
        simp only [Slot.recvQueue.injEq] at e
        exact hcell e
      · rw [hchan]
        simp only [Chan.dequeued, Function.update_of_ne hcell]
    have hlog : s'.log = s.log ++ [.read k data] := by
      rw [← hs']
      simp [Core.modChan, Core.mark, poolPut_log]
    refine ⟨?_, ?_⟩
    · rw [hlog, hrest, reads_append, taken_append, ← h.fifo, hold]
      simp [reads, taken]
    · have hbuf := h.buffered
      have hle := queueMsgs_bytes_le hinv hk
      have hmax : 64 * ncMaxMsg < 2 ^ 32 := by decide
      have hsize : data.length = ((s.chanPool k).recvQueue (s.chanPool k).rqHead).len := by
        rw [hfirst]
        simp [queueMsg, Core.bytes]
      rw [hold] at hbuf hle
      rw [hchan, hrest]
      simp only [msgBytes, List.map_cons, List.sum_cons, hsize] at hbuf hle
      simp only [Chan.dequeued, msgBytes, UInt32.toNat_sub, UInt32.toNat_ofNat']
      omega

theorem other (h : Inbox s k) (hinv : s.Inv) (hk : s.chanUsed k = true) (hkeep : Core.Keeps K s s')
    (hK : ∀ i, K k (.recvQueue i)) (hlog : s'.log = s.log ++ ms) (htaken : taken k ms = [])
    (hreads : reads k ms = []) (hq : (s'.chanPool k).recvQueue = (s.chanPool k).recvQueue)
    (hhead : (s'.chanPool k).rqHead = (s.chanPool k).rqHead)
    (htail : (s'.chanPool k).rqTail = (s.chanPool k).rqTail)
    (hbuf : (s'.chanPool k).recvBuffered = (s.chanPool k).recvBuffered) : Inbox s' k :=
  h.keep hlog htaken hreads (queueMsgs_keep hinv hk hkeep (fun i _ => hK i) hq hhead htail) hbuf

theorem bump (h : Inbox s k) (hinv : s.Inv) (hk : s.chanUsed k = true) :
    Inbox (bumpRecvSeq s k) k := by
  have hlog : (bumpRecvSeq s k).log = s.log ++ [.advance k] := rfl
  refine h.other hinv hk (bumpRecvSeq_keeps (fun _ _ => True) s k) (fun _ => trivial) hlog
    rfl rfl ?_ ?_ ?_ ?_ <;> simp [bumpRecvSeq, Core.modChan, Core.mark]

theorem release (h : Inbox s k) (hinv : s.Inv) (hk : s.chanUsed k = true) {slot : Nat}
    (hslot : slot < 64) : Inbox (reorderRelease s k slot) k := by
  have hlog : (reorderRelease s k slot).log = s.log ++ [] := by
    simp [reorderRelease_eq, Core.modChan, poolPut_log]
  refine h.other hinv hk (reorderRelease_keeps s k hslot) (by simp [Off]) hlog rfl rfl ?_ ?_ ?_ ?_
    <;> simp [reorderRelease_eq, Core.modChan, poolPut_chanPool, Chan.reordered]

theorem store (h : Inbox s k) (hinv : s.Inv) (hk : s.chanUsed k = true) (seq : UInt16)
    (hlen : data.length ≤ ncMaxMsg) : Inbox (reorderStore s k seq data) k := by
  have hkeep := reorderStore_keeps (k := k) hinv seq hlen
  rw [reorderStore_eq] at hkeep ⊢
  split_ifs at hkeep ⊢
  · refine h.other hinv hk hkeep (by simp [Off]) (List.append_nil _).symm rfl rfl ?_ ?_ ?_ ?_
      <;> simp [Core.takeInto, Chan.reordered]
  · exact h

theorem drainOne (h : Inbox s k) (hinv : s.Inv) (hk : s.chanUsed k = true)
    (hd : deliverable (s.chanPool k) = true) : Inbox (deliverCore s k) k := by
  have hvalid : ((s.chanPool k).reorder
      ((s.chanPool k).recvSeq.toNat % ncReorderSlots)).valid = true := by
    simp only [deliverable, Bool.and_eq_true] at hd
    exact hd.1
  have hslot : (s.chanPool k).recvSeq.toNat % ncReorderSlots < 64 := Nat.mod_lt _ (by decide)
  simp only [deliverCore]
  generalize s.bytes (poolPtr ((s.chanPool k).reorder
    ((s.chanPool k).recvSeq.toNat % ncReorderSlots)).buf) ((s.chanPool k).reorder
    ((s.chanPool k).recvSeq.toNat % ncReorderSlots)).len = data
  have hinv1 := chanRecvEnqueue_inv hinv hk data
  have hk1 := (chanRecvEnqueue_touch s k data).used hk
  have hsame := (chanRecvEnqueue_recvSeq s k data).2.1
  have hinv2 := reorderRelease_inv hinv1 hk1 hslot (by rw [hsame]; exact hvalid)
  have hk2 := (reorderRelease_touch (chanRecvEnqueue s k data).1 k
    ((s.chanPool k).recvSeq.toNat % ncReorderSlots)).used hk1
  exact ((h.enqueue hinv hk data).release hinv1 hk1 hslot).bump hinv2 hk2

theorem drain (fuel : Nat) (h : Inbox c.toCore k) (hinv : c.toCore.Inv) (hk : c.chanUsed k = true) :
    Inbox (deliverLoop fuel c k).toCore k :=
  deliverLoop_tables (P := fun s => Inbox s k) (fun _ hinv hk hd h => h.drainOne hinv hk hd) fuel
    hinv hk h

theorem deliver (h : Inbox c.toCore k) (hinv : c.toCore.Inv) (hk : c.chanUsed k = true)
    (hd : deliverable (c.chanPool k) = false) (seq : UInt16) (data : List UInt8) :
    Inbox (deliverReliable c k seq data).toCore k := by
  simp only [deliverReliable]
  split_ifs with hseq hcond
  · have hcore : (Conn.lift (evPush (c.lift fun s => (chanRecvEnqueue s k data).1) .data (some k))
        fun s => bumpRecvSeq s k).toCore =
        bumpRecvSeq (chanRecvEnqueue c.toCore k data).1 k := by simp
    have ht := (chanRecvEnqueue_touch c.toCore k data).trans (bumpRecvSeq_touch _ k)
    have hfirst := (h.enqueue hinv hk data).bump (chanRecvEnqueue_inv hinv hk data)
      ((chanRecvEnqueue_touch c.toCore k data).used hk)
    exact Inbox.drain ncReorderSlots (hcore ▸ hfirst)
      (hcore ▸ bumpRecvSeq_enqueue_inv hinv hk hd data) (by rw [hcore]; exact ht.used hk)
  · exact h.store hinv hk seq hcond.2.2.2
  · exact h

end Inbox

/-! ## Room -/

/-- How many of the messages `seq, seq + 1, …` wait in the reorder table. -/
def waiting (r : Nat → Reorder) : Nat → UInt16 → Nat
  | 0, _ => 0
  | fuel + 1, seq =>
    if (r (seq.toNat % ncReorderSlots)).valid && (r (seq.toNat % ncReorderSlots)).seq == seq then
      waiting r fuel (seq + 1) + 1
    else 0

theorem waiting_update_le (r : Nat → Reorder) (i : Nat) {e : Reorder} (he : e.valid = false)
    (fuel : Nat) (seq : UInt16) :
    waiting (Function.update r i e) fuel seq ≤ waiting r fuel seq := by
  induction fuel generalizing seq with
  | zero => exact le_rfl
  | succ fuel ih =>
    unfold waiting
    by_cases hi : seq.toNat % ncReorderSlots = i
    · simp [hi, he]
    · rw [Function.update_of_ne hi]
      split_ifs
      · exact Nat.succ_le_succ (ih (seq + 1))
      · exact le_rfl

/-- `n` messages fit in the queue, and there are buffers to copy them into. -/
def Fits (s : Core) (k n : Nat) : Prop :=
  queueLen (s.chanPool k) + n ≤ 63 ∧ (0 < n → 0 < s.poolFreeTop)

/-- The next message and the messages waiting for it all find room.  A waiting message gives
its own buffer back, so one more buffer is enough for all of them. -/
def RoomFor (s : Core) (k : Nat) : Prop :=
  queueLen (s.chanPool k) + 1 +
      waiting (s.chanPool k).reorder ncReorderSlots ((s.chanPool k).recvSeq + 1) ≤ 63 ∧
    0 < s.poolFreeTop ∧
    (0 < waiting (s.chanPool k).reorder ncReorderSlots ((s.chanPool k).recvSeq + 1) →
      1 < s.poolFreeTop)

/-- Every message handed over so far was put in the queue. -/
def AllTaken (s : Core) (k : Nat) : Prop := taken k s.log = handed k s.log

theorem AllTaken.keep {s s' : Core} {k : Nat} (h : AllTaken s k) (hlog : s'.log = s.log ++ ms)
    (htaken : taken k ms = handed k ms) : AllTaken s' k := by
  unfold AllTaken at *
  rw [hlog, taken_append, handed_append, h, htaken]

theorem canEnqueue_of_fits {s : Core} {k n : Nat} (h : s.Inv) (hk : s.chanUsed k = true)
    (hfits : Fits s k (n + 1)) (hlen : data.length ≤ ncMaxMsg) :
    CanEnqueue s k data := by
  have hq := (h.chans k hk).queue
  obtain ⟨hroom, htop⟩ := hfits
  refine ⟨fun hfull => ?_, hlen, htop (Nat.succ_pos n)⟩
  have hhead := hq.head_lt
  have htail := hq.tail_lt
  unfold queueLen at hroom
  rw [Ring.len_eq hhead htail] at hroom
  simp only [ncRecvQueue] at hfull hroom
  split_ifs at hroom <;> omega

theorem enqueue_fits {s : Core} {k : Nat} (h : s.Inv) (hk : s.chanUsed k = true)
    (hcan : CanEnqueue s k data) :
    queueLen ((chanRecvEnqueue s k data).1.chanPool k) = queueLen (s.chanPool k) + 1 ∧
      (chanRecvEnqueue s k data).1.poolFreeTop = s.poolFreeTop - 1 ∧
      (chanRecvEnqueue s k data).1.log = s.log ++ [.enqueue k data true] := by
  have hq := (h.chans k hk).queue
  refine ⟨?_, ?_, ?_⟩
  · rw [chanRecvEnqueue_chan, if_pos hcan]
    exact Ring.len_push hq.head_lt hq.tail_lt hcan.1
  · rw [chanRecvEnqueue_fst, if_pos hcan]
    rfl
  · rw [chanRecvEnqueue_fst, if_pos hcan]
    rfl

theorem deliverCore_fits {s : Core} {k n : Nat} (h : s.Inv) (hk : s.chanUsed k = true)
    (hd : deliverable (s.chanPool k) = true) (hfits : Fits s k (n + 1)) :
    queueLen ((deliverCore s k).chanPool k) = queueLen (s.chanPool k) + 1 ∧
      (deliverCore s k).poolFreeTop = s.poolFreeTop ∧
      ∃ data, (deliverCore s k).log = s.log ++ [.enqueue k data true, .advance k] := by
  have hvalid : ((s.chanPool k).reorder
      ((s.chanPool k).recvSeq.toNat % ncReorderSlots)).valid = true := by
    simp only [deliverable, Bool.and_eq_true] at hd
    exact hd.1
  obtain ⟨⟨b, hb⟩, hlen⟩ := (h.chans k hk).reorder.busy _ (Nat.mod_lt _ (by decide)) hvalid
  have hdata : (s.bytes (poolPtr ((s.chanPool k).reorder
      ((s.chanPool k).recvSeq.toNat % ncReorderSlots)).buf) ((s.chanPool k).reorder
      ((s.chanPool k).recvSeq.toNat % ncReorderSlots)).len).length ≤ ncMaxMsg := by
    simpa [Core.bytes] using hlen
  simp only [deliverCore]
  generalize s.bytes (poolPtr ((s.chanPool k).reorder
    ((s.chanPool k).recvSeq.toNat % ncReorderSlots)).buf) ((s.chanPool k).reorder
    ((s.chanPool k).recvSeq.toNat % ncReorderSlots)).len = data at hdata ⊢
  have hcan := canEnqueue_of_fits h hk hfits hdata
  obtain ⟨hqlen, htop, hlog⟩ := enqueue_fits h hk hcan
  have hbuf : (((chanRecvEnqueue s k data).1.chanPool k).reorder
      ((s.chanPool k).recvSeq.toNat % ncReorderSlots)).buf = some b := by
    rw [(chanRecvEnqueue_recvSeq s k data).2.1]
    exact hb
  have hpos := hcan.2.2
  refine ⟨?_, ?_, data, ?_⟩
  · rw [← hqlen]
    simp [bumpRecvSeq, reorderRelease_eq, Core.modChan, Core.mark, poolPut_chanPool,
      Chan.reordered, queueLen]
  · simp only [bumpRecvSeq, reorderRelease_eq, Core.modChan, Core.mark, hbuf, poolPut, htop]
    omega
  · simp [bumpRecvSeq, reorderRelease_eq, Core.modChan, Core.mark, poolPut_log, hlog]

theorem AllTaken.drain (fuel : Nat) {k : Nat} (h : AllTaken c.toCore k) (hinv : c.toCore.Inv)
    (hk : c.chanUsed k = true)
    (hfits : Fits c.toCore k (waiting (c.chanPool k).reorder fuel (c.chanPool k).recvSeq)) :
    AllTaken (deliverLoop fuel c k).toCore k := by
  induction fuel generalizing c with
  | zero => exact h
  | succ fuel ih =>
    unfold deliverLoop
    split_ifs with hd
    · have hwait : waiting (c.chanPool k).reorder (fuel + 1) (c.chanPool k).recvSeq =
          waiting (c.chanPool k).reorder fuel ((c.chanPool k).recvSeq + 1) + 1 := by
        rw [waiting]
        exact if_pos hd
      rw [hwait] at hfits
      obtain ⟨hqlen, htop, data, hlog⟩ := deliverCore_fits hinv hk hd hfits
      obtain ⟨hseq, hreorder⟩ := deliverCore_reorder c.toCore k
      have hinv' := deliverCore_inv hinv hk hd
      have hk' := (deliverCore_touch c.toCore k).used hk
      have htaken : AllTaken (deliverCore c.toCore k) k :=
        h.keep hlog (by simp [taken, handed])
      have hfits' : Fits (deliverCore c.toCore k) k
          (waiting ((deliverCore c.toCore k).chanPool k).reorder fuel
            ((deliverCore c.toCore k).chanPool k).recvSeq) := by
        have hle := waiting_update_le (c.chanPool k).reorder
          ((c.chanPool k).recvSeq.toNat % ncReorderSlots)
          (e := { (c.chanPool k).reorder ((c.chanPool k).recvSeq.toNat % ncReorderSlots) with
            buf := none, valid := false }) rfl fuel ((c.chanPool k).recvSeq + 1)
        rw [← hreorder, ← hseq] at hle
        obtain ⟨hroom, hpool⟩ := hfits
        rw [hseq] at hle ⊢
        exact ⟨by omega, fun _ => by rw [htop]; exact hpool (Nat.succ_pos _)⟩
      rw [← deliverOne_toCore] at hinv' hk' htaken hfits'
      exact ih htaken hinv' hk' hfits'
    · exact h

theorem AllTaken.deliver {k : Nat} (h : AllTaken c.toCore k) (hinv : c.toCore.Inv)
    (hk : c.chanUsed k = true) (hd : deliverable (c.chanPool k) = false) {seq : UInt16}
    (hlen : data.length ≤ ncMaxMsg) (hroom : seq = (c.chanPool k).recvSeq → RoomFor c.toCore k) :
    AllTaken (deliverReliable c k seq data).toCore k := by
  simp only [deliverReliable]
  split_ifs with hseq hcond
  · obtain ⟨hq, htop, htwo⟩ := hroom hseq
    have hcan : CanEnqueue c.toCore k data :=
      canEnqueue_of_fits (n := 0) hinv hk ⟨by omega, fun _ => htop⟩ hlen
    obtain ⟨hqlen, htop', hlog⟩ := enqueue_fits hinv hk hcan
    obtain ⟨hrseq, hreorder, -⟩ := chanRecvEnqueue_recvSeq c.toCore k data
    have hcore : (Conn.lift (evPush (c.lift fun s => (chanRecvEnqueue s k data).1) .data (some k))
        fun s => bumpRecvSeq s k).toCore =
        bumpRecvSeq (chanRecvEnqueue c.toCore k data).1 k := by simp
    have ht := (chanRecvEnqueue_touch c.toCore k data).trans (bumpRecvSeq_touch _ k)
    have hchan : ∀ s : Core, (bumpRecvSeq s k).chanPool k =
        { s.chanPool k with recvSeq := (s.chanPool k).recvSeq + 1 } := by
      intro s
      simp [bumpRecvSeq, Core.modChan, Core.mark]
    have hfirst : AllTaken (bumpRecvSeq (chanRecvEnqueue c.toCore k data).1 k) k := by
      have hlog' : (bumpRecvSeq (chanRecvEnqueue c.toCore k data).1 k).log =
          c.log ++ [.enqueue k data true, .advance k] := by
        simp [bumpRecvSeq, Core.modChan, Core.mark, hlog]
      exact h.keep hlog' (by simp [taken, handed])
    have hfits : Fits (bumpRecvSeq (chanRecvEnqueue c.toCore k data).1 k) k
        (waiting ((bumpRecvSeq (chanRecvEnqueue c.toCore k data).1 k).chanPool k).reorder
          ncReorderSlots
          ((bumpRecvSeq (chanRecvEnqueue c.toCore k data).1 k).chanPool k).recvSeq) := by
      rw [hchan]
      dsimp only
      rw [hreorder, hrseq]
      refine ⟨?_, fun hw => ?_⟩
      · rw [hchan]
        simp only [queueLen] at hqlen ⊢
        rw [hqlen]
        exact hq
      · have : (bumpRecvSeq (chanRecvEnqueue c.toCore k data).1 k).poolFreeTop =
            c.poolFreeTop - 1 := htop'
        have := htwo hw
        omega
    exact AllTaken.drain ncReorderSlots (hcore ▸ hfirst)
      (hcore ▸ bumpRecvSeq_enqueue_inv hinv hk hd data) (by rw [hcore]; exact ht.used hk)
      (by rw [hcore]; exact hfits)
  · have hlog : (reorderStore c.toCore k seq data).log = c.log ++ [] := by
      rw [reorderStore_eq]
      split_ifs <;> simp [Core.takeInto]
    exact h.keep hlog rfl
  · exact h

end MechanicalResearcher.NetchanV2
