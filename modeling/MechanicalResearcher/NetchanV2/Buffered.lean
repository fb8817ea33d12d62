import MechanicalResearcher.NetchanV2.Moves

/-!
# The bytes of the receive queue

`chan_recv_enqueue` adds the length of a message to `recv_buffered` and
`netchan_chan_read` subtracts what it copied.  As long as every read has room
for the whole message the count is that of the queue, and the window that
`netchan_send_next` advertises is the space that is left.
-/

namespace MechanicalResearcher.NetchanV2

open Lib Lib.Runs

/-- The lengths of the entries between `rq_head` and `rq_tail`. -/
def Chan.queuedLens (ch : Chan) : List Nat :=
  Ring.contents ncRecvQueue (fun i => (ch.recvQueue i).len) ch.rqHead ch.rqTail

def Chan.queuedBytes (ch : Chan) : Nat := ch.queuedLens.sum

/-- `recv_buffered` counts the entries of the queue, which are messages. -/
structure Chan.Counted (ch : Chan) : Prop where
  head_lt : ch.rqHead < ncRecvQueue
  tail_lt : ch.rqTail < ncRecvQueue
  small : ∀ n ∈ ch.queuedLens, n ≤ ncMaxMsg
  buffered : ch.recvBuffered.toNat = ch.queuedBytes

namespace Chan.Counted

variable {ch ch' : Chan}

theorem bytes_le (h : ch.Counted) : ch.queuedBytes ≤ 63 * ncMaxMsg := by
  have hlen := Ring.len_lt h.head_lt h.tail_lt
  have hsum := List.sum_le_card_nsmul _ _ h.small
  rw [queuedLens, Ring.length_contents, smul_eq_mul] at hsum
  exact hsum.trans (Nat.mul_le_mul_right _ (Nat.le_of_lt_succ hlen))

theorem congr (h : ch.Counted) (hin : ch'.inbox = ch.inbox) : ch'.Counted := by
  simp only [Chan.inbox, Prod.mk.injEq] at hin
  obtain ⟨hq, hhead, htail, hbuf⟩ := hin
  have hlens : ch'.queuedLens = ch.queuedLens := by
    rw [queuedLens, queuedLens, hq, hhead, htail]
  refine ⟨hhead ▸ h.head_lt, htail ▸ h.tail_lt, hlens ▸ h.small, ?_⟩
  rw [hbuf, queuedBytes, hlens]
  exact h.buffered

theorem enqueued_lens (h : ch.Counted) (hroom : (ch.rqTail + 1) % ncRecvQueue ≠ ch.rqHead)
    (b len : Nat) : (ch.enqueued b len).queuedLens = ch.queuedLens ++ [len] := by
  have hpush := Ring.contents_push (f := fun i => (ch.recvQueue i).len)
    (g := fun i => ((ch.enqueued b len).recvQueue i).len) h.head_lt h.tail_lt hroom ?_
  · exact hpush.trans (by simp only [Chan.enqueued, Function.update_self]; rfl)
  · intro i hi
    simp only [Chan.enqueued,
      Function.update_of_ne (Ring.cell_ne_tail h.head_lt h.tail_lt hi)]

theorem enqueue (h : ch.Counted) (hroom : (ch.rqTail + 1) % ncRecvQueue ≠ ch.rqHead)
    (b : Nat) {len : Nat} (hlen : len ≤ ncMaxMsg) : (ch.enqueued b len).Counted := by
  have hlens := h.enqueued_lens hroom b len
  refine ⟨h.head_lt, Ring.next_lt h.tail_lt, fun n hn => ?_, ?_⟩
  · rw [hlens, List.mem_append, List.mem_singleton] at hn
    rcases hn with hn | rfl
    · exact h.small n hn
    · exact hlen
  · have hle := h.bytes_le
    have hbuf := h.buffered
    have hmax : 64 * ncMaxMsg < 2 ^ 32 := by decide
    rw [queuedBytes, hlens, List.sum_append, List.sum_singleton, ← queuedBytes]
    simp only [Chan.enqueued, UInt32.toNat_add, UInt32.toNat_ofNat']
    omega

theorem dequeue (h : ch.Counted) (hne : ch.rqHead ≠ ch.rqTail) :
    (ch.dequeued (ch.recvQueue ch.rqHead).len).Counted := by
  have hcons : ch.queuedLens = (ch.recvQueue ch.rqHead).len ::
      Ring.contents ncRecvQueue (fun i => (ch.recvQueue i).len)
        ((ch.rqHead + 1) % ncRecvQueue) ch.rqTail :=
    Ring.contents_cons _ h.head_lt h.tail_lt hne
  have hlens : (ch.dequeued (ch.recvQueue ch.rqHead).len).queuedLens =
      Ring.contents ncRecvQueue (fun i => (ch.recvQueue i).len)
        ((ch.rqHead + 1) % ncRecvQueue) ch.rqTail := by
    apply Ring.contents_congr
    intro i hi
    have hpop := Ring.len_pop h.head_lt h.tail_lt hne
    have hi' : i + 1 < Ring.len ncRecvQueue ch.rqHead ch.rqTail := by
      simp only [Chan.dequeued] at hi
      omega
    have hcell := Ring.cell_ne_head h.head_lt h.tail_lt (Nat.succ_pos i) hi'
    simp only [Chan.dequeued, Ring.cell_next]
    rw [Function.update_of_ne hcell]
  refine ⟨Ring.next_lt h.head_lt, h.tail_lt, fun n hn => ?_, ?_⟩
  · rw [hlens] at hn
    exact h.small n (hcons ▸ List.mem_cons_of_mem _ hn)
  · have hle := h.bytes_le
    have hbuf := h.buffered
    have hmax : 64 * ncMaxMsg < 2 ^ 32 := by decide
    rw [queuedBytes, hcons, List.sum_cons] at hbuf hle
    rw [queuedBytes, hlens]
    simp only [Chan.dequeued, UInt32.toNat_sub, UInt32.toNat_ofNat']
    omega

theorem blank {window : UInt32} (hb : ch.Blank window) : ch.Counted := by
  obtain ⟨id, type, dir, role, ct, state, rfl⟩ := hb
  have hzero : 0 < ncRecvQueue := by decide
  have hnil : ∀ f : Nat → Nat, Ring.contents ncRecvQueue f 0 0 = [] := fun f => by
    rw [Ring.contents, Ring.len_self hzero]
    rfl
  refine ⟨hzero, hzero, ?_, ?_⟩ <;>
    simp [queuedBytes, queuedLens, Chan.fresh, Chan.zero, hnil]

theorem moves {w : UInt32 → Prop} (hm : Chan.Moves w ch ch') (h : ch.Counted) : ch'.Counted := by
  induction hm with
  | other hident hin hout hstate => exact h.congr hin
  | enqueue ch b hroom hlen => exact h.enqueue hroom b hlen
  | progress ch ho => exact h.congr rfl
  | release ch j htype => exact h.congr rfl
  | ack ch hj hact => exact h.congr rfl
  | pop ch hne hidle => exact h.congr rfl
  | window ch hw => exact h.congr rfl
  | trans hm hm' ih ih' => exact ih' (ih h)

end Chan.Counted

theorem chanWrite_inbox (s : Core) (k : Nat) (data : List UInt8) :
    ((chanWrite s k data).1.chanPool k).inbox = (s.chanPool k).inbox := by
  rcases chanWrite_cases s k data with ⟨r, heq⟩ | ⟨-, -, heq⟩ | ⟨-, -, heq⟩
  · rw [heq]
  · simp only [heq, Function.update_self]
    rfl
  · simp only [heq, Core.mark, Core.takeInto, Function.update_self]
    rfl

/-- A read gets a buffer that is long enough for the message at the head of the queue. -/
def ReadsWhole (c : Conn) : Act → Prop
  | .chanRead k buflen =>
    c.chanUsed k = true → (c.chanPool k).role = .receiver →
      (c.chanPool k).rqHead ≠ (c.chanPool k).rqTail →
        ((c.chanPool k).recvQueue (c.chanPool k).rqHead).len ≤ buflen
  | _ => True

instance (c : Conn) : (a : Act) → Decidable (ReadsWhole c a)
  | .chanRead _ _ => inferInstanceAs (Decidable (_ → _ → _ → _))
  | .connect _ _ | .accept | .feed _ _ _ | .sendNext _ _ | .service _ _ | .chanOpen _ _ _
  | .chanClose _ | .chanWrite _ _ | .poll => isTrue trivial

theorem chanRead_counted {s : Core} {k : Nat} (h : (s.chanPool k).Counted) {buflen : Nat}
    (hlen : (s.chanPool k).role = .receiver → (s.chanPool k).rqHead ≠ (s.chanPool k).rqTail →
      ((s.chanPool k).recvQueue (s.chanPool k).rqHead).len ≤ buflen) :
    ((chanRead s k buflen).1.chanPool k).Counted := by
  rcases chanRead_cases s k buflen with ⟨r, heq⟩ | ⟨hrole, hne, e, data, rfl, -, heq⟩
  · rwa [heq]
  · rw [heq, Nat.min_eq_left (hlen hrole hne)]
    simp only [Core.mark, Core.modChan, poolPut_chanPool, Function.update_self]
    exact h.dequeue hne

abbrev Core.Counted (s : Core) : Prop := s.AllChans fun _ ch => ch.Counted

theorem Core.Counted.touch {s s' : Core} {k : Nat} (h : s.Counted) (ht : Core.Touch k s s')
    (hk : (s'.chanPool k).Counted) : s'.Counted := by
  intro j hj
  by_cases hjk : j = k
  · rw [hjk]
    exact hk
  · rw [ht.other j hjk]
    exact h j (ht.chanUsed ▸ hj)

theorem Conn.step_counted {c : Conn} (h : c.toCore.Counted) (hgood : c.toCore.Good) {a : Act}
    (ha : ReadsWhole c a) : (c.step a).toCore.Counted := by
  cases huser : a.isUser with
  | false =>
    exact Core.AllChans.call (fun _ _ _ => Chan.Counted.blank)
      (fun _ _ _ => Chan.Counted.moves) h hgood huser
  | true =>
    refine h.user huser (fun k data _ hk => ?_) fun k buflen heq hk => ?_
    · exact (h k hk).congr (chanWrite_inbox c.toCore k data)
    · subst heq
      exact chanRead_counted (h k hk) (ha hk)

/-- A WINDOW_UPDATE frame says how much of the window of its channel is free. -/
def Conn.Advertises (c : Conn) : Frame → Prop
  | .windowUpdate id window =>
    ∃ k, c.channels id = some k ∧
      window.toNat = (c.chanPool k).recvWindow.toNat - (c.chanPool k).queuedBytes
  | _ => True

theorem flushAck_advertises {c c' : Conn} (mtu k : Nat) (out : List UInt8) :
    Extends c.Advertises out (flushAck mtu c' k out).2 := by
  simp only [flushAck]
  split_ifs
  · exact Extends.single (f := .ack (c'.chanPool k).id (c'.chanPool k).ackSeq) trivial out
  · exact Extends.refl _ out

theorem flushWindow_advertises {c : Conn} {k : Nat}
    (hid : c.channels (c.chanPool k).id = some k) (h : (c.chanPool k).Counted) (mtu : Nat)
    (out : List UInt8) : Extends c.Advertises out (flushWindow mtu c k out).2 := by
  have hbuf := h.buffered
  have hwindow : (if (c.chanPool k).recvWindow > (c.chanPool k).recvBuffered then
      (c.chanPool k).recvWindow - (c.chanPool k).recvBuffered else 0).toNat =
      (c.chanPool k).recvWindow.toNat - (c.chanPool k).queuedBytes := by
    split_ifs with hlt
    · rw [UInt32.toNat_sub_of_le _ _ (UInt32.le_of_lt hlt), hbuf]
    · have hle : (c.chanPool k).recvWindow.toNat ≤ (c.chanPool k).recvBuffered.toNat :=
        UInt32.le_iff_toNat_le.1 (UInt32.not_lt.1 hlt)
      rw [← hbuf, Nat.sub_eq_zero_of_le hle]
      rfl
  simp only [flushWindow]
  generalize (if (c.chanPool k).recvWindow > (c.chanPool k).recvBuffered then
    (c.chanPool k).recvWindow - (c.chanPool k).recvBuffered else 0) = window at hwindow ⊢
  split_ifs
  · exact Extends.single (f := .windowUpdate (c.chanPool k).id window) ⟨k, hid, hwindow⟩ out
  · exact Extends.refl _ out

theorem Conn.Advertises.of_eq {c c' : Conn} {f : Frame} (hf : c'.Advertises f)
    (hchan : c'.channels = c.channels)
    (hrec : ∀ k, (c'.chanPool k).recvWindow = (c.chanPool k).recvWindow ∧
      (c'.chanPool k).queuedBytes = (c.chanPool k).queuedBytes) : c.Advertises f := by
  cases f with
  | windowUpdate id window =>
    obtain ⟨k, hk, hw⟩ := hf
    rw [(hrec k).1, (hrec k).2] at hw
    exact ⟨k, hchan ▸ hk, hw⟩
  | _ => trivial

theorem flush_queue (mtu : Nat) (c : Conn) (k : Nat) (out out' : List UInt8) (j : Nat) :
    ((flushAck mtu c k out).1.chanPool j).inbox = (c.chanPool j).inbox ∧
    ((flushWindow mtu c k out').1.chanPool j).inbox = (c.chanPool j).inbox := by
  refine ⟨?_, ?_⟩
  · rw [flushAck_eq]
    split_ifs
    · by_cases hj : j = k
      · simp only [hj, Conn.lift, Core.modChan, Core.mark, Function.update_self]
        rfl
      · simp only [Conn.lift, Core.modChan, Core.mark, Function.update_of_ne hj]
    · rfl
  · rw [flushWindow_eq]
    split_ifs
    · by_cases hj : j = k
      · simp only [hj, Conn.lift, Core.modChan, Function.update_self]
        rfl
      · simp only [Conn.lift, Core.modChan, Function.update_of_ne hj]
    · rfl

theorem queuedBytes_congr {ch ch' : Chan} (h : ch'.inbox = ch.inbox) :
    ch'.queuedBytes = ch.queuedBytes := by
  simp only [Chan.inbox, Prod.mk.injEq] at h
  obtain ⟨hq, hhead, htail, -⟩ := h
  rw [Chan.queuedBytes, Chan.queuedBytes, Chan.queuedLens, Chan.queuedLens, hq, hhead, htail]

theorem flushAcks_advertises (mtu : Nat) (is : List Nat) {c : Conn} (h : c.toCore.Good)
    (hcount : c.toCore.Counted) (out : List UInt8) :
    Extends c.Advertises out (flushAcks mtu is c out).2 := by
  refine (flushAcks_rule (P := fun d out' => d.toCore.Good ∧ d.toCore.Counted ∧
    Extends c.Advertises out out' ∧ ∀ f, d.Advertises f → c.Advertises f)
    (fun d k id out' hid ⟨h, hcount, hext, hback⟩ => ?_) is
    ⟨h, hcount, Extends.refl _ out, fun _ hf => hf⟩).2.2.1
  obtain ⟨-, hk, hchid⟩ := h.inv.table _ k hid
  obtain ⟨h1, ht1⟩ := flushAck_good h hk mtu out'
  obtain ⟨h2, ht2⟩ := flushWindow_good h1 (ht1.used hk) mtu (flushAck mtu d k out').2
  have hone := fun j => (flush_queue mtu d k out' out' j).1
  have htwo := fun j => (flush_queue mtu (flushAck mtu d k out').1 k out'
    (flushAck mtu d k out').2 j).2
  have hc1 : (flushAck mtu d k out').1.toCore.Counted :=
    hcount.touch ht1 ((hcount k hk).congr (hone k))
  have hwin : ∀ {s s' : Core} (_ : Core.Touch k s s') (j : Nat),
      (s'.chanPool j).recvWindow = (s.chanPool j).recvWindow := by
    intro s s' ht j
    by_cases hj : j = k
    · rw [hj]
      exact ht.fixed.2.2.2.2
    · rw [ht.other j hj]
  have hback1 : ∀ f, (flushAck mtu d k out').1.Advertises f → c.Advertises f := fun f hf =>
    hback f (hf.of_eq ht1.channels fun j => ⟨hwin ht1 j, queuedBytes_congr (hone j)⟩)
  have hid1 : (flushAck mtu d k out').1.channels
      ((flushAck mtu d k out').1.chanPool k).id = some k := by
    rw [ht1.channels, ht1.fixed.1, hchid, hid]
  have hsecond := (flushWindow_advertises hid1 (hc1 k (ht1.used hk)) mtu
    (flushAck mtu d k out').2).mono hback1
  exact ⟨h2, hc1.touch ht2 ((hc1 k (ht1.used hk)).congr (htwo k)),
    (hext.trans (flushAck_advertises mtu k out')).trans hsecond, fun f hf =>
    hback1 f (hf.of_eq ht2.channels fun j => ⟨hwin ht2 j, queuedBytes_congr (htwo j)⟩)⟩

/-- A connection after calls that read whole messages. -/
def Conn.ReachedWhole : Conn → Prop :=
  Reach (fun c => ∃ server cfg, c = netchanOpen server cfg) ReadsWhole Conn.step

theorem Conn.ReachedWhole.counted {c : Conn} (h : c.ReachedWhole) :
    c.toCore.Good ∧ c.toCore.Counted := by
  refine Reach.invariant (P := fun c => c.toCore.Good ∧ c.toCore.Counted) ?_ ?_ h
  · rintro c ⟨server, cfg, rfl⟩
    exact ⟨netchanOpen_good server cfg, fun k hk => by cases hk⟩
  · intro c a hc ha
    exact ⟨c.step_good hc.1 a, c.step_counted hc.2 hc.1 ha⟩

/-- In a run whose reads take whole messages `recv_buffered` is the number of bytes in the
queue, and the windows a packet advertises are what is left of `recv_window`. -/
theorem recvBuffered_counts {c : Conn} (h : c.ReachedWhole) :
    (∀ k, c.chanUsed k = true →
      (c.chanPool k).recvBuffered.toNat = (c.chanPool k).queuedBytes) ∧
    ∀ mtu, Extends c.Advertises (packetCtrl mtu c).2 (packetAcks mtu c).2 := by
  obtain ⟨hgood, hcount⟩ := h.counted
  refine ⟨fun k hk => (hcount k hk).buffered, fun mtu => ?_⟩
  have hcore := packetCtrl_toCore mtu c
  refine (flushAcks_advertises mtu (List.range ncMaxChannels) (hcore ▸ hgood)
    (hcore ▸ hcount) (packetCtrl mtu c).2).mono fun f hf => ?_
  exact hf.of_eq (by rw [hcore]) fun k => by rw [hcore]; exact ⟨rfl, rfl⟩

/-- A client opens a channel and sends three bytes, which are read with a buffer of
`buflen` bytes. -/
def readOnce (buflen : Nat) : List Act :=
  [.feed quietEnv ([0x01, 0, 0, 0, 5, 0x01, 0, 0, 0, 5, 0x01, 0x07, 0, 0, 0, 0] ++
    [0x09, 0, 0, 0, 0, 3, 0, 1, 7, 8, 9]) none, .chanRead 0 buflen]

theorem recvBuffered_counts_three :
    ((netchanOpen true netchanCfgDefault).run (readOnce 3)).ReachedWhole ∧
    ((((netchanOpen true netchanCfgDefault).run (readOnce 3)).chanPool 0).recvBuffered.toNat =
      (((netchanOpen true netchanCfgDefault).run (readOnce 3)).chanPool 0).queuedBytes) := by
  have hrun : ((netchanOpen true netchanCfgDefault).run (readOnce 3)).ReachedWhole :=
    Reach.run (.start ⟨true, netchanCfgDefault, rfl⟩) (readOnce 3) (by decide +kernel)
  exact ⟨hrun, (recvBuffered_counts hrun).1 0 (by decide +kernel)⟩

/-- A read of one byte of three leaves two bytes counted that are nowhere. -/
theorem partial_read_leaks :
    ¬∀ c : Conn, c.Reachable → ∀ k, c.chanUsed k = true →
      (c.chanPool k).role = .receiver →
        (c.chanPool k).recvBuffered.toNat = (c.chanPool k).queuedBytes := by
  intro h
  have hcount := h ((netchanOpen true netchanCfgDefault).run (readOnce 1))
    ((reachable_open true netchanCfgDefault).run (readOnce 1)) 0 (by decide +kernel)
    (by decide +kernel)
  revert hcount
  decide +kernel

end MechanicalResearcher.NetchanV2
