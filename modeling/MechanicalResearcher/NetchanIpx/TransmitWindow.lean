import Mathlib.Data.List.Induction
import MechanicalResearcher.NetchanIpx.Window

/-!
# The transmit window over whole runs

The three cursors of the window are read as distances from `tx_base`, so that nothing is said
about where the 16-bit sequence numbers wrap.  A run may open and close channels, connect
again, and hear any packet.
-/

namespace MechanicalResearcher.NetchanIpx

variable {seq a b : UInt16} {s : TxSlot} {n : Nat} {acts : List Act}

/-! ## What a step does to the window -/

/-- The cursors are in order, and no further apart than the window is long. -/
structure Netchan.Windowed (c : Netchan) : Prop where
  unsent : (c.txUnsent - c.txBase).toNat ≤ (c.txNext - c.txBase).toNat
  room : (c.txNext - c.txBase).toNat ≤ ncWindow

/-- The slot that `nc_write` fills, if the call is one that is given a sequence number. -/
def Netchan.assigns (c : Netchan) : Act → Option TxSlot
  | .write k data =>
    match (c.chan k).type, (ncWrite c k data).2 with
    | .reliable, .ok _ => some ⟨c.txNext, (c.chan k).id, data⟩
    | _, _ => none
  | _ => none

/-- The window and its cursors are as they were. -/
structure SameWindow (c c' : Netchan) : Prop where
  txw : c'.txw = c.txw
  base : c'.txBase = c.txBase
  next : c'.txNext = c.txNext
  unsent : c'.txUnsent = c.txUnsent

/-- No number is given out, and the base moves within the window. -/
structure Netchan.Slides (c c' : Netchan) : Prop where
  txw : c'.txw = c.txw
  next : c'.txNext = c.txNext
  base : (c'.txBase - c.txBase).toNat ≤ (c.txNext - c.txBase).toNat
  unsent : (c'.txUnsent - c'.txBase).toNat ≤ (c'.txNext - c'.txBase).toNat

/-- The next number is given to `s`. -/
structure Netchan.Fills (c : Netchan) (s : TxSlot) (c' : Netchan) : Prop where
  room : (c.txNext - c.txBase).toNat < ncWindow
  seq : s.seq = c.txNext
  txw : c'.txw = Function.update c.txw (c.txNext.toNat % ncWindow) s
  next : c'.txNext = c.txNext + 1
  base : c'.txBase = c.txBase
  unsent : c'.txUnsent = c.txUnsent

section Same

variable {c c' c'' : Netchan}

theorem SameWindow.refl (c : Netchan) : SameWindow c c := ⟨rfl, rfl, rfl, rfl⟩

theorem SameWindow.trans (h : SameWindow c c') (h' : SameWindow c' c'') : SameWindow c c'' :=
  ⟨h'.txw.trans h.txw, h'.base.trans h.base, h'.next.trans h.next, h'.unsent.trans h.unsent⟩

theorem Idle.sameWindow (h : Idle c c') : SameWindow c c' := ⟨h.txw, h.txBase, h.txNext, h.txUnsent⟩

theorem SameWindow.slides (hs : SameWindow c c') (h : c.Windowed) : c.Slides c' where
  txw := hs.txw
  next := hs.next
  base := by
    rw [hs.base, UInt16.sub_self]
    exact Nat.zero_le _
  unsent := by
    rw [hs.base, hs.unsent, hs.next]
    exact h.unsent

theorem Netchan.Slides.same (h : c.Slides c') (hs : SameWindow c' c'') : c.Slides c'' where
  txw := hs.txw.trans h.txw
  next := hs.next.trans h.next
  base := by
    rw [hs.base]
    exact h.base
  unsent := by
    rw [hs.base, hs.unsent, hs.next]
    exact h.unsent

theorem Netchan.Windowed.same (h : c.Windowed) (hs : SameWindow c c') : c'.Windowed where
  unsent := by
    rw [hs.base, hs.unsent, hs.next]
    exact h.unsent
  room := by
    rw [hs.base, hs.next]
    exact h.room

theorem SameWindow.trans_slides (hs : SameWindow c c') (h : c'.Slides c'') : c.Slides c'' where
  txw := h.txw.trans hs.txw
  next := h.next.trans hs.next
  base := by
    rw [← hs.base, ← hs.next]
    exact h.base
  unsent := h.unsent

/-! ## Numbers of the window -/

theorem Netchan.Slides.mem (h : c.Slides c')
    (hseq : (seq - c'.txBase).toNat < (c'.txNext - c'.txBase).toNat) :
    (seq - c.txBase).toNat < (c.txNext - c.txBase).toNat := by
  have hbase := h.base
  rw [h.next] at hseq
  rw [UInt16.toNat_sub] at hbase hseq ⊢
  rw [UInt16.toNat_sub] at hbase hseq ⊢
  have h0 := UInt16.toNat_lt c.txBase
  have h1 := UInt16.toNat_lt c.txNext
  have h2 := UInt16.toNat_lt c'.txBase
  have h3 := UInt16.toNat_lt seq
  omega

theorem Netchan.Slides.windowed (h : c.Slides c') (hc : c.Windowed) : c'.Windowed := by
  refine ⟨h.unsent, ?_⟩
  have hbase := h.base
  have hroom : (c.txNext - c.txBase).toNat ≤ 8 := hc.room
  show _ ≤ 8
  rw [h.next]
  rw [UInt16.toNat_sub] at hbase hroom ⊢
  rw [UInt16.toNat_sub] at hbase
  have h0 := UInt16.toNat_lt c.txBase
  have h1 := UInt16.toNat_lt c.txNext
  have h2 := UInt16.toNat_lt c'.txBase
  omega

theorem Netchan.Fills.windowed (h : c.Fills s c') (hc : c.Windowed) :
    c'.Windowed := by
  have hroom : (c.txNext - c.txBase).toNat < 8 := h.room
  have hunsent := hc.unsent
  have hnext : (c'.txNext - c'.txBase).toNat = (c.txNext - c.txBase).toNat + 1 := by
    rw [h.next, h.base]
    rw [UInt16.toNat_sub] at hroom ⊢
    rw [UInt16.toNat_sub, UInt16.toNat_add, UInt16.toNat_one]
    have h0 := UInt16.toNat_lt c.txBase
    have h1 := UInt16.toNat_lt c.txNext
    omega
  refine ⟨?_, ?_⟩
  · rw [hnext, h.unsent, h.base]
    omega
  · rw [hnext]
    exact h.room

theorem Netchan.Fills.mem (h : c.Fills s c')
    (hseq : (seq - c'.txBase).toNat < (c'.txNext - c'.txBase).toNat) (hne : seq ≠ s.seq) :
    (seq - c.txBase).toNat < (c.txNext - c.txBase).toNat := by
  have hroom : (c.txNext - c.txBase).toNat < 8 := h.room
  have hne' : seq.toNat ≠ c.txNext.toNat := fun heq =>
    hne (h.seq ▸ UInt16.toNat_inj.mp heq)
  rw [h.next, h.base] at hseq
  rw [UInt16.toNat_sub] at hroom hseq ⊢
  rw [UInt16.toNat_sub] at hseq ⊢
  rw [UInt16.toNat_add, UInt16.toNat_one] at hseq
  have h0 := UInt16.toNat_lt c.txBase
  have h1 := UInt16.toNat_lt c.txNext
  have h3 := UInt16.toNat_lt seq
  omega

theorem Netchan.Fills.slot_ne (h : c.Fills s c')
    (hseq : (seq - c.txBase).toNat < (c.txNext - c.txBase).toNat) :
    seq ≠ s.seq ∧ seq.toNat % ncWindow ≠ c.txNext.toNat % ncWindow := by
  have hroom : (c.txNext - c.txBase).toNat < 8 := h.room
  have hne : seq.toNat % 8 ≠ c.txNext.toNat % 8 := by
    rw [UInt16.toNat_sub] at hroom hseq
    rw [UInt16.toNat_sub] at hseq
    have h0 := UInt16.toNat_lt c.txBase
    have h1 := UInt16.toNat_lt c.txNext
    have h3 := UInt16.toNat_lt seq
    omega
  refine ⟨fun heq => hne ?_, hne⟩
  rw [heq, h.seq]

end Same

/-! ## Acknowledgements -/

section Ack

variable {c : Netchan} {ack : UInt16}

/-- The guard of the loop of `process_ack`. -/
abbrev Netchan.ackGoes (c : Netchan) (ack : UInt16) : Prop :=
  c.txBase ≠ c.txNext ∧ seqAfter ack c.txBase = true

theorem dist_pos (h : a ≠ b) : 0 < (b - a).toNat := by
  have hne : a.toNat ≠ b.toNat := fun heq => h (UInt16.toNat_inj.mp heq)
  rw [UInt16.toNat_sub]
  have h0 := UInt16.toNat_lt a
  have h1 := UInt16.toNat_lt b
  omega

theorem dist_succ (h : a ≠ b) : (b - (a + 1)).toNat + 1 = (b - a).toNat := by
  have hpos := dist_pos h
  rw [UInt16.toNat_sub] at hpos ⊢
  rw [UInt16.toNat_sub, UInt16.toNat_add, UInt16.toNat_one]
  have h0 := UInt16.toNat_lt a
  have h1 := UInt16.toNat_lt b
  omega

theorem add_ofNat_succ (a : UInt16) (j : Nat) :
    a + 1 + UInt16.ofNat j = a + UInt16.ofNat (j + 1) := by
  rw [UInt16.add_assoc, UInt16.add_comm 1, Lib.Serial.ofNat_add_one]

theorem add_ofNat_zero (a : UInt16) : a + UInt16.ofNat 0 = a := UInt16.add_zero a

theorem ackLoop_shape (ack : UInt16) (n : Nat) (c : Netchan) :
    ∃ j log, j ≤ (c.txNext - c.txBase).toNat ∧
      ackLoop ack n c = { c with txBase := c.txBase + UInt16.ofNat j, log := log } := by
  induction n generalizing c with
  | zero => exact ⟨0, c.log, Nat.zero_le _, by rw [add_ofNat_zero]; rfl⟩
  | succ n ih =>
    unfold ackLoop
    split_ifs with hgo
    · obtain ⟨j, log, hj, heq⟩ := ih ({ c with txBase := c.txBase + 1 }.mark .acked)
      have hdist := dist_succ hgo.1
      refine ⟨j + 1, log, ?_, ?_⟩
      · rw [← hdist]
        exact Nat.succ_le_succ hj
      · rw [heq, ← add_ofNat_succ]
        rfl
    · exact ⟨0, c.log, Nat.zero_le _, by rw [add_ofNat_zero]⟩

theorem ackLoop_stops (hn : (c.txNext - c.txBase).toNat ≤ n) :
    ¬(ackLoop ack n c).ackGoes ack := by
  induction n generalizing c with
  | zero =>
    intro hgo
    have hpos := dist_pos hgo.1
    change 0 < (c.txNext - c.txBase).toNat at hpos
    omega
  | succ n ih =>
    unfold ackLoop
    split_ifs with hgo
    · have hdist := dist_succ hgo.1
      apply ih
      change (c.txNext - (c.txBase + 1)).toNat ≤ n
      omega
    · exact hgo

theorem ackLoop_done (h : ¬c.ackGoes ack) : ackLoop ack n c = c := by
  cases n with
  | zero => rfl
  | succ n => exact if_neg h

theorem ackLoop_add (m n : Nat) :
    ackLoop ack (m + n) c = ackLoop ack n (ackLoop ack m c) := by
  induction m generalizing c with
  | zero => rw [Nat.zero_add, ackLoop]
  | succ m ih =>
    rw [Nat.add_right_comm]
    by_cases hgo : c.ackGoes ack
    · rw [ackLoop, if_pos hgo, ih, ackLoop, if_pos hgo]
    · rw [ackLoop_done hgo, ackLoop_done hgo, ackLoop_done hgo]

theorem ackLoop_enough {m : Nat} (hm : (c.txNext - c.txBase).toNat ≤ m) (hmn : m ≤ n) :
    ackLoop ack n c = ackLoop ack m c := by
  obtain ⟨k, rfl⟩ := Nat.exists_eq_add_of_le hmn
  rw [ackLoop_add, ackLoop_done (ackLoop_stops hm)]

theorem seqAfter_dist (x : UInt16) (ha : (a - x).toNat ≤ 8) (hb : (b - x).toNat ≤ 8) :
    seqAfter a b = true ↔ (b - x).toNat < (a - x).toNat := by
  unfold seqAfter Lib.Serial.int16
  rw [decide_eq_true_iff]
  rw [UInt16.toNat_sub] at ha hb
  rw [UInt16.toNat_sub, UInt16.toNat_sub, UInt16.toNat_sub]
  have h0 := UInt16.toNat_lt a
  have h1 := UInt16.toNat_lt b
  have h2 := UInt16.toNat_lt x
  split <;> omega

theorem dist_add_ofNat (a : UInt16) {j : Nat} (hj : j ≤ 8) : (a + UInt16.ofNat j - a).toNat =
    j := by
  rw [UInt16.toNat_sub, UInt16.toNat_add, UInt16.toNat_ofNat']
  have h0 := UInt16.toNat_lt a
  omega

theorem dist_between {x : UInt16} (h : (x - a).toNat ≤ (b - a).toNat) :
    (b - x).toNat = (b - a).toNat - (x - a).toNat := by
  rw [UInt16.toNat_sub] at h
  rw [UInt16.toNat_sub] at h
  rw [UInt16.toNat_sub, UInt16.toNat_sub, UInt16.toNat_sub]
  have h0 := UInt16.toNat_lt a
  have h1 := UInt16.toNat_lt b
  have h2 := UInt16.toNat_lt x
  omega

theorem Netchan.Windowed.advance (h : c.Windowed) {x : UInt16} {c' : Netchan}
    (hx : (x - c.txBase).toNat ≤ (c.txNext - c.txBase).toNat) (htxw : c'.txw = c.txw)
    (hbase : c'.txBase = x) (hnext : c'.txNext = c.txNext)
    (hunsent : c'.txUnsent = if seqAfter x c.txUnsent then x else c.txUnsent) :
    c.Slides c' := by
  have hroom : (c.txNext - c.txBase).toNat ≤ 8 := h.room
  have hle := h.unsent
  have hafter := seqAfter_dist (a := x) (b := c.txUnsent) c.txBase (by omega) (by omega)
  refine ⟨htxw, hnext, hbase ▸ hx, ?_⟩
  rw [hunsent, hbase, hnext]
  split_ifs with hgo
  · rw [UInt16.sub_self]
    exact Nat.zero_le _
  · have hnot : ¬(c.txUnsent - c.txBase).toNat < (x - c.txBase).toNat := fun hlt =>
      hgo (hafter.mpr hlt)
    rw [dist_between hx, dist_between (Nat.not_lt.mp hnot)]
    omega

theorem processAck_slides (h : c.Windowed) (ack : UInt16) : c.Slides (processAck c ack) := by
  have hroom : (c.txNext - c.txBase).toNat ≤ 8 := h.room
  obtain ⟨j, log, hj, heq⟩ := ackLoop_shape ack (c.txNext - c.txBase).toNat c
  have hadvance : c.Slides (ackUnsent (ackLoop ack (c.txNext - c.txBase).toNat c)) := by
    rw [heq]
    refine h.advance (x := c.txBase + UInt16.ofNat j) ?_ ?_ ?_ ?_ ?_
    · rw [dist_add_ofNat _ (by omega)]
      exact hj
    all_goals
      unfold ackUnsent
      dsimp only
      split_ifs <;> rfl
  unfold processAck
  dsimp only
  split_ifs
  · exact hadvance.same ⟨rfl, rfl, rfl, rfl⟩
  · exact hadvance.same ⟨rfl, rfl, rfl, rfl⟩
  · exact hadvance

end Ack

/-! ## Packets -/

section Packets

variable {c : Netchan}

theorem pushData_sameWindow (c : Netchan) (k : Nat) (data : Bytes) :
    SameWindow c (pushData c k data) := by
  have hpush := (pushData_idle c k data).sameWindow
  exact ⟨hpush.txw, hpush.base, hpush.next, hpush.unsent⟩

theorem deliverDue_sameWindow (c : Netchan) (chan : UInt8) (data : Bytes) :
    SameWindow c (deliverDue c chan data) := by
  unfold deliverDue
  split
  · exact ⟨rfl, rfl, rfl, rfl⟩
  · next k _ =>
      split_ifs
      · exact .refl c
      · have hpush := pushData_sameWindow c k data
        exact ⟨hpush.txw, hpush.base, hpush.next, hpush.unsent⟩

theorem deliver_sameWindow (c : Netchan) (chan mt : UInt8) (seq : UInt16) (data : Bytes) :
    SameWindow c (deliver c chan mt seq data) := by
  unfold deliver
  split_ifs
  · have hdue := deliverDue_sameWindow c chan data
    exact ⟨hdue.txw, hdue.base, hdue.next, hdue.unsent⟩
  · exact ⟨rfl, rfl, rfl, rfl⟩
  · split
    · exact .refl c
    · exact pushData_sameWindow c _ data

theorem recordLoop_sameWindow (n : Nat) (c : Netchan) (q : Bytes) :
    SameWindow c (recordLoop n c q) := by
  induction n generalizing c q with
  | zero => exact .refl c
  | succ n ih =>
    unfold recordLoop
    dsimp only
    split_ifs
    · exact .refl c
    · exact .refl c
    · exact (deliver_sameWindow c _ _ _ _).trans (ih _ _)

theorem ncFeed_slides (h : c.Windowed) (pkt : Bytes) (source : Option Addr) :
    c.Slides (ncFeed c pkt source).1 := by
  rcases ncFeed_cases c pkt source with hi | ⟨d, hi, -, heq⟩
  · exact hi.sameWindow.slides h
  · have hack := processAck_slides (h.same hi.sameWindow) (Lib.BigEndian.rd16 (pkt.drop 6))
    rw [heq]
    exact hi.sameWindow.trans_slides (hack.same (recordLoop_sameWindow _ _ _))

theorem sendRelLoop_shape (cap n : Nat) (c : Netchan) (w : Bytes) :
    ∃ j w', j ≤ (c.txNext - c.txUnsent).toNat ∧
      sendRelLoop cap n c w = ({ c with txUnsent := c.txUnsent + UInt16.ofNat j }, w') := by
  induction n generalizing c w with
  | zero => exact ⟨0, w, Nat.zero_le _, by rw [add_ofNat_zero]; rfl⟩
  | succ n ih =>
    unfold sendRelLoop
    dsimp only
    split_ifs with hdone hfull
    · exact ⟨0, w, Nat.zero_le _, by rw [add_ofNat_zero]⟩
    · exact ⟨0, w, Nat.zero_le _, by rw [add_ofNat_zero]⟩
    · obtain ⟨j, w', hj, heq⟩ := ih { c with txUnsent := c.txUnsent + 1 }
        (w ++ record (c.txw (c.txUnsent.toNat % ncWindow)).chan mtRel
          (c.txw (c.txUnsent.toNat % ncWindow)).seq (c.txw (c.txUnsent.toNat % ncWindow)).data)
      have hdist := dist_succ hdone
      refine ⟨j + 1, w', ?_, ?_⟩
      · rw [← hdist]
        exact Nat.succ_le_succ hj
      · rw [heq, ← add_ofNat_succ]

theorem sendUnrelLoop_sameWindow (cap n : Nat) (c : Netchan) (w : Bytes) :
    SameWindow c (sendUnrelLoop cap n c w).1 := by
  induction n generalizing c w with
  | zero => exact .refl c
  | succ n ih =>
    unfold sendUnrelLoop
    dsimp only
    split_ifs
    · exact .refl c
    · exact .refl c
    · have hpop : SameWindow c { c with
          txuHead := (c.txuHead + 1) % ncUnrelTxq
          txuCount := c.txuCount - 1 } := ⟨rfl, rfl, rfl, rfl⟩
      exact hpop.trans (ih _ _)

theorem Netchan.Windowed.send (h : c.Windowed) {j : Nat}
    (hj : j ≤ (c.txNext - c.txUnsent).toNat) {c' : Netchan} (htxw : c'.txw = c.txw)
    (hbase : c'.txBase = c.txBase) (hnext : c'.txNext = c.txNext)
    (hunsent : c'.txUnsent = c.txUnsent + UInt16.ofNat j) : c.Slides c' := by
  have hroom : (c.txNext - c.txBase).toNat ≤ 8 := h.room
  have hle := h.unsent
  rw [dist_between hle] at hj
  refine ⟨htxw, hnext, ?_, ?_⟩
  · rw [hbase, UInt16.sub_self]
    exact Nat.zero_le _
  · rw [hunsent, hbase, hnext]
    rw [UInt16.toNat_sub] at hle hj hroom ⊢
    rw [UInt16.toNat_sub] at hle hj
    rw [UInt16.toNat_sub, UInt16.toNat_add, UInt16.toNat_ofNat']
    have h0 := UInt16.toNat_lt c.txBase
    have h1 := UInt16.toNat_lt c.txNext
    have h2 := UInt16.toNat_lt c.txUnsent
    omega

theorem sendData_slides (h : c.Windowed) (cap : Nat) : c.Slides (sendData c cap).1 := by
  obtain ⟨j, w', hj, heq⟩ := sendRelLoop_shape cap (c.txNext - c.txUnsent).toNat c []
  unfold sendData
  rw [heq]
  dsimp only
  have hsent : c.Slides { c with txUnsent := c.txUnsent + UInt16.ofNat j } :=
    h.send hj rfl rfl rfl rfl
  have harm := (armTimer_idle { c with txUnsent := c.txUnsent + UInt16.ofNat j }).sameWindow
  generalize armTimer { c with txUnsent := c.txUnsent + UInt16.ofNat j } = d at harm
  have hloose := sendUnrelLoop_sameWindow cap d.txuCount d w'
  exact (hsent.same (harm.trans hloose)).same ⟨rfl, rfl, rfl, rfl⟩

theorem ncSendNext_slides (h : c.Windowed) (buflen : Nat) :
    c.Slides (ncSendNext c buflen).1 := by
  have hsame {c' : Netchan} (hs : SameWindow c c') : c.Slides c' := hs.slides h
  refine ncSendNext_elim c buflen ?_ ?_ ?_ ?_ fun _ _ _ _ => ?_
  · exact hsame (.refl c)
  · exact hsame ⟨rfl, rfl, rfl, rfl⟩
  · exact hsame ⟨rfl, rfl, rfl, rfl⟩
  · exact hsame ⟨rfl, rfl, rfl, rfl⟩
  · exact sendData_slides h (min buflen ncMtu)

theorem ncService_slides (h : c.Windowed) (nowMs : UInt32) :
    c.Slides (ncService c nowMs).1 := by
  have hset : SameWindow c { c with now := nowMs } := ⟨rfl, rfl, rfl, rfl⟩
  unfold ncService
  dsimp only
  split
  · exact (hset.trans (serviceConnecting_idle _ nowMs).sameWindow).slides h
  · rcases serviceConnected_idle { c with now := nowMs } nowMs with hi | hi
    · exact (hset.trans hi.sameWindow).slides h
    · have hrewind : c.Slides { c with now := nowMs, txUnsent := c.txBase } := by
        refine ⟨rfl, rfl, ?_, ?_⟩
        · rw [UInt16.sub_self]
          exact Nat.zero_le _
        · rw [UInt16.sub_self]
          exact Nat.zero_le _
      exact hrewind.same hi.sameWindow
  · exact hset.slides h

end Packets

/-! ## Calls -/

section Calls

variable {c : Netchan}

theorem writeUnrel_sameWindow (c : Netchan) (k : Nat) (data : Bytes) :
    SameWindow c (writeUnrel c k data).1 := by
  unfold writeUnrel txuRoom
  dsimp only
  split_ifs <;> exact ⟨rfl, rfl, rfl, rfl⟩

theorem ncRead_sameWindow (c : Netchan) (k buflen : Nat) :
    SameWindow c (ncRead c k buflen).1 := by
  unfold ncRead
  dsimp only
  split_ifs <;> exact ⟨rfl, rfl, rfl, rfl⟩

theorem ncChanOpen_sameWindow (c : Netchan) (type : ChanType) :
    SameWindow c (ncChanOpen c type).1 := by
  unfold ncChanOpen
  split <;> exact ⟨rfl, rfl, rfl, rfl⟩

theorem ncWrite_window (c : Netchan) (k : Nat) (data : Bytes) :
    (∃ s, c.assigns (.write k data) = some s ∧ c.Fills s (ncWrite c k data).1) ∨
      (c.assigns (.write k data) = none ∧ SameWindow c (ncWrite c k data).1) := by
  have herror {e : Err} (h : ncWrite c k data = (c, .error e)) :
      c.assigns (.write k data) = none ∧ SameWindow c (ncWrite c k data).1 := by
    rw [Netchan.assigns, h]
    refine ⟨?_, .refl c⟩
    cases (c.chan k).type <;> rfl
  by_cases hused : (c.chan k).used = false
  · exact Or.inr (herror (if_pos hused))
  by_cases hstate : c.state ≠ .connected
  · exact Or.inr (herror (by rw [ncWrite, if_neg hused, if_pos hstate]))
  by_cases hlen : data.length > ncMaxmsg
  · exact Or.inr (herror (by rw [ncWrite, if_neg hused, if_neg hstate, if_pos hlen]))
  cases htype : (c.chan k).type with
  | reliable =>
    have hwrite : ncWrite c k data = writeRel c k data := by
      rw [ncWrite, if_neg hused, if_neg hstate, if_neg hlen, htype]
    by_cases hfull : (c.txNext - c.txBase).toNat ≥ ncWindow
    · exact Or.inr (herror (hwrite.trans (if_pos hfull)))
    · rw [writeRel, if_neg hfull] at hwrite
      refine Or.inl ⟨⟨c.txNext, (c.chan k).id, data⟩, ?_, ?_⟩
      · simp only [Netchan.assigns, htype, hwrite]
      · rw [hwrite]
        exact ⟨Nat.not_le.mp hfull, rfl, rfl, rfl, rfl, rfl⟩
  | unreliable =>
    have hwrite : ncWrite c k data = writeUnrel c k data := by
      rw [ncWrite, if_neg hused, if_neg hstate, if_neg hlen, htype]
    refine Or.inr ⟨?_, ?_⟩
    · simp only [Netchan.assigns, htype]
    · rw [hwrite]
      exact writeUnrel_sameWindow c k data

theorem step_window (h : c.Windowed) (a : Act) :
    (∃ s, c.assigns a = some s ∧ c.Fills s (c.step a)) ∨
      (c.assigns a = none ∧ c.Slides (c.step a)) := by
  cases a with
  | connect addr =>
    refine Or.inr ⟨rfl, ?_⟩
    cases addr with
    | none => exact (SameWindow.refl c).slides h
    | some addr => exact SameWindow.slides ⟨rfl, rfl, rfl, rfl⟩ h
  | chanOpen type => exact Or.inr ⟨rfl, (ncChanOpen_sameWindow c type).slides h⟩
  | chanClose k => exact Or.inr ⟨rfl, SameWindow.slides ⟨rfl, rfl, rfl, rfl⟩ h⟩
  | write k data =>
    rcases ncWrite_window c k data with hfill | ⟨hnone, hs⟩
    · exact Or.inl hfill
    · exact Or.inr ⟨hnone, hs.slides h⟩
  | read k buflen => exact Or.inr ⟨rfl, (ncRead_sameWindow c k buflen).slides h⟩
  | poll =>
    refine Or.inr ⟨rfl, SameWindow.slides ?_ h⟩
    show SameWindow c (ncPoll c).1
    unfold ncPoll
    split_ifs <;> exact ⟨rfl, rfl, rfl, rfl⟩
  | feed pkt source => exact Or.inr ⟨rfl, ncFeed_slides h pkt source⟩
  | sendNext buflen => exact Or.inr ⟨rfl, ncSendNext_slides h buflen⟩
  | service nowMs => exact Or.inr ⟨rfl, ncService_slides h nowMs⟩

end Calls

/-! ## Runs -/

/-- The netchan after `acts`. -/
def runFrom (c : Netchan) (acts : List Act) : Netchan := acts.foldl Netchan.step c

@[simp] theorem runFrom_snoc (c : Netchan) (acts : List Act) (a : Act) :
    runFrom c (acts ++ [a]) = (runFrom c acts).step a := by
  simp [runFrom]

/-- In the run `acts` the last `nc_write` that was given `seq` is the one that fills `s`. -/
def LastGiven (c : Netchan) (acts : List Act) (seq : UInt16) (s : TxSlot) : Prop :=
  ∃ before a after, acts = before ++ a :: after ∧ (runFrom c before).assigns a = some s ∧
    s.seq = seq ∧ ∀ mid a' rest s', after = mid ++ a' :: rest →
      (runFrom c (before ++ a :: mid)).assigns a' = some s' → s'.seq ≠ seq

theorem LastGiven.snoc {c : Netchan} (h : LastGiven c acts seq s) {a : Act}
    (hother : ∀ s', (runFrom c acts).assigns a = some s' → s'.seq ≠ seq) :
    LastGiven c (acts ++ [a]) seq s := by
  obtain ⟨before, a₀, after, rfl, hgiven, hseq, hlast⟩ := h
  refine ⟨before, a₀, after ++ [a], by simp, hgiven, hseq, fun mid a' rest s' hsplit hs' => ?_⟩
  rcases List.eq_nil_or_concat rest with rfl | ⟨rest', b, rfl⟩
  · -- the new step is the one in question
    obtain ⟨rfl, hlast'⟩ := List.append_inj' hsplit rfl
    cases hlast'
    exact hother s' hs'
  · rw [List.concat_eq_append, ← List.cons_append, ← List.append_assoc] at hsplit
    exact hlast mid a' rest' s' (List.append_inj' hsplit rfl).1 hs'

theorem LastGiven.new {c : Netchan} {a : Act} (h : (runFrom c acts).assigns a = some s) :
    LastGiven c (acts ++ [a]) s.seq s :=
  ⟨acts, a, [], rfl, h, rfl, fun mid a' rest s' hsplit => by simp at hsplit⟩

/-- The slots of the window hold what was written under their numbers. -/
structure WindowHolds (c : Netchan) (acts : List Act) : Prop where
  windowed : (runFrom c acts).Windowed
  slot : ∀ seq, (seq - (runFrom c acts).txBase).toNat <
      ((runFrom c acts).txNext - (runFrom c acts).txBase).toNat →
    LastGiven c acts seq ((runFrom c acts).txw (seq.toNat % ncWindow))

theorem WindowHolds.snoc {c : Netchan} (h : WindowHolds c acts) (a : Act) :
    WindowHolds c (acts ++ [a]) := by
  rcases step_window h.windowed a with ⟨s, hgiven, hfill⟩ | ⟨hnone, hslide⟩
  · refine ⟨by rw [runFrom_snoc]; exact hfill.windowed h.windowed, fun seq hseq => ?_⟩
    rw [runFrom_snoc] at hseq ⊢
    rw [hfill.txw]
    by_cases hnew : seq = s.seq
    · rw [hnew, hfill.seq, Function.update_self, ← hfill.seq]
      exact .new hgiven
    · have hold := hfill.mem hseq hnew
      rw [Function.update_of_ne (hfill.slot_ne hold).2]
      refine (h.slot seq hold).snoc fun s' hs' => ?_
      rw [hgiven] at hs'
      cases hs'
      exact Ne.symm hnew
  · refine ⟨by rw [runFrom_snoc]; exact hslide.windowed h.windowed, fun seq hseq => ?_⟩
    rw [runFrom_snoc] at hseq ⊢
    rw [hslide.txw]
    refine (h.slot seq (hslide.mem hseq)).snoc fun s' hs' => ?_
    rw [hnone] at hs'
    cases hs'

theorem WindowHolds.nil {c : Netchan} (hnext : c.txNext = c.txBase)
    (hunsent : c.txUnsent = c.txBase) : WindowHolds c [] := by
  have hzero : (c.txNext - c.txBase).toNat = 0 := by
    rw [hnext, UInt16.sub_self]
    rfl
  refine ⟨⟨?_, ?_⟩, fun seq hseq => ?_⟩
  · show (c.txUnsent - c.txBase).toNat ≤ _
    rw [hunsent, UInt16.sub_self]
    exact Nat.zero_le _
  · show (c.txNext - c.txBase).toNat ≤ _
    rw [hzero]
    exact Nat.zero_le _
  · change _ < (c.txNext - c.txBase).toNat at hseq
    omega

theorem windowHolds_run {c : Netchan} (hnext : c.txNext = c.txBase)
    (hunsent : c.txUnsent = c.txBase) (acts : List Act) : WindowHolds c acts := by
  induction acts using List.reverseRecOn with
  | nil => exact .nil hnext hunsent
  | append_singleton acts a ih => exact ih.snoc a

/-- The cursors stay in order and the window in bounds, each slot of it holds what the last
`nc_write` with its number was given, and the loop of `process_ack` is short. -/
theorem transmit_window (isServer : Bool) (r r' : UInt32) (acts : List Act) :
    let c := runFrom (ncOpen isServer r r') acts
    ((c.txUnsent - c.txBase).toNat ≤ (c.txNext - c.txBase).toNat ∧
      (c.txNext - c.txBase).toNat ≤ ncWindow) ∧
    (∀ seq, (seq - c.txBase).toNat < (c.txNext - c.txBase).toNat →
      LastGiven (ncOpen isServer r r') acts seq (c.txw (seq.toNat % ncWindow))) ∧
    ∀ ack, ¬(ackLoop ack ncWindow c).ackGoes ack ∧
      ackLoop ack (c.txNext - c.txBase).toNat c = ackLoop ack ncWindow c := by
  have hholds := windowHolds_run (c := ncOpen isServer r r') rfl rfl acts
  intro c
  have hroom : (c.txNext - c.txBase).toNat ≤ ncWindow := hholds.windowed.room
  refine ⟨⟨hholds.windowed.unsent, hroom⟩, hholds.slot, fun ack => ⟨ackLoop_stops hroom, ?_⟩⟩
  exact (ackLoop_enough le_rfl hroom).symm

end MechanicalResearcher.NetchanIpx
