import Mathlib.Algebra.Order.BigOperators.Group.Finset
import MechanicalResearcher.NetchanV2.Moves

/-!
# The send ring

What holds of the send ring of a channel after any calls and any ACK frames: where
the active slots are, which numbers they carry and what `bytes_in_flight` counts.
Slot `out_tail - d` carries number `send_seq - d`, so a write takes a slot that is
free and a number that is not in flight, and the scan of `chan_next_sendable` from
`out_head` to `out_tail` passes every active slot.
-/

namespace MechanicalResearcher.NetchanV2

open Lib Lib.Serial Lib.Runs

variable {j i k : Nat}

/-! ## Bytes in flight -/

/-- What an active slot adds to `bytes_in_flight`. -/
def Outgoing.load (o : Outgoing) : Nat := if o.active = true then o.len else 0

def Chan.activeBytes (ch : Chan) : Nat :=
  ∑ i ∈ Finset.range ncOutgoingSlots, (ch.outgoing i).load

theorem sum_load_update (out : Nat → Outgoing) {n : Nat} (hj : j < n) (o : Outgoing) :
    ∑ i ∈ Finset.range n, (Function.update out j o i).load + (out j).load =
      ∑ i ∈ Finset.range n, (out i).load + o.load := by
  have hmem : j ∈ Finset.range n := Finset.mem_range.2 hj
  have hrest : ∑ i ∈ (Finset.range n).erase j, (Function.update out j o i).load =
      ∑ i ∈ (Finset.range n).erase j, (out i).load := by
    apply Finset.sum_congr rfl
    intro i hi
    rw [Function.update_of_ne (Finset.ne_of_mem_erase hi)]
  rw [← Finset.add_sum_erase _ _ hmem, ← Finset.add_sum_erase _ (fun i => (out i).load) hmem,
    Function.update_self, hrest]
  omega

/-! ## The invariant -/

/-- How far slot `i` is before the tail. -/
def Chan.behind (ch : Chan) (i : Nat) : Nat := (ch.outTail + ncOutgoingSlots - i) % ncOutgoingSlots

structure Chan.SendRing (ch : Chan) : Prop where
  head_lt : ch.outHead < ncOutgoingSlots
  tail_lt : ch.outTail < ncOutgoingSlots
  idle : ∀ i < ncOutgoingSlots, ¬InRing ch.outHead ch.outTail i → (ch.outgoing i).active = false
  empty : ∀ i < ncOutgoingSlots, (ch.outgoing i).active = false → (ch.outgoing i).buf = none
  small : ∀ i < ncOutgoingSlots, (ch.outgoing i).active = true → (ch.outgoing i).len ≤ ncMaxMsg
  seq : ∀ i < ncOutgoingSlots, (ch.outgoing i).active = true →
    (ch.outgoing i).seq = ch.sendSeq - UInt16.ofNat (ch.behind i)
  flight : ch.type = netchanReliable → ch.bytesInFlight.toNat = ch.activeBytes

namespace Chan.SendRing

variable {ch ch' : Chan}

theorem activeBytes_le (h : ch.SendRing) : ch.activeBytes ≤ ncOutgoingSlots * ncMaxMsg := by
  have hle : ∀ i ∈ Finset.range ncOutgoingSlots, (ch.outgoing i).load ≤ ncMaxMsg := by
    intro i hi
    unfold Outgoing.load
    split_ifs with hact
    · exact h.small i (Finset.mem_range.1 hi) hact
    · exact Nat.zero_le _
  have hsum := Finset.sum_le_card_nsmul _ _ _ hle
  rwa [Finset.card_range, smul_eq_mul] at hsum

theorem congr (h : ch.SendRing) (hident : ch'.ident = ch.ident) (hout : ch'.outbox = ch.outbox) :
    ch'.SendRing := by
  simp only [Chan.ident, ChanIdent.mk.injEq] at hident
  obtain ⟨-, htype, -, -⟩ := hident
  simp only [Chan.outbox, Prod.mk.injEq] at hout
  obtain ⟨ho, hhead, htail, hseq, hbytes, -⟩ := hout
  refine ⟨hhead ▸ h.head_lt, htail ▸ h.tail_lt, ?_, ?_, ?_, ?_, ?_⟩
  · rw [ho, hhead, htail]
    exact h.idle
  · rw [ho]
    exact h.empty
  · rw [ho]
    exact h.small
  · simp only [Chan.behind]
    rw [ho, hseq, htail]
    exact h.seq
  · simp only [Chan.activeBytes]
    rw [htype, hbytes, ho]
    exact h.flight

theorem progress (h : ch.SendRing) {o : Outgoing} (ho : o.msg = (ch.outgoing j).msg) :
    Chan.SendRing { ch with outgoing := Function.update ch.outgoing j o } := by
  simp only [Outgoing.msg, OutMsg.mk.injEq] at ho
  obtain ⟨hseq, hbuf, hlen, -, hact⟩ := ho
  have hslot : ∀ i, (Function.update ch.outgoing j o i).active = (ch.outgoing i).active ∧
      (Function.update ch.outgoing j o i).buf = (ch.outgoing i).buf ∧
      (Function.update ch.outgoing j o i).len = (ch.outgoing i).len ∧
      (Function.update ch.outgoing j o i).seq = (ch.outgoing i).seq := by
    intro i
    by_cases hij : i = j
    · rw [hij, Function.update_self]
      exact ⟨hact, hbuf, hlen, hseq⟩
    · rw [Function.update_of_ne hij]
      exact ⟨rfl, rfl, rfl, rfl⟩
  refine ⟨h.head_lt, h.tail_lt, fun i hi hring => ?_, fun i hi hidle => ?_, fun i hi hbusy => ?_,
    fun i hi hbusy => ?_, fun htype => ?_⟩
  · rw [(hslot i).1]
    exact h.idle i hi hring
  · rw [(hslot i).2.1]
    exact h.empty i hi ((hslot i).1 ▸ hidle)
  · rw [(hslot i).2.2.1]
    exact h.small i hi ((hslot i).1 ▸ hbusy)
  · rw [(hslot i).2.2.2]
    exact h.seq i hi ((hslot i).1 ▸ hbusy)
  · refine (h.flight htype).trans (Finset.sum_congr rfl fun i hi => ?_)
    simp only [Outgoing.load, (hslot i).1, (hslot i).2.2.1]

theorem freed (h : ch.SendRing) {bytes acked : UInt32}
    (hbytes : ch.type = netchanReliable → bytes.toNat = ∑ i ∈ Finset.range ncOutgoingSlots,
      (Function.update ch.outgoing j (ch.outgoing j).freed i).load) :
    Chan.SendRing
      { ch with
        bytesInFlight := bytes
        msgsAcked := acked
        outgoing := Function.update ch.outgoing j (ch.outgoing j).freed } := by
  have hother : ∀ i, (Function.update ch.outgoing j (ch.outgoing j).freed i).active = true →
      i ≠ j := by
    intro i hact hij
    rw [hij, Function.update_self] at hact
    cases hact
  refine ⟨h.head_lt, h.tail_lt, ?_, ?_, ?_, ?_, hbytes⟩ <;> dsimp only
  · intro i hi hring
    by_cases hij : i = j
    · rw [hij, Function.update_self]
      rfl
    · rw [Function.update_of_ne hij]
      exact h.idle i hi hring
  · intro i hi hidle
    by_cases hij : i = j
    · rw [hij, Function.update_self]
      rfl
    · rw [Function.update_of_ne hij] at hidle ⊢
      exact h.empty i hi hidle
  · intro i hi hbusy
    have hij := hother i hbusy
    rw [Function.update_of_ne hij] at hbusy ⊢
    exact h.small i hi hbusy
  · intro i hi hbusy
    have hij := hother i hbusy
    rw [Function.update_of_ne hij] at hbusy ⊢
    exact h.seq i hi hbusy

theorem acked (h : ch.SendRing) (hj : j < ncOutgoingSlots) (hact : (ch.outgoing j).active = true) :
    (ch.acked j).SendRing := by
  refine h.freed fun htype => ?_
  have hload : (ch.outgoing j).load = (ch.outgoing j).len := if_pos hact
  have hzero : (ch.outgoing j).freed.load = 0 := rfl
  have hle : (ch.outgoing j).load ≤ ch.activeBytes :=
    Finset.single_le_sum (f := fun i => (ch.outgoing i).load) (fun _ _ => Nat.zero_le _)
      (Finset.mem_range.2 hj)
  have hsum := sum_load_update ch.outgoing hj (ch.outgoing j).freed
  have hflight := h.flight htype
  have hsmall := h.small j hj hact
  have hmax : ncMaxMsg < 2 ^ 32 := by decide
  have hlt := UInt32.toNat_lt ch.bytesInFlight
  rw [UInt32.toNat_sub, UInt32.toNat_ofNat']
  rw [Chan.activeBytes] at hflight hle
  omega

theorem pop (h : ch.SendRing) (hne : ch.outHead ≠ ch.outTail)
    (hidle : (ch.outgoing ch.outHead).active = false) :
    Chan.SendRing { ch with outHead := (ch.outHead + 1) % ncOutgoingSlots } := by
  refine ⟨Nat.mod_lt _ (by decide), h.tail_lt, fun i hi hring => ?_, h.empty, h.small, h.seq,
    h.flight⟩
  rw [inRing_pop h.head_lt h.tail_lt hi hne] at hring
  by_cases hhead : i = ch.outHead
  · rw [hhead]
    exact hidle
  · exact h.idle i hi fun hin => hring ⟨hin, hhead⟩

theorem moves {w : UInt32 → Prop} (hm : Chan.Moves w ch ch') (h : ch.SendRing) : ch'.SendRing := by
  induction hm with
  | other hident hin hout hstate => exact h.congr hident hout
  | enqueue ch b hroom hlen => exact h.congr rfl rfl
  | progress ch ho => exact h.progress ho
  | release ch j htype =>
    refine h.freed fun hrel => ?_
    rw [htype] at hrel
    cases hrel
  | ack ch hj hact => exact h.acked hj hact
  | pop ch hne hidle => exact h.pop hne hidle
  | window ch hw => exact ⟨h.head_lt, h.tail_lt, h.idle, h.empty, h.small, h.seq, h.flight⟩
  | trans hm hm' ih ih' => exact ih' (ih h)

theorem blank {window : UInt32} (hb : ch.Blank window) : ch.SendRing := by
  obtain ⟨id, type, dir, role, ct, state, rfl⟩ := hb
  have hzero : 0 < ncOutgoingSlots := by decide
  refine ⟨hzero, hzero, ?_, ?_, ?_, ?_, ?_⟩ <;>
    simp [Chan.fresh, Chan.zero, Outgoing.zero, Chan.activeBytes, Outgoing.load]

theorem tail_idle (h : ch.SendRing) : (ch.outgoing ch.outTail).active = false :=
  h.idle _ h.tail_lt not_inRing_tail

theorem behind_pos (h : ch.SendRing) (hi : i < ncOutgoingSlots)
    (hact : (ch.outgoing i).active = true) : 0 < ch.behind i := by
  have htail := h.tail_lt
  have hne : i ≠ ch.outTail := by
    rintro rfl
    rw [h.tail_idle] at hact
    cases hact
  simp only [Chan.behind, ncOutgoingSlots] at htail hi ⊢
  omega

theorem seq_ne (h : ch.SendRing) (hi : i < ncOutgoingSlots) (hact : (ch.outgoing i).active = true) :
    (ch.outgoing i).seq ≠ ch.sendSeq := by
  have hpos := h.behind_pos hi hact
  have hlt : ch.behind i < 64 := Nat.mod_lt _ (by decide)
  rw [h.seq i hi hact]
  intro he
  have heq := congrArg UInt16.toNat he
  have hseq := UInt16.toNat_lt ch.sendSeq
  rw [UInt16.toNat_sub, UInt16.toNat_ofNat'] at heq
  omega

theorem succ_sub_succ (a b : UInt16) : a + 1 - (b + 1) = a - b := by
  rw [UInt16.sub_eq_iff_eq_add, ← UInt16.add_assoc, UInt16.sub_add_cancel]

theorem push (h : ch.SendRing) (hroom : (ch.outTail + 1) % ncOutgoingSlots ≠ ch.outHead)
    (b : Nat) {len : Nat} (hlen : len ≤ ncMaxMsg) (fragTotal : Nat) :
    (ch.queued b len fragTotal).SendRing := by
  have htail := h.tail_lt
  have hring : ∀ i < ncOutgoingSlots, InRing ch.outHead ((ch.outTail + 1) % ncOutgoingSlots) i ↔
      InRing ch.outHead ch.outTail i ∨ i = ch.outTail := fun i hi =>
    inRing_push h.head_lt h.tail_lt hi hroom
  refine ⟨h.head_lt, Nat.mod_lt _ (by decide), ?_, ?_, ?_, ?_, ?_⟩ <;>
    simp only [Chan.queued, Chan.behind, Chan.activeBytes]
  · intro i hi hout
    rw [hring i hi, not_or] at hout
    rw [Function.update_of_ne hout.2]
    exact h.idle i hi hout.1
  · intro i hi hidle
    by_cases hit : i = ch.outTail
    · rw [hit, Function.update_self] at hidle
      cases hidle
    · rw [Function.update_of_ne hit] at hidle ⊢
      exact h.empty i hi hidle
  · intro i hi hact
    by_cases hit : i = ch.outTail
    · rw [hit, Function.update_self]
      exact hlen
    · rw [Function.update_of_ne hit] at hact ⊢
      exact h.small i hi hact
  · intro i hi hact
    by_cases hit : i = ch.outTail
    · have hone : ((ch.outTail + 1) % 64 + 64 - ch.outTail) % 64 = 1 := by
        simp only [ncOutgoingSlots] at htail
        omega
      rw [hit, Function.update_self, hone]
      exact (UInt16.add_sub_cancel ch.sendSeq 1).symm
    · rw [Function.update_of_ne hit] at hact ⊢
      -- the slot behind the new tail is not in the ring, so none moves past the end
      have hin : InRing ch.outHead ch.outTail i := by
        by_contra hno
        rw [h.idle i hi hno] at hact
        cases hact
      have hback : ((ch.outTail + 1) % 64 + 64 - i) % 64 = ch.behind i + 1 := by
        have hhead := h.head_lt
        unfold InRing at hin
        simp only [Chan.behind, ncOutgoingSlots] at hi hhead hroom ⊢
        omega
      rw [hback, h.seq i hi hact, UInt16.ofNat_add]
      exact (succ_sub_succ ch.sendSeq _).symm
  · intro htype
    have hsum := sum_load_update ch.outgoing htail
      ⟨ch.sendSeq, some b, len, 0, 0, 0, fragTotal, true⟩
    have hload : (ch.outgoing ch.outTail).load = 0 := by
      rw [Outgoing.load, h.tail_idle]
      rfl
    have hnew : Outgoing.load ⟨ch.sendSeq, some b, len, 0, 0, 0, fragTotal, true⟩ = len := rfl
    have hflight := h.flight htype
    have hle := h.activeBytes_le
    have hmax : (ncOutgoingSlots + 1) * ncMaxMsg < 2 ^ 32 := by decide
    rw [if_pos htype, UInt32.toNat_add, UInt32.toNat_ofNat']
    rw [Chan.activeBytes] at hflight hle
    rw [hload, hnew, Nat.add_zero] at hsum
    rw [hsum, hflight]
    have hmsg : ncMaxMsg = 2048 := rfl
    simp only [ncOutgoingSlots] at hle ⊢
    omega

end Chan.SendRing

/-! ## The scan for unsent fragments -/

def Outgoing.Unsent (o : Outgoing) : Prop := o.active = true ∧ o.fragSent < o.fragTotal

/-- How far slot `i` is behind the head. -/
def Chan.ahead (ch : Chan) (i : Nat) : Nat := (i + ncOutgoingSlots - ch.outHead) % ncOutgoingSlots

theorem sendableFrom_first {ch : Chan} {fuel idx d : Nat} (hidx : idx < ncOutgoingSlots)
    (hd : d < fuel) (hring : ∀ e ≤ d, (idx + e) % ncOutgoingSlots ≠ ch.outTail)
    (hbefore : ∀ e < d, ¬(ch.outgoing ((idx + e) % ncOutgoingSlots)).Unsent)
    (hat : (ch.outgoing ((idx + d) % ncOutgoingSlots)).Unsent) :
    sendableFrom ch fuel idx = some ((idx + d) % ncOutgoingSlots) := by
  induction fuel generalizing idx d with
  | zero => cases hd
  | succ fuel ih =>
    have hself : (idx + 0) % ncOutgoingSlots = idx := Nat.mod_eq_of_lt hidx
    have hne := hring 0 (Nat.zero_le d)
    rw [hself] at hne
    unfold sendableFrom
    rw [if_neg hne]
    cases d with
    | zero =>
      rw [hself] at hat ⊢
      exact if_pos hat
    | succ d =>
      have hskip := hbefore 0 (Nat.succ_pos d)
      have hnext : ∀ e, ((idx + 1) % ncOutgoingSlots + e) % ncOutgoingSlots =
          (idx + (e + 1)) % ncOutgoingSlots := Ring.cell_next ncOutgoingSlots idx
      rw [hself] at hskip
      refine (if_neg hskip).trans ?_
      rw [← hnext d]
      apply ih (Nat.mod_lt _ (by decide)) (Nat.lt_of_succ_lt_succ hd)
      · intro e he
        rw [hnext]
        exact hring _ (Nat.succ_le_succ he)
      · intro e he
        rw [hnext]
        exact hbefore _ (Nat.succ_lt_succ he)
      · rw [hnext]
        exact hat

namespace Chan.SendRing

variable {ch : Chan}

theorem next_eq (h : ch.SendRing) (hj : j < ncOutgoingSlots) (hunsent : (ch.outgoing j).Unsent)
    (hfirst : ∀ i < ncOutgoingSlots, (ch.outgoing i).Unsent → ch.ahead j ≤ ch.ahead i) :
    chanNextSendable ch = some j := by
  have hhead := h.head_lt
  have htail := h.tail_lt
  have hin : InRing ch.outHead ch.outTail j := by
    by_contra hno
    have hact := hunsent.1
    rw [h.idle j hj hno] at hact
    cases hact
  have hcell : (ch.outHead + ch.ahead j) % ncOutgoingSlots = j := by
    simp only [Chan.ahead, ncOutgoingSlots] at hj hhead ⊢
    omega
  have hahead : ch.ahead j < ncOutgoingSlots := Nat.mod_lt _ (by decide)
  have hscan := sendableFrom_first hhead hahead ?_ ?_ (hcell.symm ▸ hunsent)
  · rw [hcell] at hscan
    exact hscan
  · intro e he
    unfold InRing at hin
    simp only [Chan.ahead, ncOutgoingSlots] at hj hhead htail he ⊢
    omega
  · intro e he hun
    have hle := hfirst _ (Nat.mod_lt _ (by decide)) hun
    simp only [Chan.ahead, ncOutgoingSlots] at hj hhead he hle
    omega

theorem next_some (h : ch.SendRing) (hj : j < ncOutgoingSlots) (hunsent : (ch.outgoing j).Unsent) :
    ∃ i < ncOutgoingSlots, chanNextSendable ch = some i ∧ (ch.outgoing i).Unsent ∧
      ch.ahead i ≤ ch.ahead j := by
  induction hn : ch.ahead j using Nat.strong_induction_on generalizing j with
  | _ n ih =>
    by_cases hfirst : ∀ i < ncOutgoingSlots, (ch.outgoing i).Unsent → ch.ahead j ≤ ch.ahead i
    · exact ⟨j, hj, h.next_eq hj hunsent hfirst, hunsent, hn.le⟩
    · push Not at hfirst
      obtain ⟨i, hi, hun, hlt⟩ := hfirst
      obtain ⟨i', hi', hnext, hun', hle⟩ := ih _ (hn ▸ hlt) hi hun rfl
      exact ⟨i', hi', hnext, hun', hle.trans (hn ▸ hlt.le)⟩

end Chan.SendRing

/-! ## Calls -/

/-- The ring invariant, for fragments that are large enough. -/
abbrev Core.SendRings (s : Core) : Prop :=
  s.AllChans fun cfg ch => 64 ≤ maxFragPayload cfg → ch.SendRing

theorem chanWrite_sendRing {s : Core} (h : (s.chanPool k).SendRing)
    (hfp : 64 ≤ maxFragPayload s.cfg) (data : List UInt8) :
    ((chanWrite s k data).1.chanPool k).SendRing := by
  rcases chanWrite_cases s k data with ⟨r, heq⟩ | ⟨hcan, hmany, -⟩ | ⟨hcan, -, heq⟩
  · rwa [heq]
  · obtain ⟨-, -, hpos, hlen, -⟩ := hcan
    exact absurd (fragCount_le hfp hpos hlen) (Nat.not_le.2 hmany)
  · obtain ⟨-, -, -, hlen, -, hroom, -⟩ := hcan
    simp only [heq, Core.mark, Core.takeInto, Function.update_self]
    exact h.push hroom _ hlen _

theorem chanWrite_fresh {s : Core} (h : (s.chanPool k).SendRing) (hfp : 64 ≤ maxFragPayload s.cfg)
    (data : List UInt8) (hi : i < ncOutgoingSlots)
    (hact : ((s.chanPool k).outgoing i).active = true) :
    ((chanWrite s k data).1.chanPool k).outgoing i = (s.chanPool k).outgoing i ∧
      ∀ j < ncOutgoingSlots, ((s.chanPool k).outgoing j).active = false →
        (((chanWrite s k data).1.chanPool k).outgoing j).active = true →
          (((chanWrite s k data).1.chanPool k).outgoing j).seq ≠
            ((s.chanPool k).outgoing i).seq := by
  have hne : i ≠ (s.chanPool k).outTail := by
    rintro rfl
    rw [h.tail_idle] at hact
    cases hact
  rcases chanWrite_cases s k data with ⟨r, heq⟩ | ⟨hcan, hmany, -⟩ | ⟨-, -, heq⟩
  · rw [heq]
    refine ⟨rfl, fun j hj hidle hbusy => ?_⟩
    rw [hidle] at hbusy
    cases hbusy
  · obtain ⟨-, -, hpos, hlen, -⟩ := hcan
    exact absurd (fragCount_le hfp hpos hlen) (Nat.not_le.2 hmany)
  · simp only [heq, Core.mark, Core.takeInto, Function.update_self, Chan.queued]
    refine ⟨Function.update_of_ne hne _ _, fun j hj hidle hbusy => ?_⟩
    by_cases hjt : j = (s.chanPool k).outTail
    · rw [hjt, Function.update_self]
      exact (h.seq_ne hi hact).symm
    · rw [Function.update_of_ne hjt, hidle] at hbusy
      cases hbusy

theorem Conn.step_sendRings {c : Conn} (h : c.toCore.SendRings) (hgood : c.toCore.Good)
    (a : Act) : (c.step a).toCore.SendRings := by
  cases huser : a.isUser with
  | false =>
    exact Core.AllChans.call (I := fun cfg ch => 64 ≤ maxFragPayload cfg → ch.SendRing)
      (fun _ _ _ hb _ => Chan.SendRing.blank hb)
      (fun _ _ _ hm h hfp => (h hfp).moves hm) h hgood huser
  | true =>
    refine h.user huser (fun k data _ hk hfp => ?_) fun k buflen _ hk hfp => ?_
    · exact chanWrite_sendRing (h k hk hfp) hfp data
    · obtain ⟨hident, hout⟩ := chanRead_outbox c.toCore k buflen
      exact (h k hk hfp).congr hident hout

theorem Conn.Reachable.sendRing {c : Conn} (h : c.Reachable) (hfp : 64 ≤ maxFragPayload c.cfg)
    (hk : c.chanUsed k = true) : (c.chanPool k).SendRing := by
  have hboth : c.toCore.Good ∧ c.toCore.SendRings := by
    refine Reach.invariant (P := fun c => c.toCore.Good ∧ c.toCore.SendRings) ?_ ?_ h
    · rintro c ⟨server, cfg, rfl⟩
      exact ⟨netchanOpen_good server cfg, fun k hk => by cases hk⟩
    · intro c a hc _
      exact ⟨c.step_good hc.1 a, c.step_sendRings hc.2 hc.1 a⟩
  exact hboth.2 k hk hfp

/-- After any calls and any packets the ring of a reliable channel with fragments of 64 bytes or
more is in order, the bytes in flight are those of its active slots, and the scan for unsent
fragments finds the first slot that has one. -/
theorem sendRing_sound {c : Conn} (h : c.Reachable) (hfp : 64 ≤ maxFragPayload c.cfg) {k : Nat}
    (hk : c.chanUsed k = true) (hrel : (c.chanPool k).type = netchanReliable) :
    (∀ i < ncOutgoingSlots, ¬InRing (c.chanPool k).outHead (c.chanPool k).outTail i →
      ((c.chanPool k).outgoing i).active = false ∧ ((c.chanPool k).outgoing i).buf = none) ∧
    (∀ d < ncOutgoingSlots,
      ((c.chanPool k).outgoing
        (((c.chanPool k).outTail + ncOutgoingSlots - d) % ncOutgoingSlots)).active = true →
      ((c.chanPool k).outgoing
        (((c.chanPool k).outTail + ncOutgoingSlots - d) % ncOutgoingSlots)).seq =
          (c.chanPool k).sendSeq - UInt16.ofNat d) ∧
    (c.chanPool k).bytesInFlight.toNat = (c.chanPool k).activeBytes ∧
    (∀ data, ∀ i < ncOutgoingSlots, ((c.chanPool k).outgoing i).active = true →
      ((netchanChanWrite c k data).1.chanPool k).outgoing i = (c.chanPool k).outgoing i ∧
        ∀ j < ncOutgoingSlots, ((c.chanPool k).outgoing j).active = false →
          (((netchanChanWrite c k data).1.chanPool k).outgoing j).active = true →
            (((netchanChanWrite c k data).1.chanPool k).outgoing j).seq ≠
              ((c.chanPool k).outgoing i).seq) ∧
    ∀ j < ncOutgoingSlots, ((c.chanPool k).outgoing j).Unsent →
      ((∃ i < ncOutgoingSlots, chanNextSendable (c.chanPool k) = some i ∧
          ((c.chanPool k).outgoing i).Unsent ∧
          (c.chanPool k).ahead i ≤ (c.chanPool k).ahead j) ∧
        ((∀ i < ncOutgoingSlots, ((c.chanPool k).outgoing i).Unsent →
            (c.chanPool k).ahead j ≤ (c.chanPool k).ahead i) →
          chanNextSendable (c.chanPool k) = some j)) := by
  have hring := h.sendRing hfp hk
  refine ⟨fun i hi hout => ?_, fun d hd hact => ?_, hring.flight hrel, fun data i hi hact => ?_,
    fun j hj hun => ⟨hring.next_some hj hun, hring.next_eq hj hun⟩⟩
  · have hidle := hring.idle i hi hout
    exact ⟨hidle, hring.empty i hi hidle⟩
  · have htail := hring.tail_lt
    rw [hring.seq _ (Nat.mod_lt _ (by decide)) hact]
    congr 2
    simp only [Chan.behind, ncOutgoingSlots] at htail hd ⊢
    omega
  · exact chanWrite_fresh hring hfp data hi hact

/-- A server that opened a reliable channel, wrote two messages on it and got an ACK frame for
the first. -/
def halfAcked : Conn :=
  (netchanOpen true netchanCfgDefault).run
    [.feed quietEnv [0x01, 0, 0, 0, 5, 0x01, 0, 0, 0, 5, 0x01] none, .accept,
      .chanOpen netchanReliable netchanDirSend none, .chanWrite 0 [1, 2, 3], .chanWrite 0 [4, 5],
      .feed quietEnv [0x02, 0, 0, 0, 7, 0, 0, 0x0A, 1, 0, 0] none]

theorem sendRing_sound_two :
    (halfAcked.chanPool 0).bytesInFlight.toNat = (halfAcked.chanPool 0).activeBytes ∧
      (halfAcked.chanPool 0).activeBytes = 2 := by
  have hreach : halfAcked.Reachable := (reachable_open true netchanCfgDefault).run _
  have h := sendRing_sound hreach (by decide +kernel) (k := 0) (by decide +kernel)
    (by decide +kernel)
  exact ⟨h.2.2.1, by decide +kernel⟩

end MechanicalResearcher.NetchanV2
