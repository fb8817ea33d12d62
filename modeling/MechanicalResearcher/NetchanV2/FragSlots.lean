import MechanicalResearcher.NetchanV2.Assembly
import MechanicalResearcher.NetchanV2.Delivery

/-!
# The messages that hold fragment slots

The fragments of a message that was delivered, or that is complete and waits in the
reorder table, still get a slot when they come again: `process_data` compares the number
of a whole message with `recv_seq`, but not that of a fragment.  Nothing frees such a
slot.  Where no frame claims a slot for such a message, every slot belongs to a message
that is due or among the next 63, holds pieces of this message only, and is its only slot.
-/

namespace MechanicalResearcher.NetchanV2

open Lib Lib.Serial Lib.Pieces Lib.Runs Lib.Network

variable {K : Nat → Slot → Prop} {seq : UInt16} {id : UInt8}

/-! ## Slots and their messages -/

section Slots

variable {m : Nat → List UInt8} {only only' : Nat → Prop} {s s' : Core} {k i j : Nat}

theorem Holds.keep {d : List UInt8} (h : Holds s ((s.chanPool k).frags i) d) (hinv : s.Inv)
    (hk : s.chanUsed k = true) (hi : i < ncFragSlots)
    (hact : ((s.chanPool k).frags i).active = true) (hkeep : Core.Keeps K s s') (hK : K k (.frag i))
    (hcfg : s'.cfg = s.cfg) :
    Holds s' ((s.chanPool k).frags i) d := by
  have hfrag := (hinv.chans k hk).frag i hi hact
  obtain ⟨b, hb⟩ := hfrag.buf
  have hslot : s.bufAt (.slot k (.frag i)) = some b := by
    simp only [ncFragSlots] at hi
    simp [Core.bufAt, Chan.bufAt, hk, hi, hact, hb]
  refine ⟨hcfg ▸ h.cut, fun t ht hbit => ?_⟩
  rw [hcfg]
  obtain ⟨hoff, hbytes⟩ := h.pieces t ht hbit
  refine ⟨hoff, ?_⟩
  have hfits := hfrag.fits t hbit
  rw [← hbytes, hb]
  simp only [Core.bytes, poolPtr, Option.getD_some]
  apply Memory.read_congr
  intro x hx
  rw [Nat.add_assoc]
  exact hkeep.store k (.frag i) b hK hslot _ (by omega)

/-- Slot `i` gathers message `j`, which is due or among the next 63. -/
structure Gathered (m : Nat → List UInt8) (s : Core) (k i j : Nat) : Prop where
  lo : advances k s.log ≤ j
  hi : j < advances k s.log + ncReorderSlots
  seq : ((s.chanPool k).frags i).seq = UInt16.ofNat j
  holds : Holds s ((s.chanPool k).frags i) (m j)

/-- Every active slot, of those in `only`, gathers a message that does not wait in the
reorder table.  No two slots gather the same. -/
structure Assembling (m : Nat → List UInt8) (only : Nat → Prop) (s : Core) (k : Nat) : Prop where
  count : (s.chanPool k).recvSeq = UInt16.ofNat (advances k s.log)
  slot : ∀ i < ncFragSlots, only i → ((s.chanPool k).frags i).active = true →
    ∃ j, Gathered m s k i j
  early : ∀ i < ncFragSlots, only i → ((s.chanPool k).frags i).active = true →
    ∀ p < ncReorderSlots, ((s.chanPool k).reorder p).valid = true →
      ((s.chanPool k).reorder p).seq ≠ ((s.chanPool k).frags i).seq
  inj : ∀ i < ncFragSlots, ∀ i' < ncFragSlots, ((s.chanPool k).frags i).active = true →
    ((s.chanPool k).frags i').active = true →
    ((s.chanPool k).frags i).seq = ((s.chanPool k).frags i').seq → i = i'

theorem Assembling.mono (h : Assembling m only s k) (hsub : ∀ i, only' i → only i) :
    Assembling m only' s k :=
  ⟨h.count, fun i hi ho => h.slot i hi (hsub i ho), fun i hi ho => h.early i hi (hsub i ho), h.inj⟩

theorem Assembling.keep (h : Assembling m only s k) (hinv : s.Inv) (hk : s.chanUsed k = true)
    (hkeep : Core.Keeps K s s') (hK : ∀ i, K k (.frag i)) (hcfg : s'.cfg = s.cfg)
    (hfrags : (s'.chanPool k).frags = (s.chanPool k).frags)
    (hseq : (s'.chanPool k).recvSeq = (s.chanPool k).recvSeq)
    (hadv : advances k s'.log = advances k s.log)
    (hreorder : ∀ i < ncFragSlots, only i → ((s.chanPool k).frags i).active = true →
      ∀ p < ncReorderSlots, ((s'.chanPool k).reorder p).valid = true →
        ((s'.chanPool k).reorder p).seq ≠ ((s.chanPool k).frags i).seq) :
    Assembling m only s' k := by
  refine ⟨by rw [hseq, hadv, h.count], fun i hi ho hact => ?_, ?_, ?_⟩
  · rw [hfrags] at hact
    obtain ⟨j, hlo, hhi, hj, hholds⟩ := h.slot i hi ho hact
    refine ⟨j, by rw [hadv]; exact hlo, by rw [hadv]; exact hhi, by rw [hfrags]; exact hj, ?_⟩
    rw [hfrags]
    exact hholds.keep hinv hk hi hact hkeep (hK i) hcfg
  · rw [hfrags]
    exact hreorder
  · rw [hfrags]
    exact h.inj

theorem Assembling.bump (h : Assembling m only s k) (hinv : s.Inv) (hk : s.chanUsed k = true)
    (hkeep : Core.Keeps K s s') (hK : ∀ i, K k (.frag i)) (hcfg : s'.cfg = s.cfg)
    (hfrags : (s'.chanPool k).frags = (s.chanPool k).frags)
    (hseq : (s'.chanPool k).recvSeq = (s.chanPool k).recvSeq + 1)
    (hadv : advances k s'.log = advances k s.log + 1)
    (hreorder : ∀ p, ((s'.chanPool k).reorder p).valid = true →
      (s'.chanPool k).reorder p = (s.chanPool k).reorder p)
    (hdue : ∀ i < ncFragSlots, only i → ((s.chanPool k).frags i).active = true →
      ((s.chanPool k).frags i).seq ≠ (s.chanPool k).recvSeq) :
    Assembling m only s' k := by
  refine ⟨by rw [hseq, hadv, h.count, ofNat_add_one], fun i hi ho hact => ?_,
    fun i hi ho hact p hp hv => ?_, ?_⟩
  · rw [hfrags] at hact
    obtain ⟨j, hlo, hhi, hj, hholds⟩ := h.slot i hi ho hact
    have hne : j ≠ advances k s.log := by
      rintro rfl
      exact hdue i hi ho hact (hj.trans h.count.symm)
    refine ⟨j, by rw [hadv]; omega, by rw [hadv]; omega, by rw [hfrags]; exact hj, ?_⟩
    rw [hfrags]
    exact hholds.keep hinv hk hi hact hkeep (hK i) hcfg
  · rw [hfrags] at hact ⊢
    have hold := hreorder p hv
    rw [hold] at hv ⊢
    exact h.early i hi ho hact p hp hv
  · rw [hfrags]
    exact h.inj

/-! ## Delivery -/

theorem Assembling.inOrder (h : Assembling m only s k) (hinv : s.Inv) (hk : s.chanUsed k = true)
    (hdue : ∀ i < ncFragSlots, only i → ((s.chanPool k).frags i).active = true →
      ((s.chanPool k).frags i).seq ≠ (s.chanPool k).recvSeq) (data : List UInt8) :
    Assembling m only (bumpRecvSeq (chanRecvEnqueue s k data).1 k) k := by
  obtain ⟨hseq, hreo, hfrags⟩ := chanRecvEnqueue_recvSeq s k data
  have ht := (chanRecvEnqueue_touch s k data).trans (bumpRecvSeq_touch _ k)
  obtain ⟨ok, hlog⟩ := bump_enqueue_log s k data
  have hlog' : (bumpRecvSeq (chanRecvEnqueue s k data).1 k).log =
      s.log ++ [.enqueue k data ok] ++ [.advance k] := by
    rw [← hlog]
    rfl
  refine h.bump hinv hk ((chanRecvEnqueue_keeps hinv hk data).trans (bumpRecvSeq_keeps _ _ k))
    (by simp [Off]) ht.cfg ?_ ?_ ?_ (fun p _ => ?_) hdue
  · simp [bumpRecvSeq, Core.modChan, Core.mark, hfrags]
  · simp [bumpRecvSeq, Core.modChan, Core.mark, hseq]
  · rw [hlog', advances_append, advances_append]
    simp [advances]
  · simp [bumpRecvSeq, Core.modChan, Core.mark, hreo]

theorem Assembling.drainOne (h : Assembling m only s k) (hinv : s.Inv) (hk : s.chanUsed k = true)
    (hd : deliverable (s.chanPool k) = true) : Assembling m only (deliverCore s k) k := by
  simp only [deliverable, Bool.and_eq_true, beq_iff_eq] at hd
  obtain ⟨hvalid, hentry⟩ := hd
  obtain ⟨hseq, hreo⟩ := deliverCore_reorder s k
  obtain ⟨ok, hlog⟩ := deliverCore_log s k
  have hslot : (s.chanPool k).recvSeq.toNat % ncReorderSlots < ncReorderSlots :=
    Nat.mod_lt _ (by decide)
  refine h.bump hinv hk (deliverCore_keeps hinv hk) (by simp [Off]) (deliverCore_touch s k).cfg
    (deliverCore_frags s k) hseq ?_ (fun p hv => ?_) fun i hi ho hact he => ?_
  · rw [hlog, advances_append]
    simp [advances]
  · rw [hreo] at hv ⊢
    by_cases hp : p = (s.chanPool k).recvSeq.toNat % ncReorderSlots
    · subst hp
      simp at hv
    · rw [Function.update_of_ne hp]
  · exact h.early i hi ho hact _ hslot hvalid (hentry.trans he.symm)

theorem Assembling.drain (fuel : Nat) {c : Conn} (h : Assembling m only c.toCore k)
    (hinv : c.toCore.Inv) (hk : c.chanUsed k = true) :
    Assembling m only (deliverLoop fuel c k).toCore k :=
  deliverLoop_tables (P := fun s => Assembling m only s k)
    (fun _ hinv hk hd h => h.drainOne hinv hk hd) fuel hinv hk h

theorem Assembling.store (h : Assembling m only s k) (hinv : s.Inv) (hk : s.chanUsed k = true)
    {data : List UInt8} (hlen : data.length ≤ ncMaxMsg)
    (hnew : ∀ i < ncFragSlots, only i → ((s.chanPool k).frags i).active = true →
      ((s.chanPool k).frags i).seq ≠ seq) : Assembling m only (reorderStore s k seq data) k := by
  have hkeep := reorderStore_keeps (k := k) hinv seq hlen
  rw [reorderStore_eq] at hkeep ⊢
  split_ifs at hkeep ⊢ with htop
  · refine h.keep hinv hk hkeep (by simp [Off]) rfl ?_ ?_ rfl fun i hi ho hact p hp hv => ?_
    · simp [Core.takeInto, Chan.reordered]
    · simp [Core.takeInto, Chan.reordered]
    · simp only [Core.takeInto, Chan.reordered, Function.update_self] at hv ⊢
      by_cases hps : p = seq.toNat % ncReorderSlots
      · subst hps
        rw [Function.update_self]
        exact (hnew i hi ho hact).symm
      · rw [Function.update_of_ne hps] at hv ⊢
        exact h.early i hi ho hact p hp hv
  · exact h

theorem Assembling.deliver {c : Conn} (h : Assembling m only c.toCore k) (hinv : c.toCore.Inv)
    (hk : c.chanUsed k = true) (hd : deliverable (c.chanPool k) = false)
    (hnew : ∀ i < ncFragSlots, only i → ((c.chanPool k).frags i).active = true →
      ((c.chanPool k).frags i).seq ≠ seq) (data : List UInt8) :
    Assembling m only (deliverReliable c k seq data).toCore k := by
  simp only [deliverReliable]
  split_ifs with hseq hcond
  · subst hseq
    have hcore : (Conn.lift (evPush (c.lift fun s => (chanRecvEnqueue s k data).1) .data (some k))
        fun s => bumpRecvSeq s k).toCore =
        bumpRecvSeq (chanRecvEnqueue c.toCore k data).1 k := by simp
    have ht := (chanRecvEnqueue_touch c.toCore k data).trans (bumpRecvSeq_touch _ k)
    exact Assembling.drain ncReorderSlots (hcore ▸ h.inOrder hinv hk hnew data)
      (hcore ▸ bumpRecvSeq_enqueue_inv hinv hk hd data) (by rw [hcore]; exact ht.used hk)
  · exact h.store hinv hk hcond.2.2.2 hnew
  · exact h

/-! ## Claiming, filling and freeing a slot -/

theorem Assembling.refrag {f : FragAsm} (h : Assembling m only s k) (hinv : s.Inv)
    (hk : s.chanUsed k = true) (hkeep : Core.Keeps (Off k (.frag i)) s s')
    (hcfg : s'.cfg = s.cfg) (hchan : s'.chanPool k = (s.chanPool k).refragged i f)
    (hadv : advances k s'.log = advances k s.log) (honly : ∀ i' ≠ i, only' i' → only i')
    (hslot : f.active = true → ∃ j, Gathered m s' k i j)
    (hearly : f.active = true → ∀ p < ncReorderSlots, ((s.chanPool k).reorder p).valid = true →
      ((s.chanPool k).reorder p).seq ≠ f.seq)
    (hinj : f.active = true → ∀ i' < ncFragSlots, i' ≠ i →
      ((s.chanPool k).frags i').active = true → ((s.chanPool k).frags i').seq ≠ f.seq) :
    Assembling m only' s' k := by
  have hself : (s'.chanPool k).frags i = f := by simp [hchan, Chan.refragged]
  have hother : ∀ i' ≠ i, (s'.chanPool k).frags i' = (s.chanPool k).frags i' := by
    intro i' hne
    simp [hchan, Chan.refragged, Function.update_of_ne hne]
  have hseq : (s'.chanPool k).recvSeq = (s.chanPool k).recvSeq := by rw [hchan]; rfl
  have hreo : (s'.chanPool k).reorder = (s.chanPool k).reorder := by rw [hchan]; rfl
  refine ⟨by rw [hseq, hadv, h.count], fun i' hi' ho hact => ?_, fun i' hi' ho hact => ?_,
    fun a ha b hb hacta hactb hab => ?_⟩
  · by_cases hne : i' = i
    · subst hne
      rw [hself] at hact
      exact hslot hact
    · rw [hother i' hne] at hact
      obtain ⟨j, hlo, hhi, hj, hholds⟩ := h.slot i' hi' (honly i' hne ho) hact
      refine ⟨j, by rw [hadv]; exact hlo, by rw [hadv]; exact hhi, ?_, ?_⟩
      · rw [hother i' hne]
        exact hj
      · rw [hother i' hne]
        exact hholds.keep hinv hk hi' hact hkeep (by simpa [Off] using hne) hcfg
  · rw [hreo]
    by_cases hne : i' = i
    · subst hne
      rw [hself] at hact ⊢
      exact hearly hact
    · rw [hother i' hne] at hact ⊢
      exact h.early i' hi' (honly i' hne ho) hact
  · by_cases hai : a = i
    · subst hai
      by_contra hne
      have hne' : b ≠ a := fun e => hne e.symm
      rw [hself] at hacta hab
      rw [hother b hne'] at hactb hab
      exact hinj hacta b hb hne' hactb hab.symm
    · rw [hother a hai] at hacta hab
      by_cases hbi : b = i
      · subst hbi
        rw [hself] at hactb hab
        exact absurd hab (hinj hactb a ha hai hacta)
      · rw [hother b hbi] at hactb hab
        exact h.inj a ha b hb hacta hactb hab

theorem Assembling.free (h : Assembling m (· ≠ i) s k) (hinv : s.Inv) (hk : s.chanUsed k = true)
    (hi : i < ncFragSlots) : Assembling m (fun _ => True) (fragFree s k i) k := by
  have hlog : (fragFree s k i).log = s.log := by simp [fragFree_eq, Core.modChan, poolPut_log]
  refine h.refrag hinv hk (fragFree_keeps s k hi) (fragFree_touch s k i).cfg (fragFree_chan s k i)
    (by rw [hlog]) (fun _ hne _ => hne) ?_ ?_ ?_
  all_goals
    intro hact
    cases hact

theorem Assembling.claim {n : Nat} (h : Assembling m (fun _ => True) s k) (hinv : s.Inv)
    (hk : s.chanUsed k = true) (hi : i < ncFragSlots) (htop : 0 < s.poolFreeTop)
    (hcut : Cut (maxFragPayload s.cfg) n (m j)) (hseq : seq = UInt16.ofNat j)
    (hfind : fragFind (s.chanPool k) seq = none) (hlo : advances k s.log ≤ j)
    (hhi : j < advances k s.log + ncReorderSlots)
    (hearly : ∀ p < ncReorderSlots, ((s.chanPool k).reorder p).valid = true →
      ((s.chanPool k).reorder p).seq ≠ seq) :
    Assembling m (fun _ => True)
      (s.takeInto k [] fun b ch => ch.refragged i (FragAsm.claimed seq n b)) k := by
  have hg := Gathers.claimed (n := n) hcut hfind hi
  obtain ⟨-, -, hgseq⟩ := fragFind_some hg.find
  rw [fragFind_eq_none] at hfind
  have hkeep : Core.Keeps (Off k (.frag i)) s
      (s.takeInto k [] fun b ch => ch.refragged i (FragAsm.claimed seq n b)) := by
    refine Core.Keeps.takeInto hinv htop (Nat.zero_le _) fun b => ?_
    rw [bufAt_refragged _ _ _ hi]
    rfl
  refine h.refrag (f := FragAsm.claimed seq n (s.poolFree (s.poolFreeTop - 1))) hinv hk hkeep rfl
    (by simp [Core.takeInto]) rfl (fun _ _ _ => trivial) (fun _ => ?_) (fun _ => hearly)
    fun _ i' hi' _ hact he => hfind i' hi' ⟨hact, he⟩
  exact ⟨j, hlo, hhi, hgseq.trans hseq, hg.holds⟩

theorem Assembling.stored {t : Nat} {payload : List UInt8}
    (h : Assembling m (fun _ => True) s k) (hinv : s.Inv) (hk : s.chanUsed k = true)
    (hi : i < ncFragSlots) (hact : ((s.chanPool k).frags i).active = true)
    (hacc : ((s.chanPool k).frags i).accepts s.cfg t payload.length)
    (hg : Gathered m s k i j) (hpayload : payload = piece (maxFragPayload s.cfg) (m j) t) :
    Assembling m (fun _ => True) (fragStore s k i t payload) k ∧
      Gathered m (fragStore s k i t payload) k i j := by
  have hlog : advances k (fragStore s k i t payload).log = advances k s.log := by
    simp [fragStore_eq, Core.modChan, Core.mark, Core.memcpy, advances]
  have hg' : Gathered m (fragStore s k i t payload) k i j := by
    refine ⟨by rw [hlog]; exact hg.lo, by rw [hlog]; exact hg.hi, ?_,
      hg.holds.stored hacc.1 hpayload⟩
    rw [fragStore_frag]
    exact hg.seq
  refine ⟨?_, hg'⟩
  refine h.refrag (f := ((s.chanPool k).frags i).stored t payload.length) hinv hk
    (fragStore_keeps hinv hk hi hact hacc.2.2) rfl ?_ hlog (fun _ _ _ => trivial)
    (fun _ => ⟨j, hg'⟩) (fun _ => h.early i hi trivial hact) ?_
  · simp [fragStore_eq, Core.modChan, Core.mark, Core.memcpy]
  · intro _ i' hi' hne hact' he
    exact hne (h.inj i' hi' i hi hact' hact he)

end Slots

/-! ## Frames of a numbered message -/

/-- The frame has a fragment of message `j` of those that the sender sends on the channel. -/
structure FragmentOf (m : Nat → List UInt8) (fp : Nat) (d : DataFrame) (j : Nat) : Prop where
  seq : d.seq = UInt16.ofNat j
  idx : d.fragIdx.toNat < d.fragTotal.toNat
  cut : Cut fp d.fragTotal.toNat (m j)
  len_le : (m j).length ≤ ncMaxMsg
  payload : d.payload = piece fp (m j) d.fragIdx.toNat

/-- Of the message that is due and the next 63 only `j` may have the number of `j`. -/
def Timely (s : Core) (k j : Nat) : Prop :=
  ∀ i, advances k s.log ≤ i → i < advances k s.log + ncReorderSlots →
    UInt16.ofNat i = UInt16.ofNat j → i = j

/-- If the frame claims a slot, its message is due or among the next 63, and does not wait in
the reorder table. -/
def ClaimOk (s : Core) (k : Nat) (d : DataFrame) : Prop :=
  1 < d.fragTotal.toNat → fragFind (s.chanPool k) d.seq = none →
    (fragAlloc s k d.seq d.fragTotal.toNat).2 ≠ none →
    (0 ≤ int16 (d.seq - (s.chanPool k).recvSeq) ∧
      int16 (d.seq - (s.chanPool k).recvSeq) < ncReorderSlots) ∧
    ∀ p < ncReorderSlots, ((s.chanPool k).reorder p).valid = true →
      ((s.chanPool k).reorder p).seq ≠ d.seq

section Frames

variable {m : Nat → List UInt8} {s : Core} {k j : Nat} {d : DataFrame}

theorem Timely.window (h : Timely s k j) (hcount : (s.chanPool k).recvSeq =
      UInt16.ofNat (advances k s.log))
    (hlo : 0 ≤ int16 (UInt16.ofNat j - (s.chanPool k).recvSeq))
    (hhi : int16 (UInt16.ofNat j - (s.chanPool k).recvSeq) < ncReorderSlots) :
    advances k s.log ≤ j ∧ j < advances k s.log + ncReorderSlots := by
  obtain ⟨x, hx, heq⟩ := exists_of_int16 hlo hhi
  have hsame : UInt16.ofNat (advances k s.log + x) = UInt16.ofNat j := by
    rw [heq, hcount, ofNat_eq_iff, UInt16.toNat_ofNat']
    omega
  have hj := h (advances k s.log + x) (by omega) (by omega) hsame
  omega

theorem Assembling.slotFor (h : Assembling m (fun _ => True) s k) (hinv : s.Inv)
    (hk : s.chanUsed k = true) (hd : FragmentOf m (maxFragPayload s.cfg) d j)
    (htime : Timely s k j) (hok : ClaimOk s k d) (htotal : 1 < d.fragTotal.toNat) :
    Assembling m (fun _ => True) (fragSlot s k d.seq d.fragTotal.toNat).1 k ∧
      ∀ i, (fragSlot s k d.seq d.fragTotal.toNat).2 = some i →
        Gathered m (fragSlot s k d.seq d.fragTotal.toNat).1 k i j := by
  unfold fragSlot
  cases hfind : fragFind (s.chanPool k) d.seq with
  | some i =>
    refine ⟨h, fun i' hi' => ?_⟩
    obtain rfl : i = i' := Option.some.inj hi'
    obtain ⟨hi, hact, hseq⟩ := fragFind_some hfind
    obtain ⟨j', hg⟩ := h.slot i hi trivial hact
    have hj : j' = j := htime j' hg.lo hg.hi (hg.seq.symm.trans (hseq.trans hd.seq))
    exact hj ▸ hg
  | none =>
    dsimp only
    rcases fragAlloc_cases s k d.seq d.fragTotal.toNat with heq | ⟨i, hi, -, -, htop, heq⟩
    · rw [heq]
      exact ⟨h, fun i hi => by cases hi⟩
    · obtain ⟨⟨hlo, hhi⟩, hearly⟩ := hok htotal hfind (by rw [heq]; exact Option.some_ne_none i)
      rw [hd.seq] at hlo hhi
      obtain ⟨hle, hlt⟩ := htime.window h.count hlo hhi
      have h1 := h.claim hinv hk hi htop hd.cut hd.seq hfind hle hlt hearly
      have hg := Gathers.claimed (n := d.fragTotal.toNat) hd.cut hfind hi
      rw [heq]
      refine ⟨h1, fun i' hi' => ?_⟩
      obtain rfl : i = i' := Option.some.inj hi'
      exact ⟨hle, hlt, (fragFind_some hg.find).2.2.trans hd.seq, hg.holds⟩

theorem Assembling.receive (h : Assembling m (fun _ => True) s k) (hinv : s.Inv)
    (hk : s.chanUsed k = true) (hd : FragmentOf m (maxFragPayload s.cfg) d j)
    (htime : Timely s k j) (hok : ClaimOk s k d) (htotal : 1 < d.fragTotal.toNat) :
    Assembling m (fun _ => True)
        (fragReceive s k d.seq d.fragIdx.toNat d.fragTotal.toNat d.payload).1 k ∧
      ∀ i pos, (fragReceive s k d.seq d.fragIdx.toNat d.fragTotal.toNat d.payload).2 =
          some (i, pos) →
        Gathered m (fragReceive s k d.seq d.fragIdx.toNat d.fragTotal.toNat d.payload).1 k i j := by
  obtain ⟨h1, hgath⟩ := h.slotFor hinv hk hd htime hok htotal
  obtain ⟨hinv1, ht1, hsome⟩ := fragSlot_spec hinv hk d.seq htotal
  rcases fragReceive_cases s k d.seq d.fragIdx.toNat d.fragTotal.toNat d.payload with
    heq | ⟨i, hi, hacc, heq⟩
  · rw [heq]
    exact ⟨h1, fun i pos hi => by cases hi⟩
  · obtain ⟨hi4, hact, -⟩ := hsome i hi
    have hk1 := ht1.used hk
    obtain ⟨h2, hg2⟩ := h1.stored hinv1 hk1 hi4 hact hacc (hgath i hi)
      (by rw [ht1.cfg]; exact hd.payload)
    have hfinv : FragInv (maxFragPayload (fragSlot s k d.seq d.fragTotal.toNat).1.cfg)
        (((fragStore (fragSlot s k d.seq d.fragTotal.toNat).1 k i d.fragIdx.toNat
          d.payload).chanPool k).frags i) := by
      rw [fragStore_frag]
      exact ((hinv1.chans k hk1).frag i hi4 hact).store hacc.1 hacc.2.1 hacc.2.2
    rw [heq]
    generalize (fragSlot s k d.seq d.fragTotal.toNat).1 = s1 at h2 hg2 hfinv ⊢
    unfold fragTail
    dsimp only
    split_ifs with hlast
    · -- the pieces stand at their places, so the compaction moves nothing
      rw [(hg2.holds.compact (k := k) fun t ht => hfinv.complete hlast ht).1]
      refine ⟨h2, fun i' pos hi' => ?_⟩
      obtain ⟨rfl, -⟩ := Prod.mk.inj (Option.some.inj hi')
      exact hg2
    · exact ⟨h2, fun i' pos hi' => by cases hi'⟩

theorem Assembling.ack (h : Assembling m (fun _ => True) s k) (hinv : s.Inv)
    (hk : s.chanUsed k = true) : Assembling m (fun _ => True) (setNeedAck s k) k := by
  refine h.keep hinv hk (setNeedAck_keeps (fun _ _ => True) s k) (fun _ => trivial) rfl ?_ ?_ ?_
    fun i hi ho hact p hp hv => ?_
  · simp [setNeedAck, Core.modChan]
  · simp [setNeedAck, Core.modChan]
  · simp [setNeedAck, Core.modChan]
  · simp only [setNeedAck, Core.modChan, Function.update_self] at hv ⊢
    exact h.early i hi ho hact p hp hv

theorem Assembling.no_slot (h : Assembling m (fun _ => True) s k) (hinv : s.Inv)
    (hk : s.chanUsed k = true) (hd : FragmentOf m (maxFragPayload s.cfg) d j)
    (htime : Timely s k j) (hone : d.fragTotal.toNat ≤ 1) :
    ∀ i < ncFragSlots, True → ((s.chanPool k).frags i).active = true →
      ((s.chanPool k).frags i).seq ≠ d.seq := by
  intro i hi _ hact he
  obtain ⟨j', hg⟩ := h.slot i hi trivial hact
  obtain rfl : j' = j := htime j' hg.lo hg.hi (hg.seq.symm.trans (he.trans hd.seq))
  have htotal := ((hinv.chans k hk).frag i hi hact).total_gt
  have hlo := hg.holds.cut.lo
  have hhi := hd.cut.hi
  have hmany := Nat.mul_le_mul_right (maxFragPayload s.cfg)
    (show 1 ≤ ((s.chanPool k).frags i).total - 1 by omega)
  have hfew := Nat.mul_le_mul_right (maxFragPayload s.cfg) hone
  omega

theorem Assembling.data {c : Conn} (h : Assembling m (fun _ => True) c.toCore k)
    (hgood : c.toCore.Good) (hk : c.chanUsed k = true)
    (hd : FragmentOf m (maxFragPayload c.cfg) d j) (htime : Timely c.toCore k j)
    (hok : ClaimOk c.toCore k d) :
    Assembling m (fun _ => True) (acceptDataReliable c k d.seq d.fragIdx.toNat d.fragTotal.toNat
      d.payload).toCore k := by
  have hdrained := (hgood.settled k hk).drained
  simp only [acceptDataReliable, Conn.lift_toCore]
  split_ifs with htotal
  · obtain ⟨h1, ht1, -⟩ := deliverReliable_spec hgood.inv hk hdrained d.seq d.payload
    exact (h.deliver hgood.inv hk hdrained (h.no_slot hgood.inv hk hd htime htotal)
      d.payload).ack h1 (ht1.used hk)
  · have hgt := Nat.not_le.mp htotal
    obtain ⟨hrec, hgath⟩ := h.receive hgood.inv hk hd htime hok hgt
    obtain ⟨h1, ht1, hsome⟩ := fragReceive_spec hgood.inv hk d.seq d.fragIdx.toNat hgt d.payload
    have hs1 := fragReceive_settled (hgood.settled k hk) d.seq d.fragIdx.toNat d.fragTotal.toNat
      d.payload
    generalize fragReceive c.toCore k d.seq d.fragIdx.toNat d.fragTotal.toNat d.payload = res at *
    obtain ⟨s, _ | ⟨i, pos⟩⟩ := res
    · exact hrec.ack h1 (ht1.used hk)
    · obtain ⟨hi, hact⟩ := hsome i pos rfl
      have hk1 := ht1.used hk
      have hseq := (hgath i pos rfl).seq
      -- the slot of the message is the only one with its number
      have hnew : ∀ i' < ncFragSlots, i' ≠ i → ((s.chanPool k).frags i').active = true →
          ((s.chanPool k).frags i').seq ≠ d.seq := fun i' hi' hne hact' he =>
        hne (hrec.inj i' hi' i hi hact' hact (he.trans (hd.seq.trans hseq.symm)))
      have hrest : Assembling m (· ≠ i) s k := hrec.mono fun _ _ => trivial
      have hdel := hrest.deliver
        (c := { c with toCore := s }) h1 hk1 hs1.drained hnew
        (s.bytes (poolPtr ((s.chanPool k).frags i).buf) pos)
      obtain ⟨h2, ht2, -⟩ := deliverReliable_spec (c := { c with toCore := s }) h1 hk1 hs1.drained
        d.seq (s.bytes (poolPtr ((s.chanPool k).frags i).buf) pos)
      have hk2 := ht2.used hk1
      have hact2 : ((((deliverReliable { c with toCore := s } k d.seq
          (s.bytes (poolPtr ((s.chanPool k).frags i).buf) pos)).chanPool k).frags i).active) =
          true := by
        rw [deliverReliable_frags]
        exact hact
      rw [Conn.lift_toCore]
      exact (hdel.free h2 hk2 hi).ack (fragFree_inv h2 hk2 hi hact2)
        ((fragFree_touch _ k i).used hk2)

end Frames

/-! ## Runs -/

section Channels

variable {m : Nat → List UInt8} {s s' : Core} {k : Nat}

theorem Assembling.fresh (ht : s.Tally) (hk : s.chanUsed k = false) (hlog : s'.log = s.log)
    {window : UInt32} (hb : (s'.chanPool k).Blank window) :
    Assembling m (fun _ => True) s' k := by
  have hadv : advances k s'.log = 0 := hlog ▸ advances_of_other (ht.unused k hk)
  obtain ⟨id, type, dir, role, ct, state, hch⟩ := hb
  have hidle : ∀ i, ((s'.chanPool k).frags i).active = false := by
    intro i
    rw [hch]
    rfl
  refine ⟨by rw [hadv, hch]; rfl, fun i _ _ hact => ?_, fun i _ _ hact => ?_,
    fun i _ i' _ hact => ?_⟩
  all_goals
    rw [hidle i] at hact
    cases hact

theorem Assembling.recvKept (h : Assembling m (fun _ => True) s k) (hinv : s.Inv)
    (hk : s.chanUsed k = true) (hkept : RecvKept k s s') (hcfg : s'.cfg = s.cfg) :
    Assembling m (fun _ => True) s' k := by
  obtain ⟨ms, hlog, hadv, -⟩ := hkept.log_eq
  have hhalf := hkept.half
  simp only [Chan.recvHalf, RecvHalf.mk.injEq] at hhalf
  obtain ⟨hseq, -, -, -, -, hreorder, hfrags⟩ := hhalf
  refine h.keep hinv hk hkept.keeps (fun i => ⟨rfl, rfl⟩) hcfg hfrags hseq ?_ ?_
  · rw [hlog, advances_append, hadv, Nat.add_zero]
  · rw [hreorder]
    exact h.early

theorem Assembling.read (h : Assembling m (fun _ => True) s k) (hinv : s.Inv)
    (hk : s.chanUsed k = true) (buflen : Nat) :
    Assembling m (fun _ => True) (chanRead s k buflen).1 k := by
  have hkeep := chanRead_keeps s k buflen
  have hcfg := (chanRead_touch s k buflen).cfg
  rcases chanRead_cases s k buflen with ⟨r, heq⟩ | ⟨-, -, e, data, -, -, heq⟩
  · rwa [heq]
  · rw [heq] at hkeep hcfg ⊢
    have hchan : ((((poolPut s e.buf).modChan k fun ch => ch.dequeued (min e.len buflen)).mark
        (.read k data)).chanPool k) = (s.chanPool k).dequeued (min e.len buflen) := by
      simp [Core.modChan, Core.mark, poolPut_chanPool]
    refine h.keep hinv hk hkeep (by simp [Off]) hcfg ?_ ?_ ?_ ?_
    · rw [hchan]
      rfl
    · rw [hchan]
      rfl
    · simp [Core.modChan, Core.mark, poolPut_log, advances]
    · rw [hchan]
      exact h.early

end Channels

/-- A DATA frame of a sender that sends the messages `m`, none of which claims a slot outside
the window. -/
def Conn.FrameClaimOk (m : UInt8 → Nat → List UInt8) (c : Conn) (f : Frame) : Prop :=
  ∀ d, f.toData? = some d →
    d.payload.length ≤ maxFragPayload c.cfg ∧
    ∀ k, c.Receives d.id k →
      (∃ j, FragmentOf (m d.id) (maxFragPayload c.cfg) d j ∧ Timely c.toCore k j) ∧
      ClaimOk c.toCore k d

/-- What the packets of a run are held to. -/
def Conn.ClaimsOk (m : UInt8 → Nat → List UInt8) (c : Conn) : Act → Prop
  | .feed env pkt src => FedOk (Conn.FrameClaimOk m) c (env, src) pkt
  | _ => True

/-- The slots of every reliable channel that is received. -/
structure Conn.Assembles (m : UInt8 → Nat → List UInt8) (c : Conn) : Prop where
  good : c.toCore.Good
  tally : c.toCore.Tally
  small : ∀ k, c.chanUsed k = true → (c.chanPool k).SmallFrags (maxFragPayload c.cfg)
  slots : ∀ id k, c.Receives id k → Assembling (m id) (fun _ => True) c.toCore k

theorem Conn.Receives.back {c c' : Conn} (hs : Core.Steady c.toCore c'.toCore) {k : Nat}
    (hrec : c'.Receives id k) : c.Receives id k := by
  have hident := hs.ident k
  simp only [Chan.ident, ChanIdent.mk.injEq] at hident
  obtain ⟨-, htype, hrole, -⟩ := hident
  exact ⟨hs.channels ▸ hrec.table, hrole ▸ hrec.role, htype ▸ hrec.type⟩

namespace Conn.Assembles

variable {m : UInt8 → Nat → List UInt8} {c c' : Conn}

theorem start (server : Bool) (cfg : Cfg) : (netchanOpen server cfg).Assembles m := by
  refine ⟨netchanOpen_good server cfg, (reachable_open server cfg).tally, fun k hk => ?_,
    fun id k h => ?_⟩
  · cases hk
  · cases h.table

theorem opens (h : c.Assembles m) (ho : Core.Opens c.toCore c'.toCore) {k : Nat}
    (hrec : c'.Receives id k) : Assembling (m id) (fun _ => True) c'.toCore k := by
  rcases ho.chan hrec.table with ⟨hold, k₀, ch, hfree, heq⟩ | ⟨-, hfree, hblank, hlog⟩
  · have hk := (h.good.inv.table id k hold).2.1
    have hne : k ≠ k₀ := by
      rintro rfl
      rw [hk] at hfree
      cases hfree
    have hrec0 : c.Receives id k := by
      have hrole := hrec.role
      have htype := hrec.type
      rw [heq] at hrole htype
      simp only [Core.addChan, Function.update_of_ne hne] at hrole htype
      exact ⟨hold, hrole, htype⟩
    rw [heq]
    exact (h.slots id k hrec0).recvKept h.good.inv hk (HalfKept.addChan hfree hk) rfl
  · exact Assembling.fresh h.tally hfree hlog hblank

theorem data (h : c.Assembles m) {d : DataFrame} (hok : c.FrameClaimOk m d.frame) {k : Nat}
    (hrec : c.Receives id k) : Assembling (m id) (fun _ => True) (c.data d).toCore k := by
  have hk := hrec.used h.good
  obtain ⟨hlen, hclaim⟩ := hok d rfl
  by_cases hid : d.id = id
  · subst hid
    obtain ⟨⟨j, hfrag, htime⟩, hok⟩ := hclaim k hrec
    have heq : c.data d =
        acceptDataReliable c k d.seq d.fragIdx.toNat d.fragTotal.toNat d.payload := by
      simp [Conn.data, acceptData, hrec.table, hrec.role, hrec.type]
    rw [heq]
    exact (h.slots d.id k hrec).data h.good hk hfrag htime hok
  · have hfits := dataFits_of_small h.good h.small hlen
    rcases data_op h.good hfits with heq | ⟨k₀, hid0, hop⟩
    · rw [heq]
      exact h.slots id k hrec
    · refine (h.slots id k hrec).recvKept h.good.inv hk (hop.kept_other hk ?_) hop.touch.cfg
      rintro rfl
      -- one record is in the table under one number only
      exact hid ((h.good.inv.table d.id k hid0).2.2.symm.trans
        (h.good.inv.table id k hrec.table).2.2)

theorem frame (h : c.Assembles m) (env : Env) (now : UInt32) {f : Frame}
    (hok : c.FrameClaimOk m f) : (f.apply env now c).Assembles m := by
  have hcfg : (f.apply env now c).cfg = c.cfg := (f.apply_grows env now h.good).cfg
  refine ⟨f.apply_good env now h.good, f.apply_tally env now h.good h.tally, ?_,
    fun id k hrec => ?_⟩
  · rw [hcfg]
    exact Frame.apply_small h.good h.small env now fun d hd => (hok d hd).1
  · rcases f.apply_table env now h.good with hs | ho
    · replace hrec := hrec.back hs
      have hk := hrec.used h.good
      rcases f.sort with ⟨d, rfl⟩ | ⟨i, seq, rfl⟩ | ⟨hd, hack⟩
      · exact h.data hok hrec
      · exact (h.slots id k hrec).recvKept h.good.inv hk (acceptAck_recvKept h.good hk i seq) hcfg
      · exact (h.slots id k hrec).recvKept h.good.inv hk (Frame.apply_kept env now hk hd hack).1
          hcfg
    · exact h.opens ho hrec

theorem call (h : c.Assembles m) {a : Act} (hfeed : a.isFeed = false) : (c.step a).Assembles m := by
  have hcfg : (c.step a).cfg = c.cfg := (Conn.step_grows h.good a).cfg
  refine ⟨Conn.step_good h.good a, Conn.step_tally h.good h.tally a, ?_, fun id k hrec => ?_⟩
  · rw [hcfg]
    exact Conn.step_small h.good h.small hfeed
  · rcases Conn.step_table h.good hfeed with hs | ho
    · replace hrec := hrec.back hs
      have hk := hrec.used h.good
      by_cases hread : ∃ buflen, a = .chanRead k buflen
      · obtain ⟨buflen, rfl⟩ := hread
        have hcore : (c.step (.chanRead k buflen)).toCore = (chanRead c.toCore k buflen).1 := by
          simp [Conn.step, hk, netchanChanRead]
        rw [hcore]
        exact (h.slots id k hrec).read h.good.inv hk buflen
      · exact (h.slots id k hrec).recvKept h.good.inv hk
          (Conn.step_recvKept h.good hk hfeed fun buflen e => hread ⟨buflen, e⟩) hcfg
    · exact h.opens ho hrec

theorem step (h : c.Assembles m) {a : Act} (hok : c.ClaimsOk m a) : (c.step a).Assembles m := by
  cases a with
  | feed env pkt src =>
    exact netchanFeed_guarded (e := (env, src)) hok
      (fun h => ⟨h.good, h.tally, h.small, fun id k hrec =>
        h.slots id k ⟨hrec.table, hrec.role, hrec.type⟩⟩)
      (fun c fn _ hframe h => h.frame env _ hframe) h
  | _ => exact h.call rfl

end Conn.Assembles

/-- In every run in which no frame claims a slot for a message that was delivered, waits or is 64
or more ahead, an active slot holds pieces of one message that is due or among the next 63 and not
complete, and no other slot does. -/
theorem frag_slots_in_window {server : Bool} {cfg : Cfg} {m : UInt8 → Nat → List UInt8} {c : Conn}
    (h : Reach (fun c => c = netchanOpen server cfg) (Conn.ClaimsOk m) Conn.step c) {id : UInt8}
    {k : Nat} (hrec : c.Receives id k) {i : Nat} (hi : i < ncFragSlots)
    (hact : ((c.chanPool k).frags i).active = true) :
    (0 ≤ int16 (((c.chanPool k).frags i).seq - (c.chanPool k).recvSeq) ∧
      int16 (((c.chanPool k).frags i).seq - (c.chanPool k).recvSeq) < ncReorderSlots) ∧
    (∃ j, advances k c.log ≤ j ∧ ((c.chanPool k).frags i).seq = UInt16.ofNat j ∧
      Holds c.toCore ((c.chanPool k).frags i) (m id j)) ∧
    (∀ p < ncReorderSlots, ((c.chanPool k).reorder p).valid = true →
      ((c.chanPool k).reorder p).seq ≠ ((c.chanPool k).frags i).seq) ∧
    ∀ i' < ncFragSlots, ((c.chanPool k).frags i').active = true →
      ((c.chanPool k).frags i').seq = ((c.chanPool k).frags i).seq → i' = i := by
  have hinv : c.Assembles m := by
    refine Reach.invariant ?_ ?_ h
    · rintro c rfl
      exact Conn.Assembles.start server cfg
    · intro c a hc hok
      exact hc.step hok
  have hslots := hinv.slots id k hrec
  obtain ⟨j, hlo, hhi, hseq, hholds⟩ := hslots.slot i hi trivial hact
  have hdiff : int16 (((c.chanPool k).frags i).seq - (c.chanPool k).recvSeq) =
      (j : Int) - advances k c.log := by
    rw [hseq, hslots.count]
    exact int16_ofNat_sub (by omega) (by simp only [ncReorderSlots] at hhi; omega)
  refine ⟨by rw [hdiff]; omega, ⟨j, hlo, hseq, hholds⟩, hslots.early i hi trivial hact, ?_⟩
  intro i' hi' hact' he
  exact hslots.inj i' hi' i hi hact' hact he

/-! ## A slot in use, and four that are lost -/

/-- Fragments of 64 bytes. -/
def cuttingCfg : Cfg := { netchanCfgDefault with mtu := 79 }

/-- The first fragment of a message of 65 bytes. -/
def firstFragment : DataFrame := ⟨1, 0, 0, 2, List.replicate 64 7⟩

def firstPacket : List UInt8 := [0x01, 0, 0, 0, 5] ++ firstFragment.frame.encode

def halfActs : List Act :=
  [.feed quietEnv [0x01, 0, 0, 0, 5, 0x07, 1, 0, 0, 0] none, .feed quietEnv firstPacket none]

/-- A client that waits for the second fragment. -/
def halfClient : Conn := (netchanOpen false cuttingCfg).run halfActs

theorem halfClient_run : Reach (fun c => c = netchanOpen false cuttingCfg)
    (Conn.ClaimsOk fun _ _ => List.replicate 65 7) Conn.step halfClient := by
  have hstart : Reach (fun c => c = netchanOpen false cuttingCfg)
      (Conn.ClaimsOk fun _ _ => List.replicate 65 7) Conn.step (netchanOpen false cuttingCfg) :=
    .start rfl
  refine hstart.run halfActs ⟨?_, ?_, trivial⟩
  · have hfed : fedFrames (netchanOpen false cuttingCfg)
        [0x01, 0, 0, 0, 5, 0x07, 1, 0, 0, 0] = [(.channelOpen 1 0 0 [], 5)] := by
      decide
    simp only [Conn.ClaimsOk, FedOk, hfed]
    exact ⟨fun d hd => (by cases hd), trivial⟩
  · have hfed : fedFrames ((netchanOpen false cuttingCfg).step
        (.feed quietEnv [0x01, 0, 0, 0, 5, 0x07, 1, 0, 0, 0] none)) firstPacket =
          [(firstFragment.frame, 72)] := by
      decide
    simp only [Conn.ClaimsOk, FedOk, hfed]
    refine ⟨fun d hd => ?_, trivial⟩
    obtain rfl : firstFragment = d := Option.some.inj hd
    refine ⟨by decide, fun k hrec => ?_⟩
    obtain rfl : 0 = k := Option.some.inj (Eq.trans (by decide) hrec.table)
    refine ⟨⟨0, ?_, fun i _ hi he => ?_⟩, fun _ _ _ => by decide⟩
    · exact ⟨rfl, by decide, ⟨by decide, by decide, by decide⟩, by decide, rfl⟩
    · refine eq_of_ofNat_eq he ?_ (Nat.zero_lt_of_lt (Nat.lt_add_of_pos_right (by decide)))
      exact hi.trans (by decide)

theorem frag_slots_in_window_half :
    0 ≤ int16 (((halfClient.chanPool 0).frags 0).seq - (halfClient.chanPool 0).recvSeq) ∧
      int16 (((halfClient.chanPool 0).frags 0).seq - (halfClient.chanPool 0).recvSeq) <
        ncReorderSlots :=
  (frag_slots_in_window halfClient_run (k := 0)
    ⟨show halfClient.channels 1 = some 0 by decide +kernel, by decide +kernel, by decide +kernel⟩
    (by decide) (by decide +kernel)).1

/-- A message of 65 bytes is written; its second packet arrives once, its first one twice. -/
def dupMoves (n : Nat) : List (Move Act (Env × Option Addr)) :=
  [.call true (.chanWrite 0 (List.replicate 65 7)), .call true (.sendNext quietEnv 79),
    .call true (.sendNext quietEnv 79), .deliver true n (quietEnv, none),
    .deliver true (n + 1) (quietEnv, none), .deliver true n (quietEnv, none)]

def dupNet : Joint :=
  Net.run netchan (Joint.start fun _ => cuttingCfg)
    (openMoves ++ dupMoves 1 ++ dupMoves 3 ++ dupMoves 5 ++ dupMoves 7 ++ dupMoves 9)

/-- Four duplicated fragments take the four slots for good: of five messages whose fragments
all arrived, the last one is not handed over. -/
theorem duplicates_exhaust_slots :
    dupNet.Reachable ∧ Kinds 1 (dupNet.conn true).toCore (dupNet.conn false).toCore ∧
      (∀ i < ncFragSlots, (((dupNet.conn false).chanPool 0).frags i).active = true ∧
        int16 ((((dupNet.conn false).chanPool 0).frags i).seq -
          ((dupNet.conn false).chanPool 0).recvSeq) < 0) ∧
      ((dupNet.conn true).sentOn 1).length = 5 ∧ (handed 0 (dupNet.conn false).log).length = 4 := by
  have hrun : (((dupNet.conn true).channels 1 = some 0 ∧
        ((dupNet.conn true).chanPool 0).role = .sender ∧
        ((dupNet.conn true).chanPool 0).type = netchanReliable) ∧
      (dupNet.conn false).channels 1 = some 0 ∧
        ((dupNet.conn false).chanPool 0).role = .receiver ∧
        ((dupNet.conn false).chanPool 0).type = netchanReliable) ∧
      (∀ i < ncFragSlots, (((dupNet.conn false).chanPool 0).frags i).active = true ∧
        int16 ((((dupNet.conn false).chanPool 0).frags i).seq -
          ((dupNet.conn false).chanPool 0).recvSeq) < 0) ∧
      ((dupNet.conn true).sentOn 1).length = 5 ∧ (handed 0 (dupNet.conn false).log).length = 4 := by
    decide +kernel
  obtain ⟨⟨⟨hA, hsend⟩, hB, hrecv⟩, hrest⟩ := hrun
  exact ⟨Joint.reachable_run _ _ (by decide +kernel), Kinds.of_records 0 0 hA hsend hB hrecv, hrest⟩

end MechanicalResearcher.NetchanV2
