import MechanicalResearcher.Lib.Pieces
import MechanicalResearcher.NetchanV2.Queue

/-!
# Fragment reassembly

A slot that holds only pieces of one message is compacted to that message: every
piece but the last has the full fragment size, so each already stands at its
place.  Fragments of the size an honest peer sends never leave the buffer.
-/

namespace MechanicalResearcher.NetchanV2

open Lib Lib.Serial Lib.Pieces

variable {fp fragTotal fragIdx i n : Nat} {f : FragAsm} {s : Core} {payload d : List UInt8}
    {c : Conn}

/-! ## Fragments of at most the fragment size -/

/-- No stored fragment is longer than `fp`. -/
def Chan.SmallFrags (fp : Nat) (ch : Chan) : Prop :=
  ∀ i t, (ch.frags i).bitmask.testBit t = true → (ch.frags i).offsets t ≤ fp

theorem Chan.SmallFrags.congr {ch ch' : Chan} (h : ch.SmallFrags fp) (hf : ch'.frags = ch.frags) :
    ch'.SmallFrags fp := by
  unfold SmallFrags
  rw [hf]
  exact h

theorem Chan.SmallFrags.refragged {ch : Chan} (h : ch.SmallFrags fp) (i : Nat)
    (hf : ∀ t, f.bitmask.testBit t = true → f.offsets t ≤ fp) :
    (ch.refragged i f).SmallFrags fp := by
  intro j t
  by_cases hj : j = i
  · simpa [Chan.refragged, hj] using hf t
  · simpa [Chan.refragged, Function.update_of_ne hj] using h j t

theorem stored_small (hf : ∀ t, f.bitmask.testBit t = true →
    f.offsets t ≤ fp) (i : Nat) {len : Nat} (hlen : len ≤ fp) (t : Nat)
    (ht : (f.stored i len).bitmask.testBit t = true) : (f.stored i len).offsets t ≤ fp := by
  simp only [FragAsm.stored] at ht ⊢
  by_cases hti : t = i
  · simpa [hti] using hlen
  · rw [Function.update_of_ne hti]
    exact hf t (((FragInv.testBit_or_bit _ _ _).1 ht).resolve_right hti)

theorem fragSlot_small {k : Nat} (h : (s.chanPool k).SmallFrags fp) (seq : UInt16) (total : Nat) :
    ((fragSlot s k seq total).1.chanPool k).SmallFrags fp := by
  unfold fragSlot
  split
  · exact h
  · rcases fragAlloc_cases s k seq total with heq | ⟨i, -, -, -, -, heq⟩
    · rw [heq]
      exact h
    · rw [heq]
      simp only [Core.takeInto, Function.update_self]
      exact h.refragged i (by simp [FragAsm.claimed, FragAsm.zero])

theorem fragReceive_small {k : Nat} (hinv : s.Inv) (hk : s.chanUsed k = true)
    (h : (s.chanPool k).SmallFrags fp) (seq : UInt16) (fragIdx : Nat) (htotal : 1 < fragTotal)
    (hlen : payload.length ≤ fp) :
    ((fragReceive s k seq fragIdx fragTotal payload).1.chanPool k).SmallFrags fp := by
  have hslot := fragSlot_small h seq fragTotal
  obtain ⟨hinv1, ht1, hsome⟩ := fragSlot_spec hinv hk seq htotal
  rcases fragReceive_cases s k seq fragIdx fragTotal payload with heq | ⟨i, hi, hacc, heq⟩
  · rw [heq]
    exact hslot
  · obtain ⟨hlt, hact, -⟩ := hsome i hi
    rw [heq, (fragTail_spec hinv1 (ht1.used hk) hlt hact hacc).2.2, fragStore_eq]
    simp only [Core.modChan, Core.mark, Core.memcpy, Function.update_self]
    exact hslot.refragged i (stored_small (hslot i) fragIdx hlen)

theorem fragFree_small {k : Nat} (h : (s.chanPool k).SmallFrags fp) (i : Nat) :
    ((fragFree s k i).chanPool k).SmallFrags fp := by
  rw [fragFree_chan]
  exact h.refragged i (by simp [FragAsm.zero])

theorem acceptDataUnreliable_small {k : Nat} (h : c.toCore.Good) (hk : c.chanUsed k = true)
    (hs : (c.chanPool k).SmallFrags fp) (seq : UInt16) (fragIdx fragTotal : Nat)
    (hlen : payload.length ≤ fp) :
    ((acceptDataUnreliable c k seq fragIdx fragTotal payload).chanPool k).SmallFrags fp := by
  unfold acceptDataUnreliable
  split_ifs with htotal
  · rw [evPush_toCore, Conn.lift_toCore]
    exact hs.congr (chanRecvEnqueue_recvSeq _ _ _).2.2
  · have hfrag := fragReceive_small h.inv hk hs seq fragIdx (Nat.not_le.1 htotal) hlen
    generalize fragReceive c.toCore k seq fragIdx fragTotal payload = res at *
    obtain ⟨s, _ | ⟨i, pos⟩⟩ := res
    · exact hfrag
    · rw [Conn.lift_toCore, evPush_toCore]
      exact fragFree_small (hfrag.congr (chanRecvEnqueue_recvSeq _ _ _).2.2) i

theorem acceptDataReliable_small {k : Nat} (h : c.toCore.Good) (hk : c.chanUsed k = true)
    (hs : (c.chanPool k).SmallFrags fp) (seq : UInt16) (fragIdx fragTotal : Nat)
    (hlen : payload.length ≤ fp) :
    ((acceptDataReliable c k seq fragIdx fragTotal payload).chanPool k).SmallFrags fp := by
  have hack : ∀ s : Core, (s.chanPool k).SmallFrags fp →
      ((setNeedAck s k).chanPool k).SmallFrags fp := fun s hs =>
    hs.congr (by simp [setNeedAck, Core.modChan])
  simp only [acceptDataReliable, Conn.lift_toCore]
  split_ifs with htotal
  · exact hack _ (hs.congr (deliverReliable_frags _ _ _ _))
  · have hfrag := fragReceive_small h.inv hk hs seq fragIdx (Nat.not_le.1 htotal) hlen
    generalize fragReceive c.toCore k seq fragIdx fragTotal payload = res at *
    obtain ⟨s, _ | ⟨i, pos⟩⟩ := res
    · exact hack _ hfrag
    · rw [Conn.lift_toCore]
      exact hack _ (fragFree_small
        (hfrag.congr (deliverReliable_frags { c with toCore := s } _ _ _)) i)

theorem fragFits_of_small {k : Nat} (h : s.Inv) (hk : s.chanUsed k = true)
    (hs : (s.chanPool k).SmallFrags (maxFragPayload s.cfg)) (seq : UInt16) (fragIdx : Nat)
    {len : Nat} (hlen : len ≤ maxFragPayload s.cfg) : FragFits s k seq fragIdx len := by
  intro i hfind hacc hlast
  obtain ⟨hi, hact, -⟩ := fragFind_some hfind
  obtain ⟨hidx, hnew, hfits⟩ := hacc
  have hinv := ((h.chans k hk).frag i hi hact).store hidx hnew hfits
  have hsmall := stored_small (hs i) fragIdx hlen
  generalize hf : ((s.chanPool k).frags i).stored fragIdx len = f at hsmall ⊢
  have hinv' : FragInv (maxFragPayload s.cfg) f := hf ▸ hinv
  have hall : ∀ t < f.total, f.bitmask.testBit t = true := fun t ht =>
    hinv'.complete (by rw [← hf]; exact hlast) ht
  obtain ⟨n, hn⟩ : ∃ n, f.total = n + 1 := ⟨f.total - 1, by have := hinv'.total_gt; omega⟩
  have hlast' := hinv'.fits n (hall n (by omega))
  have hinner : ((List.range n).map f.offsets).sum ≤ n * maxFragPayload s.cfg := by
    have hle := List.sum_le_card_nsmul ((List.range n).map f.offsets) (maxFragPayload s.cfg) ?_
    · simpa using hle
    · intro x hx
      obtain ⟨t, ht, rfl⟩ := List.mem_map.1 hx
      have ht := List.mem_range.1 ht
      exact hsmall t (hall t (by omega))
  unfold FragAsm.sum
  rw [hn, List.range_succ, List.map_append, List.sum_append]
  simp only [List.map_cons, List.map_nil, List.sum_singleton]
  omega

/-! ## Completed messages -/

/-- The fragment is the last one that slot `i` waits for. -/
def Completes (s : Core) (k : Nat) (seq : UInt16) (fragIdx len i : Nat) : Prop :=
  fragFind (s.chanPool k) seq = some i ∧
    ((s.chanPool k).frags i).accepts s.cfg fragIdx len ∧
    ((s.chanPool k).frags i).haveN + 1 = ((s.chanPool k).frags i).total

theorem fragReceive_some {k : Nat} {seq : UInt16} (htotal : 1 < fragTotal) {pos : Nat}
    (h : (fragReceive s k seq fragIdx fragTotal payload).2 = some (i, pos)) :
    Completes s k seq fragIdx payload.length i ∧
      fragReceive s k seq fragIdx fragTotal payload = fragTail s k i fragIdx payload := by
  rcases fragReceive_cases s k seq fragIdx fragTotal payload with heq | ⟨j, hj, hacc, heq⟩
  · rw [heq] at h
    cases h
  · rw [heq] at h ⊢
    have hij : j = i ∧ (((fragSlot s k seq fragTotal).1.chanPool k).frags j).haveN + 1 =
        (((fragSlot s k seq fragTotal).1.chanPool k).frags j).total := by
      simp only [fragTail, fragStore_frag] at h
      split_ifs at h with hlast
      simp only [Option.some.injEq, Prod.mk.injEq] at h
      exact ⟨h.1, hlast⟩
    obtain ⟨rfl, hlast⟩ := hij
    unfold fragSlot at hj hacc hlast ⊢
    cases hfind : fragFind (s.chanPool k) seq with
    | some i' =>
      simp only [hfind, Option.some.injEq] at hj hacc hlast
      subst hj
      exact ⟨⟨hfind, hacc, hlast⟩, rfl⟩
    | none =>
      -- a slot that was just claimed waits for more than one fragment
      simp only [hfind] at hj hlast
      rcases fragAlloc_cases s k seq fragTotal with halloc | ⟨i', -, -, -, -, halloc⟩
      · rw [halloc] at hj
        cases hj
      · rw [halloc] at hj hlast
        simp only [Option.some.injEq] at hj
        subst hj
        simp [Core.takeInto, Chan.refragged, FragAsm.claimed, FragAsm.zero] at hlast
        omega

theorem fragTail_poolFreeTop (s : Core) (k i fragIdx : Nat) (payload : List UInt8) :
    (fragTail s k i fragIdx payload).1.poolFreeTop = s.poolFreeTop := by
  simp only [fragTail]
  split_ifs
  · obtain ⟨store, log, hcomp, -⟩ := compactLoop_chanPool k
      (((fragStore s k i fragIdx payload).chanPool k).frags i)
      (maxFragPayload (fragStore s k i fragIdx payload).cfg)
      (List.range (((fragStore s k i fragIdx payload).chanPool k).frags i).total)
      (fragStore s k i fragIdx payload) 0
    rw [hcomp]
    rfl
  · rfl

/-- The message that a DATA frame brings or completes. -/
def completed (s : Core) (k : Nat) (seq : UInt16) (fragIdx fragTotal : Nat)
    (payload : List UInt8) : Option (List UInt8) :=
  if fragTotal ≤ 1 then some payload
  else
    match fragReceive s k seq fragIdx fragTotal payload with
    | (_, none) => none
    | (s, some (i, pos)) => some (s.bytes (poolPtr ((s.chanPool k).frags i).buf) pos)

/-- A fragment slot holds nothing but pieces of the message `d`. -/
structure Holds (s : Core) (f : FragAsm) (d : List UInt8) : Prop where
  cut : Cut (maxFragPayload s.cfg) f.total d
  pieces : ∀ t < f.total, f.bitmask.testBit t = true →
    f.offsets t = (piece (maxFragPayload s.cfg) d t).length ∧
    s.bytes (poolPtr f.buf + t * maxFragPayload s.cfg) (f.offsets t) =
      piece (maxFragPayload s.cfg) d t

theorem compactLoop_inPlace (k : Nat) (s : Core) (m a : Nat)
    (hfull : ∀ t, a ≤ t → t + 1 < a + m → f.offsets t = fp) (hm : 0 < m) :
    compactLoop k f fp (List.range' a m) s (a * fp) =
      (s, (a + m - 1) * fp + f.offsets (a + m - 1)) := by
  induction m generalizing a with
  | zero => omega
  | succ m ih =>
    rw [List.range'_succ, compactLoop]
    simp only [ne_eq, not_true_eq_false, if_false]
    rcases Nat.eq_zero_or_pos m with rfl | hpos
    · rfl
    · rw [hfull a le_rfl (by omega), ← Nat.succ_mul,
        ih (a + 1) (fun t hlo hhi => hfull t (by omega) (by omega)) hpos]
      have hend : a + 1 + m - 1 = a + (m + 1) - 1 := by omega
      rw [hend]

theorem Holds.stored {k : Nat} (h : Holds s ((s.chanPool k).frags i) d)
    (hidx : fragIdx < ((s.chanPool k).frags i).total)
    (hpayload : payload = piece (maxFragPayload s.cfg) d fragIdx) :
    Holds (fragStore s k i fragIdx payload)
      (((fragStore s k i fragIdx payload).chanPool k).frags i) d := by
  have hcfg : (fragStore s k i fragIdx payload).cfg = s.cfg := rfl
  have hstore : (fragStore s k i fragIdx payload).poolStore = Memory.write s.poolStore
      (poolPtr ((s.chanPool k).frags i).buf + fragIdx * maxFragPayload s.cfg) payload := rfl
  rw [fragStore_frag]
  refine ⟨h.cut, fun t ht hbit => ?_⟩
  rw [hcfg]
  simp only [FragAsm.stored] at ht hbit ⊢
  by_cases hti : t = fragIdx
  · subst hti
    rw [Function.update_self]
    refine ⟨by rw [hpayload], ?_⟩
    unfold Core.bytes
    rw [hstore, Memory.read_write_self, hpayload]
  · rw [Function.update_of_ne hti]
    obtain ⟨hoff, hbytes⟩ := h.pieces t ht
      (((FragInv.testBit_or_bit _ _ _).1 hbit).resolve_right hti)
    refine ⟨hoff, ?_⟩
    rw [← hbytes]
    unfold Core.bytes
    rw [hstore]
    -- the two fragments have different places
    apply Memory.read_congr
    intro x hx
    have hlen := length_piece (maxFragPayload s.cfg) d t
    have hlen' := length_piece (maxFragPayload s.cfg) d fragIdx
    rw [← hpayload] at hlen'
    rcases Nat.lt_or_ge t fragIdx with hlt | hge
    · have hmul := Nat.mul_le_mul_right (maxFragPayload s.cfg) (Nat.succ_le_of_lt hlt)
      rw [Nat.succ_mul] at hmul
      exact Memory.write_apply_of_lt (by omega)
    · have hmul := Nat.mul_le_mul_right (maxFragPayload s.cfg)
        (Nat.succ_le_of_lt (Nat.lt_of_le_of_ne hge (Ne.symm hti)))
      rw [Nat.succ_mul] at hmul
      exact Memory.write_apply_of_ge (by omega)

theorem Holds.compact {k : Nat} (h : Holds s f d)
    (hbits : ∀ t < f.total, f.bitmask.testBit t = true) :
    compactLoop k f (maxFragPayload s.cfg) (List.range f.total) s 0 = (s, d.length) ∧
      s.bytes (poolPtr f.buf) d.length = d := by
  have hoff : ∀ t < f.total, f.offsets t = (piece (maxFragPayload s.cfg) d t).length :=
    fun t ht => (h.pieces t ht (hbits t ht)).1
  have hpos := h.cut.pos
  constructor
  · have hfull : ∀ t, 0 ≤ t → t + 1 < 0 + f.total → f.offsets t = maxFragPayload s.cfg := by
      intro t _ ht
      rw [hoff t (by omega), h.cut.length_inner (by omega)]
    have hloop := compactLoop_inPlace k s f.total 0 hfull hpos
    rw [Nat.zero_mul, Nat.zero_add, hoff _ (by omega), h.cut.length_last,
      ← List.range_eq_range'] at hloop
    exact hloop
  · refine h.cut.read_eq fun t ht => ?_
    obtain ⟨hlen, hbytes⟩ := h.pieces t ht (hbits t ht)
    rw [← hlen]
    exact hbytes

theorem completed_eq {k : Nat} (hinv : s.Inv) (hk : s.chanUsed k = true) {seq : UInt16}
    (htotal : 1 < fragTotal) {data : List UInt8}
    (hholds : ∀ i, Completes s k seq fragIdx payload.length i →
      Holds s ((s.chanPool k).frags i) d)
    (hpayload : payload = piece (maxFragPayload s.cfg) d fragIdx)
    (h : completed s k seq fragIdx fragTotal payload = some data) : data = d := by
  unfold completed at h
  rw [if_neg (Nat.not_le.2 htotal)] at h
  cases hres : (fragReceive s k seq fragIdx fragTotal payload).2 with
  | none =>
    rw [← Prod.eta (fragReceive s k seq fragIdx fragTotal payload), hres] at h
    cases h
  | some ip =>
    obtain ⟨i, pos⟩ := ip
    obtain ⟨hcomp, htail⟩ := fragReceive_some htotal hres
    obtain ⟨hi, hact, -⟩ := fragFind_some hcomp.1
    obtain ⟨hidx, hnew, hfits⟩ := hcomp.2.1
    have hstored := (hholds i hcomp).stored hidx hpayload
    have hfinv := ((hinv.chans k hk).frag i hi hact).store hidx hnew hfits
    have hfrag := fragStore_frag s k i fragIdx payload
    have hbits : ∀ t < (((fragStore s k i fragIdx payload).chanPool k).frags i).total,
        (((fragStore s k i fragIdx payload).chanPool k).frags i).bitmask.testBit t = true := by
      rw [hfrag]
      intro t ht
      exact hfinv.complete hcomp.2.2 ht
    obtain ⟨hloop, hbytes⟩ := hstored.compact (k := k) hbits
    have hlast : (((fragStore s k i fragIdx payload).chanPool k).frags i).haveN =
        (((fragStore s k i fragIdx payload).chanPool k).frags i).total := by
      rw [hfrag]
      exact hcomp.2.2
    rw [htail] at h
    simp only [fragTail, if_pos hlast, hloop, Option.some.injEq] at h
    rw [← h, hbytes]

theorem compactLoop_snd (k : Nat) (is : List Nat) (pos : Nat) :
    (compactLoop k f fp is s pos).2 = compactEnd f is pos := by
  induction is generalizing s pos with
  | nil => rfl
  | cons i is ih =>
    rw [compactLoop, ih]
    simp [compactEnd, Nat.add_assoc]

theorem completed_length {k : Nat} {seq : UInt16} (htotal : 1 < fragTotal)
    (hfits : FragFits s k seq fragIdx payload.length) {data : List UInt8}
    (h : completed s k seq fragIdx fragTotal payload = some data) : data.length ≤ ncMaxMsg := by
  unfold completed at h
  rw [if_neg (Nat.not_le.2 htotal)] at h
  cases hres : (fragReceive s k seq fragIdx fragTotal payload).2 with
  | none =>
    rw [← Prod.eta (fragReceive s k seq fragIdx fragTotal payload), hres] at h
    cases h
  | some ip =>
    obtain ⟨i, pos⟩ := ip
    obtain ⟨⟨hfind, hacc, hlast⟩, htail⟩ := fragReceive_some htotal hres
    have hsum := hfits i hfind hacc hlast
    have hfull : (((fragStore s k i fragIdx payload).chanPool k).frags i).haveN =
        (((fragStore s k i fragIdx payload).chanPool k).frags i).total := by
      rw [fragStore_frag]
      exact hlast
    rw [htail] at h
    simp only [fragTail, if_pos hfull, compactLoop_snd, Option.some.injEq] at h
    rw [← h, Core.bytes, Memory.length_read, compactEnd, Nat.zero_add]
    rwa [← fragStore_frag, FragAsm.sum] at hsum

/-! ## Data frames of a reliable channel -/

section Reliable

variable {P : Nat → List UInt8 → Prop} {k : Nat}

theorem fragWrites_quiet {ms : List Mark}
    (h : ∀ m ∈ ms, ∃ buf addr len, m = .fragWrite k buf addr len) :
    advances k ms = 0 ∧ handed k ms = [] ∧ taken k ms = [] ∧ reads k ms = [] := by
  refine ⟨?_, ?_, ?_, ?_⟩
  · simp only [advances, List.count_eq_zero]
    intro hm
    obtain ⟨buf, addr, len, e⟩ := h _ hm
    cases e
  all_goals
    simp only [handed, taken, reads, List.filterMap_eq_nil_iff]
    intro m hm
    obtain ⟨buf, addr, len, rfl⟩ := h m hm
    rfl

theorem Delivered.fragReceive (h : Delivered P s k n) (hinv : s.Inv) (hk : s.chanUsed k = true)
    (seq : UInt16) (fragIdx : Nat) (htotal : 1 < fragTotal)
    (hfits : FragFits s k seq fragIdx payload.length) :
    Delivered P (fragReceive s k seq fragIdx fragTotal payload).1 k n := by
  obtain ⟨i, hkeep, -⟩ := (fragReceive_tame_iff hinv hk seq fragIdx htotal payload).2 hfits
  obtain ⟨ms, hlog, hms⟩ := fragReceive_log s k seq fragIdx fragTotal payload
  obtain ⟨frags, hchan⟩ := fragReceive_chan s k seq fragIdx fragTotal payload
  obtain ⟨hadv, hhand, -, -⟩ := fragWrites_quiet hms
  exact h.keep (h.received.keep hinv hk hkeep (by simp [Off]) (by rw [hchan]) (by rw [hchan]))
    hlog hadv hhand

theorem Delivered.fragFree (h : Delivered P s k n) (hinv : s.Inv) (hk : s.chanUsed k = true)
    (hi : i < 4) : Delivered P (fragFree s k i) k n := by
  have hlog : (NetchanV2.fragFree s k i).log = s.log ++ [] := by
    simp [fragFree_eq, Core.modChan, poolPut_log]
  exact h.keep (h.received.keep hinv hk (fragFree_keeps s k hi) (by simp [Off])
    (by rw [fragFree_chan]; rfl) (by rw [fragFree_chan]; rfl)) hlog rfl rfl

theorem Delivered.setNeedAck (h : Delivered P s k n) (hinv : s.Inv) (hk : s.chanUsed k = true) :
    Delivered P (setNeedAck s k) k n := by
  have hlog : (NetchanV2.setNeedAck s k).log = s.log ++ [] := by
    simp [NetchanV2.setNeedAck, Core.modChan]
  refine h.keep (h.received.keep hinv hk (setNeedAck_keeps (fun _ _ => True) s k)
    (fun _ => trivial) ?_ ?_) hlog rfl rfl
  · simp [NetchanV2.setNeedAck, Core.modChan]
  · simp [NetchanV2.setNeedAck, Core.modChan]

theorem Inbox.fragReceive (h : Inbox s k) (hinv : s.Inv) (hk : s.chanUsed k = true) (seq : UInt16)
    (fragIdx : Nat) (htotal : 1 < fragTotal) (hfits : FragFits s k seq fragIdx payload.length) :
    Inbox (fragReceive s k seq fragIdx fragTotal payload).1 k := by
  obtain ⟨i, hkeep, -⟩ := (fragReceive_tame_iff hinv hk seq fragIdx htotal payload).2 hfits
  obtain ⟨ms, hlog, hms⟩ := fragReceive_log s k seq fragIdx fragTotal payload
  obtain ⟨frags, hchan⟩ := fragReceive_chan s k seq fragIdx fragTotal payload
  obtain ⟨-, -, htaken, hreads⟩ := fragWrites_quiet hms
  exact h.other hinv hk hkeep (by simp [Off]) hlog htaken hreads (by rw [hchan]) (by rw [hchan])
    (by rw [hchan]) (by rw [hchan])

theorem Inbox.fragFree (h : Inbox s k) (hinv : s.Inv) (hk : s.chanUsed k = true) (hi : i < 4) :
    Inbox (fragFree s k i) k := by
  have hlog : (NetchanV2.fragFree s k i).log = s.log ++ [] := by
    simp [fragFree_eq, Core.modChan, poolPut_log]
  exact h.other hinv hk (fragFree_keeps s k hi) (by simp [Off]) hlog rfl rfl
    (by rw [fragFree_chan]; rfl) (by rw [fragFree_chan]; rfl) (by rw [fragFree_chan]; rfl)
    (by rw [fragFree_chan]; rfl)

theorem Inbox.setNeedAck (h : Inbox s k) (hinv : s.Inv) (hk : s.chanUsed k = true) :
    Inbox (setNeedAck s k) k := by
  have hlog : (NetchanV2.setNeedAck s k).log = s.log ++ [] := by
    simp [NetchanV2.setNeedAck, Core.modChan]
  refine h.other hinv hk (setNeedAck_keeps (fun _ _ => True) s k) (fun _ => trivial) hlog rfl rfl
    ?_ ?_ ?_ ?_ <;> simp [NetchanV2.setNeedAck, Core.modChan]

theorem acceptDataReliable_message {j : Nat} (h : Delivered P c.toCore k n) (hgood : c.toCore.Good)
    (hk : c.chanUsed k = true) (fragIdx fragTotal : Nat) (payload : List UInt8)
    (hP : ∀ data, completed c.toCore k (UInt16.ofNat j) fragIdx fragTotal payload = some data →
      P j data) (hlo : n + 64 ≤ j + 2 ^ 16) (hhi : j < n + 2 ^ 15)
    (hfits : 1 < fragTotal → FragFits c.toCore k (UInt16.ofNat j) fragIdx payload.length) :
    ∃ n', n ≤ n' ∧ Delivered P
      (acceptDataReliable c k (UInt16.ofNat j) fragIdx fragTotal payload).toCore k n' := by
  by_cases htotal : fragTotal ≤ 1
  · exact acceptDataReliable_delivered h hgood hk (hP payload (if_pos htotal)) hlo hhi fragIdx
      htotal
  · have hgt := Nat.not_le.1 htotal
    obtain ⟨h1, ht1, hsome⟩ :=
      fragReceive_spec hgood.inv hk (UInt16.ofNat j) fragIdx hgt payload
    have hs1 := fragReceive_settled (hgood.settled k hk) (UInt16.ofNat j) fragIdx fragTotal payload
    have hdel := h.fragReceive hgood.inv hk (UInt16.ofNat j) fragIdx hgt (hfits hgt)
    simp only [acceptDataReliable, if_neg htotal, Conn.lift_toCore]
    simp only [completed, if_neg htotal] at hP
    generalize fragReceive c.toCore k (UInt16.ofNat j) fragIdx fragTotal payload = res at *
    obtain ⟨s, _ | ⟨i, pos⟩⟩ := res
    · exact ⟨n, le_rfl, hdel.setNeedAck h1 (ht1.used hk)⟩
    · obtain ⟨hi, hact⟩ := hsome i pos rfl
      obtain ⟨n', hn', hdel'⟩ := deliverReliable_delivered (c := { c with toCore := s }) hdel h1
        (ht1.used hk) hs1.drained (hP _ rfl) hlo hhi
      obtain ⟨h2, ht2, -⟩ := deliverReliable_spec (c := { c with toCore := s }) h1 (ht1.used hk)
        hs1.drained (UInt16.ofNat j) (s.bytes (poolPtr ((s.chanPool k).frags i).buf) pos)
      have hk2 := ht2.used (ht1.used hk)
      have hact2 : ((((deliverReliable { c with toCore := s } k (UInt16.ofNat j)
          (s.bytes (poolPtr ((s.chanPool k).frags i).buf) pos)).chanPool k).frags i).active) =
          true := by
        rw [deliverReliable_frags]
        exact hact
      refine ⟨n', hn', ?_⟩
      exact (hdel'.fragFree h2 hk2 hi).setNeedAck (fragFree_inv h2 hk2 hi hact2)
        ((fragFree_touch _ k i).used hk2)

theorem acceptDataReliable_inbox (h : Inbox c.toCore k) (hgood : c.toCore.Good)
    (hk : c.chanUsed k = true) (seq : UInt16) (fragIdx fragTotal : Nat) (payload : List UInt8)
    (hfits : 1 < fragTotal → FragFits c.toCore k seq fragIdx payload.length) :
    Inbox (acceptDataReliable c k seq fragIdx fragTotal payload).toCore k := by
  have hd := (hgood.settled k hk).drained
  simp only [acceptDataReliable, Conn.lift_toCore]
  split_ifs with htotal
  · obtain ⟨h1, ht1, -⟩ := deliverReliable_spec hgood.inv hk hd seq payload
    exact (h.deliver hgood.inv hk hd seq payload).setNeedAck h1 (ht1.used hk)
  · have hgt := Nat.not_le.1 htotal
    obtain ⟨h1, ht1, hsome⟩ := fragReceive_spec hgood.inv hk seq fragIdx hgt payload
    have hs1 := fragReceive_settled (hgood.settled k hk) seq fragIdx fragTotal payload
    have hbox := h.fragReceive hgood.inv hk seq fragIdx hgt (hfits hgt)
    generalize fragReceive c.toCore k seq fragIdx fragTotal payload = res at *
    obtain ⟨s, _ | ⟨i, pos⟩⟩ := res
    · exact hbox.setNeedAck h1 (ht1.used hk)
    · obtain ⟨hi, hact⟩ := hsome i pos rfl
      have hbox' := Inbox.deliver (c := { c with toCore := s }) hbox h1 (ht1.used hk) hs1.drained
        seq (s.bytes (poolPtr ((s.chanPool k).frags i).buf) pos)
      obtain ⟨h2, ht2, -⟩ := deliverReliable_spec (c := { c with toCore := s }) h1 (ht1.used hk)
        hs1.drained seq (s.bytes (poolPtr ((s.chanPool k).frags i).buf) pos)
      have hk2 := ht2.used (ht1.used hk)
      have hact2 : ((((deliverReliable { c with toCore := s } k seq
          (s.bytes (poolPtr ((s.chanPool k).frags i).buf) pos)).chanPool k).frags i).active) =
          true := by
        rw [deliverReliable_frags]
        exact hact
      exact (hbox'.fragFree h2 hk2 hi).setNeedAck (fragFree_inv h2 hk2 hi hact2)
        ((fragFree_touch _ k i).used hk2)

/-- The frame brings a message or completes one. -/
def Brings (s : Core) (k : Nat) (seq : UInt16) (fragIdx fragTotal len : Nat) : Prop :=
  fragTotal ≤ 1 ∨ ∃ i, Completes s k seq fragIdx len i

theorem acceptDataReliable_allTaken (h : AllTaken c.toCore k) (hgood : c.toCore.Good)
    (hk : c.chanUsed k = true) (seq : UInt16) (fragIdx fragTotal : Nat) (payload : List UInt8)
    (hlen : ∀ data, completed c.toCore k seq fragIdx fragTotal payload = some data →
      data.length ≤ ncMaxMsg) (hroom : Brings c.toCore k seq fragIdx fragTotal payload.length →
      seq = (c.chanPool k).recvSeq → RoomFor c.toCore k) :
    AllTaken (acceptDataReliable c k seq fragIdx fragTotal payload).toCore k := by
  have hack : ∀ s, AllTaken s k → AllTaken (setNeedAck s k) k := fun s hs =>
    hs.keep (List.append_nil _).symm rfl
  have hd := (hgood.settled k hk).drained
  simp only [acceptDataReliable, Conn.lift_toCore]
  split_ifs with htotal
  · exact hack _ (h.deliver hgood.inv hk hd (hlen payload (if_pos htotal))
      (hroom (Or.inl htotal)))
  · have hgt := Nat.not_le.1 htotal
    obtain ⟨h1, ht1, hsome⟩ := fragReceive_spec hgood.inv hk seq fragIdx hgt payload
    have hs1 := fragReceive_settled (hgood.settled k hk) seq fragIdx fragTotal payload
    obtain ⟨ms, hlog, hms⟩ := fragReceive_log c.toCore k seq fragIdx fragTotal payload
    obtain ⟨frags, hchan⟩ := fragReceive_chan c.toCore k seq fragIdx fragTotal payload
    obtain ⟨-, hhand, htaken, -⟩ := fragWrites_quiet hms
    have hcompletes : ∀ i pos,
        (fragReceive c.toCore k seq fragIdx fragTotal payload).2 = some (i, pos) →
        Completes c.toCore k seq fragIdx payload.length i ∧
          fragReceive c.toCore k seq fragIdx fragTotal payload =
            fragTail c.toCore k i fragIdx payload := fun _ _ => fragReceive_some hgt
    have hfirst : AllTaken (fragReceive c.toCore k seq fragIdx fragTotal payload).1 k :=
      h.keep hlog (htaken.trans hhand.symm)
    have htop : ∀ i pos, (fragReceive c.toCore k seq fragIdx fragTotal payload).2 = some (i, pos) →
        (fragReceive c.toCore k seq fragIdx fragTotal payload).1.poolFreeTop = c.poolFreeTop := by
      intro i pos hres
      rw [(hcompletes i pos hres).2, fragTail_poolFreeTop]
    simp only [completed, if_neg htotal] at hlen
    generalize fragReceive c.toCore k seq fragIdx fragTotal payload = res at *
    obtain ⟨s, _ | ⟨i, pos⟩⟩ := res
    · exact hack _ hfirst
    · rw [Conn.lift_toCore]
      have hdeliver : AllTaken (deliverReliable { c with toCore := s } k seq
          (s.bytes (poolPtr ((s.chanPool k).frags i).buf) pos)).toCore k := by
        refine AllTaken.deliver (c := { c with toCore := s }) hfirst h1 (ht1.used hk)
          hs1.drained (hlen _ rfl) fun hseq => ?_
        -- the fragment changed neither the queue nor the reorder table nor the pool
        have hroom' := hroom (Or.inr ⟨i, (hcompletes i pos rfl).1⟩)
        dsimp only at hchan hseq
        rw [hchan] at hseq
        unfold RoomFor at hroom' ⊢
        dsimp only
        rw [hchan, htop i pos rfl]
        exact hroom' hseq
      have hfree : (fragFree (deliverReliable { c with toCore := s } k seq
          (s.bytes (poolPtr ((s.chanPool k).frags i).buf) pos)).toCore k i).log =
          (deliverReliable { c with toCore := s } k seq
            (s.bytes (poolPtr ((s.chanPool k).frags i).buf) pos)).log ++ [] := by
        simp [fragFree_eq, Core.modChan, poolPut_log]
      exact hack _ (hdeliver.keep hfree rfl)

end Reliable

end MechanicalResearcher.NetchanV2
