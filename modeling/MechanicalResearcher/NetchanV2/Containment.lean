import MechanicalResearcher.NetchanV2.Contents

/-!
# Where the writes of a fragment go

Every fragment is checked on its own before it is stored, but compaction copies
to the running sum of lengths that the peer chose.  This module says exactly
when all writes stay inside the buffer of their fragment slot, and that nothing
else is disturbed then.
-/

namespace MechanicalResearcher.NetchanV2

open Lib Lib.Serial Lib.Ownership

variable {k b i : Nat}

/-- A fragment write stays inside the pool buffer of its slot. -/
def Mark.Contained : Mark → Prop
  | fragWrite _ buf addr len =>
    ∃ b < ncPoolBufs, buf = some b ∧
      ∀ a, addr ≤ a → a < addr + len → b * ncMaxMsg ≤ a ∧ a < b * ncMaxMsg + ncMaxMsg
  | _ => True

/-- All fragment writes on the way from `s` to `s'` are contained. -/
def Core.Tame (s s' : Core) : Prop :=
  ∃ ms, s'.log = s.log ++ ms ∧ ∀ m ∈ ms, m.Contained

namespace Core.Tame

variable {s s' s'' : Core}

theorem of_log (h : s'.log = s.log) : Tame s s' := ⟨[], by simpa using h, by simp⟩

theorem trans (h : Tame s s') (h' : Tame s' s'') : Tame s s'' := by
  obtain ⟨ms, hlog, hms⟩ := h
  obtain ⟨ms', hlog', hms'⟩ := h'
  refine ⟨ms ++ ms', by rw [hlog', hlog, List.append_assoc], fun m hm => ?_⟩
  rcases List.mem_append.1 hm with hm | hm
  · exact hms m hm
  · exact hms' m hm

theorem mark (s : Core) {m : Mark} (hm : m.Contained) : Tame s (s.mark m) :=
  ⟨[m], rfl, by simpa using hm⟩

theorem of_trans (h : Tame s s'') (hpre : ∃ ms, s'.log = s.log ++ ms)
    (hpost : ∃ ms, s''.log = s'.log ++ ms) : Tame s s' ∧ Tame s' s'' := by
  obtain ⟨ms, hlog, hms⟩ := h
  obtain ⟨ms1, h1⟩ := hpre
  obtain ⟨ms2, h2⟩ := hpost
  have hsplit : ms = ms1 ++ ms2 := by
    rw [h2, h1, List.append_assoc] at hlog
    exact (List.append_cancel_left hlog).symm
  subst hsplit
  exact ⟨⟨ms1, h1, fun m hm => hms m (List.mem_append_left _ hm)⟩,
    ⟨ms2, h2, fun m hm => hms m (List.mem_append_right _ hm)⟩⟩

end Core.Tame

theorem Core.Touch.log_append {s s' : Core} (h : Core.Touch k s s') :
    ∃ ms, s'.log = s.log ++ ms := by
  obtain ⟨ms, hms, -⟩ := h.log
  exact ⟨ms, hms⟩

/-! ## Delivery writes no fragments -/

theorem poolPut_log (s : Core) (b : Option Nat) : (poolPut s b).log = s.log := by
  cases b <;> rfl

theorem chanRecvEnqueue_tame (s : Core) (k : Nat) (data : List UInt8) :
    Core.Tame s (chanRecvEnqueue s k data).1 := by
  rw [chanRecvEnqueue_fst]
  split_ifs
  · have htake : ∀ f, Core.Tame s (s.takeInto k data f) := fun _ => Core.Tame.of_log rfl
    exact (htake _).trans (Core.Tame.mark _ trivial)
  · exact Core.Tame.mark _ trivial

theorem bumpRecvSeq_tame (s : Core) (k : Nat) : Core.Tame s (bumpRecvSeq s k) := by
  have hmod : ∀ f, Core.Tame s (s.modChan k f) := fun _ => Core.Tame.of_log rfl
  exact (hmod _).trans (Core.Tame.mark _ trivial)

theorem deliverCore_tame (s : Core) (k : Nat) : Core.Tame s (deliverCore s k) := by
  have hrelease : ∀ s' slot, Core.Tame s' (reorderRelease s' k slot) := by
    intro s' slot
    rw [reorderRelease_eq]
    exact Core.Tame.of_log (poolPut_log _ _)
  simp only [deliverCore]
  exact ((chanRecvEnqueue_tame s k _).trans (hrelease _ _)).trans (bumpRecvSeq_tame _ k)

theorem deliverLoop_tame (fuel : Nat) (c : Conn) (k : Nat) :
    Core.Tame c.toCore (deliverLoop fuel c k).toCore := by
  refine deliverLoop_rule (P := fun d => Core.Tame c.toCore d.toCore) (fun d _ h => ?_) fuel
    (Core.Tame.of_log rfl)
  rw [deliverOne_toCore]
  exact h.trans (deliverCore_tame _ k)

theorem deliverReliable_tame (c : Conn) (k : Nat) (seq : UInt16) (data : List UInt8) :
    Core.Tame c.toCore (deliverReliable c k seq data).toCore := by
  simp only [deliverReliable]
  split_ifs
  · refine Core.Tame.trans ?_ (deliverLoop_tame _ _ k)
    rw [Conn.lift_toCore, evPush_toCore, Conn.lift_toCore]
    exact (chanRecvEnqueue_tame _ k _).trans (bumpRecvSeq_tame _ k)
  · rw [Conn.lift_toCore, reorderStore_eq]
    split_ifs <;> exact Core.Tame.of_log rfl
  · exact Core.Tame.of_log rfl

/-! ## Compaction -/

/-- The end of the last fragment when all are moved together from `pos` on. -/
def compactEnd (f : FragAsm) (is : List Nat) (pos : Nat) : Nat := pos + (is.map f.offsets).sum

/-- The sum of the lengths of the fragments of a slot. -/
def FragAsm.sum (f : FragAsm) : Nat := ((List.range f.total).map f.offsets).sum

theorem compactLoop_tame_iff (k : Nat) {f : FragAsm} {fp : Nat} (hb : f.buf = some b)
    (hlt : b < ncPoolBufs) (is : List Nat) (hfits : ∀ i ∈ is, i * fp + f.offsets i ≤ ncMaxMsg)
    (s : Core) (pos : Nat) (hpos : pos ≤ ncMaxMsg) :
    Core.Tame s (compactLoop k f fp is s pos).1 ↔ compactEnd f is pos ≤ ncMaxMsg := by
  induction is generalizing s pos with
  | nil => exact ⟨fun _ => by simpa [compactEnd] using hpos, fun _ => Core.Tame.of_log rfl⟩
  | cons i is ih =>
    have hend : compactEnd f (i :: is) pos = compactEnd f is (pos + f.offsets i) := by
      simp [compactEnd, Nat.add_assoc]
    have hfi := hfits i List.mem_cons_self
    have ih' := fun s' hle => ih (fun j hj => hfits j (List.mem_cons_of_mem _ hj)) s'
      (pos + f.offsets i) hle
    rw [hend]
    simp only [compactLoop]
    split_ifs with hplace
    · -- the fragment is moved to `pos`
      generalize hs1 : ((s.memmove (poolPtr f.buf + pos) (poolPtr f.buf + i * fp)
        (f.offsets i)).mark (.fragWrite k f.buf (poolPtr f.buf + pos) (f.offsets i))) = s1
      have hlog : s1.log = s.log ++ [.fragWrite k f.buf (poolPtr f.buf + pos) (f.offsets i)] := by
        rw [← hs1]
        rfl
      obtain ⟨store, log, heq, ms, hms, -⟩ := compactLoop_chanPool k f fp is s1
        (pos + f.offsets i)
      have hpost : ∃ ms, (compactLoop k f fp is s1 (pos + f.offsets i)).1.log =
          s1.log ++ ms := ⟨ms, by rw [heq]; exact hms⟩
      by_cases hroom : pos + f.offsets i ≤ ncMaxMsg
      · have hone : Core.Tame s s1 := by
          refine ⟨_, hlog, ?_⟩
          simp only [List.mem_singleton, forall_eq, Mark.Contained]
          refine ⟨b, hlt, hb, fun a ha ha' => ?_⟩
          rw [hb] at ha ha'
          simp only [poolPtr, Option.getD_some] at ha ha'
          exact ⟨by omega, by omega⟩
        rw [← ih' s1 hroom]
        exact ⟨fun h => (h.of_trans ⟨_, hlog⟩ hpost).2, hone.trans⟩
      · -- the last byte written lies outside
        refine iff_of_false (fun h => ?_) fun h => hroom ?_
        · obtain ⟨⟨ms', hms', hcont⟩, -⟩ := h.of_trans ⟨_, hlog⟩ hpost
          rw [hlog, List.append_cancel_left_eq] at hms'
          subst hms'
          obtain ⟨b', -, hb', hin⟩ := hcont _ List.mem_cons_self
          rw [hb] at hb'
          cases hb'
          have := (hin (b * ncMaxMsg + pos + f.offsets i - 1)
            (by rw [hb]; simp only [poolPtr, Option.getD_some]; omega)
            (by rw [hb]; simp only [poolPtr, Option.getD_some]; omega)).2
          omega
        · unfold compactEnd at h
          omega
    · -- it is in place already, and it fits there
      rw [ne_eq, not_not] at hplace
      exact ih' s (by rw [hplace]; exact hfi)

theorem compactLoop_store (k : Nat) {f : FragAsm} {fp : Nat} (hb : f.buf = some b) (is : List Nat)
    (s : Core) (pos : Nat) (hend : compactEnd f is pos ≤ ncMaxMsg) (a : Nat)
    (ha : a < b * ncMaxMsg ∨ b * ncMaxMsg + ncMaxMsg ≤ a) :
    (compactLoop k f fp is s pos).1.poolStore a = s.poolStore a := by
  induction is generalizing s pos with
  | nil => rfl
  | cons i is ih =>
    have hstep : compactEnd f (i :: is) pos = compactEnd f is (pos + f.offsets i) := by
      simp [compactEnd, Nat.add_assoc]
    have hroom : pos + f.offsets i ≤ ncMaxMsg := by
      rw [hstep] at hend
      unfold compactEnd at hend
      omega
    rw [hstep] at hend
    simp only [compactLoop]
    rw [ih _ _ hend]
    split_ifs
    · simp only [Core.mark, Core.memmove, hb, poolPtr, Option.getD_some]
      rcases ha with ha | ha
      · exact Memory.move_apply_of_lt (by omega)
      · exact Memory.move_apply_of_ge (by omega)
    · rfl

/-! ## Receiving a fragment -/

/-- If this fragment completes the slot of its message, all its fragments fit together. -/
def FragFits (s : Core) (k : Nat) (seq : UInt16) (fragIdx len : Nat) : Prop :=
  ∀ i, fragFind (s.chanPool k) seq = some i →
    ((s.chanPool k).frags i).accepts s.cfg fragIdx len →
    ((s.chanPool k).frags i).haveN + 1 = ((s.chanPool k).frags i).total →
    (((s.chanPool k).frags i).stored fragIdx len).sum ≤ ncMaxMsg

theorem fragStore_frag (s : Core) (k i fragIdx : Nat) (payload : List UInt8) :
    ((fragStore s k i fragIdx payload).chanPool k).frags i =
      ((s.chanPool k).frags i).stored fragIdx payload.length := by
  simp [fragStore_eq, Core.modChan, Core.mark, Core.memcpy, Chan.refragged]

theorem frag_buf_lt {s : Core} (h : s.Inv) (hk : s.chanUsed k = true) (hi : i < 4)
    (hact : ((s.chanPool k).frags i).active = true) (hb : ((s.chanPool k).frags i).buf = some b) :
    b < ncPoolBufs := by
  have hslot : s.bufAt (.slot k (.frag i)) = some b := by
    simp [Core.bufAt, Chan.bufAt, hk, hi, hact, hb]
  exact h.pool.mem _ _ hslot

theorem fragStore_tame {s : Core} {fragIdx : Nat} {payload : List UInt8} (h : s.Inv)
    (hk : s.chanUsed k = true) (hi : i < 4) (hact : ((s.chanPool k).frags i).active = true)
    (hfits : fragIdx * maxFragPayload s.cfg + payload.length ≤ ncMaxMsg) :
    Core.Tame s (fragStore s k i fragIdx payload) := by
  obtain ⟨b, hb⟩ := ((h.chans k hk).frag i hi hact).buf
  refine ⟨_, by rw [fragStore_eq]; rfl, ?_⟩
  simp only [List.mem_singleton, forall_eq, Mark.Contained]
  refine ⟨b, frag_buf_lt h hk hi hact hb, hb, fun a ha ha' => ?_⟩
  simp only [hb, poolPtr, Option.getD_some] at ha ha'
  exact ⟨by omega, by omega⟩

theorem fragTail_tame_iff {s : Core} {fragIdx : Nat} {payload : List UInt8} (h : s.Inv)
    (hk : s.chanUsed k = true) (hi : i < 4) (hact : ((s.chanPool k).frags i).active = true)
    (hacc : ((s.chanPool k).frags i).accepts s.cfg fragIdx payload.length) :
    (Core.Tame s (fragTail s k i fragIdx payload).1 ↔
      (((s.chanPool k).frags i).haveN + 1 = ((s.chanPool k).frags i).total →
        (((s.chanPool k).frags i).stored fragIdx payload.length).sum ≤ ncMaxMsg)) ∧
    ((((s.chanPool k).frags i).haveN + 1 = ((s.chanPool k).frags i).total →
        (((s.chanPool k).frags i).stored fragIdx payload.length).sum ≤ ncMaxMsg) →
      Core.Keeps (Off k (.frag i)) s (fragTail s k i fragIdx payload).1) := by
  have hf := (h.chans k hk).frag i hi hact
  obtain ⟨b, hb⟩ := hf.buf
  have htame := fragStore_tame h hk hi hact hacc.2.2
  have hkeep := fragStore_keeps h hk hi hact hacc.2.2
  have hinv := fragStore_inv h hk hi hact hacc.1 hacc.2.1 hacc.2.2
  have hcfg : (fragStore s k i fragIdx payload).cfg = s.cfg := rfl
  have hstored := hf.store hacc.1 hacc.2.1 hacc.2.2
  simp only [fragTail, fragStore_frag]
  generalize hf' : ((s.chanPool k).frags i).stored fragIdx payload.length = f'
  have hb' : f'.buf = some b := by rw [← hf', ← hb]; rfl
  have hhave : f'.haveN = ((s.chanPool k).frags i).haveN + 1 := by rw [← hf']; rfl
  have htotal : f'.total = ((s.chanPool k).frags i).total := by rw [← hf']; rfl
  have hinv' : FragInv (maxFragPayload s.cfg) f' := by rw [← hf']; exact hstored
  rw [hhave, htotal, hcfg]
  split_ifs with hfull
  · have hfits : ∀ j ∈ List.range ((s.chanPool k).frags i).total,
        j * maxFragPayload s.cfg + f'.offsets j ≤ ncMaxMsg := by
      intro j hj
      refine hinv'.fits j (hinv'.complete (by rw [hhave, htotal, hfull]) ?_)
      rw [htotal]
      exact List.mem_range.1 hj
    have hiff := compactLoop_tame_iff k hb' (frag_buf_lt h hk hi hact hb) _ hfits
      (fragStore s k i fragIdx payload) 0 (Nat.zero_le _)
    have hsum : compactEnd f' (List.range ((s.chanPool k).frags i).total) 0 = f'.sum := by
      rw [compactEnd, Nat.zero_add, FragAsm.sum, htotal]
    rw [hsum] at hiff
    obtain ⟨store, log, heq, ms, hms, -⟩ := compactLoop_chanPool k f' (maxFragPayload s.cfg)
      (List.range ((s.chanPool k).frags i).total) (fragStore s k i fragIdx payload) 0
    refine ⟨⟨fun ht _ => ?_, fun hs => htame.trans (hiff.2 (hs hfull))⟩, fun hs => ?_⟩
    · refine hiff.1 (ht.of_trans (fragStore_touch s k i fragIdx payload).log_append ?_).2
      exact ⟨ms, by rw [heq]; exact hms⟩
    · refine hkeep.trans (keeps_of_frag_write hinv hk hi ?_ (b := b) ?_ (fun j y _ => ?_)
        fun a ha => ?_)
      · rw [fragStore_frag]
        exact hact
      · rw [fragStore_frag]
        exact hb
      · rw [heq]
        rfl
      · refine compactLoop_store k hb' _ _ 0 ?_ a ha
        rw [hsum]
        exact hs hfull
  · exact ⟨iff_of_true htame fun h => absurd h hfull, fun _ => hkeep⟩

theorem fragReceive_tame_iff {s : Core} (h : s.Inv) (hk : s.chanUsed k = true) (seq : UInt16)
    (fragIdx : Nat) {fragTotal : Nat} (htotal : 1 < fragTotal) (payload : List UInt8) :
    (Core.Tame s (fragReceive s k seq fragIdx fragTotal payload).1 ↔
      FragFits s k seq fragIdx payload.length) ∧
    (FragFits s k seq fragIdx payload.length →
      ∃ i, Core.Keeps (Off k (.frag i)) s (fragReceive s k seq fragIdx fragTotal payload).1 ∧
        (fragFind (s.chanPool k) seq = some i ∨
          s.bufAt (.slot k (.frag i)) = none)) := by
  unfold FragFits
  cases hfind : fragFind (s.chanPool k) seq with
  | some i =>
    obtain ⟨hi, hact, -⟩ := fragFind_some hfind
    have hslot : fragSlot s k seq fragTotal = (s, some i) := by simp [fragSlot, hfind]
    by_cases hacc : ((s.chanPool k).frags i).accepts s.cfg fragIdx payload.length
    · have heq : fragReceive s k seq fragIdx fragTotal payload =
          fragTail s k i fragIdx payload := by
        simp [fragReceive, fragTail, hslot, hacc]
      obtain ⟨h1, h2⟩ := fragTail_tame_iff h hk hi hact hacc
      rw [heq, h1]
      refine ⟨⟨fun hs j hj _ => ?_, fun hs => hs i rfl hacc⟩, fun hs => ⟨i, h2 ?_, Or.inl rfl⟩⟩
      · cases hj
        exact hs
      · exact hs i rfl hacc
    · have heq : fragReceive s k seq fragIdx fragTotal payload = (s, none) := by
        simp [fragReceive, hslot, hacc]
      rw [heq]
      refine ⟨iff_of_true (Core.Tame.of_log rfl) fun j hj hacc' => ?_,
        fun _ => ⟨i, Core.Keeps.refl _ _, Or.inl rfl⟩⟩
      cases hj
      exact absurd hacc' hacc
  | none =>
    -- a slot that was just claimed is not complete with its first fragment
    simp only [reduceCtorEq, false_imp_iff, implies_true, forall_true_left, iff_true,
      false_or]
    have hslot : fragSlot s k seq fragTotal = fragAlloc s k seq fragTotal := by
      simp [fragSlot, hfind]
    rcases fragAlloc_cases s k seq fragTotal with heq | ⟨i, hi, hidle, hle, htop, heq⟩
    · have hres : fragReceive s k seq fragIdx fragTotal payload = (s, none) := by
        simp [fragReceive, hslot, heq]
      rw [hres]
      refine ⟨Core.Tame.of_log rfl, 4, Core.Keeps.refl _ _, ?_⟩
      simp [Core.bufAt, Chan.bufAt]
    · have hempty : s.bufAt (.slot k (.frag i)) = none := by
        simp [Core.bufAt, Chan.bufAt, hidle]
      have hkeep : Core.Keeps (Off k (.frag i)) s (s.takeInto k [] fun b ch =>
          ch.refragged i (FragAsm.claimed seq fragTotal b)) :=
        Core.Keeps.takeInto h htop (Nat.zero_le _) fun b => by
          rw [bufAt_refragged _ _ _ hi]
          rfl
      obtain ⟨h1, ht1⟩ := fragAlloc_inv h hk seq htotal
      rw [heq] at h1 ht1
      have hfrag : ((s.takeInto k [] fun b ch =>
          ch.refragged i (FragAsm.claimed seq fragTotal b)).chanPool k).frags i =
          FragAsm.claimed seq fragTotal (s.poolFree (s.poolFreeTop - 1)) := by
        simp [Core.takeInto, Chan.refragged]
      generalize hs1 : (s.takeInto k [] fun b ch =>
        ch.refragged i (FragAsm.claimed seq fragTotal b)) = s1 at h1 ht1 hfrag hkeep
      have hlog : Core.Tame s s1 := by
        rw [← hs1]
        exact Core.Tame.of_log rfl
      have hact : ((s1.chanPool k).frags i).active = true := by rw [hfrag]; rfl
      by_cases hacc : ((s1.chanPool k).frags i).accepts s1.cfg fragIdx payload.length
      · have hres : fragReceive s k seq fragIdx fragTotal payload =
            fragTail s1 k i fragIdx payload := by
          simp [fragReceive, fragTail, hslot, heq, hs1, hacc]
        have hnot : ((s1.chanPool k).frags i).haveN + 1 ≠ ((s1.chanPool k).frags i).total := by
          rw [hfrag]
          simp only [FragAsm.claimed, FragAsm.zero]
          omega
        obtain ⟨h2, h3⟩ := fragTail_tame_iff h1 (ht1.used hk) hi hact hacc
        rw [hres]
        exact ⟨hlog.trans (h2.2 fun e => absurd e hnot), i,
          hkeep.trans (h3 fun e => absurd e hnot), hempty⟩
      · have hres : fragReceive s k seq fragIdx fragTotal payload = (s1, none) := by
          simp [fragReceive, hslot, heq, hs1, hacc]
        rw [hres]
        exact ⟨hlog, i, hkeep, hempty⟩

/-! ## What stays in place -/

/-- A slot in `K` that holds the same buffer before and after holds the same bytes, and
nothing behind the pool was written. -/
structure Core.Intact (K : Nat → Slot → Prop) (s s' : Core) : Prop where
  store : ∀ k x b, K k x → s.bufAt (.slot k x) = some b → s'.bufAt (.slot k x) = some b →
    ∀ i < ncMaxMsg, s'.poolStore (b * ncMaxMsg + i) = s.poolStore (b * ncMaxMsg + i)
  behind : ∀ a, ncPoolBufs * ncMaxMsg ≤ a → s'.poolStore a = s.poolStore a

namespace Core.Intact

variable {K K' : Nat → Slot → Prop} {s s' s'' : Core}

theorem of_keeps (h : Core.Keeps K s s') : Intact K s s' :=
  ⟨fun k x b hx hb _ => h.store k x b hx hb, h.behind⟩

theorem of_keeps_off {x : Slot} (h : Core.Keeps (Off k x) s s') (hx : s.bufAt (.slot k x) = none) :
    Intact (fun _ _ => True) s s' := by
  refine ⟨fun j y b _ hb _ => h.store j y b (fun e => ?_) hb, h.behind⟩
  rw [e.1, e.2, hx] at hb
  cases hb

theorem mono (h : Intact K s s') (hK : ∀ k x, K' k x → K k x) : Intact K' s s' :=
  ⟨fun k x b hx => h.store k x b (hK k x hx), h.behind⟩

theorem keeps_trans (h : Core.Keeps K s s') (h' : Intact K s' s'') : Intact K s s'' where
  store k x b hx hb hb' i hi :=
    (h'.store k x b hx ((h.buf k x hx).trans hb) hb' i hi).trans (h.store k x b hx hb i hi)
  behind a ha := (h'.behind a ha).trans (h.behind a ha)

theorem trans_keeps (h : Intact K s s') (h' : Core.Keeps K s' s'') : Intact K s s'' where
  store k x b hx hb hb' i hi := by
    have hmid := (h'.buf k x hx).symm.trans hb'
    rw [h'.store k x b hx hmid i hi, h.store k x b hx hb hmid i hi]
  behind a ha := (h'.behind a ha).trans (h.behind a ha)

end Core.Intact

theorem rqTail_empty {s : Core} (h : s.Inv) (hk : s.chanUsed k = true) :
    s.bufAt (.slot k (.recvQueue (s.chanPool k).rqTail)) = none := by
  have hq := (h.chans k hk).queue
  simp [Core.bufAt, Chan.bufAt, hq.idle _ hq.tail_lt not_inRing_tail]

theorem deliverCore_reorder_none {s : Core} (h : s.bufAt (.slot k (.reorder i)) = none) :
    (deliverCore s k).bufAt (.slot k (.reorder i)) = none := by
  have hused := (deliverCore_touch s k).chanUsed
  simp only [Core.bufAt, Chan.bufAt, hused, (deliverCore_reorder s k).2] at h ⊢
  by_cases hi : i = (s.chanPool k).recvSeq.toNat % ncReorderSlots
  · subst hi
    simp
  · rw [Function.update_of_ne hi]
    exact h

theorem deliverLoop_reorder_none (fuel : Nat) {c : Conn}
    (h : c.toCore.bufAt (.slot k (.reorder i)) = none) :
    (deliverLoop fuel c k).toCore.bufAt (.slot k (.reorder i)) = none := by
  refine deliverLoop_rule (P := fun d => d.toCore.bufAt (.slot k (.reorder i)) = none)
    (fun d _ h => ?_) fuel h
  rw [deliverOne_toCore]
  exact deliverCore_reorder_none h

theorem deliverLoop_intact (fuel : Nat) {c : Conn} (h : c.toCore.Inv) (hk : c.chanUsed k = true) :
    Core.Intact (fun _ _ => True) c.toCore (deliverLoop fuel c k).toCore := by
  induction fuel generalizing c with
  | zero => exact Core.Intact.of_keeps (Core.Keeps.refl _ _)
  | succ fuel ih =>
    unfold deliverLoop
    split_ifs with hd
    · have hkeep := deliverCore_keeps h hk
      have hinv := deliverCore_inv h hk hd
      have hempty : (deliverCore c.toCore k).bufAt
          (.slot k (.reorder ((c.chanPool k).recvSeq.toNat % ncReorderSlots))) = none := by
        simp [Core.bufAt, Chan.bufAt, (deliverCore_reorder c.toCore k).2]
      rw [← deliverOne_toCore] at hkeep hinv hempty
      have hrest := ih hinv ((deliverOne_toCore c k ▸ deliverCore_touch c.toCore k).used hk)
      refine ⟨fun j y b _ hb hb' => ?_, fun a ha =>
        (hrest.behind a ha).trans (hkeep.behind a ha)⟩
      -- a slot that the round touched does not hold its buffer at both ends
      have hin : Off k (.recvQueue (c.chanPool k).rqTail) j y ∧
          Off k (.reorder ((c.chanPool k).recvSeq.toNat % ncReorderSlots)) j y := by
        refine ⟨?_, ?_⟩
        · rintro ⟨rfl, rfl⟩
          rw [rqTail_empty h hk] at hb
          cases hb
        · rintro ⟨rfl, rfl⟩
          rw [deliverLoop_reorder_none fuel hempty] at hb'
          cases hb'
      intro i hi
      rw [hrest.store j y b trivial ((hkeep.buf j y hin).trans hb) hb' i hi,
        hkeep.store j y b hin hb i hi]
    · exact Core.Intact.of_keeps (Core.Keeps.refl _ _)

theorem deliverReliable_intact {c : Conn} (h : c.toCore.Inv) (hk : c.chanUsed k = true)
    (hd : deliverable (c.chanPool k) = false) (seq : UInt16) (data : List UInt8) :
    Core.Intact (fun _ _ => True) c.toCore (deliverReliable c k seq data).toCore := by
  simp only [deliverReliable]
  split_ifs with hseq hcond
  · have hkeep := (chanRecvEnqueue_keeps h hk data).trans (bumpRecvSeq_keeps _ _ k)
    have h1 := bumpRecvSeq_enqueue_inv h hk hd data
    have ht := (chanRecvEnqueue_touch c.toCore k data).trans (bumpRecvSeq_touch _ k)
    have hcore : (Conn.lift (evPush (c.lift fun s => (chanRecvEnqueue s k data).1) .data (some k))
        fun s => bumpRecvSeq s k).toCore =
        bumpRecvSeq (chanRecvEnqueue c.toCore k data).1 k := by simp
    have hrest := deliverLoop_intact ncReorderSlots (k := k) (hcore ▸ h1)
      (by rw [hcore]; exact ht.used hk)
    rw [hcore] at hrest
    refine ⟨fun j y b _ hb hb' i hi => ?_, fun a ha =>
      (hrest.behind a ha).trans (hkeep.behind a ha)⟩
    have hin : Off k (.recvQueue (c.chanPool k).rqTail) j y := by
      rintro ⟨rfl, rfl⟩
      rw [rqTail_empty h hk] at hb
      cases hb
    exact (hrest.store j y b trivial ((hkeep.buf j y hin).trans hb) hb' i hi).trans
      (hkeep.store j y b hin hb i hi)
  · refine Core.Intact.of_keeps_off (reorderStore_keeps h seq hcond.2.2.2) ?_
    simp [Core.bufAt, Chan.bufAt, hcond.2.2.1]
  · exact Core.Intact.of_keeps (Core.Keeps.refl _ _)

theorem Core.Intact.fragFree {K : Nat → Slot → Prop} {s s' : Core} (h : Core.Intact K s s')
    (hi : i < 4) : Core.Intact K s (fragFree s' k i) := by
  have hkeep := fragFree_keeps s' k hi
  refine ⟨fun j y b hy hb hb' n hn => ?_, fun a ha => (hkeep.behind a ha).trans (h.behind a ha)⟩
  have hin : Off k (.frag i) j y := by
    rintro ⟨rfl, rfl⟩
    simp [Core.bufAt, fragFree_chan, bufAt_refragged _ _ _ hi, FragAsm.zero] at hb'
  have hmid := (hkeep.buf j y hin).symm.trans hb'
  rw [hkeep.store j y b hin hmid n hn, h.store j y b hy hb hmid n hn]

/-! ## Data frames -/

structure DataFrame where
  id : UInt8
  seq : UInt16
  fragIdx : UInt8
  fragTotal : UInt8
  payload : List UInt8

/-- `process_data` for the frame `d`. -/
def Conn.data (c : Conn) (d : DataFrame) : Conn :=
  acceptData c d.id d.seq d.fragIdx.toNat d.fragTotal.toNat d.payload

/-- If the frame completes a fragmented message, the fragments stored for it and this one
are together no longer than a buffer. -/
def DataFits (c : Conn) (d : DataFrame) : Prop :=
  ∀ k, c.channels d.id = some k → (c.chanPool k).role = .receiver → 1 < d.fragTotal.toNat →
    FragFits c.toCore k d.seq d.fragIdx.toNat d.payload.length

/-- The slots that have nothing to do with the assembly of the frame's message. -/
def OtherSlot (c : Conn) (d : DataFrame) (k : Nat) (x : Slot) : Prop :=
  ∀ i, c.channels d.id = some k → fragFind (c.chanPool k) d.seq = some i → x ≠ .frag i

theorem fragFree_tame (s : Core) (k i : Nat) : Core.Tame s (fragFree s k i) := by
  rw [fragFree_eq]
  exact Core.Tame.of_log (poolPut_log _ _)

/-- A frame of a message of several fragments: `finish` is what happens after the
fragment was stored.  It writes no fragments and takes back at most the fragment slot. -/
theorem tame_iff_of_finish {c : Conn} (h : c.toCore.Inv) (hk : c.chanUsed k = true) {d : DataFrame}
    (hid : c.channels d.id = some k) (hrole : (c.chanPool k).role = .receiver)
    (htotal : 1 < d.fragTotal.toNat) {s' : Core} (htame : Core.Tame
      (fragReceive c.toCore k d.seq d.fragIdx.toNat d.fragTotal.toNat d.payload).1 s')
    (hintact : ∀ i, Core.Keeps (Off k (.frag i)) c.toCore
        (fragReceive c.toCore k d.seq d.fragIdx.toNat d.fragTotal.toNat d.payload).1 →
      Core.Intact (Off k (.frag i)) c.toCore s') :
    (Core.Tame c.toCore s' ↔ DataFits c d) ∧
      (DataFits c d → Core.Intact (OtherSlot c d) c.toCore s') := by
  obtain ⟨hiff, hkeep⟩ :=
    fragReceive_tame_iff h hk d.seq d.fragIdx.toNat htotal d.payload
  obtain ⟨-, ht, -⟩ := fragReceive_spec h hk d.seq d.fragIdx.toNat htotal d.payload
  have hfits : DataFits c d ↔ FragFits c.toCore k d.seq d.fragIdx.toNat d.payload.length := by
    refine ⟨fun hf => hf k hid hrole htotal, fun hf j hj _ _ => ?_⟩
    rw [hid] at hj
    cases hj
    exact hf
  have hpost : ∃ ms, s'.log = (fragReceive c.toCore k d.seq d.fragIdx.toNat
      d.fragTotal.toNat d.payload).1.log ++ ms := by
    obtain ⟨ms, hms, -⟩ := htame
    exact ⟨ms, hms⟩
  rw [hfits, ← hiff]
  refine ⟨⟨fun hs => (hs.of_trans ht.log_append hpost).1, fun hs => hs.trans htame⟩,
    fun hs => ?_⟩
  obtain ⟨i, hki, hslot⟩ := hkeep (hiff.1 hs)
  refine ⟨fun j y b hy hb hb' => (hintact i hki).store j y b ?_ hb hb', (hintact i hki).behind⟩
  rintro ⟨rfl, rfl⟩
  rcases hslot with hfind | hnone
  · exact hy i hid hfind rfl
  · rw [hnone] at hb
    cases hb

theorem data_tame_iff {c : Conn} (h : c.toCore.Good) (d : DataFrame) :
    (Core.Tame c.toCore (c.data d).toCore ↔ DataFits c d) ∧
      (DataFits c d → Core.Intact (OtherSlot c d) c.toCore (c.data d).toCore) := by
  have hsame : Core.Intact (OtherSlot c d) c.toCore c.toCore :=
    Core.Intact.of_keeps (Core.Keeps.refl _ _)
  unfold Conn.data acceptData
  cases hid : c.channels d.id with
  | none =>
    refine ⟨iff_of_true (Core.Tame.of_log rfl) fun k hk => ?_, fun _ => hsame⟩
    rw [hid] at hk
    cases hk
  | some k =>
    obtain ⟨-, hk, -⟩ := h.inv.table _ k hid
    have hs := h.settled k hk
    dsimp only
    by_cases hrole : (c.chanPool k).role = .receiver
    swap
    · rw [if_pos hrole]
      refine ⟨iff_of_true (Core.Tame.of_log rfl) fun j hj hr => ?_, fun _ => hsame⟩
      rw [hid] at hj
      cases hj
      exact absurd hr hrole
    rw [if_neg (not_not.2 hrole)]
    by_cases htotal : d.fragTotal.toNat ≤ 1
    · -- unfragmented: nothing is stored in a fragment slot
      have hfits : DataFits c d := fun _ _ _ hgt => absurd hgt (Nat.not_lt.2 htotal)
      split_ifs
      · simp only [acceptDataUnreliable, htotal, if_true, evPush_toCore, Conn.lift_toCore]
        refine ⟨iff_of_true (chanRecvEnqueue_tame _ k _) hfits, fun _ => ?_⟩
        exact (Core.Intact.of_keeps_off (chanRecvEnqueue_keeps h.inv hk d.payload)
          (rqTail_empty h.inv hk)).mono fun _ _ _ => trivial
      · simp only [acceptDataReliable, htotal, if_true, Conn.lift_toCore]
        refine ⟨iff_of_true ((deliverReliable_tame c k d.seq d.payload).trans
          (Core.Tame.of_log rfl)) hfits, fun _ => ?_⟩
        exact ((deliverReliable_intact h.inv hk hs.drained d.seq d.payload).mono
          fun _ _ _ => trivial).trans_keeps (setNeedAck_keeps _ _ k)
    · obtain ⟨h1, ht1, hsome⟩ := fragReceive_spec h.inv hk d.seq d.fragIdx.toNat
        (Nat.not_le.1 htotal) d.payload
      have hs1 := fragReceive_settled hs d.seq d.fragIdx.toNat d.fragTotal.toNat d.payload
      split_ifs
      · simp only [acceptDataUnreliable, htotal, if_false]
        refine tame_iff_of_finish h.inv hk hid hrole (Nat.not_le.1 htotal) ?_ fun i hi => ?_
        all_goals
          generalize fragReceive c.toCore k d.seq d.fragIdx.toNat d.fragTotal.toNat
            d.payload = res at *
          obtain ⟨s, _ | ⟨j, pos⟩⟩ := res
        · exact Core.Tame.of_log rfl
        · rw [Conn.lift_toCore, evPush_toCore]
          exact (chanRecvEnqueue_tame _ k _).trans (fragFree_tame _ k j)
        · exact Core.Intact.of_keeps hi
        · rw [Conn.lift_toCore, evPush_toCore]
          have henq := Core.Intact.of_keeps_off (chanRecvEnqueue_keeps h1 (ht1.used hk)
            (s.bytes (poolPtr ((s.chanPool k).frags j).buf) pos)) (rqTail_empty h1 (ht1.used hk))
          exact (Core.Intact.keeps_trans hi (henq.mono fun _ _ _ => trivial)).fragFree
            (hsome j pos rfl).1
      · simp only [acceptDataReliable, htotal, if_false, Conn.lift_toCore]
        refine tame_iff_of_finish h.inv hk hid hrole (Nat.not_le.1 htotal) ?_ fun i hi => ?_
        all_goals
          generalize fragReceive c.toCore k d.seq d.fragIdx.toNat d.fragTotal.toNat
            d.payload = res at *
          obtain ⟨s, _ | ⟨j, pos⟩⟩ := res
        · exact Core.Tame.of_log rfl
        · rw [Conn.lift_toCore]
          exact ((deliverReliable_tame { c with toCore := s } k _ _).trans
            (fragFree_tame _ k j)).trans (Core.Tame.of_log rfl)
        · exact (Core.Intact.of_keeps hi).trans_keeps (setNeedAck_keeps _ _ k)
        · rw [Conn.lift_toCore]
          have hdel := deliverReliable_intact (c := { c with toCore := s }) h1 (ht1.used hk)
            hs1.drained d.seq (s.bytes (poolPtr ((s.chanPool k).frags j).buf) pos)
          exact ((Core.Intact.keeps_trans hi (hdel.mono fun _ _ _ => trivial)).fragFree
            (hsome j pos rfl).1).trans_keeps (setNeedAck_keeps _ _ k)

/-! ## Runs of data frames -/

def Conn.dataRun (c : Conn) (ds : List DataFrame) : Conn := ds.foldl Conn.data c

theorem dataRun_good {c : Conn} (h : c.toCore.Good) (ds : List DataFrame) :
    (c.dataRun ds).toCore.Good := by
  induction ds generalizing c with
  | nil => exact h
  | cons d ds ih => exact ih (acceptData_good h d.id d.seq _ _ d.payload)

theorem data_log_append {c : Conn} (h : c.toCore.Good) (d : DataFrame) :
    ∃ ms, (c.data d).log = c.log ++ ms := by
  unfold Conn.data acceptData
  cases hid : c.channels d.id with
  | none => exact ⟨[], by simp⟩
  | some k =>
    obtain ⟨-, hk, -⟩ := h.inv.table _ k hid
    dsimp only
    split_ifs with hrole
    · exact ⟨[], by simp⟩
    · exact (acceptDataUnreliable_spec h hk d.seq _ _ d.payload).2.log_append
    · exact (acceptDataReliable_spec h hk (not_not.1 hrole) d.seq _ _ d.payload).2.log_append

theorem dataRun_log_append {c : Conn} (h : c.toCore.Good) (ds : List DataFrame) :
    ∃ ms, (c.dataRun ds).log = c.log ++ ms := by
  induction ds generalizing c with
  | nil => exact ⟨[], by simp [Conn.dataRun]⟩
  | cons d ds ih =>
    obtain ⟨ms, hms⟩ := data_log_append h d
    obtain ⟨ms', hms'⟩ := ih (acceptData_good h d.id d.seq _ _ d.payload)
    exact ⟨ms ++ ms', hms'.trans (by rw [← List.append_assoc, ← hms]; rfl)⟩

theorem dataRun_tame_iff {c : Conn} (h : c.toCore.Good) (ds : List DataFrame) :
    Core.Tame c.toCore (c.dataRun ds).toCore ↔
      ∀ pre d post, ds = pre ++ d :: post → DataFits (c.dataRun pre) d := by
  induction ds generalizing c with
  | nil => exact iff_of_true (Core.Tame.of_log rfl) fun pre d post hds => by simp at hds
  | cons d ds ih =>
    have h1 : (c.data d).toCore.Good := acceptData_good h d.id d.seq _ _ d.payload
    have hsplit : Core.Tame c.toCore (c.dataRun (d :: ds)).toCore ↔
        Core.Tame c.toCore (c.data d).toCore ∧
          Core.Tame (c.data d).toCore ((c.data d).dataRun ds).toCore :=
      ⟨fun ht => ht.of_trans (data_log_append h d) (dataRun_log_append h1 ds),
        fun ht => ht.1.trans ht.2⟩
    rw [hsplit, (data_tame_iff h d).1, ih h1]
    constructor
    · rintro ⟨hd, hds⟩ pre d' post heq
      cases pre with
      | nil =>
        obtain ⟨rfl, rfl⟩ := List.cons.inj heq
        exact hd
      | cons d'' pre =>
        obtain ⟨rfl, htail⟩ := List.cons.inj heq
        exact hds pre d' post htail
    · intro hall
      refine ⟨hall [] d ds rfl, fun pre d' post heq => ?_⟩
      exact hall (d :: pre) d' post (by rw [heq]; rfl)

/-- From any reachable state, the fragment writes of a sequence of DATA frames all stay inside the
buffers of their slots exactly if no frame completes a message longer than a buffer; and then no
frame disturbs another slot or what lies behind the pool. -/
theorem data_writes_contained (server : Bool) (cfg : Cfg) (acts : List Act)
    (ds : List DataFrame) :
    (Core.Tame ((netchanOpen server cfg).run acts).toCore
        (((netchanOpen server cfg).run acts).dataRun ds).toCore ↔
      ∀ pre d post, ds = pre ++ d :: post →
        DataFits (((netchanOpen server cfg).run acts).dataRun pre) d) ∧
    ∀ d, DataFits (((netchanOpen server cfg).run acts).dataRun ds) d →
      Core.Intact (OtherSlot (((netchanOpen server cfg).run acts).dataRun ds) d)
        (((netchanOpen server cfg).run acts).dataRun ds).toCore
        ((((netchanOpen server cfg).run acts).dataRun ds).data d).toCore := by
  have h := ((reachable_open server cfg).run acts).good
  exact ⟨dataRun_tame_iff h ds, fun d => (data_tame_iff (dataRun_good h ds) d).2⟩

/-- A connection with fragments of at most 64 bytes and one reliable channel to receive on. -/
def smallReceiver : Conn :=
  (netchanOpen true { netchanCfgDefault with mtu := 79 }).run
    [.feed quietEnv [0x01, 0, 0, 0, 5, 0x07, 0, 0, 0, 0] none]

/-- Two fragments of 1025 and 1024 bytes are each accepted; compaction writes 1024 bytes
from byte 1025 of buffer 63 on, one past the end of the pool. -/
theorem compaction_escapes :
    ¬Core.Tame smallReceiver.toCore (smallReceiver.dataRun
      [⟨0, 0, 0, 2, List.replicate 1025 0⟩, ⟨0, 0, 1, 2, List.replicate 1024 0⟩]).toCore := by
  rintro ⟨ms, hlog, hms⟩
  have hempty : smallReceiver.log = [] := by decide +kernel
  have hmem : Mark.fragWrite 0 (some 63) (63 * 2048 + 1025) 1024 ∈ (smallReceiver.dataRun
      [⟨0, 0, 0, 2, List.replicate 1025 0⟩, ⟨0, 0, 1, 2, List.replicate 1024 0⟩]).log := by
    decide +kernel
  rw [hlog, hempty, List.nil_append] at hmem
  obtain ⟨b, -, hb, hin⟩ := hms _ hmem
  cases hb
  exact absurd (hin (64 * 2048) (by decide) (by decide)).2 (by decide)

end MechanicalResearcher.NetchanV2
