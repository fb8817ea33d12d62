import MechanicalResearcher.NetchanV2.Calls

/-!
# The bytes of the buffers

An operation on a slot leaves the buffers of all other slots alone, and what a
slot was given is what it holds.  `Keeps K` says this for the slots in `K`; the
buffers are pairwise distinct, so it composes.
-/

namespace MechanicalResearcher.NetchanV2

open Lib Lib.Serial Lib.Ownership

/-- From `s` to `s'` the slots in `K` keep their buffers and the bytes in them, and
nothing behind the pool was written. -/
structure Core.Keeps (K : Nat → Slot → Prop) (s s' : Core) : Prop where
  buf : ∀ k x, K k x → s'.bufAt (.slot k x) = s.bufAt (.slot k x)
  store : ∀ k x b, K k x → s.bufAt (.slot k x) = some b → ∀ i < ncMaxMsg,
    s'.poolStore (b * ncMaxMsg + i) = s.poolStore (b * ncMaxMsg + i)
  behind : ∀ a, ncPoolBufs * ncMaxMsg ≤ a → s'.poolStore a = s.poolStore a

theorem buf_end_le {b b' : Nat} (h : b < b') : b * ncMaxMsg + ncMaxMsg ≤ b' * ncMaxMsg := by
  have hle := Nat.mul_le_mul_right ncMaxMsg h
  rwa [Nat.succ_mul] at hle

/-- All slots but one. -/
def Off (k : Nat) (x : Slot) (j : Nat) (y : Slot) : Prop := ¬(j = k ∧ y = x)

namespace Core.Keeps

variable {K K' : Nat → Slot → Prop} {s s' s'' : Core} {k : Nat}

theorem refl (K : Nat → Slot → Prop) (s : Core) : Keeps K s s :=
  ⟨fun _ _ _ => rfl, fun _ _ _ _ _ _ _ => rfl, fun _ _ => rfl⟩

theorem trans (h : Keeps K s s') (h' : Keeps K s' s'') : Keeps K s s'' where
  buf k x hx := (h'.buf k x hx).trans (h.buf k x hx)
  store k x b hx hb i hi :=
    (h'.store k x b hx ((h.buf k x hx).trans hb) i hi).trans (h.store k x b hx hb i hi)
  behind a ha := (h'.behind a ha).trans (h.behind a ha)

theorem mono (h : Keeps K s s') (hK : ∀ k x, K' k x → K k x) : Keeps K' s s' :=
  ⟨fun k x hx => h.buf k x (hK k x hx), fun k x b hx => h.store k x b (hK k x hx), h.behind⟩

theorem bytes (h : Keeps K s s') {x : Slot} {b n : Nat} (hx : K k x)
    (hb : s.bufAt (.slot k x) = some b) (hn : n ≤ ncMaxMsg) :
    s'.bytes (poolPtr (some b)) n = s.bytes (poolPtr (some b)) n := by
  apply Memory.read_congr
  intro i hi
  exact h.store k x b hx hb i (by omega)

theorem of_store (hbuf : ∀ k x, K k x → s'.bufAt (.slot k x) = s.bufAt (.slot k x))
    (hstore : s'.poolStore = s.poolStore) : Keeps K s s' :=
  ⟨hbuf, fun _ _ _ _ _ _ _ => by rw [hstore], fun _ _ => by rw [hstore]⟩

theorem mark (K : Nat → Slot → Prop) (s : Core) (m : Mark) : Keeps K s (s.mark m) :=
  of_store (fun _ _ _ => rfl) rfl

theorem modChan (s : Core) (k : Nat) {f : Chan → Chan}
    (hf : ∀ x, K k x → (f (s.chanPool k)).bufAt x = (s.chanPool k).bufAt x) :
    Keeps K s (s.modChan k f) := by
  refine of_store (fun j x hx => ?_) rfl
  by_cases hj : j = k
  · subst hj
    simp [Core.bufAt, Core.modChan, hf x hx]
  · simp [Core.bufAt, Core.modChan, Function.update_of_ne hj]

theorem poolPut (K : Nat → Slot → Prop) (s : Core) (b : Option Nat) :
    Keeps K s (poolPut s b) := by
  cases b <;> exact of_store (fun _ _ _ => rfl) rfl

theorem writeFree (h : s.Inv) (htop : 0 < s.poolFreeTop) {data : List UInt8}
    (hlen : data.length ≤ ncMaxMsg)
    (hbuf : ∀ k x, K k x → s'.bufAt (.slot k x) = s.bufAt (.slot k x))
    (hstore : s'.poolStore =
      (s.memcpy (s.poolFree (s.poolFreeTop - 1) * ncMaxMsg) data).poolStore) :
    Keeps K s s' := by
  have hfree : s.bufAt (.free (s.poolFreeTop - 1)) = some (s.poolFree (s.poolFreeTop - 1)) := by
    simp [Core.bufAt, htop]
  have hlt := h.pool.mem _ _ hfree
  simp only [poolBufs, Set.mem_ofPred_eq] at hlt
  refine ⟨hbuf, fun j y b _ hb i hi => ?_, fun a ha => ?_⟩
  · -- the buffer of a slot is not on the free stack
    have hne : b ≠ s.poolFree (s.poolFreeTop - 1) := by
      rintro rfl
      cases h.pool.inj hb hfree
    rw [hstore]
    rcases Nat.lt_or_gt_of_ne hne with hlt' | hgt
    · have hend := buf_end_le hlt'
      apply Memory.write_apply_of_lt
      omega
    · have hend := buf_end_le hgt
      apply Memory.write_apply_of_ge
      omega
  · have hend := buf_end_le hlt
    rw [hstore]
    apply Memory.write_apply_of_ge
    omega

theorem takeInto (h : s.Inv) (htop : 0 < s.poolFreeTop) {data : List UInt8}
    (hlen : data.length ≤ ncMaxMsg) {f : Nat → Chan → Chan} {x : Slot}
    (hbuf : ∀ b, (f b (s.chanPool k)).bufAt = Function.update (s.chanPool k).bufAt x (some b)) :
    Keeps (Off k x) s (s.takeInto k data f) := by
  refine writeFree h htop hlen (fun j y hy => ?_) rfl
  by_cases hj : j = k
  · subst hj
    have hyx : y ≠ x := fun e => hy ⟨rfl, e⟩
    simp [Core.bufAt, Core.takeInto, hbuf, Function.update_of_ne hyx]
  · simp [Core.bufAt, Core.takeInto, Function.update_of_ne hj]

end Core.Keeps

theorem takeInto_bytes (s : Core) (k : Nat) (data : List UInt8) (f : Nat → Chan → Chan) :
    (s.takeInto k data f).bytes (poolPtr (some (s.poolFree (s.poolFreeTop - 1)))) data.length =
      data :=
  Memory.read_write_self _ _ _

theorem chanRecvEnqueue_keeps {s : Core} {k : Nat} (h : s.Inv) (hk : s.chanUsed k = true)
    (data : List UInt8) :
    Core.Keeps (Off k (.recvQueue (s.chanPool k).rqTail)) s (chanRecvEnqueue s k data).1 := by
  rw [chanRecvEnqueue_fst]
  split_ifs with hcan
  · exact (Core.Keeps.takeInto h hcan.2.2 hcan.2.1
      fun b => bufAt_enqueued _ b _ (h.chans k hk).queue.tail_lt).trans (Core.Keeps.mark _ _ _)
  · exact Core.Keeps.mark _ _ _

theorem reorderStore_keeps {s : Core} {k : Nat} (h : s.Inv) (seq : UInt16) {data : List UInt8}
    (hlen : data.length ≤ ncMaxMsg) :
    Core.Keeps (Off k (.reorder (seq.toNat % ncReorderSlots))) s (reorderStore s k seq data) := by
  rw [reorderStore_eq]
  split_ifs with htop
  · refine Core.Keeps.takeInto h htop hlen fun b => ?_
    rw [bufAt_reordered _ _ _ (Nat.mod_lt _ (by decide))]
    rfl
  · exact Core.Keeps.refl _ _

theorem reorderRelease_keeps (s : Core) (k : Nat) {slot : Nat} (hslot : slot < 64) :
    Core.Keeps (Off k (.reorder slot)) s (reorderRelease s k slot) := by
  rw [reorderRelease_eq]
  refine (Core.Keeps.poolPut _ s _).trans (Core.Keeps.modChan _ k fun x hx => ?_)
  have hne : x ≠ .reorder slot := fun e => hx ⟨rfl, e⟩
  rw [bufAt_reordered _ _ _ hslot, Function.update_of_ne hne]

theorem bumpRecvSeq_keeps (K : Nat → Slot → Prop) (s : Core) (k : Nat) :
    Core.Keeps K s (bumpRecvSeq s k) :=
  (Core.Keeps.modChan s k fun x _ => by cases x <;> rfl).trans (Core.Keeps.mark _ _ _)

theorem setNeedAck_keeps (K : Nat → Slot → Prop) (s : Core) (k : Nat) :
    Core.Keeps K s (setNeedAck s k) :=
  Core.Keeps.modChan s k fun x _ => by cases x <;> rfl

theorem fragFree_keeps (s : Core) (k : Nat) {i : Nat} (hi : i < 4) :
    Core.Keeps (Off k (.frag i)) s (fragFree s k i) := by
  rw [fragFree_eq]
  refine (Core.Keeps.poolPut _ s _).trans (Core.Keeps.modChan _ k fun x hx => ?_)
  have hne : x ≠ .frag i := fun e => hx ⟨rfl, e⟩
  rw [bufAt_refragged _ _ _ hi, Function.update_of_ne hne]

theorem deliverCore_keeps {s : Core} {k : Nat} (h : s.Inv) (hk : s.chanUsed k = true) :
    Core.Keeps (fun j y => Off k (.recvQueue (s.chanPool k).rqTail) j y ∧
      Off k (.reorder ((s.chanPool k).recvSeq.toNat % ncReorderSlots)) j y) s
      (deliverCore s k) := by
  have hslot : (s.chanPool k).recvSeq.toNat % 64 < 64 := Nat.mod_lt _ (by decide)
  simp only [deliverCore]
  exact (((chanRecvEnqueue_keeps h hk _).mono fun _ _ hy => hy.1).trans
    ((reorderRelease_keeps _ k hslot).mono fun _ _ hy => hy.2)).trans (bumpRecvSeq_keeps _ _ k)

theorem keeps_of_frag_write {s s' : Core} {k i b : Nat} (h : s.Inv) (hk : s.chanUsed k = true)
    (hi : i < 4) (hact : ((s.chanPool k).frags i).active = true)
    (hb : ((s.chanPool k).frags i).buf = some b)
    (hbuf : ∀ j y, Off k (.frag i) j y → s'.bufAt (.slot j y) = s.bufAt (.slot j y))
    (hstore : ∀ a, a < b * ncMaxMsg ∨ b * ncMaxMsg + ncMaxMsg ≤ a →
      s'.poolStore a = s.poolStore a) :
    Core.Keeps (Off k (.frag i)) s s' := by
  have hslot : s.bufAt (.slot k (.frag i)) = some b := by
    simp [Core.bufAt, Chan.bufAt, hk, hi, hact, hb]
  have hlt := h.pool.mem _ _ hslot
  simp only [poolBufs, Set.mem_ofPred_eq] at hlt
  refine ⟨hbuf, fun j y b' hy hb' n hn => hstore _ ?_, fun a ha => hstore a ?_⟩
  · have hne : b' ≠ b := by
      rintro rfl
      have hloc := h.pool.inj hb' hslot
      simp only [Loc.slot.injEq] at hloc
      exact hy hloc
    rcases Nat.lt_or_gt_of_ne hne with hlt' | hgt
    · have hend := buf_end_le hlt'
      left
      omega
    · have hend := buf_end_le hgt
      right
      exact hend.trans (Nat.le_add_right _ _)
  · exact Or.inr ((buf_end_le hlt).trans ha)

theorem fragStore_keeps {s : Core} {k i fragIdx : Nat} {payload : List UInt8} (h : s.Inv)
    (hk : s.chanUsed k = true) (hi : i < 4) (hact : ((s.chanPool k).frags i).active = true)
    (hfits : fragIdx * maxFragPayload s.cfg + payload.length ≤ ncMaxMsg) :
    Core.Keeps (Off k (.frag i)) s (fragStore s k i fragIdx payload) := by
  obtain ⟨b, hb⟩ := ((h.chans k hk).frag i hi hact).buf
  refine keeps_of_frag_write h hk hi hact hb (fun j y hy => ?_) fun a ha => ?_
  · rw [fragStore_eq]
    by_cases hj : j = k
    · subst hj
      have hne : y ≠ .frag i := fun e => hy ⟨rfl, e⟩
      simp [Core.bufAt, Core.modChan, Core.mark, Core.memcpy, bufAt_refragged _ _ _ hi,
        Function.update_of_ne hne]
    · simp [Core.bufAt, Core.modChan, Core.mark, Core.memcpy, Function.update_of_ne hj]
  · rw [fragStore_eq]
    simp only [Core.modChan, Core.mark, Core.memcpy, hb, poolPtr, Option.getD_some]
    rcases ha with ha | ha
    · exact Memory.write_apply_of_lt (ha.trans_le (Nat.le_add_right _ _))
    · apply Memory.write_apply_of_ge
      rw [Nat.add_assoc]
      exact (Nat.add_le_add_left hfits _).trans ha

end MechanicalResearcher.NetchanV2
