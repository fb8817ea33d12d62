import MechanicalResearcher.NetchanV2.Fragments

/-!
# Gathering the fragments of a message

The pieces of one message may come in any order and more than once.  The slot of the message
depends on which of them came, not on the order; with the last missing one it is compacted to
the message, and until then nothing is handed over.
-/

namespace MechanicalResearcher.NetchanV2

open Lib Lib.Serial Lib.Pieces

theorem fragFind_eq_none {ch : Chan} {seq : UInt16} :
    fragFind ch seq = none ↔
      ∀ i < ncFragSlots, ¬((ch.frags i).active = true ∧ (ch.frags i).seq = seq) := by
  simp [fragFind]

theorem fragFind_congr {ch ch' : Chan} {seq : UInt16}
    (h : ∀ i, (ch'.frags i).active = (ch.frags i).active ∧ (ch'.frags i).seq = (ch.frags i).seq) :
    fragFind ch' seq = fragFind ch seq := by
  unfold fragFind
  congr 1
  funext i
  rw [(h i).1, (h i).2]

theorem fragFind_claimed {ch : Chan} {seq : UInt16} (h : fragFind ch seq = none) {i : Nat}
    (hi : i < ncFragSlots) {f : FragAsm} (hact : f.active = true) (hseq : f.seq = seq) :
    fragFind (ch.refragged i f) seq = some i := by
  rw [fragFind_eq_none] at h
  simp only [fragFind, Chan.refragged, List.find?_range_eq_some, List.mem_range]
  refine ⟨by simp [hact, hseq], hi, fun j hj => ?_⟩
  rw [Function.update_of_ne (Nat.ne_of_lt hj)]
  have hother := h j (hj.trans hi)
  grind

theorem fragAlloc_claims {s : Core} {k : Nat} {n : Nat} (seq : UInt16) (hn : n ≤ ncMaxFrags)
    (hidle : ∃ i < ncFragSlots, ((s.chanPool k).frags i).active = false)
    (htop : 0 < s.poolFreeTop) :
    ∃ i < ncFragSlots, fragAlloc s k seq n =
      (s.takeInto k [] fun b ch => ch.refragged i (FragAsm.claimed seq n b), some i) := by
  rcases fragAlloc_cases s k seq n with hfail | ⟨i, hi, -, -, -, heq⟩
  · obtain ⟨i, hi, hidle⟩ := hidle
    unfold fragAlloc at hfail
    rw [if_neg (by omega)] at hfail
    cases hfind : (List.range ncFragSlots).find? fun i => !((s.chanPool k).frags i).active with
    | none =>
      rw [List.find?_eq_none] at hfind
      simpa [hidle] using hfind i (List.mem_range.mpr hi)
    | some j =>
      rw [hfind] at hfail
      simp only [poolGet, if_neg (Nat.ne_of_gt htop)] at hfail
      cases (Prod.mk.inj hfail).2
  · exact ⟨i, hi, heq⟩

/-- Slot `i` gathers the message `d` of `n` pieces, and has the pieces `ts`. -/
structure Gathers (s : Core) (k i : Nat) (seq : UInt16) (n : Nat) (d : List UInt8)
    (ts : List Nat) : Prop where
  find : fragFind (s.chanPool k) seq = some i
  total : ((s.chanPool k).frags i).total = n
  holds : Holds s ((s.chanPool k).frags i) d
  bits : ∀ t, ((s.chanPool k).frags i).bitmask.testBit t = true ↔ t ∈ ts

section Gathers

variable {s : Core} {k i n : Nat} {seq : UInt16} {d : List UInt8} {ts : List Nat}

theorem Gathers.congr (h : Gathers s k i seq n d ts) {us : List Nat} (hus : ∀ t, t ∈ us ↔ t ∈ ts) :
    Gathers s k i seq n d us :=
  ⟨h.find, h.total, h.holds, fun t => (h.bits t).trans (hus t).symm⟩

theorem Gathers.frag (h : Gathers s k i seq n d ts) (hinv : s.Inv) (hk : s.chanUsed k = true) :
    i < ncFragSlots ∧ ((s.chanPool k).frags i).active = true ∧
      FragInv (maxFragPayload s.cfg) ((s.chanPool k).frags i) := by
  obtain ⟨hi, hact, -⟩ := fragFind_some h.find
  exact ⟨hi, hact, (hinv.chans k hk).frag i hi hact⟩

theorem Gathers.complete_iff (h : Gathers s k i seq n d ts) (hinv : s.Inv)
    (hk : s.chanUsed k = true) :
    ((s.chanPool k).frags i).haveN = ((s.chanPool k).frags i).total ↔ ∀ t < n, t ∈ ts := by
  obtain ⟨-, -, hfrag⟩ := h.frag hinv hk
  constructor
  · intro hfull t ht
    exact (h.bits t).mp (hfrag.complete hfull (by rw [h.total]; exact ht))
  · intro hall
    rw [← hfrag.count, Finset.filter_true_of_mem, Finset.card_range]
    intro t ht
    rw [Finset.mem_range, h.total] at ht
    exact (h.bits t).mpr (hall t ht)

theorem Gathers.bytes (h : Gathers s k i seq n d ts) (hall : ∀ t < n, t ∈ ts) :
    s.bytes (poolPtr ((s.chanPool k).frags i).buf) d.length = d :=
  (h.holds.compact (k := k) fun t ht => (h.bits t).mpr (hall t (by rwa [h.total] at ht))).2

theorem Gathers.cut (h : Gathers s k i seq n d ts) : Cut (maxFragPayload s.cfg) n d :=
  h.total ▸ h.holds.cut

theorem Gathers.accepts_iff (h : Gathers s k i seq n d ts) (hlen : d.length ≤ ncMaxMsg) {t : Nat}
    (ht : t < n) :
    ((s.chanPool k).frags i).accepts s.cfg t (piece (maxFragPayload s.cfg) d t).length ↔
      t ∉ ts := by
  have hend := h.cut.end_le ht
  unfold FragAsm.accepts
  rw [h.total, ← h.bits t, Bool.not_eq_true]
  exact ⟨fun hacc => hacc.2.1, fun hnew => ⟨ht, hnew, by omega⟩⟩

theorem Gathers.store (h : Gathers s k i seq n d ts) {t : Nat} (ht : t < n) :
    Gathers (fragStore s k i t (piece (maxFragPayload s.cfg) d t)) k i seq n d (t :: ts) := by
  have hfrag := fragStore_frag s k i t (piece (maxFragPayload s.cfg) d t)
  refine ⟨?_, by rw [hfrag]; exact h.total, h.holds.stored (by rw [h.total]; exact ht) rfl, ?_⟩
  · rw [← h.find]
    refine fragFind_congr fun j => ?_
    by_cases hj : j = i
    · subst hj
      rw [hfrag]
      exact ⟨rfl, rfl⟩
    · simp [fragStore_eq, Core.modChan, Core.mark, Core.memcpy, Chan.refragged,
        Function.update_of_ne hj]
  · intro u
    rw [hfrag, FragAsm.stored, FragInv.testBit_or_bit, h.bits, List.mem_cons, or_comm]

theorem Gathers.claimed (hcut : Cut (maxFragPayload s.cfg) n d)
    (hnone : fragFind (s.chanPool k) seq = none) (hi : i < ncFragSlots) :
    Gathers (s.takeInto k [] fun b ch => ch.refragged i (FragAsm.claimed seq n b)) k i seq n d
      [] := by
  have hchan : (s.takeInto k [] fun b ch => ch.refragged i (FragAsm.claimed seq n b)).chanPool k =
      (s.chanPool k).refragged i
        (FragAsm.claimed seq n (s.poolFree (s.poolFreeTop - 1))) := by
    simp [Core.takeInto]
  have hslot : ((s.chanPool k).refragged i (FragAsm.claimed seq n
      (s.poolFree (s.poolFreeTop - 1)))).frags i =
        FragAsm.claimed seq n (s.poolFree (s.poolFreeTop - 1)) := by
    simp [Chan.refragged]
  refine ⟨?_, ?_, ?_, ?_⟩
  · rw [hchan]
    exact fragFind_claimed hnone hi rfl rfl
  · rw [hchan, hslot]
    rfl
  · rw [hchan, hslot]
    exact ⟨hcut, fun t _ hbit => by simp [FragAsm.claimed, FragAsm.zero] at hbit⟩
  · rw [hchan, hslot]
    simp [FragAsm.claimed, FragAsm.zero]

end Gathers

/-- The channel can take the message: no piece came yet and there are a slot and two buffers
left, or some pieces came and there is a buffer left. -/
def Ready (s : Core) (k : Nat) (seq : UInt16) (n : Nat) (d : List UInt8) (ts : List Nat) : Prop :=
  (ts = [] ∧ fragFind (s.chanPool k) seq = none ∧
      (∃ i < ncFragSlots, ((s.chanPool k).frags i).active = false) ∧ 1 < s.poolFreeTop) ∨
    (0 < s.poolFreeTop ∧ ∃ i, Gathers s k i seq n d ts)

section Ready

variable {s : Core} {k n : Nat} {seq : UInt16} {d : List UInt8} {ts : List Nat}

theorem Ready.slot (h : Ready s k seq n d ts) (hcut : Cut (maxFragPayload s.cfg) n d)
    (hn : n ≤ ncMaxFrags) :
    0 < (fragSlot s k seq n).1.poolFreeTop ∧ (fragSlot s k seq n).1.cfg = s.cfg ∧
      ∃ i, (fragSlot s k seq n).2 = some i ∧ Gathers (fragSlot s k seq n).1 k i seq n d ts := by
  rcases h with ⟨rfl, hnone, hidle, htop⟩ | ⟨htop, i, hi⟩
  · obtain ⟨i, hi, heq⟩ := fragAlloc_claims seq hn hidle (by omega)
    have hslot : fragSlot s k seq n =
        (s.takeInto k [] fun b ch => ch.refragged i (FragAsm.claimed seq n b), some i) := by
      rw [fragSlot, hnone]
      exact heq
    rw [hslot]
    refine ⟨?_, rfl, i, rfl, Gathers.claimed hcut hnone hi⟩
    simp only [Core.takeInto]
    omega
  · have hslot : fragSlot s k seq n = (s, some i) := by rw [fragSlot, hi.find]
    rw [hslot]
    exact ⟨htop, rfl, i, rfl, hi⟩

theorem Ready.receive (h : Ready s k seq n d ts) (hinv : s.Inv) (hk : s.chanUsed k = true)
    (hcut : Cut (maxFragPayload s.cfg) n d) (hn : n ≤ ncMaxFrags) (hn1 : 1 < n)
    (hlen : d.length ≤ ncMaxMsg) (hmissing : ¬∀ t < n, t ∈ ts) {t : Nat} (ht : t < n) :
    ∃ s' i, 0 < s'.poolFreeTop ∧ Gathers s' k i seq n d (t :: ts) ∧
      fragReceive s k seq t n (piece (maxFragPayload s.cfg) d t) =
        (s', if ∀ u < n, u ∈ t :: ts then some (i, d.length) else none) := by
  obtain ⟨htop, hcfg, i, hslot, hg⟩ := h.slot hcut hn
  obtain ⟨hinv1, htouch, -⟩ := fragSlot_spec hinv hk seq hn1
  have hpair : fragSlot s k seq n = ((fragSlot s k seq n).1, some i) := by rw [← hslot]
  generalize hs1 : (fragSlot s k seq n).1 = s1 at htop hcfg hg hinv1 htouch hpair
  have hk1 := htouch.used hk
  have hacc := hg.accepts_iff hlen ht
  rw [hcfg] at hacc
  unfold fragReceive
  rw [hpair]
  dsimp only
  by_cases hold : t ∈ ts
  · have hsame : ∀ u, u ∈ t :: ts ↔ u ∈ ts := by
      intro u
      simp only [List.mem_cons, or_iff_right_iff_imp]
      rintro rfl
      exact hold
    rw [hcfg, if_neg (by rw [hacc]; exact not_not.mpr hold)]
    refine ⟨s1, i, htop, hg.congr hsame, ?_⟩
    rw [if_neg (by simpa only [hsame])]
  · obtain ⟨hi, hact, hfrag⟩ := hg.frag hinv1 hk1
    have hacc' := hacc.mpr hold
    rw [hcfg, if_pos hacc']
    have hstored := hg.store ht
    have hinv2 := fragStore_inv hinv1 hk1 hi hact hacc'.1 hacc'.2.1
      (by rw [hcfg]; exact hacc'.2.2)
    have hk2 := (fragStore_touch s1 k i t (piece (maxFragPayload s.cfg) d t)).used hk1
    rw [hcfg] at hstored
    generalize hs2 : fragStore s1 k i t (piece (maxFragPayload s.cfg) d t) = s2 at hstored hinv2 hk2
    have htop2 : s2.poolFreeTop = s1.poolFreeTop := by rw [← hs2]; rfl
    refine ⟨s2, i, by omega, hstored, ?_⟩
    have hfull := hstored.complete_iff hinv2 hk2
    by_cases hall : ∀ u < n, u ∈ t :: ts
    · have hbits : ∀ u < ((s2.chanPool k).frags i).total,
          ((s2.chanPool k).frags i).bitmask.testBit u = true := by
        intro u hu
        rw [hstored.total] at hu
        exact (hstored.bits u).mpr (hall u hu)
      rw [if_pos hall, if_pos (hfull.mpr hall), (hstored.holds.compact (k := k) hbits).1]
    · rw [if_neg hall, if_neg fun e => hall (hfull.mp e)]

end Ready

end MechanicalResearcher.NetchanV2
