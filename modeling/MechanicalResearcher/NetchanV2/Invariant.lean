import Mathlib.Data.Finset.Card
import Mathlib.Data.Finset.Range
import MechanicalResearcher.Lib.Ownership
import MechanicalResearcher.NetchanV2.Api

/-!
# The invariant of the tables

What holds of the channel table, the channel records and the buffer pool in
every reachable state, whatever the peer sends.  Buffers are spread over
locations: the cells of the free stack and the slots of the channel records.
Every call moves a buffer between two locations or leaves the map alone, which
`Inv.take` and `Inv.give` say once for all of them.
-/

namespace MechanicalResearcher.NetchanV2

open Lib.Serial Lib.Ownership

/-! ## Rings -/

/-- Index `i` lies in the occupied part `[h, t)` of a ring of 64 entries. -/
def InRing (h t i : Nat) : Prop := (i + 64 - h) % 64 < (t + 64 - h) % 64

theorem not_inRing_tail {h t : Nat} : ¬InRing h t t := by
  unfold InRing
  omega

theorem inRing_push {h t i : Nat} (hh : h < 64) (ht : t < 64) (hi : i < 64)
    (hroom : (t + 1) % 64 ≠ h) : InRing h ((t + 1) % 64) i ↔ InRing h t i ∨ i = t := by
  unfold InRing
  omega

theorem inRing_pop {h t i : Nat} (hh : h < 64) (ht : t < 64) (hi : i < 64) (hne : h ≠ t) :
    InRing ((h + 1) % 64) t i ↔ InRing h t i ∧ i ≠ h := by
  unfold InRing
  omega

/-! ## Channel records -/

/-- The slots of a channel record that can hold a buffer. -/
inductive Slot
  | outgoing (i : Nat)
  | recvQueue (i : Nat)
  | reorder (i : Nat)
  | frag (i : Nat)
  deriving DecidableEq

def Chan.bufAt (ch : Chan) : Slot → Option Nat
  | .outgoing i =>
    if i < ncOutgoingSlots ∧ (ch.outgoing i).active = true then (ch.outgoing i).buf else none
  | .recvQueue i => if i < ncRecvQueue then (ch.recvQueue i).buf else none
  | .reorder i =>
    if i < ncReorderSlots ∧ (ch.reorder i).valid = true then (ch.reorder i).buf else none
  | .frag i => if i < ncFragSlots ∧ (ch.frags i).active = true then (ch.frags i).buf else none

/-- The send ring: slots outside it are idle, active slots own a message. -/
structure OutInv (out : Nat → Outgoing) (head tail : Nat) : Prop where
  head_lt : head < 64
  tail_lt : tail < 64
  idle : ∀ i < 64, ¬InRing head tail i → (out i).active = false
  busy : ∀ i < 64, (out i).active = true →
    (∃ b, (out i).buf = some b) ∧ (out i).len ≤ ncMaxMsg

/-- The receive ring. -/
structure QueueInv (q : Nat → RecvEntry) (head tail : Nat) : Prop where
  head_lt : head < 64
  tail_lt : tail < 64
  idle : ∀ i < 64, ¬InRing head tail i → (q i).buf = none
  busy : ∀ i < 64, InRing head tail i → (∃ b, (q i).buf = some b) ∧ (q i).len ≤ ncMaxMsg

/-- The reorder table: slot `i` holds a number congruent to `i`, less than 64 ahead. -/
structure ReorderInv (r : Nat → Reorder) (recvSeq : UInt16) : Prop where
  busy : ∀ i < 64, (r i).valid = true → (∃ b, (r i).buf = some b) ∧ (r i).len ≤ ncMaxMsg
  place : ∀ i < 64, (r i).valid = true → (r i).seq.toNat % 64 = i
  window : ∀ i < 64, (r i).valid = true →
    0 ≤ int16 ((r i).seq - recvSeq) ∧ int16 ((r i).seq - recvSeq) < 64

/-- One fragment slot: the stored fragments are those of the bit mask, `haveN` of
them, and each lies inside the scratch buffer. -/
structure FragInv (fp : Nat) (f : FragAsm) : Prop where
  buf : ∃ b, f.buf = some b
  total_gt : 1 < f.total
  total_le : f.total ≤ ncMaxFrags
  bits : ∀ i, f.bitmask.testBit i = true → i < f.total
  count : ((Finset.range f.total).filter fun i => f.bitmask.testBit i = true).card = f.haveN
  fits : ∀ i, f.bitmask.testBit i = true → i * fp + f.offsets i ≤ ncMaxMsg

/-- A pending acknowledgement names the number before the expected one, or 0. -/
def AckInv (ch : Chan) : Prop :=
  ch.needAck = true →
    ch.role = .receiver ∧ ch.ackSeq = if 0 < ch.recvSeq then ch.recvSeq - 1 else 0

structure ChanInv (fp : Nat) (ch : Chan) : Prop where
  out : OutInv ch.outgoing ch.outHead ch.outTail
  queue : QueueInv ch.recvQueue ch.rqHead ch.rqTail
  reorder : ReorderInv ch.reorder ch.recvSeq
  frag : ∀ i < 4, (ch.frags i).active = true → FragInv fp (ch.frags i)

/-! ## The tables -/

inductive Loc
  | free (i : Nat)
  | slot (k : Nat) (x : Slot)
  deriving DecidableEq

def Core.bufAt (s : Core) : Loc → Option Nat
  | .free i => if i < s.poolFreeTop then some (s.poolFree i) else none
  | .slot k x => if s.chanUsed k = true then (s.chanPool k).bufAt x else none

/-- The buffers of the pool. -/
def poolBufs : Set Nat := {b | b < ncPoolBufs}

structure Core.Inv (s : Core) : Prop where
  table : ∀ id k, s.channels id = some k →
    k < ncMaxChan ∧ s.chanUsed k = true ∧ (s.chanPool k).id = id
  used : ∀ k, s.chanUsed k = true →
    k < ncMaxChan ∧ s.channels (s.chanPool k).id = some k
  pool : Conserved poolBufs s.bufAt
  chans : ∀ k, s.chanUsed k = true → ChanInv (maxFragPayload s.cfg) (s.chanPool k)

namespace Core.Inv

variable {s : Core} {k : Nat}

theorem of_pool (h : s.Inv) (hk : s.chanUsed k = true) {ch : Chan} {free : Nat → Nat}
    {top : Nat} {store : Nat → UInt8} {log : List Mark} (hid : ch.id = (s.chanPool k).id)
    (hch : ChanInv (maxFragPayload s.cfg) ch)
    (hpool : Conserved poolBufs (Core.bufAt { s with
      chanPool := Function.update s.chanPool k ch
      poolFree := free
      poolFreeTop := top
      poolStore := store
      log := log })) :
    Core.Inv { s with
      chanPool := Function.update s.chanPool k ch
      poolFree := free
      poolFreeTop := top
      poolStore := store
      log := log } := by
  have hid' : ∀ j, (Function.update s.chanPool k ch j).id = (s.chanPool j).id := by
    intro j
    by_cases hj : j = k
    · subst hj
      simpa using hid
    · rw [Function.update_of_ne hj]
  refine ⟨fun id j hj => ?_, fun j hj => ?_, hpool, fun j hj => ?_⟩
  · obtain ⟨h1, h2, h3⟩ := h.table id j hj
    exact ⟨h1, h2, (hid' j).trans h3⟩
  · obtain ⟨h1, h2⟩ := h.used j hj
    exact ⟨h1, (congrArg s.channels (hid' j)).trans h2⟩
  · by_cases hj' : j = k
    · subst hj'
      simpa using hch
    · simpa [Function.update_of_ne hj'] using h.chans j hj

theorem keep (h : s.Inv) (hk : s.chanUsed k = true) (ch : Chan)
    (hid : ch.id = (s.chanPool k).id) (hbuf : ch.bufAt = (s.chanPool k).bufAt)
    (hch : ChanInv (maxFragPayload s.cfg) ch) (store : Nat → UInt8) (log : List Mark) :
    Core.Inv { s with
      chanPool := Function.update s.chanPool k ch, poolStore := store, log := log } := by
  refine h.of_pool hk hid hch ?_
  convert h.pool using 1
  funext l
  cases l with
  | free i => rfl
  | slot j x =>
    by_cases hj : j = k
    · subst hj
      simp [Core.bufAt, hbuf]
    · simp [Core.bufAt, Function.update_of_ne hj]

theorem take (h : s.Inv) (hk : s.chanUsed k = true) (htop : 0 < s.poolFreeTop) {ch : Chan}
    (x : Slot) (hid : ch.id = (s.chanPool k).id) (hempty : (s.chanPool k).bufAt x = none)
    (hbuf : ch.bufAt =
      Function.update (s.chanPool k).bufAt x (some (s.poolFree (s.poolFreeTop - 1))))
    (hch : ChanInv (maxFragPayload s.cfg) ch) (store : Nat → UInt8) (log : List Mark) :
    Core.Inv { s with
      chanPool := Function.update s.chanPool k ch
      poolFreeTop := s.poolFreeTop - 1
      poolStore := store
      log := log } := by
  refine h.of_pool hk hid hch ?_
  refine h.pool.swap (.free (s.poolFreeTop - 1)) (.slot k x) ?_ ?_ ?_
  · simp [Core.bufAt, hk, hempty]
  · simp [Core.bufAt, hk, hbuf, htop]
  · intro l hfree hslot
    cases l with
    | free i =>
      have hi : i ≠ s.poolFreeTop - 1 := fun e => hfree (e ▸ rfl)
      have hlt : (i < s.poolFreeTop - 1) = (i < s.poolFreeTop) := by
        rw [eq_iff_iff]
        omega
      simp [Core.bufAt, hlt]
    | slot j y =>
      by_cases hj : j = k
      · subst hj
        have hy : y ≠ x := fun e => hslot (e ▸ rfl)
        simp [Core.bufAt, hbuf, Function.update_of_ne hy]
      · simp [Core.bufAt, Function.update_of_ne hj]

theorem give (h : s.Inv) (hk : s.chanUsed k = true) {ch : Chan} (x : Slot) (b : Nat)
    (hid : ch.id = (s.chanPool k).id) (hfull : (s.chanPool k).bufAt x = some b)
    (hbuf : ch.bufAt = Function.update (s.chanPool k).bufAt x none)
    (hch : ChanInv (maxFragPayload s.cfg) ch) (log : List Mark) :
    Core.Inv { s with
      chanPool := Function.update s.chanPool k ch
      poolFree := Function.update s.poolFree s.poolFreeTop b
      poolFreeTop := s.poolFreeTop + 1
      log := log } := by
  refine h.of_pool hk hid hch ?_
  refine h.pool.swap (.slot k x) (.free s.poolFreeTop) ?_ ?_ ?_
  · simp [Core.bufAt, hk, hbuf]
  · simp [Core.bufAt, hk, hfull]
  · intro l hslot hfree
    cases l with
    | free i =>
      have hi : i ≠ s.poolFreeTop := fun e => hfree (e ▸ rfl)
      have hlt : (i < s.poolFreeTop + 1) = (i < s.poolFreeTop) := by
        rw [eq_iff_iff]
        omega
      simp [Core.bufAt, hlt, Function.update_of_ne hi]
    | slot j y =>
      by_cases hj : j = k
      · subst hj
        have hy : y ≠ x := fun e => hslot (e ▸ rfl)
        simp [Core.bufAt, hbuf, Function.update_of_ne hy]
      · simp [Core.bufAt, Function.update_of_ne hj]

theorem release (h : s.Inv) (hk : s.chanUsed k = true) (x : Slot) {f : Chan → Chan}
    (hid : (f (s.chanPool k)).id = (s.chanPool k).id)
    (hbuf : (f (s.chanPool k)).bufAt = Function.update (s.chanPool k).bufAt x none)
    (hch : ChanInv (maxFragPayload s.cfg) (f (s.chanPool k))) :
    ((poolPut s ((s.chanPool k).bufAt x)).modChan k f).Inv := by
  cases hx : (s.chanPool k).bufAt x with
  | none =>
    have hsame : (f (s.chanPool k)).bufAt = (s.chanPool k).bufAt := by
      rw [hbuf, ← hx, Function.update_eq_self]
    exact h.keep hk _ hid hsame hch s.poolStore s.log
  | some b => exact h.give hk x b hid hx hbuf hch s.log

theorem mark (h : s.Inv) (m : Mark) : (s.mark m).Inv :=
  ⟨h.table, h.used, h.pool, h.chans⟩

end Core.Inv

/-! ## The parts of a channel record -/

namespace OutInv

variable {out : Nat → Outgoing} {h t i : Nat} {o : Outgoing}

theorem update (hout : OutInv out h t) (hact : o.active = true → (out i).active = true)
    (hbusy : o.active = true → (∃ b, o.buf = some b) ∧ o.len ≤ ncMaxMsg) :
    OutInv (Function.update out i o) h t where
  head_lt := hout.head_lt
  tail_lt := hout.tail_lt
  idle := by
    intro j hj hring
    have hidle := hout.idle j hj hring
    by_cases hji : j = i
    · subst hji
      rw [Function.update_self]
      cases ha : o.active with
      | false => rfl
      | true => exact absurd (hact ha) (by simp [hidle])
    · rwa [Function.update_of_ne hji]
  busy := by
    intro j hj hact'
    by_cases hji : j = i
    · subst hji
      rw [Function.update_self] at hact' ⊢
      exact hbusy hact'
    · rw [Function.update_of_ne hji] at hact' ⊢
      exact hout.busy j hj hact'

theorem push (hout : OutInv out h t) (hroom : (t + 1) % 64 ≠ h)
    (hbusy : (∃ b, o.buf = some b) ∧ o.len ≤ ncMaxMsg) :
    OutInv (Function.update out t o) h ((t + 1) % 64) where
  head_lt := hout.head_lt
  tail_lt := Nat.mod_lt _ (by decide)
  idle := by
    intro j hj hring
    rw [inRing_push hout.head_lt hout.tail_lt hj hroom, not_or] at hring
    rw [Function.update_of_ne hring.2]
    exact hout.idle j hj hring.1
  busy := by
    intro j hj hact
    by_cases hjt : j = t
    · subst hjt
      rw [Function.update_self]
      exact hbusy
    · rw [Function.update_of_ne hjt] at hact ⊢
      exact hout.busy j hj hact

theorem pop (hout : OutInv out h t) (hne : h ≠ t) (hidle : (out h).active = false) :
    OutInv out ((h + 1) % 64) t where
  head_lt := Nat.mod_lt _ (by decide)
  tail_lt := hout.tail_lt
  idle := by
    intro j hj hring
    rw [inRing_pop hout.head_lt hout.tail_lt hj hne] at hring
    by_cases hjh : j = h
    · rw [hjh, hidle]
    · exact hout.idle j hj fun hin => hring ⟨hin, hjh⟩
  busy := hout.busy

end OutInv

namespace QueueInv

variable {q : Nat → RecvEntry} {h t : Nat} {e : RecvEntry}

theorem push (hq : QueueInv q h t) (hroom : (t + 1) % 64 ≠ h)
    (hbusy : (∃ b, e.buf = some b) ∧ e.len ≤ ncMaxMsg) :
    QueueInv (Function.update q t e) h ((t + 1) % 64) where
  head_lt := hq.head_lt
  tail_lt := Nat.mod_lt _ (by decide)
  idle := by
    intro j hj hring
    rw [inRing_push hq.head_lt hq.tail_lt hj hroom, not_or] at hring
    rw [Function.update_of_ne hring.2]
    exact hq.idle j hj hring.1
  busy := by
    intro j hj hring
    rw [inRing_push hq.head_lt hq.tail_lt hj hroom] at hring
    by_cases hjt : j = t
    · subst hjt
      rw [Function.update_self]
      exact hbusy
    · rw [Function.update_of_ne hjt]
      exact hq.busy j hj (hring.resolve_right hjt)

theorem pop (hq : QueueInv q h t) (hne : h ≠ t) :
    QueueInv (Function.update q h ⟨none, 0⟩) ((h + 1) % 64) t where
  head_lt := Nat.mod_lt _ (by decide)
  tail_lt := hq.tail_lt
  idle := by
    intro j hj hring
    rw [inRing_pop hq.head_lt hq.tail_lt hj hne] at hring
    by_cases hjh : j = h
    · rw [hjh, Function.update_self]
    · rw [Function.update_of_ne hjh]
      exact hq.idle j hj fun hin => hring ⟨hin, hjh⟩
  busy := by
    intro j hj hring
    rw [inRing_pop hq.head_lt hq.tail_lt hj hne] at hring
    rw [Function.update_of_ne hring.2]
    exact hq.busy j hj hring.1

end QueueInv

namespace ReorderInv

variable {r : Nat → Reorder} {recvSeq : UInt16} {i : Nat} {e : Reorder}

theorem update (hr : ReorderInv r recvSeq)
    (hbusy : e.valid = true → (∃ b, e.buf = some b) ∧ e.len ≤ ncMaxMsg)
    (hplace : e.valid = true → e.seq.toNat % 64 = i)
    (hwindow : e.valid = true →
      0 ≤ int16 (e.seq - recvSeq) ∧ int16 (e.seq - recvSeq) < 64) :
    ReorderInv (Function.update r i e) recvSeq := by
  refine ⟨fun j hj hv => ?_, fun j hj hv => ?_, fun j hj hv => ?_⟩
  all_goals
    by_cases hji : j = i
    · subst hji
      rw [Function.update_self] at hv ⊢
      first
      | exact hbusy hv
      | exact hplace hv
      | exact hwindow hv
    · rw [Function.update_of_ne hji] at hv ⊢
      first
      | exact hr.busy j hj hv
      | exact hr.place j hj hv
      | exact hr.window j hj hv

theorem bump (hr : ReorderInv r recvSeq)
    (hnone : ∀ i < 64, (r i).valid = true → (r i).seq ≠ recvSeq) :
    ReorderInv r (recvSeq + 1) := by
  refine ⟨hr.busy, hr.place, fun i hi hv => ?_⟩
  obtain ⟨hlo, hhi⟩ := hr.window i hi hv
  have hne : (r i).seq.toNat ≠ recvSeq.toNat := fun e =>
    hnone i hi hv (UInt16.toNat_inj.mp e)
  have h1 := (r i).seq.toNat_lt
  have h2 := recvSeq.toNat_lt
  simp only [int16, UInt16.toNat_sub, UInt16.toNat_add, UInt16.toNat_one] at hlo hhi ⊢
  split at hlo <;> split <;> omega

end ReorderInv

namespace FragInv

variable {fp : Nat} {f : FragAsm}

theorem alloc (fp : Nat) (seq : UInt16) {total : Nat} (b : Nat) (hgt : 1 < total)
    (hle : total ≤ ncMaxFrags) :
    FragInv fp { FragAsm.zero with seq := seq, total := total, active := true, buf := some b } where
  buf := ⟨b, rfl⟩
  total_gt := hgt
  total_le := hle
  bits := by simp [FragAsm.zero]
  count := by simp [FragAsm.zero]
  fits := by simp [FragAsm.zero]

theorem testBit_or_bit (m i j : Nat) :
    (m ||| 1 <<< i).testBit j = true ↔ m.testBit j = true ∨ j = i := by
  simp only [Nat.testBit_or, Nat.one_shiftLeft, Nat.testBit_two_pow, Bool.or_eq_true,
    decide_eq_true_eq]
  exact or_congr_right eq_comm

theorem store (hf : FragInv fp f) {i len : Nat} (hi : i < f.total)
    (hnew : f.bitmask.testBit i = false) (hfits : i * fp + len ≤ ncMaxMsg) :
    FragInv fp { f with
      offsets := Function.update f.offsets i len
      bitmask := f.bitmask ||| 1 <<< i
      haveN := f.haveN + 1 } where
  buf := hf.buf
  total_gt := hf.total_gt
  total_le := hf.total_le
  bits := by
    intro j hj
    rcases (testBit_or_bit _ _ _).1 hj with hj | rfl
    · exact hf.bits j hj
    · exact hi
  count := by
    have hinsert : ((Finset.range f.total).filter fun j =>
        (f.bitmask ||| 1 <<< i).testBit j = true) =
        insert i ((Finset.range f.total).filter fun j => f.bitmask.testBit j = true) := by
      ext j
      simp only [Finset.mem_filter, Finset.mem_range, testBit_or_bit, Finset.mem_insert]
      constructor
      · rintro ⟨hj, hbit | rfl⟩
        · exact Or.inr ⟨hj, hbit⟩
        · exact Or.inl rfl
      · rintro (rfl | ⟨hj, hbit⟩)
        · exact ⟨hi, Or.inr rfl⟩
        · exact ⟨hj, Or.inl hbit⟩
    rw [hinsert, Finset.card_insert_of_notMem (by simp [hnew]), hf.count]
  fits := by
    intro j hj
    rcases (testBit_or_bit _ _ _).1 hj with hbit | rfl
    · have hji : j ≠ i := by
        rintro rfl
        simp [hnew] at hbit
      dsimp only
      rw [Function.update_of_ne hji]
      exact hf.fits j hbit
    · dsimp only
      rw [Function.update_self]
      exact hfits

theorem complete (hf : FragInv fp f) (h : f.haveN = f.total) {i : Nat} (hi : i < f.total) :
    f.bitmask.testBit i = true := by
  have hcard : ((Finset.range f.total).filter fun i => f.bitmask.testBit i = true).card =
      (Finset.range f.total).card := by
    rw [hf.count, h, Finset.card_range]
  exact Finset.card_filter_eq_iff.1 hcard i (Finset.mem_range.2 hi)

end FragInv

end MechanicalResearcher.NetchanV2
