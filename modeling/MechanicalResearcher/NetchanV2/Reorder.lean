import MechanicalResearcher.NetchanV2.Halves

/-!
# In-order delivery through the reorder table

The receiving half of a reliable channel against an abstract sender: message
`j` is any byte string with `P j`, and a frame with sequence number `j mod 2^16`
carries one.  `Received P s k n` says that the channel has consumed the messages
before `n` and keeps some of the following 63; every frame preserves it, and what
is handed to the receive queue is message `0`, `1`, `2`, … in this order.
-/

namespace MechanicalResearcher.NetchanV2

open Lib Lib.Serial Lib.Ownership Lib.Runs

/-! ## What a run handed over -/

/-- The payloads `chan_recv_enqueue` was called with for channel record `k`. -/
def handed (k : Nat) (log : List Mark) : List (List UInt8) :=
  log.filterMap fun
    | .enqueue j data _ => if j = k then some data else none
    | _ => none

/-- How often `recv_seq` of channel record `k` was incremented. -/
def advances (k : Nat) (log : List Mark) : Nat := log.count (.advance k)

@[simp] theorem handed_append (k : Nat) (l l' : List Mark) :
    handed k (l ++ l') = handed k l ++ handed k l' := by
  simp [handed]

@[simp] theorem advances_append (k : Nat) (l l' : List Mark) :
    advances k (l ++ l') = advances k l + advances k l' := by
  simp [advances]

theorem handed_of_other {k : Nat} {l : List Mark} (h : ∀ m ∈ l, m.chan ≠ k) :
    handed k l = [] := by
  simp only [handed, List.filterMap_eq_nil_iff]
  intro m hm
  cases m with
  | enqueue j data ok => exact if_neg (h _ hm)
  | _ => rfl

theorem advances_of_other {k : Nat} {l : List Mark} (h : ∀ m ∈ l, m.chan ≠ k) :
    advances k l = 0 := by
  simp only [advances, List.count_eq_zero]
  intro hm
  exact h _ hm rfl

/-! ## The receiving half of a channel -/

variable {P : Nat → List UInt8 → Prop}

theorem ofNat_slot (j : Nat) : (UInt16.ofNat j).toNat % ncReorderSlots = j % 64 := by
  rw [UInt16.toNat_ofNat']
  simp only [ncReorderSlots]
  omega

/-- The messages before `n` were consumed; a valid reorder slot holds one of the next 63
or, while the table is being drained, message `n` itself. -/
structure Received (P : Nat → List UInt8 → Prop) (s : Core) (k n : Nat) : Prop where
  seq : (s.chanPool k).recvSeq = UInt16.ofNat n
  early : ∀ i < 64, ((s.chanPool k).reorder i).valid = true →
    ∃ j, n ≤ j ∧ j < n + 64 ∧ j % 64 = i ∧
      ((s.chanPool k).reorder i).seq = UInt16.ofNat j ∧
      P j (s.bytes (poolPtr ((s.chanPool k).reorder i).buf) ((s.chanPool k).reorder i).len)

theorem reorder_bytes {K : Nat → Slot → Prop} {s s' : Core} {k i : Nat} (h : s.Inv)
    (hk : s.chanUsed k = true) (hkeep : Core.Keeps K s s') (hi : i < 64) (hK : K k (.reorder i))
    (hv : ((s.chanPool k).reorder i).valid = true) :
    s'.bytes (poolPtr ((s.chanPool k).reorder i).buf) ((s.chanPool k).reorder i).len =
      s.bytes (poolPtr ((s.chanPool k).reorder i).buf) ((s.chanPool k).reorder i).len := by
  obtain ⟨⟨b, hb⟩, hlen⟩ := (h.chans k hk).reorder.busy i hi hv
  have hslot : s.bufAt (.slot k (.reorder i)) = some b := by
    simp [Core.bufAt, Chan.bufAt, hk, hi, hv, hb]
  rw [hb]
  exact hkeep.bytes hK hslot hlen

namespace Received

variable {s s' : Core} {k n : Nat}

theorem keep {K : Nat → Slot → Prop} (h : Received P s k n) (hinv : s.Inv)
    (hk : s.chanUsed k = true) (hkeep : Core.Keeps K s s') (hK : ∀ i, K k (.reorder i))
    (hseq : (s'.chanPool k).recvSeq = (s.chanPool k).recvSeq)
    (hreorder : (s'.chanPool k).reorder = (s.chanPool k).reorder) : Received P s' k n := by
  refine ⟨hseq.trans h.seq, fun i hi hv => ?_⟩
  rw [hreorder] at hv ⊢
  rw [reorder_bytes hinv hk hkeep hi (hK i) hv]
  exact h.early i hi hv

theorem mono {Q : Nat → List UInt8 → Prop} (h : Received P s k n) (hPQ : ∀ j d, P j d → Q j d) :
    Received Q s k n := by
  refine ⟨h.seq, fun i hi hv => ?_⟩
  obtain ⟨j, h1, h2, h3, h4, h5⟩ := h.early i hi hv
  exact ⟨j, h1, h2, h3, h4, hPQ j _ h5⟩

theorem early_lt (h : Received P s k n) (hd : deliverable (s.chanPool k) = false) {i : Nat}
    (hi : i < 64) (hv : ((s.chanPool k).reorder i).valid = true) :
    ∃ j, n < j ∧ j < n + 64 ∧ j % 64 = i ∧
      ((s.chanPool k).reorder i).seq = UInt16.ofNat j ∧
      P j (s.bytes (poolPtr ((s.chanPool k).reorder i).buf) ((s.chanPool k).reorder i).len) := by
  obtain ⟨j, hlo, hhi, hmod, hseq, hP⟩ := h.early i hi hv
  refine ⟨j, Nat.lt_of_le_of_ne hlo fun e => ?_, hhi, hmod, hseq, hP⟩
  subst e
  have hslot : (s.chanPool k).recvSeq.toNat % ncReorderSlots = i := by
    rw [h.seq, ofNat_slot, hmod]
  have hseq' : ((s.chanPool k).reorder i).seq = (s.chanPool k).recvSeq := hseq.trans h.seq.symm
  simp [deliverable, hslot, hv, hseq'] at hd

end Received

/-! ## One message -/

theorem bump_enqueue_log (s : Core) (k : Nat) (data : List UInt8) :
    ∃ ok, (chanRecvEnqueue s k data).1.log = s.log ++ [.enqueue k data ok] := by
  rw [chanRecvEnqueue_fst]
  split_ifs
  · exact ⟨true, rfl⟩
  · exact ⟨false, rfl⟩

theorem deliverCore_log (s : Core) (k : Nat) :
    ∃ ok, (deliverCore s k).log = s.log ++
      [.enqueue k (s.bytes
        (poolPtr ((s.chanPool k).reorder ((s.chanPool k).recvSeq.toNat % ncReorderSlots)).buf)
        ((s.chanPool k).reorder ((s.chanPool k).recvSeq.toNat % ncReorderSlots)).len) ok,
        .advance k] := by
  simp only [deliverCore]
  generalize hdata : s.bytes (poolPtr ((s.chanPool k).reorder
    ((s.chanPool k).recvSeq.toNat % ncReorderSlots)).buf) ((s.chanPool k).reorder
    ((s.chanPool k).recvSeq.toNat % ncReorderSlots)).len = data
  obtain ⟨ok, hlog⟩ := bump_enqueue_log s k data
  refine ⟨ok, ?_⟩
  have hrelease : ∀ s' slot, (reorderRelease s' k slot).log = s'.log := by
    intro s' slot
    rw [reorderRelease_eq]
    cases ((s'.chanPool k).reorder slot).buf <;> rfl
  have hbump : ∀ s', (bumpRecvSeq s' k).log = s'.log ++ [.advance k] := fun _ => rfl
  rw [hbump, hrelease, hlog, List.append_assoc]
  rfl

theorem Received.drainOne {s : Core} {k n : Nat} (h : Received P s k n) (hinv : s.Inv)
    (hk : s.chanUsed k = true) (hd : deliverable (s.chanPool k) = true) :
    Received P (deliverCore s k) k (n + 1) ∧
      P n (s.bytes
        (poolPtr ((s.chanPool k).reorder ((s.chanPool k).recvSeq.toNat % ncReorderSlots)).buf)
        ((s.chanPool k).reorder ((s.chanPool k).recvSeq.toNat % ncReorderSlots)).len) := by
  simp only [deliverable, Bool.and_eq_true, beq_iff_eq] at hd
  have hslot : (s.chanPool k).recvSeq.toNat % 64 < 64 := Nat.mod_lt _ (by decide)
  -- the slot of the expected number holds message `n`
  have hnext : P n (s.bytes
      (poolPtr ((s.chanPool k).reorder ((s.chanPool k).recvSeq.toNat % ncReorderSlots)).buf)
      ((s.chanPool k).reorder ((s.chanPool k).recvSeq.toNat % ncReorderSlots)).len) := by
    obtain ⟨j, hlo, hhi, -, hseq, hP⟩ := h.early _ hslot hd.1
    have hjn : j = n := by
      apply eq_of_ofNat_eq
      · rw [← hseq, ← h.seq]
        exact hd.2
      · omega
      · omega
    rwa [hjn] at hP
  refine ⟨⟨?_, fun i hi hv => ?_⟩, hnext⟩
  · rw [(deliverCore_reorder s k).1, h.seq, ofNat_add_one]
  · have hne : i ≠ (s.chanPool k).recvSeq.toNat % ncReorderSlots := by
      rintro rfl
      simp [(deliverCore_reorder s k).2] at hv
    have hsame : ((deliverCore s k).chanPool k).reorder i = (s.chanPool k).reorder i := by
      rw [(deliverCore_reorder s k).2, Function.update_of_ne hne]
    rw [hsame] at hv ⊢
    have hoff : Off k (.recvQueue (s.chanPool k).rqTail) k (.reorder i) ∧
        Off k (.reorder ((s.chanPool k).recvSeq.toNat % ncReorderSlots)) k (.reorder i) :=
      ⟨by simp [Off], by simpa [Off] using hne⟩
    rw [reorder_bytes hinv hk (deliverCore_keeps hinv hk) hi hoff hv]
    obtain ⟨j, hlo, hhi, hmod, hseq, hP⟩ := h.early i hi hv
    refine ⟨j, ?_, by omega, hmod, hseq, hP⟩
    -- message `n` would sit in the slot that was cleared
    rcases Nat.lt_or_eq_of_le hlo with hlt | rfl
    · exact hlt
    · exact absurd (by rw [h.seq, ofNat_slot, hmod]) hne

theorem Received.inOrder {s : Core} {k n : Nat} (h : Received P s k n) (hinv : s.Inv)
    (hk : s.chanUsed k = true) (hd : deliverable (s.chanPool k) = false) (data : List UInt8) :
    Received P (bumpRecvSeq (chanRecvEnqueue s k data).1 k) k (n + 1) := by
  obtain ⟨hseq, hreo, -⟩ := chanRecvEnqueue_recvSeq s k data
  have hkeep := (chanRecvEnqueue_keeps hinv hk data).trans (bumpRecvSeq_keeps _ _ k)
  have hreo' : ((bumpRecvSeq (chanRecvEnqueue s k data).1 k).chanPool k).reorder =
      (s.chanPool k).reorder := by
    simp [bumpRecvSeq, Core.modChan, Core.mark, hreo]
  refine ⟨?_, fun i hi hv => ?_⟩
  · have hbump : ((bumpRecvSeq (chanRecvEnqueue s k data).1 k).chanPool k).recvSeq =
        (s.chanPool k).recvSeq + 1 := by
      simp [bumpRecvSeq, Core.modChan, Core.mark, hseq]
    rw [hbump, h.seq, ofNat_add_one]
  · rw [hreo'] at hv ⊢
    rw [reorder_bytes hinv hk hkeep hi (by simp [Off]) hv]
    obtain ⟨j, hlt, hhi, hmod, hseq, hP⟩ := h.early_lt hd hi hv
    exact ⟨j, hlt, by omega, hmod, hseq, hP⟩

/-- The history agrees with the state: `n` messages were handed over, in order. -/
structure Delivered (P : Nat → List UInt8 → Prop) (s : Core) (k n : Nat) : Prop where
  received : Received P s k n
  advances : advances k s.log = n
  length : (handed k s.log).length = n
  handed : ∀ i d, (handed k s.log)[i]? = some d → P i d

namespace Delivered

variable {s s' : Core} {k n : Nat}

theorem extend (h : Delivered P s k n) (hrec : Received P s' k (n + 1)) {data : List UInt8}
    {ok : Bool} (hlog : s'.log = s.log ++ [.enqueue k data ok, .advance k]) (hP : P n data) :
    Delivered P s' k (n + 1) := by
  have hhanded : NetchanV2.handed k s'.log = NetchanV2.handed k s.log ++ [data] := by
    rw [hlog, handed_append]
    simp [NetchanV2.handed]
  refine ⟨hrec, ?_, ?_, fun i d hd => ?_⟩
  · rw [hlog, advances_append, h.advances]
    simp [NetchanV2.advances]
  · rw [hhanded, List.length_append, h.length]
    rfl
  · rw [hhanded] at hd
    rcases Nat.lt_or_ge i n with hi | hi
    · rw [List.getElem?_append_left (by rw [h.length]; exact hi)] at hd
      exact h.handed i d hd
    · rw [List.getElem?_append_right (by rw [h.length]; exact hi), h.length] at hd
      have hin : i = n := by
        have hlt := (List.getElem?_eq_some_iff.1 hd).1
        simp only [List.length_singleton] at hlt
        omega
      subst hin
      simp only [Nat.sub_self, List.getElem?_cons_zero, Option.some.injEq] at hd
      exact hd ▸ hP

theorem keep (h : Delivered P s k n) (hrec : Received P s' k n) {ms : List Mark}
    (hlog : s'.log = s.log ++ ms) (hadv : NetchanV2.advances k ms = 0)
    (hhand : NetchanV2.handed k ms = []) : Delivered P s' k n := by
  have hhanded : NetchanV2.handed k s'.log = NetchanV2.handed k s.log := by
    rw [hlog, handed_append, hhand, List.append_nil]
  refine ⟨hrec, ?_, by rw [hhanded, h.length], fun i d hd => h.handed i d (hhanded ▸ hd)⟩
  rw [hlog, advances_append, hadv, h.advances, Nat.add_zero]

theorem mono {Q : Nat → List UInt8 → Prop} (h : Delivered P s k n)
    (hPQ : ∀ j d, P j d → Q j d) : Delivered Q s k n :=
  ⟨h.received.mono hPQ, h.advances, h.length, fun i d hd => hPQ i d (h.handed i d hd)⟩

theorem inOrder (h : Delivered P s k n) (hinv : s.Inv) (hk : s.chanUsed k = true)
    (hd : deliverable (s.chanPool k) = false) {data : List UInt8} (hP : P n data) :
    Delivered P (bumpRecvSeq (chanRecvEnqueue s k data).1 k) k (n + 1) := by
  obtain ⟨ok, hlog⟩ := bump_enqueue_log s k data
  have hbump : (bumpRecvSeq (chanRecvEnqueue s k data).1 k).log =
      s.log ++ [.enqueue k data ok, .advance k] := by
    have h1 : (bumpRecvSeq (chanRecvEnqueue s k data).1 k).log =
        (chanRecvEnqueue s k data).1.log ++ [.advance k] := rfl
    rw [h1, hlog, List.append_assoc]
    rfl
  exact h.extend (h.received.inOrder hinv hk hd data) hbump hP

theorem drain (fuel : Nat) {c : Conn} {n : Nat} (h : Delivered P c.toCore k n)
    (hinv : c.toCore.Inv) (hk : c.chanUsed k = true) :
    ∃ n', n ≤ n' ∧ Delivered P (deliverLoop fuel c k).toCore k n' := by
  refine deliverLoop_tables (P := fun s => ∃ n', n ≤ n' ∧ Delivered P s k n')
    (fun s hinv hk hd ⟨n', hn', h⟩ => ?_) fuel hinv hk ⟨n, le_rfl, h⟩
  obtain ⟨hrec, hP⟩ := h.received.drainOne hinv hk hd
  obtain ⟨ok, hlog⟩ := deliverCore_log s k
  exact ⟨n' + 1, by omega, h.extend hrec hlog hP⟩

theorem store (h : Delivered P s k n) (hinv : s.Inv) (hk : s.chanUsed k = true)
    {data : List UInt8} (hlen : data.length ≤ ncMaxMsg) {j : Nat} (hlo : n < j)
    (hhi : j < n + 64) (hP : P j data) :
    Delivered P (reorderStore s k (UInt16.ofNat j) data) k n := by
  rw [reorderStore_eq]
  split_ifs with htop
  · have hkeep := reorderStore_keeps (k := k) hinv (UInt16.ofNat j) hlen
    rw [reorderStore_eq, if_pos htop] at hkeep
    have hlog : (s.takeInto k data fun b ch => ch.reordered
        ((UInt16.ofNat j).toNat % ncReorderSlots) ⟨UInt16.ofNat j, some b, data.length, true⟩).log =
        s.log ++ [] := by simp [Core.takeInto]
    refine h.keep ⟨?_, fun i hi hv => ?_⟩ hlog rfl rfl
    · simp [Core.takeInto, Chan.reordered, h.received.seq]
    · by_cases hij : i = j % 64
      · subst hij
        refine ⟨j, hlo.le, hhi, rfl, ?_, ?_⟩
        · simp only [Core.takeInto, Function.update_self, Chan.reordered, ofNat_slot]
        · have hdata := takeInto_bytes s k data fun b ch =>
            ch.reordered ((UInt16.ofNat j).toNat % ncReorderSlots)
              ⟨UInt16.ofNat j, some b, data.length, true⟩
          have hentry : ((s.takeInto k data fun b ch =>
              ch.reordered ((UInt16.ofNat j).toNat % ncReorderSlots)
                ⟨UInt16.ofNat j, some b, data.length, true⟩).chanPool k).reorder (j % 64) =
              ⟨UInt16.ofNat j, some (s.poolFree (s.poolFreeTop - 1)), data.length, true⟩ := by
            simp only [Core.takeInto, Function.update_self, Chan.reordered, ofNat_slot]
          rw [hentry]
          dsimp only
          rw [hdata]
          exact hP
      · have hsame : ((s.takeInto k data fun b ch =>
            ch.reordered ((UInt16.ofNat j).toNat % ncReorderSlots)
              ⟨UInt16.ofNat j, some b, data.length, true⟩).chanPool k).reorder i =
            (s.chanPool k).reorder i := by
          simp only [Core.takeInto, Function.update_self, Chan.reordered, ofNat_slot,
            Function.update_of_ne hij]
        rw [hsame] at hv ⊢
        have hoff : Off k (.reorder ((UInt16.ofNat j).toNat % ncReorderSlots)) k
            (.reorder i) := by
          rw [ofNat_slot]
          simpa [Off] using hij
        rw [reorder_bytes hinv hk hkeep hi hoff hv]
        exact h.received.early i hi hv
  · exact h

end Delivered

theorem deliverReliable_delivered {c : Conn} {k n : Nat} (h : Delivered P c.toCore k n)
    (hinv : c.toCore.Inv) (hk : c.chanUsed k = true)
    (hd : deliverable (c.chanPool k) = false) {data : List UInt8} {j : Nat} (hP : P j data)
    (hlo : n + 64 ≤ j + 2 ^ 16) (hhi : j < n + 2 ^ 15) :
    ∃ n', n ≤ n' ∧ Delivered P (deliverReliable c k (UInt16.ofNat j) data).toCore k n' := by
  simp only [deliverReliable, h.received.seq]
  split_ifs with heq hcond
  · have hjn : j = n := eq_of_ofNat_eq heq (by omega) (by omega)
    subst hjn
    have hcore : (Conn.lift (evPush (c.lift fun s => (chanRecvEnqueue s k data).1) .data (some k))
        fun s => bumpRecvSeq s k).toCore =
        bumpRecvSeq (chanRecvEnqueue c.toCore k data).1 k := by simp
    have ht := (chanRecvEnqueue_touch c.toCore k data).trans (bumpRecvSeq_touch _ k)
    obtain ⟨n', hn', h'⟩ := Delivered.drain ncReorderSlots (k := k)
      (hcore ▸ h.inOrder hinv hk hd hP) (hcore ▸ bumpRecvSeq_enqueue_inv hinv hk hd data)
      (by rw [hcore]; exact ht.used hk)
    exact ⟨n', by omega, h'⟩
  · obtain ⟨hpos, hlt, -, hlen⟩ := hcond
    obtain ⟨hnj, hjn⟩ := ahead_of_int16 hlo hhi hpos hlt
    exact ⟨n, le_rfl, h.store hinv hk hlen hnj hjn hP⟩
  · exact ⟨n, le_rfl, h⟩

theorem RecvKept.log_eq {k : Nat} {s s' : Core} (h : RecvKept k s s') :
    ∃ ms, s'.log = s.log ++ ms ∧ advances k ms = 0 ∧ handed k ms = [] := by
  obtain ⟨ms, hlog, hms⟩ := h.log
  refine ⟨ms, hlog, ?_, ?_⟩
  · simp only [advances, List.count_eq_zero]
    intro hm
    exact hms _ hm rfl rfl
  · simp only [handed, List.filterMap_eq_nil_iff]
    intro m hm
    cases m with
    | enqueue j data ok => exact if_neg (hms _ hm rfl)
    | _ => rfl

theorem Delivered.recvKept {s s' : Core} {k n : Nat} (h : Delivered P s k n) (hinv : s.Inv)
    (hk : s.chanUsed k = true) (hkept : RecvKept k s s') : Delivered P s' k n := by
  obtain ⟨ms, hlog, hadv, hhand⟩ := hkept.log_eq
  have hhalf := hkept.half
  simp only [Chan.recvHalf, RecvHalf.mk.injEq] at hhalf
  obtain ⟨hseq, -, -, -, -, hreorder, -⟩ := hhalf
  exact h.keep (h.received.keep hinv hk hkept.keeps (fun i => ⟨rfl, rfl⟩) hseq hreorder)
    hlog hadv hhand

theorem Delivered.read {s : Core} {k n : Nat} (h : Delivered P s k n) (hinv : s.Inv)
    (hk : s.chanUsed k = true) (buflen : Nat) : Delivered P (chanRead s k buflen).1 k n := by
  have hkeep := chanRead_keeps s k buflen
  rcases chanRead_cases s k buflen with ⟨r, heq⟩ | ⟨-, -, e, data, -, -, heq⟩
  · rwa [heq]
  · rw [heq] at hkeep ⊢
    have hlog : (((poolPut s e.buf).modChan k fun ch => ch.dequeued (min e.len buflen)).mark
        (.read k data)).log = s.log ++ [.read k data] := by
      simp [Core.modChan, Core.mark, poolPut_log]
    refine h.keep (h.received.keep hinv hk hkeep (by simp [Off]) ?_ ?_) hlog rfl rfl
    · simp [Core.modChan, Core.mark, poolPut_chanPool, Chan.dequeued]
    · simp [Core.modChan, Core.mark, poolPut_chanPool, Chan.dequeued]

theorem acceptDataReliable_delivered {c : Conn} {k n : Nat} (h : Delivered P c.toCore k n)
    (hgood : c.toCore.Good) (hk : c.chanUsed k = true) {data : List UInt8} {j : Nat}
    (hP : P j data) (hlo : n + 64 ≤ j + 2 ^ 16) (hhi : j < n + 2 ^ 15) (fragIdx : Nat)
    {fragTotal : Nat} (htotal : fragTotal ≤ 1) :
    ∃ n', n ≤ n' ∧ Delivered P
      (acceptDataReliable c k (UInt16.ofNat j) fragIdx fragTotal data).toCore k n' := by
  have hd := (hgood.settled k hk).drained
  obtain ⟨n', hn', h'⟩ := deliverReliable_delivered h hgood.inv hk hd hP hlo hhi
  obtain ⟨hinv', ht', -⟩ := deliverReliable_spec hgood.inv hk hd (UInt16.ofNat j) data
  refine ⟨n', hn', ?_⟩
  simp only [acceptDataReliable, if_pos htotal, Conn.lift_toCore]
  have hlog : (setNeedAck (deliverReliable c k (UInt16.ofNat j) data).toCore k).log =
      (deliverReliable c k (UInt16.ofNat j) data).log ++ [] := by simp [setNeedAck, Core.modChan]
  refine h'.keep (h'.received.keep hinv' (ht'.used hk) (setNeedAck_keeps (fun _ _ => True) _ k)
    (fun _ => trivial) ?_ ?_) hlog rfl rfl
  · simp [setNeedAck, Core.modChan]
  · simp [setNeedAck, Core.modChan]

/-! ## Runs of a receiving channel -/

section Runs

/-- Channel record `k` is the receiving end of reliable channel `id`. -/
structure Conn.Receives (c : Conn) (id : UInt8) (k : Nat) : Prop where
  table : c.channels id = some k
  role : (c.chanPool k).role = .receiver
  type : (c.chanPool k).type = netchanReliable

/-- Nothing was received yet. -/
structure Conn.Unused (c : Conn) (k : Nat) : Prop where
  seq : (c.chanPool k).recvSeq = 0
  reorder : ∀ i < 64, ((c.chanPool k).reorder i).valid = false
  log : ∀ m ∈ c.log, m.chan ≠ k

/-- What happens to a receiver: the calls of its application, and unfragmented DATA
frames of the channel, given by the index of the message they carry. -/
inductive RecvAct
  | call (a : Act)
  | data (i : Nat) (fragIdx fragTotal : UInt8)

variable (id : UInt8) (k : Nat) (m : Nat → List UInt8)

def recvStep (c : Conn) : RecvAct → Conn
  | .call a => c.step a
  | .data i fragIdx fragTotal => c.data ⟨id, UInt16.ofNat i, fragIdx, fragTotal, m i⟩

/-- Indices of frames are less than half the number space away from the next expected one. -/
def RecvOk (c : Conn) : RecvAct → Prop
  | .call a => a.isFeed = false
  | .data i _ fragTotal =>
    fragTotal ≤ 1 ∧ advances k c.log ≤ i + 2 ^ 15 ∧ i < advances k c.log + 2 ^ 15

/-- The invariant of a receiver: the messages handed over so far are the first ones. -/
structure Receiving (c : Conn) : Prop where
  good : c.toCore.Good
  receives : c.Receives id k
  delivered : Delivered (fun j d => d = m j) c.toCore k (advances k c.log)

variable {id k m}

theorem Conn.Receives.used {c : Conn} (h : c.Receives id k) (hgood : c.toCore.Good) :
    c.chanUsed k = true :=
  (hgood.inv.table id k h.table).2.1

theorem Conn.Receives.keep {c c' : Conn} (h : c.Receives id k) (hgood : c.toCore.Good)
    (hgood' : c'.toCore.Good) (hk' : c'.chanUsed k = true)
    (hident : (c'.chanPool k).ident = (c.chanPool k).ident) : c'.Receives id k := by
  simp only [Chan.ident, ChanIdent.mk.injEq] at hident
  obtain ⟨hid, htype, hrole, -⟩ := hident
  refine ⟨?_, hrole.trans h.role, htype.trans h.type⟩
  rw [← (hgood.inv.table id k h.table).2.2, ← hid]
  exact (hgood'.inv.used k hk').2

theorem Receiving.call {c : Conn} (h : Receiving id k m c) {a : Act} (ha : a.isFeed = false) :
    Receiving id k m (c.step a) := by
  have hk := h.receives.used h.good
  have hgood := Conn.step_good h.good a
  by_cases hread : ∃ buflen, a = .chanRead k buflen
  · obtain ⟨buflen, rfl⟩ := hread
    have hcore : (c.step (.chanRead k buflen)).toCore = (chanRead c.toCore k buflen).1 := by
      simp [Conn.step, hk, netchanChanRead]
    have ht := chanRead_touch c.toCore k buflen
    have hdel := h.delivered.read h.good.inv hk buflen
    rw [← hcore] at ht hdel
    refine ⟨hgood, h.receives.keep h.good hgood (ht.used hk) ht.ident, ?_⟩
    rw [hdel.advances]
    exact hdel
  · have hkept := Conn.step_recvKept h.good hk ha fun buflen e => hread ⟨buflen, e⟩
    have hdel := h.delivered.recvKept h.good.inv hk hkept
    refine ⟨hgood, h.receives.keep h.good hgood hkept.used hkept.ident, ?_⟩
    rw [hdel.advances]
    exact hdel

theorem Receiving.data {c : Conn} (h : Receiving id k m c) {i : Nat} {fragIdx fragTotal : UInt8}
    (hok : RecvOk k c (.data i fragIdx fragTotal)) :
    Receiving id k m (c.data ⟨id, UInt16.ofNat i, fragIdx, fragTotal, m i⟩) := by
  have hk := h.receives.used h.good
  obtain ⟨htotal, hlo, hhi⟩ := hok
  have heq : c.data ⟨id, UInt16.ofNat i, fragIdx, fragTotal, m i⟩ =
      acceptDataReliable c k (UInt16.ofNat i) fragIdx.toNat fragTotal.toNat (m i) := by
    simp [Conn.data, acceptData, h.receives.table, h.receives.role, h.receives.type]
  rw [heq]
  obtain ⟨hgood, ht⟩ := acceptDataReliable_spec h.good hk h.receives.role (UInt16.ofNat i)
    fragIdx.toNat fragTotal.toNat (m i)
  obtain ⟨n', -, hdel⟩ := acceptDataReliable_delivered h.delivered h.good hk rfl (by omega) hhi
    fragIdx.toNat (UInt8.le_iff_toNat_le.1 htotal)
  refine ⟨hgood, h.receives.keep h.good hgood (ht.used hk) ht.ident, ?_⟩
  rw [hdel.advances]
  exact hdel

theorem Receiving.start {c : Conn} (hreach : c.Reachable) (hrec : c.Receives id k)
    (hnew : c.Unused k) : Receiving id k m c := by
  have hadv := advances_of_other hnew.log
  have hhand := handed_of_other hnew.log
  refine ⟨hreach.good, hrec, ?_⟩
  rw [hadv]
  refine ⟨⟨hnew.seq, fun i hi hv => ?_⟩, hadv, by rw [hhand]; rfl, fun i d hd => ?_⟩
  · rw [hnew.reorder i hi] at hv
    cases hv
  · rw [hhand] at hd
    cases hd

/-- The messages handed over are the first ones, each once and in order, and the reorder
table holds messages of the following 63 only, each in the slot of its number. -/
theorem reorder_in_order {c c' : Conn} (hreach : c.Reachable) (hrec : c.Receives id k)
    (hnew : c.Unused k) (h : Reach (fun s => s = c) (RecvOk k) (recvStep id m) c') :
    (∀ i < ncReorderSlots, ((c'.chanPool k).reorder i).valid = true →
      ((c'.chanPool k).reorder i).seq.toNat % ncReorderSlots = i ∧
      0 < int16 (((c'.chanPool k).reorder i).seq - (c'.chanPool k).recvSeq) ∧
      int16 (((c'.chanPool k).reorder i).seq - (c'.chanPool k).recvSeq) < ncReorderSlots ∧
      ∃ j, advances k c'.log < j ∧ j < advances k c'.log + ncReorderSlots ∧
        ((c'.chanPool k).reorder i).seq = UInt16.ofNat j ∧
        c'.bytes (poolPtr ((c'.chanPool k).reorder i).buf) ((c'.chanPool k).reorder i).len =
          m j) ∧
    (c'.chanPool k).recvSeq = UInt16.ofNat (advances k c'.log) ∧
    handed k c'.log = (List.range (advances k c'.log)).map m := by
  have hinv : Receiving id k m c' := by
    refine Reach.invariant ?_ ?_ h
    · rintro s rfl
      exact Receiving.start hreach hrec hnew
    · intro s a hs ha
      cases a with
      | call a => exact hs.call ha
      | data i fragIdx fragTotal => exact hs.data ha
  have hd := (hinv.good.settled k (hinv.receives.used hinv.good)).drained
  refine ⟨fun i hi hv => ?_, hinv.delivered.received.seq, ?_⟩
  · obtain ⟨j, hlo, hhi, hmod, hseq, hbytes⟩ := hinv.delivered.received.early_lt hd hi hv
    have hdiff : int16 (((c'.chanPool k).reorder i).seq - (c'.chanPool k).recvSeq) =
        (j : Int) - advances k c'.log := by
      rw [hseq, hinv.delivered.received.seq]
      exact int16_ofNat_sub (by omega) (by omega)
    refine ⟨by rw [hseq, ofNat_slot, hmod], by omega, ?_, j, hlo, hhi, hseq, hbytes⟩
    simp only [ncReorderSlots]
    omega
  · apply List.ext_getElem?
    intro i
    rcases Nat.lt_or_ge i (advances k c'.log) with hi | hi
    · obtain ⟨d, hd⟩ : ∃ d, (handed k c'.log)[i]? = some d :=
        ⟨_, List.getElem?_eq_getElem (by rw [hinv.delivered.length]; exact hi)⟩
      rw [hd, hinv.delivered.handed i d hd]
      simp [hi]
    · rw [List.getElem?_eq_none (by rw [hinv.delivered.length]; exact hi),
        List.getElem?_eq_none (by simpa using hi)]

end Runs

/-- A server whose client opened one reliable channel. -/
def openReceiver : Conn :=
  (netchanOpen true netchanCfgDefault).run
    [.feed quietEnv [0x01, 0, 0, 0, 5, 0x01, 0, 0, 0, 5, 0x01, 0x07, 0, 0, 0, 0] none]

/-- The second message arrives before the first. -/
theorem reorder_in_order_gap :
    handed 0 (recvStep 0 (fun i => [UInt8.ofNat i])
      (recvStep 0 (fun i => [UInt8.ofNat i]) openReceiver (.data 1 0 1)) (.data 0 0 1)).log =
      [[0], [1]] := by
  have hrun : Reach (fun s => s = openReceiver) (RecvOk 0) (recvStep 0 fun i => [UInt8.ofNat i])
      (recvStep 0 (fun i => [UInt8.ofNat i])
        (recvStep 0 (fun i => [UInt8.ofNat i]) openReceiver (.data 1 0 1)) (.data 0 0 1)) := by
    apply Reach.next
    · apply Reach.next
      · exact Reach.start rfl
      · exact ⟨by decide, by decide, by decide⟩
    · exact ⟨by decide, by decide, by decide⟩
  have h := (reorder_in_order ((reachable_open true _).run _) ⟨by decide, by decide, by decide⟩
    ⟨by decide, by decide, by decide⟩ hrun).2.2
  exact h

end MechanicalResearcher.NetchanV2
