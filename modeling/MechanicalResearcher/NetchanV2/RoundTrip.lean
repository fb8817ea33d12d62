import MechanicalResearcher.NetchanV2.Assembly
import MechanicalResearcher.NetchanV2.Emission

/-!
# A message in fragments, there and back

The fragments that one side sends for a message, in any order and with any repetition, are
put together to that message by the other side, and it is handed over once: with the last
fragment that was missing.
-/

namespace MechanicalResearcher.NetchanV2

open Lib Lib.Serial Lib.Pieces

/-! ## What was handed over -/

/-- The calls of `chan_recv_enqueue`: the record, the message, and whether it was taken. -/
def enqueues (log : List Mark) : List (Nat × List UInt8 × Bool) :=
  log.filterMap fun
    | .enqueue k data ok => some (k, data, ok)
    | _ => none

@[simp] theorem enqueues_append (l l' : List Mark) :
    enqueues (l ++ l') = enqueues l ++ enqueues l' := by
  simp [enqueues]

theorem enqueues_quiet {k : Nat} {ms : List Mark}
    (h : ∀ m ∈ ms, ∃ buf addr len, m = .fragWrite k buf addr len) : enqueues ms = [] := by
  simp only [enqueues, List.filterMap_eq_nil_iff]
  intro m hm
  obtain ⟨buf, addr, len, rfl⟩ := h m hm
  rfl

/-- The message `x` waits in the reorder table under the number `seq`. -/
def Waits (s : Core) (k : Nat) (seq : UInt16) (x : List UInt8) : Prop :=
  ∃ i < ncReorderSlots, ((s.chanPool k).reorder i).valid = true ∧
    ((s.chanPool k).reorder i).seq = seq ∧
    x = s.bytes (poolPtr ((s.chanPool k).reorder i).buf) ((s.chanPool k).reorder i).len

theorem Core.Inv.received {s : Core} {k : Nat} (h : s.Inv) (hk : s.chanUsed k = true) :
    Received (fun j => Waits s k (UInt16.ofNat j)) s k (s.chanPool k).recvSeq.toNat := by
  refine ⟨by simp, fun i hi hv => ?_⟩
  have hplace := (h.chans k hk).reorder.place i hi hv
  have hwindow := (h.chans k hk).reorder.window i hi hv
  obtain ⟨x, hx, hseq⟩ := exists_of_int16 (w := 64) hwindow.1 hwindow.2
  have hmod := ofNat_slot ((s.chanPool k).recvSeq.toNat + x)
  rw [← hseq] at hmod
  refine ⟨(s.chanPool k).recvSeq.toNat + x, by omega, by omega, ?_, hseq, i, hi, hv, hseq, rfl⟩
  rw [← hmod]
  exact hplace

theorem drain_enqueues {P : Nat → List UInt8 → Prop} (fuel : Nat) {c : Conn} {k m : Nat}
    (h : Received P c.toCore k m) (hinv : c.toCore.Inv) (hk : c.chanUsed k = true) :
    ∃ xs : List (List UInt8 × Bool),
      enqueues (deliverLoop fuel c k).log = enqueues c.log ++ xs.map (fun x => (k, x.1, x.2)) ∧
        ∀ i x, xs[i]? = some x → P (m + i) x.1 := by
  induction fuel generalizing c m with
  | zero => exact ⟨[], by simp [deliverLoop], by simp⟩
  | succ fuel ih =>
    unfold deliverLoop
    split_ifs with hd
    · obtain ⟨hrec, hP⟩ := h.drainOne hinv hk hd
      obtain ⟨ok, hlog⟩ := deliverCore_log c.toCore k
      rw [← deliverOne_toCore] at hrec hlog
      generalize c.toCore.bytes _ _ = data at hP hlog
      obtain ⟨xs, hxs, hall⟩ := ih hrec (deliverOne_toCore c k ▸ deliverCore_inv hinv hk hd)
        ((deliverOne_toCore c k ▸ deliverCore_touch c.toCore k).used hk)
      refine ⟨(data, ok) :: xs, ?_, fun i x hx => ?_⟩
      · rw [hxs, hlog, enqueues_append, List.append_assoc]
        rfl
      · cases i with
        | zero =>
          cases hx
          exact hP
        | succ i =>
          rw [← Nat.add_assoc, Nat.add_right_comm]
          exact hall i x hx
    · exact ⟨[], by simp, by simp⟩

theorem enqueue_enqueues {s : Core} {k : Nat} {d : List UInt8} (h : CanEnqueue s k d) :
    enqueues (chanRecvEnqueue s k d).1.log = enqueues s.log ++ [(k, d, true)] := by
  rw [chanRecvEnqueue_fst, if_pos h]
  simp [Core.mark, Core.takeInto, enqueues]

theorem deliver_enqueues {P : Nat → List UInt8 → Prop} {c : Conn} {k m : Nat} {seq : UInt16}
    {d : List UInt8} (h : Received P c.toCore k m) (hinv : c.toCore.Inv) (hk : c.chanUsed k = true)
    (hd : deliverable (c.chanPool k) = false) (hcan : CanEnqueue c.toCore k d)
    (hseq : seq = (c.chanPool k).recvSeq) :
    ∃ xs : List (List UInt8 × Bool),
      enqueues (deliverReliable c k seq d).log =
        enqueues c.log ++ (k, d, true) :: xs.map (fun x => (k, x.1, x.2)) ∧
      ∀ i x, xs[i]? = some x → P (m + 1 + i) x.1 := by
  have hcore : (Conn.lift (evPush (c.lift fun s => (chanRecvEnqueue s k d).1) .data (some k))
      fun s => bumpRecvSeq s k).toCore = bumpRecvSeq (chanRecvEnqueue c.toCore k d).1 k := by
    simp
  have ht := (chanRecvEnqueue_touch c.toCore k d).trans (bumpRecvSeq_touch _ k)
  obtain ⟨xs, hxs, hall⟩ := drain_enqueues ncReorderSlots (k := k)
    (hcore ▸ h.inOrder hinv hk hd d) (hcore ▸ bumpRecvSeq_enqueue_inv hinv hk hd d)
    (by rw [hcore]; exact ht.used hk)
  have hbump : enqueues (bumpRecvSeq (chanRecvEnqueue c.toCore k d).1 k).log =
      enqueues c.log ++ [(k, d, true)] := by
    rw [← enqueue_enqueues hcan]
    simp [bumpRecvSeq, Core.mark, Core.modChan, enqueues]
  refine ⟨xs, ?_, hall⟩
  simp only [deliverReliable, if_pos hseq, chanDeliverReordered]
  rw [hxs, hcore, hbump, List.append_assoc]
  rfl

/-! ## A frame arrives -/

/-- The connection after `parse_frames` handled the frame. -/
def Conn.gets (env : Env) (c : Conn) (frame : List UInt8) : Conn :=
  match processFrame env c frame with
  | .ok (c, _) => c
  | .error _ => c

theorem Conn.gets_data (env : Env) (c : Conn) (id : UInt8) (seq : UInt16) (fragIdx fragTotal :
    UInt8)
    {payload : List UInt8} (h : payload.length < 2 ^ 16) :
    c.gets env (Frame.data id seq fragIdx fragTotal payload).encode =
      acceptData c id seq fragIdx.toNat fragTotal.toNat payload := by
  have hdec := Frame.decode_encode (f := .data id seq fragIdx fragTotal payload) h []
  rw [List.append_nil] at hdec
  unfold Conn.gets
  rw [processFrame_eq, hdec]
  rfl

section Gathering

variable {k n : Nat} {seq : UInt16} {d : List UInt8} {ts : List Nat}

theorem Ready.fits {s : Core} (h : Ready s k seq n d ts) (hinv : s.Inv)
    (hk : s.chanUsed k = true) (hlen : d.length ≤ ncMaxMsg) {t : Nat} (ht : t < n) :
    FragFits s k seq t (piece (maxFragPayload s.cfg) d t).length := by
  intro i hfind hacc hlast
  rcases h with ⟨-, hnone, -⟩ | ⟨-, j, hg⟩
  · rw [hnone] at hfind
    cases hfind
  · obtain rfl : j = i := Option.some.inj (hg.find.symm.trans hfind)
    obtain ⟨hi, hact, hfrag⟩ := hg.frag hinv hk
    have hstored := hg.store ht
    have hinv' := fragStore_inv hinv hk hi hact hacc.1 hacc.2.1 hacc.2.2
    have hk' := (fragStore_touch s k j t (piece (maxFragPayload s.cfg) d t)).used hk
    have hall := (hstored.complete_iff hinv' hk').mp (by rw [fragStore_frag]; exact hlast)
    have hoff : ∀ u < n, (((s.chanPool k).frags j).stored t
        (piece (maxFragPayload s.cfg) d t).length).offsets u =
          (piece (maxFragPayload s.cfg) d u).length := by
      intro u hu
      have hpieces := hstored.holds.pieces u (by rw [hstored.total]; exact hu)
        ((hstored.bits u).mpr (hall u hu))
      rw [fragStore_frag] at hpieces
      exact hpieces.1
    have hsum := hg.cut.sum_length
    have htotal : (((s.chanPool k).frags j).stored t
        (piece (maxFragPayload s.cfg) d t).length).total = n := hg.total
    unfold FragAsm.sum
    rw [htotal, List.map_congr_left fun u hu => hoff u (List.mem_range.mp hu), hsum]
    exact hlen

theorem Gathers.setNeedAck {s : Core} {i : Nat} (h : Gathers s k i seq n d ts) :
    Gathers (setNeedAck s k) k i seq n d ts := by
  have hfrags : ((NetchanV2.setNeedAck s k).chanPool k).frags = (s.chanPool k).frags := by
    simp [NetchanV2.setNeedAck, Core.modChan]
  refine ⟨?_, by rw [hfrags, h.total], ?_, by rw [hfrags]; exact h.bits⟩
  · rw [← h.find]
    exact fragFind_congr fun j => by rw [hfrags]; exact ⟨rfl, rfl⟩
  · rw [hfrags]
    exact ⟨h.holds.cut, h.holds.pieces⟩

/-- The connection `r` is `b` after the pieces `ts` of a message that is not complete. -/
structure Gathering (b r : Conn) (k : Nat) (seq : UInt16) (n : Nat) (d : List UInt8)
    (ts : List Nat) : Prop where
  good : r.toCore.Good
  touch : Core.Touch k b.toCore r.toCore
  head : (r.chanPool k).rqHead = (b.chanPool k).rqHead
  tail : (r.chanPool k).rqTail = (b.chanPool k).rqTail
  waits : Received (fun j => Waits b.toCore k (UInt16.ofNat j)) r.toCore k
    (b.chanPool k).recvSeq.toNat
  quiet : enqueues r.log = enqueues b.log
  ready : Ready r.toCore k seq n d ts

theorem Gathering.start {b : Conn} (h : b.toCore.Good) (hk : b.chanUsed k = true)
    (hready : Ready b.toCore k seq n d []) : Gathering b b k seq n d [] :=
  ⟨h, Core.Touch.refl k _, rfl, rfl, h.inv.received hk, rfl, hready⟩

theorem Gathering.fragReceive {b r : Conn} (h : Gathering b r k seq n d ts)
    (hk : b.chanUsed k = true) (hn1 : 1 < n) (hlen : d.length ≤ ncMaxMsg) {t : Nat} (ht : t < n)
    {s : Core} (hs : (fragReceive r.toCore k seq t n (piece (maxFragPayload r.cfg) d t)).1 = s) :
    s.Inv ∧ Core.Touch k r.toCore s ∧ (s.chanPool k).rqHead = (b.chanPool k).rqHead ∧
      (s.chanPool k).rqTail = (b.chanPool k).rqTail ∧
      (deliverable (s.chanPool k) = false) ∧
      Received (fun j => Waits b.toCore k (UInt16.ofNat j)) s k (b.chanPool k).recvSeq.toNat ∧
      enqueues s.log = enqueues b.log := by
  have hkr := h.touch.used hk
  obtain ⟨hinv, htouch, -⟩ := fragReceive_spec h.good.inv hkr seq t hn1
    (piece (maxFragPayload r.cfg) d t)
  obtain ⟨i, hkeep, -⟩ := (fragReceive_tame_iff h.good.inv hkr seq t hn1
    (piece (maxFragPayload r.cfg) d t)).2 (h.ready.fits h.good.inv hkr hlen ht)
  obtain ⟨ms, hlog, hms⟩ := fragReceive_log r.toCore k seq t n (piece (maxFragPayload r.cfg) d t)
  obtain ⟨frags, hchan⟩ := fragReceive_chan r.toCore k seq t n (piece (maxFragPayload r.cfg) d t)
  have hsettled := fragReceive_settled (h.good.settled k hkr) seq t n
    (piece (maxFragPayload r.cfg) d t)
  rw [hs] at hinv htouch hkeep hlog hchan hsettled
  refine ⟨hinv, htouch, by rw [hchan, ← h.head], by rw [hchan, ← h.tail], hsettled.drained, ?_, ?_⟩
  · exact h.waits.keep h.good.inv hkr hkeep (by simp [Off]) (by rw [hchan]) (by rw [hchan])
  · rw [hlog, enqueues_append, enqueues_quiet hms, List.append_nil, h.quiet]

variable {b r : Conn} {id : UInt8} {t : Nat}

theorem Gathering.next (h : Gathering b r k seq n d ts) (hgood : b.toCore.Good)
    (hid : b.channels id = some k) (hrole : (b.chanPool k).role = .receiver)
    (hcut : Cut (maxFragPayload b.cfg) n d) (hn : n ≤ ncMaxFrags) (hn1 : 1 < n)
    (hlen : d.length ≤ ncMaxMsg) (ht : t < n) (hmore : ¬∀ u < n, u ∈ t :: ts) :
    Gathering b (acceptData r id seq t n (piece (maxFragPayload b.cfg) d t)) k seq n d
      (t :: ts) := by
  have hk := (hgood.inv.table id k hid).2.1
  have hkr := h.touch.used hk
  have hcfg := h.touch.cfg
  have hmissing : ¬∀ u < n, u ∈ ts := fun e => hmore fun u hu => List.mem_cons_of_mem t (e u hu)
  rw [← hcfg] at hcut ⊢
  have hidr : r.channels id = some k := by rw [h.touch.channels, hid]
  have hgood' := acceptData_good h.good id seq t n (piece (maxFragPayload r.cfg) d t)
  obtain ⟨s, i, htop, hg, hres⟩ := h.ready.receive h.good.inv hkr hcut hn hn1 hlen hmissing ht
  rw [if_neg hmore] at hres
  obtain ⟨hinv, htouch, hhead, htail, -, hwaits, hquiet⟩ := h.fragReceive hk hn1 hlen ht
    (s := s) (by rw [hres])
  have hrole' : (r.chanPool k).role = .receiver := h.touch.fixed.2.1.trans hrole
  by_cases htype : (r.chanPool k).type = netchanUnreliable
  · have heq : acceptData r id seq t n (piece (maxFragPayload r.cfg) d t) =
        { r with toCore := s } := by
      simp only [acceptData, hidr, hrole', ne_eq, not_true_eq_false, if_false, htype, if_true,
        acceptDataUnreliable, Nat.not_le.mpr hn1, hres]
    rw [heq] at hgood' ⊢
    exact ⟨hgood', h.touch.trans htouch, hhead, htail, hwaits, hquiet, .inr ⟨htop, i, hg⟩⟩
  · have heq : (acceptData r id seq t n (piece (maxFragPayload r.cfg) d t)).toCore =
        setNeedAck s k := by
      simp only [acceptData, hidr, hrole', ne_eq, not_true_eq_false, if_false, htype,
        acceptDataReliable, Nat.not_le.mpr hn1, hres, Conn.lift_toCore]
    have hlog : (setNeedAck s k).log = s.log := rfl
    refine ⟨hgood', ?_, ?_, ?_, ?_, ?_, ?_⟩
    · rw [heq]
      exact (h.touch.trans htouch).trans (setNeedAck_touch s k)
    · rw [heq, ← hhead]
      simp [setNeedAck, Core.modChan]
    · rw [heq, ← htail]
      simp [setNeedAck, Core.modChan]
    · rw [heq]
      exact hwaits.keep hinv (htouch.used hkr) (setNeedAck_keeps (fun _ _ => True) s k)
        (fun _ => trivial) (by simp [setNeedAck, Core.modChan]) (by simp [setNeedAck, Core.modChan])
    · rw [heq, hlog, hquiet]
    · rw [heq]
      exact .inr ⟨htop, i, hg.setNeedAck⟩

/-- What is handed over with the last missing piece. -/
def HandsOver (b : Conn) (k : Nat) (seq : UInt16) (d : List UInt8) (r : Conn) : Prop :=
  ∃ xs : List (List UInt8 × Bool),
    enqueues r.log = enqueues b.log ++ (k, d, true) :: xs.map (fun x => (k, x.1, x.2)) ∧
    ((b.chanPool k).type = netchanUnreliable → xs = []) ∧
    ∀ i x, xs[i]? = some x → Waits b.toCore k (UInt16.ofNat (seq.toNat + 1 + i)) x.1

theorem Gathering.last (h : Gathering b r k seq n d ts) (hgood : b.toCore.Good)
    (hid : b.channels id = some k) (hrole : (b.chanPool k).role = .receiver)
    (hcut : Cut (maxFragPayload b.cfg) n d) (hn : n ≤ ncMaxFrags) (hn1 : 1 < n)
    (hlen : d.length ≤ ncMaxMsg)
    (hroom : ((b.chanPool k).rqTail + 1) % ncRecvQueue ≠ (b.chanPool k).rqHead)
    (hseq : (b.chanPool k).type ≠ netchanUnreliable → (b.chanPool k).recvSeq = seq)
    (ht : t < n) (hnew : t ∉ ts) (hall : ∀ u < n, u ∈ t :: ts) :
    HandsOver b k seq d (acceptData r id seq t n (piece (maxFragPayload b.cfg) d t)) := by
  have hk := (hgood.inv.table id k hid).2.1
  have hkr := h.touch.used hk
  have hcfg := h.touch.cfg
  have hmissing : ¬∀ u < n, u ∈ ts := fun e => hnew (e t ht)
  rw [← hcfg] at hcut ⊢
  have hidr : r.channels id = some k := by rw [h.touch.channels, hid]
  obtain ⟨s, i, htop, hg, hres⟩ := h.ready.receive h.good.inv hkr hcut hn hn1 hlen hmissing ht
  rw [if_pos hall] at hres
  obtain ⟨hinv, htouch, hhead, htail, hdrained, hwaits, hquiet⟩ := h.fragReceive hk hn1 hlen ht
    (s := s) (by rw [hres])
  have hks := htouch.used hkr
  have hbytes := hg.bytes hall
  have hcan : CanEnqueue s k d := ⟨by rw [hhead, htail]; exact hroom, hlen, htop⟩
  have hrole' : (r.chanPool k).role = .receiver := h.touch.fixed.2.1.trans hrole
  have htyper : (r.chanPool k).type = (b.chanPool k).type := h.touch.fixed.2.2.1
  have hfree : ∀ s j, enqueues (fragFree s k j).log = enqueues s.log := by
    intro s j
    simp [fragFree_eq, Core.modChan, poolPut_log]
  by_cases htype : (b.chanPool k).type = netchanUnreliable
  · refine ⟨[], ?_, fun _ => rfl, by simp⟩
    simp only [acceptData, hidr, hrole', ne_eq, not_true_eq_false, if_false, htyper, htype, if_true,
      acceptDataUnreliable, Nat.not_le.mpr hn1, hres, hbytes, Conn.lift_toCore, hfree,
      evPush_toCore]
    rw [enqueue_enqueues hcan, hquiet]
    rfl
  · have hnum : seq = (s.chanPool k).recvSeq := by
      rw [hwaits.seq, ← hseq htype]
      simp
    obtain ⟨xs, hxs, hwait⟩ := deliver_enqueues (c := { r with toCore := s }) hwaits hinv hks
      hdrained hcan hnum
    refine ⟨xs, ?_, fun e => absurd e htype, fun i x hx => ?_⟩
    · have hack : ∀ s, enqueues (setNeedAck s k).log = enqueues s.log := fun _ => rfl
      simp only [acceptData, hidr, hrole', ne_eq, not_true_eq_false, if_false, htyper, htype,
        acceptDataReliable, Nat.not_le.mpr hn1, hres, hbytes, Conn.lift_toCore, hfree, hack]
      rw [hxs, hquiet]
    · rw [← hseq htype]
      exact hwait i x hx

theorem single_handsOver (hgood : b.toCore.Good)
    (hid : b.channels id = some k) (hrole : (b.chanPool k).role = .receiver)
    (hlen : d.length ≤ ncMaxMsg)
    (hroom : ((b.chanPool k).rqTail + 1) % ncRecvQueue ≠ (b.chanPool k).rqHead)
    (htop : 0 < b.poolFreeTop)
    (hseq : (b.chanPool k).type ≠ netchanUnreliable → (b.chanPool k).recvSeq = seq) (t : Nat) :
    HandsOver b k seq d (acceptData b id seq t 1 d) := by
  have hk := (hgood.inv.table id k hid).2.1
  have hcan : CanEnqueue b.toCore k d := ⟨hroom, hlen, htop⟩
  by_cases htype : (b.chanPool k).type = netchanUnreliable
  · refine ⟨[], ?_, fun _ => rfl, by simp⟩
    simp only [acceptData, hid, hrole, ne_eq, not_true_eq_false, if_false, htype, if_true,
      acceptDataUnreliable, le_refl, evPush_toCore, Conn.lift_toCore]
    exact enqueue_enqueues hcan
  · obtain ⟨xs, hxs, hwait⟩ := deliver_enqueues (hgood.inv.received hk) hgood.inv hk
      (hgood.settled k hk).drained hcan (hseq htype).symm
    refine ⟨xs, ?_, fun e => absurd e htype, fun i x hx => ?_⟩
    · have hack : ∀ s, enqueues (setNeedAck s k).log = enqueues s.log := fun _ => rfl
      simp only [acceptData, hid, hrole, ne_eq, not_true_eq_false, if_false, htype,
        acceptDataReliable, le_refl, if_true, Conn.lift_toCore, hack]
      exact hxs
    · rw [← hseq htype]
      exact hwait i x hx

end Gathering

/-! ## There and back -/

/-- The number of the fragment in a DATA frame. -/
def fragNumber (frame : List UInt8) : Nat := (frame.getD 6 0).toNat

section

variable {fp n k t : Nat} {id : UInt8} {seq : UInt16} {d : List UInt8} {b r : Conn}

theorem fragNumber_frame (ht : t < n) (hn : n ≤ ncMaxFrags) :
    fragNumber (fragmentFrame fp id seq n d t).encode = t := by
  simp only [ncMaxFrags] at hn
  have hbyte : (fragmentFrame fp id seq n d t).encode.getD 6 0 = UInt8.ofNat t := by
    simp [fragmentFrame, Frame.encode, Lib.BigEndian.wr16]
  rw [fragNumber, hbyte, UInt8.toNat_ofNat', Nat.mod_eq_of_lt (by omega)]

theorem gets_frame (env : Env) (hcut : Cut fp n d) (hlen : d.length ≤ ncMaxMsg) (ht : t < n)
    (hn : n ≤ ncMaxFrags) :
    r.gets env (fragmentFrame fp id seq n d t).encode =
      acceptData r id seq t n (piece fp d t) := by
  simp only [ncMaxFrags] at hn
  have hmax : ncMaxMsg = 2048 := rfl
  have hend := hcut.end_le ht
  rw [fragmentFrame, Conn.gets_data _ _ _ _ _ _ (by omega), UInt8.toNat_ofNat',
    UInt8.toNat_ofNat', Nat.mod_eq_of_lt (by omega), Nat.mod_eq_of_lt (by omega)]

theorem Gathering.foldl (us : List Nat) {ts : List Nat} (h : Gathering b r k seq n d ts)
    (hgood : b.toCore.Good) (hid : b.channels id = some k)
    (hrole : (b.chanPool k).role = .receiver) (hcut : Cut (maxFragPayload b.cfg) n d)
    (hn : n ≤ ncMaxFrags) (hn1 : 1 < n) (hlen : d.length ≤ ncMaxMsg) (hus : ∀ u ∈ us, u < n)
    {t : Nat} (ht : t < n) (hus' : t ∉ us) (hts : t ∉ ts) :
    ∃ ts', (∀ u, u ∈ ts' ↔ u ∈ us ∨ u ∈ ts) ∧
      Gathering b (us.foldl (fun r u => acceptData r id seq u n (piece (maxFragPayload b.cfg) d u))
        r) k seq n d ts' := by
  induction us generalizing r ts with
  | nil => exact ⟨ts, by simp, h⟩
  | cons u us ih =>
    simp only [List.mem_cons, not_or] at hus'
    have hne : t ∉ u :: ts := by
      simp only [List.mem_cons, not_or]
      exact ⟨hus'.1, hts⟩
    have hnext := h.next hgood hid hrole hcut hn hn1 hlen (hus u List.mem_cons_self)
      fun hall => hne (hall t ht)
    obtain ⟨ts', hmem, hg⟩ := ih hnext (fun v hv => hus v (List.mem_cons_of_mem u hv)) hus'.2 hne
    refine ⟨ts', fun v => (hmem v).trans ?_, hg⟩
    simp only [List.mem_cons]
    tauto

theorem pieces_handOver (hgood : b.toCore.Good) (hid : b.channels id = some k)
    (hrole : (b.chanPool k).role = .receiver) (hcut : Cut (maxFragPayload b.cfg) n d)
    (hn : n ≤ ncMaxFrags) (hlen : d.length ≤ ncMaxMsg)
    (hnone : fragFind (b.chanPool k) seq = none)
    (hnext : (b.chanPool k).type ≠ netchanUnreliable → (b.chanPool k).recvSeq = seq)
    (hidle : ∃ i < ncFragSlots, ((b.chanPool k).frags i).active = false)
    (hpool : min n 2 ≤ b.poolFreeTop)
    (hroom : ((b.chanPool k).rqTail + 1) % ncRecvQueue ≠ (b.chanPool k).rqHead)
    {us : List Nat} (hus : ∀ u ∈ us, u < n) (ht : t < n) (hnew : t ∉ us)
    (hall : ∀ u < n, u ∈ t :: us) :
    let r := us.foldl (fun r u => acceptData r id seq u n (piece (maxFragPayload b.cfg) d u)) b
    enqueues r.log = enqueues b.log ∧
      HandsOver b k seq d (acceptData r id seq t n (piece (maxFragPayload b.cfg) d t)) := by
  rcases Nat.lt_or_ge 1 n with hn1 | hn1
  · have hk := (hgood.inv.table id k hid).2.1
    have hready : Ready b.toCore k seq n d [] := .inl ⟨rfl, hnone, hidle, by omega⟩
    obtain ⟨ts, hmem, hg⟩ := (Gathering.start hgood hk hready).foldl us hgood hid hrole hcut hn hn1
      hlen hus ht hnew (by simp)
    refine ⟨hg.quiet, hg.last hgood hid hrole hcut hn hn1 hlen hroom hnext ht ?_ fun u hu => ?_⟩
    · simpa [hmem] using hnew
    · simpa [hmem] using hall u hu
  · -- one fragment: nothing came before it
    obtain rfl : n = 1 := by omega
    obtain rfl : t = 0 := by omega
    have hnil : us = [] := by
      refine List.eq_nil_iff_forall_not_mem.mpr fun u hu => ?_
      obtain rfl : u = 0 := by have := hus u hu; omega
      exact hnew hu
    have hpiece : piece (maxFragPayload b.cfg) d 0 = d := by
      have hhi := hcut.hi
      rw [piece, Nat.zero_mul, List.drop_zero, List.take_of_length_le (by omega)]
    rw [hnil, hpiece]
    exact ⟨rfl, single_handsOver hgood hid hrole hlen hroom (by omega) hnext 0⟩

theorem emitted_frames {a a' : Conn} (hfp : 64 ≤ maxFragPayload a.cfg) (hpos : 0 < d.length)
    (hwrite : netchanChanWrite a k d = (a', .ok d.length)) (calls : List (Env × Nat)) :
    d.length ≤ ncMaxMsg ∧ fragCount a.cfg d.length ≤ ncMaxFrags ∧
      ∃ x ≤ fragCount a.cfg d.length,
        Sending (maxFragPayload a.cfg) (fragCount a.cfg d.length) (a.chanPool k).id
          (a.chanPool k).sendSeq d (a'.sends calls).toCore k (a.chanPool k).outTail x ∧
        Conn.emitted (k, (a.chanPool k).outTail) a' calls =
          (List.range x).map fun t => (fragmentFrame (maxFragPayload a.cfg) (a.chanPool k).id
            (a.chanPool k).sendSeq (fragCount a.cfg d.length) d t).encode := by
  have hwrite' : chanWrite a.toCore k d = (a'.toCore, .ok d.length) := by
    unfold netchanChanWrite at hwrite
    cases hres : chanWrite a.toCore k d with
    | mk s' r =>
      rw [hres] at hwrite
      simp only [Prod.mk.injEq] at hwrite
      rw [← hwrite.1, hwrite.2]
  obtain ⟨hlen, hn, hstart⟩ := Sending.start hwrite' hpos
  have hcut := fragCount_cut (show 9 ≤ maxFragPayload a.cfg by omega) hpos hlen
  obtain ⟨x, hsent, hframes⟩ := hstart.sends calls hcut hlen
  rw [Nat.zero_add] at hsent
  rw [← List.range_eq_range'] at hframes
  exact ⟨hlen, hn, x, hsent.le, hsent, hframes⟩

end

/-- The message comes out of its fragments, whatever their order and repetition. -/
theorem fragments_roundTrip {a a' b : Conn} (hb : b.Reachable) (hmtu : b.cfg.mtu = a.cfg.mtu)
    (hfp : 64 ≤ maxFragPayload a.cfg) {k kr : Nat} {d : List UInt8} (hpos : 0 < d.length)
    (hwrite : netchanChanWrite a k d = (a', .ok d.length)) (calls : List (Env × Nat))
    (hid : b.channels (a.chanPool k).id = some kr) (hrole : (b.chanPool kr).role = .receiver)
    (hnone : fragFind (b.chanPool kr) (a.chanPool k).sendSeq = none)
    (hnext : (b.chanPool kr).type ≠ netchanUnreliable →
      (b.chanPool kr).recvSeq = (a.chanPool k).sendSeq)
    (hidle : ∃ i < ncFragSlots, ((b.chanPool kr).frags i).active = false)
    (hpool : min (fragCount a.cfg d.length) 2 ≤ b.poolFreeTop)
    (hroom : ((b.chanPool kr).rqTail + 1) % ncRecvQueue ≠ (b.chanPool kr).rqHead) :
    let n := fragCount a.cfg d.length
    let frames := Conn.emitted (k, (a.chanPool k).outTail) a' calls
    let slot := ((a'.sends calls).chanPool k).outgoing (a.chanPool k).outTail
    (frames.map fragNumber = List.range (if slot.active then slot.fragSent else n)) ∧
    ∀ env fs f, (∀ g ∈ fs, g ∈ frames) → f ∈ frames →
      (∀ g ∈ fs, fragNumber g ≠ fragNumber f) → (∀ t < n, ∃ g ∈ f :: fs, fragNumber g = t) →
      enqueues (fs.foldl (Conn.gets env) b).log = enqueues b.log ∧
        HandsOver b kr (a.chanPool k).sendSeq d ((fs.foldl (Conn.gets env) b).gets env f) := by
  intro n frames slot
  obtain ⟨hlen, hn, x, hx, hsent, hframes⟩ := emitted_frames hfp hpos hwrite calls
  have hsize : maxFragPayload b.cfg = maxFragPayload a.cfg := by simp only [maxFragPayload, hmtu]
  have hcut := fragCount_cut (show 9 ≤ maxFragPayload a.cfg by omega) hpos hlen
  -- every frame is one of the fragments
  have hframe : ∀ g ∈ frames, fragNumber g < n ∧ ∀ env (r : Conn), r.gets env g =
      acceptData r (a.chanPool k).id (a.chanPool k).sendSeq (fragNumber g) n
        (piece (maxFragPayload b.cfg) d (fragNumber g)) := by
    intro g hg
    rw [show frames = _ from hframes] at hg
    obtain ⟨t, ht, rfl⟩ := List.mem_map.mp hg
    have ht' := List.mem_range.mp ht
    rw [fragNumber_frame (by omega) hn, hsize]
    exact ⟨by omega, fun env r => gets_frame env hcut hlen (by omega) hn⟩
  refine ⟨?_, fun env fs f hfs hf hnew hall => ?_⟩
  · have hcount : x = if slot.active then slot.fragSent else n := by
      split_ifs with hact
      · exact (hsent.busy hact).2.2.2.1.symm
      · exact hsent.done (by simpa using hact)
    rw [← hcount, show frames = _ from hframes, List.map_map]
    conv_rhs => rw [← List.map_id (List.range x)]
    apply List.map_congr_left
    intro t ht
    rw [List.mem_range] at ht
    exact fragNumber_frame (by omega) hn
  · have hfold : fs.foldl (Conn.gets env) b = (fs.map fragNumber).foldl (fun r u =>
        acceptData r (a.chanPool k).id (a.chanPool k).sendSeq u n
          (piece (maxFragPayload b.cfg) d u)) b := by
      rw [List.foldl_map]
      exact List.foldl_ext _ _ b fun r g hg => (hframe g (hfs g hg)).2 env r
    rw [(hframe f hf).2 env, hfold]
    refine pieces_handOver hb.good hid hrole (hsize ▸ hcut) hn hlen hnone hnext hidle hpool hroom
      ?_ (hframe f hf).1 ?_ fun t ht => ?_
    · intro u hu
      obtain ⟨g, hg, rfl⟩ := List.mem_map.mp hu
      exact (hframe g (hfs g hg)).1
    · intro hmem
      obtain ⟨g, hg, heq⟩ := List.mem_map.mp hmem
      exact hnew g hg heq
    · obtain ⟨g, hg, rfl⟩ := hall t ht
      rw [← List.map_cons]
      exact List.mem_map_of_mem hg

/-- A server with fragments of 64 bytes whose client accepted the channel that it opened. -/
def cuttingServer : Conn :=
  (netchanOpen true { netchanCfgDefault with mtu := 79 }).run
    [.feed quietEnv [0x01, 0, 0, 0, 5, 0x01, 0, 0, 0, 5, 0x01] none, .accept,
      .chanOpen netchanReliable netchanDirSend none,
      .feed quietEnv [0x02, 0, 0, 0, 7, 0, 0, 0x0B, 1, 0, 1, 0, 0] none]

/-- The client, with that channel. -/
def gatheringClient : Conn :=
  (netchanOpen false { netchanCfgDefault with mtu := 79 }).run
    [.feed quietEnv [0x01, 0, 0, 0, 5, 0x07, 1, 0, 0, 0] none]

/-- The frames of a message of 65 bytes. -/
def twoFrames : List (List UInt8) :=
  Conn.emitted (0, 0) (netchanChanWrite cuttingServer 0 (List.replicate 65 7)).1
    [(quietEnv, 79), (quietEnv, 79), (quietEnv, 79)]

/-- The second fragment comes first, and twice. -/
theorem fragments_roundTrip_two :
    HandsOver gatheringClient 0 0 (List.replicate 65 7)
      (([twoFrames.getD 1 [], twoFrames.getD 1 []].foldl (Conn.gets quietEnv)
        gatheringClient).gets quietEnv (twoFrames.getD 0 [])) := by
  have hreach : gatheringClient.Reachable := (reachable_open false _).run _
  have hid : gatheringClient.channels (cuttingServer.chanPool 0).id = some 0 := by decide +kernel
  have h := fragments_roundTrip (a := cuttingServer) (k := 0) (d := List.replicate 65 7) hreach rfl
    (by decide +kernel) (by decide) (Prod.ext rfl (by decide +kernel))
    [(quietEnv, 79), (quietEnv, 79), (quietEnv, 79)] hid (by decide +kernel) (by decide +kernel)
    (by decide +kernel) ⟨0, by decide, by decide +kernel⟩ (by decide +kernel) (by decide +kernel)
  exact (h.2 quietEnv [twoFrames.getD 1 [], twoFrames.getD 1 []] (twoFrames.getD 0 [])
    (by decide +kernel) (by decide +kernel) (by decide +kernel) (by decide +kernel)).2

end MechanicalResearcher.NetchanV2
