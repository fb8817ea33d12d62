import MechanicalResearcher.NetchanV2.Packets

/-!
# The fragments that a message is sent in

`sentData` lists the DATA frames of a packet with the outgoing slot that each comes from.
A slot that holds a message, of which `m` fragments were sent, gives the fragments from `m`
on, in order and one at a time, until all are sent.
-/

namespace MechanicalResearcher.NetchanV2

open Lib Lib.Serial Lib.BigEndian Lib.Pieces

/-- The DATA frames that `sendData` appends: the record and the slot, and the bytes. -/
def sentData (env : Env) (mtu : Nat) :
    List Nat → Conn → List UInt8 → List ((Nat × Nat) × List UInt8)
  | [], _, _ => []
  | i :: is, c, out =>
    if out.length + 9 ≤ mtu then
      match c.channels (UInt8.ofNat i) with
      | none => sentData env mtu is c out
      | some k =>
        if (c.chanPool k).role = .sender ∧ (c.chanPool k).state = .opened then
          match chanNextSendable (c.chanPool k) with
          | none => sentData env mtu is c out
          | some j =>
            if fragLen c.cfg ((c.chanPool k).outgoing j) > mtu - out.length - 8 then []
            else
              ((k, j), dataFrame c.toCore k j) ::
                sentData env mtu is (c.lift fun s => sentFragment (env.nowMs i) s k j)
                  (out ++ dataFrame c.toCore k j)
        else sentData env mtu is c out
    else []

/-- The DATA frames of the packet that `netchan_send_next` builds. -/
def Conn.dataSent (env : Env) (c : Conn) (buflen : Nat) : List ((Nat × Nat) × List UInt8) :=
  if hasData c = false ∨ buflen < headerSize c then []
  else
    let mtu := min c.cfg.mtu.toNat buflen
    sentData env mtu (List.range ncMaxChannels) (packetAcks mtu c).1 (packetAcks mtu c).2

/-- The frames of one slot. -/
def ofSlot (slot : Nat × Nat) (sent : List ((Nat × Nat) × List UInt8)) : List (List UInt8) :=
  sent.filterMap fun f => if f.1 = slot then some f.2 else none

/-- The calls of `netchan_send_next` one after the other. -/
def Conn.sends (c : Conn) (calls : List (Env × Nat)) : Conn :=
  calls.foldl (fun c e => (netchanSendNext e.1 c e.2).1) c

/-- The frames of one slot in the packets of these calls. -/
def Conn.emitted (slot : Nat × Nat) : Conn → List (Env × Nat) → List (List UInt8)
  | _, [] => []
  | c, e :: es =>
    ofSlot slot (c.dataSent e.1 e.2) ++ Conn.emitted slot (netchanSendNext e.1 c e.2).1 es

/-- Fragment `t` of the message `d`, which has `n`. -/
def fragmentFrame (fp : Nat) (id : UInt8) (seq : UInt16) (n : Nat) (d : List UInt8) (t : Nat) :
    Frame :=
  .data id seq (UInt8.ofNat t) (UInt8.ofNat n) (piece fp d t)

/-- Of the message `d` of slot `j`, `m` of the `n` fragments were sent. -/
structure Sending (fp n : Nat) (id : UInt8) (seq : UInt16) (d : List UInt8) (s : Core)
    (k j m : Nat) : Prop where
  size : maxFragPayload s.cfg = fp
  id : (s.chanPool k).id = id
  le : m ≤ n
  busy : ((s.chanPool k).outgoing j).active = true →
    ((s.chanPool k).outgoing j).seq = seq ∧ ((s.chanPool k).outgoing j).len = d.length ∧
    ((s.chanPool k).outgoing j).fragTotal = n ∧ ((s.chanPool k).outgoing j).fragSent = m ∧
    s.bytes (poolPtr ((s.chanPool k).outgoing j).buf) d.length = d
  done : ((s.chanPool k).outgoing j).active = false → m = n

section Sending

variable {fp n k j m : Nat} {id : UInt8} {seq : UInt16} {d : List UInt8} {s : Core}

theorem Sending.keep (h : Sending fp n id seq d s k j m) {s' : Core} (hcfg : s'.cfg = s.cfg)
    (hstore : s'.poolStore = s.poolStore) (hid : (s'.chanPool k).id = (s.chanPool k).id)
    (hslot : (s'.chanPool k).outgoing j = (s.chanPool k).outgoing j) :
    Sending fp n id seq d s' k j m := by
  have hbytes : ∀ a len, s'.bytes a len = s.bytes a len := by
    intro a len
    simp only [Core.bytes, hstore]
  refine ⟨by rw [hcfg, h.size], by rw [hid, h.id], h.le, ?_, ?_⟩
  · simp only [hslot, hbytes]
    exact h.busy
  · rw [hslot]
    exact h.done

theorem Sending.dataFrame (h : Sending fp n id seq d s k j m) (hcut : Cut fp n d)
    (hlen : d.length ≤ ncMaxMsg) (hact : ((s.chanPool k).outgoing j).active = true) (hm : m < n) :
    dataFrame s k j = (fragmentFrame fp id seq n d m).encode := by
  obtain ⟨hseq, hdlen, htotal, hsent, hbytes⟩ := h.busy hact
  have hstart := hcut.start_lt hm
  have hflen : fragLen s.cfg ((s.chanPool k).outgoing j) = min (d.length - m * fp) fp := by
    rw [fragLen_eq (by rw [hdlen]; exact hlen) (by rw [hsent, h.size, hdlen]; exact hstart),
      hsent, h.size, hdlen]
  have hpiece : s.bytes (poolPtr ((s.chanPool k).outgoing j).buf + m * fp)
      (min (d.length - m * fp) fp) = piece fp d m := by
    unfold Core.bytes at hbytes ⊢
    rw [← Memory.take_drop_read, hbytes, piece]
  have hplen : (piece fp d m).length = min (d.length - m * fp) fp := by
    rw [length_piece, Nat.min_comm]
  simp only [NetchanV2.dataFrame, hflen, hsent, h.size, hpiece, hseq, htotal, h.id, fragmentFrame,
    Frame.encode, hplen]

theorem sentFragment_frame (now : UInt32) (s : Core) (k j : Nat) :
    (sentFragment now s k j).cfg = s.cfg ∧ (sentFragment now s k j).poolStore = s.poolStore ∧
      (∀ l, l ≠ k → (sentFragment now s k j).chanPool l = s.chanPool l) ∧
      ((sentFragment now s k j).chanPool k).id = (s.chanPool k).id := by
  have hput : ∀ (s : Core) b, (poolPut s b).cfg = s.cfg ∧ (poolPut s b).poolStore =
    s.poolStore := by
    intro s b
    cases b <;> exact ⟨rfl, rfl⟩
  rw [sentFragment_eq]
  split_ifs
  · obtain ⟨head, hhead⟩ := advanceHead_chan ((poolPut
      (s.setOut k j (((s.chanPool k).outgoing j).sent now)) ((s.chanPool k).outgoing j).buf).setOut
      k j (((s.chanPool k).outgoing j).sent now).freed) k
    refine ⟨(hput _ _).1, (hput _ _).2, fun l hl => ?_, ?_⟩
    · simp [advanceHead, Core.setOut, Core.modChan, poolPut_chanPool, Function.update_of_ne hl]
    · rw [hhead, setOut_chan, poolPut_chanPool, setOut_chan]
  · refine ⟨rfl, rfl, fun l hl => ?_, ?_⟩
    · simp [Core.setOut, Core.modChan, Function.update_of_ne hl]
    · rw [setOut_chan]

theorem sentFragment_outgoing (now : UInt32) (s : Core) (k j : Nat) :
    ((sentFragment now s k j).chanPool k).outgoing =
      Function.update (s.chanPool k).outgoing j
        (if ((s.chanPool k).outgoing j).fragTotal ≤ ((s.chanPool k).outgoing j).fragSent + 1 ∧
            (s.chanPool k).type = netchanUnreliable then
          (((s.chanPool k).outgoing j).sent now).freed
        else ((s.chanPool k).outgoing j).sent now) := by
  rw [sentFragment_eq]
  split_ifs
  · rw [advanceHead_outgoing, setOut_chan, poolPut_chanPool, setOut_chan, Function.update_idem]
  · rw [setOut_chan]

theorem Sending.sentFragment (h : Sending fp n id seq d s k j m) (now : UInt32) {k' j' : Nat}
    (hact : ((s.chanPool k').outgoing j').active = true)
    (hmore : ((s.chanPool k').outgoing j').fragSent < ((s.chanPool k').outgoing j').fragTotal) :
    Sending fp n id seq d (sentFragment now s k' j') k j
      (if (k', j') = (k, j) then m + 1 else m) := by
  obtain ⟨hcfg, hstore, hother, hid⟩ := sentFragment_frame now s k' j'
  have hout := sentFragment_outgoing now s k' j'
  by_cases hk : k' = k
  · subst hk
    by_cases hj : j' = j
    · subst hj
      obtain ⟨hseq, hdlen, htotal, hsent, hbytes⟩ := h.busy hact
      rw [if_pos rfl]
      rw [hsent, htotal] at hmore hout
      refine ⟨by rw [hcfg, h.size], by rw [hid, h.id], hmore, fun hact' => ?_, fun hidle => ?_⟩
      · rw [hout, Function.update_self] at hact' ⊢
        split_ifs at hact' ⊢
        · cases hact'
        · refine ⟨hseq, hdlen, htotal, by rw [← hsent]; rfl, ?_⟩
          have hsame : (NetchanV2.sentFragment now s k' j').bytes = s.bytes := by
            funext a len
            simp only [Core.bytes, hstore]
          rw [hsame]
          exact hbytes
      · rw [hout, Function.update_self] at hidle
        split_ifs at hidle with hlast
        · omega
        · exact absurd (hact.symm.trans hidle) (by decide)
    · rw [if_neg fun e => hj (Prod.mk.inj e).2]
      refine h.keep hcfg hstore hid ?_
      rw [hout, Function.update_of_ne (Ne.symm hj)]
  · rw [if_neg fun e => hk (Prod.mk.inj e).1]
    have hch := hother k (Ne.symm hk)
    exact h.keep hcfg hstore (by rw [hch]) (by rw [hch])

theorem Sending.flushAcks (mtu : Nat) (is : List Nat) {c : Conn}
    (h : Sending fp n id seq d c.toCore k j m) (out : List UInt8) :
    Sending fp n id seq d (flushAcks mtu is c out).1.toCore k j m := by
  have hmod : ∀ {c : Conn} (k' : Nat) (f : Chan → Chan), (∀ ch, (f ch).id = ch.id) →
      (∀ ch, (f ch).outgoing = ch.outgoing) → Sending fp n id seq d c.toCore k j m →
      Sending fp n id seq d (c.toCore.modChan k' f) k j m := by
    intro c k' f hid hout h
    refine h.keep rfl rfl ?_ ?_ <;> by_cases hk : k = k'
    · subst hk
      simp [Core.modChan, hid]
    · simp [Core.modChan, Function.update_of_ne hk]
    · subst hk
      simp [Core.modChan, hout]
    · simp [Core.modChan, Function.update_of_ne hk]
  induction is generalizing c out with
  | nil => exact h
  | cons i is ih =>
    unfold NetchanV2.flushAcks
    split_ifs
    · cases c.channels (UInt8.ofNat i) with
      | none => exact ih h out
      | some k' =>
        refine ih (c := (flushWindow mtu (flushAck mtu c k' out).1 k'
          (flushAck mtu c k' out).2).1) ?_ _
        have hack : Sending fp n id seq d (flushAck mtu c k' out).1.toCore k j m := by
          rw [flushAck_eq]
          split_ifs
          · exact (hmod k' (fun ch => { ch with needAck := false }) (fun _ => rfl)
              (fun _ => rfl) h).keep rfl rfl rfl rfl
          · exact h
        rw [flushWindow_eq]
        split_ifs
        · exact hmod k' (fun ch => { ch with needWindowUpdate := false }) (fun _ => rfl)
            (fun _ => rfl) hack
        · exact hack
    · exact h

theorem sendableFrom_active {ch : Chan} {fuel idx j : Nat} (h : sendableFrom ch fuel idx = some j) :
    (ch.outgoing j).active = true ∧ (ch.outgoing j).fragSent < (ch.outgoing j).fragTotal := by
  induction fuel generalizing idx with
  | zero => cases h
  | succ fuel ih =>
    unfold sendableFrom at h
    split_ifs at h with htail hact
    · cases h
      exact hact
    · exact ih h

theorem Sending.sendData (env : Env) (mtu : Nat) (is : List Nat) {c : Conn}
    (h : Sending fp n id seq d c.toCore k j m) (hcut : Cut fp n d) (hlen : d.length ≤ ncMaxMsg)
    (out : List UInt8) :
    ∃ x, Sending fp n id seq d (sendData env mtu is c out).1.toCore k j (m + x) ∧
      ofSlot (k, j) (sentData env mtu is c out) =
        (List.range' m x).map fun t => (fragmentFrame fp id seq n d t).encode := by
  induction is generalizing c m out with
  | nil => exact ⟨0, h, rfl⟩
  | cons i is ih =>
    unfold NetchanV2.sendData sentData
    split_ifs
    · cases c.channels (UInt8.ofNat i) with
      | none => exact ih h out
      | some k' =>
        dsimp only
        split_ifs
        · cases hnext : chanNextSendable (c.chanPool k') with
          | none => exact ih h out
          | some j' =>
            dsimp only
            split_ifs
            · exact ⟨0, h, rfl⟩
            · obtain ⟨hact, hmore⟩ := sendableFrom_active hnext
              have hsent := h.sentFragment (env.nowMs i) hact hmore
              obtain ⟨x, hx, hframes⟩ := ih (c := c.lift fun s =>
                NetchanV2.sentFragment (env.nowMs i) s k' j') hsent
                (out ++ NetchanV2.dataFrame c.toCore k' j')
              by_cases hslot : (k', j') = (k, j)
              · obtain ⟨rfl, rfl⟩ := Prod.mk.inj hslot
                obtain ⟨-, -, htotal, hm, -⟩ := h.busy hact
                rw [if_pos rfl] at hx hframes
                refine ⟨x + 1, by rwa [Nat.add_right_comm, Nat.add_assoc] at hx, ?_⟩
                rw [ofSlot, List.filterMap_cons, if_pos rfl, List.range'_succ, List.map_cons,
                  ← hframes, ← h.dataFrame hcut hlen hact (by rwa [htotal, hm] at hmore)]
                rfl
              · rw [if_neg hslot] at hx hframes
                refine ⟨x, hx, ?_⟩
                rw [ofSlot, List.filterMap_cons, if_neg hslot]
                exact hframes
        · exact ih h out
    · exact ⟨0, h, rfl⟩

theorem Sending.sendNext (env : Env) (buflen : Nat) {c : Conn}
    (h : Sending fp n id seq d c.toCore k j m) (hcut : Cut fp n d) (hlen : d.length ≤ ncMaxMsg) :
    ∃ x, Sending fp n id seq d (netchanSendNext env c buflen).1.toCore k j (m + x) ∧
      ofSlot (k, j) (c.dataSent env buflen) =
        (List.range' m x).map fun t => (fragmentFrame fp id seq n d t).encode := by
  rw [netchanSendNext_eq]
  unfold Conn.dataSent
  split_ifs
  · exact ⟨0, h, rfl⟩
  · refine Sending.sendData env _ (List.range ncMaxChannels) ?_ hcut hlen _
    refine Sending.flushAcks _ (List.range ncMaxChannels) ?_ _
    rw [packetCtrl_toCore]
    exact h

theorem Sending.sends (calls : List (Env × Nat)) {c : Conn}
    (h : Sending fp n id seq d c.toCore k j m) (hcut : Cut fp n d) (hlen : d.length ≤ ncMaxMsg) :
    ∃ x, Sending fp n id seq d (c.sends calls).toCore k j (m + x) ∧
      Conn.emitted (k, j) c calls =
        (List.range' m x).map fun t => (fragmentFrame fp id seq n d t).encode := by
  induction calls generalizing c m with
  | nil => exact ⟨0, h, rfl⟩
  | cons e es ih =>
    obtain ⟨x, hx, hframes⟩ := h.sendNext e.1 e.2 hcut hlen
    obtain ⟨y, hy, hrest⟩ := ih hx
    refine ⟨x + y, by rwa [← Nat.add_assoc], ?_⟩
    rw [Conn.emitted, hframes, hrest, ← List.map_append, ← List.range'_append_1]

theorem Sending.start {s' : Core} (h : chanWrite s k d = (s', .ok d.length)) (hpos : 0 < d.length) :
    d.length ≤ ncMaxMsg ∧ fragCount s.cfg d.length ≤ ncMaxFrags ∧
      Sending (maxFragPayload s.cfg) (fragCount s.cfg d.length) (s.chanPool k).id
        (s.chanPool k).sendSeq d s' k (s.chanPool k).outTail 0 := by
  by_cases hcan : CanWrite s k d
  · rcases chanWrite_taken hcan with ⟨-, heq⟩ | ⟨hfew, heq⟩
    · rw [heq] at h
      cases h
    · have hbytes := takeInto_bytes s k d fun b ch =>
        ch.queued b d.length (fragCount s.cfg d.length)
      rw [heq] at h
      cases h
      refine ⟨hcan.2.2.2.1, hfew, rfl, ?_, Nat.zero_le _, fun _ => ?_, fun hidle => ?_⟩
      · simp [Core.mark, Core.takeInto, Chan.queued]
      · simp only [Core.mark, Core.takeInto, Chan.queued, Function.update_self, true_and]
        exact hbytes
      · simp [Core.mark, Core.takeInto, Chan.queued] at hidle
  · obtain ⟨r, heq, hr⟩ := chanWrite_refused hcan
    rw [heq] at h
    rcases hr with rfl | ⟨e, rfl⟩
    · simp only [Prod.mk.injEq, Except.ok.injEq] at h
      omega
    · cases h

end Sending

end MechanicalResearcher.NetchanV2
