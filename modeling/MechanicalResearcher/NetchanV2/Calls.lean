import MechanicalResearcher.Lib.Runs
import MechanicalResearcher.NetchanV2.Preserve

/-!
# Runs of one connection

The calls of the interface keep the invariant too, so it holds in every state a
connection can reach, and with it the conservation of the buffer pool.
-/

namespace MechanicalResearcher.NetchanV2

open Lib.Serial Lib.Ownership Lib.Runs

variable {k mtu j : Nat} {out : List UInt8}

/-! ## Packet output -/

theorem Core.Good.mark {s : Core} (h : s.Good) (m : Mark) : (s.mark m).Good :=
  ⟨h.inv.mark m, h.settled⟩

theorem flushAck_eq (mtu : Nat) (c : Conn) (k : Nat) (out : List UInt8) :
    (flushAck mtu c k out).1 =
      if (c.chanPool k).needAck = true ∧ out.length + 4 ≤ mtu then
        c.lift fun s =>
          (s.modChan k fun ch => { ch with needAck := false }).mark
            (.ack k (c.chanPool k).ackSeq)
      else c := by
  unfold flushAck
  dsimp only
  split_ifs <;> rfl

theorem flushAck_good {c : Conn} (h : c.toCore.Good) (hk : c.chanUsed k = true) (mtu : Nat)
    (out : List UInt8) :
    (flushAck mtu c k out).1.toCore.Good ∧
      Core.Touch k c.toCore (flushAck mtu c k out).1.toCore := by
  have hch := h.inv.chans k hk
  rw [flushAck_eq]
  split_ifs
  · have ht := Core.Touch.modChan c.toCore k (f := fun ch => { ch with needAck := false })
      ⟨rfl, rfl, rfl, rfl, rfl⟩
    refine ⟨(h.modChan hk ht ?_ ⟨hch.out, hch.queue, hch.reorder, hch.frag⟩
      ⟨(h.settled k hk).drained, ?_⟩).mark _, ht.trans (Core.Touch.mark _ rfl)⟩
    · funext x
      cases x <;> rfl
    · simp [AckInv]
  · exact ⟨h, Core.Touch.refl k _⟩

theorem flushWindow_eq (mtu : Nat) (c : Conn) (k : Nat) (out : List UInt8) :
    (flushWindow mtu c k out).1 =
      if (c.chanPool k).needWindowUpdate = true ∧ out.length + 6 ≤ mtu then
        c.lift fun s => s.modChan k fun ch => { ch with needWindowUpdate := false }
      else c := by
  unfold flushWindow
  dsimp only
  split_ifs <;> rfl

theorem flushWindow_good {c : Conn} (h : c.toCore.Good) (hk : c.chanUsed k = true) (mtu : Nat)
    (out : List UInt8) :
    (flushWindow mtu c k out).1.toCore.Good ∧
      Core.Touch k c.toCore (flushWindow mtu c k out).1.toCore := by
  have hch := h.inv.chans k hk
  rw [flushWindow_eq]
  split_ifs
  · have ht := Core.Touch.modChan c.toCore k (f := fun ch => { ch with needWindowUpdate := false })
      ⟨rfl, rfl, rfl, rfl, rfl⟩
    refine ⟨h.modChan hk ht ?_ ⟨hch.out, hch.queue, hch.reorder, hch.frag⟩
      ((h.settled k hk).congr rfl rfl id rfl rfl), ht⟩
    funext x
    cases x <;> rfl
  · exact ⟨h, Core.Touch.refl k _⟩

theorem flush_good {c : Conn} (h : c.toCore.Good) (hk : c.chanUsed k = true) (mtu : Nat)
    (out : List UInt8) :
    (flushWindow mtu (flushAck mtu c k out).1 k (flushAck mtu c k out).2).1.toCore.Good ∧
      Core.Touch k c.toCore
        (flushWindow mtu (flushAck mtu c k out).1 k (flushAck mtu c k out).2).1.toCore := by
  obtain ⟨h1, ht1⟩ := flushAck_good h hk mtu out
  obtain ⟨h2, ht2⟩ := flushWindow_good h1 (ht1.used hk) mtu (flushAck mtu c k out).2
  exact ⟨h2, ht1.trans ht2⟩

theorem flushAcks_rule {P : Conn → List UInt8 → Prop}
    (hframes : ∀ c k id out, c.channels id = some k → P c out →
      P (flushWindow mtu (flushAck mtu c k out).1 k (flushAck mtu c k out).2).1
        (flushWindow mtu (flushAck mtu c k out).1 k (flushAck mtu c k out).2).2) (is : List Nat)
    {c : Conn} (h : P c out) :
    P (flushAcks mtu is c out).1 (flushAcks mtu is c out).2 := by
  induction is generalizing c out with
  | nil => exact h
  | cons i is ih =>
    unfold flushAcks
    split_ifs
    · cases hid : c.channels (UInt8.ofNat i) with
      | none => exact ih h
      | some k => exact ih (hframes c k _ out hid h)
    · exact h

theorem flushAcks_good (mtu : Nat) (is : List Nat) {c : Conn} (h : c.toCore.Good)
    (out : List UInt8) : (flushAcks mtu is c out).1.toCore.Good :=
  flushAcks_rule (P := fun d _ => d.toCore.Good)
    (fun _ k _ out hid h => (flush_good h (h.inv.table _ k hid).2.1 mtu out).1) is h

theorem sendableFrom_some {ch : Chan} {fuel idx : Nat} (hidx : idx < 64)
    (h : sendableFrom ch fuel idx = some j) :
    j < 64 ∧ (ch.outgoing j).active = true ∧
      (ch.outgoing j).fragSent < (ch.outgoing j).fragTotal := by
  induction fuel generalizing idx with
  | zero => cases h
  | succ fuel ih =>
    unfold sendableFrom at h
    split_ifs at h with htail hact
    · cases h
      exact ⟨hidx, hact⟩
    · exact ih (Nat.mod_lt _ (by decide)) h

/-! ### Changing an outgoing slot -/

def Outgoing.sent (o : Outgoing) (now : UInt32) : Outgoing :=
  { o with
    fragSent := o.fragSent + 1
    sentMs := now
    attempts := if o.attempts = 0 then 1 else o.attempts }

def Outgoing.freed (o : Outgoing) : Outgoing :=
  { o with buf := none, active := false }

def Core.setOut (s : Core) (k j : Nat) (o : Outgoing) : Core :=
  s.modChan k fun ch => { ch with outgoing := Function.update ch.outgoing j o }

theorem setOut_chan (s : Core) (k j : Nat) (o : Outgoing) :
    (s.setOut k j o).chanPool k =
      { s.chanPool k with outgoing := Function.update (s.chanPool k).outgoing j o } := by
  simp [Core.setOut, Core.modChan]

theorem setOut_touch (s : Core) (k j : Nat) (o : Outgoing) : Core.Touch k s (s.setOut k j o) :=
  Core.Touch.modChan s k ⟨rfl, rfl, rfl, rfl, rfl⟩

theorem setOut_good {s : Core} (h : s.Good) (hk : s.chanUsed k = true) (hj : j < 64)
    (hact : ((s.chanPool k).outgoing j).active = true) {o : Outgoing} (hoact : o.active = true)
    (hobuf : o.buf = ((s.chanPool k).outgoing j).buf)
    (holen : o.len = ((s.chanPool k).outgoing j).len) : (s.setOut k j o).Good := by
  have hch := h.inv.chans k hk
  refine h.modChan hk (setOut_touch s k j o) ?_ ⟨?_, hch.queue, hch.reorder, hch.frag⟩
    ((h.settled k hk).congr rfl rfl id rfl rfl)
  · have hbuf : (Chan.bufAt { s.chanPool k with
        outgoing := Function.update (s.chanPool k).outgoing j o }) =
        Function.update (s.chanPool k).bufAt (.outgoing j)
          (if o.active = true then o.buf else none) :=
      bufAt_outgoing o hj rfl ⟨rfl, rfl, rfl⟩
    rw [hbuf, if_pos hoact, hobuf]
    apply Function.update_eq_self_iff.2
    simp [Chan.bufAt, hj, hact]
  · refine hch.out.update (fun _ => hact) fun _ => ?_
    rw [hobuf, holen]
    exact hch.out.busy j hj hact

theorem setOut_freed_good {s : Core} (h : s.Good) (hk : s.chanUsed k = true) (hj : j < 64)
    (hact : ((s.chanPool k).outgoing j).active = true) :
    ((poolPut s ((s.chanPool k).outgoing j).buf).setOut k j
        ((s.chanPool k).outgoing j).freed).Good ∧
      Core.Touch k s ((poolPut s ((s.chanPool k).outgoing j).buf).setOut k j
        ((s.chanPool k).outgoing j).freed) := by
  have hch := h.inv.chans k hk
  have hbuf : ((s.chanPool k).outgoing j).buf = (s.chanPool k).bufAt (.outgoing j) := by
    simp [Chan.bufAt, hj, hact]
  have ht := (Core.Touch.poolPut k s ((s.chanPool k).outgoing j).buf).trans
    (setOut_touch _ k j ((s.chanPool k).outgoing j).freed)
  refine ⟨h.of_touch ht ?_ ?_, ht⟩
  · rw [hbuf]
    refine h.inv.release hk (.outgoing j) rfl ?_ ?_
    · exact bufAt_outgoing ((s.chanPool k).outgoing j).freed hj rfl ⟨rfl, rfl, rfl⟩
    · exact ⟨hch.out.update (by simp [Outgoing.freed]) (by simp [Outgoing.freed]), hch.queue,
        hch.reorder, hch.frag⟩
  · rw [setOut_chan, poolPut_chanPool]
    exact (h.settled k hk).congr rfl rfl id rfl rfl

theorem sentFragment_eq (now : UInt32) (s : Core) (k j : Nat) :
    sentFragment now s k j =
      if ((s.chanPool k).outgoing j).fragTotal ≤ ((s.chanPool k).outgoing j).fragSent + 1 ∧
          (s.chanPool k).type = netchanUnreliable then
        advanceHead ((poolPut (s.setOut k j (((s.chanPool k).outgoing j).sent now))
          ((s.chanPool k).outgoing j).buf).setOut k j
            (((s.chanPool k).outgoing j).sent now).freed) k
      else s.setOut k j (((s.chanPool k).outgoing j).sent now) := by
  simp only [sentFragment, Core.modChan, Function.update_self]
  rfl

theorem sentFragment_good {s : Core} (h : s.Good) (hk : s.chanUsed k = true) (hj : j < 64)
    (hact : ((s.chanPool k).outgoing j).active = true) (now : UInt32) :
    (sentFragment now s k j).Good ∧ Core.Touch k s (sentFragment now s k j) := by
  have ht1 := setOut_touch s k j (((s.chanPool k).outgoing j).sent now)
  have h1 : (s.setOut k j (((s.chanPool k).outgoing j).sent now)).Good :=
    setOut_good h hk hj hact hact rfl rfl
  rw [sentFragment_eq]
  split_ifs
  · have hslot : ((s.setOut k j (((s.chanPool k).outgoing j).sent now)).chanPool k).outgoing j =
        ((s.chanPool k).outgoing j).sent now := by
      simp [setOut_chan]
    have hfree := setOut_freed_good h1 (ht1.used hk) hj (by rw [hslot]; exact hact)
    rw [hslot] at hfree
    obtain ⟨h2, ht2⟩ := hfree
    obtain ⟨h3, ht3⟩ := advanceHead_spec h2 (ht2.used (ht1.used hk))
    exact ⟨h3, (ht1.trans ht2).trans ht3⟩
  · exact ⟨h1, ht1⟩

theorem sendData_rule {P : Conn → List UInt8 → Prop} {env : Env}
    (hsent : ∀ c k id j now out, c.channels id = some k → (c.chanPool k).role = .sender →
      chanNextSendable (c.chanPool k) = some j →
      out.length + 8 + fragLen c.cfg ((c.chanPool k).outgoing j) ≤ mtu → P c out →
        P (c.lift fun s => sentFragment now s k j) (out ++ dataFrame c.toCore k j)) (is : List Nat)
    {c : Conn} (h : P c out) :
    P (sendData env mtu is c out).1 (sendData env mtu is c out).2 := by
  induction is generalizing c out with
  | nil => exact h
  | cons i is ih =>
    unfold sendData
    split_ifs
    · cases hid : c.channels (UInt8.ofNat i) with
      | none => exact ih h
      | some k =>
        dsimp only
        split_ifs with hopen
        · cases hnext : chanNextSendable (c.chanPool k) with
          | none => exact ih h
          | some j =>
            dsimp only
            split_ifs
            · exact h
            · exact ih (hsent c k _ j _ out hid hopen.1 hnext (by omega) h)
        · exact ih h
    · exact h

/-- The channel and the slot of the fragment that is sent next. -/
structure Core.Due (s : Core) (k j : Nat) : Prop where
  good : s.Good
  used : s.chanUsed k = true
  id : s.channels (s.chanPool k).id = some k
  role : (s.chanPool k).role = .sender
  lt : j < 64
  active : ((s.chanPool k).outgoing j).active = true
  left : ((s.chanPool k).outgoing j).fragSent < ((s.chanPool k).outgoing j).fragTotal

theorem sendData_good_rule {P : Conn → List UInt8 → Prop} {env : Env}
    (hsent : ∀ c k j now out, c.toCore.Due k j → P c out →
      P (c.lift fun s => sentFragment now s k j) (out ++ dataFrame c.toCore k j)) (is : List Nat)
    {c : Conn} (hgood : c.toCore.Good) (h : P c out) :
    (sendData env mtu is c out).1.toCore.Good ∧
      P (sendData env mtu is c out).1 (sendData env mtu is c out).2 := by
  refine sendData_rule (P := fun d out => d.toCore.Good ∧ P d out)
    (fun d k id j now out hid hrole hnext _ ⟨h, hP⟩ => ?_) is ⟨hgood, h⟩
  obtain ⟨-, hk, hchid⟩ := h.inv.table _ k hid
  obtain ⟨hj, hact, hleft⟩ := sendableFrom_some (h.inv.chans k hk).out.head_lt hnext
  exact ⟨(sentFragment_good h hk hj hact now).1,
    hsent d k j now out ⟨h, hk, hchid ▸ hid, hrole, hj, hact, hleft⟩ hP⟩

theorem sendData_good (env : Env) (mtu : Nat) (is : List Nat) {c : Conn} (h : c.toCore.Good)
    (out : List UInt8) : (sendData env mtu is c out).1.toCore.Good :=
  (sendData_good_rule (P := fun _ _ => True) (fun _ _ _ _ _ _ _ => trivial) is h trivial).1

/-! ### The three parts of a packet -/

def packetCtrl (mtu : Nat) (c : Conn) : Conn × List UInt8 :=
  flushCtrl mtu (sendHeader c).1 (sendHeader c).2

def packetAcks (mtu : Nat) (c : Conn) : Conn × List UInt8 :=
  flushAcks mtu (List.range ncMaxChannels) (packetCtrl mtu c).1 (packetCtrl mtu c).2

def packetData (env : Env) (mtu : Nat) (c : Conn) : Conn × List UInt8 :=
  sendData env mtu (List.range ncMaxChannels) (packetAcks mtu c).1 (packetAcks mtu c).2

theorem netchanSendNext_eq (env : Env) (c : Conn) (buflen : Nat) :
    netchanSendNext env c buflen =
      if hasData c = false ∨ buflen < headerSize c then (c, none)
      else
        ({ (packetData env (min c.cfg.mtu.toNat buflen) c).1 with
            lastSendMs := env.nowMs ncMaxChannels
            pktsSent := (packetData env (min c.cfg.mtu.toNat buflen) c).1.pktsSent + 1 },
          some ((packetData env (min c.cfg.mtu.toNat buflen) c).2,
            (packetData env (min c.cfg.mtu.toNat buflen) c).1.peerAddr)) := by
  by_cases hdata : hasData c = false
  · simp [netchanSendNext, hdata]
  · by_cases hlen : buflen < headerSize c
    · simp [netchanSendNext, hlen]
    · rw [if_neg (not_or.2 ⟨hdata, hlen⟩)]
      unfold netchanSendNext
      rw [if_neg hdata, if_neg hlen]
      rfl

theorem sendHeader_toCore (c : Conn) : (sendHeader c).1.toCore = c.toCore := by
  unfold sendHeader
  split_ifs <;> rfl

theorem packetCtrl_toCore (mtu : Nat) (c : Conn) : (packetCtrl mtu c).1.toCore = c.toCore :=
  sendHeader_toCore c

theorem packetAcks_good {c : Conn} (h : c.toCore.Good) (mtu : Nat) :
    (packetAcks mtu c).1.toCore.Good :=
  flushAcks_good mtu _ ((packetCtrl_toCore mtu c).symm ▸ h) _

theorem netchanSendNext_good (env : Env) {c : Conn} (h : c.toCore.Good) (buflen : Nat) :
    (netchanSendNext env c buflen).1.toCore.Good := by
  rw [netchanSendNext_eq]
  split_ifs
  · exact h
  · exact sendData_good env _ _ (packetAcks_good h _) _

/-! ## Timers -/

/-- The slot is queued to be sent again. -/
def Outgoing.requeued (o : Outgoing) (now : UInt32) : Outgoing :=
  { o with fragSent := 0, sentMs := now, attempts := o.attempts + 1 }

/-- The tables after the retransmission of slot `j` was queued. -/
def Core.requeue (s : Core) (k j : Nat) (now : UInt32) : Core :=
  (s.setOut k j (((s.chanPool k).outgoing j).requeued now)).modChan k fun ch =>
    { ch with retransmissions := ch.retransmissions + 1 }

theorem requeue_eq (s : Core) (k j : Nat) (now : UInt32) :
    (s.modChan k fun ch =>
      { ch with
        outgoing := Function.update ch.outgoing j
          { (s.chanPool k).outgoing j with
            fragSent := 0
            sentMs := now
            attempts := ((s.chanPool k).outgoing j).attempts + 1 }
        retransmissions := ch.retransmissions + 1 }) = s.requeue k j now := by
  simp [Core.requeue, Core.setOut, Core.modChan, Outgoing.requeued]

theorem requeue_touch (s : Core) (k j : Nat) (now : UInt32) : Core.Touch k s (s.requeue k j now) :=
  (setOut_touch s k j _).trans (Core.Touch.modChan _ k ⟨rfl, rfl, rfl, rfl, rfl⟩)

theorem requeue_good {s : Core} (h : s.Good) (hk : s.chanUsed k = true) (hj : j < 64)
    (hact : ((s.chanPool k).outgoing j).active = true) (now : UInt32) :
    (s.requeue k j now).Good := by
  have ht := setOut_touch s k j (((s.chanPool k).outgoing j).requeued now)
  have h1 : (s.setOut k j (((s.chanPool k).outgoing j).requeued now)).Good :=
    setOut_good h hk hj hact hact rfl rfl
  have hch := h1.inv.chans k (ht.used hk)
  refine h1.modChan (ht.used hk) (Core.Touch.modChan _ k ⟨rfl, rfl, rfl, rfl, rfl⟩) ?_
    ⟨hch.out, hch.queue, hch.reorder, hch.frag⟩
    ((h1.settled k (ht.used hk)).congr rfl rfl id rfl rfl)
  funext x
  cases x <;> rfl

theorem serviceSlots_rule {P : Conn → Prop} {now : UInt32} {js : List Nat}
    (hclose : ∀ c, P c → P (evPush (c.lift fun s => s.modChan k fun ch =>
      { ch with state := .closed }) .chanClose (some k)))
    (hagain : ∀ c, ∀ j ∈ js, ((c.chanPool k).outgoing j).active = true → P c →
      P (c.lift fun s => s.requeue k j now)) {c : Conn} (h : P c) (nextMs : Int) :
    P (serviceSlots now k js c nextMs).1 := by
  induction js generalizing c nextMs with
  | nil => exact h
  | cons j js ih =>
    have ih := @ih fun c i hi => hagain c i (List.mem_cons_of_mem _ hi)
    simp only [serviceSlots]
    split_ifs with hidle
    · exact ih h _
    · exact hclose c h
    · have hact : ((c.chanPool k).outgoing j).active = true := by simpa using (not_or.1 hidle).1
      have hone := hagain c j List.mem_cons_self hact h
      rw [Conn.lift, ← requeue_eq] at hone
      exact ih hone nextMs
    · exact ih h _

theorem serviceChannels_rule {P : Conn → Prop} {now : UInt32}
    (hslots : ∀ c k id nextMs, c.channels id = some k → P c →
      P (serviceSlots now k (List.range ncOutgoingSlots) c nextMs).1)
    (is : List Nat) {c : Conn} (h : P c) (nextMs : Int) :
    P (serviceChannels now is c nextMs).1 := by
  induction is generalizing c nextMs with
  | nil => exact h
  | cons i is ih =>
    unfold serviceChannels
    cases hid : c.channels (UInt8.ofNat i) with
    | none => exact ih h _
    | some k =>
      dsimp only
      split_ifs
      · exact ih (hslots c k _ nextMs hid h) _
      · exact ih h _

theorem serviceSlots_good (now : UInt32) (js : List Nat) (hjs : ∀ j ∈ js, j < 64) {c : Conn}
    (h : c.toCore.Good) (hk : c.chanUsed k = true) (nextMs : Int) :
    (serviceSlots now k js c nextMs).1.toCore.Good := by
  refine (serviceSlots_rule (P := fun d => d.toCore.Good ∧ d.chanUsed k = true)
    (fun d ⟨h, hk⟩ => ?_) (fun d j hj hact ⟨h, hk⟩ => ?_) ⟨h, hk⟩ nextMs).1
  · rw [evPush_toCore, Conn.lift_toCore]
    exact ⟨h.setState hk _, hk⟩
  · exact ⟨requeue_good h hk (hjs j hj) hact now, (requeue_touch d.toCore k j now).used hk⟩

theorem serviceChannels_good (now : UInt32) (is : List Nat) {c : Conn} (h : c.toCore.Good)
    (nextMs : Int) : (serviceChannels now is c nextMs).1.toCore.Good :=
  serviceChannels_rule (P := fun d => d.toCore.Good) (fun _ k _ _ hid h =>
    serviceSlots_good now _ (fun _ hj => List.mem_range.1 hj) h (h.inv.table _ k hid).2.1 _) is h _

theorem serviceHandshake_toCore (c : Conn) (now : UInt32) :
    (serviceHandshake c now).1.toCore = c.toCore := by
  simp only [serviceHandshake]
  split_ifs <;> simp [ctrlConnectInit]

theorem serviceIdle_toCore (c : Conn) (now : UInt32) (nextMs : Int) :
    (serviceIdle c now nextMs).1.toCore = c.toCore := by
  simp only [serviceIdle]
  split_ifs <;> simp

theorem servicePing_toCore (env : Env) (c : Conn) (now : UInt32) (nextMs : Int) :
    (servicePing env c now nextMs).1.toCore = c.toCore := by
  simp only [servicePing]
  split_ifs <;> simp [ctrlPing]

theorem netchanService_cases (env : Env) (c : Conn) (now : UInt32) :
    (netchanService env c now).1.toCore = c.toCore ∨
      ∃ c' nextMs, c'.toCore = c.toCore ∧
        (netchanService env c now).1 =
          (serviceChannels now (List.range ncMaxChannels) c' nextMs).1 := by
  unfold netchanService
  have h1 := serviceHandshake_toCore c now
  rcases hres : serviceHandshake c now with ⟨c1, _ | n1⟩
  · rw [hres] at h1
    exact Or.inl h1
  · rw [hres] at h1
    have h2 := serviceIdle_toCore c1 now n1
    dsimp only at h1 ⊢
    rcases hres2 : serviceIdle c1 now n1 with ⟨c2, _ | n2⟩
    · rw [hres2] at h2
      exact Or.inl (h2.trans h1)
    · rw [hres2] at h2
      exact Or.inr ⟨(servicePing env c2 now n2).1, (servicePing env c2 now n2).2,
        (servicePing_toCore env c2 now n2).trans (h2.trans h1), rfl⟩

theorem netchanService_good (env : Env) {c : Conn} (h : c.toCore.Good) (now : UInt32) :
    (netchanService env c now).1.toCore.Good := by
  rcases netchanService_cases env c now with heq | ⟨c', nextMs, hcore, heq⟩
  · rwa [heq]
  · rw [heq]
    exact serviceChannels_good now _ (hcore ▸ h) nextMs

/-! ## Channels -/

theorem netchanChanOpen_good {c : Conn} (h : c.toCore.Good) (type dir : Nat)
    (ct : Option (List UInt8)) : (netchanChanOpen c type dir ct).1.toCore.Good := by
  simp only [netchanChanOpen]
  split_ifs with hstate hsome
  · exact h
  · exact h
  all_goals
    have hid : c.channels c.nextChanId = none := by simpa using hsome
    rcases hnew : chanNew c.toCore c.nextChanId type dir _ ct with ⟨s, _ | k⟩
    · exact h
    · obtain ⟨h1, hused⟩ := hnew ▸ chanNew_good h hid type dir _ ct
      simp [ctrlWindowUpdate, ctrlChannelOpen]
      first
      | exact h1
      | exact h1.setState (hused k rfl) _

theorem netchanChanClose_good {c : Conn} (h : c.toCore.Good) (hk : c.chanUsed k = true) :
    (netchanChanClose c k).toCore.Good := by
  unfold netchanChanClose
  split_ifs
  · exact h
  · rw [Conn.lift_toCore, ctrlChannelClose, ctrlReserve_toCore]
    exact h.setState hk _

/-- The record after a message was put at the tail of the send ring. -/
def Chan.queued (ch : Chan) (b len fragTotal : Nat) : Chan :=
  { ch with
    sendSeq := ch.sendSeq + 1
    outgoing := Function.update ch.outgoing ch.outTail
      ⟨ch.sendSeq, some b, len, 0, 0, 0, fragTotal, true⟩
    bytesInFlight :=
      if ch.type = netchanReliable then ch.bytesInFlight + UInt32.ofNat len
      else ch.bytesInFlight
    msgsSent := ch.msgsSent + 1
    outTail := (ch.outTail + 1) % ncOutgoingSlots }

/-- The record after a message of too many fragments: its number stays used. -/
def Chan.spoiled (ch : Chan) : Chan :=
  { ch with
    sendSeq := ch.sendSeq + 1
    outgoing := Function.update ch.outgoing ch.outTail Outgoing.zero }

/-- `netchan_chan_write` will take the message. -/
def CanWrite (s : Core) (k : Nat) (data : List UInt8) : Prop :=
  (s.chanPool k).role = .sender ∧ (s.chanPool k).state ≠ .closed ∧
    0 < data.length ∧ data.length ≤ ncMaxMsg ∧
    ¬((s.chanPool k).type = netchanReliable ∧ (s.chanPool k).state = .opened ∧
      (s.chanPool k).bytesInFlight.toNat + data.length > (s.chanPool k).sendWindow.toNat) ∧
    ((s.chanPool k).outTail + 1) % ncOutgoingSlots ≠ (s.chanPool k).outHead ∧
    0 < s.poolFreeTop

theorem chanWrite_refused {s : Core} {data : List UInt8} (h : ¬CanWrite s k data) :
    ∃ r, chanWrite s k data = (s, r) ∧ (r = .ok 0 ∨ ∃ e, r = .error e) := by
  have hcases : ∀ P : Core × Except Err Nat → Prop, (∀ e, P (s, .error e)) → P (s, .ok 0) →
      P (chanWrite s k data) := by
    intro P herr hok
    unfold chanWrite
    refine iteInduction (fun _ => herr _) fun hrole => iteInduction (fun _ => herr _) fun hstate =>
      iteInduction (fun _ => hok) fun hzero => iteInduction (fun _ => herr _) fun hlen =>
      iteInduction (fun _ => herr _) fun hflow => iteInduction (fun _ => herr _) fun hroom => ?_
    have htop : s.poolFreeTop = 0 := by
      by_contra htop
      exact h ⟨not_not.1 hrole, hstate, Nat.pos_of_ne_zero hzero, Nat.not_lt.1 hlen, hflow,
        hroom, Nat.pos_of_ne_zero htop⟩
    rw [poolGet, if_pos htop]
    exact herr _
  exact hcases (fun x => ∃ r, x = (s, r) ∧ (r = .ok 0 ∨ ∃ e, r = .error e))
    (fun e => ⟨_, rfl, .inr ⟨e, rfl⟩⟩) ⟨_, rfl, .inl rfl⟩

theorem chanWrite_taken {s : Core} {data : List UInt8} (hcan : CanWrite s k data) :
    (ncMaxFrags < fragCount s.cfg data.length ∧
      chanWrite s k data =
        ({ s with
            chanPool := Function.update s.chanPool k (s.chanPool k).spoiled
            poolStore := (s.memcpy (s.poolFree (s.poolFreeTop - 1) * ncMaxMsg) data).poolStore },
          .error .toobig)) ∨
    (fragCount s.cfg data.length ≤ ncMaxFrags ∧
      chanWrite s k data =
        ((s.takeInto k data fun b ch =>
            ch.queued b data.length (fragCount s.cfg data.length)).mark (.write k data),
          .ok data.length)) := by
  obtain ⟨hrole, hstate, hzero, hlen, hflow, hroom, hpool⟩ := hcan
  have htop : s.poolFreeTop ≠ 0 := Nat.ne_of_gt hpool
  simp only [chanWrite, hrole, hstate, Nat.ne_of_gt hzero, Nat.not_lt.2 hlen, hflow, hroom,
    if_false, ne_eq, not_true_eq_false, gt_iff_lt, poolGet, htop, Core.memcpy]
  by_cases hfrag : ncMaxFrags < fragCount s.cfg data.length
  · refine Or.inl ⟨hfrag, ?_⟩
    -- the buffer goes straight back to its cell of the free stack
    have hfree : Function.update s.poolFree (s.poolFreeTop - 1)
        (s.poolFree (s.poolFreeTop - 1)) = s.poolFree := Function.update_eq_self _ _
    simp only [hfrag, if_true, poolPut, Core.modChan, hfree, Nat.sub_add_cancel hpool]
    rfl
  · refine Or.inr ⟨Nat.not_lt.1 hfrag, ?_⟩
    simp only [hfrag, if_false]
    rfl

theorem chanWrite_cases (s : Core) (k : Nat) (data : List UInt8) :
    (∃ r, chanWrite s k data = (s, r)) ∨
    (CanWrite s k data ∧ ncMaxFrags < fragCount s.cfg data.length ∧
      chanWrite s k data =
        ({ s with
            chanPool := Function.update s.chanPool k (s.chanPool k).spoiled
            poolStore := (s.memcpy (s.poolFree (s.poolFreeTop - 1) * ncMaxMsg) data).poolStore },
          .error .toobig)) ∨
    (CanWrite s k data ∧ fragCount s.cfg data.length ≤ ncMaxFrags ∧
      chanWrite s k data =
        ((s.takeInto k data fun b ch =>
            ch.queued b data.length (fragCount s.cfg data.length)).mark (.write k data),
          .ok data.length)) := by
  by_cases hcan : CanWrite s k data
  · rcases chanWrite_taken hcan with ⟨hmany, heq⟩ | ⟨hfew, heq⟩
    · exact Or.inr (Or.inl ⟨hcan, hmany, heq⟩)
    · exact Or.inr (Or.inr ⟨hcan, hfew, heq⟩)
  · obtain ⟨r, heq, -⟩ := chanWrite_refused hcan
    exact Or.inl ⟨r, heq⟩

theorem bufAt_queued (ch : Chan) (b len fragTotal : Nat) (ht : ch.outTail < 64) :
    (ch.queued b len fragTotal).bufAt =
      Function.update ch.bufAt (.outgoing ch.outTail) (some b) :=
  bufAt_outgoing ⟨ch.sendSeq, some b, len, 0, 0, 0, fragTotal, true⟩ ht rfl ⟨rfl, rfl, rfl⟩

theorem chanWrite_good {s : Core} (h : s.Good) (hk : s.chanUsed k = true) (data : List UInt8) :
    (chanWrite s k data).1.Good := by
  have hch := h.inv.chans k hk
  have hs := h.settled k hk
  have htail := hch.out.tail_lt
  have hidle := hch.out.idle _ htail not_inRing_tail
  rcases chanWrite_cases s k data with ⟨r, heq⟩ | ⟨-, -, heq⟩ | ⟨hcan, -, heq⟩
  · rwa [heq]
  · rw [heq]
    have ht : Core.Touch k s { s with
        chanPool := Function.update s.chanPool k (s.chanPool k).spoiled
        poolStore := (s.memcpy (s.poolFree (s.poolFreeTop - 1) * ncMaxMsg) data).poolStore } :=
      (Core.Touch.modChan s k (f := Chan.spoiled) ⟨rfl, rfl, rfl, rfl, rfl⟩).trans
        (Core.Touch.pool k _ _ _)
    refine h.of_touch ht (h.inv.keep hk (s.chanPool k).spoiled rfl ?_
      ⟨?_, hch.queue, hch.reorder, hch.frag⟩ _ _) ?_
    · have hbuf : (s.chanPool k).spoiled.bufAt = Function.update (s.chanPool k).bufAt
          (.outgoing (s.chanPool k).outTail) none :=
        bufAt_outgoing Outgoing.zero htail rfl ⟨rfl, rfl, rfl⟩
      rw [hbuf]
      apply Function.update_eq_self_iff.2
      simp [Chan.bufAt, hidle]
    · exact hch.out.update (by simp [Outgoing.zero]) (by simp [Outgoing.zero])
    · simp only [Function.update_self]
      exact hs.congr rfl rfl id rfl rfl
  · obtain ⟨-, -, -, hlen, -, hroom, htop⟩ := hcan
    rw [heq]
    have ht : Core.Touch k s (s.takeInto k data fun b ch =>
        ch.queued b data.length (fragCount s.cfg data.length)) :=
      Core.Touch.takeInto s k data fun _ => ⟨rfl, rfl, rfl, rfl, rfl⟩
    refine (h.of_touch ht (h.inv.takeInto hk htop data (.outgoing (s.chanPool k).outTail)
      (fun _ => rfl) ?_ (fun b => bufAt_queued _ b _ _ htail)
      fun b => ⟨hch.out.push hroom ⟨⟨b, rfl⟩, hlen⟩, hch.queue, hch.reorder, hch.frag⟩) ?_).mark _
    · simp [Chan.bufAt, hidle]
    · simp only [Core.takeInto, Function.update_self]
      exact hs.congr rfl rfl id rfl rfl

/-- The record after the head of the receive ring was read. -/
def Chan.dequeued (ch : Chan) (n : Nat) : Chan :=
  { ch with
    recvQueue := Function.update ch.recvQueue ch.rqHead ⟨none, 0⟩
    rqHead := (ch.rqHead + 1) % ncRecvQueue
    recvBuffered := ch.recvBuffered - UInt32.ofNat n
    needWindowUpdate := true }

theorem chanRead_cases (s : Core) (k buflen : Nat) :
    (∃ r, chanRead s k buflen = (s, r)) ∨
    ((s.chanPool k).role = .receiver ∧ (s.chanPool k).rqHead ≠ (s.chanPool k).rqTail ∧
      ∃ e data, e = (s.chanPool k).recvQueue (s.chanPool k).rqHead ∧
        data = s.bytes (poolPtr e.buf) (min e.len buflen) ∧
        chanRead s k buflen =
          (((poolPut s e.buf).modChan k fun ch => ch.dequeued (min e.len buflen)).mark
            (.read k data), .ok data)) := by
  simp only [chanRead]
  split_ifs with hrole hempty
  · exact Or.inl ⟨_, rfl⟩
  · exact Or.inl ⟨_, rfl⟩
  · exact Or.inr ⟨not_not.1 hrole, hempty, _, _, rfl, rfl, rfl⟩

theorem bufAt_dequeued (ch : Chan) (n : Nat) :
    (ch.dequeued n).bufAt = Function.update ch.bufAt (.recvQueue ch.rqHead) none := by
  funext x
  by_cases hx : x = .recvQueue ch.rqHead
  · subst hx
    simp [Chan.bufAt, Chan.dequeued]
  · rw [Function.update_of_ne hx]
    cases x with
    | recvQueue i =>
      have hi : i ≠ ch.rqHead := fun e => hx (e ▸ rfl)
      simp [Chan.bufAt, Chan.dequeued, Function.update_of_ne hi]
    | outgoing i => rfl
    | reorder i => rfl
    | frag i => rfl

theorem chanRead_good {s : Core} (h : s.Good) (hk : s.chanUsed k = true) (buflen : Nat) :
    (chanRead s k buflen).1.Good := by
  have hch := h.inv.chans k hk
  rcases chanRead_cases s k buflen with ⟨r, heq⟩ | ⟨-, hne, e, data, he, -, heq⟩
  · rwa [heq]
  · rw [heq]
    have hbuf : e.buf = (s.chanPool k).bufAt (.recvQueue (s.chanPool k).rqHead) := by
      simp [Chan.bufAt, hch.queue.head_lt, he]
    have ht : Core.Touch k s ((poolPut s e.buf).modChan k fun ch =>
        ch.dequeued (min e.len buflen)) :=
      (Core.Touch.poolPut k s _).trans (Core.Touch.modChan _ k ⟨rfl, rfl, rfl, rfl, rfl⟩)
    refine (h.of_touch ht ?_ ?_).mark _
    · rw [hbuf]
      exact h.inv.release hk (.recvQueue (s.chanPool k).rqHead) rfl
        (bufAt_dequeued _ _)
        ⟨hch.out, hch.queue.pop hne, hch.reorder, hch.frag⟩
    · simp only [Core.modChan, poolPut_chanPool, Function.update_self]
      exact (h.settled k hk).congr rfl rfl id rfl rfl

/-! ## Runs -/

theorem netchanOpen_bufAt (server : Bool) (cfg : Cfg) (l : Loc) (b : Nat) :
    (netchanOpen server cfg).toCore.bufAt l = some b ↔ l = .free b ∧ b < ncPoolBufs := by
  cases l with
  | free i =>
    have hfree : (netchanOpen server cfg).poolFree i = i := rfl
    simp only [Core.bufAt, Loc.free.injEq]
    by_cases hi : i < (netchanOpen server cfg).poolFreeTop
    · rw [if_pos hi, hfree, Option.some.injEq]
      exact ⟨fun h => ⟨h, h ▸ hi⟩, And.left⟩
    · rw [if_neg hi]
      simp only [reduceCtorEq, false_iff, not_and]
      rintro rfl
      exact hi
  | slot k x => simp [Core.bufAt, netchanOpen]

theorem netchanOpen_good (server : Bool) (cfg : Cfg) : (netchanOpen server cfg).toCore.Good := by
  refine ⟨⟨?_, ?_, ⟨fun l b hl => ?_, fun b hb => ⟨.free b, ?_, fun l hl => ?_⟩⟩, ?_⟩, ?_⟩
  · simp [netchanOpen]
  · simp [netchanOpen]
  · exact ((netchanOpen_bufAt server cfg l b).1 hl).2
  · exact (netchanOpen_bufAt server cfg _ b).2 ⟨rfl, hb⟩
  · exact ((netchanOpen_bufAt server cfg l b).1 hl).1
  · simp [netchanOpen]
  · simp [netchanOpen]

theorem Conn.step_good {c : Conn} (h : c.toCore.Good) (a : Act) : (c.step a).toCore.Good := by
  cases a with
  | connect env addr =>
    simp only [step, netchanConnect]
    split_ifs
    · exact h
    · exact h
    · simpa [ctrlConnectInit] using h
  | accept =>
    simp only [step, netchanAccept]
    split_ifs
    · exact h
    · exact h
    · simpa [ctrlConnectAccept] using h
  | feed env pkt src => exact netchanFeed_good env h pkt src
  | sendNext env buflen => exact netchanSendNext_good env h buflen
  | service env now => exact netchanService_good env h now
  | chanOpen type dir contentType => exact netchanChanOpen_good h type dir contentType
  | chanClose k =>
    simp only [step]
    split_ifs with hk
    · exact netchanChanClose_good h hk
    · exact h
  | chanWrite k data =>
    simp only [step]
    split_ifs with hk
    · exact chanWrite_good h hk data
    · exact h
  | chanRead k buflen =>
    simp only [step]
    split_ifs with hk
    · exact chanRead_good h hk buflen
    · exact h
  | poll =>
    simp only [step, netchanPoll]
    split_ifs <;> exact h

/-- A connection after any calls, whatever bytes were fed to it. -/
def Conn.Reachable : Conn → Prop :=
  Reach (fun c => ∃ server cfg, c = netchanOpen server cfg) (fun _ _ => True) Conn.step

theorem Conn.Reachable.good {c : Conn} (h : c.Reachable) : c.toCore.Good := by
  refine Reach.invariant (P := fun c => c.toCore.Good) ?_ (fun c a hc _ => c.step_good hc a) h
  rintro c ⟨server, cfg, rfl⟩
  exact netchanOpen_good server cfg

theorem Conn.Reachable.run {c : Conn} (h : c.Reachable) (acts : List Act) :
    (c.run acts).Reachable := by
  induction acts generalizing c with
  | nil => exact h
  | cons a acts ih => exact ih (h.next trivial)

theorem reachable_open (server : Bool) (cfg : Cfg) : (netchanOpen server cfg).Reachable :=
  .start ⟨server, cfg, rfl⟩

/-- A clock that stands still and a fixed random word. -/
def quietEnv : Env := ⟨fun _ => 0, 7⟩

end MechanicalResearcher.NetchanV2
