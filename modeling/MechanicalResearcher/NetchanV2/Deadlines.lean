import MechanicalResearcher.Lib.Countdown
import MechanicalResearcher.NetchanV2.Deaths

/-!
# When `netchan_service` is due again

`netchan_service` returns how long its caller may sleep.  A timer that was running is
counted, a timer that the call itself armed again is not, so a retransmission can fall due
long before the time returned.  `Conn.Due` says when a call has something to do, `Conn.Runs`
what the running timers have left, `Conn.Rearms` how soon the timers that fire are due again.
-/

namespace MechanicalResearcher.NetchanV2

open Lib Lib.Countdown

variable {k j x : Nat} {cfg : Cfg} {js is : List Nat} {b : Int} {S : Set Nat}

/-! ## Timers -/

/-- The retransmit timeout of a message. -/
def Outgoing.timeout (cfg : Cfg) (o : Outgoing) : UInt32 :=
  min (cfg.retransmitMs <<< UInt32.ofNat (o.attempts - 1)) ncMaxRtMs

/-- The message was sent and waits for its acknowledgement. -/
def Outgoing.Waits (o : Outgoing) : Prop := o.active = true ∧ o.sentMs ≠ 0

/-- The timer of the message is up, and the message may be sent again. -/
def Outgoing.Requeues (cfg : Cfg) (now : UInt32) (o : Outgoing) : Prop :=
  o.Waits ∧ o.timeout cfg ≤ now - o.sentMs ∧ o.attempts < ncMaxRtAttempts

/-- The timer of the message is running. -/
def Outgoing.Counts (cfg : Cfg) (now : UInt32) (o : Outgoing) : Prop :=
  o.Waits ∧ now - o.sentMs < o.timeout cfg

/-- The retransmit scan looks at channel record `k`. -/
def Core.Scans (s : Core) (k : Nat) : Prop :=
  (∃ id, s.channels id = some k) ∧ (s.chanPool k).role = .sender ∧
    (s.chanPool k).type = netchanReliable

/-- A timer is due at the time `t`: a call then has something to do. -/
inductive Conn.Due (c : Conn) (t : UInt32) : Prop
  | handshake : c.state = .connecting → c.server = false →
      ncConnectRetryMs ≤ t - c.connectSentMs → Due c t
  | idle : c.state = .connected → 0 < c.lastRecvMs → c.cfg.idleTimeoutMs ≤ t - c.lastRecvMs →
      Due c t
  | ping : c.state = .connected → 0 < c.lastSendMs → ncPingIntervalMs ≤ t - c.lastSendMs →
      c.pingSentMs = 0 → Due c t
  | retransmit (k j : Nat) : c.Scans k → j < ncOutgoingSlots →
      ((c.chanPool k).outgoing j).Waits →
      ((c.chanPool k).outgoing j).timeout c.cfg ≤ t - ((c.chanPool k).outgoing j).sentMs → Due c t

/-- The connect retry is due. -/
def Conn.Retries (c : Conn) (now : UInt32) : Prop :=
  c.state = .connecting ∧ c.server = false ∧ ncConnectRetryMs ≤ now - c.connectSentMs

/-- A keepalive ping is due, and none is on its way. -/
def Conn.Pings (c : Conn) (now : UInt32) : Prop :=
  c.state = .connected ∧ 0 < c.lastSendMs ∧ ncPingIntervalMs ≤ now - c.lastSendMs ∧
    c.pingSentMs = 0

/-- What is left of the idle time does not fit in an `int`. -/
def Conn.LongIdle (c : Conn) (now : UInt32) : Prop :=
  c.state = .connected ∧ 0 < c.lastRecvMs ∧ now - c.lastRecvMs < c.cfg.idleTimeoutMs ∧
    2 ^ 31 ≤ left c.cfg.idleTimeoutMs c.lastRecvMs now

/-- What the running timers of the connection have left. -/
inductive Conn.LinkRuns (c : Conn) (now : UInt32) : Nat → Prop
  | handshake : c.state = .connecting → c.server = false →
      now - c.connectSentMs < ncConnectRetryMs →
      LinkRuns c now (left ncConnectRetryMs c.connectSentMs now)
  | idle : c.state = .connected → 0 < c.lastRecvMs →
      now - c.lastRecvMs < c.cfg.idleTimeoutMs →
      left c.cfg.idleTimeoutMs c.lastRecvMs now < 2 ^ 31 →
      LinkRuns c now (left c.cfg.idleTimeoutMs c.lastRecvMs now)
  | ping : c.state = .connected → 0 < c.lastSendMs → now - c.lastSendMs < ncPingIntervalMs →
      LinkRuns c now (left ncPingIntervalMs c.lastSendMs now)

/-- What the running timers of the slots `js` have left; the scan ends at a message that was
sent as often as a message is sent. -/
def slotTimes (cfg : Cfg) (now : UInt32) (js : List Nat) (out : Nat → Outgoing) : Set Nat :=
  {x | ∃ j ∈ js, (∀ i ∈ js, i < j → ¬(out i).Exhausted cfg now) ∧ (out j).Counts cfg now ∧
    x = left ((out j).timeout cfg) (out j).sentMs now}

/-- What the running timers have left. -/
inductive Conn.Runs (c : Conn) (now : UInt32) : Nat → Prop
  | link {x : Nat} : c.LinkRuns now x → Runs c now x
  | slot {k x : Nat} : c.Scans k →
      x ∈ slotTimes c.cfg now (List.range ncOutgoingSlots) (c.chanPool k).outgoing → Runs c now x

/-- How soon a timer that fires is due again. -/
inductive Conn.Rearms (c : Conn) (now : UInt32) : Nat → Prop
  | handshake : c.Retries now → Rearms c now ncConnectRetryMs.toNat
  | ping : c.Pings now → now = 0 → Rearms c now 0
  | slot {k j : Nat} : c.Scans k → j < ncOutgoingSlots →
      ((c.chanPool k).outgoing j).Requeues c.cfg now → now ≠ 0 →
      Rearms c now ((((c.chanPool k).outgoing j).requeued now).timeout c.cfg).toNat
  | dead {k j : Nat} : c.Scans k → j < ncOutgoingSlots →
      ((c.chanPool k).outgoing j).Exhausted c.cfg now → Rearms c now 0

/-! ## One slot of the scan -/

theorem Outgoing.timeout_le (cfg : Cfg) (o : Outgoing) : (o.timeout cfg).toNat ≤ 1000 := by
  have hmin : o.timeout cfg =
      if cfg.retransmitMs <<< UInt32.ofNat (o.attempts - 1) ≤ ncMaxRtMs then
        cfg.retransmitMs <<< UInt32.ofNat (o.attempts - 1) else ncMaxRtMs := rfl
  rw [hmin]
  split_ifs with hle
  · exact UInt32.le_iff_toNat_le.mp hle
  · exact le_rfl

theorem int32_of_lt {d : UInt32} (h : d.toNat < 2 ^ 31) : int32 d = (d.toNat : Int) := by
  rw [int32, if_pos h]

theorem int32_of_le {d : UInt32} (h : 2 ^ 31 ≤ d.toNat) : int32 d = (d.toNat : Int) - 2 ^ 32 := by
  rw [int32, if_neg (Nat.not_lt.mpr h)]

/-- What the scan does at slot `j`: the slot is not waiting, its timer runs, the message is
queued again, or the channel is given up. -/
theorem serviceSlots_cases (now : UInt32) (k j : Nat) (js : List Nat) (c : Conn) (nextMs : Int) :
    (¬((c.chanPool k).outgoing j).Waits ∧
      serviceSlots now k (j :: js) c nextMs = serviceSlots now k js c nextMs) ∨
    (((c.chanPool k).outgoing j).Counts c.cfg now ∧
      serviceSlots now k (j :: js) c nextMs = serviceSlots now k js c
        (sooner nextMs (left (((c.chanPool k).outgoing j).timeout c.cfg)
          ((c.chanPool k).outgoing j).sentMs now : Int))) ∨
    (((c.chanPool k).outgoing j).Requeues c.cfg now ∧
      serviceSlots now k (j :: js) c nextMs =
        serviceSlots now k js (c.lift fun s => s.requeue k j now) nextMs) ∨
    (((c.chanPool k).outgoing j).Exhausted c.cfg now ∧
      serviceSlots now k (j :: js) c nextMs =
        (evPush (c.lift fun s => s.modChan k fun ch => { ch with state := .closed }) .chanClose
          (some k), nextMs)) := by
  have hwaits : ¬(((c.chanPool k).outgoing j).active = false ∨
      ((c.chanPool k).outgoing j).sentMs = 0) ↔ ((c.chanPool k).outgoing j).Waits := by
    rw [not_or, Bool.not_eq_false]
    rfl
  have htimeout : min (c.cfg.retransmitMs <<< UInt32.ofNat
      (((c.chanPool k).outgoing j).attempts - 1)) ncMaxRtMs =
      ((c.chanPool k).outgoing j).timeout c.cfg := rfl
  simp only [serviceSlots, htimeout]
  by_cases hidle : ((c.chanPool k).outgoing j).active = false ∨
      ((c.chanPool k).outgoing j).sentMs = 0
  · rw [if_pos hidle]
    exact Or.inl ⟨fun h => hwaits.mpr h hidle, rfl⟩
  · have hw := hwaits.mp hidle
    rw [if_neg hidle]
    right
    by_cases hdue : ((c.chanPool k).outgoing j).timeout c.cfg ≤
        now - ((c.chanPool k).outgoing j).sentMs
    · rw [if_pos hdue]
      right
      by_cases hmany : ncMaxRtAttempts ≤ ((c.chanPool k).outgoing j).attempts
      · rw [if_pos hmany]
        exact Or.inr ⟨⟨hw.1, hw.2, hdue, hmany⟩, rfl⟩
      · rw [if_neg hmany]
        refine Or.inl ⟨⟨hw, hdue, Nat.not_le.mp hmany⟩, ?_⟩
        have hone := requeue_eq c.toCore k j now
        rw [Conn.lift, hone]
        rfl
    · rw [if_neg hdue]
      have hlt := UInt32.not_le.mp hdue
      have hsmall := left_le hlt
      have hmax := ((c.chanPool k).outgoing j).timeout_le c.cfg
      rw [int32_of_lt (show (((c.chanPool k).outgoing j).timeout c.cfg -
        (now - ((c.chanPool k).outgoing j).sentMs)).toNat < 2 ^ 31 from
          lt_of_le_of_lt (hsmall.trans hmax) (by decide))]
      exact Or.inl ⟨⟨hw, hlt⟩, rfl⟩

/-! ## A call with nothing to do -/

theorem serviceSlots_quiet {t : UInt32} (js : List Nat) {c : Conn}
    (h : ∀ j ∈ js, ((c.chanPool k).outgoing j).Waits →
      ¬((c.chanPool k).outgoing j).timeout c.cfg ≤ t - ((c.chanPool k).outgoing j).sentMs)
    (nextMs : Int) : (serviceSlots t k js c nextMs).1 = c := by
  induction js generalizing nextMs with
  | nil => rfl
  | cons j js ih =>
    have hrest := ih fun i hi => h i (List.mem_cons_of_mem _ hi)
    have hj := h j List.mem_cons_self
    rcases serviceSlots_cases t k j js c nextMs with
      ⟨-, heq⟩ | ⟨-, heq⟩ | ⟨⟨hw, hdue, -⟩, -⟩ | ⟨hex, -⟩
    · rw [heq]
      exact hrest nextMs
    · rw [heq]
      exact hrest _
    · exact absurd hdue (hj hw)
    · exact absurd hex.2.2.1 (hj ⟨hex.1, hex.2.1⟩)

theorem serviceChannels_quiet {t : UInt32} (is : List Nat) {c : Conn}
    (h : ∀ k, c.Scans k → ∀ j < ncOutgoingSlots, ((c.chanPool k).outgoing j).Waits →
      ¬((c.chanPool k).outgoing j).timeout c.cfg ≤ t - ((c.chanPool k).outgoing j).sentMs)
    (nextMs : Int) : (serviceChannels t is c nextMs).1 = c := by
  induction is generalizing nextMs with
  | nil => rfl
  | cons i is ih =>
    unfold serviceChannels
    cases hid : c.channels (UInt8.ofNat i) with
    | none => exact ih nextMs
    | some k =>
      dsimp only
      split_ifs with hkind
      · have hslots := serviceSlots_quiet (t := t) (List.range ncOutgoingSlots)
          (fun j hj => h k ⟨⟨_, hid⟩, hkind⟩ j (List.mem_range.mp hj)) nextMs
        rw [hslots]
        exact ih _
      · exact ih nextMs

theorem netchanService_quiet (env : Env) {c : Conn} {t : UInt32} (h : ¬c.Due t) :
    (netchanService env c t).1 = c := by
  have hhand : ∃ ms, serviceHandshake c t = (c, some ms) := by
    simp only [serviceHandshake]
    split_ifs with hst hdue
    · exact absurd (.handshake hst.1 hst.2 hdue) h
    · exact absurd (.handshake hst.1 hst.2 hdue) h
    · exact ⟨_, rfl⟩
    · exact ⟨_, rfl⟩
  have hidle : ∀ ms, ∃ ms', serviceIdle c t ms = (c, some ms') := by
    intro ms
    simp only [serviceIdle]
    split_ifs with hst hdue
    · exact absurd (.idle hst.1 hst.2 hdue) h
    · exact ⟨_, rfl⟩
    · exact ⟨_, rfl⟩
  have hping : ∀ ms, ∃ ms', servicePing env c t ms = (c, ms') := by
    intro ms
    simp only [servicePing]
    split_ifs with hst hdue hsent
    · exact absurd (.ping hst.1 hst.2 hdue hsent) h
    · exact ⟨_, rfl⟩
    · exact ⟨_, rfl⟩
    · exact ⟨_, rfl⟩
  obtain ⟨ms, hhand⟩ := hhand
  obtain ⟨ms', hidle⟩ := hidle ms
  obtain ⟨ms'', hping⟩ := hping ms'
  simp only [netchanService, hhand, hidle, hping]
  exact serviceChannels_quiet _ (fun k hk j hj hw hdue => h (.retransmit k j hk hj hw hdue)) ms''

/-! ## The slots after a scan -/

/-- A scan of the slots `js` turned `out` into `out'`: a slot is as it was, or its message was
queued again; every message whose time is up was, unless the channel was given up. -/
structure Rescanned (cfg : Cfg) (now : UInt32) (js : List Nat) (out out' : Nat → Outgoing) :
    Prop where
  each : ∀ j, out' j = out j ∨
    (j ∈ js ∧ (out j).Requeues cfg now ∧ out' j = (out j).requeued now)
  all : (∀ j ∈ js, ¬(out j).Exhausted cfg now) →
    ∀ j ∈ js, (out j).Requeues cfg now → out' j = (out j).requeued now

theorem Rescanned.skip {now : UInt32} {out out' : Nat → Outgoing}
    (h : Rescanned cfg now js out out') (hj : ¬(out j).Requeues cfg now) :
    Rescanned cfg now (j :: js) out out' := by
  refine ⟨fun i => ?_, fun hno i hi hre => ?_⟩
  · rcases h.each i with heq | ⟨hi, hre, heq⟩
    · exact Or.inl heq
    · exact Or.inr ⟨List.mem_cons_of_mem j hi, hre, heq⟩
  · rcases List.mem_cons.mp hi with rfl | hi
    · exact absurd hre hj
    · exact h.all (fun i hi => hno i (List.mem_cons_of_mem j hi)) i hi hre

theorem serviceSlots_rescanned (now : UInt32) (k : Nat) (hnd : js.Nodup) (c : Conn) (nextMs : Int) :
    Rescanned c.cfg now js (c.chanPool k).outgoing
      ((serviceSlots now k js c nextMs).1.chanPool k).outgoing := by
  induction js generalizing c nextMs with
  | nil => exact ⟨fun j => Or.inl rfl, fun _ j hj => absurd hj List.not_mem_nil⟩
  | cons j js ih =>
    obtain ⟨hj, hnd'⟩ := List.nodup_cons.mp hnd
    rcases serviceSlots_cases now k j js c nextMs with
      ⟨hidle, heq⟩ | ⟨hcount, heq⟩ | ⟨hre, heq⟩ | ⟨hex, heq⟩
    · rw [heq]
      exact (ih hnd' c nextMs).skip fun hre => hidle hre.1
    · rw [heq]
      exact (ih hnd' c _).skip fun hre => UInt32.not_le.mpr hcount.2 hre.2.1
    · rw [heq]
      have hself : ((c.toCore.requeue k j now).chanPool k).outgoing j =
          ((c.chanPool k).outgoing j).requeued now := by
        simp [Core.requeue, Core.setOut, Core.modChan]
      have hother : ∀ i ≠ j, ((c.toCore.requeue k j now).chanPool k).outgoing i =
          (c.chanPool k).outgoing i := by
        intro i hi
        simp [Core.requeue, Core.setOut, Core.modChan, Function.update_of_ne hi]
      obtain ⟨heach, hall⟩ := ih hnd' (c.lift fun s => s.requeue k j now) nextMs
      have hcfg : (c.lift fun s => s.requeue k j now).cfg = c.cfg := rfl
      rw [hcfg, Conn.lift_toCore] at heach hall
      have hnow : ((serviceSlots now k js (c.lift fun s => s.requeue k j now)
          nextMs).1.chanPool k).outgoing j = ((c.chanPool k).outgoing j).requeued now := by
        rcases heach j with h | ⟨hmem, -⟩
        · exact h.trans hself
        · exact absurd hmem hj
      refine ⟨fun i => ?_, fun hno i hi hre' => ?_⟩
      · by_cases hij : i = j
        · subst hij
          exact Or.inr ⟨List.mem_cons_self, hre, hnow⟩
        · have h := heach i
          rw [hother i hij] at h
          rcases h with h | ⟨hi, hre', h⟩
          · exact Or.inl h
          · exact Or.inr ⟨List.mem_cons_of_mem j hi, hre', h⟩
      · rcases List.mem_cons.mp hi with rfl | hi
        · exact hnow
        · have hij : i ≠ j := fun e => hj (e ▸ hi)
          have h := hall (fun a ha => ?_) i hi
          · rw [hother i hij] at h
            exact h hre'
          · rw [hother a fun e => hj (e ▸ ha)]
            exact hno a (List.mem_cons_of_mem j ha)
    · rw [heq, evPush_toCore]
      refine ⟨fun i => Or.inl ?_, fun hno => absurd hex (hno j List.mem_cons_self)⟩
      simp [Core.modChan]

/-! ## What the scan does not touch -/

/-- The timers of the connection itself are the same. -/
structure Conn.SameTimers (c c' : Conn) : Prop where
  state : c'.state = c.state
  server : c'.server = c.server
  connectSentMs : c'.connectSentMs = c.connectSentMs
  lastRecvMs : c'.lastRecvMs = c.lastRecvMs
  lastSendMs : c'.lastSendMs = c.lastSendMs
  pingSentMs : c'.pingSentMs = c.pingSentMs

namespace Conn.SameTimers

theorem refl (c : Conn) : SameTimers c c := ⟨rfl, rfl, rfl, rfl, rfl, rfl⟩

theorem trans {c c' c'' : Conn} (h : SameTimers c c') (h' : SameTimers c' c'') :
    SameTimers c c'' :=
  ⟨h'.state.trans h.state, h'.server.trans h.server, h'.connectSentMs.trans h.connectSentMs,
    h'.lastRecvMs.trans h.lastRecvMs, h'.lastSendMs.trans h.lastSendMs,
    h'.pingSentMs.trans h.pingSentMs⟩

theorem lift (c : Conn) (f : Core → Core) : SameTimers c (c.lift f) :=
  ⟨rfl, rfl, rfl, rfl, rfl, rfl⟩

theorem push (c : Conn) (t : EvType) (ch : Option Nat) : SameTimers c (evPush c t ch) := by
  simp only [evPush, evStore]
  split_ifs
  · exact refl c
  · exact ⟨rfl, rfl, rfl, rfl, rfl, rfl⟩

theorem reserve (c : Conn) (frame : List UInt8) : SameTimers c (ctrlReserve c frame) := by
  unfold ctrlReserve
  split_ifs
  · exact refl c
  · exact ⟨rfl, rfl, rfl, rfl, rfl, rfl⟩

end Conn.SameTimers

theorem serviceSlots_sameTimers (now : UInt32) (k : Nat) (js : List Nat) (c : Conn)
    (nextMs : Int) : c.SameTimers (serviceSlots now k js c nextMs).1 := by
  induction js generalizing c nextMs with
  | nil => exact .refl c
  | cons j js ih =>
    rcases serviceSlots_cases now k j js c nextMs with
      ⟨-, heq⟩ | ⟨-, heq⟩ | ⟨-, heq⟩ | ⟨-, heq⟩
    · rw [heq]
      exact ih c nextMs
    · rw [heq]
      exact ih c _
    · rw [heq]
      exact (Conn.SameTimers.lift c _).trans (ih _ nextMs)
    · rw [heq]
      exact (Conn.SameTimers.lift c _).trans (.push _ _ _)

theorem serviceChannels_sameTimers (now : UInt32) (is : List Nat) (c : Conn) (nextMs : Int) :
    c.SameTimers (serviceChannels now is c nextMs).1 :=
  serviceChannels_rule (fun d k _ ms _ h => h.trans (serviceSlots_sameTimers now k _ d ms)) is
    (.refl c) nextMs

/-! ## The time the scan returns -/

theorem slotTimes_nil (cfg : Cfg) (now : UInt32) (out : Nat → Outgoing) :
    slotTimes cfg now [] out = ∅ := by
  ext x
  constructor
  · rintro ⟨j, hj, -⟩
    exact absurd hj List.not_mem_nil
  · exact fun h => h.elim

theorem mem_slotTimes_cons {now : UInt32} {out out' : Nat → Outgoing} (hlt : ∀ i ∈ js, j < i)
    (hno : ¬(out j).Exhausted cfg now) (hout : ∀ i ∈ js, out' i = out i) (x : Nat) :
    x ∈ slotTimes cfg now (j :: js) out ↔
      ((out j).Counts cfg now ∧ x = left ((out j).timeout cfg) (out j).sentMs now) ∨
        x ∈ slotTimes cfg now js out' := by
  constructor
  · rintro ⟨a, ha, hbefore, hcount, rfl⟩
    rcases List.mem_cons.mp ha with rfl | ha
    · exact Or.inl ⟨hcount, rfl⟩
    · refine Or.inr ⟨a, ha, fun i hi hia => ?_, ?_, ?_⟩
      · rw [hout i hi]
        exact hbefore i (List.mem_cons_of_mem j hi) hia
      · rwa [hout a ha]
      · rw [hout a ha]
  · rintro (⟨hcount, rfl⟩ | ⟨a, ha, hbefore, hcount, rfl⟩)
    · refine ⟨j, List.mem_cons_self, fun i hi hij => ?_, hcount, rfl⟩
      rcases List.mem_cons.mp hi with rfl | hi
      · exact absurd hij (lt_irrefl i)
      · exact absurd (hlt i hi) (Nat.not_lt.mpr hij.le)
    · rw [hout a ha] at hcount ⊢
      refine ⟨a, List.mem_cons_of_mem j ha, fun i hi hia => ?_, hcount, rfl⟩
      rcases List.mem_cons.mp hi with rfl | hi
      · exact hno
      · rw [← hout i hi]
        exact hbefore i hi hia

theorem slotTimes_cons_exhausted {now : UInt32} {out : Nat → Outgoing} (hlt : ∀ i ∈ js, j < i)
    (hex : (out j).Exhausted cfg now) :
    slotTimes cfg now (j :: js) out = ∅ := by
  ext x
  constructor
  · rintro ⟨a, ha, hbefore, hcount, rfl⟩
    rcases List.mem_cons.mp ha with rfl | ha
    · exact absurd hex.2.2.1 (UInt32.not_le.mpr hcount.2)
    · exact absurd hex (hbefore j List.mem_cons_self (hlt a ha))
  · exact fun h => h.elim

theorem serviceSlots_least (now : UInt32) (k : Nat) (hb : b < 0) (hjs : js.Pairwise (· < ·))
    {c : Conn} {nextMs : Int} (h : Least b S nextMs) :
    Least b (S ∪ slotTimes c.cfg now js (c.chanPool k).outgoing)
      (serviceSlots now k js c nextMs).2 := by
  induction js generalizing c S nextMs with
  | nil =>
    rw [slotTimes_nil, Set.union_empty]
    exact h
  | cons j js ih =>
    obtain ⟨hlt, hjs'⟩ := List.pairwise_cons.mp hjs
    rcases serviceSlots_cases now k j js c nextMs with
      ⟨hidle, heq⟩ | ⟨hcount, heq⟩ | ⟨hre, heq⟩ | ⟨hex, heq⟩
    · rw [heq]
      refine (ih hjs' h).congr fun x => ?_
      simp only [Set.mem_union]
      rw [mem_slotTimes_cons hlt (fun hex => hidle ⟨hex.1, hex.2.1⟩) (fun _ _ => rfl)]
      exact or_congr_right (or_iff_right fun hj => hidle hj.1.1)
    · rw [heq]
      refine (ih hjs' (h.insert hb _)).congr fun x => ?_
      simp only [Set.mem_union, Set.mem_insert_iff]
      rw [mem_slotTimes_cons hlt (fun hex => UInt32.not_le.mpr hcount.2 hex.2.2.1)
        (fun _ _ => rfl)]
      constructor
      · rintro (hx | ⟨-, hx⟩ | hx)
        · exact Or.inl (Or.inr hx)
        · exact Or.inl (Or.inl hx)
        · exact Or.inr hx
      · rintro ((hx | hx) | hx)
        · exact Or.inr (Or.inl ⟨hcount, hx⟩)
        · exact Or.inl hx
        · exact Or.inr (Or.inr hx)
    · rw [heq]
      refine (ih hjs' (c := c.lift fun s => s.requeue k j now) h).congr fun x => ?_
      simp only [Set.mem_union]
      have hout : ∀ i ∈ js, ((c.toCore.requeue k j now).chanPool k).outgoing i =
          (c.chanPool k).outgoing i := by
        intro i hi
        have hij : i ≠ j := (hlt i hi).ne'
        simp [Core.requeue, Core.setOut, Core.modChan, Function.update_of_ne hij]
      rw [mem_slotTimes_cons hlt (fun hex => Nat.not_le.mpr hre.2.2 hex.2.2.2) hout]
      exact or_congr_right (or_iff_right fun hj => UInt32.not_le.mpr hj.1.2 hre.2.1)
    · rw [heq, slotTimes_cons_exhausted hlt hex, Set.union_empty]
      exact h

/-! ## The scan of the channels -/

theorem Core.Touch.scans {k₀ : Nat} {s s' : Core} (h : Core.Touch k₀ s s') (k : Nat) :
    s'.Scans k ↔ s.Scans k := by
  obtain ⟨-, hrole, htype, -⟩ := h.fixed
  unfold Core.Scans
  rw [h.channels]
  by_cases hk : k = k₀
  · rw [hk, hrole, htype]
  · rw [h.other k hk]

theorem serviceChannels_scans (now : UInt32) (is : List Nat) (c : Conn) (nextMs : Int)
    (k : Nat) : (serviceChannels now is c nextMs).1.Scans k ↔ c.Scans k :=
  serviceChannels_rule (P := fun d => d.Scans k ↔ c.Scans k) (fun d k₀ _ ms _ h =>
    ((serviceSlots_touch now k₀ _ d ms).scans k).trans h) is Iff.rfl nextMs

theorem serviceChannels_other (now : UInt32) (is : List Nat) {c : Conn} (nextMs : Int)
    (h : ∀ i ∈ is, c.channels (UInt8.ofNat i) ≠ some k) :
    (serviceChannels now is c nextMs).1.chanPool k = c.chanPool k := by
  induction is generalizing c nextMs with
  | nil => rfl
  | cons i is ih =>
    have hrest : ∀ i ∈ is, c.channels (UInt8.ofNat i) ≠ some k :=
      fun a ha => h a (List.mem_cons_of_mem i ha)
    unfold serviceChannels
    cases hid : c.channels (UInt8.ofNat i) with
    | none => exact ih nextMs hrest
    | some k₀ =>
      dsimp only
      split_ifs
      · have ht := serviceSlots_touch now k₀ (List.range ncOutgoingSlots) c nextMs
        have hk : k ≠ k₀ := fun e => h i List.mem_cons_self (e ▸ hid)
        rw [ih _ fun a ha => ht.channels ▸ hrest a ha]
        exact ht.other k hk
      · exact ih nextMs hrest

theorem table_apart {s : Core} (h : s.Good) {i : Nat} (hi : i ∉ is)
    (his : ∀ a ∈ i :: is, a < ncMaxChannels) (hid : s.channels (UInt8.ofNat i) = some k) :
    ∀ a ∈ is, s.channels (UInt8.ofNat a) ≠ some k := by
  intro a ha hid'
  obtain ⟨-, -, hk⟩ := h.inv.table _ k hid
  obtain ⟨-, -, hk'⟩ := h.inv.table _ k hid'
  have heq := congrArg UInt8.toNat (hk.symm.trans hk')
  simp only [UInt8.toNat_ofNat'] at heq
  rw [Nat.mod_eq_of_lt (his i List.mem_cons_self),
    Nat.mod_eq_of_lt (his a (List.mem_cons_of_mem i ha))] at heq
  exact hi (heq ▸ ha)

theorem serviceChannels_rescanned (now : UInt32) (hnd : is.Nodup)
    (his : ∀ a ∈ is, a < ncMaxChannels) {c : Conn} (hgood : c.toCore.Good) (nextMs : Int) {i : Nat}
    (hi : i ∈ is) (hid : c.channels (UInt8.ofNat i) = some k)
    (hkind : (c.chanPool k).role = .sender ∧ (c.chanPool k).type = netchanReliable) :
    Rescanned c.cfg now (List.range ncOutgoingSlots) (c.chanPool k).outgoing
      ((serviceChannels now is c nextMs).1.chanPool k).outgoing := by
  induction is generalizing c nextMs with
  | nil => exact absurd hi List.not_mem_nil
  | cons i0 is ih =>
    obtain ⟨hi0, hnd'⟩ := List.nodup_cons.mp hnd
    have his' : ∀ a ∈ is, a < ncMaxChannels := fun a ha => his a (List.mem_cons_of_mem i0 ha)
    unfold serviceChannels
    cases hid0 : c.channels (UInt8.ofNat i0) with
    | none =>
      rcases List.mem_cons.mp hi with rfl | hi
      · rw [hid] at hid0
        cases hid0
      · exact ih hnd' his' hgood nextMs hi hid hkind
    | some k₀ =>
      have hapart := table_apart hgood hi0 his hid0
      dsimp only
      rcases List.mem_cons.mp hi with rfl | hi
      · obtain rfl : k₀ = k := Option.some.inj (hid0.symm.trans hid)
        rw [if_pos hkind]
        have ht := serviceSlots_touch now k₀ (List.range ncOutgoingSlots) c nextMs
        rw [serviceChannels_other now is _ fun a ha => ht.channels ▸ hapart a ha]
        exact serviceSlots_rescanned now k₀ List.nodup_range c nextMs
      · have hk : k ≠ k₀ := fun e => hapart i hi (e ▸ hid)
        split_ifs
        · have ht := serviceSlots_touch now k₀ (List.range ncOutgoingSlots) c nextMs
          have hused := (hgood.inv.table _ k₀ hid0).2.1
          have hgood1 := serviceSlots_good now (List.range ncOutgoingSlots)
            (fun j hj => List.mem_range.mp hj) hgood hused nextMs
          have h := ih hnd' his' hgood1
            (serviceSlots now k₀ (List.range ncOutgoingSlots) c nextMs).2 hi
            (ht.channels ▸ hid) (by rw [ht.other k hk]; exact hkind)
          rw [ht.other k hk, ht.cfg] at h
          exact h
        · exact ih hnd' his' hgood nextMs hi hid hkind

/-- What the running timers of the channels with ids `is` have left. -/
def Conn.channelTimes (c : Conn) (now : UInt32) (is : List Nat) : Set Nat :=
  {x | ∃ i ∈ is, ∃ k, c.channels (UInt8.ofNat i) = some k ∧
    ((c.chanPool k).role = .sender ∧ (c.chanPool k).type = netchanReliable) ∧
    x ∈ slotTimes c.cfg now (List.range ncOutgoingSlots) (c.chanPool k).outgoing}

theorem serviceChannels_least (now : UInt32) (hb : b < 0) (hnd : is.Nodup)
    (his : ∀ a ∈ is, a < ncMaxChannels) {c : Conn} (hgood : c.toCore.Good) {nextMs : Int}
    (h : Least b S nextMs) :
    Least b (S ∪ c.channelTimes now is) (serviceChannels now is c nextMs).2 := by
  induction is generalizing c S nextMs with
  | nil =>
    refine h.congr fun x => or_iff_left ?_
    rintro ⟨i, hi, -⟩
    exact absurd hi List.not_mem_nil
  | cons i is ih =>
    obtain ⟨hi, hnd'⟩ := List.nodup_cons.mp hnd
    have his' : ∀ a ∈ is, a < ncMaxChannels := fun a ha => his a (List.mem_cons_of_mem i ha)
    have hskip : (∀ k, c.channels (UInt8.ofNat i) = some k →
        ¬((c.chanPool k).role = .sender ∧ (c.chanPool k).type = netchanReliable)) →
        Least b (S ∪ c.channelTimes now (i :: is)) (serviceChannels now is c nextMs).2 := by
      intro hno
      refine (ih hnd' his' hgood h).congr fun x => or_congr_right ⟨?_, ?_⟩
      · rintro ⟨a, ha, k, hid, hkind, hx⟩
        rcases List.mem_cons.mp ha with rfl | ha
        · exact absurd hkind (hno k hid)
        · exact ⟨a, ha, k, hid, hkind, hx⟩
      · rintro ⟨a, ha, hx⟩
        exact ⟨a, List.mem_cons_of_mem i ha, hx⟩
    unfold serviceChannels
    cases hid : c.channels (UInt8.ofNat i) with
    | none =>
      exact hskip fun k hk => by rw [hid] at hk; cases hk
    | some k =>
      dsimp only
      split_ifs with hkind
      · have ht := serviceSlots_touch now k (List.range ncOutgoingSlots) c nextMs
        have hused := (hgood.inv.table _ k hid).2.1
        have hgood1 := serviceSlots_good now (List.range ncOutgoingSlots)
          (fun j hj => List.mem_range.mp hj) hgood hused nextMs
        have hslots := serviceSlots_least now k hb (c := c)
          (List.pairwise_lt_range (n := ncOutgoingSlots)) h
        refine (ih hnd' his' hgood1 hslots).congr fun x => ?_
        -- the records behind the head are those of before
        have hapart := table_apart hgood hi his hid
        have hsame : x ∈ (serviceSlots now k (List.range ncOutgoingSlots) c
            nextMs).1.channelTimes now is ↔ x ∈ c.channelTimes now is := by
          refine exists_congr fun a => and_congr_right fun ha => exists_congr fun k' => ?_
          rw [ht.channels, ht.cfg]
          refine and_congr_right fun hid' => ?_
          rw [ht.other k' fun e => hapart a ha (e ▸ hid')]
        simp only [Set.mem_union]
        rw [hsame, or_assoc]
        refine or_congr_right ⟨?_, ?_⟩
        · rintro ⟨a, ha, k', hid', hkind', hx⟩
          rcases List.mem_cons.mp ha with rfl | ha
          · obtain rfl : k = k' := Option.some.inj (hid.symm.trans hid')
            exact Or.inl hx
          · exact Or.inr ⟨a, ha, k', hid', hkind', hx⟩
        · rintro (hx | ⟨a, ha, hx⟩)
          · exact ⟨i, List.mem_cons_self, k, hid, hkind, hx⟩
          · exact ⟨a, List.mem_cons_of_mem i ha, hx⟩
      · exact hskip fun k' hk' => Option.some.inj (hid.symm.trans hk') ▸ hkind

/-! ## The timers of the connection -/

/-- The timers of the connection after a call: those that were due are set. -/
structure Conn.Armed (c : Conn) (now : UInt32) (c' : Conn) : Prop where
  state : c'.state = c.state
  server : c'.server = c.server
  lastRecvMs : c'.lastRecvMs = c.lastRecvMs
  lastSendMs : c'.lastSendMs = c.lastSendMs
  connectSentMs : (c.Retries now ∧ c'.connectSentMs = now) ∨
    (¬c.Retries now ∧ c'.connectSentMs = c.connectSentMs)
  pingSentMs : (c.Pings now ∧ c'.pingSentMs = now) ∨
    (¬c.Pings now ∧ c'.pingSentMs = c.pingSentMs)

namespace Conn.Armed

variable {c c' c'' : Conn} {now : UInt32}

theorem quiet (c : Conn) (hre : ¬c.Retries now) (hping : ¬c.Pings now) : Armed c now c :=
  ⟨rfl, rfl, rfl, rfl, Or.inr ⟨hre, rfl⟩, Or.inr ⟨hping, rfl⟩⟩

theorem trans_same (h : Armed c now c') (h' : c'.SameTimers c'') : Armed c now c'' where
  state := h'.state.trans h.state
  server := h'.server.trans h.server
  lastRecvMs := h'.lastRecvMs.trans h.lastRecvMs
  lastSendMs := h'.lastSendMs.trans h.lastSendMs
  connectSentMs := by
    rw [h'.connectSentMs]
    exact h.connectSentMs
  pingSentMs := by
    rw [h'.pingSentMs]
    exact h.pingSentMs

end Conn.Armed

/-- The number that the retry returns when it is due. -/
def Conn.retryMs (c : Conn) (now : UInt32) : Nat :=
  (max (int32 (ncConnectRetryMs - (now - c.connectSentMs))) 0).toNat

/-- The scan of the channels starts with the time `n`. -/
inductive Conn.Starts (c : Conn) (now : UInt32) (n : Int) : Prop
  | retry : c.Retries now → (∀ x, ¬c.LinkRuns now x) → n = (c.retryMs now : Int) → Starts c now n
  | long : ¬c.Retries now → c.LongIdle now →
      Least ((left c.cfg.idleTimeoutMs c.lastRecvMs now : Int) - 2 ^ 32)
        {x | c.LinkRuns now x} n → Starts c now n
  | short : ¬c.Retries now → ¬c.LongIdle now → Least (-1) {x | c.LinkRuns now x} n →
      Starts c now n

theorem netchanService_unconnected (env : Env) {c : Conn} {now : UInt32}
    (hto : ¬c.TimesOut now) (hst : c.state ≠ .connected) :
    ∃ c' n, netchanService env c now = serviceChannels now (List.range ncMaxChannels) c' n ∧
      c'.toCore = c.toCore ∧ c.Armed now c' ∧ c.Starts now n := by
  have hping : ¬c.Pings now := fun h => hst h.1
  have hlong : ¬c.LongIdle now := fun h => hst h.1
  -- the idle and the ping timer are those of a connected link
  have hscan : ∀ c' n, c'.state = c.state → serviceHandshake c now = (c', some n) →
      netchanService env c now = serviceChannels now (List.range ncMaxChannels) c' n := by
    intro c' n hst' hhand
    rw [← hst'] at hst
    simp only [netchanService, hhand, serviceIdle, servicePing, hst, false_and, if_false]
  by_cases hclient : c.state = .connecting ∧ c.server = false
  · by_cases hdue : ncConnectRetryMs ≤ now - c.connectSentMs
    · have hre : c.Retries now := ⟨hclient.1, hclient.2, hdue⟩
      have hmore : ¬ncConnectRetries ≤ c.connectAttempts :=
        fun h => hto (Or.inl ⟨hclient.1, hclient.2, hdue, h⟩)
      have hsame : c.SameTimers (ctrlConnectInit c) := Conn.SameTimers.reserve c _
      obtain ⟨c', hhand, hcore, harmed⟩ : ∃ c', serviceHandshake c now = (c',
          some (max (int32 (ncConnectRetryMs - (now - c.connectSentMs))) 0)) ∧
          c'.toCore = c.toCore ∧ c.Armed now c' := by
        simp only [serviceHandshake, if_pos hclient, if_pos hdue, if_neg hmore]
        exact ⟨_, rfl, ctrlReserve_toCore _ _, hsame.state, hsame.server, hsame.lastRecvMs,
          hsame.lastSendMs, Or.inl ⟨hre, rfl⟩, Or.inr ⟨hping, hsame.pingSentMs⟩⟩
      refine ⟨c', _, hscan c' _ harmed.state hhand, hcore, harmed, .retry hre ?_ ?_⟩
      · rintro x (⟨-, -, hlt⟩ | ⟨hcon, -⟩ | ⟨hcon, -⟩)
        · exact UInt32.not_le.mpr hlt hdue
        · exact hst hcon
        · exact hst hcon
      · rw [Conn.retryMs, Int.toNat_of_nonneg (le_max_right _ _)]
    · have hlt := UInt32.not_le.mp hdue
      have hre : ¬c.Retries now := fun h => hdue h.2.2
      have hleft : max (int32 (ncConnectRetryMs - (now - c.connectSentMs))) 0 =
          (left ncConnectRetryMs c.connectSentMs now : Int) := by
        have hle := left_le hlt
        rw [int32_of_lt (lt_of_le_of_lt hle (by decide))]
        exact max_eq_left (Int.natCast_nonneg _)
      have hhand : serviceHandshake c now =
          (c, some (left ncConnectRetryMs c.connectSentMs now : Int)) := by
        simp only [serviceHandshake, if_pos hclient, if_neg hdue, hleft]
      refine ⟨c, _, hscan c _ rfl hhand, rfl, .quiet c hre hping, .short hre hlong ?_⟩
      refine Or.inr ⟨_, .handshake hclient.1 hclient.2 hlt, rfl, ?_⟩
      rintro y (- | ⟨hcon, -⟩ | ⟨hcon, -⟩)
      · exact le_rfl
      · exact absurd hcon hst
      · exact absurd hcon hst
  · have hre : ¬c.Retries now := fun h => hclient ⟨h.1, h.2.1⟩
    have hhand : serviceHandshake c now = (c, some (-1)) := by
      simp only [serviceHandshake, if_neg hclient]
    refine ⟨c, _, hscan c _ rfl hhand, rfl, .quiet c hre hping,
      .short hre hlong (Or.inl ⟨rfl, ?_⟩)⟩
    rintro y (⟨hcon, hserver, -⟩ | ⟨hcon, -⟩ | ⟨hcon, -⟩)
    · exact hclient ⟨hcon, hserver⟩
    · exact hst hcon
    · exact hst hcon

theorem serviceIdle_starts {c : Conn} {now : UInt32} (hto : ¬c.TimesOut now)
    (hst : c.state = .connected) :
    ∃ b n, serviceIdle c now (-1) = (c, some n) ∧ b < 0 ∧
      (c.LongIdle now → b = (left c.cfg.idleTimeoutMs c.lastRecvMs now : Int) - 2 ^ 32) ∧
      (¬c.LongIdle now → b = -1) ∧
      Least b {x | 0 < c.lastRecvMs ∧ now - c.lastRecvMs < c.cfg.idleTimeoutMs ∧
        left c.cfg.idleTimeoutMs c.lastRecvMs now < 2 ^ 31 ∧
        x = left c.cfg.idleTimeoutMs c.lastRecvMs now} n := by
  by_cases hrecv : 0 < c.lastRecvMs
  · have hlt : now - c.lastRecvMs < c.cfg.idleTimeoutMs :=
      UInt32.not_le.mp fun h => hto (Or.inr ⟨hst, hrecv, h⟩)
    have hidle : serviceIdle c now (-1) =
        (c, some (int32 (c.cfg.idleTimeoutMs - (now - c.lastRecvMs)))) := by
      simp only [serviceIdle, if_pos (And.intro hst hrecv), if_neg (UInt32.not_le.mpr hlt), sooner,
        if_pos (Or.inl (show (-1 : Int) < 0 by decide))]
    by_cases hlong : 2 ^ 31 ≤ left c.cfg.idleTimeoutMs c.lastRecvMs now
    · have hmax := left_lt c.cfg.idleTimeoutMs c.lastRecvMs now
      refine ⟨(left c.cfg.idleTimeoutMs c.lastRecvMs now : Int) - 2 ^ 32, _, hidle, by omega,
        fun _ => rfl, fun h => absurd ⟨hst, hrecv, hlt, hlong⟩ h,
        Or.inl ⟨int32_of_le hlong, ?_⟩⟩
      rintro x ⟨-, -, hshort, -⟩
      exact Nat.not_lt.mpr hlong hshort
    · have hshort := Nat.not_le.mp hlong
      refine ⟨-1, _, hidle, by decide, fun h => absurd h.2.2.2 hlong, fun _ => rfl,
        Or.inr ⟨_, ⟨hrecv, hlt, hshort, rfl⟩, int32_of_lt hshort, ?_⟩⟩
      rintro y ⟨-, -, -, rfl⟩
      exact le_rfl
  · have hidle : serviceIdle c now (-1) = (c, some (-1)) := by
      simp only [serviceIdle, if_neg fun h : c.state = .connected ∧ _ => hrecv h.2]
    refine ⟨-1, -1, hidle, by decide, fun h => absurd h.2.1 hrecv, fun _ => rfl,
      Or.inl ⟨rfl, ?_⟩⟩
    rintro x ⟨h, -⟩
    exact hrecv h

theorem servicePing_armed (env : Env) {c : Conn} (now : UInt32) (hst : c.state = .connected)
    {n : Int} (hb : b < 0) (h : Least b S n) :
    c.Armed now (servicePing env c now n).1 ∧
      Least b (S ∪ {x | 0 < c.lastSendMs ∧ now - c.lastSendMs < ncPingIntervalMs ∧
        x = left ncPingIntervalMs c.lastSendMs now}) (servicePing env c now n).2 := by
  have hre : ¬c.Retries now := fun h => by
    rw [h.1] at hst
    cases hst
  have hnone : ¬(0 < c.lastSendMs ∧ now - c.lastSendMs < ncPingIntervalMs) →
      Least b (S ∪ {x | 0 < c.lastSendMs ∧ now - c.lastSendMs < ncPingIntervalMs ∧
        x = left ncPingIntervalMs c.lastSendMs now}) n := by
    intro hno
    exact h.congr fun x => or_iff_left fun hx => hno ⟨hx.1, hx.2.1⟩
  simp only [servicePing]
  split_ifs with hon hdue hsent
  · have hsame := (Conn.SameTimers.reserve { c with pingOpaque := ncRandomId env }
      (ncFramePing :: BigEndian.wr32 (ncRandomId env)))
    refine ⟨⟨hsame.state, hsame.server, hsame.lastRecvMs, hsame.lastSendMs,
      Or.inr ⟨hre, hsame.connectSentMs⟩, Or.inl ⟨⟨hst, hon.2, hdue, hsent⟩, rfl⟩⟩, ?_⟩
    exact hnone fun hx => UInt32.not_le.mpr hx.2 hdue
  · exact ⟨.quiet c hre fun h => hsent h.2.2.2, hnone fun hx => UInt32.not_le.mpr hx.2 hdue⟩
  · have hlt := UInt32.not_le.mp hdue
    refine ⟨.quiet c hre fun h => hdue h.2.2.1, ?_⟩
    have hle := left_le hlt
    rw [int32_of_lt (lt_of_le_of_lt hle (by decide))]
    refine (h.insert hb (left ncPingIntervalMs c.lastSendMs now)).congr fun x => ?_
    exact or_comm.trans (or_congr_left ⟨fun hx => hx.2.2, fun hx => ⟨hon.2, hlt, hx⟩⟩)
  · exact ⟨.quiet c hre fun h => hon ⟨hst, h.2.1⟩, hnone fun hx => hon ⟨hst, hx.1⟩⟩

theorem netchanService_connected (env : Env) {c : Conn} {now : UInt32}
    (hto : ¬c.TimesOut now) (hst : c.state = .connected) :
    ∃ c' n, netchanService env c now = serviceChannels now (List.range ncMaxChannels) c' n ∧
      c'.toCore = c.toCore ∧ c.Armed now c' ∧ c.Starts now n := by
  have hre : ¬c.Retries now := fun h => by
    rw [h.1] at hst
    cases hst
  have hcon : c.state ≠ .connecting := fun h => by
    rw [h] at hst
    cases hst
  have hhand : serviceHandshake c now = (c, some (-1)) := by
    simp only [serviceHandshake, if_neg fun h : c.state = .connecting ∧ _ => hcon h.1]
  obtain ⟨b, n, hidle, hb, hlong, hshort, hleast⟩ := serviceIdle_starts hto hst
  obtain ⟨harmed, hping⟩ := servicePing_armed env now hst hb hleast
  have hruns : Least b {x | c.LinkRuns now x} (servicePing env c now n).2 := by
    refine hping.congr fun x => ⟨?_, ?_⟩
    · rintro (⟨h, -⟩ | ⟨-, hrecv, hlt, hfits⟩ | ⟨-, hsend, hlt⟩)
      · exact absurd h hcon
      · exact Or.inl ⟨hrecv, hlt, hfits, rfl⟩
      · exact Or.inr ⟨hsend, hlt, rfl⟩
    · rintro (⟨hrecv, hlt, hfits, hx⟩ | ⟨hsend, hlt, hx⟩)
      · exact hx ▸ .idle hst hrecv hlt hfits
      · exact hx ▸ .ping hst hsend hlt
  refine ⟨(servicePing env c now n).1, (servicePing env c now n).2, ?_,
    servicePing_toCore env c now n, harmed, ?_⟩
  · simp only [netchanService, hhand, hidle]
  · by_cases hl : c.LongIdle now
    · exact .long hre hl (hlong hl ▸ hruns)
    · exact .short hre hl (hshort hl ▸ hruns)

theorem netchanService_link (env : Env) {c : Conn} {now : UInt32} (hto : ¬c.TimesOut now) :
    ∃ c' n, netchanService env c now = serviceChannels now (List.range ncMaxChannels) c' n ∧
      c'.toCore = c.toCore ∧ c.Armed now c' ∧ c.Starts now n := by
  by_cases hst : c.state = .connected
  · exact netchanService_connected env hto hst
  · exact netchanService_unconnected env hto hst

/-! ## The state and the time after a call -/

/-- The timers after a call: those of the connection, and those of the channels that the scan
looks at. -/
structure Conn.Serviced (c : Conn) (now : UInt32) (c' : Conn) : Prop where
  armed : c.Armed now c'
  cfg : c'.cfg = c.cfg
  scans : ∀ k, c'.Scans k ↔ c.Scans k
  slots : ∀ k, c.Scans k → Rescanned c.cfg now (List.range ncOutgoingSlots)
    (c.chanPool k).outgoing (c'.chanPool k).outgoing

theorem netchanService_serviced (env : Env) {c : Conn} (hgood : c.toCore.Good) {now : UInt32}
    (hto : ¬c.TimesOut now) : c.Serviced now (netchanService env c now).1 := by
  obtain ⟨c', n, heq, hcore, harmed, -⟩ := netchanService_link env hto
  rw [heq]
  have hgood' : c'.toCore.Good := hcore ▸ hgood
  refine ⟨harmed.trans_same (serviceChannels_sameTimers now _ c' n), ?_, fun k => ?_,
    fun k hk => ?_⟩
  · rw [(serviceChannels_moves (w := fun _ => True) now _ c' n).cfg, hcore]
  · rw [serviceChannels_scans, hcore]
  · obtain ⟨⟨id, hid⟩, hkind⟩ := hk
    have hofNat : UInt8.ofNat id.toNat = id := UInt8.ofNat_toNat
    rw [← hcore] at hid hkind ⊢
    exact serviceChannels_rescanned now List.nodup_range (fun a ha => List.mem_range.mp ha) hgood'
      n (i := id.toNat) (List.mem_range.mpr id.toNat_lt) (hofNat.symm ▸ hid) hkind

/-- `netchan_service` returns the time `r`. -/
inductive Conn.Returns (c : Conn) (now : UInt32) (r : Int) : Prop
  | retry : c.Retries now → Least (-1) (insert (c.retryMs now) {x | c.Runs now x}) r →
      Returns c now r
  | long : ¬c.Retries now → c.LongIdle now →
      Least ((left c.cfg.idleTimeoutMs c.lastRecvMs now : Int) - 2 ^ 32) {x | c.Runs now x} r →
      Returns c now r
  | short : ¬c.Retries now → ¬c.LongIdle now → Least (-1) {x | c.Runs now x} r → Returns c now r

theorem netchanService_returns (env : Env) {c : Conn} (hgood : c.toCore.Good) {now : UInt32}
    (hto : ¬c.TimesOut now) : c.Returns now (netchanService env c now).2 := by
  obtain ⟨c', n, heq, hcore, -, hstarts⟩ := netchanService_link env hto
  rw [heq]
  have hleast : ∀ {b : Int} {S : Set Nat}, b < 0 → Least b S n →
      Least b (S ∪ c'.channelTimes now (List.range ncMaxChannels))
        (serviceChannels now (List.range ncMaxChannels) c' n).2 := fun hb h =>
    serviceChannels_least now hb List.nodup_range (fun a ha => List.mem_range.mp ha)
      (hcore ▸ hgood) h
  have hchan : ∀ x, x ∈ c'.channelTimes now (List.range ncMaxChannels) ↔
      ∃ k, c.Scans k ∧
        x ∈ slotTimes c.cfg now (List.range ncOutgoingSlots) (c.chanPool k).outgoing := by
    intro x
    unfold Conn.channelTimes
    rw [hcore]
    constructor
    · rintro ⟨i, -, k, hid, hkind, hx⟩
      exact ⟨k, ⟨⟨_, hid⟩, hkind⟩, hx⟩
    · rintro ⟨k, ⟨⟨id, hid⟩, hkind⟩, hx⟩
      have hofNat : UInt8.ofNat id.toNat = id := UInt8.ofNat_toNat
      exact ⟨id.toNat, List.mem_range.mpr id.toNat_lt, k, hofNat.symm ▸ hid, hkind, hx⟩
  have hruns : ∀ x, c.Runs now x ↔
      c.LinkRuns now x ∨ x ∈ c'.channelTimes now (List.range ncMaxChannels) := by
    intro x
    rw [hchan]
    constructor
    · rintro (hx | ⟨hk, hx⟩)
      · exact Or.inl hx
      · exact Or.inr ⟨_, hk, hx⟩
    · rintro (hx | ⟨k, hk, hx⟩)
      · exact .link hx
      · exact .slot hk hx
  rcases hstarts with ⟨hre, hnone, rfl⟩ | ⟨hre, hlong, hn⟩ | ⟨hre, hlong, hn⟩
  · have hone : Least (-1) {c.retryMs now} (c.retryMs now : Int) :=
      Or.inr ⟨_, rfl, rfl, fun y hy => hy.symm.le⟩
    refine .retry hre ((hleast (by decide) hone).congr fun x => ?_)
    exact or_congr_right ((hruns x).trans (or_iff_right (hnone x)))
  · have hb := left_lt c.cfg.idleTimeoutMs c.lastRecvMs now
    exact .long hre hlong ((hleast (by omega) hn).congr hruns)
  · exact .short hre hlong ((hleast (by decide) hn).congr hruns)

section Serviced

variable {c c' : Conn} {now t : UInt32}

theorem Conn.Serviced.counts (hk : c.Scans k) (hj : j < ncOutgoingSlots)
    (hcount : ((c.chanPool k).outgoing j).Counts c.cfg now)
    (hover : ((c.chanPool k).outgoing j).timeout c.cfg ≤
      t - ((c.chanPool k).outgoing j).sentMs) :
    (∃ x, c.Runs now x ∧ x ≤ (t - now).toNat) ∨ ∃ x, c.Rearms now x ∧ x ≤ (t - now).toNat := by
  by_cases hdead : ∃ i < ncOutgoingSlots, ((c.chanPool k).outgoing i).Exhausted c.cfg now
  · obtain ⟨i, hi, hex⟩ := hdead
    exact Or.inr ⟨0, .dead hk hi hex, Nat.zero_le _⟩
  · refine Or.inl ⟨_, .slot hk ⟨j, List.mem_range.mpr hj, fun i hi _ hex => ?_, hcount, rfl⟩,
      left_le_of_over hcount.2 hover⟩
    exact hdead ⟨i, List.mem_range.mp hi, hex⟩

theorem Conn.Serviced.due (h : c.Serviced now c') (hto : ¬c.TimesOut now) (hdue : c'.Due t) :
    (∃ x, c.Runs now x ∧ x ≤ (t - now).toNat) ∨ (∃ x, c.Rearms now x ∧ x ≤ (t - now).toNat) ∨
      c.LongIdle now ∧ left c.cfg.idleTimeoutMs c.lastRecvMs now ≤ (t - now).toNat := by
  rcases hdue with ⟨hst, hserver, hover⟩ | ⟨hst, hrecv, hover⟩ | ⟨hst, hsend, hover, hsent⟩ |
    ⟨k, j, hk, hj, hw, hover⟩
  · rw [h.armed.state] at hst
    rw [h.armed.server] at hserver
    rcases h.armed.connectSentMs with ⟨hre, hset⟩ | ⟨hre, hset⟩
    · rw [hset] at hover
      exact Or.inr (Or.inl ⟨_, .handshake hre, UInt32.le_iff_toNat_le.mp hover⟩)
    · rw [hset] at hover
      have hlt := UInt32.not_le.mp fun hle => hre ⟨hst, hserver, hle⟩
      exact Or.inl ⟨_, .link (.handshake hst hserver hlt), left_le_of_over hlt hover⟩
  · rw [h.armed.state] at hst
    rw [h.armed.lastRecvMs] at hrecv hover
    rw [h.cfg] at hover
    have hlt := UInt32.not_le.mp fun hle => hto (Or.inr ⟨hst, hrecv, hle⟩)
    have hleft := left_le_of_over hlt hover
    by_cases hlong : 2 ^ 31 ≤ left c.cfg.idleTimeoutMs c.lastRecvMs now
    · exact Or.inr (Or.inr ⟨⟨hst, hrecv, hlt, hlong⟩, hleft⟩)
    · exact Or.inl ⟨_, .link (.idle hst hrecv hlt (Nat.not_le.mp hlong)), hleft⟩
  · rw [h.armed.state] at hst
    rw [h.armed.lastSendMs] at hsend hover
    rcases h.armed.pingSentMs with ⟨hping, hset⟩ | ⟨hping, hset⟩
    · exact Or.inr (Or.inl ⟨0, .ping hping (hset.symm.trans hsent), Nat.zero_le _⟩)
    · rw [hset] at hsent
      have hlt := UInt32.not_le.mp fun hle => hping ⟨hst, hsend, hle, hsent⟩
      exact Or.inl ⟨_, .link (.ping hst hsend hlt), left_le_of_over hlt hover⟩
  · rw [h.cfg] at hover
    have hk' := (h.scans k).mp hk
    have hslots := h.slots k hk'
    by_cases hdead : ∃ i < ncOutgoingSlots, ((c.chanPool k).outgoing i).Exhausted c.cfg now
    · obtain ⟨i, hi, hex⟩ := hdead
      exact Or.inr (Or.inl ⟨0, .dead hk' hi hex, Nat.zero_le _⟩)
    have hno : ∀ i ∈ List.range ncOutgoingSlots,
        ¬((c.chanPool k).outgoing i).Exhausted c.cfg now :=
      fun i hi hex => hdead ⟨i, List.mem_range.mp hi, hex⟩
    by_cases hre : ((c.chanPool k).outgoing j).Requeues c.cfg now
    · have hset := hslots.all hno j (List.mem_range.mpr hj) hre
      rw [hset] at hw hover
      exact Or.inr (Or.inl ⟨_, .slot hk' hj hre hw.2, UInt32.le_iff_toNat_le.mp hover⟩)
    · have hsame : (c'.chanPool k).outgoing j = (c.chanPool k).outgoing j := by
        rcases hslots.each j with heq | ⟨-, hre', -⟩
        · exact heq
        · exact absurd hre' hre
      rw [hsame] at hw hover
      by_cases hup : ((c.chanPool k).outgoing j).timeout c.cfg ≤
          now - ((c.chanPool k).outgoing j).sentMs
      · by_cases hmany : ncMaxRtAttempts ≤ ((c.chanPool k).outgoing j).attempts
        · exact absurd ⟨hw.1, hw.2, hup, hmany⟩ (hno j (List.mem_range.mpr hj))
        · exact absurd ⟨hw, hup, Nat.not_le.mp hmany⟩ hre
      · rcases Conn.Serviced.counts hk' hj ⟨hw, UInt32.not_le.mp hup⟩ hover with hrun | harm
        · exact Or.inl hrun
        · exact Or.inr (Or.inl harm)

theorem Conn.Serviced.again (h : c.Serviced now c') (hx : c.Rearms now x) :
    ∃ t, (t - now).toNat ≤ x ∧ c'.Due t := by
  have hself : (now - now).toNat = 0 := by rw [UInt32.sub_self]; rfl
  have hshift : ∀ d : UInt32, now + d - now = d := fun d => by
    rw [UInt32.add_comm, UInt32.add_sub_cancel]
  rcases hx with ⟨hre⟩ | ⟨hping, hzero⟩ | ⟨hk, hj, hre, hnow⟩ | ⟨hk, hj, hex⟩
  · rcases h.armed.connectSentMs with ⟨-, hset⟩ | ⟨hno, -⟩
    · refine ⟨now + ncConnectRetryMs, (congrArg UInt32.toNat (hshift _)).le, .handshake
        (h.armed.state.trans hre.1) (h.armed.server.trans hre.2.1) ?_⟩
      rw [hset, hshift]
      exact UInt32.le_refl _
    · exact absurd hre hno
  · rcases h.armed.pingSentMs with ⟨-, hset⟩ | ⟨hno, -⟩
    · refine ⟨now, hself.le, .ping (h.armed.state.trans hping.1) ?_ ?_ (hset.trans hzero)⟩
      · rw [h.armed.lastSendMs]
        exact hping.2.1
      · rw [h.armed.lastSendMs]
        exact hping.2.2.1
    · exact absurd hping hno
  · rename_i k j
    have hk' := (h.scans k).mpr hk
    rcases (h.slots k hk).each j with hsame | ⟨-, -, hset⟩
    · -- the scan ended before it came to the slot
      refine ⟨now, hself.le.trans (Nat.zero_le _), .retransmit k j hk' hj ?_ ?_⟩
      · rw [hsame]
        exact hre.1
      · rw [hsame, h.cfg]
        exact hre.2.1
    · refine ⟨now + (((c.chanPool k).outgoing j).requeued now).timeout c.cfg,
        (congrArg UInt32.toNat (hshift _)).le, .retransmit k j hk' hj ?_ ?_⟩
      · rw [hset]
        exact ⟨hre.1.1, hnow⟩
      · rw [hset, h.cfg]
        exact (hshift _).symm ▸ UInt32.le_refl _
  · rename_i k j
    have hsame : (c'.chanPool k).outgoing j = (c.chanPool k).outgoing j := by
      rcases (h.slots k hk).each j with hsame | ⟨-, hre, -⟩
      · exact hsame
      · exact absurd hex.2.2.2 (Nat.not_le.mpr hre.2.2)
    refine ⟨now, hself.le, .retransmit k j ((h.scans k).mpr hk) hj ?_ ?_⟩
    · rw [hsame]
      exact ⟨hex.1, hex.2.1⟩
    · rw [hsame, h.cfg]
      exact hex.2.2.1

end Serviced

/-! ## The deadline -/

/-- What `netchan_service` returns is a deadline: a call before it changes nothing, and it is no
later than the first timer.  After -1 no call changes anything, and no timer is pending. -/
structure Deadline (env : Env) (c : Conn) (now : UInt32) : Prop where
  quiet : 0 ≤ (netchanService env c now).2 → ∀ env' t,
    ((t - now).toNat : Int) < (netchanService env c now).2 →
      (netchanService env' (netchanService env c now).1 t).1 = (netchanService env c now).1
  never : (netchanService env c now).2 = -1 → ∀ env' t,
    (netchanService env' (netchanService env c now).1 t).1 = (netchanService env c now).1
  before : 0 ≤ (netchanService env c now).2 → ∀ t, (netchanService env c now).1.Due t →
    (netchanService env c now).2 ≤ ((t - now).toNat : Int)
  none : (netchanService env c now).2 = -1 → ∀ t, ¬(netchanService env c now).1.Due t

theorem Deadline.of_due {env : Env} {c : Conn} {now : UInt32}
    (hbefore : 0 ≤ (netchanService env c now).2 → ∀ t, (netchanService env c now).1.Due t →
      (netchanService env c now).2 ≤ ((t - now).toNat : Int))
    (hnone : (netchanService env c now).2 = -1 → ∀ t, ¬(netchanService env c now).1.Due t) :
    Deadline env c now where
  quiet hr env' t ht := netchanService_quiet env' fun hdue => by
    have hle := hbefore hr t hdue
    omega
  never hr env' t := netchanService_quiet env' (hnone hr t)
  before := hbefore
  none := hnone

/-- The connection is closed and has nothing in flight, or the connect retry fires on time, or
the time returned is a negative number other than -1, or some running timer is up no later
than each timer that the call arms. -/
inductive Conn.OnDeadline (c : Conn) (now : UInt32) : Prop
  | closed : c.TimesOut now → (∀ k, c.Scans k → ∀ j < ncOutgoingSlots,
      ¬((c.chanPool k).outgoing j).Waits) → OnDeadline c now
  | retry : ¬c.TimesOut now → c.Retries now →
      (now - c.connectSentMs).toNat ≤ 2 ^ 31 + ncConnectRetryMs.toNat → OnDeadline c now
  | negative : ¬c.TimesOut now → c.LongIdle now →
      left c.cfg.idleTimeoutMs c.lastRecvMs now + 1 ≠ 2 ^ 32 → (∀ x, ¬c.Runs now x) →
      OnDeadline c now
  | running : ¬c.TimesOut now → (∀ x, c.Rearms now x → ∃ y ≤ x, c.Runs now y) →
      (c.LongIdle now → ∃ y, c.Runs now y) → OnDeadline c now

section Returns

variable {c : Conn} {now : UInt32} {r : Int}

theorem Conn.Retries.retryMs_eq (h : c.Retries now)
    (hle : (now - c.connectSentMs).toNat ≤ 2 ^ 31 + ncConnectRetryMs.toNat) :
    c.retryMs now = 0 := by
  have hge := UInt32.le_iff_toNat_le.mp h.2.2
  have hval : (ncConnectRetryMs - (now - c.connectSentMs)).toNat =
      (2 ^ 32 - (now - c.connectSentMs).toNat + ncConnectRetryMs.toNat) % 2 ^ 32 := by
    rw [UInt32.toNat_sub]
  have h500 : ncConnectRetryMs.toNat = 500 := rfl
  rw [Conn.retryMs, Int.toNat_eq_zero, max_le_iff]
  refine ⟨?_, le_rfl⟩
  rw [int32]
  split_ifs <;> omega

theorem Conn.lt_retryMs
    (hlt : ¬(now - c.connectSentMs).toNat ≤ 2 ^ 31 + ncConnectRetryMs.toNat) :
    ncConnectRetryMs.toNat < c.retryMs now := by
  have hmax := (now - c.connectSentMs).toNat_lt
  have hval : (ncConnectRetryMs - (now - c.connectSentMs)).toNat =
      (2 ^ 32 - (now - c.connectSentMs).toNat + ncConnectRetryMs.toNat) % 2 ^ 32 := by
    rw [UInt32.toNat_sub]
  have h500 : ncConnectRetryMs.toNat = 500 := rfl
  rw [Conn.retryMs, Int.lt_toNat, lt_max_iff]
  left
  rw [int32]
  split_ifs <;> omega

theorem Conn.Runs.lt (h : c.Runs now x) : x < 2 ^ 31 := by
  rcases h with ⟨⟨-, -, hlt⟩ | ⟨-, -, -, hfits⟩ | ⟨-, -, hlt⟩⟩ | ⟨-, j, -, -, hcount, rfl⟩
  · exact lt_of_le_of_lt (left_le hlt) (by decide)
  · exact hfits
  · exact lt_of_le_of_lt (left_le hlt) (by decide)
  · exact lt_of_le_of_lt ((left_le hcount.2).trans (Outgoing.timeout_le _ _)) (by decide)

theorem Conn.Returns.le (h : c.Returns now r) (hr : 0 ≤ r) (hx : c.Runs now x) :
    r ≤ (x : Int) := by
  rcases h with ⟨-, h⟩ | ⟨-, -, h⟩ | ⟨-, -, h⟩
  · exact h.le (by decide) hr (Set.mem_insert_of_mem _ hx)
  · have hb := left_lt c.cfg.idleTimeoutMs c.lastRecvMs now
    exact h.le (by omega) hr hx
  · exact h.le (by decide) hr hx

theorem Conn.Returns.nonneg (h : c.Returns now r) (hx : c.Runs now x) : 0 ≤ r := by
  rcases h with ⟨-, h⟩ | ⟨-, -, h⟩ | ⟨-, -, h⟩
  · exact h.nonneg (Set.mem_insert_of_mem _ hx)
  · exact h.nonneg hx
  · exact h.nonneg hx

theorem Conn.Returns.runs (h : c.Returns now r) (hr : 0 ≤ r) :
    (∃ x, c.Runs now x ∧ r = (x : Int)) ∨ c.Retries now ∧ r = (c.retryMs now : Int) := by
  rcases h with ⟨hre, h⟩ | ⟨-, -, h⟩ | ⟨-, -, h⟩
  · obtain ⟨x, hx, hrx⟩ := h.mem (by decide) hr
    rcases Set.mem_insert_iff.mp hx with heq | hx
    · exact Or.inr ⟨hre, heq ▸ hrx⟩
    · exact Or.inl ⟨x, hx, hrx⟩
  · have hb := left_lt c.cfg.idleTimeoutMs c.lastRecvMs now
    exact Or.inl (h.mem (by omega) hr)
  · exact Or.inl (h.mem (by decide) hr)

theorem Conn.Returns.neg (h : c.Returns now r) (hr : r < 0) : (∀ x, ¬c.Runs now x) ∧
    (r = -1 ∨ c.LongIdle now ∧ r = (left c.cfg.idleTimeoutMs c.lastRecvMs now : Int) - 2 ^ 32) := by
  rcases h with ⟨-, h⟩ | ⟨-, hlong, h⟩ | ⟨-, -, h⟩
  · exact absurd (Set.mem_insert _ _) ((h.none hr).2 (c.retryMs now))
  · exact ⟨(h.none hr).2, Or.inr ⟨hlong, (h.none hr).1⟩⟩
  · exact ⟨(h.none hr).2, Or.inl (h.none hr).1⟩

end Returns

theorem netchanService_timedOut (env : Env) {c : Conn} {now : UInt32} (hto : c.TimesOut now) :
    (netchanService env c now).2 = -1 := by
  rcases hto with ⟨hst, hserver, helapsed, hretry⟩ | ⟨hst, hrecv, hidle⟩
  · simp [netchanService, serviceHandshake, hst, hserver, helapsed, hretry]
  · simp [netchanService, serviceHandshake, serviceIdle, hst, hrecv, hidle]

theorem Conn.due_of_waits {c : Conn} (hk : c.Scans k) (hj : j < ncOutgoingSlots)
    (hw : ((c.chanPool k).outgoing j).Waits) : ∃ t, c.Due t := by
  refine ⟨((c.chanPool k).outgoing j).sentMs + ((c.chanPool k).outgoing j).timeout c.cfg,
    .retransmit k j hk hj hw ?_⟩
  rw [UInt32.add_comm, UInt32.add_sub_cancel]
  exact UInt32.le_refl _

theorem Conn.Serviced.idle_due {c c' : Conn} {now : UInt32} (h : c.Serviced now c')
    (hlong : c.LongIdle now) : ∃ t, c'.Due t := by
  refine ⟨now + UInt32.ofNat (left c.cfg.idleTimeoutMs c.lastRecvMs now),
    .idle (h.armed.state.trans hlong.1) (h.armed.lastRecvMs ▸ hlong.2.1) ?_⟩
  rw [h.cfg, h.armed.lastRecvMs]
  exact over_of_left hlong.2.2.1

theorem deadline_iff_timedOut (env : Env) {c : Conn} {now : UInt32} (hto : c.TimesOut now) :
    Deadline env c now ↔ ∀ k, c.Scans k → ∀ j < ncOutgoingSlots,
      ¬((c.chanPool k).outgoing j).Waits := by
  have hr := netchanService_timedOut env hto
  have hcore : (netchanService env c now).1.toCore = c.toCore := by
    rw [(netchanService_timesOut env hto).2, evPush_toCore]
  have hst : (netchanService env c now).1.state = .closed := by
    rw [(netchanService_timesOut env hto).2, evPush_state]
  constructor
  · intro hd k hk j hj hw
    rw [← hcore] at hk hw
    obtain ⟨t, hdue⟩ := Conn.due_of_waits hk hj hw
    exact hd.none hr t hdue
  · intro hno
    refine .of_due (fun h0 => absurd (hr ▸ h0) (by decide)) fun _ t hdue => ?_
    rcases hdue with ⟨hc, -⟩ | ⟨hc, -⟩ | ⟨hc, -⟩ | ⟨k, j, hk, hj, hw, -⟩
    · rw [hst] at hc
      cases hc
    · rw [hst] at hc
      cases hc
    · rw [hst] at hc
      cases hc
    · rw [hcore] at hk hw
      exact hno k hk j hj hw

/-- No timer is due before the time `r`, and none is pending where `r` is -1. -/
def Conn.InTime (c' : Conn) (now : UInt32) (r : Int) : Prop :=
  (0 ≤ r → ∀ t, c'.Due t → r ≤ ((t - now).toNat : Int)) ∧ (r = -1 → ∀ t, ¬c'.Due t)

section InTime

variable {c c' : Conn} {now : UInt32} {r : Int}

theorem Conn.InTime.preceded (h : c'.InTime now r) (hs : c.Serviced now c')
    (hret : c.Returns now r)
    (hretry : ¬(c.Retries now ∧
      (now - c.connectSentMs).toNat ≤ 2 ^ 31 + ncConnectRetryMs.toNat))
    (hneg : ¬(c.LongIdle now ∧ left c.cfg.idleTimeoutMs c.lastRecvMs now + 1 ≠ 2 ^ 32 ∧
      ∀ x, ¬c.Runs now x)) {t : UInt32} (hdue : c'.Due t) :
    ∃ y ≤ (t - now).toNat, c.Runs now y := by
  obtain ⟨hbefore, hnone⟩ := h
  have hr : 0 ≤ r := by
    by_contra hr
    obtain ⟨hno, hr1 | ⟨hlong, hr1⟩⟩ := hret.neg (Int.not_le.mp hr)
    · exact hnone hr1 t hdue
    · refine hneg ⟨hlong, fun hmax => hnone ?_ t hdue, hno⟩
      omega
  have hle := hbefore hr t hdue
  rcases hret.runs hr with ⟨y, hy, hry⟩ | ⟨hre, hry⟩
  · exact ⟨y, by omega, hy⟩
  · -- the retry armed itself again, for a time before the one returned
    exfalso
    obtain ⟨t', ht', hdue'⟩ := hs.again (.handshake hre)
    have hle' := hbefore hr t' hdue'
    have hlate := Conn.lt_retryMs fun hle => hretry ⟨hre, hle⟩
    omega

theorem Conn.Returns.zero (h : c.Returns now r) (hre : c.Retries now)
    (hle : (now - c.connectSentMs).toNat ≤ 2 ^ 31 + ncConnectRetryMs.toNat) : r = 0 := by
  rcases h with ⟨-, hl⟩ | ⟨hno, -⟩ | ⟨hno, -⟩
  · have hmem := Set.mem_insert (c.retryMs now) {x | c.Runs now x}
    have hr := hl.nonneg hmem
    have h0 := hl.le (by decide) hr hmem
    rw [hre.retryMs_eq hle] at h0
    exact le_antisymm h0 hr
  · exact absurd hre hno
  · exact absurd hre hno

theorem Conn.Returns.negative (h : c.Returns now r) (hlong : c.LongIdle now)
    (hno : ∀ x, ¬c.Runs now x) :
    r = (left c.cfg.idleTimeoutMs c.lastRecvMs now : Int) - 2 ^ 32 := by
  rcases h with ⟨hre, -⟩ | ⟨-, -, hl⟩ | ⟨-, hno', -⟩
  · have hst := hlong.1
    rw [hre.1] at hst
    cases hst
  · rcases hl with ⟨hl, -⟩ | ⟨x, hx, -⟩
    · exact hl
    · exact absurd hx (hno x)
  · exact absurd hlong hno'

theorem Conn.Serviced.inTime (hs : c.Serviced now c') (hto : ¬c.TimesOut now)
    (hret : c.Returns now r) (hrearm : ∀ x, c.Rearms now x → ∃ y ≤ x, c.Runs now y)
    (hidle : c.LongIdle now → ∃ y, c.Runs now y) : c'.InTime now r := by
  have hrun : ∀ t, c'.Due t → ∃ y ≤ (t - now).toNat, c.Runs now y := by
    intro t hdue
    rcases hs.due hto hdue with ⟨y, hy, hle⟩ | ⟨x, hx, hle⟩ | ⟨hlong, hle⟩
    · exact ⟨y, hle, hy⟩
    · obtain ⟨y, hyx, hy⟩ := hrearm x hx
      exact ⟨y, hyx.trans hle, hy⟩
    · obtain ⟨y, hy⟩ := hidle hlong
      exact ⟨y, hy.lt.le.trans (hlong.2.2.2.trans hle), hy⟩
  refine ⟨fun hr t hdue => ?_, fun hr t hdue => ?_⟩
  · obtain ⟨y, hle, hy⟩ := hrun t hdue
    exact (hret.le hr hy).trans (Int.ofNat_le.mpr hle)
  · obtain ⟨y, -, hy⟩ := hrun t hdue
    have hpos := hret.nonneg hy
    rw [hr] at hpos
    exact absurd hpos (by decide)

end InTime

/-- `netchan_service` returns a deadline exactly when some running timer is up no later than
each timer that the call arms, apart from the ends that `OnDeadline` names. -/
theorem netchanService_deadline (env : Env) {c : Conn} (h : c.Reachable) (now : UInt32) :
    Deadline env c now ↔ c.OnDeadline now := by
  by_cases hto : c.TimesOut now
  · rw [deadline_iff_timedOut env hto]
    constructor
    · exact .closed hto
    · rintro (⟨-, hno⟩ | ⟨hto', -⟩ | ⟨hto', -⟩ | ⟨hto', -⟩)
      · exact hno
      · exact absurd hto hto'
      · exact absurd hto hto'
      · exact absurd hto hto'
  · have hs := netchanService_serviced env h.good hto
    have hret := netchanService_returns env h.good hto
    have hin : Deadline env c now ↔
        (netchanService env c now).1.InTime now (netchanService env c now).2 :=
      ⟨fun hd => ⟨hd.before, hd.none⟩, fun hd => .of_due hd.1 hd.2⟩
    rw [hin]
    constructor
    · intro hd
      by_cases hretry : c.Retries now ∧
          (now - c.connectSentMs).toNat ≤ 2 ^ 31 + ncConnectRetryMs.toNat
      · exact .retry hto hretry.1 hretry.2
      by_cases hneg : c.LongIdle now ∧
          left c.cfg.idleTimeoutMs c.lastRecvMs now + 1 ≠ 2 ^ 32 ∧ ∀ x, ¬c.Runs now x
      · exact .negative hto hneg.1 hneg.2.1 hneg.2.2
      refine .running hto (fun x hx => ?_) fun hlong => ?_
      · obtain ⟨t, ht, hdue⟩ := hs.again hx
        obtain ⟨y, hy, hruns⟩ := hd.preceded hs hret hretry hneg hdue
        exact ⟨y, hy.trans ht, hruns⟩
      · obtain ⟨t, hdue⟩ := hs.idle_due hlong
        obtain ⟨y, -, hruns⟩ := hd.preceded hs hret hretry hneg hdue
        exact ⟨y, hruns⟩
    · rintro (⟨hto', -⟩ | ⟨-, hre, hle⟩ | ⟨-, hlong, hmax, hno⟩ | ⟨-, hrearm, hidle⟩)
      · exact absurd hto' hto
      · rw [hret.zero hre hle]
        exact ⟨fun _ t _ => Int.natCast_nonneg _, fun h => absurd h (by decide)⟩
      · have hlt := left_lt c.cfg.idleTimeoutMs c.lastRecvMs now
        rw [hret.negative hlong hno]
        exact ⟨fun h => by omega, fun h => by omega⟩
      · exact hs.inTime hto hret hrearm hidle

/-- The server of `unanswered`: one message is in flight, sent at 1. -/
def inFlight : Conn := (netchanOpen true netchanCfgDefault).run (unanswered [])

theorem inFlight_reachable : inFlight.Reachable :=
  (reachable_open true netchanCfgDefault).run _

/-- At 10 nothing fires, and 91 ms are left of the retransmit timeout. -/
theorem netchanService_deadline_ten :
    Deadline quietEnv inFlight 10 ∧ (netchanService quietEnv inFlight 10).2 = 91 := by
  have hvals : inFlight.state = .connected ∧ inFlight.lastRecvMs = 0 ∧
      (∀ k < ncMaxChan, ∀ j < ncOutgoingSlots, inFlight.chanUsed k = true →
        ((inFlight.chanPool k).outgoing j).active = true →
        ¬((inFlight.chanPool k).outgoing j).timeout inFlight.cfg ≤
          10 - ((inFlight.chanPool k).outgoing j).sentMs) ∧
      (netchanService quietEnv inFlight 10).2 = 91 := by
    decide +kernel
  obtain ⟨hst, hrecv, hslots, hr⟩ := hvals
  have hscan : ∀ {k j}, inFlight.Scans k → j < ncOutgoingSlots →
      ((inFlight.chanPool k).outgoing j).active = true →
      ¬((inFlight.chanPool k).outgoing j).timeout inFlight.cfg ≤
        10 - ((inFlight.chanPool k).outgoing j).sentMs := by
    rintro k j ⟨⟨id, hid⟩, -⟩ hj hact
    obtain ⟨hlt, hused, -⟩ := inFlight_reachable.good.inv.table id k hid
    exact hslots k hlt j hj hused hact
  refine ⟨(netchanService_deadline quietEnv inFlight_reachable 10).mpr (.running ?_ ?_ ?_), hr⟩
  · rintro (⟨hc, -⟩ | ⟨-, hpos, -⟩)
    · rw [hst] at hc
      cases hc
    · rw [hrecv] at hpos
      exact absurd hpos (by decide)
  · rintro x (⟨hc, -⟩ | ⟨-, hzero⟩ | ⟨hk, hj, hre, -⟩ | ⟨hk, hj, hex⟩)
    · rw [hst] at hc
      cases hc
    · cases hzero
    · exact absurd hre.2.1 (hscan hk hj hre.1.1)
    · exact absurd hex.2.2.1 (hscan hk hj hex.1)
  · rintro ⟨-, hpos, -⟩
    rw [hrecv] at hpos
    exact absurd hpos (by decide)

/-- At 101 the message is queued again, with a timeout of 200 ms.  The call returns the 4900 ms
of the ping timer, and a call at 301 queues the message a third time. -/
theorem retransmit_missed :
    ¬∀ c : Conn, c.Reachable → ∀ env now, Deadline env c now := by
  intro h
  have hvals : (netchanService quietEnv inFlight 101).2 = 4900 ∧
      (((netchanService quietEnv (netchanService quietEnv inFlight 101).1 301).1.chanPool
        0).outgoing 0).attempts = 3 ∧
      (((netchanService quietEnv inFlight 101).1.chanPool 0).outgoing 0).attempts = 2 := by
    decide +kernel
  obtain ⟨hr, hthree, htwo⟩ := hvals
  have hquiet := (h inFlight inFlight_reachable quietEnv 101).quiet (by rw [hr]; decide) quietEnv
    301 (by rw [hr]; decide)
  rw [hquiet, htwo] at hthree
  exact absurd hthree (by decide)

end MechanicalResearcher.NetchanV2
