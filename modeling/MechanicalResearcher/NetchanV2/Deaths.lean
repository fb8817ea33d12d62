import MechanicalResearcher.NetchanV2.Events
import MechanicalResearcher.NetchanV2.Moves

/-!
# Channels declared dead

`netchan_service` gives a channel up when a message was sent five times without an
answer, and pushes a CHAN_CLOSE event.  The scan does not look at the state of
the channel, so a later call finds the same message again.  Between the calls
that find a dead channel exhausted a second time, the event comes once.
-/

namespace MechanicalResearcher.NetchanV2

open Lib Lib.Runs

/-! ## What a call appends to the event queue -/

/-- The events `evs` were put behind those of `c`. -/
structure Appends (c c' : Conn) (evs : List Event) : Prop where
  ok : c'.EvOk
  pending : c'.pending = c.pending ++ evs

namespace Appends

variable {c c' c'' : Conn} {evs evs' : List Event}

theorem of_eq (hc : c.EvOk) (hev : c'.events = c.events) (hhead : c'.evHead = c.evHead)
    (htail : c'.evTail = c.evTail) : Appends c c' [] := by
  refine ⟨⟨hhead ▸ hc.head, htail ▸ hc.tail⟩, ?_⟩
  rw [Conn.pending, hev, hhead, htail, List.append_nil]
  rfl

theorem trans (h : Appends c c' evs) (h' : Appends c' c'' evs') :
    Appends c c'' (evs ++ evs') :=
  ⟨h'.ok, by rw [h'.pending, h.pending, List.append_assoc]⟩

theorem evStore (hc : c.EvOk) (e : Event) : Appends c (evStore c e) [e] ∨
    Appends c (evStore c e) [] := by
  by_cases hroom : c.EvRoom
  · exact Or.inl ⟨hc.evStore e, evStore_pending hc hroom e⟩
  · rw [evStore_full hroom]
    exact Or.inr (of_eq hc rfl rfl rfl)

end Appends

/-- The event for a dead channel. -/
def closeEvent (k : Nat) : Event := { Event.zero with type := .chanClose, ch := some k }

/-! ## The scan -/

/-- The message was sent as often as a message is sent, and its time is up again. -/
def Outgoing.Exhausted (cfg : Cfg) (now : UInt32) (o : Outgoing) : Prop :=
  o.active = true ∧ o.sentMs ≠ 0 ∧
    min (cfg.retransmitMs <<< UInt32.ofNat (o.attempts - 1)) ncMaxRtMs ≤ now - o.sentMs ∧
    ncMaxRtAttempts ≤ o.attempts

instance (cfg : Cfg) (now : UInt32) (o : Outgoing) : Decidable (o.Exhausted cfg now) :=
  inferInstanceAs (Decidable (_ ∧ _ ∧ _ ∧ _))

theorem serviceSlots_touch (now : UInt32) (k : Nat) (js : List Nat) (c : Conn) (nextMs : Int) :
    Core.Touch k c.toCore (serviceSlots now k js c nextMs).1.toCore := by
  refine serviceSlots_rule (P := fun d => Core.Touch k c.toCore d.toCore) (fun d h => ?_)
    (fun d j _ _ h => h.trans (requeue_touch d.toCore k j now)) (Core.Touch.refl k _) nextMs
  rw [evPush_toCore, Conn.lift_toCore]
  exact h.trans (Core.Touch.modChan _ k ⟨rfl, rfl, rfl, rfl, rfl⟩)

theorem serviceSlots_gives (now : UInt32) (k : Nat) {js : List Nat} (hnd : js.Nodup) {c : Conn}
    (hc : c.EvOk) (nextMs : Int) :
    ∃ evs, Appends c (serviceSlots now k js c nextMs).1 evs ∧
      (evs = [] ∨ evs = [closeEvent k] ∧
        (∃ j ∈ js, ((c.chanPool k).outgoing j).Exhausted c.cfg now) ∧
        ((serviceSlots now k js c nextMs).1.chanPool k).state = .closed) := by
  induction js generalizing c nextMs with
  | nil => exact ⟨[], Appends.of_eq hc rfl rfl rfl, Or.inl rfl⟩
  | cons j js ih =>
    obtain ⟨hj, hnd'⟩ := List.nodup_cons.1 hnd
    have hweak : ∀ {d : Conn} {ms : Int}, d.cfg = c.cfg →
        (∀ i ∈ js, (d.chanPool k).outgoing i = (c.chanPool k).outgoing i) → d.EvOk →
        Appends c d [] →
        ∃ evs, Appends c (serviceSlots now k js d ms).1 evs ∧
          (evs = [] ∨ evs = [closeEvent k] ∧
            (∃ i ∈ j :: js, ((c.chanPool k).outgoing i).Exhausted c.cfg now) ∧
            ((serviceSlots now k js d ms).1.chanPool k).state = .closed) := by
      intro d ms hcfg hsame hd happ
      obtain ⟨evs, hevs, hcase⟩ := ih hnd' hd ms
      refine ⟨evs, by simpa using happ.trans hevs, hcase.imp_right ?_⟩
      rintro ⟨hone, ⟨i, hi, hex⟩, hstate⟩
      rw [hcfg, hsame i hi] at hex
      exact ⟨hone, ⟨i, List.mem_cons_of_mem _ hi, hex⟩, hstate⟩
    simp only [serviceSlots]
    split_ifs with hidle hdue hmany
    · exact hweak rfl (fun _ _ => rfl) hc (Appends.of_eq hc rfl rfl rfl)
    · obtain ⟨hact, hsent⟩ := not_or.1 hidle
      have hset : Appends c (c.lift fun s => s.modChan k fun ch => { ch with state := .closed })
          [] := Appends.of_eq hc rfl rfl rfl
      have hstate : ((evPush (c.lift fun s => s.modChan k fun ch => { ch with state := .closed })
          .chanClose (some k)).chanPool k).state = .closed := by
        rw [evPush_toCore]
        simp [Conn.lift, Core.modChan]
      rcases Appends.evStore hset.ok (closeEvent k) with hevs | hevs
      · exact ⟨[closeEvent k], hset.trans hevs, Or.inr ⟨rfl,
          ⟨j, List.mem_cons_self, Bool.eq_true_of_not_eq_false hact, hsent, hdue, hmany⟩,
          hstate⟩⟩
      · exact ⟨[], hset.trans hevs, Or.inl rfl⟩
    · refine hweak rfl (fun i hi => ?_) ⟨hc.head, hc.tail⟩ (Appends.of_eq hc rfl rfl rfl)
      have hij : i ≠ j := fun e => hj (e ▸ hi)
      simp [Conn.lift, Core.modChan, Function.update_of_ne hij]
    · exact hweak rfl (fun _ _ => rfl) hc (Appends.of_eq hc rfl rfl rfl)

/-- The retransmit scan gives up channel record `k`. -/
def Conn.GivesUp (c : Conn) (now : UInt32) (k : Nat) : Prop :=
  (c.chanPool k).role = .sender ∧ (c.chanPool k).type = netchanReliable ∧
    ∃ j < ncOutgoingSlots, ((c.chanPool k).outgoing j).Exhausted c.cfg now

instance (c : Conn) (now : UInt32) (k : Nat) : Decidable (c.GivesUp now k) :=
  inferInstanceAs (Decidable (_ ∧ _ ∧ ∃ j < _, _))

theorem serviceChannels_gives (now : UInt32) {is : List Nat} (hnd : is.Nodup)
    (his : ∀ i ∈ is, i < ncMaxChannels) {c : Conn} (hgood : c.toCore.Good) (hc : c.EvOk)
    (nextMs : Int) :
    ∃ evs, Appends c (serviceChannels now is c nextMs).1 evs ∧
      ∀ k, evs.count (closeEvent k) ≤ 1 ∧ (0 < evs.count (closeEvent k) →
        (∃ i ∈ is, c.channels (UInt8.ofNat i) = some k) ∧ c.GivesUp now k ∧
        ((serviceChannels now is c nextMs).1.chanPool k).state = .closed) := by
  induction is generalizing c nextMs with
  | nil => exact ⟨[], Appends.of_eq hc rfl rfl rfl, fun k => by simp⟩
  | cons i is ih =>
    obtain ⟨hi, hnd'⟩ := List.nodup_cons.1 hnd
    have his' : ∀ i ∈ is, i < ncMaxChannels := fun j hj => his j (List.mem_cons_of_mem _ hj)
    have hskip : ∃ evs, Appends c (serviceChannels now is c nextMs).1 evs ∧
        ∀ k, evs.count (closeEvent k) ≤ 1 ∧ (0 < evs.count (closeEvent k) →
          (∃ i' ∈ i :: is, c.channels (UInt8.ofNat i') = some k) ∧ c.GivesUp now k ∧
          ((serviceChannels now is c nextMs).1.chanPool k).state = .closed) := by
      obtain ⟨evs, happ, hevs⟩ := ih hnd' his' hgood hc nextMs
      refine ⟨evs, happ, fun k => ⟨(hevs k).1, fun hpos => ?_⟩⟩
      obtain ⟨⟨i', hi', hid⟩, hgive, hstate⟩ := (hevs k).2 hpos
      exact ⟨⟨i', List.mem_cons_of_mem _ hi', hid⟩, hgive, hstate⟩
    unfold serviceChannels
    cases hid : c.channels (UInt8.ofNat i) with
    | none => exact hskip
    | some k₀ =>
      dsimp only
      split_ifs with hkind
      · obtain ⟨-, hk0, hchid⟩ := hgood.inv.table _ k₀ hid
        have ht := serviceSlots_touch now k₀ (List.range ncOutgoingSlots) c nextMs
        have hgood1 := serviceSlots_good now (List.range ncOutgoingSlots)
          (fun j hj => List.mem_range.1 hj) hgood hk0 nextMs
        obtain ⟨evs1, happ1, hcase⟩ :=
          serviceSlots_gives now k₀ (List.nodup_range (n := ncOutgoingSlots)) hc nextMs
        obtain ⟨evs2, happ2, hevs2⟩ := ih hnd' his' hgood1 happ1.ok
          (serviceSlots now k₀ (List.range ncOutgoingSlots) c nextMs).2
        -- no other entry of the table leads to record `k₀`
        have hlater : evs2.count (closeEvent k₀) = 0 := by
          by_contra hne
          obtain ⟨⟨i', hi', hid'⟩, -⟩ := (hevs2 k₀).2 (Nat.pos_of_ne_zero hne)
          rw [ht.channels] at hid'
          obtain ⟨-, -, hchid'⟩ := hgood.inv.table _ k₀ hid'
          have heq := congrArg UInt8.toNat (hchid.symm.trans hchid')
          have hlt := his i List.mem_cons_self
          have hlt' := his' i' hi'
          simp only [UInt8.toNat_ofNat'] at heq
          rw [Nat.mod_eq_of_lt hlt, Nat.mod_eq_of_lt hlt'] at heq
          exact hi (heq ▸ hi')
        refine ⟨evs1 ++ evs2, happ1.trans happ2, fun k => ?_⟩
        rw [List.count_append]
        by_cases hk : k = k₀
        · subst hk
          rw [hlater, Nat.add_zero]
          rcases hcase with rfl | ⟨rfl, ⟨j, hj, hex⟩, hstate⟩
          · exact ⟨Nat.zero_le _, fun hpos => absurd hpos (lt_irrefl 0)⟩
          · refine ⟨by simp, fun _ => ⟨⟨i, List.mem_cons_self, hid⟩,
              ⟨hkind.1, hkind.2, j, List.mem_range.1 hj, hex⟩, ?_⟩⟩
            exact ((serviceChannels_moves (w := fun _ => True) now is _ _).move k).closed hstate
        · have hnone : evs1.count (closeEvent k) = 0 := by
            rcases hcase with rfl | ⟨rfl, -⟩
            · rfl
            · refine List.count_eq_zero.2 fun hmem => hk ?_
              have heq := List.mem_singleton.1 hmem
              simpa [closeEvent] using heq
          rw [hnone, Nat.zero_add]
          refine ⟨(hevs2 k).1, fun hpos => ?_⟩
          obtain ⟨⟨i', hi', hid'⟩, hgive, hstate⟩ := (hevs2 k).2 hpos
          unfold Conn.GivesUp at hgive ⊢
          rw [ht.other k hk, ht.cfg] at hgive
          exact ⟨⟨i', List.mem_cons_of_mem _ hi', ht.channels ▸ hid'⟩, hgive, hstate⟩
      · exact hskip

/-! ## Calls -/

theorem ctrlReserve_appends {c : Conn} (hc : c.EvOk) (frame : List UInt8) :
    Appends c (ctrlReserve c frame) [] := by
  unfold ctrlReserve
  split_ifs <;> exact Appends.of_eq hc rfl rfl rfl

theorem serviceHandshake_appends {c : Conn} (hc : c.EvOk) {now : UInt32}
    (hto : ¬c.TimesOut now) : Appends c (serviceHandshake c now).1 [] := by
  simp only [serviceHandshake]
  split_ifs with hst helapsed hretry
  · exact absurd (Or.inl ⟨hst.1, hst.2, helapsed, hretry⟩) hto
  · have hinit : Appends c (ctrlConnectInit c) [] := ctrlReserve_appends hc _
    exact hinit.trans (Appends.of_eq hinit.ok rfl rfl rfl)
  · exact Appends.of_eq hc rfl rfl rfl
  · exact Appends.of_eq hc rfl rfl rfl

theorem servicePing_appends (env : Env) {c : Conn} (hc : c.EvOk) (now : UInt32) (nextMs : Int) :
    Appends c (servicePing env c now nextMs).1 [] := by
  simp only [servicePing]
  split_ifs
  · have hset : Appends c { c with pingOpaque := ncRandomId env } [] :=
      Appends.of_eq hc rfl rfl rfl
    have hping := ctrlReserve_appends hset.ok (ncFramePing :: Lib.BigEndian.wr32 (ncRandomId env))
    exact (hset.trans hping).trans (Appends.of_eq hping.ok rfl rfl rfl)
  · exact Appends.of_eq hc rfl rfl rfl
  · exact Appends.of_eq hc rfl rfl rfl
  · exact Appends.of_eq hc rfl rfl rfl

theorem netchanService_scan (env : Env) {c : Conn} (hc : c.EvOk) {now : UInt32}
    (hto : ¬c.TimesOut now) :
    ∃ c' nextMs, c'.toCore = c.toCore ∧ Appends c c' [] ∧
      netchanService env c now = serviceChannels now (List.range ncMaxChannels) c' nextMs := by
  obtain ⟨c1, ms, hhand, hpass, hsame⟩ := serviceHandshake_quiet hto
  have hidle : ¬c1.TimesOut now ∨ c1.state ≠ .connected := by
    by_cases hs : c.state = .connected
    · exact Or.inl (hsame hs ▸ hto)
    · exact Or.inr (hpass.calm.state ▸ hs)
  obtain ⟨ms', hquiet⟩ := serviceIdle_quiet hidle ms
  have hcore := serviceHandshake_toCore c now
  have happ := serviceHandshake_appends hc hto
  rw [hhand] at hcore happ
  refine ⟨(servicePing env c1 now ms').1, (servicePing env c1 now ms').2,
    (servicePing_toCore env c1 now ms').trans hcore,
    happ.trans (servicePing_appends env happ.ok now ms'), ?_⟩
  simp only [netchanService, hhand, hquiet]

theorem netchanService_gives (env : Env) {c : Conn} (hgood : c.toCore.Good) (hc : c.EvOk)
    (now : UInt32) :
    ∃ evs, Appends c (netchanService env c now).1 evs ∧
      ∀ k, evs.count (closeEvent k) ≤ 1 ∧ (0 < evs.count (closeEvent k) →
        ¬c.TimesOut now ∧ c.chanUsed k = true ∧ c.GivesUp now k ∧
        ((netchanService env c now).1.chanPool k).state = .closed) := by
  by_cases hto : c.TimesOut now
  · rw [(netchanService_timesOut env hto).2]
    have hset : Appends c { c with state := .closed } [] := Appends.of_eq hc rfl rfl rfl
    have hone : ∀ k, [{ Event.zero with type := .disconnected, ch := none }].count
        (closeEvent k) = 0 := by
      intro k
      simp [closeEvent, Event.zero]
    rcases Appends.evStore hset.ok { Event.zero with type := .disconnected, ch := none }
      with hevs | hevs
    · refine ⟨_, hset.trans hevs, fun k => ?_⟩
      rw [List.nil_append, hone k]
      exact ⟨Nat.zero_le _, fun hpos => absurd hpos (lt_irrefl 0)⟩
    · exact ⟨_, hset.trans hevs, fun k => ⟨Nat.zero_le _, fun hpos => absurd hpos (lt_irrefl 0)⟩⟩
  · obtain ⟨c', ms, hcore, happ, heq⟩ := netchanService_scan env hc hto
    obtain ⟨evs, happ', hevs⟩ := serviceChannels_gives now (List.nodup_range (n := ncMaxChannels))
      (fun i hi => List.mem_range.1 hi) (hcore ▸ hgood) happ.ok ms
    rw [heq]
    refine ⟨evs, happ.trans happ', fun k => ⟨(hevs k).1, fun hpos => ?_⟩⟩
    obtain ⟨⟨i, -, hid⟩, hgive, hstate⟩ := (hevs k).2 hpos
    unfold Conn.GivesUp at hgive ⊢
    rw [hcore] at hid hgive
    exact ⟨hto, (hgood.inv.table _ k hid).2.1, hgive, hstate⟩

theorem Frame.apply_evOk (env : Env) (now : UInt32) {c : Conn} (hc : c.EvOk) (f : Frame) :
    (f.apply env now c).EvOk := by
  by_cases hcalm : f.calm = true
  · exact ((f.apply_passive env now c hcalm).reports hc).ok
  · cases f with
    | connectInit clientId version =>
      simp only [apply, acceptConnectInit]
      split_ifs <;> exact ⟨hc.head, hc.tail⟩
    | connectAccept serverId version idle =>
      have hset : Conn.EvOk { c with remoteId := serverId, state := .connected } :=
        ⟨hc.head, hc.tail⟩
      exact hset.evStore _
    | disconnect reason =>
      have hset : Conn.EvOk { c with state := .closed } := ⟨hc.head, hc.tail⟩
      exact hset.evStore _
    | _ => simp [calm] at hcalm

theorem Conn.step_evOk_any {c : Conn} (hgood : c.toCore.Good) (hc : c.EvOk) (a : Act) :
    (c.step a).EvOk := by
  cases a with
  | feed env pkt src =>
    exact netchanFeed_induct env c pkt src (P := Conn.EvOk) (fun h => ⟨h.head, h.tail⟩)
      (fun c' fn _ h => fn.1.apply_evOk env _ h) hc
  | service env now =>
    obtain ⟨evs, happ, -⟩ := netchanService_gives env hgood hc now
    exact happ.ok
  | _ =>
    refine (c.step_evOk hc ?_).1
    exact trivial

/-! ## Runs -/

/-- A channel that `netchan_service` gives up is not closed yet. -/
def FirstDeath (c : Conn) : Act → Prop
  | .service _ now => ¬c.TimesOut now → ∀ k < ncMaxChan, c.chanUsed k = true →
    c.GivesUp now k → (c.chanPool k).state ≠ .closed
  | _ => True

instance (c : Conn) : (a : Act) → Decidable (FirstDeath c a)
  | .service _ now => inferInstanceAs (Decidable (¬c.TimesOut now → ∀ k < ncMaxChan, _))
  | .connect _ _ | .accept | .feed _ _ _ | .sendNext _ _ | .chanOpen _ _ _ | .chanClose _
  | .chanWrite _ _ | .chanRead _ _ | .poll => isTrue trivial

/-- The CHAN_CLOSE events for channel record `k` that a call of `netchan_service` pushes. -/
def Conn.deaths (k : Nat) (c : Conn) : Act → Nat
  | .service env now =>
    ((netchanService env c now).1.pending.drop c.pending.length).count (closeEvent k)
  | _ => 0

def Conn.deathsIn (k : Nat) : Conn → List Act → Nat
  | _, [] => 0
  | c, a :: as => c.deaths k a + (c.step a).deathsIn k as

/-- Channel record `k` is in use and closed. -/
def Core.Dead (s : Core) (k : Nat) : Prop :=
  s.chanUsed k = true ∧ (s.chanPool k).state = .closed

theorem Core.Dead.step {s s' : Core} {k : Nat} (h : s.Dead k)
    (hs : Core.Moves (fun _ => True) s s' ∨ Core.Opens s s') : s'.Dead k := by
  rcases hs with hm | ⟨k₀, ch, hfree, -, -, rfl⟩
  · exact ⟨hm.used ▸ h.1, (hm.move k).closed h.2⟩
  · have hne : k ≠ k₀ := by
      rintro rfl
      rw [h.1] at hfree
      cases hfree
    simpa [Core.Dead, Core.addChan, Function.update_of_ne hne] using h

theorem Conn.user_state (c : Conn) {a : Act} (huser : a.isUser = true) (k : Nat) :
    (c.step a).chanUsed k = c.chanUsed k ∧
      ((c.step a).chanPool k).state = (c.chanPool k).state := by
  cases a with
  | chanWrite k₀ data =>
    simp only [step]
    split_ifs
    · have ht := chanWrite_touch c.toCore k₀ data
      refine ⟨congrFun ht.chanUsed k, ?_⟩
      by_cases hk : k = k₀
      · subst hk
        simp only [netchanChanWrite]
        rcases chanWrite_cases c.toCore k data with ⟨r, heq⟩ | ⟨-, -, heq⟩ | ⟨-, -, heq⟩
        · rw [heq]
        · simp only [heq, Function.update_self]
          rfl
        · simp only [heq, Core.mark, Core.takeInto, Function.update_self]
          rfl
      · exact congrArg Chan.state (ht.other k hk)
    · exact ⟨rfl, rfl⟩
  | chanRead k₀ buflen =>
    simp only [step]
    split_ifs
    · have ht := chanRead_touch c.toCore k₀ buflen
      refine ⟨congrFun ht.chanUsed k, ?_⟩
      by_cases hk : k = k₀
      · subst hk
        simp only [netchanChanRead]
        rcases chanRead_cases c.toCore k buflen with ⟨r, heq⟩ | ⟨-, -, e, d, -, -, heq⟩
        · rw [heq]
        · simp only [heq, Core.mark, Core.modChan, poolPut_chanPool, Function.update_self]
          rfl
      · exact congrArg Chan.state (ht.other k hk)
    · exact ⟨rfl, rfl⟩
  | _ => cases huser

theorem Conn.step_dead {c : Conn} (hgood : c.toCore.Good) (a : Act) {k : Nat}
    (h : c.toCore.Dead k) : (c.step a).toCore.Dead k := by
  cases huser : a.isUser with
  | true =>
    obtain ⟨hused, hstate⟩ := c.user_state huser k
    exact ⟨hused.trans h.1, hstate.trans h.2⟩
  | false =>
    cases hfeed : a.isFeed with
    | false => exact h.step (c.step_moves hfeed huser)
    | true =>
      cases a with
      | feed env pkt src =>
        have hboth := netchanFeed_induct env c pkt src
          (P := fun c => c.toCore.Good ∧ c.toCore.Dead k) id
          (fun c' fn _ hc => ⟨fn.1.apply_good env _ hc.1,
            hc.2.step (fn.1.apply_moves env _ hc.1 fun _ _ _ => trivial)⟩) ⟨hgood, h⟩
        exact hboth.2
      | _ => cases hfeed

theorem Conn.step_deaths {c : Conn} (hgood : c.toCore.Good) (hc : c.EvOk) {a : Act}
    (ha : FirstDeath c a) (k : Nat) :
    c.deaths k a = 0 ∨ c.deaths k a = 1 ∧ c.chanUsed k = true ∧
      (c.chanPool k).state ≠ .closed ∧ ((c.step a).chanPool k).state = .closed := by
  cases a with
  | service env now =>
    obtain ⟨evs, happ, hevs⟩ := netchanService_gives env hgood hc now
    have hdeaths : c.deaths k (.service env now) = evs.count (closeEvent k) := by
      simp only [deaths]
      rw [happ.pending, List.drop_left]
    rw [hdeaths]
    obtain ⟨hle, hpos⟩ := hevs k
    by_cases hzero : evs.count (closeEvent k) = 0
    · exact Or.inl hzero
    · obtain ⟨hto, hk, hgive, hstate⟩ := hpos (Nat.pos_of_ne_zero hzero)
      have hlt := (hgood.inv.used k hk).1
      exact Or.inr ⟨by omega, hk, ha hto k hlt hk hgive, hstate⟩
  | _ => exact Or.inl rfl

theorem Conn.deathsIn_le {c : Conn} (hgood : c.toCore.Good) (hc : c.EvOk) {acts : List Act}
    (hacts : Guarded FirstDeath Conn.step c acts) (k : Nat) :
    c.deathsIn k acts ≤ 1 ∧ (c.toCore.Dead k → c.deathsIn k acts = 0) := by
  induction acts generalizing c with
  | nil => exact ⟨Nat.zero_le _, fun _ => rfl⟩
  | cons a acts ih =>
    obtain ⟨hle, hdead⟩ := ih (c.step_good hgood a) (c.step_evOk_any hgood hc a) hacts.2
    rcases c.step_deaths hgood hc hacts.1 k with hzero | ⟨hone, hk, hopen, hclosed⟩
    · simp only [deathsIn, hzero, Nat.zero_add]
      exact ⟨hle, fun h => hdead (c.step_dead hgood a h)⟩
    · have hused : (c.step a).chanUsed k = true := by
        cases a with
        | service env now =>
          exact (congrFun (netchanService_moves (w := fun _ => True) env c now).used k).trans hk
        | _ => cases hone
      simp only [deathsIn, hone, hdead ⟨hused, hclosed⟩]
      exact ⟨le_rfl, fun h => absurd h.2 hopen⟩

/-- In a run in which no call of `netchan_service` gives up a channel that is closed already,
all its calls together push one CHAN_CLOSE event at most for each channel. -/
theorem death_reported_once (server : Bool) (cfg : Cfg) (acts : List Act)
    (hacts : Guarded FirstDeath Conn.step (netchanOpen server cfg) acts) (k : Nat) :
    (netchanOpen server cfg).deathsIn k acts ≤ 1 :=
  (Conn.deathsIn_le (netchanOpen_good server cfg)
    ⟨show 0 < 16 by decide, show 0 < 16 by decide⟩ hacts k).1

/-- A server sends one message and hears nothing more; `netchan_service` is called at the
given times. -/
def unanswered (times : List UInt32) : List Act :=
  [.feed quietEnv [0x01, 0, 0, 0, 5, 0x01, 0, 0, 0, 5, 0x01] none, .accept,
    .chanOpen netchanReliable netchanDirSend none,
    .feed quietEnv [0x02, 0, 0, 0, 7, 0, 0, 0x0B, 1, 0, 1, 0, 0] none, .chanWrite 0 [1, 2, 3],
    .sendNext ⟨fun _ => 1, 7⟩ 1200] ++
  times.map (Act.service quietEnv)

/-- The call at 7000 declares the channel dead. -/
theorem death_reported_once_run :
    (netchanOpen true netchanCfgDefault).deathsIn 0 (unanswered [1001, 2001, 3001, 4001,
    7000]) ≤ 1 :=
  death_reported_once true netchanCfgDefault _ (by decide +kernel) 0

/-- So does every later call. -/
theorem death_reported_twice :
    (netchanOpen true netchanCfgDefault).deathsIn 0
      (unanswered [1001, 2001, 3001, 4001, 7000, 8000]) = 2 := by
  decide +kernel

end MechanicalResearcher.NetchanV2
