import MechanicalResearcher.NetchanV2.Reorder

/-!
# Counting what a connection did

Every call either opens one channel or leaves the channel table as it is
(`Core.Steady`).  From this the history can be read: an unused record has no
marks, and `recv_seq` of a used one is the number of its increments.  Both hold
whatever bytes are fed, so they say what an ACK frame means.
-/

namespace MechanicalResearcher.NetchanV2

open Lib Lib.Serial Lib.Runs

variable {c : Conn}

/-! ## The channel table -/

/-- No channel was opened: the table is as it was, and what was logged is about channels
in use. -/
structure Core.Steady (s s' : Core) : Prop where
  cfg : s'.cfg = s.cfg
  channels : s'.channels = s.channels
  chanUsed : s'.chanUsed = s.chanUsed
  ident : ∀ k, (s'.chanPool k).ident = (s.chanPool k).ident
  log : ∃ ms, s'.log = s.log ++ ms ∧ ∀ m ∈ ms, s.chanUsed m.chan = true

namespace Core.Steady

variable {s s' s'' : Core} {k : Nat}

theorem refl (s : Core) : Steady s s :=
  ⟨rfl, rfl, rfl, fun _ => rfl, [], by simp, by simp⟩

theorem of_eq (h : s' = s) : Steady s s' := h ▸ refl s

theorem trans (h : Steady s s') (h' : Steady s' s'') : Steady s s'' := by
  obtain ⟨ms, hlog, hms⟩ := h.log
  obtain ⟨ms', hlog', hms'⟩ := h'.log
  refine ⟨h'.cfg.trans h.cfg, h'.channels.trans h.channels, h'.chanUsed.trans h.chanUsed,
    fun k => (h'.ident k).trans (h.ident k), ms ++ ms', by rw [hlog', hlog, List.append_assoc],
    fun m hm => ?_⟩
  rcases List.mem_append.1 hm with hm | hm
  · exact hms m hm
  · rw [← h.chanUsed]
    exact hms' m hm

theorem of_touch (ht : Core.Touch k s s') (hk : s.chanUsed k = true) : Steady s s' := by
  obtain ⟨ms, hlog, hms⟩ := ht.log
  refine ⟨ht.cfg, ht.channels, ht.chanUsed, fun j => ?_, ms, hlog, fun m hm => ?_⟩
  · by_cases hj : j = k
    · rw [hj]
      exact ht.ident
    · rw [ht.other j hj]
  · rw [hms m hm]
    exact hk

theorem setState (hk : s.chanUsed k = true) (f : Chan → ChanState) :
    Steady s (s.modChan k fun ch => { ch with state := f ch }) :=
  of_touch (Core.Touch.modChan s k ⟨rfl, rfl, rfl, rfl, rfl⟩) hk

end Core.Steady

theorem flushAcks_steady (mtu : Nat) (is : List Nat) (h : c.toCore.Good) (out : List UInt8) :
    Core.Steady c.toCore (flushAcks mtu is c out).1.toCore := by
  refine (flushAcks_rule (P := fun d _ => d.toCore.Good ∧ Core.Steady c.toCore d.toCore)
    (fun d k id out hid ⟨h, hs⟩ => ?_) is ⟨h, Core.Steady.refl _⟩).2
  obtain ⟨-, hk, -⟩ := h.inv.table _ k hid
  obtain ⟨h', ht⟩ := flush_good h hk mtu out
  exact ⟨h', hs.trans (Core.Steady.of_touch ht hk)⟩

theorem sendData_steady (env : Env) (mtu : Nat) (is : List Nat) (h : c.toCore.Good)
    (out : List UInt8) : Core.Steady c.toCore (sendData env mtu is c out).1.toCore :=
  (sendData_good_rule (P := fun d _ => Core.Steady c.toCore d.toCore) (fun _ _ _ now _ hdue hs =>
    hs.trans (Core.Steady.of_touch
      (sentFragment_good hdue.good hdue.used hdue.lt hdue.active now).2 hdue.used)) is h
    (Core.Steady.refl _)).2

theorem netchanSendNext_steady (env : Env) (h : c.toCore.Good) (buflen : Nat) :
    Core.Steady c.toCore (netchanSendNext env c buflen).1.toCore := by
  rw [netchanSendNext_eq]
  split_ifs
  · exact Core.Steady.refl _
  · generalize min c.cfg.mtu.toNat buflen = mtu
    have hcore := packetCtrl_toCore mtu c
    have hacks := flushAcks_steady mtu (List.range ncMaxChannels) (c := (packetCtrl mtu c).1)
      (hcore ▸ h) (packetCtrl mtu c).2
    rw [hcore] at hacks
    exact hacks.trans (sendData_steady env mtu (List.range ncMaxChannels)
      (packetAcks_good h mtu) (packetAcks mtu c).2)

theorem serviceSlots_steady (now : UInt32) {k : Nat} (js : List Nat) (hk : c.chanUsed k = true)
    (nextMs : Int) :
    Core.Steady c.toCore (serviceSlots now k js c nextMs).1.toCore := by
  refine serviceSlots_rule (P := fun d => Core.Steady c.toCore d.toCore) (fun d h => ?_)
    (fun d j _ _ h => ?_) (Core.Steady.refl _) nextMs
  · rw [evPush_toCore, Conn.lift_toCore]
    exact h.trans (Core.Steady.setState (h.chanUsed ▸ hk) _)
  · exact h.trans (Core.Steady.of_touch (requeue_touch d.toCore k j now) (h.chanUsed ▸ hk))

theorem serviceChannels_steady (now : UInt32) (is : List Nat) (h : c.toCore.Good) (nextMs : Int) :
    Core.Steady c.toCore (serviceChannels now is c nextMs).1.toCore := by
  refine (serviceChannels_rule (P := fun d => d.toCore.Good ∧ Core.Steady c.toCore d.toCore)
    (fun d k _ ms hid ⟨h, hs⟩ => ?_) is ⟨h, Core.Steady.refl _⟩ nextMs).2
  obtain ⟨-, hk, -⟩ := h.inv.table _ k hid
  exact ⟨serviceSlots_good now _ (fun j hj => List.mem_range.1 hj) h hk ms,
    hs.trans (serviceSlots_steady now (List.range ncOutgoingSlots) hk ms)⟩

theorem netchanService_steady (env : Env) (h : c.toCore.Good) (now : UInt32) :
    Core.Steady c.toCore (netchanService env c now).1.toCore := by
  rcases netchanService_cases env c now with heq | ⟨c', nextMs, hcore, heq⟩
  · exact Core.Steady.of_eq heq
  · rw [heq, ← hcore]
    exact serviceChannels_steady now _ (hcore ▸ h) nextMs

/-- A record no message went through yet. -/
def Chan.Blank (window : UInt32) (ch : Chan) : Prop :=
  ∃ id type dir role ct state,
    ch = { Chan.fresh id type dir role ct window with state := state }

/-- One channel was opened. -/
def Core.Opens (s s' : Core) : Prop :=
  ∃ k ch, s.chanUsed k = false ∧ s.channels ch.id = none ∧ ch.Blank s.cfg.chanWindow ∧
    s' = s.addChan k ch

theorem addChan_setState (s : Core) (k : Nat) (ch : Chan) (f : Chan → ChanState) :
    (s.addChan k ch).modChan k (fun ch => { ch with state := f ch }) =
      s.addChan k { ch with state := f ch } := by
  simp [Core.addChan, Core.modChan]

theorem chanNew_opens {s s' : Core} {k : Nat} {id : UInt8} (hid : s.channels id = none)
    {type dir : Nat} {role : Role} {ct : Option (List UInt8)}
    (h : chanNew s id type dir role ct = (s', some k)) (f : Chan → ChanState) :
    Core.Opens s s' ∧ Core.Opens s (s'.modChan k fun ch => { ch with state := f ch }) := by
  rcases chanNew_cases s id type dir role ct with heq | ⟨k', -, hk', heq⟩
  · rw [heq] at h
    simp at h
  · rw [heq] at h
    simp only [Prod.mk.injEq, Option.some.injEq] at h
    obtain ⟨rfl, rfl⟩ := h
    refine ⟨⟨k', _, hk', hid, ⟨_, _, _, _, _, _, rfl⟩, rfl⟩, ?_⟩
    rw [addChan_setState]
    exact ⟨k', _, hk', hid, ⟨_, _, _, _, _, _, rfl⟩, rfl⟩

theorem acceptChannelOpen_opens (c : Conn) (id : UInt8) (type dir : Nat) (ct : List UInt8) :
    (acceptChannelOpen c id type dir ct).toCore = c.toCore ∨
      Core.Opens c.toCore (acceptChannelOpen c id type dir ct).toCore := by
  simp only [acceptChannelOpen]
  split_ifs with hsome
  · exact Or.inl (by simp [ctrlChannelClose])
  all_goals
    have hid : c.channels id = none := by simpa using hsome
    rcases hnew : chanNew c.toCore id type dir _ (some (ct.take 63)) with ⟨s, _ | k⟩
    · exact Or.inl (by simp [ctrlChannelClose])
    · refine Or.inr ?_
      simp only [evPush_toCore, ctrlWindowUpdate, ctrlReserve_toCore]
      exact (chanNew_opens hid hnew _).2

theorem netchanChanOpen_opens (c : Conn) (type dir : Nat) (ct : Option (List UInt8)) :
    (netchanChanOpen c type dir ct).1.toCore = c.toCore ∨
      Core.Opens c.toCore (netchanChanOpen c type dir ct).1.toCore := by
  simp only [netchanChanOpen]
  split_ifs with hstate hsome
  · exact Or.inl rfl
  · exact Or.inl rfl
  all_goals
    have hid : c.channels c.nextChanId = none := by simpa using hsome
    rcases hnew : chanNew c.toCore c.nextChanId type dir _ ct with ⟨s, _ | k⟩
    · exact Or.inl rfl
    · refine Or.inr ?_
      simp only [ctrlWindowUpdate, ctrlChannelOpen, ctrlReserve_toCore, Conn.lift_toCore]
      first
      | exact (chanNew_opens hid hnew fun _ => .opened).1
      | exact (chanNew_opens hid hnew _).2

/-! ## Frames and calls -/

theorem acceptData_touch (h : c.toCore.Good) (id : UInt8) (seq : UInt16) (fragIdx fragTotal : Nat)
    (payload : List UInt8) :
    (acceptData c id seq fragIdx fragTotal payload).toCore = c.toCore ∨
      ∃ k, c.channels id = some k ∧
        Core.Touch k c.toCore (acceptData c id seq fragIdx fragTotal payload).toCore := by
  unfold acceptData
  cases hid : c.channels id with
  | none => exact Or.inl rfl
  | some k =>
    obtain ⟨-, hk, -⟩ := h.inv.table id k hid
    dsimp only
    split_ifs with hrole
    · exact Or.inl rfl
    · exact Or.inr ⟨k, rfl, (acceptDataUnreliable_spec h hk seq _ _ payload).2⟩
    · exact Or.inr ⟨k, rfl, (acceptDataReliable_spec h hk (not_not.1 hrole) seq _ _ payload).2⟩

def Frame.isOpen : Frame → Bool
  | channelOpen _ _ _ _ => true
  | _ => false

theorem Frame.apply_steady (env : Env) (now : UInt32) (h : c.toCore.Good) {f : Frame}
    (hf : f.isOpen = false) :
    Core.Steady c.toCore (f.apply env now c).toCore := by
  cases f with
  | connectInit clientId version =>
    simp only [apply, acceptConnectInit]
    split_ifs <;> exact Core.Steady.refl _
  | connectAccept serverId version idle =>
    exact Core.Steady.of_eq (by simp [apply, acceptConnectAccept])
  | connectRedirect newId addr =>
    exact Core.Steady.of_eq (by simp [apply, evPushRedirect])
  | disconnect reason => exact Core.Steady.of_eq (by simp [apply])
  | ping opaqueId => exact Core.Steady.of_eq (by simp [apply, ctrlPong])
  | pong opaqueId =>
    simp only [apply, acceptPong]
    split_ifs <;> exact Core.Steady.refl _
  | channelOpen id type dir ct => cases hf
  | channelClose id error =>
    simp only [apply, acceptChannelClose]
    cases hid : c.channels id with
    | none => exact Core.Steady.refl _
    | some k =>
      obtain ⟨-, hk, -⟩ := h.inv.table id k hid
      simp only [evPush_toCore, Conn.lift_toCore]
      exact Core.Steady.setState hk _
  | data id seq fragIdx fragTotal payload =>
    rcases acceptData_touch h id seq fragIdx.toNat fragTotal.toNat payload with
      heq | ⟨k, hid, ht⟩
    · exact Core.Steady.of_eq heq
    · exact Core.Steady.of_touch ht (h.inv.table id k hid).2.1
  | ack id seq =>
    rcases acceptAck_op h id seq with heq | ⟨k, hid, hop⟩
    · exact Core.Steady.of_eq heq
    · exact Core.Steady.of_touch hop.touch (h.inv.table id k hid).2.1
  | windowUpdate id window =>
    simp only [apply, acceptWindowUpdate]
    cases hid : c.channels id with
    | none => exact Core.Steady.refl _
    | some k =>
      obtain ⟨-, hk, -⟩ := h.inv.table id k hid
      dsimp only
      split_ifs
      · rw [Conn.lift_toCore]
        exact Core.Steady.of_touch (Core.Touch.modChan c.toCore k
          ⟨rfl, rfl, rfl, rfl, rfl⟩) hk
      · exact Core.Steady.refl _

theorem Frame.apply_table (env : Env) (now : UInt32) (h : c.toCore.Good) (f : Frame) :
    Core.Steady c.toCore (f.apply env now c).toCore ∨
      Core.Opens c.toCore (f.apply env now c).toCore := by
  cases hf : f.isOpen with
  | false => exact Or.inl (f.apply_steady env now h hf)
  | true =>
    cases f with
    | channelOpen id type dir ct =>
      rcases acceptChannelOpen_opens c id type.toNat dir.toNat ct with heq | hopen
      · exact Or.inl (Core.Steady.of_eq heq)
      · exact Or.inr hopen
    | _ => cases hf

def Act.isChanOpen : Act → Bool
  | .chanOpen _ _ _ => true
  | _ => false

theorem Conn.step_steady (h : c.toCore.Good) {a : Act} (hfeed : a.isFeed = false)
    (hopen : a.isChanOpen = false) : Core.Steady c.toCore (c.step a).toCore := by
  cases a with
  | connect env addr =>
    simp only [step, netchanConnect]
    split_ifs <;> exact Core.Steady.of_eq (by simp [ctrlConnectInit])
  | accept =>
    simp only [step, netchanAccept]
    split_ifs <;> exact Core.Steady.of_eq (by simp [ctrlConnectAccept])
  | feed env pkt src => cases hfeed
  | sendNext env buflen => exact netchanSendNext_steady env h buflen
  | service env now => exact netchanService_steady env h now
  | chanOpen type dir contentType => cases hopen
  | chanClose k =>
    simp only [step, netchanChanClose]
    split_ifs with hk
    · exact Core.Steady.refl _
    · rw [Conn.lift_toCore, ctrlChannelClose, ctrlReserve_toCore]
      exact Core.Steady.setState hk _
    · exact Core.Steady.refl _
  | chanWrite k data =>
    simp only [step]
    split_ifs with hk
    · exact Core.Steady.of_touch (chanWrite_touch c.toCore k data) hk
    · exact Core.Steady.refl _
  | chanRead k buflen =>
    simp only [step]
    split_ifs with hk
    · exact Core.Steady.of_touch (chanRead_touch c.toCore k buflen) hk
    · exact Core.Steady.refl _
  | poll =>
    simp only [step, netchanPoll]
    split_ifs <;> exact Core.Steady.refl _

theorem Conn.step_table (h : c.toCore.Good) {a : Act} (hfeed : a.isFeed = false) :
    Core.Steady c.toCore (c.step a).toCore ∨ Core.Opens c.toCore (c.step a).toCore := by
  cases ha : a.isChanOpen with
  | false => exact Or.inl (c.step_steady h hfeed ha)
  | true =>
    cases a with
    | chanOpen type dir contentType =>
      rcases netchanChanOpen_opens c type dir contentType with heq | hopen
      · exact Or.inl (Core.Steady.of_eq heq)
      · exact Or.inr hopen
    | _ => cases ha

/-! ## The tally -/

/-- `recv_seq` counts its increments; on a reliable channel every message handed to
`chan_recv_enqueue` is one of them.  An unused record has no history. -/
structure Core.Tally (s : Core) : Prop where
  seq : ∀ k, s.chanUsed k = true → (s.chanPool k).recvSeq = UInt16.ofNat (advances k s.log)
  handed : ∀ k, s.chanUsed k = true → (s.chanPool k).type = netchanReliable →
    (handed k s.log).length = advances k s.log
  unused : ∀ k, s.chanUsed k = false → ∀ m ∈ s.log, m.chan ≠ k

/-- From `s` to `s'`, `recv_seq` of record `k` grew by its logged increments and, where the
channel is reliable, as many messages were handed over. -/
def Counted (reliable : Prop) (k : Nat) (s s' : Core) : Prop :=
  ∃ ms, s'.log = s.log ++ ms ∧
    (s'.chanPool k).recvSeq = (s.chanPool k).recvSeq + UInt16.ofNat (advances k ms) ∧
    (reliable → (handed k ms).length = advances k ms)

namespace Counted

variable {reliable : Prop} {k : Nat} {s s' s'' : Core}

theorem of_quiet {ms : List Mark} (hlog : s'.log = s.log ++ ms) (hms : advances k ms = 0)
    (hhand : handed k ms = []) (hseq : (s'.chanPool k).recvSeq = (s.chanPool k).recvSeq) :
    Counted reliable k s s' :=
  ⟨ms, hlog, by rw [hms, hseq]; simp, fun _ => by rw [hms, hhand]; rfl⟩

theorem trans (h : Counted reliable k s s') (h' : Counted reliable k s' s'') :
    Counted reliable k s s'' := by
  obtain ⟨ms, hlog, hseq, hhand⟩ := h
  obtain ⟨ms', hlog', hseq', hhand'⟩ := h'
  refine ⟨ms ++ ms', by rw [hlog', hlog, List.append_assoc], ?_, fun hr => ?_⟩
  · rw [hseq', hseq, advances_append, UInt16.ofNat_add, UInt16.add_assoc]
  · rw [handed_append, advances_append, List.length_append, hhand hr, hhand' hr]

theorem enqueue (hr : ¬reliable) (s : Core) (k : Nat) (data : List UInt8) :
    Counted reliable k s (chanRecvEnqueue s k data).1 := by
  obtain ⟨ok, hlog⟩ := bump_enqueue_log s k data
  refine ⟨_, hlog, ?_, fun h => absurd h hr⟩
  rw [(chanRecvEnqueue_recvSeq s k data).1]
  simp [advances]

theorem inOrder (s : Core) (k : Nat) (data : List UInt8) :
    Counted reliable k s (bumpRecvSeq (chanRecvEnqueue s k data).1 k) := by
  obtain ⟨ok, hlog⟩ := bump_enqueue_log s k data
  refine ⟨[.enqueue k data ok, .advance k], ?_, ?_, fun _ => by simp [handed, advances]⟩
  · simp [bumpRecvSeq, Core.modChan, Core.mark, hlog]
  · simp [bumpRecvSeq, Core.modChan, Core.mark, advances, (chanRecvEnqueue_recvSeq s k data).1]

end Counted

theorem deliverCore_counted {reliable : Prop} (s : Core) (k : Nat) :
    Counted reliable k s (deliverCore s k) := by
  obtain ⟨ok, hlog⟩ := deliverCore_log s k
  refine ⟨_, hlog, ?_, fun _ => by simp [handed, advances]⟩
  rw [(deliverCore_reorder s k).1]
  simp [advances]

section Frames

variable {reliable : Prop}

theorem deliverLoop_counted (fuel : Nat) (c : Conn) (k : Nat) :
    Counted reliable k c.toCore (deliverLoop fuel c k).toCore := by
  refine deliverLoop_rule (P := fun d => Counted reliable k c.toCore d.toCore) (fun d _ h => ?_)
    fuel (Counted.of_quiet (List.append_nil _).symm rfl rfl rfl)
  rw [deliverOne_toCore]
  exact h.trans (deliverCore_counted d.toCore k)

theorem deliverReliable_counted (c : Conn) (k : Nat) (seq : UInt16) (data : List UInt8) :
    Counted reliable k c.toCore (deliverReliable c k seq data).toCore := by
  simp only [deliverReliable]
  split_ifs
  · have hfirst : Counted reliable k c.toCore _ := Counted.inOrder c.toCore k data
    have hcore : (Conn.lift (evPush (c.lift fun s => (chanRecvEnqueue s k data).1) .data (some k))
        fun s => bumpRecvSeq s k).toCore =
        bumpRecvSeq (chanRecvEnqueue c.toCore k data).1 k := by simp
    rw [← hcore] at hfirst
    exact hfirst.trans (deliverLoop_counted ncReorderSlots _ k)
  · have hlog : (reorderStore c.toCore k seq data).log = c.log ++ [] := by
      rw [reorderStore_eq]
      split_ifs <;> simp [Core.takeInto]
    refine Counted.of_quiet hlog rfl rfl ?_
    rw [Conn.lift_toCore, reorderStore_eq]
    split_ifs <;> simp [Core.takeInto, Chan.reordered]
  · exact Counted.of_quiet (List.append_nil _).symm rfl rfl rfl

theorem fragReceive_counted (s : Core) (k : Nat) (seq : UInt16) (fragIdx fragTotal : Nat)
    (payload : List UInt8) :
    Counted reliable k s (fragReceive s k seq fragIdx fragTotal payload).1 := by
  obtain ⟨ms, hlog, hms⟩ := fragReceive_log s k seq fragIdx fragTotal payload
  obtain ⟨frags, hfrags⟩ := fragReceive_chan s k seq fragIdx fragTotal payload
  refine Counted.of_quiet hlog ?_ ?_ (by rw [hfrags])
  · simp only [advances, List.count_eq_zero]
    intro hm
    obtain ⟨buf, addr, len, h⟩ := hms _ hm
    cases h
  · simp only [handed, List.filterMap_eq_nil_iff]
    intro m hm
    obtain ⟨buf, addr, len, rfl⟩ := hms _ hm
    rfl

theorem fragFree_counted (s : Core) (k i : Nat) : Counted reliable k s (fragFree s k i) := by
  have hlog : (fragFree s k i).log = s.log ++ [] := by
    simp [fragFree_eq, Core.modChan, poolPut_log]
  exact Counted.of_quiet hlog rfl rfl (by rw [fragFree_chan]; rfl)

theorem acceptDataUnreliable_counted (hr : ¬reliable) (c : Conn) (k : Nat) (seq : UInt16)
    (fragIdx fragTotal : Nat) (payload : List UInt8) :
    Counted reliable k c.toCore
      (acceptDataUnreliable c k seq fragIdx fragTotal payload).toCore := by
  unfold acceptDataUnreliable
  split_ifs
  · rw [evPush_toCore]
    exact Counted.enqueue hr c.toCore k payload
  · have hfrag : Counted reliable k c.toCore _ :=
      fragReceive_counted c.toCore k seq fragIdx fragTotal payload
    generalize fragReceive c.toCore k seq fragIdx fragTotal payload = res at *
    obtain ⟨s, _ | ⟨i, pos⟩⟩ := res
    · exact hfrag
    · rw [Conn.lift_toCore, evPush_toCore]
      exact (hfrag.trans (Counted.enqueue hr s k _)).trans (fragFree_counted _ k i)

theorem acceptDataReliable_counted (c : Conn) (k : Nat) (seq : UInt16)
    (fragIdx fragTotal : Nat) (payload : List UInt8) :
    Counted reliable k c.toCore (acceptDataReliable c k seq fragIdx fragTotal payload).toCore := by
  have hack : ∀ s, Counted reliable k s (setNeedAck s k) := fun s =>
    Counted.of_quiet (List.append_nil _).symm rfl rfl (by simp [setNeedAck, Core.modChan])
  simp only [acceptDataReliable, Conn.lift_toCore]
  split_ifs
  · exact (deliverReliable_counted c k seq payload).trans (hack _)
  · have hfrag : Counted reliable k c.toCore _ :=
      fragReceive_counted c.toCore k seq fragIdx fragTotal payload
    generalize fragReceive c.toCore k seq fragIdx fragTotal payload = res at *
    obtain ⟨s, _ | ⟨i, pos⟩⟩ := res
    · exact hfrag.trans (hack _)
    · rw [Conn.lift_toCore]
      exact ((hfrag.trans (deliverReliable_counted { c with toCore := s } k seq _)).trans
        (fragFree_counted _ k i)).trans (hack _)

end Frames

namespace Core.Tally

variable {s s' : Core} {k : Nat}

theorem unused_of_log (h : s.Tally) (hused : s'.chanUsed = s.chanUsed)
    (hlog : ∃ ms, s'.log = s.log ++ ms ∧ ∀ m ∈ ms, s.chanUsed m.chan = true) :
    ∀ k, s'.chanUsed k = false → ∀ m ∈ s'.log, m.chan ≠ k := by
  obtain ⟨ms, hlog, hms⟩ := hlog
  rintro k hk m hm rfl
  rw [hused] at hk
  rw [hlog] at hm
  rcases List.mem_append.1 hm with hm | hm
  · exact h.unused _ hk m hm rfl
  · rw [hms m hm] at hk
    cases hk

theorem touch (h : s.Tally) (ht : Core.Touch k s s') (hk : s.chanUsed k = true)
    (hc : Counted ((s.chanPool k).type = netchanReliable) k s s') : s'.Tally := by
  have hother : ∀ j, j ≠ k → ∃ ms, s'.log = s.log ++ ms ∧ ∀ m ∈ ms, m.chan ≠ j := by
    intro j hj
    obtain ⟨ms, hlog, hms⟩ := ht.log
    exact ⟨ms, hlog, fun m hm e => hj (by rw [← e, hms m hm])⟩
  refine ⟨fun j hj => ?_, fun j hj htype => ?_,
    h.unused_of_log ht.chanUsed (Core.Steady.of_touch ht hk).log⟩
  · rw [ht.chanUsed] at hj
    by_cases hjk : j = k
    · subst hjk
      obtain ⟨ms, hlog, hseq, -⟩ := hc
      rw [hseq, hlog, advances_append, UInt16.ofNat_add, h.seq j hj]
    · obtain ⟨ms, hlog, hms⟩ := hother j hjk
      rw [ht.other j hjk, hlog, advances_append, advances_of_other hms, h.seq j hj, Nat.add_zero]
  · rw [ht.chanUsed] at hj
    by_cases hjk : j = k
    · subst hjk
      obtain ⟨ms, hlog, -, hhand⟩ := hc
      rw [ht.fixed.2.2.1] at htype
      rw [hlog, handed_append, advances_append, List.length_append, h.handed j hj htype,
        hhand htype]
    · obtain ⟨ms, hlog, hms⟩ := hother j hjk
      rw [ht.other j hjk] at htype
      rw [hlog, handed_append, advances_append, advances_of_other hms, handed_of_other hms,
        List.append_nil, h.handed j hj htype, Nat.add_zero]

theorem kept (h : s.Tally) (hs : Core.Steady s s')
    (hkept : ∀ k, s.chanUsed k = true → RecvKept k s s') : s'.Tally := by
  refine ⟨fun k hk => ?_, fun k hk htype => ?_, h.unused_of_log hs.chanUsed hs.log⟩
  · rw [hs.chanUsed] at hk
    obtain ⟨ms, hlog, hadv, -⟩ := (hkept k hk).log_eq
    have hseq := congrArg RecvHalf.recvSeq (hkept k hk).half
    simp only [Chan.recvHalf] at hseq
    rw [hseq, hlog, advances_append, hadv, h.seq k hk, Nat.add_zero]
  · rw [hs.chanUsed] at hk
    obtain ⟨ms, hlog, hadv, hhand⟩ := (hkept k hk).log_eq
    have hident := hs.ident k
    simp only [Chan.ident, ChanIdent.mk.injEq] at hident
    rw [hident.2.1] at htype
    rw [hlog, advances_append, handed_append, hadv, hhand, List.append_nil, h.handed k hk htype,
      Nat.add_zero]

theorem opens (h : s.Tally) (ho : Core.Opens s s') : s'.Tally := by
  obtain ⟨k, ch, hk, -, ⟨id, type, dir, role, ct, state, rfl⟩, rfl⟩ := ho
  refine ⟨fun j hj => ?_, fun j hj htype => ?_, fun j hj => ?_⟩
  · by_cases hjk : j = k
    · subst hjk
      have hadv : advances j s.log = 0 := advances_of_other (h.unused j hk)
      simp [Core.addChan, hadv, Chan.fresh, Chan.zero]
    · simp only [Core.addChan, Function.update_of_ne hjk] at hj ⊢
      exact h.seq j hj
  · by_cases hjk : j = k
    · subst hjk
      have hother := h.unused j hk
      simp [Core.addChan, advances_of_other hother, handed_of_other hother]
    · simp only [Core.addChan, Function.update_of_ne hjk] at hj htype ⊢
      exact h.handed j hj htype
  · by_cases hjk : j = k
    · subst hjk
      simp [Core.addChan] at hj
    · simp only [Core.addChan, Function.update_of_ne hjk] at hj
      exact h.unused j hj

end Core.Tally

theorem acceptData_tally (h : c.toCore.Good) (ht : c.toCore.Tally) (id : UInt8) (seq : UInt16)
    (fragIdx fragTotal : Nat) (payload : List UInt8) :
    (acceptData c id seq fragIdx fragTotal payload).toCore.Tally := by
  unfold acceptData
  cases hid : c.channels id with
  | none => exact ht
  | some k =>
    obtain ⟨-, hk, -⟩ := h.inv.table id k hid
    dsimp only
    split_ifs with hrole htype
    · exact ht
    · refine ht.touch (acceptDataUnreliable_spec h hk seq _ _ payload).2 hk
        (acceptDataUnreliable_counted ?_ c k seq _ _ payload)
      rw [htype]
      decide
    · exact ht.touch (acceptDataReliable_spec h hk (not_not.1 hrole) seq _ _ payload).2 hk
        (acceptDataReliable_counted c k seq _ _ payload)

theorem Frame.apply_tally (env : Env) (now : UInt32) (h : c.toCore.Good) (ht : c.toCore.Tally)
    (f : Frame) : (f.apply env now c).toCore.Tally := by
  rcases Frame.apply_table env now h f with hs | ho
  · by_cases hack : f.isAck = true
    · obtain ⟨id, seq, rfl⟩ : ∃ id seq, f = .ack id seq := by
        cases f <;> simp [Frame.isAck] at hack
        exact ⟨_, _, rfl⟩
      rcases acceptAck_op h id seq with heq | ⟨k, -, hop⟩
      · rw [apply, heq]
        exact ht
      · exact ht.kept hs fun j hj => hop.kept hj
    · cases hdata : f.toData? with
      | none =>
        exact ht.kept hs fun k hk =>
          (Frame.apply_kept env now hk hdata (Bool.not_eq_true _ ▸ hack)).1
      | some d =>
        cases f <;> simp [Frame.toData?] at hdata
        exact acceptData_tally h ht _ _ _ _ _
  · exact ht.opens ho

theorem Conn.step_tally (h : c.toCore.Good) (ht : c.toCore.Tally) (a : Act) :
    (c.step a).toCore.Tally := by
  by_cases hfeed : a.isFeed = true
  · cases a <;> simp [Act.isFeed] at hfeed
    rename_i env pkt src
    have hboth := netchanFeed_induct env c pkt src
      (P := fun c => c.toCore.Good ∧ c.toCore.Tally) id
      (fun c' fn _ hc => ⟨fn.1.apply_good env _ hc.1, fn.1.apply_tally env _ hc.1 hc.2⟩) ⟨h, ht⟩
    exact hboth.2
  · have hfeed : a.isFeed = false := by simpa using hfeed
    rcases Conn.step_table h hfeed with hs | ho
    · by_cases hread : ∃ k buflen, a = .chanRead k buflen
      · obtain ⟨k, buflen, rfl⟩ := hread
        by_cases hk : c.chanUsed k = true
        · have hcore : (c.step (.chanRead k buflen)).toCore = (chanRead c.toCore k buflen).1 := by
            simp [Conn.step, hk, netchanChanRead]
          rw [hcore]
          refine ht.touch (chanRead_touch c.toCore k buflen) hk ?_
          rcases chanRead_cases c.toCore k buflen with ⟨r, heq⟩ | ⟨-, -, e, data, -, -, heq⟩
          · rw [heq]
            exact Counted.of_quiet (List.append_nil _).symm rfl rfl rfl
          · rw [heq]
            have hlog : (((poolPut c.toCore e.buf).modChan k fun ch =>
                ch.dequeued (min e.len buflen)).mark (.read k data)).log =
                c.log ++ [.read k data] := by
              simp [Core.modChan, Core.mark, poolPut_log]
            refine Counted.of_quiet hlog (by simp [advances]) rfl ?_
            simp [Core.modChan, Core.mark, poolPut_chanPool, Chan.dequeued]
        · simpa [Conn.step, hk] using ht
      · exact ht.kept hs fun k hk => Conn.step_recvKept h hk hfeed fun buflen e =>
          hread ⟨k, buflen, e⟩
    · exact ht.opens ho

theorem Conn.Reachable.tally (h : c.Reachable) : c.toCore.Tally := by
  have hboth : c.toCore.Good ∧ c.toCore.Tally := by
    refine Reach.invariant (P := fun c => c.toCore.Good ∧ c.toCore.Tally) ?_ ?_ h
    · rintro c ⟨server, cfg, rfl⟩
      refine ⟨netchanOpen_good server cfg, fun k hk => ?_, fun k hk => ?_, fun k _ m hm => ?_⟩
      · simp [netchanOpen] at hk
      · simp [netchanOpen] at hk
      · simp [netchanOpen] at hm
    · intro c a hc _
      exact ⟨c.step_good hc.1 a, Conn.step_tally hc.1 hc.2 a⟩
  exact hboth.2

/-! ## The ACK frames of a packet -/

theorem flushAck_log (mtu : Nat) (c : Conn) (k : Nat) (out : List UInt8) :
    ∃ ms, (flushAck mtu c k out).1.log = c.log ++ ms ∧
      ∀ m ∈ ms, m = .ack k (c.chanPool k).ackSeq ∧ (c.chanPool k).needAck = true := by
  rw [flushAck_eq]
  split_ifs with hneed
  · exact ⟨[_], rfl, by simp [hneed.1]⟩
  · exact ⟨[], by simp, by simp⟩

theorem flushAck_ackSeq (mtu : Nat) (c : Conn) (k : Nat) (out : List UInt8) (j : Nat) :
    (((flushAck mtu c k out).1.chanPool j).needAck = true → (c.chanPool j).needAck = true) ∧
    ((flushAck mtu c k out).1.chanPool j).ackSeq = (c.chanPool j).ackSeq := by
  rw [flushAck_eq]
  split_ifs
  · by_cases hj : j = k
    · subst hj
      simp [Core.modChan, Core.mark, Conn.lift]
    · simp [Core.modChan, Core.mark, Conn.lift, Function.update_of_ne hj]
  · exact ⟨id, rfl⟩

theorem flush_ackSeq (mtu : Nat) (c : Conn) (k : Nat) (out out' : List UInt8) (j : Nat) :
    (((flushWindow mtu (flushAck mtu c k out).1 k out').1.chanPool j).needAck = true →
      (c.chanPool j).needAck = true) ∧
    ((flushWindow mtu (flushAck mtu c k out).1 k out').1.chanPool j).ackSeq =
      (c.chanPool j).ackSeq := by
  have hack := flushAck_ackSeq mtu c k out j
  rw [flushWindow_eq]
  split_ifs
  · by_cases hj : j = k
    · subst hj
      simpa [Core.modChan, Conn.lift] using hack
    · simpa [Core.modChan, Conn.lift, Function.update_of_ne hj] using hack
  · exact hack

theorem flushWindow_log (mtu : Nat) (c : Conn) (k : Nat) (out : List UInt8) :
    (flushWindow mtu c k out).1.log = c.log := by
  rw [flushWindow_eq]
  split_ifs <;> rfl

theorem flushAcks_log (mtu : Nat) (is : List Nat) (c : Conn) (out : List UInt8) :
    ∃ ms, (flushAcks mtu is c out).1.log = c.log ++ ms ∧
      ∀ m ∈ ms, ∃ k, m = .ack k (c.chanPool k).ackSeq ∧ (c.chanPool k).needAck = true := by
  refine (flushAcks_rule (P := fun d _ => (∃ ms, d.log = c.log ++ ms ∧
    ∀ m ∈ ms, ∃ k, m = .ack k (c.chanPool k).ackSeq ∧ (c.chanPool k).needAck = true) ∧
    ∀ j, ((d.chanPool j).needAck = true → (c.chanPool j).needAck = true) ∧
      (d.chanPool j).ackSeq = (c.chanPool j).ackSeq)
    (fun d k _ out _ ⟨⟨ms, hlog, hms⟩, hback⟩ => ?_) is
    ⟨⟨[], (List.append_nil _).symm, by simp⟩, fun _ => ⟨id, rfl⟩⟩).1
  obtain ⟨ms', hlog', hms'⟩ := flushAck_log mtu d k out
  have hkeep := flush_ackSeq mtu d k out (flushAck mtu d k out).2
  refine ⟨⟨ms ++ ms', ?_, fun m hm => ?_⟩, fun j =>
    ⟨fun hneed => (hback j).1 ((hkeep j).1 hneed), (hkeep j).2.trans (hback j).2⟩⟩
  · rw [flushWindow_log, hlog', hlog, List.append_assoc]
  · rcases List.mem_append.1 hm with hm | hm
    · exact hms m hm
    · obtain ⟨hack, hneed⟩ := hms' m hm
      exact ⟨k, by rw [hack, (hback k).2], (hback k).1 hneed⟩

theorem sentFragment_log (now : UInt32) (s : Core) (k j : Nat) :
    (sentFragment now s k j).log = s.log := by
  rw [sentFragment_eq]
  split_ifs
  · simp [advanceHead, Core.setOut, Core.modChan, poolPut_log]
  · rfl

theorem sendData_log (env : Env) (mtu : Nat) (is : List Nat) (c : Conn) (out : List UInt8) :
    (sendData env mtu is c out).1.log = c.log :=
  sendData_rule (P := fun d _ => d.log = c.log)
    (fun _ _ _ _ _ _ _ _ _ _ h => (sentFragment_log _ _ _ _).trans h) is rfl

theorem netchanSendNext_log (env : Env) (c : Conn) (buflen : Nat) :
    ∃ ms, (netchanSendNext env c buflen).1.log = c.log ++ ms ∧
      ∀ m ∈ ms, ∃ k, m = .ack k (c.chanPool k).ackSeq ∧ (c.chanPool k).needAck = true := by
  rw [netchanSendNext_eq]
  split_ifs
  · exact ⟨[], (List.append_nil _).symm, by simp⟩
  · generalize min c.cfg.mtu.toNat buflen = mtu
    have hcore := packetCtrl_toCore mtu c
    obtain ⟨ms, hlog, hms⟩ := flushAcks_log mtu (List.range ncMaxChannels)
      (packetCtrl mtu c).1 (packetCtrl mtu c).2
    rw [hcore] at hlog hms
    refine ⟨ms, ?_, hms⟩
    have hdata := sendData_log env mtu (List.range ncMaxChannels) (packetAcks mtu c).1
      (packetAcks mtu c).2
    exact hdata.trans hlog

end MechanicalResearcher.NetchanV2
