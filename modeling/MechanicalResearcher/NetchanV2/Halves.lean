import MechanicalResearcher.NetchanV2.Containment

/-!
# The two halves of a channel

A channel record has a sending and a receiving half, and almost every call works
on one of them.  `RecvKept k` and `SendKept k` say that a half of channel record
`k` came through unchanged, its buffered messages included.  What does not depend
on which half it is, is proved once for `HalfKept`.
-/

namespace MechanicalResearcher.NetchanV2

open Lib Lib.Serial Lib.Ownership

variable {c : Conn} {j : Nat}

structure RecvHalf where
  recvSeq : UInt16
  recvBuffered : UInt32
  recvQueue : Nat → RecvEntry
  rqHead : Nat
  rqTail : Nat
  reorder : Nat → Reorder
  frags : Nat → FragAsm

def Chan.recvHalf (ch : Chan) : RecvHalf :=
  ⟨ch.recvSeq, ch.recvBuffered, ch.recvQueue, ch.rqHead, ch.rqTail, ch.reorder, ch.frags⟩

/-- The message of an outgoing slot, without the progress of its transmission. -/
structure OutMsg where
  seq : UInt16
  buf : Option Nat
  len : Nat
  fragTotal : Nat
  active : Bool

def Outgoing.msg (o : Outgoing) : OutMsg := ⟨o.seq, o.buf, o.len, o.fragTotal, o.active⟩

structure SendHalf where
  sendSeq : UInt16
  outHead : Nat
  outTail : Nat
  out : Nat → OutMsg

def Chan.sendHalf (ch : Chan) : SendHalf :=
  ⟨ch.sendSeq, ch.outHead, ch.outTail, fun i => (ch.outgoing i).msg⟩

/-- What identifies a channel. -/
structure ChanIdent where
  id : UInt8
  type : Nat
  role : Role
  recvWindow : UInt32

def Chan.ident (ch : Chan) : ChanIdent := ⟨ch.id, ch.type, ch.role, ch.recvWindow⟩

def Slot.isOut : Slot → Bool
  | outgoing _ => true
  | _ => false

/-- The marks of the receiving half. -/
def Mark.isRecv : Mark → Bool
  | read _ _ | enqueue _ _ _ | advance _ | fragWrite _ _ _ _ => true
  | _ => false

/-- The marks of the sending half. -/
def Mark.isWrite : Mark → Bool
  | write _ _ => true
  | _ => false

/-- From `s` to `s'` a half of channel record `k` is unchanged: its fields, the messages in
its slots, and its part of the history. -/
structure HalfKept {H : Type} (half : Chan → H) (slots : Slot → Bool) (marks : Mark → Bool)
    (k : Nat) (s s' : Core) : Prop where
  used : s'.chanUsed k = true
  ident : (s'.chanPool k).ident = (s.chanPool k).ident
  half : half (s'.chanPool k) = half (s.chanPool k)
  keeps : Core.Keeps (fun j y => j = k ∧ slots y = true) s s'
  log : ∃ ms, s'.log = s.log ++ ms ∧ ∀ m ∈ ms, marks m = true → m.chan ≠ k

abbrev RecvKept : Nat → Core → Core → Prop :=
  HalfKept Chan.recvHalf (fun y => !y.isOut) Mark.isRecv

abbrev SendKept : Nat → Core → Core → Prop :=
  HalfKept Chan.sendHalf Slot.isOut Mark.isWrite

theorem Core.Touch.ident {k : Nat} {s s' : Core} (h : Core.Touch k s s') :
    (s'.chanPool k).ident = (s.chanPool k).ident := by
  obtain ⟨h1, h2, h3, -, h5⟩ := h.fixed
  simp only [Chan.ident, h1, h2, h3, h5]

namespace HalfKept

variable {H : Type} {half : Chan → H} {slots : Slot → Bool} {marks : Mark → Bool}
variable {k k₀ : Nat} {s s' s'' : Core}

theorem refl (hk : s.chanUsed k = true) : HalfKept half slots marks k s s :=
  ⟨hk, rfl, rfl, Core.Keeps.refl _ _, [], by simp, by simp⟩

theorem trans (h : HalfKept half slots marks k s s') (h' : HalfKept half slots marks k s' s'') :
    HalfKept half slots marks k s s'' := by
  obtain ⟨ms, hlog, hms⟩ := h.log
  obtain ⟨ms', hlog', hms'⟩ := h'.log
  refine ⟨h'.used, h'.ident.trans h.ident, h'.half.trans h.half, h.keeps.trans h'.keeps,
    ms ++ ms', by rw [hlog', hlog, List.append_assoc], fun m hm => ?_⟩
  rcases List.mem_append.1 hm with hm | hm
  · exact hms m hm
  · exact hms' m hm

theorem of_touch (ht : Core.Touch k₀ s s') (hkeep : Core.Keeps (fun j _ => j ≠ k₀) s s')
    (hk : s.chanUsed k = true) (hne : k ≠ k₀) : HalfKept half slots marks k s s' := by
  obtain ⟨ms, hlog, hms⟩ := ht.log
  refine ⟨by rw [ht.chanUsed, hk], by rw [ht.other k hne], by rw [ht.other k hne],
    hkeep.mono fun j y hy => hy.1 ▸ hne, ms, hlog, fun m hm _ e => hne ?_⟩
  rw [← e, hms m hm]

theorem of_other_half (ht : Core.Touch k₀ s s')
    (hkeep : Core.Keeps (fun j y => j ≠ k₀ ∨ slots y = true) s s')
    (hhalf : half (s'.chanPool k₀) = half (s.chanPool k₀))
    (hlog : ∃ ms, s'.log = s.log ++ ms ∧ ∀ m ∈ ms, marks m = false)
    (hk : s.chanUsed k = true) : HalfKept half slots marks k s s' := by
  by_cases hne : k = k₀
  · subst hne
    obtain ⟨ms, hms, hno⟩ := hlog
    refine ⟨by rw [ht.chanUsed, hk], ht.ident, hhalf,
      hkeep.mono fun j y hy => Or.inr hy.2, ms, hms, fun m hm hr => ?_⟩
    rw [hno m hm] at hr
    cases hr
  · exact of_touch ht (hkeep.mono fun j y hy => Or.inl hy) hk hne

theorem mark (hk : s.chanUsed k = true) {m : Mark} (hm : marks m = false) :
    HalfKept half slots marks k s (s.mark m) := by
  refine ⟨hk, rfl, rfl, Core.Keeps.mark _ _ _, [m], rfl, fun m' hm' hr => ?_⟩
  rw [List.mem_singleton.1 hm', hm] at hr
  cases hr

theorem modChan {f : Chan → Chan} (ht : Core.Touch k₀ s (s.modChan k₀ f))
    (hhalf : half (f (s.chanPool k₀)) = half (s.chanPool k₀))
    (hslots : ∀ y, slots y = true → (f (s.chanPool k₀)).bufAt y = (s.chanPool k₀).bufAt y)
    (hk : s.chanUsed k = true) : HalfKept half slots marks k s (s.modChan k₀ f) := by
  refine of_other_half ht ?_ (by simpa [Core.modChan] using hhalf)
    ⟨[], by simp [Core.modChan], by simp⟩ hk
  refine Core.Keeps.of_store (fun j y hy => ?_) rfl
  by_cases hj : j = k₀
  · subst hj
    simp [Core.bufAt, Core.modChan, hslots y (hy.resolve_left fun hne => hne rfl)]
  · simp [Core.bufAt, Core.modChan, Function.update_of_ne hj]

end HalfKept

/-! ## Which slots a half determines -/

theorem bufAt_of_recvHalf {ch ch' : Chan} (h : ch'.recvHalf = ch.recvHalf) (y : Slot)
    (hy : (!y.isOut) = true) : ch'.bufAt y = ch.bufAt y := by
  simp only [Chan.recvHalf, RecvHalf.mk.injEq] at h
  obtain ⟨-, -, hq, -, -, hr, hf⟩ := h
  cases y with
  | outgoing i => simp [Slot.isOut] at hy
  | _ => simp [Chan.bufAt, hq, hr, hf]

theorem bufAt_of_sendHalf {ch ch' : Chan} (h : ch'.sendHalf = ch.sendHalf) (y : Slot)
    (hy : y.isOut = true) : ch'.bufAt y = ch.bufAt y := by
  simp only [Chan.sendHalf, SendHalf.mk.injEq] at h
  cases y with
  | outgoing i =>
    have hmsg := congrFun h.2.2.2 i
    simp only [Outgoing.msg, OutMsg.mk.injEq] at hmsg
    simp [Chan.bufAt, hmsg.2.1, hmsg.2.2.2.2]
  | _ => simp [Slot.isOut] at hy

theorem RecvKept.of_modChan {k k₀ : Nat} {s : Core} {f : Chan → Chan}
    (ht : Core.Touch k₀ s (s.modChan k₀ f))
    (hhalf : (f (s.chanPool k₀)).recvHalf = (s.chanPool k₀).recvHalf)
    (hk : s.chanUsed k = true) : RecvKept k s (s.modChan k₀ f) :=
  HalfKept.modChan ht hhalf (bufAt_of_recvHalf hhalf) hk

theorem SendKept.of_modChan {k k₀ : Nat} {s : Core} {f : Chan → Chan}
    (ht : Core.Touch k₀ s (s.modChan k₀ f))
    (hhalf : (f (s.chanPool k₀)).sendHalf = (s.chanPool k₀).sendHalf)
    (hk : s.chanUsed k = true) : SendKept k s (s.modChan k₀ f) :=
  HalfKept.modChan ht hhalf (bufAt_of_sendHalf hhalf) hk

/-! ## Calls -/

section Calls

variable {H : Type} {half : Chan → H} {slots : Slot → Bool} {marks : Mark → Bool}

theorem HalfKept.addChan {s : Core} {k k₀ : Nat} {ch : Chan} (hk0 : s.chanUsed k₀ = false)
    (hk : s.chanUsed k = true) : HalfKept half slots marks k s (s.addChan k₀ ch) := by
  have hne : k ≠ k₀ := by
    rintro rfl
    simp [hk] at hk0
  refine ⟨by simp [Core.addChan, Function.update_of_ne hne, hk],
    by simp [Core.addChan, Function.update_of_ne hne],
    by simp [Core.addChan, Function.update_of_ne hne],
    Core.Keeps.of_store (fun j y hy => ?_) rfl, [], by simp [Core.addChan], by simp⟩
  rw [hy.1]
  simp [Core.bufAt, Core.addChan, Function.update_of_ne hne]

theorem HalfKept.chanNew {s : Core} {k : Nat} (hk : s.chanUsed k = true) (id : UInt8)
    (type dir : Nat) (role : Role) (ct : Option (List UInt8)) :
    HalfKept half slots marks k s (chanNew s id type dir role ct).1 := by
  rcases chanNew_cases s id type dir role ct with heq | ⟨k₀, -, hk0, heq⟩
  · rw [heq]
    exact HalfKept.refl hk
  · rw [heq]
    exact HalfKept.addChan hk0 hk

end Calls

theorem RecvKept.setState {s : Core} {k k₀ : Nat} (hk : s.chanUsed k = true)
    (f : Chan → ChanState) : RecvKept k s (s.modChan k₀ fun ch => { ch with state := f ch }) :=
  RecvKept.of_modChan (Core.Touch.modChan s k₀ ⟨rfl, rfl, rfl, rfl, rfl⟩) rfl hk

theorem SendKept.setState {s : Core} {k k₀ : Nat} (hk : s.chanUsed k = true)
    (f : Chan → ChanState) : SendKept k s (s.modChan k₀ fun ch => { ch with state := f ch }) :=
  SendKept.of_modChan (Core.Touch.modChan s k₀ ⟨rfl, rfl, rfl, rfl, rfl⟩) rfl hk

/-! ### Writing and reading -/

theorem chanWrite_touch (s : Core) (k : Nat) (data : List UInt8) :
    Core.Touch k s (chanWrite s k data).1 := by
  rcases chanWrite_cases s k data with ⟨r, heq⟩ | ⟨-, -, heq⟩ | ⟨-, -, heq⟩
  · rw [heq]
    exact Core.Touch.refl k s
  · rw [heq]
    exact (Core.Touch.modChan s k (f := Chan.spoiled) ⟨rfl, rfl, rfl, rfl, rfl⟩).trans
      (Core.Touch.pool k _ _ _)
  · rw [heq]
    exact (Core.Touch.takeInto s k data fun _ => ⟨rfl, rfl, rfl, rfl, rfl⟩).trans
      (Core.Touch.mark _ rfl)

theorem chanWrite_keeps {s : Core} {k : Nat} (h : s.Inv) (hk : s.chanUsed k = true)
    (data : List UInt8) :
    Core.Keeps (Off k (.outgoing (s.chanPool k).outTail)) s (chanWrite s k data).1 := by
  have htail := (h.chans k hk).out.tail_lt
  rcases chanWrite_cases s k data with ⟨r, heq⟩ | ⟨hcan, -, heq⟩ | ⟨hcan, -, heq⟩
  · rw [heq]
    exact Core.Keeps.refl _ _
  · obtain ⟨-, -, -, hlen, -, -, htop⟩ := hcan
    rw [heq]
    refine Core.Keeps.writeFree h htop hlen (fun j y hy => ?_) rfl
    by_cases hj : j = k
    · subst hj
      have hne : y ≠ .outgoing (s.chanPool j).outTail := fun e => hy ⟨rfl, e⟩
      have hbuf : (s.chanPool j).spoiled.bufAt = Function.update (s.chanPool j).bufAt
          (.outgoing (s.chanPool j).outTail) none :=
        bufAt_outgoing Outgoing.zero htail rfl ⟨rfl, rfl, rfl⟩
      simp [Core.bufAt, hbuf, Function.update_of_ne hne]
    · simp [Core.bufAt, Function.update_of_ne hj]
  · obtain ⟨-, -, -, hlen, -, -, htop⟩ := hcan
    rw [heq]
    exact (Core.Keeps.takeInto h htop hlen fun b => bufAt_queued _ b _ _ htail).trans
      (Core.Keeps.mark _ _ _)

theorem chanWrite_recvKept {s : Core} {k k₀ : Nat} (h : s.Inv) (hk0 : s.chanUsed k₀ = true)
    (hk : s.chanUsed k = true) (data : List UInt8) : RecvKept k s (chanWrite s k₀ data).1 := by
  refine HalfKept.of_other_half (chanWrite_touch s k₀ data)
    ((chanWrite_keeps h hk0 data).mono ?_) ?_ ?_ hk
  · rintro j y hy ⟨rfl, rfl⟩
    simp [Slot.isOut] at hy
  · rcases chanWrite_cases s k₀ data with ⟨r, heq⟩ | ⟨-, -, heq⟩ | ⟨-, -, heq⟩
    · rw [heq]
    · rw [heq]
      simp [Chan.spoiled, Chan.recvHalf]
    · rw [heq]
      simp [Core.takeInto, Core.mark, Chan.queued, Chan.recvHalf]
  · rcases chanWrite_cases s k₀ data with ⟨r, heq⟩ | ⟨-, -, heq⟩ | ⟨-, -, heq⟩
    · exact ⟨[], by simp [heq], by simp⟩
    · exact ⟨[], by simp [heq], by simp⟩
    · exact ⟨[.write k₀ data], by simp [heq, Core.takeInto, Core.mark], by simp [Mark.isRecv]⟩

theorem chanWrite_sendKept {s : Core} {k k₀ : Nat} (h : s.Inv) (hk0 : s.chanUsed k₀ = true)
    (hk : s.chanUsed k = true) (hne : k ≠ k₀) (data : List UInt8) :
    SendKept k s (chanWrite s k₀ data).1 :=
  HalfKept.of_touch (chanWrite_touch s k₀ data)
    ((chanWrite_keeps h hk0 data).mono fun _ _ hj e => hj e.1) hk hne

theorem chanRead_touch (s : Core) (k buflen : Nat) : Core.Touch k s (chanRead s k buflen).1 := by
  rcases chanRead_cases s k buflen with ⟨r, heq⟩ | ⟨-, -, e, data, -, -, heq⟩
  · rw [heq]
    exact Core.Touch.refl k s
  · rw [heq]
    exact ((Core.Touch.poolPut k s _).trans
      (Core.Touch.modChan _ k ⟨rfl, rfl, rfl, rfl, rfl⟩)).trans (Core.Touch.mark _ rfl)

theorem chanRead_keeps (s : Core) (k buflen : Nat) :
    Core.Keeps (Off k (.recvQueue (s.chanPool k).rqHead)) s (chanRead s k buflen).1 := by
  rcases chanRead_cases s k buflen with ⟨r, heq⟩ | ⟨-, -, e, data, -, -, heq⟩
  · rw [heq]
    exact Core.Keeps.refl _ _
  · rw [heq]
    refine ((Core.Keeps.poolPut _ s _).trans (Core.Keeps.modChan _ k fun x hx => ?_)).trans
      (Core.Keeps.mark _ _ _)
    have hne : x ≠ .recvQueue (s.chanPool k).rqHead := fun e => hx ⟨rfl, e⟩
    rw [bufAt_dequeued, poolPut_chanPool, Function.update_of_ne hne]

theorem chanRead_sendKept {s : Core} {k k₀ : Nat} (hk : s.chanUsed k = true) (buflen : Nat) :
    SendKept k s (chanRead s k₀ buflen).1 := by
  refine HalfKept.of_other_half (chanRead_touch s k₀ buflen)
    ((chanRead_keeps s k₀ buflen).mono ?_) ?_ ?_ hk
  · rintro j y hy ⟨rfl, rfl⟩
    simp [Slot.isOut] at hy
  · rcases chanRead_cases s k₀ buflen with ⟨r, heq⟩ | ⟨-, -, e, data, -, -, heq⟩
    · rw [heq]
    · rw [heq]
      simp [Core.modChan, Core.mark, poolPut_chanPool, Chan.dequeued, Chan.sendHalf]
  · rcases chanRead_cases s k₀ buflen with ⟨r, heq⟩ | ⟨-, -, e, data, -, -, heq⟩
    · exact ⟨[], by simp [heq], by simp⟩
    · exact ⟨[.read k₀ data], by simp [heq, Core.modChan, Core.mark, poolPut_log],
        by simp [Mark.isWrite]⟩

theorem chanRead_recvKept {s : Core} {k k₀ : Nat} (hk : s.chanUsed k = true) (hne : k ≠ k₀)
    (buflen : Nat) : RecvKept k s (chanRead s k₀ buflen).1 :=
  HalfKept.of_touch (chanRead_touch s k₀ buflen)
    ((chanRead_keeps s k₀ buflen).mono fun _ _ hj e => hj e.1) hk hne

/-! ### Sending -/

theorem flushAck_kept {k : Nat} (hk : c.chanUsed k = true) (mtu k₀ : Nat) (out : List UInt8) :
    RecvKept k c.toCore (flushAck mtu c k₀ out).1.toCore ∧
      SendKept k c.toCore (flushAck mtu c k₀ out).1.toCore := by
  rw [flushAck_eq]
  split_ifs
  · have ht := Core.Touch.modChan c.toCore k₀ (f := fun ch => { ch with needAck := false })
      ⟨rfl, rfl, rfl, rfl, rfl⟩
    have hr : RecvKept k _ _ := RecvKept.of_modChan ht rfl hk
    have hs : SendKept k _ _ := SendKept.of_modChan ht rfl hk
    exact ⟨hr.trans (HalfKept.mark hr.used rfl), hs.trans (HalfKept.mark hs.used rfl)⟩
  · exact ⟨HalfKept.refl hk, HalfKept.refl hk⟩

theorem flushWindow_kept {k : Nat} (hk : c.chanUsed k = true) (mtu k₀ : Nat) (out : List UInt8) :
    RecvKept k c.toCore (flushWindow mtu c k₀ out).1.toCore ∧
      SendKept k c.toCore (flushWindow mtu c k₀ out).1.toCore := by
  rw [flushWindow_eq]
  split_ifs
  · have ht := Core.Touch.modChan c.toCore k₀
      (f := fun ch => { ch with needWindowUpdate := false }) ⟨rfl, rfl, rfl, rfl, rfl⟩
    exact ⟨RecvKept.of_modChan ht rfl hk, SendKept.of_modChan ht rfl hk⟩
  · exact ⟨HalfKept.refl hk, HalfKept.refl hk⟩

theorem flushAcks_kept (mtu : Nat) (is : List Nat) {k : Nat} (hk : c.chanUsed k = true)
    (out : List UInt8) :
    RecvKept k c.toCore (flushAcks mtu is c out).1.toCore ∧
      SendKept k c.toCore (flushAcks mtu is c out).1.toCore := by
  refine flushAcks_rule (P := fun d _ => RecvKept k c.toCore d.toCore ∧
    SendKept k c.toCore d.toCore)
    (fun d k₀ _ out _ ⟨hr, hs⟩ => ?_) is ⟨HalfKept.refl hk, HalfKept.refl hk⟩
  obtain ⟨hr1, hs1⟩ := flushAck_kept hr.used mtu k₀ out
  obtain ⟨hr2, hs2⟩ := flushWindow_kept hr1.used mtu k₀ (flushAck mtu d k₀ out).2
  exact ⟨(hr.trans hr1).trans hr2, (hs.trans hs1).trans hs2⟩

theorem setOut_recvKept {s : Core} {k : Nat} (hk : s.chanUsed k = true) (k₀ j : Nat)
    (o : Outgoing) : RecvKept k s (s.setOut k₀ j o) :=
  RecvKept.of_modChan (setOut_touch s k₀ j o) rfl hk

theorem setOut_sendKept {s : Core} {k : Nat} (hk : s.chanUsed k = true) {k₀ : Nat} {o : Outgoing}
    (ho : o.msg = ((s.chanPool k₀).outgoing j).msg) :
    SendKept k s (s.setOut k₀ j o) := by
  refine SendKept.of_modChan (setOut_touch s k₀ j o) ?_ hk
  simp only [Chan.sendHalf, SendHalf.mk.injEq, true_and]
  funext i
  by_cases hij : i = j
  · rw [hij, Function.update_self, ho]
  · rw [Function.update_of_ne hij]

theorem poolPut_kept {s : Core} {k : Nat} (hk : s.chanUsed k = true) (b : Option Nat) :
    RecvKept k s (poolPut s b) ∧ SendKept k s (poolPut s b) := by
  have hpool := poolPut_chanPool s b
  have hused : (poolPut s b).chanUsed k = true := by cases b <;> exact hk
  exact ⟨⟨hused, by rw [hpool], by rw [hpool], Core.Keeps.poolPut _ _ _, [],
      by simp [poolPut_log], by simp⟩,
    ⟨hused, by rw [hpool], by rw [hpool], Core.Keeps.poolPut _ _ _, [],
      by simp [poolPut_log], by simp⟩⟩

theorem advanceHead_recvKept {s : Core} {k k₀ : Nat} (h : s.Inv) (hk0 : s.chanUsed k₀ = true)
    (hk : s.chanUsed k = true) : RecvKept k s (advanceHead s k₀) := by
  obtain ⟨head, heq, -⟩ :=
    advanceHeadLoop_spec ncOutgoingSlots (s.chanPool k₀) (h.chans k₀ hk0).out
  refine RecvKept.of_modChan (Core.Touch.modChan s k₀ ?_) ?_ hk
  · rw [heq]
    exact ⟨rfl, rfl, rfl, rfl, rfl⟩
  · rw [heq]
    rfl

theorem sentFragment_recvKept {s : Core} {k k₀ : Nat} (h : s.Good) (hk0 : s.chanUsed k₀ = true)
    (hj : j < 64) (hact : ((s.chanPool k₀).outgoing j).active = true) (hk : s.chanUsed k = true)
    (now : UInt32) : RecvKept k s (sentFragment now s k₀ j) := by
  have hset := setOut_recvKept hk k₀ j (((s.chanPool k₀).outgoing j).sent now)
  rw [sentFragment_eq]
  split_ifs
  · have h1 : (s.setOut k₀ j (((s.chanPool k₀).outgoing j).sent now)).Good :=
      setOut_good h hk0 hj hact hact rfl rfl
    have ht1 := setOut_touch s k₀ j (((s.chanPool k₀).outgoing j).sent now)
    have hslot : ((s.setOut k₀ j (((s.chanPool k₀).outgoing j).sent now)).chanPool k₀).outgoing j =
        ((s.chanPool k₀).outgoing j).sent now := by
      simp [setOut_chan]
    have hfree := setOut_freed_good h1 (ht1.used hk0) hj (by rw [hslot]; exact hact)
    rw [hslot] at hfree
    obtain ⟨h2, ht2⟩ := hfree
    have hput := (poolPut_kept hset.used ((s.chanPool k₀).outgoing j).buf).1
    have hfreed := setOut_recvKept hput.used k₀ j (((s.chanPool k₀).outgoing j).sent now).freed
    exact ((hset.trans hput).trans hfreed).trans
      (advanceHead_recvKept h2.inv (ht2.used (ht1.used hk0)) hfreed.used)
  · exact hset

theorem sentFragment_sendKept {s : Core} {k k₀ : Nat} (h : s.Good) (hk0 : s.chanUsed k₀ = true)
    (hj : j < 64) (hact : ((s.chanPool k₀).outgoing j).active = true) (hk : s.chanUsed k = true)
    (hrel : (s.chanPool k).type = netchanReliable) (now : UInt32) :
    SendKept k s (sentFragment now s k₀ j) := by
  by_cases hne : k = k₀
  · subst hne
    rw [sentFragment_eq, if_neg (by simp [hrel])]
    exact setOut_sendKept hk rfl
  · have hkeep : Core.Keeps (fun j _ => j ≠ k₀) s (sentFragment now s k₀ j) := by
      have hset : ∀ s' o, Core.Keeps (fun j _ => j ≠ k₀) s' (s'.setOut k₀ j o) := fun s' o =>
        Core.Keeps.modChan s' k₀ fun x hx => absurd rfl hx
      rw [sentFragment_eq]
      split_ifs
      · exact (((hset s _).trans (Core.Keeps.poolPut _ _ _)).trans (hset _ _)).trans
          (Core.Keeps.modChan _ k₀ fun x hx => absurd rfl hx)
      · exact hset s _
    exact HalfKept.of_touch (sentFragment_good h hk0 hj hact now).2 hkeep hk hne

theorem sendData_kept (env : Env) (mtu : Nat) (is : List Nat) {k : Nat} (h : c.toCore.Good)
    (hk : c.chanUsed k = true) (out : List UInt8) :
    RecvKept k c.toCore (sendData env mtu is c out).1.toCore ∧
      ((c.chanPool k).type = netchanReliable →
        SendKept k c.toCore (sendData env mtu is c out).1.toCore) := by
  refine (sendData_good_rule (P := fun d _ => RecvKept k c.toCore d.toCore ∧
    ((c.chanPool k).type = netchanReliable → SendKept k c.toCore d.toCore))
    (fun d k₀ j now out hdue ⟨hr, hs⟩ => ?_) is h
    ⟨HalfKept.refl hk, fun _ => HalfKept.refl hk⟩).2
  refine ⟨hr.trans (sentFragment_recvKept hdue.good hdue.used hdue.lt hdue.active hr.used now),
    fun hrel => (hs hrel).trans ?_⟩
  have htype : (d.chanPool k).type = (c.chanPool k).type := congrArg ChanIdent.type hr.ident
  exact sentFragment_sendKept hdue.good hdue.used hdue.lt hdue.active hr.used
    (htype.trans hrel) now

theorem netchanSendNext_kept (env : Env) {k : Nat} (h : c.toCore.Good) (hk : c.chanUsed k = true)
    (buflen : Nat) :
    RecvKept k c.toCore (netchanSendNext env c buflen).1.toCore ∧
      ((c.chanPool k).type = netchanReliable →
        SendKept k c.toCore (netchanSendNext env c buflen).1.toCore) := by
  rw [netchanSendNext_eq]
  split_ifs
  · exact ⟨HalfKept.refl hk, fun _ => HalfKept.refl hk⟩
  · generalize min c.cfg.mtu.toNat buflen = mtu
    have hcore := packetCtrl_toCore mtu c
    obtain ⟨hr, hs⟩ := flushAcks_kept mtu (List.range ncMaxChannels)
      (c := (packetCtrl mtu c).1) (k := k) (by rw [hcore, hk]) (packetCtrl mtu c).2
    rw [hcore] at hr hs
    obtain ⟨hr', hs'⟩ := sendData_kept env mtu (List.range ncMaxChannels)
      (packetAcks_good h mtu) hr.used (packetAcks mtu c).2
    refine ⟨hr.trans hr', fun hrel => hs.trans (hs' ?_)⟩
    exact (congrArg ChanIdent.type hs.ident).trans hrel

/-! ### Timers -/

theorem requeue_kept {s : Core} {k : Nat} (hk : s.chanUsed k = true) (k₀ j : Nat)
    (now : UInt32) : RecvKept k s (s.requeue k₀ j now) ∧ SendKept k s (s.requeue k₀ j now) := by
  have hr := setOut_recvKept hk k₀ j (((s.chanPool k₀).outgoing j).requeued now)
  have hs : SendKept k s (s.setOut k₀ j (((s.chanPool k₀).outgoing j).requeued now)) :=
    setOut_sendKept hk rfl
  have ht : Core.Touch k₀ _ (s.requeue k₀ j now) :=
    Core.Touch.modChan _ k₀ ⟨rfl, rfl, rfl, rfl, rfl⟩
  exact ⟨hr.trans (RecvKept.of_modChan ht rfl hr.used),
    hs.trans (SendKept.of_modChan ht rfl hs.used)⟩

theorem serviceSlots_kept (now : UInt32) (k₀ : Nat) (js : List Nat) {k : Nat}
    (hk : c.chanUsed k = true) (nextMs : Int) :
    RecvKept k c.toCore (serviceSlots now k₀ js c nextMs).1.toCore ∧
      SendKept k c.toCore (serviceSlots now k₀ js c nextMs).1.toCore := by
  refine serviceSlots_rule (P := fun d => RecvKept k c.toCore d.toCore ∧
    SendKept k c.toCore d.toCore)
    (fun d ⟨hr, hs⟩ => ?_) (fun d j _ _ ⟨hr, hs⟩ => ?_) ⟨HalfKept.refl hk, HalfKept.refl hk⟩ nextMs
  · rw [evPush_toCore, Conn.lift_toCore]
    exact ⟨hr.trans (RecvKept.setState hr.used _), hs.trans (SendKept.setState hr.used _)⟩
  · obtain ⟨hr1, hs1⟩ := requeue_kept hr.used k₀ j now
    exact ⟨hr.trans hr1, hs.trans hs1⟩

theorem serviceChannels_kept (now : UInt32) (is : List Nat) {k : Nat} (hk : c.chanUsed k = true)
    (nextMs : Int) :
    RecvKept k c.toCore (serviceChannels now is c nextMs).1.toCore ∧
      SendKept k c.toCore (serviceChannels now is c nextMs).1.toCore := by
  refine serviceChannels_rule (P := fun d => RecvKept k c.toCore d.toCore ∧
    SendKept k c.toCore d.toCore) (fun d k₀ _ ms _ ⟨hr, hs⟩ => ?_) is
    ⟨HalfKept.refl hk, HalfKept.refl hk⟩ nextMs
  obtain ⟨hr1, hs1⟩ := serviceSlots_kept now k₀ (List.range ncOutgoingSlots) hr.used ms
  exact ⟨hr.trans hr1, hs.trans hs1⟩

theorem netchanService_kept (env : Env) {k : Nat} (hk : c.chanUsed k = true) (now : UInt32) :
    RecvKept k c.toCore (netchanService env c now).1.toCore ∧
      SendKept k c.toCore (netchanService env c now).1.toCore := by
  rcases netchanService_cases env c now with heq | ⟨c', nextMs, hcore, heq⟩
  · rw [heq]
    exact ⟨HalfKept.refl hk, HalfKept.refl hk⟩
  · rw [heq, ← hcore]
    exact serviceChannels_kept now _ (hcore ▸ hk) nextMs

/-! ### Channels -/

theorem netchanChanOpen_kept {k : Nat} (hk : c.chanUsed k = true) (type dir : Nat)
    (ct : Option (List UInt8)) :
    RecvKept k c.toCore (netchanChanOpen c type dir ct).1.toCore ∧
      SendKept k c.toCore (netchanChanOpen c type dir ct).1.toCore := by
  have hr : ∀ id role, RecvKept k c.toCore (chanNew c.toCore id type dir role ct).1 :=
    fun id role => HalfKept.chanNew hk id type dir role ct
  have hs : ∀ id role, SendKept k c.toCore (chanNew c.toCore id type dir role ct).1 :=
    fun id role => HalfKept.chanNew hk id type dir role ct
  simp only [netchanChanOpen]
  split_ifs
  · exact ⟨HalfKept.refl hk, HalfKept.refl hk⟩
  · exact ⟨HalfKept.refl hk, HalfKept.refl hk⟩
  all_goals
    rcases hnew : chanNew c.toCore c.nextChanId type dir _ ct with ⟨s, _ | k₀⟩
    · exact ⟨HalfKept.refl hk, HalfKept.refl hk⟩
    · have hr' := hnew ▸ hr c.nextChanId _
      have hs' := hnew ▸ hs c.nextChanId _
      simp [ctrlWindowUpdate, ctrlChannelOpen]
      first
      | exact ⟨hr', hs'⟩
      | exact ⟨hr'.trans (RecvKept.setState hr'.used _),
          hs'.trans (SendKept.setState hs'.used _)⟩

theorem netchanChanClose_kept {k : Nat} (hk : c.chanUsed k = true) (k₀ : Nat) :
    RecvKept k c.toCore (netchanChanClose c k₀).toCore ∧
      SendKept k c.toCore (netchanChanClose c k₀).toCore := by
  unfold netchanChanClose
  split_ifs
  · exact ⟨HalfKept.refl hk, HalfKept.refl hk⟩
  · rw [Conn.lift_toCore, ctrlChannelClose, ctrlReserve_toCore]
    exact ⟨RecvKept.setState hk _, SendKept.setState hk _⟩

/-! ### All calls but `netchan_feed` -/

def Act.isFeed : Act → Bool
  | feed _ _ _ => true
  | _ => false

theorem Conn.step_recvKept {k : Nat} {a : Act} (h : c.toCore.Good) (hk : c.chanUsed k = true)
    (hfeed : a.isFeed = false) (hread : ∀ buflen, a ≠ .chanRead k buflen) :
    RecvKept k c.toCore (c.step a).toCore := by
  cases a with
  | connect env addr =>
    simp only [step, netchanConnect]
    split_ifs <;> simp [ctrlConnectInit, HalfKept.refl hk]
  | accept =>
    simp only [step, netchanAccept]
    split_ifs <;> simp [ctrlConnectAccept, HalfKept.refl hk]
  | feed env pkt src => cases hfeed
  | sendNext env buflen => exact (netchanSendNext_kept env h hk buflen).1
  | service env now => exact (netchanService_kept env hk now).1
  | chanOpen type dir contentType => exact (netchanChanOpen_kept hk type dir contentType).1
  | chanClose k₀ =>
    simp only [step]
    split_ifs
    · exact (netchanChanClose_kept hk k₀).1
    · exact HalfKept.refl hk
  | chanWrite k₀ data =>
    simp only [step]
    split_ifs with hk0
    · exact chanWrite_recvKept h.inv hk0 hk data
    · exact HalfKept.refl hk
  | chanRead k₀ buflen =>
    simp only [step]
    split_ifs
    · refine chanRead_recvKept hk ?_ buflen
      rintro rfl
      exact hread buflen rfl
    · exact HalfKept.refl hk
  | poll =>
    simp only [step, netchanPoll]
    split_ifs <;> exact HalfKept.refl hk

theorem Conn.step_sendKept {k : Nat} {a : Act} (h : c.toCore.Good) (hk : c.chanUsed k = true)
    (hfeed : a.isFeed = false) (hwrite : ∀ data, a ≠ .chanWrite k data)
    (hsend : ∀ env buflen, a = .sendNext env buflen → (c.chanPool k).type = netchanReliable) :
    SendKept k c.toCore (c.step a).toCore := by
  cases a with
  | connect env addr =>
    simp only [step, netchanConnect]
    split_ifs <;> simp [ctrlConnectInit, HalfKept.refl hk]
  | accept =>
    simp only [step, netchanAccept]
    split_ifs <;> simp [ctrlConnectAccept, HalfKept.refl hk]
  | feed env pkt src => cases hfeed
  | sendNext env buflen => exact (netchanSendNext_kept env h hk buflen).2 (hsend env buflen rfl)
  | service env now => exact (netchanService_kept env hk now).2
  | chanOpen type dir contentType => exact (netchanChanOpen_kept hk type dir contentType).2
  | chanClose k₀ =>
    simp only [step]
    split_ifs
    · exact (netchanChanClose_kept hk k₀).2
    · exact HalfKept.refl hk
  | chanWrite k₀ data =>
    simp only [step]
    split_ifs with hk0
    · refine chanWrite_sendKept h.inv hk0 hk ?_ data
      rintro rfl
      exact hwrite data rfl
    · exact HalfKept.refl hk
  | chanRead k₀ buflen =>
    simp only [step]
    split_ifs
    · exact chanRead_sendKept hk buflen
    · exact HalfKept.refl hk
  | poll =>
    simp only [step, netchanPoll]
    split_ifs <;> exact HalfKept.refl hk

/-! ## Frames -/

/-- An operation on channel record `k₀` that leaves one half of it alone. -/
structure HalfOp {H : Type} (half : Chan → H) (slots : Slot → Bool) (marks : Mark → Bool)
    (k₀ : Nat) (s s' : Core) : Prop where
  touch : Core.Touch k₀ s s'
  keeps : Core.Keeps (fun j y => j ≠ k₀ ∨ slots y = true) s s'
  half : half (s'.chanPool k₀) = half (s.chanPool k₀)
  log : ∃ ms, s'.log = s.log ++ ms ∧ ∀ m ∈ ms, marks m = false

/-- An operation on the receiving half. -/
abbrev RecvOp : Nat → Core → Core → Prop := HalfOp Chan.sendHalf Slot.isOut Mark.isWrite

/-- An operation on the sending half. -/
abbrev SendOp : Nat → Core → Core → Prop :=
  HalfOp Chan.recvHalf (fun y => !y.isOut) Mark.isRecv

namespace HalfOp

variable {H : Type} {half : Chan → H} {slots : Slot → Bool} {marks : Mark → Bool}
variable {k k₀ : Nat} {s s' s'' : Core}

theorem refl (k₀ : Nat) (s : Core) : HalfOp half slots marks k₀ s s :=
  ⟨Core.Touch.refl k₀ s, Core.Keeps.refl _ _, rfl, [], by simp, by simp⟩

theorem trans (h : HalfOp half slots marks k₀ s s') (h' : HalfOp half slots marks k₀ s' s'') :
    HalfOp half slots marks k₀ s s'' := by
  obtain ⟨ms, hlog, hms⟩ := h.log
  obtain ⟨ms', hlog', hms'⟩ := h'.log
  refine ⟨h.touch.trans h'.touch, h.keeps.trans h'.keeps, h'.half.trans h.half,
    ms ++ ms', by rw [hlog', hlog, List.append_assoc], fun m hm => ?_⟩
  rcases List.mem_append.1 hm with hm | hm
  · exact hms m hm
  · exact hms' m hm

theorem kept (h : HalfOp half slots marks k₀ s s') (hk : s.chanUsed k = true) :
    HalfKept half slots marks k s s' :=
  HalfKept.of_other_half h.touch h.keeps h.half h.log hk

theorem kept_other {H' : Type} {half' : Chan → H'} {slots' : Slot → Bool}
    {marks' : Mark → Bool} (h : HalfOp half slots marks k₀ s s') (hk : s.chanUsed k = true)
    (hne : k ≠ k₀) : HalfKept half' slots' marks' k s s' :=
  HalfKept.of_touch h.touch (h.keeps.mono fun _ _ hj => Or.inl hj) hk hne

end HalfOp

/-! ### Data -/

theorem chanRecvEnqueue_op {s : Core} {k : Nat} (h : s.Inv) (hk : s.chanUsed k = true)
    (data : List UInt8) : RecvOp k s (chanRecvEnqueue s k data).1 := by
  refine ⟨chanRecvEnqueue_touch s k data, (chanRecvEnqueue_keeps h hk data).mono ?_, ?_, ?_⟩
  · rintro j y hy ⟨rfl, rfl⟩
    simp [Slot.isOut] at hy
  · rw [chanRecvEnqueue_chan]
    split_ifs <;> rfl
  · rw [chanRecvEnqueue_fst]
    split_ifs
    · exact ⟨[_], rfl, by simp [Mark.isWrite]⟩
    · exact ⟨[_], rfl, by simp [Mark.isWrite]⟩

theorem bumpRecvSeq_op (s : Core) (k : Nat) : RecvOp k s (bumpRecvSeq s k) := by
  refine ⟨bumpRecvSeq_touch s k, bumpRecvSeq_keeps _ s k, ?_, [_], rfl, by simp [Mark.isWrite]⟩
  simp [bumpRecvSeq, Core.modChan, Core.mark, Chan.sendHalf]

theorem reorderRelease_op (s : Core) (k : Nat) {slot : Nat} (hslot : slot < 64) :
    RecvOp k s (reorderRelease s k slot) := by
  refine ⟨reorderRelease_touch s k slot, (reorderRelease_keeps s k hslot).mono ?_, ?_, [], ?_,
    by simp⟩
  · rintro j y hy ⟨rfl, rfl⟩
    simp [Slot.isOut] at hy
  · simp [reorderRelease_eq, Core.modChan, poolPut_chanPool, Chan.reordered, Chan.sendHalf]
  · simp [reorderRelease_eq, Core.modChan, poolPut_log]

theorem reorderStore_op {s : Core} {k : Nat} (h : s.Inv) (seq : UInt16) {data : List UInt8}
    (hlen : data.length ≤ ncMaxMsg) : RecvOp k s (reorderStore s k seq data) := by
  refine ⟨reorderStore_touch s k seq data, (reorderStore_keeps h seq hlen).mono ?_, ?_, [], ?_,
    by simp⟩
  · rintro j y hy ⟨rfl, rfl⟩
    simp [Slot.isOut] at hy
  · rw [reorderStore_eq]
    split_ifs <;> simp [Core.takeInto, Chan.reordered, Chan.sendHalf]
  · rw [reorderStore_eq]
    split_ifs <;> simp [Core.takeInto]

theorem deliverCore_op {s : Core} {k : Nat} (h : s.Inv) (hk : s.chanUsed k = true) :
    RecvOp k s (deliverCore s k) := by
  simp only [deliverCore]
  exact ((chanRecvEnqueue_op h hk _).trans
    (reorderRelease_op _ k (Nat.mod_lt _ (by decide)))).trans (bumpRecvSeq_op _ k)

theorem deliverLoop_op (fuel : Nat) {k : Nat} (h : c.toCore.Inv) (hk : c.chanUsed k = true) :
    RecvOp k c.toCore (deliverLoop fuel c k).toCore :=
  deliverLoop_tables (fun _ hinv hk _ h => h.trans (deliverCore_op hinv hk)) fuel h hk
    (HalfOp.refl k _)

theorem deliverReliable_op {k : Nat} (h : c.toCore.Inv) (hk : c.chanUsed k = true)
    (hd : deliverable (c.chanPool k) = false) (seq : UInt16) (data : List UInt8) :
    RecvOp k c.toCore (deliverReliable c k seq data).toCore := by
  simp only [deliverReliable]
  split_ifs with hseq hcond
  · have hop := (chanRecvEnqueue_op h hk data).trans (bumpRecvSeq_op _ k)
    have hcore : (Conn.lift (evPush (c.lift fun s => (chanRecvEnqueue s k data).1) .data (some k))
        fun s => bumpRecvSeq s k).toCore =
        bumpRecvSeq (chanRecvEnqueue c.toCore k data).1 k := by simp
    have hrest := deliverLoop_op ncReorderSlots (k := k)
      (hcore ▸ bumpRecvSeq_enqueue_inv h hk hd data) (by rw [hcore]; exact hop.touch.used hk)
    rw [hcore] at hrest
    exact hop.trans hrest
  · exact reorderStore_op h seq hcond.2.2.2
  · exact HalfOp.refl k _

theorem fragFree_op (s : Core) (k : Nat) {i : Nat} (hi : i < 4) : RecvOp k s (fragFree s k i) := by
  refine ⟨fragFree_touch s k i, (fragFree_keeps s k hi).mono ?_, ?_, [], ?_, by simp⟩
  · rintro j y hy ⟨rfl, rfl⟩
    simp [Slot.isOut] at hy
  · rw [fragFree_chan]
    rfl
  · simp [fragFree_eq, Core.modChan, poolPut_log]

theorem setNeedAck_op (s : Core) (k : Nat) : RecvOp k s (setNeedAck s k) := by
  refine ⟨setNeedAck_touch s k, setNeedAck_keeps _ s k, ?_, [], by simp [setNeedAck, Core.modChan],
    by simp⟩
  simp [setNeedAck, Core.modChan, Chan.sendHalf]

theorem fragReceive_log (s : Core) (k : Nat) (seq : UInt16) (fragIdx fragTotal : Nat)
    (payload : List UInt8) :
    ∃ ms, (fragReceive s k seq fragIdx fragTotal payload).1.log = s.log ++ ms ∧
      ∀ m ∈ ms, ∃ buf addr len, m = .fragWrite k buf addr len := by
  have hslot : (fragSlot s k seq fragTotal).1.log = s.log := by
    unfold fragSlot
    split
    · rfl
    · rcases fragAlloc_cases s k seq fragTotal with heq | ⟨i, -, -, -, -, heq⟩
      · rw [heq]
      · rw [heq]
        rfl
  rcases fragReceive_cases s k seq fragIdx fragTotal payload with heq | ⟨i, -, -, heq⟩
  · exact ⟨[], by rw [heq, List.append_nil]; exact hslot, by simp⟩
  · rw [heq]
    generalize (fragSlot s k seq fragTotal).1 = s1 at hslot
    have hstore : ∃ addr, (fragStore s1 k i fragIdx payload).log =
        s.log ++ [.fragWrite k ((s1.chanPool k).frags i).buf addr payload.length] :=
      ⟨_, by rw [← hslot]; rfl⟩
    obtain ⟨addr, hstore⟩ := hstore
    simp only [fragTail]
    split_ifs
    · obtain ⟨store, log, hcomp, ms, hms, hfw⟩ := compactLoop_chanPool k
        (((fragStore s1 k i fragIdx payload).chanPool k).frags i)
        (maxFragPayload (fragStore s1 k i fragIdx payload).cfg)
        (List.range (((fragStore s1 k i fragIdx payload).chanPool k).frags i).total)
        (fragStore s1 k i fragIdx payload) 0
      refine ⟨_ :: ms, by rw [hcomp]; exact hms.trans (by rw [hstore, List.append_assoc]; rfl), ?_⟩
      intro m hm
      rcases List.mem_cons.1 hm with rfl | hm
      · exact ⟨_, _, _, rfl⟩
      · exact hfw m hm
    · exact ⟨_, hstore, by simp⟩

theorem fragReceive_op {s : Core} {k : Nat} (h : s.Inv) (hk : s.chanUsed k = true)
    (seq : UInt16) (fragIdx : Nat) {fragTotal : Nat} (htotal : 1 < fragTotal)
    {payload : List UInt8} (hfits : FragFits s k seq fragIdx payload.length) :
    RecvOp k s (fragReceive s k seq fragIdx fragTotal payload).1 := by
  obtain ⟨i, hkeep, -⟩ := (fragReceive_tame_iff h hk seq fragIdx htotal payload).2 hfits
  refine ⟨(fragReceive_spec h hk seq fragIdx htotal payload).2.1, hkeep.mono ?_, ?_, ?_⟩
  · rintro j y hy ⟨rfl, rfl⟩
    simp [Slot.isOut] at hy
  · obtain ⟨frags, hfrags⟩ := fragReceive_chan s k seq fragIdx fragTotal payload
    rw [hfrags]
    rfl
  · obtain ⟨ms, hms, hfw⟩ := fragReceive_log s k seq fragIdx fragTotal payload
    refine ⟨ms, hms, fun m hm => ?_⟩
    obtain ⟨buf, addr, len, rfl⟩ := hfw m hm
    rfl

theorem acceptDataUnreliable_op {k : Nat} (h : c.toCore.Good) (hk : c.chanUsed k = true)
    (seq : UInt16) (fragIdx fragTotal : Nat) (payload : List UInt8)
    (hfits : 1 < fragTotal → FragFits c.toCore k seq fragIdx payload.length) :
    RecvOp k c.toCore (acceptDataUnreliable c k seq fragIdx fragTotal payload).toCore := by
  unfold acceptDataUnreliable
  split_ifs with htotal
  · rw [evPush_toCore, Conn.lift_toCore]
    exact chanRecvEnqueue_op h.inv hk payload
  · have hgt := Nat.not_le.1 htotal
    obtain ⟨h1, ht1, hsome⟩ := fragReceive_spec h.inv hk seq fragIdx hgt payload
    have hop := fragReceive_op h.inv hk seq fragIdx hgt (hfits hgt)
    generalize fragReceive c.toCore k seq fragIdx fragTotal payload = res at *
    obtain ⟨s, _ | ⟨i, pos⟩⟩ := res
    · exact hop
    · rw [Conn.lift_toCore, evPush_toCore]
      exact (hop.trans (chanRecvEnqueue_op h1 (ht1.used hk) _)).trans
        (fragFree_op _ k (hsome i pos rfl).1)

theorem acceptDataReliable_op {k : Nat} (h : c.toCore.Good) (hk : c.chanUsed k = true)
    (seq : UInt16) (fragIdx fragTotal : Nat) (payload : List UInt8)
    (hfits : 1 < fragTotal → FragFits c.toCore k seq fragIdx payload.length) :
    RecvOp k c.toCore (acceptDataReliable c k seq fragIdx fragTotal payload).toCore := by
  have hd := (h.settled k hk).drained
  simp only [acceptDataReliable, Conn.lift_toCore]
  split_ifs with htotal
  · exact (deliverReliable_op h.inv hk hd seq payload).trans (setNeedAck_op _ k)
  · have hgt := Nat.not_le.1 htotal
    obtain ⟨h1, ht1, hsome⟩ := fragReceive_spec h.inv hk seq fragIdx hgt payload
    have hs1 := fragReceive_settled (h.settled k hk) seq fragIdx fragTotal payload
    have hop := fragReceive_op h.inv hk seq fragIdx hgt (hfits hgt)
    generalize fragReceive c.toCore k seq fragIdx fragTotal payload = res at *
    obtain ⟨s, _ | ⟨i, pos⟩⟩ := res
    · exact hop.trans (setNeedAck_op _ k)
    · rw [Conn.lift_toCore]
      exact ((hop.trans (deliverReliable_op (c := { c with toCore := s }) h1 (ht1.used hk)
        hs1.drained seq _)).trans (fragFree_op _ k (hsome i pos rfl).1)).trans
        (setNeedAck_op _ k)

theorem data_op (h : c.toCore.Good) {d : DataFrame} (hfits : DataFits c d) :
    (c.data d).toCore = c.toCore ∨
      ∃ k, c.channels d.id = some k ∧ RecvOp k c.toCore (c.data d).toCore := by
  unfold Conn.data acceptData
  cases hid : c.channels d.id with
  | none => exact Or.inl rfl
  | some k =>
    obtain ⟨-, hk, -⟩ := h.inv.table _ k hid
    dsimp only
    split_ifs with hrole
    · exact Or.inl rfl
    · exact Or.inr ⟨k, rfl, acceptDataUnreliable_op h hk _ _ _ _
        (hfits k hid (not_not.1 hrole))⟩
    · exact Or.inr ⟨k, rfl, acceptDataReliable_op h hk _ _ _ _
        (hfits k hid (not_not.1 hrole))⟩

/-! ### Acknowledgements -/

theorem ackSlot_op {s : Core} {k : Nat} (ackedSeq : UInt16) (i : Nat) :
    SendOp k s (ackSlot k ackedSeq s i) := by
  simp only [ackSlot]
  split_ifs
  · have ht := (Core.Touch.poolPut k s ((s.chanPool k).outgoing i).buf).trans
      (Core.Touch.modChan _ k (f := fun ch =>
        { ch with
          bytesInFlight := ch.bytesInFlight - UInt32.ofNat ((s.chanPool k).outgoing i).len
          msgsAcked := ch.msgsAcked + 1
          outgoing := Function.update ch.outgoing i
            { (s.chanPool k).outgoing i with buf := none, active := false } })
        ⟨rfl, rfl, rfl, rfl, rfl⟩)
    refine ⟨ht, (Core.Keeps.poolPut _ s _).trans (Core.Keeps.modChan _ k fun x hx => ?_), ?_, [],
      by simp [Core.modChan, poolPut_log], by simp⟩
    · cases x with
      | outgoing j => simp [Slot.isOut] at hx
      | _ => rfl
    · simp [Core.modChan, poolPut_chanPool, Chan.recvHalf]
  · exact HalfOp.refl k s

theorem foldl_ackSlot_op {k : Nat} (ackedSeq : UInt16) (is : List Nat) (s : Core) :
    SendOp k s (is.foldl (ackSlot k ackedSeq) s) := by
  induction is generalizing s with
  | nil => exact HalfOp.refl k s
  | cons i is ih => exact (ackSlot_op ackedSeq i).trans (ih _)

theorem advanceHead_op {s : Core} {k : Nat} (h : s.Inv) (hk : s.chanUsed k = true) :
    SendOp k s (advanceHead s k) := by
  obtain ⟨head, heq, -⟩ := advanceHeadLoop_spec ncOutgoingSlots (s.chanPool k) (h.chans k hk).out
  have ht : Core.Touch k s (advanceHead s k) := by
    refine Core.Touch.modChan s k ?_
    rw [heq]
    exact ⟨rfl, rfl, rfl, rfl, rfl⟩
  refine ⟨ht, Core.Keeps.modChan s k fun x hx => ?_, ?_, [], by simp [advanceHead, Core.modChan],
    by simp⟩
  · rw [heq]
    cases x with
    | outgoing j => simp [Slot.isOut] at hx
    | _ => rfl
  · simp [advanceHead, Core.modChan, heq, Chan.recvHalf]

theorem acceptAck_op (h : c.toCore.Good) (id : UInt8) (seq : UInt16) :
    (acceptAck c id seq).toCore = c.toCore ∨
      ∃ k, c.channels id = some k ∧ SendOp k c.toCore (acceptAck c id seq).toCore := by
  unfold acceptAck
  cases hid : c.channels id with
  | none => exact Or.inl rfl
  | some k =>
    obtain ⟨-, hk, -⟩ := h.inv.table id k hid
    dsimp only
    split_ifs
    · exact Or.inl rfl
    · obtain ⟨h1, ht1⟩ := foldl_ackSlot_spec seq (List.range ncOutgoingSlots)
        (fun i hi => List.mem_range.1 hi) h hk
      exact Or.inr ⟨k, rfl, (foldl_ackSlot_op seq _ _).trans
        (advanceHead_op h1.inv (ht1.used hk))⟩

/-! ### Every frame -/

/-- The frame as a data frame. -/
def Frame.toData? : Frame → Option DataFrame
  | data id seq fragIdx fragTotal payload => some ⟨id, seq, fragIdx, fragTotal, payload⟩
  | _ => none

def Frame.isAck : Frame → Bool
  | ack _ _ => true
  | _ => false

theorem Frame.apply_kept (env : Env) (now : UInt32) {k : Nat} (hk : c.chanUsed k = true) {f : Frame}
    (hdata : f.toData? = none) (hack : f.isAck = false) :
    RecvKept k c.toCore (f.apply env now c).toCore ∧
      SendKept k c.toCore (f.apply env now c).toCore := by
  have hrefl : RecvKept k c.toCore c.toCore ∧ SendKept k c.toCore c.toCore :=
    ⟨HalfKept.refl hk, HalfKept.refl hk⟩
  cases f with
  | connectInit clientId version =>
    simp only [apply, acceptConnectInit]
    split_ifs <;> exact hrefl
  | connectAccept serverId version idle =>
    rw [apply, acceptConnectAccept, evPush_toCore]
    exact hrefl
  | connectRedirect newId addr =>
    rw [apply, evPushRedirect, evStore_toCore]
    exact hrefl
  | disconnect reason =>
    rw [apply, evPush_toCore]
    exact hrefl
  | ping opaqueId =>
    rw [apply, ctrlPong, ctrlReserve_toCore]
    exact hrefl
  | pong opaqueId =>
    simp only [apply, acceptPong]
    split_ifs <;> exact hrefl
  | channelOpen id type dir ct =>
    have hr : ∀ role, RecvKept k c.toCore
        (chanNew c.toCore id type.toNat dir.toNat role (some (ct.take 63))).1 :=
      fun role => HalfKept.chanNew hk _ _ _ role _
    have hs : ∀ role, SendKept k c.toCore
        (chanNew c.toCore id type.toNat dir.toNat role (some (ct.take 63))).1 :=
      fun role => HalfKept.chanNew hk _ _ _ role _
    simp only [apply, acceptChannelOpen]
    split_ifs
    · simpa [ctrlChannelClose] using hrefl
    all_goals
      rcases hnew : chanNew c.toCore id type.toNat dir.toNat _ (some (ct.take 63)) with
        ⟨s, _ | k₀⟩
      · simpa [ctrlChannelClose] using hrefl
      · have hr' := hnew ▸ hr _
        have hs' := hnew ▸ hs _
        simp [ctrlWindowUpdate]
        exact ⟨hr'.trans (RecvKept.setState hr'.used _),
          hs'.trans (SendKept.setState hs'.used _)⟩
  | channelClose id error =>
    simp only [apply, acceptChannelClose]
    split
    · exact hrefl
    · rw [evPush_toCore, Conn.lift_toCore]
      exact ⟨RecvKept.setState hk _, SendKept.setState hk _⟩
  | data id seq fragIdx fragTotal payload => cases hdata
  | ack id seq => cases hack
  | windowUpdate id window =>
    simp only [apply, acceptWindowUpdate]
    split
    · exact hrefl
    · split_ifs
      · rw [Conn.lift_toCore]
        exact ⟨RecvKept.of_modChan (Core.Touch.modChan _ _ ⟨rfl, rfl, rfl, rfl, rfl⟩) rfl hk,
          SendKept.of_modChan (Core.Touch.modChan _ _ ⟨rfl, rfl, rfl, rfl, rfl⟩) rfl hk⟩
      · exact hrefl

end MechanicalResearcher.NetchanV2
