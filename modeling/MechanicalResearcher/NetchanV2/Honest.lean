import MechanicalResearcher.NetchanV2.Framing

/-!
# Connections that talk to connections

When both sides run this code, the frames a side gets are the frames the other
side sent, and more holds of its tables than against an arbitrary peer.
`Conn.Honest` collects it; it is kept by every call and every frame as long as
packets end between control frames.
-/

namespace MechanicalResearcher.NetchanV2

open Lib.Serial Lib.Runs Lib.Network

structure Conn.Honest (fp : Nat) (c : Conn) : Prop where
  good : c.toCore.Good
  tally : c.toCore.Tally
  size : maxFragPayload c.cfg = fp
  sliced : c.toCore.Sliced
  small : ∀ k, c.chanUsed k = true → (c.chanPool k).SmallFrags fp
  window : ∀ k, c.chanUsed k = true → (c.chanPool k).recvWindow = c.cfg.chanWindow
  ctrl : ∃ gs, CtrlFrames c.ctrlBuf gs ∧ ∀ g ∈ gs, g.Offers c.cfg.chanWindow

theorem RecvKept.small {k fp : Nat} {s s' : Core} (h : RecvKept k s s')
    (hs : (s.chanPool k).SmallFrags fp) : (s'.chanPool k).SmallFrags fp := by
  have hhalf := h.half
  simp only [Chan.recvHalf, RecvHalf.mk.injEq] at hhalf
  exact hs.congr hhalf.2.2.2.2.2.2

section Small

variable {fp k : Nat} {s s' : Core}

theorem small_kept (h : ∀ k, s.chanUsed k = true → (s.chanPool k).SmallFrags fp)
    (hs : Core.Steady s s') (hkept : ∀ k, s.chanUsed k = true → RecvKept k s s') (j : Nat)
    (hj : s'.chanUsed j = true) : (s'.chanPool j).SmallFrags fp := by
  rw [hs.chanUsed] at hj
  exact (hkept j hj).small (h j hj)

theorem small_opens (h : ∀ k, s.chanUsed k = true → (s.chanPool k).SmallFrags fp)
    (ho : Core.Opens s s') (j : Nat) (hj : s'.chanUsed j = true) :
    (s'.chanPool j).SmallFrags fp := by
  obtain ⟨k, ch, -, -, ⟨id, type, dir, role, ct, state, rfl⟩, rfl⟩ := ho
  by_cases hjk : j = k
  · subst hjk
    intro i t ht
    simp [Core.addChan, Chan.fresh, Chan.zero, FragAsm.zero] at ht
  · simp only [Core.addChan, Function.update_of_ne hjk] at hj ⊢
    exact h j hj

theorem small_touch (h : ∀ k, s.chanUsed k = true → (s.chanPool k).SmallFrags fp)
    (ht : Core.Touch k s s') (hk : (s'.chanPool k).SmallFrags fp) (j : Nat)
    (hj : s'.chanUsed j = true) : (s'.chanPool j).SmallFrags fp := by
  rw [ht.chanUsed] at hj
  by_cases hjk : j = k
  · rw [hjk]
    exact hk
  · rw [ht.other j hjk]
    exact h j hj

theorem window_step (h : ∀ k, s.chanUsed k = true → (s.chanPool k).recvWindow = s.cfg.chanWindow)
    (hs : Core.Steady s s' ∨ Core.Opens s s') (j : Nat) (hj : s'.chanUsed j = true) :
    (s'.chanPool j).recvWindow = s'.cfg.chanWindow := by
  rcases hs with hs | ⟨k, ch, -, -, ⟨id, type, dir, role, ct, state, rfl⟩, rfl⟩
  · have hident := hs.ident j
    simp only [Chan.ident, ChanIdent.mk.injEq] at hident
    rw [hident.2.2.2, hs.cfg]
    exact h j (hs.chanUsed ▸ hj)
  · by_cases hjk : j = k
    · subst hjk
      simp [Core.addChan, Chan.fresh]
    · simp only [Core.addChan, Function.update_of_ne hjk] at hj ⊢
      exact h j hj

end Small

theorem chanRead_small {fp k : Nat} {s : Core} (h : (s.chanPool k).SmallFrags fp)
    (buflen : Nat) : ((chanRead s k buflen).1.chanPool k).SmallFrags fp := by
  rcases chanRead_cases s k buflen with ⟨r, heq⟩ | ⟨-, -, e, data, -, -, heq⟩
  · rwa [heq]
  · rw [heq]
    refine h.congr ?_
    simp [Core.mark, Core.modChan, poolPut_chanPool, Chan.dequeued]

/-- The frame of a data frame's fields. -/
def DataFrame.frame (d : DataFrame) : Frame := .data d.id d.seq d.fragIdx d.fragTotal d.payload

theorem Frame.sort (f : Frame) :
    (∃ d : DataFrame, f = d.frame) ∨ (∃ id seq, f = .ack id seq) ∨
      (f.toData? = none ∧ f.isAck = false) := by
  cases f with
  | data id seq fragIdx fragTotal payload =>
    exact Or.inl ⟨⟨id, seq, fragIdx, fragTotal, payload⟩, rfl⟩
  | ack id seq => exact Or.inr (Or.inl ⟨id, seq, rfl⟩)
  | _ => exact Or.inr (Or.inr ⟨rfl, rfl⟩)

theorem acceptAck_recvKept {c : Conn} {k : Nat} (h : c.toCore.Good) (hk : c.chanUsed k = true)
    (id : UInt8) (seq : UInt16) : RecvKept k c.toCore (acceptAck c id seq).toCore := by
  rcases acceptAck_op h id seq with heq | ⟨k₀, -, hop⟩
  · rw [heq]
    exact HalfKept.refl hk
  · exact hop.kept hk

section Small

variable {fp : Nat} {c : Conn}

theorem dataFits_of_small (hgood : c.toCore.Good)
    (h : ∀ k, c.chanUsed k = true → (c.chanPool k).SmallFrags (maxFragPayload c.cfg))
    {d : DataFrame} (hlen : d.payload.length ≤ maxFragPayload c.cfg) : DataFits c d := by
  intro k hid _ _
  have hk := (hgood.inv.table d.id k hid).2.1
  exact fragFits_of_small hgood.inv hk (h k hk) d.seq d.fragIdx.toNat hlen

theorem Conn.data_small (hgood : c.toCore.Good)
    (h : ∀ k, c.chanUsed k = true → (c.chanPool k).SmallFrags fp) {d : DataFrame}
    (hlen : d.payload.length ≤ fp) (j : Nat) (hj : (c.data d).chanUsed j = true) :
    ((c.data d).chanPool j).SmallFrags fp := by
  rcases acceptData_touch hgood d.id d.seq d.fragIdx.toNat d.fragTotal.toNat d.payload with
    heq | ⟨k, hid, ht⟩
  · have hcore : (c.data d).toCore = c.toCore := heq
    rw [hcore] at hj ⊢
    exact h j hj
  · have hk := (hgood.inv.table d.id k hid).2.1
    refine small_touch h ht ?_ j hj
    simp only [acceptData, hid]
    split_ifs
    · exact h k hk
    · exact acceptDataUnreliable_small hgood hk (h k hk) _ _ _ hlen
    · exact acceptDataReliable_small hgood hk (h k hk) _ _ _ hlen

theorem Frame.apply_small (hgood : c.toCore.Good)
    (h : ∀ k, c.chanUsed k = true → (c.chanPool k).SmallFrags fp) (env : Env) (now : UInt32)
    {f : Frame} (hf : ∀ d, f.toData? = some d → d.payload.length ≤ fp) (j : Nat)
    (hj : (f.apply env now c).chanUsed j = true) :
    ((f.apply env now c).chanPool j).SmallFrags fp := by
  rcases f.apply_table env now hgood with hs | ho
  · rcases f.sort with ⟨d, rfl⟩ | ⟨id, seq, rfl⟩ | ⟨hd, hack⟩
    · exact Conn.data_small hgood h (hf d rfl) j hj
    · refine small_kept h hs (fun k hk => ?_) j hj
      exact acceptAck_recvKept hgood hk id seq
    · exact small_kept h hs (fun k hk => (Frame.apply_kept env now hk hd hack).1) j hj
  · exact small_opens h ho j hj

theorem Conn.step_small (hgood : c.toCore.Good)
    (h : ∀ k, c.chanUsed k = true → (c.chanPool k).SmallFrags fp) {a : Act}
    (hfeed : a.isFeed = false) (j : Nat) (hj : (c.step a).chanUsed j = true) :
    ((c.step a).chanPool j).SmallFrags fp := by
  rcases Conn.step_table hgood hfeed with hs | ho
  · by_cases hread : ∃ k buflen, a = .chanRead k buflen
    · obtain ⟨k, buflen, rfl⟩ := hread
      simp only [step] at hj ⊢
      split_ifs at hj ⊢ with hk
      · exact small_touch h (chanRead_touch c.toCore k buflen)
          (chanRead_small (h k hk) buflen) j hj
      · exact h j hj
    · exact small_kept h hs (fun k hk => Conn.step_recvKept hgood hk hfeed
        fun buflen e => hread ⟨k, buflen, e⟩) j hj
  · exact small_opens h ho j hj

end Small

namespace Conn.Honest

variable {fp : Nat} {c : Conn}

theorem start (server : Bool) (cfg : Cfg) :
    (netchanOpen server cfg).Honest (maxFragPayload cfg) := by
  refine ⟨netchanOpen_good server cfg, (reachable_open server cfg).tally, rfl, ?_, ?_, ?_, [], ⟨rfl,
    by simp⟩, by simp⟩
  · exact fun k hk => by cases hk
  · exact fun k hk => by cases hk
  · exact fun k hk => by cases hk

theorem dataFits (h : c.Honest fp) {d : DataFrame} (hlen : d.payload.length ≤ fp) :
    DataFits c d :=
  dataFits_of_small h.good (h.size ▸ h.small) (h.size ▸ hlen)

theorem frame (h : c.Honest fp) (env : Env) (now : UInt32) {f : Frame}
    (hf : ∀ d, f.toData? = some d → d.payload.length ≤ fp) : (f.apply env now c).Honest fp := by
  obtain ⟨gs, hgs, hoffers⟩ := h.ctrl
  have hgrow := f.apply_grows env now h.good
  have hqueues := (f.apply_queues env now c).mono fun _ hg => hg.2
  exact ⟨f.apply_good env now h.good, f.apply_tally env now h.good h.tally,
    by rw [hgrow.cfg, h.size], f.apply_sliced env now h.good h.sliced,
    Frame.apply_small h.good h.small env now hf,
    window_step h.window (f.apply_table env now h.good),
    hgrow.cfg.symm ▸ hqueues.frames hgs hoffers⟩

theorem call (h : c.Honest fp) (hfp : 64 ≤ fp) {a : Act} (hfeed : a.isFeed = false)
    (hwhole : ∀ env buflen, a = .sendNext env buflen → CtrlWhole c buflen) :
    (c.step a).Honest fp := by
  obtain ⟨gs, hgs, hoffers⟩ := h.ctrl
  have hgrow := Conn.step_grows h.good a
  refine ⟨Conn.step_good h.good a, Conn.step_tally h.good h.tally a, by rw [hgrow.cfg, h.size],
    ?_, Conn.step_small h.good h.small hfeed, window_step h.window (Conn.step_table h.good hfeed),
    ?_⟩
  · exact Conn.step_sliced h.good h.sliced (by rw [h.size]; omega) hfeed
  · rw [hgrow.cfg]
    by_cases hsend : ∃ env buflen, a = .sendNext env buflen
    · obtain ⟨env, buflen, rfl⟩ := hsend
      exact (netchanSendNext_packet env h.good h.sliced h.window (hwhole env buflen rfl) hgs
        hoffers).2.1
    · exact (Conn.step_queues c hfeed fun env buflen e => hsend ⟨env, buflen, e⟩).frames hgs
        hoffers

end Conn.Honest

end MechanicalResearcher.NetchanV2
