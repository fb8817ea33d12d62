import MechanicalResearcher.Lib.Network
import MechanicalResearcher.NetchanV2.Packets

/-!
# A client, a server and the network between them

The joint system: side `false` is a client, side `true` a server, and packets
are lost, duplicated and reordered at will.  What the tables of one side can
become is `Core.Grows`; the handshake results at the end are about joint states
in which a CONNECT_ACCEPT was lost.
-/

namespace MechanicalResearcher.NetchanV2

open Lib.BigEndian Lib.Runs Lib.Network

/-- A packet in flight.  `sent` and `got` are history: how many messages its sender had
written and consumed on each channel when the packet was built. -/
structure Flight where
  pkt : List UInt8
  sent : UInt8 → Nat
  got : UInt8 → Nat

/-- The messages written to channel `id`. -/
def Core.sentOn (s : Core) (id : UInt8) : List (List UInt8) :=
  match s.channels id with
  | none => []
  | some k => writes k s.log

/-- How many messages of channel `id` were consumed. -/
def Core.gotOn (s : Core) (id : UInt8) : Nat :=
  match s.channels id with
  | none => 0
  | some k => advances k s.log

/-- The messages read from channel `id`. -/
def Core.readOn (s : Core) (id : UInt8) : List (List UInt8) :=
  match s.channels id with
  | none => []
  | some k => reads k s.log

/-- The packets a call sends. -/
def Conn.emits (c : Conn) : Act → List Flight
  | .sendNext env buflen =>
    match (netchanSendNext env c buflen).2 with
    | none => []
    | some (pkt, _) => [⟨pkt, fun id => (c.sentOn id).length, c.gotOn⟩]
  | _ => []

def netchan : Endpoint Conn Act (Env × Option Addr) Flight where
  call c a := (c.step a, c.emits a)
  hear c e p := c.step (.feed e.1 p.pkt e.2)

abbrev Joint := Net Conn Flight

def Joint.start (cfg : Bool → Cfg) : Joint := ⟨fun s => netchanOpen s (cfg s), fun _ => []⟩

/-- What is fed to a side was sent by the other one. -/
def Joint.Ok (_ : Joint) : Move Act (Env × Option Addr) → Prop
  | .call _ a => a.isFeed = false
  | _ => True

def Joint.Reachable : Joint → Prop :=
  Reach (fun net => ∃ cfg, net = Joint.start cfg) Joint.Ok (Net.step netchan)

/-- The move is a call that feeds no packet of its own, or a move of the network. -/
def isPlain : Move Act (Env × Option Addr) → Bool
  | .call _ a => !a.isFeed
  | _ => true

theorem Joint.reachable_run (cfg : Bool → Cfg) (ms : List (Move Act (Env × Option Addr)))
    (h : ms.all isPlain = true) : Joint.Reachable (Net.run netchan (Joint.start cfg) ms) := by
  have hok : ∀ (net : Joint) m, isPlain m = true → net.Ok m := by
    intro net m hm
    cases m with
    | call side a => exact (Bool.not_eq_true' a.isFeed).mp hm
    | deliver side n e => trivial
    | drop side n => trivial
  have hguard : ∀ (ms : List (Move Act (Env × Option Addr))) (net : Joint),
      ms.all isPlain = true → Guarded Joint.Ok (Net.step netchan) net ms := by
    intro ms
    induction ms with
    | nil => exact fun _ _ => trivial
    | cons m ms ih =>
      intro net hms
      rw [List.all_cons, Bool.and_eq_true] at hms
      exact ⟨hok net m hms.1, ih _ hms.2⟩
  exact Reach.run (.start ⟨cfg, rfl⟩) ms (hguard ms _ h)

/-- The channels of `s` are those of `s'`, and the history of `s` is that of `s'` so far. -/
structure Core.Grows (s s' : Core) : Prop where
  cfg : s'.cfg = s.cfg
  chan : ∀ id k, s.channels id = some k →
    s'.channels id = some k ∧ (s'.chanPool k).ident = (s.chanPool k).ident
  log : ∃ ms, s'.log = s.log ++ ms

namespace Core.Grows

variable {s s' s'' : Core}

theorem refl (s : Core) : Grows s s := ⟨rfl, fun _ _ h => ⟨h, rfl⟩, [], (List.append_nil _).symm⟩

theorem trans (h : Grows s s') (h' : Grows s' s'') : Grows s s'' := by
  refine ⟨h'.cfg.trans h.cfg, fun id k hk => ?_, ?_⟩
  · obtain ⟨hk1, hident1⟩ := h.chan id k hk
    obtain ⟨hk2, hident2⟩ := h'.chan id k hk1
    exact ⟨hk2, hident2.trans hident1⟩
  · obtain ⟨ms, hms⟩ := h.log
    obtain ⟨ms', hms'⟩ := h'.log
    exact ⟨ms ++ ms', by rw [hms', hms, List.append_assoc]⟩

theorem of_steady (h : Core.Steady s s') : Grows s s' := by
  obtain ⟨ms, hms, -⟩ := h.log
  exact ⟨h.cfg, fun id k hk => ⟨by rw [h.channels, hk], h.ident k⟩, ms, hms⟩

theorem of_opens (hinv : s.Inv) (h : Core.Opens s s') : Grows s s' := by
  obtain ⟨k₀, ch, hfree, hid, -, rfl⟩ := h
  refine ⟨rfl, fun id k hk => ?_, [], (List.append_nil _).symm⟩
  obtain ⟨-, hused, -⟩ := hinv.table id k hk
  have hne : k ≠ k₀ := by
    rintro rfl
    rw [hfree] at hused
    cases hused
  have hne' : id ≠ ch.id := by
    rintro rfl
    rw [hid] at hk
    cases hk
  simp [Core.addChan, Function.update_of_ne hne, Function.update_of_ne hne', hk]

theorem gotOn_le (h : Grows s s') (id : UInt8) : s.gotOn id ≤ s'.gotOn id := by
  unfold Core.gotOn
  cases hk : s.channels id with
  | none => exact Nat.zero_le _
  | some k =>
    obtain ⟨ms, hms⟩ := h.log
    rw [(h.chan id k hk).1, hms]
    simp

theorem sentOn_isPrefix (h : Grows s s') (id : UInt8) : s.sentOn id <+: s'.sentOn id := by
  unfold Core.sentOn
  cases hk : s.channels id with
  | none => exact List.nil_prefix
  | some k =>
    obtain ⟨ms, hms⟩ := h.log
    rw [(h.chan id k hk).1, hms]
    simp

end Core.Grows

theorem Frame.apply_grows (env : Env) (now : UInt32) {c : Conn} (h : c.toCore.Good)
    (f : Frame) : Core.Grows c.toCore (f.apply env now c).toCore := by
  rcases f.apply_table env now h with hs | ho
  · exact Core.Grows.of_steady hs
  · exact Core.Grows.of_opens h.inv ho

theorem Conn.step_grows {c : Conn} (h : c.toCore.Good) (a : Act) :
    Core.Grows c.toCore (c.step a).toCore := by
  cases hfeed : a.isFeed with
  | true =>
    cases a with
    | feed env pkt src =>
      have hall : (netchanFeed env c pkt src).1.toCore.Good ∧
          Core.Grows c.toCore (netchanFeed env c pkt src).1.toCore :=
        netchanFeed_induct env c pkt src
          (P := fun c' => c'.toCore.Good ∧ Core.Grows c.toCore c'.toCore) id
          (fun c' fn _ hc => ⟨fn.1.apply_good env _ hc.1,
            hc.2.trans (fn.1.apply_grows env _ hc.1)⟩)
          ⟨h, Core.Grows.refl _⟩
      exact hall.2
    | _ => cases hfeed
  | false =>
    rcases Conn.step_table h hfeed with hs | ho
    · exact Core.Grows.of_steady hs
    · exact Core.Grows.of_opens h.inv ho

theorem Joint.Reachable.side {net : Joint} (h : net.Reachable) (s : Bool) :
    (net.conn s).Reachable := by
  refine Reach.invariant (P := fun net : Joint => ∀ s, (net.conn s).Reachable) ?_ ?_ h s
  · rintro net ⟨cfg, rfl⟩ s
    exact reachable_open s (cfg s)
  · intro net m ih _ s
    have hstep : ∀ t a, (Function.update net.conn t ((net.conn t).step a) s).Reachable := by
      intro t a
      by_cases hs : s = t
      · subst hs
        rw [Function.update_self]
        exact Reach.next (ih s) trivial
      · rw [Function.update_of_ne hs]
        exact ih s
    cases m with
    | call side a => exact hstep side a
    | deliver side n e =>
      simp only [Net.step]
      split
      · exact ih s
      · rename_i p _
        exact hstep (!side) (.feed e.1 p.pkt e.2)
    | drop side n => exact ih s

/-- The client waits for a CONNECT_ACCEPT that is nowhere on its way to it, while the
server is connected to this client. -/
structure Stranded (net : Joint) : Prop where
  client : (net.conn false).state = .connecting
  server : (net.conn true).state = .connected
  peer : (net.conn true).remoteId = (net.conn false).localId
  flight : ∀ p ∈ net.flight true, ∀ fn ∈ frames false (packetFrames p.pkt),
    fn.1.isAccept = false
  queue : ∀ gs, CtrlFrames (net.conn true).ctrlBuf gs → ∀ g ∈ gs, g.isAccept = false

/-- From `c` to `c'` control frames were queued, a CONNECT_ACCEPT among them. -/
def QueuedAccept (c c' : Conn) : Prop :=
  ∃ gs bytes, CtrlFrames bytes gs ∧ c'.ctrlBuf = c.ctrlBuf ++ bytes ∧
    ∃ g ∈ gs, g.isAccept = true

theorem Conn.Queues.not_queuedAccept {c c' : Conn}
    (h : Conn.Queues (fun g => g.isAccept = false) c c') : ¬QueuedAccept c c' := by
  rintro ⟨gs, bytes, hgs, hbuf, g, hg, hacc⟩
  obtain ⟨gs', bytes', hgs', hno, hbuf'⟩ := h
  obtain rfl : bytes = bytes' := List.append_cancel_left (hbuf.symm.trans hbuf')
  have heq : gs.flatMap Frame.encode ++ [] = gs'.flatMap Frame.encode := by
    rw [List.append_nil, ← hgs.1, hgs'.1]
  obtain ⟨rest, rfl, -⟩ :=
    flatMap_encode_split (fun f hf => (hgs.2 f hf).1) (fun f hf => (hgs'.2 f hf).1) heq
  rw [hno g (List.mem_append_left _ hg)] at hacc
  cases hacc

theorem netchanFeed_queues (env : Env) (c : Conn) (pkt : List UInt8) (src : Option Addr) :
    Conn.Queues (fun g => g.isAccept = false) c (netchanFeed env c pkt src).1 :=
  netchanFeed_induct env c pkt src (P := Conn.Queues (fun g => g.isAccept = false) c)
    (fun h => h.trans (Conn.Queues.of_eq rfl))
    (fun c' fn _ hc => hc.trans ((fn.1.apply_queues env _ c').mono fun _ hg => hg.1))
    (Conn.Queues.refl _ c)

theorem netchanFeed_settled (env : Env) {c : Conn} (hserver : c.server = true)
    (hstate : c.state = .connected ∨ c.state = .closed) (pkt : List UInt8) (src : Option Addr) :
    (netchanFeed env c pkt src).1.state = .connected ∨
      (netchanFeed env c pkt src).1.state = .closed := by
  refine netchanFeed_induct env c pkt src
    (P := fun c' => c'.state = .connected ∨ c'.state = .closed) id ?_ hstate
  intro c' fn hfn hc
  have hallowed : fn.1.allowed true = true := by
    unfold fedFrames at hfn
    split_ifs at hfn
    · exact hserver ▸ frames_allowed hfn
    · cases hfn
  cases hcalm : fn.1.calm with
  | true =>
    rw [(fn.1.apply_passive env _ c' hcalm).calm.state]
    exact hc
  | false =>
    generalize fn.1 = f at hallowed hcalm ⊢
    cases f with
    | connectInit clientId version =>
      have hnew : c'.state ≠ .new := by
        rcases hc with hc | hc <;> rw [hc] <;> decide
      simpa [Frame.apply, acceptConnectInit, hnew] using hc
    | connectAccept serverId version idle => cases hallowed
    | disconnect reason =>
      right
      exact (Calm.evPush { c' with state := .closed } (by decide) none).state
    | _ => cases hcalm

theorem netchanFeed_server (env : Env) (c : Conn) (pkt : List UInt8) (src : Option Addr) :
    (netchanFeed env c pkt src).1.server = c.server :=
  netchanFeed_induct env c pkt src (P := fun c' => c'.server = c.server) id
    (fun c' fn _ hc => (fn.1.apply_server env _ c').trans hc) rfl

/-- Whatever the stranded client sends, a further CONNECT_INIT included, the server does not
repeat its CONNECT_ACCEPT, and its application cannot make it do so. -/
theorem accept_not_repeated {net : Joint} (h : Stranded net) (env : Env) (pkt : List UInt8)
    (src : Option Addr) :
    ¬QueuedAccept (net.conn true) (netchanFeed env (net.conn true) pkt src).1 ∧
      netchanAccept (netchanFeed env (net.conn true) pkt src).1 =
        ((netchanFeed env (net.conn true) pkt src).1, .error .err) := by
  refine ⟨(netchanFeed_queues env _ pkt src).not_queuedAccept, ?_⟩
  have hserver := netchanFeed_server env (net.conn true) pkt src
  cases hflag : (net.conn true).server with
  | false => simp [netchanAccept, hserver, hflag]
  | true =>
    have hstate := netchanFeed_settled env hflag (Or.inl h.server) pkt src
    rcases hstate with hs | hs <;> simp [netchanAccept, hserver, hflag, hs]

/-- The CONNECT_ACCEPT is dropped and the client sends a second CONNECT_INIT. -/
def strandedNet : Joint :=
  Net.run netchan (Joint.start fun _ => netchanCfgDefault)
    [.call false (.connect quietEnv Addr.unset), .call false (.sendNext quietEnv 1200),
      .deliver false 0 (quietEnv, none), .call true .accept,
      .call true (.sendNext quietEnv 1200), .drop true 0,
      .call false (.service quietEnv 500), .call false (.sendNext quietEnv 1200)]

theorem strandedNet_reachable : strandedNet.Reachable :=
  Joint.reachable_run _ _ (by decide)

theorem strandedNet_stranded : Stranded strandedNet := by
  have hflight : strandedNet.flight true = [] := by decide +kernel
  have hbuf : (strandedNet.conn true).ctrlBuf = [] := by decide +kernel
  refine ⟨by decide +kernel, by decide +kernel, by decide +kernel, ?_, ?_⟩
  · simp [hflight]
  · rintro gs ⟨hgs, -⟩ g hg
    obtain ⟨b, tail, hcons, -⟩ := g.encode_cons
    have hmem : b ∈ gs.flatMap Frame.encode :=
      List.mem_flatMap.2 ⟨g, hg, by rw [hcons]; exact List.mem_cons_self⟩
    rw [← hgs, hbuf] at hmem
    cases hmem

/-- The second packet of the client: a CONNECT_INIT. -/
def retryInit : List UInt8 := [0x01, 0, 0, 0, 7, 0x01, 0, 0, 0, 7, 0x01]

theorem accept_not_repeated_dropped :
    Stranded strandedNet ∧
      ¬QueuedAccept (strandedNet.conn true)
        (netchanFeed quietEnv (strandedNet.conn true) retryInit none).1 :=
  ⟨strandedNet_stranded, (accept_not_repeated strandedNet_stranded quietEnv retryInit none).1⟩

theorem retry_unanswered :
    strandedNet.Reachable ∧ Stranded strandedNet ∧
      (strandedNet.flight false).map Flight.pkt = [retryInit, retryInit] ∧
      (fedFrames (strandedNet.conn true) retryInit).map Prod.fst =
        [.connectInit (strandedNet.conn false).localId ncVersion] ∧
      ¬QueuedAccept (strandedNet.conn true)
        (netchanFeed quietEnv (strandedNet.conn true) retryInit none).1 :=
  ⟨strandedNet_reachable, strandedNet_stranded, by decide +kernel, by decide +kernel,
    (netchanFeed_queues quietEnv _ retryInit none).not_queuedAccept⟩

end MechanicalResearcher.NetchanV2
