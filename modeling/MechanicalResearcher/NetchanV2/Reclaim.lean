import MechanicalResearcher.NetchanV2.Events
import MechanicalResearcher.NetchanV2.Tally

/-!
# Channel records

`chan_new` takes a record of the pool and an entry of the channel table.  `chan_free`,
which gives both back, is called by `netchan_close` only: closing a channel, from
either side, keeps them taken.  So what `netchan_chan_open` returns depends on the
channels that were ever opened (`Opened`), whether they are still open or not.
-/

namespace MechanicalResearcher.NetchanV2

open Lib Lib.Runs

/-! ## Taking a record -/

/-- The records of the pool that are in use. -/
def Core.taken (s : Core) : Finset Nat :=
  (Finset.range ncMaxChan).filter fun k => s.chanUsed k = true

/-- A free record and the entry `id` of the table are taken. -/
def Core.Takes (id : UInt8) (s s' : Core) : Prop :=
  ∃ k < ncMaxChan, s.chanUsed k = false ∧ s.channels id = none ∧
    s'.channels = Function.update s.channels id (some k) ∧
    s'.chanUsed = Function.update s.chanUsed k true

/-- The table and the pool are as they were. -/
structure Core.SameTable (s s' : Core) : Prop where
  channels : s'.channels = s.channels
  chanUsed : s'.chanUsed = s.chanUsed

theorem Core.Steady.sameTable {s s' : Core} (h : Core.Steady s s') : Core.SameTable s s' :=
  ⟨h.channels, h.chanUsed⟩

theorem Core.Takes.card {id : UInt8} {s s' : Core} (h : Core.Takes id s s') :
    s'.taken.card = s.taken.card + 1 := by
  obtain ⟨k, hk, hfree, -, -, hused⟩ := h
  have hnot : k ∉ s.taken := by simp [Core.taken, hfree]
  have hinsert : s'.taken = insert k s.taken := by
    ext j
    by_cases hj : j = k
    · subst hj
      simpa [Core.taken, hused] using hk
    · simp [Core.taken, hused, hj]
  rw [hinsert, Finset.card_insert_of_notMem hnot]

theorem Core.Takes.isSome_iff {id : UInt8} {s s' : Core} (h : Core.Takes id s s') (i : UInt8) :
    (s'.channels i).isSome = true ↔ i = id ∨ (s.channels i).isSome = true := by
  obtain ⟨k, -, -, -, hchan, -⟩ := h
  rw [hchan]
  by_cases hi : i = id
  · subst hi
    simp
  · simp [hi]

theorem taken_full {s : Core} : s.taken.card = ncMaxChan ↔ ∀ k < ncMaxChan,
    s.chanUsed k = true := by
  constructor
  · intro hcard k hk
    have hall : s.taken = Finset.range ncMaxChan :=
      Finset.eq_of_subset_of_card_le (Finset.filter_subset _ _) (by simp [hcard])
    have hmem : k ∈ s.taken := by
      rw [hall]
      exact Finset.mem_range.2 hk
    exact (Finset.mem_filter.1 hmem).2
  · intro h
    have hall : s.taken = Finset.range ncMaxChan :=
      Finset.filter_true_of_mem fun k hk => h k (Finset.mem_range.1 hk)
    rw [hall, Finset.card_range]

theorem taken_card_le (s : Core) : s.taken.card ≤ ncMaxChan := by
  have h := Finset.card_le_card (Finset.filter_subset (fun k => s.chanUsed k = true)
    (Finset.range ncMaxChan))
  rwa [Finset.card_range] at h

theorem chanNew_takes {s : Core} {id : UInt8} (hid : s.channels id = none) (type dir : Nat)
    (role : Role) (ct : Option (List UInt8)) :
    (chanNew s id type dir role ct = (s, none) ∧ s.taken.card = ncMaxChan) ∨
      ∃ s' k, chanNew s id type dir role ct = (s', some k) ∧ Core.Takes id s s' ∧
        s.taken.card < ncMaxChan := by
  unfold chanNew
  cases hfind : (List.range ncMaxChan).find? fun i => !s.chanUsed i with
  | none =>
    refine Or.inl ⟨rfl, taken_full.2 fun k hk => ?_⟩
    simpa using List.find?_eq_none.1 hfind k (List.mem_range.2 hk)
  | some k =>
    have hk := List.mem_range.1 (List.mem_of_find?_eq_some hfind)
    have hfree : s.chanUsed k = false := by simpa using List.find?_some hfind
    refine Or.inr ⟨_, k, rfl, ⟨k, hk, hfree, hid, rfl, rfl⟩, ?_⟩
    refine lt_of_le_of_ne (taken_card_le s) fun hfull => ?_
    rw [taken_full.1 hfull k hk] at hfree
    cases hfree

theorem Core.Takes.of_same {id : UInt8} {s s' s'' : Core} (h : Core.Takes id s s')
    (hs : Core.SameTable s' s'') : Core.Takes id s s'' := by
  obtain ⟨k, hk, hfree, hid, hchan, hused⟩ := h
  exact ⟨k, hk, hfree, hid, hs.channels.trans hchan, hs.chanUsed.trans hused⟩

theorem acceptChannelOpen_takes (c : Conn) (id : UInt8) (type dir : Nat) (ct : List UInt8) :
    Core.SameTable c.toCore (acceptChannelOpen c id type dir ct).toCore ∨
      Core.Takes id c.toCore (acceptChannelOpen c id type dir ct).toCore := by
  simp only [acceptChannelOpen]
  generalize (if dir = netchanDirSend then Role.receiver else Role.sender) = role
  split
  · exact Or.inl ⟨by simp [ctrlChannelClose], by simp [ctrlChannelClose]⟩
  · rename_i hsome
    have hid : c.channels id = none := by simpa using hsome
    rcases chanNew_takes hid type dir role (some (ct.take 63)) with ⟨heq, -⟩ | ⟨s, k, heq, h, -⟩
    · rw [heq]
      exact Or.inl ⟨by simp [ctrlChannelClose], by simp [ctrlChannelClose]⟩
    · rw [heq]
      refine Or.inr (h.of_same ?_)
      dsimp only
      rw [evPush_toCore]
      split_ifs
      · rw [ctrlWindowUpdate, ctrlReserve_toCore]
        exact ⟨rfl, rfl⟩
      · exact ⟨rfl, rfl⟩

theorem netchanChanOpen_takes {c : Conn} (hst : c.state = .connected) (type dir : Nat)
    (ct : Option (List UInt8)) :
    ((netchanChanOpen c type dir ct).2 = none ∧
        (netchanChanOpen c type dir ct).1.toCore = c.toCore ∧
        ((c.channels c.nextChanId).isSome = true ∧ (netchanChanOpen c type dir ct).1 = c ∨
          c.taken.card = ncMaxChan)) ∨
      ((netchanChanOpen c type dir ct).2.isSome = true ∧ c.taken.card < ncMaxChan ∧
        Core.Takes c.nextChanId c.toCore (netchanChanOpen c type dir ct).1.toCore ∧
        (netchanChanOpen c type dir ct).1.nextChanId = c.nextChanId + 2) := by
  simp only [netchanChanOpen, hst, ne_eq, not_true_eq_false, if_false]
  generalize (if dir = netchanDirSend then Role.sender else Role.receiver) = role
  by_cases hsome : (c.channels c.nextChanId).isSome = true
  · rw [if_pos hsome]
    exact Or.inl ⟨rfl, rfl, Or.inl ⟨hsome, rfl⟩⟩
  · rw [if_neg hsome]
    have hid : c.channels c.nextChanId = none := by simpa using hsome
    rcases chanNew_takes hid type dir role ct with ⟨heq, hfull⟩ | ⟨s, k, heq, h, hroom⟩
    · rw [heq]
      exact Or.inl ⟨rfl, rfl, Or.inr hfull⟩
    · rw [heq]
      refine Or.inr ?_
      dsimp only
      split_ifs
      · refine ⟨rfl, hroom, h.of_same ?_, ?_⟩
        · simp only [ctrlWindowUpdate, ctrlChannelOpen, ctrlReserve_toCore, Conn.lift_toCore]
          exact ⟨rfl, rfl⟩
        · generalize hopen : ctrlChannelOpen _ _ = c'
          refine (Passive.ctrlWindowUpdate c' _ _).nextChanId.trans ?_
          rw [← hopen]
          exact (Passive.ctrlReserve _ _).nextChanId
      · refine ⟨rfl, hroom, h.of_same ?_, ?_⟩
        · simp only [ctrlChannelOpen, ctrlReserve_toCore]
          exact ⟨rfl, rfl⟩
        · exact (Passive.ctrlReserve _ _).nextChanId

/-! ## The channels of a run -/

/-- The ids of the channels that a frame opened. -/
def Frame.opened (c c' : Conn) : Frame → List UInt8
  | channelOpen id _ _ _ =>
    if (c.channels id).isNone && (c'.channels id).isSome then [id] else []
  | _ => []

/-- The ids of the channels that the frames of a packet opened, one after the other. -/
def frameOpened (env : Env) : Conn → List (Frame × Nat) → List UInt8
  | _, [] => []
  | c, fn :: fs =>
    fn.1.opened c (fn.1.apply env (env.nowMs fn.2) c) ++
      frameOpened env (fn.1.apply env (env.nowMs fn.2) c) fs

/-- The ids of the channels that the peer opened during a call. -/
def Conn.theirs (c : Conn) : Act → List UInt8
  | .feed env pkt src => frameOpened env (c.heard env pkt src) (fedFrames c pkt)
  | _ => []

/-- How many channels the call opened here. -/
def Conn.ours (c : Conn) : Act → Nat
  | .chanOpen type dir contentType =>
    if (netchanChanOpen c type dir contentType).2.isSome then 1 else 0
  | _ => 0

/-- The channels the peer opened during a run. -/
def Conn.theirsIn : Conn → List Act → List UInt8
  | _, [] => []
  | c, a :: as => c.theirs a ++ (c.step a).theirsIn as

/-- The number of channels opened here during a run. -/
def Conn.oursIn : Conn → List Act → Nat
  | _, [] => 0
  | c, a :: as => c.ours a + (c.step a).oursIn as

/-- The id of the `n`-th channel opened here. -/
def ourId (server : Bool) (n : Nat) : UInt8 := (if server then 1 else 0) + 2 * UInt8.ofNat n

theorem ourId_succ (server : Bool) (n : Nat) : ourId server (n + 1) = ourId server n + 2 := by
  unfold ourId
  rw [UInt8.ofNat_add]
  grind

/-- The pool and the table after `ours` channels were opened here and `theirs` by the peer. -/
structure Opened (server : Bool) (ours : Nat) (theirs : List UInt8) (c : Conn) : Prop where
  good : c.toCore.Good
  count : c.taken.card = ours + theirs.length
  table : ∀ id, (c.channels id).isSome = true ↔ (∃ i < ours, id = ourId server i) ∨ id ∈ theirs
  next : ours + theirs.length < ncMaxChan → c.nextChanId = ourId server ours

namespace Opened

variable {server : Bool} {ours : Nat} {theirs : List UInt8} {c c' : Conn}

theorem same (h : Opened server ours theirs c) (hgood : c'.toCore.Good)
    (hsame : Core.SameTable c.toCore c'.toCore)
    (hnext : c'.nextChanId = c.nextChanId) : Opened server ours theirs c' := by
  refine ⟨hgood, ?_, fun id => ?_, fun hlt => hnext.trans (h.next hlt)⟩
  · rw [← h.count, Core.taken, hsame.chanUsed]
    rfl
  · rw [hsame.channels]
    exact h.table id

theorem frame (h : Opened server ours theirs c) (hgood : c'.toCore.Good) {id : UInt8}
    (htakes : Core.Takes id c.toCore c'.toCore) (hnext : c'.nextChanId = c.nextChanId) :
    Opened server ours (theirs ++ [id]) c' := by
  refine ⟨hgood, ?_, fun i => ?_, fun hlt => ?_⟩
  · rw [htakes.card, h.count, List.length_append, List.length_singleton, Nat.add_assoc]
  · rw [htakes.isSome_iff, h.table i, List.mem_append, List.mem_singleton]
    rw [or_comm, or_assoc]
  · rw [List.length_append, List.length_singleton] at hlt
    exact hnext.trans (h.next (by omega))

theorem call (h : Opened server ours theirs c) (hgood : c'.toCore.Good)
    (htakes : Core.Takes c.nextChanId c.toCore c'.toCore)
    (hroom : c.taken.card < ncMaxChan) (hnext : c'.nextChanId = c.nextChanId + 2) :
    Opened server (ours + 1) theirs c' := by
  have hid : c.nextChanId = ourId server ours := h.next (h.count ▸ hroom)
  refine ⟨hgood, ?_, fun i => ?_, fun _ => ?_⟩
  · rw [htakes.card, h.count]
    omega
  · rw [htakes.isSome_iff, h.table i, hid]
    constructor
    · rintro (rfl | ⟨n, hn, rfl⟩ | hmem)
      · exact Or.inl ⟨ours, by omega, rfl⟩
      · exact Or.inl ⟨n, by omega, rfl⟩
      · exact Or.inr hmem
    · rintro (⟨n, hn, rfl⟩ | hmem)
      · rcases Nat.lt_succ_iff_lt_or_eq.1 hn with hlt | rfl
        · exact Or.inr (Or.inl ⟨n, hlt, rfl⟩)
        · exact Or.inl rfl
      · exact Or.inr (Or.inr hmem)
  · rw [hnext, hid]
    exact (ourId_succ server ours).symm

end Opened

/-! ## Steps -/

theorem Frame.apply_nextChanId (env : Env) (now : UInt32) (c : Conn) (f : Frame) :
    (f.apply env now c).nextChanId = c.nextChanId := by
  by_cases hcalm : f.calm = true
  · exact (f.apply_passive env now c hcalm).nextChanId
  · cases f with
    | connectInit clientId version =>
      simp only [apply, acceptConnectInit]
      split_ifs <;> rfl
    | connectAccept serverId version idle =>
      simp only [apply, acceptConnectAccept, evPush, evStore]
      split_ifs <;> rfl
    | disconnect reason =>
      simp only [apply, evPush, evStore]
      split_ifs <;> rfl
    | _ => simp [calm] at hcalm

theorem Frame.apply_opened {server : Bool} {ours : Nat} {theirs : List UInt8} {c : Conn}
    (h : Opened server ours theirs c) (env : Env) (now : UInt32) (f : Frame) :
    Opened server ours (theirs ++ f.opened c (f.apply env now c)) (f.apply env now c) := by
  have hgood := f.apply_good env now h.good
  have hnext := f.apply_nextChanId env now c
  cases hf : f.isOpen with
  | false =>
    have hnone : f.opened c (f.apply env now c) = [] := by
      cases f with
      | channelOpen id type dir ct => cases hf
      | _ => rfl
    rw [hnone, List.append_nil]
    exact h.same hgood (f.apply_steady env now h.good hf).sameTable hnext
  | true =>
    cases f with
    | channelOpen id type dir ct =>
      rcases acceptChannelOpen_takes c id type.toNat dir.toNat ct with hsame | htakes
      · have hnone : (channelOpen id type dir ct).opened c
            ((channelOpen id type dir ct).apply env now c) = [] := by
          have heq : ((channelOpen id type dir ct).apply env now c).channels id =
              c.channels id := congrFun hsame.channels id
          rw [opened, heq]
          cases c.channels id <;> rfl
        rw [hnone, List.append_nil]
        exact h.same hgood hsame hnext
      · have hone : (channelOpen id type dir ct).opened c
            ((channelOpen id type dir ct).apply env now c) = [id] := by
          have hsome : (((channelOpen id type dir ct).apply env now c).channels id).isSome =
              true := (htakes.isSome_iff id).2 (Or.inl rfl)
          obtain ⟨k, -, -, hid, -, -⟩ := htakes
          rw [opened, hid, hsome]
          rfl
        rw [hone]
        exact h.frame hgood htakes hnext
    | _ => cases hf

theorem applyFrames_opened {server : Bool} {ours : Nat} {theirs : List UInt8} (env : Env)
    (fs : List (Frame × Nat)) {c : Conn} (h : Opened server ours theirs c) :
    Opened server ours (theirs ++ frameOpened env c fs) (applyFrames env c fs) := by
  induction fs generalizing c theirs with
  | nil => simpa [frameOpened] using h
  | cons fn fs ih =>
    rw [frameOpened, ← List.append_assoc]
    exact ih (fn.1.apply_opened h env (env.nowMs fn.2))

theorem netchanFeed_opened {server : Bool} {ours : Nat} {theirs : List UInt8} {c : Conn}
    (h : Opened server ours theirs c) (env : Env) (pkt : List UInt8) (src : Option Addr) :
    Opened server ours (theirs ++ c.theirs (.feed env pkt src)) (netchanFeed env c pkt src).1 := by
  have htheirs : c.theirs (.feed env pkt src) =
      frameOpened env (c.heard env pkt src) (fedFrames c pkt) := rfl
  rw [netchanFeed_eq, htheirs]
  unfold fedFrames
  split_ifs
  · exact applyFrames_opened env _ (h.same h.good ⟨rfl, rfl⟩ rfl)
  · rw [frameOpened, List.append_nil]
    exact h

theorem evPush_nextChanId (c : Conn) (t : EvType) (ch : Option Nat) :
    (evPush c t ch).nextChanId = c.nextChanId := by
  simp only [evPush, evStore]
  split_ifs <;> rfl

theorem Conn.step_nextChanId (c : Conn) {a : Act} (hfeed : a.isFeed = false)
    (hopen : a.isChanOpen = false) : (c.step a).nextChanId = c.nextChanId := by
  cases a with
  | connect env addr =>
    simp only [step, netchanConnect]
    split_ifs
    · rfl
    · rfl
    · exact (Passive.ctrlConnectInit _).nextChanId
  | accept =>
    simp only [step, netchanAccept]
    split_ifs
    · rfl
    · rfl
    · rw [evPush_nextChanId]
      exact (Passive.ctrlConnectAccept c).nextChanId
  | feed env pkt src => cases hfeed
  | sendNext env buflen => exact (netchanSendNext_passive env c buflen).nextChanId
  | service env now =>
    by_cases hto : c.TimesOut now
    · rw [step, (netchanService_timesOut env hto).2, evPush_nextChanId]
    · exact (netchanService_passive env hto).nextChanId
  | chanOpen type dir contentType => cases hopen
  | chanClose k =>
    simp only [step]
    split_ifs
    · exact (netchanChanClose_passive c k).nextChanId
    · rfl
  | chanWrite k data =>
    simp only [step]
    split_ifs <;> rfl
  | chanRead k buflen =>
    simp only [step]
    split_ifs <;> rfl
  | poll =>
    simp only [step, netchanPoll]
    split_ifs <;> rfl

theorem netchanChanOpen_opened {server : Bool} {ours : Nat} {theirs : List UInt8} {c : Conn}
    (h : Opened server ours theirs c) (type dir : Nat) (ct : Option (List UInt8)) :
    Opened server (ours + c.ours (.chanOpen type dir ct)) theirs
      (netchanChanOpen c type dir ct).1 := by
  have hgood := netchanChanOpen_good h.good type dir ct
  have hours : c.ours (.chanOpen type dir ct) =
      if (netchanChanOpen c type dir ct).2.isSome then 1 else 0 := rfl
  rw [hours]
  by_cases hst : c.state = .connected
  · rcases netchanChanOpen_takes hst type dir ct with
      ⟨hnone, hcore, hwhy⟩ | ⟨hsome, hroom, htakes, hnext⟩
    · rw [hnone]
      refine ⟨hgood, ?_, fun id => ?_, fun hlt => ?_⟩
      · rw [hcore]
        exact h.count
      · rw [hcore]
        exact h.table id
      · rcases hwhy with ⟨-, heq⟩ | hfull
        · rw [heq]
          exact h.next hlt
        -- the counter moves on, but no channel will be opened any more
        · have hcount := h.count
          rw [hfull] at hcount
          change ours + theirs.length < ncMaxChan at hlt
          omega
    · rw [if_pos hsome]
      exact h.call hgood htakes hroom hnext
  · have heq : netchanChanOpen c type dir ct = (c, none) := by simp [netchanChanOpen, hst]
    rw [heq]
    exact h

theorem Conn.step_opened {server : Bool} {ours : Nat} {theirs : List UInt8} {c : Conn}
    (h : Opened server ours theirs c) (a : Act) :
    Opened server (ours + c.ours a) (theirs ++ c.theirs a) (c.step a) := by
  cases hfeed : a.isFeed with
  | true =>
    cases a with
    | feed env pkt src => exact netchanFeed_opened h env pkt src
    | _ => cases hfeed
  | false =>
    have htheirs : c.theirs a = [] := by
      cases a with
      | feed env pkt src => cases hfeed
      | _ => rfl
    rw [htheirs, List.append_nil]
    cases hopen : a.isChanOpen with
    | true =>
      cases a with
      | chanOpen type dir ct => exact netchanChanOpen_opened h type dir ct
      | _ => cases hopen
    | false =>
      have hours : c.ours a = 0 := by
        cases a with
        | chanOpen type dir ct => cases hopen
        | _ => rfl
      rw [hours]
      exact h.same (c.step_good h.good a) (c.step_steady h.good hfeed hopen).sameTable
        (c.step_nextChanId hfeed hopen)

/-! ## Runs -/

theorem Conn.run_opened {server : Bool} {ours : Nat} {theirs : List UInt8} (acts : List Act)
    {c : Conn} (h : Opened server ours theirs c) :
    Opened server (ours + c.oursIn acts) (theirs ++ c.theirsIn acts) (c.run acts) := by
  induction acts generalizing c ours theirs with
  | nil => simpa [oursIn, theirsIn, run] using h
  | cons a acts ih =>
    rw [oursIn, theirsIn, ← Nat.add_assoc, ← List.append_assoc]
    exact ih (c.step_opened h a)

theorem netchanOpen_opened (server : Bool) (cfg : Cfg) :
    Opened server 0 [] (netchanOpen server cfg) := by
  refine ⟨netchanOpen_good server cfg, ?_, fun id => ?_, fun _ => ?_⟩
  · simp [Core.taken, netchanOpen]
  · simp [netchanOpen]
  · cases server <;> rfl

theorem ourId_inj {server : Bool} {i j : Nat} (hi : i < 128) (hj : j < 128)
    (h : ourId server i = ourId server j) : i = j := by
  unfold ourId at h
  have h' := congrArg UInt8.toNat ((UInt8.add_right_inj _).1 h)
  rw [UInt8.toNat_mul, UInt8.toNat_mul, UInt8.toNat_ofNat', UInt8.toNat_ofNat'] at h'
  have h2 : UInt8.toNat 2 = 2 := rfl
  rw [h2] at h'
  omega

/-- Whatever was closed in between, a connected connection opens a channel exactly while
fewer than 16 channels were opened before, here or by the peer, and the peer did not open
one under the id that comes next here. -/
theorem chan_open_iff (server : Bool) (cfg : Cfg) (acts : List Act) (type dir : Nat)
    (ct : Option (List UInt8))
    (hst : ((netchanOpen server cfg).run acts).state = .connected) :
    (netchanChanOpen ((netchanOpen server cfg).run acts) type dir ct).2.isSome = true ↔
      (netchanOpen server cfg).oursIn acts + ((netchanOpen server cfg).theirsIn acts).length <
          ncMaxChan ∧
        ourId server ((netchanOpen server cfg).oursIn acts) ∉
          (netchanOpen server cfg).theirsIn acts := by
  have h := Conn.run_opened acts (netchanOpen_opened server cfg)
  rw [Nat.zero_add, List.nil_append] at h
  generalize (netchanOpen server cfg).run acts = c at h hst ⊢
  generalize (netchanOpen server cfg).oursIn acts = ours at h ⊢
  generalize (netchanOpen server cfg).theirsIn acts = theirs at h ⊢
  -- the id that comes next is not one of ours
  have hfree : ours + theirs.length < ncMaxChan →
      ((c.channels c.nextChanId).isSome = true ↔ ourId server ours ∈ theirs) := by
    intro hlt
    rw [h.table, h.next hlt]
    refine or_iff_right ?_
    rintro ⟨i, hi, heq⟩
    change ours + theirs.length < 16 at hlt
    have := ourId_inj (by omega) (by omega) heq
    omega
  rcases netchanChanOpen_takes hst type dir ct with
    ⟨hnone, -, hwhy⟩ | ⟨hsome, hroom, ⟨-, -, -, hid, -, -⟩, -⟩
  · rw [hnone]
    refine iff_of_false (by simp) ?_
    rintro ⟨hlt, hmem⟩
    rcases hwhy with ⟨hsome, -⟩ | hfull
    · exact hmem ((hfree hlt).1 hsome)
    · rw [← h.count, hfull] at hlt
      exact lt_irrefl _ hlt
  · refine iff_of_true hsome ?_
    rw [h.count] at hroom
    refine ⟨hroom, fun hmem => ?_⟩
    have htaken := (hfree hroom).2 hmem
    rw [hid] at htaken
    cases htaken

/-- Open the `i`-th channel, close it, and process the CHANNEL_CLOSE of the peer. -/
def openAndClose (i : Nat) : List Act :=
  [.chanOpen netchanReliable 1 none, .chanClose i,
    .feed quietEnv [0x02, 0, 0, 0, 7, 0, 0, 0x08, ourId true i, 0, 0] none]

/-- Two channels were opened and closed before. -/
theorem chan_open_third :
    let acts := serverUp ++ (List.range 2).flatMap openAndClose
    (netchanOpen true netchanCfgDefault).oursIn acts = 2 ∧
      (netchanChanOpen ((netchanOpen true netchanCfgDefault).run acts) 0 1 none).2.isSome =
        true :=
  ⟨by decide +kernel,
    (chan_open_iff true netchanCfgDefault _ 0 1 none (by decide +kernel)).2 (by decide +kernel)⟩

/-- The channels that are not closed. -/
def Conn.live (c : Conn) : Nat :=
  (List.range ncMaxChan).countP fun k => c.chanUsed k && (c.chanPool k).state != .closed

/-- A server that opened and closed 16 channels, one at a time, opens no other. -/
theorem closed_channels_kept :
    (∀ n ≤ 50, ((netchanOpen true netchanCfgDefault).run
        ((serverUp ++ (List.range 16).flatMap openAndClose).take n)).live ≤ 1) ∧
      ((netchanOpen true netchanCfgDefault).run
        (serverUp ++ (List.range 16).flatMap openAndClose)).state = .connected ∧
      ((netchanOpen true netchanCfgDefault).run
        (serverUp ++ (List.range 16).flatMap openAndClose)).live = 0 ∧
      (netchanChanOpen ((netchanOpen true netchanCfgDefault).run
        (serverUp ++ (List.range 16).flatMap openAndClose)) 0 1 none).2 = none := by
  decide +kernel

end MechanicalResearcher.NetchanV2
