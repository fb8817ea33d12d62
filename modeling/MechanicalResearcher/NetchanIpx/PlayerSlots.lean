import MechanicalResearcher.Game.Slots
import MechanicalResearcher.NetchanIpx.GameServer
import Mathlib.Logic.Relation
import Mathlib.Data.Fintype.Pigeonhole

/-!
# Who plays in which slot

The server never writes down that a slot is taken: `game_add_player` takes a slot for free
when its player is dead, has no hit points and waits for no respawn.  A lobby is what
matters of a server for that, and it moves in five ways.  A disconnect leaves the hit
points of the player as they are, so it is the one move that breaks the correspondence
between the slots and the clients; the others keep it as long as `random_floor` finds a
tile.
-/

namespace MechanicalResearcher.NetchanIpx

open Game Lib.BigEndian

variable {i : Nat} {gc : GConn} {nowMs : UInt32} {game g g' : GameState}

/-! ## Lobbies -/

structure Lobby where
  holders : Nat → Option Int
  game : GameState
  log : List Moment

def GServer.lobby (s : GServer) : Lobby := ⟨s.holders, s.game, s.log⟩

inductive Lobby.Move : Lobby → Lobby → Prop
  | quiet {l : Lobby} {game : GameState} : (∀ k, SameSlot l.game game k) →
      Move l { l with game := game }
  | accepted {l : Lobby} {i : Nat} : i < maxPlayers → l.holders i = none →
      Move l { l with holders := Function.update l.holders i (some (-1)) }
  | joined {l : Lobby} {i : Nat} {game : GameState} {given : Int} : i < maxPlayers →
      l.holders i ≠ none → gameAddPlayer l.game = some (game, given) →
      Move l ⟨Function.update l.holders i (some given), game,
        l.log ++ [.joined i l.holders l.game given]⟩
  | left {l : Lobby} {i : Nat} {player : Int} : l.holders i = some player →
      Move l ⟨Function.update l.holders i none, dropPlayer l.game player,
        l.log ++ [.left i player]⟩
  | ticked {l : Lobby} {game : GameState} : gameTick l.game = some game →
      Move l ⟨l.holders, game, l.log ++ [.ticked l.holders l.game]⟩

abbrev Lobby.Moves : Lobby → Lobby → Prop := Relation.ReflTransGen Lobby.Move

/-! ## The server as a lobby -/

/-- The server did nothing to its lobby that a slot shows. -/
structure Quiet (s s' : GServer) : Prop where
  holders : s'.holders = s.holders
  slots : ∀ k, SameSlot s.game s'.game k
  log : s'.log = s.log

theorem Quiet.refl (s : GServer) : Quiet s s := ⟨rfl, fun k => .refl _ k, rfl⟩

theorem Quiet.trans {s s' s'' : GServer} (h : Quiet s s') (h' : Quiet s' s'') : Quiet s s'' :=
  ⟨h'.holders.trans h.holders, fun k => (h.slots k).trans (h'.slots k), h'.log.trans h.log⟩

theorem Quiet.moves {s s' : GServer} (h : Quiet s s') : Lobby.Moves s.lobby s'.lobby := by
  have hlobby : s'.lobby = { s.lobby with game := s'.game } := by
    simp only [GServer.lobby, h.holders, h.log]
  rw [hlobby]
  exact .single (.quiet h.slots)

theorem holders_setConn (s : GServer) (i : Nat) (gc : GConn) :
    (s.setConn i gc).holders = Function.update s.holders i (some gc.player) := by
  funext j
  by_cases hj : j = i
  · subst hj
    simp [GServer.holders, GServer.setConn]
  · simp [GServer.holders, GServer.setConn, hj]

theorem setConn_quiet {s : GServer} {gc' : GConn} (h : s.conn i = some gc)
    (hplayer : gc'.player = gc.player) : Quiet s (s.setConn i gc') := by
  refine ⟨?_, fun k => .refl _ k, rfl⟩
  rw [holders_setConn, hplayer]
  apply Function.update_eq_self_iff.mpr
  simp [GServer.holders, h]

theorem foldl_quiet {f : GServer → Nat → GServer} (hf : ∀ s i, Quiet s (f s i)) (is : List Nat)
    (s : GServer) : Quiet s (is.foldl f s) := by
  induction is generalizing s with
  | nil => exact .refl s
  | cons i is ih => exact (hf s i).trans (ih (f s i))

theorem writeConn_quiet (ch : GConn → Option Nat) (data : Bytes) (s : GServer) (i : Nat) :
    Quiet s (writeConn ch data s i) := by
  unfold writeConn
  split
  · exact .refl s
  · next gc h => exact setConn_quiet h rfl

theorem tellAll_quiet (s : GServer) (data : Bytes) : Quiet s (tellAll s data) := by
  apply foldl_quiet
  intro s i
  split
  · exact writeConn_quiet ..
  · exact .refl s

theorem broadcast_quiet (s : GServer) (state : Bytes) : Quiet s (broadcast s state) := by
  apply foldl_quiet
  intro s i
  split
  · exact writeConn_quiet ..
  · exact .refl s

theorem relayChat_quiet (s : GServer) (who : Int) (msg : Bytes) :
    Quiet s (relayChat s who msg) := by
  unfold relayChat
  split
  · exact tellAll_quiet ..
  · exact .refl s

theorem takeInput_quiet (s : GServer) (player : Int) (msg : Bytes) :
    Quiet s (takeInput s player msg) := by
  unfold takeInput
  split
  · refine ⟨rfl, fun k => ?_, rfl⟩
    show SameSlot s.game { s.game with world := gameSetInput s.game.world player (msg.getD 1 0) } k
    unfold gameSetInput
    split
    · apply setPlayer_sameSlot <;> rfl
    · exact .refl _ k
  · exact .refl s

theorem drainLoop_quiet {ch : GConn → Option Nat} {handle : GServer → Int → Bytes → GServer}
    (hhandle : ∀ s player msg, Quiet s (handle s player msg)) (i n : Nat) (s : GServer) :
    Quiet s (drainLoop ch handle i n s) := by
  induction n generalizing s with
  | zero => exact .refl s
  | succ n ih =>
    rw [drainLoop]
    split
    · exact .refl s
    · next gc h =>
        split
        · next nc msg _ =>
            have hset : Quiet s (s.setConn i { gc with nc := nc }) := setConn_quiet h rfl
            dsimp only
            split
            · exact hset
            · exact (hset.trans (hhandle _ _ _)).trans (ih _)
        · exact setConn_quiet h rfl

theorem streamMap_player (tiles : Tiles) (n : Nat) (gc : GConn) :
    (streamMap tiles n gc).player = gc.player := by
  induction n generalizing gc with
  | zero => rfl
  | succ n ih =>
    rw [streamMap]
    split
    · dsimp only
      split
      · rfl
      · rw [ih]
    · split <;> rfl

theorem tendConn_quiet (s : GServer) (i : Nat) : Quiet s (tendConn s i) := by
  have hdrain : Quiet s (serverDrain s i) :=
    (drainLoop_quiet relayChat_quiet ..).trans (drainLoop_quiet takeInput_quiet ..)
  unfold tendConn
  dsimp only
  split
  · exact hdrain
  · next gc h =>
      split
      · exact hdrain.trans (setConn_quiet h (streamMap_player ..))
      · exact hdrain

theorem pullLoop_quiet (buflen : Nat) (is : List Nat) (s : GServer) :
    Quiet s (pullLoop buflen is s).1 := by
  induction is generalizing s with
  | nil => exact .refl s
  | cons i is ih =>
    rw [pullLoop]
    split
    · exact ih s
    · next gc h =>
        split
        · exact setConn_quiet h rfl
        · next nc _ =>
            have hset : Quiet s (s.setConn i { gc with nc := nc }) := setConn_quiet h rfl
            exact hset.trans (ih _)

theorem feedConn_quiet (s : GServer) (i : Nat) (pkt : Bytes) (source : Addr) :
    Quiet s (feedConn s i pkt source) := by
  unfold feedConn
  split
  · exact .refl s
  · next gc h => exact setConn_quiet h rfl

theorem acceptConn_moves (s : GServer) (source : Addr) (r r' : UInt32) :
    Lobby.Moves s.lobby (acceptConn s source r r').1.lobby := by
  unfold acceptConn
  split
  · exact .refl
  · next i hfind =>
      have hnone : s.conn i = none := by simpa using List.find?_some hfind
      have hi : i < maxPlayers := List.mem_range.mp (List.mem_of_find?_eq_some hfind)
      have hlobby : (s.setConn i (newConn source r r')).lobby =
          { s.lobby with holders := Function.update s.lobby.holders i (some (-1)) } := by
        simp only [GServer.lobby, holders_setConn]
        rfl
      rw [hlobby]
      exact .single (.accepted hi (by simp [GServer.lobby, GServer.holders, hnone]))

theorem gserverFeed_moves (s : GServer) (pkt : Bytes) (source : Addr) (r r' : UInt32) :
    Lobby.Moves s.lobby (gserverFeed s pkt source r r').lobby := by
  unfold gserverFeed
  dsimp only
  split
  · exact (feedConn_quiet ..).moves
  · split
    · have haccept := acceptConn_moves s source r r'
      split
      · next s' i h =>
          rw [h] at haccept
          exact haccept.trans (feedConn_quiet ..).moves
      · next s' h =>
          rw [h] at haccept
          exact haccept
    · exact .refl

theorem onConnected_moves {s s' : GServer} (hi : i < maxPlayers) (h : s.conn i = some gc)
    (hjoin : onConnected s i gc = some s') :
    Lobby.Moves s.lobby s'.lobby := by
  obtain ⟨⟨game, player⟩, hadd, hs'⟩ := Option.bind_eq_some_iff.mp hjoin
  cases hs'
  have hmove := Lobby.Move.joined (l := s.lobby) hi
    (by simp [GServer.lobby, GServer.holders, h]) hadd
  rw [GServer.lobby, ← holders_setConn s i { gc with
    nc := (chanWrite gc.nc gc.rel [gmWelcome, toByte player]).1, player := player, mapOff := 0,
    mapped := false }] at hmove
  exact .single hmove

theorem onDisconnected_moves {s : GServer} (h : s.conn i = some gc) :
    Lobby.Moves s.lobby (onDisconnected s i gc).lobby := by
  have hholders : (onDisconnected s i gc).holders = Function.update s.holders i none := by
    funext j
    by_cases hj : j = i
    · subst hj
      simp [GServer.holders, onDisconnected]
    · simp [GServer.holders, onDisconnected, hj]
  have hheld : s.lobby.holders i = some gc.player := by simp [GServer.lobby, GServer.holders, h]
  have hmove := Lobby.Move.left hheld
  simp only [GServer.lobby, hholders] at hmove ⊢
  exact .single hmove

theorem conn_setConn (s : GServer) (i : Nat) (gc : GConn) :
    (s.setConn i gc).conn i = some gc := by
  simp [GServer.setConn]

theorem pollLoop_moves (hi : i < maxPlayers) (n : Nat) {s s' : GServer}
    (h : pollLoop i n s = some s') : Lobby.Moves s.lobby s'.lobby := by
  induction n generalizing s with
  | zero =>
    cases h
    exact .refl
  | succ n ih =>
    rw [pollLoop] at h
    split at h
    · cases h
      exact .refl
    · next gc hconn =>
        split at h
        · cases h
          exact .refl
        · next nc ev _ =>
            have hset : Quiet s (s.setConn i { gc with nc := nc }) := setConn_quiet hconn rfl
            dsimp only at h
            split at h
            · obtain ⟨s1, hjoin, hrest⟩ := Option.bind_eq_some_iff.mp h
              exact (hset.moves.trans (onConnected_moves hi (conn_setConn ..) hjoin)).trans
                (ih hrest)
            · exact (hset.moves.trans (onDisconnected_moves (conn_setConn ..))).trans (ih h)
            · exact hset.moves.trans (ih h)

theorem serviceConn_moves {s s' : GServer} (hi : i < maxPlayers)
    (h : serviceConn nowMs s i = some s') : Lobby.Moves s.lobby s'.lobby := by
  unfold serviceConn at h
  split at h
  · cases h
    exact .refl
  · next gc hconn =>
      obtain ⟨s1, hpoll, hs'⟩ := Option.bind_eq_some_iff.mp h
      cases hs'
      have hset : Quiet s (s.setConn i { gc with nc := (ncService gc.nc nowMs).1 }) :=
        setConn_quiet hconn rfl
      have hmoves := hset.moves.trans (pollLoop_moves hi _ hpoll)
      split
      · exact hmoves
      · exact hmoves.trans (tendConn_quiet ..).moves

theorem foldlM_serviceConn_moves (is : List Nat) (his : ∀ i ∈ is, i < maxPlayers) {s s' : GServer}
    (h : is.foldlM (serviceConn nowMs) s = some s') :
    Lobby.Moves s.lobby s'.lobby := by
  induction is generalizing s with
  | nil =>
    cases h
    exact .refl
  | cons i is ih =>
    rw [List.foldlM_cons] at h
    obtain ⟨s1, hone, hrest⟩ := Option.bind_eq_some_iff.mp h
    exact (serviceConn_moves (his i List.mem_cons_self) hone).trans
      (ih (fun j hj => his j (List.mem_cons_of_mem i hj)) hrest)

theorem serverTick_moves {s s' : GServer} (h : serverTick s nowMs = some s') :
    Lobby.Moves s.lobby s'.lobby := by
  obtain ⟨game, htick, hs'⟩ := Option.bind_eq_some_iff.mp h
  cases hs'
  have hmove := Lobby.Move.ticked (l := s.lobby) htick
  exact .head hmove (broadcast_quiet
    { s with lastTickMs := nowMs, game := game, log := s.log ++ [.ticked s.holders s.game] }
      _).moves

theorem gserverService_moves {s s' : GServer} (h : gserverService s nowMs = some s') :
    Lobby.Moves s.lobby s'.lobby := by
  obtain ⟨s1, hconns, hrest⟩ := Option.bind_eq_some_iff.mp h
  have hmoves := foldlM_serviceConn_moves (List.range maxPlayers)
    (fun i hi => List.mem_range.mp hi) hconns
  split at hrest
  · exact hmoves.trans (serverTick_moves hrest)
  · cases hrest
    exact hmoves

theorem call_moves {s s' : GServer} {c : Call} (h : s.call c = some s') :
    Lobby.Moves s.lobby s'.lobby := by
  cases c with
  | feed pkt source r r' =>
    cases h
    exact gserverFeed_moves ..
  | service nowMs => exact gserverService_moves h
  | pull buflen =>
    cases h
    exact (pullLoop_quiet ..).moves
  | say who text =>
    cases h
    exact (tellAll_quiet ..).moves

theorem serverRun_moves {s s' : GServer} (calls : List Call) (h : serverRun s calls = some s') :
    Lobby.Moves s.lobby s'.lobby := by
  induction calls generalizing s with
  | nil =>
    cases h
    exact .refl
  | cons c calls ih =>
    rw [serverRun, List.foldlM_cons] at h
    obtain ⟨s1, hone, hrest⟩ := Option.bind_eq_some_iff.mp h
    exact (call_moves hone).trans (ih hrest)

/-! ## Slots and clients -/

/-- Nobody on the list holds slot `k`. -/
def Unheld (holders : Nat → Option Int) (k : Nat) : Prop := ∀ i, holders i ≠ some (k : Int)

/-- The clients that play hold a slot each, and the slots that nobody holds are free. -/
structure Lobby.Slots (l : Lobby) : Prop where
  bound : ∀ i, maxPlayers ≤ i → l.holders i = none
  range : ∀ i (k : Nat), l.holders i = some (k : Int) → k < maxPlayers
  inj : ∀ i j (k : Nat), l.holders i = some (k : Int) → l.holders j = some (k : Int) → i = j
  held : ∀ i (k : Nat), l.holders i = some (k : Int) → Occupied l.game k
  free : ∀ k < maxPlayers, Unheld l.holders k → slotFree l.game k = true

/-- The conditions under which a connect, a disconnect or a tick does what it should: a
client connects once, a client that plays stays, and `random_floor` finds a tile. -/
def Moment.Regular : Moment → Prop
  | .joined i holders game _ => (∀ k : Nat, holders i ≠ some (k : Int)) ∧ FloorFound game
  | .left _ player => player < 0
  | .ticked _ game => TickLands game

/-- A client is given a slot that no other holds, and no tick respawns a player whose client
is gone: the slot was free, and still is. -/
def Moment.Served : Moment → Prop
  | .joined i holders _ given => 0 ≤ given ∧ ∀ j ≠ i, holders j ≠ some given
  | .left _ _ => True
  | .ticked holders game => ∀ k < maxPlayers, Unheld holders k →
      slotFree game k = true ∧ ∀ game', gameTick game = some game' → slotFree game' k = true

/-- A player whose client is gone blocks no slot. -/
def GServer.Unblocked (s : GServer) : Prop :=
  ∀ k < maxPlayers, Unheld s.holders k → slotFree s.game k = true

theorem Lobby.Slots.carried {l : Lobby} (h : l.Slots) (hc : Carries l.game game) (log : List Moment)
    : Lobby.Slots ⟨l.holders, game, log⟩ where
  bound := h.bound
  range := h.range
  inj := h.inj
  held := fun i k hi => (hc k).1 (h.held i k hi)
  free := fun k hk hu => (hc k).2 (h.free k hk hu)

theorem some_neg_ne {p : Int} (hp : p < 0) (k : Nat) : some p ≠ some (k : Int) := by
  intro h
  rw [Option.some.injEq] at h
  omega

theorem Lobby.Slots.idle {l : Lobby} (h : l.Slots) (hi : i < maxPlayers)
    (hidle : ∀ k : Nat, l.holders i ≠ some (k : Int)) {holder : Option Int}
    (hidle' : ∀ k : Nat, holder ≠ some (k : Int)) (log : List Moment) :
    Lobby.Slots ⟨Function.update l.holders i holder, l.game, log⟩ := by
  have hsame : ∀ j (k : Nat),
      Function.update l.holders i holder j = some (k : Int) ↔ l.holders j = some (k : Int) := by
    intro j k
    by_cases hj : j = i
    · subst hj
      rw [Function.update_self]
      exact ⟨fun hk => absurd hk (hidle' k), fun hk => absurd hk (hidle k)⟩
    · rw [Function.update_of_ne hj]
  constructor
  · intro j hj
    exact (Function.update_of_ne (by omega) ..).trans (h.bound j hj)
  · exact fun j k hk => h.range j k ((hsame j k).mp hk)
  · exact fun j j' k hk hk' => h.inj j j' k ((hsame j k).mp hk) ((hsame j' k).mp hk')
  · exact fun j k hk => h.held j k ((hsame j k).mp hk)
  · exact fun k hk hu => h.free k hk fun j hj => hu j ((hsame j k).mpr hj)

theorem Lobby.Slots.exists_unheld {l : Lobby} (h : l.Slots) (hi : i < maxPlayers)
    (hidle : ∀ k : Nat, l.holders i ≠ some (k : Int)) : ∃ k < maxPlayers, Unheld l.holders k := by
  by_contra hnone
  simp only [Unheld, not_exists, not_and, not_forall, not_not] at hnone
  choose holder hholder using fun k : Fin maxPlayers => hnone k k.isLt
  have hlt : ∀ k, holder k < maxPlayers := by
    intro k
    by_contra hge
    exact absurd (h.bound _ (not_lt.mp hge)) (by rw [hholder k]; simp)
  let f : Fin maxPlayers → Fin maxPlayers := fun k => ⟨holder k, hlt k⟩
  have hinj : Function.Injective f := by
    intro k k' hk
    have hkk : holder k = holder k' := congrArg Fin.val hk
    have hp := hholder k
    rw [hkk, hholder k', Option.some.injEq] at hp
    exact Fin.ext (by omega)
  obtain ⟨k, hk⟩ := Finite.surjective_of_injective hinj ⟨i, hi⟩
  have hki : holder k = i := congrArg Fin.val hk
  exact hidle k (hki ▸ hholder k)

theorem Lobby.Slots.joined {l : Lobby} (h : l.Slots) {i : Nat} (hi : i < maxPlayers)
    (hidle : ∀ k : Nat, l.holders i ≠ some (k : Int)) (hfloor : FloorFound l.game)
    {game : GameState}
    {given : Int} (hadd : gameAddPlayer l.game = some (game, given)) (log : List Moment) :
    (0 ≤ given ∧ ∀ j ≠ i, l.holders j ≠ some given) ∧
      Lobby.Slots ⟨Function.update l.holders i (some given), game, log⟩ := by
  obtain ⟨k₁, hk1, hun⟩ := h.exists_unheld hi hidle
  obtain ⟨g', k, hjoin, hk, hfree, halive, -, hrest⟩ :=
    gameAddPlayer_joins hfloor ⟨k₁, hk1, h.free k₁ hk1 hun⟩
  obtain ⟨rfl, rfl⟩ : g' = game ∧ (k : Int) = given := by
    rw [hadd, Option.some.injEq, Prod.mk.injEq] at hjoin
    exact ⟨hjoin.1.symm, hjoin.2.symm⟩
  -- a slot that looks free is nobody's
  have hunheld : Unheld l.holders k := by
    intro j hj
    rw [(h.held j k hj).not_free] at hfree
    exact absurd hfree (by decide)
  have hother : ∀ j (k' : Nat), Function.update l.holders i (some (k : Int)) j = some (k' : Int) →
      j = i ∧ k' = k ∨ j ≠ i ∧ k' ≠ k ∧ l.holders j = some (k' : Int) := by
    intro j k' hj
    by_cases hji : j = i
    · subst hji
      rw [Function.update_self, Option.some.injEq] at hj
      exact .inl ⟨rfl, by omega⟩
    · rw [Function.update_of_ne hji] at hj
      refine .inr ⟨hji, ?_, hj⟩
      rintro rfl
      exact hunheld j hj
  refine ⟨⟨by omega, fun j _ => hunheld j⟩, ?_⟩
  constructor
  · intro j hj
    exact (Function.update_of_ne (by omega) ..).trans (h.bound j hj)
  · intro j k' hj
    rcases hother j k' hj with ⟨-, rfl⟩ | ⟨-, -, hj'⟩
    · exact hk
    · exact h.range j k' hj'
  · intro j j' k' hj hj'
    rcases hother j k' hj with ⟨rfl, rfl⟩ | ⟨-, hne, hj1⟩
    · rcases hother j' k' hj' with ⟨rfl, -⟩ | ⟨-, hne, -⟩
      · rfl
      · exact absurd rfl hne
    · rcases hother j' k' hj' with ⟨-, heq⟩ | ⟨-, -, hj2⟩
      · exact absurd heq hne
      · exact h.inj j j' k' hj1 hj2
  · intro j k' hj
    rcases hother j k' hj with ⟨-, rfl⟩ | ⟨-, hne, hj'⟩
    · exact .inl (by rw [halive]; decide)
    · exact (hrest k' hne).occupied (h.held j k' hj')
  · intro k' hk' hu
    have hne : k' ≠ k := by
      rintro rfl
      exact hu i (Function.update_self ..)
    refine (hrest k' hne).free.trans (h.free k' hk' fun j hj => ?_)
    by_cases hji : j = i
    · exact hidle k' (hji ▸ hj)
    · exact hu j ((Function.update_of_ne hji ..).trans hj)

/-! ## Runs -/

/-- What holds along a regular run. -/
structure Lobby.Orderly (l : Lobby) : Prop where
  slots : l.Slots
  served : ∀ m ∈ l.log, m.Served

theorem Lobby.Move.log {l l' : Lobby} (h : l.Move l') : l.log <+: l'.log := by
  cases h with
  | quiet => exact List.prefix_rfl
  | accepted => exact List.prefix_rfl
  | joined => exact List.prefix_append ..
  | left => exact List.prefix_append ..
  | ticked => exact List.prefix_append ..

theorem served_snoc {log : List Moment} (h : ∀ m ∈ log, m.Served) {m : Moment} (hm : m.Served) :
    ∀ m' ∈ log ++ [m], m'.Served := by
  intro m' hmem
  rcases List.mem_append.mp hmem with hmem | hmem
  · exact h m' hmem
  · rw [List.mem_singleton.mp hmem]
    exact hm

theorem Lobby.Orderly.move {l l' : Lobby} (h : l.Orderly) (hmove : l.Move l')
    (hregular : ∀ m ∈ l'.log, m.Regular) : l'.Orderly := by
  cases hmove with
  | quiet hsame => exact ⟨h.slots.carried (.of_same hsame) _, h.served⟩
  | @accepted i hi hnone =>
    exact ⟨h.slots.idle hi (by simp [hnone]) (some_neg_ne (by decide)) _, h.served⟩
  | @joined i game given hi hsome hadd =>
    have hreg := hregular _ (List.mem_append_right _ (List.mem_singleton.mpr rfl))
    obtain ⟨hgiven, hslots⟩ := h.slots.joined hi hreg.1 hreg.2 hadd
      (l.log ++ [.joined i l.holders l.game given])
    exact ⟨hslots, served_snoc h.served hgiven⟩
  | @left i player hholder =>
    have hneg : player < 0 := hregular _ (List.mem_append_right _ (List.mem_singleton.mpr rfl))
    have hi : i < maxPlayers := by
      by_contra hge
      exact absurd (h.slots.bound i (not_lt.mp hge)) (by rw [hholder]; simp)
    have hgame : dropPlayer l.game player = l.game := by
      rw [dropPlayer, if_neg (by omega)]
    rw [hgame]
    refine ⟨h.slots.idle hi ?_ (by simp) _, served_snoc h.served trivial⟩
    rw [hholder]
    exact some_neg_ne hneg
  | @ticked game htick =>
    have hlands : TickLands l.game :=
      hregular _ (List.mem_append_right _ (List.mem_singleton.mpr rfl))
    refine ⟨h.slots.carried (gameTick_carries hlands htick) _, served_snoc h.served ?_⟩
    intro k hk hu
    have hfree := h.slots.free k hk hu
    exact ⟨hfree, fun game' htick' => (gameTick_carries hlands htick' k).2 hfree⟩

theorem Lobby.Orderly.moves {l l' : Lobby} (h : l.Orderly) (hmoves : l.Moves l')
    (hregular : ∀ m ∈ l'.log, m.Regular) : l'.Orderly := by
  induction hmoves with
  | refl => exact h
  | tail _ hmove ih =>
    exact (ih fun m hm => hregular m (hmove.log.subset hm)).move hmove hregular

/-! ## From the start -/

theorem spawnCreature_slots (h : spawnCreature g i = some g') (k : Nat) :
    SameSlot g g' k := by
  obtain ⟨⟨rng, spot⟩, -, hg'⟩ := Option.bind_eq_some_iff.mp h
  cases spot with
  | none =>
    cases hg'
    exact ⟨rfl, rfl, rfl⟩
  | some p =>
    cases hg'
    exact ⟨rfl, rfl, rfl⟩

theorem spawnCreatures_slots {is : List Nat} (h : is.foldlM spawnCreature g = some g') (k : Nat) :
    SameSlot g g' k := by
  induction is generalizing g with
  | nil =>
    cases h
    exact .refl _ k
  | cons i is ih =>
    rw [List.foldlM_cons] at h
    obtain ⟨g1, hone, hrest⟩ := Option.bind_eq_some_iff.mp h
    exact (spawnCreature_slots hone k).trans (ih hrest)

theorem gameInit_free {seed : UInt16} (h : gameInit g seed = some g') (k : Nat) :
    slotFree g' k = true := by
  simp only [gameInit, Option.bind_eq_bind, Option.bind_eq_some_iff] at h
  obtain ⟨⟨tiles, rng⟩, -, hspawn⟩ := h
  rw [(spawnCreatures_slots hspawn k).free, slotFree_iff]
  exact ⟨rfl, rfl, rfl⟩

theorem gserverInit_orderly {seed : UInt16} {s : GServer} (h : gserverInit g seed = some s) :
    s.lobby.Orderly := by
  obtain ⟨game, hinit, rfl⟩ := Option.map_eq_some_iff.mp h
  constructor
  · constructor
    · exact fun i _ => rfl
    · exact fun i k hk => absurd hk (by simp [GServer.lobby, GServer.holders])
    · exact fun i j k hk => absurd hk (by simp [GServer.lobby, GServer.holders])
    · exact fun i k hk => absurd hk (by simp [GServer.lobby, GServer.holders])
    · exact fun k _ _ => gameInit_free hinit k
  · exact fun m hm => absurd hm List.not_mem_nil

/-- In every run whose moments are regular, every client that connects is given a slot that
no other client holds, and a slot that no client holds is free and stays so. -/
theorem slots_reused {g : GameState} {seed : UInt16} {s0 s : GServer} {calls : List Call}
    (hinit : gserverInit g seed = some s0) (hrun : serverRun s0 calls = some s)
    (hregular : ∀ m ∈ s.log, m.Regular) : (∀ m ∈ s.log, m.Served) ∧ s.Unblocked := by
  have h : s.lobby.Orderly :=
    (gserverInit_orderly hinit).moves (serverRun_moves calls hrun) hregular
  exact ⟨h.served, h.slots.free⟩

/-! ## Two visits -/

/-- A game of a process that has just started. -/
def startGame : GameState := ⟨World.zero, fun _ => 0, fun _ => 0, Rng.zero⟩

def clientAddr : Addr := ⟨12, List.replicate 12 1⟩

def synPkt : Bytes := header 0 pktSyn 0 ++ wr32 77
def ackPkt : Bytes := header 7 pktAck 0
def finPkt : Bytes := header 7 pktFin 0

/-- The connection that the packets of a client have been fed to. -/
def fedConn (pkts : List Bytes) : GConn :=
  { newConn clientAddr 7 0 with
    nc := pkts.foldl (fun nc pkt => (ncFeed nc pkt (some clientAddr)).1)
      (newConn clientAddr 7 0).nc }

/-- The calls that feed them. -/
def feeds (pkts : List Bytes) : List Call := pkts.map fun pkt => .feed pkt clientAddr 7 0

def lobbyOf (game : GameState) : GServer := ⟨fun _ => none, game, 0, []⟩

theorem startGame_inits :
    ∃ game, gserverInit startGame 0x1234 = some (lobbyOf game) ∧ Live game.rng ∧
      ∀ k, slotFree game k = true := by
  have hlive : Live (seeded startGame.rng 0x1234) := by
    refine live_of_low (g := seeded startGame.rng 0x1234) ?_
    decide
  obtain ⟨game, tiles, rng, -, hinit, -, hlive'⟩ := gameInit_returns (g := startGame) hlive
  refine ⟨game, ?_, hlive', gameInit_free hinit⟩
  rw [gserverInit, hinit]
  rfl

theorem setConn_setConn (s : GServer) (i : Nat) (gc gc' : GConn) :
    (s.setConn i gc).setConn i gc' = s.setConn i gc' := by
  simp [GServer.setConn]

theorem gserverFeed_first {s : GServer} {pkt : Bytes} (hid : ncPeekId pkt = gc.nc.localId)
    (hne : gc.nc.localId ≠ 0) (source : Addr) (r r' : UInt32) :
    gserverFeed (s.setConn 0 gc) pkt source r r' =
      s.setConn 0 { gc with nc := (ncFeed gc.nc pkt (some source)).1 } := by
  have hfind : findById (s.setConn 0 gc) gc.nc.localId = some 0 := by
    rw [findById, List.range_succ_eq_map, List.find?_cons_of_pos]
    simp [conn_setConn]
  simp only [gserverFeed, hid, ne_eq, hne, not_false_eq_true, if_true, hfind, feedConn,
    conn_setConn, setConn_setConn]

theorem feeds_syn (game : GameState) :
    gserverFeed (lobbyOf game) synPkt clientAddr 7 0 =
      (lobbyOf game).setConn 0 (fedConn [synPkt]) :=
  setConn_setConn (lobbyOf game) 0 (newConn clientAddr 7 0) _

theorem feeds_next (pkts : List Bytes) {pkt : Bytes}
    (h : serverRun (lobbyOf game) (feeds pkts) = some ((lobbyOf game).setConn 0 (fedConn pkts)))
    (hid : ncPeekId pkt = (fedConn pkts).nc.localId) (hne : (fedConn pkts).nc.localId ≠ 0) :
    serverRun (lobbyOf game) (feeds (pkts ++ [pkt])) =
      some ((lobbyOf game).setConn 0 (fedConn (pkts ++ [pkt]))) := by
  have hfed : fedConn (pkts ++ [pkt]) =
      { fedConn pkts with nc := (ncFeed (fedConn pkts).nc pkt (some clientAddr)).1 } := by
    simp only [fedConn, List.foldl_append, List.foldl_cons, List.foldl_nil]
  rw [feeds, List.map_append, serverRun, List.foldlM_append, hfed,
    ← gserverFeed_first (s := lobbyOf game) hid hne clientAddr 7 0]
  show (serverRun (lobbyOf game) (feeds pkts)).bind _ = _
  rw [h]
  rfl

theorem feeds_first (game : GameState) : serverRun (lobbyOf game) (feeds [synPkt]) =
    some ((lobbyOf game).setConn 0 (fedConn [synPkt])) :=
  congrArg some (feeds_syn game)

theorem feeds_visit (game : GameState) : serverRun (lobbyOf game) (feeds [synPkt, ackPkt, finPkt]) =
    some ((lobbyOf game).setConn 0 (fedConn [synPkt, ackPkt, finPkt])) :=
  feeds_next [synPkt, ackPkt]
    (feeds_next [synPkt] (feeds_first game) rfl (by decide)) rfl (by decide)

theorem feeds_quit (game : GameState) : serverRun (lobbyOf game) (feeds [synPkt, finPkt]) =
    some ((lobbyOf game).setConn 0 (fedConn [synPkt, finPkt])) :=
  feeds_next [synPkt] (feeds_first game) rfl (by decide)

theorem pollLoop_connected {s : GServer} {n : Nat} {nc : Netchan} (hconn : s.conn i = some gc)
    (hpoll : ncPoll gc.nc = (nc, some ⟨.connected, none⟩)) :
    pollLoop i (n + 1) s =
      (onConnected (s.setConn i { gc with nc := nc }) i { gc with nc := nc }).bind
        (pollLoop i n) := by
  rw [pollLoop, hconn]
  simp only [hpoll]
  rfl

theorem pollLoop_disconnected {s : GServer} {n : Nat} {nc : Netchan} (hconn : s.conn i = some gc)
    (hpoll : ncPoll gc.nc = (nc, some ⟨.disconnected, none⟩)) :
    pollLoop i (n + 1) s =
      pollLoop i n (onDisconnected (s.setConn i { gc with nc := nc }) i { gc with nc := nc }) := by
  rw [pollLoop, hconn]
  simp only [hpoll]

theorem serviceConn_none {s : GServer} (h : s.conn i = none) :
    serviceConn nowMs s i = some s := by
  rw [serviceConn, h]

theorem gserverService_lone {s s' : GServer} (hserve : serviceConn 0 s 0 = some s')
    (hgone : ∀ i, s'.conn i = none) (htick : s'.lastTickMs = 0) :
    gserverService s 0 = some s' := by
  have hfold : (List.range maxPlayers).foldlM (serviceConn 0) s = some s' := by
    show (serviceConn 0 s 0).bind _ = _
    rw [hserve]
    show (serviceConn 0 s' 1).bind _ = _
    rw [serviceConn_none (hgone 1)]
    show (serviceConn 0 s' 2).bind _ = _
    rw [serviceConn_none (hgone 2)]
    show (serviceConn 0 s' 3).bind _ = _
    rw [serviceConn_none (hgone 3)]
    rfl
  rw [gserverService, hfold, Option.bind_eq_bind, Option.bind_some, htick]
  rfl

/-- The records after their service call has looked at the clock. -/
def servedConn (pkts : List Bytes) : GConn :=
  { fedConn pkts with nc := (ncService (fedConn pkts).nc 0).1 }

theorem visit_run {game' : GameState} {player : Int}
    (hadd : gameAddPlayer game = some (game', player)) :
    ∃ s holders,
      serverRun (lobbyOf game) (feeds [synPkt, ackPkt, finPkt] ++ [.service 0]) = some s ∧
      s.holders = (fun _ => none) ∧ s.game = dropPlayer game' player ∧
      s.log = [.joined 0 holders game player, .left 0 player] := by
  let pkts := [synPkt, ackPkt, finPkt]
  let s := (lobbyOf game).setConn 0 (fedConn pkts)
  have hpoll : ncPoll (servedConn pkts).nc =
      ((ncPoll (servedConn pkts).nc).1, some ⟨.connected, none⟩) := rfl
  let gc := { servedConn pkts with nc := (ncPoll (servedConn pkts).nc).1 }
  let gc' := { gc with
    nc := (chanWrite gc.nc gc.rel [gmWelcome, toByte player]).1, player := player }
  let s1 := { (s.setConn 0 gc).setConn 0 gc' with
    game := game', log := [.joined 0 (s.setConn 0 gc).holders game player] }
  have hpoll' : ncPoll gc'.nc = ((ncPoll gc'.nc).1, some ⟨.disconnected, none⟩) := rfl
  let gc'' := { gc' with nc := (ncPoll gc'.nc).1 }
  let s2 := onDisconnected (s1.setConn 0 gc'') 0 gc''
  have hjoin : onConnected (s.setConn 0 gc) 0 gc = some s1 := by
    have hadd' : gameAddPlayer (s.setConn 0 gc).game = some (game', player) := hadd
    rw [onConnected, hadd']
    rfl
  have hserve : serviceConn 0 s 0 = some s2 := by
    have hconn : s.conn 0 = some (fedConn pkts) := conn_setConn ..
    have hloop : pollLoop 0 2 (s.setConn 0 (servedConn pkts)) = some s2 := by
      rw [pollLoop_connected (conn_setConn ..) hpoll, setConn_setConn]
      show (onConnected (s.setConn 0 gc) 0 gc).bind (pollLoop 0 1) = some s2
      have hconn1 : s1.conn 0 = some gc' := rfl
      rw [hjoin, Option.bind_some, pollLoop_disconnected hconn1 hpoll']
      rfl
    rw [serviceConn, hconn]
    show (pollLoop 0 2 (s.setConn 0 (servedConn pkts))).bind _ = some s2
    rw [hloop]
    rfl
  have hgone : ∀ i, s2.conn i = none := by
    intro i
    simp [s2, s1, s, onDisconnected, GServer.setConn, lobbyOf]
  refine ⟨s2, (s.setConn 0 gc).holders, ?_, ?_, rfl, rfl⟩
  · rw [serverRun, List.foldlM_append]
    show (serverRun (lobbyOf game) (feeds pkts)).bind _ = _
    rw [feeds_visit]
    show (gserverService s 0).bind _ = _
    rw [gserverService_lone hserve hgone rfl]
    rfl
  · funext i
    simp [GServer.holders, hgone]

theorem quit_run (game : GameState) :
    ∃ s, serverRun (lobbyOf game) (feeds [synPkt, finPkt] ++ [.service 0]) = some s ∧
      s.log = [.left 0 (-1)] := by
  let pkts := [synPkt, finPkt]
  let s := (lobbyOf game).setConn 0 (fedConn pkts)
  have hpoll : ncPoll (servedConn pkts).nc =
      ((ncPoll (servedConn pkts).nc).1, some ⟨.disconnected, none⟩) := rfl
  let gc := { servedConn pkts with nc := (ncPoll (servedConn pkts).nc).1 }
  let s1 := onDisconnected ((s.setConn 0 (servedConn pkts)).setConn 0 gc) 0 gc
  have hserve : serviceConn 0 s 0 = some s1 := by
    have hconn : s.conn 0 = some (fedConn pkts) := conn_setConn ..
    have hloop : pollLoop 0 1 (s.setConn 0 (servedConn pkts)) = some s1 :=
      pollLoop_disconnected (conn_setConn ..) hpoll
    rw [serviceConn, hconn]
    show (pollLoop 0 1 (s.setConn 0 (servedConn pkts))).bind _ = some s1
    rw [hloop]
    rfl
  have hgone : ∀ i, s1.conn i = none := by
    intro i
    simp [s1, s, onDisconnected, GServer.setConn, lobbyOf]
  refine ⟨s1, ?_, rfl⟩
  rw [serverRun, List.foldlM_append]
  show (serverRun (lobbyOf game) (feeds pkts)).bind _ = _
  rw [feeds_quit]
  show (gserverService s 0).bind _ = _
  rw [gserverService_lone hserve hgone rfl]
  rfl

theorem slots_reused_quit : ∃ s0 s, gserverInit startGame 0x1234 = some s0 ∧
    serverRun s0 (feeds [synPkt, finPkt] ++ [.service 0]) = some s ∧ s.log.length = 1 ∧
    (∀ m ∈ s.log, m.Regular) ∧ (∀ m ∈ s.log, m.Served) ∧ s.Unblocked := by
  obtain ⟨game, hinit, -, -⟩ := startGame_inits
  obtain ⟨s, hrun, hlog⟩ := quit_run game
  have hregular : ∀ m ∈ s.log, m.Regular := by
    intro m hm
    rw [hlog, List.mem_singleton] at hm
    subst hm
    show (-1 : Int) < 0
    decide
  exact ⟨lobbyOf game, s, hinit, hrun, by rw [hlog]; rfl, hregular,
    slots_reused hinit hrun hregular⟩

/-- The first client to leave takes its slot with it. -/
theorem slot_not_reused : ¬ ∀ (calls : List Call) (s0 s : GServer),
    gserverInit startGame 0x1234 = some s0 → serverRun s0 calls = some s →
    (∀ m ∈ s.log, m.Served) ∧ s.Unblocked := by
  intro hclaim
  obtain ⟨game, hinit, hlive, hfree⟩ := startGame_inits
  obtain ⟨game', player, hadd, hcase⟩ := gameAddPlayer_returns hlive
  obtain ⟨s, holders, hrun, hholders, hgame, hlog⟩ := visit_run hadd
  obtain ⟨hserved, hopen⟩ := hclaim _ _ _ hinit hrun
  rcases hcase with rfl | hfloor
  · have hgiven := hserved (.joined 0 holders game (-1)) (by rw [hlog]; exact List.mem_cons_self)
    exact absurd hgiven.1 (by decide)
  · obtain ⟨g', k, hjoin, hk, -, -, hhp, -⟩ :=
      gameAddPlayer_joins hfloor ⟨0, by decide, hfree 0⟩
    obtain ⟨rfl, rfl⟩ : g' = game' ∧ (k : Int) = player := by
      rw [hadd, Option.some.injEq, Prod.mk.injEq] at hjoin
      exact ⟨hjoin.1.symm, hjoin.2.symm⟩
    have hslot := hopen k hk (by rw [hholders]; exact fun i hi => absurd hi (by simp))
    rw [hgame, slotFree_iff] at hslot
    have hzero : (g'.world.players k).hp = 0 := by
      simpa [dropPlayer, World.setPlayer] using hslot.2.1
    rw [hhp] at hzero
    exact absurd hzero (by decide)

end MechanicalResearcher.NetchanIpx
