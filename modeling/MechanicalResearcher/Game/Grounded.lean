import MechanicalResearcher.Lib.Runs
import MechanicalResearcher.Game.Slots

/-!
# Everyone stands on the map

A living player, a living creature and a shot in flight are on a tile of the map that is no
wall.  Tiles only ever turn from treasure into floor, so a tile that was walked on stays open,
and every other move asks `is_floor` first.
-/

namespace MechanicalResearcher.Game

variable {tiles : Tiles} {x y : Int} {i n s : Nat} {g g' : GameState} {seed : UInt16}

/-! ## Open tiles -/

theorem isFloor_iff : isFloor tiles x y = true ↔
    (0 ≤ x ∧ x < mapW) ∧ (0 ≤ y ∧ y < mapH) ∧ tiles (tileIndex x y) ≠ tWall := by
  unfold isFloor
  split_ifs with hout
  · simp only [mapW, mapH, false_iff] at hout ⊢
    omega
  · simp only [mapW, mapH, ne_eq, decide_not, Bool.not_eq_true', decide_eq_false_iff_not] at hout ⊢
    refine ⟨fun htile => ⟨by omega, by omega, htile⟩, fun h => h.2.2⟩

theorem toByte_toNat {v : Int} (h0 : 0 ≤ v) (h : v < 256) : ((toByte v).toNat : Int) = v := by
  rw [toByte, UInt8.toNat_ofNat']
  omega

theorem isFloor_toByte (h : isFloor tiles x y = true) :
    isFloor tiles (toByte x).toNat (toByte y).toNat = true := by
  obtain ⟨hx, hy, -⟩ := isFloor_iff.mp h
  simp only [mapW, mapH] at hx hy
  rw [toByte_toNat hx.1 (by omega), toByte_toNat hy.1 (by omega)]
  exact h

/-- No open tile closes. -/
def Opens (tiles tiles' : Tiles) : Prop := ∀ i, tiles i ≠ tWall → tiles' i ≠ tWall

theorem Opens.isFloor {tiles' : Tiles} (h : Opens tiles tiles') (hfloor : isFloor tiles x y = true)
    : isFloor tiles' x y = true := by
  obtain ⟨hx, hy, htile⟩ := isFloor_iff.mp hfloor
  exact isFloor_iff.mpr ⟨hx, hy, h _ htile⟩

/-! ## The invariant -/

structure World.Grounded (w : World) : Prop where
  players : ∀ i, (w.players i).alive ≠ 0 →
    isFloor w.tiles (w.players i).x.toNat (w.players i).y.toNat = true
  creatures : ∀ i, (w.creatures i).alive ≠ 0 →
    isFloor w.tiles (w.creatures i).x.toNat (w.creatures i).y.toNat = true
  shots : ∀ i, (w.shots i).alive ≠ 0 →
    isFloor w.tiles (w.shots i).x.toNat (w.shots i).y.toNat = true ∧ (w.shots i).dir.toNat < 8

section Set

variable {w : World}

theorem World.Grounded.setPlayer (h : w.Grounded) (i : Nat) {p : Player}
    (hp : p.alive ≠ 0 → isFloor w.tiles p.x.toNat p.y.toNat = true) :
    (w.setPlayer i p).Grounded := by
  refine ⟨fun j hj => ?_, h.creatures, h.shots⟩
  simp only [World.setPlayer] at hj ⊢
  by_cases hij : j = i
  · rw [hij, Function.update_self] at hj ⊢
    exact hp hj
  · rw [Function.update_of_ne hij] at hj ⊢
    exact h.players j hj

theorem World.Grounded.setCreature (h : w.Grounded) (i : Nat) {c : Creature}
    (hc : c.alive ≠ 0 → isFloor w.tiles c.x.toNat c.y.toNat = true) :
    (w.setCreature i c).Grounded := by
  refine ⟨h.players, fun j hj => ?_, h.shots⟩
  simp only [World.setCreature] at hj ⊢
  by_cases hij : j = i
  · rw [hij, Function.update_self] at hj ⊢
    exact hc hj
  · rw [Function.update_of_ne hij] at hj ⊢
    exact h.creatures j hj

theorem World.Grounded.setShot (h : w.Grounded) (i : Nat) {s : Shot}
    (hs : s.alive ≠ 0 → isFloor w.tiles s.x.toNat s.y.toNat = true ∧ s.dir.toNat < 8) :
    (w.setShot i s).Grounded := by
  refine ⟨h.players, h.creatures, fun j hj => ?_⟩
  simp only [World.setShot] at hj ⊢
  by_cases hij : j = i
  · rw [hij, Function.update_self] at hj ⊢
    exact hs hj
  · rw [Function.update_of_ne hij] at hj ⊢
    exact h.shots j hj

theorem World.Grounded.dig (h : w.Grounded) (i : Nat) :
    { w with tiles := Function.update w.tiles i tFloor }.Grounded := by
  have hopens : Opens w.tiles (Function.update w.tiles i tFloor) := by
    intro j hj
    by_cases hij : j = i
    · rw [hij, Function.update_self]
      decide
    · rw [Function.update_of_ne hij]
      exact hj
  exact ⟨fun j hj => hopens.isFloor (h.players j hj),
    fun j hj => hopens.isFloor (h.creatures j hj),
    fun j hj => ⟨hopens.isFloor (h.shots j hj).1, (h.shots j hj).2⟩⟩

end Set

/-! ## Players -/

theorem movePlayer_grounded {w : World} (h : w.Grounded) (halive : (w.players i).alive ≠ 0) :
    (movePlayer w i).Grounded := by
  have hstays := h.players i halive
  unfold movePlayer
  dsimp only
  split_ifs with hdir hfloor htreasure
  · refine World.Grounded.dig (w := w.setPlayer i _) (h.setPlayer i fun _ => ?_) _
    exact isFloor_toByte hfloor
  · exact h.setPlayer i fun _ => isFloor_toByte hfloor
  · exact h.setPlayer i fun _ => hstays
  · exact h

theorem movePlayer_alive {w : World} :
    ((movePlayer w i).players i).alive = (w.players i).alive := by
  unfold movePlayer
  dsimp only
  split_ifs <;> simp [World.setPlayer]

theorem ofNat_toNat_lt (h : n < 8) : (UInt8.ofNat n).toNat < 8 := by
  rw [UInt8.toNat_ofNat']
  omega

theorem firePlayer_grounded (h : g.world.Grounded) (halive : (g.world.players i).alive ≠ 0) :
    (firePlayer g i).world.Grounded := by
  unfold firePlayer
  dsimp only
  split_ifs with hfire
  · split
    · exact h
    · exact h.setShot _ fun _ => ⟨h.players i halive, ofNat_toNat_lt hfire.1⟩
  · exact h

theorem coolDown_world (g : GameState) (i : Nat) : (coolDown g i).world = g.world := by
  unfold coolDown
  split_ifs <;> rfl

theorem stepPlayer_grounded (h : g.world.Grounded) (i : Nat) :
    (stepPlayer g i).world.Grounded := by
  unfold stepPlayer
  split_ifs with halive
  · exact h
  · have hmove : (movePlayer (coolDown g i).world i).Grounded := by
      rw [coolDown_world]
      exact movePlayer_grounded h halive
    refine firePlayer_grounded hmove ?_
    rw [movePlayer_alive, coolDown_world]
    exact halive

/-! ## Shots -/

theorem addScore_grounded {w : World} (h : w.Grounded) (owner : UInt8) (points : UInt16) :
    (addScore w owner points).Grounded := by
  unfold addScore
  split_ifs
  · exact h.setPlayer _ (h.players _)
  · exact h

theorem killShot_grounded {w : World} (h : w.Grounded) (s : Nat) : (killShot w s).Grounded :=
  h.setShot s fun halive => absurd rfl halive

theorem shotLands_grounded {w : World} (h : w.Grounded) (halive : (w.shots s).alive ≠ 0)
    (nx ny : Int) : (shotLands w s nx ny).1.Grounded := by
  unfold shotLands
  split
  · exact killShot_grounded (addScore_grounded (h.setCreature _ fun hc => absurd rfl hc) _ _) s
  · split_ifs
    · exact killShot_grounded h s
    · exact h.setShot s fun _ => h.shots s halive

theorem shotLands_alive {w : World} (halive : (w.shots s).alive ≠ 0) {nx ny : Int}
    (hon : (shotLands w s nx ny).2 = true) :
    ((shotLands w s nx ny).1.shots s).alive ≠ 0 := by
  unfold shotLands at hon ⊢
  split at hon
  · cases hon
  · split_ifs at hon ⊢
    simpa [World.setShot] using halive

theorem shotStep_grounded {w : World} (h : w.Grounded) (halive : (w.shots s).alive ≠ 0) :
    (shotStep w s).1.Grounded ∧
      ((shotStep w s).2 = true → ((shotStep w s).1.shots s).alive ≠ 0) := by
  unfold shotStep
  dsimp only
  split_ifs with hwall
  · exact ⟨killShot_grounded h s, nofun⟩
  · have hfloor := Bool.of_not_eq_false hwall
    have hmoved := h.setShot s (s := { w.shots s with
        x := toByte ((w.shots s).x.toNat + gameDx (w.shots s).dir.toNat)
        y := toByte ((w.shots s).y.toNat + gameDy (w.shots s).dir.toNat) })
      fun _ => ⟨isFloor_toByte hfloor, (h.shots s halive).2⟩
    have halive' : ((w.setShot s { w.shots s with
        x := toByte ((w.shots s).x.toNat + gameDx (w.shots s).dir.toNat)
        y := toByte ((w.shots s).y.toNat + gameDy (w.shots s).dir.toNat) }).shots s).alive ≠ 0 := by
      simpa [World.setShot] using halive
    exact ⟨shotLands_grounded hmoved halive' _ _, shotLands_alive halive'⟩

theorem shotLoop_grounded {w : World} (h : w.Grounded) (halive : (w.shots s).alive ≠ 0) :
    (shotLoop s n w).Grounded := by
  induction n generalizing w with
  | zero => exact h
  | succ n ih =>
    obtain ⟨hgrounded, hon⟩ := shotStep_grounded h halive
    rw [shotLoop]
    split
    · next w' heq =>
        rw [heq] at hgrounded hon
        exact ih hgrounded (hon rfl)
    · next w' heq =>
        rw [heq] at hgrounded
        exact hgrounded

theorem stepShot_grounded {w : World} (h : w.Grounded) (s : Nat) : (stepShot w s).Grounded := by
  unfold stepShot
  split_ifs with halive
  · exact h
  · exact shotLoop_grounded h halive

/-! ## Creatures -/

theorem attack_grounded (h : g.world.Grounded) (k : Nat) :
    (attack g k).world.Grounded := by
  unfold attack
  dsimp only
  split_ifs
  · exact h.setPlayer k (h.players k)
  · exact h.setPlayer k fun halive => absurd rfl halive

theorem freeTile_isFloor {w : World} (h : freeTile w x y = true) :
    isFloor w.tiles x y = true := (Bool.and_eq_true_iff.mp h).1

theorem chase_grounded {w : World} (h : w.Grounded) (i : Nat) (dx dy : Int) (dir : Nat) :
    (chase w i dx dy dir).Grounded := by
  unfold chase
  dsimp only
  split_ifs with hdiag hx hy
  · exact h.setCreature i fun _ => isFloor_toByte (freeTile_isFloor hdiag)
  · refine h.setCreature i fun _ => ?_
    have hfloor := freeTile_isFloor hx
    obtain ⟨hin, -, -⟩ := isFloor_iff.mp hfloor
    simp only [mapW] at hin
    rw [toByte_toNat hin.1 (by omega)]
    exact hfloor
  · refine h.setCreature i fun _ => ?_
    have hfloor := freeTile_isFloor hy
    obtain ⟨-, hin, -⟩ := isFloor_iff.mp hfloor
    simp only [mapH] at hin
    rw [toByte_toNat hin.1 (by omega)]
    exact hfloor
  · exact h

theorem stepCreature_grounded (h : g.world.Grounded) (i : Nat) :
    (stepCreature g i).world.Grounded := by
  unfold stepCreature
  dsimp only
  split_ifs with halive
  · exact h
  · split
    · exact h
    · split_ifs
      · exact attack_grounded h _
      · split
        · exact h
        · exact chase_grounded h i _ _ _

/-! ## Folds -/

theorem foldl_grounded {step : GameState → Nat → GameState}
    (hstep : ∀ g i, g.world.Grounded → (step g i).world.Grounded) (h : g.world.Grounded)
    (is : List Nat) : (is.foldl step g).world.Grounded := by
  induction is generalizing g with
  | nil => exact h
  | cons i is ih => exact ih (hstep g i h)

theorem stepPlayers_grounded (h : g.world.Grounded) :
    (stepPlayers g).world.Grounded :=
  foldl_grounded (fun _ i hg => stepPlayer_grounded hg i) h _

theorem foldlM_grounded {α : Type} {step : GameState → α → Option GameState}
    (hstep : ∀ g a g', g.world.Grounded → step g a = some g' → g'.world.Grounded)
    (h : g.world.Grounded) {as : List α} (hfold : as.foldlM step g = some g') :
    g'.world.Grounded :=
  Lib.Runs.foldlM_invariant (P := fun g => g.world.Grounded) hstep h hfold

theorem foldl_stepShot_grounded {w : World} (h : w.Grounded) (is : List Nat) :
    (is.foldl stepShot w).Grounded := by
  induction is generalizing w with
  | nil => exact h
  | cons i is ih => exact ih (stepShot_grounded h i)

theorem stepCreatures_grounded (h : g.world.Grounded) :
    (stepCreatures g).world.Grounded := by
  unfold stepCreatures
  split_ifs
  · exact h
  · exact foldl_grounded (fun _ i hg => stepCreature_grounded hg i) h _

/-! ## Random floor tiles -/

theorem rngRange_lt {g g' : Rng} {r : Nat} (hn : 0 < n) (h : rngRange g n = some (g', r)) :
    r < n := by
  unfold rngRange at h
  split_ifs at h with hone hbyte
  · cases h
    exact hn
  · obtain ⟨g1, -, heq⟩ := Option.map_eq_some_iff.mp h
    cases heq
    exact Nat.mod_lt _ hn
  · obtain ⟨g1, -, heq⟩ := Option.map_eq_some_iff.mp h
    cases heq
    exact Nat.mod_lt _ hn

theorem randomFloorLoop_isFloor {g g' : Rng} {x y : UInt8}
    (h : randomFloorLoop tiles n g = some (g', some (x, y))) :
    isFloor tiles x.toNat y.toNat = true := by
  induction n generalizing g with
  | zero => cases h
  | succ n ih =>
    rw [randomFloorLoop] at h
    obtain ⟨⟨g1, dx⟩, hx, h⟩ := Option.bind_eq_some_iff.mp h
    obtain ⟨⟨g2, dy⟩, hy, h⟩ := Option.bind_eq_some_iff.mp h
    have hdx := rngRange_lt (by decide) hx
    have hdy := rngRange_lt (by decide) hy
    simp only [mapW, mapH] at hdx hdy
    dsimp only at h
    split_ifs at h with htile
    · cases h
      apply isFloor_toByte
      refine isFloor_iff.mpr ⟨?_, ?_, ?_⟩
      · simp only [mapW]
        omega
      · simp only [mapH]
        omega
      · rw [htile]
        decide
    · exact ih h

theorem randomFloor_isFloor {g g' : Rng} {x y : UInt8}
    (h : randomFloor tiles g = some (g', some (x, y))) : isFloor tiles x.toNat y.toNat = true :=
  randomFloorLoop_isFloor h

theorem respawn_grounded (g : GameState) (i : Nat) (g' : GameState) (h : g.world.Grounded)
    (hstep : respawn g i = some g') : g'.world.Grounded := by
  obtain ⟨⟨rng, spot⟩, hspot, hstep⟩ := Option.bind_eq_some_iff.mp hstep
  cases spot with
  | none =>
    cases hstep
    exact h
  | some spot =>
    cases hstep
    exact h.setPlayer i fun _ => randomFloor_isFloor hspot

theorem stepRespawn_grounded (g : GameState) (i : Nat) (g' : GameState) (h : g.world.Grounded)
    (hstep : stepRespawn g i = some g') : g'.world.Grounded := by
  unfold stepRespawn at hstep
  dsimp only at hstep
  split_ifs at hstep
  · exact respawn_grounded _ i g' (by exact h) hstep
  · cases hstep
    exact h
  · cases hstep
    exact h

theorem spawnCreature_grounded (g : GameState) (i : Nat) (g' : GameState) (h : g.world.Grounded)
    (hstep : spawnCreature g i = some g') : g'.world.Grounded := by
  obtain ⟨⟨rng, spot⟩, hspot, hstep⟩ := Option.bind_eq_some_iff.mp hstep
  cases spot with
  | none =>
    cases hstep
    exact h
  | some spot =>
    cases hstep
    exact h.setCreature i fun _ => randomFloor_isFloor hspot

/-! ## Calls -/

theorem gameInit_grounded (h : gameInit g seed = some g') :
    g'.world.Grounded := by
  rw [gameInit, Option.bind_eq_bind] at h
  obtain ⟨⟨tiles, rng⟩, -, h⟩ := Option.bind_eq_some_iff.mp h
  refine foldlM_grounded spawnCreature_grounded ?_ h
  -- nobody is alive in a cleared world
  exact ⟨fun _ halive => absurd rfl halive, fun _ halive => absurd rfl halive,
    fun _ halive => absurd rfl halive⟩

theorem gameAddPlayer_grounded {player : Int} (h : g.world.Grounded)
    (hjoin : gameAddPlayer g = some (g', player)) : g'.world.Grounded := by
  unfold gameAddPlayer at hjoin
  split at hjoin
  · cases hjoin
    exact h
  · next i hfind =>
      obtain ⟨⟨rng, spot⟩, hspot, hjoin⟩ := Option.bind_eq_some_iff.mp hjoin
      cases spot with
      | none =>
        cases hjoin
        exact h
      | some spot =>
        cases hjoin
        have hplayer := h.setPlayer i (p := { g.world.players i with
            x := spot.1, y := spot.2, facing := 4, alive := 1, hp := playerHp, input := inNone
            score := 0 })
          fun _ => randomFloor_isFloor hspot
        exact ⟨hplayer.players, hplayer.creatures, hplayer.shots⟩

theorem gameSetInput_grounded {w : World} (h : w.Grounded) (player : Int) (input : UInt8) :
    (gameSetInput w player input).Grounded := by
  unfold gameSetInput
  split_ifs
  · exact h.setPlayer _ (h.players _)
  · exact h

theorem gameTick_grounded (h : g.world.Grounded) (htick : gameTick g = some g') :
    g'.world.Grounded := by
  obtain ⟨g1, hrespawns, htick⟩ := Option.bind_eq_some_iff.mp htick
  cases htick
  have hshots : (stepShots (stepPlayers g).world).Grounded :=
    foldl_stepShot_grounded (stepPlayers_grounded h) _
  generalize stepShots (stepPlayers g).world = w at hshots hrespawns
  have hcreatures : (stepCreatures { stepPlayers g with world := w }).world.Grounded :=
    stepCreatures_grounded hshots
  have hfinal := foldlM_grounded stepRespawn_grounded hcreatures hrespawns
  exact ⟨hfinal.players, hfinal.creatures, hfinal.shots⟩

/-- What a server does with a game that runs. -/
inductive GameCall
  | addPlayer
  | setInput (player : Int) (input : UInt8)
  | tick

def gameCall (g : GameState) : GameCall → Option GameState
  | .addPlayer => (gameAddPlayer g).map Prod.fst
  | .setInput player input => some { g with world := gameSetInput g.world player input }
  | .tick => gameTick g

/-- The game after `game_init` and a sequence of calls. -/
def gameRun (g : GameState) (seed : UInt16) (calls : List GameCall) : Option GameState := do
  let g ← gameInit g seed
  calls.foldlM gameCall g

theorem gameCall_grounded (g : GameState) (a : GameCall) (g' : GameState) (h : g.world.Grounded)
    (hcall : gameCall g a = some g') : g'.world.Grounded := by
  cases a with
  | addPlayer =>
    obtain ⟨⟨g1, player⟩, hjoin, heq⟩ := Option.map_eq_some_iff.mp hcall
    cases heq
    exact gameAddPlayer_grounded h hjoin
  | setInput player input =>
    cases hcall
    exact gameSetInput_grounded h player input
  | tick => exact gameTick_grounded h hcall

theorem gameRun_grounded {calls : List GameCall} (h : gameRun g seed calls = some g') :
    g'.world.Grounded := by
  rw [gameRun, Option.bind_eq_bind] at h
  obtain ⟨g1, hinit, hcalls⟩ := Option.bind_eq_some_iff.mp h
  exact foldlM_grounded gameCall_grounded (gameInit_grounded hinit) hcalls

/-! ## Runs return -/

theorem stepPlayer_rng (g : GameState) (i : Nat) : (stepPlayer g i).rng = g.rng := by
  unfold stepPlayer firePlayer coolDown
  dsimp only
  split_ifs
  all_goals first | rfl | (split <;> rfl)

theorem stepCreature_rng (g : GameState) (i : Nat) : (stepCreature g i).rng = g.rng := by
  unfold stepCreature attack
  dsimp only
  split_ifs
  · rfl
  · split
    · rfl
    · split_ifs
      · rfl
      · rfl
      · split <;> rfl

theorem foldl_rng {step : GameState → Nat → GameState} (hstep : ∀ g i,
    (step g i).rng = g.rng) (g : GameState)
    (is : List Nat) : (is.foldl step g).rng = g.rng := by
  induction is generalizing g with
  | nil => rfl
  | cons i is ih => exact (ih _).trans (hstep g i)

theorem stepCreatures_rng (g : GameState) : (stepCreatures g).rng = g.rng := by
  unfold stepCreatures
  split_ifs
  · rfl
  · exact foldl_rng stepCreature_rng g _

theorem respawn_returns (h : Live g.rng) (i : Nat) :
    ∃ g', respawn g i = some g' ∧ Live g'.rng := by
  obtain ⟨rng, spot, hspot, hlive⟩ := h.randomFloor g.world.tiles
  simp only [respawn, hspot, Option.bind_eq_bind, Option.bind_some]
  cases spot with
  | none => exact ⟨_, rfl, hlive⟩
  | some p => exact ⟨_, rfl, hlive⟩

theorem stepRespawn_returns (g : GameState) (i : Nat) (h : Live g.rng) :
    ∃ g', stepRespawn g i = some g' ∧ Live g'.rng := by
  unfold stepRespawn
  dsimp only
  split_ifs
  · exact respawn_returns (by exact h) i
  · exact ⟨_, rfl, h⟩
  · exact ⟨_, rfl, h⟩

theorem foldlM_returns {α : Type} {step : GameState → α → Option GameState}
    (hstep : ∀ g a, Live g.rng → ∃ g', step g a = some g' ∧ Live g'.rng) (h : Live g.rng)
    (as : List α) : ∃ g', as.foldlM step g = some g' ∧ Live g'.rng := by
  induction as generalizing g with
  | nil => exact ⟨g, rfl, h⟩
  | cons a as ih =>
    obtain ⟨g1, hone, h1⟩ := hstep g a h
    rw [List.foldlM_cons, hone]
    exact ih h1

theorem gameTick_returns (h : Live g.rng) :
    ∃ g', gameTick g = some g' ∧ Live g'.rng := by
  have hlive : Live (stepCreatures
      { stepPlayers g with world := stepShots (stepPlayers g).world }).rng := by
    rw [stepCreatures_rng, stepPlayers, foldl_rng stepPlayer_rng]
    exact h
  obtain ⟨g1, hrespawns, h1⟩ := foldlM_returns stepRespawn_returns hlive (List.range maxPlayers)
  refine ⟨{ g1 with world := { g1.world with tick := g1.world.tick + 1 } }, ?_, h1⟩
  rw [gameTick, stepRespawns, hrespawns]
  rfl

theorem gameCall_returns (g : GameState) (a : GameCall) (h : Live g.rng) :
    ∃ g', gameCall g a = some g' ∧ Live g'.rng := by
  cases a with
  | addPlayer =>
    obtain ⟨g', player, hjoin, hlive⟩ := gameAddPlayer_live h
    exact ⟨g', by rw [gameCall, hjoin]; rfl, hlive⟩
  | setInput player input => exact ⟨_, rfl, h⟩
  | tick => exact gameTick_returns h

theorem gameRun_returns (h : Live (seeded g.rng seed)) (calls : List GameCall) :
    ∃ g', gameRun g seed calls = some g' := by
  obtain ⟨g1, tiles, rng, -, hinit, -, hlive⟩ := gameInit_returns h
  obtain ⟨g', hcalls, -⟩ := foldlM_returns gameCall_returns hlive calls
  exact ⟨g', by rw [gameRun, hinit]; exact hcalls⟩

end MechanicalResearcher.Game
