import MechanicalResearcher.Game.World

/-!
# Calls that return

`rng_range` returns exactly on the cycles of the generator that hold a draw it accepts.  A
state is live when its cycle holds a draw below 188, which every range of the game
accepts: from a live state all of the game's calls return, and leave a live state.
-/

namespace MechanicalResearcher.Game

open Lib.Orbits

/-- 188 is the least limit of the ranges 94, 62 and 100. -/
abbrev Live (g : Rng) : Prop := Draws 188 g

theorem Live.later {g : Rng} (h : Live g) (n : Nat) : Live (rngNext^[n] g) :=
  Meets.iterate rngNext_injective h n

theorem Live.earlier {g : Rng} {n : Nat} (h : Live (rngNext^[n] g)) : Live g := by
  obtain ⟨k, hk⟩ := h
  refine ⟨k + n, ?_⟩
  rw [show k + n + 1 = (k + 1) + n by omega, Function.iterate_add_apply]
  exact hk

theorem live_of_low {g : Rng} (h : g.c.toNat < 188) : Live g :=
  meets_of_accepted (P := fun g => g.c.toNat < 188) rngNext_injective h

theorem Live.rngRange {n : Nat} (hn : 1 < n) (hn' : n ≤ 256) (hlim : 188 ≤ byteLimit n) {g : Rng}
    (h : Live g) : ∃ g' r, rngRange g n = some (g', r) ∧ r < n ∧ Live g' := by
  obtain ⟨k, hk⟩ := rngRange_returns hn hn' (h.mono hlim)
  exact ⟨_, _, hk, Nat.mod_lt _ (by omega), h.later (k + 1)⟩

theorem Live.randomFloorLoop (tiles : Tiles) (n : Nat) {g : Rng} (h : Live g) :
    ∃ g' spot, randomFloorLoop tiles n g = some (g', spot) ∧ Live g' := by
  induction n generalizing g with
  | zero => exact ⟨g, none, rfl, h⟩
  | succ n ih =>
    obtain ⟨g1, dx, hx, -, h1⟩ := h.rngRange (n := mapW - 2) (by decide) (by decide) (by decide)
    obtain ⟨g2, dy, hy, -, h2⟩ := h1.rngRange (n := mapH - 2) (by decide) (by decide) (by decide)
    simp only [Game.randomFloorLoop, hx, hy, Option.bind_eq_bind, Option.bind_some]
    split
    · exact ⟨g2, _, rfl, h2⟩
    · exact ih h2

theorem Live.randomFloor (tiles : Tiles) {g : Rng} (h : Live g) :
    ∃ g' spot, randomFloor tiles g = some (g', spot) ∧ Live g' :=
  h.randomFloorLoop tiles 4000

theorem spawnCreature_returns {g : GameState} (h : Live g.rng) (i : Nat) :
    ∃ g', spawnCreature g i = some g' ∧ Live g'.rng ∧ g'.world.tiles = g.world.tiles := by
  obtain ⟨rng, spot, hspot, hlive⟩ := h.randomFloor g.world.tiles
  simp only [spawnCreature, hspot, Option.bind_eq_bind, Option.bind_some]
  cases spot with
  | none => exact ⟨_, rfl, hlive, rfl⟩
  | some p => exact ⟨_, rfl, hlive, rfl⟩

theorem spawnCreatures_return {g : GameState} (h : Live g.rng) (is : List Nat) :
    ∃ g', is.foldlM spawnCreature g = some g' ∧ Live g'.rng ∧ g'.world.tiles = g.world.tiles := by
  induction is generalizing g with
  | nil => exact ⟨g, rfl, h, rfl⟩
  | cons i is ih =>
    obtain ⟨g1, hspawn, h1, htiles⟩ := spawnCreature_returns h i
    obtain ⟨g2, hfold, h2, htiles'⟩ := ih h1
    refine ⟨g2, ?_, h2, htiles'.trans htiles⟩
    rw [List.foldlM_cons, hspawn]
    exact hfold

theorem fillTile_returns (tiles : Tiles) {g : Rng} (h : Live g) (i : Nat) :
    ∃ tiles' g', fillTile (tiles, g) i = some (tiles', g') ∧ Live g' := by
  rw [fillTile]
  split
  · obtain ⟨g', r, hr, -, hlive⟩ := h.rngRange (n := 100) (by decide) (by decide) (by decide)
    exact ⟨_, g', by rw [hr]; rfl, hlive⟩
  · exact ⟨_, g, rfl, h⟩

theorem fill_returns (tiles : Tiles) {g : Rng} (h : Live g) (is : List Nat) :
    ∃ tiles' g', is.foldlM fillTile (tiles, g) = some (tiles', g') ∧ Live g' := by
  induction is generalizing tiles g with
  | nil => exact ⟨tiles, g, rfl, h⟩
  | cons i is ih =>
    obtain ⟨tiles1, g1, htile, h1⟩ := fillTile_returns tiles h i
    rw [List.foldlM_cons, htile]
    exact ih _ h1

theorem genMap_returns (tiles : Tiles) {g : Rng} (h : Live g) :
    ∃ tiles' g', genMap tiles g = some (tiles', g') ∧ Live g' := by
  obtain ⟨tiles1, g1, hfill, h1⟩ := fill_returns tiles h (List.range mapTiles)
  exact ⟨_, g1, by rw [genMap, hfill]; rfl, h1⟩

/-- The state in which `game_init` begins to draw. -/
def seeded (g : Rng) (seed : UInt16) : Rng := rngSeed g seed.toUInt8 (seed >>> 8).toUInt8 0x5A

theorem gameInit_returns {g : GameState} {seed : UInt16} (h : Live (seeded g.rng seed)) :
    ∃ g' tiles rng, genMap World.zero.tiles (seeded g.rng seed) = some (tiles, rng) ∧
      gameInit g seed = some g' ∧ g'.world.tiles = tiles ∧ Live g'.rng := by
  obtain ⟨tiles, rng, hmap, hlive⟩ := genMap_returns World.zero.tiles h
  obtain ⟨g', hspawn, hlive', htiles⟩ := spawnCreatures_return
    (g := ⟨{ World.zero with tiles := tiles }, fun _ => 0, fun _ => 0, rng⟩) hlive
    (List.range maxCreatures)
  refine ⟨g', tiles, rng, hmap, ?_, htiles, hlive'⟩
  have hmap' : genMap World.zero.tiles
      (rngSeed g.rng seed.toUInt8 (seed >>> 8).toUInt8 0x5A) = some (tiles, rng) := hmap
  rw [gameInit, hmap']
  exact hspawn

end MechanicalResearcher.Game
