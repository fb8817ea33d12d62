import MechanicalResearcher.Lib.Accesses
import MechanicalResearcher.Game.Grounded

/-!
# The array elements that a tick touches

`game_tick` takes elements of the map, of the direction tables and of the player arrays by
indices that it computes from positions, inputs and shots.  `tickAccesses` lists them in the
order of the code; counters of loops over whole arrays are not listed.
-/

namespace MechanicalResearcher.Game

inductive Access
  /-- `tiles[i]` -/
  | tile (i : Nat)
  /-- `game_dx[i]` and `game_dy[i]` -/
  | dir (i : Nat)
  /-- `players[i]` and `respawn_t[i]` -/
  | player (i : Nat)
  deriving DecidableEq, Repr

def Access.InRange : Access → Prop
  | .tile i => i < mapTiles
  | .dir i => i < 8
  | .player i => i < maxPlayers

/-- The index of `TILE(w, x, y)` as C computes it, in `unsigned`. -/
def tileAddr (x y : Int) : Nat := ((y % 2 ^ 32 * mapW + x % 2 ^ 32) % 2 ^ 32).toNat

def isFloorAccesses (x y : Int) : List Access :=
  if x < 0 ∨ y < 0 ∨ x ≥ mapW ∨ y ≥ mapH then [] else [.tile (tileAddr x y)]

def movePlayerAccesses (w : World) (i : Nat) : List Access :=
  let p := w.players i
  let dir := inDir p.input
  if dir < 8 then
    let nx : Int := p.x.toNat + gameDx dir
    let ny : Int := p.y.toNat + gameDy dir
    .dir dir :: isFloorAccesses nx ny ++
      if isFloor w.tiles nx ny then [.tile (tileAddr nx ny)] else []
  else []

def stepPlayerAccesses (g : GameState) (i : Nat) : List Access :=
  if (g.world.players i).alive = 0 then [] else movePlayerAccesses g.world i

def shotStepAccesses (w : World) (s : Nat) : List Access :=
  let sh := w.shots s
  let nx : Int := sh.x.toNat + gameDx sh.dir.toNat
  let ny : Int := sh.y.toNat + gameDy sh.dir.toNat
  .dir sh.dir.toNat :: isFloorAccesses nx ny ++
    if isFloor w.tiles nx ny = true ∧ (creatureAt w nx ny).isSome = true ∧
        sh.owner.toNat < maxPlayers then
      [.player sh.owner.toNat]
    else []

def shotLoopAccesses (s : Nat) : Nat → World → List Access
  | 0, _ => []
  | n + 1, w =>
    shotStepAccesses w s ++
      if (shotStep w s).2 then shotLoopAccesses s n (shotStep w s).1 else []

def stepShotAccesses (w : World) (s : Nat) : List Access :=
  if (w.shots s).alive = 0 then [] else shotLoopAccesses s shotSpeed w

def chaseAccesses (w : World) (i : Nat) (dx dy : Int) (dir : Nat) : List Access :=
  let x : Int := (w.creatures i).x.toNat
  let y : Int := (w.creatures i).y.toNat
  .dir dir :: isFloorAccesses (x + gameDx dir) (y + gameDy dir) ++
    if freeTile w (x + gameDx dir) (y + gameDy dir) then []
    else
      isFloorAccesses (x + sgn dx) y ++
        if freeTile w (x + sgn dx) y then [] else isFloorAccesses x (y + sgn dy)

/-- The player is `respawn_t[p - w->players]` as well. -/
def towardsAccesses (w : World) (i k : Nat) : List Access :=
  let dx : Int := (w.players k).x.toNat - (w.creatures i).x.toNat
  let dy : Int := (w.players k).y.toNat - (w.creatures i).y.toNat
  .player k ::
    if (dx ≥ -1 ∧ dx ≤ 1) ∧ (dy ≥ -1 ∧ dy ≤ 1) then []
    else (vecToDir dx dy).elim [] (chaseAccesses w i dx dy)

def stepCreatureAccesses (g : GameState) (i : Nat) : List Access :=
  let c := g.world.creatures i
  if c.alive = 0 then []
  else (nearestPlayer g.world c.x.toNat c.y.toNat).elim [] (towardsAccesses g.world i)

def randomFloorAccesses (tiles : Tiles) : Nat → Rng → List Access
  | 0, _ => []
  | n + 1, g =>
    (rngRange g (mapW - 2)).elim [] fun dx =>
      (rngRange dx.1 (mapH - 2)).elim [] fun dy =>
        let x : Int := 1 + dx.2
        let y : Int := 1 + dy.2
        .tile (tileAddr x y) ::
          if tiles (tileIndex x y) = tFloor then [] else randomFloorAccesses tiles n dy.1

def stepRespawnAccesses (g : GameState) (i : Nat) : List Access :=
  if ((g.world.players i).alive = 0 ∧ g.respawnT i > 0) ∧ g.respawnT i - 1 = 0 then
    randomFloorAccesses g.world.tiles 4000 g.rng
  else []

/-- The accesses of a loop, up to the turn that does not return. -/
def loopAccesses {σ : Type} (step : σ → Nat → Option σ) (accesses : σ → Nat → List Access) :
    List Nat → σ → List Access
  | [], _ => []
  | i :: is, s =>
    accesses s i ++ (step s i).elim [] (loopAccesses step accesses is)

def stepCreaturesAccesses (g : GameState) : List Access :=
  if g.world.tick &&& 1 ≠ 0 then []
  else
    loopAccesses (fun g i => some (stepCreature g i)) stepCreatureAccesses
      (List.range maxCreatures) g

def tickAccesses (g : GameState) : List Access :=
  let g1 := stepPlayers g
  let g2 := { g1 with world := stepShots g1.world }
  loopAccesses (fun g i => some (stepPlayer g i)) stepPlayerAccesses (List.range maxPlayers) g ++
    loopAccesses (fun w s => some (stepShot w s)) stepShotAccesses (List.range maxShots) g1.world ++
    stepCreaturesAccesses g2 ++
    loopAccesses stepRespawn stepRespawnAccesses (List.range maxPlayers) (stepCreatures g2)

theorem tileAddr_eq {x y : Int} (hx : 0 ≤ x ∧ x < mapW) (hy : 0 ≤ y ∧ y < mapH) :
    tileAddr x y = tileIndex x y ∧ tileAddr x y < mapTiles := by
  simp only [mapW, mapH, mapTiles, tileAddr, tileIndex, Nat.cast_ofNat] at *
  rw [Int.emod_eq_of_lt (a := y) (by omega) (by omega), Int.emod_eq_of_lt (a := x) (by omega)
    (by omega), Int.emod_eq_of_lt (by omega) (by omega)]
  omega

/-- Every access of a list is in range. -/
abbrev Safe (as : List Access) : Prop := Lib.Safe Access.InRange as

theorem isFloorAccesses_safe (x y : Int) : Safe (isFloorAccesses x y) := by
  unfold isFloorAccesses
  refine .ite (fun _ => .nil) fun hin => .cons ?_ .nil
  simp only [mapW, mapH] at hin
  exact (tileAddr_eq (by simp only [mapW]; omega) (by simp only [mapH]; omega)).2

theorem isFloor_safe {tiles : Tiles} {x y : Int} (h : isFloor tiles x y = true) :
    (Access.tile (tileAddr x y)).InRange := by
  obtain ⟨hx, hy, -⟩ := isFloor_iff.mp h
  exact (tileAddr_eq hx hy).2

theorem loopAccesses_safe {σ : Type} {step : σ → Nat → Option σ}
    {accesses : σ → Nat → List Access} {P : σ → Prop} {is : List Nat}
    (hsafe : ∀ s, P s → ∀ i ∈ is, Safe (accesses s i))
    (hstep : ∀ s i s', P s → step s i = some s' → P s') {s : σ} (hs : P s) :
    Safe (loopAccesses step accesses is s) := by
  induction is generalizing s with
  | nil => exact .nil
  | cons i is ih =>
    refine (hsafe s hs i List.mem_cons_self).append (.elim fun s' hs' => ?_)
    exact ih (fun s hs i hi => hsafe s hs i (List.mem_cons_of_mem _ hi)) (hstep s i s' hs hs')

theorem stepPlayerAccesses_safe (g : GameState) (i : Nat) : Safe (stepPlayerAccesses g i) := by
  unfold stepPlayerAccesses movePlayerAccesses
  refine .ite (fun _ => .nil) fun _ => .ite (fun hdir => .append ?_ ?_) fun _ => .nil
  · exact .cons hdir (isFloorAccesses_safe _ _)
  · exact .ite (fun hfloor => .cons (isFloor_safe hfloor) .nil) fun _ => .nil

theorem shotStepAccesses_safe {w : World} {s : Nat} (hdir : (w.shots s).dir.toNat < 8) :
    Safe (shotStepAccesses w s) := by
  unfold shotStepAccesses
  refine .append (.cons hdir (isFloorAccesses_safe _ _)) ?_
  exact .ite (fun hhit => .cons hhit.2.2 .nil) fun _ => .nil

theorem shotLoopAccesses_safe {s n : Nat} {w : World} (h : w.Grounded)
    (halive : (w.shots s).alive ≠ 0) : Safe (shotLoopAccesses s n w) := by
  induction n generalizing w with
  | zero => exact .nil
  | succ n ih =>
    obtain ⟨hgrounded, hon⟩ := shotStep_grounded h halive
    refine (shotStepAccesses_safe (h.shots s halive).2).append ?_
    exact .ite (fun hgo => ih hgrounded (hon hgo)) fun _ => .nil

theorem stepShotAccesses_safe {w : World} (h : w.Grounded) (s : Nat) :
    Safe (stepShotAccesses w s) :=
  .ite (fun _ => .nil) fun halive => shotLoopAccesses_safe h halive

theorem vecToDir_lt {dx dy : Int} {dir : Nat} (h : vecToDir dx dy = some dir) : dir < 8 :=
  List.mem_range.mp (List.mem_of_find?_eq_some h)

theorem chaseAccesses_safe (w : World) (i : Nat) (dx dy : Int) {dir : Nat} (hdir : dir < 8) :
    Safe (chaseAccesses w i dx dy dir) := by
  refine .append (.cons hdir (isFloorAccesses_safe _ _)) (.ite (fun _ => .nil) fun _ => ?_)
  refine (isFloorAccesses_safe _ _).append (.ite (fun _ => .nil) fun _ => ?_)
  exact isFloorAccesses_safe _ _

theorem stepCreatureAccesses_safe (g : GameState) (i : Nat) : Safe (stepCreatureAccesses g i) := by
  refine .ite (fun _ => .nil) fun _ => .elim fun k hk => .cons ?_ ?_
  · exact (nearestPlayer_some hk).1
  · refine .ite (fun _ => .nil) fun _ => .elim fun dir hdir => ?_
    exact chaseAccesses_safe g.world i _ _ (vecToDir_lt hdir)

theorem randomFloorAccesses_safe (tiles : Tiles) (n : Nat) (g : Rng) :
    Safe (randomFloorAccesses tiles n g) := by
  induction n generalizing g with
  | zero => exact .nil
  | succ n ih =>
    refine .elim fun dx hx => .elim fun dy hy => .cons ?_ (.ite (fun _ => .nil) fun _ => ih _)
    have hdx := rngRange_lt (by decide) hx
    have hdy := rngRange_lt (by decide) hy
    simp only [mapW, mapH] at hdx hdy
    exact (tileAddr_eq (by simp only [mapW]; omega) (by simp only [mapH]; omega)).2

theorem tickAccesses_safe {g : GameState} (h : g.world.Grounded) : Safe (tickAccesses g) := by
  have hplayers := stepPlayers_grounded h
  refine ((Lib.Safe.append ?_ ?_).append ?_).append ?_
  · exact loopAccesses_safe (P := fun _ => True) (fun g _ i _ => stepPlayerAccesses_safe g i)
      (fun _ _ _ _ _ => trivial) trivial
  · refine loopAccesses_safe (P := World.Grounded) (fun w hw s _ => stepShotAccesses_safe hw s)
      (fun w s w' hw hstep => ?_) hplayers
    cases hstep
    exact stepShot_grounded hw s
  · refine .ite (fun _ => .nil) fun _ => ?_
    exact loopAccesses_safe (P := fun _ => True) (fun g _ i _ => stepCreatureAccesses_safe g i)
      (fun _ _ _ _ _ => trivial) trivial
  · refine loopAccesses_safe (P := fun _ => True) (fun g _ i _ => ?_)
      (fun _ _ _ _ _ => trivial) trivial
    exact .ite (fun _ => randomFloorAccesses_safe _ _ _) fun _ => .nil

/-- Whatever players join and press, all that lives stands on an open tile of the map, and
the next tick stays within the arrays. -/
theorem everyone_stands {g g' : GameState} {seed : UInt16} {calls : List GameCall}
    (h : gameRun g seed calls = some g') :
    let w := g'.world
    let Open (x y : UInt8) := x.toNat < mapW ∧ y.toNat < mapH ∧
      w.tiles (y.toNat * mapW + x.toNat) ≠ tWall
    (∀ i, (w.players i).alive ≠ 0 → Open (w.players i).x (w.players i).y) ∧
    (∀ i, (w.creatures i).alive ≠ 0 → Open (w.creatures i).x (w.creatures i).y) ∧
    (∀ i, (w.shots i).alive ≠ 0 → Open (w.shots i).x (w.shots i).y) ∧
    ∀ a ∈ tickAccesses g', a.InRange := by
  have hgrounded := gameRun_grounded h
  have hopen {x y : UInt8} (hfloor : isFloor g'.world.tiles x.toNat y.toNat = true) :
      x.toNat < mapW ∧ y.toNat < mapH ∧
        g'.world.tiles (y.toNat * mapW + x.toNat) ≠ tWall := by
    obtain ⟨hx, hy, htile⟩ := isFloor_iff.mp hfloor
    exact ⟨by omega, by omega, htile⟩
  exact ⟨fun i hi => hopen (hgrounded.players i hi), fun i hi => hopen (hgrounded.creatures i hi),
    fun i hi => hopen (hgrounded.shots i hi).1, tickAccesses_safe hgrounded⟩

/-- Seed 0 on a live cycle; a player joins, walks north and fires east. -/
theorem everyone_stands_one_tick : ∃ g g', gameRun g 0
    [.addPlayer, .setInput 0 0x20, .tick] = some g' ∧
      ((∀ i, (g'.world.players i).alive ≠ 0 →
          g'.world.tiles ((g'.world.players i).y.toNat * mapW + (g'.world.players i).x.toNat) ≠
            tWall) ∧
        ∀ a ∈ tickAccesses g', a.InRange) := by
  obtain ⟨before, hseed⟩ := rngSeed_surjective 0 0 0x5A Rng.zero
  have hlive : Live (seeded before 0) := by
    rw [seeded]
    exact hseed ▸ live_of_low (by decide)
  obtain ⟨g', hrun⟩ := gameRun_returns (g := ⟨World.zero, fun _ => 0, fun _ => 0, before⟩) hlive
    [.addPlayer, .setInput 0 0x20, .tick]
  obtain ⟨hplayers, -, -, haccesses⟩ := everyone_stands hrun
  exact ⟨_, g', hrun, fun i hi => (hplayers i hi).2.2, haccesses⟩

end MechanicalResearcher.Game
