import MechanicalResearcher.Game.Rng

/-!
# The game core

`game.c`, the same file in `netchan-v2/demo/game` and `netchan-ipx/demo`.  A fixed array is
a function from its index, and a pointer into an array is that index.  `GameState` is a world
with the statics of `game.c` and `rng.c`; `none` is a call that does not return, because
`rng_range` does not.
-/

namespace MechanicalResearcher.Game

abbrev mapW : Nat := 96
abbrev mapH : Nat := 64
abbrev mapTiles : Nat := mapW * mapH
abbrev maxPlayers : Nat := 4
abbrev maxCreatures : Nat := 24
abbrev maxShots : Nat := 16
def shotRange : UInt8 := 6
def playerHp : UInt8 := 10
def shotSpeed : Nat := 2
def fireCdTicks : UInt8 := 2
def respawnTicks : UInt8 := 24
def creatureDmg : UInt8 := 1

def tWall : UInt8 := 0
def tFloor : UInt8 := 1
def tTreasure : UInt8 := 3

def inNone : UInt8 := 0xFF
def inDir (b : UInt8) : Nat := (b &&& 0x0F).toNat
def inFireDir (b : UInt8) : Nat := ((b >>> 4) &&& 0x0F).toNat

/-- 8 directions, clockwise from north -/
def gameDx (dir : Nat) : Int := [0, 1, 1, 1, 0, -1, -1, -1].getD dir 0
def gameDy (dir : Nat) : Int := [-1, -1, 0, 1, 1, 1, 0, -1].getD dir 0

structure Player where
  x : UInt8
  y : UInt8
  facing : UInt8
  alive : UInt8
  hp : UInt8
  /-- latest input byte from this client -/
  input : UInt8
  score : UInt16
  deriving DecidableEq, Repr

structure Creature where
  x : UInt8
  y : UInt8
  kind : UInt8
  alive : UInt8
  deriving DecidableEq, Repr

structure Shot where
  x : UInt8
  y : UInt8
  dir : UInt8
  alive : UInt8
  owner : UInt8
  ttl : UInt8
  deriving DecidableEq, Repr

abbrev Tiles := Nat → UInt8

structure World where
  tiles : Tiles
  players : Nat → Player
  creatures : Nat → Creature
  shots : Nat → Shot
  tick : UInt16
  nplayers : UInt8

/-- `memset(w, 0, sizeof(*w))` -/
def World.zero : World where
  tiles := fun _ => tWall
  players := fun _ => ⟨0, 0, 0, 0, 0, 0, 0⟩
  creatures := fun _ => ⟨0, 0, 0, 0⟩
  shots := fun _ => ⟨0, 0, 0, 0, 0, 0⟩
  tick := 0
  nplayers := 0

structure GameState where
  world : World
  fireCd : Nat → UInt8
  respawnT : Nat → UInt8
  rng : Rng

def World.setPlayer (w : World) (i : Nat) (p : Player) : World :=
  { w with players := Function.update w.players i p }

def World.setCreature (w : World) (i : Nat) (c : Creature) : World :=
  { w with creatures := Function.update w.creatures i c }

def World.setShot (w : World) (i : Nat) (s : Shot) : World :=
  { w with shots := Function.update w.shots i s }

/-- The index of `TILE(w, x, y)`. -/
def tileIndex (x y : Int) : Nat := y.toNat * mapW + x.toNat

/-- The cast of an `int` to `uint8_t`. -/
def toByte (v : Int) : UInt8 := UInt8.ofNat (v % 256).toNat

def sgn (v : Int) : Int := if v < 0 then -1 else if v > 0 then 1 else 0

def vecToDir (dx dy : Int) : Option Nat :=
  (List.range 8).find? fun i => gameDx i = sgn dx ∧ gameDy i = sgn dy

def isFloor (tiles : Tiles) (x y : Int) : Bool :=
  if x < 0 ∨ y < 0 ∨ x ≥ mapW ∨ y ≥ mapH then false
  else tiles (tileIndex x y) ≠ tWall

/-- The offsets of the eight tiles around a tile, in the order of the two loops. -/
def around : List (Int × Int) :=
  [(-1, -1), (0, -1), (1, -1), (-1, 0), (1, 0), (-1, 1), (0, 1), (1, 1)]

def wallNeighbors (tiles : Tiles) (x y : Int) : Nat :=
  around.countP fun d => tiles (tileIndex (x + d.1) (y + d.2)) = tWall

/-- Tile `i` is not on the border of the map. -/
def interior (i : Nat) : Bool :=
  1 ≤ i % mapW ∧ i % mapW < mapW - 1 ∧ 1 ≤ i / mapW ∧ i / mapW < mapH - 1

structure Flood where
  stack : List Nat
  seen : Nat → Bool
  size : Nat

/-- The neighbour of `cur` in direction `d` goes on the stack, if it is floor and new. -/
def floodPush (tiles : Tiles) (cur : Nat) (f : Flood) (d : Nat) : Flood :=
  let nx : Int := (cur % mapW : Nat) + gameDx d
  let ny : Int := (cur / mapW : Nat) + gameDy d
  if nx < 1 ∨ ny < 1 ∨ nx ≥ mapW - 1 ∨ ny ≥ mapH - 1 then f
  else if tiles (tileIndex nx ny) = tWall ∨ f.seen (tileIndex nx ny) = true then f
  else
    { f with
      seen := Function.update f.seen (tileIndex nx ny) true
      stack := tileIndex nx ny :: f.stack }

/-- The loop on the stack; a tile is pushed once, so the number of tiles bounds its turns. -/
def floodLoop (tiles : Tiles) : Nat → Flood → Flood
  | 0, f => f
  | n + 1, f =>
    match f.stack with
    | [] => f
    | cur :: rest =>
      floodLoop tiles n
        ([0, 2, 4, 6].foldl (floodPush tiles cur) { f with stack := rest, size := f.size + 1 })

def floodFrom (tiles : Tiles) (seen : Nat → Bool) (start : Nat) : Flood :=
  floodLoop tiles mapTiles ⟨[start], Function.update seen start true, 0⟩

structure Scan where
  seen : Nat → Bool
  bestStart : Option Nat
  bestSize : Nat

def scanTile (tiles : Tiles) (s : Scan) (start : Nat) : Scan :=
  if tiles start = tWall ∨ s.seen start = true then s
  else
    let f := floodFrom tiles s.seen start
    if f.size > s.bestSize then ⟨f.seen, some start, f.size⟩ else { s with seen := f.seen }

/-- The tiles of the two loops, row by row. -/
def interiorTiles : List Nat := (List.range mapTiles).filter interior

/-- The start of the largest region. -/
def largestRegion (tiles : Tiles) : Option Nat :=
  (interiorTiles.foldl (scanTile tiles) ⟨fun _ => false, none, 0⟩).bestStart

/-- What the second flood marks; the size it counts is not read. -/
def keptTiles (tiles : Tiles) (i : Nat) : Bool :=
  (largestRegion tiles).any fun start => (floodFrom tiles (fun _ => false) start).seen i

def keepLargestRegion (tiles : Tiles) : Tiles :=
  fun i => if i < mapTiles ∧ tiles i ≠ tWall ∧ keptTiles tiles i = false then tWall else tiles i

/-- One turn of the loops that fill the map at random. -/
def fillTile (s : Tiles × Rng) (i : Nat) : Option (Tiles × Rng) :=
  if interior i then
    (rngRange s.2 100).map fun d =>
      (Function.update s.1 i (if d.2 < 45 then tWall else tFloor), d.1)
  else some (Function.update s.1 i tWall, s.2)

/-- A pass reads the old tiles only: the new ones are built in `next` first. -/
def smooth (tiles : Tiles) : Tiles :=
  fun i =>
    if interior i then
      if wallNeighbors tiles (i % mapW : Nat) (i / mapW : Nat) ≥ 5 then tWall else tFloor
    else tiles i

def genMap (tiles : Tiles) (g : Rng) : Option (Tiles × Rng) :=
  ((List.range mapTiles).foldlM fillTile (tiles, g)).map fun s =>
    (keepLargestRegion (smooth^[4] s.1), s.2)

/-- The loop of `random_floor` with the tries it has left. -/
def randomFloorLoop (tiles : Tiles) : Nat → Rng → Option (Rng × Option (UInt8 × UInt8))
  | 0, g => some (g, none)
  | n + 1, g => do
    let (g, dx) ← rngRange g (mapW - 2)
    let (g, dy) ← rngRange g (mapH - 2)
    let x : Int := 1 + dx
    let y : Int := 1 + dy
    if tiles (tileIndex x y) = tFloor then some (g, some (toByte x, toByte y))
    else randomFloorLoop tiles n g

def randomFloor (tiles : Tiles) (g : Rng) : Option (Rng × Option (UInt8 × UInt8)) :=
  randomFloorLoop tiles 4000 g

def spawnCreature (g : GameState) (i : Nat) : Option GameState := do
  let (rng, spot) ← randomFloor g.world.tiles g.rng
  match spot with
  | none => some { g with rng := rng }
  | some (x, y) =>
    some { g with
      rng := rng
      world := g.world.setCreature i
        { g.world.creatures i with x := x, y := y, kind := 0, alive := 1 } }

def gameInit (g : GameState) (seed : UInt16) : Option GameState := do
  let rng := rngSeed g.rng seed.toUInt8 (seed >>> 8).toUInt8 0x5A
  let (tiles, rng) ← genMap World.zero.tiles rng
  (List.range maxCreatures).foldlM spawnCreature
    { world := { World.zero with tiles := tiles }
      fireCd := fun _ => 0
      respawnT := fun _ => 0
      rng := rng }

/-- The slots that `game_add_player` may give away. -/
def slotFree (g : GameState) (i : Nat) : Bool :=
  (g.world.players i).alive = 0 ∧ (g.world.players i).hp = 0 ∧ g.respawnT i = 0

def gameAddPlayer (g : GameState) : Option (GameState × Int) :=
  match (List.range maxPlayers).find? (slotFree g) with
  | none => some (g, -1)
  | some i => do
    let (rng, spot) ← randomFloor g.world.tiles g.rng
    match spot with
    | none => some ({ g with rng := rng }, -1)
    | some (x, y) =>
      let p := { g.world.players i with
        x := x, y := y, facing := 4, alive := 1, hp := playerHp, input := inNone, score := 0 }
      let n := UInt8.ofNat (i + 1)
      some
        ({ g with
            rng := rng
            world := { g.world.setPlayer i p with
              nplayers := if n > g.world.nplayers then n else g.world.nplayers } },
          i)

def gameSetInput (w : World) (player : Int) (input : UInt8) : World :=
  if 0 ≤ player ∧ player < maxPlayers then
    w.setPlayer player.toNat { w.players player.toNat with input := input }
  else w

/-- The living player at the least distance so far, and that distance. -/
def nearer (w : World) (cx cy : Int) (best : Option Nat × Int) (i : Nat) : Option Nat × Int :=
  let p := w.players i
  if p.alive = 0 then best
  else
    let ax := |(p.x.toNat : Int) - cx|
    let ay := |(p.y.toNat : Int) - cy|
    let d := if ax > ay then ax else ay
    if d < best.2 then (some i, d) else best

def nearestPlayer (w : World) (cx cy : Int) : Option Nat :=
  ((List.range maxPlayers).foldl (nearer w cx cy) (none, 0x7fff)).1

def movePlayer (w : World) (i : Nat) : World :=
  let p := w.players i
  let dir := inDir p.input
  if dir < 8 then
    let nx : Int := p.x.toNat + gameDx dir
    let ny : Int := p.y.toNat + gameDy dir
    let p := { p with facing := UInt8.ofNat dir }
    if isFloor w.tiles nx ny then
      let p := { p with x := toByte nx, y := toByte ny }
      if w.tiles (tileIndex nx ny) = tTreasure then
        { w.setPlayer i { p with score := p.score + 25 } with
          tiles := Function.update w.tiles (tileIndex nx ny) tFloor }
      else w.setPlayer i p
    else w.setPlayer i p
  else w

/-- A shot takes the first free slot; with none free the player does not fire. -/
def firePlayer (g : GameState) (i : Nat) : GameState :=
  let p := g.world.players i
  let fdir := inFireDir p.input
  if fdir < 8 ∧ g.fireCd i = 0 then
    match (List.range maxShots).find? fun s => (g.world.shots s).alive = 0 with
    | none => g
    | some s =>
      { g with
        world := g.world.setShot s
          ⟨p.x, p.y, UInt8.ofNat fdir, 1, UInt8.ofNat i, shotRange⟩
        fireCd := Function.update g.fireCd i fireCdTicks }
  else g

def coolDown (g : GameState) (i : Nat) : GameState :=
  if g.fireCd i ≠ 0 then { g with fireCd := Function.update g.fireCd i (g.fireCd i - 1) } else g

def stepPlayer (g : GameState) (i : Nat) : GameState :=
  if (g.world.players i).alive = 0 then g
  else
    let g := coolDown g i
    firePlayer { g with world := movePlayer g.world i } i

def stepPlayers (g : GameState) : GameState := (List.range maxPlayers).foldl stepPlayer g

def creatureAt (w : World) (x y : Int) : Option Nat :=
  (List.range maxCreatures).find? fun i =>
    (w.creatures i).alive ≠ 0 ∧ ((w.creatures i).x.toNat : Int) = x ∧
      ((w.creatures i).y.toNat : Int) = y

def killShot (w : World) (s : Nat) : World := w.setShot s { w.shots s with alive := 0 }

def addScore (w : World) (owner : UInt8) (points : UInt16) : World :=
  if owner.toNat < maxPlayers then
    w.setPlayer owner.toNat
      { w.players owner.toNat with score := (w.players owner.toNat).score + points }
  else w

/-- The shot is on its new tile, where it may hit a creature or run out of range. -/
def shotLands (w : World) (s : Nat) (nx ny : Int) : World × Bool :=
  match creatureAt w nx ny with
  | some c =>
    let w := w.setCreature c { w.creatures c with alive := 0 }
    (killShot (addScore w (w.shots s).owner 10) s, false)
  | none =>
    if (w.shots s).ttl = 0 then (killShot w s, false)
    else (w.setShot s { w.shots s with ttl := (w.shots s).ttl - 1 }, true)

/-- One tile of a shot's way; `false` is the `break`. -/
def shotStep (w : World) (s : Nat) : World × Bool :=
  let sh := w.shots s
  let nx : Int := sh.x.toNat + gameDx sh.dir.toNat
  let ny : Int := sh.y.toNat + gameDy sh.dir.toNat
  if isFloor w.tiles nx ny = false then (killShot w s, false)
  else shotLands (w.setShot s { sh with x := toByte nx, y := toByte ny }) s nx ny

def shotLoop (s : Nat) : Nat → World → World
  | 0, w => w
  | n + 1, w =>
    match shotStep w s with
    | (w, true) => shotLoop s n w
    | (w, false) => w

def stepShot (w : World) (s : Nat) : World :=
  if (w.shots s).alive = 0 then w else shotLoop s shotSpeed w

def stepShots (w : World) : World := (List.range maxShots).foldl stepShot w

/-- A creature beside player `k` hits; the last hit starts the respawn timer. -/
def attack (g : GameState) (k : Nat) : GameState :=
  let p := g.world.players k
  if p.hp > creatureDmg then
    { g with world := g.world.setPlayer k { p with hp := p.hp - creatureDmg } }
  else
    { g with
      world := g.world.setPlayer k { p with hp := 0, alive := 0 }
      respawnT := Function.update g.respawnT k respawnTicks }

def freeTile (w : World) (x y : Int) : Bool := isFloor w.tiles x y && (creatureAt w x y).isNone

/-- A step towards the player, or along one axis if the diagonal is blocked. -/
def chase (w : World) (i : Nat) (dx dy : Int) (dir : Nat) : World :=
  let c := w.creatures i
  let x : Int := c.x.toNat
  let y : Int := c.y.toNat
  if freeTile w (x + gameDx dir) (y + gameDy dir) then
    w.setCreature i { c with x := toByte (x + gameDx dir), y := toByte (y + gameDy dir) }
  else if freeTile w (x + sgn dx) y then w.setCreature i { c with x := toByte (x + sgn dx) }
  else if freeTile w x (y + sgn dy) then w.setCreature i { c with y := toByte (y + sgn dy) }
  else w

def stepCreature (g : GameState) (i : Nat) : GameState :=
  let c := g.world.creatures i
  if c.alive = 0 then g
  else
    match nearestPlayer g.world c.x.toNat c.y.toNat with
    | none => g
    | some k =>
      let dx : Int := (g.world.players k).x.toNat - c.x.toNat
      let dy : Int := (g.world.players k).y.toNat - c.y.toNat
      if (dx ≥ -1 ∧ dx ≤ 1) ∧ (dy ≥ -1 ∧ dy ≤ 1) then attack g k
      else
        match vecToDir dx dy with
        | none => g
        | some dir => { g with world := chase g.world i dx dy dir }

/-- Creatures move at half the player rate. -/
def stepCreatures (g : GameState) : GameState :=
  if g.world.tick &&& 1 ≠ 0 then g else (List.range maxCreatures).foldl stepCreature g

def respawn (g : GameState) (i : Nat) : Option GameState := do
  let (rng, spot) ← randomFloor g.world.tiles g.rng
  match spot with
  | none => some { g with rng := rng }
  | some (x, y) =>
    some { g with
      rng := rng
      world := g.world.setPlayer i
        { g.world.players i with x := x, y := y, alive := 1, hp := playerHp } }

def stepRespawn (g : GameState) (i : Nat) : Option GameState :=
  if (g.world.players i).alive = 0 ∧ g.respawnT i > 0 then
    let g := { g with respawnT := Function.update g.respawnT i (g.respawnT i - 1) }
    if g.respawnT i = 0 then respawn g i else some g
  else some g

def stepRespawns (g : GameState) : Option GameState := (List.range maxPlayers).foldlM stepRespawn g

def gameTick (g : GameState) : Option GameState := do
  let g := stepPlayers g
  let g ← stepRespawns (stepCreatures { g with world := stepShots g.world })
  some { g with world := { g.world with tick := g.world.tick + 1 } }

end MechanicalResearcher.Game
