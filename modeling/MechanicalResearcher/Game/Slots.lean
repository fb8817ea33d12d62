import MechanicalResearcher.Game.Returns

/-!
# Player slots

What `game_add_player` and `game_tick` do to the four slots of a world.  A slot is occupied
while its player lives or waits for a respawn.  A tick carries every slot on as it is, free
or occupied, provided that each respawn it makes finds a floor tile.
-/

namespace MechanicalResearcher.Game

variable {g g' g'' : GameState} {k i : Nat} {p : Player} {w : World}

/-- Slot `k` looks the same to `game_add_player` and to `step_respawns`. -/
structure SameSlot (g g' : GameState) (k : Nat) : Prop where
  alive : (g'.world.players k).alive = (g.world.players k).alive
  hp : (g'.world.players k).hp = (g.world.players k).hp
  respawn : g'.respawnT k = g.respawnT k

theorem SameSlot.refl (g : GameState) (k : Nat) : SameSlot g g k := ⟨rfl, rfl, rfl⟩

theorem SameSlot.trans (h : SameSlot g g' k) (h' : SameSlot g' g'' k) :
    SameSlot g g'' k :=
  ⟨h'.alive.trans h.alive, h'.hp.trans h.hp, h'.respawn.trans h.respawn⟩

theorem setPlayer_sameSlot (halive : p.alive = (g.world.players i).alive)
    (hhp : p.hp = (g.world.players i).hp) (k : Nat) :
    SameSlot g { g with world := g.world.setPlayer i p } k := by
  by_cases hk : k = i
  · subst hk
    exact ⟨by simp [World.setPlayer, halive], by simp [World.setPlayer, hhp], rfl⟩
  · exact ⟨by simp [World.setPlayer, hk], by simp [World.setPlayer, hk], rfl⟩

/-- The player lives, or will again. -/
def Occupied (g : GameState) (k : Nat) : Prop := (g.world.players k).alive ≠ 0 ∨ g.respawnT k ≠ 0

theorem slotFree_iff : slotFree g k = true ↔
    (g.world.players k).alive = 0 ∧ (g.world.players k).hp = 0 ∧ g.respawnT k = 0 := by
  simp [slotFree]

theorem Occupied.not_free (h : Occupied g k) : slotFree g k = false := by
  by_contra hfree
  obtain ⟨halive, -, hrespawn⟩ := slotFree_iff.mp (by simpa using hfree)
  rcases h with h | h
  · exact h halive
  · exact h hrespawn

theorem SameSlot.free (h : SameSlot g g' k) :
    slotFree g' k = slotFree g k := by
  simp only [slotFree, h.alive, h.hp, h.respawn]

theorem SameSlot.occupied (h : SameSlot g g' k) (ho : Occupied g k) :
    Occupied g' k := by
  rw [Occupied, h.alive, h.respawn]
  exact ho

/-! ## Joining -/

/-- `random_floor` returns, with a tile. -/
def FloorFound (g : GameState) : Prop :=
  ∃ rng spot, randomFloor g.world.tiles g.rng = some (rng, some spot)

theorem gameAddPlayer_joins (hfloor : FloorFound g) (hfree : ∃ k < maxPlayers, slotFree g k = true)
    :
    ∃ (g' : GameState) (k : Nat), gameAddPlayer g = some (g', (k : Int)) ∧ k < maxPlayers ∧
      slotFree g k = true ∧ (g'.world.players k).alive = 1 ∧
      (g'.world.players k).hp = playerHp ∧ ∀ j ≠ k, SameSlot g g' j := by
  obtain ⟨rng, ⟨x, y⟩, hspot⟩ := hfloor
  cases hfind : (List.range maxPlayers).find? (slotFree g) with
  | none =>
    obtain ⟨k, hk, hk'⟩ := hfree
    exact absurd hk' (List.find?_eq_none.mp hfind k (List.mem_range.mpr hk))
  | some k =>
    simp only [gameAddPlayer, hfind, hspot, Option.bind_eq_bind, Option.bind_some]
    refine ⟨_, k, rfl, List.mem_range.mp (List.mem_of_find?_eq_some hfind),
      List.find?_some hfind, ?_, ?_, fun j hj => ⟨?_, ?_, rfl⟩⟩
    · simp [World.setPlayer]
    · simp [World.setPlayer]
    · simp [World.setPlayer, hj]
    · simp [World.setPlayer, hj]

theorem gameAddPlayer_live (h : Live g.rng) :
    ∃ g' player, gameAddPlayer g = some (g', player) ∧ Live g'.rng := by
  unfold gameAddPlayer
  split
  · exact ⟨_, _, rfl, h⟩
  · obtain ⟨rng, spot, hspot, hlive⟩ := h.randomFloor g.world.tiles
    simp only [hspot, Option.bind_eq_bind, Option.bind_some]
    cases spot with
    | none => exact ⟨_, _, rfl, hlive⟩
    | some p => exact ⟨_, _, rfl, hlive⟩

theorem gameAddPlayer_returns (h : Live g.rng) :
    ∃ g' player, gameAddPlayer g = some (g', player) ∧ (player = -1 ∨ FloorFound g) := by
  unfold gameAddPlayer
  split
  · exact ⟨_, _, rfl, .inl rfl⟩
  · obtain ⟨rng, spot, hspot, -⟩ := h.randomFloor g.world.tiles
    simp only [hspot, Option.bind_eq_bind, Option.bind_some]
    cases spot with
    | none => exact ⟨_, _, rfl, .inl rfl⟩
    | some p => exact ⟨_, _, rfl, .inr ⟨rng, p, hspot⟩⟩

/-! ## Ticking -/

/-- Slots stay free or occupied. -/
def Carries (g g' : GameState) : Prop :=
  ∀ k, (Occupied g k → Occupied g' k) ∧ (slotFree g k = true → slotFree g' k = true)

theorem Carries.of_same (h : ∀ k, SameSlot g g' k) : Carries g g' :=
  fun k => ⟨(h k).occupied, fun hfree => (h k).free.trans hfree⟩

theorem Carries.refl (g : GameState) : Carries g g := fun _ => ⟨id, id⟩

theorem Carries.trans (h : Carries g g') (h' : Carries g' g'') :
    Carries g g'' :=
  fun k => ⟨fun ho => (h' k).1 ((h k).1 ho), fun hf => (h' k).2 ((h k).2 hf)⟩

theorem foldl_carries {f : GameState → Nat → GameState} (hf : ∀ g i,
    Carries g (f g i)) (is : List Nat)
    (g : GameState) : Carries g (is.foldl f g) := by
  induction is generalizing g with
  | nil => exact .refl g
  | cons i is ih => exact (hf g i).trans (ih (f g i))

/-- What moving about and shooting leave of the players as it was. -/
def SamePlayers (w w' : World) : Prop :=
  ∀ k, (w'.players k).alive = (w.players k).alive ∧ (w'.players k).hp = (w.players k).hp ∧
    (w'.players k).input = (w.players k).input

theorem SamePlayers.refl (w : World) : SamePlayers w w := fun _ => ⟨rfl, rfl, rfl⟩

theorem SamePlayers.trans {w' w'' : World} (h : SamePlayers w w') (h' : SamePlayers w' w'') :
    SamePlayers w w'' :=
  fun k => ⟨(h' k).1.trans (h k).1, (h' k).2.1.trans (h k).2.1, (h' k).2.2.trans (h k).2.2⟩

theorem SamePlayers.carries (h : SamePlayers g.world g'.world) (hrespawn : g'.respawnT = g.respawnT)
    : Carries g g' :=
  Carries.of_same fun k => ⟨(h k).1, (h k).2.1, by rw [hrespawn]⟩

theorem setPlayer_samePlayers (halive : p.alive = (w.players i).alive)
    (hhp : p.hp = (w.players i).hp) (hinput : p.input = (w.players i).input) :
    SamePlayers w (w.setPlayer i p) := by
  intro k
  by_cases hk : k = i
  · subst hk
    simp [World.setPlayer, halive, hhp, hinput]
  · simp [World.setPlayer, hk]

theorem movePlayer_samePlayers (w : World) (i : Nat) : SamePlayers w (movePlayer w i) := by
  unfold movePlayer
  dsimp only
  split
  · split
    · split
      · exact setPlayer_samePlayers (i := i) rfl rfl rfl
      · apply setPlayer_samePlayers <;> rfl
    · apply setPlayer_samePlayers <;> rfl
  · exact .refl w

theorem firePlayer_players (g : GameState) (i : Nat) :
    (firePlayer g i).world.players = g.world.players ∧ (firePlayer g i).respawnT = g.respawnT := by
  unfold firePlayer
  dsimp only
  split
  · split
    · exact ⟨rfl, rfl⟩
    · exact ⟨rfl, rfl⟩
  · exact ⟨rfl, rfl⟩

theorem coolDown_players (g : GameState) (i : Nat) :
    (coolDown g i).world = g.world ∧ (coolDown g i).respawnT = g.respawnT := by
  unfold coolDown
  split
  · exact ⟨rfl, rfl⟩
  · exact ⟨rfl, rfl⟩

theorem stepPlayer_samePlayers (g : GameState) (i : Nat) :
    SamePlayers g.world (stepPlayer g i).world ∧ (stepPlayer g i).respawnT = g.respawnT := by
  unfold stepPlayer
  split
  · exact ⟨.refl _, rfl⟩
  · dsimp only
    obtain ⟨hworld, hrespawn⟩ := coolDown_players g i
    obtain ⟨hplayers, hrespawn'⟩ := firePlayer_players
      { coolDown g i with world := movePlayer (coolDown g i).world i } i
    have hmove := movePlayer_samePlayers (coolDown g i).world i
    refine ⟨fun k => ?_, hrespawn'.trans hrespawn⟩
    rw [hplayers, ← hworld]
    exact hmove k

theorem stepPlayers_samePlayers (g : GameState) :
    SamePlayers g.world (stepPlayers g).world ∧ (stepPlayers g).respawnT = g.respawnT := by
  have hall : ∀ (is : List Nat) g, SamePlayers g.world (is.foldl stepPlayer g).world ∧
      (is.foldl stepPlayer g).respawnT = g.respawnT := by
    intro is
    induction is with
    | nil => exact fun g => ⟨.refl _, rfl⟩
    | cons i is ih =>
      intro g
      obtain ⟨hone, hrespawn⟩ := stepPlayer_samePlayers g i
      obtain ⟨hrest, hrespawn'⟩ := ih (stepPlayer g i)
      exact ⟨hone.trans hrest, hrespawn'.trans hrespawn⟩
  exact hall _ g

theorem addScore_samePlayers (w : World) (owner : UInt8) (points : UInt16) :
    SamePlayers w (addScore w owner points) := by
  unfold addScore
  split
  · apply setPlayer_samePlayers <;> rfl
  · exact .refl w

theorem shotLands_samePlayers (w : World) (s : Nat) (nx ny : Int) :
    SamePlayers w (shotLands w s nx ny).1 := by
  unfold shotLands
  split
  · exact addScore_samePlayers (World.setCreature _ _ _) _ _
  · split
    · exact .refl w
    · exact .refl w

theorem shotStep_samePlayers (w : World) (s : Nat) : SamePlayers w (shotStep w s).1 := by
  unfold shotStep
  dsimp only
  split
  · exact .refl w
  · exact shotLands_samePlayers (World.setShot _ _ _) _ _ _

theorem shotLoop_samePlayers (s n : Nat) (w : World) : SamePlayers w (shotLoop s n w) := by
  induction n generalizing w with
  | zero => exact .refl w
  | succ n ih =>
    have hstep := shotStep_samePlayers w s
    rw [shotLoop]
    split
    · next w' h =>
        rw [h] at hstep
        exact hstep.trans (ih w')
    · next w' h =>
        rw [h] at hstep
        exact hstep

theorem stepShots_samePlayers (w : World) : SamePlayers w (stepShots w) := by
  have hone : ∀ w s, SamePlayers w (stepShot w s) := by
    intro w s
    unfold stepShot
    split
    · exact .refl w
    · exact shotLoop_samePlayers s shotSpeed w
  have hall : ∀ (is : List Nat) w, SamePlayers w (is.foldl stepShot w) := by
    intro is
    induction is with
    | nil => exact fun w => .refl w
    | cons s is ih => exact fun w => (hone w s).trans (ih (stepShot w s))
  exact hall _ w

theorem nearer_cases (w : World) (cx cy : Int) (best : Option Nat × Int) (i : Nat) :
    nearer w cx cy best i = best ∨
      (w.players i).alive ≠ 0 ∧ (nearer w cx cy best i).1 = some i := by
  unfold nearer
  dsimp only
  by_cases halive : (w.players i).alive = 0
  · exact .inl (by rw [if_pos halive])
  · rw [if_neg halive]
    by_cases hd : (if |((w.players i).x.toNat : Int) - cx| > |((w.players i).y.toNat : Int) - cy|
        then |((w.players i).x.toNat : Int) - cx|
        else |((w.players i).y.toNat : Int) - cy|) < best.2
    · exact .inr ⟨halive, by rw [if_pos hd]⟩
    · exact .inl (by rw [if_neg hd])

theorem foldl_nearer {cx cy : Int} (is : List Nat) (best : Option Nat × Int)
    (h : (is.foldl (nearer w cx cy) best).1 = some k) :
    best.1 = some k ∨ k ∈ is ∧ (w.players k).alive ≠ 0 := by
  induction is generalizing best with
  | nil => exact .inl h
  | cons i is ih =>
    rcases ih _ h with hbest | ⟨hmem, halive⟩
    · rcases nearer_cases w cx cy best i with hsame | ⟨halive, hnear⟩
      · exact .inl (hsame ▸ hbest)
      · rw [hnear] at hbest
        cases hbest
        exact .inr ⟨List.mem_cons_self, halive⟩
    · exact .inr ⟨List.mem_cons_of_mem _ hmem, halive⟩

theorem nearestPlayer_some {cx cy : Int} (h : nearestPlayer w cx cy = some k) :
    k < maxPlayers ∧ (w.players k).alive ≠ 0 := by
  rcases foldl_nearer _ _ h with hnone | ⟨hmem, halive⟩
  · cases hnone
  · exact ⟨List.mem_range.mp hmem, halive⟩

theorem attack_carries (halive : (g.world.players k).alive ≠ 0) :
    Carries g (attack g k) := by
  have hbusy : Occupied g k := .inl halive
  unfold attack
  dsimp only
  intro j
  by_cases hj : j = k
  · subst hj
    refine ⟨fun _ => ?_, fun hfree => absurd hfree (by simp [hbusy.not_free])⟩
    split
    · exact .inl (by simpa [World.setPlayer] using halive)
    · exact .inr (by simp [respawnTicks])
  · have hsame : ∀ g', (g'.world.players j) = g.world.players j → g'.respawnT j = g.respawnT j →
        (Occupied g j → Occupied g' j) ∧ (slotFree g j = true → slotFree g' j = true) := by
      intro g' hplayer hrespawn
      have hslot : SameSlot g g' j := ⟨by rw [hplayer], by rw [hplayer], hrespawn⟩
      exact ⟨hslot.occupied, fun hfree => hslot.free.trans hfree⟩
    split
    · exact hsame _ (by simp [World.setPlayer, hj]) rfl
    · exact hsame _ (by simp [World.setPlayer, hj]) (by simp [hj])

theorem chase_players (w : World) (i : Nat) (dx dy : Int) (dir : Nat) :
    (chase w i dx dy dir).players = w.players := by
  unfold chase
  dsimp only
  split
  · rfl
  · split
    · rfl
    · split <;> rfl

theorem stepCreature_carries (g : GameState) (i : Nat) : Carries g (stepCreature g i) := by
  unfold stepCreature
  dsimp only
  split
  · exact .refl g
  · split
    · exact .refl g
    · next k hnear =>
        split
        · exact attack_carries (nearestPlayer_some hnear).2
        · split
          · exact .refl g
          · apply Carries.of_same
            intro j
            exact ⟨by simp only [chase_players], by simp only [chase_players], rfl⟩

/-- The game when `step_respawns` begins. -/
def afterMoves (g : GameState) : GameState :=
  stepCreatures { stepPlayers g with world := stepShots (stepPlayers g).world }

theorem stepShots_carries (g : GameState) : Carries g { g with world := stepShots g.world } := by
  have hshots := stepShots_samePlayers g.world
  generalize stepShots g.world = w at hshots ⊢
  exact hshots.carries rfl

theorem stepCreatures_carries (g : GameState) : Carries g (stepCreatures g) := by
  unfold stepCreatures
  split
  · exact .refl g
  · exact foldl_carries stepCreature_carries _ g

theorem afterMoves_carries (g : GameState) : Carries g (afterMoves g) := by
  obtain ⟨hplayers, hrespawn⟩ := stepPlayers_samePlayers g
  exact ((hplayers.carries hrespawn).trans (stepShots_carries (stepPlayers g))).trans
    (stepCreatures_carries _)

/-- Every respawn that falls due in this tick finds a floor tile. -/
def TickLands (g : GameState) : Prop :=
  ∀ k < maxPlayers, ∀ g', (List.range k).foldlM stepRespawn (afterMoves g) = some g' →
    (g'.world.players k).alive = 0 → g'.respawnT k = 1 → FloorFound g'

theorem respawn_lands (hfloor : FloorFound g) (h : respawn g i = some g') :
    (g'.world.players i).alive = 1 ∧ ∀ j ≠ i, SameSlot g g' j := by
  obtain ⟨rng, ⟨x, y⟩, hspot⟩ := hfloor
  simp only [respawn, hspot, Option.bind_eq_bind, Option.bind_some, Option.some.injEq] at h
  subst h
  refine ⟨by simp [World.setPlayer], fun j hj => ⟨?_, ?_, rfl⟩⟩
  · simp [World.setPlayer, hj]
  · simp [World.setPlayer, hj]

theorem stepRespawn_carries (h : stepRespawn g i = some g')
    (hlands : (g.world.players i).alive = 0 → g.respawnT i = 1 → FloorFound g) :
    Carries g g' := by
  unfold stepRespawn at h
  split at h
  · next hdue =>
      obtain ⟨halive, hwait⟩ := hdue
      have hbusy : slotFree g i = false := Occupied.not_free (.inr (by
        intro hzero
        rw [hzero] at hwait
        exact absurd hwait (by decide)))
      dsimp only at h
      split at h
      · next hzero =>
          -- the timer ran out: the player must land somewhere
          have hone : g.respawnT i = 1 := by
            rw [Function.update_self] at hzero
            have := congrArg (· + 1) hzero
            simpa using this
          obtain ⟨hback, hrest⟩ := respawn_lands
            (g := { g with respawnT := Function.update g.respawnT i (g.respawnT i - 1) })
            (hlands halive hone) h
          intro k
          by_cases hk : k = i
          · subst hk
            exact ⟨fun _ => .inl (by rw [hback]; decide),
              fun hfree => absurd hfree (by simp [hbusy])⟩
          · have hslot : SameSlot g g' k := by
              refine ⟨(hrest k hk).alive, (hrest k hk).hp, (hrest k hk).respawn.trans ?_⟩
              simp [hk]
            exact ⟨hslot.occupied, fun hfree => hslot.free.trans hfree⟩
      · next hmore =>
          cases h
          intro k
          by_cases hk : k = i
          · subst hk
            exact ⟨fun _ => .inr hmore, fun hfree => absurd hfree (by simp [hbusy])⟩
          · have hslot : SameSlot g
                { g with respawnT := Function.update g.respawnT i (g.respawnT i - 1) } k :=
              ⟨rfl, rfl, by simp [hk]⟩
            exact ⟨hslot.occupied, fun hfree => hslot.free.trans hfree⟩
  · cases h
    exact .refl g

theorem foldlM_stepRespawn_carries {n : Nat}
    (hlands : ∀ k < n, ∀ g', (List.range k).foldlM stepRespawn g = some g' →
      (g'.world.players k).alive = 0 → g'.respawnT k = 1 → FloorFound g')
    (h : (List.range n).foldlM stepRespawn g = some g') : Carries g g' := by
  induction n generalizing g' with
  | zero =>
    cases h
    exact .refl g
  | succ n ih =>
    rw [List.range_succ, List.foldlM_append] at h
    obtain ⟨g1, hfirst, hlast⟩ := Option.bind_eq_some_iff.mp h
    rw [List.foldlM_cons] at hlast
    obtain ⟨g2, hone, hnil⟩ := Option.bind_eq_some_iff.mp hlast
    cases hnil
    exact (ih (fun k hk => hlands k (by omega)) hfirst).trans
      (stepRespawn_carries hone (hlands n (by omega) g1 hfirst))

theorem gameTick_carries (hlands : TickLands g) (h : gameTick g = some g') :
    Carries g g' := by
  obtain ⟨g1, hrespawns, hg'⟩ := Option.bind_eq_some_iff.mp h
  cases hg'
  have hcarried : Carries g g1 :=
    (afterMoves_carries g).trans (foldlM_stepRespawn_carries hlands hrespawns)
  exact hcarried.trans (.of_same fun k => ⟨rfl, rfl, rfl⟩)

/-! ## Inputs -/

/-- Nothing but a client's message changes an input byte. -/
def SameInputs (g g' : GameState) : Prop :=
  ∀ k, (g'.world.players k).input = (g.world.players k).input

theorem SameInputs.refl (g : GameState) : SameInputs g g := fun _ => rfl

theorem SameInputs.trans (h : SameInputs g g') (h' : SameInputs g' g'') :
    SameInputs g g'' :=
  fun k => (h' k).trans (h k)

theorem setPlayer_input (h : p.input = (w.players i).input) (k : Nat) :
    ((w.setPlayer i p).players k).input = (w.players k).input := by
  by_cases hk : k = i
  · subst hk
    simp [World.setPlayer, h]
  · simp [World.setPlayer, hk]

theorem stepCreature_inputs (g : GameState) (i : Nat) : SameInputs g (stepCreature g i) := by
  unfold stepCreature
  dsimp only
  split
  · exact .refl g
  · split
    · exact .refl g
    · next k _ =>
        split
        · unfold attack
          dsimp only
          intro j
          split
          · apply setPlayer_input
            rfl
          · apply setPlayer_input
            rfl
        · split
          · exact .refl g
          · intro j
            simp only [chase_players]

theorem stepCreatures_inputs (g : GameState) : SameInputs g (stepCreatures g) := by
  unfold stepCreatures
  split
  · exact .refl g
  · have hall : ∀ (is : List Nat) g, SameInputs g (is.foldl stepCreature g) := by
      intro is
      induction is with
      | nil => exact fun g => .refl g
      | cons i is ih => exact fun g => (stepCreature_inputs g i).trans (ih _)
    exact hall _ g

theorem respawn_inputs (h : respawn g i = some g') : SameInputs g g' := by
  obtain ⟨⟨rng, spot⟩, -, hg'⟩ := Option.bind_eq_some_iff.mp h
  cases spot with
  | none =>
    cases hg'
    exact .refl g
  | some p =>
    cases hg'
    intro k
    apply setPlayer_input
    rfl

theorem stepRespawn_inputs (h : stepRespawn g i = some g') :
    SameInputs g g' := by
  unfold stepRespawn at h
  split at h
  · dsimp only at h
    split at h
    · exact respawn_inputs (g := { g with
        respawnT := Function.update g.respawnT i (g.respawnT i - 1) }) h
    · cases h
      exact .refl g
  · cases h
    exact .refl g

theorem stepRespawns_inputs (is : List Nat) (h : is.foldlM stepRespawn g = some g') :
    SameInputs g g' := by
  induction is generalizing g with
  | nil =>
    cases h
    exact .refl _
  | cons i is ih =>
    rw [List.foldlM_cons] at h
    obtain ⟨g1, hone, hrest⟩ := Option.bind_eq_some_iff.mp h
    exact (stepRespawn_inputs hone).trans (ih hrest)

theorem gameTick_inputs (h : gameTick g = some g') : SameInputs g g' := by
  obtain ⟨g1, hrespawns, hg'⟩ := Option.bind_eq_some_iff.mp h
  cases hg'
  have hplayers : SameInputs g (stepPlayers g) := fun k => ((stepPlayers_samePlayers g).1 k).2.2
  have hshots : SameInputs (stepPlayers g)
      { stepPlayers g with world := stepShots (stepPlayers g).world } := by
    have hworld := stepShots_samePlayers (stepPlayers g).world
    generalize stepShots (stepPlayers g).world = w at hworld ⊢
    exact fun k => (hworld k).2.2
  have hrest : SameInputs _ g1 := stepRespawns_inputs (List.range maxPlayers) hrespawns
  exact ((hplayers.trans hshots).trans (stepCreatures_inputs _)).trans hrest

end MechanicalResearcher.Game
