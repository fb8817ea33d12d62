import Mathlib.Data.List.GetD
import MechanicalResearcher.Lib.Accesses
import MechanicalResearcher.NetchanIpx.GameServer

/-!
# The state message

`serialize_state` of `game_net.c` packs the living creatures and shots behind two count bytes;
`deserialize_state` unpacks them into the world of a client.  The message of a client is what
lies in memory from `b` on, and `len` says how much of that was received: the reader tests
`len` once, and the two counts then decide how far it reads.
-/

namespace MechanicalResearcher.NetchanIpx

open Lib Game Lib.BigEndian

variable {w : World} {b : Nat → UInt8} {len i q n most : Nat} {ts : List (UInt8 × UInt8 × UInt8)}

/-! ## Reading -/

/-- `rd16(b + at)` -/
def rd16At (b : Nat → UInt8) (p : Nat) : UInt16 := rd16 [b p, b (p + 1)]

/-- The bytes of a message in front of the creatures. -/
abbrev stateHead : Nat := 3 + maxPlayers * 7

def readPlayer (b : Nat → UInt8) (w : World) (i : Nat) : World :=
  let p := 3 + i * 7
  w.setPlayer i
    { w.players i with
      alive := b p
      x := b (p + 1)
      y := b (p + 2)
      facing := b (p + 3)
      hp := b (p + 4)
      score := rd16At b (p + 5) }

def clearCreature (w : World) (i : Nat) : World :=
  w.setCreature i { w.creatures i with alive := 0 }

/-- Creature `i` from the entries at `p`. -/
def readCreature (b : Nat → UInt8) (p : Nat) (w : World) (i : Nat) : World :=
  w.setCreature i
    { w.creatures i with
      x := b (p + 3 * i), y := b (p + 3 * i + 1), kind := b (p + 3 * i + 2), alive := 1 }

def clearShot (w : World) (i : Nat) : World := w.setShot i { w.shots i with alive := 0 }

def readShot (b : Nat → UInt8) (p : Nat) (w : World) (i : Nat) : World :=
  w.setShot i
    { w.shots i with
      x := b (p + 3 * i), y := b (p + 3 * i + 1), dir := b (p + 3 * i + 2), alive := 1 }

/-- The turns of `for (i = 0; i < n && i < most; i++)`. -/
def claimed (n : UInt8) (most : Nat) : Nat := min n.toNat most

/-- Where the count of the shots lies. -/
def shotsAt (b : Nat → UInt8) : Nat := stateHead + 1 + 3 * claimed (b stateHead) maxCreatures

def deserializeState (w : World) (b : Nat → UInt8) (len : Nat) : World :=
  if len < stateHead then w
  else
    let w := { w with tick := rd16At b 1 }
    let w := (List.range maxPlayers).foldl (readPlayer b) w
    let w := (List.range maxCreatures).foldl clearCreature w
    let w := (List.range (claimed (b stateHead) maxCreatures)).foldl
      (readCreature b (stateHead + 1)) w
    let w := (List.range maxShots).foldl clearShot w
    (List.range (claimed (b (shotsAt b)) maxShots)).foldl (readShot b (shotsAt b + 1)) w

/-! ## The bytes that are read -/

def playerReads (i : Nat) : List Nat := (List.range 7).map (3 + i * 7 + ·)

def entryReads (p i : Nat) : List Nat := [p + 3 * i, p + 3 * i + 1, p + 3 * i + 2]

/-- The offsets that `deserialize_state` reads, in order. -/
def stateReads (b : Nat → UInt8) (len : Nat) : List Nat :=
  if len < stateHead then []
  else
    [1, 2] ++ (List.range maxPlayers).flatMap playerReads ++ [stateHead] ++
      (List.range (claimed (b stateHead) maxCreatures)).flatMap (entryReads (stateHead + 1)) ++
      [shotsAt b] ++
      (List.range (claimed (b (shotsAt b)) maxShots)).flatMap (entryReads (shotsAt b + 1))

/-- The end of what is read. -/
def stateEnd (b : Nat → UInt8) : Nat := shotsAt b + 1 + 3 * claimed (b (shotsAt b)) maxShots

/-! ## Loops over an array -/

theorem foldl_update {α : Type} (f : Nat → α → α) (n : Nat) (a : Nat → α) :
    (List.range n).foldl (fun a i => Function.update a i (f i (a i))) a =
      fun j => if j < n then f j (a j) else a j := by
  induction n with
  | zero => simp
  | succ n ih =>
    rw [List.range_succ, List.foldl_append, ih]
    ext j
    by_cases hj : j = n
    · subst hj
      simp
    · have hiff : j < n + 1 ↔ j < n := by omega
      simp [Function.update_of_ne hj, hiff]

theorem foldl_setPlayer (f : Nat → Player → Player) (n : Nat) (w : World) :
    (List.range n).foldl (fun w i => w.setPlayer i (f i (w.players i))) w =
      { w with players := fun i => if i < n then f i (w.players i) else w.players i } := by
  have hlist (is : List Nat) (w : World) :
      is.foldl (fun w i => w.setPlayer i (f i (w.players i))) w =
        { w with
          players := is.foldl (fun a i => Function.update a i (f i (a i))) w.players } := by
    induction is generalizing w with
    | nil => rfl
    | cons i is ih => rw [List.foldl_cons, ih]; rfl
  rw [hlist, foldl_update]

theorem foldl_setCreature (f : Nat → Creature → Creature) (n : Nat) (w : World) :
    (List.range n).foldl (fun w i => w.setCreature i (f i (w.creatures i))) w =
      { w with creatures := fun i => if i < n then f i (w.creatures i) else w.creatures i } := by
  have hlist (is : List Nat) (w : World) :
      is.foldl (fun w i => w.setCreature i (f i (w.creatures i))) w =
        { w with
          creatures := is.foldl (fun a i => Function.update a i (f i (a i))) w.creatures } := by
    induction is generalizing w with
    | nil => rfl
    | cons i is ih => rw [List.foldl_cons, ih]; rfl
  rw [hlist, foldl_update]

theorem foldl_setShot (f : Nat → Shot → Shot) (n : Nat) (w : World) :
    (List.range n).foldl (fun w i => w.setShot i (f i (w.shots i))) w =
      { w with shots := fun i => if i < n then f i (w.shots i) else w.shots i } := by
  have hlist (is : List Nat) (w : World) :
      is.foldl (fun w i => w.setShot i (f i (w.shots i))) w =
        { w with
          shots := is.foldl (fun a i => Function.update a i (f i (a i))) w.shots } := by
    induction is generalizing w with
    | nil => rfl
    | cons i is ih => rw [List.foldl_cons, ih]; rfl
  rw [hlist, foldl_update]

/-! ## The world after a message -/

def playerAfter (b : Nat → UInt8) (i : Nat) (p : Player) : Player :=
  { p with
    alive := b (3 + i * 7)
    x := b (3 + i * 7 + 1)
    y := b (3 + i * 7 + 2)
    facing := b (3 + i * 7 + 3)
    hp := b (3 + i * 7 + 4)
    score := rd16At b (3 + i * 7 + 5) }

def creatureAfter (b : Nat → UInt8) (i : Nat) (c : Creature) : Creature :=
  if i < claimed (b stateHead) maxCreatures then
    ⟨b (stateHead + 1 + 3 * i), b (stateHead + 1 + 3 * i + 1), b (stateHead + 1 + 3 * i + 2), 1⟩
  else if i < maxCreatures then { c with alive := 0 }
  else c

def shotAfter (b : Nat → UInt8) (i : Nat) (s : Shot) : Shot :=
  if i < claimed (b (shotsAt b)) maxShots then
    { s with
      x := b (shotsAt b + 1 + 3 * i)
      y := b (shotsAt b + 1 + 3 * i + 1)
      dir := b (shotsAt b + 1 + 3 * i + 2)
      alive := 1 }
  else if i < maxShots then { s with alive := 0 }
  else s

theorem deserializeState_short (h : len < stateHead) :
    deserializeState w b len = w := by
  rw [deserializeState, if_pos h]

/-! Each loop of the reader, as one step on the array that it fills. -/

theorem readPlayers_eq (b : Nat → UInt8) (w : World) :
    (List.range maxPlayers).foldl (readPlayer b) w =
      { w with
        players := fun i =>
          if i < maxPlayers then playerAfter b i (w.players i) else w.players i } :=
  foldl_setPlayer (playerAfter b) _ w

theorem clearCreatures_eq (w : World) :
    (List.range maxCreatures).foldl clearCreature w =
      { w with
        creatures := fun i =>
          if i < maxCreatures then { w.creatures i with alive := 0 } else w.creatures i } :=
  foldl_setCreature (fun _ c => { c with alive := 0 }) _ w

theorem readCreatures_eq (b : Nat → UInt8) (p n : Nat) (w : World) :
    (List.range n).foldl (readCreature b p) w =
      { w with
        creatures := fun i =>
          if i < n then ⟨b (p + 3 * i), b (p + 3 * i + 1), b (p + 3 * i + 2), 1⟩
          else w.creatures i } :=
  foldl_setCreature (fun i _ => ⟨b (p + 3 * i), b (p + 3 * i + 1), b (p + 3 * i + 2), 1⟩) n w

theorem clearShots_eq (w : World) :
    (List.range maxShots).foldl clearShot w =
      { w with
        shots := fun i =>
          if i < maxShots then { w.shots i with alive := 0 } else w.shots i } :=
  foldl_setShot (fun _ s => { s with alive := 0 }) _ w

theorem readShots_eq (b : Nat → UInt8) (p n : Nat) (w : World) :
    (List.range n).foldl (readShot b p) w =
      { w with
        shots := fun i =>
          if i < n then
            { w.shots i with
              x := b (p + 3 * i), y := b (p + 3 * i + 1), dir := b (p + 3 * i + 2), alive := 1 }
          else w.shots i } :=
  foldl_setShot
    (fun i s => { s with
      x := b (p + 3 * i), y := b (p + 3 * i + 1), dir := b (p + 3 * i + 2), alive := 1 })
    n w

theorem deserializeState_eq (h : stateHead ≤ len) :
    deserializeState w b len =
      { w with
        tick := rd16At b 1
        players := fun i => if i < maxPlayers then playerAfter b i (w.players i) else w.players i
        creatures := fun i => creatureAfter b i (w.creatures i)
        shots := fun i => shotAfter b i (w.shots i) } := by
  rw [deserializeState, if_neg (Nat.not_lt.mpr h)]
  simp only [readPlayers_eq, clearCreatures_eq, readCreatures_eq, clearShots_eq, readShots_eq]
  congr 1
  · funext i
    rw [shotAfter]
    by_cases hn : i < claimed (b (shotsAt b)) maxShots
    · have hmax : i < maxShots := lt_of_lt_of_le hn (Nat.min_le_right _ _)
      simp only [if_pos hn, if_pos hmax]
    · simp only [if_neg hn]

/-! ## Reads that stay inside a message -/

theorem playerReads_below (hi : i < maxPlayers) (hq : q ∈ playerReads i) :
    q < stateHead := by
  obtain ⟨j, hj, rfl⟩ := List.mem_map.mp hq
  have hj := List.mem_range.mp hj
  have hfour : maxPlayers = 4 := rfl
  have hhead : stateHead = 31 := rfl
  omega

theorem shotsAt_lt_stateEnd (b : Nat → UInt8) : shotsAt b < stateEnd b := by
  rw [stateEnd]
  omega

theorem stateHead_lt_shotsAt (b : Nat → UInt8) : stateHead < shotsAt b := by
  rw [shotsAt]
  omega

theorem entryReads_below {p : Nat} (hi : i < n) (hq : q ∈ entryReads p i) :
    q < p + 3 * n := by
  simp only [entryReads, List.mem_cons, List.not_mem_nil, or_false] at hq
  omega

theorem stateReads_below (hq : q ∈ stateReads b len) :
    q < stateEnd b := by
  have hshots := shotsAt_lt_stateEnd b
  have hhead := stateHead_lt_shotsAt b
  rw [stateReads] at hq
  split_ifs at hq with hlen
  · exact absurd hq List.not_mem_nil
  · simp only [List.mem_append, List.mem_flatMap, List.mem_range, List.mem_cons,
      List.not_mem_nil, or_false] at hq
    rcases hq with ((((hq | ⟨i, hi, hq⟩) | hq) | ⟨i, hi, hq⟩) | hq) | ⟨i, hi, hq⟩
    · have hthree : 3 ≤ stateHead := by decide
      omega
    · have hbelow := playerReads_below hi hq
      omega
    · omega
    · have hbelow := entryReads_below hi hq
      have hat : shotsAt b = stateHead + 1 + 3 * claimed (b stateHead) maxCreatures := rfl
      omega
    · omega
    · exact entryReads_below hi hq

theorem last_read (h : stateHead ≤ len) :
    stateEnd b - 1 ∈ stateReads b len := by
  rw [stateReads, if_neg (Nat.not_lt.mpr h), stateEnd]
  rcases Nat.eq_zero_or_pos (claimed (b (shotsAt b)) maxShots) with hnone | hsome
  · rw [hnone]
    exact List.mem_append_left _ (List.mem_append_right _ (List.mem_singleton.mpr rfl))
  · refine List.mem_append_right _ (List.mem_flatMap.mpr
      ⟨claimed (b (shotsAt b)) maxShots - 1, List.mem_range.mpr (by omega), ?_⟩)
    have hlast : shotsAt b + 1 + 3 * claimed (b (shotsAt b)) maxShots - 1 =
        shotsAt b + 1 + 3 * (claimed (b (shotsAt b)) maxShots - 1) + 2 := by omega
    rw [hlast, entryReads]
    exact List.mem_cons_of_mem _ (List.mem_cons_of_mem _ (List.mem_singleton.mpr rfl))

theorem playerAfter_congr {b' : Nat → UInt8} (hlen : stateHead ≤ len) (hb : ∀ p < len, b' p = b p)
    (hi : i < maxPlayers) (pl : Player) :
    playerAfter b' i pl = playerAfter b i pl := by
  have hp (k : Nat) (hk : k < 7) : b' (3 + i * 7 + k) = b (3 + i * 7 + k) :=
    hb _ (lt_of_lt_of_le
      (playerReads_below hi (List.mem_map.mpr ⟨k, List.mem_range.mpr hk, rfl⟩)) hlen)
  simp only [playerAfter, rd16At, hp 1 (by decide), hp 2 (by decide), hp 3 (by decide),
    hp 4 (by decide), hp 5 (by decide), hp 6 (by decide), Nat.add_assoc (3 + i * 7) 5 1]
  rw [← Nat.add_zero (3 + i * 7), hp 0 (by decide)]

theorem deserializeState_congr {b' : Nat → UInt8} (hend : stateEnd b ≤ len)
    (hb : ∀ p < len, b' p = b p) :
    deserializeState w b' len = deserializeState w b len := by
  have hshots := shotsAt_lt_stateEnd b
  have hhead := stateHead_lt_shotsAt b
  have hlen : stateHead ≤ len := by omega
  have hcount : b' stateHead = b stateHead := hb _ (by omega)
  have hat : shotsAt b' = shotsAt b := by rw [shotsAt, shotsAt, hcount]
  have hcount' : b' (shotsAt b) = b (shotsAt b) := hb _ (by omega)
  have htick : rd16At b' 1 = rd16At b 1 := by
    rw [rd16At, rd16At, hb 1 (lt_of_lt_of_le (by decide) hlen),
      hb 2 (lt_of_lt_of_le (by decide) hlen)]
  have hplayer (i : Nat) (pl : Player) :
      (if i < maxPlayers then playerAfter b' i pl else pl) =
        if i < maxPlayers then playerAfter b i pl else pl := by
    by_cases hi : i < maxPlayers
    · simp only [if_pos hi, playerAfter_congr hlen hb hi]
    · simp only [if_neg hi]
  have hcreature (i : Nat) (c : Creature) : creatureAfter b' i c = creatureAfter b i c := by
    simp only [creatureAfter, hcount]
    by_cases hi : i < claimed (b stateHead) maxCreatures
    · have hinside : stateHead + 1 + 3 * i + 2 < len := by
        rw [stateEnd, shotsAt] at hend
        omega
      simp only [if_pos hi, hb _ hinside, hb (stateHead + 1 + 3 * i + 1) (by omega),
        hb (stateHead + 1 + 3 * i) (by omega)]
    · simp only [if_neg hi]
  have hshot (i : Nat) (s : Shot) : shotAfter b' i s = shotAfter b i s := by
    simp only [shotAfter, hat, hcount']
    by_cases hi : i < claimed (b (shotsAt b)) maxShots
    · have hinside : shotsAt b + 1 + 3 * i + 2 < len := by
        rw [stateEnd] at hend
        omega
      simp only [if_pos hi, hb _ hinside, hb (shotsAt b + 1 + 3 * i + 1) (by omega),
        hb (shotsAt b + 1 + 3 * i) (by omega)]
    · simp only [if_neg hi]
  rw [deserializeState_eq hlen, deserializeState_eq hlen]
  simp only [htick, hplayer, hcreature, hshot]

/-- Only the `len` bytes of the message are read, and the world that results depends on
nothing else. -/
def StaysInside (w : World) (b : Nat → UInt8) (len : Nat) : Prop :=
  Safe (· < len) (stateReads b len) ∧
    ∀ b' : Nat → UInt8, (∀ p < len, b' p = b p) →
      deserializeState w b' len = deserializeState w b len

/-- The test of the length leaves out the two counts and what they claim. -/
theorem deserializeState_inside_iff (w : World) (b : Nat → UInt8) (len : Nat) :
    StaysInside w b len ↔ len < stateHead ∨ stateEnd b ≤ len := by
  constructor
  · intro ⟨hsafe, _⟩
    by_cases hlen : len < stateHead
    · exact Or.inl hlen
    · have hlast := hsafe _ (last_read (Nat.not_lt.mp hlen))
      exact Or.inr (by omega)
  · intro h
    rcases h with hshort | hend
    · constructor
      · rw [stateReads, if_pos hshort]
        exact Safe.nil
      · intro b' _
        rw [deserializeState_short hshort, deserializeState_short hshort]
    · exact ⟨fun q hq => lt_of_lt_of_le (stateReads_below hq) hend,
        fun b' hb => deserializeState_congr hend hb⟩

/-- A message of 31 bytes passes the test; the byte behind it is taken for the number of
creatures and decides which of them live. -/
theorem state_of_31_overruns :
    ¬StaysInside World.zero (fun _ => 0) 31 ∧ 31 ∈ stateReads (fun _ => 0) 31 ∧
      ((deserializeState World.zero (fun p => if p = 31 then 1 else 0) 31).creatures 0).alive ≠
        ((deserializeState World.zero (fun _ => 0) 31).creatures 0).alive := by
  refine ⟨?_, by decide, by decide⟩
  intro ⟨hsafe, _⟩
  exact absurd (hsafe 31 (by decide)) (by decide)

/-! ## Entries of one length -/

theorem getD_flatten {items : List Bytes} (hn : ∀ item ∈ items, item.length = n) {k : Nat}
    (hi : i < items.length) (hk : k < n) :
    items.flatten.getD (n * i + k) 0 = (items.getD i []).getD k 0 := by
  induction items generalizing i with
  | nil => exact absurd hi (Nat.not_lt_zero i)
  | cons item items ih =>
    have hitem : item.length = n := hn item List.mem_cons_self
    rw [List.flatten_cons]
    cases i with
    | zero =>
      rw [List.getD_append _ _ _ _ (by omega)]
      simp
    | succ i =>
      have hstep : n * (i + 1) = n * i + n := Nat.mul_succ n i
      rw [List.getD_append_right _ _ _ _ (by omega), hitem]
      have hat : n * (i + 1) + k - n = n * i + k := by omega
      rw [hat, ih (fun b hb => hn b (List.mem_cons_of_mem _ hb)) (Nat.lt_of_succ_lt_succ hi),
        List.getD_cons_succ]

theorem length_flatten {items : List Bytes} (hn : ∀ item ∈ items, item.length = n) :
    items.flatten.length = n * items.length := by
  induction items with
  | nil => rfl
  | cons item items ih =>
    rw [List.flatten_cons, List.length_append, hn item List.mem_cons_self,
      ih (fun b hb => hn b (List.mem_cons_of_mem _ hb)), List.length_cons, Nat.mul_succ,
      Nat.add_comm]

theorem filterMap_getElem? {α : Type} {ts : List α} (h : ts.length ≤ most) :
    (List.range most).filterMap (fun i => ts[i]?) = ts := by
  induction ts generalizing most with
  | nil => simp
  | cons t ts ih =>
    obtain ⟨m, rfl⟩ : ∃ m, most = m + 1 :=
      ⟨most - 1, by rw [List.length_cons] at h; omega⟩
    rw [List.range_succ_eq_map, List.filterMap_cons, List.getElem?_cons_zero,
      List.filterMap_map]
    exact congrArg (t :: ·) (ih (Nat.le_of_succ_le_succ h))

/-! ## What a client knows of a world -/

/-- The fields of a player that a state message carries. -/
def sentFields (p : Player) : UInt8 × UInt8 × UInt8 × UInt8 × UInt8 × UInt16 :=
  (p.alive, p.x, p.y, p.facing, p.hp, p.score)

/-- Position and kind of the creatures that are alive, in the order of the array. -/
def livingCreatures (w : World) : List (UInt8 × UInt8 × UInt8) :=
  (List.range maxCreatures).filterMap fun i =>
    if (w.creatures i).alive = 0 then none
    else some ((w.creatures i).x, (w.creatures i).y, (w.creatures i).kind)

/-- Position and direction of the shots that are alive. -/
def livingShots (w : World) : List (UInt8 × UInt8 × UInt8) :=
  (List.range maxShots).filterMap fun i =>
    if (w.shots i).alive = 0 then none
    else some ((w.shots i).x, (w.shots i).y, (w.shots i).dir)

structure Agrees (c w : World) : Prop where
  tick : c.tick = w.tick
  players : ∀ i < maxPlayers, sentFields (c.players i) = sentFields (w.players i)
  creatures : livingCreatures c = livingCreatures w
  shots : livingShots c = livingShots w

def entryBytes (t : UInt8 × UInt8 × UInt8) : Bytes := [t.1, t.2.1, t.2.2]

/-- A message begins with the tick and the players. -/
def stateStart (w : World) : Bytes :=
  [gmState] ++ wr16 w.tick ++
    (List.range maxPlayers).flatMap fun i => serializePlayer (w.players i)

theorem serializeState_eq (w : World) :
    serializeState w = stateStart w ++
      serializeAlive ((livingCreatures w).map entryBytes) ++
      serializeAlive ((livingShots w).map entryBytes) := by
  have hcreatures : (((List.range maxCreatures).map w.creatures).filterMap fun c =>
      if c.alive = 0 then none else some [c.x, c.y, c.kind]) =
        (livingCreatures w).map entryBytes := by
    rw [livingCreatures, List.filterMap_map, List.map_filterMap]
    congr 1
    funext i
    by_cases h : (w.creatures i).alive = 0
    · simp [h]
    · simp [h, entryBytes]
  have hshots : (((List.range maxShots).map w.shots).filterMap fun s =>
      if s.alive = 0 then none else some [s.x, s.y, s.dir]) =
        (livingShots w).map entryBytes := by
    rw [livingShots, List.filterMap_map, List.map_filterMap]
    congr 1
    funext i
    by_cases h : (w.shots i).alive = 0
    · simp [h]
    · simp [h, entryBytes]
  rw [serializeState, stateStart, hcreatures, hshots]

theorem length_stateStart (w : World) : (stateStart w).length = stateHead := rfl

theorem length_livingCreatures (w : World) : (livingCreatures w).length ≤ maxCreatures :=
  (List.length_filterMap_le _ _).trans (List.length_range).le

theorem length_livingShots (w : World) : (livingShots w).length ≤ maxShots :=
  (List.length_filterMap_le _ _).trans (List.length_range).le

/-! ## The bytes of an encoded world -/

theorem entryBytes_length :
    ∀ item ∈ ts.map entryBytes, item.length = 3 := by
  intro item hitem
  obtain ⟨t, _, rfl⟩ := List.mem_map.mp hitem
  rfl

theorem length_serializeAlive (ts : List (UInt8 × UInt8 × UInt8)) :
    (serializeAlive (ts.map entryBytes)).length = 1 + 3 * ts.length := by
  rw [serializeAlive, List.length_cons, length_flatten entryBytes_length, List.length_map]
  omega

theorem serializeAlive_count (pre post : Bytes) (hts : ts.length ≤ most) (hmost : most < 256) :
    claimed ((pre ++ (serializeAlive (ts.map entryBytes) ++ post)).getD pre.length 0) most =
      ts.length := by
  rw [List.getD_append_right _ _ _ _ (Nat.le_refl _), Nat.sub_self, serializeAlive,
    List.cons_append, List.getD_cons_zero, List.length_map, claimed, UInt8.toNat_ofNat',
    Nat.mod_eq_of_lt (by omega)]
  omega

theorem serializeAlive_entry (pre post : Bytes) {k : Nat} (hi : i < ts.length) (hk : k < 3) :
    (pre ++ (serializeAlive (ts.map entryBytes) ++ post)).getD (pre.length + 1 + 3 * i + k) 0 =
      (entryBytes ts[i]).getD k 0 := by
  have hinside : 3 * i + k < (ts.map entryBytes).flatten.length := by
    rw [length_flatten entryBytes_length, List.length_map]
    omega
  have hat : pre.length + 1 + 3 * i + k - pre.length = 3 * i + k + 1 := by omega
  rw [List.getD_append_right _ _ _ _ (by omega), hat, serializeAlive, List.cons_append,
    List.getD_cons_succ, List.getD_append _ _ _ _ hinside,
    getD_flatten entryBytes_length (by rw [List.length_map]; exact hi) hk]
  simp [hi]

theorem sentFields_playerAfter (w : World) (post : Bytes) (hi : i < maxPlayers) (p : Player) :
    sentFields (playerAfter (fun q => (stateStart w ++ post).getD q 0) i p) =
      sentFields (w.players i) := by
  have hfour : maxPlayers = 4 := rfl
  have hcases : i = 0 ∨ i = 1 ∨ i = 2 ∨ i = 3 := by omega
  have hscore := rd16_wr16_append (w.players i).score []
  rw [List.append_nil] at hscore
  rcases hcases with rfl | rfl | rfl | rfl
  all_goals
    rw [sentFields, sentFields, Prod.mk.injEq, Prod.mk.injEq, Prod.mk.injEq, Prod.mk.injEq,
      Prod.mk.injEq]
    exact ⟨rfl, rfl, rfl, rfl, rfl, hscore⟩

theorem tick_stateStart (w : World) (post : Bytes) :
    rd16At (fun q => (stateStart w ++ post).getD q 0) 1 = w.tick :=
  rd16_wr16_append w.tick []

theorem filterMap_living {alive : Nat → UInt8} {fields : Nat → UInt8 × UInt8 × UInt8}
    (hts : ts.length ≤ most) (hin : ∀ i, ∀ hi : i < ts.length, alive i ≠ 0 ∧ fields i = ts[i])
    (hout : ∀ i < most, ts.length ≤ i → alive i = 0) :
    ((List.range most).filterMap fun i => if alive i = 0 then none else some (fields i)) = ts := by
  rw [← filterMap_getElem? hts]
  refine List.filterMap_congr fun i hi => ?_
  by_cases hlt : i < ts.length
  · obtain ⟨halive, hfields⟩ := hin i hlt
    rw [if_neg halive, hfields, List.getElem?_eq_getElem hlt]
  · have hle : ts.length ≤ i := Nat.not_lt.mp hlt
    rw [if_pos (hout i (List.mem_range.mp hi) hle), List.getElem?_eq_none hle]

theorem length_serializeState (w : World) :
    (serializeState w).length =
      stateHead + (1 + 3 * (livingCreatures w).length) + (1 + 3 * (livingShots w).length) := by
  rw [serializeState_eq, List.length_append, List.length_append, length_stateStart,
    length_serializeAlive, length_serializeAlive]

theorem length_serializeState_le (w : World) : (serializeState w).length ≤ ncMaxmsg := by
  have hcreatures := length_livingCreatures w
  have hshots := length_livingShots w
  have h1 : maxCreatures = 24 := rfl
  have h2 : maxShots = 16 := rfl
  have h3 : stateHead = 31 := rfl
  have h4 : ncMaxmsg = 532 := rfl
  rw [length_serializeState]
  omega

/-- The world that a client reads agrees with the one that was sent, whatever it held
before and whatever lies behind the message. -/
theorem deserializeState_serializeState (w c : World) (rest : Bytes) :
    Agrees (deserializeState c (fun p => (serializeState w ++ rest).getD p 0)
        (serializeState w).length) w ∧
      (serializeState w).length ≤ ncMaxmsg := by
  refine ⟨?_, length_serializeState_le w⟩
  have hcreatures := length_livingCreatures w
  have hshots := length_livingShots w
  have hlength := length_serializeState w
  have hfirst : serializeState w ++ rest = stateStart w ++
      (serializeAlive ((livingCreatures w).map entryBytes) ++
        (serializeAlive ((livingShots w).map entryBytes) ++ rest)) := by
    rw [serializeState_eq, List.append_assoc, List.append_assoc]
  have hsecond : serializeState w ++ rest =
      (stateStart w ++ serializeAlive ((livingCreatures w).map entryBytes)) ++
        (serializeAlive ((livingShots w).map entryBytes) ++ rest) := by
    rw [serializeState_eq, List.append_assoc]
  set b : Nat → UInt8 := fun p => (serializeState w ++ rest).getD p 0 with hb
  have hcount : claimed (b stateHead) maxCreatures = (livingCreatures w).length := by
    rw [hb, ← length_stateStart w]
    dsimp only
    rw [hfirst]
    exact serializeAlive_count _ _ hcreatures (by decide)
  have hat : shotsAt b =
      (stateStart w ++ serializeAlive ((livingCreatures w).map entryBytes)).length := by
    rw [shotsAt, hcount, List.length_append, length_stateStart, length_serializeAlive,
      Nat.add_assoc]
  have hcount' : claimed (b (shotsAt b)) maxShots = (livingShots w).length := by
    rw [hat, hb]
    dsimp only
    rw [hsecond]
    exact serializeAlive_count _ _ hshots (by decide)
  have hentry (i k : Nat) (hi : i < (livingCreatures w).length) (hk : k < 3) :
      b (stateHead + 1 + 3 * i + k) = (entryBytes (livingCreatures w)[i]).getD k 0 := by
    rw [hb, ← length_stateStart w]
    dsimp only
    rw [hfirst]
    exact serializeAlive_entry _ _ hi hk
  have hentry' (i k : Nat) (hi : i < (livingShots w).length) (hk : k < 3) :
      b (shotsAt b + 1 + 3 * i + k) = (entryBytes (livingShots w)[i]).getD k 0 := by
    rw [hat, hb]
    dsimp only
    rw [hsecond]
    exact serializeAlive_entry _ _ hi hk
  rw [deserializeState_eq (by omega)]
  constructor
  case tick =>
      rw [hb, hfirst]
      exact tick_stateStart w _
  case players =>
      intro i hi
      dsimp only
      rw [if_pos hi, hb, hfirst]
      exact sentFields_playerAfter w _ hi _
  case creatures =>
      rw [livingCreatures]
      apply filterMap_living hcreatures
      · intro i hi
        simp only [creatureAfter, hcount, if_pos hi]
        exact ⟨by decide, by rw [hentry i 1 hi (by decide), hentry i 2 hi (by decide),
          ← Nat.add_zero (stateHead + 1 + 3 * i), hentry i 0 hi (by decide)]; rfl⟩
      · intro i hi hle
        simp only [creatureAfter, hcount, if_neg (Nat.not_lt.mpr hle), if_pos hi]
  case shots =>
      rw [livingShots]
      apply filterMap_living hshots
      · intro i hi
        simp only [shotAfter, hcount', if_pos hi]
        exact ⟨by decide, by rw [hentry' i 1 hi (by decide), hentry' i 2 hi (by decide),
          ← Nat.add_zero (shotsAt b + 1 + 3 * i), hentry' i 0 hi (by decide)]; rfl⟩
      · intro i hi hle
        simp only [shotAfter, hcount', if_neg (Nat.not_lt.mpr hle), if_pos hi]

end MechanicalResearcher.NetchanIpx
