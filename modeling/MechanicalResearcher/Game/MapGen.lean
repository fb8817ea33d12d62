import MechanicalResearcher.Game.Returns

/-!
# Two maps from one seed

`rng_seed` mixes the seed into the state that earlier calls left, so the map depends on
them.  The argument: seeding is a bijection on the states, hence under every seed a process
can begin to draw in any state.  Were the map the same for all of them, every tile of it
would be wall, since for every tile there is a state that walls it in; but from the state
of zeros some tile remains floor.
-/

namespace MechanicalResearcher.Game

open Lib.Orbits

variable {g : Rng} {i x y : Nat} {tiles : Tiles}

/-! ## The random fill -/

/-- The state after `rng_range(100)`, on a cycle where it returns. -/
def draw (g : Rng) : Rng :=
  (search rngNext (fun g => g.c.toNat < byteLimit 100) stateCount g).getD g

theorem draw_later (h : Live g) : ∃ k, draw g = rngNext^[k + 1] g ∧
    rngRange g 100 = some (draw g, (draw g).c.toNat % 100) := by
  have hdraws : Draws (byteLimit 100) g := h.mono (by decide)
  obtain ⟨k, hk, -⟩ := hdraws.search rngNext_injective
  rw [card_rng] at hk
  have hdraw : draw g = rngNext^[k + 1] g := by rw [draw, hk]; rfl
  refine ⟨k, hdraw, ?_⟩
  rw [rngRange, if_neg (by decide), if_pos (by decide), hk, hdraw]
  rfl

theorem Live.draw (h : Live g) : Live (draw g) := by
  obtain ⟨k, hk, -⟩ := draw_later h
  exact hk ▸ h.later (k + 1)

theorem Live.draws (h : Live g) (n : Nat) : Live (Game.draw^[n] g) := by
  induction n generalizing g with
  | zero => exact h
  | succ n ih => exact ih h.draw

/-- Draw number `k` makes a wall. -/
def wallDraw (g : Rng) (k : Nat) : Bool := (draw^[k + 1] g).c.toNat % 100 < 45

theorem wallDraw_iterate (g : Rng) (s k : Nat) : wallDraw (draw^[s] g) k = wallDraw g (s + k) := by
  rw [wallDraw, wallDraw, ← Function.iterate_add_apply, show k + 1 + s = s + k + 1 by omega]

/-- How many tiles before tile `i` took a draw. -/
def drawsBefore (i : Nat) : Nat :=
  if i / 96 = 0 then 0 else if i / 96 ≥ 63 then 5828 else (i / 96 - 1) * 94 + min (i % 96 - 1) 94

theorem drawsBefore_succ :
    drawsBefore (i + 1) = drawsBefore i + if interior i then 1 else 0 := by
  simp only [drawsBefore, interior, decide_eq_true_eq, mapW, mapH]
  split_ifs <;> omega

/-- The tile that the fill puts at `i`. -/
def filled (g : Rng) (i : Nat) : UInt8 :=
  if interior i = true ∧ wallDraw g (drawsBefore i) = false then tFloor else tWall

theorem fillTile_eq (h : Live g) (tiles : Tiles) (i : Nat) :
    fillTile (tiles, draw^[drawsBefore i] g) i =
      some (Function.update tiles i (filled g i), draw^[drawsBefore (i + 1)] g) := by
  rw [drawsBefore_succ]
  by_cases hin : interior i = true
  · obtain ⟨-, -, hrange⟩ := draw_later (h.draws (drawsBefore i))
    simp only [fillTile, hin, if_true, hrange, Option.map_some, filled, true_and,
      Function.iterate_succ_apply', wallDraw]
    by_cases hlow : (draw (draw^[drawsBefore i] g)).c.toNat % 100 < 45
    · simp [hlow]
    · simp [hlow]
  · simp [fillTile, hin, filled]

theorem fill_eq (h : Live g) (tiles : Tiles) (n : Nat) :
    (List.range n).foldlM fillTile (tiles, g) =
      some (fun i => if i < n then filled g i else tiles i, draw^[drawsBefore n] g) := by
  induction n with
  | zero => simp [drawsBefore]
  | succ n ih =>
    rw [List.range_succ, List.foldlM_append, ih]
    simp only [Option.bind_eq_bind, Option.bind_some, List.foldlM_cons, List.foldlM_nil,
      fillTile_eq h, Option.pure_def, Option.some.injEq, Prod.mk.injEq, and_true]
    funext i
    by_cases hi : i = n
    · subst hi
      simp
    · rw [Function.update_of_ne hi]
      simp only [show (i < n + 1) = (i < n) by simp only [eq_iff_iff]; omega]

/-- The map that `gen_map` makes from state `g`. -/
def mapOf (g : Rng) : Tiles :=
  keepLargestRegion (smooth^[4] fun i => if i < mapTiles then filled g i else World.zero.tiles i)

theorem genMap_eq (h : Live g) :
    genMap World.zero.tiles g = some (mapOf g, draw^[drawsBefore mapTiles] g) := by
  rw [genMap, fill_eq h, Option.map_some, mapOf]

/-! ## The automaton on a window -/

/-- The eight places of a window of three by three around its middle. -/
def ring : List (Nat × Nat) := [(0, 0), (1, 0), (2, 0), (0, 1), (2, 1), (0, 2), (1, 2), (2, 2)]

/-- One pass on a window; the place `(x, y)` of the result is the middle of the window of
three by three at `(x, y)`. -/
def spread (w : Nat → Nat → Bool) (x y : Nat) : Bool :=
  5 ≤ ring.countP fun d => w (x + d.1) (y + d.2)

theorem interior_iff (hx : x < mapW) :
    interior (y * mapW + x) = true ↔ (1 ≤ x ∧ x ≤ 94) ∧ 1 ≤ y ∧ y ≤ 62 := by
  simp only [interior, decide_eq_true_eq, mapW, mapH] at *
  omega

theorem wallNeighbors_eq (tiles : Tiles) (hx : 1 ≤ x) (hy : 1 ≤ y) :
    wallNeighbors tiles x y =
      ring.countP fun d => tiles ((y + d.2 - 1) * mapW + (x + d.1 - 1)) = tWall := by
  have hring : around = ring.map fun d => ((d.1 : Int) - 1, (d.2 : Int) - 1) := rfl
  rw [wallNeighbors, hring, List.countP_map]
  apply List.countP_congr
  intro d _
  have hidx : tileIndex ((x : Int) + ((d.1 : Int) - 1)) ((y : Int) + ((d.2 : Int) - 1)) =
      (y + d.2 - 1) * mapW + (x + d.1 - 1) := by
    simp only [tileIndex]
    have hxd : ((x : Int) + ((d.1 : Int) - 1)).toNat = x + d.1 - 1 := by omega
    have hyd : ((y : Int) + ((d.2 : Int) - 1)).toNat = y + d.2 - 1 := by omega
    rw [hxd, hyd]
  simp only [Function.comp_apply, hidx]

theorem smooth_interior (tiles : Tiles) (hx : 1 ≤ x ∧ x ≤ 94) (hy : 1 ≤ y ∧ y ≤ 62) :
    smooth tiles (y * mapW + x) = tWall ↔
      5 ≤ ring.countP fun d => tiles ((y + d.2 - 1) * mapW + (x + d.1 - 1)) = tWall := by
  have hlt : x < mapW := by simp only [mapW]; omega
  have hmod : (y * mapW + x) % mapW = x := by
    rw [Nat.mul_comm, Nat.mul_add_mod, Nat.mod_eq_of_lt hlt]
  have hdiv : (y * mapW + x) / mapW = y := by
    rw [Nat.mul_comm, Nat.mul_add_div (by decide), Nat.div_eq_of_lt hlt, Nat.add_zero]
  rw [smooth, if_pos ((interior_iff hlt).mpr ⟨hx, hy⟩), hmod, hdiv,
    wallNeighbors_eq tiles hx.1 hy.1]
  by_cases hcount : 5 ≤ ring.countP fun d => tiles ((y + d.2 - 1) * mapW + (x + d.1 - 1)) = tWall
  · simp [hcount]
  · rw [if_neg hcount]
    exact ⟨fun h => absurd h (by decide), fun h => absurd h hcount⟩

theorem smooth_border (h : interior i = false) (n : Nat) :
    smooth^[n] tiles i = tiles i := by
  induction n with
  | zero => rfl
  | succ n ih => rw [Function.iterate_succ_apply', smooth, if_neg (by simp [h]), ih]

theorem mem_ring {d : Nat × Nat} (h : d ∈ ring) : d.1 ≤ 2 ∧ d.2 ≤ 2 := by
  simp only [ring, List.mem_cons, List.not_mem_nil, or_false] at h
  rcases h with h | h | h | h | h | h | h | h <;> subst h <;> decide

theorem smooth_of_window {w : Nat → Nat → Bool} (px py : Nat)
    (hborder : ∀ i, interior i = false → tiles i = tWall)
    (hw : ∀ x y tx ty, x ≤ 8 → y ≤ 8 → tx + 4 = px + x → ty + 4 = py + y →
      (1 ≤ tx ∧ tx ≤ 94) → (1 ≤ ty ∧ ty ≤ 62) → w x y = true → tiles (ty * mapW + tx) = tWall)
    {n : Nat} (hn : n ≤ 4) {tx ty : Nat} (hx : x + 2 * n ≤ 8) (hy : y + 2 * n ≤ 8)
    (htx : tx + 4 = px + n + x) (hty : ty + 4 = py + n + y) (hmapx : tx < mapW)
    (hwall : spread^[n] w x y = true) : smooth^[n] tiles (ty * mapW + tx) = tWall := by
  induction n generalizing x y tx ty with
  | zero =>
    by_cases hin : interior (ty * mapW + tx) = true
    · obtain ⟨hinx, hiny⟩ := (interior_iff hmapx).mp hin
      exact hw x y tx ty (by omega) (by omega) (by omega) (by omega) hinx hiny hwall
    · exact hborder _ (by simpa using hin)
  | succ n ih =>
    by_cases hin : interior (ty * mapW + tx) = true
    · obtain ⟨hinx, hiny⟩ := (interior_iff hmapx).mp hin
      rw [Function.iterate_succ_apply'] at hwall ⊢
      rw [smooth_interior _ hinx hiny]
      rw [spread, decide_eq_true_eq] at hwall
      refine le_trans hwall (List.countP_mono_left fun d hd hwd => ?_)
      have hd2 := mem_ring hd
      rw [decide_eq_true_eq]
      exact ih (by omega) (by omega) (by omega) (by omega) (by omega)
        (by simp only [mapW]; omega) hwd
    · rw [smooth_border (by simpa using hin)]
      exact hborder _ (by simpa using hin)

theorem smooth_iff_window {w : Nat → Nat → Bool} (px py : Nat) (hpx : 5 ≤ px ∧ px ≤ 90)
    (hpy : 5 ≤ py ∧ py ≤ 58) (hw : ∀ x y tx ty, x ≤ 8 → y ≤ 8 → tx + 4 = px + x → ty + 4 = py + y →
      (tiles (ty * mapW + tx) = tWall ↔ w x y = true)) {n : Nat} (hn : n ≤ 4) {tx ty : Nat}
    (hx : x + 2 * n ≤ 8) (hy : y + 2 * n ≤ 8) (htx : tx + 4 = px + n + x)
    (hty : ty + 4 = py + n + y) :
    smooth^[n] tiles (ty * mapW + tx) = tWall ↔ spread^[n] w x y = true := by
  induction n generalizing x y tx ty with
  | zero => exact hw x y tx ty (by omega) (by omega) (by omega) (by omega)
  | succ n ih =>
    rw [Function.iterate_succ_apply', Function.iterate_succ_apply',
      smooth_interior _ (by omega) (by omega), spread, decide_eq_true_eq]
    have hcount : (ring.countP fun d =>
        smooth^[n] tiles ((ty + d.2 - 1) * mapW + (tx + d.1 - 1)) = tWall) =
        ring.countP fun d => spread^[n] w (x + d.1) (y + d.2) := by
      apply List.countP_congr
      intro d hd
      have hd2 := mem_ring hd
      rw [decide_eq_true_eq]
      exact ih (by omega) (by omega) (by omega) (by omega) (by omega)
    rw [hcount]

/-! ## The kept region -/

theorem keepLargestRegion_wall (h : tiles i = tWall) :
    keepLargestRegion tiles i = tWall := by
  rw [keepLargestRegion]
  split
  · rfl
  · exact h

theorem floodPush_seen {cur d : Nat} {f : Flood} (h : f.seen i = true) :
    (floodPush tiles cur f d).seen i = true := by
  simp only [floodPush]
  split
  · exact h
  · split
    · exact h
    · by_cases hi : i = tileIndex ((cur % mapW : Nat) + gameDx d) ((cur / mapW : Nat) + gameDy d)
      · rw [hi]
        exact Function.update_self ..
      · exact (Function.update_of_ne hi ..).trans h

theorem floodPush_size {cur d : Nat} {f : Flood} :
    (floodPush tiles cur f d).size = f.size := by
  simp only [floodPush]
  split
  · rfl
  · split <;> rfl

theorem foldl_floodPush (tiles : Tiles) (cur : Nat) (ds : List Nat) (f : Flood) :
    (ds.foldl (floodPush tiles cur) f).size = f.size ∧
      ∀ i, f.seen i = true → (ds.foldl (floodPush tiles cur) f).seen i = true := by
  induction ds generalizing f with
  | nil => exact ⟨rfl, fun _ h => h⟩
  | cons d ds ih =>
    obtain ⟨hsize, hseen⟩ := ih (floodPush tiles cur f d)
    exact ⟨hsize.trans floodPush_size, fun i h => hseen i (floodPush_seen h)⟩

theorem floodLoop_grows (tiles : Tiles) (n : Nat) (f : Flood) :
    f.size ≤ (floodLoop tiles n f).size ∧
      ∀ i, f.seen i = true → (floodLoop tiles n f).seen i = true := by
  induction n generalizing f with
  | zero => exact ⟨le_refl _, fun _ h => h⟩
  | succ n ih =>
    rw [floodLoop]
    split
    · exact ⟨le_refl _, fun _ h => h⟩
    · next cur rest _ =>
        obtain ⟨hsize, hseen⟩ :=
          foldl_floodPush tiles cur [0, 2, 4, 6]
            { f with stack := rest, size := f.size + 1 }
        obtain ⟨hsize', hseen'⟩ := ih ([0, 2, 4, 6].foldl (floodPush tiles cur)
          { f with stack := rest, size := f.size + 1 })
        exact ⟨by simp only [hsize] at hsize'; omega, fun i h => hseen' i (hseen i h)⟩

theorem floodFrom_start (tiles : Tiles) (seen : Nat → Bool) (start : Nat) :
    (floodFrom tiles seen start).seen start = true :=
  (floodLoop_grows ..).2 start (Function.update_self ..)

theorem floodFrom_size_pos (tiles : Tiles) (seen : Nat → Bool) (start : Nat) :
    0 < (floodFrom tiles seen start).size := by
  have hgrow := (floodLoop_grows tiles (mapTiles - 1)
    ([0, 2, 4, 6].foldl (floodPush tiles start)
      ⟨[], Function.update seen start true, 1⟩)).1
  rw [(foldl_floodPush _ _ [0, 2, 4, 6] _).1] at hgrow
  exact hgrow

/-- What the scan knows after the tiles `done`: a best region, or nothing but walls. -/
def Scanned (tiles : Tiles) (done : List Nat) (s : Scan) : Prop :=
  (∃ start, s.bestStart = some start ∧ start ∈ done ∧ tiles start ≠ tWall) ∨
    (s.bestStart = none ∧ s.bestSize = 0 ∧ (∀ i, s.seen i = false) ∧ ∀ i ∈ done, tiles i = tWall)

theorem scanTile_scanned {done : List Nat} {s : Scan} (i : Nat) (h : Scanned tiles done s) :
    Scanned tiles (done ++ [i]) (scanTile tiles s i) := by
  rw [scanTile]
  by_cases hskip : tiles i = tWall ∨ s.seen i = true
  · rw [if_pos hskip]
    rcases h with ⟨start, hbest, hmem, hfloor⟩ | ⟨hbest, hsize, hseen, hwalls⟩
    · exact .inl ⟨start, hbest, List.mem_append_left _ hmem, hfloor⟩
    · have hwall : tiles i = tWall := by simpa [hseen i] using hskip
      refine .inr ⟨hbest, hsize, hseen, fun j hj => ?_⟩
      rcases List.mem_append.mp hj with hj | hj
      · exact hwalls j hj
      · rw [List.mem_singleton.mp hj]
        exact hwall
  · rw [if_neg hskip]
    have hfloor : tiles i ≠ tWall := fun hwall => hskip (.inl hwall)
    have hpos := floodFrom_size_pos tiles s.seen i
    by_cases hbig : (floodFrom tiles s.seen i).size > s.bestSize
    · simp only [hbig, if_true]
      exact .inl ⟨i, rfl, List.mem_append_right _ (List.mem_singleton.mpr rfl), hfloor⟩
    · simp only [hbig, if_false]
      rcases h with ⟨start, hbest, hmem, hstart⟩ | ⟨-, hsize, -, -⟩
      · exact .inl ⟨start, hbest, List.mem_append_left _ hmem, hstart⟩
      · omega

theorem scan_scanned (tiles : Tiles) (is done : List Nat) (s : Scan) (h : Scanned tiles done s) :
    Scanned tiles (done ++ is) (is.foldl (scanTile tiles) s) := by
  induction is generalizing done s with
  | nil => simpa using h
  | cons i is ih => simpa using ih (done ++ [i]) _ (scanTile_scanned i h)

theorem keptTiles_start {start : Nat} (h : largestRegion tiles = some start) :
    keptTiles tiles start = true := by
  simp only [keptTiles, h, Option.any_some, floodFrom_start]

theorem mem_interiorTiles :
    i ∈ interiorTiles ↔ i < mapTiles ∧ interior i = true := by
  rw [interiorTiles, List.mem_filter, List.mem_range]

theorem scan_finds (tiles : Tiles) (is : List Nat) :
    (∃ start ∈ is, (is.foldl (scanTile tiles) ⟨fun _ => false, none, 0⟩).bestStart = some start ∧
      tiles start ≠ tWall) ∨ ∀ i ∈ is, tiles i = tWall := by
  have hscan := scan_scanned tiles is [] ⟨fun _ => false, none, 0⟩
    (.inr ⟨rfl, rfl, fun _ => rfl, fun j hj => absurd hj List.not_mem_nil⟩)
  rw [List.nil_append] at hscan
  rcases hscan with ⟨start, hbest, hmem, hfloor⟩ | ⟨-, -, -, hwalls⟩
  · exact .inl ⟨start, hmem, hbest, hfloor⟩
  · exact .inr hwalls

theorem largestRegion_eq {r : Option Nat}
    (h : (interiorTiles.foldl (scanTile tiles) ⟨fun _ => false, none, 0⟩).bestStart = r) :
    largestRegion tiles = r := by
  rw [largestRegion]
  exact h

theorem keepLargestRegion_start {start : Nat} (hregion : largestRegion tiles = some start)
    (hstart : tiles start ≠ tWall) : keepLargestRegion tiles start ≠ tWall := by
  have hkept := keptTiles_start hregion
  rw [keepLargestRegion, if_neg (by simp [hkept])]
  exact hstart

theorem keepLargestRegion_floor (hi : i < mapTiles) (hin : interior i = true)
    (hfloor : tiles i ≠ tWall) :
    ∃ j < mapTiles, interior j = true ∧ keepLargestRegion tiles j ≠ tWall := by
  rcases scan_finds tiles interiorTiles with ⟨start, hmem, hbest, hstart⟩ | hwalls
  · obtain ⟨hlt, hin'⟩ := mem_interiorTiles.mp hmem
    exact ⟨start, hlt, hin', keepLargestRegion_start (largestRegion_eq hbest) hstart⟩
  · exact absurd (hwalls i (mem_interiorTiles.mpr ⟨hi, hin⟩)) hfloor

/-! ## Two windows -/

/-- The first `n` draws from `g`, one bit for each: a wall or not. -/
def wallBits : Nat → Rng → Nat
  | 0, _ => 0
  | n + 1, g => (if (draw g).c.toNat % 100 < 45 then 1 else 0) + 2 * wallBits n (draw g)

theorem wallBits_testBit (n : Nat) (g : Rng) {k : Nat} (hk : k < n) :
    (wallBits n g).testBit k = wallDraw g k := by
  induction n generalizing g k with
  | zero => omega
  | succ n ih =>
    rw [wallBits]
    cases k with
    | zero =>
      rw [Nat.testBit_zero, wallDraw]
      by_cases hlow : (draw g).c.toNat % 100 < 45
      · simp [hlow, Nat.add_mod]
      · simp [hlow]
    | succ k =>
      rw [Nat.testBit_succ]
      have hhalf : ((if (draw g).c.toNat % 100 < 45 then 1 else 0) +
          2 * wallBits n (draw g)) / 2 = wallBits n (draw g) := by
        split <;> omega
      rw [hhalf, ih (draw g) (by omega)]
      rfl

/-- The window of nine by nine that the first draws fill, one row of the map apart. -/
def window (bits : Nat) (x y : Nat) : Bool := bits.testBit (y * 94 + x)

/-- A state whose first draws wall in the middle of their window. -/
def wallState : Rng := ⟨0, 78, 0, 0⟩

def wallStateBits : Nat :=
  0x18d55b0914440d94c8603c3d3d3dee59ba9847841a54759b68aa1e134028ce22af6ea14168ec18838ea705772afede0 * 2 ^ 384 +
    0x5cd214001fa64cc69cad0ab16d0099529d74e09ad242b7e95ce538a3aec025e52cd4d3af7145a13412a349fa836ea7de

def zeroStateBits : Nat :=
  0xd892b1003247a14a248766842ca49451706186e498a002f8b04a50d9428208b702444c240494002c784f5a20921bd0 * 2 ^ 384 +
    0xdd906882e113340879d9061018151b2aba547cb41e9cdf09319931cc285a74cdca1e932a255018e7f291ac99be7e67f1

theorem windows_eval :
    (wallBits 761 wallState = wallStateBits ∧ wallBits 761 Rng.zero = zeroStateBits) ∧
      spread^[4] (window wallStateBits) 0 0 = true ∧
      spread^[4] (window zeroStateBits) 0 0 = false := by
  decide +kernel

theorem wallState_wallDraw (hx : x ≤ 8) (hy : y ≤ 8) :
    wallDraw wallState (y * 94 + x) = window wallStateBits x y := by
  rw [window, ← windows_eval.1.1, wallBits_testBit 761 wallState (by omega)]

theorem zeroState_wallDraw (hx : x ≤ 8) (hy : y ≤ 8) :
    wallDraw Rng.zero (y * 94 + x) = window zeroStateBits x y := by
  rw [window, ← windows_eval.1.2, wallBits_testBit 761 Rng.zero (by omega)]

/-! ## The map depends on the history -/

theorem filled_border (h : interior i = false) : filled g i = tWall := by
  simp [filled, h]

theorem drawsBefore_interior (hx : 1 ≤ x ∧ x ≤ 94) (hy : 1 ≤ y ∧ y ≤ 62) :
    drawsBefore (y * mapW + x) = (y - 1) * 94 + (x - 1) := by
  simp only [drawsBefore, mapW]
  have hmod : (y * 96 + x) % 96 = x := by omega
  have hdiv : (y * 96 + x) / 96 = y := by omega
  rw [hmod, hdiv, if_neg (by omega), if_neg (by omega)]
  omega

theorem exists_earlier (n : Nat) (hacc : g.c.toNat < byteLimit 100) (hlive : Live g) :
    ∃ g', draw^[n] g' = g ∧ Live g' := by
  induction n generalizing g with
  | zero => exact ⟨g, rfl, hlive⟩
  | succ n ih =>
    obtain ⟨a, ha, hsearch⟩ := exists_previous (P := fun g => g.c.toNat < byteLimit 100)
      rngNext_injective hacc
    obtain ⟨k, -, hk, -⟩ := search_some hsearch
    rw [card_rng] at hsearch
    have hdraw : draw a = g := by rw [draw, hsearch]; rfl
    have halive : Live a := by
      rw [hk] at hlive
      exact hlive.earlier
    obtain ⟨g', hg', hlive'⟩ := ih ha halive
    exact ⟨g', by rw [Function.iterate_succ_apply', hg', hdraw], hlive'⟩

theorem exists_walled {px py : Nat} (hpx : 1 ≤ px ∧ px ≤ 94) (hpy : 1 ≤ py ∧ py ≤ 62) :
    ∃ g, Live g ∧ mapOf g (py * mapW + px) = tWall := by
  obtain ⟨g, hg, hlive⟩ := exists_earlier 5828 (g := wallState) (by decide)
    (live_of_low (by decide))
  -- so many draws on, the window of `wallState` lies around the tile
  refine ⟨draw^[6303 - (py * 94 + px)] g, hlive.draws _, keepLargestRegion_wall ?_⟩
  apply smooth_of_window (w := window wallStateBits) px py (n := 4) (x := 0)
    (y := 0) _ _ (le_refl 4) (by omega) (by omega) (by omega) (by omega)
    (by simp only [mapW]; omega) windows_eval.2.1
  · intro i hi
    simp only [filled_border hi, World.zero, ite_self]
  · intro x y tx ty hx hy htx hty hinx hiny hwall
    have hdraw : wallDraw (draw^[6303 - (py * 94 + px)] g) (drawsBefore (ty * mapW + tx)) =
        true := by
      have hsame : 6303 - (py * 94 + px) + ((ty - 1) * 94 + (tx - 1)) = 5828 + (y * 94 + x) := by
        omega
      rw [drawsBefore_interior hinx hiny, wallDraw_iterate, hsame, ← wallDraw_iterate, hg,
        wallState_wallDraw hx hy, hwall]
    simp [filled, hdraw, World.zero]

theorem exists_floor : ∃ px py, (1 ≤ px ∧ px ≤ 94) ∧ (1 ≤ py ∧ py ≤ 62) ∧
    mapOf Rng.zero (py * mapW + px) ≠ tWall := by
  have hfirst (x y tx ty : Nat) (hx : x ≤ 8) (hy : y ≤ 8) (htx : tx + 4 = 5 + x)
      (hty : ty + 4 = 5 + y) :
      (fun i => if i < mapTiles then filled Rng.zero i else World.zero.tiles i)
        (ty * mapW + tx) = tWall ↔ window zeroStateBits x y = true := by
    have hin : interior (ty * mapW + tx) = true :=
      (interior_iff (by simp only [mapW]; omega)).mpr ⟨by omega, by omega⟩
    have hbefore : drawsBefore (ty * mapW + tx) = y * 94 + x := by
      rw [drawsBefore_interior (by omega) (by omega)]
      omega
    have hlt : ty * mapW + tx < mapTiles := by simp only [mapTiles, mapW, mapH]; omega
    simp only []
    rw [if_pos hlt, filled, hbefore, zeroState_wallDraw hx hy]
    cases window zeroStateBits x y <;> simp [hin, tWall, tFloor]
  have hwindow : smooth^[4] (fun i => if i < mapTiles then filled Rng.zero i
      else World.zero.tiles i) (5 * mapW + 5) = tWall ↔
        spread^[4] (window zeroStateBits) 0 0 = true :=
    smooth_iff_window 5 5 (by decide) (by decide) hfirst (le_refl 4) (by decide) (by decide)
      rfl rfl
  have hfloor := mt hwindow.mp (by rw [windows_eval.2.2]; decide)
  obtain ⟨j, hj, hin, hkept⟩ := keepLargestRegion_floor (i := 5 * mapW + 5) (by decide)
    (by decide) hfloor
  refine ⟨j % mapW, j / mapW, ?_, ?_, ?_⟩
  · simp only [interior, decide_eq_true_eq, mapW, mapH] at hin ⊢
    omega
  · simp only [interior, decide_eq_true_eq, mapW, mapH] at hin ⊢
    omega
  · rw [Nat.mul_comm, Nat.div_add_mod]
    exact hkept

/-- Whatever calls to the generator came before, `game_init(seed)` makes the same tile map. -/
def MapDeterministic (seed : UInt16) : Prop :=
  ∀ (calls calls' : List RngCall) (g g' w w' : GameState),
    rngHistory calls = some g.rng → rngHistory calls' = some g'.rng →
    gameInit g seed = some w → gameInit g' seed = some w' →
    ∀ i < mapTiles, w.world.tiles i = w'.world.tiles i

theorem exists_gameInit (seed : UInt16) {rng : Rng} (h : Live rng) :
    ∃ calls g w, rngHistory calls = some (GameState.rng g) ∧ gameInit g seed = some w ∧
      w.world.tiles = mapOf rng := by
  obtain ⟨before, hseed⟩ := rngSeed_surjective seed.toUInt8 (seed >>> 8).toUInt8 0x5A rng
  obtain ⟨calls, hcalls⟩ := exists_rngHistory before
  let g : GameState := ⟨World.zero, fun _ => 0, fun _ => 0, before⟩
  have hseeded : seeded g.rng seed = rng := hseed
  obtain ⟨w, tiles, rng', hmap, hinit, htiles, -⟩ := gameInit_returns (g := g) (hseeded ▸ h)
  rw [hseeded, genMap_eq h, Option.some.injEq, Prod.mk.injEq] at hmap
  exact ⟨calls, g, w, hcalls, hinit, htiles.trans hmap.1.symm⟩

theorem exists_two_maps (seed : UInt16) : ∃ calls calls' g g' w w',
    rngHistory calls = some (GameState.rng g) ∧ rngHistory calls' = some (GameState.rng g') ∧
      gameInit g seed = some w ∧ gameInit g' seed = some w' ∧
      ∃ i < mapTiles, w.world.tiles i ≠ w'.world.tiles i := by
  obtain ⟨px, py, hpx, hpy, hfloor⟩ := exists_floor
  obtain ⟨rng, hlive, hwall⟩ := exists_walled hpx hpy
  obtain ⟨calls, g, w, hcalls, hinit, htiles⟩ :=
    exists_gameInit seed (live_of_low (g := Rng.zero) (by decide))
  obtain ⟨calls', g', w', hcalls', hinit', htiles'⟩ := exists_gameInit seed hlive
  refine ⟨calls, calls', g, g', w, w', hcalls, hcalls', hinit, hinit', py * mapW + px, ?_, ?_⟩
  · simp only [mapTiles, mapW, mapH]
    omega
  · rw [htiles, htiles', hwall]
    exact hfloor

/-- No seed fixes the map: for every seed, two histories of the generator give two maps. -/
theorem gameInit_never_deterministic (seed : UInt16) : ¬ MapDeterministic seed := by
  intro hdet
  obtain ⟨calls, calls', g, g', w, w', hcalls, hcalls', hinit, hinit', i, hi, hdiff⟩ :=
    exists_two_maps seed
  exact hdiff (hdet calls calls' g g' w w' hcalls hcalls' hinit hinit' i hi)

/-- The seed that `game_server` and `web_demo` start with. -/
theorem defaultSeed_not_deterministic : ¬ MapDeterministic 0x1234 := by
  intro hdet
  obtain ⟨calls, calls', g, g', w, w', hcalls, hcalls', hinit, hinit', i, hi, hdiff⟩ :=
    exists_two_maps 0x1234
  exact hdiff (hdet calls calls' g g' w w' hcalls hcalls' hinit hinit' i hi)

end MechanicalResearcher.Game
