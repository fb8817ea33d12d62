import MechanicalResearcher.Lib.Accesses
import MechanicalResearcher.Lib.Flood
import MechanicalResearcher.Game.MapGen

/-!
# The largest region

`keep_largest_region` floods every region of floor once to find the largest one, floods that
one again, and makes a wall of every tile that the second flood has not seen.  A region is a
component of the floor tiles under steps to the four sides.
-/

namespace MechanicalResearcher.Game

open Lib Lib.Flood

variable {start cur d : Nat} {S : Set Nat} {done is : List Nat} {f : Flood} {seen : Nat → Bool}
    {s : Scan}

variable {tiles : Tiles}

/-! ## Steps to the four sides -/

/-- The tiles `a` and `b` share a side. -/
def FourAdjacent (a b : Nat) : Prop :=
  (((a % mapW : Nat) : Int) - (b % mapW : Nat)).natAbs +
    (((a / mapW : Nat) : Int) - (b / mapW : Nat)).natAbs = 1

/-- A tile of the map that is not a wall. -/
def FloorTile (tiles : Tiles) (a : Nat) : Prop := a < mapTiles ∧ tiles a ≠ tWall

def FloorStep (tiles : Tiles) (a b : Nat) : Prop :=
  FloorTile tiles a ∧ FloorTile tiles b ∧ FourAdjacent a b

theorem floorStep_symm (a b : Nat) (h : FloorStep tiles a b) : FloorStep tiles b a := by
  obtain ⟨ha, hb, hadj⟩ := h
  refine ⟨hb, ha, ?_⟩
  rw [FourAdjacent] at hadj ⊢
  omega

theorem region_floor {i : Nat} (hstart : FloorTile tiles start)
    (h : i ∈ region (FloorStep tiles) start) : FloorTile tiles i := by
  induction h with
  | refl => exact hstart
  | tail _ hstep _ => exact hstep.2.1

theorem floor_interior (hborder : ∀ i < mapTiles, interior i = false → tiles i = tWall) {i : Nat}
    (h : FloorTile tiles i) : interior i = true := by
  by_contra hout
  exact h.2 (hborder i h.1 (Bool.eq_false_iff.mpr hout))

/-- The tile in direction `d` of `cur`. -/
def neighbor (cur d : Nat) : Nat :=
  tileIndex ((cur % mapW : Nat) + gameDx d) ((cur / mapW : Nat) + gameDy d)

def fourSides : List Nat := [0, 2, 4, 6]

theorem neighbor_of_interior (hcur : cur < mapTiles) (hin : interior cur = true)
    (hd : d ∈ fourSides) : neighbor cur d < mapTiles ∧ FourAdjacent cur (neighbor cur d) := by
  simp only [interior, decide_eq_true_eq, mapW, mapH, mapTiles] at hcur hin ⊢
  simp only [fourSides, List.mem_cons, List.not_mem_nil, or_false] at hd
  rcases hd with rfl | rfl | rfl | rfl
  all_goals
    simp only [neighbor, tileIndex, gameDx, gameDy, FourAdjacent, mapW, List.getD_cons_zero,
      List.getD_cons_succ]
    omega

theorem fourAdjacent_neighbor {b : Nat} (hin : interior cur = true) (h : FourAdjacent cur b) :
    ∃ d ∈ fourSides, b = neighbor cur d := by
  simp only [interior, decide_eq_true_eq, mapW, mapH] at hin
  simp only [FourAdjacent, mapW] at h
  have hside : (b = cur + 96 ∨ b + 96 = cur) ∨ b = cur + 1 ∨ b + 1 = cur := by omega
  rcases hside with (hside | hside) | hside | hside
  · refine ⟨4, by decide, ?_⟩
    simp only [neighbor, tileIndex, gameDx, gameDy, mapW, List.getD_cons_zero,
      List.getD_cons_succ]
    omega
  · refine ⟨0, by decide, ?_⟩
    simp only [neighbor, tileIndex, gameDx, gameDy, mapW, List.getD_cons_zero]
    omega
  · refine ⟨2, by decide, ?_⟩
    simp only [neighbor, tileIndex, gameDx, gameDy, mapW, List.getD_cons_zero,
      List.getD_cons_succ]
    omega
  · refine ⟨6, by decide, ?_⟩
    simp only [neighbor, tileIndex, gameDx, gameDy, mapW, List.getD_cons_zero,
      List.getD_cons_succ]
    omega

theorem floodPush_eq (hborder : ∀ i < mapTiles, interior i = false → tiles i = tWall)
    (hcur : cur < mapTiles) (hin : interior cur = true) (hd : d ∈ fourSides) (f : Flood) :
    floodPush tiles cur f d =
      if tiles (neighbor cur d) = tWall ∨ f.seen (neighbor cur d) = true then f
      else
        { f with
          seen := Function.update f.seen (neighbor cur d) true
          stack := neighbor cur d :: f.stack } := by
  have hlt := (neighbor_of_interior hcur hin hd).1
  simp only [floodPush]
  split
  next hout =>
      have hwall : tiles (neighbor cur d) = tWall := by
        apply hborder _ hlt
        simp only [interior, decide_eq_true_eq, decide_eq_false_iff_not, mapW, mapH, mapTiles]
          at hcur hin hout ⊢
        simp only [fourSides, List.mem_cons, List.not_mem_nil, or_false] at hd
        rcases hd with rfl | rfl | rfl | rfl
        all_goals
          simp only [neighbor, tileIndex, gameDx, gameDy, mapW, List.getD_cons_zero,
            List.getD_cons_succ] at hout ⊢
          omega
      rw [if_pos (Or.inl hwall)]
  next => rfl

/-! ## One flood -/

/-- A flood among the tiles outside of `S`, with the tiles `done` behind it: `pending` is its
stack, or the stack and the tile in hand. -/
structure Flooding (tiles : Tiles) (start : Nat) (S : Set Nat) (done pending : List Nat)
    (seen : Nat → Bool) : Prop where
  flooded : Flooded (FloorStep tiles) start S done pending
  marks : ∀ i, seen i = true ↔ i ∈ S ∨ i ∈ done ++ pending

theorem Flooding.push (hborder : ∀ i < mapTiles, interior i = false → tiles i = tWall)
    (hcur : FloorTile tiles cur) (hin : interior cur = true) (hd : d ∈ fourSides)
    (h : Flooding tiles start S done (cur :: f.stack) f.seen) :
    Flooding tiles start S done (cur :: (floodPush tiles cur f d).stack)
        (floodPush tiles cur f d).seen ∧
      (FloorTile tiles (neighbor cur d) →
        (floodPush tiles cur f d).seen (neighbor cur d) = true) := by
  obtain ⟨hlt, hadj⟩ := neighbor_of_interior hcur.1 hin hd
  rw [floodPush_eq hborder hcur.1 hin hd]
  by_cases hskip : tiles (neighbor cur d) = tWall ∨ f.seen (neighbor cur d) = true
  · rw [if_pos hskip]
    refine ⟨h, fun hfloor => ?_⟩
    exact hskip.resolve_left hfloor.2
  · rw [if_neg hskip]
    have hwall : tiles (neighbor cur d) ≠ tWall := fun hw => hskip (Or.inl hw)
    have hnew : neighbor cur d ∉ S ∧ neighbor cur d ∉ done ++ cur :: f.stack := by
      have hunseen := fun hmem => hskip (Or.inr ((h.marks _).mpr hmem))
      exact ⟨fun hS => hunseen (Or.inl hS), fun hold => hunseen (Or.inr hold)⟩
    have hstep : FloorStep tiles cur (neighbor cur d) := ⟨hcur, ⟨hlt, hwall⟩, hadj⟩
    refine ⟨⟨h.flooded.push hstep hnew.1 hnew.2, fun i => ?_⟩, fun _ => Function.update_self ..⟩
    by_cases hi : i = neighbor cur d
    · subst hi
      simp
    · dsimp only
      rw [Function.update_of_ne hi, h.marks i]
      simp [hi]

theorem Flooding.turn (hborder : ∀ i < mapTiles, interior i = false → tiles i = tWall)
    {start cur : Nat} {S : Set Nat} {done : List Nat} (hcur : FloorTile tiles cur)
    (hin : interior cur = true) (ds : List Nat) (hds : ∀ d ∈ ds, d ∈ fourSides) {f : Flood}
    (h : Flooding tiles start S done (cur :: f.stack) f.seen) :
    Flooding tiles start S done (cur :: (ds.foldl (floodPush tiles cur) f).stack)
        (ds.foldl (floodPush tiles cur) f).seen ∧
      ∀ d ∈ ds, FloorTile tiles (neighbor cur d) →
        (ds.foldl (floodPush tiles cur) f).seen (neighbor cur d) = true := by
  induction ds generalizing f with
  | nil => exact ⟨h, fun d hd => absurd hd List.not_mem_nil⟩
  | cons d ds ih =>
    obtain ⟨hpush, hseen⟩ := h.push hborder hcur hin (hds d List.mem_cons_self)
    obtain ⟨hrest, hall⟩ := ih (fun e he => hds e (List.mem_cons_of_mem _ he)) hpush
    refine ⟨hrest, fun e he hfloor => ?_⟩
    rcases List.mem_cons.mp he with rfl | he
    · exact (foldl_floodPush tiles cur ds _).2 _ (hseen hfloor)
    · exact hall e he hfloor

theorem Flooding.next (hborder : ∀ i < mapTiles, interior i = false → tiles i = tWall)
    {start cur : Nat} {S : Set Nat} {done rest : List Nat} {f : Flood}
    (hstart : FloorTile tiles start)
    (h : Flooding tiles start S done (cur :: rest) f.seen) (hrest : f.stack = rest) :
    Flooding tiles start S (cur :: done) (fourSides.foldl (floodPush tiles cur) f).stack
      (fourSides.foldl (floodPush tiles cur) f).seen := by
  have hreached := h.flooded.reached cur (List.mem_append_right _ List.mem_cons_self)
  have hcur : FloorTile tiles cur := region_floor hstart hreached
  have hin := floor_interior hborder hcur
  rw [← hrest] at h
  obtain ⟨hturn, hall⟩ := h.turn hborder hcur hin fourSides (fun d hd => hd)
  have hpop := hturn.flooded.pop (fun b hb => by
    obtain ⟨d, hd, rfl⟩ := fourAdjacent_neighbor hin hb.2.2
    exact (hturn.marks _).mp (hall d hd hb.2.1))
  refine ⟨hpop, fun i => ?_⟩
  rw [hturn.marks i]
  simp only [List.mem_append, List.mem_cons, List.cons_append]
  tauto

theorem Flooding.length_le {pending : List Nat} (hstart : FloorTile tiles start)
    (h : Flooding tiles start S done pending seen) :
    done.length + pending.length ≤ mapTiles := by
  have hnodes := h.flooded.length_le (Finset.range mapTiles)
    (fun i hi => Finset.mem_range.mpr (region_floor hstart hi).1)
  rwa [Finset.card_range] at hnodes

theorem floodLoop_ends (hborder : ∀ i < mapTiles, interior i = false → tiles i = tWall)
    (hstart : FloorTile tiles start) (n : Nat) (h : Flooding tiles start S done f.stack f.seen)
    (hsize : f.size = done.length) (hn : mapTiles ≤ done.length + n) :
    (floodLoop tiles n f).stack = [] ∧
      ∃ all, Flooding tiles start S all [] (floodLoop tiles n f).seen ∧
        (floodLoop tiles n f).size = all.length := by
  induction n generalizing done f with
  | zero =>
    have hlength := h.length_le hstart
    have hempty : f.stack = [] := List.eq_nil_of_length_eq_zero (by omega)
    rw [floodLoop]
    exact ⟨hempty, done, hempty ▸ h, hsize⟩
  | succ n ih =>
    rw [floodLoop]
    rcases hstack : f.stack with _ | ⟨cur, rest⟩
    · rw [hstack] at h
      exact ⟨hstack, done, h, hsize⟩
    · rw [hstack] at h
      have hnext := Flooding.next hborder
        (f := { f with stack := rest, size := f.size + 1 }) hstart h rfl
      have hgrow := (foldl_floodPush tiles cur fourSides
        { f with stack := rest, size := f.size + 1 }).1
      apply ih hnext
      · rw [hgrow, List.length_cons, hsize]
      · rw [List.length_cons]
        omega

theorem Flooding.init (hseen : ∀ i, seen i = true ↔ i ∈ S) (hfresh : start ∉ S) :
    Flooding tiles start S [] [start] (Function.update seen start true) where
  flooded := Flooded.init hfresh
  marks i := by
    by_cases hi : i = start
    · subst hi
      simp
    · rw [Function.update_of_ne hi, hseen i]
      simp [hi]

theorem floodFrom_region (hborder : ∀ i < mapTiles, interior i = false → tiles i = tWall)
    (hstart : FloorTile tiles start) (hseen : ∀ i, seen i = true ↔ i ∈ S) (hfresh : start ∉ S)
    (hclosed : ∀ a ∈ S, ∀ b, FloorStep tiles a b → b ∈ S) :
    (floodFrom tiles seen start).stack = [] ∧
      (∀ i, (floodFrom tiles seen start).seen i = true ↔
        i ∈ S ∨ i ∈ region (FloorStep tiles) start) ∧
      (floodFrom tiles seen start).size = (region (FloorStep tiles) start).ncard := by
  obtain ⟨hempty, all, hall, hsize⟩ := floodLoop_ends hborder hstart mapTiles
    (f := ⟨[start], Function.update seen start true, 0⟩) (Flooding.init hseen hfresh) rfl
    (Nat.le_add_left _ _)
  have hapart : ∀ a ∈ region (FloorStep tiles) start, a ∉ S :=
    fun a ha => region_outside floorStep_symm hclosed hfresh ha
  refine ⟨hempty, fun i => ?_, ?_⟩
  · rw [floodFrom, hall.marks i, List.append_nil, hall.flooded.mem_done_iff hapart]
  · rw [floodFrom, hsize, hall.flooded.ncard_region hapart]

/-! ## The scan for the largest region -/

/-- The tiles in the regions of the floor tiles of a list. -/
def scanned (tiles : Tiles) (is : List Nat) : Set Nat :=
  {i | ∃ j ∈ is, FloorTile tiles j ∧ i ∈ region (FloorStep tiles) j}

/-- What the scan knows after the tiles `is`. -/
structure Scanning (tiles : Tiles) (is : List Nat) (s : Scan) : Prop where
  seen : ∀ i, s.seen i = true ↔ i ∈ scanned tiles is
  best : s.bestStart = none ∧ s.bestSize = 0 ∧ (∀ j ∈ is, ¬FloorTile tiles j) ∨
    ∃ start ∈ is, s.bestStart = some start ∧ FloorTile tiles start ∧
      s.bestSize = (region (FloorStep tiles) start).ncard
  largest : ∀ j ∈ is, FloorTile tiles j → (region (FloorStep tiles) j).ncard ≤ s.bestSize

theorem scanned_closed (is : List Nat) :
    ∀ a ∈ scanned tiles is, ∀ b, FloorStep tiles a b → b ∈ scanned tiles is := by
  intro a ⟨j, hj, hfloor, ha⟩ b hab
  exact ⟨j, hj, hfloor, Relation.ReflTransGen.tail ha hab⟩

theorem scanned_append (is : List Nat) (start i : Nat) :
    i ∈ scanned tiles (is ++ [start]) ↔
      i ∈ scanned tiles is ∨ FloorTile tiles start ∧ i ∈ region (FloorStep tiles) start := by
  constructor
  · intro ⟨j, hj, hfloor, hi⟩
    rcases List.mem_append.mp hj with hj | hj
    · exact Or.inl ⟨j, hj, hfloor, hi⟩
    · rw [List.mem_singleton.mp hj] at hfloor hi
      exact Or.inr ⟨hfloor, hi⟩
  · intro h
    rcases h with ⟨j, hj, hfloor, hi⟩ | ⟨hfloor, hi⟩
    · exact ⟨j, List.mem_append_left _ hj, hfloor, hi⟩
    · exact ⟨start, List.mem_append_right _ (List.mem_singleton.mpr rfl), hfloor, hi⟩

theorem Scanning.skip (h : Scanning tiles is s)
    (hskip : FloorTile tiles start → s.seen start = true) :
    Scanning tiles (is ++ [start]) s := by
  -- the region of a tile that was seen is the region of an earlier tile
  have hold (hfloor : FloorTile tiles start) : ∃ j ∈ is, FloorTile tiles j ∧
      region (FloorStep tiles) start = region (FloorStep tiles) j := by
    obtain ⟨j, hj, hfloor', hmem⟩ := (h.seen start).mp (hskip hfloor)
    exact ⟨j, hj, hfloor', region_eq floorStep_symm hmem⟩
  constructor
  case seen =>
      intro i
      rw [h.seen i, scanned_append]
      constructor
      · exact Or.inl
      · intro hi
        rcases hi with hi | ⟨hfloor, hi⟩
        · exact hi
        · obtain ⟨j, hj, hfloor', heq⟩ := hold hfloor
          exact ⟨j, hj, hfloor', heq ▸ hi⟩
  case best =>
      rcases h.best with ⟨hnone, hzero, hwalls⟩ | ⟨best, hbest, hrest⟩
      · refine Or.inl ⟨hnone, hzero, fun j hj hfloor => ?_⟩
        rcases List.mem_append.mp hj with hj | hj
        · exact hwalls j hj hfloor
        · rw [List.mem_singleton.mp hj] at hfloor
          obtain ⟨j, hj, hfloor', -⟩ := hold hfloor
          exact hwalls j hj hfloor'
      · exact Or.inr ⟨best, List.mem_append_left _ hbest, hrest⟩
  case largest =>
      intro j hj hfloor
      rcases List.mem_append.mp hj with hj | hj
      · exact h.largest j hj hfloor
      · rw [List.mem_singleton.mp hj] at hfloor ⊢
        obtain ⟨j, hj, hfloor', heq⟩ := hold hfloor
        rw [heq]
        exact h.largest j hj hfloor'

theorem Scanning.step (hborder : ∀ i < mapTiles, interior i = false → tiles i = tWall)
    (hstart : start < mapTiles) (h : Scanning tiles is s) :
    Scanning tiles (is ++ [start]) (scanTile tiles s start) := by
  rw [scanTile]
  by_cases hskip : tiles start = tWall ∨ s.seen start = true
  · rw [if_pos hskip]
    exact h.skip fun hfloor => hskip.resolve_left hfloor.2
  · rw [if_neg hskip]
    have hfloor : FloorTile tiles start := ⟨hstart, fun hwall => hskip (Or.inl hwall)⟩
    have hfresh : start ∉ scanned tiles is :=
      fun hmem => hskip (Or.inr ((h.seen start).mpr hmem))
    obtain ⟨-, hseen, hsize⟩ :=
      floodFrom_region hborder hfloor h.seen hfresh (scanned_closed is)
    have hseen' : ∀ i, (floodFrom tiles s.seen start).seen i = true ↔
        i ∈ scanned tiles (is ++ [start]) := by
      intro i
      rw [hseen i, scanned_append]
      tauto
    have hpos := floodFrom_size_pos tiles s.seen start
    dsimp only
    by_cases hbig : (floodFrom tiles s.seen start).size > s.bestSize
    · rw [if_pos hbig]
      refine ⟨hseen', Or.inr ⟨start, by simp, rfl, hfloor, hsize⟩, fun j hj hj' => ?_⟩
      rcases List.mem_append.mp hj with hj | hj
      · exact (h.largest j hj hj').trans (Nat.le_of_lt hbig)
      · rw [List.mem_singleton.mp hj, hsize]
    · rw [if_neg hbig]
      refine ⟨hseen', ?_, fun j hj hj' => ?_⟩
      · rcases h.best with ⟨-, hzero, -⟩ | ⟨best, hbest, hrest⟩
        · exact absurd hpos (by omega)
        · exact Or.inr ⟨best, List.mem_append_left _ hbest, hrest⟩
      · rcases List.mem_append.mp hj with hj | hj
        · exact h.largest j hj hj'
        · rw [List.mem_singleton.mp hj, ← hsize]
          exact Nat.not_lt.mp hbig

theorem Scanning.run (hborder : ∀ i < mapTiles, interior i = false → tiles i = tWall)
    (his : ∀ i ∈ is, i < mapTiles) (h : Scanning tiles done s) :
    Scanning tiles (done ++ is) (is.foldl (scanTile tiles) s) := by
  induction is generalizing done s with
  | nil => simpa using h
  | cons i is ih =>
    have hstep := h.step hborder (his i List.mem_cons_self)
    rw [List.append_cons]
    exact ih (fun j hj => his j (List.mem_cons_of_mem _ hj)) hstep

theorem Scanning.none (tiles : Tiles) : Scanning tiles [] ⟨fun _ => false, none, 0⟩ where
  seen i := by simp [scanned]
  best := Or.inl ⟨rfl, rfl, fun j hj => absurd hj List.not_mem_nil⟩
  largest j hj := absurd hj List.not_mem_nil

/-! ## The array elements that a flood touches -/

inductive RegionAccess
  /-- `TILE(w, x, y)` -/
  | tile (i : Nat)
  /-- `seen[i]` -/
  | seen (i : Nat)
  /-- `stack[sp]` -/
  | stack (sp : Nat)

def RegionAccess.InRange : RegionAccess → Prop
  | .tile i => i < mapTiles
  | .seen i => i < mapTiles
  | .stack sp => sp < mapTiles

def floodPushAccesses (tiles : Tiles) (cur : Nat) (f : Flood) (d : Nat) : List RegionAccess :=
  let nx : Int := (cur % mapW : Nat) + gameDx d
  let ny : Int := (cur / mapW : Nat) + gameDy d
  if nx < 1 ∨ ny < 1 ∨ nx ≥ mapW - 1 ∨ ny ≥ mapH - 1 then []
  else
    .tile (tileIndex nx ny) ::
      if tiles (tileIndex nx ny) = tWall then []
      else
        .seen (tileIndex nx ny) ::
          if f.seen (tileIndex nx ny) = true then [] else [.stack f.stack.length]

def floodTurnAccesses (tiles : Tiles) (cur : Nat) : List Nat → Flood → List RegionAccess
  | [], _ => []
  | d :: ds, f =>
    floodPushAccesses tiles cur f d ++ floodTurnAccesses tiles cur ds (floodPush tiles cur f d)

/-- `floodLoop`, with its accesses. -/
def floodLoopAccesses (tiles : Tiles) : Nat → Flood → List RegionAccess
  | 0, _ => []
  | n + 1, f =>
    match f.stack with
    | [] => []
    | cur :: rest =>
      let f := { f with stack := rest, size := f.size + 1 }
      .stack rest.length :: floodTurnAccesses tiles cur fourSides f ++
        floodLoopAccesses tiles n (fourSides.foldl (floodPush tiles cur) f)

def floodFromAccesses (tiles : Tiles) (seen : Nat → Bool) (start : Nat) : List RegionAccess :=
  .stack 0 :: .seen start ::
    floodLoopAccesses tiles mapTiles ⟨[start], Function.update seen start true, 0⟩

def scanTileAccesses (tiles : Tiles) (s : Scan) (start : Nat) : List RegionAccess :=
  .tile start ::
    if tiles start = tWall then []
    else .seen start :: if s.seen start = true then [] else floodFromAccesses tiles s.seen start

def scanAccesses (tiles : Tiles) : List Nat → Scan → List RegionAccess
  | [], _ => []
  | i :: is, s => scanTileAccesses tiles s i ++ scanAccesses tiles is (scanTile tiles s i)

/-- The two floods; the last loop runs over the whole map. -/
def keepLargestRegionAccesses (tiles : Tiles) : List RegionAccess :=
  scanAccesses tiles interiorTiles ⟨fun _ => false, none, 0⟩ ++
    (largestRegion tiles).elim [] (floodFromAccesses tiles fun _ => false) ++
    (List.range mapTiles).flatMap fun i => [.tile i, .seen i]

/-- The floods that a scan makes. -/
def scanFloods (tiles : Tiles) : List Nat → Scan → List Flood
  | [], _ => []
  | i :: is, s =>
    (if tiles i = tWall ∨ s.seen i = true then [] else [floodFrom tiles s.seen i]) ++
      scanFloods tiles is (scanTile tiles s i)

/-- Every flood of a call, as its loop leaves it. -/
def floods (tiles : Tiles) : List Flood :=
  scanFloods tiles interiorTiles ⟨fun _ => false, none, 0⟩ ++
    (largestRegion tiles).elim [] fun start => [floodFrom tiles (fun _ => false) start]

theorem floodPushAccesses_safe (hstart : FloorTile tiles start) (hcur : FloorTile tiles cur)
    (hin : interior cur = true) (hd : d ∈ fourSides)
    (h : Flooding tiles start S done (cur :: f.stack) f.seen) :
    Safe RegionAccess.InRange (floodPushAccesses tiles cur f d) := by
  have hlt : neighbor cur d < mapTiles := (neighbor_of_interior hcur.1 hin hd).1
  have hlength := h.length_le hstart
  rw [List.length_cons] at hlength
  simp only [floodPushAccesses]
  refine Safe.ite (fun _ => Safe.nil) fun _ => Safe.cons hlt ?_
  refine Safe.ite (fun _ => Safe.nil) fun _ => Safe.cons hlt ?_
  refine Safe.ite (fun _ => Safe.nil) fun _ => Safe.cons ?_ Safe.nil
  exact lt_of_lt_of_le (by omega : f.stack.length < done.length + (f.stack.length + 1)) hlength

theorem floodTurnAccesses_safe (hborder : ∀ i < mapTiles, interior i = false → tiles i = tWall)
    (hstart : FloorTile tiles start) (hcur : FloorTile tiles cur) (hin : interior cur = true)
    (ds : List Nat) (hds : ∀ d ∈ ds, d ∈ fourSides)
    (h : Flooding tiles start S done (cur :: f.stack) f.seen) :
    Safe RegionAccess.InRange (floodTurnAccesses tiles cur ds f) := by
  induction ds generalizing f with
  | nil => exact Safe.nil
  | cons d ds ih =>
    have hd := hds d List.mem_cons_self
    have hpush := (h.push hborder hcur hin hd).1
    exact Safe.append (floodPushAccesses_safe hstart hcur hin hd h)
      (ih (fun e he => hds e (List.mem_cons_of_mem _ he)) hpush)

theorem floodLoopAccesses_safe (hborder : ∀ i < mapTiles, interior i = false → tiles i = tWall)
    (hstart : FloorTile tiles start) (n : Nat) (h : Flooding tiles start S done f.stack f.seen) :
    Safe RegionAccess.InRange (floodLoopAccesses tiles n f) := by
  induction n generalizing done f with
  | zero => exact Safe.nil
  | succ n ih =>
    rw [floodLoopAccesses]
    rcases hstack : f.stack with _ | ⟨cur, rest⟩
    · exact Safe.nil
    · rw [hstack] at h
      have hlength := h.length_le hstart
      rw [List.length_cons] at hlength
      have hcur : FloorTile tiles cur := region_floor hstart
        (h.flooded.reached cur (List.mem_append_right _ List.mem_cons_self))
      have hin := floor_interior hborder hcur
      have hnext := Flooding.next hborder
        (f := { f with stack := rest, size := f.size + 1 }) hstart h rfl
      refine Safe.append (Safe.cons ?_ ?_) (ih hnext)
      · exact lt_of_lt_of_le (by omega : rest.length < done.length + (rest.length + 1)) hlength
      · exact floodTurnAccesses_safe hborder hstart hcur hin fourSides (fun d hd => hd)
          (f := { f with stack := rest, size := f.size + 1 }) h

theorem floodFromAccesses_safe (hborder : ∀ i < mapTiles, interior i = false → tiles i = tWall)
    (hstart : FloorTile tiles start) (hseen : ∀ i, seen i = true ↔ i ∈ S) (hfresh : start ∉ S) :
    Safe RegionAccess.InRange (floodFromAccesses tiles seen start) := by
  have hinit : Flooding tiles start S [] [start] _ := Flooding.init hseen hfresh
  exact Safe.cons (by decide : 0 < mapTiles) (Safe.cons hstart.1
    (floodLoopAccesses_safe hborder hstart mapTiles
      (f := ⟨[start], Function.update seen start true, 0⟩) hinit))

theorem scan_safe (hborder : ∀ i < mapTiles, interior i = false → tiles i = tWall)
    (his : ∀ i ∈ is, i < mapTiles) (h : Scanning tiles done s) :
    Safe RegionAccess.InRange (scanAccesses tiles is s) ∧
      ∀ f ∈ scanFloods tiles is s, f.stack = [] := by
  induction is generalizing done s with
  | nil => exact ⟨Safe.nil, fun f hf => absurd hf List.not_mem_nil⟩
  | cons i is ih =>
    have hi := his i List.mem_cons_self
    obtain ⟨hsafe, hends⟩ :=
      ih (fun j hj => his j (List.mem_cons_of_mem _ hj)) (h.step hborder hi)
    constructor
    · refine Safe.append (Safe.cons hi ?_) hsafe
      refine Safe.ite (fun _ => Safe.nil) fun hwall => Safe.cons hi ?_
      refine Safe.ite (fun _ => Safe.nil) fun hunseen => ?_
      exact floodFromAccesses_safe hborder ⟨hi, hwall⟩ h.seen
        fun hmem => hunseen ((h.seen i).mpr hmem)
    · intro f hf
      rcases List.mem_append.mp hf with hf | hf
      · split at hf
        next => exact absurd hf List.not_mem_nil
        next hskip =>
            rw [List.mem_singleton.mp hf]
            exact (floodFrom_region hborder ⟨hi, fun hwall => hskip (Or.inl hwall)⟩ h.seen
              (fun hmem => hskip (Or.inr ((h.seen i).mpr hmem))) (scanned_closed done)).1
      · exact hends f hf

/-! ## The kept region -/

theorem interiorTiles_scanning
    (hborder : ∀ i < mapTiles, interior i = false → tiles i = tWall) :
    Scanning tiles interiorTiles
      (interiorTiles.foldl (scanTile tiles) ⟨fun _ => false, none, 0⟩) := by
  have hrun := (Scanning.none tiles).run hborder fun i hi => (mem_interiorTiles.mp hi).1
  rwa [List.nil_append] at hrun

theorem unseen (i : Nat) : (fun _ : Nat => false) i = true ↔ i ∈ (∅ : Set Nat) := by simp

theorem largestRegion_flood (hborder : ∀ i < mapTiles, interior i = false → tiles i = tWall)
    (hstart : FloorTile tiles start) :
    (floodFrom tiles (fun _ => false) start).stack = [] ∧
      ∀ i, (floodFrom tiles (fun _ => false) start).seen i = true ↔
        i ∈ region (FloorStep tiles) start := by
  obtain ⟨hempty, hseen, -⟩ := floodFrom_region hborder hstart unseen (Set.notMem_empty start)
    (fun a ha => absurd ha (Set.notMem_empty a))
  refine ⟨hempty, fun i => ?_⟩
  rw [hseen i]
  simp

/-- What is left is one component of the floor, of the largest size, as it was; or there was
no floor.  Both floods end, and their stack and their indices stay on the map. -/
theorem keepLargestRegion_component
    (hborder : ∀ i < mapTiles, interior i = false → tiles i = tWall) :
    ((∀ i < mapTiles, tiles i = tWall ∧ keepLargestRegion tiles i = tWall) ∨
      ∃ start, FloorTile tiles start ∧
        (∀ j, FloorTile tiles j →
          (region (FloorStep tiles) j).ncard ≤ (region (FloorStep tiles) start).ncard) ∧
        ∀ i < mapTiles, keepLargestRegion tiles i ≠ tWall ↔
          i ∈ region (FloorStep tiles) start) ∧
    (∀ i < mapTiles, keepLargestRegion tiles i ≠ tWall → keepLargestRegion tiles i = tiles i) ∧
    Safe RegionAccess.InRange (keepLargestRegionAccesses tiles) ∧
    ∀ f ∈ floods tiles, f.stack = [] := by
  have hscan := interiorTiles_scanning hborder
  have hsafe := scan_safe hborder (fun i hi => (mem_interiorTiles.mp hi).1)
    (Scanning.none tiles)
  have hinterior (j : Nat) (hj : FloorTile tiles j) : j ∈ interiorTiles :=
    mem_interiorTiles.mpr ⟨hj.1, floor_interior hborder hj⟩
  have hwhole : Safe RegionAccess.InRange
      ((List.range mapTiles).flatMap fun i => [.tile i, .seen i]) := by
    intro a ha
    obtain ⟨i, hi, ha⟩ := List.mem_flatMap.mp ha
    have hi : i < mapTiles := List.mem_range.mp hi
    have hboth : Safe RegionAccess.InRange [.tile i, .seen i] :=
      Safe.cons hi (Safe.cons hi Safe.nil)
    exact hboth a ha
  have hkind : ∀ i < mapTiles, keepLargestRegion tiles i ≠ tWall →
      keepLargestRegion tiles i = tiles i := by
    intro i _ hi
    rw [keepLargestRegion] at hi ⊢
    split at hi
    next => exact absurd rfl hi
    next hkeep => rw [if_neg hkeep]
  rcases hscan.best with ⟨hnone, -, hwalls⟩ | ⟨start, -, hsome, hfloor, hsize⟩
  case inl =>
      have hregion : largestRegion tiles = none := largestRegion_eq hnone
      have hwall : ∀ i < mapTiles, tiles i = tWall := by
        intro i hi
        by_contra hfloor
        exact hwalls i (hinterior i ⟨hi, hfloor⟩) ⟨hi, hfloor⟩
      refine ⟨Or.inl fun i hi => ⟨hwall i hi, keepLargestRegion_wall (hwall i hi)⟩, hkind, ?_, ?_⟩
      · rw [keepLargestRegionAccesses, hregion]
        exact Safe.append (Safe.append hsafe.1 Safe.nil) hwhole
      · rw [floods, hregion, Option.elim_none, List.append_nil]
        exact hsafe.2
  case inr =>
      have hregion : largestRegion tiles = some start := largestRegion_eq hsome
      obtain ⟨hempty, hseen⟩ := largestRegion_flood hborder hfloor
      refine ⟨Or.inr ⟨start, hfloor, ?_, ?_⟩, hkind, ?_, ?_⟩
      · intro j hj
        rw [← hsize]
        exact hscan.largest j (hinterior j hj) hj
      · intro i hi
        rw [← hseen i, keepLargestRegion, keptTiles, hregion, Option.any_some]
        constructor
        · intro hkeep
          by_contra hunseen
          by_cases hwall : tiles i = tWall
          · simp [hwall] at hkeep
          · exact hkeep (if_pos ⟨hi, hwall, Bool.eq_false_iff.mpr hunseen⟩)
        · intro hmark
          rw [if_neg (by simp [hmark])]
          exact (region_floor hfloor ((hseen i).mp hmark)).2
      · rw [keepLargestRegionAccesses, hregion, Option.elim_some]
        exact Safe.append (Safe.append hsafe.1 (floodFromAccesses_safe hborder hfloor
          unseen (Set.notMem_empty start))) hwhole
      · rw [floods, hregion, Option.elim_some]
        intro f hf
        rcases List.mem_append.mp hf with hf | hf
        · exact hsafe.2 f hf
        · rw [List.mem_singleton.mp hf]
          exact hempty

/-- A map with two rooms of one tile and of two tiles. -/
def twoRooms : Tiles := fun i => if i = 97 ∨ i = 291 ∨ i = 292 then tFloor else tWall

theorem keepLargestRegion_component_twoRooms :
    (∀ i < mapTiles, keepLargestRegion twoRooms i ≠ tWall →
      keepLargestRegion twoRooms i = twoRooms i) ∧
    Safe RegionAccess.InRange (keepLargestRegionAccesses twoRooms) := by
  have hborder : ∀ i < mapTiles, interior i = false → twoRooms i = tWall := by
    intro i _ hi
    rw [twoRooms]
    split
    next hroom =>
        rcases hroom with rfl | rfl | rfl
        all_goals exact absurd hi (by decide)
    next => rfl
  obtain ⟨-, hkind, hsafe, -⟩ := keepLargestRegion_component hborder
  exact ⟨hkind, hsafe⟩

end MechanicalResearcher.Game
