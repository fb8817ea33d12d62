import MechanicalResearcher.Lib.Orbits
import Mathlib.Data.Fintype.Prod
import Mathlib.Data.Fintype.Card
import Mathlib.Data.Fintype.BigOperators

/-!
# The X-ABC generator

`rng.c`, which the games of `netchan-v2/demo/game` and `netchan-ipx/demo` share.  The four
static bytes are the state.  `rng_range` draws until a draw is below its limit, so it may
not return: `none` is a loop that goes on for ever.
-/

namespace MechanicalResearcher.Game

open Lib.Orbits

structure Rng where
  x : UInt8
  a : UInt8
  b : UInt8
  c : UInt8
  deriving DecidableEq, Repr

/-- The static bytes of a process that has just started. -/
def Rng.zero : Rng := ⟨0, 0, 0, 0⟩

def rotate (b : UInt8) : UInt8 := (b >>> 1) ||| (b <<< 7)

/-- The state after `rng_next`; the byte it returns is the new `c`. -/
def rngNext (g : Rng) : Rng :=
  let x := g.x + 1
  let a := (g.a ^^^ g.c) ^^^ x
  let b := g.b + a
  ⟨x, a, b, (g.c + rotate b) ^^^ a⟩

def rngSeed (g : Rng) (s1 s2 s3 : UInt8) : Rng :=
  rngNext { g with a := g.a ^^^ s1, b := g.b ^^^ s2, c := g.c ^^^ s3 }

/-- The generator has `2^32` states, so a loop that has not ended by then never ends. -/
def stateCount : Nat := 2 ^ 32

/-- The largest multiple of `n` that fits a byte. -/
def byteLimit (n : Nat) : Nat := 256 - 256 % n

/-- Two draws, and the number they make. -/
def rngNextPair (g : Rng × Nat) : Rng × Nat :=
  let hi := rngNext g.1
  let lo := rngNext hi
  (lo, hi.c.toNat * 256 + lo.c.toNat)

def rngRange (g : Rng) (n : Nat) : Option (Rng × Nat) :=
  if n ≤ 1 then some (g, 0)
  else if n ≤ 256 then
    (search rngNext (fun g => g.c.toNat < byteLimit n) stateCount g).map
      fun g => (g, g.c.toNat % n)
  else
    (search rngNextPair (fun g => g.2 < 65536 - 65536 % n) stateCount (g, 0)).map
      fun g => (g.1, g.2 % n)

/-- The state before `rng_next`. -/
def rngPrev (g : Rng) : Rng :=
  let c := (g.c ^^^ g.a) - rotate g.b
  ⟨g.x - 1, (g.a ^^^ g.x) ^^^ c, g.b - g.a, c⟩

theorem xor_cancel (a b : UInt8) : a ^^^ b ^^^ b = a := by
  rw [UInt8.xor_assoc, UInt8.xor_self, UInt8.xor_zero]

theorem rngPrev_rngNext (g : Rng) : rngPrev (rngNext g) = g := by
  obtain ⟨x, a, b, c⟩ := g
  simp only [rngPrev, rngNext, xor_cancel, UInt8.add_sub_cancel]

theorem rngNext_rngPrev (g : Rng) : rngNext (rngPrev g) = g := by
  obtain ⟨x, a, b, c⟩ := g
  simp only [rngPrev, rngNext, xor_cancel, UInt8.sub_add_cancel]

theorem rngNext_injective : Function.Injective rngNext :=
  Function.LeftInverse.injective rngPrev_rngNext

/-- A state as four numbers below 256. -/
def Rng.code : Rng ≃ Fin 256 × Fin 256 × Fin 256 × Fin 256 where
  toFun g := (g.x.toFin, g.a.toFin, g.b.toFin, g.c.toFin)
  invFun p := ⟨⟨⟨p.1⟩⟩, ⟨⟨p.2.1⟩⟩, ⟨⟨p.2.2.1⟩⟩, ⟨⟨p.2.2.2⟩⟩⟩
  left_inv _ := rfl
  right_inv _ := rfl

instance : Fintype Rng := Fintype.ofEquiv _ Rng.code.symm

theorem card_rng : Fintype.card Rng = stateCount := by
  rw [Fintype.card_congr Rng.code]
  simp only [Fintype.card_prod, Fintype.card_fin, stateCount]
  rfl

/-- Some later draw is below `lim`. -/
abbrev Draws (lim : Nat) (g : Rng) : Prop := Meets rngNext (fun g => g.c.toNat < lim) g

theorem Draws.mono {lim lim' : Nat} (hle : lim ≤ lim') {g : Rng} (h : Draws lim g) :
    Draws lim' g := by
  obtain ⟨k, hk⟩ := h
  exact ⟨k, lt_of_lt_of_le hk hle⟩

theorem rngRange_returns {n : Nat} (hn : 1 < n) (hn' : n ≤ 256) {g : Rng}
    (h : Draws (byteLimit n) g) :
    ∃ k, rngRange g n = some (rngNext^[k + 1] g, (rngNext^[k + 1] g).c.toNat % n) := by
  obtain ⟨k, hk, -⟩ := h.search rngNext_injective
  refine ⟨k, ?_⟩
  rw [rngRange, if_neg (by omega), if_pos hn', ← card_rng, hk]
  rfl

/-- What a process did with the generator before. -/
inductive RngCall
  | seed (s1 s2 s3 : UInt8)
  | next
  | range (n : Nat)

def Rng.call (g : Rng) : RngCall → Option Rng
  | .seed s1 s2 s3 => some (rngSeed g s1 s2 s3)
  | .next => some (rngNext g)
  | .range n => (rngRange g n).map (·.1)

/-- The state that a history of calls leaves, where they all return. -/
def rngHistory (calls : List RngCall) : Option Rng := calls.foldlM Rng.call Rng.zero

theorem foldlM_next (n : Nat) (g : Rng) :
    (List.replicate n RngCall.next).foldlM Rng.call g = some (rngNext^[n] g) := by
  induction n generalizing g with
  | zero => rfl
  | succ n ih =>
    rw [List.replicate_succ, List.foldlM_cons]
    exact ih (rngNext g)

theorem iterate_rngNext_x (n : Nat) (g : Rng) : (rngNext^[n] g).x = g.x + UInt8.ofNat n := by
  induction n generalizing g with
  | zero => simp
  | succ n ih =>
    rw [Function.iterate_succ_apply, ih]
    show g.x + 1 + UInt8.ofNat n = g.x + UInt8.ofNat (n + 1)
    rw [UInt8.ofNat_add, UInt8.add_assoc, UInt8.add_comm 1]
    rfl

theorem exists_rngSeed (g g' : Rng) (hx : g'.x = g.x + 1) :
    ∃ s1 s2 s3, rngSeed g s1 s2 s3 = g' := by
  have hprev : (rngPrev g').x = g.x := by
    show g'.x - 1 = g.x
    rw [hx, UInt8.add_sub_cancel]
  refine ⟨g.a ^^^ (rngPrev g').a, g.b ^^^ (rngPrev g').b, g.c ^^^ (rngPrev g').c, ?_⟩
  rw [rngSeed]
  simp only [← UInt8.xor_assoc, UInt8.xor_self, UInt8.zero_xor]
  rw [← hprev]
  exact rngNext_rngPrev g'

theorem exists_rngHistory (g : Rng) : ∃ calls, rngHistory calls = some g := by
  let n := (g.x - 1).toNat
  have hx : g.x = (rngNext^[n] Rng.zero).x + 1 := by
    rw [iterate_rngNext_x, UInt8.ofNat_toNat]
    show g.x = 0 + (g.x - 1) + 1
    rw [UInt8.zero_add, UInt8.sub_add_cancel]
  obtain ⟨s1, s2, s3, hseed⟩ := exists_rngSeed (rngNext^[n] Rng.zero) g hx
  refine ⟨List.replicate n .next ++ [.seed s1 s2 s3], ?_⟩
  rw [rngHistory, List.foldlM_append, foldlM_next]
  show some (rngSeed (rngNext^[n] Rng.zero) s1 s2 s3) = some g
  rw [hseed]

theorem rngSeed_surjective (s1 s2 s3 : UInt8) (g' : Rng) : ∃ g, rngSeed g s1 s2 s3 = g' := by
  refine ⟨{ rngPrev g' with
    a := (rngPrev g').a ^^^ s1, b := (rngPrev g').b ^^^ s2, c := (rngPrev g').c ^^^ s3 }, ?_⟩
  simp only [rngSeed, xor_cancel]
  exact rngNext_rngPrev g'

end MechanicalResearcher.Game
