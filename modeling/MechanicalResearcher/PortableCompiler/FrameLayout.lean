import Mathlib.Algebra.Order.Group.Nat
import Mathlib.Data.Int.ConditionallyCompleteOrder
import Mathlib.Order.CompletePartialOrder
import Mathlib.Order.ConditionallyCompleteLattice.Basic
import Mathlib.Order.Interval.Set.Disjoint
import MechanicalResearcher.PortableCompiler.EmitData

/-!
# The layout of a frame

The offsets of `slot_offset` and `spill_byte_offset` in `backend/cf_emit.c`, from `%fp`, once
`regalloc` has given out the spill slots.  Sizes are natural numbers, as the `int` of the
source holds them in a frame of less than `2 ^ 31` bytes.
-/

namespace MechanicalResearcher.PortableCompiler

/-- What the code of a function accesses in its frame. -/
inductive Part (fn : Func) where
  | param (i : Nat) (h : i < fn.nparams)
  | slot (k : Nat) (hlo : fn.nparams ≤ k) (hhi : k < fn.slotSize.length)
  | spill (t o : Nat) (h : fn.tempSpill t = some o)

namespace Part

variable {fn : Func}

def offset : Part fn → Int
  | param i _ => slotOffset fn i
  | slot k _ _ => slotOffset fn k
  | spill t _ _ => spillByteOffset fn t

def size : Part fn → Nat
  | param _ _ => 4
  | slot k _ _ => roundUp (fn.slotSize.getD k 0)
  | spill _ _ _ => 4

def bytes (p : Part fn) : Set Int := Set.Ico p.offset (p.offset + p.size)

/-- A local or a spill slot. -/
def IsLocal : Part fn → Prop
  | param _ _ => False
  | slot _ _ _ => True
  | spill _ _ _ => True

end Part

section Locals

variable {fn : Func}

/-- The size of the locals before slot `k`. -/
def localsBefore (fn : Func) (k : Nat) : Nat :=
  (((fn.slotSize.take k).drop fn.nparams).map roundUp).sum

theorem slotOffset_local {k : Nat} (hlo : fn.nparams ≤ k) :
    slotOffset fn k = -(localsBefore fn (k + 1) : Int) := by
  rw [slotOffset, if_neg (Nat.not_lt.mpr hlo), localsBefore]

theorem localsBefore_succ {k : Nat} (hlo : fn.nparams ≤ k) (hhi : k < fn.slotSize.length) :
    localsBefore fn (k + 1) = localsBefore fn k + roundUp (fn.slotSize.getD k 0) := by
  have hlen : fn.nparams ≤ (fn.slotSize.take k).length := by
    rw [List.length_take]
    omega
  rw [localsBefore, localsBefore, List.take_succ_eq_append_getElem hhi,
    List.drop_append_of_le_length hlen, List.map_append, List.sum_append, List.map_singleton,
    List.sum_singleton, List.getD_eq_getElem _ _ hhi]

theorem localsBefore_mono {k k' : Nat} (h : k ≤ k') : localsBefore fn k ≤ localsBefore fn k' := by
  have htake : (fn.slotSize.take k).Sublist (fn.slotSize.take k') := by
    rw [← Nat.min_eq_left h, ← List.take_take]
    exact List.take_sublist ..
  exact ((htake.drop fn.nparams).map roundUp).sum_le_sum fun _ _ => Nat.zero_le _

theorem localsBefore_length : localsBefore fn fn.slotSize.length = localsSize fn := by
  rw [localsBefore, List.take_length, localsSize]

end Locals

section Layout

variable {fn : Func}

theorem slot_bounds {k : Nat} (hlo : fn.nparams ≤ k) (hhi : k < fn.slotSize.length) :
    slotOffset fn k + roundUp (fn.slotSize.getD k 0) = -(localsBefore fn k : Int) ∧
      -(localsSize fn : Int) ≤ slotOffset fn k := by
  have hsucc := localsBefore_succ hlo hhi
  have htop : localsBefore fn (k + 1) ≤ localsBefore fn fn.slotSize.length := localsBefore_mono hhi
  rw [localsBefore_length] at htop
  rw [slotOffset_local hlo]
  omega

theorem slots_apart {k k' : Nat} (hlo : fn.nparams ≤ k) (hlt : k < k')
    (hhi : k' < fn.slotSize.length) :
    slotOffset fn k' + roundUp (fn.slotSize.getD k' 0) ≤ slotOffset fn k := by
  have hmono : localsBefore fn (k + 1) ≤ localsBefore fn k' := localsBefore_mono hlt
  have hbounds := (slot_bounds (Nat.le_trans hlo hlt.le) hhi).1
  rw [slotOffset_local hlo]
  omega

theorem Part.param_bounds {p : Part fn} (h : ¬p.IsLocal) : 8 ≤ p.offset := by
  cases p with
  | param i hi =>
    change 8 ≤ slotOffset fn i
    rw [slotOffset, if_pos hi]
    omega
  | slot k hlo hhi => exact absurd trivial h
  | spill t o ho => exact absurd trivial h

end Layout

section Regalloc

variable {q : Qsort} {fn : Func}

theorem spill_bounds {t o : Nat} (h : (regalloc q fn).tempSpill t = some o) :
    ∃ j < (regalloc q fn).nspills, o = j * 4 ∧ spillByteOffset (regalloc q fn) t + 4 =
      -(localsSize (regalloc q fn) : Int) - j * 4 := by
  obtain ⟨j, hj, hslot⟩ := regalloc_slot q fn h
  refine ⟨j, hj, hslot, ?_⟩
  rw [spillByteOffset_eq h]
  omega

theorem Part.local_bounds {p : Part (regalloc q fn)} (h : p.IsLocal) :
    -(frameSize (regalloc q fn) : Int) ≤ p.offset ∧ p.offset + p.size ≤ 0 := by
  cases p with
  | param i hi => exact absurd h id
  | slot k hlo hhi =>
    obtain ⟨htop, hbottom⟩ := slot_bounds hlo hhi
    change _ ≤ slotOffset (regalloc q fn) k ∧
      slotOffset (regalloc q fn) k + roundUp ((regalloc q fn).slotSize.getD k 0) ≤ 0
    rw [frameSize]
    omega
  | spill t o ho =>
    obtain ⟨j, hj, -, htop⟩ := spill_bounds ho
    change _ ≤ spillByteOffset (regalloc q fn) t ∧ spillByteOffset (regalloc q fn) t + 4 ≤ 0
    rw [frameSize]
    omega

theorem Part.apart {p p' : Part (regalloc q fn)} (hne : p ≠ p') :
    p.offset + p.size ≤ p'.offset ∨ p'.offset + p'.size ≤ p.offset := by
  by_cases hlocal : p.IsLocal ↔ p'.IsLocal
  · cases p with
    | param i hi =>
      cases p' with
      | param i' hi' =>
        have hi0 : i ≠ i' := fun h => hne (by subst h; rfl)
        change slotOffset _ i + 4 ≤ slotOffset _ i' ∨ slotOffset _ i' + 4 ≤ slotOffset _ i
        rw [slotOffset, slotOffset, if_pos hi, if_pos hi']
        omega
      | slot k hlo hhi => exact absurd (hlocal.mpr trivial) id
      | spill t o ho => exact absurd (hlocal.mpr trivial) id
    | slot k hlo hhi =>
      cases p' with
      | param i hi => exact absurd (hlocal.mp trivial) id
      | slot k' hlo' hhi' =>
        rcases Nat.lt_trichotomy k k' with hlt | heq | hlt
        · exact .inr (slots_apart hlo hlt hhi')
        · exact absurd (by subst heq; rfl) hne
        · exact .inl (slots_apart hlo' hlt hhi)
      | spill t o ho =>
        obtain ⟨j, -, -, htop⟩ := spill_bounds ho
        have hbottom := (slot_bounds hlo hhi).2
        exact .inr (show spillByteOffset (regalloc q fn) t + 4 ≤ slotOffset _ k by omega)
    | spill t o ho =>
      obtain ⟨j, -, hj, htop⟩ := spill_bounds ho
      cases p' with
      | param i hi => exact absurd (hlocal.mp trivial) id
      | slot k hlo hhi =>
        have hbottom := (slot_bounds hlo hhi).2
        exact .inl (show spillByteOffset (regalloc q fn) t + 4 ≤ slotOffset _ k by omega)
      | spill t' o' ho' =>
        obtain ⟨j', -, hj', htop'⟩ := spill_bounds ho'
        have hjj : j ≠ j' := by
          rintro rfl
          obtain rfl : o = o' := hj.trans hj'.symm
          obtain rfl : t = t' := regalloc_oneSlot q fn ho ho'
          exact hne rfl
        change spillByteOffset _ t + 4 ≤ spillByteOffset _ t' ∨
          spillByteOffset _ t' + 4 ≤ spillByteOffset _ t
        omega
  · by_cases hp : p.IsLocal
    · have hp' : ¬p'.IsLocal := fun h => hlocal (iff_of_true hp h)
      have hbelow := (Part.local_bounds hp).2
      have habove := Part.param_bounds hp'
      exact .inl (by omega)
    · have hp' : p'.IsLocal := by
        by_contra h
        exact hlocal (iff_of_false hp h)
      have hbelow := (Part.local_bounds hp').2
      have habove := Part.param_bounds hp
      exact .inr (by omega)

end Regalloc

end MechanicalResearcher.PortableCompiler
