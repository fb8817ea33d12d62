import Mathlib.Data.List.Basic
import Mathlib.Data.Nat.ModEq
import Mathlib.Logic.Function.Basic

/-!
# Circular buffers

A buffer of `cap` cells with a head and a tail index.  One cell is kept free, so
the buffer is empty exactly when the two indices agree.  `contents` is the queue
it stands for.  A buffer with a head and a count uses every cell; its queue is `queued`.
-/

namespace MechanicalResearcher.Lib.Ring

variable {α : Type} {cap h t : Nat}

/-- The number of queued cells. -/
def len (cap h t : Nat) : Nat := (t + cap - h) % cap

/-- The cells from the head to the tail. -/
def contents (cap : Nat) (f : Nat → α) (h t : Nat) : List α :=
  (List.range (len cap h t)).map fun i => f ((h + i) % cap)

theorem mod_eq_of_lt_two {a : Nat} (ha : a < 2 * cap) :
    a % cap = if a < cap then a else a - cap := by
  split_ifs with hlt
  · exact Nat.mod_eq_of_lt hlt
  · rw [Nat.mod_eq_sub_mod (Nat.not_lt.1 hlt), Nat.mod_eq_of_lt (by omega)]

theorem len_eq (hh : h < cap) (ht : t < cap) :
    len cap h t = if h ≤ t then t - h else t + cap - h := by
  unfold len
  rw [mod_eq_of_lt_two (by omega)]
  split_ifs <;> omega

theorem len_lt (hh : h < cap) (ht : t < cap) : len cap h t < cap := by
  rw [len_eq hh ht]
  split_ifs <;> omega

theorem len_self (hh : h < cap) : len cap h h = 0 := by
  rw [len_eq hh hh]
  simp

theorem next_lt (ht : t < cap) : (t + 1) % cap < cap := Nat.mod_lt _ (by omega)

theorem len_push (hh : h < cap) (ht : t < cap) (hroom : (t + 1) % cap ≠ h) :
    len cap h ((t + 1) % cap) = len cap h t + 1 := by
  rw [len_eq hh (next_lt ht), len_eq hh ht]
  rw [mod_eq_of_lt_two (by omega)] at hroom ⊢
  split_ifs at hroom ⊢ <;> omega

theorem len_pop (hh : h < cap) (ht : t < cap) (hne : h ≠ t) :
    len cap ((h + 1) % cap) t + 1 = len cap h t := by
  rw [len_eq (next_lt hh) ht, len_eq hh ht, mod_eq_of_lt_two (by omega)]
  split_ifs <;> omega

theorem add_len (hh : h < cap) (ht : t < cap) : (h + len cap h t) % cap = t := by
  rw [mod_eq_of_lt_two (by have := len_lt hh ht; omega), len_eq hh ht]
  split_ifs <;> omega

theorem cell_ne_tail (hh : h < cap) (ht : t < cap) {i : Nat} (hi : i < len cap h t) :
    (h + i) % cap ≠ t := by
  have hlen := len_lt hh ht
  rw [len_eq hh ht] at hi hlen
  rw [mod_eq_of_lt_two (by omega)]
  split_ifs at hi hlen ⊢ <;> omega

theorem cell_next (cap h i : Nat) : ((h + 1) % cap + i) % cap = (h + (i + 1)) % cap := by
  rw [Nat.mod_add_mod, Nat.add_assoc, Nat.add_comm 1 i]

theorem cell_ne_head (hh : h < cap) (ht : t < cap) {i : Nat} (hi : 0 < i)
    (hlt : i < len cap h t) : (h + i) % cap ≠ h := by
  have hlen := len_lt hh ht
  rw [mod_eq_of_lt_two (by omega)]
  split_ifs <;> omega

@[simp] theorem length_contents (f : Nat → α) : (contents cap f h t).length = len cap h t := by
  simp [contents]

theorem contents_congr {f g : Nat → α} (hfg : ∀ i < len cap h t, f ((h + i) % cap) =
    g ((h + i) % cap)) : contents cap f h t = contents cap g h t := by
  apply List.map_congr_left
  intro i hi
  exact hfg i (List.mem_range.1 hi)

theorem contents_push {f g : Nat → α} (hh : h < cap) (ht : t < cap)
    (hroom : (t + 1) % cap ≠ h)
    (hsame : ∀ i < len cap h t, g ((h + i) % cap) = f ((h + i) % cap)) :
    contents cap g h ((t + 1) % cap) = contents cap f h t ++ [g t] := by
  have hold := contents_congr hsame
  unfold contents at hold ⊢
  rw [len_push hh ht hroom, List.range_succ, List.map_append, hold, List.map_singleton,
    add_len hh ht]

theorem contents_cons (f : Nat → α) (hh : h < cap) (ht : t < cap) (hne : h ≠ t) :
    contents cap f h t = f h :: contents cap f ((h + 1) % cap) t := by
  unfold contents
  rw [← len_pop hh ht hne, List.range_succ_eq_map, List.map_cons, List.map_map,
    Nat.add_zero, Nat.mod_eq_of_lt hh]
  congr 1
  apply List.map_congr_left
  intro i _
  simp only [Function.comp_apply, cell_next]

/-- The `n` cells from the head on. -/
def queued (cap : Nat) (f : Nat → α) (h n : Nat) : List α :=
  (List.range n).map fun i => f ((h + i) % cap)

@[simp] theorem queued_zero (f : Nat → α) : queued cap f h 0 = [] := rfl

theorem cell_inj {i n : Nat} (hi : i < n) (hn : n < cap) : (h + i) % cap ≠ (h + n) % cap := by
  intro heq
  have hmod : i ≡ n [MOD cap] := Nat.ModEq.add_left_cancel' h heq
  rw [Nat.ModEq, Nat.mod_eq_of_lt (hi.trans hn), Nat.mod_eq_of_lt hn] at hmod
  omega

theorem queued_push (f : Nat → α) (x : α) {n : Nat} (hn : n < cap) :
    queued cap (Function.update f ((h + n) % cap) x) h (n + 1) = queued cap f h n ++ [x] := by
  unfold queued
  rw [List.range_succ, List.map_append, List.map_singleton, Function.update_self]
  congr 1
  apply List.map_congr_left
  intro i hi
  rw [Function.update_of_ne (cell_inj (List.mem_range.1 hi) hn)]

theorem queued_pop (f : Nat → α) (hh : h < cap) (n : Nat) :
    queued cap f h (n + 1) = f h :: queued cap f ((h + 1) % cap) n := by
  unfold queued
  rw [List.range_succ_eq_map, List.map_cons, List.map_map, Nat.add_zero, Nat.mod_eq_of_lt hh]
  congr 1
  apply List.map_congr_left
  intro i _
  simp only [Function.comp_apply, cell_next]

end MechanicalResearcher.Lib.Ring
