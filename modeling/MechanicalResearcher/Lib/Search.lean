import Mathlib.Data.List.Infix

/-!
# The first occurrence of a pattern

`search pat s` is the rest of `s` from the first place where `pat` stands.
-/

namespace MechanicalResearcher.Lib

variable {α : Type}

def search [DecidableEq α] (pat : List α) : List α → Option (List α)
  | [] => if pat = [] then some [] else none
  | x :: s => if pat <+: x :: s then some (x :: s) else search pat s

/-- `pat` stands behind `before` in `s`, and nowhere earlier. -/
structure FirstAt (pat s before after : List α) : Prop where
  split : s = before ++ (pat ++ after)
  first : ∀ u v, s = u ++ (pat ++ v) → before.length ≤ u.length

variable {pat s t before after : List α}

theorem FirstAt.unique {before' after' : List α} (h : FirstAt pat s before after)
    (h' : FirstAt pat s before' after') : before = before' ∧ after = after' := by
  have hlen : before.length = before'.length :=
    Nat.le_antisymm (h.first before' after' h'.split) (h'.first before after h.split)
  obtain ⟨hbefore, hrest⟩ := List.append_inj (h.split.symm.trans h'.split) hlen
  exact ⟨hbefore, List.append_cancel_left hrest⟩

section

variable [DecidableEq α]

theorem search_eq_some (h : search pat s = some t) :
    ∃ before after, t = pat ++ after ∧ FirstAt pat s before after := by
  induction s with
  | nil =>
    rw [search] at h
    split at h
    · rename_i hpat
      obtain rfl := Option.some.inj h
      exact ⟨[], [], by rw [hpat]; rfl, by rw [hpat]; rfl, fun u v _ => Nat.zero_le _⟩
    · cases h
  | cons x s ih =>
    rw [search] at h
    split at h
    · rename_i hpat
      obtain rfl := Option.some.inj h
      obtain ⟨after, hafter⟩ := hpat
      exact ⟨[], after, hafter.symm, hafter.symm, fun u v _ => Nat.zero_le _⟩
    · rename_i hpat
      obtain ⟨before, after, ht, hfirst⟩ := ih h
      refine ⟨x :: before, after, ht, by rw [hfirst.split]; rfl, fun u v huv => ?_⟩
      cases u with
      | nil => exact absurd ⟨v, huv.symm⟩ hpat
      | cons y u => exact Nat.succ_le_succ (hfirst.first u v (List.cons.inj huv).2)

theorem search_eq_none (h : search pat s = none) (u v : List α) : s ≠ u ++ (pat ++ v) := by
  rintro rfl
  induction u with
  | nil =>
    rw [List.nil_append] at h
    cases hs : pat ++ v with
    | nil =>
      rw [hs, search, if_pos (List.append_eq_nil_iff.mp hs).1] at h
      cases h
    | cons x s =>
      rw [hs, search, if_pos ⟨v, hs⟩] at h
      cases h
  | cons x u ih =>
    rw [List.cons_append, search] at h
    split at h
    · cases h
    · exact ih h

theorem search_firstAt (h : FirstAt pat s before after) : search pat s = some (pat ++ after) := by
  cases hsearch : search pat s with
  | none => exact absurd h.split (search_eq_none hsearch before after)
  | some t =>
    obtain ⟨before', after', rfl, h'⟩ := search_eq_some hsearch
    rw [(h.unique h').2]

end

end MechanicalResearcher.Lib
