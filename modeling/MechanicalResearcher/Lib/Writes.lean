import Mathlib.Data.List.Basic
import Mathlib.Data.List.Range

/-!
# Runs of writes

A memory that is written cell by cell.  Cells that keep what is written to them, and that other
cells of the run do not touch, hold the same values whatever the order of the writes.
-/

namespace MechanicalResearcher.Lib.Writes

variable {μ α β V : Type}

/-- The writes of a list, the first one first. -/
def writes (write : μ → α → V → μ) (m : μ) (ws : List (α × V)) : μ :=
  ws.foldl (fun m w => write m w.1 w.2) m

section

variable {write : μ → α → V → μ} {read : μ → α → V}

@[simp] theorem writes_cons (m : μ) (w : α × V) (ws : List (α × V)) :
    writes write m (w :: ws) = writes write (write m w.1 w.2) ws := rfl

theorem writes_append (m : μ) (ws ws' : List (α × V)) :
    writes write m (ws ++ ws') = writes write (writes write m ws) ws' :=
  List.foldl_append ..

theorem obs_writes {obs : μ → β} {ws : List (α × V)} (m : μ)
    (h : ∀ w ∈ ws, ∀ m, obs (write m w.1 w.2) = obs m) : obs (writes write m ws) = obs m := by
  induction ws generalizing m with
  | nil => rfl
  | cons w ws ih =>
    rw [writes_cons, ih _ fun w' hw' => h w' (List.mem_cons_of_mem w hw')]
    exact h w List.mem_cons_self m

/-- Addresses that keep what is written to them while the others are written. -/
structure Cells (write : μ → α → V → μ) (read : μ → α → V) (as : List α) : Prop where
  same : ∀ a ∈ as, ∀ m v, read (write m a v) a = v
  apart : as.Pairwise fun a a' => ∀ m v,
    read (write m a v) a' = read m a' ∧ read (write m a' v) a = read m a

theorem Cells.reverse {as : List α} (h : Cells write read as) : Cells write read as.reverse where
  same a ha := h.same a (List.mem_reverse.mp ha)
  apart := by
    rw [List.pairwise_reverse]
    exact h.apart.imp fun hpair m v => (hpair m v).symm

theorem Cells.tail {a : α} {as : List α} (h : Cells write read (a :: as)) :
    Cells write read as where
  same a' ha' := h.same a' (List.mem_cons_of_mem a ha')
  apart := (List.pairwise_cons.mp h.apart).2

theorem read_writes {ws : List (α × V)} {a : α} {v : V}
    (h : Cells write read (ws.map Prod.fst)) (hw : (a, v) ∈ ws) (m : μ) :
    read (writes write m ws) a = v := by
  induction ws generalizing m with
  | nil => cases hw
  | cons w ws ih =>
    rw [List.map_cons] at h
    rw [writes_cons]
    rcases List.mem_cons.mp hw with rfl | hw
    · have hlater : read (writes write (write m a v) ws) a = read (write m a v) a := by
        refine @obs_writes μ α V V write (fun m => read m a) ws _ ?_
        intro w' hw' m'
        have hpair := (List.pairwise_cons.mp h.apart).1 w'.1 (List.mem_map_of_mem hw')
        exact (hpair m' w'.2).2
      rw [hlater]
      exact h.same a List.mem_cons_self m v
    · exact ih h.tail hw _

end

/-- Values at the slots of an address function, from slot 0. -/
def slots (addr : Nat → α) : List V → List (α × V)
  | [] => []
  | v :: vs => (addr 0, v) :: slots (fun k => addr (k + 1)) vs

@[simp] theorem length_slots (addr : Nat → α) (vs : List V) :
    (slots addr vs).length = vs.length := by
  induction vs generalizing addr with
  | nil => rfl
  | cons v vs ih => rw [slots, List.length_cons, ih, List.length_cons]

theorem getElem_slots (addr : Nat → α) (vs : List V) {k : Nat} (hk : k < vs.length) :
    (slots addr vs).get ⟨k, by rwa [length_slots]⟩ = (addr k, vs[k]) := by
  induction vs generalizing addr k with
  | nil => exact absurd hk (Nat.not_lt_zero k)
  | cons v vs ih =>
    cases k with
    | zero => rfl
    | succ k => exact ih (fun k => addr (k + 1)) (Nat.lt_of_succ_lt_succ hk)

theorem mem_slots (addr : Nat → α) (vs : List V) {w : α × V} :
    w ∈ slots addr vs ↔ ∃ k, ∃ hk : k < vs.length, w = (addr k, vs[k]) := by
  rw [List.mem_iff_getElem]
  constructor
  · rintro ⟨k, hk, rfl⟩
    rw [length_slots] at hk
    exact ⟨k, hk, getElem_slots addr vs hk⟩
  · rintro ⟨k, hk, rfl⟩
    exact ⟨k, by rwa [length_slots], getElem_slots addr vs hk⟩

theorem map_fst_slots (addr : Nat → α) (vs : List V) :
    (slots addr vs).map Prod.fst = (List.range vs.length).map addr := by
  apply List.ext_getElem
  · simp
  · intro k hk hk'
    have hlt : k < vs.length := by simpa using hk
    rw [List.getElem_map, List.getElem_map, List.getElem_range]
    exact congrArg Prod.fst (getElem_slots addr vs hlt)

theorem cells_slots {write : μ → α → V → μ} {read : μ → α → V} {addr : Nat → α} {n : Nat}
    (hsame : ∀ k < n, ∀ m v, read (write m (addr k) v) (addr k) = v)
    (hother : ∀ j < n, ∀ k < n, j ≠ k → ∀ m v,
      read (write m (addr j) v) (addr k) = read m (addr k)) (vs : List V) (hn : vs.length = n) :
    Cells write read ((slots addr vs).map Prod.fst) where
  same a ha m v := by
    rw [map_fst_slots, hn] at ha
    obtain ⟨k, hk, rfl⟩ := List.mem_map.mp ha
    exact hsame k (List.mem_range.mp hk) m v
  apart := by
    rw [map_fst_slots, hn, List.pairwise_map]
    refine List.pairwise_lt_range.imp_of_mem ?_
    intro j k hj hk hlt m v
    rw [List.mem_range] at hj hk
    exact ⟨hother j hj k hk hlt.ne m v, hother k hk j hj hlt.ne' m v⟩

end MechanicalResearcher.Lib.Writes
