import Mathlib.Data.List.Basic
import MechanicalResearcher.Lib.Evaluation

/-!
# Scanning a text that ends with a NUL

A scanner has a pointer into the text and a line number.  It may read at the pointer and behind
it, but no further than the NUL, and move the pointer no further than the NUL.

`Safe m s Q` says that `m` from `s` ends with a message, or with a result and a cursor of which
`Q` holds; a loop has one more step than the text has characters left.
-/

namespace MechanicalResearcher.Lib.Scanner

open Evaluation

/-- What ends a scan without a result. -/
inductive Stop
  /-- a message for a line -/
  | die (line : Nat) (msg : String)
  /-- a read, or a pointer, behind the NUL -/
  | outside
  /-- a loop with more steps than its bound -/
  | spin
  deriving DecidableEq, Repr

/-- The characters from the pointer to the NUL, and the line. -/
structure Cursor where
  rest : List UInt8
  line : Nat
  deriving DecidableEq, Repr

abbrev ScanM (α : Type) := StateT Cursor (Except Stop) α

/-- `p[i]` -/
def peek (i : Nat) : ScanM UInt8 := fun s =>
  match s.rest[i]? with
  | some c => .ok (c, s)
  | none => if i = s.rest.length then .ok (0, s) else .error .outside

/-- `p += n` -/
def skip (n : Nat) : ScanM Unit := fun s =>
  if n ≤ s.rest.length then .ok ((), { s with rest := s.rest.drop n }) else .error .outside

/-- `line++` -/
def newline : ScanM Unit := fun s => .ok ((), { s with line := s.line + 1 })

def die {α : Type} (msg : String) : ScanM α := fun s => .error (.die s.line msg)

section Loops

variable {α : Type} (body : α → ScanM (Option α))

def loopM : Nat → α → ScanM α
  | 0, _ => fun _ => .error .spin
  | fuel + 1, a => do
    match ← body a with
    | some a' => loopM fuel a'
    | none => return a

/-- Repeats the body until it gives no new value. -/
def loop (a : α) : ScanM α := fun s => loopM body (s.rest.length + 1) a s

end Loops

/-- `while` a condition on the character at the pointer holds, `p++`; what is computed on the
way is `a`, and `f` gives no value where the loop ends. -/
def scanWhile {α : Type} (f : α → UInt8 → Option α) : α → ScanM α :=
  loop fun a => do
    match f a (← peek 0) with
    | some a' => do
      skip 1
      return some a'
    | none => return none

variable {α β : Type} {m : ScanM α} {s : Cursor} {Q : α → Cursor → Prop} {c d : UInt8}
  {r : List UInt8} {l : Nat}

@[simp] theorem newline_apply : newline s = .ok ((), { s with line := s.line + 1 }) := rfl

@[simp] theorem peek_zero_cons : peek 0 ⟨c :: r, l⟩ = .ok (c, ⟨c :: r, l⟩) := rfl

@[simp] theorem peek_zero_nil : peek 0 ⟨[], l⟩ = .ok (0, ⟨[], l⟩) := rfl

@[simp] theorem peek_one_cons : peek 1 ⟨c :: d :: r, l⟩ = .ok (d, ⟨c :: d :: r, l⟩) := rfl

@[simp] theorem skip_one_cons : skip 1 ⟨c :: r, l⟩ = .ok ((), ⟨r, l⟩) :=
  if_pos (Nat.le_add_left 1 r.length)

@[simp] theorem skip_two_cons : skip 2 ⟨c :: d :: r, l⟩ = .ok ((), ⟨r, l⟩) :=
  if_pos (Nat.le_add_left 2 r.length)

/-- The scan stays inside the text, and what it gives meets `Q`. -/
def Safe (m : ScanM α) (s : Cursor) (Q : α → Cursor → Prop) : Prop :=
  match m s with
  | .ok (a, s') => Q a s'
  | .error (.die _ _) => True
  | .error _ => False

namespace Safe

theorem pure {a : α} (h : Q a s) : Safe (Pure.pure a) s Q := h

theorem die (msg : String) : Safe (Scanner.die msg : ScanM α) s Q := trivial

theorem bind {f : α → ScanM β} {Q : β → Cursor → Prop} (h : Safe m s fun a s' => Safe (f a) s' Q) :
    Safe (m >>= f) s Q := by
  unfold Safe at h ⊢
  rw [bind_apply]
  cases hm : m s with
  | ok p =>
    rw [hm] at h
    exact h
  | error e =>
    rw [hm] at h
    cases e with
    | die line msg => trivial
    | outside => exact h
    | spin => exact h

theorem mono {Q' : α → Cursor → Prop} (h : Safe m s Q) (hQ : ∀ a s', Q a s' → Q' a s') :
    Safe m s Q' := by
  unfold Safe at h ⊢
  split
  · rename_i a s' hm
    rw [hm] at h
    exact hQ a s' h
  · trivial
  · rename_i e hne hm
    rw [hm] at h
    cases e with
    | die line msg => exact absurd rfl (hne line msg)
    | outside => exact h
    | spin => exact h

theorem of_eq {a : α} {s' : Cursor} (hm : m s = .ok (a, s')) (h : Q a s') : Safe m s Q := by
  unfold Safe
  rw [hm]
  exact h

theorem result {a : α} {s' : Cursor} (h : Safe m s Q) (hm : m s = .ok (a, s')) : Q a s' := by
  unfold Safe at h
  rw [hm] at h
  exact h

theorem not_outside (h : Safe m s Q) : m s ≠ .error .outside := by
  intro hm
  unfold Safe at h
  rw [hm] at h
  exact h

theorem loopM {body : α → ScanM (Option α)} {I Q : α → Cursor → Prop}
    (hbody : ∀ a s, I a s → Safe (body a) s fun o s' =>
      match o with
      | some a' => I a' s' ∧ s'.rest.length < s.rest.length
      | none => Q a s')
    {fuel : Nat} {a : α} (hI : I a s) (hfuel : s.rest.length < fuel) :
    Safe (Scanner.loopM body fuel a) s Q := by
  induction fuel generalizing a s with
  | zero => exact absurd hfuel (Nat.not_lt_zero _)
  | succ fuel ih =>
    apply bind
    refine (hbody a s hI).mono fun o s' h => ?_
    cases o with
    | none => exact h
    | some a' => exact ih h.1 (Nat.lt_of_lt_of_le h.2 (Nat.le_of_lt_succ hfuel))

theorem loop {body : α → ScanM (Option α)} {I Q : α → Cursor → Prop}
    (hbody : ∀ a s, I a s → Safe (body a) s fun o s' =>
      match o with
      | some a' => I a' s' ∧ s'.rest.length < s.rest.length
      | none => Q a s')
    {a : α} (hI : I a s) : Safe (Scanner.loop body a) s Q :=
  loopM hbody hI (Nat.lt_succ_self _)

end Safe

/-- What `scanWhile` computes, and where it ends. -/
def spanWith (f : α → UInt8 → Option α) : α → List UInt8 → α × List UInt8
  | a, [] => (a, [])
  | a, c :: r =>
    match f a c with
    | some a' => spanWith f a' r
    | none => (a, c :: r)

theorem spanWith_suffix (f : α → UInt8 → Option α) (a : α) (r : List UInt8) :
    (spanWith f a r).2 <:+ r := by
  induction r generalizing a with
  | nil => exact List.suffix_refl []
  | cons c r ih =>
    rw [spanWith]
    cases f a c with
    | none => exact List.suffix_refl _
    | some a' => exact (ih a').trans (List.suffix_cons c r)

theorem spanWith_append {f : α → UInt8 → Option α} {g : α → UInt8 → α} {w r : List UInt8}
    (hw : ∀ a, ∀ c ∈ w, f a c = some (g a c)) (hr : ∀ a c, r.head? = some c → f a c = none)
    (a : α) : spanWith f a (w ++ r) = (w.foldl g a, r) := by
  induction w generalizing a with
  | nil =>
    cases r with
    | nil => rfl
    | cons c r =>
      show spanWith f a (c :: r) = (a, c :: r)
      rw [spanWith, hr a c rfl]
  | cons c w ih =>
    rw [List.cons_append, spanWith, hw a c List.mem_cons_self, List.foldl_cons]
    exact ih (fun a d hd => hw a d (List.mem_cons_of_mem _ hd)) (g a c)

theorem scanWhile_eq {f : α → UInt8 → Option α} (hf : ∀ a, f a 0 = none) (a : α) (s : Cursor) :
    scanWhile f a s = .ok ((spanWith f a s.rest).1, ⟨(spanWith f a s.rest).2, s.line⟩) := by
  suffices h : ∀ (r : List UInt8) (a : α) (fuel : Nat), r.length < fuel →
      loopM (fun a => do
        match f a (← peek 0) with
        | some a' => do
          skip 1
          return some a'
        | none => return none) fuel a ⟨r, s.line⟩ =
      .ok ((spanWith f a r).1, ⟨(spanWith f a r).2, s.line⟩) from
    h s.rest a _ (Nat.lt_succ_self _)
  intro r
  induction r with
  | nil =>
    intro a fuel hfuel
    cases fuel with
    | zero => exact absurd hfuel (Nat.not_lt_zero _)
    | succ fuel =>
      simp only [loopM, bind_apply, peek_zero_nil, hf a]
      rfl
  | cons c r ih =>
    intro a fuel hfuel
    cases fuel with
    | zero => exact absurd hfuel (Nat.not_lt_zero _)
    | succ fuel =>
      simp only [loopM, bind_apply, peek_zero_cons, spanWith]
      cases hc : f a c with
      | none => rfl
      | some a' =>
        simp only [bind_apply, skip_one_cons, pure_apply]
        exact ih a' fuel (Nat.lt_of_succ_lt_succ hfuel)

theorem scanWhile_safe {f : α → UInt8 → Option α} (hf : ∀ a, f a 0 = none) {a : α}
    (h : Q (spanWith f a s.rest).1 ⟨(spanWith f a s.rest).2, s.line⟩) :
    Safe (scanWhile f a) s Q :=
  .of_eq (scanWhile_eq hf a s) h

end MechanicalResearcher.Lib.Scanner
