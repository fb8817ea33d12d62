import Mathlib.Data.List.TakeWhile
import MechanicalResearcher.Lib.Search

/-!
# Blocks of header lines

Lines that end with CR LF, and an empty line behind the last one.  A field has a value behind some
blanks, to the end of its line.
-/

namespace MechanicalResearcher.Lib.HeaderLines

def cr : UInt8 := 13
def lf : UInt8 := 10

def crlf : List UInt8 := [cr, lf]

def emptyLine : List UInt8 := [cr, lf, cr, lf]

/-- The bytes of a text in ASCII. -/
def ascii (s : String) : List UInt8 := s.toList.map fun c => UInt8.ofNat c.toNat

/-- From behind the blanks to the end of the line. -/
def fieldValue (blank : UInt8 → Bool) (s : List UInt8) : List UInt8 :=
  (s.dropWhile blank).takeWhile fun b => b ≠ cr ∧ b ≠ lf

/-- `value` stands behind the blanks at the head of `s`, and its line ends behind it. -/
structure FieldAt (blank : UInt8 → Bool) (s value : List UInt8) : Prop where
  split : ∃ blanks after, s = blanks ++ (value ++ after) ∧ (∀ b ∈ blanks, blank b = true) ∧
    ∀ b ∈ after.head?, b = cr ∨ b = lf
  head : ∀ b ∈ value.head?, blank b = false
  text : ∀ b ∈ value, b ≠ cr ∧ b ≠ lf

theorem stops_at_head {p : UInt8 → Bool} {l : List UInt8} (h : ∀ b ∈ l.head?, p b = false) :
    l.dropWhile p = l ∧ l.takeWhile p = [] := by
  cases l with
  | nil => exact ⟨rfl, rfl⟩
  | cons b l =>
    have hb := h b rfl
    rw [List.dropWhile_cons, List.takeWhile_cons, hb]
    exact ⟨rfl, rfl⟩

theorem head?_dropWhile {p : UInt8 → Bool} {l : List UInt8} :
    ∀ b ∈ (l.dropWhile p).head?, p b = false := by
  intro b hb
  have hstop := List.head?_dropWhile_not p l
  rw [Option.mem_def.mp hb] at hstop
  exact hstop

theorem fieldAt_fieldValue (blank : UInt8 → Bool) (s : List UInt8) :
    FieldAt blank s (fieldValue blank s) := by
  refine ⟨⟨s.takeWhile blank, (s.dropWhile blank).dropWhile fun b => b ≠ cr ∧ b ≠ lf, ?_, ?_, ?_⟩,
    ?_, ?_⟩
  · rw [fieldValue, List.takeWhile_append_dropWhile, List.takeWhile_append_dropWhile]
  · exact fun b hb => List.mem_takeWhile_imp hb
  · intro b hb
    have hstop := of_decide_eq_false (head?_dropWhile b hb)
    by_contra hne
    exact hstop ⟨fun h => hne (.inl h), fun h => hne (.inr h)⟩
  · intro b hb
    refine head?_dropWhile (l := s) b ?_
    rw [fieldValue] at hb
    cases hdrop : s.dropWhile blank with
    | nil =>
      rw [hdrop] at hb
      cases hb
    | cons c rest =>
      rw [hdrop, List.takeWhile_cons] at hb
      split at hb
      · exact hb
      · cases hb
  · intro b hb
    rw [fieldValue] at hb
    have htaken := List.mem_takeWhile_imp hb
    exact of_decide_eq_true htaken

theorem FieldAt.eq {blank : UInt8 → Bool} (hcr : blank cr = false) (hlf : blank lf = false)
    {s value : List UInt8} (h : FieldAt blank s value) : fieldValue blank s = value := by
  obtain ⟨blanks, after, rfl, hblanks, hafter⟩ := h.split
  have hhead : ∀ b ∈ (value ++ after).head?, blank b = false := by
    intro b hb
    cases value with
    | nil => rcases hafter b hb with rfl | rfl <;> assumption
    | cons c value => exact h.head b hb
  have hstop : ∀ b ∈ after.head?, decide (b ≠ cr ∧ b ≠ lf) = false := by
    intro b hb
    refine decide_eq_false fun hne => ?_
    rcases hafter b hb with rfl | rfl
    · exact hne.1 rfl
    · exact hne.2 rfl
  rw [fieldValue, List.dropWhile_append_of_pos hblanks, (stops_at_head hhead).1,
    List.takeWhile_append_of_pos fun b hb => decide_eq_true (h.text b hb),
    (stops_at_head hstop).2, List.append_nil]

def block (lines : List (List UInt8)) : List UInt8 := lines.flatMap (· ++ crlf) ++ crlf

/-- A line that is not empty and holds no line end. -/
structure IsLine (l : List UInt8) : Prop where
  ne_nil : l ≠ []
  text : ∀ b ∈ l, b ≠ cr ∧ b ≠ lf

theorem IsLine.append {p l : List UInt8} (hp : IsLine p) (hl : ∀ b ∈ l, b ≠ cr ∧ b ≠ lf) :
    IsLine (p ++ l) :=
  ⟨fun h => hp.ne_nil (List.append_eq_nil_iff.mp h).1, fun b hb =>
    (List.mem_append.mp hb).elim (hp.text b) (hl b)⟩

theorem block_cons (l : List UInt8) (lines : List (List UInt8)) :
    block (l :: lines) = l ++ (crlf ++ block lines) := by
  rw [block, block, List.flatMap_cons, List.append_assoc, List.append_assoc]

theorem eq_nil_of_emptyLine {lines : List (List UInt8)} (h : ∀ l ∈ lines, IsLine l)
    {u v : List UInt8} (huv : block lines = u ++ (emptyLine ++ v)) : v = [] := by
  induction lines generalizing u with
  | nil =>
    have hlen := congrArg List.length huv
    rw [List.length_append, List.length_append] at hlen
    change 2 = u.length + (4 + v.length) at hlen
    omega
  | cons l lines ih =>
    have hl := h l List.mem_cons_self
    have hhere (hnext : block lines = cr :: lf :: v) : v = [] := by
      cases lines with
      | nil => exact (List.cons.inj (List.cons.inj hnext).2).2.symm
      | cons l' lines =>
        have hl' := h l' (by simp)
        rw [block_cons] at hnext
        obtain ⟨b, rest, rfl⟩ := List.exists_cons_of_ne_nil hl'.ne_nil
        exact absurd (List.cons.inj hnext).1 (hl'.text b List.mem_cons_self).1
    rw [block_cons, List.append_eq_append_iff] at huv
    obtain ⟨w, hu, hw⟩ | ⟨w, hl', hw⟩ := huv
    · -- behind the line
      match w, hu, hw with
      | [], hu, hw => exact hhere (List.append_cancel_left hw)
      | [b], hu, hw => exact absurd (List.cons.inj (List.cons.inj hw).2).1 (by decide)
      | b :: c :: w, hu, hw =>
        exact ih (fun x hx => h x (List.mem_cons_of_mem l hx))
          (List.cons.inj (List.cons.inj hw).2).2
    · -- inside the line
      cases w with
      | nil => exact hhere (List.cons.inj (List.cons.inj hw).2).2.symm
      | cons b w =>
        have hb : cr = b := (List.cons.inj hw).1
        rw [hl'] at hl
        exact absurd hb.symm (hl.text b (by simp)).1

theorem search_part {lines : List (List UInt8)} (h : ∀ l ∈ lines, IsLine l) {p q : List UInt8}
    (hpq : p ++ q = block lines) (hq : q ≠ []) : search emptyLine p = none := by
  by_contra hne
  obtain ⟨t, ht⟩ := Option.ne_none_iff_exists'.mp hne
  obtain ⟨before, after, -, hfirst⟩ := search_eq_some ht
  have hsplit := hfirst.split
  rw [hsplit, List.append_assoc, List.append_assoc] at hpq
  exact hq (List.append_eq_nil_iff.mp (eq_nil_of_emptyLine h hpq.symm)).2

theorem search_block {lines : List (List UInt8)} (hne : lines ≠ []) :
    search emptyLine (block lines) ≠ none := by
  intro hnone
  obtain ⟨init, l, rfl⟩ := (List.eq_nil_or_concat' lines).resolve_left hne
  refine search_eq_none hnone (init.flatMap (· ++ crlf) ++ l) [] ?_
  rw [block, List.flatMap_append, List.flatMap_singleton, List.append_assoc, List.append_assoc,
    List.append_assoc]
  rfl

end MechanicalResearcher.Lib.HeaderLines
