import Mathlib.Tactic.Common

/-!
# What a piece of code does inside a larger run

`Path step inside n s es t` is a run of a labelled transition system: `n` steps, all from states
of a region, with the events `es`.  Such a run leaves the region if `t` is outside.

`Behaves step inside k s R P` says that from `s` the system first does what `R` and `P` say: every
run from `s` goes through a state `u` with `R es u`, where `es` are the events before it, or is not
there yet and has events with `P es`.  And all that `R` and `P` allow is done.  The number `k` is a
bound from below of the steps to `u`; a loop needs one.
-/

namespace MechanicalResearcher.Lib.Behaviour

variable {S D E : Type} {step : S → List E → S → Prop} {A B : S → Prop} {s t u : S}
  {es es' : List E} {n k j : Nat}

inductive Path (step : S → List E → S → Prop) (inside : S → Prop) :
    Nat → S → List E → S → Prop
  | nil {s : S} : Path step inside 0 s [] s
  | next {n : Nat} {s t u : S} {es es' : List E} : inside s → step s es t →
      Path step inside n t es' u → Path step inside (n + 1) s (es ++ es') u

/-- The events of the runs in a region, those that leave it and those that do not. -/
def Traces (step : S → List E → S → Prop) (inside : S → Prop) (s : S) (es : List E) : Prop :=
  ∃ n t, Path step inside n s es t

/-- The state where a run leaves the region, with the events up to there. -/
def Leaves (step : S → List E → S → Prop) (inside : S → Prop) (s : S) (es : List E) (t : S) :
    Prop :=
  ∃ n, Path step inside n s es t ∧ ¬ inside t

theorem Traces.nil (s : S) : Traces step B s [] := ⟨0, s, .nil⟩

theorem Leaves.traces (h : Leaves step B s es t) : Traces step B s es := by
  obtain ⟨n, hrun, -⟩ := h
  exact ⟨n, t, hrun⟩

namespace Path

theorem of_not (hs : ¬ A s) (h : Path step A n s es t) : n = 0 ∧ es = [] ∧ t = s := by
  cases h with
  | nil => exact ⟨rfl, rfl, rfl⟩
  | next hin _ _ => exact absurd hin hs

theorem split (A : S → Prop) (h : Path step B n s es t) :
    (∃ m j es1 es2 u, n = m + j ∧ es = es1 ++ es2 ∧ Path step A m s es1 u ∧ ¬ A u ∧
      Path step B j u es2 t) ∨ (A t ∧ Path step A n s es t) := by
  induction h with
  | @nil s =>
    by_cases hA : A s
    · exact .inr ⟨hA, .nil⟩
    · exact .inl ⟨0, 0, [], [], s, rfl, rfl, .nil, hA, .nil⟩
  | @next n s t u es es' hs hstep htail ih =>
    by_cases hA : A s
    · rcases ih with ⟨m, j, es1, es2, v, hn, hes, hfirst, hout, hrest⟩ | ⟨hu, hrun⟩
      · refine .inl ⟨m + 1, j, es ++ es1, es2, v, by omega, ?_, .next hA hstep hfirst, hout, hrest⟩
        rw [hes, List.append_assoc]
      · exact .inr ⟨hu, .next hA hstep hrun⟩
    · exact .inl ⟨0, n + 1, [], es ++ es', s, by omega, rfl, .nil, hA, .next hs hstep htail⟩

theorem mono (hAB : ∀ s, A s → B s) (h : Path step A n s es t) : Path step B n s es t := by
  induction h with
  | nil => exact .nil
  | next hs hstep _ ih => exact .next (hAB _ hs) hstep ih

theorem append (h : Path step B n s es t) (h' : Path step B k t es' u) :
    Path step B (n + k) s (es ++ es') u := by
  induction h with
  | nil =>
    rw [Nat.zero_add]
    exact h'
  | next hs hstep _ ih =>
    rw [List.append_assoc, Nat.add_right_comm]
    exact .next hs hstep (ih h')

end Path

structure Behaves (step : S → List E → S → Prop) (inside : S → Prop) (k : Nat) (s : S)
    (R : List E → S → Prop) (P : List E → Prop) : Prop where
  forth : ∀ n es t, Path step inside n s es t → (∃ m es1 es2 u, m + k ≤ n ∧ es = es1 ++ es2 ∧
    R es1 u ∧ Path step inside m u es2 t) ∨ (inside t ∧ P es)
  reach : ∀ es u, R es u → ∃ n, Path step inside n s es u
  part : ∀ es, P es → Traces step inside s es

namespace Behaves

variable {R R' : List E → S → Prop} {P P' : List E → Prop}

theorem congr (h : Behaves step B k s R P) (hR : ∀ es u, R es u ↔ R' es u)
    (hP : ∀ es, P es → P' es) (hP' : ∀ es, P' es → P es ∨ ∃ es1 es2 u, R es1 u ∧
      Traces step B u es2 ∧ es = es1 ++ es2) : Behaves step B k s R' P' where
  forth n es t hrun := by
    rcases h.forth n es t hrun with ⟨m, es1, es2, u, hm, hes, hu, hrest⟩ | ⟨ht, hes⟩
    · exact .inl ⟨m, es1, es2, u, hm, hes, (hR es1 u).1 hu, hrest⟩
    · exact .inr ⟨ht, hP es hes⟩
  reach es u hu := h.reach es u ((hR es u).2 hu)
  part es hes := by
    rcases hP' es hes with hes | ⟨es1, es2, u, hu, ⟨n, t, hrest⟩, rfl⟩
    · exact h.part es hes
    · obtain ⟨m, hfirst⟩ := h.reach es1 u hu
      exact ⟨m + n, t, hfirst.append hrest⟩

theorem weaken (h : Behaves step B k s R P) (hjk : j ≤ k) : Behaves step B j s R P where
  forth n es t hrun := by
    rcases h.forth n es t hrun with ⟨m, es1, es2, u, hm, hes, hu, hrest⟩ | hin
    · exact .inl ⟨m, es1, es2, u, by omega, hes, hu, hrest⟩
    · exact .inr hin
  reach := h.reach
  part := h.part

theorem quiet (h : Behaves step B k s (fun es u => es = [] ∧ u = t) P)
    (hP : ∀ es, P es → es = []) :
    Behaves step B 0 s (fun es u => es = [] ∧ u = t) fun es => es = [] := by
  refine (h.weaken (Nat.zero_le _)).congr (fun es u => Iff.rfl) hP fun es hes => ?_
  rw [hes]
  exact .inr ⟨[], [], t, ⟨rfl, rfl⟩, .nil t, rfl⟩

theorem here (s : S) : Behaves step B 0 s (fun es u => es = [] ∧ u = s) fun _ => False where
  forth n es t hrun := .inl ⟨n, [], es, s, Nat.le_refl _, rfl, ⟨rfl, rfl⟩, hrun⟩
  reach es u hu := by
    obtain ⟨rfl, rfl⟩ := hu
    exact ⟨0, .nil⟩
  part _ hes := hes.elim

theorem silent (hs : B s) (hstep : ∀ es u, step s es u ↔ es = [] ∧ u = t)
    (h : Behaves step B k t R P) : Behaves step B (k + 1) s R fun es => es = [] ∨ P es where
  forth n es u hrun := by
    cases hrun with
    | nil => exact .inr ⟨hs, .inl rfl⟩
    | next _ hfirst htail =>
      obtain ⟨rfl, rfl⟩ := (hstep _ _).1 hfirst
      rcases h.forth _ _ _ htail with ⟨m, es1, es2, v, hm, hes, hv, hrest⟩ | ⟨hu, hes⟩
      · exact .inl ⟨m, es1, es2, v, by omega, hes, hv, hrest⟩
      · exact .inr ⟨hu, .inr hes⟩
  reach es u hu := by
    obtain ⟨n, hn⟩ := h.reach es u hu
    exact ⟨n + 1, .next hs ((hstep [] t).2 ⟨rfl, rfl⟩) hn⟩
  part es hes := by
    rcases hes with rfl | hes
    · exact .nil s
    · obtain ⟨n, u, hn⟩ := h.part es hes
      exact ⟨n + 1, u, .next hs ((hstep [] t).2 ⟨rfl, rfl⟩) hn⟩

theorem stuck (hs : B s) (hstep : ∀ es u, ¬ step s es u) (hR : ∀ es u, ¬ R es u) :
    Behaves step B k s R fun es => es = [] where
  forth n es t hrun := by
    cases hrun with
    | nil => exact .inr ⟨hs, rfl⟩
    | next _ hfirst _ => exact absurd hfirst (hstep _ _)
  reach es u hu := absurd hu (hR es u)
  part es hes := by
    rw [hes]
    exact .nil s

theorem region (hAB : ∀ s, A s → B s) (s : S) :
    Behaves step B 0 s (Leaves step A s) (Traces step A s) where
  forth n es t hrun := by
    rcases hrun.split A with ⟨m, j, es1, es2, u, hn, hes, hfirst, hout, hrest⟩ | ⟨ht, hrun⟩
    · exact .inl ⟨j, es1, es2, u, by omega, hes, ⟨m, hfirst, hout⟩, hrest⟩
    · exact .inr ⟨hAB t ht, n, t, hrun⟩
  reach es u hu := by
    obtain ⟨n, hn, -⟩ := hu
    exact ⟨n, hn.mono hAB⟩
  part es hes := by
    obtain ⟨n, t, hn⟩ := hes
    exact ⟨n, t, hn.mono hAB⟩

theorem bind {ι : Type} {R : ι → List E → S → Prop} {Q : ι → S → List E → S → Prop}
    {Z : ι → S → List E → Prop} (h : Behaves step B k s (fun es u => ∃ i, R i es u) P)
    (hQ : ∀ i es u, R i es u → Behaves step B j u (Q i u) (Z i u)) :
    Behaves step B (k + j) s
      (fun es t => ∃ i es1 es2 u, R i es1 u ∧ Q i u es2 t ∧ es = es1 ++ es2)
      fun es => P es ∨ ∃ i es1 es2 u, R i es1 u ∧ Z i u es2 ∧ es = es1 ++ es2 where
  forth n es t hrun := by
    rcases h.forth n es t hrun with ⟨m, es1, es2, u, hm, hes, ⟨i, hu⟩, hrest⟩ | ⟨ht, hes⟩
    · rcases (hQ i es1 u hu).forth m es2 t hrest with
        ⟨m', es3, es4, v, hm', hes', hv, hrest'⟩ | ⟨ht, hes'⟩
      · refine .inl ⟨m', es1 ++ es3, es4, v, by omega, ?_, ⟨i, es1, es3, u, hu, hv, rfl⟩, hrest'⟩
        rw [hes, hes', List.append_assoc]
      · exact .inr ⟨ht, .inr ⟨i, es1, es2, u, hu, hes', hes⟩⟩
    · exact .inr ⟨ht, .inl hes⟩
  reach es t ht := by
    obtain ⟨i, es1, es2, u, hu, ht, rfl⟩ := ht
    obtain ⟨m, hm⟩ := h.reach es1 u ⟨i, hu⟩
    obtain ⟨n, hn⟩ := (hQ i es1 u hu).reach es2 t ht
    exact ⟨m + n, hm.append hn⟩
  part es hes := by
    rcases hes with hes | ⟨i, es1, es2, u, hu, hes, rfl⟩
    · exact h.part es hes
    · obtain ⟨m, hm⟩ := h.reach es1 u ⟨i, hu⟩
      obtain ⟨n, t, hn⟩ := (hQ i es1 u hu).part es2 hes
      exact ⟨m + n, t, hm.append hn⟩

theorem follow {ι : Type} {T : ι → List E → Prop} {f : ι → S} {Q : ι → List E → S → Prop}
    {Z : ι → List E → Prop} (h : Behaves step B 0 s (fun es u => ∃ i, T i es ∧ u = f i) P)
    (hQ : ∀ i, Behaves step B k (f i) (Q i) (Z i)) :
    Behaves step B k s (fun es t => ∃ i es1 es2, T i es1 ∧ Q i es2 t ∧ es = es1 ++ es2)
      fun es => P es ∨ ∃ i es1 es2, T i es1 ∧ Z i es2 ∧ es = es1 ++ es2 := by
  have hall := h.bind (R := fun i es u => T i es ∧ u = f i) (Q := fun i _ => Q i)
    (Z := fun i _ => Z i) fun i es u hu => by rw [hu.2]; exact hQ i
  rw [Nat.zero_add] at hall
  refine hall.congr (fun es u => ?_) (fun es hes => ?_) fun es hes => ?_
  · constructor
    · rintro ⟨i, es1, es2, _, ⟨hi, rfl⟩, hu, hes⟩
      exact ⟨i, es1, es2, hi, hu, hes⟩
    · rintro ⟨i, es1, es2, hi, hu, hes⟩
      exact ⟨i, es1, es2, _, ⟨hi, rfl⟩, hu, hes⟩
  · rcases hes with hes | ⟨i, es1, es2, _, ⟨hi, rfl⟩, hu, hes⟩
    · exact .inl hes
    · exact .inr ⟨i, es1, es2, hi, hu, hes⟩
  · rcases hes with hes | ⟨i, es1, es2, hi, hu, hes⟩
    · exact .inl (.inl hes)
    · exact .inl (.inr ⟨i, es1, es2, _, ⟨hi, rfl⟩, hu, hes⟩)

theorem branch {T : Bool → D → List E → Prop} {f : Bool → D → S} {Rt Rf : D → List E → S → Prop}
    {Pt Pf : D → List E → Prop}
    (h : Behaves step B 0 s (fun es u => ∃ v d, T v d es ∧ u = f v d) P)
    (ht : ∀ d, Behaves step B k (f true d) (Rt d) (Pt d))
    (hf : ∀ d, Behaves step B k (f false d) (Rf d) (Pf d)) :
    Behaves step B k s
      (fun es u => (∃ d es1 es2, T true d es1 ∧ Rt d es2 u ∧ es = es1 ++ es2) ∨
        ∃ d es1 es2, T false d es1 ∧ Rf d es2 u ∧ es = es1 ++ es2)
      fun es => P es ∨ (∃ d es1 es2, T true d es1 ∧ Pt d es2 ∧ es = es1 ++ es2) ∨
        ∃ d es1 es2, T false d es1 ∧ Pf d es2 ∧ es = es1 ++ es2 := by
  have hfirst : Behaves step B 0 s (fun es u => ∃ i : Bool × D, T i.1 i.2 es ∧
    u = f i.1 i.2) P := by
    refine h.congr (fun es u => ?_) (fun es hes => hes) fun es hes => .inl hes
    constructor
    · rintro ⟨v, d, hu⟩
      exact ⟨(v, d), hu⟩
    · rintro ⟨⟨v, d⟩, hu⟩
      exact ⟨v, d, hu⟩
  have hall := hfirst.follow (Q := fun i => if i.1 then Rt i.2 else Rf i.2)
    (Z := fun i => if i.1 then Pt i.2 else Pf i.2) fun i => by
      obtain ⟨_ | _, d⟩ := i
      · exact hf d
      · exact ht d
  refine hall.congr (fun es u => ?_) (fun es hes => ?_) fun es hes => ?_
  · constructor
    · rintro ⟨⟨_ | _, d⟩, es1, es2, h⟩
      · exact .inr ⟨d, es1, es2, h⟩
      · exact .inl ⟨d, es1, es2, h⟩
    · rintro (⟨d, es1, es2, h⟩ | ⟨d, es1, es2, h⟩)
      · exact ⟨(true, d), es1, es2, h⟩
      · exact ⟨(false, d), es1, es2, h⟩
  · rcases hes with hes | ⟨⟨_ | _, d⟩, es1, es2, h⟩
    · exact .inl hes
    · exact .inr (.inr ⟨d, es1, es2, h⟩)
    · exact .inr (.inl ⟨d, es1, es2, h⟩)
  · rcases hes with hes | ⟨d, es1, es2, h⟩ | ⟨d, es1, es2, h⟩
    · exact .inl (.inl hes)
    · exact .inl (.inr ⟨(true, d), es1, es2, h⟩)
    · exact .inl (.inr ⟨(false, d), es1, es2, h⟩)

theorem leaves_iff (h : Behaves step B k s R P) (hout : ∀ es u, R es u → ¬ B u) :
    Leaves step B s es t ↔ R es t := by
  constructor
  · rintro ⟨n, hrun, ht⟩
    rcases h.forth n es t hrun with ⟨m, es1, es2, u, -, hes, hu, hrest⟩ | ⟨hin, -⟩
    · obtain ⟨-, rfl, rfl⟩ := hrest.of_not (hout es1 u hu)
      rw [hes, List.append_nil]
      exact hu
    · exact absurd hin ht
  · intro ht
    obtain ⟨n, hrun⟩ := h.reach es t ht
    exact ⟨n, hrun, hout es t ht⟩

theorem traces_iff (h : Behaves step B k s R P) (hout : ∀ es u, R es u → ¬ B u)
    (hRP : ∀ es u, R es u → P es) : Traces step B s es ↔ P es := by
  constructor
  · rintro ⟨n, t, hrun⟩
    rcases h.forth n es t hrun with ⟨m, es1, es2, u, -, hes, hu, hrest⟩ | ⟨-, hes⟩
    · obtain ⟨-, rfl, rfl⟩ := hrest.of_not (hout es1 u hu)
      rw [hes, List.append_nil]
      exact hRP es1 _ hu
    · exact hes
  · exact h.part es

end Behaves

/-- A loop over the states `D`: `again` is a turn that comes back, and `leave` one that does
not. -/
inductive Loop (again : D → List E → D → Prop) (leave : D → List E → S → Prop) :
    D → List E → S → Prop
  | stop {d : D} {es : List E} {u : S} : leave d es u → Loop again leave d es u
  | turn {d d' : D} {es es' : List E} {u : S} : again d es d' → Loop again leave d' es' u →
      Loop again leave d (es ++ es') u

theorem loop_exists_iff {ι : Type} {again : D → List E → D → Prop} {leave : D → List E → ι → Prop}
    {f : ι → S → Prop} {d : D} :
    Loop again (fun d es u => ∃ i, leave d es i ∧ f i u) d es u ↔
      ∃ i, Loop again leave d es i ∧ f i u := by
  constructor
  · intro h
    induction h with
    | stop h =>
      obtain ⟨i, hi, hu⟩ := h
      exact ⟨i, .stop hi, hu⟩
    | turn hagain _ ih =>
      obtain ⟨i, hi, hu⟩ := ih
      exact ⟨i, .turn hagain hi, hu⟩
  · rintro ⟨i, hi, hu⟩
    induction hi with
    | stop hi => exact .stop ⟨_, hi, hu⟩
    | turn hagain _ ih => exact .turn hagain (ih hu)

/-- The events of a loop in the middle of a turn. -/
inductive Turning (again : D → List E → D → Prop) (part : D → List E → Prop) :
    D → List E → Prop
  | part {d : D} {es : List E} : part d es → Turning again part d es
  | turn {d d' : D} {es es' : List E} : again d es d' → Turning again part d' es' →
      Turning again part d (es ++ es')

theorem Behaves.loop {top : D → S} {again : D → List E → D → Prop} {leave : D → List E → S → Prop}
    {part : D → List E → Prop}
    (hturn : ∀ d, Behaves step B 1 (top d)
      (fun es u => (∃ d', again d es d' ∧ u = top d') ∨ leave d es u) (part d)) (d : D) :
    Behaves step B 0 (top d) (Loop again leave d) (Turning again part d) where
  forth n es t hrun := by
    induction n using Nat.strongRecOn generalizing d es with
    | ind n ih =>
      rcases (hturn d).forth n es t hrun with ⟨m, es1, es2, u, hm, hes, hu, hrest⟩ | ⟨ht, hes⟩
      · rcases hu with ⟨d', hagain, rfl⟩ | hleave
        · rcases ih m (by omega) d' es2 hrest with
            ⟨m', es3, es4, v, hm', hes', hv, hrest'⟩ | ⟨ht, hes'⟩
          · refine .inl ⟨m', es1 ++ es3, es4, v, by omega, ?_, .turn hagain hv, hrest'⟩
            rw [hes, hes', List.append_assoc]
          · rw [hes]
            exact .inr ⟨ht, .turn hagain hes'⟩
        · exact .inl ⟨m, es1, es2, u, by omega, hes, .stop hleave, hrest⟩
      · exact .inr ⟨ht, .part hes⟩
  reach es u hu := by
    induction hu with
    | stop hleave => exact (hturn _).reach _ _ (.inr hleave)
    | @turn d d' es1 es2 u hagain _ ih =>
      obtain ⟨m, hm⟩ := (hturn d).reach es1 (top d') (.inl ⟨d', hagain, rfl⟩)
      obtain ⟨n, hn⟩ := ih
      exact ⟨m + n, hm.append hn⟩
  part es hes := by
    induction hes with
    | part hes => exact (hturn _).part _ hes
    | @turn d d' es1 es2 hagain _ ih =>
      obtain ⟨m, hm⟩ := (hturn d).reach es1 (top d') (.inl ⟨d', hagain, rfl⟩)
      obtain ⟨n, t, hn⟩ := ih
      exact ⟨m + n, t, hm.append hn⟩

end MechanicalResearcher.Lib.Behaviour
