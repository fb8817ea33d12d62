import Mathlib.Data.Set.Insert
import MechanicalResearcher.Lib.Liveness
import MechanicalResearcher.PortableCompiler.IrExec
import MechanicalResearcher.PortableCompiler.Regalloc

/-!
# Paths through the intermediate code

The edges are those of the code itself: to the next instruction and to the target of a jump.  A
return and a resume have none.  The runtime enters a function again at its mark when a
continuation fires, and behind a call or a capture when one is resumed.

`Flow` is a judgement on a piece of code: which temps are live before it and after it, when the
labels have the live temps that `Λ` gives them.  It is built piece by piece along the lowering,
and `Flow.sound` turns it into live sets for the whole function.

The comparison of a `!` that is used as a value reads a temp that the next instruction defines;
`ReadsNext` is that shape, and only there may a flow read what is not live.
-/

namespace MechanicalResearcher.PortableCompiler

open Lib.Liveness

variable {t q k p : Nat}

/-- The temps that an instruction reads. -/
def Insn.Uses (i : Insn) (t : Nat) : Prop := i.a = some t ∨ i.b = some t

def Insn.falls (i : Insn) : Bool :=
  match i.op with
  | .jmp | .ret | .retv | .resume | .endf => false
  | _ => true

/-- The label that a jump may go to. -/
def Insn.target (i : Insn) : Option Nat :=
  match i.op with
  | .jmp | .bz | .bnz => i.label
  | _ => none

def Edge (code : List Insn) (p q : Nat) : Prop :=
  ∃ i, code[p]? = some i ∧
    ((i.falls = true ∧ q = p + 1) ∨ ∃ l, i.target = some l ∧ findLabel l code = some q)

/-- Where other code runs that may come back. -/
def Op.calls : Op → Bool
  | .call | .calli | .mark | .capture => true
  | _ => false

/-- Where a continuation fires or is resumed, here or in what is called. -/
def Op.leaves : Op → Bool
  | .call | .calli | .capture | .resume => true
  | _ => false

/-- The function is entered again at an instruction that was executed before, and placed a mark
before: only the result of the instruction is written then. -/
def Reenters (code : List Insn) (before : List Nat) (p q : Nat) : Prop :=
  (∃ i, code[p]? = some i ∧ i.op.leaves = true) ∧ q ∈ before ∧
    (∃ i, code[q]? = some i ∧ i.op.calls = true) ∧
    ∃ m ∈ before, ∃ i, code[m]? = some i ∧ i.op = .mark

/-- The positions of the executed instructions. -/
structure Execution (code : List Insn) (path : List Nat) : Prop where
  head : path.head? = some 0
  next : ∀ k p q, path[k]? = some p → path[k + 1]? = some q →
    Edge code p q ∨ Reenters code (path.take (k + 1)) p q

def Defines (code : List Insn) (p t : Nat) : Prop := ∃ i, code[p]? = some i ∧ i.dst = some t

/-- Each temp that an executed instruction reads was written before on the path, and from its
last write on the path stays inside the range of the temp. -/
def DefinedBeforeUse (fn : Func) (path : List Nat) : Prop :=
  ∀ (j p : Nat) i t, path[j]? = some p → Entered (Edge fn.code) path j →
    fn.code[p]? = some i → i.Uses t → ∃ k q, k < j ∧ path[k]? = some q ∧ Defines fn.code q t ∧
      (∀ m r, k < m → m < j → path[m]? = some r → ¬ Defines fn.code r t) ∧
      ∃ first last, (ranges fn.ntemps fn.code).firstDef t = some first ∧
        (ranges fn.ntemps fn.code).lastUse t = some last ∧
        ∀ m r, k ≤ m → m ≤ j → path[m]? = some r → first ≤ r ∧ r ≤ last

/-- A comparison with a constant that the next instruction makes. -/
def ReadsNext : List Insn → Nat → Prop
  | i :: j :: _, t => i.op = .cmpeq ∧ i.b = some t ∧ j.op = .lic ∧ j.dst = some t
  | _, _ => False

/-- The instruction at `p` is such a comparison. -/
def BangAt (code : List Insn) (p : Nat) : Prop := ∃ t, ReadsNext (code.drop p) t

/-- The temps that a piece of code defines. -/
def dsts (seg : List Insn) : Set Nat := {t | ∃ i ∈ seg, i.dst = some t}

/-- A temp is named on both sides of the instruction. -/
def Spanned (code : List Insn) (q : Nat) : Prop :=
  ∃ t ∈ dsts (code.take q), ∃ j ∈ code.drop (q + 1), j.Names t

/-- In a function with a mark, where the runtime may enter it again. -/
def Unspanned (code : List Insn) : Prop :=
  (∃ i ∈ code, i.op = .mark) → ∀ (q : Nat) i, code[q]? = some i → i.op.calls = true →
    ¬ Spanned code q

theorem ReadsNext.append {seg : List Insn} (h : ReadsNext seg t) (seg' : List Insn) :
    ReadsNext (seg ++ seg') t := by
  match seg, h with
  | _ :: _ :: _, h => exact h

instance (code : List Insn) : DecidableRel (Edge code) := fun p q =>
  inferInstanceAs (Decidable (∃ i ∈ code[p]?,
    i.falls = true ∧ q = p + 1 ∨ ∃ l ∈ i.target, findLabel l code = some q))

instance (code : List Insn) (before : List Nat) (p q : Nat) :
    Decidable (Reenters code before p q) :=
  inferInstanceAs (Decidable ((∃ i ∈ code[p]?, i.op.leaves = true) ∧ q ∈ before ∧
    (∃ i ∈ code[q]?, i.op.calls = true) ∧ ∃ m ∈ before, ∃ i ∈ code[m]?, i.op = .mark))

instance (code : List Insn) (path : List Nat) : Decidable (Execution code path) :=
  decidable_of_iff (path.head? = some 0 ∧ ∀ k < path.length, ∀ p ∈ path[k]?, ∀ q ∈ path[k + 1]?,
      Edge code p q ∨ Reenters code (path.take (k + 1)) p q)
    ⟨fun h => ⟨h.1, fun k p q hp hq => h.2 k (List.getElem?_eq_some_iff.1 hp).1 p hp q hq⟩,
      fun h => ⟨h.head, fun k _ p hp q hq => h.next k p q hp hq⟩⟩

instance (i : Insn) (t : Nat) : Decidable (i.Names t) :=
  inferInstanceAs (Decidable (_ ∨ _ ∨ _))

instance (code : List Insn) : DecidablePred (Spanned code) := fun q =>
  decidable_of_iff (∃ i ∈ code.take q, ∃ t ∈ i.dst, ∃ j ∈ code.drop (q + 1), j.Names t)
    ⟨fun ⟨i, hi, t, ht, h⟩ => ⟨t, ⟨i, hi, ht⟩, h⟩, fun ⟨t, ⟨i, hi, ht⟩, h⟩ => ⟨i, hi, t, ht, h⟩⟩

instance (code : List Insn) : Decidable (Unspanned code) :=
  decidable_of_iff ((∃ i ∈ code, i.op = .mark) → ∀ q < code.length, ∀ i ∈ code[q]?,
      i.op.calls = true → ¬ Spanned code q)
    ⟨fun h hmark q i hi => h hmark q (List.getElem?_eq_some_iff.1 hi).1 i hi,
      fun h hmark q _ i hi => h hmark q i hi⟩

/-! ## The judgement -/

/-- What an instruction asks of the live temps before it (`D`) and after it (`D'`); `B` are
the temps that some instruction before it defines. -/
structure StepOk (Λ : Nat → Set Nat) (B D : Set Nat) (i : Insn) (D' : Set Nat) : Prop where
  next : ∀ t ∈ D', (t ∈ if i.falls then D else B) ∨ i.dst = some t
  label : ∀ l, isLabel l i → D ⊆ Λ l
  jump : ∀ l, i.target = some l → Λ l ⊆ D

/-- With `strict`, nothing but live temps is read. -/
inductive Flow (strict : Prop) (Λ : Nat → Set Nat) :
    Set Nat → Set Nat → List Insn → Set Nat → Prop
  | nil {B D : Set Nat} : Flow strict Λ B D [] D
  | cons {B D D1 D' : Set Nat} {i : Insn} {seg : List Insn} :
      (∀ t, i.Uses t → t ∈ D ∨ (¬ strict ∧ ReadsNext (i :: seg) t)) →
      StepOk Λ B D i D1 → Flow strict Λ (B ∪ {t | i.dst = some t}) D1 seg D' →
      (∀ t ∈ D, t ∈ D' ∨ ∃ j ∈ i :: seg, j.Names t) → Flow strict Λ B D (i :: seg) D'

namespace Flow

variable {strict : Prop} {Λ : Nat → Set Nat} {B B' D D1 D2 : Set Nat} {seg seg' : List Insn}
  {i : Insn}

theorem cover (h : Flow strict Λ B D seg D1) : ∀ t ∈ D, t ∈ D1 ∨ ∃ j ∈ seg, j.Names t := by
  cases h with
  | nil => exact fun t ht => .inl ht
  | cons _ _ _ hcover => exact hcover

theorem append (h : Flow strict Λ B D seg D1) (h' : Flow strict Λ (B ∪ dsts seg) D1 seg' D2) :
    Flow strict Λ B D (seg ++ seg') D2 := by
  induction h with
  | nil =>
    have hB : dsts [] = ∅ := by simp [dsts]
    rw [hB, Set.union_empty] at h'
    exact h'
  | @cons B D D1 D' i seg huse hstep htail hcover ih =>
    have hB : B ∪ {t | i.dst = some t} ∪ dsts seg = B ∪ dsts (i :: seg) := by
      ext t
      simp [dsts, or_assoc]
    rw [← hB] at h'
    refine .cons ?_ hstep (ih h') ?_
    · intro t ht
      exact (huse t ht).imp_right fun h => ⟨h.1, h.2.append seg'⟩
    · intro t ht
      obtain ht | ⟨j, hj, hn⟩ := hcover t ht
      · obtain ht | ⟨j, hj, hn⟩ := h'.cover t ht
        · exact .inl ht
        · exact .inr ⟨j, List.mem_append_right (i :: seg) hj, hn⟩
      · exact .inr ⟨j, List.mem_append_left seg' hj, hn⟩

theorem single (huse : ∀ t, i.Uses t → t ∈ D) (hstep : StepOk Λ B D i D1)
    (hcover : ∀ t ∈ D, t ∈ D1 ∨ i.Names t) : Flow strict Λ B D [i] D1 := by
  refine .cons (fun t ht => .inl (huse t ht)) hstep .nil fun t ht => ?_
  exact (hcover t ht).imp_right fun h => ⟨i, List.mem_singleton.2 rfl, h⟩

theorem exists_live (h : Flow strict Λ B D seg D1) : ∃ live : Nat → Set Nat, live 0 = D ∧
    (∀ k, seg.length ≤ k → live k = D1) ∧ ∀ (k : Nat) i, seg[k]? = some i →
      StepOk Λ (B ∪ dsts (seg.take k)) (live k) i (live (k + 1)) ∧
      (∀ t, i.Uses t → t ∈ live k ∨ (¬ strict ∧ ReadsNext (seg.drop k) t)) ∧
      ∀ t ∈ live k, t ∈ D1 ∨ ∃ j ∈ seg.drop k, j.Names t := by
  induction h with
  | @nil B D => exact ⟨fun _ => D, rfl, fun _ _ => rfl, by simp⟩
  | @cons B D D1 D' i seg huse hstep htail hcover ih =>
    obtain ⟨live, h0, hstop, hlive⟩ := ih
    refine ⟨fun k => k.casesOn D live, rfl, fun k hk => ?_, fun k j hk => ?_⟩
    · cases k with
      | zero => cases hk
      | succ k => exact hstop k (Nat.le_of_succ_le_succ hk)
    cases k with
    | zero =>
      cases hk
      have hB : B ∪ dsts (List.take 0 (i :: seg)) = B := by simp [dsts]
      rw [hB]
      rw [← h0] at hstep
      exact ⟨hstep, huse, hcover⟩
    | succ k =>
      obtain ⟨hstep', huse', hcover'⟩ := hlive k j hk
      have hB : B ∪ dsts (List.take (k + 1) (i :: seg)) =
          B ∪ {t | i.dst = some t} ∪ dsts (seg.take k) := by
        ext t
        simp [dsts, or_assoc]
      rw [hB]
      exact ⟨hstep', huse', hcover'⟩

end Flow

/-! ## From the judgement to paths -/

theorem isLabel_of_findLabel {l : Nat} {code : List Insn} (h : findLabel l code = some q) :
    ∃ i, code[q]? = some i ∧ isLabel l i := by
  induction code generalizing q with
  | nil => cases h
  | cons i code ih =>
    rw [findLabel] at h
    split_ifs at h with hi
    · cases h
      exact ⟨i, rfl, hi⟩
    · obtain ⟨q', hq', rfl⟩ := Option.map_eq_some_iff.1 h
      obtain ⟨j, hj, hl⟩ := ih hq'
      exact ⟨j, by simpa using hj, hl⟩

theorem mem_dsts_take {code : List Insn} (h : t ∈ dsts (code.take k)) :
    ∃ q i, q < k ∧ code[q]? = some i ∧ i.dst = some t := by
  obtain ⟨i, hi, hdst⟩ := h
  obtain ⟨q, hq⟩ := List.getElem?_of_mem hi
  rw [List.getElem?_take] at hq
  split_ifs at hq with hlt
  exact ⟨q, i, hlt, hq, hdst⟩

theorem exists_of_mem_drop {code : List Insn} {i : Insn} (h : i ∈ code.drop k) :
    ∃ q, k ≤ q ∧ code[q]? = some i := by
  obtain ⟨q, hq⟩ := List.getElem?_of_mem h
  rw [List.getElem?_drop] at hq
  exact ⟨k + q, Nat.le_add_right k q, hq⟩

theorem Insn.falls_of_calls (i : Insn) (h : i.op.calls = true) :
    i.falls = true ∧ i.target = none := by
  unfold Insn.falls Insn.target
  cases hop : i.op <;> rw [hop] at h <;> first | exact ⟨rfl, rfl⟩ | cases h

theorem Reenters.not_at {code : List Insn} {before : List Nat} {i : Insn}
    (h : Reenters code before p q) (hi : code[q]? = some i) (hcalls : i.op.calls = false) :
    False := by
  obtain ⟨-, -, ⟨i', hi', hcalls'⟩, -⟩ := h
  rw [hi] at hi'
  cases hi'
  rw [hcalls] at hcalls'
  cases hcalls'

/-- The function may be entered again here, where no value is kept. -/
def Lands (code : List Insn) (q : Nat) : Prop :=
  (∃ i, code[q]? = some i ∧ i.op.calls = true) ∧ ¬ Spanned code q

theorem Execution.path {code : List Insn} {path : List Nat} (h : Execution code path)
    (hspan : ∀ k p q, path[k]? = some p → path[k + 1]? = some q →
      Edge code p q ∨ ¬ Spanned code q) : Path (Edge code) (Lands code) 0 path where
  head := h.head
  next k p q hp hq := (h.next k p q hp hq).elim .inl fun hre =>
    (hspan k p q hp hq).imp_right fun hno => ⟨hre.2.2.1, hno⟩

theorem Unspanned.path {code : List Insn} {path : List Nat} (hfree : Unspanned code)
    (h : Execution code path) : Path (Edge code) (Lands code) 0 path := by
  refine h.path fun k p q hp hq => (h.next k p q hp hq).imp_right ?_
  rintro ⟨-, -, ⟨i, hi, hcalls⟩, m, -, j, hj, hmark⟩
  exact hfree ⟨j, List.mem_of_getElem? hj, hmark⟩ q i hi hcalls

section Sound

variable {strict : Prop} {Λ : Nat → Set Nat} {fn : Func} {live : Nat → Set Nat}

/-- Live sets for a whole function. -/
structure LiveSets (strict : Prop) (Λ : Nat → Set Nat) (fn : Func) (live : Nat → Set Nat) :
    Prop where
  start : live 0 = ∅
  stop : ∀ k, fn.code.length ≤ k → live k = ∅
  step : ∀ (k : Nat) i, fn.code[k]? = some i →
    StepOk Λ (dsts (fn.code.take k)) (live k) i (live (k + 1))
  use : ∀ (k : Nat) i, fn.code[k]? = some i → ∀ t, i.Uses t →
    t ∈ live k ∨ (¬ strict ∧ ReadsNext (fn.code.drop k) t)
  cover : ∀ (k : Nat) i, fn.code[k]? = some i → ∀ t ∈ live k, ∃ j ∈ fn.code.drop k, j.Names t
  temps : ∀ i ∈ fn.code, ∀ t, i.dst = some t → t < fn.ntemps

theorem Flow.liveSets (h : Flow strict Λ ∅ ∅ fn.code ∅)
    (htemps : ∀ i ∈ fn.code, ∀ t, i.dst = some t → t < fn.ntemps) :
    ∃ live, LiveSets strict Λ fn live := by
  obtain ⟨live, h0, hstop, hlive⟩ := h.exists_live
  refine ⟨live, h0, hstop, fun k i hk => ?_, fun k i hk => (hlive k i hk).2.1,
    fun k i hk t ht => ?_,
    htemps⟩
  · have hstep := (hlive k i hk).1
    rw [Set.empty_union] at hstep
    exact hstep
  · exact ((hlive k i hk).2.2 t ht).resolve_left (Set.notMem_empty t)

namespace LiveSets

variable (h : LiveSets strict Λ fn live)

include h

theorem lt_length (ht : t ∈ live k) : k < fn.code.length := by
  by_contra hk
  rw [h.stop k (Nat.le_of_not_lt hk)] at ht
  exact absurd ht (Set.notMem_empty t)

theorem known (hk : k ≤ fn.code.length) (ht : t ∈ live k) :
    t ∈ dsts (fn.code.take k) := by
  induction k generalizing t with
  | zero =>
    rw [h.start] at ht
    exact absurd ht (Set.notMem_empty t)
  | succ k ih =>
    have hi : fn.code[k]? = some fn.code[k] := List.getElem?_eq_getElem hk
    have htake : fn.code.take (k + 1) = fn.code.take k ++ [fn.code[k]] := by
      rw [List.take_add_one, hi, Option.toList_some]
    have hold : ∀ u ∈ dsts (fn.code.take k), u ∈ dsts (fn.code.take (k + 1)) := by
      rintro u ⟨i, hi, hu⟩
      rw [htake]
      exact ⟨i, List.mem_append_left _ hi, hu⟩
    obtain hprev | hdst := (h.step k _ hi).next t ht
    · split_ifs at hprev
      · exact hold t (ih (Nat.le_of_lt hk) hprev)
      · exact hold t hprev
    · rw [htake]
      exact ⟨_, List.mem_append_right _ (List.mem_singleton.2 rfl), hdst⟩

theorem sound : Sound (Edge fn.code) (Lands fn.code) (Defines fn.code) (fun p t => t ∈ live p)
    0 where
  start t := by
    rw [h.start]
    exact Set.notMem_empty t
  kept p q t hedge ht := by
    obtain ⟨i, hi, ⟨hfalls, rfl⟩ | ⟨l, htarget, hl⟩⟩ := hedge
    · have hnext := (h.step p i hi).next t ht
      rw [if_pos hfalls] at hnext
      exact hnext.imp_right fun hdst => ⟨i, hi, hdst⟩
    · obtain ⟨j, hj, hlabel⟩ := isLabel_of_findLabel hl
      exact .inl ((h.step p i hi).jump l htarget ((h.step q j hj).label l hlabel ht))
  made p q t hfresh hedge ht := by
    obtain ⟨⟨i, hi, hcalls⟩, hspan⟩ := hfresh
    obtain ⟨hfalls, htarget⟩ := i.falls_of_calls hcalls
    obtain ⟨i', hi', ⟨-, rfl⟩ | ⟨l, hl, -⟩⟩ := hedge
    · have hnext := (h.step p i hi).next t ht
      rw [if_pos hfalls] at hnext
      refine hnext.elim (fun hlive => ?_) fun hdst => ⟨i, hi, hdst⟩
      obtain ⟨hlt, -⟩ := List.getElem?_eq_some_iff.1 hi
      refine absurd ⟨t, h.known (Nat.le_of_lt hlt) hlive, ?_⟩ hspan
      exact h.cover (p + 1) _ (List.getElem?_eq_getElem (h.lt_length ht)) t ht
    · rw [hi] at hi'
      cases hi'
      rw [htarget] at hl
      cases hl

theorem inside {first last : Nat} {i : Insn} (hi : fn.code[p]? = some i) (ht : t ∈ live p)
    (hfirst : (ranges fn.ntemps fn.code).firstDef t = some first)
    (hlast : (ranges fn.ntemps fn.code).lastUse t = some last) : first ≤ p ∧ p ≤ last := by
  obtain ⟨hlt, -⟩ := List.getElem?_eq_some_iff.1 hi
  obtain ⟨q, j, hqp, hq, hdst⟩ := mem_dsts_take (h.known (Nat.le_of_lt hlt) ht)
  obtain ⟨j', hj', hnames⟩ := h.cover p i hi t ht
  obtain ⟨q', hpq', hq'⟩ := exists_of_mem_drop hj'
  have htemp : t < fn.ntemps := h.temps j (List.mem_of_getElem? hq) t hdst
  obtain ⟨d, hd, hdq⟩ := (ranges_spec htemp hq).1 hdst
  obtain ⟨u, hu, hqu⟩ := (ranges_spec htemp hq').2 hnames
  rw [hfirst] at hd
  rw [hlast] at hu
  cases hd
  cases hu
  omega

theorem definedBeforeUse {path : List Nat}
    (hpath : Path (Edge fn.code) (Lands fn.code) 0 path)
    (hbang : strict ∨ ∀ p ∈ path, ¬ BangAt fn.code p) : DefinedBeforeUse fn path := by
  intro j p i t hj hentered hi huse
  have hlive : t ∈ live p := by
    obtain ht | ⟨hstrict, hnext⟩ := h.use p i hi t huse
    · exact ht
    · obtain hs | hs := hbang
      · exact absurd hs hstrict
      · exact absurd ⟨t, hnext⟩ (hs p (List.mem_of_getElem? hj))
  obtain ⟨k, q, hkj, hq, hdef, hbetween⟩ := h.sound.exists_last_def hpath hj hlive hentered
  obtain ⟨i', hi', hdst⟩ := hdef
  have htemp : t < fn.ntemps := h.temps i' (List.mem_of_getElem? hi') t hdst
  obtain ⟨first, hfirst, hfq⟩ := (ranges_spec htemp hi').1 hdst
  obtain ⟨last, hlast, hql⟩ := (ranges_spec htemp hi').2 (.inl hdst)
  refine ⟨k, q, hkj, hq, ⟨i', hi', hdst⟩, ?_, first, last, hfirst, hlast, ?_⟩
  · intro m r hkm hmj hr
    exact (hbetween m r hkm (Nat.le_of_lt hmj) hr).2 hmj
  · intro m r hkm hmj hr
    by_cases hm : m = k
    · subst hm
      rw [hq] at hr
      cases hr
      exact ⟨hfq, hql⟩
    · have hr' := (hbetween m r (by omega) hmj hr).1
      exact h.inside (List.getElem?_eq_getElem (h.lt_length hr')) hr' hfirst hlast

end LiveSets

end Sound

/-! ## The converse -/

/-- The instruction before position `q` is a label. -/
def AfterLabel (seg : List Insn) (q : Nat) : Prop :=
  ∃ k j, q = k + 1 ∧ seg[k]? = some j ∧ j.op = .label

/-- Only behind labels does a piece of code define a temp more than once. -/
def Once (seg : List Insn) : Prop :=
  ∀ (q q' : Nat) i i' t, q < q' → seg[q]? = some i → seg[q']? = some i' → i.dst = some t →
    i'.dst = some t → AfterLabel seg q ∧ AfterLabel seg q'

theorem AfterLabel.append_left {seg : List Insn} (h : AfterLabel seg q) (seg' : List Insn) :
    AfterLabel (seg ++ seg') q := by
  obtain ⟨k, j, rfl, hk, hop⟩ := h
  refine ⟨k, j, rfl, ?_, hop⟩
  rw [List.getElem?_append_left (List.getElem?_eq_some_iff.1 hk).1, hk]

theorem AfterLabel.append_right {seg' : List Insn} (h : AfterLabel seg' q) (seg : List Insn) :
    AfterLabel (seg ++ seg') (seg.length + q) := by
  obtain ⟨k, j, rfl, hk, hop⟩ := h
  refine ⟨seg.length + k, j, rfl, ?_, hop⟩
  rw [List.getElem?_append_right (Nat.le_add_right _ _), Nat.add_sub_cancel_left, hk]

theorem Once.append {seg seg' : List Insn} (h : Once seg) (h' : Once seg')
    (hdisj : ∀ t, t ∈ dsts seg → t ∉ dsts seg') : Once (seg ++ seg') := by
  intro q q' i i' t hlt hq hq' hi hi'
  by_cases hleft' : q' < seg.length
  · rw [List.getElem?_append_left hleft'] at hq'
    rw [List.getElem?_append_left (by omega)] at hq
    obtain ⟨ha, ha'⟩ := h q q' i i' t hlt hq hq' hi hi'
    exact ⟨ha.append_left seg', ha'.append_left seg'⟩
  · rw [List.getElem?_append_right (by omega)] at hq'
    by_cases hleft : q < seg.length
    · rw [List.getElem?_append_left hleft] at hq
      exact absurd ⟨i', List.mem_of_getElem? hq', hi'⟩
        (hdisj t ⟨i, List.mem_of_getElem? hq, hi⟩)
    · rw [List.getElem?_append_right (by omega)] at hq
      obtain ⟨ha, ha'⟩ := h' (q - seg.length) (q' - seg.length) i i' t (by omega) hq hq' hi hi'
      have hsum : seg.length + (q - seg.length) = q := by omega
      have hsum' : seg.length + (q' - seg.length) = q' := by omega
      have hb := ha.append_right seg
      have hb' := ha'.append_right seg
      rw [hsum] at hb
      rw [hsum'] at hb'
      exact ⟨hb, hb'⟩

theorem once_single (i : Insn) : Once [i] := by
  intro q q' j j' t hlt hq hq'
  have := (List.getElem?_eq_some_iff.1 hq').1
  simp at this
  omega

theorem readsNext_drop {code : List Insn} (h : ReadsNext (code.drop p) t) :
    ∃ i j, code[p]? = some i ∧ code[p + 1]? = some j ∧ i.op = .cmpeq ∧ i.b = some t ∧
      j.op = .lic ∧ j.dst = some t := by
  match hd : code.drop p, h with
  | i :: j :: rest, h =>
    refine ⟨i, j, ?_, ?_, h⟩
    · have hi := congrArg (fun l => l[0]?) hd
      simpa using hi
    · have hj := congrArg (fun l => l[1]?) hd
      simpa using hj

theorem Once.defines_next {code : List Insn} (h : Once code) (hnext : ReadsNext (code.drop p) t)
    (hq : Defines code q t) : q = p + 1 := by
  obtain ⟨i, j, hi, hj, hcmp, -, -, hdst⟩ := readsNext_drop hnext
  obtain ⟨i', hi', hdst'⟩ := hq
  -- the instruction before the constant is the comparison, so no label stands there
  have hlabel : ¬ AfterLabel code (p + 1) := by
    rintro ⟨k, j', hk, hj', hop⟩
    cases hk
    rw [hi] at hj'
    cases hj'
    rw [hcmp] at hop
    cases hop
  obtain hlt | heq | hgt := Nat.lt_trichotomy q (p + 1)
  · exact absurd (h q (p + 1) i' j t hlt hi' hj hdst' hdst).2 hlabel
  · exact heq
  · exact absurd (h (p + 1) q j i' t hgt hj hi' hdst hdst').1 hlabel

theorem not_definedBeforeUse {fn : Func} (honce : Once fn.code) {path : List Nat}
    (hpath : Execution fn.code path) (hp : p ∈ path) (hbang : BangAt fn.code p) :
    ¬ DefinedBeforeUse fn path := by
  classical
  intro h
  have hex : ∃ j : Nat, ∃ p, path[j]? = some p ∧ BangAt fn.code p := by
    obtain ⟨j, hj⟩ := List.getElem?_of_mem hp
    exact ⟨j, p, hj, hbang⟩
  obtain ⟨p, hj, t, hnext⟩ := Nat.find_spec hex
  obtain ⟨i, j, hi, hjnext, hcmp, hb, hlic, -⟩ := readsNext_drop hnext
  have hentered : Entered (Edge fn.code) path (Nat.find hex) := fun k q r hk hq hr => by
    rw [← hk] at hj hr
    rw [hj] at hr
    cases hr
    exact (hpath.next k q p hq hj).resolve_right fun hre => hre.not_at hi (by rw [hcmp]; rfl)
  obtain ⟨k, q, hk, hq, hdef, -⟩ := h _ p i t hj hentered hi (.inr hb)
  obtain rfl := honce.defines_next hnext hdef
  cases k with
  | zero =>
    have hstart := hpath.head
    rw [List.head?_eq_getElem?, hq] at hstart
    cases hstart
  | succ k =>
    obtain ⟨hlt, -⟩ := List.getElem?_eq_some_iff.1 hq
    have hprev : path[k]? = some path[k] := List.getElem?_eq_getElem (by omega)
    obtain ⟨i', -, ⟨-, hfall⟩ | ⟨l, -, hl⟩⟩ := (hpath.next k _ _ hprev hq).resolve_right
      fun hre => hre.not_at hjnext (by rw [hlic]; rfl)
    · have hpk : path[k] = p := by omega
      rw [hpk] at hprev
      exact Nat.find_min hex (Nat.lt_of_succ_lt hk) ⟨p, hprev, t, hnext⟩
    · obtain ⟨j', hj', hop, -⟩ := isLabel_of_findLabel hl
      rw [hjnext] at hj'
      cases hj'
      rw [hlic] at hop
      cases hop

end MechanicalResearcher.PortableCompiler
