import Mathlib.Data.Finset.Card
import Mathlib.Data.Finset.Dedup
import MechanicalResearcher.PortableCompiler.Gc

/-!
# What a collection keeps

`objs` is the list that hangs on `h->all`.  During the mark phase the heap is the heap at the
start with other marks (`remark`), and the sweep walks down `objs`.
-/

namespace MechanicalResearcher.PortableCompiler.Gc

open Relation Lib.Marking

variable {p : Option Nat} {a : Nat} {M : Nat → Bool} {o : GcObj} {pp : Link}

/-- An immediate, or a pointer to one of the objects. -/
def Valid (objs : List Nat) (v : Val) : Prop := ∀ a, v = .ptr a → a ∈ objs

/-- The objects from `p` on along `next`. -/
def Linked (mem : Nat → Option GcObj) : Option Nat → List Nat → Prop
  | p, [] => p = none
  | p, a :: objs => p = some a ∧ ∃ o, mem a = some o ∧ Linked mem o.next objs

structure Heap.Ok (h : Heap) (objs : List Nat) : Prop where
  linked : Linked h.mem h.all objs
  nodup : objs.Nodup
  marks : ∀ a ∈ objs, ∀ o, h.mem a = some o → o.mark = false
  fields : ∀ a ∈ objs, ∀ o, h.mem a = some o → ∀ v ∈ o.obj.fields, Valid objs v
  count : h.count = objs.length
  owned : ∀ a o, h.mem a = some o → a ∈ objs
  fresh : ∀ a ∈ objs, a < h.fresh
  freed : ∀ a ∈ h.freed, h.mem a = none ∧ a < h.fresh

/-- Every root cell holds a value that is immediate or points to an object. -/
def RootsOk (roots : List (Option Val)) (objs : List Nat) : Prop :=
  ∀ c ∈ roots, ∃ v, c = some v ∧ Valid objs v

/-- The same of the cells that were assigned. -/
def CellsOk (roots : List (Option Val)) (objs : List Nat) : Prop :=
  ∀ v, some v ∈ roots → Valid objs v

theorem RootsOk.cells {roots : List (Option Val)} {objs : List Nat} (h : RootsOk roots objs) :
    CellsOk roots objs := by
  intro v hv
  obtain ⟨w, hw, hvalid⟩ := h (some v) hv
  cases hw
  exact hvalid

theorem CellsOk.roots {roots : List (Option Val)} {objs : List Nat} (h : CellsOk roots objs)
    (hnone : none ∉ roots) : RootsOk roots objs := by
  intro c hc
  cases c with
  | none => exact absurd hc hnone
  | some v => exact ⟨v, rfl, h v hc⟩

/-- A field of the object `a` points to `b`. -/
def edge (mem : Nat → Option GcObj) (a b : Nat) : Prop :=
  ∃ o, mem a = some o ∧ Val.ptr b ∈ o.obj.fields

/-- A pointer to `a` is in a root cell, or in a field of a reachable object. -/
def Reachable (h : Heap) (a : Nat) : Prop :=
  ∃ r, some (Val.ptr r) ∈ h.roots ∧ ReflTransGen (edge h.mem) r a

theorem Linked.mem_some {mem : Nat → Option GcObj} {objs : List Nat} (h : Linked mem p objs)
    (ha : a ∈ objs) : ∃ o, mem a = some o := by
  induction objs generalizing p with
  | nil => cases ha
  | cons b objs ih =>
    obtain ⟨-, o, ho, htail⟩ := h
    obtain rfl | ha := List.mem_cons.1 ha
    · exact ⟨o, ho⟩
    · exact ih htail ha

theorem Linked.congr {mem mem' : Nat → Option GcObj} {objs : List Nat} (h : Linked mem p objs)
    (hmem : ∀ a ∈ objs, (mem' a).map GcObj.next = (mem a).map GcObj.next) :
    Linked mem' p objs := by
  induction objs generalizing p with
  | nil => exact h
  | cons a objs ih =>
    obtain ⟨hp, o, ho, htail⟩ := h
    have ha := hmem a List.mem_cons_self
    rw [ho, Option.map_some, Option.map_eq_some_iff] at ha
    obtain ⟨o', ho', hnext⟩ := ha
    refine ⟨hp, o', ho', ?_⟩
    rw [hnext]
    exact ih htail fun b hb => hmem b (List.mem_cons_of_mem a hb)

/-! ## Mark phase -/

/-- The heap with the marks `M`. -/
def Heap.remark (h : Heap) (M : Nat → Bool) : Heap :=
  { h with mem := fun a => (h.mem a).map fun o => { o with mark := M a } }

theorem remark_mem {h : Heap} (ho : h.mem a = some o) :
    (h.remark M).mem a = some { o with mark := M a } := by
  simp [Heap.remark, ho]

theorem remark_put {h : Heap} (ho : h.mem a = some o) (m : Bool) :
    (h.remark M).put a { o with mark := m } = h.remark (Function.update M a m) := by
  simp only [Heap.remark, Heap.put, Heap.mk.injEq, and_true]
  funext b
  by_cases hb : b = a
  · subst hb
    simp [ho]
  · simp [hb]

/-- How many objects have no mark yet; the recursion of `mark_val` is no deeper. -/
def unmarked (objs : List Nat) (M : Nat → Bool) : Nat :=
  (objs.toFinset.filter fun a => M a = false).card

theorem unmarked_le {objs : List Nat} {M' : Nat → Bool} (h : ∀ a, M a = true → M' a = true) :
    unmarked objs M' ≤ unmarked objs M := by
  refine Finset.card_le_card fun a ha => ?_
  simp only [Finset.mem_filter, List.mem_toFinset] at ha ⊢
  refine ⟨ha.1, ?_⟩
  cases hM : M a with
  | false => rfl
  | true =>
    have hM' := h a hM
    rw [ha.2] at hM'
    cases hM'

theorem unmarked_update_lt {objs : List Nat} (ha : a ∈ objs) (hM : M a = false) :
    unmarked objs (Function.update M a true) < unmarked objs M := by
  refine Finset.card_lt_card (Finset.ssubset_iff_of_subset ?_ |>.2 ⟨a, ?_, ?_⟩)
  · intro b hb
    simp only [Finset.mem_filter, List.mem_toFinset] at hb ⊢
    refine ⟨hb.1, ?_⟩
    by_cases hba : b = a
    · subst hba
      exact hM
    · simpa [hba] using hb.2
  · simp [ha, hM]
  · simp

section Mark

variable {h : Heap} {objs : List Nat}
  (hobjs : ∀ a ∈ objs, ∃ o, h.mem a = some o ∧ ∀ v ∈ o.obj.fields, Valid objs v)

theorem markVals_spec {fuel : Nat}
    (hval : ∀ v M, Valid objs v → unmarked objs M < fuel → ∃ M',
      markVal fuel v (h.remark M) = .ok (h.remark M') ∧
      Marked (edge h.mem) {a | v = .ptr a} {a | M a = true} {a | M' a = true})
    (vs : List Val) (M : Nat → Bool) (hvs : ∀ v ∈ vs, Valid objs v)
    (hfuel : unmarked objs M < fuel) : ∃ M', markVals fuel vs (h.remark M) = .ok (h.remark M') ∧
      Marked (edge h.mem) {a | Val.ptr a ∈ vs} {a | M a = true} {a | M' a = true} := by
  induction vs generalizing M with
  | nil => exact ⟨M, by rw [markVals], .refl (by simp)⟩
  | cons v vs ih =>
    obtain ⟨M1, hM1, hmarked1⟩ := hval v M (hvs v List.mem_cons_self) hfuel
    have hle : unmarked objs M1 ≤ unmarked objs M := unmarked_le fun a ha => hmarked1.mono ha
    obtain ⟨M2, hM2, hmarked2⟩ := ih M1 (fun w hw => hvs w (List.mem_cons_of_mem v hw)) (by omega)
    refine ⟨M2, ?_, ?_⟩
    · rw [markVals, hM1]
      exact hM2
    · have hstarts : {a | Val.ptr a ∈ v :: vs} = {a | v = .ptr a} ∪ {a | Val.ptr a ∈ vs} := by
        ext a
        simp [eq_comm]
      rw [hstarts]
      exact hmarked1.trans hmarked2

include hobjs in
theorem markVal_spec (fuel : Nat) (v : Val) (M : Nat → Bool) (hv : Valid objs v)
    (hfuel : unmarked objs M < fuel) : ∃ M', markVal fuel v (h.remark M) = .ok (h.remark M') ∧
      Marked (edge h.mem) {a | v = .ptr a} {a | M a = true} {a | M' a = true} := by
  induction fuel generalizing v M with
  | zero => omega
  | succ fuel ih =>
    cases v with
    | nil => exact ⟨M, by rw [markVal]; simp, .refl (by simp)⟩
    | fix n => exact ⟨M, by rw [markVal]; simp, .refl (by simp)⟩
    | bool b => exact ⟨M, by rw [markVal]; simp, .refl (by simp)⟩
    | ptr a =>
      have ha : a ∈ objs := hv a rfl
      obtain ⟨o, ho, hfields⟩ := hobjs a ha
      rw [markVal, remark_mem ho]
      simp only
      cases hM : M a with
      | true => exact ⟨M, by simp, .refl (by simpa using hM)⟩
      | false =>
        have hlt := unmarked_update_lt ha hM
        obtain ⟨M', hM', hmarked⟩ := markVals_spec ih o.obj.fields
          (Function.update M a true) hfields (by omega)
        refine ⟨M', ?_, ?_⟩
        · rw [← remark_put ho true] at hM'
          simpa using hM'
        · have hstart : {b | edge h.mem a b} = {b | Val.ptr b ∈ o.obj.fields} := by
            ext b
            simp [edge, ho]
          have hmarks : {b | Function.update M a true b = true} = insert a {b | M b = true} := by
            ext b
            by_cases hba : b = a <;> simp [hba]
          rw [← hstart, hmarks] at hmarked
          have hself : {b | Val.ptr a = .ptr b} = {a} := by
            ext b
            simp only [Val.ptr.injEq, Set.mem_ofPred_eq, Set.mem_singleton_iff]
            exact eq_comm
          rw [hself]
          exact hmarked.node

end Mark

/-! ## Sweep -/

def Heap.marked (h : Heap) (a : Nat) : Bool :=
  match h.mem a with
  | some o => o.mark
  | none => false

/-- What the sweep below `pp` does, where the list `objs` begins. -/
structure Swept (h : Heap) (objs : List Nat) (pp : Link) (h' : Heap) : Prop where
  follow : ∃ p, h'.follow pp = .ok p ∧ Linked h'.mem p (objs.filter h.marked)
  freed : h'.freed = h.freed ++ objs.filter (fun a => !h.marked a)
  count : h'.count = h.count - (objs.filter (fun a => !h.marked a)).length
  kept : ∀ a ∈ objs, h.marked a = true →
    ∃ o o', h.mem a = some o ∧ h'.mem a = some o' ∧ o'.obj = o.obj ∧ o'.mark = false
  dropped : ∀ a ∈ objs, h.marked a = false → h'.mem a = none
  other : ∀ a, a ∉ objs → pp ≠ .next a → h'.mem a = h.mem a
  owner : ∀ a, pp = .next a → ∃ o o', h.mem a = some o ∧ h'.mem a = some o' ∧ o'.obj = o.obj ∧
    o'.mark = o.mark
  all : pp ≠ .all → h'.all = h.all
  roots : h'.roots = h.roots
  fresh : h'.fresh = h.fresh
  mallocs : h'.mallocs = h.mallocs

theorem Swept.nil {h : Heap} {pp : Link} (hfollow : h.follow pp = .ok none) : Swept h [] pp h where
  follow := ⟨none, hfollow, rfl⟩
  freed := by simp
  count := by simp
  kept := by simp
  dropped := by simp
  other _ _ _ := rfl
  owner a hpp := by
    subst hpp
    simp only [Heap.follow] at hfollow
    split at hfollow
    · cases hfollow
    · exact ⟨_, _, ‹_›, ‹_›, rfl, rfl⟩
  all _ := rfl
  roots := rfl
  fresh := rfl
  mallocs := rfl

theorem Swept.keep {h h' : Heap} {objs : List Nat} (hfollow : h.follow pp = .ok (some a))
    (ho : h.mem a = some o) (hmark : o.mark = true) (hnew : a ∉ objs)
    (hpp : ∀ b, pp = .next b → b ∉ a :: objs)
    (hs : Swept (h.put a { o with mark := false }) objs (.next a) h') :
    Swept h (a :: objs) pp h' := by
  have hput : ∀ b, b ≠ a → (h.put a { o with mark := false }).mem b = h.mem b := by
    intro b hb
    simp [Heap.put, hb]
  have hmarked : ∀ b ∈ objs, (h.put a { o with mark := false }).marked b = h.marked b := by
    intro b hb
    unfold Heap.marked
    rw [hput b (by rintro rfl; exact hnew hb)]
  have ha : h.marked a = true := by simp [Heap.marked, ho, hmark]
  have hfilter : objs.filter (h.put a { o with mark := false }).marked = objs.filter h.marked :=
    List.filter_congr hmarked
  have hfilter' : objs.filter (fun b => !(h.put a { o with mark := false }).marked b) =
      objs.filter (fun b => !h.marked b) :=
    List.filter_congr fun b hb => by rw [hmarked b hb]
  obtain ⟨o1, o', ho1, ho', hobj, hmark'⟩ := hs.owner a rfl
  have hall : h'.all = h.all := hs.all (by simp)
  constructor
  case follow =>
    obtain ⟨p, hp, hlinked⟩ := hs.follow
    rw [hfilter] at hlinked
    refine ⟨some a, ?_, ?_⟩
    · cases pp with
      | all =>
        simp only [Heap.follow] at hfollow ⊢
        rw [hall]
        exact hfollow
      | next b =>
        obtain ⟨hba, hb⟩ := not_or.1 (List.mem_cons.not.1 (hpp b rfl))
        have hmem : h'.mem b = h.mem b :=
          (hs.other b hb (by simpa using Ne.symm hba)).trans (hput b hba)
        simp only [Heap.follow, hmem] at hfollow ⊢
        exact hfollow
    · rw [List.filter_cons_of_pos ha]
      simp only [Heap.follow, ho'] at hp
      cases hp
      exact ⟨rfl, o', ho', hlinked⟩
  case freed => rw [hs.freed, hfilter', List.filter_cons_of_neg (by simp [ha])]; rfl
  case count => rw [hs.count, hfilter', List.filter_cons_of_neg (by simp [ha])]; rfl
  case kept =>
    intro b hb hmb
    obtain rfl | hb' := List.mem_cons.1 hb
    · refine ⟨o, o', ho, ho', ?_, ?_⟩
      · rw [hobj]
        simp only [Heap.put, Function.update_self] at ho1
        cases ho1
        rfl
      · rw [hmark']
        simp only [Heap.put, Function.update_self] at ho1
        cases ho1
        rfl
    · have hba : b ≠ a := by
        rintro rfl
        exact hnew hb'
      have hkept := hs.kept b hb' ((hmarked b hb').trans hmb)
      rw [hput b hba] at hkept
      exact hkept
  case dropped =>
    intro b hb hmb
    obtain rfl | hb := List.mem_cons.1 hb
    · rw [ha] at hmb
      cases hmb
    · exact hs.dropped b hb ((hmarked b hb).trans hmb)
  case other =>
    intro b hb hpb
    obtain ⟨hba, hb⟩ := not_or.1 (List.mem_cons.not.1 hb)
    exact (hs.other b hb (by simpa using Ne.symm hba)).trans (hput b hba)
  case owner =>
    rintro b rfl
    obtain ⟨hba, hb⟩ := not_or.1 (List.mem_cons.not.1 (hpp b rfl))
    have hmem : h'.mem b = h.mem b :=
      (hs.other b hb (by simpa using Ne.symm hba)).trans (hput b hba)
    simp only [Heap.follow] at hfollow
    split at hfollow
    · cases hfollow
    · next ob hob => exact ⟨ob, ob, hob, hmem.trans hob, rfl, rfl⟩
  case all => exact fun _ => hall
  case roots => exact hs.roots
  case fresh => exact hs.fresh
  case mallocs => exact hs.mallocs

/-- The heap after an object without a mark was unlinked and freed. -/
def Heap.unlink (h : Heap) (pp : Link) (a : Nat) (o : GcObj) : Heap :=
  { (h.setLink pp o.next).free a with count := h.count - 1 }

theorem unlink_mem {h : Heap} {b : Nat} (hb : b ≠ a) (hpp : pp ≠ .next b) :
    (h.unlink pp a o).mem b = h.mem b := by
  cases pp with
  | all => simp [Heap.unlink, Heap.setLink, Heap.free, hb]
  | next c =>
    have hbc : b ≠ c := fun h => hpp (by rw [h])
    simp [Heap.unlink, Heap.setLink, Heap.free, hb, hbc]

theorem unlink_owner {h : Heap} {b : Nat} {ob : GcObj} (hb : b ≠ a) (hob : h.mem b = some ob) :
    (h.unlink (.next b) a o).mem b = some { ob with next := o.next } := by
  simp [Heap.unlink, Heap.setLink, Heap.free, hb, hob]

theorem unlink_self {h : Heap} :
    (h.unlink pp a o).mem a = none := by
  cases pp <;> simp [Heap.unlink, Heap.setLink, Heap.free]

theorem unlink_freed {h : Heap} :
    (h.unlink pp a o).freed = h.freed ++ [a] := by
  cases pp <;> rfl

theorem Swept.drop {h h' : Heap} {objs : List Nat} (hfollow : h.follow pp = .ok (some a))
    (ho : h.mem a = some o) (hmark : o.mark = false) (hnew : a ∉ objs)
    (hpp : ∀ b, pp = .next b → b ∉ a :: objs) (hs : Swept (h.unlink pp a o) objs pp h') :
    Swept h (a :: objs) pp h' := by
  have hnext : ∀ b ∈ objs, pp ≠ .next b := by
    rintro b hb rfl
    exact hpp b rfl (List.mem_cons_of_mem a hb)
  have hmem : ∀ b ∈ objs, (h.unlink pp a o).mem b = h.mem b := by
    intro b hb
    refine unlink_mem ?_ (hnext b hb)
    rintro rfl
    exact hnew hb
  have hmarked : ∀ b ∈ objs, (h.unlink pp a o).marked b = h.marked b := by
    intro b hb
    unfold Heap.marked
    rw [hmem b hb]
  have ha : h.marked a = false := by simp [Heap.marked, ho, hmark]
  have hfilter : objs.filter (h.unlink pp a o).marked = objs.filter h.marked :=
    List.filter_congr hmarked
  have hfilter' : objs.filter (fun b => !(h.unlink pp a o).marked b) =
      objs.filter (fun b => !h.marked b) :=
    List.filter_congr fun b hb => by rw [hmarked b hb]
  have hcons : (a :: objs).filter (fun b => !h.marked b) = a :: objs.filter fun b => !h.marked b :=
    List.filter_cons_of_pos (by simp [ha])
  have hpa : pp ≠ .next a := fun h => hpp a h List.mem_cons_self
  constructor
  case follow =>
    rw [List.filter_cons_of_neg (by simp [ha]), ← hfilter]
    exact hs.follow
  case freed => rw [hs.freed, hfilter', hcons, unlink_freed, List.append_assoc,
    List.singleton_append]
  case count =>
    rw [hs.count, hfilter', hcons, List.length_cons]
    show h.count - 1 - _ = _
    push_cast
    omega
  case kept =>
    intro b hb hmb
    obtain rfl | hb' := List.mem_cons.1 hb
    · rw [ha] at hmb
      cases hmb
    · have hkept := hs.kept b hb' ((hmarked b hb').trans hmb)
      rw [hmem b hb'] at hkept
      exact hkept
  case dropped =>
    intro b hb hmb
    obtain rfl | hb' := List.mem_cons.1 hb
    · rw [hs.other b hnew hpa, unlink_self]
    · exact hs.dropped b hb' ((hmarked b hb').trans hmb)
  case other =>
    intro b hb hpb
    obtain ⟨hba, hb⟩ := not_or.1 (List.mem_cons.not.1 hb)
    exact (hs.other b hb hpb).trans (unlink_mem hba hpb)
  case owner =>
    rintro b rfl
    obtain ⟨hba, hb⟩ := not_or.1 (List.mem_cons.not.1 (hpp b rfl))
    obtain ⟨o1, o', ho1, ho', hobj, hmark'⟩ := hs.owner b rfl
    simp only [Heap.follow] at hfollow
    split at hfollow
    · cases hfollow
    · next ob hob =>
        rw [unlink_owner hba hob] at ho1
        cases ho1
        exact ⟨ob, o', hob, ho', hobj, hmark'⟩
  case all =>
    intro hne
    rw [hs.all hne]
    cases pp with
    | all => exact absurd rfl hne
    | next b => rfl
  case roots =>
    rw [hs.roots]
    cases pp <;> rfl
  case fresh =>
    rw [hs.fresh]
    cases pp <;> rfl
  case mallocs =>
    rw [hs.mallocs]
    cases pp <;> rfl

theorem sweep_spec {objs : List Nat} {fuel : Nat} {h : Heap} (hfuel : objs.length < fuel)
    (hfollow : h.follow pp = .ok p) (hlinked : Linked h.mem p objs) (hnodup : objs.Nodup)
    (hpp : ∀ b, pp = .next b → b ∉ objs) :
    ∃ h', sweep fuel pp h = .ok h' ∧ Swept h objs pp h' := by
  induction objs generalizing fuel pp p h with
  | nil =>
    cases fuel with
    | zero => cases hfuel
    | succ fuel =>
      cases hlinked
      refine ⟨h, ?_, .nil hfollow⟩
      rw [sweep, hfollow]
  | cons a objs ih =>
    cases fuel with
    | zero => cases hfuel
    | succ fuel =>
      obtain ⟨rfl, o, ho, htail⟩ := hlinked
      obtain ⟨hnew, hnodup⟩ := List.nodup_cons.1 hnodup
      have hfuel : objs.length < fuel := Nat.lt_of_succ_lt_succ hfuel
      cases hmark : o.mark with
      | true =>
        have hlink : Linked (h.put a { o with mark := false }).mem o.next objs := by
          refine htail.congr fun b hb => ?_
          have hba : b ≠ a := by
            rintro rfl
            exact hnew hb
          simp [Heap.put, hba]
        have hnext : (h.put a { o with mark := false }).follow (.next a) = .ok o.next := by
          simp [Heap.follow, Heap.put]
        obtain ⟨h', hrun, hs⟩ := ih hfuel hnext hlink hnodup fun b hb => by
          cases hb
          exact hnew
        refine ⟨h', ?_, .keep hfollow ho hmark hnew hpp hs⟩
        rw [sweep, hfollow]
        simp only [ho, hmark, if_true]
        exact hrun
      | false =>
        have hnext : ∀ b ∈ objs, (h.unlink pp a o).mem b = h.mem b := by
          intro b hb
          refine unlink_mem ?_ ?_
          · rintro rfl
            exact hnew hb
          · rintro rfl
            exact hpp b rfl (List.mem_cons_of_mem a hb)
        have hfollow' : (h.unlink pp a o).follow pp = .ok o.next := by
          cases pp with
          | all => rfl
          | next b =>
            obtain ⟨hba, -⟩ := not_or.1 (List.mem_cons.not.1 (hpp b rfl))
            simp only [Heap.follow] at hfollow ⊢
            split at hfollow
            · cases hfollow
            · next ob hob => rw [unlink_owner hba hob]
        obtain ⟨h', hrun, hs⟩ := ih hfuel hfollow'
          (htail.congr fun b hb => by rw [hnext b hb]) hnodup
          fun b hb hmem => hpp b hb (List.mem_cons_of_mem a hmem)
        refine ⟨h', ?_, .drop hfollow ho hmark hnew hpp hs⟩
        rw [sweep, hfollow]
        simp only [ho, hmark, Bool.false_eq_true, if_false]
        have hunlink : h.unlink pp a o = { (h.setLink pp o.next).free a with
            count := ((h.setLink pp o.next).free a).count - 1 } := by
          cases pp <;> rfl
        rw [← hunlink]
        exact hrun

/-! ## Collection -/

/-- What a collection does to a heap with the objects `objs`; `kept` are the objects after it. -/
structure Collected (h : Heap) (objs : List Nat) (h' : Heap) (kept : List Nat) : Prop where
  ok : h'.Ok kept
  order : kept.Sublist objs
  reachable : ∀ a, a ∈ kept ↔ Reachable h a
  freed : ∃ dropped, h'.freed = h.freed ++ dropped ∧ dropped.Nodup ∧
    ∀ a, a ∈ dropped ↔ a ∈ objs ∧ ¬ Reachable h a
  contents : ∀ a ∈ kept, ∃ o o', h.mem a = some o ∧ h'.mem a = some o' ∧ o'.obj = o.obj
  roots : h'.roots = h.roots
  fresh : h'.fresh = h.fresh
  mallocs : h'.mallocs = h.mallocs

theorem readRoots_ok {cells : List (Option Val)} {objs : List Nat} (h : RootsOk cells objs) :
    ∃ vs, readRoots cells = .ok vs ∧ (∀ v, v ∈ vs ↔ some v ∈ cells) := by
  induction cells with
  | nil => exact ⟨[], rfl, by simp⟩
  | cons c cells ih =>
    obtain ⟨v, rfl, -⟩ := h c List.mem_cons_self
    obtain ⟨vs, hvs, hmem⟩ := ih fun c hc => h c (List.mem_cons_of_mem _ hc)
    refine ⟨v :: vs, ?_, ?_⟩
    · rw [readRoots, hvs]
    · intro w
      simp [hmem]

theorem Heap.Ok.remark_false {h : Heap} {objs : List Nat} (ok : h.Ok objs) :
    h.remark (fun _ => false) = h := by
  have hmem : (h.remark fun _ => false).mem = h.mem := by
    funext a
    cases ho : h.mem a with
    | none => simp [Heap.remark, ho]
    | some o =>
      rw [remark_mem ho, ← ok.marks a (ok.owned a o ho) o ho]
  calc h.remark (fun _ => false) = { h with mem := (h.remark fun _ => false).mem } := rfl
    _ = h := by rw [hmem]

theorem Heap.Ok.mark {h : Heap} {objs : List Nat} (ok : h.Ok objs) (hroots : RootsOk h.roots objs)
    {fuel : Nat} (hfuel : objs.length < fuel) : ∃ vs M, readRoots h.roots.reverse = .ok vs ∧
      markVals fuel vs h = .ok (h.remark M) ∧ ∀ a, M a = true ↔ Reachable h a := by
  have hobjs : ∀ a ∈ objs, ∃ o, h.mem a = some o ∧ ∀ v ∈ o.obj.fields, Valid objs v := by
    intro a ha
    obtain ⟨o, ho⟩ := ok.linked.mem_some ha
    exact ⟨o, ho, ok.fields a ha o ho⟩
  have hcells : RootsOk h.roots.reverse objs := fun c hc => hroots c (List.mem_reverse.1 hc)
  obtain ⟨vs, hvs, hmem⟩ := readRoots_ok hcells
  have hvalid : ∀ v ∈ vs, Valid objs v := by
    intro v hv
    obtain ⟨w, hw, hvalid⟩ := hroots (some v) (List.mem_reverse.1 ((hmem v).1 hv))
    cases hw
    exact hvalid
  have hcard : unmarked objs (fun _ => false) ≤ objs.length :=
    (Finset.card_filter_le _ _).trans (List.toFinset_card_le objs)
  obtain ⟨M, hM, hmarked⟩ := markVals_spec (markVal_spec hobjs fuel) vs
    (fun _ => false) hvalid (Nat.lt_of_le_of_lt hcard hfuel)
  rw [ok.remark_false] at hM
  refine ⟨vs, M, hvs, hM, fun a => ?_⟩
  have hempty : {a : Nat | (fun _ => false) a = true} = (∅ : Set Nat) := by simp
  rw [hempty] at hmarked
  refine (hmarked.mem_iff (a := a)).trans ?_
  simp only [Reachable, Set.mem_ofPred_eq, hmem, List.mem_reverse]

theorem Heap.Ok.mem_of_reachable {h : Heap} {objs : List Nat} (ok : h.Ok objs)
    (hcells : CellsOk h.roots objs) (ha : Reachable h a) : a ∈ objs := by
  obtain ⟨r, hr, hra⟩ := ha
  induction hra with
  | refl => exact hcells _ hr r rfl
  | tail _ hbc ih =>
    obtain ⟨o, ho, hc⟩ := hbc
    exact ok.fields _ ih o ho _ hc _ rfl

theorem gcCollect_spec {h : Heap} {objs : List Nat} (ok : h.Ok objs) (hroots : RootsOk h.roots objs)
    {fuel : Nat} (hfuel : objs.length < fuel) :
    ∃ h' kept, gcCollect fuel h = .ok h' ∧ Collected h objs h' kept := by
  obtain ⟨vs, M, hvs, hM, hreach⟩ := ok.mark hroots hfuel
  have hlinked : Linked (h.remark M).mem h.all objs := by
    refine ok.linked.congr fun a _ => ?_
    simp [Heap.remark, Function.comp_def]
  have hall : (h.remark M).follow .all = .ok h.all := rfl
  obtain ⟨h2, hsweep, hs⟩ := sweep_spec hfuel hall hlinked ok.nodup (by simp)
  have hmarked : ∀ a ∈ objs, (h.remark M).marked a = M a := by
    intro a ha
    obtain ⟨o, ho⟩ := ok.linked.mem_some ha
    simp [Heap.marked, remark_mem ho]
  have hin : ∀ a, Reachable h a → a ∈ objs := fun a ha =>
    ok.mem_of_reachable hroots.cells ha
  have hkept : ∀ a, a ∈ objs.filter (h.remark M).marked ↔ Reachable h a := by
    intro a
    rw [List.mem_filter]
    constructor
    · rintro ⟨ha, hm⟩
      rw [hmarked a ha] at hm
      exact (hreach a).1 hm
    · intro ha
      refine ⟨hin a ha, ?_⟩
      rw [hmarked a (hin a ha)]
      exact (hreach a).2 ha
  have hcontents : ∀ a ∈ objs.filter (h.remark M).marked,
      ∃ o o', h.mem a = some o ∧ h2.mem a = some o' ∧ o'.obj = o.obj ∧ o'.mark = false := by
    intro a ha
    obtain ⟨ha, hm⟩ := List.mem_filter.1 ha
    obtain ⟨o, ho⟩ := ok.linked.mem_some ha
    obtain ⟨o1, o', ho1, ho', hobj, hmark⟩ := hs.kept a ha hm
    rw [remark_mem ho] at ho1
    cases ho1
    exact ⟨o, o', ho, ho', hobj, hmark⟩
  have hlength : (objs.length : Int) = (objs.filter (h.remark M).marked).length +
      (objs.filter fun a => !(h.remark M).marked a).length := by
    have hsum := List.length_eq_length_filter_add (l := objs) (h.remark M).marked
    omega
  refine ⟨adjustThreshold h2, objs.filter (h.remark M).marked, ?_, ?_, List.filter_sublist, hkept,
    ⟨objs.filter fun a => !(h.remark M).marked a, hs.freed, ok.nodup.filter _, fun a => ?_⟩,
    fun a ha => ?_, hs.roots, hs.fresh, hs.mallocs⟩
  · simp only [gcCollect, hvs, hM, hsweep, bind, Except.bind, pure, Except.pure]
  · constructor
    case linked =>
      obtain ⟨p, hp, hl⟩ := hs.follow
      cases hp
      exact hl
    case nodup => exact ok.nodup.filter _
    case marks =>
      intro a ha o ho
      obtain ⟨_, o', -, ho', -, hmark⟩ := hcontents a ha
      rw [show h2.mem a = some o from ho] at ho'
      cases ho'
      exact hmark
    case fields =>
      intro a ha o ho v hv b hb
      obtain ⟨o1, o', ho1, ho', hobj, -⟩ := hcontents a ha
      rw [show h2.mem a = some o from ho] at ho'
      cases ho'
      rw [hobj] at hv
      subst hb
      obtain ⟨r, hr, hra⟩ := (hkept a).1 ha
      exact (hkept b).2 ⟨r, hr, hra.tail ⟨o1, ho1, hv⟩⟩
    case count =>
      show h2.count = _
      have hcount := ok.count
      rw [hs.count]
      show h.count - _ = _
      omega
    case owned =>
      intro a o ho
      by_cases ha : a ∈ objs
      · by_cases hm : (h.remark M).marked a = true
        · exact List.mem_filter.2 ⟨ha, hm⟩
        · have hnone := hs.dropped a ha (by simpa using hm)
          rw [show h2.mem a = some o from ho] at hnone
          cases hnone
      · have hold := hs.other a ha (by simp)
        rw [show h2.mem a = some o from ho] at hold
        cases hmem : h.mem a with
        | none => simp [Heap.remark, hmem] at hold
        | some o' => exact absurd (ok.owned a o' hmem) ha
    case fresh =>
      intro a ha
      show a < h2.fresh
      rw [hs.fresh]
      exact ok.fresh a (List.mem_filter.1 ha).1
    case freed =>
      intro a ha
      change a ∈ h2.freed at ha
      show h2.mem a = none ∧ a < h2.fresh
      rw [hs.freed, List.mem_append] at ha
      rw [hs.fresh]
      obtain ha | ha := ha
      · obtain ⟨hnone, hlt⟩ := ok.freed a ha
        refine ⟨?_, hlt⟩
        have hnot : a ∉ objs := by
          intro hmem
          obtain ⟨o, ho⟩ := ok.linked.mem_some hmem
          rw [hnone] at ho
          cases ho
        rw [hs.other a hnot (by simp)]
        simp [Heap.remark, hnone]
      · obtain ⟨ha, hm⟩ := List.mem_filter.1 ha
        exact ⟨hs.dropped a ha (by simpa using hm), ok.fresh a ha⟩
  · rw [List.mem_filter, ← hkept, List.mem_filter]
    constructor
    · rintro ⟨ha, hm⟩
      exact ⟨ha, fun h => by simp [h.2] at hm⟩
    · rintro ⟨ha, hm⟩
      refine ⟨ha, ?_⟩
      cases hmk : (h.remark M).marked a with
      | true => exact absurd ⟨ha, hmk⟩ hm
      | false => rfl
  · obtain ⟨o, o', ho, ho', hobj, -⟩ := hcontents a ha
    exact ⟨o, o', ho, ho', hobj⟩

/-! ## Allocation -/

/-- From `h` to `h'` nothing reachable was lost and nothing was changed. -/
structure Keeps (h : Heap) (objs : List Nat) (h' : Heap) (objs' : List Nat) : Prop where
  ok : h'.Ok objs'
  order : objs'.Sublist objs
  reachable : ∀ a, Reachable h a → Reachable h' a
  cells : CellsOk h'.roots objs'
  contents : ∀ a ∈ objs', ∃ o o', h.mem a = some o ∧ h'.mem a = some o' ∧ o'.obj = o.obj
  roots : h'.roots = h.roots
  fresh : h.fresh = h'.fresh

theorem Keeps.refl {h : Heap} {objs : List Nat} (ok : h.Ok objs) (hcells : CellsOk h.roots objs) :
    Keeps h objs h objs where
  ok := ok
  order := .refl objs
  reachable _ ha := ha
  cells := hcells
  contents a ha := by
    obtain ⟨o, ho⟩ := ok.linked.mem_some ha
    exact ⟨o, o, ho, ho, rfl⟩
  roots := rfl
  fresh := rfl

theorem Keeps.trans {h h1 h2 : Heap} {objs objs1 objs2 : List Nat} (k : Keeps h objs h1 objs1)
    (k' : Keeps h1 objs1 h2 objs2) : Keeps h objs h2 objs2 where
  ok := k'.ok
  order := k'.order.trans k.order
  reachable a ha := k'.reachable a (k.reachable a ha)
  cells := k'.cells
  contents a ha := by
    obtain ⟨o1, o2, ho1, ho2, hobj2⟩ := k'.contents a ha
    obtain ⟨o, o1', ho, ho1', hobj1⟩ := k.contents a (k'.order.subset ha)
    rw [ho1] at ho1'
    cases ho1'
    exact ⟨o, o2, ho, ho2, hobj2.trans hobj1⟩
  roots := k'.roots.trans k.roots
  fresh := k.fresh.trans k'.fresh

theorem Collected.keeps {h h' : Heap} {objs kept : List Nat} (c : Collected h objs h' kept) :
    Keeps h objs h' kept where
  ok := c.ok
  order := c.order
  reachable a ha := by
    obtain ⟨r, hr, hra⟩ := ha
    refine ⟨r, by rw [c.roots]; exact hr, ?_⟩
    induction hra with
    | refl => exact .refl
    | @tail b d hrb hbd ih =>
      obtain ⟨o, ho, hd⟩ := hbd
      obtain ⟨o1, o', ho1, ho', hobj⟩ := c.contents b ((c.reachable b).2 ⟨r, hr, hrb⟩)
      rw [ho] at ho1
      cases ho1
      exact ih.tail ⟨o', ho', by rw [hobj]; exact hd⟩
  cells := by
    rintro v hv a rfl
    rw [c.roots] at hv
    exact (c.reachable a).2 ⟨a, hv, .refl⟩
  contents := c.contents
  roots := c.roots
  fresh := c.fresh.symm

/-- A new object `a`, with `objs'` what is left of the old ones. -/
structure Allocated (h : Heap) (objs : List Nat) (obj : Obj) (a : Nat) (h' : Heap)
    (objs' : List Nat) : Prop where
  ok : h'.Ok (a :: objs')
  new : a = h.fresh
  fresh : h'.fresh = h.fresh + 1
  object : ∃ next, h'.mem a = some ⟨obj, false, next⟩
  order : objs'.Sublist objs
  reachable : ∀ b, Reachable h b → b ∈ objs'
  contents : ∀ b ∈ objs', ∃ o o', h.mem b = some o ∧ h'.mem b = some o' ∧ o'.obj = o.obj
  roots : h'.roots = h.roots

theorem Keeps.push {h h1 : Heap} {objs objs1 : List Nat} (k : Keeps h objs h1 objs1) {obj : Obj}
    (hobj : ∀ v ∈ obj.fields, some v ∈ h.roots) (n : Nat) :
    Allocated h objs obj h1.fresh
      (Heap.push { h1 with fresh := h1.fresh + 1, mallocs := n } h1.fresh obj) objs1 := by
  have hlive : ∀ b, Reachable h b → b ∈ objs1 := fun b hb =>
    k.ok.mem_of_reachable k.cells (k.reachable b hb)
  have hnew : h1.fresh ∉ objs1 := fun hmem => Nat.lt_irrefl _ (k.ok.fresh _ hmem)
  have hold : ∀ b ∈ objs1, (Heap.push { h1 with fresh := h1.fresh + 1, mallocs := n }
      h1.fresh obj).mem b = h1.mem b := by
    intro b hb
    have hne : b ≠ h1.fresh := by
      rintro rfl
      exact hnew hb
    simp [Heap.push, hne]
  have hself : (Heap.push { h1 with fresh := h1.fresh + 1, mallocs := n } h1.fresh obj).mem
      h1.fresh = some ⟨obj, false, h1.all⟩ := by
    simp [Heap.push]
  refine ⟨?_, k.fresh.symm, by rw [k.fresh]; rfl, ⟨_, hself⟩, k.order, hlive, fun b hb => ?_,
    k.roots⟩
  · constructor
    case linked =>
      refine ⟨rfl, _, hself, ?_⟩
      exact k.ok.linked.congr fun b hb => by rw [hold b hb]
    case nodup => exact List.nodup_cons.2 ⟨hnew, k.ok.nodup⟩
    case marks =>
      intro b hb o ho
      obtain rfl | hb := List.mem_cons.1 hb
      · rw [hself] at ho
        cases ho
        rfl
      · rw [hold b hb] at ho
        exact k.ok.marks b hb o ho
    case fields =>
      intro b hb o ho v hv c hc
      obtain rfl | hb := List.mem_cons.1 hb
      · rw [hself] at ho
        cases ho
        subst hc
        exact List.mem_cons_of_mem _ (hlive c ⟨c, hobj _ hv, .refl⟩)
      · rw [hold b hb] at ho
        exact List.mem_cons_of_mem _ (k.ok.fields b hb o ho v hv c hc)
    case count =>
      show h1.count + 1 = _
      rw [k.ok.count]
      simp
    case owned =>
      intro b o ho
      by_cases hb : b = h1.fresh
      · exact List.mem_cons.2 (.inl hb)
      · refine List.mem_cons_of_mem _ (k.ok.owned b o ?_)
        simpa [Heap.push, hb] using ho
    case fresh =>
      intro b hb
      show b < h1.fresh + 1
      obtain rfl | hb := List.mem_cons.1 hb
      · exact Nat.lt_succ_self _
      · exact Nat.lt_succ_of_lt (k.ok.fresh b hb)
    case freed =>
      intro b hb
      obtain ⟨hnone, hlt⟩ := k.ok.freed b hb
      have hne : b ≠ h1.fresh := Nat.ne_of_lt hlt
      refine ⟨?_, Nat.lt_succ_of_lt hlt⟩
      simpa [Heap.push, hne] using hnone
  · obtain ⟨o, o', ho, ho', hobj'⟩ := k.contents b hb
    exact ⟨o, o', ho, (hold b hb).trans ho', hobj'⟩

section Alloc

variable {malloc : Nat → Bool} {fuel : Nat} {h : Heap} {objs : List Nat}

theorem Keeps.failed {h' : Heap} {objs' : List Nat} (k : Keeps h objs h' objs') (n : Nat) :
    Keeps h objs { h' with mallocs := n } objs' :=
  ⟨⟨k.ok.linked, k.ok.nodup, k.ok.marks, k.ok.fields, k.ok.count, k.ok.owned, k.ok.fresh,
    k.ok.freed⟩, k.order, k.reachable, k.cells, k.contents, k.roots, k.fresh⟩

theorem Keeps.collect {h' : Heap} {objs' : List Nat} (k : Keeps h objs h' objs')
    (hnone : none ∉ h.roots) (hfuel : objs.length < fuel) :
    ∃ h2 objs2, gcCollect fuel h' = .ok h2 ∧ Keeps h objs h2 objs2 ∧ h2.mallocs = h'.mallocs := by
  have hroots : RootsOk h'.roots objs' := k.cells.roots (by rw [k.roots]; exact hnone)
  have hfuel' : objs'.length < fuel := Nat.lt_of_le_of_lt k.order.length_le hfuel
  obtain ⟨h2, kept, hrun, hc⟩ := gcCollect_spec k.ok hroots hfuel'
  exact ⟨h2, kept, hrun, k.trans hc.keeps, hc.mallocs⟩

theorem gcAlloc_spec (ok : h.Ok objs) (hcells : CellsOk h.roots objs) (hfuel : objs.length < fuel)
    (hcollect : h.collects malloc = true → none ∉ h.roots) {obj : Obj}
    (hobj : ∀ v ∈ obj.fields, some v ∈ h.roots) :
    (∃ a h' objs', gcAlloc malloc fuel obj h = .ok (a, h') ∧ Allocated h objs obj a h' objs') ∨
      gcAlloc malloc fuel obj h = .error (.exit "gc: out of memory") ∧
        malloc h.mallocs = false ∧ malloc (h.mallocs + 1) = false := by
  have hfirst : ∃ h1 objs1, (if h.count ≥ h.threshold then gcCollect fuel h else pure h) = .ok h1 ∧
      Keeps h objs h1 objs1 ∧ h1.mallocs = h.mallocs ∧
      (malloc h1.mallocs = false → none ∉ h.roots) := by
    split_ifs with hc
    · have hnone := hcollect (by simp [Heap.collects, hc])
      obtain ⟨h1, objs1, hrun, hk, hcalls⟩ := (Keeps.refl ok hcells).collect hnone hfuel
      exact ⟨h1, objs1, hrun, hk, hcalls, fun _ => hnone⟩
    · exact ⟨h, objs, rfl, .refl ok hcells, rfl, fun hm => hcollect (by simp [Heap.collects, hm])⟩
  obtain ⟨h1, objs1, hrun, hk, hcalls, hnone⟩ := hfirst
  unfold gcAlloc
  rw [hrun]
  simp only [bind, Except.bind, gcMalloc]
  cases hm : malloc h1.mallocs with
  | true => exact .inl ⟨_, _, objs1, rfl, hk.push hobj _⟩
  | false =>
    obtain ⟨h2, objs2, hrun2, hk2, hcalls2⟩ :=
      (hk.failed (h1.mallocs + 1)).collect (hnone hm) hfuel
    simp only [Bool.false_eq_true, if_false, hrun2]
    cases hm2 : malloc h2.mallocs with
    | true => exact .inl ⟨_, _, objs2, rfl, hk2.push hobj _⟩
    | false =>
      rw [hcalls2] at hm2
      rw [hcalls] at hm hm2
      exact .inr ⟨rfl, hm, hm2⟩

/-! ## Protected allocation -/

/-- The object `obj` was made, with everything that was reachable and the values of its fields
still there. -/
structure Made (h : Heap) (objs : List Nat) (obj : Obj) (v : Val) (h' : Heap)
    (objs' : List Nat) : Prop where
  ok : h'.Ok objs'
  value : v = .ptr h.fresh
  object : h.fresh ∈ objs' ∧ ∃ next, h'.mem h.fresh = some ⟨obj, false, next⟩
  fields : ∀ w ∈ obj.fields, Valid objs' w
  kept : ∀ b, Reachable h b → b ∈ objs'
  contents : ∀ b ∈ objs', b ≠ h.fresh →
    b ∈ objs ∧ ∃ o o', h.mem b = some o ∧ h'.mem b = some o' ∧ o'.obj = o.obj
  roots : h'.roots = h.roots
  fresh : h'.fresh = h.fresh + 1

theorem Heap.Ok.withRoots (ok : h.Ok objs) (roots : List (Option Val)) :
    { h with roots := roots }.Ok objs :=
  ⟨ok.linked, ok.nodup, ok.marks, ok.fields, ok.count, ok.owned, ok.fresh, ok.freed⟩

/-- With `n` cells to register, the program is left with the message `msg`. -/
def Exits (malloc : Nat → Bool) (h : Heap) (n : Nat) (msg : String) : Prop :=
  (msg = "gc: root stack overflow" ∧ 256 < h.roots.length + n) ∨
    (msg = "gc: out of memory" ∧ malloc h.mallocs = false ∧ malloc (h.mallocs + 1) = false)

theorem gcPushAll_eq (vs : List Val) (h : Heap) :
    (gcPushAll vs h = .ok { h with roots := vs.reverse.map some ++ h.roots } ∧
      (h.roots.length ≤ 256 → h.roots.length + vs.length ≤ 256)) ∨
      gcPushAll vs h = .error (.exit "gc: root stack overflow") ∧
        256 < h.roots.length + vs.length := by
  induction vs generalizing h with
  | nil => exact .inl ⟨rfl, fun h => h⟩
  | cons v vs ih =>
    simp only [gcPushAll, gcPush, bind, Except.bind, pure, Except.pure]
    split_ifs with hfull
    · refine .inr ⟨rfl, ?_⟩
      rw [List.length_cons]
      omega
    · obtain ⟨hok, hlen⟩ | ⟨herr, hlen⟩ := ih { h with roots := some v :: h.roots }
      · refine .inl ⟨hok.trans ?_, fun _ => ?_⟩
        · simp
        · simp only [List.length_cons] at hlen ⊢
          omega
      · refine .inr ⟨herr, ?_⟩
        simp only [List.length_cons] at hlen ⊢
        omega

/-- The values `vs` are registered during the allocation. -/
def gcProtected (malloc : Nat → Bool) (fuel : Nat) (vs : List Val) (obj : Obj) (h : Heap) :
    Except Stop (Val × Heap) := do
  let h ← gcPushAll vs h
  let (a, h) ← gcAlloc malloc fuel obj h
  return (.ptr a, gcPop h vs.length)

theorem gcCons_eq (car cdr : Val) (h : Heap) :
    gcCons malloc fuel car cdr h = gcProtected malloc fuel [car, cdr] (.pair car cdr) h := by
  simp [gcCons, gcProtected, gcPushAll]

theorem gcClosure_eq (funcId : Int) (captured : List Val) (h : Heap) :
    gcClosure malloc fuel funcId captured h =
      gcProtected malloc fuel captured (.closure funcId captured) h := rfl

theorem gcProtected_spec (ok : h.Ok objs) (hcells : CellsOk h.roots objs)
    (hfuel : objs.length < fuel) (hcollect : h.collects malloc = true → none ∉ h.roots)
    {vs : List Val} (hvs : ∀ v ∈ vs, Valid objs v) {obj : Obj} (hobj : ∀ v ∈ obj.fields, v ∈ vs) :
    (∃ v h' objs', gcProtected malloc fuel vs obj h = .ok (v, h') ∧ Made h objs obj v h' objs') ∨
      ∃ msg, gcProtected malloc fuel vs obj h = .error (.exit msg) ∧
        Exits malloc h vs.length msg := by
  unfold gcProtected
  obtain ⟨hpush, -⟩ | ⟨hpush, hlen⟩ := gcPushAll_eq vs h
  swap
  · exact .inr ⟨"gc: root stack overflow", by rw [hpush]; rfl, .inl ⟨rfl, hlen⟩⟩
  rw [hpush]
  have hcells' : CellsOk (vs.reverse.map some ++ h.roots) objs := by
    intro v hv
    simp only [List.mem_append, List.mem_map, List.mem_reverse, Option.some.injEq,
      exists_eq_right] at hv
    obtain hv | hv := hv
    · exact hvs v hv
    · exact hcells v hv
  have hcollect' : h.collects malloc = true → none ∉ vs.reverse.map some ++ h.roots := by
    intro hc
    simpa using hcollect hc
  obtain ⟨a, h', objs', hrun, ha⟩ | ⟨hrun, hm, hm'⟩ := @gcAlloc_spec malloc _ _ _
    (ok.withRoots (vs.reverse.map some ++ h.roots)) hcells' hfuel hcollect' obj
    fun v hv => by simpa using .inl (hobj v hv)
  swap
  · refine .inr ⟨"gc: out of memory", ?_, .inr ⟨rfl, hm, hm'⟩⟩
    simp only [bind, Except.bind, hrun]
  refine .inl ⟨.ptr a, gcPop h' vs.length, a :: objs', ?_, ?_⟩
  · simp only [bind, Except.bind, hrun]
    rfl
  · have hnew : a = h.fresh := ha.new
    constructor
    case ok => exact ha.ok.withRoots _
    case value => rw [hnew]
    case object =>
      rw [← hnew]
      exact ⟨List.mem_cons_self, ha.object⟩
    case fields =>
      obtain ⟨next, hmem⟩ := ha.object
      exact ha.ok.fields a List.mem_cons_self _ hmem
    case kept =>
      rintro b ⟨r, hr, hrb⟩
      exact List.mem_cons_of_mem a (ha.reachable b ⟨r, List.mem_append_right _ hr, hrb⟩)
    case contents =>
      intro b hb hne
      obtain rfl | hb := List.mem_cons.1 hb
      · exact absurd hnew hne
      · exact ⟨ha.order.subset hb, ha.contents b hb⟩
    case roots =>
      show h'.roots.drop vs.length = h.roots
      rw [ha.roots]
      show (vs.reverse.map some ++ h.roots).drop vs.length = h.roots
      exact List.drop_left' (by simp)
    case fresh => exact ha.fresh

end Alloc

/-- Mark and sweep: a collection keeps exactly the reachable objects, and an allocation that
collects loses neither them nor the values that it is given. -/
theorem markSweep_correct {malloc : Nat → Bool} {fuel : Nat} {h : Heap} {objs : List Nat}
    (ok : h.Ok objs) (hroots : RootsOk h.roots objs) (hfuel : objs.length < fuel) :
    (∃ h' kept, gcCollect fuel h = .ok h' ∧ Collected h objs h' kept) ∧
    (∀ car cdr, Valid objs car → Valid objs cdr →
      (∃ v h' objs', gcCons malloc fuel car cdr h = .ok (v, h') ∧
        Made h objs (.pair car cdr) v h' objs') ∨
      ∃ msg, gcCons malloc fuel car cdr h = .error (.exit msg) ∧ Exits malloc h 2 msg) ∧
    (∀ funcId captured, (∀ v ∈ captured, Valid objs v) →
      (∃ v h' objs', gcClosure malloc fuel funcId captured h = .ok (v, h') ∧
        Made h objs (.closure funcId captured) v h' objs') ∨
      ∃ msg, gcClosure malloc fuel funcId captured h = .error (.exit msg) ∧
        Exits malloc h captured.length msg) := by
  have hnone : h.collects malloc = true → none ∉ h.roots := by
    intro _ hmem
    obtain ⟨v, hv, -⟩ := hroots none hmem
    cases hv
  refine ⟨gcCollect_spec ok hroots hfuel, fun car cdr hcar hcdr => ?_,
    fun funcId captured hvs => ?_⟩
  · rw [gcCons_eq]
    refine gcProtected_spec ok hroots.cells hfuel hnone ?_ fun v hv => hv
    intro v hv
    obtain rfl | hv := List.mem_cons.1 hv
    · exact hcar
    · obtain rfl := List.mem_singleton.1 hv
      exact hcdr
  · rw [gcClosure_eq]
    exact gcProtected_spec ok hroots.cells hfuel hnone hvs fun v hv => hv

/-- A pair with a symbol that a root points to, and a string that nothing points to. -/
def garbageHeap : Heap where
  mem a :=
    if a = 0 then some ⟨.symbol [120], false, none⟩
    else if a = 1 then some ⟨.pair (.ptr 0) (.ptr 1), false, some 0⟩
    else if a = 2 then some ⟨.string [], false, some 1⟩
    else none
  all := some 2
  count := 3
  roots := [some (.ptr 1)]
  fresh := 3

theorem garbageHeap_ok : garbageHeap.Ok [2, 1, 0] := by
  refine ⟨⟨rfl, _, rfl, rfl, _, rfl, rfl, _, rfl, rfl⟩, by decide, ?_, ?_, rfl, ?_, by decide,
    by simp [garbageHeap]⟩
  · intro a ha o ho
    simp only [List.mem_cons, List.not_mem_nil, or_false] at ha
    obtain rfl | rfl | rfl := ha <;> cases ho <;> rfl
  · intro a ha o ho v hv
    simp only [List.mem_cons, List.not_mem_nil, or_false] at ha
    obtain rfl | rfl | rfl := ha <;> cases ho <;> simp [Obj.fields] at hv
    obtain rfl | rfl := hv <;> simp [Valid]
  · intro a o ho
    simp only [garbageHeap] at ho
    split_ifs at ho <;> simp_all

theorem markSweep_correct_garbage :
    ∃ h' kept, gcCollect 4 garbageHeap = .ok h' ∧ Collected garbageHeap [2, 1, 0] h' kept :=
  (@markSweep_correct (fun _ => true) 4 _ _ garbageHeap_ok
    (by simp [RootsOk, garbageHeap, Valid]) (by decide)).1

end MechanicalResearcher.PortableCompiler.Gc
