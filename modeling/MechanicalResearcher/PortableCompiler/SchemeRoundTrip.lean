import MechanicalResearcher.PortableCompiler.ReaderSafety
import MechanicalResearcher.PortableCompiler.SchemePrint

/-!
# Reading what the printer wrote

The reader takes the tokens of a datum and builds it, cell by cell, behind `head`.  While the root
stack has room for the open lists, only a collection that meets a list without a cell, or a `malloc`
that fails, keeps it from the end.
-/

namespace MechanicalResearcher.PortableCompiler.SchemeText

open Lib Gc
open Lib.Scanner (Cursor)
open Tinc (ch)

variable {ds : List Datum} {head cdr : Val} {toks : List Token} {datum : ReadM Val}
    {fuel line : Nat} {r0 : Reader}

/-! ## Data in a heap that grows -/

theorem valid_nil {objs : List Nat} : Valid objs .nil := nofun

section Spelling

variable {mem mem' : Nat → Option GcObj} {objs objs' : List Nat} {S S' : Set Nat} {t : Nat}
  {v : Val}

theorem Spells.mono {d : Datum} (h : Spells mem S v d) (hS : S ⊆ S') : Spells mem S' v d := by
  induction d generalizing v with
  | nil | bool _ | fix _ => exact h
  | sym name =>
    obtain ⟨a, ha, hv, hobj⟩ := h
    exact ⟨a, hS ha, hv, hobj⟩
  | pair x y ihx ihy =>
    obtain ⟨a, ha, hv, car, cdr, hobj, hcar, hcdr⟩ := h
    exact ⟨a, hS ha, hv, car, cdr, hobj, ihx hcar, ihy hcdr⟩

/-- The objects of `objs'` that are in `S` are as they were, and no object points elsewhere. -/
structure Carries (mem mem' : Nat → Option GcObj) (objs' : List Nat) (S : Set Nat) : Prop where
  same : ∀ b ∈ objs', b ∈ S → (mem' b).map GcObj.obj = (mem b).map GcObj.obj
  closed : ∀ b ∈ objs', ∀ o, mem' b = some o → ∀ w ∈ o.obj.fields, Valid objs' w

theorem Carries.mono (h : Carries mem mem' objs' S') (hS : S ⊆ S') : Carries mem mem' objs' S :=
  ⟨fun b hb hbS => h.same b hb (hS hbS), h.closed⟩

theorem Carries.fields (h : Carries mem mem' objs' S) {a : Nat} {obj : Obj} (ha : a ∈ objs')
    (haS : a ∈ S) (hobj : (mem a).map GcObj.obj = some obj) :
    (mem' a).map GcObj.obj = some obj ∧ ∀ w ∈ obj.fields, Valid objs' w := by
  have hsame := (h.same a ha haS).trans hobj
  obtain ⟨o, ho, rfl⟩ := Option.map_eq_some_iff.1 hsame
  exact ⟨hsame, h.closed a ha o ho⟩

theorem Spells.carry {d : Datum} (h : Spells mem S v d) (hc : Carries mem mem' objs' S)
    (hv : Valid objs' v) : Spells mem' S v d := by
  induction d generalizing v with
  | nil | bool _ | fix _ => exact h
  | sym name =>
    obtain ⟨a, ha, rfl, hobj⟩ := h
    exact ⟨a, ha, rfl, (hc.fields (hv a rfl) ha hobj).1⟩
  | pair x y ihx ihy =>
    obtain ⟨a, ha, rfl, car, cdr, hobj, hcar, hcdr⟩ := h
    obtain ⟨hobj', hfields⟩ := hc.fields (hv a rfl) ha hobj
    have hcar' : Valid objs' car := hfields car List.mem_cons_self
    have hcdr' : Valid objs' cdr := hfields cdr (List.mem_cons_of_mem _ List.mem_cons_self)
    exact ⟨a, ha, rfl, car, cdr, hobj', ihx hcar hcar', ihy hcdr hcdr'⟩

/-- The cells of the data `ds`, in `S`, and behind them the cell `t`. -/
def Segment (mem : Nat → Option GcObj) (S : Set Nat) (t : Nat) : Val → List Datum → Prop
  | v, [] => v = .ptr t
  | v, d :: ds => ∃ a ∈ S, v = .ptr a ∧ ∃ car cdr, (mem a).map GcObj.obj = some (.pair car cdr) ∧
    Spells mem S car d ∧ Segment mem S t cdr ds

/-- The list of the data `ds` and `d`, whose last cell is `t` with the cdr `cdr`. -/
structure Chain (mem : Nat → Option GcObj) (S : Set Nat) (t : Nat) (head cdr : Val)
    (ds : List Datum) (d : Datum) : Prop where
  segment : Segment mem S t head ds
  last : ∃ car, (mem t).map GcObj.obj = some (.pair car cdr) ∧ Spells mem S car d

theorem Segment.carry {ds : List Datum} (h : Segment mem S t v ds) (hc : Carries mem mem' objs' S)
    (hv : Valid objs' v) : Segment mem' S t v ds ∧ t ∈ objs' := by
  induction ds generalizing v with
  | nil =>
    obtain rfl : v = .ptr t := h
    exact ⟨rfl, hv t rfl⟩
  | cons d ds ih =>
    obtain ⟨a, ha, rfl, car, cdr, hobj, hcar, hcdr⟩ := h
    obtain ⟨hobj', hfields⟩ := hc.fields (hv a rfl) ha hobj
    have hcar' := hcar.carry hc (hfields car List.mem_cons_self)
    obtain ⟨hcdr', ht⟩ := ih hcdr (hfields cdr (List.mem_cons_of_mem _ List.mem_cons_self))
    exact ⟨⟨a, ha, rfl, car, cdr, hobj', hcar', hcdr'⟩, ht⟩

theorem Chain.carry {d : Datum} (h : Chain mem S t head cdr ds d) (hc : Carries mem mem' objs' S')
    (hS : S ⊆ S') (ht : t ∈ S') (hhead : Valid objs' head) :
    Chain mem' S t head cdr ds d := by
  obtain ⟨hsegment, htobjs⟩ := h.segment.carry (hc.mono hS) hhead
  obtain ⟨car, hobj, hcar⟩ := h.last
  obtain ⟨hobj', hfields⟩ := hc.fields htobjs ht hobj
  exact ⟨hsegment, car, hobj', hcar.carry (hc.mono hS) (hfields car List.mem_cons_self)⟩

theorem Chain.old {h : Heap} {d : Datum} (hchain : Chain h.mem S t head cdr ds d) (ok : h.Ok objs) :
    t < h.fresh := by
  obtain ⟨car, hobj, -⟩ := hchain.last
  obtain ⟨o, ho, -⟩ := Option.map_eq_some_iff.1 hobj
  exact ok.fresh t (ok.owned t o ho)

theorem Chain.snoc {d : Datum} {u : Nat} (h : Chain mem S t head (.ptr u) ds d) (hS : S ⊆ S')
    (ht : t ∈ S') :
    Segment mem S' u head (ds ++ [d]) := by
  obtain ⟨hsegment, car, hobj, hcar⟩ := h
  induction ds generalizing head with
  | nil => exact ⟨t, ht, hsegment, car, .ptr u, hobj, hcar.mono hS, rfl⟩
  | cons e ds ih =>
    obtain ⟨a, ha, hv, car', cdr', hobj', hcar', hcdr'⟩ := hsegment
    exact ⟨a, hS ha, hv, car', cdr', hobj', hcar'.mono hS, ih hcdr'⟩

theorem Chain.close {d tail : Datum} (h : Chain mem S t head cdr ds d) (hS : S ⊆ S') (ht : t ∈ S')
    (hcdr : Spells mem S' cdr tail) :
    Spells mem S' head ((ds ++ [d]).foldr .pair tail) := by
  obtain ⟨hsegment, car, hobj, hcar⟩ := h
  induction ds generalizing head with
  | nil => exact ⟨t, ht, hsegment, car, cdr, hobj, hcar.mono hS, hcdr⟩
  | cons e ds ih =>
    obtain ⟨a, ha, hv, car', cdr', hobj', hcar', hcdr'⟩ := hsegment
    exact ⟨a, hS ha, hv, car', cdr', hobj', hcar'.mono hS, ih hcdr'⟩

variable {r r' : Reader}

theorem grown_carries (h : Grown r r' objs') :
    Carries r.heap.mem r'.heap.mem objs' (Set.Iio r.heap.fresh) where
  same b hb hlt := by
    obtain ⟨o', ho'⟩ := h.inv.ok.linked.mem_some hb
    obtain ⟨o, ho, hobj⟩ := h.frame b hlt o' ho'
    rw [ho, ho', Option.map_some, Option.map_some, hobj]
  closed b hb o ho := h.inv.ok.fields b hb o ho

theorem put_carries {h : Heap} {o : GcObj} (ok : (h.put t o).Ok objs) :
    Carries h.mem (h.put t o).mem objs (Set.compl {t}) where
  same b _ hne := by
    rw [Heap.put]
    simp only [Function.update_of_ne hne]
  closed b hb o ho := ok.fields b hb o ho

end Spelling

/-! ## Outcomes -/

/-- From `r`, `x` ends as `Q` says where the root stack has room, which is `fits`, and with its
message where it has not, unless a collection meets a list without a cell or `malloc` fails. -/
def Outcome {α : Type} (malloc : Nat → Bool) (x : ReadM α) (r : Reader) (fits : Prop)
    (Q : α → Reader → Prop) : Prop :=
  match (x r).1 with
  | .ok a => fits ∧ Q a (x r).2
  | .error e => Bad malloc (x r).2 ∨ e = .exit "gc: root stack overflow" ∧ ¬ fits ∨
    e = .exit "gc: out of memory" ∧ ∃ k, malloc k = false

namespace Outcome

variable {malloc : Nat → Bool} {α β : Type} {x : ReadM α} {f : α → ReadM β} {r r' : Reader}
  {F G : Prop} {Q : α → Reader → Prop} {Q' : β → Reader → Prop}

theorem of_ok {a : α} (hx : x r = (.ok a, r')) (hfits : F) (hQ : Q a r') :
    Outcome malloc x r F Q := by
  unfold Outcome
  rw [hx]
  exact ⟨hfits, hQ⟩

theorem of_bad {e : Gc.Stop} (hx : x r = (.error e, r')) (hbad : Bad malloc r') :
    Outcome malloc x r F Q := by
  unfold Outcome
  rw [hx]
  exact .inl hbad

theorem overflow (hx : x r = (.error (.exit "gc: root stack overflow"), r')) (hfits : ¬ F) :
    Outcome malloc x r F Q := by
  unfold Outcome
  rw [hx]
  exact .inr (.inl ⟨rfl, hfits⟩)

theorem step {a : α} (hx : x r = (.ok a, r')) (hf : Outcome malloc (f a) r' F Q') :
    Outcome malloc (x >>= f) r F Q' := by
  unfold Outcome at hf ⊢
  rw [Gc.bind_ok hx]
  exact hf

theorem bind (hx : Outcome malloc x r F Q)
    (hf : ∀ a r', x r = (.ok a, r') → F → Q a r' → Outcome malloc (f a) r' G Q') :
    Outcome malloc (x >>= f) r (F ∧ G) Q' := by
  unfold Outcome at hx
  cases hrun : x r with
  | mk out r' =>
    rw [hrun] at hx
    cases out with
    | error e =>
      unfold Outcome
      rw [Gc.bind_error hrun]
      exact hx.imp_right (Or.imp_left fun h => ⟨h.1, fun hFG => h.2 hFG.1⟩)
    | ok a =>
      have hnext := hf a r' hrun hx.1 hx.2
      unfold Outcome at hnext ⊢
      rw [Gc.bind_ok hrun]
      cases hout : (f a r').1 with
      | ok b =>
        rw [hout] at hnext
        exact ⟨⟨hx.1, hnext.1⟩, hnext.2⟩
      | error e =>
        rw [hout] at hnext
        exact hnext.imp_right (Or.imp_left fun h => ⟨h.1, fun hFG => h.2 hFG.2⟩)

theorem mono {Q1 : α → Reader → Prop} (hx : Outcome malloc x r F Q) (hfits : F ↔ G)
    (hQ : ∀ a r', x r = (.ok a, r') → Q a r' → Q1 a r') : Outcome malloc x r G Q1 := by
  unfold Outcome at hx ⊢
  cases hrun : x r with
  | mk out r' =>
    rw [hrun] at hx
    cases out with
    | error e => exact hx.imp_right (Or.imp_left fun h => ⟨h.1, fun hG => h.2 (hfits.2 hG)⟩)
    | ok a => exact ⟨hfits.1 hx.1, hQ a r' hrun hx.2⟩

theorem cases (hx : Outcome malloc x r F Q) (hmalloc : ∀ k, malloc k = true)
    (hquiet : ∀ s ∈ (x r).2.steps, s.collects malloc = true → s.waiting = 0) :
    (∃ a r', x r = (.ok a, r') ∧ F ∧ Q a r') ∨
      (x r).1 = .error (.exit "gc: root stack overflow") ∧ ¬ F := by
  unfold Outcome at hx
  cases hrun : x r with
  | mk out r' =>
    rw [hrun] at hx hquiet
    cases out with
    | ok a => exact .inl ⟨a, r', rfl, hx⟩
    | error e =>
      obtain ⟨s, hs, hcollects, hpos⟩ | ⟨rfl, hfits⟩ | ⟨-, k, hk⟩ := hx
      · rw [hquiet s hs hcollects] at hpos
        exact absurd hpos (Nat.lt_irrefl 0)
      · exact .inr ⟨rfl, hfits⟩
      · rw [hmalloc k] at hk
        cases hk

theorem push {c : Option Val} {f : Unit → ReadM α}
    (hf : Outcome malloc (f ()) (r.withRoots (c :: r.heap.roots)) F Q) :
    Outcome malloc (pushCell c >>= f) r (r.heap.roots.length < 256 ∧ F) Q := by
  obtain ⟨hlt, hrun⟩ | ⟨hfull, hrun⟩ := pushCell_eq c r
  · exact .mono (.step hrun hf) ⟨fun h => ⟨hlt, h⟩, And.right⟩ fun _ _ _ h => h
  · exact .overflow (Gc.bind_error hrun) fun h => Nat.not_lt.2 hfull h.1

end Outcome

section Steps

variable {malloc : Nat → Bool} {r r' : Reader} {objs : List Nat} {α : Type} {x : ReadM α}

theorem safe_result {Q : α → Reader → Prop} {a : α} (h : Gc.Safe malloc x r Q)
    (hx : x r = (.ok a, r')) : Good r' ∧ Q a r' := by
  unfold Gc.Safe at h
  rw [hx] at h
  exact h

/-- Nothing was read from the text. -/
def SameText (r r' : Reader) : Prop := r'.toks = r.toks ∧ r'.eofLine = r.eofLine

theorem allocate_outcome (inv : Inv r objs) {vs : List Val} (hvs : ∀ v ∈ vs, Valid objs v)
    {obj : Obj} (hobj : ∀ v ∈ obj.fields, v ∈ vs) :
    Outcome malloc (allocate vs fun fuel => gcProtected malloc fuel vs obj) r
      (r.heap.roots.length + vs.length ≤ 256) fun v r' =>
        (∃ objs', Grown r r' objs' ∧ New r obj v r' objs') ∧ SameText r r' := by
  obtain ⟨v, h', objs', hrun, hm, hfits⟩ | ⟨msg, hrun, hexits⟩ | ⟨hrun, hbad⟩ :=
    allocate_run malloc inv hvs hobj
  · exact .of_ok hrun hfits
      ⟨⟨objs', hm.grown inv, hm.value, hm.object.1, hm.object.2⟩, rfl, rfl⟩
  · obtain ⟨rfl, hlen⟩ | ⟨rfl, hfail, -⟩ := hexits
    · exact .overflow hrun (by omega)
    · unfold Outcome
      rw [hrun]
      exact .inr (.inr ⟨rfl, _, hfail⟩)
  · exact .of_bad hrun hbad

theorem cons_outcome (inv : Inv r objs) {car : Val} (hcar : Valid objs car) (hcdr : Valid objs cdr)
    :
    Outcome malloc (cons malloc car cdr) r (r.heap.roots.length + 2 ≤ 256) fun v r' =>
      (∃ objs', Grown r r' objs' ∧ New r (.pair car cdr) v r' objs') ∧ SameText r r' := by
  have hop : (fun fuel => gcCons malloc fuel car cdr) =
      fun fuel => gcProtected malloc fuel [car, cdr] (.pair car cdr) := by
    funext fuel h
    exact gcCons_eq car cdr h
  rw [cons, hop]
  refine allocate_outcome inv ?_ fun v hv => hv
  intro v hv
  cases List.mem_cons.1 hv with
  | inl h => rwa [h]
  | inr h => rwa [List.mem_singleton.1 h]

theorem symbol_outcome (inv : Inv r objs) (data : List UInt8) :
    Outcome malloc (symbol malloc data) r (r.heap.roots.length + 0 ≤ 256) fun v r' =>
      (∃ objs', Grown r r' objs' ∧ New r (.symbol data) v r' objs') ∧ SameText r r' :=
  @allocate_outcome _ _ _ inv [] nofun (.symbol data) nofun

/-- The variables of a list that was just opened. -/
def opened (r : Reader) : Reader :=
  { r.withRoots (none :: none :: some .nil :: some .nil :: r.heap.roots) with
    waiting := r.waiting + 1 }

theorem openList_outcome : Outcome malloc openList r (r.heap.roots.length + 4 ≤ 256)
    fun _ r' => r' = opened r := by
  have hopen : Outcome malloc openList r (r.heap.roots.length < 256 ∧
      r.heap.roots.length + 1 < 256 ∧ r.heap.roots.length + 2 < 256 ∧
      r.heap.roots.length + 3 < 256 ∧ True) fun _ r' => r' = opened r :=
    .push (.push (.push (.push (.of_ok rfl trivial rfl))))
  refine hopen.mono ⟨fun h => ?_, fun h => ?_⟩ fun _ _ _ h => h
  · have hlast := h.2.2.2.1
    omega
  · exact ⟨by omega, by omega, by omega, by omega, trivial⟩

theorem lexNext_cons {tok : Token} (htoks : r.toks = tok :: toks)
    (hbad : ∀ msg, tok.kind ≠ .bad msg) :
    lexPeek r = (.ok tok, r) ∧ lexNext r = (.ok tok, r.next) := by
  have hpeek : lexPeek r = (.ok tok, r) := by
    obtain ⟨kind, line⟩ := tok
    rw [lexPeek, get_bind, htoks]
    cases kind with
    | bad msg => exact absurd rfl (hbad msg)
    | _ => rfl
  refine ⟨hpeek, ?_⟩
  rw [lexNext, Gc.bind_ok hpeek]
  rfl

theorem listBody_element {d : Datum} (htoks : r.toks = d.tokens line ++ toks) :
    listBody malloc datum (fuel + 1) r =
      (addElement malloc datum >>= fun _ => listBody malloc datum fuel) r := by
  rw [listBody]
  cases d with
  | bool b =>
    cases b with
    | false =>
      rw [Gc.bind_ok (lexNext_cons htoks nofun).1]
      rfl
    | true =>
      rw [Gc.bind_ok (lexNext_cons htoks nofun).1]
      rfl
  | nil | fix _ | sym _ | pair _ _ => rw [Gc.bind_ok (lexNext_cons htoks nofun).1]

/-! ## Lists -/

/-- The variables of the list that was opened at `r0`, when it has the data `ds`. -/
inductive Cells (r0 r : Reader) : List Datum → Prop
  | empty (hroots : r.heap.roots = none :: none :: some .nil :: some .nil :: r0.heap.roots) :
      Cells r0 r []
  | cells {ds : List Datum} {d : Datum} {cell elem head : Val} {t : Nat}
      (hroots : r.heap.roots = some cell :: some elem :: some (.ptr t) :: some head ::
        r0.heap.roots)
      (hnil : head ≠ .nil) (hfirst : r0.heap.fresh ≤ t)
      (hchain : Chain r.heap.mem (Set.Ico r0.heap.fresh t) t head .nil ds d) :
      Cells r0 r (ds ++ [d])

/-- The list is complete, and `head` is the datum `d`. -/
def Closed (r0 r : Reader) (d : Datum) : Prop :=
  ∃ cell elem tail head, r.heap.roots =
      some cell :: some elem :: some tail :: some head :: r0.heap.roots ∧
    head ≠ .nil ∧ Spells r.heap.mem (Set.Ico r0.heap.fresh r.heap.fresh) head d

/-- What reading a datum of the text does. -/
def Reads (malloc : Nat → Bool) (line : Nat) (datum : ReadM Val) (d : Datum) : Prop :=
  ∀ r objs toks, Inv r objs → Good r → r.toks = d.tokens line ++ toks →
    Outcome malloc datum r (r.heap.roots.length + d.rootsNeeded ≤ 256) fun v r' =>
      Spells r'.heap.mem (Set.Ico r.heap.fresh r'.heap.fresh) v d ∧ r'.toks = toks ∧
        r'.eofLine = r.eofLine

theorem addElement_outcome {d : Datum} (hspec : DatumSpec malloc datum)
    (hreads : Reads malloc line datum d) (h : InList r0 r objs) (hgood : Good r)
    (hcells : Cells r0 r ds) (htoks : r.toks = d.tokens line ++ toks) :
    Outcome malloc (addElement malloc datum) r
      (r0.heap.roots.length + max d.rootsNeeded 2 + 4 ≤ 256) fun _ r' =>
        Cells r0 r' (ds ++ [d]) ∧ r'.toks = toks ∧ r'.eofLine = r.eofLine := by
  have hlen : r.heap.roots.length = r0.heap.roots.length + 4 := by
    cases hcells with
    | empty hroots => rw [hroots]; rfl
    | cells hroots => rw [hroots]; rfl
  refine Outcome.mono (F := r.heap.roots.length + d.rootsNeeded ≤ 256 ∧
    r.heap.roots.length + 2 ≤ 256) ?_ (by omega) fun _ _ _ hQ => hQ
  refine (hreads r objs toks h.inv hgood htoks).bind fun elem r1 hrun _ ⟨hspells, htoks1,
    heof1⟩ => ?_
  obtain ⟨hgood1, objs1, hgrown1, helem⟩ := safe_result (hspec r objs h.inv hgood) hrun
  refine .step (setCell_eq 1 elem r1) ?_
  have inv2 := h.element hgrown1 helem
  have hlen2 : (r1.withRoots (r.heap.roots.set 1 (some elem))).heap.roots.length =
      r.heap.roots.length := List.length_set
  refine Outcome.mono (F := (r1.withRoots (r.heap.roots.set 1 (some elem))).heap.roots.length + 2 ≤
    256 ∧ True) ?_ (by rw [hlen2, and_true]) fun _ _ _ hQ => hQ
  rw [hgrown1.roots]
  refine (cons_outcome inv2 helem valid_nil).bind ?_
  rintro v r3 - - ⟨⟨objs3, hgrown3, hnew⟩, htext⟩
  have htoks3 : r3.toks = toks := htext.1.trans htoks1
  have heof3 : r3.eofLine = r.eofLine := htext.2.trans heof1
  obtain ⟨next, hobj⟩ := hnew.object
  have hv : v = .ptr r1.heap.fresh := hnew.value
  have hlast : (r3.heap.mem r1.heap.fresh).map GcObj.obj = some (.pair elem .nil) := by
    rw [show r3.heap.mem r1.heap.fresh = _ from hobj]
    rfl
  have hroots3 : r3.heap.roots = r.heap.roots.set 1 (some elem) := hgrown3.roots
  have hcarries : Carries r1.heap.mem r3.heap.mem objs3 (Set.Iio r1.heap.fresh) := by
    have hgrows := grown_carries hgrown3
    exact hgrows
  have hnew1 : Set.Ico r.heap.fresh r1.heap.fresh ⊆ Set.Iio r1.heap.fresh := fun _ h => h.2
  have helem3 : Valid objs3 elem := by
    refine hgrown3.valid (List.mem_iff_getElem?.2 ⟨1, List.getElem?_set_self ?_⟩)
    rw [hlen]
    omega
  have hspells3 : Spells r3.heap.mem (Set.Ico r.heap.fresh r1.heap.fresh) elem d :=
    hspells.carry (hcarries.mono hnew1) helem3
  have hwide : Set.Ico r.heap.fresh r1.heap.fresh ⊆ Set.Ico r0.heap.fresh r1.heap.fresh :=
    Set.Ico_subset_Ico_left h.fresh
  refine .step (setCell_eq 0 v r3) ?_
  cases hcells with
  | empty hroots =>
    rw [hroots] at hroots3
    rw [hroots3]
    refine .step (getCell_eq rfl) ?_
    rw [if_pos rfl]
    refine .of_ok rfl trivial ⟨?_, htoks3, heof3⟩
    exact @Cells.cells _ _ [] d v elem v r1.heap.fresh (by rw [← hv]; rfl) (by rw [hv]; nofun)
      (h.fresh.trans hgrown1.fresh) ⟨hv, elem, hlast, hspells3.mono hwide⟩
  | @cells ds d0 cell elem0 head t hroots hnil hfirst hchain =>
    have hhead1 : Valid objs1 head := hgrown1.valid (by rw [hroots]; simp)
    have hhead3 : Valid objs3 head := hgrown3.valid (by
      show some head ∈ r.heap.roots.set 1 (some elem)
      rw [hroots]
      simp)
    have hold := hchain.old h.inv.ok
    have hold1 : t < r1.heap.fresh := hold.trans_le hgrown1.fresh
    have hbelow : Set.Ico r0.heap.fresh t ⊆ Set.Iio t := fun _ h => h.2
    have hchain1 := hchain.carry (grown_carries hgrown1)
      (hbelow.trans (Set.Iio_subset_Iio hold.le)) hold hhead1
    have hchain3 := hchain1.carry hcarries (hbelow.trans (Set.Iio_subset_Iio hold1.le)) hold1 hhead3
    rw [hroots] at hroots3
    rw [hroots3]
    refine .step (getCell_eq rfl) ?_
    rw [if_neg hnil]
    refine .step (getCell_eq rfl) ?_
    obtain ⟨car, ho, hcar⟩ := hchain3.last
    obtain ⟨o3, ho3, hpair⟩ := Option.map_eq_some_iff.1 ho
    obtain ⟨hset, hok⟩ := gcSetCdr_spec (hgrown3.inv.ok.withRoots
      (some v :: some elem :: some (.ptr t) :: some head :: r0.heap.roots)) ho3 hpair hnew.valid
    refine .step (setCdr_eq hset) (.of_ok rfl trivial ⟨?_, htoks3, heof3⟩)
    have hput := put_carries hok
    have hne : r1.heap.fresh ≠ t := hold1.ne'
    refine @Cells.cells _ _ (ds ++ [d0]) d v elem head r1.heap.fresh
      (by rw [← hv]; rfl) hnil (h.fresh.trans hgrown1.fresh) ⟨?_, elem, ?_, ?_⟩
    · -- the old last cell now points to the new one
      have hkept := hchain3.segment.carry (hput.mono fun a ha => ha.2.ne) hhead3
      refine Chain.snoc (t := t) ⟨hkept.1, car, ?_, ?_⟩ (Set.Ico_subset_Ico_right hold1.le)
        ⟨hfirst, hold1⟩
      · show ((Function.update r3.heap.mem t _) t).map GcObj.obj = _
        rw [Function.update_self, ← hv]
        rfl
      · refine hcar.carry (hput.mono fun a ha => ha.2.ne) ?_
        refine hgrown3.inv.ok.fields t hkept.2 o3 ho3 car ?_
        rw [hpair]
        exact List.mem_cons_self
    · show ((Function.update r3.heap.mem t _) r1.heap.fresh).map GcObj.obj = _
      rw [Function.update_of_ne hne]
      exact hlast
    · have hcar := hspells3.carry (hput.mono fun a ha => (hold.trans_le ha.1).ne') helem3
      exact hcar.mono hwide

theorem Cells.closed {r' : Reader} {d tail : Datum} {cell elem : Val} {t : Nat}
    (hroots : r'.heap.roots = some cell :: some elem :: some (.ptr t) :: some head :: r0.heap.roots)
    (hnil : head ≠ .nil) (hfirst : r0.heap.fresh ≤ t) (hold : t < r'.heap.fresh)
    (hchain : Chain r'.heap.mem (Set.Ico r0.heap.fresh t) t head cdr ds d)
    (hcdr : Spells r'.heap.mem (Set.Ico r0.heap.fresh r'.heap.fresh) cdr tail) :
    Closed r0 r' ((ds ++ [d]).foldr .pair tail) :=
  ⟨cell, elem, .ptr t, head, hroots, hnil,
    hchain.close (Set.Ico_subset_Ico_right hold.le) ⟨hfirst, hold⟩ hcdr⟩

theorem closeList_outcome {d : Datum} (h : Closed r0 r d) :
    ∃ v r', closeList r = (.ok v, r') ∧ r'.heap.mem = r.heap.mem ∧ r'.heap.fresh = r.heap.fresh ∧
      Spells r.heap.mem (Set.Ico r0.heap.fresh r.heap.fresh) v d ∧ SameText r r' := by
  obtain ⟨cell, elem, tail, head, hroots, hnil, hspells⟩ := h
  refine ⟨head, r.withRoots (r.heap.roots.drop 4), ?_, rfl, rfl, hspells, rfl, rfl⟩
  rw [closeList, Gc.bind_ok (getCell_eq (v := head) (by rw [hroots]; rfl)), if_neg hnil]
  rfl

theorem readAtom_outcome {d : Datum} (inv : Inv r objs) (hd : d.rootsNeeded = 0)
    (htoks : r.toks = d.tokens line ++ toks) :
    Outcome malloc (readDatum malloc (fuel + 1)) r (r.heap.roots.length + d.rootsNeeded ≤ 256)
      fun v r' => Spells r'.heap.mem (Set.Ico r.heap.fresh r'.heap.fresh) v d ∧ r'.toks = toks ∧
        r'.eofLine = r.eofLine := by
  have hfits : r.heap.roots.length + d.rootsNeeded ≤ 256 := by
    rw [hd]
    exact inv.bound
  have htail : ∀ tok : Token, r.toks = tok :: toks → r.next.toks = toks := fun tok h => by
    rw [Reader.next, h]
    rfl
  rw [readDatum]
  cases d with
  | nil => cases hd
  | pair car cdr =>
    simp only [Datum.rootsNeeded] at hd
    omega
  | bool b =>
    refine .step (lexNext_cons htoks (by cases b <;> nofun)).2 ?_
    cases b with
    | false => exact .of_ok rfl hfits ⟨rfl, htail _ htoks, rfl⟩
    | true => exact .of_ok rfl hfits ⟨rfl, htail _ htoks, rfl⟩
  | fix n =>
    have hval : n.val.bmod 4294967296 = n.val := by
      have hlower := n.lower
      have hupper := n.upper
      exact Int.bmod_eq_of_le (by omega) (by omega)
    refine .step (lexNext_cons htoks nofun).2 ?_
    exact .of_ok rfl hfits ⟨congrArg Val.fix hval, htail _ htoks, rfl⟩
  | sym name =>
    refine .step (lexNext_cons htoks nofun).2 ?_
    have inv' : Inv r.next objs := ⟨inv.ok, inv.cells, inv.bound, inv.waits⟩
    refine (symbol_outcome inv' name.chars).mono (iff_of_true inv.bound hfits) ?_
    rintro v r' - ⟨⟨objs', hgrown, hnew⟩, htext⟩
    obtain ⟨next, hobj⟩ := hnew.object
    refine ⟨⟨r.heap.fresh, ⟨Nat.le_refl _, ?_⟩, hnew.value, ?_⟩, htext.1.trans (htail _ htoks),
      htext.2⟩
    · exact hgrown.inv.ok.fresh _ hnew.mem
    · rw [show r'.heap.mem r.heap.fresh = _ from hobj]
      rfl

theorem Cells.last {d : Datum} (h : Cells r0 r (ds ++ [d])) :
    ∃ cell elem head t, r.heap.roots =
        some cell :: some elem :: some (.ptr t) :: some head :: r0.heap.roots ∧ head ≠ .nil ∧
      r0.heap.fresh ≤ t ∧
      Chain r.heap.mem (Set.Ico r0.heap.fresh t) t head .nil ds d := by
  generalize hds : ds ++ [d] = ds' at h
  cases h with
  | empty => exact absurd hds (by simp)
  | @cells ds1 d1 cell elem head t hroots hnil hfirst hchain =>
    obtain ⟨rfl, hd⟩ := List.append_inj' hds rfl
    obtain rfl : d = d1 := by simpa using hd
    exact ⟨cell, elem, head, t, hroots, hnil, hfirst, hchain⟩

theorem inList_room (h : InList r0 r objs) : r0.heap.roots.length + 4 ≤ 256 := by
  have hbound := h.inv.bound
  obtain ⟨hr, -⟩ | ⟨_, _, _, _, hr, -⟩ := h.vars <;> rw [hr] at hbound <;> exact hbound

theorem next_toks {tok : Token} (h : r.toks = tok :: toks) :
    r.next.toks = toks := by
  rw [Reader.next, h]
  rfl

theorem listBody_rparen (htoks : r.toks = ⟨.rparen, line⟩ :: toks) :
    listBody malloc datum (fuel + 1) r = (.ok (), r.next) := by
  rw [listBody, Gc.bind_ok (lexNext_cons htoks nofun).1]
  exact Gc.bind_ok (lexNext_cons htoks nofun).2

theorem listBody_dot (htoks : r.toks = ⟨.dot, line⟩ :: toks) :
    listBody malloc datum (fuel + 1) r = dottedCdr datum line r.next := by
  rw [listBody, Gc.bind_ok (lexNext_cons htoks nofun).1]
  exact Gc.bind_ok (lexNext_cons htoks nofun).2

theorem dotted_outcome {d x : Datum} (h : InList r0 r objs) (hgood : Good r)
    (hcells : Cells r0 r (ds ++ [d])) (hx : x.rootsNeeded = 0)
    (htoks : r.toks = x.tokens line ++ ⟨.rparen, line⟩ :: toks) :
    Outcome malloc (dottedCdr (readDatum malloc (fuel + 1)) line) r
      (r0.heap.roots.length + x.rootsNeeded ≤ 256) fun _ r' =>
        Closed r0 r' ((ds ++ [d]).foldr .pair x) ∧ r'.toks = toks ∧ r'.eofLine = r.eofLine := by
  obtain ⟨cell, elem0, head, t, hroots, hnil, hfirst, hchain⟩ := hcells.last
  have hold := hchain.old h.inv.ok
  have hroom := inList_room h
  refine Outcome.mono (F := r.heap.roots.length + x.rootsNeeded ≤ 256 ∧ True) ?_
    (by rw [hx, and_true]; exact iff_of_true h.inv.bound (by omega)) fun _ _ _ hQ => hQ
  refine .step (getCell_eq (v := head) (by rw [hroots]; rfl)) ?_
  rw [if_neg hnil]
  refine (readAtom_outcome h.inv hx htoks).bind fun elem r1 hrun _ ⟨hspells, htoks1, heof1⟩ => ?_
  obtain ⟨hgood1, objs1, hgrown1, helem⟩ :=
    safe_result (readDatum_spec (fuel + 1) r objs h.inv hgood) hrun
  refine .step (setCell_eq 1 elem r1) ?_
  rw [hgrown1.roots, hroots]
  have htoks2 : (r1.withRoots (some cell :: some elem :: some (.ptr t) :: some head ::
      r0.heap.roots)).toks = ⟨.rparen, line⟩ :: toks := htoks1
  refine .step (lexNext_cons htoks2 nofun).2 ?_
  rw [if_pos rfl]
  refine .step (getCell_eq rfl) ?_
  have hold1 : t < r1.heap.fresh := hold.trans_le hgrown1.fresh
  have hhead1 : Valid objs1 head := hgrown1.valid (by rw [hroots]; simp)
  have hbelow : Set.Ico r0.heap.fresh t ⊆ Set.Iio t := fun _ h => h.2
  have hchain1 := hchain.carry (grown_carries hgrown1)
    (hbelow.trans (Set.Iio_subset_Iio hold.le)) hold hhead1
  obtain ⟨car, ho, hcar⟩ := hchain1.last
  obtain ⟨o1, ho1, hpair⟩ := Option.map_eq_some_iff.1 ho
  obtain ⟨hset, hok⟩ := gcSetCdr_spec (hgrown1.inv.ok.withRoots
    (some cell :: some elem :: some (.ptr t) :: some head :: r0.heap.roots)) ho1 hpair helem
  refine .of_ok (setCdr_eq hset) trivial ⟨?_, next_toks htoks1, heof1⟩
  have hput := put_carries hok
  have hkept := hchain1.segment.carry (hput.mono fun a ha => ha.2.ne) hhead1
  refine Cells.closed rfl hnil hfirst hold1
    (⟨hkept.1, car, ?_, ?_⟩ : Chain _ _ t head elem ds d) ?_
  · show ((Function.update r1.heap.mem t _) t).map GcObj.obj = _
    rw [Function.update_self]
    rfl
  · refine hcar.carry (hput.mono fun a ha => ha.2.ne) ?_
    refine hgrown1.inv.ok.fields t hkept.2 o1 ho1 car ?_
    rw [hpair]
    exact List.mem_cons_self
  · have hnew := hspells.carry (hput.mono fun a ha => (hold.trans_le ha.1).ne') helem
    exact hnew.mono (Set.Ico_subset_Ico_left h.fresh)

/-! ## The whole datum -/

/-- What is left of a list of the text, when some of it was read. -/
def ReadsRest (malloc : Nat → Bool) (line : Nat) (body : ReadM Unit) (x : Datum) : Prop :=
  ∀ r0 r objs ds d toks, InList r0 r objs → Good r → Cells r0 r (ds ++ [d]) →
    r.toks = x.restTokens line ++ toks →
    Outcome malloc body r (r0.heap.roots.length + x.rootsNeeded ≤ 256) fun _ r' =>
      Closed r0 r' ((ds ++ [d]).foldr .pair x) ∧ r'.toks = toks ∧ r'.eofLine = r.eofLine

theorem inList_next (h : InList r0 r objs) : InList r0 r.next objs :=
  ⟨⟨h.inv.ok, h.inv.cells, h.inv.bound, h.inv.waits⟩, h.outer, h.fresh, h.frame, h.vars⟩

theorem cells_next (h : Cells r0 r ds) : Cells r0 r.next ds := by
  cases h with
  | empty hroots => exact .empty hroots
  | cells hroots hnil hfirst hchain => exact .cells hroots hnil hfirst hchain

theorem readsRest_nil :
    ReadsRest malloc line (listBody malloc datum (fuel + 1)) .nil := by
  intro r0 r objs ds d toks h hgood hcells htoks
  obtain ⟨cell, elem, head, t, hroots, hnil, hfirst, hchain⟩ := hcells.last
  have hroom := inList_room h
  exact .of_ok (listBody_rparen htoks) hroom
    ⟨Cells.closed hroots hnil hfirst (hchain.old h.inv.ok) hchain rfl, next_toks htoks, rfl⟩

theorem readsRest_atom {fuel' : Nat} {x : Datum} (hx : x.rootsNeeded = 0)
    (htokens : x.restTokens line = ⟨.dot, line⟩ :: (x.tokens line ++ [⟨.rparen, line⟩])) :
    ReadsRest malloc line (listBody malloc (readDatum malloc (fuel + 1)) (fuel' + 1)) x := by
  intro r0 r objs ds d toks h hgood hcells htoks
  rw [htokens, List.cons_append, List.append_assoc] at htoks
  have hdot : Outcome malloc (dottedCdr (readDatum malloc (fuel + 1)) line) r.next _ _ :=
    dotted_outcome (inList_next h) hgood (cells_next hcells) hx (next_toks htoks)
  unfold Outcome at hdot ⊢
  rw [listBody_dot htoks]
  exact hdot

theorem readsRest_pair {x y : Datum} (hspec : DatumSpec malloc datum)
    (hx : Reads malloc line datum x) (hy : ReadsRest malloc line (listBody malloc datum fuel) y) :
    ReadsRest malloc line (listBody malloc datum (fuel + 1)) (.pair x y) := by
  intro r0 r objs ds d toks h hgood hcells htoks
  rw [Datum.restTokens, List.append_assoc] at htoks
  have hrest : Outcome malloc (addElement malloc datum >>= fun _ => listBody malloc datum fuel) r
      (r0.heap.roots.length + max x.rootsNeeded 2 + 4 ≤ 256 ∧
        r0.heap.roots.length + y.rootsNeeded ≤ 256) fun _ r' =>
      Closed r0 r' ((ds ++ [d]).foldr .pair (.pair x y)) ∧ r'.toks = toks ∧
        r'.eofLine = r.eofLine := by
    refine (addElement_outcome hspec hx h hgood hcells htoks).bind
      fun _ r1 hrun _ ⟨hcells1, htoks1, heof1⟩ => ?_
    obtain ⟨hgood1, objs1, h1⟩ := safe_result (addElement_spec hspec h hgood) hrun
    refine (hy r0 r1 objs1 (ds ++ [d]) x toks h1 hgood1 hcells1 htoks1).mono Iff.rfl ?_
    rintro _ r2 - ⟨hclosed, htoks2, heof2⟩
    rw [List.foldr_append] at hclosed
    exact ⟨hclosed, htoks2, heof2.trans heof1⟩
  unfold Outcome at hrest ⊢
  rw [listBody_element htoks]
  have hfits : (r0.heap.roots.length + (Datum.pair x y).rootsNeeded ≤ 256) =
      (r0.heap.roots.length + max x.rootsNeeded 2 + 4 ≤ 256 ∧
        r0.heap.roots.length + y.rootsNeeded ≤ 256) := by
    rw [Datum.rootsNeeded]
    exact propext (by omega)
  rw [hfits]
  exact hrest

theorem inv_next (inv : Inv r objs) : Inv r.next objs := ⟨inv.ok, inv.cells, inv.bound, inv.waits⟩

theorem reads_nil : Reads malloc line (readDatum malloc (fuel + 2)) .nil := by
  intro r objs toks inv hgood htoks
  rw [readDatum]
  refine .step (lexNext_cons htoks nofun).2 ?_
  refine Outcome.mono (F := r.next.heap.roots.length + 4 ≤ 256 ∧ True) ?_ (Iff.of_eq (and_true _))
    fun _ _ _ hQ => hQ
  refine openList_outcome.bind ?_
  rintro _ r1 - - rfl
  have htoks1 : (opened r.next).toks = ⟨.rparen, line⟩ :: toks := next_toks htoks
  refine .step (listBody_rparen htoks1) ?_
  refine .step (getCell_eq (v := .nil) rfl) ?_
  rw [if_pos rfl]
  exact .of_ok rfl trivial ⟨rfl, next_toks htoks1, rfl⟩

theorem reads_pair {x y : Datum} (hx : Reads malloc line (readDatum malloc (fuel + 1)) x)
    (hy : ReadsRest malloc line (listBody malloc (readDatum malloc (fuel + 1)) fuel) y) :
    Reads malloc line (readDatum malloc (fuel + 2)) (.pair x y) := by
  intro r objs toks inv hgood htoks
  rw [Datum.tokens, List.cons_append, List.cons_append, List.append_assoc] at htoks
  have hspec := @readDatum_spec malloc (fuel + 1)
  rw [readDatum]
  refine .step (lexNext_cons htoks nofun).2 ?_
  refine Outcome.mono (F := r.heap.roots.length + 4 ≤ 256 ∧
    (r.heap.roots.length + max x.rootsNeeded 2 + 4 ≤ 256 ∧
      r.heap.roots.length + y.rootsNeeded ≤ 256) ∧ True) ?_
    (by rw [Datum.rootsNeeded, and_true]; omega) fun _ _ _ hQ => hQ
  refine openList_outcome.bind fun _ r1 hopen _ hr1 => ?_
  have hsafe : Gc.Safe malloc openList r.next _ := openList_spec (inv_next inv) hgood
  obtain ⟨hgood1, h1⟩ := safe_result hsafe hopen
  have hcells1 : Cells r.next r1 [] := .empty (by rw [hr1]; rfl)
  have htoks1 : r1.toks = x.tokens line ++ (y.restTokens line ++ toks) := by
    rw [hr1]
    exact next_toks htoks
  have heof1 : r1.eofLine = r.eofLine := by
    rw [hr1]
    rfl
  refine Outcome.bind (Q := fun _ r' => Closed r.next r' (.pair x y) ∧ r'.toks = toks ∧
    r'.eofLine = r.eofLine) ?_ ?_
  · have hlist : Outcome malloc (addElement malloc (readDatum malloc (fuel + 1)) >>= fun _ =>
        listBody malloc (readDatum malloc (fuel + 1)) fuel) r1
        (r.heap.roots.length + max x.rootsNeeded 2 + 4 ≤ 256 ∧
          r.heap.roots.length + y.rootsNeeded ≤ 256) fun _ r' =>
        Closed r.next r' (.pair x y) ∧ r'.toks = toks ∧ r'.eofLine = r.eofLine := by
      refine (addElement_outcome hspec hx h1 hgood1 hcells1 htoks1).bind
        fun _ r2 hrun _ ⟨hcells2, htoks2, heof2⟩ => ?_
      obtain ⟨hgood2, objs2, h2⟩ := safe_result (addElement_spec hspec h1 hgood1) hrun
      refine (hy r.next r2 objs2 [] x toks h2 hgood2 hcells2 htoks2).mono Iff.rfl ?_
      rintro _ r3 - ⟨hclosed, htoks3, heof3⟩
      exact ⟨hclosed, htoks3, heof3.trans (heof2.trans heof1)⟩
    unfold Outcome at hlist ⊢
    rw [listBody_element htoks1]
    exact hlist
  · rintro _ r3 - - ⟨hclosed, htoks3, heof3⟩
    obtain ⟨v, r4, hclose, hmem, hfresh, hspells, htext⟩ := closeList_outcome hclosed
    refine .of_ok hclose trivial ⟨?_, htext.1.trans htoks3, htext.2.trans heof3⟩
    rw [hmem, hfresh]
    exact hspells

mutual

theorem readDatum_reads (line : Nat) : ∀ (d : Datum) (fuel : Nat), d.size ≤ fuel →
    Reads malloc line (readDatum malloc fuel) d
  | d, 0, hfuel => absurd (d.two_le_size.trans hfuel) (by decide)
  | d, 1, hfuel => absurd (d.two_le_size.trans hfuel) (by decide)
  | .nil, _ + 2, _ => reads_nil
  | .bool _, _ + 2, _ => fun _ _ _ inv _ htoks => readAtom_outcome inv rfl htoks
  | .fix _, _ + 2, _ => fun _ _ _ inv _ htoks => readAtom_outcome inv rfl htoks
  | .sym _, _ + 2, _ => fun _ _ _ inv _ htoks => readAtom_outcome inv rfl htoks
  | .pair x y, fuel + 2, hfuel => by
    have hx2 := x.two_le_size
    have hy2 := y.two_le_size
    rw [Datum.size] at hfuel
    exact reads_pair (readDatum_reads line x (fuel + 1) (by omega))
      (listBody_reads line y (fuel + 1) fuel (by omega) (by omega))

theorem listBody_reads (line : Nat) : ∀ (x : Datum) (fuel fuel' : Nat), x.size ≤ fuel + 1 →
    x.size ≤ fuel' + 1 → ReadsRest malloc line (listBody malloc (readDatum malloc fuel) fuel') x
  | x, 0, _, hfuel, _ => absurd (x.two_le_size.trans hfuel) (by decide)
  | x, _, 0, _, hfuel => absurd (x.two_le_size.trans hfuel) (by decide)
  | .nil, _ + 1, _ + 1, _, _ => readsRest_nil
  | .bool _, _ + 1, _ + 1, _, _ => readsRest_atom rfl rfl
  | .fix _, _ + 1, _ + 1, _, _ => readsRest_atom rfl rfl
  | .sym _, _ + 1, _ + 1, _, _ => readsRest_atom rfl rfl
  | .pair x y, fuel + 1, fuel' + 1, hfuel, hfuel' => by
    have hx2 := x.two_le_size
    have hy2 := y.two_le_size
    rw [Datum.size] at hfuel hfuel'
    exact readsRest_pair (readDatum_spec _) (readDatum_reads line x (fuel + 1) (by omega))
      (listBody_reads line y (fuel + 1) fuel' (by omega) (by omega))

end

end Steps

/-! ## Reading the text of a datum -/

section RoundTrip

variable {malloc : Nat → Bool} {mem : Nat → Option GcObj} {S : Set Nat} {v : Val} {d : Datum}
  {file : String} {line fuel : Nat} {rest : List UInt8} {r : Reader} {objs : List Nat}

/-- A reader that has nothing open, with its registered variables assigned. -/
structure Ready (r : Reader) (objs : List Nat) : Prop where
  ok : r.heap.Ok objs
  roots : RootsOk r.heap.roots objs
  bound : r.heap.roots.length ≤ 256
  waiting : r.waiting = 0
  steps : r.steps = []

theorem Ready.inv (h : Ready r objs) : Inv r objs := by
  refine ⟨h.ok, h.roots.cells, h.bound, ?_⟩
  have hnone : none ∉ r.heap.roots := by
    intro hmem
    obtain ⟨v, hv, -⟩ := h.roots none hmem
    cases hv
  rw [h.waiting]
  exact iff_of_false hnone (Nat.lt_irrefl 0)

/-- `read_datum` gives the datum, in new objects, and takes the text up to `rest`. -/
def ReadsBack (malloc : Nat → Bool) (fuel : Nat) (file : String) (r : Reader) (d : Datum)
    (rest : Cursor) : Prop :=
  ∃ v r', readDatum malloc fuel r = (.ok v, r') ∧
    Spells r'.heap.mem (Set.Ico r.heap.fresh r'.heap.fresh) v d ∧
    Lexes file rest r'.toks r'.eofLine

theorem readDatum_text (hrest : Delimited rest) (ready : Ready r objs)
    (hlex : Lexes file ⟨d.text ++ rest, line⟩ r.toks r.eofLine) (hfuel : d.size ≤ fuel) :
    Outcome malloc (readDatum malloc fuel) r (r.heap.roots.length + d.rootsNeeded ≤ 256)
      fun v r' => Spells r'.heap.mem (Set.Ico r.heap.fresh r'.heap.fresh) v d ∧
        Lexes file ⟨rest, line⟩ r'.toks r'.eofLine := by
  have hgood : Good r := by
    intro s hs
    rw [ready.steps] at hs
    cases hs
  obtain ⟨toks, htoks, hlex'⟩ := (passes_text d [] rest (List.forall_mem_nil _) hrest _ _).1 hlex
  refine (readDatum_reads line d fuel hfuel r objs toks ready.inv hgood htoks).mono Iff.rfl ?_
  rintro v r' - ⟨hspells, rfl, heof⟩
  rw [heof]
  exact ⟨hspells, hlex'⟩

theorem ReadsBack.fits (h : ReadsBack malloc fuel file r d ⟨rest, line⟩) (hrest : Delimited rest)
    (ready : Ready r objs) (hlex : Lexes file ⟨d.text ++ rest, line⟩ r.toks r.eofLine)
    (hfuel : d.size ≤ fuel) : r.heap.roots.length + d.rootsNeeded ≤ 256 := by
  have hout : Outcome malloc (readDatum malloc fuel) r _ _ :=
    readDatum_text hrest ready hlex hfuel
  obtain ⟨v, r', hrun, -⟩ := h
  unfold Outcome at hout
  rw [hrun] at hout
  exact hout.1

/-- The text of a datum is read back exactly where the root stack has room for its open lists;
where it has not, the reader leaves the program with its message. -/
theorem scmPrint_readsBack_iff (hmalloc : ∀ k, malloc k = true) (hv : Spells mem S v d)
    (hrest : Delimited rest) (ready : Ready r objs)
    (hlex : Lexes file ⟨d.text ++ rest, line⟩ r.toks r.eofLine) (hfuel : d.size ≤ fuel)
    (hquiet : ∀ s ∈ (readDatum malloc fuel r).2.steps, s.collects malloc = true → s.waiting = 0) :
    scmPrint mem fuel v = .ok d.text ∧
      (ReadsBack malloc fuel file r d ⟨rest, line⟩ ↔
        r.heap.roots.length + d.rootsNeeded ≤ 256) ∧
      (256 < r.heap.roots.length + d.rootsNeeded →
        (readDatum malloc fuel r).1 = .error (.exit "gc: root stack overflow")) := by
  have hread : Outcome malloc (readDatum malloc fuel) r _ _ :=
    readDatum_text hrest ready hlex hfuel
  have hout := hread.cases hmalloc hquiet
  refine ⟨scmPrint_text d v fuel hv hfuel, ⟨fun h => h.fits hrest ready hlex hfuel, ?_⟩, ?_⟩
  · intro hfits
    obtain ⟨v', r', hrun, -, hQ⟩ | ⟨-, hnot⟩ := hout
    · exact ⟨v', r', hrun, hQ⟩
    · exact absurd hfits hnot
  · intro hfull
    obtain ⟨-, -, -, hfits, -⟩ | ⟨herror, -⟩ := hout
    · exact absurd hfits (Nat.not_le.2 hfull)
    · exact herror

/-- The list `(a)` and what surrounds it. -/
def shortDatum : Datum :=
  .pair (.sym ⟨[ch 'a'], nofun, fun _ h => List.mem_singleton.mp h ▸ rfl, rfl, by decide⟩) .nil

def shortMem : Nat → Option GcObj
  | 0 => some ⟨.symbol [ch 'a'], false, none⟩
  | 1 => some ⟨.pair (.ptr 0) .nil, false, some 0⟩
  | _ => none

def readerOf (d : Datum) : Reader := { heap := {}, toks := d.tokens 1, eofLine := 1 }

theorem readerOf_lexes (d : Datum) :
    Lexes "in.scm" ⟨d.text ++ [], 1⟩ (readerOf d).toks (readerOf d).eofLine :=
  (passes_text d [] [] (List.forall_mem_nil _) (by rintro _ ⟨⟩) _ _).2
    ⟨[], (List.append_nil _).symm, .eof rfl⟩

theorem readerOf_ready (d : Datum) : Ready (readerOf d) [] :=
  ⟨⟨rfl, List.nodup_nil, nofun, nofun, rfl, nofun, nofun, nofun⟩, nofun, Nat.zero_le _, rfl, rfl⟩

theorem scmPrint_readsBack_short :
    scmPrint shortMem 10 (.ptr 1) = .ok shortDatum.text ∧
      (ReadsBack (fun _ => true) 10 "in.scm" (readerOf shortDatum) shortDatum ⟨[], 1⟩ ↔
      0 + 6 ≤ 256) ∧
      (256 < 0 + 6 → (readDatum (fun _ => true) 10 (readerOf shortDatum)).1 =
        .error (.exit "gc: root stack overflow")) :=
  scmPrint_readsBack_iff (S := Set.univ) (d := shortDatum) (fun _ => rfl)
    ⟨1, trivial, rfl, _, _, rfl, ⟨0, trivial, rfl, rfl⟩, rfl⟩ nofun (readerOf_ready _)
    (readerOf_lexes _) (by decide) (by decide +kernel)

/-- `n` pairs of parentheses around `()`. -/
def nested : Nat → Datum
  | 0 => .nil
  | n + 1 => .pair (nested n) .nil

def nestedVal : Nat → Val
  | 0 => .nil
  | n + 1 => .ptr n

def nestedMem (a : Nat) : Option GcObj := some ⟨.pair (nestedVal a) .nil, false, none⟩

theorem nested_spells (n : Nat) : Spells nestedMem Set.univ (nestedVal n) (nested n) := by
  induction n with
  | zero => exact rfl
  | succ n ih => exact ⟨n, trivial, rfl, _, _, rfl, ih, rfl⟩

/-- 65 lists, one in the other, are more than the root stack takes. -/
theorem nested_not_read :
    Spells nestedMem Set.univ (nestedVal 64) (nested 64) ∧ Ready (readerOf (nested 64)) [] ∧
      Lexes "in.scm" ⟨(nested 64).text ++ [], 1⟩ (readerOf (nested 64)).toks 1 ∧
      ∀ fuel, (nested 64).size ≤ fuel →
        scmPrint nestedMem fuel (nestedVal 64) = .ok (nested 64).text ∧
          ¬ ReadsBack (fun _ => true) fuel "in.scm" (readerOf (nested 64)) (nested 64) ⟨[], 1⟩ := by
  refine ⟨nested_spells 64, readerOf_ready _, readerOf_lexes _, fun fuel hfuel => ?_⟩
  refine ⟨scmPrint_text _ _ fuel (nested_spells 64) hfuel, fun h => ?_⟩
  have hfits := h.fits nofun (readerOf_ready _) (readerOf_lexes _) hfuel
  exact absurd hfits (by decide +kernel)

end RoundTrip

end MechanicalResearcher.PortableCompiler.SchemeText
