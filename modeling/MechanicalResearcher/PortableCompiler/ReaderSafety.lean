import MechanicalResearcher.PortableCompiler.Reader

/-!
# The reader and the collector

Between two allocations every registered variable that was assigned holds a value that is still
there, and a registered variable that was not assigned belongs to a list without a cell.  So a
collection is safe exactly when no open list waits for its first cell.
-/

namespace MechanicalResearcher.PortableCompiler.Gc

open Relation

variable {v : Val} {h : Heap} {objs1 : List Nat} {obj : Obj}

/-- The collector runs at this allocation. -/
def Step.collects (malloc : Nat → Bool) (s : Step) : Bool :=
  s.heap.roots.length ≤ 256 && s.heap.collects malloc

/-- The reader as it stands between two of its operations. -/
structure Inv (r : Reader) (objs : List Nat) : Prop where
  ok : r.heap.Ok objs
  cells : CellsOk r.heap.roots objs
  bound : r.heap.roots.length ≤ 256
  waits : none ∈ r.heap.roots ↔ 0 < r.waiting

/-- The same of a recorded allocation. -/
def Step.Ok (s : Step) : Prop :=
  ∃ objs, s.heap.Ok objs ∧ CellsOk s.heap.roots objs ∧ (none ∈ s.heap.roots ↔ 0 < s.waiting)

def Good (r : Reader) : Prop := ∀ s ∈ r.steps, s.Ok

/-- A collection while a list waits for its first cell. -/
def Bad (malloc : Nat → Bool) (r : Reader) : Prop :=
  ∃ s ∈ r.steps, s.collects malloc = true ∧ 0 < s.waiting

/-- From `r`, `x` ends as `Q` says or leaves the program; it is undefined only after a bad
collection. -/
def Safe {α : Type} (malloc : Nat → Bool) (x : ReadM α) (r : Reader) (Q : α → Reader → Prop) :
    Prop :=
  Good (x r).2 ∧
    match (x r).1 with
    | .ok a => Q a (x r).2
    | .error e => e = .undefined → Bad malloc (x r).2

section Rules

variable {malloc : Nat → Bool} {α β : Type} {x : ReadM α} {f : α → ReadM β} {r r' : Reader}
  {Q : α → Reader → Prop} {Q' : β → Reader → Prop}

theorem bind_ok {a : α} (h : x r = (.ok a, r')) : (x >>= f) r = f a r' := by
  simp only [bind, ExceptT.bind, ExceptT.mk, StateT.bind]
  rw [show x r = (.ok a, r') from h]
  rfl

theorem bind_error {e : Stop} (h : x r = (.error e, r')) : (x >>= f) r = (.error e, r') := by
  simp only [bind, ExceptT.bind, ExceptT.mk, StateT.bind]
  rw [show x r = (.error e, r') from h]
  rfl

theorem Safe.of_ok {a : α} (hx : x r = (.ok a, r')) (hgood : Good r') (hQ : Q a r') :
    Safe malloc x r Q := by
  unfold Safe
  rw [hx]
  exact ⟨hgood, hQ⟩

theorem Safe.of_error {e : Stop} (hx : x r = (.error e, r')) (hgood : Good r')
    (he : e = .undefined → Bad malloc r') : Safe malloc x r Q := by
  unfold Safe
  rw [hx]
  exact ⟨hgood, he⟩

theorem Safe.bind (hx : Safe malloc x r Q) (hf : ∀ a r', Good r' → Q a r' →
    Safe malloc (f a) r' Q') :
    Safe malloc (x >>= f) r Q' := by
  obtain ⟨hgood, hx⟩ := hx
  rcases hrun : x r with ⟨a | a, r'⟩
  · rw [hrun] at hgood hx
    exact .of_error (bind_error hrun) hgood hx
  · rw [hrun] at hgood hx
    have hnext := hf a r' hgood hx
    unfold Safe at hnext ⊢
    rw [bind_ok hrun]
    exact hnext

theorem Safe.step {a : α} (hx : x r = (.ok a, r')) (hf : Safe malloc (f a) r' Q') :
    Safe malloc (x >>= f) r Q' := by
  unfold Safe at hf ⊢
  rw [bind_ok hx]
  exact hf

theorem Safe.mono (hx : Safe malloc x r Q) {Q1 : α → Reader → Prop}
    (h : ∀ a r', Q a r' → Q1 a r') : Safe malloc x r Q1 := by
  obtain ⟨hgood, hx⟩ := hx
  refine ⟨hgood, ?_⟩
  split at hx
  · exact h _ _ hx
  · exact hx

theorem Safe.exit (hgood : Good r) (msg : String) : Safe malloc (throw (.exit msg) : ReadM α) r Q :=
  .of_error rfl hgood (by simp)

theorem Safe.die (hgood : Good r) {line : Nat} {msg : String} :
    Safe malloc (Gc.die line msg : ReadM α) r Q :=
  .exit hgood _

theorem Safe.fuel (hgood : Good r) : Safe malloc (throw .fuel : ReadM α) r Q :=
  .of_error rfl hgood (by simp)

theorem Safe.pure {a : α} (hgood : Good r) (hQ : Q a r) : Safe malloc (Pure.pure a : ReadM α) r Q :=
  .of_ok rfl hgood hQ

theorem get_bind {g : Reader → ReadM α} : ((get : ReadM Reader) >>= g) r = g r r := rfl

theorem set_bind {g : Unit → ReadM α} : ((set r' : ReadM Unit) >>= g) r = g () r' := rfl

theorem lexPeek_eq (r : Reader) :
    (∃ t, lexPeek r = (.ok t, r)) ∨ ∃ msg, lexPeek r = (.error (.exit msg), r) := by
  rw [lexPeek, get_bind]
  rcases r.toks with _ | ⟨⟨kind, line⟩, toks⟩
  · exact .inl ⟨_, rfl⟩
  · cases kind with
    | bad msg => exact .inr ⟨msg, rfl⟩
    | _ => exact .inl ⟨_, rfl⟩

/-- The reader behind its first token. -/
def Reader.next (r : Reader) : Reader := { r with toks := r.toks.tail }

theorem Safe.peek (hgood : Good r) {g : Token → ReadM β} (hg : ∀ t, Safe malloc (g t) r Q') :
    Safe malloc (lexPeek >>= g) r Q' := by
  obtain ⟨t, ht⟩ | ⟨msg, hmsg⟩ := lexPeek_eq r
  · exact .step ht (hg t)
  · exact .of_error (bind_error hmsg) hgood (by simp)

theorem Safe.next (hgood : Good r) {g : Token → ReadM β} (hg : ∀ t, Safe malloc (g t) r.next Q') :
    Safe malloc (lexNext >>= g) r Q' := by
  obtain ⟨t, ht⟩ | ⟨msg, hmsg⟩ := lexPeek_eq r
  · have hrun : lexNext r = (.ok t, r.next) := by
      rw [lexNext, bind_ok ht]
      rfl
    exact .step hrun (hg t)
  · have hrun : lexNext r = (.error (.exit msg), r) := by rw [lexNext, bind_error hmsg]
    exact .of_error (bind_error hrun) hgood (by simp)

theorem getCell_eq {i : Nat} (h : r.heap.roots[i]? = some (some v)) :
    getCell i r = (.ok v, r) := by
  rw [getCell, get_bind, h]
  rfl

theorem setCdr_eq {w : Val} (hset : gcSetCdr v w r.heap = .ok h) :
    setCdr v w r = (.ok (), { r with heap := h }) := by
  rw [setCdr, get_bind, hset]
  rfl

end Rules

/-! ## Allocation -/

/-- The objects below `n` are gone or as they were. -/
def Frame (n : Nat) (h h' : Heap) : Prop :=
  ∀ b < n, ∀ o', h'.mem b = some o' → ∃ o, h.mem b = some o ∧ o'.obj = o.obj

theorem Frame.refl (n : Nat) (h : Heap) : Frame n h h := fun _ _ o' ho => ⟨o', ho, rfl⟩

theorem Frame.trans {n m : Nat} {h1 h2 : Heap} (hf : Frame n h h1) (hf' : Frame m h1 h2)
    (hnm : n ≤ m) : Frame n h h2 := by
  intro b hb o2 ho2
  obtain ⟨o1, ho1, hobj1⟩ := hf' b (Nat.lt_of_lt_of_le hb hnm) o2 ho2
  obtain ⟨o, ho, hobj⟩ := hf b hb o1 ho1
  exact ⟨o, ho, hobj1.trans hobj⟩

/-- What reading something leaves of the state `r`: the registered variables as they were, and no
older object changed. -/
structure Grown (r r' : Reader) (objs' : List Nat) : Prop where
  inv : Inv r' objs'
  roots : r'.heap.roots = r.heap.roots
  waiting : r'.waiting = r.waiting
  fresh : r.heap.fresh ≤ r'.heap.fresh
  frame : Frame r.heap.fresh r.heap r'.heap

theorem Grown.refl {r : Reader} {objs : List Nat} (inv : Inv r objs) : Grown r r objs :=
  ⟨inv, rfl, rfl, Nat.le_refl _, .refl _ _⟩

theorem Grown.trans {r r1 r2 : Reader} {objs2 : List Nat} (h : Grown r r1 objs1)
    (h' : Grown r1 r2 objs2) : Grown r r2 objs2 where
  inv := h'.inv
  roots := h'.roots.trans h.roots
  waiting := h'.waiting.trans h.waiting
  fresh := h.fresh.trans h'.fresh
  frame := h.frame.trans h'.frame h.fresh

theorem readRoots_none {cells : List (Option Val)} (h : none ∈ cells) :
    readRoots cells = .error .undefined := by
  induction cells with
  | nil => cases h
  | cons c cells ih =>
    cases c with
    | none => rfl
    | some v =>
      have hmem : none ∈ cells := by simpa using h
      rw [readRoots, ih hmem]

theorem gcCollect_none {fuel : Nat} (hnone : none ∈ h.roots) :
    gcCollect fuel h = .error .undefined := by
  rw [gcCollect, readRoots_none (List.mem_reverse.2 hnone)]
  rfl

theorem gcAlloc_none {malloc : Nat → Bool} {fuel : Nat} {h : Heap} {obj : Obj}
    (hcollects : h.collects malloc = true) (hnone : none ∈ h.roots) :
    gcAlloc malloc fuel obj h = .error .undefined := by
  unfold gcAlloc
  by_cases hc : h.count ≥ h.threshold
  · rw [if_pos hc, gcCollect_none hnone]
    rfl
  · rw [if_neg hc]
    have hm : malloc h.mallocs = false := by
      simpa [Heap.collects, hc] using hcollects
    simp only [gcMalloc, hm, bind, Except.bind, pure, Except.pure, Bool.false_eq_true, if_false]
    rw [gcCollect_none (h := { h with mallocs := h.mallocs + 1 }) hnone]

section Allocate

variable {malloc : Nat → Bool} {r : Reader} {objs : List Nat}

theorem Heap.Ok.length_lt (ok : h.Ok objs) : objs.length < h.fresh + 1 := by
  have hsub : objs.toFinset ⊆ Finset.range h.fresh := by
    intro a ha
    exact Finset.mem_range.2 (ok.fresh a (List.mem_toFinset.1 ha))
  have hcard := Finset.card_le_card hsub
  rw [List.toFinset_card_of_nodup ok.nodup, Finset.card_range] at hcard
  omega

theorem Made.grown {h' : Heap} {objs' : List Nat} {steps : List Step} (inv : Inv r objs)
    (m : Made r.heap objs obj v h' objs') :
    Grown r { r with heap := h', steps := steps } objs' where
  inv := {
    ok := m.ok
    cells := by
      rintro w hw a rfl
      have hw : some (Val.ptr a) ∈ h'.roots := hw
      rw [m.roots] at hw
      exact m.kept a ⟨a, hw, .refl⟩
    bound := by
      show h'.roots.length ≤ 256
      rw [m.roots]
      exact inv.bound
    waits := by
      show none ∈ h'.roots ↔ 0 < r.waiting
      rw [m.roots]
      exact inv.waits }
  roots := m.roots
  waiting := rfl
  fresh := by
    show r.heap.fresh ≤ h'.fresh
    rw [m.fresh]
    exact Nat.le_succ _
  frame b hb o' ho' := by
    have hmem : b ∈ objs' := m.ok.owned b o' ho'
    obtain ⟨-, o, o1, ho, ho1, hobj⟩ := m.contents b hmem (Nat.ne_of_lt hb)
    have ho' : h'.mem b = some o' := ho'
    rw [ho1] at ho'
    cases ho'
    exact ⟨o, ho, hobj⟩

/-- The value points to a new object. -/
structure New (r : Reader) (obj : Obj) (v : Val) (r' : Reader) (objs' : List Nat) : Prop where
  value : v = .ptr r.heap.fresh
  mem : r.heap.fresh ∈ objs'
  object : ∃ next, r'.heap.mem r.heap.fresh = some ⟨obj, false, next⟩

/-- The reader behind an allocation that registered `vs`. -/
def Reader.logged (r : Reader) (vs : List Val) : Reader :=
  { r with
    steps := r.steps ++ [⟨{ r.heap with roots := vs.reverse.map some ++ r.heap.roots },
      r.waiting⟩] }

theorem allocate_run (malloc : Nat → Bool) (inv : Inv r objs) {vs : List Val}
    (hvs : ∀ v ∈ vs, Valid objs v) (hobj : ∀ v ∈ obj.fields, v ∈ vs) :
    (∃ v h' objs', allocate vs (fun fuel => gcProtected malloc fuel vs obj) r =
        (.ok v, { r.logged vs with heap := h' }) ∧ Made r.heap objs obj v h' objs' ∧
        r.heap.roots.length + vs.length ≤ 256) ∨
      (∃ msg, allocate vs (fun fuel => gcProtected malloc fuel vs obj) r =
        (.error (.exit msg), r.logged vs) ∧ Exits malloc r.heap vs.length msg) ∨
      (allocate vs (fun fuel => gcProtected malloc fuel vs obj) r =
        (.error .undefined, r.logged vs) ∧ Bad malloc (r.logged vs)) := by
  have hmakes (v h) (hgc : gcProtected malloc (r.heap.fresh + 1) vs obj r.heap = .ok (v, h)) :
      allocate vs (fun fuel => gcProtected malloc fuel vs obj) r =
        (.ok v, { r.logged vs with heap := h }) := by
    rw [allocate, get_bind, set_bind]
    dsimp only
    rw [hgc]
    rfl
  have hfails (e) (hgc : gcProtected malloc (r.heap.fresh + 1) vs obj r.heap = .error e) :
      allocate vs (fun fuel => gcProtected malloc fuel vs obj) r = (.error e, r.logged vs) := by
    rw [allocate, get_bind, set_bind]
    dsimp only
    rw [hgc]
    rfl
  obtain ⟨hpush, hlen⟩ | ⟨hpush, hlen⟩ := gcPushAll_eq vs r.heap
  swap
  · have hexit : gcProtected malloc (r.heap.fresh + 1) vs obj r.heap =
        .error (.exit "gc: root stack overflow") := by
      rw [gcProtected, hpush]
      rfl
    exact .inr (.inl ⟨_, hfails _ hexit, .inl ⟨rfl, hlen⟩⟩)
  have hbound := hlen inv.bound
  by_cases hcollect : r.heap.collects malloc = true → none ∉ r.heap.roots
  · obtain ⟨v, h', objs', hmade, hm⟩ | ⟨msg, hexit, hexits⟩ :=
      gcProtected_spec inv.ok inv.cells inv.ok.length_lt hcollect hvs hobj
    · exact .inl ⟨v, h', objs', hmakes v h' hmade, hm, hbound⟩
    · exact .inr (.inl ⟨msg, hfails _ hexit, hexits⟩)
  · simp only [Classical.not_imp, not_not] at hcollect
    obtain ⟨hcollects, hnone⟩ := hcollect
    have hund : gcProtected malloc (r.heap.fresh + 1) vs obj r.heap = .error .undefined := by
      have halloc := @gcAlloc_none malloc (r.heap.fresh + 1)
        { r.heap with roots := vs.reverse.map some ++ r.heap.roots } obj hcollects
        (List.mem_append_right _ hnone)
      rw [gcProtected, hpush]
      simp only [bind, Except.bind, halloc]
    refine .inr (.inr ⟨hfails _ hund, _, List.mem_append_right _ List.mem_cons_self, ?_,
      inv.waits.1 hnone⟩)
    have hcollects' : Heap.collects malloc
        { r.heap with roots := vs.reverse.map some ++ r.heap.roots } = true := hcollects
    simp only [Step.collects, hcollects', Bool.and_true, decide_eq_true_eq]
    simp only [List.length_append, List.length_map, List.length_reverse]
    omega

theorem Inv.logged (inv : Inv r objs) (hgood : Good r) {vs : List Val}
    (hvs : ∀ v ∈ vs, Valid objs v) (h : Heap) : Good { r.logged vs with heap := h } := by
  intro t ht
  obtain ht | ht := List.mem_append.1 ht
  · exact hgood t ht
  · obtain rfl := List.mem_singleton.1 ht
    refine ⟨objs, inv.ok.withRoots _, ?_, ?_⟩
    · intro v hv
      have hv : some v ∈ vs.reverse.map some ++ r.heap.roots := hv
      simp only [List.mem_append, List.mem_map, List.mem_reverse, Option.some.injEq,
        exists_eq_right] at hv
      obtain hv | hv := hv
      · exact hvs v hv
      · exact inv.cells v hv
    · show none ∈ vs.reverse.map some ++ r.heap.roots ↔ 0 < r.waiting
      rw [← inv.waits]
      simp

theorem allocate_spec (inv : Inv r objs) (hgood : Good r) {vs : List Val}
    (hvs : ∀ v ∈ vs, Valid objs v) {obj : Obj} (hobj : ∀ v ∈ obj.fields, v ∈ vs) :
    Safe malloc (allocate vs fun fuel => gcProtected malloc fuel vs obj) r fun v r' =>
      ∃ objs', Grown r r' objs' ∧ New r obj v r' objs' := by
  have hgood' := inv.logged hgood hvs
  obtain ⟨v, h', objs', hrun, hm, -⟩ | ⟨msg, hrun, -⟩ | ⟨hrun, hbad⟩ :=
    allocate_run malloc inv hvs hobj
  · exact .of_ok hrun (hgood' h') ⟨objs', hm.grown inv, hm.value, hm.object.1, hm.object.2⟩
  · exact .of_error hrun (hgood' r.heap) nofun
  · exact .of_error hrun (hgood' r.heap) fun _ => hbad

theorem New.valid {r' : Reader} {objs' : List Nat} (h : New r obj v r' objs') :
    Valid objs' v := by
  intro a ha
  rw [h.value] at ha
  cases ha
  exact h.mem

theorem cons_spec (inv : Inv r objs) (hgood : Good r) {car cdr : Val} (hcar : Valid objs car)
    (hcdr : Valid objs cdr) : Safe malloc (cons malloc car cdr) r fun v r' =>
      ∃ objs', Grown r r' objs' ∧ New r (.pair car cdr) v r' objs' := by
  have hop : (fun fuel => gcCons malloc fuel car cdr) =
      fun fuel => gcProtected malloc fuel [car, cdr] (.pair car cdr) := by
    funext fuel h
    exact gcCons_eq car cdr h
  rw [cons, hop]
  refine allocate_spec inv hgood ?_ fun v hv => hv
  intro v hv
  obtain rfl | hv := List.mem_cons.1 hv
  · exact hcar
  · obtain rfl := List.mem_singleton.1 hv
    exact hcdr

theorem symbol_spec (inv : Inv r objs) (hgood : Good r) (data : List UInt8) :
    Safe malloc (symbol malloc data) r fun v r' =>
      ∃ objs', Grown r r' objs' ∧ New r (.symbol data) v r' objs' :=
  @allocate_spec _ _ _ inv hgood [] (by simp) _ (by simp [Obj.fields])

theorem string_spec (inv : Inv r objs) (hgood : Good r) (data : List UInt8) :
    Safe malloc (string malloc data) r fun v r' =>
      ∃ objs', Grown r r' objs' ∧ New r (.string data) v r' objs' :=
  @allocate_spec _ _ _ inv hgood [] (by simp) _ (by simp [Obj.fields])

end Allocate

/-! ## Variables -/

section Vars

variable {malloc : Nat → Bool} {r r' : Reader} {objs objs' : List Nat}

theorem Grown.valid (h : Grown r r' objs') (hv : some v ∈ r.heap.roots) :
    Valid objs' v := by
  rw [← h.roots] at hv
  exact h.inv.cells v hv

theorem Grown.object (h : Grown r r' objs') (inv : Inv r objs) {t : Nat} {o : GcObj}
    (hv : some (Val.ptr t) ∈ r.heap.roots) (ho : r.heap.mem t = some o) :
    ∃ o', r'.heap.mem t = some o' ∧ o'.obj = o.obj := by
  obtain ⟨o', ho'⟩ := h.inv.ok.linked.mem_some (h.valid hv t rfl)
  obtain ⟨o1, ho1, hobj⟩ := h.frame t (inv.ok.fresh t (inv.ok.owned t o ho)) o' ho'
  rw [ho] at ho1
  cases ho1
  exact ⟨o', ho', hobj⟩

theorem gcSetCdr_spec (ok : h.Ok objs) {t : Nat} {o : GcObj} {car cdr x : Val}
    (ho : h.mem t = some o) (hpair : o.obj = .pair car cdr) (hx : Valid objs x) :
    gcSetCdr (.ptr t) x h = .ok (h.put t { o with obj := .pair car x }) ∧
      (h.put t { o with obj := .pair car x }).Ok objs := by
  have hput : ∀ b o', (h.put t { o with obj := .pair car x }).mem b = some o' →
      (b = t ∧ o' = { o with obj := .pair car x }) ∨ (b ≠ t ∧ h.mem b = some o') := by
    intro b o' hb
    by_cases hbt : b = t
    · subst hbt
      simp only [Heap.put, Function.update_self, Option.some.injEq] at hb
      exact .inl ⟨rfl, hb.symm⟩
    · simp only [Heap.put, Function.update_of_ne hbt] at hb
      exact .inr ⟨hbt, hb⟩
  refine ⟨by simp [gcSetCdr, ho, hpair], ?_⟩
  constructor
  case linked =>
    refine ok.linked.congr fun b _ => ?_
    by_cases hbt : b = t
    · subst hbt
      simp [Heap.put, ho]
    · simp [Heap.put, hbt]
  case nodup => exact ok.nodup
  case marks =>
    intro b hb o' ho'
    obtain ⟨rfl, rfl⟩ | ⟨-, hold⟩ := hput b o' ho'
    · exact ok.marks b hb o ho
    · exact ok.marks b hb o' hold
  case fields =>
    intro b hb o' ho' v hv
    obtain ⟨rfl, rfl⟩ | ⟨-, hold⟩ := hput b o' ho'
    · obtain rfl | hv := List.mem_cons.1 hv
      · exact ok.fields b hb o ho v (by simp [hpair, Obj.fields])
      · obtain rfl := List.mem_singleton.1 hv
        exact hx
    · exact ok.fields b hb o' hold v hv
  case count => exact ok.count
  case owned =>
    intro b o' ho'
    obtain ⟨rfl, -⟩ | ⟨-, hold⟩ := hput b o' ho'
    · exact ok.owned b o ho
    · exact ok.owned b o' hold
  case fresh => exact ok.fresh
  case freed =>
    intro b hb
    obtain ⟨hnone, hlt⟩ := ok.freed b hb
    have hbt : b ≠ t := by
      rintro rfl
      rw [ho] at hnone
      cases hnone
    exact ⟨by simpa [Heap.put, hbt] using hnone, hlt⟩

/-- The reader with other root cells. -/
def Reader.withRoots (r : Reader) (roots : List (Option Val)) : Reader :=
  { r with heap := { r.heap with roots := roots } }

theorem pushCell_eq (c : Option Val) (r : Reader) :
    (r.heap.roots.length < 256 ∧ pushCell c r = (.ok (), r.withRoots (c :: r.heap.roots))) ∨
      256 ≤ r.heap.roots.length ∧
        pushCell c r = (.error (.exit "gc: root stack overflow"), r) := by
  rw [pushCell, get_bind, gcPush]
  by_cases hfull : r.heap.roots.length ≥ 256
  · rw [if_pos hfull]
    exact .inr ⟨hfull, rfl⟩
  · rw [if_neg hfull]
    exact .inl ⟨by omega, rfl⟩

theorem Safe.push {α : Type} {Q : α → Reader → Prop} {c : Option Val} {f : Unit → ReadM α}
    (hgood : Good r)
    (hf : r.heap.roots.length < 256 → Safe malloc (f ()) (r.withRoots (c :: r.heap.roots)) Q) :
    Safe malloc (pushCell c >>= f) r Q := by
  obtain ⟨hlt, hrun⟩ | ⟨-, hrun⟩ := pushCell_eq c r
  · exact .step hrun (hf hlt)
  · exact .of_error (bind_error hrun) hgood (by simp)

theorem setCell_eq (i : Nat) (v : Val) (r : Reader) :
    setCell i v r = (.ok (), r.withRoots (r.heap.roots.set i (some v))) := rfl

end Vars

/-! ## Lists -/

/-- The variables of a list that was opened at `r0`: without a cell, or with the last cell
behind `tail`. -/
def ListVars (r0 r : Reader) : Prop :=
  (r.heap.roots = none :: none :: some .nil :: some .nil :: r0.heap.roots ∧
    r.waiting = r0.waiting + 1) ∨
  ∃ cell elem t head, r.heap.roots =
      some cell :: some elem :: some (.ptr t) :: some head :: r0.heap.roots ∧
    head ≠ .nil ∧ r.waiting = r0.waiting ∧ r0.heap.fresh ≤ t ∧
    ∃ o car cdr, r.heap.mem t = some o ∧ o.obj = .pair car cdr

structure InList (r0 r : Reader) (objs : List Nat) : Prop where
  inv : Inv r objs
  outer : none ∈ r0.heap.roots ↔ 0 < r0.waiting
  fresh : r0.heap.fresh ≤ r.heap.fresh
  frame : Frame r0.heap.fresh r0.heap r.heap
  vars : ListVars r0 r

/-- Reading a datum keeps the registered variables and gives a valid value. -/
def DatumSpec (malloc : Nat → Bool) (datum : ReadM Val) : Prop :=
  ∀ r objs, Inv r objs → Good r → Safe malloc datum r fun v r' =>
    ∃ objs', Grown r r' objs' ∧ Valid objs' v

section Lists

variable {malloc : Nat → Bool} {r0 r : Reader} {objs : List Nat} {datum : ReadM Val}

theorem openList_spec (inv : Inv r objs) (hgood : Good r) :
    Safe malloc openList r fun _ r' => InList r r' objs := by
  refine .push hgood fun _ => .push hgood fun _ => .push hgood fun _ => .push hgood fun hlt => ?_
  refine .of_ok rfl hgood ⟨⟨inv.ok.withRoots _, ?_, hlt, ?_⟩, inv.waits, Nat.le_refl _,
    .refl _ _, .inl ⟨rfl, rfl⟩⟩
  · intro v hv
    have hv : some v ∈ none :: none :: some .nil :: some .nil :: r.heap.roots := hv
    simp only [List.mem_cons, reduceCtorEq, Option.some.injEq, false_or] at hv
    obtain rfl | rfl | hv := hv
    · simp [Valid]
    · simp [Valid]
    · exact inv.cells v hv
  · show none ∈ none :: none :: some .nil :: some .nil :: r.heap.roots ↔ 0 < r.waiting + 1
    simp

theorem InList.of_cells {r1 : Reader} (h : InList r0 r objs) (v elem : Val) (t : Nat) (head : Val)
    (ok : r1.heap.Ok objs1) (hfresh : r.heap.fresh ≤ r1.heap.fresh)
    (hframe : Frame r0.heap.fresh r0.heap r1.heap)
    (hroots : r1.heap.roots = some v :: some elem :: some (.ptr t) :: some head :: r0.heap.roots)
    (hbase : CellsOk r0.heap.roots objs1) (hv : Valid objs1 v) (helem : Valid objs1 elem)
    (ht : r0.heap.fresh ≤ t) (hhead : Valid objs1 head) (hnil : head ≠ .nil)
    (hwaiting : r1.waiting = r0.waiting)
    (hpair : ∃ o car cdr, r1.heap.mem t = some o ∧ o.obj = .pair car cdr) :
    InList r0 r1 objs1 := by
  refine ⟨⟨ok, ?_, ?_, ?_⟩, h.outer, h.fresh.trans hfresh, hframe,
    .inr ⟨v, elem, t, head, hroots, hnil, hwaiting, ht, hpair⟩⟩
  · intro w hw
    rw [hroots] at hw
    simp only [List.mem_cons, Option.some.injEq] at hw
    obtain rfl | rfl | rfl | rfl | hw := hw
    · exact hv
    · exact helem
    · obtain ⟨o, -, -, ho, -⟩ := hpair
      rintro a ⟨⟩
      exact ok.owned t o ho
    · exact hhead
    · exact hbase w hw
  · have hbound := h.inv.bound
    rw [hroots]
    obtain ⟨hr, -⟩ | ⟨_, _, _, _, hr, -⟩ := h.vars <;> rw [hr] at hbound <;> exact hbound
  · rw [hroots, hwaiting, ← h.outer]
    simp

theorem InList.element {r1 : Reader} (h : InList r0 r objs) (hgrown : Grown r r1 objs1) {elem : Val}
    (helem : Valid objs1 elem) :
    Inv (r1.withRoots (r.heap.roots.set 1 (some elem))) objs1 := by
  refine ⟨hgrown.inv.ok.withRoots _, ?_, ?_, ?_⟩
  · intro v hv
    cases List.mem_or_eq_of_mem_set hv with
    | inl hv => exact hgrown.valid hv
    | inr hv =>
      cases hv
      exact helem
  · show (r.heap.roots.set 1 (some elem)).length ≤ 256
    rw [List.length_set]
    exact h.inv.bound
  · show none ∈ r.heap.roots.set 1 (some elem) ↔ 0 < r1.waiting
    rw [hgrown.waiting]
    obtain ⟨hr, hw⟩ | ⟨cell, elem0, t, head, hr, -, hw, -⟩ := h.vars
    · rw [hr, hw]
      simp
    · rw [hr, hw, ← h.outer]
      simp

theorem addElement_spec (hdatum : DatumSpec malloc datum) (h : InList r0 r objs) (hgood : Good r) :
    Safe malloc (addElement malloc datum) r fun _ r' => ∃ objs', InList r0 r' objs' := by
  refine (hdatum r objs h.inv hgood).bind ?_
  rintro elem r1 hgood1 ⟨objs1, hgrown1, helem⟩
  refine .step (setCell_eq 1 elem r1) ?_
  have hframe1 : Frame r0.heap.fresh r0.heap r1.heap := h.frame.trans hgrown1.frame h.fresh
  have inv2 := h.element hgrown1 helem
  obtain ⟨hr, hw⟩ | ⟨cell, elem0, t, head, hr, hnil, hw, ht, o, car, cdr, ho, hpair⟩ := h.vars
  · -- the first element
    have hr1 : r1.heap.roots = none :: none :: some .nil :: some .nil :: r0.heap.roots :=
      hgrown1.roots.trans hr
    rw [hr] at inv2
    rw [hr1]
    refine (cons_spec inv2 hgood1 helem (by simp [Valid])).bind ?_
    rintro v r3 hgood3 ⟨objs3, hgrown3, hnew⟩
    have hr3 : r3.heap.roots = none :: some elem :: some .nil :: some .nil :: r0.heap.roots :=
      hgrown3.roots
    refine .step (setCell_eq 0 v r3) ?_
    rw [hr3]
    refine .step (getCell_eq rfl) ?_
    rw [if_pos rfl]
    obtain ⟨next, hobj⟩ := hnew.object
    have hv : v = .ptr r1.heap.fresh := hnew.value
    refine .of_ok rfl hgood3 ⟨objs3, ?_⟩
    refine h.of_cells v elem r1.heap.fresh v
      (hgrown3.inv.ok.withRoots _) (hgrown1.fresh.trans hgrown3.fresh)
      (hframe1.trans hgrown3.frame (h.fresh.trans hgrown1.fresh)) (by rw [← hv]; rfl)
      (fun w hw => hgrown3.valid (by simp [Reader.withRoots, hw])) hnew.valid
      (hgrown3.valid (by simp [Reader.withRoots])) (h.fresh.trans hgrown1.fresh) hnew.valid
      (by rw [hv]; simp) ?_ ⟨_, _, _, hobj, rfl⟩
    show r3.waiting - 1 = r0.waiting
    rw [hgrown3.waiting]
    show r1.waiting - 1 = r0.waiting
    rw [hgrown1.waiting, hw, Nat.add_sub_cancel]
  · -- another element
    have hr1 : r1.heap.roots =
        some cell :: some elem0 :: some (.ptr t) :: some head :: r0.heap.roots :=
      hgrown1.roots.trans hr
    rw [hr] at inv2
    rw [hr1]
    refine (cons_spec inv2 hgood1 helem (by simp [Valid])).bind ?_
    rintro v r3 hgood3 ⟨objs3, hgrown3, hnew⟩
    have hr3 : r3.heap.roots =
        some cell :: some elem :: some (.ptr t) :: some head :: r0.heap.roots := hgrown3.roots
    refine .step (setCell_eq 0 v r3) ?_
    rw [hr3]
    refine .step (getCell_eq rfl) ?_
    rw [if_neg hnil]
    refine .step (getCell_eq rfl) ?_
    obtain ⟨o1, ho1, hobj1⟩ := hgrown1.object h.inv (by simp [hr]) ho
    obtain ⟨o3, ho3, hobj3⟩ := hgrown3.object inv2 (t := t) (by simp [Reader.withRoots]) ho1
    obtain ⟨hset, hok⟩ := gcSetCdr_spec (hgrown3.inv.ok.withRoots
      (some v :: some elem :: some (.ptr t) :: some head :: r0.heap.roots)) ho3
      (by rw [hobj3, hobj1, hpair]) hnew.valid
    refine .step (setCdr_eq hset) (.of_ok rfl hgood3 ⟨objs3, ?_⟩)
    have hv : v = .ptr r1.heap.fresh := hnew.value
    have hlt : t < r1.heap.fresh :=
      hgrown1.inv.ok.fresh t (hgrown1.inv.ok.owned t o1 ho1)
    obtain ⟨next, hobj⟩ := hnew.object
    have hframe4 : Frame r0.heap.fresh r3.heap (r3.heap.put t { o3 with obj := .pair car v }) := by
      intro b hb o' ho'
      have hbt : b ≠ t := by omega
      refine ⟨o', ?_, rfl⟩
      simpa [Heap.put, hbt] using ho'
    refine h.of_cells v elem r1.heap.fresh head
      (hok.withRoots _) (hgrown1.fresh.trans hgrown3.fresh)
      ((hframe1.trans hgrown3.frame (h.fresh.trans hgrown1.fresh)).trans hframe4 (Nat.le_refl _))
      (by rw [← hv]; rfl) (fun w hw => hgrown3.valid (by simp [Reader.withRoots, hw])) hnew.valid
      (hgrown3.valid (by simp [Reader.withRoots])) (h.fresh.trans hgrown1.fresh)
      (hgrown3.valid (by simp [Reader.withRoots])) hnil ?_
      ⟨⟨.pair elem .nil, false, next⟩, elem, .nil, ?_, rfl⟩
    · show r3.waiting = r0.waiting
      rw [hgrown3.waiting]
      show r1.waiting = r0.waiting
      rw [hgrown1.waiting, hw]
    · have hne : r1.heap.fresh ≠ t := by omega
      show Function.update r3.heap.mem t _ r1.heap.fresh = _
      rw [Function.update_of_ne hne]
      exact hobj

theorem dottedCdr_spec (hdatum : DatumSpec malloc datum) (line : Nat) (h : InList r0 r objs)
    (hgood : Good r) :
    Safe malloc (dottedCdr datum line) r fun _ r' => ∃ objs', InList r0 r' objs' := by
  obtain ⟨hr, hw⟩ | ⟨cell, elem0, t, head, hr, hnil, hw, ht, o, car, cdr, ho, hpair⟩ := h.vars
  · refine .step (getCell_eq (v := .nil) (by rw [hr]; rfl)) ?_
    rw [if_pos rfl]
    exact .die hgood
  · refine .step (getCell_eq (v := head) (by rw [hr]; rfl)) ?_
    rw [if_neg hnil]
    refine (hdatum r objs h.inv hgood).bind ?_
    rintro elem r1 hgood1 ⟨objs1, hgrown1, helem⟩
    have hr1 : r1.heap.roots =
        some cell :: some elem0 :: some (.ptr t) :: some head :: r0.heap.roots :=
      hgrown1.roots.trans hr
    have hgood2 : Good (r1.withRoots (r1.heap.roots.set 1 (some elem))) := hgood1
    refine .step (setCell_eq 1 elem r1) (.next hgood2 fun tok => ?_)
    rw [hr1]
    split_ifs
    · refine .step (getCell_eq rfl) ?_
      obtain ⟨o1, ho1, hobj1⟩ := hgrown1.object h.inv (by simp [hr]) ho
      obtain ⟨hset, hok⟩ := gcSetCdr_spec (hgrown1.inv.ok.withRoots
        (some cell :: some elem :: some (.ptr t) :: some head :: r0.heap.roots)) ho1
        (by rw [hobj1, hpair]) helem
      refine .of_ok (setCdr_eq hset) hgood1 ⟨objs1, ?_⟩
      have hframe2 : Frame r0.heap.fresh r1.heap (r1.heap.put t { o1 with obj := .pair car elem })
        := by
        intro b hb o' ho'
        have hbt : b ≠ t := by omega
        refine ⟨o', ?_, rfl⟩
        simpa [Heap.put, hbt] using ho'
      refine h.of_cells cell elem t head hok hgrown1.fresh
        ((h.frame.trans hgrown1.frame h.fresh).trans hframe2 (Nat.le_refl _)) rfl
        (fun w hw => hgrown1.valid (by simp [hr, hw])) (hgrown1.valid (by simp [hr])) helem ht
        (hgrown1.valid (by simp [hr])) hnil ?_
        ⟨{ o1 with obj := .pair car elem }, car, elem, ?_, rfl⟩
      · show r1.waiting = r0.waiting
        rw [hgrown1.waiting, hw]
      · show Function.update r1.heap.mem t _ t = _
        rw [Function.update_self]
    · have hgood3 : Good (r1.withRoots (r1.heap.roots.set 1 (some elem))).next := hgood1
      rw [hr1] at hgood3
      exact .die hgood3

theorem listBody_spec (hdatum : DatumSpec malloc datum) (fuel : Nat) (h : InList r0 r objs)
    (hgood : Good r) :
    Safe malloc (listBody malloc datum fuel) r fun _ r' => ∃ objs', InList r0 r' objs' := by
  induction fuel generalizing r objs with
  | zero => exact .fuel hgood
  | succ fuel ih =>
    have hnext : InList r0 r.next objs :=
      ⟨⟨h.inv.ok, h.inv.cells, h.inv.bound, h.inv.waits⟩, h.outer, h.fresh, h.frame, h.vars⟩
    refine .peek hgood fun t => ?_
    cases t.kind with
    | eof => exact .die hgood
    | rparen => exact .next hgood fun _ => .pure hgood ⟨objs, hnext⟩
    | dot => exact .next hgood fun _ => dottedCdr_spec hdatum t.line hnext hgood
    | bad | lparen | quote | num | str | sym | true | false =>
      refine (addElement_spec hdatum h hgood).bind ?_
      rintro _ r1 hgood1 ⟨objs1, h1⟩
      exact ih h1 hgood1

theorem formsBody_spec (hdatum : DatumSpec malloc datum) (fuel : Nat) (h : InList r0 r objs)
    (hgood : Good r) :
    Safe malloc (formsBody malloc datum fuel) r fun _ r' => ∃ objs', InList r0 r' objs' := by
  induction fuel generalizing r objs with
  | zero => exact .fuel hgood
  | succ fuel ih =>
    refine .peek hgood fun t => ?_
    split_ifs
    · exact .pure hgood ⟨objs, h⟩
    · refine (addElement_spec hdatum h hgood).bind ?_
      rintro _ r1 hgood1 ⟨objs1, h1⟩
      exact ih h1 hgood1

theorem closeList_spec (h : InList r0 r objs) (hgood : Good r) :
    Safe malloc closeList r fun v r' => ∃ objs', Grown r0 r' objs' ∧ Valid objs' v := by
  have hcells : ∀ w, some w ∈ r0.heap.roots → some w ∈ r.heap.roots := by
    intro w hw
    obtain ⟨hr, -⟩ | ⟨_, _, _, _, hr, -⟩ := h.vars <;> simp [hr, hw]
  have hbound := h.inv.bound
  obtain ⟨hr, hw⟩ | ⟨cell, elem, t, head, hr, hnil, hw, -⟩ := h.vars
  · refine .step (getCell_eq (v := .nil) (by rw [hr]; rfl)) ?_
    rw [if_pos rfl]
    have hdrop : r.heap.roots.drop 4 = r0.heap.roots := by rw [hr]; rfl
    refine .of_ok rfl hgood ⟨objs, ⟨⟨h.inv.ok.withRoots _, ?_, ?_, ?_⟩, hdrop, ?_, h.fresh,
      h.frame⟩,
      by simp [Valid]⟩
    · intro w hw
      have hw : some w ∈ r.heap.roots.drop 4 := hw
      rw [hdrop] at hw
      exact h.inv.cells w (hcells w hw)
    · show (r.heap.roots.drop 4).length ≤ 256
      rw [List.length_drop]
      omega
    · show none ∈ r.heap.roots.drop 4 ↔ 0 < r.waiting - 1
      rw [hdrop, hw, h.outer, Nat.add_sub_cancel]
    · show r.waiting - 1 = r0.waiting
      rw [hw, Nat.add_sub_cancel]
  · refine .step (getCell_eq (v := head) (by rw [hr]; rfl)) ?_
    rw [if_neg hnil]
    have hdrop : r.heap.roots.drop 4 = r0.heap.roots := by rw [hr]; rfl
    refine .of_ok rfl hgood ⟨objs, ⟨⟨h.inv.ok.withRoots _, ?_, ?_, ?_⟩, hdrop, hw, h.fresh,
      h.frame⟩,
      h.inv.cells head (by simp [hr])⟩
    · intro w hw
      have hw : some w ∈ r.heap.roots.drop 4 := hw
      rw [hdrop] at hw
      exact h.inv.cells w (hcells w hw)
    · show (r.heap.roots.drop 4).length ≤ 256
      rw [List.length_drop]
      omega
    · show none ∈ r.heap.roots.drop 4 ↔ 0 < r.waiting
      rw [hdrop, hw, h.outer]

theorem readList_spec (hdatum : DatumSpec malloc datum) (fuel : Nat) :
    DatumSpec malloc (readList malloc datum fuel) := by
  intro r objs inv hgood
  refine (openList_spec inv hgood).bind fun _ r1 hgood1 h1 => ?_
  refine (listBody_spec hdatum fuel h1 hgood1).bind ?_
  rintro _ r2 hgood2 ⟨objs2, h2⟩
  exact closeList_spec h2 hgood2

theorem Inv.push (inv : Inv r objs) (hlt : r.heap.roots.length < 256) (hv : Valid objs v) :
    Inv (r.withRoots (some v :: r.heap.roots)) objs := by
  refine ⟨inv.ok.withRoots _, ?_, hlt, ?_⟩
  · intro w hw
    have hw : some w ∈ some v :: r.heap.roots := hw
    simp only [List.mem_cons, Option.some.injEq] at hw
    obtain rfl | hw := hw
    · exact hv
    · exact inv.cells w hw
  · show none ∈ some v :: r.heap.roots ↔ 0 < r.waiting
    rw [← inv.waits]
    simp

theorem readQuoted_spec (hdatum : DatumSpec malloc datum) :
    DatumSpec malloc (readQuoted malloc datum) := by
  intro r objs inv hgood
  refine .push hgood fun hlt => ?_
  have inv1 : Inv (r.withRoots (some .nil :: r.heap.roots)) objs := inv.push hlt (by simp [Valid])
  refine (hdatum _ objs inv1 hgood).bind ?_
  rintro quoted r2 hgood2 ⟨objs2, hgrown2, hquoted⟩
  refine (cons_spec hgrown2.inv hgood2 hquoted (by simp [Valid])).bind ?_
  rintro v r3 hgood3 ⟨objs3, hgrown3, hnew3⟩
  have h3 := hgrown2.trans hgrown3
  have hr3 : r3.heap.roots = some .nil :: r.heap.roots := h3.roots
  refine .step (setCell_eq 0 v r3) ?_
  rw [hr3]
  -- the cell now holds the list of the datum
  have inv4 : Inv (r3.withRoots (some v :: r.heap.roots)) objs3 := by
    refine ⟨h3.inv.ok.withRoots _, ?_, hlt, ?_⟩
    · intro w hw
      have hw : some w ∈ some v :: r.heap.roots := hw
      simp only [List.mem_cons, Option.some.injEq] at hw
      obtain rfl | hw := hw
      · exact hnew3.valid
      · exact h3.valid (List.mem_cons_of_mem _ hw)
    · show none ∈ some v :: r.heap.roots ↔ 0 < r3.waiting
      rw [h3.waiting]
      show none ∈ some v :: r.heap.roots ↔ 0 < r.waiting
      rw [← inv.waits]
      simp
  refine (symbol_spec inv4 hgood3 quoteName).bind ?_
  rintro sym r5 hgood5 ⟨objs5, hgrown5, hnew5⟩
  have hr5 : r5.heap.roots = some v :: r.heap.roots := hgrown5.roots
  refine .step (getCell_eq (v := v) (by rw [hr5]; rfl)) ?_
  have hv5 : Valid objs5 v := hgrown5.valid (by simp [Reader.withRoots])
  refine (cons_spec hgrown5.inv hgood5 hnew5.valid hv5).bind ?_
  rintro v' r6 hgood6 ⟨objs6, hgrown6, hnew6⟩
  have hr6 : r6.heap.roots = some v :: r.heap.roots := hgrown6.roots.trans hr5
  have hdrop : (r6.heap.roots.set 0 (some v')).drop 1 = r.heap.roots := by rw [hr6]; rfl
  have hwait : r6.waiting = r.waiting := (hgrown6.waiting.trans hgrown5.waiting).trans h3.waiting
  have hgrown : Frame r.heap.fresh r.heap r6.heap :=
    h3.frame.trans (hgrown5.frame.trans hgrown6.frame hgrown5.fresh) h3.fresh
  have hfresh : r.heap.fresh ≤ r6.heap.fresh :=
    h3.fresh.trans (hgrown5.fresh.trans hgrown6.fresh)
  refine .of_ok rfl hgood6 ⟨objs6, ⟨⟨hgrown6.inv.ok.withRoots _, ?_, ?_, ?_⟩, hdrop, hwait, hfresh,
    hgrown⟩, hnew6.valid⟩
  · intro w hw
    have hw : some w ∈ (r6.heap.roots.set 0 (some v')).drop 1 := hw
    rw [hdrop] at hw
    exact hgrown6.valid (by rw [hr5]; exact List.mem_cons_of_mem _ hw)
  · show ((r6.heap.roots.set 0 (some v')).drop 1).length ≤ 256
    rw [hdrop]
    exact inv.bound
  · show none ∈ (r6.heap.roots.set 0 (some v')).drop 1 ↔ 0 < r6.waiting
    rw [hdrop, hwait]
    exact inv.waits

theorem readDatum_spec (fuel : Nat) : DatumSpec malloc (readDatum malloc fuel) := by
  induction fuel with
  | zero => exact fun r objs inv hgood => .fuel hgood
  | succ fuel ih =>
    intro r objs inv hgood
    have inv' : Inv r.next objs := ⟨inv.ok, inv.cells, inv.bound, inv.waits⟩
    have hgood' : Good r.next := hgood
    -- the token does not belong to the heap
    have hback : ∀ {r' : Reader} {objs'}, Grown r.next r' objs' → Grown r r' objs' := fun h =>
      ⟨h.inv, h.roots, h.waiting, h.fresh, h.frame⟩
    refine .next hgood fun t => ?_
    cases t.kind with
    | num n => exact .pure hgood ⟨objs, hback (.refl inv'), by simp [Valid]⟩
    | true => exact .pure hgood ⟨objs, hback (.refl inv'), by simp [Valid]⟩
    | false => exact .pure hgood ⟨objs, hback (.refl inv'), by simp [Valid]⟩
    | str data =>
      refine (string_spec inv' hgood data).mono ?_
      rintro v r' ⟨objs', hgrown, hnew⟩
      exact ⟨objs', hback hgrown, hnew.valid⟩
    | sym data =>
      refine (symbol_spec inv' hgood data).mono ?_
      rintro v r' ⟨objs', hgrown, hnew⟩
      exact ⟨objs', hback hgrown, hnew.valid⟩
    | lparen =>
      refine (readList_spec ih fuel r.next objs inv' hgood).mono ?_
      rintro v r' ⟨objs', hgrown, hv⟩
      exact ⟨objs', hback hgrown, hv⟩
    | quote =>
      refine (readQuoted_spec ih r.next objs inv' hgood).mono ?_
      rintro v r' ⟨objs', hgrown, hv⟩
      exact ⟨objs', hback hgrown, hv⟩
    | rparen => exact .die hgood'
    | dot => exact .die hgood'
    | eof => exact .die hgood'
    | bad msg => exact .exit hgood' msg

theorem scmReadAll_spec (fuel : Nat) : DatumSpec malloc (scmReadAll malloc fuel) := by
  intro r objs inv hgood
  refine (openList_spec inv hgood).bind fun _ r1 hgood1 h1 => ?_
  refine (formsBody_spec (readDatum_spec fuel) fuel h1 hgood1).bind ?_
  rintro _ r2 hgood2 ⟨objs2, h2⟩
  exact closeList_spec h2 hgood2

end Lists

/-! ## The collector during the reading -/

/-- The reading never misleads the collector: each collection finds every registered cell
assigned and valid, nothing is undefined, and no part of the program that is returned was freed. -/
def ReaderSafe (malloc : Nat → Bool) (fuel : Nat) (r : Reader) : Prop :=
  (∀ s ∈ (scmReadAll malloc fuel r).2.steps, s.collects malloc = true →
    ∃ objs, Linked s.heap.mem s.heap.all objs ∧ RootsOk s.heap.roots objs) ∧
  (scmReadAll malloc fuel r).1 ≠ .error .undefined ∧
  ∀ v a b, (scmReadAll malloc fuel r).1 = .ok v → v = .ptr a →
    ReflTransGen (edge (scmReadAll malloc fuel r).2.heap.mem) a b →
    (scmReadAll malloc fuel r).2.heap.mem b ≠ none ∧
      b ∉ (scmReadAll malloc fuel r).2.heap.freed

theorem Heap.Ok.mem_of_path {objs : List Nat} (ok : h.Ok objs) {a b : Nat} (ha : a ∈ objs)
    (hab : ReflTransGen (edge h.mem) a b) : b ∈ objs := by
  induction hab with
  | refl => exact ha
  | tail _ hbc ih =>
    obtain ⟨o, ho, hc⟩ := hbc
    exact ok.fields _ ih o ho _ hc _ rfl

/-- The reading is safe exactly when no collection falls on an allocation that is made while an
open list waits for its first cell. -/
theorem scmReadAll_safe_iff {malloc : Nat → Bool} {fuel : Nat} {r : Reader} {objs : List Nat}
    (ok : r.heap.Ok objs) (hroots : RootsOk r.heap.roots objs) (hbound : r.heap.roots.length ≤ 256)
    (hwaiting : r.waiting = 0) (hsteps : r.steps = []) :
    ReaderSafe malloc fuel r ↔
      ∀ s ∈ (scmReadAll malloc fuel r).2.steps, s.collects malloc = true → s.waiting = 0 := by
  have hnone : none ∉ r.heap.roots := by
    intro hmem
    obtain ⟨v, hv, -⟩ := hroots none hmem
    cases hv
  have inv : Inv r objs := ⟨ok, hroots.cells, hbound, by simp [hnone, hwaiting]⟩
  have hgood : Good r := by simp [Good, hsteps]
  obtain ⟨hlog, hresult⟩ := scmReadAll_spec fuel r objs inv hgood
  constructor
  · rintro ⟨hsafe, -, -⟩ s hs hcollects
    obtain ⟨_, -, -, hwaits⟩ := hlog s hs
    obtain ⟨objs', -, hroots'⟩ := hsafe s hs hcollects
    by_contra hne
    obtain ⟨v, hv, -⟩ := hroots' none (hwaits.2 (Nat.pos_of_ne_zero hne))
    cases hv
  · intro hcond
    refine ⟨fun s hs hcollects => ?_, fun hundef => ?_, fun v a b hv hva hab => ?_⟩
    · obtain ⟨objs', hok, hcells, hwaits⟩ := hlog s hs
      refine ⟨objs', hok.linked, hcells.roots fun hmem => ?_⟩
      rw [hwaits, hcond s hs hcollects] at hmem
      exact Nat.lt_irrefl 0 hmem
    · rw [hundef] at hresult
      obtain ⟨s, hs, hcollects, hpos⟩ := hresult rfl
      rw [hcond s hs hcollects] at hpos
      exact Nat.lt_irrefl 0 hpos
    · rw [hv] at hresult
      obtain ⟨objs', hgrown, hvalid⟩ := hresult
      have hb : b ∈ objs' := hgrown.inv.ok.mem_of_path (hvalid a hva) hab
      obtain ⟨o, ho⟩ := hgrown.inv.ok.linked.mem_some hb
      refine ⟨by simp [ho], fun hfreed => ?_⟩
      obtain ⟨hgone, -⟩ := hgrown.inv.ok.freed b hfreed
      rw [ho] at hgone
      cases hgone

/-- The driver's heap with the cell of `program`, and the text `(a a … a)` with 33 symbols. -/
def longList : Reader where
  heap := { roots := [some .nil] }
  toks := ⟨.lparen, 1⟩ :: List.replicate 33 ⟨.sym [97], 1⟩ ++ [⟨.rparen, 1⟩]

/-- The text `(a)` on the same heap. -/
def shortList : Reader where
  heap := { roots := [some .nil] }
  toks := [⟨.lparen, 1⟩, ⟨.sym [97], 1⟩, ⟨.rparen, 1⟩]

theorem emptyHeap_ok : ({ roots := [some .nil] } : Heap).Ok [] :=
  ⟨rfl, List.nodup_nil, by simp, by simp, rfl, by simp, by simp, by simp⟩

/-- The 65th object falls due while the first form is being read. -/
theorem longList_not_safe : ¬ ReaderSafe (fun _ => true) 100 longList := by
  intro h
  exact h.2.1 (by decide +kernel)

theorem scmReadAll_safe_short : ReaderSafe (fun _ => true) 100 shortList :=
  (scmReadAll_safe_iff (r := shortList) emptyHeap_ok
    (by simp [RootsOk, shortList, Valid]) (by decide) rfl rfl).2 (by decide +kernel)

end MechanicalResearcher.PortableCompiler.Gc
