import Mathlib.Data.List.Forall2
import Mathlib.Data.List.Induction
import Mathlib.Logic.Equiv.List
import MechanicalResearcher.PortableCompiler.TincStorage

/-!
# Scopes of TinC

The declaration that an occurrence of a name should denote, by the blocks around it, and what the
code that `tinc/lower.c` emits for the occurrence reaches.  Symbols come from the parameters and
from the declarations of the outermost block only, and the name in a call is not looked up at all.
-/

namespace MechanicalResearcher.PortableCompiler.Tinc

/-! ## Occurrences -/

/-- A block inside the body, with the place where it stands. -/
structure Block where
  path : List Nat
  decls : List Decl
  deriving DecidableEq

/-- An occurrence of a name, with the blocks around it inside the body, the innermost first. -/
structure Occ where
  name : String
  called : Bool
  blocks : List Block
  deriving DecidableEq

/-- How many arguments of a call are lowered, by the name that is called. -/
def argLimit (x : Option String) : Nat :=
  if x = some "__mark" ∨ x = some "__capture" then 0 else if x = some "__resume" then 2 else 16

mutual

/-- What the code of a node reaches by name, in its order: occurrences, and `none` for the text
of a string. -/
def Expr.uses (bs : List Block) : Expr → List (Option Occ)
  | .num _ _ | .charlit _ _ => []
  | .str _ _ => [none]
  | .name _ x => [some ⟨x, false, bs⟩]
  | .index _ a b => Expr.uses bs a ++ Expr.uses bs b
  | .unop _ _ a => Expr.uses bs a
  | .binop _ _ a b => Expr.uses bs a ++ Expr.uses bs b
  | .assign _ a b => Expr.uses bs b ++ Expr.uses bs a
  | .call _ f args =>
    Args.uses bs (argLimit f.nameOf) args ++
    match f.nameOf with
    | some x => [some ⟨x, true, bs⟩]
    | none => Expr.uses bs f

def Args.uses (bs : List Block) : Nat → Args → List (Option Occ)
  | 0, _ | _, .nil => []
  | n + 1, .cons a next => Expr.uses bs a ++ Args.uses bs n next

end

mutual

def Stmt.uses (path : List Nat) (bs : List Block) : Stmt → List (Option Occ)
  | .block decls body => Stmts.uses path (⟨path, decls⟩ :: bs) body
  | .exprStmt a | .retv a => a.uses bs
  | .empty | .brk _ | .cont _ | .ret => []
  | .ifThen test thenPart => test.uses bs ++ Stmt.uses path bs thenPart
  | .ifElse test thenPart elsePart =>
    test.uses bs ++ (Stmt.uses (0 :: path) bs thenPart ++ Stmt.uses (1 :: path) bs elsePart)
  | .loop test body => test.uses bs ++ Stmt.uses path bs body

def Stmts.uses (path : List Nat) (bs : List Block) : Stmts → List (Option Occ)
  | .nil => []
  | .cons s next => Stmt.uses (0 :: path) bs s ++ Stmts.uses (1 :: path) bs next

end

def FuncDecl.uses (f : FuncDecl) : List (Option Occ) := f.body.uses [] []

/-! ## Declarations -/

/-- A declaration: one of a block inside the body; of the outermost block; a parameter; a
global. -/
inductive Binding
  | inner (path : List Nat) (index : Nat)
  | auto (index : Nat)
  | param (index : Nat)
  | global (gs : Gsym)
  deriving DecidableEq

/-- The position of the last element with the property. -/
def lastIdx {α : Type} (p : α → Bool) (l : List α) : Option Nat :=
  (l.reverse.findIdx? p).map fun i => l.length - 1 - i

/-- The declaration of the innermost of the blocks that has one. -/
def innermost (x : String) : List Block → Option Binding
  | [] => none
  | b :: bs =>
    match lastIdx (fun d => d.name == x) b.decls with
    | some i => some (.inner b.path i)
    | none => innermost x bs

/-- The declaration that an occurrence denotes by the rule of blocks. -/
def FuncDecl.denotes (f : FuncDecl) (gs : List Gsym) (o : Occ) : Option Binding :=
  innermost o.name o.blocks <|>
  (lastIdx (fun d => d.name == o.name) f.decls).map .auto <|>
  (lastIdx (fun p => p.name == o.name) f.params).map .param <|>
  (gs.find? fun g => g.name == o.name).map .global

/-- The symbols of the body. -/
def FuncDecl.syms (f : FuncDecl) : List Lsym :=
  paramSyms 0 f.params ++ declSyms f.params.length f.decls

/-! ## Code -/

/-- What an instruction reaches: a slot of the frame, a symbol, or what an intrinsic does by
itself, in a slot of its own or none. -/
inductive Target
  | slot (k : Nat)
  | sym (x : String)
  | intrinsic (x : String) (slot : Option Nat)

def target (i : Insn) : Option Target :=
  match i.op with
  | .ldl | .stl | .adl => i.slot.map .slot
  | .lea | .call => some (.sym i.sym)
  | .mark => some (.intrinsic "__mark" i.slot)
  | .capture => some (.intrinsic "__capture" none)
  | .resume => some (.intrinsic "__resume" none)
  | _ => none

/-- A piece that is lowered, and whose code reaches `t` and nothing else. -/
def Reached {α : Type} (x : LowerM α) (s : Lowering) (t : Target) : Prop :=
  ∃ r seg k, x s = .ok (r, s.push seg k 0) ∧ seg.filterMap target = [t]

/-- The occurrence as a node by itself: its value, its address and a store to it; a call. -/
def Occ.nodes (line : Nat) (o : Occ) : List Expr :=
  if o.called then [.call line (.name line o.name) .nil]
  else
    [.name line o.name, .unop line .amp (.name line o.name),
      .assign line (.name line o.name) (.num line 0)]

/-- A state in which the body is lowered. -/
structure FuncDecl.InBody (f : FuncDecl) (gs : List Gsym) (s : Lowering) : Prop where
  lsyms : s.lsyms = f.syms
  gsyms : gs <+: s.gsyms
  slots : f.syms.length ≤ s.slotSizes.length

/-! ## Scoping -/

/-- Where declarations are kept, with `slots` for those of inner blocks. -/
def FuncDecl.home (f : FuncDecl) (slots : List Nat × Nat → Nat) : Binding → Target
  | .inner path i => .slot (slots (path, i))
  | .auto i => .slot (f.params.length + i)
  | .param i => .slot i
  | .global g => .sym g.name

/-- Code that reaches `t` for an occurrence or a string; a name without a declaration is a
function of another file, or an intrinsic. -/
def FuncDecl.Emits (f : FuncDecl) (gs : List Gsym) (slots : List Nat × Nat → Nat) :
    Option Occ → Target → Prop
  | none, t => ∃ n : Nat, t = .sym s!"__str_{n}"
  | some o, t =>
    match f.denotes gs o with
    | some b => t = f.home slots b
    | none =>
      t = .sym o.name ∨ ∃ slot, t = .intrinsic o.name slot ∧ ∀ k ∈ slot, f.syms.length ≤ k

/-- The scoping of a function with the globals `gs`, for some slots of the variables of inner
blocks. -/
structure FuncDecl.ScopedBy (f : FuncDecl) (gs : List Gsym) (slots : List Nat × Nat → Nat) :
    Prop where
  /-- Variables do not share their storage. -/
  own : slots.Injective
  apart : ∀ p, f.syms.length ≤ slots p
  /-- An occurrence is not rejected, and its code reaches the declaration that it denotes. -/
  denoted : ∀ o, some o ∈ f.uses → ∀ b, f.denotes gs o = some b → ∀ s, f.InBody gs s →
    ∀ line, ∀ e ∈ o.nodes line, Reached (lowerExpr e) s (f.home slots b)
  /-- The code of the function reaches what its occurrences denote, one after the other, and so
  leaves a variable alone but for its own name. -/
  traced : ∀ s fn s', gs <+: s.gsyms → lowerFunction f s = .ok (fn, s') →
    List.Forall₂ (f.Emits gs slots) f.uses (fn.code.filterMap target)

def FuncDecl.Scoped (f : FuncDecl) (gs : List Gsym) : Prop := ∃ slots, f.ScopedBy gs slots

/-- The names that a call takes for itself. -/
def intrinsics : List String := ["__mark", "__capture", "__resume"]

/-- An occurrence that the lookup misses: a block inside the body declares its name, or it is
called and the function declares its name, or a global has the name of an intrinsic. -/
def FuncDecl.Missed (f : FuncDecl) (gs : List Gsym) (o : Occ) : Prop :=
  (∃ b ∈ o.blocks, ∃ d ∈ b.decls, d.name = o.name) ∨
  o.called = true ∧ ((∃ d ∈ f.decls, d.name = o.name) ∨ (∃ p ∈ f.params, p.name = o.name) ∨
    o.name ∈ intrinsics ∧ ∃ g ∈ gs, g.name = o.name)

/-! ## Lookup -/

theorem lastIdx_concat {α : Type} (p : α → Bool) (l : List α) (a : α) :
    lastIdx p (l ++ [a]) = if p a then some l.length else lastIdx p l := by
  unfold lastIdx
  rw [List.reverse_append, List.reverse_singleton, List.singleton_append, List.findIdx?_cons]
  by_cases ha : p a = true
  · simp [ha]
  · rw [if_neg ha, if_neg ha, Option.map_map]
    congr 1
    funext i
    simp only [Function.comp_apply, List.length_append, List.length_singleton]
    omega

theorem lastIdx_eq_none {α : Type} {p : α → Bool} {l : List α} :
    lastIdx p l = none ↔ ∀ a ∈ l, p a = false := by
  simp [lastIdx, List.findIdx?_eq_none_iff]

theorem lastIdx_lt {α : Type} {p : α → Bool} {l : List α} {i : Nat} (h : lastIdx p l = some i) :
    i < l.length := by
  simp only [lastIdx, Option.map_eq_some_iff] at h
  obtain ⟨j, hj, rfl⟩ := h
  obtain ⟨hlt, -⟩ := List.findIdx?_eq_some_iff_findIdx_eq.1 hj
  rw [List.length_reverse] at hlt
  omega

theorem find_last {α : Type} {p : α → Bool} {q : Lsym → Bool} {g : Nat → α → Lsym} {k : Nat}
    (hq : ∀ i a, q (g i a) = p a) (hslot : ∀ i a, (g i a).slot = i) (l : List α) :
    (((l.mapIdx fun i a => g (k + i) a).reverse.find? q).map Lsym.slot) =
      (lastIdx p l).map (k + ·) := by
  induction l using List.reverseRecOn with
  | nil => rfl
  | append_singleton l a ih =>
    rw [List.mapIdx_concat, List.reverse_append, List.reverse_singleton, List.singleton_append,
      List.find?_cons, hq, lastIdx_concat]
    cases hp : p a with
    | true => simp [hslot]
    | false => simpa using ih

theorem findLsym_slot {f : FuncDecl} {s : Lowering} (hs : s.lsyms = f.syms) (x : String) :
    (findLsym s x).map Lsym.slot =
      ((lastIdx (fun d => d.name == x) f.decls).map (f.params.length + ·) <|>
        lastIdx (fun p => p.name == x) f.params) := by
  have hdecls := find_last (p := fun d : Decl => d.name == x) (q := fun ls => ls.name == x)
    (g := fun i d => d.sym i) (k := f.params.length) (fun _ _ => rfl) (fun _ _ => rfl) f.decls
  have hparams := find_last (p := fun p : Param => p.name == x) (q := fun ls => ls.name == x)
    (g := fun i p => p.sym i) (k := 0) (fun _ _ => rfl) (fun _ _ => rfl) f.params
  rw [findLsym, hs, FuncDecl.syms, List.reverse_append, List.find?_append, ← hdecls]
  have hzero : (lastIdx (fun p => p.name == x) f.params).map (0 + ·) =
      lastIdx (fun p => p.name == x) f.params := by simp
  rw [← hzero, ← hparams]
  simp only [declSyms, paramSyms]
  cases (List.mapIdx (fun i d => Decl.sym d (f.params.length + i)) f.decls).reverse.find?
    fun ls => ls.name == x <;> rfl

theorem findGsym_extend {gs : List Gsym} {s : Lowering} (h : gs <+: s.gsyms) {x : String}
    {g : Gsym} (hg : (gs.find? fun g => g.name == x) = some g) : findGsym s x = some g := by
  obtain ⟨rest, hrest⟩ := h
  rw [findGsym, ← hrest, List.find?_append, hg]
  rfl

theorem innermost_eq_none {x : String} {bs : List Block} :
    innermost x bs = none ↔ ∀ b ∈ bs, ∀ d ∈ b.decls, d.name ≠ x := by
  induction bs with
  | nil => simp [innermost]
  | cons b bs ih =>
    simp only [innermost, List.forall_mem_cons]
    cases h : lastIdx (fun d => d.name == x) b.decls with
    | none =>
      have hdecls := lastIdx_eq_none.1 h
      simp only [beq_eq_false_iff_ne] at hdecls
      exact ⟨fun hn => ⟨hdecls, ih.1 hn⟩, fun hn => ih.2 hn.2⟩
    | some i =>
      have hsome : lastIdx (fun d => d.name == x) b.decls ≠ none := by simp [h]
      rw [Ne, lastIdx_eq_none] at hsome
      simp only [beq_eq_false_iff_ne] at hsome
      simp [hsome]

theorem innermost_inner {x : String} {bs : List Block} {b : Binding}
    (h : innermost x bs = some b) : ∃ path i, b = .inner path i := by
  induction bs with
  | nil => cases h
  | cons block bs ih =>
    simp only [innermost] at h
    split at h
    · cases h
      exact ⟨_, _, rfl⟩
    · exact ih h

variable {f : FuncDecl} {gs : List Gsym} {slots : List Nat × Nat → Nat} {s : Lowering} {o : Occ}
  {b : Binding} {x : String} {t : Target} {bs : List Block}

theorem syms_length (f : FuncDecl) : f.syms.length = f.params.length + f.decls.length := by
  simp [FuncDecl.syms, paramSyms, declSyms]

theorem findLsym_cases (hs : s.lsyms = f.syms) (x : String) :
    (∃ ls j, findLsym s x = some ls ∧ lastIdx (fun d => d.name == x) f.decls = some j ∧
      ls.slot = f.params.length + j) ∨
    (∃ ls, findLsym s x = some ls ∧ lastIdx (fun d => d.name == x) f.decls = none ∧
      lastIdx (fun p => p.name == x) f.params = some ls.slot) ∨
    findLsym s x = none ∧ lastIdx (fun d => d.name == x) f.decls = none ∧
      lastIdx (fun p => p.name == x) f.params = none := by
  have hslot := findLsym_slot hs x
  cases hd : lastIdx (fun d => d.name == x) f.decls with
  | some j =>
    rw [hd] at hslot
    obtain ⟨ls, hls, hj⟩ := Option.map_eq_some_iff.1 (hslot.trans rfl)
    exact .inl ⟨ls, j, hls, rfl, hj⟩
  | none =>
    rw [hd] at hslot
    cases hp : lastIdx (fun p => p.name == x) f.params with
    | some i =>
      rw [hp] at hslot
      obtain ⟨ls, hls, rfl⟩ := Option.map_eq_some_iff.1 (hslot.trans rfl)
      exact .inr (.inl ⟨ls, hls, rfl, rfl⟩)
    | none =>
      rw [hp] at hslot
      exact .inr (.inr ⟨Option.map_eq_none_iff.1 (hslot.trans rfl), rfl, rfl⟩)

theorem findLsym_slot_lt (hs : s.lsyms = f.syms) {ls : Lsym} (hls : findLsym s x = some ls) :
    ls.slot < f.syms.length := by
  rw [syms_length]
  obtain ⟨ls', j, hls', hd, hj⟩ | ⟨ls', hls', -, hp⟩ | ⟨hno, -⟩ := findLsym_cases hs x
  · cases hls.symm.trans hls'
    have := lastIdx_lt hd
    omega
  · cases hls.symm.trans hls'
    exact Nat.lt_add_right _ (lastIdx_lt hp)
  · cases hls.symm.trans hno

/-- What a name that is not called reaches. -/
def lookup (s : Lowering) (x : String) : Option Target :=
  match findLsym s x with
  | some ls => some (.slot ls.slot)
  | none => (findGsym s x).map fun _ => .sym x

theorem lookup_lt (hs : s.lsyms = f.syms) {k : Nat} (h : lookup s x = some (.slot k)) :
    k < f.syms.length := by
  unfold lookup at h
  split at h
  next ls hls =>
    cases h
    exact findLsym_slot_lt hs hls
  next =>
    obtain ⟨g, -, hg⟩ := Option.map_eq_some_iff.1 h
    cases hg

theorem innermost_of_not_missed (ho : ¬ f.Missed gs o) : innermost o.name o.blocks = none :=
  innermost_eq_none.2 fun b hb d hd hx => ho (.inl ⟨b, hb, d, hd, hx⟩)

theorem denotes_global (hin : innermost o.name o.blocks = none)
    (hd : lastIdx (fun d => d.name == o.name) f.decls = none)
    (hp : lastIdx (fun p => p.name == o.name) f.params = none) :
    f.denotes gs o = (gs.find? fun g => g.name == o.name).map .global := by
  rw [FuncDecl.denotes, hin, hd, hp]
  rfl

theorem not_declared (ho : ¬ f.Missed gs o) (hc : o.called = true) :
    f.denotes gs o = (gs.find? fun g => g.name == o.name).map .global := by
  refine denotes_global (innermost_of_not_missed ho) (lastIdx_eq_none.2 fun d hd => ?_)
    (lastIdx_eq_none.2 fun p hp => ?_)
  · exact beq_eq_false_iff_ne.2 fun hx => ho (.inr ⟨hc, .inl ⟨d, hd, hx⟩⟩)
  · exact beq_eq_false_iff_ne.2 fun hx => ho (.inr ⟨hc, .inr (.inl ⟨p, hp, hx⟩)⟩)

theorem emits_sym (h : f.denotes gs o = (gs.find? fun g => g.name == o.name).map .global) :
    f.Emits gs slots (some o) (.sym o.name) := by
  simp only [FuncDecl.Emits, h]
  cases hg : gs.find? fun g => g.name == o.name with
  | none => exact .inl trivial
  | some g =>
    have hname : g.name = o.name := by simpa using List.find?_some hg
    exact congrArg Target.sym hname.symm

theorem denotes_of_intrinsic (ho : ¬ f.Missed gs o) (hc : o.called = true)
    (hx : o.name ∈ intrinsics) : f.denotes gs o = none := by
  rw [not_declared ho hc, Option.map_eq_none_iff, List.find?_eq_none]
  exact fun g hg hname => ho (.inr ⟨hc, .inr (.inr ⟨hx, g, hg, by simpa using hname⟩)⟩)

theorem emits_lookup (hs : f.InBody gs s) (ho : ¬ f.Missed gs o) (h : lookup s o.name = some t) :
    f.Emits gs slots (some o) t := by
  have hin := innermost_of_not_missed ho
  unfold lookup at h
  obtain ⟨ls, j, hls, hd, hj⟩ | ⟨ls, hls, hd, hp⟩ | ⟨hls, hd, hp⟩ :=
    findLsym_cases hs.lsyms o.name
  · rw [hls] at h
    cases h
    simp [FuncDecl.Emits, FuncDecl.denotes, hin, hd, FuncDecl.home, hj]
  · rw [hls] at h
    cases h
    simp [FuncDecl.Emits, FuncDecl.denotes, hin, hd, hp, FuncDecl.home]
  · rw [hls] at h
    obtain ⟨g, -, rfl⟩ := Option.map_eq_some_iff.1 h
    exact emits_sym (denotes_global hin hd hp)

theorem home_of_emits (hb : f.denotes gs o = some b) (h : f.Emits gs slots (some o) t) :
    t = f.home slots b := by
  simpa only [FuncDecl.Emits, hb] using h

theorem exists_lookup (hs : f.InBody gs s) (ho : ¬ f.Missed gs o) (hb : f.denotes gs o = some b) :
    ∃ t, lookup s o.name = some t := by
  unfold lookup
  obtain ⟨ls, j, hls, -⟩ | ⟨ls, hls, -⟩ | ⟨hls, hd, hp⟩ := findLsym_cases hs.lsyms o.name
  · exact ⟨_, by rw [hls]⟩
  · exact ⟨_, by rw [hls]⟩
  · rw [denotes_global (innermost_of_not_missed ho) hd hp] at hb
    obtain ⟨g, hg, -⟩ := Option.map_eq_some_iff.1 hb
    exact ⟨.sym o.name, by rw [hls, findGsym_extend hs.gsyms hg]; rfl⟩

/-! ## The code of an occurrence -/

theorem push_nil (s : Lowering) : s.push [] 0 0 = s := by simp [Lowering.push]

namespace Reached

variable {α β : Type} {a : LowerM α} {g : α → LowerM β}

theorem unique {t' : Target} (h : Reached a s t) (h' : Reached a s t') : t = t' := by
  obtain ⟨r, seg, k, hrun, ht⟩ := h
  obtain ⟨r', seg', k', hrun', ht'⟩ := h'
  have hsame := congrArg (fun p => p.2.fn.code) (Except.ok.inj (hrun.symm.trans hrun'))
  rw [List.append_cancel_left hsame, ht'] at ht
  exact (List.cons.inj ht).1.symm

theorem emitDst {i : Insn} (hi : target i = some t) : Reached (emitDst i) s t :=
  ⟨_, _, _, emitDst_ok i s, List.filterMap_cons_some (show target _ = some t from hi)⟩

theorem bind (h : Reached a s t)
    (hg : ∀ r s', ∃ r' seg k, g r s' = .ok (r', s'.push seg k 0) ∧ seg.filterMap target = []) :
    Reached (a >>= g) s t := by
  obtain ⟨r, seg, k, hrun, ht⟩ := h
  obtain ⟨r', seg', k', hrun', ht'⟩ := hg r (s.push seg k 0)
  refine ⟨r', seg ++ seg', k + k', bind_eq_ok.2 ⟨r, _, hrun, ?_⟩, ?_⟩
  · rw [hrun', push_push]
  · rw [List.filterMap_append, ht, ht', List.append_nil]

theorem map (h : Reached a s t) (g : α → β) : Reached (a >>= fun r => pure (g r)) s t :=
  h.bind fun r s' => ⟨g r, [], 0, by rw [push_nil]; rfl, rfl⟩

theorem after {r : α} {seg : List Insn} {k : Nat} (ha : a s = .ok (r, s.push seg k 0))
    (ht : seg.filterMap target = []) (hg : Reached (g r) (s.push seg k 0) t) :
    Reached (a >>= g) s t := by
  obtain ⟨r', seg', k', hrun, ht'⟩ := hg
  refine ⟨r', seg ++ seg', k + k', bind_eq_ok.2 ⟨r, _, ha, ?_⟩, ?_⟩
  · rw [hrun, push_push]
  · rw [List.filterMap_append, ht, ht', List.nil_append]

end Reached

theorem nameExpr_reached (line : Nat) (h : lookup s x = some t) :
    Reached (nameExpr line x) s t := by
  unfold lookup at h
  unfold nameExpr Reached
  rw [get_bind]
  cases hls : findLsym s x with
  | some ls =>
    rw [hls] at h
    cases h
    -- an array gives its address and a scalar its value, both by the slot
    simp only
    split
    · exact Reached.map (.emitDst rfl) _
    · exact Reached.map (.emitDst rfl) _
  | none =>
    rw [hls] at h
    obtain ⟨gs, hgs, rfl⟩ := Option.map_eq_some_iff.1 h
    simp only [hgs]
    refine Reached.bind (.emitDst rfl) fun taddr s' => ?_
    split
    · exact ⟨_, [], 0, by rw [push_nil]; rfl, rfl⟩
    · split
      · exact ⟨_, [], 0, by rw [push_nil]; rfl, rfl⟩
      · refine ⟨_, _, 1, bind_eq_ok.2 ⟨_, _, emitDst_ok _ _, rfl⟩, ?_⟩
        cases gs.baseType <;> rfl

theorem nameAddr_reached (line : Nat) (h : lookup s x = some t) :
    Reached (nameAddr line x) s t := by
  unfold lookup at h
  unfold nameAddr Reached
  rw [get_bind]
  cases hls : findLsym s x with
  | some ls =>
    rw [hls] at h
    cases h
    exact Reached.map (.emitDst rfl) _
  | none =>
    rw [hls] at h
    obtain ⟨gs, hgs, rfl⟩ := Option.map_eq_some_iff.1 h
    simp only [hgs]
    exact Reached.map (.emitDst rfl) _

theorem name_error (line : Nat) (h : lookup s x = none) :
    nameExpr line x s = .error s!"lower:{line}: undefined '{x}'" ∧
      nameAddr line x s = .error s!"lower:{line}: undefined '{x}'" := by
  unfold lookup at h
  unfold nameExpr nameAddr
  rw [get_bind, get_bind]
  cases hls : findLsym s x with
  | some ls =>
    rw [hls] at h
    cases h
  | none =>
    rw [hls] at h
    rw [Option.map_eq_none_iff.1 h]
    exact ⟨rfl, rfl⟩

theorem lowerAssign_reached (line : Nat) (r : Val) (h : lookup s x = some t) :
    Reached (lowerAssign (some x) (nameAddr line x) (pure r)) s t := by
  unfold lowerAssign Reached
  rw [pure_bind, get_bind]
  cases hls : (Option.bind (some x) (findLsym s)).filter fun ls => !ls.isArray with
  | some ls =>
    have hfind : findLsym s x = some ls := (Option.filter_eq_some_iff.1 hls).1
    rw [lookup, hfind] at h
    cases h
    exact ⟨r, _, 0, bind_eq_ok.2 ⟨_, _, emit_ok _ _, rfl⟩, rfl⟩
  | none =>
    refine (nameAddr_reached line h).bind fun ad s' => ?_
    rw [get_bind]
    refine ⟨r, _, 0, bind_eq_ok.2 ⟨_, _, emit_ok _ _, rfl⟩, ?_⟩
    split <;> rfl

theorem lowerMark_code {r : Val} {s' : Lowering} (h : lowerMark s = .ok (r, s')) :
    s'.lsyms = s.lsyms ∧ s'.gsyms = s.gsyms ∧ s.slotSizes.length ≤ s'.slotSizes.length ∧
      ∃ i, s'.fn.code = s.fn.code ++ [i] ∧
        target i = some (.intrinsic "__mark" (some s.slotSizes.length)) := by
  unfold lowerMark allocSlot at h
  simp only [bind_assoc] at h
  rw [get_bind, set_bind, pure_bind] at h
  obtain ⟨l, s1, h1, h2⟩ := bind_eq_ok.1 h
  obtain ⟨t, s2, h3, h4⟩ := bind_eq_ok.1 h2
  obtain ⟨-, rfl⟩ := pure_eq_ok.1 h4
  rw [(emitDst_eq_ok.1 h3).2, (newLabel_eq_ok.1 h1).2, push_push]
  exact ⟨rfl, rfl, by simp [Lowering.push], _, rfl, rfl⟩

theorem nodes_reached (line : Nat) (hc : o.called = false) (h : lookup s o.name = some t) :
    ∀ e ∈ o.nodes line, Reached (lowerExpr e) s t := by
  intro e he
  simp only [Occ.nodes, hc, Bool.false_eq_true, if_false, List.mem_cons, List.not_mem_nil,
    or_false] at he
  obtain rfl | rfl | rfl := he
  · exact nameExpr_reached line h
  · exact (nameAddr_reached line h).map _
  · -- the number that is stored reaches nothing
    have hnum : (lowerExpr (.num line 0)) s =
        .ok (mkval s.fn.ntemps .int false, s.push [_] 1 0) :=
      bind_eq_ok.2 ⟨_, _, emitDst_ok _ s, rfl⟩
    exact Reached.after hnum rfl (lowerAssign_reached line _ h)

theorem call_node (line : Nat) (hc : o.called = true) :
    o.nodes line = [.call line (.name line o.name) .nil] := by
  rw [Occ.nodes, if_pos hc]

theorem call_reached (line : Nat) (hx : x ∉ intrinsics) :
    Reached (lowerExpr (.call line (.name line x) .nil)) s (.sym x) := by
  simp only [intrinsics, List.mem_cons, List.not_mem_nil, or_false, not_or] at hx
  have hrun : lowerExpr (.call line (.name line x) .nil) =
      lowerCall (some x) (nameExpr line x) (pure []) := by
    show (if some x = some "__mark" then lowerMark
      else if some x = some "__capture" then lowerCapture
      else if some x = some "__resume" then lowerResume .nil
      else lowerCall (some x) (nameExpr line x) (lowerArgs 0 .nil)) = _
    rw [if_neg (by simpa using hx.1), if_neg (by simpa using hx.2.1),
      if_neg (by simpa using hx.2.2)]
    rfl
  rw [hrun]
  show Reached (emitDst { op := .call, sym := x, nargs := 0 } >>= fun t =>
    pure (mkval t .int false)) s (.sym x)
  exact Reached.map (.emitDst rfl) _

theorem call_intrinsic {line : Nat} (hx : x ∈ intrinsics)
    (h : Reached (lowerExpr (.call line (.name line x) .nil)) s t) :
    ∃ slot, t = .intrinsic x slot := by
  simp only [intrinsics, List.mem_cons, List.not_mem_nil, or_false] at hx
  obtain rfl | rfl | rfl := hx
  · obtain ⟨r, seg, k, hrun, ht⟩ := h
    obtain ⟨-, -, -, i, hcode, hi⟩ := lowerMark_code hrun
    obtain rfl : seg = [i] := List.append_cancel_left hcode
    rw [List.filterMap_cons_some hi] at ht
    exact ⟨_, (List.cons.inj ht).1.symm⟩
  · exact ⟨none, h.unique (Reached.map (.emitDst rfl) _)⟩
  · obtain ⟨r, seg, k, hrun, -⟩ := h
    cases hrun

theorem reached_of_not_missed (hs : f.InBody gs s) (ho : ¬ f.Missed gs o)
    (hb : f.denotes gs o = some b) (line : Nat) :
    ∀ e ∈ o.nodes line, Reached (lowerExpr e) s (f.home slots b) := by
  cases hc : o.called with
  | false =>
    obtain ⟨t, ht⟩ := exists_lookup hs ho hb
    rw [← home_of_emits hb (emits_lookup hs ho ht)]
    exact nodes_reached line hc ht
  | true =>
    have hx : o.name ∉ intrinsics := by
      intro hx
      rw [denotes_of_intrinsic ho hc hx] at hb
      cases hb
    rw [← home_of_emits hb (emits_sym (not_declared ho hc)), call_node line hc]
    simpa using call_reached line hx

theorem not_reached_of_missed (hs : s.lsyms = f.syms) (ho : f.Missed gs o)
    (hslots : ∀ p, f.syms.length ≤ slots p) : ∃ b, f.denotes gs o = some b ∧
      ¬ ∀ e ∈ o.nodes 0, Reached (lowerExpr e) s (f.home slots b) := by
  -- a slot is never what a call reaches
  have hcall : ∀ k, o.called = true →
      ¬ ∀ e ∈ o.nodes 0, Reached (lowerExpr e) s (.slot k) := by
    intro k hc hall
    have hnode := hall _ (by rw [call_node 0 hc]; exact List.mem_singleton_self _)
    by_cases hx : o.name ∈ intrinsics
    · obtain ⟨slot, hslot⟩ := call_intrinsic hx hnode
      cases hslot
    · cases hnode.unique (call_reached 0 hx)
  cases hin : innermost o.name o.blocks with
  | some b =>
    obtain ⟨path, i, rfl⟩ := innermost_inner hin
    refine ⟨_, by rw [FuncDecl.denotes, hin]; rfl, ?_⟩
    cases hc : o.called with
    | true => exact hcall _ hc
    | false =>
      intro hall
      have hnode : Reached (nameExpr 0 o.name) s _ := hall (.name 0 o.name) (by simp [Occ.nodes,
        hc])
      cases hl : lookup s o.name with
      | none =>
        obtain ⟨r, seg, k, hrun, -⟩ := hnode
        cases hrun.symm.trans (name_error 0 hl).1
      | some t =>
        -- the slots of the function are not those of a block inside the body
        cases hnode.unique (nameExpr_reached 0 hl)
        exact Nat.not_lt.2 (hslots _) (lookup_lt hs hl)
  | none =>
    obtain ⟨block, hblock, d, hd, hx⟩ | ⟨hc, hdeclared⟩ := ho
    · exact absurd hx (innermost_eq_none.1 hin block hblock d hd)
    · cases hd : lastIdx (fun d => d.name == o.name) f.decls with
      | some j => exact ⟨.auto j, by rw [FuncDecl.denotes, hin, hd]; rfl, hcall _ hc⟩
      | none =>
        cases hp : lastIdx (fun p => p.name == o.name) f.params with
        | some i => exact ⟨.param i, by rw [FuncDecl.denotes, hin, hd, hp]; rfl, hcall _ hc⟩
        | none =>
          have hndecl := lastIdx_eq_none.1 hd
          have hnparam := lastIdx_eq_none.1 hp
          simp only [beq_eq_false_iff_ne] at hndecl hnparam
          obtain ⟨d, hmem, hx⟩ | ⟨p, hmem, hx⟩ | ⟨hx, g, hmem, hg⟩ := hdeclared
          · exact absurd hx (hndecl d hmem)
          · exact absurd hx (hnparam p hmem)
          · have hfind : ∃ g', gs.find? (fun g => g.name == o.name) = some g' := by
              rw [← Option.isSome_iff_exists, List.find?_isSome]
              exact ⟨g, hmem, by simpa using hg⟩
            obtain ⟨g', hg'⟩ := hfind
            refine ⟨.global g', by rw [denotes_global hin hd hp, hg']; rfl, fun hall => ?_⟩
            have hnode := hall _ (by rw [call_node 0 hc]; exact List.mem_singleton_self _)
            obtain ⟨slot, hslot⟩ := call_intrinsic hx hnode
            cases hslot

/-! ## The code of a function -/

/-- Code for an occurrence that is what `Emits` says unless the lookup misses the occurrence. -/
def FuncDecl.Follows (f : FuncDecl) (gs : List Gsym) (slots : List Nat × Nat → Nat)
    (u : Option Occ) (t : Target) : Prop :=
  (∀ o ∈ u, ¬ f.Missed gs o) → f.Emits gs slots u t

/-- A piece of the lowering whose code reaches `us`, one after the other. -/
def Traces {α : Type} (f : FuncDecl) (gs : List Gsym) (slots : List Nat × Nat → Nat)
    (us : List (Option Occ)) (x : LowerM α) : Prop :=
  ∀ s r s', f.InBody gs s → x s = .ok (r, s') → f.InBody gs s' ∧ ∃ seg,
    s'.fn.code = s.fn.code ++ seg ∧
      List.Forall₂ (f.Follows gs slots) us (seg.filterMap target)

namespace Traces

variable {α β : Type} {us vs : List (Option Occ)} {a : LowerM α} {g : α → LowerM β}

theorem bind (ha : Traces f gs slots us a) (hg : ∀ r, Traces f gs slots vs (g r)) :
    Traces f gs slots (us ++ vs) (a >>= g) := by
  intro s r s' hs h
  obtain ⟨r1, s1, h1, h2⟩ := bind_eq_ok.1 h
  obtain ⟨hs1, seg, hcode, htrace⟩ := ha s r1 s1 hs h1
  obtain ⟨hs', seg', hcode', htrace'⟩ := hg r1 s1 r s' hs1 h2
  refine ⟨hs', seg ++ seg', by rw [hcode', hcode, List.append_assoc], ?_⟩
  rw [List.filterMap_append]
  exact List.rel_append htrace htrace'

theorem next (ha : Traces f gs slots [] a) (hg : ∀ r, Traces f gs slots us (g r)) :
    Traces f gs slots us (a >>= g) :=
  ha.bind hg

theorem last (ha : Traces f gs slots us a) (hg : ∀ r, Traces f gs slots [] (g r)) :
    Traces f gs slots us (a >>= g) := by
  simpa using ha.bind hg

theorem pure (r : α) : Traces f gs slots [] (Pure.pure r : LowerM α) := by
  intro s r s' hs h
  obtain ⟨-, rfl⟩ := pure_eq_ok.1 h
  exact ⟨hs, [], by simp, .nil⟩

theorem die (msg : String) : Traces f gs slots us (die msg : LowerM α) := by
  intro s r s' hs h
  cases h

theorem of_push (h : ∀ s r s', f.InBody gs s → a s = .ok (r, s') → ∃ seg k l,
    s' = s.push seg k l ∧ List.Forall₂ (f.Follows gs slots) us (seg.filterMap target)) :
    Traces f gs slots us a := by
  intro s r s' hs hrun
  obtain ⟨seg, k, l, rfl, htrace⟩ := h s r s' hs hrun
  exact ⟨⟨hs.lsyms, hs.gsyms, hs.slots⟩, seg, rfl, htrace⟩

theorem of_reached {u : Option Occ} (h : ∀ s r s', f.InBody gs s → a s = .ok (r, s') →
    ∃ t, Reached a s t ∧ f.Follows gs slots u t) : Traces f gs slots [u] a := by
  refine of_push fun s r s' hs hrun => ?_
  obtain ⟨t, ⟨r', seg, k, hrun', ht⟩, hfollows⟩ := h s r s' hs hrun
  cases hrun.symm.trans hrun'
  exact ⟨seg, k, 0, rfl, by rw [ht]; exact .cons hfollows .nil⟩

theorem emit {i : Insn} (hi : target i = none) : Traces f gs slots [] (emit i) := by
  refine of_push fun s r s' hs h => ⟨[i], 0, 0, emit_eq_ok.1 h, ?_⟩
  simp [hi]

theorem emitDst {i : Insn} (hi : target i = none) : Traces f gs slots [] (emitDst i) := by
  refine of_push fun s r s' hs h => ⟨_, 1, 0, (emitDst_eq_ok.1 h).2, ?_⟩
  rw [List.filterMap_cons_none (hi ▸ rfl)]
  exact .nil

theorem newLabel : Traces f gs slots [] newLabel :=
  of_push fun _ _ _ _ h => ⟨[], 0, 1, (newLabel_eq_ok.1 h).2, .nil⟩

theorem newTemp : Traces f gs slots [] newTemp :=
  of_push fun _ _ _ _ h => ⟨[], 1, 0, (newTemp_eq_ok.1 h).2, .nil⟩

theorem get {g : Lowering → LowerM β} (hg : ∀ s, Traces f gs slots us (g s)) :
    Traces f gs slots us ((MonadState.get : LowerM Lowering) >>= g) :=
  fun s r s' hs h => hg s s r s' hs h

end Traces

section Forms

variable {us vs : List (Option Occ)}

theorem lowerConst_traces (v : Int) : Traces f gs slots [] (lowerConst v) := .emitDst rfl

theorem emitLabel_traces (l : Nat) : Traces f gs slots [] (emitLabel l) := .emit rfl

theorem emitJmp_traces (l : Nat) : Traces f gs slots [] (emitJmp l) := .emit rfl

theorem nameExpr_traces (line : Nat) (x : String) :
    Traces f gs slots [some ⟨x, false, bs⟩] (nameExpr line x) := by
  refine .of_reached fun s r s' hs h => ?_
  cases hl : lookup s x with
  | none => cases h.symm.trans (name_error line hl).1
  | some t => exact ⟨t, nameExpr_reached line hl, fun ho => emits_lookup hs (ho _ rfl) hl⟩

theorem nameAddr_traces (line : Nat) (x : String) :
    Traces f gs slots [some ⟨x, false, bs⟩] (nameAddr line x) := by
  refine .of_reached fun s r s' hs h => ?_
  cases hl : lookup s x with
  | none => cases h.symm.trans (name_error line hl).2
  | some t => exact ⟨t, nameAddr_reached line hl, fun ho => emits_lookup hs (ho _ rfl) hl⟩

theorem scale_traces (w : Int) (t : Nat) : Traces f gs slots [] (scale w t) := by
  unfold scale
  split
  · exact .pure _
  · exact .next (lowerConst_traces _) fun tmul => .emitDst rfl

theorem indexAddr_traces {a b : LowerM Val} (ha : Traces f gs slots us a)
    (hb : Traces f gs slots vs b) : Traces f gs slots (us ++ vs) (indexAddr a b) :=
  .bind ha fun _ => .last hb fun _ => .next (scale_traces _ _) fun _ =>
    .next (.emitDst rfl) fun _ => .pure _

theorem load_traces (bt : Ty) (t : Nat) : Traces f gs slots [] (load bt t) := by
  refine .next (.emitDst ?_) fun _ => .pure _
  cases bt <;> rfl

theorem lowerTest_traces {a : LowerM Val} (ha : Traces f gs slots us a) (ltrue lfalse : Nat) :
    Traces f gs slots us (lowerTest a ltrue lfalse) :=
  .last ha fun _ => .next (.emit rfl) fun _ => emitJmp_traces _

theorem lowerStr_traces (text : List UInt8) : Traces f gs slots [none] (lowerStr text) := by
  intro s r s' hs h
  unfold lowerStr at h
  rw [get_bind, set_bind] at h
  obtain ⟨t, s1, h1, h2⟩ := bind_eq_ok.1 h
  obtain ⟨-, rfl⟩ := pure_eq_ok.1 h2
  rw [(emitDst_eq_ok.1 h1).2]
  -- the text is a global behind those of the program
  refine ⟨⟨hs.lsyms, hs.gsyms.trans (List.prefix_append _ _), hs.slots⟩, _, rfl, ?_⟩
  exact .cons (fun _ => ⟨s.strctr, rfl⟩) .nil

theorem lowerUnop_traces (op : UnOp) {a : Lowered} (ha : Traces f gs slots us a.expr)
    (haddr : Traces f gs slots us a.addr) : Traces f gs slots us (lowerUnop op a) := by
  cases op with
  | star => exact .last ha fun _ => load_traces _ _
  | amp => exact .last haddr fun _ => .pure _
  | minus => exact .last ha fun _ => .next (.emitDst rfl) fun _ => .pure _
  | tilde => exact .last ha fun _ => .next (.emitDst rfl) fun _ => .pure _
  | bang =>
    exact .last ha fun _ => .next .newTemp fun _ => .next .newTemp fun _ =>
      .next (.emit rfl) fun _ => .next (.emit rfl) fun _ => .pure _

theorem lowerBinop_traces (line : Nat) (op : BinOp) {a b : LowerM Val}
    (ha : Traces f gs slots us a) (hb : Traces f gs slots vs b) :
    Traces f gs slots (us ++ vs) (lowerBinop line op a b) := by
  refine .bind ha fun l => .last hb fun r => .next ?_ fun tr => ?_
  · unfold scaleSum
    split
    · exact scale_traces _ _
    · exact .pure _
  · cases op with
    | andand | oror => exact .die _
    | _ => exact .next (.emitDst rfl) fun _ => .pure _

theorem condAnd_traces {a b : Nat → Nat → LowerM Unit} (ha : ∀ l l', Traces f gs slots us (a l l'))
    (hb : ∀ l l', Traces f gs slots vs (b l l')) (ltrue lfalse : Nat) :
    Traces f gs slots (us ++ vs) (condAnd a b ltrue lfalse) :=
  .next .newLabel fun _ => .bind (ha _ _) fun _ => .next (emitLabel_traces _) fun _ => hb _ _

theorem condOr_traces {a b : Nat → Nat → LowerM Unit} (ha : ∀ l l', Traces f gs slots us (a l l'))
    (hb : ∀ l l', Traces f gs slots vs (b l l')) (ltrue lfalse : Nat) :
    Traces f gs slots (us ++ vs) (condOr a b ltrue lfalse) :=
  .next .newLabel fun _ => .bind (ha _ _) fun _ => .next (emitLabel_traces _) fun _ => hb _ _

theorem lowerShortcircuit_traces {c : Nat → Nat → LowerM Unit}
    (hc : ∀ l l', Traces f gs slots us (c l l')) : Traces f gs slots us (lowerShortcircuit c) :=
  .next .newLabel fun _ => .next .newLabel fun _ => .next .newLabel fun _ =>
    .last (hc _ _) fun _ => .next (emitLabel_traces _) fun _ => .next .newTemp fun _ =>
    .next (.emit rfl) fun _ => .next (emitJmp_traces _) fun _ =>
    .next (emitLabel_traces _) fun _ => .next (.emit rfl) fun _ =>
    .next (emitLabel_traces _) fun _ => .pure _

theorem lowerAssign_traces (a : Expr) {b : LowerM Val}
    (ha : Traces f gs slots (a.uses bs) a.lower.addr) (hb : Traces f gs slots vs b) :
    Traces f gs slots (vs ++ a.uses bs) (lowerAssign a.nameOf a.lower.addr b) := by
  refine .bind hb fun r => ?_
  have hstore : ∀ ad : Addr, Traces f gs slots [] ((get : LowerM Lowering) >>= fun s =>
      emit { op := if isByte s none ad.baseType then .sb else .sw, a := some ad.temp,
             b := some r.temp } >>= fun _ => pure r) := by
    refine fun ad => .get fun s => .next (.emit ?_) fun _ => .pure _
    split <;> rfl
  cases a with
  | name line x =>
    refine .of_reached (u := some ⟨x, false, bs⟩) fun s v s' hs h => ?_
    cases hl : lookup s x with
    | some t => exact ⟨t, lowerAssign_reached line r hl, fun ho => emits_lookup hs (ho _ rfl) hl⟩
    | none =>
      have hfind : findLsym s x = none := by
        unfold lookup at hl
        split at hl
        · cases hl
        · assumption
      rw [get_bind] at h
      simp only [Expr.nameOf, Option.bind_some, hfind, Option.filter_none] at h
      obtain ⟨ad, s1, h1, -⟩ := bind_eq_ok.1 h
      cases h1.symm.trans (name_error line hl).2
  | _ => exact .get fun s => .last ha hstore

theorem emitDst_called {i : Insn} (hi : target i = some (.sym x)) :
    Traces f gs slots [some ⟨x, true, bs⟩] (emitDst i) :=
  .of_reached fun _ _ _ _ _ =>
    ⟨.sym x, .emitDst hi, fun ho => emits_sym (not_declared (ho _ rfl) rfl)⟩

theorem lowerMark_traces : Traces f gs slots [some ⟨"__mark", true, bs⟩] lowerMark := by
  intro s r s' hs h
  obtain ⟨hlsyms, hgsyms, hgrows, i, hcode, hi⟩ := lowerMark_code h
  refine ⟨⟨hlsyms.trans hs.lsyms, hgsyms ▸ hs.gsyms, hs.slots.trans hgrows⟩, [i], hcode, ?_⟩
  rw [List.filterMap_cons_some hi]
  refine .cons (fun ho => ?_) .nil
  simp only [FuncDecl.Emits, denotes_of_intrinsic (ho _ rfl) rfl (by simp [intrinsics])]
  -- the slot of the mark is a new one
  exact .inr ⟨_, rfl, fun k hk => by cases hk; exact hs.slots⟩

theorem lowerCapture_traces :
    Traces f gs slots [some ⟨"__capture", true, bs⟩] lowerCapture := by
  refine .last (.of_reached fun s r s' hs h => ?_) fun _ => .pure _
  refine ⟨_, .emitDst rfl, fun ho => ?_⟩
  simp only [FuncDecl.Emits, denotes_of_intrinsic (ho _ rfl) rfl (by simp [intrinsics])]
  exact .inr ⟨none, rfl, fun k hk => by cases hk⟩

theorem emitArgs_traces (i : Nat) (ts : List Nat) : Traces f gs slots [] (emitArgs i ts) := by
  induction ts generalizing i with
  | nil => exact .pure _
  | cons t ts ih => exact .next (.emit rfl) fun _ => ih _

/-- What the three functions reach for a node. -/
structure NodeTraces (f : FuncDecl) (gs : List Gsym) (slots : List Nat × Nat → Nat)
    (us : List (Option Occ)) (e : Expr) : Prop where
  expr : Traces f gs slots us e.lower.expr
  addr : Traces f gs slots us e.lower.addr
  cond : ∀ l l', Traces f gs slots us (e.lower.cond l l')

theorem NodeTraces.plain {e : Expr} {line : Nat} {x : LowerM Val}
    (he : e.lower = Tinc.plain line x) (hx : Traces f gs slots us x) :
    NodeTraces f gs slots us e := by
  refine ⟨?_, ?_, fun l l' => ?_⟩
  · rw [he]
    exact hx
  · rw [he]
    exact .die _
  · rw [he]
    exact lowerTest_traces hx l l'

theorem unop_nodeTraces (line : Nat) (op : UnOp) {a : Expr} (ha : NodeTraces f gs slots us a) :
    NodeTraces f gs slots us (.unop line op a) := by
  have hexpr := lowerUnop_traces op ha.expr ha.addr
  cases op with
  | star => exact ⟨hexpr, .last ha.expr fun _ => .pure _, lowerTest_traces hexpr⟩
  | bang => exact ⟨hexpr, .die _, fun l l' => ha.cond l' l⟩
  | _ => exact .plain rfl hexpr

theorem binop_nodeTraces (line : Nat) (op : BinOp) {a b : Expr} (ha : NodeTraces f gs slots us a)
    (hb : NodeTraces f gs slots vs b) : NodeTraces f gs slots (us ++ vs) (.binop line op a b) := by
  cases op with
  | andand =>
    have hcond := condAnd_traces ha.cond hb.cond
    exact ⟨lowerShortcircuit_traces hcond, .die _, hcond⟩
  | oror =>
    have hcond := condOr_traces ha.cond hb.cond
    exact ⟨lowerShortcircuit_traces hcond, .die _, hcond⟩
  | _ => exact .plain rfl (lowerBinop_traces line _ ha.expr hb.expr)

end Forms

theorem Args.uses_zero (args : Args) : args.uses bs 0 = [] := by
  cases args <;> rfl

mutual

theorem Expr.traces (bs : List Block) : (e : Expr) → NodeTraces f gs slots (e.uses bs) e
  | .num _ v => .plain rfl (.next (lowerConst_traces v) fun _ => .pure _)
  | .charlit _ v => .plain rfl (.next (lowerConst_traces v) fun _ => .pure _)
  | .str _ text => .plain rfl (lowerStr_traces text)
  | .name line x =>
    ⟨nameExpr_traces line x, nameAddr_traces line x, lowerTest_traces (nameExpr_traces line x)⟩
  | .index _ a b => by
    have haddr := indexAddr_traces (a.traces bs).expr (b.traces bs).expr
    have hexpr := haddr.last fun ad => load_traces ad.baseType ad.temp
    exact ⟨hexpr, haddr, lowerTest_traces hexpr⟩
  | .unop line op a => unop_nodeTraces line op (a.traces bs)
  | .binop line op a b => binop_nodeTraces line op (a.traces bs) (b.traces bs)
  | .assign _ a b => .plain rfl (lowerAssign_traces a (a.traces bs).addr (b.traces bs).expr)
  | .call _ g args => by
    refine .plain rfl ?_
    simp only [Expr.uses]
    by_cases hmark : g.nameOf = some "__mark"
    · rw [if_pos hmark, hmark, argLimit, if_pos (.inl rfl), Args.uses_zero]
      exact lowerMark_traces
    · rw [if_neg hmark]
      by_cases hcapture : g.nameOf = some "__capture"
      · rw [if_pos hcapture, hcapture, argLimit, if_pos (.inr rfl), Args.uses_zero]
        exact lowerCapture_traces
      · rw [if_neg hcapture]
        by_cases hresume : g.nameOf = some "__resume"
        · rw [if_pos hresume, hresume, argLimit, if_neg (by simp), if_pos rfl]
          exact lowerResume_traces bs args
        · rw [if_neg hresume, argLimit, if_neg (by simp [hmark, hcapture]), if_neg hresume]
          refine .bind (lowerArgs_traces bs args 16 0 rfl) fun ts =>
            .next (emitArgs_traces _ _) fun _ => ?_
          cases hname : g.nameOf with
          | some x => exact .last (emitDst_called rfl) fun _ => .pure _
          | none => exact .last (g.traces bs).expr fun _ => .next (.emitDst rfl) fun _ => .pure _

theorem lowerArgs_traces (bs : List Block) :
    (args : Args) → (n nargs : Nat) → n + nargs = 16 →
      Traces f gs slots (args.uses bs n) (lowerArgs nargs args)
  | .nil, n, _, _ => by
    cases n <;> exact .pure _
  | .cons a next, 0, nargs, h => by
    intro s r s' hs hrun
    obtain ⟨av, s1, -, h2⟩ := bind_eq_ok.1 hrun
    rw [if_pos (by omega)] at h2
    cases h2
  | .cons a next, n + 1, nargs, h => by
    refine .bind (a.traces bs).expr fun av => ?_
    rw [if_neg (by omega)]
    exact .last (lowerArgs_traces bs next n (nargs + 1) (by omega)) fun _ => .pure _

theorem lowerResume_traces (bs : List Block) : (args : Args) →
    Traces f gs slots (args.uses bs 2 ++ [some ⟨"__resume", true, bs⟩]) (lowerResume args)
  | .nil => .die _
  | .cons _ .nil => .die _
  | .cons a (.cons b next) => by
    have hemit : ∀ i, target i = some (.intrinsic "__resume" none) →
        Traces f gs slots [some ⟨"__resume", true, bs⟩] (emit i) := by
      intro i hi
      refine .of_reached fun s _ _ _ _ => ⟨_, ⟨(), [i], 0, emit_ok i s,
        List.filterMap_cons_some hi⟩, fun ho => ?_⟩
      simp only [FuncDecl.Emits, denotes_of_intrinsic (ho _ rfl) rfl (by simp [intrinsics])]
      exact .inr ⟨none, rfl, fun k hk => by cases hk⟩
    simp only [Args.uses, List.append_nil, List.append_assoc]
    exact .bind (a.traces bs).expr fun _ => .bind (b.traces bs).expr fun _ =>
      .last (hemit _ rfl) fun _ => .pure _

end

/-! ## Statements and functions -/

theorem inLoop_traces {us : List (Option Occ)} {a : LowerM Unit} (l : Loop)
    (ha : Traces f gs slots us a) : Traces f gs slots us (inLoop l a) := by
  intro s r s' hs h
  unfold inLoop at h
  rw [get_bind] at h
  split at h
  · cases h
  · rw [set_bind] at h
    obtain ⟨u, s1, h1, h2⟩ := bind_eq_ok.1 h
    cases h2
    -- the stack of loops is no part of what is reached
    obtain ⟨hs1, hcode⟩ := ha { s with loops := l :: s.loops } u s1
      ⟨hs.lsyms, hs.gsyms, hs.slots⟩ h1
    exact ⟨⟨hs1.lsyms, hs1.gsyms, hs1.slots⟩, hcode⟩

theorem loopTest_traces (test : Expr) (lbrk : Nat) :
    Traces f gs slots (test.uses bs) (loopTest test lbrk) := by
  have hcond : Traces f gs slots (test.uses bs) (do
      let lbody ← newLabel
      lowerCond test lbody lbrk
      emitLabel lbody) :=
    .next .newLabel fun _ => .last ((test.traces bs).cond _ _) fun _ => emitLabel_traces _
  unfold loopTest
  cases test with
  | num _ v =>
    split
    · exact .pure _
    · exact hcond
  | _ => exact hcond

theorem exit_traces (msg : String) (target : Loop → Nat) :
    Traces f gs slots [] (do
      let s ← get
      match s.loops with
      | [] => die msg
      | l :: _ => emitJmp (target l)) := by
  refine .get fun s => ?_
  cases s.loops with
  | nil => exact .die _
  | cons l loops => exact emitJmp_traces _

mutual

theorem lowerStmt_traces : (n : Stmt) → (path : List Nat) → (bs : List Block) →
    Traces f gs slots (n.uses path bs) (lowerStmt n)
  | .block decls body, path, bs => lowerStmts_traces body path (⟨path, decls⟩ :: bs)
  | .exprStmt a, _, bs => .last (a.traces bs).expr fun _ => .pure _
  | .empty, _, _ => .pure _
  | .ifThen test x, path, bs =>
    .next .newLabel fun _ => .next .newLabel fun _ => .next .newLabel fun _ =>
      .bind ((test.traces bs).cond _ _) fun _ => .next (emitLabel_traces _) fun _ =>
      .last (lowerStmt_traces x path bs) fun _ => emitLabel_traces _
  | .ifElse test x y, path, bs =>
    .next .newLabel fun _ => .next .newLabel fun _ => .next .newLabel fun _ =>
      .bind ((test.traces bs).cond _ _) fun _ => .next (emitLabel_traces _) fun _ =>
      .bind (lowerStmt_traces x (0 :: path) bs) fun _ => .next (emitJmp_traces _) fun _ =>
      .next (emitLabel_traces _) fun _ => .last (lowerStmt_traces y (1 :: path) bs) fun _ =>
      emitLabel_traces _
  | .loop test x, path, bs =>
    .next .newLabel fun _ => .next .newLabel fun _ => .next (emitLabel_traces _) fun _ =>
      .bind (loopTest_traces test _) fun _ =>
      .last (inLoop_traces _ (lowerStmt_traces x path bs)) fun _ =>
      .next (emitJmp_traces _) fun _ => emitLabel_traces _
  | .brk _, _, _ => exit_traces _ Loop.brk
  | .cont _, _, _ => exit_traces _ Loop.cont
  | .ret, _, _ => .emit rfl
  | .retv a, _, bs => .last (a.traces bs).expr fun _ => .emit rfl

theorem lowerStmts_traces : (n : Stmts) → (path : List Nat) → (bs : List Block) →
    Traces f gs slots (n.uses path bs) (lowerStmts n)
  | .nil, _, _ => .pure _
  | .cons s next, path, bs =>
    .bind (lowerStmt_traces s (0 :: path) bs) fun _ => lowerStmts_traces next (1 :: path) bs

end

theorem addParams_ok (params : List Param) (s : Lowering) :
    addParams params s = .ok ((), { s with
      lsyms := s.lsyms ++ paramSyms s.slotSizes.length params
      slotSizes := s.slotSizes ++ params.map fun _ => 4 }) := by
  induction params generalizing s with
  | nil => simp [addParams, paramSyms, pure_eq_ok]
  | cons p params ih =>
    rw [addParams, bind_of_ok (a := s.slotSizes.length) rfl, bind_of_ok (a := ()) rfl, ih]
    simp [paramSyms, List.mapIdx_cons, Param.sym, Nat.add_assoc, Nat.add_comm 1]

theorem collectLocalDecls_ok (decls : List Decl) (s : Lowering) :
    collectLocalDecls decls s = .ok ((), { s with
      lsyms := s.lsyms ++ declSyms s.slotSizes.length decls
      slotSizes := s.slotSizes ++ decls.map declBytes }) := by
  induction decls generalizing s with
  | nil => simp [collectLocalDecls, declSyms, pure_eq_ok]
  | cons d decls ih =>
    rw [collectLocalDecls, bind_of_ok (a := s.slotSizes.length) rfl, bind_of_ok (a := ()) rfl, ih]
    simp [declSyms, List.mapIdx_cons, Decl.sym, Nat.add_assoc, Nat.add_comm 1]

theorem lowerFunction_traces {s' : Lowering} {fn : Func} (hgs : gs <+: s.gsyms)
    (h : lowerFunction f s = .ok (fn, s')) :
    List.Forall₂ (f.Follows gs slots) f.uses (fn.code.filterMap target) := by
  unfold lowerFunction at h
  obtain ⟨_, s1, h1, h⟩ := bind_eq_ok.1 h
  obtain ⟨_, s2, h2, h⟩ := bind_eq_ok.1 h
  obtain ⟨_, s3, h3, h⟩ := bind_eq_ok.1 h
  obtain ⟨_, s4, h4, h⟩ := bind_eq_ok.1 h
  obtain ⟨_, s5, h5, h⟩ := bind_eq_ok.1 h
  obtain ⟨_, s6, h6, h⟩ := bind_eq_ok.1 h
  obtain ⟨_, s7, h7, h⟩ := bind_eq_ok.1 h
  obtain ⟨_, s8, h8, h⟩ := bind_eq_ok.1 h
  cases h1
  rw [addParams_ok] at h2
  cases h2
  cases h3
  rw [collectLocalDecls_ok] at h4
  cases h4
  cases h5
  have hbody : Traces f gs slots f.uses (lowerStmts f.body) := lowerStmts_traces f.body [] []
  obtain ⟨hs6, seg, hcode, htrace⟩ := hbody _ () s6 ⟨by simp [FuncDecl.syms], by exact hgs,
    by simp [syms_length]⟩ h6
  have hfinish : Traces f gs slots [] finish := by
    refine .get fun s => ?_
    split
    · exact .pure _
    · exact .next (lowerConst_traces 0) fun _ => .emit rfl
  obtain ⟨hs7, seg7, hcode7, htrace7⟩ := hfinish s6 () s7 hs6 h7
  cases h8
  cases h
  simp only [irEmit, hcode7, hcode, List.filterMap_append]
  rw [List.forall₂_nil_left_iff] at htrace7
  rw [htrace7, List.append_nil]
  exact (List.append_nil _).symm ▸ htrace

theorem follows_of_not_missed {us : List (Option Occ)} {ts : List Target}
    (h : List.Forall₂ (f.Follows gs slots) us ts) (hus : ∀ o, some o ∈ us → ¬ f.Missed gs o) :
    List.Forall₂ (f.Emits gs slots) us ts := by
  induction h with
  | nil => exact .nil
  | cons ht _ ih =>
    exact .cons (ht fun o ho => hus o (by rw [← Option.mem_def.1 ho]; exact List.mem_cons_self))
      (ih fun o ho => hus o (List.mem_cons_of_mem _ ho))

theorem exists_inBody (f : FuncDecl) (gs : List Gsym) : ∃ s, f.InBody gs s :=
  ⟨{ fn := irNewFunc f.name, lsyms := f.syms, gsyms := gs,
     slotSizes := f.syms.map fun _ => 4 }, rfl, List.prefix_rfl, by simp⟩

/-- The names of a function follow the rule of blocks exactly when no occurrence is in a block
inside the body that declares its name, and no name that is called is one that the function
declares, or a global with the name of an intrinsic. -/
theorem FuncDecl.scoped_iff (f : FuncDecl) (gs : List Gsym) :
    f.Scoped gs ↔ ∀ o, some o ∈ f.uses → ¬ f.Missed gs o := by
  constructor
  · rintro ⟨slots, h⟩ o ho hmissed
    obtain ⟨s, hs⟩ := exists_inBody f gs
    obtain ⟨b, hb, hnot⟩ := not_reached_of_missed hs.lsyms hmissed h.apart
    exact hnot (h.denoted o ho b hb s hs 0)
  · intro h
    refine ⟨fun p => f.syms.length + Encodable.encode p, ?_, fun p => Nat.le_add_right _ _, ?_, ?_⟩
    · intro p q hpq
      exact Encodable.encode_injective (Nat.add_left_cancel hpq)
    · intro o ho b hb s hs line
      exact reached_of_not_missed hs (h o ho) hb line
    · intro s fn s' hgs hlow
      exact follows_of_not_missed (lowerFunction_traces hgs hlow) h

/-- `f() { int x; { int x; x = 1; } return x; }` -/
def shadowExample : FuncDecl where
  name := "f"
  params := []
  decls := [⟨"x", .int, false, 0⟩]
  body := .cons (.block [⟨"x", .int, false, 0⟩]
    (.cons (.exprStmt (.assign 3 (.name 3 "x") (.num 3 1))) .nil))
    (.cons (.retv (.name 4 "x")) .nil)

/-- The assignment in the inner block goes to the outer variable. -/
theorem shadowExample_not_scoped : ¬ shadowExample.Scoped [] := by
  rintro ⟨slots, h⟩
  have htrace : List.Forall₂ (shadowExample.Emits [] slots)
      [some ⟨"x", false, [⟨[0], [⟨"x", .int, false, 0⟩]⟩]⟩, some ⟨"x", false, []⟩]
      [.slot 0, .slot 0] :=
    h.traced { fn := irNewFunc "" } _ _ List.nil_prefix rfl
  have hinner : Target.slot 0 = .slot (slots ([0], 0)) := (List.forall₂_cons.1 htrace).1
  have hapart : 1 ≤ slots ([0], 0) := h.apart ([0], 0)
  have hzero := Target.slot.inj hinner
  omega

end MechanicalResearcher.PortableCompiler.Tinc
