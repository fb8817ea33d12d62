import MechanicalResearcher.PortableCompiler.Flow
import MechanicalResearcher.PortableCompiler.Tinc

/-!
# Temps of lowered TinC

Every form of TinC lowers to a piece of code whose temps are written before they are read,
except a `!` that is used as a value.

A `Piece` relates two states of the lowering and the temps that are live around what was
emitted between them.  While an expression is lowered, the temps that its context still needs
are the frame `F`: they are live through the whole piece.
-/

namespace MechanicalResearcher.PortableCompiler.Tinc

open Lib.Liveness

variable {s' : Lowering} {G : Set Nat} {a b : LowerM Val} {ltrue lfalse : Nat}
    {c : Nat → Nat → LowerM Unit} {r : Unit}

/-! ## What was emitted between two states -/

structure Ext (s s' : Lowering) (seg : List Insn) : Prop where
  code : s'.fn.code = s.fn.code ++ seg
  temps : s.fn.ntemps ≤ s'.fn.ntemps
  labels : s.fn.nlabels ≤ s'.fn.nlabels
  loops : s'.loops = s.loops
  defs : ∀ t, s.fn.ntemps ≤ t → t < s'.fn.ntemps → t ∈ dsts seg
  fresh : ∀ i ∈ seg, ∀ t, i.dst = some t → s.fn.ntemps ≤ t ∧ t < s'.fn.ntemps
  once : Once seg

namespace Ext

variable {s s1 s2 : Lowering} {seg seg' : List Insn}

theorem trans (h : Ext s s1 seg) (h' : Ext s1 s2 seg') : Ext s s2 (seg ++ seg') where
  code := by rw [h'.code, h.code, List.append_assoc]
  temps := h.temps.trans h'.temps
  labels := h.labels.trans h'.labels
  loops := h'.loops.trans h.loops
  defs t ht ht' := by
    by_cases hlt : t < s1.fn.ntemps
    · obtain ⟨i, hi, hdst⟩ := h.defs t ht hlt
      exact ⟨i, List.mem_append_left _ hi, hdst⟩
    · obtain ⟨i, hi, hdst⟩ := h'.defs t (by omega) ht'
      exact ⟨i, List.mem_append_right _ hi, hdst⟩
  fresh i hi t hdst := by
    have htemps := h.temps
    have htemps' := h'.temps
    obtain hi | hi := List.mem_append.1 hi
    · have := h.fresh i hi t hdst
      omega
    · have := h'.fresh i hi t hdst
      omega
  once := by
    refine h.once.append h'.once ?_
    rintro t ⟨i, hi, hdst⟩ ⟨i', hi', hdst'⟩
    have := h.fresh i hi t hdst
    have := h'.fresh i' hi' t hdst'
    omega

end Ext

/-! ## Pieces of code with their live temps -/

/-- From `s` to `s'` a piece was emitted before which `F` is live and after which `F'` is.  The
labels of the piece get live temps of their own; `E` is what it asks of other labels. -/
def Piece (strict : Prop) (E : (Nat → Set Nat) → Prop) (s s' : Lowering) (F F' : Set Nat) :
    Prop :=
  ∃ seg, Ext s s' seg ∧ ∃ Λ' : Nat → Set Nat, ∀ Λ B, E Λ →
    (∀ l, s.fn.nlabels ≤ l → l < s'.fn.nlabels → Λ l = Λ' l) → (∀ u < s.fn.ntemps, u ∈ B) →
      Flow strict Λ B F seg F'

namespace Piece

variable {strict : Prop} {E E' : (Nat → Set Nat) → Prop} {s s1 s2 : Lowering}
  {F F1 F2 : Set Nat}

theorem trans (h : Piece strict E s s1 F F1) (h' : Piece strict E s1 s2 F1 F2) :
    Piece strict E s s2 F F2 := by
  obtain ⟨seg, hext, Λ1, hflow⟩ := h
  obtain ⟨seg', hext', Λ2, hflow'⟩ := h'
  refine ⟨seg ++ seg', hext.trans hext', fun l => if l < s1.fn.nlabels then Λ1 l else Λ2 l, ?_⟩
  intro Λ B hE hΛ hB
  have hlabels := hext.labels
  have hlabels' := hext'.labels
  refine (hflow Λ B hE (fun l hl hl' => ?_) hB).append
    (hflow' Λ (B ∪ dsts seg) hE (fun l hl hl' => ?_) fun u hu => ?_)
  · exact (hΛ l hl (by omega)).trans (if_pos hl')
  · exact (hΛ l (by omega) hl').trans (if_neg (by omega))
  · by_cases hlt : u < s.fn.ntemps
    · exact .inl (hB u hlt)
    · exact .inr (hext.defs u (by omega) hu)

theorem mono (h : Piece strict E s s1 F F1) (hE : ∀ Λ, E' Λ → E Λ) : Piece strict E' s s1 F F1 := by
  obtain ⟨seg, hext, Λ', hflow⟩ := h
  exact ⟨seg, hext, Λ', fun Λ B hE' => hflow Λ B (hE Λ hE')⟩

end Piece

/-! ## One instruction -/

/-- Neither a jump nor a label nor an end. -/
def isData (op : Op) : Bool :=
  match op with
  | .jmp | .bz | .bnz | .ret | .retv | .resume | .endf | .label => false
  | _ => true

theorem stepOk_data {Λ : Nat → Set Nat} {B D D' : Set Nat} {i : Insn} (hop : isData i.op = true)
    (hnext : ∀ t ∈ D', t ∈ D ∨ i.dst = some t) : StepOk Λ B D i D' where
  next t ht := by
    have hfalls : i.falls = true := by
      unfold Insn.falls
      cases h : i.op <;> simp [h, isData] at hop ⊢
    rw [if_pos hfalls]
    exact hnext t ht
  label l hl := by
    rw [hl.1] at hop
    cases hop
  jump l hl := by
    have htarget : i.target = none := by
      unfold Insn.target
      cases h : i.op <;> simp [h, isData] at hop ⊢
    rw [htarget] at hl
    cases hl

namespace Piece

variable {strict : Prop} {E : (Nat → Set Nat) → Prop} {s s1 : Lowering} {F F' : Set Nat} {i : Insn}

theorem newLabel (X : Set Nat)
    (h : Piece strict (fun Λ => E Λ ∧ Λ s.fn.nlabels = X) (s.push [] 0 1) s1 F F') :
    Piece strict E s s1 F F' := by
  obtain ⟨seg, hext, Λ', hflow⟩ := h
  have hlabels : s.fn.nlabels + 1 ≤ s1.fn.nlabels := hext.labels
  refine ⟨seg, ⟨?_, hext.temps, by omega, hext.loops, hext.defs, hext.fresh, hext.once⟩,
    fun l => if l = s.fn.nlabels then X else Λ' l, fun Λ B hE hΛ hB => ?_⟩
  · have hcode := hext.code
    simp only [Lowering.push, List.append_nil] at hcode
    exact hcode
  · refine hflow Λ B ⟨hE, ?_⟩ (fun l hl hl' => ?_) hB
    · exact (hΛ _ (Nat.le_refl _) hlabels).trans (if_pos rfl)
    · have hl : s.fn.nlabels + 1 ≤ l := hl
      exact (hΛ l (by omega) hl').trans (if_neg (by omega))

theorem insn (hdst : i.dst = none) (huse : ∀ t, i.Uses t → t ∈ F)
    (hstep : ∀ Λ B, E Λ → (∀ u < s.fn.ntemps, u ∈ B) → StepOk Λ B F i F')
    (hcover : ∀ t ∈ F, t ∈ F' ∨ i.Uses t) : Piece strict E s (s.push [i] 0 0) F F' := by
  refine ⟨[i], ⟨rfl, Nat.le_refl _, Nat.le_refl _, rfl, fun t ht ht' => ?_, fun j hj t ht => ?_,
    once_single i⟩, fun _ => ∅, fun Λ B hE _ hB => ?_⟩
  · exact absurd ht' (Nat.not_lt.2 ht)
  · obtain rfl := List.mem_singleton.1 hj
    rw [hdst] at ht
    cases ht
  · exact .single huse (hstep Λ B hE hB) fun t ht => (hcover t ht).imp_right .inr

theorem plainInsn (hop : isData i.op = true) (hdst : i.dst = none)
    (huse : ∀ t, i.Uses t → t ∈ F) (hnext : F' ⊆ F) (hcover : ∀ t ∈ F, t ∈ F' ∨ i.Uses t) :
    Piece strict E s (s.push [i] 0 0) F F' :=
  insn hdst huse (fun _ _ _ _ => stepOk_data hop fun _ ht => .inl (hnext ht)) hcover

theorem data (hop : isData i.op = true) (huse : ∀ t, i.Uses t → t ∈ F)
    (hnext : ∀ t ∈ F', t ∈ F ∨ t = s.fn.ntemps) (hcover : ∀ t ∈ F, t ∈ F' ∨ i.Uses t) :
    Piece strict E s (s.push [{ i with dst := some s.fn.ntemps }] 1 0) F F' := by
  refine ⟨[{ i with dst := some s.fn.ntemps }], ⟨rfl, Nat.le_succ _, Nat.le_refl _, rfl,
    fun t ht ht' => ?_, fun j hj t ht => ?_, once_single _⟩, fun _ => ∅, fun Λ B hE _ hB => ?_⟩
  · have ht' : t < s.fn.ntemps + 1 := ht'
    exact ⟨_, List.mem_singleton.2 rfl, by simp; omega⟩
  · obtain rfl := List.mem_singleton.1 hj
    cases ht
    exact ⟨Nat.le_refl _, Nat.lt_succ_self _⟩
  · refine .single huse (stepOk_data hop fun t ht => ?_) fun t ht => ?_
    · exact (hnext t ht).imp_right fun h => by rw [h]
    · exact (hcover t ht).imp_right .inr

theorem label {l : Nat} (hE : ∀ Λ, E Λ → Λ l = F) :
    Piece strict E s (s.push [{ op := .label, label := some l }] 0 0) F F := by
  refine insn rfl (by simp [Insn.Uses]) (fun Λ _ h _ => ⟨fun _ ht => .inl ht, ?_, ?_⟩)
    fun _ ht => .inl ht
  · rintro l' ⟨-, hl⟩
    cases hl
    rw [hE Λ h]
  · rintro l' hl
    cases hl

theorem jmp {l : Nat} (hE : ∀ Λ, E Λ → Λ l ⊆ F) (hF : F ⊆ F') (hold : ∀ t ∈ F', t < s.fn.ntemps) :
    Piece strict E s (s.push [{ op := .jmp, label := some l }] 0 0) F F' := by
  refine insn rfl (by simp [Insn.Uses]) (fun Λ B h hB => ⟨fun t ht => ?_, ?_, ?_⟩)
    fun t ht => .inl (hF ht)
  · exact .inl (hB t (hold t ht))
  · rintro l' ⟨hl, -⟩
    cases hl
  · rintro l' hl
    cases hl
    exact hE Λ h

theorem bnz {l t : Nat} (hE : ∀ Λ, E Λ → Λ l ⊆ F) (ht : t ∈ F) (hnext : F' ⊆ F)
    (hcover : ∀ u ∈ F, u ∈ F' ∨ u = t) :
    Piece strict E s (s.push [{ op := .bnz, a := some t, label := some l }] 0 0) F F' := by
  refine insn rfl ?_ (fun Λ B h _ => ⟨fun _ ht => .inl (hnext ht), ?_, ?_⟩) ?_
  · rintro u (hu | hu)
    · cases hu
      exact ht
    · cases hu
  · rintro l' ⟨hl, -⟩
    cases hl
  · rintro l' hl
    cases hl
    exact hE Λ h
  · intro u hu
    exact (hcover u hu).imp_right fun h => .inl (by rw [h])

theorem stop (hfalls : i.falls = false) (htarget : i.target = none) (hlabel : i.op ≠ .label)
    (hdst : i.dst = none) (huse : ∀ t, i.Uses t → t ∈ F) (hcover : ∀ t ∈ F, t ∈ F' ∨ i.Uses t)
    (hold : ∀ t ∈ F', t < s.fn.ntemps) : Piece strict E s (s.push [i] 0 0) F F' := by
  refine insn hdst huse (fun Λ B h hB => ⟨fun t ht => ?_, ?_, ?_⟩) hcover
  · rw [hfalls]
    exact .inl (hB t (hold t ht))
  · rintro l ⟨hl, -⟩
    exact absurd hl hlabel
  · rintro l hl
    rw [htarget] at hl
    cases hl

end Piece

/-! ## Specifications -/

/-- The frame `F`, with the temp `t` kept or dropped. -/
structure Beside (F : Set Nat) (t : Nat) (G : Set Nat) : Prop where
  frame : F ⊆ G
  value : ∀ u ∈ G, u ∈ F ∨ u = t

theorem beside_union (F : Set Nat) (t : Nat) : Beside F t (F ∪ {t}) :=
  ⟨fun _ hu => .inl hu, fun _ hu => hu⟩

theorem beside_self (F : Set Nat) (t : Nat) : Beside F t F := ⟨fun _ hu => hu, fun _ hu => .inl hu⟩

/-- Lowering with `x` leaves its value in the temp `f v`, beside any frame; the value may be
dropped. -/
def TempSpec {α : Type} (strict : Prop) (f : α → Nat) (x : LowerM α) : Prop :=
  ∀ s v s', x s = .ok (v, s') → f v < s'.fn.ntemps ∧ ∀ F G : Set Nat,
    (∀ u ∈ F, u < s.fn.ntemps) → Beside F (f v) G → ∀ E, Piece strict E s s' F G

/-- A condition jumps to one of two labels at which the frame is live. -/
def CondSpec (strict : Prop) (x : Nat → Nat → LowerM Unit) : Prop :=
  ∀ s ltrue lfalse s', x ltrue lfalse s = .ok ((), s') →
    ∀ F : Set Nat, (∀ u ∈ F, u < s.fn.ntemps) →
      Piece strict (fun Λ => Λ ltrue = F ∧ Λ lfalse = F) s s' F F

/-- Arguments stay live together until they are passed. -/
def ArgsSpec (strict : Prop) (x : LowerM (List Nat)) : Prop :=
  ∀ s ts s', x s = .ok (ts, s') → (∀ t ∈ ts, t < s'.fn.ntemps) ∧
    ∀ F : Set Nat, (∀ u ∈ F, u < s.fn.ntemps) → ∀ E, Piece strict E s s' F (F ∪ {t | t ∈ ts})

theorem Piece.temps_le {strict : Prop} {E : (Nat → Set Nat) → Prop} {s : Lowering} {F F' : Set Nat}
    (h : Piece strict E s s' F F') : s.fn.ntemps ≤ s'.fn.ntemps := by
  obtain ⟨_, hext, _⟩ := h
  exact hext.temps

theorem TempSpec.temps_le {α : Type} {strict : Prop} {f : α → Nat} {x : LowerM α}
    (h : TempSpec strict f x) {s : Lowering} {v : α} (hx : x s = .ok (v, s')) :
    s.fn.ntemps ≤ s'.fn.ntemps :=
  ((h s v s' hx).2 ∅ ∅ (by simp) (beside_self _ _) fun _ => True).temps_le

theorem TempSpec.kept {α : Type} {strict : Prop} {f : α → Nat} {x : LowerM α}
    (h : TempSpec strict f x) {s : Lowering} {v : α} (hx : x s = .ok (v, s')) {F : Set Nat}
    (hF : ∀ u ∈ F, u < s.fn.ntemps) (E : (Nat → Set Nat) → Prop) :
    Piece strict E s s' F (F ∪ {f v}) :=
  (h s v s' hx).2 F _ hF (beside_union _ _) E

section Specs

variable {strict : Prop} {α β : Type} {f : α → Nat} {g : β → Nat} {x : LowerM α}

theorem TempSpec.map (hx : TempSpec strict f x) {k : α → β} (hk : ∀ v, g (k v) = f v) :
    TempSpec strict g (do let v ← x; return k v) := by
  intro s v s' h
  obtain ⟨a, s1, ha, h⟩ := bind_eq_ok.1 h
  obtain ⟨rfl, rfl⟩ := pure_eq_ok.1 h
  rw [hk]
  exact hx s a s' ha

theorem tempSpec_data (i : Insn) (hop : isData i.op = true) (ha : i.a = none) (hb : i.b = none) :
    TempSpec strict id (emitDst i) := by
  intro s t s' h
  obtain ⟨rfl, rfl⟩ := emitDst_eq_ok.1 h
  refine ⟨Nat.lt_succ_self _, fun F G hF hG E => .data hop ?_ hG.value fun u hu =>
    .inl (hG.frame hu)⟩
  simp [Insn.Uses, ha, hb]

theorem TempSpec.unary (hx : TempSpec strict f x) {op : α → Op} (hop : ∀ v, isData (op v) = true)
    {k : α → Nat → β} (hk : ∀ v t, g (k v t) = t) (n : Nat) :
    TempSpec strict g (do
      let v ← x
      let t ← emitDst { op := op v, a := some (f v), nargs := n }
      return k v t) := by
  intro s w s' h
  obtain ⟨v, s1, hv, h⟩ := bind_eq_ok.1 h
  obtain ⟨t, s2, ht, h⟩ := bind_eq_ok.1 h
  obtain ⟨rfl, rfl⟩ := pure_eq_ok.1 h
  obtain ⟨rfl, rfl⟩ := emitDst_eq_ok.1 ht
  rw [hk]
  refine ⟨Nat.lt_succ_self _, fun F G hF hG E => (hx.kept hv hF E).trans
    (.data (hop v) ?_ ?_ ?_)⟩
  · rintro u (hu | hu)
    · cases hu
      exact .inr rfl
    · cases hu
  · exact fun u hu => (hG.value u hu).imp_left .inl
  · rintro u (hu | hu)
    · exact .inl (hG.frame hu)
    · exact .inr (.inl (by rw [hu]))

theorem tempSpec_pair {x : LowerM α} {y : α → LowerM β} (hx : TempSpec strict f x)
    (hy : ∀ v, TempSpec strict g (y v)) {s s1 s2 : Lowering} {v : α} {w : β}
    (hv : x s = .ok (v, s1)) (hw : y v s1 = .ok (w, s2)) {F : Set Nat}
    (hF : ∀ u ∈ F, u < s.fn.ntemps) (E : (Nat → Set Nat) → Prop) :
    Piece strict E s s2 F (F ∪ {f v} ∪ {g w}) := by
  have hle := hx.temps_le hv
  refine (hx.kept hv hF E).trans ((hy v).kept hw ?_ E)
  rintro u (hu | hu)
  · exact Nat.lt_of_lt_of_le (hF u hu) hle
  · rw [hu]
    exact (hx s v s1 hv).1

end Specs

theorem Piece.same {strict : Prop} {E : (Nat → Set Nat) → Prop} {s : Lowering} {F : Set Nat}
    (hfn : s'.fn = s.fn) (hloops : s'.loops = s.loops) : Piece strict E s s' F F := by
  refine ⟨[], ⟨by simp [hfn], by rw [hfn], by rw [hfn], hloops, fun t ht ht' => ?_, by simp, ?_⟩,
    fun _ => ∅, fun _ _ _ _ _ => .nil⟩
  · rw [hfn] at ht'
    omega
  · intro q q' i i' t _ hq
    simp at hq

theorem Piece.binary {strict : Prop} {E : (Nat → Set Nat) → Prop} {s : Lowering} {F : Set Nat}
    {op : Op} (hop : isData op = true) (ta tb : Nat) (hG : Beside F s.fn.ntemps G) :
    Piece strict E s
      (s.push [{ op := op, dst := some s.fn.ntemps, a := some ta, b := some tb }] 1 0)
      (F ∪ {ta} ∪ {tb}) G := by
  refine .data (i := { op := op, a := some ta, b := some tb }) hop ?_ ?_ ?_
  · rintro u (hu | hu)
    · cases hu
      exact .inl (.inr rfl)
    · cases hu
      exact .inr rfl
  · exact fun u hu => (hG.value u hu).imp_left fun h => .inl (.inl h)
  · rintro u ((hu | hu) | hu)
    · exact .inl (hG.frame hu)
    · exact .inr (.inl (by rw [hu]))
    · exact .inr (.inr (by rw [hu]))

section Forms

variable {strict : Prop}

theorem lowerConst_spec (v : Int) : TempSpec strict id (lowerConst v) :=
  tempSpec_data _ rfl rfl rfl

theorem TempSpec.after {α : Type} {f : α → Nat} {x : Lowering → LowerM α}
    {change : Lowering → Lowering} (hfn : ∀ s, (change s).fn = s.fn)
    (hloops : ∀ s, (change s).loops = s.loops) (hx : ∀ s, TempSpec strict f (x s)) :
    TempSpec strict f (do let s ← get; set (change s); x s) := by
  intro s v s' h
  rw [get_bind, set_bind] at h
  obtain ⟨hlt, hpiece⟩ := hx s _ v s' h
  refine ⟨hlt, fun F G hF hG E => Piece.trans ?_ (hpiece F G (by rwa [hfn]) hG E)⟩
  exact .same (hfn s) (hloops s)

theorem lowerStr_spec (text : List UInt8) : TempSpec strict Val.temp (lowerStr text) := by
  refine TempSpec.after (fun _ => rfl) (fun _ => rfl) fun s => ?_
  exact (tempSpec_data _ rfl rfl rfl).map (by intro; rfl)

theorem isData_loadOp (bt : Ty) : isData (loadOp bt) = true := by
  unfold loadOp
  split_ifs <;> rfl

theorem nameExpr_spec (line : Nat) (x : String) : TempSpec strict Val.temp (nameExpr line x) := by
  intro s v s' h
  simp only [nameExpr, get_bind] at h
  cases hls : findLsym s x with
  | some ls =>
    simp only [hls] at h
    split_ifs at h
    · exact (tempSpec_data _ rfl rfl rfl).map (g := Val.temp) (by intro; rfl) s v s' h
    · exact (tempSpec_data _ rfl rfl rfl).map (g := Val.temp) (by intro; rfl) s v s' h
  | none =>
    cases hgs : findGsym s x with
    | none =>
      simp only [hls, hgs] at h
      cases h
    | some gs =>
      simp only [hls, hgs] at h
      have hlea : TempSpec strict id (emitDst { op := .lea, sym := x }) :=
        tempSpec_data _ rfl rfl rfl
      split_ifs at h
      · exact hlea.map (g := Val.temp) (by intro; rfl) s v s' h
      · exact hlea.map (g := Val.temp) (by intro; rfl) s v s' h
      · exact hlea.unary (g := Val.temp) (fun _ => isData_loadOp gs.baseType) (by intros; rfl) 0
          s v s' h

theorem nameAddr_spec (line : Nat) (x : String) : TempSpec strict Addr.temp (nameAddr line x) := by
  intro s v s' h
  simp only [nameAddr, get_bind] at h
  cases hls : findLsym s x with
  | some ls =>
    simp only [hls] at h
    exact (tempSpec_data _ rfl rfl rfl).map (g := Addr.temp) (by intro; rfl) s v s' h
  | none =>
    cases hgs : findGsym s x with
    | none =>
      simp only [hls, hgs] at h
      cases h
    | some gs =>
      simp only [hls, hgs] at h
      exact (tempSpec_data _ rfl rfl rfl).map (g := Addr.temp) (by intro; rfl) s v s' h

theorem scale_spec (w : Int) {t t' : Nat} {s : Lowering} (h : scale w t s = .ok (t', s'))
    (ht : t < s.fn.ntemps) : t' < s'.fn.ntemps ∧ s.fn.ntemps ≤ s'.fn.ntemps ∧
      ∀ (F : Set Nat) E, Piece strict E s s' (F ∪ {t}) (F ∪ {t'}) := by
  unfold scale at h
  split_ifs at h
  · obtain ⟨rfl, rfl⟩ := pure_eq_ok.1 h
    exact ⟨ht, Nat.le_refl _, fun F E => .same rfl rfl⟩
  · simp only [bind_eq_ok, lowerConst, emitDst_eq_ok] at h
    obtain ⟨_, _, ⟨rfl, rfl⟩, rfl, rfl⟩ := h
    refine ⟨Nat.lt_succ_self _, Nat.le_succ_of_le (Nat.le_succ _), fun F E => ?_⟩
    have hconst : Piece strict E s
        (s.push [{ op := .lic, dst := some s.fn.ntemps, imm := w }] 1 0) (F ∪ {t})
        (F ∪ {t} ∪ {s.fn.ntemps}) := by
      refine .data (i := { op := .lic, imm := w }) rfl (by simp [Insn.Uses]) ?_
        fun u hu => .inl (.inl hu)
      rintro u (hu | hu)
      · exact .inl hu
      · exact .inr hu
    exact hconst.trans (.binary rfl t s.fn.ntemps (beside_union _ _))

theorem indexAddr_spec (ha : TempSpec strict Val.temp a) (hb : TempSpec strict Val.temp b) :
    TempSpec strict Addr.temp (indexAddr a b) := by
  intro s ad s' h
  simp only [indexAddr, bind_eq_ok, emitDst_eq_ok, pure_eq_ok] at h
  obtain ⟨av, s1, hav, iv, s2, hiv, ti, s3, hti, _, _, ⟨rfl, rfl⟩, rfl, rfl⟩ := h
  obtain ⟨hiv', -⟩ := hb s1 iv s2 hiv
  refine ⟨Nat.lt_succ_self _, fun F G hF hG E => ?_⟩
  have hscale : Piece strict E s2 s3 (F ∪ {av.temp} ∪ {iv.temp}) (F ∪ {av.temp} ∪ {ti}) :=
    (scale_spec _ hti hiv').2.2 _ E
  exact ((tempSpec_pair ha (fun _ => hb) hav hiv hF E).trans hscale).trans (.binary rfl _ _ hG)

theorem load_spec {α : Type} {f : α → Nat} {x : LowerM α} (hx : TempSpec strict f x)
    (bt : α → Ty) : TempSpec strict Val.temp (do let v ← x; load (bt v) (f v)) :=
  hx.unary (fun v => isData_loadOp (bt v)) (by intros; rfl) 0

theorem Piece.bang (hstrict : ¬ strict) {E : (Nat → Set Nat) → Prop} (s : Lowering) {F : Set Nat}
    (l : Nat) (hG : Beside F s.fn.ntemps G) :
    Piece strict E s
      (s.push [{ op := .cmpeq, dst := some s.fn.ntemps, a := some l, b := some (s.fn.ntemps + 1) },
        { op := .lic, dst := some (s.fn.ntemps + 1), imm := 0 }] 2 0)
      (F ∪ {l}) G := by
  refine ⟨_, ⟨rfl, by simp, Nat.le_refl _, rfl, ?_, by simp, ?_⟩, fun _ => ∅, fun Λ B _ _ _ => ?_⟩
  · intro t ht ht'
    simp only [push_ntemps] at ht'
    obtain rfl | rfl : t = s.fn.ntemps ∨ t = s.fn.ntemps + 1 := by omega
    · exact ⟨_, .head _, rfl⟩
    · exact ⟨_, .tail _ (.head _), rfl⟩
  · refine (once_single _).append (once_single _) ?_
    simp [dsts]
  · have hlic : Flow strict Λ (B ∪ {t | some s.fn.ntemps = some t}) G
        [{ op := .lic, dst := some (s.fn.ntemps + 1), imm := 0 }] G :=
      .single (by simp [Insn.Uses]) (stepOk_data rfl fun t ht => .inl ht) fun t ht => .inl ht
    refine .cons ?_ (stepOk_data rfl ?_) hlic ?_
    · rintro t (ht | ht)
      · cases ht
        exact .inl (.inr rfl)
      · cases ht
        exact .inr ⟨hstrict, rfl, rfl, rfl, rfl⟩
    · intro t ht
      obtain ht | ht := hG.value t ht
      · exact .inl (.inl ht)
      · exact .inr (by rw [ht])
    · rintro t (ht | ht)
      · exact .inl (hG.frame ht)
      · exact .inr ⟨_, .head _, .inr (.inl (by rw [ht]))⟩

theorem lowerBang_spec (hstrict : ¬ strict) (ha : TempSpec strict Val.temp a) :
    TempSpec strict Val.temp (lowerBang a) := by
  intro s v s' h
  simp only [lowerBang, bind_eq_ok, newTemp_eq_ok, emit_eq_ok, pure_eq_ok] at h
  obtain ⟨l, s1, hl, _, _, ⟨rfl, rfl⟩, _, _, ⟨rfl, rfl⟩, _, _, rfl, _, _, rfl, rfl, rfl⟩ := h
  refine ⟨Nat.lt_succ_of_lt (Nat.lt_succ_self _), fun F G hF hG E => (ha.kept hl hF E).trans ?_⟩
  simp only [push_push, push_ntemps]
  exact .bang hstrict s1 l.temp hG

theorem lowerUnop_spec {op : UnOp} (hop : strict → op ≠ .bang) {a : Lowered}
    (hexpr : TempSpec strict Val.temp a.expr) (haddr : TempSpec strict Addr.temp a.addr) :
    TempSpec strict Val.temp (lowerUnop op a) := by
  cases op with
  | star => exact load_spec hexpr _
  | amp => exact haddr.map (by intro; rfl)
  | minus => exact hexpr.unary (fun _ => rfl) (by intros; rfl) 0
  | tilde => exact hexpr.unary (fun _ => rfl) (by intros; rfl) 0
  | bang => exact lowerBang_spec (fun h => hop h rfl) hexpr

theorem lowerBinop_spec (line : Nat) (op : BinOp) (ha : TempSpec strict Val.temp a)
    (hb : TempSpec strict Val.temp b) :
    TempSpec strict Val.temp (lowerBinop line op a b) := by
  intro s v s' h
  simp only [lowerBinop, bind_eq_ok] at h
  obtain ⟨l, s1, hl, r, s2, hr, tr, s3, htr, h⟩ := h
  obtain ⟨hrt, -⟩ := hb s1 r s2 hr
  have hscale : ∀ (F : Set Nat) E, Piece strict E s2 s3 (F ∪ {r.temp}) (F ∪ {tr}) := by
    unfold scaleSum at htr
    split_ifs at htr
    · exact (scale_spec _ htr hrt).2.2
    · obtain ⟨rfl, rfl⟩ := pure_eq_ok.1 htr
      exact fun F E => .same rfl rfl
  cases hop : binOpForTok op with
  | none =>
    simp only [hop] at h
    cases h
  | some irOp =>
    have hdata : isData irOp = true := by
      cases op <;> cases hop <;> rfl
    simp only [hop, bind_eq_ok, emitDst_eq_ok, pure_eq_ok] at h
    obtain ⟨_, _, ⟨rfl, rfl⟩, rfl, rfl⟩ := h
    have hvt : ∀ c : Bool, (if c then mkval s3.fn.ntemps l.baseType true
        else mkval s3.fn.ntemps .int false).temp = s3.fn.ntemps := by
      intro c
      cases c <;> rfl
    rw [hvt]
    refine ⟨Nat.lt_succ_self _, fun F G hF hG E => ?_⟩
    exact ((tempSpec_pair ha (fun _ => hb) hl hr hF E).trans (hscale _ E)).trans
      (.binary hdata _ _ hG)

/-! ## Conditions -/

theorem lowerTest_spec (ha : TempSpec strict Val.temp a) :
    CondSpec strict (lowerTest a) := by
  intro s ltrue lfalse s' h F hF
  simp only [lowerTest, emitBnz, emitJmp, bind_eq_ok, emit_eq_ok] at h
  obtain ⟨v, s1, hv, _, _, rfl, rfl⟩ := h
  have hle := ha.temps_le hv
  refine ((ha.kept hv hF _).trans (.bnz (fun Λ hΛ => ?_) (.inr rfl) (fun u hu => .inl hu) ?_)).trans
    (.jmp (fun Λ hΛ => ?_) (fun u hu => hu) fun u hu => Nat.lt_of_lt_of_le (hF u hu) hle)
  · rw [hΛ.1]
    exact Set.subset_union_left
  · exact fun u hu => hu
  · rw [hΛ.2]

theorem condMid_spec {a b : Nat → Nat → LowerM Unit} (ha : CondSpec strict a)
    (hb : CondSpec strict b) {s s1 s2 : Lowering} {l1 l2 : Nat} {F : Set Nat}
    (hF : ∀ u ∈ F, u < s.fn.ntemps) (hs1 : a l1 l2 (s.push [] 0 1) = .ok ((), s1))
    (hs2 : b ltrue lfalse (s1.push [{ op := .label, label := some s.fn.nlabels }] 0 0) =
      .ok ((), s2)) (hl1 : l1 = s.fn.nlabels ∨ l1 = ltrue ∨ l1 = lfalse)
    (hl2 : l2 = s.fn.nlabels ∨ l2 = ltrue ∨ l2 = lfalse) :
    Piece strict (fun Λ => Λ ltrue = F ∧ Λ lfalse = F) s s2 F F := by
  refine .newLabel F ?_
  have hpa : Piece strict (fun Λ => (Λ ltrue = F ∧ Λ lfalse = F) ∧ Λ s.fn.nlabels = F)
      (s.push [] 0 1) s1 F F := by
    refine (ha _ _ _ _ hs1 F hF).mono ?_
    rintro Λ ⟨⟨ht, hf⟩, hm⟩
    constructor
    · rcases hl1 with rfl | rfl | rfl <;> assumption
    · rcases hl2 with rfl | rfl | rfl <;> assumption
  have hle := hpa.temps_le
  refine (hpa.trans (.label fun Λ hΛ => hΛ.2)).trans ((hb _ _ _ _ hs2 F ?_).mono fun Λ hΛ => hΛ.1)
  exact fun u hu => Nat.lt_of_lt_of_le (hF u hu) hle

theorem condAnd_spec {a b : Nat → Nat → LowerM Unit} (ha : CondSpec strict a)
    (hb : CondSpec strict b) : CondSpec strict (condAnd a b) := by
  intro s ltrue lfalse s' h F hF
  simp only [condAnd, emitLabel, bind_eq_ok, newLabel_eq_ok, emit_eq_ok] at h
  obtain ⟨_, _, ⟨rfl, rfl⟩, _, s1, hs1, _, _, rfl, hs2⟩ := h
  exact condMid_spec ha hb hF hs1 hs2 (.inl rfl) (.inr (.inr rfl))

theorem condOr_spec {a b : Nat → Nat → LowerM Unit} (ha : CondSpec strict a)
    (hb : CondSpec strict b) : CondSpec strict (condOr a b) := by
  intro s ltrue lfalse s' h F hF
  simp only [condOr, emitLabel, bind_eq_ok, newLabel_eq_ok, emit_eq_ok] at h
  obtain ⟨_, _, ⟨rfl, rfl⟩, _, s1, hs1, _, _, rfl, hs2⟩ := h
  exact condMid_spec ha hb hF hs1 hs2 (.inr (.inl rfl)) (.inl rfl)

theorem once_shortTail (t ltrue lfalse lend : Nat) : Once (shortTail ltrue lfalse lend t) := by
  have hdef : ∀ (q : Nat) i u, (shortTail ltrue lfalse lend t)[q]? = some i → i.dst = some u →
      AfterLabel (shortTail ltrue lfalse lend t) q := by
    intro q i u hq hu
    match q, hq with
    | 0, hq => cases hq; cases hu
    | 1, hq => exact ⟨0, _, rfl, rfl, rfl⟩
    | 2, hq => cases hq; cases hu
    | 3, hq => cases hq; cases hu
    | 4, hq => exact ⟨3, _, rfl, rfl, rfl⟩
    | 5, hq => cases hq; cases hu
    | q + 6, hq => cases hq
  exact fun q q' i i' u _ hq hq' hi hi' => ⟨hdef q i u hq hi, hdef q' i' u hq' hi'⟩

theorem Piece.join {E : (Nat → Set Nat) → Prop} {s : Lowering} {F : Set Nat} {lend : Nat}
    (hF : ∀ u ∈ F, u < s.fn.ntemps) (hG : Beside F s.fn.ntemps G)
    (hE : ∀ Λ, E Λ → (Λ ltrue = F ∧ Λ lfalse = F) ∧ Λ lend = G) :
    Piece strict E s (s.push (shortTail ltrue lfalse lend s.fn.ntemps) 1 0) F G := by
  refine ⟨_, ⟨rfl, Nat.le_succ _, Nat.le_refl _, rfl, ?_, ?_, once_shortTail _ _ _ _⟩, fun _ => ∅,
    fun Λ B h _ hB => ?_⟩
  · intro t ht ht'
    simp only [push_ntemps] at ht'
    obtain rfl : t = s.fn.ntemps := by omega
    exact ⟨_, .tail _ (.head _), rfl⟩
  · simp [shortTail]
  · obtain ⟨⟨htrue, hfalse⟩, hend⟩ := hE Λ h
    have hnoUse : ∀ (l : Nat) t, ¬ ({ op := .label, label := some l } : Insn).Uses t := by
      simp [Insn.Uses]
    have hlabel : ∀ (B D : Set Nat) l, Λ l = D →
        StepOk Λ B D { op := .label, label := some l } D := by
      intro B D l hl
      refine ⟨fun t ht => .inl ht, ?_, fun l' hl' => by cases hl'⟩
      rintro l' ⟨-, hl'⟩
      cases hl'
      rw [hl]
    have hlic : ∀ (B : Set Nat) v,
        StepOk Λ B F { op := .lic, dst := some s.fn.ntemps, imm := v } G := by
      refine fun B v => stepOk_data rfl fun t ht => ?_
      exact (hG.value t ht).imp_right fun ht => by rw [ht]
    -- `t` is live at the jump and not behind it, where the second constant is still to come
    have hjmp : ∀ B : Set Nat, (∀ u < s.fn.ntemps, u ∈ B) →
        StepOk Λ B G { op := .jmp, label := some lend } F := by
      refine fun B hB => ⟨fun t ht => .inl (hB t (hF t ht)), ?_, ?_⟩
      · rintro l' ⟨hl', -⟩
        cases hl'
      · intro l' hl'
        cases hl'
        rw [hend]
    have hframe : ∀ t ∈ F, t ∈ G ∨ ∃ j ∈ shortTail ltrue lfalse lend s.fn.ntemps, j.Names t :=
      fun t ht => .inl (hG.frame ht)
    refine .cons (fun t ht => absurd ht (hnoUse _ t)) (hlabel _ _ _ htrue) ?_ hframe
    refine .cons (by simp [Insn.Uses]) (hlic _ 1) ?_ fun t ht => .inl (hG.frame ht)
    refine .cons (by simp [Insn.Uses]) (hjmp _ fun u hu => .inl (.inl (hB u hu))) ?_ fun t ht =>
      .inl ht
    refine .cons (fun t ht => absurd ht (hnoUse _ t)) (hlabel _ _ _ hfalse) ?_ fun t ht =>
      .inl (hG.frame ht)
    refine .cons (by simp [Insn.Uses]) (hlic _ 0) ?_ fun t ht => .inl (hG.frame ht)
    exact .single (fun t ht => absurd ht (hnoUse _ t)) (hlabel _ _ _ hend) fun t ht => .inl ht

theorem lowerShortcircuit_spec (hc : CondSpec strict c) :
    TempSpec strict Val.temp (lowerShortcircuit c) := by
  intro s v s' h
  obtain ⟨s1, hs1, rfl, rfl⟩ := lowerShortcircuit_eq_ok h
  refine ⟨Nat.lt_succ_self _, fun F G hF hG E => ?_⟩
  have hcond := hc _ _ _ _ hs1 F hF
  have hF' : ∀ u ∈ F, u < s1.fn.ntemps := fun u hu => Nat.lt_of_lt_of_le (hF u hu) hcond.temps_le
  refine .newLabel F (.newLabel F (.newLabel G ?_))
  simp only [push_push, List.nil_append, Nat.reduceAdd, Nat.add_zero]
  refine (hcond.mono fun Λ hΛ => ⟨hΛ.1.1.2, hΛ.1.2⟩).trans (.join hF' hG ?_)
  exact fun Λ hΛ => ⟨⟨hΛ.1.1.2, hΛ.1.2⟩, hΛ.2⟩

/-! ## Assignments and calls -/

theorem lowerAssign_spec (x : Option String) {a : LowerM Addr} (ha : TempSpec strict Addr.temp a)
    (hb : TempSpec strict Val.temp b) :
    TempSpec strict Val.temp (lowerAssign x a b) := by
  intro s v s' h
  simp only [lowerAssign, bind_eq_ok, get_bind] at h
  obtain ⟨r, s1, hr, h⟩ := h
  obtain ⟨hrt, -⟩ := hb s r s1 hr
  cases hls : (x.bind (findLsym s1)).filter fun ls => !ls.isArray with
  | some ls =>
    simp only [hls, bind_eq_ok, emit_eq_ok, pure_eq_ok] at h
    obtain ⟨_, _, rfl, rfl, rfl⟩ := h
    refine ⟨hrt, fun F G hF hG E => (hb.kept hr hF E).trans (.plainInsn rfl rfl ?_ hG.value ?_)⟩
    · rintro u (hu | hu)
      · cases hu
        exact .inr rfl
      · cases hu
    · rintro u (hu | hu)
      · exact .inl (hG.frame hu)
      · exact .inr (.inl (by rw [hu]))
  | none =>
    simp only [hls, bind_eq_ok, get_bind, emit_eq_ok, pure_eq_ok] at h
    obtain ⟨ad, s2, had, _, _, rfl, rfl, rfl⟩ := h
    have hle := ha.temps_le had
    refine ⟨Nat.lt_of_lt_of_le hrt hle, fun F G hF hG E => ?_⟩
    refine (tempSpec_pair hb (fun _ => ha) hr had hF E).trans (.plainInsn ?_ rfl ?_ ?_ ?_)
    · cases isByte s2 x ad.baseType <;> rfl
    · rintro u (hu | hu)
      · cases hu
        exact .inr rfl
      · cases hu
        exact .inl (.inr rfl)
    · exact fun u hu => .inl (hG.value u hu)
    · rintro u ((hu | hu) | hu)
      · exact .inl (hG.frame hu)
      · exact .inr (.inr (by rw [hu]))
      · exact .inr (.inl (by rw [hu]))

theorem lowerMark_spec : TempSpec strict Val.temp lowerMark := by
  intro s v s' h
  simp only [lowerMark, allocSlot, bind_assoc, pure_bind, get_bind, set_bind] at h
  simp only [bind_eq_ok, newLabel_eq_ok, emitDst_eq_ok, pure_eq_ok] at h
  obtain ⟨_, _, ⟨rfl, rfl⟩, _, _, ⟨rfl, rfl⟩, rfl, rfl⟩ := h
  refine ⟨Nat.lt_succ_self _, fun F G hF hG E => ?_⟩
  refine Piece.trans ?_ (.newLabel ∅ (.data (i := { op := .mark, slot := _, label := _ }) rfl
    (by simp [Insn.Uses]) hG.value fun u hu => .inl (hG.frame hu)))
  exact .same rfl rfl

theorem lowerCapture_spec : TempSpec strict Val.temp lowerCapture :=
  (tempSpec_data _ rfl rfl rfl).map (by intro; rfl)

theorem emitArgs_spec (ts : List Nat) {s : Lowering} {k : Nat} (h : emitArgs k ts s = .ok (r, s'))
    (F : Set Nat) (E : (Nat → Set Nat) → Prop) :
    Piece strict E s s' (F ∪ {t | t ∈ ts}) F := by
  induction ts generalizing s k with
  | nil =>
    obtain ⟨-, rfl⟩ := pure_eq_ok.1 h
    have hF : F ∪ {t | t ∈ ([] : List Nat)} = F := by simp
    rw [hF]
    exact .same rfl rfl
  | cons t ts ih =>
    simp only [emitArgs, bind_eq_ok, emit_eq_ok] at h
    obtain ⟨_, _, rfl, h⟩ := h
    refine Piece.trans (.plainInsn rfl rfl ?_ ?_ ?_) (ih h)
    · rintro u (hu | hu)
      · cases hu
        exact .inr (.head _)
      · cases hu
    · rintro u (hu | hu)
      · exact .inl hu
      · exact .inr (.tail _ hu)
    · rintro u (hu | hu)
      · exact .inl (.inl hu)
      · obtain rfl | hu := List.mem_cons.1 hu
        · exact .inr (.inl rfl)
        · exact .inl (.inr hu)

theorem lowerCall_spec (x : Option String) {f : LowerM Val} {args : LowerM (List Nat)}
    (hf : TempSpec strict Val.temp f) (hargs : ArgsSpec strict args) :
    TempSpec strict Val.temp (lowerCall x f args) := by
  intro s v s' h
  simp only [lowerCall, bind_eq_ok] at h
  obtain ⟨ts, s1, hts, _, s2, hemit, h⟩ := h
  obtain ⟨-, hpargs⟩ := hargs s ts s1 hts
  have hpass : ∀ F : Set Nat, (∀ u ∈ F, u < s.fn.ntemps) → ∀ E, Piece strict E s s2 F F :=
    fun F hF E => (hpargs F hF E).trans (emitArgs_spec ts hemit F E)
  -- beside the arguments that were passed nothing more is live at the call
  have hcall : ∀ y, TempSpec strict Val.temp y → y s2 = .ok (v, s') →
      v.temp < s'.fn.ntemps ∧ ∀ F G : Set Nat, (∀ u ∈ F, u < s.fn.ntemps) →
        Beside F v.temp G → ∀ E, Piece strict E s s' F G := by
    intro y hy hyv
    obtain ⟨hlt, hpiece⟩ := hy s2 v s' hyv
    refine ⟨hlt, fun F G hF hG E => (hpass F hF E).trans (hpiece F G (fun u hu => ?_) hG E)⟩
    exact Nat.lt_of_lt_of_le (hF u hu) (hpass F hF E).temps_le
  cases x with
  | some name => exact hcall _ ((tempSpec_data _ rfl rfl rfl).map (by intro; rfl)) h
  | none => exact hcall _ (hf.unary (fun _ => rfl) (by intros; rfl) ts.length) h

/-! ## Expressions -/

mutual

/-- No `!` is used as a value.  In a condition (`cond`) a `!` only exchanges the labels. -/
def Expr.bangFree (cond : Bool) : Expr → Bool
  | .num _ _ | .charlit _ _ | .str _ _ | .name _ _ => true
  | .index _ a b => a.bangFree false && b.bangFree false
  | .unop _ .bang a => cond && a.bangFree true
  | .unop _ _ a => a.bangFree false
  | .binop _ .andand a b => a.bangFree true && b.bangFree true
  | .binop _ .oror a b => a.bangFree true && b.bangFree true
  | .binop _ _ a b => a.bangFree false && b.bangFree false
  | .assign _ a b => a.bangFree false && b.bangFree false
  | .call _ f args => f.bangFree false && args.bangFree

def Args.bangFree : Args → Bool
  | .nil => true
  | .cons a next => a.bangFree false && next.bangFree

end

/-- What the three functions emit for a node. -/
structure NodeSpec (strict : Prop) (e : Expr) : Prop where
  expr : (strict → e.bangFree false = true) → TempSpec strict Val.temp e.lower.expr
  addr : (strict → e.bangFree false = true) → TempSpec strict Addr.temp e.lower.addr
  cond : (strict → e.bangFree true = true) → CondSpec strict e.lower.cond

theorem notLvalue_spec (line : Nat) : TempSpec strict Addr.temp (notLvalue line) := by
  intro s v s' h
  cases h

theorem NodeSpec.plain {e : Expr} {line : Nat} {x : LowerM Val}
    (he : e.lower = Tinc.plain line x) (hfree : e.bangFree true = e.bangFree false)
    (hx : (strict → e.bangFree false = true) → TempSpec strict Val.temp x) : NodeSpec strict e where
  expr h := by
    rw [he]
    exact hx h
  addr _ := by
    rw [he]
    exact notLvalue_spec line
  cond h := by
    rw [he]
    exact lowerTest_spec (hx (by rwa [← hfree]))

theorem and_free {p q : Bool} (h : strict → (p && q) = true) :
    (strict → p = true) ∧ (strict → q = true) :=
  ⟨fun hs => (Bool.and_eq_true_iff.1 (h hs)).1, fun hs => (Bool.and_eq_true_iff.1 (h hs)).2⟩

theorem binop_nodeSpec (line : Nat) (op : BinOp) {a b : Expr} (ha : NodeSpec strict a)
    (hb : NodeSpec strict b) : NodeSpec strict (.binop line op a b) := by
  cases op with
  | andand =>
    have hcond : (strict → (a.bangFree true && b.bangFree true) = true) →
        CondSpec strict (condAnd a.lower.cond b.lower.cond) := fun h =>
      condAnd_spec (ha.cond (and_free h).1) (hb.cond (and_free h).2)
    exact ⟨fun h => lowerShortcircuit_spec (hcond h), fun _ => notLvalue_spec line, hcond⟩
  | oror =>
    have hcond : (strict → (a.bangFree true && b.bangFree true) = true) →
        CondSpec strict (condOr a.lower.cond b.lower.cond) := fun h =>
      condOr_spec (ha.cond (and_free h).1) (hb.cond (and_free h).2)
    exact ⟨fun h => lowerShortcircuit_spec (hcond h), fun _ => notLvalue_spec line, hcond⟩
  | _ =>
    refine .plain rfl rfl fun h => ?_
    exact lowerBinop_spec line _ (ha.expr (and_free h).1) (hb.expr (and_free h).2)

theorem unop_nodeSpec (line : Nat) (op : UnOp) {a : Expr} (ha : NodeSpec strict a) :
    NodeSpec strict (.unop line op a) := by
  cases op with
  | star =>
    have hexpr : (strict → a.bangFree false = true) →
        TempSpec strict Val.temp (lowerUnop .star a.lower) := fun h =>
      lowerUnop_spec (fun _ => by simp) (ha.expr h) (ha.addr h)
    refine ⟨hexpr, fun h => ?_, fun h => lowerTest_spec (hexpr h)⟩
    exact (ha.expr h).map (by intro; rfl)
  | bang =>
    refine ⟨fun h => ?_, fun _ => notLvalue_spec line, fun h => ?_⟩
    · -- as a value, a `!` is not free of itself
      have hstrict : ¬ strict := fun hs => by cases h hs
      exact lowerBang_spec hstrict (ha.expr fun hs => absurd hs hstrict)
    · intro s ltrue lfalse s' hc F hF
      have hfree : strict → a.bangFree true = true := (and_free h).2
      exact (ha.cond hfree s lfalse ltrue s' hc F hF).mono fun Λ hΛ => ⟨hΛ.2, hΛ.1⟩
  | _ =>
    refine .plain rfl rfl fun h => ?_
    exact lowerUnop_spec (fun _ => by simp) (ha.expr h) (ha.addr h)

theorem argsSpec_cons {args : LowerM (List Nat)} {n : Nat} (ha : TempSpec strict Val.temp a)
    (hargs : ArgsSpec strict args) :
    ArgsSpec strict (do
      let av ← a
      if n ≥ 16 then die "lower: too many args"
      else
        let ts ← args
        return av.temp :: ts) := by
  intro s ts s' h
  simp only [bind_eq_ok] at h
  obtain ⟨av, s1, hav, h⟩ := h
  split_ifs at h
  · cases h
  · simp only [bind_eq_ok, pure_eq_ok] at h
    obtain ⟨ts', s2, hts, rfl, rfl⟩ := h
    obtain ⟨hat, -⟩ := ha s av s1 hav
    obtain ⟨htst, hpts⟩ := hargs s1 ts' s' hts
    have hle := ha.temps_le hav
    have hle' := (hpts ∅ (by simp) fun _ => True).temps_le
    refine ⟨fun t ht => ?_, fun F hF E => ?_⟩
    · obtain rfl | ht := List.mem_cons.1 ht
      · omega
      · exact htst t ht
    · have hset : F ∪ {t | t ∈ av.temp :: ts'} = F ∪ {av.temp} ∪ {t | t ∈ ts'} := by
        ext t
        constructor
        · rintro (ht | ht)
          · exact .inl (.inl ht)
          · obtain rfl | ht := List.mem_cons.1 ht
            · exact .inl (.inr rfl)
            · exact .inr ht
        · rintro ((ht | ht) | ht)
          · exact .inl ht
          · exact .inr (List.mem_cons.2 (.inl ht))
          · exact .inr (List.mem_cons.2 (.inr ht))
      rw [hset]
      refine (ha.kept hav hF E).trans (hpts (F ∪ {av.temp}) ?_ E)
      rintro u (hu | hu)
      · exact Nat.lt_of_lt_of_le (hF u hu) hle
      · rw [hu]
        exact hat

theorem resume_spec (ha : TempSpec strict Val.temp a) (hb : TempSpec strict Val.temp b) :
    TempSpec strict Val.temp (do
      let buf ← a
      let val ← b
      emit { op := .resume, a := some buf.temp, b := some val.temp }
      return mkval 0 .int false) := by
  intro s v s' h
  simp only [bind_eq_ok, emit_eq_ok, pure_eq_ok] at h
  obtain ⟨buf, s1, hbuf, val, s2, hval, _, _, rfl, rfl, rfl⟩ := h
  have hle := ha.temps_le hbuf
  have hle' := hb.temps_le hval
  have hpos : 0 < s2.fn.ntemps := Nat.lt_of_le_of_lt (Nat.zero_le _) (hb s1 val s2 hval).1
  refine ⟨hpos, fun F G hF hG E => (tempSpec_pair ha (fun _ => hb) hbuf hval hF E).trans
    (.stop rfl rfl (by simp) rfl ?_ ?_ ?_)⟩
  · rintro u (hu | hu)
    · cases hu
      exact .inl (.inr rfl)
    · cases hu
      exact .inr rfl
  · rintro u ((hu | hu) | hu)
    · exact .inl (hG.frame hu)
    · exact .inr (.inl (by rw [hu]))
    · exact .inr (.inr (by rw [hu]))
  · intro u hu
    obtain hu | hu := hG.value u hu
    · exact Nat.lt_of_lt_of_le (hF u hu) (hle.trans hle')
    · rw [hu]
      exact hpos

end Forms

mutual

theorem Expr.nodeSpec (strict : Prop) : (e : Expr) → NodeSpec strict e
  | .num _ v => .plain rfl rfl fun _ => (lowerConst_spec v).map (by intro; rfl)
  | .charlit _ v => .plain rfl rfl fun _ => (lowerConst_spec v).map (by intro; rfl)
  | .str _ text => .plain rfl rfl fun _ => lowerStr_spec text
  | .name line x =>
    ⟨fun _ => nameExpr_spec line x, fun _ => nameAddr_spec line x,
      fun _ => lowerTest_spec (nameExpr_spec line x)⟩
  | .index _ a b => by
    have haddr : (strict → (a.bangFree false && b.bangFree false) = true) →
        TempSpec strict Addr.temp (indexAddr a.lower.expr b.lower.expr) := fun h =>
      indexAddr_spec ((a.nodeSpec strict).expr (and_free h).1)
        ((b.nodeSpec strict).expr (and_free h).2)
    exact ⟨fun h => load_spec (haddr h) Addr.baseType, haddr,
      fun h => lowerTest_spec (load_spec (haddr h) Addr.baseType)⟩
  | .unop line op a => unop_nodeSpec line op (a.nodeSpec strict)
  | .binop line op a b => binop_nodeSpec line op (a.nodeSpec strict) (b.nodeSpec strict)
  | .assign _ a b => .plain rfl rfl fun h =>
    lowerAssign_spec a.nameOf ((a.nodeSpec strict).addr (and_free h).1)
      ((b.nodeSpec strict).expr (and_free h).2)
  | .call _ f args => .plain rfl rfl fun h => by
    split_ifs
    · exact lowerMark_spec
    · exact lowerCapture_spec
    · exact lowerResume_spec strict args (and_free h).2
    · exact lowerCall_spec f.nameOf ((f.nodeSpec strict).expr (and_free h).1)
        (lowerArgs_spec strict args 0 (and_free h).2)

theorem lowerArgs_spec (strict : Prop) : (args : Args) → (n : Nat) →
    (strict → args.bangFree = true) → ArgsSpec strict (lowerArgs n args)
  | .nil, _, _ => by
    intro s ts s' h
    obtain ⟨rfl, rfl⟩ := pure_eq_ok.1 h
    refine ⟨by simp, fun F hF E => ?_⟩
    have hset : F ∪ {t | t ∈ ([] : List Nat)} = F := by simp
    rw [hset]
    exact .same rfl rfl
  | .cons a next, n, h =>
    argsSpec_cons ((a.nodeSpec strict).expr (and_free h).1)
      (lowerArgs_spec strict next (n + 1) (and_free h).2)

theorem lowerResume_spec (strict : Prop) : (args : Args) → (strict → args.bangFree = true) →
    TempSpec strict Val.temp (lowerResume args)
  | .nil, _ => fun _ _ _ h => by cases h
  | .cons _ .nil, _ => fun _ _ _ h => by cases h
  | .cons a (.cons b _), h =>
    resume_spec ((a.nodeSpec strict).expr (and_free h).1)
      ((b.nodeSpec strict).expr (and_free (and_free h).2).1)

end

/-! ## Statements -/

/-- Nothing is live where a `break` or a `continue` goes. -/
def LoopsOk (loops : List Loop) (Λ : Nat → Set Nat) : Prop :=
  ∀ l ∈ loops, Λ l.brk = ∅ ∧ Λ l.cont = ∅

/-- Nothing is live between statements. -/
def StmtSpec (strict : Prop) (x : LowerM Unit) : Prop :=
  ∀ s s', x s = .ok ((), s') → Piece strict (LoopsOk s.loops) s s' ∅ ∅

mutual

def Stmt.bangFree : Stmt → Bool
  | .block _ body => body.bangFree
  | .exprStmt a => a.bangFree false
  | .empty => true
  | .ifThen test x => test.bangFree true && x.bangFree
  | .ifElse test x y => test.bangFree true && (x.bangFree && y.bangFree)
  | .loop test body => test.bangFree true && body.bangFree
  | .brk _ | .cont _ | .ret => true
  | .retv a => a.bangFree false

def Stmts.bangFree : Stmts → Bool
  | .nil => true
  | .cons s next => s.bangFree && next.bangFree

end

theorem Piece.loops_eq {strict : Prop} {E : (Nat → Set Nat) → Prop} {s : Lowering} {F F' : Set Nat}
    (h : Piece strict E s s' F F') : s'.loops = s.loops := by
  obtain ⟨_, hext, _⟩ := h
  exact hext.loops

theorem Piece.inLoops {strict : Prop} {E : (Nat → Set Nat) → Prop} {s : Lowering} {F F' : Set Nat}
    (loops : List Loop) (h : Piece strict E { s with loops := loops } s' F F') :
    Piece strict E s { s' with loops := s.loops } F F' := by
  obtain ⟨seg, hext, Λ', hflow⟩ := h
  exact ⟨seg, ⟨hext.code, hext.temps, hext.labels, rfl, hext.defs, hext.fresh, hext.once⟩, Λ',
    hflow⟩

section Statements

variable {strict : Prop}

theorem stmts_spec {x y : LowerM Unit} (hx : StmtSpec strict x) (hy : StmtSpec strict y) :
    StmtSpec strict (do x; y) := by
  intro s s' h
  obtain ⟨_, s1, hs1, h⟩ := bind_eq_ok.1 h
  have hpx := hx s s1 hs1
  have hpy := hy s1 s' h
  rw [hpx.loops_eq] at hpy
  exact hpx.trans hpy

theorem exprStmt_spec (ha : TempSpec strict Val.temp a) :
    StmtSpec strict (do let _ ← a) := by
  intro s s' h
  obtain ⟨v, s1, hv, h⟩ := bind_eq_ok.1 h
  obtain ⟨-, rfl⟩ := pure_eq_ok.1 h
  exact (ha s v s' hv).2 ∅ ∅ (by simp) (beside_self _ _) _

theorem CondSpec.empty (hc : CondSpec strict c) {E : (Nat → Set Nat) → Prop} {s : Lowering}
    (h : c ltrue lfalse s = .ok ((), s')) (hE : ∀ Λ, E Λ → Λ ltrue = ∅ ∧ Λ lfalse = ∅) :
    Piece strict E s s' ∅ ∅ :=
  (hc s ltrue lfalse s' h ∅ (by simp)).mono hE

theorem StmtSpec.inside {x : LowerM Unit} (hx : StmtSpec strict x) {E : (Nat → Set Nat) → Prop}
    {s : Lowering} (h : x s = .ok ((), s')) (hE : ∀ Λ, E Λ → LoopsOk s.loops Λ) :
    Piece strict E s s' ∅ ∅ :=
  (hx s s' h).mono hE

theorem ifThen_spec {x : LowerM Unit} (hc : CondSpec strict c) (hx : StmtSpec strict x) :
    StmtSpec strict (do
      let ltrue ← newLabel
      let lfalse ← newLabel
      let _lend ← newLabel
      c ltrue lfalse
      emitLabel ltrue
      x
      emitLabel lfalse) := by
  intro s s' h
  simp only [emitLabel, bind_eq_ok, newLabel_eq_ok, emit_eq_ok] at h
  obtain ⟨_, _, ⟨rfl, rfl⟩, _, _, ⟨rfl, rfl⟩, _, _, ⟨rfl, rfl⟩, _, s1, hs1, _, _, rfl, _, s2, hs2,
    rfl⟩ := h
  refine .newLabel ∅ (.newLabel ∅ (.newLabel ∅ ?_))
  refine Piece.trans ?_ (.label fun Λ hΛ => hΛ.1.2)
  have hloops : s1.loops = s.loops := (hc.empty hs1 fun Λ hΛ => hΛ).loops_eq
  refine ((hc.empty hs1 fun Λ hΛ => ⟨hΛ.1.1.2, hΛ.1.2⟩).trans (.label fun Λ hΛ => hΛ.1.1.2)).trans
    (hx.inside hs2 fun Λ hΛ => ?_)
  rw [← hloops] at hΛ
  exact hΛ.1.1.1

theorem ifElse_spec {x y : LowerM Unit} (hc : CondSpec strict c) (hx : StmtSpec strict x)
    (hy : StmtSpec strict y) :
    StmtSpec strict (do
      let ltrue ← newLabel
      let lfalse ← newLabel
      let lend ← newLabel
      c ltrue lfalse
      emitLabel ltrue
      x
      emitJmp lend
      emitLabel lfalse
      y
      emitLabel lend) := by
  intro s s' h
  simp only [emitLabel, emitJmp, bind_eq_ok, newLabel_eq_ok, emit_eq_ok] at h
  obtain ⟨_, _, ⟨rfl, rfl⟩, _, _, ⟨rfl, rfl⟩, _, _, ⟨rfl, rfl⟩, _, s1, hs1, _, _, rfl, _, s2, hs2,
    _, _, rfl, _, _, rfl, _, s3, hs3, rfl⟩ := h
  refine .newLabel ∅ (.newLabel ∅ (.newLabel ∅ ?_))
  have hloops : s1.loops = s.loops := (hc.empty hs1 fun Λ hΛ => hΛ).loops_eq
  have hloops' : s2.loops = s.loops := (hx.inside hs2 fun Λ hΛ => hΛ).loops_eq.trans hloops
  refine Piece.trans ?_ (.label fun Λ hΛ => hΛ.2)
  have hthen := ((hc.empty hs1 fun Λ (hΛ : ((LoopsOk s.loops Λ ∧ Λ s.fn.nlabels = ∅) ∧
      Λ (s.fn.nlabels + 1) = ∅) ∧ Λ (s.fn.nlabels + 1 + 1) = ∅) => ⟨hΛ.1.1.2, hΛ.1.2⟩).trans
    (.label fun Λ hΛ => hΛ.1.1.2)).trans
    (hx.inside hs2 fun Λ hΛ => by rw [← hloops] at hΛ; exact hΛ.1.1.1)
  have hjump := (hthen.trans (.jmp (fun Λ hΛ => by rw [hΛ.2]) (fun u hu => hu) (by simp))).trans
    (.label fun Λ hΛ => hΛ.1.2)
  exact hjump.trans (hy.inside hs3 fun Λ hΛ => by rw [← hloops'] at hΛ; exact hΛ.1.1.1)

theorem loopTest_spec {test : Expr} (hc : CondSpec strict test.lower.cond)
    {E : (Nat → Set Nat) → Prop} {s : Lowering} {lbrk : Nat}
    (h : loopTest test lbrk s = .ok ((), s')) (hE : ∀ Λ, E Λ → Λ lbrk = ∅) :
    Piece strict E s s' ∅ ∅ := by
  unfold loopTest at h
  split_ifs at h
  · obtain ⟨-, rfl⟩ := pure_eq_ok.1 h
    exact .same rfl rfl
  · simp only [lowerCond, emitLabel, bind_eq_ok, newLabel_eq_ok, emit_eq_ok] at h
    obtain ⟨_, _, ⟨rfl, rfl⟩, _, s1, hs1, rfl⟩ := h
    refine .newLabel ∅ (Piece.trans ?_ (.label fun Λ hΛ => hΛ.2))
    exact hc.empty hs1 fun Λ hΛ => ⟨hΛ.2, hE Λ hΛ.1⟩

theorem inLoop_spec {x : LowerM Unit} (hx : StmtSpec strict x) {E : (Nat → Set Nat) → Prop}
    {s : Lowering} {l : Loop} (h : inLoop l x s = .ok ((), s'))
    (hE : ∀ Λ, E Λ → LoopsOk (l :: s.loops) Λ) : Piece strict E s s' ∅ ∅ := by
  simp only [inLoop, get_bind] at h
  split_ifs at h
  · cases h
  · rw [set_bind] at h
    obtain ⟨_, s1, hs1, h⟩ := bind_eq_ok.1 h
    have hbody : Piece strict E { s with loops := l :: s.loops } s1 ∅ ∅ := hx.inside hs1 hE
    have hloops : s1.loops = l :: s.loops := hbody.loops_eq
    cases h
    have hout := hbody.inLoops
    have htail : s1.loops.tail = s.loops := by rw [hloops, List.tail_cons]
    rw [← htail] at hout
    exact hout

theorem loop_spec {test : Expr} {x : LowerM Unit} (hc : CondSpec strict test.lower.cond)
    (hx : StmtSpec strict x) :
    StmtSpec strict (do
      let ltop ← newLabel
      let lbrk ← newLabel
      emitLabel ltop
      loopTest test lbrk
      inLoop ⟨lbrk, ltop⟩ x
      emitJmp ltop
      emitLabel lbrk) := by
  intro s s' h
  simp only [emitLabel, emitJmp, bind_eq_ok, newLabel_eq_ok, emit_eq_ok] at h
  obtain ⟨_, _, ⟨rfl, rfl⟩, _, _, ⟨rfl, rfl⟩, _, _, rfl, _, s1, hs1, _, s2, hs2, _, _, rfl,
    rfl⟩ := h
  refine .newLabel ∅ (.newLabel ∅ ?_)
  have hloops : s1.loops = s.loops := (loopTest_spec hc hs1 fun Λ hΛ => hΛ).loops_eq
  refine Piece.trans (Piece.trans (Piece.trans ?_ (inLoop_spec hx hs2 fun Λ hΛ => ?_))
    (.jmp (fun Λ hΛ => by rw [hΛ.1.2]) (fun u hu => hu) (by simp))) (.label fun Λ hΛ => hΛ.2)
  · exact Piece.trans (.label fun Λ hΛ => hΛ.1.2) (loopTest_spec hc hs1 fun Λ hΛ => hΛ.2)
  · rw [hloops]
    intro l hl
    obtain rfl | hl := List.mem_cons.1 hl
    · exact ⟨hΛ.2, hΛ.1.2⟩
    · exact hΛ.1.1 l hl

theorem exit_spec (what : String) {target : Loop → Nat}
    (htarget : ∀ l, target l = l.brk ∨ target l = l.cont) :
    StmtSpec strict (do
      let s ← get
      match s.loops with
      | [] => die what
      | l :: _ => emitJmp (target l)) := by
  intro s s' h
  rw [get_bind] at h
  cases hloops : s.loops with
  | nil =>
    simp only [hloops] at h
    cases h
  | cons l loops =>
    simp only [hloops, emitJmp, emit_eq_ok] at h
    obtain rfl := h
    refine .jmp (fun Λ hΛ => ?_) (fun u hu => hu) (by simp)
    obtain ⟨hbrk, hcont⟩ := hΛ l (.head _)
    obtain ht | ht := htarget l
    · rw [ht, hbrk]
    · rw [ht, hcont]

theorem retv_spec (ha : TempSpec strict Val.temp a) :
    StmtSpec strict (do let v ← a; emit { op := .retv, a := some v.temp }) := by
  intro s s' h
  simp only [bind_eq_ok, emit_eq_ok] at h
  obtain ⟨v, s1, hv, rfl⟩ := h
  refine (ha.kept hv (by simp) _).trans (.stop rfl rfl (by simp) rfl ?_ ?_ (by simp))
  · rintro u (hu | hu)
    · cases hu
      exact .inr rfl
    · cases hu
  · rintro u (hu | hu)
    · exact .inl hu
    · exact .inr (.inl (by rw [hu]))

theorem ret_spec : StmtSpec strict (emit { op := .ret }) := by
  intro s s' h
  obtain rfl := emit_eq_ok.1 h
  exact .stop rfl rfl (by simp) rfl (by simp [Insn.Uses]) (by simp) (by simp)

theorem empty_spec : StmtSpec strict (pure ()) := by
  intro s s' h
  obtain ⟨-, rfl⟩ := pure_eq_ok.1 h
  exact .same rfl rfl

end Statements

mutual

theorem lowerStmt_spec (strict : Prop) : (n : Stmt) → (strict → n.bangFree = true) →
    StmtSpec strict (lowerStmt n)
  | .block _ body, h => lowerStmts_spec strict body h
  | .exprStmt a, h => exprStmt_spec ((a.nodeSpec strict).expr h)
  | .empty, _ => empty_spec
  | .ifThen test x, h => ifThen_spec ((test.nodeSpec strict).cond (and_free h).1)
      (lowerStmt_spec strict x (and_free h).2)
  | .ifElse test x y, h => ifElse_spec ((test.nodeSpec strict).cond (and_free h).1)
      (lowerStmt_spec strict x (and_free (and_free h).2).1)
      (lowerStmt_spec strict y (and_free (and_free h).2).2)
  | .loop test x, h => loop_spec ((test.nodeSpec strict).cond (and_free h).1)
      (lowerStmt_spec strict x (and_free h).2)
  | .brk _, _ => exit_spec _ fun _ => .inl rfl
  | .cont _, _ => exit_spec _ fun _ => .inr rfl
  | .ret, _ => ret_spec
  | .retv a, h => retv_spec ((a.nodeSpec strict).expr h)

theorem lowerStmts_spec (strict : Prop) : (n : Stmts) → (strict → n.bangFree = true) →
    StmtSpec strict (lowerStmts n)
  | .nil, _ => empty_spec
  | .cons s next, h => stmts_spec (lowerStmt_spec strict s (and_free h).1)
      (lowerStmts_spec strict next (and_free h).2)

end

/-! ## Functions -/

theorem addParams_fn {params : List Param} {s : Lowering} (h : addParams params s = .ok (r, s')) :
    s'.fn = s.fn ∧ s'.loops = s.loops := by
  induction params generalizing s with
  | nil =>
    obtain ⟨-, rfl⟩ := pure_eq_ok.1 h
    exact ⟨rfl, rfl⟩
  | cons p params ih =>
    obtain ⟨slot, s1, hslot, h⟩ := bind_eq_ok.1 h
    obtain ⟨_, s2, hsym, h⟩ := bind_eq_ok.1 h
    cases hslot
    cases hsym
    obtain ⟨hfn, hloops⟩ := ih h
    exact ⟨hfn, hloops⟩

theorem collectLocalDecls_fn {decls : List Decl} {s : Lowering}
    (h : collectLocalDecls decls s = .ok (r, s')) : s'.fn = s.fn ∧ s'.loops = s.loops := by
  induction decls generalizing s with
  | nil =>
    obtain ⟨-, rfl⟩ := pure_eq_ok.1 h
    exact ⟨rfl, rfl⟩
  | cons d decls ih =>
    obtain ⟨slot, s1, hslot, h⟩ := bind_eq_ok.1 h
    obtain ⟨_, s2, hsym, h⟩ := bind_eq_ok.1 h
    cases hslot
    cases hsym
    obtain ⟨hfn, hloops⟩ := ih h
    exact ⟨hfn, hloops⟩

theorem finish_spec {strict : Prop} : StmtSpec strict finish := by
  intro s s' h
  simp only [finish, get_bind] at h
  split_ifs at h
  · obtain ⟨-, rfl⟩ := pure_eq_ok.1 h
    exact .same rfl rfl
  · obtain ⟨z, s1, hz, h⟩ := bind_eq_ok.1 h
    refine retv_spec ((lowerConst_spec 0).map (k := fun z => mkval z .int false) (fun _ => rfl))
      s s' ?_
    exact bind_eq_ok.2 ⟨mkval z .int false, s1, bind_eq_ok.2 ⟨z, s1, hz, rfl⟩, h⟩

theorem loopsOk_nil {loops : List Loop} (h : loops = []) (Λ : Nat → Set Nat) :
    LoopsOk loops Λ := by
  rw [h]
  exact fun l hl => absurd hl List.not_mem_nil

theorem lowerFunction_eq_ok {f : FuncDecl} {s : Lowering} {fn : Func}
    (h : lowerFunction f s = .ok (fn, s')) :
    ∃ s1 s2 s3 : Lowering, s1.fn = { irNewFunc f.name with nparams := f.params.length } ∧
      s1.loops = [] ∧
      lowerStmts f.body (s1.push [{ op := .func, sym := f.name, nargs := f.params.length }] 0 0) =
        .ok ((), s2) ∧
      finish s2 = .ok ((), s3) ∧ fn.code = s3.fn.code ++ [{ op := .endf }] ∧
      fn.ntemps = s3.fn.ntemps := by
  obtain ⟨_, s1, hs1, h⟩ := bind_eq_ok.1 h
  cases hs1
  obtain ⟨_, s2, hparams, h⟩ := bind_eq_ok.1 h
  obtain ⟨_, s3, hs3, h⟩ := bind_eq_ok.1 h
  cases hs3
  obtain ⟨_, s4, hdecls, h⟩ := bind_eq_ok.1 h
  obtain ⟨_, s5, hfunc, h⟩ := bind_eq_ok.1 h
  obtain ⟨_, s6, hbody, h⟩ := bind_eq_ok.1 h
  obtain ⟨_, s7, hfinish, h⟩ := bind_eq_ok.1 h
  obtain ⟨_, s8, hend, h⟩ := bind_eq_ok.1 h
  rw [get_bind] at h
  obtain ⟨rfl, -⟩ := pure_eq_ok.1 h
  obtain rfl := emit_eq_ok.1 hfunc
  obtain rfl := emit_eq_ok.1 hend
  obtain ⟨hfn2, hloops2⟩ := addParams_fn hparams
  obtain ⟨hfn4, hloops4⟩ := collectLocalDecls_fn hdecls
  refine ⟨s4, s6, s7, ?_, hloops4.trans hloops2, hbody, hfinish, rfl, rfl⟩
  rw [hfn4]
  exact congrArg (fun fn : Func => { fn with nparams := f.params.length }) hfn2

theorem lowerFunction_piece {strict : Prop} {f : FuncDecl} {s : Lowering} {fn : Func}
    (h : lowerFunction f s = .ok (fn, s')) (hfree : strict → f.body.bangFree = true) :
    ∃ s0 s1 : Lowering, s0.fn.code = [] ∧ s0.fn.ntemps = 0 ∧ s0.fn.nlabels = 0 ∧
      Piece strict (fun _ => True) s0 s1 ∅ ∅ ∧ fn.code = s1.fn.code ∧
      fn.ntemps = s1.fn.ntemps := by
  obtain ⟨s4, s6, s7, hfn, hloops, hbody, hfinish, hcode, hntemps⟩ := lowerFunction_eq_ok h
  refine ⟨s4, s7.push [{ op := .endf }] 0 0, by rw [hfn]; rfl, by rw [hfn]; rfl, by rw [hfn]; rfl,
    ?_, hcode, hntemps⟩
  have hbegin : Piece strict (fun _ => True) s4
      (s4.push [{ op := .func, sym := f.name, nargs := f.params.length }] 0 0) ∅ ∅ :=
    .plainInsn rfl rfl (by simp [Insn.Uses]) subset_rfl (by simp)
  have hmid := (lowerStmts_spec strict f.body hfree).inside (E := fun _ => True) hbody
    fun Λ _ => loopsOk_nil hloops Λ
  have hlast : Piece strict (fun _ => True) s6 s7 ∅ ∅ :=
    finish_spec.inside hfinish fun Λ _ => loopsOk_nil (hmid.loops_eq.trans hloops) Λ
  exact ((hbegin.trans hmid).trans hlast).trans
    (.stop rfl rfl (by simp) rfl (by simp [Insn.Uses]) (by simp) (by simp))

theorem lowerFunction_flow (strict : Prop) {f : FuncDecl} {s s' : Lowering} {fn : Func}
    (h : lowerFunction f s = .ok (fn, s')) (hfree : strict → f.body.bangFree = true) :
    (∃ Λ, Flow strict Λ ∅ ∅ fn.code ∅) ∧ Once fn.code ∧
      ∀ i ∈ fn.code, ∀ t, i.dst = some t → t < fn.ntemps := by
  obtain ⟨s0, s1, hcode, htemps, hlabels, ⟨seg, hext, Λ, hflow⟩, hfn, hn⟩ :=
    lowerFunction_piece h hfree
  have hseg : fn.code = seg := by rw [hfn, hext.code, hcode, List.nil_append]
  rw [hseg, hn]
  refine ⟨⟨Λ, hflow Λ ∅ trivial (fun _ _ _ => rfl) fun u hu => ?_⟩, hext.once, fun i hi t ht => ?_⟩
  · rw [htemps] at hu
    exact absurd hu (Nat.not_lt_zero u)
  · exact (hext.fresh i hi t ht).2

/-- Along every path each temp is written before it is read and stays in its range when no `!` is
used as a value and no value is kept where the runtime enters the function again; along a path
that is entered again only at such places, exactly when it meets no such `!`. -/
theorem lowerFunction_definedBeforeUse {f : FuncDecl} {s s' : Lowering} {fn : Func}
    (h : lowerFunction f s = .ok (fn, s')) {path : List Nat} (hpath : Execution fn.code path) :
    (f.body.bangFree = true → Unspanned fn.code → DefinedBeforeUse fn path) ∧
      ((∀ k p q, path[k]? = some p → path[k + 1]? = some q →
          Edge fn.code p q ∨ ¬ Spanned fn.code q) →
        (DefinedBeforeUse fn path ↔ ∀ p ∈ path, ¬ BangAt fn.code p)) := by
  refine ⟨fun hfree hspan => ?_, fun hspan => ⟨fun hdef p hp hbang => ?_, fun hno => ?_⟩⟩
  · obtain ⟨⟨Λ, hflow⟩, -, htemps⟩ := lowerFunction_flow True h fun _ => hfree
    obtain ⟨live, hlive⟩ := hflow.liveSets htemps
    exact hlive.definedBeforeUse (hspan.path hpath) (.inl trivial)
  · obtain ⟨-, honce, -⟩ := lowerFunction_flow False h False.elim
    exact not_definedBeforeUse honce hpath hp hbang hdef
  · obtain ⟨⟨Λ, hflow⟩, -, htemps⟩ := lowerFunction_flow False h False.elim
    obtain ⟨live, hlive⟩ := hflow.liveSets htemps
    exact hlive.definedBeforeUse (hpath.path hspan) (.inr hno)

/-- `f(x) { return !x; }` -/
def bangExample : FuncDecl where
  name := "f"
  params := [⟨"x", .int, false⟩]
  decls := []
  body := .cons (.retv (.unop 1 .bang (.name 1 "x"))) .nil

/-- `f(b) { b = __mark(); if (!b) g(); }` -/
def markExample : FuncDecl where
  name := "f"
  params := [⟨"b", .int, false⟩]
  decls := []
  body := .cons (.exprStmt (.assign 1 (.name 1 "b") (.call 1 (.name 1 "__mark") .nil)))
    (.cons (.ifThen (.unop 1 .bang (.name 1 "b")) (.exprStmt (.call 1 (.name 1 "g") .nil))) .nil)

theorem lowered_of_code {f : FuncDecl} {s : Lowering} {code : List Insn}
    (h : (lowerFunction f s).toOption.map (·.1.code) = some code) :
    ∃ fn s', lowerFunction f s = .ok (fn, s') ∧ fn.code = code := by
  match hrun : lowerFunction f s with
  | .error e =>
    rw [hrun] at h
    cases h
  | .ok (fn, s') =>
    rw [hrun] at h
    exact ⟨fn, s', rfl, Option.some.inj h⟩

theorem bangExample_lowered : ∃ fn s', lowerFunction bangExample { fn := irNewFunc "" } =
    .ok (fn, s') ∧ fn.code =
      [{ op := .func, sym := "f", nargs := 1 },
        { op := .ldl, dst := some 0, slot := some 0 },
        { op := .cmpeq, dst := some 1, a := some 0, b := some 2 },
        { op := .lic, dst := some 2 },
        { op := .retv, a := some 1 },
        { op := .endf }] :=
  lowered_of_code (by decide +kernel)

theorem markExample_lowered : ∃ fn s', lowerFunction markExample { fn := irNewFunc "" } =
    .ok (fn, s') ∧ fn.code =
      [{ op := .func, sym := "f", nargs := 1 },
        { op := .mark, dst := some 0, slot := some 1, label := some 0 },
        { op := .stl, slot := some 0, a := some 0 },
        { op := .ldl, dst := some 1, slot := some 0 },
        { op := .bnz, a := some 1, label := some 2 },
        { op := .jmp, label := some 1 },
        { op := .label, label := some 1 },
        { op := .call, dst := some 2, sym := "g" },
        { op := .label, label := some 2 },
        { op := .lic, dst := some 3 },
        { op := .retv, a := some 3 },
        { op := .endf }] :=
  lowered_of_code (by decide +kernel)

/-- The path to the comparison reads a constant that comes after it. -/
theorem bangExample_not_definedBeforeUse :
    ∃ fn s', lowerFunction bangExample { fn := irNewFunc "" } = .ok (fn, s') ∧
      Execution fn.code [0, 1, 2] ∧ ¬ DefinedBeforeUse fn [0, 1, 2] := by
  obtain ⟨fn, s', h, hcode⟩ := bangExample_lowered
  have hpath : Execution fn.code [0, 1, 2] := by
    rw [hcode]
    decide +kernel
  have hbang : BangAt fn.code 2 := by
    rw [hcode]
    exact ⟨2, rfl, rfl, rfl, rfl⟩
  obtain ⟨-, honce, -⟩ := lowerFunction_flow False h False.elim
  exact ⟨fn, s', h, hpath, not_definedBeforeUse honce hpath (by simp) hbang⟩

/-- The continuation fires in `g`, and the function goes on behind the mark. -/
theorem lowerFunction_definedBeforeUse_mark :
    ∃ fn s', lowerFunction markExample { fn := irNewFunc "" } = .ok (fn, s') ∧
      DefinedBeforeUse fn [0, 1, 2, 3, 4, 5, 6, 7, 1, 2, 3, 4, 8, 9, 10] := by
  obtain ⟨fn, s', h, hcode⟩ := markExample_lowered
  have hpath : Execution fn.code [0, 1, 2, 3, 4, 5, 6, 7, 1, 2, 3, 4, 8, 9, 10] := by
    rw [hcode]
    decide +kernel
  refine ⟨fn, s', h, (lowerFunction_definedBeforeUse h hpath).1 rfl ?_⟩
  rw [hcode]
  decide +kernel

end MechanicalResearcher.PortableCompiler.Tinc
