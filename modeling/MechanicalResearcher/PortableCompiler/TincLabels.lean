import MechanicalResearcher.PortableCompiler.IrCalls
import MechanicalResearcher.PortableCompiler.Tinc

/-!
# Labels of lowered TinC

The labels that a piece of the lowering puts into the code are its own, and the code of an
expression only jumps inside itself.
-/

namespace MechanicalResearcher.PortableCompiler.Tinc

variable {a b : LowerM Val} {c : Nat → Nat → LowerM Unit}

/-! ## What a piece emits -/

/-- From `s` to `s'` the code `seg` was emitted.  Its labels are not older than `k`. -/
structure Emits (k : Nat) (J : Nat → Prop) (K : Prop) (s s' : Lowering) (seg : List Insn) :
    Prop where
  code : s'.fn.code = s.fn.code ++ seg
  nlabels : s.fn.nlabels ≤ s'.fn.nlabels
  loops : s'.loops = s.loops
  placed : ∀ l ∈ labels seg, k ≤ l ∧ l < s'.fn.nlabels
  contained : Contained J K seg

variable {k j : Nat} {J J' : Nat → Prop} {K K' : Prop} {s s1 s2 : Lowering}
  {seg seg' : List Insn} {i : Insn} {l : Nat}

namespace Emits

theorem refl (s : Lowering) : Emits k J K s s [] :=
  ⟨by rw [List.append_nil], Nat.le_refl _, rfl, by simp, by simp, by simp⟩

theorem trans (h : Emits k J K s s1 seg) (h' : Emits k J K s1 s2 seg') :
    Emits k J K s s2 (seg ++ seg') where
  code := by rw [h'.code, h.code, List.append_assoc]
  nlabels := h.nlabels.trans h'.nlabels
  loops := h'.loops.trans h.loops
  placed l hl := by
    rw [labels_append, List.mem_append] at hl
    rcases hl with hl | hl
    · exact ⟨(h.placed l hl).1, Nat.lt_of_lt_of_le (h.placed l hl).2 h'.nlabels⟩
    · exact h'.placed l hl
  contained := by
    constructor
    · intro i hi l hl
      rw [labels_append, List.mem_append]
      rcases List.mem_append.1 hi with hi | hi
      · exact (h.contained.targets i hi l hl).imp_left .inl
      · exact (h'.contained.targets i hi l hl).imp_left .inr
    · intro i hi hret
      rcases List.mem_append.1 hi with hi | hi
      · exact h.contained.returns i hi hret
      · exact h'.contained.returns i hi hret

theorem mono (h : Emits k J K s s1 seg) (hjk : j ≤ k) (hJ : ∀ l, J l → J' l) (hK : K → K') :
    Emits j J' K' s s1 seg where
  code := h.code
  nlabels := h.nlabels
  loops := h.loops
  placed l hl := ⟨hjk.trans (h.placed l hl).1, (h.placed l hl).2⟩
  contained := ⟨fun i hi l hl => (h.contained.targets i hi l hl).imp_right (hJ l),
    fun i hi hret => hK (h.contained.returns i hi hret)⟩

theorem close (h : Emits k J K s s1 seg) (hJ : ∀ l, J l → l ∈ labels seg ∨ J' l) :
    Emits k J' K s s1 seg where
  code := h.code
  nlabels := h.nlabels
  loops := h.loops
  placed := h.placed
  contained := ⟨fun i hi l hl => (h.contained.targets i hi l hl).elim .inl (hJ l),
    h.contained.returns⟩

theorem insn (htarget : ∀ l, i.target = some l → J l) (hret : i.Returns → K)
    (hlab : i.labelled = none) (n : Nat) : Emits k J K s (s.push [i] n 0) [i] where
  code := rfl
  nlabels := Nat.le_refl _
  loops := rfl
  placed l hl := by simp [hlab] at hl
  contained := by
    constructor
    · intro j hj l hl
      rw [List.mem_singleton] at hj
      subst hj
      exact .inr (htarget l hl)
    · intro j hj h
      rw [List.mem_singleton] at hj
      subst hj
      exact hret h

theorem label (hk : k ≤ l) (hl : l < s.fn.nlabels) :
    Emits k J K s (s.push [{ op := .label, label := some l }] 0 0)
      [{ op := .label, label := some l }] where
  code := rfl
  nlabels := Nat.le_refl _
  loops := rfl
  placed l' hl' := by
    rw [labels_cons, labels_nil, List.append_nil] at hl'
    obtain rfl : l' = l := by simpa [Insn.labelled] using hl'
    exact ⟨hk, hl⟩
  contained := by
    constructor
    · intro j hj l hl
      rw [List.mem_singleton] at hj
      subst hj
      cases hl
    · intro j hj h
      rw [List.mem_singleton] at hj
      subst hj
      rcases h with h | h <;> cases h

theorem newLabel (n : Nat) : Emits k J K s (s.push [] n 1) [] :=
  ⟨rfl, Nat.le_succ _, rfl, by simp, by simp, by simp⟩

theorem newTemp (n : Nat) : Emits k J K s (s.push [] n 0) [] :=
  ⟨rfl, Nat.le_refl _, rfl, by simp, by simp, by simp⟩

theorem of_fields {s s1 s' : Lowering} (h : Emits k J K s1 s' seg) (hfn : s1.fn = s.fn)
    (hloops : s1.loops = s.loops) : Emits k J K s s' seg :=
  ⟨by rw [h.code, hfn], by rw [← hfn]; exact h.nlabels, by rw [h.loops, hloops], h.placed,
    h.contained⟩

end Emits

/-- A piece of the lowering whose labels are its own, and that jumps to `J` or inside itself. -/
def Confined {α : Type} (J : Nat → Prop) (K : Prop) (x : LowerM α) : Prop :=
  ∀ s r s', x s = .ok (r, s') → ∃ seg, Emits s.fn.nlabels J K s s' seg

namespace Confined

variable {α β : Type} {x : LowerM α} {g : α → LowerM β}

theorem bind (hx : Confined J K x) (hg : ∀ a, Confined J K (g a)) : Confined J K (x >>= g) := by
  intro s r s' h
  obtain ⟨a, s1, h1, h2⟩ := bind_eq_ok.1 h
  obtain ⟨seg, hseg⟩ := hx s a s1 h1
  obtain ⟨seg', hseg'⟩ := hg a s1 r s' h2
  exact ⟨seg ++ seg', hseg.trans (hseg'.mono hseg.nlabels (fun _ => id) id)⟩

theorem pure (a : α) : Confined J K (Pure.pure a : LowerM α) := by
  intro s r s' h
  obtain ⟨-, rfl⟩ := pure_eq_ok.1 h
  exact ⟨[], .refl _⟩

theorem die (msg : String) : Confined J K (die msg : LowerM α) := by
  intro s r s' h
  cases h

theorem mono (hx : Confined J K x) (hJ : ∀ l, J l → J' l) (hK : K → K') : Confined J' K' x := by
  intro s r s' h
  obtain ⟨seg, hseg⟩ := hx s r s' h
  exact ⟨seg, hseg.mono (Nat.le_refl _) hJ hK⟩

theorem emit (htarget : ∀ l, i.target = some l → J l) (hret : i.Returns → K)
    (hlab : i.labelled = none) : Confined J K (emit i) := by
  intro s r s' h
  rw [emit_eq_ok.1 h]
  exact ⟨[i], .insn htarget hret hlab 0⟩

theorem emitDst (htarget : i.target = none) (hret : ¬ i.Returns) (hlab : i.labelled = none) :
    Confined J K (emitDst i) := by
  intro s r s' h
  rw [(emitDst_eq_ok.1 h).2]
  have htarget' : ∀ t l, ({ i with dst := some t } : Insn).target = some l → J l := by
    intro t l hl
    change i.target = some l at hl
    rw [htarget] at hl
    cases hl
  exact ⟨_, .insn (htarget' _) (fun h => absurd h hret) hlab 1⟩

theorem newLabel : Confined J K newLabel := by
  intro s r s' h
  rw [(newLabel_eq_ok.1 h).2]
  exact ⟨[], .newLabel 0⟩

theorem newTemp : Confined J K newTemp := by
  intro s r s' h
  rw [(newTemp_eq_ok.1 h).2]
  exact ⟨[], .newTemp 1⟩

theorem get {g : Lowering → LowerM β} (hg : ∀ s, Confined J K (g s)) :
    Confined J K ((MonadState.get : LowerM Lowering) >>= g) :=
  fun s r s' h => hg s s r s' h

end Confined

/-! ## Expressions -/

/-- No target outside. -/
abbrev Nowhere : Nat → Prop := fun _ => False

/-- One of two targets. -/
abbrev Either (ltrue lfalse : Nat) : Nat → Prop := fun l => l = ltrue ∨ l = lfalse

section Forms

theorem loadOp_plain (bt : Ty) (t : Nat) :
    ({ op := loadOp bt, a := some t } : Insn).target = none ∧
      ¬ ({ op := loadOp bt, a := some t } : Insn).Returns ∧
      ({ op := loadOp bt, a := some t } : Insn).labelled = none := by
  unfold loadOp
  split <;> simp [Insn.target, Insn.Returns, Insn.labelled]

theorem confined_data {i : Insn} (htarget : i.target = none) (hret : ¬ i.Returns)
    (hlab : i.labelled = none) : Confined J K (emit i) :=
  .emit (fun l hl => by rw [htarget] at hl; cases hl) (fun h => absurd h hret) hlab

theorem load_confined (bt : Ty) (t : Nat) : Confined J K (load bt t) := by
  obtain ⟨htarget, hret, hlab⟩ := loadOp_plain bt t
  exact .bind (.emitDst htarget hret hlab) fun _ => .pure _

theorem lowerConst_confined (v : Int) : Confined J K (lowerConst v) :=
  .emitDst rfl (by simp [Insn.Returns]) rfl

theorem nameExpr_confined (line : Nat) (x : String) : Confined J K (nameExpr line x) := by
  refine .get fun s => ?_
  cases findLsym s x with
  | some ls =>
    dsimp only
    split
    · exact .bind (.emitDst rfl (by simp [Insn.Returns]) rfl) fun _ => .pure _
    · exact .bind (.emitDst rfl (by simp [Insn.Returns]) rfl) fun _ => .pure _
  | none =>
    cases findGsym s x with
    | none => exact .die _
    | some gs =>
      refine .bind (.emitDst rfl (by simp [Insn.Returns]) rfl) fun taddr => ?_
      split
      · exact .pure _
      · split
        · exact .pure _
        · obtain ⟨htarget, hret, hlab⟩ := loadOp_plain gs.baseType taddr
          exact .bind (.emitDst htarget hret hlab) fun _ => .pure _

theorem nameAddr_confined (line : Nat) (x : String) : Confined J K (nameAddr line x) := by
  refine .get fun s => ?_
  cases findLsym s x with
  | some ls => exact .bind (.emitDst rfl (by simp [Insn.Returns]) rfl) fun _ => .pure _
  | none =>
    cases findGsym s x with
    | none => exact .die _
    | some gs => exact .bind (.emitDst rfl (by simp [Insn.Returns]) rfl) fun _ => .pure _

theorem scale_confined (w : Int) (t : Nat) : Confined J K (scale w t) := by
  unfold scale
  split
  · exact .pure _
  · exact .bind (lowerConst_confined _) fun _ => .emitDst rfl (by simp [Insn.Returns]) rfl

theorem indexAddr_confined (ha : Confined J K a) (hb : Confined J K b) :
    Confined J K (indexAddr a b) :=
  .bind ha fun _ => .bind hb fun _ => .bind (scale_confined _ _) fun _ =>
    .bind (.emitDst rfl (by simp [Insn.Returns]) rfl) fun _ => .pure _

theorem lowerTest_confined (ha : Confined Nowhere K a) (ltrue lfalse : Nat) :
    Confined (Either ltrue lfalse) K (lowerTest a ltrue lfalse) := by
  refine .bind (ha.mono (fun _ => False.elim) id) fun v => .bind (.emit ?_ ?_ rfl) fun _ =>
    .emit ?_ ?_ rfl
  · intro l hl
    exact .inl (Option.some.inj hl).symm
  · simp [Insn.Returns]
  · intro l hl
    exact .inr (Option.some.inj hl).symm
  · simp [Insn.Returns]

theorem lowerStr_confined (text : List UInt8) : Confined J K (lowerStr text) := by
  intro s r s' h
  unfold lowerStr at h
  rw [get_bind, set_bind] at h
  have hlea : Confined J K (emitDst { op := .lea, sym := s!"__str_{s.strctr}" } >>= fun t =>
      Pure.pure (mkval t .char true)) :=
    .bind (.emitDst rfl (by simp [Insn.Returns]) rfl) fun _ => .pure _
  obtain ⟨seg, hseg⟩ := hlea _ r s' h
  exact ⟨seg, hseg.of_fields rfl rfl⟩

theorem lowerUnop_confined (op : UnOp) {a : Lowered} (ha : Confined J K a.expr)
    (haddr : Confined J K a.addr) : Confined J K (lowerUnop op a) := by
  cases op with
  | star => exact .bind ha fun _ => load_confined _ _
  | amp => exact .bind haddr fun _ => .pure _
  | minus =>
    exact .bind ha fun _ => .bind (.emitDst rfl (by simp [Insn.Returns]) rfl) fun _ => .pure _
  | tilde =>
    exact .bind ha fun _ => .bind (.emitDst rfl (by simp [Insn.Returns]) rfl) fun _ => .pure _
  | bang =>
    exact .bind ha fun _ => .bind .newTemp fun _ => .bind .newTemp fun _ =>
      .bind (confined_data rfl (by simp [Insn.Returns]) rfl) fun _ =>
      .bind (confined_data rfl (by simp [Insn.Returns]) rfl) fun _ => .pure _

theorem binOpForTok_plain {op : BinOp} {irOp : Op} (h : binOpForTok op = some irOp) (a b : Nat) :
    ({ op := irOp, a := some a, b := some b } : Insn).target = none ∧
      ¬ ({ op := irOp, a := some a, b := some b } : Insn).Returns ∧
      ({ op := irOp, a := some a, b := some b } : Insn).labelled = none := by
  cases op <;> simp only [binOpForTok, Option.some.injEq, reduceCtorEq] at h <;> subst h <;>
    simp [Insn.target, Insn.Returns, Insn.labelled]

theorem lowerBinop_confined (line : Nat) (op : BinOp) (ha : Confined J K a) (hb : Confined J K b) :
    Confined J K (lowerBinop line op a b) := by
  refine .bind ha fun l => .bind hb fun r => .bind ?_ fun tr => ?_
  · unfold scaleSum
    split
    · exact scale_confined _ _
    · exact .pure _
  · cases hop : binOpForTok op with
    | none => exact .die _
    | some irOp =>
      obtain ⟨htarget, hret, hlab⟩ := binOpForTok_plain hop l.temp tr
      exact .bind (.emitDst htarget hret hlab) fun _ => .pure _

/-- A condition that jumps to the two given labels. -/
abbrev CondConfined (x : Nat → Nat → LowerM Unit) : Prop :=
  ∀ ltrue lfalse, Confined (Either ltrue lfalse) False (x ltrue lfalse)

theorem condMid_confined {x : Nat → LowerM Unit} {y : LowerM Unit}
    (hx : ∀ lmid, Confined (fun l => l = lmid ∨ J l) K (x lmid)) (hy : Confined J K y) :
    Confined J K (do let lmid ← newLabel; x lmid; emitLabel lmid; y) := by
  intro s r s' h
  obtain ⟨lmid, s1, h1, h⟩ := bind_eq_ok.1 h
  obtain ⟨_, s2, h2, h⟩ := bind_eq_ok.1 h
  obtain ⟨_, s3, h3, h4⟩ := bind_eq_ok.1 h
  obtain ⟨rfl, rfl⟩ := newLabel_eq_ok.1 h1
  obtain ⟨segx, hsegx⟩ := hx _ _ _ _ h2
  rw [emitLabel, emit_eq_ok] at h3
  subst h3
  obtain ⟨segy, hsegy⟩ := hy _ _ _ h4
  have hle : s.fn.nlabels + 1 ≤ s2.fn.nlabels := hsegx.nlabels
  have hall := (((Emits.newLabel 0).trans (hsegx.mono (Nat.le_succ _) (fun _ => id) id)).trans
    (Emits.label (Nat.le_refl _) hle)).trans (hsegy.mono (by simp; omega) (fun _ => .inr) id)
  refine ⟨_, hall.close fun l hl => hl.imp_left fun h => ?_⟩
  subst h
  simp [Insn.labelled]

theorem condAnd_confined {a b : Nat → Nat → LowerM Unit} (ha : CondConfined a)
    (hb : CondConfined b) : CondConfined (condAnd a b) := fun ltrue lfalse =>
  condMid_confined (fun lmid => (ha lmid lfalse).mono (fun l hl => by
    rcases hl with rfl | rfl
    · exact .inl rfl
    · exact .inr (.inr rfl)) id) (hb ltrue lfalse)

theorem condOr_confined {a b : Nat → Nat → LowerM Unit} (ha : CondConfined a)
    (hb : CondConfined b) : CondConfined (condOr a b) := fun ltrue lfalse =>
  condMid_confined (fun lmid => (ha ltrue lmid).mono (fun l hl => by
    rcases hl with rfl | rfl
    · exact .inr (.inl rfl)
    · exact .inl rfl) id) (hb ltrue lfalse)

theorem lowerShortcircuit_confined (hc : CondConfined c) :
    Confined Nowhere False (lowerShortcircuit c) := by
  intro s v s' h
  obtain ⟨s1, h1, -, rfl⟩ := lowerShortcircuit_eq_ok h
  obtain ⟨seg, hseg⟩ := hc _ _ _ _ _ h1
  have hle : s.fn.nlabels + 3 ≤ s1.fn.nlabels := hseg.nlabels
  have hlabels : labels (shortTail s.fn.nlabels (s.fn.nlabels + 1) (s.fn.nlabels + 2)
      s1.fn.ntemps) = [s.fn.nlabels, s.fn.nlabels + 1, s.fn.nlabels + 2] := rfl
  refine ⟨seg ++ shortTail s.fn.nlabels (s.fn.nlabels + 1) (s.fn.nlabels + 2) s1.fn.ntemps,
    ?_, ?_, ?_, ?_, ?_, ?_⟩
  · change s1.fn.code ++ _ = _
    rw [hseg.code, List.append_assoc]
    simp [Lowering.push]
  · change s.fn.nlabels ≤ s1.fn.nlabels + 0
    omega
  · exact hseg.loops
  · intro l hl
    change _ ∧ l < s1.fn.nlabels + 0
    rw [labels_append, List.mem_append, hlabels] at hl
    rcases hl with hl | hl
    · have hplaced : s.fn.nlabels + 3 ≤ l ∧ l < s1.fn.nlabels := hseg.placed l hl
      omega
    · simp only [List.mem_cons, List.not_mem_nil, or_false] at hl
      omega
  · intro i hi l hl
    refine .inl ?_
    rw [labels_append, List.mem_append, hlabels]
    rcases List.mem_append.1 hi with hi | hi
    · rcases hseg.contained.targets i hi l hl with hmem | rfl | rfl
      · exact .inl hmem
      · exact .inr (by simp)
      · exact .inr (by simp)
    · simp only [shortTail, List.mem_cons, List.not_mem_nil, or_false] at hi
      rcases hi with rfl | rfl | rfl | rfl | rfl | rfl <;> cases hl
      exact .inr (by simp)
  · intro i hi hret
    rcases List.mem_append.1 hi with hi | hi
    · exact hseg.contained.returns i hi hret
    · simp only [shortTail, List.mem_cons, List.not_mem_nil, or_false] at hi
      rcases hi with rfl | rfl | rfl | rfl | rfl | rfl <;> rcases hret with h | h <;> cases h

theorem lowerAssign_confined (x : Option String) {a : LowerM Addr} (ha : Confined J K a)
    (hb : Confined J K b) : Confined J K (lowerAssign x a b) := by
  refine .bind hb fun r => .get fun s => ?_
  cases (x.bind (findLsym s)).filter fun ls => !ls.isArray with
  | some ls => exact .bind (confined_data rfl (by simp [Insn.Returns]) rfl) fun _ => .pure _
  | none =>
    refine .bind ha fun ad => .get fun s => .bind ?_ fun _ => .pure _
    split
    · exact confined_data rfl (by simp [Insn.Returns]) rfl
    · exact confined_data rfl (by simp [Insn.Returns]) rfl

theorem lowerMark_confined : Confined J K lowerMark := by
  intro s r s' h
  unfold lowerMark allocSlot at h
  simp only [bind_assoc] at h
  rw [get_bind, set_bind, pure_bind] at h
  have hmark (slot : Nat) : Confined J K (newLabel >>= fun lmark =>
      emitDst { op := .mark, slot := some slot, label := some lmark } >>= fun t =>
        Pure.pure (mkval t .int false)) :=
    .bind .newLabel fun _ => .bind (.emitDst rfl (by simp [Insn.Returns]) rfl) fun _ => .pure _
  obtain ⟨seg, hseg⟩ := hmark _ _ r s' h
  exact ⟨seg, hseg.of_fields rfl rfl⟩

theorem emitArgs_confined (n : Nat) (ts : List Nat) : Confined J K (emitArgs n ts) := by
  induction ts generalizing n with
  | nil => exact .pure _
  | cons t ts ih => exact .bind (confined_data rfl (by simp [Insn.Returns]) rfl) fun _ => ih _

theorem lowerCall_confined (x : Option String) {g : LowerM Val} {args : LowerM (List Nat)}
    (hg : Confined J K g) (hargs : Confined J K args) : Confined J K (lowerCall x g args) := by
  refine .bind hargs fun ts => .bind (emitArgs_confined _ _) fun _ => ?_
  cases x with
  | some name => exact .bind (.emitDst rfl (by simp [Insn.Returns]) rfl) fun _ => .pure _
  | none =>
    exact .bind hg fun _ => .bind (.emitDst rfl (by simp [Insn.Returns]) rfl) fun _ => .pure _

/-- The three functions on a node. -/
structure NodeConfined (e : Expr) : Prop where
  expr : Confined Nowhere False e.lower.expr
  addr : Confined Nowhere False e.lower.addr
  cond : CondConfined e.lower.cond

theorem notLvalue_confined (line : Nat) : Confined J K (notLvalue line) := .die _

theorem NodeConfined.plain {e : Expr} {line : Nat} {x : LowerM Val}
    (he : e.lower = Tinc.plain line x) (hx : Confined Nowhere False x) : NodeConfined e := by
  refine ⟨?_, ?_, fun l l' => ?_⟩
  · rw [he]
    exact hx
  · rw [he]
    exact notLvalue_confined line
  · rw [he]
    exact lowerTest_confined hx l l'

theorem unop_nodeConfined (line : Nat) (op : UnOp) {a : Expr} (ha : NodeConfined a) :
    NodeConfined (.unop line op a) := by
  have hexpr := lowerUnop_confined op ha.expr ha.addr
  cases op with
  | star => exact ⟨hexpr, .bind ha.expr fun _ => .pure _, lowerTest_confined hexpr⟩
  | bang =>
    exact ⟨hexpr, notLvalue_confined line, fun l l' => (ha.cond l' l).mono (fun _ => Or.symm) id⟩
  | _ => exact .plain rfl hexpr

theorem binop_nodeConfined (line : Nat) (op : BinOp) {a b : Expr} (ha : NodeConfined a)
    (hb : NodeConfined b) : NodeConfined (.binop line op a b) := by
  cases op with
  | andand =>
    have hcond := condAnd_confined ha.cond hb.cond
    exact ⟨lowerShortcircuit_confined hcond, notLvalue_confined line, hcond⟩
  | oror =>
    have hcond := condOr_confined ha.cond hb.cond
    exact ⟨lowerShortcircuit_confined hcond, notLvalue_confined line, hcond⟩
  | _ => exact .plain rfl (lowerBinop_confined line _ ha.expr hb.expr)

end Forms

mutual

theorem Expr.confined : (e : Expr) → NodeConfined e
  | .num _ v => .plain rfl (.bind (lowerConst_confined v) fun _ => .pure _)
  | .charlit _ v => .plain rfl (.bind (lowerConst_confined v) fun _ => .pure _)
  | .str _ text => .plain rfl (lowerStr_confined text)
  | .name line x => by
    have hexpr : Confined Nowhere False (nameExpr line x) := nameExpr_confined line x
    exact ⟨hexpr, nameAddr_confined line x, lowerTest_confined hexpr⟩
  | .index _ a b => by
    have haddr := indexAddr_confined a.confined.expr b.confined.expr
    have hexpr := haddr.bind fun ad => load_confined ad.baseType ad.temp
    exact ⟨hexpr, haddr, lowerTest_confined hexpr⟩
  | .unop line op a => unop_nodeConfined line op a.confined
  | .binop line op a b => binop_nodeConfined line op a.confined b.confined
  | .assign _ a b =>
    .plain rfl (lowerAssign_confined a.nameOf a.confined.addr b.confined.expr)
  | .call _ f args => by
    refine .plain rfl ?_
    split_ifs
    · exact lowerMark_confined
    · exact .bind (.emitDst rfl (by simp [Insn.Returns]) rfl) fun _ => .pure _
    · exact lowerResume_confined args
    · exact lowerCall_confined f.nameOf f.confined.expr (lowerArgs_confined args 0)

theorem lowerArgs_confined : (args : Args) → (n : Nat) → Confined Nowhere False (lowerArgs n args)
  | .nil, _ => .pure _
  | .cons a next, n => by
    refine .bind a.confined.expr fun av => ?_
    split
    · exact .die _
    · exact .bind (lowerArgs_confined next (n + 1)) fun _ => .pure _

theorem lowerResume_confined : (args : Args) → Confined Nowhere False (lowerResume args)
  | .nil => .die _
  | .cons _ .nil => .die _
  | .cons a (.cons b _) =>
    .bind a.confined.expr fun _ => .bind b.confined.expr fun _ =>
      .bind (confined_data rfl (by simp [Insn.Returns]) rfl) fun _ => .pure _

end

/-! ## Statements -/

/-- Any target. -/
abbrev Anywhere : Nat → Prop := fun _ => True

/-- A piece of statements: what is said of it is that its labels are its own. -/
abbrev OwnLabels {α : Type} (x : LowerM α) : Prop := Confined Anywhere True x

theorem Confined.own {α : Type} {x : LowerM α} (hx : Confined J K x) : OwnLabels x :=
  hx.mono (fun _ _ => trivial) fun _ => trivial

theorem ifThen_ownLabels {x : LowerM Unit} (hc : CondConfined c) (hx : OwnLabels x) : OwnLabels (do
      let ltrue ← newLabel
      let lfalse ← newLabel
      let _lend ← newLabel
      c ltrue lfalse
      emitLabel ltrue
      x
      emitLabel lfalse) := by
  intro s r s' h
  simp only [emitLabel, bind_eq_ok, newLabel_eq_ok, emit_eq_ok] at h
  obtain ⟨_, _, ⟨rfl, rfl⟩, _, _, ⟨rfl, rfl⟩, _, _, ⟨rfl, rfl⟩, _, s1, h1, _, _, rfl, _, s2, h2,
    rfl⟩ := h
  obtain ⟨segc, hsegc⟩ := (hc _ _).own _ _ _ h1
  obtain ⟨segx, hsegx⟩ := hx _ _ _ h2
  have hle := hsegc.nlabels
  have hle' := hsegx.nlabels
  simp only [push_nlabels] at hle hle'
  exact ⟨_, ((((((Emits.newLabel 0).trans (.newLabel 0)).trans (.newLabel 0)).trans
    (hsegc.mono (by simp) (fun _ => id) id)).trans (.label (Nat.le_refl _) (by omega))).trans
    (hsegx.mono (by simp; omega) (fun _ => id) id)).trans (.label (by simp) (by simp; omega))⟩

theorem ifElse_ownLabels {x y : LowerM Unit} (hc : CondConfined c) (hx : OwnLabels x)
    (hy : OwnLabels y) : OwnLabels (do
      let ltrue ← newLabel
      let lfalse ← newLabel
      let lend ← newLabel
      c ltrue lfalse
      emitLabel ltrue
      x
      emitJmp lend
      emitLabel lfalse
      y
      emitLabel lend) := by
  intro s r s' h
  simp only [emitLabel, emitJmp, bind_eq_ok, newLabel_eq_ok, emit_eq_ok] at h
  obtain ⟨_, _, ⟨rfl, rfl⟩, _, _, ⟨rfl, rfl⟩, _, _, ⟨rfl, rfl⟩, _, s1, h1, _, _, rfl, _, s2, h2,
    _, _, rfl, _, _, rfl, _, s3, h3, rfl⟩ := h
  obtain ⟨segc, hsegc⟩ := (hc _ _).own _ _ _ h1
  obtain ⟨segx, hsegx⟩ := hx _ _ _ h2
  obtain ⟨segy, hsegy⟩ := hy _ _ _ h3
  have hle := hsegc.nlabels
  have hle' := hsegx.nlabels
  have hle'' := hsegy.nlabels
  simp only [push_nlabels] at hle hle' hle''
  have hjmp : Emits s.fn.nlabels Anywhere True s2 _ _ :=
    .insn (i := { op := .jmp, label := some (s.fn.nlabels + 1 + 1) }) (fun _ _ => trivial)
      (fun _ => trivial) rfl 0
  exact ⟨_, (((((((((Emits.newLabel 0).trans (.newLabel 0)).trans (.newLabel 0)).trans
    (hsegc.mono (by simp) (fun _ => id) id)).trans (.label (Nat.le_refl _) (by omega))).trans
    (hsegx.mono (by simp; omega) (fun _ => id) id)).trans hjmp).trans
    (.label (by simp) (by simp; omega))).trans (hsegy.mono (by simp; omega) (fun _ => id) id)).trans
    (.label (by simp) (by simp; omega))⟩

theorem inLoop_ownLabels {x : LowerM Unit} (l : Loop) (hx : OwnLabels x) :
    OwnLabels (inLoop l x) := by
  intro s r s' h
  unfold inLoop at h
  rw [get_bind] at h
  split at h
  · cases h
  · rw [set_bind] at h
    obtain ⟨u, s1, h1, h2⟩ := bind_eq_ok.1 h
    cases h2
    -- the loop is taken off the stack again
    obtain ⟨seg, hcode, hlabels, hloops, hplaced, hcontained⟩ := hx _ u s1 h1
    refine ⟨seg, hcode, hlabels, ?_, hplaced, hcontained⟩
    change s1.loops.tail = s.loops
    rw [hloops]
    rfl

theorem loopTest_ownLabels {test : Expr} (h : NodeConfined test) (lbrk : Nat) :
    OwnLabels (loopTest test lbrk) := by
  unfold loopTest
  split
  · exact .pure _
  · intro s r s' h'
    obtain ⟨lbody, s1, h1, h'⟩ := bind_eq_ok.1 h'
    obtain ⟨_, s2, h2, h3⟩ := bind_eq_ok.1 h'
    obtain ⟨rfl, rfl⟩ := newLabel_eq_ok.1 h1
    rw [emitLabel, emit_eq_ok] at h3
    subst h3
    obtain ⟨seg, hseg⟩ := (h.cond _ _).own _ _ _ h2
    have hle : s.fn.nlabels + 1 ≤ s2.fn.nlabels := hseg.nlabels
    exact ⟨_, ((Emits.newLabel 0).trans (hseg.mono (Nat.le_succ _) (fun _ => id) id)).trans
      (.label (Nat.le_refl _) hle)⟩

theorem loop_ownLabels {test : Expr} {x : LowerM Unit} (h : NodeConfined test)
    (hx : OwnLabels x) : OwnLabels (do
      let ltop ← newLabel
      let lbrk ← newLabel
      emitLabel ltop
      loopTest test lbrk
      inLoop ⟨lbrk, ltop⟩ x
      emitJmp ltop
      emitLabel lbrk) := by
  intro s r s' h'
  simp only [emitLabel, emitJmp, bind_eq_ok, newLabel_eq_ok, emit_eq_ok] at h'
  obtain ⟨_, _, ⟨rfl, rfl⟩, _, _, ⟨rfl, rfl⟩, _, _, rfl, _, s1, h1, _, s2, h2, _, _, rfl,
    rfl⟩ := h'
  obtain ⟨segt, hsegt⟩ := loopTest_ownLabels h _ _ _ _ h1
  obtain ⟨segx, hsegx⟩ := inLoop_ownLabels _ hx _ _ _ h2
  have hle := hsegt.nlabels
  have hle' := hsegx.nlabels
  simp only [push_nlabels] at hle hle'
  have hjmp : Emits s.fn.nlabels Anywhere True s2 _ _ :=
    .insn (i := { op := .jmp, label := some s.fn.nlabels }) (fun _ _ => trivial)
      (fun _ => trivial) rfl 0
  exact ⟨_, ((((((Emits.newLabel 0).trans (.newLabel 0)).trans
    (.label (Nat.le_refl _) (by simp))).trans
    (hsegt.mono (by simp) (fun _ => id) id)).trans
    (hsegx.mono (by omega) (fun _ => id) id)).trans hjmp).trans
    (.label (by simp) (by simp; omega))⟩

theorem exit_ownLabels (msg : String) (target : Loop → Nat) : OwnLabels (do
      let s ← get
      match s.loops with
      | [] => die msg
      | l :: _ => emitJmp (target l)) := by
  refine .get fun s => ?_
  cases s.loops with
  | nil => exact .die _
  | cons l loops => exact .emit (fun _ _ => trivial) (fun _ => trivial) rfl

mutual

theorem lowerStmt_ownLabels : (n : Stmt) → OwnLabels (lowerStmt n)
  | .block _ body => lowerStmts_ownLabels body
  | .exprStmt a => .bind a.confined.expr.own fun _ => .pure _
  | .empty => .pure _
  | .ifThen test x => ifThen_ownLabels test.confined.cond (lowerStmt_ownLabels x)
  | .ifElse test x y =>
    ifElse_ownLabels test.confined.cond (lowerStmt_ownLabels x) (lowerStmt_ownLabels y)
  | .loop test x => loop_ownLabels test.confined (lowerStmt_ownLabels x)
  | .brk _ => exit_ownLabels _ Loop.brk
  | .cont _ => exit_ownLabels _ Loop.cont
  | .ret => .emit (fun _ _ => trivial) (fun _ => trivial) rfl
  | .retv a => .bind a.confined.expr.own fun _ =>
    .emit (fun _ _ => trivial) (fun _ => trivial) rfl

theorem lowerStmts_ownLabels : (n : Stmts) → OwnLabels (lowerStmts n)
  | .nil => .pure _
  | .cons s next => .bind (lowerStmt_ownLabels s) fun _ => lowerStmts_ownLabels next

end

end MechanicalResearcher.PortableCompiler.Tinc
