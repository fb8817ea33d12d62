import MechanicalResearcher.PortableCompiler.TincParser

/-!
# The expressions that are parsed are the ones that were written

`Writes p e ts` says that `ts` are the tokens of the tree `e` in a place that takes an expression
of the precedence `p` or a higher one: in parentheses exactly when `e` has a lower one.  The
tokens that a node takes its line from have that line, and all others any.
-/

namespace MechanicalResearcher.PortableCompiler.Tinc

open Lib.Evaluation

variable {k : Tok} {l : Nat} {ta tb : List Token}

/-! ## Writing -/

/-- The precedence of a tree: from assignments, which are 1, over the binary operators to unary
operators, which are 12, indexing and calls, and primaries. -/
def Expr.level : Expr → Nat
  | .assign .. => 1
  | .binop _ op _ _ => op.prec
  | .unop .. => 12
  | .index .. | .call .. => 13
  | .num .. | .charlit .. | .str .. | .name .. => 14

/-- Parentheses where the place takes only a higher precedence. -/
def InParens (p level : Nat) (bare : List Token → Prop) (ts : List Token) : Prop :=
  if p ≤ level then bare ts
  else ∃ inner l l', bare inner ∧ ts = ⟨.lparen, l⟩ :: inner ++ [⟨.rparen, l'⟩]

def UnOp.tok : UnOp → Tok
  | .minus => .minus
  | .bang => .bang
  | .tilde => .tilde
  | .star => .star
  | .amp => .amp

def BinOp.tok : BinOp → Tok
  | .star => .star
  | .slash => .slash
  | .percent => .percent
  | .plus => .plus
  | .minus => .minus
  | .shl => .shl
  | .shr => .shr
  | .lt => .lt
  | .le => .le
  | .gt => .gt
  | .ge => .ge
  | .eq => .eq
  | .ne => .ne
  | .amp => .amp
  | .caret => .caret
  | .pipe => .pipe
  | .andand => .andand
  | .oror => .oror

mutual

/-- The tokens of a tree without parentheses around it. -/
def Expr.Bare : Expr → List Token → Prop
  | .num l v, ts => ts = [⟨.number v, l⟩]
  | .charlit l v, ts => ts = [⟨.charlit v, l⟩]
  | .str l text, ts => ts = [⟨.string text, l⟩]
  | .name l x, ts => ts = [⟨.ident x, l⟩]
  | .index l a b, ts => ∃ ta tb l', InParens 13 a.level a.Bare ta ∧ InParens 1 b.level b.Bare tb ∧
      ts = ta ++ ⟨.lbrack, l⟩ :: tb ++ [⟨.rbrack, l'⟩]
  | .call l f args, ts => ∃ tf targs l', InParens 13 f.level f.Bare tf ∧ args.Bare targs ∧
      ts = tf ++ ⟨.lparen, l⟩ :: targs ++ [⟨.rparen, l'⟩]
  | .unop l op a, ts => ∃ ta, InParens 12 a.level a.Bare ta ∧ ts = ⟨op.tok, l⟩ :: ta
  -- left-associative: an equal precedence on the right has parentheses
  | .binop l op a b, ts => ∃ ta tb, InParens op.prec a.level a.Bare ta ∧
      InParens (op.prec + 1) b.level b.Bare tb ∧ ts = ta ++ ⟨op.tok, l⟩ :: tb
  | .assign l a b, ts => ∃ ta tb, InParens 2 a.level a.Bare ta ∧ InParens 1 b.level b.Bare tb ∧
      ts = ta ++ ⟨.assign, l⟩ :: tb

/-- The arguments of a call, with commas between them. -/
def Args.Bare : Args → List Token → Prop
  | .nil, ts => ts = []
  | .cons a .nil, ts => InParens 1 a.level a.Bare ts
  | .cons a (.cons b next), ts => ∃ ta tb l, InParens 1 a.level a.Bare ta ∧
      (Args.cons b next).Bare tb ∧ ts = ta ++ ⟨.comma, l⟩ :: tb

end

def Writes (p : Nat) (e : Expr) (ts : List Token) : Prop := InParens p e.level e.Bare ts

/-! ## Steps of the parser -/

variable {el : Nat} {t : Token} {ts rest inner : List Token} {e a b : Expr}

/-- The kind of `cur`. -/
def nextTok (ts : List Token) : Tok := (ts.head?.map Token.tok).getD .eof

theorem cur_cons : cur ⟨t :: ts, el⟩ = .ok (t, ⟨t :: ts, el⟩) := rfl

variable (el rest) in
theorem cur_eq : ∃ t, cur ⟨rest, el⟩ = .ok (t, ⟨rest, el⟩) ∧ t.tok = nextTok rest := by
  cases rest with
  | nil => exact ⟨⟨.eof, el⟩, rfl, rfl⟩
  | cons t rest => exact ⟨t, rfl, rfl⟩

theorem advance_cons : advance ⟨t :: ts, el⟩ = .ok ((), ⟨ts, el⟩) := rfl

theorem expect_cons (what : String) :
    expect k what ⟨⟨k, l⟩ :: ts, el⟩ = .ok ((), ⟨ts, el⟩) := by
  rw [expect, bind_ok _ cur_cons, if_neg (not_not.2 rfl)]
  rfl

theorem accept_cons :
    accept k ⟨⟨k, l⟩ :: ts, el⟩ = .ok (true, ⟨ts, el⟩) := by
  rw [accept, bind_ok _ cur_cons, if_pos rfl]
  rfl

theorem accept_ne (hk : nextTok rest ≠ k) :
    accept k ⟨rest, el⟩ = .ok (false, ⟨rest, el⟩) := by
  obtain ⟨t, hcur, ht⟩ := cur_eq el rest
  rw [accept, bind_ok _ hcur, ht, if_neg hk]
  rfl

theorem binop_tok (op : BinOp) : binop op.tok = some op := by cases op <;> rfl

theorem unop_tok (op : UnOp) : unop op.tok = some op := by cases op <;> rfl

theorem binopPrec_tok (op : BinOp) : binopPrec op.tok = op.prec := by
  rw [binopPrec, binop_tok]
  rfl

theorem BinOp.prec_bounds (op : BinOp) : 2 ≤ op.prec ∧ op.prec ≤ 11 := by
  cases op <;> decide

/-! ## What can follow -/

/-- No index and no arguments follow. -/
def NoPostfix (rest : List Token) : Prop := nextTok rest ≠ .lbrack ∧ nextTok rest ≠ .lparen

/-- Nothing follows that goes on with an expression. -/
structure Ends (rest : List Token) : Prop where
  closed : NoPostfix rest
  binop : binop (nextTok rest) = none
  assign : nextTok rest ≠ .assign

theorem Ends.prec (h : Ends rest) : binopPrec (nextTok rest) = -1 := by
  rw [binopPrec, h.binop]
  rfl

theorem postfixLoop_end (h : NoPostfix rest) (e : Expr) :
    Gives (fun fuel => postfixLoop fuel e) ⟨rest, el⟩ e ⟨rest, el⟩ := by
  obtain ⟨t, hcur, ht⟩ := cur_eq el rest
  apply Gives.succ
  simp only [postfixLoop]
  refine .bind (.of_eq hcur) ?_
  simp only [ht, h.1, h.2, if_false]
  exact .pure

theorem binopLoop_end {m : Int} (h : binopPrec (nextTok rest) < m) (e : Expr) :
    Gives (fun fuel => binopLoop fuel m e) ⟨rest, el⟩ e ⟨rest, el⟩ := by
  obtain ⟨t, hcur, ht⟩ := cur_eq el rest
  apply Gives.succ
  simp only [binopLoop]
  refine .bind (.of_eq hcur) ?_
  simp only [ht, h, if_true]
  exact .pure

/-! ## The levels

A fact for each function about the tokens `ts` of the tree `e`.  The functions with a loop read
`e` and go on with the loop, so that a longer tree on the left can use the fact of a shorter one.
-/

section Levels

variable (el e ts)

def Primary : Prop := ∀ rest, Gives parsePrimary ⟨ts ++ rest, el⟩ e ⟨rest, el⟩

def Postfix : Prop := ∀ rest n s', Gives (fun fuel => postfixLoop fuel e) ⟨rest, el⟩ n s' →
  Gives parsePostfix ⟨ts ++ rest, el⟩ n s'

def Unary : Prop := ∀ rest, NoPostfix rest → Gives parseUnary ⟨ts ++ rest, el⟩ e ⟨rest, el⟩

def Binary (p : Nat) : Prop := ∀ (m : Int) rest n s', m ≤ p → NoPostfix rest →
  binopPrec (nextTok rest) ≤ p → Gives (fun fuel => binopLoop fuel m e) ⟨rest, el⟩ n s' →
  Gives (fun fuel => parseBinop fuel m) ⟨ts ++ rest, el⟩ n s'

def Assigns : Prop := ∀ rest, Ends rest → Gives parseAssign ⟨ts ++ rest, el⟩ e ⟨rest, el⟩

/-- The first token of a tree, which of `lex_one` it can be. -/
structure Starts (level : Nat) : Prop where
  rparen : ∃ t ts', ts = t :: ts' ∧ t.tok ≠ .rparen
  unary : 13 ≤ level → ∃ t ts', ts = t :: ts' ∧ unop t.tok = none ∧ t.tok ≠ .plus

end Levels

theorem Primary.toPostfix (h : Primary el ts e) : Postfix el ts e := by
  intro rest n s' hloop
  apply Gives.succ
  simp only [parsePostfix]
  exact (h rest).bind hloop

theorem Postfix.toUnary (h : Postfix el ts e) (hs : Starts ts 13) : Unary el ts e := by
  obtain ⟨t, ts', rfl, hunop, hplus⟩ := hs.unary (Nat.le_refl 13)
  intro rest hrest
  apply Gives.succ
  simp only [parseUnary, List.cons_append]
  refine .bind (.of_eq cur_cons) ?_
  simp only [hplus, if_false, hunop]
  exact h rest e _ (postfixLoop_end hrest e)

theorem Unary.toBinary (h : Unary el ts e) (p : Nat) : Binary el ts e p := by
  intro m rest n s' _ hrest _ hloop
  apply Gives.succ
  simp only [parseBinop]
  exact (h rest hrest).bind hloop

theorem Binary.toAssigns {p : Nat} (h : Binary el ts e p) (hp : 2 ≤ p) : Assigns el ts e := by
  intro rest hrest
  have hprec := hrest.prec
  obtain ⟨t, hcur, ht⟩ := cur_eq el rest
  apply Gives.succ
  simp only [parseAssign]
  refine .bind (h 2 rest e _ (by omega) hrest.closed (by omega)
    (binopLoop_end (by omega) e)) ?_
  refine .bind (.of_eq hcur) ?_
  simp only [ht, hrest.assign, if_false]
  exact .pure

theorem Assigns.parseExpr (h : Assigns el ts e) (hrest : Ends rest) :
    Gives parseExpr ⟨ts ++ rest, el⟩ e ⟨rest, el⟩ := by
  apply Gives.succ
  simp only [Tinc.parseExpr]
  exact h rest hrest

theorem Assigns.toPrimary (h : Assigns el inner e) (l l' : Nat) :
    Primary el (⟨.lparen, l⟩ :: inner ++ [⟨.rparen, l'⟩]) e := by
  intro rest
  have hparen : Ends (⟨.rparen, l'⟩ :: rest) := ⟨⟨nofun, nofun⟩, rfl, nofun⟩
  apply Gives.succ
  simp only [parsePrimary, List.cons_append, List.append_assoc, List.nil_append]
  refine .bind (.of_eq cur_cons) ?_
  refine .bind (.of_eq advance_cons) ?_
  exact .bind (h.parseExpr hparen) (.bind (.of_eq (expect_cons ")")) .pure)

theorem Binary.mono {p q : Nat} (h : Binary el ts e q) (hpq : p ≤ q) : Binary el ts e p := by
  intro m rest n s' hm hrest hprec hloop
  exact h m rest n s' (by omega) hrest (by omega) hloop

/-! ## Trees -/

section Trees

variable (el ts e)

/-- What the functions do with a tree that is written without parentheses around it. -/
structure Parsed : Prop where
  starts : Starts ts e.level
  toPostfix : 13 ≤ e.level → Postfix el ts e
  unary : 12 ≤ e.level → Unary el ts e
  binary : 2 ≤ e.level → Binary el ts e e.level
  assigns : Assigns el ts e

end Trees

theorem Parsed.of_binary (hs : Starts ts e.level) (h : Binary el ts e e.level)
    (h2 : 2 ≤ e.level) (h12 : e.level < 12) : Parsed el ts e where
  starts := hs
  toPostfix hlevel := absurd hlevel (by omega)
  unary hlevel := absurd hlevel (by omega)
  binary _ := h
  assigns := h.toAssigns h2

theorem Parsed.of_unary (hs : Starts ts e.level) (h : Unary el ts e) (h12 : e.level = 12) :
    Parsed el ts e where
  starts := hs
  toPostfix hlevel := absurd hlevel (by omega)
  unary _ := h
  binary _ := h.toBinary _
  assigns := (h.toBinary 2).toAssigns (Nat.le_refl 2)

theorem Parsed.of_postfixed (hs : Starts ts e.level) (h : Postfix el ts e) (h13 : 13 ≤ e.level) :
    Parsed el ts e :=
  have hu : Unary el ts e := h.toUnary ⟨hs.rparen, fun _ => hs.unary h13⟩
  { starts := hs
    toPostfix := fun _ => h
    unary := fun _ => hu
    binary := fun _ => hu.toBinary _
    assigns := (hu.toBinary 2).toAssigns (Nat.le_refl 2) }

/-! ### In parentheses -/

section InParens

variable {p : Nat} (h : ∀ inner, e.Bare inner → Parsed el inner e)

include h

theorem InParens.starts (hw : InParens p e.level e.Bare ts) : Starts ts p := by
  unfold InParens at hw
  split_ifs at hw with hp
  · have hs := (h ts hw).starts
    exact ⟨hs.rparen, fun h13 => hs.unary (Nat.le_trans h13 hp)⟩
  · obtain ⟨inner, l, l', -, rfl⟩ := hw
    exact ⟨⟨_, _, rfl, nofun⟩, fun _ => ⟨_, _, rfl, rfl, nofun⟩⟩

theorem InParens.cases (hw : InParens p e.level e.Bare ts) :
    p ≤ e.level ∧ Parsed el ts e ∨ Postfix el ts e ∧ Starts ts 13 := by
  unfold InParens at hw
  split_ifs at hw with hp
  · exact .inl ⟨hp, h ts hw⟩
  · obtain ⟨inner, l, l', hinner, rfl⟩ := hw
    exact .inr ⟨((h inner hinner).assigns.toPrimary l l').toPostfix,
      ⟨_, _, rfl, nofun⟩, fun _ => ⟨_, _, rfl, rfl, nofun⟩⟩

theorem InParens.toPostfix (hw : InParens 13 e.level e.Bare ts) : Postfix el ts e := by
  rcases InParens.cases h hw with ⟨hp, hts⟩ | ⟨hpost, -⟩
  · exact hts.toPostfix hp
  · exact hpost

theorem InParens.toUnary (hw : InParens 12 e.level e.Bare ts) : Unary el ts e := by
  rcases InParens.cases h hw with ⟨hp, hts⟩ | ⟨hpost, hs⟩
  · exact hts.unary hp
  · exact hpost.toUnary hs

theorem InParens.toBinary (hp2 : 2 ≤ p) (hw : InParens p e.level e.Bare ts) :
    Binary el ts e p := by
  rcases InParens.cases h hw with ⟨hp, hts⟩ | ⟨hpost, hs⟩
  · exact (hts.binary (Nat.le_trans hp2 hp)).mono hp
  · exact (hpost.toUnary hs).toBinary p

theorem InParens.toAssigns (hw : InParens 1 e.level e.Bare ts) : Assigns el ts e := by
  rcases InParens.cases h hw with ⟨-, hts⟩ | ⟨hpost, hs⟩
  · exact hts.assigns
  · exact ((hpost.toUnary hs).toBinary 2).toAssigns (Nat.le_refl 2)

end InParens

/-! ### Each kind of node -/

theorem Starts.append {level level' : Nat} (h : Starts ts level) (hlevel : 13 ≤ level' → 13 ≤ level)
    (us : List Token) : Starts (ts ++ us) level' := by
  refine ⟨?_, fun h13 => ?_⟩
  · obtain ⟨t, ts', rfl, ht⟩ := h.rparen
    exact ⟨t, ts' ++ us, rfl, ht⟩
  · obtain ⟨t, ts', rfl, ht⟩ := h.unary (hlevel h13)
    exact ⟨t, ts' ++ us, rfl, ht⟩

theorem parsed_token (hlevel : 13 ≤ e.level) (hr : t.tok ≠ .rparen)
    (hu : Tinc.unop t.tok = none ∧ t.tok ≠ .plus)
    (h : ∀ fuel rest, parsePrimary (fuel + 1) ⟨t :: rest, el⟩ = .ok (e, ⟨rest, el⟩)) :
    Parsed el [t] e :=
  have hprimary : Primary el [t] e := fun rest => .succ (.of_forall fun fuel => h fuel rest)
  .of_postfixed ⟨⟨t, [], rfl, hr⟩, fun _ => ⟨t, [], rfl, hu⟩⟩ hprimary.toPostfix hlevel

theorem parsed_index {l' : Nat} (hsa : Starts ta 13) (ha : Postfix el ta a) (hb : Assigns el tb b) :
    Parsed el (ta ++ ⟨.lbrack, l⟩ :: tb ++ [⟨.rbrack, l'⟩]) (.index l a b) := by
  refine .of_postfixed ?_ (fun rest n s' hloop => ?_) (Nat.le_refl 13)
  · exact (hsa.append (fun _ => Nat.le_refl 13) _).append (fun h => h) _
  have hbrack : Ends (⟨.rbrack, l'⟩ :: rest) := ⟨⟨nofun, nofun⟩, rfl, nofun⟩
  simp only [List.append_assoc, List.cons_append, List.nil_append]
  refine ha _ n s' (.succ ?_)
  simp only [postfixLoop]
  refine .bind (.of_eq cur_cons) ?_
  simp only [if_true]
  refine .bind (.of_eq advance_cons) ?_
  refine .bind (hb.parseExpr hbrack) ?_
  exact .bind (.of_eq (expect_cons "]")) hloop

theorem parsed_call {tf targs : List Token} {l' : Nat} {args : Args} (hsf : Starts tf 13)
    (hf : Postfix el tf a) (hargs : ∀ rest, nextTok rest = .rparen →
      Gives parseArgs ⟨targs ++ rest, el⟩ args ⟨rest, el⟩) :
    Parsed el (tf ++ ⟨.lparen, l⟩ :: targs ++ [⟨.rparen, l'⟩]) (.call l a args) := by
  refine .of_postfixed ?_ (fun rest n s' hloop => ?_) (Nat.le_refl 13)
  · exact (hsf.append (fun _ => Nat.le_refl 13) _).append (fun h => h) _
  simp only [List.append_assoc, List.cons_append, List.nil_append]
  refine hf _ n s' (.succ ?_)
  simp only [postfixLoop]
  refine .bind (.of_eq cur_cons) ?_
  simp only [reduceCtorEq, if_false, if_true]
  refine .bind (.of_eq advance_cons) ?_
  refine .bind (hargs _ rfl) ?_
  exact .bind (.of_eq (expect_cons ")")) hloop

theorem parsed_unop (op : UnOp) (ha : Unary el ta a) :
    Parsed el (⟨op.tok, l⟩ :: ta) (.unop l op a) := by
  refine .of_unary ⟨⟨_, _, rfl, ?_⟩, fun h13 => absurd h13 (show ¬ 13 ≤ 12 by decide)⟩
    (fun rest hrest => ?_) rfl
  · cases op <;> nofun
  have hplus : op.tok ≠ .plus := by cases op <;> nofun
  apply Gives.succ
  simp only [parseUnary, List.cons_append]
  refine .bind (.of_eq cur_cons) ?_
  simp only [hplus, if_false, unop_tok]
  refine .bind (.of_eq advance_cons) ?_
  exact .bind (ha rest hrest) .pure

theorem parsed_binop {op : BinOp} (hsa : Starts ta op.prec) (ha : Binary el ta a op.prec)
    (hb : Binary el tb b (op.prec + 1)) :
    Parsed el (ta ++ ⟨op.tok, l⟩ :: tb) (.binop l op a b) := by
  have hbounds := op.prec_bounds
  refine .of_binary ?_ ?_ hbounds.1 (Nat.lt_succ_of_le hbounds.2)
  · exact hsa.append (fun h => h) _
  intro m rest n s' hm hrest hprec hloop
  have hlevel : (Expr.binop l op a b).level = op.prec := rfl
  rw [hlevel] at hm hprec
  have hopen : NoPostfix (⟨op.tok, l⟩ :: (tb ++ rest)) := by
    cases op <;> exact ⟨nofun, nofun⟩
  have hop : binopPrec (nextTok (⟨op.tok, l⟩ :: (tb ++ rest))) = op.prec := binopPrec_tok op
  simp only [List.append_assoc, List.cons_append]
  refine ha m _ n s' hm hopen (Int.le_of_eq hop) (.succ ?_)
  simp only [binopLoop]
  refine .bind (.of_eq cur_cons) ?_
  simp only [binopPrec_tok, binop_tok, if_neg (Int.not_lt.2 hm)]
  refine .bind (.of_eq advance_cons) ?_
  -- the right operand ends where an operator of this precedence follows
  exact .bind (hb _ rest b _ (by omega) hrest (by omega) (binopLoop_end (by omega) b)) hloop

theorem parsed_assign (hsa : Starts ta 2) (ha : Binary el ta a 2) (hb : Assigns el tb b) :
    Parsed el (ta ++ ⟨.assign, l⟩ :: tb) (.assign l a b) where
  starts := hsa.append (fun h => absurd h (show ¬ 13 ≤ 1 by decide)) _
  toPostfix h := absurd h (show ¬ 13 ≤ 1 by decide)
  unary h := absurd h (show ¬ 12 ≤ 1 by decide)
  binary h := absurd h (show ¬ 2 ≤ 1 by decide)
  assigns := by
    intro rest hrest
    have hopen : NoPostfix (⟨.assign, l⟩ :: (tb ++ rest)) := ⟨nofun, nofun⟩
    have hprec : binopPrec (nextTok (⟨.assign, l⟩ :: (tb ++ rest))) = -1 := rfl
    apply Gives.succ
    simp only [parseAssign, List.append_assoc, List.cons_append]
    refine .bind (ha 2 _ a _ (by decide) hopen (by omega) (binopLoop_end (by omega) a)) ?_
    refine .bind (.of_eq cur_cons) ?_
    simp only [if_true]
    refine .bind (.of_eq advance_cons) ?_
    exact .bind (hb rest hrest) .pure

/-! ### Arguments -/

theorem argsLoop_last (ha : Assigns el ts a) (hrest : nextTok rest = .rparen) :
    Gives argsLoop ⟨ts ++ rest, el⟩ (.cons a .nil) ⟨rest, el⟩ := by
  have hends : Ends rest := by
    refine ⟨⟨?_, ?_⟩, ?_, ?_⟩ <;> rw [hrest] <;> first | rfl | nofun
  have hcomma : nextTok rest ≠ .comma := by rw [hrest]; nofun
  apply Gives.succ
  simp only [argsLoop]
  refine .bind (ha rest hends) ?_
  exact .bind (.of_eq (accept_ne hcomma)) .pure

theorem argsLoop_comma {next : Args} (ha : Assigns el ts a)
    (hnext : Gives argsLoop ⟨tb ++ rest, el⟩ next ⟨rest, el⟩) :
    Gives argsLoop ⟨ts ++ ⟨.comma, l⟩ :: tb ++ rest, el⟩ (.cons a next) ⟨rest, el⟩ := by
  have hends : Ends (⟨.comma, l⟩ :: (tb ++ rest)) := ⟨⟨nofun, nofun⟩, rfl, nofun⟩
  apply Gives.succ
  simp only [argsLoop, List.append_assoc, List.cons_append]
  refine .bind (ha _ hends) ?_
  refine .bind (.of_eq accept_cons) ?_
  simp only [if_true]
  exact .bind hnext .pure

theorem parseArgs_loop {args : Args} {s' : Parser} (hs : Starts ts 1)
    (hloop : Gives argsLoop ⟨ts ++ rest, el⟩ args s') :
    Gives parseArgs ⟨ts ++ rest, el⟩ args s' := by
  obtain ⟨t, ts', rfl, ht⟩ := hs.rparen
  apply Gives.succ
  simp only [parseArgs]
  refine .bind (.of_eq cur_cons) ?_
  simp only [ne_eq, ht, not_false_eq_true, if_true]
  exact hloop

theorem parseArgs_none (hrest : nextTok rest = .rparen) :
    Gives parseArgs ⟨[] ++ rest, el⟩ .nil ⟨rest, el⟩ := by
  obtain ⟨t, hcur, ht⟩ := cur_eq el rest
  apply Gives.succ
  simp only [parseArgs, List.nil_append]
  refine .bind (.of_eq hcur) ?_
  simp only [ht, hrest, ne_eq, not_true_eq_false, if_false]
  exact .pure

/-! ## The round trip -/

mutual

theorem bare_parsed (el : Nat) : ∀ (e : Expr) (ts : List Token), e.Bare ts → Parsed el ts e
  | .num l v, ts, h => by
    subst h
    exact parsed_token (Nat.le_succ 13) nofun ⟨rfl, nofun⟩ fun _ _ => rfl
  | .charlit l v, ts, h => by
    subst h
    exact parsed_token (Nat.le_succ 13) nofun ⟨rfl, nofun⟩ fun _ _ => rfl
  | .str l text, ts, h => by
    subst h
    exact parsed_token (Nat.le_succ 13) nofun ⟨rfl, nofun⟩ fun _ _ => rfl
  | .name l x, ts, h => by
    subst h
    exact parsed_token (Nat.le_succ 13) nofun ⟨rfl, nofun⟩ fun _ _ => rfl
  | .index l a b, ts, h => by
    obtain ⟨ta, tb, l', ha, hb, rfl⟩ := h
    have hpa := bare_parsed el a
    have hpb := bare_parsed el b
    exact parsed_index (InParens.starts hpa ha) (InParens.toPostfix hpa ha)
      (InParens.toAssigns hpb hb)
  | .call l f args, ts, h => by
    obtain ⟨tf, targs, l', hf, hargs, rfl⟩ := h
    have hpf := bare_parsed el f
    exact parsed_call (InParens.starts hpf hf) (InParens.toPostfix hpf hf)
      (args_parsed el args targs hargs).1
  | .unop l op a, ts, h => by
    obtain ⟨ta, ha, rfl⟩ := h
    exact parsed_unop op (InParens.toUnary (bare_parsed el a) ha)
  | .binop l op a b, ts, h => by
    obtain ⟨ta, tb, ha, hb, rfl⟩ := h
    have hpa := bare_parsed el a
    have hpb := bare_parsed el b
    have h2 := op.prec_bounds.1
    exact parsed_binop (InParens.starts hpa ha) (InParens.toBinary hpa h2 ha)
      (InParens.toBinary hpb (Nat.le_succ_of_le h2) hb)
  | .assign l a b, ts, h => by
    obtain ⟨ta, tb, ha, hb, rfl⟩ := h
    have hpa := bare_parsed el a
    have hpb := bare_parsed el b
    exact parsed_assign (InParens.starts hpa ha) (InParens.toBinary hpa (Nat.le_refl 2) ha)
      (InParens.toAssigns hpb hb)

theorem args_parsed (el : Nat) : ∀ (args : Args) (ts : List Token), args.Bare ts →
    (∀ rest, nextTok rest = .rparen → Gives parseArgs ⟨ts ++ rest, el⟩ args ⟨rest, el⟩) ∧
      (args ≠ .nil → Starts ts 1 ∧
        ∀ rest, nextTok rest = .rparen → Gives argsLoop ⟨ts ++ rest, el⟩ args ⟨rest, el⟩)
  | .nil, ts, h => by
    subst h
    exact ⟨fun rest hrest => parseArgs_none hrest, fun hnil => absurd rfl hnil⟩
  | .cons a .nil, ts, h => by
    have hpa := bare_parsed el a
    have hs := InParens.starts hpa h
    have hloop := fun rest (hrest : nextTok rest = .rparen) =>
      argsLoop_last (InParens.toAssigns hpa h) hrest
    exact ⟨fun rest hrest => parseArgs_loop hs (hloop rest hrest), fun _ => ⟨hs, hloop⟩⟩
  | .cons a (.cons b next), ts, h => by
    obtain ⟨ta, tb, l, ha, hb, rfl⟩ := h
    have hpa := bare_parsed el a
    have hnext := ((args_parsed el (.cons b next) tb hb).2 nofun).2
    have hs : Starts _ 1 := (InParens.starts hpa ha).append (fun h => h) (⟨.comma, l⟩ :: tb)
    have hloop := fun rest (hrest : nextTok rest = .rparen) =>
      argsLoop_comma (l := l) (InParens.toAssigns hpa ha) (hnext rest hrest)
    exact ⟨fun rest hrest => parseArgs_loop hs (hloop rest hrest), fun _ => ⟨hs, hloop⟩⟩

end

theorem InParens.of_le {p level : Nat} {bare : List Token → Prop} (hp : p ≤ level)
    (h : bare ts) : InParens p level bare ts := by
  rw [InParens, if_pos hp]
  exact h

theorem InParens.exists {p level : Nat} {bare : List Token → Prop} (h : ∃ ts, bare ts) :
    ∃ ts, InParens p level bare ts := by
  obtain ⟨ts, hts⟩ := h
  by_cases hp : p ≤ level
  · exact ⟨ts, .of_le hp hts⟩
  · refine ⟨⟨.lparen, 0⟩ :: ts ++ [⟨.rparen, 0⟩], ?_⟩
    rw [InParens, if_neg hp]
    exact ⟨ts, 0, 0, hts, rfl⟩

mutual

theorem bare_exists : ∀ e : Expr, ∃ ts, e.Bare ts
  | .num l v => ⟨_, rfl⟩
  | .charlit l v => ⟨_, rfl⟩
  | .str l text => ⟨_, rfl⟩
  | .name l x => ⟨_, rfl⟩
  | .index l a b => by
    obtain ⟨ta, ha⟩ := InParens.exists (bare_exists a)
    obtain ⟨tb, hb⟩ := InParens.exists (bare_exists b)
    exact ⟨_, ta, tb, 0, ha, hb, rfl⟩
  | .call l f args => by
    obtain ⟨tf, hf⟩ := InParens.exists (bare_exists f)
    obtain ⟨targs, hargs⟩ := args_exists args
    exact ⟨_, tf, targs, 0, hf, hargs, rfl⟩
  | .unop l op a => by
    obtain ⟨ta, ha⟩ := InParens.exists (bare_exists a)
    exact ⟨_, ta, ha, rfl⟩
  | .binop l op a b => by
    obtain ⟨ta, ha⟩ := InParens.exists (bare_exists a)
    obtain ⟨tb, hb⟩ := InParens.exists (bare_exists b)
    exact ⟨_, ta, tb, ha, hb, rfl⟩
  | .assign l a b => by
    obtain ⟨ta, ha⟩ := InParens.exists (bare_exists a)
    obtain ⟨tb, hb⟩ := InParens.exists (bare_exists b)
    exact ⟨_, ta, tb, ha, hb, rfl⟩

theorem args_exists : ∀ args : Args, ∃ ts, args.Bare ts
  | .nil => ⟨_, rfl⟩
  | .cons a .nil => InParens.exists (bare_exists a)
  | .cons a (.cons b next) => by
    obtain ⟨ta, ha⟩ := InParens.exists (bare_exists a)
    obtain ⟨tb, hb⟩ := args_exists (.cons b next)
    exact ⟨_, ta, tb, 0, ha, hb, rfl⟩

end

/-- Every tree can be written, and `parse_expr` on what was written, with anything behind it that
does not go on with an expression, gives the tree and leaves what is behind it. -/
theorem parseExpr_writes (e : Expr) (eofLine : Nat) :
    (∃ ts, Writes 1 e ts) ∧
      ∀ ts rest, Writes 1 e ts → Ends rest →
        ∃ n, ∀ fuel, n ≤ fuel →
          parseExpr fuel ⟨ts ++ rest, eofLine⟩ = .ok (e, ⟨rest, eofLine⟩) := by
  refine ⟨InParens.exists (bare_exists e), fun ts rest hw hrest => ?_⟩
  have hassigns := InParens.toAssigns (bare_parsed eofLine e) hw
  exact (hassigns.parseExpr hrest).exists_bound

/-- `a - -b`, with the tokens on one line. -/
def minusNegated : Expr := .binop 1 .minus (.name 1 "a") (.unop 1 .minus (.name 1 "b"))

def minusNegatedToks : List Token := [⟨.ident "a", 1⟩, ⟨.minus, 1⟩, ⟨.minus, 1⟩, ⟨.ident "b", 1⟩]

theorem parseExpr_writes_minus : ∃ n, ∀ fuel, n ≤ fuel →
    parseExpr fuel ⟨minusNegatedToks ++ [], 1⟩ = .ok (minusNegated, ⟨[], 1⟩) := by
  refine (parseExpr_writes minusNegated 1).2 minusNegatedToks [] ?_ ⟨⟨nofun, nofun⟩, rfl, nofun⟩
  have hunop : (Expr.unop 1 .minus (.name 1 "b")).Bare [⟨.minus, 1⟩, ⟨.ident "b", 1⟩] :=
    ⟨[⟨.ident "b", 1⟩], .of_le (by decide) rfl, rfl⟩
  exact .of_le (by decide) ⟨[⟨.ident "a", 1⟩], [⟨.minus, 1⟩, ⟨.ident "b", 1⟩],
    .of_le (by decide) rfl, .of_le (by decide) hunop, rfl⟩

end MechanicalResearcher.PortableCompiler.Tinc
