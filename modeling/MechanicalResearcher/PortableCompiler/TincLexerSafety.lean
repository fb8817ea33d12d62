import Mathlib.Data.List.TakeWhile
import MechanicalResearcher.PortableCompiler.TincLexer

/-!
# The TinC lexer at the end of the text

`Skips` says what white space and comments are, and `Cut` where a literal ends too early for the
code: behind a quote, or behind a backslash.  A call stays inside the text exactly when the text
that is left is not cut.
-/

namespace MechanicalResearcher.PortableCompiler.Tinc

open Lib Lib.Evaluation Lib.Scanner

/-! ## White space and comments -/

/-- From behind `/*` to behind `*/`, or to the end of the text. -/
inductive InComment : List UInt8 → List UInt8 → Prop
  | nul {r : List UInt8} (h : r.head?.getD 0 = 0) : InComment r r
  | close {r : List UInt8} : InComment (ch '*' :: ch '/' :: r) r
  | char {c : UInt8} {r r' : List UInt8} (h0 : c ≠ 0)
      (hopen : c = ch '*' → r.head? ≠ some (ch '/')) (h : InComment r r') : InComment (c :: r) r'

/-- What white space and comments leave of a text. -/
inductive Skips : List UInt8 → List UInt8 → Prop
  | done {r : List UInt8} : Skips r r
  | white {c : UInt8} {r r' : List UInt8} (hc : isBlank c ∨ c = newlineChar) (h : Skips r r') :
      Skips (c :: r) r'
  | line {text r r' : List UInt8} (htext : ∀ c ∈ text, inLine c = true)
      (hend : r.head?.getD 0 = 0 ∨ r.head? = some newlineChar) (h : Skips r r') :
      Skips (ch '/' :: ch '/' :: text ++ r) r'
  | block {text r r' : List UInt8} (htext : InComment text r) (h : Skips r r') :
      Skips (ch '/' :: ch '*' :: text) r'

variable {r r' : List UInt8} {c : UInt8} {l : Nat} {s s' : Cursor}

theorem InComment.suffix (h : InComment r r') : r' <:+ r := by
  induction h with
  | nul h => exact List.suffix_refl _
  | close => exact ⟨[ch '*', ch '/'], rfl⟩
  | char h0 hopen h ih => exact ih.trans (List.suffix_cons _ _)

theorem Skips.suffix (h : Skips r r') : r' <:+ r := by
  induction h with
  | done => exact List.suffix_refl _
  | white hc h ih => exact ih.trans (List.suffix_cons _ _)
  | line htext hend h ih => exact ih.trans (List.suffix_append _ _)
  | block htext h ih =>
    exact ih.trans (htext.suffix.trans (List.suffix_append [ch '/', ch '*'] _))

/-! ### Loops over one kind of character -/

section SkipWhile

variable {p : UInt8 → Bool}

theorem skipWhile_step (hp : p 0 = false) (a : Unit) :
    (fun (_ : Unit) c => if p c then some () else none) a 0 = none := by
  simp only [hp]
  rfl

theorem skipWhile_eq (hp : p 0 = false) (r : List UInt8) (l : Nat) :
    skipWhile p ⟨r, l⟩ = .ok ((), ⟨r.dropWhile p, l⟩) := by
  rw [skipWhile, scanWhile_eq (skipWhile_step hp)]
  suffices h : (spanWith (fun (_ : Unit) c => if p c then some () else none) () r).2 =
      r.dropWhile p by rw [h]
  induction r with
  | nil => rfl
  | cons c r ih =>
    rw [spanWith, List.dropWhile_cons]
    cases hc : p c with
    | false => rfl
    | true => exact ih

end SkipWhile

/-! ### Comments -/

theorem peek_zero_eq : peek 0 ⟨r, l⟩ = .ok (r.head?.getD 0, ⟨r, l⟩) := by
  cases r with
  | nil => rfl
  | cons c r => rfl

theorem peek_one_eq : peek 1 ⟨c :: r, l⟩ = .ok (r.head?.getD 0, ⟨c :: r, l⟩) := by
  cases r with
  | nil => rfl
  | cons d r => rfl

theorem commentBody_nul (h : r.head?.getD 0 = 0) :
    commentBody ⟨r, l⟩ = .ok (none, ⟨r, l⟩) := by
  rw [commentBody, bind_apply, peek_zero_eq]
  simp only [h, if_true, pure_apply]

theorem commentChar_eq :
    ∃ l', commentChar c ⟨c :: r, l⟩ = .ok (some (), ⟨r, l'⟩) := by
  unfold commentChar
  by_cases hc : c = newlineChar
  · refine ⟨l + 1, ?_⟩
    simp only [hc, if_true, bind_apply, newline_apply, skip_one_cons, pure_apply]
  · refine ⟨l, ?_⟩
    simp only [hc, if_false, bind_apply, skip_one_cons, pure_apply]

theorem commentBody_char (h0 : c ≠ 0) (hopen : c = ch '*' → r.head? ≠ some (ch '/')) :
    ∃ l', commentBody ⟨c :: r, l⟩ = .ok (some (), ⟨r, l'⟩) := by
  obtain ⟨l', hchar⟩ := commentChar_eq (c := c) (r := r) (l := l)
  refine ⟨l', ?_⟩
  rw [commentBody, bind_apply, peek_zero_cons]
  simp only [h0, if_false]
  by_cases hstar : c = ch '*'
  · have hnext : r.head?.getD 0 ≠ ch '/' := by
      intro hd
      cases r with
      | nil => exact absurd hd (by decide)
      | cons d r => exact hopen hstar (congrArg some hd)
    rw [if_pos hstar, bind_apply, peek_one_eq]
    simp only [hnext, if_false]
    exact hchar
  · rw [if_neg hstar]
    exact hchar

theorem comment_eq (h : InComment r r') : ∃ l', comment ⟨r, l⟩ = .ok ((), ⟨r', l'⟩) := by
  suffices hloop : ∀ fuel, r.length < fuel → ∃ r1 l', loopM (fun _ => commentBody) fuel () ⟨r, l⟩ =
      .ok ((), ⟨r1, l'⟩) ∧ (r1.head?.getD 0 = 0 ∧ r1 = r' ∨ r1 = ch '*' :: ch '/' :: r') by
    obtain ⟨r1, l', hrun, hend⟩ := hloop _ (Nat.lt_succ_self _)
    refine ⟨l', ?_⟩
    rw [comment, bind_apply, loop, hrun]
    simp only [bind_apply, peek_zero_eq]
    rcases hend with ⟨h0, rfl⟩ | rfl
    · rw [h0]
      rfl
    · exact skip_two_cons
  induction h generalizing l with
  | nul h =>
    intro fuel hfuel
    obtain ⟨fuel, rfl⟩ := Nat.exists_eq_succ_of_ne_zero (Nat.ne_zero_of_lt hfuel)
    refine ⟨_, l, ?_, .inl ⟨h, rfl⟩⟩
    rw [loopM, bind_apply, commentBody_nul h]
    rfl
  | close =>
    intro fuel hfuel
    obtain ⟨fuel, rfl⟩ := Nat.exists_eq_succ_of_ne_zero (Nat.ne_zero_of_lt hfuel)
    exact ⟨_, l, rfl, .inr rfl⟩
  | char h0 hopen h ih =>
    intro fuel hfuel
    obtain ⟨fuel, rfl⟩ := Nat.exists_eq_succ_of_ne_zero (Nat.ne_zero_of_lt hfuel)
    obtain ⟨l', hchar⟩ := commentBody_char (l := l) h0 hopen
    obtain ⟨r1, l'', hrun, hend⟩ := ih (l := l') fuel (Nat.lt_of_succ_lt_succ hfuel)
    refine ⟨r1, l'', ?_, hend⟩
    rw [loopM, bind_apply, hchar]
    exact hrun

theorem inComment_exists (r : List UInt8) : ∃ r', InComment r r' := by
  induction r with
  | nil => exact ⟨[], .nul rfl⟩
  | cons c r ih =>
    by_cases h0 : c = 0
    · exact ⟨c :: r, .nul h0⟩
    by_cases hclose : c = ch '*' ∧ r.head? = some (ch '/')
    · obtain ⟨rfl, hd⟩ := hclose
      obtain ⟨r1, rfl⟩ : ∃ r1, r = ch '/' :: r1 := by
        cases r with
        | nil => cases hd
        | cons d r1 => exact ⟨r1, by rw [Option.some.inj hd]⟩
      exact ⟨r1, .close⟩
    · obtain ⟨r', h⟩ := ih
      exact ⟨r', .char h0 (fun hc hd => hclose ⟨hc, hd⟩) h⟩

/-! ### The loop of `skip_ws` -/

/-- A text at which `skip_ws` stops. -/
structure Stops (r : List UInt8) : Prop where
  head : ∀ c r', r = c :: r' → isBlank c = false ∧ c ≠ newlineChar
  line : ∀ r', r ≠ ch '/' :: ch '/' :: r'
  block : ∀ r', r ≠ ch '/' :: ch '*' :: r'

theorem skipBlank_stops (h : Stops r) : skipWhile isBlank ⟨r, l⟩ = .ok ((), ⟨r, l⟩) := by
  rw [skipWhile_eq rfl]
  cases r with
  | nil => rfl
  | cons c r => rw [List.dropWhile_cons_of_neg (by rw [(h.head c r rfl).1]; decide)]

theorem skipWsBody_stops (h : Stops r) : skipWsBody ⟨r, l⟩ = .ok (none, ⟨r, l⟩) := by
  rw [skipWsBody, bind_apply, skipBlank_stops h]
  simp only [bind_apply, peek_zero_eq]
  cases r with
  | nil => rfl
  | cons c r =>
    have hnl : ((c :: r).head?.getD 0) ≠ newlineChar := (h.head c r rfl).2
    rw [if_neg hnl]
    by_cases hslash : c = ch '/'
    · have hline : r.head?.getD 0 ≠ ch '/' := by
        intro hd
        cases r with
        | nil => exact absurd hd (by decide)
        | cons d r => exact h.line r (by rw [hslash, show d = ch '/' from hd])
      have hblock : r.head?.getD 0 ≠ ch '*' := by
        intro hd
        cases r with
        | nil => exact absurd hd (by decide)
        | cons d r => exact h.block r (by rw [hslash, show d = ch '*' from hd])
      rw [if_pos (show (c :: r).head?.getD 0 = ch '/' from hslash), bind_apply, peek_one_eq]
      simp only [hline, hblock, if_false, pure_apply]
    · rw [if_neg (show ¬ (c :: r).head?.getD 0 = ch '/' from hslash)]
      rfl

theorem skipWsBody_blank (hc : isBlank c = true) :
    skipWsBody ⟨c :: r, l⟩ = skipWsBody ⟨r, l⟩ := by
  rw [skipWsBody, bind_apply, bind_apply, skipWhile_eq rfl, skipWhile_eq rfl,
    List.dropWhile_cons_of_pos hc]

theorem skipWsBody_newline :
    skipWsBody ⟨newlineChar :: r, l⟩ = .ok (some (), ⟨r, l + 1⟩) := by
  rw [skipWsBody, bind_apply, skipWhile_eq rfl, List.dropWhile_cons_of_neg (by decide)]
  simp only [bind_apply, peek_zero_cons, if_true, newline_apply, skip_one_cons, pure_apply]

theorem dropWhile_line {text : List UInt8} (htext : ∀ c ∈ text, inLine c = true)
    (hend : r.head?.getD 0 = 0 ∨ r.head? = some newlineChar) :
    (text ++ r).dropWhile inLine = r := by
  induction text with
  | nil =>
    cases r with
    | nil => rfl
    | cons c r =>
      apply List.dropWhile_cons_of_neg
      rcases hend with h0 | hnl
      · rw [show c = 0 from h0]
        decide
      · rw [Option.some.inj hnl]
        decide
  | cons c text ih =>
    rw [List.cons_append, List.dropWhile_cons_of_pos (htext c List.mem_cons_self)]
    exact ih fun d hd => htext d (List.mem_cons_of_mem c hd)

theorem skipWsBody_line {text : List UInt8}
    (htext : ∀ c ∈ text, inLine c = true)
    (hend : r.head?.getD 0 = 0 ∨ r.head? = some newlineChar) :
    skipWsBody ⟨ch '/' :: ch '/' :: text ++ r, l⟩ = .ok (some (), ⟨r, l⟩) := by
  have hslashes : ∀ c ∈ ch '/' :: ch '/' :: text, inLine c = true := by
    intro c hc
    rcases List.mem_cons.1 hc with rfl | hc
    · decide
    · rcases List.mem_cons.1 hc with rfl | hc
      · decide
      · exact htext c hc
  have hdrop := dropWhile_line hslashes hend
  rw [skipWsBody, bind_apply, skipWhile_eq rfl]
  have hblank : (ch '/' :: ch '/' :: text ++ r).dropWhile isBlank =
      ch '/' :: ch '/' :: text ++ r := List.dropWhile_cons_of_neg (by decide)
  rw [hblank]
  simp only [List.cons_append] at hdrop ⊢
  rw [bind_apply, peek_zero_cons]
  simp only []
  rw [if_neg (by decide), if_pos trivial, bind_apply, peek_one_cons]
  simp only []
  rw [if_pos trivial, bind_apply, skipWhile_eq rfl, hdrop]
  rfl

theorem skipWsBody_block {text : List UInt8} (htext : InComment text r) :
    ∃ l', skipWsBody ⟨ch '/' :: ch '*' :: text, l⟩ = .ok (some (), ⟨r, l'⟩) := by
  obtain ⟨l', hcomment⟩ := comment_eq (l := l) htext
  refine ⟨l', ?_⟩
  rw [skipWsBody, bind_apply, skipWhile_eq rfl]
  have hblank : (ch '/' :: ch '*' :: text).dropWhile isBlank = ch '/' :: ch '*' :: text :=
    List.dropWhile_cons_of_neg (by decide)
  rw [hblank]
  simp only []
  rw [bind_apply, peek_zero_cons]
  simp only []
  rw [if_neg (by decide), if_pos trivial, bind_apply, peek_one_cons]
  simp only []
  rw [if_neg (by decide), if_pos trivial]
  simp only [bind_apply, skip_two_cons, hcomment, pure_apply]

theorem skipWs_eq (h : Skips r r') (hstop : Stops r') :
    ∃ l', skipWs ⟨r, l⟩ = .ok ((), ⟨r', l'⟩) := by
  suffices hloop : ∀ fuel, r.length < fuel →
      ∃ l', loopM (fun _ => skipWsBody) fuel () ⟨r, l⟩ = .ok ((), ⟨r', l'⟩) from
    hloop _ (Nat.lt_succ_self _)
  induction h generalizing l with
  | done =>
    intro fuel hfuel
    obtain ⟨fuel, rfl⟩ := Nat.exists_eq_succ_of_ne_zero (Nat.ne_zero_of_lt hfuel)
    exact ⟨l, by rw [loopM, bind_apply, skipWsBody_stops hstop]; rfl⟩
  | white hc h ih =>
    intro fuel hfuel
    obtain ⟨fuel, rfl⟩ := Nat.exists_eq_succ_of_ne_zero (Nat.ne_zero_of_lt hfuel)
    rcases hc with hc | rfl
    · obtain ⟨l', hrun⟩ := ih (l := l) hstop (fuel + 1) (Nat.lt_of_succ_lt hfuel)
      refine ⟨l', ?_⟩
      rw [loopM, bind_apply] at hrun ⊢
      rw [skipWsBody_blank hc]
      exact hrun
    · obtain ⟨l', hrun⟩ := ih (l := l + 1) hstop fuel (Nat.lt_of_succ_lt_succ hfuel)
      refine ⟨l', ?_⟩
      rw [loopM, bind_apply, skipWsBody_newline]
      exact hrun
  | @line text r r' htext hend h ih =>
    intro fuel hfuel
    obtain ⟨fuel, rfl⟩ := Nat.exists_eq_succ_of_ne_zero (Nat.ne_zero_of_lt hfuel)
    have hlen : r.length < fuel := by
      simp only [List.length_append, List.length_cons] at hfuel
      omega
    obtain ⟨l', hrun⟩ := ih (l := l) hstop fuel hlen
    refine ⟨l', ?_⟩
    rw [loopM, bind_apply, skipWsBody_line htext hend]
    exact hrun
  | @block text r r' htext h ih =>
    intro fuel hfuel
    obtain ⟨fuel, rfl⟩ := Nat.exists_eq_succ_of_ne_zero (Nat.ne_zero_of_lt hfuel)
    have hlen : r.length < fuel := by
      have hsuffix := htext.suffix.length_le
      simp only [List.length_cons] at hfuel
      omega
    obtain ⟨l1, hbody⟩ := skipWsBody_block (l := l) htext
    obtain ⟨l', hrun⟩ := ih (l := l1) hstop fuel hlen
    refine ⟨l', ?_⟩
    rw [loopM, bind_apply, hbody]
    exact hrun

theorem skips_exists (r : List UInt8) : ∃ r', Skips r r' ∧ Stops r' := by
  induction hn : r.length using Nat.strongRecOn generalizing r with
  | _ n ih =>
    subst hn
    have hsmaller : ∀ r1 : List UInt8, r1.length < r.length → (∀ r', Skips r1 r' → Skips r r') →
        ∃ r', Skips r r' ∧ Stops r' := by
      intro r1 hlt hlift
      obtain ⟨r', h, hstop⟩ := ih r1.length hlt r1 rfl
      exact ⟨r', hlift r' h, hstop⟩
    by_cases hwhite : ∃ c r1, r = c :: r1 ∧ (isBlank c = true ∨ c = newlineChar)
    · obtain ⟨c, r1, rfl, hc⟩ := hwhite
      exact hsmaller r1 (Nat.lt_succ_self _) fun r' h => .white hc h
    by_cases hline : ∃ r1, r = ch '/' :: ch '/' :: r1
    · obtain ⟨r1, rfl⟩ := hline
      have hsplit := List.takeWhile_append_dropWhile
        (p := inLine) (l := r1)
      refine hsmaller (r1.dropWhile inLine) ?_ fun r' h => ?_
      · have hle := (List.dropWhile_suffix (l := r1) inLine).length_le
        simp only [List.length_cons]
        omega
      · rw [← hsplit]
        refine .line (fun c hc => List.mem_takeWhile_imp hc) ?_ h
        cases hd : r1.dropWhile inLine with
        | nil => exact .inl rfl
        | cons c r2 =>
          have hfalse := List.head?_dropWhile_not inLine r1
          rw [hd] at hfalse
          by_cases h0 : c = 0
          · exact .inl h0
          · refine .inr (congrArg some ?_)
            simpa [inLine, h0] using hfalse
    by_cases hblock : ∃ r1, r = ch '/' :: ch '*' :: r1
    · obtain ⟨text, rfl⟩ := hblock
      obtain ⟨r1, htext⟩ := inComment_exists text
      have hle := htext.suffix.length_le
      refine hsmaller r1 ?_ fun r' h => .block htext h
      simp only [List.length_cons]
      omega
    refine ⟨r, .done, ?_, fun r' h => hline ⟨r', h⟩, fun r' h => hblock ⟨r', h⟩⟩
    intro c r' hr
    refine ⟨?_, fun hc => hwhite ⟨c, r', hr, .inr hc⟩⟩
    rw [← Bool.not_eq_true]
    exact fun hc => hwhite ⟨c, r', hr, .inl hc⟩

/-! ## Literals -/

/-- What an escape that the code knows leaves of the text behind its backslash. -/
inductive Escape : List UInt8 → List UInt8 → Prop
  | simple {c : UInt8} {r : List UInt8} (hc : (escapes.lookup c).isSome) : Escape (c :: r) r
  | hex1 {c : UInt8} {r : List UInt8} (h1 : (hexDigit c).isSome)
      (h2 : ∀ d ∈ r.head?, hexDigit d = none) : Escape (ch 'x' :: c :: r) r
  | hex2 {c d : UInt8} {r : List UInt8} (h1 : (hexDigit c).isSome)
      (h2 : (hexDigit d).isSome) : Escape (ch 'x' :: c :: d :: r) r

/-- The text behind the quote of a string that ends with a lone backslash. -/
inductive StringCut : List UInt8 → Prop
  | last : StringCut [backslash]
  | char {c : UInt8} {r : List UInt8} (hc : c ≠ 0 ∧ c ≠ dquote ∧ c ≠ backslash ∧ c ≠ newlineChar)
      (h : StringCut r) : StringCut (c :: r)
  | escape {r r' : List UInt8} (he : Escape r r') (h : StringCut r') : StringCut (backslash :: r)

/-- A text with nothing behind a quote, or behind a backslash of a literal. -/
inductive LiteralCut : List UInt8 → Prop
  | quote : LiteralCut [squote]
  | escape : LiteralCut [squote, backslash]
  | string {r : List UInt8} (h : StringCut r) : LiteralCut (dquote :: r)

/-- The next call meets such a literal. -/
def Cut (r : List UInt8) : Prop := ∃ r', Skips r r' ∧ LiteralCut r'

/-- The cursor has moved over at least `n` characters. -/
def Ahead (n : Nat) (s : Cursor) : Cursor → Prop := fun s' =>
  s'.rest <:+ s.rest ∧ s'.rest.length + n ≤ s.rest.length

theorem hexDigit_zero : hexDigit 0 = none := by decide

theorem Escape.ahead {m : Nat} (h : Escape r r') : Ahead 1 ⟨r, l⟩ ⟨r', m⟩ := by
  cases h with
  | simple hc => exact ⟨List.suffix_cons _ _, Nat.le_refl _⟩
  | hex1 h1 h2 =>
    exact ⟨List.suffix_append [_, _] _, by simp only [List.length_cons]; omega⟩
  | hex2 h1 h2 =>
    exact ⟨List.suffix_append [_, _, _] _, by simp only [List.length_cons]; omega⟩

theorem hexEscape_safe : Safe hexEscape ⟨r, l⟩ fun _ s' => Escape (ch 'x' :: r) s'.rest := by
  unfold hexEscape
  apply Safe.bind
  cases r with
  | nil => exact .of_eq peek_zero_nil (.die _)
  | cons c r =>
    apply Safe.of_eq peek_zero_cons
    cases h1 : hexDigit c with
    | none => exact .die _
    | some v1 =>
      apply Safe.bind
      apply Safe.of_eq skip_one_cons
      apply Safe.bind
      have hsome1 : (hexDigit c).isSome := by rw [h1]; rfl
      cases r with
      | nil => exact .of_eq peek_zero_nil (.hex1 hsome1 nofun)
      | cons d r =>
        apply Safe.of_eq peek_zero_cons
        cases h2 : hexDigit d with
        | none =>
          refine Safe.pure (.hex1 hsome1 fun c hc => ?_)
          rw [← Option.some.inj hc]
          exact h2
        | some v2 =>
          apply Safe.bind
          apply Safe.of_eq skip_one_cons
          exact .pure (.hex2 hsome1 (by rw [h2]; rfl))

theorem readEscape_safe : Safe readEscape ⟨c :: r, l⟩ fun _ s' => Escape (c :: r) s'.rest := by
  unfold readEscape
  apply Safe.bind
  apply Safe.of_eq peek_zero_cons
  apply Safe.bind
  apply Safe.of_eq skip_one_cons
  cases hc : escapes.lookup c with
  | some v => exact .pure (.simple (by rw [hc]; rfl))
  | none =>
    by_cases hx : c = ch 'x'
    · subst hx
      exact hexEscape_safe
    · simp only [hx, if_false]
      exact .die _

theorem readEscape_eq (h : Escape r r') : ∃ v, readEscape ⟨r, l⟩ = .ok (v, ⟨r', l⟩) := by
  cases h with
  | @simple c r hc =>
    obtain ⟨v, hv⟩ := Option.isSome_iff_exists.1 hc
    refine ⟨v, ?_⟩
    simp only [readEscape, bind_apply, peek_zero_cons, skip_one_cons, hv, pure_apply]
  | @hex1 c r h1 h2 =>
    obtain ⟨v, hv⟩ := Option.isSome_iff_exists.1 h1
    refine ⟨v, ?_⟩
    have hx : escapes.lookup (ch 'x') = none := by decide
    simp only [readEscape, hexEscape, bind_apply, peek_zero_cons, skip_one_cons, hx, if_true, hv]
    cases r' with
    | nil => rfl
    | cons d r => simp only [peek_zero_cons, h2 d rfl, pure_apply]
  | @hex2 c d r h1 h2 =>
    obtain ⟨v, hv⟩ := Option.isSome_iff_exists.1 h1
    obtain ⟨w, hw⟩ := Option.isSome_iff_exists.1 h2
    refine ⟨v <<< 4 ||| w, ?_⟩
    have hx : escapes.lookup (ch 'x') = none := by decide
    simp only [readEscape, hexEscape, bind_apply, peek_zero_cons, skip_one_cons, hx, if_true, hv,
      hw, pure_apply]

/-! ### Strings -/

theorem stringBody_safe (buf : List UInt8) (hcut : ¬ StringCut s.rest) :
    Safe (stringBody buf) s fun o s' =>
      match o with
      | some _ => ¬ StringCut s'.rest ∧ Ahead 1 s s'
      | none => s' = s := by
  obtain ⟨r, l⟩ := s
  unfold stringBody
  apply Safe.bind
  cases r with
  | nil => exact .of_eq peek_zero_nil (.pure rfl)
  | cons c r =>
    apply Safe.of_eq peek_zero_cons
    by_cases hend : c = 0 ∨ c = dquote
    · rw [if_pos hend]
      exact .pure rfl
    rw [if_neg hend]
    by_cases hb : c = backslash
    · subst hb
      rw [if_pos rfl]
      apply Safe.bind
      apply Safe.of_eq skip_one_cons
      apply Safe.bind
      cases r with
      | nil => exact absurd .last hcut
      | cons d r =>
        refine readEscape_safe.mono fun v s' he => .pure ?_
        have hahead := he.ahead (l := l) (m := s'.line)
        exact ⟨fun h => hcut (.escape he h), hahead.1.trans (List.suffix_cons _ _),
          Nat.le_succ_of_le hahead.2⟩
    rw [if_neg hb]
    by_cases hnl : c = newlineChar
    · rw [if_pos hnl]
      exact .die _
    rw [if_neg hnl]
    apply Safe.bind
    apply Safe.of_eq skip_one_cons
    refine .pure ⟨fun h => hcut (.char ?_ h), List.suffix_cons _ _, Nat.le_refl _⟩
    exact ⟨fun h => hend (.inl h), fun h => hend (.inr h), hb, hnl⟩

theorem stringLoop_safe (buf : List UInt8) (hcut : ¬ StringCut s.rest) :
    Safe (loop stringBody buf) s fun _ s' => Ahead 0 s s' := by
  refine Safe.loop (I := fun _ t => ¬ StringCut t.rest ∧ Ahead 0 s t) (fun buf t ht => ?_)
    ⟨hcut, List.suffix_refl _, Nat.le_refl _⟩
  refine (stringBody_safe buf ht.1).mono fun o t' h => ?_
  cases o with
  | none =>
    rw [show t' = t from h]
    exact ht.2
  | some buf' =>
    have hlt := h.2.2
    exact ⟨⟨h.1, h.2.1.trans ht.2.1, (h.2.1.trans ht.2.1).length_le⟩, Nat.lt_of_succ_le hlt⟩

theorem stringLoop_cut (hcut : StringCut r) (buf : List UInt8) {fuel : Nat}
    (hfuel : r.length < fuel) : loopM stringBody fuel buf ⟨r, l⟩ = .error .outside := by
  induction hcut generalizing buf fuel with
  | last =>
    obtain ⟨fuel, rfl⟩ := Nat.exists_eq_succ_of_ne_zero (Nat.ne_zero_of_lt hfuel)
    rfl
  | @char c r hc h ih =>
    obtain ⟨fuel, rfl⟩ := Nat.exists_eq_succ_of_ne_zero (Nat.ne_zero_of_lt hfuel)
    obtain ⟨h0, hq, hb, hnl⟩ := hc
    rw [loopM, bind_apply, stringBody]
    simp only [bind_apply, peek_zero_cons, h0, hq, hb, hnl, or_self, if_false, skip_one_cons,
      pure_apply]
    exact ih _ (Nat.lt_of_succ_lt_succ hfuel)
  | @escape r r' he h ih =>
    obtain ⟨fuel, rfl⟩ := Nat.exists_eq_succ_of_ne_zero (Nat.ne_zero_of_lt hfuel)
    obtain ⟨v, hread⟩ := readEscape_eq (l := l) he
    have hlen : r'.length < fuel := by
      have hahead := (he.ahead (l := l) (m := l)).2
      simp only [List.length_cons] at hfuel hahead
      omega
    have hb : ¬ (backslash = 0 ∨ backslash = dquote) := by decide
    rw [loopM, bind_apply, stringBody]
    simp only [bind_apply, peek_zero_cons, hb, if_false, if_true, skip_one_cons, hread,
      pure_apply]
    exact ih _ hlen

/-! ### Tokens -/

theorem Ahead.trans {m n : Nat} {t : Cursor} (h : Ahead m s s') (h' : Ahead n s' t) :
    Ahead (m + n) s t := by
  have hlen := h.2
  have hlen' := h'.2
  exact ⟨h'.1.trans h.1, by omega⟩

theorem identifier_safe (hc : isWord c = true) :
    Safe identifier ⟨c :: r, l⟩ fun _ s' => Ahead 1 ⟨c :: r, l⟩ s' := by
  have hstop : ∀ cs : List UInt8, (if isWord 0 then some (cs ++ [0]) else none) = none := by
    intro cs
    rw [if_neg (by decide)]
  unfold identifier
  apply Safe.bind
  apply scanWhile_safe hstop
  have hfirst := spanWith_suffix (fun cs c => if isWord c then some (cs ++ [c]) else none) [c] r
  refine Safe.pure ?_
  rw [spanWith, if_pos hc]
  exact ⟨hfirst.trans (List.suffix_cons _ _), Nat.succ_le_succ hfirst.length_le⟩

theorem hexPrefix_eq : hexPrefix ⟨c :: r, l⟩ =
    .ok (c == ch '0' && (r.head?.getD 0 == ch 'x' || r.head?.getD 0 == ch 'X'),
      ⟨c :: r, l⟩) := by
  rw [hexPrefix, bind_apply, peek_zero_cons]
  simp only []
  by_cases h0 : c = ch '0'
  · rw [if_pos h0, bind_apply, peek_one_eq, h0]
    rfl
  · rw [if_neg h0, beq_false_of_ne h0]
    rfl

theorem number_safe (hc : isDigit c = true) :
    Safe number ⟨c :: r, l⟩ fun _ s' => Ahead 1 ⟨c :: r, l⟩ s' := by
  have hhex : ∀ n, hexStep n 0 = none := fun n => by rw [hexStep, hexDigit_zero]; rfl
  have hdec : ∀ n, decStep n 0 = none := fun n => if_neg (by decide)
  unfold number
  apply Safe.bind
  apply Safe.of_eq hexPrefix_eq
  cases hx : c == ch '0' && (r.head?.getD 0 == ch 'x' || r.head?.getD 0 == ch 'X') with
  | false =>
    apply Safe.bind
    apply scanWhile_safe hdec
    refine Safe.pure ?_
    have hstep : decStep 0 c = some (0 * 10 + BitVec.ofNat 64 (c - ch '0').toNat) := if_pos hc
    have hsuffix := spanWith_suffix decStep (0 * 10 + BitVec.ofNat 64 (c - ch '0').toNat) r
    simp only [spanWith, hstep]
    exact ⟨hsuffix.trans (List.suffix_cons _ _), Nat.succ_le_succ hsuffix.length_le⟩
  | true =>
    cases r with
    | nil => exact absurd ((Bool.and_eq_true_iff.1 hx).2) (by decide)
    | cons d r =>
      apply Safe.bind
      apply Safe.of_eq skip_two_cons
      apply Safe.bind
      apply Safe.of_eq peek_zero_eq
      cases hexDigit (r.head?.getD 0) with
      | none => exact .die _
      | some v =>
        apply Safe.bind
        apply scanWhile_safe hhex
        refine Safe.pure ?_
        have hsuffix := spanWith_suffix hexStep 0 r
        have hle := hsuffix.length_le
        exact ⟨hsuffix.trans (List.suffix_append [c, d] r), by
          simp only [List.length_cons]
          omega⟩

theorem charValue_safe (hquote : r ≠ []) (hescape : r ≠ [backslash]) :
    Safe charValue ⟨r, l⟩ fun _ s' => Ahead 1 ⟨r, l⟩ s' := by
  unfold charValue
  apply Safe.bind
  cases r with
  | nil => exact absurd rfl hquote
  | cons c r =>
    apply Safe.of_eq peek_zero_cons
    by_cases hb : c = backslash
    · rw [if_pos hb]
      apply Safe.bind
      apply Safe.of_eq skip_one_cons
      cases r with
      | nil => exact absurd (by rw [hb]) hescape
      | cons d r =>
        refine readEscape_safe.mono fun v s' he => ?_
        have hahead := he.ahead (l := l) (m := s'.line)
        exact ⟨hahead.1.trans (List.suffix_cons _ _), Nat.le_succ_of_le hahead.2⟩
    · rw [if_neg hb]
      apply Safe.bind
      apply Safe.of_eq skip_one_cons
      exact .pure ⟨List.suffix_cons _ _, Nat.le_refl _⟩

theorem closing_safe {q : UInt8} (hq : q ≠ 0) (msg : String) (tok : Tok) :
    Safe (do
      if (← peek 0) ≠ q then Scanner.die msg
      else
        skip 1
        return tok) s fun _ s' => Ahead 1 s s' := by
  obtain ⟨r, l⟩ := s
  apply Safe.bind
  cases r with
  | nil =>
    apply Safe.of_eq peek_zero_nil
    rw [if_pos (Ne.symm hq)]
    exact .die _
  | cons c r =>
    apply Safe.of_eq peek_zero_cons
    by_cases hc : c = q
    · rw [if_neg (not_not.2 hc)]
      apply Safe.bind
      apply Safe.of_eq skip_one_cons
      exact .pure ⟨List.suffix_cons _ _, Nat.le_refl _⟩
    · rw [if_pos hc]
      exact .die _

theorem charLiteral_safe (hquote : r ≠ []) (hescape : r ≠ [backslash]) :
    Safe charLiteral ⟨squote :: r, l⟩ fun _ s' => Ahead 1 ⟨squote :: r, l⟩ s' := by
  unfold charLiteral
  apply Safe.bind
  apply Safe.of_eq skip_one_cons
  apply Safe.bind
  refine (charValue_safe hquote hescape).mono fun n s' h => ?_
  refine (closing_safe (by decide) _ _).mono fun _ t h' => ?_
  have hahead := h.trans h'
  exact ⟨hahead.1.trans (List.suffix_cons _ _), by
    have hlen := hahead.2
    simp only [List.length_cons] at hlen ⊢
    omega⟩

theorem stringLiteral_safe (hcut : ¬ StringCut r) :
    Safe stringLiteral ⟨dquote :: r, l⟩ fun _ s' => Ahead 1 ⟨dquote :: r, l⟩ s' := by
  unfold stringLiteral
  apply Safe.bind
  apply Safe.of_eq skip_one_cons
  apply Safe.bind
  refine (stringLoop_safe [] hcut).mono fun text s' h => ?_
  refine (closing_safe (by decide) _ _).mono fun _ t h' => ?_
  have hahead := h.trans h'
  exact ⟨hahead.1.trans (List.suffix_cons _ _), by
    have hlen := hahead.2
    simp only [List.length_cons] at hlen ⊢
    omega⟩

theorem operators_zero : ∀ row ∈ operators, row.2.1.lookup 0 = none := by decide

theorem operator_safe : Safe (operator c) ⟨c :: r, l⟩ fun _ s' => Ahead 1 ⟨c :: r, l⟩ s' := by
  unfold operator
  cases hop : operators.lookup c with
  | none => exact .die _
  | some row =>
    obtain ⟨next, tok⟩ := row
    have hmem : (c, next, tok) ∈ operators := by
      obtain ⟨before, behind, hsplit, -⟩ := List.lookup_eq_some_iff.1 hop
      rw [hsplit]
      exact List.mem_append_right before List.mem_cons_self
    apply Safe.bind
    apply Safe.of_eq skip_one_cons
    by_cases hnext : next = []
    · rw [if_pos hnext]
      exact .pure ⟨List.suffix_cons _ _, Nat.le_refl _⟩
    rw [if_neg hnext]
    apply Safe.bind
    cases r with
    | nil =>
      apply Safe.of_eq peek_zero_nil
      rw [operators_zero _ hmem]
      exact .pure ⟨List.suffix_cons _ _, Nat.le_refl _⟩
    | cons d r =>
      apply Safe.of_eq peek_zero_cons
      cases next.lookup d with
      | none => exact .pure ⟨List.suffix_cons _ _, Nat.le_refl _⟩
      | some tok' =>
        apply Safe.bind
        apply Safe.of_eq skip_one_cons
        exact .pure ⟨List.suffix_append [c, d] r, by
          simp only [List.length_cons]
          omega⟩

theorem lexToken_safe (h0 : 0 ∉ r) (hcut : ¬ LiteralCut r) :
    Safe lexToken ⟨r, l⟩ fun tok s' => Ahead 1 ⟨r, l⟩ s' ∨ tok = .eof ∧ s'.rest = [] := by
  unfold lexToken
  apply Safe.bind
  cases r with
  | nil => exact .of_eq peek_zero_nil (.pure (.inr ⟨rfl, rfl⟩))
  | cons c r =>
    apply Safe.of_eq peek_zero_cons
    have hc0 : c ≠ 0 := by
      rintro rfl
      exact h0 List.mem_cons_self
    rw [if_neg hc0]
    by_cases hword : isAlpha c = true ∨ c = ch '_'
    · rw [if_pos hword]
      have hw : isWord c = true := by
        unfold isWord
        rcases hword with h | h
        · simp [h]
        · simp [h]
      exact (identifier_safe hw).mono fun _ _ h => .inl h
    rw [if_neg hword]
    by_cases hdigit : isDigit c = true
    · rw [if_pos hdigit]
      exact (number_safe hdigit).mono fun _ _ h => .inl h
    rw [if_neg hdigit]
    by_cases hs : c = squote
    · subst hs
      rw [if_pos rfl]
      refine (charLiteral_safe ?_ ?_).mono fun _ _ h => .inl h
      · rintro rfl
        exact hcut .quote
      · rintro rfl
        exact hcut .escape
    rw [if_neg hs]
    by_cases hd : c = dquote
    · subst hd
      rw [if_pos rfl]
      exact (stringLiteral_safe fun h => hcut (.string h)).mono fun _ _ h => .inl h
    rw [if_neg hd]
    exact operator_safe.mono fun _ _ h => .inl h

theorem lexToken_cut (hcut : LiteralCut r) : lexToken ⟨r, l⟩ = .error .outside := by
  cases hcut with
  | quote => rfl
  | escape => rfl
  | @string r h =>
    have hloop := stringLoop_cut (l := l) h [] (Nat.lt_succ_self _)
    have htoken : lexToken ⟨dquote :: r, l⟩ = stringLiteral ⟨dquote :: r, l⟩ := rfl
    rw [htoken, stringLiteral]
    simp only [bind_apply, skip_one_cons, loop, hloop]

theorem LiteralCut.stops (h : LiteralCut r) : Stops r := by
  have hquote : ∀ (q : UInt8) (r : List UInt8), isBlank q = false ∧ q ≠ newlineChar → q ≠ ch '/' →
      Stops (q :: r) := by
    intro q r hq hslash
    refine ⟨?_, fun r' h => ?_, fun r' h => ?_⟩
    · rintro c r' h
      rw [← (List.cons.inj h).1]
      exact hq
    · exact hslash (List.cons.inj h).1
    · exact hslash (List.cons.inj h).1
  cases h with
  | quote => exact hquote _ _ (by decide) (by decide)
  | escape => exact hquote _ _ (by decide) (by decide)
  | string h => exact hquote _ _ (by decide) (by decide)

/-! ## Calls -/

/-- The call stays inside the text, and ends it, moves in it, or ends with a message. -/
def CallInside (s : Cursor) : Prop :=
  Safe lexOne s fun t s' => Ahead 1 s s' ∨ t.tok = .eof ∧ s'.rest = []

theorem lexOne_inside_iff (h0 : 0 ∉ s.rest) : CallInside s ↔ ¬ Cut s.rest := by
  obtain ⟨r, l⟩ := s
  obtain ⟨r', hskips, hstop⟩ := skips_exists r
  constructor
  · rintro hin ⟨r1, hskips, hcut⟩
    obtain ⟨l', hws⟩ := skipWs_eq (l := l) hskips hcut.stops
    refine hin.not_outside ?_
    rw [lexOne, bind_apply, hws]
    simp only [bind_apply, lexToken_cut hcut]
  · intro hcut
    obtain ⟨l', hws⟩ := skipWs_eq (l := l) hskips hstop
    have hsuffix := hskips.suffix
    unfold CallInside lexOne
    apply Safe.bind
    apply Safe.of_eq hws
    apply Safe.bind
    refine (lexToken_safe (fun h => h0 (hsuffix.mem h)) fun h => hcut ⟨r', hskips, h⟩).mono
      fun tok s' h => ?_
    rcases h with ⟨hsuf, hlen⟩ | heof
    · exact .inl ⟨hsuf.trans hsuffix, Nat.le_trans hlen hsuffix.length_le⟩
    · exact .inr heof

/-! ## Runs -/

/-- The cursors at which the lexer is called, for a file. -/
inductive Called (src : List UInt8) : Cursor → Prop
  | first : Called src (lexInit src)
  | next {s s' : Cursor} {t : Token} (h : Called src s) (hcall : lexOne s = .ok (t, s')) :
      Called src s'

/-- All tokens of a file, with at most so many calls. -/
def lexFile : Nat → Cursor → Except Stop (List Token)
  | 0, _ => .error .spin
  | n + 1, s =>
    match lexOne s with
    | .error e => .error e
    | .ok (t, s') => if t.tok = .eof then .ok [t] else (lexFile n s').map (t :: ·)

/-- No call leaves the text, and the file ends with `T_EOF` or a message. -/
structure LexesInside (src : List UInt8) : Prop where
  calls : ∀ s, Called src s → CallInside s
  ends : (∃ toks, lexFile (src.length + 1) (lexInit src) = .ok toks) ∨
    ∃ line msg, lexFile (src.length + 1) (lexInit src) = .error (.die line msg)

theorem called_suffix {src : List UInt8} (hin : ∀ s, Called src s → CallInside s)
    (h : Called src s) : s.rest <:+ src := by
  induction h with
  | first => exact List.suffix_refl src
  | next h hcall ih =>
    rcases (hin _ h).result hcall with hahead | ⟨-, hnil⟩
    · exact hahead.1.trans ih
    · rw [hnil]
      exact List.nil_suffix

theorem lexFile_ends {src : List UInt8} (hin : ∀ s, Called src s → CallInside s)
    (h : Called src s) {n : Nat} (hn : s.rest.length < n) :
    (∃ toks, lexFile n s = .ok toks) ∨ ∃ line msg, lexFile n s = .error (.die line msg) := by
  induction n generalizing s with
  | zero => exact absurd hn (Nat.not_lt_zero _)
  | succ n ih =>
    rw [lexFile]
    have hsafe := hin s h
    unfold CallInside Scanner.Safe at hsafe
    cases hcall : lexOne s with
    | error e =>
      rw [hcall] at hsafe
      cases e with
      | die line msg => exact .inr ⟨line, msg, rfl⟩
      | outside => exact hsafe.elim
      | spin => exact hsafe.elim
    | ok p =>
      obtain ⟨t, s'⟩ := p
      rw [hcall] at hsafe
      simp only
      by_cases heof : t.tok = .eof
      · rw [if_pos heof]
        exact .inl ⟨[t], rfl⟩
      rw [if_neg heof]
      have hlen : s'.rest.length < n := by
        rcases hsafe with hahead | hend
        · have hlt := hahead.2
          omega
        · exact absurd hend.1 heof
      rcases ih (.next h hcall) hlen with ⟨toks, hrest⟩ | ⟨line, msg, hrest⟩
      · exact .inl ⟨t :: toks, by rw [hrest]; rfl⟩
      · exact .inr ⟨line, msg, by rw [hrest]; rfl⟩

/-- The lexer stays inside a file exactly when no call meets a literal with nothing behind its
quote or backslash. -/
theorem lexesInside_iff (src : List UInt8) (h0 : 0 ∉ src) :
    LexesInside src ↔ ∀ s, Called src s → ¬ Cut s.rest := by
  constructor
  · intro hin s h
    have hs : 0 ∉ s.rest := fun hmem => h0 ((called_suffix hin.calls h).mem hmem)
    exact (lexOne_inside_iff hs).1 (hin.calls s h)
  · intro hcut
    have hin : ∀ s, Called src s → CallInside s ∧ s.rest <:+ src := by
      intro s h
      have hsuffix : s.rest <:+ src := by
        induction h with
        | first => exact List.suffix_refl src
        | next h hcall ih =>
          have hs := fun hmem => h0 (ih.mem hmem)
          rcases ((lexOne_inside_iff hs).2 (hcut _ h)).result hcall with hahead | ⟨-, hnil⟩
          · exact hahead.1.trans ih
          · rw [hnil]
            exact List.nil_suffix
      exact ⟨(lexOne_inside_iff fun hmem => h0 (hsuffix.mem hmem)).2 (hcut s h), hsuffix⟩
    exact ⟨fun s h => (hin s h).1,
      lexFile_ends (fun s h => (hin s h).1) .first (Nat.lt_succ_self _)⟩

theorem lexesInside_iff_char :
    LexesInside [squote, ch 'a'] ↔ ∀ s, Called [squote, ch 'a'] s → ¬ Cut s.rest :=
  lexesInside_iff [squote, ch 'a'] (by decide)

/-- The value of a lone quote is the NUL, and the closing quote is looked for behind it; a
backslash in its place is moved over with the NUL before the message. -/
theorem quote_outside :
    (0 ∉ [squote] ∧ lexOne (lexInit [squote]) = .error .outside ∧ ¬ LexesInside [squote]) ∧
      0 ∉ [squote, backslash] ∧ lexOne (lexInit [squote, backslash]) = .error .outside ∧
        ¬ LexesInside [squote, backslash] := by
  have hquote : lexOne (lexInit [squote]) = .error .outside := rfl
  have hescape : lexOne (lexInit [squote, backslash]) = .error .outside := rfl
  refine ⟨⟨by decide, hquote, fun hin => ?_⟩, by decide, hescape, fun hin => ?_⟩
  · exact (hin.calls _ .first).not_outside hquote
  · exact (hin.calls _ .first).not_outside hescape

end MechanicalResearcher.PortableCompiler.Tinc
