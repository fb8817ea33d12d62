import Mathlib.Data.Nat.Digits.Defs
import Mathlib.Order.Interval.Set.Basic
import MechanicalResearcher.PortableCompiler.SchemeLexer
import MechanicalResearcher.PortableCompiler.TincLexerSafety

/-!
# The printer of TinScheme

`scheme/print.c`, and the text of a datum, which is what the printer writes and the lexer takes
apart again.
-/

namespace MechanicalResearcher.PortableCompiler.SchemeText

open Lib Lib.Evaluation Lib.Scanner Gc
open Tinc (ch newlineChar dquote squote isDigit isAlpha isBlank skipWhile hexPrefix decStep)

/-! ## The printer -/

/-- `%s` -/
def cString (data : List UInt8) : List UInt8 := data.takeWhile (· != 0)

/-- The decimal digits of a number. -/
def decimal (n : Nat) : List UInt8 :=
  if n = 0 then [ch '0'] else (Nat.digits 10 n).reverse.map fun d => ch '0' + d.toUInt8

/-- `%d` -/
def formatInt (n : Int) : List UInt8 :=
  if n < 0 then ch '-' :: decimal n.natAbs else decimal n.natAbs

section Print

variable (mem : Nat → Option GcObj)

mutual

/-- What `scm_print` writes. -/
def scmPrint : Nat → Val → Except Gc.Stop (List UInt8)
  | 0, _ => .error .fuel
  | _ + 1, .nil => .ok [ch '(', ch ')']
  | _ + 1, .bool b => .ok [ch '#', if b then ch 't' else ch 'f']
  | _ + 1, .fix n => .ok (formatInt n)
  | fuel + 1, .ptr a =>
    match (mem a).map GcObj.obj with
    | none => .error .undefined
    | some (.symbol data) => .ok (cString data)
    | some (.string data) => .ok (dquote :: cString data ++ [dquote])
    | some (.closure _ _) => .ok ("#<closure>".toList.map ch)
    | some (.pair car cdr) => do
      let first ← scmPrint fuel car
      let rest ← printRest fuel cdr
      return ch '(' :: first ++ rest ++ [ch ')']

/-- The loop over the rest of a list, and what follows a dot. -/
def printRest : Nat → Val → Except Gc.Stop (List UInt8)
  | 0, _ => .error .fuel
  | _ + 1, .nil => .ok []
  | fuel + 1, .ptr a =>
    match (mem a).map GcObj.obj with
    | none => .error .undefined
    | some (.pair car cdr) => do
      let next ← scmPrint fuel car
      let rest ← printRest fuel cdr
      return ch ' ' :: next ++ rest
    | some _ => do
      let last ← scmPrint fuel (.ptr a)
      return [ch ' ', ch '.', ch ' '] ++ last
  | fuel + 1, v => do
    let last ← scmPrint fuel v
    return [ch ' ', ch '.', ch ' '] ++ last

end

end Print

/-! ## Data -/

/-- A fixnum of 30 bits. -/
structure Fixnum where
  val : Int
  lower : -2 ^ 29 ≤ val
  upper : val < 2 ^ 29

/-- The first characters of a number. -/
def beginsNumber : List UInt8 → Bool
  | [] => false
  | [c] => isDigit c
  | c :: d :: _ => isDigit c || isSign c && isDigit d

/-- The name of a symbol. -/
structure SymbolName where
  chars : List UInt8
  nonempty : chars ≠ []
  symChars : ∀ c ∈ chars, isSymChar c = true
  word : beginsNumber chars = false
  dot : chars ≠ [ch '.']

inductive Datum
  | nil
  | bool (b : Bool)
  | fix (n : Fixnum)
  | sym (name : SymbolName)
  | pair (car cdr : Datum)

namespace Datum

mutual

def text : Datum → List UInt8
  | .nil => [ch '(', ch ')']
  | .bool b => [ch '#', if b then ch 't' else ch 'f']
  | .fix n => formatInt n.val
  | .sym name => name.chars
  | .pair car cdr => ch '(' :: car.text ++ cdr.restText

/-- The text behind the first element of a list. -/
def restText : Datum → List UInt8
  | .nil => [ch ')']
  | .pair car cdr => ch ' ' :: car.text ++ cdr.restText
  | .bool b => [ch ' ', ch '.', ch ' ', ch '#', if b then ch 't' else ch 'f', ch ')']
  | .fix n => [ch ' ', ch '.', ch ' '] ++ formatInt n.val ++ [ch ')']
  | .sym name => [ch ' ', ch '.', ch ' '] ++ name.chars ++ [ch ')']

end

mutual

/-- The tokens of the text, on one line. -/
def tokens (line : Nat) : Datum → List Token
  | .nil => [⟨.lparen, line⟩, ⟨.rparen, line⟩]
  | .bool b => [⟨if b then .true else .false, line⟩]
  | .fix n => [⟨.num n.val, line⟩]
  | .sym name => [⟨.sym name.chars, line⟩]
  | .pair car cdr => ⟨.lparen, line⟩ :: car.tokens line ++ cdr.restTokens line

def restTokens (line : Nat) : Datum → List Token
  | .nil => [⟨.rparen, line⟩]
  | .pair car cdr => car.tokens line ++ cdr.restTokens line
  | .bool b => [⟨.dot, line⟩, ⟨if b then .true else .false, line⟩, ⟨.rparen, line⟩]
  | .fix n => [⟨.dot, line⟩, ⟨.num n.val, line⟩, ⟨.rparen, line⟩]
  | .sym name => [⟨.dot, line⟩, ⟨.sym name.chars, line⟩, ⟨.rparen, line⟩]

end

/-- A bound for the depth of the calls and the turns of the loops. -/
def size : Datum → Nat
  | .pair car cdr => car.size + cdr.size + 1
  | _ => 2

/-- The cells of the root stack that reading takes: four for an open list, and two more to make
its cells. -/
def rootsNeeded : Datum → Nat
  | .nil => 4
  | .pair car cdr => max (max car.rootsNeeded 2 + 4) cdr.rootsNeeded
  | _ => 0

end Datum

section Heap

variable {mem : Nat → Option GcObj} {S : Set Nat}

/-- The value is the datum, in objects of `S`. -/
def Spells (mem : Nat → Option GcObj) (S : Set Nat) : Val → Datum → Prop
  | v, .nil => v = .nil
  | v, .bool b => v = .bool b
  | v, .fix k => v = .fix k.val
  | v, .sym name => ∃ a ∈ S, v = .ptr a ∧ (mem a).map GcObj.obj = some (.symbol name.chars)
  | v, .pair x y => ∃ a ∈ S, v = .ptr a ∧ ∃ car cdr,
    (mem a).map GcObj.obj = some (.pair car cdr) ∧ Spells mem S car x ∧ Spells mem S cdr y

theorem cString_name (name : SymbolName) : cString name.chars = name.chars := by
  refine List.takeWhile_eq_self_iff.2 fun c hc => ?_
  have hsym := name.symChars c hc
  simp only [bne_iff_ne, ne_eq]
  rintro rfl
  cases hsym

theorem Datum.two_le_size (d : Datum) : 2 ≤ d.size := by
  induction d with
  | pair car cdr ihcar ihcdr =>
    rw [size]
    omega
  | _ => exact Nat.le_refl 2

mutual

theorem scmPrint_text : ∀ (d : Datum) (v : Val) (fuel : Nat), Spells mem S v d → d.size ≤ fuel →
    scmPrint mem fuel v = .ok d.text
  | d, _, 0, _, hfuel => absurd (d.two_le_size.trans hfuel) (by decide)
  | .nil, _, _ + 1, rfl, _ => rfl
  | .bool _, _, _ + 1, rfl, _ => rfl
  | .fix _, _, _ + 1, rfl, _ => rfl
  | .sym name, _, _ + 1, ⟨a, _, rfl, hobj⟩, _ => by
    rw [scmPrint, hobj]
    exact congrArg Except.ok (cString_name name)
  | .pair x y, _, fuel + 1, ⟨a, _, rfl, car, cdr, hobj, hcar, hcdr⟩, hfuel => by
    rw [Datum.size] at hfuel
    have hx := scmPrint_text x car fuel hcar (by omega)
    obtain ⟨w, hrest, hw⟩ := printRest_text y cdr fuel hcdr (by omega)
    rw [scmPrint, hobj]
    simp only [hx, hrest, bind, Except.bind, pure, Except.pure]
    rw [Datum.text, ← hw]
    simp only [List.cons_append, List.append_assoc]

theorem printRest_text : ∀ (d : Datum) (v : Val) (fuel : Nat), Spells mem S v d → d.size ≤ fuel →
    ∃ w, printRest mem fuel v = .ok w ∧ w ++ [ch ')'] = d.restText
  | d, _, 0, _, hfuel => absurd (d.two_le_size.trans hfuel) (by decide)
  | .nil, _, _ + 1, rfl, _ => ⟨[], rfl, rfl⟩
  | .bool b, _, fuel + 1, rfl, hfuel => by
    obtain ⟨fuel, rfl⟩ := Nat.exists_eq_add_of_le' (Nat.le_of_succ_le_succ hfuel)
    exact ⟨_, rfl, rfl⟩
  | .fix k, _, fuel + 1, rfl, hfuel => by
    obtain ⟨fuel, rfl⟩ := Nat.exists_eq_add_of_le' (Nat.le_of_succ_le_succ hfuel)
    exact ⟨_, rfl, rfl⟩
  | .sym name, _, fuel + 1, ⟨a, _, rfl, hobj⟩, hfuel => by
    obtain ⟨fuel, rfl⟩ := Nat.exists_eq_add_of_le' (Nat.le_of_succ_le_succ hfuel)
    refine ⟨[ch ' ', ch '.', ch ' '] ++ name.chars, ?_, rfl⟩
    rw [printRest, hobj]
    simp only [scmPrint, hobj, cString_name]
    rfl
  | .pair x y, _, fuel + 1, ⟨a, _, rfl, car, cdr, hobj, hcar, hcdr⟩, hfuel => by
    rw [Datum.size] at hfuel
    have hx := scmPrint_text x car fuel hcar (by omega)
    obtain ⟨w, hrest, hw⟩ := printRest_text y cdr fuel hcdr (by omega)
    refine ⟨ch ' ' :: x.text ++ w, ?_, ?_⟩
    · rw [printRest, hobj]
      simp only [hx, hrest, bind, Except.bind, pure, Except.pure]
    · rw [Datum.restText, ← hw]
      simp only [List.cons_append, List.append_assoc]

end

end Heap

/-! ## Lexing a text -/

/-- No word goes on with this text. -/
def Delimited (rest : List UInt8) : Prop := ∀ c, rest.head? = some c → isSymChar c = false

theorem delimited_cons {c : UInt8} {rest : List UInt8} (hc : isSymChar c = false) :
    Delimited (c :: rest) := by
  rintro d ⟨⟩
  exact hc

section Lexing

variable {r rest : List UInt8} {c : UInt8} {l : Nat}

theorem skipWs_eq {w : List UInt8} (hw : w.dropWhile isBlank = c :: r) (hline : c ≠ newlineChar)
    (hcomment : c ≠ ch ';') : skipWs ⟨w, l⟩ = .ok ((), ⟨c :: r, l⟩) := by
  have hskip : skipWhile isBlank ⟨w, l⟩ = .ok ((), ⟨c :: r, l⟩) := by
    rw [Tinc.skipWhile_eq rfl, hw]
  have hbody : skipWsBody ⟨w, l⟩ = .ok (none, ⟨c :: r, l⟩) := by
    rw [skipWsBody, bind_ok _ hskip, bind_ok _ peek_zero_cons, if_neg hline, if_neg hcomment]
    rfl
  rw [skipWs, loop, loopM, bind_ok _ hbody]
  rfl

theorem lexOne_eq {w : List UInt8} {kind : Kind} (hw : w.dropWhile isBlank = c :: r)
    (hline : c ≠ newlineChar) (hcomment : c ≠ ch ';')
    (hkind : lexKind ⟨c :: r, l⟩ = .ok (kind, ⟨rest, l⟩)) :
    lexOne ⟨w, l⟩ = .ok (⟨kind, l⟩, ⟨rest, l⟩) := by
  rw [lexOne, bind_ok _ (skipWs_eq hw hline hcomment), bind_ok _ hkind]
  rfl

theorem lexKind_lparen : lexKind ⟨ch '(' :: r, l⟩ = .ok (.lparen, ⟨r, l⟩) := rfl

theorem lexKind_rparen : lexKind ⟨ch ')' :: r, l⟩ = .ok (.rparen, ⟨r, l⟩) := rfl

theorem lexKind_dot : lexKind ⟨ch '.' :: ch ' ' :: r, l⟩ = .ok (.dot, ⟨ch ' ' :: r, l⟩) := rfl

theorem lexKind_bool (b : Bool) (hrest : Delimited rest) :
    lexKind ⟨ch '#' :: (if b then ch 't' else ch 'f') :: rest, l⟩ =
      .ok (if b then .true else .false, ⟨rest, l⟩) := by
  have hend : isSymChar (rest.head?.getD 0) = false := by
    cases rest with
    | nil => rfl
    | cons d rest => exact hrest d rfl
  have hpeek : peek 0 ⟨rest, l⟩ = .ok (rest.head?.getD 0, ⟨rest, l⟩) := Tinc.peek_zero_eq
  have hhash : ∀ c : UInt8, c = ch 't' ∨ c = ch 'f' → hashLiteral ⟨ch '#' :: c :: rest, l⟩ =
      .ok (if c = ch 't' then .true else .false, ⟨rest, l⟩) := by
    intro c hc
    rw [hashLiteral, bind_ok _ skip_one_cons, bind_ok _ peek_zero_cons, if_pos hc,
      bind_ok _ skip_one_cons, bind_ok _ hpeek, hend]
    rfl
  cases b with
  | false => exact hhash (ch 'f') (.inr rfl)
  | true => exact hhash (ch 't') (.inl rfl)

theorem lexKind_word {d : UInt8} (hc : isSymChar c = true) (hdigit : isDigit c = false)
    (hd : r.head?.getD 0 = d) :
    lexKind ⟨c :: r, l⟩ = (if isSign c && isDigit d then number c
      else if c = ch '.' ∧ !isSymChar d then do
        skip 1
        return .dot
      else symbolName) ⟨c :: r, l⟩ := by
  have hne : ∀ x, isSymChar x = false → c ≠ x := by
    rintro x hx rfl
    rw [hc] at hx
    cases hx
  rw [lexKind, bind_ok _ peek_zero_cons, if_neg (hne _ rfl), if_neg (hne _ rfl),
    if_neg (hne _ rfl), if_neg (hne _ rfl), if_neg (hne _ rfl), if_neg (hne _ rfl), hdigit,
    if_neg Bool.false_ne_true, bind_ok _ Tinc.peek_one_eq, hd, hc]
  rfl

theorem symbolName_eq {name : List UInt8} (hname : ∀ c ∈ name, isSymChar c = true)
    (hrest : Delimited rest) :
    symbolName ⟨name ++ rest, l⟩ = .ok (.sym name, ⟨rest, l⟩) := by
  have hzero : ∀ cs : List UInt8, (if isSymChar 0 then some (cs ++ [0]) else none) = none :=
    fun _ => rfl
  have hspan := spanWith_append (f := fun cs c => if isSymChar c then some (cs ++ [c]) else none)
    (g := fun cs c => cs ++ [c]) (w := name) (r := rest)
    (fun cs c hc => if_pos (hname c hc)) (fun cs c hc => if_neg (by simp [hrest c hc])) []
  have happend : ∀ w : List UInt8, name.foldl (fun cs c => cs ++ [c]) w = w ++ name := by
    clear hname hspan
    induction name with
    | nil => exact fun w => (List.append_nil w).symm
    | cons c name ih =>
      intro w
      rw [List.foldl_cons, ih, List.append_assoc]
      rfl
  rw [symbolName, bind_apply, scanWhile_eq hzero, hspan, happend]
  rfl

theorem lexKind_symbol (name : SymbolName) (hrest : Delimited rest) :
    lexKind ⟨name.chars ++ rest, l⟩ = .ok (.sym name.chars, ⟨rest, l⟩) := by
  obtain ⟨chars, hnonempty, hchars, hword, hdot⟩ := name
  cases chars with
  | nil => exact absurd rfl hnonempty
  | cons c cs =>
    have hnext : isSign c = true → isDigit ((cs ++ rest).head?.getD 0) = false := by
      intro hsign
      cases cs with
      | cons d cs =>
        simp only [beginsNumber, hsign, Bool.true_and, Bool.or_eq_false_iff] at hword
        exact hword.2
      | nil =>
        cases rest with
        | nil => rfl
        | cons d rest =>
          have hd := hrest d rfl
          simp only [isSymChar, Bool.or_eq_false_iff] at hd
          exact hd.1.2
    have hdigit : isDigit c = false := by
      cases cs with
      | nil => exact hword
      | cons d cs =>
        simp only [beginsNumber, Bool.or_eq_false_iff] at hword
        exact hword.1
    have hnumber : (isSign c && isDigit ((cs ++ rest).head?.getD 0)) = false := by
      cases hsign : isSign c with
      | false => rfl
      | true => exact hnext hsign
    have hbare : ¬ (c = ch '.' ∧ (!isSymChar ((cs ++ rest).head?.getD 0)) = true) := by
      rintro ⟨rfl, hsym⟩
      cases cs with
      | nil => exact hdot rfl
      | cons d cs =>
        have hd : isSymChar d = true := hchars d (by simp)
        simp [hd] at hsym
    show lexKind ⟨c :: (cs ++ rest), l⟩ = _
    rw [lexKind_word (hchars c List.mem_cons_self) hdigit rfl, hnumber,
      if_neg Bool.false_ne_true, if_neg hbare]
    exact symbolName_eq hchars hrest

/-! ### Numbers -/

theorem isDigit_char {d : Nat} (hd : d < 10) :
    isDigit (ch '0' + d.toUInt8) = true ∧ (ch '0' + d.toUInt8 - ch '0').toNat = d := by
  have hall : ∀ d < 10, isDigit (ch '0' + d.toUInt8) = true ∧
      (ch '0' + d.toUInt8 - ch '0').toNat = d := by decide
  exact hall d hd

theorem decimal_digits (n : Nat) : ∀ c ∈ decimal n, isDigit c = true := by
  intro c hc
  unfold decimal at hc
  split_ifs at hc with hn
  · rw [List.mem_singleton.1 hc]
    rfl
  · obtain ⟨d, hd, rfl⟩ := List.mem_map.1 hc
    exact (isDigit_char (Nat.digits_lt_base (by decide) (List.mem_reverse.1 hd))).1

theorem decimal_ne_nil (n : Nat) : decimal n ≠ [] := by
  unfold decimal
  split_ifs with hn
  · exact List.cons_ne_nil _ _
  · intro hnil
    rw [List.map_eq_nil_iff, List.reverse_eq_nil_iff] at hnil
    exact Nat.digits_ne_nil_iff_ne_zero.2 hn hnil

/-- What `decStep` computes from a digit. -/
def addDigit (n : BitVec 64) (c : UInt8) : BitVec 64 :=
  n * 10 + BitVec.ofNat 64 (c - ch '0').toNat

theorem foldl_decimal (n : Nat) : (decimal n).foldl addDigit 0 = BitVec.ofNat 64 n := by
  unfold decimal
  split_ifs with hn
  · rw [hn]
    rfl
  · have hfold : ∀ ds : List Nat, (∀ d ∈ ds, d < 10) →
        (ds.reverse.map fun d => ch '0' + d.toUInt8).foldl addDigit 0 =
          BitVec.ofNat 64 (Nat.ofDigits 10 ds) := by
      intro ds hds
      induction ds with
      | nil => rfl
      | cons d ds ih =>
        rw [List.reverse_cons, List.map_append, List.foldl_append,
          ih fun d hd => hds d (List.mem_cons_of_mem _ hd)]
        show addDigit _ (ch '0' + d.toUInt8) = _
        rw [addDigit, (isDigit_char (hds d List.mem_cons_self)).2, Nat.ofDigits_cons,
          Nat.add_comm, Nat.mul_comm, BitVec.ofNat_add, BitVec.ofNat_mul]
        rfl
    rw [hfold _ fun d hd => Nat.digits_lt_base (by decide) hd, Nat.ofDigits_digits]

theorem magnitude_decimal (n : Nat) (hrest : Delimited rest) :
    magnitude ⟨decimal n ++ rest, l⟩ = .ok (BitVec.ofNat 64 n, ⟨rest, l⟩) := by
  have hdigits := decimal_digits n
  have hfold := foldl_decimal n
  cases hdec : decimal n with
  | nil => exact absurd hdec (decimal_ne_nil n)
  | cons c cs =>
    rw [hdec] at hdigits hfold
    -- neither a digit nor what ends a word is an `x`
    have hnext : ∀ x : UInt8, isSymChar x = true → isDigit x = false →
        ((cs ++ rest).head?.getD 0 == x) = false := by
      intro x hsym hdigit
      refine beq_false_of_ne ?_
      rintro rfl
      cases cs with
      | cons d cs =>
        have hd := hdigits d (by simp)
        simp [hd] at hdigit
      | nil =>
        cases rest with
        | nil => cases hsym
        | cons d rest =>
          have hd := hrest d rfl
          simp [hd] at hsym
    have hhex : hexPrefix ⟨c :: cs ++ rest, l⟩ = .ok (false, ⟨c :: cs ++ rest, l⟩) := by
      rw [List.cons_append, Tinc.hexPrefix_eq, hnext _ rfl rfl, hnext _ rfl rfl]
      simp only [Bool.or_self, Bool.and_false]
    have hspan := spanWith_append (f := decStep) (g := addDigit) (w := c :: cs) (r := rest)
      (fun n c hc => if_pos (hdigits c hc)) (fun n c hc => if_neg (by
        have hsym := hrest c hc
        simp only [isSymChar, Bool.or_eq_false_iff] at hsym
        simp [hsym.1.2])) 0
    rw [magnitude, bind_ok _ hhex, if_neg Bool.false_ne_true,
      scanWhile_eq (fun _ => if_neg (by decide)), hspan, hfold]

theorem toInt_ofNat {n : Nat} (hn : n ≤ 2 ^ 29) :
    (BitVec.ofNat 64 n).toInt = n ∧ (-BitVec.ofNat 64 n).toInt = -n := by
  constructor
  · rw [← BitVec.ofInt_natCast, BitVec.toInt_ofInt]
    exact Int.bmod_eq_of_le (by omega) (by omega)
  · rw [← BitVec.ofInt_natCast, ← BitVec.ofInt_neg, BitVec.toInt_ofInt]
    exact Int.bmod_eq_of_le (by omega) (by omega)

theorem lexKind_number (n : Fixnum) (hrest : Delimited rest) :
    lexKind ⟨formatInt n.val ++ rest, l⟩ = .ok (.num n.val, ⟨rest, l⟩) := by
  obtain ⟨n, hlower, hupper⟩ := n
  have hvalue := toInt_ofNat (n := n.natAbs) (by omega)
  have hdigits := decimal_digits n.natAbs
  have hmag := magnitude_decimal (l := l) n.natAbs hrest
  show lexKind ⟨formatInt n ++ rest, l⟩ = _
  unfold formatInt
  cases hdec : decimal n.natAbs with
  | nil => exact absurd hdec (decimal_ne_nil _)
  | cons c cs =>
    rw [hdec] at hdigits hmag
    have hc : isDigit c = true := hdigits c List.mem_cons_self
    split_ifs with hneg
    · show lexKind ⟨ch '-' :: (c :: cs ++ rest), l⟩ = _
      rw [lexKind_word rfl rfl rfl]
      show (if isSign (ch '-') && isDigit c then _ else _ : ScanM Kind) _ = _
      have hsign : (isSign (ch '-') && isDigit c) = true := hc
      have hminus : isSign (ch '-') = true := rfl
      rw [hsign, if_pos rfl, number, hminus, if_pos rfl, bind_ok _ skip_one_cons]
      show (magnitude >>= _) _ = _
      rw [bind_ok _ hmag, if_pos rfl, hvalue.2]
      have habs : -(n.natAbs : Int) = n := by omega
      rw [habs]
      rfl
    · have hne : ∀ x, isDigit x = false → c ≠ x := by
        rintro x hx rfl
        rw [hc] at hx
        cases hx
      have hsign : isSign c = false := by
        simp only [isSign, Bool.or_eq_false_iff]
        exact ⟨beq_false_of_ne (hne _ rfl), beq_false_of_ne (hne _ rfl)⟩
      show lexKind ⟨c :: (cs ++ rest), l⟩ = _
      rw [lexKind, bind_ok _ peek_zero_cons, if_neg (hne _ rfl), if_neg (hne _ rfl),
        if_neg (hne _ rfl), if_neg (hne _ rfl), if_neg (hne _ rfl), if_neg (hne _ rfl), hc,
        if_pos rfl, number, hsign, if_neg Bool.false_ne_true]
      rw [← List.cons_append]
      show (magnitude >>= _) _ = _
      rw [bind_ok _ hmag, if_neg (hne _ rfl), hvalue.1]
      have habs : (n.natAbs : Int) = n := by omega
      rw [habs]
      rfl

end Lexing

/-! ## The tokens of a text -/

/-- From `s` the lexer gives `w` and comes to `s'`. -/
def Passes (file : String) (s : Cursor) (w : List Token) (s' : Cursor) : Prop :=
  ∀ toks eofLine, Lexes file s toks eofLine ↔
    ∃ toks', toks = w ++ toks' ∧ Lexes file s' toks' eofLine

section Passing

variable {file : String} {s s' s'' : Cursor} {w w' : List Token} {r rest : List UInt8} {c : UInt8}
  {l : Nat}

theorem Passes.trans (h : Passes file s w s') (h' : Passes file s' w' s'') :
    Passes file s (w ++ w') s'' := by
  intro toks eofLine
  rw [h toks eofLine]
  constructor
  · rintro ⟨toks', rfl, hrest⟩
    obtain ⟨toks'', rfl, hrest'⟩ := (h' _ _).1 hrest
    exact ⟨toks'', (List.append_assoc _ _ _).symm, hrest'⟩
  · rintro ⟨toks'', rfl, hrest⟩
    exact ⟨w' ++ toks'', List.append_assoc _ _ _, (h' _ _).2 ⟨toks'', rfl, hrest⟩⟩

theorem Passes.one {t : Token} (h : lexOne s = .ok (t, s')) (hkind : t.kind ≠ .eof) :
    Passes file s [t] s' := by
  intro toks eofLine
  constructor
  · intro hlex
    cases hlex with
    | eof heof =>
      rw [h] at heof
      cases heof
      exact absurd rfl hkind
    | bad hbad =>
      rw [h] at hbad
      cases hbad
    | token htok _ hrest =>
      rw [h] at htok
      cases htok
      exact ⟨_, rfl, hrest⟩
  · rintro ⟨toks', rfl, hrest⟩
    exact .token h hkind hrest

/-- A character that is not white space and does not begin a comment. -/
def Solid (c : UInt8) : Prop := isBlank c = false ∧ c ≠ newlineChar ∧ c ≠ ch ';'

theorem solid_of_symChar (hc : isSymChar c = true) : Solid c := by
  have hne : ∀ x, isSymChar x = false → c ≠ x := by
    rintro x hx rfl
    rw [hc] at hx
    cases hx
  refine ⟨?_, hne _ rfl, hne _ rfl⟩
  simp only [isBlank, Bool.or_eq_false_iff]
  exact ⟨⟨beq_false_of_ne (hne _ rfl), beq_false_of_ne (hne _ rfl)⟩, beq_false_of_ne (hne _ rfl)⟩

variable {bs : List UInt8}

theorem passes_word {kind : Kind} (hbs : ∀ b ∈ bs, isBlank b = true) (hc : Solid c)
    (hkind : lexKind ⟨c :: r, l⟩ = .ok (kind, ⟨rest, l⟩)) (hne : kind ≠ .eof) :
    Passes file ⟨bs ++ c :: r, l⟩ [⟨kind, l⟩] ⟨rest, l⟩ := by
  have hdrop : (bs ++ c :: r).dropWhile isBlank = c :: r := by
    rw [List.dropWhile_append, List.dropWhile_eq_nil_iff.2 hbs, List.dropWhile_cons, hc.1]
    rfl
  exact .one (lexOne_eq hdrop hc.2.1 hc.2.2 hkind) hne

theorem passes_symbol (name : SymbolName) (hbs : ∀ b ∈ bs, isBlank b = true)
    (hrest : Delimited rest) :
    Passes file ⟨bs ++ (name.chars ++ rest), l⟩ [⟨.sym name.chars, l⟩] ⟨rest, l⟩ := by
  have hkind := lexKind_symbol (l := l) name hrest
  cases hname : name.chars with
  | nil => exact absurd hname name.nonempty
  | cons c cs =>
    rw [hname] at hkind
    have hc : isSymChar c = true := name.symChars c (by rw [hname]; exact List.mem_cons_self)
    exact passes_word hbs (solid_of_symChar hc) hkind nofun

theorem formatInt_symChars (n : Int) : ∀ c ∈ formatInt n, isSymChar c = true := by
  have hdec : ∀ c ∈ decimal n.natAbs, isSymChar c = true := fun c hc => by
    simp only [isSymChar, decimal_digits _ c hc, Bool.or_true, Bool.true_or]
  intro c hc
  unfold formatInt at hc
  split_ifs at hc
  · cases List.mem_cons.1 hc with
    | inl h =>
      rw [h]
      rfl
    | inr h => exact hdec c h
  · exact hdec c hc

theorem formatInt_ne_nil (n : Int) : formatInt n ≠ [] := by
  unfold formatInt
  split_ifs
  · exact List.cons_ne_nil _ _
  · exact decimal_ne_nil _

theorem passes_number (n : Fixnum) (hbs : ∀ b ∈ bs, isBlank b = true) (hrest : Delimited rest) :
    Passes file ⟨bs ++ (formatInt n.val ++ rest), l⟩ [⟨.num n.val, l⟩] ⟨rest, l⟩ := by
  have hkind := lexKind_number (l := l) n hrest
  have hchars := formatInt_symChars n.val
  cases hdigits : formatInt n.val with
  | nil => exact absurd hdigits (formatInt_ne_nil _)
  | cons c cs =>
    rw [hdigits] at hkind hchars
    exact passes_word hbs (solid_of_symChar (hchars c List.mem_cons_self)) hkind nofun

theorem passes_bool (b : Bool) (hbs : ∀ b ∈ bs, isBlank b = true) (hrest : Delimited rest) :
    Passes file ⟨bs ++ ([ch '#', if b then ch 't' else ch 'f'] ++ rest), l⟩
      [⟨if b then .true else .false, l⟩] ⟨rest, l⟩ :=
  passes_word hbs ⟨rfl, by decide, by decide⟩ (lexKind_bool b hrest) (by cases b <;> nofun)

theorem passes_rparen : Passes file ⟨ch ')' :: rest, l⟩ [⟨.rparen, l⟩] ⟨rest, l⟩ :=
  @passes_word _ _ _ _ _ [] _ nofun ⟨rfl, by decide, by decide⟩ lexKind_rparen nofun

theorem passes_lparen (hbs : ∀ b ∈ bs, isBlank b = true) :
    Passes file ⟨bs ++ ch '(' :: rest, l⟩ [⟨.lparen, l⟩] ⟨rest, l⟩ :=
  passes_word hbs ⟨rfl, by decide, by decide⟩ lexKind_lparen nofun

theorem blank_mem : ∀ b ∈ [ch ' '], isBlank b = true :=
  fun _ hb => List.mem_singleton.mp hb ▸ rfl

theorem passes_dotted {atom : List UInt8} {kind : Kind}
    (hatom : Passes file ⟨[ch ' '] ++ (atom ++ ch ')' :: rest), l⟩ [⟨kind, l⟩] ⟨ch ')' :: rest,
      l⟩) :
    Passes file ⟨[ch ' ', ch '.', ch ' '] ++ atom ++ [ch ')'] ++ rest, l⟩
      [⟨.dot, l⟩, ⟨kind, l⟩, ⟨.rparen, l⟩] ⟨rest, l⟩ := by
  have hdot : Passes file ⟨[ch ' '] ++ ch '.' :: ch ' ' :: (atom ++ ch ')' :: rest), l⟩
      [⟨.dot, l⟩] ⟨[ch ' '] ++ (atom ++ ch ')' :: rest), l⟩ :=
    passes_word blank_mem ⟨rfl, by decide, by decide⟩ lexKind_dot nofun
  have htext : [ch ' ', ch '.', ch ' '] ++ atom ++ [ch ')'] ++ rest =
      [ch ' '] ++ ch '.' :: ch ' ' :: (atom ++ ch ')' :: rest) := by
    simp only [List.cons_append, List.nil_append, List.append_assoc]
  rw [htext]
  exact hdot.trans (hatom.trans passes_rparen)

theorem delimited_restText (d : Datum) (rest : List UInt8) : Delimited (d.restText ++ rest) := by
  cases d <;> exact delimited_cons rfl

mutual

theorem passes_text : ∀ (d : Datum) (bs rest : List UInt8), (∀ b ∈ bs, isBlank b = true) →
    Delimited rest → Passes file ⟨bs ++ (d.text ++ rest), l⟩ (d.tokens l) ⟨rest, l⟩
  | .nil, _, _, hbs, _ => (passes_lparen hbs).trans passes_rparen
  | .bool b, _, _, hbs, hrest => passes_bool b hbs hrest
  | .fix n, _, _, hbs, hrest => passes_number n hbs hrest
  | .sym name, _, _, hbs, hrest => passes_symbol name hbs hrest
  | .pair car cdr, bs, rest, hbs, hrest => by
    have hcar := passes_text car [] (cdr.restText ++ rest) nofun (delimited_restText cdr rest)
    have hcdr := passes_restText cdr rest
    have htext : bs ++ ((Datum.pair car cdr).text ++ rest) =
        bs ++ ch '(' :: ([] ++ (car.text ++ (cdr.restText ++ rest))) := by
      simp only [Datum.text, List.cons_append, List.nil_append, List.append_assoc]
    rw [htext]
    exact (passes_lparen hbs).trans (hcar.trans hcdr)

theorem passes_restText : ∀ (d : Datum) (rest : List UInt8),
    Passes file ⟨d.restText ++ rest, l⟩ (d.restTokens l) ⟨rest, l⟩
  | .nil, _ => passes_rparen
  | .bool b, _ => passes_dotted (passes_bool b blank_mem (delimited_cons rfl))
  | .fix n, _ => passes_dotted (passes_number n blank_mem (delimited_cons rfl))
  | .sym name, _ => passes_dotted (passes_symbol name blank_mem (delimited_cons rfl))
  | .pair car cdr, rest => by
    have hcar := passes_text car [ch ' '] (cdr.restText ++ rest) blank_mem
      (delimited_restText cdr rest)
    have hcdr := passes_restText cdr rest
    have htext : (Datum.pair car cdr).restText ++ rest =
        [ch ' '] ++ (car.text ++ (cdr.restText ++ rest)) := by
      simp only [Datum.restText, List.cons_append, List.nil_append, List.append_assoc]
    rw [htext]
    exact hcar.trans hcdr

end

end Passing

end MechanicalResearcher.PortableCompiler.SchemeText
