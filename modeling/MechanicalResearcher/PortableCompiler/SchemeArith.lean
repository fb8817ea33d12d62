import Mathlib.Tactic.Ring
import MechanicalResearcher.PortableCompiler.IrExec
import MechanicalResearcher.PortableCompiler.Scheme

/-!
# Compiled arithmetic of TinScheme

The expressions over fixnums and booleans, what they mean, and that the intermediate code of
`lower_expr` computes the tagged word of the meaning.

A fixnum is a signed integer of 30 bits and arithmetic on it wraps, so the meaning of a sum is
the sum brought back into the range by `wrap`.
-/

namespace MechanicalResearcher.PortableCompiler.Scheme

open Lib.ByteMemory

variable {wx w : Option Word} {g : Word → Word → Word}

/-! ## Meaning -/

/-- A signed integer of 30 bits. -/
structure Fixnum where
  val : Int
  lower : -2 ^ 29 ≤ val
  upper : val < 2 ^ 29
  deriving DecidableEq

def wrap (n : Int) : Fixnum where
  val := n.bmod (2 ^ 30)
  lower := by
    have h := Int.le_bmod (x := n) (m := 2 ^ 30) (by decide)
    omega
  upper := by
    have h := Int.bmod_lt (x := n) (m := 2 ^ 30) (by decide)
    omega

inductive Value
  | fix (n : Fixnum)
  | bool (b : Bool)
  | nil
  deriving DecidableEq

/-- The tagged word of a value. -/
def Value.word : Value → Word
  | .fix n => BitVec.ofInt 32 (4 * n.val + 1)
  | .bool true => 6
  | .bool false => 2
  | .nil => 0

/-- Only `#f` is false. -/
def Value.truthy (v : Value) : Bool := v != .bool false

inductive Cmp
  | eq | lt | gt | le | ge
  deriving DecidableEq, Repr

def Cmp.name : Cmp → String
  | .eq => "="
  | .lt => "<"
  | .gt => ">"
  | .le => "<="
  | .ge => ">="

def Cmp.holds : Cmp → Int → Int → Bool
  | .eq, m, n => m = n
  | .lt, m, n => m < n
  | .gt, m, n => n < m
  | .le, m, n => m ≤ n
  | .ge, m, n => n ≤ m

inductive Arith
  | lit (n : Fixnum)
  | bool (b : Bool)
  | add (x y : Arith)
  | neg (x : Arith)
  | sub (x y : Arith)
  | mul (x y : Arith)
  | cmp (c : Cmp) (x y : Arith)
  | ite (test thenForm elseForm : Arith)
  /-- An `if` without else. -/
  | when (test thenForm : Arith)
  deriving DecidableEq

/-- The form that calls `head`. -/
def form (head : String) (args : List Datum) : Datum :=
  .pair (.sym head) (args.foldr .pair .nil)

def Arith.datum : Arith → Datum
  | .lit n => .fix n.val
  | .bool b => .bool b
  | .add x y => form "+" [x.datum, y.datum]
  | .neg x => form "-" [x.datum]
  | .sub x y => form "-" [x.datum, y.datum]
  | .mul x y => form "*" [x.datum, y.datum]
  | .cmp c x y => form c.name [x.datum, y.datum]
  | .ite test x y => form "if" [test.datum, x.datum, y.datum]
  | .when test x => form "if" [test.datum, x.datum]

def Value.fixnum : Value → Option Fixnum
  | .fix n => some n
  | _ => none

/-- An operation that asks for fixnums. -/
def onFixnums (x y : Option Value) (f : Int → Int → Value) : Option Value := do
  let m ← (← x).fixnum
  let n ← (← y).fixnum
  return f m.val n.val

/-- The value of an expression whose arithmetic and comparisons have fixnums as operands. -/
def Arith.value : Arith → Option Value
  | .lit n => some (.fix n)
  | .bool b => some (.bool b)
  | .add x y => onFixnums x.value y.value fun m n => .fix (wrap (m + n))
  | .neg x => do
    let m ← (← x.value).fixnum
    return .fix (wrap (-m.val))
  | .sub x y => onFixnums x.value y.value fun m n => .fix (wrap (m - n))
  | .mul x y => onFixnums x.value y.value fun m n => .fix (wrap (m * n))
  | .cmp c x y => onFixnums x.value y.value fun m n => .bool (c.holds m n)
  | .ite test x y => do
    let v ← test.value
    if v.truthy then x.value else y.value
  | .when test x => do
    let v ← test.value
    if v.truthy then x.value else some .nil

/-! ## Tagged words -/

theorem ofInt_eq_of_emod {m n : Int} (h : m % 2 ^ 32 = n % 2 ^ 32) :
    BitVec.ofInt 32 m = BitVec.ofInt 32 n := by
  apply BitVec.eq_of_toInt_eq
  rw [BitVec.toInt_ofInt, BitVec.toInt_ofInt, ← Int.emod_bmod, ← Int.emod_bmod (x := n)]
  exact congrArg (Int.bmod · (2 ^ 32)) h

theorem ofInt_sub (m n : Int) :
    BitVec.ofInt 32 (m - n) = BitVec.ofInt 32 m - BitVec.ofInt 32 n := by
  rw [Int.sub_eq_add_neg, BitVec.ofInt_add, BitVec.ofInt_neg, BitVec.sub_eq_add_neg]

theorem wrap_emod (n : Int) : (wrap n).val % 2 ^ 30 = n % 2 ^ 30 := Int.bmod_emod

theorem fixWord_wrap {k n : Int} (h : k % 2 ^ 32 = (4 * n + 1) % 2 ^ 32) :
    BitVec.ofInt 32 k = (Value.fix (wrap n)).word := by
  have hwrap := wrap_emod n
  apply ofInt_eq_of_emod
  rw [h]
  omega

theorem toInt_fixWord (n : Fixnum) : (Value.fix n).word.toInt = 4 * n.val + 1 := by
  have hl := n.lower
  have hu := n.upper
  rw [Value.word, BitVec.toInt_ofInt]
  apply Int.bmod_eq_of_le <;> omega

theorem add_fixWord (m n : Fixnum) :
    (Value.fix m).word + (Value.fix n).word - 1 = (Value.fix (wrap (m.val + n.val))).word := by
  rw [← fixWord_wrap (k := 4 * m.val + 1 + (4 * n.val + 1) - 1) (by congr 1; ring),
    ofInt_sub, BitVec.ofInt_add]
  rfl

theorem neg_fixWord (m : Fixnum) : 2 - (Value.fix m).word = (Value.fix (wrap (-m.val))).word := by
  rw [← fixWord_wrap (k := 2 - (4 * m.val + 1)) (by congr 1; ring), ofInt_sub]
  rfl

theorem sub_fixWord (m n : Fixnum) :
    (Value.fix m).word - (Value.fix n).word + 1 = (Value.fix (wrap (m.val - n.val))).word := by
  rw [← fixWord_wrap (k := 4 * m.val + 1 - (4 * n.val + 1) + 1) (by congr 1; ring),
    BitVec.ofInt_add, ofInt_sub]
  rfl

theorem sshiftRight_fixWord (m : Fixnum) :
    (Value.fix m).word.sshiftRight 2 = BitVec.ofInt 32 m.val := by
  have hl := m.lower
  have hu := m.upper
  apply BitVec.eq_of_toInt_eq
  rw [BitVec.toInt_sshiftRight, toInt_fixWord, BitVec.toInt_ofInt, Int.shiftRight_eq_div_pow,
    Int.bmod_eq_of_le (by omega) (by omega)]
  omega

theorem mul_fixWord (m n : Fixnum) :
    (Value.fix m).word.sshiftRight 2 * ((Value.fix n).word - 1) + 1 =
      (Value.fix (wrap (m.val * n.val))).word := by
  rw [sshiftRight_fixWord,
    ← fixWord_wrap (k := m.val * (4 * n.val + 1 - 1) + 1) (by congr 1; ring),
    BitVec.ofInt_add, BitVec.ofInt_mul, ofInt_sub]
  rfl

def Cmp.op : Cmp → Op
  | .eq => .cmpeq
  | .lt => .cmplts
  | .gt => .cmpgts
  | .le => .cmples
  | .ge => .cmpges

theorem cmpOp_name (c : Cmp) : cmpOp c.name = some c.op := by
  cases c <;> rfl

theorem cmpHolds_fixWord (c : Cmp) (m n : Fixnum) :
    cmpHolds c.op (Value.fix m).word (Value.fix n).word = some (c.holds m.val n.val) := by
  have hm := toInt_fixWord m
  have hn := toInt_fixWord n
  cases c with
  | eq =>
    have h : (Value.fix m).word = (Value.fix n).word ↔ m.val = n.val := by
      rw [← BitVec.toInt_inj, hm, hn]
      omega
    simp [Cmp.op, cmpHolds, Cmp.holds, h, Bool.beq_eq_decide_eq]
  | lt => simp [Cmp.op, cmpHolds, Cmp.holds, BitVec.slt, hm, hn]
  | gt => simp [Cmp.op, cmpHolds, Cmp.holds, BitVec.slt, hm, hn]
  | le => simp [Cmp.op, cmpHolds, Cmp.holds, BitVec.sle, hm, hn]
  | ge => simp [Cmp.op, cmpHolds, Cmp.holds, BitVec.sle, hm, hn]

theorem boolWord (c : Bool) : ofBool c <<< 2 ||| 2 = (Value.bool c).word := by
  cases c <;> decide

theorem word_sub_two (v : Value) : v.word - 2 = 0 ↔ v.truthy = false := by
  have hsub : v.word - 2 = 0 ↔ v.word = 2 := BitVec.sub_eq_iff_eq_add
  rw [hsub]
  cases v with
  | fix n =>
    have h := toInt_fixWord n
    constructor
    · intro hw
      rw [hw] at h
      have h2 : (2 : Word).toInt = 2 := by decide
      omega
    · intro hf
      simp [Value.truthy] at hf
  | bool b => cases b <;> decide
  | nil => decide

/-! ## What the lowering emits -/

/-- The state after `seg` was emitted, with `k` new temps and `l` new labels. -/
def Lowering.push (s : Lowering) (seg : List Insn) (k l : Nat) : Lowering :=
  { s with fn := { s.fn with
      code := s.fn.code ++ seg
      ntemps := s.fn.ntemps + k
      nlabels := s.fn.nlabels + l } }

section Push

variable (s : Lowering) (seg seg' : List Insn) (k k' l l' : Nat)

@[simp] theorem push_code : (s.push seg k l).fn.code = s.fn.code ++ seg := rfl

@[simp] theorem push_ntemps : (s.push seg k l).fn.ntemps = s.fn.ntemps + k := rfl

@[simp] theorem push_nlabels : (s.push seg k l).fn.nlabels = s.fn.nlabels + l := rfl

@[simp] theorem push_push :
    (s.push seg k l).push seg' k' l' = s.push (seg ++ seg') (k + k') (l + l') := by
  simp [Lowering.push, Nat.add_assoc]

end Push

theorem bind_ok {α β : Type} {x : LowerM α} {f : α → LowerM β} {s s' : Lowering} {r : α}
    (h : x s = .ok (r, s')) : (x >>= f) s = f r s' := by
  simp [bind, StateT.bind, h, Except.bind]

@[simp] theorem newLabel_run (s : Lowering) :
    newLabel s = .ok (s.fn.nlabels, s.push [] 0 1) := by
  rw [Lowering.push, List.append_nil]
  rfl

theorem newTemp_run (s : Lowering) : newTemp s = .ok (s.fn.ntemps, s.push [] 1 0) := by
  rw [Lowering.push, List.append_nil]
  rfl

theorem emit_run (i : Insn) (s : Lowering) : emit i s = .ok ((), s.push [i] 0 0) := rfl

theorem emitDst_run (i : Insn) (s : Lowering) :
    emitDst i s = .ok (s.fn.ntemps, s.push [{ i with dst := some s.fn.ntemps }] 1 0) := by
  rw [emitDst, bind_ok (newTemp_run s), bind_ok (emit_run _ _), push_push]
  rfl

abbrev labelInsn (l : Nat) : Insn := { op := .label, label := some l }

abbrev jmpInsn (l : Nat) : Insn := { op := .jmp, label := some l }

section PushRun

variable (s : Lowering) (seg : List Insn) (k l : Nat)

theorem newLabel_push :
    newLabel (s.push seg k l) = .ok (s.fn.nlabels + l, s.push seg k (l + 1)) := by
  rw [newLabel_run, push_push, push_nlabels, List.append_nil, Nat.add_zero]

theorem newTemp_push :
    newTemp (s.push seg k l) = .ok (s.fn.ntemps + k, s.push seg (k + 1) l) := by
  rw [newTemp_run, push_push, push_ntemps, List.append_nil, Nat.add_zero l]

theorem emit_push (i : Insn) :
    emit i (s.push seg k l) = .ok ((), s.push (seg ++ [i]) k l) := by
  rw [emit_run, push_push, Nat.add_zero, Nat.add_zero]

theorem emitLabel_push (j : Nat) :
    emitLabel j (s.push seg k l) = .ok ((), s.push (seg ++ [labelInsn j]) k l) :=
  emit_push s seg k l _

theorem emitJmp_push (j : Nat) :
    emitJmp j (s.push seg k l) = .ok ((), s.push (seg ++ [jmpInsn j]) k l) :=
  emit_push s seg k l _

end PushRun

theorem lowerConst_run (v : Int) (s : Lowering) :
    lowerConst v s =
      .ok (s.fn.ntemps, s.push [{ op := .lic, dst := some s.fn.ntemps, imm := v }] 1 0) :=
  emitDst_run _ s

theorem emitBin_run (op : Op) (ta tb : Nat) (s : Lowering) :
    emitBin op ta tb s = .ok (s.fn.ntemps,
      s.push [{ op := op, dst := some s.fn.ntemps, a := some ta, b := some tb }] 1 0) :=
  emitDst_run _ s

/-- The labels of `seg` are the `l` labels from `m` on, some of them, each once. -/
def NewLabels (m l : Nat) (seg : List Insn) : Prop :=
  (∀ j ∈ labels seg, m ≤ j ∧ j < m + l) ∧ (labels seg).Nodup

theorem NewLabels.append {m l l' : Nat} {seg seg' : List Insn} (h : NewLabels m l seg)
    (h' : NewLabels (m + l) l' seg') : NewLabels m (l + l') (seg ++ seg') := by
  constructor
  · intro j hj
    rw [labels_append, List.mem_append] at hj
    obtain hj | hj := hj
    · have := h.1 j hj
      omega
    · have := h'.1 j hj
      omega
  · rw [labels_append, List.nodup_append]
    refine ⟨h.2, h'.2, fun j hj j' hj' => ?_⟩
    have := h.1 j hj
    have := h'.1 j' hj'
    omega

theorem NewLabels.of_nil {m : Nat} {seg : List Insn} (h : labels seg = []) : NewLabels m 0 seg := by
  simp [NewLabels, h]

/-- Wherever `seg` stands, it runs to its end, leaves `w` in the temp `t` and keeps the temps
that `keep` names. -/
def Yields (keep : Nat → Prop) (seg : List Insn) (t : Nat) (w : Word) : Prop :=
  ∀ L code p a, At code p seg →
    Leads L code p a fun q b => q = p + seg.length ∧ b t = w ∧ ∀ u, keep u → b u = a u

/-- Lowering with `x` emits code for the word `w`. -/
structure Emits (s : Lowering) (x : LowerM Nat) (w : Option Word) (t : Nat) (seg : List Insn)
    (k l : Nat) : Prop where
  run : x s = .ok (t, s.push seg k l)
  temp : s.fn.ntemps ≤ t ∧ t < s.fn.ntemps + k
  labels : NewLabels s.fn.nlabels l seg
  yields : ∀ w', w = some w' → Yields (· < s.fn.ntemps) seg t w'

def Compiles (x : LowerM Nat) (w : Option Word) : Prop :=
  ∀ s, ∃ t seg k l, Emits s x w t seg k l

theorem compiles_const (n : Int) : Compiles (lowerConst n) (some (BitVec.ofInt 32 n)) := by
  intro s
  refine ⟨_, _, 1, 0, lowerConst_run n s, ⟨le_refl _, by omega⟩, .of_nil rfl, ?_⟩
  rintro _ ⟨⟩ L code p a hat
  refine .lic hat.head (.done ⟨rfl, by simp, fun u hu => ?_⟩)
  exact Function.update_of_ne (Nat.ne_of_lt hu) _ _

/-- `f` emits straight code that combines the words of two older temps with `g`. -/
def Combines (f : Nat → Nat → LowerM Nat) (g : Word → Word → Word) : Prop :=
  ∀ s tx ty, tx < s.fn.ntemps → ty < s.fn.ntemps → ∃ t seg k,
    f tx ty s = .ok (t, s.push seg k 0) ∧ (s.fn.ntemps ≤ t ∧ t < s.fn.ntemps + k) ∧
      labels seg = [] ∧ ∀ L code p a, At code p seg → Leads L code p a fun q b =>
        q = p + seg.length ∧ b t = g (a tx) (a ty) ∧ ∀ u < s.fn.ntemps, b u = a u

theorem Compiles.binary {x y : LowerM Nat} {wy : Option Word} {f : Nat → Nat → LowerM Nat}
    (hx : Compiles x wx) (hy : Compiles y wy) (hf : Combines f g) :
    Compiles (do let ta ← x; let tb ← y; f ta tb) (do return g (← wx) (← wy)) := by
  intro s
  obtain ⟨tx, sx, kx, lx, ex⟩ := hx s
  obtain ⟨ty, sy, ky, ly, ey⟩ := hy (s.push sx kx lx)
  have htx := ex.temp
  have hty := ey.temp
  rw [push_ntemps] at hty
  obtain ⟨t, seg, k, hrun, ht, hlab, hleads⟩ :=
    hf ((s.push sx kx lx).push sy ky ly) tx ty (by simp; omega) (by simp; omega)
  simp only [push_push, push_ntemps] at hrun ht hleads
  refine ⟨t, sx ++ sy ++ seg, kx + ky + k, lx + ly + 0, ?_, by omega, ?_, ?_⟩
  · rw [bind_ok ex.run, bind_ok ey.run, push_push, hrun]
  · exact (ex.labels.append ey.labels).append (.of_nil hlab)
  · intro w hw L code p a hat
    obtain ⟨m, rfl, n, rfl, rfl⟩ : ∃ m, wx = some m ∧ ∃ n, wy = some n ∧ g m n = w := by
      simpa [Option.bind_eq_some_iff] using hw
    refine (ex.yields m rfl L code p a hat.left.left).bind ?_
    rintro _ b ⟨rfl, hbx, hbk⟩
    refine (ey.yields n rfl L code _ b hat.left.right).bind ?_
    rintro _ c ⟨rfl, hcy, hck⟩
    have hat' := hat.right
    rw [List.length_append, ← Nat.add_assoc] at hat'
    refine (hleads L code _ c hat').bind ?_
    rintro _ d ⟨rfl, hdt, hdk⟩
    refine .done ⟨by simp; omega, ?_, fun u hu => ?_⟩
    · rw [hdt, hcy, hck tx (by simp; omega), hbx]
    · rw [hdk u (by omega), hck u (by simp; omega), hbk u hu]

/-- Straight code, and what it makes of the temps. -/
structure Straight (s : Lowering) (x : LowerM Nat) (t : Nat) (seg : List Insn) (k : Nat)
    (F : Temps → Temps) : Prop where
  run : x s = .ok (t, s.push seg k 0)
  noLabels : labels seg = []
  temp : s.fn.ntemps ≤ t ∧ t < s.fn.ntemps + k
  keeps : ∀ a u, u < s.fn.ntemps → F a u = a u
  leads : ∀ L code p a, At code p seg →
    Leads L code p a fun q b => q = p + seg.length ∧ b = F a

namespace Straight

variable {s : Lowering} {x : LowerM Nat} {f : Nat → LowerM Nat} {t t' k k' : Nat}
  {seg seg' : List Insn} {F F' : Temps → Temps}

theorem const (s : Lowering) (n : Int) : Straight s (lowerConst n) s.fn.ntemps
    [{ op := .lic, dst := some s.fn.ntemps, imm := n }] 1
    fun a => Function.update a s.fn.ntemps (BitVec.ofInt 32 n) where
  run := lowerConst_run n s
  noLabels := rfl
  temp := by omega
  keeps a u hu := Function.update_of_ne (Nat.ne_of_lt hu) _ _
  leads _ _ _ _ hat := .lic hat.head (.done ⟨rfl, rfl⟩)

theorem bin (s : Lowering) {op : Op} (hg : ∀ x y, binop op x y = some (g x y)) (ta tb : Nat) :
    Straight s (emitBin op ta tb) s.fn.ntemps
      [{ op := op, dst := some s.fn.ntemps, a := some ta, b := some tb }] 1
      fun a => Function.update a s.fn.ntemps (g (a ta) (a tb)) where
  run := emitBin_run op ta tb s
  noLabels := by
    cases op with
    | label => cases hg 0 0
    | _ => rfl
  temp := by omega
  keeps a u hu := Function.update_of_ne (Nat.ne_of_lt hu) _ _
  leads _ _ _ a hat := .bin hat.head (hg (a ta) (a tb)) (.done ⟨rfl, rfl⟩)

theorem bind (hx : Straight s x t seg k F) (hf : Straight (s.push seg k 0) (f t) t' seg' k' F') :
    Straight s (x >>= f) t' (seg ++ seg') (k + k') (F' ∘ F) where
  run := by rw [bind_ok hx.run, hf.run, push_push]
  noLabels := by rw [labels_append, hx.noLabels, hf.noLabels, List.append_nil]
  temp := by
    have ht := hf.temp
    rw [push_ntemps] at ht
    omega
  keeps a u hu := (hf.keeps _ u (Nat.lt_add_right k hu)).trans (hx.keeps a u hu)
  leads L code p a hat := by
    refine (hx.leads L code p a hat.left).bind ?_
    rintro _ _ ⟨rfl, rfl⟩
    refine (hf.leads L code _ _ hat.right).bind ?_
    rintro _ _ ⟨rfl, rfl⟩
    exact .done ⟨by rw [List.length_append, Nat.add_assoc], rfl⟩

end Straight

theorem Combines.of_straight {f : Nat → Nat → LowerM Nat}
    (h : ∀ s tx ty, tx < s.fn.ntemps → ty < s.fn.ntemps → ∃ t seg k F,
      Straight s (f tx ty) t seg k F ∧ ∀ a, F a t = g (a tx) (a ty)) : Combines f g := by
  intro s tx ty hx hy
  obtain ⟨t, seg, k, F, hs, hF⟩ := h s tx ty hx hy
  refine ⟨t, seg, k, hs.run, hs.temp, hs.noLabels, fun L code p a hat => ?_⟩
  refine (hs.leads L code p a hat).bind ?_
  rintro _ _ ⟨rfl, rfl⟩
  exact .done ⟨rfl, hF a, hs.keeps a⟩

theorem combines_add : Combines (fun ta tb => do
    let tsum ← emitBin .add ta tb
    let tone ← lowerConst 1
    emitBin .sub tsum tone) fun x y => x + y - 1 := by
  refine .of_straight fun s tx ty hx hy => ⟨_, _, _, _,
    (Straight.bin s (fun _ _ => rfl) tx ty).bind ((Straight.const _ 1).bind
      (Straight.bin _ (fun _ _ => rfl) _ _)), fun a => ?_⟩
  simp

theorem combines_sub : Combines (fun ta tb => do
    let tdiff ← emitBin .sub ta tb
    let tone ← lowerConst 1
    emitBin .add tdiff tone) fun x y => x - y + 1 := by
  refine .of_straight fun s tx ty hx hy => ⟨_, _, _, _,
    (Straight.bin s (fun _ _ => rfl) tx ty).bind ((Straight.const _ 1).bind
      (Straight.bin _ (fun _ _ => rfl) _ _)), fun a => ?_⟩
  simp

theorem combines_mul : Combines (fun ta tb => do
    let tTwo ← lowerConst 2
    let tX ← emitBin .shrs ta tTwo
    let tOne ← lowerConst 1
    let tB1 ← emitBin .sub tb tOne
    let tProd ← emitBin .mul tX tB1
    emitBin .add tProd tOne) fun x y => x.sshiftRight 2 * (y - 1) + 1 := by
  refine .of_straight fun s tx ty hx hy => ⟨_, _, _, _,
    (Straight.const s 2).bind ((Straight.bin _ (fun _ _ => rfl) tx _).bind
      ((Straight.const _ 1).bind ((Straight.bin _ (fun _ _ => rfl) ty _).bind
        ((Straight.bin _ (fun _ _ => rfl) _ _).bind
          (Straight.bin _ (fun _ _ => rfl) _ _))))), fun a => ?_⟩
  have hx0 : tx ≠ s.fn.ntemps := by omega
  have hy0 : ty ≠ s.fn.ntemps := by omega
  have hy1 : ty ≠ s.fn.ntemps + 1 := by omega
  have hy2 : ty ≠ s.fn.ntemps + 1 + 1 := by omega
  simp [hx0, hy0, hy1, hy2]

theorem binop_cmp (c : Cmp) (x y : Word) :
    binop c.op x y = some (ofBool ((cmpHolds c.op x y).getD false)) := by
  cases c <;> rfl

theorem combines_cmpWord (c : Cmp) :
    Combines (emitBin c.op) fun x y => ofBool ((cmpHolds c.op x y).getD false) :=
  .of_straight fun s tx ty _ _ => ⟨_, _, _, _, Straight.bin s (binop_cmp c) tx ty, fun a => by simp⟩

theorem combines_cmp (c : Cmp) : Combines (fun ta tb => do
    let tcmp ← emitBin c.op ta tb
    boolFromCmp tcmp) fun x y => ofBool ((cmpHolds c.op x y).getD false) <<< 2 ||| 2 := by
  refine .of_straight fun s tx ty hx hy => ⟨_, _, _, _,
    (Straight.bin s (binop_cmp c) tx ty).bind ((Straight.const _ 2).bind
      ((Straight.bin _ (fun _ _ => rfl) _ _).bind
        (Straight.bin _ (fun _ _ => rfl) _ _))), fun a => ?_⟩
  simp

theorem Compiles.unary {x : LowerM Nat} {f : Nat → LowerM Nat} {g : Word → Word}
    (hx : Compiles x wx) (hf : ∀ s tx, tx < s.fn.ntemps → ∃ t seg k F,
      Straight s (f tx) t seg k F ∧ ∀ a, F a t = g (a tx)) :
    Compiles (do let ta ← x; f ta) (wx.map g) := by
  intro s
  obtain ⟨tx, sx, kx, lx, ex⟩ := hx s
  have htx := ex.temp
  obtain ⟨t, seg, k, F, hs, hF⟩ := hf (s.push sx kx lx) tx (by simp; omega)
  have ht := hs.temp
  rw [push_ntemps] at ht
  refine ⟨t, sx ++ seg, kx + k, lx + 0, ?_, by omega, ex.labels.append (.of_nil hs.noLabels), ?_⟩
  · rw [bind_ok ex.run, hs.run, push_push]
  · intro w hw L code p a hat
    obtain ⟨m, rfl, rfl⟩ : ∃ m, wx = some m ∧ g m = w := by simpa using hw
    refine (ex.yields m rfl L code p a hat.left).bind ?_
    rintro _ b ⟨rfl, hbx, hbk⟩
    refine (hs.leads L code _ b hat.right).bind ?_
    rintro _ _ ⟨rfl, rfl⟩
    refine .done ⟨by simp; omega, ?_, fun u hu => ?_⟩
    · rw [hF, hbx]
    · rw [hs.keeps b u (by simp; omega), hbk u hu]

/-! ## Branches -/

/-- Lowering with `x` emits code that jumps to `ltrue` or to `lfalse`. -/
structure Branches (s : Lowering) (x : LowerM Unit) (ltrue lfalse : Nat) (c : Option Bool)
    (seg : List Insn) (k l : Nat) : Prop where
  run : x s = .ok ((), s.push seg k l)
  labels : NewLabels s.fn.nlabels l seg
  branch : ∀ c', c = some c' → ∀ L code p a qt qf, At code p seg →
    findLabel ltrue code = some qt → findLabel lfalse code = some qf →
      Leads L code p a fun q b => q = (if c' then qt else qf) ∧ ∀ u < s.fn.ntemps, b u = a u

def Branching (x : Nat → Nat → LowerM Unit) (c : Option Bool) : Prop :=
  ∀ s ltrue lfalse, ∃ seg k l, Branches s (x ltrue lfalse) ltrue lfalse c seg k l

theorem Compiles.branching {x : LowerM Nat} (hx : Compiles x w) :
    Branching (fun ltrue lfalse => do let t ← x; emitBnz t ltrue; emitJmp lfalse)
      (w.map (· != 0)) := by
  intro s ltrue lfalse
  obtain ⟨t, sx, kx, lx, ex⟩ := hx s
  refine ⟨sx ++ [{ op := .bnz, a := some t, label := some ltrue },
    { op := .jmp, label := some lfalse }], kx, lx + 0, ?_, ex.labels.append (.of_nil rfl), ?_⟩
  · have hbnz := emit_run { op := .bnz, a := some t, label := some ltrue } (s.push sx kx lx)
    dsimp only
    rw [bind_ok ex.run, emitBnz, bind_ok hbnz, emitJmp, emit_run]
    simp
  · intro c hc L code p a qt qf hat ht hf
    obtain ⟨v, rfl, rfl⟩ : ∃ v, w = some v ∧ (v != 0) = c := by simpa using hc
    refine (ex.yields v rfl L code p a hat.left).bind ?_
    rintro _ b ⟨rfl, hbt, hbk⟩
    refine .bnz hat.right.head ht ?_
    by_cases hv : v = 0
    · rw [if_pos (by rw [hbt, hv])]
      refine .jmp hat.right.tail.head hf (.done ⟨?_, hbk⟩)
      rw [if_neg (by simp [hv])]
    · rw [if_neg (by rw [hbt]; exact hv)]
      refine .done ⟨?_, hbk⟩
      rw [if_pos (bne_iff_ne.2 hv)]

/-- Lowering with `x` emits code that leaves the word `w` in the older temp `tr`. -/
structure Fills (s : Lowering) (x : LowerM Unit) (tr : Nat) (w : Option Word) (seg : List Insn)
    (k l : Nat) : Prop where
  run : x s = .ok ((), s.push seg k l)
  labels : NewLabels s.fn.nlabels l seg
  yields : ∀ w', w = some w' → Yields (fun u => u < s.fn.ntemps ∧ u ≠ tr) seg tr w'

def Filling (x : Nat → LowerM Unit) (w : Option Word) : Prop :=
  ∀ s tr, ∃ seg k l, Fills s (x tr) tr w seg k l

theorem Compiles.filling {x : LowerM Nat} (hx : Compiles x w) :
    Filling (fun tr => do let t ← x; emitMov tr t) w := by
  intro s tr
  obtain ⟨t, sx, kx, lx, ex⟩ := hx s
  refine ⟨sx ++ [{ op := .mov, dst := some tr, a := some t }], kx, lx + 0, ?_,
    ex.labels.append (.of_nil rfl), ?_⟩
  · dsimp only
    rw [bind_ok ex.run, emitMov, emit_run, push_push]
    rfl
  · intro w' hw L code p a hat
    refine (ex.yields w' hw L code p a hat.left).bind ?_
    rintro _ b ⟨rfl, hbt, hbk⟩
    refine .mov hat.right.head (.done ⟨by simp; omega, by simp [hbt], fun u hu => ?_⟩)
    rw [Function.update_of_ne hu.2, hbk u hu.1]

theorem filling_lic (n : Int) :
    Filling (fun tr => emit { op := .lic, dst := some tr, imm := n })
      (some (BitVec.ofInt 32 n)) := by
  intro s tr
  refine ⟨[{ op := .lic, dst := some tr, imm := n }], 0, 0, emit_run _ s, .of_nil rfl, ?_⟩
  rintro _ ⟨⟩ L code p a hat
  refine .lic hat.head (.done ⟨rfl, by simp, fun u hu => ?_⟩)
  exact Function.update_of_ne hu.2 _ _

/-- A test, and one of two pieces of code that leave their word in the result. -/
def branchCode (test : Nat → Nat → LowerM Unit) (thenPart elsePart : Nat → LowerM Unit) :
    LowerM Nat := do
  let ltrue ← newLabel
  let lfalse ← newLabel
  let lend ← newLabel
  test ltrue lfalse
  let tResult ← newTemp
  emitLabel ltrue
  thenPart tResult
  emitJmp lend
  emitLabel lfalse
  elsePart tResult
  emitLabel lend
  return tResult

theorem compiles_branch {test : Nat → Nat → LowerM Unit} {thenPart elsePart : Nat → LowerM Unit}
    {c : Option Bool} {wy : Option Word} (htest : Branching test c) (hthen : Filling thenPart wx)
    (helse : Filling elsePart wy) :
    Compiles (branchCode test thenPart elsePart) (c.bind fun c => if c then wx else wy) := by
  intro s
  obtain ⟨m, hm⟩ : ∃ m, s.fn.nlabels = m := ⟨_, rfl⟩
  obtain ⟨st, kt, lt, et⟩ := htest (s.push [] 0 3) m (m + 1)
  obtain ⟨tr, htr⟩ : ∃ tr, s.fn.ntemps + (0 + kt) = tr := ⟨_, rfl⟩
  obtain ⟨sx, kx, lx, ex⟩ := hthen (s.push ([] ++ st ++ [labelInsn m]) (0 + kt + 1) (3 + lt)) tr
  obtain ⟨sy, ky, ly, ey⟩ := helse
    (s.push ([] ++ st ++ [labelInsn m] ++ sx ++ [jmpInsn (m + 2)] ++ [labelInsn (m + 1)])
      (0 + kt + 1 + kx) (3 + lt + lx)) tr
  refine ⟨tr, [] ++ st ++ [labelInsn m] ++ sx ++ [jmpInsn (m + 2)] ++ [labelInsn (m + 1)] ++ sy ++
    [labelInsn (m + 2)], 0 + kt + 1 + kx + ky, 3 + lt + lx + ly, ?_, ?_, ?_, ?_⟩
  · rw [branchCode, bind_ok (newLabel_run s), bind_ok (newLabel_push s _ _ _),
      bind_ok (newLabel_push s _ _ _), hm, bind_ok et.run, push_push,
      bind_ok (newTemp_push s _ _ _), htr, bind_ok (emitLabel_push s _ _ _ _), bind_ok ex.run,
      push_push, bind_ok (emitJmp_push s _ _ _ _), bind_ok (emitLabel_push s _ _ _ _),
      bind_ok ey.run, push_push, bind_ok (emitLabel_push s _ _ _ _)]
    rfl
  · omega
  · have hlt := et.labels
    have hlx := ex.labels
    have hly := ey.labels
    simp only [push_nlabels] at hlt hlx hly
    have hl : labels ([] ++ st ++ [labelInsn m] ++ sx ++ [jmpInsn (m + 2)] ++
          [labelInsn (m + 1)] ++ sy ++ [labelInsn (m + 2)]) =
        labels st ++ m :: (labels sx ++ (m + 1) :: (labels sy ++
          [m + 2])) := by
      simp [Insn.labelled]
    constructor
    · intro j hj
      rw [hl] at hj
      simp only [List.mem_append, List.mem_cons, List.not_mem_nil, or_false] at hj
      obtain hj | hj | hj | hj | hj | hj := hj
      · have := hlt.1 j hj
        omega
      · omega
      · have := hlx.1 j hj
        omega
      · omega
      · have := hly.1 j hj
        omega
      · omega
    · rw [hl]
      simp only [List.nodup_append, List.nodup_cons, List.mem_append, List.mem_cons]
      grind [NewLabels]
  · intro w hw L code p a hat
    obtain ⟨c, rfl, hw⟩ : ∃ c', c = some c' ∧ (if c' then wx else wy) = some w := by
      simpa [Option.bind_eq_some_iff] using hw
    -- the pieces, from the last to the first
    have hend := hat.right
    have helse := hat.left.right
    have hfalse := hat.left.left.right
    have hjmp := hat.left.left.left.right
    have hthen := hat.left.left.left.left.right
    have htrue := hat.left.left.left.left.left.right
    have htest := hat.left.left.left.left.left.left
    rw [List.length_append, ← Nat.add_assoc] at helse hthen
    have hqt := htrue.label 0 _ m rfl ⟨rfl, rfl⟩
    have hqf := hfalse.label 0 _ (m + 1) rfl ⟨rfl, rfl⟩
    have hqe := hend.label 0 _ (m + 2) rfl ⟨rfl, rfl⟩
    refine (et.branch c rfl L code p a _ _ htest hqt hqf).bind ?_
    rintro _ b ⟨rfl, hbk⟩
    cases c with
    | true =>
      rw [if_pos rfl]
      refine .label htrue.head ?_
      refine (ex.yields w hw L code _ b hthen).bind ?_
      rintro q d ⟨hq, hdt, hdk⟩
      obtain rfl : q = p + ([] ++ st ++ [labelInsn m] ++ sx).length := by
        simp [hq]
        omega
      refine .jmp hjmp.head hqe (.label hend.head (.done ⟨?_, hdt, fun u hu => ?_⟩))
      · simp
        omega
      · rw [hdk u ⟨by simp; omega, by omega⟩, hbk u (by simp; omega)]
    | false =>
      rw [if_neg Bool.false_ne_true]
      refine .label hfalse.head ?_
      refine (ey.yields w hw L code _ b helse).bind ?_
      rintro q d ⟨hq, hdt, hdk⟩
      obtain rfl : q = p + ([] ++ st ++ [labelInsn m] ++ sx ++ [jmpInsn (m + 2)] ++
          [labelInsn (m + 1)] ++ sy).length := by
        simp [hq]
        omega
      refine .label hend.head (.done ⟨?_, hdt, fun u hu => ?_⟩)
      · simp
        omega
      · rw [hdk u ⟨by simp; omega, by omega⟩, hbk u (by simp; omega)]

/-! ## Expressions -/

theorem lowerExpr_cmp (c : Cmp) (x y : Datum) :
    lowerExpr (form c.name [x, y]) =
      (do let ta ← lowerExpr x
          let tb ← lowerExpr y
          let tcmp ← emitBin c.op ta tb
          boolFromCmp tcmp) := by
  cases c <;> simp [form, lowerExpr, lowerCmp, Cmp.name, Cmp.op]

theorem Compiles.mono {x : LowerM Nat} {w' : Option Word} (h : Compiles x w)
    (hw : ∀ v, w' = some v → w = some v) : Compiles x w' := by
  intro s
  obtain ⟨t, seg, k, l, e⟩ := h s
  exact ⟨t, seg, k, l, e.run, e.temp, e.labels, fun v hv => e.yields v (hw v hv)⟩

theorem onFixnums_eq_some {x y : Option Value} {f : Int → Int → Value} {v : Value} :
    onFixnums x y f = some v ↔
      ∃ m n, x = some (.fix m) ∧ y = some (.fix n) ∧ f m.val n.val = v := by
  have hfix : ∀ (v : Value) n, v.fixnum = some n ↔ v = .fix n := by
    intro v n
    cases v <;> simp [Value.fixnum]
  simp only [onFixnums, bind, Option.bind_eq_some_iff, hfix, pure, Option.some.injEq]
  constructor
  · rintro ⟨_, hx, m, rfl, _, hy, n, rfl, hv⟩
    exact ⟨m, n, hx, hy, hv⟩
  · rintro ⟨m, n, hx, hy, hv⟩
    exact ⟨_, hx, m, rfl, _, hy, n, rfl, hv⟩

theorem Compiles.fixnums {x y : LowerM Nat} {vx vy : Option Value} {f : Nat → Nat → LowerM Nat}
    {h : Int → Int → Value} (hx : Compiles x (vx.map Value.word))
    (hy : Compiles y (vy.map Value.word)) (hf : Combines f g)
    (hg : ∀ m n : Fixnum, g (Value.fix m).word (Value.fix n).word = (h m.val n.val).word) :
    Compiles (do let ta ← x; let tb ← y; f ta tb) ((onFixnums vx vy h).map Value.word) := by
  refine (hx.binary hy hf).mono ?_
  intro w hw
  obtain ⟨v, hv, rfl⟩ := Option.map_eq_some_iff.1 hw
  obtain ⟨m, n, rfl, rfl, rfl⟩ := onFixnums_eq_some.1 hv
  simp [hg]

theorem Branching.mono {x : Nat → Nat → LowerM Unit} {c c' : Option Bool} (h : Branching x c)
    (hc : ∀ b, c' = some b → c = some b) : Branching x c' := by
  intro s ltrue lfalse
  obtain ⟨seg, k, l, e⟩ := h s ltrue lfalse
  exact ⟨seg, k, l, e.run, e.labels, fun b hb => e.branch b (hc b hb)⟩

theorem Compiles.branching_true {x : LowerM Nat} {v : Option Value}
    (hx : Compiles x (v.map Value.word)) :
    Branching (fun ltrue lfalse => do let t ← x; branchTrue t ltrue lfalse)
      (v.map Value.truthy) := by
  have hdiff : Compiles (do let t ← x; let tFalse ← lowerConst 2; emitBin .sub t tFalse)
      ((v.map Value.word).map (· - 2)) := by
    refine hx.unary fun s tx htx => ⟨_, _, _, _,
      (Straight.const s 2).bind (Straight.bin _ (fun _ _ => rfl) tx _), fun a => ?_⟩
    simp [Nat.ne_of_lt htx]
  have h := hdiff.branching
  simp only [bind_assoc] at h
  refine h.mono fun b hb => ?_
  obtain ⟨v, rfl, rfl⟩ := Option.map_eq_some_iff.1 hb
  have hv := word_sub_two v
  cases ht : v.truthy <;> simp_all

theorem lowerTest_branching (c : Cmp) {x y : Datum} {vx vy : Option Value}
    (hx : Compiles (lowerExpr x) (vx.map Value.word))
    (hy : Compiles (lowerExpr y) (vy.map Value.word)) :
    Branching (fun ltrue lfalse => lowerTest c.op ltrue lfalse (form c.name [x, y]))
      ((onFixnums vx vy fun m n => .bool (c.holds m n)).map Value.truthy) := by
  have h := (hx.binary hy (combines_cmpWord c)).branching
  simp only [bind_assoc] at h
  simp only [form, List.foldr, lowerTest]
  refine h.mono fun b hb => ?_
  obtain ⟨v, hv, rfl⟩ := Option.map_eq_some_iff.1 hb
  obtain ⟨m, n, rfl, rfl, rfl⟩ := onFixnums_eq_some.1 hv
  have hc := cmpHolds_fixWord c m n
  cases hh : c.holds m.val n.val <;> simp_all [ofBool, Value.truthy]

/-- The test of an `if`, as `lower_if` chooses its path. -/
def lowerTestForm (test : Datum) (ltrue lfalse : Nat) : LowerM Unit :=
  match irCmp test with
  | some op => lowerTest op ltrue lfalse test
  | none => do
    let tTest ← lowerExpr test
    branchTrue tTest ltrue lfalse

theorem lowerIf_else (test x y : Datum) :
    lowerExpr (form "if" [test, x, y]) = branchCode (lowerTestForm test)
      (fun tr => do let t ← lowerExpr x; emitMov tr t)
      (fun tr => do let t ← lowerExpr y; emitMov tr t) := by
  simp only [form, List.foldr, lowerExpr, lowerIf, hasBranches, lowerBranches, branchCode,
    lowerTestForm, bind_assoc]
  cases irCmp test <;> simp

theorem lowerIf_nil (test x : Datum) :
    lowerExpr (form "if" [test, x]) = branchCode (lowerTestForm test)
      (fun tr => do let t ← lowerExpr x; emitMov tr t)
      (fun tr => emit { op := .lic, dst := some tr, imm := 0 }) := by
  simp only [form, List.foldr, lowerExpr, lowerIf, hasBranches, lowerBranches, branchCode,
    lowerTestForm, bind_assoc]
  cases irCmp test <;> simp

/-- The code of an expression as a value and as a test. -/
structure Correct (e : Arith) : Prop where
  value : Compiles (lowerExpr e.datum) (e.value.map Value.word)
  test : Branching (lowerTestForm e.datum) (e.value.map Value.truthy)

theorem Correct.of_value {e : Arith} (hcmp : irCmp e.datum = none)
    (h : Compiles (lowerExpr e.datum) (e.value.map Value.word)) : Correct e := by
  refine ⟨h, ?_⟩
  have htest : lowerTestForm e.datum = fun ltrue lfalse =>
      (do let t ← lowerExpr e.datum; branchTrue t ltrue lfalse) := by
    funext ltrue lfalse
    rw [lowerTestForm, hcmp]
  rw [htest]
  exact h.branching_true

theorem neg_compiles {x : Arith} (hx : Compiles (lowerExpr x.datum) (x.value.map Value.word)) :
    Compiles (lowerExpr (Arith.neg x).datum) ((Arith.neg x).value.map Value.word) := by
  have h : Compiles (do let ta ← lowerExpr x.datum; let tTwo ← lowerConst 2; emitBin .sub tTwo ta)
      ((x.value.map Value.word).map (2 - ·)) := by
    refine hx.unary fun s tx htx => ⟨_, _, _, _,
      (Straight.const s 2).bind (Straight.bin _ (fun _ _ => rfl) _ tx), fun a => ?_⟩
    simp [Nat.ne_of_lt htx]
  have hcode : lowerExpr (Arith.neg x).datum =
      (do let ta ← lowerExpr x.datum; let tTwo ← lowerConst 2; emitBin .sub tTwo ta) := by
    simp [Arith.datum, form, lowerExpr, lowerSub]
  rw [hcode]
  refine h.mono fun w hw => ?_
  cases hv : x.value with
  | none => simp [Arith.value, hv] at hw
  | some v =>
    cases v with
    | fix m =>
      simp [Arith.value, hv, Value.fixnum] at hw
      rw [← hw, ← neg_fixWord]
      rfl
    | bool b => simp [Arith.value, hv, Value.fixnum] at hw
    | nil => simp [Arith.value, hv, Value.fixnum] at hw

theorem bind_truthy (v : Option Value) (x y : Option Value) :
    ((v.map Value.truthy).bind fun c => if c then x.map Value.word else y.map Value.word) =
      (v.bind fun v => if v.truthy then x else y).map Value.word := by
  cases v with
  | none => rfl
  | some v => cases h : v.truthy <;> simp [h]

theorem arith_correct (e : Arith) : Correct e := by
  induction e with
  | lit n =>
    refine .of_value rfl ?_
    have h := compiles_const (n.val * 4 + 1)
    have hw : BitVec.ofInt 32 (n.val * 4 + 1) = (Value.fix n).word := by
      rw [Value.word, Int.mul_comm]
    rw [hw] at h
    exact h
  | bool b =>
    refine .of_value rfl ?_
    cases b <;> exact compiles_const _
  | add x y hx hy =>
    refine .of_value rfl ?_
    simpa [Arith.datum, form, lowerExpr, lowerAdd, Arith.value] using
      hx.value.fixnums hy.value combines_add add_fixWord
  | neg x hx => exact .of_value rfl (neg_compiles hx.value)
  | sub x y hx hy =>
    refine .of_value rfl ?_
    simpa [Arith.datum, form, lowerExpr, lowerSub, Arith.value] using
      hx.value.fixnums hy.value combines_sub sub_fixWord
  | mul x y hx hy =>
    refine .of_value rfl ?_
    simpa [Arith.datum, form, lowerExpr, lowerMul, Arith.value] using
      hx.value.fixnums hy.value combines_mul mul_fixWord
  | cmp c x y hx hy =>
    refine ⟨?_, ?_⟩
    · rw [Arith.datum, lowerExpr_cmp]
      refine hx.value.fixnums hy.value (combines_cmp c) ?_
      intro m n
      rw [cmpHolds_fixWord, Option.getD_some, boolWord]
    · have htest : lowerTestForm (Arith.cmp c x y).datum = fun ltrue lfalse =>
          lowerTest c.op ltrue lfalse (form c.name [x.datum, y.datum]) := by
        funext ltrue lfalse
        have hcmp : irCmp (form c.name [x.datum, y.datum]) = some c.op := cmpOp_name c
        rw [Arith.datum, lowerTestForm, hcmp]
      rw [htest]
      exact lowerTest_branching c hx.value hy.value
  | ite test x y ht hx hy =>
    refine .of_value rfl ?_
    have h := compiles_branch ht.test hx.value.filling hy.value.filling
    rw [bind_truthy] at h
    rw [Arith.datum, lowerIf_else]
    exact h
  | when test x ht hx =>
    refine .of_value rfl ?_
    have h := compiles_branch ht.test hx.value.filling (filling_lic 0)
    rw [Arith.datum, lowerIf_nil]
    have hnil : some (BitVec.ofInt 32 0) = (some Value.nil).map Value.word := rfl
    rw [hnil, bind_truthy] at h
    exact h

/-- Behind any code without its labels, `seg` runs from its first instruction to its end and
leaves `w` in `t`. -/
def Evaluates (seg : List Insn) (t : Nat) (w : Word) : Prop :=
  ∀ L pre post (σ : Vm), (∀ l ∈ labels seg, l ∉ labels pre) → σ.pc = pre.length →
    ∃ σ', Runs L (pre ++ seg ++ post) σ σ' ∧ σ'.pc = (pre ++ seg).length ∧ σ'.temp t = w

/-- Wherever `seg` stands, it runs to `ltrue` or to `lfalse`, as `c` says. -/
def Takes (seg : List Insn) (ltrue lfalse : Nat) (c : Bool) : Prop :=
  ∀ L code qt qf (σ : Vm), At code σ.pc seg → findLabel ltrue code = some qt →
    findLabel lfalse code = some qf → ∃ σ', Runs L code σ σ' ∧ σ'.pc = if c then qt else qf

theorem Emits.evaluates {s : Lowering} {x : LowerM Nat} {w : Word} {t k l : Nat} {seg : List Insn}
    (e : Emits s x (some w) t seg k l) : Evaluates seg t w := by
  rintro L pre post ⟨_, a, m⟩ hpre rfl
  obtain ⟨q, b, hrun, rfl, ht, -⟩ :=
    e.yields w rfl L _ _ a (At.of_append hpre e.labels.2 post) m
  exact ⟨_, hrun, by simp, ht⟩

theorem Branches.takes {s : Lowering} {x : LowerM Unit} {ltrue lfalse k l : Nat} {c : Bool}
    {seg : List Insn} (e : Branches s x ltrue lfalse (some c) seg k l) :
    Takes seg ltrue lfalse c := by
  rintro L code qt qf ⟨p, a, m⟩ hat ht hf
  obtain ⟨q, b, hrun, hq, -⟩ := e.branch c rfl L code p a qt qf hat ht hf m
  exact ⟨_, hrun, hq⟩

/-- The code of an expression leaves the tagged word of its value; and a comparison branches
the same way through the shortcut of `lower_if` and through its general path. -/
theorem arith_compiled (e : Arith) (v : Value) (hv : e.value = some v) (s : Lowering) :
    (∃ t seg s', lowerExpr e.datum s = .ok (t, s') ∧ s'.fn.code = s.fn.code ++ seg ∧
      (∀ l ∈ labels seg, s.fn.nlabels ≤ l) ∧ Evaluates seg t v.word) ∧
    ∀ c x y, e = .cmp c x y → ∀ ltrue lfalse, ∃ seg seg' s' s'',
      lowerTest c.op ltrue lfalse e.datum s = .ok ((), s') ∧ s'.fn.code = s.fn.code ++ seg ∧
      (lowerExpr e.datum >>= fun t => branchTrue t ltrue lfalse) s = .ok ((), s'') ∧
        s''.fn.code = s.fn.code ++ seg' ∧
      Takes seg ltrue lfalse v.truthy ∧ Takes seg' ltrue lfalse v.truthy := by
  have hcode := arith_correct e
  constructor
  · obtain ⟨t, seg, k, l, h⟩ := hcode.value s
    rw [hv] at h
    exact ⟨t, seg, _, h.run, rfl, fun j hj => (h.labels.1 j hj).1, h.evaluates⟩
  · rintro c x y rfl ltrue lfalse
    have hshort := lowerTest_branching c (arith_correct x).value (arith_correct y).value
    obtain ⟨seg, k, l, h⟩ := hshort s ltrue lfalse
    obtain ⟨seg', k', l', h'⟩ := hcode.value.branching_true s ltrue lfalse
    have hv' : onFixnums x.value y.value (fun m n => .bool (c.holds m n)) = some v := hv
    rw [hv'] at h
    rw [hv] at h'
    exact ⟨seg, seg', _, _, h.run, rfl, h'.run, rfl, h.takes, h'.takes⟩

/-- `(< (* 3 4) (+ 536870911 1))`, where the sum wraps -/
def wrappedSum : Arith :=
  .cmp .lt (.mul (.lit (wrap 3)) (.lit (wrap 4))) (.add (.lit (wrap 536870911)) (.lit (wrap 1)))

theorem arith_compiled_wrapped :
    wrappedSum.value = some (.bool false) ∧
      ∃ t seg s', lowerExpr wrappedSum.datum { fn := irNewFunc "main" } = .ok (t, s') ∧
        s'.fn.code = [] ++ seg ∧ (∀ l ∈ labels seg, 0 ≤ l) ∧ Evaluates seg t 2 :=
  ⟨by decide, (arith_compiled wrappedSum (.bool false) (by decide) { fn := irNewFunc "main" }).1⟩

end MechanicalResearcher.PortableCompiler.Scheme
