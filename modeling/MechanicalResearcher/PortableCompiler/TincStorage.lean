import MechanicalResearcher.PortableCompiler.IrExec
import MechanicalResearcher.PortableCompiler.Tinc

/-!
# Storage of TinC variables

`lower_global` of `tinc/lower.c` with `emit_globals` of `backend/cf_emit.c`, and what the code for
an access to a scalar variable does to the memory.

A variable is read and stored by its name or through `*(&x)`.  Whether the reads and stores of one
variable agree depends on where it is kept and on its base type only, so it is decided once for
all accesses: `loadOf` and `storeOf` are what the lowered code computes.
-/

namespace MechanicalResearcher.PortableCompiler.Tinc

open Lib.ByteMemory

variable {s : Lowering} {L : Layout} {m m' : Mem} {w a : Word}

/-! ## Globals -/

inductive Init
  | str (text : List UInt8)
  | list (elems : List Expr)
  | expr (e : Expr)

structure GlobalDecl where
  line : Nat
  name : String
  baseType : Ty
  isPtr : Bool
  arrSize : Int
  init : Option Init

/-- `struct ir_global` -/
structure Global where
  name : String
  baseType : Ty
  arrSize : Int
  isPtr : Bool
  initString : Option (List UInt8) := none
  initIvals : List Int := []

/-- `N_NUM` or `N_CHARLIT` -/
def constant : Expr → Option Int
  | .num _ v => some v
  | .charlit _ v => some v
  | _ => none

/-- An element of a list may also be the negation of a constant. -/
def listConstant : Expr → Option Int
  | .unop _ .minus e => (constant e).map (- ·)
  | e => constant e

def listConstants (line : Nat) : List Expr → Except String (List Int)
  | [] => .ok []
  | e :: es =>
    match listConstant e with
    | none => .error s!"lower:{line}: non-constant initializer"
    | some v =>
      match listConstants line es with
      | .error msg => .error msg
      | .ok vs => .ok (v :: vs)

def lowerInit (gn : GlobalDecl) (g : Global) : Except String Global :=
  match gn.init with
  | none => .ok g
  | some (.str text) => .ok { g with initString := some (text ++ [0]) }
  | some (.list es) =>
    match listConstants gn.line es with
    | .error msg => .error msg
    | .ok vs =>
      .ok { g with initIvals := vs, arrSize := if g.arrSize = 0 then es.length else g.arrSize }
  | some (.expr e) =>
    match constant e with
    | none => .error s!"lower:{gn.line}: non-constant initializer"
    | some v => .ok { g with initIvals := [v] }

def lowerGlobal (gn : GlobalDecl) : Except String (Global × Gsym) :=
  match lowerInit gn ⟨gn.name, gn.baseType, gn.arrSize, gn.isPtr, none, []⟩ with
  | .error msg => .error msg
  | .ok g => .ok (g, ⟨g.name, false, gn.baseType, g.arrSize > 0, g.isPtr⟩)

/-- `.long` -/
def longBytes (v : Int) : List (BitVec 8) :=
  let w := BitVec.ofInt 32 v
  [w.extractLsb' 24 8, w.extractLsb' 16 8, w.extractLsb' 8 8, w.extractLsb' 0 8]

/-- The bytes of one element. -/
def elemBytes (elsz : Nat) (v : Int) : List (BitVec 8) :=
  if elsz = 1 then [BitVec.ofInt 8 v] else longBytes v

/-- The data that `emit_globals` puts at the name of the variable. -/
def emitGlobal (g : Global) : List (BitVec 8) :=
  let elsz := if g.baseType = .char ∧ g.arrSize > 0 then 1 else 4
  match g.initString with
  | some text => text.map UInt8.toBitVec
  | none =>
    if g.initIvals ≠ [] then
      g.initIvals.flatMap (elemBytes elsz) ++
        List.replicate ((g.arrSize - g.initIvals.length).toNat * elsz) 0
    else if g.arrSize > 0 then List.replicate (g.arrSize.toNat * elsz) 0
    else List.replicate 4 0

/-! ## Straight code -/

/-- One instruction after another. -/
def runStraight (L : Layout) : List Insn → Temps → Mem → Option (Temps × Mem)
  | [], t, m => some (t, m)
  | i :: seg, t, m =>
    match irStep L [i] ⟨0, t, m⟩ with
    | none => none
    | some σ => runStraight L seg σ.temp σ.mem

/-! ## Accesses to a variable -/

/-- How an access names the variable: `x` or `*(&x)`. -/
inductive Way
  | name | deref
  deriving DecidableEq, Repr

def place (line : Nat) (x : String) : Way → Expr
  | .name => .name line x
  | .deref => .unop line .star (.unop line .amp (.name line x))

/-- The symbol that an access finds: that of a local or a parameter, or that of a global. -/
inductive Sym
  | loc (ls : Lsym)
  | glob (gs : Gsym)
  deriving DecidableEq, Repr

namespace Sym

def name : Sym → String
  | .loc ls => ls.name
  | .glob gs => gs.name

def Found (s : Lowering) : Sym → Prop
  | .loc ls => findLsym s ls.name = some ls
  | .glob gs => findLsym s gs.name = none ∧ findGsym s gs.name = some gs

def addr (L : Layout) : Sym → Word
  | .loc ls => L.slotAddr ls.slot
  | .glob gs => L.symAddr gs.name

/-- A variable that reads as its value. -/
def Scalar : Sym → Prop
  | .loc ls => ls.isArray = false
  | .glob gs => gs.isFunc = false

end Sym

/-- The value `w` is read by the code of `e` from the memory `m`. -/
def ReadsAs (L : Layout) (s : Lowering) (e : Expr) (m : Mem) (w : Word) : Prop :=
  ∃ v s' seg, lowerExpr e s = .ok (v, s') ∧ s'.fn.code = s.fn.code ++ seg ∧
    ∀ t, ∃ t', runStraight L seg t m = some (t', m) ∧ t' v.temp = w

/-- The code of an assignment to `e` after that of its right side, which left its value in `r`. -/
def lowerStore (e : Expr) (r : Val) : LowerM Val := lowerAssign e.nameOf e.lower.addr (pure r)

/-- The value `w` is stored by the code of an assignment to `e`, and `m'` is the memory then. -/
def StoresAs (L : Layout) (s : Lowering) (e : Expr) (w : Word) (m m' : Mem) : Prop :=
  ∃ r v s' seg, lowerStore e r s = .ok (v, s') ∧ s'.fn.code = s.fn.code ++ seg ∧
    r.temp < s.fn.ntemps ∧
    ∃ t t', t r.temp = w ∧ runStraight L seg t m = some (t', m')

/-! ## What an access does -/

def loadAs (bt : Ty) (m : Mem) (a : Word) : Word :=
  if bt = .char then (readB m a).zeroExtend 32 else readL m a

def storeAs (bt : Ty) (m : Mem) (a w : Word) : Mem :=
  if bt = .char then writeB m a (w.truncate 8) else writeL m a w

/-- A local is read as a word by its name and by its base type through its address. -/
def Sym.load (L : Layout) (m : Mem) : Sym → Way → Word
  | .loc ls, .name => readL m (L.slotAddr ls.slot)
  | .loc ls, .deref => loadAs ls.baseType m (L.slotAddr ls.slot)
  | .glob gs, .name =>
    if gs.isArray then L.symAddr gs.name else loadAs gs.baseType m (L.symAddr gs.name)
  | .glob gs, .deref => loadAs gs.baseType m (L.symAddr gs.name)

def Sym.store (L : Layout) (m : Mem) (w : Word) : Sym → Way → Mem
  | .loc ls, .name => writeL m (L.slotAddr ls.slot) w
  | .loc ls, .deref => storeAs ls.baseType m (L.slotAddr ls.slot) w
  | .glob gs, _ => storeAs gs.baseType m (L.symAddr gs.name) w

theorem bind_of_ok {α β : Type} {x : LowerM α} {f : α → LowerM β} {s' : Lowering} {a : α}
    (h : x s = .ok (a, s')) : (x >>= f) s = f a s' := by
  simp only [bind, StateT.bind, Except.bind, h]

theorem emitDst_ok (i : Insn) (s : Lowering) :
    emitDst i s = .ok (s.fn.ntemps, s.push [{ i with dst := some s.fn.ntemps }] 1 0) :=
  emitDst_eq_ok.2 ⟨rfl, rfl⟩

theorem emit_ok (i : Insn) (s : Lowering) : emit i s = .ok ((), s.push [i] 0 0) :=
  emit_eq_ok.2 rfl

def loadInsn (bt : Ty) (d a : Nat) : Insn := { op := loadOp bt, dst := some d, a := some a }

def storeInsn (bt : Ty) (a b : Nat) : Insn :=
  { op := if bt == .char then .sb else .sw, a := some a, b := some b }

theorem irStep_loadInsn (L : Layout) (bt : Ty) (t : Temps) (m : Mem) (d a : Nat) :
    irStep L [loadInsn bt d a] ⟨0, t, m⟩ =
      some ⟨1, Function.update t d (loadAs bt m (t a)), m⟩ := by
  cases bt <;> simp [irStep, loadInsn, loadOp, Insn.value, PortableCompiler.load, loadAs]

theorem irStep_storeInsn (L : Layout) (bt : Ty) (t : Temps) (m : Mem) (a b : Nat) :
    irStep L [storeInsn bt a b] ⟨0, t, m⟩ = some ⟨1, t, storeAs bt m (t a) (t b)⟩ := by
  cases bt <;> simp [irStep, storeInsn, PortableCompiler.store, storeAs]

/-- The address of a variable, with its base type. -/
def Sym.baseType : Sym → Ty
  | .loc ls => ls.baseType
  | .glob gs => gs.baseType

/-- The instruction that puts the address of a variable in a temp. -/
def Sym.addrInsn (d : Nat) : Sym → Insn
  | .loc ls => { op := .adl, dst := some d, slot := some ls.slot }
  | .glob gs => { op := .lea, dst := some d, sym := gs.name }

theorem irStep_addrInsn (L : Layout) (v : Sym) (t : Temps) (m : Mem) (d : Nat) :
    irStep L [v.addrInsn d] ⟨0, t, m⟩ = some ⟨1, Function.update t d (v.addr L), m⟩ := by
  cases v <;> simp [irStep, Sym.addrInsn, Insn.value, Sym.addr]

theorem nameAddr_ok {v : Sym} (hf : v.Found s) (line : Nat) :
    nameAddr line v.name s =
      .ok (⟨s.fn.ntemps, v.baseType⟩, s.push [v.addrInsn s.fn.ntemps] 1 0) := by
  unfold nameAddr
  rw [get_bind]
  cases v with
  | loc ls =>
    have hf : findLsym s ls.name = some ls := hf
    simp only [Sym.name, hf]
    rw [bind_of_ok (emitDst_ok _ _)]
    rfl
  | glob gs =>
    obtain ⟨hl, hg⟩ := hf
    simp only [Sym.name, hl, hg]
    rw [bind_of_ok (emitDst_ok _ _)]
    rfl

theorem lower_deref {v : Sym} (hf : v.Found s) (line : Nat) :
    lowerExpr (place line v.name .deref) s =
      .ok (mkval (s.fn.ntemps + 1) v.baseType false,
        s.push [v.addrInsn s.fn.ntemps, loadInsn v.baseType (s.fn.ntemps + 1) s.fn.ntemps]
          2 0) := by
  simp only [lowerExpr, place, Expr.lower, plain, lowerUnop]
  rw [bind_of_ok (by rw [bind_of_ok (nameAddr_ok hf line)]; rfl)]
  simp only [Tinc.load]
  rw [bind_of_ok (emitDst_ok _ _)]
  simp only [mkval, push_ntemps, push_push]
  rfl

theorem runStraight_load (L : Layout) (v : Sym) (bt : Ty) (d : Nat) (t : Temps) (m : Mem) :
    ∃ t', runStraight L [v.addrInsn d, loadInsn bt (d + 1) d] t m = some (t', m) ∧
      t' (d + 1) = loadAs bt m (v.addr L) := by
  simp only [runStraight, irStep_addrInsn, irStep_loadInsn]
  exact ⟨_, rfl, by simp⟩

theorem runStraight_store (L : Layout) (v : Sym) (bt : Ty) {d r : Nat} (hr : r < d) (t : Temps)
    (m : Mem) : ∃ t', runStraight L [v.addrInsn d, storeInsn bt d r] t m =
      some (t', storeAs bt m (v.addr L) (t r)) := by
  simp only [runStraight, irStep_addrInsn, irStep_storeInsn]
  rw [Function.update_self, Function.update_of_ne (Nat.ne_of_lt hr)]
  exact ⟨_, rfl⟩

theorem lower_place {v : Sym} (hv : v.Scalar) (hf : v.Found s) (line : Nat) (way : Way) :
    ∃ r seg k, lowerExpr (place line v.name way) s = .ok (r, s.push seg k 0) ∧
      ∀ L t m, ∃ t', runStraight L seg t m = some (t', m) ∧ t' r.temp = v.load L m way := by
  cases way with
  | deref =>
    refine ⟨_, _, _, lower_deref hf line, fun L t m => ?_⟩
    have hrun := runStraight_load L v v.baseType s.fn.ntemps t m
    cases v <;> exact hrun
  | name =>
    simp only [lowerExpr, place, Expr.lower, plain, nameExpr]
    rw [get_bind]
    cases v with
    | loc ls =>
      have hf : findLsym s ls.name = some ls := hf
      have hv : ls.isArray = false := hv
      simp only [Sym.name, hf, hv, Bool.false_eq_true, if_false]
      rw [bind_of_ok (emitDst_ok _ _)]
      refine ⟨_, _, _, rfl, fun L t m => ?_⟩
      refine ⟨Function.update t s.fn.ntemps (readL m (L.slotAddr ls.slot)), ?_, ?_⟩
      · simp [runStraight, irStep, Insn.value]
      · simp [mkval, Sym.load]
    | glob gs =>
      obtain ⟨hl, hg⟩ := hf
      have hv : gs.isFunc = false := hv
      simp only [Sym.name, hl, hg]
      rw [bind_of_ok (emitDst_ok _ _)]
      simp only [hv, Bool.false_eq_true, if_false]
      by_cases ha : gs.isArray = true
      · rw [if_pos ha]
        refine ⟨_, _, _, rfl, fun L t m => ?_⟩
        refine ⟨Function.update t s.fn.ntemps (L.symAddr gs.name), ?_, ?_⟩
        · simp [runStraight, irStep, Insn.value]
        · simp [Sym.load, ha]
      · rw [if_neg ha, bind_of_ok (emitDst_ok _ _), push_push, push_ntemps]
        refine ⟨_, _, _, rfl, fun L t m => ?_⟩
        have hrun := runStraight_load L (.glob gs) gs.baseType s.fn.ntemps t m
        rw [Sym.load, if_neg ha]
        exact hrun

theorem readsAs_iff {v : Sym} (hv : v.Scalar) (hf : v.Found s) {line : Nat} {way : Way} :
    ReadsAs L s (place line v.name way) m w ↔ w = v.load L m way := by
  obtain ⟨r, seg, k, hlow, hrun⟩ := lower_place hv hf line way
  constructor
  · rintro ⟨r', s', seg', hlow', hcode, hread⟩
    rw [hlow] at hlow'
    cases hlow'
    obtain rfl : seg = seg' := List.append_cancel_left hcode
    obtain ⟨t', ht', hw⟩ := hread fun _ => 0
    obtain ⟨t'', ht'', hw'⟩ := hrun L (fun _ => 0) m
    rw [ht'] at ht''
    cases ht''
    rw [← hw, hw']
  · rintro rfl
    exact ⟨r, _, seg, hlow, rfl, fun t => hrun L t m⟩

theorem isByte_place {v : Sym} (hf : v.Found s) (line : Nat) (way : Way) :
    isByte s (place line v.name way).nameOf v.baseType = (v.baseType == .char) := by
  cases way with
  | deref => rfl
  | name =>
    cases v with
    | loc ls =>
      have hf : findLsym s ls.name = some ls := hf
      simp [place, Expr.nameOf, isByte, Sym.name, hf]
    | glob gs =>
      obtain ⟨hl, hg⟩ := hf
      simp [place, Expr.nameOf, isByte, Sym.name, hl, hg, Sym.baseType]

theorem found_push {v : Sym} (hf : v.Found s) (seg : List Insn) (k l : Nat) :
    v.Found (s.push seg k l) := by
  cases v <;> exact hf

theorem addr_place {v : Sym} (hf : v.Found s) (line : Nat) (way : Way) :
    (place line v.name way).lower.addr s =
      .ok (⟨s.fn.ntemps, v.baseType⟩, s.push [v.addrInsn s.fn.ntemps] 1 0) := by
  cases way with
  | name => exact nameAddr_ok hf line
  | deref =>
    simp only [place, Expr.lower, plain, lowerUnop, starAddr]
    rw [bind_of_ok (by rw [bind_of_ok (nameAddr_ok hf line)]; rfl)]
    rfl

theorem lowerStore_place {v : Sym} (hv : v.Scalar) (hf : v.Found s) (line : Nat) (way : Way)
    {r : Val} (hr : r.temp < s.fn.ntemps) :
    ∃ seg k, lowerStore (place line v.name way) r s = .ok (r, s.push seg k 0) ∧
      ∀ L t m, ∃ t', runStraight L seg t m = some (t', v.store L m (t r.temp) way) := by
  -- every store but that of a local by its name goes through the address
  have hgen : ((place line v.name way).nameOf.bind (findLsym s)).filter (fun ls => !ls.isArray) =
        none → (∀ L m w, v.store L m w way = storeAs v.baseType m (v.addr L) w) →
      ∃ seg k, lowerStore (place line v.name way) r s = .ok (r, s.push seg k 0) ∧
        ∀ L t m, ∃ t', runStraight L seg t m = some (t', v.store L m (t r.temp) way) := by
    intro hnone hstore
    refine ⟨[v.addrInsn s.fn.ntemps, storeInsn v.baseType s.fn.ntemps r.temp], 1, ?_, ?_⟩
    · simp only [lowerStore, lowerAssign, pure_bind]
      rw [get_bind]
      simp only [hnone]
      rw [bind_of_ok (addr_place hf line way), get_bind, isByte_place (found_push hf _ _ _),
        bind_of_ok (emit_ok _ _), push_push]
      rfl
    · intro L t m
      rw [hstore]
      exact runStraight_store L v v.baseType hr t m
  cases v with
  | glob gs =>
    refine hgen ?_ (fun L m w => rfl)
    cases way with
    | name => simp [place, Expr.nameOf, Sym.name, hf.1]
    | deref => rfl
  | loc ls =>
    cases way with
    | deref => exact hgen rfl (fun L m w => rfl)
    | name =>
      have hf : findLsym s ls.name = some ls := hf
      have hv : ls.isArray = false := hv
      refine ⟨[{ op := .stl, a := some r.temp, slot := some ls.slot }], 0, ?_, fun L t m => ?_⟩
      · simp only [lowerStore, lowerAssign, pure_bind, place, Expr.nameOf, Sym.name]
        rw [get_bind]
        simp only [Option.bind_some, hf, Option.filter, hv, Bool.not_false, if_true]
        rw [bind_of_ok (emit_ok _ _)]
        rfl
      · exact ⟨t, by simp [runStraight, irStep, Sym.store]⟩

theorem storesAs_iff {v : Sym} (hv : v.Scalar) (hf : v.Found s) (hs : 0 < s.fn.ntemps) {line : Nat}
    {way : Way} :
    StoresAs L s (place line v.name way) w m m' ↔ m' = v.store L m w way := by
  constructor
  · rintro ⟨r, r', s', seg, hlow, hcode, hr, t, t', rfl, hrun⟩
    obtain ⟨seg', k, hlow', hrun'⟩ := lowerStore_place hv hf line way hr
    rw [hlow'] at hlow
    cases hlow
    obtain rfl : seg' = seg := List.append_cancel_left hcode
    obtain ⟨t'', ht''⟩ := hrun' L t m
    rw [hrun] at ht''
    cases ht''
    rfl
  · rintro rfl
    have hr : (mkval 0 .int false).temp < s.fn.ntemps := hs
    obtain ⟨seg, k, hlow, hrun⟩ := lowerStore_place hv hf line way hr
    obtain ⟨t', ht'⟩ := hrun L (fun _ => w) m
    exact ⟨_, _, _, seg, hlow, rfl, hr, fun _ => w, t', rfl, ht'⟩

/-! ## Declared variables -/

/-- The symbol of a parameter in its slot. -/
def Param.sym (p : Param) (slot : Nat) : Lsym := ⟨p.name, slot, p.baseType, false, p.isPtr, 0⟩

/-- The symbol of a local in its slot. -/
def Decl.sym (d : Decl) (slot : Nat) : Lsym :=
  ⟨d.name, slot, d.baseType, d.arrSize > 0, d.isPtr, d.arrSize⟩

/-- The symbols of the parameters, from the slot `k` on. -/
def paramSyms (k : Nat) (params : List Param) : List Lsym := params.mapIdx fun i p => p.sym (k + i)

/-- The symbols of declarations, from the slot `k` on. -/
def declSyms (k : Nat) (decls : List Decl) : List Lsym := decls.mapIdx fun i d => d.sym (k + i)

/-- A scalar variable as the program declares it. -/
inductive Variable
  | param (p : Param) (slot : Nat)
  | auto (d : Decl) (slot : Nat) (scalar : d.arrSize = 0)
  | global (gn : GlobalDecl) (g : Global) (gs : Gsym) (scalar : gn.arrSize = 0)
      (lowered : lowerGlobal gn = .ok (g, gs))

namespace Variable

def sym : Variable → Sym
  | .param p slot => .loc (p.sym slot)
  | .auto d slot _ => .loc (d.sym slot)
  | .global _ _ gs _ _ => .glob gs

def baseType : Variable → Ty
  | .param p _ => p.baseType
  | .auto d _ _ => d.baseType
  | .global gn _ _ _ _ => gn.baseType

def isPtr : Variable → Bool
  | .param p _ => p.isPtr
  | .auto d _ _ => d.isPtr
  | .global gn _ _ _ _ => gn.isPtr

/-- A `char` holds 8 bits. -/
def reduce (v : Variable) (w : Word) : Word :=
  if v.baseType = .char ∧ v.isPtr = false then (w.truncate 8).zeroExtend 32 else w

/-- The memory of a program that starts has the data of the global in the place of it. -/
def Initial (L : Layout) (m : Mem) : Variable → Prop
  | .global _ g gs _ _ =>
    ∀ k < 4, ∀ b, (emitGlobal g)[k]? = some b → m (L.symAddr gs.name + BitVec.ofNat 32 k) = b
  | _ => True

end Variable

/-- The value of an initializer at the address `a`; that of a string is where its text is. -/
def Init.value (a : Word) : Init → Word
  | .str _ => a
  | .list es => BitVec.ofInt 32 ((es.head?.bind listConstant).getD 0)
  | .expr e => BitVec.ofInt 32 ((constant e).getD 0)

/-- The value of a variable before any store. -/
def Variable.declared (L : Layout) (v : Variable) : Option Word :=
  match v with
  | .global gn _ gs _ _ => some (v.reduce ((gn.init.map (Init.value (L.symAddr gs.name))).getD 0))
  | _ => none

/-- The value that the variable should have when `last` was stored last. -/
def Variable.expected (L : Layout) (v : Variable) : Option Word → Option Word
  | some w => some (v.reduce w)
  | none => v.declared L

/-- The memory on the runs of a program from the memory `m0` on, with the word that was stored
last in the variable.  Code that is not a store to the variable leaves its bytes alone. -/
inductive Accessed (L : Layout) (v : Sym) (m0 : Mem) : Option Word → Mem → Prop
  | start : Accessed L v m0 none m0
  | store {last : Option Word} {m m' : Mem} {s : Lowering} {line : Nat} {way : Way} {w : Word}
      (before : Accessed L v m0 last m) (found : v.Found s)
      (stores : StoresAs L s (place line v.name way) w m m') : Accessed L v m0 (some w) m'
  | other {last : Option Word} {m m' : Mem} (before : Accessed L v m0 last m)
      (same : SameL m m' (v.addr L)) : Accessed L v m0 last m'

/-- Every read gives the value of the last store, and before it the declared value. -/
def Variable.Consistent (v : Variable) : Prop :=
  ∀ L m0, v.Initial L m0 → ∀ last m, Accessed L v.sym m0 last m →
    ∀ w, v.expected L last = some w → ∀ s line way, v.sym.Found s →
      ReadsAs L s (place line v.sym.name way) m w

/-- The highest byte of the constant, which stands first in the memory, is the lowest one. -/
def sameEnds (k : Int) : Prop :=
  (BitVec.ofInt 32 k).extractLsb' 24 8 = (BitVec.ofInt 32 k).extractLsb' 0 8

/-- The initializer is no string and no list with elements, and that of a `char` is a constant
with the same ends. -/
def Init.fits (bt : Ty) : Init → Prop
  | .str _ => False
  | .list es => es = []
  | .expr e => bt = .char → ∀ k, constant e = some k → sameEnds k

/-- All the accesses have one width, and so have the data. -/
def Variable.Uniform : Variable → Prop
  | .param p _ => p.baseType = .int
  | .auto d _ _ => d.baseType = .int
  | .global gn _ _ _ _ =>
    (gn.baseType = .char → gn.isPtr = false) ∧ ∀ init, gn.init = some init → init.fits gn.baseType

/-! ## Consistent variables -/

theorem loadAs_storeAs (bt : Ty) (m : Mem) (a w : Word) :
    loadAs bt (storeAs bt m a w) a =
      if bt = .char then (w.truncate 8).zeroExtend 32 else w := by
  cases bt with
  | int => simp [loadAs, storeAs, readL_writeL]
  | char => simp [loadAs, storeAs, readB, writeB]

theorem loadAs_same {bt : Ty} (h : SameL m m' a) :
    loadAs bt m' a = loadAs bt m a := by
  cases bt with
  | int => exact h.readL
  | char =>
    simp only [loadAs, if_true, readB]
    rw [h.byte0]

theorem storesAs_ntemps {e : Expr} (h : StoresAs L s e w m m') : 0 < s.fn.ntemps := by
  obtain ⟨r, -, -, -, -, -, hr, -⟩ := h
  exact Nat.zero_lt_of_lt hr

theorem Variable.scalar (v : Variable) : v.sym.Scalar := by
  cases v with
  | param p slot => rfl
  | auto d slot h => simp [Variable.sym, Sym.Scalar, Decl.sym, h]
  | global gn g gs h hlow =>
    unfold lowerGlobal at hlow
    cases hi : lowerInit gn ⟨gn.name, gn.baseType, gn.arrSize, gn.isPtr, none, []⟩ with
    | error e => simp [hi] at hlow
    | ok g' =>
      simp only [hi, Except.ok.injEq, Prod.mk.injEq] at hlow
      simp [Variable.sym, Sym.Scalar, ← hlow.2]

theorem consistent_of_access {v : Variable}
    (hload : ∀ L m way, v.sym.load L m way = loadAs v.baseType m (v.sym.addr L))
    (hstore : ∀ L m w way, v.sym.store L m w way = storeAs v.baseType m (v.sym.addr L) w)
    (hptr : v.baseType = .char → v.isPtr = false)
    (hinit : ∀ L m0, v.Initial L m0 → ∀ w, v.declared L = some w →
      loadAs v.baseType m0 (v.sym.addr L) = w) : v.Consistent := by
  intro L m0 hm0 last m hacc w hw s line way hf
  rw [readsAs_iff v.scalar hf, hload]
  induction hacc generalizing w with
  | start => exact (hinit L m0 hm0 w hw).symm
  | store before found stores ih =>
    rw [storesAs_iff v.scalar found (storesAs_ntemps stores)] at stores
    subst stores
    rw [hstore, loadAs_storeAs]
    simp only [Variable.expected, Option.some.injEq] at hw
    rw [← hw, Variable.reduce]
    by_cases hc : v.baseType = .char
    · rw [if_pos ⟨hc, hptr hc⟩, if_pos hc]
    · rw [if_neg (fun h => hc h.1), if_neg hc]
  | other before same ih =>
    rw [loadAs_same same]
    exact ih w hw

/-! ## The data of a global -/

theorem lowerGlobal_eq_ok {gn : GlobalDecl} {g : Global} {gs : Gsym}
    (h : lowerGlobal gn = .ok (g, gs)) :
    lowerInit gn ⟨gn.name, gn.baseType, gn.arrSize, gn.isPtr, none, []⟩ = .ok g ∧
      gs = ⟨g.name, false, gn.baseType, g.arrSize > 0, g.isPtr⟩ := by
  unfold lowerGlobal at h
  split at h
  · cases h
  · cases h
    exact ⟨by assumption, rfl⟩

theorem lowerGlobal_cases {gn : GlobalDecl} {g : Global} {gs : Gsym} (h0 : gn.arrSize = 0)
    (h : lowerGlobal gn = .ok (g, gs)) :
    (gn.init = none ∧ g = ⟨gn.name, gn.baseType, 0, gn.isPtr, none, []⟩) ∨
    (∃ text, gn.init = some (.str text) ∧
      g = ⟨gn.name, gn.baseType, 0, gn.isPtr, some (text ++ [0]), []⟩) ∨
    (∃ es vs, gn.init = some (.list es) ∧ listConstants gn.line es = .ok vs ∧
      g = ⟨gn.name, gn.baseType, es.length, gn.isPtr, none, vs⟩) ∨
    (∃ e k, gn.init = some (.expr e) ∧ constant e = some k ∧
      g = ⟨gn.name, gn.baseType, 0, gn.isPtr, none, [k]⟩) := by
  have hg := (lowerGlobal_eq_ok h).1
  rw [h0] at hg
  unfold lowerInit at hg
  cases hi : gn.init with
  | none =>
    simp only [hi, Except.ok.injEq] at hg
    exact .inl ⟨rfl, hg.symm⟩
  | some init =>
    cases init with
    | str text =>
      simp only [hi, Except.ok.injEq] at hg
      exact .inr (.inl ⟨text, rfl, hg.symm⟩)
    | list es =>
      cases hes : listConstants gn.line es with
      | error e => simp [hi, hes] at hg
      | ok vs =>
        simp only [hi, hes, if_true, Except.ok.injEq] at hg
        exact .inr (.inr (.inl ⟨es, vs, rfl, hes, hg.symm⟩))
    | expr e =>
      cases he : constant e with
      | none => simp [hi, he] at hg
      | some k =>
        simp only [hi, he, Except.ok.injEq] at hg
        exact .inr (.inr (.inr ⟨e, k, rfl, he, hg.symm⟩))

theorem readL_of_data {k : Int}
    (h : ∀ j < 4, ∀ b, (longBytes k)[j]? = some b → m (a + BitVec.ofNat 32 j) = b) :
    readL m a = BitVec.ofInt 32 k := by
  have h0 := h 0 (by omega) _ rfl
  have h1 := h 1 (by omega) _ rfl
  have h2 := h 2 (by omega) _ rfl
  have h3 := h 3 (by omega) _ rfl
  rw [BitVec.add_zero] at h0
  simp only [readL]
  rw [h0, show m (a + 1) = _ from h1, show m (a + 2) = _ from h2, show m (a + 3) = _ from h3]
  exact concat_bytes _

theorem readB_of_data {k : Int}
    (h : ∀ j < 4, ∀ b, (longBytes k)[j]? = some b → m (a + BitVec.ofNat 32 j) = b) :
    readB m a = (BitVec.ofInt 32 k).extractLsb' 24 8 := by
  have h0 := h 0 (by omega) _ rfl
  rwa [BitVec.add_zero] at h0

theorem emitGlobal_empty (name : String) (bt : Ty) (ptr : Bool) :
    emitGlobal ⟨name, bt, 0, ptr, none, []⟩ = longBytes 0 := by
  simp [emitGlobal, longBytes]

theorem emitGlobal_const (name : String) (bt : Ty) (ptr : Bool) (k : Int) :
    emitGlobal ⟨name, bt, 0, ptr, none, [k]⟩ = longBytes k := by
  simp [emitGlobal, elemBytes]

/-- The memory with the data of the global in its place. -/
def withData (bs : List (BitVec 8)) (a : Word) : Mem := fun x => (bs[(x - a).toNat]?).getD 0

theorem withData_get {bs : List (BitVec 8)} {k : Nat} {b : BitVec 8} (hk : k < 4)
    (h : bs[k]? = some b) : withData bs a (a + BitVec.ofNat 32 k) = b := by
  have hadd : (a + BitVec.ofNat 32 k - a).toNat = k := by
    rw [BitVec.add_comm, BitVec.add_sub_cancel, BitVec.toNat_ofNat]
    omega
  rw [withData, hadd, h, Option.getD_some]

theorem Variable.exists_initial (v : Variable) (L : Layout) : ∃ m, v.Initial L m := by
  cases v with
  | param p slot => exact ⟨fun _ => 0, trivial⟩
  | auto d slot h => exact ⟨fun _ => 0, trivial⟩
  | global gn g gs h hlow =>
    exact ⟨withData (emitGlobal g) (L.symAddr gs.name), fun k hk b hb => withData_get hk hb⟩

/-! ## When a variable is consistent -/

theorem Sym.exists_found (v : Sym) : ∃ s, v.Found s ∧ 0 < s.fn.ntemps := by
  cases v with
  | loc ls =>
    refine ⟨{ fn := { name := "", ntemps := 1 }, lsyms := [ls] }, ?_, Nat.one_pos⟩
    simp [Sym.Found, findLsym]
  | glob gs =>
    refine ⟨{ fn := { name := "", ntemps := 1 }, gsyms := [gs] }, ?_, Nat.one_pos⟩
    simp [Sym.Found, findLsym, findGsym]

theorem Consistent.load_store {v : Variable} (h : v.Consistent) (L : Layout) (w : Word)
    (way way' : Way) : ∃ m, v.sym.load L (v.sym.store L m w way) way' = v.reduce w := by
  obtain ⟨m, hm⟩ := v.exists_initial L
  obtain ⟨s, hf, hs⟩ := v.sym.exists_found
  have hst : StoresAs L s (place 0 v.sym.name way) w m (v.sym.store L m w way) :=
    (storesAs_iff v.scalar hf hs).2 rfl
  have hread := h L m hm (some w) _ (.store .start hf hst) _ rfl s 0 way' hf
  exact ⟨m, ((readsAs_iff v.scalar hf).1 hread).symm⟩

theorem Consistent.load_initial {v : Variable} (h : v.Consistent) (hm : v.Initial L m)
    (hw : v.declared L = some w) (way : Way) :
    v.sym.load L m way = w := by
  obtain ⟨s, hf, hs⟩ := v.sym.exists_found
  exact ((readsAs_iff v.scalar hf).1 (h L m hm none m .start w hw s 0 way hf)).symm

theorem readB_writeL_one (m : Mem) (a : Word) : readB (writeL m a 1) a = 0 := by
  rw [readB, writeL_apply]
  have h : ∀ k : Word, k ≠ 0 → a ≠ a + k := by
    intro k hk heq
    exact hk (by simpa using heq)
  rw [if_neg (h 3 (by decide)), if_neg (h 2 (by decide)), if_neg (h 1 (by decide)), if_pos rfl]
  rfl

theorem reduce_char {v : Variable} (hc : v.baseType = .char) (hp : v.isPtr = false) (w : Word) :
    v.reduce w = (w.truncate 8).zeroExtend 32 :=
  if_pos ⟨hc, hp⟩

theorem reduce_int {v : Variable} (hc : v.baseType ≠ .char) (w : Word) : v.reduce w = w :=
  if_neg fun h => hc h.1

theorem reduce_one (v : Variable) : v.reduce 1 = 1 := by
  unfold Variable.reduce
  split <;> rfl

theorem consistent_local_iff {v : Variable} {ls : Lsym} (hv : v.sym = .loc ls)
    (hbt : ls.baseType = v.baseType) (hdecl : ∀ L, v.declared L = none) :
    v.Consistent ↔ v.baseType = .int := by
  constructor
  · intro h
    by_contra hint
    have hchar : ls.baseType = .char := by
      rw [hbt]
      cases hb : v.baseType with
      | int => exact absurd hb hint
      | char => rfl
    obtain ⟨m, hm⟩ := Consistent.load_store h ⟨fun _ => 0, fun _ => 0⟩ 1 .name .deref
    simp only [hv, Sym.load, Sym.store, loadAs, hchar, if_true, readB_writeL_one, reduce_one] at hm
    exact absurd hm (by decide)
  · intro hint
    refine consistent_of_access ?_ ?_ ?_ ?_
    · intro L m way
      rw [hv, hint]
      cases way
      · rfl
      · rw [Sym.load, hbt, hint]
        rfl
    · intro L m w way
      rw [hv, hint]
      cases way
      · rfl
      · rw [Sym.store, hbt, hint]
        rfl
    · intro hc
      rw [hint] at hc
      cases hc
    · intro L m0 _ w hw
      rw [hdecl] at hw
      cases hw

section Globals

variable {gn : GlobalDecl} {g : Global} {gs : Gsym} {scalar : gn.arrSize = 0}
  {lowered : lowerGlobal gn = .ok (g, gs)}

theorem Gsym.baseType_eq (h : lowerGlobal gn = .ok (g, gs)) : gs.baseType = gn.baseType := by
  rw [(lowerGlobal_eq_ok h).2]

theorem consistent_global_of_uniform (h : (Variable.global gn g gs scalar lowered).Uniform) :
    (Variable.global gn g gs scalar lowered).Consistent := by
  obtain ⟨hptr, hfits⟩ := h
  have hbt := Gsym.baseType_eq lowered
  -- the data are those of one constant, which is the declared value
  have hdata : ∃ k : Int, gs.isArray = false ∧ emitGlobal g = longBytes k ∧
      (gn.baseType = .char → sameEnds k) ∧
      ∀ a, (gn.init.map (Init.value a)).getD 0 = BitVec.ofInt 32 k := by
    have hgs := (lowerGlobal_eq_ok lowered).2
    obtain ⟨hi, rfl⟩ | ⟨text, hi, rfl⟩ | ⟨es, vs, hi, hes, rfl⟩ | ⟨e, k, hi, he, rfl⟩ :=
      lowerGlobal_cases scalar lowered
    · exact ⟨0, by simp [hgs], emitGlobal_empty _ _ _, fun _ => rfl, fun a => by simp [hi]⟩
    · exact (hfits _ hi).elim
    · obtain rfl : es = [] := hfits _ hi
      cases hes
      refine ⟨0, by simp [hgs], emitGlobal_empty _ _ _, fun _ => rfl, fun a => ?_⟩
      simp [hi, Init.value]
    · refine ⟨k, by simp [hgs], emitGlobal_const _ _ _ _, fun hc => hfits _ hi hc k he, fun a => ?_⟩
      simp [hi, Init.value, he]
  obtain ⟨k, harr, hemit, hends, hvalue⟩ := hdata
  refine consistent_of_access ?_ ?_ hptr ?_
  · intro L m way
    cases way <;> simp [Variable.sym, Sym.load, harr, Variable.baseType, hbt, Sym.addr]
  · intro L m w way
    simp [Variable.sym, Sym.store, Variable.baseType, hbt, Sym.addr]
  · intro L m0 hm0 w hw
    simp only [Variable.Initial, hemit] at hm0
    simp only [Variable.declared, hvalue, Option.some.injEq] at hw
    rw [← hw, Variable.reduce]
    by_cases hc : gn.baseType = .char
    · rw [if_pos ⟨hc, hptr hc⟩]
      simp only [Variable.baseType, loadAs, hc, if_true, Variable.sym, Sym.addr]
      rw [readB_of_data hm0, hends hc]
      rfl
    · rw [if_neg (fun h => hc h.1)]
      simp only [Variable.baseType, loadAs, hc, if_false, Variable.sym, Sym.addr]
      exact readL_of_data hm0

theorem exists_data (bs : List (BitVec 8)) (bt : Ty) : ∃ w : Word, ∀ a, ∃ m : Mem,
    (∀ k < 4, ∀ b, bs[k]? = some b → m (a + BitVec.ofNat 32 k) = b) ∧ loadAs bt m a = w := by
  have hget : ∀ (a : Word) (k : Nat), k < 4 →
      withData bs a (a + BitVec.ofNat 32 k) = (bs[k]?).getD 0 := by
    intro a k hk
    have hadd : (a + BitVec.ofNat 32 k - a).toNat = k := by
      rw [BitVec.add_comm, BitVec.add_sub_cancel, BitVec.toNat_ofNat]
      omega
    rw [withData, hadd]
  have hget0 : ∀ a, withData bs a a = (bs[0]?).getD 0 := by
    intro a
    have h0 := hget a 0 (by omega)
    rwa [BitVec.add_zero] at h0
  refine ⟨if bt = .char then ((bs[0]?).getD 0).zeroExtend 32 else
    (bs[0]?).getD 0 ++ (bs[1]?).getD 0 ++ (bs[2]?).getD 0 ++ (bs[3]?).getD 0, fun a => ?_⟩
  refine ⟨withData bs a, fun k hk b hb => withData_get hk hb, ?_⟩
  simp only [loadAs, readL, readB, hget0]
  rw [show withData bs a (a + 1) = _ from hget a 1 (by omega),
    show withData bs a (a + 2) = _ from hget a 2 (by omega),
    show withData bs a (a + 3) = _ from hget a 3 (by omega)]

theorem zeroExtend_inj {b b' : BitVec 8} (h : b.zeroExtend 32 = b'.zeroExtend 32) : b = b' := by
  have h' := congrArg (BitVec.truncate 8) h
  simpa using h'

theorem isArray_of_consistent (h : (Variable.global gn g gs scalar lowered).Consistent) :
    gs.isArray = false := by
  by_contra harr
  obtain ⟨m, hm⟩ := Consistent.load_store h ⟨fun _ => 0, fun _ => 0⟩ 1 .name .name
  rw [reduce_one] at hm
  simp only [Variable.sym, Sym.load, Bool.not_eq_false _ ▸ harr, if_true] at hm
  exact absurd hm (by decide)

theorem isPtr_of_consistent (h : (Variable.global gn g gs scalar lowered).Consistent)
    (hc : gn.baseType = .char) : gn.isPtr = false := by
  by_contra hptr
  obtain ⟨m, hm⟩ := Consistent.load_store h ⟨fun _ => 0, fun _ => 0⟩ 256 .name .deref
  have hbt : gs.baseType = .char := by rw [Gsym.baseType_eq lowered, hc]
  simp only [Variable.sym, Sym.load, Sym.store, hbt, loadAs_storeAs, if_true, Variable.reduce,
    Variable.baseType, Variable.isPtr, hptr, and_false, if_false] at hm
  exact absurd hm (by decide)

theorem not_str_of_consistent (h : (Variable.global gn g gs scalar lowered).Consistent)
    (text : List UInt8) : gn.init ≠ some (.str text) := by
  intro hi
  obtain ⟨w, hw⟩ := exists_data (emitGlobal g) gs.baseType
  let L : Layout := ⟨fun _ => w + 1, fun _ => 0⟩
  obtain ⟨m, hm, hload⟩ := hw (w + 1)
  have hread := Consistent.load_initial h (L := L) (m := m) hm rfl .deref
  simp only [hi, Option.map_some, Init.value, Option.getD_some, Variable.sym, Sym.load, L] at hread
  rw [hload] at hread
  by_cases hc : gn.baseType = .char
  · rw [reduce_char (v := .global gn g gs scalar lowered) hc (isPtr_of_consistent h hc)] at hread
    have hnat := congrArg BitVec.toNat hread
    simp only [BitVec.truncate_eq_setWidth, BitVec.toNat_setWidth, BitVec.toNat_add,
      show (1 : Word).toNat = 1 from rfl] at hnat
    omega
  · rw [reduce_int (v := .global gn g gs scalar lowered) hc] at hread
    simp at hread

theorem uniform_of_consistent_global (h : (Variable.global gn g gs scalar lowered).Consistent) :
    (Variable.global gn g gs scalar lowered).Uniform := by
  have hgs := (lowerGlobal_eq_ok lowered).2
  refine ⟨isPtr_of_consistent h, fun init hinit => ?_⟩
  cases init with
  | str text => exact not_str_of_consistent h text hinit
  | list es =>
    have harr := isArray_of_consistent h
    obtain ⟨hi, -⟩ | ⟨text, hi, -⟩ | ⟨es', vs, hi, -, hg⟩ | ⟨e, k, hi, -⟩ :=
      lowerGlobal_cases scalar lowered
    · simp [hinit] at hi
    · simp [hinit] at hi
    · obtain rfl : es = es' := by simpa [hinit] using hi
      rw [hgs, hg] at harr
      simpa [Init.fits] using harr
    · simp [hinit] at hi
  | expr e =>
    intro hc k hk
    obtain ⟨hi, -⟩ | ⟨text, hi, -⟩ | ⟨es', vs, hi, -⟩ | ⟨e', k', hi, he, hg⟩ :=
      lowerGlobal_cases scalar lowered
    · simp [hinit] at hi
    · simp [hinit] at hi
    · simp [hinit] at hi
    · obtain rfl : e = e' := by simpa [hinit] using hi
      obtain rfl : k = k' := by simpa [hk] using he
      obtain ⟨m, hm⟩ := (Variable.global gn g gs scalar lowered).exists_initial
        ⟨fun _ => 0, fun _ => 0⟩
      have hread := Consistent.load_initial h hm rfl .deref
      have hdata : emitGlobal g = longBytes k := by
        rw [hg]
        exact emitGlobal_const _ _ _ _
      simp only [Variable.Initial, hdata] at hm
      have hbt : gs.baseType = .char := by rw [Gsym.baseType_eq lowered, hc]
      simp only [Variable.sym, Sym.load, loadAs, hbt, if_true, hinit, Option.map_some,
        Init.value, hk, Option.getD_some, Variable.reduce, Variable.baseType, hc,
        Variable.isPtr, isPtr_of_consistent h hc, and_self, readB_of_data hm] at hread
      exact zeroExtend_inj hread

end Globals

/-- A scalar variable has its last stored or its declared value on every read exactly when it is
an `int` or an `int *` without a string or a list as its initializer, or a global `char` whose
initializer has the same first and last byte as a word. -/
theorem Variable.consistent_iff_uniform (v : Variable) : v.Consistent ↔ v.Uniform := by
  cases v with
  | param p slot => exact consistent_local_iff rfl rfl fun _ => rfl
  | auto d slot h => exact consistent_local_iff rfl rfl fun _ => rfl
  | global gn g gs h hlow =>
    exact ⟨uniform_of_consistent_global, consistent_global_of_uniform⟩

/-- After `char c; c = 1;` the value of `*(&c)` is 0. -/
theorem charLocal_not_consistent : ¬ (Variable.auto ⟨"c", .char, false, 0⟩ 0 rfl).Consistent := by
  intro h
  exact absurd ((consistent_local_iff rfl rfl fun _ => rfl).1 h) (by decide)

end MechanicalResearcher.PortableCompiler.Tinc
