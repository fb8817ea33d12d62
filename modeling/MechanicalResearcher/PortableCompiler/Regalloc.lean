import Mathlib.Data.List.Nodup
import Mathlib.Data.List.Perm.Subperm
import Mathlib.Order.Basic
import Mathlib.Order.Nat
import MechanicalResearcher.PortableCompiler.Ir

/-!
# Linear scan

`backend/regalloc_cf.c`.  An interval stands for the record that `active` points at; its
`reg` and `spill` are kept by temp in the state of the scan, since a temp has one interval.

The invariant `Scan.Ok` says of every prefix of the sorted intervals where each temp is.
-/

namespace MechanicalResearcher.PortableCompiler

abbrev numRegs : Nat := 6
abbrev firstReg : Nat := 2

structure Interval where
  temp : Nat
  start : Nat
  stop : Nat
  deriving DecidableEq, Repr

def sortByStart (a b : Interval) : Int :=
  if a.start ≠ b.start then (a.start : Int) - b.start else (a.stop : Int) - b.stop

/-- What `qsort` promises: some arrangement of the elements in which the comparison is never
positive from left to right. -/
structure Qsort where
  sort : List Interval → List Interval
  perm : ∀ l, (sort l).Perm l
  sorted : ∀ l, (sort l).Pairwise fun a b => sortByStart a b ≤ 0

/-! ## Ranges of positions -/

structure Ranges where
  firstDef : Nat → Option Nat
  lastUse : Nat → Option Nat

/-- `if (last_use[t] < pos) last_use[t] = pos`, for a temp of the function. -/
def Ranges.use (r : Ranges) (ntemps : Nat) (t : Option Nat) (pos : Nat) : Ranges :=
  match t with
  | none => r
  | some t =>
    if t < ntemps ∧ (r.lastUse t).all (· < pos) = true then
      { r with lastUse := Function.update r.lastUse t (some pos) }
    else r

def Ranges.define (r : Ranges) (ntemps : Nat) (t : Option Nat) (pos : Nat) : Ranges :=
  match t with
  | none => r
  | some t =>
    if t < ntemps ∧ r.firstDef t = none then
      { r with firstDef := Function.update r.firstDef t (some pos) }
    else r

def Ranges.visit (ntemps : Nat) (r : Ranges) (i : Insn) (pos : Nat) : Ranges :=
  let r := (r.define ntemps i.dst pos).use ntemps i.dst pos
  (r.use ntemps i.a pos).use ntemps i.b pos

/-- The loop over the instructions. -/
def rangesLoop (ntemps : Nat) : List Insn → Nat → Ranges → Ranges
  | [], _, r => r
  | i :: code, pos, r => rangesLoop ntemps code (pos + 1) (r.visit ntemps i pos)

def ranges (ntemps : Nat) (code : List Insn) : Ranges :=
  rangesLoop ntemps code 0 ⟨fun _ => none, fun _ => none⟩

/-- The interval of a temp, if some instruction defines it. -/
def Ranges.interval (r : Ranges) (t : Nat) : Option Interval :=
  (r.firstDef t).map fun d => ⟨t, d, max d ((r.lastUse t).getD d)⟩

def intervals (fn : Func) : List Interval :=
  (List.range fn.ntemps).filterMap (ranges fn.ntemps fn.code).interval

/-! ## The scan -/

structure Scan where
  reg : Nat → Option Nat
  spill : Nat → Option Nat
  pool : Nat → Bool
  active : List Interval
  nspills : Nat

def Scan.init : Scan := ⟨fun _ => none, fun _ => none, fun _ => true, [], 0⟩

/-- The registers of the intervals that ended before `start` go back to the pool. -/
def Scan.expire (s : Scan) (start : Nat) : Scan :=
  { s with
    pool := s.active.foldl (fun pool iv =>
      if iv.stop < start then
        Function.update pool ((s.reg iv.temp).getD firstReg - firstReg) true
      else pool) s.pool
    active := s.active.filter fun iv => ¬iv.stop < start }

def insertByEnd (iv : Interval) : List Interval → List Interval
  | [] => [iv]
  | a :: active => if a.stop > iv.stop then iv :: a :: active else a :: insertByEnd iv active

/-- Register `k + FIRST_REG` of the pool. -/
def Scan.assign (s : Scan) (iv : Interval) (k : Nat) : Scan :=
  { s with
    reg := Function.update s.reg iv.temp (some (k + firstReg))
    pool := Function.update s.pool k false
    active := insertByEnd iv s.active }

/-- The register of the interval that ends last. -/
def Scan.steal (s : Scan) (iv sp : Interval) : Scan :=
  { s with
    reg := Function.update (Function.update s.reg iv.temp (s.reg sp.temp)) sp.temp none
    spill := Function.update s.spill sp.temp (some (s.nspills * 4))
    nspills := s.nspills + 1
    active := insertByEnd iv s.active.dropLast }

def Scan.spillNew (s : Scan) (iv : Interval) : Scan :=
  { s with
    spill := Function.update s.spill iv.temp (some (s.nspills * 4))
    nspills := s.nspills + 1 }

/-- One turn of the loop.  `active` is not empty when the pool is. -/
def Scan.step (s : Scan) (iv : Interval) : Scan :=
  let s := s.expire iv.start
  match (List.range numRegs).find? s.pool with
  | some k => s.assign iv k
  | none =>
    match s.active.getLast? with
    | none => s
    | some sp => if sp.stop > iv.stop then s.steal iv sp else s.spillNew iv

def regalloc (q : Qsort) (fn : Func) : Func :=
  let s := (q.sort (intervals fn)).foldl Scan.step Scan.init
  { fn with tempReg := s.reg, tempSpill := s.spill, nspills := s.nspills }

/-! ## The list of active intervals -/

def ByEnd (l : List Interval) : Prop := l.Pairwise fun a b => a.stop ≤ b.stop

theorem insertByEnd_perm (iv : Interval) (l : List Interval) :
    (insertByEnd iv l).Perm (iv :: l) := by
  induction l with
  | nil => exact List.Perm.refl _
  | cons a l ih =>
    unfold insertByEnd
    split_ifs
    · exact List.Perm.refl _
    · exact (ih.cons a).trans (List.Perm.swap iv a l)

theorem mem_insertByEnd {iv x : Interval} {l : List Interval} :
    x ∈ insertByEnd iv l ↔ x = iv ∨ x ∈ l := by
  rw [(insertByEnd_perm iv l).mem_iff, List.mem_cons]

theorem ByEnd.insert {l : List Interval} (h : ByEnd l) (iv : Interval) :
    ByEnd (insertByEnd iv l) := by
  induction l with
  | nil => exact List.pairwise_singleton _ _
  | cons a l ih =>
    obtain ⟨hhead, htail⟩ := List.pairwise_cons.1 h
    unfold insertByEnd
    split_ifs with hlt
    · refine List.pairwise_cons.2 ⟨fun x hx => ?_, h⟩
      rcases List.mem_cons.1 hx with rfl | hx
      · exact Nat.le_of_lt hlt
      · exact Nat.le_trans (Nat.le_of_lt hlt) (hhead x hx)
    · refine List.pairwise_cons.2 ⟨fun x hx => ?_, ih htail⟩
      rcases mem_insertByEnd.1 hx with rfl | hx
      · exact Nat.not_lt.1 hlt
      · exact hhead x hx

theorem foldl_update_true (p : Interval → Prop) [DecidablePred p] (f : Interval → Nat)
    (l : List Interval) (pool : Nat → Bool) (k : Nat) :
    l.foldl (fun pool x => if p x then Function.update pool (f x) true else pool) pool k = true ↔
      pool k = true ∨ ∃ x ∈ l, p x ∧ f x = k := by
  induction l generalizing pool with
  | nil => simp
  | cons a l ih =>
    rw [List.foldl_cons, ih]
    by_cases hp : p a
    · rw [if_pos hp]
      by_cases hk : k = f a
      · subst hk
        simp [hp]
      · rw [Function.update_of_ne hk]
        simp [hp, Ne.symm hk]
    · simp [hp]

/-! ## The invariant -/

/-- A temp is in one register or in one spill slot. -/
def Scan.Located (s : Scan) (t : Nat) : Prop :=
  (∃ k < numRegs, s.reg t = some (k + firstReg) ∧ s.spill t = none) ∨
    (s.reg t = none ∧ ∃ o, s.spill t = some o)

/-- The state after the intervals `done`, none of which starts after `b`. -/
structure Scan.Ok (s : Scan) (done : List Interval) (b : Nat) : Prop where
  sorted : ByEnd s.active
  nodup : s.active.Nodup
  sub : ∀ iv ∈ s.active, iv ∈ done
  regs : ∀ iv ∈ s.active, ∃ k < numRegs, s.reg iv.temp = some (k + firstReg) ∧ s.pool k = false
  owner : ∀ k < numRegs, s.pool k = false →
    ∃ iv ∈ s.active, s.reg iv.temp = some (k + firstReg)
  apart : ∀ iv ∈ s.active, ∀ iv' ∈ s.active, s.reg iv.temp = s.reg iv'.temp → iv = iv'
  gone : ∀ iv ∈ done, s.reg iv.temp ≠ none → iv ∈ s.active ∨ iv.stop < b
  located : ∀ iv ∈ done, s.Located iv.temp
  disjoint : ∀ iv ∈ done, ∀ iv' ∈ done, s.reg iv.temp = s.reg iv'.temp → s.reg iv.temp ≠ none →
    iv = iv' ∨ iv.stop < iv'.start ∨ iv'.stop < iv.start
  slots : ∀ t o, s.spill t = some o → ∃ j < s.nspills, o = j * 4
  oneSlot : ∀ t t' o, s.spill t = some o → s.spill t' = some o → t = t'
  fresh : ∀ t, (∀ iv ∈ done, iv.temp ≠ t) → s.reg t = none ∧ s.spill t = none

theorem Scan.init_ok (b : Nat) : Scan.init.Ok [] b where
  sorted := List.Pairwise.nil
  nodup := List.nodup_nil
  sub := by simp [Scan.init]
  regs := by simp [Scan.init]
  owner := by simp [Scan.init]
  apart := by simp [Scan.init]
  gone := by simp
  located := by simp
  disjoint := by simp
  slots := by simp [Scan.init]
  oneSlot := by simp [Scan.init]
  fresh := fun _ _ => ⟨rfl, rfl⟩

section Ok

variable {s : Scan} {done : List Interval} {b : Nat} {iv : Interval}

theorem Scan.Ok.length_le (h : s.Ok done b) : s.active.length ≤ numRegs := by
  have hnodup : (s.active.map fun iv => s.reg iv.temp).Nodup :=
    (List.nodup_map_iff_inj_on h.nodup).2 h.apart
  have hsub : s.active.map (fun iv => s.reg iv.temp) ⊆
      (List.range numRegs).map fun k => some (k + firstReg) := by
    intro r hr
    obtain ⟨iv, hiv, rfl⟩ := List.mem_map.1 hr
    obtain ⟨k, hk, hreg, -⟩ := h.regs iv hiv
    exact List.mem_map.2 ⟨k, List.mem_range.2 hk, hreg.symm⟩
  have hle := (List.subperm_of_subset hnodup hsub).length_le
  simpa using hle

theorem Scan.Ok.expire (h : s.Ok done b) {start : Nat} (hb : b ≤ start) :
    (s.expire start).Ok done start := by
  have hmem : ∀ {x}, x ∈ (s.expire start).active ↔ x ∈ s.active ∧ ¬x.stop < start := by
    intro x
    simp [Scan.expire]
  have hpool : ∀ k, (s.expire start).pool k = true ↔ s.pool k = true ∨
      ∃ x ∈ s.active, x.stop < start ∧ (s.reg x.temp).getD firstReg - firstReg = k := by
    intro k
    exact foldl_update_true (fun iv => iv.stop < start) _ s.active s.pool k
  refine ⟨h.sorted.sublist List.filter_sublist, h.nodup.filter _,
    fun x hx => h.sub x (hmem.1 hx).1, fun x hx => ?_, fun k hk hfull => ?_,
    fun x hx x' hx' => h.apart x (hmem.1 hx).1 x' (hmem.1 hx').1, fun x hx hreg => ?_, h.located,
    h.disjoint, h.slots, h.oneSlot, h.fresh⟩
  · obtain ⟨hact, hlive⟩ := hmem.1 hx
    obtain ⟨k, hk, hreg, hfull⟩ := h.regs x hact
    refine ⟨k, hk, hreg, Bool.eq_false_iff.2 fun hfree => ?_⟩
    rcases (hpool k).1 hfree with hfree | ⟨x', hx', hdead, hk'⟩
    · rw [hfull] at hfree
      cases hfree
    · -- the register is given back only by the interval that has it
      obtain ⟨k', -, hreg', -⟩ := h.regs x' hx'
      rw [hreg', Option.getD_some, Nat.add_sub_cancel] at hk'
      have hsame : x = x' := h.apart x hact x' hx' (by rw [hreg, hreg', hk'])
      exact hlive (hsame ▸ hdead)
  · have hfull' : s.pool k = false := by
      refine Bool.eq_false_iff.2 fun hfree => ?_
      rw [(hpool k).2 (Or.inl hfree)] at hfull
      cases hfull
    obtain ⟨x, hx, hreg⟩ := h.owner k hk hfull'
    refine ⟨x, hmem.2 ⟨hx, fun hdead => ?_⟩, hreg⟩
    have hfree := (hpool k).2 (Or.inr ⟨x, hx, hdead, by rw [hreg]; simp⟩)
    rw [hfull] at hfree
    cases hfree
  · by_cases hdead : x.stop < start
    · exact Or.inr hdead
    · rcases h.gone x hx hreg with hact | hgone
      · exact Or.inl (hmem.2 ⟨hact, hdead⟩)
      · exact absurd (Nat.lt_of_lt_of_le hgone hb) hdead

/-- The next interval is not among those that were handled, and starts after them. -/
structure Next (done : List Interval) (iv : Interval) : Prop where
  temp : ∀ x ∈ done, x.temp ≠ iv.temp
  start : ∀ x ∈ done, x.start ≤ iv.start

theorem Scan.Ok.fresh_next (h : s.Ok done b) (hnext : Next done iv) :
    s.reg iv.temp = none ∧ s.spill iv.temp = none :=
  h.fresh iv.temp hnext.temp

theorem Scan.Ok.assign (h : s.Ok done iv.start) (hnext : Next done iv) {k : Nat}
    (hk : k < numRegs) (hfree : s.pool k = true) :
    (s.assign iv k).Ok (done ++ [iv]) iv.start := by
  have hiv : (s.assign iv k).reg iv.temp = some (k + firstReg) := Function.update_self ..
  have hold : ∀ x ∈ done, (s.assign iv k).reg x.temp = s.reg x.temp := fun x hx =>
    Function.update_of_ne (hnext.temp x hx) ..
  have hmem : ∀ {x}, x ∈ (s.assign iv k).active ↔ x = iv ∨ x ∈ s.active := mem_insertByEnd
  have hpool : ∀ j, j ≠ k → (s.assign iv k).pool j = s.pool j := fun j hj =>
    Function.update_of_ne hj ..
  have htaken : ∀ x ∈ s.active, s.reg x.temp ≠ some (k + firstReg) := by
    intro x hx hreg
    obtain ⟨j, -, hj, hfull⟩ := h.regs x hx
    have hjk : j = k := by
      rw [hreg] at hj
      simpa using hj.symm
    rw [hjk, hfree] at hfull
    cases hfull
  have hlast : ∀ x ∈ done, s.reg x.temp = some (k + firstReg) → x.stop < iv.start := by
    intro x hx hreg
    rcases h.gone x hx (by rw [hreg]; exact Option.some_ne_none _) with hact | hgone
    · exact absurd hreg (htaken x hact)
    · exact hgone
  have hnew : iv ∉ s.active := fun hact => hnext.temp iv (h.sub iv hact) rfl
  constructor
  case sorted => exact h.sorted.insert iv
  case nodup => exact (insertByEnd_perm iv s.active).nodup_iff.2 (List.nodup_cons.2 ⟨hnew, h.nodup⟩)
  case sub =>
    intro x hx
    rcases hmem.1 hx with rfl | hx
    · exact List.mem_append_right _ (List.mem_singleton.2 rfl)
    · exact List.mem_append_left _ (h.sub x hx)
  case regs =>
    intro x hx
    rcases hmem.1 hx with rfl | hx
    · exact ⟨k, hk, hiv, Function.update_self ..⟩
    · obtain ⟨j, hj, hreg, hfull⟩ := h.regs x hx
      have hjk : j ≠ k := fun hjk => htaken x hx (hjk ▸ hreg)
      exact ⟨j, hj, (hold x (h.sub x hx)).trans hreg, (hpool j hjk).trans hfull⟩
  case owner =>
    intro j hj hfull
    by_cases hjk : j = k
    · exact ⟨iv, hmem.2 (Or.inl rfl), hjk ▸ hiv⟩
    · obtain ⟨x, hx, hreg⟩ := h.owner j hj ((hpool j hjk).symm.trans hfull)
      exact ⟨x, hmem.2 (Or.inr hx), (hold x (h.sub x hx)).trans hreg⟩
  case apart =>
    intro x hx x' hx' hsame
    rcases hmem.1 hx with heq | hact <;> rcases hmem.1 hx' with heq' | hact'
    · rw [heq, heq']
    · rw [heq, hiv, hold x' (h.sub x' hact')] at hsame
      exact absurd hsame.symm (htaken x' hact')
    · rw [heq', hiv, hold x (h.sub x hact)] at hsame
      exact absurd hsame (htaken x hact)
    · rw [hold x (h.sub x hact), hold x' (h.sub x' hact')] at hsame
      exact h.apart x hact x' hact' hsame
  case gone =>
    intro x hx hreg
    rcases List.mem_append.1 hx with hx | hx
    · rw [hold x hx] at hreg
      exact (h.gone x hx hreg).imp_left fun hact => hmem.2 (Or.inr hact)
    · exact Or.inl (hmem.2 (Or.inl (List.mem_singleton.1 hx)))
  case located =>
    intro x hx
    rcases List.mem_append.1 hx with hx | hx
    · rw [Scan.Located, hold x hx]
      exact h.located x hx
    · rw [List.mem_singleton.1 hx]
      exact Or.inl ⟨k, hk, hiv, (h.fresh_next hnext).2⟩
  case disjoint =>
    intro x hx x' hx' hsame hreg
    rcases List.mem_append.1 hx with hd | hd <;> rcases List.mem_append.1 hx' with hd' | hd'
    · rw [hold x hd] at hsame hreg
      rw [hold x' hd'] at hsame
      exact h.disjoint x hd x' hd' hsame hreg
    · rw [List.mem_singleton.1 hd'] at hsame ⊢
      rw [hold x hd, hiv] at hsame
      exact Or.inr (Or.inl (hlast x hd hsame))
    · rw [List.mem_singleton.1 hd] at hsame ⊢
      rw [hold x' hd', hiv] at hsame
      exact Or.inr (Or.inr (hlast x' hd' hsame.symm))
    · exact Or.inl ((List.mem_singleton.1 hd).trans (List.mem_singleton.1 hd').symm)
  case slots => exact h.slots
  case oneSlot => exact h.oneSlot
  case fresh =>
    intro t ht
    have hne : t ≠ iv.temp := fun heq =>
      ht iv (List.mem_append_right _ (List.mem_singleton.2 rfl)) heq.symm
    obtain ⟨hreg, hspill⟩ := h.fresh t fun x hx => ht x (List.mem_append_left _ hx)
    exact ⟨(Function.update_of_ne hne ..).trans hreg, hspill⟩

/-- The interval that ends last gives up register `k` for a spill slot. -/
def Scan.release (s : Scan) (sp : Interval) (k : Nat) : Scan :=
  { s with
    reg := Function.update s.reg sp.temp none
    spill := Function.update s.spill sp.temp (some (s.nspills * 4))
    nspills := s.nspills + 1
    pool := Function.update s.pool k true
    active := s.active.dropLast }

theorem Scan.Ok.newSlot (h : s.Ok done b) (t : Nat) :
    (∀ t' o, Function.update s.spill t (some (s.nspills * 4)) t' = some o →
      ∃ j < s.nspills + 1, o = j * 4) ∧
    ∀ t1 t2 o, Function.update s.spill t (some (s.nspills * 4)) t1 = some o →
      Function.update s.spill t (some (s.nspills * 4)) t2 = some o → t1 = t2 := by
  have hcases : ∀ {t' o}, Function.update s.spill t (some (s.nspills * 4)) t' = some o →
      (t' = t ∧ o = s.nspills * 4) ∨ (s.spill t' = some o ∧ ∃ j < s.nspills, o = j * 4) := by
    intro t' o ho
    by_cases ht : t' = t
    · rw [ht, Function.update_self] at ho
      exact Or.inl ⟨ht, (Option.some.inj ho).symm⟩
    · rw [Function.update_of_ne ht] at ho
      exact Or.inr ⟨ho, h.slots t' o ho⟩
  refine ⟨fun t' o ho => ?_, fun t1 t2 o h1 h2 => ?_⟩
  · rcases hcases ho with ⟨-, rfl⟩ | ⟨-, j, hj, rfl⟩
    · exact ⟨s.nspills, Nat.lt_succ_self _, rfl⟩
    · exact ⟨j, Nat.lt_succ_of_lt hj, rfl⟩
  · rcases hcases h1 with ⟨ht1, ho1⟩ | ⟨hs1, j1, hj1, ho1⟩ <;>
      rcases hcases h2 with ⟨ht2, ho2⟩ | ⟨hs2, j2, hj2, ho2⟩
    · rw [ht1, ht2]
    · omega
    · omega
    · exact h.oneSlot t1 t2 o hs1 hs2

theorem Scan.Ok.release (h : s.Ok done b) {sp : Interval} (hlast : s.active.getLast? = some sp)
    {k : Nat} (hk : s.reg sp.temp = some (k + firstReg)) : (s.release sp k).Ok done b := by
  have hsp : sp ∈ s.active := List.mem_of_getLast? hlast
  have hmem : ∀ {x}, x ∈ s.active.dropLast → x ∈ s.active ∧ x ≠ sp := by
    obtain ⟨init, hinit⟩ := List.getLast?_eq_some_iff.1 hlast
    intro x hx
    have hnodup := h.nodup
    rw [hinit, List.dropLast_concat] at hx
    rw [hinit] at hnodup ⊢
    refine ⟨List.mem_append_left _ hx, fun heq => ?_⟩
    exact (List.nodup_append.1 hnodup).2.2 x hx sp (List.mem_singleton.2 rfl) heq
  have hback : ∀ {x}, x ∈ s.active → x ≠ sp → x ∈ s.active.dropLast := by
    obtain ⟨init, hinit⟩ := List.getLast?_eq_some_iff.1 hlast
    intro x hx hne
    rw [hinit] at hx ⊢
    rw [List.dropLast_concat]
    rcases List.mem_append.1 hx with hx | hx
    · exact hx
    · exact absurd (List.mem_singleton.1 hx) hne
  have htemp : ∀ {x}, x ∈ s.active → x ≠ sp → x.temp ≠ sp.temp := by
    intro x hx hne heq
    exact hne (h.apart x hx sp hsp (by rw [heq]))
  have hreg : ∀ {t}, t ≠ sp.temp → (s.release sp k).reg t = s.reg t := fun ht =>
    Function.update_of_ne ht ..
  have hgone : ∀ {t}, (s.release sp k).reg t ≠ none → t ≠ sp.temp := by
    rintro t ht rfl
    exact ht (Function.update_self ..)
  have hpool : ∀ {j}, j ≠ k → (s.release sp k).pool j = s.pool j := fun hj =>
    Function.update_of_ne hj ..
  obtain ⟨hslots, honeSlot⟩ := h.newSlot sp.temp
  constructor
  case sorted => exact h.sorted.sublist (List.dropLast_sublist _)
  case nodup => exact h.nodup.sublist (List.dropLast_sublist _)
  case sub => exact fun x hx => h.sub x (hmem hx).1
  case regs =>
    intro x hx
    obtain ⟨hact, hne⟩ := hmem hx
    obtain ⟨j, hj, hr, hfull⟩ := h.regs x hact
    have hjk : j ≠ k := fun hjk => hne (h.apart x hact sp hsp (by rw [hr, hk, hjk]))
    exact ⟨j, hj, (hreg (htemp hact hne)).trans hr, (hpool hjk).trans hfull⟩
  case owner =>
    intro j hj hfull
    have hjk : j ≠ k := by
      rintro rfl
      have htrue : (s.release sp j).pool j = true := Function.update_self ..
      rw [htrue] at hfull
      cases hfull
    obtain ⟨x, hx, hr⟩ := h.owner j hj ((hpool hjk).symm.trans hfull)
    have hne : x ≠ sp := by
      rintro rfl
      rw [hk] at hr
      exact hjk (by simpa using hr.symm)
    exact ⟨x, hback hx hne, (hreg (htemp hx hne)).trans hr⟩
  case apart =>
    intro x hx x' hx' hsame
    obtain ⟨hact, hne⟩ := hmem hx
    obtain ⟨hact', hne'⟩ := hmem hx'
    rw [hreg (htemp hact hne), hreg (htemp hact' hne')] at hsame
    exact h.apart x hact x' hact' hsame
  case gone =>
    intro x hx hr
    have ht := hgone hr
    rw [hreg ht] at hr
    rcases h.gone x hx hr with hact | hgone
    · exact Or.inl (hback hact fun heq => ht (by rw [heq]))
    · exact Or.inr hgone
  case located =>
    intro x hx
    by_cases ht : x.temp = sp.temp
    · rw [ht]
      exact Or.inr ⟨Function.update_self .., _, Function.update_self ..⟩
    · have hspill : (s.release sp k).spill x.temp = s.spill x.temp := Function.update_of_ne ht ..
      rw [Scan.Located, hreg ht, hspill]
      exact h.located x hx
  case disjoint =>
    intro x hx x' hx' hsame hr
    have ht := hgone hr
    have ht' := hgone (hsame ▸ hr)
    rw [hreg ht] at hsame hr
    rw [hreg ht'] at hsame
    exact h.disjoint x hx x' hx' hsame hr
  case slots => exact hslots
  case oneSlot => exact honeSlot
  case fresh =>
    intro t ht
    have hne : t ≠ sp.temp := fun heq => ht sp (h.sub sp hsp) heq.symm
    obtain ⟨hr, hspill⟩ := h.fresh t ht
    exact ⟨(hreg hne).trans hr, (Function.update_of_ne hne ..).trans hspill⟩

theorem Scan.Ok.spillNew (h : s.Ok done iv.start) (hnext : Next done iv) :
    (s.spillNew iv).Ok (done ++ [iv]) iv.start := by
  obtain ⟨hslots, honeSlot⟩ := h.newSlot iv.temp
  have hnone := (h.fresh_next hnext).1
  have hold : ∀ {x}, x ∈ done ++ [iv] → s.reg x.temp ≠ none → x ∈ done := by
    intro x hx hreg
    rcases List.mem_append.1 hx with hx | hx
    · exact hx
    · rw [List.mem_singleton.1 hx, hnone] at hreg
      exact absurd rfl hreg
  constructor
  case sorted => exact h.sorted
  case nodup => exact h.nodup
  case sub => exact fun x hx => List.mem_append_left _ (h.sub x hx)
  case regs => exact h.regs
  case owner => exact h.owner
  case apart => exact h.apart
  case gone => exact fun x hx hreg => h.gone x (hold hx hreg) hreg
  case located =>
    intro x hx
    rcases List.mem_append.1 hx with hx | hx
    · have hspill : (s.spillNew iv).spill x.temp = s.spill x.temp :=
        Function.update_of_ne (hnext.temp x hx) ..
      rw [Scan.Located, hspill]
      exact h.located x hx
    · rw [List.mem_singleton.1 hx]
      exact Or.inr ⟨hnone, _, Function.update_self ..⟩
  case disjoint =>
    intro x hx x' hx' hsame hreg
    exact h.disjoint x (hold hx hreg) x' (hold hx' (hsame ▸ hreg)) hsame hreg
  case slots => exact hslots
  case oneSlot => exact honeSlot
  case fresh =>
    intro t ht
    have hne : t ≠ iv.temp := fun heq =>
      ht iv (List.mem_append_right _ (List.mem_singleton.2 rfl)) heq.symm
    obtain ⟨hreg, hspill⟩ := h.fresh t fun x hx => ht x (List.mem_append_left _ hx)
    exact ⟨hreg, (Function.update_of_ne hne ..).trans hspill⟩

theorem Scan.steal_eq {sp : Interval} {k : Nat} (hreg : s.reg sp.temp = some (k + firstReg))
    (hpool : s.pool k = false) (hne : sp.temp ≠ iv.temp) :
    s.steal iv sp = (s.release sp k).assign iv k := by
  have hpools : Function.update (Function.update s.pool k true) k false = s.pool := by
    rw [Function.update_idem, ← hpool, Function.update_eq_self]
  unfold Scan.steal Scan.assign Scan.release
  dsimp only
  rw [hpools, hreg, Function.update_comm hne.symm]

theorem Scan.Ok.step (h : s.Ok done b) (hb : b ≤ iv.start) (hnext : Next done iv) :
    (s.step iv).Ok (done ++ [iv]) iv.start := by
  have hexp := h.expire hb
  unfold Scan.step
  generalize s.expire iv.start = e at hexp
  dsimp only
  cases hfind : (List.range numRegs).find? e.pool with
  | some k =>
    exact hexp.assign hnext (List.mem_range.1 (List.mem_of_find?_eq_some hfind))
      (List.find?_some hfind)
  | none =>
    have hfull : ∀ k < numRegs, e.pool k = false := by
      intro k hk
      exact Bool.eq_false_iff.2 (List.find?_eq_none.1 hfind k (List.mem_range.2 hk))
    obtain ⟨x, hx, -⟩ := hexp.owner 0 (by decide) (hfull 0 (by decide))
    cases hlast : e.active.getLast? with
    | none =>
      rw [List.getLast?_eq_none_iff.1 hlast] at hx
      cases hx
    | some sp =>
      dsimp only
      split_ifs
      · obtain ⟨k, hk, hreg, hpool⟩ := hexp.regs sp (List.mem_of_getLast? hlast)
        rw [Scan.steal_eq hreg hpool (hnext.temp sp (hexp.sub sp (List.mem_of_getLast? hlast)))]
        exact (hexp.release hlast hreg).assign hnext hk (Function.update_self ..)
      · exact hexp.spillNew hnext

theorem Scan.Ok.run (h : s.Ok done b) (ivs : List Interval)
    (hstart : ∀ iv ∈ ivs, b ≤ iv.start) (hsorted : ivs.Pairwise fun a b => a.start ≤ b.start)
    (hdone : ∀ x ∈ done, ∀ iv ∈ ivs, x.start ≤ iv.start)
    (htemps : ((done ++ ivs).map Interval.temp).Nodup) :
    ∃ b', (ivs.foldl Scan.step s).Ok (done ++ ivs) b' := by
  induction ivs generalizing s done b with
  | nil => exact ⟨b, by rw [List.append_nil]; exact h⟩
  | cons iv ivs ih =>
    obtain ⟨hhead, htail⟩ := List.pairwise_cons.1 hsorted
    have hnext : Next done iv := by
      refine ⟨fun x hx heq => ?_, fun x hx => hdone x hx iv List.mem_cons_self⟩
      rw [List.map_append, List.map_cons] at htemps
      exact (List.nodup_append.1 htemps).2.2 x.temp (List.mem_map_of_mem hx) iv.temp
        List.mem_cons_self heq
    have hstep := h.step (hstart iv List.mem_cons_self) hnext
    rw [List.append_cons] at htemps ⊢
    refine ih hstep hhead htail (fun x hx y hy => ?_) htemps
    rcases List.mem_append.1 hx with hx | hx
    · exact hdone x hx y (List.mem_cons_of_mem _ hy)
    · rw [List.mem_singleton.1 hx]
      exact hhead y hy

end Ok

/-! ## Intervals and positions -/

section Ranges

variable {ntemps t : Nat}

theorem Ranges.visit_firstDef (r : Ranges) (i : Insn) (pos : Nat) (ht : t < ntemps) :
    (r.visit ntemps i pos).firstDef t =
      if r.firstDef t = none ∧ i.dst = some t then some pos else r.firstDef t := by
  have huse : ∀ (r : Ranges) (x : Option Nat), (r.use ntemps x pos).firstDef = r.firstDef := by
    intro r x
    unfold Ranges.use
    split
    · rfl
    · split_ifs <;> rfl
  unfold Ranges.visit
  dsimp only
  rw [huse, huse, huse]
  unfold Ranges.define
  split
  · next hdst => simp [hdst]
  · next x hdst =>
    by_cases hx : x = t
    · subst hx
      by_cases hnone : r.firstDef x = none
      · simp [hdst, hnone, ht]
      · simp [hnone]
    · have hx' : t ≠ x := fun h => hx h.symm
      split_ifs <;> simp_all

/-- The temps an instruction names. -/
def Insn.Names (i : Insn) (t : Nat) : Prop := i.dst = some t ∨ i.a = some t ∨ i.b = some t

theorem Ranges.use_lastUse (r : Ranges) (x : Option Nat) {pos : Nat} (ht : t < ntemps)
    (hr : ∀ u, r.lastUse t = some u → u ≤ pos) :
    (r.use ntemps x pos).lastUse t = if x = some t then some pos else r.lastUse t := by
  unfold Ranges.use
  cases x with
  | none => simp
  | some x =>
    dsimp only
    by_cases hx : x = t
    · subst hx
      rw [if_pos rfl]
      split_ifs with hlate
      · exact Function.update_self ..
      · cases hu : r.lastUse x with
        | none => simp [ht, hu] at hlate
        | some u =>
          have hle := hr u hu
          have hnot : ¬u < pos := by simpa [ht, hu] using hlate
          rw [Nat.le_antisymm hle (Nat.not_lt.1 hnot)]
    · have hx' : t ≠ x := fun h => hx h.symm
      split_ifs with hlate hcon
      · exact absurd (Option.some.inj hcon) hx
      · exact Function.update_of_ne hx' ..
      · exact absurd (Option.some.inj ‹_›) hx
      · rfl

theorem Ranges.visit_lastUse (r : Ranges) (i : Insn) {pos : Nat} (ht : t < ntemps)
    (hr : ∀ u, r.lastUse t = some u → u ≤ pos) :
    (i.Names t → (r.visit ntemps i pos).lastUse t = some pos) ∧
      (¬i.Names t → (r.visit ntemps i pos).lastUse t = r.lastUse t) := by
  have hdefine : (r.define ntemps i.dst pos).lastUse = r.lastUse := by
    unfold Ranges.define
    split
    · rfl
    · split_ifs <;> rfl
  have hle : ∀ (r : Ranges) (x : Option Nat), (∀ u, r.lastUse t = some u → u ≤ pos) →
      ∀ u, (r.use ntemps x pos).lastUse t = some u → u ≤ pos := by
    intro r x hr u hu
    rw [Ranges.use_lastUse r x ht hr] at hu
    split_ifs at hu
    · exact Nat.le_of_eq (Option.some.inj hu).symm
    · exact hr u hu
  have h0 : ∀ u, (r.define ntemps i.dst pos).lastUse t = some u → u ≤ pos := by
    rw [hdefine]
    exact hr
  have h1 := hle _ i.dst h0
  have h2 := hle _ i.a h1
  have heq : (r.visit ntemps i pos).lastUse t =
      if i.b = some t then some pos else if i.a = some t then some pos
        else if i.dst = some t then some pos else r.lastUse t := by
    unfold Ranges.visit
    dsimp only
    rw [Ranges.use_lastUse _ i.b ht h2, Ranges.use_lastUse _ i.a ht h1,
      Ranges.use_lastUse _ i.dst ht h0, hdefine]
  rw [heq]
  refine ⟨fun hnames => ?_, fun hnot => ?_⟩
  · rcases hnames with h | h | h <;> simp [h]
  · rw [if_neg fun h => hnot (Or.inr (Or.inr h)), if_neg fun h => hnot (Or.inr (Or.inl h)),
      if_neg fun h => hnot (Or.inl h)]

theorem rangesLoop_spec (ht : t < ntemps) (code : List Insn) (pos : Nat) (r : Ranges)
    (hdef : ∀ d, r.firstDef t = some d → d < pos) (huse : ∀ u, r.lastUse t = some u → u < pos) :
    (∀ d, r.firstDef t = some d → (rangesLoop ntemps code pos r).firstDef t = some d) ∧
    (∀ u, r.lastUse t = some u → ∃ u', (rangesLoop ntemps code pos r).lastUse t = some u' ∧
      u ≤ u') ∧
    ∀ p i, code[p]? = some i →
      (i.dst = some t → ∃ d, (rangesLoop ntemps code pos r).firstDef t = some d ∧ d ≤ pos + p) ∧
      (i.Names t → ∃ u, (rangesLoop ntemps code pos r).lastUse t = some u ∧ pos + p ≤ u) := by
  induction code generalizing pos r with
  | nil => exact ⟨fun d hd => hd, fun u hu => ⟨u, hu, Nat.le_refl _⟩, by simp⟩
  | cons i code ih =>
    have hfirst := Ranges.visit_firstDef r i pos ht
    have hle : ∀ u, r.lastUse t = some u → u ≤ pos := fun u hu => Nat.le_of_lt (huse u hu)
    obtain ⟨hnames, hnot⟩ := Ranges.visit_lastUse r i ht hle
    have hdef' : ∀ d, (r.visit ntemps i pos).firstDef t = some d → d < pos + 1 := by
      intro d hd
      rw [hfirst] at hd
      split_ifs at hd with hnew
      · rw [← Option.some.inj hd]
        exact Nat.lt_succ_self _
      · exact Nat.lt_succ_of_lt (hdef d hd)
    have huse' : ∀ u, (r.visit ntemps i pos).lastUse t = some u → u < pos + 1 := by
      intro u hu
      by_cases hn : i.Names t
      · rw [hnames hn] at hu
        rw [← Option.some.inj hu]
        exact Nat.lt_succ_self _
      · rw [hnot hn] at hu
        exact Nat.lt_succ_of_lt (huse u hu)
    obtain ⟨hkeep, hgrow, hrest⟩ := ih (pos + 1) (r.visit ntemps i pos) hdef' huse'
    have hkeep0 : ∀ d, r.firstDef t = some d →
        (rangesLoop ntemps (i :: code) pos r).firstDef t = some d := by
      intro d hd
      refine hkeep d ?_
      rw [hfirst, if_neg fun hnew => by rw [hnew.1] at hd; cases hd]
      exact hd
    refine ⟨hkeep0, fun u hu => ?_, fun p j hj => ?_⟩
    · by_cases hn : i.Names t
      · obtain ⟨u', hu', hle'⟩ := hgrow pos (hnames hn)
        exact ⟨u', hu', Nat.le_trans (hle u hu) hle'⟩
      · exact hgrow u ((hnot hn).trans hu)
    · cases p with
      | succ p =>
        obtain ⟨hd, hu⟩ := hrest p j hj
        rw [Nat.add_assoc, Nat.add_comm 1 p] at hd hu
        exact ⟨hd, hu⟩
      | zero =>
        obtain rfl : i = j := by simpa using hj
        refine ⟨fun hdst => ?_, fun hn => hgrow pos (hnames hn)⟩
        cases hd : r.firstDef t with
        | some d => exact ⟨d, hkeep0 d hd, Nat.le_of_lt (hdef d hd)⟩
        | none => exact ⟨pos, hkeep pos (by rw [hfirst, if_pos ⟨hd, hdst⟩]), Nat.le_refl _⟩

theorem ranges_spec (ht : t < ntemps) {code : List Insn} {p : Nat} {i : Insn}
    (hi : code[p]? = some i) :
    (i.dst = some t → ∃ d, (ranges ntemps code).firstDef t = some d ∧ d ≤ p) ∧
      (i.Names t → ∃ u, (ranges ntemps code).lastUse t = some u ∧ p ≤ u) := by
  have hspec := (rangesLoop_spec ht code 0 ⟨fun _ => none, fun _ => none⟩ (by simp) (by simp)).2.2
    p i hi
  rw [Nat.zero_add] at hspec
  exact hspec

end Ranges

section Soundness

variable {fn : Func} {iv : Interval}

theorem mem_intervals : iv ∈ intervals fn ↔
    iv.temp < fn.ntemps ∧ (ranges fn.ntemps fn.code).interval iv.temp = some iv := by
  unfold intervals
  rw [List.mem_filterMap]
  constructor
  · rintro ⟨t, ht, hiv⟩
    have htemp : iv.temp = t := by
      unfold Ranges.interval at hiv
      obtain ⟨d, -, rfl⟩ := Option.map_eq_some_iff.1 hiv
      rfl
    rw [htemp]
    exact ⟨List.mem_range.1 ht, hiv⟩
  · rintro ⟨ht, hiv⟩
    exact ⟨iv.temp, List.mem_range.2 ht, hiv⟩

theorem exists_interval {t : Nat} (ht : t < fn.ntemps) {i : Insn} (hi : i ∈ fn.code)
    (hdst : i.dst = some t) : ∃ iv ∈ intervals fn, iv.temp = t := by
  obtain ⟨p, hp⟩ := List.getElem?_of_mem hi
  obtain ⟨d, hd, -⟩ := (ranges_spec ht hp).1 hdst
  refine ⟨⟨t, d, max d (((ranges fn.ntemps fn.code).lastUse t).getD d)⟩, mem_intervals.2 ⟨ht, ?_⟩,
    rfl⟩
  unfold Ranges.interval
  rw [hd]
  rfl

theorem intervals_temps_nodup (fn : Func) : ((intervals fn).map Interval.temp).Nodup := by
  have hsub : ((intervals fn).map Interval.temp).Sublist (List.range fn.ntemps) := by
    unfold intervals
    generalize List.range fn.ntemps = l
    induction l with
    | nil => exact List.Sublist.refl _
    | cons t l ih =>
      cases hiv : (ranges fn.ntemps fn.code).interval t with
      | none =>
        rw [List.filterMap_cons_none hiv]
        exact ih.cons t
      | some iv =>
        have htemp : iv.temp = t := by
          unfold Ranges.interval at hiv
          obtain ⟨d, -, rfl⟩ := Option.map_eq_some_iff.1 hiv
          rfl
        rw [List.filterMap_cons_some hiv, List.map_cons, htemp]
        exact ih.cons_cons t
  exact hsub.nodup List.nodup_range

theorem start_le_of_sortByStart {a b : Interval} (h : sortByStart a b ≤ 0) : a.start ≤ b.start := by
  unfold sortByStart at h
  split_ifs at h with hne
  · omega
  · omega

theorem scan_ok (q : Qsort) (fn : Func) {ivs : List Interval}
    (hpre : ivs <+: q.sort (intervals fn)) :
    ∃ b, (ivs.foldl Scan.step Scan.init).Ok ivs b := by
  have hnodup : ((q.sort (intervals fn)).map Interval.temp).Nodup :=
    ((q.perm _).map _).nodup_iff.2 (intervals_temps_nodup fn)
  have hstarts : (q.sort (intervals fn)).Pairwise fun a b => a.start ≤ b.start :=
    (q.sorted _).imp start_le_of_sortByStart
  have hrun := (Scan.init_ok 0).run ivs (fun _ _ => Nat.zero_le _)
    (hstarts.sublist hpre.sublist) (by simp)
    (by simpa using hnodup.sublist (hpre.sublist.map _))
  simpa using hrun

theorem regalloc_location (q : Qsort) (fn : Func) {t : Nat} (ht : t < fn.ntemps)
    (hdef : ∃ i ∈ fn.code, i.dst = some t) :
    (∃ r, (regalloc q fn).tempReg t = some r ∧ 2 ≤ r ∧ r ≤ 7 ∧
      (regalloc q fn).tempSpill t = none) ∨
    ((regalloc q fn).tempReg t = none ∧ ∃ o, (regalloc q fn).tempSpill t = some o ∧ 4 ∣ o ∧
      o < 4 * (regalloc q fn).nspills) := by
  obtain ⟨b, hok⟩ := scan_ok q fn List.prefix_rfl
  obtain ⟨i, hi, hdst⟩ := hdef
  obtain ⟨iv, hiv, rfl⟩ := exists_interval ht hi hdst
  rcases hok.located iv ((q.perm _).mem_iff.2 hiv) with ⟨k, hk, hreg, hspill⟩ | ⟨hreg, o, hspill⟩
  · have hk' : k < 6 := hk
    exact Or.inl ⟨k + 2, hreg, by omega, by omega, hspill⟩
  · obtain ⟨j, hj, rfl⟩ := hok.slots iv.temp o hspill
    refine Or.inr ⟨hreg, j * 4, hspill, ⟨j, Nat.mul_comm j 4⟩, ?_⟩
    change j * 4 < 4 * ((q.sort (intervals fn)).foldl Scan.step Scan.init).nspills
    omega

theorem regalloc_slot (q : Qsort) (fn : Func) {t o : Nat}
    (h : (regalloc q fn).tempSpill t = some o) : ∃ j < (regalloc q fn).nspills, o = j * 4 := by
  obtain ⟨b, hok⟩ := scan_ok q fn List.prefix_rfl
  exact hok.slots t o h

theorem regalloc_oneSlot (q : Qsort) (fn : Func) {t t' o : Nat}
    (h : (regalloc q fn).tempSpill t = some o) (h' : (regalloc q fn).tempSpill t' = some o) :
    t = t' := by
  obtain ⟨b, hok⟩ := scan_ok q fn List.prefix_rfl
  exact hok.oneSlot t t' o h h'

theorem regalloc_apart (q : Qsort) (fn : Func) {iv iv' : Interval} (hiv : iv ∈ intervals fn)
    (hiv' : iv' ∈ intervals fn) (hne : iv.temp ≠ iv'.temp) (hlo : iv.start ≤ iv'.stop)
    (hhi : iv'.start ≤ iv.stop) {r : Nat} (hr : (regalloc q fn).tempReg iv.temp = some r) :
    (regalloc q fn).tempReg iv'.temp ≠ some r := by
  intro hr'
  obtain ⟨b, hok⟩ := scan_ok q fn List.prefix_rfl
  have hmem : ∀ {iv}, iv ∈ intervals fn → iv ∈ q.sort (intervals fn) := fun hiv =>
    (q.perm _).mem_iff.2 hiv
  have hsome : (regalloc q fn).tempReg iv.temp ≠ none := by
    rw [hr]
    exact Option.some_ne_none _
  rcases hok.disjoint iv (hmem hiv) iv' (hmem hiv') (hr.trans hr'.symm) hsome with heq | hlt | hlt
  · exact hne (by rw [heq])
  · omega
  · omega

theorem interval_around {t d p u : Nat} {i j : Insn} (ht : t < fn.ntemps)
    (hi : fn.code[d]? = some i) (hdef : i.dst = some t) (hj : fn.code[u]? = some j)
    (huse : j.Names t) (hdp : d ≤ p) (hpu : p ≤ u) :
    ∃ iv ∈ intervals fn, iv.temp = t ∧ iv.start ≤ p ∧ p ≤ iv.stop := by
  obtain ⟨d', hd', hle⟩ := (ranges_spec ht hi).1 hdef
  obtain ⟨u', hu', hge⟩ := (ranges_spec ht hj).2 huse
  have hiv : (ranges fn.ntemps fn.code).interval t = some ⟨t, d', max d' u'⟩ := by
    simp [Ranges.interval, hd', hu']
  exact ⟨⟨t, d', max d' u'⟩, mem_intervals.2 ⟨ht, hiv⟩, rfl, hle.trans hdp,
    (hpu.trans hge).trans (Nat.le_max_right ..)⟩

theorem regalloc_apart_at (q : Qsort) (fn : Func) {p r : Nat} {t t' : Nat} (hne : t ≠ t')
    (hlive : ∀ x ∈ [t, t'], x < fn.ntemps ∧
      (∃ d ≤ p, ∃ i, fn.code[d]? = some i ∧ i.dst = some x) ∧
      ∃ u, p ≤ u ∧ ∃ j, fn.code[u]? = some j ∧ j.Names x)
    (hr : (regalloc q fn).tempReg t = some r) : (regalloc q fn).tempReg t' ≠ some r := by
  have hiv : ∀ x ∈ [t, t'], ∃ iv ∈ intervals fn, iv.temp = x ∧ iv.start ≤ p ∧ p ≤ iv.stop := by
    intro x hx
    obtain ⟨hlt, ⟨d, hd, i, hi, hdef⟩, u, hu, j, hj, huse⟩ := hlive x hx
    exact interval_around hlt hi hdef hj huse hd hu
  obtain ⟨iv, hmem, rfl, hlo, hhi⟩ := hiv t (.head _)
  obtain ⟨iv', hmem', rfl, hlo', hhi'⟩ := hiv t' (.tail _ (.head _))
  exact regalloc_apart q fn hmem hmem' hne (hlo.trans hhi') (hlo'.trans hhi) hr

/-- Every temp that is defined has one location; temps with intersecting intervals have different
registers, no two temps share a spill slot, and the list of active intervals is short and
sorted all along. -/
theorem linear_scan_sound (q : Qsort) (fn : Func) :
    (∀ t < fn.ntemps, (∃ i ∈ fn.code, i.dst = some t) →
      (∃ r, (regalloc q fn).tempReg t = some r ∧ 2 ≤ r ∧ r ≤ 7 ∧
        (regalloc q fn).tempSpill t = none) ∨
      ((regalloc q fn).tempReg t = none ∧ ∃ o, (regalloc q fn).tempSpill t = some o ∧ 4 ∣ o ∧
        o < 4 * (regalloc q fn).nspills)) ∧
    (∀ iv ∈ intervals fn, ∀ iv' ∈ intervals fn, iv.temp ≠ iv'.temp →
      iv.start ≤ iv'.stop → iv'.start ≤ iv.stop → ∀ r,
        (regalloc q fn).tempReg iv.temp = some r → (regalloc q fn).tempReg iv'.temp ≠ some r) ∧
    (∀ t t' o, (regalloc q fn).tempSpill t = some o → (regalloc q fn).tempSpill t' = some o →
      t = t') ∧
    ∀ ivs, ivs <+: q.sort (intervals fn) →
      (ivs.foldl Scan.step Scan.init).active.length ≤ numRegs ∧
        ByEnd (ivs.foldl Scan.step Scan.init).active := by
  refine ⟨fun t ht hdef => regalloc_location q fn ht hdef,
    fun iv hiv iv' hiv' hne hlo hhi r hr => regalloc_apart q fn hiv hiv' hne hlo hhi hr,
    fun t t' o => regalloc_oneSlot q fn, fun ivs hivs => ?_⟩
  obtain ⟨b, hok⟩ := scan_ok q fn hivs
  exact ⟨hok.length_le, hok.sorted⟩

end Soundness

end MechanicalResearcher.PortableCompiler
