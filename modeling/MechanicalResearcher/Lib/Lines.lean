import Mathlib.Data.List.Basic
import Mathlib.Data.List.TakeWhile

/-!
# Reading a text through a bounded buffer

`readLine sep n s` is one read with room for `n` symbols: it ends behind the first separator, or
when the room is used up.  `lines` are all the reads of a text, where `acc` is what the read that
is going on has taken so far.

What the last read has taken when the text ends is `pending`.  It is what a text that is appended
later is joined to: the reads before it stay as they are.
-/

namespace MechanicalResearcher.Lib.Lines

variable {α : Type} [DecidableEq α] {sep : α} {cap : Nat} {acc s r : List α} {c : α}

def readLine (sep : α) : Nat → List α → List α × List α
  | 0, s => ([], s)
  | _ + 1, [] => ([], [])
  | n + 1, c :: s =>
    if c = sep then ([c], s)
    else
      let r := readLine sep n s
      (c :: r.1, r.2)

/-- The symbol `c` ends the read that has taken `acc`. -/
def Ends (sep : α) (cap : Nat) (acc : List α) (c : α) : Prop := c = sep ∨ acc.length + 1 = cap

instance (sep : α) (cap : Nat) (acc : List α) (c : α) : Decidable (Ends sep cap acc c) :=
  inferInstanceAs (Decidable (_ ∨ _))

/-- The reads that end inside the text. -/
def complete (sep : α) (cap : Nat) : List α → List α → List (List α)
  | _, [] => []
  | acc, c :: s =>
    if Ends sep cap acc c then (acc ++ [c]) :: complete sep cap [] s
    else complete sep cap (acc ++ [c]) s

/-- What the last read has taken. -/
def pending (sep : α) (cap : Nat) : List α → List α → List α
  | acc, [] => acc
  | acc, c :: s =>
    if Ends sep cap acc c then pending sep cap [] s else pending sep cap (acc ++ [c]) s

def lines (sep : α) (cap : Nat) : List α → List α → List (List α)
  | acc, [] => if acc = [] then [] else [acc]
  | acc, c :: s =>
    if Ends sep cap acc c then (acc ++ [c]) :: lines sep cap [] s
    else lines sep cap (acc ++ [c]) s

/-- The end of a text behind its last separator. -/
def lastLine (sep : α) : List α → List α
  | [] => []
  | c :: s => if sep ∈ c :: s then lastLine sep s else c :: s

theorem lines_append (acc s r : List α) :
    lines sep cap acc (s ++ r) =
      complete sep cap acc s ++ lines sep cap (pending sep cap acc s) r := by
  induction s generalizing acc with
  | nil => rfl
  | cons c s ih =>
    by_cases h : Ends sep cap acc c
    · simp only [List.cons_append, lines, complete, pending, if_pos h, ih]
    · simp only [List.cons_append, lines, complete, pending, if_neg h, ih]

theorem lines_eq (sep : α) (cap : Nat) (s : List α) :
    lines sep cap [] s =
      complete sep cap [] s ++
        if pending sep cap [] s = [] then [] else [pending sep cap [] s] := by
  have h : lines sep cap [] (s ++ []) =
      complete sep cap [] s ++ lines sep cap (pending sep cap [] s) [] := lines_append [] s []
  rwa [List.append_nil] at h

theorem lines_room (hsep : sep ∉ r) (hroom : acc.length + r.length < cap) (s : List α) :
    lines sep cap acc (r ++ s) = lines sep cap (acc ++ r) s := by
  induction r generalizing acc with
  | nil => rw [List.nil_append, List.append_nil]
  | cons c r ih =>
    rw [List.length_cons] at hroom
    have hc : ¬ Ends sep cap acc c := by
      rintro (rfl | hfull)
      · exact hsep (List.mem_cons_self ..)
      · omega
    have hr : sep ∉ r := fun h => hsep (List.mem_cons_of_mem c h)
    rw [List.cons_append, lines, if_neg hc, ih hr (by simp; omega), List.append_assoc]
    rfl

theorem lines_full (hsep : sep ∉ r) (hr : r ≠ []) (hfull : acc.length + r.length = cap)
    (s : List α) : lines sep cap acc (r ++ s) = (acc ++ r) :: lines sep cap [] s := by
  obtain ⟨r, c, rfl⟩ := (List.eq_nil_or_concat' r).resolve_left hr
  rw [List.length_append, List.length_singleton] at hfull
  have hlast : Ends sep cap (acc ++ r) c := .inr (by simp; omega)
  have hfront : sep ∉ r := fun h => hsep (List.mem_append_left _ h)
  rw [List.append_assoc, lines_room hfront (by omega), List.singleton_append, lines,
    if_pos hlast, List.append_assoc]

theorem lines_sep (acc : List α) (s : List α) :
    lines sep cap acc (sep :: s) = (acc ++ [sep]) :: lines sep cap [] s := by
  rw [lines, if_pos (.inl rfl)]

theorem lines_joined (hsep : sep ∉ r) (hacc : acc.length < cap) (hr : r.length < cap) :
    lines sep cap acc (r ++ [sep]) =
      (acc ++ (r ++ [sep]).take (cap - acc.length)) ::
        if (r ++ [sep]).drop (cap - acc.length) = [] then []
        else [(r ++ [sep]).drop (cap - acc.length)] := by
  by_cases hroom : acc.length + r.length < cap
  · have htake : (r ++ [sep]).length ≤ cap - acc.length := by simp; omega
    rw [lines_room hsep hroom, lines_sep, List.take_of_length_le htake,
      List.drop_of_length_le htake, if_pos rfl, List.append_assoc]
    rfl
  · have hle : cap - acc.length ≤ r.length := by omega
    have hfront : (r.take (cap - acc.length)).length = cap - acc.length :=
      List.length_take_of_le hle
    have hne : r.take (cap - acc.length) ≠ [] := by
      intro h
      rw [h, List.length_nil] at hfront
      omega
    have hsplit : r ++ [sep] =
        r.take (cap - acc.length) ++ (r.drop (cap - acc.length) ++ [sep]) := by
      rw [← List.append_assoc, List.take_append_drop]
    have hend : ¬ (r.drop (cap - acc.length) ++ [sep] = []) := by simp
    have hback : (([] : List α).length + (r.drop (cap - acc.length)).length) < cap := by
      simp; omega
    have hmem : sep ∉ r.drop (cap - acc.length) := fun h => hsep (List.mem_of_mem_drop h)
    rw [List.take_append_of_le_length hle, List.drop_append_of_le_length hle, if_neg hend, hsplit,
      lines_full (fun h => hsep (List.mem_of_mem_take h)) hne (by omega), lines_room hmem hback,
      lines_sep]
    rfl

theorem readLine_lines (sep : α) (hacc : acc.length < cap) (hs : s ≠ []) :
    lines sep cap acc s =
      (acc ++ (readLine sep (cap - acc.length) s).1) ::
        lines sep cap [] (readLine sep (cap - acc.length) s).2 := by
  induction s generalizing acc with
  | nil => exact absurd rfl hs
  | cons c s ih =>
    obtain ⟨n, hn⟩ : ∃ n, cap - acc.length = n + 1 := ⟨cap - acc.length - 1, by omega⟩
    rw [hn, readLine]
    by_cases hc : c = sep
    · rw [lines, if_pos (.inl hc), if_pos hc]
    · rw [if_neg hc]
      by_cases hlast : acc.length + 1 = cap
      · have hn0 : n = 0 := by omega
        rw [lines, if_pos (.inr hlast), hn0]
        rfl
      · have hmore : ¬ Ends sep cap acc c := not_or.2 ⟨hc, hlast⟩
        rw [lines, if_neg hmore]
        rcases s with _ | ⟨d, s⟩
        · cases n <;> simp [lines, readLine]
        · have hlen : cap - (acc ++ [c]).length = n := by simp; omega
          rw [ih (by simp; omega) (List.cons_ne_nil _ _), hlen, List.append_assoc]
          rfl

theorem readLine_length (sep : α) (hs : s ≠ []) {n : Nat} (hn : 0 < n) :
    (readLine sep n s).2.length < s.length := by
  have hle : ∀ n (s : List α), (readLine sep n s).2.length ≤ s.length := by
    intro n s
    induction s generalizing n with
    | nil => cases n <;> simp [readLine]
    | cons c s ih =>
      cases n with
      | zero => simp [readLine]
      | succ n =>
        rw [readLine]
        split
        · simp
        · exact Nat.le_trans (ih n) (by simp)
  obtain ⟨n, rfl⟩ : ∃ m, n = m + 1 := ⟨n - 1, by omega⟩
  rcases s with _ | ⟨c, s⟩
  · exact absurd rfl hs
  · rw [readLine]
    split
    · simp
    · exact Nat.lt_succ_of_le (hle n s)

theorem pending_sep (hcap : acc.length < cap) (hacc : sep ∉ acc) :
    sep ∉ pending sep cap acc s ∧ (pending sep cap acc s).length < cap := by
  induction s generalizing acc with
  | nil => exact ⟨hacc, hcap⟩
  | cons c s ih =>
    rw [pending]
    split
    · exact ih (by simp; omega) (by simp)
    · rename_i hc
      obtain ⟨hne, hroom⟩ := not_or.1 hc
      refine ih (by simp; omega) ?_
      simpa [hacc] using fun h => hne h.symm

theorem lastLine_of_notMem (h : sep ∉ s) : lastLine sep s = s := by
  cases s with
  | nil => rfl
  | cons c s => rw [lastLine, if_neg h]

theorem lastLine_append (h : sep ∈ s) (r : List α) : lastLine sep (r ++ s) = lastLine sep s := by
  induction r with
  | nil => rfl
  | cons c r ih =>
    have hmem : sep ∈ c :: (r ++ s) := List.mem_cons_of_mem c (List.mem_append_right r h)
    rw [List.cons_append, lastLine, if_pos hmem, ih]

theorem pending_eq_drop (hcap : acc.length < cap) (hacc : sep ∉ acc) :
    pending sep cap acc s =
      (lastLine sep (acc ++ s)).drop ((lastLine sep (acc ++ s)).length / cap * cap) := by
  induction s generalizing acc with
  | nil =>
    rw [List.append_nil, lastLine_of_notMem hacc, Nat.div_eq_of_lt hcap, Nat.zero_mul,
      List.drop_zero, pending]
  | cons c s ih =>
    have hpos : 0 < cap := by omega
    have hnil := @ih [] hpos List.not_mem_nil
    rw [List.nil_append] at hnil
    have happ : acc ++ c :: s = (acc ++ [c]) ++ s := by rw [List.append_assoc]; rfl
    by_cases hc : c = sep
    · have hlast : lastLine sep (acc ++ c :: s) = lastLine sep s := by
        rw [lastLine_append (by simp [hc]), lastLine, if_pos (by simp [hc])]
      rw [pending, if_pos (.inl hc), hnil, hlast]
    · by_cases hfull : acc.length + 1 = cap
      · rw [pending, if_pos (.inr hfull), hnil, happ]
        by_cases hs : sep ∈ s
        · rw [lastLine_append hs]
        · -- the whole text is the last line, and its front fills one read
          have hall : sep ∉ (acc ++ [c]) ++ s := by
            simp [hacc, hs, Ne.symm hc]
          have hlen : (acc ++ [c]).length = cap := by rw [List.length_append]; exact hfull
          rw [lastLine_of_notMem hs, lastLine_of_notMem hall, List.length_append, hlen,
            Nat.add_div_left _ hpos, Nat.succ_mul, Nat.add_comm _ cap, ← List.drop_drop,
            List.drop_left' hlen]
      · have hmore : ¬ Ends sep cap acc c := not_or.2 ⟨hc, hfull⟩
        have hacc' : sep ∉ acc ++ [c] := by simp [hacc, Ne.symm hc]
        rw [pending, if_neg hmore, happ]
        exact ih (by simp; omega) hacc'

/-- The first word of a text, between symbols that are `blank`, and what follows it. -/
def firstWord (blank : α → Bool) (s : List α) : List α × List α :=
  ((s.dropWhile blank).takeWhile (!blank ·), (s.dropWhile blank).dropWhile (!blank ·))

section Words

omit [DecidableEq α]

variable {blank : α → Bool} {u v w : List α} {d : α}

theorem firstWord_blank (hu : ∀ c ∈ u, blank c = true) (v : List α) :
    firstWord blank (u ++ v) = firstWord blank v := by
  rw [firstWord, List.dropWhile_append_of_pos hu, firstWord]

theorem firstWord_of_blank (hu : ∀ c ∈ u, blank c = true) : firstWord blank u = ([], []) := by
  have h := firstWord_blank hu []
  rwa [List.append_nil] at h

theorem firstWord_append (hu : ∃ c ∈ u, blank c = false) (hd : blank d = true) (v : List α) :
    firstWord blank (u ++ d :: v) =
      ((firstWord blank u).1, (firstWord blank u).2 ++ d :: v) := by
  induction u with
  | nil => simp at hu
  | cons c u ih =>
    by_cases hc : blank c = true
    · have hu : ∃ c ∈ u, blank c = false := by
        obtain ⟨e, he, hblank⟩ := hu
        rcases List.mem_cons.1 he with rfl | he
        · simp [hc] at hblank
        · exact ⟨e, he, hblank⟩
      have hskip (s : List α) : firstWord blank (c :: s) = firstWord blank s :=
        firstWord_blank (u := [c]) (by simpa using hc) s
      rw [List.cons_append, hskip, hskip, ih hu]
    · -- the word has begun: it goes on to the next blank
      have hrun (s : List α) (hd : blank d = true) :
          (s ++ d :: v).takeWhile (!blank ·) = s.takeWhile (!blank ·) ∧
            (s ++ d :: v).dropWhile (!blank ·) = s.dropWhile (!blank ·) ++ d :: v := by
        induction s with
        | nil => simp [hd]
        | cons e s ih => by_cases he : blank e = true <;> simp [he, ih]
      have hword (s : List α) :
          (c :: s).dropWhile blank = c :: s := List.dropWhile_cons_of_neg hc
      simp only [firstWord, List.cons_append, hword]
      exact Prod.ext (hrun (c :: u) hd).1 (hrun (c :: u) hd).2

theorem firstWord_word (hw : ∀ c ∈ w, blank c = false) (hne : w ≠ []) :
    firstWord blank w = (w, []) := by
  obtain ⟨c, w, rfl⟩ := List.exists_cons_of_ne_nil hne
  have hc : blank c = false := hw c (List.mem_cons_self ..)
  have hdrop : (c :: w).dropWhile blank = c :: w := List.dropWhile_cons_of_neg (by simp [hc])
  have hall : ∀ e ∈ c :: w, (!blank e) = true := fun e he => by simp [hw e he]
  rw [firstWord, hdrop, List.takeWhile_eq_self_iff.2 hall, List.dropWhile_eq_nil_iff.2 hall]

theorem firstWord_split (blank : α → Bool) (s : List α) :
    ∃ b, (∀ c ∈ b, blank c = true) ∧
      s = b ++ (firstWord blank s).1 ++ (firstWord blank s).2 := by
  refine ⟨s.takeWhile blank, fun c hc => List.mem_takeWhile_imp hc, ?_⟩
  rw [firstWord, List.append_assoc, List.takeWhile_append_dropWhile,
    List.takeWhile_append_dropWhile]

theorem firstWord_rest (h : (firstWord blank s).2 ≠ []) :
    ∃ d v, (firstWord blank s).2 = d :: v ∧ blank d = true := by
  obtain ⟨d, v, hv⟩ := List.exists_cons_of_ne_nil h
  refine ⟨d, v, hv, ?_⟩
  have hhead := List.head?_dropWhile_not (!blank ·) (s.dropWhile blank)
  have htail : (s.dropWhile blank).dropWhile (!blank ·) = d :: v := hv
  rw [htail] at hhead
  simpa using hhead

def twoWords (blank : α → Bool) (s : List α) : List α × List α :=
  ((firstWord blank s).1, (firstWord blank (firstWord blank s).2).1)

theorem twoWords_append (hu : ∃ c ∈ u, blank c = false) (hd : blank d = true) (v : List α) :
    twoWords blank (u ++ d :: v) =
      if ∃ c ∈ (firstWord blank u).2, blank c = false then twoWords blank u
      else ((firstWord blank u).1, (firstWord blank v).1) := by
  rw [twoWords, firstWord_append hu hd]
  split
  · rename_i hrest
    rw [firstWord_append hrest hd]
    rfl
  · rename_i hrest
    have hblank : ∀ c ∈ (firstWord blank u).2 ++ [d], blank c = true := by
      intro c hc
      rcases List.mem_append.1 hc with hc | hc
      · exact Bool.of_not_eq_false fun h => hrest ⟨c, hc, h⟩
      · rwa [List.mem_singleton.1 hc]
    have happ : (firstWord blank u).2 ++ d :: v = ((firstWord blank u).2 ++ [d]) ++ v := by
      rw [List.append_assoc]
      rfl
    rw [happ, firstWord_blank hblank]

theorem twoWords_concat (hd : blank d = true) (s : List α) :
    twoWords blank (s ++ [d]) = twoWords blank s := by
  by_cases hs : ∃ c ∈ s, blank c = false
  · rw [twoWords_append hs hd]
    split
    · rfl
    · rename_i hrest
      have hblank : ∀ c ∈ (firstWord blank s).2, blank c = true :=
        fun c hc => Bool.of_not_eq_false fun h => hrest ⟨c, hc, h⟩
      rw [twoWords, firstWord_of_blank hblank]
      rfl
  · have hblank : ∀ c ∈ s, blank c = true :=
      fun c hc => Bool.of_not_eq_false fun h => hs ⟨c, hc, h⟩
    rw [twoWords, firstWord_blank hblank, twoWords, firstWord_of_blank hblank,
      firstWord_of_blank (by simpa using hd)]

theorem twoWords_length (blank : α → Bool) (h : (twoWords blank s).2 ≠ []) :
    (twoWords blank s).1.length + 1 + (twoWords blank s).2.length ≤ s.length := by
  obtain ⟨b, -, hs⟩ := firstWord_split blank s
  have hrest : (firstWord blank s).2 ≠ [] := by
    intro hnil
    rw [twoWords, hnil] at h
    exact h rfl
  obtain ⟨d, v, hv, hd⟩ := firstWord_rest hrest
  have hskip : firstWord blank (d :: v) = firstWord blank v :=
    firstWord_blank (u := [d]) (by simpa using hd) v
  obtain ⟨b', -, hs'⟩ := firstWord_split blank v
  have hlen := congrArg List.length hs
  have hlen' := congrArg List.length hs'
  have hsecond : (twoWords blank s).2 = (firstWord blank v).1 := by
    rw [twoWords, hv, hskip]
  have hfirst : (twoWords blank s).1 = (firstWord blank s).1 := rfl
  rw [hsecond, hfirst]
  simp only [List.length_append, hv, List.length_cons] at hlen hlen'
  omega

end Words

end MechanicalResearcher.Lib.Lines
