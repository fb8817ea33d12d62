import Mathlib.Data.List.Basic

/-!
# Messages in a stream

A decoder takes the first message off the bytes that have arrived, and an encoder is right for it
when a whole message is taken, whatever follows, and no proper part of one is.  Then what a
receiver takes does not depend on how the stream was cut: between two reads it holds a proper part
of the next message, and nothing else.
-/

namespace MechanicalResearcher.Lib.Framing

variable {α β γ : Type}

/-- The encoder `enc` is right for the decoder `dec` on the messages that are `ok`: the decoder
gives the value of the message and how many bytes it takes. -/
structure Framed (dec : List α → Option (γ × Nat)) (enc : β → List α) (val : β → γ)
    (ok : β → Prop) : Prop where
  empty : dec [] = none
  whole : ∀ x, ok x → ∀ rest, dec (enc x ++ rest) = some (val x, (enc x).length)
  part : ∀ x, ok x → ∀ p q, p ++ q = enc x → q ≠ [] → dec p = none
  ne_nil : ∀ x, ok x → enc x ≠ []

/-- Takes messages off the buffer until the decoder finds none, at most `fuel` of them. -/
def drain (dec : List α → Option (γ × Nat)) : Nat → List α → List γ × List α
  | 0, buf => ([], buf)
  | fuel + 1, buf =>
    match dec buf with
    | none => ([], buf)
    | some (x, n) =>
      let r := drain dec fuel (buf.drop n)
      (x :: r.1, r.2)

/-- Takes in reads one after the other, and drains the buffer after each. -/
def receive (dec : List α → Option (γ × Nat)) : List α → List (List α) → List γ × List α
  | buf, [] => ([], buf)
  | buf, c :: cs =>
    let r := drain dec (buf ++ c).length (buf ++ c)
    let t := receive dec r.2 cs
    (r.1 ++ t.1, t.2)

/-- The bytes `p` are a proper part of the first message of `xs`. -/
def Pending (enc : β → List α) (p : List α) (xs : List β) : Prop :=
  p = [] ∨ ∃ x q, xs.head? = some x ∧ p ++ q = enc x ∧ q ≠ []

section Framed

variable {dec : List α → Option (γ × Nat)} {enc : β → List α} {val : β → γ} {ok : β → Prop}

theorem Pending.dec_eq_none (h : Framed dec enc val ok) {p : List α} {xs : List β}
    (hp : Pending enc p xs) (hok : ∀ x ∈ xs, ok x) : dec p = none := by
  obtain rfl | ⟨x, q, hx, hq, hne⟩ := hp
  · exact h.empty
  · exact h.part x (hok x (List.mem_of_head? hx)) p q hq hne

theorem exists_split (enc : β → List α) (xs : List β) (a b : List α)
    (hab : a ++ b = xs.flatMap enc) :
    ∃ ys zs p, xs = ys ++ zs ∧ a = ys.flatMap enc ++ p ∧ p ++ b = zs.flatMap enc ∧
      Pending enc p zs := by
  induction xs generalizing a with
  | nil =>
    have hnil : a = [] ∧ b = [] := List.append_eq_nil_iff.1 hab
    exact ⟨[], [], [], rfl, by simp [hnil.1], by simp [hnil.2], .inl rfl⟩
  | cons x xs ih =>
    rw [List.flatMap_cons, List.append_eq_append_iff] at hab
    obtain ⟨c, hc, hb⟩ | ⟨c, ha, hc⟩ := hab
    · by_cases hne : c = []
      · subst hne
        rw [List.append_nil] at hc
        exact ⟨[x], xs, [], rfl, by simp [hc], by simpa using hb, .inl rfl⟩
      · refine ⟨[], x :: xs, a, rfl, by simp, ?_, .inr ⟨x, c, rfl, hc.symm, hne⟩⟩
        rw [hb, List.flatMap_cons, hc, List.append_assoc]
    · obtain ⟨ys, zs, p, hxs, hp, hrest, hpend⟩ := ih c hc.symm
      refine ⟨x :: ys, zs, p, by rw [hxs, List.cons_append], ?_, hrest, hpend⟩
      rw [ha, hp, List.flatMap_cons, List.append_assoc]

theorem drain_flatMap (h : Framed dec enc val ok) {ys zs : List β} {p : List α}
    (hp : Pending enc p zs) (hys : ∀ y ∈ ys, ok y) (hzs : ∀ z ∈ zs, ok z) {fuel : Nat}
    (hfuel : (ys.flatMap enc ++ p).length ≤ fuel) :
    drain dec fuel (ys.flatMap enc ++ p) = (ys.map val, p) := by
  induction ys generalizing fuel with
  | nil =>
    have hnone : dec p = none := hp.dec_eq_none h hzs
    cases fuel with
    | zero => rfl
    | succ fuel => simp [drain, hnone]
  | cons y ys ih =>
    have hy : ok y := hys y (by simp)
    have hpos : 0 < (enc y).length := List.length_pos_iff.2 (h.ne_nil y hy)
    rw [List.flatMap_cons, List.append_assoc] at hfuel ⊢
    rw [List.length_append] at hfuel
    obtain ⟨fuel, rfl⟩ : ∃ f, fuel = f + 1 := ⟨fuel - 1, by omega⟩
    have hrest := ih (fun z hz => hys z (List.mem_cons_of_mem _ hz))
      (show (ys.flatMap enc ++ p).length ≤ fuel by omega)
    simp [drain, h.whole y hy, hrest]

theorem receive_split (h : Framed dec enc val ok) {xs : List β} (hxs : ∀ x ∈ xs, ok x)
    (cs : List (List α)) (p b : List α) (hsplit : p ++ (cs.flatten ++ b) = xs.flatMap enc)
    (hp : Pending enc p xs) :
    ∃ ys zs p', xs = ys ++ zs ∧ receive dec p cs = (ys.map val, p') ∧
      p ++ cs.flatten = ys.flatMap enc ++ p' ∧ Pending enc p' zs := by
  induction cs generalizing p xs with
  | nil => exact ⟨[], xs, p, rfl, rfl, by simp, hp⟩
  | cons c cs ih =>
    rw [List.flatten_cons, List.append_assoc, ← List.append_assoc] at hsplit
    obtain ⟨ys, zs, q, rfl, hq, hrest, hpend⟩ := exists_split enc xs _ _ hsplit
    have hys : ∀ y ∈ ys, ok y := fun y hy => hxs y (List.mem_append_left _ hy)
    have hzs : ∀ z ∈ zs, ok z := fun z hz => hxs z (List.mem_append_right _ hz)
    have hdrain : drain dec (p ++ c).length (p ++ c) = (ys.map val, q) := by
      rw [hq]
      exact drain_flatMap h hpend hys hzs (Nat.le_refl _)
    obtain ⟨ys', zs', p', rfl, hrec, htaken, hpend'⟩ := ih hzs q hrest hpend
    refine ⟨ys ++ ys', zs', p', by rw [List.append_assoc], ?_, ?_, hpend'⟩
    · rw [receive, hdrain, hrec, List.map_append]
    · rw [List.flatten_cons, ← List.append_assoc, hq, List.append_assoc, htaken,
        List.flatMap_append, List.append_assoc]

theorem receive_flatMap (h : Framed dec enc val ok) {xs : List β} (hxs : ∀ x ∈ xs, ok x)
    {cs : List (List α)} (hcs : cs.flatten = xs.flatMap enc) :
    receive dec [] cs = (xs.map val, []) := by
  obtain ⟨ys, zs, p, rfl, hrec, htaken, hp⟩ :=
    receive_split h hxs cs [] [] (by simpa using hcs) (.inl rfl)
  have hrest : p = zs.flatMap enc := by
    rw [List.nil_append, hcs, List.flatMap_append] at htaken
    exact (List.append_cancel_left htaken).symm
  cases zs with
  | nil =>
    obtain rfl : p = [] := hrest
    simpa using hrec
  | cons z zs =>
    -- the part that is held would be at least the message `z`
    exfalso
    have hne : enc z ≠ [] := h.ne_nil z (hxs z (by simp))
    obtain rfl | ⟨x, q, hx, hq, hqne⟩ := hp
    · rw [List.flatMap_cons] at hrest
      exact hne (List.append_eq_nil_iff.1 hrest.symm).1
    · obtain rfl : z = x := by simpa using hx
      have hlen : p.length + q.length = (enc z).length := by rw [← hq, List.length_append]
      have hlen' : p.length = (enc z).length + (zs.flatMap enc).length := by
        rw [hrest, List.flatMap_cons, List.length_append]
      have hpos : 0 < q.length := List.length_pos_iff.2 hqne
      omega

end Framed

end MechanicalResearcher.Lib.Framing
