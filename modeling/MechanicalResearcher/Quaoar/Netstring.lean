import Mathlib.Data.Nat.Digits.Lemmas
import MechanicalResearcher.Lib.Framing

/-!
# Netstrings

`ns_decode`, `send_to_app`, `app_process` and the read of an app's socket in
`programmable-display-protocols/demo/quaoar-server.c`.  The buffer of an app is the list of its
`rlen` bytes.  A colon is looked for in ten bytes only, so a length has at most nine digits and
its value fits an `int`.
-/

namespace MechanicalResearcher.Quaoar

open Lib.Framing

def maxMsg : Nat := 65536
def bufSize : Nat := maxMsg * 2

def colonByte : UInt8 := 58
def commaByte : UInt8 := 44
def zeroByte : UInt8 := 48
def nineByte : UInt8 := 57

/-- The index of the colon behind digits, in the first `n` bytes. -/
def findColon : Nat → List UInt8 → Option Nat
  | 0, _ => none
  | _ + 1, [] => none
  | n + 1, b :: buf =>
    if b = colonByte then some 0
    else if b < zeroByte ∨ nineByte < b then none
    else (findColon n buf).map (· + 1)

/-- `len = len * 10 + (buf[i] - '0')` over the digits. -/
def digitsValue (digits : List UInt8) : Nat :=
  digits.foldl (fun len b => len * 10 + (b.toNat - zeroByte.toNat)) 0

/-- The message and the bytes that it takes, or none for -1. -/
def nsDecode (buf : List UInt8) (max : Nat) : Option (List UInt8 × Nat) :=
  match findColon 10 buf with
  | none => none
  | some colon =>
    if colon < 1 then none
    else if 1 < colon ∧ buf.head? = some zeroByte then none
    else
      let len := digitsValue (buf.take colon)
      let total := colon + 1 + len + 1
      if buf.length < total then none
      else if buf[total - 1]? ≠ some commaByte then none
      else if max < len then none
      else some ((buf.drop (colon + 1)).take len, total)

/-- `"%d"` of a number that is not negative. -/
def decimal (n : Nat) : List UInt8 :=
  if n = 0 then [zeroByte]
  else (Nat.digits 10 n).reverse.map fun d => UInt8.ofNat (zeroByte.toNat + d)

/-- The bytes that are written for a message. -/
def sendToApp (data : List UInt8) : List UInt8 :=
  decimal data.length ++ colonByte :: (data ++ [commaByte])

/-- The loop of `app_process`: the messages and the buffer.  Each message takes some bytes. -/
def appProcess : Nat → List UInt8 → List (List UInt8) × List UInt8
  | 0, rbuf => ([], rbuf)
  | fuel + 1, rbuf =>
    if rbuf.length = 0 then ([], rbuf)
    else
      match nsDecode rbuf maxMsg with
      | none => ([], rbuf)
      | some (msg, consumed) =>
        let r := appProcess fuel (rbuf.drop consumed)
        (msg :: r.1, r.2)

/-- A read of the socket; none when the app is removed, for lack of space or because nothing was
read. -/
def appRead (rbuf bytes : List UInt8) : Option (List (List UInt8) × List UInt8) :=
  if bufSize - rbuf.length = 0 then none
  else if bytes = [] then none
  else some (appProcess (rbuf ++ bytes).length (rbuf ++ bytes))

/-- Reads one after the other. -/
def appRun : List UInt8 → List (List UInt8) → Option (List (List UInt8) × List UInt8)
  | rbuf, [] => some ([], rbuf)
  | rbuf, bytes :: reads =>
    match appRead rbuf bytes with
    | none => none
    | some (msgs, rbuf') => (appRun rbuf' reads).map fun t => (msgs ++ t.1, t.2)

section Decimal

variable {n : Nat}

theorem decimal_ne_nil (n : Nat) : decimal n ≠ [] := by
  unfold decimal
  split
  · exact List.cons_ne_nil _ _
  · rename_i h0
    simpa using Nat.digits_ne_nil_iff_ne_zero.2 h0

theorem digit_of_mem_decimal {b : UInt8} (hb : b ∈ decimal n) :
    b ≠ colonByte ∧ ¬ (b < zeroByte ∨ nineByte < b) := by
  have hall : ∀ d < 10, UInt8.ofNat (zeroByte.toNat + d) ≠ colonByte ∧
      ¬ (UInt8.ofNat (zeroByte.toNat + d) < zeroByte ∨
        nineByte < UInt8.ofNat (zeroByte.toNat + d)) := by decide
  unfold decimal at hb
  split at hb
  · rw [List.mem_singleton] at hb
    rw [hb]
    exact hall 0 (by decide)
  · rw [List.mem_map] at hb
    obtain ⟨d, hd, rfl⟩ := hb
    exact hall d (Nat.digits_lt_base (by decide) (List.mem_reverse.1 hd))

theorem foldl_digits (ds : List Nat) (hds : ∀ d ∈ ds, d < 10) :
    digitsValue (ds.reverse.map fun d => UInt8.ofNat (zeroByte.toNat + d)) =
    Nat.ofDigits 10 ds := by
  have hdigit : ∀ d < 10, (UInt8.ofNat (zeroByte.toNat + d)).toNat - zeroByte.toNat = d := by decide
  unfold digitsValue
  induction ds with
  | nil => rfl
  | cons d ds ih =>
    have hrest := ih fun e he => hds e (List.mem_cons_of_mem _ he)
    rw [List.reverse_cons, List.map_append, List.foldl_append, hrest, List.map_singleton,
      List.foldl_cons, List.foldl_nil, hdigit d (hds d (by simp)), Nat.ofDigits_cons]
    omega

theorem digitsValue_decimal (n : Nat) : digitsValue (decimal n) = n := by
  unfold decimal
  split
  · rename_i h0
    rw [h0]
    rfl
  · rw [foldl_digits _ fun d hd => Nat.digits_lt_base (by decide) hd, Nat.ofDigits_digits]

theorem length_decimal_le (hn : n ≤ maxMsg) : (decimal n).length ≤ 5 := by
  unfold decimal
  split
  · decide
  · rw [List.length_map, List.length_reverse]
    exact Nat.digits_length_le_iff (by decide) n |>.2 (Nat.lt_of_le_of_lt hn (by decide))

theorem head?_decimal (h : 1 < (decimal n).length) : (decimal n).head? ≠ some zeroByte := by
  unfold decimal at h ⊢
  split
  · rename_i h0
    rw [if_pos h0] at h
    exact absurd h (by decide)
  · rename_i h0
    have hne : Nat.digits 10 n ≠ [] := Nat.digits_ne_nil_iff_ne_zero.2 h0
    have hlast := Nat.getLast_digit_ne_zero 10 h0
    have hlt : (Nat.digits 10 n).getLast hne < 10 :=
      Nat.digits_lt_base (by decide) (List.getLast_mem hne)
    have hall : ∀ d < 10, UInt8.ofNat (zeroByte.toNat + d) = zeroByte → d = 0 := by decide
    rw [List.head?_map, List.head?_reverse, List.getLast?_eq_some_getLast hne]
    simp only [Option.map_some, ne_eq, Option.some.injEq]
    exact fun hz => hlast (hall _ hlt hz)

end Decimal

/-- A message that the server takes. -/
def Message (m : List UInt8) : Prop := 1 ≤ m.length ∧ m.length ≤ maxMsg

instance (m : List UInt8) : Decidable (Message m) := inferInstanceAs (Decidable (_ ∧ _))

section Message

variable {m : List UInt8}

theorem findColon_digits {ds : List UInt8}
    (hds : ∀ b ∈ ds, b ≠ colonByte ∧ ¬ (b < zeroByte ∨ nineByte < b)) {n : Nat}
    (hn : ds.length < n) (rest : List UInt8) :
    findColon n (ds ++ colonByte :: rest) = some ds.length ∧ findColon n ds = none := by
  induction ds generalizing n with
  | nil =>
    obtain ⟨n, rfl⟩ : ∃ k, n = k + 1 := ⟨n - 1, by omega⟩
    exact ⟨if_pos rfl, rfl⟩
  | cons b ds ih =>
    obtain ⟨n, rfl⟩ : ∃ k, n = k + 1 := ⟨n - 1, by omega⟩
    obtain ⟨hcolon, hdigit⟩ := hds b (by simp)
    have hlen : ds.length < n := Nat.lt_of_succ_lt_succ hn
    obtain ⟨hfound, hnone⟩ := ih (fun c hc => hds c (List.mem_cons_of_mem _ hc)) hlen
    rw [List.cons_append, findColon, if_neg hcolon, if_neg hdigit, hfound, findColon,
      if_neg hcolon, if_neg hdigit, hnone]
    exact ⟨rfl, rfl⟩

theorem length_sendToApp (m : List UInt8) :
    (sendToApp m).length = (decimal m.length).length + 1 + m.length + 1 := by
  rw [sendToApp, List.length_append, List.length_cons, List.length_append, List.length_singleton]
  omega

theorem length_sendToApp_lt (hm : Message m) : (sendToApp m).length < bufSize := by
  have hdec := length_decimal_le hm.2
  have hlen : m.length ≤ 65536 := hm.2
  rw [length_sendToApp]
  unfold bufSize maxMsg
  omega

theorem nsDecode_colon (hm : Message m) (rest : List UInt8) (max : Nat) :
    nsDecode (decimal m.length ++ colonByte :: rest) max =
      if rest.length < m.length + 1 then none
      else if rest[m.length]? ≠ some commaByte then none
      else if max < m.length then none
      else some (rest.take m.length, (decimal m.length).length + 1 + m.length + 1) := by
  have hfind := (findColon_digits (fun b hb => digit_of_mem_decimal hb)
    (Nat.lt_of_le_of_lt (length_decimal_le hm.2) (by decide : 5 < 10)) rest).1
  have hpos : 0 < (decimal m.length).length := List.length_pos_iff.2 (decimal_ne_nil _)
  have hzero : ¬ (1 < (decimal m.length).length ∧
      (decimal m.length ++ colonByte :: rest).head? = some zeroByte) := by
    rintro ⟨hlong, hhead⟩
    rw [List.head?_append_of_ne_nil _ (decimal_ne_nil _)] at hhead
    exact head?_decimal hlong hhead
  have hdrop : (decimal m.length ++ colonByte :: rest).drop ((decimal m.length).length + 1) =
      rest := by
    simp
  have hget : (decimal m.length ++ colonByte :: rest)[(decimal m.length).length + 1 + m.length]? =
      rest[m.length]? := by
    rw [← List.getElem?_drop, hdrop]
  have hlen : (decimal m.length ++ colonByte :: rest).length <
      (decimal m.length).length + 1 + m.length + 1 ↔ rest.length < m.length + 1 := by
    rw [List.length_append, List.length_cons]
    omega
  unfold nsDecode
  simp only [hfind, if_neg (Nat.not_lt.2 hpos), if_neg hzero, List.take_left, digitsValue_decimal,
    Nat.add_sub_cancel, hget, hdrop, hlen]

theorem framed_nsDecode :
    Framed (fun buf => nsDecode buf maxMsg) sendToApp id Message where
  empty := rfl
  whole := fun m hm rest => by
    have hcat : sendToApp m ++ rest =
        decimal m.length ++ colonByte :: (m ++ (commaByte :: rest)) := by simp [sendToApp]
    rw [length_sendToApp, hcat, nsDecode_colon hm, if_neg (by simp), if_neg (by simp),
      if_neg (Nat.not_lt.2 hm.2), List.take_left]
    rfl
  part := fun m hm p q hpq hq => by
    have hqpos : 0 < q.length := List.length_pos_iff.2 hq
    rw [sendToApp, List.append_eq_append_iff] at hpq
    obtain ⟨c, hc, -⟩ | ⟨c, hp, hc⟩ := hpq
    · -- the part ends in the digits
      have hnone : findColon 10 p = none := by
        refine (findColon_digits (fun b hb => ?_) ?_ []).2
        · exact digit_of_mem_decimal (hc ▸ List.mem_append_left c hb)
        · have hlen := length_decimal_le hm.2
          rw [hc, List.length_append] at hlen
          omega
      simp only [nsDecode, hnone]
    · cases c with
      | nil =>
        have hnone : findColon 10 p = none := by
          rw [hp, List.append_nil]
          exact (findColon_digits (fun b hb => digit_of_mem_decimal hb)
            (Nat.lt_of_le_of_lt (length_decimal_le hm.2) (by decide)) []).2
        simp only [nsDecode, hnone]
      | cons b c =>
        rw [List.cons_append, List.cons.injEq] at hc
        obtain ⟨rfl, hc⟩ := hc
        have hlen : c.length + q.length = m.length + 1 := by
          rw [← List.length_append, ← hc, List.length_append, List.length_singleton]
        rw [hp, nsDecode_colon hm, if_pos (by omega)]
  ne_nil := fun m _ => by
    rw [sendToApp]
    simp

end Message

/-- Reads of some bytes, no more than there is space for. -/
def ReadsFit : List UInt8 → List (List UInt8) → Prop
  | _, [] => True
  | rbuf, bytes :: reads => bytes ≠ [] ∧ bytes.length ≤ bufSize - rbuf.length ∧
      match appRead rbuf bytes with
      | none => True
      | some r => ReadsFit r.2 reads

theorem appProcess_eq_drain (fuel : Nat) (rbuf : List UInt8) :
    appProcess fuel rbuf = drain (fun buf => nsDecode buf maxMsg) fuel rbuf := by
  induction fuel generalizing rbuf with
  | zero => rfl
  | succ fuel ih =>
    rw [appProcess, drain]
    split
    · rename_i h0
      rw [List.length_eq_zero_iff.1 h0]
      rfl
    · cases nsDecode rbuf maxMsg with
      | none => rfl
      | some r => simp only [ih]

theorem length_lt_of_pending {p : List UInt8} {msgs : List (List UInt8)}
    (hmsgs : ∀ m ∈ msgs, Message m) (hp : Pending sendToApp p msgs) : p.length < bufSize := by
  obtain rfl | ⟨m, q, hm, hpq, -⟩ := hp
  · decide
  · have hlt := length_sendToApp_lt (hmsgs m (List.mem_of_head? hm))
    rw [← hpq, List.length_append] at hlt
    omega

theorem appRun_eq_receive {msgs : List (List UInt8)} (hmsgs : ∀ m ∈ msgs, Message m)
    {reads : List (List UInt8)} {rbuf rest : List UInt8} (hpend : Pending sendToApp rbuf msgs)
    (hsplit : rbuf ++ (reads.flatten ++ rest) = msgs.flatMap sendToApp)
    (hfit : ReadsFit rbuf reads) :
    appRun rbuf reads = some (receive (fun buf => nsDecode buf maxMsg) rbuf reads) := by
  induction reads generalizing rbuf msgs with
  | nil => rfl
  | cons bytes reads ih =>
    obtain ⟨hne, -, hnext⟩ := hfit
    have hspace : bufSize - rbuf.length ≠ 0 := by
      have hlt := length_lt_of_pending hmsgs hpend
      omega
    have hread : appRead rbuf bytes =
        some (drain (fun buf => nsDecode buf maxMsg) (rbuf ++ bytes).length (rbuf ++ bytes)) := by
      rw [appRead, if_neg hspace, if_neg hne, appProcess_eq_drain]
    rw [List.flatten_cons, List.append_assoc, ← List.append_assoc] at hsplit
    obtain ⟨ys, zs, p, rfl, hp, hrest, hpend'⟩ := exists_split sendToApp msgs _ _ hsplit
    have hzs : ∀ m ∈ zs, Message m := fun m hm => hmsgs m (List.mem_append_right _ hm)
    have hdrain : drain (fun buf => nsDecode buf maxMsg) (rbuf ++ bytes).length (rbuf ++ bytes) =
        (ys, p) := by
      have hys : ∀ m ∈ ys, Message m := fun m hm => hmsgs m (List.mem_append_left _ hm)
      have hall := drain_flatMap framed_nsDecode hpend' hys hzs (Nat.le_refl _)
      rwa [← hp, List.map_id] at hall
    rw [hdrain] at hread
    simp only [hread] at hnext
    have htail := ih hzs hpend' hrest hnext
    simp only [appRun, hread, htail, receive, hdrain, Option.map_some]

/-- Messages that are sent one after the other, in any reads that fit: the app is not removed, the
messages that have arrived whole are taken in order, and the buffer holds what else has arrived. -/
theorem appRun_stream (msgs : List (List UInt8)) (hmsgs : ∀ m ∈ msgs, Message m)
    (reads : List (List UInt8)) (rest : List UInt8)
    (hsplit : reads.flatten ++ rest = msgs.flatMap sendToApp) (hfit : ReadsFit [] reads) :
    ∃ taken left rbuf, msgs = taken ++ left ∧ appRun [] reads = some (taken, rbuf) ∧
      reads.flatten = taken.flatMap sendToApp ++ rbuf ∧ Pending sendToApp rbuf left ∧
      rbuf.length < bufSize ∧ (rest = [] → taken = msgs ∧ rbuf = []) := by
  obtain ⟨taken, left, rbuf, hcat, hrec, hbytes, hpend⟩ := receive_split framed_nsDecode hmsgs
    reads [] rest (by simpa using hsplit) (.inl rfl)
  rw [List.map_id] at hrec
  have hrun := appRun_eq_receive hmsgs (.inl rfl) (by simpa using hsplit) hfit
  refine ⟨taken, left, rbuf, hcat, by rw [hrun, hrec], by simpa using hbytes, hpend, ?_, ?_⟩
  · exact length_lt_of_pending (fun m hm => hmsgs m (hcat ▸ List.mem_append_right _ hm)) hpend
  · rintro rfl
    have hall := receive_flatMap framed_nsDecode hmsgs (by simpa using hsplit)
    rw [hrec, List.map_id, Prod.mk.injEq] at hall
    exact hall

/-- Two messages in reads that cut them in a length and before a comma. -/
theorem twoMessages_stream : appRun [] [[50], [58, 97], [98], [44, 49, 58, 99, 44]] =
    some ([[97, 98], [99]], []) := by
  have hfit : ReadsFit [] [[50], [58, 97], [98], [44, 49, 58, 99, 44]] := by
    refine ⟨by decide, by decide, (?_ : ReadsFit [50] [[58, 97], [98], [44, 49, 58, 99, 44]])⟩
    refine ⟨by decide, by decide, (?_ : ReadsFit [50, 58, 97] [[98], [44, 49, 58, 99, 44]])⟩
    refine ⟨by decide, by decide, (?_ : ReadsFit [50, 58, 97, 98] [[44, 49, 58, 99, 44]])⟩
    exact ⟨by decide, by decide, trivial⟩
  obtain ⟨taken, left, rbuf, -, hrun, -, -, -, hall⟩ := appRun_stream [[97, 98], [99]]
    (by decide) [[50], [58, 97], [98], [44, 49, 58, 99, 44]] [] (by decide) hfit
  obtain ⟨rfl, rfl⟩ := hall rfl
  exact hrun

end MechanicalResearcher.Quaoar
