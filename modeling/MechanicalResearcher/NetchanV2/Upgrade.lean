import MechanicalResearcher.Lib.HeaderLines
import MechanicalResearcher.Lib.Sha1

/-!
# The WebSocket handshake

`sha1_*`, `base64`, `accept_key`, `find_header`, `nc_ws_accept`, `nc_ws_client_request` and
`nc_ws_client_verify` of `netchan-v2/demo/nc_ws.c`.  A C string is what stands before the first NUL
of its bytes, and `snprintf` has no result for a text that is longer than an `int` can say.
-/

namespace MechanicalResearcher.NetchanV2

open Lib Lib.BigEndian Lib.HeaderLines Lib.Sha1

variable {p akey s : List UInt8} {lines : List (List UInt8)}

/-! ## SHA-1 -/

/-- `struct sha1`, with the bytes of `buf` that are in use. -/
structure Sha1 where
  h : Chain
  len : UInt64
  buf : List UInt8

def sha1Init : Sha1 := ⟨initial, 0, []⟩

/-- The loop of `sha1_update`; a turn takes a byte at least. -/
def sha1Absorb : Nat → Sha1 → List UInt8 → Sha1
  | 0, s, _ => s
  | fuel + 1, s, data =>
    if data = [] then s
    else
      let take := min (64 - s.buf.length) data.length
      let buf := s.buf ++ data.take take
      sha1Absorb fuel
        (if buf.length = 64 then { s with h := compress s.h (blockWords buf), buf := [] }
          else { s with buf := buf })
        (data.drop take)

def sha1Update (s : Sha1) (data : List UInt8) : Sha1 :=
  sha1Absorb data.length { s with len := s.len + UInt64.ofNat data.length } data

/-- `while (s->n != 56)` -/
def sha1Zeros : Nat → Sha1 → Sha1
  | 0, s => s
  | fuel + 1, s => if s.buf.length = 56 then s else sha1Zeros fuel (sha1Update s [0])

def sha1Final (s : Sha1) : List UInt8 :=
  let bits := s.len * 8
  (sha1Update (sha1Zeros 64 (sha1Update s [0x80])) (wr64 bits)).h.bytes

/-! ## base64 -/

def b64 : List UInt8 := ascii "ABCDEFGHIJKLMNOPQRSTUVWXYZabcdefghijklmnopqrstuvwxyz0123456789+/"

/-- `B64[v & 63]` -/
def b64At (v : UInt32) : UInt8 := b64.getD (v &&& 63).toNat 0

def base64 : List UInt8 → List UInt8
  | a :: b :: c :: rest =>
    let v := a.toUInt32 <<< 16 ||| b.toUInt32 <<< 8 ||| c.toUInt32
    b64At (v >>> 18) :: b64At (v >>> 12) :: b64At (v >>> 6) :: b64At v :: base64 rest
  | [a] =>
    let v := a.toUInt32 <<< 16
    [b64At (v >>> 18), b64At (v >>> 12), 61, 61]
  | [a, b] =>
    let v := a.toUInt32 <<< 16 ||| b.toUInt32 <<< 8
    [b64At (v >>> 18), b64At (v >>> 12), b64At (v >>> 6), 61]
  | [] => []

/-! ## The handshake -/

def wsGuid : List UInt8 := ascii "258EAFA5-E914-47DA-95CA-C5AB0DC85B11"

def acceptKey (clientKey : List UInt8) : List UInt8 :=
  base64 (sha1Final (sha1Update (sha1Update sha1Init clientKey) wsGuid))

def colon : UInt8 := 58

/-- `if (a >= 'A' && a <= 'Z') a += 32` -/
def lower (a : UInt8) : UInt8 := if 65 ≤ a ∧ a ≤ 90 then a + 32 else a

def isBlank (b : UInt8) : Bool := b = 32 ∨ b = 9

/-- The name, in any case, and a colon. -/
def nameAt : List UInt8 → List UInt8 → Bool
  | [], s => s.head? = some colon
  | _ :: _, [] => false
  | b :: name, a :: s => lower a = lower b && nameAt name s

/-- The loop of `find_header` from where it has come; `start` says that a line begins here. -/
def findHeader (name : List UInt8) : Bool → List UInt8 → Option (List UInt8)
  | _, [] => none
  | start, b :: s =>
    if name.length < (b :: s).length then
      if start = true ∧ nameAt name (b :: s) = true then
        some (fieldValue isBlank ((b :: s).drop (name.length + 1)))
      else findHeader name (b = lf) s
    else none

def haveEnd (s : List UInt8) : Bool := (search emptyLine s).isSome

/-- `"websocket"` in the value; the comparison sets bit 5. -/
def isWebsocket (up : List UInt8) : Bool :=
  (search (ascii "websocket") (up.map (· ||| 32))).isSome

def intMax : Nat := 2147483647

/-- What `snprintf` writes before the terminator, and what it returns. -/
def snprintf (cap : Nat) (text : List UInt8) : List UInt8 × Int :=
  (text.take (cap - 1), if text.length ≤ intMax then (text.length : Int) else -1)

def responseText (akey : List UInt8) : List UInt8 :=
  ascii "HTTP/1.1 101 Switching Protocols\r\n" ++ ascii "Upgrade: websocket\r\n" ++
    ascii "Connection: Upgrade\r\n" ++ ascii "Sec-WebSocket-Accept: " ++ akey ++ ascii "\r\n\r\n"

/-- The result, and what `resp` holds. -/
def ncWsAccept (req : List UInt8) (respCap : Nat) : Int × List UInt8 :=
  if haveEnd req = false then (0, [])
  else
    match findHeader (ascii "Upgrade") true req,
        findHeader (ascii "Sec-WebSocket-Key") true req with
    | some up, some key =>
      if key.length = 0 then (-1, [])
      else if isWebsocket up = false then (-1, [])
      else
        let (resp, n) := snprintf respCap (responseText (acceptKey key))
        if n < 0 ∨ (respCap : Int) ≤ n then (-1, resp) else (n, resp)
    | _, _ => (-1, [])

def cString (p : List UInt8) : List UInt8 := p.takeWhile (· ≠ 0)

def requestText (host path key64 : List UInt8) : List UInt8 :=
  ascii "GET " ++ cString path ++ ascii " HTTP/1.1\r\n" ++ ascii "Host: " ++ cString host ++
    ascii "\r\n" ++ ascii "Upgrade: websocket\r\n" ++ ascii "Connection: Upgrade\r\n" ++
    ascii "Sec-WebSocket-Key: " ++ key64 ++ ascii "\r\n" ++
    ascii "Sec-WebSocket-Version: 13\r\n\r\n"

/-- The result, what `buf` holds, and `expect`. -/
def ncWsClientRequest (cap : Nat) (host path key16 : List UInt8) :
    Nat × List UInt8 × List UInt8 :=
  let key64 := base64 key16
  let expect := acceptKey key64
  let (buf, n) := snprintf cap (requestText host path key64)
  if n < 0 ∨ (cap : Int) ≤ n then (0, buf, expect) else (n.toNat, buf, expect)

def ncWsClientVerify (resp expect : List UInt8) : Int :=
  if haveEnd resp = false then 0
  else if resp.length < 12 ∨ resp.take 12 ≠ ascii "HTTP/1.1 101" then -1
  else
    match findHeader (ascii "Sec-WebSocket-Accept") true resp with
    | none => -1
    | some acc =>
      let expect := cString expect
      if acc.length ≠ expect.length ∨ acc ≠ expect.take acc.length then -1 else 1

/-! ## Keys -/

/-- What a key and an accept value are made of. -/
def Plain (b : UInt8) : Prop := b ≠ 0 ∧ b ≠ cr ∧ b ≠ lf ∧ isBlank b = false

theorem plain_b64At (v : UInt32) : Plain (b64At v) := by
  have htable : ∀ i < 64, b64.getD i 0 ≠ 0 ∧ b64.getD i 0 ≠ cr ∧ b64.getD i 0 ≠ lf ∧
      isBlank (b64.getD i 0) = false := by decide +kernel
  refine htable _ (Nat.lt_succ_of_le ?_)
  rw [UInt32.toNat_and]
  exact Nat.and_le_right

theorem plain_base64 : ∀ data, ∀ b ∈ base64 data, Plain b
  | a :: b :: c :: rest => by
    rw [base64]
    simp only [List.forall_mem_cons]
    exact ⟨plain_b64At _, plain_b64At _, plain_b64At _, plain_b64At _, plain_base64 rest⟩
  | [a] => by
    have hequal : Plain 61 := by unfold Plain; decide
    rw [base64]
    simp only [List.forall_mem_cons]
    exact ⟨plain_b64At _, plain_b64At _, hequal, hequal, nofun⟩
  | [a, b] => by
    have hequal : Plain 61 := by unfold Plain; decide
    rw [base64]
    simp only [List.forall_mem_cons]
    exact ⟨plain_b64At _, plain_b64At _, plain_b64At _, hequal, nofun⟩
  | [] => nofun

theorem length_base64 : ∀ data : List UInt8, (base64 data).length = (data.length + 2) / 3 * 4
  | a :: b :: c :: rest => by
    have ih := length_base64 rest
    rw [base64]
    simp only [List.length_cons, ih]
    omega
  | [a] => by rw [base64]; exact (by decide : 4 = (1 + 2) / 3 * 4)
  | [a, b] => by rw [base64]; exact (by decide : 4 = (2 + 2) / 3 * 4)
  | [] => rfl

theorem length_acceptKey (key : List UInt8) : (acceptKey key).length = 28 := by
  rw [acceptKey, length_base64]
  exact (by decide : (20 + 2) / 3 * 4 = 28)

theorem cString_plain (h : ∀ b ∈ p, Plain b) : cString p = p := by
  rw [cString, List.takeWhile_eq_self_iff]
  exact fun b hb => decide_eq_true (h b hb).1

/-! ## Lines -/

theorem Plain.text (h : ∀ b ∈ p, Plain b) : ∀ b ∈ p, b ≠ cr ∧ b ≠ lf :=
  fun b hb => ⟨(h b hb).2.1, (h b hb).2.2.1⟩

theorem cString_text (h : ∀ b ∈ p, b ≠ cr ∧ b ≠ lf) :
    ∀ b ∈ cString p, b ≠ cr ∧ b ≠ lf :=
  fun b hb => h b ((List.takeWhile_sublist _).subset hb)

def requestLines (host path key64 : List UInt8) : List (List UInt8) :=
  [ascii "GET " ++ cString path ++ ascii " HTTP/1.1", ascii "Host: " ++ cString host,
    ascii "Upgrade: websocket", ascii "Connection: Upgrade",
    ascii "Sec-WebSocket-Key: " ++ key64, ascii "Sec-WebSocket-Version: 13"]

def responseLines (akey : List UInt8) : List (List UInt8) :=
  [ascii "HTTP/1.1 101 Switching Protocols", ascii "Upgrade: websocket",
    ascii "Connection: Upgrade", ascii "Sec-WebSocket-Accept: " ++ akey]

theorem requestText_eq (host path key64 : List UInt8) :
    requestText host path key64 = block (requestLines host path key64) := by
  have h1 : ascii " HTTP/1.1\r\n" = ascii " HTTP/1.1" ++ crlf := by decide
  have h2 : ascii "\r\n" = crlf := by decide
  have h3 : ascii "Upgrade: websocket\r\n" = ascii "Upgrade: websocket" ++ crlf := by decide
  have h4 : ascii "Connection: Upgrade\r\n" = ascii "Connection: Upgrade" ++ crlf := by decide
  have h5 : ascii "Sec-WebSocket-Version: 13\r\n\r\n" =
      ascii "Sec-WebSocket-Version: 13" ++ (crlf ++ crlf) := by decide
  rw [requestText, h1, h2, h3, h4, h5, requestLines]
  simp only [block, List.flatMap_cons, List.flatMap_nil, List.append_assoc, List.append_nil]

theorem responseText_eq (akey : List UInt8) :
    responseText akey = block (responseLines akey) := by
  have h1 : ascii "HTTP/1.1 101 Switching Protocols\r\n" =
      ascii "HTTP/1.1 101 Switching Protocols" ++ crlf := by decide
  have h3 : ascii "Upgrade: websocket\r\n" = ascii "Upgrade: websocket" ++ crlf := by decide
  have h4 : ascii "Connection: Upgrade\r\n" = ascii "Connection: Upgrade" ++ crlf := by decide
  have h5 : ascii "\r\n\r\n" = crlf ++ crlf := by decide
  rw [responseText, h1, h3, h4, h5, responseLines]
  simp only [block, List.flatMap_cons, List.flatMap_nil, List.append_assoc, List.append_nil]

theorem text_ascii (h : p.all (fun b => b != cr && b != lf) = true) :
    ∀ b ∈ p, b ≠ cr ∧ b ≠ lf := by
  intro b hb
  have hb := List.all_eq_true.mp h b hb
  rw [Bool.and_eq_true, bne_iff_ne, bne_iff_ne] at hb
  exact hb

theorem isLine_ascii (s : String) (hne : (ascii s).isEmpty = false)
    (h : (ascii s).all (fun b => b != cr && b != lf) = true) : IsLine (ascii s) :=
  ⟨List.isEmpty_eq_false_iff.mp hne, text_ascii h⟩

theorem requestLines_isLine {host path key64 : List UInt8}
    (hhost : ∀ b ∈ host, b ≠ cr ∧ b ≠ lf) (hpath : ∀ b ∈ path, b ≠ cr ∧ b ≠ lf)
    (hkey : ∀ b ∈ key64, Plain b) : ∀ l ∈ requestLines host path key64, IsLine l := by
  simp only [requestLines, List.forall_mem_cons]
  refine ⟨?_, ?_, isLine_ascii _ rfl rfl, isLine_ascii _ rfl rfl, ?_,
    isLine_ascii _ rfl rfl, nofun⟩
  · exact ((isLine_ascii "GET " rfl rfl).append (cString_text hpath)).append (text_ascii rfl)
  · exact (isLine_ascii "Host: " rfl rfl).append (cString_text hhost)
  · exact (isLine_ascii "Sec-WebSocket-Key: " rfl rfl).append (Plain.text hkey)

theorem responseLines_isLine (hkey : ∀ b ∈ akey, Plain b) :
    ∀ l ∈ responseLines akey, IsLine l := by
  simp only [responseLines, List.forall_mem_cons]
  exact ⟨isLine_ascii _ rfl rfl, isLine_ascii _ rfl rfl, isLine_ascii _ rfl rfl,
    (isLine_ascii "Sec-WebSocket-Accept: " rfl rfl).append (Plain.text hkey), nofun⟩

theorem haveEnd_part (h : ∀ l ∈ lines, IsLine l) {q : List UInt8} (hpq : p ++ q = block lines)
    (hq : q ≠ []) : haveEnd p = false := by
  rw [haveEnd, search_part h hpq hq, Option.isSome_none]

theorem haveEnd_block (hne : lines ≠ []) :
    haveEnd (block lines) = true := by
  rw [haveEnd, Option.isSome_iff_ne_none]
  exact search_block hne

/-! ## Finding a header -/

section Find

variable {name l : List UInt8}

theorem findHeader_rest (hl : ∀ b ∈ l, b ≠ lf) (s : List UInt8) :
    findHeader name false (l ++ (crlf ++ s)) = findHeader name true s := by
  have hshort {start : Bool} (hlen : ¬name.length < s.length) : findHeader name start s = none := by
    cases s with
    | nil => rfl
    | cons b s => rw [findHeader, if_neg hlen]
  have hstep {b : UInt8} {start : Bool} {t : List UInt8} (ht : s.length ≤ t.length)
      (hstart : start = false ∨ nameAt name (b :: t) = false)
      (h : findHeader name (b = lf) t = findHeader name true s) :
      findHeader name start (b :: t) = findHeader name true s := by
    rw [findHeader]
    split
    · rw [if_neg, h]
      rintro ⟨rfl, hname⟩
      rcases hstart with hstart | hstart
      · cases hstart
      · exact absurd (hstart.symm.trans hname) Bool.false_ne_true
    · rename_i hlen
      rw [List.length_cons] at hlen
      exact (hshort (by omega)).symm
  induction l with
  | nil =>
    refine hstep (Nat.le_succ _) (.inl rfl) ?_
    exact hstep (Nat.le_refl _) (.inl rfl) rfl
  | cons b l ih =>
    have hb : decide (b = lf) = false := decide_eq_false (hl b List.mem_cons_self)
    refine hstep ?_ (.inl rfl) ?_
    · change s.length ≤ (l ++ (crlf ++ s)).length
      rw [List.length_append, List.length_append]
      omega
    · rw [hb]
      exact ih fun c hc => hl c (List.mem_cons_of_mem b hc)

theorem findHeader_skip (hl : IsLine l) (hname : nameAt name (l ++ (crlf ++ s)) = false) :
    findHeader name true (l ++ (crlf ++ s)) = findHeader name true s := by
  obtain ⟨b, l, rfl⟩ := List.exists_cons_of_ne_nil hl.ne_nil
  have hrest := @findHeader_rest name (b :: l) (fun c hc => (hl.text c hc).2) s
  rw [List.cons_append] at hname hrest ⊢
  rw [← hrest, findHeader, findHeader, hname]
  simp only [Bool.false_eq_true, and_false, if_false]

theorem lt_length_of_nameAt (h : nameAt name s = true) :
    name.length < s.length := by
  induction name generalizing s with
  | nil =>
    cases s with
    | nil => cases h
    | cons b s => exact Nat.zero_lt_succ _
  | cons a name ih =>
    cases s with
    | nil => cases h
    | cons b s =>
      rw [nameAt, Bool.and_eq_true] at h
      exact Nat.succ_lt_succ (ih h.2)

theorem findHeader_here {value : List UInt8} (hname : nameAt name s = true)
    (hvalue : FieldAt isBlank (s.drop (name.length + 1)) value) :
    findHeader name true s = some value := by
  have hlen := lt_length_of_nameAt hname
  cases s with
  | nil => cases hlen
  | cons b s =>
    rw [findHeader, if_pos hlen, if_pos ⟨rfl, hname⟩, hvalue.eq (by decide) (by decide)]

end Find

theorem fieldAt_plain {value rest : List UInt8} (h : ∀ b ∈ value, Plain b) :
    FieldAt isBlank (ascii " " ++ (value ++ (crlf ++ rest))) value where
  split := ⟨ascii " ", crlf ++ rest, rfl, List.all_eq_true.mp rfl,
    fun _ hb => .inl (Option.some.inj hb).symm⟩
  head b hb := (h b (List.mem_of_head? hb)).2.2.2
  text := Plain.text h

theorem findHeader_block_skip {name l : List UInt8} (hl : IsLine l)
    (hname : nameAt name (l ++ (crlf ++ block lines)) = false) :
    findHeader name true (block (l :: lines)) = findHeader name true (block lines) := by
  rw [block_cons]
  exact findHeader_skip hl hname

section Request

variable {host path key64 : List UInt8} (hhost : ∀ b ∈ host, b ≠ cr ∧ b ≠ lf)
  (hpath : ∀ b ∈ path, b ≠ cr ∧ b ≠ lf) (hkey : ∀ b ∈ key64, Plain b)

include hhost hpath hkey

theorem find_upgrade :
    findHeader (ascii "Upgrade") true (block (requestLines host path key64)) =
      some (ascii "websocket") := by
  have hlines := requestLines_isLine hhost hpath hkey
  simp only [requestLines, List.forall_mem_cons] at hlines
  obtain ⟨hget, hhostLine, -⟩ := hlines
  rw [requestLines, findHeader_block_skip hget rfl, findHeader_block_skip hhostLine rfl, block_cons]
  refine findHeader_here rfl ?_
  exact @fieldAt_plain (ascii "websocket") _ (by unfold Plain; decide +kernel)

theorem find_key :
    findHeader (ascii "Sec-WebSocket-Key") true (block (requestLines host path key64)) =
      some key64 := by
  have hlines := requestLines_isLine hhost hpath hkey
  simp only [requestLines, List.forall_mem_cons] at hlines
  obtain ⟨hget, hhostLine, hupgrade, hconnection, -⟩ := hlines
  rw [requestLines, findHeader_block_skip hget rfl, findHeader_block_skip hhostLine rfl,
    findHeader_block_skip hupgrade rfl, findHeader_block_skip hconnection rfl, block_cons]
  refine findHeader_here rfl ?_
  exact fieldAt_plain hkey

end Request

theorem find_accept (hkey : ∀ b ∈ akey, Plain b) :
    findHeader (ascii "Sec-WebSocket-Accept") true (block (responseLines akey)) = some akey := by
  have hlines := responseLines_isLine hkey
  simp only [responseLines, List.forall_mem_cons] at hlines
  obtain ⟨hstatus, hupgrade, hconnection, -⟩ := hlines
  rw [responseLines, findHeader_block_skip hstatus rfl, findHeader_block_skip hupgrade rfl,
    findHeader_block_skip hconnection rfl, block_cons]
  refine findHeader_here rfl ?_
  exact fieldAt_plain hkey

/-! ## The first header with a name -/

/-- Whether a line begins behind `before`, where `start` says it for the head. -/
def lineStart (start : Bool) (before : List UInt8) : Bool :=
  before.getLast?.elim start (· = lf)

/-- The first line with the name, in any case, has the value. -/
structure FirstField (name text value : List UInt8) : Prop where
  line : ∃ before written after, text = before ++ (written ++ colon :: after) ∧
    lineStart true before = true ∧ written.map lower = name.map lower ∧
    FieldAt isBlank after value ∧
    ∀ before' written' after', text = before' ++ (written' ++ colon :: after') →
      lineStart true before' = true → written'.map lower = name.map lower →
      before.length ≤ before'.length

theorem lineStart_cons (start : Bool) (b : UInt8) (before : List UInt8) :
    lineStart start (b :: before) = lineStart (b = lf) before := by
  rw [lineStart, lineStart, List.getLast?_cons]
  cases before.getLast? <;> rfl

theorem nameAt_iff {name : List UInt8} : nameAt name s = true ↔
    ∃ written after, s = written ++ colon :: after ∧ written.map lower = name.map lower := by
  induction name generalizing s with
  | nil =>
    rw [nameAt, decide_eq_true_iff]
    constructor
    · intro h
      obtain ⟨after, rfl⟩ := List.head?_eq_some_iff.mp h
      exact ⟨[], after, rfl, rfl⟩
    · rintro ⟨written, after, rfl, hwritten⟩
      rw [List.map_nil, List.map_eq_nil_iff] at hwritten
      rw [hwritten]
      rfl
  | cons b name ih =>
    cases s with
    | nil =>
      refine iff_of_false Bool.false_ne_true ?_
      rintro ⟨written, after, h, -⟩
      exact List.cons_ne_nil _ _ (List.append_eq_nil_iff.mp h.symm).2
    | cons a s =>
      rw [nameAt, Bool.and_eq_true, decide_eq_true_iff, ih]
      constructor
      · rintro ⟨ha, written, after, rfl, hwritten⟩
        exact ⟨a :: written, after, rfl, by rw [List.map_cons, List.map_cons, ha, hwritten]⟩
      · rintro ⟨written, after, h, hwritten⟩
        cases written with
        | nil => cases hwritten
        | cons c written =>
          obtain ⟨rfl, hs⟩ := List.cons.inj h
          obtain ⟨ha, hrest⟩ := List.cons.inj hwritten
          exact ⟨ha, written, after, hs, hrest⟩

theorem findHeader_eq_some {name : List UInt8} {start : Bool} {value : List UInt8}
    (h : findHeader name start s = some value) :
    ∃ before written after, s = before ++ (written ++ colon :: after) ∧
      lineStart start before = true ∧ written.map lower = name.map lower ∧
      FieldAt isBlank after value ∧
      ∀ before' written' after', s = before' ++ (written' ++ colon :: after') →
        lineStart start before' = true → written'.map lower = name.map lower →
        before.length ≤ before'.length := by
  induction s generalizing start with
  | nil => cases h
  | cons b s ih =>
    rw [findHeader] at h
    split at h
    · split at h
      · rename_i hhere
        obtain ⟨written, after, hs, hwritten⟩ := nameAt_iff.mp hhere.2
        have hlen : name.length + 1 = written.length + 1 := by
          rw [← List.length_map lower, ← hwritten, List.length_map]
        have hdrop : (b :: s).drop (name.length + 1) = after := by
          rw [hs, hlen, ← List.drop_drop, List.drop_left]
          rfl
        rw [hdrop] at h
        refine ⟨[], written, after, hs, hhere.1, hwritten, ?_, fun _ _ _ _ _ _ => Nat.zero_le _⟩
        rw [← Option.some.inj h]
        exact fieldAt_fieldValue isBlank after
      · rename_i hhere
        obtain ⟨before, written, after, rfl, hline, hwritten, hvalue, hfirst⟩ := ih h
        refine ⟨b :: before, written, after, rfl, ?_, hwritten, hvalue, ?_⟩
        · rw [lineStart_cons]
          exact hline
        · intro before' written' after' hs' hline' hwritten'
          cases before' with
          | nil => exact absurd ⟨hline', nameAt_iff.mpr ⟨written', after', hs', hwritten'⟩⟩ hhere
          | cons c before' =>
            obtain ⟨rfl, hrest⟩ := List.cons.inj hs'
            rw [lineStart_cons] at hline'
            exact Nat.succ_le_succ (hfirst before' written' after' hrest hline' hwritten')
    · cases h

theorem firstField_of_verify {resp expect : List UInt8} (h : ncWsClientVerify resp expect = 1) :
    FirstField (ascii "Sec-WebSocket-Accept") resp (cString expect) := by
  rw [ncWsClientVerify] at h
  split at h
  · cases h
  split at h
  · cases h
  split at h
  · cases h
  rename_i acc hfind
  dsimp only at h
  split at h
  · cases h
  rename_i hsame
  have hlen : acc.length = (cString expect).length := by
    by_contra hne
    exact hsame (.inl hne)
  have hacc : acc = cString expect := by
    by_contra hne
    rw [hlen, List.take_length] at hsame
    exact hsame (.inr hne)
  rw [← hacc]
  exact ⟨findHeader_eq_some hfind⟩

/-! ## Both sides -/

theorem length_responseText (akey : List UInt8) :
    (responseText akey).length = 101 + akey.length := by
  have hparts : (ascii "HTTP/1.1 101 Switching Protocols\r\n").length +
      (ascii "Upgrade: websocket\r\n").length + (ascii "Connection: Upgrade\r\n").length +
      (ascii "Sec-WebSocket-Accept: ").length + (ascii "\r\n\r\n").length = 101 := by decide
  rw [responseText]
  simp only [List.length_append]
  omega

theorem snprintf_fits {cap : Nat} {text : List UInt8} (hint : text.length ≤ intMax)
    (hcap : text.length < cap) : snprintf cap text = (text, (text.length : Int)) := by
  rw [snprintf, if_pos hint, List.take_of_length_le (by omega)]

theorem ncWsAccept_request {host path key64 : List UInt8} {respCap : Nat}
    (hhost : ∀ b ∈ host, b ≠ cr ∧ b ≠ lf) (hpath : ∀ b ∈ path, b ≠ cr ∧ b ≠ lf)
    (hkey : ∀ b ∈ key64, Plain b) (hne : 0 < key64.length) (hresp : 129 < respCap) :
    ncWsAccept (block (requestLines host path key64)) respCap =
      (129, block (responseLines (acceptKey key64))) := by
  have hlen : (responseText (acceptKey key64)).length = 129 := by
    rw [length_responseText, length_acceptKey]
  have hprint := @snprintf_fits respCap (responseText (acceptKey key64))
    (by rw [hlen]; decide) (by rw [hlen]; exact hresp)
  have hend : haveEnd (block (requestLines host path key64)) = true :=
    haveEnd_block (List.cons_ne_nil _ _)
  rw [ncWsAccept, hend, if_neg (by decide), find_upgrade hhost hpath hkey,
    find_key hhost hpath hkey]
  dsimp only
  rw [if_neg (by omega), if_neg (by decide), hprint, hlen, responseText_eq]
  dsimp only
  rw [if_neg (by omega)]
  rfl

theorem ncWsClientVerify_response (hkey : ∀ b ∈ akey, Plain b) :
    ncWsClientVerify (block (responseLines akey)) akey = 1 := by
  have hstatus : (block (responseLines akey)).take 12 = ascii "HTTP/1.1 101" := rfl
  have hlong : ¬(block (responseLines akey)).length < 12 := by
    intro hshort
    have hlen := congrArg List.length hstatus
    rw [List.length_take] at hlen
    change _ = 12 at hlen
    omega
  have hend : haveEnd (block (responseLines akey)) = true := haveEnd_block (List.cons_ne_nil _ _)
  rw [ncWsClientVerify, hend, if_neg (by decide),
    if_neg fun h => h.elim hlong fun h => h hstatus, find_accept hkey]
  dsimp only
  rw [cString_plain hkey, List.take_length, if_neg]
  exact fun h => h.elim (fun h => h rfl) fun h => h rfl

/-- A request that is printed for a host and a path of one line each is answered, and the answer
is accepted with what the request expects; of any part of either the reader waits for more. -/
theorem upgrade_agrees {host path key16 : List UInt8}
    (hhost : ∀ b ∈ host, b ≠ cr ∧ b ≠ lf) (hpath : ∀ b ∈ path, b ≠ cr ∧ b ≠ lf)
    (hkey : key16.length = 16) {cap respCap : Nat}
    (hint : (requestText host path (base64 key16)).length ≤ intMax)
    (hcap : (requestText host path (base64 key16)).length < cap) (hresp : 129 < respCap) :
    (∃ req expect resp, ncWsClientRequest cap host path key16 = (req.length, req, expect) ∧
      0 < req.length ∧ ncWsAccept req respCap = ((resp.length : Int), resp) ∧ 0 < resp.length ∧
      ncWsClientVerify resp expect = 1 ∧
      (∀ p q, p ++ q = req → q ≠ [] → ncWsAccept p respCap = (0, [])) ∧
      ∀ p q, p ++ q = resp → q ≠ [] → ncWsClientVerify p expect = 0) ∧
    ∀ resp expect, ncWsClientVerify resp expect = 1 →
      FirstField (ascii "Sec-WebSocket-Accept") resp (cString expect) := by
  refine ⟨?_, fun resp expect => firstField_of_verify⟩
  have hplain := plain_base64 key16
  have hkey64 : 0 < (base64 key16).length := by
    rw [length_base64, hkey]
    decide
  have haccept : ∀ b ∈ acceptKey (base64 key16), Plain b := plain_base64 _
  have hrequest : ncWsClientRequest cap host path key16 =
      ((requestText host path (base64 key16)).length, requestText host path (base64 key16),
        acceptKey (base64 key16)) := by
    rw [ncWsClientRequest]
    dsimp only
    rw [snprintf_fits hint hcap]
    dsimp only
    rw [if_neg (by omega)]
    rfl
  have hresplen : (block (responseLines (acceptKey (base64 key16)))).length = 129 := by
    rw [← responseText_eq, length_responseText, length_acceptKey]
  rw [requestText_eq] at hrequest
  refine ⟨_, _, block (responseLines (acceptKey (base64 key16))), hrequest, ?_, ?_, ?_,
    ncWsClientVerify_response haccept, fun p q hpq hq => ?_, fun p q hpq hq => ?_⟩
  · exact List.length_pos_iff.mpr nofun
  · rw [hresplen]
    exact ncWsAccept_request hhost hpath hplain hkey64 hresp
  · rw [hresplen]
    decide
  · rw [ncWsAccept, haveEnd_part (requestLines_isLine hhost hpath hplain) hpq hq, if_pos rfl]
  · rw [ncWsClientVerify, haveEnd_part (responseLines_isLine haccept) hpq hq, if_pos rfl]

theorem upgrade_agrees_game :
    (∃ req expect resp, ncWsClientRequest 512 (ascii "host:9099") (ascii "/game")
        ((List.range 16).map UInt8.ofNat) = (req.length, req, expect) ∧
      0 < req.length ∧ ncWsAccept req 256 = ((resp.length : Int), resp) ∧ 0 < resp.length ∧
      ncWsClientVerify resp expect = 1 ∧
      (∀ p q, p ++ q = req → q ≠ [] → ncWsAccept p 256 = (0, [])) ∧
      ∀ p q, p ++ q = resp → q ≠ [] → ncWsClientVerify p expect = 0) ∧
    ∀ resp expect, ncWsClientVerify resp expect = 1 →
      FirstField (ascii "Sec-WebSocket-Accept") resp (cString expect) :=
  upgrade_agrees (by decide +kernel) (by decide +kernel) (by decide +kernel) (by decide +kernel)
    (by decide +kernel) (by decide)

end MechanicalResearcher.NetchanV2
