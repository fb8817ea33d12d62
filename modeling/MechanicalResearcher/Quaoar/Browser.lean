import MechanicalResearcher.Lib.Accesses
import MechanicalResearcher.Lib.HeaderLines
import MechanicalResearcher.Quaoar.Sha1
import MechanicalResearcher.Quaoar.WebSocket

/-!
# The bytes of a browser

`ws_handshake`, `forward_to_app`, `send_to_app` and the branch of `main` for the browser in
`programmable-display-protocols/demo/quaoar-server.c`, each beside the list of its accesses: the
indices that it writes in its arrays and the values of its `int` arithmetic.
-/

namespace MechanicalResearcher.Quaoar

open Lib Lib.HeaderLines

/-! ## Accesses -/

inductive Buffer where
  | req | key | combined | accept | resp | hdr | ext (size : Nat) | mask | payload | frame
  deriving DecidableEq

def Buffer.size : Buffer → Nat
  | req => 4096
  | key => 128
  | combined => 128
  | accept => 32
  | resp => 512
  | hdr => 2
  | ext size => size
  | mask => 4
  | payload => maxMsg
  | frame => maxMsg + 16

inductive Access where
  | write (b : Buffer) (i : Nat)
  | int (v : Nat)
  deriving DecidableEq

def intMax : Nat := 2147483647

def Access.InRange : Access → Prop
  | write b i => i < b.size
  | int v => v ≤ intMax

instance : DecidablePred Access.InRange := fun a =>
  match a with
  | .write b i => inferInstanceAs (Decidable (i < b.size))
  | .int v => inferInstanceAs (Decidable (v ≤ intMax))

/-- `n` bytes from `i` on. -/
def writes (b : Buffer) (i n : Nat) : List Access := (List.range' i n).map (.write b)

/-- `snprintf` with `len` bytes of text: what fits, and the terminator. -/
def snprintfWrites (b : Buffer) (size len : Nat) : List Access :=
  writes b 0 (min len (size - 1) + 1)

/-! ## The handshake -/

def space : UInt8 := 32
def minus : UInt8 := 45

def isSpace (b : UInt8) : Bool := b = space

def wsGuid : List UInt8 := ascii "258EAFA5-E914-47DA-95CA-C5AB0DC85B11"

/-- The loop that reads the request: the request and what is left, or none at the end of the
connection. -/
def readRequest : List UInt8 → List UInt8 → List Access × Option (List UInt8 × List UInt8)
  | req, [] => ([], if req.length < 4095 then none else some (req, []))
  | req, b :: stream =>
    if req.length < 4095 then
      let req' := req ++ [b]
      let (accesses, r) :=
        if emptyLine <:+ req' then ([], some (req', stream)) else readRequest req' stream
      (.write .req req.length :: accesses, r)
    else ([], some (req, b :: stream))

/-- The text up to the terminator. -/
def cString (p : List UInt8) : List UInt8 := p.takeWhile (· ≠ 0)

def keyNames : List (List UInt8) := [ascii "Sec-WebSocket-Key:", ascii "sec-websocket-key:"]

/-- The value behind the first name that is found. -/
def keyValue (text : List UInt8) : Option (List UInt8) :=
  (keyNames.findSome? (search · text)).map fun kp => fieldValue isSpace (kp.drop 18)

def b64 : List UInt8 := ascii "ABCDEFGHIJKLMNOPQRSTUVWXYZabcdefghijklmnopqrstuvwxyz0123456789+/"

def b64At (i : UInt8) : UInt8 := b64.getD i.toNat 0

def base64Encode : List UInt8 → List UInt8
  | a :: b :: c :: rest =>
    b64At (a >>> 2) :: b64At ((a &&& 3) <<< 4 ||| b >>> 4) ::
      b64At ((b &&& 0xf) <<< 2 ||| c >>> 6) :: b64At (c &&& 0x3f) :: base64Encode rest
  | [a, b] => [b64At (a >>> 2), b64At ((a &&& 3) <<< 4 ||| b >>> 4), b64At ((b &&& 0xf) <<< 2), 61]
  | [a] => [b64At (a >>> 2), b64At ((a &&& 3) <<< 4), 61, 61]
  | [] => []

/-- The key in its array, the digest and the response; `stack` is what lies behind `combined`, and
`w` what the words of `sha1` start with. -/
def respond (stack : List UInt8) (w : List UInt32) (key : List UInt8) :
    List Access × List UInt8 :=
  let text := key ++ wsGuid
  let combined := text.take 127 ++ 0 :: stack
  let digest := (sha1 (text.length / 64 + 2) w (combined.take text.length)).elim [] Prod.snd
  let accept := base64Encode digest
  let resp := ascii "HTTP/1.1 101 Switching Protocols\r\nUpgrade: websocket\r\n" ++
    ascii "Connection: Upgrade\r\nSec-WebSocket-Accept: " ++ accept ++ emptyLine
  (writes .key 0 (key.length + 1) ++ snprintfWrites .combined 128 text.length ++
    writes .accept 0 (accept.length + 1) ++ snprintfWrites .resp 512 resp.length, resp)

/-- The accesses, and the response with what is left of the stream, or none for -1. -/
def wsHandshake (stack : List UInt8) (w : List UInt32) (stream : List UInt8) :
    List Access × Option (List UInt8 × List UInt8) :=
  let (reads, r) := readRequest [] stream
  match r with
  | none => (reads, none)
  | some (req, rest) =>
    let reads := reads ++ [.write .req req.length]
    match keyValue (cString req) with
    | none => (reads, none)
    | some key =>
      let (accesses, resp) := respond stack w key
      (reads ++ accesses, some (resp, rest))

/-! ## Messages -/

/-- What `read_all` writes of the `n` bytes that it wants. -/
def readAllWrites (b : Buffer) (n : Nat) (stream : List UInt8) : List Access :=
  writes b 0 (min n stream.length)

def readLengthWrites (short : UInt8) (stream : List UInt8) : List Access :=
  if short = 126 then readAllWrites (.ext 2) 2 stream
  else if short = 127 then readAllWrites (.ext 8) 8 stream
  else []

/-- What `ws_read` writes, as far as it comes. -/
def wsReadWrites (max : Nat) (stream : List UInt8) : List Access :=
  readAllWrites .hdr 2 stream ++ (readAll 2 stream).elim [] fun hdr =>
    let second := hdr.1.getD 1 0
    readLengthWrites (second &&& 0x7f) hdr.2 ++
      (readLength (second &&& 0x7f) hdr.2).elim [] fun len =>
        if UInt64.ofNat max < len.1 then []
        else
          (if second &&& 0x80 ≠ 0 then readAllWrites .mask 4 len.2 else []) ++
            (readMask (second &&& 0x80 ≠ 0) len.2).elim [] fun mask =>
              readAllWrites .payload len.1.toNat mask.2 ++
                (readAll len.1.toNat mask.2).elim [] fun _ =>
                  if second &&& 0x80 ≠ 0 then writes .payload 0 len.1.toNat else []

structure App where
  fd : Int
  id : Int

/-- What `send_to_app` writes into its frame. -/
def sendToAppWrites (data : List UInt8) : List Access :=
  let hlen := (decimal data.length).length + 1
  snprintfWrites .frame 16 hlen ++ writes .frame hlen data.length ++
    [.write .frame (hlen + data.length)]

/-- `app_id = app_id * 10 + (msg[pos++] - '0')`, and the bytes behind the digits. -/
def parseId : Nat → List UInt8 → List Access × Nat × List UInt8
  | id, [] => ([], id, [])
  | id, b :: msg =>
    if zeroByte ≤ b ∧ b ≤ nineByte then
      let id' := id * 10 + (b.toNat - zeroByte.toNat)
      let (accesses, r) := parseId id' msg
      (.int (id * 10) :: .int id' :: accesses, r)
    else ([], id, b :: msg)

/-- The accesses, and what is sent to which socket. -/
def forwardToApp (apps : List App) (msg : List UInt8) :
    List Access × List (Int × List UInt8) :=
  let neg := msg.head? = some minus
  let (accesses, value, rest) := parseId 0 (if neg then msg.tail else msg)
  let appId : Int := if neg then -value else value
  match rest with
  | [] => (accesses, [])
  | b :: data =>
    if b ≠ space then (accesses, [])
    else
      let connected := apps.filter fun app => 0 < app.fd
      let targets :=
        if appId < 0 then connected else (connected.find? fun app => app.id = appId).toList
      (accesses ++ targets.flatMap fun _ => sendToAppWrites data,
        targets.map fun app => (app.fd, sendToApp data))

inductive Reply where
  | close
  | pong (out : List UInt8)
  | forward (sent : List (Int × List UInt8))
  | ignore

/-- The branch of `main` for a frame that was read. -/
def browser (apps : List App) (opcode : UInt8) (payload : List UInt8) : List Access × Reply :=
  if opcode = 0x8 then ([], .close)
  else if opcode = 0x9 then ([], .pong (wsPong payload))
  else if opcode = 0x1 ∧ 0 < payload.length then
    let (accesses, sent) := forwardToApp apps payload
    (.write .payload payload.length :: accesses, .forward sent)
  else ([], .ignore)

/-- Frames one after the other, with the apps that are there at each. -/
def browserRun : List (List App) → List UInt8 → List Access
  | [], _ => []
  | apps :: turns, stream =>
    wsReadWrites maxMsg stream ++ (wsRead maxMsg stream).elim [] fun r =>
      let b := browser apps r.1 r.2.1
      b.1 ++ match b.2 with
        | .close => []
        | _ => browserRun turns r.2.2

/-- A connection; `written` says whether the response could be written. -/
def connection (stack : List UInt8) (w : List UInt32) (written : Bool) (turns : List (List App))
    (stream : List UInt8) : List Access :=
  let (accesses, r) := wsHandshake stack w stream
  accesses ++ r.elim [] fun r => if written then browserRun turns r.2 else []

/-! ## The request -/

/-- The request is `req`: it ends with the first empty line, or where the array is full. -/
structure Request (stream req rest : List UInt8) : Prop where
  split : stream = req ++ rest
  length : req.length ≤ 4095
  ends : emptyLine <:+ req ∨ req.length = 4095
  first : ∀ u v, req = u ++ v → v ≠ [] → ¬emptyLine <:+ u

theorem readRequest_complete {r rest : List UInt8} (t : List UInt8) (hr : ¬emptyLine <:+ r)
    (h : Request (r ++ t ++ rest) (r ++ t) rest) :
    (readRequest r (t ++ rest)).2 = some (r ++ t, rest) := by
  induction t generalizing r with
  | nil =>
    have hfull : r.length = 4095 := by
      have hends := h.ends
      rw [List.append_nil] at hends
      exact hends.resolve_left hr
    rw [List.append_nil, List.nil_append]
    cases rest with
    | nil => rw [readRequest, if_neg (by omega)]
    | cons b rest => rw [readRequest, if_neg (by omega)]
  | cons b t ih =>
    have hlength := h.length
    rw [List.length_append, List.length_cons] at hlength
    have happend : r ++ b :: t = r ++ [b] ++ t := by rw [List.append_assoc]; rfl
    rw [List.cons_append, readRequest, if_pos (by omega)]
    dsimp only
    split
    · rename_i hends
      cases t with
      | nil => rfl
      | cons c t => exact absurd hends (h.first (r ++ [b]) (c :: t) happend nofun)
    · rename_i hends
      rw [happend] at h ⊢
      exact ih hends h

theorem readRequest_sound {r stream req rest : List UInt8}
    (hr : ∀ u v, r = u ++ v → ¬emptyLine <:+ u) (hlen : r.length ≤ 4095)
    (h : (readRequest r stream).2 = some (req, rest)) : Request (r ++ stream) req rest := by
  induction stream generalizing r with
  | nil =>
    rw [readRequest] at h
    dsimp only at h
    split at h
    · cases h
    · obtain ⟨rfl, rfl⟩ := Prod.mk.inj (Option.some.inj h)
      exact ⟨rfl, hlen, .inr (by omega), fun u v huv _ => hr u v huv⟩
  | cons b stream ih =>
    rw [readRequest] at h
    split at h
    · rename_i hroom
      have hlen' : (r ++ [b]).length ≤ 4095 := by
        rw [List.length_append]
        exact hroom
      have hprefix : ∀ u v, r ++ [b] = u ++ v → v ≠ [] → ¬emptyLine <:+ u := by
        intro u v huv hv
        obtain ⟨v', c, rfl⟩ := (List.eq_nil_or_concat' v).resolve_left hv
        rw [← List.append_assoc] at huv
        exact hr u v' (List.append_inj_left' huv rfl)
      dsimp only at h
      split at h
      · rename_i hends
        obtain ⟨rfl, rfl⟩ := Prod.mk.inj (Option.some.inj h)
        exact ⟨by rw [List.append_assoc]; rfl, hlen', .inl hends, hprefix⟩
      · rename_i hends
        have happend : r ++ b :: stream = r ++ [b] ++ stream := by rw [List.append_assoc]; rfl
        rw [happend]
        refine ih (fun u v huv => ?_) hlen' h
        by_cases hv : v = []
        · rw [hv, List.append_nil] at huv
          rw [← huv]
          exact hends
        · exact hprefix u v huv hv
    · obtain ⟨rfl, rfl⟩ := Prod.mk.inj (Option.some.inj h)
      exact ⟨rfl, hlen, .inr (by omega), fun u v huv _ => hr u v huv⟩

theorem readRequest_eq_some_iff {stream req rest : List UInt8} :
    (readRequest [] stream).2 = some (req, rest) ↔ Request stream req rest := by
  constructor
  · intro h
    refine readRequest_sound (fun u v huv hends => ?_) (Nat.zero_le _) h
    have hlen := hends.length_le
    rw [(List.append_eq_nil_iff.mp huv.symm).1] at hlen
    exact absurd hlen (by decide)
  · intro h
    have hstream := h.split
    subst hstream
    exact readRequest_complete req (by decide) h

theorem readRequest_safe {r stream : List UInt8} (hlen : r.length ≤ 4095) :
    Safe Access.InRange (readRequest r stream).1 := by
  induction stream generalizing r with
  | nil => exact .nil
  | cons b stream ih =>
    rw [readRequest]
    split
    · rename_i hroom
      refine Safe.cons (show r.length < 4096 by omega) ?_
      split
      · exact .nil
      · refine ih ?_
        rw [List.length_append]
        exact hroom
    · exact .nil

/-! ## The key -/

/-- The value of a header: behind the first place of its name and spaces, to the end of the
line. -/
structure HeaderValue (name text value : List UInt8) : Prop where
  line : ∃ before after, FirstAt name text before after ∧ FieldAt isSpace after value

/-- The value of the key, under its usual name or else in lower case. -/
def KeyValue (text value : List UInt8) : Prop :=
  HeaderValue (ascii "Sec-WebSocket-Key:") text value ∨
    (∀ u v, text ≠ u ++ (ascii "Sec-WebSocket-Key:" ++ v)) ∧
      HeaderValue (ascii "sec-websocket-key:") text value

theorem headerValue_fieldValue {name text before after : List UInt8}
    (h : FirstAt name text before after) : HeaderValue name text (fieldValue isSpace after) :=
  ⟨before, after, h, fieldAt_fieldValue isSpace after⟩

theorem HeaderValue.search_eq {name text value : List UInt8} (h : HeaderValue name text value) :
    ∃ after, search name text = some (name ++ after) ∧ fieldValue isSpace after = value := by
  obtain ⟨before, after, hfirst, hvalue⟩ := h.line
  exact ⟨after, search_firstAt hfirst, hvalue.eq (by decide) (by decide)⟩

theorem keyValue_eq_some_iff {text value : List UInt8} :
    keyValue text = some value ↔ KeyValue text value := by
  have hdrop (name after : List UInt8) (hname : name.length = 18) :
      fieldValue isSpace ((name ++ after).drop 18) = fieldValue isSpace after :=
    congrArg (fieldValue isSpace) (List.drop_left' hname)
  rw [keyValue, keyNames, List.findSome?_cons, List.findSome?_cons, List.findSome?_nil]
  constructor
  · intro h
    cases hupper : search (ascii "Sec-WebSocket-Key:") text with
    | some t =>
      obtain ⟨before, after, rfl, hfirst⟩ := search_eq_some hupper
      rw [hupper] at h
      obtain rfl := Option.some.inj h
      dsimp only
      rw [hdrop _ _ (by decide)]
      exact .inl (headerValue_fieldValue hfirst)
    | none =>
      rw [hupper] at h
      cases hlower : search (ascii "sec-websocket-key:") text with
      | some t =>
        obtain ⟨before, after, rfl, hfirst⟩ := search_eq_some hlower
        rw [hlower] at h
        obtain rfl := Option.some.inj h
        dsimp only
        rw [hdrop _ _ (by decide)]
        exact .inr ⟨search_eq_none hupper, headerValue_fieldValue hfirst⟩
      | none =>
        rw [hlower] at h
        cases h
  · rintro (h | ⟨hnone, h⟩)
    · obtain ⟨after, hsearch, hvalue⟩ := h.search_eq
      rw [hsearch, Option.map_some, hdrop _ _ (by decide), hvalue]
    · obtain ⟨after, hsearch, hvalue⟩ := h.search_eq
      cases hupper : search (ascii "Sec-WebSocket-Key:") text with
      | some t =>
        obtain ⟨before, rest, -, hfirst⟩ := search_eq_some hupper
        exact absurd hfirst.split (hnone before rest)
      | none =>
        rw [hsearch, Option.map_some, hdrop _ _ (by decide), hvalue]

/-! ## The arrays -/

theorem writes_safe_iff {b : Buffer} {i n : Nat} :
    Safe Access.InRange (writes b i n) ↔ n = 0 ∨ i + n ≤ b.size := by
  constructor
  · intro h
    cases n with
    | zero => exact .inl rfl
    | succ n =>
      have hlast : i + n < b.size := h (.write b (i + n)) (List.mem_map_of_mem
        (List.mem_range'_1.mpr ⟨by omega, by omega⟩))
      exact .inr hlast
  · intro h a ha
    obtain ⟨k, hk, rfl⟩ := List.mem_map.mp ha
    have hk := List.mem_range'_1.mp hk
    change k < b.size
    omega

theorem writes_safe {b : Buffer} {i n : Nat} (h : i + n ≤ b.size) :
    Safe Access.InRange (writes b i n) := writes_safe_iff.mpr (.inr h)

theorem snprintfWrites_safe {b : Buffer} {size : Nat} (hpos : 0 < size) (h : size ≤ b.size)
    (len : Nat) : Safe Access.InRange (snprintfWrites b size len) := by
  have hmin := Nat.min_le_right len (size - 1)
  exact writes_safe (by omega)

theorem length_base64Encode : ∀ data : List UInt8,
    (base64Encode data).length = (data.length + 2) / 3 * 4
  | [] => rfl
  | [a] => by rw [base64Encode]; exact (by decide : 4 = (1 + 2) / 3 * 4)
  | [a, b] => by rw [base64Encode]; exact (by decide : 4 = (2 + 2) / 3 * 4)
  | a :: b :: c :: rest => by
    have ih := length_base64Encode rest
    rw [base64Encode]
    simp only [List.length_cons, ih]
    omega

theorem length_digest (fuel : Nat) (w : List UInt32) (data : List UInt8) :
    ((sha1 fuel w data).elim [] Prod.snd).length ≤ 20 := by
  rw [sha1]
  cases sha1Loop fuel data.length ({ data := data }, w) Lib.Sha1.initial with
  | none => exact Nat.zero_le 20
  | some r => exact Nat.le_refl 20

theorem respond_safe_iff (stack : List UInt8) (w : List UInt32) (key : List UInt8) :
    Safe Access.InRange (respond stack w key).1 ↔ key.length < 128 := by
  have haccept (digest : List UInt8) (h : digest.length ≤ 20) :
      Safe Access.InRange (writes .accept 0 ((base64Encode digest).length + 1)) := by
    refine writes_safe ?_
    rw [length_base64Encode]
    change _ ≤ 32
    omega
  rw [respond]
  dsimp only
  rw [Safe.append_iff, Safe.append_iff, Safe.append_iff, writes_safe_iff]
  constructor
  · rintro ⟨⟨⟨hkey, -⟩, -⟩, -⟩
    change _ ∨ _ ≤ 128 at hkey
    omega
  · intro h
    have hkey : 0 + (key.length + 1) ≤ Buffer.key.size := by
      change _ ≤ 128
      omega
    exact ⟨⟨⟨.inr hkey, snprintfWrites_safe (by decide) (by decide) _⟩,
      haccept _ (length_digest _ w _)⟩, snprintfWrites_safe (by decide) (by decide) _⟩

theorem wsHandshake_safe_iff (stack : List UInt8) (w : List UInt32) (stream : List UInt8) :
    Safe Access.InRange (wsHandshake stack w stream).1 ↔
      ∀ req rest value, Request stream req rest → KeyValue (cString req) value →
        value.length < 128 := by
  have hreads : Safe Access.InRange (readRequest [] stream).1 := readRequest_safe (Nat.zero_le _)
  rw [wsHandshake]
  dsimp only
  cases hread : (readRequest [] stream).2 with
  | none =>
    exact iff_of_true hreads fun req rest value hreq _ => by
      rw [readRequest_eq_some_iff.mpr hreq] at hread
      cases hread
  | some r =>
    obtain ⟨req, rest⟩ := r
    have hreq := readRequest_eq_some_iff.mp hread
    have hterm : Safe Access.InRange ((readRequest [] stream).1 ++ [.write .req req.length]) :=
      hreads.append (.cons (Nat.lt_succ_of_le hreq.length) .nil)
    have hunique {req' rest' : List UInt8} (h : Request stream req' rest') : req' = req := by
      have heq := hread.symm.trans (readRequest_eq_some_iff.mpr h)
      exact (Prod.mk.inj (Option.some.inj heq)).1.symm
    dsimp only
    cases hkey : keyValue (cString req) with
    | none =>
      dsimp only
      exact iff_of_true hterm fun req' rest' value hreq' hvalue => by
        rw [hunique hreq', ← keyValue_eq_some_iff, hkey] at hvalue
        cases hvalue
    | some key =>
      dsimp only
      rw [Safe.append_iff, respond_safe_iff]
      constructor
      · rintro ⟨-, hlen⟩ req' rest' value hreq' hvalue
        rw [hunique hreq', ← keyValue_eq_some_iff, hkey] at hvalue
        rw [← Option.some.inj hvalue]
        exact hlen
      · intro h
        exact ⟨hterm, h req rest key hreq (keyValue_eq_some_iff.mp hkey)⟩

theorem readAllWrites_safe {b : Buffer} {n : Nat} (h : n ≤ b.size) (stream : List UInt8) :
    Safe Access.InRange (readAllWrites b n stream) := by
  have hmin := Nat.min_le_left n stream.length
  exact writes_safe (by omega)

theorem wsReadWrites_safe (stream : List UInt8) :
    Safe Access.InRange (wsReadWrites maxMsg stream) := by
  refine .append (readAllWrites_safe (Nat.le_refl 2) stream) (.elim fun hdr _ => ?_)
  refine .append ?_ (.elim fun len _ => .ite (fun _ => .nil) fun hroom => ?_)
  · exact .ite (fun _ => readAllWrites_safe (Nat.le_refl 2) _) fun _ =>
      .ite (fun _ => readAllWrites_safe (Nat.le_refl 8) _) fun _ => .nil
  · have hlen : len.1.toNat ≤ maxMsg := by
      rw [UInt64.lt_iff_toNat_lt] at hroom
      exact Nat.le_of_not_lt hroom
    have hsize : 0 + len.1.toNat ≤ Buffer.payload.size := by
      rw [Nat.zero_add]
      exact hlen
    refine .append (.ite (fun _ => readAllWrites_safe (Nat.le_refl 4) _) fun _ => .nil)
      (.elim fun mask _ => .append (readAllWrites_safe hlen _) (.elim fun _ _ => ?_))
    exact .ite (fun _ => writes_safe hsize) fun _ => .nil

theorem sendToAppWrites_safe {data : List UInt8} (h : data.length ≤ maxMsg) :
    Safe Access.InRange (sendToAppWrites data) := by
  have hdecimal := length_decimal_le h
  have hsize : Buffer.frame.size = maxMsg + 16 := rfl
  refine .append (.append (snprintfWrites_safe (by decide) (by decide) _) (writes_safe (by omega)))
    (.cons ?_ .nil)
  change _ < maxMsg + 16
  omega

/-- The number that the digits at the head of a text stand for. -/
def headNumber (msg : List UInt8) : Nat :=
  digitsValue (msg.takeWhile fun b => zeroByte ≤ b ∧ b ≤ nineByte)

theorem le_foldl_digits (digits : List UInt8) (n : Nat) :
    n ≤ digits.foldl (fun len b => len * 10 + (b.toNat - zeroByte.toNat)) n := by
  induction digits generalizing n with
  | nil => exact Nat.le_refl n
  | cons b digits ih =>
    have hstep : n ≤ n * 10 + (b.toNat - zeroByte.toNat) := by omega
    exact Nat.le_trans hstep (ih _)

theorem parseId_safe_iff (id : Nat) (msg : List UInt8) (hid : id ≤ intMax) :
    Safe Access.InRange (parseId id msg).1 ↔
      (msg.takeWhile fun b => zeroByte ≤ b ∧ b ≤ nineByte).foldl
        (fun len b => len * 10 + (b.toNat - zeroByte.toNat)) id ≤ intMax := by
  induction msg generalizing id with
  | nil => exact iff_of_true .nil hid
  | cons b msg ih =>
    rw [parseId, List.takeWhile_cons]
    by_cases hb : zeroByte ≤ b ∧ b ≤ nineByte
    · rw [if_pos hb, if_pos (decide_eq_true hb), List.foldl_cons]
      dsimp only
      constructor
      · intro h
        have hnext : id * 10 + (b.toNat - zeroByte.toNat) ≤ intMax := h _ (.tail _ (.head _))
        exact (ih _ hnext).mp fun a ha => h a (.tail _ (.tail _ ha))
      · intro h
        have hnext := Nat.le_trans (le_foldl_digits _ _) h
        have hten : id * 10 ≤ intMax := by omega
        exact .cons hten (.cons hnext ((ih _ hnext).mpr h))
    · rw [if_neg hb, if_neg fun h => hb (of_decide_eq_true h)]
      exact iff_of_true .nil hid

/-- The number of an app at the head of a text, without its sign. -/
def idNumber (msg : List UInt8) : Nat :=
  headNumber (if msg.head? = some minus then msg.tail else msg)

theorem length_parseId (id : Nat) (msg : List UInt8) :
    (parseId id msg).2.2.length ≤ msg.length := by
  induction msg generalizing id with
  | nil => exact Nat.le_refl _
  | cons b msg ih =>
    rw [parseId]
    split
    · exact Nat.le_succ_of_le (ih _)
    · exact Nat.le_refl _

theorem forwardToApp_safe_iff (apps : List App) {msg : List UInt8} (hmsg : msg.length ≤ maxMsg) :
    Safe Access.InRange (forwardToApp apps msg).1 ↔ idNumber msg ≤ intMax := by
  have hparse := parseId_safe_iff 0 (if msg.head? = some minus then msg.tail else msg)
    (Nat.zero_le _)
  have hrest := length_parseId 0 (if msg.head? = some minus then msg.tail else msg)
  have htail : (if msg.head? = some minus then msg.tail else msg).length ≤ msg.length := by
    split
    · rw [List.length_tail]
      exact Nat.sub_le ..
    · exact Nat.le_refl _
  rw [forwardToApp]
  dsimp only
  split
  · exact hparse
  · rename_i b data heq
    rw [heq, List.length_cons] at hrest
    split
    · exact hparse
    · rw [Safe.append_iff]
      refine Iff.trans ⟨And.left, fun h => ⟨h, ?_⟩⟩ hparse
      intro a ha
      obtain ⟨_, _, ha⟩ := List.mem_flatMap.mp ha
      exact sendToAppWrites_safe (by omega) a ha

/-- What the server needs of a message. -/
def Fits (opcode : UInt8) (payload : List UInt8) : Prop :=
  opcode = 0x1 → payload.length ≠ maxMsg ∧ idNumber payload ≤ intMax

theorem browser_safe_iff (apps : List App) (opcode : UInt8) {payload : List UInt8}
    (hlen : payload.length ≤ maxMsg) :
    Safe Access.InRange (browser apps opcode payload).1 ↔ Fits opcode payload := by
  have hother (h : opcode ≠ 0x1) : Fits opcode payload := fun h' => absurd h' h
  rw [browser]
  split
  · rename_i h
    exact iff_of_true .nil (hother (by rw [h]; decide))
  split
  · rename_i h
    exact iff_of_true .nil (hother (by rw [h]; decide))
  split
  · rename_i h
    dsimp only
    rw [Safe, List.forall_mem_cons]
    have hend : Access.InRange (.write .payload payload.length) ↔ payload.length ≠ maxMsg :=
      ⟨Nat.ne_of_lt, Nat.lt_of_le_of_ne hlen⟩
    rw [hend]
    exact (and_congr_right fun _ => forwardToApp_safe_iff apps hlen).trans
      ⟨fun hfits _ => hfits, fun hfits => hfits h.1⟩
  · rename_i h
    refine iff_of_true .nil fun hop => ?_
    have hempty : payload = [] := by
      by_contra hne
      exact h ⟨hop, List.length_pos_iff.mpr hne⟩
    rw [hempty]
    decide

/-! ## A connection -/

/-- The frames that the server comes to read off a stream: none of them is too long, and the
connection is closed behind the first one that says so. -/
structure Reads (fs : List WsFrame) (f : WsFrame) (stream : List UInt8) : Prop where
  split : ∃ rest, stream = fs.flatMap WsFrame.bytes ++ (f.bytes ++ rest)
  open' : ∀ g ∈ fs, g.payload.length ≤ maxMsg ∧ g.opcode ≠ 0x8
  length : f.payload.length ≤ maxMsg

/-- Each frame that is read fits. -/
def FramesFit (stream : List UInt8) : Prop :=
  ∀ fs f, Reads fs f stream → Fits f.opcode f.payload

theorem Reads.cons {fs : List WsFrame} {f g : WsFrame} {stream : List UInt8}
    (h : Reads fs f stream) (hlen : g.payload.length ≤ maxMsg) (hopen : g.opcode ≠ 0x8) :
    Reads (g :: fs) f (g.bytes ++ stream) := by
  obtain ⟨rest, hrest⟩ := h.split
  refine ⟨⟨rest, by rw [hrest, List.flatMap_cons, List.append_assoc]⟩, ?_, h.length⟩
  intro g' hg'
  rcases List.mem_cons.mp hg' with rfl | hg'
  · exact ⟨hlen, hopen⟩
  · exact h.open' g' hg'

theorem browserRun_bytes (apps : List App) (turns : List (List App)) (f : WsFrame)
    (hlen : f.payload.length ≤ maxMsg) (rest : List UInt8) :
    Safe Access.InRange (browserRun (apps :: turns) (f.bytes ++ rest)) ↔
      Fits f.opcode f.payload ∧
        (f.opcode ≠ 0x8 → Safe Access.InRange (browserRun turns rest)) := by
  rw [browserRun, wsRead_bytes f (by decide) hlen, Safe.append_iff]
  refine (and_iff_right (wsReadWrites_safe _)).trans ?_
  change Safe Access.InRange ((browser apps f.opcode f.payload).1 ++ _) ↔ _
  rw [Safe.append_iff, browser_safe_iff apps f.opcode hlen]
  refine and_congr_right fun _ => ?_
  dsimp only
  by_cases hclose : f.opcode = 0x8
  · have hreply : (browser apps f.opcode f.payload).2 = .close := by rw [browser, if_pos hclose]
    rw [hreply]
    exact iff_of_true .nil fun h => absurd hclose h
  · have hreply : (browser apps f.opcode f.payload).2 ≠ .close := by
      rw [browser, if_neg hclose]
      split
      · nofun
      · split <;> nofun
    split
    · rename_i h
      exact absurd h hreply
    · exact ⟨fun h _ => h, fun h => h hclose⟩

theorem browserRun_safe_iff (stream : List UInt8) :
    (∀ turns, Safe Access.InRange (browserRun turns stream)) ↔ FramesFit stream := by
  constructor
  · intro h fs f hreads
    induction fs generalizing stream with
    | nil =>
      obtain ⟨rest, rfl⟩ := hreads.split
      exact ((browserRun_bytes [] [] f hreads.length rest).mp (h [[]])).1
    | cons g fs ih =>
      obtain ⟨rest, hrest⟩ := hreads.split
      obtain ⟨hlen, hopen⟩ := hreads.open' g List.mem_cons_self
      rw [List.flatMap_cons, List.append_assoc] at hrest
      subst hrest
      refine ih _ (fun turns => ?_) ⟨⟨rest, rfl⟩, fun g' hg' =>
        hreads.open' g' (List.mem_cons_of_mem g hg'), hreads.length⟩
      exact ((browserRun_bytes [] turns g hlen _).mp (h ([] :: turns))).2 hopen
  · intro h turns
    induction turns generalizing stream with
    | nil => exact .nil
    | cons apps turns ih =>
      cases hread : wsRead maxMsg stream with
      | none =>
        rw [browserRun, hread]
        exact (wsReadWrites_safe stream).append .nil
      | some r =>
        obtain ⟨f, hstream, -, hpayload, hlen⟩ := wsRead_eq_some (by decide) hread
        rw [← hpayload] at hlen
        rw [hstream] at h ⊢
        refine (browserRun_bytes apps turns f hlen r.2.2).mpr
          ⟨h [] f ⟨⟨r.2.2, rfl⟩, nofun, hlen⟩, fun hopen => ih _ fun fs f' hreads => ?_⟩
        exact h (f :: fs) f' (hreads.cons hlen hopen)

theorem wsHandshake_rest_iff (stack : List UInt8) (w : List UInt32) {stream rest : List UInt8} :
    (∃ resp, (wsHandshake stack w stream).2 = some (resp, rest)) ↔
      ∃ req value, Request stream req rest ∧ KeyValue (cString req) value := by
  rw [wsHandshake]
  dsimp only
  constructor
  · rintro ⟨resp, h⟩
    split at h
    · cases h
    · rename_i req rest' hread
      split at h
      · cases h
      · rename_i key hkey
        obtain ⟨-, rfl⟩ := Prod.mk.inj (Option.some.inj h)
        exact ⟨req, key, readRequest_eq_some_iff.mp hread, keyValue_eq_some_iff.mp hkey⟩
  · rintro ⟨req, value, hreq, hvalue⟩
    rw [readRequest_eq_some_iff.mpr hreq]
    dsimp only
    rw [keyValue_eq_some_iff.mpr hvalue]
    exact ⟨_, rfl⟩

theorem connection_safe_turns_iff (stack : List UInt8) (w : List UInt32) (written : Bool)
    (turns : List (List App)) (stream : List UInt8) :
    Safe Access.InRange (connection stack w written turns stream) ↔
      Safe Access.InRange (wsHandshake stack w stream).1 ∧
        ∀ resp rest, (wsHandshake stack w stream).2 = some (resp, rest) → written = true →
          Safe Access.InRange (browserRun turns rest) := by
  rw [connection, Safe.append_iff]
  refine and_congr_right fun _ => ?_
  cases (wsHandshake stack w stream).2 with
  | none => exact iff_of_true .nil nofun
  | some r =>
    change Safe Access.InRange (if written then browserRun turns r.2 else []) ↔ _
    constructor
    · intro h resp rest hr hwritten
      rw [if_pos hwritten, Option.some.inj hr] at h
      exact h
    · exact fun h => .ite (h r.1 r.2 rfl) fun _ => .nil

/-- A connection stays in its arrays and in `int`, whatever apps are there and however long it
lasts, when the value of the key has fewer than 128 bytes, no text fills the payload, and no text
begins with a number that is too large, and only then. -/
theorem connection_safe_iff (stack : List UInt8) (w : List UInt32) (written : Bool)
    (stream : List UInt8) :
    (∀ turns, Safe Access.InRange (connection stack w written turns stream)) ↔
      ∀ req rest value, Request stream req rest → KeyValue (cString req) value →
        value.length < 128 ∧ (written = true → FramesFit rest) := by
  constructor
  · intro h req rest value hreq hvalue
    have hkey := (wsHandshake_safe_iff stack w stream).mp ((connection_safe_turns_iff ..).mp (h
      [])).1
    refine ⟨hkey req rest value hreq hvalue, fun hwritten => ?_⟩
    obtain ⟨resp, hresp⟩ := (wsHandshake_rest_iff stack w).mpr ⟨req, value, hreq, hvalue⟩
    exact (browserRun_safe_iff rest).mp fun turns =>
      ((connection_safe_turns_iff ..).mp (h turns)).2 resp rest hresp hwritten
  · intro h turns
    rw [connection_safe_turns_iff, wsHandshake_safe_iff]
    refine ⟨fun req rest value hreq hvalue => (h req rest value hreq hvalue).1,
      fun resp rest hresp hwritten => ?_⟩
    obtain ⟨req, value, hreq, hvalue⟩ := (wsHandshake_rest_iff stack w).mp ⟨resp, hresp⟩
    exact (browserRun_safe_iff rest).mpr ((h req rest value hreq hvalue).2 hwritten) turns

/-- A request with a key of 128 bytes. -/
def longKeyRequest : List UInt8 :=
  ascii "Sec-WebSocket-Key:" ++ List.replicate 128 0x41 ++ emptyLine

/-- The terminator of the key is written behind its array. -/
theorem longKeyRequest_unsafe : ¬∀ (stack : List UInt8) (w : List UInt32) (written : Bool)
    (stream : List UInt8) (turns : List (List App)),
    Safe Access.InRange (connection stack w written turns stream) := by
  intro h
  have hrequest : Request longKeyRequest longKeyRequest [] :=
    readRequest_eq_some_iff.mp (by decide +kernel)
  have hkey : KeyValue (cString longKeyRequest) (List.replicate 128 0x41) :=
    keyValue_eq_some_iff.mp (by decide +kernel)
  have hsafe := ((connection_safe_turns_iff ..).mp (h [] [] true longKeyRequest [])).1
  have hlen := (wsHandshake_safe_iff ..).mp hsafe _ _ _ hrequest hkey
  rw [List.length_replicate] at hlen
  exact Nat.lt_irrefl 128 hlen

end MechanicalResearcher.Quaoar
