import MechanicalResearcher.Lib.Lines
import MechanicalResearcher.Lib.LittleEndian
import MechanicalResearcher.NetchanAuth.Auth

/-!
# The known_hosts file

`netchan-auth/demo/keystore.c`: hexadecimal text, `ks_known_host` and `ks_known_host_add`, with
what they use of the C library and of `monocypher.c`.  A file is its bytes, and `none` is a path
that does not open.
-/

namespace MechanicalResearcher.NetchanAuth

open Lib.Lines Lib.LittleEndian

/-! ## Characters -/

def newline : UInt8 := 10
def space : UInt8 := 32
def hashSign : UInt8 := 35

/-- `isspace` -/
def isSpace (c : UInt8) : Bool := c = space || (9 ≤ c && c ≤ 13)

def hexDigit (n : UInt8) : UInt8 := if n < 10 then 48 + n else 87 + n

def ksHexEncode (bytes : Bytes) : Bytes :=
  bytes.flatMap fun b : UInt8 => [hexDigit (b >>> 4), hexDigit (b &&& 0x0F)]

def hexNibble (ch : UInt8) : Option UInt8 :=
  if 48 ≤ ch ∧ ch ≤ 57 then some (ch - 48)
  else if 97 ≤ ch ∧ ch ≤ 102 then some (ch - 97 + 10)
  else if 65 ≤ ch ∧ ch ≤ 70 then some (ch - 65 + 10)
  else none

def hexBytes : Bytes → Option Bytes
  | [] => some []
  | [_] => none
  | h :: l :: s => do
    let hi ← hexNibble h
    let lo ← hexNibble l
    let rest ← hexBytes s
    some ((hi <<< 4 ||| lo) :: rest)

def ksHexDecode (n : Nat) (s : Bytes) : Option Bytes :=
  if s.length ≠ n * 2 then none else hexBytes s

/-! ## Lines -/

abbrev ksLine : Nat := 512

/-- `fgets` with a buffer of `size` bytes, one of which is for the NUL. -/
def fgets (size : Nat) (f : Bytes) : Option (Bytes × Bytes) :=
  if f = [] then none else some (readLine newline (size - 1) f)

/-- `%s` with a width -/
def scanWord (width : Nat) (s : Bytes) : Option (Bytes × Bytes) :=
  let s := s.dropWhile isSpace
  let word := (s.takeWhile (!isSpace ·)).take width
  if word = [] then none else some (word, s.drop word.length)

/-- `sscanf(s, "%511s %511s", name, hex) == 2` -/
def scanTwo (s : Bytes) : Option (Bytes × Bytes) := do
  let (name, s) ← scanWord (ksLine - 1) s
  let (hex, _) ← scanWord (ksLine - 1) s
  some (name, hex)

/-! ## Comparing keys -/

def Key.byte (k : Key) (i : BitVec 5) : BitVec 8 := (k.get i.toFin).toBitVec

def load64Le (k : Key) (i : BitVec 5) : BitVec 64 := load 64 k.byte i 8

def x16 (a b : Key) (i : BitVec 5) : BitVec 64 :=
  (load64Le a i ^^^ load64Le b i) ||| (load64Le a (i + 8) ^^^ load64Le b (i + 8))

def x32 (a b : Key) : BitVec 64 := x16 a b 0 ||| x16 a b 16

def neq0 (diff : BitVec 64) : Int :=
  let half := diff >>> 32 ||| (diff.truncate 32).zeroExtend 64
  (((1#64 &&& (half - 1) >>> 32) - 1).truncate 32).toInt

def cryptoVerify32 (a b : Key) : Int := neq0 (x32 a b)

/-! ## known_hosts -/

/-- `KS_HOST_*` -/
inductive HostStatus
  | unknown | matched | changed
  deriving DecidableEq, Repr

/-- One turn of the loop: `none` goes on to the next line.  The key is what is written to
`stored`. -/
def hostLine (host : Bytes) (pk : Key) (line : Bytes) : Option (HostStatus × Option Key) :=
  if line.head? = some hashSign then none
  else
    match scanTwo (cString line) with
    | none => none
    | some (name, hex) =>
      if name ≠ host then none
      else
        match ksHexDecode 32 hex with
        | none => none
        | some bytes =>
          let onFile : Key := rdVector 32 bytes
          if cryptoVerify32 onFile pk = 0 then some (.matched, none) else some (.changed,
            some onFile)

def knownHostLoop (host : Bytes) (pk : Key) : Nat → Bytes → HostStatus × Option Key
  | 0, _ => (.unknown, none)
  | n + 1, f =>
    match fgets ksLine f with
    | none => (.unknown, none)
    | some (line, f) =>
      match hostLine host pk line with
      | some r => r
      | none => knownHostLoop host pk n f

/-- `host` is the string without its NUL. -/
def ksKnownHost (file : Option Bytes) (host : Bytes) (pk : Key) : HostStatus × Option Key :=
  match file with
  | none => (.unknown, none)
  | some f => knownHostLoop host pk (f.length + 1) f

def hostRecord (host : Bytes) (pk : Key) : Bytes :=
  host ++ [space] ++ ksHexEncode pk.toList ++ [newline]

/-- The return value and the file afterwards; `opens` says whether it can be opened. -/
def ksKnownHostAdd (opens : Bool) (file : Option Bytes) (host : Bytes) (pk : Key) :
    Int × Option Bytes :=
  if opens then (0, some (file.getD [] ++ hostRecord host pk)) else (-1, file)

/-! ## Hexadecimal text -/

theorem length_ksHexEncode (bytes : Bytes) : (ksHexEncode bytes).length = 2 * bytes.length := by
  induction bytes with
  | nil => rfl
  | cons b bytes ih =>
    simp only [ksHexEncode, List.flatMap_cons, List.length_append, List.length_cons,
      List.length_nil] at ih ⊢
    omega

theorem hexNibble_hexDigit (b : UInt8) :
    hexNibble (hexDigit (b >>> 4)) = some (b >>> 4) ∧
      hexNibble (hexDigit (b &&& 0x0F)) = some (b &&& 0x0F) ∧
      (b >>> 4) <<< 4 ||| (b &&& 0x0F) = b := by
  have hall : ∀ x : BitVec 8, ∀ b, UInt8.ofBitVec x = b →
      hexNibble (hexDigit (b >>> 4)) = some (b >>> 4) ∧
        hexNibble (hexDigit (b &&& 0x0F)) = some (b &&& 0x0F) ∧
        (b >>> 4) <<< 4 ||| (b &&& 0x0F) = b := by
    rintro x b rfl
    revert x
    decide +kernel
  exact hall b.toBitVec b rfl

theorem hexBytes_ksHexEncode (bytes : Bytes) : hexBytes (ksHexEncode bytes) = some bytes := by
  induction bytes with
  | nil => rfl
  | cons b bytes ih =>
    obtain ⟨hhi, hlo, hbyte⟩ := hexNibble_hexDigit b
    have hcons : ksHexEncode (b :: bytes) =
        hexDigit (b >>> 4) :: hexDigit (b &&& 0x0F) :: ksHexEncode bytes := rfl
    simp [hcons, hexBytes, hhi, hlo, ih, hbyte]

theorem rdVector_toList (pk : Key) : rdVector 32 pk.toList = pk := by
  ext i hi
  simp [rdVector]

theorem hexDigit_word (b : UInt8) :
    (isSpace (hexDigit (b >>> 4)) = false ∧ hexDigit (b >>> 4) ≠ 0) ∧
      isSpace (hexDigit (b &&& 0x0F)) = false ∧ hexDigit (b &&& 0x0F) ≠ 0 := by
  have hall : ∀ x : BitVec 8, ∀ b, UInt8.ofBitVec x = b →
      (isSpace (hexDigit (b >>> 4)) = false ∧ hexDigit (b >>> 4) ≠ 0) ∧
        isSpace (hexDigit (b &&& 0x0F)) = false ∧ hexDigit (b &&& 0x0F) ≠ 0 := by
    rintro x b rfl
    revert x
    decide +kernel
  exact hall b.toBitVec b rfl

/-! ## What a line says -/

/-- The entry that a line holds: a name and the key that is on file for it. -/
def entry (line : Bytes) : Option (Bytes × Key) :=
  if line.head? = some hashSign then none
  else do
    let (name, hex) ← scanTwo (cString line)
    let bytes ← ksHexDecode 32 hex
    some (name, rdVector 32 bytes)

variable {host line s t : Bytes} {pk : Key}

theorem neq0_eq_zero {d : BitVec 64} : neq0 d = 0 ↔ d = 0 := by
  refine ⟨fun h => ?_, fun h => by subst h; rfl⟩
  by_contra hne
  have hd : d.toNat ≠ 0 := fun heq => hne (BitVec.eq_of_toNat_eq heq)
  unfold neq0 at h
  generalize hhalf : d >>> 32 ||| (d.truncate 32).zeroExtend 64 = half at h
  have hval : half.toNat = d.toNat / 2 ^ 32 ||| d.toNat % 2 ^ 32 := by
    rw [← hhalf, BitVec.toNat_or, BitVec.toNat_ushiftRight, Nat.shiftRight_eq_div_pow,
      BitVec.toNat_setWidth_of_le (by decide), BitVec.truncate, BitVec.toNat_setWidth]
  have hlt : half.toNat < 2 ^ 32 := by
    rw [hval]
    exact Nat.or_lt_two_pow (by omega) (Nat.mod_lt _ (by decide))
  have hpos : half.toNat ≠ 0 := by
    rw [hval, Ne, Nat.or_eq_zero_iff]
    omega
  have hnone : (half - 1) >>> 32 = 0 := by
    apply BitVec.eq_of_toNat_eq
    rw [BitVec.toNat_ushiftRight, Nat.shiftRight_eq_div_pow]
    bv_omega
  change (((1#64 &&& (half - 1) >>> 32) - 1).truncate 32).toInt = 0 at h
  rw [hnone] at h
  exact absurd h (by decide)

theorem x16_eq_zero {a b : Key} {i : BitVec 5} : x16 a b i = 0 ↔
    load64Le a i = load64Le b i ∧ load64Le a (i + 8) = load64Le b (i + 8) := by
  unfold x16
  simp

theorem Key.byte_eq {a b : Key} {c i : BitVec 5} (h : load64Le a c = load64Le b c)
    (hi : (i - c).toNat < 8) : a.byte i = b.byte i := by
  have hbyte := eq_of_load (by decide) h hi
  rwa [BitVec.ofNat_toNat, BitVec.setWidth_eq, BitVec.add_comm, BitVec.sub_add_cancel] at hbyte

theorem cryptoVerify32_eq_zero (a b : Key) : cryptoVerify32 a b = 0 ↔ a = b := by
  refine ⟨fun h => ?_, fun h => ?_⟩
  · have hdiff : x16 a b 0 = 0 ∧ x16 a b 16 = 0 := BitVec.or_eq_zero_iff.1 (neq0_eq_zero.1 h)
    obtain ⟨⟨h0, h8⟩, h16, h24⟩ := And.imp x16_eq_zero.1 x16_eq_zero.1 hdiff
    have hbyte : ∀ i : BitVec 5, a.byte i = b.byte i := by
      intro i
      rcases (by omega : i.toNat < 8 ∨ 8 ≤ i.toNat ∧ i.toNat < 16 ∨ 16 ≤ i.toNat ∧ i.toNat < 24 ∨
        24 ≤ i.toNat) with hi | hi | hi | hi
      · exact Key.byte_eq h0 (by bv_omega)
      · exact Key.byte_eq h8 (by bv_omega)
      · exact Key.byte_eq h16 (by bv_omega)
      · exact Key.byte_eq h24 (by bv_omega)
    apply Vector.ext
    intro i hi
    exact UInt8.eq_of_toBitVec_eq (hbyte ⟨i, hi⟩)
  · exact neq0_eq_zero.2 (BitVec.or_eq_zero_iff.2
      ⟨x16_eq_zero.2 (by subst h; exact ⟨rfl, rfl⟩), x16_eq_zero.2 (by subst h; exact ⟨rfl, rfl⟩)⟩)

def verdict (pk onFile : Key) : HostStatus × Option Key :=
  if cryptoVerify32 onFile pk = 0 then (.matched, none) else (.changed, some onFile)

theorem hostLine_eq (host : Bytes) (pk : Key) (line : Bytes) :
    hostLine host pk line =
      (entry line).bind fun e => if e.1 = host then some (verdict pk e.2) else none := by
  unfold hostLine entry
  by_cases hhash : line.head? = some hashSign
  · rw [if_pos hhash, if_pos hhash]
    rfl
  · rw [if_neg hhash, if_neg hhash]
    rcases hscan : scanTwo (cString line) with _ | ⟨name, hex⟩
    · rfl
    · rcases hhex : ksHexDecode 32 hex with _ | bytes
      · by_cases hname : name = host <;> simp [hhex, hname]
      · by_cases hname : name = host <;> simp [hhex, hname, verdict, apply_ite]

theorem knownHostLoop_eq (host : Bytes) (pk : Key) {n : Nat}
    {f : Bytes} (hn : f.length < n) :
    knownHostLoop host pk n f =
      ((lines newline (ksLine - 1) [] f).findSome? (hostLine host pk)).getD
        (.unknown, none) := by
  induction n generalizing f with
  | zero => omega
  | succ n ih =>
    by_cases hf : f = []
    · subst hf
      rfl
    · have hroom : ([] : Bytes).length < ksLine - 1 := by decide
      have hread := readLine_lines newline hroom hf
      have hless := readLine_length newline hf hroom
      rw [List.length_nil, Nat.sub_zero, List.nil_append] at hread
      rw [hread, knownHostLoop, fgets, if_neg hf]
      generalize readLine newline (ksLine - 1) f = r at hless
      cases hline : hostLine host pk r.1 with
      | none => simp [hline, ih (show r.2.length < n by omega)]
      | some v => simp [hline]

theorem ksKnownHost_eq (f host : Bytes) (pk : Key) :
    ksKnownHost (some f) host pk =
      ((lines newline (ksLine - 1) [] f).findSome? (hostLine host pk)).getD
        (.unknown, none) :=
  knownHostLoop_eq host pk (Nat.lt_succ_self _)

theorem scanWord_eq {width : Nat} (hs : s.length ≤ width) :
    scanWord width s =
      if (firstWord isSpace s).1 = [] then none else some (firstWord isSpace s) := by
  have hword : ((s.dropWhile isSpace).takeWhile (!isSpace ·)).length ≤ width :=
    ((List.takeWhile_sublist _).length_le.trans (List.dropWhile_sublist _).length_le).trans hs
  have hsplit := List.takeWhile_append_dropWhile (p := (!isSpace ·)) (l := s.dropWhile isSpace)
  have hrest := congrArg
    (List.drop ((s.dropWhile isSpace).takeWhile (!isSpace ·)).length) hsplit.symm
  rw [List.drop_left] at hrest
  rw [scanWord, List.take_of_length_le hword, hrest]
  rfl

theorem scanTwo_eq (hs : s.length ≤ ksLine - 1) :
    scanTwo s =
      if (twoWords isSpace s).1 = [] ∨ (twoWords isSpace s).2 = [] then none
      else some (twoWords isSpace s) := by
  obtain ⟨b, -, hsplit⟩ := firstWord_split isSpace s
  have hlen : (firstWord isSpace s).2.length ≤ ksLine - 1 := by
    have := congrArg List.length hsplit
    simp only [List.length_append] at this
    omega
  have hsecond := scanWord_eq hlen
  unfold scanTwo
  rw [scanWord_eq hs]
  by_cases h1 : (firstWord isSpace s).1 = []
  · simp [h1, twoWords]
  · rw [if_neg h1, Option.bind_eq_bind, Option.bind_some]
    change ((scanWord (ksLine - 1) (firstWord isSpace s).2).bind fun p =>
      some ((firstWord isSpace s).1, p.1)) = _
    rw [hsecond]
    by_cases h2 : (firstWord isSpace (firstWord isSpace s).2).1 = []
    · simp [h2, twoWords]
    · simp [h1, h2, twoWords]

/-- The entry that two words make. -/
def wordsEntry (w : Bytes × Bytes) : Option (Bytes × Key) :=
  if w.1 = [] ∨ w.2 = [] then none
  else (ksHexDecode 32 w.2).map fun bytes => (w.1, rdVector 32 bytes)

theorem entry_eq (hline : line.length ≤ ksLine - 1) :
    entry line =
      if line.head? = some hashSign then none
      else wordsEntry (twoWords isSpace (cString line)) := by
  have hlen : (cString line).length ≤ ksLine - 1 :=
    (List.takeWhile_sublist _).length_le.trans hline
  unfold entry wordsEntry
  rw [scanTwo_eq hlen]
  generalize twoWords isSpace (cString line) = w
  by_cases hw : w.1 = [] ∨ w.2 = []
  · rw [if_pos hw, if_pos hw]
    rfl
  · rw [if_neg hw, if_neg hw]
    rcases hhex : ksHexDecode 32 w.2 with _ | bytes <;> simp [hhex]

theorem wordsEntry_eq_some {w : Bytes × Bytes} {name : Bytes}
    (h : wordsEntry w = some (name, pk)) :
    w.1 = name ∧ w.2.length = 64 := by
  unfold wordsEntry ksHexDecode at h
  by_cases hw : w.1 = [] ∨ w.2 = []
  · rw [if_pos hw] at h
    cases h
  · by_cases hlen : w.2.length = 64
    · rw [if_neg hw, if_neg (not_not.2 hlen)] at h
      obtain ⟨bytes, -, he⟩ := Option.map_eq_some_iff.1 h
      exact ⟨congrArg Prod.fst he, hlen⟩
    · rw [if_neg hw, if_pos hlen] at h
      cases h

/-! ## Host names -/

/-- What a name of a host is: a word that is not the start of a comment. -/
structure HostName (host : Bytes) : Prop where
  ne_nil : host ≠ []
  word : ∀ c ∈ host, isSpace c = false
  noNul : 0 ∉ host
  noComment : host.head? ≠ some hashSign
  length : host.length ≤ 255

theorem isSpace_newline : isSpace newline = true := by decide

theorem isSpace_space : isSpace space = true := by decide

theorem isSpace_zero : isSpace 0 = false := by decide

theorem isSpace_hashSign : isSpace hashSign = false := by decide

theorem notMem_of_isSpace (ht : ∀ c ∈ t, isSpace c = true) : 0 ∉ t := by
  intro h
  have := ht 0 h
  rw [isSpace_zero] at this
  cases this

theorem cString_of_notMem (h : 0 ∉ s) : cString s = s := by
  refine List.takeWhile_eq_self_iff.2 fun c hc => ?_
  have hne : c ≠ 0 := fun h0 => h (h0 ▸ hc)
  simpa using hne

theorem cString_append_of_mem (h : 0 ∈ s) (r : Bytes) : cString (s ++ r) = cString s := by
  induction s with
  | nil => cases h
  | cons c s ih =>
    by_cases hc : c = 0
    · simp [cString, hc]
    · have hs : 0 ∈ s := (List.mem_cons.1 h).resolve_left (Ne.symm hc)
      have hcons (v : Bytes) : cString (c :: v) = c :: cString v :=
        List.takeWhile_cons_of_pos (by simpa using hc)
      rw [List.cons_append, hcons, hcons, ih hs]

theorem hexText_word (pk : Key) :
    (ksHexEncode pk.toList).length = 64 ∧ (∀ c ∈ ksHexEncode pk.toList, isSpace c = false) ∧
      0 ∉ ksHexEncode pk.toList := by
  refine ⟨by rw [length_ksHexEncode, Vector.length_toList], fun c hc => ?_, fun h => ?_⟩
  · obtain ⟨b, -, hb⟩ := List.mem_flatMap.1 hc
    obtain ⟨⟨hhi, -⟩, hlo, -⟩ := hexDigit_word b
    rcases List.mem_pair.1 hb with rfl | rfl
    · exact hhi
    · exact hlo
  · obtain ⟨b, -, hb⟩ := List.mem_flatMap.1 h
    obtain ⟨⟨-, hhi⟩, -, hlo⟩ := hexDigit_word b
    rcases List.mem_pair.1 hb with h0 | h0
    · exact hhi h0.symm
    · exact hlo h0.symm

theorem ksHexDecode_encode (pk : Key) :
    ksHexDecode 32 (ksHexEncode pk.toList) = some pk.toList := by
  rw [ksHexDecode, if_neg (by rw [(hexText_word pk).1]; decide), hexBytes_ksHexEncode]

theorem newline_notMem_record (hhost : HostName host) (pk : Key) :
    newline ∉ host ++ [space] ++ ksHexEncode pk.toList := by
  have hword {w : Bytes} (hw : ∀ c ∈ w, isSpace c = false) : newline ∉ w := by
    intro h
    have := hw newline h
    rw [isSpace_newline] at this
    cases this
  have hspace : newline ≠ space := by decide
  simp [hword hhost.word, hword (hexText_word pk).2.1, hspace]

/-! ## The line that is added -/

theorem entry_record (hhost : HostName host) (pk : Key) (ht : ∀ c ∈ t, isSpace c = true)
    {e : Bytes} (he : e = [] ∨ e = [newline])
    (hlen : (t ++ host ++ space :: (ksHexEncode pk.toList ++ e)).length ≤ ksLine - 1) :
    entry (t ++ host ++ space :: (ksHexEncode pk.toList ++ e)) = some (host, pk) := by
  obtain ⟨hhex, hhexWord, hhexNul⟩ := hexText_word pk
  have hhexNil : ksHexEncode pk.toList ≠ [] := by
    intro h
    rw [h] at hhex
    cases hhex
  have hhead : (t ++ host ++ space :: (ksHexEncode pk.toList ++ e)).head? ≠ some hashSign := by
    rcases t with _ | ⟨c, t⟩
    · obtain ⟨d, host, rfl⟩ := List.exists_cons_of_ne_nil hhost.ne_nil
      exact hhost.noComment
    · intro h
      obtain rfl : c = hashSign := by simpa using h
      have := ht _ (List.mem_cons_self ..)
      rw [isSpace_hashSign] at this
      cases this
  have hnul : 0 ∉ t ++ host ++ space :: (ksHexEncode pk.toList ++ e) := by
    have hspace : (0 : UInt8) ≠ space := by decide
    have heNul : 0 ∉ e := by rcases he with rfl | rfl <;> decide
    simp [notMem_of_isSpace ht, hhost.noNul, hspace, hhexNul, heNul]
  have hbegins : ∃ c ∈ t ++ host, isSpace c = false := by
    obtain ⟨c, hc⟩ := List.exists_mem_of_ne_nil _ hhost.ne_nil
    exact ⟨c, List.mem_append_right t hc, hhost.word c hc⟩
  have hname : firstWord isSpace (t ++ host) = (host, []) := by
    rw [firstWord_blank ht, firstWord_word hhost.word hhost.ne_nil]
  have hkey : (firstWord isSpace (ksHexEncode pk.toList ++ e)).1 = ksHexEncode pk.toList := by
    obtain ⟨c, hc⟩ := List.exists_mem_of_ne_nil _ hhexNil
    rcases he with rfl | rfl
    · rw [List.append_nil, firstWord_word hhexWord hhexNil]
    · rw [firstWord_append ⟨c, hc, hhexWord c hc⟩ isSpace_newline,
        firstWord_word hhexWord hhexNil]
  rw [entry_eq hlen, if_neg hhead, cString_of_notMem hnul,
    twoWords_append hbegins isSpace_space, hname, if_neg (by simp), hkey, wordsEntry,
    if_neg (by simp [hhost.ne_nil, hhexNil]), ksHexDecode_encode, Option.map_some,
    rdVector_toList]

theorem entry_blank (ht : ∀ c ∈ t, isSpace c = true) (hlen : t.length ≤ ksLine - 1) :
    entry t = none := by
  rw [entry_eq hlen, cString_of_notMem (notMem_of_isSpace ht), twoWords, firstWord_of_blank ht]
  by_cases hhash : t.head? = some hashSign
  · rw [if_pos hhash]
  · rw [if_neg hhash]
    rfl

/-- Joined to an open line, a record gives an entry of the host in one of two ways: the line ends
in white space and the room is enough, or the key is read from what was there before. -/
theorem entry_joined (hhost : HostName host) {v v' : Bytes} {key : Key}
    (hv : 0 ∉ v) (hv' : 0 ∉ v') (hlen : (t ++ host ++ space :: v).length ≤ ksLine - 1)
    (hlen' : (t ++ host ++ space :: v').length ≤ ksLine - 1) (ht : t ≠ [])
    (h : entry (t ++ host ++ space :: v) = some (host, key)) :
    entry (t ++ host ++ space :: v') = some (host, key) ∨
      (∀ c ∈ t, isSpace c = true) ∧ 64 ≤ v.length := by
  have hhead (w : Bytes) : (t ++ host ++ w).head? = t.head? := by
    obtain ⟨c, t, rfl⟩ := List.exists_cons_of_ne_nil ht
    rfl
  rw [entry_eq hlen, hhead] at h
  rw [entry_eq hlen', hhead]
  by_cases hhash : t.head? = some hashSign
  · rw [if_pos hhash] at h
    cases h
  rw [if_neg hhash] at h ⊢
  by_cases hnul : 0 ∈ t ++ host
  · rw [cString_append_of_mem hnul] at h ⊢
    exact .inl h
  -- the words of the line: the first one begins in what was there or is the host
  have hspace : (0 : UInt8) ≠ space := by decide
  have hnul1 : 0 ∉ t ++ host ++ space :: v := by simp at hnul; simp [hnul, hspace, hv]
  have hnul2 : 0 ∉ t ++ host ++ space :: v' := by simp at hnul; simp [hnul, hspace, hv']
  have hbegins : ∃ c ∈ t ++ host, isSpace c = false := by
    obtain ⟨c, hc⟩ := List.exists_mem_of_ne_nil _ hhost.ne_nil
    exact ⟨c, List.mem_append_right t hc, hhost.word c hc⟩
  rw [cString_of_notMem hnul1, twoWords_append hbegins isSpace_space] at h
  rw [cString_of_notMem hnul2, twoWords_append hbegins isSpace_space]
  by_cases hrest : ∃ c ∈ (firstWord isSpace (t ++ host)).2, isSpace c = false
  · rw [if_pos hrest] at h ⊢
    exact .inl h
  · rw [if_neg hrest] at h
    obtain ⟨hname, hhex⟩ := wordsEntry_eq_some h
    obtain ⟨b, hb, hsplit⟩ := firstWord_split isSpace (t ++ host)
    refine .inr ⟨?_, ?_⟩
    · -- nothing follows the name, so the name is the end of the line
      have hnil : (firstWord isSpace (t ++ host)).2 = [] := by
        rcases List.eq_nil_or_concat' (firstWord isSpace (t ++ host)).2 with hnil | ⟨r, c, hr⟩
        · exact hnil
        · exfalso
          obtain ⟨w, d, rfl⟩ := (List.eq_nil_or_concat' host).resolve_left hhost.ne_nil
          rw [hr, ← List.append_assoc, ← List.append_assoc] at hsplit
          have hcd : d = c := (List.append_inj' hsplit rfl).2 |> List.singleton_inj.1
          refine hrest ⟨c, by rw [hr]; simp, ?_⟩
          rw [← hcd]
          exact hhost.word d (by simp)
      rw [hnil, List.append_nil, hname] at hsplit
      rw [List.append_cancel_right hsplit]
      exact hb
    · obtain ⟨b', -, hsplit'⟩ := firstWord_split isSpace v
      have hle := congrArg List.length hsplit'
      simp only [List.length_append] at hle hhex
      omega

theorem entry_drop_ne (hhost : HostName host) (pk key : Key) {k : Nat} (hk : 0 < k) :
    entry ((hostRecord host pk).drop k) ≠ some (host, key) := by
  intro h
  obtain ⟨hhex, hhexWord, hhexNul⟩ := hexText_word pk
  have hshort := hhost.length
  have hlen : (hostRecord host pk).length = host.length + 66 := by
    simp [hostRecord, hhex]
  have hdrop : ((hostRecord host pk).drop k).length ≤ ksLine - 1 := by
    have hline : ksLine = 512 := rfl
    rw [List.length_drop, hlen]
    omega
  rw [entry_eq hdrop] at h
  have hwords : wordsEntry (twoWords isSpace (cString ((hostRecord host pk).drop k))) =
      some (host, key) := by
    split at h
    · cases h
    · exact h
  have hnul : 0 ∉ (hostRecord host pk).drop k := by
    intro h0
    have hne : (0 : UInt8) ≠ space ∧ (0 : UInt8) ≠ newline := by decide
    have := List.mem_of_mem_drop h0
    simp [hostRecord, hhost.noNul, hhexNul, hne] at this
  rw [cString_of_notMem hnul] at hwords
  obtain ⟨hname, hsecond⟩ := wordsEntry_eq_some hwords
  by_cases hend : k ≤ host.length + 65
  · -- the rest ends in the newline, and two words with a blank between them do not fit before it
    have hsplit : (hostRecord host pk).drop k =
        (host ++ [space] ++ ksHexEncode pk.toList).drop k ++ [newline] := by
      rw [hostRecord, List.drop_append_of_le_length (by simp [hhex]; omega)]
    rw [hsplit, twoWords_concat isSpace_newline] at hname hsecond
    have hne : (twoWords isSpace
        ((host ++ [space] ++ ksHexEncode pk.toList).drop k)).2 ≠ [] := by
      intro hnil
      rw [hnil] at hsecond
      cases hsecond
    have hfit := twoWords_length isSpace hne
    rw [hname, hsecond] at hfit
    simp [hhex] at hfit
    omega
  · rw [List.drop_of_length_le (by omega)] at hsecond
    cases hsecond

/-! ## Looking a host up -/

theorem hostLine_eq_none :
    hostLine host pk line = none ↔ ∀ key, entry line ≠ some (host, key) := by
  rw [hostLine_eq]
  rcases hentry : entry line with _ | ⟨name, key⟩
  · simp
  · by_cases hname : name = host <;> simp [hname]

theorem findSome_eq_none {ls : List Bytes} (h : ∀ l ∈ ls, ∀ key, entry l ≠ some (host, key)) :
    ls.findSome? (hostLine host pk) = none :=
  List.findSome?_eq_none_iff.2 fun l hl => hostLine_eq_none.2 (h l hl)

theorem verdict_ne_unknown (pk key : Key) : (verdict pk key).1 ≠ .unknown := by
  unfold verdict
  split <;> simp

theorem unknown_iff {f : Bytes} :
    (ksKnownHost (some f) host pk).1 = .unknown ↔
      ∀ l ∈ lines newline (ksLine - 1) [] f, ∀ key, entry l ≠ some (host, key) := by
  rw [ksKnownHost_eq]
  constructor
  · intro h l hl
    rcases hfind : (lines newline (ksLine - 1) [] f).findSome? (hostLine host pk) with
      _ | r
    · exact hostLine_eq_none.1 (List.findSome?_eq_none_iff.1 hfind l hl)
    · exfalso
      obtain ⟨l, -, hl⟩ := List.exists_of_findSome?_eq_some hfind
      rw [hostLine_eq] at hl
      obtain ⟨e, -, he⟩ := Option.bind_eq_some_iff.1 hl
      rw [hfind, Option.getD_some] at h
      split at he
      · rw [← Option.some.inj he] at h
        exact verdict_ne_unknown _ _ h
      · cases he
  · intro h
    rw [findSome_eq_none h]
    rfl

/-! ## Adding a host -/

/-- What is left open at the end of a file: its last line, less the full reads at its front. -/
def openEnd (file : Bytes) : Bytes :=
  (lastLine newline file).drop ((lastLine newline file).length / (ksLine - 1) * (ksLine - 1))

theorem pending_eq_openEnd (file : Bytes) :
    pending newline (ksLine - 1) [] file = openEnd file :=
  pending_eq_drop (by decide) List.not_mem_nil

theorem length_openEnd_lt (file : Bytes) : (openEnd file).length < ksLine - 1 := by
  rw [← pending_eq_openEnd]
  have hroom : ([] : Bytes).length < ksLine - 1 := by decide
  exact (pending_sep hroom List.not_mem_nil).2

/-- A record is read back from where it is added: only white space is left open, and the record
fits behind it. -/
def AppendsClean (file host : Bytes) : Prop :=
  (∀ c ∈ openEnd file, isSpace c = true) ∧ (openEnd file).length + host.length + 65 ≤ ksLine - 1

/-- Adding a host keeps the answers about all others, and makes a new host known with its key and
no other one. -/
structure AddsRight (file host : Bytes) : Prop where
  others : ∀ pk other k, HostName other → other ≠ host →
    ksKnownHost (ksKnownHostAdd true (some file) host pk).2 other k =
      ksKnownHost (some file) other k
  found : ∀ pk k₀, (ksKnownHost (some file) host k₀).1 = .unknown →
    (ksKnownHost (ksKnownHostAdd true (some file) host pk).2 host pk).1 = .matched ∧
      ∀ k ≠ pk,
        (ksKnownHost (ksKnownHostAdd true (some file) host pk).2 host k).1 = .changed

theorem lines_add (hhost : HostName host) (file : Bytes) (pk : Key) :
    lines newline (ksLine - 1) [] (file ++ hostRecord host pk) =
      complete newline (ksLine - 1) [] file ++
        (openEnd file ++ (hostRecord host pk).take (ksLine - 1 - (openEnd file).length)) ::
          if (hostRecord host pk).drop (ksLine - 1 - (openEnd file).length) = [] then []
          else [(hostRecord host pk).drop (ksLine - 1 - (openEnd file).length)] := by
  have hopen := length_openEnd_lt file
  have hlen : (host ++ [space] ++ ksHexEncode pk.toList).length < ksLine - 1 := by
    have := hhost.length
    simp [(hexText_word pk).1]
    omega
  rw [lines_append, pending_eq_openEnd, hostRecord,
    lines_joined (newline_notMem_record hhost pk) hopen hlen]

section Clean

variable {file : Bytes}

theorem exists_lines_add (hhost : HostName host) (hclean : AppendsClean file host) (pk : Key) :
    ∃ l r, lines newline (ksLine - 1) [] (file ++ hostRecord host pk) =
        complete newline (ksLine - 1) [] file ++ l :: r ∧
      entry l = some (host, pk) ∧ ∀ l' ∈ r, entry l' = none := by
  obtain ⟨hblank, hroom⟩ := hclean
  refine ⟨_, _, lines_add hhost file pk, ?_, ?_⟩
  all_goals
    generalize openEnd file = t at hblank hroom ⊢
    obtain ⟨n, hn⟩ : ∃ n, ksLine - 1 - t.length = host.length + 65 + n :=
      ⟨ksLine - 1 - t.length - (host.length + 65), by omega⟩
    have hlen : (host ++ [space] ++ ksHexEncode pk.toList).length = host.length + 65 := by
      simp [(hexText_word pk).1]
  · have htake : (hostRecord host pk).take (ksLine - 1 - t.length) =
        host ++ space :: (ksHexEncode pk.toList ++ [newline].take n) := by
      rw [hostRecord, hn, ← hlen, List.take_length_add_append, List.append_assoc,
        List.append_assoc]
      rfl
    have hend : [newline].take n = [] ∨ [newline].take n = [newline] := by
      cases n <;> simp
    rw [htake, ← List.append_assoc]
    refine entry_record hhost pk hblank hend ?_
    have hfit : ([newline].take n).length ≤ n := List.length_take_le _ _
    simp only [List.length_append, List.length_cons, (hexText_word pk).1] at hfit ⊢
    omega
  · have hdrop : (hostRecord host pk).drop (ksLine - 1 - t.length) = [newline].drop n := by
      rw [hostRecord, hn, ← hlen, List.drop_length_add_append]
    intro l hl
    rw [hdrop] at hl
    split at hl
    · cases hl
    · rw [List.mem_singleton.1 hl]
      refine entry_blank (fun c hc => ?_) ?_
      · rw [List.mem_singleton.1 (List.mem_of_mem_drop hc)]
        exact isSpace_newline
      · rw [List.length_drop]
        exact (Nat.sub_le _ _).trans (by decide)

theorem addsRight_of_clean (hhost : HostName host)
    (hclean : AppendsClean file host) : AddsRight file host where
  others pk other k hother hne := by
    obtain ⟨l, r, hlines, hl, hr⟩ := exists_lines_add hhost hclean pk
    have hadded : ∀ l' ∈ l :: r, ∀ key, entry l' ≠ some (other, key) := by
      intro l' hl' key
      rcases List.mem_cons.1 hl' with rfl | hl'
      · simp [hl, hne.symm]
      · simp [hr l' hl']
    have hopen : ∀ l' ∈ (if openEnd file = [] then [] else [openEnd file]), ∀ key,
        entry l' ≠ some (other, key) := by
      intro l' hl' key
      split at hl'
      · cases hl'
      · rw [List.mem_singleton.1 hl', entry_blank hclean.1 (by have := hclean.2; omega)]
        exact (Option.some_ne_none _).symm
    have hfile := lines_eq newline (ksLine - 1) file
    rw [pending_eq_openEnd] at hfile
    change ksKnownHost (some (file ++ hostRecord host pk)) other k = _
    rw [ksKnownHost_eq, ksKnownHost_eq, hlines, hfile, List.findSome?_append,
      List.findSome?_append, findSome_eq_none hadded, findSome_eq_none hopen]
  found pk k₀ hunknown := by
    obtain ⟨l, r, hlines, hl, -⟩ := exists_lines_add hhost hclean pk
    have hbefore : ∀ l ∈ complete newline (ksLine - 1) [] file, ∀ key,
        entry l ≠ some (host, key) := by
      intro l hl
      refine unknown_iff.1 hunknown l ?_
      rw [lines_eq]
      exact List.mem_append_left _ hl
    have hresult (k : Key) :
        ksKnownHost (some (file ++ hostRecord host pk)) host k =
          verdict k pk := by
      rw [ksKnownHost_eq, hlines, List.findSome?_append, findSome_eq_none hbefore,
        List.findSome?_cons, hostLine_eq, hl]
      simp
    refine ⟨?_, fun k hk => ?_⟩
    · change (ksKnownHost (some (file ++ hostRecord host pk)) host pk).1 = _
      rw [hresult, verdict, if_pos ((cryptoVerify32_eq_zero pk pk).2 rfl)]
    · change (ksKnownHost (some (file ++ hostRecord host pk)) host k).1 = _
      rw [hresult, verdict, if_neg fun h => hk ((cryptoVerify32_eq_zero pk k).1 h).symm]

theorem entry_of_found (hhost : HostName host)
    {k₀ : Key} (hunknown : (ksKnownHost (some file) host k₀).1 = .unknown)
    (hright : AddsRight file host) (pk : Key) :
    entry (openEnd file ++ (hostRecord host pk).take (ksLine - 1 - (openEnd file).length)) =
      some (host, pk) := by
  have hopen := length_openEnd_lt file
  have hmatched :
      (ksKnownHost (some (file ++ hostRecord host pk)) host pk).1 = .matched :=
    (hright.found pk k₀ hunknown).1
  have hbefore : ∀ l ∈ complete newline (ksLine - 1) [] file, ∀ key,
      entry l ≠ some (host, key) := by
    intro l hl
    refine unknown_iff.1 hunknown l ?_
    rw [lines_eq]
    exact List.mem_append_left _ hl
  have hrest : ∀ l ∈ (if (hostRecord host pk).drop (ksLine - 1 - (openEnd file).length) = []
      then [] else [(hostRecord host pk).drop (ksLine - 1 - (openEnd file).length)]), ∀ key,
        entry l ≠ some (host, key) := by
    intro l hl key
    split at hl
    · cases hl
    · rw [List.mem_singleton.1 hl]
      exact entry_drop_ne hhost pk key (by omega)
  rw [ksKnownHost_eq, lines_add hhost, List.findSome?_append, findSome_eq_none hbefore,
    List.findSome?_cons, findSome_eq_none hrest, hostLine_eq] at hmatched
  generalize entry (openEnd file ++ (hostRecord host pk).take
    (ksLine - 1 - (openEnd file).length)) = e at hmatched
  rcases e with _ | ⟨name, key⟩
  · cases hmatched
  · by_cases hname : name = host
    · by_cases hkey : cryptoVerify32 key pk = 0
      · rw [hname, (cryptoVerify32_eq_zero key pk).1 hkey]
      · simp [hname, verdict, hkey] at hmatched
    · simp [hname] at hmatched

theorem clean_of_addsRight (hhost : HostName host)
    {k₀ : Key} (hunknown : (ksKnownHost (some file) host k₀).1 = .unknown)
    (hright : AddsRight file host) : AppendsClean file host := by
  have hopen := length_openEnd_lt file
  have hfound := entry_of_found hhost hunknown hright
  have hshort := hhost.length
  have hline : ksLine = 512 := rfl
  unfold AppendsClean
  generalize openEnd file = t at hopen hfound ⊢
  by_cases ht : t = []
  · subst ht
    refine ⟨fun c hc => absurd hc List.not_mem_nil, ?_⟩
    rw [List.length_nil]
    omega
  -- two keys: an entry that does not depend on the key that was added is wrong for one of them
  have hkeys : zero32 ≠ Vector.replicate 32 1 := by decide
  obtain ⟨k, hk⟩ : ∃ k, ksLine - 1 - t.length = k := ⟨_, rfl⟩
  rw [hk] at hfound
  by_cases hcut : k ≤ host.length
  · exfalso
    have htake (pk : Key) : (hostRecord host pk).take k = host.take k := by
      rw [hostRecord, List.append_assoc, List.append_assoc, List.take_append_of_le_length hcut]
    have h1 := hfound zero32
    have h2 := hfound (Vector.replicate 32 1)
    rw [htake] at h1 h2
    rw [h1] at h2
    exact hkeys (congrArg Prod.snd (Option.some.inj h2))
  · obtain ⟨n, rfl⟩ : ∃ n, k = host.length + 1 + n := ⟨k - (host.length + 1), by omega⟩
    have htake (pk : Key) : (hostRecord host pk).take (host.length + 1 + n) =
        host ++ space :: (ksHexEncode pk.toList ++ [newline]).take n := by
      have hlen : (host ++ [space]).length = host.length + 1 := by simp
      rw [hostRecord, List.append_assoc (host ++ [space]), ← hlen, List.take_length_add_append,
        List.append_assoc]
      rfl
    have hnul (pk : Key) : 0 ∉ (ksHexEncode pk.toList ++ [newline]).take n := by
      intro h
      have hne : (0 : UInt8) ≠ newline := by decide
      have := List.mem_of_mem_take h
      simp [(hexText_word pk).2.2, hne] at this
    have hfit (pk : Key) : (t ++ host ++
        space :: (ksHexEncode pk.toList ++ [newline]).take n).length ≤ ksLine - 1 := by
      have := List.length_take_le n (ksHexEncode pk.toList ++ [newline])
      simp only [List.length_append, List.length_cons] at this ⊢
      omega
    have h1 := hfound zero32
    have h2 := hfound (Vector.replicate 32 1)
    rw [htake, ← List.append_assoc] at h1 h2
    rcases entry_joined hhost (hnul zero32) (hnul (Vector.replicate 32 1)) (hfit _) (hfit _) ht h1
      with hsame | ⟨hblank, hroom⟩
    · rw [h2] at hsame
      exact absurd (congrArg Prod.snd (Option.some.inj hsame)).symm hkeys
    · have := List.length_take_le n (ksHexEncode zero32.toList ++ [newline])
      exact ⟨hblank, by omega⟩

/-- Adding a host to a file that ends in a whole line is right; adding a new host is right in no
other case. -/
theorem ksKnownHostAdd_right_iff (hhost : HostName host) :
    (AppendsClean file host → AddsRight file host) ∧
      ∀ k₀, (ksKnownHost (some file) host k₀).1 = .unknown →
        (AddsRight file host ↔ AppendsClean file host) :=
  ⟨addsRight_of_clean hhost, fun _ hunknown =>
    ⟨clean_of_addsRight hhost hunknown, addsRight_of_clean hhost⟩⟩

end Clean

/-- "alpha" -/
def alpha : Bytes := [97, 108, 112, 104, 97]

/-- "beta" -/
def beta : Bytes := [98, 101, 116, 97]

theorem beta_name : HostName beta :=
  ⟨by decide, by simp [beta, isSpace, space], by decide, by decide, by decide⟩

/-- A file with one host, whose line does not end in a newline. -/
def unendedFile : Bytes := alpha ++ [space] ++ ksHexEncode zero32.toList

/-- The new host is joined to the key of the host before it: neither is known afterwards. -/
theorem unended_line_loses_hosts :
    ¬ AddsRight unendedFile beta ∧
      (ksKnownHost (some unendedFile) alpha zero32).1 = .matched ∧
      (ksKnownHost (ksKnownHostAdd true (some unendedFile) beta zero32).2
        alpha zero32).1 = .unknown ∧
      (ksKnownHost (ksKnownHostAdd true (some unendedFile) beta zero32).2
        beta zero32).1 = .unknown := by
  have hbefore : (ksKnownHost (some unendedFile) beta zero32).1 = .unknown := by
    decide +kernel
  have hafter : (ksKnownHost (ksKnownHostAdd true (some unendedFile) beta zero32).2
      beta zero32).1 = .unknown := by
    decide +kernel
  refine ⟨fun h => ?_, by decide +kernel, by decide +kernel, hafter⟩
  have hmatched := (h.found zero32 zero32 hbefore).1
  rw [hafter] at hmatched
  cases hmatched

/-- After a whole line the addition is right. -/
theorem ksKnownHostAdd_right_iff_ended :
    AddsRight (unendedFile ++ [newline]) beta ∧
      (AddsRight (unendedFile ++ [newline]) beta ↔
        AppendsClean (unendedFile ++ [newline]) beta) :=
  ⟨(ksKnownHostAdd_right_iff beta_name).1 ⟨by decide +kernel, by decide +kernel⟩,
    (ksKnownHostAdd_right_iff beta_name).2 zero32 (by decide +kernel)⟩

end MechanicalResearcher.NetchanAuth
