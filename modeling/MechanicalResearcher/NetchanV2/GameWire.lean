import MechanicalResearcher.Game.World

/-!
# The messages of the game

`microser.h`, the code that `microser-gen.sh` prints for `netchan-v2/demo/game/proto.idl`,
and `gw_pack`.  A writer gets what is already in the buffer and the length of the buffer; a
reader gets the part of the payload behind its position, up to `end`.
-/

namespace MechanicalResearcher.NetchanV2

open Game

def le16 (v : UInt16) : List UInt8 :=
  [UInt8.ofNat v.toNat, UInt8.ofNat (v.toNat / 2 ^ 8)]

def le32 (v : UInt32) : List UInt8 :=
  [UInt8.ofNat v.toNat, UInt8.ofNat (v.toNat / 2 ^ 8), UInt8.ofNat (v.toNat / 2 ^ 16),
    UInt8.ofNat (v.toNat / 2 ^ 24)]

def getLe16 (p : List UInt8) : UInt16 :=
  UInt16.ofNat ((p.getD 0 0).toNat + (p.getD 1 0).toNat * 2 ^ 8)

def getLe32 (p : List UInt8) : UInt32 :=
  UInt32.ofNat ((p.getD 0 0).toNat + (p.getD 1 0).toNat * 2 ^ 8 + (p.getD 2 0).toNat * 2 ^ 16 +
    (p.getD 3 0).toNat * 2 ^ 24)

/-- `MS_WIRE_*` -/
def msWire8 : UInt8 := 0
def msWire16 : UInt8 := 1
def msWire32 : UInt8 := 2
def msWireBytes : UInt8 := 4

def msTag (field wire : UInt8) : UInt8 := (field <<< 3) ||| wire

/-- Put a tag and a value behind what is written, if they fit. -/
def msWriteTag (len : Nat) (tag : UInt8) (val buf : List UInt8) : Option (List UInt8) :=
  if buf.length + 1 + val.length > len then none else some (buf ++ tag :: val)

def msWriteTagU8 (len : Nat) (field val : UInt8) : List UInt8 → Option (List UInt8) :=
  msWriteTag len (msTag field msWire8) [val]

def msWriteTagU16 (len : Nat) (field : UInt8) (val : UInt16) : List UInt8 → Option (List UInt8) :=
  msWriteTag len (msTag field msWire16) (le16 val)

def msWriteTagU32 (len : Nat) (field : UInt8) (val : UInt32) : List UInt8 → Option (List UInt8) :=
  msWriteTag len (msTag field msWire32) (le32 val)

def msWriteTagBytes (len : Nat) (field : UInt8) (data : List UInt8) :
    List UInt8 → Option (List UInt8) :=
  msWriteTag len (msTag field msWireBytes) (le16 (UInt16.ofNat data.length) ++ data)

def msReadU8 (p : List UInt8) : Option (UInt8 × List UInt8) :=
  if p.length < 1 then none else some (p.getD 0 0, p.drop 1)

def msReadU32 (p : List UInt8) : Option (UInt32 × List UInt8) :=
  if p.length < 4 then none else some (getLe32 p, p.drop 4)

def msSkipBytes (n : Nat) (p : List UInt8) : Option (List UInt8) :=
  if p.length < n then none else some (p.drop n)

/-- Skip an unknown field by wire type. -/
def msSkip (wire : UInt8) (p : List UInt8) : Option (List UInt8) :=
  if wire ≤ 3 then msSkipBytes ([1, 2, 4, 8].getD wire.toNat 0) p
  else if wire = msWireBytes then
    if p.length < 2 then none else msSkipBytes (2 + (getLe16 p).toNat) p
  else none

/-- The first two bytes of a buffer are the length of the payload behind them. -/
def sealMsg (buf : List UInt8) : List UInt8 := le16 (UInt16.ofNat (buf.length - 2)) ++ buf.drop 2

def msgStart : List UInt8 := [0, 0]

/-- The loop of a generated decoder; `field` is its `switch`, for the tag and the payload
behind it.  Every turn consumes its tag. -/
def decodeLoop {α : Type} (field : α → UInt8 → List UInt8 → Option (α × List UInt8)) :
    Nat → α → List UInt8 → Option α
  | _, msg, [] => some msg
  | 0, _, _ :: _ => none
  | n + 1, msg, tag :: p =>
    match field msg tag p with
    | none => none
    | some (msg, p) => decodeLoop field n msg p

/-- A generated decoder begins with a message of zeros; the value it returns otherwise, the
length of what it decoded, is positive. -/
def decodeMsg {α : Type} (field : α → UInt8 → List UInt8 → Option (α × List UInt8)) (zero : α)
    (buf : List UInt8) : Option α :=
  if buf.length < 2 then none
  else
    let fin := (getLe16 buf).toNat + 2
    if fin > buf.length then none
    else decodeLoop field fin zero ((buf.take fin).drop 2)

structure PlayerInput where
  /-- input sequence number, newest wins -/
  seq : UInt32
  /-- twin-stick byte: low nibble move dir, high nibble fire dir -/
  input : UInt8
  deriving DecidableEq, Repr

def playerInputEncode (msg : PlayerInput) (len : Nat) : Option (List UInt8) := do
  let buf ← msWriteTagU32 len 1 msg.seq msgStart
  let buf ← msWriteTagU8 len 2 msg.input buf
  some (sealMsg buf)

def playerInputField (msg : PlayerInput) (tag : UInt8) (p : List UInt8) :
    Option (PlayerInput × List UInt8) :=
  match (tag >>> 3).toNat with
  | 1 => (msReadU32 p).map fun r => ({ msg with seq := r.1 }, r.2)
  | 2 => (msReadU8 p).map fun r => ({ msg with input := r.1 }, r.2)
  | _ => (msSkip (tag &&& 7) p).map fun p => (msg, p)

def playerInputDecode (buf : List UInt8) : Option PlayerInput :=
  decodeMsg playerInputField ⟨0, 0⟩ buf

structure Welcome where
  yourPlayer : UInt16
  seed : UInt16

def welcomeEncode (msg : Welcome) (len : Nat) : Option (List UInt8) := do
  let buf ← msWriteTagU16 len 1 msg.yourPlayer msgStart
  let buf ← msWriteTagU16 len 2 msg.seed buf
  some (sealMsg buf)

structure Snapshot where
  tick : UInt32
  state : List UInt8

def snapshotEncode (msg : Snapshot) (len : Nat) : Option (List UInt8) := do
  let buf ← msWriteTagU32 len 1 msg.tick msgStart
  let buf ← msWriteTagBytes len 2 msg.state buf
  some (sealMsg buf)

def packPlayer (p : Player) : List UInt8 :=
  [p.x, p.y, p.facing, p.alive, p.hp, p.score.toUInt8, (p.score >>> 8).toUInt8]

def packCreature (c : Creature) : List UInt8 := [c.x, c.y, c.kind, c.alive]

def packShot (s : Shot) : List UInt8 := [s.x, s.y, s.dir, s.alive, s.owner, s.ttl]

/-- `gw_pack`; the buffer of the server has the size it needs. -/
def gwPack (w : World) : List UInt8 :=
  (List.range maxPlayers).flatMap (fun i => packPlayer (w.players i)) ++
    (List.range maxCreatures).flatMap (fun i => packCreature (w.creatures i)) ++
    (List.range maxShots).flatMap (fun i => packShot (w.shots i))

theorem getLe16_le16 (v : UInt16) (rest : List UInt8) : getLe16 (le16 v ++ rest) = v := by
  have hv := v.toNat_lt
  rw [← UInt16.toNat_inj]
  simp only [getLe16, le16, List.cons_append, List.nil_append, List.getD_cons_zero,
    List.getD_cons_succ, UInt8.toNat_ofNat', UInt16.toNat_ofNat']
  omega

theorem getLe32_le32 (v : UInt32) (rest : List UInt8) : getLe32 (le32 v ++ rest) = v := by
  have hv := v.toNat_lt
  rw [← UInt32.toNat_inj]
  simp only [getLe32, le32, List.cons_append, List.nil_append, List.getD_cons_zero,
    List.getD_cons_succ, UInt8.toNat_ofNat', UInt32.toNat_ofNat']
  omega

/-- The nine bytes of a message. -/
def playerInputBytes (msg : PlayerInput) : List UInt8 :=
  le16 7 ++ (0x0A :: (le32 msg.seq ++ [0x10, msg.input]))

theorem playerInputEncode_eq (msg : PlayerInput) {len : Nat} (hlen : 9 ≤ len) :
    playerInputEncode msg len = some (playerInputBytes msg) := by
  have hseq : msWriteTagU32 len 1 msg.seq msgStart =
      some (msgStart ++ 0x0A :: le32 msg.seq) := by
    apply if_neg
    show ¬2 + 1 + 4 > len
    omega
  have hinput : msWriteTagU8 len 2 msg.input (msgStart ++ 0x0A :: le32 msg.seq) =
      some (msgStart ++ 0x0A :: le32 msg.seq ++ [0x10, msg.input]) := by
    apply if_neg
    show ¬7 + 1 + 1 > len
    omega
  rw [playerInputEncode, hseq, Option.bind_eq_bind, Option.bind_some, hinput, Option.bind_some]
  rfl

theorem decodeLoop_cons {α : Type} {field : α → UInt8 → List UInt8 → Option (α × List UInt8)}
    {msg msg' : α} {tag : UInt8} {p p' : List UInt8} (n : Nat)
    (h : field msg tag p = some (msg', p')) :
    decodeLoop field (n + 1) msg (tag :: p) = decodeLoop field n msg' p' := by
  rw [decodeLoop, h]

/-- A field of a payload: one that the decoder knows, or the tag and the value of another. -/
inductive InputField
  | seq (v : UInt32)
  | input (v : UInt8)
  | unknown (tag : UInt8) (val : List UInt8)

def InputField.bytes : InputField → List UInt8
  | seq v => msTag 1 msWire32 :: le32 v
  | input v => [msTag 2 msWire8, v]
  | unknown tag val => tag :: val

/-- The values of a wire type: 1, 2, 4 or 8 bytes, or a length and that many bytes. -/
inductive WireValue : UInt8 → List UInt8 → Prop
  | byte (a : UInt8) : WireValue 0 [a]
  | half {val : List UInt8} (hlen : val.length = 2) : WireValue 1 val
  | word {val : List UInt8} (hlen : val.length = 4) : WireValue 2 val
  | long {val : List UInt8} (hlen : val.length = 8) : WireValue 3 val
  | bytes (data : List UInt8) (hlen : data.length < 2 ^ 16) :
      WireValue 4 (le16 (UInt16.ofNat data.length) ++ data)

/-- The value of an unknown field is one of its wire type. -/
def InputField.Ok : InputField → Prop
  | unknown tag val =>
    (tag >>> 3).toNat ≠ 1 ∧ (tag >>> 3).toNat ≠ 2 ∧ WireValue (tag &&& 7) val
  | _ => True

def InputField.set (msg : PlayerInput) : InputField → PlayerInput
  | seq v => { msg with seq := v }
  | input v => { msg with input := v }
  | unknown _ _ => msg

theorem msSkipBytes_append (val : List UInt8) {n : Nat} (hlen : val.length = n)
    (rest : List UInt8) : msSkipBytes n (val ++ rest) = some rest := by
  rw [msSkipBytes, if_neg (by rw [List.length_append]; omega), List.drop_left' hlen]

theorem msSkip_value {wire : UInt8} {val : List UInt8} (h : WireValue wire val)
    (rest : List UInt8) : msSkip wire (val ++ rest) = some rest := by
  cases h with
  | byte a => exact msSkipBytes_append [a] rfl rest
  | half hlen => exact msSkipBytes_append _ hlen rest
  | word hlen => exact msSkipBytes_append _ hlen rest
  | long hlen => exact msSkipBytes_append _ hlen rest
  | bytes data hlen =>
    have hhead := UInt16.toNat_ofNat_of_lt' hlen
    have hlength : (le16 (UInt16.ofNat data.length) ++ data).length = 2 + data.length := by
      rw [List.length_append]
      rfl
    rw [msSkip, if_neg (by decide), if_pos (by decide), if_neg (by
      rw [List.length_append, hlength]
      omega), List.append_assoc, getLe16_le16, hhead, ← List.append_assoc]
    exact msSkipBytes_append _ hlength rest

theorem InputField.decoded (f : InputField) (hf : f.Ok) (msg : PlayerInput) (rest : List UInt8) :
    ∃ tag p, f.bytes = tag :: p ∧
      playerInputField msg tag (p ++ rest) = some (f.set msg, rest) := by
  cases f with
  | seq v =>
    refine ⟨_, _, rfl, ?_⟩
    show some (({ msg with seq := getLe32 (le32 v ++ rest) } : PlayerInput), _) = _
    rw [getLe32_le32]
    rfl
  | input v => exact ⟨_, _, rfl, rfl⟩
  | unknown tag val =>
    obtain ⟨h1, h2, hskip⟩ := hf
    refine ⟨_, _, rfl, ?_⟩
    unfold playerInputField
    split
    case h_1 h => exact absurd h h1
    case h_2 h => exact absurd h h2
    case h_3 => rw [msSkip_value hskip rest]; rfl

theorem decodeLoop_fields (fs : List InputField) (hok : ∀ f ∈ fs, f.Ok) (n : Nat)
    (msg : PlayerInput) (hn : (fs.flatMap InputField.bytes).length ≤ n) :
    decodeLoop playerInputField n msg (fs.flatMap InputField.bytes) =
      some (fs.foldl InputField.set msg) := by
  induction fs generalizing n msg with
  | nil => cases n <;> rfl
  | cons f fs ih =>
    obtain ⟨tag, p, hbytes, hfield⟩ := f.decoded (hok f List.mem_cons_self) msg
      (fs.flatMap InputField.bytes)
    rw [List.flatMap_cons, hbytes, List.cons_append] at hn ⊢
    rw [List.length_cons, List.length_append] at hn
    obtain ⟨n, rfl⟩ : ∃ m, n = m + 1 := ⟨n - 1, by omega⟩
    rw [decodeLoop_cons n hfield, List.foldl_cons]
    exact ih (fun f hf => hok f (List.mem_cons_of_mem _ hf)) n _ (by omega)

/-- A message of these fields, behind its length. -/
def fieldsMsg (fs : List InputField) : List UInt8 :=
  le16 (UInt16.ofNat (fs.flatMap InputField.bytes).length) ++ fs.flatMap InputField.bytes

theorem playerInputDecode_fields (fs : List InputField) (rest : List UInt8)
    (hok : ∀ f ∈ fs, f.Ok) (hlen : (fs.flatMap InputField.bytes).length < 2 ^ 16) :
    playerInputDecode (fieldsMsg fs ++ rest) = some (fs.foldl InputField.set ⟨0, 0⟩) := by
  have hhead := UInt16.toNat_ofNat_of_lt' hlen
  rw [fieldsMsg, List.append_assoc, playerInputDecode, decodeMsg, getLe16_le16, hhead]
  generalize hp : fs.flatMap InputField.bytes = p at *
  have hshort : (le16 (UInt16.ofNat p.length) ++ (p ++ rest)).length =
      2 + (p.length + rest.length) := by
    rw [List.length_append, List.length_append]
    rfl
  have hend : (le16 (UInt16.ofNat p.length) ++ p).length = p.length + 2 := rfl
  rw [if_neg (by omega)]
  dsimp only
  rw [if_neg (by omega), ← List.append_assoc, List.take_left' hend]
  change decodeLoop playerInputField _ _ p = _
  rw [← hp]
  exact decodeLoop_fields fs hok _ _ (by rw [hp]; omega)

theorem playerInputDecode_bytes (msg : PlayerInput) (rest : List UInt8) :
    playerInputDecode (playerInputBytes msg ++ rest) = some msg := by
  refine playerInputDecode_fields [.seq msg.seq, .input msg.input] rest (fun f hf => ?_)
    (show 7 < 2 ^ 16 by decide)
  simp only [List.mem_cons, List.not_mem_nil, or_false] at hf
  rcases hf with rfl | rfl
  · trivial
  · trivial

/-- The encoder writes the two fields if they fit.  The decoder takes the fields in any order and
number, the last of a kind counts, and it gets over those that it does not know; what stands
behind the message is not read. -/
theorem playerInput_codec :
    (∀ msg len, playerInputEncode msg len =
      if 9 ≤ len then some (fieldsMsg [.seq msg.seq, .input msg.input]) else none) ∧
    ∀ fs rest, (∀ f ∈ fs, f.Ok) → (fs.flatMap InputField.bytes).length < 2 ^ 16 →
      playerInputDecode (fieldsMsg fs ++ rest) = some (fs.foldl InputField.set ⟨0, 0⟩) := by
  refine ⟨fun msg len => ?_, playerInputDecode_fields⟩
  split
  case isTrue hlen => exact playerInputEncode_eq msg hlen
  case isFalse hlen =>
      rw [playerInputEncode, msWriteTagU32, msWriteTag]
      split
      case isTrue => rfl
      case isFalse =>
          have hinput (buf : List UInt8) (hbuf : buf.length = 7) :
              msWriteTagU8 len 2 msg.input buf = none :=
            if_pos (by rw [hbuf, List.length_singleton]; omega)
          rw [Option.bind_eq_bind, Option.bind_some, hinput _ rfl]
          rfl

/-- The second sequence number counts; the fields three and four are not known. -/
theorem playerInput_codec_swapped :
    playerInputDecode (fieldsMsg [.seq 1, .unknown 0x24 [2, 0, 7, 7], .input 0x52,
      .unknown 0x1A [0, 0, 0, 7], .seq 2] ++ [9]) = some ⟨2, 0x52⟩ := by
  refine playerInput_codec.2 _ _ (fun f hf => ?_) (by decide)
  simp only [List.mem_cons, List.not_mem_nil, or_false] at hf
  rcases hf with rfl | rfl | rfl | rfl | rfl
  · trivial
  · exact ⟨by decide, by decide, .bytes [7, 7] (by decide)⟩
  · trivial
  · exact ⟨by decide, by decide, .word rfl⟩
  · trivial

end MechanicalResearcher.NetchanV2
