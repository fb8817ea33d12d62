import MechanicalResearcher.NetchanV2.Events

/-!
# What a write leaves behind

`netchan_chan_write` counts fragments in eight bits, and counts them after it took a sequence
number.  It is all-or-nothing on the messages of at most `NC_MAX_FRAGS` fragments, and on those
that it refuses before.
-/

namespace MechanicalResearcher.NetchanV2

open Lib Lib.Serial

section Writing

variable {s : Core} {k : Nat} {data : List UInt8}

/-- An application sees no difference between `s` and `s'`: the send half of the channel, the
buffers that are free and the other channels are as they were. -/
structure SameSend (k : Nat) (s s' : Core) : Prop where
  sendSeq : (s'.chanPool k).sendSeq = (s.chanPool k).sendSeq
  head : (s'.chanPool k).outHead = (s.chanPool k).outHead
  tail : (s'.chanPool k).outTail = (s.chanPool k).outTail
  slot : ∀ i, (s.chanPool k).outgoing i ≠ (s'.chanPool k).outgoing i →
    ((s.chanPool k).outgoing i).active = false ∧ ((s'.chanPool k).outgoing i).active = false
  bytesInFlight : (s'.chanPool k).bytesInFlight = (s.chanPool k).bytesInFlight
  msgsSent : (s'.chanPool k).msgsSent = (s.chanPool k).msgsSent
  freeTop : s'.poolFreeTop = s.poolFreeTop
  free : ∀ i < s.poolFreeTop, s'.poolFree i = s.poolFree i
  others : ∀ j ≠ k, s'.chanPool j = s.chanPool j

/-- The message is in the ring under the next sequence number, with fragments for all of it. -/
structure StoredWhole (k : Nat) (data : List UInt8) (s s' : Core) : Prop where
  active : ((s'.chanPool k).outgoing (s.chanPool k).outTail).active = true
  seq : ((s'.chanPool k).outgoing (s.chanPool k).outTail).seq = (s.chanPool k).sendSeq
  sendSeq : (s'.chanPool k).sendSeq = (s.chanPool k).sendSeq + 1
  tail : (s'.chanPool k).outTail = ((s.chanPool k).outTail + 1) % ncOutgoingSlots
  len : ((s'.chanPool k).outgoing (s.chanPool k).outTail).len = data.length
  bytes : ∃ b, ((s'.chanPool k).outgoing (s.chanPool k).outTail).buf = some b ∧
    s'.bytes (poolPtr (some b)) data.length = data
  few : ((s'.chanPool k).outgoing (s.chanPool k).outTail).fragTotal ≤ ncMaxFrags
  enough : data.length ≤
    ((s'.chanPool k).outgoing (s.chanPool k).outTail).fragTotal * maxFragPayload s.cfg

/-- Either the whole message is accepted, or nothing of it. -/
def AllOrNothing (s : Core) (k : Nat) (data : List UInt8) : Prop :=
  ((chanWrite s k data).2 = .ok data.length ∧ 0 < data.length ∧
      StoredWhole k data s (chanWrite s k data).1) ∨
    (((chanWrite s k data).2 = .ok 0 ∨ ∃ e, (chanWrite s k data).2 = .error e) ∧
      SameSend k s (chanWrite s k data).1)

theorem SameSend.refl (k : Nat) (s : Core) : SameSend k s s :=
  ⟨rfl, rfl, rfl, fun _ hne => absurd rfl hne, rfl, rfl, rfl, fun _ _ => rfl, fun _ _ => rfl⟩

theorem maxFragPayload_pos {cfg : Cfg} (hmtu : 16 ≤ cfg.mtu.toNat) : 0 < maxFragPayload cfg := by
  have hlt := UInt32.toNat_lt cfg.mtu
  rw [maxFragPayload, UInt32.toNat_sub, UInt32.toNat_sub]
  have h7 : (7 : UInt32).toNat = 7 := rfl
  have h8 : (8 : UInt32).toNat = 8 := rfl
  rw [h7, h8]
  omega

/-- The number of fragments that `len` bytes need. -/
def fragsNeeded (cfg : Cfg) (len : Nat) : Nat :=
  (len + maxFragPayload cfg - 1) / maxFragPayload cfg

theorem fragsNeeded_le_iff {cfg : Cfg} (hfp : 0 < maxFragPayload cfg) (len n : Nat) :
    fragsNeeded cfg len ≤ n ↔ len ≤ n * maxFragPayload cfg := by
  rw [fragsNeeded, Nat.div_le_iff_le_mul_add_pred hfp, Nat.mul_comm]
  omega

theorem fragCount_eq {cfg : Cfg} (hfp : 0 < maxFragPayload cfg) {len : Nat} (hlen : 0 < len)
    (hneed : fragsNeeded cfg len ≤ ncMaxFrags) : fragCount cfg len = fragsNeeded cfg len := by
  have hpos : 0 < fragsNeeded cfg len := Nat.div_pos (by omega) hfp
  have hmod : fragsNeeded cfg len % 256 = fragsNeeded cfg len :=
    Nat.mod_eq_of_lt (lt_of_le_of_lt hneed (by decide))
  rw [fragCount, ← fragsNeeded, hmod, if_neg (by omega)]

theorem accepted_storedWhole_iff {c : Nat} (hfew : c ≤ ncMaxFrags) :
    StoredWhole k data s ((s.takeInto k data fun b ch => ch.queued b data.length c).mark
      (.write k data)) ↔ data.length ≤ c * maxFragPayload s.cfg := by
  have hchan : (((s.takeInto k data fun b ch => ch.queued b data.length c).mark
      (.write k data)).chanPool k) =
      (s.chanPool k).queued (s.poolFree (s.poolFreeTop - 1)) data.length c :=
    Function.update_self ..
  have hslot : (((s.takeInto k data fun b ch => ch.queued b data.length c).mark
      (.write k data)).chanPool k).outgoing (s.chanPool k).outTail =
      ⟨(s.chanPool k).sendSeq, some (s.poolFree (s.poolFreeTop - 1)), data.length, 0, 0, 0, c,
        true⟩ := by
    rw [hchan]
    exact Function.update_self ..
  refine ⟨fun h => ?_, fun henough => ?_⟩
  · have h' := h.enough
    rw [hslot] at h'
    exact h'
  · refine ⟨by rw [hslot], by rw [hslot], by rw [hchan]; rfl, by rw [hchan]; rfl, by rw [hslot],
      ⟨s.poolFree (s.poolFreeTop - 1), by rw [hslot], Memory.read_write_self _ _ _⟩,
      by rw [hslot]; exact hfew, by rw [hslot]; exact henough⟩

theorem add_one_ne_self (n : UInt16) : n + 1 ≠ n := by
  intro heq
  have hnat := congrArg UInt16.toNat heq
  have hlt := UInt16.toNat_lt n
  rw [UInt16.toNat_add, UInt16.toNat_one] at hnat
  omega

/-- Exactly the messages of too many fragments are neither stored whole nor left alone: such a
message is refused and keeps its number, or it is accepted with too few fragments. -/
theorem write_allOrNothing_iff (s : Core) (k : Nat) (data : List UInt8)
    (hmtu : 16 ≤ s.cfg.mtu.toNat) :
    AllOrNothing s k data ↔
      (CanWrite s k data → data.length ≤ ncMaxFrags * maxFragPayload s.cfg) := by
  have hfp := maxFragPayload_pos hmtu
  by_cases hcan : CanWrite s k data
  · have hpos : 0 < data.length := hcan.2.2.1
    rw [forall_prop_of_true hcan, ← fragsNeeded_le_iff hfp]
    rcases chanWrite_taken hcan with ⟨hmany, heq⟩ | ⟨hfew, heq⟩
    · -- refused, and the number stays used
      refine iff_of_false ?_ fun hneed => ?_
      · rintro (⟨hok, -⟩ | ⟨-, hsame⟩)
        · rw [heq] at hok
          cases hok
        · have hseq := hsame.sendSeq
          rw [heq] at hseq
          simp only [Function.update_self, Chan.spoiled] at hseq
          exact add_one_ne_self _ hseq
      · rw [fragCount_eq hfp hpos hneed] at hmany
        omega
    · have hwhole : AllOrNothing s k data ↔
          data.length ≤ fragCount s.cfg data.length * maxFragPayload s.cfg := by
        rw [← accepted_storedWhole_iff hfew, AllOrNothing, heq]
        refine ⟨?_, fun h => .inl ⟨rfl, hpos, h⟩⟩
        rintro (⟨-, -, hstored⟩ | ⟨hzero | ⟨e, herr⟩, -⟩)
        · exact hstored
        · exact absurd (Except.ok.inj hzero) (Nat.ne_of_gt hpos)
        · cases herr
      rw [hwhole, ← fragsNeeded_le_iff hfp]
      refine ⟨fun h => h.trans hfew, fun hneed => ?_⟩
      rw [fragCount_eq hfp hpos hneed]
  · obtain ⟨r, heq, hr⟩ := chanWrite_refused hcan
    refine iff_of_true (.inr ?_) fun h => absurd h hcan
    rw [heq]
    exact ⟨hr, .refl k s⟩

end Writing

/-- A server with packets of 16 bytes that opened a channel to send on. -/
def narrowServer : Conn :=
  (netchanOpen true { netchanCfgDefault with mtu := 16 }).run
    (serverUp ++ [.chanOpen netchanReliable netchanDirSend none])

/-- A message of one fragment on it. -/
theorem write_one_byte : AllOrNothing narrowServer.toCore 0 [7] :=
  (write_allOrNothing_iff narrowServer.toCore 0 [7] (by decide +kernel)).2 fun _ => by
    decide +kernel

/-- A message of 33 fragments is refused, and its sequence number is gone. -/
theorem write_33_bytes : ¬AllOrNothing narrowServer.toCore 0 (List.replicate 33 7) := by
  rintro (⟨hok, -⟩ | ⟨-, hsame⟩)
  · exact absurd hok (by decide +kernel)
  · exact absurd hsame.sendSeq (by decide +kernel)

end MechanicalResearcher.NetchanV2
