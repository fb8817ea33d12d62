import Mathlib.Algebra.Order.Ring.Abs
import MechanicalResearcher.TritonAudio.Visits

/-!
# Mixing in pieces

Nothing that a call of `triton_audio_mix` keeps for itself matters to the next one, so frames may
be mixed in calls of any length.  The accumulators of a frame fit an `int32_t` with all sixteen
channels at full scale.
-/

namespace MechanicalResearcher.TritonAudio

section

variable (au : Audio)

theorem mixLoop_add (globalEn : Bool) (masterL masterR : Byte) (n m : Nat) (au : Audio) :
    mixLoop globalEn masterL masterR (n + m) au =
      let (au', out) := mixLoop globalEn masterL masterR n au
      let (au'', out') := mixLoop globalEn masterL masterR m au'
      (au'', out ++ out') := by
  induction n generalizing au with
  | zero =>
    rw [Nat.zero_add]
    rfl
  | succ n ih =>
    rw [Nat.succ_add]
    let frame := mixFrame au globalEn masterL masterR
    exact congrArg (fun r : Audio × List (Half × Half) => (r.1, frame.2 :: r.2)) (ih frame.1)

theorem tritonAudioMix_second (n m : Nat) :
    tritonAudioMix (tritonAudioMix au n).1 m =
      mixLoop (globalEnable au) (au.regs audioMasterVolL) (au.regs audioMasterVolR) m
        (tritonAudioMix au n).1 := by
  have hregs := (tritonAudioMix_fixed au n).regs
  have hen : globalEnable (tritonAudioMix au n).1 = globalEnable au := by
    rw [globalEnable, hregs, globalEnable]
  rw [tritonAudioMix, hen, hregs]

theorem tritonAudioMix_add (n m : Nat) :
    tritonAudioMix au (n + m) =
      let (au', out) := tritonAudioMix au n
      let (au'', out') := tritonAudioMix au' m
      (au'', out ++ out') := by
  change _ = ((tritonAudioMix (tritonAudioMix au n).1 m).1,
    (tritonAudioMix au n).2 ++ (tritonAudioMix (tritonAudioMix au n).1 m).2)
  rw [tritonAudioMix_second, tritonAudioMix, mixLoop_add]
  rfl

end

/-- What an `int32_t` holds. -/
def FitsInt32 (v : Int) : Prop := -2 ^ 31 ≤ v ∧ v < 2 ^ 31

theorem abs_mul_byte_le {v bound : Int} (hv : |v| ≤ bound) (vol : Byte) :
    |v * vol.toNat| ≤ bound * 255 := by
  have hvol : |(vol.toNat : Int)| ≤ 255 := by
    have hlt := vol.isLt
    rw [Nat.abs_cast]
    omega
  rw [abs_mul]
  exact mul_le_mul hv hvol (abs_nonneg _) ((abs_nonneg v).trans hv)

theorem abs_scaled_le (sample : Half) (vol : Byte) :
    |(sample.toInt * vol.toNat) >>> (8 : Nat)| ≤ 32640 := by
  have hsample : |sample.toInt| ≤ 32768 := by
    have hlow := sample.le_toInt
    have hhigh := sample.toInt_lt
    rw [abs_le]
    omega
  have hprod := abs_le.mp (abs_mul_byte_le hsample vol)
  rw [Int.shiftRight_eq_div_pow, abs_le]
  omega

section

variable {au : Audio} {left right : Int}

variable (au) in
theorem abs_mixChannel_le (c : Fin audioNumChannels) {bound : Int} (hleft : |left| ≤ bound)
    (hright : |right| ≤ bound) :
    |(mixChannel (au, left, right) c).2.1| ≤ bound + 32640 ∧
      |(mixChannel (au, left, right) c).2.2| ≤ bound + 32640 := by
  unfold mixChannel
  dsimp only
  split_ifs
  · exact ⟨hleft.trans (by omega), hright.trans (by omega)⟩
  · exact ⟨hleft.trans (by omega), hright.trans (by omega)⟩
  · exact ⟨(abs_add_le ..).trans (add_le_add hleft (abs_scaled_le ..)),
      (abs_add_le ..).trans (add_le_add hright (abs_scaled_le ..))⟩
  · exact ⟨(abs_add_le ..).trans (add_le_add hleft (abs_scaled_le ..)),
      (abs_add_le ..).trans (add_le_add hright (abs_scaled_le ..))⟩

variable (au) in
theorem abs_foldl_mixChannel_le (cs : List (Fin audioNumChannels)) {bound : Int}
    (hleft : |left| ≤ bound) (hright : |right| ≤ bound) :
    |(cs.foldl mixChannel (au, left, right)).2.1| ≤ bound + 32640 * cs.length ∧
      |(cs.foldl mixChannel (au, left, right)).2.2| ≤ bound + 32640 * cs.length := by
  induction cs generalizing au left right bound with
  | nil => simpa using ⟨hleft, hright⟩
  | cons c cs ih =>
    have hstep := abs_mixChannel_le au c hleft hright
    have hrest := ih (mixChannel (au, left, right) c).1 hstep.1 hstep.2
    have hlen : bound + 32640 * ((c :: cs).length : Int) =
        bound + 32640 + 32640 * (cs.length : Int) := by
      rw [List.length_cons]
      omega
    rw [List.foldl_cons, hlen]
    exact hrest

end

/-- The two accumulators of frame `f` before channel `k`, after the last one for `k = 16`. -/
def accumulators (au : Audio) (f k : Nat) : Int × Int :=
  (((List.finRange audioNumChannels).take k).foldl mixChannel ((tritonAudioMix au f).1, 0, 0)).2

theorem abs_accumulators_le (au : Audio) (f k : Nat) :
    |(accumulators au f k).1| ≤ 522240 ∧ |(accumulators au f k).2| ≤ 522240 := by
  have hfold := abs_foldl_mixChannel_le (tritonAudioMix au f).1
    ((List.finRange audioNumChannels).take k) abs_zero.le abs_zero.le
  have hlen : ((List.finRange audioNumChannels).take k).length ≤ 16 := by
    rw [List.length_take, List.length_finRange]
    exact Nat.min_le_right ..
  exact ⟨hfold.1.trans (by omega), hfold.2.trans (by omega)⟩

theorem fits_of_abs_le {v : Int} (h : |v| ≤ 522240) (master : Byte) :
    FitsInt32 v ∧ FitsInt32 (v * master.toNat) := by
  have hprod := abs_le.mp (abs_mul_byte_le h master)
  have hv := abs_le.mp h
  constructor
  · rw [FitsInt32]
    omega
  · rw [FitsInt32]
    omega

/-- The index is one of the step table. -/
def AdpcmOk (au : Audio) : Prop :=
  ∀ c, 0 ≤ (au.chan c).adpcmIndex ∧ (au.chan c).adpcmIndex ≤ 88

theorem confine_range (lo hi : Int) (h : lo ≤ hi) (v : Int) :
    lo ≤ confine lo hi v ∧ confine lo hi v ≤ hi := by
  unfold confine
  split_ifs <;> omega

/-- How far a nibble is to move the predictor. -/
def adpcmDiff (ch : Chan) (nibble : Byte) : Int :=
  let step := imaStepTable.getD ch.adpcmIndex.toNat 0
  let diff := step >>> (3 : Nat)
  let diff := if nibble.getLsbD 0 then diff + step >>> (2 : Nat) else diff
  let diff := if nibble.getLsbD 1 then diff + step >>> (1 : Nat) else diff
  let diff := if nibble.getLsbD 2 then diff + step else diff
  if nibble.getLsbD 3 then -diff else diff

theorem adpcmDecodeNibble_pred (ch : Chan) (nibble : Byte) :
    (adpcmDecodeNibble ch nibble).adpcmPred.toInt =
      confine (-32768) 32767 (ch.adpcmPred.toInt + adpcmDiff ch nibble) := by
  have hrange := confine_range (-32768) 32767 (by decide)
    (ch.adpcmPred.toInt + adpcmDiff ch nibble)
  change (BitVec.ofInt 16 (confine (-32768) 32767 (ch.adpcmPred.toInt + adpcmDiff ch nibble))).toInt
    = _
  exact BitVec.toInt_ofInt_eq_self (by decide) hrange.1 (by omega)

theorem adpcmDecodeNibble_index (ch : Chan) (nibble : Byte) :
    0 ≤ (adpcmDecodeNibble ch nibble).adpcmIndex ∧
      (adpcmDecodeNibble ch nibble).adpcmIndex ≤ 88 :=
  confine_range _ _ (by decide) _

section

variable {au : Audio} (c : Fin audioNumChannels)

theorem AdpcmOk.setChan (h : AdpcmOk au) {ch : Chan}
    (hch : 0 ≤ ch.adpcmIndex ∧ ch.adpcmIndex ≤ 88) : AdpcmOk (au.setChan c ch) := by
  intro i
  by_cases hi : i = c
  · rw [hi, Audio.chan_setChan]
    exact hch
  · rw [Audio.chan_setChan_of_ne au hi]
    exact h i

theorem AdpcmOk.decodeNext (h : AdpcmOk au) :
    0 ≤ (decodeNext au c).adpcmIndex ∧ (decodeNext au c).adpcmIndex ≤ 88 := by
  unfold TritonAudio.decodeNext
  dsimp only
  split_ifs
  · exact adpcmDecodeNibble_index ..
  · exact h c
  · exact h c

theorem AdpcmOk.advanceOne (h : AdpcmOk au) : AdpcmOk (advanceOne au c).1 := by
  have hch := h.decodeNext c
  unfold TritonAudio.advanceOne
  dsimp only
  split_ifs
  · exact h.setChan c hch
  · exact h.setChan c hch
  · exact h.setChan c hch

theorem AdpcmOk.advanceChannel (h : AdpcmOk au) (steps : Nat) :
    AdpcmOk (advanceChannel c au steps).1 := by
  induction steps generalizing au with
  | zero => exact h
  | succ steps ih =>
    rw [TritonAudio.advanceChannel]
    dsimp only
    split_ifs
    · exact h.advanceOne c
    · exact ih (h.advanceOne c)

theorem AdpcmOk.stepFrac (h : AdpcmOk au) : AdpcmOk (stepFrac au c) := h.setChan c (h c)

theorem AdpcmOk.channelTurn (h : AdpcmOk au) : AdpcmOk (channelTurn au c) := by
  rw [channelTurn_eq]
  split_ifs
  · exact (h.stepFrac c).advanceChannel c _
  · exact h

theorem AdpcmOk.channelTurns (h : AdpcmOk au) (cs : List (Fin audioNumChannels)) :
    AdpcmOk (cs.foldl TritonAudio.channelTurn au) := by
  induction cs generalizing au with
  | nil => exact h
  | cons c cs ih => exact ih (h.channelTurn c)

theorem AdpcmOk.frameTurn (au0 : Audio) (h : AdpcmOk au) : AdpcmOk (frameTurn au0 au) := by
  unfold TritonAudio.frameTurn mixFrame
  dsimp only
  split_ifs
  · rw [foldl_mixChannel_fst]
    exact h.channelTurns _
  · exact h

theorem AdpcmOk.mix (h : AdpcmOk au) (n : Nat) : AdpcmOk (tritonAudioMix au n).1 := by
  have hiterate : ∀ au', AdpcmOk au' → AdpcmOk ((TritonAudio.frameTurn au)^[n] au') := by
    induction n with
    | zero => exact fun _ h' => h'
    | succ n ih => exact fun au' h' => ih _ (h'.frameTurn au)
  rw [tritonAudioMix_fst]
  exact hiterate au h

/-! ### The bus leaves the index in range -/

theorem adpcmOk_init (ram : Nat → Byte) (ramSize : Word) : AdpcmOk (tritonAudioInit ram ramSize) :=
  fun _ => ⟨Int.le_refl 0, Int.zero_le_ofNat 88⟩

theorem AdpcmOk.write (h : AdpcmOk au) (offset val : Word) :
    AdpcmOk (tritonAudioWrite au offset val) := by
  unfold tritonAudioWrite
  dsimp only
  split_ifs
  · exact h
  · exact h
  · exact @AdpcmOk.setChan (au.setReg _ _) _ h _ ⟨Int.le_refl 0, Int.zero_le_ofNat 88⟩
  · exact h
  · exact h

theorem AdpcmOk.read (h : AdpcmOk au) (offset : Word) :
    AdpcmOk (tritonAudioRead au offset).2 := by
  unfold tritonAudioRead
  dsimp only
  split_ifs
  · exact h
  · exact h.setChan _ (h _)
  · exact h
  · exact h
  · exact h

theorem AdpcmOk.checkIrq (h : AdpcmOk au) : AdpcmOk (tritonAudioCheckIrq au).1 := by
  unfold tritonAudioCheckIrq
  dsimp only
  split_ifs <;> exact h

theorem Reachable.adpcmOk (h : Reachable au) : AdpcmOk au := by
  induction h with
  | init ram ramSize => exact adpcmOk_init ram ramSize
  | write _ offset val ih => exact ih.write offset val
  | read _ offset ih => exact ih.read offset
  | store _ _ ih => exact ih
  | mix _ n ih => exact ih.mix n
  | checkIrq _ ih => exact ih.checkIrq

end

/-- The state in the turn of channel `c` in frame `f`, after `j` of its samples. -/
def duringTurn (au : Audio) (c : Fin audioNumChannels) (f j : Nat) : Audio :=
  (advanceChannel c (stepFrac (beforeTurn au c f) c) j).1

/-- Frames may be mixed in calls of any length, nothing overflows, and the ADPCM decoder stays
in its tables. -/
theorem tritonAudioMix_chunks (au : Audio) (n m : Nat) :
    (tritonAudioMix au (n + m) =
      let (au', out) := tritonAudioMix au n
      let (au'', out') := tritonAudioMix au' m
      (au'', out ++ out')) ∧
    (∀ f k, FitsInt32 (accumulators au f k).1 ∧ FitsInt32 (accumulators au f k).2 ∧
      FitsInt32 ((accumulators au f k).1 * (au.regs audioMasterVolL).toNat) ∧
      FitsInt32 ((accumulators au f k).2 * (au.regs audioMasterVolR).toNat)) ∧
    (AdpcmOk au → ∀ f c j, AdpcmOk (duringTurn au c f j)) ∧
    (Reachable au → ∀ f c j, AdpcmOk (duringTurn au c f j)) ∧
    ∀ ch nibble, (adpcmDecodeNibble ch nibble).adpcmPred.toInt =
      confine (-32768) 32767 (ch.adpcmPred.toInt + adpcmDiff ch nibble) := by
  have hturn : AdpcmOk au → ∀ f c j, AdpcmOk (duringTurn au c f j) := fun h f c j =>
    (((h.mix f).channelTurns _).stepFrac c).advanceChannel c j
  refine ⟨tritonAudioMix_add au n m, fun f k => ?_, hturn, fun h => hturn h.adpcmOk,
    adpcmDecodeNibble_pred⟩
  have hacc := abs_accumulators_le au f k
  have hleft := fits_of_abs_le hacc.1 (au.regs audioMasterVolL)
  have hright := fits_of_abs_le hacc.2 (au.regs audioMasterVolR)
  exact ⟨hleft.1, hright.1, hleft.2, hright.2⟩

end MechanicalResearcher.TritonAudio
