import Mathlib.Data.List.Iterate
import MechanicalResearcher.TritonAudio.SampleFetch

/-!
# The positions that a channel takes

A channel is advanced sample by sample, in its turns of the frames.  The states behind these
samples are listed beside the loops of the code; what they show of the channel is one function
iterated, whatever the frames and the other channels are.
-/

namespace MechanicalResearcher.TritonAudio

/-- The state behind a sample, and whether the end or the loop was hit there. -/
abbrev Visit := Audio × Bool

section

variable (au : Audio) (c : Fin audioNumChannels)

def advanceChannelVisits (au : Audio) : Nat → List Visit
  | 0 => []
  | steps + 1 =>
    ((advanceOne au c).1, (advanceOne au c).2.1) ::
      if (advanceOne au c).2.2 then [] else advanceChannelVisits (advanceOne au c).1 steps

/-- The fraction of the position with the frequency added. -/
def fracSum : Word := (au.chan c).frac + (frequency au c).zeroExtend 32

/-- The state from which the channel advances in its turn. -/
def stepFrac : Audio := au.setChan c { au.chan c with frac := fracSum au c &&& 0xFF }

def stepCount : Nat := (fracSum au c >>> 8).toNat

/-- The channel is played at all. -/
def Sounds : Prop :=
  (au.chan c).status &&& achanStatPlaying ≠ 0 ∧ control au c &&& achanCtrlEnable ≠ 0

instance : Decidable (Sounds au c) := inferInstanceAs (Decidable (_ ∧ _))

def turnVisits : List Visit :=
  if Sounds au c then advanceChannelVisits c (stepFrac au c) (stepCount au c) else []

/-- The samples of channel `c` in `n` frames. -/
def visits (n : Nat) : List Visit :=
  (List.range n).flatMap fun f =>
    if globalEnable au then turnVisits (beforeTurn au c f) c else []

/-! ## A turn -/

theorem channelTurn_eq :
    channelTurn au c =
      if Sounds au c then (advanceChannel c (stepFrac au c) (stepCount au c)).1 else au := by
  unfold channelTurn mixChannel
  by_cases hplaying : (au.chan c).status &&& achanStatPlaying = 0
  · rw [if_neg fun h : Sounds au c => h.1 hplaying]
    exact congrArg Prod.fst (if_pos hplaying)
  · by_cases henabled : control au c &&& achanCtrlEnable = 0
    · rw [if_neg fun h : Sounds au c => h.2 henabled]
      exact congrArg Prod.fst ((if_neg hplaying).trans (if_pos henabled))
    · rw [if_pos (show Sounds au c from ⟨hplaying, henabled⟩)]
      refine (congrArg Prod.fst ((if_neg hplaying).trans (if_neg henabled))).trans ?_
      change (if 0 < fracSum au c >>> 8 then
        (advanceChannel c (stepFrac au c) (stepCount au c)).1 else stepFrac au c) = _
      split_ifs with hsteps
      · rfl
      · have hzero : stepCount au c = 0 := by
          have hle := BitVec.not_lt.mp hsteps
          exact congrArg BitVec.toNat (BitVec.le_zero_iff.mp hle)
        rw [hzero]
        rfl

/-! ## What a visit shows of the channel -/

structure Voice where
  position : Word
  status : Byte
  hit : Bool

def voice (x : Visit) : Voice := ⟨(x.1.chan c).position, (x.1.chan c).status, x.2⟩

/-- The next sample. -/
def voiceStep (v : Voice) : Voice :=
  let position := v.position + 1
  if 0 < sampleLen au c ∧ sampleLen au c ≤ position then
    if loopEn au c = true ∧ 0 < loopLen au c then
      ⟨loopStart au c, v.status ||| achanStatLoopHit, true⟩
    else ⟨sampleLen au c, (v.status &&& ~~~achanStatPlaying) ||| achanStatEndHit, true⟩
  else ⟨position, v.status, false⟩

theorem decodeNext_position : (decodeNext au c).position = (au.chan c).position := by
  unfold decodeNext
  dsimp only
  split_ifs <;> rfl

theorem decodeNext_status : (decodeNext au c).status = (au.chan c).status := by
  unfold decodeNext
  dsimp only
  split_ifs <;> rfl

theorem advanceOne_voice (hit : Bool) :
    voice c ((advanceOne au c).1, (advanceOne au c).2.1) = voiceStep au c (voice c (au, hit)) := by
  unfold advanceOne voiceStep voice
  dsimp only
  rw [decodeNext_position, decodeNext_status]
  split_ifs
  · simp
  · simp
  · simp

end

section

variable {au au' : Audio} {c : Fin audioNumChannels}

theorem voiceStep_congr (h : au'.Fixed au) : voiceStep au' c = voiceStep au c := by
  funext v
  unfold voiceStep sampleLen loopEn control loopLen loopStart
  rw [h.regs]

variable (au c) in
theorem advanceChannelVisits_voices (steps : Nat) (hit : Bool) :
    ∃ hit',
      (advanceChannelVisits c au steps).map (voice c) =
        List.iterate (voiceStep au c) (voiceStep au c (voice c (au, hit)))
          (advanceChannelVisits c au steps).length ∧
      voice c ((advanceChannel c au steps).1, hit') =
        (voiceStep au c)^[(advanceChannelVisits c au steps).length] (voice c (au, hit)) := by
  induction steps generalizing au hit with
  | zero => exact ⟨hit, rfl, rfl⟩
  | succ steps ih =>
    have hfirst := advanceOne_voice au c hit
    rw [advanceChannelVisits, advanceChannel]
    dsimp only
    split_ifs with hstop
    · exact ⟨(advanceOne au c).2.1, congrArg (· :: []) hfirst, hfirst⟩
    · obtain ⟨hit', hvoices, hlast⟩ := ih (advanceOne au c).1 (advanceOne au c).2.1
      rw [voiceStep_congr (advanceOne_fixed au c), hfirst] at hvoices hlast
      refine ⟨hit', ?_, ?_⟩
      · rw [List.map_cons, hvoices, hfirst, List.length_cons]
        rfl
      · rw [List.length_cons, Function.iterate_succ_apply]
        exact hlast

/-! ## The other channels -/

theorem advanceOne_other {i : Fin audioNumChannels} (h : i ≠ c) :
    (advanceOne au c).1.chan i = au.chan i := by
  unfold advanceOne
  dsimp only
  split_ifs <;> exact Audio.chan_setChan_of_ne au h _

theorem advanceChannel_other {i : Fin audioNumChannels} (h : i ≠ c) (steps : Nat) :
    (advanceChannel c au steps).1.chan i = au.chan i := by
  induction steps generalizing au with
  | zero => rfl
  | succ steps ih =>
    rw [advanceChannel]
    dsimp only
    split_ifs
    · exact advanceOne_other h
    · exact (ih ..).trans (advanceOne_other h)

theorem channelTurn_other {i : Fin audioNumChannels} (h : i ≠ c) :
    (channelTurn au c).chan i = au.chan i := by
  rw [channelTurn_eq]
  split_ifs
  · exact (advanceChannel_other h _).trans (Audio.chan_setChan_of_ne au h _)
  · rfl

theorem channelTurns_other {cs : List (Fin audioNumChannels)} (h : c ∉ cs) :
    (cs.foldl channelTurn au).chan c = au.chan c := by
  induction cs generalizing au with
  | nil => rfl
  | cons i cs ih =>
    rw [List.mem_cons, not_or] at h
    exact (ih h.2).trans (channelTurn_other h.1)

theorem split_finRange : ∀ c : Fin audioNumChannels,
    List.finRange audioNumChannels = (List.finRange audioNumChannels).take c ++
        c :: (List.finRange audioNumChannels).drop (c + 1) ∧
      c ∉ (List.finRange audioNumChannels).take c ∧
      c ∉ (List.finRange audioNumChannels).drop (c + 1) := by
  decide

theorem beforeTurn_chan (f : Nat) :
    (beforeTurn au c f).chan c = (tritonAudioMix au f).1.chan c :=
  channelTurns_other (split_finRange c).2.1

theorem voice_beforeTurn (f : Nat) (hit : Bool) :
    voice c (beforeTurn au c f, hit) = voice c ((tritonAudioMix au f).1, hit) := by
  rw [voice, beforeTurn_chan]
  rfl

theorem beforeTurn_fixed (f : Nat) : (beforeTurn au c f).Fixed au :=
  (foldl_channelTurn_fixed ..).trans (tritonAudioMix_fixed au f)

variable (au c) in
theorem tritonAudioMix_succ_chan (f : Nat) :
    (tritonAudioMix au (f + 1)).1.chan c =
      if globalEnable au then (channelTurn (beforeTurn au c f) c).chan c
      else (tritonAudioMix au f).1.chan c := by
  have hframe : (tritonAudioMix au (f + 1)).1 = frameTurn au (tritonAudioMix au f).1 := by
    rw [tritonAudioMix_fst, tritonAudioMix_fst, Function.iterate_succ_apply']
  rw [hframe]
  unfold frameTurn mixFrame
  dsimp only
  split_ifs
  · obtain ⟨hsplit, _, hlater⟩ := split_finRange c
    rw [foldl_mixChannel_fst, hsplit, List.foldl_append, List.foldl_cons]
    exact channelTurns_other hlater
  · rfl

/-! ## A run -/

theorem visits_succ (n : Nat) :
    visits au c (n + 1) =
      visits au c n ++ if globalEnable au then turnVisits (beforeTurn au c n) c else [] := by
  rw [visits, List.range_succ, List.flatMap_append, List.flatMap_singleton]
  rfl

variable (au c) in
theorem voice_stepFrac (hit : Bool) : voice c (stepFrac au c, hit) = voice c (au, hit) := by
  rw [voice, stepFrac, Audio.chan_setChan]
  rfl

theorem stepFrac_fixed : (stepFrac au c).Fixed au := ⟨rfl, rfl, rfl⟩

variable (au c) in
theorem turnVisits_voices (hit : Bool) :
    ∃ hit',
      (turnVisits au c).map (voice c) =
        List.iterate (voiceStep au c) (voiceStep au c (voice c (au, hit)))
          (turnVisits au c).length ∧
      voice c (channelTurn au c, hit') =
        (voiceStep au c)^[(turnVisits au c).length] (voice c (au, hit)) := by
  rw [turnVisits, channelTurn_eq]
  split_ifs
  · have hvoice := voice_stepFrac au c hit
    obtain ⟨hit', hvoices⟩ := advanceChannelVisits_voices (stepFrac au c) c (stepCount au c) hit
    rw [hvoice] at hvoices
    exact ⟨hit', hvoices⟩
  · exact ⟨hit, rfl, rfl⟩

variable (au c) in
theorem visits_voices (n : Nat) :
    ∃ hit,
      (visits au c n).map (voice c) =
        List.iterate (voiceStep au c) (voiceStep au c (voice c (au, false)))
          (visits au c n).length ∧
      voice c ((tritonAudioMix au n).1, hit) =
        (voiceStep au c)^[(visits au c n).length] (voice c (au, false)) := by
  induction n with
  | zero => exact ⟨false, rfl, rfl⟩
  | succ n ih =>
    obtain ⟨hit, hvoices, hlast⟩ := ih
    rw [visits_succ]
    by_cases hen : globalEnable au
    · rw [if_pos hen]
      obtain ⟨hit', hturn, hnext⟩ := turnVisits_voices (beforeTurn au c n) c hit
      rw [voiceStep_congr (beforeTurn_fixed n), voice_beforeTurn, hlast] at hturn hnext
      refine ⟨hit', ?_, ?_⟩
      · rw [List.map_append, hvoices, hturn, List.length_append, List.iterate_add,
          ← Function.iterate_succ_apply' (voiceStep au c), Function.iterate_succ_apply]
      · rw [List.length_append, Nat.add_comm (visits au c n).length, Function.iterate_add_apply,
          ← hnext, voice,
          tritonAudioMix_succ_chan, if_pos hen]
        rfl
    · rw [if_neg hen, List.append_nil]
      refine ⟨hit, hvoices, ?_⟩
      rw [← hlast, voice, tritonAudioMix_succ_chan, if_neg hen]
      rfl

/-! ## When a channel goes on -/

def Voice.Playing (v : Voice) : Prop := v.status &&& achanStatPlaying ≠ 0

theorem loopHit_playing : ∀ status : Byte,
    (status ||| achanStatLoopHit) &&& achanStatPlaying = status &&& achanStatPlaying := by
  decide

theorem endHit_not_playing : ∀ status : Byte,
    ((status &&& ~~~achanStatPlaying) ||| achanStatEndHit) &&& achanStatPlaying = 0 := by
  decide

theorem advanceOne_stop_iff (hit : Bool) (h : (voice c (au, hit)).Playing) :
    (advanceOne au c).2.2 = false ↔ (voiceStep au c (voice c (au, hit))).Playing := by
  change (au.chan c).status &&& achanStatPlaying ≠ 0 at h
  unfold advanceOne voiceStep voice Voice.Playing
  dsimp only
  rw [decodeNext_position]
  split_ifs
  · rw [loopHit_playing]
    exact iff_of_true rfl h
  · rw [endHit_not_playing]
    exact iff_of_false not_false fun hne => hne rfl
  · exact iff_of_true rfl h

variable (au c) in
theorem advanceChannelVisits_playing (steps : Nat) (hit : Bool)
    (h : (voice c (au, hit)).Playing) :
    (∀ k < (advanceChannelVisits c au steps).length,
        ((voiceStep au c)^[k] (voice c (au, hit))).Playing) ∧
      (((voiceStep au c)^[(advanceChannelVisits c au steps).length]
        (voice c (au, hit))).Playing → (advanceChannelVisits c au steps).length = steps) := by
  induction steps generalizing au hit with
  | zero => exact ⟨fun k hk => absurd hk (Nat.not_lt_zero k), fun _ => rfl⟩
  | succ steps ih =>
    have hfirst := advanceOne_voice au c hit
    have hstop := advanceOne_stop_iff hit h
    rw [advanceChannelVisits]
    cases hend : (advanceOne au c).2.2 with
    | true =>
      rw [if_pos rfl, List.length_singleton]
      constructor
      · intro k hk
        rw [Nat.lt_one_iff.mp hk]
        exact h
      · intro hplaying
        exact absurd (hstop.mpr hplaying) (by rw [hend]; decide)
    | false =>
      rw [← hfirst] at hstop
      obtain ⟨hbefore, hlast⟩ := ih _ (advanceOne au c).2.1 (hstop.mp hend)
      rw [voiceStep_congr (advanceOne_fixed au c), hfirst] at hbefore hlast
      rw [if_neg (by decide), List.length_cons]
      constructor
      · intro k hk
        cases k with
        | zero => exact h
        | succ k => exact hbefore k (Nat.lt_of_succ_lt_succ hk)
      · intro hplaying
        rw [Function.iterate_succ_apply] at hplaying
        rw [hlast hplaying]

variable (au c) in
theorem turnVisits_playing (hit : Bool) :
    ∀ k < (turnVisits au c).length, ((voiceStep au c)^[k] (voice c (au, hit))).Playing := by
  rw [turnVisits]
  split_ifs with hsounds
  · have hvoice := voice_stepFrac au c hit
    have hplaying := advanceChannelVisits_playing (stepFrac au c) c (stepCount au c) hit (by
      rw [hvoice]
      exact hsounds.1)
    rw [hvoice] at hplaying
    exact hplaying.1
  · exact fun k hk => absurd hk (Nat.not_lt_zero k)

theorem visits_playing (n : Nat) :
    ∀ k < (visits au c n).length, ((voiceStep au c)^[k] (voice c (au, false))).Playing := by
  induction n with
  | zero => exact fun k hk => absurd hk (Nat.not_lt_zero k)
  | succ n ih =>
    obtain ⟨hit, _, hlast⟩ := visits_voices au c n
    intro k hk
    rw [visits_succ, List.length_append] at hk
    by_cases hold : k < (visits au c n).length
    · exact ih k hold
    · obtain ⟨j, rfl⟩ := Nat.exists_eq_add_of_le (Nat.le_of_not_lt hold)
      have hj := Nat.lt_of_add_lt_add_left hk
      split_ifs at hj
      · have hturn := turnVisits_playing (beforeTurn au c n) c hit j hj
        rw [voiceStep_congr (beforeTurn_fixed n), voice_beforeTurn, hlast] at hturn
        rw [Nat.add_comm, Function.iterate_add_apply]
        exact hturn
      · exact absurd hj (Nat.not_lt_zero j)

/-! ## How many samples there are -/

theorem advanceOne_frac : ((advanceOne au c).1.chan c).frac = (au.chan c).frac := by
  have hdecode : (decodeNext au c).frac = (au.chan c).frac := by
    unfold decodeNext
    dsimp only
    split_ifs <;> rfl
  unfold advanceOne
  dsimp only
  split_ifs <;> rw [Audio.chan_setChan] <;> exact hdecode

theorem advanceChannel_frac (steps : Nat) :
    ((advanceChannel c au steps).1.chan c).frac = (au.chan c).frac := by
  induction steps generalizing au with
  | zero => rfl
  | succ steps ih =>
    rw [advanceChannel]
    dsimp only
    split_ifs
    · exact advanceOne_frac
    · exact ih.trans advanceOne_frac

/-- The fraction that is left is below one sample. -/
def FracOk (au : Audio) (c : Fin audioNumChannels) : Prop := (au.chan c).frac < 0x100

theorem low_byte_lt (w : Word) : w &&& 0xFF < 0x100 := by
  have hand : (w &&& 0xFF).toNat = w.toNat % 2 ^ 8 := by
    rw [BitVec.toNat_and]
    exact Nat.and_two_pow_sub_one_eq_mod _ 8
  rw [BitVec.lt_def, hand]
  exact Nat.mod_lt _ (by decide)

theorem channelTurn_frac (hfrac : FracOk au c) (hsounds : Sounds au c) :
    FracOk (channelTurn au c) c ∧
      256 * stepCount au c + ((channelTurn au c).chan c).frac.toNat =
        (au.chan c).frac.toNat + (frequency au c).toNat := by
  have hkept : ((channelTurn au c).chan c).frac = fracSum au c &&& 0xFF := by
    rw [channelTurn_eq, if_pos hsounds, advanceChannel_frac, stepFrac, Audio.chan_setChan]
  have hsum : (fracSum au c).toNat = (au.chan c).frac.toNat + (frequency au c).toNat := by
    have hfreq := (frequency au c).isLt
    have hlt : (au.chan c).frac.toNat < 0x100 := hfrac
    have hext : ((frequency au c).zeroExtend 32).toNat = (frequency au c).toNat :=
      BitVec.toNat_setWidth_of_le (by decide)
    rw [fracSum, BitVec.toNat_add, hext, Nat.mod_eq_of_lt (by omega)]
  refine ⟨?_, ?_⟩
  · rw [FracOk, hkept]
    exact low_byte_lt _
  · have hand : (fracSum au c &&& 0xFF).toNat = (fracSum au c).toNat % 2 ^ 8 := by
      rw [BitVec.toNat_and]
      exact Nat.and_two_pow_sub_one_eq_mod _ 8
    have hshift : stepCount au c = (fracSum au c).toNat / 2 ^ 8 := by
      rw [stepCount, BitVec.toNat_ushiftRight, Nat.shiftRight_eq_div_pow]
    rw [hkept, hand, hshift, ← hsum]
    exact Nat.div_add_mod _ _

/-- Global enable, ENABLE, PLAYING and a frequency. -/
structure Advances (au : Audio) (c : Fin audioNumChannels) : Prop where
  global : globalEnable au = true
  sounds : Sounds au c
  frequency : frequency au c ≠ 0

theorem turnVisits_length (hplaying : (voice c (channelTurn au c, false)).Playing)
    (hsounds : Sounds au c) : (turnVisits au c).length = stepCount au c := by
  have hvoices := turnVisits_voices au c false
  obtain ⟨hit, _, hlast⟩ := hvoices
  have hrun := advanceChannelVisits_playing (stepFrac au c) c (stepCount au c) false
    (by
      rw [voice_stepFrac]
      exact hsounds.1)
  rw [turnVisits, if_pos hsounds] at hlast ⊢
  refine hrun.2 ?_
  rw [voice_stepFrac, voiceStep_congr (stepFrac_fixed), ← hlast]
  exact hplaying

theorem visits_length (h : Advances au c) (hfrac : FracOk au c) (n : Nat)
    (hplaying : (voice c ((tritonAudioMix au n).1, false)).Playing) :
    FracOk (tritonAudioMix au n).1 c ∧
      256 * (visits au c n).length + ((tritonAudioMix au n).1.chan c).frac.toNat =
        (au.chan c).frac.toNat + n * (frequency au c).toNat := by
  induction n with
  | zero =>
    refine ⟨hfrac, ?_⟩
    rw [Nat.zero_mul]
    exact Nat.zero_add _
  | succ n ih =>
    have hchan := tritonAudioMix_succ_chan au c n
    rw [if_pos h.global] at hchan
    have hafter : (voice c (channelTurn (beforeTurn au c n) c, false)).Playing := by
      rw [voice, hchan] at hplaying
      exact hplaying
    have hsounds : Sounds (beforeTurn au c n) c := by
      by_contra hnot
      rw [channelTurn_eq, if_neg hnot] at hafter
      refine hnot ⟨hafter, ?_⟩
      rw [control, (beforeTurn_fixed n).regs]
      exact h.sounds.2
    have hbefore : (voice c ((tritonAudioMix au n).1, false)).Playing := by
      rw [← voice_beforeTurn]
      exact hsounds.1
    obtain ⟨hok, hsum⟩ := ih hbefore
    have hturn := @channelTurn_frac (beforeTurn au c n) c (by
      rw [FracOk, beforeTurn_chan]
      exact hok) hsounds
    have hfreq : frequency (beforeTurn au c n) c = frequency au c := by
      rw [frequency, (beforeTurn_fixed n).regs, frequency]
    rw [beforeTurn_chan, hfreq] at hturn
    rw [visits_succ, if_pos h.global, List.length_append, turnVisits_length hafter hsounds,
      FracOk, hchan]
    refine ⟨hturn.1, ?_⟩
    rw [Nat.mul_add, Nat.add_mul, Nat.one_mul]
    omega

end

end MechanicalResearcher.TritonAudio
