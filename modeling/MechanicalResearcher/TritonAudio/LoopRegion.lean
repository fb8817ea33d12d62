import Mathlib.Data.Nat.Find
import MechanicalResearcher.TritonAudio.Visits

/-!
# Loops and one-shots

`advance_channel` goes back to LOOP_START only at the end of the sample, whatever LOOP_LEN is,
as long as it is not zero.  So a loop is the region of its registers just if this ends with the
sample.
-/

namespace MechanicalResearcher.TritonAudio

/-! ## The fraction in every run -/

section

variable {au : Audio}

theorem FracOk.setChan {c i : Fin audioNumChannels} (h : FracOk au i) {ch : Chan}
    (hch : ch.frac < 0x100) : FracOk (au.setChan c ch) i := by
  by_cases hi : i = c
  · rw [FracOk, hi, Audio.chan_setChan]
    exact hch
  · rw [FracOk, Audio.chan_setChan_of_ne au hi]
    exact h

theorem channelTurn_fracOk (c : Fin audioNumChannels) {i : Fin audioNumChannels}
    (h : FracOk au i) : FracOk (channelTurn au c) i := by
  by_cases hi : i = c
  · subst hi
    by_cases hsounds : Sounds au i
    · exact (channelTurn_frac h hsounds).1
    · rw [channelTurn_eq, if_neg hsounds]
      exact h
  · rw [FracOk, channelTurn_other hi]
    exact h

theorem mix_fracOk {c : Fin audioNumChannels} (h : FracOk au c) (n : Nat) :
    FracOk (tritonAudioMix au n).1 c := by
  induction n with
  | zero => exact h
  | succ n ih =>
    rw [FracOk, tritonAudioMix_succ_chan]
    split_ifs
    · refine channelTurn_fracOk c ?_
      rw [FracOk, beforeTurn_chan]
      exact ih
    · exact ih

theorem Reachable.fracOk (h : Reachable au) (c : Fin audioNumChannels) : FracOk au c := by
  induction h with
  | init ram ramSize => exact (by decide : (0 : Word) < 0x100)
  | @write au _ offset val ih =>
    unfold tritonAudioWrite
    dsimp only
    split_ifs
    · exact ih
    · exact ih
    · exact @FracOk.setChan (au.setReg _ _) _ _ ih _ (by decide)
    · exact ih
    · exact ih
  | @read au _ offset ih =>
    unfold tritonAudioRead
    dsimp only
    split_ifs with _ hchan
    · exact ih
    · by_cases hc : c = chanOf offset.toNat hchan
      · rw [FracOk, ← hc, Audio.chan_setChan]
        exact ih
      · rw [FracOk, Audio.chan_setChan_of_ne au hc]
        exact ih
    · exact ih
    · exact ih
    · exact ih
  | store _ _ ih => exact ih
  | mix _ n ih => exact mix_fracOk ih n
  | checkIrq _ ih =>
    unfold tritonAudioCheckIrq
    dsimp only
    split_ifs <;> exact ih

end

/-! ## The positions of a loop -/

section

variable {au : Audio} {c : Fin audioNumChannels}

theorem sampleLen_lt (au : Audio) (c : Fin audioNumChannels) :
    (sampleLen au c).toNat < 2 ^ 24 := by
  have hand : (sampleLen au c).toNat =
      (regRd32 au.regs (chanReg c achanSampleLen)).toNat % 2 ^ 24 := by
    rw [sampleLen, BitVec.toNat_and]
    exact Nat.and_two_pow_sub_one_eq_mod _ 24
  rw [hand]
  exact Nat.mod_lt _ (by decide)

theorem toNat_succ {p : Word} (h : p.toNat < 2 ^ 24) : (p + 1).toNat = p.toNat + 1 := by
  rw [BitVec.toNat_add]
  exact Nat.mod_eq_of_lt (Nat.lt_of_le_of_lt h (by decide))

/-- LOOP is set and LOOP_LEN is not zero. -/
def Loops (au : Audio) (c : Fin audioNumChannels) : Prop :=
  loopEn au c = true ∧ 0 < loopLen au c

theorem voiceStep_hit_eq (v : Voice) :
    (voiceStep au c v).hit =
      decide (0 < sampleLen au c ∧ sampleLen au c ≤ v.position + 1) := by
  unfold voiceStep
  dsimp only
  split_ifs with hend
  · exact (decide_eq_true hend).symm
  · exact (decide_eq_true hend).symm
  · exact (decide_eq_false hend).symm

theorem voiceStep_loop (hloops : Loops au c) (v : Voice)
    (hend : 0 < sampleLen au c ∧ sampleLen au c ≤ v.position + 1) :
    voiceStep au c v = ⟨loopStart au c, v.status ||| achanStatLoopHit, true⟩ :=
  (if_pos hend).trans (if_pos hloops)

theorem voiceStep_end (hloops : ¬Loops au c) (v : Voice)
    (hend : 0 < sampleLen au c ∧ sampleLen au c ≤ v.position + 1) :
    voiceStep au c v =
      ⟨sampleLen au c, (v.status &&& ~~~achanStatPlaying) ||| achanStatEndHit, true⟩ :=
  (if_pos hend).trans (if_neg hloops)

theorem voiceStep_next (v : Voice)
    (hend : ¬(0 < sampleLen au c ∧ sampleLen au c ≤ v.position + 1)) :
    voiceStep au c v = ⟨v.position + 1, v.status, false⟩ :=
  if_neg hend

theorem succ_mod {d : Nat} (hd : 0 < d) (j : Nat) :
    (j + 1) % d = if j % d + 1 = d then 0 else j % d + 1 := by
  have hlt := Nat.mod_lt j hd
  conv_lhs => rw [← Nat.div_add_mod j d, Nat.add_assoc]
  split_ifs with hlast
  · rw [hlast, ← Nat.mul_succ, Nat.mul_mod_right]
  · rw [Nat.mul_add_mod, Nat.mod_eq_of_lt (by omega)]

theorem iterate_loop (hloops : Loops au c) (hregion : loopStart au c < sampleLen au c)
    {v : Voice} (hv : v.position = loopStart au c) (j : Nat) :
    ((voiceStep au c)^[j] v).position.toNat = (loopStart au c).toNat +
      j % ((sampleLen au c).toNat - (loopStart au c).toNat) := by
  have hlen := sampleLen_lt au c
  have hlt : (loopStart au c).toNat < (sampleLen au c).toNat := hregion
  induction j with
  | zero =>
    rw [Function.iterate_zero_apply, hv, Nat.zero_mod, Nat.add_zero]
  | succ j ih =>
    rw [Function.iterate_succ_apply']
    generalize (voiceStep au c)^[j] v = w at ih
    have hmod := Nat.mod_lt j (Nat.sub_pos_of_lt hlt)
    have hnext : (w.position + 1).toNat = w.position.toNat + 1 := toNat_succ (by omega)
    rw [succ_mod (Nat.sub_pos_of_lt hlt)]
    by_cases hend : 0 < sampleLen au c ∧ sampleLen au c ≤ w.position + 1
    · have hle : (sampleLen au c).toNat ≤ (w.position + 1).toNat := hend.2
      rw [voiceStep_loop hloops w hend, if_pos (by omega), Nat.add_zero]
    · have hnle : ¬(sampleLen au c).toNat ≤ (w.position + 1).toNat := fun hle =>
        hend ⟨Nat.zero_lt_of_lt hlt, hle⟩
      rw [voiceStep_next w hend, if_neg (by omega), hnext, ih]
      omega

theorem exists_hit (hlen : 0 < sampleLen au c) (v : Voice) :
    ∃ i, ((voiceStep au c)^[i + 1] v).hit = true := by
  have hmax := sampleLen_lt au c
  obtain ⟨m, hm⟩ : ∃ m, (sampleLen au c).toNat ≤ (v.position + 1).toNat + m :=
    ⟨(sampleLen au c).toNat, Nat.le_add_left ..⟩
  induction m generalizing v with
  | zero =>
    refine ⟨0, ?_⟩
    rw [Function.iterate_one, voiceStep_hit_eq]
    exact decide_eq_true ⟨hlen, hm⟩
  | succ m ih =>
    by_cases hend : 0 < sampleLen au c ∧ sampleLen au c ≤ v.position + 1
    · refine ⟨0, ?_⟩
      rw [Function.iterate_one, voiceStep_hit_eq]
      exact decide_eq_true hend
    · have hlt : (v.position + 1).toNat < (sampleLen au c).toNat :=
        Nat.lt_of_not_le fun hle => hend ⟨hlen, hle⟩
      have hnext := toNat_succ (hlt.trans hmax)
      obtain ⟨i, hi⟩ := ih ⟨v.position + 1, v.status, false⟩ (by
        change _ ≤ (v.position + 1 + 1).toNat + m
        omega)
      refine ⟨i + 1, ?_⟩
      rw [Function.iterate_succ_apply, voiceStep_next v hend]
      exact hi

theorem position_of_hit (hloops : Loops au c) {v : Voice}
    (hhit : (voiceStep au c v).hit = true) : (voiceStep au c v).position = loopStart au c := by
  rw [voiceStep_hit_eq, decide_eq_true_iff] at hhit
  rw [voiceStep_loop hloops v hhit]

theorem playing_of_loop (hloops : Loops au c) {v : Voice} (h : v.Playing) :
    (voiceStep au c v).Playing := by
  by_cases hend : 0 < sampleLen au c ∧ sampleLen au c ≤ v.position + 1
  · rw [voiceStep_loop hloops v hend, Voice.Playing, loopHit_playing]
    exact h
  · rw [voiceStep_next v hend]
    exact h

theorem iterate_playing (hloops : Loops au c) {v : Voice} (h : v.Playing) (k : Nat) :
    ((voiceStep au c)^[k] v).Playing := by
  induction k with
  | zero => exact h
  | succ k ih =>
    rw [Function.iterate_succ_apply']
    exact playing_of_loop hloops ih

/-! ## The samples of a run -/

variable (au c) in
/-- What sample `k` of the channel shows. -/
def sampleVoice (k : Nat) : Voice := (voiceStep au c)^[k + 1] (voice c (au, false))

theorem voice_visits {n k : Nat} (hk : k < (visits au c n).length) :
    voice c (visits au c n)[k] = sampleVoice au c k := by
  obtain ⟨_, hvoices, _⟩ := visits_voices au c n
  have hget : ((visits au c n).map (voice c))[k]? = some (sampleVoice au c k) := by
    rw [hvoices, List.getElem?_iterate _ _ _ _ hk]
    rfl
  rw [List.getElem?_map, List.getElem?_eq_getElem hk] at hget
  exact Option.some.inj hget

theorem visits_unbounded (h : Advances au c) (hfrac : FracOk au c)
    (hplays : ∀ k, ((voiceStep au c)^[k] (voice c (au, false))).Playing) (k : Nat) :
    ∃ n, k < (visits au c n).length := by
  obtain ⟨n, hn⟩ : ∃ n, n = 256 * (k + 1) := ⟨_, rfl⟩
  obtain ⟨hit, _, hlast⟩ := visits_voices au c n
  have hplaying : (voice c ((tritonAudioMix au n).1, hit)).Playing := by
    rw [hlast]
    exact hplays _
  obtain ⟨hok, hsum⟩ := visits_length h hfrac n hplaying
  have hlt : ((tritonAudioMix au n).1.chan c).frac.toNat < 0x100 := hok
  have hfreq : 1 ≤ (frequency au c).toNat :=
    Nat.pos_of_ne_zero fun hzero => h.frequency (BitVec.eq_of_toNat_eq hzero)
  have hmul := Nat.mul_le_mul_left n hfreq
  exact ⟨n, by omega⟩

theorem stepCount_eq_zero {n : Nat} (h : ¬Advances au c) (hfrac : FracOk au c)
    (hglobal : globalEnable au = true) (hnil : visits au c n = [])
    (hsounds : Sounds (beforeTurn au c n) c) : stepCount (beforeTurn au c n) c = 0 := by
  obtain ⟨hit, _, hlast⟩ := visits_voices au c n
  rw [hnil] at hlast
  have hstart : Sounds au c := by
    have hplaying : (voice c (beforeTurn au c n, hit)).Playing := hsounds.1
    have hcontrol := hsounds.2
    rw [voice_beforeTurn, hlast] at hplaying
    rw [control, (beforeTurn_fixed n).regs] at hcontrol
    exact ⟨hplaying, hcontrol⟩
  have hfreq : frequency (beforeTurn au c n) c = 0 := by
    by_contra hne
    rw [frequency, (beforeTurn_fixed n).regs] at hne
    exact h ⟨hglobal, hstart, hne⟩
  have hok : FracOk (beforeTurn au c n) c := by
    rw [FracOk, beforeTurn_chan]
    exact mix_fracOk hfrac n
  have hlt : ((beforeTurn au c n).chan c).frac.toNat < 2 ^ 8 := hok
  have hsum : fracSum (beforeTurn au c n) c = ((beforeTurn au c n).chan c).frac := by
    rw [fracSum, hfreq]
    exact BitVec.add_zero _
  rw [stepCount, hsum, BitVec.toNat_ushiftRight, Nat.shiftRight_eq_div_pow]
  exact Nat.div_eq_of_lt hlt

theorem visits_nil (h : ¬Advances au c) (hfrac : FracOk au c) (n : Nat) : visits au c n = [] := by
  induction n with
  | zero => rfl
  | succ n ih =>
    rw [visits_succ, ih, List.nil_append]
    split_ifs with hglobal
    · rw [turnVisits]
      split_ifs with hsounds
      · have hcount : stepCount (beforeTurn au c n) c = 0 :=
          stepCount_eq_zero h hfrac hglobal ih hsounds
        rw [hcount]
        rfl
      · rfl
    · rfl

/-! ## The region of a loop -/

/-- Sample `i` is the first one where the end or the loop is hit. -/
structure FirstHit (vs : List Visit) (i : Nat) (hi : i < vs.length) : Prop where
  hit : vs[i].2 = true
  first : ∀ j (hj : j < i), vs[j].2 = false

def Raised (c : Fin audioNumChannels) (flag : Byte) (au : Audio) : Prop :=
  (au.chan c).status &&& flag ≠ 0 ∧ au.irqPending.getLsbD c = true

/-- From the first wrap on, the positions are LOOP_START to LOOP_START + LOOP_LEN - 1 over and
over, and each wrap is raised. -/
structure LoopsRegion (au : Audio) (c : Fin audioNumChannels) : Prop where
  region : ∀ n i hi, FirstHit (visits au c n) i hi → ∀ j (hj : i + j < (visits au c n).length),
    ((visits au c n)[i + j].1.chan c).position.toNat =
      (loopStart au c).toNat + j % (loopLen au c).toNat
  wraps : ∀ n i hi, FirstHit (visits au c n) i hi → ∀ j (hj : i + j < (visits au c n).length),
    j % (loopLen au c).toNat = 0 → Raised c achanStatLoopHit (visits au c n)[i + j].1

/-- The positions are 1 to SAMPLE_LEN after the start at 0, and the channel stops at the last one,
with END_HIT, which it comes to if it advances. -/
structure PlaysOnce (au : Audio) (c : Fin audioNumChannels) : Prop where
  once : ∀ n, (visits au c n).length ≤ (sampleLen au c).toNat
  positions : ∀ n k (hk : k < (visits au c n).length),
    ((visits au c n)[k].1.chan c).position.toNat = k + 1
  playing : ∀ n k (hk : k < (visits au c n).length), k + 1 < (sampleLen au c).toNat →
    (voice c (visits au c n)[k]).Playing ∧ (visits au c n)[k].2 = false
  stops : ∀ n k (hk : k < (visits au c n).length), k + 1 = (sampleLen au c).toNat →
    ¬(voice c (visits au c n)[k]).Playing ∧ Raised c achanStatEndHit (visits au c n)[k].1
  ends : Advances au c → ∃ n, (visits au c n).length = (sampleLen au c).toNat

/-! ### The flags -/

theorem advanceOne_irq (h : (advanceOne au c).2.1 = true) :
    (advanceOne au c).1.irqPending.getLsbD c = true := by
  have hraise : (raiseIrq au c).getLsbD c = true := by
    have hbit : ∀ i : Fin 16, ((1 <<< i.val : Nat) : Half).getLsbD i = true := by decide
    rw [raiseIrq, BitVec.getLsbD_or, Bool.or_eq_true]
    exact .inr (hbit c)
  unfold advanceOne at h ⊢
  dsimp only at h ⊢
  split_ifs at h ⊢
  · exact hraise
  · exact hraise

theorem mem_advanceChannelVisits {steps : Nat} {x : Visit}
    (hx : x ∈ advanceChannelVisits c au steps) :
    ∃ y, x = ((advanceOne y c).1, (advanceOne y c).2.1) := by
  induction steps generalizing au with
  | zero => exact absurd hx List.not_mem_nil
  | succ steps ih =>
    rw [advanceChannelVisits, List.mem_cons] at hx
    rcases hx with rfl | hx
    · exact ⟨au, rfl⟩
    · split_ifs at hx
      · exact absurd hx List.not_mem_nil
      · exact ih hx

theorem visits_irq {n : Nat} {x : Visit} (hx : x ∈ visits au c n) (hhit : x.2 = true) :
    x.1.irqPending.getLsbD c = true := by
  obtain ⟨f, _, hf⟩ := List.mem_flatMap.mp hx
  rw [turnVisits] at hf
  split_ifs at hf
  · obtain ⟨y, rfl⟩ := mem_advanceChannelVisits hf
    exact advanceOne_irq hhit
  · exact absurd hf List.not_mem_nil
  · exact absurd hf List.not_mem_nil

theorem loopHit_ne_zero : ∀ status : Byte,
    (status ||| achanStatLoopHit) &&& achanStatLoopHit ≠ 0 := by
  decide

theorem endHit_ne_zero : ∀ status : Byte,
    ((status &&& ~~~achanStatPlaying) ||| achanStatEndHit) &&& achanStatEndHit ≠ 0 := by
  decide

/-! ### The loop -/

section

variable {n i j : Nat} {hi : i < (visits au c n).length}

theorem sampleVoice_succ (k : Nat) :
    sampleVoice au c (k + 1) = voiceStep au c (sampleVoice au c k) :=
  Function.iterate_succ_apply' ..

theorem sampleVoice_add (i j : Nat) :
    sampleVoice au c (i + j) = (voiceStep au c)^[j] (sampleVoice au c i) := by
  have hsum : i + j + 1 = j + (i + 1) := by omega
  rw [sampleVoice, sampleVoice, ← Function.iterate_add_apply, hsum]

theorem FirstHit.sampleVoice_hit (h : FirstHit (visits au c n) i hi) :
    (sampleVoice au c i).hit = true := by
  rw [← voice_visits hi]
  exact h.hit

theorem position_of_sample_hit (hloops : Loops au c) {k : Nat}
    (hhit : (sampleVoice au c k).hit = true) :
    (sampleVoice au c k).position = loopStart au c := by
  rw [sampleVoice, Function.iterate_succ_apply'] at hhit ⊢
  exact position_of_hit hloops hhit

theorem position_after_wrap (hloops : Loops au c) (hregion : loopStart au c < sampleLen au c)
    (h : FirstHit (visits au c n) i hi) (hj : i + j < (visits au c n).length) :
    ((visits au c n)[i + j].1.chan c).position.toNat = (loopStart au c).toNat +
      j % ((sampleLen au c).toNat - (loopStart au c).toNat) := by
  have hvoice := congrArg Voice.position (voice_visits hj)
  have hstart := position_of_sample_hit hloops h.sampleVoice_hit
  change ((visits au c n)[i + j].1.chan c).position = _ at hvoice
  rw [hvoice, sampleVoice_add]
  exact iterate_loop hloops hregion hstart j

theorem loopsRegion_of_eq (hloops : Loops au c)
    (heq : (loopStart au c).toNat + (loopLen au c).toNat = (sampleLen au c).toNat) :
    LoopsRegion au c := by
  have hpos : 0 < (loopLen au c).toNat := hloops.2
  have hregion : loopStart au c < sampleLen au c := by
    change (loopStart au c).toNat < (sampleLen au c).toNat
    omega
  have hlen : (sampleLen au c).toNat - (loopStart au c).toNat = (loopLen au c).toNat := by omega
  have hwrap {n i j : Nat} {hi : i < (visits au c n).length}
      (h : FirstHit (visits au c n) i hi) (hj : j % (loopLen au c).toNat = 0) :
      ∃ v, sampleVoice au c (i + j) = voiceStep au c v ∧
        0 < sampleLen au c ∧ sampleLen au c ≤ v.position + 1 := by
    have hhit := h.sampleVoice_hit
    cases j with
    | zero =>
      rw [sampleVoice, Function.iterate_succ_apply', voiceStep_hit_eq, decide_eq_true_iff] at hhit
      exact ⟨_, Function.iterate_succ_apply' .., hhit⟩
    | succ j =>
      have hbefore := iterate_loop hloops hregion (position_of_sample_hit hloops hhit) j
      rw [← sampleVoice_add, hlen] at hbefore
      rw [succ_mod hpos] at hj
      have hlast : j % (loopLen au c).toNat + 1 = (loopLen au c).toNat := by
        by_contra hne
        rw [if_neg hne] at hj
        exact absurd hj (Nat.succ_ne_zero _)
      refine ⟨sampleVoice au c (i + j), sampleVoice_succ (i + j), Nat.zero_lt_of_lt hregion, ?_⟩
      have hmax := sampleLen_lt au c
      rw [BitVec.le_def, toNat_succ (by omega), hbefore]
      omega
  constructor
  · intro n i hi h j hj
    rw [position_after_wrap hloops hregion h hj, hlen]
  · intro n i hi h j hj hmod
    obtain ⟨v, hv, hend⟩ := hwrap h hmod
    have hvoice := voice_visits hj
    rw [hv, voiceStep_loop hloops v hend] at hvoice
    constructor
    · have hstatus : ((visits au c n)[i + j].1.chan c).status = v.status ||| achanStatLoopHit :=
        congrArg Voice.status hvoice
      rw [hstatus]
      exact loopHit_ne_zero v.status
    · exact visits_irq (List.getElem_mem hj) (congrArg Voice.hit hvoice)

theorem eq_of_loopsRegion (hadvances : Advances au c) (hfrac : FracOk au c)
    (hloops : Loops au c)
    (hle : (loopStart au c).toNat + (loopLen au c).toNat ≤ (sampleLen au c).toNat)
    (h : LoopsRegion au c) :
    (loopStart au c).toNat + (loopLen au c).toNat = (sampleLen au c).toNat := by
  have hpos : 0 < (loopLen au c).toNat := hloops.2
  have hregion : loopStart au c < sampleLen au c := by
    change (loopStart au c).toNat < (sampleLen au c).toNat
    omega
  have hex : ∃ i, (sampleVoice au c i).hit = true :=
    exists_hit (Nat.zero_lt_of_lt hregion) (voice c (au, false))
  have hstart : (voice c (au, false)).Playing := hadvances.sounds.1
  obtain ⟨n, hn⟩ := visits_unbounded hadvances hfrac (iterate_playing hloops hstart)
    (Nat.find hex + (loopLen au c).toNat)
  have hi : Nat.find hex < (visits au c n).length := by omega
  have hfirst : FirstHit (visits au c n) (Nat.find hex) hi := by
    constructor
    · have hhit := Nat.find_spec hex
      rw [← voice_visits hi] at hhit
      exact hhit
    · intro j hj
      have hmiss := Nat.find_min hex hj
      rw [← voice_visits (hj.trans hi), Bool.not_eq_true] at hmiss
      exact hmiss
  have hclaim := h.region n _ hi hfirst (loopLen au c).toNat hn
  rw [position_after_wrap hloops hregion hfirst hn, Nat.mod_self] at hclaim
  by_contra hne
  rw [Nat.mod_eq_of_lt (by omega)] at hclaim
  omega

/-! ### A one-shot -/

variable (au c) in
theorem iterate_oneShot {v : Voice} (hv : v.position = 0) {k : Nat}
    (hk : k < (sampleLen au c).toNat) :
    ((voiceStep au c)^[k] v).position.toNat = k ∧ ((voiceStep au c)^[k] v).status = v.status ∧
      (0 < k → ((voiceStep au c)^[k] v).hit = false) := by
  induction k with
  | zero =>
    rw [Function.iterate_zero_apply, hv]
    exact ⟨rfl, rfl, fun h => absurd h (Nat.lt_irrefl 0)⟩
  | succ k ih =>
    obtain ⟨hpos, hstatus, _⟩ := ih (Nat.lt_of_succ_lt hk)
    have hmax := sampleLen_lt au c
    have hnext := toNat_succ (p := ((voiceStep au c)^[k] v).position) (by omega)
    have hend : ¬(0 < sampleLen au c ∧
        sampleLen au c ≤ ((voiceStep au c)^[k] v).position + 1) := by
      rintro ⟨_, hle⟩
      rw [BitVec.le_def, hnext] at hle
      omega
    rw [Function.iterate_succ_apply', voiceStep_next _ hend]
    exact ⟨hnext.trans (congrArg (· + 1) hpos), hstatus, fun _ => rfl⟩

theorem iterate_oneShot_end (hloops : ¬Loops au c) {v : Voice} (hv : v.position = 0) {k : Nat}
    (hk : k + 1 = (sampleLen au c).toNat) :
    (voiceStep au c)^[k + 1] v =
      ⟨sampleLen au c, (v.status &&& ~~~achanStatPlaying) ||| achanStatEndHit, true⟩ := by
  obtain ⟨hpos, hstatus, _⟩ := iterate_oneShot au c hv (Nat.lt_of_succ_le hk.le)
  have hend : 0 < sampleLen au c ∧
      sampleLen au c ≤ ((voiceStep au c)^[k] v).position + 1 := by
    have hmax := sampleLen_lt au c
    have hnext := toNat_succ (p := ((voiceStep au c)^[k] v).position) (by omega)
    constructor
    · change 0 < (sampleLen au c).toNat
      omega
    · rw [BitVec.le_def, hnext, hpos, hk]
  rw [Function.iterate_succ_apply', voiceStep_end hloops _ hend, hstatus]

theorem playsOnce_of_pos (hfrac : FracOk au c) (hloops : ¬Loops au c)
    (hstart : (au.chan c).position = 0) (hlen : 0 < (sampleLen au c).toNat) : PlaysOnce au c := by
  obtain ⟨l, hl⟩ := Nat.exists_eq_succ_of_ne_zero hlen.ne'
  have hend := iterate_oneShot_end (v := voice c (au, false)) hloops hstart hl.symm
  have hstopped : ¬((voiceStep au c)^[(sampleLen au c).toNat] (voice c (au, false))).Playing := by
    rw [hl, hend, Voice.Playing, endHit_not_playing]
    exact fun hne => hne rfl
  have honce (n : Nat) : (visits au c n).length ≤ (sampleLen au c).toNat := by
    by_contra hmore
    exact hstopped (visits_playing n _ (Nat.lt_of_not_le hmore))
  constructor
  · exact honce
  · intro n k hk
    have hvoice := congrArg Voice.position (voice_visits hk)
    change ((visits au c n)[k].1.chan c).position = _ at hvoice
    have hle := honce n
    rw [hvoice, sampleVoice]
    by_cases hlast : k + 1 = (sampleLen au c).toNat
    · rw [iterate_oneShot_end (v := voice c (au, false)) hloops hstart hlast, ← hlast]
    · exact (iterate_oneShot au c hstart (by omega)).1
  · intro n k hk hmore
    have hvoice := voice_visits hk
    obtain ⟨_, hstatus, hhit⟩ :=
      iterate_oneShot au c (v := voice c (au, false)) hstart hmore
    constructor
    · rw [hvoice, Voice.Playing, sampleVoice, hstatus]
      exact visits_playing n 0 (Nat.zero_lt_of_lt hk)
    · exact (congrArg Voice.hit hvoice).trans (hhit (Nat.succ_pos k))
  · intro n k hk hlast
    have hvoice := voice_visits hk
    rw [sampleVoice, iterate_oneShot_end (v := voice c (au, false)) hloops hstart hlast] at hvoice
    refine ⟨?_, ?_, ?_⟩
    · rw [hvoice, Voice.Playing, endHit_not_playing]
      exact fun hne => hne rfl
    · have hstatus := congrArg Voice.status hvoice
      change ((visits au c n)[k].1.chan c).status = _ at hstatus
      rw [hstatus]
      exact endHit_ne_zero _
    · exact visits_irq (List.getElem_mem hk) (congrArg Voice.hit hvoice)
  · intro hadvances
    obtain ⟨n, hn⟩ : ∃ n, n = 256 * ((sampleLen au c).toNat + 1) := ⟨_, rfl⟩
    obtain ⟨hit, _, hlast⟩ := visits_voices au c n
    refine ⟨n, ?_⟩
    by_contra hne
    have hfew : (visits au c n).length < (sampleLen au c).toNat :=
      Nat.lt_of_le_of_ne (honce n) hne
    have hplaying : (voice c ((tritonAudioMix au n).1, hit)).Playing := by
      rw [hlast, Voice.Playing, (iterate_oneShot au c hstart hfew).2.1]
      exact hadvances.sounds.1
    obtain ⟨hok, hsum⟩ := visits_length hadvances hfrac n hplaying
    have hlt : ((tritonAudioMix au n).1.chan c).frac.toNat < 0x100 := hok
    have hfreq : 1 ≤ (frequency au c).toNat :=
      Nat.pos_of_ne_zero fun hzero => hadvances.frequency (BitVec.eq_of_toNat_eq hzero)
    have hmul := Nat.mul_le_mul_left n hfreq
    omega

theorem not_playsOnce_of_zero (hadvances : Advances au c) (hfrac : FracOk au c)
    (hlen : (sampleLen au c).toNat = 0) : ¬PlaysOnce au c := by
  have hplays (k : Nat) : ((voiceStep au c)^[k] (voice c (au, false))).Playing := by
    induction k with
    | zero => exact hadvances.sounds.1
    | succ k ih =>
      rw [Function.iterate_succ_apply', voiceStep_next _ fun hend => ?_]
      · exact ih
      · exact absurd hend.1 (Nat.not_lt.mpr hlen.le)
  obtain ⟨n, hn⟩ := visits_unbounded hadvances hfrac hplays 0
  intro h
  have honce := h.once n
  omega

end

/-! ## Exactly when -/

/-- A loop is the region of its registers if and only if this ends with the sample, and a channel
without LOOP that starts at 0 is played once if and only if it has a length, unless the channel
does not advance at all. -/
theorem loopRegion_iff (h : Reachable au) (c : Fin audioNumChannels) :
    (Loops au c → 0 < sampleLen au c →
      (loopStart au c).toNat + (loopLen au c).toNat ≤ (sampleLen au c).toNat →
      (LoopsRegion au c ↔
        (loopStart au c).toNat + (loopLen au c).toNat = (sampleLen au c).toNat ∨
          ¬Advances au c)) ∧
    (loopEn au c = false → (au.chan c).position = 0 →
      (PlaysOnce au c ↔ 0 < sampleLen au c ∨ ¬Advances au c)) := by
  have hfrac := h.fracOk c
  constructor
  · intro hloops _ hle
    constructor
    · intro hregion
      by_cases hadvances : Advances au c
      · exact .inl (eq_of_loopsRegion hadvances hfrac hloops hle hregion)
      · exact .inr hadvances
    · rintro (heq | hstays)
      · exact loopsRegion_of_eq hloops heq
      · have hnil := visits_nil hstays hfrac
        constructor
        · intro n i hi
          rw [hnil n] at hi
          exact absurd hi (Nat.not_lt_zero i)
        · intro n i hi
          rw [hnil n] at hi
          exact absurd hi (Nat.not_lt_zero i)
  · intro hen hstart
    have hloops : ¬Loops au c := fun hloops => by
      rw [hloops.1] at hen
      cases hen
    constructor
    · intro honce
      by_cases hadvances : Advances au c
      · refine .inl (Nat.pos_of_ne_zero fun hzero => ?_)
        exact not_playsOnce_of_zero hadvances hfrac hzero honce
      · exact .inr hadvances
    · rintro (hlen | hstays)
      · exact playsOnce_of_pos hfrac hloops hstart hlen
      · have hnil := visits_nil hstays hfrac
        constructor
        · intro n
          rw [hnil n]
          exact Nat.zero_le _
        · intro n k hk
          rw [hnil n] at hk
          exact absurd hk (Nat.not_lt_zero k)
        · intro n k hk
          rw [hnil n] at hk
          exact absurd hk (Nat.not_lt_zero k)
        · intro n k hk
          rw [hnil n] at hk
          exact absurd hk (Nat.not_lt_zero k)
        · exact fun hadvances => absurd hadvances hstays

/-- Channel 0 after these writes of registers. -/
def channel0 (regs : List (Word × Word)) : Audio :=
  regs.foldl (fun au w => tritonAudioWrite au w.1 w.2) (tritonAudioInit (fun _ => 0) 0x1000)

theorem reachable_channel0 (regs : List (Word × Word)) : Reachable (channel0 regs) := by
  have hfold (au : Audio) (h : Reachable au) :
      Reachable (regs.foldl (fun au w => tritonAudioWrite au w.1 w.2) au) := by
    induction regs generalizing au with
    | nil => exact h
    | cons w regs ih => exact ih _ (h.write w.1 w.2)
  exact hfold _ (.init ..)

/-- The positions of channel 0 in one frame. -/
def framePositions (au : Audio) : List Nat :=
  (visits au 0 1).map fun x => (x.1.chan 0).position.toNat

/-- A sample of four frames with a loop of its last two, and the same sample without LOOP, each for
six steps of the first frame. -/
theorem loopRegion_last :
    let loop := channel0 [(0x07, 4), (0x0B, 2), (0x0F, 2), (0x10, 6), (0x14, 0x83), (0x206, 1)]
    let shot := channel0 [(0x07, 4), (0x0B, 2), (0x0F, 2), (0x10, 6), (0x14, 0x81), (0x206, 1)]
    LoopsRegion loop 0 ∧ framePositions loop = [1, 2, 3, 2, 3, 2] ∧
      PlaysOnce shot 0 ∧ framePositions shot = [1, 2, 3, 4] := by
  intro loop shot
  refine ⟨?_, by decide, ?_, by decide⟩
  · exact ((loopRegion_iff (reachable_channel0 _) 0).1 ⟨by decide, by decide⟩ (by decide)
      (by decide)).mpr (.inl (by decide))
  · exact ((loopRegion_iff (reachable_channel0 _) 0).2 (by decide) (by decide)).mpr
      (.inl (by decide))

/-- A loop of the first two frames goes on to the fourth one. -/
theorem loopRegion_passed :
    ¬LoopsRegion (channel0 [(0x07, 4), (0x0F, 2), (0x10, 6), (0x14, 0x83), (0x206, 1)]) 0 := by
  intro h
  have hvisit := h.region 1 3 (by decide) ⟨by decide, by decide⟩ 2 (by decide)
  revert hvisit
  decide

end

end MechanicalResearcher.TritonAudio
