import MechanicalResearcher.Lib.Accesses
import MechanicalResearcher.TritonAudio.Mixer

/-!
# The bytes of RAM that the mixer reads

Each function is beside the list of the indices of RAM that it reads, in the order of the code.
The check for 16-bit samples wraps with the last address of all.
-/

namespace MechanicalResearcher.TritonAudio

open Lib

/-! ## The reads of each function -/

section

variable (au : Audio) (c : Fin audioNumChannels)

def ramRd16sReads (addr : Word) : List Nat := [addr.toNat, (addr + 1).toNat]

def fetchSampleReads : List Nat :=
  if format au c = audioFmtPcm16 then
    let addr := sampleAddr au c + (au.chan c).position * 2
    if au.ramSize ≤ addr + 1 then [] else ramRd16sReads addr
  else if format au c = audioFmtPcm8 then
    let addr := sampleAddr au c + (au.chan c).position
    if au.ramSize ≤ addr then [] else [addr.toNat]
  else []

def adpcmFetchNibbleReads (baseAddr pos : Word) : List Nat := [(baseAddr + pos / 2).toNat]

def decodeNextReads : List Nat :=
  let ch := au.chan c
  if format au c = audioFmtAdpcm then
    if sampleAddr au c + ch.position / 2 < au.ramSize then
      adpcmFetchNibbleReads (sampleAddr au c) ch.position
    else []
  else []

def advanceChannelReads (au : Audio) : Nat → List Nat
  | 0 => []
  | steps + 1 =>
    decodeNextReads au c ++
      if (advanceOne au c).2.2 then [] else advanceChannelReads (advanceOne au c).1 steps

def mixChannelReads : List Nat :=
  let ch := au.chan c
  if ch.status &&& achanStatPlaying = 0 then []
  else if control au c &&& achanCtrlEnable = 0 then []
  else
    let frac := ch.frac + (frequency au c).zeroExtend 32
    let steps := frac >>> 8
    fetchSampleReads au c ++
      if 0 < steps then
        advanceChannelReads c (au.setChan c { ch with frac := frac &&& 0xFF }) steps.toNat
      else []

/-- The state after a channel's part of a frame. -/
def channelTurn : Audio := (mixChannel (au, 0, 0) c).1

def mixFrameReads (globalEn : Bool) : List Nat :=
  if globalEn then
    runAccesses channelTurn mixChannelReads au (List.finRange audioNumChannels)
  else []

/-- The state after a frame of `tritonAudioMix au`. -/
def frameTurn (au' : Audio) : Audio :=
  (mixFrame au' (globalEnable au) (au.regs audioMasterVolL) (au.regs audioMasterVolR)).1

def tritonAudioMixReads (nframes : Nat) : List Nat :=
  runAccesses (fun au' _ => frameTurn au au') (fun au' _ => mixFrameReads au' (globalEnable au))
    au (List.range nframes)

end

/-! ## The states of the turns -/

/-- What only the bus writes. -/
structure Audio.Fixed (au' au : Audio) : Prop where
  regs : au'.regs = au.regs
  ram : au'.ram = au.ram
  ramSize : au'.ramSize = au.ramSize

theorem Audio.Fixed.refl (au : Audio) : au.Fixed au := ⟨rfl, rfl, rfl⟩

theorem Audio.Fixed.trans {au au' au'' : Audio} (h : au''.Fixed au') (h' : au'.Fixed au) :
    au''.Fixed au :=
  ⟨h.regs.trans h'.regs, h.ram.trans h'.ram, h.ramSize.trans h'.ramSize⟩

section

variable (au : Audio) (c : Fin audioNumChannels)

theorem advanceOne_fixed : (advanceOne au c).1.Fixed au := by
  unfold advanceOne
  dsimp only
  split_ifs <;> exact ⟨rfl, rfl, rfl⟩

theorem advanceChannel_fixed (steps : Nat) : (advanceChannel c au steps).1.Fixed au := by
  induction steps generalizing au with
  | zero => exact .refl au
  | succ steps ih =>
    rw [advanceChannel]
    dsimp only
    split_ifs
    · exact advanceOne_fixed au c
    · exact (ih _).trans (advanceOne_fixed au c)

theorem channelTurn_fixed : (channelTurn au c).Fixed au := by
  unfold channelTurn mixChannel
  dsimp only
  split_ifs
  · exact .refl au
  · exact .refl au
  · exact (advanceChannel_fixed ..).trans ⟨rfl, rfl, rfl⟩
  · exact ⟨rfl, rfl, rfl⟩

theorem mixChannel_fst (left right : Int) :
    (mixChannel (au, left, right) c).1 = channelTurn au c := by
  unfold channelTurn mixChannel
  dsimp only
  split_ifs <;> rfl

theorem foldl_mixChannel_fst (cs : List (Fin audioNumChannels)) (left right : Int) :
    (cs.foldl mixChannel (au, left, right)).1 = cs.foldl channelTurn au := by
  induction cs generalizing au left right with
  | nil => rfl
  | cons c cs ih =>
    rw [List.foldl_cons, List.foldl_cons, ← mixChannel_fst au c left right]
    exact ih ..

theorem foldl_channelTurn_fixed (cs : List (Fin audioNumChannels)) :
    (cs.foldl channelTurn au).Fixed au := by
  induction cs generalizing au with
  | nil => exact .refl au
  | cons c cs ih => exact (ih (channelTurn au c)).trans (channelTurn_fixed au c)

theorem frameTurn_fixed (au' : Audio) : (frameTurn au au').Fixed au' := by
  unfold frameTurn mixFrame
  dsimp only
  split_ifs
  · rw [foldl_mixChannel_fst]
    exact foldl_channelTurn_fixed ..
  · exact .refl au'

theorem mixLoop_fst (n : Nat) (au' : Audio) :
    (mixLoop (globalEnable au) (au.regs audioMasterVolL) (au.regs audioMasterVolR) n au').1 =
      (frameTurn au)^[n] au' := by
  induction n generalizing au' with
  | zero => rfl
  | succ n ih => exact ih (frameTurn au au')

theorem tritonAudioMix_fst (n : Nat) : (tritonAudioMix au n).1 = (frameTurn au)^[n] au :=
  mixLoop_fst au n au

theorem tritonAudioMix_fixed (n : Nat) : (tritonAudioMix au n).1.Fixed au := by
  have hiterate (au' : Audio) : ((frameTurn au)^[n] au').Fixed au' := by
    induction n generalizing au' with
    | zero => exact .refl au'
    | succ n ih => exact (ih (frameTurn au au')).trans (frameTurn_fixed au au')
  rw [tritonAudioMix_fst]
  exact hiterate au

end

/-! ## The reads are all that counts -/

section

/-- The RAM is replaced. -/
def Audio.over (au : Audio) (ram : Nat → Byte) : Audio := { au with ram := ram }

variable {au : Audio} {c : Fin audioNumChannels} {ram : Nat → Byte}

@[simp] theorem over_ram : (au.over ram).ram = ram := rfl
@[simp] theorem over_ramSize : (au.over ram).ramSize = au.ramSize := rfl
@[simp] theorem over_chan : (au.over ram).chan = au.chan := rfl
@[simp] theorem over_format : format (au.over ram) c = format au c := rfl
@[simp] theorem over_sampleAddr : sampleAddr (au.over ram) c = sampleAddr au c := rfl

theorem fetchSample_over (h : ∀ i ∈ fetchSampleReads au c, ram i = au.ram i) :
    fetchSample (au.over ram) c = fetchSample au c := by
  simp only [fetchSampleReads, ramRd16sReads] at h
  simp only [fetchSample, over_ram, over_ramSize, over_chan, over_format, over_sampleAddr]
  by_cases h16 : format au c = audioFmtPcm16
  · simp only [h16, if_true] at h ⊢
    by_cases hsize : au.ramSize ≤ sampleAddr au c + (au.chan c).position * 2 + 1
    · simp only [hsize, if_true]
    · simp only [hsize, if_false] at h ⊢
      exact congrArg₂ (· ++ ·) (h _ (.head _)) (h _ (.tail _ (.head _)))
  simp only [h16, if_false] at h ⊢
  by_cases h8 : format au c = audioFmtPcm8
  · simp only [h8, if_true] at h ⊢
    by_cases hsize : au.ramSize ≤ sampleAddr au c + (au.chan c).position
    · simp only [hsize, if_true]
    · simp only [hsize, if_false] at h ⊢
      exact congrArg (· ++ (0 : Byte)) (h _ (.head _))
  · simp only [h8, if_false]
    congr

theorem decodeNext_over (h : ∀ i ∈ decodeNextReads au c, ram i = au.ram i) :
    decodeNext (au.over ram) c = decodeNext au c := by
  simp only [decodeNextReads, adpcmFetchNibbleReads] at h
  simp only [decodeNext, over_ram, over_ramSize, over_chan, over_format, over_sampleAddr]
  by_cases hfmt : format au c = audioFmtAdpcm
  · simp only [hfmt, if_true] at h ⊢
    by_cases hsize : sampleAddr au c + (au.chan c).position / 2 < au.ramSize
    · simp only [hsize, if_true] at h ⊢
      rw [adpcmFetchNibble, adpcmFetchNibble, h _ (.head _)]
    · simp only [hsize, if_false]
  · simp only [hfmt, if_false]

theorem advanceOne_over (h : ∀ i ∈ decodeNextReads au c, ram i = au.ram i) :
    advanceOne (au.over ram) c = ((advanceOne au c).1.over ram, (advanceOne au c).2) := by
  have hlen : sampleLen (au.over ram) c = sampleLen au c := rfl
  have hen : loopEn (au.over ram) c = loopEn au c := rfl
  have hloop : loopLen (au.over ram) c = loopLen au c := rfl
  simp only [advanceOne, decodeNext_over h, hlen, hen, hloop]
  split_ifs <;> rfl

theorem advanceChannel_over (steps : Nat)
    (h : ∀ i ∈ advanceChannelReads c au steps, ram i = au.ram i) :
    advanceChannel c (au.over ram) steps =
      ((advanceChannel c au steps).1.over ram, (advanceChannel c au steps).2) := by
  induction steps generalizing au with
  | zero => rfl
  | succ steps ih =>
    rw [advanceChannelReads, List.forall_mem_append] at h
    rw [advanceChannel, advanceChannel, advanceOne_over h.1]
    dsimp only
    have hrest := h.2
    split_ifs at hrest ⊢ with hstop
    · rfl
    · rw [← (advanceOne_fixed au c).ram] at hrest
      rw [ih hrest]

theorem mixChannel_over (left right : Int) (h : ∀ i ∈ mixChannelReads au c, ram i = au.ram i) :
    mixChannel (au.over ram, left, right) c =
      ((mixChannel (au, left, right) c).1.over ram, (mixChannel (au, left, right) c).2) := by
  have hcontrol : control (au.over ram) c = control au c := rfl
  have hfreq : frequency (au.over ram) c = frequency au c := rfl
  simp only [mixChannelReads] at h
  simp only [mixChannel, over_chan, hcontrol, hfreq]
  by_cases hplaying : (au.chan c).status &&& achanStatPlaying = 0
  · simp only [hplaying, if_true]
  by_cases henabled : control au c &&& achanCtrlEnable = 0
  · simp only [hplaying, henabled, if_false, if_true]
  simp only [hplaying, henabled, if_false, List.forall_mem_append] at h ⊢
  rw [fetchSample_over h.1]
  refine Prod.ext ?_ rfl
  dsimp only
  split_ifs with hsteps
  · have hrest := h.2
    rw [if_pos hsteps] at hrest
    exact congrArg Prod.fst (advanceChannel_over _ hrest)
  · rfl

theorem foldl_mixChannel_over (cs : List (Fin audioNumChannels)) (left right : Int)
    (h : ∀ i ∈ runAccesses channelTurn mixChannelReads au cs, ram i = au.ram i) :
    cs.foldl mixChannel (au.over ram, left, right) =
      ((cs.foldl mixChannel (au, left, right)).1.over ram,
        (cs.foldl mixChannel (au, left, right)).2) := by
  induction cs generalizing au left right with
  | nil => rfl
  | cons c cs ih =>
    rw [runAccesses, List.forall_mem_append] at h
    rw [List.foldl_cons, List.foldl_cons, mixChannel_over left right h.1]
    have hrest := h.2
    rw [← (channelTurn_fixed au c).ram, ← mixChannel_fst au c left right] at hrest
    exact ih _ _ hrest

theorem mixFrame_over (globalEn : Bool) (masterL masterR : Byte)
    (h : ∀ i ∈ mixFrameReads au globalEn, ram i = au.ram i) :
    mixFrame (au.over ram) globalEn masterL masterR =
      ((mixFrame au globalEn masterL masterR).1.over ram,
        (mixFrame au globalEn masterL masterR).2) := by
  cases globalEn with
  | false => rfl
  | true =>
    have hfold := foldl_mixChannel_over (List.finRange audioNumChannels) 0 0 h
    simp only [mixFrame, if_true, hfold]

/-- The mixer depends on no other byte of the RAM. -/
theorem tritonAudioMix_over (n : Nat) (h : ∀ i ∈ tritonAudioMixReads au n, ram i = au.ram i) :
    tritonAudioMix (au.over ram) n =
      ((tritonAudioMix au n).1.over ram, (tritonAudioMix au n).2) := by
  have hloop : ∀ (l : List Nat) (au' : Audio), au'.Fixed au →
      (∀ i ∈ runAccesses (fun au' _ => frameTurn au au')
        (fun au' _ => mixFrameReads au' (globalEnable au)) au' l, ram i = au.ram i) →
      mixLoop (globalEnable au) (au.regs audioMasterVolL) (au.regs audioMasterVolR) l.length
          (au'.over ram) =
        let r := mixLoop (globalEnable au) (au.regs audioMasterVolL) (au.regs audioMasterVolR)
          l.length au'
        (r.1.over ram, r.2) := by
    intro l
    induction l with
    | nil => exact fun _ _ _ => rfl
    | cons i l ih =>
      intro au' hfixed hreads
      rw [runAccesses, List.forall_mem_append] at hreads
      have hreads' : ∀ i ∈ mixFrameReads au' (globalEnable au), ram i = au'.ram i := by
        rw [hfixed.ram]
        exact hreads.1
      have hframe := mixFrame_over (globalEnable au) (au.regs audioMasterVolL)
        (au.regs audioMasterVolR) hreads'
      have hrest := ih (frameTurn au au') ((frameTurn_fixed au au').trans hfixed) hreads.2
      rw [List.length_cons, mixLoop, mixLoop, hframe]
      dsimp only at hrest ⊢
      unfold frameTurn at hrest
      rw [hrest]
  have h' := hloop (List.range n) au (.refl au) h
  rw [List.length_range] at h'
  exact h'

end

/-! ## What is in range -/

section

variable (au : Audio) (c : Fin audioNumChannels)

/-- The check of a 16-bit sample wraps: its last byte is at address 0, its first one at the last
address of all. -/
structure Overreads : Prop where
  playing : (au.chan c).status &&& achanStatPlaying ≠ 0
  enabled : control au c &&& achanCtrlEnable ≠ 0
  pcm16 : format au c = audioFmtPcm16
  last : sampleAddr au c + (au.chan c).position * 2 = 0xFFFFFFFF
  ram : au.ramSize ≠ 0

theorem ramRd16sReads_safe_iff {size addr : Word} (hcheck : ¬size ≤ addr + 1) :
    Safe (· < size.toNat) (ramRd16sReads addr) ↔ addr ≠ 0xFFFFFFFF := by
  have hsize := size.isLt
  rw [ramRd16sReads, Safe, List.forall_mem_cons, List.forall_mem_singleton]
  constructor
  · rintro ⟨hfirst, _⟩ rfl
    have hmax : (0xFFFFFFFF : Word).toNat = 2 ^ 32 - 1 := rfl
    omega
  · intro hlast
    have hnext : (addr + 1).toNat = addr.toNat + 1 := by bv_omega
    rw [BitVec.le_def, hnext] at hcheck
    rw [hnext]
    omega

theorem fetchSampleReads_safe_iff (hplaying : (au.chan c).status &&& achanStatPlaying ≠ 0)
    (henabled : control au c &&& achanCtrlEnable ≠ 0) :
    Safe (· < au.ramSize.toNat) (fetchSampleReads au c) ↔ ¬Overreads au c := by
  unfold fetchSampleReads
  dsimp only
  split_ifs with h16 hcheck h8 hcheck
  · refine iff_of_true Safe.nil fun hover => hover.ram ?_
    rw [hover.last] at hcheck
    exact BitVec.le_zero_iff.mp hcheck
  · rw [ramRd16sReads_safe_iff hcheck]
    constructor
    · intro hlast hover
      exact hlast hover.last
    · intro hover hlast
      refine hover ⟨hplaying, henabled, h16, hlast, ?_⟩
      intro hzero
      rw [hzero] at hcheck
      exact hcheck (Nat.zero_le _)
  · exact iff_of_true Safe.nil fun hover => h16 hover.pcm16
  · refine iff_of_true (Safe.cons ?_ Safe.nil) fun hover => h16 hover.pcm16
    exact Nat.lt_of_not_le hcheck
  · exact iff_of_true Safe.nil fun hover => h16 hover.pcm16

theorem decodeNextReads_safe : Safe (· < au.ramSize.toNat) (decodeNextReads au c) := by
  unfold decodeNextReads
  dsimp only
  split_ifs with hfmt hcheck
  · exact Safe.cons hcheck Safe.nil
  · exact Safe.nil
  · exact Safe.nil

theorem advanceChannelReads_safe (steps : Nat) :
    Safe (· < au.ramSize.toNat) (advanceChannelReads c au steps) := by
  induction steps generalizing au with
  | zero => exact Safe.nil
  | succ steps ih =>
    rw [advanceChannelReads]
    refine Safe.append (decodeNextReads_safe au c) (Safe.ite (fun _ => Safe.nil) fun _ => ?_)
    rw [← (advanceOne_fixed au c).ramSize]
    exact ih (advanceOne au c).1

theorem mixChannelReads_safe_iff :
    Safe (· < au.ramSize.toNat) (mixChannelReads au c) ↔ ¬Overreads au c := by
  unfold mixChannelReads
  dsimp only
  split_ifs with hplaying henabled hsteps
  · exact iff_of_true Safe.nil fun hover => hover.playing hplaying
  · exact iff_of_true Safe.nil fun hover => hover.enabled henabled
  · rw [Safe.append_iff, fetchSampleReads_safe_iff au c hplaying henabled]
    exact and_iff_left (advanceChannelReads_safe (au.setChan c _) c _)
  · rw [List.append_nil]
    exact fetchSampleReads_safe_iff au c hplaying henabled

theorem mixFrameReads_safe_iff (globalEn : Bool) :
    Safe (· < au.ramSize.toNat) (mixFrameReads au globalEn) ↔
      (globalEn = true → ∀ c : Fin audioNumChannels,
        ¬Overreads (((List.finRange audioNumChannels).take c).foldl channelTurn au) c) := by
  cases globalEn with
  | false => exact iff_of_true Safe.nil fun h => absurd h (by decide)
  | true =>
    have hturn (c : Fin audioNumChannels) :
        Safe (· < au.ramSize.toNat) (mixChannelReads
          (((List.finRange audioNumChannels).take c).foldl channelTurn au) c) ↔
        ¬Overreads (((List.finRange audioNumChannels).take c).foldl channelTurn au) c := by
      rw [← mixChannelReads_safe_iff, (foldl_channelTurn_fixed au _).ramSize]
    rw [mixFrameReads, if_pos rfl, safe_runAccesses_iff]
    constructor
    · intro h _ c
      have hc := h c (by simp)
      rw [List.getElem_finRange] at hc
      exact (hturn c).mp hc
    · intro h k hk
      rw [List.getElem_finRange]
      rw [List.length_finRange] at hk
      exact (hturn ⟨k, hk⟩).mpr (h rfl ⟨k, hk⟩)

/-- The state before the turn of channel `c` in frame `f`. -/
def beforeTurn (f : Nat) : Audio :=
  ((List.finRange audioNumChannels).take c).foldl channelTurn (tritonAudioMix au f).1

/-- Everything that is read is in the RAM, unless a channel is at the last address of all. -/
theorem tritonAudioMixReads_safe_iff (nframes : Nat) :
    Safe (· < au.ramSize.toNat) (tritonAudioMixReads au nframes) ↔
      (globalEnable au = true → ∀ f < nframes, ∀ c, ¬Overreads (beforeTurn au c f) c) := by
  have hframe (f : Nat) :
      Safe (· < au.ramSize.toNat) (mixFrameReads (tritonAudioMix au f).1 (globalEnable au)) ↔
        (globalEnable au = true → ∀ c, ¬Overreads (beforeTurn au c f) c) := by
    rw [← (tritonAudioMix_fixed au f).ramSize]
    exact mixFrameReads_safe_iff (tritonAudioMix au f).1 (globalEnable au)
  have hstate {k : Nat} (hk : k < nframes) :
      ((List.range nframes).take k).foldl (fun au' _ => frameTurn au au') au =
        (tritonAudioMix au k).1 := by
    rw [List.foldl_const, List.length_take, List.length_range, Nat.min_eq_left hk.le,
      tritonAudioMix_fst]
  rw [tritonAudioMixReads, safe_runAccesses_iff]
  constructor
  · intro h hen f hf
    have hf' := h f (by rwa [List.length_range])
    rw [hstate hf] at hf'
    exact (hframe f).mp hf' hen
  · intro h k hk
    rw [List.length_range] at hk
    rw [hstate hk]
    exact (hframe k).mpr fun hen => h hen k hk

/-- Channel 0 plays a 16-bit sample at the last address. -/
def lastAddress : Audio :=
  [(0x00, 0xFF), (0x01, 0xFF), (0x02, 0xFF), (0x03, 0xFF), (0x14, 0x81), (0x206, 0x01)].foldl
    (fun au w => tritonAudioWrite au w.1 w.2) (tritonAudioInit (fun _ => 0) 0x1000)

theorem tritonAudioMix_overreads :
    ¬Safe (· < lastAddress.ramSize.toNat) (tritonAudioMixReads lastAddress 1) := by
  decide

end

end MechanicalResearcher.TritonAudio
