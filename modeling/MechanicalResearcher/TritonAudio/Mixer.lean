import Mathlib.Data.Fin.Basic
import Mathlib.Logic.Function.Basic

/-!
# The audio mixer

`triton_audio.c`: sixteen channels that play samples from RAM.  Fields of `uint32_t` are bit
vectors, so that addresses wrap; `int` is `Int`.  The output is the list of the frames.
-/

namespace MechanicalResearcher.TritonAudio

abbrev Byte := BitVec 8
abbrev Half := BitVec 16
abbrev Word := BitVec 32

abbrev audioNumChannels : Nat := 16
def audioChanSize : Nat := 32
def audioRegSize : Nat := 0x400

def achanSampleAddr : Nat := 0x00
def achanSampleLen : Nat := 0x04
def achanLoopStart : Nat := 0x08
def achanLoopLen : Nat := 0x0C
def achanFrequency : Nat := 0x10
def achanVolumeL : Nat := 0x12
def achanVolumeR : Nat := 0x13
def achanControl : Nat := 0x14
def achanStatus : Nat := 0x15

def achanCtrlEnable : Byte := 1 <<< 0
def achanCtrlLoop : Byte := 1 <<< 1
def achanCtrlFmtShift : Nat := 2
def achanCtrlKeyOn : Byte := 1 <<< 7

def achanStatPlaying : Byte := 1 <<< 0
def achanStatLoopHit : Byte := 1 <<< 1
def achanStatEndHit : Byte := 1 <<< 2

def audioFmtPcm16 : Byte := 0
def audioFmtPcm8 : Byte := 1
def audioFmtAdpcm : Byte := 2

def audioMasterVolL : Nat := 0x200
def audioMasterVolR : Nat := 0x201
def audioIrqStatus : Nat := 0x202
def audioIrqEnable : Nat := 0x204
def audioGlobalCtrl : Nat := 0x206

def audioGctrlEnable : Byte := 1 <<< 0
def audioGctrlIrqEn : Byte := 1 <<< 1

/-- `triton_audio_chan` -/
structure Chan where
  position : Word := 0
  /-- 8 fractional bits -/
  frac : Word := 0
  adpcmPred : Half := 0
  adpcmIndex : Int := 0
  status : Byte := 0

/-- `triton_audio`, without the interrupt callback.  The first `ramSize` bytes of `ram` are the
array that the caller passed. -/
structure Audio where
  regs : Nat → Byte
  chan : Fin audioNumChannels → Chan
  irqPending : Half
  ram : Nat → Byte
  ramSize : Word

namespace Audio

def setChan (au : Audio) (c : Fin audioNumChannels) (ch : Chan) : Audio :=
  { au with chan := Function.update au.chan c ch }

def setReg (au : Audio) (off : Nat) (v : Byte) : Audio :=
  { au with regs := Function.update au.regs off v }

@[simp] theorem chan_setChan (au : Audio) (c : Fin audioNumChannels) (ch : Chan) :
    (au.setChan c ch).chan c = ch :=
  Function.update_self ..

theorem chan_setChan_of_ne (au : Audio) {c i : Fin audioNumChannels} (h : i ≠ c) (ch : Chan) :
    (au.setChan c ch).chan i = au.chan i :=
  Function.update_of_ne h ..

end Audio

def regRd16 (regs : Nat → Byte) (off : Nat) : Half := regs off ++ regs (off + 1)

def regRd32 (regs : Nat → Byte) (off : Nat) : Word :=
  regs off ++ regs (off + 1) ++ regs (off + 2) ++ regs (off + 3)

variable (au : Audio) (c : Fin audioNumChannels)

/-- A register of the block of channel `c`. -/
def chanReg (off : Nat) : Nat := c * audioChanSize + off

def sampleAddr : Word := regRd32 au.regs (chanReg c achanSampleAddr)
def sampleLen : Word := regRd32 au.regs (chanReg c achanSampleLen) &&& 0x00FFFFFF
def loopStart : Word := regRd32 au.regs (chanReg c achanLoopStart) &&& 0x00FFFFFF
def loopLen : Word := regRd32 au.regs (chanReg c achanLoopLen) &&& 0x00FFFFFF
def frequency : Half := regRd16 au.regs (chanReg c achanFrequency)
def volumeL : Byte := au.regs (chanReg c achanVolumeL)
def volumeR : Byte := au.regs (chanReg c achanVolumeR)
def control : Byte := au.regs (chanReg c achanControl)
def format : Byte := (control au c >>> achanCtrlFmtShift) &&& 3
def loopEn : Bool := control au c &&& achanCtrlLoop ≠ 0

def imaStepTable : List Int :=
  [7, 8, 9, 10, 11, 12, 13, 14,
    16, 17, 19, 21, 23, 25, 28, 31,
    34, 37, 41, 45, 50, 55, 60, 66,
    73, 80, 88, 97, 107, 118, 130, 143,
    157, 173, 190, 209, 230, 253, 279, 307,
    337, 371, 408, 449, 494, 544, 598, 658,
    724, 796, 876, 963, 1060, 1166, 1282, 1411,
    1552, 1707, 1878, 2066, 2272, 2499, 2749, 3024,
    3327, 3660, 4026, 4428, 4871, 5358, 5894, 6484,
    7132, 7845, 8630, 9493, 10442, 11487, 12635, 13899,
    15289, 16818, 18500, 20350, 22385, 24623, 27086, 29794,
    32767]

def imaIndexTable : List Int := [-1, -1, -1, -1, 2, 4, 6, 8, -1, -1, -1, -1, 2, 4, 6, 8]

/-- Confine an `int` to a range. -/
def confine (lo hi v : Int) : Int := if hi < v then hi else if v < lo then lo else v

/-- The channel after a nibble; the new predictor is the sample. -/
def adpcmDecodeNibble (ch : Chan) (nibble : Byte) : Chan :=
  let step := imaStepTable.getD ch.adpcmIndex.toNat 0
  let diff := step >>> (3 : Nat)
  let diff := if nibble.getLsbD 0 then diff + step >>> (2 : Nat) else diff
  let diff := if nibble.getLsbD 1 then diff + step >>> (1 : Nat) else diff
  let diff := if nibble.getLsbD 2 then diff + step else diff
  let diff := if nibble.getLsbD 3 then -diff else diff
  let pred := confine (-32768) 32767 (ch.adpcmPred.toInt + diff)
  let index := ch.adpcmIndex + imaIndexTable.getD (nibble &&& 0xF).toNat 0
  { ch with adpcmPred := BitVec.ofInt 16 pred, adpcmIndex := confine 0 88 index }

/-- High nibble first. -/
def adpcmFetchNibble (ram : Nat → Byte) (baseAddr pos : Word) : Byte :=
  let byte := ram (baseAddr + pos / 2).toNat
  if pos &&& 1 ≠ 0 then byte &&& 0x0F else (byte >>> 4) &&& 0x0F

def ramRd16s (ram : Nat → Byte) (addr : Word) : Half := ram addr.toNat ++ ram (addr + 1).toNat

/-- Scaled to 16 bits. -/
def ramRd8s (ram : Nat → Byte) (addr : Word) : Half := ram addr.toNat ++ (0 : Byte)

def fetchSample : Half :=
  if format au c = audioFmtPcm16 then
    let addr := sampleAddr au c + (au.chan c).position * 2
    if au.ramSize ≤ addr + 1 then 0 else ramRd16s au.ram addr
  else if format au c = audioFmtPcm8 then
    let addr := sampleAddr au c + (au.chan c).position
    if au.ramSize ≤ addr then 0 else ramRd8s au.ram addr
  else if format au c = audioFmtAdpcm then (au.chan c).adpcmPred
  else 0

/-- For ADPCM, decode the next nibble before the position advances. -/
def decodeNext : Chan :=
  let ch := au.chan c
  if format au c = audioFmtAdpcm then
    if sampleAddr au c + ch.position / 2 < au.ramSize then
      adpcmDecodeNibble ch (adpcmFetchNibble au.ram (sampleAddr au c) ch.position)
    else ch
  else ch

def raiseIrq : Half := au.irqPending ||| 1 <<< c.val

/-- A turn of the loop of `advance_channel`: whether the end or the loop was hit, and whether
the loop is left. -/
def advanceOne : Audio × Bool × Bool :=
  let ch := decodeNext au c
  let ch := { ch with position := ch.position + 1 }
  let len := sampleLen au c
  if 0 < len ∧ len ≤ ch.position then
    if loopEn au c = true ∧ 0 < loopLen au c then
      let ch := { ch with position := loopStart au c, status := ch.status ||| achanStatLoopHit }
      ({ au.setChan c ch with irqPending := raiseIrq au c }, true, false)
    else
      let status := (ch.status &&& ~~~achanStatPlaying) ||| achanStatEndHit
      let ch := { ch with position := len, status := status }
      ({ au.setChan c ch with irqPending := raiseIrq au c }, true, true)
  else (au.setChan c ch, false, false)

def advanceChannel (au : Audio) : Nat → Audio × Bool
  | 0 => (au, false)
  | steps + 1 =>
    let (au, hit, stop) := advanceOne au c
    if stop then (au, hit)
    else
      let (au, hit') := advanceChannel au steps
      (au, hit || hit')

/-- The body of the loop over the channels, with the two accumulators. -/
def mixChannel (r : Audio × Int × Int) (c : Fin audioNumChannels) : Audio × Int × Int :=
  let (au, left, right) := r
  let ch := au.chan c
  if ch.status &&& achanStatPlaying = 0 then r
  else if control au c &&& achanCtrlEnable = 0 then r
  else
    let sample := (fetchSample au c).toInt
    let left := left + (sample * (volumeL au c).toNat) >>> (8 : Nat)
    let right := right + (sample * (volumeR au c).toNat) >>> (8 : Nat)
    let frac := ch.frac + (frequency au c).zeroExtend 32
    let steps := frac >>> 8
    let au := au.setChan c { ch with frac := frac &&& 0xFF }
    (if 0 < steps then (advanceChannel c au steps.toNat).1 else au, left, right)

/-- A stereo frame, and the master volume on it. -/
def mixFrame (globalEn : Bool) (masterL masterR : Byte) : Audio × Half × Half :=
  let (au, left, right) :=
    if globalEn then (List.finRange audioNumChannels).foldl mixChannel (au, 0, 0) else (au, 0, 0)
  let left := confine (-32768) 32767 ((left * masterL.toNat) >>> (8 : Nat))
  let right := confine (-32768) 32767 ((right * masterR.toNat) >>> (8 : Nat))
  (au, BitVec.ofInt 16 left, BitVec.ofInt 16 right)

def mixLoop (globalEn : Bool) (masterL masterR : Byte) :
    Nat → Audio → Audio × List (Half × Half)
  | 0, au => (au, [])
  | n + 1, au =>
    let (au, frame) := mixFrame au globalEn masterL masterR
    let (au, out) := mixLoop globalEn masterL masterR n au
    (au, frame :: out)

def globalEnable : Bool := au.regs audioGlobalCtrl &&& audioGctrlEnable ≠ 0

def tritonAudioMix (nframes : Nat) : Audio × List (Half × Half) :=
  mixLoop (globalEnable au) (au.regs audioMasterVolL) (au.regs audioMasterVolR) nframes au

def tritonAudioInit (ram : Nat → Byte) (ramSize : Word) : Audio where
  regs off := if off = audioMasterVolL ∨ off = audioMasterVolR then 255 else 0
  chan _ := {}
  irqPending := 0
  ram := ram
  ramSize := ramSize

/-- The channel of an offset below the global registers. -/
def chanOf (offset : Nat) (h : offset < audioNumChannels * audioChanSize) :
    Fin audioNumChannels :=
  ⟨offset / audioChanSize, Nat.div_lt_of_lt_mul (Nat.mul_comm .. ▸ h)⟩

/-- KEY_ON: from the start of the sample, without the sticky flags. -/
def keyOn (au : Audio) (c : Fin audioNumChannels) (offset : Nat) : Audio :=
  let au := au.setChan c { status := achanStatPlaying }
  au.setReg offset (au.regs offset &&& ~~~achanCtrlKeyOn)

def tritonAudioWrite (offset val : Word) : Audio :=
  let off := offset.toNat
  if audioRegSize ≤ off then au
  else if h : off < audioNumChannels * audioChanSize then
    if off % audioChanSize = achanStatus then au
    else
      let au := au.setReg off (val.truncate 8)
      if off % audioChanSize = achanControl ∧ (val.truncate 8 : Byte) &&& achanCtrlKeyOn ≠ 0 then
        keyOn au (chanOf off h) off
      else au
  else au.setReg off (val.truncate 8)

/-- The byte that is read, and the state without the flags that the read clears. -/
def tritonAudioRead (offset : Word) : Byte × Audio :=
  let off := offset.toNat
  if audioRegSize ≤ off then (0, au)
  else if h : off < audioNumChannels * audioChanSize then
    if off % audioChanSize = achanStatus then
      let c := chanOf off h
      let ch := au.chan c
      (ch.status, au.setChan c { ch with status := ch.status &&& achanStatPlaying })
    else (au.regs off, au)
  else if off = audioIrqStatus ∨ off = audioIrqStatus + 1 then
    (au.regs off, au.setReg off 0)
  else (au.regs off, au)

def regWr16 (au : Audio) (off : Nat) (val : Half) : Audio :=
  (au.setReg off ((val >>> 8).truncate 8)).setReg (off + 1) (val.truncate 8)

/-- The state, and whether an interrupt is delivered. -/
def tritonAudioCheckIrq : Audio × Bool :=
  if au.regs audioGlobalCtrl &&& audioGctrlIrqEn = 0 then (au, false)
  else
    let pending := au.irqPending
    if pending = 0 then (au, false)
    else
      let fired := pending &&& regRd16 au.regs audioIrqEnable
      if fired = 0 then (au, false)
      else
        let au := regWr16 au audioIrqStatus (regRd16 au.regs audioIrqStatus ||| fired)
        ({ au with irqPending := au.irqPending &&& ~~~fired }, true)

/-- The states that the guest and the host can bring about. -/
inductive Reachable : Audio → Prop
  | init (ram : Nat → Byte) (ramSize : Word) : Reachable (tritonAudioInit ram ramSize)
  | write {au : Audio} (h : Reachable au) (offset val : Word) :
      Reachable (tritonAudioWrite au offset val)
  | read {au : Audio} (h : Reachable au) (offset : Word) : Reachable (tritonAudioRead au offset).2
  | store {au : Audio} (h : Reachable au) (ram : Nat → Byte) : Reachable { au with ram := ram }
  | mix {au : Audio} (h : Reachable au) (n : Nat) : Reachable (tritonAudioMix au n).1
  | checkIrq {au : Audio} (h : Reachable au) : Reachable (tritonAudioCheckIrq au).1

end MechanicalResearcher.TritonAudio
