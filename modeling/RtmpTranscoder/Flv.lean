/-
**FLV payloads.**

The payload of an audio or a video message is the body of an FLV tag: a byte or two on the format, the
type of the packet, and for video a composition time.  `src/transcode/transcoder.cpp` takes such
payloads apart, turning NAL units with lengths into ones with start codes, and puts others together.
Taking apart is modelled with checked accesses, and the loop over the units with fuel.

Main definitions:

* `Transcode.toAnnexB`, `Transcode.parameterSets`, `Transcode.demuxVideo`, `Transcode.demuxAudio` —
  what the transcoder reads out of a payload;
* `Transcode.buildFlvVideoPacket`, `Transcode.buildFlvAudioPacket`,
  `Transcode.buildAvcDecoderConfig`, `Transcode.buildAacSequenceHeader` — what it writes;
* `Transcode.IsCodedVideo`, `Transcode.IsAvcHeader`, `Transcode.IsRawAac`, `Transcode.IsAacHeader` —
  messages with these payloads.

Main results:

* `Transcode.not_isAvcHeader`, `Transcode.not_isAacHeader` — **what carries media is not a header**.
-/

import RtmpTranscoder.Codecs
import RtmpTranscoder.Messages

set_option relaxedAutoImplicit false
set_option autoImplicit false

namespace Transcode

open Rtmp (Failure Message MessageType byteAt bytesAt)

/-! ### Taking apart -/

def startCode : List UInt8 := [0, 0, 0, 1]

/-- The length of a NAL unit: `n` bytes, read into 32 bits. -/
def naluLength (data : List UInt8) (offset n : ℕ) : Except Failure UInt32 :=
  (List.range n).foldlM (fun len i => do
    let byte ← byteAt data (offset + i)
    return (len <<< 8) ||| byte.toUInt32) 0

/-- The loop of `on_video_data`: NAL units with lengths of `n` bytes become units with start codes. -/
def toAnnexB (n : ℕ) (data : List UInt8) : ℕ → ℕ → Except Failure (List UInt8)
  | 0, _ => .error .outOfFuel
  | fuel + 1, offset =>
      if offset + n ≤ data.length then do
        let len ← naluLength data offset n
        let offset := offset + n
        if data.length < offset + len.toNat then return []
        else do
          let nalu ← bytesAt data offset len.toNat
          let rest ← toAnnexB n data fuel (offset + len.toNat)
          return startCode ++ nalu ++ rest
      else .ok []

/-- A loop of `parse_avc_decoder_config`: the parameter sets that are read, and the offset behind
them.  A length that leads past the end is skipped. -/
def parameterSets (data : List UInt8) : ℕ → ℕ → Except Failure (List (List UInt8) × ℕ)
  | 0, offset => .ok ([], offset)
  | count + 1, offset =>
      if offset + 2 ≤ data.length then do
        let hi ← byteAt data offset
        let lo ← byteAt data (offset + 1)
        let len := (Bytes.readU16Be hi lo).toNat
        let offset := offset + 2
        if offset + len ≤ data.length then do
          let set ← bytesAt data offset len
          let (sets, offset) ← parameterSets data count (offset + len)
          return (set :: sets, offset)
        else parameterSets data count offset
      else .ok ([], offset)

/-- `Transcoder::parse_avc_decoder_config`: the length size, and what the decoder is given. -/
def parseAvcDecoderConfig (data : List UInt8) : Except Failure (Option (ℕ × List (List UInt8))) :=
  if data.length < 7 then .ok none
  else do
    let lengthSize ← byteAt data 4
    let numSps ← byteAt data 5
    let (sps, offset) ← parameterSets data (numSps &&& 0x1F).toNat 6
    let pps ←
      if offset < data.length then do
        let numPps ← byteAt data offset
        let (pps, _) ← parameterSets data numPps.toNat (offset + 1)
        pure pps
      else pure []
    return some ((lengthSize &&& 0x03).toNat + 1, (sps ++ pps).map (startCode ++ ·))

/-- What a video payload means to the transcoder. -/
inductive VideoPayload where
  | ignored
  | config (naluLengthSize : ℕ) (sets : List (List UInt8))
  | nalus (annexB : List UInt8)
  deriving DecidableEq, Repr

/-- The reading of a payload in `Transcoder::on_video_data`. -/
def demuxVideo (naluLengthSize : ℕ) (data : List UInt8) : Except Failure VideoPayload :=
  if data.length < 5 then .ok .ignored
  else do
    let format ← byteAt data 0
    if format &&& 0x0F ≠ 7 then return .ignored
    else do
      let avcPacketType ← byteAt data 1
      if avcPacketType = 0 then do
        let parsed ← parseAvcDecoderConfig (data.drop 5)
        match parsed with
        | none => return .ignored
        | some (size, sets) => return .config size sets
      else if avcPacketType = 1 then do
        let annexB ← toAnnexB naluLengthSize (data.drop 5) ((data.drop 5).length + 1) 0
        return .nalus annexB
      else return .ignored

/-- What an audio payload means to the transcoder. -/
inductive AudioPayload where
  | ignored
  | config (asc : List UInt8)
  | raw (aac : List UInt8)
  deriving DecidableEq, Repr

/-- The reading of a payload in `Transcoder::on_audio_data`. -/
def demuxAudio : List UInt8 → AudioPayload
  | format :: aacPacketType :: rest =>
      if (format >>> 4) &&& 0x0F ≠ 10 then .ignored
      else if aacPacketType = 0 then if rest.length < 2 then .ignored else .config rest
      else if aacPacketType = 1 then if rest.length < 1 then .ignored else .raw rest
      else .ignored
  | _ => .ignored

/-! ### Putting together -/

/-- `Transcoder::build_flv_video_packet`. -/
def buildFlvVideoPacket (packet : EncodedPacket) : List UInt8 :=
  [(if packet.keyframe then (0x10 : UInt8) else 0x20) ||| 0x07, 0x01, 0x00, 0x00, 0x00] ++ packet.data

/-- `Transcoder::map_sample_rate_to_flv_sound_rate`. -/
def mapSampleRateToFlvSoundRate (sampleRate : UInt32) : UInt8 :=
  if 44100 ≤ sampleRate then 0x03
  else if 22050 ≤ sampleRate then 0x02
  else if 11025 ≤ sampleRate then 0x01
  else 0x00

/-- The first byte of an audio payload: AAC, a rate, 16 bits, stereo. -/
def soundFormat (sampleRate : UInt32) : UInt8 :=
  (0xA0 : UInt8) ||| (mapSampleRateToFlvSoundRate sampleRate <<< 2) ||| ((0x01 : UInt8) <<< 1) ||| 0x01

/-- `Transcoder::build_flv_audio_packet`. -/
def buildFlvAudioPacket (actualAudioSampleRate : UInt32) (packet : EncodedPacket) : List UInt8 :=
  [soundFormat actualAudioSampleRate, 0x01] ++ packet.data

/-- The profile, its compatibility and the level, which a parameter set states. -/
def avcProfile (sps : List UInt8) : List UInt8 :=
  match sps with
  | _ :: profile :: compat :: level :: _ => [profile, compat, level]
  | _ => [0x42, 0x00, 0x1E]

/-- `Transcoder::build_avc_decoder_config`. -/
def buildAvcDecoderConfig (sps pps : List UInt8) : List UInt8 :=
  [0x17, 0x00, 0x00, 0x00, 0x00, 0x01] ++ avcProfile sps ++ [0xFF, 0xE1] ++
    Bytes.writeU16Be (UInt16.ofNat sps.length) ++ sps ++ [0x01] ++
    Bytes.writeU16Be (UInt16.ofNat pps.length) ++ pps

/-- `Transcoder::build_aac_sequence_header`. -/
def buildAacSequenceHeader (actualAudioSampleRate : UInt32) (asc : List UInt8) : List UInt8 :=
  [soundFormat actualAudioSampleRate, 0x00] ++ asc

/-! ### Messages with these payloads -/

def IsCodedVideo (msg : Message) : Prop :=
  msg.typeId = MessageType.video.code ∧ ∃ packet, msg.payload = buildFlvVideoPacket packet

/-- A message is an AVC sequence header. -/
def IsAvcHeader (msg : Message) : Prop :=
  msg.typeId = MessageType.video.code ∧ ∃ sps pps, msg.payload = buildAvcDecoderConfig sps pps

def IsRawAac (msg : Message) : Prop :=
  msg.typeId = MessageType.audio.code ∧ ∃ rate packet, msg.payload = buildFlvAudioPacket rate packet

/-- A message is an AAC sequence header. -/
def IsAacHeader (msg : Message) : Prop :=
  msg.typeId = MessageType.audio.code ∧ ∃ rate asc, msg.payload = buildAacSequenceHeader rate asc

variable {msg : Message}

/-- **A message that carries a picture is not a header.** -/
theorem not_isAvcHeader (h : IsCodedVideo msg) : ¬ IsAvcHeader msg := by
  intro hheader
  obtain ⟨-, packet, hpacket⟩ := h
  obtain ⟨-, sps, pps, hconfig⟩ := hheader
  rw [hpacket] at hconfig
  -- the second byte is the type of the packet
  simp [buildFlvVideoPacket, buildAvcDecoderConfig] at hconfig

/-- **A message that carries sound is not a header.** -/
theorem not_isAacHeader (h : IsRawAac msg) : ¬ IsAacHeader msg := by
  intro hheader
  obtain ⟨-, rate, packet, hpacket⟩ := h
  obtain ⟨-, rate', asc, hconfig⟩ := hheader
  rw [hpacket] at hconfig
  simp [buildFlvAudioPacket, buildAacSequenceHeader] at hconfig

end Transcode
