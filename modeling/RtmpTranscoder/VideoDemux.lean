/-
**Reading video payloads.**

The payload of a video message is untrusted: it says how long each of its NAL units is, and an earlier
one has said how many bytes a length has.  `Transcoder::on_video_data` takes units one after the other
until a length is cut off or leads past the end, and drops the rest.  As long as a length has at least
one byte and at most four, the loop makes progress, and a length fits in the 32 bits it is read into.
`parse_avc_decoder_config` adds one to two bits of the record, so this is what it leaves behind,
whatever the record holds.

Main definitions:

* `Transcode.LengthSize` — the length sizes that there can be;
* `Transcode.NaluPacket` — a payload that carries NAL units;
* `Transcode.FedUnits` — what the decoder is to be given for a packet;
* `Transcode.configuredSize` — the length size that a payload sets;
* `Transcode.KeepsDecoders` — what is done for the outputs leaves the decoders alone.

Main results:

* `Transcode.naluLength_eq` — a length is read as the number that its bytes make;
* `Transcode.toAnnexB_eq` — **the loop takes the frames that there are, and stops**;
* `Transcode.exists_parseAvcDecoderConfig` — a record is read within its bytes;
* `Transcode.Transcoder.naluLengthSize_of_run` — the length size is that of the last decoder
  configuration;
* `Transcode.video_demux_safe` — **video payloads are read safely, and exactly as far as they are well
  formed**.
-/

import RtmpTranscoder.Framing
import RtmpTranscoder.H264Chain

set_option relaxedAutoImplicit false
set_option autoImplicit false

namespace Transcode

open Framing (Frames IsLongestPrefix bigEndian)
open Machine (Run)
open Rtmp (Failure Message byteAt bytesAt)

/-- The number of bytes of a length. -/
def LengthSize (n : ℕ) : Prop := 1 ≤ n ∧ n ≤ 4

/-! ### Lengths -/

theorem byteAt_of_lt {data : List UInt8} {i : ℕ} (h : i < data.length) :
    byteAt data i = .ok data[i] := by
  rw [byteAt, List.getElem?_eq_getElem h]

/-- **A length is read as the number that its bytes make.** -/
theorem naluLength_eq {data : List UInt8} {offset n : ℕ} (hn : n ≤ 4)
    (hfits : offset + n ≤ data.length) :
    naluLength data offset n = .ok (UInt32.ofNat (bigEndian ((data.drop offset).take n))) := by
  induction n with
  | zero => rfl
  | succ n ih =>
      have hbyte := byteAt_of_lt (show offset + n < data.length by omega)
      have htake : (data.drop offset).take (n + 1) =
          (data.drop offset).take n ++ [data[offset + n]] := by
        rw [List.take_add_one, List.getElem?_drop, List.getElem?_eq_getElem (by omega)]
        rfl
      have hlt := Framing.bigEndian_lt ((data.drop offset).take n)
      rw [List.length_take_of_le (by rw [List.length_drop]; omega)] at hlt
      have hsmall : bigEndian ((data.drop offset).take n) < 2 ^ 24 :=
        lt_of_lt_of_le hlt (Nat.pow_le_pow_right (by decide) (by omega : n ≤ 3))
      have hlen := ih (by omega) (by omega)
      rw [naluLength] at hlen ⊢
      rw [List.range_succ, List.foldlM_append, hlen, htake, Framing.bigEndian_snoc]
      simp only [bind, Except.bind, List.foldlM_cons, List.foldlM_nil, hbyte, pure, Except.pure]
      have hnum : (UInt32.ofNat (bigEndian ((data.drop offset).take n))).toNat =
          bigEndian ((data.drop offset).take n) := by
        rw [UInt32.toNat_ofNat', Nat.mod_eq_of_lt (by omega)]
      rw [Except.ok.injEq, ← UInt32.toNat_inj, toNat_shl8_or _ (by rw [hnum]; exact hsmall), hnum,
        UInt32.toNat_ofNat', Nat.mod_eq_of_lt]
      have := data[offset + n].toNat_lt
      omega

theorem toNat_bigEndian_take {n : ℕ} (hn : n ≤ 4) (data : List UInt8) :
    (UInt32.ofNat (bigEndian (data.take n))).toNat = bigEndian (data.take n) := by
  have hlt := Framing.bigEndian_lt (data.take n)
  have hpow : 256 ^ (data.take n).length ≤ 256 ^ 4 :=
    Nat.pow_le_pow_right (by decide) ((List.length_take_le n data).trans hn)
  rw [UInt32.toNat_ofNat', Nat.mod_eq_of_lt]
  exact lt_of_lt_of_le hlt hpow

/-! ### Packets -/

/-- **The loop takes the frames that there are, and stops**: by induction on the fuel, which is more
than the bytes that are left. -/
theorem toAnnexB_eq {n : ℕ} (hn : LengthSize n) {data : List UInt8} {fuel offset : ℕ}
    (hoffset : offset ≤ data.length) (hfuel : data.length < offset + fuel) :
    toAnnexB n data fuel offset =
      .ok ((Framing.read bigEndian n fuel (data.drop offset)).1.flatMap (startCode ++ ·)) := by
  induction fuel generalizing offset with
  | zero => omega
  | succ fuel ih =>
      rw [toAnnexB]
      by_cases hlength : offset + n ≤ data.length
      · rw [if_pos hlength, naluLength_eq hn.2 hlength]
        simp only [bind, Except.bind, toNat_bigEndian_take hn.2]
        generalize hlen : bigEndian ((data.drop offset).take n) = len
        by_cases hfits : data.length < offset + n + len
        · -- the length leads past the end
          have hsplit : Framing.split bigEndian n (data.drop offset) = none := by
            rw [Framing.split, if_neg]
            rintro ⟨-, hle⟩
            rw [hlen, List.drop_drop, List.length_drop] at hle
            omega
          rw [if_pos hfits, Framing.read_none hsplit]
          rfl
        · have hsplit : Framing.split bigEndian n (data.drop offset) =
              some ((data.drop (offset + n)).take len, data.drop (offset + n + len)) := by
            have hle : bigEndian ((data.drop offset).take n) ≤ ((data.drop offset).drop n).length := by
              rw [hlen, List.drop_drop, List.length_drop]
              omega
            rw [Framing.split, if_pos ⟨by rw [List.length_drop]; omega, hle⟩, hlen, List.drop_drop,
              List.drop_drop]
          have hone := hn.1
          rw [if_neg hfits, Rtmp.bytesAt_of_le (by omega), ih (by omega) (by omega),
            Framing.read_some hsplit]
          rfl
      · -- not even the length is there
        have hsplit : Framing.split bigEndian n (data.drop offset) = none := by
          rw [Framing.split, if_neg]
          rintro ⟨hle, -⟩
          rw [List.length_drop] at hle
          omega
        rw [if_neg hlength, Framing.read_none hsplit]
        rfl

/-- What the decoder is to be given for a packet: the units of its longest prefix that is made up of
units behind their lengths, each behind a start code. -/
def FedUnits (n : ℕ) (packet input : List UInt8) : Prop :=
  ∃ bytes bodies,
    IsLongestPrefix (fun bytes => ∃ bodies, Frames bigEndian n bytes bodies) packet bytes ∧
    Frames bigEndian n bytes bodies ∧ input = bodies.flatMap ([0, 0, 0, 1] ++ ·)

theorem fedUnits_toAnnexB {n : ℕ} (hn : LengthSize n) (packet : List UInt8) :
    ∃ input, toAnnexB n packet (packet.length + 1) 0 = .ok input ∧ FedUnits n packet input := by
  have hloop := toAnnexB_eq hn (Nat.zero_le packet.length)
    (show packet.length < 0 + (packet.length + 1) by omega)
  rw [List.drop_zero] at hloop
  obtain ⟨bytes, hbytes, hframes, hlongest⟩ :=
    @Framing.isLongestPrefix_read _ bigEndian n (packet.length + 1) packet
  refine ⟨_, hloop, bytes, _, ⟨⟨_, hframes⟩, hlongest.initial, ?_⟩, hframes, rfl⟩
  -- a list of frames is no longer than its bytes
  rintro other ⟨bodies, hother⟩ hpre
  refine hlongest.longest other ⟨bodies, hother, ?_⟩ hpre
  have hcount := hother.length_le
  have hmul : bodies.length * 1 ≤ bodies.length * n := Nat.mul_le_mul_left _ hn.1
  have hle := hpre.length_le
  omega

/-! ### Records -/

theorem exists_parameterSets {data : List UInt8} (count : ℕ) {offset : ℕ}
    (hoffset : offset ≤ data.length) :
    ∃ sets offset', parameterSets data count offset = .ok (sets, offset') ∧
      offset' ≤ data.length := by
  induction count generalizing offset with
  | zero => exact ⟨[], offset, rfl, hoffset⟩
  | succ count ih =>
      rw [parameterSets]
      split
      · rename_i hlength
        rw [byteAt_of_lt (show offset < data.length by omega),
          byteAt_of_lt (show offset + 1 < data.length by omega)]
        simp only [bind, Except.bind]
        split
        · rename_i hfits
          obtain ⟨sets, offset', hrest, hle⟩ := ih hfits
          rw [Rtmp.bytesAt_of_le hfits]
          simp only [hrest]
          exact ⟨_, offset', rfl, hle⟩
        · exact ih hlength
      · exact ⟨[], offset, rfl, hoffset⟩

/-- **A record is read within its bytes**: one that is long enough has the length size in its fifth byte.
-/
theorem exists_parseAvcDecoderConfig (data : List UInt8) :
    ∃ parsed, parseAvcDecoderConfig data = .ok parsed ∧
      parsed.map Prod.fst =
        if 7 ≤ data.length then some ((data.getD 4 0 &&& 0x03).toNat + 1) else none := by
  unfold parseAvcDecoderConfig
  split
  · rename_i hshort
    exact ⟨none, rfl, by rw [if_neg (not_le.2 hshort), Option.map_none]⟩
  · rename_i hlong
    obtain ⟨sps, offset, hsps, hoffset⟩ :=
      exists_parameterSets (data[5] &&& 0x1F).toNat (show 6 ≤ data.length by omega)
    have hfifth : data.getD 4 0 = data[4] := List.getD_eq_getElem _ _ (by omega)
    rw [if_pos (not_lt.1 hlong), hfifth]
    rw [byteAt_of_lt (show 4 < data.length by omega), byteAt_of_lt (show 5 < data.length by omega)]
    simp only [bind, Except.bind, hsps]
    split
    · rename_i hcount
      obtain ⟨pps, offset', hpps, -⟩ :=
        exists_parameterSets (data[offset]).toNat (show offset + 1 ≤ data.length by omega)
      rw [byteAt_of_lt hcount]
      simp only [hpps]
      exact ⟨_, rfl, rfl⟩
    · exact ⟨_, rfl, rfl⟩

/-! ### Payloads -/

/-- A payload that carries NAL units: the header of an FLV tag with the type 1, and a packet. -/
def NaluPacket (data packet : List UInt8) : Prop :=
  ∃ format composition, data = format :: 1 :: (composition ++ packet) ∧ composition.length = 3 ∧
    format &&& 0x0F = 7

/-- The length size that a payload sets: a decoder configuration has it in its fifth byte. -/
def configuredSize (data : List UInt8) : Option ℕ :=
  if 12 ≤ data.length ∧ data.getD 0 0 &&& 0x0F = 7 ∧ data.getD 1 0 = 0 then
    some ((data.getD 9 0 &&& 0x03).toNat + 1)
  else none

theorem lengthSize_of_configuredSize {data : List UInt8} {n : ℕ} (h : configuredSize data = some n) :
    LengthSize n := by
  unfold configuredSize at h
  split at h
  · obtain rfl := Option.some.inj h
    have hle : (data.getD 9 0 &&& 0x03).toNat ≤ 3 := by
      rw [UInt8.toNat_and]
      exact Nat.and_le_right
    exact ⟨by omega, by omega⟩
  · cases h

/-- The length size that a payload leaves. -/
def VideoPayload.lengthSize? : VideoPayload → Option ℕ
  | .config size _ => some size
  | _ => none

/-- **A payload is read**: it sets the length size if it is a decoder configuration, and if it is a packet
of units, its units are taken out of it. -/
theorem exists_demuxVideo {n : ℕ} (hn : LengthSize n) (data : List UInt8) :
    ∃ payload, demuxVideo n data = .ok payload ∧ payload.lengthSize? = configuredSize data ∧
      ∀ packet, NaluPacket data packet → ∃ input, payload = .nalus input ∧ FedUnits n packet input := by
  by_cases hshort : data.length < 5
  · refine ⟨.ignored, by rw [demuxVideo, if_pos hshort], ?_, ?_⟩
    · rw [configuredSize, if_neg (fun h => by omega)]
      rfl
    rintro packet ⟨format, composition, rfl, hlen, -⟩
    simp only [List.length_cons, List.length_append, hlen] at hshort
    omega
  · obtain ⟨format, type, rest, rfl⟩ : ∃ format type rest, data = format :: type :: rest := by
      cases data with
      | nil => exact absurd (by decide : 0 < 5) hshort
      | cons format data =>
          cases data with
          | nil => exact absurd (by decide : 1 < 5) hshort
          | cons type rest => exact ⟨format, type, rest, rfl⟩
    simp only [demuxVideo, if_neg hshort, Rtmp.byteAt_cons_zero, Rtmp.byteAt_cons_succ, bind,
      Except.bind, List.drop_succ_cons]
    by_cases hcodec : format &&& 0x0F = 7
    · rw [if_neg (not_not_intro hcodec)]
      by_cases hzero : type = 0
      · subst hzero
        obtain ⟨parsed, hparsed, hsize⟩ := exists_parseAvcDecoderConfig (rest.drop 3)
        have hnot (packet : List UInt8) : ¬ NaluPacket (format :: 0 :: rest) packet := by
          rintro ⟨format', composition, heq, -, -⟩
          simp at heq
        have hconfigured : configuredSize (format :: 0 :: rest) = parsed.map Prod.fst := by
          have hfifth : (rest.drop 3).getD 4 0 = (format :: 0 :: rest).getD 9 0 := by
            simp [List.getD_eq_getElem?_getD]
          have hlength : 7 ≤ (rest.drop 3).length ↔ 12 ≤ (format :: 0 :: rest).length := by
            simp only [List.length_drop, List.length_cons]
            omega
          rw [hsize, hfifth, configuredSize]
          by_cases hlong : 12 ≤ (format :: 0 :: rest).length
          · rw [if_pos (hlength.2 hlong), if_pos ⟨hlong, hcodec, rfl⟩]
          · rw [if_neg (mt hlength.1 hlong), if_neg fun h => hlong h.1]
        rw [if_pos rfl, hparsed]
        cases parsed with
        | none => exact ⟨_, rfl, hconfigured.symm, fun packet h => absurd h (hnot packet)⟩
        | some result =>
            obtain ⟨size, sets⟩ := result
            exact ⟨_, rfl, hconfigured.symm, fun packet h => absurd h (hnot packet)⟩
      · rw [if_neg hzero]
        by_cases hone : type = 1
        · subst hone
          obtain ⟨input, hloop, hfed⟩ := fedUnits_toAnnexB hn (rest.drop 3)
          rw [if_pos rfl, hloop]
          refine ⟨_, rfl, by simp [VideoPayload.lengthSize?, configuredSize], ?_⟩
          rintro packet ⟨format', composition, heq, hlen, -⟩
          simp only [List.cons.injEq, true_and] at heq
          rw [heq.2, ← hlen, List.drop_left] at hfed
          exact ⟨input, rfl, hfed⟩
        · rw [if_neg hone]
          refine ⟨_, rfl, by simp [VideoPayload.lengthSize?, configuredSize, hzero], ?_⟩
          rintro packet ⟨format', composition, heq, -, -⟩
          obtain ⟨-, heq⟩ := List.cons.inj heq
          exact absurd (List.cons.inj heq).1 hone
    · rw [if_pos hcodec]
      refine ⟨_, rfl, by simp [VideoPayload.lengthSize?, configuredSize, hcodec], ?_⟩
      rintro packet ⟨format', composition, heq, -, hformat⟩
      obtain ⟨rfl, -⟩ := List.cons.inj heq
      exact absurd hformat hcodec

/-! ### The transcoder -/

def decoderInputs (out : List TranscoderEvent) : List (List UInt8) :=
  out.filterMap fun
    | .videoDecoder data => some data
    | _ => none

@[simp] theorem decoderInputs_append (l₁ l₂ : List TranscoderEvent) :
    decoderInputs (l₁ ++ l₂) = decoderInputs l₁ ++ decoderInputs l₂ := List.filterMap_append ..

theorem decoderInputs_eq_nil {out : List TranscoderEvent} (h : ∀ e ∈ out, ¬ e.IsDecoder) :
    decoderInputs out = [] := by
  rw [decoderInputs, List.filterMap_eq_nil_iff]
  intro e he
  cases e with
  | videoDecoder data => exact absurd (.inl ⟨data, rfl⟩) (h _ he)
  | audioDecoder data => rfl
  | output i event => rfl

namespace Transcoder

variable {t t' : Transcoder} {out : List TranscoderEvent}

/-- What is done for the outputs leaves the decoders alone, and what is known of the streams they
decode. -/
structure KeepsDecoders (t t' : Transcoder) : Prop where
  videoDecoder : t'.videoDecoder = t.videoDecoder
  audioDecoder : t'.audioDecoder = t.audioDecoder
  audioInitialized : t'.audioInitialized = t.audioInitialized
  naluLengthSize : t'.naluLengthSize = t.naluLengthSize

theorem KeepsDecoders.refl (t : Transcoder) : t.KeepsDecoders t := ⟨rfl, rfl, rfl, rfl⟩

theorem keepsDecoders_callback (i : ℕ) (f : Output → Output × List OutputEvent) :
    t.KeepsDecoders (t.callback i f).1 := by
  unfold callback
  split
  · exact .refl t
  · exact ⟨rfl, rfl, rfl, rfl⟩

theorem keepsDecoders_onMessage (i : ℕ) (stale : UInt64) (msg : Message) :
    t.KeepsDecoders (t.onMessage i stale msg).1 := by
  have hstart : t.KeepsDecoders t.startPublishing := by
    unfold startPublishing
    split <;> exact ⟨rfl, rfl, rfl, rfl⟩
  unfold onMessage
  simp only
  split
  · obtain ⟨hvideo, haudio, hinitialized, hsize⟩ := keepsDecoders_callback
      (t := t.startPublishing) i fun out => out.onMessage t.startPublishing.actualAudioSampleRate
        stale msg
    exact ⟨hvideo.trans hstart.videoDecoder, haudio.trans hstart.audioDecoder,
      hinitialized.trans hstart.audioInitialized, hsize.trans hstart.naluLengthSize⟩
  · exact keepsDecoders_callback i _

theorem keepsDecoders_processVideoFrame (codecs : ℕ → VideoCodecs) (frame : VideoFrame) :
    t.KeepsDecoders (t.processVideoFrame codecs frame).1 := by
  obtain ⟨outputs, heq⟩ := processVideoFrame_fst t codecs frame
  have hgate : t.KeepsDecoders (t.gateVideo frame).1 := by
    unfold gateVideo
    split
    · split <;> exact ⟨rfl, rfl, rfl, rfl⟩
    · exact .refl t
  rw [heq]
  exact ⟨hgate.videoDecoder, hgate.audioDecoder, hgate.audioInitialized, hgate.naluLengthSize⟩

theorem keepsDecoders_processAudioFrame (codecs : ℕ → AudioCodecs) (frame : AudioFrame) :
    t.KeepsDecoders (t.processAudioFrame codecs frame).1 := by
  obtain ⟨outputs, heq⟩ := processAudioFrame_fst t codecs frame
  have hgate : t.KeepsDecoders
      ({ t with actualAudioSampleRate := UInt32.ofInt frame.sampleRate }.gateAudio frame).1 := by
    unfold gateAudio
    split <;> exact ⟨rfl, rfl, rfl, rfl⟩
  rw [heq]
  exact ⟨hgate.videoDecoder, hgate.audioDecoder, hgate.audioInitialized, hgate.naluLengthSize⟩

/-- What is to become of a video message: a packet is given to the decoder unit by unit, once. -/
def Demuxed (t : Transcoder) (data : List UInt8) (out : List TranscoderEvent) : Prop :=
  ∀ packet, NaluPacket data packet → ∃ input, FedUnits t.naluLengthSize packet input ∧
    demuxVideo t.naluLengthSize data = .ok (.nalus input) ∧
    decoderInputs out = if t.videoDecoder.initialized then [input] else []

/-- **A video message is read safely**, and sets the length size if it is a decoder configuration. -/
theorem exists_onVideoData (h : LengthSize t.naluLengthSize) (data : List UInt8) (timestamp : UInt32)
    (keyframe : Bool) (o : VideoOutcome) :
    ∃ t' out, t.onVideoData data timestamp keyframe o = .ok (t', out) ∧
      t'.naluLengthSize = (configuredSize data).getD t.naluLengthSize ∧ t.Demuxed data out := by
  obtain ⟨payload, hdemux, hsize, hpacket⟩ := exists_demuxVideo h data
  have hnot (hignored : ∀ input, payload ≠ .nalus input) (out : List TranscoderEvent) :
      t.Demuxed data out := by
    intro packet hp
    obtain ⟨input, heq, -⟩ := hpacket packet hp
    exact absurd heq (hignored input)
  cases payload with
  | ignored =>
      refine ⟨t, [], ?_, by rw [← hsize]; rfl, hnot (by simp) []⟩
      simp only [onVideoData, hdemux, bind, Except.bind]
      rfl
  | config size sets =>
      refine ⟨{ t with naluLengthSize := size },
        if t.videoDecoder.initialized then sets.map .videoDecoder else [], ?_,
        by rw [← hsize]; rfl, hnot (by simp) _⟩
      simp only [onVideoData, hdemux, bind, Except.bind]
      rfl
  | nalus annexB =>
      obtain ⟨t', rest, hcall, hrest⟩ := onVideoData_nalus hdemux timestamp keyframe o
      have hkeeps : t.KeepsDecoders t' := by
        simp only [onVideoData, hdemux, bind, Except.bind] at hcall
        split at hcall
        · obtain ⟨rfl, -⟩ := Prod.mk.inj (Except.ok.inj hcall)
          exact .refl t
        · rename_i frames hdecode
          obtain ⟨rfl, -⟩ := Prod.mk.inj (Except.ok.inj hcall)
          rcases H264Decoder.decode_cases hdecode with rfl | ⟨frame, rfl, -⟩
          · exact .refl t
          · rw [processFrames_singleton]
            exact keepsDecoders_processVideoFrame o.codecs frame
      refine ⟨t', _, hcall, ?_, ?_⟩
      · rw [hkeeps.naluLengthSize, ← hsize]
        rfl
      · intro packet hp
        obtain ⟨input, heq, hfed⟩ := hpacket packet hp
        obtain rfl := VideoPayload.nalus.inj heq
        refine ⟨annexB, hfed, hdemux, ?_⟩
        rw [decoderInputs_append, decoderInputs_eq_nil hrest, List.append_nil]
        split <;> rfl

/-- The length size that is set by what a transcoder is asked. -/
def configuredBy : TranscoderInput → Option ℕ
  | .onVideoData data _ _ _ => configuredSize data
  | _ => none

/-- Whatever is asked of a transcoder, it is done, and sets the length size if it is a decoder
configuration. -/
theorem exists_perform_sets (h : LengthSize t.naluLengthSize) (input : TranscoderInput) :
    ∃ t' out, t.perform input = .ok (t', out) ∧
      t'.naluLengthSize = (configuredBy input).getD t.naluLengthSize := by
  cases input with
  | onVideoData data timestamp keyframe o =>
      obtain ⟨t', out, hcall, hsize, -⟩ := exists_onVideoData h data timestamp keyframe o
      exact ⟨t', out, hcall, hsize⟩
  | onAudioData data timestamp o =>
      obtain ⟨t', out, hcall⟩ : ∃ t' out, t.onAudioData data timestamp o = (t', out) := ⟨_, _, rfl⟩
      refine ⟨t', out, congrArg Except.ok hcall, ?_⟩
      rcases onAudioData_cases hcall with
        ⟨decoder, initialized, rfl, -⟩ | ⟨aac, frame, fed, -, -, -, -, rfl, -⟩
      · rfl
      · exact (keepsDecoders_processAudioFrame o.codecs frame).naluLengthSize
  | connected i => exact ⟨_, _, rfl, (keepsDecoders_callback i Output.onConnected).naluLengthSize⟩
  | message i stale msg => exact ⟨_, _, rfl, (keepsDecoders_onMessage i stale msg).naluLengthSize⟩
  | disconnected i => exact ⟨_, _, rfl, (keepsDecoders_callback i Output.onDisconnected).naluLengthSize⟩
  | addOutput config => exact ⟨_, _, rfl, rfl⟩
  | start o => exact ⟨_, _, rfl, rfl⟩
  | stop => exact ⟨_, _, rfl, rfl⟩
  | onSourceMetadata width height fps sampleRate channels created => exact ⟨_, _, rfl, rfl⟩

theorem exists_perform (h : LengthSize t.naluLengthSize) (input : TranscoderInput) :
    ∃ t' out, t.perform input = .ok (t', out) ∧ LengthSize t'.naluLengthSize := by
  obtain ⟨t', out, hcall, hsize⟩ := exists_perform_sets h input
  refine ⟨t', out, hcall, ?_⟩
  rw [hsize]
  cases hset : configuredBy input with
  | none => exact h
  | some n =>
      cases input with
      | onVideoData data timestamp keyframe o => exact lengthSize_of_configuredSize hset
      | _ => cases hset

variable {trace : List (Machine.Moment Transcoder TranscoderInput TranscoderEvent)}

theorem lengthSize_of_run (hrun : Run machine {} trace t) : LengthSize t.naluLengthSize := by
  induction hrun with
  | nil => exact ⟨by decide, by decide⟩
  | @snoc trace t t' input out _ hstep ih =>
      obtain ⟨t₁, out₁, hcall, hsize⟩ := exists_perform ih input
      obtain ⟨rfl, -⟩ := Prod.mk.inj (Except.ok.inj (hcall.symm.trans hstep))
      exact hsize

/-- The length sizes that have been set in a run, in their order. -/
def configuredSizes (trace : List (Machine.Moment Transcoder TranscoderInput TranscoderEvent)) : List ℕ :=
  (Machine.inputs trace).filterMap configuredBy

/-- **The length size is that of the last decoder configuration.** -/
theorem naluLengthSize_of_run (hrun : Run machine {} trace t) :
    t.naluLengthSize = (configuredSizes trace).getLastD 4 := by
  induction hrun with
  | nil => rfl
  | @snoc trace t t' input out hrun hstep ih =>
      obtain ⟨t₁, out₁, hcall, hsize⟩ := exists_perform_sets (lengthSize_of_run hrun) input
      obtain ⟨rfl, -⟩ := Prod.mk.inj (Except.ok.inj (hcall.symm.trans hstep))
      rw [hsize, ih, configuredSizes, configuredSizes, Machine.inputs_snoc, List.filterMap_append]
      cases hset : configuredBy input with
      | none => rw [List.filterMap_cons_none hset, List.filterMap_nil, List.append_nil, Option.getD_none]
      | some n =>
          rw [List.filterMap_cons_some hset, List.filterMap_nil, Option.getD_some,
            List.getLastD_eq_getLast?, List.getLast?_concat, Option.getD_some]

/-- **Video payloads are read safely, and exactly as far as they are well formed.**  Every record is
read within its bytes.  A transcoder can be given any messages, in any order and whatever else it is
asked in between: the reading ends, never leaves the message, and the number of bytes of a length stays
between one and four.  For each packet the decoder is given the units of its longest prefix that is
well formed under the length size at that time, which is that of the last decoder configuration, each
behind a start code, and nothing of the rest. -/
theorem video_demux_safe :
    (∀ data, ∃ parsed, parseAvcDecoderConfig data = .ok parsed) ∧
    ∀ inputs : List TranscoderInput, ∃ trace t, Run machine {} trace t ∧
      Machine.inputs trace = inputs ∧ LengthSize t.naluLengthSize ∧
      (∀ m ∈ trace, LengthSize m.state.naluLengthSize ∧
        ∀ data timestamp keyframe o, m.input = .onVideoData data timestamp keyframe o →
          m.state.Demuxed data m.outputs) ∧
      ∀ before m after, trace = before ++ m :: after →
        m.state.naluLengthSize = (configuredSizes before).getLastD 4 := by
  constructor
  · intro data
    obtain ⟨parsed, hparsed, -⟩ := exists_parseAvcDecoderConfig data
    exact ⟨parsed, hparsed⟩
  · intro inputs
    obtain ⟨trace, t, hrun, hinputs, hsize⟩ := @Machine.exists_run _ _ _ _ perform
      (fun t => LengthSize t.naluLengthSize) (fun _ => True)
      (fun h _ => exists_perform h _) inputs (fun _ _ => trivial) _ (lengthSize_of_run .nil)
    refine ⟨trace, t, hrun, hinputs, hsize, fun m hm => ?_, ?_⟩
    · obtain ⟨before, after, rfl⟩ := List.append_of_mem hm
      obtain ⟨hbefore, t₁, hstep, -⟩ := hrun.split
      have hstate := lengthSize_of_run hbefore
      refine ⟨hstate, fun data timestamp keyframe o hinput => ?_⟩
      obtain ⟨t₂, out, hcall, -, hdemuxed⟩ := exists_onVideoData hstate data timestamp keyframe o
      rw [hinput] at hstep
      obtain ⟨-, hout⟩ := Prod.mk.inj (Except.ok.inj (hcall.symm.trans hstep))
      rwa [← hout]
    · rintro before m after rfl
      exact naluLengthSize_of_run hrun.split.1

end Transcoder

end Transcode
