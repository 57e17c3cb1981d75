/-
**The steps of the transcoder.**

What a step of the transcoder does to an output has one cause: a frame that is pushed, a start or a
stop, or a callback of the client.  Everything that is known of runs is taken from this.

Main definitions:

* `Transcode.Transcoder.Caused` — what a step does to an output, and why.

Main results:

* `Transcode.Output.mem_encodeVideo`, `Transcode.Output.mem_encodeAudio` — what is pushed for a frame;
* `Transcode.Output.onMessage_cases` — what a message from upstream does;
* `Transcode.Transcoder.onVideoData_cases`, `Transcode.Transcoder.onAudioData_cases` — what a media
  message does;
* `Transcode.Transcoder.caused_of_step` — **whatever happens to an output has a cause**;
* `Transcode.Transcoder.waits_of_run` — **no base is set, and no encoder is set up, before publishing
  has started**.
-/

import RtmpTranscoder.Transcoder

set_option relaxedAutoImplicit false
set_option autoImplicit false

namespace Transcode

open Relay (ClientCall createStreamCmd publishCmd)
open Rtmp (Failure Message MessageType CommandMessage)
open Text

/-! ### What is pushed -/

namespace Output

variable {out : Output} {e : OutputEvent}

/-- What is pushed for a picture: coded video, if the output is publishing. -/
theorem mem_pushVideoPacket {packet : EncodedPacket} (h : e ∈ out.pushVideoPacket packet) :
    out.publishing = true ∧ ∃ msg, e = .client (.sendMessage msg) ∧ IsCodedVideo msg ∧
      msg.timestamp = packet.timestamp := by
  unfold pushVideoPacket at h
  split at h
  · cases h
  · rename_i hpublishing
    rw [List.mem_singleton] at h
    refine ⟨by simpa using hpublishing, _, h, ⟨rfl, packet, rfl⟩, rfl⟩

/-- What is pushed for sound: raw AAC, if the output is publishing. -/
theorem mem_pushAudioPacket {rate : UInt32} {packet : EncodedPacket}
    (h : e ∈ out.pushAudioPacket rate packet) :
    out.publishing = true ∧ ∃ msg, e = .client (.sendMessage msg) ∧ IsRawAac msg ∧
      msg.timestamp = packet.timestamp := by
  unfold pushAudioPacket at h
  split at h
  · cases h
  · rename_i hpublishing
    rw [List.mem_singleton] at h
    refine ⟨by simpa using hpublishing, _, h, ⟨rfl, rate, packet, rfl⟩, rfl⟩

theorem initializeVideo_publishing (out : Output) (codecs : VideoCodecs) (frame : VideoFrame) :
    (out.initializeVideo codecs frame).1.publishing = out.publishing := by
  unfold initializeVideo
  simp only
  split
  · rfl
  · split
    · rfl
    · split <;> rfl

theorem initializeAudio_publishing (out : Output) (codecs : AudioCodecs) (frame : AudioFrame) :
    (out.initializeAudio codecs frame).1.publishing = out.publishing := by
  unfold initializeAudio
  simp only
  split
  · rfl
  · split <;> rfl

/-- **What is pushed for a frame is coded video, with the timestamp that is passed through.** -/
theorem mem_encodeVideo {codecs : VideoCodecs} {frame : VideoFrame} {outputTs : UInt32}
    (h : e ∈ (out.encodeVideo codecs frame outputTs).2) :
    out.publishing = true ∧ ∃ msg, e = .client (.sendMessage msg) ∧ IsCodedVideo msg ∧
      msg.timestamp = outputTs := by
  have hpublishing := initializeVideo_publishing out codecs frame
  unfold encodeVideo at h
  simp only at h
  split at h
  · cases h
  · split at h
    · cases h
    · obtain ⟨packet, -, hpush⟩ := List.mem_flatMap.1 h
      obtain ⟨hready, msg, hmsg, hcoded, htimestamp⟩ := mem_pushVideoPacket hpush
      exact ⟨hpublishing ▸ hready, msg, hmsg, hcoded, htimestamp⟩

/-- **What is pushed for sound is raw AAC, with the timestamp that is passed through.** -/
theorem mem_encodeAudio {codecs : AudioCodecs} {rate : UInt32} {frame : AudioFrame}
    {outputTs : UInt32} (h : e ∈ (out.encodeAudio codecs rate frame outputTs).2) :
    out.publishing = true ∧ ∃ msg, e = .client (.sendMessage msg) ∧ IsRawAac msg ∧
      msg.timestamp = outputTs := by
  have hpublishing := initializeAudio_publishing out codecs frame
  unfold encodeAudio at h
  simp only at h
  split at h
  · cases h
  · obtain ⟨packet, -, hpush⟩ := List.mem_flatMap.1 h
    obtain ⟨hready, msg, hmsg, hcoded, htimestamp⟩ := mem_pushAudioPacket hpush
    exact ⟨hpublishing ▸ hready, msg, hmsg, hcoded, htimestamp⟩

/-! ### What the client calls back for -/

/-- An output that has been connected sends its `connect`, unless its URL is not good for one. -/
theorem onConnected_cases (out : Output) :
    out.onConnected.2 = [] ∨
      ∃ cmd, out.onConnected.2 = [.client (.sendCommand cmd), .client .flush] := by
  unfold onConnected
  simp only
  split_ifs <;> first | exact .inl rfl | exact .inr ⟨_, rfl⟩

/-- A message that confirms makes the output ready, and other messages let it answer. -/
theorem onMessage_of_isPublishConfirmation {rate : UInt32} {stale : UInt64} {msg : Message}
    (h : isPublishConfirmation stale msg = true) :
    out.onMessage rate stale msg = out.onPublishReady rate := by
  unfold isPublishConfirmation at h
  rw [Bool.and_eq_true, beq_iff_eq] at h
  obtain ⟨htype, h⟩ := h
  unfold onMessage
  rw [if_pos htype]
  cases hparse : CommandMessage.parse stale msg.payload with
  | none =>
      rw [hparse] at h
      cases h
  | some cmd =>
      rw [hparse] at h
      simp only [Bool.and_eq_true, beq_iff_eq] at h
      have hname : ascii "onStatus" ≠ ascii "_result" := by decide
      simp only [h.1, if_neg hname, if_pos h.2, if_true]

/-- **What a message that does not confirm does**: it is answered, or the output is refused. -/
theorem onMessage_cases {rate : UInt32} {stale : UInt64} {msg : Message}
    (h : isPublishConfirmation stale msg = false) :
    out.onMessage rate stale msg = (out, []) ∨
      out.onMessage rate stale msg = (out, [.client (.sendCommand createStreamCmd), .client .flush]) ∨
      out.onMessage rate stale msg = ({ out with connected := false, publishing := false }, [.refused]) ∨
      ∃ streamId publishMsg, publishMsg.typeId = MessageType.commandAMF0.code ∧
        out.onMessage rate stale msg = ({ out with streamId := streamId },
          [.client (.sendMessage publishMsg), .client .flush]) := by
  unfold onMessage
  split
  · rename_i htype
    cases hparse : CommandMessage.parse stale msg.payload with
    | none => exact .inl rfl
    | some cmd =>
        simp only
        split
        · split
          · exact .inr (.inl rfl)
          · split
            · cases hstream : createdStream cmd with
              | none => exact .inr (.inr (.inl rfl))
              | some streamId => exact .inr (.inr (.inr ⟨streamId, _, rfl, rfl⟩))
            · exact .inl rfl
        · split
          · rename_i hname
            split
            · rename_i hcode
              simp [isPublishConfirmation, htype, hparse, hname, hcode] at h
            · exact .inl rfl
          · exact .inl rfl
  · exact .inl rfl

end Output

namespace Transcoder

variable {t : Transcoder} {i : ℕ} {e : OutputEvent}

/-! ### A step -/

/-- What a step does to an output, and why. -/
inductive Caused (t : Transcoder) : TranscoderInput → Transcoder → ℕ → OutputEvent → Prop
  | video {data : List UInt8} {timestamp : UInt32} {keyframe : Bool} {o : VideoOutcome}
      {t' : Transcoder} {i : ℕ} {out : Output} {msg : Message} :
      t.outputs[i]? = some out → out.publishing = true → IsCodedVideo msg →
      t'.baseVideoTimestampSet = true →
      msg.timestamp = outputTimestamp t'.baseVideoTimestamp timestamp →
      Caused t (.onVideoData data timestamp keyframe o) t' i (.client (.sendMessage msg))
  | audio {data : List UInt8} {timestamp : UInt32} {o : AudioOutcome} {t' : Transcoder} {i : ℕ}
      {out : Output} {msg : Message} :
      t.outputs[i]? = some out → out.publishing = true → IsRawAac msg →
      t'.baseAudioTimestampSet = true →
      msg.timestamp = outputTimestamp t'.baseAudioTimestamp timestamp →
      Caused t (.onAudioData data timestamp o) t' i (.client (.sendMessage msg))
  | started {o : ℕ → StartOutcome} {t' : Transcoder} {i : ℕ} {out : Output} {e : OutputEvent} :
      t.outputs[i]? = some out → e ∈ (out.start (o i)).2 → Caused t (.start o) t' i e
  | stopped {t' : Transcoder} {i : ℕ} {out : Output} {e : OutputEvent} :
      t.outputs[i]? = some out → e ∈ out.destroyClient.2 ++ [.removed] → Caused t .stop t' i e
  | connected {t' : Transcoder} {i : ℕ} {out : Output} {e : OutputEvent} :
      t.listening i = some out → e ∈ out.onConnected.2 → Caused t (.connected i) t' i e
  | message {stale : UInt64} {msg : Message} {t' : Transcoder} {i : ℕ} {out : Output}
      {e : OutputEvent} :
      t.listening i = some out → e ∈ (out.onMessage t.actualAudioSampleRate stale msg).2 →
      Caused t (.message i stale msg) t' i e
  | disconnected {t' : Transcoder} {i : ℕ} {out : Output} {e : OutputEvent} :
      t.listening i = some out → e ∈ out.onDisconnected.2 → Caused t (.disconnected i) t' i e

theorem gateVideo_outputs (frame : VideoFrame) : (t.gateVideo frame).1.outputs = t.outputs := by
  unfold gateVideo
  split
  · split <;> rfl
  · rfl

theorem gateAudio_outputs (frame : AudioFrame) : (t.gateAudio frame).1.outputs = t.outputs := by
  unfold gateAudio
  split <;> rfl

theorem gateVideo_pass {frame : VideoFrame} (h : (t.gateVideo frame).2 = true) :
    (t.gateVideo frame).1.baseVideoTimestampSet = true := by
  unfold gateVideo at h ⊢
  split at h
  · split at h
    · rename_i hstarted hkeyframe
      rw [if_pos hstarted, if_pos hkeyframe]
    · cases h
  · rename_i hstarted
    rw [if_neg hstarted]
    exact h

theorem gateAudio_pass {frame : AudioFrame} (h : (t.gateAudio frame).2 = true) :
    (t.gateAudio frame).1.baseAudioTimestampSet = true := by
  unfold gateAudio at h ⊢
  split at h
  · rename_i hstarted
    rw [if_pos hstarted]
  · rename_i hstarted
    rw [if_neg hstarted]
    exact h

theorem caused_processVideoFrame {codecs : ℕ → VideoCodecs} {frame : VideoFrame}
    (h : .output i e ∈ (t.processVideoFrame codecs frame).2) (data : List UInt8) (keyframe : Bool)
    (o : VideoOutcome) :
    Caused t (.onVideoData data frame.timestamp keyframe o) (t.processVideoFrame codecs frame).1 i
      e := by
  unfold processVideoFrame at h ⊢
  simp only at h ⊢
  split at h
  · cases h
  · rename_i hpass
    rw [if_neg hpass]
    have hset := @gateVideo_pass t frame (by simpa using hpass)
    obtain ⟨out, hout, hmem⟩ := mem_eachOutput.1 h
    rw [gateVideo_outputs] at hout
    obtain ⟨hpublishing, msg, rfl, hcoded, htimestamp⟩ := Output.mem_encodeVideo hmem
    exact .video hout hpublishing hcoded hset htimestamp

theorem caused_processAudioFrame {codecs : ℕ → AudioCodecs} {frame : AudioFrame}
    (h : .output i e ∈ (t.processAudioFrame codecs frame).2) (data : List UInt8) (o : AudioOutcome) :
    Caused t (.onAudioData data frame.timestamp o) (t.processAudioFrame codecs frame).1 i e := by
  unfold processAudioFrame at h ⊢
  simp only at h ⊢
  split at h
  · cases h
  · rename_i hpass
    rw [if_neg hpass]
    have hset := gateAudio_pass (by simpa using hpass)
    obtain ⟨out, hout, hmem⟩ := mem_eachOutput.1 h
    rw [gateAudio_outputs] at hout
    obtain ⟨hpublishing, msg, rfl, hraw, htimestamp⟩ := Output.mem_encodeAudio hmem
    exact .audio hout hpublishing hraw hset htimestamp

theorem processFrames_singleton {α : Type}
    (process : Transcoder → α → Transcoder × List TranscoderEvent) (frame : α) :
    processFrames process t [frame] = process t frame := by
  simp [processFrames]

end Transcoder

/-- A decoder is given something. -/
def TranscoderEvent.IsDecoder (e : TranscoderEvent) : Prop :=
  (∃ data, e = .videoDecoder data) ∨ ∃ data, e = .audioDecoder data

theorem TranscoderEvent.IsDecoder.not_output {i : ℕ} {e : OutputEvent} :
    ¬ (TranscoderEvent.output i e).IsDecoder := by
  rintro (⟨data, hdata⟩ | ⟨data, hdata⟩)
  · cases hdata
  · cases hdata

namespace Transcoder

variable {t t' : Transcoder} {i : ℕ} {e : OutputEvent} {data : List UInt8} {timestamp : UInt32}
  {keyframe : Bool} {out : List TranscoderEvent}

/-- What is given to the video decoder, if it has been set up. -/
theorem isDecoder_video (sets : List (List UInt8)) :
    ∀ e ∈ (if t.videoDecoder.initialized then sets.map .videoDecoder else []),
      TranscoderEvent.IsDecoder e := by
  intro e he
  split at he
  · obtain ⟨set, -, rfl⟩ := List.mem_map.1 he
    exact .inl ⟨set, rfl⟩
  · cases he

/-- **What a video message does**: at most the decoder is given something and the length size changes,
or a picture is decoded and processed. -/
theorem onVideoData_cases {o : VideoOutcome}
    (h : t.onVideoData data timestamp keyframe o = .ok (t', out)) :
    (∃ size, t' = { t with naluLengthSize := size } ∧ ∀ e ∈ out, e.IsDecoder) ∨
      ∃ annexB frame fed, demuxVideo t.naluLengthSize data = .ok (.nalus annexB) ∧
        t.videoDecoder.decode o.decodeFrame annexB timestamp = some [frame] ∧
        frame.timestamp = timestamp ∧ (∀ e ∈ fed, TranscoderEvent.IsDecoder e) ∧
        t' = (t.processVideoFrame o.codecs frame).1 ∧
        out = fed ++ (t.processVideoFrame o.codecs frame).2 := by
  unfold onVideoData at h
  cases hdemux : demuxVideo t.naluLengthSize data with
  | error f =>
      rw [hdemux] at h
      cases h
  | ok payload =>
      simp only [hdemux, bind, Except.bind] at h
      cases payload with
      | ignored =>
          obtain ⟨rfl, rfl⟩ := Prod.mk.inj (Except.ok.inj h)
          exact .inl ⟨t.naluLengthSize, rfl, by simp⟩
      | config size sets =>
          obtain ⟨rfl, rfl⟩ := Prod.mk.inj (Except.ok.inj h)
          exact .inl ⟨size, rfl, isDecoder_video sets⟩
      | nalus annexB =>
          have hfed := isDecoder_video (t := t) [annexB]
          simp only at h
          cases hdecode : t.videoDecoder.decode o.decodeFrame annexB timestamp with
          | none =>
              rw [hdecode] at h
              obtain ⟨rfl, rfl⟩ := Prod.mk.inj (Except.ok.inj h)
              exact .inl ⟨t.naluLengthSize, rfl, hfed⟩
          | some frames =>
              rw [hdecode] at h
              obtain ⟨rfl, rfl⟩ := Prod.mk.inj (Except.ok.inj h)
              rcases H264Decoder.decode_cases hdecode with rfl | ⟨frame, rfl, htimestamp⟩
              · refine .inl ⟨t.naluLengthSize, rfl, ?_⟩
                rw [processFrames, List.append_nil]
                exact hfed
              · rw [processFrames_singleton]
                exact .inr ⟨annexB, frame, _, rfl, hdecode, htimestamp, hfed, rfl, rfl⟩

/-- **What an audio message does**: at most the decoder changes and is given something, or sound is
decoded and processed. -/
theorem onAudioData_cases {o : AudioOutcome} (h : t.onAudioData data timestamp o = (t', out)) :
    (∃ decoder initialized, t' =
        { t with audioDecoder := decoder, audioInitialized := initialized } ∧
        ∀ e ∈ out, e.IsDecoder) ∨
      ∃ aac frame fed, demuxAudio data = .raw aac ∧
        t.audioDecoder.decode o.decodeFrame aac timestamp = some [frame] ∧
        frame.timestamp = timestamp ∧ (∀ e ∈ fed, TranscoderEvent.IsDecoder e) ∧
        t' = (t.processAudioFrame o.codecs frame).1 ∧
        out = fed ++ (t.processAudioFrame o.codecs frame).2 := by
  unfold onAudioData at h
  cases hdemux : demuxAudio data with
  | ignored =>
      rw [hdemux] at h
      obtain ⟨rfl, rfl⟩ := Prod.mk.inj h
      exact .inl ⟨t.audioDecoder, t.audioInitialized, rfl, by simp⟩
  | config asc =>
      rw [hdemux] at h
      obtain ⟨rfl, rfl⟩ := Prod.mk.inj h
      exact .inl ⟨_, _, rfl, by simp⟩
  | raw aac =>
      simp only [hdemux] at h
      split at h
      · obtain ⟨rfl, rfl⟩ := Prod.mk.inj h
        exact .inl ⟨t.audioDecoder, t.audioInitialized, rfl, by simp⟩
      · have hfed : ∀ e ∈
            (if t.audioDecoder.initialized then [TranscoderEvent.audioDecoder aac] else []),
            e.IsDecoder := by
          intro e he
          split at he
          · rw [List.mem_singleton.1 he]
            exact .inr ⟨aac, rfl⟩
          · cases he
        cases hdecode : t.audioDecoder.decode o.decodeFrame aac timestamp with
        | none =>
            rw [hdecode] at h
            obtain ⟨rfl, rfl⟩ := Prod.mk.inj h
            exact .inl ⟨t.audioDecoder, t.audioInitialized, rfl, hfed⟩
        | some frames =>
            rw [hdecode] at h
            obtain ⟨rfl, rfl⟩ := Prod.mk.inj h
            obtain ⟨frame, rfl, htimestamp⟩ := AACDecoder.decode_cases hdecode
            rw [processFrames_singleton]
            exact .inr ⟨aac, frame, _, rfl, hdecode, htimestamp, hfed, rfl, rfl⟩

theorem startPublishing_same (t : Transcoder) :
    t.startPublishing.outputs = t.outputs ∧
      t.startPublishing.actualAudioSampleRate = t.actualAudioSampleRate := by
  unfold startPublishing
  split <;> exact ⟨rfl, rfl⟩

theorem mem_onMessage {j : ℕ} {stale : UInt64} {msg : Message} :
    .output j e ∈ (t.onMessage i stale msg).2 ↔ j = i ∧ ∃ out, t.listening i = some out ∧
      e ∈ (out.onMessage t.actualAudioSampleRate stale msg).2 := by
  have hsame : t.startPublishing.listening i = t.listening i := by
    rw [listening, listening, (startPublishing_same t).1]
  unfold onMessage
  simp only
  split
  · rw [mem_callback, hsame, (startPublishing_same t).2]
  · exact mem_callback

/-- **Whatever happens to an output in a step has one of these causes.** -/
theorem caused_of_step {input : TranscoderInput} (h : machine t input out t')
    (hmem : .output i e ∈ out) : Caused t input t' i e := by
  have hsplit {fed rest : List TranscoderEvent} (hfed : ∀ e ∈ fed, TranscoderEvent.IsDecoder e)
      (hmem : .output i e ∈ fed ++ rest) : .output i e ∈ rest :=
    (List.mem_append.1 hmem).resolve_left fun hmem =>
      TranscoderEvent.IsDecoder.not_output (hfed _ hmem)
  cases input with
  | addOutput config =>
      obtain ⟨rfl, rfl⟩ := Prod.mk.inj (Except.ok.inj h)
      cases hmem
  | start o =>
      obtain ⟨rfl, rfl⟩ := Prod.mk.inj (Except.ok.inj h)
      obtain ⟨out, hout, hmem⟩ := mem_eachOutput.1 hmem
      exact .started hout hmem
  | stop =>
      obtain ⟨rfl, rfl⟩ := Prod.mk.inj (Except.ok.inj h)
      obtain ⟨out, hout, hmem⟩ := mem_eachOutput.1 hmem
      exact .stopped hout hmem
  | onSourceMetadata width height fps sampleRate channels created =>
      obtain ⟨rfl, rfl⟩ := Prod.mk.inj (Except.ok.inj h)
      cases hmem
  | onVideoData data timestamp keyframe o =>
      have hstep : t.onVideoData data timestamp keyframe o = .ok (t', out) := h
      rcases onVideoData_cases hstep with
        ⟨size, -, hdecoder⟩ | ⟨annexB, frame, fed, -, -, rfl, hfed, rfl, rfl⟩
      · exact absurd (hdecoder _ hmem) TranscoderEvent.IsDecoder.not_output
      · exact caused_processVideoFrame (hsplit hfed hmem) data keyframe o
  | onAudioData data timestamp o =>
      have hpair : t.onAudioData data timestamp o = (t', out) := Except.ok.inj h
      rcases onAudioData_cases hpair with
        ⟨decoder, initialized, -, hdecoder⟩ | ⟨aac, frame, fed, -, -, rfl, hfed, rfl, rfl⟩
      · exact absurd (hdecoder _ hmem) TranscoderEvent.IsDecoder.not_output
      · exact caused_processAudioFrame (hsplit hfed hmem) data o
  | connected k =>
      obtain ⟨rfl, rfl⟩ := Prod.mk.inj (Except.ok.inj h)
      obtain ⟨rfl, out, hout, hmem⟩ := mem_callback.1 hmem
      exact .connected hout hmem
  | message k stale msg =>
      have hpair : t.onMessage k stale msg = (t', out) := Except.ok.inj h
      have hout : (t.onMessage k stale msg).2 = out := congrArg Prod.snd hpair
      rw [← hout] at hmem
      obtain ⟨rfl, out, hout, hmem⟩ := mem_onMessage.1 hmem
      exact .message hout hmem
  | disconnected k =>
      obtain ⟨rfl, rfl⟩ := Prod.mk.inj (Except.ok.inj h)
      obtain ⟨rfl, out, hout, hmem⟩ := mem_callback.1 hmem
      exact .disconnected hout hmem

end Transcoder

/-! ### Before publishing has started -/

namespace Output

/-- The encoders of an output have not been set up. -/
def Unprepared (out : Output) : Prop := out.videoInitialized = false ∧ out.audioInitialized = false

variable {out : Output}

theorem Unprepared.onDisconnected (h : out.Unprepared) : out.onDisconnected.1.Unprepared := h

theorem Unprepared.destroyClient (h : out.Unprepared) : out.destroyClient.1.Unprepared := by
  unfold Output.destroyClient
  split
  · exact h.onDisconnected
  · exact h

theorem Unprepared.start (h : out.Unprepared) (o : StartOutcome) : (out.start o).1.Unprepared := by
  have hgone := h.destroyClient
  unfold Output.start
  simp only
  split
  · exact hgone
  · split <;> exact hgone

theorem Unprepared.onConnected (h : out.Unprepared) : out.onConnected.1.Unprepared := by
  unfold Output.onConnected
  simp only
  split_ifs <;> exact h

theorem Unprepared.onMessage {rate : UInt32} {stale : UInt64} {msg : Message} (h : out.Unprepared)
    (hconfirm : isPublishConfirmation stale msg = false) :
    (out.onMessage rate stale msg).1.Unprepared := by
  rcases @onMessage_cases out rate stale msg hconfirm with heq | heq | heq | ⟨streamId, msg', -, heq⟩
  · rw [heq]
    exact h
  · rw [heq]
    exact h
  · rw [heq]
    exact h
  · rw [heq]
    exact h

end Output

namespace Transcoder

/-- As long as publishing has not started, no base is set, and no encoder has been set up. -/
def Waits (t : Transcoder) : Prop :=
  t.publishingStarted = false → t.baseVideoTimestampSet = false ∧ t.baseAudioTimestampSet = false ∧
    ∀ out ∈ t.outputs, out.Unprepared

variable {t t' : Transcoder} {log : List TranscoderEvent}

theorem Waits.eachOutput {f : ℕ → Output → Output × List OutputEvent} (h : t.Waits)
    (hf : ∀ i out, out.Unprepared → (f i out).1.Unprepared) : (t.eachOutput f).1.Waits := by
  intro hstarted
  obtain ⟨hvideo, haudio, hout⟩ := h hstarted
  refine ⟨hvideo, haudio, fun out' hout' => ?_⟩
  obtain ⟨i, hi, rfl⟩ := List.mem_mapIdx.1 hout'
  exact hf i _ (hout _ (List.getElem_mem hi))

theorem Waits.callback {f : Output → Output × List OutputEvent} {i : ℕ} (h : t.Waits)
    (hf : ∀ out, out.Unprepared → (f out).1.Unprepared) : (t.callback i f).1.Waits := by
  unfold Transcoder.callback
  cases hlistening : t.listening i with
  | none => exact h
  | some out =>
      intro hstarted
      obtain ⟨hvideo, haudio, hout⟩ := h hstarted
      refine ⟨hvideo, haudio, fun out' hout' => ?_⟩
      have hmem : out ∈ t.outputs := by
        rw [listening, Option.filter_eq_some_iff] at hlistening
        exact List.mem_of_getElem? hlistening.1
      rcases List.mem_or_eq_of_mem_set hout' with hout' | rfl
      · exact hout out' hout'
      · exact hf out (hout out hmem)

/-- What a picture changes besides the outputs is what it changes at the gate. -/
theorem processVideoFrame_fst (t : Transcoder) (codecs : ℕ → VideoCodecs) (frame : VideoFrame) :
    ∃ outputs, (t.processVideoFrame codecs frame).1 =
      { (t.gateVideo frame).1 with outputs := outputs } := by
  unfold processVideoFrame
  simp only
  split
  · exact ⟨(t.gateVideo frame).1.outputs, rfl⟩
  · exact ⟨_, rfl⟩

/-- What sound changes besides the outputs and the rate is what it changes at the gate. -/
theorem processAudioFrame_fst (t : Transcoder) (codecs : ℕ → AudioCodecs) (frame : AudioFrame) :
    ∃ outputs, (t.processAudioFrame codecs frame).1 =
      { ({ t with actualAudioSampleRate := UInt32.ofInt frame.sampleRate }.gateAudio frame).1 with
        outputs := outputs } := by
  unfold processAudioFrame
  simp only
  split
  · exact ⟨_, rfl⟩
  · exact ⟨_, rfl⟩

theorem gateVideo_publishingStarted (frame : VideoFrame) :
    (t.gateVideo frame).1.publishingStarted = t.publishingStarted := by
  unfold gateVideo
  split
  · split <;> rfl
  · rfl

theorem gateAudio_publishingStarted (frame : AudioFrame) :
    (t.gateAudio frame).1.publishingStarted = t.publishingStarted := by
  unfold gateAudio
  split <;> rfl

theorem Waits.processVideoFrame (h : t.Waits) (codecs : ℕ → VideoCodecs) (frame : VideoFrame) :
    (t.processVideoFrame codecs frame).1.Waits := by
  cases hstarted : t.publishingStarted with
  | true =>
      obtain ⟨outputs, heq⟩ := processVideoFrame_fst t codecs frame
      intro hnot
      rw [heq] at hnot
      exact absurd ((gateVideo_publishingStarted frame).symm.trans hnot) (by simp [hstarted])
  | false =>
      have hgate : t.gateVideo frame = (t, false) := by
        simp [gateVideo, hstarted, (h hstarted).1]
      unfold Transcoder.processVideoFrame
      rw [hgate]
      exact h

theorem Waits.processAudioFrame (h : t.Waits) (codecs : ℕ → AudioCodecs) (frame : AudioFrame) :
    (t.processAudioFrame codecs frame).1.Waits := by
  cases hstarted : t.publishingStarted with
  | true =>
      obtain ⟨outputs, heq⟩ := processAudioFrame_fst t codecs frame
      intro hnot
      rw [heq] at hnot
      have hrate := gateAudio_publishingStarted
        (t := { t with actualAudioSampleRate := UInt32.ofInt frame.sampleRate }) frame
      exact absurd (hrate.symm.trans hnot) (by simp [hstarted])
  | false =>
      have hgate : { t with actualAudioSampleRate := UInt32.ofInt frame.sampleRate }.gateAudio frame =
          ({ t with actualAudioSampleRate := UInt32.ofInt frame.sampleRate }, false) := by
        simp [gateAudio, hstarted, (h hstarted).2.1]
      unfold Transcoder.processAudioFrame
      simp only [hgate]
      exact h

theorem Waits.onMessage (h : t.Waits) (i : ℕ) (stale : UInt64) (msg : Message) :
    (t.onMessage i stale msg).1.Waits := by
  unfold Transcoder.onMessage
  simp only
  split
  · -- publishing has started now
    intro hnot
    exfalso
    have hstarted : t.startPublishing.publishingStarted = true := by
      unfold startPublishing
      split
      · assumption
      · rfl
    unfold Transcoder.callback at hnot
    split at hnot
    · rw [hstarted] at hnot
      cases hnot
    · exact absurd (hstarted.symm.trans hnot) (by simp)
  · rename_i hconfirm
    cases hlistening : t.listening i with
    | none =>
        unfold Transcoder.callback
        rw [hlistening]
        exact h
    | some out =>
        have hnot : isPublishConfirmation stale msg = false := by
          simpa [hlistening] using hconfirm
        exact h.callback fun out hout => hout.onMessage hnot

/-- **No base is set, and no encoder is set up, before publishing has started.** -/
theorem Waits.step {input : TranscoderInput} (h : t.Waits) (hstep : machine t input log t') :
    t'.Waits := by
  cases input with
  | addOutput config =>
      obtain ⟨rfl, rfl⟩ := Prod.mk.inj (Except.ok.inj hstep)
      intro hstarted
      obtain ⟨hvideo, haudio, hout⟩ := h hstarted
      refine ⟨hvideo, haudio, fun out hmem => ?_⟩
      rcases List.mem_append.1 hmem with hmem | hmem
      · exact hout out hmem
      · rw [List.mem_singleton.1 hmem]
        exact ⟨rfl, rfl⟩
  | start o =>
      obtain ⟨rfl, rfl⟩ := Prod.mk.inj (Except.ok.inj hstep)
      exact h.eachOutput fun i out hout => hout.start (o i)
  | stop =>
      obtain ⟨rfl, rfl⟩ := Prod.mk.inj (Except.ok.inj hstep)
      intro hstarted
      exact ⟨(h hstarted).1, (h hstarted).2.1, by simp⟩
  | onSourceMetadata width height fps sampleRate channels created =>
      obtain ⟨rfl, rfl⟩ := Prod.mk.inj (Except.ok.inj hstep)
      exact h
  | onVideoData data timestamp keyframe o =>
      have hok : t.onVideoData data timestamp keyframe o = .ok (t', log) := hstep
      rcases onVideoData_cases hok with ⟨size, rfl, -⟩ | ⟨annexB, frame, fed, -, -, -, -, rfl, -⟩
      · exact h
      · exact h.processVideoFrame o.codecs frame
  | onAudioData data timestamp o =>
      have hpair : t.onAudioData data timestamp o = (t', log) := Except.ok.inj hstep
      rcases onAudioData_cases hpair with
        ⟨decoder, initialized, rfl, -⟩ | ⟨aac, frame, fed, -, -, -, -, rfl, -⟩
      · exact h
      · exact h.processAudioFrame o.codecs frame
  | connected k =>
      obtain ⟨rfl, rfl⟩ := Prod.mk.inj (Except.ok.inj hstep)
      exact h.callback fun out hout => hout.onConnected
  | message k stale msg =>
      have hfst : (t.onMessage k stale msg).1 = t' := congrArg Prod.fst (Except.ok.inj hstep)
      rw [← hfst]
      exact h.onMessage k stale msg
  | disconnected k =>
      obtain ⟨rfl, rfl⟩ := Prod.mk.inj (Except.ok.inj hstep)
      exact h.callback fun out hout => hout.onDisconnected

theorem waits_of_run {trace : List (Machine.Moment Transcoder TranscoderInput TranscoderEvent)}
    (hrun : Machine.Run machine {} trace t) : t.Waits := by
  induction hrun with
  | nil => exact fun _ => ⟨rfl, rfl, by simp⟩
  | snoc _ hstep ih => exact ih.step hstep

end Transcoder

end Transcode
