/-
**Audio configurations and formats.**

A stream of sound says in a sequence header how it is coded, and its frames have a sample rate and a
number of channels.  `AACDecoder` is configured with the first sequence header that the codec library
accepts, and each `AACEncoder` is set up for the first frame that it is given.  Both have a flag that
says so, and keep it: later headers, and frames of another format, change nothing.  So the
configuration in force is that of the first publisher, and its format is what every later one is
encoded under.

Main definitions:

* `Transcode.acceptedConfigs` — the configurations that the codec library accepts, in a run;
* `Transcode.Transcoder.decoded`, `Transcode.Transcoder.handed` — what the decoder is given, and what the
  encoder of an output is given;
* `Transcode.formats` — the formats of the frames that the encoder of an output has been given;
* `Transcode.NewestInForce` — what the newest audio configuration in force means for a step;
* `Transcode.AudioUnchanged` — neither the configuration nor the format has changed.

Main results:

* `Transcode.Transcoder.configured_of_run` — **the decoder has the first configuration**;
* `Transcode.Transcoder.formatted_of_run` — **an encoder has the format of its first frame**;
* `Transcode.newest_configuration_iff` — **the newest configuration is in force, throughout a run,
  exactly if neither changes**.
-/

import RtmpTranscoder.Synchrony
import RtmpTranscoder.VideoDemux

set_option relaxedAutoImplicit false
set_option autoImplicit false

namespace Transcode

open Machine (Moment Run)
open Rtmp (Message)

/-! ### What is given to the codecs -/

/-- The configuration of a sequence header that the codec library accepts. -/
def acceptedConfig : TranscoderInput → Option (List UInt8)
  | .onAudioData data _ o =>
      match demuxAudio data with
      | .config asc => if o.opened && o.configRaw asc then some asc else none
      | _ => none
  | _ => none

/-- The configurations that the codec library accepts, in a run. -/
def acceptedConfigs (trace : List (Moment Transcoder TranscoderInput TranscoderEvent)) :
    List (List UInt8) :=
  (Machine.inputs trace).filterMap acceptedConfig

namespace Transcoder

/-- The frame that the decoder is given. -/
def decoded (t : Transcoder) : TranscoderInput → Option (List UInt8)
  | .onAudioData data _ _ =>
      match demuxAudio data with
      | .raw aac => if t.audioInitialized && t.audioDecoder.initialized then some aac else none
      | _ => none
  | _ => none

/-- The decoded frame that is let through to the outputs. -/
def passing (t : Transcoder) (data : List UInt8) (timestamp : UInt32) (o : AudioOutcome) :
    Option AudioFrame :=
  match demuxAudio data with
  | .raw aac =>
      if t.audioInitialized then
        match t.audioDecoder.decode o.decodeFrame aac timestamp with
        | some [frame] =>
            if ({ t with actualAudioSampleRate := UInt32.ofInt frame.sampleRate }.gateAudio frame).2 then
              some frame
            else none
        | _ => none
      else none
  | _ => none

/-- The frame that the encoder of the output `i` is given, and the encoder. -/
def handed (t : Transcoder) (i : ℕ) : TranscoderInput → Option (AACEncoder × AudioFrame)
  | .onAudioData data timestamp o =>
      match t.passing data timestamp o, t.outputs[i]? with
      | some frame, some out =>
          let (out, ok) := out.initializeAudio (o.codecs i) frame
          if ok then some (out.audioEncoder, frame) else none
      | _, _ => none
  | _ => none

end Transcoder

/-- The format of a frame: its sample rate and its number of channels. -/
def AudioFrame.format (frame : AudioFrame) : ℤ × ℤ := (frame.sampleRate, frame.channels)

/-- The format that an encoder has been set up for. -/
def AACEncoder.format (e : AACEncoder) : ℤ × ℤ := (e.sampleRate, e.channels)

/-- The formats of the frames that the encoder of the output `i` has been given, one step later. -/
def formatsAfter (i : ℕ) (formats : List (ℤ × ℤ))
    (m : Moment Transcoder TranscoderInput TranscoderEvent) : List (ℤ × ℤ) :=
  match m.input with
  | .stop => []
  | input => formats ++ ((m.state.handed i input).map fun given => given.2.format).toList

/-- The formats of the frames that the encoder of the output `i` has been given, since it exists. -/
def formats (i : ℕ) (trace : List (Moment Transcoder TranscoderInput TranscoderEvent)) :
    List (ℤ × ℤ) :=
  trace.foldl (formatsAfter i) []

namespace Transcoder

variable {t t' : Transcoder} {input : TranscoderInput} {log : List TranscoderEvent} {i : ℕ}
  {trace : List (Moment Transcoder TranscoderInput TranscoderEvent)}

/-! ### The decoder -/

/-- A frame is decoded when there is a decoder that has been set up. -/
theorem decoded_eq_some {aac : List UInt8} : t.decoded input = some aac ↔
    ∃ data timestamp o, input = .onAudioData data timestamp o ∧ demuxAudio data = .raw aac ∧
      t.audioInitialized = true ∧ t.audioDecoder.initialized = true := by
  constructor
  · intro h
    cases input with
    | onAudioData data timestamp o =>
        cases hdemux : demuxAudio data with
        | raw aac' =>
            simp only [decoded, hdemux] at h
            split at h
            · rename_i hset
              obtain rfl := Option.some.inj h
              exact ⟨data, timestamp, o, rfl, hdemux, (Bool.and_eq_true _ _).mp hset⟩
            · cases h
        | _ =>
            simp only [decoded, hdemux] at h
            cases h
    | _ => cases h
  · rintro ⟨data, timestamp, o, rfl, hdemux, hinitialized, hdecoder⟩
    simp only [decoded, hdemux, hinitialized, hdecoder, Bool.and_self, if_true]

/-- **What the decoder is given when an audio message comes in.** -/
theorem mem_onAudioData {data : List UInt8} {timestamp : UInt32} {o : AudioOutcome}
    {aac : List UInt8} : .audioDecoder aac ∈ (t.onAudioData data timestamp o).2 ↔
      t.decoded (.onAudioData data timestamp o) = some aac := by
  have hfed (aac' : List UInt8) (b : Bool) :
      .audioDecoder aac ∈ (if b then [TranscoderEvent.audioDecoder aac'] else []) ↔
        (if b then some aac' else none) = some aac := by
    cases b <;> simp [eq_comm]
  unfold onAudioData
  cases hdemux : demuxAudio data with
  | ignored => simp [decoded, hdemux]
  | config asc => simp [decoded, hdemux]
  | raw aac' =>
      cases hinitialized : t.audioInitialized with
      | false => simp [decoded, hdemux, hinitialized]
      | true =>
          simp only [decoded, hdemux, hinitialized, Bool.not_true, Bool.false_eq_true, if_false,
            Bool.true_and, ← hfed]
          cases hdecode : t.audioDecoder.decode o.decodeFrame aac' timestamp with
          | none => rfl
          | some frames =>
              obtain ⟨frame, rfl, -⟩ := AACDecoder.decode_cases hdecode
              simp only [processFrames_singleton]
              rw [List.mem_append, or_iff_left]
              intro hmem
              exact processAudioFrame_not_decoder _ _ _ hmem (.inr ⟨aac, rfl⟩)

/-- The decoder has the first configuration that has been accepted. -/
structure Configured (configs : List (List UInt8)) (t : Transcoder) : Prop where
  initialized : t.audioInitialized = t.audioDecoder.initialized
  first : configs.head? = if t.audioDecoder.initialized then some t.audioDecoder.asc else none

theorem Configured.of_eq {configs : List (List UInt8)} (h : t.Configured configs)
    (hdecoder : t'.audioDecoder = t.audioDecoder)
    (hinitialized : t'.audioInitialized = t.audioInitialized) : t'.Configured configs where
  initialized := by rw [hinitialized, hdecoder, h.initialized]
  first := by rw [hdecoder, h.first]

theorem config_ne_nil {data asc : List UInt8} (h : demuxAudio data = .config asc) : asc ≠ [] := by
  unfold demuxAudio at h
  split at h
  · split_ifs at h with hformat hheader hshort hraw hlen
    · cases h
      rintro rfl
      exact hshort (by decide)
  · cases h

theorem keepsDecoders_onAudioData {data aac : List UInt8} (h : demuxAudio data = .raw aac)
    (timestamp : UInt32) (o : AudioOutcome) : t.KeepsDecoders (t.onAudioData data timestamp o).1 := by
  unfold onAudioData
  simp only [h]
  split
  · exact .refl t
  · cases hdecode : t.audioDecoder.decode o.decodeFrame aac timestamp with
    | none => exact .refl t
    | some frames =>
        obtain ⟨frame, rfl, -⟩ := AACDecoder.decode_cases hdecode
        simp only [processFrames_singleton]
        exact keepsDecoders_processAudioFrame o.codecs frame

/-- **A configuration is taken if there is none yet**, and changes nothing otherwise. -/
theorem Configured.config {configs : List (List UInt8)} (h : t.Configured configs)
    {data asc : List UInt8} (hdemux : demuxAudio data = .config asc) (timestamp : UInt32)
    (o : AudioOutcome) :
    (t.onAudioData data timestamp o).1.Configured
      (configs ++ if o.opened && o.configRaw asc then [asc] else []) := by
  have hempty : asc.isEmpty = false := by simpa using config_ne_nil hdemux
  obtain ⟨hinitialized, hfirst⟩ := h
  simp only [Transcoder.onAudioData, hdemux]
  cases hd : t.audioDecoder.initialized with
  | true =>
      rw [hd, if_pos rfl] at hfirst
      obtain ⟨rest, rfl⟩ : ∃ rest, configs = t.audioDecoder.asc :: rest := by
        cases configs with
        | nil => cases hfirst
        | cons first rest =>
            obtain rfl := Option.some.inj hfirst
            exact ⟨rest, rfl⟩
      simp only [AACDecoder.initializeWith, hd, if_true, Bool.or_true]
      exact ⟨hd.symm, by rw [hd]; rfl⟩
  | false =>
      rw [hd] at hinitialized
      rw [hd, if_neg Bool.false_ne_true, List.head?_eq_none_iff] at hfirst
      subst hfirst
      cases hopened : o.opened with
      | false =>
          simp only [AACDecoder.initializeWith, hd, hinitialized]
          exact ⟨hd.symm, by simp [hd]⟩
      | true =>
          cases hraw : o.configRaw asc with
          | false =>
              simp only [AACDecoder.initializeWith, hd, hinitialized, hempty, hraw]
              exact ⟨hd.symm, by simp [hd]⟩
          | true =>
              simp only [AACDecoder.initializeWith, hd, hinitialized, hempty, hraw]
              exact ⟨rfl, rfl⟩

/-- **What a step does to the decoder.** -/
theorem Configured.step {configs : List (List UInt8)} (h : t.Configured configs)
    (hstep : machine t input log t') : t'.Configured (configs ++ (acceptedConfig input).toList) := by
  have hkeep (hnone : acceptedConfig input = none) (hdecoder : t'.audioDecoder = t.audioDecoder)
      (hinitialized : t'.audioInitialized = t.audioInitialized) :
      t'.Configured (configs ++ (acceptedConfig input).toList) := by
    rw [hnone, Option.toList_none, List.append_nil]
    exact h.of_eq hdecoder hinitialized
  cases input with
  | addOutput config =>
      obtain ⟨rfl, rfl⟩ := Prod.mk.inj (Except.ok.inj hstep)
      exact hkeep rfl rfl rfl
  | start o =>
      obtain ⟨rfl, rfl⟩ := Prod.mk.inj (Except.ok.inj hstep)
      exact hkeep rfl rfl rfl
  | stop =>
      obtain ⟨rfl, rfl⟩ := Prod.mk.inj (Except.ok.inj hstep)
      exact hkeep rfl rfl rfl
  | onSourceMetadata width height fps sampleRate channels created =>
      obtain ⟨rfl, rfl⟩ := Prod.mk.inj (Except.ok.inj hstep)
      exact hkeep rfl rfl rfl
  | onVideoData data timestamp keyframe o =>
      have hok : t.onVideoData data timestamp keyframe o = .ok (t', log) := hstep
      rcases onVideoData_cases hok with ⟨size, rfl, -⟩ | ⟨annexB, frame, fed, -, -, -, -, rfl, -⟩
      · exact hkeep rfl rfl rfl
      · have hkeeps := keepsDecoders_processVideoFrame (t := t) o.codecs frame
        exact hkeep rfl hkeeps.audioDecoder hkeeps.audioInitialized
  | onAudioData data timestamp o =>
      have hfst : (t.onAudioData data timestamp o).1 = t' := congrArg Prod.fst (Except.ok.inj hstep)
      subst hfst
      cases hdemux : demuxAudio data with
      | ignored =>
          have hsame : (t.onAudioData data timestamp o).1 = t := by
            unfold onAudioData
            rw [hdemux]
          exact hkeep (by simp only [acceptedConfig, hdemux]) (by rw [hsame]) (by rw [hsame])
      | config asc =>
          have hconfig := h.config hdemux timestamp o
          have haccepted : (acceptedConfig (.onAudioData data timestamp o)).toList =
              if o.opened && o.configRaw asc then [asc] else [] := by
            simp only [acceptedConfig, hdemux]
            split <;> rfl
          rwa [haccepted]
      | raw aac =>
          have hkeeps := keepsDecoders_onAudioData (t := t) hdemux timestamp o
          exact hkeep (by simp only [acceptedConfig, hdemux]) hkeeps.audioDecoder
            hkeeps.audioInitialized
  | connected k =>
      obtain ⟨rfl, rfl⟩ := Prod.mk.inj (Except.ok.inj hstep)
      have hkeeps := keepsDecoders_callback (t := t) k Output.onConnected
      exact hkeep rfl hkeeps.audioDecoder hkeeps.audioInitialized
  | message k stale msg =>
      have hfst : (t.onMessage k stale msg).1 = t' := congrArg Prod.fst (Except.ok.inj hstep)
      subst hfst
      have hkeeps := keepsDecoders_onMessage (t := t) k stale msg
      exact hkeep rfl hkeeps.audioDecoder hkeeps.audioInitialized
  | disconnected k =>
      obtain ⟨rfl, rfl⟩ := Prod.mk.inj (Except.ok.inj hstep)
      have hkeeps := keepsDecoders_callback (t := t) k Output.onDisconnected
      exact hkeep rfl hkeeps.audioDecoder hkeeps.audioInitialized

theorem acceptedConfigs_snoc (trace : List (Moment Transcoder TranscoderInput TranscoderEvent))
    (m : Moment Transcoder TranscoderInput TranscoderEvent) :
    acceptedConfigs (trace ++ [m]) = acceptedConfigs trace ++ (acceptedConfig m.input).toList := by
  rw [acceptedConfigs, Machine.inputs_snoc, List.filterMap_append]
  cases h : acceptedConfig m.input <;> simp [acceptedConfigs, h]

/-- **The decoder has the first configuration that has been accepted**, in every run. -/
theorem configured_of_run (hrun : Run machine {} trace t) : t.Configured (acceptedConfigs trace) := by
  induction hrun with
  | nil => exact ⟨rfl, rfl⟩
  | @snoc trace t t' input log hrun hstep ih =>
      rw [acceptedConfigs_snoc]
      exact ih.step hstep

end Transcoder

/-! ### The encoders -/

namespace Output

variable {out : Output}

/-- What an output knows of its audio encoder. -/
def audioSetup (out : Output) : Bool × AACEncoder := (out.audioInitialized, out.audioEncoder)

theorem encodeAudio_fst (out : Output) (codecs : AudioCodecs) (rate : UInt32) (frame : AudioFrame)
    (outputTs : UInt32) :
    (out.encodeAudio codecs rate frame outputTs).1 = (out.initializeAudio codecs frame).1 := by
  unfold encodeAudio
  simp only
  split <;> rfl

theorem audioSetup_encodeVideo (out : Output) (codecs : VideoCodecs) (frame : VideoFrame)
    (outputTs : UInt32) : (out.encodeVideo codecs frame outputTs).1.audioSetup = out.audioSetup := by
  have hinitialize : (out.initializeVideo codecs frame).1.audioSetup = out.audioSetup := by
    unfold initializeVideo
    simp only
    split
    · rfl
    · split
      · rfl
      · split <;> rfl
  unfold encodeVideo
  simp only
  split
  · exact hinitialize
  · split <;> exact hinitialize

theorem audioSetup_start (out : Output) (o : StartOutcome) :
    (out.start o).1.audioSetup = out.audioSetup := by
  have hgone : out.destroyClient.1.audioSetup = out.audioSetup := by
    unfold destroyClient
    split <;> rfl
  unfold start
  simp only
  split
  · exact hgone
  · split <;> exact hgone

theorem audioSetup_onConnected (out : Output) : out.onConnected.1.audioSetup = out.audioSetup := by
  unfold onConnected
  simp only
  split_ifs <;> rfl

theorem audioSetup_onMessage (out : Output) (rate : UInt32) (stale : UInt64) (msg : Message) :
    (out.onMessage rate stale msg).1.audioSetup = out.audioSetup := by
  cases hconfirm : isPublishConfirmation stale msg with
  | true =>
      rw [onMessage_of_isPublishConfirmation hconfirm]
      rfl
  | false =>
      rcases @onMessage_cases out rate stale msg hconfirm with
        heq | heq | heq | ⟨streamId, msg', -, heq⟩ <;> rw [heq] <;> rfl

/-- The encoder of an output has been set up for the first frame that it has been given. -/
structure Formatted (formats : List (ℤ × ℤ)) (out : Output) : Prop where
  initialized : out.audioInitialized = out.audioEncoder.initialized
  first : formats.head? = if out.audioEncoder.initialized then some out.audioEncoder.format else none

/-- **What a frame does to the encoder**: it is set up, if it has not been, and given the frame. -/
theorem Formatted.initializeAudio {formats : List (ℤ × ℤ)} (h : out.Formatted formats)
    (codecs : AudioCodecs) (frame : AudioFrame) :
    (out.initializeAudio codecs frame).1.Formatted
      (formats ++ if (out.initializeAudio codecs frame).2 then [frame.format] else []) := by
  obtain ⟨hinitialized, hfirst⟩ := h
  unfold Output.initializeAudio
  cases hset : out.audioInitialized with
  | true =>
      rw [hset] at hinitialized
      rw [← hinitialized, if_pos rfl] at hfirst
      rw [if_pos rfl]
      refine ⟨hset.trans hinitialized, ?_⟩
      rw [List.head?_append, hfirst, ← hinitialized]
      rfl
  | false =>
      rw [hset] at hinitialized
      rw [← hinitialized, if_neg Bool.false_ne_true, List.head?_eq_none_iff] at hfirst
      subst hfirst
      rw [if_neg Bool.false_ne_true]
      simp only [AACEncoder.initializeWith, ← hinitialized, Bool.false_eq_true, if_false]
      cases codecs.setup frame.sampleRate frame.channels out.config.audioBitrateKbps with
      | notOpened => exact ⟨by simp [← hinitialized], by simp [← hinitialized]⟩
      | notConfigured => exact ⟨by simp, by simp⟩
      | done confBuf => exact ⟨rfl, rfl⟩

end Output

namespace Transcoder

variable {t t' : Transcoder} {input : TranscoderInput} {log : List TranscoderEvent} {i : ℕ}
  {trace : List (Moment Transcoder TranscoderInput TranscoderEvent)}

/-- The encoder of the output `i` has been set up for the first frame that it has been given. -/
def Formatted (i : ℕ) (formats : List (ℤ × ℤ)) (t : Transcoder) : Prop :=
  match t.outputs[i]? with
  | none => formats = []
  | some out => out.Formatted formats

theorem Formatted.of_eq {formats : List (ℤ × ℤ)} (h : t.Formatted i formats)
    (hsetup : (t'.outputs[i]?).map Output.audioSetup = (t.outputs[i]?).map Output.audioSetup) :
    t'.Formatted i formats := by
  unfold Formatted at h ⊢
  cases hout : t.outputs[i]? with
  | none =>
      rw [hout, Option.map_none, Option.map_eq_none_iff] at hsetup
      rw [hout] at h
      rw [hsetup]
      exact h
  | some out =>
      rw [hout, Option.map_some, Option.map_eq_some_iff] at hsetup
      rw [hout] at h
      obtain ⟨out', hout', heq⟩ := hsetup
      obtain ⟨hinitialized, hencoder⟩ := Prod.mk.inj heq
      rw [hout']
      refine ⟨?_, ?_⟩
      · rw [hinitialized, hencoder, h.initialized]
      · rw [hencoder, h.first]

theorem Formatted.eachOutput {formats : List (ℤ × ℤ)} (h : t.Formatted i formats)
    {f : ℕ → Output → Output × List OutputEvent}
    (hf : ∀ i out, (f i out).1.audioSetup = out.audioSetup) :
    (t.eachOutput f).1.Formatted i formats := by
  refine h.of_eq ?_
  rw [Transcoder.eachOutput, List.getElem?_mapIdx, Option.map_map]
  exact Option.map_congr fun out _ => hf i out

theorem Formatted.callback {formats : List (ℤ × ℤ)} (h : t.Formatted i formats) {k : ℕ}
    {f : Output → Output × List OutputEvent} (hf : ∀ out, (f out).1.audioSetup = out.audioSetup) :
    (t.callback k f).1.Formatted i formats := by
  unfold Transcoder.callback
  cases hlistening : t.listening k with
  | none => exact h
  | some out =>
      rw [listening, Option.filter_eq_some_iff] at hlistening
      refine h.of_eq ?_
      simp only [List.getElem?_set]
      split
      · rename_i hk
        obtain ⟨hlt, -⟩ := List.getElem?_eq_some_iff.1 hlistening.1
        rw [if_pos hlt, ← hk, hlistening.1, Option.map_some, Option.map_some, hf]
      · rfl

theorem Formatted.processVideoFrame {formats : List (ℤ × ℤ)} (h : t.Formatted i formats)
    (codecs : ℕ → VideoCodecs) (frame : VideoFrame) :
    (t.processVideoFrame codecs frame).1.Formatted i formats := by
  have hgate : (t.gateVideo frame).1.Formatted i formats := h.of_eq (by rw [gateVideo_outputs])
  unfold Transcoder.processVideoFrame
  simp only
  split
  · exact hgate
  · exact hgate.eachOutput fun i out => out.audioSetup_encodeVideo (codecs i) frame _

theorem Formatted.onMessage {formats : List (ℤ × ℤ)} (h : t.Formatted i formats) (k : ℕ)
    (stale : UInt64) (msg : Message) : (t.onMessage k stale msg).1.Formatted i formats := by
  have hstart : t.startPublishing.Formatted i formats := h.of_eq (by rw [(startPublishing_same t).1])
  unfold Transcoder.onMessage
  simp only
  split
  · exact hstart.callback fun out => out.audioSetup_onMessage _ stale msg
  · exact h.callback fun out => out.audioSetup_onMessage _ stale msg

theorem Formatted.addOutput {formats : List (ℤ × ℤ)} (h : t.Formatted i formats)
    (config : OutputConfig) :
    Transcoder.Formatted i formats { t with outputs := t.outputs ++ [{ config := config }] } := by
  rcases Nat.lt_trichotomy i t.outputs.length with hlt | rfl | hgt
  · exact h.of_eq (by simp only [List.getElem?_append_left hlt])
  · -- the new output has not been given anything
    unfold Formatted at h ⊢
    rw [List.getElem?_eq_none le_rfl] at h
    subst h
    simp only [List.getElem?_append_right le_rfl, Nat.sub_self, List.getElem?_cons_zero]
    exact ⟨rfl, rfl⟩
  · refine h.of_eq ?_
    rw [List.getElem?_eq_none (show t.outputs.length ≤ i by omega),
      List.getElem?_eq_none (by simp only [List.length_append, List.length_singleton]; omega)]

/-- **What an audio message does to the outputs**: the encoders are set up for a frame that is let
through. -/
theorem outputs_onAudioData (t : Transcoder) (data : List UInt8) (timestamp : UInt32)
    (o : AudioOutcome) (i : ℕ) :
    (t.onAudioData data timestamp o).1.outputs[i]? =
      match t.passing data timestamp o with
      | none => t.outputs[i]?
      | some frame => (t.outputs[i]?).map fun out => (out.initializeAudio (o.codecs i) frame).1 := by
  unfold onAudioData passing
  cases hdemux : demuxAudio data with
  | ignored => rfl
  | config asc => rfl
  | raw aac =>
      cases hinitialized : t.audioInitialized with
      | false => rfl
      | true =>
          cases hdecode : t.audioDecoder.decode o.decodeFrame aac timestamp with
          | none => simp only [hdecode, Bool.not_true, Bool.false_eq_true, if_false, if_true]
          | some frames =>
              obtain ⟨frame, rfl, -⟩ := AACDecoder.decode_cases hdecode
              simp only [hdecode, processFrames_singleton, processAudioFrame, Bool.not_true,
                Bool.false_eq_true, if_false, if_true]
              cases hpass : ({ t with
                actualAudioSampleRate := UInt32.ofInt frame.sampleRate }.gateAudio frame).2 with
              | false =>
                  rw [hinitialized] at hpass
                  simp only [hpass, Bool.not_false, if_true, Bool.false_eq_true, if_false,
                    gateAudio_outputs]
              | true =>
                  rw [hinitialized] at hpass
                  simp only [hpass, Bool.not_true, Bool.false_eq_true, if_false, if_true, eachOutput,
                    List.getElem?_mapIdx, gateAudio_outputs, Output.encodeAudio_fst]

theorem handed_onAudioData (t : Transcoder) (data : List UInt8) (timestamp : UInt32)
    (o : AudioOutcome) (i : ℕ) :
    t.handed i (.onAudioData data timestamp o) =
      (t.passing data timestamp o).bind fun frame => (t.outputs[i]?).bind fun out =>
        if (out.initializeAudio (o.codecs i) frame).2 then
          some ((out.initializeAudio (o.codecs i) frame).1.audioEncoder, frame)
        else none := by
  cases hpassing : t.passing data timestamp o with
  | none => simp only [handed, hpassing, Option.bind_none]
  | some frame =>
      cases hout : t.outputs[i]? with
      | none => simp only [handed, hpassing, hout, Option.bind_some, Option.bind_none]
      | some out => simp only [handed, hpassing, hout, Option.bind_some]

/-- **What an audio message does to an encoder.** -/
theorem Formatted.onAudioData {formats : List (ℤ × ℤ)} (h : t.Formatted i formats) (data : List UInt8)
    (timestamp : UInt32) (o : AudioOutcome) :
    (t.onAudioData data timestamp o).1.Formatted i (formats ++
      ((t.handed i (.onAudioData data timestamp o)).map fun given => given.2.format).toList) := by
  rw [handed_onAudioData]
  unfold Formatted at h ⊢
  rw [outputs_onAudioData]
  cases t.passing data timestamp o with
  | none => simpa using h
  | some frame =>
      cases hout : t.outputs[i]? with
      | none =>
          rw [hout] at h
          simpa using h
      | some out =>
          rw [hout] at h
          have hset := Output.Formatted.initializeAudio h (o.codecs i) frame
          cases hok : (out.initializeAudio (o.codecs i) frame).2 with
          | false =>
              rw [hok] at hset
              simpa [hok] using hset
          | true =>
              rw [hok] at hset
              simpa [hok] using hset

/-- **What a step does to an encoder.** -/
theorem Formatted.step {formats : List (ℤ × ℤ)} (h : t.Formatted i formats)
    (hstep : machine t input log t') :
    t'.Formatted i (formatsAfter i formats ⟨t, input, log⟩) := by
  cases input with
  | addOutput config =>
      obtain ⟨rfl, rfl⟩ := Prod.mk.inj (Except.ok.inj hstep)
      simp only [formatsAfter, handed, Option.map_none, Option.toList_none, List.append_nil]
      exact h.addOutput config
  | start o =>
      obtain ⟨rfl, rfl⟩ := Prod.mk.inj (Except.ok.inj hstep)
      simp only [formatsAfter, handed, Option.map_none, Option.toList_none, List.append_nil]
      exact h.eachOutput fun i out => out.audioSetup_start (o i)
  | stop =>
      obtain ⟨rfl, rfl⟩ := Prod.mk.inj (Except.ok.inj hstep)
      rfl
  | onSourceMetadata width height fps sampleRate channels created =>
      obtain ⟨rfl, rfl⟩ := Prod.mk.inj (Except.ok.inj hstep)
      simp only [formatsAfter, handed, Option.map_none, Option.toList_none, List.append_nil]
      exact h.of_eq rfl
  | onVideoData data timestamp keyframe o =>
      have hok : t.onVideoData data timestamp keyframe o = .ok (t', log) := hstep
      simp only [formatsAfter, handed, Option.map_none, Option.toList_none, List.append_nil]
      rcases onVideoData_cases hok with ⟨size, rfl, -⟩ | ⟨annexB, frame, fed, -, -, -, -, rfl, -⟩
      · exact h.of_eq rfl
      · exact h.processVideoFrame o.codecs frame
  | onAudioData data timestamp o =>
      have hfst : (t.onAudioData data timestamp o).1 = t' := congrArg Prod.fst (Except.ok.inj hstep)
      subst hfst
      exact h.onAudioData data timestamp o
  | connected k =>
      obtain ⟨rfl, rfl⟩ := Prod.mk.inj (Except.ok.inj hstep)
      simp only [formatsAfter, handed, Option.map_none, Option.toList_none, List.append_nil]
      exact h.callback Output.audioSetup_onConnected
  | message k stale msg =>
      have hfst : (t.onMessage k stale msg).1 = t' := congrArg Prod.fst (Except.ok.inj hstep)
      subst hfst
      simp only [formatsAfter, handed, Option.map_none, Option.toList_none, List.append_nil]
      exact h.onMessage k stale msg
  | disconnected k =>
      obtain ⟨rfl, rfl⟩ := Prod.mk.inj (Except.ok.inj hstep)
      simp only [formatsAfter, handed, Option.map_none, Option.toList_none, List.append_nil]
      exact h.callback fun _ => rfl

/-- **An encoder has the format of the first frame that it has been given**, in every run. -/
theorem formatted_of_run (hrun : Run machine {} trace t) (i : ℕ) :
    t.Formatted i (formats i trace) := by
  induction hrun with
  | nil => rfl
  | @snoc trace t t' input log hrun hstep ih =>
      rw [formats, List.foldl_append]
      exact ih.step hstep

end Transcoder

/-! ### The newest configuration -/

/-- What the newest audio configuration in force means for a step behind others: a frame that is
decoded is decoded under the last configuration that has been accepted, and a frame that is encoded
is encoded by an encoder that has been set up for its format. -/
structure NewestInForce (before : List (Moment Transcoder TranscoderInput TranscoderEvent))
    (m : Moment Transcoder TranscoderInput TranscoderEvent) : Prop where
  decoder : ∀ aac, m.state.decoded m.input = some aac →
    (acceptedConfigs before).getLast? = some m.state.audioDecoder.asc
  encoder : ∀ i encoder frame, m.state.handed i m.input = some (encoder, frame) →
    encoder.format = frame.format

/-- What comes before a step has not changed what is coded: when a frame comes in, the last
configuration that has been accepted is the first one, and when a frame is encoded, it has the format
of the first frame that the encoder has been given. -/
structure AudioUnchanged (before : List (Moment Transcoder TranscoderInput TranscoderEvent))
    (m : Moment Transcoder TranscoderInput TranscoderEvent) : Prop where
  config : ∀ data timestamp o aac, m.input = .onAudioData data timestamp o →
    demuxAudio data = .raw aac →
    (acceptedConfigs before).getLast? = (acceptedConfigs before).head?
  format : ∀ i encoder frame, m.state.handed i m.input = some (encoder, frame) →
    ∀ first, (formats i before).head? = some first → frame.format = first

section Newest

variable {t : Transcoder} {trace : List (Moment Transcoder TranscoderInput TranscoderEvent)}
  {m : Moment Transcoder TranscoderInput TranscoderEvent}

/-- An encoder that is given a frame has the format of its first one. -/
theorem format_of_handed (hrun : Run Transcoder.machine {} trace m.state) {i : ℕ}
    {encoder : AACEncoder} {frame : AudioFrame}
    (h : m.state.handed i m.input = some (encoder, frame)) :
    (formats i trace ++ [frame.format]).head? = some encoder.format := by
  obtain ⟨t, input, log⟩ := m
  have hformatted := Transcoder.formatted_of_run hrun i
  cases input with
  | onAudioData data timestamp o =>
      have hstep := hformatted.onAudioData data timestamp o
      have hgiven : t.handed i (.onAudioData data timestamp o) = some (encoder, frame) := h
      unfold Transcoder.Formatted at hstep
      rw [Transcoder.outputs_onAudioData, hgiven] at hstep
      rw [Transcoder.handed_onAudioData] at hgiven
      obtain ⟨frame', hpassing, hgiven⟩ := Option.bind_eq_some_iff.1 hgiven
      obtain ⟨out, hout, hgiven⟩ := Option.bind_eq_some_iff.1 hgiven
      split at hgiven
      · obtain ⟨rfl, rfl⟩ := Prod.mk.inj (Option.some.inj hgiven)
        rw [hpassing, hout] at hstep
        obtain ⟨-, hfirst⟩ := hstep
        rw [Option.map_some, Option.toList_some] at hfirst
        rw [hfirst]
        split at hfirst
        · rename_i hinitialized
          rw [if_pos hinitialized]
        · simp at hfirst
      · cases hgiven
  | _ => cases h

/-- **A step finds the newest configuration in force exactly if it finds nothing changed.** -/
theorem newestInForce_iff (hrun : Run Transcoder.machine {} trace m.state) :
    NewestInForce trace m ↔ AudioUnchanged trace m := by
  have hconfigured := Transcoder.configured_of_run hrun
  constructor
  · intro h
    refine ⟨fun data timestamp o aac hinput hdemux => ?_, fun i encoder frame hhanded first hfirst => ?_⟩
    · cases hdecoder : m.state.audioDecoder.initialized with
      | false =>
          have hnone := hconfigured.first
          rw [hdecoder, if_neg Bool.false_ne_true] at hnone
          rw [hnone, List.head?_eq_none_iff.1 hnone, List.getLast?_nil]
      | true =>
          have hsome := hconfigured.first
          rw [hdecoder, if_pos rfl] at hsome
          have hdecoded := Transcoder.decoded_eq_some.2
            ⟨data, timestamp, o, hinput, hdemux, hconfigured.initialized.trans hdecoder, hdecoder⟩
          rw [hsome, h.decoder aac hdecoded]
    · have hformat := format_of_handed hrun hhanded
      rw [List.head?_append, hfirst, Option.some_or, Option.some.injEq] at hformat
      rw [← h.encoder i encoder frame hhanded, hformat]
  · intro h
    refine ⟨fun aac hdecoded => ?_, fun i encoder frame hhanded => ?_⟩
    · obtain ⟨data, timestamp, o, hinput, hdemux, -, hdecoder⟩ :=
        Transcoder.decoded_eq_some.1 hdecoded
      rw [h.config data timestamp o aac hinput hdemux, hconfigured.first, if_pos hdecoder]
    · have hformat := format_of_handed hrun hhanded
      cases hfirst : (formats i trace).head? with
      | none =>
          rw [List.head?_append, hfirst, Option.none_or, List.head?_cons, Option.some.injEq] at hformat
          exact hformat.symm
      | some first =>
          rw [List.head?_append, hfirst, Option.some_or, Option.some.injEq] at hformat
          rw [← hformat, h.format i encoder frame hhanded first hfirst]

/-- A second publisher says what its sound is like. -/
def otherSoundAnnounced : TranscoderInput := .onAudioData [0xAF, 0, 0x11, 0x90] 0 soundOutcome

/-- The frame of a second publisher is decoded under the configuration of the first. -/
theorem replay_other : ∃ t m₁ m₂ m₃,
    Machine.replay Transcoder.perform {} [soundAnnounced, otherSoundAnnounced, soundInput 0] =
      .ok (t, [m₁, m₂, m₃]) ∧
    acceptedConfigs [m₁, m₂] = [[0x12, 0x10], [0x11, 0x90]] ∧
    m₃.state.decoded m₃.input = some [0x21] ∧ m₃.state.audioDecoder.asc = [0x12, 0x10] :=
  ⟨_, _, _, _, rfl, rfl, rfl, rfl⟩

/-- Two publishers with one configuration. -/
theorem replay_same : ∃ t trace,
    Machine.replay Transcoder.perform {} [soundAnnounced, soundInput 0, soundAnnounced, soundInput 0] =
      .ok (t, trace) ∧
    acceptedConfigs trace = [[0x12, 0x10], [0x12, 0x10]] ∧
    ∀ m ∈ trace, ∀ i, m.state.handed i m.input = none := by
  refine ⟨_, _, rfl, rfl, ?_⟩
  intro m hm i
  rcases List.mem_cons.1 hm with rfl | hm
  · rfl
  · rcases List.mem_cons.1 hm with rfl | hm
    · rfl
    · rcases List.mem_pair.1 hm with rfl | rfl <;> rfl

end Newest

end Transcode
