/-
**Sequence headers.**

What a decoder has to know of a coded stream comes in sequence headers, which the transcoder sends when
the upstream confirms that an output is published, and at no other time.  It has them only if the
encoders of the output have been set up by then.  Encoders are set up by the first frame that is let
through, and frames are let through only after an output has been confirmed; so the first output that
is confirmed never gets headers for what it is then sent.

Main definitions:

* `Transcode.HeadersFirst` — in each publishing period of an output, headers come before what is coded;
* `Transcode.Prepared` — in each publishing period, something coded comes only after a confirmation
  that has found the encoder set up.

Main results:

* `Transcode.confirms_iff` — a header is sent exactly if a confirmation finds the encoder set up;
* `Transcode.headers_first_iff` — **headers come first exactly in the runs that are prepared**;
* `Transcode.headers_missing` — **the first output that is confirmed gets no header**.
-/

import RtmpTranscoder.Machine
import RtmpTranscoder.TranscoderSteps

set_option relaxedAutoImplicit false
set_option autoImplicit false

namespace Transcode

open Machine (Moment Run InForce Guarded)
open Amf0 (ObjectType)
open Relay (createStreamCmd publishCmd)
open Rtmp (Message MessageType CommandMessage)
open Text (ascii)

/-- What an output carries. -/
inductive Track where
  | video
  | audio

/-- What is coded of a track. -/
def Track.Coded : Track → Message → Prop
  | .video => IsCodedVideo
  | .audio => IsRawAac

/-- The sequence header of a track. -/
def Track.Header : Track → Message → Prop
  | .video => IsAvcHeader
  | .audio => IsAacHeader

/-- The encoder of a track has been set up, and has what goes into a header. -/
def Track.Ready : Track → Output → Prop
  | .video => fun out =>
      out.videoInitialized = true ∧ out.videoEncoder.sps ≠ [] ∧ out.videoEncoder.pps ≠ []
  | .audio => fun out => out.audioInitialized = true ∧ out.audioEncoder.asc ≠ []

/-- The output `i` is sent a message of a kind. -/
def Sends (i : ℕ) (kind : Message → Prop) (e : TranscoderEvent) : Prop :=
  ∃ msg, kind msg ∧ e = .output i (.client (.sendMessage msg))

/-- The publishing period of an output ends: it is not given a stream, its connection ends or gives way
to a new one, or it is removed. -/
def OutputEvent.EndsPeriod : OutputEvent → Prop
  | .refused | .disconnected | .removed | .client .create => True
  | _ => False

/-- The publishing period of the output `i` ends. -/
def EndsPeriod (i : ℕ) (e : TranscoderEvent) : Prop := ∃ event, event.EndsPeriod ∧ e = .output i event

/-- On each output, and in each of its publishing periods, headers come before what is coded. -/
def HeadersFirst (log : List TranscoderEvent) : Prop :=
  ∀ i (track : Track), Guarded (Sends i track.Coded) (Sends i track.Header) (EndsPeriod i) log

/-- A confirmation comes for the output `i`, and finds it ready. -/
def Confirms (i : ℕ) (ready : Output → Prop)
    (m : Moment Transcoder TranscoderInput TranscoderEvent) : Prop :=
  ∃ stale msg out, m.input = .message i stale msg ∧ isPublishConfirmation stale msg = true ∧
    m.state.listening i = some out ∧ ready out

/-- In each publishing period of an output, something coded is sent only after a confirmation that has
found the encoder ready. -/
def Prepared (trace : List (Moment Transcoder TranscoderInput TranscoderEvent)) : Prop :=
  ∀ i (track : Track), Guarded (Moment.Emits (Sends i track.Coded)) (Confirms i track.Ready)
    (Moment.Emits (EndsPeriod i)) trace

/-! ### Tracks -/

namespace Track

variable {msg : Message}

/-- The type of what is sent on a track. -/
def code : Track → UInt8
  | .video => MessageType.video.code
  | .audio => MessageType.audio.code

theorem code_injective : Function.Injective code := by
  intro a b h
  cases a <;> cases b <;> first | rfl | exact absurd h (by decide)

theorem Coded.typeId {track : Track} (h : track.Coded msg) : msg.typeId = track.code := by
  cases track <;> exact h.1

theorem Header.typeId {track : Track} (h : track.Header msg) : msg.typeId = track.code := by
  cases track <;> exact h.1

theorem code_ne_command (track : Track) : track.code ≠ MessageType.commandAMF0.code := by
  cases track <;> decide

theorem Coded.not_header {a b : Track} (h : a.Coded msg) : ¬ b.Header msg := by
  intro hheader
  obtain rfl := code_injective (h.typeId.symm.trans hheader.typeId)
  cases a with
  | video => exact not_isAvcHeader h hheader
  | audio => exact not_isAacHeader h hheader

end Track

/-! ### What a confirmation does -/

namespace Output

variable {out : Output} {rate : UInt32} {e : OutputEvent}

/-- What is sent for a confirmation are the headers of the encoders that are ready. -/
theorem mem_onPublishReady (h : e ∈ (out.onPublishReady rate).2) :
    e = .confirmed ∨ e = .client .flush ∨
      ∃ track : Track, track.Ready out ∧ ∃ msg, track.Header msg ∧ e = .client (.sendMessage msg) := by
  unfold onPublishReady at h
  simp only at h
  rcases List.mem_append.1 h with h | h
  · rcases List.mem_cons.1 h with rfl | h
    · exact .inl rfl
    · split at h
      · rename_i hready
        rcases List.mem_pair.1 h with rfl | rfl
        · exact .inr (.inr ⟨.video, hready, _, ⟨rfl, _, _, rfl⟩, rfl⟩)
        · exact .inr (.inl rfl)
      · cases h
  · split at h
    · rename_i hready
      rcases List.mem_pair.1 h with rfl | rfl
      · exact .inr (.inr ⟨.audio, hready, _, ⟨rfl, _, _, rfl⟩, rfl⟩)
      · exact .inr (.inl rfl)
    · cases h

theorem exists_header {track : Track} (h : track.Ready out) (rate : UInt32) :
    ∃ msg, .client (.sendMessage msg) ∈ (out.onPublishReady rate).2 ∧ track.Header msg := by
  unfold onPublishReady
  cases track with
  | video =>
      have hready : out.videoInitialized = true ∧ out.videoEncoder.sps ≠ [] ∧
          out.videoEncoder.pps ≠ [] := h
      simp only [if_pos hready]
      exact ⟨_, List.mem_append_left _ (List.mem_cons_of_mem _ List.mem_cons_self), rfl, _, _, rfl⟩
  | audio =>
      have hready : out.audioInitialized = true ∧ out.audioEncoder.asc ≠ [] := h
      simp only [if_pos hready]
      exact ⟨_, List.mem_append_right _ List.mem_cons_self, rfl, _, _, rfl⟩

end Output

/-! ### What else is sent -/

theorem Output.not_sendMessage_destroyClient {out : Output} {msg : Message} :
    .client (.sendMessage msg) ∉ out.destroyClient.2 := by
  unfold destroyClient
  split <;> simp [onDisconnected]

theorem Output.not_sendMessage_start {out : Output} {o : StartOutcome} {msg : Message} :
    .client (.sendMessage msg) ∉ (out.start o).2 := by
  intro h
  have hgone := @not_sendMessage_destroyClient out msg
  unfold start at h
  simp only at h
  split at h
  · simp [hgone] at h
  · split at h
    · simp [hgone] at h
    · simp [hgone] at h

theorem Output.not_sendMessage_onConnected {out : Output} {msg : Message} :
    .client (.sendMessage msg) ∉ out.onConnected.2 := by
  rcases onConnected_cases out with heq | ⟨cmd, heq⟩
  · simp [heq]
  · simp [heq]

/-- **A media message is sent for a frame, if the output is publishing, and then nothing else happens,
or for a confirmation.** -/
theorem Transcoder.Caused.of_sendMessage {t t' : Transcoder} {input : TranscoderInput} {i : ℕ}
    {msg : Message} (h : t.Caused input t' i (.client (.sendMessage msg)))
    (htype : msg.typeId ≠ MessageType.commandAMF0.code) :
    ((∃ out, t.outputs[i]? = some out ∧ out.publishing = true) ∧ ∀ e, t.Caused input t' i e →
        ∃ (track : Track) (msg : Message), track.Coded msg ∧ e = .client (.sendMessage msg)) ∨
      ∃ stale m out, input = .message i stale m ∧ isPublishConfirmation stale m = true ∧
        t.listening i = some out ∧
        .client (.sendMessage msg) ∈ (out.onPublishReady t.actualAudioSampleRate).2 := by
  cases h with
  | video hout hpublishing _ _ _ =>
      refine .inl ⟨⟨_, hout, hpublishing⟩, fun e he => ?_⟩
      cases he with
      | video _ _ hcoded _ _ => exact ⟨.video, _, hcoded, rfl⟩
  | audio hout hpublishing _ _ _ =>
      refine .inl ⟨⟨_, hout, hpublishing⟩, fun e he => ?_⟩
      cases he with
      | audio _ _ hraw _ _ => exact ⟨.audio, _, hraw, rfl⟩
  | started _ hmem => exact absurd hmem Output.not_sendMessage_start
  | stopped _ hmem =>
      rcases List.mem_append.1 hmem with hmem | hmem
      · exact absurd hmem Output.not_sendMessage_destroyClient
      · simp at hmem
  | connected _ hmem => exact absurd hmem Output.not_sendMessage_onConnected
  | @message stale m _ _ out _ hout hmem =>
      cases hconfirm : isPublishConfirmation stale m with
      | true =>
          rw [Output.onMessage_of_isPublishConfirmation hconfirm] at hmem
          exact .inr ⟨stale, m, out, rfl, hconfirm, hout, hmem⟩
      | false =>
          rcases @Output.onMessage_cases out t.actualAudioSampleRate stale m hconfirm with
            heq | heq | heq | ⟨streamId, publishMsg, hpublish, heq⟩
          · rw [heq] at hmem
            cases hmem
          · rw [heq] at hmem
            simp at hmem
          · rw [heq] at hmem
            simp at hmem
          · -- the command that publishes is not media
            rw [heq] at hmem
            simp only [List.mem_cons, OutputEvent.client.injEq, Relay.ClientCall.sendMessage.injEq,
              reduceCtorEq, List.not_mem_nil, or_false] at hmem
            exact absurd (hmem ▸ hpublish) htype
  | disconnected _ hmem => simp [Output.onDisconnected] at hmem

/-! ### Steps -/

variable {t t' : Transcoder} {input : TranscoderInput} {log : List TranscoderEvent} {i : ℕ}
  {track : Track}

/-- **A header is sent exactly if a confirmation finds the encoder ready.** -/
theorem confirms_iff (h : Transcoder.machine t input log t') :
    Moment.Emits (Sends i track.Header) ⟨t, input, log⟩ ↔ Confirms i track.Ready ⟨t, input, log⟩ := by
  constructor
  · rintro ⟨e, he, msg, hheader, rfl⟩
    have htype : msg.typeId ≠ MessageType.commandAMF0.code := hheader.typeId ▸ track.code_ne_command
    have hcaused := Transcoder.caused_of_step h he
    rcases hcaused.of_sendMessage htype with
      ⟨-, hframe⟩ | ⟨stale, m, out, hinput, hconfirm, hout, hmem⟩
    · obtain ⟨track', msg', hcoded, heq⟩ := hframe _ hcaused
      cases heq
      exact absurd hheader hcoded.not_header
    · rcases Output.mem_onPublishReady hmem with heq | heq | ⟨track', hready, msg', hheader', heq⟩
      · cases heq
      · cases heq
      · cases heq
        obtain rfl := Track.code_injective (hheader.typeId.symm.trans hheader'.typeId)
        exact ⟨stale, m, out, hinput, hconfirm, hout, hready⟩
  · rintro ⟨stale, m, out, hinput, hconfirm, hout, hready⟩
    obtain rfl : input = .message i stale m := hinput
    obtain ⟨msg, hmem, hheader⟩ := Output.exists_header hready t.actualAudioSampleRate
    rw [← Output.onMessage_of_isPublishConfirmation hconfirm] at hmem
    have hlog : (t.onMessage i stale m).2 = log := congrArg Prod.snd (Except.ok.inj h)
    refine ⟨_, ?_, msg, hheader, rfl⟩
    rw [← hlog]
    exact Transcoder.mem_onMessage.2 ⟨rfl, out, hout, hmem⟩

theorem not_endsPeriod_of_header (h : Transcoder.machine t input log t')
    (hheader : Moment.Emits (Sends i track.Header) ⟨t, input, log⟩) :
    ∀ e ∈ log, ¬ EndsPeriod i e := by
  obtain ⟨stale, m, out, hinput, hconfirm, -⟩ := (confirms_iff h).1 hheader
  obtain rfl : input = .message i stale m := hinput
  rintro e he ⟨event, hends, rfl⟩
  cases Transcoder.caused_of_step h he with
  | message _ hmem =>
      rw [Output.onMessage_of_isPublishConfirmation hconfirm] at hmem
      rcases Output.mem_onPublishReady hmem with rfl | rfl | ⟨-, -, msg, -, rfl⟩
      · exact hends
      · exact hends
      · exact hends

theorem quiet_of_coded (h : Transcoder.machine t input log t')
    (hcoded : Moment.Emits (Sends i track.Coded) ⟨t, input, log⟩) :
    ∀ e ∈ log, ¬ Sends i track.Header e ∧ ¬ EndsPeriod i e := by
  obtain ⟨e₀, he₀, msg, hmsg, rfl⟩ := hcoded
  have htype : msg.typeId ≠ MessageType.commandAMF0.code := hmsg.typeId ▸ track.code_ne_command
  rcases (Transcoder.caused_of_step h he₀).of_sendMessage htype with
    ⟨-, hframe⟩ | ⟨stale, m, out, -, -, -, hmem⟩
  · intro e he
    constructor
    · rintro ⟨msg', hheader, rfl⟩
      obtain ⟨track', msg'', hcoded', heq⟩ := hframe _ (Transcoder.caused_of_step h he)
      cases heq
      exact hcoded'.not_header hheader
    · rintro ⟨event, hends, rfl⟩
      obtain ⟨track', msg'', -, rfl⟩ := hframe _ (Transcoder.caused_of_step h he)
      exact hends
  · -- what is sent for a confirmation is not coded
    rcases Output.mem_onPublishReady hmem with heq | heq | ⟨track', -, msg', hheader, heq⟩
    · cases heq
    · cases heq
    · cases heq
      exact absurd hheader hmsg.not_header

/-- **Headers come first exactly in the runs that are prepared.** -/
theorem headers_first_iff {trace : List (Moment Transcoder TranscoderInput TranscoderEvent)}
    (hrun : Run Transcoder.machine {} trace t) :
    HeadersFirst (Machine.outputs trace) ↔ Prepared trace := by
  refine forall_congr' fun i => forall_congr' fun track => ?_
  rw [Machine.guarded_outputs, Machine.guarded_congr]
  · intro m hm
    obtain ⟨t', hstep⟩ := hrun.step_of_mem hm
    exact confirms_iff hstep
  · intro m hm hheader
    obtain ⟨t', hstep⟩ := hrun.step_of_mem hm
    exact not_endsPeriod_of_header hstep hheader
  · intro m hm hcoded
    obtain ⟨t', hstep⟩ := hrun.step_of_mem hm
    exact quiet_of_coded hstep hcoded

/-- **The first output that is confirmed gets no header**: nothing has been set up yet. -/
theorem headers_missing {trace : List (Moment Transcoder TranscoderInput TranscoderEvent)}
    {m : Moment Transcoder TranscoderInput TranscoderEvent}
    (hrun : Run Transcoder.machine {} trace t) (hm : m ∈ trace)
    (hstarted : m.state.publishingStarted = false) (i : ℕ) (track : Track) :
    ¬ m.Emits (Sends i track.Header) := by
  intro hheader
  obtain ⟨before, after, rfl⟩ := List.append_of_mem hm
  obtain ⟨hbefore, t', hstep, -⟩ := hrun.split
  obtain ⟨stale, msg, out, -, -, hout, hready⟩ := (confirms_iff hstep).1 hheader
  have hmem : out ∈ m.state.outputs := by
    rw [Transcoder.listening, Option.filter_eq_some_iff] at hout
    exact List.mem_of_getElem? hout.1
  obtain ⟨hvideo, haudio⟩ := (Transcoder.waits_of_run hbefore hstarted).2.2 out hmem
  cases track with
  | video => exact absurd (hvideo.symm.trans hready.1) (by simp)
  | audio => exact absurd (haudio.symm.trans hready.1) (by simp)

/-! ### Two runs -/

def naluType (nal : List UInt8) : Option UInt8 :=
  ((nal.drop (getStartcodeLength nal)).head?).map fun first => first &&& 0x1F

/-- OpenH264 gives the parameter sets with an IDR picture. -/
def VideoCodecs.Regular (codecs : VideoCodecs) : Prop :=
  ∀ frame info, codecs.encodeFrame frame = .ok info → info.frameType = .idr →
    (∃ nal ∈ info.layers.flatten, naluType nal = some 7) ∧
      ∃ nal ∈ info.layers.flatten, naluType nal = some 8

/-- FDK-AAC has a configuration once it is set up. -/
def AudioCodecs.Regular (codecs : AudioCodecs) : Prop :=
  ∀ sampleRate channels bitrate conf, codecs.setup sampleRate channels bitrate = .done conf → conf ≠ []

/-- The codecs do what they should. -/
def TranscoderInput.Regular : TranscoderInput → Prop
  | .onVideoData _ _ _ o => ∀ i, (o.codecs i).Regular
  | .onAudioData _ _ o => ∀ i, (o.codecs i).Regular
  | _ => True

/-- A command from upstream. -/
def upstream (cmd : CommandMessage) : Message :=
  ⟨MessageType.commandAMF0.code, 0, 0, cmd.encode⟩

/-- A publisher has come, and the client of the output `0` calls back until it is confirmed. -/
def confirming : List TranscoderInput :=
  [.start fun _ => ⟨fun _ => .ok [127, 0, 0, 1], true⟩, .onSourceMetadata 0 0 30 44100 2 true,
    .connected 0,
    .message 0 0 (upstream ⟨ascii "_result", 0x3FF0000000000000, []⟩),
    .message 0 0 (upstream ⟨ascii "_result", 0x4000000000000000, [.null, .number 0x3FF0000000000000]⟩),
    .message 0 0 (upstream ⟨ascii "onStatus", 0, [.null, .object (ObjectType.empty.set (ascii "code")
      (.string (ascii "NetStream.Publish.Start")))]⟩)]

/-- What this does, if nothing is ready. -/
def confirmed : List TranscoderEvent :=
  [.output 0 (.client .create), .output 0 (.client (.connect [127, 0, 0, 1] 1935)),
    .output 0 (.client (.sendCommand (connectCmd (ascii "live") (ascii "rtmp://h/live")))),
    .output 0 (.client .flush), .output 0 (.client (.sendCommand createStreamCmd)),
    .output 0 (.client .flush),
    .output 0 (.client (.sendMessage
      ⟨MessageType.commandAMF0.code, 0, 1, (publishCmd (ascii "s")).encode⟩)),
    .output 0 (.client .flush), .output 0 .confirmed]

/-- An encoder that codes every picture as an IDR picture. -/
def idrCodecs : VideoCodecs where
  created _ := true
  i420Scale _ dst := .ok dst
  encodeFrame _ := .ok ⟨.idr, [[[0, 0, 0, 1, 0x67, 0x42, 0, 0x1E], [0, 0, 0, 1, 0x68, 1],
    [0, 0, 0, 1, 0x65, 1]]]⟩

theorem regular_idrCodecs : idrCodecs.Regular := by
  intro frame info hinfo _
  cases hinfo
  exact ⟨⟨[0, 0, 0, 1, 0x67, 0x42, 0, 0x1E], by simp, by decide⟩, [0, 0, 0, 1, 0x68, 1], by simp,
    by decide⟩

/-- A picture comes in. -/
def pictureInput (timestamp : UInt32) : TranscoderInput :=
  .onVideoData [0x17, 1, 0, 0, 0, 0, 0, 0, 1, 0x65] timestamp true
    ⟨fun _ => .ok (some ⟨2, 2, 2, 1, videoFormatI420, [0, 0, 0, 0], [0], [0]⟩), fun _ => idrCodecs⟩

/-- What is pushed for it. -/
def picturePushed (timestamp : UInt32) : TranscoderEvent :=
  .output 0 (.client (.sendMessage ⟨MessageType.video.code, timestamp, 1, buildFlvVideoPacket
    ⟨[0, 0, 0, 4, 0x67, 0x42, 0, 0x1E, 0, 0, 0, 2, 0x68, 1, 0, 0, 0, 2, 0x65, 1], 0, 0, true⟩⟩))

/-- A transcoder is given an output. -/
def outputAdded : TranscoderInput := .addOutput ⟨2, 2, 1, 1, ascii "rtmp://h/live/s"⟩

def TranscoderEvent.isCommand : TranscoderEvent → Bool
  | .output _ (.client (.sendMessage msg)) => msg.typeId == MessageType.commandAMF0.code
  | _ => true

theorem not_sends_of_isCommand {e : TranscoderEvent} (h : e.isCommand = true) :
    ¬ Sends i track.Coded e ∧ ¬ Sends i track.Header e := by
  constructor
  · rintro ⟨msg, hcoded, rfl⟩
    exact track.code_ne_command (hcoded.typeId.symm.trans (beq_iff_eq.1 h))
  · rintro ⟨msg, hheader, rfl⟩
    exact track.code_ne_command (hheader.typeId.symm.trans (beq_iff_eq.1 h))

theorem regular_confirming : ∀ input ∈ confirming, input.Regular := by
  intro input hinput
  simp only [confirming, List.mem_cons, List.not_mem_nil, or_false] at hinput
  rcases hinput with rfl | rfl | rfl | rfl | rfl | rfl <;> exact trivial

/-- A picture comes in when the output has been confirmed. -/
theorem replay_bare : ∃ t trace, Machine.replay Transcoder.perform {}
    (outputAdded :: confirming ++ [pictureInput 1000]) = .ok (t, trace) ∧
      Machine.inputs trace = outputAdded :: confirming ++ [pictureInput 1000] ∧
      Machine.outputs trace =
        (confirmed ++ [.videoDecoder [0, 0, 0, 1, 0x65]]) ++ [picturePushed 0] :=
  ⟨_, _, rfl, rfl, rfl⟩

/-- **Headers do not come first**: a publisher comes, an output is confirmed, and it is sent coded video
that no header has come before. -/
theorem headers_not_first : ¬ ∀ (trace : List (Moment Transcoder TranscoderInput TranscoderEvent))
    (t : Transcoder), Run Transcoder.machine {} trace t →
      (∀ input ∈ Machine.inputs trace, input.Regular) → HeadersFirst (Machine.outputs trace) := by
  intro hall
  obtain ⟨t, trace, hreplay, hinputs, hout⟩ := replay_bare
  have hregular : ∀ input ∈ Machine.inputs trace, input.Regular := by
    intro input hinput
    rw [hinputs] at hinput
    rcases List.mem_append.1 hinput with hinput | hinput
    · rcases List.mem_cons.1 hinput with rfl | hinput
      · exact trivial
      · exact regular_confirming input hinput
    · rw [List.mem_singleton.1 hinput]
      exact fun _ => regular_idrCodecs
  have hfirst := hall trace t (Machine.run_of_replay hreplay) hregular 0 .video
  rw [hout, Machine.guarded_snoc] at hfirst
  obtain ⟨before, e, after, hlog, hheader, -⟩ := hfirst.2 ⟨_, ⟨rfl, _, rfl⟩, rfl⟩
  have hcommands : (confirmed ++ [TranscoderEvent.videoDecoder [0, 0, 0, 1, 0x65]]).all
      TranscoderEvent.isCommand = true := by
    rfl
  have hmem : e ∈ confirmed ++ [TranscoderEvent.videoDecoder [0, 0, 0, 1, 0x65]] := by
    rw [hlog]
    exact List.mem_append_right _ List.mem_cons_self
  have hcommand : e.isCommand = true := List.all_eq_true.1 hcommands e hmem
  exact (@not_sends_of_isCommand 0 .video e hcommand).2 hheader

/-- The header that is sent once the encoder has coded a picture. -/
def headerMessage : Message :=
  ⟨MessageType.video.code, 0, 1, buildAvcDecoderConfig [0x67, 0x42, 0, 0x1E] [0x68, 1]⟩

theorem header_headerMessage : Track.video.Header headerMessage := ⟨rfl, _, _, rfl⟩

def headerSent : TranscoderEvent := .output 0 (.client (.sendMessage headerMessage))

/-- What happens behind it. -/
def afterHeader : List TranscoderEvent :=
  [.output 0 (.client .flush), .videoDecoder [0, 0, 0, 1, 0x65]]

/-- What happens before the connection ends, and when there is a new one. -/
def reconnected : List TranscoderEvent :=
  confirmed ++ [.output 0 .disconnected, .videoDecoder [0, 0, 0, 1, 0x65]] ++ confirmed

/-- The connection ends before the first picture comes in, and there is a header for the next one. -/
theorem replay_prepared : ∃ t trace, Machine.replay Transcoder.perform {}
    (outputAdded :: confirming ++ [.disconnected 0, pictureInput 1000] ++ confirming ++
      [pictureInput 2000]) = .ok (t, trace) ∧
      Machine.outputs trace = (reconnected ++ headerSent :: afterHeader) ++ [picturePushed 1000] :=
  ⟨_, _, rfl, rfl⟩

/-- A run that is prepared: the output is confirmed again after its encoder has been set up. -/
theorem headers_first_iff_reconnected :
    ∃ trace t, Run Transcoder.machine {} trace t ∧ picturePushed 1000 ∈ Machine.outputs trace ∧
      HeadersFirst (Machine.outputs trace) ∧ Prepared trace := by
  obtain ⟨t, trace, hreplay, hout⟩ := replay_prepared
  have hrun : Run Transcoder.machine {} trace t := Machine.run_of_replay hreplay
  have hfirst : HeadersFirst (Machine.outputs trace) := by
    intro i track
    have hcommands : (reconnected ++ afterHeader).all TranscoderEvent.isCommand = true := by
      rfl
    have hquiet : ∀ e ∈ reconnected ++ headerSent :: afterHeader, ¬ Sends i track.Coded e := by
      intro e he
      by_cases hsent : e = headerSent
      · rintro ⟨msg, hcoded, heq⟩
        cases hsent.symm.trans heq
        exact hcoded.not_header header_headerMessage
      · refine (not_sends_of_isCommand (List.all_eq_true.1 hcommands e ?_)).1
        rcases List.mem_append.1 he with he | he
        · exact List.mem_append_left _ he
        · exact List.mem_append_right _ ((List.mem_cons.1 he).resolve_left hsent)
    rw [hout, Machine.guarded_snoc]
    constructor
    · exact Machine.guarded_nil.append_of_not_uses hquiet
    · rintro ⟨msg, hcoded, heq⟩
      cases heq
      obtain rfl := @Track.code_injective .video track hcoded.typeId
      refine ⟨reconnected, headerSent, afterHeader, rfl, ⟨_, header_headerMessage, rfl⟩, ?_⟩
      rintro e he ⟨event, hends, rfl⟩
      simp only [afterHeader, List.mem_cons, TranscoderEvent.output.injEq, reduceCtorEq, List.not_mem_nil,
        or_false, true_and] at he
      rw [he] at hends
      exact hends
  exact ⟨trace, t, hrun, by simp [hout], hfirst, (headers_first_iff hrun).1 hfirst⟩

end Transcode
