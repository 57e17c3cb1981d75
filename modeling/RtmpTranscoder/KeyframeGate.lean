/-
**Waiting for a keyframe.**

When publishing has started, pictures are to be dropped until a keyframe comes in, so that playback
starts cleanly.  What the transcoder asks is not the message, whose first byte says whether it is a
keyframe, but the picture that the decoder has made of it, and the wrapper of the decoder calls every
picture a keyframe that has the format I420.  All of them have.  So the gate opens at the first picture
that is decoded, whatever message it is made from, and the output starts on a keyframe exactly if that
message happens to be one.

Main definitions:

* `Transcode.TranscoderInput.IsKeyframe` — the frame type of a message is that of a keyframe;
* `Transcode.TranscoderInput.ReportsI420` — OpenH264 reports every picture in the format I420;
* `Transcode.StartsOnKeyframe` — the base is set by keyframes only, and nothing is pushed before;
* `Transcode.Awaits` — an output has been confirmed, and no picture has been decoded after.

Main results:

* `Transcode.awaits_iff` — the transcoder waits for its base exactly then;
* `Transcode.starts_on_keyframe_iff` — **the output starts on a keyframe exactly if the first picture that
  is decoded after a confirmation comes from one**;
* `Transcode.not_starts_on_keyframe` — it need not.
-/

import RtmpTranscoder.Synchrony

set_option relaxedAutoImplicit false
set_option autoImplicit false

namespace Transcode

open Machine (Moment Run Obeys)
open Rtmp (Message)

/-- The frame type of a video message is that of a keyframe. -/
def TranscoderInput.IsKeyframe : TranscoderInput → Prop
  | .onVideoData (first :: _) _ _ _ => first &&& 0xF0 = 0x10
  | _ => False

/-- OpenH264 reports every picture in the format I420. -/
def TranscoderInput.ReportsI420 : TranscoderInput → Prop
  | .onVideoData _ _ _ o =>
      ∀ nal picture, o.decodeFrame nal = .ok (some picture) → picture.format = videoFormatI420
  | _ => True

def DecodesPicture (m : Moment Transcoder TranscoderInput TranscoderEvent) : Prop :=
  ∃ data timestamp keyframe o annexB frame, m.input = .onVideoData data timestamp keyframe o ∧
    demuxVideo m.state.naluLengthSize data = .ok (.nalus annexB) ∧
    m.state.videoDecoder.decode o.decodeFrame annexB timestamp = some [frame]

/-- The upstream of an output confirms that it is published. -/
def PublishConfirmed (m : Moment Transcoder TranscoderInput TranscoderEvent) : Prop :=
  ∃ i, Confirms i (fun _ => True) m

/-- The base of the video is set by messages only that are keyframes, and nothing is pushed for a
message that comes in before the one which sets it. -/
def StartsOnKeyframe (trace : List (Moment Transcoder TranscoderInput TranscoderEvent)) : Prop :=
  (∀ m ∈ trace, ∀ t', Transcoder.machine m.state m.input m.outputs t' →
    t'.base .video ≠ m.state.base .video → m.input.IsKeyframe) ∧
  ∀ before m after i timestamp msg, trace = before ++ m :: after → Pushes .video m i timestamp msg →
    ∃ m' ∈ before ++ [m], ∃ b, Transcoder.FixesBase .video m' b

/-- If a message is decoded to a picture, no output has been confirmed before. -/
def PictureUnconfirmed (before : List (Moment Transcoder TranscoderInput TranscoderEvent))
    (m : Moment Transcoder TranscoderInput TranscoderEvent) : Prop :=
  DecodesPicture m → ¬ ∃ c ∈ before, PublishConfirmed c

/-- An output has been confirmed, and no message has been decoded to a picture after. -/
def Awaits (before : List (Moment Transcoder TranscoderInput TranscoderEvent)) : Prop :=
  (∃ c ∈ before, PublishConfirmed c) ∧ Obeys PictureUnconfirmed before

/-! ### The wrapper of the decoder -/

/-- **Every picture is called a keyframe.** -/
theorem H264Decoder.keyframe_of_decode {d : H264Decoder}
    {decodeFrame : List UInt8 → Except ℤ (Option Picture)} {data : List UInt8} {timestamp : UInt32}
    {frame : VideoFrame} (h : d.decode decodeFrame data timestamp = some [frame])
    (hformat : ∀ nal picture, decodeFrame nal = .ok (some picture) → picture.format = videoFormatI420) :
    frame.keyframe = true := by
  unfold decode at h
  split at h
  · cases h
  · split at h
    · cases h
    · cases h
    · rename_i picture hpicture
      rw [← List.singleton_injective (Option.some.inj h)]
      exact beq_iff_eq.2 (hformat _ _ hpicture)

/-! ### What a step does to the gate -/

namespace Transcoder

variable {t t' : Transcoder} {input : TranscoderInput} {log : List TranscoderEvent}

theorem publishingStarted_callback (i : ℕ) (f : Output → Output × List OutputEvent) :
    (t.callback i f).1.publishingStarted = t.publishingStarted := by
  unfold callback
  split <;> rfl

theorem publishingStarted_startPublishing (t : Transcoder) :
    t.startPublishing.publishingStarted = true := by
  unfold startPublishing
  split
  · assumption
  · rfl

/-- **Publishing starts with a confirmation, and does not end.** -/
theorem publishingStarted_step (hstep : machine t input log t') :
    t'.publishingStarted = true ↔ t.publishingStarted = true ∨ PublishConfirmed ⟨t, input, log⟩ := by
  have hsame (heq : t'.publishingStarted = t.publishingStarted)
      (hinput : ∀ i stale msg, input ≠ .message i stale msg) :
      t'.publishingStarted = true ↔ t.publishingStarted = true ∨ PublishConfirmed ⟨t, input, log⟩ := by
    rw [heq, or_iff_left]
    rintro ⟨i, stale, msg, out, hmessage, -⟩
    exact hinput i stale msg hmessage
  cases input with
  | addOutput config =>
      obtain ⟨rfl, rfl⟩ := Prod.mk.inj (Except.ok.inj hstep)
      exact hsame rfl (by simp)
  | start o =>
      obtain ⟨rfl, rfl⟩ := Prod.mk.inj (Except.ok.inj hstep)
      exact hsame rfl (by simp)
  | stop =>
      obtain ⟨rfl, rfl⟩ := Prod.mk.inj (Except.ok.inj hstep)
      exact hsame rfl (by simp)
  | onSourceMetadata width height fps sampleRate channels created =>
      obtain ⟨rfl, rfl⟩ := Prod.mk.inj (Except.ok.inj hstep)
      exact hsame rfl (by simp)
  | onVideoData data timestamp keyframe o =>
      refine hsame ?_ (by simp)
      have hok : t.onVideoData data timestamp keyframe o = .ok (t', log) := hstep
      rcases onVideoData_cases hok with ⟨size, rfl, -⟩ | ⟨annexB, frame, fed, -, -, -, -, rfl, -⟩
      · rfl
      · obtain ⟨outputs, heq⟩ := processVideoFrame_fst t o.codecs frame
        rw [heq]
        exact gateVideo_publishingStarted frame
  | onAudioData data timestamp o =>
      refine hsame ?_ (by simp)
      have hpair : t.onAudioData data timestamp o = (t', log) := Except.ok.inj hstep
      rcases onAudioData_cases hpair with
        ⟨decoder, initialized, rfl, -⟩ | ⟨aac, frame, fed, -, -, -, -, rfl, -⟩
      · rfl
      · obtain ⟨outputs, heq⟩ := processAudioFrame_fst t o.codecs frame
        rw [heq]
        exact gateAudio_publishingStarted frame
  | connected i =>
      obtain ⟨rfl, rfl⟩ := Prod.mk.inj (Except.ok.inj hstep)
      exact hsame (publishingStarted_callback i _) (by simp)
  | message i stale msg =>
      have hfst : (t.onMessage i stale msg).1 = t' := congrArg Prod.fst (Except.ok.inj hstep)
      rw [← hfst, onMessage, publishingStarted_callback]
      split
      · rename_i hconfirm
        obtain ⟨out, hout⟩ := Option.isSome_iff_exists.1 hconfirm.1
        refine iff_of_true (publishingStarted_startPublishing t) (.inr ?_)
        exact ⟨i, stale, msg, out, rfl, hconfirm.2, hout, trivial⟩
      · rename_i hconfirm
        rw [or_iff_left]
        rintro ⟨j, stale', msg', out, hmessage, hpublish, hout, -⟩
        cases hmessage
        exact hconfirm ⟨by rw [hout]; rfl, hpublish⟩
  | disconnected i =>
      obtain ⟨rfl, rfl⟩ := Prod.mk.inj (Except.ok.inj hstep)
      exact hsame (publishingStarted_callback i _) (by simp)

/-- A picture that is decoded while there is no base sets it, if publishing has started. -/
theorem setsBase_of_decodesPicture {m : Moment Transcoder TranscoderInput TranscoderEvent}
    (hdecodes : DecodesPicture m) (hformat : m.input.ReportsI420)
    (hstarted : m.state.publishingStarted = true) (hnone : m.state.base .video = none) :
    ∃ b, SetsBase .video m b := by
  obtain ⟨state, input, log⟩ := m
  obtain ⟨data, timestamp, keyframe, o, annexB, frame, hinput, hdemux, hdecode⟩ := hdecodes
  obtain rfl : input = .onVideoData data timestamp keyframe o := hinput
  exact ⟨timestamp,
    .video hstarted hnone hdemux hdecode (H264Decoder.keyframe_of_decode hdecode hformat)⟩

/-- **There is no base after a step exactly if there was none, and the step has decoded no picture since
publishing has started.** -/
theorem base_none_step (hwaits : t.Waits) (hstep : machine t input log t')
    (hformat : input.ReportsI420) :
    t'.base .video = none ↔ t.base .video = none ∧
      ¬ (DecodesPicture ⟨t, input, log⟩ ∧ t.publishingStarted = true) := by
  constructor
  · intro hafter
    have hbefore : t.base .video = none := by
      rcases base_step hwaits hstep .video with hsame | ⟨hnone, -⟩
      · exact hsame.symm.trans hafter
      · exact hnone
    refine ⟨hbefore, ?_⟩
    rintro ⟨hdecodes, hstarted⟩
    obtain ⟨b, hsets⟩ := setsBase_of_decodesPicture hdecodes hformat hstarted hbefore
    exact absurd (hafter.symm.trans (base_of_setsBase hsets hstep)) (by simp)
  · rintro ⟨hbefore, hquiet⟩
    rcases base_step hwaits hstep .video with hsame | ⟨-, b, -, hsets⟩
    · exact hsame.trans hbefore
    · cases hsets with
      | video hstarted _ hdemux hdecode _ =>
          exact absurd ⟨⟨_, _, _, _, _, _, rfl, hdemux, hdecode⟩, hstarted⟩ hquiet

end Transcoder

/-! ### Runs -/

variable {t : Transcoder} {trace : List (Moment Transcoder TranscoderInput TranscoderEvent)}

/-- What the two flags say of what has happened: an output has been confirmed, and no picture has been
decoded after. -/
theorem gate_of_run (hrun : Run Transcoder.machine {} trace t)
    (hformat : ∀ input ∈ Machine.inputs trace, input.ReportsI420) :
    (t.publishingStarted = true ↔ ∃ c ∈ trace, PublishConfirmed c) ∧
      (t.base .video = none ↔ Obeys PictureUnconfirmed trace) := by
  induction hrun with
  | nil => exact ⟨by simp, iff_of_true rfl Machine.obeys_nil⟩
  | @snoc trace t t' input log hrun hstep ih =>
      rw [Machine.inputs, List.map_append] at hformat
      obtain ⟨hstarted, hnone⟩ := ih fun input hinput => hformat input (List.mem_append_left _ hinput)
      have hformats : input.ReportsI420 := hformat input (List.mem_append_right _ (by simp))
      have hwaits := Transcoder.waits_of_run hrun
      constructor
      · rw [Transcoder.publishingStarted_step hstep, hstarted]
        constructor
        · rintro (⟨c, hc, hconfirmed⟩ | hconfirmed)
          · exact ⟨c, List.mem_append_left _ hc, hconfirmed⟩
          · exact ⟨_, List.mem_append_right _ List.mem_cons_self, hconfirmed⟩
        · rintro ⟨c, hc, hconfirmed⟩
          rcases List.mem_append.1 hc with hc | hc
          · exact .inl ⟨c, hc, hconfirmed⟩
          · rw [List.mem_singleton.1 hc] at hconfirmed
            exact .inr hconfirmed
      · rw [Transcoder.base_none_step hwaits hstep hformats, hnone]
        constructor
        · rintro ⟨hobeys, hquiet⟩
          exact hobeys.snoc fun hdecodes hconfirmed => hquiet ⟨hdecodes, hstarted.2 hconfirmed⟩
        · intro hobeys
          obtain ⟨hbefore, hlast⟩ := hobeys.of_snoc
          exact ⟨hbefore, fun hquiet => hlast hquiet.1 (hstarted.1 hquiet.2)⟩

/-- **The transcoder waits for its base exactly if an output has been confirmed, and no picture has been
decoded after.** -/
theorem awaits_iff (hrun : Run Transcoder.machine {} trace t)
    (hformat : ∀ input ∈ Machine.inputs trace, input.ReportsI420) :
    Awaits trace ↔ t.publishingStarted = true ∧ t.base .video = none := by
  obtain ⟨hstarted, hnone⟩ := gate_of_run hrun hformat
  rw [hstarted, hnone]
  rfl

/-- **The output starts on a keyframe exactly if the first picture that is decoded after a confirmation
comes from one.** -/
theorem starts_on_keyframe_iff (hrun : Run Transcoder.machine {} trace t)
    (hformat : ∀ input ∈ Machine.inputs trace, input.ReportsI420) :
    StartsOnKeyframe trace ↔ ∀ before m after, trace = before ++ m :: after → Awaits before →
      DecodesPicture m → m.input.IsKeyframe := by
  have hinput {m : Moment Transcoder TranscoderInput TranscoderEvent} (hm : m ∈ trace) :
      m.input.ReportsI420 := hformat _ (List.mem_map_of_mem hm)
  have hpre {before after : List (Moment Transcoder TranscoderInput TranscoderEvent)}
      (htrace : trace = before ++ after) : ∀ input ∈ Machine.inputs before, input.ReportsI420 := by
    intro input hmem
    refine hformat input ?_
    rw [htrace, Machine.inputs, List.map_append]
    exact List.mem_append_left _ hmem
  constructor
  · rintro ⟨hkeyframes, -⟩ before m after rfl hawaits hdecodes
    obtain ⟨hbefore, t', hstep, -⟩ := hrun.split
    obtain ⟨hstarted, hnone⟩ := (awaits_iff hbefore (hpre rfl)).1 hawaits
    obtain ⟨b, hsets⟩ :=
      Transcoder.setsBase_of_decodesPicture hdecodes (hinput (by simp)) hstarted hnone
    refine hkeyframes m (by simp) t' hstep ?_
    rw [Transcoder.base_of_setsBase hsets hstep, hnone]
    exact Option.some_ne_none b
  · intro hfirst
    constructor
    · intro m hm t' hstep hchanges
      obtain ⟨before, after, rfl⟩ := List.append_of_mem hm
      obtain ⟨hbefore, -⟩ := hrun.split
      rcases Transcoder.base_step (Transcoder.waits_of_run hbefore) hstep .video with
        hsame | ⟨hnone, b, -, hsets⟩
      · exact absurd hsame hchanges
      · obtain ⟨state, input, log⟩ := m
        cases hsets with
        | video hstarted _ hdemux hdecode _ =>
            refine hfirst before _ after rfl ((awaits_iff hbefore (hpre rfl)).2 ⟨hstarted, hnone⟩) ?_
            exact ⟨_, _, _, _, _, _, rfl, hdemux, hdecode⟩
    · rintro before m after i timestamp msg rfl hpush
      obtain ⟨hbefore, t', hstep, -⟩ := hrun.split
      -- what is pushed has been moved by a base, which was not there at first
      obtain ⟨b, hb, -⟩ := hpush.moved hstep
      obtain ⟨m', hm', hfixes, -⟩ :=
        Transcoder.exists_fixesBase (hbefore.snoc hstep) (Transcoder.waits_of_run .nil) rfl hb
      exact ⟨m', hm', b, hfixes⟩

/-! ### In the middle of a group of pictures -/

/-- A frame that is not a keyframe comes in, and OpenH264 makes a picture of it. -/
def interInput (timestamp : UInt32) : TranscoderInput :=
  .onVideoData [0x27, 1, 0, 0, 0, 0, 0, 0, 1, 0x41] timestamp false
    ⟨fun _ => .ok (some ⟨2, 2, 2, 1, videoFormatI420, [0, 0, 0, 0], [0], [0]⟩), fun _ => idrCodecs⟩

/-- It is the first one after the output has been confirmed. -/
theorem replay_inter : ∃ t₁ before t m,
    Machine.replay Transcoder.perform {} (outputAdded :: confirming) = .ok (t₁, before) ∧
    Machine.replay Transcoder.perform t₁ [interInput 1000] = .ok (t, [m]) ∧
    Machine.inputs before = outputAdded :: confirming ∧ m.input = interInput 1000 ∧
    m.state.base .video = none ∧ t.base .video = some 1000 :=
  ⟨_, _, _, _, rfl, rfl, rfl, rfl, rfl, rfl⟩

/-- It is the second one, behind a keyframe. -/
theorem replay_group : ∃ t₁ before t m₁ m₂,
    Machine.replay Transcoder.perform {} (outputAdded :: confirming) = .ok (t₁, before) ∧
    Machine.replay Transcoder.perform t₁ [pictureInput 1000, interInput 1040] = .ok (t, [m₁, m₂]) ∧
    Machine.inputs before = outputAdded :: confirming ∧ m₁.input = pictureInput 1000 ∧
    m₂.input = interInput 1040 ∧ m₂.state.base .video = some 1000 :=
  ⟨_, _, _, _, _, rfl, rfl, rfl, rfl, rfl, rfl⟩

theorem not_picture_of_confirming {input : TranscoderInput} (h : input ∈ outputAdded :: confirming) :
    ∀ data timestamp keyframe o, input ≠ .onVideoData data timestamp keyframe o := by
  simp only [confirming, outputAdded, List.mem_cons, List.not_mem_nil, or_false] at h
  rcases h with rfl | rfl | rfl | rfl | rfl | rfl | rfl <;> exact fun _ _ _ _ h => by cases h

theorem reportsI420_of_confirming {input : TranscoderInput} (h : input ∈ outputAdded :: confirming) :
    input.ReportsI420 := by
  have hnot := not_picture_of_confirming h
  cases input with
  | onVideoData data timestamp keyframe o => exact absurd rfl (hnot data timestamp keyframe o)
  | _ => trivial

theorem reportsI420_picture {data : List UInt8} {timestamp : UInt32} {keyframe : Bool} {picture : Picture}
    {codecs : ℕ → VideoCodecs} (h : picture.format = videoFormatI420) :
    (TranscoderInput.onVideoData data timestamp keyframe
      ⟨fun _ => .ok (some picture), codecs⟩).ReportsI420 := by
  rintro nal answer hanswer
  obtain rfl := Option.some.inj (Except.ok.inj hanswer)
  exact h

theorem run_inter : ∃ trace t, Run Transcoder.machine {} trace t ∧
    (∀ input ∈ Machine.inputs trace, input.ReportsI420) ∧ ¬ StartsOnKeyframe trace := by
  obtain ⟨t₁, before, t, m, hbefore, hlast, hinputs, hinput, hnone, hset⟩ := replay_inter
  have hstart : Run Transcoder.machine {} before t₁ := Machine.run_of_replay hbefore
  have hend : Run Transcoder.machine t₁ [m] t := Machine.run_of_replay hlast
  have hrun : Run Transcoder.machine {} (before ++ [m]) t := hstart.append hend
  refine ⟨before ++ [m], t, hrun, ?_, ?_⟩
  · intro input hmem
    rw [Machine.inputs, List.map_append] at hmem
    rcases List.mem_append.1 hmem with hmem | hmem
    · exact reportsI420_of_confirming (hinputs ▸ hmem)
    · rw [List.mem_singleton.1 hmem, hinput]
      exact reportsI420_picture rfl
  · rintro ⟨hkeyframes, -⟩
    obtain ⟨-, t', hstep, hrest⟩ := hrun.split
    obtain rfl := hrest.eq_of_nil
    have hkeyframe := hkeyframes m (by simp) _ hstep (by rw [hnone, hset]; simp)
    rw [hinput] at hkeyframe
    have hcode : (0x27 : UInt8) &&& 0xF0 = 0x10 := hkeyframe
    exact absurd hcode (by decide)

/-- **The output need not start on a keyframe.** -/
theorem not_starts_on_keyframe :
    ¬ ∀ (trace : List (Moment Transcoder TranscoderInput TranscoderEvent)) (t : Transcoder),
      Run Transcoder.machine {} trace t → (∀ input ∈ Machine.inputs trace, input.ReportsI420) →
        StartsOnKeyframe trace := by
  intro hall
  obtain ⟨trace, t, hrun, hformat, hnot⟩ := run_inter
  exact hnot (hall trace t hrun hformat)

/-- Behind a keyframe, the other frames do no harm; without one, the first picture after the confirmation
does not come from a keyframe. -/
theorem starts_on_keyframe_iff_group :
    (∃ trace t, Run Transcoder.machine {} trace t ∧ Machine.inputs trace =
      outputAdded :: confirming ++ [pictureInput 1000, interInput 1040] ∧ StartsOnKeyframe trace) ∧
    ∃ trace t, Run Transcoder.machine {} trace t ∧ ∃ before m after, trace = before ++ m :: after ∧
      Awaits before ∧ DecodesPicture m ∧ ¬ m.input.IsKeyframe := by
  constructor
  · obtain ⟨t₁, before, t, m₁, m₂, hbefore, hlast, hinputs, hinput₁, hinput₂, hbase⟩ := replay_group
    have hstart : Run Transcoder.machine {} before t₁ := Machine.run_of_replay hbefore
    have hend : Run Transcoder.machine t₁ [m₁, m₂] t := Machine.run_of_replay hlast
    have hrun : Run Transcoder.machine {} (before ++ [m₁, m₂]) t := hstart.append hend
    have htrace : Machine.inputs (before ++ [m₁, m₂]) =
        outputAdded :: confirming ++ [pictureInput 1000, interInput 1040] := by
      rw [Machine.inputs, List.map_append, ← hinputs, ← hinput₁, ← hinput₂]
      rfl
    have hformat : ∀ input ∈ Machine.inputs (before ++ [m₁, m₂]), input.ReportsI420 := by
      intro input hmem
      rw [htrace] at hmem
      rcases List.mem_append.1 hmem with hmem | hmem
      · exact reportsI420_of_confirming hmem
      · rcases List.mem_pair.1 hmem with rfl | rfl
        · exact reportsI420_picture rfl
        · exact reportsI420_picture rfl
    refine ⟨_, t, hrun, htrace, (starts_on_keyframe_iff hrun hformat).2 ?_⟩
    intro before' m after heq hawaits hdecodes
    have hmem : m ∈ before ++ [m₁, m₂] := by
      rw [heq]
      exact List.mem_append_right _ List.mem_cons_self
    rcases List.mem_append.1 hmem with hmem | hmem
    · obtain ⟨data, timestamp, keyframe, o, -, -, hinput, -⟩ := hdecodes
      have hconfirming : m.input ∈ outputAdded :: confirming := hinputs ▸ List.mem_map_of_mem hmem
      exact absurd hinput (not_picture_of_confirming hconfirming _ _ _ _)
    · rcases List.mem_pair.1 hmem with rfl | rfl
      · rw [hinput₁]
        rfl
      · -- the base has been set when the second one comes
        rw [heq] at hrun hformat
        have hnone := ((awaits_iff hrun.split.1 fun input hmem => hformat input (by
          rw [Machine.inputs, List.map_append]
          exact List.mem_append_left _ hmem)).1 hawaits).2
        rw [hbase] at hnone
        cases hnone
  · obtain ⟨trace, t, hrun, hformat, hnot⟩ := run_inter
    rw [starts_on_keyframe_iff hrun hformat] at hnot
    push Not at hnot
    exact ⟨trace, t, hrun, hnot⟩

end Transcode
