/-
**Synchrony.**

Timestamps are passed through, less a base: one base for video, which is set by the first keyframe that
is decoded after publishing has started, and one for audio, which is set by the first sound.  Once they
are set they stay for good, so all that is ever pushed is moved by the same two amounts.  Pictures and
sound that are pushed are as far apart as they were, less how far apart the bases are.

Main definitions:

* `Transcode.Transcoder.base` — the base of a track;
* `Transcode.SetsBase` — a step sets the base of a track;
* `Transcode.Pushes` — something coded is pushed for what has come in.

Main results:

* `Transcode.Transcoder.base_step` — what a step does to the bases;
* `Transcode.based_of_run` — **the bases are set once, and all that is pushed is moved by them**;
* `Transcode.synchrony` — **pictures and sound stay as far apart as they were, exactly if their bases
  are the same**;
* `Transcode.not_synchronous` — they need not be.
-/

import RtmpTranscoder.SequenceHeaders

set_option relaxedAutoImplicit false
set_option autoImplicit false

namespace Transcode

open Machine (Moment Run)
open Rtmp (Message)

/-- By how much a time is later than another one. -/
def gap (x y : UInt32) : ℤ := (x.toNat : ℤ) - y.toNat

/-- The base of a track, once it is set. -/
def Transcoder.base (t : Transcoder) : Track → Option UInt32
  | .video => if t.baseVideoTimestampSet then some t.baseVideoTimestamp else none
  | .audio => if t.baseAudioTimestampSet then some t.baseAudioTimestamp else none

/-- The timestamp of what comes in on a track. -/
def TranscoderInput.timestamp? : Track → TranscoderInput → Option UInt32
  | .video, .onVideoData _ timestamp _ _ => some timestamp
  | .audio, .onAudioData _ timestamp _ => some timestamp
  | _, _ => none

/-- What comes in sets the base of a track: publishing has started, there is no base yet, and it is
decoded to a picture that the decoder reports as a keyframe, or to sound. -/
inductive SetsBase : Track → Moment Transcoder TranscoderInput TranscoderEvent → UInt32 → Prop
  | video {t : Transcoder} {data annexB : List UInt8} {timestamp : UInt32} {keyframe : Bool}
      {o : VideoOutcome} {frame : VideoFrame} {log : List TranscoderEvent} :
      t.publishingStarted = true → t.base .video = none →
      demuxVideo t.naluLengthSize data = .ok (.nalus annexB) →
      t.videoDecoder.decode o.decodeFrame annexB timestamp = some [frame] → frame.keyframe = true →
      SetsBase .video ⟨t, .onVideoData data timestamp keyframe o, log⟩ timestamp
  | audio {t : Transcoder} {data aac : List UInt8} {timestamp : UInt32} {o : AudioOutcome}
      {frame : AudioFrame} {log : List TranscoderEvent} :
      t.publishingStarted = true → t.base .audio = none → demuxAudio data = .raw aac →
      t.audioDecoder.decode o.decodeFrame aac timestamp = some [frame] →
      SetsBase .audio ⟨t, .onAudioData data timestamp o, log⟩ timestamp

/-- What comes in on a track with a timestamp lets a message be pushed to the output `i`. -/
def Pushes (track : Track) (m : Moment Transcoder TranscoderInput TranscoderEvent) (i : ℕ)
    (timestamp : UInt32) (msg : Message) : Prop :=
  m.input.timestamp? track = some timestamp ∧ track.Coded msg ∧
    .output i (.client (.sendMessage msg)) ∈ m.outputs

/-- Two steps lie in one publishing period of the output `i`. -/
def SamePeriod (i : ℕ) (trace : List (Moment Transcoder TranscoderInput TranscoderEvent))
    (m₁ m₂ : Moment Transcoder TranscoderInput TranscoderEvent) : Prop :=
  ∃ before during after, trace = before ++ during ++ after ∧ m₁ ∈ during ∧ m₂ ∈ during ∧
    ∀ m ∈ during, ¬ m.Emits (EndsPeriod i)

/-! ### Times -/

theorem gap_outputTimestamp {base timestamp : UInt32} (h : base ≤ timestamp) :
    ((outputTimestamp base timestamp).toNat : ℤ) = gap timestamp base := by
  rw [outputTimestamp, if_pos h, UInt32.toNat_sub_of_le _ _ h, gap]
  have hle : base.toNat ≤ timestamp.toNat := UInt32.le_iff_toNat_le.1 h
  omega

theorem gap_eq_zero {x y : UInt32} : gap x y = 0 ↔ x = y := by
  rw [gap, sub_eq_zero, Nat.cast_inj, UInt32.toNat_inj]

/-- **What has been moved is as far apart as it was, less how far apart the bases are.** -/
theorem gap_moved {b c v a : UInt32} (hv : b ≤ v) (ha : c ≤ a) :
    gap (outputTimestamp b v) (outputTimestamp c a) = gap v a - gap b c := by
  have hout : gap (outputTimestamp b v) (outputTimestamp c a) = gap v b - gap a c := by
    rw [← gap_outputTimestamp hv, ← gap_outputTimestamp ha, gap]
  rw [hout, gap, gap, gap, gap]
  ring

/-! ### What sets a base -/

namespace Transcoder

variable {t t' : Transcoder} {log : List TranscoderEvent}

theorem base_gateVideo (t : Transcoder) (frame : VideoFrame) (track : Track) :
    (t.gateVideo frame).1.base track = t.base track ∨
      track = .video ∧ t.publishingStarted = true ∧ t.base .video = none ∧ frame.keyframe = true ∧
        (t.gateVideo frame).1.base .video = some frame.timestamp := by
  unfold gateVideo
  split
  · rename_i hwaits
    split
    · rename_i hkeyframe
      cases track with
      | video => exact .inr ⟨rfl, hwaits.1, by simp [base, hwaits.2], hkeyframe, rfl⟩
      | audio => exact .inl rfl
    · exact .inl rfl
  · exact .inl rfl

theorem base_gateAudio (t : Transcoder) (frame : AudioFrame) (track : Track) :
    (t.gateAudio frame).1.base track = t.base track ∨
      track = .audio ∧ t.publishingStarted = true ∧ t.base .audio = none ∧
        (t.gateAudio frame).1.base .audio = some frame.timestamp := by
  unfold gateAudio
  split
  · rename_i hwaits
    cases track with
    | video => exact .inl rfl
    | audio => exact .inr ⟨rfl, hwaits.1, by simp [base, hwaits.2], rfl⟩
  · exact .inl rfl

theorem base_with_outputs (outputs : List Output) (track : Track) :
    { t with outputs := outputs }.base track = t.base track := by
  cases track <;> rfl

theorem base_callback (i : ℕ) (f : Output → Output × List OutputEvent) (track : Track) :
    (t.callback i f).1.base track = t.base track := by
  unfold callback
  split
  · rfl
  · exact base_with_outputs _ track

theorem Waits.base_startPublishing (h : t.Waits) (track : Track) :
    t.startPublishing.base track = t.base track := by
  unfold startPublishing
  split
  · rfl
  · rename_i hstarted
    obtain ⟨hvideo, haudio, -⟩ := h (by simpa using hstarted)
    cases track with
    | video => simp [base, hvideo]
    | audio => simp [base, haudio]

/-- **What a step does to a base**: nothing, unless it sets it. -/
theorem base_step {input : TranscoderInput} (h : t.Waits) (hstep : machine t input log t')
    (track : Track) :
    t'.base track = t.base track ∨
      t.base track = none ∧ ∃ b, t'.base track = some b ∧ SetsBase track ⟨t, input, log⟩ b := by
  cases input with
  | addOutput config =>
      obtain ⟨rfl, rfl⟩ := Prod.mk.inj (Except.ok.inj hstep)
      exact .inl (base_with_outputs _ track)
  | start o =>
      obtain ⟨rfl, rfl⟩ := Prod.mk.inj (Except.ok.inj hstep)
      exact .inl (base_with_outputs _ track)
  | stop =>
      obtain ⟨rfl, rfl⟩ := Prod.mk.inj (Except.ok.inj hstep)
      exact .inl (base_with_outputs _ track)
  | onSourceMetadata width height fps sampleRate channels created =>
      obtain ⟨rfl, rfl⟩ := Prod.mk.inj (Except.ok.inj hstep)
      left
      cases track <;> rfl
  | onVideoData data timestamp keyframe o =>
      have hok : t.onVideoData data timestamp keyframe o = .ok (t', log) := hstep
      rcases onVideoData_cases hok with
        ⟨size, rfl, -⟩ | ⟨annexB, frame, fed, hdemux, hdecode, rfl, -, rfl, -⟩
      · left
        cases track <;> rfl
      · obtain ⟨outputs, heq⟩ := processVideoFrame_fst t o.codecs frame
        rw [heq, base_with_outputs]
        rcases base_gateVideo t frame track with hsame | ⟨rfl, hstarted, hnone, hkeyframe, hset⟩
        · exact .inl hsame
        · exact .inr ⟨hnone, _, hset, .video hstarted hnone hdemux hdecode hkeyframe⟩
  | onAudioData data timestamp o =>
      have hpair : t.onAudioData data timestamp o = (t', log) := Except.ok.inj hstep
      rcases onAudioData_cases hpair with
        ⟨decoder, initialized, rfl, -⟩ | ⟨aac, frame, fed, hdemux, hdecode, rfl, -, rfl, -⟩
      · left
        cases track <;> rfl
      · obtain ⟨outputs, heq⟩ := processAudioFrame_fst t o.codecs frame
        have hrate (rate : UInt32) (track : Track) :
            { t with actualAudioSampleRate := rate }.base track = t.base track := by
          cases track <;> rfl
        rw [heq, base_with_outputs]
        rcases base_gateAudio { t with actualAudioSampleRate := UInt32.ofInt frame.sampleRate } frame
          track with hsame | ⟨rfl, hstarted, hnone, hset⟩
        · exact .inl (hsame.trans (hrate _ track))
        · rw [hrate] at hnone
          exact .inr ⟨hnone, _, hset, .audio hstarted hnone hdemux hdecode⟩
  | connected k =>
      obtain ⟨rfl, rfl⟩ := Prod.mk.inj (Except.ok.inj hstep)
      exact .inl (base_callback k _ track)
  | message k stale msg =>
      have hfst : (t.onMessage k stale msg).1 = t' := congrArg Prod.fst (Except.ok.inj hstep)
      left
      rw [← hfst, onMessage, base_callback]
      split
      · exact h.base_startPublishing track
      · rfl
  | disconnected k =>
      obtain ⟨rfl, rfl⟩ := Prod.mk.inj (Except.ok.inj hstep)
      exact .inl (base_callback k _ track)

theorem base_of_setsBase {m : Moment Transcoder TranscoderInput TranscoderEvent} {b : UInt32}
    (h : SetsBase .video m b) (hstep : machine m.state m.input m.outputs t') :
    t'.base .video = some b := by
  obtain ⟨t, input, log⟩ := m
  cases h with
  | @video _ data annexB _ keyframe o frame _ hstarted hnone hdemux hdecode hkeyframe =>
      have hok : t.onVideoData data b keyframe o = .ok (t', log) := hstep
      have htimestamp : frame.timestamp = b := by
        rcases H264Decoder.decode_cases hdecode with hnil | ⟨frame', hframe, hts⟩
        · cases hnil
        · rw [List.singleton_injective hframe]
          exact hts
      have hunset : t.baseVideoTimestampSet = false := by
        simpa [base] using hnone
      obtain ⟨outputs, heq⟩ := processVideoFrame_fst t o.codecs frame
      simp only [onVideoData, hdemux, bind, Except.bind] at hok
      rw [hdecode] at hok
      simp only [processFrames_singleton] at hok
      rw [← (Prod.mk.inj (Except.ok.inj hok)).1, heq, base_with_outputs, gateVideo,
        if_pos ⟨hstarted, hunset⟩, if_pos hkeyframe, ← htimestamp]
      rfl

/-! ### What a run does to a base -/

variable {trace : List (Moment Transcoder TranscoderInput TranscoderEvent)} {track : Track} {b : UInt32}

theorem Waits.run (hrun : Run machine t trace t') (h : t.Waits) : t'.Waits := by
  induction hrun with
  | nil => exact h
  | snoc _ hstep ih => exact ih.step hstep

/-- **A base that is set stays.** -/
theorem base_run (hrun : Run machine t trace t') (hwaits : t.Waits) (h : t.base track = some b) :
    t'.base track = some b := by
  induction hrun with
  | nil => exact h
  | snoc hrun hstep ih =>
      rcases base_step (hwaits.run hrun) hstep track with hsame | ⟨hnone, -⟩
      · exact hsame.trans ih
      · exact absurd (hnone.symm.trans ih) (by simp)

/-- A step sets the base of a track. -/
def FixesBase (track : Track) (m : Moment Transcoder TranscoderInput TranscoderEvent) (b : UInt32) :
    Prop :=
  m.state.base track = none ∧ ∃ t', machine m.state m.input m.outputs t' ∧ t'.base track = some b

/-- **A base that is set in the course of a run is set by one of its steps**, for what comes in then. -/
theorem exists_fixesBase (hrun : Run machine t trace t') (hwaits : t.Waits) (h : t.base track = none)
    (h' : t'.base track = some b) : ∃ m ∈ trace, FixesBase track m b ∧ SetsBase track m b := by
  induction hrun with
  | nil => exact absurd (h.symm.trans h') (by simp)
  | snoc hrun hstep ih =>
      rcases base_step (hwaits.run hrun) hstep track with hsame | ⟨hnone, b', hb', hsets⟩
      · obtain ⟨m, hm, hfixes⟩ := ih (hsame.symm.trans h')
        exact ⟨m, List.mem_append_left _ hm, hfixes⟩
      · obtain rfl := Option.some.inj (hb'.symm.trans h')
        exact ⟨_, List.mem_append_right _ List.mem_cons_self, ⟨hnone, _, hstep, hb'⟩, hsets⟩

end Transcoder

/-! ### Runs -/

variable {t t' : Transcoder} {trace : List (Moment Transcoder TranscoderInput TranscoderEvent)}
  {m mv ma : Moment Transcoder TranscoderInput TranscoderEvent} {track : Track} {i j : ℕ}
  {v a timestamp : UInt32} {msg msgv msga : Message}

/-- What is pushed has been moved by the base that the step leaves. -/
theorem Pushes.moved (h : Pushes track m i timestamp msg)
    (hstep : Transcoder.machine m.state m.input m.outputs t') :
    ∃ b, t'.base track = some b ∧ msg.timestamp = outputTimestamp b timestamp := by
  obtain ⟨state, input, log⟩ := m
  obtain ⟨hinput, -, hmem⟩ := h
  have hcaused : state.Caused input t' i (.client (.sendMessage msg)) :=
    Transcoder.caused_of_step hstep hmem
  -- nothing but media has a timestamp
  cases hcaused with
  | video _ _ _ hset hmoved =>
      cases track with
      | video =>
          cases hinput
          exact ⟨t'.baseVideoTimestamp, if_pos hset, hmoved⟩
      | audio => cases hinput
  | audio _ _ _ hset hmoved =>
      cases track with
      | video => cases hinput
      | audio =>
          cases hinput
          exact ⟨t'.baseAudioTimestamp, if_pos hset, hmoved⟩
  | started _ _ => cases track <;> cases hinput
  | stopped _ _ => cases track <;> cases hinput
  | connected _ _ => cases track <;> cases hinput
  | message _ _ => cases track <;> cases hinput
  | disconnected _ _ => cases track <;> cases hinput

/-- The bases come from the run, and all that it has pushed has been moved by them. -/
structure Based (trace : List (Moment Transcoder TranscoderInput TranscoderEvent)) (t : Transcoder) :
    Prop where
  source : ∀ {track b}, t.base track = some b → ∃ m ∈ trace, SetsBase track m b
  moved : ∀ {m track i timestamp msg}, m ∈ trace → Pushes track m i timestamp msg →
    ∃ b, t.base track = some b ∧ msg.timestamp = outputTimestamp b timestamp

/-- A step keeps the bases that are set, and moves what it pushes by them. -/
theorem Based.step (h : Based trace t) {input : TranscoderInput} {log : List TranscoderEvent}
    (hwaits : t.Waits) (hstep : Transcoder.machine t input log t') :
    Based (trace ++ [⟨t, input, log⟩]) t' where
  source {track b} hb := by
    rcases Transcoder.base_step hwaits hstep track with hsame | ⟨-, b', hb', hsets⟩
    · obtain ⟨m, hm, hsets⟩ := h.source (hsame ▸ hb)
      exact ⟨m, List.mem_append_left _ hm, hsets⟩
    · obtain rfl := Option.some.inj (hb'.symm.trans hb)
      exact ⟨_, List.mem_append_right _ List.mem_cons_self, hsets⟩
  moved {m track i timestamp msg} hm hpush := by
    rcases List.mem_append.1 hm with hm | hm
    · obtain ⟨b, hb, hmoved⟩ := h.moved hm hpush
      rcases Transcoder.base_step hwaits hstep track with hsame | ⟨hnone, -⟩
      · exact ⟨b, hsame.trans hb, hmoved⟩
      · exact absurd (hnone.symm.trans hb) (by simp)
    · obtain rfl := List.mem_singleton.1 hm
      exact hpush.moved hstep

/-- **The bases are set once, and all that is pushed in a run has been moved by them.** -/
theorem based_of_run (hrun : Run Transcoder.machine {} trace t) : Based trace t := by
  induction hrun with
  | nil =>
      constructor
      · intro track b hb
        cases track <;> cases hb
      · intro m track i timestamp msg hm
        cases hm
  | snoc hrun hstep ih => exact ih.step (Transcoder.waits_of_run hrun) hstep

/-- **Pictures and sound that are pushed in a run are as far apart as they were, less how far apart the
bases are**: they are as far apart as they were exactly if the bases are the same. -/
theorem synchrony (hrun : Run Transcoder.machine {} trace t) (hmv : mv ∈ trace) (hma : ma ∈ trace)
    (hv : Pushes .video mv i v msgv) (ha : Pushes .audio ma j a msga) :
    ∃ b c, t.base .video = some b ∧ t.base .audio = some c ∧
      (∃ m ∈ trace, SetsBase .video m b) ∧ (∃ m ∈ trace, SetsBase .audio m c) ∧
      (b ≤ v → c ≤ a →
        gap msgv.timestamp msga.timestamp = gap v a - gap b c ∧
          (gap msgv.timestamp msga.timestamp = gap v a ↔ b = c)) := by
  have hbased : Based trace t := based_of_run hrun
  obtain ⟨b, hb, hmovedv⟩ := hbased.moved hmv hv
  obtain ⟨c, hc, hmoveda⟩ := hbased.moved hma ha
  refine ⟨b, c, hb, hc, hbased.source hb, hbased.source hc, ?_⟩
  intro hbv hca
  have hgap : gap msgv.timestamp msga.timestamp = gap v a - gap b c := by
    rw [hmovedv, hmoveda, gap_moved hbv hca]
  refine ⟨hgap, ?_⟩
  rw [hgap, sub_eq_self, gap_eq_zero]

/-! ### Sound before a picture -/

/-- FDK-AAC, which is set up and codes every sound alike. -/
def soundCodecs : AudioCodecs where
  setup _ _ _ := .done [0x12, 0x10]
  encodeFrame _ := .ok [0x21]

/-- Every sound is decoded. -/
def soundOutcome : AudioOutcome where
  opened := true
  configRaw _ := true
  decodeFrame _ _ := some ⟨[0, 0], 44100, 2⟩
  codecs _ := soundCodecs

/-- The publisher says what its sound is like. -/
def soundAnnounced : TranscoderInput := .onAudioData [0xAF, 0, 0x12, 0x10] 0 soundOutcome

def soundInput (timestamp : UInt32) : TranscoderInput :=
  .onAudioData [0xAF, 1, 0x21] timestamp soundOutcome

/-- The message that is pushed for it. -/
def soundMessage (timestamp : UInt32) : Message :=
  ⟨Rtmp.MessageType.audio.code, timestamp, 1, buildFlvAudioPacket 44100 ⟨[0x21], 0, 0, false⟩⟩

/-- The message that is pushed for a picture. -/
def pictureMessage (timestamp : UInt32) : Message :=
  ⟨Rtmp.MessageType.video.code, timestamp, 1, buildFlvVideoPacket
    ⟨[0, 0, 0, 4, 0x67, 0x42, 0, 0x1E, 0, 0, 0, 2, 0x68, 1, 0, 0, 0, 2, 0x65, 1], 0, 0, true⟩⟩

/-- When the output has been confirmed, sound comes in, and the first picture half a second later. -/
theorem replay_apart : ∃ t₁ before t mv ma,
    Machine.replay Transcoder.perform {} (outputAdded :: confirming ++ [soundAnnounced]) =
      .ok (t₁, before) ∧
    Machine.replay Transcoder.perform t₁ [soundInput 1000, pictureInput 1500] = .ok (t, [ma, mv]) ∧
    ma.input = soundInput 1000 ∧
    ma.outputs = [.audioDecoder [0x21], .output 0 (.client (.sendMessage (soundMessage 0)))] ∧
    mv.input = pictureInput 1500 ∧
    mv.outputs =
      [.videoDecoder [0, 0, 0, 1, 0x65], .output 0 (.client (.sendMessage (pictureMessage 0)))] ∧
    t.base .video = some 1500 ∧ t.base .audio = some 1000 :=
  ⟨_, _, _, _, _, rfl, rfl, rfl, rfl, rfl, rfl, rfl, rfl⟩

theorem pushes_apart : ∃ trace t mv ma, Run Transcoder.machine {} trace t ∧ mv ∈ trace ∧ ma ∈ trace ∧
    SamePeriod 0 trace mv ma ∧ Pushes .video mv 0 1500 (pictureMessage 0) ∧
    Pushes .audio ma 0 1000 (soundMessage 0) ∧ t.base .video = some 1500 ∧
    t.base .audio = some 1000 := by
  obtain ⟨t₁, before, t, mv, ma, hbefore, hduring, hma, houta, hmv, houtv, hbasev, hbasea⟩ :=
    replay_apart
  have hrun : Run Transcoder.machine {} (before ++ [ma, mv]) t :=
    (Machine.run_of_replay hbefore).append (Machine.run_of_replay hduring)
  refine ⟨before ++ [ma, mv], t, mv, ma, hrun, by simp, by simp, ?_, ?_, ?_, hbasev, hbasea⟩
  · refine ⟨before, [ma, mv], [], by simp, by simp, by simp, ?_⟩
    -- neither of the two does anything but push
    rintro m hm ⟨e, he, event, hends, heq⟩
    rcases List.mem_pair.1 hm with rfl | rfl
    · rw [houta] at he
      rcases List.mem_pair.1 he with rfl | rfl
      · cases heq
      · cases heq
        exact hends
    · rw [houtv] at he
      rcases List.mem_pair.1 he with rfl | rfl
      · cases heq
      · cases heq
        exact hends
  · refine ⟨by rw [hmv]; rfl, ⟨rfl, _, rfl⟩, ?_⟩
    rw [houtv]
    simp
  · refine ⟨by rw [hma]; rfl, ⟨rfl, _, _, rfl⟩, ?_⟩
    rw [houta]
    simp

/-- **Synchrony is lost**: sound and a picture that come in half a second apart are pushed at the same
time, to one output and in one publishing period. -/
theorem not_synchronous :
    ¬ ∀ (trace : List (Moment Transcoder TranscoderInput TranscoderEvent)) (t : Transcoder),
      Run Transcoder.machine {} trace t → ∀ mv ∈ trace, ∀ ma ∈ trace, ∀ i v a msgv msga,
        SamePeriod i trace mv ma → Pushes .video mv i v msgv → Pushes .audio ma i a msga →
        (∀ b, t.base .video = some b → b ≤ v) → (∀ c, t.base .audio = some c → c ≤ a) →
        gap msgv.timestamp msga.timestamp = gap v a := by
  intro hall
  obtain ⟨trace, t, mv, ma, hrun, hmv, hma, hperiod, hv, ha, hbasev, hbasea⟩ := pushes_apart
  have hsame := hall trace t hrun mv hmv ma hma 0 1500 1000 _ _ hperiod hv ha
    (fun b hb => Option.some.inj (hbasev.symm.trans hb) ▸ UInt32.le_refl _)
    (fun c hc => Option.some.inj (hbasea.symm.trans hc) ▸ UInt32.le_refl _)
  exact absurd hsame (by decide)

/-- They are half a second less apart, as the bases are half a second apart. -/
theorem synchrony_apart : ∃ trace t, Run Transcoder.machine {} trace t ∧ ∃ mv ∈ trace, ∃ ma ∈ trace,
    Pushes .video mv 0 1500 (pictureMessage 0) ∧ Pushes .audio ma 0 1000 (soundMessage 0) ∧
    gap (pictureMessage 0).timestamp (soundMessage 0).timestamp = gap 1500 1000 - gap 1500 1000 ∧
    ∃ m ∈ trace, SetsBase .video m 1500 := by
  obtain ⟨trace, t, mv, ma, hrun, hmv, hma, -, hv, ha, hbasev, hbasea⟩ := pushes_apart
  obtain ⟨b, c, hb, hc, hsets, -, hgap⟩ := synchrony hrun hmv hma hv ha
  obtain rfl := Option.some.inj (hbasev.symm.trans hb)
  obtain rfl := Option.some.inj (hbasea.symm.trans hc)
  exact ⟨trace, t, hrun, mv, hmv, ma, hma, hv, ha, (hgap (UInt32.le_refl _) (UInt32.le_refl _)).1, hsets⟩

end Transcode
