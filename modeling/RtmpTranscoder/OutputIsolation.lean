/-
**The outputs of a transcoder do not disturb each other.**

All outputs share one decoder of each kind, the bases of the timestamps and the flag that publishing
has started; everything else an output has for itself.  The flag is the only thing shared that an output
changes: the first confirmation sets it, and lets the bases be set anew.  Once it is set, nothing that
happens to an output makes a difference to the others: neither what its upstream answers, how often its
connection ends, nor what its codecs make of a frame, or that they cannot be set up.

That is a matter of noninterference: to an observer who looks away from the output `j`, the callbacks of
its client are not noticed, and neither is what its codecs and its socket answer.

Main definitions:

* `Transcode.Transcoder.AgreeOff` — the transcoders publish, and differ in the output `j` at most;
* `Transcode.TranscoderInput.AlikeOff` — the same is asked, and is answered alike off the output `j`;
* `Transcode.Transcoder.offOutput` — the observer.

Main results:

* `Transcode.Transcoder.unwinds_offOutput` — what happens to the output `j` is not noticed;
* `Transcode.Transcoder.outputs_isolated` — **whatever happens to an output, the others do the same**.
-/

import RtmpTranscoder.Noninterference
import RtmpTranscoder.TranscoderSteps

set_option relaxedAutoImplicit false
set_option autoImplicit false

namespace Transcode

open Machine (Observer Run)
open Rtmp (Message)
open Text

variable {j : ℕ}

/-- Two lists of outputs that differ in the output `j` at most. -/
structure OutputsAgree (j : ℕ) (outs outs' : List Output) : Prop where
  length : outs.length = outs'.length
  get : ∀ {i : ℕ}, i ≠ j → outs[i]? = outs'[i]?

namespace OutputsAgree

variable {outs outs' : List Output}

theorem symm (h : OutputsAgree j outs outs') : OutputsAgree j outs' outs :=
  ⟨h.length.symm, fun hi => (h.get hi).symm⟩

theorem snoc (h : OutputsAgree j outs outs') (out : Output) :
    OutputsAgree j (outs ++ [out]) (outs' ++ [out]) where
  length := by rw [List.length_append, List.length_append, h.length]
  get hi := by rw [List.getElem?_append, List.getElem?_append, h.length, h.get hi]

/-- The output `j` is replaced. -/
theorem set_left (h : OutputsAgree j outs outs') (out : Output) :
    OutputsAgree j (outs.set j out) outs' where
  length := by rw [List.length_set, h.length]
  get hi := by rw [List.getElem?_set_ne hi.symm, h.get hi]

theorem set (h : OutputsAgree j outs outs') (i : ℕ) (out : Output) :
    OutputsAgree j (outs.set i out) (outs'.set i out) where
  length := by rw [List.length_set, List.length_set, h.length]
  get hi := by rw [List.getElem?_set, List.getElem?_set, h.length, h.get hi]

theorem mapIdx {f g : ℕ → Output → Output} (h : OutputsAgree j outs outs')
    (hfg : ∀ {i}, i ≠ j → f i = g i) : OutputsAgree j (outs.mapIdx f) (outs'.mapIdx g) where
  length := by rw [List.length_mapIdx, List.length_mapIdx, h.length]
  get hi := by rw [List.getElem?_mapIdx, List.getElem?_mapIdx, h.get hi, hfg hi]

end OutputsAgree

/-- What is seen of an event by one who looks away from the output `j`. -/
def TranscoderEvent.seenOff (j : ℕ) : TranscoderEvent → Option TranscoderEvent
  | .output i event => if i = j then none else some (.output i event)
  | event => some event

theorem filterMap_seenOff_self (events : List OutputEvent) :
    (events.map (.output j)).filterMap (TranscoderEvent.seenOff j) = [] := by
  rw [List.filterMap_eq_nil_iff]
  intro e he
  obtain ⟨event, -, rfl⟩ := List.mem_map.1 he
  exact if_pos rfl

namespace Transcoder

/-- Two transcoders that publish, and differ in the output `j` at most. -/
inductive AgreeOff (j : ℕ) : Transcoder → Transcoder → Prop
  | intro {shared : Transcoder} {outs outs' : List Output} : shared.publishingStarted = true →
      OutputsAgree j outs outs' →
      AgreeOff j { shared with outputs := outs } { shared with outputs := outs' }

theorem AgreeOff.refl {t : Transcoder} (h : t.publishingStarted = true) : AgreeOff j t t :=
  @AgreeOff.intro j t _ _ h ⟨rfl, fun _ => rfl⟩

theorem AgreeOff.symm {s t : Transcoder} (h : AgreeOff j s t) : AgreeOff j t s := by
  cases h with
  | intro hstarted houts => exact .intro hstarted houts.symm

/-- Two transcoders with what they have done, of which the same is seen. -/
structure ActAlike (j : ℕ) (r r' : Transcoder × List TranscoderEvent) : Prop where
  agree : AgreeOff j r.1 r'.1
  seen : r.2.filterMap (TranscoderEvent.seenOff j) = r'.2.filterMap (TranscoderEvent.seenOff j)

theorem ActAlike.after {r r' : Transcoder × List TranscoderEvent} (h : ActAlike j r r')
    (before : List TranscoderEvent) :
    ActAlike j (r.1, before ++ r.2) (r'.1, before ++ r'.2) where
  agree := h.agree
  seen := by rw [List.filterMap_append, List.filterMap_append, h.seen]

variable {shared : Transcoder} {outs outs' : List Output}

/-! ### What is done for the outputs -/

/-- **What is done for each output**, alike off the output `j`. -/
theorem eachOutput_alike {f g : ℕ → Output → Output × List OutputEvent}
    (hstarted : shared.publishingStarted = true) (houts : OutputsAgree j outs outs')
    (hfg : ∀ {i}, i ≠ j → f i = g i) :
    ActAlike j (({ shared with outputs := outs } : Transcoder).eachOutput f)
      (({ shared with outputs := outs' } : Transcoder).eachOutput g) where
  agree := by
    refine .intro hstarted (houts.mapIdx fun hi => ?_)
    rw [hfg hi]
  seen := by
    simp only [eachOutput, List.filterMap_flatten]
    refine congrArg List.flatten (List.ext_getElem? fun i => ?_)
    simp only [List.getElem?_map, List.getElem?_mapIdx]
    by_cases hi : i = j
    · -- nothing is seen of it, if it is there at all
      subst hi
      simp only [Option.map_map, Function.comp_def, filterMap_seenOff_self]
      rcases Nat.lt_or_ge i outs.length with hlt | hge
      · rw [List.getElem?_eq_getElem hlt, List.getElem?_eq_getElem (houts.length ▸ hlt)]
        rfl
      · rw [List.getElem?_eq_none hge, List.getElem?_eq_none (houts.length ▸ hge)]
    · rw [houts.get hi, hfg hi]

/-- The client of the output `j` calls back: nothing is noticed. -/
theorem callback_self (hstarted : shared.publishingStarted = true) (houts : OutputsAgree j outs outs')
    (f : Output → Output × List OutputEvent) :
    AgreeOff j (({ shared with outputs := outs } : Transcoder).callback j f).1
        { shared with outputs := outs' } ∧
      (({ shared with outputs := outs } : Transcoder).callback j f).2.filterMap
        (TranscoderEvent.seenOff j) = [] := by
  unfold callback
  split
  · exact ⟨.intro hstarted houts, rfl⟩
  · exact ⟨.intro hstarted (houts.set_left _), filterMap_seenOff_self _⟩

theorem callback_alike {i : ℕ} (hi : i ≠ j) (hstarted : shared.publishingStarted = true)
    (houts : OutputsAgree j outs outs') (f : Output → Output × List OutputEvent) :
    ActAlike j (({ shared with outputs := outs } : Transcoder).callback i f)
      (({ shared with outputs := outs' } : Transcoder).callback i f) := by
  unfold callback listening
  simp only [houts.get hi]
  split
  · exact ⟨.intro hstarted houts, rfl⟩
  · exact ⟨.intro hstarted (houts.set i _), rfl⟩

/-! ### Frames -/

/-- Whether a picture is let through does not depend on the outputs. -/
theorem gateVideo_shared (frame : VideoFrame) :
    ({ shared with outputs := outs } : Transcoder).gateVideo frame =
      ({ (shared.gateVideo frame).1 with outputs := outs }, (shared.gateVideo frame).2) := by
  unfold gateVideo
  split
  · split <;> rfl
  · rfl

theorem gateAudio_shared (frame : AudioFrame) :
    ({ shared with outputs := outs } : Transcoder).gateAudio frame =
      ({ (shared.gateAudio frame).1 with outputs := outs }, (shared.gateAudio frame).2) := by
  unfold gateAudio
  split <;> rfl

theorem processVideoFrame_alike {s t : Transcoder} {codecs codecs' : ℕ → VideoCodecs}
    (h : AgreeOff j s t) (hcodecs : ∀ {i}, i ≠ j → codecs i = codecs' i) (frame : VideoFrame) :
    ActAlike j (s.processVideoFrame codecs frame) (t.processVideoFrame codecs' frame) := by
  cases h with
  | @intro shared outs outs' hstarted houts =>
      have hgate := (gateVideo_publishingStarted (t := shared) frame).trans hstarted
      unfold processVideoFrame
      simp only [gateVideo_shared]
      split
      · exact ⟨.intro hgate houts, rfl⟩
      · exact eachOutput_alike hgate houts fun hi => by rw [hcodecs hi]

theorem processAudioFrame_alike {s t : Transcoder} {codecs codecs' : ℕ → AudioCodecs}
    (h : AgreeOff j s t) (hcodecs : ∀ {i}, i ≠ j → codecs i = codecs' i) (frame : AudioFrame) :
    ActAlike j (s.processAudioFrame codecs frame) (t.processAudioFrame codecs' frame) := by
  cases h with
  | @intro shared outs outs' hstarted houts =>
      have hgate := (gateAudio_publishingStarted
        (t := { shared with actualAudioSampleRate := UInt32.ofInt frame.sampleRate }) frame).trans
        hstarted
      have hleft := @gateAudio_shared
        { shared with actualAudioSampleRate := UInt32.ofInt frame.sampleRate } outs frame
      have hright := @gateAudio_shared
        { shared with actualAudioSampleRate := UInt32.ofInt frame.sampleRate } outs' frame
      unfold processAudioFrame
      simp only [hleft, hright]
      split
      · exact ⟨.intro hgate houts, rfl⟩
      · exact eachOutput_alike hgate houts fun hi => by rw [hcodecs hi]

theorem processFrames_alike {α : Type} {p q : Transcoder → α → Transcoder × List TranscoderEvent}
    (hpq : ∀ {s t}, AgreeOff j s t → ∀ frame, ActAlike j (p s frame) (q t frame)) (frames : List α)
    {s t : Transcoder} (h : AgreeOff j s t) :
    ActAlike j (processFrames p s frames) (processFrames q t frames) := by
  induction frames generalizing s t with
  | nil => exact ⟨h, rfl⟩
  | cons frame frames ih =>
      have hfirst := hpq h frame
      have hrest := ih hfirst.agree
      exact ⟨hrest.agree, by
        simp only [processFrames, List.filterMap_append, hfirst.seen, hrest.seen]⟩

/-! ### Handlers -/

theorem onVideoData_alike {s t : Transcoder} {data : List UInt8} {timestamp : UInt32}
    (keyframe : Bool) {o o' : VideoOutcome} {r r' : Transcoder × List TranscoderEvent}
    (h : AgreeOff j s t) (hdecode : o.decodeFrame = o'.decodeFrame)
    (hcodecs : ∀ {i}, i ≠ j → o.codecs i = o'.codecs i)
    (hs : s.onVideoData data timestamp keyframe o = .ok r)
    (ht : t.onVideoData data timestamp keyframe o' = .ok r') : ActAlike j r r' := by
  cases h with
  | @intro shared outs outs' hstarted houts =>
      unfold onVideoData at hs ht
      simp only [bind, Except.bind, hdecode] at hs ht
      cases hdemux : demuxVideo shared.naluLengthSize data with
      | error f =>
          rw [hdemux] at hs
          cases hs
      | ok payload =>
          rw [hdemux] at hs ht
          cases payload with
          | ignored =>
              rw [← Except.ok.inj hs, ← Except.ok.inj ht]
              exact ⟨.intro hstarted houts, rfl⟩
          | config size sets =>
              rw [← Except.ok.inj hs, ← Except.ok.inj ht]
              exact ⟨@AgreeOff.intro j { shared with naluLengthSize := size } _ _ hstarted houts, rfl⟩
          | nalus annexB =>
              simp only at hs ht
              cases hframes : shared.videoDecoder.decode o'.decodeFrame annexB timestamp with
              | none =>
                  rw [hframes] at hs ht
                  rw [← Except.ok.inj hs, ← Except.ok.inj ht]
                  exact ⟨.intro hstarted houts, rfl⟩
              | some frames =>
                  rw [hframes] at hs ht
                  rw [← Except.ok.inj hs, ← Except.ok.inj ht]
                  exact (processFrames_alike (fun h frame => processVideoFrame_alike h hcodecs frame)
                    frames (.intro hstarted houts)).after _

theorem onAudioData_alike {s t : Transcoder} {data : List UInt8} {timestamp : UInt32}
    {o o' : AudioOutcome} (h : AgreeOff j s t) (hopened : o.opened = o'.opened)
    (hconfig : o.configRaw = o'.configRaw) (hdecode : o.decodeFrame = o'.decodeFrame)
    (hcodecs : ∀ {i}, i ≠ j → o.codecs i = o'.codecs i) :
    ActAlike j (s.onAudioData data timestamp o) (t.onAudioData data timestamp o') := by
  cases h with
  | @intro shared outs outs' hstarted houts =>
      unfold onAudioData
      simp only [hopened, hconfig, hdecode]
      cases demuxAudio data with
      | ignored => exact ⟨.intro hstarted houts, rfl⟩
      | config asc =>
          exact ⟨@AgreeOff.intro j { shared with
            audioDecoder := (shared.audioDecoder.initializeWith o'.opened o'.configRaw asc).1
            audioInitialized := shared.audioInitialized ||
              (shared.audioDecoder.initializeWith o'.opened o'.configRaw asc).2 } _ _ hstarted houts,
            rfl⟩
      | raw aac =>
          simp only
          split
          · exact ⟨.intro hstarted houts, rfl⟩
          · cases hframes : shared.audioDecoder.decode o'.decodeFrame aac timestamp with
            | none => exact ⟨.intro hstarted houts, rfl⟩
            | some frames =>
                exact (processFrames_alike (fun h frame => processAudioFrame_alike h hcodecs frame)
                  frames (.intro hstarted houts)).after _

/-- Once publishing has started, a confirmation changes nothing of what is shared. -/
theorem startPublishing_of_started {t : Transcoder} (h : t.publishingStarted = true) :
    t.startPublishing = t := if_pos h

theorem onMessage_of_started {t : Transcoder} (h : t.publishingStarted = true) (i : ℕ)
    (stale : UInt64) (msg : Message) :
    t.onMessage i stale msg =
      t.callback i fun out => out.onMessage t.actualAudioSampleRate stale msg := by
  unfold onMessage
  simp only [startPublishing_of_started h, ite_self]

/-- A message comes for the output `j`: nothing is noticed. -/
theorem onMessage_self (hstarted : shared.publishingStarted = true) (houts : OutputsAgree j outs outs')
    (stale : UInt64) (msg : Message) :
    AgreeOff j (({ shared with outputs := outs } : Transcoder).onMessage j stale msg).1
        { shared with outputs := outs' } ∧
      (({ shared with outputs := outs } : Transcoder).onMessage j stale msg).2.filterMap
        (TranscoderEvent.seenOff j) = [] := by
  rw [onMessage_of_started (t := { shared with outputs := outs }) hstarted]
  exact callback_self hstarted houts _

theorem onMessage_alike {i : ℕ} (hi : i ≠ j) (hstarted : shared.publishingStarted = true)
    (houts : OutputsAgree j outs outs') (stale : UInt64) (msg : Message) :
    ActAlike j (({ shared with outputs := outs } : Transcoder).onMessage i stale msg)
      (({ shared with outputs := outs' } : Transcoder).onMessage i stale msg) := by
  rw [onMessage_of_started (t := { shared with outputs := outs }) hstarted,
    onMessage_of_started (t := { shared with outputs := outs' }) hstarted]
  exact callback_alike hi hstarted houts _

theorem stop_alike {s t : Transcoder} (h : AgreeOff j s t) : ActAlike j s.stop t.stop := by
  cases h with
  | @intro shared outs outs' hstarted houts =>
      have heach := eachOutput_alike (f := fun _ out => (out, out.destroyClient.2 ++ [.removed]))
        (g := fun _ out => (out, out.destroyClient.2 ++ [.removed])) hstarted houts fun _ => rfl
      exact ⟨@AgreeOff.intro j shared _ _ hstarted ⟨rfl, fun _ => rfl⟩, heach.seen⟩

end Transcoder

/-! ### The observer -/

/-- The client of the output `j` calls back. -/
def TranscoderInput.isCallbackOf (j : ℕ) : TranscoderInput → Bool
  | .connected i => i == j
  | .message i _ _ => i == j
  | .disconnected i => i == j
  | _ => false

/-- The same is asked, and what is found is the same off the output `j`. -/
inductive TranscoderInput.AlikeOff (j : ℕ) : TranscoderInput → TranscoderInput → Prop
  | same {i : TranscoderInput} : i.isCallbackOf j = false → TranscoderInput.AlikeOff j i i
  | start {o o' : ℕ → StartOutcome} : (∀ {i}, i ≠ j → o i = o' i) →
      TranscoderInput.AlikeOff j (.start o) (.start o')
  | video {data : List UInt8} {timestamp : UInt32} {keyframe : Bool} {o o' : VideoOutcome} :
      o.decodeFrame = o'.decodeFrame → (∀ {i}, i ≠ j → o.codecs i = o'.codecs i) →
      TranscoderInput.AlikeOff j (.onVideoData data timestamp keyframe o)
        (.onVideoData data timestamp keyframe o')
  | audio {data : List UInt8} {timestamp : UInt32} {o o' : AudioOutcome} :
      o.opened = o'.opened → o.configRaw = o'.configRaw → o.decodeFrame = o'.decodeFrame →
      (∀ {i}, i ≠ j → o.codecs i = o'.codecs i) →
      TranscoderInput.AlikeOff j (.onAudioData data timestamp o) (.onAudioData data timestamp o')

namespace Transcoder

/-- Whoever looks away from the output `j`. -/
def offOutput (j : ℕ) : Observer Transcoder TranscoderInput TranscoderEvent TranscoderEvent where
  same := AgreeOff j
  notices i := !i.isCallbackOf j
  alike := TranscoderInput.AlikeOff j
  sees := TranscoderEvent.seenOff j

variable {s t : Transcoder} {i : TranscoderInput} {r r' : Transcoder × List TranscoderEvent}

/-- A callback of the output `j` is not noticed. -/
theorem agreeOff_of_callback (h : AgreeOff j s t) (hcallback : i.isCallbackOf j = true)
    (hs : s.perform i = .ok r) :
    AgreeOff j r.1 t ∧ r.2.filterMap (TranscoderEvent.seenOff j) = [] := by
  cases h with
  | @intro shared outs outs' hstarted houts =>
      cases i with
      | connected k =>
          obtain rfl : k = j := eq_of_beq hcallback
          rw [← Except.ok.inj hs]
          exact callback_self hstarted houts _
      | message k stale msg =>
          obtain rfl : k = j := eq_of_beq hcallback
          rw [← Except.ok.inj hs]
          exact onMessage_self hstarted houts stale msg
      | disconnected k =>
          obtain rfl : k = j := eq_of_beq hcallback
          rw [← Except.ok.inj hs]
          exact callback_self hstarted houts _
      | addOutput => cases hcallback
      | start => cases hcallback
      | stop => cases hcallback
      | onSourceMetadata => cases hcallback
      | onVideoData => cases hcallback
      | onAudioData => cases hcallback

/-- The same input, which is no callback of the output `j`, is handled alike. -/
theorem perform_alike (h : AgreeOff j s t) (hother : i.isCallbackOf j = false)
    (hs : s.perform i = .ok r) (ht : t.perform i = .ok r') : ActAlike j r r' := by
  have hagree := h
  cases h with
  | @intro shared outs outs' hstarted houts =>
      cases i with
      | addOutput config =>
          rw [← Except.ok.inj hs, ← Except.ok.inj ht]
          exact ⟨.intro hstarted (houts.snoc _), rfl⟩
      | start o =>
          rw [← Except.ok.inj hs, ← Except.ok.inj ht]
          exact eachOutput_alike hstarted houts fun _ => rfl
      | stop =>
          rw [← Except.ok.inj hs, ← Except.ok.inj ht]
          exact stop_alike hagree
      | onSourceMetadata width height fps sampleRate channels created =>
          rw [← Except.ok.inj hs, ← Except.ok.inj ht]
          exact ⟨@AgreeOff.intro j { shared with
            videoDecoder := (shared.videoDecoder.initializeWith created).1 } _ _ hstarted houts, rfl⟩
      | onVideoData data timestamp keyframe o =>
          exact onVideoData_alike keyframe hagree rfl (fun _ => rfl) hs ht
      | onAudioData data timestamp o =>
          rw [← Except.ok.inj hs, ← Except.ok.inj ht]
          exact onAudioData_alike hagree rfl rfl rfl fun _ => rfl
      | connected k =>
          rw [← Except.ok.inj hs, ← Except.ok.inj ht]
          exact callback_alike (ne_of_beq_false hother) hstarted houts _
      | message k stale msg =>
          rw [← Except.ok.inj hs, ← Except.ok.inj ht]
          exact onMessage_alike (ne_of_beq_false hother) hstarted houts stale msg
      | disconnected k =>
          rw [← Except.ok.inj hs, ← Except.ok.inj ht]
          exact callback_alike (ne_of_beq_false hother) hstarted houts _

theorem actAlike_of_alikeOff {i' : TranscoderInput} (h : AgreeOff j s t)
    (halike : TranscoderInput.AlikeOff j i i') (hs : s.perform i = .ok r)
    (ht : t.perform i' = .ok r') : ActAlike j r r' := by
  cases halike with
  | same hother => exact perform_alike h hother hs ht
  | start ho =>
      rw [← Except.ok.inj hs, ← Except.ok.inj ht]
      cases h with
      | intro hstarted houts => exact eachOutput_alike hstarted houts fun hi => by rw [ho hi]
  | @video _ _ keyframe _ _ hdecode hcodecs =>
      exact onVideoData_alike keyframe h hdecode hcodecs hs ht
  | audio hopened hconfig hdecode hcodecs =>
      rw [← Except.ok.inj hs, ← Except.ok.inj ht]
      exact onAudioData_alike h hopened hconfig hdecode hcodecs

/-- **What happens to the output `j` is not noticed.** -/
theorem unwinds_offOutput (j : ℕ) : (offOutput j).Unwinds perform where
  symm := AgreeOff.symm
  unnoticed_step h hnotices hs := agreeOff_of_callback h (by simpa [offOutput] using hnotices) hs
  noticed_step h halike hs ht :=
    have hact := actAlike_of_alikeOff h halike hs ht
    ⟨hact.agree, hact.seen⟩

/-- **Whatever happens to an output, the others do the same.**  Two runs of transcoders that publish and
differ in the output `j` at most, on inputs that differ in the callbacks of its client, and in what its
codecs and its socket answer, lead to such transcoders again, and do the same off the output `j`. -/
theorem outputs_isolated {s s' t t' : Transcoder}
    {trace trace' : List (Machine.Moment Transcoder TranscoderInput TranscoderEvent)}
    (h : AgreeOff j s t) (hrun : Run machine s trace s') (hrun' : Run machine t trace' t')
    (hinputs : List.Forall₂ (TranscoderInput.AlikeOff j)
      ((Machine.inputs trace).filter fun i => !i.isCallbackOf j)
      ((Machine.inputs trace').filter fun i => !i.isCallbackOf j)) :
    AgreeOff j s' t' ∧
      (Machine.outputs trace).filterMap (TranscoderEvent.seenOff j) =
        (Machine.outputs trace').filterMap (TranscoderEvent.seenOff j) :=
  (unwinds_offOutput j).runs_alike hrun hrun' h hinputs

/-- A transcoder that publishes to two outputs. -/
def twoOutputs : Transcoder where
  outputs :=
    [{ config := ⟨640, 360, 800, 96, ascii "rtmp://a/live/x"⟩, socketOpen := true },
      { config := ⟨320, 180, 400, 96, ascii "rtmp://b/live/x"⟩, socketOpen := true }]
  publishingStarted := true

/-- The connection of the second output ends, or it does not. -/
theorem outputs_isolated_twoOutputs : ∃ trace s' trace' t', Run machine twoOutputs trace s' ∧
    Run machine twoOutputs trace' t' ∧ Machine.inputs trace = [.disconnected 1, .connected 0] ∧
    Machine.inputs trace' = [.connected 0] ∧ AgreeOff 1 s' t' ∧
    (Machine.outputs trace).filterMap (TranscoderEvent.seenOff 1) =
      (Machine.outputs trace').filterMap (TranscoderEvent.seenOff 1) := by
  have hends : machine twoOutputs (.disconnected 1) (twoOutputs.callback 1 Output.onDisconnected).2
      (twoOutputs.callback 1 Output.onDisconnected).1 := rfl
  have hconnected : ∀ t, machine t (.connected 0) (t.callback 0 Output.onConnected).2
      (t.callback 0 Output.onConnected).1 := fun _ => rfl
  have hleft : ∃ trace s', Run machine twoOutputs trace s' ∧
      Machine.inputs trace = [.disconnected 1, .connected 0] :=
    ⟨_, _, .cons hends (.cons (hconnected _) .nil), rfl⟩
  have hright : ∃ trace s', Run machine twoOutputs trace s' ∧ Machine.inputs trace = [.connected 0] :=
    ⟨_, _, .cons (hconnected _) .nil, rfl⟩
  obtain ⟨trace, s', hrun, hinputs⟩ := hleft
  obtain ⟨trace', t', hrun', hinputs'⟩ := hright
  have halike : List.Forall₂ (TranscoderInput.AlikeOff 1)
      ((Machine.inputs trace).filter fun i => !i.isCallbackOf 1)
      ((Machine.inputs trace').filter fun i => !i.isCallbackOf 1) := by
    rw [hinputs, hinputs']
    exact .cons (.same rfl) .nil
  exact ⟨trace, s', trace', t', hrun, hrun', hinputs, hinputs',
    outputs_isolated (AgreeOff.refl rfl) hrun hrun' halike⟩

end Transcoder

end Transcode
