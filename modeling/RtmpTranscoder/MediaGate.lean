/-
**Media waits for the confirmation.**

An output has a flag which says that its upstream has confirmed the publication, and media is sent only
if the flag is set.  The flag belongs to the output, not to its connection, and connections come and
go: `start` replaces the client of every output, and upstreams hang up.  It is cleared by the
disconnected callback, so what matters is that a client never loses its socket without calling back
(`ClientCallbacks.lean`), and that the client which is replaced is destroyed, and calls back if it
still has a socket.

Hence the flag is set only while there is a socket, and only if the connection that stands has been
confirmed.

Main definitions:

* `Transcode.IsMedia` — a message is audio or video;
* `Transcode.Output.Admits` — what is done to an output that may be publishing afterwards;
* `Transcode.Transcoder.Admits` — the same of a step of the transcoder;
* `Transcode.Gated` — what publishes has a socket, and its confirmation is in force.

Main results:

* `Transcode.Transcoder.hears` — **the transcoder hears whatever the client of an output calls back**;
* `Transcode.Transcoder.admits_of_step`, `Transcode.Gated.step` — what a step does to the flags;
* `Transcode.media_gated` — **media is sent only on a connection that has been confirmed**.
-/

import RtmpTranscoder.ClientCallbacks
import RtmpTranscoder.SequenceHeaders

set_option relaxedAutoImplicit false
set_option autoImplicit false

namespace Transcode

open Machine (Moment Run InForce Guarded)
open Rtmp (Message MessageType LoopOutput Told)

def IsMedia (msg : Message) : Prop :=
  msg.typeId = MessageType.video.code ∨ msg.typeId = MessageType.audio.code

theorem IsMedia.not_command {msg : Message} (h : IsMedia msg) :
    msg.typeId ≠ MessageType.commandAMF0.code := by
  rcases h with h | h
  · rw [h]
    decide
  · rw [h]
    decide

/-- The upstream of the output `i` has confirmed that it publishes. -/
def Confirmed (i : ℕ) (e : TranscoderEvent) : Prop := e = .output i .confirmed

/-! ### What is done to an output -/

namespace Output

variable {out out' : Output} {e : OutputEvent} {rate : UInt32}

/-- Who publishes has a socket. -/
def Live (out : Output) : Prop := out.publishing = true → out.socketOpen = true

/-- What is done to an output that publishes afterwards: it has a socket, it has published before or is
confirmed now, and its publishing period does not end. -/
def Admits (out : Output) (r : Output × List OutputEvent) : Prop :=
  r.1.publishing = true → r.1.socketOpen = true ∧ (out.publishing = true ∨ .confirmed ∈ r.2) ∧
    ∀ e ∈ r.2, ¬ e.EndsPeriod

theorem Live.admits (h : out.Live) (hpublishing : out'.publishing = out.publishing)
    (hopen : out'.socketOpen = out.socketOpen) {events : List OutputEvent}
    (hends : ∀ e ∈ events, ¬ e.EndsPeriod) : out.Admits (out', events) := by
  intro hafter
  have hbefore : out.publishing = true := hpublishing.symm.trans hafter
  exact ⟨hopen.trans (h hbefore), .inl hbefore, hends⟩

theorem admits_of_not_publishing {r : Output × List OutputEvent} (h : r.1.publishing = false) :
    out.Admits r := fun hafter => absurd (h.symm.trans hafter) (by decide)

/-- What is done to an output before its first picture, and for a picture, leaves its flags alone. -/
theorem encodeVideo_flags (out : Output) (codecs : VideoCodecs) (frame : VideoFrame)
    (outputTs : UInt32) :
    (out.encodeVideo codecs frame outputTs).1.publishing = out.publishing ∧
      (out.encodeVideo codecs frame outputTs).1.socketOpen = out.socketOpen := by
  have hinitialize : (out.initializeVideo codecs frame).1.publishing = out.publishing ∧
      (out.initializeVideo codecs frame).1.socketOpen = out.socketOpen := by
    unfold initializeVideo
    simp only
    split
    · exact ⟨rfl, rfl⟩
    · split
      · exact ⟨rfl, rfl⟩
      · split <;> exact ⟨rfl, rfl⟩
  unfold encodeVideo
  simp only
  split
  · exact hinitialize
  · split
    · exact hinitialize
    · exact hinitialize

theorem encodeAudio_flags (out : Output) (codecs : AudioCodecs) (rate : UInt32) (frame : AudioFrame)
    (outputTs : UInt32) :
    (out.encodeAudio codecs rate frame outputTs).1.publishing = out.publishing ∧
      (out.encodeAudio codecs rate frame outputTs).1.socketOpen = out.socketOpen := by
  have hinitialize : (out.initializeAudio codecs frame).1.publishing = out.publishing ∧
      (out.initializeAudio codecs frame).1.socketOpen = out.socketOpen := by
    unfold initializeAudio
    simp only
    split
    · exact ⟨rfl, rfl⟩
    · split <;> exact ⟨rfl, rfl⟩
  unfold encodeAudio
  simp only
  split
  · exact hinitialize
  · exact hinitialize

theorem Live.encodeVideo (h : out.Live) (codecs : VideoCodecs) (frame : VideoFrame)
    (outputTs : UInt32) : out.Admits (out.encodeVideo codecs frame outputTs) := by
  obtain ⟨hpublishing, hopen⟩ := out.encodeVideo_flags codecs frame outputTs
  refine h.admits hpublishing hopen fun e he => ?_
  obtain ⟨-, msg, rfl, -⟩ := mem_encodeVideo he
  exact id

theorem Live.encodeAudio (h : out.Live) (codecs : AudioCodecs) (rate : UInt32) (frame : AudioFrame)
    (outputTs : UInt32) : out.Admits (out.encodeAudio codecs rate frame outputTs) := by
  obtain ⟨hpublishing, hopen⟩ := out.encodeAudio_flags codecs rate frame outputTs
  refine h.admits hpublishing hopen fun e he => ?_
  obtain ⟨-, msg, rfl, -⟩ := mem_encodeAudio he
  exact id

/-- **An output that is started does not publish**: its client is destroyed, and has called back that it
has lost its socket by then. -/
theorem Live.publishing_start (h : out.Live) (o : StartOutcome) :
    (out.start o).1.publishing = false := by
  have hgone : out.destroyClient.1.publishing = false := by
    unfold destroyClient
    split
    · rfl
    · rename_i hclosed
      rw [← Bool.not_eq_true]
      exact fun hpublishing => hclosed (h hpublishing)
  unfold start
  simp only
  split
  · exact hgone
  · split
    · exact hgone
    · exact hgone

theorem onConnected_fst (out : Output) : out.onConnected.1 = { out with connected := true } := by
  unfold Output.onConnected
  simp only
  split_ifs <;> rfl

theorem Live.onConnected (h : out.Live) : out.Admits out.onConnected := by
  have hends : ∀ e ∈ out.onConnected.2, ¬ e.EndsPeriod := by
    intro e he
    rcases onConnected_cases out with heq | ⟨cmd, heq⟩
    · rw [heq] at he
      cases he
    · rw [heq] at he
      rcases List.mem_pair.1 he with rfl | rfl
      · exact id
      · exact id
  intro hafter
  rw [onConnected_fst] at hafter ⊢
  exact ⟨h hafter, .inl hafter, hends⟩

theorem mem_destroyClient (he : e ∈ out.destroyClient.2) : e = .disconnected := by
  unfold destroyClient at he
  split at he
  · exact List.mem_singleton.1 he
  · cases he

theorem mem_start {o : StartOutcome} (he : e ∈ (out.start o).2) :
    e = .disconnected ∨ e = .client .create ∨ ∃ host port, e = .client (.connect host port) := by
  unfold start at he
  simp only at he
  split at he
  · rcases List.mem_append.1 he with he | he
    · exact .inl (mem_destroyClient he)
    · exact .inr (.inl (List.mem_singleton.1 he))
  · split at he
    · rcases List.mem_append.1 he with he | he
      · exact .inl (mem_destroyClient he)
      · exact .inr (.inl (List.mem_singleton.1 he))
    · rcases List.mem_append.1 he with he | he
      · exact .inl (mem_destroyClient he)
      · rcases List.mem_pair.1 he with rfl | rfl
        · exact .inr (.inl rfl)
        · exact .inr (.inr ⟨_, _, rfl⟩)

theorem not_endsPeriod_onPublishReady (he : e ∈ (out.onPublishReady rate).2) : ¬ e.EndsPeriod := by
  rcases mem_onPublishReady he with rfl | rfl | ⟨-, -, msg, -, rfl⟩
  · exact id
  · exact id
  · exact id

theorem socketOpen_onMessage (out : Output) (rate : UInt32) (stale : UInt64) (msg : Message) :
    (out.onMessage rate stale msg).1.socketOpen = out.socketOpen := by
  cases hconfirm : isPublishConfirmation stale msg with
  | true =>
      rw [onMessage_of_isPublishConfirmation hconfirm]
      rfl
  | false =>
      rcases @onMessage_cases out rate stale msg hconfirm with
        heq | heq | heq | ⟨streamId, publishMsg, -, heq⟩
      · rw [heq]
      · rw [heq]
      · rw [heq]
      · rw [heq]

theorem Live.onMessage (h : out.Live) (hopen : out.socketOpen = true) (stale : UInt64)
    (msg : Message) : out.Admits (out.onMessage rate stale msg) := by
  cases hconfirm : isPublishConfirmation stale msg with
  | true =>
      rw [onMessage_of_isPublishConfirmation hconfirm]
      intro _
      exact ⟨hopen, .inr (List.mem_append_left _ List.mem_cons_self),
        fun e he => not_endsPeriod_onPublishReady he⟩
  | false =>
      rcases @onMessage_cases out rate stale msg hconfirm with
        heq | heq | heq | ⟨streamId, publishMsg, -, heq⟩
      · rw [heq]
        exact h.admits rfl rfl fun _ he => absurd he List.not_mem_nil
      · rw [heq]
        refine h.admits rfl rfl fun e he => ?_
        rcases List.mem_pair.1 he with rfl | rfl
        · exact id
        · exact id
      · rw [heq]
        exact admits_of_not_publishing rfl
      · rw [heq]
        refine h.admits rfl rfl fun e he => ?_
        rcases List.mem_pair.1 he with rfl | rfl
        · exact id
        · exact id

end Output

/-! ### What is done to the outputs -/

namespace Transcoder

variable {t t' : Transcoder} {input : TranscoderInput} {log more : List TranscoderEvent} {i : ℕ}

/-- All outputs that publish have sockets. -/
def Live (t : Transcoder) : Prop := ∀ (i : ℕ) (out : Output), t.outputs[i]? = some out → out.Live

/-- A step after which an output publishes: the output has a socket, it has published before or is
confirmed, and its publishing period does not end. -/
def Admits (t : Transcoder) (more : List TranscoderEvent) (t' : Transcoder) : Prop :=
  ∀ (i : ℕ) (out' : Output), t'.outputs[i]? = some out' → out'.publishing = true →
    out'.socketOpen = true ∧
      ((∃ out, t.outputs[i]? = some out ∧ out.publishing = true) ∨ .output i .confirmed ∈ more) ∧
      ∀ e, .output i e ∈ more → ¬ e.EndsPeriod

theorem Live.admits_of_same (h : t.Live) (houtputs : t'.outputs = t.outputs)
    (hmore : ∀ i e, .output i e ∉ more) : t.Admits more t' := by
  intro i out hout hpublishing
  rw [houtputs] at hout
  exact ⟨h i out hout hpublishing, .inl ⟨out, hout, hpublishing⟩, fun e he => absurd he (hmore i e)⟩

theorem Live.eachOutput {f : ℕ → Output → Output × List OutputEvent} {fed : List TranscoderEvent}
    (h : t.Live) (hf : ∀ (i : ℕ) (out : Output), out.Live → out.Admits (f i out))
    (hfed : ∀ i e, .output i e ∉ fed) :
    t.Admits (fed ++ (t.eachOutput f).2) (t.eachOutput f).1 := by
  intro i out' hout' hpublishing
  have hmap : (t.outputs[i]?).map (fun out => (f i out).1) = some out' := by
    rw [← hout', Transcoder.eachOutput, List.getElem?_mapIdx]
  obtain ⟨out, hout, rfl⟩ := Option.map_eq_some_iff.1 hmap
  obtain ⟨hopen, hcause, hends⟩ := hf i out (h i out hout) hpublishing
  have hmem (e : OutputEvent) : .output i e ∈ fed ++ (t.eachOutput f).2 ↔ e ∈ (f i out).2 := by
    rw [List.mem_append, mem_eachOutput]
    constructor
    · rintro (hmem | ⟨out', hout', hmem⟩)
      · exact absurd hmem (hfed i e)
      · rwa [Option.some.inj (hout.symm.trans hout')]
    · exact fun hmem => .inr ⟨out, hout, hmem⟩
  refine ⟨hopen, ?_, fun e he => hends e ((hmem e).1 he)⟩
  exact hcause.imp (fun hbefore => ⟨out, hout, hbefore⟩) (hmem .confirmed).2

theorem Live.callback {f : Output → Output × List OutputEvent} (h : t.Live)
    (hf : ∀ out : Output, out.Live → out.socketOpen = true → out.Admits (f out)) :
    t.Admits (t.callback i f).2 (t.callback i f).1 := by
  cases hlistening : t.listening i with
  | none =>
      have hidle : t.callback i f = (t, []) := by
        unfold Transcoder.callback
        rw [hlistening]
      rw [hidle]
      exact h.admits_of_same rfl fun _ _ => List.not_mem_nil
  | some out =>
      have hlistens := hlistening
      rw [listening, Option.filter_eq_some_iff] at hlistens
      obtain ⟨hout, hopen⟩ := hlistens
      have hset : (t.callback i f).1.outputs = t.outputs.set i (f out).1 := by
        unfold Transcoder.callback
        rw [hlistening]
      intro j out' hout' hpublishing
      rw [hset, List.getElem?_set] at hout'
      split at hout'
      · rename_i hij
        subst hij
        split at hout'
        · obtain rfl := Option.some.inj hout'
          obtain ⟨hopen', hcause, hends⟩ := hf out (h i out hout) hopen hpublishing
          refine ⟨hopen', ?_, fun e he => ?_⟩
          · exact hcause.imp (fun hbefore => ⟨out, hout, hbefore⟩)
              fun hmem => mem_callback.2 ⟨rfl, out, hlistening, hmem⟩
          · obtain ⟨-, out', hout', hmem⟩ := mem_callback.1 he
            obtain rfl := Option.some.inj (hlistening.symm.trans hout')
            exact hends e hmem
        · cases hout'
      · rename_i hij
        refine ⟨h j out' hout' hpublishing, .inl ⟨out', hout', hpublishing⟩, fun e he => ?_⟩
        exact absurd (mem_callback.1 he).1.symm hij

theorem output_notMem {fed : List TranscoderEvent} (hfed : ∀ e ∈ fed, e.IsDecoder) (i : ℕ)
    (e : OutputEvent) : .output i e ∉ fed := fun hmem => (hfed _ hmem).not_output

theorem Live.processVideoFrame (h : t.Live) (codecs : ℕ → VideoCodecs) (frame : VideoFrame)
    {fed : List TranscoderEvent} (hfed : ∀ i e, .output i e ∉ fed) :
    t.Admits (fed ++ (t.processVideoFrame codecs frame).2) (t.processVideoFrame codecs frame).1 := by
  have hgate := t.gateVideo_outputs frame
  have hlive : (t.gateVideo frame).1.Live := by
    intro i out hout
    exact h i out (hgate ▸ hout)
  unfold Transcoder.processVideoFrame
  simp only
  split
  · rw [List.append_nil]
    exact h.admits_of_same hgate hfed
  · intro i out' hout' hpublishing
    have hadmits := hlive.eachOutput (fun i out hout => hout.encodeVideo (codecs i) frame _) hfed i
      out' hout' hpublishing
    rwa [hgate] at hadmits

theorem Live.processAudioFrame (h : t.Live) (codecs : ℕ → AudioCodecs) (frame : AudioFrame)
    {fed : List TranscoderEvent} (hfed : ∀ i e, .output i e ∉ fed) :
    t.Admits (fed ++ (t.processAudioFrame codecs frame).2) (t.processAudioFrame codecs frame).1 := by
  have hgate :=
    { t with actualAudioSampleRate := UInt32.ofInt frame.sampleRate }.gateAudio_outputs frame
  have hlive :
      ({ t with actualAudioSampleRate := UInt32.ofInt frame.sampleRate }.gateAudio frame).1.Live := by
    intro i out hout
    exact h i out (hgate ▸ hout)
  unfold Transcoder.processAudioFrame
  simp only
  split
  · rw [List.append_nil]
    exact h.admits_of_same hgate hfed
  · intro i out' hout' hpublishing
    have hadmits := hlive.eachOutput (fun i out hout => hout.encodeAudio (codecs i) _ frame _) hfed i
      out' hout' hpublishing
    rwa [hgate] at hadmits

/-- **An output that publishes after a step has been confirmed, then or before.** -/
theorem admits_of_step (hstep : machine t input more t') (h : t.Live) : t.Admits more t' := by
  cases input with
  | addOutput config =>
      obtain ⟨rfl, rfl⟩ := Prod.mk.inj (Except.ok.inj hstep)
      intro i out' hout' hpublishing
      have hout : t.outputs[i]? = some out' := by
        rcases List.getElem?_append .. ▸ hout' with hnew
        split at hnew
        · exact hnew
        · rw [List.getElem?_singleton] at hnew
          split at hnew
          · rw [← Option.some.inj hnew] at hpublishing
            cases hpublishing
          · cases hnew
      exact ⟨h i out' hout hpublishing, .inl ⟨out', hout, hpublishing⟩,
        fun e he => absurd he List.not_mem_nil⟩
  | start o =>
      obtain ⟨rfl, rfl⟩ := Prod.mk.inj (Except.ok.inj hstep)
      exact @Live.eachOutput _ _ [] h
        (fun i out hout => Output.admits_of_not_publishing (hout.publishing_start (o i)))
        fun _ _ => List.not_mem_nil
  | stop =>
      obtain ⟨rfl, rfl⟩ := Prod.mk.inj (Except.ok.inj hstep)
      intro i out' hout'
      cases hout'
  | onSourceMetadata width height fps sampleRate channels created =>
      obtain ⟨rfl, rfl⟩ := Prod.mk.inj (Except.ok.inj hstep)
      exact h.admits_of_same rfl fun _ _ => List.not_mem_nil
  | onVideoData data timestamp keyframe o =>
      have hok : t.onVideoData data timestamp keyframe o = .ok (t', more) := hstep
      rcases onVideoData_cases hok with
        ⟨size, rfl, hdecoder⟩ | ⟨annexB, frame, fed, -, -, -, hfed, rfl, rfl⟩
      · exact h.admits_of_same rfl (output_notMem hdecoder)
      · exact h.processVideoFrame o.codecs frame (output_notMem hfed)
  | onAudioData data timestamp o =>
      have hpair : t.onAudioData data timestamp o = (t', more) := Except.ok.inj hstep
      rcases onAudioData_cases hpair with
        ⟨decoder, initialized, rfl, hdecoder⟩ | ⟨aac, frame, fed, -, -, -, hfed, rfl, rfl⟩
      · exact h.admits_of_same rfl (output_notMem hdecoder)
      · exact h.processAudioFrame o.codecs frame (output_notMem hfed)
  | connected k =>
      obtain ⟨rfl, rfl⟩ := Prod.mk.inj (Except.ok.inj hstep)
      exact h.callback fun out hout _ => hout.onConnected
  | message k stale msg =>
      have hpair : t.onMessage k stale msg = (t', more) := Except.ok.inj hstep
      have hcallback (t : Transcoder) (h : t.Live) :
          t.Admits (t.callback k fun out => out.onMessage t.actualAudioSampleRate stale msg).2
            (t.callback k fun out => out.onMessage t.actualAudioSampleRate stale msg).1 :=
        h.callback fun out hout hopen => hout.onMessage hopen stale msg
      have hmessage : t.Admits (t.onMessage k stale msg).2 (t.onMessage k stale msg).1 := by
        unfold Transcoder.onMessage
        simp only
        split
        · have hsame := (startPublishing_same t).1
          have hlive : t.startPublishing.Live := fun i out hout => h i out (hsame ▸ hout)
          have hadmits := hcallback t.startPublishing hlive
          unfold Admits at hadmits
          rwa [hsame] at hadmits
        · exact hcallback t h
      rwa [hpair] at hmessage
  | disconnected k =>
      obtain ⟨rfl, rfl⟩ := Prod.mk.inj (Except.ok.inj hstep)
      exact h.callback fun out _ _ => Output.admits_of_not_publishing rfl

/-- What a confirmation does: it is noted, and then the headers are sent. -/
theorem onMessage_confirms {stale : UInt64} {msg : Message} {out : Output}
    (hconfirm : isPublishConfirmation stale msg = true) (hout : t.listening i = some out) :
    ∃ headers, (t.onMessage i stale msg).2 = .output i .confirmed :: headers ∧
      ∀ event ∈ headers, ¬ EndsPeriod i event := by
  have hsame := startPublishing_same t
  have hlistening : t.startPublishing.listening i = some out := by
    rw [listening, hsame.1]
    exact hout
  have hpublish : ∃ rest, (out.onPublishReady t.actualAudioSampleRate).2 = .confirmed :: rest := ⟨_, rfl⟩
  obtain ⟨rest, hrest⟩ := hpublish
  refine ⟨rest.map (.output i), ?_, ?_⟩
  · unfold Transcoder.onMessage
    simp only
    rw [if_pos ⟨by rw [hout]; rfl, hconfirm⟩, callback, hlistening]
    simp only
    rw [hsame.2, Output.onMessage_of_isPublishConfirmation hconfirm, hrest]
    rfl
  · rintro event hevent ⟨e, hends, rfl⟩
    obtain ⟨e', he', heq⟩ := List.mem_map.1 hevent
    cases heq
    have hmem : e ∈ (out.onPublishReady t.actualAudioSampleRate).2 := by
      rw [hrest]
      exact List.mem_cons_of_mem _ he'
    exact Output.not_endsPeriod_onPublishReady hmem hends

/-! ### The client of an output -/

/-- What the transcoder is told by the client of the output `i`. -/
def told (i : ℕ) (stale : UInt64) (out : List LoopOutput) : List TranscoderInput :=
  out.filterMap fun
    | .did .connectedCallback => some (.connected i)
    | .did (.messageCallback msg) => some (.message i stale msg)
    | .did .disconnectedCallback => some (.disconnected i)
    | _ => none

/-- The output `i` has a client, which has a socket if `b` says so. -/
def HasSocket (t : Transcoder) (i : ℕ) (b : Bool) : Prop :=
  ∃ out, t.outputs[i]? = some out ∧ out.socketOpen = b

theorem HasSocket.listening {out : Output} (hout : t.outputs[i]? = some out)
    (hopen : out.socketOpen = true) :
    t.listening i = some out := by
  rw [Transcoder.listening, hout, Option.filter_some, if_pos hopen]

/-- A callback is heard if there is a socket, and changes what it changes. -/
theorem HasSocket.callback {f : Output → Output × List OutputEvent} {b : Bool} (h : t.HasSocket i true)
    (hf : ∀ out : Output, out.socketOpen = true → (f out).1.socketOpen = b) :
    (t.callback i f).1.HasSocket i b ∧ (t.listening i).isSome = true := by
  obtain ⟨out, hout, hopen⟩ := h
  have hlistening := HasSocket.listening hout hopen
  refine ⟨⟨(f out).1, ?_, hf out hopen⟩, by rw [hlistening]; rfl⟩
  obtain ⟨hi, -⟩ := List.getElem?_eq_some_iff.1 hout
  unfold Transcoder.callback
  rw [hlistening]
  simp only [List.getElem?_set_self hi]

theorem HasSocket.onMessage (h : t.HasSocket i true) (stale : UInt64) (msg : Message) :
    (t.onMessage i stale msg).1.HasSocket i true ∧ (t.listening i).isSome = true := by
  have hsame := (startPublishing_same t).1
  have hstarted : t.startPublishing.HasSocket i true := by
    unfold HasSocket
    rwa [hsame]
  have hkeeps (rate : UInt32) (out : Output) (hopen : out.socketOpen = true) :
      (out.onMessage rate stale msg).1.socketOpen = true := by
    rw [out.socketOpen_onMessage, hopen]
  refine ⟨?_, (h.callback (hkeeps t.actualAudioSampleRate)).2⟩
  unfold Transcoder.onMessage
  simp only
  split
  · exact (hstarted.callback (hkeeps _)).1
  · exact (h.callback (hkeeps _)).1

/-- The end of the connection is heard if there is a socket, and there is none afterwards. -/
theorem HasSocket.onDisconnected {b : Bool} (h : t.HasSocket i b) :
    (t.callback i Output.onDisconnected).1.HasSocket i false := by
  cases b with
  | true => exact (h.callback (f := Output.onDisconnected) fun _ _ => rfl).1
  | false =>
      obtain ⟨out, hout, hclosed⟩ := h
      have hnobody : t.listening i = none := by
        rw [Transcoder.listening, hout, Option.filter_some, if_neg (by rw [hclosed]; decide)]
      unfold Transcoder.callback
      rw [hnobody]
      exact ⟨out, hout, hclosed⟩

/-- What is told is heard, if the transcoder listens as long as there is a socket. -/
theorem hears_told {b b' : Bool} {out : List LoopOutput} (htold : Told b out b') (h : t.HasSocket i b)
    (stale : UInt64) :
    ∃ trace t', Run machine t trace t' ∧ Machine.inputs trace = told i stale out ∧ t'.HasSocket i b' ∧
      ∀ m ∈ trace, m.input ≠ .disconnected i → (m.state.listening i).isSome = true := by
  induction htold generalizing t with
  | nil => exact ⟨[], t, .nil, rfl, h, fun _ hm => absurd hm List.not_mem_nil⟩
  | @quiet b b' e out hcalls hends _ ih =>
      obtain ⟨trace, t', hrun, hinputs, hsocket, hheard⟩ := ih h
      refine ⟨trace, t', hrun, ?_, hsocket, hheard⟩
      rw [hinputs, told, told, List.filterMap_cons]
      cases e with
      | accepted data => rfl
      | did event =>
          cases event with
          | write data => rfl
          | processInput data => rfl
          | connectedCallback => exact absurd trivial hcalls
          | messageCallback msg => exact absurd trivial hcalls
          | disconnectedCallback => exact absurd rfl hends
  | @callsBack b' e out hcalls _ ih =>
      cases e with
      | accepted data => exact hcalls.elim
      | did event =>
          cases event with
          | write data => exact hcalls.elim
          | processInput data => exact hcalls.elim
          | disconnectedCallback => exact hcalls.elim
          | connectedCallback =>
              obtain ⟨hsocket₁, hlistens⟩ := h.callback (f := Output.onConnected) fun out hopen => by
                rw [out.onConnected_fst]
                exact hopen
              obtain ⟨trace, t', hrun, hinputs, hsocket, hheard⟩ := ih hsocket₁
              refine ⟨⟨t, .connected i, _⟩ :: trace, t', .cons rfl hrun, ?_, hsocket, fun m hm hne => ?_⟩
              · rw [told, List.filterMap_cons]
                exact congrArg _ hinputs
              · rcases List.mem_cons.1 hm with rfl | hm
                · exact hlistens
                · exact hheard m hm hne
          | messageCallback msg =>
              obtain ⟨hsocket₁, hlistens⟩ := h.onMessage stale msg
              obtain ⟨trace, t', hrun, hinputs, hsocket, hheard⟩ := ih hsocket₁
              refine ⟨⟨t, .message i stale msg, _⟩ :: trace, t', .cons rfl hrun, ?_, hsocket,
                fun m hm hne => ?_⟩
              · rw [told, List.filterMap_cons]
                exact congrArg _ hinputs
              · rcases List.mem_cons.1 hm with rfl | hm
                · exact hlistens
                · exact hheard m hm hne
  | disconnected _ ih =>
      obtain ⟨trace, t', hrun, hinputs, hsocket, hheard⟩ := ih h.onDisconnected
      refine ⟨⟨t, .disconnected i, _⟩ :: trace, t', .cons rfl hrun, ?_, hsocket, fun m hm hne => ?_⟩
      · rw [told, List.filterMap_cons]
        exact congrArg _ hinputs
      · rcases List.mem_cons.1 hm with rfl | hm
        · exact absurd rfl hne
        · exact hheard m hm hne

/-- **The transcoder hears whatever the client of an output calls back**: it listens as long as the
client has a socket, whatever the client is asked besides to connect, and whatever events it is given. -/
theorem hears {policy : Rtmp.GrowthPolicy} {action : Rtmp.ClientAction} {c c' : Rtmp.EventClient}
    {out : List LoopOutput} (hcall : c.perform policy action = .ok (c', out))
    (haction : ∀ o, action ≠ .connect o) (h : t.HasSocket i c.socketOpen) (stale : UInt64) :
    ∃ trace t', Run machine t trace t' ∧ Machine.inputs trace = told i stale out ∧
      t'.HasSocket i c'.socketOpen ∧
      ∀ m ∈ trace, m.input ≠ .disconnected i → (m.state.listening i).isSome = true :=
  hears_told (Rtmp.EventClient.told_perform hcall haction) h stale

end Transcoder

/-! ### Runs -/

/-- Whatever publishes has a socket, and its confirmation is in force. -/
def Gated (log : List TranscoderEvent) (t : Transcoder) : Prop :=
  ∀ (i : ℕ) (out : Output), t.outputs[i]? = some out → out.publishing = true →
    out.socketOpen = true ∧ InForce (Confirmed i) (EndsPeriod i) log

variable {t t' : Transcoder} {input : TranscoderInput} {log more : List TranscoderEvent} {i : ℕ}

theorem Gated.live (h : Gated log t) : t.Live := fun i out hout hpublishing =>
  (h i out hout hpublishing).1

/-- **A step keeps the flags in line with the confirmations.** -/
theorem Gated.step (h : Gated log t) (hstep : Transcoder.machine t input more t') :
    Gated (log ++ more) t' := by
  intro i out' hout' hpublishing
  obtain ⟨hopen, hcause, hends⟩ := Transcoder.admits_of_step hstep h.live i out' hout' hpublishing
  have hcloses : ∀ event ∈ more, ¬ EndsPeriod i event := by
    rintro event hevent ⟨e, hend, rfl⟩
    exact hends e hevent hend
  refine ⟨hopen, ?_⟩
  rcases hcause with ⟨out, hout, hbefore⟩ | hconfirmed
  · exact (h i out hout hbefore).2.append hcloses
  · exact Machine.inForce_append_of_opens ⟨_, hconfirmed, rfl⟩ hcloses

/-- **A step sends media only where the confirmation is in force.** -/
theorem Gated.guarded_step (h : Gated log t) (hstep : Transcoder.machine t input more t')
    (hlog : Guarded (Sends i IsMedia) (Confirmed i) (EndsPeriod i) log) :
    Guarded (Sends i IsMedia) (Confirmed i) (EndsPeriod i) (log ++ more) := by
  by_cases hsends : ∃ event ∈ more, Sends i IsMedia event
  · obtain ⟨event, hevent, msg, hmedia, rfl⟩ := hsends
    rcases (Transcoder.caused_of_step hstep hevent).of_sendMessage hmedia.not_command with
      ⟨⟨out, hout, hpublishing⟩, hframe⟩ | ⟨stale, m, out, rfl, hconfirm, hout, -⟩
    · -- a frame has come in, and nothing else happens to the output
      refine hlog.append_of_inForce (h i out hout hpublishing).2 ?_
      rintro event hevent ⟨e, hends, rfl⟩
      obtain ⟨track, msg', -, rfl⟩ := hframe e (Transcoder.caused_of_step hstep hevent)
      exact hends
    · -- the confirmation has come in, and the headers are behind it
      obtain ⟨headers, hmore, hcloses⟩ := Transcoder.onMessage_confirms hconfirm hout
      have hpair : t.onMessage i stale m = (t', more) := Except.ok.inj hstep
      rw [hpair] at hmore
      have hmore : more = .output i .confirmed :: headers := hmore
      rw [hmore, List.append_cons]
      refine Guarded.append_of_inForce ?_ (Machine.inForce_snoc.2 (.inl rfl)) hcloses
      refine Machine.guarded_snoc.2 ⟨hlog, ?_⟩
      rintro ⟨msg', -, heq⟩
      cases heq
  · exact hlog.append_of_not_uses fun event hevent hsend => hsends ⟨event, hevent, hsend⟩

/-- A confirmation is noted when the upstream of the output sends one, on the connection that stands. -/
theorem confirms_of_confirmed {m : Moment Transcoder TranscoderInput TranscoderEvent}
    (hstep : Transcoder.machine m.state m.input m.outputs t') (h : m.Emits (Confirmed i)) :
    Confirms i (fun out => out.socketOpen = true) m := by
  obtain ⟨t, input, log⟩ := m
  obtain ⟨event, hevent, rfl⟩ := h
  have hcaused := Transcoder.caused_of_step hstep hevent
  cases hcaused with
  | started _ hmem =>
      rcases Output.mem_start hmem with heq | heq | ⟨host, port, heq⟩
      · cases heq
      · cases heq
      · cases heq
  | stopped _ hmem =>
      rcases List.mem_append.1 hmem with hmem | hmem
      · cases Output.mem_destroyClient hmem
      · cases List.mem_singleton.1 hmem
  | @connected _ _ out _ _ hmem =>
      rcases out.onConnected_cases with heq | ⟨cmd, heq⟩
      · rw [heq] at hmem
        cases hmem
      · rw [heq] at hmem
        rcases List.mem_pair.1 hmem with heq | heq
        · cases heq
        · cases heq
  | @message stale msg _ _ out _ hout hmem =>
      have hopen : out.socketOpen = true := by
        rw [Transcoder.listening, Option.filter_eq_some_iff] at hout
        exact hout.2
      cases hconfirm : isPublishConfirmation stale msg with
      | true => exact ⟨stale, msg, out, rfl, hconfirm, hout, hopen⟩
      | false =>
          rcases @Output.onMessage_cases out t.actualAudioSampleRate stale msg hconfirm with
            heq | heq | heq | ⟨streamId, publishMsg, -, heq⟩
          · rw [heq] at hmem
            cases hmem
          · rw [heq] at hmem
            rcases List.mem_pair.1 hmem with heq | heq
            · cases heq
            · cases heq
          · rw [heq] at hmem
            cases List.mem_singleton.1 hmem
          · rw [heq] at hmem
            rcases List.mem_pair.1 hmem with heq | heq
            · cases heq
            · cases heq
  | disconnected _ hmem => cases List.mem_singleton.1 hmem

/-- **Media is sent only on a connection that has been confirmed**: between an `onStatus` of the
upstream that says so, which has come on the connection that stands, and the end of the publishing
period, whatever happens to the output before. -/
theorem media_gated {trace : List (Moment Transcoder TranscoderInput TranscoderEvent)}
    (hrun : Run Transcoder.machine {} trace t) (i : ℕ) :
    Guarded (Sends i IsMedia) (Confirmed i) (EndsPeriod i) (Machine.outputs trace) ∧
      ∀ m ∈ trace, m.Emits (Confirmed i) → Confirms i (fun out => out.socketOpen = true) m := by
  constructor
  · have hboth : Gated (Machine.outputs trace) t ∧
        Guarded (Sends i IsMedia) (Confirmed i) (EndsPeriod i) (Machine.outputs trace) := by
      induction hrun with
      | nil => exact ⟨fun i out hout => absurd hout (by simp), Machine.guarded_nil⟩
      | snoc _ hstep ih =>
          obtain ⟨hgated, hguarded⟩ := ih
          rw [Machine.outputs_snoc]
          exact ⟨hgated.step hstep, hgated.guarded_step hstep hguarded⟩
    exact hboth.2
  · intro m hm
    obtain ⟨t', hstep⟩ := hrun.step_of_mem hm
    exact confirms_of_confirmed hstep

/-- Media is sent when the output has been confirmed. -/
theorem media_gated_picture :
    ∃ trace t, Run Transcoder.machine {} trace t ∧ picturePushed 0 ∈ Machine.outputs trace ∧
      Guarded (Sends 0 IsMedia) (Confirmed 0) (EndsPeriod 0) (Machine.outputs trace) := by
  obtain ⟨t, trace, hreplay, -, hout⟩ := replay_bare
  have hrun : Run Transcoder.machine {} trace t := Machine.run_of_replay hreplay
  refine ⟨trace, t, hrun, ?_, (media_gated hrun 0).1⟩
  rw [hout]
  exact List.mem_append_right _ (List.mem_singleton_self _)

end Transcode
