/-
**The transcoder.**

`src/transcode/transcoder.cpp` decodes what a publisher sends, and for each of its outputs scales and
encodes it, and pushes the packets upstream once the upstream has confirmed that it is published.
Frames are let through from a base timestamp on, one for video and one for audio, which are set when
the first frames come in after the first confirmation.

An output is known by its index.  Its client calls back only as long as it has a socket
(`ClientLoop.lean`): when it has cleaned up it is not registered any more, and cleaning up is what ends
in the disconnected callback, also when the client is destroyed.  What `getaddrinfo`, the sockets and
the codecs answer is part of the input.  Pending packets, which nothing is ever put into, the name of
an output, what is known of the source, statistics and logging are left out.

Main definitions:

* `Transcode.Output` — an output, with what is done for it;
* `Transcode.Transcoder` — the transcoder, with its handlers;
* `Transcode.Transcoder.perform` — the transcoder as a machine.

Main results:

* `Transcode.Transcoder.mem_eachOutput`, `Transcode.Transcoder.mem_callback` — what is done for all
  outputs, and for one.
-/

import RtmpTranscoder.Flv
import RtmpTranscoder.Relay

set_option relaxedAutoImplicit false
set_option autoImplicit false

namespace Transcode

open Amf0 (ObjectType)
open Relay (ClientCall createStreamCmd publishCmd)
open Rtmp (Failure Message MessageType CommandMessage parseAddress)
open Text

/-- `OutputConfig`. -/
structure OutputConfig where
  width : ℤ
  height : ℤ
  videoBitrateKbps : ℤ
  audioBitrateKbps : ℤ
  rtmpUrl : List UInt8

/-- `Transcoder::Output`.  `socketOpen` says that its client has a socket. -/
structure Output where
  config : OutputConfig
  scaler : Scaler := {}
  videoEncoder : H264Encoder := {}
  audioEncoder : AACEncoder := {}
  socketOpen : Bool := false
  connected : Bool := false
  publishing : Bool := false
  videoInitialized : Bool := false
  audioInitialized : Bool := false
  streamId : UInt32 := 0

/-- What happens to an output: its client is asked something, publishing is confirmed, it has not been
given a stream, its connection has ended, or it is no more. -/
inductive OutputEvent where
  | client (call : ClientCall)
  | confirmed
  | refused
  | disconnected
  | removed

/-- What the codecs of an output answer for a picture. -/
structure VideoCodecs where
  created : EncoderConfig → Bool
  i420Scale : VideoFrame → VideoFrame → Except ℤ VideoFrame
  encodeFrame : VideoFrame → Except ℤ FrameInfo

/-- What the encoder of an output answers for sound. -/
structure AudioCodecs where
  setup : ℤ → ℤ → ℤ → AacSetup
  encodeFrame : List UInt16 → Except ℤ (List UInt8)

/-- What `start` finds for an output. -/
structure StartOutcome where
  resolve : List UInt8 → Except Failure (List UInt8)
  socket : Bool

/-! ### Commands -/

/-- The command `connect`. -/
def connectCmd (app tcUrl : List UInt8) : CommandMessage where
  name := ascii "connect"
  transactionId := 0x3FF0000000000000
  arguments := [.object (((ObjectType.empty.set (ascii "app") (.string app)).set (ascii "type")
    (.string (ascii "nonprivate"))).set (ascii "tcUrl") (.string tcUrl))]

/-- The stream that an answer to `createStream` gives. -/
def createdStream (cmd : CommandMessage) : Option UInt32 :=
  match cmd.arguments with
  | _ :: stream :: _ => stream.asNumber?.map Amf0.toUInt32
  | _ => none

/-- The code of an `onStatus`. -/
def statusCode (cmd : CommandMessage) : Option (List UInt8) :=
  match cmd.arguments with
  | _ :: ⟨.object fields, _⟩ :: _ =>
      match fields.lookup (ascii "code") with
      | some (.string code) => some code
      | _ => none
  | _ => none

/-- A message confirms that the stream is published. -/
def isPublishConfirmation (stale : UInt64) (msg : Message) : Bool :=
  msg.typeId == MessageType.commandAMF0.code &&
    match CommandMessage.parse stale msg.payload with
    | none => false
    | some cmd => cmd.name == ascii "onStatus" &&
        statusCode cmd == some (ascii "NetStream.Publish.Start")

namespace Output

/-! ### Pushing -/

/-- `Transcoder::push_video_packet`. -/
def pushVideoPacket (out : Output) (packet : EncodedPacket) : List OutputEvent :=
  if !out.publishing then []
  else
    [.client (.sendMessage
      { typeId := MessageType.video.code
        timestamp := packet.timestamp
        streamId := out.streamId
        payload := buildFlvVideoPacket packet })]

/-- `Transcoder::push_audio_packet`. -/
def pushAudioPacket (out : Output) (actualAudioSampleRate : UInt32) (packet : EncodedPacket) :
    List OutputEvent :=
  if !out.publishing then []
  else
    [.client (.sendMessage
      { typeId := MessageType.audio.code
        timestamp := packet.timestamp
        streamId := out.streamId
        payload := buildFlvAudioPacket actualAudioSampleRate packet })]

/-- What `process_video_frame` does before the first picture of an output. -/
def initializeVideo (out : Output) (codecs : VideoCodecs) (frame : VideoFrame) : Output × Bool :=
  if out.videoInitialized then (out, true)
  else
    let (encoder, ok) := out.videoEncoder.initializeWith codecs.created
      { width := out.config.width
        height := out.config.height
        bitrateKbps := out.config.videoBitrateKbps
        fps := 30
        gopSize := 60 }
    let out := { out with videoEncoder := encoder }
    if !ok then (out, false)
    else
      let (scaler, ok) := Scaler.initializeWith frame.width frame.height out.config.width
        out.config.height
      let out := { out with scaler := scaler }
      if !ok then (out, false) else ({ out with videoInitialized := true }, true)

/-- The loop of `process_video_frame`. -/
def encodeVideo (out : Output) (codecs : VideoCodecs) (frame : VideoFrame) (outputTs : UInt32) :
    Output × List OutputEvent :=
  let (out, ok) := out.initializeVideo codecs frame
  if !ok then (out, [])
  else
    match out.scaler.scale codecs.i420Scale frame with
    | none => (out, [])
    | some scaled =>
        let (encoder, packets) := out.videoEncoder.encode codecs.encodeFrame scaled
        let out := { out with videoEncoder := encoder }
        (out, (packets.getD []).flatMap fun packet =>
          out.pushVideoPacket { packet with timestamp := outputTs })

/-- What `process_audio_frame` does before the first sound of an output. -/
def initializeAudio (out : Output) (codecs : AudioCodecs) (frame : AudioFrame) : Output × Bool :=
  if out.audioInitialized then (out, true)
  else
    let (encoder, ok) := out.audioEncoder.initializeWith codecs.setup frame.sampleRate frame.channels
      out.config.audioBitrateKbps
    let out := { out with audioEncoder := encoder }
    if !ok then (out, false) else ({ out with audioInitialized := true }, true)

/-- The loop of `process_audio_frame`. -/
def encodeAudio (out : Output) (codecs : AudioCodecs) (actualAudioSampleRate : UInt32)
    (frame : AudioFrame) (outputTs : UInt32) : Output × List OutputEvent :=
  let (out, ok) := out.initializeAudio codecs frame
  if !ok then (out, [])
  else
    (out, ((out.audioEncoder.encode codecs.encodeFrame frame).getD []).flatMap fun packet =>
      out.pushAudioPacket actualAudioSampleRate { packet with timestamp := outputTs })

/-! ### The client -/

/-- `Transcoder::on_publish_ready`, up to what it changes of the transcoder. -/
def onPublishReady (out : Output) (actualAudioSampleRate : UInt32) : Output × List OutputEvent :=
  let sps := out.videoEncoder.sps
  let pps := out.videoEncoder.pps
  let asc := out.audioEncoder.asc
  let video : List OutputEvent :=
    if out.videoInitialized ∧ sps ≠ [] ∧ pps ≠ [] then
      [.client (.sendMessage
          { typeId := MessageType.video.code
            timestamp := 0
            streamId := out.streamId
            payload := buildAvcDecoderConfig sps pps }), .client .flush]
    else []
  let audio : List OutputEvent :=
    if out.audioInitialized ∧ asc ≠ [] then
      [.client (.sendMessage
          { typeId := MessageType.audio.code
            timestamp := 0
            streamId := out.streamId
            payload := buildAacSequenceHeader actualAudioSampleRate asc }), .client .flush]
    else []
  ({ out with publishing := true }, .confirmed :: video ++ audio)

/-- The connected callback. -/
def onConnected (out : Output) : Output × List OutputEvent :=
  let out := { out with connected := true }
  let url := out.config.rtmpUrl
  let protoEnd := find url (ascii "://") 0
  if protoEnd = npos then (out, [])
  else
    let pathStart := find url (ascii "/") (protoEnd + 3)
    if pathStart = npos then (out, [])
    else
      let path := substr url pathStart
      let appEnd := find path (ascii "/") 1
      let app := if appEnd ≠ npos then substr path 1 (appEnd - 1) else substr path 1
      if app.isEmpty then (out, [])
      else
        (out, [.client (.sendCommand (connectCmd app (substr url 0 (pathStart + app.length + 1)))),
          .client .flush])

/-- The name of the stream that is published: the last component of the URL. -/
def streamName (out : Output) : List UInt8 :=
  let lastSlash := rfind out.config.rtmpUrl 47
  if lastSlash ≠ npos then substr out.config.rtmpUrl (lastSlash + 1) else ascii "stream"

/-- The message callback. -/
def onMessage (out : Output) (actualAudioSampleRate : UInt32) (stale : UInt64) (msg : Message) :
    Output × List OutputEvent :=
  if msg.typeId = MessageType.commandAMF0.code then
    match CommandMessage.parse stale msg.payload with
    | none => (out, [])
    | some cmd =>
        if cmd.name = ascii "_result" then
          if cmd.transactionId = 0x3FF0000000000000 then
            (out, [.client (.sendCommand createStreamCmd), .client .flush])
          else if cmd.transactionId = 0x4000000000000000 then
            match createdStream cmd with
            | none => ({ out with connected := false, publishing := false }, [.refused])
            | some streamId =>
                let out := { out with streamId := streamId }
                (out,
                  [.client (.sendMessage
                    { typeId := MessageType.commandAMF0.code
                      timestamp := 0
                      streamId := streamId
                      payload := (publishCmd out.streamName).encode }), .client .flush])
          else (out, [])
        else if cmd.name = ascii "onStatus" then
          if statusCode cmd = some (ascii "NetStream.Publish.Start") then
            out.onPublishReady actualAudioSampleRate
          else (out, [])
        else (out, [])
  else (out, [])

/-- The disconnected callback, which comes when the client has closed its socket. -/
def onDisconnected (out : Output) : Output × List OutputEvent :=
  ({ out with socketOpen := false, connected := false, publishing := false }, [.disconnected])

/-- The destruction of the client. -/
def destroyClient (out : Output) : Output × List OutputEvent :=
  if out.socketOpen then out.onDisconnected else (out, [])

/-- The loop of `Transcoder::start`: the old client gives way to a new one, which is connected. -/
def start (out : Output) (o : StartOutcome) : Output × List OutputEvent :=
  let (out, gone) := out.destroyClient
  let url := out.config.rtmpUrl
  let protoEnd := find url (ascii "://") 0
  if protoEnd = npos then (out, gone ++ [.client .create])
  else
    let hostStart := protoEnd + 3
    let pathStart := find url (ascii "/") hostStart
    match parseAddress o.resolve (substr url hostStart (sizeSub pathStart hostStart)) with
    | .error _ => (out, gone ++ [.client .create])
    | .ok (host, port) =>
        ({ out with socketOpen := o.socket }, gone ++ [.client .create, .client (.connect host port)])

end Output

/-- `Transcoder`, up to its event loop. -/
structure Transcoder where
  videoDecoder : H264Decoder := {}
  audioDecoder : AACDecoder := {}
  outputs : List Output := []
  audioInitialized : Bool := false
  naluLengthSize : ℕ := 4
  baseVideoTimestamp : UInt32 := 0
  baseAudioTimestamp : UInt32 := 0
  baseVideoTimestampSet : Bool := false
  baseAudioTimestampSet : Bool := false
  publishingStarted : Bool := false
  actualAudioSampleRate : UInt32 := 44100

/-- What a transcoder does: its decoders are given something, or something happens to an output. -/
inductive TranscoderEvent where
  | videoDecoder (data : List UInt8)
  | audioDecoder (data : List UInt8)
  | output (i : ℕ) (event : OutputEvent)

/-- What the codecs answer for a video message. -/
structure VideoOutcome where
  decodeFrame : List UInt8 → Except ℤ (Option Picture)
  codecs : ℕ → VideoCodecs

/-- What the codecs answer for an audio message. -/
structure AudioOutcome where
  opened : Bool
  configRaw : List UInt8 → Bool
  decodeFrame : List UInt8 → List UInt8 → Option PcmInfo
  codecs : ℕ → AudioCodecs

/-- What is asked of a transcoder, by whoever uses it and by the clients of its outputs. -/
inductive TranscoderInput where
  | addOutput (config : OutputConfig)
  | start (o : ℕ → StartOutcome)
  | stop
  | onSourceMetadata (width height fps sampleRate channels : ℤ) (created : Bool)
  | onVideoData (data : List UInt8) (timestamp : UInt32) (keyframe : Bool) (o : VideoOutcome)
  | onAudioData (data : List UInt8) (timestamp : UInt32) (o : AudioOutcome)
  | connected (i : ℕ)
  | message (i : ℕ) (stale : UInt64) (msg : Message)
  | disconnected (i : ℕ)

/-- The passthrough of timestamps. -/
def outputTimestamp (base timestamp : UInt32) : UInt32 :=
  if base ≤ timestamp then timestamp - base else 0

namespace Transcoder

/-- Something is done for each of the outputs. -/
def eachOutput (t : Transcoder) (f : ℕ → Output → Output × List OutputEvent) :
    Transcoder × List TranscoderEvent :=
  ({ t with outputs := t.outputs.mapIdx fun i out => (f i out).1 },
    (t.outputs.mapIdx fun i out => (f i out).2.map (TranscoderEvent.output i)).flatten)

/-- The output `i`, if its client calls back. -/
def listening (t : Transcoder) (i : ℕ) : Option Output :=
  (t.outputs[i]?).filter fun out => out.socketOpen

/-- The client of an output calls back. -/
def callback (t : Transcoder) (i : ℕ) (f : Output → Output × List OutputEvent) :
    Transcoder × List TranscoderEvent :=
  match t.listening i with
  | none => (t, [])
  | some out => ({ t with outputs := t.outputs.set i (f out).1 }, (f out).2.map (.output i))

/-! ### Frames -/

/-- Whether a picture is let through; the first keyframe after publishing has started sets the base. -/
def gateVideo (t : Transcoder) (frame : VideoFrame) : Transcoder × Bool :=
  if t.publishingStarted ∧ t.baseVideoTimestampSet = false then
    if frame.keyframe then
      ({ t with baseVideoTimestamp := frame.timestamp, baseVideoTimestampSet := true }, true)
    else (t, false)
  else (t, t.baseVideoTimestampSet)

/-- `Transcoder::process_video_frame`. -/
def processVideoFrame (t : Transcoder) (codecs : ℕ → VideoCodecs) (frame : VideoFrame) :
    Transcoder × List TranscoderEvent :=
  let (t, pass) := t.gateVideo frame
  if !pass then (t, [])
  else
    t.eachOutput fun i out =>
      out.encodeVideo (codecs i) frame (outputTimestamp t.baseVideoTimestamp frame.timestamp)

/-- Whether sound is let through; the first sound after publishing has started sets the base. -/
def gateAudio (t : Transcoder) (frame : AudioFrame) : Transcoder × Bool :=
  if t.publishingStarted ∧ t.baseAudioTimestampSet = false then
    ({ t with baseAudioTimestamp := frame.timestamp, baseAudioTimestampSet := true }, true)
  else (t, t.baseAudioTimestampSet)

/-- `Transcoder::process_audio_frame`. -/
def processAudioFrame (t : Transcoder) (codecs : ℕ → AudioCodecs) (frame : AudioFrame) :
    Transcoder × List TranscoderEvent :=
  let t := { t with actualAudioSampleRate := UInt32.ofInt frame.sampleRate }
  let (t, pass) := t.gateAudio frame
  if !pass then (t, [])
  else
    t.eachOutput fun i out =>
      out.encodeAudio (codecs i) t.actualAudioSampleRate frame
        (outputTimestamp t.baseAudioTimestamp frame.timestamp)

/-- The frames that a message is decoded to, one after the other. -/
def processFrames {α : Type} (process : Transcoder → α → Transcoder × List TranscoderEvent)
    (t : Transcoder) : List α → Transcoder × List TranscoderEvent
  | [] => (t, [])
  | frame :: frames =>
      let (t, out) := process t frame
      let (t, rest) := processFrames process t frames
      (t, out ++ rest)

/-! ### Handlers -/

/-- `Transcoder::on_video_data`.  Whether the message is a keyframe is not looked at. -/
def onVideoData (t : Transcoder) (data : List UInt8) (timestamp : UInt32) (_keyframe : Bool)
    (o : VideoOutcome) : Except Failure (Transcoder × List TranscoderEvent) := do
  let payload ← demuxVideo t.naluLengthSize data
  match payload with
  | .ignored => return (t, [])
  | .config naluLengthSize sets =>
      return ({ t with naluLengthSize := naluLengthSize },
        if t.videoDecoder.initialized then sets.map .videoDecoder else [])
  | .nalus annexB =>
      let fed := if t.videoDecoder.initialized then [TranscoderEvent.videoDecoder annexB] else []
      match t.videoDecoder.decode o.decodeFrame annexB timestamp with
      | none => return (t, fed)
      | some frames =>
          let (t, out) := processFrames (fun t frame => t.processVideoFrame o.codecs frame) t frames
          return (t, fed ++ out)

/-- `Transcoder::on_audio_data`. -/
def onAudioData (t : Transcoder) (data : List UInt8) (timestamp : UInt32) (o : AudioOutcome) :
    Transcoder × List TranscoderEvent :=
  match demuxAudio data with
  | .ignored => (t, [])
  | .config asc =>
      let (decoder, ok) := t.audioDecoder.initializeWith o.opened o.configRaw asc
      ({ t with audioDecoder := decoder, audioInitialized := t.audioInitialized || ok }, [])
  | .raw aac =>
      if !t.audioInitialized then (t, [])
      else
        let fed := if t.audioDecoder.initialized then [TranscoderEvent.audioDecoder aac] else []
        match t.audioDecoder.decode o.decodeFrame aac timestamp with
        | none => (t, fed)
        | some frames =>
            let (t, out) := processFrames (fun t frame => t.processAudioFrame o.codecs frame) t frames
            (t, fed ++ out)

/-- What `on_publish_ready` changes of the transcoder. -/
def startPublishing (t : Transcoder) : Transcoder :=
  if t.publishingStarted then t
  else
    { t with
      publishingStarted := true
      baseVideoTimestampSet := false
      baseAudioTimestampSet := false }

/-- The message callback of an output. -/
def onMessage (t : Transcoder) (i : ℕ) (stale : UInt64) (msg : Message) :
    Transcoder × List TranscoderEvent :=
  let t :=
    if (t.listening i).isSome ∧ isPublishConfirmation stale msg then t.startPublishing else t
  t.callback i fun out => out.onMessage t.actualAudioSampleRate stale msg

/-- `Transcoder::stop`. -/
def stop (t : Transcoder) : Transcoder × List TranscoderEvent :=
  let (_, out) := t.eachOutput fun _ out => (out, out.destroyClient.2 ++ [.removed])
  ({ t with outputs := [] }, out)

def perform (t : Transcoder) : TranscoderInput → Except Failure (Transcoder × List TranscoderEvent)
  | .addOutput config => .ok ({ t with outputs := t.outputs ++ [{ config := config }] }, [])
  | .start o => .ok (t.eachOutput fun i out => out.start (o i))
  | .stop => .ok t.stop
  | .onSourceMetadata _ _ _ _ _ created => .ok
      ({ t with videoDecoder := (t.videoDecoder.initializeWith created).1 }, [])
  | .onVideoData data timestamp keyframe o => t.onVideoData data timestamp keyframe o
  | .onAudioData data timestamp o => .ok (t.onAudioData data timestamp o)
  | .connected i => .ok (t.callback i Output.onConnected)
  | .message i stale msg => .ok (t.onMessage i stale msg)
  | .disconnected i => .ok (t.callback i Output.onDisconnected)

def machine : Machine.Step Transcoder TranscoderInput TranscoderEvent := Machine.ofFun perform

end Transcoder

/-! ### What happens to an output -/

namespace Transcoder

variable {t : Transcoder} {i j : ℕ} {e : OutputEvent}

theorem mem_eachOutput {f : ℕ → Output → Output × List OutputEvent} :
    .output i e ∈ (t.eachOutput f).2 ↔ ∃ out, t.outputs[i]? = some out ∧ e ∈ (f i out).2 := by
  simp only [eachOutput, List.mem_flatten, List.mem_mapIdx]
  constructor
  · rintro ⟨events, ⟨k, hk, rfl⟩, hmem⟩
    obtain ⟨event, hevent, heq⟩ := List.mem_map.1 hmem
    obtain ⟨rfl, rfl⟩ := TranscoderEvent.output.inj heq
    exact ⟨_, List.getElem?_eq_getElem hk, hevent⟩
  · rintro ⟨out, hout, hmem⟩
    obtain ⟨hi, rfl⟩ := List.getElem?_eq_some_iff.1 hout
    exact ⟨_, ⟨i, hi, rfl⟩, List.mem_map.2 ⟨e, hmem, rfl⟩⟩

theorem mem_callback {f : Output → Output × List OutputEvent} :
    .output j e ∈ (t.callback i f).2 ↔ j = i ∧ ∃ out, t.listening i = some out ∧ e ∈ (f out).2 := by
  unfold callback
  cases hlistening : t.listening i with
  | none => simp
  | some out =>
      simp only [List.mem_map, TranscoderEvent.output.injEq, Option.some.injEq, exists_eq_left']
      constructor
      · rintro ⟨event, hevent, rfl, rfl⟩
        exact ⟨rfl, hevent⟩
      · rintro ⟨rfl, hmem⟩
        exact ⟨e, hmem, rfl, rfl⟩

end Transcoder

end Transcode
