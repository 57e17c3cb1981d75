/-
**The stream that upstream has given.**

An upstream server answers `createStream` with the id of a stream, and what is published on it has to
carry this id.  The transcoder takes the id out of the answer: its `publish` command and whatever it
pushes carry it.  A pusher of the relay does not look at it: `Client::send_command` puts 0 into the
header of the `publish` command, and media keep the id under which a publisher has sent them.  So a
pusher honours the id exactly if it is 0, and so are those of the media that are held back and relayed.

Main definitions:

* `Relay.ClientCall.messageStreamId?` — the stream id in the header that a call sends;
* `Relay.CreatesStream` — an answer to `createStream`;
* `Relay.StreamAnswered`, `Relay.Carry` — a connection from the answer on, and what is sent on it.

Main results:

* `Relay.carry_iff` — **a pusher honours the id that it is given exactly if all are 0**;
* `Relay.not_carry` — a server that answers with 1;
* `Transcode.carries_created` — **what the transcoder sends carries the id that it is given**.
-/

import RtmpTranscoder.RelayQueue
import RtmpTranscoder.Session
import RtmpTranscoder.TranscoderSteps

set_option relaxedAutoImplicit false
set_option autoImplicit false

namespace Relay

open Machine (Run Moment)
open Rtmp (Message MessageType CommandMessage)
open Text

/-- The message stream id in the header of what a call sends.  Commands are sent on the chunk stream
3. -/
def ClientCall.messageStreamId? : ClientCall → Option UInt32
  | .sendCommand cmd => some (Rtmp.Session.commandHeader cmd.encode 3).messageStreamId
  | .sendMessage msg => some (Rtmp.Session.messageHeader msg).messageStreamId
  | _ => none

/-- A message answers `createStream`, and the id of the stream is `k`. -/
def CreatesStream (stale : UInt64) (msg : Message) (k : UInt32) : Prop :=
  msg.typeId = MessageType.commandAMF0.code ∧
    ∃ cmd, CommandMessage.parse stale msg.payload = some cmd ∧ cmd.name = ascii "_result" ∧
      cmd.transactionId = 0x4000000000000000 ∧ Transcode.createdStream cmd = some k

/-- In the step `answer` of a run a pusher is given the id `k`, and the steps `during` after it are on
the same connection. -/
structure StreamAnswered (before : List (Moment Pusher PusherEvent ClientCall))
    (answer : Moment Pusher PusherEvent ClientCall)
    (during after : List (Moment Pusher PusherEvent ClientCall)) (k : UInt32)
    (trace : List (Moment Pusher PusherEvent ClientCall)) : Prop where
  trace_eq : trace = before ++ (answer :: during) ++ after
  waits : answer.state.publishing = false
  creates : ∃ stale msg, answer.input = .message stale msg ∧ CreatesStream stale msg k
  lasts : ∀ m ∈ during, ¬ m.Emits IsCreate

/-- The `publish` command and all media that are sent carry the stream id `k`. -/
def Carry (k : UInt32) (steps : List (Moment Pusher PusherEvent ClientCall)) : Prop :=
  ∀ call ∈ Machine.outputs steps, IsPublish call ∨ IsMediaSend call →
    call.messageStreamId? = some k

variable {r : RelaySettings} {before during after trace : List (Moment Pusher PusherEvent ClientCall)}
  {answer : Moment Pusher PusherEvent ClientCall} {p p' : Pusher} {calls : List ClientCall}
  {k : UInt32}

/-! ### From the answer on -/

/-- A pusher that is given a stream publishes on it, and lets go what was held back. -/
theorem CreatesStream.handlePusherMessage {stale : UInt64} {msg : Message}
    (h : CreatesStream stale msg k) (hwaits : p.publishing = false) :
    handlePusherMessage p stale msg =
      ({ p with publishing := true, buffer := [], pendingBytes := 0 },
        .sendCommand (publishCmd p.streamId.stream) :: .flush :: p.buffer.map .sendMessage) := by
  obtain ⟨htype, cmd, hparse, hname, htransaction, -⟩ := h
  have hother : (0x4000000000000000 : UInt64) ≠ 0x3FF0000000000000 := by decide
  unfold Relay.handlePusherMessage
  rw [if_pos htype, hparse]
  simp only [hname, hwaits, htransaction, and_self, if_true, if_neg hother]

/-- While its connection lasts, a pusher that publishes goes on, hands over what is relayed, and does
not send `publish` again. -/
structure Publishing (trace : List (Moment Pusher PusherEvent ClientCall)) (p : Pusher) : Prop where
  publishing : p.publishing = true
  handed_eq : handed (Machine.outputs trace) = relayed trace
  silent : ∀ call ∈ Machine.outputs trace, ¬ IsPublish call

theorem Publishing.snoc (h : Publishing trace p) {event : PusherEvent}
    (hpublishing : p'.publishing = true)
    (hhanded : relayed (trace ++ [⟨p, event, calls⟩]) = relayed trace ++ handed calls)
    (hsilent : ∀ call ∈ calls, ¬ IsPublish call) : Publishing (trace ++ [⟨p, event, calls⟩]) p' := by
  refine ⟨hpublishing, ?_, ?_⟩
  · rw [Machine.outputs_snoc, handed_append, h.handed_eq, hhanded]
  · intro call hcall
    rw [Machine.outputs_snoc] at hcall
    rcases List.mem_append.1 hcall with hcall | hcall
    · exact h.silent call hcall
    · exact hsilent call hcall

/-- The commands that a pusher sends before it publishes are not `publish`. -/
theorem not_isPublish_of_name {cmd : CommandMessage} {name : List UInt8} (h : cmd.name = name)
    (hname : name ≠ ascii "publish") : ¬ IsPublish (.sendCommand cmd) := by
  rintro ⟨stream, heq⟩
  have hpublish := congrArg CommandMessage.name (ClientCall.sendCommand.inj heq)
  exact hname (h.symm.trans hpublish)

theorem Publishing.handle (h : Publishing trace p) (event : PusherEvent)
    (hcall : p.handle r event = (p', calls)) (hlasts : ∀ call ∈ calls, ¬ IsCreate call) :
    Publishing (trace ++ [⟨p, event, calls⟩]) p' := by
  have hrelayed := relayed_snoc trace p event calls
  cases event with
  | relay msg =>
      simp only [Pusher.handle, relayMessage, h.publishing, if_true] at hcall
      split at hcall
      · rename_i hmedia
        obtain ⟨rfl, rfl⟩ := Prod.mk.inj hcall
        refine h.snoc h.publishing ?_ (by simp)
        rw [hrelayed]
        simpa [handed] using hmedia
      · rename_i hmedia
        obtain ⟨rfl, rfl⟩ := Prod.mk.inj hcall
        refine h.snoc h.publishing ?_ (by simp [IsPublish])
        rw [hrelayed]
        simpa [handed] using hmedia
  | connected =>
      obtain ⟨rfl, rfl⟩ := Prod.mk.inj hcall
      refine h.snoc h.publishing hrelayed ?_
      intro call hmem
      rcases List.mem_pair.1 hmem with rfl | rfl
      · exact @not_isPublish_of_name _ (ascii "connect") rfl (by decide)
      · simp [IsPublish]
  | message stale msg =>
      rcases handlePusherMessage_cases p stale msg with hnothing | hcreate | ⟨hwaits, -⟩
      · obtain ⟨rfl, rfl⟩ := Prod.mk.inj (hcall.symm.trans hnothing)
        exact h.snoc h.publishing hrelayed (by simp)
      · obtain ⟨rfl, rfl⟩ := Prod.mk.inj (hcall.symm.trans hcreate)
        refine h.snoc h.publishing hrelayed ?_
        intro call hmem
        rcases List.mem_pair.1 hmem with rfl | rfl
        · exact @not_isPublish_of_name _ (ascii "createStream") rfl (by decide)
        · simp [IsPublish]
      · exact absurd (h.publishing.symm.trans hwaits) (by decide)
  | disconnected resolve =>
      -- the client is created anew, so that the connection does not last
      have hmem : ClientCall.create ∈ calls := by
        simp only [Pusher.handle, handlePusherDisconnected] at hcall
        split at hcall
        · rw [← (Prod.mk.inj hcall).2]
          exact List.mem_cons_self
        · rw [← (Prod.mk.inj hcall).2]
          exact List.mem_cons_self
      exact absurd rfl (hlasts _ hmem)

theorem publishing_of_run (hrun : Run (pusherMachine r) p trace p') (hp : p.publishing = true)
    (hlasts : ∀ m ∈ trace, ¬ m.Emits IsCreate) : Publishing trace p' := by
  refine hrun.invariant (P := fun m => ¬ m.Emits IsCreate) (I := Publishing) hlasts ?_ ?_
  · exact ⟨hp, rfl, by simp⟩
  · intro trace p event calls p' _ h hcreate hstep
    exact h.handle event hstep fun call hcall his => hcreate ⟨call, hcall, his⟩

/-- What is sent from the answer on: the `publish` command, what was held back, and what is relayed. -/
theorem carry_cons_iff {k' : UInt32} (hrun : Run (pusherMachine r) p during p')
    (hp : p.publishing = true) (hlasts : ∀ m ∈ during, ¬ m.Emits IsCreate) {stream : List UInt8}
    {buffer : List Message} (hanswer : answer.outputs =
      .sendCommand (publishCmd stream) :: .flush :: buffer.map .sendMessage) :
    Carry k' (answer :: during) ↔
      k' = 0 ∧ (∀ msg ∈ buffer, msg.streamId = k') ∧ ∀ msg ∈ relayed during, msg.streamId = k' := by
  have hduring := publishing_of_run hrun hp hlasts
  have houtputs : Machine.outputs (answer :: during) = (.sendCommand (publishCmd stream) :: .flush ::
      buffer.map .sendMessage) ++ Machine.outputs during := by
    rw [← hanswer]
    rfl
  have hsent : ∀ msg, msg ∈ relayed during ↔ .sendMessage msg ∈ Machine.outputs during := by
    intro msg
    rw [← hduring.handed_eq, handed, List.mem_filterMap]
    constructor
    · rintro ⟨call, hcall, heq⟩
      cases call with
      | sendMessage msg' =>
          rw [← Option.some.inj heq]
          exact hcall
      | _ => cases heq
    · exact fun hcall => ⟨_, hcall, rfl⟩
  constructor
  · intro hcarry
    rw [Carry, houtputs] at hcarry
    refine ⟨?_, ?_, ?_⟩
    · have hpublish := hcarry (.sendCommand (publishCmd stream)) (by simp) (.inl ⟨stream, rfl⟩)
      exact (Option.some.inj hpublish).symm
    · intro msg hmsg
      have hheld := hcarry (.sendMessage msg) (by simp [hmsg]) (.inr ⟨msg, rfl⟩)
      exact Option.some.inj hheld
    · intro msg hmsg
      have hlive := hcarry (.sendMessage msg) (List.mem_append_right _ ((hsent msg).1 hmsg))
        (.inr ⟨msg, rfl⟩)
      exact Option.some.inj hlive
  · rintro ⟨hzero, hbuffer, hrelayed⟩ call hcall hkind
    rw [houtputs, List.mem_append, List.mem_cons, List.mem_cons] at hcall
    rcases hcall with (rfl | rfl | hheld) | hcall
    · exact congrArg some hzero.symm
    · simp [IsPublish, IsMediaSend] at hkind
    · obtain ⟨msg, hmsg, rfl⟩ := List.mem_map.1 hheld
      exact congrArg some (hbuffer msg hmsg)
    · rcases hkind with hpublish | ⟨msg, rfl⟩
      · exact absurd hpublish (hduring.silent call hcall)
      · exact congrArg some (hrelayed msg ((hsent msg).2 hcall))

/-- **A pusher honours the stream id that it is given exactly if it is 0**, and so are the ids under
which the media that it holds back and those that it relays have been sent. -/
theorem carry_iff {streamId : StreamId} (hrun : Run (pusherMachine r) { streamId := streamId } trace p)
    (h : StreamAnswered before answer during after k trace) :
    Carry k (answer :: during) ↔
      k = 0 ∧ (∀ msg ∈ answer.state.buffer, msg.streamId = 0) ∧
        ∀ msg ∈ relayed during, msg.streamId = 0 := by
  obtain rfl := h.trace_eq
  obtain ⟨p₁, hupto, -⟩ := hrun.of_append
  obtain ⟨-, p₂, hstep, hduring⟩ := hupto.split
  obtain ⟨stale, msg, hinput, hcreates⟩ := h.creates
  have hhandle := hcreates.handlePusherMessage h.waits
  obtain ⟨rfl, houtputs⟩ : _ = p₂ ∧ _ = answer.outputs := by
    rw [pusherMachine, hinput, Pusher.handle, hhandle] at hstep
    exact Prod.mk.inj hstep
  rw [carry_cons_iff hduring rfl h.lasts houtputs.symm]
  constructor
  · rintro ⟨rfl, hall⟩
    exact ⟨rfl, hall⟩
  · rintro ⟨rfl, hall⟩
    exact ⟨rfl, hall⟩

/-! ### A server that gives a stream -/

/-- The answer to `connect`. -/
def connectResult : Message where
  typeId := MessageType.commandAMF0.code
  timestamp := 0
  streamId := 0
  payload := CommandMessage.encode ⟨ascii "_result", 0x3FF0000000000000, []⟩

/-- The answer to `createStream` with the number of a stream. -/
def streamCreated (number : UInt64) : Message where
  typeId := MessageType.commandAMF0.code
  timestamp := 0
  streamId := 0
  payload := CommandMessage.encode ⟨ascii "_result", 0x4000000000000000, [.null, .number number]⟩

theorem createsStream_streamCreated (stale number : UInt64) :
    CreatesStream stale (streamCreated number) (Amf0.toUInt32 number) := by
  have hname : (ascii "_result").length ≤ 65535 := by decide
  refine ⟨rfl, _, CommandMessage.parse_encode ⟨hname, ?_⟩ stale, rfl, rfl, rfl⟩
  intro v hv
  rcases List.mem_pair.1 hv with rfl | rfl
  · exact .null
  · exact .number number

theorem isMediaSend_of_mem_relayMessage {policy : RelayPolicy} {msg : Message} {call : ClientCall}
    (h : call ∈ (relayMessage policy p msg).2) : IsMediaSend call := by
  unfold relayMessage at h
  simp only at h
  split_ifs at h with hmedia hpublishing hfull
  · cases h
  · exact ⟨msg, List.mem_singleton.1 h⟩
  · split at h <;> cases h
  · cases h

/-- A pusher is connected, is given a stream, and relays a message. -/
theorem exists_answered (r : RelaySettings) (number : UInt64) (msg : Message) :
    ∃ (trace before during : List (Moment Pusher PusherEvent ClientCall))
      (answer : Moment Pusher PusherEvent ClientCall) (p : Pusher),
      Run (pusherMachine r) { streamId := {} } trace p ∧
        StreamAnswered before answer during [] (Amf0.toUInt32 number) trace ∧
        answer.state.buffer = [] ∧ answer.outputs = [.sendCommand (publishCmd []), .flush] ∧
        Machine.inputs during = [.relay msg] := by
  have hrun : Run (pusherMachine r) { streamId := {} } _ _ := .snoc (.snoc (.snoc (.snoc .nil
    (show Pusher.handle r _ .connected = (_, _) from rfl))
    (show Pusher.handle r _ (.message 0 connectResult) = (_, _) from rfl))
    (show Pusher.handle r _ (.message 0 (streamCreated number)) = (_, _) from rfl))
    (show Pusher.handle r _ (.relay msg) = (_, _) from rfl)
  have hanswer := (createsStream_streamCreated 0 number).handlePusherMessage
    (p := { streamId := {}, connected := true }) rfl
  refine ⟨_, [_, _], [_], _, _, hrun, ⟨rfl, rfl, ?_, ?_⟩, rfl, congrArg Prod.snd hanswer, rfl⟩
  · exact ⟨0, _, rfl, createsStream_streamCreated 0 number⟩
  · rintro m hm ⟨call, hcall, rfl⟩
    rw [List.mem_singleton.1 hm] at hcall
    obtain ⟨sent, hsent⟩ := isMediaSend_of_mem_relayMessage hcall
    cases hsent

/-- **An id is not honoured**: the server gives the stream 1, under which the publisher sends as well. -/
theorem not_carry :
    ¬ ∀ (r : RelaySettings) (streamId : StreamId)
      (trace before during after : List (Moment Pusher PusherEvent ClientCall))
      (answer : Moment Pusher PusherEvent ClientCall) (p : Pusher) (k : UInt32),
      Run (pusherMachine r) { streamId := streamId } trace p →
        StreamAnswered before answer during after k trace → Carry k (answer :: during) := by
  intro hall
  obtain ⟨trace, before, during, answer, p, hrun, hanswered, -, hout, -⟩ :=
    exists_answered {} 0x3FF0000000000000 ⟨9, 0, 1, [0x17, 1, 0, 0, 0]⟩
  have hone : Amf0.toUInt32 0x3FF0000000000000 = 1 := by decide +kernel
  have hcarry := hall {} {} trace before during [] answer p _ hrun hanswered
  have hpublish := hcarry (.sendCommand (publishCmd [])) ?_ (.inl ⟨[], rfl⟩)
  · rw [hone] at hpublish
    exact absurd hpublish (by decide)
  · have hsent : .sendCommand (publishCmd []) ∈ answer.outputs := by
      rw [hout]
      exact List.mem_cons_self
    exact List.mem_append_left _ hsent

/-- The server gives the stream 0, and the publisher sends under 0. -/
theorem carry_iff_zero :
    ∃ (trace before during : List (Moment Pusher PusherEvent ClientCall))
      (answer : Moment Pusher PusherEvent ClientCall) (p : Pusher),
      Run (pusherMachine {}) { streamId := {} } trace p ∧
      StreamAnswered before answer during [] 0 trace ∧
        relayed during = [⟨9, 0, 0, [0x17, 1, 0, 0, 0]⟩] ∧ Carry 0 (answer :: during) := by
  obtain ⟨trace, before, during, answer, p, hrun, hanswered, hbuffer, -, hinputs⟩ :=
    exists_answered {} 0 ⟨9, 0, 0, [0x17, 1, 0, 0, 0]⟩
  have hzero : Amf0.toUInt32 0 = 0 := by decide +kernel
  rw [hzero] at hanswered
  have hrelayed : relayed during = [⟨9, 0, 0, [0x17, 1, 0, 0, 0]⟩] := by
    rw [relayed, hinputs]
    rfl
  refine ⟨trace, before, during, answer, p, hrun, hanswered, hrelayed,
    (carry_iff hrun hanswered).2 ⟨rfl, ?_, ?_⟩⟩
  · rw [hbuffer]
    simp
  · rw [hrelayed]
    simp

end Relay

/-! ### What the transcoder sends -/

namespace Transcode

open Machine (Run Moment)
open Relay (ClientCall CreatesStream publishCmd)
open Rtmp (Message MessageType CommandMessage)
open Text

namespace Output

variable {out : Output}

/-- An output has the stream id `k`, and what has been sent carries it. -/
structure Carries (k : UInt32) (result : Output × List OutputEvent) : Prop where
  streamId_eq : result.1.streamId = k
  carries : ∀ msg, .client (.sendMessage msg) ∈ result.2 → msg.streamId = k

theorem Carries.encodeVideo (out : Output) (codecs : VideoCodecs) (frame : VideoFrame)
    (outputTs : UInt32) : Carries out.streamId (out.encodeVideo codecs frame outputTs) := by
  have hinit : (out.initializeVideo codecs frame).1.streamId = out.streamId := by
    unfold initializeVideo
    simp only
    split_ifs <;> rfl
  unfold Output.encodeVideo
  simp only
  split
  · exact ⟨hinit, by simp⟩
  · split
    · exact ⟨hinit, by simp⟩
    · refine ⟨hinit, fun msg hmsg => ?_⟩
      obtain ⟨packet, -, hpush⟩ := List.mem_flatMap.1 hmsg
      unfold pushVideoPacket at hpush
      split at hpush
      · cases hpush
      · cases List.mem_singleton.1 hpush
        exact hinit

theorem Carries.encodeAudio (out : Output) (codecs : AudioCodecs) (rate : UInt32) (frame : AudioFrame)
    (outputTs : UInt32) : Carries out.streamId (out.encodeAudio codecs rate frame outputTs) := by
  have hinit : (out.initializeAudio codecs frame).1.streamId = out.streamId := by
    unfold initializeAudio
    simp only
    split_ifs <;> rfl
  unfold Output.encodeAudio
  simp only
  split
  · exact ⟨hinit, by simp⟩
  · refine ⟨hinit, fun msg hmsg => ?_⟩
    obtain ⟨packet, -, hpush⟩ := List.mem_flatMap.1 hmsg
    unfold pushAudioPacket at hpush
    split at hpush
    · cases hpush
    · cases List.mem_singleton.1 hpush
      exact hinit

theorem Carries.onPublishReady (out : Output) (rate : UInt32) :
    Carries out.streamId (out.onPublishReady rate) := by
  refine ⟨rfl, fun msg hmsg => ?_⟩
  simp only [Output.onPublishReady, List.cons_append, List.mem_cons, List.mem_append, reduceCtorEq,
    false_or] at hmsg
  rcases hmsg with hvideo | haudio
  · split at hvideo
    · simp only [List.mem_cons, OutputEvent.client.injEq, ClientCall.sendMessage.injEq, reduceCtorEq,
        List.not_mem_nil, or_false] at hvideo
      rw [hvideo]
    · cases hvideo
  · split at haudio
    · simp only [List.mem_cons, OutputEvent.client.injEq, ClientCall.sendMessage.injEq, reduceCtorEq,
        List.not_mem_nil, or_false] at haudio
      rw [haudio]
    · cases haudio

theorem Carries.onConnected (out : Output) : Carries out.streamId out.onConnected := by
  unfold Output.onConnected
  simp only
  split_ifs <;> exact ⟨rfl, by simp⟩

theorem Carries.onDisconnected (out : Output) : Carries out.streamId out.onDisconnected :=
  ⟨rfl, by simp [Output.onDisconnected]⟩

theorem Carries.destroyClient (out : Output) : Carries out.streamId out.destroyClient := by
  unfold Output.destroyClient
  split
  · exact .onDisconnected out
  · exact ⟨rfl, by simp⟩

theorem Carries.start (out : Output) (o : StartOutcome) : Carries out.streamId (out.start o) := by
  obtain ⟨hstream, hcarries⟩ := Carries.destroyClient out
  unfold Output.start
  simp only
  split
  · exact ⟨hstream, fun msg hmsg => hcarries msg (by simpa using hmsg)⟩
  · split
    · exact ⟨hstream, fun msg hmsg => hcarries msg (by simpa using hmsg)⟩
    · exact ⟨hstream, fun msg hmsg => hcarries msg (by simpa using hmsg)⟩

/-- The `publish` command of an output that has been given the stream `k`. -/
def publishMessage (out : Output) (k : UInt32) : Message where
  typeId := MessageType.commandAMF0.code
  timestamp := 0
  streamId := k
  payload := (publishCmd out.streamName).encode

/-- An answer to `createStream` gives the output its stream id, and `publish` carries it. -/
theorem onMessage_of_createsStream {rate : UInt32} {stale : UInt64} {msg : Message} {k : UInt32}
    (h : CreatesStream stale msg k) :
    out.onMessage rate stale msg =
      ({ out with streamId := k },
        [.client (.sendMessage (out.publishMessage k)), .client .flush]) := by
  obtain ⟨htype, cmd, hparse, hname, htransaction, hcreated⟩ := h
  have hother : (0x4000000000000000 : UInt64) ≠ 0x3FF0000000000000 := by decide
  unfold Output.onMessage
  rw [if_pos htype, hparse]
  simp only [hname, htransaction, hcreated, if_true, if_neg hother]
  rfl

theorem Carries.answer {rate : UInt32} {stale : UInt64} {msg : Message} {k : UInt32}
    (h : CreatesStream stale msg k) : Carries k (out.onMessage rate stale msg) := by
  rw [onMessage_of_createsStream h]
  refine ⟨rfl, fun sent hsent => ?_⟩
  rcases List.mem_pair.1 hsent with heq | heq
  · cases heq
    rfl
  · cases heq

theorem Carries.onMessage {rate : UInt32} {stale : UInt64} {msg : Message}
    (h : ∀ k, ¬ CreatesStream stale msg k) : Carries out.streamId (out.onMessage rate stale msg) := by
  unfold Output.onMessage
  split
  · rename_i htype
    cases hparse : CommandMessage.parse stale msg.payload with
    | none => exact ⟨rfl, by simp⟩
    | some cmd =>
        simp only
        split_ifs with hname hconnect hcreate hstatus hcode
        · exact ⟨rfl, by simp⟩
        · cases hcreated : createdStream cmd with
          | none => exact ⟨rfl, by simp⟩
          | some k => exact absurd ⟨htype, cmd, hparse, hname, hcreate, hcreated⟩ (h k)
        · exact ⟨rfl, by simp⟩
        · exact .onPublishReady out rate
        · exact ⟨rfl, by simp⟩
        · exact ⟨rfl, by simp⟩
  · exact ⟨rfl, by simp⟩

end Output

namespace Transcoder

variable {t t' : Transcoder} {i : ℕ} {k : UInt32}

/-- The output `i` has the stream id `k`, and whatever is sent to its client carries it. -/
structure Carries (i : ℕ) (k : UInt32) (result : Transcoder × List TranscoderEvent) : Prop where
  has : ∃ out, result.1.outputs[i]? = some out ∧ out.streamId = k
  carries : ∀ msg, .output i (.client (.sendMessage msg)) ∈ result.2 → msg.streamId = k

theorem Carries.quiet {log : List TranscoderEvent}
    (h : ∃ out, t.outputs[i]? = some out ∧ out.streamId = k)
    (hlog : ∀ e, .output i e ∉ log) : Carries i k (t, log) :=
  ⟨h, fun _ hmem => absurd hmem (hlog _)⟩

theorem Carries.eachOutput {f : ℕ → Output → Output × List OutputEvent}
    (h : ∃ out, t.outputs[i]? = some out ∧ out.streamId = k)
    (hf : ∀ j (out : Output), Output.Carries out.streamId (f j out)) :
    Carries i k (t.eachOutput f) := by
  obtain ⟨out, hout, rfl⟩ := h
  refine ⟨⟨(f i out).1, ?_, (hf i out).streamId_eq⟩, fun msg hmsg => ?_⟩
  · simp only [Transcoder.eachOutput, List.getElem?_mapIdx, hout, Option.map_some]
  · obtain ⟨out', hout', hmem⟩ := mem_eachOutput.1 hmsg
    obtain rfl := Option.some.inj (hout.symm.trans hout')
    exact (hf i out).carries msg hmem

theorem Carries.own {out : Output} {f : Output → Output × List OutputEvent}
    (hlistens : t.listening i = some out) (hf : Output.Carries k (f out)) :
    Carries i k (t.callback i f) := by
  obtain ⟨hout, -⟩ := Option.filter_eq_some_iff.1 hlistens
  refine ⟨⟨(f out).1, ?_, hf.streamId_eq⟩, fun msg hmsg => ?_⟩
  · simp only [Transcoder.callback, hlistens]
    rw [List.getElem?_set_self (List.getElem?_eq_some_iff.1 hout).1]
  · obtain ⟨-, out', hlistens', hmem⟩ := mem_callback.1 hmsg
    obtain rfl := Option.some.inj (hlistens.symm.trans hlistens')
    exact hf.carries msg hmem

/-- Some client calls back; if it is that of the output, this must keep its stream id. -/
theorem Carries.callback {j : ℕ} {f : Output → Output × List OutputEvent}
    (h : ∃ out, t.outputs[i]? = some out ∧ out.streamId = k)
    (hf : ∀ out : Output, j = i → out.streamId = k → Output.Carries k (f out)) :
    Carries i k (t.callback j f) := by
  cases hlistens : t.listening j with
  | none =>
      simp only [Transcoder.callback, hlistens]
      exact .quiet h (by simp)
  | some out' =>
      obtain ⟨out, hout, hk⟩ := h
      by_cases hij : j = i
      · subst hij
        obtain ⟨hout', -⟩ := Option.filter_eq_some_iff.1 hlistens
        obtain rfl := Option.some.inj (hout.symm.trans hout')
        exact .own hlistens (hf out rfl hk)
      · refine ⟨⟨out, ?_, hk⟩, fun msg hmsg => absurd (mem_callback.1 hmsg).1.symm hij⟩
        simp only [Transcoder.callback, hlistens]
        rw [List.getElem?_set_ne hij]
        exact hout

theorem Carries.fed {result : Transcoder × List TranscoderEvent} {fed : List TranscoderEvent}
    (h : Carries i k result) (hfed : ∀ e ∈ fed, TranscoderEvent.IsDecoder e) :
    Carries i k (result.1, fed ++ result.2) := by
  refine ⟨h.has, fun msg hmsg => ?_⟩
  rcases List.mem_append.1 hmsg with hmem | hmem
  · exact absurd (hfed _ hmem) TranscoderEvent.IsDecoder.not_output
  · exact h.carries msg hmem

theorem Carries.processVideoFrame (h : ∃ out, t.outputs[i]? = some out ∧ out.streamId = k)
    (codecs : ℕ → VideoCodecs) (frame : VideoFrame) :
    Carries i k (t.processVideoFrame codecs frame) := by
  have hgate : ∃ out, (t.gateVideo frame).1.outputs[i]? = some out ∧ out.streamId = k := by
    rw [gateVideo_outputs]
    exact h
  unfold Transcoder.processVideoFrame
  simp only
  split
  · exact .quiet hgate (by simp)
  · exact .eachOutput hgate fun j out => .encodeVideo out ..

theorem Carries.processAudioFrame (h : ∃ out, t.outputs[i]? = some out ∧ out.streamId = k)
    (codecs : ℕ → AudioCodecs) (frame : AudioFrame) :
    Carries i k (t.processAudioFrame codecs frame) := by
  unfold Transcoder.processAudioFrame
  simp only
  split
  · refine .quiet ?_ (by simp)
    rw [gateAudio_outputs]
    exact h
  · refine .eachOutput ?_ fun j out => .encodeAudio out ..
    rw [gateAudio_outputs]
    exact h

/-- A message does what the output whose client calls back does with it. -/
theorem Carries.onMessage {j : ℕ} {stale : UInt64} {msg : Message}
    (h : ∃ out, t.outputs[i]? = some out ∧ out.streamId = k)
    (hf : ∀ out : Output, j = i → out.streamId = k →
      Output.Carries k (out.onMessage t.actualAudioSampleRate stale msg)) :
    Carries i k (t.onMessage j stale msg) := by
  obtain ⟨houtputs, hrate⟩ := startPublishing_same t
  unfold Transcoder.onMessage
  simp only
  split
  · refine .callback (by rw [houtputs]; exact h) fun out hij hk => ?_
    rw [hrate]
    exact hf out hij hk
  · exact .callback h hf

/-- An answer to `createStream` for the output `i`. -/
def IsAnswer (i : ℕ) (k : UInt32) (input : TranscoderInput) : Prop :=
  ∃ stale msg, input = .message i stale msg ∧ CreatesStream stale msg k

/-- **A step that is no answer to an output keeps its stream id**, unless the outputs are given up. -/
theorem Carries.step {input : TranscoderInput} {log : List TranscoderEvent}
    (h : ∃ out, t.outputs[i]? = some out ∧ out.streamId = k) (hstep : machine t input log t')
    (hstop : input ≠ .stop) (hanswer : ∀ k', ¬ IsAnswer i k' input) : Carries i k (t', log) := by
  cases input with
  | addOutput config =>
      obtain ⟨rfl, rfl⟩ := Prod.mk.inj (Except.ok.inj hstep)
      obtain ⟨out, hout, hk⟩ := h
      refine .quiet ⟨out, ?_, hk⟩ (by simp)
      rw [List.getElem?_append_left (List.getElem?_eq_some_iff.1 hout).1]
      exact hout
  | start o =>
      obtain ⟨rfl, rfl⟩ := Prod.mk.inj (Except.ok.inj hstep)
      exact .eachOutput h fun j out => .start out (o j)
  | stop => exact absurd rfl hstop
  | onSourceMetadata width height fps sampleRate channels created =>
      obtain ⟨rfl, rfl⟩ := Prod.mk.inj (Except.ok.inj hstep)
      exact .quiet h (by simp)
  | onVideoData data timestamp keyframe o =>
      have hvideo : t.onVideoData data timestamp keyframe o = .ok (t', log) := hstep
      rcases onVideoData_cases hvideo with
        ⟨size, rfl, hdecoder⟩ | ⟨annexB, frame, fed, -, -, -, hfed, rfl, rfl⟩
      · exact .quiet h fun e he => TranscoderEvent.IsDecoder.not_output (hdecoder _ he)
      · exact (Carries.processVideoFrame h _ _).fed hfed
  | onAudioData data timestamp o =>
      rcases onAudioData_cases (Except.ok.inj hstep) with
        ⟨decoder, initialized, rfl, hdecoder⟩ | ⟨aac, frame, fed, -, -, -, hfed, rfl, rfl⟩
      · exact .quiet h fun e he => TranscoderEvent.IsDecoder.not_output (hdecoder _ he)
      · exact (Carries.processAudioFrame h _ _).fed hfed
  | connected j =>
      have heq : t.callback j Output.onConnected = (t', log) := Except.ok.inj hstep
      rw [← heq]
      exact .callback h fun out _ hk => hk ▸ .onConnected out
  | message j stale msg =>
      have heq : t.onMessage j stale msg = (t', log) := Except.ok.inj hstep
      rw [← heq]
      refine .onMessage h fun out hij hk => ?_
      subst hij hk
      exact .onMessage fun k' hcreates => hanswer k' ⟨stale, msg, rfl, hcreates⟩
  | disconnected j =>
      have heq : t.callback j Output.onDisconnected = (t', log) := Except.ok.inj hstep
      rw [← heq]
      exact .callback h fun out _ hk => hk ▸ .onDisconnected out

variable {trace : List (Moment Transcoder TranscoderInput TranscoderEvent)}

/-- An answer that reaches the output gives it its stream id, and it sends `publish`. -/
theorem Carries.answer {out : Output} {stale : UInt64} {msg : Message}
    (hlistens : t.listening i = some out) (hcreates : CreatesStream stale msg k) :
    Carries i k (t.onMessage i stale msg) ∧
      .output i (.client (.sendMessage (out.publishMessage k))) ∈ (t.onMessage i stale msg).2 := by
  constructor
  · unfold Transcoder.onMessage
    simp only
    split
    · obtain ⟨houtputs, -⟩ := startPublishing_same t
      have hlistens' : t.startPublishing.listening i = some out := by
        rw [listening, houtputs]
        exact hlistens
      exact .own hlistens' (.answer hcreates)
    · exact .own hlistens (.answer hcreates)
  · refine mem_onMessage.2 ⟨rfl, out, hlistens, ?_⟩
    rw [Output.onMessage_of_createsStream hcreates]
    exact List.mem_cons_self

/-- Until it is given another, or the outputs are given up, an output keeps its stream id. -/
theorem carries_of_run (hrun : Run machine t trace t')
    (h : ∃ out, t.outputs[i]? = some out ∧ out.streamId = k)
    (hsteps : ∀ m ∈ trace, m.input ≠ .stop ∧ ∀ k', ¬ IsAnswer i k' m.input) :
    Carries i k (t', Machine.outputs trace) := by
  refine hrun.invariant (P := fun m => m.input ≠ .stop ∧ ∀ k', ¬ IsAnswer i k' m.input)
    (I := fun trace t => Carries i k (t, Machine.outputs trace)) hsteps (.quiet h (by simp)) ?_
  intro trace t input log t' _ hsofar hstays hstep
  have hnext := Carries.step hsofar.has hstep hstays.1 hstays.2
  refine ⟨hnext.has, fun msg hmsg => ?_⟩
  rw [Machine.outputs_snoc] at hmsg
  rcases List.mem_append.1 hmsg with hmem | hmem
  · exact hsofar.carries msg hmem
  · exact hnext.carries msg hmem

end Transcoder

/-- **What the transcoder sends carries the id that it is given**: the `publish` command with which an
output follows an answer to `createStream`, and all that is sent to its client until the next answer. -/
theorem carries_created {t t' : Transcoder} {i : ℕ} {k : UInt32}
    {before during after : List (Moment Transcoder TranscoderInput TranscoderEvent)}
    {answer : Moment Transcoder TranscoderInput TranscoderEvent} {out : Output}
    (hrun : Run Transcoder.machine t (before ++ (answer :: during) ++ after) t')
    (hanswer : Transcoder.IsAnswer i k answer.input) (hlistens : answer.state.listening i = some out)
    (hduring : ∀ m ∈ during, m.input ≠ .stop ∧ ∀ k', ¬ Transcoder.IsAnswer i k' m.input) :
    .output i (.client (.sendMessage (out.publishMessage k))) ∈ answer.outputs ∧
      ∀ msg, .output i (.client (.sendMessage msg)) ∈ Machine.outputs (answer :: during) →
        (ClientCall.sendMessage msg).messageStreamId? = some k := by
  obtain ⟨t₂, hupto, -⟩ := hrun.of_append
  obtain ⟨-, t₁, hstep, hrest⟩ := hupto.split
  obtain ⟨stale, msg, hinput, hcreates⟩ := hanswer
  obtain ⟨hgiven, hpublish⟩ := Transcoder.Carries.answer hlistens hcreates
  have heq : answer.state.onMessage i stale msg = (t₁, answer.outputs) := by
    rw [hinput] at hstep
    exact Except.ok.inj hstep
  rw [heq] at hgiven hpublish
  have hkept := Transcoder.carries_of_run hrest hgiven.has hduring
  refine ⟨hpublish, fun msg hmsg => ?_⟩
  rcases List.mem_append.1 hmsg with hmem | hmem
  · exact congrArg some (hgiven.carries msg hmem)
  · exact congrArg some (hkept.carries msg hmem)

end Transcode
