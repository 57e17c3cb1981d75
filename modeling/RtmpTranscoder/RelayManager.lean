/-
**The relay manager.**

`src/relay/relay_manager.cpp` serves the publishers: it reads from their sockets, carries out the
handshake, answers their commands, and hands their media to the pusher of their stream, or to the
transcoder.  What all publishers share are the settings and the pushers, which are looked up by the
stream id that a publisher has at the moment.

A publisher is known by its number; numbers are not used again, so that a number stands for one
connection.  What the system answers is part of the input.  A session calls back while it handles a
read; the model handles the read first and the messages then, which is the same, as the handlers do
not look at the parser.  Statistics and logging are left out.

A pusher that is stored under the id of a new one is destroyed while the new one is stored.  Its client
disconnects then, and calls the handler of the pusher that is being destroyed, which destroys the client
once more: nothing can be said of what follows, and the model fails.  Only a client that has no socket
does not call back.

Main definitions:

* `Relay.Publisher`, `Relay.Relays`, `Relay.RelayManager` — a connection, what connections share, and
  all of it;
* `Relay.handlePublisherCommand`, `Relay.handlePublisherMessage` — the handlers;
* `Relay.Publisher.onEvents` — the callback that `setup_publisher_read` registers;
* `Relay.RelayManager.perform` — the manager as a machine;
* `Relay.publisherMachine` — a connection as a machine, whatever the others do.

Main results:

* `Relay.handlePublisherCommand_cases` — what the handler of a command does;
* `Relay.effect_of_ok`, `Relay.returns_handlePublisherMessage` — what the handler of a message does;
* `Relay.returns_handleMessages` — what the handlers leave alone, and when they return;
* `Relay.run_connection` — **a run of the manager is a run of each of its connections**.
-/

import RtmpTranscoder.ClientLoop
import RtmpTranscoder.Relay

set_option relaxedAutoImplicit false
set_option autoImplicit false

namespace Relay

open Amf0 (Value ObjectType)
open Rtmp (Failure Message MessageType CommandMessage Session GrowthPolicy EpollEvents)
open Text

/-- `RelayManager::Publisher`, up to its socket. -/
structure Publisher where
  session : Session
  streamId : StreamId := {}
  ready : Bool := false

/-- What the manager asks of its transcoder. -/
inductive TranscoderCall where
  | start
  | onSourceMetadata (width height fps sampleRate channels : ℤ)
  | onVideoData (data : List UInt8) (timestamp : UInt32) (keyframe : Bool)
  | onAudioData (data : List UInt8) (timestamp : UInt32)

/-- The part of `RelayManager` that its handlers look at; `transcoder` says that `transcoder_` is not
null. -/
structure Relays extends RelaySettings where
  transcoder : Bool := false
  pushers : StreamId → Option Pusher := fun _ => none

/-- `RelayManager`.  The next publisher gets the number `next`. -/
structure RelayManager extends Relays where
  next : ℕ := 0
  publishers : ℕ → Option Publisher := fun _ => none

/-- What happens on the connection of a publisher.  With `handshake` and `chunks` data is handed to the
socket; with `published` the calls are those to the client of the pusher that is created, if one is. -/
inductive PublisherEvent where
  | handshake (data : List UInt8) (written : Except Failure ℕ)
  | chunks (data : List UInt8)
  | processInput (data : List UInt8)
  | message (msg : Message)
  | published (streamId : StreamId) (created : Option (List ClientCall))
  | relayed (streamId : StreamId) (msg : Message) (calls : List ClientCall)
  | transcoder (call : TranscoderCall)
  | removed

/-- What the manager does: for a publisher, or because of an event of a pusher. -/
inductive RelayOutput where
  | publisher (id : ℕ) (event : PublisherEvent)
  | pusher (streamId : StreamId) (calls : List ClientCall)

/-- What the handler of a message finds: the memory of a transaction id, the answers of `getaddrinfo`, and
whether the client of a pusher that is replaced has a socket.  It has none if its last `connect` could not
get one, or could not be asked for as the address was not found; one that is connected has one. -/
structure CallOutcome where
  stale : UInt64
  resolve : List UInt8 → Except Failure (List UInt8)
  clientOpen : Bool

/-- What the callback of a publisher finds.  At most 8192 bytes are read. -/
structure PublisherOutcome where
  read : Except Failure (List UInt8)
  random : ℕ → UInt8
  responseWritten : Except Failure ℕ
  protocolWritten : Except Failure ℕ
  calls : ℕ → CallOutcome
  length_read : ∀ data, read = .ok data → data.length ≤ 8192

/-! ### Commands -/

/-- `RelayManager::flush_publisher_responses`. -/
def flushPublisherResponses (pub : Publisher) : Publisher × List PublisherEvent :=
  let (session, data) := pub.session.getOutgoingData
  ({ pub with session := session }, if data.isEmpty then [] else [.chunks data])

/-- A response is sent and flushed. -/
def respond (pub : Publisher) (response : CommandMessage) :
    Except Failure (Publisher × List PublisherEvent) := do
  let session ← pub.session.sendCommand response 3
  return flushPublisherResponses { pub with session := session }

/-- The application of a command `connect`. -/
def connectApp (cmd : CommandMessage) : List UInt8 :=
  match cmd.arguments.head? with
  | some ⟨.object fields, _⟩ =>
      match fields.lookup (ascii "app") with
      | some (.string app) => app
      | _ => []
  | _ => []

/-- The stream of a command `publish`, if its arguments are as they should be. -/
def publishStream (cmd : CommandMessage) : Option (List UInt8) :=
  match cmd.arguments with
  | ⟨.null, _⟩ :: stream :: _ => stream.asString?
  | _ => none

/-- The answer to `connect`. -/
def connectReply (transactionId : UInt64) : CommandMessage where
  name := ascii "_result"
  transactionId := transactionId
  arguments :=
    [.object ((ObjectType.empty.set (ascii "fmsVer") (.string (ascii "FMS/3,0,1,123"))).set
        (ascii "capabilities") (.number 0x403F000000000000)),
      .object ((((ObjectType.empty.set (ascii "level") (.string (ascii "status"))).set
        (ascii "code") (.string (ascii "NetConnection.Connect.Success"))).set
        (ascii "description") (.string (ascii "Connection succeeded"))).set
        (ascii "objectEncoding") (.number 0))]

/-- The answer to `createStream`. -/
def createStreamReply (transactionId : UInt64) : CommandMessage where
  name := ascii "_result"
  transactionId := transactionId
  arguments := [.null, .number 0x3FF0000000000000]

/-- The answer to `publish`. -/
def publishReply : CommandMessage where
  name := ascii "onStatus"
  transactionId := 0
  arguments :=
    [.null, .object (((ObjectType.empty.set (ascii "level") (.string (ascii "status"))).set
      (ascii "code") (.string (ascii "NetStream.Publish.Start"))).set
      (ascii "description") (.string (ascii "Stream is now published")))]

/-- The pusher that is stored under an id has a client with a socket. -/
def Relays.inUse (r : Relays) (o : CallOutcome) (streamId : StreamId) : Bool :=
  match r.pushers streamId with
  | none => false
  | some p => p.connected || o.clientOpen

/-- What `publish` does for the media of a stream: with a transcoder it is started, and otherwise a
pusher is created.  One that is in use must not be destroyed. -/
def startRelaying (r : Relays) (o : CallOutcome) (streamId : StreamId) :
    Except Failure (Relays × List PublisherEvent) :=
  if r.transcoder then
    .ok (r, [.published streamId none, .transcoder .start,
      .transcoder (.onSourceMetadata 0 0 30 44100 2)])
  else
    match createPusher r.toRelaySettings o.resolve streamId with
    | none => .ok (r, [.published streamId none])
    | some (p, calls) =>
        if r.inUse o streamId then .error .useAfterFree
        else
          .ok ({ r with pushers := Function.update r.pushers streamId (some p) },
            [.published streamId (some calls)])

/-- `RelayManager::handle_publisher_command`. -/
def handlePublisherCommand (r : Relays) (pub : Publisher) (o : CallOutcome) (cmd : CommandMessage) :
    Except Failure (Relays × Publisher × List PublisherEvent) :=
  if cmd.name = ascii "connect" then do
    let pub := { pub with streamId := { pub.streamId with app := connectApp cmd } }
    let (pub, out) ← respond pub (connectReply cmd.transactionId)
    return (r, pub, out)
  else if cmd.name = ascii "createStream" then do
    let (pub, out) ← respond pub (createStreamReply cmd.transactionId)
    return (r, pub, out)
  else if cmd.name = ascii "publish" then
    match publishStream cmd with
    | none => .ok (r, pub, [])
    | some stream => do
        let pub := { pub with streamId := { pub.streamId with stream := stream }, ready := true }
        let (pub, out) ← respond pub publishReply
        let (r, started) ← startRelaying r o pub.streamId
        return (r, pub, out ++ started)
  else .ok (r, pub, [])

/-! ### Messages -/

/-- A video message carries a keyframe. -/
def isKeyframe (payload : List UInt8) : Bool :=
  match payload with
  | [] => false
  | first :: _ => first &&& 0xF0 == 0x10

/-- What a message means to the transcoder. -/
def transcoderCalls (msg : Message) : List TranscoderCall :=
  if msg.typeId = MessageType.video.code then
    [.onVideoData msg.payload msg.timestamp (isKeyframe msg.payload)]
  else if msg.typeId = MessageType.audio.code then [.onAudioData msg.payload msg.timestamp]
  else []

/-- The branch of `handle_publisher_message` for what is not a command. -/
def handlePublisherMedia (r : Relays) (pub : Publisher) (msg : Message) :
    Relays × List PublisherEvent :=
  if r.transcoder then (r, (transcoderCalls msg).map .transcoder)
  else
    match r.pushers pub.streamId with
    | none => (r, [])
    | some p =>
        ({ r with
            pushers := Function.update r.pushers pub.streamId (some (relayMessage r.policy p msg).1) },
          [.relayed pub.streamId msg (relayMessage r.policy p msg).2])

/-- `RelayManager::handle_publisher_message`. -/
def handlePublisherMessage (r : Relays) (pub : Publisher) (o : CallOutcome) (msg : Message) :
    Except Failure (Relays × Publisher × List PublisherEvent) :=
  if msg.typeId = MessageType.commandAMF0.code then
    match CommandMessage.parse o.stale msg.payload with
    | none => .ok (r, pub, [])
    | some cmd => handlePublisherCommand r pub o cmd
  else if pub.ready then
    let (r, out) := handlePublisherMedia r pub msg
    .ok (r, pub, out)
  else .ok (r, pub, [])

/-- The messages of a read. -/
def handleMessages (r : Relays) (pub : Publisher) (calls : ℕ → CallOutcome) :
    List Message → Except Failure (Relays × Publisher × List PublisherEvent)
  | [] => .ok (r, pub, [])
  | msg :: messages => do
      let (r, pub, out) ← handlePublisherMessage r pub (calls 0) msg
      let (r, pub, rest) ← handleMessages r pub (fun n => calls (n + 1)) messages
      return (r, pub, .message msg :: out ++ rest)

/-! ### The callback -/

namespace Publisher

/-- `RelayManager::handle_new_publisher`. -/
def new (growth : GrowthPolicy) : Publisher where
  session := Session.new growth

/-- Bytes are given to the session, and its messages are handled. -/
def processInput (r : Relays) (pub : Publisher) (data : List UInt8) (calls : ℕ → CallOutcome) :
    Except Failure (Relays × Option Publisher × List PublisherEvent) :=
  match pub.session.processInput data with
  | (session, messages, result) => do
      let (r, pub, out) ← handleMessages r { pub with session := session } calls messages
      match result with
      | .error _ => return (r, none, .processInput data :: out ++ [.removed])
      | .ok _ => return (r, some pub, .processInput data :: out)

/-- S0, S1 and S2 are sent, if C0 and C1 have been received and C2 has not. -/
def sendHandshakeResponse (pub : Publisher) (data : List UInt8) (o : PublisherOutcome) :
    Except Failure (Option Publisher × List PublisherEvent) :=
  if pub.session.handshake.state = .s0s1s2Sent ∧ 1537 ≤ data.length then
    match pub.session.generateServerHandshakeResponse o.random ((data.drop 1).take 1536) with
    | (_, .error f) => .error f
    | (session, .ok response) =>
        match o.responseWritten with
        | .error f => .ok (none, [.handshake response (.error f), .removed])
        | .ok n => .ok (some { pub with session := session }, [.handshake response (.ok n)])
  else .ok (some pub, [])

/-- The first protocol messages are sent, if the handshake is done. -/
def sendProtocolMessages (pub : Publisher) (written : Except Failure ℕ) :
    Except Failure (Option Publisher × List PublisherEvent) :=
  if pub.session.handshake.isDone then do
    let session ← pub.session.sendWindowAckSize 2500000
    let session ← session.sendSetPeerBandwidth 2500000 2
    let session ← session.sendSetChunkSize 4096
    let (session, data) := session.getOutgoingData
    let pub := { pub with session := session }
    if data.isEmpty then return (some pub, [])
    else
      match written with
      | .error _ => return (none, [.chunks data, .removed])
      | .ok _ => return (some pub, [.chunks data])
  else .ok (some pub, [])

/-- The branch of the callback for a handshake that is not done. -/
def readHandshake (r : Relays) (pub : Publisher) (data : List UInt8) (o : PublisherOutcome) :
    Except Failure (Relays × Option Publisher × List PublisherEvent) :=
  match pub.session.handshake.processClientHandshake data with
  | (_, .error _) => .ok (r, none, [.removed])
  | (handshake, .ok consumed) =>
      let session := { pub.session with handshake := handshake }
      match sendHandshakeResponse { pub with session := session } data o with
      | .error f => .error f
      | .ok (none, out₁) => .ok (r, none, out₁)
      | .ok (some pub, out₁) =>
          match pub.sendProtocolMessages o.protocolWritten with
          | .error f => .error f
          | .ok (none, out₂) => .ok (r, none, out₁ ++ out₂)
          | .ok (some pub, out₂) =>
              if pub.session.handshake.isDone ∧ consumed < data.length then
                match pub.processInput r (data.drop consumed) o.calls with
                | .error f => .error f
                | .ok (r, pub, out₃) => .ok (r, pub, out₁ ++ out₂ ++ out₃)
              else .ok (r, some pub, out₁ ++ out₂)

/-- The callback that `setup_publisher_read` registers.  Without a publisher behind the result, it has
been removed. -/
def onEvents (r : Relays) (pub : Publisher) (mask : EpollEvents) (o : PublisherOutcome) :
    Except Failure (Relays × Option Publisher × List PublisherEvent) :=
  if mask.epollErr || mask.epollHup then .ok (r, none, [.removed])
  else if mask.epollIn then
    match o.read with
    | .error _ => .ok (r, none, [.removed])
    | .ok [] => .ok (r, none, [.removed])
    | .ok (byte :: rest) =>
        if !pub.session.handshake.isDone then pub.readHandshake r (byte :: rest) o
        else pub.processInput r (byte :: rest) o.calls
  else .ok (r, some pub, [])

end Publisher

/-! ### Machines -/

/-- What is asked of the manager: a connection has been accepted, a socket is ready, or the client of
a pusher calls back. -/
inductive RelayInput where
  | accept (growth : GrowthPolicy)
  | events (id : ℕ) (mask : EpollEvents) (o : PublisherOutcome)
  | pusherConnected (streamId : StreamId)
  | pusherMessage (streamId : StreamId) (stale : UInt64) (msg : Message)
  | pusherDisconnected (streamId : StreamId) (resolve : List UInt8 → Except Failure (List UInt8))

namespace RelayManager

/-- A callback of the client of a pusher. -/
def onPusher (m : RelayManager) (streamId : StreamId) (event : PusherEvent) :
    RelayManager × List RelayOutput :=
  match m.pushers streamId with
  | none => (m, [])
  | some p =>
      ({ m with
          pushers := Function.update m.pushers streamId (some (p.handle m.toRelaySettings event).1) },
        [.pusher streamId (p.handle m.toRelaySettings event).2])

/-- The manager as a machine.  The loop calls back only what is registered, so that a publisher that has
been removed is not called. -/
def perform (m : RelayManager) : RelayInput → Except Failure (RelayManager × List RelayOutput)
  | .accept growth => .ok
      ({ m with
          next := m.next + 1
          publishers := Function.update m.publishers m.next (some (Publisher.new growth)) }, [])
  | .events id mask o =>
      match m.publishers id with
      | none => .ok (m, [])
      | some pub =>
          (pub.onEvents m.toRelays mask o).map fun (r, pub, out) =>
            ({ m with toRelays := r, publishers := Function.update m.publishers id pub },
              out.map (.publisher id))
  | .pusherConnected streamId => .ok (m.onPusher streamId .connected)
  | .pusherMessage streamId stale msg => .ok (m.onPusher streamId (.message stale msg))
  | .pusherDisconnected streamId resolve => .ok (m.onPusher streamId (.disconnected resolve))

def machine : Machine.Step RelayManager RelayInput RelayOutput := Machine.ofFun perform

end RelayManager

/-- What is asked of a connection, with the relays as they are at the moment. -/
structure PublisherInput where
  relays : Relays
  mask : EpollEvents
  outcome : PublisherOutcome

/-- A connection as a machine, whatever the others do to the relays.  Without a publisher, it has been
removed. -/
def Publisher.perform (pub : Option Publisher) (i : PublisherInput) :
    Except Failure (Option Publisher × List PublisherEvent) :=
  match pub with
  | none => .ok (none, [])
  | some pub => (pub.onEvents i.relays i.mask i.outcome).map fun result => result.2

def publisherMachine : Machine.Step (Option Publisher) PublisherInput PublisherEvent :=
  Machine.ofFun Publisher.perform

/-- What a step of the manager is to the connection `id`. -/
def connectionMoment (id : ℕ) (m : Machine.Moment RelayManager RelayInput RelayOutput) :
    Option (Machine.Moment (Option Publisher) PublisherInput PublisherEvent) :=
  match m.input with
  | .events id' mask o =>
      if id' = id then
        some
          { state := m.state.publishers id
            input := ⟨m.state.toRelays, mask, o⟩
            outputs := m.outputs.filterMap fun
              | .publisher _ event => some event
              | .pusher _ _ => none }
      else none
  | _ => none

/-- The run of a connection, in a run of the manager. -/
def connection (id : ℕ) (trace : List (Machine.Moment RelayManager RelayInput RelayOutput)) :
    List (Machine.Moment (Option Publisher) PublisherInput PublisherEvent) :=
  trace.filterMap (connectionMoment id)

/-! ### What the handlers do -/

theorem ok_inj {α β γ : Type} {a a' : α} {b b' : β} {c c' : γ}
    (h : (.ok (a, b, c) : Except Failure (α × β × γ)) = .ok (a', b', c')) :
    a = a' ∧ b = b' ∧ c = c' := by
  obtain ⟨ha, hrest⟩ := Prod.mk.inj (Except.ok.inj h)
  exact ⟨ha, Prod.mk.inj hrest⟩

theorem bind_ok {α β : Type} {x : Except Failure α} {f : α → Except Failure β} {b : β}
    (h : x >>= f = .ok b) : ∃ a, x = .ok a ∧ f a = .ok b := by
  cases x with
  | error failure => cases h
  | ok a => exact ⟨a, rfl, h⟩

theorem map_ok {α β : Type} {x : Except Failure α} {f : α → β} {b : β} (h : x.map f = .ok b) :
    ∃ a, x = .ok a ∧ f a = b := by
  cases x with
  | error failure => cases h
  | ok a => exact ⟨a, rfl, Except.ok.inj h⟩

theorem map_snd_ok {α β γ : Type} {x : Except Failure (α × β × γ)} {b : β} {c : γ}
    (h : x.map (fun result => result.2) = .ok (b, c)) : ∃ a, x = .ok (a, b, c) := by
  obtain ⟨⟨a, b', c'⟩, rfl, heq⟩ := map_ok h
  obtain ⟨rfl, rfl⟩ := Prod.mk.inj heq
  exact ⟨a, rfl⟩

/-- The command that a message is. -/
def commandOf (o : CallOutcome) (msg : Message) : Option CommandMessage :=
  if msg.typeId = MessageType.commandAMF0.code then CommandMessage.parse o.stale msg.payload else none

/-- Data is handed to the socket. -/
def PublisherEvent.IsChunks (e : PublisherEvent) : Prop := ∃ data, e = .chunks data

/-- A publisher whose session has answered. -/
def Publisher.setBuffer (pub : Publisher) (buffer : Rtmp.Buffer) : Publisher :=
  { pub with session := { pub.session with writeBuffer := buffer } }

/-- The handlers can encode what they send. -/
def Publisher.Sound (pub : Publisher) : Prop := 1 ≤ pub.session.outChunkSize.toNat

/-- What the handler of a message does.  A command is answered, and `publish` changes the pushers;
everything else is for the pusher of the stream, or for the transcoder. -/
inductive Effect (r : Relays) (pub : Publisher) (o : CallOutcome) (msg : Message) :
    Relays → Publisher → List PublisherEvent → Prop
  | ignored : Effect r pub o msg r pub []
  | connect {cmd : CommandMessage} {buffer : Rtmp.Buffer} {out : List PublisherEvent} :
      commandOf o msg = some cmd → cmd.name = ascii "connect" → (∀ e ∈ out, e.IsChunks) →
      Effect r pub o msg r
        { pub.setBuffer buffer with streamId := { pub.streamId with app := connectApp cmd } } out
  | answered {buffer : Rtmp.Buffer} {out : List PublisherEvent} : (∀ e ∈ out, e.IsChunks) →
      Effect r pub o msg r (pub.setBuffer buffer) out
  | publish {cmd : CommandMessage} {stream : List UInt8} {buffer : Rtmp.Buffer} {r' : Relays}
      {out started : List PublisherEvent} :
      commandOf o msg = some cmd → cmd.name = ascii "publish" → publishStream cmd = some stream →
      (∀ e ∈ out, e.IsChunks) →
      startRelaying r o { pub.streamId with stream := stream } = .ok (r', started) →
      Effect r pub o msg r'
        { pub.setBuffer buffer with
          streamId := { pub.streamId with stream := stream }
          ready := true }
        (out ++ started)
  | media : pub.ready = true →
      Effect r pub o msg (handlePublisherMedia r pub msg).1 pub (handlePublisherMedia r pub msg).2

variable {r : Relays} {pub : Publisher}

/-- A response that is sent changes the buffer of the session, and its bytes are handed to the
socket. -/
theorem respond_ok {response : CommandMessage} {pub' : Publisher} {out : List PublisherEvent}
    (h : respond pub response = .ok (pub', out)) :
    ∃ buffer, pub' = pub.setBuffer buffer ∧ ∀ e ∈ out, e.IsChunks := by
  unfold respond Session.sendCommand at h
  cases hencode : Rtmp.encodeChunk (Session.commandHeader response.encode 3) response.encode
      pub.session.outChunkSize with
  | error f =>
      rw [hencode] at h
      cases h
  | ok data =>
      rw [hencode] at h
      obtain ⟨rfl, rfl⟩ := Prod.mk.inj (Except.ok.inj h)
      refine ⟨(pub.session.writeBuffer.append data).clear, rfl, fun e he => ?_⟩
      change e ∈ if (pub.session.writeBuffer.append data).readable.isEmpty then _ else _ at he
      split at he
      · cases he
      · exact ⟨_, List.mem_singleton.1 he⟩

theorem exists_respond (h : pub.Sound) (response : CommandMessage) :
    ∃ result, respond pub response = .ok result := by
  obtain ⟨data, hdata⟩ := Rtmp.exists_encodeChunk
    (Session.commandHeader response.encode 3) response.encode h
  unfold respond Session.sendCommand
  rw [hdata]
  exact ⟨_, rfl⟩

/-- **The handler of a command**: it answers one of three commands, or does nothing. -/
theorem handlePublisherCommand_cases {o : CallOutcome} {cmd : CommandMessage} {r' : Relays}
    {pub' : Publisher} {out : List PublisherEvent}
    (h : handlePublisherCommand r pub o cmd = .ok (r', pub', out)) :
    (cmd.name = ascii "connect" ∧ r' = r ∧
        respond { pub with streamId := { pub.streamId with app := connectApp cmd } }
          (connectReply cmd.transactionId) = .ok (pub', out)) ∨
      (cmd.name ≠ ascii "connect" ∧ cmd.name = ascii "createStream" ∧ r' = r ∧
        respond pub (createStreamReply cmd.transactionId) = .ok (pub', out)) ∨
      (cmd.name ≠ ascii "connect" ∧ cmd.name ≠ ascii "createStream" ∧ cmd.name = ascii "publish" ∧
        ∃ stream answer started, publishStream cmd = some stream ∧
          respond { pub with streamId := { pub.streamId with stream := stream }, ready := true }
            publishReply = .ok (pub', answer) ∧
          startRelaying r o pub'.streamId = .ok (r', started) ∧ out = answer ++ started) ∨
      (cmd.name ≠ ascii "connect" ∧ cmd.name ≠ ascii "createStream" ∧
        (cmd.name = ascii "publish" → publishStream cmd = none) ∧ r' = r ∧ pub' = pub ∧ out = []) := by
  unfold handlePublisherCommand at h
  split at h
  · rename_i hconnect
    obtain ⟨⟨pub₁, out₁⟩, hrespond, hreturn⟩ := bind_ok h
    obtain ⟨rfl, rfl, rfl⟩ := ok_inj hreturn
    exact .inl ⟨hconnect, rfl, hrespond⟩
  · rename_i hconnect
    refine .inr ?_
    split at h
    · rename_i hcreate
      obtain ⟨⟨pub₁, out₁⟩, hrespond, hreturn⟩ := bind_ok h
      obtain ⟨rfl, rfl, rfl⟩ := ok_inj hreturn
      exact .inl ⟨hconnect, hcreate, rfl, hrespond⟩
    · rename_i hcreate
      refine .inr ?_
      split at h
      · rename_i hpublish
        cases hstream : publishStream cmd with
        | none =>
            rw [hstream] at h
            obtain ⟨rfl, rfl, rfl⟩ := ok_inj h
            exact .inr ⟨hconnect, hcreate, fun _ => rfl, rfl, rfl, rfl⟩
        | some stream =>
            rw [hstream] at h
            obtain ⟨⟨pub₁, answer⟩, hrespond, hmore⟩ := bind_ok h
            obtain ⟨⟨r₁, started⟩, hstart, hreturn⟩ := bind_ok hmore
            obtain ⟨rfl, rfl, rfl⟩ := ok_inj hreturn
            exact .inl ⟨hconnect, hcreate, hpublish, stream, answer, started, rfl, hrespond, hstart,
              rfl⟩
      · rename_i hpublish
        obtain ⟨rfl, rfl, rfl⟩ := ok_inj h
        exact .inr ⟨hconnect, hcreate, fun hname => absurd hname hpublish, rfl, rfl, rfl⟩

/-- **What the handler of a command does.** -/
theorem effect_of_command {o : CallOutcome} {msg : Message} {cmd : CommandMessage} {r' : Relays}
    {pub' : Publisher} {out : List PublisherEvent} (hcommand : commandOf o msg = some cmd)
    (h : handlePublisherCommand r pub o cmd = .ok (r', pub', out)) :
    Effect r pub o msg r' pub' out := by
  rcases handlePublisherCommand_cases h with ⟨hname, rfl, hrespond⟩ | ⟨-, -, rfl, hrespond⟩ |
    ⟨-, -, hname, stream, answer, started, hstream, hrespond, hstart, rfl⟩ |
    ⟨-, -, -, rfl, rfl, rfl⟩
  · -- the application is set before the answer is sent
    obtain ⟨buffer, rfl, hout⟩ := respond_ok hrespond
    exact .connect hcommand hname hout
  · obtain ⟨buffer, rfl, hout⟩ := respond_ok hrespond
    exact .answered hout
  · obtain ⟨buffer, rfl, hout⟩ := respond_ok hrespond
    exact .publish hcommand hname hstream hout hstart
  · exact .ignored

/-- **What the handler of a message does.** -/
theorem effect_of_ok {o : CallOutcome} {msg : Message} {r' : Relays} {pub' : Publisher}
    {out : List PublisherEvent} (h : handlePublisherMessage r pub o msg = .ok (r', pub', out)) :
    Effect r pub o msg r' pub' out := by
  have hignored (heq : .ok (r, pub, []) = (.ok (r', pub', out) : Except Failure _)) :
      Effect r pub o msg r' pub' out := by
    obtain ⟨rfl, rfl, rfl⟩ := ok_inj heq
    exact .ignored
  unfold handlePublisherMessage at h
  split at h
  · rename_i htype
    split at h
    · exact hignored h
    · rename_i cmd hparse
      exact effect_of_command ((if_pos htype).trans hparse) h
  · split at h
    · rename_i hready
      obtain ⟨rfl, rfl, rfl⟩ := ok_inj h
      exact .media hready
    · exact hignored h

theorem handleMessages_cons {calls : ℕ → CallOutcome} {msg : Message} {messages : List Message}
    {r' : Relays} {pub' : Publisher} {out : List PublisherEvent}
    (h : handleMessages r pub calls (msg :: messages) = .ok (r', pub', out)) :
    ∃ r₁ pub₁ out₁ out₂, handlePublisherMessage r pub (calls 0) msg = .ok (r₁, pub₁, out₁) ∧
      handleMessages r₁ pub₁ (fun n => calls (n + 1)) messages = .ok (r', pub', out₂) ∧
      out = .message msg :: out₁ ++ out₂ := by
  rw [handleMessages] at h
  obtain ⟨⟨r₁, pub₁, out₁⟩, hfirst, hmore⟩ := bind_ok h
  obtain ⟨⟨r₂, pub₂, out₂⟩, hrest, hreturn⟩ := bind_ok hmore
  obtain ⟨rfl, rfl, rfl⟩ := ok_inj hreturn
  exact ⟨r₁, pub₁, out₁, out₂, hfirst, hrest, rfl⟩

/-- What the handlers keep of a publisher. -/
structure Keeps (pub pub' : Publisher) : Prop where
  handshake : pub'.session.handshake = pub.session.handshake
  outChunkSize : pub'.session.outChunkSize = pub.session.outChunkSize

/-- What happens while messages are handled. -/
def PublisherEvent.IsHandling : PublisherEvent → Prop
  | .handshake .. | .processInput _ | .removed => False
  | _ => True

theorem PublisherEvent.IsChunks.isHandling {e : PublisherEvent} (h : e.IsChunks) : e.IsHandling := by
  obtain ⟨data, rfl⟩ := h
  trivial

/-- **What `publish` does for the media of a stream**: a pusher is created and stored where none is in use,
or nothing changes. -/
theorem startRelaying_cases {o : CallOutcome} {streamId : StreamId} {r' : Relays}
    {started : List PublisherEvent} (h : startRelaying r o streamId = .ok (r', started)) :
    (∃ calls : List TranscoderCall, r' = r ∧
        started = .published streamId none :: calls.map .transcoder ∧
        (r.transcoder = false →
          calls = [] ∧ createPusher r.toRelaySettings o.resolve streamId = none)) ∨
      ∃ p calls, createPusher r.toRelaySettings o.resolve streamId = some (p, calls) ∧
        r.transcoder = false ∧ r.inUse o streamId = false ∧
        r' = { r with pushers := Function.update r.pushers streamId (some p) } ∧
        started = [.published streamId (some calls)] := by
  unfold startRelaying at h
  split at h
  · rename_i htranscoder
    obtain ⟨rfl, rfl⟩ := Prod.mk.inj (Except.ok.inj h)
    refine .inl ⟨[.start, .onSourceMetadata 0 0 30 44100 2], rfl, rfl, fun hfalse => ?_⟩
    rw [htranscoder] at hfalse
    cases hfalse
  · rename_i htranscoder
    split at h
    · rename_i hnone
      obtain ⟨rfl, rfl⟩ := Prod.mk.inj (Except.ok.inj h)
      exact .inl ⟨[], rfl, rfl, fun _ => ⟨rfl, hnone⟩⟩
    · rename_i p calls hcreate
      split at h
      · cases h
      · rename_i huse
        obtain ⟨rfl, rfl⟩ := Prod.mk.inj (Except.ok.inj h)
        exact .inr ⟨p, calls, hcreate, Bool.eq_false_iff.2 htranscoder, Bool.eq_false_iff.2 huse, rfl,
          rfl⟩

/-- **What becomes of media**: they are handed to the pusher of the stream, or to the transcoder. -/
theorem handlePublisherMedia_cases (r : Relays) (pub : Publisher) (msg : Message) :
    (∃ calls : List TranscoderCall, handlePublisherMedia r pub msg = (r, calls.map .transcoder)) ∨
      ∃ p p' calls, r.pushers pub.streamId = some p ∧ handlePublisherMedia r pub msg =
        ({ r with pushers := Function.update r.pushers pub.streamId (some p') },
          [.relayed pub.streamId msg calls]) := by
  unfold handlePublisherMedia
  split
  · exact .inl ⟨_, rfl⟩
  · cases hpusher : r.pushers pub.streamId with
    | none => exact .inl ⟨[], rfl⟩
    | some p => exact .inr ⟨p, _, _, rfl, rfl⟩

theorem startRelaying_isHandling {o : CallOutcome} {streamId : StreamId} {r' : Relays}
    {started : List PublisherEvent} (h : startRelaying r o streamId = .ok (r', started)) :
    ∀ e ∈ started, e.IsHandling := by
  intro e he
  rcases startRelaying_cases h with ⟨calls, -, rfl, -⟩ | ⟨p, calls, -, -, -, -, rfl⟩
  · rcases List.mem_cons.1 he with rfl | he
    · trivial
    · obtain ⟨call, -, rfl⟩ := List.mem_map.1 he
      trivial
  · rw [List.mem_singleton.1 he]
    trivial

theorem handlePublisherMedia_isHandling (msg : Message) :
    ∀ e ∈ (handlePublisherMedia r pub msg).2, e.IsHandling := by
  intro e he
  rcases handlePublisherMedia_cases r pub msg with ⟨calls, hmedia⟩ | ⟨p, p', calls, -, hmedia⟩
  · rw [hmedia] at he
    obtain ⟨call, -, rfl⟩ := List.mem_map.1 he
    trivial
  · rw [hmedia] at he
    rw [List.mem_singleton.1 he]
    trivial

theorem Effect.keeps {o : CallOutcome} {msg : Message} {r' : Relays} {pub' : Publisher}
    {out : List PublisherEvent} (h : Effect r pub o msg r' pub' out) :
    Keeps pub pub' ∧ ∀ e ∈ out, e.IsHandling := by
  cases h with
  | ignored => exact ⟨⟨rfl, rfl⟩, by simp⟩
  | connect _ _ hout => exact ⟨⟨rfl, rfl⟩, fun e he => (hout e he).isHandling⟩
  | answered hout => exact ⟨⟨rfl, rfl⟩, fun e he => (hout e he).isHandling⟩
  | publish _ _ _ hout hstart =>
      refine ⟨⟨rfl, rfl⟩, fun e he => ?_⟩
      rcases List.mem_append.1 he with he | he
      · exact (hout e he).isHandling
      · exact startRelaying_isHandling hstart e he
  | media => exact ⟨⟨rfl, rfl⟩, handlePublisherMedia_isHandling msg⟩

/-! ### When the handlers return -/

/-- No pusher can be created, and there is none. -/
structure Pushless (r : Relays) : Prop where
  cannot : r.transcoder = true ∨ r.pushUrl = []
  pushers : ∀ streamId, r.pushers streamId = none

theorem pushless_default : Pushless {} := ⟨.inr rfl, fun _ => rfl⟩

/-- A handler returns what it should; or it fails because it has destroyed a pusher that was in use, which
cannot happen where there are no pushers. -/
def Returns {α : Type} (r : Relays) (P : Relays → α → List PublisherEvent → Prop) :
    Except Failure (Relays × α × List PublisherEvent) → Prop
  | .ok (r', a, out) => P r' a out ∧ (Pushless r → Pushless r')
  | .error f => f = .useAfterFree ∧ ¬ Pushless r

section Returns

variable {α β : Type} {r' : Relays} {a : α} {out : List PublisherEvent}
  {P : Relays → α → List PublisherEvent → Prop} {Q : Relays → β → List PublisherEvent → Prop}
  {x : Except Failure (Relays × α × List PublisherEvent)}

theorem Returns.of_ok (h : Returns r P x) (hx : x = .ok (r', a, out)) : P r' a out := by
  subst hx
  exact h.1

theorem Returns.of_map (h : Returns r P x) (hx : x.map (fun result => result.2) = .ok (a, out)) :
    ∃ r', x = .ok (r', a, out) ∧ P r' a out := by
  obtain ⟨r', rfl⟩ := map_snd_ok hx
  exact ⟨r', rfl, h.1⟩

theorem Returns.mono {P' : Relays → α → List PublisherEvent → Prop} (h : Returns r P x)
    (hmono : ∀ r' a out, P r' a out → P' r' a out) : Returns r P' x := by
  cases x with
  | error f => exact h
  | ok result => exact ⟨hmono _ _ _ h.1, h.2⟩

theorem Returns.exists_ok (h : Returns r P x) (hpushless : Pushless r) :
    ∃ r' a out, x = .ok (r', a, out) ∧ P r' a out ∧ Pushless r' := by
  cases x with
  | error f => exact absurd hpushless h.2
  | ok result => exact ⟨result.1, result.2.1, result.2.2, rfl, h.1, h.2 hpushless⟩

theorem Returns.bind (h : Returns r P x)
    {f : Relays × α × List PublisherEvent → Except Failure (Relays × β × List PublisherEvent)}
    (hf : ∀ r' a out, P r' a out → Returns r' Q (f (r', a, out))) : Returns r Q (x >>= f) := by
  cases x with
  | error f => exact h
  | ok result =>
      obtain ⟨r₁, a, out⟩ := result
      have hmore := hf r₁ a out h.1
      change Returns r Q (f (r₁, a, out))
      cases hlast : f (r₁, a, out) with
      | error failure =>
          rw [hlast] at hmore
          exact ⟨hmore.1, fun hpushless => hmore.2 (h.2 hpushless)⟩
      | ok last =>
          rw [hlast] at hmore
          exact ⟨hmore.1, fun hpushless => hmore.2 (h.2 hpushless)⟩

theorem Returns.map (h : Returns r P x) {Q : Relays → α → List PublisherEvent → Prop}
    {before : PublisherEvent} (hbefore : ∀ r' a out, P r' a out → Q r' a (before :: out)) :
    Returns r Q (x.map fun result => (result.1, result.2.1, before :: result.2.2)) := by
  cases x with
  | error f => exact h
  | ok result => exact ⟨hbefore _ _ _ h.1, h.2⟩

end Returns

theorem Pushless.startRelaying (h : Pushless r) (o : CallOutcome) (streamId : StreamId) :
    ∃ started, Relay.startRelaying r o streamId = .ok (r, started) := by
  unfold Relay.startRelaying
  by_cases htranscoder : r.transcoder = true
  · rw [if_pos htranscoder]
    exact ⟨_, rfl⟩
  · rw [if_neg htranscoder, createPusher, h.cannot.resolve_left htranscoder]
    exact ⟨_, rfl⟩

/-- The only way in which `publish` fails. -/
theorem startRelaying_error {o : CallOutcome} {streamId : StreamId} {f : Failure}
    (h : startRelaying r o streamId = .error f) : f = .useAfterFree ∧ ¬ Pushless r := by
  refine ⟨?_, fun hpushless => ?_⟩
  · unfold startRelaying at h
    split at h
    · cases h
    · split at h
      · cases h
      · split at h
        · exact (Except.error.inj h).symm
        · cases h
  · obtain ⟨started, hstart⟩ := hpushless.startRelaying o streamId
    rw [hstart] at h
    cases h

theorem handlePublisherCommand_error (h : pub.Sound) {o : CallOutcome} {cmd : CommandMessage}
    {f : Failure} (hcall : handlePublisherCommand r pub o cmd = .error f) :
    f = .useAfterFree ∧ ¬ Pushless r := by
  unfold handlePublisherCommand at hcall
  split at hcall
  · have hsound : { pub with
        streamId := { pub.streamId with app := connectApp cmd } }.Sound := h
    obtain ⟨result, hrespond⟩ := exists_respond hsound (connectReply cmd.transactionId)
    simp only [hrespond, bind, Except.bind] at hcall
    cases hcall
  · split at hcall
    · obtain ⟨result, hrespond⟩ := exists_respond h (createStreamReply cmd.transactionId)
      simp only [hrespond, bind, Except.bind] at hcall
      cases hcall
    · split at hcall
      · cases hstream : publishStream cmd with
        | none =>
            rw [hstream] at hcall
            cases hcall
        | some stream =>
            have hsound : { pub with
                streamId := { pub.streamId with stream := stream }
                ready := true }.Sound := h
            obtain ⟨⟨pub', answer⟩, hrespond⟩ := exists_respond hsound publishReply
            simp only [hstream, hrespond, bind, Except.bind] at hcall
            cases hstart : startRelaying r o pub'.streamId with
            | error f' =>
                rw [hstart] at hcall
                obtain rfl := Except.error.inj hcall
                exact startRelaying_error hstart
            | ok result =>
                rw [hstart] at hcall
                cases hcall
      · cases hcall

theorem Effect.pushless {o : CallOutcome} {msg : Message} {r' : Relays} {pub' : Publisher}
    {out : List PublisherEvent} (h : Effect r pub o msg r' pub' out) (hpushless : Pushless r) :
    Pushless r' := by
  cases h with
  | ignored => exact hpushless
  | connect _ _ _ => exact hpushless
  | answered _ => exact hpushless
  | publish _ _ _ _ hstart =>
      obtain ⟨started, hsame⟩ := hpushless.startRelaying o _
      obtain ⟨rfl, -⟩ := Prod.mk.inj (Except.ok.inj (hsame.symm.trans hstart))
      exact hpushless
  | media _ =>
      rcases handlePublisherMedia_cases r pub msg with ⟨calls, hmedia⟩ | ⟨p, p', calls, hpusher, -⟩
      · rw [hmedia]
        exact hpushless
      · rw [hpushless.pushers] at hpusher
        cases hpusher

/-- **The handler of a message returns, and does one of these things**, unless a pusher that is in use is
replaced. -/
theorem returns_handlePublisherMessage (h : pub.Sound) (o : CallOutcome) (msg : Message) :
    Returns r (Effect r pub o msg) (handlePublisherMessage r pub o msg) := by
  cases hcall : handlePublisherMessage r pub o msg with
  | ok result =>
      have heffect := effect_of_ok hcall
      exact ⟨heffect, heffect.pushless⟩
  | error f =>
      unfold handlePublisherMessage at hcall
      split at hcall
      · split at hcall
        · cases hcall
        · exact handlePublisherCommand_error h hcall
      · split at hcall <;> cases hcall

/-- **The messages of a read leave the handshake alone, and nothing but handling happens.** -/
theorem returns_handleMessages (h : pub.Sound) (calls : ℕ → CallOutcome) (messages : List Message) :
    Returns r (fun _ pub' out => Keeps pub pub' ∧ ∀ e ∈ out, e.IsHandling)
      (handleMessages r pub calls messages) := by
  induction messages generalizing r pub calls with
  | nil => exact ⟨⟨⟨rfl, rfl⟩, by simp⟩, id⟩
  | cons msg messages ih =>
      unfold handleMessages
      refine (returns_handlePublisherMessage h (calls 0) msg).bind fun r₁ pub₁ out₁ heffect => ?_
      obtain ⟨hkeeps₁, hout₁⟩ := heffect.keeps
      have h₁ : pub₁.Sound := by
        rw [Publisher.Sound, hkeeps₁.outChunkSize]
        exact h
      refine (ih h₁ fun n => calls (n + 1)).bind fun r₂ pub₂ out₂ hrest => ?_
      obtain ⟨hkeeps₂, hout₂⟩ := hrest
      refine ⟨⟨⟨?_, ?_⟩, ?_⟩, id⟩
      · rw [hkeeps₂.handshake, hkeeps₁.handshake]
      · rw [hkeeps₂.outChunkSize, hkeeps₁.outChunkSize]
      · intro e he
        rcases List.mem_append.1 he with he | he
        · rcases List.mem_cons.1 he with rfl | he
          · trivial
          · exact hout₁ e he
        · exact hout₂ e he

/-! ### What a read does -/

namespace Publisher

/-- Bytes that are there are given to the session. -/
def Took (data : List UInt8) (out : List PublisherEvent) : Prop :=
  (data = [] ∧ out = []) ∨
    ∃ rest, out = .processInput data :: rest ∧ ∀ e ∈ rest, e.IsHandling

/-- What a read behind the handshake does. -/
def Takes (pub : Publisher) (data : List UInt8) (pub' : Option Publisher) (out : List PublisherEvent) :
    Prop :=
  ∃ p rest, pub' = some p ∧ out = .processInput data :: rest ∧ Keeps pub p ∧
    ∀ e ∈ rest, e.IsHandling

theorem returns_processInput (hdone : pub.session.handshake.isDone = true) (h : pub.Sound)
    (data : List UInt8) (calls : ℕ → CallOutcome) :
    Returns r (fun _ => pub.Takes data) (pub.processInput r data calls) := by
  have hsame := pub.session.processInput_outgoing data
  obtain ⟨bytes, -, hresult⟩ := Session.buffer_processInput hdone data
  have hsound : Sound { pub with session := (pub.session.processInput data).1 } := by
    rw [Sound, hsame.2]
    exact h
  simp only [processInput, hresult]
  refine (returns_handleMessages hsound calls (pub.session.processInput data).2.1).bind
    fun r' pub' out hhandled => ?_
  obtain ⟨hkeeps, hout⟩ := hhandled
  refine ⟨⟨pub', out, rfl, rfl, ⟨?_, ?_⟩, hout⟩, id⟩
  · rw [hkeeps.handshake]
    exact Session.handshake_processInput hdone data
  · rw [hkeeps.outChunkSize]
    exact hsame.2

end Publisher

/-! ### The connections of a run -/

theorem connection_snoc (id : ℕ) (trace : List (Machine.Moment RelayManager RelayInput RelayOutput))
    (m : Machine.Moment RelayManager RelayInput RelayOutput) :
    connection id (trace ++ [m]) = connection id trace ++ (connectionMoment id m).toList := by
  rw [connection, connection, List.filterMap_append]
  cases h : connectionMoment id m with
  | none => rw [List.filterMap_cons_none h, List.filterMap_nil, Option.toList_none]
  | some moment => rw [List.filterMap_cons_some h, List.filterMap_nil, Option.toList_some]

theorem onPusher_publishers (m : RelayManager) (streamId : StreamId) (event : PusherEvent) :
    (m.onPusher streamId event).1.publishers = m.publishers ∧
      (m.onPusher streamId event).1.next = m.next := by
  unfold RelayManager.onPusher
  split <;> exact ⟨rfl, rfl⟩

theorem perform_events {m m' : RelayManager} {id : ℕ} {mask : EpollEvents} {o : PublisherOutcome}
    {out : List RelayOutput} (h : m.perform (.events id mask o) = .ok (m', out)) :
    (m.publishers id = none ∧ m' = m ∧ out = []) ∨
      ∃ pub r pub' events, m.publishers id = some pub ∧
        pub.onEvents m.toRelays mask o = .ok (r, pub', events) ∧
        m' = { m with toRelays := r, publishers := Function.update m.publishers id pub' } ∧
        out = events.map (.publisher id) := by
  rw [RelayManager.perform] at h
  cases hpub : m.publishers id with
  | none =>
      rw [hpub] at h
      obtain ⟨rfl, rfl⟩ := Prod.mk.inj (Except.ok.inj h)
      exact .inl ⟨rfl, rfl, rfl⟩
  | some pub =>
      rw [hpub] at h
      simp only at h
      cases hevents : pub.onEvents m.toRelays mask o with
      | error f =>
          rw [hevents] at h
          cases h
      | ok result =>
          rw [hevents] at h
          obtain ⟨rfl, rfl⟩ := Prod.mk.inj (Except.ok.inj h)
          exact .inr ⟨pub, result.1, result.2.1, result.2.2, rfl, hevents, rfl, rfl⟩

/-- A step of the manager is a step of a connection, or nothing to it. -/
theorem step_connection {m m' : RelayManager} {id : ℕ} {i : RelayInput} {out : List RelayOutput}
    (hstep : RelayManager.machine m i out m') (hid : id < m.next) :
    id < m'.next ∧
      ((connectionMoment id ⟨m, i, out⟩ = none ∧ m'.publishers id = m.publishers id) ∨
        ∃ moment, connectionMoment id ⟨m, i, out⟩ = some moment ∧
          moment.state = m.publishers id ∧
          publisherMachine moment.state moment.input moment.outputs (m'.publishers id)) := by
  have hpusher (streamId : StreamId) (event : PusherEvent) :
      id < (m.onPusher streamId event).1.next ∧
        (m.onPusher streamId event).1.publishers id = m.publishers id := by
    obtain ⟨hpublishers, hnext⟩ := onPusher_publishers m streamId event
    exact ⟨hnext ▸ hid, congrFun hpublishers id⟩
  cases i with
  | accept growth =>
      obtain ⟨rfl, rfl⟩ := Prod.mk.inj (Except.ok.inj hstep)
      refine ⟨Nat.lt_succ_of_lt hid, .inl ⟨rfl, ?_⟩⟩
      exact Function.update_of_ne (Nat.ne_of_lt hid) _ _
  | events id' mask o =>
      by_cases hsame : id' = id
      · subst hsame
        have hmoment : connectionMoment id' ⟨m, .events id' mask o, out⟩ = some _ := if_pos rfl
        rcases perform_events hstep with
          ⟨hpub, rfl, rfl⟩ | ⟨pub, r, pub', events, hpub, hevents, rfl, rfl⟩
        · refine ⟨hid, .inr ⟨_, hmoment, rfl, ?_⟩⟩
          simp only [publisherMachine, Machine.ofFun, Publisher.perform, hpub, List.filterMap_nil]
        · refine ⟨hid, .inr ⟨_, hmoment, rfl, ?_⟩⟩
          have hout : (events.map (RelayOutput.publisher id')).filterMap (fun
              | .publisher _ event => some event
              | .pusher _ _ => none) = events := by
            rw [List.filterMap_map]
            exact List.filterMap_some
          simp only [publisherMachine, Machine.ofFun, Publisher.perform, hpub, hevents, hout,
            Function.update_self]
          rfl
      · have hmoment : connectionMoment id ⟨m, .events id' mask o, out⟩ = none := if_neg hsame
        rcases perform_events hstep with ⟨-, rfl, rfl⟩ | ⟨pub, r, pub', events, -, -, rfl, rfl⟩
        · exact ⟨hid, .inl ⟨hmoment, rfl⟩⟩
        · exact ⟨hid, .inl ⟨hmoment, Function.update_of_ne (Ne.symm hsame) _ _⟩⟩
  | pusherConnected streamId =>
      have hm : m' = _ := (congrArg Prod.fst (Except.ok.inj hstep)).symm
      rw [hm]
      exact ⟨(hpusher _ _).1, .inl ⟨rfl, (hpusher _ _).2⟩⟩
  | pusherMessage streamId stale msg =>
      have hm : m' = _ := (congrArg Prod.fst (Except.ok.inj hstep)).symm
      rw [hm]
      exact ⟨(hpusher _ _).1, .inl ⟨rfl, (hpusher _ _).2⟩⟩
  | pusherDisconnected streamId resolve =>
      have hm : m' = _ := (congrArg Prod.fst (Except.ok.inj hstep)).symm
      rw [hm]
      exact ⟨(hpusher _ _).1, .inl ⟨rfl, (hpusher _ _).2⟩⟩

/-- **A run of the manager is a run of each of its connections**: what happens on the others is nothing
to it but a change of the relays. -/
theorem run_connection {m m' : RelayManager} {id : ℕ}
    {trace : List (Machine.Moment RelayManager RelayInput RelayOutput)}
    (hrun : Machine.Run RelayManager.machine m trace m') (hid : id < m.next) :
    id < m'.next ∧
      Machine.Run publisherMachine (m.publishers id) (connection id trace) (m'.publishers id) := by
  induction hrun with
  | nil => exact ⟨hid, .nil⟩
  | snoc hrun hstep ih =>
      obtain ⟨hnext, hconnection⟩ := ih
      obtain ⟨hnext', ⟨hnone, hpub⟩ | ⟨moment, hsome, hstate, hperform⟩⟩ := step_connection hstep hnext
      · refine ⟨hnext', ?_⟩
        rw [connection_snoc, hnone, hpub, Option.toList_none, List.append_nil]
        exact hconnection
      · refine ⟨hnext', ?_⟩
        rw [connection_snoc, hsome, Option.toList_some]
        obtain ⟨state, input, outputs⟩ := moment
        subst hstate
        exact .snoc hconnection hperform

end Relay
