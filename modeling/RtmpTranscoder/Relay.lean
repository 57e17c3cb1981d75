/-
**Pushing a stream upstream.**

`src/relay/relay_manager.cpp` keeps one `Pusher` for every stream that is relayed.  It holds media
back until the upstream server has answered `connect` and `createStream` and the `publish` command is
on its way, and then hands everything to its client.  When the connection ends, it creates a new
client and starts again.

What a pusher does to its client is modelled by the list of the calls it makes.  `pending_bytes` is a
`size_t`: what it counts is in memory, so that an addition cannot wrap around, but nothing of the kind
can be said of a subtraction, which wraps in the model as it does in the source.  Logging is left out.

Main definitions:

* `Relay.StreamId`, `Relay.RelayPolicy`, `Relay.RelaySettings`, `Relay.Pusher`;
* `Relay.ClientCall` — what a pusher asks of its client;
* `Relay.buildPushUrl`, `Relay.createPusher`, `Relay.relayMessage`, `Relay.handlePusherConnected`,
  `Relay.handlePusherMessage`, `Relay.handlePusherDisconnected`;
* `Relay.PusherEvent`, `Relay.pusherMachine` — a pusher as a machine;
* `Relay.payloadBytes`, `Relay.holdBack` — the queue of a pusher as a list, without a counter.

Main results:

* `Relay.Pusher.Accounted.relayMessage` — **holding a message back is `holdBack`, and the counter
  follows**;
* `Relay.handlePusherMessage_cases` — what an answer from upstream can do.
-/

import RtmpTranscoder.Commands
import RtmpTranscoder.Machine
import RtmpTranscoder.Messages
import RtmpTranscoder.Text

set_option relaxedAutoImplicit false
set_option autoImplicit false

namespace Relay

open Amf0 (Value ObjectType)
open Rtmp (Failure Message MessageType CommandMessage parseAddress)
open Text

/-- `StreamId`. -/
structure StreamId where
  app : List UInt8 := []
  stream : List UInt8 := []
  deriving DecidableEq, Repr

/-- `BackpressurePolicy`. -/
inductive BackpressurePolicy where
  | dropOldest
  | dropNewest
  | disconnect
  deriving DecidableEq, Repr

/-- `RelayPolicy`. -/
structure RelayPolicy where
  maxPendingBytes : ℕ := 2 * 1024 * 1024
  backpressure : BackpressurePolicy := .dropOldest
  deriving DecidableEq, Repr

/-- The fields of `RelayManager` that are set before its server is started. -/
structure RelaySettings where
  policy : RelayPolicy := {}
  pushUrl : List UInt8 := []
  pushTemplate : List UInt8 := ascii "\x7bapp\x7d/\x7bstream\x7d"

/-- `RelayManager::Pusher`, up to its client. -/
structure Pusher where
  streamId : StreamId
  connected : Bool := false
  publishing : Bool := false
  reconnectDelayMs : UInt32 := 100
  pendingBytes : ℕ := 0
  buffer : List Message := []
  deriving DecidableEq, Repr

/-- What a pusher asks of its client.  With `create` the old client, and its connection, are gone. -/
inductive ClientCall where
  | create
  | connect (host : List UInt8) (port : UInt16)
  | sendCommand (cmd : CommandMessage)
  | sendMessage (msg : Message)
  | flush

/-! ### Where to push to -/

/-- `RelayManager::build_push_url`. -/
def buildPushUrl (r : RelaySettings) (streamId : StreamId) : List UInt8 :=
  let result := r.pushTemplate
  let pos := find result (ascii "\x7bapp\x7d") 0
  let result := if pos ≠ npos then replace result pos 5 streamId.app else result
  let pos := find result (ascii "\x7bstream\x7d") 0
  let result := if pos ≠ npos then replace result pos 8 streamId.stream else result
  if r.pushUrl.isEmpty then result
  else if r.pushUrl.getLast? = some 47 then r.pushUrl ++ result
  else r.pushUrl ++ ascii "/" ++ result

/-- The host and the port, which `create_pusher` and `handle_pusher_disconnected` take out of the
URL; `resolve` is what `getaddrinfo` answers. -/
def pushAddress (r : RelaySettings) (resolve : List UInt8 → Except Failure (List UInt8))
    (streamId : StreamId) : Except Failure (List UInt8 × UInt16) :=
  let url := buildPushUrl r streamId
  let protoEnd := find url (ascii "://") 0
  if protoEnd = npos then .error (.err "Invalid push URL")
  else
    let hostStart := protoEnd + 3
    let pathStart := find url (ascii "/") hostStart
    parseAddress resolve (substr url hostStart (sizeSub pathStart hostStart))

/-- `RelayManager::create_pusher`: the pusher that is stored, and what its client is asked.  Without a
URL, or with one that leads nowhere, nothing is stored. -/
def createPusher (r : RelaySettings) (resolve : List UInt8 → Except Failure (List UInt8))
    (streamId : StreamId) : Option (Pusher × List ClientCall) :=
  if r.pushUrl.isEmpty then none
  else
    match pushAddress r resolve streamId with
    | .error _ => none
    | .ok (host, port) => some ({ streamId := streamId }, [.create, .connect host port])

/-! ### The handlers -/

/-- `RelayManager::handle_pusher_connected`. -/
def handlePusherConnected (r : RelaySettings) (p : Pusher) : Pusher × List ClientCall :=
  let url := buildPushUrl r p.streamId
  let pathStart := find url (ascii "/") (sizeAdd (find url (ascii "://") 0) 3)
  let path := if pathStart ≠ npos then substr url pathStart else ascii "/"
  let appEnd := find path (ascii "/") 1
  let app := if appEnd ≠ npos then substr path 1 (sizeSub appEnd 1) else substr path 1
  let connectObj := ((ObjectType.empty.set (ascii "app") (.string app)).set (ascii "type")
    (.string (ascii "nonprivate"))).set (ascii "tcUrl")
      (.string (substr url 0 (sizeAdd (sizeAdd pathStart app.length) 1)))
  let connectCmd : CommandMessage :=
    { name := ascii "connect", transactionId := 0x3FF0000000000000, arguments := [.object connectObj] }
  ({ p with connected := true, reconnectDelayMs := 100 }, [.sendCommand connectCmd, .flush])

/-- The command `createStream`. -/
def createStreamCmd : CommandMessage where
  name := ascii "createStream"
  transactionId := 0x4000000000000000
  arguments := [.null]

/-- The command `publish`. -/
def publishCmd (stream : List UInt8) : CommandMessage where
  name := ascii "publish"
  transactionId := 0
  arguments := [.null, .string stream, .string (ascii "live")]

/-- `RelayManager::handle_pusher_message`; `stale` is what the memory of the transaction id held. -/
def handlePusherMessage (p : Pusher) (stale : UInt64) (msg : Message) : Pusher × List ClientCall :=
  if msg.typeId = MessageType.commandAMF0.code then
    match CommandMessage.parse stale msg.payload with
    | none => (p, [])
    | some cmd =>
        if cmd.name = ascii "_result" ∧ p.publishing = false then
          if cmd.transactionId = 0x3FF0000000000000 then
            (p, [.sendCommand createStreamCmd, .flush])
          else if cmd.transactionId = 0x4000000000000000 then
            ({ p with publishing := true, buffer := [], pendingBytes := 0 },
              .sendCommand (publishCmd p.streamId.stream) :: .flush ::
                p.buffer.map .sendMessage)
          else (p, [])
        else (p, [])
  else (p, [])

/-- `RelayManager::handle_pusher_disconnected`. -/
def handlePusherDisconnected (r : RelaySettings)
    (resolve : List UInt8 → Except Failure (List UInt8)) (p : Pusher) : Pusher × List ClientCall :=
  let p :=
    { p with
      connected := false
      publishing := false
      reconnectDelayMs := min (p.reconnectDelayMs * 2) 5000 }
  match pushAddress r resolve p.streamId with
  | .error _ => (p, [.create])
  | .ok (host, port) => (p, [.create, .connect host port])

/-- The types of the messages that are relayed. -/
def isMedia (msg : Message) : Bool :=
  msg.typeId == MessageType.audio.code || msg.typeId == MessageType.video.code ||
    msg.typeId == MessageType.dataAMF0.code

/-- `RelayManager::relay_message`. -/
def relayMessage (policy : RelayPolicy) (p : Pusher) (msg : Message) : Pusher × List ClientCall :=
  if !isMedia msg then (p, [])
  else if p.publishing then (p, [.sendMessage msg])
  else
    let p := { p with pendingBytes := p.pendingBytes + msg.payload.length }
    let push (p : Pusher) : Pusher × List ClientCall := ({ p with buffer := p.buffer ++ [msg] }, [])
    if policy.maxPendingBytes < p.pendingBytes then
      match policy.backpressure, p.buffer with
      | .dropOldest, front :: buffer =>
          push
            { p with
              buffer := buffer
              pendingBytes := sizeSub p.pendingBytes front.payload.length }
      | .dropNewest, _ =>
          ({ p with pendingBytes := sizeSub p.pendingBytes msg.payload.length }, [])
      | _, _ => push p
    else push p

/-! ### A pusher as a machine -/

/-- What happens to a pusher. -/
inductive PusherEvent where
  | relay (msg : Message)
  | connected
  | message (stale : UInt64) (msg : Message)
  | disconnected (resolve : List UInt8 → Except Failure (List UInt8))

/-- What a pusher does. -/
def Pusher.handle (r : RelaySettings) (p : Pusher) : PusherEvent → Pusher × List ClientCall
  | .relay msg => relayMessage r.policy p msg
  | .connected => handlePusherConnected r p
  | .message stale msg => handlePusherMessage p stale msg
  | .disconnected resolve => handlePusherDisconnected r resolve p

def pusherMachine (r : RelaySettings) : Machine.Step Pusher PusherEvent ClientCall :=
  fun p event calls p' => p.handle r event = (p', calls)

/-! ### The queue without its counter -/

/-- The bytes that a list of messages carries. -/
def payloadBytes (messages : List Message) : ℕ := (messages.map fun msg => msg.payload.length).sum

@[simp] theorem payloadBytes_nil : payloadBytes [] = 0 := rfl

@[simp] theorem payloadBytes_cons (msg : Message) (messages : List Message) :
    payloadBytes (msg :: messages) = msg.payload.length + payloadBytes messages := rfl

@[simp] theorem payloadBytes_append (l₁ l₂ : List Message) :
    payloadBytes (l₁ ++ l₂) = payloadBytes l₁ + payloadBytes l₂ := by
  simp [payloadBytes]

/-- What a queue becomes when a message is held back: with too much in it, at most one message is
dropped. -/
def holdBack (policy : RelayPolicy) (buffer : List Message) (msg : Message) : List Message :=
  if payloadBytes buffer + msg.payload.length ≤ policy.maxPendingBytes then buffer ++ [msg]
  else
    match policy.backpressure, buffer with
    | .dropOldest, _ :: rest => rest ++ [msg]
    | .dropNewest, _ => buffer
    | _, _ => buffer ++ [msg]

/-- The counter of a pusher is right. -/
def Pusher.Accounted (p : Pusher) : Prop := p.pendingBytes = payloadBytes p.buffer

variable {policy : RelayPolicy} {p : Pusher} {msg : Message}

/-- **Holding a message back is `holdBack`, and the counter follows**; no subtraction wraps. -/
theorem Pusher.Accounted.relayMessage (h : p.Accounted) (hmedia : isMedia msg = true)
    (hpublishing : p.publishing = false) :
    relayMessage policy p msg =
      ({ p with
          buffer := holdBack policy p.buffer msg
          pendingBytes := payloadBytes (holdBack policy p.buffer msg) }, []) := by
  obtain ⟨streamId, connected, publishing, delay, pending, buffer⟩ := p
  obtain rfl : pending = payloadBytes buffer := h
  obtain rfl : publishing = false := hpublishing
  simp only [Relay.relayMessage, hmedia, Bool.not_true, Bool.false_eq_true, if_false, holdBack]
  by_cases hfits : payloadBytes buffer + msg.payload.length ≤ policy.maxPendingBytes
  · rw [if_neg (Nat.not_lt.2 hfits), if_pos hfits]
    simp
  · rw [if_pos (Nat.not_le.1 hfits), if_neg hfits]
    cases hpolicy : policy.backpressure with
    | dropOldest =>
        cases buffer with
        | nil => simp
        | cons front rest =>
            simp only [payloadBytes_cons, payloadBytes_append, payloadBytes_nil, Nat.add_zero]
            rw [sizeSub_of_le (by omega)]
            simp only [Prod.mk.injEq, Pusher.mk.injEq, true_and, and_true]
            omega
    | dropNewest =>
        simp only
        rw [sizeSub_of_le (by omega), Nat.add_sub_cancel]
    | disconnect => simp

/-- An answer from upstream does nothing, or asks for a stream, or is the one that lets the pusher
publish. -/
theorem handlePusherMessage_cases (p : Pusher) (stale : UInt64) (msg : Message) :
    handlePusherMessage p stale msg = (p, []) ∨
      handlePusherMessage p stale msg = (p, [.sendCommand createStreamCmd, .flush]) ∨
      (p.publishing = false ∧ handlePusherMessage p stale msg =
        ({ p with publishing := true, buffer := [], pendingBytes := 0 },
          .sendCommand (publishCmd p.streamId.stream) :: .flush :: p.buffer.map .sendMessage)) := by
  unfold handlePusherMessage
  split
  · split
    · exact .inl rfl
    · split
      · rename_i hresult
        split
        · exact .inr (.inl rfl)
        · split
          · exact .inr (.inr ⟨hresult.2, rfl⟩)
          · exact .inl rfl
      · exact .inl rfl
  · exact .inl rfl

end Relay
