/-
**A pusher of this program and a publisher's port of another instance.**

`Link.lean` carries messages from one instance of this program to another one.  This module says what
they mean there.  A pusher sends `connect`, and on the answer `createStream`, and on the answer to that
`publish` and its media; the handlers at the other end answer each of these commands, and handle media
as those of the stream that has been named by `connect` and `publish`.  The two take their turns in any
order.

The connection is an ideal one: what is on its way in either direction is a queue of whole messages, none
of which is lost.  How they are encoded, cut, accepted in parts and parsed is the matter of `Link.lean`,
and what of it can go wrong (an empty message is not sent, an answer that is cut may be lost) is left out
here.

That `connect` has been handled when `publish` comes is not checked anywhere.  It follows from what
causes what: `publish` is sent on the answer to `createStream`, which is sent on the answer to
`connect`, and neither answer comes before the question.  And the dialogue does not stop half way: as
long as the pusher does not publish, the next command or the answer to the last one is on its way.

Main definitions:

* `Cascade.connectCmd` — the command `connect` of a pusher;
* `Cascade.pusherEnd`, `Cascade.publisherEnd` — the two parties;
* `Cascade.Spoken` — what a pusher has said on a connection, and what it has made of the answers;
* `Cascade.Answered` — what the handlers have made of what they have handled, and what they answer;
* `Cascade.Cascaded` — a run of the two, as long as the connection stands;
* `Cascade.Dialogue` — what holds of both sides together.

Main results:

* `Cascade.named_handled` — what a message means to the stream of a publisher;
* `Cascade.Spoken.step`, `Cascade.Answered.step`, `Cascade.Dialogue.step` — one step of the pusher, of
  the handlers, and of either of them;
* `Cascade.media_named` — **media are handled as those of the stream that the pusher pushes**, in order;
* `Cascade.quiescent_publishes` — **when nothing is on its way, the pusher publishes**.
-/

import RtmpTranscoder.Duplex
import RtmpTranscoder.PublisherIsolation
import RtmpTranscoder.PublisherReplies
import RtmpTranscoder.PusherLifetime
import RtmpTranscoder.RelayQueue

set_option relaxedAutoImplicit false
set_option autoImplicit false

namespace Cascade

open Amf0 (ObjectType)
open Duplex (Party Step leftTrace rightTrace givenLeft givenRight)
open Machine (Moment Run)
open Relay (RelaySettings StreamId Pusher PusherEvent ClientCall Relays Publisher PublisherEvent
  CallOutcome pusherMachine handlePusherConnected handlePusherMessage handlePusherMessage_cases
  relayMessage isMedia buildPushUrl createStreamCmd publishCmd handlePublisherMessage commandOf replyTo
  connectApp publishStream connectReply createStreamReply publishReply)
open Rtmp (Failure Message MessageType CommandMessage)
open Text

/-! ### What is said -/

/-- The command that a pusher sends when its client is connected. -/
def connectCmd (r : RelaySettings) (streamId : StreamId) : CommandMessage :=
  let url := buildPushUrl r streamId
  let pathStart := find url (ascii "/") (sizeAdd (find url (ascii "://") 0) 3)
  let path := if pathStart ≠ npos then substr url pathStart else ascii "/"
  let appEnd := find path (ascii "/") 1
  let app := if appEnd ≠ npos then substr path 1 (sizeSub appEnd 1) else substr path 1
  { name := ascii "connect"
    transactionId := 0x3FF0000000000000
    arguments :=
      [.object (((ObjectType.empty.set (ascii "app") (.string app)).set (ascii "type")
        (.string (ascii "nonprivate"))).set (ascii "tcUrl")
          (.string (substr url 0 (sizeAdd (sizeAdd pathStart app.length) 1))))] }

/-- `connect` is what a pusher sends, and all that it sends, when its client is connected. -/
theorem handlePusherConnected_eq (r : RelaySettings) (p : Pusher) :
    handlePusherConnected r p = ({ p with connected := true, reconnectDelayMs := 100 },
      [.sendCommand (connectCmd r p.streamId), .flush]) := rfl

/-- A command, as it is sent. -/
def commandMessage (cmd : CommandMessage) : Message where
  typeId := MessageType.commandAMF0.code
  timestamp := 0
  streamId := 0
  payload := cmd.encode

/-- The messages that a pusher's client is asked to send. -/
def messagesOf (calls : List ClientCall) : List Message :=
  calls.filterMap fun
    | .sendCommand cmd => some (commandMessage cmd)
    | .sendMessage msg => some msg
    | _ => none

theorem messagesOf_sendMessage (messages : List Message) :
    messagesOf (messages.map .sendMessage) = messages := by
  simp [messagesOf, List.filterMap_map]

def commandsOf (messages : List Message) : List Message :=
  messages.filter fun msg => msg.typeId == MessageType.commandAMF0.code

theorem mem_commandsOf {messages : List Message} {msg : Message} :
    msg ∈ commandsOf messages ↔ msg ∈ messages ∧ msg.typeId = MessageType.commandAMF0.code := by
  simp [commandsOf]

/-! ### The parties -/

/-- A pusher's end of an ideal connection: the messages that its client is asked to send are given, whole
and in order. -/
def pusherEnd (r : RelaySettings) : Party Pusher PusherEvent ClientCall Message where
  step := pusherMachine r
  takes
    | _, .message _ msg => [msg]
    | _, _ => []
  gives m given := given = messagesOf m.outputs

/-- A message that is handled, and what the handler finds. -/
structure Handling where
  relays : Relays
  outcome : CallOutcome
  msg : Message

/-- The handlers' end of an ideal connection, whatever the others do to the relays: a message is taken
whole, and answers are given whole.  Behind the handshake there are messages of the protocol besides the
answers, none of them a command. -/
def publisherEnd : Party Publisher Handling PublisherEvent Message where
  step pub i out pub' := ∃ r', handlePublisherMessage i.relays pub i.outcome i.msg = .ok (r', pub', out)
  takes _ i := [i.msg]
  gives m given := commandsOf given = (replyTo m.input.outcome m.input.msg).toList.map commandMessage

abbrev CascadeState := Duplex.State Pusher Publisher Message

abbrev CascadeMoment :=
  Moment CascadeState (Duplex.Input PusherEvent Handling Message) (ClientCall ⊕ PublisherEvent)

/-! ### What the handlers make of it -/

/-- What a command says about the stream of a publisher, and whether it is ready. -/
def namedBy (known : StreamId × Bool) : Option CommandMessage → StreamId × Bool
  | none => known
  | some cmd =>
      if cmd.name = ascii "connect" then ({ known.1 with app := connectApp cmd }, known.2)
      else if cmd.name = ascii "createStream" then known
      else if cmd.name = ascii "publish" then
        match publishStream cmd with
        | some stream => ({ known.1 with stream := stream }, true)
        | none => known
      else known

theorem named_respond {pub pub' : Publisher} {response : CommandMessage} {out : List PublisherEvent}
    (h : Relay.respond pub response = .ok (pub', out)) :
    pub'.streamId = pub.streamId ∧ pub'.ready = pub.ready := by
  obtain ⟨buffer, rfl, -⟩ := Relay.respond_ok h
  exact ⟨rfl, rfl⟩

/-- **What a message means to the stream of a publisher.** -/
theorem named_handled {r r' : Relays} {pub pub' : Publisher} {o : CallOutcome} {msg : Message}
    {out : List PublisherEvent} (h : handlePublisherMessage r pub o msg = .ok (r', pub', out)) :
    (pub'.streamId, pub'.ready) = namedBy (pub.streamId, pub.ready) (commandOf o msg) := by
  unfold handlePublisherMessage at h
  unfold commandOf
  split at h
  · rename_i htype
    rw [if_pos htype]
    split at h
    · rename_i hparse
      obtain ⟨-, rfl, -⟩ := Relay.ok_inj h
      rw [hparse]
      rfl
    · rename_i cmd hparse
      rw [hparse]
      rcases Relay.handlePublisherCommand_cases h with ⟨hconnect, -, hrespond⟩ |
        ⟨hconnect, hcreate, -, hrespond⟩ |
        ⟨hconnect, hcreate, hpublish, stream, answer, started, hstream, hrespond, -, -⟩ |
        ⟨hconnect, hcreate, hnone, -, rfl, -⟩
      · obtain ⟨hid, hready⟩ := named_respond hrespond
        simp only [namedBy, hconnect, if_true, hid, hready]
      · obtain ⟨hid, hready⟩ := named_respond hrespond
        simp only [namedBy, if_neg hconnect, if_pos hcreate, hid, hready]
      · obtain ⟨hid, hready⟩ := named_respond hrespond
        simp only [namedBy, if_neg hconnect, if_neg hcreate, if_pos hpublish, hstream, hid, hready]
      · simp only [namedBy, if_neg hconnect, if_neg hcreate]
        split
        · rename_i hname
          rw [hnone hname]
        · rfl
  · rename_i htype
    rw [if_neg htype]
    split at h
    · obtain ⟨-, rfl, -⟩ := Relay.ok_inj h
      rfl
    · obtain ⟨-, rfl, -⟩ := Relay.ok_inj h
      rfl

/-! ### The commands of the dialogue -/

/-- `connect` and `publish` fit their length fields. -/
structure Fits (r : RelaySettings) (streamId : StreamId) : Prop where
  url : (buildPushUrl r streamId).length ≤ 65535
  stream : streamId.stream.length ≤ 65535

section Commands

variable {r : RelaySettings} {streamId : StreamId} {msg : Message}

theorem commandOf_commandMessage {cmd : CommandMessage} (h : cmd.Bounded) (o : CallOutcome) :
    commandOf o (commandMessage cmd) = some cmd :=
  (if_pos rfl).trans (CommandMessage.parse_encode h o.stale)

theorem bounded_createStreamCmd : createStreamCmd.Bounded := by
  refine ⟨by decide, fun v hv => ?_⟩
  rw [List.mem_singleton.1 hv]
  exact .null

theorem bounded_publishCmd {stream : List UInt8} (h : stream.length ≤ 65535) :
    (publishCmd stream).Bounded := by
  refine ⟨(by decide : (ascii "publish").length ≤ 65535), fun v hv => ?_⟩
  simp only [publishCmd, List.mem_cons, List.not_mem_nil, or_false] at hv
  rcases hv with rfl | rfl | rfl
  · exact .null
  · exact .string h
  · exact .string (by decide)

theorem bounded_createStreamReply (t : UInt64) : (createStreamReply t).Bounded := by
  refine ⟨(by decide : (ascii "_result").length ≤ 65535), fun v hv => ?_⟩
  rcases List.mem_pair.1 hv with rfl | rfl
  · exact .null
  · exact .number _

/-- An object whose keys and values are bounded is a bounded value. -/
theorem bounded_object {obj : ObjectType} (h : obj.Bounded) : (Amf0.Value.object obj).1.Bounded :=
  .object (fun p hp => (h p hp).1) fun p hp => (h p hp).2

theorem bounded_empty : ObjectType.empty.Bounded := fun _ hp => absurd hp List.not_mem_nil

theorem length_substr_le (text : List UInt8) (pos n : ℕ) : (substr text pos n).length ≤ text.length := by
  rw [substr, List.length_take, List.length_drop]
  omega

theorem Fits.connect (h : Fits r streamId) : (connectCmd r streamId).Bounded := by
  have hurl := h.url
  refine ⟨(by decide : (ascii "connect").length ≤ 65535), fun v hv => ?_⟩
  rw [List.mem_singleton.1 hv]
  have hpath (pos : ℕ) : (if pos ≠ npos then substr (buildPushUrl r streamId) pos
      else ascii "/").length ≤ 65535 := by
    split
    · exact (length_substr_le _ _ _).trans hurl
    · exact (by decide : (ascii "/").length ≤ 65535)
  have happ (path : List UInt8) (appEnd : ℕ) (hle : path.length ≤ 65535) :
      (if appEnd ≠ npos then substr path 1 (sizeSub appEnd 1) else substr path 1).length ≤ 65535 := by
    split
    · exact (length_substr_le _ _ _).trans hle
    · exact (length_substr_le _ _ _).trans hle
  refine bounded_object (((bounded_empty.set (by decide) (.string ?_)).set (by decide)
    (.string (by decide))).set (by decide) (.string ?_))
  · exact happ _ _ (hpath _)
  · exact (length_substr_le _ _ _).trans hurl

theorem bounded_connectReply (t : UInt64) : (connectReply t).Bounded := by
  refine ⟨(by decide : (ascii "_result").length ≤ 65535), fun v hv => ?_⟩
  rcases List.mem_pair.1 hv with rfl | rfl
  · exact bounded_object ((bounded_empty.set (by decide) (.string (by decide))).set (by decide)
      (.number _))
  · exact bounded_object ((((bounded_empty.set (by decide) (.string (by decide))).set (by decide)
      (.string (by decide))).set (by decide) (.string (by decide))).set (by decide) (.number _))

theorem bounded_publishReply : publishReply.Bounded := by
  refine ⟨by decide, fun v hv => ?_⟩
  rcases List.mem_pair.1 hv with rfl | rfl
  · exact .null
  · exact bounded_object (((bounded_empty.set (by decide) (.string (by decide))).set (by decide)
      (.string (by decide))).set (by decide) (.string (by decide)))

/-- The application that `connect` names. -/
def appOf (r : RelaySettings) (streamId : StreamId) : List UInt8 := connectApp (connectCmd r streamId)

/-- The three things that a pusher says besides its media. -/
def connects (r : RelaySettings) (streamId : StreamId) : Message := commandMessage (connectCmd r streamId)

def creates : Message := commandMessage createStreamCmd

def publishes (streamId : StreamId) : Message := commandMessage (publishCmd streamId.stream)

/-- What a pusher says: one of three commands, or media. -/
def Phrase (r : RelaySettings) (streamId : StreamId) (msg : Message) : Prop :=
  msg = connects r streamId ∨ msg = creates ∨ msg = publishes streamId ∨ isMedia msg = true

theorem typeId_of_isMedia (h : isMedia msg = true) : msg.typeId ≠ MessageType.commandAMF0.code := by
  intro htype
  rw [isMedia, htype] at h
  exact absurd h (by decide)

theorem isMedia_commandMessage (cmd : CommandMessage) : isMedia (commandMessage cmd) = false := rfl

theorem commandOf_connects (h : Fits r streamId) (o : CallOutcome) :
    commandOf o (connects r streamId) = some (connectCmd r streamId) :=
  commandOf_commandMessage h.connect o

theorem commandOf_creates (o : CallOutcome) : commandOf o creates = some createStreamCmd :=
  commandOf_commandMessage bounded_createStreamCmd o

theorem commandOf_publishes (h : Fits r streamId) (o : CallOutcome) :
    commandOf o (publishes streamId) = some (publishCmd streamId.stream) :=
  commandOf_commandMessage (bounded_publishCmd h.stream) o

theorem replyTo_connect (h : Fits r streamId) (o : CallOutcome) :
    replyTo o (connects r streamId) = some (connectReply 0x3FF0000000000000) := by
  rw [replyTo, commandOf_connects h, Option.bind_some]
  exact if_pos rfl

theorem replyTo_create (o : CallOutcome) :
    replyTo o creates = some (createStreamReply 0x4000000000000000) := by
  have hconnect : createStreamCmd.name ≠ ascii "connect" := by decide
  have hcreate : createStreamCmd.name = ascii "createStream" := rfl
  rw [replyTo, commandOf_creates, Option.bind_some, if_neg hconnect, if_pos hcreate]
  rfl

theorem replyTo_publish (h : Fits r streamId) (o : CallOutcome) :
    replyTo o (publishes streamId) = some publishReply := by
  have hconnect : (publishCmd streamId.stream).name ≠ ascii "connect" :=
    (by decide : ascii "publish" ≠ ascii "connect")
  have hcreate : (publishCmd streamId.stream).name ≠ ascii "createStream" :=
    (by decide : ascii "publish" ≠ ascii "createStream")
  have hpublish : (publishCmd streamId.stream).name = ascii "publish" := rfl
  rw [replyTo, commandOf_publishes h, Option.bind_some, if_neg hconnect, if_neg hcreate,
    if_pos hpublish]
  rfl

theorem replyTo_media (h : isMedia msg = true) (o : CallOutcome) : replyTo o msg = none := by
  rw [replyTo, commandOf, if_neg (typeId_of_isMedia h)]
  rfl

/-- The answers to `connect`, `createStream` and `publish`. -/
def connectAnswer : Message := commandMessage (connectReply 0x3FF0000000000000)

def createAnswer : Message := commandMessage (createStreamReply 0x4000000000000000)

def publishAnswer : Message := commandMessage publishReply

theorem answers_connects (h : Fits r streamId) (o : CallOutcome) :
    (replyTo o (connects r streamId)).toList.map commandMessage = [connectAnswer] := by
  rw [replyTo_connect h, Option.toList_some, List.map_singleton, connectAnswer]

theorem answers_creates (o : CallOutcome) :
    (replyTo o creates).toList.map commandMessage = [createAnswer] := by
  rw [replyTo_create, Option.toList_some, List.map_singleton, createAnswer]

theorem answers_publishes (h : Fits r streamId) (o : CallOutcome) :
    (replyTo o (publishes streamId)).toList.map commandMessage = [publishAnswer] := by
  rw [replyTo_publish h, Option.toList_some, List.map_singleton, publishAnswer]

theorem answers_media (h : isMedia msg = true) (o : CallOutcome) :
    (replyTo o msg).toList.map commandMessage = [] := by
  rw [replyTo_media h, Option.toList_none, List.map_nil]

theorem commandMessage_inj {cmd cmd' : CommandMessage} (h : cmd.Bounded) (h' : cmd'.Bounded)
    (heq : commandMessage cmd = commandMessage cmd') : cmd = cmd' := by
  have hparse := CommandMessage.parse_encode h 0
  rw [show cmd.encode = cmd'.encode from congrArg Message.payload heq,
    CommandMessage.parse_encode h' 0] at hparse
  exact (Option.some.inj hparse).symm

theorem connectAnswer_ne_createAnswer : connectAnswer ≠ createAnswer := by
  intro heq
  have hcmd := commandMessage_inj (bounded_connectReply _) (bounded_createStreamReply _) heq
  exact absurd (congrArg CommandMessage.transactionId hcmd) (by decide)

theorem connectAnswer_ne_publishAnswer : connectAnswer ≠ publishAnswer := by
  intro heq
  have hcmd := commandMessage_inj (bounded_connectReply _) bounded_publishReply heq
  exact absurd (congrArg CommandMessage.name hcmd) (by decide)

theorem createAnswer_ne_publishAnswer : createAnswer ≠ publishAnswer := by
  intro heq
  have hcmd := commandMessage_inj (bounded_createStreamReply _) bounded_publishReply heq
  exact absurd (congrArg CommandMessage.name hcmd) (by decide)

/-! ### What the answers mean to the pusher -/

theorem handlePusherMessage_connectAnswer {p : Pusher} (hp : p.publishing = false) (stale : UInt64) :
    handlePusherMessage p stale connectAnswer = (p, [.sendCommand createStreamCmd, .flush]) := by
  have hparse := CommandMessage.parse_encode (bounded_connectReply 0x3FF0000000000000) stale
  have hname : (connectReply 0x3FF0000000000000).name = ascii "_result" := rfl
  have htransaction : (connectReply 0x3FF0000000000000).transactionId = 0x3FF0000000000000 := rfl
  simp only [handlePusherMessage, connectAnswer, commandMessage, if_true, hparse, hname, hp,
    and_self, htransaction]

theorem handlePusherMessage_createAnswer {p : Pusher} (hp : p.publishing = false) (stale : UInt64) :
    handlePusherMessage p stale createAnswer =
      ({ p with publishing := true, buffer := [], pendingBytes := 0 },
        .sendCommand (publishCmd p.streamId.stream) :: .flush :: p.buffer.map .sendMessage) := by
  have hparse := CommandMessage.parse_encode (bounded_createStreamReply 0x4000000000000000) stale
  have hname : (createStreamReply 0x4000000000000000).name = ascii "_result" := rfl
  have htransaction : (createStreamReply 0x4000000000000000).transactionId = 0x4000000000000000 := rfl
  have hother : (0x4000000000000000 : UInt64) ≠ 0x3FF0000000000000 := by decide
  simp only [handlePusherMessage, createAnswer, commandMessage, if_true, hparse, hname, hp,
    and_self, htransaction, if_neg hother]

theorem handlePusherMessage_publishAnswer (p : Pusher) (stale : UInt64) :
    handlePusherMessage p stale publishAnswer = (p, []) := by
  have hparse := CommandMessage.parse_encode bounded_publishReply stale
  have hname : publishReply.name ≠ ascii "_result" := by decide
  simp only [handlePusherMessage, publishAnswer, commandMessage, if_true, hparse]
  exact if_neg fun h => hname h.1

theorem handlePusherMessage_publishing {p : Pusher} (hp : p.publishing = true) (stale : UInt64)
    (msg : Message) : handlePusherMessage p stale msg = (p, []) := by
  unfold handlePusherMessage
  split
  · split
    · rfl
    · exact if_neg fun h => by simp [hp] at h
  · rfl

end Commands

/-! ### The pusher's side -/

section Spoken

variable {r : RelaySettings} {streamId : StreamId} {p p' : Pusher} {said heard : List Message}

/-- Media come behind `publish`. -/
def BehindPublish (streamId : StreamId) (before : List Message) (msg : Message) : Prop :=
  isMedia msg = true → publishes streamId ∈ before

/-- What comes back is an answer, or no command. -/
def IsAnswer (msg : Message) : Prop :=
  msg.typeId = MessageType.commandAMF0.code →
    msg = connectAnswer ∨ msg = createAnswer ∨ msg = publishAnswer

/-- What a pusher has said on a connection, and what it has made of what it has heard. -/
structure Spoken (r : RelaySettings) (streamId : StreamId) (said heard : List Message) (p : Pusher) :
    Prop where
  own : p.streamId = streamId
  phrases : ∀ msg ∈ said, Phrase r streamId msg
  ordered : Machine.Obeys (BehindPublish streamId) said
  held : ∀ msg ∈ p.buffer, isMedia msg = true
  connected : p.connected = true → connects r streamId ∈ said
  publishing : p.publishing = true → publishes streamId ∈ said
  create : creates ∈ said → connectAnswer ∈ heard
  publish : publishes streamId ∈ said → createAnswer ∈ heard
  asked : connectAnswer ∈ heard → p.publishing = true ∨ creates ∈ said
  allowed : createAnswer ∈ heard → p.publishing = true

theorem connects_ne_creates (h : Fits r streamId) : creates ≠ connects r streamId := by
  intro heq
  have hcmd := commandMessage_inj bounded_createStreamCmd h.connect heq
  exact absurd (congrArg CommandMessage.name hcmd)
    (by decide : ascii "createStream" ≠ ascii "connect")

theorem connects_ne_publishes (h : Fits r streamId) : publishes streamId ≠ connects r streamId := by
  intro heq
  have hcmd := commandMessage_inj (bounded_publishCmd h.stream) h.connect heq
  exact absurd (congrArg CommandMessage.name hcmd) (by decide : ascii "publish" ≠ ascii "connect")

theorem creates_ne_publishes (h : Fits r streamId) : publishes streamId ≠ creates := by
  intro heq
  have hcmd := commandMessage_inj (bounded_publishCmd h.stream) bounded_createStreamCmd heq
  exact absurd (congrArg CommandMessage.name hcmd)
    (by decide : ascii "publish" ≠ ascii "createStream")

theorem ordered_command (h : Machine.Obeys (BehindPublish streamId) said) (cmd : CommandMessage) :
    Machine.Obeys (BehindPublish streamId) (said ++ [commandMessage cmd]) :=
  h.snoc fun hmedia => Bool.noConfusion ((isMedia_commandMessage cmd).symm.trans hmedia)

/-- Once `publish` has been said, anything may be. -/
theorem ordered_append (h : Machine.Obeys (BehindPublish streamId) said)
    (hmem : publishes streamId ∈ said) (more : List Message) :
    Machine.Obeys (BehindPublish streamId) (said ++ more) := by
  induction more using List.reverseRecOn with
  | nil => rwa [List.append_nil]
  | append_singleton more msg ih =>
      rw [← List.append_assoc]
      exact ih.snoc fun _ => List.mem_append_left _ hmem

theorem phrases_append (h : Spoken r streamId said heard p) {more : List Message}
    (hmore : ∀ msg ∈ more, Phrase r streamId msg) : ∀ msg ∈ said ++ more, Phrase r streamId msg := by
  intro msg hmsg
  rcases List.mem_append.1 hmsg with hold | hnew
  · exact h.phrases msg hold
  · exact hmore msg hnew

theorem mem_of_ne {msg last : Message} (hne : msg ≠ last) (hmem : msg ∈ said ++ [last]) :
    msg ∈ said := by
  rcases List.mem_append.1 hmem with hold | hnew
  · exact hold
  · exact absurd (List.mem_singleton.1 hnew) hne

/-- The pusher says nothing.  What it has heard does not matter to it. -/
theorem Spoken.silent (h : Spoken r streamId said heard p) {more : List Message}
    (hmore : p.publishing = true ∨ (connectAnswer ∉ more ∧ createAnswer ∉ more))
    (hown : p'.streamId = p.streamId) (hheld : ∀ msg ∈ p'.buffer, isMedia msg = true)
    (hconnected : p'.connected = p.connected) (hpublishing : p'.publishing = p.publishing) :
    Spoken r streamId said (heard ++ more) p' where
  own := hown.trans h.own
  phrases := h.phrases
  ordered := h.ordered
  held := hheld
  connected hc := h.connected (hconnected ▸ hc)
  publishing hp := h.publishing (hpublishing ▸ hp)
  create hmem := List.mem_append_left _ (h.create hmem)
  publish hmem := List.mem_append_left _ (h.publish hmem)
  asked hmem := by
    rw [hpublishing]
    rcases hmore with hp | ⟨hne, -⟩
    · exact .inl hp
    · exact h.asked ((List.mem_append.1 hmem).resolve_right hne)
  allowed hmem := by
    rw [hpublishing]
    rcases hmore with hp | ⟨-, hne⟩
    · exact hp
    · exact h.allowed ((List.mem_append.1 hmem).resolve_right hne)

theorem Spoken.says (h : Spoken r streamId said heard p) (hpublishing : p.publishing = true)
    {msg : Message} (hmedia : isMedia msg = true) :
    Spoken r streamId (said ++ [msg]) heard p where
  own := h.own
  phrases := phrases_append h fun _ hm => (List.mem_singleton.1 hm).symm ▸ .inr (.inr (.inr hmedia))
  ordered := ordered_append h.ordered (h.publishing hpublishing) _
  held := h.held
  connected hc := List.mem_append_left _ (h.connected hc)
  publishing hp := List.mem_append_left _ (h.publishing hp)
  create hmem := h.create (mem_of_ne (fun heq => by
    rw [← heq] at hmedia
    exact Bool.false_ne_true hmedia) hmem)
  publish _ := h.publish (h.publishing hpublishing)
  asked _ := .inl hpublishing
  allowed _ := hpublishing

theorem Spoken.connects (h : Spoken r streamId said heard p) (hfits : Fits r streamId) :
    Spoken r streamId (said ++ messagesOf (handlePusherConnected r p).2) heard
      (handlePusherConnected r p).1 := by
  rw [handlePusherConnected_eq, h.own]
  change Spoken r streamId (said ++ [Cascade.connects r streamId]) heard _
  exact
    { own := rfl
      phrases := phrases_append h fun _ hm => .inl (List.mem_singleton.1 hm)
      ordered := ordered_command h.ordered _
      held := h.held
      connected := fun _ => List.mem_append_right _ (List.mem_singleton_self _)
      publishing := fun hp => List.mem_append_left _ (h.publishing hp)
      create := fun hmem => h.create (mem_of_ne (connects_ne_creates hfits) hmem)
      publish := fun hmem => h.publish (mem_of_ne (connects_ne_publishes hfits) hmem)
      asked := fun hmem => (h.asked hmem).imp_right (List.mem_append_left _)
      allowed := h.allowed }

/-- The answer to `connect` comes in. -/
theorem Spoken.creates (h : Spoken r streamId said heard p) (hfits : Fits r streamId)
    (hpublishing : p.publishing = false) :
    Spoken r streamId (said ++ [Cascade.creates]) (heard ++ [connectAnswer]) p where
  own := h.own
  phrases := phrases_append h fun _ hm => .inr (.inl (List.mem_singleton.1 hm))
  ordered := ordered_command h.ordered _
  held := h.held
  connected hc := List.mem_append_left _ (h.connected hc)
  publishing hp := absurd hp (hpublishing ▸ Bool.false_ne_true)
  create _ := List.mem_append_right _ (List.mem_singleton_self _)
  publish hmem := List.mem_append_left _ (h.publish (mem_of_ne (creates_ne_publishes hfits) hmem))
  asked _ := .inr (List.mem_append_right _ (List.mem_singleton_self _))
  allowed hmem := h.allowed (mem_of_ne connectAnswer_ne_createAnswer.symm hmem)

/-- The answer to `createStream` comes in: `publish` is sent, and what has been held back behind it. -/
theorem Spoken.publishes (h : Spoken r streamId said heard p) (hfits : Fits r streamId) :
    Spoken r streamId (said ++ Cascade.publishes streamId :: p.buffer) (heard ++ [createAnswer])
      { p with publishing := true, buffer := [], pendingBytes := 0 } where
  own := h.own
  phrases := phrases_append h fun msg hm => by
    rcases List.mem_cons.1 hm with rfl | hheld
    · exact .inr (.inr (.inl rfl))
    · exact .inr (.inr (.inr (h.held msg hheld)))
  ordered := by
    have hpublish := ordered_command h.ordered (publishCmd streamId.stream)
    have hall := ordered_append hpublish (List.mem_append_right _ (List.mem_singleton_self _)) p.buffer
    rwa [List.append_assoc, List.singleton_append] at hall
  held _ hmem := absurd hmem List.not_mem_nil
  connected hc := List.mem_append_left _ (h.connected hc)
  publishing _ := List.mem_append_right _ List.mem_cons_self
  create hmem := List.mem_append_left _ (by
    rcases List.mem_append.1 hmem with hold | hnew
    · exact h.create hold
    · rcases List.mem_cons.1 hnew with heq | hheld
      · exact absurd heq.symm (creates_ne_publishes hfits)
      · exact absurd (h.held _ hheld) Bool.false_ne_true)
  publish _ := List.mem_append_right _ (List.mem_singleton_self _)
  asked _ := .inl rfl
  allowed _ := rfl

/-- What is given to a pusher is not media, or is sent at once, or is held back, which may drop what has
been held back before. -/
theorem relayMessage_cases (policy : Relay.RelayPolicy) (p : Pusher) (msg : Message) :
    relayMessage policy p msg = (p, []) ∨
      (isMedia msg = true ∧ p.publishing = true ∧ relayMessage policy p msg = (p, [.sendMessage msg])) ∨
      (isMedia msg = true ∧ ∃ buffer bytes,
        relayMessage policy p msg = ({ p with buffer := buffer, pendingBytes := bytes }, []) ∧
          ∀ held ∈ buffer, held ∈ p.buffer ∨ held = msg) := by
  unfold relayMessage
  by_cases hmedia : isMedia msg = true
  · simp only [hmedia, Bool.not_true, Bool.false_eq_true, if_false, true_and]
    by_cases hpublishing : p.publishing = true
    · exact .inr (.inl ⟨hpublishing, if_pos hpublishing⟩)
    · refine .inr (.inr ?_)
      rw [if_neg hpublishing]
      have hpush (rest : List Message) (hrest : ∀ held ∈ rest, held ∈ p.buffer) :
          ∀ held ∈ rest ++ [msg], held ∈ p.buffer ∨ held = msg := by
        intro held hheld
        rcases List.mem_append.1 hheld with hold | hnew
        · exact .inl (hrest held hold)
        · exact .inr (List.mem_singleton.1 hnew)
      split
      · split
        · rename_i front rest _ hbuffer
          refine ⟨_, _, rfl, hpush rest fun held hheld => ?_⟩
          have hbuffer' : p.buffer = front :: rest := hbuffer
          rw [hbuffer']
          exact List.mem_cons_of_mem _ hheld
        · exact ⟨_, _, rfl, fun held hheld => .inl hheld⟩
        · exact ⟨_, _, rfl, hpush p.buffer fun _ hheld => hheld⟩
      · exact ⟨_, _, rfl, hpush p.buffer fun _ hheld => hheld⟩
  · refine .inl (if_pos ?_)
    simp [hmedia]

theorem Spoken.relays (h : Spoken r streamId said heard p) (msg : Message) :
    Spoken r streamId (said ++ messagesOf (relayMessage r.policy p msg).2) heard
      (relayMessage r.policy p msg).1 := by
  rcases relayMessage_cases r.policy p msg with hcase | ⟨hmedia, hpublishing, hcase⟩ |
    ⟨hmedia, buffer, bytes, hcase, hheld⟩
  · rw [hcase]
    change Spoken r streamId (said ++ []) heard p
    rwa [List.append_nil]
  · rw [hcase]
    exact h.says hpublishing hmedia
  · rw [hcase]
    change Spoken r streamId (said ++ []) heard _
    rw [List.append_nil, ← List.append_nil heard]
    refine h.silent (.inr ⟨List.not_mem_nil, List.not_mem_nil⟩) rfl (fun held hmem => ?_) rfl rfl
    rcases hheld held hmem with hold | rfl
    · exact h.held held hold
    · exact hmedia

theorem Spoken.hears (h : Spoken r streamId said heard p) (hfits : Fits r streamId) {msg : Message}
    (hmsg : IsAnswer msg) (stale : UInt64) :
    Spoken r streamId (said ++ messagesOf (handlePusherMessage p stale msg).2) (heard ++ [msg])
      (handlePusherMessage p stale msg).1 := by
  have hignored (hcase : handlePusherMessage p stale msg = (p, []))
      (hmore : p.publishing = true ∨ (connectAnswer ∉ [msg] ∧ createAnswer ∉ [msg])) :
      Spoken r streamId (said ++ messagesOf (handlePusherMessage p stale msg).2) (heard ++ [msg])
        (handlePusherMessage p stale msg).1 := by
    rw [hcase]
    change Spoken r streamId (said ++ []) _ p
    rw [List.append_nil]
    exact h.silent hmore rfl h.held rfl rfl
  by_cases htype : msg.typeId = MessageType.commandAMF0.code
  · cases hpublishing : p.publishing with
    | true => exact hignored (handlePusherMessage_publishing hpublishing stale msg) (.inl hpublishing)
    | false =>
        rcases hmsg htype with rfl | rfl | rfl
        · rw [handlePusherMessage_connectAnswer hpublishing]
          exact h.creates hfits hpublishing
        · rw [handlePusherMessage_createAnswer hpublishing]
          have hsaid := h.publishes hfits
          rw [← messagesOf_sendMessage p.buffer, ← h.own] at hsaid
          rwa [← h.own]
        · refine hignored (handlePusherMessage_publishAnswer p stale) (.inr ⟨?_, ?_⟩)
          · exact fun hmem => connectAnswer_ne_publishAnswer (List.mem_singleton.1 hmem)
          · exact fun hmem => createAnswer_ne_publishAnswer (List.mem_singleton.1 hmem)
  · refine hignored (if_neg htype) (.inr ⟨?_, ?_⟩)
    · exact fun hmem => htype (List.mem_singleton.1 hmem ▸ rfl)
    · exact fun hmem => htype (List.mem_singleton.1 hmem ▸ rfl)

/-- **One step of the pusher**, as long as its connection stands. -/
theorem Spoken.step (h : Spoken r streamId said heard p) (hfits : Fits r streamId)
    {event : PusherEvent} {calls : List ClientCall} (hstep : pusherMachine r p event calls p')
    (hstands : ∀ resolve, event ≠ .disconnected resolve)
    (hheard : ∀ msg ∈ (pusherEnd r).takes p event, IsAnswer msg) :
    Spoken r streamId (said ++ messagesOf calls) (heard ++ (pusherEnd r).takes p event) p' := by
  cases event with
  | relay msg =>
      obtain ⟨rfl, rfl⟩ := Prod.ext_iff.1 hstep
      exact (List.append_nil heard).symm ▸ h.relays msg
  | connected =>
      obtain ⟨rfl, rfl⟩ := Prod.ext_iff.1 hstep
      exact (List.append_nil heard).symm ▸ h.connects hfits
  | message stale msg =>
      obtain ⟨rfl, rfl⟩ := Prod.ext_iff.1 hstep
      exact h.hears hfits (hheard msg (List.mem_singleton_self msg)) stale
  | disconnected resolve => exact absurd rfl (hstands resolve)

end Spoken

/-! ### The publisher's side -/

section Answered

variable {r : RelaySettings} {streamId : StreamId} {pub pub' : Publisher}
  {handled answered : List Message} {msg : Message}

/-- What the handlers have made of the messages of a connection, and what they have answered. -/
structure Answered (r : RelaySettings) (streamId : StreamId) (handled answered : List Message)
    (pub : Publisher) : Prop where
  app : connects r streamId ∈ handled → pub.streamId.app = appOf r streamId
  stream : publishes streamId ∈ handled → pub.ready = true ∧ pub.streamId.stream = streamId.stream
  answers : ∀ msg ∈ answered, IsAnswer msg
  connect : connectAnswer ∈ answered ↔ connects r streamId ∈ handled
  create : createAnswer ∈ answered ↔ creates ∈ handled

theorem Answered.snoc (h : Answered r streamId handled answered pub) {given answer : List Message}
    (hgiven : commandsOf given = answer)
    (hanswer : ∀ msg ∈ answer, msg = connectAnswer ∨ msg = createAnswer ∨ msg = publishAnswer)
    (happ : connects r streamId ∈ handled ++ [msg] → pub'.streamId.app = appOf r streamId)
    (hstream : publishes streamId ∈ handled ++ [msg] →
      pub'.ready = true ∧ pub'.streamId.stream = streamId.stream)
    (hconnect : connectAnswer ∈ answer ↔ connects r streamId = msg)
    (hcreate : createAnswer ∈ answer ↔ creates = msg) :
    Answered r streamId (handled ++ [msg]) (answered ++ given) pub' where
  app := happ
  stream := hstream
  answers reply hreply htype := by
    rcases List.mem_append.1 hreply with hold | hnew
    · exact h.answers reply hold htype
    · exact hanswer reply (hgiven ▸ mem_commandsOf.2 ⟨hnew, htype⟩)
  connect := by
    have hnew : connectAnswer ∈ given ↔ connects r streamId = msg := by
      rw [← hconnect, ← hgiven, mem_commandsOf]
      exact (and_iff_left rfl).symm
    rw [List.mem_append, List.mem_append, h.connect, hnew, List.mem_singleton]
  create := by
    have hnew : createAnswer ∈ given ↔ creates = msg := by
      rw [← hcreate, ← hgiven, mem_commandsOf]
      exact (and_iff_left rfl).symm
    rw [List.mem_append, List.mem_append, h.create, hnew, List.mem_singleton]

/-- **One step of the handlers.** -/
theorem Answered.step (h : Answered r streamId handled answered pub) (hfits : Fits r streamId)
    {i : Handling} {out : List PublisherEvent} {given : List Message}
    (hphrase : Phrase r streamId i.msg) (hstep : publisherEnd.step pub i out pub')
    (hgives : publisherEnd.gives ⟨pub, i, out⟩ given) :
    Answered r streamId (handled ++ [i.msg]) (answered ++ given) pub' := by
  obtain ⟨rs, o, msg⟩ := i
  obtain ⟨r', hstep⟩ := hstep
  have hnamed := named_handled hstep
  have hgiven : commandsOf given = (replyTo o msg).toList.map commandMessage := hgives
  have hcc := connects_ne_creates hfits
  have hcp := connects_ne_publishes hfits
  have hpc := creates_ne_publishes hfits
  rcases hphrase with rfl | rfl | rfl | hmedia
  · rw [answers_connects hfits] at hgiven
    rw [commandOf_connects hfits] at hnamed
    obtain ⟨hid, hready⟩ := Prod.ext_iff.1 hnamed
    refine h.snoc hgiven (fun _ hm => .inl (List.mem_singleton.1 hm))
      (fun _ => congrArg StreamId.app hid) (fun hmem => ?_) ?_ ?_
    · obtain ⟨hbefore, hstream⟩ := h.stream (mem_of_ne hcp hmem)
      exact ⟨hready.trans hbefore, (congrArg StreamId.stream hid).trans hstream⟩
    · exact ⟨fun _ => rfl, fun _ => List.mem_singleton_self _⟩
    · refine ⟨fun hmem => ?_, fun heq => absurd heq hcc⟩
      exact absurd (List.mem_singleton.1 hmem) connectAnswer_ne_createAnswer.symm
  · rw [answers_creates] at hgiven
    rw [commandOf_creates] at hnamed
    obtain ⟨hid, hready⟩ := Prod.ext_iff.1 hnamed
    refine h.snoc hgiven (fun _ hm => .inr (.inl (List.mem_singleton.1 hm)))
      (fun hmem => ?_) (fun hmem => ?_) ?_ ?_
    · exact (congrArg StreamId.app hid).trans (h.app (mem_of_ne hcc.symm hmem))
    · obtain ⟨hbefore, hstream⟩ := h.stream (mem_of_ne hpc hmem)
      exact ⟨hready.trans hbefore, (congrArg StreamId.stream hid).trans hstream⟩
    · refine ⟨fun hmem => ?_, fun heq => absurd heq hcc.symm⟩
      exact absurd (List.mem_singleton.1 hmem) connectAnswer_ne_createAnswer
    · exact ⟨fun _ => rfl, fun _ => List.mem_singleton_self _⟩
  · rw [answers_publishes hfits] at hgiven
    rw [commandOf_publishes hfits] at hnamed
    obtain ⟨hid, hready⟩ := Prod.ext_iff.1 hnamed
    have hstream := congrArg StreamId.stream hid
    refine h.snoc hgiven (fun _ hm => .inr (.inr (List.mem_singleton.1 hm)))
      (fun hmem => ?_) (fun _ => ⟨hready, hstream⟩) ?_ ?_
    · exact (congrArg StreamId.app hid).trans (h.app (mem_of_ne hcp.symm hmem))
    · refine ⟨fun hmem => ?_, fun heq => absurd heq hcp.symm⟩
      exact absurd (List.mem_singleton.1 hmem) connectAnswer_ne_publishAnswer
    · refine ⟨fun hmem => ?_, fun heq => absurd heq hpc.symm⟩
      exact absurd (List.mem_singleton.1 hmem) createAnswer_ne_publishAnswer
  · rw [answers_media hmedia] at hgiven
    have hnone : commandOf o msg = none := if_neg (typeId_of_isMedia hmedia)
    rw [hnone] at hnamed
    obtain ⟨hid, hready⟩ := Prod.ext_iff.1 hnamed
    have hne (cmd : CommandMessage) : commandMessage cmd ≠ msg := fun heq =>
      typeId_of_isMedia hmedia (heq ▸ rfl)
    refine h.snoc hgiven (fun _ hm => absurd hm List.not_mem_nil)
      (fun hmem => ?_) (fun hmem => ?_) ?_ ?_
    · exact (congrArg StreamId.app hid).trans (h.app (mem_of_ne (hne _) hmem))
    · obtain ⟨hbefore, hstream⟩ := h.stream (mem_of_ne (hne _) hmem)
      exact ⟨hready.trans hbefore, (congrArg StreamId.stream hid).trans hstream⟩
    · exact ⟨fun hmem => absurd hmem List.not_mem_nil, fun heq => absurd heq (hne _)⟩
    · exact ⟨fun hmem => absurd hmem List.not_mem_nil, fun heq => absurd heq (hne _)⟩

end Answered

/-! ### Both of them -/

section Dialogue

variable {r : RelaySettings} {streamId : StreamId} {trace : List CascadeMoment} {s : CascadeState}

/-- What the pusher has heard. -/
def heardOf (r : RelaySettings) (trace : List CascadeMoment) : List Message :=
  Duplex.taken (pusherEnd r).takes (leftTrace trace)

/-- The messages that have been handled. -/
def handledOf (trace : List CascadeMoment) : List Message :=
  Duplex.taken publisherEnd.takes (rightTrace trace)

/-- A connection that is about to be made, the first one of a pusher or not: nothing has been said on
it. -/
structure Fresh (r : RelaySettings) (streamId : StreamId)
    (before : List (Moment Pusher PusherEvent ClientCall)) (s : CascadeState) : Prop where
  reached : Run (pusherMachine r) { streamId := streamId } before s.left
  connected : s.left.connected = false
  publishing : s.left.publishing = false
  up : s.up = []
  down : s.down = []

/-- A run of a pusher and of the handlers at the other end of its connection, as long as it stands. -/
structure Cascaded (r : RelaySettings) (streamId : StreamId) (trace : List CascadeMoment)
    (s : CascadeState) : Prop where
  fits : Fits r streamId
  run : ∃ before s₀, Fresh r streamId before s₀ ∧ Run (Step (pusherEnd r) publisherEnd) s₀ trace s
  stands : ∀ m ∈ leftTrace trace, ∀ resolve, m.input ≠ .disconnected resolve

/-- What holds of both sides together. -/
structure Dialogue (r : RelaySettings) (streamId : StreamId) (trace : List CascadeMoment)
    (s : CascadeState) : Prop where
  sent : givenLeft trace = handledOf trace ++ s.up
  answered : givenRight trace = heardOf r trace ++ s.down
  spoken : Spoken r streamId (givenLeft trace) (heardOf r trace) s.left
  handled : Answered r streamId (handledOf trace) (givenRight trace) s.right
  media : ∀ m ∈ rightTrace trace, isMedia m.input.msg = true →
    m.state.ready = true ∧ m.state.streamId = ⟨appOf r streamId, streamId.stream⟩

/-- **What causes what**: when `publish` has been handled, so has been `connect`. -/
theorem Dialogue.named (h : Dialogue r streamId trace s)
    (hpublish : publishes streamId ∈ handledOf trace) :
    s.right.ready = true ∧ s.right.streamId = ⟨appOf r streamId, streamId.stream⟩ := by
  obtain ⟨hready, hstream⟩ := h.handled.stream hpublish
  have hsaid {msg : Message} (hmem : msg ∈ handledOf trace) : msg ∈ givenLeft trace :=
    h.sent ▸ List.mem_append_left _ hmem
  have hheard {msg : Message} (hmem : msg ∈ heardOf r trace) : msg ∈ givenRight trace :=
    h.answered ▸ List.mem_append_left _ hmem
  have hcreate : creates ∈ handledOf trace :=
    h.handled.create.1 (hheard (h.spoken.publish (hsaid hpublish)))
  have hconnect : connects r streamId ∈ handledOf trace :=
    h.handled.connect.1 (hheard (h.spoken.create (hsaid hcreate)))
  have happ := h.handled.app hconnect
  refine ⟨hready, ?_⟩
  rw [← happ, ← hstream]

theorem streamId_of_run {p : Pusher} {before : List (Moment Pusher PusherEvent ClientCall)}
    (hrun : Run (pusherMachine r) { streamId := streamId } before p) : p.streamId = streamId := by
  refine hrun.invariant (P := fun _ => True) (I := fun _ p => p.streamId = streamId)
    (fun _ _ => trivial) rfl ?_
  intro trace p event calls p' _ hown _ hstep
  obtain ⟨rfl, -⟩ := Prod.ext_iff.1 hstep
  exact (Relay.Pusher.streamId_handle r p event).trans hown

theorem isMedia_of_run {p : Pusher} {before : List (Moment Pusher PusherEvent ClientCall)}
    (hrun : Run (pusherMachine r) { streamId := streamId } before p) :
    ∀ msg ∈ Relay.handed (Machine.outputs before) ++ p.buffer, isMedia msg = true := by
  intro msg hmsg
  have hrelayed := (Relay.inOrder_of_run hrun).sublist.subset hmsg
  obtain ⟨event, -, hevent⟩ := List.mem_filterMap.1 hrelayed
  cases event with
  | relay msg' =>
      have hsome : (if isMedia msg' then some msg' else none) = some msg := hevent
      split at hsome
      · rename_i hmedia
        exact Option.some.inj hsome ▸ hmedia
      · cases hsome
  | _ => cases hevent

theorem Dialogue.nil {before : List (Moment Pusher PusherEvent ClientCall)}
    (hfresh : Fresh r streamId before s) : Dialogue r streamId [] s where
  sent := hfresh.up.symm
  answered := hfresh.down.symm
  spoken :=
    { own := streamId_of_run hfresh.reached
      phrases := fun _ hmem => absurd hmem List.not_mem_nil
      ordered := Machine.obeys_nil
      held := fun msg hmem => isMedia_of_run hfresh.reached msg (List.mem_append_right _ hmem)
      connected := fun hc => absurd hc (hfresh.connected ▸ Bool.false_ne_true)
      publishing := fun hp => absurd hp (hfresh.publishing ▸ Bool.false_ne_true)
      create := fun hmem => absurd hmem List.not_mem_nil
      publish := fun hmem => absurd hmem List.not_mem_nil
      asked := fun hmem => absurd hmem List.not_mem_nil
      allowed := fun hmem => absurd hmem List.not_mem_nil }
  handled :=
    { app := fun hmem => absurd hmem List.not_mem_nil
      stream := fun hmem => absurd hmem List.not_mem_nil
      answers := fun _ hmem => absurd hmem List.not_mem_nil
      connect := ⟨fun hmem => absurd hmem List.not_mem_nil, fun hmem => absurd hmem List.not_mem_nil⟩
      create := ⟨fun hmem => absurd hmem List.not_mem_nil, fun hmem => absurd hmem List.not_mem_nil⟩ }
  media _ hmem := absurd hmem List.not_mem_nil

/-- **One step of either of them.** -/
theorem Dialogue.step (h : Dialogue r streamId trace s) (hfits : Fits r streamId) {s' : CascadeState}
    {i : Duplex.Input PusherEvent Handling Message} {out : List (ClientCall ⊕ PublisherEvent)}
    (hrun : ∃ before s₀, Fresh r streamId before s₀ ∧ Run (Step (pusherEnd r) publisherEnd) s₀ trace s)
    (hstep : Step (pusherEnd r) publisherEnd s i out s')
    (hstands : ∀ m ∈ leftTrace (trace ++ [⟨s, i, out⟩]), ∀ resolve,
      m.input ≠ .disconnected resolve) :
    Dialogue r streamId (trace ++ [⟨s, i, out⟩]) s' := by
  have hconserved : givenLeft (trace ++ [⟨s, i, out⟩]) =
        handledOf (trace ++ [⟨s, i, out⟩]) ++ s'.up ∧
      givenRight (trace ++ [⟨s, i, out⟩]) = heardOf r (trace ++ [⟨s, i, out⟩]) ++ s'.down := by
    obtain ⟨before, s₀, hfresh, hrun⟩ := hrun
    have hup := Duplex.conserved_up (hrun.snoc hstep)
    have hdown := Duplex.conserved_down (hrun.snoc hstep)
    rw [hfresh.up, List.nil_append] at hup
    rw [hfresh.down, List.nil_append] at hdown
    exact ⟨hup, hdown⟩
  rcases hstep.cases with ⟨event, calls, given, rfl, hleft, hgives, hsame, hdown, hup, hmoment, hnone⟩ |
    ⟨handling, events, given, rfl, hright, hgives, hsame, hup, hdown, hmoment, hnone⟩
  · -- the pusher
    have hlefts : leftTrace (trace ++ [⟨s, .left event given, out⟩]) =
        leftTrace trace ++ [⟨s.left, event, calls⟩] := by
      rw [Duplex.leftTrace_snoc, hmoment, Option.toList_some]
    have hrights : rightTrace (trace ++ [⟨s, .left event given, out⟩]) = rightTrace trace := by
      rw [Duplex.rightTrace_snoc, hnone, Option.toList_none, List.append_nil]
    have hgiven : givenLeft (trace ++ [⟨s, .left event given, out⟩]) = givenLeft trace ++ given := by
      simp [givenLeft]
    have hsilent : givenRight (trace ++ [⟨s, .left event given, out⟩]) = givenRight trace := by
      simp [givenRight]
    have hheard : heardOf r (trace ++ [⟨s, .left event given, out⟩]) =
        heardOf r trace ++ (pusherEnd r).takes s.left event := by
      rw [heardOf, hlefts, Duplex.taken_snoc]
      rfl
    refine ⟨hconserved.1, hconserved.2, ?_, ?_, ?_⟩
    · rw [hgiven, hheard, show given = messagesOf calls from hgives]
      refine h.spoken.step hfits hleft (hstands ⟨s.left, event, calls⟩ ?_)
        fun msg hmsg => h.handled.answers msg ?_
      · rw [hlefts]
        exact List.mem_append_right _ (List.mem_singleton_self _)
      · rw [h.answered, hdown]
        exact List.mem_append_right _ (List.mem_append_left _ hmsg)
    · rw [handledOf, hrights, hsilent, hsame]
      exact h.handled
    · rw [hrights]
      exact h.media
  · -- the handlers
    have hlefts : leftTrace (trace ++ [⟨s, .right handling given, out⟩]) = leftTrace trace := by
      rw [Duplex.leftTrace_snoc, hnone, Option.toList_none, List.append_nil]
    have hrights : rightTrace (trace ++ [⟨s, .right handling given, out⟩]) =
        rightTrace trace ++ [⟨s.right, handling, events⟩] := by
      rw [Duplex.rightTrace_snoc, hmoment, Option.toList_some]
    have hgiven : givenRight (trace ++ [⟨s, .right handling given, out⟩]) =
        givenRight trace ++ given := by
      simp [givenRight]
    have hsilent : givenLeft (trace ++ [⟨s, .right handling given, out⟩]) = givenLeft trace := by
      simp [givenLeft]
    have hhandled : handledOf (trace ++ [⟨s, .right handling given, out⟩]) =
        handledOf trace ++ [handling.msg] := by
      rw [handledOf, hrights, Duplex.taken_snoc]
      rfl
    have hsaid : givenLeft trace = handledOf trace ++ handling.msg :: s'.up := by
      rw [h.sent, hup]
      rfl
    have hphrase : Phrase r streamId handling.msg := by
      refine h.spoken.phrases _ ?_
      rw [hsaid]
      exact List.mem_append_right _ List.mem_cons_self
    refine ⟨hconserved.1, hconserved.2, ?_, ?_, ?_⟩
    · rw [hsilent, heardOf, hlefts, hsame]
      exact h.spoken
    · rw [hhandled, hgiven]
      exact h.handled.step hfits hphrase hright hgives
    · rw [hrights]
      intro m hm hmedia
      rcases List.mem_append.1 hm with hold | hnew
      · exact h.media m hold hmedia
      · obtain rfl := List.mem_singleton.1 hnew
        exact h.named (h.spoken.ordered _ _ _ hsaid hmedia)

/-- **A whole run.** -/
theorem Cascaded.dialogue (h : Cascaded r streamId trace s) : Dialogue r streamId trace s := by
  obtain ⟨hfits, ⟨before, s₀, hfresh, hrun⟩, hstands⟩ := h
  induction hrun with
  | nil => exact .nil hfresh
  | @snoc trace s s' i out hrun hstep ih =>
      refine (ih fun m hm => hstands m ?_).step hfits ⟨before, s₀, hfresh, hrun⟩ hstep hstands
      rw [Duplex.leftTrace_snoc]
      exact List.mem_append_left _ hm

/-- The media among the messages that a client is asked to send. -/
theorem filter_messagesOf {calls : List ClientCall}
    (h : ∀ msg ∈ Relay.handed calls, isMedia msg = true) :
    (messagesOf calls).filter isMedia = Relay.handed calls := by
  induction calls with
  | nil => rfl
  | cons call calls ih =>
      cases call with
      | sendMessage msg =>
          have hmedia : isMedia msg = true := h msg List.mem_cons_self
          have hrest := ih fun msg hmsg => h msg (List.mem_cons_of_mem _ hmsg)
          change (msg :: messagesOf calls).filter isMedia = msg :: Relay.handed calls
          rw [List.filter_cons_of_pos hmedia, hrest]
      | sendCommand cmd =>
          change (commandMessage cmd :: messagesOf calls).filter isMedia = Relay.handed calls
          rw [List.filter_cons_of_neg (by rw [isMedia_commandMessage]; exact Bool.false_ne_true)]
          exact ih h
      | create => exact ih h
      | connect host port => exact ih h
      | flush => exact ih h

theorem Cascaded.pusher (h : Cascaded r streamId trace s) :
    ∃ before, Run (pusherMachine r) { streamId := streamId } (before ++ leftTrace trace) s.left := by
  obtain ⟨before, s₀, hfresh, hrun⟩ := h.run
  exact ⟨before, hfresh.reached.append (Duplex.run_left hrun).1⟩

/-- The media that the pusher sends are those that it hands over. -/
theorem Cascaded.media_sent (h : Cascaded r streamId trace s) :
    (givenLeft trace).filter isMedia = Relay.handed (Machine.outputs (leftTrace trace)) := by
  obtain ⟨before, s₀, hfresh, hrun⟩ := h.run
  have hgiven : givenLeft trace = messagesOf (Machine.outputs (leftTrace trace)) := by
    rw [(Duplex.run_left hrun).2.eq_flatMap, Machine.outputs, messagesOf, List.filterMap_flatMap]
    rfl
  rw [hgiven]
  refine filter_messagesOf fun msg hmsg => ?_
  have hlife := hfresh.reached.append (Duplex.run_left hrun).1
  refine isMedia_of_run hlife msg (List.mem_append_left _ ?_)
  rw [Machine.outputs, List.flatMap_append, Relay.handed_append]
  exact List.mem_append_right _ hmsg

/-! ### A dialogue that comes to its end -/

/-- A run that has led to `s`, in which these messages have been handled. -/
def Leads (r : RelaySettings) (streamId : StreamId) (handled : List Message) (s : CascadeState) : Prop :=
  ∃ trace, Cascaded r streamId trace s ∧ handledOf trace = handled

section Leads

variable {p p' : Pusher} {pub : Publisher} {up down handled : List Message} {msg : Message}

theorem handle_message (stale : UInt64) {p' : Pusher} {calls : List ClientCall}
    (h : handlePusherMessage p stale msg = (p', calls)) :
    p.handle r (.message stale msg) = (p', calls) := h

theorem Leads.left {event : PusherEvent} {calls : List ClientCall}
    (h : Leads r streamId handled ⟨p, pub, up, (pusherEnd r).takes p event ++ down⟩)
    (hcall : p.handle r event = (p', calls)) (hstands : ∀ resolve, event ≠ .disconnected resolve) :
    Leads r streamId handled ⟨p', pub, up ++ messagesOf calls, down⟩ := by
  obtain ⟨trace, ⟨hfits, ⟨before, s₀, hfresh, hrun⟩, hall⟩, hhandled⟩ := h
  have hstep := @Step.left _ _ _ _ _ _ _ (pusherEnd r) publisherEnd p p' pub event calls
    (messagesOf calls) up down hcall rfl
  refine ⟨_, ⟨hfits, ⟨before, s₀, hfresh, hrun.snoc hstep⟩, fun m hm => ?_⟩, ?_⟩
  · rw [Duplex.leftTrace_snoc, Duplex.leftMoment_left] at hm
    rcases List.mem_append.1 hm with hold | hnew
    · exact hall m hold
    · obtain rfl := List.mem_singleton.1 hnew
      exact hstands
  · have hnone : Duplex.rightMoment (⟨⟨p, pub, up, (pusherEnd r).takes p event ++ down⟩,
        .left event (messagesOf calls), calls.map .inl⟩ : CascadeMoment) = none := rfl
    rwa [handledOf, Duplex.rightTrace_snoc, hnone, Option.toList_none, List.append_nil]

/-- The handlers take the next message, and answer it if it is to be answered. -/
theorem Leads.right (o : CallOutcome) {answers : List Message}
    (h : Leads r streamId handled ⟨p, pub, [msg], []⟩) (hsound : pub.Sound)
    (hreply : (replyTo o msg).toList.map commandMessage = answers) :
    ∃ pub' : Publisher, pub'.Sound ∧
      Leads r streamId (handled ++ [msg]) ⟨p, pub', [], answers⟩ := by
  obtain ⟨trace, ⟨hfits, ⟨before, s₀, hfresh, hrun⟩, hall⟩, hhandled⟩ := h
  obtain ⟨r', pub', out, hcall, heffect, -⟩ :=
    (Relay.returns_handlePublisherMessage hsound o msg).exists_ok Relay.pushless_default
  have hgives : publisherEnd.gives ⟨pub, ⟨{}, o, msg⟩, out⟩ answers := by
    change commandsOf answers = (replyTo o msg).toList.map commandMessage
    rw [← hreply]
    cases replyTo o msg with
    | none => rfl
    | some reply => rfl
  have hstep := @Step.right _ _ _ _ _ _ _ (pusherEnd r) publisherEnd p pub pub' ⟨{}, o, msg⟩ out
    answers [] [] ⟨r', hcall⟩ hgives
  refine ⟨pub', ?_, _, ⟨hfits, ⟨before, s₀, hfresh, hrun.snoc hstep⟩, fun m hm => ?_⟩, ?_⟩
  · rw [Relay.Publisher.Sound, heffect.keeps.1.outChunkSize]
    exact hsound
  · have hnone : Duplex.leftMoment (⟨⟨p, pub, [msg], []⟩, .right ⟨{}, o, msg⟩ answers,
        out.map .inr⟩ : CascadeMoment) = none := rfl
    rw [Duplex.leftTrace_snoc] at hm
    exact hall m (by rwa [hnone, Option.toList_none, List.append_nil] at hm)
  · rw [handledOf, Duplex.rightTrace_snoc, Duplex.rightMoment_right, Option.toList_some,
      Duplex.taken_snoc]
    exact congrArg (· ++ [msg]) hhandled

theorem leads_dialogue (o : CallOutcome) (hfits : Fits r streamId) (hmedia : isMedia msg = true) :
    ∃ s, Leads r streamId [connects r streamId, creates, publishes streamId, msg] s ∧
      s.left.connected = true ∧ s.up = [] ∧ s.down = [] := by
  set p₀ : Pusher := { streamId := streamId } with hp₀
  have h₀ : Leads r streamId [] ⟨p₀, Publisher.new .exact, [], []⟩ :=
    ⟨[], ⟨hfits, ⟨[], _, ⟨.nil, rfl, rfl, rfl, rfl⟩, .nil⟩,
      fun _ hm => absurd hm List.not_mem_nil⟩, rfl⟩
  have hsound₀ : (Publisher.new .exact).Sound := by
    rw [Relay.Publisher.Sound]
    decide
  -- `connect`
  set p₁ : Pusher := { p₀ with connected := true, reconnectDelayMs := 100 } with hp₁
  have h₁ : Leads r streamId [] ⟨p₁, Publisher.new .exact, [connects r streamId], []⟩ :=
    @Leads.left r streamId p₀ p₁ _ [] [] [] .connected _ h₀ (handlePusherConnected_eq r p₀)
      (fun _ h => PusherEvent.noConfusion h)
  obtain ⟨pub₂, hsound₂, h₂⟩ := h₁.right o hsound₀ (answers_connects hfits o)
  -- `createStream`
  have h₃ : Leads r streamId [connects r streamId] ⟨p₁, pub₂, [creates], []⟩ :=
    @Leads.left r streamId p₁ p₁ pub₂ [] [] _ (.message 0 connectAnswer) _ h₂
      (handle_message 0 (handlePusherMessage_connectAnswer rfl 0)) (fun _ h => PusherEvent.noConfusion h)
  obtain ⟨pub₄, hsound₄, h₄⟩ := h₃.right o hsound₂ (answers_creates o)
  -- `publish`
  set p₅ : Pusher := { p₁ with publishing := true, buffer := [], pendingBytes := 0 } with hp₅
  have h₅ : Leads r streamId [connects r streamId, creates] ⟨p₅, pub₄, [publishes streamId], []⟩ :=
    @Leads.left r streamId p₁ p₅ pub₄ [] [] _ (.message 0 createAnswer) _ h₄
      (handle_message 0 (handlePusherMessage_createAnswer rfl 0)) (fun _ h => PusherEvent.noConfusion h)
  obtain ⟨pub₆, hsound₆, h₆⟩ := h₅.right o hsound₄ (answers_publishes hfits o)
  have h₇ := @Leads.left r streamId p₅ p₅ pub₆ [] [] _ (.message 0 publishAnswer) _ h₆
    (handle_message 0 (handlePusherMessage_publishAnswer p₅ 0)) (fun _ h => PusherEvent.noConfusion h)
  -- a message
  have hrelay : relayMessage r.policy p₅ msg = (p₅, [.sendMessage msg]) := by
    rw [relayMessage, hmedia]
    rfl
  have h₈ := @Leads.left r streamId p₅ p₅ pub₆ [] [] _ (.relay msg) _ h₇ hrelay
    (fun _ h => PusherEvent.noConfusion h)
  obtain ⟨pub₉, -, h₉⟩ := h₈.right o hsound₆ (answers_media hmedia o)
  exact ⟨_, h₉, rfl, rfl, rfl⟩

def sampleSettings : RelaySettings where
  pushUrl := ascii "rtmp://host"

def sampleStream : StreamId where
  app := ascii "live"
  stream := ascii "cam"

theorem fits_sample : Fits sampleSettings sampleStream := ⟨by decide, by decide⟩

theorem appOf_sample : appOf sampleSettings sampleStream = ascii "live" := by decide

end Leads

/-- The media that are handled are the first of those that the pusher hands over. -/
theorem Cascaded.handled_prefix (h : Cascaded r streamId trace s) :
    (handledOf trace).filter isMedia <+: Relay.handed (Machine.outputs (leftTrace trace)) := by
  rw [← h.media_sent, h.dialogue.sent]
  exact (List.prefix_append _ _).filter _

/-- When nothing is on its way, all that has been sent has been handled. -/
theorem Cascaded.sent_handled (h : Cascaded r streamId trace s) (hup : s.up = []) :
    givenLeft trace = handledOf trace := by
  rw [h.dialogue.sent, hup, List.append_nil]

/-- When nothing is on its way, all the media that have been handed over have been handled. -/
theorem Cascaded.handled_all (h : Cascaded r streamId trace s) (hup : s.up = []) :
    (handledOf trace).filter isMedia = Relay.handed (Machine.outputs (leftTrace trace)) := by
  rw [← h.media_sent, h.sent_handled hup]

theorem Cascaded.publishing (h : Cascaded r streamId trace s) (hconnected : s.left.connected = true)
    (hup : s.up = []) (hdown : s.down = []) : s.left.publishing = true := by
  have hdialogue := h.dialogue
  have hsent := h.sent_handled hup
  have hanswered : givenRight trace = heardOf r trace := by
    rw [hdialogue.answered, hdown, List.append_nil]
  -- `connect` has been answered, so `createStream` has been sent, and answered
  have hconnect : connectAnswer ∈ heardOf r trace :=
    hanswered ▸ hdialogue.handled.connect.2 (hsent ▸ hdialogue.spoken.connected hconnected)
  rcases hdialogue.spoken.asked hconnect with hpublishing | hcreate
  · exact hpublishing
  · exact hdialogue.spoken.allowed (hanswered ▸ hdialogue.handled.create.2 (hsent ▸ hcreate))

/-- When `publish` has arrived, the stream has its name. -/
theorem Cascaded.named (h : Cascaded r streamId trace s) (hpublishing : s.left.publishing = true)
    (hup : s.up = []) :
    s.right.ready = true ∧ s.right.streamId = ⟨appOf r streamId, streamId.stream⟩ := by
  have hdialogue := h.dialogue
  exact hdialogue.named (h.sent_handled hup ▸ hdialogue.spoken.publishing hpublishing)

theorem Cascaded.nothing_held (h : Cascaded r streamId trace s)
    (hpublishing : s.left.publishing = true) : s.left.buffer = [] := by
  obtain ⟨before, hlife⟩ := h.pusher
  exact ((Relay.inOrder_of_run hlife).publishing hpublishing).1

end Dialogue

end Cascade
