/-
**What a publisher receives.**

A publisher is answered at three places: `setup_publisher_read` writes S0, S1 and S2, and the first
protocol messages when the handshake is done, and `flush_publisher_responses` writes the answers to
commands.  Each of them takes what it has to say out of the session at once, and hands it to the socket
in one piece.  None of them looks at how much of it has been accepted.

What is handed over is in order: the answer to C1, the protocol messages, and the chunks of the replies
to the commands, as they come in.  So a publisher gets the beginning of this, as long as the socket
accepts nothing more behind a piece that it has not accepted whole.  The rest of such a piece is gone, and
the next one follows in its place.

Main definitions:

* `Relay.replyTo`, `Relay.replies` — the answers to the commands of a connection;
* `Relay.offered` — what is handed to the socket, piece by piece;
* `Relay.Untorn` — bytes are the beginning of what a publisher is to get;
* `Relay.Answerable` — a read that does not bring C2 together with C0 and C1;
* `Relay.Speaks` — how far a connection has come, and what has been handed to its socket.

Main results:

* `Relay.respond_clean` — a reply is handed over whole;
* `Relay.handleMessages_replies` — the replies to the messages of a read;
* `Relay.Speaks.step` — one step of a connection;
* `Relay.replies_untorn` — **a publisher gets the beginning of what it is to get, if nothing is accepted
  behind a piece that has been cut**;
* `Relay.replies_torn` — a handshake response that is cut, and the protocol messages behind it.
-/

import RtmpTranscoder.PartialWrites
import RtmpTranscoder.ServerHandshake

set_option relaxedAutoImplicit false
set_option autoImplicit false

namespace Relay

open PartialWrites (accepted Contiguous)
open Publisher (protocolMessages)
open Rtmp (Failure Message MessageType CommandMessage Session GrowthPolicy Handshake)
open Rtmp.Handshake (ClientHello clientChallenge)
open Text

/-! ### Replies -/

/-- The answer to the command that a message is, if there is one. -/
def replyTo (o : CallOutcome) (msg : Message) : Option CommandMessage :=
  (commandOf o msg).bind fun cmd =>
    if cmd.name = ascii "connect" then some (connectReply cmd.transactionId)
    else if cmd.name = ascii "createStream" then some (createStreamReply cmd.transactionId)
    else if cmd.name = ascii "publish" then (publishStream cmd).map fun _ => publishReply
    else none

/-- The answers to the messages of a read. -/
def repliesTo (calls : ℕ → CallOutcome) : List Message → List CommandMessage
  | [] => []
  | msg :: messages =>
      (replyTo (calls 0) msg).toList ++ repliesTo (fun n => calls (n + 1)) messages

/-- The messages that are handled. -/
def handled (out : List PublisherEvent) : List Message :=
  out.filterMap fun
    | .message msg => some msg
    | _ => none

/-- What is handed to the socket, piece by piece. -/
def offered (out : List PublisherEvent) : List (List UInt8) :=
  out.filterMap fun
    | .handshake data _ => some data
    | .chunks data => some data
    | _ => none

/-- The answers to the commands of a connection. -/
def replies (trace : List (Machine.Moment (Option Publisher) PublisherInput PublisherEvent)) :
    List CommandMessage :=
  trace.flatMap fun m => repliesTo m.input.outcome.calls (handled m.outputs)

/-- `bytes` are the chunks of the replies, with chunks of 4096 bytes. -/
def Encodes (replies : List CommandMessage) (bytes : List UInt8) : Prop :=
  ∃ encodings : List (List UInt8),
    replies.map (fun reply =>
      Rtmp.encodeChunk (Session.commandHeader reply.encode 3) reply.encode 4096) = encodings.map .ok ∧
    bytes = encodings.flatten

/-- S0, S1 and S2, S2 being the C1 that has been received. -/
def handshakeResponse (s1 received : List UInt8) : List UInt8 := 3 :: s1 ++ clientChallenge received

/-- The bytes are the beginning of what the publisher is to get: the answer to C1 that is handed to the
socket, the protocol messages, and the chunks of the replies. -/
def Untorn (trace : List (Machine.Moment (Option Publisher) PublisherInput PublisherEvent))
    (bytes : List UInt8) : Prop :=
  ∃ s1 chunks : List UInt8, s1.length = 1536 ∧
    (∀ data written, .handshake data written ∈ Machine.outputs trace →
      data = handshakeResponse s1 (received trace)) ∧
    Encodes (replies trace) chunks ∧
    bytes <+: handshakeResponse s1 (received trace) ++ protocolMessages ++ chunks

/-- The first read of a connection does not bring C2 together with C0 and C1. -/
def Answerable (m : Machine.Moment (Option Publisher) PublisherInput PublisherEvent) : Prop :=
  ∀ pub, m.state = some pub → pub.session.handshake.state = .uninitialized →
    ClientHello m.input.data → m.input.data.length < 3073

section Offered

variable {out out' : List PublisherEvent}

@[simp] theorem offered_append : offered (out ++ out') = offered out ++ offered out' :=
  List.filterMap_append ..

@[simp] theorem handled_append : handled (out ++ out') = handled out ++ handled out' :=
  List.filterMap_append ..

@[simp] theorem replies_snoc
    (trace : List (Machine.Moment (Option Publisher) PublisherInput PublisherEvent))
    (m : Machine.Moment (Option Publisher) PublisherInput PublisherEvent) :
    replies (trace ++ [m]) =
      replies trace ++ repliesTo m.input.outcome.calls (handled m.outputs) := by
  simp [replies]

theorem Encodes.nil : Encodes [] [] := ⟨[], rfl, rfl⟩

theorem Encodes.append {rs rs' : List CommandMessage} {bytes bytes' : List UInt8}
    (h : Encodes rs bytes) (h' : Encodes rs' bytes') : Encodes (rs ++ rs') (bytes ++ bytes') := by
  obtain ⟨encodings, hmap, rfl⟩ := h
  obtain ⟨encodings', hmap', rfl⟩ := h'
  exact ⟨encodings ++ encodings', by rw [List.map_append, List.map_append, hmap, hmap'],
    by rw [List.flatten_append]⟩

end Offered

/-! ### The handlers -/

/-- A publisher whose session has nothing to send, and whose chunks are of 4096 bytes. -/
structure Publisher.Clean (pub : Publisher) : Prop where
  plain : pub.session.writeBuffer.Plain
  readable : pub.session.writeBuffer.readable = []
  outChunkSize : pub.session.outChunkSize = 4096

variable {r r' : Relays} {pub pub' : Publisher} {out : List PublisherEvent}

/-- **A reply is handed over whole.** -/
theorem respond_clean {response : CommandMessage} (h : pub.Clean)
    (hcall : respond pub response = .ok (pub', out)) :
    pub'.Clean ∧ handled out = [] ∧ Encodes [response] (offered out).flatten := by
  unfold respond Session.sendCommand at hcall
  rw [h.outChunkSize] at hcall
  cases hencode : Rtmp.encodeChunk (Session.commandHeader response.encode 3) response.encode 4096 with
  | error f =>
      rw [hencode] at hcall
      cases hcall
  | ok data =>
      rw [hencode] at hcall
      obtain ⟨rfl, rfl⟩ := Prod.mk.inj (Except.ok.inj hcall)
      have hdata : (pub.session.writeBuffer.append data).readable = data := by
        rw [h.plain.readable_append, h.readable, List.nil_append]
      refine ⟨⟨Rtmp.Buffer.plain_clear _, Rtmp.Buffer.readable_clear _, rfl⟩, ?_, ?_⟩
      · change handled (if (pub.session.writeBuffer.append data).readable.isEmpty then _ else _) = []
        split <;> rfl
      · refine ⟨[data], by rw [List.map_singleton, hencode]; rfl, ?_⟩
        change (offered (if (pub.session.writeBuffer.append data).readable.isEmpty then [] else
          [.chunks (pub.session.writeBuffer.append data).readable])).flatten = _
        rw [hdata]
        cases data <;> rfl

theorem quiet_startRelaying {o : CallOutcome} {streamId : StreamId} {started : List PublisherEvent}
    (h : startRelaying r o streamId = .ok (r', started)) : handled started = [] ∧ offered started = [] := by
  rcases startRelaying_cases h with ⟨calls, -, rfl, -⟩ | ⟨p, calls, -, -, -, -, rfl⟩
  · constructor
    · simp [handled, List.filterMap_map]
    · simp [offered, List.filterMap_map]
  · exact ⟨rfl, rfl⟩

theorem quiet_handlePublisherMedia (msg : Message) :
    handled (handlePublisherMedia r pub msg).2 = [] ∧
      offered (handlePublisherMedia r pub msg).2 = [] := by
  rcases handlePublisherMedia_cases r pub msg with ⟨calls, hmedia⟩ | ⟨p, p', calls, -, hmedia⟩
  · rw [hmedia]
    constructor
    · simp [handled, List.filterMap_map]
    · simp [offered, List.filterMap_map]
  · rw [hmedia]
    exact ⟨rfl, rfl⟩

/-- **A command is answered once**, if it is one that is answered. -/
theorem handlePublisherCommand_replies {o : CallOutcome} {msg : Message} {cmd : CommandMessage}
    (h : pub.Clean) (hcommand : commandOf o msg = some cmd)
    (hcall : handlePublisherCommand r pub o cmd = .ok (r', pub', out)) :
    pub'.Clean ∧ handled out = [] ∧ Encodes (replyTo o msg).toList (offered out).flatten := by
  have hreply : replyTo o msg =
      if cmd.name = ascii "connect" then some (connectReply cmd.transactionId)
      else if cmd.name = ascii "createStream" then some (createStreamReply cmd.transactionId)
      else if cmd.name = ascii "publish" then (publishStream cmd).map fun _ => publishReply
      else none := by
    rw [replyTo, hcommand, Option.bind_some]
  rcases handlePublisherCommand_cases hcall with ⟨hconnect, -, hrespond⟩ |
    ⟨hconnect, hcreate, -, hrespond⟩ |
    ⟨hconnect, hcreate, hpublish, stream, answer, started, hstream, hrespond, hstart, rfl⟩ |
    ⟨hconnect, hcreate, hpublish, -, rfl, rfl⟩
  · rw [hreply, if_pos hconnect]
    have hclean : { pub with streamId := { pub.streamId with app := connectApp cmd } }.Clean :=
      ⟨h.plain, h.readable, h.outChunkSize⟩
    exact respond_clean hclean hrespond
  · rw [hreply, if_neg hconnect, if_pos hcreate]
    exact respond_clean h hrespond
  · rw [hreply, if_neg hconnect, if_neg hcreate, if_pos hpublish, hstream, Option.map_some]
    have hclean : { pub with
        streamId := { pub.streamId with stream := stream }, ready := true }.Clean :=
      ⟨h.plain, h.readable, h.outChunkSize⟩
    obtain ⟨hclean', hhandled, hencodes⟩ := respond_clean hclean hrespond
    obtain ⟨hquiet, hnone⟩ := quiet_startRelaying hstart
    rw [handled_append, offered_append, hquiet, hnone, List.append_nil, List.append_nil]
    exact ⟨hclean', hhandled, hencodes⟩
  · have hnone : replyTo o msg = none := by
      rw [hreply, if_neg hconnect, if_neg hcreate]
      split
      · rename_i hname
        rw [hpublish hname, Option.map_none]
      · rfl
    rw [hnone]
    exact ⟨h, rfl, .nil⟩

/-- **A message is answered once**, if it is a command that is answered. -/
theorem handlePublisherMessage_replies {o : CallOutcome} {msg : Message} (h : pub.Clean)
    (hcall : handlePublisherMessage r pub o msg = .ok (r', pub', out)) :
    pub'.Clean ∧ handled out = [] ∧ Encodes (replyTo o msg).toList (offered out).flatten := by
  have hsilent (hnone : commandOf o msg = none) : (replyTo o msg).toList = [] := by
    rw [replyTo, hnone]
    rfl
  unfold handlePublisherMessage at hcall
  split at hcall
  · rename_i htype
    split at hcall
    · rename_i hparse
      obtain ⟨rfl, rfl, rfl⟩ := ok_inj hcall
      rw [hsilent ((if_pos htype).trans hparse)]
      exact ⟨h, rfl, .nil⟩
    · rename_i cmd hparse
      exact handlePublisherCommand_replies h ((if_pos htype).trans hparse) hcall
  · rename_i htype
    rw [hsilent (if_neg htype)]
    split at hcall
    · obtain ⟨hquiet, hnone⟩ := @quiet_handlePublisherMedia r pub msg
      generalize handlePublisherMedia r pub msg = media at hcall hquiet hnone
      obtain ⟨rfl, rfl, rfl⟩ := ok_inj hcall
      refine ⟨h, hquiet, ?_⟩
      rw [hnone]
      exact .nil
    · obtain ⟨rfl, rfl, rfl⟩ := ok_inj hcall
      exact ⟨h, rfl, .nil⟩

/-- **The messages of a read are answered one after the other.** -/
theorem handleMessages_replies (h : pub.Clean) {calls : ℕ → CallOutcome} {messages : List Message}
    (hcall : handleMessages r pub calls messages = .ok (r', pub', out)) :
    pub'.Clean ∧ handled out = messages ∧
      Encodes (repliesTo calls messages) (offered out).flatten := by
  induction messages generalizing r r' pub pub' calls out with
  | nil =>
      obtain ⟨rfl, rfl, rfl⟩ := ok_inj hcall
      exact ⟨h, rfl, .nil⟩
  | cons msg messages ih =>
      obtain ⟨r₁, pub₁, out₁, out₂, hfirst, hrest, rfl⟩ := handleMessages_cons hcall
      obtain ⟨h₁, hhandled₁, hencodes₁⟩ := handlePublisherMessage_replies h hfirst
      obtain ⟨h₂, hhandled₂, hencodes₂⟩ := ih h₁ hrest
      refine ⟨h₂, ?_, ?_⟩
      · change msg :: handled (out₁ ++ out₂) = _
        rw [handled_append, hhandled₁, hhandled₂]
        rfl
      · change Encodes _ (offered (out₁ ++ out₂)).flatten
        rw [offered_append, List.flatten_append]
        exact hencodes₁.append hencodes₂

/-! ### What a read brings out -/

namespace Publisher

/-- **The commands of a read are answered in order.** -/
theorem processInput_replies (hdone : pub.session.handshake.isDone = true) (h : pub.Clean)
    {data : List UInt8} {calls : ℕ → CallOutcome} {p : Option Publisher}
    (hcall : pub.processInput r data calls = .ok (r', p, out)) :
    ∃ pub', p = some pub' ∧ pub'.session.handshake.isDone = true ∧ pub'.Clean ∧
      (∀ e ∈ out, ¬ e.IsHandshake) ∧ Encodes (repliesTo calls (handled out)) (offered out).flatten := by
  obtain ⟨hbuffer, hsize⟩ := pub.session.processInput_outgoing data
  have hclean : Clean { pub with session := (pub.session.processInput data).1 } := by
    refine ⟨?_, ?_, hsize.trans h.outChunkSize⟩
    · change (pub.session.processInput data).1.writeBuffer.Plain
      rw [hbuffer]
      exact h.plain
    · change (pub.session.processInput data).1.writeBuffer.readable = []
      rw [hbuffer]
      exact h.readable
  have hsound : pub.Sound := by
    rw [Sound, h.outChunkSize]
    decide
  obtain ⟨pub', rest, rfl, rfl, hkeeps, hout⟩ :=
    (returns_processInput hdone hsound data calls).of_ok hcall
  refine ⟨pub', rfl, hkeeps.handshake ▸ hdone, ?_⟩
  obtain ⟨bytes, -, hresult⟩ := Session.buffer_processInput hdone data
  have hprocess : pub.processInput r data calls =
      handleMessages r { pub with session := (pub.session.processInput data).1 } calls
        (pub.session.processInput data).2.1 >>= fun result =>
          .ok (result.1, some result.2.1, .processInput data :: result.2.2) := by
    simp only [processInput, hresult]
    rfl
  obtain ⟨⟨r₁, pub₁, out₁⟩, hmessages, hreturn⟩ := bind_ok (hprocess.symm.trans hcall)
  obtain ⟨hclean₁, hhandled, hencodes⟩ := handleMessages_replies hclean hmessages
  obtain ⟨-, hpub, hevents⟩ := ok_inj hreturn
  obtain rfl := Option.some.inj hpub
  obtain rfl := (List.cons.inj hevents).2
  refine ⟨hclean₁, Took.not_isHandshake (.inr ⟨_, rfl, hout⟩), ?_⟩
  change Encodes (repliesTo calls (handled out₁)) (offered out₁).flatten
  rw [hhandled]
  exact hencodes

/-- **The last read of a handshake is followed by the protocol messages**, and by the answers to the
commands behind C2.  If the protocol messages cannot be written, nothing else is. -/
theorem readHandshake_done_replies {growth : GrowthPolicy} {data : List UInt8} {o : PublisherOutcome}
    {hs hs' : Handshake} {consumed : ℕ} (hfresh : pub.session = Session.established growth hs)
    (htake : hs.processClientHandshake data = (hs', .ok consumed)) (hdone : hs'.state = .done)
    {p : Option Publisher} (hcall : pub.readHandshake r data o = .ok (r', p, out)) :
    ∃ chunks, (∀ pub', p = some pub' → pub'.session.handshake.isDone = true ∧ pub'.Clean) ∧
      (∀ e ∈ out, ¬ e.IsHandshake) ∧ (offered out).flatten = protocolMessages ++ chunks ∧
      Encodes (repliesTo o.calls (handled out)) chunks := by
  obtain ⟨session, hhandshake, -, hsize, hplain, hreadable, hread⟩ :=
    readHandshake_done_eq (r := r) (o := o) hfresh htake hdone
  have hclean : Clean { pub with session := session } := ⟨hplain, hreadable, hsize⟩
  have hsession : session.handshake.isDone = true := by
    rw [hhandshake, Handshake.isDone, hdone]
    rfl
  rw [hread] at hcall
  cases hwritten : o.protocolWritten with
  | error f =>
      rw [hwritten] at hcall
      obtain ⟨rfl, rfl, rfl⟩ := ok_inj hcall
      refine ⟨[], (fun p hp => by cases hp), ?_, rfl, .nil⟩
      intro e he
      rcases List.mem_pair.1 he with rfl | rfl <;> exact id
  | ok n =>
      simp only [hwritten] at hcall
      by_cases hmore : consumed < data.length
      · have hsession' : { pub with session := session }.session.handshake.isDone = true := hsession
        rw [if_pos hmore] at hcall
        obtain ⟨⟨r₁, p₁, out₁⟩, hinput, hreturn⟩ := map_ok hcall
        obtain ⟨rfl, rfl, rfl⟩ := ok_inj (congrArg Except.ok hreturn)
        obtain ⟨pub', rfl, hdone', hclean', hout, hencodes⟩ := processInput_replies hsession' hclean hinput
        refine ⟨(offered out₁).flatten, fun p hp => ?_, ?_, rfl, hencodes⟩
        · obtain rfl := Option.some.inj hp
          exact ⟨hdone', hclean'⟩
        · intro e he
          rcases List.mem_cons.1 he with rfl | he
          · exact id
          · exact hout e he
      · rw [if_neg hmore] at hcall
        obtain ⟨rfl, rfl, rfl⟩ := ok_inj hcall
        refine ⟨[], fun p hp => ?_, ?_, rfl, .nil⟩
        · obtain rfl := Option.some.inj hp
          exact ⟨hsession, hclean⟩
        · intro e he
          rw [List.mem_singleton.1 he]
          exact id

end Publisher

/-! ### One step of a connection -/

section Step

variable {growth : GrowthPolicy} {s1 chunks bytes : List UInt8}
  {trace : List (Machine.Moment (Option Publisher) PublisherInput PublisherEvent)}
  {p p' : Option Publisher} {i : PublisherInput}

/-- C1 has been answered with `s1`, and with nothing else. -/
structure Answers (s1 : List UInt8)
    (trace : List (Machine.Moment (Option Publisher) PublisherInput PublisherEvent)) : Prop where
  length : s1.length = 1536
  hello : ClientHello (received trace)
  response : ∀ data written, .handshake data written ∈ Machine.outputs trace →
    data = handshakeResponse s1 (received trace)

/-- How far a connection has come, and what has been handed to its socket. -/
inductive Speaks (growth : GrowthPolicy)
    (trace : List (Machine.Moment (Option Publisher) PublisherInput PublisherEvent)) :
    Option Publisher → Prop
  | start : received trace = [] → Machine.outputs trace = [] → replies trace = [] →
      Speaks growth trace (some (Publisher.new growth))
  | answered {pub : Publisher} {hs : Handshake} {s1 : List UInt8} :
      pub.session = Session.established growth hs → hs.state = .s0s1s2Sent → Answers s1 trace →
      replies trace = [] →
      (offered (Machine.outputs trace)).flatten = handshakeResponse s1 (received trace) →
      Speaks growth trace (some pub)
  | done {pub : Publisher} {s1 chunks : List UInt8} :
      pub.session.handshake.isDone = true → pub.Clean → Answers s1 trace →
      Encodes (replies trace) chunks →
      (offered (Machine.outputs trace)).flatten =
        handshakeResponse s1 (received trace) ++ protocolMessages ++ chunks →
      Speaks growth trace (some pub)
  | ended : Untorn trace (offered (Machine.outputs trace)).flatten → Speaks growth trace none

theorem Answers.handshakeResponse_append (h : Answers s1 trace) (more : List UInt8) :
    handshakeResponse s1 (received trace ++ more) = handshakeResponse s1 (received trace) := by
  rw [handshakeResponse, handshakeResponse, clientChallenge_append h.hello]

theorem Answers.snoc (h : Answers s1 trace) (hout : ∀ e ∈ out, ¬ e.IsHandshake) :
    Answers s1 (trace ++ [⟨p, i, out⟩]) where
  length := h.length
  hello := by
    rw [received_snoc]
    exact clientHello_append h.hello _
  response := by
    intro data written hmem
    rw [received_snoc, h.handshakeResponse_append]
    rw [Machine.outputs_snoc] at hmem
    rcases List.mem_append.1 hmem with hmem | hmem
    · exact h.response data written hmem
    · exact absurd trivial (hout _ hmem)

/-- What has been handed over up to now is the beginning of what the publisher is to get. -/
theorem Answers.untorn (h : Answers s1 trace) (hencodes : Encodes (replies trace) chunks)
    (hbytes : bytes <+: handshakeResponse s1 (received trace) ++ protocolMessages ++ chunks) :
    Untorn trace bytes :=
  ⟨s1, chunks, h.length, h.response, hencodes, hbytes⟩

theorem untorn_nil (hhandshake : ∀ e ∈ Machine.outputs trace, ¬ e.IsHandshake)
    (hreplies : replies trace = []) : Untorn trace [] := by
  refine ⟨List.replicate 1536 0, [], List.length_replicate, ?_, ?_, List.nil_prefix⟩
  · exact fun data written hmem => absurd trivial (hhandshake _ hmem)
  · rw [hreplies]
    exact .nil

/-- At any time, what has been handed over is the beginning of what the publisher is to get. -/
theorem Speaks.untorn (h : Speaks growth trace p) :
    Untorn trace (offered (Machine.outputs trace)).flatten := by
  cases h with
  | start hreceived hout hreplies =>
      rw [hout]
      refine untorn_nil ?_ hreplies
      rw [hout]
      simp
  | answered _ _ hanswers hreplies hoffered =>
      have hencodes : Encodes (replies trace) [] := by
        rw [hreplies]
        exact .nil
      refine hanswers.untorn hencodes ?_
      rw [hoffered, List.append_assoc]
      exact List.prefix_append _ _
  | done _ _ hanswers hencodes hoffered => exact hanswers.untorn hencodes (hoffered ▸ List.prefix_rfl)
  | ended huntorn => exact huntorn

theorem Answers.removed (h : Answers s1 trace) (hencodes : Encodes (replies trace) chunks)
    (hbytes : (offered (Machine.outputs trace)).flatten <+:
      handshakeResponse s1 (received trace) ++ protocolMessages ++ chunks) :
    Speaks growth (trace ++ [⟨p, i, [.removed]⟩]) none := by
  have hreplies : replies (trace ++ [⟨p, i, [.removed]⟩]) = replies trace := by
    rw [replies_snoc]
    exact List.append_nil _
  refine .ended ((h.snoc fun e he => ?_).untorn (hreplies ▸ hencodes) ?_)
  · rw [List.mem_singleton.1 he]
    exact id
  · rw [received_snoc, h.handshakeResponse_append, Machine.outputs_snoc, offered_append,
      List.flatten_append]
    exact (List.append_nil _).symm ▸ hbytes

theorem Speaks.step_start (hreceived : received trace = []) (hout : Machine.outputs trace = [])
    (hreplies : replies trace = []) (hanswerable : Answerable ⟨some (Publisher.new growth), i, out⟩)
    (hstep : Publisher.perform (some (Publisher.new growth)) i = .ok (p', out)) :
    Speaks growth (trace ++ [⟨some (Publisher.new growth), i, out⟩]) p' := by
  have hreceived' : received (trace ++ [⟨some (Publisher.new growth), i, out⟩]) = i.data := by
    rw [received_snoc, hreceived]
    rfl
  have hout' : Machine.outputs (trace ++ [⟨some (Publisher.new growth), i, out⟩]) = out := by
    rw [Machine.outputs_snoc, hout]
    rfl
  have hreplies' : replies (trace ++ [⟨some (Publisher.new growth), i, out⟩]) =
      repliesTo i.outcome.calls (handled out) := by
    rw [replies_snoc, hreplies]
    rfl
  generalize trace ++ [⟨some (Publisher.new growth), i, out⟩] = trace' at hreceived' hout' hreplies' ⊢
  have hremoved (hcall : (none, [.removed]) = (p', out)) : Speaks growth trace' p' := by
    obtain ⟨rfl, rfl⟩ := Prod.mk.inj hcall
    refine .ended ?_
    rw [hout']
    refine untorn_nil (fun e he => ?_) hreplies'
    rw [hout'] at he
    rw [List.mem_singleton.1 he]
    exact id
  by_cases hdata : i.data = []
  · rcases Publisher.perform_of_data_nil hdata with hperform | hperform
    · obtain ⟨rfl, rfl⟩ := Prod.mk.inj (Except.ok.inj (hperform.symm.trans hstep))
      exact .start (hreceived'.trans hdata) hout' hreplies'
    · exact hremoved (Except.ok.inj (hperform.symm.trans hstep))
  · have hfresh : (Publisher.new growth).session = Session.established growth {} := rfl
    rw [Publisher.perform_of_not_done hfresh (by decide) hdata] at hstep
    rcases Publisher.readHandshake_uninitialized (r := i.relays) (o := i.outcome) hfresh rfl with
      ⟨-, hcall⟩ | ⟨hhello, -, s1, hs1, hanswer⟩ | ⟨hhello, hlen, -⟩
    · rw [hcall] at hstep
      exact hremoved (Except.ok.inj hstep)
    · have hanswers (hresponse : ∀ data written, .handshake data written ∈ out →
          data = handshakeResponse s1 i.data) : Answers s1 trace' := by
        refine ⟨hs1, hreceived' ▸ hhello, ?_⟩
        rw [hout', hreceived']
        exact hresponse
      rcases hanswer with ⟨f, -, hcall⟩ | ⟨n, hs', -, hsent, hcall⟩
      · rw [hcall] at hstep
        obtain ⟨rfl, rfl⟩ := Prod.mk.inj (Except.ok.inj hstep)
        have hencodes : Encodes (replies trace') [] := by
          rw [hreplies']
          exact .nil
        refine .ended ((hanswers fun data written hmem => ?_).untorn hencodes ?_)
        · simp only [List.mem_cons, PublisherEvent.handshake.injEq, reduceCtorEq, List.not_mem_nil,
            or_false] at hmem
          exact hmem.1
        · rw [hout', hreceived', List.append_assoc]
          change handshakeResponse s1 i.data ++ [] <+: _
          rw [List.append_nil]
          exact List.prefix_append _ _
      · rw [hcall] at hstep
        obtain ⟨rfl, rfl⟩ := Prod.mk.inj (Except.ok.inj hstep)
        refine .answered rfl hsent (hanswers fun data written hmem => ?_) hreplies' ?_
        · exact (PublisherEvent.handshake.inj (List.mem_singleton.1 hmem)).1
        · rw [hout', hreceived']
          exact List.append_nil _
    · exact absurd (hanswerable _ rfl rfl hhello) (Nat.not_lt.2 hlen)

theorem Speaks.step_answered {pub : Publisher} {hs : Handshake}
    (hfresh : pub.session = Session.established growth hs) (hsent : hs.state = .s0s1s2Sent)
    (hanswers : Answers s1 trace) (hreplies : replies trace = [])
    (hoffered : (offered (Machine.outputs trace)).flatten = handshakeResponse s1 (received trace))
    (hstep : Publisher.perform (some pub) i = .ok (p', out)) :
    Speaks growth (trace ++ [⟨some pub, i, out⟩]) p' := by
  have hencodes : Encodes (replies trace) [] := by
    rw [hreplies]
    exact .nil
  have hprefix : (offered (Machine.outputs trace)).flatten <+:
      handshakeResponse s1 (received trace) ++ protocolMessages ++ [] := by
    rw [hoffered, List.append_assoc]
    exact List.prefix_append _ _
  by_cases hdata : i.data = []
  · rcases Publisher.perform_of_data_nil hdata with hperform | hperform
    · obtain ⟨rfl, rfl⟩ := Prod.mk.inj (Except.ok.inj (hperform.symm.trans hstep))
      refine .answered hfresh hsent (hanswers.snoc (by simp)) ?_ ?_
      · rw [replies_snoc, hreplies]
        rfl
      · rw [received_snoc, hanswers.handshakeResponse_append, Machine.outputs_snoc, List.append_nil]
        exact hoffered
    · obtain ⟨rfl, rfl⟩ := Prod.mk.inj (Except.ok.inj (hperform.symm.trans hstep))
      exact hanswers.removed hencodes hprefix
  · rw [Publisher.perform_of_not_done hfresh (by simp [hsent]) hdata] at hstep
    rcases Rtmp.Handshake.processClientHandshake_sent hsent i.data with ⟨hlen, -⟩ | ⟨-, htake⟩
    · rcases Publisher.readHandshake_sent (r := i.relays) (o := i.outcome) i.data hfresh hsent with
        ⟨-, hcall⟩ | ⟨hlong, -⟩
      · rw [hcall] at hstep
        obtain ⟨rfl, rfl⟩ := Prod.mk.inj (Except.ok.inj hstep)
        exact hanswers.removed hencodes hprefix
      · exact absurd hlen (Nat.not_lt.2 hlong)
    · obtain ⟨r', hcall⟩ := map_snd_ok hstep
      obtain ⟨chunks, hp', hquiet, hchunks, hreplied⟩ :=
        Publisher.readHandshake_done_replies hfresh htake rfl hcall
      have hanswers' : Answers s1 (trace ++ [⟨some pub, i, out⟩]) := hanswers.snoc hquiet
      have hencodes' : Encodes (replies (trace ++ [⟨some pub, i, out⟩])) chunks := by
        rw [replies_snoc, hreplies]
        exact hreplied
      have hoffered' : (offered (Machine.outputs (trace ++ [⟨some pub, i, out⟩]))).flatten =
          handshakeResponse s1 (received (trace ++ [⟨some pub, i, out⟩])) ++ protocolMessages ++
            chunks := by
        rw [received_snoc, hanswers.handshakeResponse_append, Machine.outputs_snoc, offered_append,
          List.flatten_append, hoffered, hchunks, List.append_assoc]
      cases p' with
      | none => exact .ended (hanswers'.untorn hencodes' (hoffered' ▸ List.prefix_rfl))
      | some q =>
          obtain ⟨hdone, hclean⟩ := hp' q rfl
          exact .done hdone hclean hanswers' hencodes' hoffered'

theorem Speaks.step_done {pub : Publisher} (hdone : pub.session.handshake.isDone = true)
    (hclean : pub.Clean) (hanswers : Answers s1 trace) (hencodes : Encodes (replies trace) chunks)
    (hoffered : (offered (Machine.outputs trace)).flatten =
      handshakeResponse s1 (received trace) ++ protocolMessages ++ chunks)
    (hstep : Publisher.perform (some pub) i = .ok (p', out)) :
    Speaks growth (trace ++ [⟨some pub, i, out⟩]) p' := by
  by_cases hdata : i.data = []
  · rcases Publisher.perform_of_data_nil hdata with hperform | hperform
    · obtain ⟨rfl, rfl⟩ := Prod.mk.inj (Except.ok.inj (hperform.symm.trans hstep))
      have hencodes' : Encodes (replies (trace ++ [⟨some pub, i, []⟩])) chunks := by
        rw [replies_snoc]
        exact (List.append_nil (replies trace)).symm ▸ hencodes
      refine .done hdone hclean (hanswers.snoc (by simp)) hencodes' ?_
      rw [received_snoc, hanswers.handshakeResponse_append, Machine.outputs_snoc, List.append_nil]
      exact hoffered
    · obtain ⟨rfl, rfl⟩ := Prod.mk.inj (Except.ok.inj (hperform.symm.trans hstep))
      exact hanswers.removed hencodes (hoffered ▸ List.prefix_rfl)
  · rw [Publisher.perform_of_data hdata, if_neg (by simp [hdone])] at hstep
    obtain ⟨r', hcall⟩ := map_snd_ok hstep
    obtain ⟨pub', rfl, hdone', hclean', hquiet, hreplied⟩ :=
      Publisher.processInput_replies hdone hclean hcall
    have hencodes' : Encodes (replies (trace ++ [⟨some pub, i, out⟩]))
        (chunks ++ (offered out).flatten) := by
      rw [replies_snoc]
      exact hencodes.append hreplied
    refine .done hdone' hclean' (hanswers.snoc hquiet) hencodes' ?_
    rw [received_snoc, hanswers.handshakeResponse_append, Machine.outputs_snoc, offered_append,
      List.flatten_append, hoffered, List.append_assoc _ chunks]

/-- **One step of a connection.** -/
theorem Speaks.step (h : Speaks growth trace p) (hanswerable : Answerable ⟨p, i, out⟩)
    (hstep : Publisher.perform p i = .ok (p', out)) :
    Speaks growth (trace ++ [⟨p, i, out⟩]) p' := by
  cases h with
  | start hreceived hout hreplies => exact step_start hreceived hout hreplies hanswerable hstep
  | answered hfresh hsent hanswers hreplies hoffered =>
      exact step_answered hfresh hsent hanswers hreplies hoffered hstep
  | done hdone hclean hanswers hencodes hoffered =>
      exact step_done hdone hclean hanswers hencodes hoffered hstep
  | ended huntorn =>
      obtain ⟨rfl, rfl⟩ := Prod.mk.inj (Except.ok.inj hstep)
      refine .ended ?_
      obtain ⟨s1, chunks, hs1, hresponse, hencodes, hbytes⟩ := huntorn
      have hreceived : received (trace ++ [⟨none, i, []⟩]) = received trace := by
        rw [received_snoc]
        exact List.append_nil _
      have hout : Machine.outputs (trace ++ [⟨none, i, []⟩]) = Machine.outputs trace := by
        rw [Machine.outputs_snoc]
        exact List.append_nil _
      have hreplies : replies (trace ++ [⟨none, i, []⟩]) = replies trace := by
        rw [replies_snoc]
        exact List.append_nil _
      rw [Untorn, hreceived, hout, hreplies]
      exact ⟨s1, chunks, hs1, hresponse, hencodes, hbytes⟩

end Step

/-! ### Whole connections -/

/-- **A publisher gets the beginning of what it is to get, if nothing is accepted behind a piece that
has been cut**: on every connection of every run of the manager, whatever is accepted of each piece. -/
theorem replies_untorn {m m' : RelayManager} {id : ℕ} {growth : GrowthPolicy}
    {trace : List (Machine.Moment RelayManager RelayInput RelayOutput)} {counts : List ℕ}
    (hrun : Machine.Run RelayManager.machine m trace m') (hid : id < m.next)
    (hnew : m.publishers id = some (Publisher.new growth))
    (hanswerable : ∀ moment ∈ connection id trace, Answerable moment)
    (hcut : Contiguous counts (offered (Machine.outputs (connection id trace)))) :
    Untorn (connection id trace)
      (accepted counts (offered (Machine.outputs (connection id trace)))) := by
  have hconnection := (run_connection hrun hid).2
  rw [hnew] at hconnection
  have hspeaks : Speaks growth (connection id trace) (m'.publishers id) :=
    hconnection.invariant hanswerable (.start rfl rfl rfl) fun _ hspeaks hanswerable hstep =>
      hspeaks.step hanswerable hstep
  obtain ⟨s1, chunks, hs1, hresponse, hencodes, hbytes⟩ := hspeaks.untorn
  exact ⟨s1, chunks, hs1, hresponse, hencodes, (PartialWrites.accepted_prefix hcut).trans hbytes⟩

/-! ### A handshake in two reads -/

/-- C0 and C1 are read, and `n` bytes of the answer are accepted. -/
def answerAccepted (n : ℕ) : PublisherOutcome :=
  { readsData (hello 0) (by rw [length_hello]; omega) with responseWritten := .ok n }

/-- C2 is read, and the protocol messages are accepted whole. -/
def challengeAnswered : PublisherOutcome :=
  readsData (List.replicate 1536 0) (by rw [List.length_replicate]; omega)

/-- C0 and C1 are answered, as far as the socket accepts it. -/
theorem Publisher.perform_hello {growth : GrowthPolicy} {i : PublisherInput} {n : ℕ}
    {p : Option Publisher} (hhello : ClientHello i.data) (hshort : i.data.length < 3073)
    (hwritten : i.outcome.responseWritten = .ok n)
    (hstep : perform (some (Publisher.new growth)) i = .ok (p, out)) :
    ∃ s1 hs, s1.length = 1536 ∧ hs.state = .s0s1s2Sent ∧
      p = some { Publisher.new growth with session := Session.established growth hs } ∧
      out = [.handshake (handshakeResponse s1 i.data) (.ok n)] := by
  have hdata : i.data ≠ [] := by
    intro hnil
    have hlen := hhello.1
    simp [hnil] at hlen
  have hnew : (Publisher.new growth).session = Session.established growth {} := rfl
  rw [perform_of_not_done hnew (by decide) hdata] at hstep
  rcases readHandshake_uninitialized (r := i.relays) (o := i.outcome) hnew rfl with
    ⟨hnot, -⟩ | ⟨-, -, s1, hs1, ⟨f, herror, -⟩ | ⟨k, hs, hk, hsent, hcall⟩⟩ |
      ⟨-, hlong, -⟩
  · exact absurd hhello hnot
  · rw [hwritten] at herror
    cases herror
  · rw [hcall] at hstep
    obtain ⟨rfl, rfl⟩ := Prod.mk.inj (Except.ok.inj hstep)
    obtain rfl : n = k := Except.ok.inj (hwritten.symm.trans hk)
    exact ⟨s1, hs, hs1, hsent, rfl, rfl⟩
  · exact absurd hshort (Nat.not_lt.2 hlong)

theorem Publisher.perform_challenge {growth : GrowthPolicy} {i : PublisherInput} {n : ℕ}
    {p : Option Publisher} {hs : Handshake} (hfresh : pub.session = Session.established growth hs)
    (hsent : hs.state = .s0s1s2Sent) (hlen : i.data.length = 1536)
    (hwritten : i.outcome.protocolWritten = .ok n) (hstep : perform (some pub) i = .ok (p, out)) :
    out = [.chunks protocolMessages] := by
  have hdata : i.data ≠ [] := fun hnil => by simp [hnil] at hlen
  rw [perform_of_not_done hfresh (by simp [hsent]) hdata] at hstep
  rcases Handshake.processClientHandshake_sent hsent i.data with ⟨hshort, -⟩ | ⟨-, htake⟩
  · exact absurd hlen (Nat.ne_of_lt hshort)
  · obtain ⟨session, -, -, -, -, -, hread⟩ :=
      readHandshake_done_eq (r := i.relays) (o := i.outcome) hfresh htake rfl
    rw [hread, hwritten] at hstep
    simp only [hlen, lt_irrefl, if_false] at hstep
    exact (Prod.mk.inj (Except.ok.inj hstep)).2.symm

/-- The answer is handed over with the first read, and the protocol messages with the second one. -/
theorem exists_handshake (n : ℕ) :
    ∃ trace m' s1, Machine.Run RelayManager.machine acceptedOne trace m' ∧
      (Machine.inputs (connection 0 trace)).map (fun i => (i.mask, i.outcome)) =
        [(readable, answerAccepted n), (readable, challengeAnswered)] ∧
      (∀ moment ∈ connection 0 trace, Answerable moment) ∧ s1.length = 1536 ∧
      received (connection 0 trace) = hello 0 ++ List.replicate 1536 0 ∧
      Machine.outputs (connection 0 trace) =
        [.handshake (handshakeResponse s1 (hello 0)) (.ok n), .chunks protocolMessages] := by
  obtain ⟨trace, m', hrun, hinputs⟩ := exists_reads [answerAccepted n, challengeAnswered]
  have hinputs' := hinputs
  rw [Machine.inputs, List.map_map] at hinputs'
  obtain ⟨m₁, ms, hm, hi₁, hrest⟩ := List.map_eq_cons_iff.1 hinputs'
  obtain ⟨m₂, rfl, hi₂⟩ := List.map_eq_singleton_iff.1 hrest
  obtain ⟨hmask₁, ho₁⟩ := Prod.mk.inj hi₁
  obtain ⟨hmask₂, ho₂⟩ := Prod.mk.inj hi₂
  have hdata₁ : m₁.input.data = hello 0 := by
    rw [PublisherInput.data, hmask₁, ho₁]
    rfl
  have hdata₂ : m₂.input.data = List.replicate 1536 0 := by
    rw [PublisherInput.data, hmask₂, ho₂]
    rfl
  have hhello : ClientHello m₁.input.data := by
    rw [hdata₁]
    exact ⟨by rw [length_hello], rfl⟩
  have hlen₁ : m₁.input.data.length < 3073 := by
    rw [hdata₁, length_hello]
    omega
  have hlen₂ : m₂.input.data.length = 1536 := by
    rw [hdata₂, List.length_replicate]
  have hconnection := (run_connection hrun (by decide : 0 < acceptedOne.next)).2
  rw [hm] at hconnection
  obtain ⟨hstate₁, p₁, hstep₁, hrun₂⟩ := hconnection.of_cons
  obtain ⟨hstate₂, p₂, hstep₂, -⟩ := hrun₂.of_cons
  have hwritten₁ : m₁.input.outcome.responseWritten = .ok n := by
    rw [ho₁]
    rfl
  have hwritten₂ : m₂.input.outcome.protocolWritten = .ok 49 := by
    rw [ho₂]
    rfl
  obtain ⟨s1, hs, hs1, hsent, rfl, hout₁⟩ :=
    Publisher.perform_hello hhello hlen₁ hwritten₁ hstep₁
  have hout₂ := Publisher.perform_challenge rfl hsent hlen₂ hwritten₂ hstep₂
  refine ⟨trace, m', s1, hrun, hinputs, ?_, hs1, ?_, ?_⟩
  · rw [hm]
    intro moment hmem pub _ _ _
    rcases List.mem_pair.1 hmem with rfl | rfl
    · exact hlen₁
    · rw [hlen₂]
      omega
  · rw [hm, received, List.flatMap_cons, List.flatMap_singleton, hstate₁, hstate₂, hdata₁, hdata₂]
    rfl
  · rw [hm, Machine.outputs, List.flatMap_cons, List.flatMap_singleton, hout₁, hout₂, hdata₁]
    rfl

theorem length_handshakeResponse {s1 received : List UInt8} (hs1 : s1.length = 1536)
    (hreceived : ClientHello received) : (handshakeResponse s1 received).length = 3073 := by
  rw [handshakeResponse, List.length_append, List.length_cons, hs1,
    Rtmp.Handshake.length_clientChallenge hreceived]

/-- A handshake whose pieces are accepted whole. -/
theorem replies_untorn_whole : ∃ trace m', Machine.Run RelayManager.machine acceptedOne trace m' ∧
    received (connection 0 trace) = hello 0 ++ List.replicate 1536 0 ∧
    Untorn (connection 0 trace)
      (accepted [3073, 49] (offered (Machine.outputs (connection 0 trace)))) := by
  obtain ⟨trace, m', s1, hrun, -, hanswerable, hs1, hreceived, hout⟩ := exists_handshake 3073
  refine ⟨trace, m', hrun, hreceived, replies_untorn hrun (by decide) rfl hanswerable ?_⟩
  have hlen : (handshakeResponse s1 (hello 0)).length = 3073 :=
    length_handshakeResponse hs1 ⟨by rw [length_hello], rfl⟩
  rw [hout]
  refine ⟨fun hcut => ?_, fun hcut => absurd hcut (by decide), trivial⟩
  rw [hlen] at hcut
  exact absurd hcut (lt_irrefl _)

/-- All but the last byte of the answer is accepted, and then the protocol messages are: behind a part
of the answer is what does not belong there. -/
theorem replies_torn : ∃ trace m', Machine.Run RelayManager.machine acceptedOne trace m' ∧
    (Machine.inputs (connection 0 trace)).map (fun i => (i.mask, i.outcome)) =
      [(readable, answerAccepted 3072), (readable, challengeAnswered)] ∧
    (∀ moment ∈ connection 0 trace, Answerable moment) ∧
    ¬ Untorn (connection 0 trace)
      (accepted [3072, 49] (offered (Machine.outputs (connection 0 trace)))) := by
  obtain ⟨trace, m', s1, hrun, hinputs, hanswerable, hs1, hreceived, hout⟩ := exists_handshake 3072
  refine ⟨trace, m', hrun, hinputs, hanswerable, ?_⟩
  have hhello : ClientHello (hello 0) := ⟨by rw [length_hello], rfl⟩
  have hlen : (handshakeResponse s1 (hello 0)).length = 3073 := length_handshakeResponse hs1 hhello
  rintro ⟨s1', chunks, -, hresponse, -, hbytes⟩
  have hsame := hresponse (handshakeResponse s1 (hello 0)) (.ok 3072) (by rw [hout]; simp)
  -- the last byte of the answer is that of C1, and the first one of the protocol messages comes instead
  have hlast : (handshakeResponse s1 (hello 0))[3072]? = some 0 := by
    have hchallenge : clientChallenge (hello 0) = List.replicate 1536 0 := by
      rw [clientChallenge, hello, List.drop_one, List.tail_cons, List.take_replicate]
      rfl
    have hbefore : (3 :: s1).length = 1537 := by rw [List.length_cons, hs1]
    rw [handshakeResponse, hchallenge, List.getElem?_append_right (by omega), hbefore,
      List.getElem?_replicate, if_pos (by omega)]
  have htaken : (accepted [3072, 49] (offered (Machine.outputs (connection 0 trace))))[3072]? =
      some 2 := by
    have hoffered : offered (Machine.outputs (connection 0 trace)) =
        [handshakeResponse s1 (hello 0), protocolMessages] := by
      rw [hout]
      rfl
    have htake : ((handshakeResponse s1 (hello 0)).take 3072).length = 3072 := by
      rw [List.length_take, hlen]
      rfl
    rw [hoffered, PartialWrites.accepted_cons, List.getElem?_append_right htake.le, htake]
    rfl
  obtain ⟨more, hmore⟩ := hbytes
  have hbyte := congrArg (fun bytes => bytes[3072]?) hmore
  rw [← hsame, List.append_assoc, List.getElem?_append_left (List.getElem?_eq_some_iff.1 htaken).1,
    htaken, List.getElem?_append_left (hlen ▸ by omega), hlast] at hbyte
  cases hbyte

end Relay
