/-
**Commands and stale memory.**

`CommandMessage::parse` assigns the transaction id only if the second value of the payload is a number,
and the member has no initializer: otherwise the id is whatever the memory held.  The answers to
`connect` and `createStream` echo it, so what the memory held goes out to a peer that nobody has
authenticated.

Whether this happens is a matter of the payload alone.  Two handlers that receive the same, and find
different memory, do the same for every command whose second value is a number.

Main definitions:

* `Relay.CallOutcome.Agrees` — two calls receive the same;
* `Rtmp.Numbered` — a command has a transaction id;
* `Relay.Determined` — a payload says what is answered.

Main results:

* `Rtmp.parse_stale_iff` — a command is parsed to the same exactly if it has a transaction id;
* `Relay.handleMessages_agrees` — the messages of a read are handled in the same way;
* `Relay.determined_iff` — **a payload says what is answered exactly if it is numbered**.
-/

import RtmpTranscoder.RelayManager

set_option relaxedAutoImplicit false
set_option autoImplicit false

namespace Rtmp

open Amf0 (Value)

variable {payload : List UInt8}

/-- The second value is a number, if the payload is that of a command. -/
def Numbered (payload : List UInt8) : Prop :=
  ∀ value values name, Amf0.decodeArray payload = .ok (value :: values) →
    value.asString? = some name → ∃ bits, values.head?.bind Value.asNumber? = some bits

/-- **A command is parsed to the same, whatever the memory held, exactly if it has a transaction
id.** -/
theorem parse_stale_iff :
    (∀ stale stale', CommandMessage.parse stale payload = CommandMessage.parse stale' payload) ↔
      Numbered payload := by
  constructor
  · intro h value values name hdecode hname
    cases hnumber : values.head?.bind Value.asNumber? with
    | some bits => exact ⟨bits, rfl⟩
    | none =>
        -- nothing is assigned to the transaction id
        have hparse (stale : UInt64) : CommandMessage.parse stale payload =
            some ⟨name, stale, values.drop 1⟩ := by
          simp only [CommandMessage.parse, hdecode, hname, hnumber, Option.getD_none]
        have hsame := h 0 1
        rw [hparse, hparse] at hsame
        have hid : (0 : UInt64) = 1 := congrArg CommandMessage.transactionId (Option.some.inj hsame)
        exact absurd hid (by decide)
  · intro h stale stale'
    unfold CommandMessage.parse
    cases hdecode : Amf0.decodeArray payload with
    | error f => rfl
    | ok values =>
        cases values with
        | nil => rfl
        | cons value values =>
            cases hname : value.asString? with
            | none => simp only [hname]
            | some name =>
                obtain ⟨bits, hbits⟩ := h value values name hdecode hname
                simp only [hname, hbits, Option.getD_some]

end Rtmp

namespace Relay

open Rtmp (CommandMessage Failure Message MessageType Numbered)
open Text

/-- Two calls receive the same, and may find different memory. -/
structure CallOutcome.Agrees (o o' : CallOutcome) : Prop where
  resolve : o.resolve = o'.resolve
  clientOpen : o.clientOpen = o'.clientOpen

variable {r : Relays} {pub : Publisher} {payload : List UInt8} {msg : Message}

/-- What is done for a command does not depend on the memory. -/
theorem handlePublisherCommand_agrees {o o' : CallOutcome} (h : o.Agrees o') (cmd : CommandMessage) :
    handlePublisherCommand r pub o cmd = handlePublisherCommand r pub o' cmd := by
  have hstart (streamId : StreamId) : startRelaying r o streamId = startRelaying r o' streamId := by
    obtain ⟨stale, resolve, clientOpen⟩ := o
    obtain ⟨stale', resolve', clientOpen'⟩ := o'
    obtain ⟨rfl, rfl⟩ := h
    rfl
  unfold handlePublisherCommand
  simp only [hstart]

/-- What is done for a message, if its command has a transaction id. -/
theorem handlePublisherMessage_agrees {o o' : CallOutcome} (h : o.Agrees o')
    (hnumbered : msg.typeId = MessageType.commandAMF0.code → Numbered msg.payload) :
    handlePublisherMessage r pub o msg = handlePublisherMessage r pub o' msg := by
  unfold handlePublisherMessage
  split
  · rename_i htype
    rw [Rtmp.parse_stale_iff.2 (hnumbered htype) o.stale o'.stale]
    simp only [handlePublisherCommand_agrees h]
  · rfl

/-- **The messages of a read are handled in the same way**, by induction on them. -/
theorem handleMessages_agrees {calls calls' : ℕ → CallOutcome} {messages : List Message}
    (h : ∀ n, (calls n).Agrees (calls' n))
    (hnumbered : ∀ msg ∈ messages, msg.typeId = MessageType.commandAMF0.code → Numbered msg.payload) :
    handleMessages r pub calls messages = handleMessages r pub calls' messages := by
  induction messages generalizing r pub calls calls' with
  | nil => rfl
  | cons msg messages ih =>
      have hfirst := @handlePublisherMessage_agrees r pub msg _ _ (h 0)
        (hnumbered msg List.mem_cons_self)
      unfold handleMessages
      rw [hfirst]
      cases handlePublisherMessage r pub (calls' 0) msg with
      | error f => rfl
      | ok first =>
          have hrest := @ih first.1 first.2.1 (fun n => calls (n + 1)) (fun n => calls' (n + 1))
            (fun n => h (n + 1)) fun other hother => hnumbered other (List.mem_cons_of_mem _ hother)
          simp only [bind, Except.bind]
          rw [hrest]

/-- Of a read, the session and its messages say what is done. -/
theorem processInput_agrees {data : List UInt8} {calls calls' : ℕ → CallOutcome}
    (h : ∀ n, (calls n).Agrees (calls' n))
    (hnumbered : ∀ msg ∈ (pub.session.processInput data).2.1,
      msg.typeId = MessageType.commandAMF0.code → Numbered msg.payload) :
    pub.processInput r data calls = pub.processInput r data calls' := by
  unfold Publisher.processInput
  generalize pub.session.processInput data = processed at *
  obtain ⟨session, messages, result⟩ := processed
  simp only [handleMessages_agrees h hnumbered]

/-- A payload says what the command is, and what is done and answered. -/
structure Determined (payload : List UInt8) : Prop where
  parse : ∀ stale stale', CommandMessage.parse stale payload = CommandMessage.parse stale' payload
  reply : ∀ (r : Relays) (pub : Publisher) (o o' : CallOutcome) (msg : Message),
    msg.payload = payload → o.Agrees o' →
      handlePublisherMessage r pub o msg = handlePublisherMessage r pub o' msg

/-- **A payload says what is answered exactly if it is numbered.** -/
theorem determined_iff (payload : List UInt8) : Determined payload ↔ Numbered payload := by
  constructor
  · exact fun h => Rtmp.parse_stale_iff.1 h.parse
  · intro h
    refine ⟨Rtmp.parse_stale_iff.2 h, ?_⟩
    rintro r pub o o' msg rfl hagrees
    exact handlePublisherMessage_agrees hagrees fun _ => h

/-- The bytes that are handed to the socket. -/
def chunksOf (out : List PublisherEvent) : List UInt8 :=
  out.flatMap fun
    | .chunks data => data
    | _ => []

/-- The command `createStream` without a transaction id is answered with what the memory held. -/
theorem not_determined :
    let payload := Amf0.encode (Amf0.Value.string (ascii "createStream"))
    let answer (stale : UInt64) :=
      (handlePublisherMessage {} (Publisher.new .exact) ⟨stale, fun _ => .ok [], false⟩
        ⟨MessageType.commandAMF0.code, 0, 0, payload⟩).map fun result => chunksOf result.2.2
    (∀ bytes, answer 0 = .ok bytes → answer 1 ≠ .ok bytes) ∧ ¬ Determined payload := by
  intro payload answer
  have hanswers : answer 0 ≠ answer 1 := by decide +kernel
  refine ⟨fun bytes hzero hone => hanswers (hzero.trans hone.symm), fun h => hanswers ?_⟩
  have hsame := h.reply {} (Publisher.new .exact) ⟨0, fun _ => .ok [], false⟩
    ⟨1, fun _ => .ok [], false⟩ ⟨MessageType.commandAMF0.code, 0, 0, payload⟩ rfl ⟨rfl, rfl⟩
  exact congrArg (Except.map fun result => chunksOf result.2.2) hsame

end Relay
