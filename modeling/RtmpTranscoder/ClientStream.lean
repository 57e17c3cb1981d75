/-
**A client's end of a connection.**

`ClientWire.lean` says which bytes reach the server, and `ClientHandshake.lean` what a client does with
the bytes that it reads.  This module puts the two together, for a client that has been connected once:
as long as its handshake is pending, the client holds all that it has read, and the server has at most
C0 and C1; when the handshake is done, S1 is in what it has read, and the server gets C2 and the chunks.

The chunks are those of the messages and of the commands that have been sent, and a receiver makes these
messages of them again.

Main definitions:

* `Rtmp.EventClient.Heard` — what a client has made of what it has read;
* `Rtmp.ClientAction.sent`, `Rtmp.sentMessages` — the messages that are sent;
* `Rtmp.ClientAction.Sendable` — what the caller keeps to;
* `Rtmp.EventClient.Talks` — both directions of a client's connection.

Main results:

* `Rtmp.EventClient.Sound.perform_parts` — every action is at most one read;
* `Rtmp.EventClient.Talks.run` — **both directions, in every run**;
* `Rtmp.decodes_sentEncodings` — **the chunks are decoded as what has been sent**.
-/

import RtmpTranscoder.ClientWire
import RtmpTranscoder.Duplex
import RtmpTranscoder.SessionDelivery

set_option relaxedAutoImplicit false
set_option autoImplicit false

namespace Rtmp

open Machine (Moment Run)

/-! ### What is sent -/

/-- The message that an action sends, if it sends one. -/
def ClientAction.sent : ClientAction → Option Message
  | .sendMessage msg => some msg
  | .sendCommand cmd _ => some ⟨MessageType.commandAMF0.code, 0, 0, cmd.encode⟩
  | _ => none

/-- What the caller of a client keeps to, as the caller of a session does. -/
def ClientAction.Sendable : ClientAction → Prop
  | .sendMessage msg => (SenderCall.message msg).Valid
  | .sendCommand cmd csid => (SenderCall.command cmd csid).Valid
  | _ => True

def sentMessages (trace : List (Moment EventClient ClientAction LoopOutput)) : List Message :=
  (Machine.inputs trace).filterMap ClientAction.sent

theorem ClientAction.announced_of_sent {action : ClientAction} (h : action.Sendable) {msg : Message}
    (hsent : action.sent = some msg) : announced msg = none := by
  cases action with
  | sendMessage m =>
      obtain rfl := Option.some.inj hsent
      exact if_neg h.1
  | sendCommand cmd csid =>
      obtain rfl := Option.some.inj hsent
      exact if_neg (by simp [MessageType.code])
  | _ => cases hsent

/-- One action puts the chunks of one message behind what is on its way. -/
theorem Decodes.sent {bytes : List UInt8} {messages : List Message} (h : Decodes bytes messages 128)
    {action : ClientAction} (hsendable : action.Sendable) {more : List (List UInt8)}
    (hmore : (action.encoding 128).toList = more.map .ok) :
    Decodes (bytes ++ more.flatten) (messages ++ action.sent.toList) 128 := by
  have hrange : InRange 128 := by decide
  -- a message that announces no chunk size leaves the chunk size as it is
  have hone {header : ChunkHeader} {payload : List UInt8} {msg : Message}
      (hmsg : Chunk.message ⟨headerOf header, payload⟩ = msg)
      (hcsid : 2 ≤ header.chunkStreamId.toNat ∧ header.chunkStreamId.toNat ≤ 65599)
      (hlen : header.messageLength = UInt32.ofNat payload.length)
      (hpayload : 1 ≤ payload.length ∧ payload.length ≤ 0xFFFFFF)
      (hstamp : header.timestamp.toNat < 0xFFFFFF) (hann : announced msg = none)
      (hencode : [Rtmp.encodeChunk header payload 128] = more.map .ok) :
      Decodes (bytes ++ more.flatten) (messages ++ [msg]) 128 := by
    have hlen' : header.messageLength.toNat = payload.length := by
      rw [hlen]
      exact UInt32.toNat_ofNat_of_lt' (Nat.lt_of_le_of_lt hpayload.2 (by decide))
    obtain ⟨data, hdata, hdecodes⟩ := h.encode hrange hcsid hlen' hpayload hstamp
    obtain ⟨first, hfirst, hone⟩ := List.map_eq_singleton_iff.1 hencode.symm
    rw [hdata] at hone
    obtain rfl := Except.ok.inj hone
    have hlast : lastInRange 128 [msg] = 128 := by simp [lastInRange, hann]
    rw [hmsg, hlast] at hdecodes
    rwa [hfirst, List.flatten_singleton]
  cases action with
  | sendMessage msg =>
      exact hone rfl (Session.messageHeader_chunkStreamId msg) rfl hsendable.2.2 hsendable.2.1
        (ClientAction.announced_of_sent hsendable rfl) hmore
  | sendCommand cmd csid =>
      exact hone rfl ⟨hsendable.1, hsendable.2.1⟩ rfl ⟨cmd.length_encode_pos, hsendable.2.2⟩
        (by decide : (0 : UInt32).toNat < 0xFFFFFF) (ClientAction.announced_of_sent hsendable rfl)
        hmore
  | _ =>
      obtain rfl : more = [] := List.map_eq_nil_iff.1 hmore.symm
      simpa [ClientAction.sent] using h

/-- **The chunks of a run are decoded as what has been sent in it.** -/
theorem decodes_sentEncodings {trace : List (Moment EventClient ClientAction LoopOutput)}
    (hsendable : ∀ m ∈ trace, m.input.Sendable) {encodings : List (List UInt8)}
    (hsent : sentEncodings 128 trace = encodings.map .ok) :
    Decodes encodings.flatten (sentMessages trace) 128 := by
  induction trace using List.reverseRecOn generalizing encodings with
  | nil =>
      obtain rfl : encodings = [] := List.map_eq_nil_iff.1 hsent.symm
      exact ⟨[], [], _, rfl, by simp, .nil _, fun _ => rfl, rfl, rfl⟩
  | append_singleton trace m ih =>
      have hsplit : sentEncodings 128 (trace ++ [m]) =
          sentEncodings 128 trace ++ (m.input.encoding 128).toList := by
        simp only [sentEncodings, Machine.inputs_snoc, List.filterMap_append]
        cases haction : m.input.encoding 128 with
        | none => rw [List.filterMap_cons_none haction, List.filterMap_nil, Option.toList_none]
        | some encoded =>
            rw [List.filterMap_cons_some haction, List.filterMap_nil, Option.toList_some]
      have hmessages : sentMessages (trace ++ [m]) = sentMessages trace ++ m.input.sent.toList := by
        simp only [sentMessages, Machine.inputs_snoc, List.filterMap_append]
        cases haction : m.input.sent with
        | none => rw [List.filterMap_cons_none haction, List.filterMap_nil, Option.toList_none]
        | some msg => rw [List.filterMap_cons_some haction, List.filterMap_nil, Option.toList_some]
      rw [hsplit] at hsent
      obtain ⟨before, more, rfl, hbefore, hmore⟩ := List.map_eq_append_iff.1 hsent.symm
      rw [List.flatten_append, hmessages]
      have hsendable' : ∀ m ∈ trace, m.input.Sendable := fun m hm =>
        hsendable m (List.mem_append_left _ hm)
      refine (ih hsendable' hbefore.symm).sent ?_ hmore.symm
      exact hsendable m (List.mem_append_right _ (List.mem_singleton_self m))

theorem announced_of_mem_sentMessages {trace : List (Moment EventClient ClientAction LoopOutput)}
    (hsendable : ∀ m ∈ trace, m.input.Sendable) {msg : Message} (hmsg : msg ∈ sentMessages trace) :
    announced msg = none := by
  obtain ⟨action, haction, hsent⟩ := List.mem_filterMap.1 hmsg
  obtain ⟨m, hm, rfl⟩ := List.mem_map.1 haction
  exact ClientAction.announced_of_sent (hsendable m hm) hsent

/-! ### What is read -/

namespace Client

/-- What a client makes of `data`: as long as the handshake is pending, it is kept, or completes the
handshake. -/
structure Hears (c : Client) (data : List UInt8) (c' : Client) : Prop where
  done : c.session.handshake.isDone = true → c'.session.handshake = c.session.handshake
  pending : c.session.handshake.isDone = false →
    (data ≠ [] ∧ c.session.handshake.ServerComplete (c.readBuffer ++ data) ∧
      c'.session.handshake.isDone = true ∧
      c'.session.handshake.s1Data = ((c.readBuffer ++ data).drop 1).take 1536) ∨
    (c'.session.handshake = c.session.handshake ∧ c'.readBuffer = c.readBuffer ++ data)

variable {c c' : Client} {events : List ClientEvent}

/-- **What a client makes of a read.** -/
theorem hears_handleReadable {r : Readiness}
    (hdone : c.connected = true → c.session.handshake.isDone = true)
    (hcall : c.handleReadable r = .ok (c', events)) : c.Hears r.bytes c' := by
  obtain ⟨hreceives, -⟩ := receives_handleReadable hdone hcall
  rcases handleReadable_answer hdone hcall with ⟨hsame, -⟩ | ⟨⟨hdata, hcomplete⟩, hdone', hs1, -⟩
  · refine ⟨fun _ => hsame, fun hpending => .inr ⟨hsame, ?_⟩⟩
    rcases hreceives.pending hpending with ⟨-, -, hdone'⟩ | ⟨-, -, hbuffer⟩
    · rw [hsame, hpending] at hdone'
      cases hdone'
    · exact hbuffer
  · refine ⟨fun hnot => ?_, fun _ => .inl ⟨hdata, hcomplete, hdone', hs1⟩⟩
    rw [Handshake.isDone, hcomplete.1] at hnot
    cases hnot

end Client

namespace EventClient

variable {c c' c₁ c₂ : EventClient} {policy : GrowthPolicy} {out : List LoopOutput}
  {action : ClientAction} {data bytes hello : List UInt8}

/-- **Every action is at most one read**, between things that leave the receive path alone. -/
theorem Sound.perform_parts (h : c.Sound) (hconnect : ∀ o, action ≠ .connect o)
    (hcall : c.perform policy action = .ok (c', out)) :
    ∃ c₁ c₂, c.KeepsStream c₁ ∧ c₂.KeepsStream c' ∧
      ((c₂ = c₁ ∧ c.readOf action = []) ∨
        ∃ r events, c₁.handleReadable r = .ok (c₂, events) ∧ c.interest ≠ none ∧
          c.readOf action = if c₁.socketOpen then r.bytes else []) := by
  have hquiet (hread : c.readOf action = []) (hkeeps : c.KeepsStream c') :
      ∃ c₁ c₂, c.KeepsStream c₁ ∧ c₂.KeepsStream c' ∧
        ((c₂ = c₁ ∧ c.readOf action = []) ∨
          ∃ r events, c₁.handleReadable r = .ok (c₂, events) ∧ c.interest ≠ none ∧
            c.readOf action = if c₁.socketOpen then r.bytes else []) :=
    ⟨c', c', hkeeps, .refl c', .inl ⟨rfl, hread⟩⟩
  cases action with
  | connect o => exact absurd rfl (hconnect o)
  | disconnect =>
      refine hquiet rfl ?_
      obtain ⟨rfl, -⟩ | ⟨rfl, -⟩ := perform_disconnect hcall
      · exact c.keepsStream_cleanup
      · exact .refl c'
  | sendMessage msg => exact hquiet rfl (undisturbed_send rfl hcall).toKeepsStream
  | sendCommand cmd csid => exact hquiet rfl (undisturbed_send rfl hcall).toKeepsStream
  | flush written =>
      obtain ⟨rfl, -⟩ := Prod.mk.inj (Except.ok.inj hcall)
      exact hquiet rfl (c.undisturbed_flush written).toKeepsStream
  | events mask o =>
      obtain ⟨hsome, hcall⟩ | ⟨hsome, rfl, -⟩ := perform_events hcall
      · obtain ⟨-, c₂, out₂, -, hread, -, rfl, -⟩ := h.onEvents hcall
        set r₁ := if mask.epollOut then c.onWritable o.written else (c, []) with hr₁
        have hwrite : c.KeepsStream r₁.1 := by
          rw [hr₁]
          split
          · exact c.keepsStream_onWritable _
          · exact .refl c
        have hfinal : c₂.KeepsStream
            (if mask.epollErr || mask.epollHup then c₂.cleanup else (c₂, [])).1 := by
          split
          · exact c₂.keepsStream_cleanup
          · exact .refl c₂
        refine ⟨r₁.1, c₂, hwrite, hfinal, ?_⟩
        cases hin : mask.epollIn with
        | false =>
            simp only [hin, Bool.false_eq_true, if_false] at hread
            obtain ⟨rfl, -⟩ := Prod.mk.inj (Except.ok.inj hread)
            refine .inl ⟨rfl, ?_⟩
            simp only [readOf, hin, Bool.and_false, Bool.false_and, Bool.false_eq_true, if_false]
        | true =>
            simp only [hin, if_true] at hread
            refine .inr ⟨o.readiness, out₂, hread, Option.isSome_iff_ne_none.1 hsome, ?_⟩
            simp only [readOf, hsome, hin, Bool.true_and, hr₁]
      · refine hquiet ?_ (.refl c')
        simp only [readOf, hsome, Bool.false_and, Bool.false_eq_true, if_false]

theorem hears_handleReadable (hr : c.Receiving) {r : Readiness}
    (hcall : c.handleReadable r = .ok (c', out)) :
    c.toClient.Hears (if c.socketOpen then r.bytes else []) c'.toClient ∧
      c'.handshakeData = c.handshakeData ∧ (c.interest = none → c'.interest = none) := by
  unfold EventClient.handleReadable at hcall
  dsimp only at hcall
  set r' : Readiness :=
    if c.socketOpen then r else { r with read := .error (.err "Bad file descriptor") } with hr'
  have hbytes : r'.bytes = if c.socketOpen then r.bytes else [] := by
    rw [hr']
    split <;> rfl
  cases hclient : c.toClient.handleReadable r' with
  | error f =>
      rw [hclient] at hcall
      cases hcall
  | ok q =>
      obtain ⟨client, events⟩ := q
      rw [hclient] at hcall
      obtain ⟨rfl, -⟩ := Prod.mk.inj (Except.ok.inj hcall)
      have hhears := Client.hears_handleReadable hr.connected hclient
      rw [hbytes] at hhears
      refine ⟨hhears, rfl, fun hnone => ?_⟩
      simp only [hnone, ite_self]

/-- What a client has made of the bytes that it has read. -/
structure Heard (c : EventClient) (hello bytes : List UInt8) : Prop where
  handshakeData : c.handshakeData = hello
  registered : c.interest ≠ none → hello.length = 1537
  pending : c.session.handshake.isDone = false → c.readBuffer = bytes
  done : c.session.handshake.isDone = true →
    hello.length = 1537 ∧ 3073 ≤ bytes.length ∧
      c.session.handshake.s1Data = (bytes.drop 1).take 1536

theorem Heard.of_keeps (h : c.Heard hello bytes) (hkeeps : c.KeepsStream c') :
    c'.Heard hello bytes where
  handshakeData := hkeeps.handshakeData.trans h.handshakeData
  registered hinterest := h.registered fun hnone => hinterest (hkeeps.unregistered hnone)
  pending hpending := by
    rw [hkeeps.readBuffer]
    exact h.pending (by rwa [hkeeps.handshake] at hpending)
  done hdone := by
    rw [hkeeps.handshake] at hdone ⊢
    exact h.done hdone

/-- **One action.** -/
theorem Heard.perform (h : c.Heard hello bytes) (hsound : c.Sound) (hr : c.Receiving)
    (hconnect : ∀ o, action ≠ .connect o) (hcall : c.perform policy action = .ok (c', out)) :
    c'.Heard hello (bytes ++ c.readOf action) := by
  obtain ⟨c₁, c₂, hbefore, hafter, hread⟩ := hsound.perform_parts hconnect hcall
  have h₁ := h.of_keeps hbefore
  rcases hread with ⟨rfl, hnil⟩ | ⟨r, events, hread, hinterest, hof⟩
  · rw [hnil, List.append_nil]
    exact h₁.of_keeps hafter
  · refine Heard.of_keeps ?_ hafter
    obtain ⟨hhears, hhello, hnone⟩ := hears_handleReadable (hr.of_keeps hbefore) hread
    rw [← hof] at hhears
    have hlen : hello.length = 1537 := h.registered hinterest
    refine ⟨hhello.trans h₁.handshakeData, fun _ => hlen, fun hpending => ?_, fun hdone => ?_⟩
    · have hpending₁ : c₁.session.handshake.isDone = false := by
        by_contra hdone
        rw [Bool.not_eq_false] at hdone
        rw [hhears.done hdone, hdone] at hpending
        cases hpending
      rcases hhears.pending hpending₁ with ⟨-, -, hdone, -⟩ | ⟨-, hbuffer⟩
      · rw [hpending] at hdone
        cases hdone
      · rw [hbuffer, h₁.pending hpending₁]
    · cases hdone₁ : c₁.session.handshake.isDone with
      | true =>
          -- S1 is where it was
          obtain ⟨-, hlong, hs1⟩ := h₁.done hdone₁
          refine ⟨hlen, by rw [List.length_append]; omega, ?_⟩
          have hkept : ((bytes ++ c.readOf action).drop 1).take 1536 = (bytes.drop 1).take 1536 := by
            rw [List.drop_append_of_le_length (by omega),
              List.take_append_of_le_length (by rw [List.length_drop]; omega)]
          rw [hhears.done hdone₁, hs1, hkept]
      | false =>
          rcases hhears.pending hdone₁ with ⟨-, hcomplete, -, hs1⟩ | ⟨hsame, -⟩
          · rw [h₁.pending hdone₁] at hcomplete hs1
            exact ⟨hlen, hcomplete.2.1, hs1⟩
          · rw [hsame, hdone₁] at hdone
            cases hdone

/-! ### Both directions -/

/-- Both directions of a client's connection: what it has read, and what it has sent. -/
structure Talks (hello : List UInt8) (trace : List (Moment EventClient ClientAction LoopOutput))
    (c : EventClient) : Prop where
  sound : c.Sound
  receiving : c.Receiving
  heard : c.Heard hello (Duplex.taken readOf trace)
  streams : ∃ encodings : List (List UInt8), sentEncodings 128 trace = encodings.map .ok ∧
    c.Streams encodings.flatten (serverBytes trace)

/-- The client that `connect` leaves behind. -/
theorem Talks.connect (policy : GrowthPolicy) (o : ConnectOutcome) :
    ((new policy).connect policy o).Talks ((new policy).connect policy o).handshakeData [] where
  sound := (Sound.new policy).connect o
  receiving := ((Idle.new policy).receiving policy o).1
  heard := by
    have hlength : ∀ random : ℕ → UInt8, ([3] ++ List.replicate 4 0 ++ List.replicate 4 0 ++
        (List.range 1528).map fun i => random (9 + i)).length = 1537 := by
      intro random
      simp only [List.length_append, List.length_replicate, List.length_map, List.length_range,
        List.length_singleton]
    obtain ⟨socket, setNonblocking, connect, add, random⟩ := o
    refine ⟨rfl, fun hinterest => ?_, fun _ => ?_, fun hdone => ?_⟩
    · cases socket <;> cases setNonblocking <;> cases connect <;> cases add <;>
        first | exact hlength random | exact absurd rfl hinterest
    · cases socket <;> cases setNonblocking <;> cases connect <;> cases add <;> rfl
    · cases socket <;> cases setNonblocking <;> cases connect <;> cases add <;>
        exact absurd hdone Bool.false_ne_true
  streams := ⟨[], rfl, .connect_new policy o⟩

/-- **One step.** -/
theorem Talks.step {trace : List (Moment EventClient ClientAction LoopOutput)}
    (h : c.Talks hello trace) (hconnect : ∀ o, action ≠ .connect o) (hwhole : c.WritesWhole action)
    (hcall : c.perform policy action = .ok (c', out)) :
    c'.Talks hello (trace ++ [⟨c, action, out⟩]) where
  sound := h.sound.run (Run.nil.snoc hcall)
  receiving := (h.receiving.perform h.sound hconnect hcall).2
  heard := by
    rw [Duplex.taken_snoc]
    exact h.heard.perform h.sound h.receiving hconnect hcall
  streams := by
    obtain ⟨encodings, hsent, hstreams⟩ := h.streams
    obtain ⟨more, hmore, hnext⟩ := hstreams.perform h.sound h.receiving hconnect hwhole hcall
    refine ⟨encodings ++ more, ?_, ?_⟩
    · rw [List.map_append, ← hsent, ← hmore]
      simp only [sentEncodings, Machine.inputs_snoc, List.filterMap_append]
      cases haction : action.encoding 128 with
      | none => rw [List.filterMap_cons_none haction, List.filterMap_nil, Option.toList_none]
      | some encoded => rw [List.filterMap_cons_some haction, List.filterMap_nil, Option.toList_some]
    · rw [serverBytes_snoc, List.flatten_append]
      exact hnext

/-- **Both directions, in every run** whose steps do not cut the handshake. -/
theorem Talks.run {o : ConnectOutcome} {trace : List (Moment EventClient ClientAction LoopOutput)}
    (hrun : Run (machine policy) ((new policy).connect policy o) trace c)
    (hconnect : ∀ m ∈ trace, ∀ o, m.input ≠ .connect o)
    (hwhole : ∀ m ∈ trace, m.state.WritesWhole m.input) :
    c.Talks ((new policy).connect policy o).handshakeData trace :=
  hrun.invariant (P := fun m => (∀ o, m.input ≠ .connect o) ∧ m.state.WritesWhole m.input)
    (fun m hm => ⟨hconnect m hm, hwhole m hm⟩) (.connect policy o)
    fun _ htalks hstep hcall => htalks.step hstep.1 hstep.2 hcall

variable {trace : List (Moment EventClient ClientAction LoopOutput)}

/-- As long as the handshake is pending, the server has at most C0 and C1. -/
theorem Talks.serverBytes_pending (h : c.Talks hello trace)
    (hpending : c.session.handshake.isDone = false) : serverBytes trace <+: hello := by
  obtain ⟨encodings, -, hstreams⟩ := h.streams
  have hinitial := hstreams.initial
  rwa [expected, h.heard.handshakeData, hpending, if_neg Bool.false_ne_true, List.append_nil]
    at hinitial

theorem flush_whole {n : ℕ} (hopen : c.socketOpen = true) (hsession : c.hasSession = true)
    (hn : c.queue.length ≤ n) :
    (c.flush (.ok n)).1.queue = [] ∧ c.wire (.flush (.ok n)) = c.queue := by
  have hreadable : c.takeOutgoing.session.writeBuffer.readable = [] :=
    readable_takeOutgoing (c.keepsStage_takeOutgoing.hasSession.trans hsession)
  have hwrite : c.takeOutgoing.writeBuffer = c.queue := by
    have hqueue := c.moves_takeOutgoing.queue
    rwa [acceptedBytes_nil, List.nil_append, queue, hreadable, List.append_nil] at hqueue
  have hempty : (c.flush (.ok n)).1.queue = [] := by
    unfold flush
    rw [hopen]
    simp only [Bool.not_true, Bool.false_eq_true, if_false]
    split
    · rename_i hnone
      rw [queue, List.isEmpty_iff.1 hnone, hreadable, List.append_nil]
    · rw [if_neg (by rw [hwrite]; omega)]
      exact hreadable
  refine ⟨hempty, ?_⟩
  have hqueue := (c.moves_flush (.ok n)).queue
  rw [hempty, List.append_nil] at hqueue
  rw [wire, wireOf_eq_acceptedBytes (c.directWrites_flush _), hqueue]

end EventClient

end Rtmp
