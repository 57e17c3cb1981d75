/-
**The client in the event loop.**

`Client.lean` models what a `Client` does with a read.  This module adds the rest of
`src/rtmp/rtmp_client.cpp`: the registration of the socket in the `EpollLoop`, the callback that is
registered there, and the queue of outgoing bytes, which are in the session's buffer first and in
`write_buffer_` once a writer has taken them out of it.

The loop calls back only for a descriptor that is registered; a client that has cleaned up is no
longer called.  `epoll_ctl` fails exactly if there is nothing registered to modify.  What the socket
answers is part of the input of every call; a socket that is closed answers with an error.

Main definitions:

* `Rtmp.EventClient` — the client, with `connect`, `disconnect`, `sendMessage`, `sendCommand`,
  `flush`, `handleWritable`, `handleReadable` and `onEvents`;
* `Rtmp.ClientAction`, `Rtmp.LoopOutput` — what is asked of a client, and what it does;
* `Rtmp.EventClient.perform` — a client as a machine.

Main results:

* `Rtmp.Client.handleReadable_spec` — what a read leaves alone, and when it ends the connection;
* `Rtmp.EventClient.perform_send` — sending is queueing the chunks;
* `Rtmp.EventClient.onEvents_branches` — **the callback, branch by branch**;
* `Rtmp.EventClient.Sound.run` — what holds of a client at any time;
* `Rtmp.EventClient.Sound.perform_of_single` — **a client can be asked anything at any time**, as long as
  its events select one branch.
-/

import RtmpTranscoder.Client
import RtmpTranscoder.Machine

set_option relaxedAutoImplicit false
set_option autoImplicit false

namespace Rtmp

/-- The events a descriptor is registered for. -/
structure Interest where
  epollIn : Bool
  epollOut : Bool
  deriving DecidableEq, Repr

/-- The events that `epoll_wait` reports of a descriptor. -/
structure EpollEvents where
  epollIn : Bool
  epollOut : Bool
  epollErr : Bool
  epollHup : Bool
  deriving DecidableEq, Repr

/-- What the system answers to the calls of `Client::connect`. -/
structure ConnectOutcome where
  socket : Bool
  setNonblocking : Bool
  connect : Bool
  add : Bool
  random : ℕ → UInt8

/-- What the socket answers while events are handled: to the write of an `EPOLLOUT`, and to the calls
of `handle_readable`. -/
structure SocketOutcome where
  written : Except Failure ℕ
  readiness : Readiness

/-- `Client`, whole.  `hasSession` says that `session_` is not null, `handshakeData` is what the
registered callback has captured, and `interest` is the registration of the socket. -/
structure EventClient extends Client where
  hasSession : Bool
  writeBuffer : List UInt8
  handshakeData : List UInt8
  interest : Option Interest

/-- What a client does in the loop: bytes of the queue are accepted by the socket, or one of the
events of the receive path. -/
inductive LoopOutput where
  | accepted (data : List UInt8)
  | did (event : ClientEvent)

/-- What is asked of a client.  Its destruction is a `disconnect`. -/
inductive ClientAction where
  | connect (outcome : ConnectOutcome)
  | disconnect
  | sendMessage (msg : Message)
  | sendCommand (cmd : CommandMessage) (chunkStreamId : UInt32)
  | flush (written : Except Failure ℕ)
  | events (mask : EpollEvents) (outcome : SocketOutcome)

namespace EventClient

/-- `Client::Client`. -/
def new (policy : GrowthPolicy) : EventClient where
  socketOpen := false
  session := Session.new policy
  connected := false
  connecting := false
  readBuffer := []
  hasSession := false
  writeBuffer := []
  handshakeData := []
  interest := none

/-- `EpollLoop::modify`, on the descriptor of the socket. -/
def modify (c : EventClient) (events : Interest) : EventClient :=
  { c with interest := c.interest.map fun _ => events }

/-- `Client::cleanup`. -/
def cleanup (c : EventClient) : EventClient × List LoopOutput :=
  ({ c with
      toClient := c.toClient.cleanup.1
      interest := if c.socketOpen then none else c.interest },
    c.toClient.cleanup.2.map .did)

/-- `Client::connect`.  The old socket is closed when the new one is assigned, and is not registered
any more. -/
def connect (c : EventClient) (policy : GrowthPolicy) (o : ConnectOutcome) : EventClient :=
  let c := { c with socketOpen := o.socket, interest := none }
  if !(o.socket && o.setNonblocking) then c
  else
    let c := { c with session := Session.new policy, hasSession := true, connecting := true }
    if !o.connect then c
    else
      let (handshake, handshakeData) := c.session.handshake.generateC0C1 o.random
      let c := { c with session := { c.session with handshake := handshake } }
      let c := { c with session := c.session.getOutgoingData.1 }
      if !o.add then c
      else { c with handshakeData := handshakeData, interest := some ⟨true, true⟩ }

/-- `Client::disconnect`. -/
def disconnect (c : EventClient) : EventClient × List LoopOutput :=
  if c.socketOpen then c.cleanup else (c, [])

/-- The second half of `send_message` and of `send_command`: what is queued is to be written. -/
def requestWrite (c : EventClient) : EventClient :=
  if c.socketOpen && (c.session.hasOutgoingData || !c.writeBuffer.isEmpty) then
    c.modify ⟨true, true⟩
  else c

/-- `Client::send_message`. -/
def sendMessage (c : EventClient) (msg : Message) : Except Failure EventClient :=
  if c.hasSession then do
    let session ← c.session.sendMessage msg
    return { c with session := session }.requestWrite
  else .ok c

/-- `Client::send_command`. -/
def sendCommand (c : EventClient) (cmd : CommandMessage) (chunkStreamId : UInt32) :
    Except Failure EventClient :=
  if c.hasSession then do
    let session ← c.session.sendCommand cmd chunkStreamId
    return { c with session := session }.requestWrite
  else .ok c

/-- The session's outgoing data is moved into the write buffer. -/
def takeOutgoing (c : EventClient) : EventClient :=
  if c.hasSession && c.session.hasOutgoingData then
    let (session, data) := c.session.getOutgoingData
    { c with session := session, writeBuffer := c.writeBuffer ++ data }
  else c

/-- `Client::flush`. -/
def flush (c : EventClient) (written : Except Failure ℕ) : EventClient × List LoopOutput :=
  if !c.socketOpen then (c, [])
  else
    let c := c.takeOutgoing
    if c.writeBuffer.isEmpty then (c, [])
    else
      match written with
      | .error _ => (c, [])
      | .ok n =>
          if n < c.writeBuffer.length then
            ({ c with writeBuffer := c.writeBuffer.drop n }.modify ⟨true, true⟩,
              [.accepted (c.writeBuffer.take n)])
          else ({ c with writeBuffer := [] }, [.accepted c.writeBuffer])

/-- `Client::handle_writable`. -/
def handleWritable (c : EventClient) (written : Except Failure ℕ) :
    EventClient × List LoopOutput :=
  let c := c.takeOutgoing
  if c.writeBuffer.isEmpty then (c.modify ⟨true, false⟩, [])
  else
    match written with
    | .error _ => c.cleanup
    | .ok n =>
        if n < c.writeBuffer.length then
          ({ c with writeBuffer := c.writeBuffer.drop n }, [.accepted (c.writeBuffer.take n)])
        else
          ({ c with writeBuffer := [] }.modify ⟨true, false⟩, [.accepted c.writeBuffer])

/-- `Client::handle_readable`.  The socket may have been closed by the write before it. -/
def handleReadable (c : EventClient) (r : Readiness) :
    Except Failure (EventClient × List LoopOutput) :=
  let r := if c.socketOpen then r else { r with read := .error (.err "Bad file descriptor") }
  match c.toClient.handleReadable r with
  | .error f => .error f
  | .ok (client, events) =>
      .ok ({ c with
          toClient := client
          interest := if c.socketOpen && !client.socketOpen then none else c.interest },
        events.map .did)

/-- The branch of the callback for `EPOLLOUT`. -/
def onWritable (c : EventClient) (written : Except Failure ℕ) : EventClient × List LoopOutput :=
  if c.connecting then
    match written with
    | .ok n =>
        if n = c.handshakeData.length then
          ({ c with connecting := false }.modify ⟨true, false⟩, [.did (.write c.handshakeData)])
        else (c, [.did (.write c.handshakeData)])
    | .error _ => (c, [.did (.write c.handshakeData)])
  else c.handleWritable written

/-- The callback that `Client::connect` registers.  `cleanup` takes it out of the loop, which destroys it
while it runs: a branch behind that one would use the `this` it has captured. -/
def onEvents (c : EventClient) (mask : EpollEvents) (o : SocketOutcome) :
    Except Failure (EventClient × List LoopOutput) :=
  let hangUp := mask.epollErr || mask.epollHup
  let r₁ := if mask.epollOut then c.onWritable o.written else (c, [])
  if r₁.1.interest.isNone && (mask.epollIn || hangUp) then .error .useAfterFree
  else
    match if mask.epollIn then r₁.1.handleReadable o.readiness else .ok (r₁.1, []) with
    | .error f => .error f
    | .ok r₂ =>
        if r₂.1.interest.isNone && hangUp then .error .useAfterFree
        else
          let r₃ := if hangUp then r₂.1.cleanup else (r₂.1, [])
          .ok (r₃.1, r₁.2 ++ r₂.2 ++ r₃.2)

/-- A client as a machine.  The loop calls back only what is registered. -/
def perform (policy : GrowthPolicy) (c : EventClient) :
    ClientAction → Except Failure (EventClient × List LoopOutput)
  | .connect o => .ok (c.connect policy o, [])
  | .disconnect => .ok c.disconnect
  | .sendMessage msg => (c.sendMessage msg).map fun c => (c, [])
  | .sendCommand cmd csid => (c.sendCommand cmd csid).map fun c => (c, [])
  | .flush written => .ok (c.flush written)
  | .events mask o => if c.interest.isSome then c.onEvents mask o else .ok (c, [])

/-- The session's outgoing data grows. -/
def enqueue (c : EventClient) (data : List UInt8) : EventClient :=
  { c with session := { c.session with writeBuffer := c.session.writeBuffer.append data } }

/-- The bytes that are waiting to be written. -/
def queue (c : EventClient) : List UInt8 := c.writeBuffer ++ c.session.writeBuffer.readable

end EventClient

/-- The chunks that an action puts into the queue, if it sends anything. -/
def ClientAction.encoding (chunkSize : UInt32) :
    ClientAction → Option (Except Failure (List UInt8))
  | .sendMessage msg => some (encodeChunk (Session.messageHeader msg) msg.payload chunkSize)
  | .sendCommand cmd csid =>
      some (encodeChunk (Session.commandHeader cmd.encode csid) cmd.encode chunkSize)
  | _ => none

/-- An event selects one branch of the callback. -/
def ClientAction.Single : ClientAction → Prop
  | .events mask _ => ¬ (mask.epollOut ∧ (mask.epollIn ∨ mask.epollErr ∨ mask.epollHup)) ∧
      ¬ (mask.epollIn ∧ (mask.epollErr ∨ mask.epollHup))
  | _ => True

/-- The number of calls of the disconnected callback. -/
def disconnects (out : List LoopOutput) : ℕ :=
  out.countP fun
    | .did .disconnectedCallback => true
    | _ => false

/-- The bytes of the queue that the socket has accepted. -/
def acceptedBytes (out : List LoopOutput) : List UInt8 :=
  out.flatMap fun
    | .accepted data => data
    | .did _ => []

@[simp] theorem disconnects_nil : disconnects [] = 0 := rfl

@[simp] theorem disconnects_append (l₁ l₂ : List LoopOutput) :
    disconnects (l₁ ++ l₂) = disconnects l₁ + disconnects l₂ := List.countP_append ..

@[simp] theorem acceptedBytes_nil : acceptedBytes [] = [] := rfl

@[simp] theorem acceptedBytes_append (l₁ l₂ : List LoopOutput) :
    acceptedBytes (l₁ ++ l₂) = acceptedBytes l₁ ++ acceptedBytes l₂ := List.flatMap_append ..

@[simp] theorem acceptedBytes_did (events : List ClientEvent) :
    acceptedBytes (events.map .did) = [] := by
  simp [acceptedBytes, List.flatMap_map]

/-! ### Reads -/

namespace Session

theorem processInput_outgoing (s : Session) (data : List UInt8) :
    (s.processInput data).1.writeBuffer = s.writeBuffer ∧
      (s.processInput data).1.outChunkSize = s.outChunkSize := by
  by_cases hdone : s.handshake.isDone = true
  · rw [processInput_eq hdone, foldl_handle]
    exact ⟨rfl, rfl⟩
  · simp only [processInput, hdone, Bool.not_false, if_true, and_self]

end Session

namespace Client

/-- The read is the last of its connection: it fails, the peer has closed, or the answer to the
handshake that it completes cannot be written. -/
def ReadEnds (c : Client) (r : Readiness) : Prop :=
  match r.read with
  | .error _ => True
  | .ok data =>
      data = [] ∨ c.connected = false ∧
        c.session.handshake.ServerComplete (c.readBuffer ++ data) ∧ ∃ f, r.written = .error f

/-- What a client keeps when it handles a read. -/
structure KeepsOutgoing (c c' : Client) : Prop where
  writeBuffer : c'.session.writeBuffer = c.session.writeBuffer
  outChunkSize : c'.session.outChunkSize = c.session.outChunkSize

/-- A client that has cleaned up. -/
structure Ended (c : Client) : Prop where
  socketOpen : c.socketOpen = false
  connected : c.connected = false
  connecting : c.connecting = false

theorem processBufferedData_spec (c : Client) :
    c.KeepsOutgoing c.processBufferedData.1 ∧
      c.processBufferedData.1.socketOpen = c.socketOpen ∧
      c.processBufferedData.1.connecting = c.connecting ∧
      disconnects (c.processBufferedData.2.map .did) = 0 := by
  unfold processBufferedData
  split
  · exact ⟨⟨rfl, rfl⟩, rfl, rfl, rfl⟩
  · have hkeeps := c.session.processInput_outgoing c.readBuffer
    refine ⟨⟨hkeeps.1, hkeeps.2⟩, rfl, rfl, ?_⟩
    simp [disconnects, List.countP_map, List.countP_eq_zero]

theorem connected_processBufferedData (c : Client) :
    c.processBufferedData.1.connected = c.connected := by
  unfold processBufferedData
  split <;> rfl

theorem handleHandshake_spec (c : Client) (written : Except Failure ℕ) :
    ∃ c' events, c.handleHandshake written = .ok (c', events) ∧ c.KeepsOutgoing c' ∧
      (((c.session.handshake.ServerComplete c.readBuffer ∧ ∃ f, written = .error f) ∧
          c'.Ended ∧ disconnects (events.map .did) = 1) ∨
        (¬ (c.session.handshake.ServerComplete c.readBuffer ∧ ∃ f, written = .error f) ∧
          c'.socketOpen = c.socketOpen ∧ c'.connecting = c.connecting ∧
          disconnects (events.map .did) = 0)) := by
  rcases c.session.handshake.processServerHandshake_cases c.readBuffer with
    ⟨hcomplete, hok⟩ | ⟨hnot, text, herr⟩
  · have hs1 : bytesAt ((c.readBuffer.drop 1).take 1536) 0 1536
        = .ok (((c.readBuffer.drop 1).take 1536).take 1536) := by
      have hlen := hcomplete.2.1
      rw [Handshake.s0s1s2Size] at hlen
      refine bytesAt_of_le ?_
      rw [List.length_take, List.length_drop]
      omega
    simp only [handleHandshake, hok, Handshake.generateC2, hs1]
    cases written with
    | error f => exact ⟨_, _, rfl, ⟨rfl, rfl⟩, .inl ⟨⟨hcomplete, f, rfl⟩, ⟨rfl, rfl, rfl⟩, rfl⟩⟩
    | ok n =>
        -- what is left in the buffer is handled like a read of its own, if there is anything
        refine ⟨_, _, rfl, ?_⟩
        split
        · exact ⟨⟨rfl, rfl⟩, .inr ⟨by simp, rfl, rfl, rfl⟩⟩
        · obtain ⟨hkeeps, hopen, hconnecting, hcalls⟩ := processBufferedData_spec
            { c with
              session := { c.session with
                handshake := { c.session.handshake with
                  s1Data := (c.readBuffer.drop 1).take 1536, state := .done } }
              readBuffer := c.readBuffer.drop Handshake.s0s1s2Size
              connected := true }
          refine ⟨⟨hkeeps.1, hkeeps.2⟩, .inr ⟨by simp, hopen, hconnecting, ?_⟩⟩
          simpa [disconnects] using hcalls
  · simp only [handleHandshake, herr]
    exact ⟨_, _, rfl, ⟨rfl, rfl⟩, .inr ⟨fun h => hnot h.1, rfl, rfl, rfl⟩⟩

/-- **A read leaves what is to be sent alone, and either ends the connection, with one call of the
disconnected callback, or leaves it standing.** -/
theorem handleReadable_spec (c : Client) (r : Readiness) :
    ∃ c' events, c.handleReadable r = .ok (c', events) ∧ c.KeepsOutgoing c' ∧
      ((c.ReadEnds r ∧ c'.Ended ∧ disconnects (events.map .did) = 1) ∨
        (¬ c.ReadEnds r ∧ c'.socketOpen = c.socketOpen ∧ c'.connecting = c.connecting ∧
          disconnects (events.map .did) = 0)) := by
  unfold handleReadable ReadEnds
  cases hread : r.read with
  | error f => exact ⟨_, _, rfl, ⟨rfl, rfl⟩, .inl ⟨trivial, ⟨rfl, rfl, rfl⟩, rfl⟩⟩
  | ok data =>
      simp only
      by_cases hdata : data = []
      · subst hdata
        exact ⟨_, _, rfl, ⟨rfl, rfl⟩, .inl ⟨.inl rfl, ⟨rfl, rfl, rfl⟩, rfl⟩⟩
      rw [if_neg (by simpa using hdata)]
      by_cases hconnected : c.connected = true
      · obtain ⟨hkeeps, hopen, hconnecting, hcalls⟩ :=
          processBufferedData_spec { c with readBuffer := c.readBuffer ++ data }
        refine ⟨_, _, by rw [hconnected]; rfl, ⟨hkeeps.1, hkeeps.2⟩, .inr ⟨?_, hopen, hconnecting,
          hcalls⟩⟩
        simp [hdata, hconnected]
      · rw [Bool.not_eq_true] at hconnected
        obtain ⟨c', events, hcall, hkeeps, hends⟩ :=
          handleHandshake_spec { c with readBuffer := c.readBuffer ++ data } r.written
        refine ⟨c', events, ?_, ⟨hkeeps.1, hkeeps.2⟩, ?_⟩
        · rw [if_pos (by rw [hconnected]; rfl)]
          exact hcall
        simpa only [hdata, hconnected, false_or, true_and] using hends

end Client

/-! ### What holds at any time -/

namespace EventClient

/-- What holds of a client at any time. -/
structure Sound (c : EventClient) : Prop where
  plain : c.session.writeBuffer.Plain
  outChunkSize : c.session.outChunkSize = 128
  registered : c.interest ≠ none → c.socketOpen = true ∧ c.hasSession = true

variable {c c' : EventClient} {policy : GrowthPolicy}

theorem Sound.new (policy : GrowthPolicy) : (EventClient.new policy).Sound where
  plain := Buffer.Plain.new policy
  outChunkSize := rfl
  registered h := absurd rfl h

theorem Sound.modify (h : c.Sound) (events : Interest) : (c.modify events).Sound where
  plain := h.plain
  outChunkSize := h.outChunkSize
  registered hi := h.registered fun hnone => hi (by simp [EventClient.modify, hnone])

theorem Sound.cleanup (h : c.Sound) : c.cleanup.1.Sound where
  plain := h.plain
  outChunkSize := h.outChunkSize
  registered hi := by
    by_cases hopen : c.socketOpen = true
    · simp [EventClient.cleanup, hopen] at hi
    · simp only [EventClient.cleanup, hopen, Bool.false_eq_true, if_false] at hi
      exact absurd (h.registered hi).1 hopen

theorem Sound.connect (h : c.Sound) (o : ConnectOutcome) : (c.connect policy o).Sound := by
  unfold EventClient.connect
  split
  · exact ⟨h.plain, h.outChunkSize, fun hi => absurd rfl hi⟩
  · rename_i hsocket
    have hopen : o.socket = true := by
      rw [Bool.not_eq_true', Bool.not_eq_false, Bool.and_eq_true] at hsocket
      exact hsocket.1
    dsimp only
    split
    · exact ⟨Buffer.Plain.new policy, rfl, fun hi => absurd rfl hi⟩
    · split
      · exact ⟨Buffer.plain_clear _, rfl, fun hi => absurd rfl hi⟩
      · exact ⟨Buffer.plain_clear _, rfl, fun _ => ⟨hopen, rfl⟩⟩

theorem Sound.requestWrite (h : c.Sound) : c.requestWrite.Sound := by
  unfold EventClient.requestWrite
  split
  · exact h.modify _
  · exact h

theorem Sound.enqueue (h : c.Sound) (data : List UInt8) : (c.enqueue data).Sound where
  plain := h.plain.append data
  outChunkSize := h.outChunkSize
  registered := h.registered

theorem Sound.takeOutgoing (h : c.Sound) : c.takeOutgoing.Sound := by
  unfold EventClient.takeOutgoing
  split
  · exact ⟨Buffer.plain_clear _, h.outChunkSize, h.registered⟩
  · exact h

/-- What is in the write buffer has nothing to do with it. -/
theorem Sound.setWriteBuffer (h : c.Sound) (data : List UInt8) :
    Sound { c with writeBuffer := data } :=
  ⟨h.plain, h.outChunkSize, h.registered⟩

theorem Sound.flush (h : c.Sound) (written : Except Failure ℕ) : (c.flush written).1.Sound := by
  unfold EventClient.flush
  split
  · exact h
  · dsimp only
    split
    · exact h.takeOutgoing
    · split
      · exact h.takeOutgoing
      · split
        · exact (h.takeOutgoing.setWriteBuffer _).modify _
        · exact h.takeOutgoing.setWriteBuffer _

theorem Sound.handleWritable (h : c.Sound) (written : Except Failure ℕ) :
    (c.handleWritable written).1.Sound := by
  unfold EventClient.handleWritable
  dsimp only
  split
  · exact h.takeOutgoing.modify _
  · split
    · exact h.takeOutgoing.cleanup
    · split
      · exact h.takeOutgoing.setWriteBuffer _
      · exact (h.takeOutgoing.setWriteBuffer _).modify _

theorem Sound.onWritable (h : c.Sound) (written : Except Failure ℕ) :
    (c.onWritable written).1.Sound := by
  unfold EventClient.onWritable
  split
  · split
    · split
      · have hwritten : Sound { c with connecting := false } :=
          ⟨h.plain, h.outChunkSize, h.registered⟩
        exact hwritten.modify _
      · exact h
    · exact h
  · exact h.handleWritable written

/-- The read is the last of its connection, or there is nothing to read from. -/
def ReadEnds (c : EventClient) (r : Readiness) : Prop :=
  c.socketOpen = false ∨ c.toClient.ReadEnds r

/-- What a client keeps when it handles a read. -/
structure KeepsOutgoing (c c' : EventClient) : Prop where
  session : c.toClient.KeepsOutgoing c'.toClient
  writeBuffer : c'.writeBuffer = c.writeBuffer
  hasSession : c'.hasSession = c.hasSession

/-- A client that has cleaned up. -/
structure Ended (c : EventClient) : Prop where
  client : c.toClient.Ended
  interest : c.interest = none

theorem Sound.cleanup_ended (h : c.Sound) : c.cleanup.1.Ended where
  client := ⟨rfl, rfl, rfl⟩
  interest := by
    by_contra hi
    have hopen := (h.cleanup.registered hi).1
    exact Bool.false_ne_true hopen

/-- **A read, in the loop.** -/
theorem Sound.handleReadable (h : c.Sound) (r : Readiness) :
    ∃ c' out, c.handleReadable r = .ok (c', out) ∧ c'.Sound ∧ c.KeepsOutgoing c' ∧
      acceptedBytes out = [] ∧
      ((c.ReadEnds r ∧ c'.Ended ∧ disconnects out = 1) ∨
        (¬ c.ReadEnds r ∧ c'.socketOpen = c.socketOpen ∧ c'.connecting = c.connecting ∧
          c'.interest = c.interest ∧ disconnects out = 0)) := by
  by_cases hopen : c.socketOpen = true
  · obtain ⟨client, events, hcall, hkeeps, hends⟩ := c.toClient.handleReadable_spec r
    simp only [EventClient.handleReadable, hopen, if_true, hcall, Bool.true_and]
    refine ⟨_, _, rfl, ?_, ⟨hkeeps, rfl, rfl⟩, acceptedBytes_did events, ?_⟩
    · refine ⟨by rw [hkeeps.writeBuffer]; exact h.plain,
        by rw [hkeeps.outChunkSize]; exact h.outChunkSize, fun hi => ?_⟩
      cases hclient : client.socketOpen with
      | false => simp [hclient] at hi
      | true =>
          simp only [hclient, Bool.not_true, Bool.false_eq_true, if_false] at hi
          exact ⟨rfl, (h.registered hi).2⟩
    · rcases hends with ⟨hends, hended, hcalls⟩ | ⟨hends, hsame, hconnecting, hcalls⟩
      · refine .inl ⟨.inr hends, ⟨hended, ?_⟩, hcalls⟩
        simp only [hended.socketOpen, Bool.not_false, if_true]
      · have hnot : ¬ c.ReadEnds r := by
          rintro (hclosed | hread)
          · exact Bool.false_ne_true (hclosed.symm.trans hopen)
          · exact hends hread
        refine .inr ⟨hnot, hsame.trans hopen, hconnecting, ?_, hcalls⟩
        simp only [hsame, hopen, Bool.not_true, Bool.false_eq_true, if_false]
  · rw [Bool.not_eq_true] at hopen
    have hinterest : c.interest = none := by
      by_contra hi
      exact Bool.false_ne_true (hopen.symm.trans (h.registered hi).1)
    simp only [EventClient.handleReadable, hopen, Bool.false_eq_true, if_false, Client.handleReadable]
    refine ⟨_, _, rfl, ⟨h.plain, h.outChunkSize, fun hi => absurd hinterest hi⟩,
      ⟨⟨rfl, rfl⟩, rfl, rfl⟩, rfl, .inl ⟨.inl hopen, ⟨⟨rfl, rfl, rfl⟩, hinterest⟩, rfl⟩⟩

/-- **The callback, branch by branch.** -/
theorem onEvents_branches {mask : EpollEvents} {o : SocketOutcome} {out : List LoopOutput}
    (hcall : c.onEvents mask o = .ok (c', out)) :
    let r₁ := if mask.epollOut then c.onWritable o.written else (c, [])
    ∃ c₂ out₂, (if mask.epollIn then r₁.1.handleReadable o.readiness else .ok (r₁.1, []))
        = .ok (c₂, out₂) ∧
      let r₃ := if mask.epollErr || mask.epollHup then c₂.cleanup else (c₂, [])
      c' = r₃.1 ∧ out = r₁.2 ++ out₂ ++ r₃.2 := by
  intro r₁
  have hr₁ : (if mask.epollOut then c.onWritable o.written else (c, [])) = r₁ := rfl
  clear_value r₁
  simp only [EventClient.onEvents, hr₁] at hcall
  split at hcall
  · cases hcall
  · cases hread : (if mask.epollIn then r₁.1.handleReadable o.readiness else .ok (r₁.1, [])) with
    | error f =>
        rw [hread] at hcall
        cases hcall
    | ok r₂ =>
        rw [hread] at hcall
        dsimp only at hcall
        split at hcall
        · cases hcall
        · obtain ⟨rfl, rfl⟩ := Prod.mk.inj (Except.ok.inj hcall)
          exact ⟨r₂.1, r₂.2, rfl, rfl, rfl⟩

theorem Sound.onEvents (h : c.Sound) {mask : EpollEvents} {o : SocketOutcome} {out : List LoopOutput}
    (hcall : c.onEvents mask o = .ok (c', out)) :
    let r₁ := if mask.epollOut then c.onWritable o.written else (c, [])
    r₁.1.Sound ∧ ∃ c₂ out₂, c₂.Sound ∧
      (if mask.epollIn then r₁.1.handleReadable o.readiness else .ok (r₁.1, []))
        = .ok (c₂, out₂) ∧
      let r₃ := if mask.epollErr || mask.epollHup then c₂.cleanup else (c₂, [])
      r₃.1.Sound ∧ c' = r₃.1 ∧ out = r₁.2 ++ out₂ ++ r₃.2 := by
  obtain ⟨c₂, out₂, hread, hfinal⟩ := onEvents_branches hcall
  intro r₁
  have h₁ : r₁.1.Sound := by
    simp only [r₁]
    split
    · exact h.onWritable _
    · exact h
  have h₂ : c₂.Sound := by
    cases hin : mask.epollIn with
    | true =>
        rw [hin, if_pos rfl] at hread
        obtain ⟨c₃, out₃, hcall₃, h₃, -⟩ := h₁.handleReadable o.readiness
        obtain ⟨rfl, -⟩ := Prod.mk.inj (Except.ok.inj (hread.symm.trans hcall₃))
        exact h₃
    | false =>
        rw [hin, if_neg Bool.false_ne_true] at hread
        obtain ⟨rfl, -⟩ := Prod.mk.inj (Except.ok.inj hread)
        exact h₁
  refine ⟨h₁, c₂, out₂, h₂, hread, ?_, hfinal⟩
  split
  · exact h₂.cleanup
  · exact h₂

/-- What `disconnect` does: the connection is cleaned up, if there is one. -/
theorem perform_disconnect {out : List LoopOutput}
    (hcall : c.perform policy .disconnect = .ok (c', out)) :
    (c' = c.cleanup.1 ∧ out = c.cleanup.2) ∨ (c' = c ∧ out = []) := by
  simp only [EventClient.perform, EventClient.disconnect] at hcall
  split at hcall
  · obtain ⟨rfl, rfl⟩ := Prod.mk.inj (Except.ok.inj hcall)
    exact .inl ⟨rfl, rfl⟩
  · obtain ⟨rfl, rfl⟩ := Prod.mk.inj (Except.ok.inj hcall)
    exact .inr ⟨rfl, rfl⟩

/-- What an event does: the callback is invoked, if it is registered. -/
theorem perform_events {mask : EpollEvents} {o : SocketOutcome} {out : List LoopOutput}
    (hcall : c.perform policy (.events mask o) = .ok (c', out)) :
    (c.interest.isSome = true ∧ c.onEvents mask o = .ok (c', out)) ∨
      (c.interest.isSome = false ∧ c' = c ∧ out = []) := by
  simp only [EventClient.perform] at hcall
  split at hcall
  · rename_i hsome
    exact .inl ⟨hsome, hcall⟩
  · rename_i hnone
    obtain ⟨rfl, rfl⟩ := Prod.mk.inj (Except.ok.inj hcall)
    exact .inr ⟨Bool.not_eq_true _ ▸ hnone, rfl, rfl⟩

theorem perform_read {written : Except Failure ℕ} {r : Readiness} {out : List LoopOutput}
    (hinterest : c.interest.isSome = true) (hread : c.handleReadable r = .ok (c', out)) :
    c.perform policy (.events ⟨true, false, false, false⟩ ⟨written, r⟩) = .ok (c', out) := by
  have hnone : c.interest.isNone = false := by rw [← Option.not_isSome, hinterest]; rfl
  simp only [EventClient.perform, hinterest, hnone, if_true, EventClient.onEvents, hread,
    Bool.false_eq_true, if_false, Bool.or_self, Bool.false_and, Bool.and_false, List.append_nil,
    List.nil_append]

theorem perform_write (policy : GrowthPolicy) {written : Except Failure ℕ} {r : Readiness}
    (hinterest : c.interest.isSome = true) :
    c.perform policy (.events ⟨false, true, false, false⟩ ⟨written, r⟩) = .ok (c.onWritable written) := by
  simp only [EventClient.perform, hinterest, if_true, EventClient.onEvents, Bool.false_eq_true,
    if_false, Bool.or_self, Bool.and_false, List.append_nil]

/-- **Sending is queueing the chunks**, and a request to write them. -/
theorem perform_send {action : ClientAction} {encoded : Except Failure (List UInt8)}
    (haction : action.encoding c.session.outChunkSize = some encoded) :
    c.perform policy action =
      if c.hasSession then encoded.map fun bytes => ((c.enqueue bytes).requestWrite, [])
      else .ok (c, []) := by
  cases action with
  | sendMessage msg =>
      obtain rfl := Option.some.inj haction
      simp only [EventClient.perform, EventClient.sendMessage, Session.sendMessage]
      split
      · cases encodeChunk (Session.messageHeader msg) msg.payload c.session.outChunkSize <;> rfl
      · rfl
  | sendCommand cmd csid =>
      obtain rfl := Option.some.inj haction
      simp only [EventClient.perform, EventClient.sendCommand, Session.sendCommand]
      split
      · cases encodeChunk (Session.commandHeader cmd.encode csid) cmd.encode
          c.session.outChunkSize <;> rfl
      · rfl
  | _ => cases haction

theorem outputs_of_send {action : ClientAction} {encoded : Except Failure (List UInt8)}
    (haction : action.encoding c.session.outChunkSize = some encoded) {out : List LoopOutput}
    (hcall : c.perform policy action = .ok (c', out)) : out = [] := by
  rw [perform_send haction] at hcall
  split at hcall
  · cases encoded with
    | error f => cases hcall
    | ok bytes => exact (Prod.mk.inj (Except.ok.inj hcall)).2.symm
  · exact (Prod.mk.inj (Except.ok.inj hcall)).2.symm

theorem Sound.exists_encoding (h : c.Sound) {action : ClientAction}
    {encoded : Except Failure (List UInt8)}
    (haction : action.encoding c.session.outChunkSize = some encoded) :
    ∃ bytes, encoded = .ok bytes := by
  have hsize : 1 ≤ c.session.outChunkSize.toNat := by rw [h.outChunkSize]; decide
  cases action with
  | sendMessage msg =>
      obtain rfl := Option.some.inj haction
      exact exists_encodeChunk _ _ hsize
  | sendCommand cmd csid =>
      obtain rfl := Option.some.inj haction
      exact exists_encodeChunk _ _ hsize
  | _ => cases haction

theorem Sound.perform_send (h : c.Sound) (policy : GrowthPolicy) {action : ClientAction}
    {encoded : Except Failure (List UInt8)}
    (haction : action.encoding c.session.outChunkSize = some encoded) :
    ∃ c' out, c.perform policy action = .ok (c', out) ∧ c'.Sound := by
  obtain ⟨bytes, rfl⟩ := h.exists_encoding haction
  rw [EventClient.perform_send haction]
  split
  · exact ⟨_, _, rfl, (h.enqueue bytes).requestWrite⟩
  · exact ⟨_, _, rfl, h⟩

theorem Sound.onEvents_of_single (h : c.Sound) (hinterest : c.interest.isSome = true)
    {mask : EpollEvents} {o : SocketOutcome} (hsingle : (ClientAction.events mask o).Single) :
    ∃ c' out, c.onEvents mask o = .ok (c', out) := by
  obtain ⟨hwrite, hread⟩ := hsingle
  have hnone : c.interest.isNone = false := by rw [← Option.not_isSome, hinterest]; rfl
  have hhang : (mask.epollErr || mask.epollHup) = true ↔ mask.epollErr ∨ mask.epollHup :=
    Bool.or_eq_true_iff
  simp only [EventClient.onEvents]
  generalize (mask.epollErr || mask.epollHup) = hangUp at hhang ⊢
  rw [← hhang] at hwrite hread
  by_cases hout : mask.epollOut = true
  · have hin : mask.epollIn = false := Bool.eq_false_iff.2 fun hin => hwrite ⟨hout, .inl hin⟩
    have hup : hangUp = false := Bool.eq_false_iff.2 fun hup => hwrite ⟨hout, .inr hup⟩
    simp only [hin, hup, Bool.or_false, Bool.and_false, Bool.false_eq_true, if_false]
    exact ⟨_, _, rfl⟩
  · rw [if_neg hout]
    simp only [hnone, Bool.false_and, Bool.false_eq_true, if_false]
    by_cases hin : mask.epollIn = true
    · obtain ⟨c₂, out₂, hcall, -⟩ := h.handleReadable o.readiness
      have hup : hangUp = false := Bool.eq_false_iff.2 fun hup => hread ⟨hin, hup⟩
      simp [hin, hup, hcall]
    · simp only [hin, Bool.false_eq_true, if_false, hnone, Bool.false_and]
      exact ⟨_, _, rfl⟩

/-- **A client can be asked anything at any time**, as long as its events select one branch, and stays
sound. -/
theorem Sound.perform_of_single (h : c.Sound) (policy : GrowthPolicy) {action : ClientAction}
    (hsingle : action.Single) : ∃ c' out, c.perform policy action = .ok (c', out) := by
  cases action with
  | connect o => exact ⟨_, _, rfl⟩
  | disconnect => exact ⟨_, _, rfl⟩
  | sendMessage msg =>
      have hsends : ClientAction.encoding c.session.outChunkSize (.sendMessage msg) = some _ := rfl
      obtain ⟨c', out, hcall, -⟩ := h.perform_send policy hsends
      exact ⟨c', out, hcall⟩
  | sendCommand cmd csid =>
      have hsends : ClientAction.encoding c.session.outChunkSize (.sendCommand cmd csid) = some _ := rfl
      obtain ⟨c', out, hcall, -⟩ := h.perform_send policy hsends
      exact ⟨c', out, hcall⟩
  | flush written => exact ⟨_, _, rfl⟩
  | events mask o =>
      simp only [EventClient.perform]
      split
      · rename_i hinterest
        exact h.onEvents_of_single hinterest hsingle
      · exact ⟨_, _, rfl⟩

/-- **A client stays sound**, whatever it is asked. -/
theorem Sound.perform (h : c.Sound) {action : ClientAction} {out : List LoopOutput}
    (hcall : c.perform policy action = .ok (c', out)) : c'.Sound := by
  have hsend {encoded : Except Failure (List UInt8)}
      (haction : action.encoding c.session.outChunkSize = some encoded) : c'.Sound := by
    obtain ⟨c'', out', hcall', hsound⟩ := h.perform_send policy haction
    obtain ⟨rfl, rfl⟩ := Prod.mk.inj (Except.ok.inj (hcall.symm.trans hcall'))
    exact hsound
  cases action with
  | connect o =>
      obtain ⟨rfl, -⟩ := Prod.mk.inj (Except.ok.inj hcall)
      exact h.connect o
  | disconnect =>
      obtain ⟨rfl, -⟩ | ⟨rfl, -⟩ := perform_disconnect hcall
      · exact h.cleanup
      · exact h
  | sendMessage msg => exact hsend rfl
  | sendCommand cmd csid => exact hsend rfl
  | flush written =>
      obtain ⟨rfl, -⟩ := Prod.mk.inj (Except.ok.inj hcall)
      exact h.flush written
  | events mask o =>
      obtain ⟨-, hcall⟩ | ⟨-, rfl, -⟩ := perform_events hcall
      · obtain ⟨-, c₂, out₂, -, -, h₃, rfl, -⟩ := h.onEvents hcall
        exact h₃
      · exact h

/-- `Client` as a machine. -/
abbrev machine (policy : GrowthPolicy) : Machine.Step EventClient ClientAction LoopOutput :=
  Machine.ofFun (EventClient.perform policy)

/-- **What holds of a client at any time.** -/
theorem Sound.run {trace : List (Machine.Moment EventClient ClientAction LoopOutput)} (h : c.Sound)
    (hrun : Machine.Run (machine policy) c trace c') : c'.Sound :=
  hrun.invariant (I := fun _ c => c.Sound) (fun _ _ => trivial) h
    fun _ hsound _ hstep => hsound.perform hstep

/-- Every list of actions whose events select one branch has a run. -/
theorem Sound.exists_run (h : c.Sound) (policy : GrowthPolicy) {actions : List ClientAction}
    (hsingle : ∀ action ∈ actions, action.Single) :
    ∃ trace c', Machine.Run (machine policy) c trace c' ∧ Machine.inputs trace = actions := by
  obtain ⟨trace, c', hrun, hinputs, -⟩ := Machine.exists_run (f := EventClient.perform policy)
    (I := Sound) (P := ClientAction.Single) (fun {c action} hsound hs => by
      obtain ⟨c', out, hcall⟩ := Sound.perform_of_single hsound policy hs
      exact ⟨c', out, hcall, Sound.perform hsound hcall⟩) hsingle h
  exact ⟨trace, c', hrun, hinputs⟩

end EventClient

end Rtmp
