/-
**Sessions.**

`src/rtmp/rtmp_session.cpp` puts the chunk parser and the chunk encoder together: input goes to the
parser and comes out as messages, which are handed to the message callback; messages to be sent are
encoded and put into the outgoing buffer.  A `SetChunkSize` is interpreted twice, by the parser, as
soon as it is complete, and by the session, once the whole read has been parsed.

The callback is modelled by the list of the messages it is called with.  Sending fails in the model
when `encode_chunk` does not end, which is the case of a chunk size of 0.  The close callback and the
application and stream names, which no function here reads, are left out.

Main definitions:

* `Rtmp.Session` — with `processInput`, `sendMessage`, `sendSetChunkSize`, `sendWindowAckSize`,
  `sendSetPeerBandwidth`, `sendCommand`, `hasOutgoingData` and `getOutgoingData`;
* `Rtmp.Session.established` — a fresh session behind a handshake;
* `Rtmp.Session.processAll` — a list of reads.

Main results:

* `Rtmp.Session.foldl_handle` — what the session does with the messages of a read: the last
  announced chunk size is in force;
* `Rtmp.Session.processInput_eq` — **a read is given to the parser, then the messages are handled**.
-/

import RtmpTranscoder.Buffer
import RtmpTranscoder.Handshake
import RtmpTranscoder.ChunkEncode
import RtmpTranscoder.ChunkSize
import RtmpTranscoder.Commands

set_option relaxedAutoImplicit false
set_option autoImplicit false

namespace Rtmp

open Incremental

/-- `Session`. -/
structure Session where
  handshake : Handshake
  parser : ChunkParser
  writeBuffer : Buffer
  outChunkSize : UInt32

namespace Session

/-- `Session::Session`. -/
def new (policy : GrowthPolicy) : Session where
  handshake := {}
  parser := ChunkParser.new 128
  writeBuffer := Buffer.new policy
  outChunkSize := 128

/-- A fresh session whose handshake, which `handshake()` gives access to, has been carried out. -/
def established (policy : GrowthPolicy) (handshake : Handshake) : Session :=
  { new policy with handshake := handshake }

/-! ### Input -/

/-- What the loop of `Session::process_input` does with a message before it calls the callback. -/
def handle (s : Session) (msg : Message) : Session :=
  if msg.typeId = MessageType.setChunkSize.code then
    match SetChunkSizeMessage.parse msg.payload with
    | some parsed => { s with parser := s.parser.setChunkSize parsed.chunkSize }
    | none => s
  else s

/-- `Session::process_input`: the session afterwards, the messages the callback is called with, and
the result. -/
def processInput (s : Session) (data : List UInt8) :
    Session × List Message × Except Failure ℕ :=
  if !s.handshake.isDone then (s, [], .error (.err "Handshake not complete"))
  else
    match s.parser.parse data with
    | (parser, consumed, .ok chunks) =>
        let messages := chunks.map Chunk.message
        (messages.foldl handle { s with parser := parser }, messages, .ok consumed)
    | (parser, _, .error f) => ({ s with parser := parser }, [], .error f)

/-- A list of calls of `process_input` whose results nobody looks at. -/
def processAll (s : Session) : List (List UInt8) → Session × List Message
  | [] => (s, [])
  | data :: reads =>
      let r := s.processInput data
      let rest := processAll r.1 reads
      (rest.1, r.2.1 ++ rest.2)

/-! ### Output -/

/-- The header that `Session::send_message` makes of a message. -/
def messageHeader (msg : Message) : ChunkHeader where
  fmt := 0
  chunkStreamId :=
    if msg.typeId = MessageType.audio.code ∨ msg.typeId = MessageType.video.code ∨
        msg.typeId = MessageType.dataAMF0.code then
      if msg.typeId = MessageType.audio.code then 4
      else if msg.typeId = MessageType.video.code then 6
      else 5
    else 2
  timestamp := msg.timestamp
  messageLength := UInt32.ofNat msg.payload.length
  messageTypeId := msg.typeId
  messageStreamId := msg.streamId
  hasExtendedTimestamp := false

/-- `Session::send_message`. -/
def sendMessage (s : Session) (msg : Message) : Except Failure Session := do
  let chunkData ← encodeChunk (messageHeader msg) msg.payload s.outChunkSize
  return { s with writeBuffer := s.writeBuffer.append chunkData }

/-- `Session::send_set_chunk_size`. -/
def sendSetChunkSize (s : Session) (size : UInt32) : Except Failure Session := do
  let s ← s.sendMessage
    { typeId := MessageType.setChunkSize.code, timestamp := 0, streamId := 0,
      payload := SetChunkSizeMessage.encode ⟨size⟩ }
  return { s with outChunkSize := size }

/-- `Session::send_window_ack_size`. -/
def sendWindowAckSize (s : Session) (size : UInt32) : Except Failure Session :=
  s.sendMessage
    { typeId := MessageType.windowAckSize.code, timestamp := 0, streamId := 0,
      payload := WindowAckSizeMessage.encode ⟨size⟩ }

/-- `Session::send_set_peer_bandwidth`. -/
def sendSetPeerBandwidth (s : Session) (size : UInt32) (limitType : UInt8) :
    Except Failure Session :=
  s.sendMessage
    { typeId := MessageType.setPeerBandwidth.code, timestamp := 0, streamId := 0,
      payload := SetPeerBandwidthMessage.encode ⟨size, limitType⟩ }

/-- The header that `Session::send_command` makes of the payload of a command. -/
def commandHeader (payload : List UInt8) (chunkStreamId : UInt32) : ChunkHeader where
  fmt := 0
  chunkStreamId := chunkStreamId
  timestamp := 0
  messageLength := UInt32.ofNat payload.length
  messageTypeId := MessageType.commandAMF0.code
  messageStreamId := 0
  hasExtendedTimestamp := false

/-- `Session::send_command`. -/
def sendCommand (s : Session) (cmd : CommandMessage) (chunkStreamId : UInt32) :
    Except Failure Session := do
  let chunkData ← encodeChunk (commandHeader cmd.encode chunkStreamId) cmd.encode s.outChunkSize
  return { s with writeBuffer := s.writeBuffer.append chunkData }

/-- `Session::get_outgoing_data`. -/
def getOutgoingData (s : Session) : Session × List UInt8 :=
  ({ s with writeBuffer := s.writeBuffer.clear }, s.writeBuffer.readable)

/-- `Session::has_outgoing_data`. -/
def hasOutgoingData (s : Session) : Bool := !s.writeBuffer.empty

/-- `Session::generate_server_handshake_response`. -/
def generateServerHandshakeResponse (s : Session) (random : ℕ → UInt8) (c1 : List UInt8) :
    Session × Except Failure (List UInt8) :=
  let (handshake, response) := s.handshake.generateS0S1S2 random c1
  ({ s with handshake := handshake }, response)

end Session

namespace Session

/-- The chunk stream ids of `send_message` are small. -/
theorem messageHeader_chunkStreamId (msg : Message) :
    2 ≤ (messageHeader msg).chunkStreamId.toNat ∧
      (messageHeader msg).chunkStreamId.toNat ≤ 65599 := by
  simp only [messageHeader]
  split_ifs <;> decide

end Session

/-! ### What a read does -/

namespace Session

variable {s : Session}

theorem handle_eq (s : Session) (msg : Message) :
    s.handle msg =
      { s with parser := s.parser.setChunkSize ((announced msg).getD s.parser.chunkSize) } := by
  unfold handle announced
  split
  · cases SetChunkSizeMessage.parse msg.payload <;> rfl
  · rfl

/-- The messages of a read leave the session with the last chunk size that one of them
announces. -/
theorem foldl_handle (s : Session) (messages : List Message) :
    messages.foldl handle s =
      { s with
        parser := s.parser.setChunkSize
          ((messages.filterMap announced).getLastD s.parser.chunkSize) } := by
  induction messages generalizing s with
  | nil => rfl
  | cons msg messages ih =>
      rw [List.foldl_cons, ih, handle_eq]
      cases hmsg : announced msg with
      | none =>
          rw [List.filterMap_cons_none hmsg]
          rfl
      | some size =>
          rw [List.filterMap_cons_some hmsg, List.getLastD_cons]
          rfl

/-- **A read is given to the parser, then the messages are handled.** -/
theorem processInput_eq (hdone : s.handshake.isDone = true) (data : List UInt8) :
    let r := chunkDecoder.feed (s.parser.toParserCore, s.parser.buffer) data
    let messages := r.2.map Chunk.message
    s.processInput data =
      (messages.foldl handle { s with parser := { r.1.1 with buffer := r.1.2 } }, messages,
        .ok ((s.parser.buffer ++ data).length - r.1.2.length - s.parser.buffer.length)) := by
  simp only [processInput, hdone, Bool.not_true, Bool.false_eq_true, if_false, s.parser.parse_eq]

theorem handshake_processInput (hdone : s.handshake.isDone = true) (data : List UInt8) :
    (s.processInput data).1.handshake = s.handshake := by
  rw [processInput_eq hdone, foldl_handle]

/-- What a read leaves in the parser's buffer is the end of what was there and of the read. -/
theorem buffer_processInput (hdone : s.handshake.isDone = true) (data : List UInt8) :
    ∃ bytes, s.parser.buffer ++ data = bytes ++ (s.processInput data).1.parser.buffer ∧
      (s.processInput data).2.2 = .ok (bytes.length - s.parser.buffer.length) := by
  obtain ⟨bytes, hbytes, -, -⟩ :=
    chunkDecoder.drain_spec s.parser.toParserCore (s.parser.buffer ++ data)
  refine ⟨bytes, ?_, ?_⟩
  · rw [processInput_eq hdone, foldl_handle]
    exact hbytes
  · have hlen := congrArg List.length hbytes
    rw [@List.length_append _ bytes] at hlen
    rw [processInput_eq hdone, Decoder.feed]
    simp only [hlen, Nat.add_sub_cancel]

@[simp] theorem processAll_nil (s : Session) : s.processAll [] = (s, []) := rfl

theorem processAll_cons (s : Session) (data : List UInt8) (reads : List (List UInt8)) :
    s.processAll (data :: reads) =
      (((s.processInput data).1.processAll reads).1,
        (s.processInput data).2.1 ++ ((s.processInput data).1.processAll reads).2) := rfl

theorem processAll_append (s : Session) (r₁ r₂ : List (List UInt8)) :
    s.processAll (r₁ ++ r₂) =
      (((s.processAll r₁).1.processAll r₂).1,
        (s.processAll r₁).2 ++ ((s.processAll r₁).1.processAll r₂).2) := by
  induction r₁ generalizing s with
  | nil => rfl
  | cons data r₁ ih => simp only [List.cons_append, processAll_cons, ih, List.append_assoc]

theorem handshake_processAll (hdone : s.handshake.isDone = true) (reads : List (List UInt8)) :
    (s.processAll reads).1.handshake = s.handshake := by
  induction reads generalizing s with
  | nil => rfl
  | cons data reads ih =>
      have hfirst := handshake_processInput hdone data
      rw [processAll_cons, ih (by rw [hfirst]; exact hdone), hfirst]

end Session

end Rtmp
