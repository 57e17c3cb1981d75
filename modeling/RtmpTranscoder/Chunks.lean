/-
**The RTMP chunk parser.**

`src/rtmp/rtmp_chunks.cpp` reassembles messages from a stream of chunks.  A chunk is a header in
one of four formats followed by a piece of a message; the formats leave out what the previous
header on the same chunk stream already said, so the parser keeps a `StreamState` for each chunk
stream id.  This module translates `ChunkParser` function by function.  It proves nothing: what
the parser does is worked out from `RtmpTranscoder/ChunkWire.lean` on.

Two remarks on the translation:

* `streams_` is a `std::map` that is only ever read through `operator[]`, which creates a missing
  entry as `StreamState{}`; it is a total function whose absent entries are that value;
* every loop iteration ends by assigning `last_good_offset`, or leaves the loop with both offsets
  unchanged; the two are nevertheless kept apart, as in the source.

Main definitions:

* `Rtmp.ChunkHeader`, `Rtmp.Chunk`, `Rtmp.StreamState`, `Rtmp.ChunkParser` — the data;
* `Rtmp.parseHeader` — `ChunkParser::parse_header`;
* `Rtmp.parseIteration`, `Rtmp.parseLoop`, `Rtmp.ChunkParser.parse` — the body of the loop of
  `ChunkParser::parse`, the loop, and the function.
-/

import RtmpTranscoder.Messages

set_option relaxedAutoImplicit false
set_option autoImplicit false

namespace Rtmp

/-! ### Data -/

/-- `ChunkHeader`; the defaults are those of its constructor. -/
structure ChunkHeader where
  fmt : UInt8 := 0
  chunkStreamId : UInt32 := 0
  timestamp : UInt32 := 0
  messageLength : UInt32 := 0
  messageTypeId : UInt8 := 0
  messageStreamId : UInt32 := 0
  hasExtendedTimestamp : Bool := false
  deriving DecidableEq, Repr

/-- `Chunk`: a complete message under the header of its last chunk. -/
structure Chunk where
  header : ChunkHeader
  payload : List UInt8
  deriving DecidableEq, Repr

/-- `ChunkParser::StreamState`. -/
structure StreamState where
  prevHeader : ChunkHeader := {}
  partialMessage : List UInt8 := []
  bytesReceived : UInt32 := 0
  deriving DecidableEq, Repr

/-- `streams_`. -/
abbrev Streams := UInt32 → StreamState

/-- The part of a `ChunkParser` that decoding a chunk reads and writes. -/
structure ParserCore where
  chunkSize : UInt32
  streams : Streams

/-- `ChunkParser`. -/
structure ChunkParser extends ParserCore where
  buffer : List UInt8

/-- `ChunkParser::ChunkParser`. -/
def ChunkParser.new (chunkSize : UInt32) : ChunkParser where
  chunkSize := chunkSize
  streams := fun _ => {}
  buffer := []

/-- `ChunkParser::set_chunk_size`. -/
def ChunkParser.setChunkSize (p : ChunkParser) (size : UInt32) : ChunkParser :=
  { p with chunkSize := size }

/-! ### Headers -/

/-- `read_u24_be(data.data() + i)`. -/
def u24At (data : List UInt8) (i : ℕ) : Except Failure UInt32 := do
  let a ← byteAt data i
  let b ← byteAt data (i + 1)
  let c ← byteAt data (i + 2)
  return Bytes.readU24Be a b c

/-- `read_u32_be(data.data() + i)`. -/
def u32At (data : List UInt8) (i : ℕ) : Except Failure UInt32 := do
  let a ← byteAt data i
  let b ← byteAt data (i + 1)
  let c ← byteAt data (i + 2)
  let d ← byteAt data (i + 3)
  return Bytes.readU32Be a b c d

/-- `read_u32_le(data.data() + i)`. -/
def u32LeAt (data : List UInt8) (i : ℕ) : Except Failure UInt32 := do
  let a ← byteAt data i
  let b ← byteAt data (i + 1)
  let c ← byteAt data (i + 2)
  let d ← byteAt data (i + 3)
  return Bytes.readU32Le a b c d

/-- The chunk stream id and the offset behind it, from the low six bits of the first byte. -/
def parseChunkStreamId (data : List UInt8) (low : UInt32) : Except Failure (UInt32 × ℕ) := do
  if low = 0 then
    if data.length < 2 then
      throw (.err "Not enough data for csid")
    let b ← byteAt data 1
    return (64 + b.toUInt32, 2)
  else if low = 1 then
    if data.length < 3 then
      throw (.err "Not enough data for csid")
    let b ← byteAt data 1
    let c ← byteAt data 2
    return (64 + b.toUInt32 + c.toUInt32 * 256, 3)
  else
    return (low, 1)

/-- The block that formats 0, 1 and 2 share: a 24-bit field of all ones announces a 32-bit field
at `offset`, which replaces it.  Returns the value, whether it was extended, and the offset behind
it. -/
def parseExtendedTimestamp (data : List UInt8) (offset : ℕ) (field : UInt32) :
    Except Failure (UInt32 × Bool × ℕ) := do
  if field = 0xFFFFFF then
    if data.length < offset + 4 then
      throw (.err "Not enough data for extended timestamp")
    let value ← u32At data offset
    return (value, true, offset + 4)
  else
    return (field, false, offset)

/-- The branch of `parse_header` for format 0: the header carries everything. -/
def parseFmt0 (data : List UInt8) (offset : ℕ) (header : ChunkHeader) (state : StreamState) :
    Except Failure (ChunkHeader × ℕ × StreamState) := do
  if data.length < offset + 11 then
    throw (.err "Not enough data for fmt 0")
  let field ← u24At data offset
  let messageLength ← u24At data (offset + 3)
  let messageTypeId ← byteAt data (offset + 6)
  let messageStreamId ← u32LeAt data (offset + 7)
  let (timestamp, ext, offset) ← parseExtendedTimestamp data (offset + 11) field
  let header := { header with
    timestamp := timestamp, messageLength := messageLength, messageTypeId := messageTypeId,
    messageStreamId := messageStreamId, hasExtendedTimestamp := ext }
  return (header, offset, { state with prevHeader := header })

/-- The branch of `parse_header` for format 1: the stream id is the previous one, and the
timestamp is given by its difference from the previous one. -/
def parseFmt1 (data : List UInt8) (offset : ℕ) (header : ChunkHeader) (state : StreamState) :
    Except Failure (ChunkHeader × ℕ × StreamState) := do
  if data.length < offset + 7 then
    throw (.err "Not enough data for fmt 1")
  let field ← u24At data offset
  let messageLength ← u24At data (offset + 3)
  let messageTypeId ← byteAt data (offset + 6)
  let (timestampDelta, ext, offset) ← parseExtendedTimestamp data (offset + 7) field
  let header := { header with
    timestamp := state.prevHeader.timestamp + timestampDelta, messageLength := messageLength,
    messageTypeId := messageTypeId, messageStreamId := state.prevHeader.messageStreamId,
    hasExtendedTimestamp := ext }
  return (header, offset, { state with prevHeader := header })

/-- The branch of `parse_header` for format 2: only the timestamp difference is carried, and only
the timestamp of the previous header is replaced. -/
def parseFmt2 (data : List UInt8) (offset : ℕ) (header : ChunkHeader) (state : StreamState) :
    Except Failure (ChunkHeader × ℕ × StreamState) := do
  if data.length < offset + 3 then
    throw (.err "Not enough data for fmt 2")
  let field ← u24At data offset
  let (timestampDelta, ext, offset) ← parseExtendedTimestamp data (offset + 3) field
  let header := { header with
    timestamp := state.prevHeader.timestamp + timestampDelta,
    messageLength := state.prevHeader.messageLength,
    messageTypeId := state.prevHeader.messageTypeId,
    messageStreamId := state.prevHeader.messageStreamId, hasExtendedTimestamp := ext }
  return (header, offset,
    { state with prevHeader := { state.prevHeader with timestamp := header.timestamp } })

/-- The branch of `parse_header` for format 3: the previous header again, except that the
extended field, where the previous header had one, is read afresh and taken for the timestamp. -/
def parseFmt3 (data : List UInt8) (offset : ℕ) (state : StreamState) :
    Except Failure (ChunkHeader × ℕ × StreamState) := do
  let header := state.prevHeader
  if header.hasExtendedTimestamp then
    if data.length < offset + 4 then
      throw (.err "Not enough data for extended timestamp")
    let timestamp ← u32At data offset
    return ({ header with timestamp := timestamp }, offset + 4, state)
  else
    return (header, offset, state)

/-- The four branches of `parse_header`, behind the chunk stream id. -/
def parseMessageHeader (fmt : UInt8) (data : List UInt8) (offset : ℕ) (chunkStreamId : UInt32)
    (state : StreamState) : Except Failure (ChunkHeader × ℕ × StreamState) :=
  let header : ChunkHeader := { fmt := fmt, chunkStreamId := chunkStreamId }
  if fmt = 0 then parseFmt0 data offset header state
  else if fmt = 1 then parseFmt1 data offset header state
  else if fmt = 2 then parseFmt2 data offset header state
  else parseFmt3 data offset state

/-- `ChunkParser::parse_header`: the header at the front of `data`, its size, and `streams_`
afterwards.  The parameter `csid` of the source is not used there. -/
def parseHeader (streams : Streams) (data : List UInt8) :
    Except Failure (ChunkHeader × ℕ × Streams) := do
  if data.isEmpty then
    throw (.err "Empty data")
  let firstByte ← byteAt data 0
  let fmt := (firstByte >>> 6) &&& 0x03
  let (chunkStreamId, offset) ← parseChunkStreamId data (firstByte &&& 0x3F).toUInt32
  let (header, headerSize, state) ←
    parseMessageHeader fmt data offset chunkStreamId (streams chunkStreamId)
  return (header, headerSize, Function.update streams chunkStreamId state)

/-! ### The parse loop -/

/-- `MAX_CHUNK_SIZE`. -/
def maxChunkSize : UInt32 := 16 * 1024 * 1024

/-- The effect of a complete message on `chunk_size_`: a `SetChunkSize` whose value is neither 0
nor too large is applied at once. -/
def receiveChunk (chunkSize : UInt32) (chunk : Chunk) : UInt32 :=
  if chunk.header.messageTypeId = MessageType.setChunkSize.code then
    match SetChunkSizeMessage.parse chunk.payload with
    | none => chunkSize
    | some msg =>
        if msg.chunkSize = 0 then chunkSize
        else if msg.chunkSize ≤ maxChunkSize then msg.chunkSize
        else chunkSize
  else chunkSize

/-- A stream about to receive a payload: between messages the collected bytes are dropped. -/
def StreamState.prepare (state : StreamState) : StreamState :=
  if state.bytesReceived = 0 then { state with partialMessage := [] } else state

/-- `bytes_to_read`, with the subtraction modulo `2 ^ 32` of the source. -/
def bytesToRead (chunkSize : UInt32) (header : ChunkHeader) (state : StreamState) : UInt32 :=
  min chunkSize (header.messageLength - state.bytesReceived)

/-- The payload of a chunk is collected; a message that is complete is handed over, and its stream
starts afresh. -/
def collect (core : ParserCore) (header : ChunkHeader) (state : StreamState)
    (bytes : List UInt8) (n : UInt32) : ParserCore × List Chunk :=
  let state := { state with
    partialMessage := state.partialMessage ++ bytes, bytesReceived := state.bytesReceived + n }
  if header.messageLength ≤ state.bytesReceived then
    let chunk : Chunk := { header := header, payload := state.partialMessage }
    let state := { state with bytesReceived := 0, partialMessage := [] }
    ({ chunkSize := receiveChunk core.chunkSize chunk,
       streams := Function.update core.streams header.chunkStreamId state }, [chunk])
  else
    ({ core with streams := Function.update core.streams header.chunkStreamId state }, [])

/-- The variables of the loop of `ChunkParser::parse`. -/
structure ParseLoop where
  parser : ChunkParser
  offset : ℕ
  lastGoodOffset : ℕ
  chunks : List Chunk

/-- How one iteration of the loop ends: it goes on, it breaks, or the function returns an
error. -/
inductive ParseIteration where
  | next (l : ParseLoop)
  | stop (l : ParseLoop)
  | fail (p : ChunkParser) (f : Failure)

/-- `is_incomplete`: the text of the error contains one of two phrases. -/
def isIncomplete (text : String) : Bool :=
  "Not enough data".toList <:+: text.toList || "Empty data".toList <:+: text.toList

/-- The body of the loop of `ChunkParser::parse`. -/
def parseIteration (combined : List UInt8) (l : ParseLoop) : ParseIteration :=
  match parseHeader l.parser.streams (combined.drop l.offset) with
  | .error (.err text) =>
      if !isIncomplete text && l.chunks.isEmpty && l.offset == 0 && l.parser.buffer.isEmpty then
        .fail { l.parser with buffer := [] } (.err text)
      else .stop l
  | .error f => .fail l.parser f
  | .ok (header, headerSize, streams) =>
      let state := (streams header.chunkStreamId).prepare
      let core : ParserCore :=
        { chunkSize := l.parser.chunkSize,
          streams := Function.update streams header.chunkStreamId state }
      let n := bytesToRead core.chunkSize header state
      if combined.length < l.offset + headerSize + n.toNat then
        .stop { l with parser := { core with buffer := l.parser.buffer } }
      else
        match bytesAt combined (l.offset + headerSize) n.toNat with
        | .error f => .fail { core with buffer := l.parser.buffer } f
        | .ok bytes =>
            let r := collect core header state bytes n
            let offset := l.offset + headerSize + n.toNat
            .next
              { parser := { r.1 with buffer := l.parser.buffer }, offset := offset,
                lastGoodOffset := offset, chunks := l.chunks ++ r.2 }

/-- The loop of `ChunkParser::parse`, for at most `fuel` iterations. -/
def parseLoop (combined : List UInt8) : ℕ → ParseLoop → Except (ChunkParser × Failure) ParseLoop
  | 0, l => if l.offset < combined.length then .error (l.parser, .outOfFuel) else .ok l
  | fuel + 1, l =>
      if l.offset < combined.length then
        match parseIteration combined l with
        | .next l' => parseLoop combined fuel l'
        | .stop l' => .ok l'
        | .fail p f => .error (p, f)
      else .ok l

/-- `ChunkParser::parse`: the parser afterwards, `consumed`, and the result. -/
def ChunkParser.parse (p : ChunkParser) (data : List UInt8) :
    ChunkParser × ℕ × Except Failure (List Chunk) :=
  let combined := p.buffer ++ data
  match parseLoop combined combined.length ⟨p, 0, 0, []⟩ with
  | .error (p', f) => (p', 0, .error f)
  | .ok l =>
      let consumed :=
        if p.buffer.length ≤ l.lastGoodOffset then l.lastGoodOffset - p.buffer.length else 0
      let buffer :=
        if l.lastGoodOffset < combined.length then combined.drop l.lastGoodOffset else []
      ({ l.parser with buffer := buffer }, consumed, .ok l.chunks)

end Rtmp
