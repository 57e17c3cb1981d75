/-
**Header compression, as the protocol has it.**

The headers of a chunk stream leave out what the previous message already said.  This module says
what they stand for, without looking at the parser: which messages may follow one another on a chunk
stream, which chunks they are made of, and what a decoder that keeps to the protocol makes of them.

A message opened with format 0 has an absolute timestamp.  With format 1 and 2 it is later than the
previous message by the difference that the header carries, and with format 3 by the same difference
once more; length, type and stream id are those of the previous message where the format omits them.
All chunks but the first have format 3.  Where the latest header of format 0, 1 or 2 had an extended
field, headers of format 3 have one as well; what stands in it is left open here.

The last section singles out the streams that the parser of this repository gets right.  It remembers
something else than the protocol asks for, in two places: the header of format 2 does not change
whether an extended field is expected, and the difference is not added for a message that is opened
with format 3.

Main definitions:

* `Rtmp.WireMessage` — a message in chunks;
* `Rtmp.Reference` — what a decoder knows of a chunk stream, with `opened` and `next`;
* `Rtmp.WellFormed`, `Rtmp.wirePieces`, `Rtmp.decoded` — the lists of messages that may be sent, the
  chunks they are made of, and what is decoded from them;
* `Rtmp.Memory` — what the parser remembers otherwise;
* `Rtmp.WireMessage.Aligned`, `Rtmp.WireMessage.Stamped` — extended fields are where the parser
  expects them, and the timestamp is the one it arrives at;
* `Rtmp.Throughout` — a condition holds of every message of a list.

Main results:

* `Rtmp.read_eq_decoded_iff` — the timestamps the parser arrives at are right exactly if every
  message is `Stamped`.
-/

import RtmpTranscoder.ChunkEncode
import RtmpTranscoder.ChunkSegments
import RtmpTranscoder.ChunkSize

set_option relaxedAutoImplicit false
set_option autoImplicit false

namespace Rtmp

/-! ### Messages in chunks -/

/-- The extended field of a header of format 3, if it is one and has one. -/
def MessageHeader.field : MessageHeader → Option UInt32
  | .fmt3 ext => ext
  | _ => none

/-- A message on the wire: the header of its first chunk, the headers of the others, which are of
format 3, and the payload. -/
structure WireMessage where
  basic : BasicHeader
  opening : MessageHeader
  continuations : List (BasicHeader × Option UInt32)
  payload : List UInt8

/-- The chunks behind the first, with `n` bytes of the payload each. -/
def continuationPieces (n : ℕ) : List (BasicHeader × Option UInt32) → List UInt8 → List Piece
  | [], _ => []
  | (b, ext) :: headers, payload =>
      ⟨⟨b, .fmt3 ext⟩, payload.take n⟩ :: continuationPieces n headers (payload.drop n)

/-- The chunks of a message. -/
def WireMessage.pieces (m : WireMessage) (n : ℕ) : List Piece :=
  ⟨⟨m.basic, m.opening⟩, m.payload.take n⟩ ::
    continuationPieces n m.continuations (m.payload.drop n)

/-! ### The reference decoder -/

/-- What the previous message on a chunk stream says about timestamp differences: there is none, it
had an absolute timestamp, or the last difference is `d`. -/
inductive Previous where
  | nothing
  | absolute
  | difference (d : UInt32)

/-- What a decoder knows of a chunk stream: the chunk size, the previous message, and whether the
latest header of format 0, 1 or 2 had an extended field. -/
structure Reference where
  chunkSize : UInt32
  previous : Previous
  timestamp : UInt32
  length : UInt32
  typeId : UInt8
  streamId : UInt32
  extended : Bool

namespace Reference

/-- A chunk stream on which nothing has been sent. -/
def start (n : UInt32) : Reference := ⟨n, .nothing, 0, 0, 0, 0, false⟩

def lastDifference (r : Reference) : UInt32 :=
  match r.previous with
  | .difference d => d
  | _ => 0

/-- The header may open a message. -/
def Allows (r : Reference) : MessageHeader → Prop
  | .fmt0 .. => True
  | .fmt1 .. => r.previous ≠ .nothing
  | .fmt2 .. => r.previous ≠ .nothing
  | .fmt3 ext => (∃ d, r.previous = .difference d) ∧ ext.isSome = r.extended

/-- The message that the header opens. -/
def opened (r : Reference) : MessageHeader → Reference
  | .fmt0 stamp length typeId streamId =>
      { r with
        previous := .absolute, timestamp := stamp.value, length := length, typeId := typeId,
        streamId := streamId, extended := stamp.isExtended }
  | .fmt1 stamp length typeId =>
      { r with
        previous := .difference stamp.value, timestamp := r.timestamp + stamp.value,
        length := length, typeId := typeId, extended := stamp.isExtended }
  | .fmt2 stamp =>
      { r with
        previous := .difference stamp.value, timestamp := r.timestamp + stamp.value,
        extended := stamp.isExtended }
  | .fmt3 _ => { r with timestamp := r.timestamp + r.lastDifference }

/-- The chunk size behind a message with the payload `payload`. -/
def resized (r : Reference) (payload : List UInt8) : Reference :=
  { r with
    chunkSize := lastInRange r.chunkSize [⟨r.typeId, r.timestamp, r.streamId, payload⟩] }

/-- The chunk stream behind a message. -/
def next (r : Reference) (m : WireMessage) : Reference := (r.opened m.opening).resized m.payload

/-- The message as it is handed over. -/
def delivered (r : Reference) (c : UInt32) (payload : List UInt8) : Delivered :=
  ⟨c, r.timestamp, r.length, r.typeId, r.streamId, payload⟩

@[simp] theorem chunkSize_opened (r : Reference) (h : MessageHeader) :
    (r.opened h).chunkSize = r.chunkSize := by
  cases h <;> rfl

end Reference

/-- The message `m` may be sent on the chunk stream `c` next: with a payload of the length that is
announced or taken over, in as many chunks as that takes, and with extended fields in the headers of
format 3 exactly if the latest other header had one. -/
structure WireMessage.Follows (m : WireMessage) (c : UInt32) (r : Reference) : Prop where
  csid : m.basic.csid = c
  allowed : r.Allows m.opening
  length : m.payload.length = (r.opened m.opening).length.toNat
  chunks : m.continuations.length
    = chunksFor r.chunkSize.toNat (m.payload.length - r.chunkSize.toNat)
  continuations : ∀ q ∈ m.continuations,
    q.1.csid = c ∧ q.2.isSome = (r.opened m.opening).extended

/-- The messages may be sent on the chunk stream `c`, one after the other. -/
def WellFormed (c : UInt32) : Reference → List WireMessage → Prop
  | _, [] => True
  | r, m :: ms => m.Follows c r ∧ WellFormed c (r.next m) ms

/-- The chunks of a list of messages. -/
def wirePieces : Reference → List WireMessage → List Piece
  | _, [] => []
  | r, m :: ms => m.pieces r.chunkSize.toNat ++ wirePieces (r.next m) ms

/-- What a list of messages is decoded to. -/
def decoded (c : UInt32) : Reference → List WireMessage → List Delivered
  | _, [] => []
  | r, m :: ms => (r.next m).delivered c m.payload :: decoded c (r.next m) ms

/-! ### What the parser makes of it -/

/-- What the parser remembers otherwise: whether the latest header of format 0 or 1 had an extended
field, and by how much the timestamp it remembers is behind, which is what the differences of the
messages opened with format 3 add up to since the latest one opened with format 0. -/
structure Memory where
  extended : Bool
  lag : UInt32

namespace Memory

def start : Memory := ⟨false, 0⟩

/-- The memory behind a header that opens a message. -/
def opened (mem : Memory) (r : Reference) : MessageHeader → Memory
  | .fmt0 stamp _ _ _ => ⟨stamp.isExtended, 0⟩
  | .fmt1 stamp _ _ => ⟨stamp.isExtended, mem.lag⟩
  | .fmt2 _ => mem
  | .fmt3 _ => ⟨mem.extended, mem.lag + r.lastDifference⟩

end Memory

namespace WireMessage

variable (m : WireMessage) (r : Reference) (mem : Memory)

/-- The extended field in the last chunk, if that is of format 3 and has one. -/
def lastField : Option UInt32 :=
  match m.continuations.getLast? with
  | some q => q.2
  | none => m.opening.field

/-- Headers of format 3 have an extended field exactly if the parser expects one. -/
def Aligned : Prop :=
  m.opening.fmt = 3 ∨ m.continuations ≠ [] →
    (mem.opened r m.opening).extended = (r.opened m.opening).extended

/-- The extended field in the last chunk is the timestamp of the message; without such a field, the
timestamp the parser remembers is not behind. -/
def Stamped : Prop :=
  match m.lastField with
  | some v => v = (r.opened m.opening).timestamp
  | none => (mem.opened r m.opening).lag = 0

/-- The timestamp the parser arrives at. -/
def readStamp : UInt32 :=
  m.lastField.getD ((r.opened m.opening).timestamp - (mem.opened r m.opening).lag)

theorem stamped_iff : m.Stamped r mem ↔ m.readStamp r mem = (r.opened m.opening).timestamp := by
  unfold Stamped readStamp
  cases m.lastField with
  | none => rw [Option.getD_none, sub_eq_self]
  | some v => exact Iff.rfl

end WireMessage

/-- A condition holds of every message of a list, at its place. -/
def Throughout (P : WireMessage → Reference → Memory → Prop) :
    Reference → Memory → List WireMessage → Prop
  | _, _, [] => True
  | r, mem, m :: ms => P m r mem ∧ Throughout P (r.next m) (mem.opened r m.opening) ms

/-- What the parser hands over. -/
def read (c : UInt32) : Reference → Memory → List WireMessage → List Delivered
  | _, _, [] => []
  | r, mem, m :: ms =>
      { (r.next m).delivered c m.payload with timestamp := m.readStamp r mem } ::
        read c (r.next m) (mem.opened r m.opening) ms

/-- **The timestamps the parser arrives at are right exactly if every message is `Stamped`.** -/
theorem read_eq_decoded_iff (c : UInt32) (r : Reference) (mem : Memory) (ms : List WireMessage) :
    read c r mem ms = decoded c r ms ↔ Throughout WireMessage.Stamped r mem ms := by
  induction ms generalizing r mem with
  | nil => exact ⟨fun _ => trivial, fun _ => rfl⟩
  | cons m ms ih =>
      rw [read, decoded, List.cons.injEq, ih, Throughout, m.stamped_iff]
      refine and_congr_left fun _ => ?_
      constructor
      · intro h
        exact congrArg Delivered.timestamp h
      · intro h
        rw [h]
        rfl

end Rtmp
