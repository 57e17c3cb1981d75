/-
**Encoding a message, and decoding it again.**

`encode_chunk` cuts a message into chunks: the first has format 0, the others format 3 and no
message header.  The parser undoes it, with one exception.  Behind a format 0 header with an
extended timestamp the parser expects the extended field in every format 3 header of the message as
well, and `encode_chunk` does not write it there.  So a message is decoded as it was encoded exactly
if its timestamp is not extended or it is a single chunk.

That it is decoded wrongly otherwise follows from counting: with four bytes more in one of its
headers, the message would need more bytes than were encoded, however the parser reads them.

Main definitions:

* `Rtmp.encodeBasicHeader`, `Rtmp.encodeMessageHeader`, `Rtmp.encodeLoop`, `Rtmp.encodeChunk` —
  `encode_chunk`, piece by piece;
* `Rtmp.headerOf` — the header under which an encoded message is handed over;
* `Rtmp.chunksFor` — the number of chunks of a message;
* `Rtmp.RoundTrips` — a fresh parser decodes exactly what was encoded.

Main results:

* `Rtmp.encodeChunk_run` — **what is encoded is decoded**, by any parser that is between messages
  on the chunk stream and has the chunk size of the encoder;
* `Rtmp.exists_firstChunk` — what the first chunk of a message does to such a parser;
* `Rtmp.WholeChunks.cost`, `Rtmp.WholeChunks.cost_extended` — what a message costs in bytes;
* `Rtmp.encodeChunk_roundTrips_iff` — **the round trip succeeds exactly if the timestamp is not
  extended or the message is one chunk**;
* `Rtmp.Continuing.lost` — what is lost when too few bytes are left for a message that has begun;
* `Rtmp.encodeChunk_extended_lost` — a message that is lost.
-/

import RtmpTranscoder.ChunkInvariants

set_option relaxedAutoImplicit false
set_option autoImplicit false

namespace Rtmp

open Incremental

/-! ### The encoder -/

/-- The basic header `encode_chunk` writes. -/
def encodeBasicHeader (fmt : UInt8) (csid : UInt32) : List UInt8 :=
  let firstByte := fmt <<< 6
  if csid < 64 then [firstByte ||| csid.toUInt8]
  else if csid < 320 then [firstByte, (csid - 64).toUInt8]
  else
    let csidOffset := csid - 64
    [firstByte ||| 1, (csidOffset &&& 0xFF).toUInt8, ((csidOffset >>> 8) &&& 0xFF).toUInt8]

/-- The message header `encode_chunk` writes in the first chunk. -/
def encodeMessageHeader (header : ChunkHeader) : List UInt8 :=
  let timestamp := if header.timestamp < 0xFFFFFF then header.timestamp else 0xFFFFFF
  Bytes.writeU24Be timestamp ++ Bytes.writeU24Be header.messageLength ++ [header.messageTypeId] ++
    Bytes.writeU32Le header.messageStreamId ++
    if 0xFFFFFF ≤ header.timestamp then Bytes.writeU32Be header.timestamp else []

/-- The loop of `encode_chunk`, for at most `fuel` iterations. -/
def encodeLoop (header : ChunkHeader) (payload : List UInt8) (chunkSize : UInt32) :
    ℕ → (payloadOffset : ℕ) → (firstChunk : Bool) → (output : List UInt8) →
      Except Failure (List UInt8)
  | 0, payloadOffset, _, output =>
      if payloadOffset < payload.length then .error .outOfFuel else .ok output
  | fuel + 1, payloadOffset, firstChunk, output =>
      if payloadOffset < payload.length then
        let fmt : UInt8 := if firstChunk then 0 else 3
        let output := output ++ encodeBasicHeader fmt header.chunkStreamId
        let output := if firstChunk then output ++ encodeMessageHeader header else output
        let bytesToWrite := min chunkSize.toNat (payload.length - payloadOffset)
        let output := output ++ (payload.drop payloadOffset).take bytesToWrite
        encodeLoop header payload chunkSize fuel (payloadOffset + bytesToWrite) false output
      else .ok output

/-- `encode_chunk`.  With a chunk size of 0 its loop makes no progress, and the model runs out of
fuel; otherwise one iteration for every byte of the payload is enough. -/
def encodeChunk (header : ChunkHeader) (payload : List UInt8) (chunkSize : UInt32) :
    Except Failure (List UInt8) :=
  encodeLoop header payload chunkSize payload.length 0 true []

/-- With room for at least one byte in a chunk the loop ends. -/
theorem exists_encodeLoop (header : ChunkHeader) (payload : List UInt8) {chunkSize : UInt32}
    (hsize : 1 ≤ chunkSize.toNat) {fuel offset : ℕ} (hfuel : payload.length ≤ offset + fuel)
    (first : Bool) (output : List UInt8) :
    ∃ bytes, encodeLoop header payload chunkSize fuel offset first output = .ok bytes := by
  induction fuel generalizing offset first output with
  | zero => exact ⟨output, by rw [encodeLoop, if_neg (by omega)]⟩
  | succ fuel ih =>
      rw [encodeLoop]
      split
      · exact ih (by omega) _ _
      · exact ⟨output, rfl⟩

theorem exists_encodeChunk (header : ChunkHeader) (payload : List UInt8) {chunkSize : UInt32}
    (hsize : 1 ≤ chunkSize.toNat) : ∃ bytes, encodeChunk header payload chunkSize = .ok bytes :=
  exists_encodeLoop header payload hsize (by omega) true []

theorem encodeLoop_zero (header : ChunkHeader) {payload : List UInt8} {offset : ℕ}
    (h : offset < payload.length) (fuel : ℕ) (first : Bool) (output : List UInt8) :
    encodeLoop header payload 0 fuel offset first output = .error .outOfFuel := by
  induction fuel generalizing first output with
  | zero => rw [encodeLoop, if_pos h]
  | succ fuel ih =>
      have hnone : min (0 : UInt32).toNat (payload.length - offset) = 0 := Nat.zero_min _
      simp only [encodeLoop, if_pos h, hnone, Nat.add_zero]
      exact ih _ _

/-- **Under a chunk size of 0 no payload can be encoded.** -/
theorem encodeChunk_zero (header : ChunkHeader) {payload : List UInt8} (h : payload ≠ []) :
    encodeChunk header payload 0 = .error .outOfFuel :=
  encodeLoop_zero header (List.length_pos_of_ne_nil h) _ true []

/-! ### What the encoder writes, as headers -/

/-- The basic header that is written is one of the three spellings of the id. -/
theorem exists_basicHeader {csid : UInt32} (h : 2 ≤ csid.toNat ∧ csid.toNat ≤ 65599) :
    ∃ b : BasicHeader, b.csid = csid ∧ ∀ fmt, encodeBasicHeader fmt csid = b.bytes fmt := by
  have hlt64 : csid < 64 ↔ csid.toNat < 64 := by rw [UInt32.lt_iff_toNat_lt]; rfl
  have hlt320 : csid < 320 ↔ csid.toNat < 320 := by rw [UInt32.lt_iff_toNat_lt]; rfl
  by_cases h64 : csid.toNat < 64
  · have hbyte : csid.toUInt8.toNat = csid.toNat := by
      rw [UInt32.toNat_toUInt8]
      omega
    refine ⟨.one csid.toUInt8 ⟨by omega, by omega⟩, ?_, fun fmt => ?_⟩
    · rw [BasicHeader.csid, ← UInt32.toNat_inj, UInt8.toNat_toUInt32, hbyte]
    · rw [encodeBasicHeader, if_pos (hlt64.2 h64)]
      rfl
  · have hsub : (csid - 64).toNat = csid.toNat - 64 :=
      UInt32.toNat_sub_of_le _ _ (by rw [UInt32.le_iff_toNat_le]; simpa using h64)
    by_cases h320 : csid.toNat < 320
    · refine ⟨.two (csid - 64).toUInt8, ?_, fun fmt => ?_⟩
      · rw [BasicHeader.csid, ← UInt32.toNat_inj]
        simp only [UInt32.toNat_add, UInt8.toNat_toUInt32, UInt32.toNat_toUInt8, hsub,
          UInt32.reduceToNat]
        omega
      · rw [encodeBasicHeader, if_neg (mt hlt64.1 h64), if_pos (hlt320.2 h320)]
        rfl
    · refine ⟨.three ((csid - 64) &&& 0xFF).toUInt8 (((csid - 64) >>> 8) &&& 0xFF).toUInt8, ?_,
        fun fmt => ?_⟩
      · have hlow := Bytes.toNat_byte32_zero (csid - 64)
        have hhigh := Bytes.toNat_byte32 (csid - 64) 8 (by decide)
        simp only [UInt32.reduceToNat] at hhigh
        rw [BasicHeader.csid, ← UInt32.toNat_inj]
        simp only [UInt32.toNat_add, UInt32.toNat_mul, UInt8.toNat_toUInt32, UInt32.reduceToNat,
          hlow, hhigh, hsub]
        omega
      · rw [encodeBasicHeader, if_neg (mt hlt64.1 h64), if_neg (mt hlt320.1 h320)]
        rfl

/-- The timestamp as it is written. -/
def Stamp.of (v : UInt32) : Stamp :=
  if h : v.toNat < 0xFFFFFF then .short v h else .extended v

@[simp] theorem Stamp.of_value (v : UInt32) : (Stamp.of v).value = v := by
  unfold Stamp.of
  split <;> rfl

theorem Stamp.of_isExtended {v : UInt32} (h : v.toNat < 0xFFFFFF) :
    (Stamp.of v).isExtended = false := by
  rw [Stamp.of, dif_pos h]
  rfl

def firstHeader (b : BasicHeader) (header : ChunkHeader) (length : U24) : WireHeader :=
  ⟨b, .fmt0 (Stamp.of header.timestamp) length header.messageTypeId header.messageStreamId⟩

def nextHeader (b : BasicHeader) : WireHeader := ⟨b, .fmt3 none⟩

theorem firstHeader_bytes (b : BasicHeader) (header : ChunkHeader) {length : U24}
    (hl : header.messageLength = length.1) :
    (firstHeader b header length).bytes = b.bytes 0 ++ encodeMessageHeader header := by
  have hlt : header.timestamp < 0xFFFFFF ↔ header.timestamp.toNat < 0xFFFFFF := by
    rw [UInt32.lt_iff_toNat_lt]
    rfl
  by_cases h : header.timestamp.toNat < 0xFFFFFF
  · have hle : ¬ 0xFFFFFF ≤ header.timestamp := UInt32.not_le.2 (hlt.2 h)
    simp only [firstHeader, WireHeader.bytes, MessageHeader.fmt, MessageHeader.bytes, Stamp.of,
      dif_pos h, Stamp.field, Stamp.extension, encodeMessageHeader, if_pos (hlt.2 h), if_neg hle, hl]
    simp
  · have hle : 0xFFFFFF ≤ header.timestamp := UInt32.not_lt.1 (mt hlt.1 h)
    simp only [firstHeader, WireHeader.bytes, MessageHeader.fmt, MessageHeader.bytes, Stamp.of,
      dif_neg h, Stamp.field, Stamp.extension, encodeMessageHeader, if_neg (mt hlt.1 h), if_pos hle,
      hl]
    simp

/-- The header under which an encoded message is handed over. -/
def headerOf (header : ChunkHeader) : ChunkHeader where
  fmt := 0
  chunkStreamId := header.chunkStreamId
  timestamp := header.timestamp
  messageLength := header.messageLength
  messageTypeId := header.messageTypeId
  messageStreamId := header.messageStreamId
  hasExtendedTimestamp := (Stamp.of header.timestamp).isExtended

/-! ### Chunks on a stream of their own -/

section Collect

variable {core : ParserCore} {w : WireHeader}

/-- The number of payload bytes, on a stream that has received no more than the length. -/
theorem Sane.toNat_need (hs : Sane core) (hown : (w.head core).chunkStreamId = w.csid)
    (hle : (core.streams w.csid).partialMessage.length ≤ (w.head core).messageLength.toNat) :
    (w.need core).toNat = min core.chunkSize.toNat
      ((w.head core).messageLength.toNat - (core.streams w.csid).partialMessage.length) := by
  have hreceived := hs.received w.csid
  have hstream : (w.stream core).bytesReceived = (core.streams w.csid).bytesReceived := by
    rw [hs.stream_eq, w.update_bytesReceived, hown]
  have hle' : (w.stream core).bytesReceived ≤ (w.head core).messageLength := by
    rw [UInt32.le_iff_toNat_le, hstream]
    omega
  rw [WireHeader.need, bytesToRead, UInt32.toNat_min, UInt32.toNat_sub_of_le _ _ hle', hstream,
    hreceived]

theorem Sane.collect_last (hs : Sane core) (hown : (w.head core).chunkStreamId = w.csid)
    {payload : List UInt8} (hp : payload.length = (w.need core).toNat)
    (hall : (core.streams w.csid).partialMessage.length + payload.length
      = (w.head core).messageLength.toNat) :
    let chunk : Chunk := ⟨w.head core, (core.streams w.csid).partialMessage ++ payload⟩
    (w.collect core payload).2 = [chunk] ∧
      (w.collect core payload).1.chunkSize = receiveChunk core.chunkSize chunk ∧
      ((w.collect core payload).1.streams w.csid).bytesReceived = 0 ∧
      ((w.collect core payload).1.streams w.csid).prevHeader
        = w.remember (core.streams w.csid).prevHeader := by
  intro chunk
  have hreceived := hs.received w.csid
  have hstream : w.stream core = w.update core.streams w.csid := by rw [hs.stream_eq, hown]
  have hcompleted : w.completed core payload = chunk := by
    simp only [WireHeader.completed, hstream, w.update_partialMessage]
    rfl
  have hdone : (w.head core).messageLength ≤ (w.stream core).bytesReceived + w.need core := by
    rw [UInt32.le_iff_toNat_le, hs.toNat_received, hstream, w.update_bytesReceived]
    omega
  rw [w.collect_complete core hdone, hcompleted, hown]
  refine ⟨rfl, rfl, ?_, ?_⟩
  · simp only [Function.update_self]
  · simp only [Function.update_self, hstream, w.update_self]

theorem Sane.collect_more (hs : Sane core) (hown : (w.head core).chunkStreamId = w.csid)
    {payload : List UInt8} (hp : payload.length = (w.need core).toNat)
    (hmore : (core.streams w.csid).partialMessage.length + payload.length
      < (w.head core).messageLength.toNat) :
    (w.collect core payload).2 = [] ∧
      (w.collect core payload).1.chunkSize = core.chunkSize ∧
      ((w.collect core payload).1.streams w.csid).prevHeader
        = w.remember (core.streams w.csid).prevHeader ∧
      ((w.collect core payload).1.streams w.csid).partialMessage
        = (core.streams w.csid).partialMessage ++ payload := by
  have hreceived := hs.received w.csid
  have hstream : w.stream core = w.update core.streams w.csid := by rw [hs.stream_eq, hown]
  have hdone : ¬ (w.head core).messageLength ≤ (w.stream core).bytesReceived + w.need core := by
    rw [UInt32.le_iff_toNat_le, hs.toNat_received, hstream, w.update_bytesReceived]
    omega
  rw [w.collect_incomplete core hdone, hown]
  refine ⟨rfl, rfl, ?_, ?_⟩
  · simp only [Function.update_self, WireHeader.grown, hstream, w.update_self]
  · simp only [Function.update_self, WireHeader.grown, hstream, w.update_partialMessage]

/-- **One chunk of a message**, of which `received` has been received and `rest` is missing: it is
what the parser calls for, and it completes the message or leaves the parser in the middle of it. -/
theorem Sane.collect_chunk (hs : Sane core) (hown : (w.head core).chunkStreamId = w.csid)
    {received rest piece : List UInt8} {n : UInt32} (hsize : core.chunkSize = n)
    (hlength : (w.head core).messageLength.toNat = received.length + rest.length)
    (hreceived : (core.streams w.csid).partialMessage = received)
    (hpiece : piece = rest.take n.toNat) :
    piece.length = (w.need core).toNat ∧
      (rest.length ≤ n.toNat →
        let chunk : Chunk := ⟨w.head core, received ++ rest⟩
        (w.collect core piece).2 = [chunk] ∧
          (w.collect core piece).1.chunkSize = receiveChunk n chunk ∧
          ((w.collect core piece).1.streams w.csid).bytesReceived = 0 ∧
          ((w.collect core piece).1.streams w.csid).prevHeader
            = w.remember (core.streams w.csid).prevHeader) ∧
      (n.toNat < rest.length →
        (w.collect core piece).2 = [] ∧
          (w.collect core piece).1.chunkSize = n ∧
          ((w.collect core piece).1.streams w.csid).prevHeader
            = w.remember (core.streams w.csid).prevHeader ∧
          ((w.collect core piece).1.streams w.csid).partialMessage = received ++ piece) := by
  have hneed := hs.toNat_need hown (by rw [hreceived]; omega)
  rw [hreceived, hlength, hsize] at hneed
  have hplen : piece.length = min n.toNat rest.length := by rw [hpiece, List.length_take]
  have hp : piece.length = (w.need core).toNat := by omega
  refine ⟨hp, fun hlast => ?_, fun hmore => ?_⟩
  · have hall : piece = rest := by rw [hpiece, List.take_of_length_le hlast]
    obtain ⟨hout, hchunkSize, hidle, hprev⟩ :=
      hs.collect_last hown hp (by rw [hreceived, hall, hlength])
    rw [hreceived, hall] at hout hchunkSize
    rw [hsize, ← hall] at hchunkSize
    rw [← hall] at hout ⊢
    exact ⟨hout, hchunkSize, hidle, hprev⟩
  · obtain ⟨hout, hchunkSize, hprev, hpartial⟩ := hs.collect_more hown hp (by rw [hreceived]; omega)
    rw [hreceived] at hpartial
    exact ⟨hout, hchunkSize.trans hsize, hprev, hpartial⟩

end Collect

/-! ### What is encoded is decoded -/

/-- The header is of format 0 or 3: the encoder writes no other. -/
def WireHeader.Plain (w : WireHeader) : Prop := w.message.fmt = 0 ∨ w.message.fmt = 3

/-- The parser is in the middle of a message: its first header is remembered, and `received` has
been received. -/
structure Continuing (core : ParserCore) (header : ChunkHeader) (n : UInt32)
    (received : List UInt8) : Prop where
  sane : Sane core
  chunkSize : core.chunkSize = n
  prevHeader : (core.streams header.chunkStreamId).prevHeader = headerOf header
  partialMessage : (core.streams header.chunkStreamId).partialMessage = received

/-- From `core` to `core'` the parser has handed over `chunk`, and is between messages on its
stream. -/
structure HandsOver (core core' : ParserCore) (n : UInt32) (chunk : Chunk) : Prop where
  chunkSize : core'.chunkSize = receiveChunk n chunk
  idle : (core'.streams chunk.header.chunkStreamId).bytesReceived = 0
  others : ∀ c, c ≠ chunk.header.chunkStreamId → core'.streams c = core.streams c

theorem encodeLoop_done {header : ChunkHeader} {payload : List UInt8} {n : UInt32} {k : ℕ}
    (h : payload.length ≤ k) (fuel : ℕ) (first : Bool) (output : List UInt8) :
    encodeLoop header payload n fuel k first output = .ok output := by
  cases fuel <;> simp [encodeLoop, h]

theorem encodeLoop_succ {header : ChunkHeader} {payload : List UInt8} {n : UInt32} {k : ℕ}
    (h : k < payload.length) (fuel : ℕ) (first : Bool) (output : List UInt8) :
    encodeLoop header payload n (fuel + 1) k first output =
      encodeLoop header payload n fuel (k + min n.toNat (payload.length - k)) false
        (output ++ (encodeBasicHeader (if first then 0 else 3) header.chunkStreamId ++
          (if first then encodeMessageHeader header else []) ++
          (payload.drop k).take (min n.toNat (payload.length - k)))) := by
  cases first <;> simp [encodeLoop, h]

theorem encodeChunk_one {header : ChunkHeader} {payload : List UInt8} {n : UInt32}
    (hpayload : 1 ≤ payload.length) (hn : payload.length ≤ n.toNat) :
    encodeChunk header payload n = .ok
      (encodeBasicHeader 0 header.chunkStreamId ++ encodeMessageHeader header ++ payload) := by
  obtain ⟨fuel, hfuel⟩ := Nat.exists_eq_add_of_le hpayload
  rw [encodeChunk, hfuel, Nat.add_comm 1 fuel, encodeLoop_succ hpayload, Nat.sub_zero,
    Nat.min_eq_right hn, List.drop_zero, List.take_length, encodeLoop_done (Nat.le_add_left ..)]
  simp only [if_true, List.nil_append]

/-- A message that does not: the loop goes on behind the first chunk. -/
theorem encodeChunk_more {header : ChunkHeader} {payload : List UInt8} {n : UInt32}
    (hn : n.toNat < payload.length) :
    ∃ fuel, payload.length = fuel + 1 ∧ encodeChunk header payload n =
      encodeLoop header payload n fuel n.toNat false
        (encodeBasicHeader 0 header.chunkStreamId ++ encodeMessageHeader header ++
          payload.take n.toNat) := by
  have hpayload : 0 < payload.length := by omega
  obtain ⟨fuel, hfuel⟩ := Nat.exists_eq_add_of_lt hpayload
  rw [Nat.zero_add] at hfuel
  refine ⟨fuel, hfuel, ?_⟩
  rw [encodeChunk, hfuel, encodeLoop_succ hpayload, Nat.sub_zero, Nat.min_eq_left hn.le,
    List.drop_zero, Nat.zero_add]
  simp only [if_true, List.nil_append]

section Encode

variable {header : ChunkHeader} {payload : List UInt8} {n : UInt32} {b : BasicHeader}
  {core : ParserCore}

/-- One chunk of a message, from the offset `k` on: it is what the parser calls for, and it leaves
the parser in the middle of the message or completes it. -/
theorem chunk_of_message {w : WireHeader} {k : ℕ} (hs : Sane core) (hsize : core.chunkSize = n)
    (hcsid : w.csid = header.chunkStreamId) (hhead : w.head core = headerOf header)
    (hremember : w.remember (core.streams w.csid).prevHeader = headerOf header)
    (hlen : header.messageLength.toNat = payload.length) (hk : k ≤ payload.length)
    (hreceived : (core.streams header.chunkStreamId).partialMessage = payload.take k)
    {piece : List UInt8} {m : ℕ} (hm : m = min n.toNat (payload.length - k))
    (hpiece : piece = (payload.drop k).take m) :
    piece.length = (w.need core).toNat ∧
      (payload.length ≤ k + m →
        (w.collect core piece).2 = [⟨headerOf header, payload⟩] ∧
        HandsOver core (w.collect core piece).1 n ⟨headerOf header, payload⟩) ∧
      (k + m < payload.length →
        (w.collect core piece).2 = [] ∧
        Continuing (w.collect core piece).1 header n (payload.take (k + m)) ∧
        ∀ c, c ≠ header.chunkStreamId → (w.collect core piece).1.streams c = core.streams c) := by
  have hown : (w.head core).chunkStreamId = w.csid := by
    rw [hhead, hcsid]
    rfl
  have htake : (payload.take k).length = k := List.length_take_of_le hk
  have hdrop : (payload.drop k).length = payload.length - k := List.length_drop
  have hlength : (w.head core).messageLength.toNat
      = (payload.take k).length + (payload.drop k).length := by
    rw [hhead, htake, hdrop]
    exact hlen.trans (by omega)
  have hpiece' : piece = (payload.drop k).take n.toNat := by
    rw [hpiece, hm, ← hdrop, ← List.take_eq_take_min]
  rw [← hcsid] at hreceived
  obtain ⟨hp, hlast, hmore⟩ := hs.collect_chunk hown hsize hlength hreceived hpiece'
  have hothers : ∀ c, c ≠ header.chunkStreamId →
      (w.collect core piece).1.streams c = core.streams c := by
    intro c hc
    rw [← hcsid] at hc
    exact hs.collect_streams_of_ne hc
  refine ⟨hp, fun hle => ?_, fun hlt => ?_⟩
  · obtain ⟨hout, hchunkSize, hidle, -⟩ := hlast (by omega)
    rw [List.take_append_drop, hhead] at hout hchunkSize
    rw [hcsid] at hidle
    exact ⟨hout, hchunkSize, hidle, hothers⟩
  · obtain ⟨hout, hchunkSize, hprev, hpartial⟩ := hmore (by omega)
    have hjoin : payload.take k ++ piece = payload.take (k + m) := by rw [hpiece, List.take_add]
    rw [hjoin, hcsid] at hpartial
    rw [hremember, hcsid] at hprev
    exact ⟨hout, ⟨hs.collect hp, hchunkSize, hprev, hpartial⟩, hothers⟩

/-- **The first chunk of a message**, for every parser that is between messages on the chunk stream: it
is the whole message if there is room for it, and otherwise it leaves the parser in the middle of it. -/
theorem exists_firstChunk
    (hcsid : 2 ≤ header.chunkStreamId.toNat ∧ header.chunkStreamId.toNat ≤ 65599)
    (hlen : header.messageLength.toNat = payload.length) (hpayload : payload.length ≤ 0xFFFFFF) :
    ∃ w : WireHeader, w.Plain ∧
      w.bytes = encodeBasicHeader 0 header.chunkStreamId ++ encodeMessageHeader header ∧
      ∀ {core : ParserCore} {n : UInt32}, Sane core → core.chunkSize = n →
        (core.streams header.chunkStreamId).bytesReceived = 0 →
        w.Fits core.streams ∧ (payload.take n.toNat).length = (w.need core).toNat ∧
        (payload.length ≤ n.toNat →
          (w.collect core (payload.take n.toNat)).2 = [⟨headerOf header, payload⟩] ∧
          HandsOver core (w.collect core (payload.take n.toNat)).1 n ⟨headerOf header, payload⟩) ∧
        (n.toNat < payload.length →
          (w.collect core (payload.take n.toNat)).2 = [] ∧
          Continuing (w.collect core (payload.take n.toNat)).1 header n (payload.take n.toNat) ∧
          ∀ c, c ≠ header.chunkStreamId →
            (w.collect core (payload.take n.toNat)).1.streams c = core.streams c) := by
  obtain ⟨b, hb, henc⟩ := exists_basicHeader hcsid
  let length : U24 := ⟨header.messageLength, by omega⟩
  let w := firstHeader b header length
  have hbytes : w.bytes = encodeBasicHeader 0 header.chunkStreamId ++ encodeMessageHeader header := by
    rw [henc]
    exact firstHeader_bytes b header rfl
  have hhead : ∀ prev, w.header prev = headerOf header := by
    intro prev
    simp only [w, firstHeader, WireHeader.header, WireHeader.csid, headerOf, hb, Stamp.of_value,
      length]
  refine ⟨w, .inl rfl, hbytes, fun {core n} hs hsize hidle => ⟨trivial, ?_⟩⟩
  -- nothing of the message has been received
  have hempty : (core.streams header.chunkStreamId).partialMessage = payload.take 0 := by
    have hreceived := hs.received header.chunkStreamId
    rw [hidle] at hreceived
    exact List.eq_nil_of_length_eq_zero hreceived
  have hpiece : payload.take n.toNat = (payload.drop 0).take (min n.toNat (payload.length - 0)) := by
    rw [List.drop_zero, Nat.sub_zero, ← List.take_eq_take_min]
  obtain ⟨hp, hlast, hmore⟩ := chunk_of_message (w := w) hs hsize hb
    (hhead (core.streams w.csid).prevHeader) (hhead (core.streams w.csid).prevHeader) hlen
    (Nat.zero_le _) hempty rfl hpiece
  rw [Nat.sub_zero, Nat.zero_add] at hlast hmore
  refine ⟨hp, fun hle => hlast (by omega), fun hlt => ?_⟩
  rw [Nat.min_eq_left hlt.le] at hmore
  exact hmore hlt

/-- The rest of a message, from any offset on: by induction on the iterations, with the parser in
the middle of the message. -/
theorem encodeLoop_run (hb : b.csid = header.chunkStreamId)
    (henc : ∀ fmt, encodeBasicHeader fmt header.chunkStreamId = b.bytes fmt)
    (hlen : header.messageLength.toNat = payload.length) (hn : 1 ≤ n.toNat)
    (hext : (headerOf header).hasExtendedTimestamp = false) (fuel : ℕ) :
    ∀ (k : ℕ) (core : ParserCore) (output : List UInt8), payload.length - k ≤ fuel →
      k < payload.length → Continuing core header n (payload.take k) →
      ∃ pieces core',
        encodeLoop header payload n fuel k false output
          = .ok (output ++ pieces.flatMap Piece.bytes) ∧
        (∀ piece ∈ pieces, piece.header.Plain) ∧
        WholeChunks core pieces [⟨headerOf header, payload⟩] core' ∧
        HandsOver core core' n ⟨headerOf header, payload⟩ := by
  have hcsid : (nextHeader b).csid = header.chunkStreamId := hb
  have hbytes : (nextHeader b).bytes = encodeBasicHeader 3 header.chunkStreamId := by
    rw [henc]
    simp [nextHeader, WireHeader.bytes, MessageHeader.bytes, MessageHeader.fmt]
  induction fuel with
  | zero =>
      intro k core output hfuel hk
      omega
  | succ fuel ih =>
      intro k core output hfuel hk hcore
      have hprev : (core.streams (nextHeader b).csid).prevHeader = headerOf header := by
        rw [hcsid]
        exact hcore.prevHeader
      have hfit : (nextHeader b).Fits core.streams := by
        change none.isSome = (core.streams (nextHeader b).csid).prevHeader.hasExtendedTimestamp
        rw [hprev, hext]
        rfl
      generalize hm : min n.toNat (payload.length - k) = m
      generalize hpiece : (payload.drop k).take m = piece
      obtain ⟨hp, hlast, hmore⟩ := chunk_of_message (w := nextHeader b) hcore.sane hcore.chunkSize
        hcsid hprev hprev hlen hk.le hcore.partialMessage hm.symm hpiece.symm
      rw [encodeLoop_succ hk, hm, hpiece]
      rcases Nat.lt_or_ge (k + m) payload.length with hlt | hge
      · -- more chunks follow
        obtain ⟨hout, hcontinue, hothers⟩ := hmore hlt
        obtain ⟨pieces, core', hloop, hplain, hrun, hover⟩ := ih (k + m) _
          (output ++ ((nextHeader b).bytes ++ piece)) (by omega) hlt hcontinue
        refine ⟨⟨nextHeader b, piece⟩ :: pieces, core', ?_, ?_, ?_, ?_⟩
        · rw [hbytes] at hloop
          simpa [Piece.bytes, hbytes] using hloop
        · intro q hq
          rcases List.mem_cons.1 hq with rfl | hq
          · exact .inr rfl
          · exact hplain q hq
        · exact @WholeChunks.cons_of_none _ _ ⟨nextHeader b, piece⟩ _ _ hfit hp hout hrun
        · exact ⟨hover.chunkSize, hover.idle, fun c hc => (hover.others c hc).trans (hothers c hc)⟩
      · -- this is the last chunk
        obtain ⟨hout, hover⟩ := hlast hge
        refine ⟨[⟨nextHeader b, piece⟩], _, ?_, ?_, ?_, hover⟩
        · rw [encodeLoop_done hge]
          simp [Piece.bytes, hbytes]
        · intro q hq
          rw [List.mem_singleton.1 hq]
          exact .inr rfl
        · rw [← hout]
          exact @WholeChunks.single _ ⟨nextHeader b, piece⟩ hfit hp

/-- **What is encoded is decoded**, by any parser that is between messages on the chunk stream and
has the chunk size of the encoder, if the timestamp is not extended or the message is one chunk. -/
theorem encodeChunk_run
    (hcsid : 2 ≤ header.chunkStreamId.toNat ∧ header.chunkStreamId.toNat ≤ 65599)
    (hlen : header.messageLength.toNat = payload.length)
    (hpayload : 1 ≤ payload.length ∧ payload.length ≤ 0xFFFFFF) (hn : 1 ≤ n.toNat)
    (hstamp : header.timestamp.toNat < 0xFFFFFF ∨ payload.length ≤ n.toNat) (hs : Sane core)
    (hsize : core.chunkSize = n) (hidle : (core.streams header.chunkStreamId).bytesReceived = 0) :
    ∃ pieces core', encodeChunk header payload n = .ok (pieces.flatMap Piece.bytes) ∧
      (∀ piece ∈ pieces, piece.header.Plain) ∧
      WholeChunks core pieces [⟨headerOf header, payload⟩] core' ∧
      HandsOver core core' n ⟨headerOf header, payload⟩ := by
  obtain ⟨w, hw, hbytes, hfirst⟩ := exists_firstChunk hcsid hlen hpayload.2
  obtain ⟨hfit, hp, hlast, hmore⟩ := hfirst hs hsize hidle
  generalize hpiece : payload.take n.toNat = piece at hp hlast hmore
  rcases Nat.lt_or_ge n.toNat payload.length with hlt | hge
  · -- more chunks follow, so the timestamp is not extended
    obtain ⟨b, hb, henc⟩ := exists_basicHeader hcsid
    obtain ⟨fuel, hfuel, hencode⟩ := @encodeChunk_more header payload n hlt
    have hext : (headerOf header).hasExtendedTimestamp = false :=
      Stamp.of_isExtended (by omega)
    obtain ⟨hout, hcontinue, hothers⟩ := hmore hlt
    rw [← hpiece] at hcontinue
    obtain ⟨pieces, core', hloop, hplain, hrun, hover⟩ := encodeLoop_run hb henc hlen hn hext fuel
      n.toNat _ (w.bytes ++ piece) (by omega) hlt hcontinue
    refine ⟨⟨w, piece⟩ :: pieces, core', ?_, ?_, ?_, ?_⟩
    · rw [hencode, ← hbytes, hpiece, hloop, List.flatMap_cons, Piece.bytes]
    · intro q hq
      rcases List.mem_cons.1 hq with rfl | hq
      · exact hw
      · exact hplain q hq
    · rw [hpiece] at hrun
      exact @WholeChunks.cons_of_none _ _ ⟨w, piece⟩ _ _ hfit hp hout hrun
    · rw [hpiece] at hover
      exact ⟨hover.chunkSize, hover.idle, fun c hc => (hover.others c hc).trans (hothers c hc)⟩
  · -- the message is one chunk
    obtain ⟨hout, hover⟩ := hlast hge
    have hall : payload = piece := by rw [← hpiece, List.take_of_length_le hge]
    refine ⟨[⟨w, piece⟩], _, ?_, ?_, ?_, hover⟩
    · rw [encodeChunk_one hpayload.1 hge, ← hbytes, List.flatMap_singleton, Piece.bytes, ← hall]
    · intro q hq
      rw [List.mem_singleton.1 hq]
      exact hw
    · rw [← hout]
      exact @WholeChunks.single _ ⟨w, piece⟩ hfit hp

end Encode

/-! ### What a message costs -/

/-- The number of chunks of size `n` that `x` bytes make. -/
def chunksFor (n x : ℕ) : ℕ := (x + n - 1) / n

theorem chunksFor_zero (n : ℕ) : chunksFor n 0 = 0 := by
  unfold chunksFor
  rcases Nat.eq_zero_or_pos n with rfl | hn
  · rfl
  · exact Nat.div_eq_of_lt (by omega)

/-- A chunk of at most `n` bytes saves at most one chunk. -/
theorem chunksFor_le {n p : ℕ} (hp : p ≤ n) (x : ℕ) : chunksFor n x ≤ chunksFor n (x - p) + 1 := by
  unfold chunksFor
  rcases Nat.eq_zero_or_pos n with rfl | hn
  · simp
  · rw [← Nat.add_div_right _ hn]
    exact Nat.div_le_div_right (by omega)

theorem chunksFor_eq {n x : ℕ} (hn : 1 ≤ n) (hx : 1 ≤ x) :
    chunksFor n x = chunksFor n (x - min n x) + 1 := by
  rcases Nat.le_total x n with hle | hle
  · rw [Nat.min_eq_right hle, Nat.sub_self, chunksFor_zero, chunksFor]
    have hsum : x + n - 1 = (x - 1) + n := by omega
    rw [hsum, Nat.add_div_right _ hn, Nat.div_eq_of_lt (by omega)]
  · rw [Nat.min_eq_left hle, chunksFor, chunksFor]
    have hsum : x + n - 1 = (x - n + n - 1) + n := by omega
    rw [hsum, Nat.add_div_right _ hn]

/-- The chunks of format 3 cost their basic headers and the payload. -/
theorem length_encodeLoop {header : ChunkHeader} {payload : List UInt8} {n : UInt32}
    (hn : 1 ≤ n.toNat) (fuel : ℕ) : ∀ (k : ℕ) (output : List UInt8), payload.length - k ≤ fuel →
    ∃ bytes, encodeLoop header payload n fuel k false output = .ok (output ++ bytes) ∧
      bytes.length = payload.length - k + (encodeBasicHeader 3 header.chunkStreamId).length *
        chunksFor n.toNat (payload.length - k) := by
  induction fuel with
  | zero =>
      intro k output hfuel
      refine ⟨[], by rw [encodeLoop_done (by omega), List.append_nil], ?_⟩
      rw [Nat.le_zero.1 hfuel, chunksFor_zero]
      rfl
  | succ fuel ih =>
      intro k output hfuel
      rcases Nat.lt_or_ge k payload.length with hk | hk
      · obtain ⟨bytes, hloop, hlen⟩ := ih (k + min n.toNat (payload.length - k)) _ (by omega)
        rw [encodeLoop_succ hk, hloop, List.append_assoc]
        refine ⟨_, rfl, ?_⟩
        have hpiece : ((payload.drop k).take (min n.toNat (payload.length - k))).length
            = min n.toNat (payload.length - k) := by
          rw [List.length_take, List.length_drop]
          omega
        have hcount := chunksFor_eq hn (x := payload.length - k) (by omega)
        rw [Nat.sub_sub] at hcount
        simp only [List.length_append, hpiece, hlen, hcount, Nat.mul_succ]
        simp
        omega
      · refine ⟨[], by rw [encodeLoop_done hk, List.append_nil], ?_⟩
        rw [Nat.sub_eq_zero_of_le hk, chunksFor_zero]
        rfl

theorem encodeBasicHeader_shortest (b : BasicHeader) (fmt fmt' : UInt8) :
    (encodeBasicHeader fmt b.csid).length ≤ (b.bytes fmt').length := by
  have hle : (encodeBasicHeader fmt b.csid).length ≤ 3 := by
    unfold encodeBasicHeader
    split_ifs <;> simp
  cases b with
  | one low h =>
      have hlt : BasicHeader.csid (.one low h) < 64 := by
        rw [UInt32.lt_iff_toNat_lt, BasicHeader.csid, UInt8.toNat_toUInt32]
        exact h.2
      rw [encodeBasicHeader, if_pos hlt]
      rfl
  | two x =>
      have hx := x.toNat_lt
      have hlt : BasicHeader.csid (.two x) < 320 := by
        rw [UInt32.lt_iff_toNat_lt, BasicHeader.csid]
        simp only [UInt32.toNat_add, UInt8.toNat_toUInt32, UInt32.reduceToNat]
        omega
      rw [encodeBasicHeader, if_pos hlt]
      split_ifs <;> simp [BasicHeader.bytes]
  | three x y => exact hle

/-- Three more bytes than that are needed where the last header had an extended timestamp: a header
of format 3 then has the extended field, and every other one has a field of three bytes anyway. -/
theorem WireHeader.Fits.length_bytes {w : WireHeader} {streams : Streams} (h : w.Fits streams) :
    (encodeBasicHeader 3 w.csid).length
      + (if (streams w.csid).prevHeader.hasExtendedTimestamp then 3 else 0) ≤ w.bytes.length := by
  obtain ⟨b, m⟩ := w
  have hb := encodeBasicHeader_shortest b 3 m.fmt
  have hextra : (if (streams b.csid).prevHeader.hasExtendedTimestamp then 3 else 0)
      ≤ m.bytes.length := by
    cases m with
    | fmt0 =>
        simp only [MessageHeader.bytes, List.length_append, Bytes.length_writeU24Be]
        split <;> omega
    | fmt1 =>
        simp only [MessageHeader.bytes, List.length_append, Bytes.length_writeU24Be]
        split <;> omega
    | fmt2 =>
        simp only [MessageHeader.bytes, List.length_append, Bytes.length_writeU24Be]
        split <;> omega
    | fmt3 ext =>
        have hfit : ext.isSome = (streams b.csid).prevHeader.hasExtendedTimestamp := h
        rw [← hfit]
        cases ext <;> simp [MessageHeader.bytes]
  rw [WireHeader.bytes, List.length_append]
  exact Nat.add_le_add hb hextra

/-- **What a message costs in bytes**: to hand over one message, on a chunk stream that has received
part of it, takes the rest of it, a basic header for every chunk, and three bytes more if the last
header on the stream had an extended timestamp. -/
theorem WholeChunks.cost {core core' : ParserCore} {pieces : List Piece} {out : List Chunk}
    (h : WholeChunks core pieces out core') (hs : Sane core) {chunk : Chunk} (hout : out = [chunk])
    (hid : chunk.header.chunkStreamId ≠ 0) {rest : ℕ}
    (hrest : rest = chunk.payload.length
      - (core.streams chunk.header.chunkStreamId).partialMessage.length) :
    rest + (encodeBasicHeader 3 chunk.header.chunkStreamId).length
        * chunksFor core.chunkSize.toNat rest
      + (if (core.streams chunk.header.chunkStreamId).prevHeader.hasExtendedTimestamp then 3 else 0)
      ≤ (pieces.flatMap Piece.bytes).length := by
  induction h generalizing rest with
  | nil => cases hout
  | @cons core core' piece pieces out hfit hp _ ih =>
      have hsane := hs.collect hp
      have hconserve := congrArg List.length
        (hs.collect_conserves hp chunk.header.chunkStreamId)
      have hsum : ((piece :: pieces).flatMap Piece.bytes).length
          = piece.header.bytes.length + piece.payload.length
            + (pieces.flatMap Piece.bytes).length := by
        simp [Piece.bytes, Nat.add_assoc]
      have hmax : piece.payload.length ≤ core.chunkSize.toNat := by
        rw [hp, WireHeader.need, bytesToRead, UInt32.toNat_min]
        exact Nat.min_le_left _ _
      have hcount := chunksFor_le hmax rest
      rw [hsum]
      rcases List.append_eq_singleton_iff.1 hout with ⟨hnone, hout'⟩ | ⟨hone, hout'⟩
      · -- the chunk completes nothing
        have hsize : (piece.header.collect core piece.payload).1.chunkSize = core.chunkSize :=
          collect_chunkSize (by simp [hnone])
        have ih' := ih hsane hout' rfl
        rw [hsize] at ih'
        by_cases hc : piece.header.csid = chunk.header.chunkStreamId
        · have hheader := hfit.length_bytes
          simp only [hnone, messagesOn, payloadOn, hc, List.filter_nil, List.flatMap_nil,
            List.nil_append, List.length_append, List.filter_cons, decide_true, if_true,
            List.flatMap_cons, List.append_nil] at hconserve
          rw [hc] at hheader
          have hless : chunk.payload.length - ((piece.header.collect core piece.payload).1.streams
              chunk.header.chunkStreamId).partialMessage.length = rest - piece.payload.length := by
            omega
          rw [hless] at ih'
          have hmul := Nat.mul_le_mul_left
            (encodeBasicHeader 3 chunk.header.chunkStreamId).length hcount
          rw [Nat.mul_succ] at hmul
          omega
        · rw [hs.collect_streams_of_ne (Ne.symm hc), ← hrest] at ih'
          omega
      · -- the chunk completes the message
        have hlabel : piece.header.csid = chunk.header.chunkStreamId := by
          have hhead : chunk.header = piece.header.head core := by
            by_cases hdone : (piece.header.head core).messageLength
                ≤ (piece.header.stream core).bytesReceived + piece.header.need core
            · rw [piece.header.collect_complete core hdone] at hone
              rw [← List.singleton_injective hone]
              rfl
            · rw [piece.header.collect_incomplete core hdone] at hone
              cases hone
          rcases hs.head_own (w := piece.header) with hown | ⟨hzero, -⟩
          · rw [hhead, hown]
          · exact absurd (by rw [hhead, hzero]) hid
        have hheader := hfit.length_bytes
        rw [hlabel] at hheader
        simp only [hone, messagesOn, payloadOn, hlabel, List.filter_cons, decide_true, if_true,
          List.filter_nil, List.flatMap_cons, List.flatMap_nil, List.append_nil,
          List.length_append] at hconserve
        have hless : rest - piece.payload.length = 0 := by omega
        rw [hless, chunksFor_zero] at hcount
        have hmul := Nat.mul_le_mul_left
          (encodeBasicHeader 3 chunk.header.chunkStreamId).length hcount
        omega

/-! ### The round trip -/

/-- A fresh parser, given in one call what `encode_chunk` makes of a message, consumes every byte,
leaves nothing buffered and hands over exactly that message. -/
def RoundTrips (header : ChunkHeader) (payload : List UInt8) (n : UInt32) : Prop :=
  ∃ bytes p chunk, encodeChunk header payload n = .ok bytes ∧
    (ChunkParser.new n).parse bytes = (p, bytes.length, .ok [chunk]) ∧ p.buffer = [] ∧
    chunk.header.chunkStreamId = header.chunkStreamId ∧
    chunk.header.timestamp = header.timestamp ∧
    chunk.header.messageTypeId = header.messageTypeId ∧
    chunk.header.messageStreamId = header.messageStreamId ∧ chunk.payload = payload

section Lost

variable {header : ChunkHeader} {payload : List UInt8} {n : UInt32} {core : ParserCore}

/-- The first of several chunks is taken as it was written, by any parser that is between messages on
the chunk stream; behind it there is a basic header for every other chunk, and the rest of the
payload. -/
theorem encodeChunk_first
    (hcsid : 2 ≤ header.chunkStreamId.toNat ∧ header.chunkStreamId.toNat ≤ 65599)
    (hlen : header.messageLength.toNat = payload.length) (hpayload : payload.length ≤ 0xFFFFFF)
    (hn : 1 ≤ n.toNat) (hlong : n.toNat < payload.length) (hs : Sane core)
    (hsize : core.chunkSize = n) (hidle : (core.streams header.chunkStreamId).bytesReceived = 0) :
    ∃ first rest core', encodeChunk header payload n = .ok (first ++ rest) ∧
      first = encodeBasicHeader 0 header.chunkStreamId ++ encodeMessageHeader header ++
        payload.take n.toNat ∧
      chunkDecoder.Run core first [] core' ∧
      Continuing core' header n (payload.take n.toNat) ∧
      (∀ c, c ≠ header.chunkStreamId → core'.streams c = core.streams c) ∧
      rest.length = payload.length - n.toNat +
        (encodeBasicHeader 3 header.chunkStreamId).length *
          chunksFor n.toNat (payload.length - n.toNat) := by
  obtain ⟨w, -, hbytes, hfirst⟩ := exists_firstChunk hcsid hlen hpayload
  obtain ⟨hfit, hp, -, hmore⟩ := hfirst hs hsize hidle
  obtain ⟨hout, hcontinue, hothers⟩ := hmore hlong
  obtain ⟨fuel, hfuel, hencode⟩ := @encodeChunk_more header payload n hlong
  obtain ⟨rest, hloop, hrestlen⟩ := @length_encodeLoop header payload n hn fuel n.toNat
    (w.bytes ++ payload.take n.toNat) (by omega)
  refine ⟨w.bytes ++ payload.take n.toNat, rest, _, ?_, by rw [hbytes], ?_, hcontinue, hothers,
    hrestlen⟩
  · rw [hencode, ← hbytes]
    exact hloop
  · have hunit := Decoder.Run.single (chunkStep_unit hfit hp)
    rwa [hout] at hunit

/-- A message of several chunks with an extended timestamp does not survive: what is left of the
bytes after the first chunk is not enough for any way of reading the rest of the message. -/
theorem not_roundTrips_extended
    (hcsid : 2 ≤ header.chunkStreamId.toNat ∧ header.chunkStreamId.toNat ≤ 65599)
    (hlen : header.messageLength.toNat = payload.length) (hpayload : payload.length ≤ 0xFFFFFF)
    (hn : 1 ≤ n.toNat) (hstamp : 0xFFFFFF ≤ header.timestamp.toNat)
    (hlong : n.toNat < payload.length) : ¬ RoundTrips header payload n := by
  rintro ⟨bytes, p, chunk, henc, hparse, hbuffer, hid, -, -, -, hchunk⟩
  obtain ⟨first, rest, core, henc', -, hrun, hcontinue, -, hrestlen⟩ :=
    encodeChunk_first hcsid hlen hpayload hn hlong (Sane.new n) rfl rfl
  obtain rfl := Except.ok.inj (henc.symm.trans henc')
  have hfeed := hrun.feed [] (first ++ rest) rest rfl
  -- so the rest hands over the message, and nothing of it is left
  have heq := (ChunkParser.new n).parse_eq (first ++ rest)
  have hfresh : (ChunkParser.new n).buffer = [] := rfl
  rw [hparse, hfresh, hfeed] at heq
  simp only [Prod.mk.injEq, Except.ok.injEq, List.nil_append] at heq
  obtain ⟨hstate, -, hmessages⟩ := heq
  rw [hstate] at hbuffer
  obtain ⟨core', hrun'⟩ := Decoder.Run.of_feed hbuffer
  obtain ⟨pieces, hall, hwhole⟩ := Run.wholeChunks hrun'
  have hext : (headerOf header).hasExtendedTimestamp = true := by
    simp only [headerOf, Stamp.of, dif_neg (Nat.not_lt.2 hstamp)]
    rfl
  have hcost := hwhole.cost hcontinue.sane hmessages.symm (by
    rw [hid]
    intro h0
    rw [h0] at hcsid
    simp at hcsid) rfl
  rw [hid, hcontinue.partialMessage, hcontinue.prevHeader, hext, hchunk, hcontinue.chunkSize, ← hall,
    hrestlen, List.length_take_of_le (by omega), if_pos rfl] at hcost
  omega

/-- **A message whose first chunk has been taken is lost if what is left of the bytes is not enough for
it**: however the parser reads them, it does not hand over a single message of the same length. -/
theorem Continuing.lost {core' : ParserCore}
    (h : Continuing core' header n (payload.take n.toNat)) (hlong : n.toNat < payload.length)
    (hothers : ∀ c, c ≠ header.chunkStreamId → (core'.streams c).bytesReceived = 0)
    {rest : List UInt8}
    (hown : rest.length < payload.length - n.toNat +
      (encodeBasicHeader 3 header.chunkStreamId).length *
        chunksFor n.toNat (payload.length - n.toNat) +
      (if (headerOf header).hasExtendedTimestamp then 3 else 0))
    (hother : rest.length < payload.length + chunksFor n.toNat payload.length) {chunk : Chunk}
    (hout : (chunkDecoder.feed (core', []) rest).2 = [chunk]) :
    chunk.payload.length ≠ payload.length := by
  intro hchunk
  obtain ⟨taken, hrest, hrun, -⟩ := chunkDecoder.drain_spec core' rest
  obtain ⟨pieces, rfl, hwhole⟩ := Run.wholeChunks hrun
  have hle : (pieces.flatMap Piece.bytes).length ≤ rest.length := by
    rw [hrest, List.length_append]
    omega
  have hmessages : (chunkDecoder.drain core' rest).out = [chunk] := hout
  by_cases hzero : chunk.header.chunkStreamId = 0
  · -- a message on the stream 0 is empty
    have hconserve := hwhole.conserves h.sane 0
    have hnone : payloadOn 0 pieces = [] := by
      simp [payloadOn, WireHeader.csid_ne_zero]
    rw [hmessages, h.sane.zero, hnone] at hconserve
    have hempty : chunk.payload = [] := by
      have hall : messagesOn 0 [chunk] = chunk.payload := by simp [messagesOn, hzero]
      rw [hall, List.append_nil] at hconserve
      exact (List.append_eq_nil_iff.1 hconserve).1
    rw [hempty, List.length_nil] at hchunk
    omega
  · have hcost := hwhole.cost h.sane hmessages hzero rfl
    rw [hchunk, h.chunkSize] at hcost
    by_cases hid : chunk.header.chunkStreamId = header.chunkStreamId
    · rw [hid, h.partialMessage, h.prevHeader, List.length_take_of_le hlong.le] at hcost
      omega
    · -- another stream has nothing of the message yet
      have hempty : ((core'.streams chunk.header.chunkStreamId).partialMessage).length = 0 := by
        rw [h.sane.received, hothers _ hid]
        rfl
      have hbasic : 1 ≤ (encodeBasicHeader 3 chunk.header.chunkStreamId).length := by
        unfold encodeBasicHeader
        split_ifs <;> simp
      have hmul := Nat.mul_le_mul_right (chunksFor n.toNat payload.length) hbasic
      rw [hempty, Nat.sub_zero] at hcost
      omega

/-- **It does not survive behind other messages either**, if its chunk stream id is spelled in one
byte: however the parser reads what follows the first chunk, it does not hand over a single message of
the same length. -/
theorem feed_extended_lost
    (hcsid : 2 ≤ header.chunkStreamId.toNat ∧ header.chunkStreamId.toNat < 64)
    (hlen : header.messageLength.toNat = payload.length) (hpayload : payload.length ≤ 0xFFFFFF)
    (hn : 1 ≤ n.toNat) (hstamp : 0xFFFFFF ≤ header.timestamp.toNat)
    (hlong : n.toNat < payload.length) (hs : Sane core) (hsize : core.chunkSize = n)
    (hidle : ∀ c, (core.streams c).bytesReceived = 0) {bytes : List UInt8}
    (henc : encodeChunk header payload n = .ok bytes) {chunk : Chunk}
    (hout : (chunkDecoder.feed (core, []) bytes).2 = [chunk]) :
    chunk.payload.length ≠ payload.length := by
  obtain ⟨first, rest, core', henc', -, hrun, hcontinue, hothers, hrestlen⟩ :=
    encodeChunk_first ⟨hcsid.1, by omega⟩ hlen hpayload hn hlong hs hsize (hidle _)
  obtain rfl := Except.ok.inj (henc.symm.trans henc')
  rw [hrun.feed [] (first ++ rest) rest rfl, List.nil_append] at hout
  have hone : (encodeBasicHeader 3 header.chunkStreamId).length = 1 := by
    have hlt : header.chunkStreamId < 64 := by
      rw [UInt32.lt_iff_toNat_lt]
      exact hcsid.2
    rw [encodeBasicHeader, if_pos hlt]
    rfl
  have hext : (headerOf header).hasExtendedTimestamp = true := by
    simp only [headerOf, Stamp.of, dif_neg (Nat.not_lt.2 hstamp)]
    rfl
  have hcount := chunksFor_eq hn (x := payload.length) (by omega)
  rw [Nat.min_eq_left hlong.le] at hcount
  rw [hone, Nat.one_mul] at hrestlen
  refine hcontinue.lost hlong (fun c hc => by rw [hothers c hc, hidle]) ?_ ?_ hout
  · rw [hone, Nat.one_mul, hext, if_pos rfl]
    omega
  · omega

/-- **Neither does a message that was written as one chunk**, if the parser has no room for it in one:
it takes the first part of it for the whole chunk, and there are no headers in the rest. -/
theorem feed_unsplit_lost
    (hcsid : 2 ≤ header.chunkStreamId.toNat ∧ header.chunkStreamId.toNat ≤ 65599)
    (hlen : header.messageLength.toNat = payload.length) (hpayload : payload.length ≤ 0xFFFFFF)
    (hn : 1 ≤ n.toNat) (hlong : n.toNat < payload.length) (hs : Sane core)
    (hsize : core.chunkSize = n) (hidle : ∀ c, (core.streams c).bytesReceived = 0) {m : UInt32}
    (hm : payload.length ≤ m.toNat) {bytes : List UInt8}
    (henc : encodeChunk header payload m = .ok bytes) {chunk : Chunk}
    (hout : (chunkDecoder.feed (core, []) bytes).2 = [chunk]) :
    chunk.payload.length ≠ payload.length := by
  obtain ⟨first, -, core', -, hfirst, hrun, hcontinue, hothers, -⟩ :=
    encodeChunk_first hcsid hlen hpayload hn hlong hs hsize (hidle _)
  have hbytes : bytes = first ++ payload.drop n.toNat := by
    have hone := @encodeChunk_one header payload m (by omega) hm
    rw [Except.ok.inj (henc.symm.trans hone), hfirst, @List.append_assoc _ _ (payload.take n.toNat),
      List.take_append_drop]
  rw [hrun.feed [] bytes (payload.drop n.toNat) hbytes, List.nil_append] at hout
  have hcount := chunksFor_eq hn (x := payload.length - n.toNat) (by omega)
  have hbasic : 1 ≤ (encodeBasicHeader 3 header.chunkStreamId).length := by
    unfold encodeBasicHeader
    split_ifs <;> simp
  have hmul := Nat.mul_le_mul hbasic (hcount ▸ Nat.le_add_left 1 _ :
    1 ≤ chunksFor n.toNat (payload.length - n.toNat))
  refine hcontinue.lost hlong (fun c hc => by rw [hothers c hc, hidle]) ?_ ?_ hout
  · rw [List.length_drop]
    omega
  · rw [List.length_drop]
    omega

end Lost

/-- **The round trip succeeds exactly if the timestamp is not extended or the message is one
chunk.** -/
theorem encodeChunk_roundTrips_iff {header : ChunkHeader} {payload : List UInt8} {n : UInt32}
    (hcsid : 2 ≤ header.chunkStreamId.toNat ∧ header.chunkStreamId.toNat ≤ 65599)
    (hlen : header.messageLength.toNat = payload.length)
    (hpayload : 1 ≤ payload.length ∧ payload.length ≤ 0xFFFFFF) (hn : 1 ≤ n.toNat) :
    RoundTrips header payload n
      ↔ header.timestamp.toNat < 0xFFFFFF ∨ payload.length ≤ n.toNat := by
  constructor
  · intro h
    by_contra hcond
    rw [not_or, Nat.not_lt, Nat.not_le] at hcond
    exact not_roundTrips_extended hcsid hlen hpayload.2 hn hcond.1 hcond.2 h
  · intro hstamp
    obtain ⟨pieces, core, henc, -, hrun, -⟩ :=
      encodeChunk_run hcsid hlen hpayload hn hstamp (Sane.new n) rfl rfl
    exact ⟨_, _, _, henc, ChunkParser.parse_run rfl hrun.run, rfl, rfl, rfl, rfl, rfl, rfl⟩

/-- Two bytes in two chunks, at a time that is not extended. -/
theorem encodeChunk_roundTrips_two_chunks :
    RoundTrips ⟨0, 4, 40, 2, 8, 0, false⟩ [1, 2] 1
      ↔ (40 : UInt32).toNat < 0xFFFFFF ∨ [(1 : UInt8), 2].length ≤ (1 : UInt32).toNat :=
  encodeChunk_roundTrips_iff (by decide) (by decide) (by decide) (by decide)

/-- Two bytes in two chunks, at the first time that is extended: nothing is handed over. -/
theorem encodeChunk_extended_lost : ¬ RoundTrips ⟨0, 4, 0xFFFFFF, 2, 8, 0, false⟩ [1, 2] 1 := by
  rintro ⟨bytes, p, chunk, henc, hparse, -⟩
  have hbytes : encodeChunk ⟨0, 4, 0xFFFFFF, 2, 8, 0, false⟩ [1, 2] 1
      = .ok [0x04, 0xFF, 0xFF, 0xFF, 0, 0, 2, 8, 0, 0, 0, 0, 0, 0xFF, 0xFF, 0xFF, 1, 0xC4, 2] := by
    decide
  obtain rfl := Except.ok.inj (henc.symm.trans hbytes)
  have hnone : ((ChunkParser.new 1).parse
      [0x04, 0xFF, 0xFF, 0xFF, 0, 0, 2, 8, 0, 0, 0, 0, 0, 0xFF, 0xFF, 0xFF, 1, 0xC4, 2]).2.2
      = .ok [] := by
    decide
  rw [hparse] at hnone
  cases hnone

end Rtmp
